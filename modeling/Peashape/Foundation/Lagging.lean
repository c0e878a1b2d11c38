import Peashape.Foundation.Machine
import Mathlib.Data.List.Infix

/-!
# Broadcast channels whose slow receivers lag

A channel of a given capacity, any number of senders and any number of receivers. A value
that is sent goes to every receiver there is; the channel keeps the last values only, as many
as its capacity. A receiver that asks for the next value and whose next value is no longer
kept is told how many it missed, and goes on with the oldest one kept. Sending to nobody does
nothing. How a channel does this is its own business: `Broadcast` is what can be done with one,
and `Broadcast.Documented` what its users are told.

What one receiver sees is what it would see of a `Mailbox` of its own, in which everything
sent since it subscribed waits for it, and in which it finds only the last values when it
comes late: `Serves` is the simulation, and `run_serves` says it of whole runs. So receivers
do not disturb each other. `serve_accounts` is what a mailbox promises: the answers account
for a first part of what was sent, value by value and gap by gap, and the rest is unread.
-/

namespace Peashape.Foundation.Lagging

variable {α : Type*} {cap : ℕ}

/-- The answer to a receiver. -/
inductive Received (α : Type*) where
  /-- The next value. -/
  | value (x : α)
  /-- So many values were missed. -/
  | lagged (n : ℕ)
  /-- There is no value yet. -/
  | empty
  deriving DecidableEq

/-! ### Mailboxes -/

namespace Mailbox

/-- What can happen to a mailbox. -/
inductive Input (α : Type*) where
  /-- A value arrives. -/
  | arrive (x : α)
  /-- The owner asks for the next value. -/
  | recv

/-- The answer to the owner, and what is unread then: when more is unread than the capacity,
all but the last values are missed. -/
def recv (cap : ℕ) (unread : List α) : Received α × List α :=
  if cap < unread.length then (.lagged (unread.length - cap), unread.drop (unread.length - cap))
  else
    match unread with
    | [] => (.empty, [])
    | x :: unread => (.value x, unread)

/-- The answers to the owner, and what is unread in the end. -/
def serve (cap : ℕ) : List α → List (Input α) → List (Received α) × List α
  | unread, [] => ([], unread)
  | unread, .arrive x :: is => serve cap (unread ++ [x]) is
  | unread, .recv :: is =>
    let (answers, left) := serve cap (recv cap unread).2 is
    ((recv cap unread).1 :: answers, left)

/-- The value that arrives. -/
def Input.arrival : Input α → Option α
  | .arrive x => some x
  | .recv => none

/-- The values that arrive. -/
def arrivals (is : List (Input α)) : List α := is.filterMap Input.arrival

@[simp] theorem arrivals_nil : arrivals ([] : List (Input α)) = [] := rfl

@[simp] theorem arrivals_arrive (x : α) (is : List (Input α)) : arrivals (.arrive x :: is) = x :: arrivals is := rfl

@[simp] theorem arrivals_recv (is : List (Input α)) : arrivals (.recv :: is) = arrivals is := rfl

theorem recv_of_lt {unread : List α} (h : cap < unread.length) :
    recv cap unread = (.lagged (unread.length - cap), unread.drop (unread.length - cap)) := if_pos h

@[simp] theorem recv_nil : recv cap ([] : List α) = (.empty, []) := rfl

theorem recv_cons {x : α} {unread : List α} (h : unread.length < cap) :
    recv cap (x :: unread) = (.value x, unread) := if_neg (by rw [List.length_cons]; omega)

theorem serve_append : ∀ (is js : List (Input α)) (unread : List α),
    serve cap unread (is ++ js) =
      ((serve cap unread is).1 ++ (serve cap (serve cap unread is).2 js).1, (serve cap (serve cap unread is).2 js).2)
  | [], _, _ => rfl
  | .arrive x :: is, js, unread => serve_append is js (unread ++ [x])
  | .recv :: is, js, unread => by
    simp only [List.cons_append, serve, serve_append is js (recv cap unread).2]

end Mailbox

/-! ### Accounting -/

/-- The answers account for these values: each value once, in order, but for gaps that were
announced with their length. -/
inductive Accounts : List (Received α) → List α → Prop
  /-- No answers account for nothing. -/
  | nil : Accounts [] []
  /-- A value accounts for itself. -/
  | value {rs : List (Received α)} {xs : List α} (x : α) (h : Accounts rs xs) : Accounts (.value x :: rs) (x :: xs)
  /-- A gap accounts for as many values as it says. -/
  | lagged {rs : List (Received α)} {xs missed : List α} (hne : missed ≠ []) (h : Accounts rs xs) :
      Accounts (.lagged missed.length :: rs) (missed ++ xs)
  /-- To be told of no value accounts for none. -/
  | empty {rs : List (Received α)} {xs : List α} (h : Accounts rs xs) : Accounts (.empty :: rs) xs

/-- The values among the answers. -/
def values : List (Received α) → List α
  | [] => []
  | .value x :: rs => x :: values rs
  | .lagged _ :: rs | .empty :: rs => values rs

/-- How many values were missed, by all the gaps together. -/
def missed : List (Received α) → ℕ
  | [] => 0
  | .lagged n :: rs => n + missed rs
  | .value _ :: rs | .empty :: rs => missed rs

namespace Accounts

variable {rs : List (Received α)} {xs : List α}

/-- What is received is among what was sent, in its order, and each value only once. -/
theorem values_sublist (h : Accounts rs xs) : (values rs).Sublist xs := by
  induction h with
  | nil => exact .refl []
  | value x _ ih => exact ih.cons_cons x
  | lagged _ _ ih => exact ih.trans (List.sublist_append_right _ _)
  | empty _ ih => exact ih

/-- Every value was received, or counted as missed. -/
theorem length_eq (h : Accounts rs xs) : xs.length = (values rs).length + missed rs := by
  induction h with
  | nil => rfl
  | value x _ ih => simp only [values, missed, List.length_cons, ih]; omega
  | lagged _ _ ih => simp only [values, missed, List.length_append, ih]; omega
  | empty _ ih => simpa only [values, missed] using ih

end Accounts

/-- **What a mailbox promises**: the answers account for a first part of what was unread or
arrived, and the rest is what is unread. -/
theorem serve_accounts : ∀ (is : List (Mailbox.Input α)) (unread : List α),
    ∃ read, unread ++ Mailbox.arrivals is = read ++ (Mailbox.serve cap unread is).2 ∧
      Accounts (Mailbox.serve cap unread is).1 read
  | [], unread => ⟨[], List.append_nil unread, .nil⟩
  | .arrive x :: is, unread => by
    obtain ⟨read, hread, hacc⟩ := serve_accounts is (unread ++ [x])
    refine ⟨read, ?_, hacc⟩
    rw [List.append_assoc] at hread
    exact hread
  | .recv :: is, unread => by
    obtain ⟨read, hread, hacc⟩ := serve_accounts is (Mailbox.recv cap unread).2
    simp only [Mailbox.serve, Mailbox.arrivals_recv]
    by_cases hlag : cap < unread.length
    · have hlen : (unread.take (unread.length - cap)).length = unread.length - cap := by
        rw [List.length_take]
        omega
      have hne : unread.take (unread.length - cap) ≠ [] := List.ne_nil_of_length_pos (by omega)
      rw [Mailbox.recv_of_lt hlag] at hread hacc ⊢
      refine ⟨unread.take (unread.length - cap) ++ read, ?_, ?_⟩
      · rw [List.append_assoc, ← hread, ← List.append_assoc, List.take_append_drop]
      · have hgap := hacc.lagged hne
        rwa [hlen] at hgap
    · cases unread with
      | nil => exact ⟨read, hread, hacc.empty⟩
      | cons x unread =>
        rw [Mailbox.recv_cons (by rw [List.length_cons] at hlag; omega)] at hread hacc ⊢
        exact ⟨x :: read, by rw [List.cons_append, hread, List.cons_append], hacc.value x⟩

/-- The owner never asks with more unread than the capacity, when so many values are unread
and each question takes one of them. -/
def Prompt (cap : ℕ) : ℕ → List (Mailbox.Input α) → Prop
  | _, [] => True
  | k, .arrive _ :: is => Prompt cap (k + 1) is
  | k, .recv :: is => k ≤ cap ∧ Prompt cap (k - 1) is

instance Prompt.decidable (cap : ℕ) : ∀ (k : ℕ) (is : List (Mailbox.Input α)), Decidable (Prompt cap k is)
  | _, [] => inferInstanceAs (Decidable True)
  | k, .arrive _ :: is => Prompt.decidable cap (k + 1) is
  | k, .recv :: is =>
    have := Prompt.decidable cap (k - 1) is
    inferInstanceAs (Decidable (k ≤ cap ∧ Prompt cap (k - 1) is))

/-- **Nothing is missed exactly if the owner is prompt.** -/
theorem missed_serve_eq_zero_iff : ∀ (is : List (Mailbox.Input α)) (unread : List α),
    missed (Mailbox.serve cap unread is).1 = 0 ↔ Prompt cap unread.length is
  | [], _ => iff_of_true rfl trivial
  | .arrive x :: is, unread => by
    have ih := missed_serve_eq_zero_iff is (unread ++ [x])
    rwa [List.length_append, List.length_singleton] at ih
  | .recv :: is, unread => by
    have ih := missed_serve_eq_zero_iff is (Mailbox.recv cap unread).2
    simp only [Mailbox.serve, Prompt]
    by_cases hlag : cap < unread.length
    · simp only [Mailbox.recv_of_lt hlag, missed]
      omega
    · cases unread with
      | nil => exact ih.trans (and_iff_right (Nat.zero_le cap)).symm
      | cons x unread =>
        have hlen : unread.length < cap := by rw [List.length_cons] at hlag; omega
        rw [Mailbox.recv_cons hlen] at ih ⊢
        exact ih.trans (and_iff_right (Nat.le_of_not_lt hlag)).symm

/-! ### The channel -/

/-- What the threads that share a channel do. -/
inductive Act (α : Type*) where
  /-- Send a value. -/
  | send (x : α)
  /-- A new receiver. -/
  | subscribe
  /-- A receiver asks for its next value. -/
  | recv (i : ℕ)
  /-- A receiver goes. -/
  | drop (i : ℕ)
  deriving DecidableEq

/-- What happens. -/
inductive Event (α : Type*) where
  /-- A value was sent to at least one receiver. -/
  | sent (x : α)
  /-- A receiver was answered. -/
  | told (i : ℕ) (answer : Received α)
  deriving DecidableEq

/-- A broadcast channel: its states, what can be done with it, and two views of a state. The
receivers are numbered in the order in which they subscribed. -/
structure Broadcast (χ α : Type*) where
  /-- A new channel. -/
  new : χ
  /-- Send a value: whether there was somebody to send it to, and the channel then. -/
  send : χ → α → Bool × χ
  /-- A new receiver. -/
  subscribe : χ → χ
  /-- A receiver asks for its next value. -/
  recv : χ → ℕ → Received α × χ
  /-- A receiver goes. -/
  drop : χ → ℕ → χ
  /-- The values sent to somebody so far, in order. -/
  sent : χ → List α
  /-- For each receiver how many of these came before the next value it is to get, or nothing once
  it is gone. -/
  cursors : χ → List (Option ℕ)

variable {χ : Type*}

/-- What is documented of a channel of capacity `cap`. -/
structure Broadcast.Documented (B : Broadcast χ α) (cap : ℕ) : Prop where
  /-- Nothing was sent. -/
  sent_new : B.sent B.new = []
  /-- And there is nobody. -/
  cursors_new : B.cursors B.new = []
  /-- With a receiver there, the value is sent to all there are. -/
  send_live : ∀ ch x p, some p ∈ B.cursors ch → (B.send ch x).1 = true ∧ B.sent (B.send ch x).2 = B.sent ch ++ [x]
  /-- With nobody there, it is not. -/
  send_dead : ∀ ch x, (∀ p, some p ∉ B.cursors ch) → (B.send ch x).1 = false ∧ B.sent (B.send ch x).2 = B.sent ch
  /-- Sending moves no receiver. -/
  cursors_send : ∀ ch x, B.cursors (B.send ch x).2 = B.cursors ch
  /-- Subscribing sends nothing. -/
  sent_subscribe : ∀ ch, B.sent (B.subscribe ch) = B.sent ch
  /-- A new receiver gets what is sent from now on. -/
  cursors_subscribe : ∀ ch, B.cursors (B.subscribe ch) = B.cursors ch ++ [some (B.sent ch).length]
  /-- Asking sends nothing. -/
  sent_recv : ∀ ch i, B.sent (B.recv ch i).2 = B.sent ch
  /-- A receiver whose next value is not among the last `cap` is told how many it missed, and is
  moved to the oldest of these. -/
  recv_lagged : ∀ ch i p, (B.cursors ch)[i]? = some (some p) → p + cap < (B.sent ch).length →
    (B.recv ch i).1 = .lagged ((B.sent ch).length - cap - p) ∧
      B.cursors (B.recv ch i).2 = (B.cursors ch).set i (some ((B.sent ch).length - cap))
  /-- Any other gets its next value. -/
  recv_value : ∀ ch i p x, (B.cursors ch)[i]? = some (some p) → (B.sent ch).length ≤ p + cap →
    (B.sent ch)[p]? = some x → (B.recv ch i).1 = .value x ∧ B.cursors (B.recv ch i).2 = (B.cursors ch).set i (some (p + 1))
  /-- If there is one. -/
  recv_empty : ∀ ch i p, (B.cursors ch)[i]? = some (some p) → (B.sent ch).length ≤ p →
    (B.recv ch i).1 = .empty ∧ B.cursors (B.recv ch i).2 = B.cursors ch
  /-- That a receiver goes sends nothing. -/
  sent_drop : ∀ ch i, B.sent (B.drop ch i) = B.sent ch
  /-- And moves no other. -/
  cursors_drop : ∀ ch i, B.cursors (B.drop ch i) = (B.cursors ch).set i none

/-- The channel, step by step. A receiver that is gone asks for nothing. -/
def Broadcast.step (B : Broadcast χ α) (ch : χ) : Act α → Option (List (Event α) × χ)
  | .send x =>
    let (live, ch) := B.send ch x
    some (if live then [.sent x] else [], ch)
  | .subscribe => some ([], B.subscribe ch)
  | .recv i =>
    match (B.cursors ch)[i]? with
    | some (some _) =>
      let (answer, ch) := B.recv ch i
      some ([.told i answer], ch)
    | _ => none
  | .drop i => some ([], B.drop ch i)

/-- A channel that remembers everything. -/
structure Log (α : Type*) where
  /-- What was sent. -/
  sent : List α := []
  /-- Where the receivers are. -/
  cursors : List (Option ℕ) := []
  deriving DecidableEq

/-- The answer to a receiver, and the number of the next value it is to get. -/
def Log.answer (cap p : ℕ) (log : Log α) : Received α × ℕ :=
  if p + cap < log.sent.length then (.lagged (log.sent.length - cap - p), log.sent.length - cap)
  else
    match log.sent[p]? with
    | none => (.empty, p)
    | some x => (.value x, p + 1)

/-- The channel of capacity `cap` that remembers everything. -/
def Broadcast.plain (cap : ℕ) : Broadcast (Log α) α where
  new := {}
  send log x := if log.cursors.any Option.isSome then (true, { log with sent := log.sent ++ [x] }) else (false, log)
  subscribe log := { log with cursors := log.cursors ++ [some log.sent.length] }
  recv log i :=
    match log.cursors[i]? with
    | some (some p) =>
      let (answer, q) := log.answer cap p
      (answer, { log with cursors := log.cursors.set i (some q) })
    | _ => (.empty, log)
  drop log i := { log with cursors := log.cursors.set i none }
  sent := Log.sent
  cursors := Log.cursors

/-- To write what is there changes nothing. -/
theorem set_of_getElem? {β : Type*} {xs : List β} {i : ℕ} {x : β} (h : xs[i]? = some x) : xs.set i x = xs := by
  obtain ⟨hi, rfl⟩ := List.getElem?_eq_some_iff.mp h
  exact List.set_getElem_self hi

/-- It does what is documented. -/
theorem Broadcast.plain_documented (cap : ℕ) : (Broadcast.plain cap : Broadcast (Log α) α).Documented cap where
  sent_new := rfl
  cursors_new := rfl
  send_live log x p hp := by
    have hany : log.cursors.any Option.isSome = true := List.any_eq_true.mpr ⟨some p, hp, rfl⟩
    simp only [Broadcast.plain, if_pos hany, and_self]
  send_dead log x hnone := by
    have hany : log.cursors.any Option.isSome = false := List.any_eq_false.mpr fun c hc => by
      cases c with
      | none => exact Bool.false_ne_true
      | some p => exact absurd hc (hnone p)
    simp only [Broadcast.plain, hany, Bool.false_eq_true, if_false, and_self]
  cursors_send log x := by
    simp only [Broadcast.plain]
    split_ifs <;> rfl
  sent_subscribe _ := rfl
  cursors_subscribe _ := rfl
  sent_recv log i := by
    simp only [Broadcast.plain]
    split <;> rfl
  recv_lagged log i p hp hlag := by
    simp only [Broadcast.plain] at hp hlag ⊢
    simp [hp, Log.answer, hlag]
  recv_value log i p x hp hkept hx := by
    simp only [Broadcast.plain] at hp hkept hx ⊢
    simp [hp, Log.answer, Nat.not_lt.mpr hkept, hx]
  recv_empty log i p hp hend := by
    simp only [Broadcast.plain] at hp hend ⊢
    have hnone : log.sent[p]? = none := List.getElem?_eq_none hend
    simp [hp, Log.answer, Nat.not_lt.mpr (hend.trans (Nat.le_add_right p cap)), hnone, set_of_getElem? hp]
  sent_drop _ _ := rfl
  cursors_drop _ _ := rfl

/-- What an action of the channel is to the mailbox of receiver `i`. -/
def Act.input (i : ℕ) : Act α → Option (Mailbox.Input α)
  | .send x => some (.arrive x)
  | .recv j => if j = i then some .recv else none
  | .subscribe | .drop _ => none

/-- What receiver `i` is told. -/
def told (i : ℕ) : List (Event α) → List (Received α)
  | [] => []
  | .sent _ :: es => told i es
  | .told j answer :: es => if j = i then answer :: told i es else told i es

theorem told_append (i : ℕ) : ∀ es es' : List (Event α), told i (es ++ es') = told i es ++ told i es'
  | [], _ => rfl
  | .sent _ :: es, es' => told_append i es es'
  | .told j answer :: es, es' => by
    simp only [List.cons_append, told, told_append i es es']
    split_ifs <;> rfl

/-! ### Answers -/

/-- The answer to a receiver that is at position `p` when `xs` has been sent, and where it is then. -/
inductive Answers (cap : ℕ) (xs : List α) (p : ℕ) : Received α → ℕ → Prop
  /-- Its next value is no longer kept. -/
  | lagged (h : p + cap < xs.length) : Answers cap xs p (.lagged (xs.length - cap - p)) (xs.length - cap)
  /-- It has got everything. -/
  | empty (h : xs.length ≤ p) : Answers cap xs p .empty p
  /-- It gets its next value. -/
  | value {x : α} (h : xs.length ≤ p + cap) (hx : xs[p]? = some x) : Answers cap xs p (.value x) (p + 1)

namespace Answers

variable {xs : List α} {p q : ℕ} {answer : Received α}

/-- No receiver gets ahead of the senders. -/
theorem le_length (h : Answers cap xs p answer q) (hle : p ≤ xs.length) : q ≤ xs.length := by
  cases h with
  | lagged _ => exact Nat.sub_le _ _
  | empty _ => exact hle
  | value _ hx => exact (List.getElem?_eq_some_iff.mp hx).1

/-- **The answer is that of the mailbox** in which what was sent since the position waits. -/
theorem recv_drop (h : Answers cap xs p answer q) : Mailbox.recv cap (xs.drop p) = (answer, xs.drop q) := by
  cases h with
  | lagged h =>
    have hmail : cap < (xs.drop p).length := by rw [List.length_drop]; omega
    have hgap : xs.length - p - cap = xs.length - cap - p := by omega
    have hat : p + (xs.length - cap - p) = xs.length - cap := by omega
    rw [Mailbox.recv_of_lt hmail, List.length_drop, hgap, List.drop_drop, hat]
  | empty h => rw [List.drop_of_length_le h, Mailbox.recv_nil]
  | value h hx =>
    obtain ⟨hlt, rfl⟩ := List.getElem?_eq_some_iff.mp hx
    have hmail : (xs.drop (p + 1)).length < cap := by rw [List.length_drop]; omega
    rw [List.drop_eq_getElem_cons hlt, Mailbox.recv_cons hmail]

/-- It adds what was sent before the new position, or less, to what the receiver was told. -/
theorem values_sublist {ys : List α} (h : Answers cap xs p answer q) (hys : ys.Sublist (xs.take p)) :
    (ys ++ values [answer]).Sublist (xs.take q) := by
  have hmore : ∀ {r}, p ≤ r → (ys ++ []).Sublist (xs.take r) := fun hr => by
    rw [List.append_nil]
    exact hys.trans (List.take_sublist_take_left hr)
  cases h with
  | lagged h => exact hmore (by omega)
  | empty _ => exact hmore le_rfl
  | @value x _ hx =>
    rw [List.take_add_one, hx]
    exact hys.append (.refl [x])

end Answers

/-! ### A receiver and its mailbox -/

section Documented

variable {B : Broadcast χ α} {ch ch' : χ} {i : ℕ} {unread : List α} {a : Act α} {es : List (Event α)}
  (hB : B.Documented cap)

/-- **The simulation**: what is unread in the mailbox of a receiver is what was sent since the
position it is at. -/
structure Serves (B : Broadcast χ α) (i : ℕ) (ch : χ) (unread : List α) : Prop where
  /-- The receiver is there, at its position. -/
  follows : ∃ p, (B.cursors ch)[i]? = some (some p) ∧ p ≤ (B.sent ch).length ∧ unread = (B.sent ch).drop p

include hB

/-- A new receiver and its mailbox. -/
theorem Serves.subscribe (ch : χ) : Serves B (B.cursors ch).length (B.subscribe ch) [] := by
  refine ⟨(B.sent ch).length, ?_, ?_, ?_⟩
  · rw [hB.cursors_subscribe, List.getElem?_concat_length]
  · rw [hB.sent_subscribe]
  · rw [hB.sent_subscribe, List.drop_length]

/-- **What a receiver is answered**; and no other is moved. -/
theorem answers_recv {p : ℕ} (hp : (B.cursors ch)[i]? = some (some p)) :
    ∃ q, Answers cap (B.sent ch) p (B.recv ch i).1 q ∧
      B.cursors (B.recv ch i).2 = (B.cursors ch).set i (some q) := by
  by_cases hlag : p + cap < (B.sent ch).length
  · obtain ⟨hanswer, hcursors⟩ := hB.recv_lagged ch i p hp hlag
    rw [hanswer]
    exact ⟨_, .lagged hlag, hcursors⟩
  · have hkept := Nat.le_of_not_lt hlag
    cases hx : (B.sent ch)[p]? with
    | none =>
      have hend := List.getElem?_eq_none_iff.mp hx
      obtain ⟨hanswer, hcursors⟩ := hB.recv_empty ch i p hp hend
      rw [hanswer, hcursors]
      exact ⟨p, .empty hend, (set_of_getElem? hp).symm⟩
    | some x =>
      obtain ⟨hanswer, hcursors⟩ := hB.recv_value ch i p x hp hkept hx
      rw [hanswer]
      exact ⟨_, .value hkept hx, hcursors⟩

/-- A receiver is answered as by its mailbox. -/
theorem Serves.recv (h : Serves B i ch unread) :
    (B.recv ch i).1 = (Mailbox.recv cap unread).1 ∧ Serves B i (B.recv ch i).2 (Mailbox.recv cap unread).2 := by
  obtain ⟨p, hp, hle, rfl⟩ := h.follows
  obtain ⟨q, hanswers, hcursors⟩ := answers_recv hB hp
  rw [hanswers.recv_drop]
  refine ⟨rfl, q, ?_, ?_, ?_⟩
  · rw [hcursors, List.getElem?_set_self (List.getElem?_eq_some_iff.mp hp).1]
  · rw [hB.sent_recv]
    exact hanswers.le_length hle
  · rw [hB.sent_recv]

/-! ### Runs -/

/-- One step of the channel is a step of the mailbox of receiver `i`, or none. -/
theorem Serves.step (h : Serves B i ch unread) (ha : a ≠ .drop i) (hs : B.step ch a = some (es, ch')) :
    Serves B i ch' (Mailbox.serve cap unread (a.input i).toList).2 ∧
      told i es = (Mailbox.serve cap unread (a.input i).toList).1 := by
  obtain ⟨p, hp, hle, hunread⟩ := h.follows
  have hi : i < (B.cursors ch).length := (List.getElem?_eq_some_iff.mp hp).1
  cases a with
  | send x =>
    obtain ⟨hlive, hsent⟩ := hB.send_live ch x p (List.mem_of_getElem? hp)
    simp only [Broadcast.step, hlive, if_true] at hs
    cases hs
    refine ⟨⟨p, ?_, ?_, ?_⟩, rfl⟩
    · rwa [hB.cursors_send]
    · rw [hsent, List.length_append]
      omega
    · rw [hsent, List.drop_append_of_le_length hle, hunread]
      rfl
  | subscribe =>
    cases hs
    refine ⟨⟨p, ?_, ?_, ?_⟩, rfl⟩
    · rw [hB.cursors_subscribe, List.getElem?_append_left hi]
      exact hp
    · rwa [hB.sent_subscribe]
    · rw [hB.sent_subscribe]
      exact hunread
  | recv j =>
    simp only [Broadcast.step] at hs
    split at hs <;> cases hs
    rename_i q hq
    by_cases hj : j = i
    · subst hj
      obtain ⟨hanswer, hserves⟩ := h.recv hB
      simp only [Act.input, if_pos, Option.toList_some, Mailbox.serve, told, hanswer]
      exact ⟨hserves, trivial⟩
    · simp only [Act.input, if_neg hj, Option.toList_none, Mailbox.serve, told]
      obtain ⟨q', -, hcursors⟩ := answers_recv hB hq
      refine ⟨⟨p, ?_, ?_, ?_⟩, trivial⟩
      · rw [hcursors, List.getElem?_set_ne hj]
        exact hp
      · rwa [hB.sent_recv]
      · rw [hB.sent_recv]
        exact hunread
  | drop j =>
    cases hs
    have hj : j ≠ i := fun hj => ha (hj ▸ rfl)
    refine ⟨⟨p, ?_, ?_, ?_⟩, rfl⟩
    · rw [hB.cursors_drop, List.getElem?_set_ne hj]
      exact hp
    · rwa [hB.sent_drop]
    · rw [hB.sent_drop]
      exact hunread

/-- **Every receiver is served as by a mailbox of its own**, along every run. -/
theorem run_serves {ch₀ : χ} {as : List (Act α)} {tr : List (Event α)} (h0 : Serves B i ch₀ unread)
    (h : Run (stepOf B.step) ch₀ as tr ch) (hdrop : .drop i ∉ as) :
    Serves B i ch (Mailbox.serve cap unread (as.filterMap (Act.input i))).2 ∧
      told i tr = (Mailbox.serve cap unread (as.filterMap (Act.input i))).1 := by
  induction h with
  | nil => exact ⟨h0, rfl⟩
  | @snoc as tr s a es s' _ hs ih =>
    obtain ⟨has, ha⟩ : .drop i ∉ as ∧ a ≠ .drop i := by
      simpa [not_or, eq_comm] using hdrop
    obtain ⟨hserves, htold⟩ := ih has
    obtain ⟨hserves', htold'⟩ := hserves.step hB ha hs
    have hinputs : (as ++ [a]).filterMap (Act.input i) = as.filterMap (Act.input i) ++ (a.input i).toList := by
      cases hin : a.input i with
      | none => simp [hin]
      | some x => simp [hin]
    rw [hinputs, Mailbox.serve_append, told_append, htold, htold']
    exact ⟨hserves', rfl⟩

end Documented

/-! ### All receivers of a channel -/

/-- The values sent to at least one receiver. -/
def sentValues : List (Event α) → List α
  | [] => []
  | .sent x :: es => x :: sentValues es
  | .told _ _ :: es => sentValues es

theorem sentValues_append : ∀ es es' : List (Event α), sentValues (es ++ es') = sentValues es ++ sentValues es'
  | [], _ => rfl
  | .sent x :: es, es' => congrArg (x :: ·) (sentValues_append es es')
  | .told _ _ :: es, es' => sentValues_append es es'

theorem values_append : ∀ rs rs' : List (Received α), values (rs ++ rs') = values rs ++ values rs'
  | [], _ => rfl
  | .value x :: rs, rs' => congrArg (x :: ·) (values_append rs rs')
  | .lagged _ :: rs, rs' | .empty :: rs, rs' => values_append rs rs'

/-- The values that receivers were told of. -/
def toldValues : List (Event α) → List α
  | [] => []
  | .told _ (.value x) :: es => x :: toldValues es
  | .told _ _ :: es | .sent _ :: es => toldValues es

/-- Each was told to somebody. -/
theorem exists_told_of_mem {x : α} : ∀ es : List (Event α), x ∈ toldValues es → ∃ i, x ∈ values (told i es)
  | .sent _ :: es, h => exists_told_of_mem es h
  | .told j answer :: es, h => by
    have hlater : x ∈ toldValues es → ∃ i, x ∈ values (told i (.told j answer :: es)) := fun h => by
      obtain ⟨i, hi⟩ := exists_told_of_mem es h
      refine ⟨i, ?_⟩
      by_cases hj : j = i
      · cases answer <;> simp [told, values, hj, hi]
      · simpa [told, hj] using hi
    cases answer with
    | value y =>
      rcases List.mem_cons.mp h with rfl | h
      · exact ⟨j, by simp [told, values]⟩
      · exact hlater h
    | lagged n => exact hlater h
    | empty => exact hlater h

section Documented

variable {B : Broadcast χ α} {ch ch' : χ} {a : Act α} {as : List (Act α)} {es tr : List (Event α)}
  (hB : B.Documented cap)

/-- What a receiver was told is among what was sent before its position. -/
structure Heard (B : Broadcast χ α) (tr : List (Event α)) (ch : χ) : Prop where
  /-- These values were sent. -/
  sent : sentValues tr = B.sent ch
  /-- A receiver at position `p` was told of values before it. -/
  told : ∀ i p, (B.cursors ch)[i]? = some (some p) → (values (told i tr)).Sublist ((B.sent ch).take p)
  /-- A receiver that is gone was told of values that were sent. -/
  gone : ∀ i, (B.cursors ch)[i]? = some none → (values (Lagging.told i tr)).Sublist (B.sent ch)
  /-- Nobody else was told anything. -/
  nobody : ∀ i, (B.cursors ch).length ≤ i → Lagging.told i tr = []

/-- Whoever it is, it was told of values that were sent. -/
theorem Heard.told_sublist (h : Heard B tr ch) (i : ℕ) : (values (Lagging.told i tr)).Sublist (B.sent ch) := by
  cases hi : (B.cursors ch)[i]? with
  | none =>
    rw [h.nobody i (List.getElem?_eq_none_iff.mp hi)]
    exact List.nil_sublist _
  | some r =>
    cases r with
    | none => exact h.gone i hi
    | some p => exact (h.told i p hi).trans (List.take_sublist _ _)

include hB

theorem Heard.new : Heard B [] B.new := by
  refine ⟨hB.sent_new.symm, fun i p hi => ?_, fun i hi => ?_, fun _ _ => rfl⟩
  · rw [hB.cursors_new] at hi
    cases hi
  · rw [hB.cursors_new] at hi
    cases hi

/-- A step keeps it. -/
theorem Heard.step (h : Heard B tr ch) (hs : B.step ch a = some (es, ch')) : Heard B (tr ++ es) ch' := by
  cases a with
  | send x =>
    simp only [Broadcast.step, Option.some.injEq, Prod.mk.injEq] at hs
    obtain ⟨rfl, rfl⟩ := hs
    have htold : ∀ i, Lagging.told i (tr ++ if (B.send ch x).1 = true then [.sent x] else []) = Lagging.told i tr := by
      intro i
      rw [told_append]
      split_ifs <;> exact List.append_nil _
    have hsent : sentValues (tr ++ if (B.send ch x).1 = true then [.sent x] else []) = B.sent (B.send ch x).2 := by
      rw [sentValues_append, h.sent]
      by_cases hlive : ∃ p, some p ∈ B.cursors ch
      · obtain ⟨p, hp⟩ := hlive
        obtain ⟨htrue, hsent⟩ := hB.send_live ch x p hp
        rw [if_pos htrue, hsent]
        rfl
      · obtain ⟨hfalse, hsent⟩ := hB.send_dead ch x (not_exists.mp hlive)
        rw [if_neg (by rw [hfalse]; exact Bool.false_ne_true), hsent]
        exact List.append_nil _
    have hfront : B.sent ch <+: B.sent (B.send ch x).2 := by
      rw [← hsent, sentValues_append, h.sent]
      exact List.prefix_append _ _
    refine ⟨hsent, fun i p hi => ?_, fun i hi => ?_, fun i hi => ?_⟩ <;> rw [hB.cursors_send] at hi <;> rw [htold]
    · exact (h.told i p hi).trans (hfront.take p).sublist
    · exact (h.gone i hi).trans hfront.sublist
    · exact h.nobody i hi
  | subscribe =>
    cases hs
    rw [List.append_nil]
    refine ⟨by rw [hB.sent_subscribe, h.sent], fun i p hi => ?_, fun i hi => ?_, fun i hi => h.nobody i ?_⟩
    · rw [hB.cursors_subscribe] at hi
      rw [hB.sent_subscribe]
      rcases Nat.lt_or_ge i (B.cursors ch).length with hlt | hge
      · exact h.told i p ((List.getElem?_append_left hlt).symm.trans hi)
      · rw [h.nobody i hge]
        exact List.nil_sublist _
    · rw [hB.sent_subscribe]
      exact h.told_sublist i
    · rw [hB.cursors_subscribe, List.length_append] at hi
      omega
  | recv j =>
    simp only [Broadcast.step] at hs
    split at hs <;> cases hs
    rename_i p hp
    obtain ⟨q, hanswers, hcursors⟩ := answers_recv hB hp
    have hnew := hanswers.values_sublist (h.told j p hp)
    have hj : j < (B.cursors ch).length := (List.getElem?_eq_some_iff.mp hp).1
    have hother : ∀ i, i ≠ j → Lagging.told i (tr ++ [.told j (B.recv ch j).1]) = Lagging.told i tr := fun i hi => by
      rw [told_append]
      simp [Lagging.told, Ne.symm hi]
    have hself : values (Lagging.told j (tr ++ [.told j (B.recv ch j).1])) =
        values (Lagging.told j tr) ++ values [(B.recv ch j).1] := by
      rw [told_append, values_append]
      simp [Lagging.told]
    refine ⟨?_, fun i r hi => ?_, fun i hi => ?_, fun i hi => ?_⟩
    · rw [hB.sent_recv, sentValues_append, h.sent]
      exact List.append_nil _
    · rw [hcursors] at hi
      rw [hB.sent_recv]
      by_cases hij : i = j
      · subst hij
        rw [List.getElem?_set_self hj] at hi
        obtain rfl : q = r := Option.some.inj (Option.some.inj hi)
        rwa [hself]
      · rw [hother i hij]
        exact h.told i r ((List.getElem?_set_ne (Ne.symm hij)).symm.trans hi)
    · rw [hcursors] at hi
      rw [hB.sent_recv]
      have hij : i ≠ j := by
        rintro rfl
        rw [List.getElem?_set_self hj] at hi
        cases Option.some.inj hi
      rw [hother i hij]
      exact h.gone i ((List.getElem?_set_ne (Ne.symm hij)).symm.trans hi)
    · rw [hcursors, List.length_set] at hi
      rw [hother i (by omega)]
      exact h.nobody i hi
  | drop j =>
    cases hs
    rw [List.append_nil]
    refine ⟨by rw [hB.sent_drop, h.sent], fun i p hi => ?_, fun i hi => ?_, fun i hi => h.nobody i ?_⟩
    · rw [hB.cursors_drop] at hi
      rw [hB.sent_drop]
      have hij : j ≠ i := by
        rintro rfl
        simp [List.getElem?_set] at hi
      exact h.told i p ((List.getElem?_set_ne hij).symm.trans hi)
    · rw [hB.sent_drop]
      exact h.told_sublist i
    · rwa [hB.cursors_drop, List.length_set] at hi

/-- **Every receiver is told of values that were sent, in order and each once**, along every
run. -/
theorem values_told_sublist (h : Run (stepOf B.step) B.new as tr ch) (i : ℕ) :
    (values (told i tr)).Sublist (sentValues tr) := by
  have hheard : Heard B tr ch := h.invariant (Heard.new hB) fun hi hs => hi.step hB hs
  rw [hheard.sent]
  exact hheard.told_sublist i

end Documented

/-- The value an action sends. -/
def Act.sent : Act α → Option α
  | .send x => some x
  | _ => none

/-- What is sent to somebody is among what is sent. -/
theorem sentValues_sublist {B : Broadcast χ α} {ch₀ ch : χ} {as : List (Act α)} {tr : List (Event α)}
    (h : Run (stepOf B.step) ch₀ as tr ch) : (sentValues tr).Sublist (as.filterMap Act.sent) := by
  induction h with
  | nil => exact .refl []
  | @snoc as tr ch a es ch' _ hs ih =>
    rw [sentValues_append, List.filterMap_append]
    refine ih.append ?_
    simp only [stepOf] at hs
    cases a with
    | send x =>
      simp only [Broadcast.step, Option.some.injEq, Prod.mk.injEq] at hs
      obtain ⟨rfl, -⟩ := hs
      split_ifs
      · exact .refl [x]
      · exact List.nil_sublist _
    | subscribe => cases hs; exact .refl []
    | recv i =>
      simp only [Broadcast.step] at hs
      split at hs <;> cases hs
      exact .refl []
    | drop i => cases hs; exact .refl []

end Peashape.Foundation.Lagging

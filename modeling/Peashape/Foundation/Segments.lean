import Peashape.Foundation.Machine
import Mathlib.Data.List.Induction

/-!
# The segments of a history

Some events of a history begin something: a tick, a round, an epoch. `segments` cuts a
history before every such event, and keeps apart the segment that is under way, so that
an invariant can say one thing of it, with the state, and another of those that are over
(`Run.segments`). Nothing is lost by the cuts: see `flatten_segments`.

Of an event that may come several times one says what came before it and what came after,
each time: see `AtEach`, and `atEach_append` for how such a statement grows with the history.
-/

namespace Peashape.Foundation

variable {σ α ε : Type*} {mark : ε → Bool}

/-- Add an event to the segment under way, or to begin a new one. -/
def addEvent (mark : ε → Bool) (x : List ε × List (List ε)) (e : ε) : List ε × List (List ε) :=
  if mark e then ([e], x.1 :: x.2) else (x.1 ++ [e], x.2)

/-- The segment under way, and those that are over, latest first. The earliest one is what
comes before the first marked event. -/
def segments (mark : ε → Bool) (tr : List ε) : List ε × List (List ε) := tr.foldl (addEvent mark) ([], [])

@[simp] theorem segments_nil : segments mark ([] : List ε) = ([], []) := rfl

/-- Events that begin nothing are added to the segment under way. -/
theorem segments_append (tr : List ε) {es : List ε} (h : ∀ e ∈ es, mark e = false) :
    segments mark (tr ++ es) = ((segments mark tr).1 ++ es, (segments mark tr).2) := by
  induction es generalizing tr with
  | nil => simp
  | cons e es ih =>
    have he : segments mark (tr ++ [e]) = ((segments mark tr).1 ++ [e], (segments mark tr).2) := by
      simp [segments, addEvent, h e (List.mem_cons_self ..)]
    have hes := ih (tr ++ [e]) fun x hx => h x (List.mem_cons_of_mem _ hx)
    rw [List.append_assoc, List.singleton_append] at hes
    rw [hes, he, List.append_assoc, List.singleton_append]

/-- A marked event begins a segment, and the one under way is over. -/
theorem segments_concat (tr : List ε) {e : ε} (h : mark e = true) :
    segments mark (tr ++ [e]) = ([e], (segments mark tr).1 :: (segments mark tr).2) := by
  simp [segments, addEvent, h]

/-- The segments, in order, are the history. -/
theorem flatten_segments (mark : ε → Bool) (tr : List ε) :
    ((segments mark tr).1 :: (segments mark tr).2).reverse.flatten = tr := by
  induction tr using List.reverseRecOn with
  | nil => rfl
  | append_singleton tr e ih =>
    rw [List.reverse_cons, List.flatten_append, List.flatten_singleton] at ih
    cases he : mark e with
    | true =>
      rw [segments_concat tr he, List.reverse_cons, List.reverse_cons, List.flatten_append, List.flatten_append,
        List.flatten_singleton, List.flatten_singleton, ih]
    | false =>
      rw [segments_append tr (by simpa using he), List.reverse_cons, List.flatten_append, List.flatten_singleton,
        ← List.append_assoc, ih]

/-- **The invariant rule for segments.** `cur` is about the segment under way, and `done`
about those that are over. A step adds to the segment under way and keeps `cur`, or it
leaves one event that begins a new one, and the old one is done. -/
theorem Run.segments {step : σ → α → List ε → σ → Prop} {s₀ s : σ} (cur : List ε → σ → Prop) (done : List ε → Prop)
    (h0 : cur [] s₀)
    (hstep : ∀ {t s a es s'}, cur t s → step s a es s' →
      ((∀ e ∈ es, mark e = false) ∧ cur (t ++ es) s') ∨ ∃ e, es = [e] ∧ mark e = true ∧ done t ∧ cur [e] s')
    {as : List α} {tr : List ε} (h : Run step s₀ as tr s) :
    cur (segments mark tr).1 s ∧ ∀ t ∈ (segments mark tr).2, done t := by
  refine h.invariant (I := fun tr s => cur (Foundation.segments mark tr).1 s ∧
    ∀ t ∈ (Foundation.segments mark tr).2, done t) ⟨h0, by simp⟩ ?_
  rintro tr s a es s' ⟨hcur, hdone⟩ hs
  rcases hstep hcur hs with ⟨hes, hcur'⟩ | ⟨e, rfl, he, hd, hcur'⟩
  · rw [segments_append tr hes]
    exact ⟨hcur', hdone⟩
  · rw [segments_concat tr he]
    refine ⟨hcur', fun t ht => ?_⟩
    rcases List.mem_cons.mp ht with rfl | ht
    · exact hd
    · exact hdone t ht

/-! ### Before and after an event -/

section AtEach

variable {x : ε} {P Q : List ε → List ε → Prop} {tr es : List ε}

/-- Wherever the event `x` is in the history, `P` holds of what came before and of what
came after. -/
def AtEach (x : ε) (P : List ε → List ε → Prop) (tr : List ε) : Prop :=
  ∀ pre post, tr = pre ++ x :: post → P pre post

theorem AtEach.mono (h : AtEach x P tr) (hle : ∀ pre post, tr = pre ++ x :: post → P pre post → Q pre post) :
    AtEach x Q tr :=
  fun pre post he => hle pre post he (h pre post he)

/-- Of an event that is not there, anything holds. -/
theorem atEach_of_not_mem (h : x ∉ tr) : AtEach x P tr := by
  rintro pre post rfl
  exact absurd (List.mem_append_right _ (List.mem_cons_self ..)) h

theorem atEach_singleton : AtEach x P [x] ↔ P [] [] := by
  constructor
  · exact fun h => h [] [] rfl
  · rintro h (_ | ⟨e, pre⟩) post he
    · cases he
      exact h
    · -- the list is too short for a second event
      have hlen := congrArg List.length he
      simp at hlen

/-- When the history grows, what is new came after the events that were there, and what was
there before those that are new. -/
theorem atEach_append : AtEach x P (tr ++ es) ↔
    AtEach x (fun pre post => P pre (post ++ es)) tr ∧ AtEach x (fun pre post => P (tr ++ pre) post) es := by
  constructor
  · intro h
    constructor
    · rintro pre post rfl
      exact h pre (post ++ es) (by simp)
    · rintro pre post rfl
      exact h (tr ++ pre) post (by simp)
  · rintro ⟨hold, hnew⟩ pre post he
    rcases List.append_eq_append_iff.mp he with ⟨bs, rfl, hes⟩ | ⟨bs, htr, hpost⟩
    · exact hnew bs post hes
    · cases bs with
      | nil =>
        rw [List.append_nil] at htr
        subst htr
        simpa using hnew [] post hpost.symm
      | cons b bs =>
        rw [List.cons_append, List.cons.injEq] at hpost
        obtain ⟨rfl, rfl⟩ := hpost
        exact hold pre bs htr

end AtEach

end Peashape.Foundation

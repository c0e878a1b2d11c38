import Peashape.Foundation.RoundRobin
import Peashape.Shaping.Noninterference

/-!
# Whose slot a tick is

In `PerConnection` scope a tick with peers connected sends one frame to one of them, and the
scheduler's memory alone decides to whom (`map_recipients_ticks`). Each such tick advances the
cursor by one and nothing else does (`cursor_run`).

Without random offsets the slots are taken in order, over and over, from the peer the cursor
is at, until the cursor wraps (`recipients_ticks`).
-/

namespace Peashape.Shaping

open Foundation Shaper NodeState RoundRobin

variable {Addr G : Type*} [DecidableEq Addr] {w : ℕ} {cfg : ShaperConfig} {cg : CoverGenerator G}
  {s : NodeState Addr G w} {randomize : Bool}

/-- Whom a tick sends to. -/
def slot (randomize : Bool) (sch : Scheduler Addr w) : List Addr → List Addr × Scheduler Addr w
  | [] => ([], sch)
  | q :: qs => ([(sch.pickRoundRobin q qs randomize).1], (sch.pickRoundRobin q qs randomize).2)

/-- Every tick sees these peers. -/
def SamePeers (peers : List Addr) (ops : List (Op Addr)) : Prop :=
  ∀ snapshot ∈ ops.filterMap Op.snapshot?, snapshot = peers

instance (peers : List Addr) (ops : List (Op Addr)) : Decidable (SamePeers peers ops) :=
  inferInstanceAs (Decidable (∀ snapshot ∈ _, snapshot = peers))

/-- How many ticks pick a peer. -/
def picks (ops : List (Op Addr)) : ℕ := (ops.filterMap Op.snapshot?).countP (· ≠ [])

omit [DecidableEq Addr] in
theorem picks_append (ops ops' : List (Op Addr)) : picks (ops ++ ops') = picks ops + picks ops' := by
  simp [picks]

omit [DecidableEq Addr] in
/-- Ticks that all see the same peers each pick one. -/
theorem picks_of_same {peers : List Addr} (hne : peers ≠ []) {ops : List (Op Addr)}
    (hsame : SamePeers peers ops) :
    picks ops = (ops.filterMap Op.snapshot?).length := by
  rw [picks, List.countP_eq_length]
  intro snapshot hsnap
  simpa [hsame snapshot hsnap] using hne

/-- The lanes decide nothing about it. -/
theorem slot_sendOne (hscope : cfg.scope = .perConnection randomize) (peers : List Addr) :
    recipients (sendOne cfg cg peers s).1 = (slot randomize s.scheduler peers).1 ∧
      (sendOne cfg cg peers s).2.scheduler = (slot randomize s.scheduler peers).2 := by
  cases peers with
  | nil =>
    obtain ⟨hsends, -, hsch⟩ := sendOne_perConnection_nil cg hscope s
    exact ⟨by rw [recipients, hsends]; rfl, hsch⟩
  | cons q qs =>
    obtain ⟨hsends, -, hsch⟩ := sendOne_perConnection cg hscope q qs s
    exact ⟨by rw [recipients, hsends]; rfl, hsch⟩

/-- Whom the ticks of a run send to. -/
theorem map_recipients_ticks (hscope : cfg.scope = .perConnection randomize) (ops : List (Op Addr)) :
    (ticks cfg cg s ops).map recipients = observeLow (slot randomize) s.scheduler (ops.filterMap Op.snapshot?) := by
  rw [ticks, map_observe]
  refine observe_eq_low NodeState.scheduler (I := fun _ : NodeState Addr G w => True) (fun _ => trivial) ?_ ?_ trivial
  · exact fun _ ha => scheduler_exec hscope _ ha
  · intro s op peers _ hop
    cases op <;> cases hop
    exact slot_sendOne hscope peers

theorem length_ticks (cfg : ShaperConfig) (cg : CoverGenerator G) (s : NodeState Addr G w)
    (ops : List (Op Addr)) :
    (ticks cfg cg s ops).length = (ops.filterMap Op.snapshot?).length := by
  have hall : List.Forall₂ (fun _ _ => True) (ops.filterMap Op.snapshot?) (ticks cfg cg s ops) :=
    forall₂_observe (I := fun _ => True) (fun _ => trivial) (fun _ _ => trivial) trivial
  exact hall.length_eq.symm

/-! ### The cursor -/

omit [DecidableEq Addr] in
theorem cursor_slot (sch : Scheduler Addr w) (peers : List Addr) :
    (slot randomize sch peers).2.cursor = sch.cursor + if peers = [] then 0 else 1 := by
  cases peers with
  | nil => simp [slot]
  | cons q qs => simp [slot, Scheduler.pickRoundRobin]

omit [DecidableEq Addr] in
/-- A pick moves it to the next number. -/
theorem cursor_pickRoundRobin {c : ℕ} {sch : Scheduler Addr w} (hc : sch.cursor = BitVec.ofNat w c) (q : Addr)
    (qs : List Addr) : (sch.pickRoundRobin q qs randomize).2.cursor = BitVec.ofNat w (c + 1) := by
  show sch.cursor + 1 = _
  rw [hc, BitVec.ofNat_add]
  rfl

/-- The cursor counts the picks. -/
theorem cursor_run (hscope : cfg.scope = .perConnection randomize) {s₀ : NodeState Addr G w} {ops : List (Op Addr)}
    {tr : List (Event Addr)} (h : Run (NodeState.Step cfg cg) s₀ ops tr s) :
    s.scheduler.cursor = s₀.scheduler.cursor + BitVec.ofNat w (picks ops) := by
  induction h with
  | nil => simp [picks]
  | @snoc ops tr s op es s' _ hstep ih =>
    obtain ⟨rfl, rfl⟩ := exec_of_step cfg cg hstep
    cases hop : op.snapshot? with
    | none =>
      rw [scheduler_exec hscope s hop, ih]
      simp [picks, hop]
    | some peers =>
      have hcount : picks (ops ++ [op]) = picks ops + if peers = [] then 0 else 1 := by
        rw [picks_append]
        by_cases hnil : peers = [] <;> simp [picks, hop, hnil]
      cases op <;> cases hop
      show (sendOne cfg cg peers s).2.scheduler.cursor = _
      rw [(slot_sendOne hscope peers).2, cursor_slot, ih, hcount]
      split_ifs <;> simp [BitVec.ofNat_add, BitVec.add_assoc]

/-- So it is no further on than they take it. -/
theorem cursor_le_run (hscope : cfg.scope = .perConnection randomize) {s₀ : NodeState Addr G w}
    {ops : List (Op Addr)} {tr : List (Event Addr)} (h : Run (NodeState.Step cfg cg) s₀ ops tr s) :
    s.scheduler.cursor.toNat ≤ s₀.scheduler.cursor.toNat + picks ops := by
  rw [cursor_run hscope h, BitVec.toNat_add, BitVec.toNat_ofNat]
  exact (Nat.mod_le _ _).trans (Nat.add_le_add_left (Nat.mod_le _ _) _)

/-! ### In order -/

omit [DecidableEq Addr] in
/-- Without random offsets the slots are turns. -/
theorem observeLow_slot {q : Addr} {qs : List Addr} (m : ℕ) : ∀ {c : ℕ} {sch : Scheduler Addr w},
    sch.cursor = BitVec.ofNat w c → c + m ≤ 2 ^ w →
    observeLow (slot false) sch (List.replicate m (q :: qs)) =
      (turns (q :: qs) (Nat.succ_pos _) c m).map fun p => [p] := by
  induction m with
  | zero => intros; rfl
  | succ m ih =>
    intro c sch hc hm
    have hturn : (sch.pickRoundRobin q qs false).1 = turn (q :: qs) (Nat.succ_pos _) c := by
      have hlt : c < 2 ^ w := by omega
      have hnat : sch.cursor.toNat = c := by
        rw [hc, BitVec.toNat_ofNat, Nat.mod_eq_of_lt hlt]
      show (q :: qs).get ⟨sch.cursor.toNat % (qs.length + 1), _⟩ = _
      simp only [hnat]
      rfl
    have hnext : (sch.pickRoundRobin q qs false).2.cursor = BitVec.ofNat w (c + 1) :=
      cursor_pickRoundRobin hc q qs
    rw [List.replicate_succ, turns_succ, List.map_cons, ← hturn, ← ih hnext (by omega)]
    rfl

/-- **The slots without random offsets.** If every tick sees the same peers, and the cursor
does not wrap, the ticks send to them in turn. -/
theorem recipients_ticks (hscope : cfg.scope = .perConnection false) {peers : List Addr} (hl : 0 < peers.length)
    {ops : List (Op Addr)} (hsame : SamePeers peers ops)
    (hwrap : s.scheduler.cursor.toNat + (ops.filterMap Op.snapshot?).length ≤ 2 ^ w) :
    (ticks cfg cg s ops).map recipients =
      (turns peers hl s.scheduler.cursor.toNat (ticks cfg cg s ops).length).map fun p => [p] := by
  obtain ⟨q, qs, rfl⟩ := List.exists_cons_of_length_pos hl
  rw [map_recipients_ticks hscope, length_ticks, List.eq_replicate_of_mem hsame]
  rw [observeLow_slot _ (by simp) hwrap, List.length_replicate]

end Peashape.Shaping

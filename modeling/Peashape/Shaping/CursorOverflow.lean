import Peashape.Model.Node
import Peashape.Model.Overflow
import Peashape.Shaping.Draws
import Peashape.Shaping.Noninterference

/-!
# The cursor and overflow checks

The cursor is advanced with `wrapping_add`, so every word is a cursor some day. The random
offset is added to it with `+`, which a build with overflow checks does not allow to pass
`2 ^ w - 1`: near the wrap of the cursor an offset may be too much, and `pick_targets` and
`pick_round_robin` panic. `cursor_sum_fits_iff` says when they do, by the number of picks made
so far and the number of peers picked from; and a run whose calls are never that near the wrap
is the same in either build. The calls on a node move the cursor by picks only
(`picksLead_of_run`), so this is so of every node.
-/

namespace Peashape.Shaping

open Foundation Scheduler

variable {Addr : Type*} {w : ℕ} {peers : List Addr}

/-! ### One call -/

theorem checkedSum_of_lt {cursor : BitVec w} {offset : ℕ} (h : cursor.toNat + offset < 2 ^ w) :
    checkedSum cursor offset = some (cursorSum cursor offset) := by
  rw [checkedSum, if_pos h, cursorSum_of_lt h]

theorem checkedSum_of_le {cursor : BitVec w} {offset : ℕ} (h : 2 ^ w ≤ cursor.toNat + offset) :
    checkedSum cursor offset = none :=
  if_neg (Nat.not_lt.mpr h)

/-- A draw whose sum fits is the draw without checks. -/
theorem drawChecked_of_lt {n : ℕ} {cursor : BitVec w} {rng : Stream' ℕ} {a : Fin n} {pool : List (Fin n)}
    (h : cursor.toNat + rng.head % (pool.length + 1) < 2 ^ w) :
    drawChecked cursor rng a pool = some (drawFrom cursor rng a pool) := by
  simp only [drawChecked, randomRange, checkedSum_of_lt h]
  rfl

/-- One whose sum does not is a panic. -/
theorem drawChecked_of_le {n : ℕ} {cursor : BitVec w} {rng : Stream' ℕ} {a : Fin n} {pool : List (Fin n)}
    (h : 2 ^ w ≤ cursor.toNat + rng.head % (pool.length + 1)) : drawChecked cursor rng a pool = none := by
  simp only [drawChecked, randomRange, checkedSum_of_le h]

/-- With both pools empty the loop breaks. -/
theorem pickLoopChecked_of_nil {st : Picking peers w} (hfresh : st.fresh = []) (hused : st.used = []) (k : ℕ) :
    pickLoopChecked k st = some st := by
  cases k with
  | zero => rfl
  | succ k => simp only [pickLoopChecked, hfresh, hused]

/-- A round whose sum fits is the round without checks. -/
theorem pickLoopChecked_of_lt {st st' : Picking peers w}
    (h : st.cursor.toNat + st.rng.head % poolSize st.fresh.length st.used.length < 2 ^ w)
    (hstep : pickStep st = some st') (k : ℕ) : pickLoopChecked (k + 1) st = pickLoopChecked k st' := by
  obtain ⟨_ | ⟨a, fresh⟩, _ | ⟨b, used⟩, chosen, cursor, rng⟩ := st <;>
    simp only [pickStep, Option.some.injEq, reduceCtorEq] at hstep <;> subst hstep <;>
    rw [pickLoopChecked] <;> simp only [drawChecked_of_lt h]

/-- One whose sum does not is a panic. -/
theorem pickLoopChecked_of_le {st st' : Picking peers w}
    (h : 2 ^ w ≤ st.cursor.toNat + st.rng.head % poolSize st.fresh.length st.used.length)
    (hstep : pickStep st = some st') (k : ℕ) : pickLoopChecked (k + 1) st = none := by
  obtain ⟨_ | ⟨a, fresh⟩, _ | ⟨b, used⟩, chosen, cursor, rng⟩ := st <;>
    simp only [pickStep, Option.some.injEq, reduceCtorEq] at hstep <;>
    simp only [pickLoopChecked, drawChecked_of_le h]

/-- **If the sums fit**, the loop is the one without checks. -/
theorem pickLoopChecked_of_sumsFit : ∀ {k : ℕ} {st : Picking peers w},
    SumsFit st.cursor (poolSizes k st.fresh.length st.used.length) →
      pickLoopChecked k st = some (pickLoop k st) := by
  intro k
  induction k with
  | zero => exact fun _ => rfl
  | succ k ih =>
    intro st hfit
    rcases pickStep_eq_takeAt st with ⟨hfresh, hused, hstep⟩ | ⟨i, fresh, used, htake, hstep⟩
    · rw [pickLoopChecked_of_nil hfresh hused]
      simp only [pickLoop, hstep]
    · have hsizes := poolSizes_of_takeAt htake k
      rw [hsizes] at hfit
      obtain ⟨hn, hrest⟩ := hfit
      have hpos : 0 < poolSize st.fresh.length st.used.length :=
        pos_of_mem_poolSizes (hsizes.symm ▸ List.mem_cons_self)
      have hlt := Nat.mod_lt st.rng.head hpos
      rw [pickLoopChecked_of_lt (by omega) hstep, ih hrest]
      simp only [pickLoop, hstep]

/-- **If they do not**, some offsets make it panic: at the first round whose sums do not all
fit, the largest one. -/
theorem sumsFit_of_isSome : ∀ {k : ℕ} (st : Picking peers w),
    (∀ rng, (pickLoopChecked k { st with rng := rng }).isSome = true) →
      SumsFit st.cursor (poolSizes k st.fresh.length st.used.length) := by
  intro k
  induction k with
  | zero => exact fun _ _ => trivial
  | succ k ih =>
    intro st h
    let n := poolSize st.fresh.length st.used.length
    let largest (rng : Stream' ℕ) : Picking peers w := { st with rng := Stream'.cons (n - 1) rng }
    rcases pickStep_eq_takeAt (largest st.rng) with ⟨hfresh, hused, -⟩ | ⟨i, fresh, used, htake, -⟩
    · rw [show st.fresh = [] from hfresh, show st.used = [] from hused]
      trivial
    · have hsizes : poolSizes (k + 1) st.fresh.length st.used.length = n :: poolSizes k fresh.length used.length :=
        poolSizes_of_takeAt htake k
      have hpos : 0 < n := pos_of_mem_poolSizes (hsizes.symm ▸ List.mem_cons_self)
      have hoffset : (n - 1) % n = n - 1 := Nat.mod_eq_of_lt (by omega)
      let after (rng : Stream' ℕ) : Picking peers w :=
        ⟨fresh, used, st.chosen ++ [peers.get i], st.cursor + 1, rng⟩
      have hstep : ∀ rng, pickStep (largest rng) = some (after rng) := fun rng => pickStep_of_takeAt htake
      have hlt : st.cursor.toNat + (n - 1) < 2 ^ w := by
        by_contra hge
        have hnone : pickLoopChecked (k + 1) (largest st.rng) = none :=
          pickLoopChecked_of_le (hoffset.symm ▸ Nat.not_lt.mp hge) (hstep st.rng) k
        have hsome : (pickLoopChecked (k + 1) (largest st.rng)).isSome = true := h _
        rw [hnone] at hsome
        cases hsome
      have hafter : ∀ rng, (pickLoopChecked k (after rng)).isSome = true := by
        intro rng
        have hround : pickLoopChecked (k + 1) (largest rng) = pickLoopChecked k (after rng) :=
          pickLoopChecked_of_lt (hoffset.symm ▸ hlt) (hstep rng) k
        rw [← hround]
        exact h _
      have hrest : SumsFit (st.cursor + 1) (poolSizes k fresh.length used.length) :=
        ih (after st.rng) hafter
      rw [hsizes]
      exact ⟨by omega, hrest⟩

/-- Where the loop does not panic, it is the loop without checks. -/
theorem pickLoop_of_checked : ∀ {k : ℕ} {st st' : Picking peers w},
    pickLoopChecked k st = some st' → pickLoop k st = st' := by
  intro k
  induction k with
  | zero => exact fun h => Option.some.inj h
  | succ k ih =>
    intro st st' h
    rcases pickStep_eq_takeAt st with ⟨hfresh, hused, hstep⟩ | ⟨i, fresh, used, htake, hstep⟩
    · rw [pickLoopChecked_of_nil hfresh hused] at h
      simp only [pickLoop, hstep]
      exact Option.some.inj h
    · rcases Nat.lt_or_ge (st.cursor.toNat + st.rng.head % poolSize st.fresh.length st.used.length) (2 ^ w) with
        hlt | hge
      · rw [pickLoopChecked_of_lt hlt hstep] at h
        simp only [pickLoop, hstep]
        exact ih h
      · rw [pickLoopChecked_of_le hge hstep] at h
        cases h

/-! ### Calls -/

section Calls

variable [DecidableEq Addr] {sch : Scheduler Addr w} {call : PickCall Addr}

/-- Every sum of the call fits, whatever the offsets. Without random offsets there is none. -/
def CallFits (sch : Scheduler Addr w) : PickCall Addr → Prop
  | .targets peers fanout => SumsFit sch.cursor (drawSizes peers fanout sch.lastPeers)
  | .roundRobin _ ps true => sch.cursor.toNat + (ps.length + 1) ≤ 2 ^ w
  | .roundRobin _ _ false => True

instance CallFits.decidable (sch : Scheduler Addr w) (call : PickCall Addr) : Decidable (CallFits sch call) :=
  match call with
  | .targets peers fanout => inferInstanceAs (Decidable (SumsFit sch.cursor (drawSizes peers fanout sch.lastPeers)))
  | .roundRobin _ ps true => inferInstanceAs (Decidable (sch.cursor.toNat + (ps.length + 1) ≤ 2 ^ w))
  | .roundRobin _ _ false => inferInstanceAs (Decidable True)

/-- **A call whose sums fit** does not panic, and does what it does without checks. -/
theorem execChecked_of_fits (h : CallFits sch call) : call.execChecked sch = some (call.exec sch) := by
  cases call with
  | targets peers fanout =>
    have hfit : SumsFit sch.cursor (drawSizes peers fanout sch.lastPeers) := h
    rw [drawSizes_eq] at hfit
    have hloop : pickLoopChecked (min fanout peers.length) (pickStart peers sch) =
        some (pickLoop (min fanout peers.length) (pickStart peers sch)) := pickLoopChecked_of_sumsFit hfit
    simp only [PickCall.execChecked, PickCall.exec, pickTargetsChecked, pickTargets, hloop, Option.map_some]
    split_ifs <;> rfl
  | roundRobin p ps randomize =>
    cases randomize with
    | false => rfl
    | true =>
      have hfit : sch.cursor.toNat + (ps.length + 1) ≤ 2 ^ w := h
      have hlt : sch.rng.head % (ps.length + 1) < ps.length + 1 := Nat.mod_lt _ (Nat.succ_pos _)
      have hsum : checkedSum sch.cursor (sch.rng.head % (ps.length + 1)) = some (cursorSum sch.cursor _) :=
        checkedSum_of_lt (by omega)
      simp only [PickCall.execChecked, PickCall.exec, pickRoundRobinChecked, pickRoundRobin, randomRange,
        if_true, hsum, Option.map_some]

/-- **The calls that never panic** are those whose sums fit. -/
theorem execChecked_isSome_iff :
    (∀ rng, (call.execChecked { sch with rng := rng }).isSome = true) ↔ CallFits sch call := by
  constructor
  · intro h
    cases call with
    | targets peers fanout =>
      show SumsFit sch.cursor (drawSizes peers fanout sch.lastPeers)
      by_cases hnil : peers.length = 0
      · rw [drawSizes, hnil, Nat.min_zero]
        trivial
      have hloop : ∀ rng,
          (pickLoopChecked (min fanout peers.length) { pickStart peers sch with rng := rng }).isSome = true := by
        intro rng
        have hcall := h rng
        simp only [PickCall.execChecked, pickTargetsChecked, if_neg hnil, Option.isSome_map] at hcall
        exact hcall
      rw [drawSizes_eq]
      exact sumsFit_of_isSome (pickStart peers sch) hloop
    | roundRobin p ps randomize =>
      cases randomize with
      | false => trivial
      | true =>
        show sch.cursor.toNat + (ps.length + 1) ≤ 2 ^ w
        -- the largest offset
        by_contra hlt
        have hoffset : ps.length % (ps.length + 1) = ps.length := Nat.mod_eq_of_lt (Nat.lt_succ_self _)
        have hnone : checkedSum sch.cursor ps.length = none := checkedSum_of_le (by omega)
        have hcall := h (Stream'.const ps.length)
        simp only [PickCall.execChecked, pickRoundRobinChecked, randomRange, if_true,
          show (Stream'.const ps.length).head = ps.length from rfl, hoffset, hnone] at hcall
        cases hcall
  · intro h rng
    have hfit : CallFits { sch with rng := rng } call := by
      cases call with
      | targets peers fanout => exact h
      | roundRobin p ps randomize => cases randomize <;> exact h
    rw [execChecked_of_fits hfit]
    rfl

/-- Where a call does not panic, it does what it does without checks. -/
theorem exec_of_checked {es : List Addr} {sch' : Scheduler Addr w} (h : call.execChecked sch = some (es, sch')) :
    call.exec sch = (es, sch') := by
  cases call with
  | targets peers fanout =>
    simp only [PickCall.execChecked, pickTargetsChecked] at h
    split_ifs at h with hnil
    · simpa only [PickCall.exec, pickTargets, if_pos hnil] using Option.some.inj h
    · obtain ⟨st, hloop, hst⟩ := Option.map_eq_some_iff.mp h
      simpa only [PickCall.exec, pickTargets, if_neg hnil, pickLoop_of_checked hloop] using hst
  | roundRobin p ps randomize =>
    cases randomize with
    | false => exact Option.some.inj h
    | true =>
      have hlt : sch.cursor.toNat + sch.rng.head % (ps.length + 1) < 2 ^ w := by
        by_contra hge
        simp [PickCall.execChecked, pickRoundRobinChecked, randomRange, checkedSum_of_le (Nat.not_lt.mp hge)] at h
      simp only [PickCall.execChecked, pickRoundRobinChecked, randomRange, if_true, checkedSum_of_lt hlt] at h
      exact Option.some.inj h

omit [DecidableEq Addr] in
/-- Each round of the loop advances the cursor. -/
theorem cursor_pickLoop : ∀ (k : ℕ) (st : Picking peers w),
    (pickLoop k st).cursor = st.cursor + BitVec.ofNat w (poolSizes k st.fresh.length st.used.length).length := by
  intro k
  induction k with
  | zero => simp [pickLoop, poolSizes]
  | succ k ih =>
    intro st
    rcases pickStep_eq_takeAt st with ⟨hfresh, hused, hstep⟩ | ⟨i, fresh, used, htake, hstep⟩
    · simp [pickLoop, hstep, hfresh, hused, poolSizes]
    · rw [poolSizes_of_takeAt htake k, List.length_cons, BitVec.ofNat_add]
      simp only [pickLoop, hstep, ih]
      rw [BitVec.add_assoc, BitVec.add_comm (BitVec.ofNat w _)]
      rfl

/-- A call advances it by as many as it makes picks. -/
theorem cursor_exec (sch : Scheduler Addr w) (call : PickCall Addr) :
    (call.exec sch).2.cursor = sch.cursor + BitVec.ofNat w call.picks := by
  cases call with
  | targets peers fanout =>
    show (sch.pickTargets peers fanout).2.cursor = sch.cursor + BitVec.ofNat w (min fanout peers.length)
    unfold pickTargets
    split_ifs with hnil
    · simp [hnil]
    · show (pickLoop _ _).cursor = _
      rw [cursor_pickLoop, length_poolSizes, length_pools_pickStart, min_eq_left (min_le_right fanout peers.length)]
      rfl
  | roundRobin p ps randomize => rfl

/-- **The cursor counts the picks.** -/
theorem cursor_picks {s₀ : Scheduler Addr w} {calls : List (PickCall Addr)} {tr : List Addr}
    (h : Run PickCall.Step s₀ calls tr sch) :
    sch.cursor = s₀.cursor + BitVec.ofNat w (calls.map PickCall.picks).sum := by
  induction h with
  | nil => simp
  | snoc _ hstep ih =>
    obtain ⟨-, rfl⟩ := Prod.ext_iff.mp (Option.some.inj hstep)
    rw [cursor_exec, ih, List.map_append, List.sum_append, List.map_singleton, List.sum_singleton,
      BitVec.ofNat_add, BitVec.add_assoc]

end Calls

/-! ### Runs -/

/-- All the sums of a pick among `n` peers fit if the last one does. -/
theorem sums_fit_iff (cursor : BitVec w) {n : ℕ} (hn : 0 < n) :
    (∀ offset < n, ∃ sum, checkedSum cursor offset = some sum ∧ sum % n < n) ↔ cursor.toNat + n ≤ 2 ^ w := by
  constructor
  · intro h
    obtain ⟨sum, hsum, -⟩ := h (n - 1) (by omega)
    by_contra hlt
    rw [checkedSum_of_le (by omega)] at hsum
    cases hsum
  · intro h offset hoffset
    exact ⟨_, checkedSum_of_lt (by omega), Nat.mod_lt _ hn⟩

variable [DecidableEq Addr] {sch : Scheduler Addr w} {rng : Stream' ℕ} {calls : List (PickCall Addr)}
  {tr : List Addr}

/-- A run with overflow checks on is a run. -/
theorem run_of_checked {s₀ : Scheduler Addr w}
    (h : Run PickCall.CheckedStep s₀ calls tr sch) : Run PickCall.Step s₀ calls tr sch :=
  h.mono fun hstep => congrArg some (exec_of_checked hstep)

/-- The cursor of a new scheduler counts the picks, modulo the word size. -/
theorem toNat_cursor_picks (h : Run PickCall.Step { rng := rng } calls tr sch) :
    sch.cursor.toNat = (calls.map PickCall.picks).sum % 2 ^ w := by
  rw [cursor_picks h]
  simp

/-- **When the sum with the offset fits.** After any picks, all the index expressions of a
pick among `n` peers are computed without overflow if and only if the cursor is not in the
last `n - 1` words before its wrap, which the number of picks made so far decides; a call
never panics if and only if each of its rounds is so; and a run whose calls are all so is the
same with overflow checks on. -/
theorem cursor_sum_fits_iff (h : Run PickCall.Step { rng := rng } calls tr sch) :
    (∀ n, 0 < n → n < 2 ^ w →
      ((∀ offset < n, ∃ sum, checkedSum sch.cursor offset = some sum ∧ sum % n < n) ↔
        (calls.map PickCall.picks).sum % 2 ^ w + n ≤ 2 ^ w)) ∧
    (∀ call : PickCall Addr,
      (∀ offsets, (call.execChecked { sch with rng := offsets }).isSome = true) ↔ CallFits sch call) ∧
    (Run (Along PickCall.Step CallFits) { rng := rng } calls tr sch →
      Run PickCall.CheckedStep { rng := rng } calls tr sch) := by
  refine ⟨fun n hn _ => ?_, fun call => execChecked_isSome_iff, fun hfits => ?_⟩
  · rw [sums_fit_iff sch.cursor hn, toNat_cursor_picks h]
  · exact hfits.mono fun hstep => (execChecked_of_fits hstep.2).trans hstep.1

/-- Two calls that pick three peers, on a 64-bit machine. -/
theorem cursor_sum_fits_iff_two :
    ∃ (tr : List ℕ) (sch : Scheduler ℕ 64),
      (∀ n, 0 < n → n < 2 ^ 64 →
        ((∀ offset < n, ∃ sum, checkedSum sch.cursor offset = some sum ∧ sum % n < n) ↔ 3 % 2 ^ 64 + n ≤ 2 ^ 64)) ∧
      Run PickCall.CheckedStep { rng := Stream'.const 5 }
        [.roundRobin 1 [2] true, .targets [1, 2, 3] 2] tr sch := by
  have hfits : Run (Along PickCall.Step CallFits) ({ rng := Stream'.const 5 } : Scheduler ℕ 64)
      [.roundRobin 1 [2] true, .targets [1, 2, 3] 2] _ _ :=
    .cons ⟨rfl, by decide⟩ (.single ⟨rfl, by decide⟩)
  obtain ⟨hsums, -, hchecked⟩ := cursor_sum_fits_iff hfits.of_along
  exact ⟨_, _, hsums, hchecked hfits⟩

/-! ### The picks of a node -/

section Node

variable {G : Type*} {cfg : ShaperConfig} {cg : CoverGenerator G}

/-- Picks lead from one scheduler's memory to another. -/
def PicksLead (sch sch' : Scheduler Addr w) : Prop :=
  ∃ calls tr, Run PickCall.Step sch calls tr sch'

theorem PicksLead.refl (sch : Scheduler Addr w) : PicksLead sch sch :=
  ⟨[], [], .nil⟩

theorem PicksLead.trans {sch₀ sch₁ sch₂ : Scheduler Addr w} (h : PicksLead sch₀ sch₁) (h' : PicksLead sch₁ sch₂) :
    PicksLead sch₀ sch₂ := by
  obtain ⟨calls, tr, hrun⟩ := h
  obtain ⟨calls', tr', hrun'⟩ := h'
  exact ⟨calls ++ calls', tr ++ tr', hrun.trans hrun'⟩

/-- A call leads to what it leaves. -/
theorem PicksLead.exec (sch : Scheduler Addr w) (call : PickCall Addr) : PicksLead sch (call.exec sch).2 :=
  ⟨[call], (call.exec sch).1, .single rfl⟩

/-- A dispatch picks its targets. -/
theorem picksLead_dispatchGlobal (peers : List Addr) (frame : PendingFrame Addr) (g : G) (sch : Scheduler Addr w) :
    PicksLead sch (dispatchGlobal cfg cg peers frame g sch).scheduler := by
  unfold dispatchGlobal
  cases frame.target with
  | unicast target =>
    by_cases htarget : target ∈ peers
    · simp only [if_pos htarget]
      exact .exec sch (.targets (peers.filter (· ≠ target)) _)
    · simp only [if_neg htarget]
      exact .exec sch (.targets peers _)
  | broadcast => exact .exec sch (.targets peers _)

/-- A tick dispatches, or picks in turn. -/
theorem picksLead_sendOne (peers : List Addr) (s : NodeState Addr G w) :
    PicksLead s.scheduler (sendOne cfg cg peers s).2.scheduler := by
  unfold sendOne
  split
  · cases peers with
    | nil => exact .refl _
    | cons p ps => exact picksLead_dispatchGlobal (p :: ps) _ _ _
  · cases peers with
    | nil => exact .refl _
    | cons p ps => exact .exec s.scheduler (.roundRobin p ps _)

/-- So does each round of a passthrough drain. -/
theorem picksLead_drainGlobal (peers : List Addr) : ∀ (n : ℕ) (s : NodeState Addr G w),
    PicksLead s.scheduler (drainGlobal cfg cg peers n s).2.scheduler := by
  intro n
  induction n with
  | zero => exact fun s => .refl _
  | succ n ih =>
    intro s
    unfold drainGlobal
    cases s.shaper.nextFrame with
    | mk frame shaper =>
      cases frame with
      | none => exact .refl _
      | some real =>
        let d := dispatchTick cfg cg peers (some real) s.gen s.scheduler
        have hround : PicksLead s.scheduler d.scheduler := picksLead_dispatchGlobal peers _ _ _
        exact hround.trans (ih { s with shaper := shaper, scheduler := d.scheduler, gen := d.gen })

theorem picksLead_drainPassthrough (peers : List Addr) (s : NodeState Addr G w) :
    PicksLead s.scheduler (drainPassthrough cfg cg peers s).2.scheduler := by
  unfold drainPassthrough
  split
  · cases peers with
    | nil => exact .refl _
    | cons p ps => exact picksLead_drainGlobal (p :: ps) _ s
  · cases peers with
    | nil => exact .refl _
    | cons p ps =>
      simp only [scheduler_drainPeers]
      exact .refl _

/-- **The calls on a node move the scheduler's memory by picks only**, so what holds after any
picks holds of every node. -/
theorem picksLead_of_run {s₀ s : NodeState Addr G w} {ops : List (Op Addr)} {tr : List (Event Addr)}
    (h : Run (NodeState.Step cfg cg) s₀ ops tr s) : PicksLead s₀.scheduler s.scheduler := by
  induction h with
  | nil => exact .refl _
  | @snoc _ _ s op _ _ _ hstep ih =>
    obtain ⟨-, rfl⟩ := NodeState.exec_of_step cfg cg hstep
    refine ih.trans ?_
    cases op with
    | sendOne peers => exact picksLead_sendOne peers s
    | drainPassthrough peers => exact picksLead_drainPassthrough peers s
    | _ => exact .refl _

end Node

/-! ### Near the wrap -/

/-- The pick of the only peer there is: its one offset is `0`, so the sum always fits. -/
theorem execChecked_single_peer (p : Addr) (sch : Scheduler Addr w) :
    PickCall.execChecked sch (.roundRobin p [] true) =
      some ([p], ⟨sch.cursor + 1, sch.lastPeers, sch.rng.tail⟩) := by
  have hfits : CallFits sch (.roundRobin p [] true) := sch.cursor.isLt
  rw [execChecked_of_fits hfits]
  simp [PickCall.exec, pickRoundRobin, randomRange]

/-- Picks of the only peer, one after another. -/
theorem run_single_peer (p : Addr) (cursor : BitVec w) (lastPeers : List Addr) (c : ℕ) : ∀ m : ℕ,
    Run PickCall.CheckedStep ⟨cursor, lastPeers, Stream'.const c⟩ (List.replicate m (.roundRobin p [] true))
      (List.replicate m p) ⟨cursor + BitVec.ofNat w m, lastPeers, Stream'.const c⟩ := by
  intro m
  induction m with
  | zero => simpa using Run.nil
  | succ m ih =>
    rw [List.replicate_succ', List.replicate_succ', BitVec.ofNat_add, ← BitVec.add_assoc]
    exact ih.snoc (execChecked_single_peer p _)

/-- On a 32-bit machine, `2 ^ 32 - 1` picks of the only peer leave the cursor at the last
word, overflow checks or not. When a second peer is connected by then, its offset `1` is too
much, in `pick_round_robin` and in `pick_targets`. -/
theorem cursor_sum_overflows :
    ∃ sch : Scheduler ℕ 32,
      Run PickCall.CheckedStep { rng := Stream'.const 1 }
        (List.replicate 4294967295 (.roundRobin 1 [] true)) (List.replicate 4294967295 1) sch ∧
      (¬ ∃ sum, checkedSum sch.cursor 1 = some sum ∧ sum % 2 < 2) ∧
      PickCall.execChecked sch (.roundRobin 1 [2] true) = none ∧
      PickCall.execChecked sch (.targets [1, 2] 1) = none := by
  refine ⟨⟨4294967295#32, [], Stream'.const 1⟩, ?_, ?_, rfl, rfl⟩
  · have hrun := run_single_peer 1 (0#32) [] 1 4294967295
    rw [BitVec.zero_add] at hrun
    exact hrun
  · rintro ⟨sum, hsum, -⟩
    cases hsum

end Peashape.Shaping

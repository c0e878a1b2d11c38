import Peashape.Shaping.GlobalPassthrough
import Peashape.Shaping.Refinement

/-!
# How much one drain pops

"Drain everything that's accumulated so far. Bounded by the lane capacity." The loop of
`drain_passthrough` in `Global` scope pops until it finds both lanes empty, and application
threads may push meanwhile. So whatever was queued when it began, with a thread that keeps
pushing it pops as many frames as one likes before it returns (`run_rounds`), and only with
the empty snapshot, when it returns at once, is there a bound (`drain_bounded_iff`). One pass
pops what was queued when it began and what was added before its last pop (`popped_eq_added`),
and stays within the capacity of the two lanes when these do.
-/

namespace Peashape.Shaping

open Foundation Shaper SystemState

variable {Addr G : Type*} [DecidableEq Addr] {w : ℕ} {cfg : ShaperConfig} {cg : CoverGenerator G}
  {s s' s₀ : SystemState Addr G w} {sch : Scheduler Addr w} {gen : G} {peers : List Addr} {a : Act Addr}
  {pre as : List (Act Addr)} {tr₀ tr es : List (Event Addr)}

/-- One pass of `drain_passthrough`, and what other threads do meanwhile: the scheduler, which has
just woken, takes the snapshot `peers`, and does not wake again. -/
structure OneDrain (cfg : ShaperConfig) (cg : CoverGenerator G) (s₀ : SystemState Addr G w) (peers : List Addr)
    (as : List (Act Addr)) (tr : List (Event Addr)) (s : SystemState Addr G w) : Prop where
  /-- It begins after the wake-up. -/
  woken : s₀.pc = .woken
  /-- The interleaving. -/
  run : Run (Step cfg cg) s₀ (.snapshot peers :: as) tr s
  /-- There is no other. -/
  once : ∀ a ∈ as, a ≠ .wake

/-- Whether a move is the scheduler's, or the submission of a frame. -/
def isSchedOrEnqueue : Act Addr → Bool
  | .sched | .enqueue .. => true
  | _ => false

/-- How many frames were put in the shared lanes. -/
def pushCount (tr : List (Event Addr)) : ℕ := (pushes none .high tr).length + (pushes none .low tr).length

/-- How many frames were evicted from them. -/
def evictCount (tr : List (Event Addr)) : ℕ := (evicts none .high tr).length + (evicts none .low tr).length

/-- The history up to the last pop from a shared lane; nothing, if there is none. -/
def untilLastPop (tr : List (Event Addr)) : List (Event Addr) := tr.rdropWhile fun e => (popsShared [e]).isEmpty

omit [DecidableEq Addr] in
theorem untilLastPop_append (tr : List (Event Addr)) (h : popsShared es = []) :
    untilLastPop (tr ++ es) = untilLastPop tr := by
  have hes : ∀ e ∈ es.reverse, (popsShared [e]).isEmpty = true := by
    intro e he
    rw [List.isEmpty_iff]
    apply List.filterMap_eq_nil_iff.mpr
    rintro e' he'
    rw [List.mem_singleton.mp he']
    exact List.filterMap_eq_nil_iff.mp h e (List.mem_reverse.mp he)
  rw [untilLastPop, List.rdropWhile, List.reverse_append, List.dropWhile_append_of_pos hes]
  rfl

omit [DecidableEq Addr] in
theorem untilLastPop_concat (tr : List (Event Addr)) (k : Lane) (f : PendingFrame Addr) :
    untilLastPop (tr ++ [.pop none k f]) = tr ++ [.pop none k f] :=
  List.rdropWhile_concat_neg _ _ _ Bool.noConfusion

/-! ### The balance -/

theorem length_popsShared (tr : List (Event Addr)) :
    (popsShared tr).length = (pops none .high tr).length + (pops none .low tr).length := by
  have h := congrArg Multiset.card (coe_popsShared tr)
  simpa using h

/-- What is in the lanes after a run of a new system. -/
theorem SharedLanes.balance (hi : SharedLanes tr s) :
    (popsShared tr).length + (s.shaper.highLane.length + s.shaper.lowLane.length) + evictCount tr =
      pushCount tr := by
  have hhigh := congrArg List.length hi.high
  have hlow := congrArg Multiset.card hi.low
  rw [hi.pushed] at hhigh hlow
  simp only [List.length_append, Multiset.card_add, Multiset.coe_card] at hhigh hlow
  rw [length_popsShared, evictCount, pushCount, hi.kept, List.length_nil]
  omega

/-- **The balance of a stretch of a run**: what is popped in it, with what is queued at its end,
is what was queued at its beginning, with what was pushed in it and not evicted. -/
theorem popped_add_queued (hscope : cfg.scope = .global) (hpre : Run (Step cfg cg) (.new sch gen) pre tr₀ s₀)
    (h : Run (Step cfg cg) s₀ as tr s) :
    (popsShared tr).length + s.shaper.queued + evictCount tr = s₀.shaper.queued + pushCount tr := by
  have hbefore := (sharedLanes_run hscope hpre).balance
  have hafter := (sharedLanes_run hscope (hpre.trans h)).balance
  have hwf₀ := systemWf_run (SystemWf.new sch gen) hpre
  have hwf := systemWf_run (SystemWf.new sch gen) (hpre.trans h)
  rw [queued_global hwf₀.shaper hscope, queued_global hwf.shaper hscope]
  simp only [evictCount, pushCount, popsShared_append, evicts_append, pushes_append, List.length_append] at *
  omega

/-! ### What a pass pops before it returns -/

/-- A dispatch pops nothing. -/
theorem popsShared_dispatchTick (peers : List Addr) (frame : Option (PendingFrame Addr)) (g : G)
    (sch : Scheduler Addr w) : popsShared (dispatchTick cfg cg peers frame g sch).events = [] := by
  refine popsShared_eq_nil fun owner k f hf => ?_
  have hd := ofDispatch_dispatchTick peers frame g sch _ hf
  cases hd

/-- What is known in a pass that began with `n` frames queued: of what the lanes held after the last
pop, `high` and `low` frames, nothing has left them. -/
structure SinceLastPop (n : ℕ) (tr : List (Event Addr)) (s : SystemState Addr G w) (high low : ℕ) : Prop where
  /-- The balance after the last pop. -/
  balance : (popsShared tr).length + (high + low) + evictCount (untilLastPop tr) = n + pushCount (untilLastPop tr)
  /-- The high lane has not shrunk. -/
  high_le : high ≤ s.shaper.highLane.length
  /-- The low lane has not shrunk. -/
  low_le : low ≤ s.shaper.lowLane.length
  /-- The scheduler is in the pass, or has returned. -/
  begun : s.pc ≠ .woken
  /-- Before the low lane is looked at, the high one was found empty. -/
  popLow : ∀ p ps, s.pc = .popLow p ps → high = 0
  /-- The pass returns when both were found empty. -/
  idle : s.pc = .idle → high = 0 ∧ low = 0

/-- A step that pops nothing and takes nothing out of the lanes. -/
theorem SinceLastPop.keep {n high low : ℕ} (hi : SinceLastPop n tr s high low) (hes : popsShared es = [])
    (hhigh : s.shaper.highLane.length ≤ s'.shaper.highLane.length)
    (hlow : s.shaper.lowLane.length ≤ s'.shaper.lowLane.length) (begun : s'.pc ≠ .woken)
    (popLow : ∀ p ps, s'.pc = .popLow p ps → high = 0) (idle : s'.pc = .idle → high = 0 ∧ low = 0) :
    SinceLastPop n (tr ++ es) s' high low where
  balance := by
    rw [popsShared_append, hes, List.append_nil, untilLastPop_append tr hes]
    exact hi.balance
  high_le := hi.high_le.trans hhigh
  low_le := hi.low_le.trans hlow
  begun := begun
  popLow := popLow
  idle := idle

/-- A step that also leaves the scheduler where it is. -/
theorem SinceLastPop.keepPc {n high low : ℕ} (hi : SinceLastPop n tr s high low) (hes : popsShared es = [])
    (hhigh : s.shaper.highLane.length ≤ s'.shaper.highLane.length)
    (hlow : s.shaper.lowLane.length ≤ s'.shaper.lowLane.length) (hpc : s'.pc = s.pc) :
    SinceLastPop n (tr ++ es) s' high low :=
  hi.keep hes hhigh hlow (hpc ▸ hi.begun) (hpc ▸ hi.popLow) (hpc ▸ hi.idle)

/-- A pop settles the balance anew. -/
theorem SinceLastPop.pop {n : ℕ} {k : Lane} {f : PendingFrame Addr} {p : Addr} {ps : List Addr}
    (hbalance : (popsShared (tr ++ [.pop none k f])).length +
      (s'.shaper.highLane.length + s'.shaper.lowLane.length) + evictCount (tr ++ [.pop none k f]) =
        n + pushCount (tr ++ [.pop none k f])) (hpc : s'.pc = .dispatch p ps (some f)) :
    SinceLastPop n (tr ++ [.pop none k f]) s' s'.shaper.highLane.length s'.shaper.lowLane.length where
  balance := by
    rw [untilLastPop_concat]
    exact hbalance
  high_le := le_rfl
  low_le := le_rfl
  begun := by simp [hpc]
  popLow := by simp [hpc]
  idle := by simp [hpc]

/-- **What a step of the pass keeps.** -/
theorem sinceLastPop_does (hstrategy : cfg.strategy = .none) (hwf : SystemWf cfg s) {n high low : ℕ}
    (hbalance : (popsShared (tr ++ es)).length + (s'.shaper.highLane.length + s'.shaper.lowLane.length) +
      evictCount (tr ++ es) = n + pushCount (tr ++ es))
    (hi : SinceLastPop n tr s high low) (ha : a ≠ .wake) (h : DoesGlobal cfg cg s a es s') :
    ∃ high low, SinceLastPop n (tr ++ es) s' high low := by
  cases h with
  | mismatch _ => exact ⟨high, low, hi.keepPc rfl le_rfl le_rfl rfl⟩
  | full _ => exact ⟨high, low, hi.keepPc rfl le_rfl le_rfl rfl⟩
  | pushHigh _ _ =>
    refine ⟨high, low, hi.keepPc rfl ?_ le_rfl rfl⟩
    simp only [List.length_append]
    omega
  | pushLow _ =>
    refine ⟨high, low, hi.keepPc (popsShared_eq_nil (by simp)) le_rfl ?_ rfl⟩
    -- a low lane within its capacity gives up one frame at most, for the one that is put in
    have hlow : s.shaper.lowLane.length ≤ cfg.lowLaneCapacity := (hwf.shaper.lanes none).low_le
    have hpos := cfg.low_pos
    simp only [List.length_cons, Deque.evictBack_eq_take cfg.low_pos, List.length_take]
    omega
  | notify _ => exact ⟨high, low, hi.keepPc rfl le_rfl le_rfl rfl⟩
  | aside haside _ =>
    refine ⟨high, low, hi.keepPc (popsShared_eq_nil fun owner k f hf => ?_) ?_ ?_ haside.pc⟩
    · obtain ⟨gone, hgone⟩ := haside.prunes _ hf
      cases hgone
    · rw [haside.high]
    · rw [haside.low]
  | tick _ _ => exact absurd rfl ha
  | consume _ _ _ => exact absurd rfl ha
  | alone hpc _ => exact absurd hpc hi.begun
  | snapshot hpc => exact absurd hpc hi.begun
  | highEmpty hpc hempty =>
    have hhigh : high = 0 := Nat.le_zero.mp (hi.high_le.trans_eq (congrArg List.length hempty))
    exact ⟨high, low, hi.keep rfl le_rfl le_rfl (by simp) (fun _ _ _ => hhigh) (by simp)⟩
  | popHigh hpc _ => exact ⟨_, _, .pop hbalance rfl⟩
  | @lowEmpty p ps hpc hempty =>
    have hhigh := hi.popLow _ _ hpc
    have hlow : low = 0 := Nat.le_zero.mp (hi.low_le.trans_eq (congrArg List.length hempty))
    have hidle : afterPopLow cfg p ps none = .idle := if_pos (decide_eq_true hstrategy)
    exact ⟨high, low, hi.keep rfl le_rfl le_rfl (by simp [hidle]) (by simp [hidle]) fun _ => ⟨hhigh, hlow⟩⟩
  | popLow hpc _ => exact ⟨_, _, .pop hbalance rfl⟩
  | @dispatch p ps _ _ =>
    have hnext : afterDispatch cfg p ps = .popHigh p ps := if_pos (decide_eq_true hstrategy)
    exact ⟨high, low, hi.keep (popsShared_dispatchTick _ _ _ _) le_rfl le_rfl (by simp [hnext]) (by simp [hnext])
      (by simp [hnext])⟩

/-- The snapshot, and the rest of the pass. -/
theorem OneDrain.snapshot (h : OneDrain cfg cg s₀ peers as tr s) :
    ∃ tr', tr = .snapshot peers :: tr' ∧
      Run (Step cfg cg) s₀ [.snapshot peers] [.snapshot peers] { s₀ with pc := afterSnapshot cfg peers } ∧
      Run (Along (Step cfg cg) fun _ a => a ≠ .wake) { s₀ with pc := afterSnapshot cfg peers } as tr' s := by
  rcases h.run.uncons with ⟨hnil, -⟩ | ⟨a, bs, es, s₁, tr', has, rfl, hstep, hrun⟩
  · cases hnil
  · cases has
    cases does_of_step hstep
    exact ⟨tr', rfl, .single hstep, hrun.along_of_forall h.once⟩

/-- **What a pass pops before it returns** is what was queued when it began, with what was pushed
before its last pop and not evicted. -/
theorem popped_eq_added (hscope : cfg.scope = .global) (hstrategy : cfg.strategy = .none)
    (hpre : Run (Step cfg cg) (.new sch gen) pre tr₀ s₀) (h : OneDrain cfg cg s₀ peers as tr s) (hne : peers ≠ [])
    (hidle : s.pc = .idle) :
    (popsShared tr).length + evictCount (untilLastPop tr) =
      s₀.shaper.queued + pushCount (untilLastPop tr) := by
  obtain ⟨p, ps, rfl⟩ := List.exists_cons_of_ne_nil hne
  obtain ⟨tr', rfl, hsnap, hrun⟩ := h.snapshot
  rw [afterSnapshot_global_cons hscope] at hsnap hrun
  have hqueued : s₀.shaper.queued = s₀.shaper.highLane.length + s₀.shaper.lowLane.length :=
    queued_global (systemWf_run (SystemWf.new sch gen) hpre).shaper hscope
  obtain ⟨high, low, hi⟩ : ∃ high low, SinceLastPop s₀.shaper.queued ([.snapshot (p :: ps)] ++ tr') s high low := by
    refine hrun.invariant_of
      (I := fun tr s => ∃ high low, SinceLastPop s₀.shaper.queued ([.snapshot (p :: ps)] ++ tr) s high low)
      (J := fun tr s => SystemWf cfg s ∧ ∃ as, Run (Step cfg cg) s₀ as ([.snapshot (p :: ps)] ++ tr) s)
      (fun hr => ?_) ⟨s₀.shaper.highLane.length, s₀.shaper.lowLane.length, ?_⟩ ?_
    · have hrest := hsnap.trans hr.of_along
      exact ⟨systemWf_run (SystemWf.new sch gen) (hpre.trans hrest), _, hrest⟩
    · -- nothing has been popped yet
      rw [hqueued]
      exact ⟨Nat.zero_add _, le_rfl, le_rfl, by simp, by simp, by simp⟩
    · rintro tr s a es s' ⟨hwf, as, hr⟩ ⟨high, low, hi⟩ ⟨hstep, ha⟩
      have hr' := hr.snoc hstep
      have hbalance := popped_add_queued hscope hpre hr'
      rw [queued_global (systemWf_run (SystemWf.new sch gen) (hpre.trans hr')).shaper hscope] at hbalance
      rw [← List.append_assoc]
      exact sinceLastPop_does hstrategy hwf hbalance hi ha (doesGlobal_of_does hscope hwf (does_of_step hstep))
  obtain ⟨hhigh, hlow⟩ := hi.idle hidle
  have hbalance := hi.balance
  rw [hhigh, hlow] at hbalance
  exact hbalance

/-- The scheduler that waits, and is not woken, pops nothing. -/
theorem idle_does (hpc : s.pc = .idle) (ha : a ≠ .wake) (h : DoesGlobal cfg cg s a es s') :
    popsShared es = [] ∧ s'.pc = .idle := by
  cases h with
  | pushLow _ => exact ⟨popsShared_eq_nil (by simp), hpc⟩
  | aside haside _ =>
    refine ⟨popsShared_eq_nil fun owner k f hf => ?_, haside.pc.trans hpc⟩
    obtain ⟨gone, hgone⟩ := haside.prunes _ hf
    cases hgone
  | tick _ _ => exact absurd rfl ha
  | consume _ _ _ => exact absurd rfl ha
  | alone hpc' _ => cases hpc.symm.trans hpc'
  | snapshot hpc' => cases hpc.symm.trans hpc'
  | highEmpty hpc' _ => cases hpc.symm.trans hpc'
  | popHigh hpc' _ => cases hpc.symm.trans hpc'
  | lowEmpty hpc' _ => cases hpc.symm.trans hpc'
  | popLow hpc' _ => cases hpc.symm.trans hpc'
  | dispatch hpc' => cases hpc.symm.trans hpc'
  | _ => exact ⟨rfl, hpc⟩

/-- With the empty snapshot the pass returns at once. -/
theorem popped_of_nil (hscope : cfg.scope = .global) (hpre : Run (Step cfg cg) (.new sch gen) pre tr₀ s₀)
    (h : OneDrain cfg cg s₀ [] as tr s) : popsShared tr = [] := by
  obtain ⟨tr', rfl, hsnap, hrun⟩ := h.snapshot
  rw [afterSnapshot_global_nil hscope] at hsnap hrun
  have hidle : popsShared tr' = [] ∧ s.pc = .idle := by
    refine hrun.invariant_of (I := fun tr s => popsShared tr = [] ∧ s.pc = .idle) (J := fun _ s => SystemWf cfg s)
      (fun hr => systemWf_run (SystemWf.new sch gen) ((hpre.trans hsnap).trans hr.of_along)) ⟨rfl, rfl⟩ ?_
    rintro tr s a es s' hwf ⟨hpops, hpc⟩ ⟨hstep, ha⟩
    obtain ⟨hes, hpc'⟩ := idle_does hpc ha (doesGlobal_of_does hscope hwf (does_of_step hstep))
    exact ⟨by rw [popsShared_append, hpops, hes]; rfl, hpc'⟩
  exact hidle.1

/-! ### The loop goes on -/

/-- With a frame in the high lane the loop takes it, dispatches it, and begins again. -/
theorem run_round (hstrategy : cfg.strategy = .none) {p : Addr} {ps : List Addr} (hpc : s.pc = .popHigh p ps)
    (hhigh : s.shaper.highLane ≠ []) :
    ∃ tr s', Run (Step cfg cg) s [.sched, .sched] tr s' ∧ s'.pc = .popHigh p ps ∧
      (popsShared tr).length = 1 := by
  have hpop : Does cfg cg s .sched _ _ := .popHigh hpc
  obtain ⟨⟨⟨high, low, lanes, cached⟩, sch, gen, calls⟩, connected, producers, permit, pc⟩ := s
  cases hpc
  obtain ⟨f, rest, rfl⟩ := List.exists_cons_of_ne_nil hhigh
  refine ⟨_, _, .cons (step_of_does hpop) (.single (step_of_does (.dispatch rfl))), ?_, ?_⟩
  · exact if_pos (decide_eq_true hstrategy)
  · rw [popsShared_append, popsShared_dispatchTick]
    rfl

/-- If there is none, a submission puts one there first. -/
theorem run_push_round (hscope : cfg.scope = .global) (hstrategy : cfg.strategy = .none) {p : Addr} {ps : List Addr}
    (hpc : s.pc = .popHigh p ps) (hhigh : s.shaper.highLane = []) :
    ∃ as tr s', Run (Step cfg cg) s as tr s' ∧ (∀ a ∈ as, isSchedOrEnqueue a = true) ∧ s'.pc = .popHigh p ps ∧
      (popsShared tr).length = 1 := by
  let frame : Bytes := List.replicate cfg.frameSize 0
  have hsize : frame.length = cfg.frameSize := List.length_replicate
  have hno : fansOut cfg (.broadcast : Target Addr) frame = false := decide_eq_false fun h => h.2.1 hscope
  have hroom : s.shaper.highLane.length < cfg.highLaneCapacity := by
    rw [hhigh]
    exact cfg.high_pos
  have hpush : Does cfg cg s (.enqueue .high .broadcast frame) _ _ := .enqueue hno
  have hone : (enqueueRaw cfg s.calls .high .broadcast frame s.shaper).2.highLane ≠ [] := by
    rw [enqueueRaw_global hsize hscope, pushGlobal]
    simp [Nat.not_le.mpr hroom]
  have hnone :
      popsShared (enqueueRawEvents cfg s.calls .high (.broadcast : Target Addr) frame s.shaper) = [] := by
    refine popsShared_eq_nil fun owner k f hf => ?_
    have hs := submits_enqueueRawEvents _ hf
    cases hs
  obtain ⟨tr, s', hrun, hpc', hcount⟩ := run_round hstrategy (s := { s with
    shaper := (enqueueRaw cfg s.calls .high .broadcast frame s.shaper).2
    calls := s.calls + 1
    producers := s.producers ++ if frame.length = cfg.frameSize then [.notify] else [] }) hpc hone
  refine ⟨_, _, s', .cons (step_of_does hpush) hrun, by simp [isSchedOrEnqueue], hpc', ?_⟩
  rw [popsShared_append, hnone]
  exact hcount

/-- So with a thread that keeps submitting the loop begins again as often as one likes. -/
theorem run_rounds (hscope : cfg.scope = .global) (hstrategy : cfg.strategy = .none) {p : Addr} {ps : List Addr}
    (n : ℕ) : ∀ {s : SystemState Addr G w}, s.pc = .popHigh p ps →
      ∃ as tr s', Run (Step cfg cg) s as tr s' ∧ (∀ a ∈ as, isSchedOrEnqueue a = true) ∧ s'.pc = .popHigh p ps ∧
        (popsShared tr).length = n := by
  induction n with
  | zero => exact fun {s} hpc => ⟨[], [], s, .nil, List.forall_mem_nil _, hpc, rfl⟩
  | succ n ih =>
    intro s hpc
    obtain ⟨as, tr, s₁, hrun, honly, hpc₁, hcount⟩ : ∃ as tr s₁, Run (Step cfg cg) s as tr s₁ ∧
        (∀ a ∈ as, isSchedOrEnqueue a = true) ∧ s₁.pc = .popHigh p ps ∧ (popsShared tr).length = 1 := by
      by_cases hhigh : s.shaper.highLane = []
      · exact run_push_round hscope hstrategy hpc hhigh
      · obtain ⟨tr, s₁, hrun, hrest⟩ := run_round hstrategy hpc hhigh
        exact ⟨_, tr, s₁, hrun, by simp [isSchedOrEnqueue], hrest⟩
    obtain ⟨bs, tr', s', hrun', honly', hpc', hcount'⟩ := ih hpc₁
    refine ⟨as ++ bs, tr ++ tr', s', hrun.trans hrun', ?_, hpc', ?_⟩
    · exact List.forall_mem_append.mpr ⟨honly, honly'⟩
    · rw [popsShared_append, List.length_append]
      omega

/-- And when the thread stops, it returns. -/
theorem OneDrain.goes_on (hscope : cfg.scope = .global) (hstrategy : cfg.strategy = .none)
    (h : OneDrain cfg cg s₀ peers as tr s) {p : Addr} {ps : List Addr} (hpc : s.pc = .popHigh p ps) (n : ℕ) :
    ∃ bs tr' s', OneDrain cfg cg s₀ peers (as ++ bs) (tr ++ tr') s' ∧ (∀ b ∈ bs, isSchedOrEnqueue b = true) ∧
      s'.pc = .idle ∧ n ≤ (popsShared tr').length := by
  obtain ⟨bs, tr₁, s₁, hrun, honly, hpc₁, hcount⟩ := run_rounds hscope hstrategy n hpc
  obtain ⟨k, hend⟩ : SchedRun cfg cg s₁ _ _ := schedRun_drainGlobal (decide_eq_true hstrategy) p ps _ hpc₁ le_rfl
  have honly' : ∀ b ∈ bs ++ List.replicate k .sched, isSchedOrEnqueue b = true := by
    refine List.forall_mem_append.mpr ⟨honly, fun b hb => ?_⟩
    rw [List.eq_of_mem_replicate hb]
    rfl
  refine ⟨_, _, _, ⟨h.woken, h.run.trans (hrun.trans hend), ?_⟩, honly', rfl, ?_⟩
  · refine List.forall_mem_append.mpr ⟨h.once, fun b hb hwake => ?_⟩
    have hb' := honly' b hb
    rw [hwake] at hb'
    cases hb'
  · rw [popsShared_append, List.length_append]
    omega

/-! ### The bound -/

/-- **When a drain stays within the capacity.** Of the passes of `drain_passthrough` in `Global` scope
under `ShapingStrategy::None` that begin with the snapshot `peers`, from any reachable state and
however they are interleaved with other threads: that they pop at most `high_lane_capacity +
low_lane_capacity` frames holds if and only if the snapshot is empty. With any other one, what the
scheduler and submitting threads do from wherever the loop begins again can make the pass pop any
number more before it returns. Of each pass: it stays within the capacity if what was queued when it
began and what was added since do, and so if nothing is added; and once it has returned, if and only
if what was queued and what was added before its last pop do. -/
theorem drain_bounded_iff (hscope : cfg.scope = .global) (hstrategy : cfg.strategy = .none)
    (hpre : Run (Step cfg cg) (.new sch gen) pre tr₀ s₀) (hwoken : s₀.pc = .woken) (hnd : peers.Nodup)
    (hpeers : peers.toFinset = s₀.connected) :
    let capacity := cfg.highLaneCapacity + cfg.lowLaneCapacity
    ((∀ as tr s, OneDrain cfg cg s₀ peers as tr s → (popsShared tr).length ≤ capacity) ↔ peers = []) ∧
    ∀ as tr s, OneDrain cfg cg s₀ peers as tr s →
      (∀ p ps, s.pc = .popHigh p ps → ∀ n, ∃ bs tr' s', OneDrain cfg cg s₀ peers (as ++ bs) (tr ++ tr') s' ∧
        (∀ b ∈ bs, isSchedOrEnqueue b = true) ∧ s'.pc = .idle ∧ n ≤ (popsShared tr').length) ∧
      (s₀.shaper.queued + pushCount tr ≤ capacity + evictCount tr → (popsShared tr).length ≤ capacity) ∧
      (pushCount tr = 0 → (popsShared tr).length ≤ capacity) ∧
      (peers ≠ [] → s.pc = .idle → ((popsShared tr).length ≤ capacity ↔
        s₀.shaper.queued + pushCount (untilLastPop tr) ≤ capacity + evictCount (untilLastPop tr))) := by
  intro capacity
  have hwf₀ := systemWf_run (SystemWf.new sch gen) hpre
  have hstart : s₀.shaper.queued ≤ capacity := by
    rw [queued_global hwf₀.shaper hscope]
    exact Nat.add_le_add (hwf₀.shaper.lanes none).high_le (hwf₀.shaper.lanes none).low_le
  refine ⟨⟨fun hbound => ?_, ?_⟩, fun as tr s h => ⟨fun p ps hpc n => h.goes_on hscope hstrategy hpc n, ?_⟩⟩
  · cases peers with
    | nil => rfl
    | cons p ps =>
      -- a pass that is only begun can go on to pop one frame more than the capacity
      have hsnap : Does cfg cg s₀ (.snapshot (p :: ps)) _ _ := .snapshot hwoken hnd hpeers
      have hbegun : OneDrain cfg cg s₀ (p :: ps) [] _ _ :=
        ⟨hwoken, .single (step_of_does hsnap), List.forall_mem_nil _⟩
      obtain ⟨bs, tr', s', h, -, -, hcount⟩ := hbegun.goes_on hscope hstrategy
        (afterSnapshot_global_cons hscope p ps) (capacity + 1)
      have hle := hbound _ _ _ h
      rw [popsShared_append, List.length_append] at hle
      omega
  · rintro rfl as tr s h
    rw [popped_of_nil hscope hpre h]
    exact Nat.zero_le _
  · have hbalance := popped_add_queued hscope hpre h.run
    refine ⟨by omega, by omega, fun hne hidle => ?_⟩
    have hadded := popped_eq_added hscope hstrategy hpre h hne hidle
    omega

/-- A pass that pops the one frame there is, with a low frame pushed meanwhile. -/
theorem drain_bounded_iff_two :
    let cfg : ShaperConfig := { strategy := .none, frameSize := 32, accepted := by decide }
    let new : SystemState ℕ (Stream' UInt8) 64 := .new { rng := Stream'.const 1 } (Stream'.const 5)
    let pre : List (Act ℕ) := [.connect 1, .enqueue .high .broadcast (List.replicate 32 7), .producer 0, .wake]
    let as : List (Act ℕ) := [.sched, .enqueue .low .broadcast (List.replicate 32 8), .sched]
    let capacity := cfg.highLaneCapacity + cfg.lowLaneCapacity
    ∃ tr₀ s₀ tr s, Run (Step cfg randomCover) new pre tr₀ s₀ ∧ OneDrain cfg randomCover s₀ [1] as tr s ∧
      ((∀ as tr s, OneDrain cfg randomCover s₀ [1] as tr s → (popsShared tr).length ≤ capacity) ↔ [1] = []) ∧
      (s₀.shaper.queued + pushCount tr ≤ capacity + evictCount tr → (popsShared tr).length ≤ capacity) ∧
      ∃ bs tr' s', OneDrain cfg randomCover s₀ [1] (as ++ bs) (tr ++ tr') s' ∧ s'.pc = .idle ∧
        1000 ≤ (popsShared tr').length := by
  intro cfg new pre as capacity
  obtain ⟨tr₀, s₀, tr, s, hpre, has, hwoken, hconn, hpc⟩ : ∃ tr₀ s₀ tr s, Run (Step cfg randomCover) new pre tr₀ s₀ ∧
      Run (Step cfg randomCover) s₀ (.snapshot [1] :: as) tr s ∧ s₀.pc = .woken ∧ [1].toFinset = s₀.connected ∧
        s.pc = .popHigh 1 [] := runs_of_exec (by decide)
  have hdrain : OneDrain cfg randomCover s₀ [1] as tr s := ⟨hwoken, has, by decide⟩
  obtain ⟨hiff, hpass⟩ := drain_bounded_iff rfl rfl hpre hwoken (by decide) hconn
  obtain ⟨hmore, henough, -, -⟩ := hpass as tr s hdrain
  obtain ⟨bs, tr', s', hdrain', -, hidle, hcount⟩ := hmore 1 [] hpc 1000
  exact ⟨tr₀, s₀, tr, s, hpre, hdrain, hiff, henough, bs, tr', s', hdrain', hidle, hcount⟩

/-- With room for one frame in each lane: one is queued when the drain begins, and two more are
pushed, each when the one before it has been popped. The drain pops three and returns. -/
theorem drain_exceeds_capacity :
    let cfg : ShaperConfig :=
      { strategy := .none, frameSize := 32, highLaneCapacity := 1, lowLaneCapacity := 1, accepted := by decide }
    let new : SystemState ℕ (Stream' UInt8) 64 := .new { rng := Stream'.const 1 } (Stream'.const 5)
    let push : Act ℕ := .enqueue .high .broadcast (List.replicate 32 7)
    let pre : List (Act ℕ) := [.connect 1, push, .producer 0, .wake]
    let as : List (Act ℕ) := [.sched, push, .sched, .sched, push, .sched, .sched, .sched, .sched, .sched]
    ∃ tr₀ s₀ tr s, Run (Step cfg randomCover) new pre tr₀ s₀ ∧ OneDrain cfg randomCover s₀ [1] as tr s ∧
      s.pc = .idle ∧ ¬ (popsShared tr).length ≤ cfg.highLaneCapacity + cfg.lowLaneCapacity := by
  intro cfg new push pre as
  obtain ⟨tr₀, s₀, tr, s, hpre, has, hwoken, hidle, hcount⟩ : ∃ tr₀ s₀ tr s,
      Run (Step cfg randomCover) new pre tr₀ s₀ ∧ Run (Step cfg randomCover) s₀ (.snapshot [1] :: as) tr s ∧
        s₀.pc = .woken ∧ s.pc = .idle ∧ ¬ (popsShared tr).length ≤ 1 + 1 := runs_of_exec (by decide)
  exact ⟨tr₀, s₀, tr, s, hpre, ⟨hwoken, has, by decide⟩, hidle, hcount⟩

end Peashape.Shaping

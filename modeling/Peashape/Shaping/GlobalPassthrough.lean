import Peashape.Shaping.GlobalConservation
import Peashape.Shaping.GlobalScope

/-!
# Passthrough in `Global` scope

Under `ShapingStrategy::None` the scheduler sleeps until a submission notifies it, and then
pops until `next_frame` finds both lanes empty. Notifications that arrive while it is awake
make one permit. The invariant is `Covered`: a queued frame has a notification stored or
under way, unless the scheduler is going to look at its lane again before it sleeps. The
critical place is between the two pops of `next_frame`, where the high lane will not be
looked at again.

As long as some peer is connected whenever the scheduler looks, no frame waits without a
wake-up, and every popped frame is dispatched, once (`passthrough_global`).

Without peers the drain returns at once: the wake-up is used up and the frames stay. If no
other notification is stored or under way then (`Heard` says when one is), a peer that
connects later finds the scheduler asleep and the frames waiting for a submission that has
nothing to do with them: see `not_stranded_run` and `stranded_of_not_heard`.
-/

namespace Peashape.Shaping

open Foundation Shaper SystemState

variable {Addr G : Type*} [DecidableEq Addr] {w : ℕ} {cfg : ShaperConfig} {cg : CoverGenerator G}
  {s s' : SystemState Addr G w} {a : Act Addr} {es tr : List (Event Addr)}

/-! ### Wake-ups -/

/-- A frame is in one of the shared lanes. -/
def Queued (s : SystemState Addr G w) : Prop := s.shaper.highLane ≠ [] ∨ s.shaper.lowLane ≠ []

/-- A permit is stored, or a submission is between its push and its notification. -/
def Notified (s : SystemState Addr G w) : Prop := s.permit = true ∨ .notify ∈ s.producers

instance (s : SystemState Addr G w) : Decidable (Queued s) := inferInstanceAs (Decidable (_ ∨ _))

instance (s : SystemState Addr G w) : Decidable (Notified s) := inferInstanceAs (Decidable (_ ∨ _))

/-- **The invariant**: when the scheduler sleeps, a queued frame has a notification; between
the two pops, a high frame has one. -/
def Covered (s : SystemState Addr G w) : Prop :=
  match s.pc with
  | .idle => Queued s → Notified s
  | .popLow _ _ => s.shaper.highLane ≠ [] → Notified s
  | _ => True

/-- A drain that finds no peer finds no frame either, or there is another notification. -/
def Heard (s : SystemState Addr G w) : Act Addr → Prop
  | .snapshot [] => Queued s → Notified s
  | _ => True

instance (s : SystemState Addr G w) : ∀ a, Decidable (Heard s a)
  | .snapshot [] => inferInstanceAs (Decidable (Queued s → Notified s))
  | .snapshot (_ :: _) | .enqueue .. | .producer _ | .connect _ | .disconnect _ | .wake | .sched
  | .refreshPcPeers _ | .prunePeerLanes _ => .isTrue trivial

/-- The scheduler looks when some peer is connected. -/
def SomePeer (_ : SystemState Addr G w) (a : Act Addr) : Prop := a ≠ .snapshot []

instance (s : SystemState Addr G w) (a : Act Addr) : Decidable (SomePeer s a) :=
  inferInstanceAs (Decidable (_ ≠ _))

omit [DecidableEq Addr] in
theorem SomePeer.heard (h : SomePeer s a) : Heard s a := by
  unfold Heard
  split
  · exact absurd rfl h
  · trivial

omit [DecidableEq Addr] in
theorem Covered.of_notified (h : Notified s) : Covered s := by
  unfold Covered
  split
  · exact fun _ => h
  · exact fun _ => h
  · trivial

/-- **A step keeps the invariant**, if it is not a drain that finds frames but no peer. -/
theorem covered_does (hpass : passthrough cfg = true) (hheard : Heard s a) (hi : Covered s)
    (hdoes : DoesGlobal cfg cg s a es s') : Covered s' := by
  have hnew : Producer.notify ∈ withNotify s := List.mem_append_right _ (List.mem_singleton_self _)
  cases hdoes with
  | mismatch _ => exact hi
  | full _ => exact .of_notified (.inr hnew)
  | pushHigh _ _ => exact .of_notified (.inr hnew)
  | pushLow _ => exact .of_notified (.inr hnew)
  | notify _ => exact .of_notified (.inl rfl)
  | aside haside _ =>
    simp only [Covered, Queued, Notified, haside.pc, haside.high, haside.low, haside.producers, haside.permit]
    exact hi
  | tick _ htimed => exact absurd hpass (by rw [htimed]; exact Bool.noConfusion)
  | alone _ _ => exact hheard
  | highEmpty _ hempty => exact fun hne => absurd hempty hne
  | lowEmpty hpc hempty =>
    simp only [Covered, hpc] at hi
    simp only [afterPopLow, hpass, if_true]
    rintro (hhigh | hlow)
    · exact hi hhigh
    · exact absurd hempty hlow
  | dispatch _ =>
    simp only [afterDispatch, hpass, if_true]
    trivial
  | consume _ _ _ => trivial
  | snapshot _ => trivial
  | popHigh _ _ => trivial
  | popLow _ _ => trivial

/-- It holds after every run without such a drain. -/
theorem covered_run (hstrategy : cfg.strategy = .none) (hscope : cfg.scope = .global) {sch : Scheduler Addr w}
    {gen : G} {as : List (Act Addr)} (h : Run (Along (Step cfg cg) Heard) (.new sch gen) as tr s) : Covered s := by
  refine h.invariant_of (I := fun _ s => Covered s) (J := fun _ s => SystemWf cfg s)
    (fun hr => systemWf_run (SystemWf.new sch gen) hr.of_along)
    (fun hq => hq.elim (absurd rfl) (absurd rfl)) ?_
  rintro tr s a es s' hwf hi ⟨hstep, hheard⟩
  exact covered_does (decide_eq_true hstrategy) hheard hi (doesGlobal_of_does hscope hwf (does_of_step hstep))

/-! ### Dispatches -/

/-- Events that are the dispatches of these frames, in order, each to some peers that were
there. -/
inductive DispatchesOf (w : ℕ) (cfg : ShaperConfig) (cg : CoverGenerator G) :
    List (PendingFrame Addr) → List (Event Addr) → Prop
  | nil : DispatchesOf w cfg cg [] []
  | snoc {fs : List (PendingFrame Addr)} {es : List (Event Addr)} {f : PendingFrame Addr} {p : Addr} {ps : List Addr}
      {g : G} {sch : Scheduler Addr w} (h : DispatchesOf w cfg cg fs es) :
      DispatchesOf w cfg cg (fs ++ [f]) (es ++ (dispatchTick cfg cg (p :: ps) (some f) g sch).events)

/-- What was popped was dispatched, but for the frame the scheduler holds. -/
def AllDispatched (cfg : ShaperConfig) (cg : CoverGenerator G) (tr : List (Event Addr)) (s : SystemState Addr G w) : Prop :=
  ∃ fs, popsShared tr = fs ++ s.pc.held.toList ∧ DispatchesOf w cfg cg fs (tr.filter Event.ofDispatch)

omit [DecidableEq Addr] in
theorem popsShared_append (tr tr' : List (Event Addr)) : popsShared (tr ++ tr') = popsShared tr ++ popsShared tr' :=
  List.filterMap_append

/-- A step that pops nothing, dispatches nothing and leaves the scheduler with what it holds. -/
theorem AllDispatched.keep (hi : AllDispatched cfg cg tr s) (hheld : s'.pc.held = s.pc.held)
    (hes : ∀ e ∈ es, e.ofDispatch = false ∧ ∀ owner k f, e ≠ .pop owner k f) : AllDispatched cfg cg (tr ++ es) s' := by
  obtain ⟨fs, hpops, hdisp⟩ := hi
  have hnone : popsShared es = [] := popsShared_eq_nil fun owner k f he => (hes _ he).2 owner k f rfl
  have hfilter : es.filter Event.ofDispatch = [] :=
    List.filter_eq_nil_iff.mpr fun e he => by rw [(hes e he).1]; exact Bool.noConfusion
  refine ⟨fs, ?_, ?_⟩
  · rw [popsShared_append, hnone, List.append_nil, hpops, hheld]
  · rwa [List.filter_append, hfilter, List.append_nil]

/-- A pop hands the scheduler the frame. -/
theorem AllDispatched.pop (hi : AllDispatched cfg cg tr s) (hheld : s.pc.held = none) {k : Lane}
    {f : PendingFrame Addr} (hheld' : s'.pc.held = some f) : AllDispatched cfg cg (tr ++ [.pop none k f]) s' := by
  obtain ⟨fs, hpops, hdisp⟩ := hi
  rw [hheld, Option.toList_none, List.append_nil] at hpops
  refine ⟨fs, ?_, ?_⟩
  · rw [popsShared_append, hpops, hheld']
    rfl
  · rwa [List.filter_append, show [Event.pop none k f].filter Event.ofDispatch = [] from rfl, List.append_nil]

/-- **A step dispatches the frame the scheduler holds, or nothing.** -/
theorem allDispatched_does (hpass : passthrough cfg = true) (hwf : PcWf cfg s.pc) (hi : AllDispatched cfg cg tr s)
    (hdoes : DoesGlobal cfg cg s a es s') : AllDispatched cfg cg (tr ++ es) s' := by
  cases hdoes with
  | mismatch _ => exact hi.keep rfl (by simp [Event.ofDispatch])
  | full _ => exact hi.keep rfl (by simp [Event.ofDispatch])
  | pushHigh _ _ => exact hi.keep rfl (by simp [Event.ofDispatch])
  | pushLow _ =>
    apply hi.keep rfl
    intro e he
    simp only [List.mem_cons, List.mem_append, List.mem_map, List.not_mem_nil, or_false] at he
    rcases he with rfl | ⟨g, -, rfl⟩ | rfl <;> simp [Event.ofDispatch]
  | notify _ => exact hi.keep rfl (by simp)
  | aside haside _ =>
    apply hi.keep (by rw [haside.pc])
    intro e he
    obtain ⟨gone, rfl⟩ := haside.prunes e he
    simp [Event.ofDispatch]
  | tick hpc _ => exact hi.keep (by rw [hpc]; rfl) (by simp)
  | consume hpc _ _ => exact hi.keep (by rw [hpc]; rfl) (by simp)
  | alone hpc _ => exact hi.keep (by rw [hpc]; rfl) (by simp [Event.ofDispatch])
  | snapshot hpc => exact hi.keep (by rw [hpc]; rfl) (by simp [Event.ofDispatch])
  | highEmpty hpc _ => exact hi.keep (by rw [hpc]; rfl) (by simp)
  | lowEmpty hpc _ =>
    refine hi.keep ?_ (by simp)
    rw [hpc]
    exact held_afterPopLow _ _ none
  | popHigh hpc _ => exact hi.pop (by rw [hpc]; rfl) rfl
  | popLow hpc _ => exact hi.pop (by rw [hpc]; rfl) rfl
  | @dispatch p ps frame hpc =>
    rw [hpc] at hwf
    -- in passthrough the scheduler gets here with a frame only
    obtain ⟨f, rfl⟩ : ∃ f, frame = some f := by
      cases frame with
      | none => exact absurd hpass (by rw [hwf.2.2 rfl]; exact Bool.noConfusion)
      | some f => exact ⟨f, rfl⟩
    obtain ⟨fs, hpops, hdisp⟩ := hi
    have hall : ∀ e ∈ (dispatchTick cfg cg (p :: ps) (some f) s.gen s.scheduler).events, e.ofDispatch = true :=
      ofDispatch_dispatchTick _ _ _ _
    have hnone : popsShared (dispatchTick cfg cg (p :: ps) (some f) s.gen s.scheduler).events = [] :=
      popsShared_eq_nil fun _ _ _ he => Bool.noConfusion (hall _ he)
    refine ⟨fs ++ [f], ?_, ?_⟩
    · simp only [held_afterDispatch, Option.toList_none, List.append_nil]
      rw [popsShared_append, hnone, List.append_nil, hpops, hpc]
      rfl
    · rw [List.filter_append, List.filter_eq_self.mpr hall]
      exact hdisp.snoc

/-- It holds after every run. -/
theorem allDispatched_run (hstrategy : cfg.strategy = .none) (hscope : cfg.scope = .global) {sch : Scheduler Addr w}
    {gen : G} {as : List (Act Addr)} (h : Run (Step cfg cg) (.new sch gen) as tr s) : AllDispatched cfg cg tr s := by
  refine h.invariant_of (I := AllDispatched cfg cg) (J := fun _ s => SystemWf cfg s)
    (fun hr => systemWf_run (SystemWf.new sch gen) hr) ⟨[], rfl, .nil⟩ ?_
  intro tr s a es s' hwf hi hstep
  exact allDispatched_does (decide_eq_true hstrategy) hwf.pc hi (doesGlobal_of_does hscope hwf (does_of_step hstep))

/-! ### No lost wake-up -/

/-- **No lost wake-up.** Under `ShapingStrategy::None` and `Global` scope, over any
interleaving in which some peer is connected whenever the scheduler looks: if a shared lane
holds a frame then the scheduler is awake, or a permit is stored, or a submission is between
its push and its notification. The dispatches are those of the popped frames, in order, one
for each but the frame the scheduler holds; and no frame is popped twice. -/
theorem passthrough_global (hstrategy : cfg.strategy = .none) (hscope : cfg.scope = .global)
    {sch : Scheduler Addr w} {gen : G} {as : List (Act Addr)}
    (h : Run (Along (Step cfg cg) SomePeer) (.new sch gen) as tr s) :
    (s.shaper.highLane ≠ [] ∨ s.shaper.lowLane ≠ [] →
      s.pc ≠ .idle ∨ s.permit = true ∨ .notify ∈ s.producers) ∧
    (∃ fs, popsShared tr = fs ++ s.pc.held.toList ∧ DispatchesOf w cfg cg fs (tr.filter Event.ofDispatch)) ∧
    ((popsShared tr).map PendingFrame.origin).Nodup := by
  have hheard : Run (Along (Step cfg cg) Heard) (.new sch gen) as tr s := h.mono fun h => ⟨h.1, h.2.heard⟩
  have hcovered : Covered s := covered_run hstrategy hscope hheard
  refine ⟨fun hq => ?_, allDispatched_run hstrategy hscope h.of_along, ?_⟩
  · by_cases hpc : s.pc = .idle
    · simp only [Covered, hpc] at hcovered
      exact .inr (hcovered hq)
    · exact .inl hpc
  · have hnd := (sharedLanes_run hscope h.of_along).nodup_pops
    rwa [← coe_popsShared, Multiset.map_coe, Multiset.coe_nodup] at hnd

/-- A frame pushed between the two pops of the last round of a drain: it stays in the high
lane, and its notification makes a permit. -/
theorem passthrough_global_between :
    let cfg : ShaperConfig := { strategy := .none, frameSize := 32, accepted := by decide }
    let s₀ : SystemState ℕ (Stream' UInt8) 64 := .new { rng := Stream'.const 1 } (Stream'.const 5)
    let acts : List (Act ℕ) :=
      [.connect 1, .enqueue .high .broadcast (List.replicate 32 7), .producer 0, .wake, .snapshot [1], .sched, .sched,
        .sched, .enqueue .high .broadcast (List.replicate 32 8), .producer 0, .sched]
    ∃ tr s, Run (Along (Step cfg randomCover) SomePeer) s₀ acts tr s ∧ Queued s ∧ s.pc = .idle ∧
      (s.pc ≠ .idle ∨ s.permit = true ∨ .notify ∈ s.producers) ∧
      (∃ fs, popsShared tr = fs ++ s.pc.held.toList ∧
        DispatchesOf 64 cfg randomCover fs (tr.filter Event.ofDispatch)) ∧
      ((popsShared tr).map PendingFrame.origin).Nodup := by
  intro cfg s₀ acts
  obtain ⟨tr, s, h⟩ : ∃ tr s, exec (guarded (step cfg randomCover) SomePeer) s₀ acts = some (tr, s) := ⟨_, _, rfl⟩
  have hend : (exec (guarded (step cfg randomCover) SomePeer) s₀ acts).map
      (fun x => decide (Queued x.2 ∧ x.2.pc = .idle)) = some true := by decide
  rw [h, Option.map_some, Option.some.injEq, decide_eq_true_eq] at hend
  have hrun := run_along_of_exec h
  obtain ⟨hcovered, hdispatched⟩ := passthrough_global rfl rfl hrun
  exact ⟨tr, s, hrun, hend.1, hend.2, hcovered hend.1, hdispatched⟩

/-! ### Frames accepted without peers -/

/-- A peer is connected, the scheduler sleeps without a permit, no submission is in progress,
and a frame is queued. -/
def Stranded (s : SystemState Addr G w) : Prop :=
  s.connected.Nonempty ∧ s.pc = .idle ∧ ¬ Notified s ∧ Queued s

instance (s : SystemState Addr G w) : Decidable (Stranded s) := inferInstanceAs (Decidable (_ ∧ _ ∧ _ ∧ _))

/-- **When no frame is stranded.** Under `ShapingStrategy::None` and `Global` scope, over any
interleaving in which every drain that finds no peer finds both lanes empty, or another
notification stored or under way. -/
theorem not_stranded_run (hstrategy : cfg.strategy = .none) (hscope : cfg.scope = .global)
    {sch : Scheduler Addr w} {gen : G} {as : List (Act Addr)}
    (h : Run (Along (Step cfg cg) Heard) (.new sch gen) as tr s) : ¬ Stranded s := by
  rintro ⟨-, hpc, hnot, hq⟩
  have hcovered : Covered s := covered_run hstrategy hscope h
  simp only [Covered, hpc] at hcovered
  exact hnot (hcovered hq)

/-- A frame accepted without peers, whose submission is repeated once a peer is there. -/
theorem not_stranded_run_again :
    let cfg : ShaperConfig := { strategy := .none, frameSize := 32, accepted := by decide }
    let s₀ : SystemState ℕ (Stream' UInt8) 64 := .new { rng := Stream'.const 1 } (Stream'.const 5)
    let acts : List (Act ℕ) :=
      [.enqueue .high .broadcast (List.replicate 32 7), .producer 0, .wake,
        .enqueue .high .broadcast (List.replicate 32 8), .snapshot [], .connect 1]
    ∃ tr s, Run (Along (Step cfg randomCover) Heard) s₀ acts tr s ∧ Queued s ∧ ¬ Stranded s := by
  intro cfg s₀ acts
  obtain ⟨tr, s, h⟩ : ∃ tr s, exec (guarded (step cfg randomCover) Heard) s₀ acts = some (tr, s) := ⟨_, _, rfl⟩
  have hend : (exec (guarded (step cfg randomCover) Heard) s₀ acts).map (fun x => decide (Queued x.2)) =
      some true := by decide
  rw [h, Option.map_some, Option.some.injEq, decide_eq_true_eq] at hend
  have hrun := run_along_of_exec h
  exact ⟨tr, s, hrun, hend, not_stranded_run rfl rfl hrun⟩

/-- A frame accepted without peers; the drain for it finds none, and then one connects. -/
theorem stranded_without_peers :
    let cfg : ShaperConfig := { strategy := .none, frameSize := 32, accepted := by decide }
    let s₀ : SystemState ℕ (Stream' UInt8) 64 := .new { rng := Stream'.const 1 } (Stream'.const 5)
    let acts : List (Act ℕ) :=
      [.enqueue .high .broadcast (List.replicate 32 7), .producer 0, .wake, .snapshot [], .connect 1]
    ∃ tr s, Run (Step cfg randomCover) s₀ acts tr s ∧ Stranded s := by
  intro cfg s₀ acts
  obtain ⟨tr, s, h⟩ : ∃ tr s, exec (step cfg randomCover) s₀ acts = some (tr, s) := ⟨_, _, rfl⟩
  have hend : (exec (step cfg randomCover) s₀ acts).map (fun x => decide (Stranded x.2)) = some true := by decide
  rw [h, Option.map_some, Option.some.injEq, decide_eq_true_eq] at hend
  exact ⟨tr, s, run_of_exec h, hend⟩

/-- **After any other drain, the next connection finds a frame stranded**: the condition is
the exact one. -/
theorem stranded_of_not_heard (hscope : cfg.scope = .global) (hstep : Step cfg cg s a es s') (hheard : ¬ Heard s a)
    (p : Addr) : ∃ s'', Step cfg cg s' (.connect p) [] s'' ∧ Stranded s'' := by
  unfold Heard at hheard
  split at hheard
  · obtain ⟨hq, hnot⟩ := Classical.not_imp.mp hheard
    have hdoes := does_of_step hstep
    cases hdoes with
    | snapshot hpc _ _ =>
      refine ⟨_, step_of_does .connect, Finset.insert_nonempty p _, ?_, hnot, hq⟩
      exact afterSnapshot_global_nil hscope
  · exact absurd trivial hheard

end Peashape.Shaping

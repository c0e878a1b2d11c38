import Peashape.Shaping.GlobalConservation
import Peashape.Shaping.GlobalScope

/-!
# High before low

"The scheduler always drains the high lane before the low lane." `next_frame` looks at the
high lane under one lock and at the low lane under another. Between the two, a producer can
complete the submission of a high frame and then submit a low one: the low lane gives the
new frame at once, and the high one stays (`low_before_high`).

This is the only way. As long as no low frame is pushed between the two pops while a high
frame is queued (`Orderly`), a popped low frame was never pushed after a high frame that is
still queued: see `highFirst_run`. What is pushed between the two pops is all that can have
gone wrong, as the first of them found the high lane empty.

The order here is that of the pushes. A submission is completed some time after its push, so a
low frame may also be pushed after a high frame whose submission goes on: the two are then
submitted at the same time, and nothing is promised of their order. Such a push is not orderly
either.
-/

namespace Peashape.Shaping

open Foundation Shaper SystemState

variable {Addr G : Type*} [DecidableEq Addr] {w : ℕ} {cfg : ShaperConfig} {cg : CoverGenerator G}
  {s s' : SystemState Addr G w} {a : Act Addr} {es tr : List (Event Addr)} {h l : PendingFrame Addr}

/-- The high frame `h` was put in its shared lane before the low frame `l` in its own. -/
def PushedBefore (tr : List (Event Addr)) (h l : PendingFrame Addr) : Prop :=
  [Event.push none .high h, .push none .low l].Sublist tr

instance (tr : List (Event Addr)) (h l : PendingFrame Addr) : Decidable (PushedBefore tr h l) :=
  inferInstanceAs (Decidable (List.Sublist _ _))

/-- **High before low**, for whatever step comes next: it pops no low frame that was pushed
after a high frame that is still queued. -/
def HighFirst (cfg : ShaperConfig) (cg : CoverGenerator G) (tr : List (Event Addr)) (s : SystemState Addr G w) : Prop :=
  ∀ {a es s'}, Step cfg cg s a es s' → ∀ l, .pop none .low l ∈ es →
    ∀ h ∈ s.shaper.highLane, ¬ PushedBefore tr h l

/-- The scheduler is between the two pops of `next_frame`. -/
def betweenPops : Pc Addr → Bool
  | .popLow _ _ => true
  | _ => false

/-- No low frame is pushed between the two pops while a high frame is queued. -/
def Orderly (cfg : ShaperConfig) (s : SystemState Addr G w) : Act Addr → Prop
  | .enqueue .low _ frame => betweenPops s.pc = true → frame.length = cfg.frameSize → s.shaper.highLane = []
  | _ => True

instance (s : SystemState Addr G w) : ∀ a, Decidable (Orderly cfg s a)
  | .enqueue .low _ frame =>
    inferInstanceAs (Decidable (betweenPops s.pc = true → frame.length = cfg.frameSize → s.shaper.highLane = []))
  | .enqueue .high _ _ | .producer _ | .connect _ | .disconnect _ | .wake | .snapshot _ | .sched
  | .refreshPcPeers _ | .prunePeerLanes _ => .isTrue trivial

omit [DecidableEq Addr] in
/-- What was pushed before a frame that no new event pushes, was so before. -/
theorem PushedBefore.of_append (hpushed : PushedBefore (tr ++ es) h l) (hl : .push none .low l ∉ es) :
    PushedBefore tr h l := by
  obtain ⟨xs, ys, hxy, hxs, hys⟩ := List.sublist_append_iff.mp hpushed
  have hlast : ys = [] := by
    rcases List.eq_nil_or_concat' ys with rfl | ⟨ys', y, rfl⟩
    · rfl
    · apply absurd (hys.subset (List.mem_append_right ys' (List.mem_singleton_self y)))
      have hsplit : [Event.push none .high h] ++ [.push none .low l] = xs ++ ys' ++ [y] := by
        rw [List.append_assoc]
        exact hxy
      obtain ⟨-, hy⟩ := List.append_inj' hsplit rfl
      rw [← List.singleton_inj.mp hy]
      exact hl
  rw [hlast, List.append_nil] at hxy
  rw [PushedBefore, hxy]
  exact hxs

omit [DecidableEq Addr] in
theorem PushedBefore.mem_high (hpushed : PushedBefore tr h l) : .push none .high h ∈ tr :=
  hpushed.subset (List.mem_cons_self ..)

/-- A frame in the history has a number that was given. -/
theorem SharedLanes.origin_of_push (hi : SharedLanes tr s) {lane : Lane} {f : PendingFrame Addr}
    (hf : .push none lane f ∈ tr) : ∃ n < s.calls, f.origin = .enqueued n := by
  apply hi.fresh lane
  rw [hi.pushed]
  exact List.mem_filterMap.mpr ⟨_, hf, by simp⟩

/-- **The invariant**: between the two pops, no low frame is queued that was pushed after a
high frame that is queued. -/
def InOrder (tr : List (Event Addr)) (s : SystemState Addr G w) : Prop :=
  (∃ p ps, s.pc = .popLow p ps) → ∀ l ∈ s.shaper.lowLane, ∀ h ∈ s.shaper.highLane, ¬ PushedBefore tr h l

omit [DecidableEq Addr] in
/-- A step that changes neither lane, pushes no low frame, and leaves the scheduler where it
is, keeps the order. -/
theorem InOrder.keep (hi : InOrder tr s) (hpc : s'.pc = s.pc) (hhigh : s'.shaper.highLane = s.shaper.highLane)
    (hlow : s'.shaper.lowLane = s.shaper.lowLane) (hes : ∀ l, .push none .low l ∉ es) : InOrder (tr ++ es) s' := by
  intro hat l hl h hh hpushed
  rw [hpc] at hat
  rw [hlow] at hl
  rw [hhigh] at hh
  exact hi hat l hl h hh (hpushed.of_append (hes l))

omit [DecidableEq Addr] in
/-- Elsewhere there is nothing to show. -/
theorem InOrder.elsewhere (hpc : ∀ p ps, s.pc ≠ .popLow p ps) : InOrder tr s :=
  fun ⟨p, ps, hat⟩ => absurd hat (hpc p ps)

/-- **An orderly step keeps the order.** -/
theorem inOrder_does (hlanes : SharedLanes tr s) (horderly : Orderly cfg s a) (hi : InOrder tr s)
    (hdoes : DoesGlobal cfg cg s a es s') : InOrder (tr ++ es) s' := by
  cases hdoes with
  | mismatch _ => exact hi.keep rfl rfl rfl (by simp)
  | full _ => exact hi.keep rfl rfl rfl (by simp)
  | notify _ => exact hi.keep rfl rfl rfl (by simp)
  | aside haside _ =>
    apply hi.keep haside.pc haside.high haside.low
    intro l hl
    obtain ⟨gone, hgone⟩ := haside.prunes _ hl
    cases hgone
  | @pushHigh target frame _ _ =>
    intro hat l hl h hh hpushed
    have hbefore : PushedBefore tr h l := hpushed.of_append (by simp)
    rcases List.mem_append.mp hh with hh | hh
    · exact hi hat l hl h hh hbefore
    · -- the new frame has a new number, and is in no history before it
      obtain ⟨n, hn, ho⟩ := hlanes.origin_of_push hbefore.mem_high
      rw [List.mem_singleton.mp hh, submitted] at ho
      cases ho
      exact lt_irrefl _ hn
  | @pushLow target frame hsize =>
    rintro ⟨p, ps, hat⟩ l hl h hh
    have hpops : betweenPops s.pc = true := by rw [show s.pc = .popLow p ps from hat, betweenPops]
    have hempty : s.shaper.highLane = [] := horderly hpops hsize
    rw [show s.shaper.highLane = [] from hempty] at hh
    cases hh
  | highEmpty _ hempty =>
    intro _ l _ h hh
    rw [show s.shaper.highLane = [] from hempty] at hh
    cases hh
  | lowEmpty _ _ =>
    refine .elsewhere fun q qs hat => ?_
    simp only [afterPopLow] at hat
    split_ifs at hat
  | dispatch _ =>
    refine .elsewhere fun q qs hat => ?_
    simp only [afterDispatch] at hat
    split_ifs at hat
  | tick _ _ => exact .elsewhere (by simp)
  | consume _ _ _ => exact .elsewhere (by simp)
  | alone _ _ => exact .elsewhere (by simp)
  | snapshot _ => exact .elsewhere (by simp)
  | popHigh _ _ => exact .elsewhere (by simp)
  | popLow _ _ => exact .elsewhere (by simp)

/-- Low frames are popped only by the second pop, from the low lane. -/
theorem mem_lowLane_of_pop (hdoes : DoesGlobal cfg cg s a es s') (hl : .pop none .low l ∈ es) :
    (∃ p ps, s.pc = .popLow p ps) ∧ l ∈ s.shaper.lowLane := by
  cases hdoes with
  | @popLow p ps f rest hpc hlow =>
    cases List.mem_singleton.mp hl
    refine ⟨⟨p, ps, hpc⟩, ?_⟩
    rw [hlow]
    exact List.mem_cons_self ..
  | dispatch _ => cases ofDispatch_dispatchTick _ _ _ _ _ hl
  | aside haside _ =>
    obtain ⟨gone, hgone⟩ := haside.prunes _ hl
    cases hgone
  | _ => simp at hl

/-- **High before low.** In `Global` scope, over any interleaving of submissions with the
steps of the scheduler in which no low frame is pushed between the two pops of `next_frame`
while a high frame is queued: no low frame is popped that was pushed after a high frame that
is still queued, and so none whose submission began after that of the high frame was
completed. -/
theorem highFirst_run (hscope : cfg.scope = .global) {sch : Scheduler Addr w} {gen : G} {as : List (Act Addr)}
    (hrun : Run (Along (Step cfg cg) (Orderly cfg)) (.new sch gen) as tr s) : HighFirst cfg cg tr s := by
  have hwf : SystemWf cfg s := systemWf_run (SystemWf.new sch gen) hrun.of_along
  have horder : InOrder tr s := by
    refine hrun.invariant_of (I := InOrder) (J := fun tr s => SystemWf cfg s ∧ SharedLanes tr s) ?_
      (.elsewhere fun _ _ hat => by cases hat) ?_
    · intro as tr s hr
      exact ⟨systemWf_run (SystemWf.new sch gen) hr.of_along, sharedLanes_run hscope hr.of_along⟩
    · rintro tr s a es s' ⟨hwf, hlanes⟩ hi ⟨hstep, horderly⟩
      exact inOrder_does hlanes horderly hi (doesGlobal_of_does hscope hwf (does_of_step hstep))
  intro a es s' hstep l hl
  obtain ⟨hat, hmem⟩ := mem_lowLane_of_pop (doesGlobal_of_does hscope hwf (does_of_step hstep)) hl
  exact horder hat l hmem

/-- A high frame pushed between the two pops, after the low frame that is popped next. -/
theorem highFirst_run_later :
    let cfg : ShaperConfig := { frameSize := 32, accepted := by decide }
    let s₀ : SystemState ℕ (Stream' UInt8) 64 := .new { rng := Stream'.const 1 } (Stream'.const 5)
    let acts : List (Act ℕ) :=
      [.connect 1, .enqueue .low .broadcast (List.replicate 32 8), .wake, .snapshot [1], .sched,
        .enqueue .high .broadcast (List.replicate 32 7)]
    ∃ tr s, Run (Along (Step cfg randomCover) (Orderly cfg)) s₀ acts tr s ∧ s.shaper.highLane ≠ [] ∧
      s.shaper.lowLane ≠ [] ∧ HighFirst cfg randomCover tr s := by
  intro cfg s₀ acts
  obtain ⟨tr, s, h⟩ : ∃ tr s, exec (guarded (step cfg randomCover) (Orderly cfg)) s₀ acts = some (tr, s) :=
    ⟨_, _, rfl⟩
  have hend : (exec (guarded (step cfg randomCover) (Orderly cfg)) s₀ acts).map
      (fun x => decide (x.2.shaper.highLane ≠ [] ∧ x.2.shaper.lowLane ≠ [])) = some true := by decide
  rw [h, Option.map_some, Option.some.injEq, decide_eq_true_eq] at hend
  have hrun := run_along_of_exec h
  exact ⟨tr, s, hrun, hend.1, hend.2, highFirst_run rfl hrun⟩

/-- The scheduler finds the high lane empty; then the submission of a high frame is
completed, and a low frame is submitted. The second pop takes the low one. -/
theorem low_before_high :
    let cfg : ShaperConfig := { frameSize := 32, accepted := by decide }
    let s₀ : SystemState ℕ (Stream' UInt8) 64 := .new { rng := Stream'.const 1 } (Stream'.const 5)
    let acts : List (Act ℕ) :=
      [.connect 1, .wake, .snapshot [1], .sched, .enqueue .high .broadcast (List.replicate 32 7), .producer 0,
        .enqueue .low .broadcast (List.replicate 32 8)]
    ∃ tr s, Run (Step cfg randomCover) s₀ acts tr s ∧ ¬ HighFirst cfg randomCover tr s := by
  intro cfg s₀ acts
  obtain ⟨tr, s, h⟩ : ∃ tr s, exec (step cfg randomCover) s₀ acts = some (tr, s) := ⟨_, _, rfl⟩
  let high : PendingFrame ℕ := ⟨List.replicate 32 7, .broadcast, .enqueued 0⟩
  let low : PendingFrame ℕ := ⟨List.replicate 32 8, .broadcast, .enqueued 1⟩
  have hend : (exec (step cfg randomCover) s₀ acts).map (fun x => decide (high ∈ x.2.shaper.highLane ∧
      PushedBefore x.1 high low ∧ (step cfg randomCover x.2 .sched).map Prod.fst = some [.pop none .low low])) =
      some true := by decide
  rw [h, Option.map_some, Option.some.injEq, decide_eq_true_eq] at hend
  obtain ⟨hhigh, hpushed, hpop⟩ := hend
  obtain ⟨⟨es, s'⟩, hstep, hes⟩ := Option.map_eq_some_iff.mp hpop
  refine ⟨tr, s, run_of_exec h, fun hfirst => hfirst hstep low ?_ high hhigh hpushed⟩
  rw [show es = [.pop none .low low] from hes]
  exact List.mem_singleton_self _

/-- A frame in the high lane was pushed. -/
theorem push_of_mem_highLane (hi : SharedLanes tr s) (hh : h ∈ s.shaper.highLane) : .push none .high h ∈ tr := by
  have hpushed : h ∈ pushes none .high tr := by
    rw [← hi.pushed, ← hi.high]
    exact List.mem_append_right _ hh
  obtain ⟨e, he, hsome⟩ := List.mem_filterMap.mp hpushed
  cases e with
  | push o k f =>
    simp only [Option.ite_none_right_eq_some, Option.some.injEq] at hsome
    obtain ⟨⟨rfl, rfl⟩, rfl⟩ := hsome
    exact he
  | _ => cases hsome

/-- **After any other step, the next pop is out of the order of the pushes**: of that order the
condition is the exact one. The submission of the high frame may go on then, or be completed. -/
theorem not_highFirst_of_not_orderly (hscope : cfg.scope = .global) {sch : Scheduler Addr w} {gen : G}
    {as : List (Act Addr)} (hrun : Run (Step cfg cg) (.new sch gen) as tr s) (hstep : Step cfg cg s a es s')
    (horderly : ¬ Orderly cfg s a) : ¬ HighFirst cfg cg (tr ++ es) s' := by
  have hwf : SystemWf cfg s := systemWf_run (SystemWf.new sch gen) hrun
  have hdoes := doesGlobal_of_does hscope hwf (does_of_step hstep)
  unfold Orderly at horderly
  split at horderly
  · rename_i target frame
    obtain ⟨hpops, hrest⟩ := Classical.not_imp.mp horderly
    obtain ⟨hsize, hne⟩ := Classical.not_imp.mp hrest
    obtain ⟨p, ps, hpc⟩ : ∃ p ps, s.pc = .popLow p ps := by
      unfold betweenPops at hpops
      split at hpops
      · rename_i p ps hpc
        exact ⟨p, ps, hpc⟩
      · cases hpops
    obtain ⟨h, rest, hhigh⟩ := List.exists_cons_of_ne_nil hne
    have hpush := push_of_mem_highLane (sharedLanes_run hscope hrun) (hhigh ▸ List.mem_cons_self : h ∈ s.shaper.highLane)
    cases hdoes with
    | mismatch h => exact absurd hsize h
    | aside _ ha => cases ha
    | pushLow _ =>
      intro hfirst
      refine hfirst (step_of_does (.popLow hpc)) (submitted s target frame) ?_ h ?_ ?_
      · exact List.mem_singleton_self _
      · show h ∈ s.shaper.highLane
        rw [hhigh]
        exact List.mem_cons_self ..
      · exact (List.singleton_sublist.mpr hpush).append (List.singleton_sublist.mpr (by simp))
  · exact absurd trivial horderly

end Peashape.Shaping

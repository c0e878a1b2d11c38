import Peashape.Lifecycle.Wakeup
import Peashape.Shaping.Interleaving

/-!
# Waiting for the shaping task

`Node::shutdown` "waits for the shaping task to finish". It waits by awaiting the handle of
the task, and the handle is in a slot that the first caller empties: a later caller finds
none and returns, whatever the task is doing. So the promise is kept by every call exactly
in those runs in which a caller that finds the slot empty finds the task finished
(`shutdown_waits_iff`). Calls one after another are of this kind; two at the same time may
not be (`shutdown_returns_early`).

What makes a finished task's silence last is that nothing but a pass of the loop hands a
frame to the writer (`sends_of_finished`).
-/

namespace Peashape.Lifecycle

open Foundation SpawnedState Shaping

variable {Addr G : Type*} [DecidableEq Addr] {w : ℕ} {cfg : ShaperConfig} {cg : CoverGenerator G}
  {s s' : SpawnedState Addr G w} {a : SpawnedAct Addr} {es tr : List (SpawnedEvent Addr)}

/-! ### A finished task -/

/-- Outside a pass the system hands nothing to the writer. -/
theorem sends_of_not_inPass {sys sys' : SystemState Addr G w} {b : Act Addr} {es : List (Event Addr)}
    (h : SystemState.Step cfg cg sys b es sys') (hb : b.inPass = false) : sends es = [] := by
  rcases events_does (SystemState.does_of_step h) with
    hes | ⟨_, rfl, -⟩ | ⟨_, _, _, rfl, -⟩ | ⟨_, _, _, rfl, -⟩
  · exact (reads_of_ofShaper hes).1
  · cases hb
  · cases hb
  · cases hb

/-- A finished task hands nothing to the writer. -/
theorem sends_of_finished (h : Step cfg cg s a es s') (hloop : s.loop = .finished) :
    sends (systemEvents es) = [] := by
  cases does_of_step h with
  | @system b _ _ _ hpass hb =>
    rw [systemEvents_map_system]
    apply sends_of_not_inPass hb
    cases hin : b.inPass with
    | false => rfl
    | true => simp [hpass hin] at hloop
  | tick hselect => simp [hloop] at hselect
  | _ => rfl

/-- The history tells whether the task is finished. -/
def Told (tr : List (SpawnedEvent Addr)) (s : SpawnedState Addr G w) : Prop :=
  s.loop = .finished ↔ .finished ∈ tr

theorem told_step (hi : Told tr s) (h : Step cfg cg s a es s') : Told (tr ++ es) s' := by
  unfold Told at *
  cases does_of_step h with
  | system => simpa [not_mem_map_system] using hi
  | firstTick hloop | clear hloop | call hloop | again hloop =>
    rw [hloop] at hi
    simpa using hi
  | tick hloop | park hloop => rcases hloop with h | h <;> simpa [h, not_mem_map_system] using hi
  | release | quit => simp
  | shutdown | notify | close | take | miss | join => simpa using hi

/-- **The history tells whether the task is finished**, along every run. -/
theorem told_run {sch : Scheduler Addr w} {gen : G} {as : List (SpawnedAct Addr)}
    (h : Run (Step cfg cg) (.new cfg sch gen) as tr s) : Told tr s := by
  refine h.invariant ?_ fun hi hstep => told_step hi hstep
  unfold Told SpawnedState.new startPc
  split <;> simp

/-! ### The promise -/

/-- A call of `shutdown` that has returned has waited: the task was finished, and nothing is
handed to the writer afterwards. -/
def Waited (tr : List (SpawnedEvent Addr)) : Prop :=
  AtEach .returned (fun pre post => .finished ∈ pre ∧ sends (systemEvents post) = []) tr

/-- A caller that finds no handle in the slot finds the task finished. -/
def FindsFinished (s : SpawnedState Addr G w) : SpawnedAct Addr → Prop
  | .caller i => s.callers[i]? = some .closed → s.schedulerHandle = false → s.loop = .finished
  | _ => True

instance (s : SpawnedState Addr G w) : ∀ a : SpawnedAct Addr, Decidable (FindsFinished s a)
  | .caller i =>
    inferInstanceAs (Decidable (s.callers[i]? = some .closed → s.schedulerHandle = false → s.loop = .finished))
  | .system _ | .firstTick | .tick | .pollWake | .check | .call | .again | .shutdown => .isTrue trivial

/-- A step makes no call return, or it makes one return that found no handle, or that awaited
the task. -/
theorem returned_cases (h : Step cfg cg s a es s') : .returned ∉ es ∨
    es = [.returned] ∧ ((∃ i, a = .caller i ∧ s.callers[i]? = some .closed ∧ s.schedulerHandle = false) ∨
      s.loop = .finished) := by
  cases does_of_step h with
  | system | tick => exact .inl (not_mem_map_system (by simp) _)
  | miss hi hhandle => exact .inr ⟨rfl, .inl ⟨_, rfl, hi, hhandle⟩⟩
  | join _ hloop => exact .inr ⟨rfl, .inr hloop⟩
  | _ => exact .inl (by simp)

/-- A caller that finds no handle returns. -/
theorem events_of_miss {i : ℕ} (h : Step cfg cg s (.caller i) es s') (hi : s.callers[i]? = some .closed)
    (hhandle : s.schedulerHandle = false) : es = [.returned] := by
  simp only [Step, stepOf, step, callerStep, hi, hhandle, Bool.false_eq_true, if_false, Option.some.injEq,
    Prod.mk.injEq] at h
  exact h.1.symm

/-- A step keeps the promise. -/
theorem Waited.append (hw : Waited tr) (ht : Told tr s) (h : Step cfg cg s a es s') (hfind : FindsFinished s a) :
    Waited (tr ++ es) := by
  refine atEach_append.mpr ⟨hw.mono ?_, ?_⟩
  · rintro pre post htr ⟨hfin, hsends⟩
    -- a call has returned, so the task is finished
    have hloop : s.loop = .finished := by
      apply ht.mpr
      rw [htr]
      exact List.mem_append_left _ hfin
    rw [systemEvents_append, sends_append, hsends, sends_of_finished h hloop]
    exact ⟨hfin, rfl⟩
  · rcases returned_cases h with hnone | ⟨rfl, hwhy⟩
    · exact atEach_of_not_mem hnone
    · have hloop : s.loop = .finished := by
        rcases hwhy with ⟨i, rfl, hi, hhandle⟩ | hloop
        · exact hfind hi hhandle
        · exact hloop
      refine atEach_singleton.mpr ⟨?_, rfl⟩
      rw [List.append_nil]
      exact ht.mp hloop

/-- And only a step of this kind does. -/
theorem Waited.of_append (hw : Waited (tr ++ es)) (ht : Told tr s) (h : Step cfg cg s a es s') :
    Waited tr ∧ FindsFinished s a := by
  obtain ⟨hold, hnew⟩ := atEach_append.mp hw
  constructor
  · refine hold.mono ?_
    rintro pre post - ⟨hfin, hsends⟩
    rw [systemEvents_append, sends_append] at hsends
    exact ⟨hfin, (List.append_eq_nil_iff.mp hsends).1⟩
  · cases a with
    | caller i =>
      intro hi hhandle
      rw [events_of_miss h hi hhandle, atEach_singleton, List.append_nil] at hnew
      exact ht.mpr hnew.1
    | _ => trivial

/-- Where those that find no handle find the task finished, all that return have waited. -/
theorem waited_of_findsFinished {sch : Scheduler Addr w} {gen : G} {as : List (SpawnedAct Addr)}
    (h : Run (Along (Step cfg cg) FindsFinished) (.new cfg sch gen) as tr s) : Waited tr := by
  refine h.invariant_of (I := fun tr _ => Waited tr) (J := Told) (fun hrun => told_run hrun.of_along)
    (atEach_of_not_mem List.not_mem_nil) ?_
  rintro tr s a es s' ht hw ⟨hstep, hfind⟩
  exact hw.append ht hstep hfind

/-! ### Calls one after another -/

/-- A caller that finds no handle in the slot comes when nobody awaits the task. -/
def OneByOne (s : SpawnedState Addr G w) : SpawnedAct Addr → Prop
  | .caller i => s.callers[i]? = some .closed → s.schedulerHandle = false → .awaiting ∉ s.callers
  | _ => True

instance (s : SpawnedState Addr G w) : ∀ a : SpawnedAct Addr, Decidable (OneByOne s a)
  | .caller i =>
    inferInstanceAs (Decidable (s.callers[i]? = some .closed → s.schedulerHandle = false → .awaiting ∉ s.callers))
  | .system _ | .firstTick | .tick | .pollWake | .check | .call | .again | .shutdown => .isTrue trivial

/-- The handle is in its slot, or a caller awaits the task, or the task is finished. -/
def HandleHeld (s : SpawnedState Addr G w) : Prop :=
  s.schedulerHandle = false → .awaiting ∈ s.callers ∨ s.loop = .finished

/-- The other callers stay where they are. -/
theorem mem_set_of_ne {l : List Caller} {i : ℕ} {b c d : Caller} (hc : c ∈ l) (hi : l[i]? = some b) (hne : b ≠ c) :
    c ∈ l.set i d := by
  obtain ⟨j, hj⟩ := List.mem_iff_getElem?.mp hc
  apply List.mem_iff_getElem?.mpr
  refine ⟨j, ?_⟩
  rw [List.getElem?_set_ne, hj]
  rintro rfl
  rw [hi] at hj
  exact hne (Option.some.inj hj)

omit [DecidableEq Addr] in
/-- A caller that goes on, and was not awaiting the task, leaves the others where they are. -/
theorem HandleHeld.set (hi : HandleHeld s) {i : ℕ} {b d : Caller} (hb : s.callers[i]? = some b) (hne : b ≠ .awaiting)
    (hhandle : s.schedulerHandle = false) : .awaiting ∈ s.callers.set i d ∨ s.loop = .finished := by
  rcases hi hhandle with hmem | hloop
  · exact .inl (mem_set_of_ne hmem hb hne)
  · exact .inr hloop

theorem handleHeld_step (hi : HandleHeld s) (h : Step cfg cg s a es s') : HandleHeld s' := by
  intro hhandle
  cases does_of_step h with
  | system => exact hi hhandle
  | firstTick hloop | clear hloop | call hloop | again hloop =>
    exact .inl ((hi hhandle).resolve_right (by simp [hloop]))
  | tick hloop | park hloop =>
    refine .inl ((hi hhandle).resolve_right ?_)
    rcases hloop with h | h <;> simp [h]
  | release | quit => exact .inr rfl
  | shutdown => exact (hi hhandle).imp_left (List.mem_append_left _)
  | notify hb | close hb | miss hb => exact hi.set hb (by simp) hhandle
  | take hb =>
    -- this caller awaits the task from now on
    have hlt := (List.getElem?_eq_some_iff.mp hb).1
    exact .inl (List.mem_set hlt _)
  | join _ hloop => exact .inr hloop

omit [DecidableEq Addr] in
/-- A caller that finds no handle when nobody awaits the task finds it finished. -/
theorem HandleHeld.findsFinished (hi : HandleHeld s) (h : OneByOne s a) : FindsFinished s a := by
  cases a with
  | caller i =>
    intro hc hhandle
    exact (hi hhandle).resolve_left (h hc hhandle)
  | _ => trivial

/-- **Calls one after another wait.** In every run in which no caller finds the slot empty
while another one awaits the task, the calls that have returned have waited. -/
theorem waited_of_oneByOne {sch : Scheduler Addr w} {gen : G} {as : List (SpawnedAct Addr)}
    (h : Run (Along (Step cfg cg) OneByOne) (.new cfg sch gen) as tr s) : Waited tr := by
  have hkeep : HandleHeld s ∧ Run (Along (Step cfg cg) FindsFinished) (.new cfg sch gen) as tr s := by
    induction h with
    | nil =>
      constructor
      · intro hhandle
        cases hhandle
      · exact .nil
    | snoc _ hstep ih =>
      obtain ⟨hheld, hrun⟩ := ih
      exact ⟨handleHeld_step hheld hstep.1, hrun.snoc ⟨hstep.1, hheld.findsFinished hstep.2⟩⟩
  exact waited_of_findsFinished hkeep.2

/-! ### The promise -/

/-- **When `shutdown` waits.** Over every interleaving of the shaping task with any number of
calls of `shutdown` and with the rest of the node: the calls that have returned have waited
exactly if every caller that found no handle in the slot found the task finished. And they have
if no caller finds the slot empty while another one awaits the task, as when the calls are made
one after another. -/
theorem shutdown_waits_iff {sch : Scheduler Addr w} {gen : G} {as : List (SpawnedAct Addr)}
    (h : Run (Step cfg cg) (.new cfg sch gen) as tr s) :
    (Waited tr ↔ Run (Along (Step cfg cg) FindsFinished) (.new cfg sch gen) as tr s) ∧
      (Run (Along (Step cfg cg) OneByOne) (.new cfg sch gen) as tr s → Waited tr) := by
  refine ⟨⟨fun hw => ?_, waited_of_findsFinished⟩, waited_of_oneByOne⟩
  induction h with
  | nil => exact .nil
  | snoc hrun hstep ih =>
    obtain ⟨hwait, hfind⟩ := hw.of_append (told_run hrun) hstep
    exact (ih hwait).snoc ⟨hstep, hfind⟩

/-- Two calls of `shutdown` one after the other, on a node that waits for its next tick. -/
theorem shutdown_waits_iff_two :
    let cfg : ShaperConfig := { strategy := .poisson (.finite 1), accepted := by decide }
    let s₀ : SpawnedState ℕ (Stream' UInt8) 64 := .new cfg { rng := Stream'.const 1 } (Stream'.const 5)
    let first : List (SpawnedAct ℕ) :=
      [.pollWake, .shutdown, .caller 0, .caller 0, .caller 0, .pollWake, .caller 0]
    let second : List (SpawnedAct ℕ) := [.shutdown, .caller 1, .caller 1, .caller 1]
    ∃ tr s, Run (Step cfg randomCover) s₀ (first ++ second) tr s ∧ s.callers = [.returned, .returned] ∧ Waited tr ∧
      Run (Along (Step cfg randomCover) FindsFinished) s₀ (first ++ second) tr s := by
  intro cfg s₀ first second
  obtain ⟨tr, s, h⟩ : ∃ tr s, exec (guarded (step cfg randomCover) OneByOne) s₀ (first ++ second) = some (tr, s) :=
    ⟨_, _, rfl⟩
  have hcallers : (exec (guarded (step cfg randomCover) OneByOne) s₀ (first ++ second)).map
      (fun x => decide (x.2.callers = [.returned, .returned])) = some true := by decide
  rw [h, Option.map_some, Option.some.injEq, decide_eq_true_eq] at hcallers
  have halong := run_along_of_exec h
  obtain ⟨hiff, hone⟩ := shutdown_waits_iff halong.of_along
  exact ⟨tr, s, halong.of_along, hcallers, hone halong, hiff.mp (hone halong)⟩

/-- Two calls of `shutdown` while the scheduler is in `send_one`: the first takes the handle
and awaits the task; the second finds none and returns; and then the task, which is not
finished, hands its frame to the writer. -/
theorem shutdown_returns_early :
    let cfg : ShaperConfig := { strategy := .poisson (.finite 1), frameSize := 32, accepted := by decide }
    let s₀ : SpawnedState ℕ (Stream' UInt8) 64 := .new cfg { rng := Stream'.const 1 } (Stream'.const 5)
    let pass : List (SpawnedAct ℕ) := [.system (.connect 1), .tick, .check, .call, .system (.snapshot [1]),
      .system .sched, .system .sched]
    let first : List (SpawnedAct ℕ) := [.shutdown, .caller 0, .caller 0, .caller 0]
    let second : List (SpawnedAct ℕ) := [.shutdown, .caller 1, .caller 1, .system (.disconnect 1), .caller 1]
    ∃ tr s pre post, Run (Step cfg randomCover) s₀ (pass ++ first ++ second ++ [.system .sched]) tr s ∧
      s.callers = [.awaiting, .returned] ∧ s.loop ≠ .finished ∧ tr = pre ++ .returned :: post ∧
      .finished ∉ pre ∧ sends (systemEvents post) ≠ [] ∧ ¬ Waited tr := by
  intro cfg s₀ pass first second
  obtain ⟨tr, s, h⟩ : ∃ tr s, exec (step cfg randomCover) s₀ (pass ++ first ++ second ++ [.system .sched]) =
    some (tr, s) := ⟨_, _, rfl⟩
  have hstate : (exec (step cfg randomCover) s₀ (pass ++ first ++ second ++ [.system .sched])).map
      (fun x => decide (x.2.callers = [.awaiting, .returned] ∧ x.2.loop ≠ .finished)) = some true := by decide
  have htrace : (exec (step cfg randomCover) s₀ (pass ++ first ++ second ++ [.system .sched])).map
      (fun x : List (SpawnedEvent ℕ) × SpawnedState ℕ (Stream' UInt8) 64 =>
        let pre := x.1.takeWhile (· ≠ .returned)
        let post := (x.1.dropWhile (· ≠ .returned)).tail
        decide (x.1 = pre ++ .returned :: post ∧ .finished ∉ pre ∧ sends (systemEvents post) ≠ [])) =
      some true := by decide
  rw [h, Option.map_some, Option.some.injEq, decide_eq_true_eq] at hstate htrace
  obtain ⟨hsplit, hfin, hsends⟩ := htrace
  exact ⟨tr, s, _, _, run_of_exec h, hstate.1, hstate.2, hsplit, hfin, hsends,
    fun hw => hsends (hw _ _ hsplit).2⟩

end Peashape.Lifecycle

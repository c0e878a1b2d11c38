import Peashape.Foundation.Segments
import Peashape.Model.Shutdown

/-!
# The wake-up of a shutdown

"The notification is preserved if the scheduler is between `notified().await` calls when
shutdown is requested." This module proves it over every interleaving of the shaping task,
of any number of calls of `shutdown` and of everything else a node does, for each of the
three strategies: once a call has woken the scheduler, there is a notification for the loop
until the loop is left — a stored permit, or, if the loop waits, its being woken — and after
the flag is stored at most one more `send_one`, or one more pass over the lanes, begins
(`shutdown_wakes`).

It also connects the spawned node to the system it is made of: whatever the loop and the
callers do, the system makes a run of its own (`system_run`), so that what is proved of the
runs of the system holds of a node that is being shut down.
-/

namespace Peashape.Lifecycle

open Foundation SpawnedState

variable {Addr G : Type*} [DecidableEq Addr] {w : ℕ} {cfg : ShaperConfig} {cg : CoverGenerator G}
  {s s' : SpawnedState Addr G w} {a : SpawnedAct Addr} {es tr : List (SpawnedEvent Addr)}

/-! ### The system of a spawned node -/

omit [DecidableEq Addr] in
@[simp] theorem systemEvents_append (tr tr' : List (SpawnedEvent Addr)) :
    systemEvents (tr ++ tr') = systemEvents tr ++ systemEvents tr' :=
  List.filterMap_append

omit [DecidableEq Addr] in
@[simp] theorem systemEvents_map_system (es : List (Event Addr)) : systemEvents (es.map .system) = es := by
  induction es with
  | nil => rfl
  | cons e es ih => exact congrArg (e :: ·) ih

/-- A step of the spawned node is a step of the system, or leaves the system alone. -/
theorem system_step (h : Step cfg cg s a es s') :
    (∃ b, SystemState.Step cfg cg s.sys b (systemEvents es) s'.sys) ∨ systemEvents es = [] ∧ s'.sys = s.sys := by
  cases does_of_step h with
  | system _ _ hb => exact .inl ⟨_, by simpa using hb⟩
  | tick _ hb => exact .inl ⟨_, by simpa using hb⟩
  | _ => exact .inr ⟨rfl, rfl⟩

/-- **The system of a spawned node makes a run of its own.** -/
theorem system_run {sch : Scheduler Addr w} {gen : G} {as : List (SpawnedAct Addr)}
    (h : Run (Step cfg cg) (.new cfg sch gen) as tr s) :
    ∃ bs, Run (SystemState.Step cfg cg) (.new sch gen) bs (systemEvents tr) s.sys := by
  refine h.invariant (I := fun tr s => ∃ bs, Run (SystemState.Step cfg cg) (.new sch gen) bs (systemEvents tr) s.sys)
    ⟨[], .nil⟩ ?_
  rintro tr s a es s' ⟨bs, hrun⟩ hstep
  rw [systemEvents_append]
  rcases system_step hstep with ⟨b, hb⟩ | ⟨hes, hsys⟩
  · exact ⟨bs ++ [b], hrun.snoc hb⟩
  · rw [hes, hsys, List.append_nil]
    exact ⟨bs, hrun⟩

/-! ### The notification -/

/-- Some call of `shutdown` has woken the scheduler. -/
def Woken (s : SpawnedState Addr G w) : Prop := ∃ c ∈ s.callers, c.pastWake = true

/-- The invariant of the notification `wake`. -/
structure WakeKept (s : SpawnedState Addr G w) : Prop where
  /-- The loop waits for it where it is parked, and only there. -/
  waits : s.wake.waiter = .absent ↔ s.loop ≠ .parked
  /-- Once a call has woken the scheduler, there is a notification until the loop is left. -/
  held : Woken s → s.loop ≠ .finished → s.wake.held = true

omit [DecidableEq Addr] in
/-- A caller that is past its wake-up stays so. -/
theorem woken_of_getElem? {i : ℕ} {c : Caller} (hi : s.callers[i]? = some c) (hc : c.pastWake = true) : Woken s :=
  ⟨c, List.mem_of_getElem? hi, hc⟩

/-- Every step keeps the invariant. -/
theorem wakeKept_step (hi : WakeKept s) (h : Step cfg cg s a es s') : WakeKept s' := by
  obtain ⟨hwaits, hheld⟩ := hi
  cases does_of_step h with
  | system => exact ⟨hwaits, hheld⟩
  | firstTick hloop =>
    rw [hloop] at hwaits
    constructor
    · simpa using hwaits
    · exact fun hw _ => hheld hw (by simp [hloop])
  | tick hloop =>
    constructor
    · simp
    · intro hw _
      show s.wake.cancel.held = true
      rw [Notify.held_cancel]
      exact hheld hw (by rcases hloop with h | h <;> simp [h])
  | park hloop hnone =>
    -- the loop waits only if no call has woken it
    constructor
    · simp [(Notify.poll_of_not_held hnone).1]
    · intro hw _
      have hsome := hheld hw (by rcases hloop with h | h <;> simp [h])
      rw [hnone] at hsome
      cases hsome
  | release _ hsome =>
    constructor
    · simp [Notify.waiter_poll_of_held hsome]
    · exact fun _ hloop => absurd rfl hloop
  | clear hloop | quit hloop | call hloop | again hloop =>
    rw [hloop] at hwaits
    constructor
    · simpa using hwaits
    · exact fun hw _ => hheld hw (by simp [hloop])
  | shutdown =>
    refine ⟨hwaits, ?_⟩
    rintro ⟨c, hc, hpast⟩
    rcases List.mem_append.mp hc with hc | hc
    · exact hheld ⟨c, hc, hpast⟩
    · -- the new caller has not woken anybody
      obtain rfl := List.mem_singleton.mp hc
      cases hpast
  | notify =>
    constructor
    · exact (Notify.waiter_notifyOne _).trans hwaits
    · exact fun _ _ => Notify.held_notifyOne _
  | close hi | take hi | miss hi | join hi => exact ⟨hwaits, fun _ => hheld (woken_of_getElem? hi rfl)⟩

omit [DecidableEq Addr] in
/-- At the start nobody has called, and nobody waits. -/
theorem wakeKept_new (sch : Scheduler Addr w) (gen : G) : WakeKept (.new cfg sch gen : SpawnedState Addr G w) := by
  constructor
  · unfold SpawnedState.new startPc
    split <;> simp
  · rintro ⟨c, hc, -⟩
    cases hc

/-- **The notification is kept** along every run. -/
theorem wakeKept_run {sch : Scheduler Addr w} {gen : G} {as : List (SpawnedAct Addr)}
    (h : Run (Step cfg cg) (.new cfg sch gen) as tr s) : WakeKept s :=
  h.invariant (I := fun _ s => WakeKept s) (wakeKept_new sch gen) fun hi hstep => wakeKept_step hi hstep

/-- With a notification for it, the poll of the shutdown's arm leaves the loop. -/
theorem pollWake_of_held (hloop : s.loop = .top ∨ s.loop = .parked) (hheld : s.wake.held = true) :
    Step cfg cg s .pollWake [.finished] { s with wake := s.wake.poll.2, loop := .finished } := by
  simp [Step, stepOf, step, hloop, Notify.poll_eq_held, hheld]

/-! ### The passes that begin after the flag is stored -/

/-- The passes about to begin: one, if the loop has read the flag and not yet called. -/
def aboutToCall : LoopPc → ℕ
  | .cleared => 1
  | _ => 0

theorem aboutToCall_le_one (l : LoopPc) : aboutToCall l ≤ 1 := by cases l <;> decide

/-- The invariant of the flag: it tells whether a call has stored it, and since any of them
did, at most one pass has begun or is about to. -/
structure OnePass (tr : List (SpawnedEvent Addr)) (s : SpawnedState Addr G w) : Prop where
  flag : s.shuttingDown = false → .flagStored ∉ tr
  passes : AtEach .flagStored (fun _ post => post.count .begun + aboutToCall s.loop ≤ 1) tr

/-- A step that leaves neither event, and is about to call only if it was before. -/
theorem OnePass.quiet (hi : OnePass tr s) (hflag : s'.shuttingDown = s.shuttingDown)
    (hes : .flagStored ∉ es) (hbegun : es.count .begun = 0) (hloop : aboutToCall s'.loop ≤ aboutToCall s.loop) :
    OnePass (tr ++ es) s' := by
  constructor
  · intro h
    rw [hflag] at h
    simpa [hes] using hi.flag h
  · refine atEach_append.mpr ⟨hi.passes.mono fun pre post _ hle => ?_, atEach_of_not_mem hes⟩
    rw [List.count_append, hbegun]
    omega

omit [DecidableEq Addr] in
/-- A step of the system leaves the system's own events. -/
theorem not_mem_map_system {e : SpawnedEvent Addr} (he : ∀ x, e ≠ .system x) (es : List (Event Addr)) :
    e ∉ es.map .system := by
  intro hmem
  obtain ⟨x, -, hx⟩ := List.mem_map.mp hmem
  exact he x hx.symm

/-- A step of the system, by which the loop comes no nearer to a call. -/
theorem OnePass.ofSystem (hi : OnePass tr s) (hflag : s'.shuttingDown = s.shuttingDown)
    (hloop : aboutToCall s'.loop ≤ aboutToCall s.loop) (es : List (Event Addr)) : OnePass (tr ++ es.map .system) s' := by
  apply hi.quiet hflag _ _ hloop
  · exact not_mem_map_system (by simp) es
  · exact List.count_eq_zero.mpr (not_mem_map_system (by simp) es)

/-- Every step keeps the invariant. -/
theorem onePass_step (hi : OnePass tr s) (h : Step cfg cg s a es s') : OnePass (tr ++ es) s' := by
  cases does_of_step h with
  | system =>
    apply hi.ofSystem
    · rfl
    · exact le_rfl
  | tick =>
    apply hi.ofSystem
    · rfl
    · simp [aboutToCall]
  | firstTick | park | release | quit | again =>
    exact hi.quiet rfl (by simp) (by simp) (by simp [aboutToCall])
  | notify | close | take | miss | join => exact hi.quiet rfl (by simp) (by simp) le_rfl
  | clear hloop hflag =>
    -- the flag was not stored yet
    constructor
    · simpa using hi.flag
    · apply atEach_of_not_mem
      simpa using hi.flag hflag
  | call hloop =>
    -- the pass that was about to begin does
    constructor
    · simpa using hi.flag
    · refine atEach_append.mpr ⟨hi.passes.mono fun pre post _ hle => ?_, atEach_of_not_mem (by simp)⟩
      rw [hloop] at hle
      simpa [aboutToCall] using hle
  | shutdown =>
    constructor
    · intro h
      cases h
    · refine atEach_append.mpr ⟨hi.passes.mono fun pre post _ hle => ?_, atEach_singleton.mpr ?_⟩
      · simpa using hle
      · simpa using aboutToCall_le_one s.loop

/-- **At most one pass** begins after the flag is stored, along every run. -/
theorem onePass_run {sch : Scheduler Addr w} {gen : G} {as : List (SpawnedAct Addr)}
    (h : Run (Step cfg cg) (.new cfg sch gen) as tr s) : OnePass tr s := by
  refine h.invariant ⟨fun _ => List.not_mem_nil, ?_⟩ fun hi hstep => onePass_step hi hstep
  exact atEach_of_not_mem List.not_mem_nil

/-! ### The protocol -/

/-- **The wake-up of a shutdown.** Under each strategy, over every interleaving of the loop
with any number of calls of `shutdown` and with the rest of the node: once a call has woken
the scheduler and until the loop is left, there is a notification for the loop. It is a
stored permit unless the loop waits; and the loop, at its `select!` or waiting in it, is left
by the arm of the shutdown. After the flag is stored at most one pass begins. -/
theorem shutdown_wakes {sch : Scheduler Addr w} {gen : G} {as : List (SpawnedAct Addr)}
    (h : Run (Step cfg cg) (.new cfg sch gen) as tr s) :
    (Woken s → s.loop ≠ .finished →
      s.wake.held = true ∧ (s.loop ≠ .parked → s.wake.stored = true) ∧
      (s.loop = .top ∨ s.loop = .parked →
        Step cfg cg s .pollWake [.finished] { s with wake := s.wake.poll.2, loop := .finished })) ∧
    ∀ pre post, tr = pre ++ .flagStored :: post → post.count .begun ≤ 1 := by
  constructor
  · intro hwoken hloop
    have hkept := wakeKept_run h
    have hheld := hkept.held hwoken hloop
    refine ⟨hheld, fun hpark => ?_, fun hselect => pollWake_of_held hselect hheld⟩
    exact Notify.stored_of_absent (hkept.waits.mpr hpark) hheld
  · intro pre post he
    exact (Nat.le_add_right _ _).trans ((onePass_run h).passes pre post he)

/-- Passthrough without any enqueue: the loop waits, `shutdown` is called, and its wake-up
leaves the loop. -/
theorem shutdown_wakes_idle :
    let cfg : ShaperConfig := { strategy := .none, accepted := by decide }
    let s₀ : SpawnedState ℕ (Stream' UInt8) 64 := .new cfg { rng := Stream'.const 1 } (Stream'.const 5)
    ∃ tr s, Run (Step cfg randomCover) s₀ [.pollWake, .shutdown, .caller 0] tr s ∧ s.loop = .parked ∧
      Step cfg randomCover s .pollWake [.finished] { s with wake := s.wake.poll.2, loop := .finished } := by
  intro cfg s₀
  obtain ⟨tr, s, h⟩ : ∃ tr s, exec (step cfg randomCover) s₀ [.pollWake, .shutdown, .caller 0] = some (tr, s) :=
    ⟨_, _, rfl⟩
  have hfacts : (exec (step cfg randomCover) s₀ [.pollWake, .shutdown, .caller 0]).map
      (fun x => decide (x.2.loop = .parked ∧ x.2.callers = [.woken])) = some true := by decide
  rw [h, Option.map_some, Option.some.injEq, decide_eq_true_eq] at hfacts
  have hloop : s.loop = .parked := hfacts.1
  have hcallers : s.callers = [.woken] := hfacts.2
  have hwoken : Woken s := ⟨.woken, by simp [hcallers], rfl⟩
  have hpoll := (shutdown_wakes (run_of_exec h)).1 hwoken (by simp [hloop])
  exact ⟨tr, s, run_of_exec h, hloop, hpoll.2.2 (.inr hloop)⟩

end Peashape.Lifecycle

import Peashape.Foundation.Notify
import Peashape.Model.System

/-!
# The shaping task and its shutdown

A spawned node: the loops of `run_constant`, `run_poisson` and `run_passthrough`, and any
number of calls of `Node::shutdown` on its clones, over the system of
`Peashape.Model.System`, one atomic step at a time.

The three loops differ in what their `select!` waits for beside the shutdown — a tick, a
sleep, the notification of an enqueue — and in what they call afterwards, `send_one` or
`drain_passthrough`; and `run_constant` waits for one tick before its loop. All of this is
in the system's own steps and in where the loop starts (`startPc`), so one loop stands for
the three. The system is as in `Peashape.Model.System`, except that its scheduler waits and
goes on only as the loop lets it.

A `select!` polls its arms in any order. To take the arm that is not the shutdown drops the
`notified()` future, polled before or not, and so cancels it. `p2p.shut_down()` is a step
that only lets its caller go on: the connections it closes are steps of the system. The
shaping task is finished when its loop is left.
-/

namespace Peashape

open Foundation

variable {Addr G : Type*} {w : ℕ}

/-- Where the loop of the shaping task is. -/
inductive LoopPc where
  /-- `run_constant` waits for the immediate first tick. -/
  | start
  /-- Before the `select!`. -/
  | top
  /-- In the `select!`, waiting. -/
  | parked
  /-- The `select!` took the arm of the tick, or of the enqueue. -/
  | chosen
  /-- The flag was read, and it is not set. -/
  | cleared
  /-- In `send_one` or `drain_passthrough`. -/
  | working
  /-- The task is finished. -/
  | finished
  deriving DecidableEq

/-- Where a call of `shutdown` is. -/
inductive Caller where
  /-- It has stored the flag. -/
  | flagged
  /-- It has woken the scheduler. -/
  | woken
  /-- Its `p2p.shut_down()` has returned. -/
  | closed
  /-- It has taken the handle of the task and awaits it. -/
  | awaiting
  /-- It has returned. -/
  | returned
  deriving DecidableEq

/-- Whether a call has woken the scheduler. -/
def Caller.pastWake : Caller → Bool
  | .flagged => false
  | _ => true

/-- The state of a spawned node. -/
structure SpawnedState (Addr G : Type*) (w : ℕ) where
  /-- The system. -/
  sys : SystemState Addr G w
  /-- Where the loop is. -/
  loop : LoopPc
  /-- The flag `shutting_down`. -/
  shuttingDown : Bool := false
  /-- The notification `wake`, with the loop as its consumer. -/
  wake : Notify := .new
  /-- Whether `scheduler_handle` holds the handle of the task. -/
  schedulerHandle : Bool := true
  /-- The calls of `shutdown`. -/
  callers : List Caller := []

/-- A move of the shaping task, of a caller of `shutdown`, or of another thread. -/
inductive SpawnedAct (Addr : Type*) where
  /-- A move of the system. -/
  | system (a : Act Addr)
  /-- The first tick of `run_constant`. -/
  | firstTick
  /-- The `select!` takes the arm of the tick, or of the enqueue. -/
  | tick
  /-- The `select!` polls the arm of the shutdown. -/
  | pollWake
  /-- The loop reads the flag. -/
  | check
  /-- The loop calls `send_one` or `drain_passthrough`. -/
  | call
  /-- The call returns. -/
  | again
  /-- A thread calls `shutdown`, and stores the flag. -/
  | shutdown
  /-- The caller at this position of the list goes on. -/
  | caller (i : ℕ)
  deriving DecidableEq

/-- What a step of a spawned node leaves in the history. -/
inductive SpawnedEvent (Addr : Type*) where
  /-- What a step of the system leaves. -/
  | system (e : Event Addr)
  /-- A call of `shutdown` stored the flag. -/
  | flagStored
  /-- A call of `shutdown` woke the scheduler. -/
  | woke
  /-- A call of `send_one` or `drain_passthrough` begins. -/
  | begun
  /-- The shaping task finishes. -/
  | finished
  /-- A call of `shutdown` returns. -/
  | returned
  deriving DecidableEq

/-- What the system leaves in the history. -/
def systemEvents (tr : List (SpawnedEvent Addr)) : List (Event Addr) :=
  tr.filterMap fun
    | .system e => some e
    | _ => none

/-- The moves of the scheduler inside `send_one` and `drain_passthrough`. -/
def Act.inPass : Act Addr → Bool
  | .snapshot _ | .sched => true
  | _ => false

namespace SpawnedState

variable [DecidableEq Addr] (cfg : ShaperConfig) (cg : CoverGenerator G)

/-- Where the loop starts. -/
def startPc : LoopPc :=
  match cfg.strategy with
  | .constant _ => .start
  | .poisson _ | .none => .top

/-- A node that was just spawned. -/
def new (sch : Scheduler Addr w) (gen : G) : SpawnedState Addr G w :=
  { sys := .new sch gen, loop := startPc cfg }

/-- A step of a call of `shutdown`. -/
def callerStep (s : SpawnedState Addr G w) (i : ℕ) : Option (List (SpawnedEvent Addr) × SpawnedState Addr G w) :=
  match s.callers[i]? with
  | none | some .returned => none
  | some .flagged => some ([.woke], { s with wake := s.wake.notifyOne, callers := s.callers.set i .woken })
  | some .woken => some ([], { s with callers := s.callers.set i .closed })
  | some .closed =>
    if s.schedulerHandle then
      some ([], { s with schedulerHandle := false, callers := s.callers.set i .awaiting })
    else some ([.returned], { s with callers := s.callers.set i .returned })
  | some .awaiting =>
    if s.loop = .finished then some ([.returned], { s with callers := s.callers.set i .returned }) else none

/-- One step of a spawned node. -/
def step (s : SpawnedState Addr G w) :
    SpawnedAct Addr → Option (List (SpawnedEvent Addr) × SpawnedState Addr G w)
  | .system a =>
    if a = .wake ∨ a.inPass = true ∧ s.loop ≠ .working then none
    else
      match SystemState.step cfg cg s.sys a with
      | none => none
      | some (es, sys) => some (es.map .system, { s with sys := sys })
  | .firstTick => if s.loop = .start then some ([], { s with loop := .top }) else none
  | .tick =>
    if s.loop = .top ∨ s.loop = .parked then
      match SystemState.step cfg cg s.sys .wake with
      | none => none
      | some (es, sys) => some (es.map .system, { s with sys := sys, wake := s.wake.cancel, loop := .chosen })
    else none
  | .pollWake =>
    if s.loop = .top ∨ s.loop = .parked then
      let (ready, wake) := s.wake.poll
      if ready then some ([.finished], { s with wake := wake, loop := .finished })
      else some ([], { s with wake := wake, loop := .parked })
    else none
  | .check =>
    if s.loop = .chosen then
      if s.shuttingDown then some ([.finished], { s with loop := .finished })
      else some ([], { s with loop := .cleared })
    else none
  | .call => if s.loop = .cleared then some ([.begun], { s with loop := .working }) else none
  | .again => if s.loop = .working ∧ s.sys.pc = .idle then some ([], { s with loop := .top }) else none
  | .shutdown => some ([.flagStored], { s with shuttingDown := true, callers := s.callers ++ [.flagged] })
  | .caller i => callerStep s i

/-- The machine. -/
def Step : SpawnedState Addr G w → SpawnedAct Addr → List (SpawnedEvent Addr) → SpawnedState Addr G w → Prop :=
  stepOf (step cfg cg)

/-! ### Everything a step can do -/

/-- **Everything a step can do**, with the guards under which it does. -/
inductive Does (s : SpawnedState Addr G w) :
    SpawnedAct Addr → List (SpawnedEvent Addr) → SpawnedState Addr G w → Prop
  /-- The system moves, its scheduler only inside a pass. -/
  | system {a : Act Addr} {es : List (Event Addr)} {sys : SystemState Addr G w} (hwake : a ≠ .wake)
      (hpass : a.inPass = true → s.loop = .working) (h : SystemState.Step cfg cg s.sys a es sys) :
      Does s (.system a) (es.map .system) { s with sys := sys }
  | firstTick (hloop : s.loop = .start) : Does s .firstTick [] { s with loop := .top }
  /-- The wait for the tick or the enqueue ends, and the other one is cancelled. -/
  | tick {es : List (Event Addr)} {sys : SystemState Addr G w} (hloop : s.loop = .top ∨ s.loop = .parked)
      (h : SystemState.Step cfg cg s.sys .wake es sys) :
      Does s .tick (es.map .system) { s with sys := sys, wake := s.wake.cancel, loop := .chosen }
  /-- There is no notification, and the loop waits. -/
  | park (hloop : s.loop = .top ∨ s.loop = .parked) (hheld : s.wake.held = false) :
      Does s .pollWake [] { s with wake := s.wake.poll.2, loop := .parked }
  /-- There is one, and the loop is left. -/
  | release (hloop : s.loop = .top ∨ s.loop = .parked) (hheld : s.wake.held = true) :
      Does s .pollWake [.finished] { s with wake := s.wake.poll.2, loop := .finished }
  /-- The flag is not set. -/
  | clear (hloop : s.loop = .chosen) (hflag : s.shuttingDown = false) :
      Does s .check [] { s with loop := .cleared }
  /-- It is, and the loop is left. -/
  | quit (hloop : s.loop = .chosen) (hflag : s.shuttingDown = true) :
      Does s .check [.finished] { s with loop := .finished }
  | call (hloop : s.loop = .cleared) : Does s .call [.begun] { s with loop := .working }
  | again (hloop : s.loop = .working) (hpc : s.sys.pc = .idle) : Does s .again [] { s with loop := .top }
  | shutdown : Does s .shutdown [.flagStored] { s with shuttingDown := true, callers := s.callers ++ [.flagged] }
  /-- A caller wakes the scheduler. -/
  | notify {i : ℕ} (hi : s.callers[i]? = some .flagged) :
      Does s (.caller i) [.woke] { s with wake := s.wake.notifyOne, callers := s.callers.set i .woken }
  /-- Its `p2p.shut_down()` returns. -/
  | close {i : ℕ} (hi : s.callers[i]? = some .woken) :
      Does s (.caller i) [] { s with callers := s.callers.set i .closed }
  /-- It takes the handle. -/
  | take {i : ℕ} (hi : s.callers[i]? = some .closed) (hhandle : s.schedulerHandle = true) :
      Does s (.caller i) [] { s with schedulerHandle := false, callers := s.callers.set i .awaiting }
  /-- It finds no handle, and returns. -/
  | miss {i : ℕ} (hi : s.callers[i]? = some .closed) (hhandle : s.schedulerHandle = false) :
      Does s (.caller i) [.returned] { s with callers := s.callers.set i .returned }
  /-- The task it awaits is finished, and it returns. -/
  | join {i : ℕ} (hi : s.callers[i]? = some .awaiting) (hloop : s.loop = .finished) :
      Does s (.caller i) [.returned] { s with callers := s.callers.set i .returned }

variable {cfg cg}

theorem does_of_callerStep {s s' : SpawnedState Addr G w} {i : ℕ} {es : List (SpawnedEvent Addr)}
    (h : callerStep s i = some (es, s')) : Does cfg cg s (.caller i) es s' := by
  unfold callerStep at h
  split at h <;> rename_i hi
  · cases h
  · cases h
  · cases h
    exact .notify hi
  · cases h
    exact .close hi
  · split_ifs at h with hhandle <;> cases h
    · exact .take hi hhandle
    · exact .miss hi (Bool.eq_false_iff.mpr hhandle)
  · split_ifs at h with hloop
    cases h
    exact .join hi hloop

theorem does_of_step {s s' : SpawnedState Addr G w} {a : SpawnedAct Addr} {es : List (SpawnedEvent Addr)}
    (h : Step cfg cg s a es s') : Does cfg cg s a es s' := by
  simp only [Step, stepOf] at h
  cases a with
  | system a =>
    simp only [step] at h
    split_ifs at h with hguard
    split at h <;> rename_i hs
    · cases h
    · cases h
      obtain ⟨hwake, hpass⟩ := not_or.mp hguard
      exact .system hwake (fun hin => by_contra fun hloop => hpass ⟨hin, hloop⟩) hs
  | firstTick =>
    simp only [step] at h
    split_ifs at h with hloop
    cases h
    exact .firstTick hloop
  | tick =>
    simp only [step] at h
    split_ifs at h with hloop
    split at h <;> rename_i hs
    · cases h
    · cases h
      exact .tick hloop hs
  | pollWake =>
    simp only [step] at h
    split_ifs at h with hloop hready <;> cases h
    · exact .release hloop (s.wake.poll_eq_held ▸ hready)
    · exact .park hloop (s.wake.poll_eq_held ▸ Bool.eq_false_iff.mpr hready)
  | check =>
    simp only [step] at h
    split_ifs at h with hloop hflag <;> cases h
    · exact .quit hloop hflag
    · exact .clear hloop (Bool.eq_false_iff.mpr hflag)
  | call =>
    simp only [step] at h
    split_ifs at h with hloop
    cases h
    exact .call hloop
  | again =>
    simp only [step] at h
    split_ifs at h with hg
    cases h
    exact .again hg.1 hg.2
  | shutdown =>
    cases h
    exact .shutdown
  | caller i => exact does_of_callerStep h

end SpawnedState

end Peashape

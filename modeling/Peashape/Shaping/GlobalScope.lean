import Peashape.Shaping.Interleaving

/-!
# The steps of `Global` scope

`DoesGlobal` is `Does` for `Global` scope, with the pushes and pops taken apart by what the
shared lanes are: a push onto the high lane finds room, a pop finds the lane empty or takes
its first frame. Lanes of peers are never touched, and the scheduler is never in the middle
of a walk. What the two lanes, the wake-ups and the scheduler's place have to do with each
other is derived from it.
-/

namespace Peashape.Shaping

open Foundation Shaper SystemState

variable {Addr G : Type*} [DecidableEq Addr] {w : ℕ} {cfg : ShaperConfig} {cg : CoverGenerator G}
  {s s' : SystemState Addr G w} {a : Act Addr} {es : List (Event Addr)}

/-- A step that concerns neither the shared lanes nor the wake-ups nor the scheduler. -/
structure Aside (s s' : SystemState Addr G w) (es : List (Event Addr)) : Prop where
  /-- The high lane stays. -/
  high : s'.shaper.highLane = s.shaper.highLane
  /-- The low lane stays. -/
  low : s'.shaper.lowLane = s.shaper.lowLane
  /-- The threads in the middle of a submission stay. -/
  producers : s'.producers = s.producers
  /-- The permit stays. -/
  permit : s'.permit = s.permit
  /-- The scheduler stays where it is. -/
  pc : s'.pc = s.pc
  /-- Entries of peers may be dropped. -/
  prunes : ∀ e ∈ es, ∃ gone, e = .prune gone

/-- Whether a move is one that such a step comes from. -/
def isAside : Act Addr → Bool
  | .connect _ | .disconnect _ | .refreshPcPeers _ | .prunePeerLanes _ => true
  | _ => false

/-- The frame a submission puts in a shared lane. -/
def submitted (s : SystemState Addr G w) (target : Target Addr) (frame : Bytes) : PendingFrame Addr :=
  ⟨frame, target, .enqueued s.calls⟩

/-- The threads in the middle of a submission, with one more that is going to notify. -/
def withNotify (s : SystemState Addr G w) : List (Producer Addr) := s.producers ++ [.notify]

/-- **Everything a step can do in `Global` scope.** -/
inductive DoesGlobal (cfg : ShaperConfig) (cg : CoverGenerator G) (s : SystemState Addr G w) :
    Act Addr → List (Event Addr) → SystemState Addr G w → Prop
  /-- A frame of the wrong size. -/
  | mismatch {lane : Lane} {target : Target Addr} {frame : Bytes} {e : Error} (h : frame.length ≠ cfg.frameSize) :
      DoesGlobal cfg cg s (.enqueue lane target frame) [.refused s.calls e] { s with calls := s.calls + 1 }
  /-- The high lane is full. -/
  | full {target : Target Addr} {frame : Bytes} {e : Error} (h : cfg.highLaneCapacity ≤ s.shaper.highLane.length) :
      DoesGlobal cfg cg s (.enqueue .high target frame) [.refused s.calls e]
        { s with calls := s.calls + 1, producers := withNotify s }
  | pushHigh {target : Target Addr} {frame : Bytes} (h : frame.length = cfg.frameSize)
      (room : s.shaper.highLane.length < cfg.highLaneCapacity) :
      DoesGlobal cfg cg s (.enqueue .high target frame)
        [.accepted s.calls .high target frame, .push none .high (submitted s target frame)]
        { s with
          shaper := { s.shaper with highLane := s.shaper.highLane ++ [submitted s target frame] }
          calls := s.calls + 1
          producers := withNotify s }
  | pushLow {target : Target Addr} {frame : Bytes} (h : frame.length = cfg.frameSize) :
      DoesGlobal cfg cg s (.enqueue .low target frame)
        (.accepted s.calls .low target frame ::
          ((Deque.evictedBack cfg.lowLaneCapacity s.shaper.lowLane).map (.evict none .low) ++
            [.push none .low (submitted s target frame)]))
        { s with
          shaper := { s.shaper with
            lowLane := submitted s target frame :: Deque.evictBack cfg.lowLaneCapacity s.shaper.lowLane }
          calls := s.calls + 1
          producers := withNotify s }
  | notify {i : ℕ} (h : s.producers[i]? = some .notify) :
      DoesGlobal cfg cg s (.producer i) [] { s with permit := true, producers := s.producers.eraseIdx i }
  | aside {a : Act Addr} {es : List (Event Addr)} {s' : SystemState Addr G w} (h : Aside s s' es)
      (ha : isAside a = true) : DoesGlobal cfg cg s a es s'
  | tick (hpc : s.pc = .idle) (h : passthrough cfg = false) :
      DoesGlobal cfg cg s .wake [] { s with pc := .woken }
  | consume (hpc : s.pc = .idle) (h : passthrough cfg = true) (hp : s.permit = true) :
      DoesGlobal cfg cg s .wake [] { s with permit := false, pc := .woken }
  /-- No peer is connected: there is nothing to do. -/
  | alone (hpc : s.pc = .woken) (h : s.connected = ∅) :
      DoesGlobal cfg cg s (.snapshot []) [.snapshot []] { s with pc := .idle }
  | snapshot {p : Addr} {ps : List Addr} (hpc : s.pc = .woken) :
      DoesGlobal cfg cg s (.snapshot (p :: ps)) [.snapshot (p :: ps)] { s with pc := .popHigh p ps }
  | highEmpty {p : Addr} {ps : List Addr} (hpc : s.pc = .popHigh p ps) (h : s.shaper.highLane = []) :
      DoesGlobal cfg cg s .sched [] { s with pc := .popLow p ps }
  | popHigh {p : Addr} {ps : List Addr} {f : PendingFrame Addr} {rest : List (PendingFrame Addr)}
      (hpc : s.pc = .popHigh p ps) (h : s.shaper.highLane = f :: rest) :
      DoesGlobal cfg cg s .sched [.pop none .high f]
        { s with shaper := { s.shaper with highLane := rest }, pc := .dispatch p ps (some f) }
  | lowEmpty {p : Addr} {ps : List Addr} (hpc : s.pc = .popLow p ps) (h : s.shaper.lowLane = []) :
      DoesGlobal cfg cg s .sched [] { s with pc := afterPopLow cfg p ps none }
  | popLow {p : Addr} {ps : List Addr} {f : PendingFrame Addr} {rest : List (PendingFrame Addr)}
      (hpc : s.pc = .popLow p ps) (h : s.shaper.lowLane = f :: rest) :
      DoesGlobal cfg cg s .sched [.pop none .low f]
        { s with shaper := { s.shaper with lowLane := rest }, pc := .dispatch p ps (some f) }
  | dispatch {p : Addr} {ps : List Addr} {frame : Option (PendingFrame Addr)}
      (hpc : s.pc = .dispatch p ps frame) :
      DoesGlobal cfg cg s .sched (dispatchTick cfg cg (p :: ps) frame s.gen s.scheduler).events
        { s with
          gen := (dispatchTick cfg cg (p :: ps) frame s.gen s.scheduler).gen
          scheduler := (dispatchTick cfg cg (p :: ps) frame s.gen s.scheduler).scheduler
          pc := afterDispatch cfg p ps }

/-- A submission in `Global` scope. -/
theorem doesGlobal_enqueue (hscope : cfg.scope = .global) (s : SystemState Addr G w) (lane : Lane)
    (target : Target Addr) (frame : Bytes) :
    DoesGlobal cfg cg s (.enqueue lane target frame) (enqueueRawEvents cfg s.calls lane target frame s.shaper)
      { s with
        shaper := (enqueueRaw cfg s.calls lane target frame s.shaper).2
        calls := s.calls + 1
        producers := s.producers ++ if frame.length = cfg.frameSize then [.notify] else [] } := by
  by_cases hsize : frame.length = cfg.frameSize
  · cases lane with
    | high =>
      by_cases hroom : cfg.highLaneCapacity ≤ s.shaper.highLane.length
      · simp only [enqueueRawEvents, enqueueRaw, hscope, hsize, pushGlobal, hroom, ne_eq, not_true_eq_false,
          if_false, if_true]
        exact .full hroom
      · simp only [enqueueRawEvents, enqueueRaw, hscope, hsize, pushGlobal, pushGlobalEvents, hroom, ne_eq,
          not_true_eq_false, if_false, if_true]
        exact .pushHigh hsize (Nat.lt_of_not_le hroom)
    | low =>
      simp only [enqueueRawEvents, enqueueRaw, hscope, hsize, pushGlobal, pushGlobalEvents, ne_eq,
        not_true_eq_false, if_false, if_true]
      exact .pushLow hsize
  · simp only [enqueueRawEvents, enqueueRaw, hsize, ne_eq, not_false_eq_true, if_true, if_false, List.append_nil]
    exact .mismatch hsize

/-- **Every step of `Global` scope is one of these.** -/
theorem doesGlobal_of_does (hscope : cfg.scope = .global) (hwf : SystemWf cfg s) (h : Does cfg cg s a es s') :
    DoesGlobal cfg cg s a es s' := by
  have hpcWf := hwf.pc
  cases h with
  | enqueue _ => exact doesGlobal_enqueue hscope s _ _ _
  | clone h => exact absurd hscope (of_decide_eq_true h).2.1
  | fan h => exact absurd hscope (hwf.fans _ _ _ (List.mem_of_getElem? h)).1
  | notify h => exact .notify h
  | connect => exact .aside ⟨rfl, rfl, rfl, rfl, rfl, List.forall_mem_nil _⟩ rfl
  | disconnect => exact .aside ⟨rfl, rfl, rfl, rfl, rfl, List.forall_mem_nil _⟩ rfl
  | refreshPcPeers => exact .aside ⟨rfl, rfl, rfl, rfl, rfl, List.forall_mem_nil _⟩ rfl
  | prunePeerLanes =>
    refine .aside ⟨?_, ?_, rfl, rfl, rfl, fun e he => ⟨_, List.mem_singleton.mp he⟩⟩ rfl <;>
      simp only [prunePeerLanes_eq]
  | tick hpc h => exact .tick hpc h
  | consume hpc h hp => exact .consume hpc h hp
  | @snapshot peers hpc _ hp =>
    cases peers with
    | nil =>
      rw [afterSnapshot_global_nil hscope]
      exact .alone hpc hp.symm
    | cons p ps =>
      rw [afterSnapshot_global_cons hscope]
      exact .snapshot hpc
  | @popHigh p ps hpc =>
    cases h : s.shaper.highLane with
    | nil =>
      simp only [popHighEvents, h, popHigh_of_nil h]
      exact .highEmpty hpc h
    | cons f rest =>
      simp only [popHighEvents, Shaper.popHigh, h, List.head?_cons, List.tail_cons]
      exact .popHigh hpc h
  | @popLow p ps hpc =>
    cases h : s.shaper.lowLane with
    | nil =>
      simp only [popLowEvents, h, popLow_of_nil h]
      exact .lowEmpty hpc h
    | cons f rest =>
      simp only [popLowEvents, Shaper.popLow, h, List.head?_cons, List.tail_cons]
      exact .popLow hpc h
  | dispatch hpc => exact .dispatch hpc
  | refresh hpc => rw [hpc] at hpcWf; exact absurd hscope hpcWf.1
  | prune hpc => rw [hpc] at hpcWf; exact absurd hscope hpcWf.1
  | pick hpc => rw [hpc] at hpcWf; exact absurd hscope hpcWf.1
  | walk hpc => rw [hpc] at hpcWf; exact absurd hscope hpcWf.1
  | visit hpc => rw [hpc] at hpcWf; exact absurd hscope hpcWf.1
  | deliver hpc => rw [hpc] at hpcWf; exact absurd hscope hpcWf.1

end Peashape.Shaping

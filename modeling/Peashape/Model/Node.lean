import Peashape.Model.Scheduler
import Peashape.Foundation.Machine

/-!
# Operations on a node

The calls an application and the scheduler make on the shared state, one whole call at a
time, as a machine: `exec` is what a call does and leaves in the history. How calls of
several threads interleave is the subject of `Peashape.Model.System`.

An application submits through `enqueue` and `enqueue_raw`, mostly by way of the methods
of `Node` (`node.rs`), which are these with their lane and target filled in. The shaper
is shared and its methods are public, so an application may also call
`refresh_pc_peers`, `prune_peer_lanes`, `next_frame` and `next_frame_for` itself.
-/

namespace Peashape

open Foundation

variable {Addr G : Type*} {w : ℕ}

/-- A call on the shared state. Snapshots of the connected peers are inputs. -/
inductive Op (Addr : Type*) where
  /-- `Shaper::enqueue`, with the random bytes it draws. -/
  | enqueue (lane : Lane) (target : Target Addr) (payload : Bytes) (rng : Stream' UInt8)
  /-- `Shaper::enqueue_raw`. -/
  | enqueueRaw (lane : Lane) (target : Target Addr) (frame : Bytes)
  /-- `Scheduler::send_one`. -/
  | sendOne (peers : List Addr)
  /-- `Scheduler::drain_passthrough`. -/
  | drainPassthrough (peers : List Addr)
  /-- `Shaper::refresh_pc_peers`. -/
  | refreshPcPeers (peers : List Addr)
  /-- `Shaper::prune_peer_lanes`. -/
  | prunePeerLanes (peers : List Addr)
  /-- `Shaper::next_frame`. -/
  | nextFrame
  /-- `Shaper::next_frame_for`. -/
  | nextFrameFor (peer : Addr)

namespace Op

/-- `Node::send_shaped`. -/
def sendShaped (peer : Addr) (payload : Bytes) (rng : Stream' UInt8) : Op Addr :=
  .enqueue .high (.unicast peer) payload rng

/-- `Node::broadcast_shaped`. -/
def broadcastShaped (payload : Bytes) (rng : Stream' UInt8) : Op Addr := .enqueue .high .broadcast payload rng

/-- `Node::send_shaped_low`. -/
def sendShapedLow (peer : Addr) (payload : Bytes) (rng : Stream' UInt8) : Op Addr :=
  .enqueue .low (.unicast peer) payload rng

/-- `Node::broadcast_shaped_low`. -/
def broadcastShapedLow (payload : Bytes) (rng : Stream' UInt8) : Op Addr :=
  .enqueue .low .broadcast payload rng

/-- `Node::relay_shaped`. -/
def relayShaped (frame : Bytes) : Op Addr := .enqueueRaw .low .broadcast frame

/-- The call of `enqueue_raw` that a submission comes down to. -/
def raw? (c : ShapeConfig) : Op Addr → Option (Lane × Target Addr × Bytes)
  | .enqueueRaw lane target frame => some (lane, target, frame)
  | .enqueue lane target payload rng =>
    if c.frameSize - idSize < payload.length then none
    else some (lane, target, (buildFrame c payload rng).1.2)
  | _ => none

/-- The snapshot of a tick. -/
def snapshot? : Op Addr → Option (List Addr)
  | .sendOne peers => some peers
  | _ => none

end Op

namespace NodeState

/-- A new node, with the scheduler's memory and random offsets, and the generator. -/
def new (sch : Scheduler Addr w) (gen : G) : NodeState Addr G w := { scheduler := sch, gen := gen }

variable [DecidableEq Addr] (cfg : ShaperConfig) (cg : CoverGenerator G)

/-- A call and what it leaves. -/
def exec (s : NodeState Addr G w) : Op Addr → List (Event Addr) × NodeState Addr G w
  | .enqueue lane target payload rng =>
    (s.shaper.enqueueEvents cfg s.calls lane target payload rng,
      { s with shaper := (s.shaper.enqueue cfg s.calls lane target payload rng).2, calls := s.calls + 1 })
  | .enqueueRaw lane target frame =>
    (s.shaper.enqueueRawEvents cfg s.calls lane target frame,
      { s with shaper := (s.shaper.enqueueRaw cfg s.calls lane target frame).2, calls := s.calls + 1 })
  | .sendOne peers => sendOne cfg cg peers s
  | .drainPassthrough peers => drainPassthrough cfg cg peers s
  | .refreshPcPeers peers => ([], { s with shaper := s.shaper.refreshPcPeers peers })
  | .prunePeerLanes peers =>
    (s.shaper.prunePeerLanesEvents peers, { s with shaper := s.shaper.prunePeerLanes peers })
  | .nextFrame => (s.shaper.nextFrameEvents, { s with shaper := s.shaper.nextFrame.2 })
  | .nextFrameFor peer => (s.shaper.nextFrameForEvents peer, { s with shaper := (s.shaper.nextFrameFor peer).2 })

/-- A submission that comes down to a call of `enqueue_raw` does what that call does. -/
theorem exec_of_raw {s : NodeState Addr G w} {op : Op Addr} {lane : Lane} {target : Target Addr}
    {frame : Bytes} (h : op.raw? cfg.toShapeConfig = some (lane, target, frame)) :
    s.exec cfg cg op = s.exec cfg cg (.enqueueRaw lane target frame) := by
  cases op with
  | enqueueRaw l t f => cases h; rfl
  | enqueue l t payload rng =>
    simp only [Op.raw?] at h
    split_ifs at h with hsize
    cases h
    simp only [exec, Shaper.enqueueEvents, if_neg hsize, Shaper.enqueue_snd]
  | _ => cases h

/-- A submission that does not come down to one changes no lane. -/
theorem exec_enqueue_of_raw_none {s : NodeState Addr G w} {lane : Lane} {target : Target Addr}
    {payload : Bytes} {rng : Stream' UInt8}
    (h : (Op.enqueue lane target payload rng).raw? cfg.toShapeConfig = none) :
    s.exec cfg cg (.enqueue lane target payload rng) =
      ([.refused s.calls (.payloadTooLarge payload.length (cfg.frameSize - idSize))],
        { s with calls := s.calls + 1 }) := by
  simp only [Op.raw?] at h
  split_ifs at h with hsize
  simp only [exec, Shaper.enqueueEvents, if_pos hsize, Shaper.enqueue_snd]

/-- The calls as steps of a machine; none is refused. -/
def Step : NodeState Addr G w → Op Addr → List (Event Addr) → NodeState Addr G w → Prop :=
  stepOf fun s op => some (exec cfg cg s op)

/-- A call is a step. -/
theorem step_exec (s : NodeState Addr G w) (op : Op Addr) :
    Step cfg cg s op (s.exec cfg cg op).1 (s.exec cfg cg op).2 := rfl

/-- A step is a call. -/
theorem exec_of_step {s s' : NodeState Addr G w} {op : Op Addr} {es : List (Event Addr)}
    (h : Step cfg cg s op es s') : (s.exec cfg cg op).1 = es ∧ (s.exec cfg cg op).2 = s' :=
  Prod.ext_iff.mp (Option.some.inj h)

end NodeState

end Peashape

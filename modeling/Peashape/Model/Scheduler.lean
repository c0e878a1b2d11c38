import Peashape.Model.History

/-!
# The scheduler

`scheduler.rs`: picking peers, dispatching a frame, one tick (`send_one`) and one
passthrough drain (`drain_passthrough`).

The cursor is a machine word of any width `w`, so `wrapping_add` is the word's own
addition; the index expression `(*cursor + offset) % remaining` is computed as a build
without overflow checks computes it, the sum wrapping. Random offsets come from a
stream of numbers: `random_range(0..n)` takes the next one modulo `n`, so every
sequence of in-range offsets is the one some stream gives, and no other.

Each function returns the events it leaves, in order: calls of the cover generator,
frames handed to the writer (`send_one_to`), frames popped. Whether a frame handed to
the writer is delivered is up to the network layer.
-/

namespace Peashape

open Foundation

variable {Addr G : Type*} {w : ℕ}

/-- The scheduler's memory between ticks, and its source of random offsets. -/
structure Scheduler (Addr : Type*) (w : ℕ) where
  /-- The round-robin cursor. -/
  cursor : BitVec w := 0
  /-- The peers selected on the previous `Global` tick. -/
  lastPeers : List Addr := []
  /-- The thread's random numbers. -/
  rng : Stream' ℕ

/-- `rng.random_range(0..n)`. -/
def randomRange (n : ℕ) (rng : Stream' ℕ) : ℕ × Stream' ℕ := (rng.head % n, rng.tail)

/-- `*cursor + offset`, without overflow checks. -/
def cursorSum (cursor : BitVec w) (offset : ℕ) : ℕ := (cursor + BitVec.ofNat w offset).toNat

namespace Scheduler

variable [DecidableEq Addr]

/-! ### Picking peers -/

/-- The local variables of the loop of `pick_targets`, over the positions of `peers`. -/
structure Picking (peers : List Addr) (w : ℕ) where
  /-- Positions not sent to last tick. -/
  fresh : List (Fin peers.length)
  /-- Positions sent to last tick. -/
  used : List (Fin peers.length)
  /-- The peers chosen so far. -/
  chosen : List Addr
  /-- The cursor. -/
  cursor : BitVec w
  /-- The random numbers left. -/
  rng : Stream' ℕ

/-- Draw an offset and remove from the nonempty pool `a :: pool` the position at
`(*cursor + offset) % remaining`. -/
def drawFrom {n : ℕ} (cursor : BitVec w) (rng : Stream' ℕ) (a : Fin n) (pool : List (Fin n)) :
    Fin n × List (Fin n) × Stream' ℕ :=
  let (offset, rng) := randomRange (pool.length + 1) rng
  let (i, pool) := Deque.removeAt (cursorSum cursor offset) a pool
  (i, pool, rng)

/-- One round of the loop: from the fresh pool while it lasts, then from the used one;
`none` is the `break` when both are empty. -/
def pickStep {peers : List Addr} (st : Picking peers w) : Option (Picking peers w) :=
  match st.fresh, st.used with
  | a :: fresh, used =>
    let (i, fresh, rng) := drawFrom st.cursor st.rng a fresh
    some ⟨fresh, used, st.chosen ++ [peers.get i], st.cursor + 1, rng⟩
  | [], a :: used =>
    let (i, used, rng) := drawFrom st.cursor st.rng a used
    some ⟨[], used, st.chosen ++ [peers.get i], st.cursor + 1, rng⟩
  | [], [] => none

/-- The loop, for at most the given number of rounds. -/
def pickLoop {peers : List Addr} : ℕ → Picking peers w → Picking peers w
  | 0, st => st
  | k + 1, st =>
    match pickStep st with
    | none => st
    | some st => pickLoop k st

/-- The loop starts with the positions partitioned by whether the peer was sent to last
tick, and nothing chosen. -/
def pickStart (peers : List Addr) (sch : Scheduler Addr w) : Picking peers w :=
  let (used, fresh) := (List.finRange peers.length).partition fun i => decide (peers.get i ∈ sch.lastPeers)
  ⟨fresh, used, [], sch.cursor, sch.rng⟩

/-- `pick_targets`: `fanout` distinct peers, or all of them if there are fewer. -/
def pickTargets (peers : List Addr) (fanout : ℕ) (sch : Scheduler Addr w) :
    List Addr × Scheduler Addr w :=
  if peers.length = 0 then ([], sch)
  else
    let st := pickLoop (min fanout peers.length) (pickStart peers sch)
    (st.chosen, ⟨st.cursor, st.chosen, st.rng⟩)

/-- `pick_round_robin`, for the nonempty peer list `p :: ps`. -/
def pickRoundRobin (p : Addr) (ps : List Addr) (randomize : Bool) (sch : Scheduler Addr w) :
    Addr × Scheduler Addr w :=
  let n := ps.length + 1
  let (pick, rng) :=
    if randomize then
      let (offset, rng) := randomRange n sch.rng
      (cursorSum sch.cursor offset, rng)
    else (sch.cursor.toNat, sch.rng)
  ((p :: ps).get ⟨pick % n, Nat.mod_lt _ (Nat.succ_pos _)⟩, ⟨sch.cursor + 1, sch.lastPeers, rng⟩)

end Scheduler

/-! ### Frames from the cover generator -/

section Generator

variable (cfg : ShapeConfig) (cg : CoverGenerator G)

/-- `Shaper::cover`: a freshly-generated cover frame. -/
def cover (g : G) : PendingFrame Addr × G :=
  let (bytes, g) := cg.cover cfg g
  (⟨bytes, .broadcast, .cover⟩, g)

/-- `Shaper::finalize_real`: a lane-drained frame, through the generator's hook. -/
def finalizeReal (frame : PendingFrame Addr) (g : G) : PendingFrame Addr × G :=
  let (bytes, g) := cg.finalizeReal cfg g frame.bytes
  ({ frame with bytes := bytes }, g)

@[simp] theorem cover_target (g : G) : (cover cfg cg g : PendingFrame Addr × G).1.target = .broadcast := rfl

@[simp] theorem cover_origin (g : G) : (cover cfg cg g : PendingFrame Addr × G).1.origin = .cover := rfl

@[simp] theorem finalizeReal_target (frame : PendingFrame Addr) (g : G) :
    (finalizeReal cfg cg frame g).1.target = frame.target := rfl

@[simp] theorem finalizeReal_origin (frame : PendingFrame Addr) (g : G) :
    (finalizeReal cfg cg frame g).1.origin = frame.origin := rfl

/-- Successive cover frames. -/
def covers : ℕ → G → List (PendingFrame Addr)
  | 0, _ => []
  | n + 1, g => (cover cfg cg g).1 :: covers n (cover cfg cg g : PendingFrame Addr × G).2

/-- `for peer in targets { self.send_one_to(node, peer, &self.shaper.cover()); }`. -/
def sendCovers : List Addr → G → List (Event Addr) × G
  | [], g => ([], g)
  | peer :: targets, g =>
    let (c, g) := cover cfg cg g
    let (es, g) := sendCovers targets g
    (.cover c :: .send peer c :: es, g)

end Generator

/-! ### Dispatching -/

section Dispatch

variable [DecidableEq Addr] (cfg : ShaperConfig) (cg : CoverGenerator G)

/-- What a dispatch leaves: its events, the generator and the scheduler's memory. -/
structure Dispatched (Addr G : Type*) (w : ℕ) where
  /-- The events, in order. -/
  events : List (Event Addr)
  /-- The generator's state. -/
  gen : G
  /-- The scheduler's memory. -/
  scheduler : Scheduler Addr w

/-- The fanout of a tick: `fanout.min(peers.len()).max(1)`. -/
def effectiveFanout (peers : List Addr) : ℕ := max (min cfg.fanout peers.length) 1

/-- `dispatch_global`. -/
def dispatchGlobal (peers : List Addr) (frame : PendingFrame Addr) (g : G) (sch : Scheduler Addr w) :
    Dispatched Addr G w :=
  let fanout := effectiveFanout cfg peers
  match frame.target with
  | .unicast target =>
    if target ∈ peers then
      -- the real frame to its recipient, cover to the remaining slots
      let others := peers.filter (· ≠ target)
      let coverN := min (fanout - 1) others.length
      let (targets, sch) := sch.pickTargets others coverN
      let (es, g) := sendCovers cfg.toShapeConfig cg targets g
      ⟨.send target frame :: es, g, sch⟩
    else
      -- the recipient has disconnected: the frame is dropped, cover in every slot
      let (targets, sch) := sch.pickTargets peers fanout
      let (es, g) := sendCovers cfg.toShapeConfig cg targets g
      ⟨es, g, sch⟩
  | .broadcast =>
    let (targets, sch) := sch.pickTargets peers fanout
    ⟨targets.map fun peer => .send peer frame, g, sch⟩

/-- A node's shared state: the shaper, the scheduler's memory and the generator's. -/
structure NodeState (Addr G : Type*) (w : ℕ) where
  /-- The shaper. -/
  shaper : Shaper Addr := {}
  /-- The scheduler. -/
  scheduler : Scheduler Addr w
  /-- The cover generator. -/
  gen : G
  /-- How many calls of `enqueue_raw` and `enqueue` there were (a history variable). -/
  calls : ℕ := 0

/-- A drained frame finalized, or a fresh cover frame if there is none, with the call
of the generator that gave it. -/
def frameToSend (frame : Option (PendingFrame Addr)) (g : G) : PendingFrame Addr × Event Addr × G :=
  match frame with
  | some real =>
    let (result, g) := finalizeReal cfg.toShapeConfig cg real g
    (result, .finalizeReal real result, g)
  | none =>
    let (result, g) := cover cfg.toShapeConfig cg g
    (result, .cover result, g)

/-- The end of a `Global` tick: finalize the frame, or generate cover, and dispatch. -/
def dispatchTick (peers : List Addr) (frame : Option (PendingFrame Addr)) (g : G)
    (sch : Scheduler Addr w) : Dispatched Addr G w :=
  let (result, call, g) := frameToSend cfg cg frame g
  let d := dispatchGlobal cfg cg peers result g sch
  { d with events := call :: d.events }

/-- `send_one`, with the snapshot of the connected peers it takes. -/
def sendOne (peers : List Addr) (s : NodeState Addr G w) : List (Event Addr) × NodeState Addr G w :=
  match cfg.scope with
  | .global =>
    match peers with
    | [] => ([.snapshot peers], s)
    | _ :: _ =>
      let (frame, shaper) := s.shaper.nextFrame
      let d := dispatchTick cfg cg peers frame s.gen s.scheduler
      (.snapshot peers :: s.shaper.nextFrameEvents ++ d.events,
        { s with shaper := shaper, scheduler := d.scheduler, gen := d.gen })
  | .perConnection randomize =>
    let refreshed := s.shaper.refreshPcPeers peers
    let pruned := refreshed.prunePeerLanes peers
    let es := .snapshot peers :: refreshed.prunePeerLanesEvents peers
    match peers with
    | [] => (es, { s with shaper := pruned })
    | p :: ps =>
      let (peer, sch) := s.scheduler.pickRoundRobin p ps randomize
      let (frame, shaper) := pruned.nextFrameFor peer
      let (result, call, g) := frameToSend cfg cg frame s.gen
      (es ++ pruned.nextFrameForEvents peer ++ [call, .send peer result],
        { s with shaper := shaper, scheduler := sch, gen := g })

/-! ### Passthrough -/

/-- The loop of `drain_passthrough` in `Global` scope:
`while let Some(real) = self.shaper.next_frame()`, for at most the given number of rounds. -/
def drainGlobal (peers : List Addr) : ℕ → NodeState Addr G w → List (Event Addr) × NodeState Addr G w
  | 0, s => ([], s)
  | n + 1, s =>
    match s.shaper.nextFrame with
    | (none, shaper) => ([], { s with shaper := shaper })
    | (some real, shaper) =>
      let d := dispatchTick cfg cg peers (some real) s.gen s.scheduler
      let (es, s') := drainGlobal peers n
        { s with shaper := shaper, scheduler := d.scheduler, gen := d.gen }
      (s.shaper.nextFrameEvents ++ d.events ++ es, s')

/-- The loop of `drain_passthrough` in `PerConnection` scope, over the cached peers. -/
def drainPeers : List Addr → NodeState Addr G w → List (Event Addr) × NodeState Addr G w
  | [], s => ([], s)
  | peer :: peers, s =>
    match s.shaper.nextFrameFor peer with
    | (none, shaper) => drainPeers peers { s with shaper := shaper }
    | (some real, shaper) =>
      let (result, call, g) := frameToSend cfg cg (some real) s.gen
      let (es, s') := drainPeers peers { s with shaper := shaper, gen := g }
      (s.shaper.nextFrameForEvents peer ++ [call, .send peer result] ++ es, s')

/-- `drain_passthrough`, with the snapshot of the connected peers it takes. Each round of
the `Global` loop pops a frame, so as many rounds as there are frames are enough. -/
def drainPassthrough (peers : List Addr) (s : NodeState Addr G w) :
    List (Event Addr) × NodeState Addr G w :=
  match cfg.scope with
  | .global =>
    match peers with
    | [] => ([.snapshot peers], s)
    | _ :: _ =>
      let (es, s) := drainGlobal cfg cg peers (s.shaper.highLane.length + s.shaper.lowLane.length) s
      (.snapshot peers :: es, s)
  | .perConnection _ =>
    let refreshed := s.shaper.refreshPcPeers peers
    let pruned := refreshed.prunePeerLanes peers
    let es := .snapshot peers :: refreshed.prunePeerLanesEvents peers
    match peers with
    | [] => (es, { s with shaper := pruned })
    | _ :: _ =>
      let (es', s) := drainPeers cfg cg pruned.pcPeersSnapshot { s with shaper := pruned }
      (es ++ es', s)

end Dispatch

end Peashape

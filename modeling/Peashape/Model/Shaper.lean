import Peashape.Foundation.Deque
import Peashape.Foundation.FiniteMap
import Peashape.Model.Config

/-!
# The shaper

`shaper.rs`: the frames waiting to be sent, in one shared pair of lanes
(`ShapingScope::Global`) or in a pair of lanes for each peer
(`ShapingScope::PerConnection`), and the operations on them.

A lane is a list, front first; the map of per-peer lanes is a finite map; addresses
are any type with decidable equality. Every function takes the shaper as it finds it
under the lock and returns the shaper it leaves, so each one here that the source runs
under a single lock is one atomic step: `pushGlobal`, `pushPeer`, `fanOutTo`,
`popHigh`, `popLow`, `nextFrameFor`, `refreshPcPeers`, `prunePeerLanes`.
`fan_out_per_connection` and `next_frame` take two locks one after the other and are
composed of two of these.

A frame carries one field the source does not have, `origin`: which call of
`enqueue_raw` it came from, or that it is cover. It is a history variable, read by no
function here; statements use it to tell apart frames whose bytes happen to agree.
-/

namespace Peashape

open Foundation

variable {Addr : Type*}

/-- The delivery mode of a queued frame. -/
inductive Target (Addr : Type*) where
  /-- Send to a specific peer. -/
  | unicast (peer : Addr)
  /-- Send to `fanout` peers, or to every peer's lane in `PerConnection` scope. -/
  | broadcast
  deriving DecidableEq

/-- Where a frame comes from (a history variable). -/
inductive Origin where
  /-- The call of `enqueue_raw` with this number. -/
  | enqueued (call : ℕ)
  /-- The cover generator. -/
  | cover
  deriving DecidableEq

/-- A frame with its intended delivery target. -/
structure PendingFrame (Addr : Type*) where
  /-- The frame bytes. -/
  bytes : Bytes
  /-- Where the frame should be sent. -/
  target : Target Addr
  /-- Where the frame comes from. -/
  origin : Origin
  deriving DecidableEq

/-- The errors `enqueue` and `enqueue_raw` return. -/
inductive Error where
  /-- The payload does not fit in a frame. -/
  | payloadTooLarge (size max : ℕ)
  /-- The high-priority lane is full. -/
  | laneFull
  /-- A pre-built frame does not have the expected size. -/
  | frameSizeMismatch (size expected : ℕ)
  deriving DecidableEq

/-- The pair of priority lanes of a single peer. -/
structure PeerLanes (Addr : Type*) where
  /-- The high lane, front first. -/
  high : List (PendingFrame Addr) := []
  /-- The low lane, front first. -/
  low : List (PendingFrame Addr) := []
  deriving DecidableEq

/-- The shaper's lanes and its cache of connected peers. -/
structure Shaper (Addr : Type*) where
  /-- The shared high lane (`Global` scope). -/
  highLane : List (PendingFrame Addr) := []
  /-- The shared low lane (`Global` scope). -/
  lowLane : List (PendingFrame Addr) := []
  /-- The lanes of each peer (`PerConnection` scope). -/
  peerLanes : Finmap (fun _ : Addr => PeerLanes Addr) := ∅
  /-- The most recent connected-peer set (`PerConnection` scope). -/
  pcPeers : List Addr := []

namespace Shaper

variable [DecidableEq Addr] (cfg : ShaperConfig)

/-! ### The lanes of a peer -/

/-- The lanes of a peer, empty ones if it has no entry: `map.entry(peer).or_default()`. -/
def lanesOf (s : Shaper Addr) (peer : Addr) : PeerLanes Addr := (s.peerLanes.lookup peer).getD {}

/-- The entry of `peer` is now `lanes`. -/
def setLanes (s : Shaper Addr) (peer : Addr) (lanes : PeerLanes Addr) : Shaper Addr :=
  { s with peerLanes := s.peerLanes.insert peer lanes }

@[simp] theorem lanesOf_setLanes (s : Shaper Addr) (peer : Addr) (lanes : PeerLanes Addr) :
    (s.setLanes peer lanes).lanesOf peer = lanes := by
  simp [lanesOf, setLanes]

@[simp] theorem lanesOf_setLanes_of_ne {peer q : Addr} (h : q ≠ peer) (s : Shaper Addr)
    (lanes : PeerLanes Addr) : (s.setLanes peer lanes).lanesOf q = s.lanesOf q := by
  simp [lanesOf, setLanes, Finmap.lookup_insert_of_ne _ h]

@[simp] theorem setLanes_highLane (s : Shaper Addr) (peer : Addr) (lanes : PeerLanes Addr) :
    (s.setLanes peer lanes).highLane = s.highLane := rfl

@[simp] theorem setLanes_lowLane (s : Shaper Addr) (peer : Addr) (lanes : PeerLanes Addr) :
    (s.setLanes peer lanes).lowLane = s.lowLane := rfl

@[simp] theorem setLanes_pcPeers (s : Shaper Addr) (peer : Addr) (lanes : PeerLanes Addr) :
    (s.setLanes peer lanes).pcPeers = s.pcPeers := rfl

/-- A new shaper has nothing in any lane. -/
@[simp] theorem lanesOf_new (peer : Addr) : ({} : Shaper Addr).lanesOf peer = {} := rfl

/-! ### Pushing -/

/-- `push_global`: onto the shared lanes. High is a bounded FIFO; low is a LIFO that
evicts from the back. -/
def pushGlobal (lane : Lane) (pframe : PendingFrame Addr) (s : Shaper Addr) :
    Except Error Unit × Shaper Addr :=
  match lane with
  | .high =>
    if cfg.highLaneCapacity ≤ s.highLane.length then (.error .laneFull, s)
    else (.ok (), { s with highLane := s.highLane ++ [pframe] })
  | .low => (.ok (), { s with lowLane := pframe :: Deque.evictBack cfg.lowLaneCapacity s.lowLane })

/-- The frame `push_peer` and `fan_out_per_connection` put in the lane of `peer`. -/
def peerFrame (peer : Addr) (frame : Bytes) (call : ℕ) : PendingFrame Addr :=
  ⟨frame, .unicast peer, .enqueued call⟩

/-- `push_peer`: a unicast frame onto the lane of `peer`, with the disciplines of
`push_global`. The entry of `peer` is created before the capacity is looked at. -/
def pushPeer (call : ℕ) (peer : Addr) (lane : Lane) (frame : Bytes) (s : Shaper Addr) :
    Except Error Unit × Shaper Addr :=
  let pframe := peerFrame peer frame call
  let lanes := s.lanesOf peer
  match lane with
  | .high =>
    if cfg.highLaneCapacity ≤ lanes.high.length then (.error .laneFull, s.setLanes peer lanes)
    else (.ok (), s.setLanes peer { lanes with high := lanes.high ++ [pframe] })
  | .low =>
    (.ok (), s.setLanes peer
      { lanes with low := pframe :: Deque.evictBack cfg.lowLaneCapacity lanes.low })

/-- One round of the loop of `fan_out_per_connection`: a copy into the lane of `peer`,
whose oldest frame is evicted if the lane is full. -/
def fanPush (call : ℕ) (lane : Lane) (frame : Bytes) (s : Shaper Addr) (peer : Addr) : Shaper Addr :=
  let pframe := peerFrame peer frame call
  let lanes := s.lanesOf peer
  match lane with
  | .high =>
    s.setLanes peer { lanes with high := Deque.evictFront cfg.highLaneCapacity lanes.high ++ [pframe] }
  | .low =>
    s.setLanes peer { lanes with low := pframe :: Deque.evictBack cfg.lowLaneCapacity lanes.low }

/-- The loop of `fan_out_per_connection`, over the peers it cloned from the cache. -/
def fanOutTo (call : ℕ) (peers : List Addr) (lane : Lane) (frame : Bytes) (s : Shaper Addr) :
    Shaper Addr :=
  peers.foldl (fanPush cfg call lane frame) s

/-- `fan_out_per_connection`: a copy into the lane of every cached peer. -/
def fanOutPerConnection (call : ℕ) (lane : Lane) (frame : Bytes) (s : Shaper Addr) : Shaper Addr :=
  if s.pcPeers = [] then s else fanOutTo cfg call s.pcPeers lane frame s

/-- With an empty cache there is nobody to fan out to, early return or not. -/
theorem fanOutPerConnection_eq (call : ℕ) (lane : Lane) (frame : Bytes) (s : Shaper Addr) :
    fanOutPerConnection cfg call lane frame s = fanOutTo cfg call s.pcPeers lane frame s := by
  unfold fanOutPerConnection
  split_ifs with h
  · rw [h, fanOutTo, List.foldl_nil]
  · rfl

/-- `enqueue_raw`: a pre-built frame into the named lane. The notification it ends with
is part of the concurrent system (`Peashape.Model.System`). -/
def enqueueRaw (call : ℕ) (lane : Lane) (target : Target Addr) (frame : Bytes) (s : Shaper Addr) :
    Except Error Unit × Shaper Addr :=
  if frame.length ≠ cfg.frameSize then (.error (.frameSizeMismatch frame.length cfg.frameSize), s)
  else
    match cfg.scope with
    | .global => pushGlobal cfg lane ⟨frame, target, .enqueued call⟩ s
    | .perConnection _ =>
      match target with
      | .unicast peer => pushPeer cfg call peer lane frame s
      | .broadcast => (.ok (), fanOutPerConnection cfg call lane frame s)

/-- `enqueue`: an application payload, padded to `frame_size`, into the named lane. The
identifier assigned to it is returned. -/
def enqueue (call : ℕ) (lane : Lane) (target : Target Addr) (payload : Bytes) (rng : Stream' UInt8)
    (s : Shaper Addr) : Except Error Bytes × Shaper Addr :=
  let maxPayload := cfg.frameSize - idSize
  if maxPayload < payload.length then (.error (.payloadTooLarge payload.length maxPayload), s)
  else
    let (id, msg) := (buildFrame cfg.toShapeConfig payload rng).1
    match enqueueRaw cfg call lane target msg s with
    | (.ok (), s) => (.ok id, s)
    | (.error e, s) => (.error e, s)

/-- What `enqueue` does to the shaper is nothing, or what `enqueue_raw` does with the frame. -/
theorem enqueue_snd (call : ℕ) (lane : Lane) (target : Target Addr) (payload : Bytes) (rng : Stream' UInt8)
    (s : Shaper Addr) :
    (enqueue cfg call lane target payload rng s).2 =
      if cfg.frameSize - idSize < payload.length then s
      else (enqueueRaw cfg call lane target (buildFrame cfg.toShapeConfig payload rng).1.2 s).2 := by
  unfold enqueue
  simp only
  split_ifs
  · rfl
  · split <;> simp_all

/-! ### Popping -/

/-- `self.high_lane.lock().pop_front()`. -/
def popHigh (s : Shaper Addr) : Option (PendingFrame Addr) × Shaper Addr :=
  (s.highLane.head?, { s with highLane := s.highLane.tail })

/-- `self.low_lane.lock().pop_front()`. -/
def popLow (s : Shaper Addr) : Option (PendingFrame Addr) × Shaper Addr :=
  (s.lowLane.head?, { s with lowLane := s.lowLane.tail })

/-- `next_frame`: from the high lane, or from the low lane if that is empty. -/
def nextFrame (s : Shaper Addr) : Option (PendingFrame Addr) × Shaper Addr :=
  match popHigh s with
  | (some f, s) => (some f, s)
  | (none, s) => popLow s

/-- `next_frame_for`: from the lanes of `peer`, if it has an entry. -/
def nextFrameFor (peer : Addr) (s : Shaper Addr) : Option (PendingFrame Addr) × Shaper Addr :=
  match s.peerLanes.lookup peer with
  | none => (none, s)
  | some ⟨f :: high, low⟩ => (some f, s.setLanes peer ⟨high, low⟩)
  | some ⟨[], f :: low⟩ => (some f, s.setLanes peer ⟨[], low⟩)
  | some ⟨[], []⟩ => (none, s)

/-! ### Connections -/

/-- `refresh_pc_peers`. -/
def refreshPcPeers (peers : List Addr) (s : Shaper Addr) : Shaper Addr := { s with pcPeers := peers }

/-- `pc_peers_snapshot`. -/
def pcPeersSnapshot (s : Shaper Addr) : List Addr := s.pcPeers

/-- `prune_peer_lanes`: drop the lanes of any peer not in `connected`. -/
def prunePeerLanes (connected : List Addr) (s : Shaper Addr) : Shaper Addr :=
  if s.peerLanes = ∅ then s
  else { s with peerLanes := FiniteMap.retain (fun addr => decide (addr ∈ connected)) s.peerLanes }

/-- The early return on an empty map changes nothing. -/
theorem prunePeerLanes_eq (connected : List Addr) (s : Shaper Addr) :
    s.prunePeerLanes connected =
      { s with peerLanes := FiniteMap.retain (fun addr => decide (addr ∈ connected)) s.peerLanes } := by
  unfold prunePeerLanes
  split_ifs with h
  · rw [h, FiniteMap.retain_empty, ← h]
  · rfl

/-! ### The cache of connected peers

Only `refresh_pc_peers` writes it. -/

section Cache

variable {cfg}

omit [DecidableEq Addr] in
@[simp] theorem pcPeers_pushGlobal (lane : Lane) (pframe : PendingFrame Addr) (s : Shaper Addr) :
    (pushGlobal cfg lane pframe s).2.pcPeers = s.pcPeers := by
  cases lane with
  | high => simp only [pushGlobal]; split_ifs <;> rfl
  | low => rfl

@[simp] theorem pcPeers_pushPeer (call : ℕ) (peer : Addr) (lane : Lane) (frame : Bytes) (s : Shaper Addr) :
    (pushPeer cfg call peer lane frame s).2.pcPeers = s.pcPeers := by
  cases lane with
  | high => simp only [pushPeer]; split_ifs <;> rfl
  | low => rfl

@[simp] theorem pcPeers_fanPush (call : ℕ) (lane : Lane) (frame : Bytes) (s : Shaper Addr) (peer : Addr) :
    (fanPush cfg call lane frame s peer).pcPeers = s.pcPeers := by
  cases lane <;> rfl

@[simp] theorem pcPeers_fanOutTo (call : ℕ) (lane : Lane) (frame : Bytes) : ∀ (peers : List Addr) (s : Shaper Addr),
    (fanOutTo cfg call peers lane frame s).pcPeers = s.pcPeers
  | [], _ => rfl
  | peer :: peers, s => (pcPeers_fanOutTo call lane frame peers _).trans (pcPeers_fanPush call lane frame s peer)

@[simp] theorem pcPeers_enqueueRaw (call : ℕ) (lane : Lane) (target : Target Addr) (frame : Bytes)
    (s : Shaper Addr) : (enqueueRaw cfg call lane target frame s).2.pcPeers = s.pcPeers := by
  unfold enqueueRaw
  split_ifs
  · rfl
  · split
    · exact pcPeers_pushGlobal lane _ s
    · split
      · exact pcPeers_pushPeer call _ lane frame s
      · rw [fanOutPerConnection_eq]
        exact pcPeers_fanOutTo call lane frame _ s

@[simp] theorem pcPeers_enqueue (call : ℕ) (lane : Lane) (target : Target Addr) (payload : Bytes)
    (rng : Stream' UInt8) (s : Shaper Addr) :
    (enqueue cfg call lane target payload rng s).2.pcPeers = s.pcPeers := by
  rw [enqueue_snd]
  split_ifs
  · rfl
  · exact pcPeers_enqueueRaw call lane target _ s

@[simp] theorem pcPeers_nextFrameFor (peer : Addr) (s : Shaper Addr) :
    (s.nextFrameFor peer).2.pcPeers = s.pcPeers := by
  unfold nextFrameFor
  split <;> rfl

@[simp] theorem pcPeers_prunePeerLanes (connected : List Addr) (s : Shaper Addr) :
    (s.prunePeerLanes connected).pcPeers = s.pcPeers := by
  rw [prunePeerLanes_eq]

end Cache

/-- `queued`: the number of frames in all lanes. -/
def queued (s : Shaper Addr) : ℕ :=
  s.highLane.length + s.lowLane.length +
    FiniteMap.total (fun l => l.high.length + l.low.length) s.peerLanes

/-- `handle_incoming`: what goes to the subscribers. -/
def handleIncoming (message : Bytes) : Option Bytes :=
  if message.length ≠ cfg.frameSize then none else some message

end Shaper

end Peashape

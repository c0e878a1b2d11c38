import Peashape.Model.Shaper
import Mathlib.Data.List.DropRight

/-!
# The history of a run

Statements about whole runs speak of what happened: which frames were accepted, pushed
onto which lane, popped, evicted or pruned, what the cover generator was asked and what
was handed to the writer. These are the events of this module. They are left behind by
the steps and read by no step.

The functions of `Peashape.Model.Shaper` are the code; beside each stands here what it
leaves in the history. Then, for one pair of lanes at a time, `LaneStep` says everything
an atomic step of the shaper can do to it, and each step is shown to be one of these
(`laneStep_*`). Facts about lanes are derived from `LaneStep`, not from the functions.
-/

namespace Peashape

open Foundation

/-- What a step leaves in the history. A lane is named by its owner, `none` for the
shared lanes, and its priority. -/
inductive Event (Addr : Type*) where
  /-- The push of call `call` of `enqueue_raw` succeeded. -/
  | accepted (call : ℕ) (lane : Lane) (target : Target Addr) (frame : Bytes)
  /-- Call `call` of `enqueue_raw` fails. -/
  | refused (call : ℕ) (error : Error)
  /-- A frame was put in a lane. -/
  | push (owner : Option Addr) (lane : Lane) (frame : PendingFrame Addr)
  /-- A frame was thrown away to make room. -/
  | evict (owner : Option Addr) (lane : Lane) (frame : PendingFrame Addr)
  /-- A frame was taken from the front to be sent. -/
  | pop (owner : Option Addr) (lane : Lane) (frame : PendingFrame Addr)
  /-- The entries of these peers were dropped. -/
  | prune (gone : Finset Addr)
  /-- The scheduler took this snapshot of the connected peers. -/
  | snapshot (peers : List Addr)
  /-- The cover generator's `cover` was called and gave this frame. -/
  | cover (result : PendingFrame Addr)
  /-- The cover generator's `finalize_real` was called on `frame` and gave `result`. -/
  | finalizeReal (frame result : PendingFrame Addr)
  /-- `send_one_to` was called. -/
  | send (peer : Addr) (frame : PendingFrame Addr)
  deriving DecidableEq

variable {Addr : Type*}

/-! ### Reading a history -/

section Reading

variable [DecidableEq Addr]

/-- The frames put in a lane, in order. -/
def pushes (owner : Option Addr) (lane : Lane) (tr : List (Event Addr)) : List (PendingFrame Addr) :=
  tr.filterMap fun
    | .push o l f => if o = owner ∧ l = lane then some f else none
    | _ => none

/-- The frames popped from a lane, in order. -/
def pops (owner : Option Addr) (lane : Lane) (tr : List (Event Addr)) : List (PendingFrame Addr) :=
  tr.filterMap fun
    | .pop o l f => if o = owner ∧ l = lane then some f else none
    | _ => none

/-- The frames evicted from a lane, in order. -/
def evicts (owner : Option Addr) (lane : Lane) (tr : List (Event Addr)) : List (PendingFrame Addr) :=
  tr.filterMap fun
    | .evict o l f => if o = owner ∧ l = lane then some f else none
    | _ => none

/-- The frames that left a lane, popped or evicted, in order. -/
def removed (owner : Option Addr) (lane : Lane) (tr : List (Event Addr)) : List (PendingFrame Addr) :=
  tr.filterMap fun
    | .pop o l f => if o = owner ∧ l = lane then some f else none
    | .evict o l f => if o = owner ∧ l = lane then some f else none
    | _ => none

/-- The frames of the calls of `enqueue_raw` that were accepted into `lane`, in order. -/
def accepted (lane : Lane) (tr : List (Event Addr)) : List (PendingFrame Addr) :=
  tr.filterMap fun
    | .accepted call l target frame => if l = lane then some ⟨frame, target, .enqueued call⟩ else none
    | _ => none

/-- What was handed to the writer, in order: the recipient and the frame. -/
def sends (tr : List (Event Addr)) : List (Addr × PendingFrame Addr) :=
  tr.filterMap fun
    | .send peer f => some (peer, f)
    | _ => none

/-- The results of the calls of the cover generator, in order. -/
def genResults (tr : List (Event Addr)) : List (PendingFrame Addr) :=
  tr.filterMap fun
    | .cover f => some f
    | .finalizeReal _ f => some f
    | _ => none

/-- Whether an event drops the entry of the owner. -/
def Event.prunes (owner : Option Addr) : Event Addr → Bool
  | .prune gone => owner.any fun p => decide (p ∈ gone)
  | _ => false

/-- The part of a history since the owner's entry was last pruned. -/
def sincePrune (owner : Option Addr) (tr : List (Event Addr)) : List (Event Addr) :=
  tr.rtakeWhile fun e => !e.prunes owner

/-- Whether an event is about the lanes of the owner. -/
def Event.concerns (owner : Option Addr) : Event Addr → Bool
  | .push o _ _ | .evict o _ _ | .pop o _ _ => decide (o = owner)
  | .prune gone => owner.any fun p => decide (p ∈ gone)
  | _ => false

/-- Whether an event is one the shaper's own functions leave. -/
def Event.ofShaper : Event Addr → Bool
  | .accepted .. | .refused .. | .push .. | .evict .. | .pop .. | .prune .. => true
  | _ => false

/-- Whether an event is one a submission leaves. -/
def Event.submits : Event Addr → Bool
  | .accepted .. | .refused .. | .push .. | .evict .. => true
  | _ => false

/-- Whether an event is one the scheduler leaves when it makes a frame and sends it. -/
def Event.ofDispatch : Event Addr → Bool
  | .cover .. | .finalizeReal .. | .send .. => true
  | _ => false

omit [DecidableEq Addr] in
theorem Event.ofShaper_of_submits (e : Event Addr) (h : e.submits = true) : e.ofShaper = true := by
  cases e <;> first | rfl | cases h

omit [DecidableEq Addr] in
theorem Event.not_submits_of_ofDispatch (e : Event Addr) (h : e.ofDispatch = true) : e.submits = false := by
  cases e <;> first | rfl | cases h

theorem Event.not_concerns_of_ofDispatch (e : Event Addr) (h : e.ofDispatch = true) (owner : Option Addr) :
    e.concerns owner = false := by
  cases e <;> first | rfl | cases h

omit [DecidableEq Addr] in
/-- The shaper hands nothing to the writer and does not call the generator. -/
theorem reads_of_ofShaper {es : List (Event Addr)} (h : ∀ e ∈ es, e.ofShaper = true) :
    sends es = [] ∧ genResults es = [] := by
  constructor <;>
  · apply List.filterMap_eq_nil_iff.mpr
    intro e he
    have hs := h e he
    cases e <;> first | rfl | cases hs

end Reading

/-- One of a pair of lanes. -/
def PeerLanes.lane (l : PeerLanes Addr) : Lane → List (PendingFrame Addr)
  | .high => l.high
  | .low => l.low

/-! ### What the functions of the shaper leave in the history -/

namespace Shaper

variable [DecidableEq Addr] (cfg : ShaperConfig)

/-- The lanes of an owner. -/
def lanesAt (s : Shaper Addr) : Option Addr → PeerLanes Addr
  | none => ⟨s.highLane, s.lowLane⟩
  | some p => s.lanesOf p

/-- To store what a peer's lanes are already changes none. -/
theorem lanesAt_setLanes_self (s : Shaper Addr) (peer : Addr) (owner : Option Addr) :
    (s.setLanes peer (s.lanesOf peer)).lanesAt owner = s.lanesAt owner := by
  cases owner with
  | none => rfl
  | some q =>
    by_cases hq : q = peer
    · rw [hq]
      exact lanesOf_setLanes s peer _
    · exact lanesOf_setLanes_of_ne hq s _

/-- Of `push_global`. -/
def pushGlobalEvents (lane : Lane) (pframe : PendingFrame Addr) (s : Shaper Addr) : List (Event Addr) :=
  match lane with
  | .high => if cfg.highLaneCapacity ≤ s.highLane.length then [] else [.push none .high pframe]
  | .low => (Deque.evictedBack cfg.lowLaneCapacity s.lowLane).map (.evict none .low) ++
      [.push none .low pframe]

/-- Of `push_peer`. -/
def pushPeerEvents (call : ℕ) (peer : Addr) (lane : Lane) (frame : Bytes) (s : Shaper Addr) :
    List (Event Addr) :=
  match lane with
  | .high =>
    if cfg.highLaneCapacity ≤ (s.lanesOf peer).high.length then []
    else [.push (some peer) .high (peerFrame peer frame call)]
  | .low => (Deque.evictedBack cfg.lowLaneCapacity (s.lanesOf peer).low).map (.evict (some peer) .low) ++
      [.push (some peer) .low (peerFrame peer frame call)]

/-- Of one round of the loop of `fan_out_per_connection`. -/
def fanPushEvents (call : ℕ) (lane : Lane) (frame : Bytes) (s : Shaper Addr) (peer : Addr) :
    List (Event Addr) :=
  match lane with
  | .high =>
    (Deque.evictedFront cfg.highLaneCapacity (s.lanesOf peer).high).map (.evict (some peer) .high) ++
      [.push (some peer) .high (peerFrame peer frame call)]
  | .low => (Deque.evictedBack cfg.lowLaneCapacity (s.lanesOf peer).low).map (.evict (some peer) .low) ++
      [.push (some peer) .low (peerFrame peer frame call)]

/-- Of the loop of `fan_out_per_connection`. -/
def fanOutToEvents (call : ℕ) (lane : Lane) (frame : Bytes) : List Addr → Shaper Addr → List (Event Addr)
  | [], _ => []
  | peer :: peers, s => fanPushEvents cfg call lane frame s peer ++
      fanOutToEvents call lane frame peers (fanPush cfg call lane frame s peer)

/-- Of the high pop of `next_frame`. -/
def popHighEvents (s : Shaper Addr) : List (Event Addr) := s.highLane.head?.toList.map (.pop none .high)

/-- Of the low pop of `next_frame`. -/
def popLowEvents (s : Shaper Addr) : List (Event Addr) := s.lowLane.head?.toList.map (.pop none .low)

/-- Of `next_frame`. -/
def nextFrameEvents (s : Shaper Addr) : List (Event Addr) :=
  match popHigh s with
  | (some _, _) => popHighEvents s
  | (none, s) => popLowEvents s

/-- Of `next_frame_for`. -/
def nextFrameForEvents (peer : Addr) (s : Shaper Addr) : List (Event Addr) :=
  match s.lanesOf peer with
  | ⟨f :: _, _⟩ => [.pop (some peer) .high f]
  | ⟨[], f :: _⟩ => [.pop (some peer) .low f]
  | ⟨[], []⟩ => []

/-- Of `prune_peer_lanes`. -/
def prunePeerLanesEvents (connected : List Addr) (s : Shaper Addr) : List (Event Addr) :=
  [.prune (s.peerLanes.keys.filter fun p => p ∉ connected)]

/-- Of `enqueue_raw`. -/
def enqueueRawEvents (call : ℕ) (lane : Lane) (target : Target Addr) (frame : Bytes) (s : Shaper Addr) :
    List (Event Addr) :=
  match (enqueueRaw cfg call lane target frame s).1 with
  | .error e => [.refused call e]
  | .ok () =>
    .accepted call lane target frame ::
      match cfg.scope with
      | .global => pushGlobalEvents cfg lane ⟨frame, target, .enqueued call⟩ s
      | .perConnection _ =>
        match target with
        | .unicast peer => pushPeerEvents cfg call peer lane frame s
        | .broadcast => fanOutToEvents cfg call lane frame s.pcPeers s

/-- Of `enqueue`. -/
def enqueueEvents (call : ℕ) (lane : Lane) (target : Target Addr) (payload : Bytes) (rng : Stream' UInt8)
    (s : Shaper Addr) : List (Event Addr) :=
  if cfg.frameSize - idSize < payload.length then
    [.refused call (.payloadTooLarge payload.length (cfg.frameSize - idSize))]
  else enqueueRawEvents cfg call lane target (buildFrame cfg.toShapeConfig payload rng).1.2 s

/-! ### What a call of `enqueue_raw` does -/

section Routing

variable {cfg : ShaperConfig} {call : ℕ} {lane : Lane} {target : Target Addr} {frame : Bytes} {s : Shaper Addr}

omit [DecidableEq Addr] in
/-- A push onto the shared lanes fails where a high frame finds no room, and changes nothing. -/
theorem pushGlobal_cases (cfg : ShaperConfig) (lane : Lane) (f : PendingFrame Addr) (s : Shaper Addr) :
    pushGlobal cfg lane f s = (.error .laneFull, s) ∨
      (lane = .high → s.highLane.length < cfg.highLaneCapacity) ∧
        pushGlobal cfg lane f s = (.ok (), (pushGlobal cfg lane f s).2) := by
  cases lane with
  | high =>
    by_cases hroom : cfg.highLaneCapacity ≤ s.highLane.length
    · exact .inl (if_pos hroom)
    · refine .inr ⟨fun _ => Nat.lt_of_not_le hroom, ?_⟩
      simp only [pushGlobal, if_neg hroom]
  | low => exact .inr ⟨fun h => Lane.noConfusion h, rfl⟩

/-- So does one onto the lanes of a peer, which changes no lane then. -/
theorem pushPeer_cases (cfg : ShaperConfig) (call : ℕ) (peer : Addr) (lane : Lane) (frame : Bytes) (s : Shaper Addr) :
    pushPeer cfg call peer lane frame s = (.error .laneFull, s.setLanes peer (s.lanesOf peer)) ∨
      (lane = .high → (s.lanesOf peer).high.length < cfg.highLaneCapacity) ∧
        pushPeer cfg call peer lane frame s = (.ok (), (pushPeer cfg call peer lane frame s).2) := by
  cases lane with
  | high =>
    by_cases hroom : cfg.highLaneCapacity ≤ (s.lanesOf peer).high.length
    · exact .inl (if_pos hroom)
    · refine .inr ⟨fun _ => Nat.lt_of_not_le hroom, ?_⟩
      simp only [pushPeer, if_neg hroom]
  | low => exact .inr ⟨fun h => Lane.noConfusion h, rfl⟩

/-- A frame of the wrong size is refused. -/
theorem enqueueRaw_of_size_ne (hsize : frame.length ≠ cfg.frameSize) :
    enqueueRaw cfg call lane target frame s = (.error (.frameSizeMismatch frame.length cfg.frameSize), s) :=
  if_pos hsize

/-- In `Global` scope a frame goes onto the shared lanes. -/
theorem enqueueRaw_global (hsize : frame.length = cfg.frameSize) (hscope : cfg.scope = .global) :
    enqueueRaw cfg call lane target frame s = pushGlobal cfg lane ⟨frame, target, .enqueued call⟩ s := by
  simp only [enqueueRaw, hsize, hscope, ne_eq, not_true_eq_false, if_false]

/-- In `PerConnection` scope a unicast frame goes onto the lanes of its peer. -/
theorem enqueueRaw_unicast (hsize : frame.length = cfg.frameSize) (hscope : cfg.scope ≠ .global) (peer : Addr) :
    enqueueRaw cfg call lane (.unicast peer) frame s = pushPeer cfg call peer lane frame s := by
  unfold enqueueRaw
  rw [if_neg (not_not.mpr hsize)]
  split
  · contradiction
  · rfl

/-- And a broadcast frame onto those of every cached peer. -/
theorem enqueueRaw_broadcast (hsize : frame.length = cfg.frameSize) (hscope : cfg.scope ≠ .global) :
    enqueueRaw cfg call lane .broadcast frame s = (.ok (), fanOutTo cfg call s.pcPeers lane frame s) := by
  unfold enqueueRaw
  rw [if_neg (not_not.mpr hsize), fanOutPerConnection_eq]
  split
  · contradiction
  · rfl

theorem enqueueRawEvents_of_error {e : Error} {s' : Shaper Addr}
    (h : enqueueRaw cfg call lane target frame s = (.error e, s')) :
    enqueueRawEvents cfg call lane target frame s = [.refused call e] := by
  simp only [enqueueRawEvents, h]

theorem enqueueRawEvents_global {s' : Shaper Addr} (hscope : cfg.scope = .global)
    (h : enqueueRaw cfg call lane target frame s = (.ok (), s')) :
    enqueueRawEvents cfg call lane target frame s =
      .accepted call lane target frame :: pushGlobalEvents cfg lane ⟨frame, target, .enqueued call⟩ s := by
  simp only [enqueueRawEvents, h, hscope]

theorem enqueueRawEvents_unicast {s' : Shaper Addr} {peer : Addr} (hscope : cfg.scope ≠ .global)
    (h : enqueueRaw cfg call lane (.unicast peer) frame s = (.ok (), s')) :
    enqueueRawEvents cfg call lane (.unicast peer) frame s =
      .accepted call lane (.unicast peer) frame :: pushPeerEvents cfg call peer lane frame s := by
  simp only [enqueueRawEvents, h]
  split
  · contradiction
  · rfl

theorem enqueueRawEvents_broadcast {s' : Shaper Addr} (hscope : cfg.scope ≠ .global)
    (h : enqueueRaw cfg call lane .broadcast frame s = (.ok (), s')) :
    enqueueRawEvents cfg call lane .broadcast frame s =
      .accepted call lane .broadcast frame :: fanOutToEvents cfg call lane frame s.pcPeers s := by
  simp only [enqueueRawEvents, h]
  split
  · contradiction
  · rfl

end Routing

/-- **Everything a call of `enqueue_raw` can do**: it fails, and no lane changes; or it
pushes onto the shared lanes, onto the lanes of one peer, or onto those of every cached
peer. -/
theorem enqueueRaw_cases (call : ℕ) (lane : Lane) (target : Target Addr) (frame : Bytes) (s : Shaper Addr) :
    (∃ e s', enqueueRaw cfg call lane target frame s = (.error e, s') ∧
      enqueueRawEvents cfg call lane target frame s = [.refused call e] ∧
      (∀ owner, s'.lanesAt owner = s.lanesAt owner) ∧ s'.pcPeers = s.pcPeers) ∨
    (frame.length = cfg.frameSize ∧ cfg.scope = .global ∧
      (lane = .high → s.highLane.length < cfg.highLaneCapacity) ∧
      enqueueRaw cfg call lane target frame s =
        (.ok (), (pushGlobal cfg lane ⟨frame, target, .enqueued call⟩ s).2) ∧
      enqueueRawEvents cfg call lane target frame s =
        .accepted call lane target frame :: pushGlobalEvents cfg lane ⟨frame, target, .enqueued call⟩ s) ∨
    (frame.length = cfg.frameSize ∧ cfg.scope ≠ .global ∧ ∃ peer, target = .unicast peer ∧
      (lane = .high → (s.lanesOf peer).high.length < cfg.highLaneCapacity) ∧
      enqueueRaw cfg call lane target frame s = (.ok (), (pushPeer cfg call peer lane frame s).2) ∧
      enqueueRawEvents cfg call lane target frame s =
        .accepted call lane target frame :: pushPeerEvents cfg call peer lane frame s) ∨
    (frame.length = cfg.frameSize ∧ cfg.scope ≠ .global ∧ target = .broadcast ∧
      enqueueRaw cfg call lane target frame s = (.ok (), fanOutTo cfg call s.pcPeers lane frame s) ∧
      enqueueRawEvents cfg call lane target frame s =
        .accepted call lane target frame :: fanOutToEvents cfg call lane frame s.pcPeers s) := by
  by_cases hsize : frame.length = cfg.frameSize
  · by_cases hscope : cfg.scope = .global
    · rcases pushGlobal_cases cfg lane ⟨frame, target, .enqueued call⟩ s with hfull | ⟨hroom, hok⟩
      · have hr := (enqueueRaw_global hsize hscope).trans hfull
        exact .inl ⟨.laneFull, s, hr, enqueueRawEvents_of_error hr, fun _ => rfl, rfl⟩
      · have hr := (enqueueRaw_global hsize hscope).trans hok
        exact .inr (.inl ⟨hsize, hscope, hroom, hr, enqueueRawEvents_global hscope hr⟩)
    · cases target with
      | unicast peer =>
        rcases pushPeer_cases cfg call peer lane frame s with hfull | ⟨hroom, hok⟩
        · have hr := (enqueueRaw_unicast hsize hscope peer).trans hfull
          exact .inl ⟨.laneFull, _, hr, enqueueRawEvents_of_error hr, lanesAt_setLanes_self s peer, rfl⟩
        · have hr := (enqueueRaw_unicast hsize hscope peer).trans hok
          exact .inr (.inr (.inl ⟨hsize, hscope, peer, rfl, hroom, hr, enqueueRawEvents_unicast hscope hr⟩))
      | broadcast =>
        have hr : enqueueRaw cfg call lane .broadcast frame s = (.ok (), fanOutTo cfg call s.pcPeers lane frame s) :=
          enqueueRaw_broadcast hsize hscope
        exact .inr (.inr (.inr ⟨hsize, hscope, rfl, hr, enqueueRawEvents_broadcast hscope hr⟩))
  · have hr : enqueueRaw cfg call lane target frame s = (_, s) := enqueueRaw_of_size_ne hsize
    exact .inl ⟨_, s, hr, enqueueRawEvents_of_error hr, fun _ => rfl, rfl⟩

/-! ### What the shaper leaves is about the lanes only -/

section OfShaper

variable {cfg}

omit [DecidableEq Addr] in
theorem submits_evict_push {owner : Option Addr} {lane lane' : Lane} {f : PendingFrame Addr}
    {gone : List (PendingFrame Addr)} :
    ∀ e ∈ gone.map (Event.evict owner lane) ++ [.push owner lane' f], e.submits = true := by
  intro e he
  simp only [List.mem_append, List.mem_map, List.mem_singleton] at he
  rcases he with ⟨g, -, rfl⟩ | rfl <;> rfl

omit [DecidableEq Addr] in
theorem submits_pushGlobalEvents {lane : Lane} {pframe : PendingFrame Addr} {s : Shaper Addr} :
    ∀ e ∈ pushGlobalEvents cfg lane pframe s, e.submits = true := by
  cases lane with
  | high =>
    simp only [pushGlobalEvents]
    split_ifs <;> simp [Event.submits]
  | low => exact submits_evict_push

theorem submits_pushPeerEvents {call : ℕ} {peer : Addr} {lane : Lane} {frame : Bytes} {s : Shaper Addr} :
    ∀ e ∈ pushPeerEvents cfg call peer lane frame s, e.submits = true := by
  cases lane with
  | high =>
    simp only [pushPeerEvents]
    split_ifs <;> simp [Event.submits]
  | low => exact submits_evict_push

theorem submits_fanPushEvents {call : ℕ} {peer : Addr} {lane : Lane} {frame : Bytes} {s : Shaper Addr} :
    ∀ e ∈ fanPushEvents cfg call lane frame s peer, e.submits = true := by
  cases lane <;> exact submits_evict_push

theorem submits_fanOutToEvents {call : ℕ} {lane : Lane} {frame : Bytes} :
    ∀ (peers : List Addr) (s : Shaper Addr), ∀ e ∈ fanOutToEvents cfg call lane frame peers s, e.submits = true
  | [], _ => by simp [fanOutToEvents]
  | peer :: peers, s => by
    intro e he
    rcases List.mem_append.mp he with he | he
    · exact submits_fanPushEvents e he
    · exact submits_fanOutToEvents peers _ e he

theorem submits_enqueueRawEvents {call : ℕ} {lane : Lane} {target : Target Addr} {frame : Bytes}
    {s : Shaper Addr} : ∀ e ∈ enqueueRawEvents cfg call lane target frame s, e.submits = true := by
  intro e he
  unfold enqueueRawEvents at he
  split at he
  · rw [List.mem_singleton.mp he]
    rfl
  · rcases List.mem_cons.mp he with rfl | he
    · rfl
    · split at he
      · exact submits_pushGlobalEvents e he
      · split at he
        · exact submits_pushPeerEvents e he
        · exact submits_fanOutToEvents _ _ e he

theorem submits_enqueueEvents {call : ℕ} {lane : Lane} {target : Target Addr} {payload : Bytes}
    {rng : Stream' UInt8} {s : Shaper Addr} :
    ∀ e ∈ enqueueEvents cfg call lane target payload rng s, e.submits = true := by
  intro e he
  unfold enqueueEvents at he
  split_ifs at he
  · rw [List.mem_singleton.mp he]
    rfl
  · exact submits_enqueueRawEvents e he

theorem ofShaper_fanOutToEvents {call : ℕ} {lane : Lane} {frame : Bytes} (peers : List Addr) (s : Shaper Addr) :
    ∀ e ∈ fanOutToEvents cfg call lane frame peers s, e.ofShaper = true :=
  fun e he => e.ofShaper_of_submits (submits_fanOutToEvents peers s e he)

theorem ofShaper_enqueueRawEvents {call : ℕ} {lane : Lane} {target : Target Addr} {frame : Bytes}
    {s : Shaper Addr} : ∀ e ∈ enqueueRawEvents cfg call lane target frame s, e.ofShaper = true :=
  fun e he => e.ofShaper_of_submits (submits_enqueueRawEvents e he)

theorem ofShaper_enqueueEvents {call : ℕ} {lane : Lane} {target : Target Addr} {payload : Bytes}
    {rng : Stream' UInt8} {s : Shaper Addr} :
    ∀ e ∈ enqueueEvents cfg call lane target payload rng s, e.ofShaper = true :=
  fun e he => e.ofShaper_of_submits (submits_enqueueEvents e he)

omit [DecidableEq Addr] in
theorem ofShaper_popHighEvents {s : Shaper Addr} : ∀ e ∈ popHighEvents s, e.ofShaper = true := by
  simp [popHighEvents, Event.ofShaper]

omit [DecidableEq Addr] in
theorem ofShaper_popLowEvents {s : Shaper Addr} : ∀ e ∈ popLowEvents s, e.ofShaper = true := by
  simp [popLowEvents, Event.ofShaper]

omit [DecidableEq Addr] in
theorem ofShaper_nextFrameEvents {s : Shaper Addr} : ∀ e ∈ nextFrameEvents s, e.ofShaper = true := by
  unfold nextFrameEvents
  split
  · exact ofShaper_popHighEvents
  · exact ofShaper_popLowEvents

theorem ofShaper_nextFrameForEvents {peer : Addr} {s : Shaper Addr} :
    ∀ e ∈ nextFrameForEvents peer s, e.ofShaper = true := by
  unfold nextFrameForEvents
  split <;> simp [Event.ofShaper]

theorem ofShaper_prunePeerLanesEvents (connected : List Addr) (s : Shaper Addr) :
    ∀ e ∈ prunePeerLanesEvents connected s, e.ofShaper = true := by
  simp [prunePeerLanesEvents, Event.ofShaper]

end OfShaper

/-! ### What a step can do to one pair of lanes -/

/-- **Everything an atomic step of the shaper can do to the lanes of one owner**, with
what it leaves in the history. -/
inductive LaneStep (owner : Option Addr) : PeerLanes Addr → List (Event Addr) → PeerLanes Addr → Prop
  /-- A step that is not about these lanes. -/
  | keep {l : PeerLanes Addr} {es : List (Event Addr)} (h : ∀ e ∈ es, e.concerns owner = false) :
      LaneStep owner l es l
  /-- A push onto a high lane with room. -/
  | pushHigh {l : PeerLanes Addr} {f : PendingFrame Addr} (room : l.high.length < cfg.highLaneCapacity) :
      LaneStep owner l [.push owner .high f] { l with high := l.high ++ [f] }
  /-- A push onto a low lane, which makes room at the back. -/
  | pushLow {l : PeerLanes Addr} {f : PendingFrame Addr} :
      LaneStep owner l
        ((Deque.evictedBack cfg.lowLaneCapacity l.low).map (.evict owner .low) ++ [.push owner .low f])
        { l with low := f :: Deque.evictBack cfg.lowLaneCapacity l.low }
  /-- A broadcast copy put in a high lane, which makes room at the front. -/
  | fanHigh {l : PeerLanes Addr} {f : PendingFrame Addr} :
      LaneStep owner l
        ((Deque.evictedFront cfg.highLaneCapacity l.high).map (.evict owner .high) ++ [.push owner .high f])
        { l with high := Deque.evictFront cfg.highLaneCapacity l.high ++ [f] }
  /-- A pop from a high lane. -/
  | popHigh {high low : List (PendingFrame Addr)} {f : PendingFrame Addr} :
      LaneStep owner ⟨f :: high, low⟩ [.pop owner .high f] ⟨high, low⟩
  /-- A pop from a low lane. -/
  | popLow {high low : List (PendingFrame Addr)} {f : PendingFrame Addr} :
      LaneStep owner ⟨high, f :: low⟩ [.pop owner .low f] ⟨high, low⟩
  /-- The entry of the owner is dropped. -/
  | prune {l : PeerLanes Addr} {gone : Finset Addr} (h : (Event.prune gone).prunes owner = true) :
      LaneStep owner l [.prune gone] {}

/-- An event about the lanes of `owner`, pushed, evicted or popped. -/
def IsAbout (owner : Option Addr) (e : Event Addr) : Prop :=
  ∃ lane f, e = .push owner lane f ∨ e = .evict owner lane f ∨ e = .pop owner lane f

omit [DecidableEq Addr] in
theorem isAbout_evict_push {owner : Option Addr} {lane : Lane} {f : PendingFrame Addr}
    {gone : List (PendingFrame Addr)} :
    ∀ e ∈ gone.map (Event.evict owner lane) ++ [.push owner lane f], IsAbout owner e := by
  intro e he
  simp only [List.mem_append, List.mem_map, List.mem_singleton] at he
  rcases he with ⟨g, -, rfl⟩ | rfl
  · exact ⟨lane, g, .inr (.inl rfl)⟩
  · exact ⟨lane, f, .inl rfl⟩

omit [DecidableEq Addr] in
theorem isAbout_push {owner : Option Addr} {lane : Lane} {f : PendingFrame Addr} :
    ∀ e ∈ [Event.push owner lane f], IsAbout owner e := by
  intro e he
  exact ⟨lane, f, .inl (List.mem_singleton.mp he)⟩

omit [DecidableEq Addr] in
theorem isAbout_pushGlobalEvents (lane : Lane) (pframe : PendingFrame Addr) (s : Shaper Addr) :
    ∀ e ∈ pushGlobalEvents cfg lane pframe s, IsAbout none e := by
  cases lane with
  | high =>
    simp only [pushGlobalEvents]
    split_ifs
    · simp
    · exact isAbout_push
  | low => exact isAbout_evict_push

theorem isAbout_pushPeerEvents (call : ℕ) (peer : Addr) (lane : Lane) (frame : Bytes) (s : Shaper Addr) :
    ∀ e ∈ pushPeerEvents cfg call peer lane frame s, IsAbout (some peer) e := by
  cases lane with
  | high =>
    simp only [pushPeerEvents]
    split_ifs
    · simp
    · exact isAbout_push
  | low => exact isAbout_evict_push

theorem isAbout_fanPushEvents (call : ℕ) (lane : Lane) (frame : Bytes) (s : Shaper Addr) (peer : Addr) :
    ∀ e ∈ fanPushEvents cfg call lane frame s peer, IsAbout (some peer) e := by
  cases lane <;> exact isAbout_evict_push

theorem isAbout_nextFrameForEvents (peer : Addr) (s : Shaper Addr) :
    ∀ e ∈ nextFrameForEvents peer s, IsAbout (some peer) e := by
  unfold nextFrameForEvents
  split <;> simp [IsAbout]

omit [DecidableEq Addr] in
theorem owner_of_isAbout_push {k owner : Option Addr} {lane : Lane} {f : PendingFrame Addr}
    (h : IsAbout k (.push owner lane f)) : owner = k := by
  obtain ⟨_, _, h | h | h⟩ := h <;> cases h
  rfl

omit [DecidableEq Addr] in
theorem not_isAbout_accepted {k : Option Addr} {call : ℕ} {lane : Lane} {target : Target Addr}
    {frame : Bytes} : ¬ IsAbout k (.accepted call lane target frame) := by
  rintro ⟨_, _, h | h | h⟩ <;> cases h

/-- Events about one owner leave the lanes of every other owner alone. -/
theorem LaneStep.of_ne {k owner : Option Addr} {l : PeerLanes Addr} {es : List (Event Addr)}
    (hk : k ≠ owner) (hes : ∀ e ∈ es, IsAbout k e) : LaneStep cfg owner l es l :=
  .keep fun e he => by
    obtain ⟨lane, f, rfl | rfl | rfl⟩ := hes e he <;> simp [Event.concerns, hk]

/-- A step that rewrites the entry of one peer is a step of its lanes alone. -/
theorem laneStep_setLanes {s : Shaper Addr} {peer : Addr} {l : PeerLanes Addr} {es : List (Event Addr)}
    (hes : ∀ e ∈ es, IsAbout (some peer) e) (h : LaneStep cfg (some peer) (s.lanesOf peer) es l)
    (owner : Option Addr) :
    LaneStep cfg owner (s.lanesAt owner) es ((s.setLanes peer l).lanesAt owner) := by
  cases owner with
  | none => exact .of_ne cfg (by simp) hes
  | some q =>
    by_cases hq : q = peer
    · subst hq
      simpa only [lanesAt, lanesOf_setLanes] using h
    · simp only [lanesAt, lanesOf_setLanes_of_ne hq]
      exact .of_ne cfg (by simpa using Ne.symm hq) hes

theorem laneStep_pushGlobal (lane : Lane) (pframe : PendingFrame Addr) (s : Shaper Addr)
    (owner : Option Addr) :
    LaneStep cfg owner (s.lanesAt owner) (pushGlobalEvents cfg lane pframe s)
      ((pushGlobal cfg lane pframe s).2.lanesAt owner) := by
  cases owner with
  | none =>
    cases lane with
    | high =>
      simp only [pushGlobalEvents, pushGlobal]
      split_ifs with h
      · exact .keep (by simp)
      · exact .pushHigh (l := s.lanesAt none) (Nat.lt_of_not_le h)
    | low => exact .pushLow
  | some p =>
    cases lane with
    | high =>
      simp only [pushGlobalEvents, pushGlobal]
      split_ifs with h
      · exact .keep (by simp)
      · exact .of_ne cfg (k := none) (by simp) isAbout_push
    | low => exact .of_ne cfg (k := none) (by simp) isAbout_evict_push

theorem laneStep_pushPeer (call : ℕ) (peer : Addr) (lane : Lane) (frame : Bytes) (s : Shaper Addr)
    (owner : Option Addr) :
    LaneStep cfg owner (s.lanesAt owner) (pushPeerEvents cfg call peer lane frame s)
      ((pushPeer cfg call peer lane frame s).2.lanesAt owner) := by
  cases lane with
  | high =>
    simp only [pushPeerEvents, pushPeer]
    split_ifs with h
    · exact laneStep_setLanes cfg (by simp) (.keep (by simp)) owner
    · exact laneStep_setLanes cfg isAbout_push (.pushHigh (Nat.lt_of_not_le h)) owner
  | low => exact laneStep_setLanes cfg isAbout_evict_push .pushLow owner

theorem laneStep_fanPush (call : ℕ) (lane : Lane) (frame : Bytes) (s : Shaper Addr) (peer : Addr)
    (owner : Option Addr) :
    LaneStep cfg owner (s.lanesAt owner) (fanPushEvents cfg call lane frame s peer)
      ((fanPush cfg call lane frame s peer).lanesAt owner) := by
  cases lane with
  | high => exact laneStep_setLanes cfg isAbout_evict_push .fanHigh owner
  | low => exact laneStep_setLanes cfg isAbout_evict_push .pushLow owner

theorem laneStep_popHigh (s : Shaper Addr) (owner : Option Addr) :
    LaneStep cfg owner (s.lanesAt owner) (popHighEvents s) ((popHigh s).2.lanesAt owner) := by
  obtain ⟨high, low, lanes, peers⟩ := s
  cases high with
  | nil => exact .keep (by simp [popHighEvents])
  | cons f high =>
    cases owner with
    | none => exact .popHigh
    | some p => exact .of_ne cfg (k := none) (by simp) (by simp [popHighEvents, IsAbout])

theorem laneStep_popLow (s : Shaper Addr) (owner : Option Addr) :
    LaneStep cfg owner (s.lanesAt owner) (popLowEvents s) ((popLow s).2.lanesAt owner) := by
  obtain ⟨high, low, lanes, peers⟩ := s
  cases low with
  | nil => exact .keep (by simp [popLowEvents])
  | cons f low =>
    cases owner with
    | none => exact .popLow
    | some p => exact .of_ne cfg (k := none) (by simp) (by simp [popLowEvents, IsAbout])

omit [DecidableEq Addr] in
/-- From an empty lane nothing is popped. -/
theorem popHigh_of_nil {s : Shaper Addr} (h : s.highLane = []) : popHigh s = (none, s) := by
  rw [popHigh, h, List.head?_nil, List.tail_nil, ← h]

omit [DecidableEq Addr] in
theorem popLow_of_nil {s : Shaper Addr} (h : s.lowLane = []) : popLow s = (none, s) := by
  rw [popLow, h, List.head?_nil, List.tail_nil, ← h]

omit [DecidableEq Addr] in
/-- What `next_frame` gives and leaves, read off the shared lanes. -/
theorem nextFrame_cases (s : Shaper Addr) :
    (∃ f high, s.highLane = f :: high ∧ nextFrame s = (some f, { s with highLane := high }) ∧
      nextFrameEvents s = [.pop none .high f]) ∨
    (∃ f low, s.highLane = [] ∧ s.lowLane = f :: low ∧ nextFrame s = (some f, { s with lowLane := low }) ∧
      nextFrameEvents s = [.pop none .low f]) ∨
    (s.highLane = [] ∧ s.lowLane = [] ∧ nextFrame s = (none, s) ∧ nextFrameEvents s = []) := by
  obtain ⟨_ | ⟨f, high⟩, _ | ⟨g, low⟩, lanes, peers⟩ := s
  · exact .inr (.inr ⟨rfl, rfl, rfl, rfl⟩)
  · exact .inr (.inl ⟨g, low, rfl, rfl, rfl, rfl⟩)
  · exact .inl ⟨f, high, rfl, rfl, rfl⟩
  · exact .inl ⟨f, high, rfl, rfl, rfl⟩

/-- What `next_frame_for` gives and leaves, read off the lanes of the peer. -/
theorem nextFrameFor_cases (peer : Addr) (s : Shaper Addr) :
    (∃ f high low, s.lanesOf peer = ⟨f :: high, low⟩ ∧
      nextFrameFor peer s = (some f, s.setLanes peer ⟨high, low⟩)) ∨
    (∃ f low, s.lanesOf peer = ⟨[], f :: low⟩ ∧ nextFrameFor peer s = (some f, s.setLanes peer ⟨[], low⟩)) ∨
    (s.lanesOf peer = ⟨[], []⟩ ∧ nextFrameFor peer s = (none, s)) := by
  unfold nextFrameFor lanesOf
  rcases s.peerLanes.lookup peer with _ | ⟨_ | ⟨f, high⟩, _ | ⟨g, low⟩⟩
  · exact .inr (.inr ⟨rfl, rfl⟩)
  · exact .inr (.inr ⟨rfl, rfl⟩)
  · exact .inr (.inl ⟨g, low, rfl, rfl⟩)
  · exact .inl ⟨f, high, [], rfl, rfl⟩
  · exact .inl ⟨f, high, g :: low, rfl, rfl⟩

theorem laneStep_nextFrameFor (peer : Addr) (s : Shaper Addr) (owner : Option Addr) :
    LaneStep cfg owner (s.lanesAt owner) (nextFrameForEvents peer s)
      ((nextFrameFor peer s).2.lanesAt owner) := by
  unfold nextFrameForEvents
  rcases nextFrameFor_cases peer s with ⟨f, high, low, hl, hn⟩ | ⟨f, low, hl, hn⟩ | ⟨hl, hn⟩ <;>
    rw [hl, hn]
  · exact laneStep_setLanes cfg (by simp [IsAbout]) (by rw [hl]; exact .popHigh) owner
  · exact laneStep_setLanes cfg (by simp [IsAbout]) (by rw [hl]; exact .popLow) owner
  · exact .keep (by simp)

/-! ### Functions about one peer leave the lanes of the others alone -/

theorem lanesOf_fanPush_of_ne {cfg : ShaperConfig} {call : ℕ} {lane : Lane} {frame : Bytes}
    {s : Shaper Addr} {peer p : Addr} (h : p ≠ peer) :
    (fanPush cfg call lane frame s peer).lanesOf p = s.lanesOf p := by
  cases lane <;> exact lanesOf_setLanes_of_ne h s _

theorem lanesOf_pushPeer_of_ne {cfg : ShaperConfig} {call : ℕ} {lane : Lane} {frame : Bytes}
    {s : Shaper Addr} {peer p : Addr} (h : p ≠ peer) :
    (pushPeer cfg call peer lane frame s).2.lanesOf p = s.lanesOf p := by
  cases lane with
  | high =>
    simp only [pushPeer]
    split_ifs <;> exact lanesOf_setLanes_of_ne h s _
  | low => exact lanesOf_setLanes_of_ne h s _

theorem lanesOf_nextFrameFor_of_ne {peer p : Addr} (h : p ≠ peer) (s : Shaper Addr) :
    (s.nextFrameFor peer).2.lanesOf p = s.lanesOf p := by
  rcases nextFrameFor_cases peer s with ⟨_, _, _, -, hn⟩ | ⟨_, _, -, hn⟩ | ⟨-, hn⟩ <;> rw [hn]
  · exact lanesOf_setLanes_of_ne h s _
  · exact lanesOf_setLanes_of_ne h s _

/-- Pruning leaves the lanes of a listed peer alone and empties those of the others. -/
theorem lanesOf_prunePeerLanes (connected : List Addr) (s : Shaper Addr) (p : Addr) :
    (s.prunePeerLanes connected).lanesOf p = if p ∈ connected then s.lanesOf p else {} := by
  rw [prunePeerLanes_eq]
  unfold lanesOf
  rw [FiniteMap.lookup_retain]
  by_cases hp : p ∈ connected <;> simp [hp]

theorem laneStep_prunePeerLanes (connected : List Addr) (s : Shaper Addr) (owner : Option Addr) :
    LaneStep cfg owner (s.lanesAt owner) (prunePeerLanesEvents connected s)
      ((s.prunePeerLanes connected).lanesAt owner) := by
  cases owner with
  | none =>
    have h : (s.prunePeerLanes connected).lanesAt none = s.lanesAt none := by
      rw [prunePeerLanes_eq]; rfl
    rw [h]
    exact .keep (by simp [prunePeerLanesEvents, Event.concerns])
  | some p =>
    simp only [lanesAt, lanesOf_prunePeerLanes]
    by_cases hc : p ∈ connected
    · rw [if_pos hc]
      exact .keep (by simp [prunePeerLanesEvents, Event.concerns, hc])
    · rw [if_neg hc]
      by_cases hk : p ∈ s.peerLanes
      · exact .prune (by simpa [Event.prunes, hc] using Finmap.mem_keys.mpr hk)
      · -- a peer without an entry has no lanes to lose
        rw [lanesOf, Finmap.lookup_eq_none.mpr hk]
        exact .keep (by simp [prunePeerLanesEvents, Event.concerns, Finmap.mem_keys, hk])

end Shaper

end Peashape

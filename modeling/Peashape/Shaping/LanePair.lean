import Peashape.Model.History

/-!
# A pair of lanes

The shared lanes and those of each peer are pairs of lanes of one kind. This module has the
three things the shaper does to a pair — add a frame (`PeerLanes.withFrame`), offer one, which
may be refused (`PeerLanes.offer`), and take one (`PeerLanes.take`) — and says of each function
of the shaper, which of them it does to which pair: `pushGlobal_eq`, `pushPeer_eq` and
`fanPush_eq`, `lanesAt_nextFrame` and `lanesAt_nextFrameFor`, `lanesAt_prunePeerLanes`.
-/

namespace Peashape

open Foundation

variable {Addr : Type*}

namespace PeerLanes

/-- A pair of lanes with one more frame in one of them: at the back of the high lane, whose
oldest frame makes room, or at the front of the low one, whose last frame does. -/
def withFrame (cfg : ShaperConfig) (lane : Lane) (f : PendingFrame Addr) (l : PeerLanes Addr) :
    PeerLanes Addr :=
  match lane with
  | .high => { l with high := Deque.evictFront cfg.highLaneCapacity l.high ++ [f] }
  | .low => { l with low := f :: Deque.evictBack cfg.lowLaneCapacity l.low }

/-- Offer a frame: refused where a high frame finds the lane at capacity. -/
def offer (cfg : ShaperConfig) (lane : Lane) (f : PendingFrame Addr) (l : PeerLanes Addr) :
    Except Error Unit × PeerLanes Addr :=
  if lane = .high ∧ cfg.highLaneCapacity ≤ l.high.length then (.error .laneFull, l)
  else (.ok (), l.withFrame cfg lane f)

/-- Take a frame: the first high one, or the first low one if there is no high one. -/
def take : PeerLanes Addr → Option (PendingFrame Addr) × PeerLanes Addr
  | ⟨f :: high, low⟩ => (some f, ⟨high, low⟩)
  | ⟨[], f :: low⟩ => (some f, ⟨[], low⟩)
  | ⟨[], []⟩ => (none, ⟨[], []⟩)

variable {cfg : ShaperConfig} {lane : Lane} {f : PendingFrame Addr} {l : PeerLanes Addr}

@[simp] theorem low_withFrame_high : (l.withFrame cfg .high f).low = l.low := rfl

@[simp] theorem high_withFrame_low : (l.withFrame cfg .low f).high = l.high := rfl

theorem take_of_high_nil (h : l.high = []) : l.take = (l.low.head?, ⟨[], l.low.tail⟩) := by
  obtain ⟨high, low⟩ := l
  cases h
  cases low <;> rfl

theorem take_of_high_ne (h : l.high ≠ []) : l.take = (l.high.head?, ⟨l.high.tail, l.low⟩) := by
  obtain ⟨_ | ⟨f, high⟩, low⟩ := l
  · exact absurd rfl h
  · rfl

end PeerLanes

namespace Shaper

variable [DecidableEq Addr] {cfg : ShaperConfig} {call : ℕ} {lane : Lane} {target : Target Addr}
  {frame : Bytes} {s : Shaper Addr}

/-! ### Pushes as one operation on a pair of lanes -/

/-- A round of the fan-out adds the frame to its peer's lanes. -/
theorem fanPush_eq (cfg : ShaperConfig) (call : ℕ) (lane : Lane) (frame : Bytes) (s : Shaper Addr)
    (peer : Addr) :
    fanPush cfg call lane frame s peer =
      s.setLanes peer ((s.lanesOf peer).withFrame cfg lane (peerFrame peer frame call)) := by
  cases lane <;> rfl

/-- So does a unicast push that finds room. -/
theorem pushPeer_eq {peer : Addr} (hroom : lane = .high → (s.lanesOf peer).high.length < cfg.highLaneCapacity) :
    pushPeer cfg call peer lane frame s =
      (.ok (), s.setLanes peer ((s.lanesOf peer).withFrame cfg lane (peerFrame peer frame call))) := by
  cases lane with
  | high =>
    have hlt := hroom rfl
    simp only [pushPeer, if_neg (Nat.not_le.mpr hlt), PeerLanes.withFrame, Deque.evictFront_of_lt hlt]
  | low => rfl

omit [DecidableEq Addr] in
/-- And a push onto the shared lanes. -/
theorem pushGlobal_eq {f : PendingFrame Addr}
    (hroom : lane = .high → s.highLane.length < cfg.highLaneCapacity) :
    pushGlobal cfg lane f s =
      (.ok (), { s with
        highLane := (PeerLanes.withFrame cfg lane f ⟨s.highLane, s.lowLane⟩).high
        lowLane := (PeerLanes.withFrame cfg lane f ⟨s.highLane, s.lowLane⟩).low }) := by
  cases lane with
  | high =>
    have hlt := hroom rfl
    simp only [pushGlobal, if_neg (Nat.not_le.mpr hlt), PeerLanes.withFrame, Deque.evictFront_of_lt hlt]
  | low => rfl

theorem lanesAt_setLanes (peer : Addr) (l : PeerLanes Addr) (owner : Option Addr) :
    (s.setLanes peer l).lanesAt owner = if owner = some peer then l else s.lanesAt owner := by
  cases owner with
  | none => rfl
  | some q =>
    by_cases hq : q = peer
    · simp [lanesAt, hq]
    · simp [lanesAt, hq, lanesOf_setLanes_of_ne hq]

/-! ### Pops and prunes -/

omit [DecidableEq Addr] in
/-- `next_frame` takes from the shared lanes. -/
theorem lanesAt_nextFrame [DecidableEq Addr] (s : Shaper Addr) (owner : Option Addr) :
    s.nextFrame.1 = (s.lanesAt none).take.1 ∧
      s.nextFrame.2.lanesAt owner = if owner = none then (s.lanesAt none).take.2 else s.lanesAt owner := by
  obtain ⟨_ | ⟨f, high⟩, _ | ⟨g, low⟩, lanes, peers⟩ := s <;> cases owner <;> exact ⟨rfl, rfl⟩

omit [DecidableEq Addr] in
@[simp] theorem pcPeers_nextFrame (s : Shaper Addr) : s.nextFrame.2.pcPeers = s.pcPeers := by
  obtain ⟨_ | ⟨f, high⟩, low, lanes, peers⟩ := s <;> rfl

/-- `next_frame_for` takes from those of its peer. -/
theorem lanesAt_nextFrameFor (s : Shaper Addr) (peer : Addr) (owner : Option Addr) :
    (s.nextFrameFor peer).1 = (s.lanesOf peer).take.1 ∧
      (s.nextFrameFor peer).2.lanesAt owner =
        if owner = some peer then (s.lanesOf peer).take.2 else s.lanesAt owner := by
  rcases nextFrameFor_cases peer s with ⟨f, high, low, hl, hn⟩ | ⟨f, low, hl, hn⟩ | ⟨hl, hn⟩ <;> rw [hn, hl]
  · exact ⟨rfl, lanesAt_setLanes peer _ owner⟩
  · exact ⟨rfl, lanesAt_setLanes peer _ owner⟩
  · refine ⟨rfl, ?_⟩
    split_ifs with howner
    · rw [howner]
      exact hl
    · rfl

/-- `prune_peer_lanes` drops the lanes of the peers that are not listed. -/
theorem lanesAt_prunePeerLanes {connected : List Addr} {owner : Option Addr} (h : ∀ p ∈ owner, p ∈ connected) :
    (s.prunePeerLanes connected).lanesAt owner = s.lanesAt owner := by
  cases owner with
  | none =>
    rw [prunePeerLanes_eq]
    rfl
  | some p =>
    show (s.prunePeerLanes connected).lanesOf p = s.lanesOf p
    rw [lanesOf_prunePeerLanes, if_pos (h p rfl)]

end Shaper

end Peashape

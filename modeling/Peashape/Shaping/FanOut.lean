import Peashape.Shaping.Submission

/-!
# A broadcast and as many unicasts

In `PerConnection` scope a broadcast is a loop over the cached peers. Its rounds touch
different entries of the map, so their order does not matter (`fanOutTo_perm`), and a peer
that is not cached is not touched. A round does what a unicast of the same frame to its peer
does, with one exception: where the peer's high lane is at capacity the unicast is refused,
and the broadcast drops the oldest frame. See `broadcast_eq_unicasts`.
-/

namespace Peashape.Shaping

open Foundation Shaper

variable {Addr : Type*} [DecidableEq Addr] {cfg : ShaperConfig} {call : ℕ} {lane : Lane} {frame : Bytes}
  {s s' : Shaper Addr} {p q : Addr}

/-! ### Entry by entry -/

theorem lookup_setLanes (s : Shaper Addr) (peer : Addr) (l : PeerLanes Addr) (q : Addr) :
    (s.setLanes peer l).peerLanes.lookup q = if q = peer then some l else s.peerLanes.lookup q := by
  by_cases hq : q = peer
  · rw [if_pos hq, hq, setLanes, Finmap.lookup_insert]
  · rw [if_neg hq, setLanes, Finmap.lookup_insert_of_ne _ hq]

/-- Entries of different peers are stored in any order. -/
theorem setLanes_comm (h : p ≠ q) (s : Shaper Addr) (l l' : PeerLanes Addr) :
    (s.setLanes p l).setLanes q l' = (s.setLanes q l').setLanes p l := by
  simp only [setLanes, Finmap.insert_insert_of_ne _ h]

/-- A broadcast does not touch the entry of a peer that is not in its list. -/
theorem lookup_fanOutTo_of_not_mem : ∀ {peers : List Addr} {s : Shaper Addr}, p ∉ peers →
    (fanOutTo cfg call peers lane frame s).peerLanes.lookup p = s.peerLanes.lookup p
  | [], _, _ => rfl
  | q :: peers, s, h => by
    obtain ⟨hq, hp⟩ := not_or.mp (List.mem_cons.not.mp h)
    show (fanOutTo cfg call peers lane frame (fanPush cfg call lane frame s q)).peerLanes.lookup p = _
    rw [lookup_fanOutTo_of_not_mem hp, fanPush_eq, lookup_setLanes, if_neg hq]

/-- It adds the frame to the lanes of a peer that is in the list once. -/
theorem lookup_fanOutTo_of_mem : ∀ {peers : List Addr} {s : Shaper Addr}, peers.Nodup → p ∈ peers →
    (fanOutTo cfg call peers lane frame s).peerLanes.lookup p =
      some ((s.lanesOf p).withFrame cfg lane (peerFrame p frame call))
  | q :: peers, s, hnd, h => by
    obtain ⟨hq, hnd⟩ := List.nodup_cons.mp hnd
    show (fanOutTo cfg call peers lane frame (fanPush cfg call lane frame s q)).peerLanes.lookup p = _
    by_cases hp : p = q
    · subst hp
      rw [lookup_fanOutTo_of_not_mem hq, fanPush_eq, lookup_setLanes, if_pos rfl]
    · rw [lookup_fanOutTo_of_mem hnd (List.mem_of_ne_of_mem hp h), fanPush_eq, lanesOf_setLanes_of_ne hp]

/-! ### The order of a broadcast -/

/-- Two rounds of the loop commute. -/
theorem fanPush_comm (p q : Addr) (s : Shaper Addr) :
    fanPush cfg call lane frame (fanPush cfg call lane frame s p) q =
      fanPush cfg call lane frame (fanPush cfg call lane frame s q) p := by
  by_cases h : p = q
  · rw [h]
  · simp only [fanPush_eq, lanesOf_setLanes_of_ne h, lanesOf_setLanes_of_ne (Ne.symm h)]
    exact setLanes_comm h s _ _

/-- **The order of the list does not matter.** -/
theorem fanOutTo_perm {peers peers' : List Addr} (h : peers.Perm peers') (s : Shaper Addr) :
    fanOutTo cfg call peers lane frame s = fanOutTo cfg call peers' lane frame s :=
  h.foldl_eq' (fun p _ q _ s => fanPush_comm p q s) s

/-- The loop does not read the cache: it has its own list. -/
theorem fanOutTo_refreshPcPeers (cached : List Addr) : ∀ (peers : List Addr) (s : Shaper Addr),
    fanOutTo cfg call peers lane frame (s.refreshPcPeers cached) =
      (fanOutTo cfg call peers lane frame s).refreshPcPeers cached
  | [], _ => rfl
  | p :: peers, s => by
    have hround : fanPush cfg call lane frame (s.refreshPcPeers cached) p =
        (fanPush cfg call lane frame s p).refreshPcPeers cached := by cases lane <;> rfl
    show fanOutTo cfg call peers lane frame (fanPush cfg call lane frame (s.refreshPcPeers cached) p) = _
    rw [hround, fanOutTo_refreshPcPeers cached peers]
    rfl

/-- Nor does it touch the shared lanes. -/
theorem sharedLanes_fanOutTo : ∀ (peers : List Addr) (s : Shaper Addr),
    (fanOutTo cfg call peers lane frame s).highLane = s.highLane ∧
      (fanOutTo cfg call peers lane frame s).lowLane = s.lowLane
  | [], _ => ⟨rfl, rfl⟩
  | p :: peers, s => by
    obtain ⟨hhigh, hlow⟩ := sharedLanes_fanOutTo peers (fanPush cfg call lane frame s p)
    constructor
    · exact hhigh.trans (by cases lane <;> rfl)
    · exact hlow.trans (by cases lane <;> rfl)

/-! ### Unicasts one after another -/

/-- A unicast of the same frame to each of the peers in turn: the results, and the shaper. -/
def unicastEach (cfg : ShaperConfig) (call : ℕ) (lane : Lane) (frame : Bytes) :
    List Addr → Shaper Addr → List (Except Error Unit) × Shaper Addr
  | [], s => ([], s)
  | p :: peers, s =>
    let (result, s) := enqueueRaw cfg call lane (.unicast p) frame s
    let (results, s) := unicastEach cfg call lane frame peers s
    (result :: results, s)

/-- Whether the high lane of a peer is at capacity when a high frame comes for it. -/
def FullFor (cfg : ShaperConfig) (s : Shaper Addr) (lane : Lane) (p : Addr) : Prop :=
  lane = .high ∧ cfg.highLaneCapacity ≤ (s.lanesOf p).high.length

instance (s : Shaper Addr) (p : Addr) : Decidable (FullFor cfg s lane p) :=
  inferInstanceAs (Decidable (_ ∧ _))

/-- A unicast is refused at a full lane, and else adds the frame to its peer's lanes. -/
theorem enqueueRaw_unicast_eq (hscope : cfg.scope ≠ .global) (hsize : frame.length = cfg.frameSize)
    (s : Shaper Addr) (p : Addr) :
    enqueueRaw cfg call lane (.unicast p) frame s =
      if FullFor cfg s lane p then (.error .laneFull, s)
      else (.ok (), s.setLanes p ((s.lanesOf p).withFrame cfg lane (peerFrame p frame call))) := by
  rw [enqueueRaw_unicast hsize hscope]
  split_ifs with h
  · obtain ⟨rfl, hfull⟩ := h
    exact pushPeer_of_full hfull
  · exact pushPeer_eq fun hl => Nat.lt_of_not_le fun hf => h ⟨hl, hf⟩

/-- A unicast leaves the entries of the other peers alone. -/
theorem lookup_enqueueRaw_unicast_of_ne (hscope : cfg.scope ≠ .global) (hsize : frame.length = cfg.frameSize)
    (h : p ≠ q) (s : Shaper Addr) :
    (enqueueRaw cfg call lane (.unicast q) frame s).2.peerLanes.lookup p = s.peerLanes.lookup p := by
  rw [enqueueRaw_unicast_eq hscope hsize]
  split_ifs
  · rfl
  · rw [lookup_setLanes, if_neg h]

/-- Lanes are read off the entries. -/
theorem lanesOf_congr (h : s.peerLanes.lookup p = s'.peerLanes.lookup p) : s.lanesOf p = s'.lanesOf p := by
  rw [lanesOf, lanesOf, h]

theorem fullFor_congr (h : s.peerLanes.lookup p = s'.peerLanes.lookup p) :
    FullFor cfg s lane p ↔ FullFor cfg s' lane p := by
  rw [FullFor, FullFor, lanesOf_congr h]

/-- The results of unicasts to different peers are those each would have alone. -/
theorem unicastEach_fst (hscope : cfg.scope ≠ .global) (hsize : frame.length = cfg.frameSize) :
    ∀ {peers : List Addr} {s : Shaper Addr}, peers.Nodup →
      (unicastEach cfg call lane frame peers s).1 =
        peers.map fun p => if FullFor cfg s lane p then .error .laneFull else .ok ()
  | [], _, _ => rfl
  | q :: peers, s, hnd => by
    obtain ⟨hq, hnd⟩ := List.nodup_cons.mp hnd
    simp only [unicastEach, List.map_cons]
    congr 1
    · rw [enqueueRaw_unicast_eq hscope hsize]
      split_ifs <;> rfl
    · rw [unicastEach_fst hscope hsize hnd]
      refine List.map_congr_left fun p hp => ?_
      have hne : p ≠ q := fun h => hq (h ▸ hp)
      simp only [fullFor_congr (lookup_enqueueRaw_unicast_of_ne hscope hsize hne s)]

/-- They leave the entries of all other peers alone. -/
theorem lookup_unicastEach_of_not_mem (hscope : cfg.scope ≠ .global) (hsize : frame.length = cfg.frameSize) :
    ∀ {peers : List Addr} {s : Shaper Addr}, p ∉ peers →
      (unicastEach cfg call lane frame peers s).2.peerLanes.lookup p = s.peerLanes.lookup p
  | [], _, _ => rfl
  | q :: peers, s, h => by
    obtain ⟨hq, hp⟩ := not_or.mp (List.mem_cons.not.mp h)
    show (unicastEach cfg call lane frame peers
      (enqueueRaw cfg call lane (.unicast q) frame s).2).2.peerLanes.lookup p = _
    rw [lookup_unicastEach_of_not_mem hscope hsize hp, lookup_enqueueRaw_unicast_of_ne hscope hsize hq]

/-- And do to the entry of each of theirs what the one for it does. -/
theorem lookup_unicastEach_of_mem (hscope : cfg.scope ≠ .global) (hsize : frame.length = cfg.frameSize) :
    ∀ {peers : List Addr} {s : Shaper Addr}, peers.Nodup → p ∈ peers →
      (unicastEach cfg call lane frame peers s).2.peerLanes.lookup p =
        if FullFor cfg s lane p then s.peerLanes.lookup p
        else some ((s.lanesOf p).withFrame cfg lane (peerFrame p frame call))
  | q :: peers, s, hnd, h => by
    obtain ⟨hq, hnd⟩ := List.nodup_cons.mp hnd
    show (unicastEach cfg call lane frame peers
      (enqueueRaw cfg call lane (.unicast q) frame s).2).2.peerLanes.lookup p = _
    by_cases hp : p = q
    · subst hp
      rw [lookup_unicastEach_of_not_mem hscope hsize hq, enqueueRaw_unicast_eq hscope hsize]
      split_ifs
      · rfl
      · rw [lookup_setLanes, if_pos rfl]
    · have hsame : (enqueueRaw cfg call lane (.unicast q) frame s).2.peerLanes.lookup p = s.peerLanes.lookup p :=
        lookup_enqueueRaw_unicast_of_ne hscope hsize hp s
      rw [lookup_unicastEach_of_mem hscope hsize hnd (List.mem_of_ne_of_mem hp h)]
      simp only [fullFor_congr hsame, lanesOf_congr hsame, hsame]

/-- **A broadcast is as many unicasts, in any order**, except where a high lane is at
capacity. In `PerConnection` scope, for every state of the shaper whose cache has no peer
twice, every lane and frame of the right size, and every order of the cached peers:

* the lanes after the broadcast are the same with the cache in that order;
* the lanes of the peers that are not cached are as before, and so are the shared ones;
* of the unicasts to each cached peer in that order those are refused whose peer's high lane
  is at capacity, and only those;
* the lanes of a cached peer after them are the same as after the broadcast, except that a
  unicast which is refused leaves them as they were and the broadcast drops the oldest high
  frame and appends the new one. -/
theorem broadcast_eq_unicasts (hscope : cfg.scope ≠ .global) (call : ℕ) (lane : Lane)
    (hsize : frame.length = cfg.frameSize) (hnd : s.pcPeers.Nodup) {peers : List Addr}
    (hperm : peers.Perm s.pcPeers) :
    let fanned := (enqueueRaw cfg call lane .broadcast frame s).2
    let unicast := unicastEach cfg call lane frame peers s
    (enqueueRaw cfg call lane .broadcast frame (s.refreshPcPeers peers)).2.peerLanes = fanned.peerLanes ∧
    (∀ p ∉ s.pcPeers, fanned.peerLanes.lookup p = s.peerLanes.lookup p) ∧
    (fanned.highLane = s.highLane ∧ fanned.lowLane = s.lowLane) ∧
    unicast.1 = peers.map (fun p => if FullFor cfg s lane p then .error .laneFull else .ok ()) ∧
    ∀ p ∈ s.pcPeers,
      (¬ FullFor cfg s lane p → unicast.2.peerLanes.lookup p = fanned.peerLanes.lookup p) ∧
      (FullFor cfg s lane p → unicast.2.peerLanes.lookup p = s.peerLanes.lookup p ∧
        ∀ oldest rest, (s.lanesOf p).high = oldest :: rest → rest.length + 1 = cfg.highLaneCapacity →
          fanned.peerLanes.lookup p = some ⟨rest ++ [peerFrame p frame call], (s.lanesOf p).low⟩) := by
  intro fanned unicast
  have hfanned : fanned = fanOutTo cfg call s.pcPeers lane frame s := by
    simp only [fanned, enqueueRaw_broadcast hsize hscope]
  refine ⟨?_, fun p hp => ?_, ?_, unicastEach_fst hscope hsize (hperm.nodup_iff.mpr hnd), fun p hp => ?_⟩
  · rw [enqueueRaw_broadcast hsize hscope, fanOutTo_refreshPcPeers, hfanned, ← fanOutTo_perm hperm]
    rfl
  · rw [hfanned, lookup_fanOutTo_of_not_mem hp]
  · rw [hfanned]
    exact sharedLanes_fanOutTo s.pcPeers s
  · have hin : fanned.peerLanes.lookup p = some ((s.lanesOf p).withFrame cfg lane (peerFrame p frame call)) := by
      rw [hfanned, lookup_fanOutTo_of_mem hnd hp]
    have hout : unicast.2.peerLanes.lookup p = if FullFor cfg s lane p then s.peerLanes.lookup p
        else some ((s.lanesOf p).withFrame cfg lane (peerFrame p frame call)) :=
      lookup_unicastEach_of_mem hscope hsize (hperm.nodup_iff.mpr hnd) (hperm.mem_iff.mpr hp)
    constructor
    · intro hroom
      rw [hin, hout, if_neg hroom]
    · intro hfull
      refine ⟨by rw [hout, if_pos hfull], fun oldest rest hhigh hcap => ?_⟩
      obtain ⟨rfl, -⟩ := hfull
      rw [hin, PeerLanes.withFrame, hhigh, Deque.evictFront_cons hcap]

/-- Two peers with one place in each high lane, of which one is taken. -/
theorem broadcast_eq_unicasts_two :
    let cfg : ShaperConfig :=
      { scope := .perConnection true, frameSize := 32, highLaneCapacity := 1, accepted := by decide }
    let b : Bytes := List.replicate 32 7
    let s : Shaper ℕ := (enqueueRaw cfg 0 .high (.unicast 2) b ({ pcPeers := [1, 2] } : Shaper ℕ)).2
    let fanned := (enqueueRaw cfg 1 .high .broadcast b s).2
    let unicast := unicastEach cfg 1 .high b [2, 1] s
    (enqueueRaw cfg 1 .high .broadcast b (s.refreshPcPeers [2, 1])).2.peerLanes = fanned.peerLanes ∧
    (∀ p ∉ s.pcPeers, fanned.peerLanes.lookup p = s.peerLanes.lookup p) ∧
    (fanned.highLane = s.highLane ∧ fanned.lowLane = s.lowLane) ∧
    unicast.1 = [2, 1].map (fun p => if FullFor cfg s .high p then .error .laneFull else .ok ()) ∧
    ∀ p ∈ s.pcPeers,
      (¬ FullFor cfg s .high p → unicast.2.peerLanes.lookup p = fanned.peerLanes.lookup p) ∧
      (FullFor cfg s .high p → unicast.2.peerLanes.lookup p = s.peerLanes.lookup p ∧
        ∀ oldest rest, (s.lanesOf p).high = oldest :: rest → rest.length + 1 = cfg.highLaneCapacity →
          fanned.peerLanes.lookup p = some ⟨rest ++ [peerFrame p b 1], (s.lanesOf p).low⟩) :=
  broadcast_eq_unicasts (by decide) 1 .high (by decide) (by decide) (by decide)

end Peashape.Shaping

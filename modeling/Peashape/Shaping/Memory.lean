import Peashape.Shaping.Interleaving

/-!
# The lanes do not grow without bound

In `PerConnection` scope a frame for any address makes an entry for it, whether a peer is
connected under it or not. The scheduler drops the entries of all peers that are not in its
snapshot, on every tick. So, over any interleaving, there are entries only for the peers of the
last snapshot it pruned with and for those to which something was pushed since, and the number of
queued frames is bounded by their number (`queued_bounded`).
-/

namespace Peashape.Shaping

open Foundation Shaper SystemState

variable {Addr G : Type*} [DecidableEq Addr] {w : ℕ} {cfg : ShaperConfig} {cg : CoverGenerator G}
  {s s' : SystemState Addr G w} {a : Act Addr} {es tr : List (Event Addr)}

/-- The peers to whose lanes something was pushed. -/
def pushedPeers (tr : List (Event Addr)) : Finset Addr :=
  (tr.filterMap fun
    | .push owner _ _ => owner
    | _ => none).toFinset

@[simp] theorem pushedPeers_append (tr tr' : List (Event Addr)) :
    pushedPeers (tr ++ tr') = pushedPeers tr ∪ pushedPeers tr' := by
  rw [pushedPeers, List.filterMap_append, List.toFinset_append]
  rfl

@[simp] theorem pushedPeers_nil : pushedPeers ([] : List (Event Addr)) = ∅ := rfl

theorem mem_pushedPeers {p : Addr} : p ∈ pushedPeers tr ↔ ∃ lane f, .push (some p) lane f ∈ tr := by
  simp only [pushedPeers, List.mem_toFinset, List.mem_filterMap]
  constructor
  · rintro ⟨e, he, hp⟩
    cases e with
    | push owner lane f =>
      obtain rfl : owner = some p := hp
      exact ⟨lane, f, he⟩
    | _ => cases hp
  · rintro ⟨lane, f, he⟩
    exact ⟨_, he, rfl⟩

/-! ### The keys of the map -/

theorem keys_setLanes (s : Shaper Addr) (peer : Addr) (l : PeerLanes Addr) :
    (s.setLanes peer l).peerLanes.keys = insert peer s.peerLanes.keys := by
  ext q
  simp [setLanes, Finmap.mem_keys, Finmap.mem_insert]

/-- Lanes with something in them are in the map. -/
theorem mem_keys_of_lanesOf_ne {s : Shaper Addr} {peer : Addr} (h : s.lanesOf peer ≠ {}) :
    peer ∈ s.peerLanes.keys := by
  by_contra hmem
  refine h ?_
  rw [lanesOf, Finmap.lookup_eq_none.mpr (fun hp => hmem (Finmap.mem_keys.mpr hp))]
  rfl

theorem keys_prunePeerLanes (s : Shaper Addr) (peers : List Addr) :
    (s.prunePeerLanes peers).peerLanes.keys ⊆ peers.toFinset ∩ s.peerLanes.keys := by
  intro p hp
  rw [prunePeerLanes_eq, Finmap.mem_keys, FiniteMap.mem_retain, decide_eq_true_iff] at hp
  rw [Finset.mem_inter, List.mem_toFinset, Finmap.mem_keys]
  exact hp

theorem keys_nextFrameFor (s : Shaper Addr) (peer : Addr) :
    (s.nextFrameFor peer).2.peerLanes.keys ⊆ s.peerLanes.keys := by
  have hpop {l l' : PeerLanes Addr} (hl : s.lanesOf peer = l) (hne : l ≠ {}) :
      (s.setLanes peer l').peerLanes.keys ⊆ s.peerLanes.keys := by
    rw [keys_setLanes]
    exact Finset.insert_subset (mem_keys_of_lanesOf_ne (hl ▸ hne)) (Finset.Subset.refl _)
  rcases nextFrameFor_cases peer s with ⟨f, high, low, hl, hn⟩ | ⟨f, low, hl, hn⟩ | ⟨-, hn⟩ <;> rw [hn]
  · exact hpop hl (by simp)
  · exact hpop hl (by simp)

theorem mem_pushedPeers_evict_push (p : Addr) (k lane : Lane) (gone : List (PendingFrame Addr))
    (f : PendingFrame Addr) : p ∈ pushedPeers (gone.map (.evict (some p) k) ++ [.push (some p) lane f]) :=
  mem_pushedPeers.mpr ⟨lane, f, by simp⟩

variable (cfg) in
/-- A unicast frame makes an entry for its peer if it is accepted, and if it is not, there was one. -/
theorem keys_pushPeer (call : ℕ) (peer : Addr) (lane : Lane) (frame : Bytes) (s : Shaper Addr) :
    ((pushPeer cfg call peer lane frame s).1 = .ok () ∧ peer ∈ pushedPeers (pushPeerEvents cfg call peer lane frame s) ∨
      peer ∈ s.peerLanes.keys) ∧
    (pushPeer cfg call peer lane frame s).2.peerLanes.keys = insert peer s.peerLanes.keys := by
  cases lane with
  | high =>
    simp only [pushPeer, pushPeerEvents]
    split_ifs with hfull
    · -- a lane that is full is in the map
      refine ⟨.inr (mem_keys_of_lanesOf_ne fun hnil => ?_), keys_setLanes _ _ _⟩
      rw [hnil] at hfull
      exact absurd (cfg.high_pos.trans_le hfull) (lt_irrefl _)
    · exact ⟨.inl ⟨rfl, mem_pushedPeers_evict_push peer .high .high [] _⟩, keys_setLanes _ _ _⟩
  | low => exact ⟨.inl ⟨rfl, mem_pushedPeers_evict_push peer .low .low _ _⟩, keys_setLanes _ _ _⟩

theorem keys_fanOutTo (call : ℕ) (lane : Lane) (frame : Bytes) : ∀ (peers : List Addr) (s : Shaper Addr),
    (fanOutTo cfg call peers lane frame s).peerLanes.keys ⊆
      s.peerLanes.keys ∪ pushedPeers (fanOutToEvents cfg call lane frame peers s)
  | [], _ => Finset.subset_union_left
  | peer :: peers, s => by
    have hfirst : (fanPush cfg call lane frame s peer).peerLanes.keys ⊆
        s.peerLanes.keys ∪ pushedPeers (fanPushEvents cfg call lane frame s peer) := by
      cases lane <;>
      · simp only [fanPush, fanPushEvents, keys_setLanes]
        exact Finset.insert_subset (Finset.mem_union_right _ (mem_pushedPeers_evict_push peer _ _ _ _))
          Finset.subset_union_left
    have ih := keys_fanOutTo call lane frame peers (fanPush cfg call lane frame s peer)
    rw [fanOutToEvents, pushedPeers_append, ← Finset.union_assoc]
    exact ih.trans (Finset.union_subset_union hfirst (Finset.Subset.refl _))

/-- A call. -/
theorem keys_enqueueRaw (call : ℕ) (lane : Lane) (target : Target Addr) (frame : Bytes) (s : Shaper Addr) :
    (enqueueRaw cfg call lane target frame s).2.peerLanes.keys ⊆
      s.peerLanes.keys ∪ pushedPeers (enqueueRawEvents cfg call lane target frame s) := by
  by_cases hsize : frame.length = cfg.frameSize
  · by_cases hscope : cfg.scope = .global
    · have hkeep : (pushGlobal cfg lane ⟨frame, target, .enqueued call⟩ s).2.peerLanes = s.peerLanes := by
        cases lane <;> simp only [pushGlobal]
        split_ifs <;> rfl
      rw [enqueueRaw_global hsize hscope, hkeep]
      exact Finset.subset_union_left
    · cases target with
      | unicast peer =>
        have hr : enqueueRaw cfg call lane (.unicast peer) frame s = pushPeer cfg call peer lane frame s :=
          enqueueRaw_unicast hsize hscope peer
        obtain ⟨hmem, hkeys⟩ := keys_pushPeer cfg call peer lane frame s
        rw [hr, hkeys]
        refine Finset.insert_subset ?_ Finset.subset_union_left
        rcases hmem with ⟨hok, hmem⟩ | hmem
        · refine Finset.mem_union_right _ ?_
          rw [enqueueRawEvents_unicast hscope (hr.trans (Prod.ext hok rfl))]
          exact hmem
        · exact Finset.mem_union_left _ hmem
      | broadcast =>
        have hr : enqueueRaw cfg call lane .broadcast frame s = (.ok (), fanOutTo cfg call s.pcPeers lane frame s) :=
          enqueueRaw_broadcast hsize hscope
        rw [enqueueRawEvents_broadcast hscope hr, hr]
        exact keys_fanOutTo call lane frame s.pcPeers s
  · rw [enqueueRaw_of_size_ne hsize]
    exact Finset.subset_union_left

/-- **What makes an entry**: a push for its peer, and nothing else. -/
theorem keys_does (h : Does cfg cg s a es s') : s'.shaper.peerLanes.keys ⊆ s.shaper.peerLanes.keys ∪ pushedPeers es := by
  cases h with
  | enqueue => exact keys_enqueueRaw _ _ _ _ _
  | fan => exact keys_fanOutTo _ _ _ _ _
  | prune => exact ((keys_prunePeerLanes _ _).trans Finset.inter_subset_right).trans Finset.subset_union_left
  | prunePeerLanes => exact ((keys_prunePeerLanes _ _).trans Finset.inter_subset_right).trans Finset.subset_union_left
  | visit => exact (keys_nextFrameFor _ _).trans Finset.subset_union_left
  | _ => exact Finset.subset_union_left

theorem keys_run {s₁ : SystemState Addr G w} {as : List (Act Addr)} (h : Run (Step cfg cg) s₁ as tr s) :
    s.shaper.peerLanes.keys ⊆ s₁.shaper.peerLanes.keys ∪ pushedPeers tr := by
  refine h.invariant (I := fun tr s => s.shaper.peerLanes.keys ⊆ s₁.shaper.peerLanes.keys ∪ pushedPeers tr)
    Finset.subset_union_left fun {tr s a es s'} hi hstep => ?_
  rw [pushedPeers_append, ← Finset.union_assoc]
  exact (keys_does (does_of_step hstep)).trans (Finset.union_subset_union hi (Finset.Subset.refl _))

/-! ### How many frames are queued -/

/-- In `PerConnection` scope every frame is in an entry, and no lane is over its capacity. -/
theorem queued_le {sh : Shaper Addr} (hscope : cfg.scope ≠ .global) (h : ShaperWf cfg sh) :
    sh.queued ≤ (cfg.highLaneCapacity + cfg.lowLaneCapacity) * sh.peerLanes.keys.card := by
  rw [queued_perConnection h hscope]
  refine FiniteMap.total_le fun p l hl => ?_
  have hlanes : sh.lanesAt (some p) = l := by
    show sh.lanesOf p = l
    rw [lanesOf, hl]
    rfl
  have hwf := h.lanes (some p)
  rw [hlanes] at hwf
  exact Nat.add_le_add hwf.high_le hwf.low_le

/-- **Bounded memory.** In `PerConnection` scope, over any interleaving and under every strategy, after the
scheduler pruned the lanes with the snapshot `peers`: there are entries only for these peers and for those
to which something was pushed since, and no more than the two capacities of frames for each of them. -/
theorem queued_bounded (hscope : cfg.scope ≠ .global) {sch : Scheduler Addr w} {gen : G} {as bs : List (Act Addr)}
    {tr₁ : List (Event Addr)} {s₁ s₂ : SystemState Addr G w} {peers : List Addr}
    (before : Run (Step cfg cg) (.new sch gen) as tr₁ s₁) (hpc : s₁.pc = .prune peers)
    (hprune : Step cfg cg s₁ .sched es s₂) (after : Run (Step cfg cg) s₂ bs tr s) :
    s.shaper.peerLanes.keys ⊆ peers.toFinset ∪ pushedPeers tr ∧
      s.shaper.queued ≤ (cfg.highLaneCapacity + cfg.lowLaneCapacity) * (peers.toFinset ∪ pushedPeers tr).card := by
  have hpruned : s₂.shaper.peerLanes.keys ⊆ peers.toFinset := by
    simp only [Step, stepOf, step, schedStep, hpc, Option.some.injEq, Prod.mk.injEq] at hprune
    obtain ⟨-, rfl⟩ := hprune
    exact (keys_prunePeerLanes _ _).trans Finset.inter_subset_left
  have hkeys := (keys_run after).trans (Finset.union_subset_union hpruned (Finset.Subset.refl _))
  have hwf := systemWf_run (.new sch gen) ((before.snoc hprune).trans after)
  exact ⟨hkeys, (queued_le hscope hwf.shaper).trans (Nat.mul_le_mul_left _ (Finset.card_le_card hkeys))⟩

/-- A frame for a peer that is not connected is dropped by the next tick, and another one waits for the one
after it. -/
theorem queued_bounded_absent :
    let cfg : ShaperConfig := { scope := .perConnection true, frameSize := 32, accepted := by decide }
    let s₀ : SystemState ℕ (Stream' UInt8) 64 := .new { rng := Stream'.const 1 } (Stream'.const 5)
    let as : List (Act ℕ) := [.connect 1, .enqueue .high (.unicast 2) (List.replicate 32 7), .wake, .snapshot [1], .sched]
    let bs : List (Act ℕ) := [.enqueue .low (.unicast 3) (List.replicate 32 8)]
    ∃ tr₁ s₁ es s₂ tr s, Run (Step cfg randomCover) s₀ as tr₁ s₁ ∧ Step cfg randomCover s₁ .sched es s₂ ∧
      Run (Step cfg randomCover) s₂ bs tr s ∧ s₁.shaper.queued = 1 ∧ s.shaper.queued = 1 ∧
      s.shaper.peerLanes.keys ⊆ [1].toFinset ∪ pushedPeers tr ∧
      s.shaper.queued ≤ (cfg.highLaneCapacity + cfg.lowLaneCapacity) * ([1].toFinset ∪ pushedPeers tr).card := by
  intro cfg s₀ as bs
  obtain ⟨tr₁, s₁, before, hpc, hqueued, hrest⟩ : ∃ tr₁ s₁, Run (Step cfg randomCover) s₀ as tr₁ s₁ ∧
      s₁.pc = .prune [1] ∧ s₁.shaper.queued = 1 ∧ ((step cfg randomCover s₁ .sched).any fun y =>
        (exec (step cfg randomCover) y.2 bs).any fun z => decide (z.2.shaper.queued = 1)) = true :=
    exists_run_of_exec (by decide +kernel)
  obtain ⟨⟨es, s₂⟩, hprune, hrest⟩ := (Option.any_eq_true _ _).mp hrest
  obtain ⟨⟨tr, s⟩, hafter, hqueued'⟩ := (Option.any_eq_true _ _).mp hrest
  exact ⟨tr₁, s₁, es, s₂, tr, s, before, hprune, run_of_exec hafter, hqueued, of_decide_eq_true hqueued',
    queued_bounded (by decide) before hpc hprune (run_of_exec hafter)⟩

end Peashape.Shaping

import Peashape.Shaping.Provenance

/-!
# Pruning and connections

In `PerConnection` scope the scheduler drops the lanes of the peers that are not in its
snapshot, and takes that snapshot earlier, without a lock: a peer may connect, and have a
frame accepted, in between. Its lanes are then dropped although it is connected.

`prune_spares_iff` says when that happens: a unicast frame accepted for a connected peer
leaves the lanes only by being sent to that peer or by an eviction, whatever the order of
the steps after its acceptance and as long as the peer stays connected, exactly if it is
not accepted while the scheduler is on its way to a prune with a snapshot that lacks the
peer (`Stale`).
-/

namespace Peashape.Shaping

open Foundation Shaper SystemState

variable {Addr G : Type*} [DecidableEq Addr] {w : ℕ} {cfg : ShaperConfig} {cg : CoverGenerator G}
  {s s' : SystemState Addr G w} {a : Act Addr} {es tr : List (Event Addr)} {p : Addr} {lane : Lane}
  {f : PendingFrame Addr}

/-! ### The condition and the property -/

/-- The scheduler is between its snapshot and the prune with it, and `p` is not in it. -/
def Stale (p : Addr) : Pc Addr → Prop
  | .refresh peers | .prune peers => p ∉ peers
  | _ => False

instance : DecidablePred (Stale p) := fun pc => by
  unfold Stale
  split <;> infer_instance

/-- The steps of the system with `p` connected throughout. -/
def ConnectedStep (cfg : ShaperConfig) (cg : CoverGenerator G) (p : Addr) :
    SystemState Addr G w → Act Addr → List (Event Addr) → SystemState Addr G w → Prop :=
  Along (Step cfg cg) fun _ a => Stays p a

/-- The frame is accounted for: it waits in its lane, or the scheduler has popped it to
send it to `p`, or has sent it to `p`, or it was evicted from the lane. -/
def Kept (cfg : ShaperConfig) (cg : CoverGenerator G) (p : Addr) (lane : Lane) (f : PendingFrame Addr)
    (tr : List (Event Addr)) (s : SystemState Addr G w) : Prop :=
  f ∈ (s.shaper.lanesOf p).lane lane ∨ (∃ todo, s.pc = .deliver p (some f) todo) ∨
    (∃ g, .send p (finalizeReal cfg.toShapeConfig cg f g).1 ∈ tr) ∨ .evict (some p) lane f ∈ tr

/-! ### A snapshot that has the peer -/

/-- A snapshot taken while the peer is connected has it. -/
theorem not_stale_does (hp : p ∈ s.connected) (hs : ¬ Stale p s.pc) (h : Does cfg cg s a es s') :
    ¬ Stale p s'.pc := by
  have hnext : ∀ todo : List Addr, ¬ Stale p (visitNext todo) := fun todo => by cases todo <;> exact id
  cases h with
  | @snapshot peers _ _ hsnap =>
    have hmem : p ∈ peers := by rw [← List.mem_toFinset, hsnap]; exact hp
    simp only [afterSnapshot]
    split
    · exact id
    · exact id
    · exact not_not.mpr hmem
  | refresh hpc => rwa [hpc] at hs
  | @prune peers _ =>
    cases peers with
    | nil => exact id
    | cons q qs =>
      simp only [afterPrune]
      split_ifs <;> exact id
  | walk _ => exact hnext _
  | @visit peer todo _ =>
    cases (s.shaper.nextFrameFor peer).1 with
    | none =>
      simp only [afterVisit]
      split_ifs
      · exact hnext todo
      · exact id
    | some f => exact id
  | deliver _ => exact hnext _
  | popHigh _ => cases s.shaper.popHigh.1 <;> exact id
  | popLow _ =>
    cases s.shaper.popLow.1 with
    | none =>
      simp only [afterPopLow]
      split_ifs <;> exact id
    | some f => exact id
  | dispatch _ =>
    simp only [afterDispatch]
    split_ifs <;> exact id
  | tick => exact id
  | consume => exact id
  | pick => exact id
  | _ => exact hs

/-! ### Where a frame of a lane goes -/

/-- The pop of a frame from the lanes of a peer is followed by its delivery. -/
theorem deliver_of_pop (h : Does cfg cg s a es s') (hpop : .pop (some p) lane f ∈ es) :
    ∃ todo, s'.pc = .deliver p (some f) todo := by
  cases h with
  | @visit peer todo _ =>
    unfold nextFrameForEvents at hpop
    rcases nextFrameFor_cases peer s.shaper with ⟨x, high, low, hl, hn⟩ | ⟨x, low, hl, hn⟩ | ⟨hl, hn⟩ <;>
      rw [hl] at hpop <;>
      simp only [List.mem_singleton, Event.pop.injEq, Option.some.injEq, List.not_mem_nil] at hpop
    · obtain ⟨rfl, -, rfl⟩ := hpop
      exact ⟨todo, by rw [hn]; rfl⟩
    · obtain ⟨rfl, -, rfl⟩ := hpop
      exact ⟨todo, by rw [hn]; rfl⟩
  | enqueue _ => cases submits_enqueueRawEvents _ hpop
  | fan _ => cases submits_fanOutToEvents _ _ _ ((List.mem_cons.mp hpop).resolve_left (by simp))
  | deliver _ => cases ofDispatch_frameToSend _ _ _ _ hpop
  | dispatch _ => cases ofDispatch_dispatchTick _ _ _ _ _ hpop
  | popHigh _ => simp [popHighEvents] at hpop
  | popLow _ => simp [popLowEvents] at hpop
  | prune _ => simp [prunePeerLanesEvents] at hpop
  | prunePeerLanes => simp [prunePeerLanesEvents] at hpop
  | snapshot => simp at hpop
  | _ => cases hpop

/-- Entries are dropped only by `prune_peer_lanes`, and only those the list lacks. -/
theorem prune_does (h : Does cfg cg s a es s') {gone : Finset Addr} (hes : .prune gone ∈ es) :
    ∃ peers, (∀ q ∈ gone, q ∉ peers) ∧ (s.pc = .prune peers ∨ a = .prunePeerLanes peers) := by
  have hgone : ∀ peers, Event.prune gone ∈ s.shaper.prunePeerLanesEvents peers → ∀ q ∈ gone, q ∉ peers := by
    intro peers hmem q hq
    obtain rfl := Event.prune.inj (List.mem_singleton.mp hmem)
    exact (Finset.mem_filter.mp hq).2
  cases h with
  | @prune peers hpc => exact ⟨peers, hgone peers hes, .inl hpc⟩
  | @prunePeerLanes peers => exact ⟨peers, hgone peers hes, .inr rfl⟩
  | enqueue _ => cases submits_enqueueRawEvents _ hes
  | fan _ => cases submits_fanOutToEvents _ _ _ ((List.mem_cons.mp hes).resolve_left (by simp))
  | visit _ => obtain ⟨_, _, h | h | h⟩ := isAbout_nextFrameForEvents _ _ _ hes <;> cases h
  | deliver _ => cases ofDispatch_frameToSend _ _ _ _ hes
  | dispatch _ => cases ofDispatch_dispatchTick _ _ _ _ _ hes
  | popHigh _ => simp [popHighEvents] at hes
  | popLow _ => simp [popLowEvents] at hes
  | snapshot => simp at hes
  | _ => cases hes

/-- The entry of a peer is dropped by the scheduler only with a stale snapshot. -/
theorem stale_of_prune (hown : a.own = true) (h : Does cfg cg s a es s') {e : Event Addr} (he : e ∈ es)
    (hprune : e.prunes (some p) = true) : Stale p s.pc := by
  cases e with
  | prune gone =>
    obtain ⟨peers, hgone, hpc | rfl⟩ := prune_does h he
    · rw [hpc]
      exact hgone p (by simpa [Event.prunes] using hprune)
    · cases hown
  | _ => cases hprune

/-- What the scheduler holds for a peer it sends it with its next step. -/
theorem kept_of_deliver {todo : List Addr} (hpc : s.pc = .deliver p (some f) todo) (h : Does cfg cg s a es s') :
    (∃ todo, s'.pc = .deliver p (some f) todo) ∨ ∃ g, .send p (finalizeReal cfg.toShapeConfig cg f g).1 ∈ es := by
  cases h with
  | enqueue _ | clone _ | fan _ | notify _ | connect | disconnect | refreshPcPeers | prunePeerLanes =>
    exact .inl ⟨todo, hpc⟩
  | deliver hpc' =>
    rw [hpc] at hpc'
    cases hpc'
    exact .inr ⟨s.gen, List.mem_cons_of_mem _ (List.mem_singleton_self _)⟩
  | tick hpc' | consume hpc' | snapshot hpc' | refresh hpc' | prune hpc' | pick hpc' | walk hpc' | visit hpc'
  | popHigh hpc' | popLow hpc' | dispatch hpc' =>
    rw [hpc] at hpc'
    cases hpc'

/-- **A step accounts for the frame**, unless it prunes with a stale snapshot. -/
theorem Kept.does (hk : Kept cfg cg p lane f tr s) (hown : a.own = true) (hs : ¬ Stale p s.pc)
    (h : Does cfg cg s a es s') : Kept cfg cg p lane f (tr ++ es) s' := by
  rcases hk with hlane | ⟨todo, hpc⟩ | ⟨g, hsend⟩ | hevict
  · have hlane' : f ∈ (s.shaper.lanesAt (some p)).lane lane := hlane
    rcases (laneRun_does h (some p)).mem_or_removed hlane' with h' | hpop | hevict | ⟨e, he, hprune⟩
    · exact .inl h'
    · exact .inr (.inl (deliver_of_pop h hpop))
    · exact .inr (.inr (.inr (List.mem_append_right _ hevict)))
    · exact absurd (stale_of_prune hown h he hprune) hs
  · rcases kept_of_deliver hpc h with hpc' | ⟨g, hsend⟩
    · exact .inr (.inl hpc')
    · exact .inr (.inr (.inl ⟨g, List.mem_append_right _ hsend⟩))
  · exact .inr (.inr (.inl ⟨g, List.mem_append_left _ hsend⟩))
  · exact .inr (.inr (.inr (List.mem_append_left _ hevict)))

/-- A frame accepted for a peer alone is put in its lane. -/
theorem mem_of_accepted (hscope : cfg.scope ≠ .global) {b : Bytes}
    (h : Does cfg cg s (.enqueue lane (.unicast p) b) es s') (hacc : .accepted s.calls lane (.unicast p) b ∈ es) :
    peerFrame p b s.calls ∈ (s'.shaper.lanesOf p).lane lane := by
  cases h with
  | clone hf => exact absurd (of_decide_eq_true hf).2.2 nofun
  | enqueue _ =>
    rcases enqueueRaw_cases cfg s.calls lane (.unicast p) b s.shaper with
      ⟨e, _, -, hes, -⟩ | ⟨-, hglobal, -⟩ | ⟨-, -, q, hq, hroom, hrun, -⟩ | ⟨-, -, hq, -⟩
    · rw [hes] at hacc
      cases List.mem_singleton.mp hacc
    · exact absurd hglobal hscope
    · cases hq
      simp only [hrun]
      cases lane with
      | high => simp [pushPeer, Nat.not_le.mpr (hroom rfl), PeerLanes.lane]
      | low => simp [pushPeer, PeerLanes.lane]
    · cases hq

/-- A frame that is in no lane and not held, and was neither sent nor evicted, is lost. -/
theorem not_kept (hlanes : s.shaper.lanesOf p = {}) (hheld : s.pc.held = none) (hsends : sends tr = [])
    (hevicts : evicts (some p) lane tr = []) : ¬ Kept cfg cg p lane f tr s := by
  rintro (hlane | ⟨todo, hpc⟩ | ⟨g, hsend⟩ | hevict)
  · rw [hlanes] at hlane
    cases lane <;> cases hlane
  · rw [hpc] at hheld
    cases hheld
  · cases List.filterMap_eq_nil_iff.mp hsends _ hsend
  · have hnone := List.filterMap_eq_nil_iff.mp hevicts _ hevict
    simp at hnone

variable (cfg cg lane) in
/-- The prune with a stale snapshot: two steps at most, after which the lanes of the peer
are empty, though it stays connected. -/
theorem lost_of_stale (hs : Stale p s.pc) : ∃ bs tr s', Run (ConnectedStep cfg cg p) s bs tr s' ∧
    s'.shaper.lanesOf p = {} ∧ s'.pc.held = none ∧ sends tr = [] ∧ evicts (some p) lane tr = [] := by
  have hsched : Stays p (Act.sched : Act Addr) := ⟨rfl, nofun⟩
  have hprune : ∀ (s : SystemState Addr G w) peers, s.pc = .prune peers → p ∉ peers →
      ∃ es s', ConnectedStep cfg cg p s .sched es s' ∧ s'.shaper.lanesOf p = {} ∧ s'.pc.held = none ∧
        sends es = [] ∧ evicts (some p) lane es = [] := by
    intro s peers hpc hp
    refine ⟨_, _, ⟨step_of_does (.prune hpc), hsched⟩, ?_, held_afterPrune peers, rfl, rfl⟩
    exact (lanesOf_prunePeerLanes peers s.shaper p).trans (if_neg hp)
  cases hpc : s.pc with
  | refresh peers =>
    rw [hpc] at hs
    have hfirst : ConnectedStep cfg cg p s .sched [] _ := ⟨step_of_does (.refresh hpc), hsched⟩
    obtain ⟨es, s', hstep, h⟩ :=
      hprune { s with shaper := s.shaper.refreshPcPeers peers, pc := .prune peers } peers rfl hs
    exact ⟨_, _, s', .cons hfirst (.single hstep), h⟩
  | prune peers =>
    rw [hpc] at hs
    obtain ⟨es, s', hstep, h⟩ := hprune s peers hpc hs
    exact ⟨_, es, s', .single hstep, h⟩
  | _ =>
    rw [hpc] at hs
    exact hs.elim

/-- **When pruning spares a connected peer's frame.** In `PerConnection` scope, under any
strategy: a frame accepted for `p` alone while `p` is connected is accounted for after
every interleaving of further steps with `p` connected throughout, exactly if it is not
accepted between a snapshot that lacks `p` and the prune with it. -/
theorem prune_spares_iff (hscope : cfg.scope ≠ .global) (hp : p ∈ s.connected) {b : Bytes} {s₁ : SystemState Addr G w}
    (hstep : Step cfg cg s (.enqueue lane (.unicast p) b) es s₁)
    (hacc : .accepted s.calls lane (.unicast p) b ∈ es) :
    (∀ bs tr s', Run (ConnectedStep cfg cg p) s₁ bs tr s' →
      Kept cfg cg p lane (peerFrame p b s.calls) tr s') ↔ ¬ Stale p s.pc := by
  have hdoes := does_of_step hstep
  have hpc : s₁.pc = s.pc := by cases hdoes <;> rfl
  constructor
  · intro hall hs
    have hs₁ : Stale p s₁.pc := by rwa [hpc]
    obtain ⟨bs, tr, s', hrun, hlanes, hheld, hsends, hevicts⟩ := lost_of_stale cfg cg lane hs₁
    exact not_kept hlanes hheld hsends hevicts (hall bs tr s' hrun)
  · intro hs bs tr s' hrun
    have hstays : Stays p (.enqueue lane (.unicast p) b) := ⟨rfl, nofun⟩
    refine (hrun.invariant (I := fun tr s => p ∈ s.connected ∧ ¬ Stale p s.pc ∧
      Kept cfg cg p lane (peerFrame p b _) tr s)
      ⟨connected_does hstays hp hdoes, hpc ▸ hs, .inl (mem_of_accepted hscope hdoes hacc)⟩ ?_).2.2
    rintro tr s a es s' ⟨hp, hs, hk⟩ ⟨hstep, hstays⟩
    have hdoes := does_of_step hstep
    exact ⟨connected_does hstays hp hdoes, not_stale_does hp hs hdoes, hk.does hstays.1 hs hdoes⟩

/-- A frame accepted while the scheduler waits for its tick. -/
theorem prune_spares_iff_idle :
    let cfg : ShaperConfig := { scope := .perConnection true, frameSize := 32, accepted := by decide }
    let s₀ : SystemState ℕ (Stream' UInt8) 64 := .start {1} { rng := Stream'.const 1 } (Stream'.const 5)
    let b := List.replicate 32 7
    ∃ es s₁, Step cfg randomCover s₀ (.enqueue .high (.unicast 1) b) es s₁ ∧
      ∀ bs tr s', Run (ConnectedStep cfg randomCover 1) s₁ bs tr s' →
        Kept cfg randomCover 1 .high (peerFrame 1 b 0) tr s' := by
  intro cfg s₀ b
  obtain ⟨es, s₁, h⟩ : ∃ es s₁, step cfg randomCover s₀ (.enqueue .high (.unicast 1) b) = some (es, s₁) :=
    ⟨_, _, rfl⟩
  have hacc : (step cfg randomCover s₀ (.enqueue .high (.unicast 1) b)).map
      (fun x => decide (.accepted 0 .high (.unicast 1) b ∈ x.1)) = some true := by decide
  rw [h, Option.map_some, Option.some.injEq, decide_eq_true_eq] at hacc
  exact ⟨es, s₁, h, (prune_spares_iff (s := s₀) (by decide) (Finset.mem_singleton_self 1) h hacc).mpr id⟩

/-- A peer connects, and has a frame accepted, after the snapshot of a tick and before its
prune: the frame is gone, and the peer is still connected. -/
theorem prune_loses_frame :
    let cfg : ShaperConfig := { scope := .perConnection true, frameSize := 32, accepted := by decide }
    let s₀ : SystemState ℕ (Stream' UInt8) 64 := .new { rng := Stream'.const 1 } (Stream'.const 5)
    let b := List.replicate 32 7
    let acts : List (Act ℕ) := [.wake, .snapshot [], .connect 1, .enqueue .high (.unicast 1) b]
    ∃ tr s tr' s', Run (Step cfg randomCover) s₀ acts tr s ∧ .accepted 0 .high (.unicast 1) b ∈ tr ∧
      1 ∈ s.connected ∧ Run (ConnectedStep cfg randomCover 1) s [.sched, .sched] tr' s' ∧
      ¬ Kept cfg randomCover 1 .high (peerFrame 1 b 0) tr' s' := by
  intro cfg s₀ b acts
  obtain ⟨tr, s, h⟩ : ∃ tr s, exec (step cfg randomCover) s₀ acts = some (tr, s) := ⟨_, _, rfl⟩
  have hacc : (exec (step cfg randomCover) s₀ acts).map
      (fun x => decide (.accepted 0 .high (.unicast 1) b ∈ x.1 ∧ 1 ∈ x.2.connected)) = some true := by decide
  have hlost : (exec (step cfg randomCover) s₀ acts).map
      (fun x => (exec (guarded (step cfg randomCover) fun _ a => Stays 1 a) x.2 [.sched, .sched]).map
        fun y => decide (y.2.shaper.lanesOf 1 = {} ∧ y.2.pc.held = none ∧ sends y.1 = [] ∧
          evicts (some 1) .high y.1 = [])) = some (some true) := by decide
  rw [h, Option.map_some, Option.some.injEq, decide_eq_true_eq] at hacc
  rw [h, Option.map_some, Option.some.injEq, Option.map_eq_some_iff] at hlost
  obtain ⟨⟨tr', s'⟩, h', hlost⟩ := hlost
  obtain ⟨hlanes, hheld, hsends, hevicts⟩ := of_decide_eq_true hlost
  exact ⟨tr, s, tr', s', run_of_exec h, hacc.1, hacc.2, run_along_of_exec h',
    not_kept hlanes hheld hsends hevicts⟩

end Peashape.Shaping

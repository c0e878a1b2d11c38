import Peashape.Shaping.Provenance
import Peashape.Shaping.Refinement

/-!
# Passthrough

`ShapingStrategy::None` over any interleaving: what a drain sends, and what it leaves.

* `passthrough_onlyReal_iff` — a drain is said to send real frames only. In `Global` scope
  it goes through `dispatch_global`, which fills the slots of the fanout with cover when
  the frame is unicast. So a run is free of cover exactly when every dispatched frame is a
  broadcast, or a unicast to a peer in the snapshot when the tick has one slot (`Quiet`).
* `passthrough_drained` — a drain is said to leave nothing behind. In `PerConnection` scope
  it pops one frame from each peer, and the permit that woke it stands for any number of
  submissions. So a peer's lanes are empty when the scheduler goes back to sleep if
  every pop finds at most one frame, or another wake-up is on its way (`Served`). A pop
  that does neither leaves a frame behind (`unserved_leaves_frame`).
-/

namespace Peashape.Shaping

open Foundation Shaper SystemState

variable {Addr G : Type*} [DecidableEq Addr] {w : ℕ} {cfg : ShaperConfig} {cg : CoverGenerator G}
  {s s' : SystemState Addr G w} {a : Act Addr} {es tr : List (Event Addr)}

omit [DecidableEq Addr] in
theorem passthrough_of_strategy (h : cfg.strategy = .none) : passthrough cfg = true := decide_eq_true h

/-! ### No cover -/

section NoCover

omit [DecidableEq Addr] in
theorem exists_cover_mem_sendCovers_iff (targets : List Addr) (g : G) :
    (∃ c, Event.cover c ∈ (sendCovers cfg.toShapeConfig cg targets g).1) ↔ targets ≠ [] := by
  cases targets with
  | nil => simp [sendCovers]
  | cons peer targets =>
    constructor
    · exact fun _ => List.cons_ne_nil _ _
    · exact fun _ => ⟨_, List.mem_cons_self ..⟩

/-- Whether dispatching a frame with this target to these peers takes no cover: it is a
broadcast, or a unicast to one of them when the dispatch has one slot. -/
def OneSlot (cfg : ShaperConfig) (peers : List Addr) (target : Target Addr) : Prop :=
  target = .broadcast ∨ ∃ t, target = .unicast t ∧ t ∈ peers ∧ min cfg.fanout peers.length ≤ 1

variable (cfg cg) in
/-- **When a dispatch generates cover.** -/
theorem exists_cover_mem_dispatchGlobal_iff {peers : List Addr} (hne : peers ≠ []) (hnd : peers.Nodup)
    (frame : PendingFrame Addr) (g : G) (sch : Scheduler Addr w) :
    (∃ c, Event.cover c ∈ (dispatchGlobal cfg cg peers frame g sch).events) ↔ ¬ OneSlot cfg peers frame.target := by
  have hlen := List.length_pos_iff.mpr hne
  have hfan : effectiveFanout cfg peers = max (min cfg.fanout peers.length) 1 := rfl
  cases ht : frame.target with
  | broadcast => simp [dispatchGlobal, ht, OneSlot]
  | unicast t =>
    by_cases hp : t ∈ peers
    · -- cover goes to the slots that are left, if there are any
      have hcount := length_filter_ne hnd hp
      have htargets := length_pickTargets (peers.filter (· ≠ t))
        (min (effectiveFanout cfg peers - 1) (peers.filter (· ≠ t)).length) sch
      have hslot : OneSlot cfg peers (.unicast t) ↔ min cfg.fanout peers.length ≤ 1 := by
        simp [OneSlot, hp]
      simp only [dispatchGlobal, ht, hp, if_true, List.mem_cons, reduceCtorEq, false_or]
      rw [exists_cover_mem_sendCovers_iff, ← List.length_pos_iff, htargets, hslot]
      omega
    · -- cover goes to every slot, and there is one
      have htargets := length_pickTargets peers (effectiveFanout cfg peers) sch
      have hslot : ¬ OneSlot cfg peers (.unicast t) := by simp [OneSlot, hp]
      simp only [dispatchGlobal, ht, hp, if_false]
      rw [exists_cover_mem_sendCovers_iff, ← List.length_pos_iff, htargets]
      exact iff_of_true (by omega) hslot

/-- The condition on a step: what it dispatches takes no cover. -/
def Quiet (cfg : ShaperConfig) (s : SystemState Addr G w) (a : Act Addr) : Prop :=
  ∀ p ps f, a = .sched → s.pc = .dispatch p ps (some f) → OneSlot cfg (p :: ps) f.target

/-- **A step of a drain generates cover exactly if it is not quiet.** -/
theorem exists_cover_mem_iff (hpass : passthrough cfg = true) (hwf : PcWf cfg s.pc)
    (h : Does cfg cg s a es s') : (∃ c, .cover c ∈ es) ↔ ¬ Quiet cfg s a := by
  have htimed : passthrough cfg ≠ false := by rw [hpass]; exact Bool.noConfusion
  have hquiet : (∀ p ps f, ¬ (a = .sched ∧ s.pc = .dispatch p ps (some f))) → Quiet cfg s a :=
    fun hne p ps f ha hpc => absurd ⟨ha, hpc⟩ (hne p ps f)
  rcases events_does h with hes | ⟨peers, rfl, rfl⟩ | ⟨peer, frame, todo, -, hpc, rfl⟩ |
    ⟨p, ps, frame, rfl, hpc, rfl⟩
  · refine iff_of_false (fun ⟨c, hc⟩ => Bool.noConfusion (hes _ hc)) (not_not.mpr (hquiet ?_))
    rintro p ps f ⟨rfl, hpc⟩
    rw [does_dispatch hpc h] at hes
    cases hes _ (List.mem_cons_self ..)
  · exact iff_of_false (by simp) (not_not.mpr (hquiet (by simp)))
  · rw [hpc] at hwf
    cases frame with
    | none => exact absurd (hwf.2.2 rfl) htimed
    | some f => exact iff_of_false (by simp [frameToSend]) (not_not.mpr (hquiet (by simp [hpc])))
  · rw [hpc] at hwf
    obtain ⟨-, hnd, hframe⟩ := hwf
    cases frame with
    | none => exact absurd (hframe rfl) htimed
    | some f =>
      have hiff := exists_cover_mem_dispatchGlobal_iff cfg cg (List.cons_ne_nil p ps) hnd
        (finalizeReal cfg.toShapeConfig cg f s.gen).1 (finalizeReal cfg.toShapeConfig cg f s.gen).2 s.scheduler
      have hslot : Quiet cfg s .sched ↔ OneSlot cfg (p :: ps) f.target := by
        constructor
        · exact fun h => h p ps f rfl hpc
        · rintro h p' ps' f' - hpc'
          rw [hpc] at hpc'
          cases hpc'
          exact h
      rw [finalizeReal_target] at hiff
      rw [hslot, ← hiff]
      simp [dispatchTick, frameToSend]

/-- What the documentation says of a drain: it generates no cover, and everything it
hands to the writer is what `finalize_real` made of an accepted frame. -/
def OnlyReal (cfg : ShaperConfig) (cg : CoverGenerator G) (tr : List (Event Addr)) : Prop :=
  (∀ c, .cover c ∉ tr) ∧ ∀ q x, .send q x ∈ tr → ∃ n lane target b g,
    .accepted n lane target b ∈ tr ∧ x.bytes = (cg.finalizeReal cfg.toShapeConfig g b).1

/-- **When passthrough sends only real frames.** Over any interleaving under
`ShapingStrategy::None`, in either scope: exactly when every frame dispatched in `Global`
scope is a broadcast, or a unicast to a peer of its snapshot when the fanout or the
snapshot is at most one. -/
theorem passthrough_onlyReal_iff (hstrategy : cfg.strategy = .none) {sch : Scheduler Addr w} {gen : G}
    {as : List (Act Addr)} (h : Run (Step cfg cg) (.new sch gen) as tr s) :
    OnlyReal cfg cg tr ↔ Run (Along (Step cfg cg) (Quiet cfg)) (.new sch gen) as tr s := by
  have hpass := passthrough_of_strategy hstrategy
  constructor
  · -- a step that is not quiet leaves a call of `cover` in the history
    rintro ⟨hcover, -⟩
    refine Run.along (fun tr => ∀ c, Event.cover c ∉ tr) ?_ ?_ h hcover
    · intro tr es hc
      exact ⟨fun c hm => hc c (List.mem_append_left _ hm), fun c hm => hc c (List.mem_append_right _ hm)⟩
    · intro as tr s a es s' hr hstep hc
      by_contra hq
      have hwf := systemWf_run (SystemWf.new sch gen) hr
      obtain ⟨c, hm⟩ := (exists_cover_mem_iff hpass hwf.pc (does_of_step hstep)).mpr hq
      exact hc c hm
  · intro halong
    have hcover : ∀ c, Event.cover c ∉ tr := by
      refine halong.invariant_of (I := fun tr _ => ∀ c, Event.cover c ∉ tr) (J := fun _ s => SystemWf cfg s)
        (fun hr => systemWf_run (SystemWf.new sch gen) hr.of_along) (by simp) ?_
      intro tr s a es s' hwf hc hstep c hm
      rcases List.mem_append.mp hm with hm | hm
      · exact hc c hm
      · exact (exists_cover_mem_iff hpass hwf.pc (does_of_step hstep.1)).mp ⟨c, hm⟩ hstep.2
    refine ⟨hcover, fun q x hx => ?_⟩
    rcases (provenance_run h).sends q x hx with ⟨-, hc, -⟩ | ⟨n, lane, target, b, g, -, hacc, hb, -⟩
    · exact absurd hc (hcover x)
    · exact ⟨n, lane, target, b, g, hacc, hb⟩

/-- A broadcast to two peers, dispatched on the wake-up it causes. -/
theorem passthrough_onlyReal_iff_broadcast :
    let cfg : ShaperConfig := { strategy := .none, fanout := 2, frameSize := 32, accepted := by decide }
    let s₀ : SystemState ℕ (Stream' UInt8) 64 := .new { rng := Stream'.const 1 } (Stream'.const 5)
    let acts : List (Act ℕ) :=
      [.connect 1, .connect 2, .enqueue .low .broadcast (List.replicate 32 7), .producer 0, .wake,
        .snapshot [1, 2], .sched, .sched, .sched]
    ∃ tr s, Run (Step cfg randomCover) s₀ acts tr s ∧
      (OnlyReal cfg randomCover tr ↔ Run (Along (Step cfg randomCover) (Quiet cfg)) s₀ acts tr s) := by
  intro cfg s₀ acts
  obtain ⟨tr, s, h⟩ : ∃ tr s, exec (step cfg randomCover) s₀ acts = some (tr, s) := ⟨_, _, rfl⟩
  exact ⟨tr, s, run_of_exec h, passthrough_onlyReal_iff rfl (run_of_exec h)⟩

/-- A unicast to one of two peers, with two slots: the other one is filled with cover. -/
theorem passthrough_sends_cover :
    let cfg : ShaperConfig := { strategy := .none, fanout := 2, frameSize := 32, accepted := by decide }
    let s₀ : SystemState ℕ (Stream' UInt8) 64 := .new { rng := Stream'.const 1 } (Stream'.const 5)
    let acts : List (Act ℕ) :=
      [.connect 1, .connect 2, .enqueue .high (.unicast 1) (List.replicate 32 7), .producer 0, .wake,
        .snapshot [1, 2], .sched, .sched]
    let c : PendingFrame ℕ := ⟨List.replicate 32 5, .broadcast, .cover⟩
    ∃ tr s, Run (Step cfg randomCover) s₀ acts tr s ∧ .cover c ∈ tr ∧ .send 2 c ∈ tr ∧
      ¬ OnlyReal cfg randomCover tr := by
  intro cfg s₀ acts c
  obtain ⟨tr, s, h⟩ : ∃ tr s, exec (step cfg randomCover) s₀ acts = some (tr, s) := ⟨_, _, rfl⟩
  have hmem : (exec (step cfg randomCover) s₀ acts).map (fun x => decide (.cover c ∈ x.1 ∧ .send 2 c ∈ x.1)) =
      some true := by decide
  rw [h, Option.map_some, Option.some.injEq, decide_eq_true_eq] at hmem
  exact ⟨tr, s, run_of_exec h, hmem.1, hmem.2, fun hreal => hreal.1 c hmem.1⟩

end NoCover

/-! ### Nothing left behind -/

section Drained

variable {p : Addr}

/-- Whether the scheduler is going to pop from the lanes of `p` before it sleeps, if `p`
is connected. -/
def WillVisit (p : Addr) : Pc Addr → Prop
  | .woken | .refresh _ | .prune _ | .walk => True
  | .visit peer todo => p = peer ∨ p ∈ todo
  | .deliver _ _ todo => p ∈ todo
  | _ => False

/-- The snapshot, and the cache made from it, have `p`. -/
def Knows (p : Addr) (cached : List Addr) : Pc Addr → Prop
  | .refresh peers => p ∈ peers
  | .prune peers => p ∈ peers ∧ p ∈ cached
  | .walk => p ∈ cached
  | _ => True

omit [DecidableEq Addr] in
theorem willVisit_visitNext (todo : List Addr) : WillVisit p (visitNext todo) ↔ p ∈ todo := by
  cases todo with
  | nil => simp [visitNext, WillVisit]
  | cons peer todo => simp [visitNext, WillVisit]

/-- The condition on a step: a pop from the lanes of `p` finds at most one frame, or a
permit is stored, or a thread is about to store one. -/
def Served (p : Addr) (s : SystemState Addr G w) (a : Act Addr) : Prop :=
  match a, s.pc with
  | .sched, .visit peer _ => peer = p →
    (s.shaper.lanesOf p).high.length + (s.shaper.lanesOf p).low.length ≤ 1 ∨ s.permit = true ∨
      .notify ∈ s.producers
  | _, _ => True

instance (s : SystemState Addr G w) (a : Act Addr) : Decidable (Served p s a) := by
  unfold Served
  split <;> infer_instance

/-- **The invariant**: a frame for `p` never waits without a wake-up or a visit to come. -/
structure Awaited (p : Addr) (s : SystemState Addr G w) : Prop where
  /-- The peer is connected. -/
  connected : p ∈ s.connected
  /-- The scheduler knows it. -/
  knows : Knows p s.shaper.pcPeers s.pc
  /-- Its lanes are empty, or the scheduler is going to look at them. -/
  pending : s.shaper.lanesOf p = {} ∨ s.permit = true ∨ .notify ∈ s.producers ∨ WillVisit p s.pc

omit [DecidableEq Addr] in
theorem knows_visitNext {cached : List Addr} (todo : List Addr) : Knows p cached (visitNext todo) := by
  cases todo <;> trivial

omit [DecidableEq Addr] in
theorem knows_afterVisit {cached : List Addr} (peer : Addr) (todo : List Addr)
    (frame : Option (PendingFrame Addr)) : Knows p cached (afterVisit cfg peer todo frame) := by
  cases frame with
  | none =>
    simp only [afterVisit]
    split_ifs
    · exact knows_visitNext todo
    · trivial
  | some f => trivial

omit [DecidableEq Addr] in
/-- The visits to come are still to come after a visit. -/
theorem willVisit_afterVisit (hpass : passthrough cfg = true) {todo : List Addr} (hp : p ∈ todo) (peer : Addr)
    (frame : Option (PendingFrame Addr)) : WillVisit p (afterVisit cfg peer todo frame) := by
  cases frame with
  | none =>
    simp only [afterVisit, hpass, if_true]
    exact (willVisit_visitNext todo).mpr hp
  | some f => exact hp

omit [DecidableEq Addr] in
/-- A drain in `PerConnection` scope does not pick, and does not pop from the shared lanes. -/
theorem elsewhere (hpass : passthrough cfg = true) (hscope : cfg.scope ≠ .global) (hwf : PcWf cfg s.pc) :
    (∀ p ps, s.pc ≠ .pick p ps) ∧ (∀ p ps, s.pc ≠ .popHigh p ps) ∧ (∀ p ps, s.pc ≠ .popLow p ps) ∧
      ∀ p ps frame, s.pc ≠ .dispatch p ps frame := by
  refine ⟨fun p ps hpc => ?_, fun p ps hpc => ?_, fun p ps hpc => ?_, fun p ps frame hpc => ?_⟩ <;>
    rw [hpc] at hwf
  · have htimed := hwf.2.2
    rw [hpass] at htimed
    cases htimed
  · exact hscope hwf.1
  · exact hscope hwf.1
  · exact hscope hwf.1

/-- The snapshot and the cache have `p` after every step that keeps it connected. -/
theorem knows_does (hpass : passthrough cfg = true) (hscope : cfg.scope ≠ .global) (hs : Stays p a)
    (hp : p ∈ s.connected) (hk : Knows p s.shaper.pcPeers s.pc) (hwf : PcWf cfg s.pc)
    (h : Does cfg cg s a es s') : Knows p s'.shaper.pcPeers s'.pc := by
  cases h with
  | enqueue _ => simpa only [pcPeers_enqueueRaw] using hk
  | fan _ => simpa only [pcPeers_fanOutTo] using hk
  | @snapshot peers _ hnd hsnap =>
    have hmem : p ∈ peers := by rw [← List.mem_toFinset, hsnap]; exact hp
    simp only [afterSnapshot_perConnection hscope]
    exact hmem
  | refresh hpc =>
    rw [hpc] at hk
    exact ⟨hk, hk⟩
  | @prune peers hpc =>
    rw [hpc] at hk
    cases peers with
    | nil => cases hk.1
    | cons q qs =>
      simp only [afterPrune, hpass, if_true, pcPeers_prunePeerLanes]
      exact hk.2
  | walk _ => exact knows_visitNext _
  | visit _ => exact knows_afterVisit _ _ _
  | deliver _ => exact knows_visitNext _
  | pick hpc => exact ((elsewhere hpass hscope hwf).1 _ _ hpc).elim
  | popHigh hpc => exact ((elsewhere hpass hscope hwf).2.1 _ _ hpc).elim
  | popLow hpc => exact ((elsewhere hpass hscope hwf).2.2.1 _ _ hpc).elim
  | dispatch hpc => exact ((elsewhere hpass hscope hwf).2.2.2 _ _ _ hpc).elim
  | refreshPcPeers => exact absurd hs.1 Bool.noConfusion
  | prunePeerLanes => exact absurd hs.1 Bool.noConfusion
  | tick => trivial
  | consume => trivial
  | _ => exact hk

/-- A pop from lanes with at most one frame leaves them empty. -/
theorem lanesOf_nextFrameFor_of_le_one {sh : Shaper Addr}
    (h : (sh.lanesOf p).high.length + (sh.lanesOf p).low.length ≤ 1) : (sh.nextFrameFor p).2.lanesOf p = {} := by
  rcases nextFrameFor_cases p sh with ⟨f, high, low, hl, hn⟩ | ⟨f, low, hl, hn⟩ | ⟨hl, hn⟩
  · rw [hl] at h
    simp only [List.length_cons] at h
    obtain rfl : high = [] := List.eq_nil_of_length_eq_zero (by omega)
    obtain rfl : low = [] := List.eq_nil_of_length_eq_zero (by omega)
    simp [hn]
  · rw [hl] at h
    simp only [List.length_cons, List.length_nil] at h
    obtain rfl : low = [] := List.eq_nil_of_length_eq_zero (by omega)
    simp [hn]
  · simp only [hn, hl]

/-- **Frames for `p` are still awaited after every step** whose pops from its lanes are
served. -/
theorem pending_does (hpass : passthrough cfg = true) (hscope : cfg.scope ≠ .global) (hs : Stays p a)
    (hserved : Served p s a) (hi : Awaited p s) (hwf : PcWf cfg s.pc) (h : Does cfg cg s a es s') :
    s'.shaper.lanesOf p = {} ∨ s'.permit = true ∨ .notify ∈ s'.producers ∨ WillVisit p s'.pc := by
  obtain ⟨hp, hk, hpend⟩ := hi
  cases h with
  | @enqueue lane target frame _ =>
    by_cases hsize : frame.length = cfg.frameSize
    · exact .inr (.inr (.inl (by simp [hsize])))
    · -- a frame of the wrong size leaves everything as it is
      simpa only [enqueueRaw_of_size_ne hsize, hsize, if_false, List.append_nil] using hpend
  | clone _ =>
    rcases hpend with h | h | h | h
    · exact .inl h
    · exact .inr (.inl h)
    · exact .inr (.inr (.inl (List.mem_append_left _ h)))
    · exact .inr (.inr (.inr h))
  | @fan i lane frame peers hprod =>
    have hlt : i < s.producers.length := (List.getElem?_eq_some_iff.mp hprod).1
    exact .inr (.inr (.inl (List.mem_iff_getElem?.mpr ⟨i, by simp [hlt]⟩)))
  | notify _ => exact .inr (.inl rfl)
  | tick _ htimed => exact absurd hpass (by rw [htimed]; exact Bool.noConfusion)
  | consume _ _ _ => exact .inr (.inr (.inr trivial))
  | snapshot _ _ _ =>
    simp only [afterSnapshot_perConnection hscope]
    exact .inr (.inr (.inr trivial))
  | refresh _ => exact .inr (.inr (.inr trivial))
  | @prune peers hpc =>
    rw [hpc] at hk
    refine .inr (.inr (.inr ?_))
    cases peers with
    | nil => cases hk.1
    | cons q qs =>
      simp only [afterPrune, hpass, if_true]
      trivial
  | walk hpc =>
    rw [hpc] at hk
    exact .inr (.inr (.inr ((willVisit_visitNext _).mpr hk)))
  | @visit peer todo hpc =>
    by_cases hq : p = peer
    · subst hq
      have hpop := hserved
      simp only [Served, hpc, forall_const] at hpop
      rcases hpop with hone | h | h
      · exact .inl (lanesOf_nextFrameFor_of_le_one hone)
      · exact .inr (.inl h)
      · exact .inr (.inr (.inl h))
    · rw [hpc] at hpend
      simp only [lanesOf_nextFrameFor_of_ne hq]
      refine hpend.imp_right (Or.imp_right (Or.imp_right fun hv => ?_))
      have htodo : p ∈ todo := hv.resolve_left hq
      exact willVisit_afterVisit hpass htodo peer _
  | @deliver peer frame todo hpc =>
    rw [hpc] at hpend
    exact hpend.imp_right (Or.imp_right (Or.imp_right (willVisit_visitNext todo).mpr))
  | pick hpc => exact ((elsewhere hpass hscope hwf).1 _ _ hpc).elim
  | popHigh hpc => exact ((elsewhere hpass hscope hwf).2.1 _ _ hpc).elim
  | popLow hpc => exact ((elsewhere hpass hscope hwf).2.2.1 _ _ hpc).elim
  | dispatch hpc => exact ((elsewhere hpass hscope hwf).2.2.2 _ _ _ hpc).elim
  | refreshPcPeers => exact absurd hs.1 Bool.noConfusion
  | prunePeerLanes => exact absurd hs.1 Bool.noConfusion
  | connect => exact hpend
  | disconnect => exact hpend

/-- The steps of passthrough with `p` connected throughout, whose pops from the lanes of
`p` are served. -/
def ServedStep (cfg : ShaperConfig) (cg : CoverGenerator G) (p : Addr) :
    SystemState Addr G w → Act Addr → List (Event Addr) → SystemState Addr G w → Prop :=
  Along (Step cfg cg) fun s a => Stays p a ∧ Served p s a

/-- **When passthrough leaves nothing behind.** Under `ShapingStrategy::None` and
`PerConnection` scope, with `p` connected throughout, over any interleaving in which every
pop from the lanes of `p` is served: whenever the scheduler sleeps without a permit and no
submission is between its push and its notification, the lanes of `p` are empty. -/
theorem passthrough_drained (hstrategy : cfg.strategy = .none) (hscope : cfg.scope ≠ .global)
    {connected : Finset Addr} (hp : p ∈ connected) {sch : Scheduler Addr w} {gen : G} {as : List (Act Addr)}
    (h : Run (ServedStep cfg cg p) (start connected sch gen) as tr s) (hidle : s.pc = .idle)
    (hpermit : s.permit = false) (hnotify : .notify ∉ s.producers) : s.shaper.lanesOf p = {} := by
  have hpass := passthrough_of_strategy hstrategy
  have hinv : SystemWf cfg s ∧ Awaited p s := by
    refine h.invariant (I := fun _ s => SystemWf cfg s ∧ Awaited p s)
      ⟨SystemWf.start connected sch gen, ⟨hp, trivial, .inl rfl⟩⟩ ?_
    rintro tr s a es s' ⟨hwf, hi⟩ ⟨hstep, hs, hserved⟩
    have hdoes := does_of_step hstep
    exact ⟨hwf.does hdoes, connected_does hs hi.connected hdoes,
      knows_does hpass hscope hs hi.connected hi.knows hwf.pc hdoes,
      pending_does hpass hscope hs hserved hi hwf.pc hdoes⟩
  rcases hinv.2.pending with h | h | h | h
  · exact h
  · rw [hpermit] at h
    cases h
  · exact absurd h hnotify
  · rw [hidle] at h
    exact h.elim

/-- One frame, and a wake-up for it. -/
theorem passthrough_drained_one :
    let cfg : ShaperConfig :=
      { strategy := .none, scope := .perConnection true, frameSize := 32, accepted := by decide }
    let s₀ : SystemState ℕ (Stream' UInt8) 64 := .start {1} { rng := Stream'.const 1 } (Stream'.const 5)
    let acts : List (Act ℕ) :=
      [.enqueue .high (.unicast 1) (List.replicate 32 7), .producer 0, .wake, .snapshot [1],
        .sched, .sched, .sched, .sched, .sched]
    ∃ tr s, Run (ServedStep cfg randomCover 1) s₀ acts tr s ∧ s.shaper.lanesOf 1 = {} := by
  intro cfg s₀ acts
  obtain ⟨tr, s, h⟩ : ∃ tr s, exec (guarded (step cfg randomCover) fun s a => Stays 1 a ∧ Served 1 s a) s₀ acts =
    some (tr, s) := ⟨_, _, rfl⟩
  have hend : (exec (guarded (step cfg randomCover) fun s a => Stays 1 a ∧ Served 1 s a) s₀ acts).map
      (fun x => decide (x.2.pc = .idle ∧ x.2.permit = false ∧ .notify ∉ x.2.producers)) = some true := by decide
  rw [h, Option.map_some, Option.some.injEq, decide_eq_true_eq] at hend
  obtain ⟨hidle, hpermit, hnotify⟩ := hend
  have hrun := run_along_of_exec h
  exact ⟨tr, s, hrun, passthrough_drained rfl (by decide) (Finset.mem_singleton_self 1) hrun hidle hpermit hnotify⟩

/-- Two frames for one peer, accepted before the scheduler wakes: both notifications make
one permit, the drain pops one frame, and the other one stays. -/
theorem passthrough_leaves_frame :
    let cfg : ShaperConfig :=
      { strategy := .none, scope := .perConnection true, frameSize := 32, accepted := by decide }
    let s₀ : SystemState ℕ (Stream' UInt8) 64 := .start {1} { rng := Stream'.const 1 } (Stream'.const 5)
    let acts : List (Act ℕ) :=
      [.enqueue .high (.unicast 1) (List.replicate 32 7), .enqueue .high (.unicast 1) (List.replicate 32 8),
        .producer 0, .producer 0, .wake, .snapshot [1], .sched, .sched, .sched, .sched, .sched]
    ∃ tr s, Run (Step cfg randomCover) s₀ acts tr s ∧ 1 ∈ s.connected ∧ s.pc = .idle ∧ s.permit = false ∧
      s.producers = [] ∧ s.shaper.lanesOf 1 ≠ {} := by
  intro cfg s₀ acts
  obtain ⟨tr, s, h⟩ : ∃ tr s, exec (step cfg randomCover) s₀ acts = some (tr, s) := ⟨_, _, rfl⟩
  have hend : (exec (step cfg randomCover) s₀ acts).map (fun x => decide (1 ∈ x.2.connected ∧ x.2.pc = .idle ∧
      x.2.permit = false ∧ x.2.producers = [] ∧ x.2.shaper.lanesOf 1 ≠ {})) = some true := by decide
  rw [h, Option.map_some, Option.some.injEq, decide_eq_true_eq] at hend
  exact ⟨tr, s, run_of_exec h, hend⟩

/-! ### A pop that is not served -/

/-- A walk visits no peer twice. -/
def OnceEach : Pc Addr → Prop
  | .refresh peers | .prune peers => peers.Nodup
  | .visit peer todo => (peer :: todo).Nodup
  | .deliver _ _ todo => todo.Nodup
  | _ => True

omit [DecidableEq Addr] in
theorem onceEach_visitNext {todo : List Addr} (h : todo.Nodup) : OnceEach (visitNext todo) := by
  cases todo with
  | nil => trivial
  | cons peer todo => exact h

/-- The snapshot has no duplicates, and so neither the cache made from it nor a walk. -/
theorem onceEach_does (hpass : passthrough cfg = true) (hscope : cfg.scope ≠ .global) (hown : a.own = true)
    (hi : s.shaper.pcPeers.Nodup ∧ OnceEach s.pc) (h : Does cfg cg s a es s') :
    s'.shaper.pcPeers.Nodup ∧ OnceEach s'.pc := by
  obtain ⟨hcache, hpc⟩ := hi
  cases h with
  | enqueue _ => exact ⟨by rwa [pcPeers_enqueueRaw], hpc⟩
  | fan _ => exact ⟨by rwa [pcPeers_fanOutTo], hpc⟩
  | snapshot _ hnd _ =>
    simp only [afterSnapshot_perConnection hscope]
    exact ⟨hcache, hnd⟩
  | refresh h =>
    rw [h] at hpc
    exact ⟨hpc, hpc⟩
  | @prune peers _ =>
    refine ⟨by rwa [pcPeers_prunePeerLanes], ?_⟩
    cases peers with
    | nil => trivial
    | cons q qs =>
      simp only [afterPrune, hpass, if_true]
      trivial
  | walk _ => exact ⟨hcache, onceEach_visitNext hcache⟩
  | @visit peer todo h =>
    rw [h] at hpc
    refine ⟨by rwa [pcPeers_nextFrameFor], ?_⟩
    cases (s.shaper.nextFrameFor peer).1 with
    | none =>
      simp only [afterVisit, hpass, if_true]
      exact onceEach_visitNext hpc.of_cons
    | some f => exact hpc.of_cons
  | deliver h =>
    rw [h] at hpc
    exact ⟨hcache, onceEach_visitNext hpc⟩
  | pick _ => exact ⟨hcache, List.nodup_singleton _⟩
  | popHigh _ => exact ⟨hcache, by cases s.shaper.popHigh.1 <;> trivial⟩
  | popLow _ =>
    refine ⟨hcache, ?_⟩
    cases s.shaper.popLow.1 with
    | none =>
      simp only [afterPopLow, hpass, if_true]
      trivial
    | some f => trivial
  | dispatch _ =>
    simp only [afterDispatch, hpass, if_true]
    exact ⟨hcache, trivial⟩
  | tick => exact ⟨hcache, trivial⟩
  | consume => exact ⟨hcache, trivial⟩
  | refreshPcPeers => cases hown
  | prunePeerLanes => cases hown
  | _ => exact ⟨hcache, hpc⟩

/-- The rest of a walk leaves the lanes of a peer it does not visit alone. -/
theorem lanesOf_drainPeers : ∀ {todo : List Addr} (n : NodeState Addr G w), p ∉ todo →
    (drainPeers cfg cg todo n).2.shaper.lanesOf p = n.shaper.lanesOf p
  | [], _, _ => rfl
  | peer :: todo, n, hp => by
    obtain ⟨hne, hp⟩ := not_or.mp (List.mem_cons.not.mp hp)
    have hpop := lanesOf_nextFrameFor_of_ne hne n.shaper
    unfold drainPeers
    split <;> rename_i hn <;> rw [hn] at hpop
    · exact (lanesOf_drainPeers _ hp).trans hpop
    · exact (lanesOf_drainPeers _ hp).trans hpop

theorem lanesOf_drainPeers_cons {todo : List Addr} (n : NodeState Addr G w) (hp : p ∉ todo) :
    (drainPeers cfg cg (p :: todo) n).2.shaper.lanesOf p = (n.shaper.nextFrameFor p).2.lanesOf p := by
  unfold drainPeers
  split <;> rename_i hn <;> rw [hn]
  · exact lanesOf_drainPeers _ hp
  · exact lanesOf_drainPeers _ hp

/-- A pop takes one frame. -/
theorem lanesOf_nextFrameFor_ne {sh : Shaper Addr} (h : 1 < (sh.lanesOf p).high.length + (sh.lanesOf p).low.length) :
    (sh.nextFrameFor p).2.lanesOf p ≠ {} := by
  rcases nextFrameFor_cases p sh with ⟨f, high, low, hl, hn⟩ | ⟨f, low, hl, hn⟩ | ⟨hl, hn⟩
  · rw [hl] at h
    rw [hn, lanesOf_setLanes]
    rintro ⟨⟩
    simp at h
  · rw [hl] at h
    rw [hn, lanesOf_setLanes]
    rintro ⟨⟩
    simp at h
  · rw [hl] at h
    simp at h

/-- **A pop that is not served leaves a frame behind**: the scheduler alone goes on to sleep
without a permit, no submission is between its push and its notification, and the lanes of
`p` are not empty. -/
theorem unserved_leaves_frame (hstrategy : cfg.strategy = .none) (hscope : cfg.scope ≠ .global)
    {connected : Finset Addr} {sch : Scheduler Addr w} {gen : G} {as : List (Act Addr)}
    (h : Run (Along (Step cfg cg) fun _ a => Stays p a) (start connected sch gen) as tr s)
    (hs : ¬ Served p s .sched) :
    ∃ k es s', Run (Step cfg cg) s (List.replicate k .sched) es s' ∧ s'.pc = .idle ∧ s'.permit = false ∧
      .notify ∉ s'.producers ∧ s'.shaper.lanesOf p ≠ {} := by
  have hpass := passthrough_of_strategy hstrategy
  obtain ⟨-, honce⟩ : s.shaper.pcPeers.Nodup ∧ OnceEach s.pc := by
    have hstart : (start connected sch gen : SystemState Addr G w).shaper.pcPeers.Nodup ∧
        OnceEach (start connected sch gen : SystemState Addr G w).pc := ⟨List.nodup_nil, trivial⟩
    apply h.invariant (I := fun _ s => s.shaper.pcPeers.Nodup ∧ OnceEach s.pc) hstart
    rintro tr s a es s' hi ⟨hstep, hstays⟩
    exact onceEach_does hpass hscope hstays.1 hi (does_of_step hstep)
  -- not served: the scheduler is at `p`, and finds more than one frame
  simp only [Served] at hs
  split at hs
  · rename_i peer todo _ hpc
    simp only [not_forall, not_or, not_le, Bool.not_eq_true] at hs
    obtain ⟨rfl, hmany, hpermit, hnotify⟩ := hs
    rw [hpc] at honce
    obtain ⟨k, hrun⟩ : SchedRun cfg cg s _ _ := schedRun_drainPeers hpass (peer :: todo) hpc
    refine ⟨k, _, _, hrun, rfl, hpermit, hnotify, ?_⟩
    have hlanes : (drainPeers cfg cg (peer :: todo) s.toNodeState).2.shaper.lanesOf peer = _ :=
      lanesOf_drainPeers_cons s.toNodeState (List.nodup_cons.mp honce).1
    simp only [finish, hlanes]
    exact lanesOf_nextFrameFor_ne hmany
  · exact absurd trivial hs

end Drained

end Peashape.Shaping

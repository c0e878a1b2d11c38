import Peashape.Shaping.ConstantSize

/-!
# Noninterference in `PerConnection` scope

What a passive observer sees of a tick is whom it sends to and how many bytes (`wire`).
Under `PerConnection` scope this is decided by the snapshots of the connected peers and
the random offsets alone: `perConnection_noninterference` compares two runs with the same
ticks and any two sequences of other calls between them, failing ones included.

The argument is by unwinding (`Foundation.observe_eq_low`). The low part of the state is
the scheduler's memory; no call but a tick touches it, and a tick picks its peer from it
and the snapshot, before any lane is looked at. The lanes decide whether the one frame is
real or cover, and both have `frame_size` bytes.
-/

namespace Peashape.Shaping

open Foundation Shaper

variable {Addr G : Type*} [DecidableEq Addr] {w : ℕ} {cfg : ShaperConfig} {cg : CoverGenerator G}

/-- What an observer of the links sees: recipients and sizes, in order. -/
def wire (es : List (Event Addr)) : List (Addr × ℕ) := (sends es).map fun x => (x.1, x.2.bytes.length)

/-- What each tick among the calls leaves in the history. -/
def ticks (cfg : ShaperConfig) (cg : CoverGenerator G) (s : NodeState Addr G w) (ops : List (Op Addr)) :
    List (List (Event Addr)) :=
  observe (NodeState.exec cfg cg) Op.snapshot? id s ops

/-- **One frame a tick**: with peers connected, one of them is sent one frame of
`frame_size` bytes, the result of the tick's one call of the generator; without peers
nothing happens. -/
def OneFrame (cfg : ShaperConfig) (peers : List Addr) (es : List (Event Addr)) : Prop :=
  (peers = [] ∧ sends es = [] ∧ genResults es = []) ∨
    ∃ p ∈ peers, ∃ f, sends es = [(p, f)] ∧ genResults es = [f] ∧ f.bytes.length = cfg.frameSize

/-- A tick, as far as the observer is concerned: it has no lanes. -/
def wireTick (cfg : ShaperConfig) (randomize : Bool) (sch : Scheduler Addr w) :
    List Addr → List (Addr × ℕ) × Scheduler Addr w
  | [] => ([], sch)
  | p :: ps =>
    let (peer, sch) := sch.pickRoundRobin p ps randomize
    ([(peer, cfg.frameSize)], sch)

/-! ### What a tick does -/

omit [DecidableEq Addr] in
theorem mem_pickRoundRobin (p : Addr) (ps : List Addr) (randomize : Bool) (sch : Scheduler Addr w) :
    (sch.pickRoundRobin p ps randomize).1 ∈ p :: ps :=
  List.get_mem _ _

variable (cg) in
/-- The tick of `PerConnection` scope with peers connected, taken apart: the picked peer is
sent one frame, finalized if a frame was queued for it and cover if not. -/
theorem sendOne_perConnection {randomize : Bool} (hscope : cfg.scope = .perConnection randomize) (p : Addr)
    (ps : List Addr) (s : NodeState Addr G w) :
    let picked := s.scheduler.pickRoundRobin p ps randomize
    let pruned := (s.shaper.refreshPcPeers (p :: ps)).prunePeerLanes (p :: ps)
    let frame := (pruned.nextFrameFor picked.1).1
    let result := (frameToSend cfg cg frame s.gen).1
    sends (sendOne cfg cg (p :: ps) s).1 = [(picked.1, result)] ∧
      genResults (sendOne cfg cg (p :: ps) s).1 = [result] ∧
      (sendOne cfg cg (p :: ps) s).2.scheduler = picked.2 := by
  intro picked pruned frame result
  have h1 : sends (pruned.nextFrameForEvents picked.1) = [] ∧ genResults (pruned.nextFrameForEvents picked.1) = [] :=
    reads_of_ofShaper ofShaper_nextFrameForEvents
  have h2 := reads_of_ofShaper (ofShaper_prunePeerLanesEvents (p :: ps) (s.shaper.refreshPcPeers (p :: ps)))
  have hes : (sendOne cfg cg (p :: ps) s).1 =
      [.snapshot (p :: ps)] ++ (s.shaper.refreshPcPeers (p :: ps)).prunePeerLanesEvents (p :: ps) ++
        pruned.nextFrameForEvents picked.1 ++ [(frameToSend cfg cg frame s.gen).2.1, .send picked.1 result] := by
    simp only [sendOne, hscope]
    rfl
  have hcall : genResults [(frameToSend cfg cg frame s.gen).2.1, .send picked.1 result] = [result] ∧
      sends [(frameToSend cfg cg frame s.gen).2.1, .send picked.1 result] = [(picked.1, result)] := by
    simp only [result]
    cases frame <;> exact ⟨rfl, rfl⟩
  refine ⟨?_, ?_, ?_⟩
  · rw [hes, sends_append, sends_append, sends_append, h1.1, h2.1, hcall.2]
    rfl
  · rw [hes, genResults_append, genResults_append, genResults_append, h1.2, h2.2, hcall.1]
    rfl
  · simp only [sendOne, hscope]
    rfl

variable (cg) in
/-- The tick of `PerConnection` scope without peers. -/
theorem sendOne_perConnection_nil {randomize : Bool} (hscope : cfg.scope = .perConnection randomize)
    (s : NodeState Addr G w) :
    sends (sendOne cfg cg [] s).1 = [] ∧ genResults (sendOne cfg cg [] s).1 = [] ∧
      (sendOne cfg cg [] s).2.scheduler = s.scheduler := by
  have h := reads_of_ofShaper (ofShaper_prunePeerLanesEvents [] (s.shaper.refreshPcPeers []))
  simp only [sendOne, hscope]
  exact ⟨h.1, h.2, trivial⟩

/-- **One frame a tick, whatever is queued.** -/
theorem oneFrame_sendOne {randomize : Bool} (hscope : cfg.scope = .perConnection randomize)
    (hcg : cg.Sized cfg.toShapeConfig) {s : NodeState Addr G w} (hs : ShaperWf cfg s.shaper)
    (peers : List Addr) : OneFrame cfg peers (sendOne cfg cg peers s).1 := by
  cases peers with
  | nil =>
    obtain ⟨h1, h2, -⟩ := sendOne_perConnection_nil cg hscope s
    exact .inl ⟨rfl, h1, h2⟩
  | cons p ps =>
    obtain ⟨h1, h2, -⟩ := sendOne_perConnection cg hscope p ps s
    have hsize := (wf_sendOne hcg (p :: ps) hs).2
    refine .inr ⟨_, mem_pickRoundRobin p ps randomize s.scheduler, _, h1, h2, ?_⟩
    exact hsize _ (by rw [h1]; exact List.mem_singleton_self _)

/-- A tick looks like the tick without lanes, and moves the scheduler's memory like it. -/
theorem wire_sendOne {randomize : Bool} (hscope : cfg.scope = .perConnection randomize)
    (hcg : cg.Sized cfg.toShapeConfig) {s : NodeState Addr G w} (hs : ShaperWf cfg s.shaper)
    (peers : List Addr) :
    wire (sendOne cfg cg peers s).1 = (wireTick cfg randomize s.scheduler peers).1 ∧
      (sendOne cfg cg peers s).2.scheduler = (wireTick cfg randomize s.scheduler peers).2 := by
  cases peers with
  | nil =>
    obtain ⟨h1, -, h3⟩ := sendOne_perConnection_nil cg hscope s
    exact ⟨by rw [wire, h1]; rfl, h3⟩
  | cons p ps =>
    obtain ⟨h1, -, h3⟩ := sendOne_perConnection cg hscope p ps s
    have hsize := (wf_sendOne hcg (p :: ps) hs).2 _ (by rw [h1]; exact List.mem_singleton_self _)
    refine ⟨?_, h3⟩
    rw [wire, h1, List.map_singleton, hsize]
    rfl

/-! ### Other calls do not touch the scheduler -/

theorem scheduler_drainPeers : ∀ (peers : List Addr) (s : NodeState Addr G w),
    (drainPeers cfg cg peers s).2.scheduler = s.scheduler
  | [], _ => rfl
  | peer :: peers, s => by
    unfold drainPeers
    split
    · exact scheduler_drainPeers peers _
    · exact scheduler_drainPeers peers _

/-- A call that is not a tick leaves the scheduler's memory alone. -/
theorem scheduler_exec {randomize : Bool} (hscope : cfg.scope = .perConnection randomize)
    (s : NodeState Addr G w) {op : Op Addr} (h : op.snapshot? = none) :
    (s.exec cfg cg op).2.scheduler = s.scheduler := by
  cases op with
  | sendOne peers => cases h
  | drainPassthrough peers =>
    simp only [NodeState.exec, drainPassthrough, hscope]
    cases peers with
    | nil => rfl
    | cons p ps => exact scheduler_drainPeers _ _
  | _ => rfl

/-! ### Two runs -/

/-- The observations of a run are those of the machine without lanes on its snapshots. -/
theorem map_wire_ticks {randomize : Bool} (hscope : cfg.scope = .perConnection randomize)
    (hcg : cg.Sized cfg.toShapeConfig) {s : NodeState Addr G w} (hs : ShaperWf cfg s.shaper)
    (ops : List (Op Addr)) :
    (ticks cfg cg s ops).map wire =
      observeLow (wireTick cfg randomize) s.scheduler (ops.filterMap Op.snapshot?) := by
  rw [ticks, map_observe]
  refine observe_eq_low NodeState.scheduler (I := fun s => ShaperWf cfg s.shaper)
    (fun {s a} hs => (wf_exec hcg hs a).1) (fun {s a} _ ha => scheduler_exec hscope s ha) ?_ hs
  intro s op peers hs hop
  cases op <;> cases hop
  exact wire_sendOne hscope hcg hs peers

/-- Every tick of a run sends one frame. -/
theorem forall₂_oneFrame {randomize : Bool} (hscope : cfg.scope = .perConnection randomize)
    (hcg : cg.Sized cfg.toShapeConfig) {s : NodeState Addr G w} (hs : ShaperWf cfg s.shaper)
    (ops : List (Op Addr)) :
    List.Forall₂ (OneFrame cfg) (ops.filterMap Op.snapshot?) (ticks cfg cg s ops) := by
  refine forall₂_observe (I := fun s => ShaperWf cfg s.shaper)
    (fun {s a} hs => (wf_exec hcg hs a).1) ?_ hs
  intro s op peers hs hop
  cases op <;> cases hop
  exact oneFrame_sendOne hscope hcg hs peers

/-- **Noninterference.** From a new node, with the same random offsets and the same
snapshots at the ticks, and any other calls before, between and after them: tick by tick
both runs send one frame of `frame_size` bytes to the same peer, the result of the tick's
one call of the generator, or nothing if the snapshot is empty. -/
theorem perConnection_noninterference {randomize : Bool} (hscope : cfg.scope = .perConnection randomize)
    (hcg : cg.Sized cfg.toShapeConfig) (sch : Scheduler Addr w) (gen : G) {as bs : List (Op Addr)}
    (h : as.filterMap Op.snapshot? = bs.filterMap Op.snapshot?) :
    (ticks cfg cg (.new sch gen) as).map wire = (ticks cfg cg (.new sch gen) bs).map wire ∧
      List.Forall₂ (OneFrame cfg) (as.filterMap Op.snapshot?) (ticks cfg cg (.new sch gen) as) ∧
      List.Forall₂ (OneFrame cfg) (bs.filterMap Op.snapshot?) (ticks cfg cg (.new sch gen) bs) := by
  have hs : ShaperWf cfg (NodeState.new sch gen).shaper := ShaperWf.new
  refine ⟨?_, forall₂_oneFrame hscope hcg hs as, forall₂_oneFrame hscope hcg hs bs⟩
  rw [map_wire_ticks hscope hcg hs as, map_wire_ticks hscope hcg hs bs, h]

/-- Two ticks over two peers, with a frame for the first one queued in one of the runs. -/
theorem perConnection_noninterference_two :
    let cfg : ShaperConfig := { scope := .perConnection true, accepted := by decide }
    let sch : Scheduler ℕ 64 := { rng := Stream'.const 1 }
    let as : List (Op ℕ) := [.sendOne [1, 2], .sendOne [2]]
    let bs : List (Op ℕ) := [.sendShaped 1 [7] (Stream'.const 0), .sendOne [1, 2], .sendOne [2]]
    (ticks cfg randomCover (.new sch (Stream'.const 5)) as).map wire =
        (ticks cfg randomCover (.new sch (Stream'.const 5)) bs).map wire ∧
      List.Forall₂ (OneFrame cfg) (as.filterMap Op.snapshot?)
        (ticks cfg randomCover (.new sch (Stream'.const 5)) as) ∧
      List.Forall₂ (OneFrame cfg) (bs.filterMap Op.snapshot?)
        (ticks cfg randomCover (.new sch (Stream'.const 5)) bs) :=
  perConnection_noninterference rfl (randomCover_sized (by decide)) _ _ rfl

end Peashape.Shaping

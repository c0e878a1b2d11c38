import Peashape.Shaping.Noninterference
import Peashape.Shaping.Interleaving

/-!
# What an observer sees of a node

Somebody who watches the links of a node, and knows when its connections come and go and when
its scheduler runs, sees to whom it sends and how many bytes (`wire`). Under the timed strategies
in `PerConnection` scope this says nothing about what the applications submit, over any
interleaving of the threads, pushes between any two steps of a tick included: a run of the
node's threads, seen by the observer, is a run of a machine that has no lanes at all
(`NodeOutline`), so that two runs with the same visible moves look the same
(`threads_noninterference`).
-/

namespace Peashape

variable {Addr G : Type*} {w : ℕ}

/-- The scheduler's place, but for the frame it holds. -/
def Pc.seen : Pc Addr → Pc Addr
  | .deliver peer _ todo => .deliver peer none todo
  | pc => pc

/-- The moves an observer knows of: those of the applications are hidden. -/
def Act.visible : Act Addr → Bool
  | .connect _ | .disconnect _ | .wake | .snapshot _ | .sched => true
  | .enqueue _ _ _ | .producer _ | .refreshPcPeers _ | .prunePeerLanes _ => false

/-- A node without lanes, frames and cover generator. -/
structure NodeOutline (Addr : Type*) (w : ℕ) where
  /-- The memory and the random offsets of the scheduler. -/
  scheduler : Scheduler Addr w
  /-- The connected peers. -/
  connected : Finset Addr
  /-- Where the scheduler is. -/
  pc : Pc Addr

/-- What is seen of a node. -/
def SystemState.outline (s : SystemState Addr G w) : NodeOutline Addr w := ⟨s.scheduler, s.connected, s.pc.seen⟩

/-- One step of a node without lanes: under a timed strategy in `PerConnection` scope every tick with
peers connected sends one frame of `frame_size` bytes. -/
def NodeOutline.step [DecidableEq Addr] (cfg : ShaperConfig) (o : NodeOutline Addr w) :
    Act Addr → Option (List (Addr × ℕ) × NodeOutline Addr w)
  | .connect peer => some ([], { o with connected := insert peer o.connected })
  | .disconnect peer => some ([], { o with connected := o.connected.erase peer })
  | .wake => if o.pc = .idle then some ([], { o with pc := .woken }) else none
  | .snapshot peers =>
    if o.pc = .woken ∧ peers.Nodup ∧ peers.toFinset = o.connected then some ([], { o with pc := .refresh peers })
    else none
  | .sched =>
    match o.pc with
    | .refresh peers => some ([], { o with pc := .prune peers })
    | .prune [] => some ([], { o with pc := .idle })
    | .prune (p :: ps) => some ([], { o with pc := .pick p ps })
    | .pick p ps =>
      let (peer, sch) := o.scheduler.pickRoundRobin p ps (SystemState.randomize cfg)
      some ([], { o with scheduler := sch, pc := .visit peer [] })
    | .visit peer todo => some ([], { o with pc := .deliver peer none todo })
    | .deliver peer _ _ => some ([(peer, cfg.frameSize)], { o with pc := .idle })
    | _ => none
  | _ => none

end Peashape

namespace Peashape.Shaping

open Foundation Shaper SystemState

variable {Addr G G' : Type*} [DecidableEq Addr] {w : ℕ} {cfg : ShaperConfig} {cg : CoverGenerator G}
  {cg' : CoverGenerator G'} {s s' : SystemState Addr G w} {a : Act Addr} {es tr : List (Event Addr)}

omit [DecidableEq Addr] in
@[simp] theorem wire_append (tr tr' : List (Event Addr)) : wire (tr ++ tr') = wire tr ++ wire tr' := by
  rw [wire, sends_append, List.map_append]
  rfl

omit [DecidableEq Addr] in
theorem wire_of_sends {xs : List (Addr × PendingFrame Addr)} (h : sends es = xs) :
    wire es = xs.map fun x => (x.1, x.2.bytes.length) := by rw [wire, h]

/-- The applications' moves show nothing, and leave what is seen alone. -/
theorem outline_hidden (h : Does cfg cg s a es s') (ha : a.visible = false) : wire es = [] ∧ s'.outline = s.outline := by
  have quiet {es : List (Event Addr)} (hes : ∀ e ∈ es, e.ofShaper = true) : wire es = [] :=
    wire_of_sends (reads_of_ofShaper hes).1
  cases h with
  | enqueue => exact ⟨quiet ofShaper_enqueueRawEvents, rfl⟩
  | fan =>
    refine ⟨quiet fun e he => ?_, rfl⟩
    rcases List.mem_cons.mp he with rfl | he
    · rfl
    · exact ofShaper_fanOutToEvents _ _ e he
  | prunePeerLanes => exact ⟨quiet (ofShaper_prunePeerLanesEvents _ _), rfl⟩
  | clone | notify | refreshPcPeers => exact ⟨rfl, rfl⟩
  | _ => cases ha

/-- **The others are moves of the node without lanes.** -/
theorem outline_shown (hscope : cfg.scope ≠ .global) (htimed : passthrough cfg = false)
    (hcg : cg.Sized cfg.toShapeConfig) (hs : SystemWf cfg s) (h : Does cfg cg s a es s') (ha : a.visible = true) :
    NodeOutline.step cfg s.outline a = some (wire es, s'.outline) := by
  have hpcwf := hs.pc
  have hsized := sendsSized_does hcg hs h
  cases h with
  | connect => rfl
  | disconnect => rfl
  | tick hpc => simp [NodeOutline.step, outline, hpc, Pc.seen, wire, sends]
  | consume hpc hpass => simp [htimed] at hpass
  | @snapshot peers hpc hnd hp =>
    simp [NodeOutline.step, outline, hpc, Pc.seen, hnd, hp, afterSnapshot_perConnection hscope, wire, sends]
  | refresh hpc => simp [NodeOutline.step, outline, hpc, Pc.seen, wire, sends]
  | @prune peers hpc =>
    have hwire : wire (s.shaper.prunePeerLanesEvents peers) = [] :=
      wire_of_sends (reads_of_ofShaper (ofShaper_prunePeerLanesEvents _ _)).1
    rw [hwire]
    cases peers with
    | nil => simp [NodeOutline.step, outline, hpc, Pc.seen, afterPrune]
    | cons p ps => simp [NodeOutline.step, outline, hpc, Pc.seen, afterPrune, htimed]
  | pick hpc => simp [NodeOutline.step, outline, hpc, Pc.seen, wire, sends]
  | @visit peer todo hpc =>
    have hwire : wire (s.shaper.nextFrameForEvents peer) = [] :=
      wire_of_sends (reads_of_ofShaper ofShaper_nextFrameForEvents).1
    rw [hwire]
    cases hf : (s.shaper.nextFrameFor peer).1 <;>
      simp [NodeOutline.step, outline, hpc, Pc.seen, afterVisit, htimed]
  | @deliver peer frame todo hpc =>
    rw [hpc] at hpcwf
    obtain rfl : todo = [] := hpcwf.2.1 htimed
    have hsends : sends [(frameToSend cfg cg frame s.gen).2.1, .send peer (frameToSend cfg cg frame s.gen).1] =
        [(peer, (frameToSend cfg cg frame s.gen).1)] := by cases frame <;> rfl
    have hsize := hsized _ (by rw [hsends]; exact List.mem_singleton_self _)
    rw [wire_of_sends hsends]
    simp [NodeOutline.step, outline, hpc, Pc.seen, hsize, visitNext]
  | walk hpc =>
    rw [hpc] at hpcwf
    exact absurd hpcwf.2 (by simp [htimed])
  | popHigh hpc | popLow hpc | dispatch hpc =>
    rw [hpc] at hpcwf
    exact absurd hpcwf.1 hscope
  | _ => cases ha

/-- **A run, seen by an observer, is one of the node without lanes.** -/
theorem outline_run (hscope : cfg.scope ≠ .global) (htimed : passthrough cfg = false)
    (hcg : cg.Sized cfg.toShapeConfig) {sch : Scheduler Addr w} {gen : G} {as : List (Act Addr)}
    (h : Run (Step cfg cg) (.new sch gen) as tr s) :
    Run (stepOf (NodeOutline.step cfg)) ⟨sch, ∅, .idle⟩ (as.filter Act.visible) (wire tr) s.outline :=
  h.observed outline wire Act.visible (J := fun _ s => SystemWf cfg s) rfl wire_append
    (fun h => systemWf_run (.new sch gen) h) (fun _ hs ha => outline_hidden (does_of_step hs) ha)
    fun hwf hs ha => outline_shown hscope htimed hcg hwf (does_of_step hs) ha

/-- **Noninterference over any interleaving.** Under a timed strategy in `PerConnection` scope, take two
runs of a node's threads with the same random offsets, and with the same moves of the scheduler and of
the connections; let the applications submit what they like and when they like in each, between any two
steps of a tick, and let the cover generators differ. Both send frames of the same sizes to the same
peers in the same order, and leave the scheduler at the same place and with the same memory. -/
theorem threads_noninterference (hscope : cfg.scope ≠ .global) (htimed : passthrough cfg = false)
    (hcg : cg.Sized cfg.toShapeConfig) (hcg' : cg'.Sized cfg.toShapeConfig) {sch : Scheduler Addr w} {gen : G}
    {gen' : G'} {as bs : List (Act Addr)} {tr' : List (Event Addr)} {s' : SystemState Addr G' w}
    (h : Run (Step cfg cg) (.new sch gen) as tr s) (h' : Run (Step cfg cg') (.new sch gen') bs tr' s')
    (hvisible : as.filter Act.visible = bs.filter Act.visible) : wire tr = wire tr' ∧ s.outline = s'.outline := by
  have hrun := outline_run hscope htimed hcg h
  rw [hvisible] at hrun
  exact hrun.unique (outline_run hscope htimed hcg' h')

/-- Two ticks, and in one of the runs a frame submitted in the middle of the first. -/
theorem threads_noninterference_two :
    let cfg : ShaperConfig := { scope := .perConnection true, frameSize := 32, accepted := by decide }
    let s₀ : SystemState ℕ (Stream' UInt8) 64 := .new { rng := Stream'.const 1 } (Stream'.const 5)
    let tick : List (Act ℕ) := [.wake, .snapshot [1, 2], .sched, .sched, .sched, .sched, .sched]
    let as : List (Act ℕ) := [.connect 1, .connect 2] ++ tick ++ tick
    let bs : List (Act ℕ) := [.connect 1, .connect 2, .wake, .snapshot [1, 2], .sched, .sched, .sched,
      .enqueue .high (.unicast 2) (List.replicate 32 7), .producer 0, .sched, .sched] ++ tick
    ∃ tr s tr' s', Run (Step cfg randomCover) s₀ as tr s ∧ Run (Step cfg randomCover) s₀ bs tr' s' ∧
      wire tr = [(2, 32), (1, 32)] ∧ genResults tr ≠ genResults tr' ∧ wire tr = wire tr' ∧ s.outline = s'.outline := by
  intro cfg s₀ tick as bs
  obtain ⟨tr, s, h, hwire⟩ : ∃ tr s, Run (Step cfg randomCover) s₀ as tr s ∧
      wire tr = [(2, 32), (1, 32)] ∧ (genResults tr).map PendingFrame.origin = [.cover, .cover] :=
    exists_run_of_exec (by decide +kernel)
  obtain ⟨tr', s', h', horigin⟩ : ∃ tr s, Run (Step cfg randomCover) s₀ bs tr s ∧
      (genResults tr).map PendingFrame.origin = [.enqueued 0, .cover] := exists_run_of_exec (by decide +kernel)
  refine ⟨tr, s, tr', s', h, h', hwire.1, fun heq => ?_,
    threads_noninterference (by decide) rfl (randomCover_sized (by decide)) (randomCover_sized (by decide)) h h' rfl⟩
  rw [← heq, hwire.2] at horigin
  exact absurd horigin (by decide)

end Peashape.Shaping

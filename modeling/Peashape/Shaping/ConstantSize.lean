import Peashape.Model.Node
import Peashape.Shaping.Ledger
import Peashape.Shaping.TickShape
import Peashape.Wire.Stream

/-!
# Constant size and the representation of the lanes

Over any run of calls on a node, whatever the arguments: every queued frame has exactly
`frame_size` bytes, every lane is within its capacity, and only the set of lanes that
the scope uses is populated (`ShaperWf`). So every frame handed to the writer has
`frame_size` bytes too, if the cover generator keeps its contract.
-/

namespace Peashape.Shaping

open Foundation Shaper

variable {Addr G : Type*} [DecidableEq Addr] {w : ℕ} {cfg : ShaperConfig}

/-- **The representation invariant** of the shaper. -/
structure ShaperWf (cfg : ShaperConfig) (s : Shaper Addr) : Prop where
  /-- Sizes and capacities, of the shared lanes and of every peer's. -/
  lanes : ∀ owner, LaneWf cfg (s.lanesAt owner)
  /-- In `Global` scope no peer has lanes. -/
  global : cfg.scope = .global → s.peerLanes = ∅
  /-- In `PerConnection` scope the shared lanes are empty. -/
  perConnection : cfg.scope ≠ .global → s.highLane = [] ∧ s.lowLane = []

namespace ShaperWf

theorem new : ShaperWf cfg ({} : Shaper Addr) where
  lanes owner := by cases owner <;> exact LaneWf.empty
  global _ := rfl
  perConnection _ := ⟨rfl, rfl⟩

/-- Steps of the lanes keep sizes and capacities, if what they push has the right size. -/
theorem lanes_step {s s' : Shaper Addr} {es : List (Event Addr)} (h : ShaperWf cfg s)
    (hstep : ∀ owner, LaneStep cfg owner (s.lanesAt owner) es (s'.lanesAt owner))
    (hsize : ∀ owner lane, ∀ f ∈ pushes owner lane es, f.bytes.length = cfg.frameSize) :
    ∀ owner, LaneWf cfg (s'.lanesAt owner) :=
  fun owner => LaneStep.wf (hstep owner) (h.lanes owner) (hsize owner)

theorem pushGlobal {s : Shaper Addr} (h : ShaperWf cfg s) (hscope : cfg.scope = .global) (lane : Lane)
    {f : PendingFrame Addr} (hf : f.bytes.length = cfg.frameSize) :
    ShaperWf cfg (Shaper.pushGlobal cfg lane f s).2 where
  lanes := h.lanes_step (laneStep_pushGlobal cfg lane f s) fun owner lane' g hg => by
    rw [eq_of_mem_pushGlobalEvents (mem_pushes_iff.mp hg), hf]
  global _ := by
    have := h.global hscope
    cases lane <;> simp only [Shaper.pushGlobal] <;> first | exact this | (split_ifs <;> exact this)
  perConnection hp := absurd hscope hp

theorem pushPeer {s : Shaper Addr} (h : ShaperWf cfg s) (hscope : cfg.scope ≠ .global) (call : ℕ)
    (peer : Addr) (lane : Lane) {frame : Bytes} (hf : frame.length = cfg.frameSize) :
    ShaperWf cfg (Shaper.pushPeer cfg call peer lane frame s).2 where
  lanes := h.lanes_step (laneStep_pushPeer cfg call peer lane frame s) fun owner lane' g hg => by
    rw [eq_of_mem_pushPeerEvents (mem_pushes_iff.mp hg)]
    exact hf
  global hp := absurd hp hscope
  perConnection _ := by
    have := h.perConnection hscope
    cases lane <;> simp only [Shaper.pushPeer] <;> first | exact this | (split_ifs <;> exact this)

theorem fanPush {s : Shaper Addr} (h : ShaperWf cfg s) (hscope : cfg.scope ≠ .global) (call : ℕ)
    (lane : Lane) {frame : Bytes} (hf : frame.length = cfg.frameSize) (peer : Addr) :
    ShaperWf cfg (Shaper.fanPush cfg call lane frame s peer) where
  lanes := h.lanes_step (laneStep_fanPush cfg call lane frame s peer) fun owner lane' g hg => by
    rw [eq_of_mem_fanPushEvents (mem_pushes_iff.mp hg)]
    exact hf
  global hp := absurd hp hscope
  perConnection _ := by cases lane <;> exact h.perConnection hscope

theorem fanOutTo {s : Shaper Addr} (h : ShaperWf cfg s) (hscope : cfg.scope ≠ .global) (call : ℕ)
    (peers : List Addr) (lane : Lane) {frame : Bytes} (hf : frame.length = cfg.frameSize) :
    ShaperWf cfg (Shaper.fanOutTo cfg call peers lane frame s) := by
  induction peers generalizing s with
  | nil => exact h
  | cons peer peers ih => exact ih (h.fanPush hscope call lane hf peer)

theorem enqueueRaw {s : Shaper Addr} (h : ShaperWf cfg s) (call : ℕ) (lane : Lane) (target : Target Addr)
    (frame : Bytes) : ShaperWf cfg (Shaper.enqueueRaw cfg call lane target frame s).2 := by
  unfold Shaper.enqueueRaw
  split_ifs with hsize
  · exact h
  · rw [not_not] at hsize
    cases hscope : cfg.scope with
    | global => exact h.pushGlobal hscope lane hsize
    | perConnection r =>
      have hne := ShaperConfig.scope_ne_global hscope
      cases target with
      | unicast peer => exact h.pushPeer hne call peer lane hsize
      | broadcast =>
        simp only [fanOutPerConnection_eq]
        exact h.fanOutTo hne call _ lane hsize

theorem enqueue {s : Shaper Addr} (h : ShaperWf cfg s) (call : ℕ) (lane : Lane) (target : Target Addr)
    (payload : Bytes) (rng : Stream' UInt8) :
    ShaperWf cfg (Shaper.enqueue cfg call lane target payload rng s).2 := by
  rw [enqueue_snd]
  split_ifs
  · exact h
  · exact h.enqueueRaw call lane target _

theorem popHigh {s : Shaper Addr} (h : ShaperWf cfg s) : ShaperWf cfg (Shaper.popHigh s).2 where
  lanes := h.lanes_step (laneStep_popHigh cfg s) fun owner lane f hf => by
    cases hh : s.highLane <;> simp_all [popHighEvents, pushes]
  global := h.global
  perConnection hp := ⟨by rw [Shaper.popHigh, (h.perConnection hp).1]; rfl, (h.perConnection hp).2⟩

theorem popLow {s : Shaper Addr} (h : ShaperWf cfg s) : ShaperWf cfg (Shaper.popLow s).2 where
  lanes := h.lanes_step (laneStep_popLow cfg s) fun owner lane f hf => by
    cases hh : s.lowLane <;> simp_all [popLowEvents, pushes]
  global := h.global
  perConnection hp := ⟨(h.perConnection hp).1, by rw [Shaper.popLow, (h.perConnection hp).2]; rfl⟩

theorem nextFrame {s : Shaper Addr} (h : ShaperWf cfg s) : ShaperWf cfg s.nextFrame.2 := by
  have hh := h.popHigh
  unfold Shaper.nextFrame
  split <;> rename_i heq <;> rw [heq] at hh
  · exact hh
  · exact hh.popLow

theorem nextFrameFor {s : Shaper Addr} (h : ShaperWf cfg s) (peer : Addr) :
    ShaperWf cfg (s.nextFrameFor peer).2 where
  lanes := h.lanes_step (laneStep_nextFrameFor cfg peer s) fun owner lane f hf => by
    unfold nextFrameForEvents at hf
    split at hf <;> simp [pushes] at hf
  global hp := by
    simp only [Shaper.nextFrameFor, h.global hp, Finmap.lookup_empty]
  perConnection hp := by
    rcases nextFrameFor_cases peer s with ⟨f, high, low, -, hn⟩ | ⟨f, low, -, hn⟩ | ⟨-, hn⟩ <;>
      rw [hn] <;> exact h.perConnection hp

theorem refreshPcPeers {s : Shaper Addr} (h : ShaperWf cfg s) (peers : List Addr) :
    ShaperWf cfg (s.refreshPcPeers peers) where
  lanes owner := by
    cases owner with
    | none => exact h.lanes none
    | some p => exact h.lanes (some p)
  global := h.global
  perConnection := h.perConnection

theorem prunePeerLanes {s : Shaper Addr} (h : ShaperWf cfg s) (peers : List Addr) :
    ShaperWf cfg (s.prunePeerLanes peers) where
  lanes := h.lanes_step (laneStep_prunePeerLanes cfg peers s) fun owner lane f hf => by
    simp [prunePeerLanesEvents, pushes] at hf
  global hp := by
    simp only [prunePeerLanes_eq, h.global hp, FiniteMap.retain_empty]
  perConnection hp := by rw [prunePeerLanes_eq]; exact h.perConnection hp

/-- A frame popped from the shared lanes has the right size. -/
theorem length_nextFrame {s : Shaper Addr} (h : ShaperWf cfg s) :
    ∀ f ∈ s.nextFrame.1, f.bytes.length = cfg.frameSize := by
  intro f hf
  apply (h.lanes none).sized f
  unfold Shaper.nextFrame Shaper.popHigh Shaper.popLow at hf
  obtain ⟨_ | ⟨a, high⟩, low, lanes, peers⟩ := s
  · exact List.mem_of_mem_head? hf
  · obtain rfl : a = f := by simpa using hf
    exact List.mem_append_left _ (List.mem_cons_self ..)

/-- A frame popped from a peer's lanes has the right size. -/
theorem length_nextFrameFor {s : Shaper Addr} (h : ShaperWf cfg s) (peer : Addr) :
    ∀ f ∈ (s.nextFrameFor peer).1, f.bytes.length = cfg.frameSize := by
  intro f hf
  apply (h.lanes (some peer)).sized f
  rcases nextFrameFor_cases peer s with ⟨a, high, low, hl, hn⟩ | ⟨a, low, hl, hn⟩ | ⟨-, hn⟩ <;>
    rw [hn] at hf
  · obtain rfl : a = f := by simpa using hf
    simp [lanesAt, hl]
  · obtain rfl : a = f := by simpa using hf
    simp [lanesAt, hl]
  · cases hf

end ShaperWf

/-! ### The frames handed to the writer -/

/-- Every frame handed to the writer has `frame_size` bytes. -/
def SendsSized (cfg : ShaperConfig) (es : List (Event Addr)) : Prop :=
  ∀ x ∈ sends es, x.2.bytes.length = cfg.frameSize

namespace SendsSized

variable {es es' : List (Event Addr)}

omit [DecidableEq Addr] in
theorem append (h : SendsSized cfg es) (h' : SendsSized cfg es') : SendsSized cfg (es ++ es') := by
  intro x hx
  rw [sends_append, List.mem_append] at hx
  rcases hx with hx | hx
  · exact h x hx
  · exact h' x hx

omit [DecidableEq Addr] in
/-- The shaper itself hands nothing to the writer. -/
theorem ofShaper (h : ∀ e ∈ es, e.ofShaper = true) : SendsSized cfg es := by
  intro x hx
  rw [(reads_of_ofShaper h).1] at hx
  cases hx

end SendsSized

section Ticks

variable {cg : CoverGenerator G} (hcg : cg.Sized cfg.toShapeConfig)
include hcg

omit [DecidableEq Addr] in
theorem length_of_mem_covers {n : ℕ} {g : G} {f : PendingFrame Addr}
    (h : f ∈ covers cfg.toShapeConfig cg n g) : f.bytes.length = cfg.frameSize := by
  induction n generalizing g with
  | zero => cases h
  | succ n ih =>
    rcases List.mem_cons.mp h with rfl | h
    · exact hcg.cover g
    · exact ih h

omit [DecidableEq Addr] in
/-- A queued frame finalized, or a cover frame, has the right size. -/
theorem length_frameToSend {frame : Option (PendingFrame Addr)} (g : G)
    (h : ∀ f ∈ frame, f.bytes.length = cfg.frameSize) :
    (frameToSend cfg cg frame g).1.bytes.length = cfg.frameSize := by
  cases frame with
  | none => exact hcg.cover g
  | some f => exact hcg.finalizeReal g f.bytes (h f rfl)

theorem sendsSized_dispatchGlobal {peers : List Addr} {frame : PendingFrame Addr} (g : G)
    (sch : Scheduler Addr w) (h : frame.bytes.length = cfg.frameSize) :
    SendsSized cfg (dispatchGlobal cfg cg peers frame g sch).events := by
  intro x hx
  cases ht : frame.target with
  | broadcast =>
    rw [sends_dispatchGlobal_broadcast cfg cg g sch ht] at hx
    obtain ⟨p, -, rfl⟩ := List.mem_map.mp hx
    exact h
  | unicast p =>
    by_cases hp : p ∈ peers
    · rw [sends_dispatchGlobal_connected cfg cg g sch ht hp] at hx
      rcases List.mem_cons.mp hx with rfl | hx
      · exact h
      · exact length_of_mem_covers hcg (List.of_mem_zip hx).2
    · rw [sends_dispatchGlobal_disconnected cfg cg g sch ht hp] at hx
      exact length_of_mem_covers hcg (List.of_mem_zip hx).2

/-- The end of a tick keeps the size. -/
theorem sendsSized_dispatchTick {peers : List Addr} {frame : Option (PendingFrame Addr)} (g : G)
    (sch : Scheduler Addr w) (h : ∀ f ∈ frame, f.bytes.length = cfg.frameSize) :
    SendsSized cfg (dispatchTick cfg cg peers frame g sch).events := by
  have hd : SendsSized cfg (dispatchGlobal cfg cg peers (frameToSend cfg cg frame g).1
      (frameToSend cfg cg frame g).2.2 sch).events :=
    sendsSized_dispatchGlobal hcg _ sch (length_frameToSend hcg g h)
  intro x hx
  apply hd x
  cases frame <;> exact hx

omit [DecidableEq Addr] in
/-- The one frame of a `PerConnection` tick, sent to its peer. -/
theorem sendsSized_frameToSend {frame : Option (PendingFrame Addr)} (g : G) (peer : Addr)
    (h : ∀ f ∈ frame, f.bytes.length = cfg.frameSize) :
    SendsSized cfg [(frameToSend cfg cg frame g).2.1, .send peer (frameToSend cfg cg frame g).1] := by
  intro x hx
  have hl := length_frameToSend hcg g h
  obtain rfl : x = (peer, (frameToSend cfg cg frame g).1) := by
    cases frame <;> exact List.mem_singleton.mp hx
  exact hl

omit hcg in
/-- What both calls of the scheduler do first in `PerConnection` scope. -/
theorem wf_bookkeeping (peers : List Addr) {sh : Shaper Addr} (hs : ShaperWf cfg sh) :
    ShaperWf cfg ((sh.refreshPcPeers peers).prunePeerLanes peers) ∧
      SendsSized cfg (prunePeerLanesEvents peers (sh.refreshPcPeers peers)) :=
  ⟨(hs.refreshPcPeers peers).prunePeerLanes peers, SendsSized.ofShaper (ofShaper_prunePeerLanesEvents _ _)⟩

theorem wf_sendOne (peers : List Addr) {s : NodeState Addr G w} (hs : ShaperWf cfg s.shaper) :
    ShaperWf cfg (sendOne cfg cg peers s).2.shaper ∧ SendsSized cfg (sendOne cfg cg peers s).1 := by
  unfold sendOne
  split
  · cases peers with
    | nil => exact ⟨hs, by simp [SendsSized, sends]⟩
    | cons p ps =>
      refine ⟨hs.nextFrame, ?_⟩
      exact ((SendsSized.ofShaper ofShaper_nextFrameEvents).append
        (sendsSized_dispatchTick hcg _ _ hs.length_nextFrame))
  · obtain ⟨hp, h1⟩ := wf_bookkeeping peers hs
    cases peers with
    | nil => exact ⟨hp, h1⟩
    | cons p ps =>
      refine ⟨hp.nextFrameFor _, ?_⟩
      exact (h1.append (SendsSized.ofShaper ofShaper_nextFrameForEvents)).append
        (sendsSized_frameToSend hcg _ _ (hp.length_nextFrameFor _))

theorem wf_drainGlobal (peers : List Addr) : ∀ (n : ℕ) {s : NodeState Addr G w}, ShaperWf cfg s.shaper →
    ShaperWf cfg (drainGlobal cfg cg peers n s).2.shaper ∧ SendsSized cfg (drainGlobal cfg cg peers n s).1
  | 0, _, hs => ⟨hs, by simp [drainGlobal, SendsSized, sends]⟩
  | n + 1, s, hs => by
    have hw := hs.nextFrame
    have hl := hs.length_nextFrame
    unfold drainGlobal
    split <;> rename_i heq <;> rw [heq] at hw hl
    · exact ⟨hw, by simp [SendsSized, sends]⟩
    · rename_i real shaper
      obtain ⟨h1, h2⟩ := wf_drainGlobal peers n
        (s := ⟨shaper, (dispatchTick cfg cg peers (some real) s.gen s.scheduler).scheduler,
          (dispatchTick cfg cg peers (some real) s.gen s.scheduler).gen, s.calls⟩) hw
      exact ⟨h1, ((SendsSized.ofShaper ofShaper_nextFrameEvents).append
        (sendsSized_dispatchTick hcg _ _ hl)).append h2⟩

theorem wf_drainPeers : ∀ (peers : List Addr) {s : NodeState Addr G w}, ShaperWf cfg s.shaper →
    ShaperWf cfg (drainPeers cfg cg peers s).2.shaper ∧ SendsSized cfg (drainPeers cfg cg peers s).1
  | [], _, hs => ⟨hs, by simp [drainPeers, SendsSized, sends]⟩
  | peer :: peers, s, hs => by
    have hw := hs.nextFrameFor peer
    have hl := hs.length_nextFrameFor peer
    unfold drainPeers
    split <;> rename_i heq <;> rw [heq] at hw hl
    · rename_i shaper
      exact wf_drainPeers peers (s := { s with shaper := shaper }) hw
    · rename_i real shaper
      obtain ⟨h1, h2⟩ := wf_drainPeers peers
        (s := { s with shaper := shaper, gen := (frameToSend cfg cg (some real) s.gen).2.2 }) hw
      exact ⟨h1, ((SendsSized.ofShaper ofShaper_nextFrameForEvents).append
        (sendsSized_frameToSend hcg _ _ hl)).append h2⟩

theorem wf_drainPassthrough (peers : List Addr) {s : NodeState Addr G w} (hs : ShaperWf cfg s.shaper) :
    ShaperWf cfg (drainPassthrough cfg cg peers s).2.shaper ∧
      SendsSized cfg (drainPassthrough cfg cg peers s).1 := by
  unfold drainPassthrough
  split
  · cases peers with
    | nil => exact ⟨hs, by simp [SendsSized, sends]⟩
    | cons p ps => exact wf_drainGlobal hcg _ _ hs
  · obtain ⟨hp, h1⟩ := wf_bookkeeping peers hs
    cases peers with
    | nil => exact ⟨hp, h1⟩
    | cons p ps =>
      obtain ⟨h2, h3⟩ := wf_drainPeers hcg _
        (s := { s with shaper := (s.shaper.refreshPcPeers (p :: ps)).prunePeerLanes (p :: ps) }) hp
      exact ⟨h2, h1.append h3⟩

/-- **Every call keeps the representation invariant, and what it sends has the right size.** -/
theorem wf_exec {s : NodeState Addr G w} (hs : ShaperWf cfg s.shaper) (op : Op Addr) :
    ShaperWf cfg (s.exec cfg cg op).2.shaper ∧ SendsSized cfg (s.exec cfg cg op).1 := by
  cases op with
  | enqueue lane target payload rng =>
    exact ⟨hs.enqueue _ lane target payload rng, SendsSized.ofShaper ofShaper_enqueueEvents⟩
  | enqueueRaw lane target frame =>
    exact ⟨hs.enqueueRaw _ lane target frame, SendsSized.ofShaper ofShaper_enqueueRawEvents⟩
  | sendOne peers => exact wf_sendOne hcg peers hs
  | drainPassthrough peers => exact wf_drainPassthrough hcg peers hs
  | refreshPcPeers peers => exact ⟨hs.refreshPcPeers peers, SendsSized.ofShaper (by simp [NodeState.exec])⟩
  | prunePeerLanes peers =>
    exact ⟨hs.prunePeerLanes peers, SendsSized.ofShaper (ofShaper_prunePeerLanesEvents _ _)⟩
  | nextFrame => exact ⟨hs.nextFrame, SendsSized.ofShaper ofShaper_nextFrameEvents⟩
  | nextFrameFor peer => exact ⟨hs.nextFrameFor peer, SendsSized.ofShaper ofShaper_nextFrameForEvents⟩

end Ticks

/-! ### Over whole runs -/

section Runs

variable {cg : CoverGenerator G} {s₀ s : NodeState Addr G w} {ops : List (Op Addr)} {tr : List (Event Addr)}

/-- Every state a run reaches keeps the representation invariant, and everything a run
sends has the right size. -/
theorem wf_run (hcg : cg.Sized cfg.toShapeConfig) (h0 : ShaperWf cfg s₀.shaper)
    (h : Run (NodeState.Step cfg cg) s₀ ops tr s) : ShaperWf cfg s.shaper ∧ SendsSized cfg tr := by
  refine h.invariant (I := fun tr s => ShaperWf cfg s.shaper ∧ SendsSized cfg tr) ⟨h0, ?_⟩ ?_
  · intro x hx
    cases hx
  · rintro tr s op es s' ⟨hs, htr⟩ hstep
    obtain ⟨rfl, rfl⟩ := NodeState.exec_of_step cfg cg hstep
    obtain ⟨h1, h2⟩ := wf_exec hcg hs op
    exact ⟨h1, htr.append h2⟩

omit [DecidableEq Addr] in
/-- The populated lanes hold all the frames. -/
theorem queued_global [DecidableEq Addr] {s : Shaper Addr} (h : ShaperWf cfg s)
    (hscope : cfg.scope = .global) : s.queued = s.highLane.length + s.lowLane.length := by
  rw [queued, h.global hscope, FiniteMap.total_empty, add_zero]

theorem queued_perConnection {s : Shaper Addr} (h : ShaperWf cfg s) (hscope : cfg.scope ≠ .global) :
    s.queued = FiniteMap.total (fun l => l.high.length + l.low.length) s.peerLanes := by
  obtain ⟨hh, hl⟩ := h.perConnection hscope
  rw [queued, hh, hl, List.length_nil, zero_add, zero_add]

open Framing in
/-- **Constant size.** For a configuration `Node::new` accepts, with frames shorter than
`2 ^ 32` bytes, and a generator that keeps its contract, over any run of calls on a new
node: every queued frame has `frame_size` bytes and every lane is within its capacity;
only the lanes of the scope are populated, and `queued` counts them; and every frame
handed to the writer is encoded by any codec of the node, without an error, as
`4 + frame_size` bytes. -/
theorem constant_size {σ : Type*} {ld : LengthDelimited σ} (hld : ld.Documented) (cfg : NodeConfig)
    (hlt : cfg.frameSize < 2 ^ 32) (hcg : cg.Sized cfg.toShapeConfig) (sch : Scheduler Addr w) (gen : G)
    (h : Run (NodeState.Step cfg.shaper cg) (.new sch gen) ops tr s) :
    (∀ owner, LaneWf cfg.shaper (s.shaper.lanesAt owner)) ∧
    (cfg.scope = .global → s.shaper.peerLanes = ∅ ∧
      s.shaper.queued = s.shaper.highLane.length + s.shaper.lowLane.length) ∧
    (cfg.scope ≠ .global → (s.shaper.highLane = [] ∧ s.shaper.lowLane = []) ∧
      s.shaper.queued = FiniteMap.total (fun l => l.high.length + l.low.length) s.shaper.peerLanes) ∧
    ∀ x ∈ sends tr, x.2.bytes.length = cfg.frameSize ∧
      ∀ c, Codec.Written ld cfg.frameSize cfg.maxFrameSize c → ∀ dst, ∃ c' added,
        c.encode ld x.2.bytes dst = (.ok (), c', dst ++ added) ∧ added.length = 4 + cfg.frameSize := by
  have h0 : ShaperWf cfg.shaper (NodeState.new sch gen).shaper := ShaperWf.new
  obtain ⟨hs, hsends⟩ := wf_run hcg h0 h
  refine ⟨hs.lanes, fun hg => ⟨hs.global hg, queued_global hs hg⟩,
    fun hp => ⟨hs.perConnection hp, queued_perConnection hs hp⟩, fun x hx => ⟨hsends x hx, ?_⟩⟩
  intro c hc dst
  obtain ⟨c', henc⟩ := hc.encode_eq hld cfg.frameSize_le hlt (hsends x hx) dst
  exact ⟨c', frame x.2.bytes, henc, by rw [length_frame, hsends x hx]; rfl⟩

/-- One enqueued frame and one tick, with the default configuration and generator. -/
theorem constant_size_one :
    let cfg : NodeConfig := { accepted := by decide }
    let sch : Scheduler ℕ 64 := { rng := Stream'.const 1 }
    let s₀ : NodeState ℕ (Stream' UInt8) 64 := .new sch (Stream'.const 5)
    let s₁ := s₀.exec cfg.shaper randomCover (.sendShaped 1 [7] (Stream'.const 0))
    let s₂ := s₁.2.exec cfg.shaper randomCover (.sendOne [1, 2])
    (∀ owner, LaneWf cfg.shaper (s₂.2.shaper.lanesAt owner)) ∧
    (cfg.scope = .global → s₂.2.shaper.peerLanes = ∅ ∧
      s₂.2.shaper.queued = s₂.2.shaper.highLane.length + s₂.2.shaper.lowLane.length) ∧
    (cfg.scope ≠ .global → (s₂.2.shaper.highLane = [] ∧ s₂.2.shaper.lowLane = []) ∧
      s₂.2.shaper.queued = FiniteMap.total (fun l => l.high.length + l.low.length) s₂.2.shaper.peerLanes) ∧
    ∀ x ∈ sends (s₁.1 ++ s₂.1), x.2.bytes.length = cfg.frameSize ∧
      ∀ c, Codec.Written Codec.plain cfg.frameSize cfg.maxFrameSize c → ∀ dst, ∃ c' added,
        c.encode Codec.plain x.2.bytes dst = (.ok (), c', dst ++ added) ∧ added.length = 4 + cfg.frameSize := by
  intro cfg sch s₀ s₁ s₂
  have hrun : Run (NodeState.Step cfg.shaper randomCover) s₀
      [.sendShaped 1 [7] (Stream'.const 0), .sendOne [1, 2]] (s₁.1 ++ s₂.1) s₂.2 :=
    (Run.single (NodeState.step_exec _ _ _ _)).trans (Run.single (NodeState.step_exec _ _ _ _))
  exact constant_size Codec.plain_documented cfg (by decide) (randomCover_sized (by decide)) sch _ hrun

end Runs

end Peashape.Shaping

import Peashape.Model.System
import Peashape.Shaping.ConstantSize

/-!
# Facts about every interleaving

What holds of the concurrent system whatever the order of the steps, in either scope and
under every strategy:

* `submits_cases` and `events_does` — what a step leaves in the history, by which thread
  moves;
* `laneRun_does` — a step is a run of lane steps for every pair of lanes, so the ledger
  and the invariants of lanes hold along every run;
* `SystemWf` — the representation invariant, with the scheduler's place (`PcWf`) and the
  frames under way;
* `Stays` — the moves that keep a peer connected.
-/

namespace Peashape.Shaping

open Foundation Shaper SystemState

variable {Addr G : Type*} [DecidableEq Addr] {w : ℕ} {cfg : ShaperConfig} {cg : CoverGenerator G}
  {s s' : SystemState Addr G w} {a : Act Addr} {es tr : List (Event Addr)}

/-! ### What a step leaves in the history -/

omit [DecidableEq Addr] in
theorem ofDispatch_sendCovers (targets : List Addr) (g : G) :
    ∀ e ∈ (sendCovers cfg.toShapeConfig cg targets g).1, e.ofDispatch = true := by
  induction targets generalizing g with
  | nil => simp [sendCovers]
  | cons peer targets ih =>
    intro e he
    simp only [sendCovers, List.mem_cons] at he
    rcases he with rfl | rfl | he
    · rfl
    · rfl
    · exact ih _ e he

/-- A dispatch does not touch the shaper. -/
theorem ofDispatch_dispatchGlobal (peers : List Addr) (frame : PendingFrame Addr) (g : G)
    (sch : Scheduler Addr w) : ∀ e ∈ (dispatchGlobal cfg cg peers frame g sch).events, e.ofDispatch = true := by
  unfold dispatchGlobal
  split
  · split_ifs
    · intro e he
      rcases List.mem_cons.mp he with rfl | he
      · rfl
      · exact ofDispatch_sendCovers _ _ e he
    · exact ofDispatch_sendCovers _ _
  · intro e he
    obtain ⟨peer, -, rfl⟩ := List.mem_map.mp he
    rfl

theorem ofDispatch_dispatchTick (peers : List Addr) (frame : Option (PendingFrame Addr)) (g : G)
    (sch : Scheduler Addr w) : ∀ e ∈ (dispatchTick cfg cg peers frame g sch).events, e.ofDispatch = true := by
  intro e he
  simp only [dispatchTick, List.mem_cons] at he
  rcases he with rfl | he
  · cases frame <;> rfl
  · exact ofDispatch_dispatchGlobal _ _ _ _ e he

omit [DecidableEq Addr] in
theorem ofDispatch_frameToSend (frame : Option (PendingFrame Addr)) (g : G) (peer : Addr) :
    ∀ e ∈ [(frameToSend cfg cg frame g).2.1, .send peer (frameToSend cfg cg frame g).1], e.ofDispatch = true := by
  cases frame <;> simp [frameToSend, Event.ofDispatch]

/-- The events of a step are the shaper's own, a snapshot, or what the scheduler sends. -/
theorem events_does (h : Does cfg cg s a es s') : (∀ e ∈ es, e.ofShaper = true) ∨
    (∃ peers, a = .snapshot peers ∧ es = [.snapshot peers]) ∨
    (∃ peer frame todo, a = .sched ∧ s.pc = .deliver peer frame todo ∧
      es = [(frameToSend cfg cg frame s.gen).2.1, .send peer (frameToSend cfg cg frame s.gen).1]) ∨
    ∃ p ps frame, a = .sched ∧ s.pc = .dispatch p ps frame ∧
      es = (dispatchTick cfg cg (p :: ps) frame s.gen s.scheduler).events := by
  cases h with
  | enqueue _ => exact .inl ofShaper_enqueueRawEvents
  | fan _ =>
    refine .inl fun e he => ?_
    rcases List.mem_cons.mp he with rfl | he
    · rfl
    · exact ofShaper_fanOutToEvents _ _ e he
  | snapshot => exact .inr (.inl ⟨_, rfl, rfl⟩)
  | prune _ => exact .inl (ofShaper_prunePeerLanesEvents _ _)
  | prunePeerLanes => exact .inl (ofShaper_prunePeerLanesEvents _ _)
  | visit _ => exact .inl ofShaper_nextFrameForEvents
  | popHigh _ => exact .inl ofShaper_popHighEvents
  | popLow _ => exact .inl ofShaper_popLowEvents
  | deliver h => exact .inr (.inr (.inl ⟨_, _, _, rfl, h, rfl⟩))
  | dispatch h => exact .inr (.inr (.inr ⟨_, _, _, rfl, h, rfl⟩))
  | _ => exact .inl (by simp)

/-- A step is a submission, or the loop of a fan-out, or leaves nothing that one would. -/
theorem submits_cases (h : Does cfg cg s a es s') : (∀ e ∈ es, e.submits = false) ∨
    (∃ lane target frame, a = .enqueue lane target frame ∧ s'.calls = s.calls + 1 ∧
      es = enqueueRawEvents cfg s.calls lane target frame s.shaper) ∨
    ∃ i lane frame peers, a = .producer i ∧ s.producers[i]? = some (.fan lane frame peers) ∧
      s'.calls = s.calls + 1 ∧
      es = .accepted s.calls lane .broadcast frame :: fanOutToEvents cfg s.calls lane frame peers s.shaper := by
  cases h with
  | enqueue _ => exact .inr (.inl ⟨_, _, _, rfl, rfl, rfl⟩)
  | fan hi => exact .inr (.inr ⟨_, _, _, _, rfl, hi, rfl, rfl⟩)
  | visit _ =>
    refine .inl fun e he => ?_
    unfold nextFrameForEvents at he
    split at he <;> simp at he <;> rw [he] <;> rfl
  | deliver _ => exact .inl fun e he => e.not_submits_of_ofDispatch (ofDispatch_frameToSend _ _ _ e he)
  | dispatch _ => exact .inl fun e he => e.not_submits_of_ofDispatch (ofDispatch_dispatchTick _ _ _ _ e he)
  | popHigh _ => exact .inl (by simp [popHighEvents, Event.submits])
  | popLow _ => exact .inl (by simp [popLowEvents, Event.submits])
  | prune _ => exact .inl (by simp [prunePeerLanesEvents, Event.submits])
  | prunePeerLanes => exact .inl (by simp [prunePeerLanesEvents, Event.submits])
  | snapshot => exact .inl (by simp [Event.submits])
  | _ => exact .inl (by simp)

/-- The step of the scheduler that dispatches. -/
theorem does_dispatch {p : Addr} {ps : List Addr} {frame : Option (PendingFrame Addr)}
    (hpc : s.pc = .dispatch p ps frame) (h : Does cfg cg s .sched es s') :
    es = (dispatchTick cfg cg (p :: ps) frame s.gen s.scheduler).events := by
  cases h <;> rename_i h <;> rw [hpc] at h <;> cases h
  rfl

/-- A snapshot has the connected peers. -/
theorem toFinset_of_snapshot {peers : List Addr} (h : Does cfg cg s a es s') (hmem : .snapshot peers ∈ es) :
    peers.toFinset = s.connected := by
  rcases events_does h with hes | ⟨ps, rfl, rfl⟩ | ⟨peer, frame, todo, -, -, rfl⟩ | ⟨p, ps, frame, -, -, rfl⟩
  · exact absurd (hes _ hmem) Bool.false_ne_true
  · cases List.mem_singleton.mp hmem
    cases h with
    | snapshot _ _ hp => exact hp
  · exact absurd (ofDispatch_frameToSend _ _ _ _ hmem) Bool.false_ne_true
  · exact absurd (ofDispatch_dispatchTick _ _ _ _ _ hmem) Bool.false_ne_true

/-! ### Lanes -/

theorem lanesAt_refreshPcPeers (s : Shaper Addr) (peers : List Addr) (owner : Option Addr) :
    (s.refreshPcPeers peers).lanesAt owner = s.lanesAt owner := by
  cases owner <;> rfl

/-- **A step of the system is a run of lane steps**, for every pair of lanes. -/
theorem laneRun_does (h : Does cfg cg s a es s') (owner : Option Addr) :
    LaneRun cfg owner (s.shaper.lanesAt owner) es (s'.shaper.lanesAt owner) := by
  have hnil : LaneRun cfg owner (s.shaper.lanesAt owner) [] (s.shaper.lanesAt owner) := .keep (by simp)
  cases h with
  | enqueue _ => exact laneRun_enqueueRaw _ _ _ _ s.shaper owner
  | @fan _ lane frame peers _ =>
    have haccepted : LaneRun cfg owner (s.shaper.lanesAt owner) [.accepted s.calls lane .broadcast frame]
        (s.shaper.lanesAt owner) := .keep (by simp [Event.concerns])
    exact haccepted.trans (laneRun_fanOutTo _ _ _ owner _ s.shaper)
  | snapshot => exact .keep (by simp [Event.concerns])
  | refresh _ => exact (lanesAt_refreshPcPeers s.shaper _ owner) ▸ hnil
  | refreshPcPeers => exact (lanesAt_refreshPcPeers s.shaper _ owner) ▸ hnil
  | prune _ => exact .of_step (laneStep_prunePeerLanes cfg _ s.shaper owner)
  | prunePeerLanes => exact .of_step (laneStep_prunePeerLanes cfg _ s.shaper owner)
  | visit _ => exact .of_step (laneStep_nextFrameFor cfg _ s.shaper owner)
  | popHigh _ => exact .of_step (laneStep_popHigh cfg s.shaper owner)
  | popLow _ => exact .of_step (laneStep_popLow cfg s.shaper owner)
  | deliver _ => exact .keep fun e he => e.not_concerns_of_ofDispatch (ofDispatch_frameToSend _ _ _ e he) owner
  | dispatch _ =>
    exact .keep fun e he => e.not_concerns_of_ofDispatch (ofDispatch_dispatchTick _ _ _ _ e he) owner
  | _ => exact hnil

/-! ### The scheduler's place -/

/-- What is known of the scheduler's place: which scope and strategy lead there, and that
snapshots have no duplicates. -/
def PcWf (cfg : ShaperConfig) : Pc Addr → Prop
  | .idle | .woken => True
  | .refresh peers | .prune peers => cfg.scope ≠ .global ∧ peers.Nodup
  | .pick p ps => cfg.scope ≠ .global ∧ (p :: ps).Nodup ∧ passthrough cfg = false
  | .walk => cfg.scope ≠ .global ∧ passthrough cfg = true
  | .visit _ todo => cfg.scope ≠ .global ∧ (passthrough cfg = false → todo = [])
  | .deliver _ frame todo => cfg.scope ≠ .global ∧ (passthrough cfg = false → todo = []) ∧
      (frame = none → passthrough cfg = false)
  | .popHigh p ps | .popLow p ps => cfg.scope = .global ∧ (p :: ps).Nodup
  | .dispatch p ps frame => cfg.scope = .global ∧ (p :: ps).Nodup ∧ (frame = none → passthrough cfg = false)

omit [DecidableEq Addr] in
theorem pcWf_afterSnapshot {peers : List Addr} (hnd : peers.Nodup) : PcWf cfg (afterSnapshot cfg peers) := by
  unfold afterSnapshot
  split <;> rename_i hscope
  · trivial
  · exact ⟨hscope, hnd⟩
  · exact ⟨ShaperConfig.scope_ne_global hscope, hnd⟩

omit [DecidableEq Addr] in
theorem pcWf_visitNext {todo : List Addr} (hscope : cfg.scope ≠ .global)
    (h : passthrough cfg = false → todo = []) : PcWf cfg (visitNext todo) := by
  cases todo with
  | nil => trivial
  | cons peer todo => exact ⟨hscope, fun hp => absurd (h hp) (List.cons_ne_nil _ _)⟩

theorem pcWf_does (h : Does cfg cg s a es s') (hpc : PcWf cfg s.pc) : PcWf cfg s'.pc := by
  cases h with
  | tick => trivial
  | consume => trivial
  | snapshot _ hnd _ => exact pcWf_afterSnapshot hnd
  | refresh h => rwa [h] at hpc
  | @prune peers h =>
    rw [h] at hpc
    cases peers with
    | nil => trivial
    | cons p ps =>
      simp only [afterPrune]
      split_ifs with hpass
      · exact ⟨hpc.1, hpass⟩
      · exact ⟨hpc.1, hpc.2, Bool.eq_false_iff.mpr hpass⟩
  | pick h =>
    rw [h] at hpc
    exact ⟨hpc.1, fun _ => rfl⟩
  | walk h =>
    rw [h] at hpc
    exact pcWf_visitNext hpc.1 fun hp => absurd hp (by rw [hpc.2]; exact Bool.noConfusion)
  | @visit peer todo h =>
    rw [h] at hpc
    cases hf : (s.shaper.nextFrameFor peer).1 with
    | some f => exact ⟨hpc.1, hpc.2, nofun⟩
    | none =>
      simp only [afterVisit]
      split_ifs with hpass
      · exact pcWf_visitNext hpc.1 hpc.2
      · exact ⟨hpc.1, hpc.2, fun _ => Bool.eq_false_iff.mpr hpass⟩
  | deliver h =>
    rw [h] at hpc
    exact pcWf_visitNext hpc.1 hpc.2.1
  | popHigh h =>
    rw [h] at hpc
    cases hf : s.shaper.popHigh.1 with
    | some f => exact ⟨hpc.1, hpc.2, nofun⟩
    | none => exact hpc
  | popLow h =>
    rw [h] at hpc
    cases hf : s.shaper.popLow.1 with
    | some f => exact ⟨hpc.1, hpc.2, nofun⟩
    | none =>
      simp only [afterPopLow]
      split_ifs with hpass
      · trivial
      · exact ⟨hpc.1, hpc.2, fun _ => Bool.eq_false_iff.mpr hpass⟩
  | dispatch h =>
    rw [h] at hpc
    simp only [afterDispatch]
    split_ifs
    · exact ⟨hpc.1, hpc.2.1⟩
    · trivial
  | _ => exact hpc

omit [DecidableEq Addr] in
@[simp] theorem held_visitNext (todo : List Addr) : (visitNext todo).held = none := by cases todo <;> rfl

omit [DecidableEq Addr] in
@[simp] theorem held_afterSnapshot (peers : List Addr) : (afterSnapshot cfg peers).held = none := by
  unfold afterSnapshot
  split <;> rfl

omit [DecidableEq Addr] in
@[simp] theorem held_afterPrune (peers : List Addr) : (afterPrune cfg peers).held = none := by
  unfold afterPrune
  split
  · rfl
  · split_ifs <;> rfl

omit [DecidableEq Addr] in
@[simp] theorem held_afterDispatch (p : Addr) (ps : List Addr) : (afterDispatch cfg p ps).held = none := by
  unfold afterDispatch
  split_ifs <;> rfl

omit [DecidableEq Addr] in
@[simp] theorem held_afterVisit (peer : Addr) (todo : List Addr) (frame : Option (PendingFrame Addr)) :
    (afterVisit cfg peer todo frame).held = frame := by
  cases frame with
  | none =>
    simp only [afterVisit]
    split_ifs
    · exact held_visitNext todo
    · rfl
  | some f => rfl

omit [DecidableEq Addr] in
@[simp] theorem held_afterPopHigh (p : Addr) (ps : List Addr) (frame : Option (PendingFrame Addr)) :
    (afterPopHigh p ps frame).held = frame := by cases frame <;> rfl

omit [DecidableEq Addr] in
@[simp] theorem held_afterPopLow (p : Addr) (ps : List Addr) (frame : Option (PendingFrame Addr)) :
    (afterPopLow cfg p ps frame).held = frame := by
  cases frame with
  | none =>
    simp only [afterPopLow]
    split_ifs <;> rfl
  | some f => rfl

/-! ### The representation invariant -/

/-- **The representation invariant of the system**: that of the shaper, for the frames
under way too. -/
structure SystemWf (cfg : ShaperConfig) (s : SystemState Addr G w) : Prop where
  /-- Of the shaper. -/
  shaper : ShaperWf cfg s.shaper
  /-- Of the scheduler's place. -/
  pc : PcWf cfg s.pc
  /-- A frame under way to the lanes of every peer. -/
  fans : ∀ lane frame peers, .fan lane frame peers ∈ s.producers →
    cfg.scope ≠ .global ∧ frame.length = cfg.frameSize
  /-- A frame under way from a lane. -/
  held : ∀ f, s.pc.held = some f → f.bytes.length = cfg.frameSize

theorem SystemWf.start (connected : Finset Addr) (sch : Scheduler Addr w) (gen : G) :
    SystemWf cfg (.start connected sch gen) where
  shaper := ShaperWf.new
  pc := trivial
  fans _ _ _ h := by cases h
  held _ h := by cases h

theorem SystemWf.new (sch : Scheduler Addr w) (gen : G) : SystemWf cfg (.new sch gen) := SystemWf.start ∅ sch gen

omit [DecidableEq Addr] in
/-- Threads that are not fanning out are no obligation. -/
theorem fans_append {P : Prop} {ps qs : List (Producer Addr)} {lane : Lane} {frame : Bytes} {peers : List Addr}
    (hps : Producer.fan lane frame peers ∈ ps → P) (hqs : ∀ q ∈ qs, q = .notify)
    (h : Producer.fan lane frame peers ∈ ps ++ qs) : P := by
  rcases List.mem_append.mp h with h | h
  · exact hps h
  · cases hqs _ h

/-- A step keeps the representation invariant. -/
theorem SystemWf.does (hs : SystemWf cfg s) (h : Does cfg cg s a es s') : SystemWf cfg s' := by
  have hpc := pcWf_does h hs.pc
  obtain ⟨hsh, -, hfans, hheld⟩ := hs
  cases h with
  | @enqueue lane target frame hf =>
    refine ⟨hsh.enqueueRaw s.calls lane target frame, hpc, fun l b ps h => ?_, hheld⟩
    refine fans_append (hfans l b ps) (fun q hq => ?_) h
    split_ifs at hq
    · exact List.mem_singleton.mp hq
    · cases hq
  | @clone lane target frame hf =>
    refine ⟨hsh, hpc, fun l b ps h => ?_, hheld⟩
    rcases List.mem_append.mp h with h | h
    · exact hfans l b ps h
    · cases List.mem_singleton.mp h
      have := of_decide_eq_true hf
      exact ⟨this.2.1, this.1⟩
  | @fan i lane frame peers hi =>
    obtain ⟨hscope, hsize⟩ := hfans lane frame peers (List.mem_of_getElem? hi)
    refine ⟨hsh.fanOutTo hscope s.calls peers lane hsize, hpc, fun l b ps h => ?_, hheld⟩
    rcases List.mem_or_eq_of_mem_set h with h | h
    · exact hfans l b ps h
    · cases h
  | notify hi => exact ⟨hsh, hpc, fun l b ps h => hfans l b ps (List.mem_of_mem_eraseIdx h), hheld⟩
  | snapshot => exact ⟨hsh, hpc, hfans, fun f h => by simp at h⟩
  | refresh => exact ⟨hsh.refreshPcPeers _, hpc, hfans, fun f h => by cases h⟩
  | prune => exact ⟨hsh.prunePeerLanes _, hpc, hfans, fun f h => by simp at h⟩
  | refreshPcPeers => exact ⟨hsh.refreshPcPeers _, hpc, hfans, hheld⟩
  | prunePeerLanes => exact ⟨hsh.prunePeerLanes _, hpc, hfans, hheld⟩
  | walk => exact ⟨hsh, hpc, hfans, fun f h => by simp at h⟩
  | @visit peer todo _ =>
    refine ⟨hsh.nextFrameFor peer, hpc, hfans, fun f h => hsh.length_nextFrameFor peer f ?_⟩
    simpa using h
  | popHigh =>
    refine ⟨hsh.popHigh, hpc, hfans, fun f h => (hsh.lanes none).sized f (List.mem_append_left _ ?_)⟩
    rw [held_afterPopHigh] at h
    exact List.mem_of_mem_head? h
  | popLow =>
    refine ⟨hsh.popLow, hpc, hfans, fun f h => (hsh.lanes none).sized f (List.mem_append_right _ ?_)⟩
    rw [held_afterPopLow] at h
    exact List.mem_of_mem_head? h
  | deliver => exact ⟨hsh, hpc, hfans, fun f h => by simp at h⟩
  | dispatch => exact ⟨hsh, hpc, hfans, fun f h => by simp at h⟩
  | tick => exact ⟨hsh, hpc, hfans, fun f h => by cases h⟩
  | consume => exact ⟨hsh, hpc, hfans, fun f h => by cases h⟩
  | pick => exact ⟨hsh, hpc, hfans, fun f h => by cases h⟩
  | connect => exact ⟨hsh, hpc, hfans, hheld⟩
  | disconnect => exact ⟨hsh, hpc, hfans, hheld⟩

/-- It holds after any interleaving. -/
theorem systemWf_run {s₀ : SystemState Addr G w} {as : List (Act Addr)} (h0 : SystemWf cfg s₀)
    (h : Run (Step cfg cg) s₀ as tr s) : SystemWf cfg s :=
  h.invariant (I := fun _ s => SystemWf cfg s) h0 fun hs hstep => hs.does (does_of_step hstep)

/-- A step hands frames of the right size to the writer. -/
theorem sendsSized_does (hcg : cg.Sized cfg.toShapeConfig) (hs : SystemWf cfg s) (h : Does cfg cg s a es s') :
    SendsSized cfg es := by
  rcases events_does h with hes | ⟨peers, -, rfl⟩ | ⟨peer, frame, todo, -, hpc, rfl⟩ | ⟨p, ps, frame, -, hpc, rfl⟩
  · exact .ofShaper hes
  · intro x hx
    simp [sends] at hx
  · refine sendsSized_frameToSend hcg s.gen peer fun f hf => hs.held f ?_
    rw [hpc]
    exact hf
  · refine sendsSized_dispatchTick hcg s.gen s.scheduler fun f hf => hs.held f ?_
    rw [hpc]
    exact hf

/-- **Every frame handed to the writer has the right size**, over any interleaving, if the cover
generator keeps its contract. -/
theorem sendsSized_run (hcg : cg.Sized cfg.toShapeConfig) {sch : Scheduler Addr w} {gen : G} {as : List (Act Addr)}
    (h : Run (Step cfg cg) (.new sch gen) as tr s) : SendsSized cfg tr := by
  refine h.invariant_of (J := fun _ s => SystemWf cfg s) (I := fun tr _ => SendsSized cfg tr)
    (fun h => systemWf_run (.new sch gen) h) (fun x hx => by cases hx) fun hs hi hstep => ?_
  exact hi.append (sendsSized_does hcg hs (does_of_step hstep))

/-! ### A peer that stays connected -/

section Connected

variable {p : Addr}

/-- A move that is not the peer's disconnection, nor a pruning from outside. -/
def Stays (p : Addr) (a : Act Addr) : Prop := a.own = true ∧ a ≠ .disconnect p

instance (a : Act Addr) : Decidable (Stays p a) := inferInstanceAs (Decidable (_ ∧ _))

theorem connected_does (hs : Stays p a) (hp : p ∈ s.connected) (h : Does cfg cg s a es s') :
    p ∈ s'.connected := by
  cases h with
  | connect => exact Finset.mem_insert_of_mem hp
  | @disconnect peer =>
    refine Finset.mem_erase.mpr ⟨?_, hp⟩
    rintro rfl
    exact hs.2 rfl
  | _ => exact hp

end Connected

end Peashape.Shaping

import Peashape.Shaping.Interleaving

/-!
# Whole calls are runs of the system

`send_one` and `drain_passthrough` as functions (`Peashape.Model.Scheduler`) take their
snapshot and go through at once; in the system they are many steps, between which other
threads move. Here the two are connected: a call of either function, and a submission, is
what the system does when only the thread that makes the call moves. In particular the
rounds that `drainPassthrough` is given are enough for its loop to end by itself.
-/

namespace Peashape.Shaping

open Foundation Shaper SystemState

variable {Addr G : Type*} [DecidableEq Addr] {w : ℕ} {cfg : ShaperConfig} {cg : CoverGenerator G}
  {s s' s₁ : SystemState Addr G w} {es es' : List (Event Addr)}

/-- Steps of the scheduler after its snapshot, and of no other thread. -/
def SchedRun (cfg : ShaperConfig) (cg : CoverGenerator G) (s : SystemState Addr G w) (es : List (Event Addr))
    (s' : SystemState Addr G w) : Prop :=
  ∃ k, Run (Step cfg cg) s (List.replicate k .sched) es s'

theorem SchedRun.nil : SchedRun cfg cg s [] s := ⟨0, .nil⟩

theorem SchedRun.cons (h : Does cfg cg s .sched es s₁) (h' : SchedRun cfg cg s₁ es' s') :
    SchedRun cfg cg s (es ++ es') s' := by
  obtain ⟨k, h'⟩ := h'
  exact ⟨k + 1, .cons (step_of_does h) h'⟩

theorem SchedRun.trans (h : SchedRun cfg cg s es s₁) (h' : SchedRun cfg cg s₁ es' s') :
    SchedRun cfg cg s (es ++ es') s' := by
  obtain ⟨k, h⟩ := h
  obtain ⟨k', h'⟩ := h'
  refine ⟨k + k', ?_⟩
  rw [List.replicate_add]
  exact h.trans h'

/-- The state with a call of the scheduler done: the shared state is this, and it waits. -/
def finish (s : SystemState Addr G w) (n : NodeState Addr G w) : SystemState Addr G w :=
  { s with toNodeState := n, pc := .idle }

omit [DecidableEq Addr] in
theorem finish_self (h : s.pc = .idle) : finish s s.toNodeState = s := by
  obtain ⟨n, connected, producers, permit, pc⟩ := s
  cases h
  rfl

/-- Without a frame, `next_frame_for` leaves everything as it is. -/
theorem nextFrameForEvents_of_none {peer : Addr} {sh sh' : Shaper Addr} (h : sh.nextFrameFor peer = (none, sh')) :
    sh.nextFrameForEvents peer = [] ∧ sh' = sh := by
  rcases nextFrameFor_cases peer sh with ⟨_, _, _, _, hn⟩ | ⟨_, _, _, hn⟩ | ⟨hl, hn⟩ <;> rw [hn] at h <;> cases h
  exact ⟨by simp only [nextFrameForEvents, hl], rfl⟩

/-! ### The walk of a drain -/

theorem schedRun_drainPeers (hpass : passthrough cfg = true) : ∀ (todo : List Addr) {s : SystemState Addr G w},
    s.pc = visitNext todo →
      SchedRun cfg cg s (drainPeers cfg cg todo s.toNodeState).1 (finish s (drainPeers cfg cg todo s.toNodeState).2)
  | [], s, hpc => by
    simp only [drainPeers, finish_self hpc]
    exact .nil
  | peer :: todo, s, hpc => by
    have hvisit : Does cfg cg s .sched _ _ := .visit hpc
    unfold drainPeers
    split <;> rename_i hn
    · -- a peer without a frame is passed over
      simp only [hn, afterVisit, hpass, if_true, (nextFrameForEvents_of_none hn).1] at hvisit
      exact .cons hvisit (schedRun_drainPeers hpass todo rfl)
    · simp only [hn, afterVisit] at hvisit
      have hrun := SchedRun.cons hvisit (.cons (.deliver rfl) (schedRun_drainPeers hpass todo rfl))
      rw [← List.append_assoc] at hrun
      exact hrun

/-! ### The pop of `Global` scope -/

/-- `next_frame` is the pop of the high lane, and that of the low lane if it gave nothing. -/
theorem schedRun_nextFrame {p : Addr} {ps : List Addr} (hpc : s.pc = .popHigh p ps) :
    SchedRun cfg cg s s.shaper.nextFrameEvents
      { s with shaper := s.shaper.nextFrame.2, pc := afterPopLow cfg p ps s.shaper.nextFrame.1 } := by
  have hhigh : Does cfg cg s .sched _ _ := .popHigh hpc
  obtain ⟨⟨⟨high, low, lanes, cached⟩, sch, gen, calls⟩, connected, producers, permit, pc⟩ := s
  cases hpc
  cases high with
  | cons f high => exact .cons hhigh .nil
  | nil =>
    cases low with
    | cons f low => exact .cons hhigh (.cons (.popLow rfl) .nil)
    | nil => exact .cons hhigh (.cons (.popLow rfl) .nil)

/-! ### The loop of a drain -/

/-- The loop ends when the lanes are empty. -/
theorem schedRun_nextFrame_none (hpass : passthrough cfg = true) {p : Addr} {ps : List Addr}
    (hpc : s.pc = .popHigh p ps) (hh : s.shaper.highLane = []) (hl : s.shaper.lowLane = []) :
    s.shaper.nextFrame = (none, s.shaper) ∧ SchedRun cfg cg s [] (finish s s.toNodeState) := by
  have hpop : SchedRun cfg cg s _ _ := schedRun_nextFrame hpc
  rcases nextFrame_cases s.shaper with ⟨f, high, hh', -⟩ | ⟨f, low, -, hl', -⟩ | ⟨-, -, hn, hes⟩
  · rw [hh] at hh'
    cases hh'
  · rw [hl] at hl'
    cases hl'
  · simp only [hn, hes, afterPopLow, hpass, if_true] at hpop
    exact ⟨hn, hpop⟩

/-- The rounds given to the loop are enough for it to end by itself. -/
theorem schedRun_drainGlobal (hpass : passthrough cfg = true) (p : Addr) (ps : List Addr) :
    ∀ (n : ℕ) {s : SystemState Addr G w}, s.pc = .popHigh p ps →
      s.shaper.highLane.length + s.shaper.lowLane.length ≤ n →
      SchedRun cfg cg s (drainGlobal cfg cg (p :: ps) n s.toNodeState).1
        (finish s (drainGlobal cfg cg (p :: ps) n s.toNodeState).2) := by
  intro n
  induction n with
  | zero =>
    intro s hpc hn
    have hh : s.shaper.highLane = [] := List.eq_nil_of_length_eq_zero (by omega)
    have hl : s.shaper.lowLane = [] := List.eq_nil_of_length_eq_zero (by omega)
    exact (schedRun_nextFrame_none hpass hpc hh hl).2
  | succ n ih =>
    intro s hpc hn
    have hpop : SchedRun cfg cg s _ _ := schedRun_nextFrame hpc
    have hround : ∀ f sh, s.shaper.nextFrame = (some f, sh) → sh.highLane.length + sh.lowLane.length ≤ n →
        SchedRun cfg cg s (drainGlobal cfg cg (p :: ps) (n + 1) s.toNodeState).1
          (finish s (drainGlobal cfg cg (p :: ps) (n + 1) s.toNodeState).2) := by
      intro f sh hnext hlen
      unfold drainGlobal
      simp only [hnext, afterPopLow] at hpop ⊢
      have hdispatch : Does cfg cg { s with shaper := sh, pc := .dispatch p ps (some f) } .sched _ _ := .dispatch rfl
      have hrun := hpop.trans (.cons hdispatch (ih (by simp only [afterDispatch, hpass, if_true]) hlen))
      rw [← List.append_assoc] at hrun
      exact hrun
    rcases nextFrame_cases s.shaper with ⟨f, high, hh, hnext, -⟩ | ⟨f, low, hh, hl, hnext, -⟩ | ⟨hh, hl, hnext, -⟩
    · apply hround f _ hnext
      rw [hh, List.length_cons] at hn
      simp only
      omega
    · apply hround f _ hnext
      rw [hl, List.length_cons] at hn
      simp only
      omega
    · unfold drainGlobal
      simp only [hnext]
      exact (schedRun_nextFrame_none hpass hpc hh hl).2

/-! ### Whole calls -/

/-- The bookkeeping of `PerConnection` scope, after the snapshot. -/
theorem schedRun_bookkeeping {peers : List Addr} (hpc : s.pc = .refresh peers) :
    SchedRun cfg cg s ((s.shaper.refreshPcPeers peers).prunePeerLanesEvents peers)
      { s with
        shaper := (s.shaper.refreshPcPeers peers).prunePeerLanes peers
        pc := afterPrune cfg peers } := by
  have hprune : Does cfg cg { s with shaper := s.shaper.refreshPcPeers peers, pc := .prune peers } .sched _ _ :=
    .prune rfl
  exact .cons (.refresh hpc) (.cons hprune .nil)

/-- The frame for the picked peer, and its sending. -/
theorem schedRun_visit (htimed : passthrough cfg = false) {peer : Addr} (hpc : s.pc = .visit peer []) :
    let popped := s.shaper.nextFrameFor peer
    let result := frameToSend cfg cg popped.1 s.gen
    SchedRun cfg cg s (s.shaper.nextFrameForEvents peer ++ [result.2.1, .send peer result.1])
      (finish s { s.toNodeState with shaper := popped.2, gen := result.2.2 }) := by
  intro popped result
  have hvisit : Does cfg cg s .sched _ _ := .visit hpc
  have hafter : afterVisit cfg peer [] popped.1 = .deliver peer popped.1 [] := by
    cases popped.1 <;> simp [afterVisit, htimed]
  simp only [popped] at hafter
  simp only [hafter] at hvisit
  exact .cons hvisit (.cons (.deliver rfl) .nil)

/-- The snapshot, and then steps of the scheduler alone. -/
theorem run_of_snapshot {peers : List Addr} (hpc : s.pc = .woken) (hnd : peers.Nodup)
    (hp : peers.toFinset = s.connected) {pc : Pc Addr} (hafter : afterSnapshot cfg peers = pc)
    (h : SchedRun cfg cg { s with pc := pc } es s') :
    ∃ k, Run (Step cfg cg) s (.snapshot peers :: List.replicate k .sched) (.snapshot peers :: es) s' := by
  obtain ⟨k, h⟩ := h
  subst hafter
  exact ⟨k, .cons (step_of_does (.snapshot hpc hnd hp)) h⟩

/-- **`send_one` is a run of the system**: the snapshot, and steps of the scheduler alone. -/
theorem run_sendOne (htimed : passthrough cfg = false) {peers : List Addr} (hpc : s.pc = .woken)
    (hnd : peers.Nodup) (hp : peers.toFinset = s.connected) :
    ∃ k, Run (Step cfg cg) s (.snapshot peers :: List.replicate k .sched) (sendOne cfg cg peers s.toNodeState).1
      (finish s (sendOne cfg cg peers s.toNodeState).2) := by
  unfold sendOne
  cases hscope : cfg.scope with
  | global =>
    cases peers with
    | nil => exact run_of_snapshot hpc hnd hp (afterSnapshot_global_nil hscope) .nil
    | cons p ps =>
      have hpop : SchedRun cfg cg { s with pc := .popHigh p ps } _ _ := schedRun_nextFrame rfl
      have hpc' : afterPopLow cfg p ps s.shaper.nextFrame.1 = .dispatch p ps s.shaper.nextFrame.1 := by
        cases s.shaper.nextFrame.1 <;> simp [afterPopLow, htimed]
      simp only [hpc'] at hpop
      have hdispatch : Does cfg cg
          { s with shaper := s.shaper.nextFrame.2, pc := .dispatch p ps s.shaper.nextFrame.1 } .sched _ _ :=
        .dispatch rfl
      simp only [afterDispatch, htimed, Bool.false_eq_true, if_false] at hdispatch
      have hrun := run_of_snapshot hpc hnd hp (afterSnapshot_global_cons hscope p ps)
        (hpop.trans (.cons hdispatch .nil))
      rw [List.append_nil] at hrun
      exact hrun
  | perConnection randomize =>
    have hafter := afterSnapshot_perConnection (ShaperConfig.scope_ne_global hscope) peers
    have hbook : SchedRun cfg cg { s with pc := .refresh peers } _ _ := schedRun_bookkeeping rfl
    cases peers with
    | nil => exact run_of_snapshot hpc hnd hp hafter hbook
    | cons p ps =>
      simp only [afterPrune, htimed, Bool.false_eq_true, if_false] at hbook
      have hrandom : SystemState.randomize cfg = randomize := by
        unfold SystemState.randomize
        rw [hscope]
      have hpick : Does cfg cg
          { s with
            shaper := (s.shaper.refreshPcPeers (p :: ps)).prunePeerLanes (p :: ps)
            pc := .pick p ps } .sched _ _ := .pick rfl
      simp only [hrandom] at hpick
      have hrun := hbook.trans (.cons hpick (schedRun_visit htimed rfl))
      rw [List.nil_append, ← List.append_assoc] at hrun
      exact run_of_snapshot hpc hnd hp hafter hrun

/-- **`drain_passthrough` is a run of the system**: the snapshot, and steps of the scheduler
alone. -/
theorem run_drainPassthrough (hpass : passthrough cfg = true) {peers : List Addr} (hpc : s.pc = .woken)
    (hnd : peers.Nodup) (hp : peers.toFinset = s.connected) :
    ∃ k, Run (Step cfg cg) s (.snapshot peers :: List.replicate k .sched)
      (drainPassthrough cfg cg peers s.toNodeState).1 (finish s (drainPassthrough cfg cg peers s.toNodeState).2) := by
  unfold drainPassthrough
  cases hscope : cfg.scope with
  | global =>
    cases peers with
    | nil => exact run_of_snapshot hpc hnd hp (afterSnapshot_global_nil hscope) .nil
    | cons p ps =>
      exact run_of_snapshot hpc hnd hp (afterSnapshot_global_cons hscope p ps)
        (schedRun_drainGlobal hpass p ps _ rfl le_rfl)
  | perConnection randomize =>
    have hafter := afterSnapshot_perConnection (ShaperConfig.scope_ne_global hscope) peers
    have hbook : SchedRun cfg cg { s with pc := .refresh peers } _ _ := schedRun_bookkeeping rfl
    cases peers with
    | nil => exact run_of_snapshot hpc hnd hp hafter hbook
    | cons p ps =>
      simp only [afterPrune, hpass, if_true] at hbook
      exact run_of_snapshot hpc hnd hp hafter (hbook.trans (.cons (.walk rfl) (schedRun_drainPeers hpass _ rfl)))

/-- What `enqueue_raw` does when it fans out. -/
theorem enqueueRaw_of_fansOut {target : Target Addr} {frame : Bytes} (h : fansOut cfg target frame = true)
    (call : ℕ) (sh : Shaper Addr) (lane : Lane) :
    sh.enqueueRaw cfg call lane target frame = (.ok (), fanOutTo cfg call sh.pcPeers lane frame sh) ∧
      sh.enqueueRawEvents cfg call lane target frame =
        .accepted call lane .broadcast frame :: fanOutToEvents cfg call lane frame sh.pcPeers sh := by
  obtain ⟨hsize, hscope, rfl⟩ := of_decide_eq_true h
  have hr : sh.enqueueRaw cfg call lane .broadcast frame = (.ok (), fanOutTo cfg call sh.pcPeers lane frame sh) := by
    cases hcfg : cfg.scope with
    | global => exact absurd hcfg hscope
    | perConnection r =>
      simp only [enqueueRaw, hsize, hcfg, fanOutPerConnection_eq, ne_eq, not_true_eq_false, if_false]
  rcases enqueueRaw_cases cfg call lane .broadcast frame sh with
    ⟨e, sh', hr', -⟩ | ⟨-, hglobal, -⟩ | ⟨-, -, p, hp, -⟩ | ⟨-, -, -, -, hes⟩
  · rw [hr] at hr'
    cases hr'
  · exact absurd hglobal hscope
  · cases hp
  · exact ⟨hr, hes⟩

/-- **A submission is a run of the system**: of the thread that makes it, up to its
notification. -/
theorem run_enqueueRaw (s : SystemState Addr G w) (lane : Lane) (target : Target Addr) (frame : Bytes) :
    let call := s.toNodeState.exec cfg cg (.enqueueRaw lane target frame)
    ∃ as s', Run (Step cfg cg) s as call.1 s' ∧ s'.toNodeState = call.2 ∧ s'.pc = s.pc := by
  intro call
  cases hfan : fansOut cfg target frame with
  | false =>
    have hpush : Does cfg cg s (.enqueue lane target frame) _ _ := .enqueue hfan
    exact ⟨_, _, .single (step_of_does hpush), rfl, rfl⟩
  | true =>
    have hclone : Does cfg cg s (.enqueue lane target frame) _ _ := .clone hfan
    have hlast : (s.producers ++ [.fan lane frame s.shaper.pcPeers])[s.producers.length]? =
        some (.fan lane frame s.shaper.pcPeers) := by simp
    have hloop : Does cfg cg { s with producers := s.producers ++ [.fan lane frame s.shaper.pcPeers] }
        (.producer s.producers.length) _ _ := .fan hlast
    obtain ⟨hresult, hes⟩ := enqueueRaw_of_fansOut hfan s.calls s.shaper lane
    simp only [call, NodeState.exec, hresult, hes]
    exact ⟨_, _, .cons (step_of_does hclone) (.single (step_of_does hloop)), rfl, rfl⟩

end Peashape.Shaping

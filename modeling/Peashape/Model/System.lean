import Peashape.Model.Node

/-!
# The concurrent system

The threads that share a node, one atomic step at a time. A step is what the source does
under one lock, or without one: application threads push onto a lane and then notify the
scheduler; connections come and go; and the one scheduler task waits for its tick or for a
notification, takes a snapshot of the connected peers, and goes through `send_one`
(timed strategies) or `drain_passthrough` (`ShapingStrategy::None`), popping and sending.

`step` is the machine, as a function. An action names the thread that moves and what it
gets from outside; `none` means that thread cannot move so now. `Does` says everything a
step can do, and `does_of_step` that this is all; invariants are derived from `Does`.
That `send_one` and `drain_passthrough`, as whole calls, are runs of this machine is
`Peashape.Shaping.Refinement`.
-/

namespace Peashape

open Foundation Shaper

variable {Addr G : Type*} {w : ℕ}

/-- An application thread in the middle of `enqueue_raw`. -/
inductive Producer (Addr : Type*) where
  /-- In `fan_out_per_connection`, with its clone of the cache, before the loop. -/
  | fan (lane : Lane) (frame : Bytes) (peers : List Addr)
  /-- Between the push and `notify_one`. -/
  | notify
  deriving DecidableEq

/-- Where the scheduler task is. A snapshot that is not empty is `p :: ps`. -/
inductive Pc (Addr : Type*) where
  /-- Waiting for the tick, or for a notification: about to poll `notified()`, or parked in it. -/
  | idle
  /-- At the start of `send_one` or `drain_passthrough`. -/
  | woken
  /-- Before `refresh_pc_peers`. -/
  | refresh (peers : List Addr)
  /-- Before `prune_peer_lanes`. -/
  | prune (peers : List Addr)
  /-- Before `pick_round_robin`. -/
  | pick (p : Addr) (ps : List Addr)
  /-- Before `pc_peers_snapshot`. -/
  | walk
  /-- Before `next_frame_for`, with the peers to visit after this one. -/
  | visit (peer : Addr) (todo : List Addr)
  /-- With what `next_frame_for` gave, before it is finalized and sent. -/
  | deliver (peer : Addr) (frame : Option (PendingFrame Addr)) (todo : List Addr)
  /-- In `next_frame`, before the high lane. -/
  | popHigh (p : Addr) (ps : List Addr)
  /-- In `next_frame`, before the low lane. -/
  | popLow (p : Addr) (ps : List Addr)
  /-- With what `next_frame` gave, before it is finalized and dispatched. -/
  | dispatch (p : Addr) (ps : List Addr) (frame : Option (PendingFrame Addr))
  deriving DecidableEq

/-- The frame the scheduler has popped and not yet sent. -/
def Pc.held : Pc Addr → Option (PendingFrame Addr)
  | .deliver _ frame _ | .dispatch _ _ frame => frame
  | _ => none

/-- The lanes that frame came from. -/
def Pc.heldFor : Pc Addr → Option Addr
  | .deliver peer _ _ => some peer
  | _ => none

/-- The state of the system. -/
structure SystemState (Addr G : Type*) (w : ℕ) extends NodeState Addr G w where
  /-- The connected peers. -/
  connected : Finset Addr := ∅
  /-- The application threads in the middle of `enqueue_raw`. -/
  producers : List (Producer Addr) := []
  /-- Whether `enqueue_notify` holds a notification that was not consumed. A scheduler that has not
  polled `notified()` yet finds it as the stored permit; one that is parked there is handed it
  directly, and `idle` with `permit` stands for both. It holds one at most. -/
  permit : Bool := false
  /-- Where the scheduler is. -/
  pc : Pc Addr := .idle

/-- A move of one of the threads. -/
inductive Act (Addr : Type*) where
  /-- An application thread calls `enqueue_raw` and goes as far as its first lock. -/
  | enqueue (lane : Lane) (target : Target Addr) (frame : Bytes)
  /-- The application thread at this position of the list goes on. -/
  | producer (i : ℕ)
  /-- A peer connects. -/
  | connect (peer : Addr)
  /-- A peer disconnects. -/
  | disconnect (peer : Addr)
  /-- The scheduler's wait ends. -/
  | wake
  /-- The scheduler reads the connected peers, in this order. -/
  | snapshot (peers : List Addr)
  /-- The scheduler goes on. -/
  | sched
  /-- An application thread calls `refresh_pc_peers`. -/
  | refreshPcPeers (peers : List Addr)
  /-- An application thread calls `prune_peer_lanes`. -/
  | prunePeerLanes (peers : List Addr)
  deriving DecidableEq

/-- The moves of the library itself and of the threads that submit frames. -/
def Act.own : Act Addr → Bool
  | .refreshPcPeers _ | .prunePeerLanes _ => false
  | _ => true

namespace SystemState

variable [DecidableEq Addr] (cfg : ShaperConfig) (cg : CoverGenerator G)

/-- A new system: no frames, no connections, and the scheduler waiting. -/
def new (sch : Scheduler Addr w) (gen : G) : SystemState Addr G w := { toNodeState := .new sch gen }

/-- A new system with connections. -/
def start (connected : Finset Addr) (sch : Scheduler Addr w) (gen : G) : SystemState Addr G w :=
  { new sch gen with connected := connected }

/-- Whether the strategy is `ShapingStrategy::None`. -/
def passthrough : Bool := decide (cfg.strategy = .none)

/-- Whether a frame is fanned out by its submission: the right size, `PerConnection`
scope, and `Broadcast`. -/
def fansOut (target : Target Addr) (frame : Bytes) : Bool :=
  decide (frame.length = cfg.frameSize ∧ cfg.scope ≠ .global ∧ target = .broadcast)

/-- The `match self.shaper.config().scope` after the snapshot. -/
def afterSnapshot (peers : List Addr) : Pc Addr :=
  match cfg.scope, peers with
  | .global, [] => .idle
  | .global, p :: ps => .popHigh p ps
  | .perConnection _, peers => .refresh peers

omit [DecidableEq Addr] in
theorem afterSnapshot_global_nil {cfg : ShaperConfig} (h : cfg.scope = .global) :
    afterSnapshot cfg ([] : List Addr) = .idle := by
  unfold afterSnapshot
  rw [h]

omit [DecidableEq Addr] in
theorem afterSnapshot_global_cons {cfg : ShaperConfig} (h : cfg.scope = .global) (p : Addr) (ps : List Addr) :
    afterSnapshot cfg (p :: ps) = .popHigh p ps := by
  unfold afterSnapshot
  rw [h]

omit [DecidableEq Addr] in
theorem afterSnapshot_perConnection {cfg : ShaperConfig} (h : cfg.scope ≠ .global) (peers : List Addr) :
    afterSnapshot cfg peers = .refresh peers := by
  unfold afterSnapshot
  split <;> rename_i hscope
  · exact absurd hscope h
  · exact absurd hscope h
  · rfl

/-- What follows `prune_peer_lanes`: the return with no peers, the pick, or the walk. -/
def afterPrune (peers : List Addr) : Pc Addr :=
  match peers with
  | [] => .idle
  | p :: ps => if passthrough cfg then .walk else .pick p ps

/-- `pick_round_robin` draws a random offset if the scope says so. -/
def randomize : Bool :=
  match cfg.scope with
  | .global => false
  | .perConnection randomize => randomize

/-- The next peer of a walk, or the end of it. -/
def visitNext : List Addr → Pc Addr
  | [] => .idle
  | peer :: todo => .visit peer todo

/-- What follows `next_frame_for`: in passthrough a peer without a frame is passed over. -/
def afterVisit (peer : Addr) (todo : List Addr) : Option (PendingFrame Addr) → Pc Addr
  | none => if passthrough cfg then visitNext todo else .deliver peer none todo
  | some f => .deliver peer (some f) todo

/-- What follows the pop of the high lane. -/
def afterPopHigh (p : Addr) (ps : List Addr) : Option (PendingFrame Addr) → Pc Addr
  | none => .popLow p ps
  | some f => .dispatch p ps (some f)

/-- What follows the pop of the low lane: in passthrough the loop ends. -/
def afterPopLow (p : Addr) (ps : List Addr) : Option (PendingFrame Addr) → Pc Addr
  | none => if passthrough cfg then .idle else .dispatch p ps none
  | some f => .dispatch p ps (some f)

/-- What follows the dispatch: in passthrough the loop goes on. -/
def afterDispatch (p : Addr) (ps : List Addr) : Pc Addr := if passthrough cfg then .popHigh p ps else .idle

/-- A step of the scheduler that is not the end of its wait and not the snapshot. -/
def schedStep (s : SystemState Addr G w) : Option (List (Event Addr) × SystemState Addr G w) :=
  match s.pc with
  | .idle | .woken => none
  | .refresh peers => some ([], { s with shaper := s.shaper.refreshPcPeers peers, pc := .prune peers })
  | .prune peers =>
    some (s.shaper.prunePeerLanesEvents peers,
      { s with shaper := s.shaper.prunePeerLanes peers, pc := afterPrune cfg peers })
  | .pick p ps =>
    let (peer, sch) := s.scheduler.pickRoundRobin p ps (randomize cfg)
    some ([], { s with scheduler := sch, pc := .visit peer [] })
  | .walk => some ([], { s with pc := visitNext s.shaper.pcPeersSnapshot })
  | .visit peer todo =>
    let (frame, shaper) := s.shaper.nextFrameFor peer
    some (s.shaper.nextFrameForEvents peer, { s with shaper := shaper, pc := afterVisit cfg peer todo frame })
  | .deliver peer frame todo =>
    let (result, call, g) := frameToSend cfg cg frame s.gen
    some ([call, .send peer result], { s with gen := g, pc := visitNext todo })
  | .popHigh p ps =>
    let (frame, shaper) := s.shaper.popHigh
    some (s.shaper.popHighEvents, { s with shaper := shaper, pc := afterPopHigh p ps frame })
  | .popLow p ps =>
    let (frame, shaper) := s.shaper.popLow
    some (s.shaper.popLowEvents, { s with shaper := shaper, pc := afterPopLow cfg p ps frame })
  | .dispatch p ps frame =>
    let d := dispatchTick cfg cg (p :: ps) frame s.gen s.scheduler
    some (d.events, { s with gen := d.gen, scheduler := d.scheduler, pc := afterDispatch cfg p ps })

/-- One step of the system. `notify_one` sets `permit` whether it stores a permit or wakes the parked
scheduler, and the `wake` that consumes it is the poll of `notified()` that goes on: at once on a
stored permit, or after the scheduler was parked and woken. -/
def step (s : SystemState Addr G w) : Act Addr → Option (List (Event Addr) × SystemState Addr G w)
  | .enqueue lane target frame =>
    if fansOut cfg target frame then
      some ([], { s with producers := s.producers ++ [.fan lane frame s.shaper.pcPeers] })
    else
      -- a frame of the wrong size is refused before any notification
      let producers := if frame.length = cfg.frameSize then [.notify] else []
      some (s.shaper.enqueueRawEvents cfg s.calls lane target frame,
        { s with
          shaper := (s.shaper.enqueueRaw cfg s.calls lane target frame).2
          calls := s.calls + 1
          producers := s.producers ++ producers })
  | .producer i =>
    match s.producers[i]? with
    | none => none
    | some (.fan lane frame peers) =>
      some (.accepted s.calls lane .broadcast frame :: fanOutToEvents cfg s.calls lane frame peers s.shaper,
        { s with
          shaper := fanOutTo cfg s.calls peers lane frame s.shaper
          calls := s.calls + 1
          producers := s.producers.set i .notify })
    | some .notify => some ([], { s with permit := true, producers := s.producers.eraseIdx i })
  | .connect peer => some ([], { s with connected := insert peer s.connected })
  | .disconnect peer => some ([], { s with connected := s.connected.erase peer })
  | .wake =>
    if s.pc = .idle then
      if passthrough cfg then
        if s.permit then some ([], { s with permit := false, pc := .woken }) else none
      else some ([], { s with pc := .woken })
    else none
  | .snapshot peers =>
    if s.pc = .woken ∧ peers.Nodup ∧ peers.toFinset = s.connected then
      some ([.snapshot peers], { s with pc := afterSnapshot cfg peers })
    else none
  | .sched => schedStep cfg cg s
  | .refreshPcPeers peers => some ([], { s with shaper := s.shaper.refreshPcPeers peers })
  | .prunePeerLanes peers =>
    some (s.shaper.prunePeerLanesEvents peers, { s with shaper := s.shaper.prunePeerLanes peers })

/-- The machine. -/
def Step : SystemState Addr G w → Act Addr → List (Event Addr) → SystemState Addr G w → Prop := stepOf (step cfg cg)

/-! ### Everything a step can do -/

/-- **Everything a step can do**, with the guards under which it does. -/
inductive Does (s : SystemState Addr G w) : Act Addr → List (Event Addr) → SystemState Addr G w → Prop
  /-- A submission that is not fanned out: it fails or pushes. -/
  | enqueue {lane : Lane} {target : Target Addr} {frame : Bytes} (h : fansOut cfg target frame = false) :
      Does s (.enqueue lane target frame) (s.shaper.enqueueRawEvents cfg s.calls lane target frame)
        { s with
          shaper := (s.shaper.enqueueRaw cfg s.calls lane target frame).2
          calls := s.calls + 1
          producers := s.producers ++ if frame.length = cfg.frameSize then [.notify] else [] }
  /-- The cache is cloned. -/
  | clone {lane : Lane} {target : Target Addr} {frame : Bytes} (h : fansOut cfg target frame = true) :
      Does s (.enqueue lane target frame) []
        { s with producers := s.producers ++ [.fan lane frame s.shaper.pcPeers] }
  /-- The loop of the fan-out. -/
  | fan {i : ℕ} {lane : Lane} {frame : Bytes} {peers : List Addr}
      (h : s.producers[i]? = some (.fan lane frame peers)) :
      Does s (.producer i)
        (.accepted s.calls lane .broadcast frame :: fanOutToEvents cfg s.calls lane frame peers s.shaper)
        { s with
          shaper := fanOutTo cfg s.calls peers lane frame s.shaper
          calls := s.calls + 1
          producers := s.producers.set i .notify }
  /-- The notification. -/
  | notify {i : ℕ} (h : s.producers[i]? = some .notify) :
      Does s (.producer i) [] { s with permit := true, producers := s.producers.eraseIdx i }
  | connect {peer : Addr} : Does s (.connect peer) [] { s with connected := insert peer s.connected }
  | disconnect {peer : Addr} : Does s (.disconnect peer) [] { s with connected := s.connected.erase peer }
  /-- A timed strategy wakes at its tick. -/
  | tick (hpc : s.pc = .idle) (h : passthrough cfg = false) : Does s .wake [] { s with pc := .woken }
  /-- Passthrough wakes on a permit, and consumes it. -/
  | consume (hpc : s.pc = .idle) (h : passthrough cfg = true) (hp : s.permit = true) :
      Does s .wake [] { s with permit := false, pc := .woken }
  | snapshot {peers : List Addr} (hpc : s.pc = .woken) (hnd : peers.Nodup) (hp : peers.toFinset = s.connected) :
      Does s (.snapshot peers) [.snapshot peers] { s with pc := afterSnapshot cfg peers }
  | refresh {peers : List Addr} (hpc : s.pc = .refresh peers) :
      Does s .sched [] { s with shaper := s.shaper.refreshPcPeers peers, pc := .prune peers }
  | prune {peers : List Addr} (hpc : s.pc = .prune peers) :
      Does s .sched (s.shaper.prunePeerLanesEvents peers)
        { s with shaper := s.shaper.prunePeerLanes peers, pc := afterPrune cfg peers }
  | pick {p : Addr} {ps : List Addr} (hpc : s.pc = .pick p ps) :
      Does s .sched []
        { s with
          scheduler := (s.scheduler.pickRoundRobin p ps (randomize cfg)).2
          pc := .visit (s.scheduler.pickRoundRobin p ps (randomize cfg)).1 [] }
  | walk (hpc : s.pc = .walk) : Does s .sched [] { s with pc := visitNext s.shaper.pcPeersSnapshot }
  | visit {peer : Addr} {todo : List Addr} (hpc : s.pc = .visit peer todo) :
      Does s .sched (s.shaper.nextFrameForEvents peer)
        { s with
          shaper := (s.shaper.nextFrameFor peer).2
          pc := afterVisit cfg peer todo (s.shaper.nextFrameFor peer).1 }
  | deliver {peer : Addr} {frame : Option (PendingFrame Addr)} {todo : List Addr}
      (hpc : s.pc = .deliver peer frame todo) :
      Does s .sched [(frameToSend cfg cg frame s.gen).2.1, .send peer (frameToSend cfg cg frame s.gen).1]
        { s with gen := (frameToSend cfg cg frame s.gen).2.2, pc := visitNext todo }
  | popHigh {p : Addr} {ps : List Addr} (hpc : s.pc = .popHigh p ps) :
      Does s .sched s.shaper.popHighEvents
        { s with shaper := s.shaper.popHigh.2, pc := afterPopHigh p ps s.shaper.popHigh.1 }
  | popLow {p : Addr} {ps : List Addr} (hpc : s.pc = .popLow p ps) :
      Does s .sched s.shaper.popLowEvents
        { s with shaper := s.shaper.popLow.2, pc := afterPopLow cfg p ps s.shaper.popLow.1 }
  | dispatch {p : Addr} {ps : List Addr} {frame : Option (PendingFrame Addr)}
      (hpc : s.pc = .dispatch p ps frame) :
      Does s .sched (dispatchTick cfg cg (p :: ps) frame s.gen s.scheduler).events
        { s with
          gen := (dispatchTick cfg cg (p :: ps) frame s.gen s.scheduler).gen
          scheduler := (dispatchTick cfg cg (p :: ps) frame s.gen s.scheduler).scheduler
          pc := afterDispatch cfg p ps }
  | refreshPcPeers {peers : List Addr} :
      Does s (.refreshPcPeers peers) [] { s with shaper := s.shaper.refreshPcPeers peers }
  | prunePeerLanes {peers : List Addr} :
      Does s (.prunePeerLanes peers) (s.shaper.prunePeerLanesEvents peers)
        { s with shaper := s.shaper.prunePeerLanes peers }

variable {cfg cg}

theorem does_of_schedStep {s s' : SystemState Addr G w} {es : List (Event Addr)}
    (h : schedStep cfg cg s = some (es, s')) : Does cfg cg s .sched es s' := by
  unfold schedStep at h
  split at h <;> rename_i hpc <;> cases h
  · exact .refresh hpc
  · exact .prune hpc
  · exact .pick hpc
  · exact .walk hpc
  · exact .visit hpc
  · exact .deliver hpc
  · exact .popHigh hpc
  · exact .popLow hpc
  · exact .dispatch hpc

theorem does_of_step {s s' : SystemState Addr G w} {a : Act Addr} {es : List (Event Addr)}
    (h : Step cfg cg s a es s') : Does cfg cg s a es s' := by
  simp only [Step, stepOf] at h
  cases a with
  | enqueue lane target frame =>
    simp only [step] at h
    split_ifs at h with hf hsize
    · cases h
      exact .clone hf
    · cases h
      have hdoes : Does cfg cg s (.enqueue lane target frame) _ _ := .enqueue (Bool.eq_false_iff.mpr hf)
      rwa [if_pos hsize] at hdoes
    · cases h
      have hdoes : Does cfg cg s (.enqueue lane target frame) _ _ := .enqueue (Bool.eq_false_iff.mpr hf)
      rwa [if_neg hsize] at hdoes
  | producer i =>
    simp only [step] at h
    split at h <;> rename_i hi <;> cases h
    · exact .fan hi
    · exact .notify hi
  | connect peer =>
    cases h
    exact .connect
  | disconnect peer =>
    cases h
    exact .disconnect
  | wake =>
    simp only [step] at h
    split_ifs at h with hpc hpass hpermit <;> cases h
    · exact .consume hpc hpass hpermit
    · exact .tick hpc (Bool.eq_false_iff.mpr hpass)
  | snapshot peers =>
    simp only [step] at h
    split_ifs at h with hg
    cases h
    exact .snapshot hg.1 hg.2.1 hg.2.2
  | sched => exact does_of_schedStep h
  | refreshPcPeers peers =>
    cases h
    exact .refreshPcPeers
  | prunePeerLanes peers =>
    cases h
    exact .prunePeerLanes

theorem step_of_does {s s' : SystemState Addr G w} {a : Act Addr} {es : List (Event Addr)}
    (h : Does cfg cg s a es s') : Step cfg cg s a es s' := by
  simp only [Step, stepOf]
  cases h with
  | @enqueue _ _ frame h =>
    by_cases hsize : frame.length = cfg.frameSize <;> simp [step, h, hsize]
  | clone h => simp [step, h]
  | fan h => simp [step, h]
  | notify h => simp [step, h]
  | connect => rfl
  | disconnect => rfl
  | tick hpc h => simp [step, hpc, h]
  | consume hpc h hp => simp [step, hpc, h, hp]
  | snapshot hpc hnd hp => simp [step, hpc, hnd, hp]
  | refreshPcPeers => rfl
  | prunePeerLanes => rfl
  | refresh hpc => simp [step, schedStep, hpc]
  | prune hpc => simp [step, schedStep, hpc]
  | pick hpc => simp [step, schedStep, hpc]
  | walk hpc => simp [step, schedStep, hpc]
  | visit hpc => simp [step, schedStep, hpc]
  | deliver hpc => simp [step, schedStep, hpc]
  | popHigh hpc => simp [step, schedStep, hpc]
  | popLow hpc => simp [step, schedStep, hpc]
  | dispatch hpc => simp [step, schedStep, hpc]

/-- The two descriptions of a step agree. -/
theorem step_iff_does {s s' : SystemState Addr G w} {a : Act Addr} {es : List (Event Addr)} :
    Step cfg cg s a es s' ↔ Does cfg cg s a es s' := ⟨does_of_step, step_of_does⟩

end SystemState

end Peashape

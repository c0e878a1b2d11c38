import Peashape.Model.Node
import Peashape.Shaping.ConstantSize

/-!
# Conservation per peer

The lanes of one peer in `PerConnection` scope, over any run of the calls that touch
lanes: submissions, `next_frame_for`, `refresh_pc_peers` with lists without duplicates,
and `prune_peer_lanes`. Since the peer's entry was last pruned, what left its high lane at
the front, followed by what is in it, is what was accepted into it, in order
(`peerLanes_conservation`).

`PeerStep` says of every call what it puts in the peer's lanes, pops and evicts, and that
calls for other peers and prunes that list the peer leave its lanes alone. A broadcast is
a loop over all the cached peers, of which one round is about this peer
(`fanOutToEvents_split`).
-/

namespace Peashape.Shaping

open Foundation Shaper

variable {Addr G : Type*} [DecidableEq Addr] {w : ℕ} {cfg : ShaperConfig} {cg : CoverGenerator G}

/-! ### Events about one peer -/

omit [DecidableEq Addr] in
theorem concerns_of_isAbout [DecidableEq Addr] {k owner : Option Addr} (hk : k ≠ owner)
    {es : List (Event Addr)} (h : ∀ e ∈ es, IsAbout k e) : ∀ e ∈ es, e.concerns owner = false := by
  intro e he
  obtain ⟨lane, f, rfl | rfl | rfl⟩ := h e he <;> simp [Event.concerns, hk]

variable (cfg) in
/-- A broadcast does not touch the lanes of a peer that is not in its list. -/
theorem fanOutTo_of_not_mem (call : ℕ) (lane : Lane) (frame : Bytes) {p : Addr} :
    ∀ {peers : List Addr} {s : Shaper Addr}, p ∉ peers →
      (∀ e ∈ fanOutToEvents cfg call lane frame peers s, e.concerns (some p) = false) ∧
        (fanOutTo cfg call peers lane frame s).lanesOf p = s.lanesOf p
  | [], s, _ => ⟨by simp [fanOutToEvents], rfl⟩
  | q :: peers, s, h => by
    obtain ⟨hq, hp⟩ := not_or.mp (List.mem_cons.not.mp h)
    obtain ⟨h1, h2⟩ := fanOutTo_of_not_mem call lane frame (s := fanPush cfg call lane frame s q) hp
    refine ⟨fun e he => ?_, h2.trans (lanesOf_fanPush_of_ne hq)⟩
    rcases List.mem_append.mp he with he | he
    · exact concerns_of_isAbout (by simpa using Ne.symm hq) (isAbout_fanPushEvents _ _ _ _ _ _) e he
    · exact h1 e he

variable (cfg) in
/-- **The one round of a broadcast that is about a peer** of its list without duplicates. -/
theorem fanOutToEvents_split (call : ℕ) (lane : Lane) (frame : Bytes) {p : Addr} :
    ∀ {peers : List Addr} {s : Shaper Addr}, peers.Nodup → p ∈ peers →
      ∃ pre post, fanOutToEvents cfg call lane frame peers s =
          pre ++ fanPushEvents cfg call lane frame s p ++ post ∧
        (∀ e ∈ pre, e.concerns (some p) = false) ∧ ∀ e ∈ post, e.concerns (some p) = false
  | q :: peers, s, hnd, hp => by
    obtain ⟨hq, hnd⟩ := List.nodup_cons.mp hnd
    by_cases hpq : p = q
    · subst hpq
      exact ⟨[], _, rfl, by simp, (fanOutTo_of_not_mem cfg call lane frame hq).1⟩
    · obtain ⟨pre, post, hes, hpre, hpost⟩ := fanOutToEvents_split call lane frame
        (s := fanPush cfg call lane frame s q) hnd (List.mem_of_ne_of_mem hpq hp)
      have hsame : fanPushEvents cfg call lane frame (fanPush cfg call lane frame s q) p =
          fanPushEvents cfg call lane frame s p := by
        simp only [fanPushEvents, lanesOf_fanPush_of_ne hpq]
      refine ⟨fanPushEvents cfg call lane frame s q ++ pre, post, ?_, ?_, hpost⟩
      · rw [fanOutToEvents, hes, hsame, List.append_assoc, List.append_assoc, List.append_assoc]
      · intro e he
        rcases List.mem_append.mp he with he | he
        · exact concerns_of_isAbout (by simpa using Ne.symm hpq) (isAbout_fanPushEvents _ _ _ _ _ _) e he
        · exact hpre e he

/-! ### What a call does to the lanes of a peer -/

/-- Whether a frame for this target goes into the lanes of `p`, given the cached peers. -/
def reaches (cached : List Addr) (p : Addr) : Target Addr → Bool
  | .unicast q => decide (q = p)
  | .broadcast => decide (p ∈ cached)

/-- The frame a call puts in a lane of `p`, if the call is accepted and `p` is one of its
recipients. -/
def admitted (cfg : ShaperConfig) (s : NodeState Addr G w) (p : Addr) (lane : Lane) (op : Op Addr) :
    Option (PendingFrame Addr) :=
  match op.raw? cfg.toShapeConfig with
  | none => none
  | some (k, target, frame) =>
    if k = lane ∧ reaches s.shaper.pcPeers p target = true ∧
      (s.shaper.enqueueRaw cfg s.calls k target frame).1 = .ok () then some (peerFrame p frame s.calls)
    else none

/-- Whether a call is a submission to every peer. -/
def isBroadcast (cfg : ShaperConfig) (op : Op Addr) : Bool :=
  (op.raw? cfg.toShapeConfig).any fun x => decide (x.2.1 = .broadcast)

/-- Whether a call is addressed to other peers than `p`, or is a prune that lists `p`. -/
def Spares (p : Addr) : Op Addr → Prop
  | .enqueue _ target _ _ | .enqueueRaw _ target _ => ∃ q, target = .unicast q ∧ q ≠ p
  | .nextFrameFor q => q ≠ p
  | .prunePeerLanes connected => p ∈ connected
  | .refreshPcPeers _ => True
  | _ => False

/-- **Everything a call does to the lanes of a peer.** -/
structure PeerStep (cfg : ShaperConfig) (s : NodeState Addr G w) (op : Op Addr) (p : Addr)
    (es : List (Event Addr)) (s' : NodeState Addr G w) : Prop where
  /-- What it puts in them is what is accepted into them. -/
  pushes : ∀ lane, pushes (some p) lane es = (admitted cfg s p lane op).toList
  /-- Only `next_frame_for(p)` takes a frame from them to be sent. -/
  pops : ∀ lane, pops (some p) lane es ≠ [] → op = .nextFrameFor p
  /-- A high frame is evicted by a broadcast that finds the lane at capacity: the first. -/
  evicts_high : evicts (some p) .high es =
    if (admitted cfg s p .high op).isSome ∧ isBroadcast cfg op = true ∧
        (s.shaper.lanesOf p).high.length = cfg.highLaneCapacity
    then (s.shaper.lanesOf p).high.head?.toList else []
  /-- A low frame is evicted by a push that finds the lane at capacity: the last. -/
  evicts_low : evicts (some p) .low es =
    if (admitted cfg s p .low op).isSome ∧ (s.shaper.lanesOf p).low.length = cfg.lowLaneCapacity
    then (s.shaper.lanesOf p).low.getLast?.toList else []
  /-- A call for other peers, and a prune that lists this one, leave its lanes alone. -/
  spared : Spares p op → s'.shaper.lanesOf p = s.shaper.lanesOf p

/-- A call that puts nothing in the lanes of the peer. -/
theorem PeerStep.of_silent {s s' : NodeState Addr G w} {op : Op Addr} {p : Addr} {es : List (Event Addr)}
    (hadm : ∀ lane, admitted cfg s p lane op = none) (hes : ∀ e ∈ es, e.concerns (some p) = false)
    (hsame : Spares p op → s'.shaper.lanesOf p = s.shaper.lanesOf p) : PeerStep cfg s op p es s' where
  pushes lane := by rw [(reads_of_not_concerns lane hes).1, hadm]; rfl
  pops lane h := absurd (reads_of_not_concerns lane hes).2.1 h
  evicts_high := by rw [(reads_of_not_concerns .high hes).2.2.1, hadm]; simp
  evicts_low := by rw [(reads_of_not_concerns .low hes).2.2.1, hadm]; simp
  spared := hsame

/-- A submission that puts a frame in one lane of the peer. -/
theorem PeerStep.of_puts {s s' : NodeState Addr G w} {op : Op Addr} {p : Addr} {es : List (Event Addr)}
    {lane : Lane} {f : PendingFrame Addr} {gone : List (PendingFrame Addr)}
    (hadm : ∀ k, admitted cfg s p k op = if lane = k then some f else none)
    (hes : Puts (some p) lane f gone es)
    (hhigh : lane = .high → gone = if isBroadcast cfg op = true ∧
      (s.shaper.lanesOf p).high.length = cfg.highLaneCapacity then (s.shaper.lanesOf p).high.head?.toList else [])
    (hlow : lane = .low → gone = if (s.shaper.lanesOf p).low.length = cfg.lowLaneCapacity
      then (s.shaper.lanesOf p).low.getLast?.toList else [])
    (hspared : ¬ Spares p op) : PeerStep cfg s op p es s' where
  pushes k := by
    rw [hes.pushes, hadm]
    split_ifs <;> rfl
  pops k h := absurd (hes.pops k) h
  evicts_high := by
    rw [hes.evicts, hadm]
    by_cases h : lane = .high
    · simp only [h, if_true, Option.isSome_some, true_and, hhigh h]
    · simp [h]
  evicts_low := by
    rw [hes.evicts, hadm]
    by_cases h : lane = .low
    · simp only [h, if_true, Option.isSome_some, true_and, hlow h]
    · simp [h]
  spared h := absurd h hspared

/-- What a unicast push throws away. -/
theorem puts_pushPeerEvents (call : ℕ) (peer : Addr) (lane : Lane) (frame : Bytes) (s : Shaper Addr)
    (hroom : lane = .high → (s.lanesOf peer).high.length < cfg.highLaneCapacity) :
    Puts (some peer) lane (peerFrame peer frame call)
      (if lane = .high then [] else Deque.evictedBack cfg.lowLaneCapacity (s.lanesOf peer).low)
      (pushPeerEvents cfg call peer lane frame s) := by
  cases lane with
  | high =>
    simp only [pushPeerEvents, if_neg (Nat.not_le.mpr (hroom rfl)), if_true]
    exact Puts.evict_push (some peer) .high _ []
  | low => exact Puts.evict_push (some peer) .low _ _

variable (cfg) in
/-- What a broadcast throws away, at one peer. -/
theorem puts_fanPushEvents (call : ℕ) (peer : Addr) (lane : Lane) (frame : Bytes) (s : Shaper Addr) :
    Puts (some peer) lane (peerFrame peer frame call)
      (if lane = .high then Deque.evictedFront cfg.highLaneCapacity (s.lanesOf peer).high
        else Deque.evictedBack cfg.lowLaneCapacity (s.lanesOf peer).low)
      (fanPushEvents cfg call lane frame s peer) := by
  cases lane with
  | high => exact Puts.evict_push (some peer) .high _ _
  | low => exact Puts.evict_push (some peer) .low _ _

/-- A submission, by whether it fails, and by its target. -/
theorem peerStep_submit (hscope : cfg.scope ≠ .global) {s : NodeState Addr G w} (hs : ShaperWf cfg s.shaper)
    (hnd : s.shaper.pcPeers.Nodup) {op : Op Addr} {lane : Lane} {target : Target Addr} {frame : Bytes}
    (hraw : op.raw? cfg.toShapeConfig = some (lane, target, frame)) {p : Addr}
    (hsp : Spares p op → ∃ q, target = .unicast q ∧ q ≠ p) :
    PeerStep cfg s op p (s.exec cfg cg op).1 (s.exec cfg cg op).2 := by
  obtain ⟨-, hhl, hll⟩ : LaneWf cfg (s.shaper.lanesOf p) := hs.lanes (some p)
  have hfront := Deque.evictedFront_eq cfg.high_pos hhl
  have hback := Deque.evictedBack_eq cfg.low_pos hll
  have haccepted : ∀ e ∈ [Event.accepted s.calls lane target frame], e.concerns (some p) = false := by
    simp [Event.concerns]
  have hnil : ∀ e ∈ ([] : List (Event Addr)), e.concerns (some p) = false := by simp
  rw [NodeState.exec_of_raw cfg cg hraw]
  simp only [NodeState.exec]
  rcases enqueueRaw_cases cfg s.calls lane target frame s.shaper with
    ⟨e, s', hr, hes, hs', -⟩ | ⟨-, hg, -⟩ | ⟨-, -, q, rfl, hroom, hr, hes⟩ | ⟨-, -, rfl, hr, hes⟩
  · -- refused
    rw [hes, hr]
    refine .of_silent (fun k => ?_) (by simp [Event.concerns]) fun _ => hs' (some p)
    simp [admitted, hraw, hr]
  · exact absurd hg hscope
  · rw [hes, hr]
    by_cases hq : q = p
    · subst hq
      have hputs := (puts_pushPeerEvents s.calls q lane frame s.shaper hroom).surround haccepted hnil
      rw [List.append_nil] at hputs
      refine .of_puts (fun k => by simp [admitted, hraw, hr, reaches]) hputs ?_ ?_ fun h => ?_
      · rintro rfl
        simp [isBroadcast, hraw]
      · rintro rfl
        exact hback
      · obtain ⟨q', hq', hne⟩ := hsp h
        cases hq'
        exact hne rfl
    · have hne : some q ≠ some p := by simpa using hq
      have hes' := concerns_of_isAbout hne (isAbout_pushPeerEvents cfg s.calls q lane frame s.shaper)
      exact .of_silent (fun k => by simp [admitted, hraw, hr, reaches, hq]) (List.forall_mem_cons.mpr ⟨rfl, hes'⟩)
        fun _ => lanesOf_pushPeer_of_ne (Ne.symm hq)
  · rw [hes, hr]
    have hspared : ¬ Spares p op := fun h => by
      obtain ⟨q, hq, -⟩ := hsp h
      cases hq
    by_cases hp : p ∈ s.shaper.pcPeers
    · obtain ⟨pre, post, hsplit, hpre, hpost⟩ := fanOutToEvents_split cfg s.calls lane frame
        (s := s.shaper) hnd hp
      have hpre' : ∀ e ∈ .accepted s.calls lane .broadcast frame :: pre, e.concerns (some p) = false :=
        List.forall_mem_cons.mpr ⟨rfl, hpre⟩
      have hputs := (puts_fanPushEvents cfg s.calls p lane frame s.shaper).surround hpre' hpost
      rw [hsplit]
      refine .of_puts (fun k => by simp [admitted, hraw, hr, reaches, hp]) hputs ?_ ?_ hspared
      · rintro rfl
        have hb : isBroadcast cfg op = true := by simp [isBroadcast, hraw]
        rw [if_pos rfl, hb]
        simpa using hfront
      · rintro rfl
        exact hback
    · obtain ⟨hes', hsame⟩ := fanOutTo_of_not_mem cfg s.calls lane frame (s := s.shaper) hp
      exact .of_silent (fun k => by simp [admitted, hraw, reaches, hp]) (List.forall_mem_cons.mpr ⟨rfl, hes'⟩)
        fun _ => hsame

/-- The calls of this module: those that touch lanes, with lists without duplicates. -/
def LaneCall : Op Addr → Prop
  | .enqueue .. | .enqueueRaw .. | .prunePeerLanes _ | .nextFrameFor _ => True
  | .refreshPcPeers peers => peers.Nodup
  | _ => False

/-- The machine of these calls. -/
def LaneStepOf (cfg : ShaperConfig) (cg : CoverGenerator G) :
    NodeState Addr G w → Op Addr → List (Event Addr) → NodeState Addr G w → Prop :=
  Along (NodeState.Step cfg cg) fun _ op => LaneCall op

/-- One call is a run. -/
theorem run_laneCall {s : NodeState Addr G w} (op : Op Addr) (h : LaneCall op) :
    Run (LaneStepOf cfg cg) s [op] (s.exec cfg cg op).1 (s.exec cfg cg op).2 :=
  .single ⟨NodeState.step_exec cfg cg s op, h⟩

/-- **Every call does to the lanes of a peer what `PeerStep` says.** -/
theorem peerStep (hscope : cfg.scope ≠ .global) {s s' : NodeState Addr G w} (hs : ShaperWf cfg s.shaper)
    (hnd : s.shaper.pcPeers.Nodup) {op : Op Addr} {es : List (Event Addr)}
    (h : LaneStepOf cfg cg s op es s') (p : Addr) : PeerStep cfg s op p es s' := by
  obtain ⟨hstep, hcall⟩ := h
  obtain ⟨rfl, rfl⟩ := NodeState.exec_of_step cfg cg hstep
  cases op with
  | enqueueRaw lane target frame => exact peerStep_submit hscope hs hnd rfl id
  | enqueue lane target payload rng =>
    cases hraw : (Op.enqueue lane target payload rng).raw? cfg.toShapeConfig with
    | none =>
      rw [NodeState.exec_enqueue_of_raw_none cfg cg hraw]
      exact .of_silent (fun k => by rw [admitted, hraw]) (by simp [Event.concerns]) fun _ => rfl
    | some x =>
      obtain ⟨k, t, frame⟩ := x
      have ht : t = target := by
        simp only [Op.raw?] at hraw
        split_ifs at hraw
        cases hraw
        rfl
      subst ht
      exact peerStep_submit hscope hs hnd hraw id
  | refreshPcPeers peers =>
    exact .of_silent (fun _ => rfl) (by simp [NodeState.exec]) fun _ => rfl
  | prunePeerLanes connected =>
    refine ⟨fun _ => rfl, fun _ h => absurd rfl h, ?_, ?_, fun h => ?_⟩
    · simp [NodeState.exec, prunePeerLanesEvents, evicts, admitted, Op.raw?]
    · simp [NodeState.exec, prunePeerLanesEvents, evicts, admitted, Op.raw?]
    · have hp : p ∈ connected := h
      simp only [NodeState.exec, lanesOf_prunePeerLanes, if_pos hp]
  | nextFrameFor q =>
    by_cases hq : q = p
    · subst hq
      refine ⟨fun k => ?_, fun _ _ => rfl, ?_, ?_, fun h => absurd rfl h⟩ <;>
        simp only [NodeState.exec, nextFrameForEvents, admitted, Op.raw?] <;> split <;>
        simp [pushes, evicts]
    · refine .of_silent (fun _ => rfl) ?_ fun _ => ?_
      · exact concerns_of_isAbout (by simpa using hq) (isAbout_nextFrameForEvents q s.shaper)
      · exact lanesOf_nextFrameFor_of_ne (Ne.symm hq) s.shaper
  | _ => exact hcall.elim

/-! ### Over whole runs -/

/-- A call is a run of steps of any pair of lanes. -/
theorem laneRun_exec {s s' : NodeState Addr G w} {op : Op Addr} {es : List (Event Addr)}
    (h : LaneStepOf cfg cg s op es s') (owner : Option Addr) :
    LaneRun cfg owner (s.shaper.lanesAt owner) es (s'.shaper.lanesAt owner) := by
  obtain ⟨hstep, hcall⟩ := h
  obtain ⟨rfl, rfl⟩ := NodeState.exec_of_step cfg cg hstep
  cases op with
  | enqueueRaw lane target frame => exact laneRun_enqueueRaw s.calls lane target frame s.shaper owner
  | enqueue lane target payload rng =>
    cases hraw : (Op.enqueue lane target payload rng).raw? cfg.toShapeConfig with
    | none =>
      rw [NodeState.exec_enqueue_of_raw_none cfg cg hraw]
      exact .keep (by simp [Event.concerns])
    | some x =>
      rw [NodeState.exec_of_raw cfg cg hraw]
      exact laneRun_enqueueRaw s.calls _ _ _ s.shaper owner
  | refreshPcPeers peers => cases owner <;> exact .keep (by simp [NodeState.exec])
  | prunePeerLanes connected => exact .of_step (laneStep_prunePeerLanes cfg connected s.shaper owner)
  | nextFrameFor peer => exact .of_step (laneStep_nextFrameFor cfg peer s.shaper owner)
  | _ => exact hcall.elim

/-- What holds after any run of these calls on a new node. -/
structure LaneInv (cfg : ShaperConfig) (tr : List (Event Addr)) (s : NodeState Addr G w) : Prop where
  /-- The representation invariant. -/
  wf : ShaperWf cfg s.shaper
  /-- No peer is cached twice. -/
  cached : s.shaper.pcPeers.Nodup
  /-- The ledger of every pair of lanes. -/
  ledger : ∀ owner, Ledger owner tr (s.shaper.lanesAt owner)

theorem LaneInv.step {s s' : NodeState Addr G w} {op : Op Addr} {tr es : List (Event Addr)}
    (hi : LaneInv cfg tr s) (h : LaneStepOf cfg cg s op es s') : LaneInv cfg (tr ++ es) s' := by
  have hledger := fun owner => (hi.ledger owner).run (laneRun_exec h owner)
  obtain ⟨hstep, hcall⟩ := h
  obtain ⟨rfl, rfl⟩ := NodeState.exec_of_step cfg cg hstep
  cases op with
  | enqueueRaw lane target frame =>
    refine ⟨hi.wf.enqueueRaw _ lane target frame, ?_, hledger⟩
    simpa only [NodeState.exec, pcPeers_enqueueRaw] using hi.cached
  | enqueue lane target payload rng =>
    refine ⟨hi.wf.enqueue _ lane target payload rng, ?_, hledger⟩
    simpa only [NodeState.exec, pcPeers_enqueue] using hi.cached
  | refreshPcPeers peers => exact ⟨hi.wf.refreshPcPeers peers, hcall, hledger⟩
  | prunePeerLanes connected =>
    refine ⟨hi.wf.prunePeerLanes connected, ?_, hledger⟩
    simpa only [NodeState.exec, pcPeers_prunePeerLanes] using hi.cached
  | nextFrameFor peer =>
    refine ⟨hi.wf.nextFrameFor peer, ?_, hledger⟩
    simpa only [NodeState.exec, pcPeers_nextFrameFor] using hi.cached
  | _ => exact hcall.elim

/-- **Conservation per peer.** After any run of the calls of this module on a new node in
`PerConnection` scope, for any peer: since its entry was last pruned, what left its high
lane at the front, then what is in it, is what was put in it, in order; the first high and
the last low frame are the oldest; and whatever is called next does to its lanes what
`PeerStep` says. -/
theorem peerLanes_conservation (hscope : cfg.scope ≠ .global) {sch : Scheduler Addr w} {gen : G}
    {ops : List (Op Addr)} {tr : List (Event Addr)} {s : NodeState Addr G w}
    (h : Run (LaneStepOf cfg cg) (.new sch gen) ops tr s) (p : Addr) :
    removed (some p) .high (sincePrune (some p) tr) ++ (s.shaper.lanesOf p).high =
      pushes (some p) .high (sincePrune (some p) tr) ∧
    (∀ f, (s.shaper.lanesOf p).high.head? = some f → ∀ g ∈ (s.shaper.lanesOf p).high.tail,
      [f, g].Sublist (pushes (some p) .high (sincePrune (some p) tr))) ∧
    (∀ f, (s.shaper.lanesOf p).low.getLast? = some f → ∀ g ∈ (s.shaper.lanesOf p).low.dropLast,
      [f, g].Sublist (pushes (some p) .low (sincePrune (some p) tr))) ∧
    ∀ {op es s'}, LaneStepOf cfg cg s op es s' → PeerStep cfg s op p es s' := by
  have hinv : LaneInv cfg tr s :=
    h.invariant ⟨ShaperWf.new, List.nodup_nil, fun owner => by cases owner <;> exact Ledger.empty⟩
      fun hi hstep => hi.step hstep
  have hledger : Ledger (some p) tr (s.shaper.lanesOf p) := hinv.ledger (some p)
  exact ⟨hledger.high, fun f hf => hledger.head_oldest hf, fun f hf => hledger.last_oldest hf,
    fun hstep => peerStep hscope hinv.wf hinv.cached hstep p⟩

/-- Two peers with one place in each high lane, and two broadcasts. -/
theorem peerLanes_conservation_two :
    let cfg : ShaperConfig := { scope := .perConnection true, highLaneCapacity := 1, accepted := by decide }
    let s₀ : NodeState ℕ (Stream' UInt8) 64 := .new { rng := Stream'.const 1 } (Stream'.const 5)
    let a := s₀.exec cfg randomCover (.refreshPcPeers [1, 2])
    let b := a.2.exec cfg randomCover (.broadcastShaped [7] (Stream'.const 0))
    let c := b.2.exec cfg randomCover (.broadcastShaped [8] (Stream'.const 0))
    let tr := a.1 ++ b.1 ++ c.1
    removed (some 1) .high (sincePrune (some 1) tr) ++ (c.2.shaper.lanesOf 1).high =
      pushes (some 1) .high (sincePrune (some 1) tr) ∧
    (∀ f, (c.2.shaper.lanesOf 1).high.head? = some f → ∀ g ∈ (c.2.shaper.lanesOf 1).high.tail,
      [f, g].Sublist (pushes (some 1) .high (sincePrune (some 1) tr))) ∧
    (∀ f, (c.2.shaper.lanesOf 1).low.getLast? = some f → ∀ g ∈ (c.2.shaper.lanesOf 1).low.dropLast,
      [f, g].Sublist (pushes (some 1) .low (sincePrune (some 1) tr))) ∧
    ∀ {op es s'}, LaneStepOf cfg randomCover c.2 op es s' → PeerStep cfg c.2 op 1 es s' :=
  peerLanes_conservation (by decide)
    (((run_laneCall (.refreshPcPeers [1, 2]) (by simp [LaneCall])).trans
      (run_laneCall (.broadcastShaped [7] (Stream'.const 0)) trivial)).trans
      (run_laneCall (.broadcastShaped [8] (Stream'.const 0)) trivial)) 1

end Peashape.Shaping

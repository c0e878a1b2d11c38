import Peashape.Shaping.Interleaving
import Peashape.Shaping.Slots
import Peashape.Shaping.Waiting

/-!
# How long a high frame waits

A high unicast frame that was accepted with `k` frames ahead of it in its lane is popped on the
`(k + 1)`-th tick that pops from that lane, whatever is submitted meanwhile: in `Global` scope
every tick with peers connected does, and in `PerConnection` scope, without random offsets,
one of every `n` ticks, if there are `n` peers. See `high_unicast_delay`.

The place of the frame in its lane is followed by `Foundation.observe_place`, and the slots of
`PerConnection` scope are the turns of `Foundation.RoundRobin`.
-/

namespace Peashape.Shaping

open Foundation Shaper NodeState RoundRobin

variable {Addr G : Type*} [DecidableEq Addr] {w : ℕ} {cfg : ShaperConfig} {cg : CoverGenerator G}
  {s : NodeState Addr G w} {op : Op Addr} {f : PendingFrame Addr} {k : Option ℕ} {p : Addr}

/-! ### What a tick shows -/

/-- The frame an event takes from a lane. -/
def Event.popped? : Event Addr → Option (PendingFrame Addr)
  | .pop _ _ f => some f
  | _ => none

/-- The frame a tick drained. -/
def drained (es : List (Event Addr)) : Option (PendingFrame Addr) := es.findSome? Event.popped?

omit [DecidableEq Addr] in
/-- Making a frame and sending it takes nothing from a lane. -/
theorem drained_of_ofDispatch {es : List (Event Addr)} (h : ∀ e ∈ es, e.ofDispatch = true) :
    drained es = none := by
  refine List.findSome?_eq_none_iff.mpr fun e he => ?_
  have hd := h e he
  cases e <;> first | rfl | cases hd

omit [DecidableEq Addr] in
theorem drained_append (es es' : List (Event Addr)) : drained (es ++ es') = (drained es).or (drained es') :=
  List.findSome?_append

omit [DecidableEq Addr] in
theorem drained_nextFrameEvents (sh : Shaper Addr) : drained sh.nextFrameEvents = sh.nextFrame.1 := by
  rcases nextFrame_cases sh with ⟨f, high, -, hn, hes⟩ | ⟨f, low, -, -, hn, hes⟩ | ⟨-, -, hn, hes⟩ <;>
    rw [hn, hes] <;> rfl

theorem drained_prunePeerLanesEvents (connected : List Addr) (sh : Shaper Addr) :
    drained (sh.prunePeerLanesEvents connected) = none := rfl

theorem drained_nextFrameForEvents (peer : Addr) (sh : Shaper Addr) :
    drained (sh.nextFrameForEvents peer) = (sh.nextFrameFor peer).1 := by
  rw [(lanesAt_nextFrameFor sh peer none).1]
  unfold nextFrameForEvents
  rcases sh.lanesOf peer with ⟨_ | ⟨f, high⟩, _ | ⟨g, low⟩⟩ <;> rfl

/-- A `Global` tick with peers connected drains the next frame. -/
theorem sendOne_global_drains (hscope : cfg.scope = .global) (q : Addr) (qs : List Addr) :
    drained (sendOne cfg cg (q :: qs) s).1 = s.shaper.nextFrame.1 ∧
      (sendOne cfg cg (q :: qs) s).2.shaper = s.shaper.nextFrame.2 := by
  have hdispatch :
      drained (dispatchTick cfg cg (q :: qs) s.shaper.nextFrame.1 s.gen s.scheduler).events = none :=
    drained_of_ofDispatch (ofDispatch_dispatchTick _ _ _ _)
  simp only [sendOne, hscope]
  refine ⟨?_, trivial⟩
  rw [drained_append, hdispatch, Option.or_none]
  exact drained_nextFrameEvents s.shaper

variable (cg) in
/-- A `PerConnection` tick drains the next frame of the peer whose turn it is, and leaves the
lanes of the other connected peers alone. -/
theorem sendOne_perConnection_drains {randomize : Bool} (hscope : cfg.scope = .perConnection randomize)
    (s : NodeState Addr G w) (q : Addr) (qs : List Addr) :
    let picked := (s.scheduler.pickRoundRobin q qs randomize).1
    let t := sendOne cfg cg (q :: qs) s
    sends t.1 = [(picked, (frameToSend cfg cg (drained t.1) s.gen).1)] ∧
      drained t.1 = (s.shaper.lanesOf picked).take.1 ∧
      ∀ p ∈ q :: qs, t.2.shaper.lanesOf p =
        if p = picked then (s.shaper.lanesOf picked).take.2 else s.shaper.lanesOf p := by
  intro picked t
  let pruned := (s.shaper.refreshPcPeers (q :: qs)).prunePeerLanes (q :: qs)
  have hlanes : ∀ p ∈ q :: qs, pruned.lanesOf p = s.shaper.lanesOf p := by
    intro p hp
    show ((s.shaper.refreshPcPeers (q :: qs)).prunePeerLanes (q :: qs)).lanesOf p = _
    rw [lanesOf_prunePeerLanes, if_pos hp]
    rfl
  have hpicked : picked ∈ q :: qs := mem_pickRoundRobin q qs randomize s.scheduler
  have hes : t.1 = [.snapshot (q :: qs)] ++ (s.shaper.refreshPcPeers (q :: qs)).prunePeerLanesEvents (q :: qs) ++
      pruned.nextFrameForEvents picked ++ [(frameToSend cfg cg (pruned.nextFrameFor picked).1 s.gen).2.1,
        .send picked (frameToSend cfg cg (pruned.nextFrameFor picked).1 s.gen).1] := by
    simp only [t, sendOne, hscope]
    rfl
  have hsh : t.2.shaper = (pruned.nextFrameFor picked).2 := by
    simp only [t, sendOne, hscope]
    rfl
  have hdrained : drained t.1 = (pruned.nextFrameFor picked).1 := by
    have hsent : drained [(frameToSend cfg cg (pruned.nextFrameFor picked).1 s.gen).2.1,
        .send picked (frameToSend cfg cg (pruned.nextFrameFor picked).1 s.gen).1] = none :=
      drained_of_ofDispatch (ofDispatch_frameToSend _ _ _)
    rw [hes, drained_append, drained_append, drained_append, drained_prunePeerLanesEvents, hsent, Option.or_none,
      drained_nextFrameForEvents]
    rfl
  refine ⟨?_, ?_, fun p hp => ?_⟩
  · rw [hdrained]
    exact (sendOne_perConnection cg hscope q qs s).1
  · rw [hdrained, (lanesAt_nextFrameFor pruned picked none).1, hlanes picked hpicked]
  · have hnext := (lanesAt_nextFrameFor pruned picked (some p)).2
    rw [hsh]
    show (pruned.nextFrameFor picked).2.lanesAt (some p) = _
    rw [hnext, hlanes picked hpicked]
    by_cases heq : p = picked
    · rw [if_pos heq, if_pos (congrArg some heq)]
    · rw [if_neg heq, if_neg fun h => heq (Option.some.inj h)]
      exact hlanes p hp

/-! ### What a call does to the frame's place -/

/-- A submission leaves the place alone, if the high lane has room for what it adds. -/
theorem waits_submit {owner : Option Addr} {call : ℕ} (hop : op.submits = true)
    (horigin : f.origin = .enqueued call) (hcall : call < s.calls)
    (hroom : ∀ target frame, op.raw? cfg.toShapeConfig = some (.high, target, frame) →
      (s.shaper.enqueueRaw cfg s.calls .high target frame).1 = .ok () →
      (destinations cfg s.shaper target).count owner ≠ 0 →
      (s.shaper.lanesAt owner).high.length + (destinations cfg s.shaper target).count owner ≤
        cfg.highLaneCapacity)
    (h : Waits f k (s.shaper.lanesAt owner)) :
    Waits f k ((s.exec cfg cg op).2.shaper.lanesAt owner) := by
  rcases lanesAt_submit_cases cfg cg s hop with ⟨-, hsame⟩ | ⟨lane, target, frame, hraw, hok, hlanes⟩
  · rwa [hsame]
  · have hne : f ≠ queuedFrame s.calls target frame owner := by
      rintro rfl
      rw [Numbered.origin_queuedFrame] at horigin
      cases horigin
      omega
    rw [hlanes]
    refine h.withFrame_iterate hne fun hl => ?_
    subst hl
    exact hroom target frame hraw hok

/-- In `Global` scope there is room for what is accepted. -/
theorem waits_submit_global {call : ℕ} (hscope : cfg.scope = .global) (hop : op.submits = true)
    (horigin : f.origin = .enqueued call) (hcall : call < s.calls) (h : Waits f k (s.shaper.lanesAt none)) :
    Waits f k ((s.exec cfg cg op).2.shaper.lanesAt none) := by
  refine waits_submit hop horigin hcall (fun target frame _ hok _ => ?_) h
  obtain ⟨-, hroom⟩ := room_of_ok hok
  rw [destinations_global hscope, List.count_singleton_self]
  exact lt_of_room_global hscope hroom rfl

/-- A high broadcast, if this is one, finds room for each of its copies for the peer: one for
every time it is cached. -/
def BroadcastFits (cfg : ShaperConfig) (p : Addr) (s : NodeState Addr G w) (op : Op Addr) : Prop :=
  ∀ frame, op.raw? cfg.toShapeConfig = some (.high, .broadcast, frame) → frame.length = cfg.frameSize →
    p ∈ s.shaper.pcPeers →
      (s.shaper.lanesOf p).high.length + s.shaper.pcPeers.count p ≤ cfg.highLaneCapacity

/-- In `PerConnection` scope a high broadcast may find none. -/
theorem waits_submit_perConnection {call : ℕ} (hscope : cfg.scope ≠ .global) (hop : op.submits = true)
    (horigin : f.origin = .enqueued call) (hcall : call < s.calls) (hfits : BroadcastFits cfg p s op)
    (h : Waits f k (s.shaper.lanesOf p)) : Waits f k ((s.exec cfg cg op).2.shaper.lanesOf p) := by
  have hat : Waits f k (s.shaper.lanesAt (some p)) := h
  refine waits_submit hop horigin hcall (fun target frame hraw hok hcount => ?_) hat
  obtain ⟨hsize, hroom⟩ := room_of_ok hok
  cases target with
  | unicast peer =>
    rw [destinations_unicast hscope] at hcount ⊢
    have hmem : some p ∈ [some peer] := List.count_pos_iff.mp (Nat.pos_of_ne_zero hcount)
    obtain rfl : peer = p := Option.some.inj (List.mem_singleton.mp hmem).symm
    rw [List.count_singleton_self]
    exact lt_of_room_unicast hscope hroom rfl
  | broadcast =>
    rw [destinations_broadcast hscope] at hcount ⊢
    rw [List.count_map_of_injective _ _ (Option.some_injective Addr)] at hcount ⊢
    exact hfits frame hraw hsize (List.count_pos_iff.mp (Nat.pos_of_ne_zero hcount))

/-- Submissions are counted, and ticks are not. -/
theorem calls_exec (hop : op.submits = true ∨ ∃ peers, op.snapshot? = some peers) :
    s.calls ≤ (s.exec cfg cg op).2.calls := by
  cases op with
  | enqueue lane target payload rng => exact Nat.le_succ _
  | enqueueRaw lane target frame => exact Nat.le_succ _
  | sendOne peers =>
    show s.calls ≤ (sendOne cfg cg peers s).2.calls
    unfold sendOne
    split <;> cases peers <;> exact le_rfl
  | _ => rcases hop with hop | ⟨peers, hop⟩ <;> cases hop

/-! ### The slots -/

/-- The peers connected at a tick, by its snapshot. -/
def connectedAt : List (Event Addr) → List Addr
  | .snapshot peers :: _ => peers
  | _ => []

theorem connectedAt_sendOne (peers : List Addr) : connectedAt (sendOne cfg cg peers s).1 = peers := by
  unfold sendOne
  split <;> cases peers <;> rfl

/-- The ticks with peers connected. -/
def drains (es : List (List (Event Addr))) : List (List (Event Addr)) := es.filter fun es => connectedAt es ≠ []

/-- The ticks that send to the peer alone. -/
def slotsOf (p : Addr) (es : List (List (Event Addr))) : List (List (Event Addr)) :=
  es.filter fun es => recipients es = [p]

/-- The tick takes the frame from its lane and sends it, finalized, to the peer. -/
def Delivers (cfg : ShaperConfig) (cg : CoverGenerator G) (p : Addr) (f : PendingFrame Addr)
    (es : List (Event Addr)) : Prop :=
  drained es = some f ∧ ∃ g, sends es = [(p, (frameToSend cfg cg (some f) g).1)]

/-- What follows the submission of the frame: submissions and ticks. -/
def SubmitsOrTicks (op : Op Addr) : Prop := op.submits = true ∨ ∃ peers, op.snapshot? = some peers

/-- A `Global` tick with peers connected drains the frame exactly if nothing is ahead of it. -/
theorem waits_tick_global (hscope : cfg.scope = .global) (q : Addr) (qs : List Addr)
    (h : Waits f k (s.shaper.lanesAt none)) :
    (drained (sendOne cfg cg (q :: qs) s).1 = some f ↔ k = some 0) ∧
      Waits f (advance k) ((sendOne cfg cg (q :: qs) s).2.shaper.lanesAt none) := by
  obtain ⟨hdrained, hsh⟩ : _ ∧ (sendOne cfg cg (q :: qs) s).2.shaper = _ := sendOne_global_drains hscope q qs
  obtain ⟨hhead, hrest⟩ := h.take
  rw [hdrained, hsh, (lanesAt_nextFrame s.shaper none).1, (lanesAt_nextFrame s.shaper none).2, if_pos rfl]
  exact ⟨hhead, hrest⟩

/-- In `Global` scope the tick that drains the frame is the one whose number is the frame's
place. -/
theorem drained_iff_global {call : ℕ} (hscope : cfg.scope = .global) (horigin : f.origin = .enqueued call)
    {ops : List (Op Addr)} (hops : ∀ op ∈ ops, SubmitsOrTicks op) (hcall : call < s.calls)
    (h : Waits f k (s.shaper.lanesAt none)) {i : ℕ} {es : List (Event Addr)}
    (hes : (drains (ticks cfg cg s ops))[i]? = some es) : drained es = some f ↔ k = some i := by
  refine observe_place (fun es => connectedAt es ≠ []) (fun es => drained es = some f)
    (fun k s => Waits f k (s.shaper.lanesAt none)) (I := fun s : NodeState Addr G w => call < s.calls)
    (C := fun _ op => SubmitsOrTicks op) ?_ ?_ ?_ ?_ hcall (always_of_forall_mem _ s hops) h hes
  · exact fun hs hop => hs.trans_le (calls_exec hop)
  · intro s op k hs hop hv hk
    rcases hop with hop | ⟨peers, hop⟩
    · exact waits_submit_global hscope hop horigin hs hk
    · rw [hop] at hv
      cases hv
  · intro s op peers k _ _ hv hturn hk
    cases op <;> cases hv
    have hnil : peers = [] := by simpa [NodeState.exec, connectedAt_sendOne] using hturn
    show Waits f k ((sendOne cfg cg peers s).2.shaper.lanesAt none)
    rw [hnil, sendOne_global_nil cg hscope]
    exact hk
  · intro s op peers k _ _ hv hturn hk
    cases op <;> cases hv
    have hne : peers ≠ [] := by simpa [NodeState.exec, connectedAt_sendOne] using hturn
    obtain ⟨q, qs, rfl⟩ := List.exists_cons_of_ne_nil hne
    exact waits_tick_global hscope q qs hk

/-- A `PerConnection` tick that sends to a connected peer delivers the peer's frame exactly if
nothing is ahead of it, and one that sends to another leaves its place alone. -/
theorem waits_tick_perConnection {randomize : Bool} (hscope : cfg.scope = .perConnection randomize)
    {peers : List Addr} (hp : p ∈ peers) (h : Waits f k (s.shaper.lanesOf p)) :
    (recipients (sendOne cfg cg peers s).1 = [p] →
        (Delivers cfg cg p f (sendOne cfg cg peers s).1 ↔ k = some 0) ∧
          Waits f (advance k) ((sendOne cfg cg peers s).2.shaper.lanesOf p)) ∧
      (recipients (sendOne cfg cg peers s).1 ≠ [p] →
        Waits f k ((sendOne cfg cg peers s).2.shaper.lanesOf p)) := by
  obtain ⟨q, qs, rfl⟩ := List.exists_cons_of_ne_nil (List.ne_nil_of_mem hp)
  obtain ⟨hsends, hdrained, hlanes⟩ := sendOne_perConnection_drains cg hscope s q qs
  obtain ⟨hhead, hrest⟩ := h.take
  rw [hlanes p hp]
  have hto : recipients (sendOne cfg cg (q :: qs) s).1 = [p] ↔
      p = (s.scheduler.pickRoundRobin q qs randomize).1 := by
    rw [recipients, hsends]
    simp [eq_comm]
  rw [hto]
  constructor
  · intro heq
    rw [if_pos heq, ← heq]
    rw [← heq] at hsends hdrained
    refine ⟨?_, hrest⟩
    rw [Delivers, hdrained, hhead]
    refine and_iff_left_of_imp fun hk => ⟨s.gen, ?_⟩
    rw [hsends, hdrained, hhead.mpr hk]
  · intro hne
    rw [if_neg (mt hto.mpr hne)]
    exact h

/-- In `PerConnection` scope the frame goes out in the peer's slot whose number is the frame's
place. -/
theorem delivers_iff_perConnection {call : ℕ} {randomize : Bool} (hscope : cfg.scope = .perConnection randomize)
    (horigin : f.origin = .enqueued call) {peers : List Addr} (hp : p ∈ peers) {ops : List (Op Addr)}
    (hops : Always (NodeState.exec cfg cg)
      (fun s op => (op.submits = true ∨ op.snapshot? = some peers) ∧ BroadcastFits cfg p s op) s ops)
    (hcall : call < s.calls) (h : Waits f k (s.shaper.lanesOf p)) {i : ℕ} {es : List (Event Addr)}
    (hes : (slotsOf p (ticks cfg cg s ops))[i]? = some es) : Delivers cfg cg p f es ↔ k = some i := by
  refine observe_place (fun es => recipients es = [p]) (Delivers cfg cg p f)
    (fun k s => Waits f k (s.shaper.lanesOf p)) (I := fun s : NodeState Addr G w => call < s.calls) ?_ ?_ ?_ ?_
    hcall hops h hes
  · rintro s op hs ⟨hop, -⟩
    exact hs.trans_le (calls_exec (hop.imp_right fun hop => ⟨peers, hop⟩))
  · rintro s op k hs ⟨hop, hfits⟩ hv hk
    rcases hop with hop | hop
    · exact waits_submit_perConnection (cfg.scope_ne_global hscope) hop horigin hs hfits hk
    · rw [hop] at hv
      cases hv
  · rintro s op snapshot k - ⟨hop, -⟩ hv hturn hk
    cases op <;> cases hv
    obtain rfl : snapshot = peers := by simpa [Op.submits, Op.snapshot?] using hop
    exact (waits_tick_perConnection hscope hp hk).2 (of_decide_eq_false hturn)
  · rintro s op snapshot k - ⟨hop, -⟩ hv hturn hk
    cases op <;> cases hv
    obtain rfl : snapshot = peers := by simpa [Op.submits, Op.snapshot?] using hop
    exact (waits_tick_perConnection hscope hp hk).1 (of_decide_eq_true hturn)

/-- In a run of turns, the first `m` rounds have `m` slots for each peer. -/
theorem length_slotsOf {peers : List Addr} (hl : 0 < peers.length) (hnd : peers.Nodup) (hp : p ∈ peers)
    {seen : List (List (Event Addr))} {c m : ℕ}
    (hseen : seen.map recipients = (turns peers hl c (m * peers.length)).map fun q => [q]) :
    (slotsOf p seen).length = m := by
  have hcount : (slotsOf p seen).length = (seen.map recipients).count [p] := by
    rw [slotsOf, ← List.countP_eq_length_filter, List.count, List.countP_map]
    exact List.countP_congr fun es _ => by simp
  have hinj : Function.Injective fun q : Addr => [q] := fun a b hab => List.singleton_inj.mp hab
  rw [hcount, hseen, List.count_map_of_injective _ _ hinj, count_turns hl hnd hp]

/-- So slot `k` of a peer comes within `k + 1` rounds. -/
theorem exists_slotsOf {peers : List Addr} (hl : 0 < peers.length) (hnd : peers.Nodup) (hp : p ∈ peers)
    {seen : List (List (Event Addr))} {c k : ℕ}
    (hseen : seen.map recipients = (turns peers hl c seen.length).map fun q => [q])
    (hlen : (k + 1) * peers.length ≤ seen.length) :
    ∃ es ∈ seen.take ((k + 1) * peers.length), (slotsOf p seen)[k]? = some es := by
  have hfirst : (seen.take ((k + 1) * peers.length)).map recipients =
      (turns peers hl c ((k + 1) * peers.length)).map fun q => [q] := by
    have htake : ((turns peers hl c seen.length).drop 0).take _ =
        turns peers hl (c + 0) ((k + 1) * peers.length) :=
      take_drop_turns hl c (by omega)
    rw [List.map_take, hseen, ← List.map_take]
    exact congrArg (List.map fun q => [q]) htake
  have hk : k < (slotsOf p (seen.take ((k + 1) * peers.length))).length := by
    rw [length_slotsOf hl hnd hp hfirst]
    exact Nat.lt_succ_self k
  obtain ⟨es, hes⟩ : ∃ es, (slotsOf p (seen.take ((k + 1) * peers.length)))[k]? = some es :=
    ⟨_, List.getElem?_eq_getElem hk⟩
  refine ⟨es, List.mem_of_mem_filter (List.mem_of_getElem? hes), ?_⟩
  have hsplit : slotsOf p seen = slotsOf p (seen.take ((k + 1) * peers.length)) ++
      slotsOf p (seen.drop ((k + 1) * peers.length)) := by
    rw [slotsOf, slotsOf, slotsOf, ← List.filter_append, List.take_append_drop]
  rw [hsplit, List.getElem?_append_left hk, hes]

/-! ### The frame accepted -/

/-- The frame stands behind those that were in its lane. -/
theorem waits_accepted (hnum : Numbered s.calls s.shaper) {frame : Bytes}
    (hraw : op.raw? cfg.toShapeConfig = some (.high, .unicast p, frame))
    (hok : (s.shaper.enqueueRaw cfg s.calls .high (.unicast p) frame).1 = .ok ()) {owner : Option Addr}
    (howner : owner = if cfg.scope = .global then none else some p) :
    (s.exec cfg cg op).2.calls = s.calls + 1 ∧
      Waits (peerFrame p frame s.calls) (some (s.shaper.lanesAt owner).high.length)
        ((s.exec cfg cg op).2.shaper.lanesAt owner) := by
  rw [exec_of_raw cfg cg hraw]
  refine ⟨rfl, ?_⟩
  show Waits _ _ ((s.shaper.enqueueRaw cfg s.calls .high (.unicast p) frame).2.lanesAt owner)
  obtain ⟨-, hroom⟩ := room_of_ok hok
  have hnew := hnum.not_mem owner (rfl : (peerFrame p frame s.calls).origin = .enqueued s.calls)
  rw [enqueueRaw_lanes hok]
  by_cases hscope : cfg.scope = .global
  · rw [if_pos hscope] at howner
    subst howner
    rw [destinations_global hscope, List.count_singleton_self]
    exact Waits.of_new hnew (lt_of_room_global hscope hroom rfl)
  · rw [if_neg hscope] at howner
    subst howner
    rw [destinations_unicast hscope, List.count_singleton_self]
    exact Waits.of_new hnew (lt_of_room_unicast hscope hroom rfl)

/-- The number of ticks with peers connected. -/
theorem length_drains (cfg : ShaperConfig) (cg : CoverGenerator G) (s : NodeState Addr G w)
    (ops : List (Op Addr)) :
    (drains (ticks cfg cg s ops)).length = picks ops := by
  have hall : List.Forall₂ (fun peers es => connectedAt es = peers) (ops.filterMap Op.snapshot?)
      (ticks cfg cg s ops) := by
    refine forall₂_observe (I := fun _ => True) (fun _ => trivial) (fun {s op peers} _ hop => ?_) trivial
    cases op <;> cases hop
    exact connectedAt_sendOne peers
  have hmap : ops.filterMap Op.snapshot? = (ticks cfg cg s ops).map connectedAt := by
    rw [← List.forall₂_eq_eq_eq, List.forall₂_map_right_iff]
    exact hall.imp fun _ _ h => h.symm
  rw [picks, hmap, List.countP_map, drains, List.countP_eq_length_filter]
  rfl

/-- **How long a high frame waits.** After any calls on a new node, let a high unicast frame for
`p` be accepted with `k` frames ahead of it in its lane, and let any submissions and ticks
follow. In `Global` scope, of the ticks with peers connected the one with number `k`, counted
from `0`, drains the frame, and no other. In `PerConnection` scope without random offsets, if
all these ticks see the same `n` peers, `p` among them, no high broadcast meanwhile finds `p`'s
high lane at capacity, and the cursor has not wrapped: any `n` ticks in a row have one slot for
each peer; of the slots of `p` the one with number `k` sends it the frame, and no other; and so
one of the first `(k + 1) * n` ticks does. -/
theorem high_unicast_delay {sch : Scheduler Addr w} {gen : G} {pre : List (Op Addr)} {tr : List (Event Addr)}
    {s₀ : NodeState Addr G w} (hrun : Run (NodeState.Step cfg cg) (.new sch gen) pre tr s₀) {frame : Bytes}
    (hraw : op.raw? cfg.toShapeConfig = some (.high, .unicast p, frame))
    (hok : (s₀.shaper.enqueueRaw cfg s₀.calls .high (.unicast p) frame).1 = .ok ())
    {ops : List (Op Addr)} (hops : ∀ o ∈ ops, SubmitsOrTicks o) :
    let s := (s₀.exec cfg cg op).2
    let f := peerFrame p frame s₀.calls
    let seen := ticks cfg cg s ops
    (cfg.scope = .global →
      (drains seen).length = picks ops ∧
      ∀ i es, (drains seen)[i]? = some es → (drained es = some f ↔ i = s₀.shaper.highLane.length)) ∧
    (cfg.scope = .perConnection false → ∀ peers : List Addr, peers.Nodup → p ∈ peers →
      SamePeers peers ops →
      Always (NodeState.exec cfg cg) (BroadcastFits cfg p) s ops →
      sch.cursor.toNat + picks (pre ++ ops) ≤ 2 ^ w →
      let k := (s₀.shaper.lanesOf p).high.length
      (∃ order : List Addr, seen.map recipients = order.map (fun q => [q]) ∧
        ∀ i, i + peers.length ≤ order.length → ((order.drop i).take peers.length).Perm peers) ∧
      (∀ i es, (slotsOf p seen)[i]? = some es → (Delivers cfg cg p f es ↔ i = k)) ∧
      ((k + 1) * peers.length ≤ seen.length →
        ∃ es ∈ seen.take ((k + 1) * peers.length), Delivers cfg cg p f es)) := by
  intro s f seen
  have hnum : Numbered s₀.calls s₀.shaper := .run hrun
  constructor
  · intro hscope
    obtain ⟨hcalls, hwaits⟩ : s.calls = _ ∧ Waits f _ (s.shaper.lanesAt none) :=
      waits_accepted hnum hraw hok (if_pos hscope).symm
    refine ⟨length_drains cfg cg s ops, fun i es hes => ?_⟩
    have hiff := drained_iff_global hscope rfl hops (by omega) hwaits hes
    exact hiff.trans ((Option.some_inj).trans eq_comm)
  · intro hscope peers hnd hp hsame hfits hwrap k
    have hl : 0 < peers.length := List.length_pos_of_mem hp
    obtain ⟨hcalls, hwaits⟩ : s.calls = _ ∧ Waits f (some k) (s.shaper.lanesAt (some p)) :=
      waits_accepted hnum hraw hok (if_neg (cfg.scope_ne_global hscope)).symm
    have hops' : ∀ o ∈ ops, o.submits = true ∨ o.snapshot? = some peers := by
      intro o ho
      refine (hops o ho).imp_right fun ⟨snapshot, hsnap⟩ => ?_
      rw [hsnap, hsame snapshot (List.mem_filterMap.mpr ⟨o, ho, hsnap⟩)]
    have hslots : ∀ i es, (slotsOf p seen)[i]? = some es → (Delivers cfg cg p f es ↔ i = k) := by
      intro i es hes
      have hiff := delivers_iff_perConnection hscope rfl hp ((always_of_forall_mem _ s hops').and hfits)
        (by omega) hwaits hes
      exact hiff.trans ((Option.some_inj).trans eq_comm)
    -- the slots are turns, since the cursor has not wrapped
    have hcursor : s.scheduler.cursor.toNat + (ops.filterMap Op.snapshot?).length ≤ 2 ^ w := by
      have hsch : s.scheduler = s₀.scheduler := by
        simp only [s, exec_of_raw cfg cg hraw]
        rfl
      have hle : s₀.scheduler.cursor.toNat ≤ sch.cursor.toNat + picks pre := cursor_le_run hscope hrun
      rw [picks_append, picks_of_same (List.ne_nil_of_mem hp) hsame] at hwrap
      rw [hsch]
      omega
    have hseen : seen.map recipients = (turns peers hl s.scheduler.cursor.toNat seen.length).map fun q => [q] :=
      recipients_ticks hscope hl hsame hcursor
    refine ⟨⟨_, hseen, fun i hi => ?_⟩, hslots, fun hlen => ?_⟩
    · rw [length_turns] at hi
      rw [take_drop_turns hl _ hi]
      exact turns_perm hl _
    · obtain ⟨es, hmem, hes⟩ := exists_slotsOf hl hnd hp hseen hlen
      exact ⟨es, hmem, (hslots k es hes).mpr rfl⟩

/-- After a tick and two other frames for peer 1, a frame for peer 1 with these two ahead of it, a
low broadcast after it, and six ticks over two peers: the third one drains it in `Global` scope,
and in `PerConnection` scope peer 1 has its third slot within the six. -/
theorem high_unicast_delay_two :
    let cfg : ShaperConfig := { frameSize := 32, accepted := by decide }
    let pc : ShaperConfig := { frameSize := 32, scope := .perConnection false, accepted := by decide }
    let new : NodeState ℕ (Stream' UInt8) 64 := .new { rng := Stream'.const 1 } (Stream'.const 5)
    let frame := List.replicate 32 7
    let op : Op ℕ := .enqueueRaw .high (.unicast 1) frame
    let pre : List (Op ℕ) := [.sendOne [1, 2], op, op]
    let ops : List (Op ℕ) := .enqueueRaw .low .broadcast (List.replicate 32 8) :: List.replicate 6 (.sendOne [1, 2])
    (∃ tr s₀, Run (NodeState.Step cfg randomCover) new pre tr s₀ ∧
      ∀ i es, (drains (ticks cfg randomCover (s₀.exec cfg randomCover op).2 ops))[i]? = some es →
        (drained es = some (peerFrame 1 frame 2) ↔ i = 2)) ∧
    ∃ tr s₀, Run (NodeState.Step pc randomCover) new pre tr s₀ ∧
      ∃ es ∈ (ticks pc randomCover (s₀.exec pc randomCover op).2 ops).take ((2 + 1) * 2),
        Delivers pc randomCover 1 (peerFrame 1 frame 2) es := by
  intro cfg pc new frame op pre ops
  have hops : ∀ o ∈ ops, SubmitsOrTicks o := by
    intro o ho
    rcases List.mem_cons.mp ho with rfl | ho
    · exact .inl rfl
    · rw [List.eq_of_mem_replicate ho]
      exact .inr ⟨_, rfl⟩
  constructor
  · obtain ⟨tr, s₀, hrun, hok, hk, hcalls⟩ : ∃ tr s₀, Run (NodeState.Step cfg randomCover) new pre tr s₀ ∧
        (s₀.shaper.enqueueRaw cfg s₀.calls .high (.unicast 1) frame).1 = .ok () ∧ s₀.shaper.highLane.length = 2 ∧
          s₀.calls = 2 := exists_run_of_exec (by decide +kernel)
    have hraw : op.raw? cfg.toShapeConfig = some (.high, .unicast 1, frame) := rfl
    have hdelay := ((high_unicast_delay hrun hraw hok hops).1 rfl).2
    rw [hk, hcalls] at hdelay
    exact ⟨tr, s₀, hrun, hdelay⟩
  · obtain ⟨tr, s₀, hrun, hok, hk, hcalls⟩ : ∃ tr s₀, Run (NodeState.Step pc randomCover) new pre tr s₀ ∧
        (s₀.shaper.enqueueRaw pc s₀.calls .high (.unicast 1) frame).1 = .ok () ∧
          (s₀.shaper.lanesOf 1).high.length = 2 ∧ s₀.calls = 2 := exists_run_of_exec (by decide +kernel)
    -- there is no high broadcast
    have hfits : ∀ s : NodeState ℕ (Stream' UInt8) 64,
        Always (NodeState.exec pc randomCover) (BroadcastFits pc 1) s ops := by
      refine fun s => ⟨?_, ?_, ?_, ?_, ?_, ?_, ?_, trivial⟩ <;> intro b hb <;> cases hb
    have hraw : op.raw? pc.toShapeConfig = some (.high, .unicast 1, frame) := rfl
    have hdelay := ((high_unicast_delay hrun hraw hok hops).2 rfl [1, 2] (by decide) (by decide)
      (by decide) (hfits _) (by decide)).2.2
    rw [hk, hcalls, length_ticks] at hdelay
    exact ⟨tr, s₀, hrun, hdelay (by decide)⟩

end Peashape.Shaping

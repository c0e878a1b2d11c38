import Peashape.Foundation.Segments
import Peashape.Shaping.Provenance
import Mathlib.Data.List.Nodup
import Mathlib.Data.Multiset.UnionInter

/-!
# Conservation in `Global` scope

The shared lanes and the ticks of a timed strategy, over any interleaving of submissions
with the steps of the scheduler (`send_one`).

The lanes: what is popped from the high lane and then what is in it is what was accepted,
in order, and what was accepted into the low lane was popped, evicted or is in it. This
is the ledger of the shared lanes, and that in this scope the frames put in a lane are
the frames accepted.

The ticks: the history is cut before every snapshot (`ticks`), and `TickOk` says what
becomes of the frame of a tick. A frame is popped in one tick only, as the calls are
numbered, so it is sent in one tick only.
-/

namespace Peashape.Shaping

open Foundation Shaper SystemState

variable {Addr G : Type*} [DecidableEq Addr] {w : ℕ} {cfg : ShaperConfig} {cg : CoverGenerator G}
  {s s' : SystemState Addr G w} {a : Act Addr} {es tr : List (Event Addr)} {lane : Lane}
  {f : PendingFrame Addr}

/-! ### Submissions -/

omit [DecidableEq Addr] in
theorem accepted_append (tr tr' : List (Event Addr)) :
    accepted lane (tr ++ tr') = accepted lane tr ++ accepted lane tr' :=
  List.filterMap_append

/-- Only submissions are read as such. -/
theorem reads_of_not_submits (owner : Option Addr) (lane : Lane) (h : ∀ e ∈ es, e.submits = false) :
    accepted lane es = [] ∧ pushes owner lane es = [] ∧ evicts owner lane es = [] := by
  refine ⟨?_, ?_, ?_⟩ <;>
  · apply List.filterMap_eq_nil_iff.mpr
    intro e he
    have hs := h e he
    cases e <;> first | rfl | cases hs

variable (cfg lane) in
/-- A push onto a shared lane puts the frame in it, accepts nothing, and evicts no high
frame. -/
theorem reads_pushGlobalEvents {k : Lane} {sh : Shaper Addr}
    (hroom : k = .high → sh.highLane.length < cfg.highLaneCapacity) :
    pushes none lane (pushGlobalEvents cfg k f sh) = (if k = lane then [f] else []) ∧
      accepted lane (pushGlobalEvents cfg k f sh) = [] ∧ evicts none .high (pushGlobalEvents cfg k f sh) = [] := by
  have hpush : pushes none lane [.push none k f] = if k = lane then [f] else [] := by
    by_cases h : k = lane <;> simp [pushes, h]
  refine ⟨?_, List.filterMap_eq_nil_iff.mpr fun e he => ?_, ?_⟩
  · cases k with
    | high => simpa only [pushGlobalEvents, if_neg (Nat.not_le.mpr (hroom rfl))] using hpush
    | low => simpa only [pushGlobalEvents, pushes_append, pushes_map_evict, List.nil_append] using hpush
  · obtain ⟨_, _, rfl | rfl | rfl⟩ := isAbout_pushGlobalEvents cfg k f sh e he <;> rfl
  · cases k with
    | high =>
      simp only [pushGlobalEvents]
      split_ifs <;> simp [evicts]
    | low => simp [pushGlobalEvents, evicts]

/-- **What a step does to the shared lanes in `Global` scope, besides popping**: nothing,
or it accepts a frame, under the next number, and pushes it. -/
theorem submits_global (hscope : cfg.scope = .global) (hwf : SystemWf cfg s) (h : Does cfg cg s a es s') :
    evicts none .high es = [] ∧ ((∀ k, accepted k es = [] ∧ pushes none k es = []) ∨
      ∃ lane f, f.origin = .enqueued s.calls ∧ s'.calls = s.calls + 1 ∧
        ∀ k, accepted k es = (if lane = k then [f] else []) ∧ pushes none k es = if lane = k then [f] else []) := by
  rcases submits_cases h with hes | ⟨lane, target, b, -, hcalls, rfl⟩ | ⟨i, lane, b, peers, -, hi, -⟩
  · have hreads := fun k => reads_of_not_submits none k hes
    exact ⟨(hreads .high).2.2, .inl fun k => ⟨(hreads k).1, (hreads k).2.1⟩⟩
  · rcases enqueueRaw_cases cfg s.calls lane target b s.shaper with
      ⟨e, s', -, hes, -⟩ | ⟨-, -, hroom, -, hes⟩ | ⟨-, hne, -⟩ | ⟨-, hne, -⟩
    · rw [hes]
      exact ⟨rfl, .inl fun _ => ⟨rfl, rfl⟩⟩
    · have hreads := fun k => reads_pushGlobalEvents cfg k
        (f := ⟨b, target, .enqueued s.calls⟩) hroom
      rw [hes]
      refine ⟨(hreads .high).2.2, .inr ⟨lane, ⟨b, target, .enqueued s.calls⟩, rfl, hcalls, fun k => ⟨?_, ?_⟩⟩⟩
      · have hk := (hreads k).2.1
        by_cases hlane : lane = k <;> simp [accepted, hlane] at hk ⊢ <;> exact hk
      · exact (hreads k).1
    · exact absurd hscope hne
    · exact absurd hscope hne
  · exact absurd hscope (hwf.fans lane b peers (List.mem_of_getElem? hi)).1

/-! ### The shared lanes -/

/-- No event drops the shared lanes. -/
theorem sincePrune_none (tr : List (Event Addr)) : sincePrune none tr = tr :=
  List.rtakeWhile_eq_self_iff.mpr fun e _ => by cases e <;> rfl

/-- Where nothing is evicted, what left the lane was popped. -/
theorem removed_eq_pops {owner : Option Addr} (h : evicts owner lane tr = []) :
    removed owner lane tr = pops owner lane tr := by
  apply List.filterMap_congr
  intro e he
  have hnone := List.filterMap_eq_nil_iff.mp h e he
  cases e with
  | evict o k f => exact hnone
  | _ => rfl

/-- **What holds of the shared lanes after a run in `Global` scope.** -/
structure SharedLanes (tr : List (Event Addr)) (s : SystemState Addr G w) : Prop where
  /-- The ledger. -/
  ledger : Ledger none tr (s.shaper.lanesAt none)
  /-- The frames put in a lane are those accepted into it. -/
  pushed : ∀ lane, accepted lane tr = pushes none lane tr
  /-- No high frame is evicted. -/
  kept : evicts none .high tr = []
  /-- Accepted frames are numbered, and a number names one of them. -/
  numbered : (((accepted .high tr : Multiset (PendingFrame Addr)) + accepted .low tr).map PendingFrame.origin).Nodup
  /-- The next number is new. -/
  fresh : ∀ lane, ∀ f ∈ accepted lane tr, ∃ n < s.calls, f.origin = .enqueued n

theorem SharedLanes.new (sch : Scheduler Addr w) (gen : G) :
    SharedLanes [] (.new sch gen : SystemState Addr G w) where
  ledger := Ledger.empty
  pushed _ := rfl
  kept := rfl
  numbered := Multiset.nodup_zero
  fresh _ _ h := by cases h

theorem SharedLanes.does (hscope : cfg.scope = .global) (hwf : SystemWf cfg s) (hi : SharedLanes tr s)
    (h : Does cfg cg s a es s') : SharedLanes (tr ++ es) s' := by
  obtain ⟨hledger, hpushed, hkept, hnumbered, hfresh⟩ := hi
  have hledger' := hledger.run (laneRun_does h none)
  obtain ⟨hevict, hes⟩ := submits_global hscope hwf h
  have hkept' : evicts none .high (tr ++ es) = [] := by rw [evicts_append, hkept, hevict]; rfl
  have hpushed' : ∀ lane, accepted lane (tr ++ es) = pushes none lane (tr ++ es) := fun lane => by
    rw [accepted_append, pushes_append, hpushed]
    rcases hes with hes | ⟨_, _, -, -, hes⟩ <;> rw [(hes lane).1, (hes lane).2]
  rcases hes with hes | ⟨lane, f, ho, hcalls, hes⟩
  · have hsame : ∀ lane, accepted lane (tr ++ es) = accepted lane tr := fun lane => by
      rw [accepted_append, (hes lane).1, List.append_nil]
    refine ⟨hledger', hpushed', hkept', by rwa [hsame, hsame], fun lane f hf => ?_⟩
    rw [hsame] at hf
    obtain ⟨n, hn, ho⟩ := hfresh lane f hf
    exact ⟨n, hn.trans_le (calls_le_does h), ho⟩
  · refine ⟨hledger', hpushed', hkept', ?_, fun k g hg => ?_⟩
    · have hone : (accepted .high es : Multiset (PendingFrame Addr)) + accepted .low es = {f} := by
        rw [(hes .high).1, (hes .low).1]
        cases lane <;> rfl
      have hsplit : (accepted .high (tr ++ es) : Multiset (PendingFrame Addr)) + accepted .low (tr ++ es) =
          f ::ₘ ((accepted .high tr : Multiset (PendingFrame Addr)) + accepted .low tr) := by
        rw [← Multiset.singleton_add, ← hone]
        simp only [accepted_append, ← Multiset.coe_add]
        abel
      rw [hsplit, Multiset.map_cons, Multiset.nodup_cons]
      refine ⟨fun hmem => ?_, hnumbered⟩
      obtain ⟨g, hg, hgo⟩ := Multiset.mem_map.mp hmem
      have hold : ∃ n < s.calls, g.origin = .enqueued n := by
        rcases Multiset.mem_add.mp hg with hg | hg
        · exact hfresh .high g hg
        · exact hfresh .low g hg
      obtain ⟨n, hn, hgn⟩ := hold
      rw [hgo, ho] at hgn
      cases hgn
      exact lt_irrefl _ hn
    · rw [accepted_append, (hes k).1] at hg
      rcases List.mem_append.mp hg with hg | hg
      · obtain ⟨n, hn, ho⟩ := hfresh k g hg
        exact ⟨n, hn.trans_le (calls_le_does h), ho⟩
      · split_ifs at hg
        · rw [List.mem_singleton.mp hg]
          exact ⟨s.calls, by omega, ho⟩
        · cases hg

/-- It holds after every run. -/
theorem sharedLanes_run (hscope : cfg.scope = .global) {sch : Scheduler Addr w} {gen : G} {as : List (Act Addr)}
    (h : Run (Step cfg cg) (.new sch gen) as tr s) : SharedLanes tr s := by
  refine h.invariant_of (I := SharedLanes) (J := fun _ s => SystemWf cfg s)
    (fun hr => systemWf_run (SystemWf.new sch gen) hr) (SharedLanes.new sch gen) ?_
  intro tr s a es s' hwf hi hstep
  exact hi.does hscope hwf (does_of_step hstep)

/-- The high lane is a queue: what is popped, and then what is in it, is what was accepted. -/
theorem SharedLanes.high (hi : SharedLanes tr s) :
    pops none .high tr ++ s.shaper.highLane = accepted .high tr := by
  have h := hi.ledger.high
  rw [sincePrune_none, removed_eq_pops hi.kept, ← hi.pushed] at h
  exact h

/-- What was accepted into the low lane was popped, or evicted, or is in it. -/
theorem SharedLanes.low (hi : SharedLanes tr s) : (accepted .low tr : Multiset (PendingFrame Addr)) =
    pops none .low tr + evicts none .low tr + s.shaper.lowLane := by
  have h := hi.ledger.low
  rw [sincePrune_none, ← hi.pushed] at h
  exact h

/-- No frame is popped twice. -/
theorem SharedLanes.nodup_pops (hi : SharedLanes tr s) :
    (((pops none .high tr : Multiset (PendingFrame Addr)) + pops none .low tr).map PendingFrame.origin).Nodup := by
  refine Multiset.nodup_of_le (Multiset.map_le_map (add_le_add ?_ ?_)) hi.numbered
  · rw [← hi.high, ← Multiset.coe_add]
    exact Multiset.le_add_right _ _
  · rw [hi.low, add_assoc]
    exact Multiset.le_add_right _ _

/-! ### Ticks -/

/-- Whether an event is a snapshot, with which a tick begins. -/
def beginsTick : Event Addr → Bool
  | .snapshot _ => true
  | _ => false

/-- The snapshot a segment of the history begins with; none before the first one. -/
def snapshotOf : List (Event Addr) → List Addr
  | .snapshot peers :: _ => peers
  | _ => []

/-- The frames popped from the shared lanes, in order. -/
def popsShared (tr : List (Event Addr)) : List (PendingFrame Addr) :=
  tr.filterMap fun
    | .pop none _ f => some f
    | _ => none

/-- What the scheduler did in a tick. -/
structure Tick (Addr : Type*) where
  /-- Its snapshot. -/
  peers : List Addr
  /-- The frames it popped. -/
  popped : List (PendingFrame Addr)
  /-- What it handed to the writer. -/
  sent : List (Addr × PendingFrame Addr)

/-- A tick, read from its segment of the history. -/
def Tick.ofEvents (t : List (Event Addr)) : Tick Addr := ⟨snapshotOf t, popsShared t, sends t⟩

/-- The tick under way, or the last one if the scheduler waits. Before the first snapshot
it is one without peers. -/
def tickNow (tr : List (Event Addr)) : Tick Addr := .ofEvents (segments beginsTick tr).1

/-- The ticks before it, latest first. -/
def ticksBefore (tr : List (Event Addr)) : List (Tick Addr) := (segments beginsTick tr).2.map .ofEvents

/-- The ticks, in order. -/
def ticksOf (tr : List (Event Addr)) : List (Tick Addr) := (tickNow tr :: ticksBefore tr).reverse

/-- What becomes of a popped frame in its tick: finalized, it goes to a peer of the
snapshot that it is for; or it is for one peer, which is not in the snapshot, and the tick
sends cover. -/
def Dispatched (cfg : ShaperConfig) (cg : CoverGenerator G) (t : Tick Addr) (f : PendingFrame Addr) : Prop :=
  (∃ g, ∃ q ∈ t.peers, Allows q f.target ∧ (q, (finalizeReal cfg.toShapeConfig cg f g).1) ∈ t.sent) ∨
    ∃ q, f.target = .unicast q ∧ q ∉ t.peers ∧ ∀ x ∈ t.sent, x.2.origin = .cover

/-- **What a tick does**: nothing without peers; otherwise it pops one frame at most, and
dispatches it unless the scheduler still holds it. It sends no other real frame. -/
structure TickOk (cfg : ShaperConfig) (cg : CoverGenerator G) (held : Option (PendingFrame Addr))
    (t : Tick Addr) : Prop where
  /-- Without peers nothing is popped. -/
  empty : t.peers = [] → t.popped = []
  /-- One frame at most is popped. -/
  one : t.popped.length ≤ 1
  /-- It is dispatched. -/
  dispatched : ∀ f ∈ t.popped, held = some f ∨ Dispatched cfg cg t f
  /-- What is sent is cover, or the finalized frame. -/
  real : ∀ x ∈ t.sent, x.2.origin = .cover ∨ ∃ f ∈ t.popped, ∃ g, x.2 = (finalizeReal cfg.toShapeConfig cg f g).1

omit [DecidableEq Addr] in
/-- A tick that pops nothing and sends nothing. -/
theorem TickOk.silent {held : Option (PendingFrame Addr)} (peers : List Addr) :
    TickOk cfg cg held ⟨peers, [], []⟩ :=
  ⟨fun _ => rfl, Nat.zero_le _, by simp, by simp⟩

/-- The tick so far, by where the scheduler is. -/
def Ticking (cfg : ShaperConfig) (cg : CoverGenerator G) (t : Tick Addr) : Pc Addr → Prop
  | .idle | .woken => TickOk cfg cg none t
  | .popHigh p ps | .popLow p ps => t = ⟨p :: ps, [], []⟩
  | .dispatch p ps frame => t = ⟨p :: ps, frame.toList, []⟩
  | _ => False

omit [DecidableEq Addr] in
theorem Ticking.tickOk {t : Tick Addr} {pc : Pc Addr} (h : Ticking cfg cg t pc) : TickOk cfg cg pc.held t := by
  cases pc with
  | idle => exact h
  | woken => exact h
  | popHigh p ps =>
    rw [h]
    exact .silent _
  | popLow p ps =>
    rw [h]
    exact .silent _
  | dispatch p ps frame =>
    rw [h]
    refine ⟨by simp, ?_, fun f hf => .inl (Option.mem_toList.mp hf), by simp⟩
    cases frame <;> simp
  | _ => exact h.elim

omit [DecidableEq Addr] in
/-- Events that begin no tick are added to it. -/
theorem ofEvents_append (t : List (Event Addr)) (h : ∀ e ∈ es, beginsTick e = false) :
    Tick.ofEvents (t ++ es) = ⟨snapshotOf t, popsShared t ++ popsShared es, sends t ++ sends es⟩ := by
  have hsnap : snapshotOf (t ++ es) = snapshotOf t := by
    cases t with
    | cons e t => cases e <;> rfl
    | nil =>
      cases es with
      | nil => rfl
      | cons e es =>
        have he := h e (List.mem_cons_self ..)
        cases e <;> first | rfl | cases he
  simp only [Tick.ofEvents, hsnap, popsShared, List.filterMap_append, sends_append]

/-- A dispatched frame goes to a peer that it is for, or it is for one that is not there
and cover goes out. -/
theorem dispatchGlobal_cases {peers : List Addr} (hne : peers ≠ []) (x : PendingFrame Addr) (g : G)
    (sch : Scheduler Addr w) :
    let out := sends (dispatchGlobal cfg cg peers x g sch).events
    (∃ q ∈ peers, Allows q x.target ∧ (q, x) ∈ out) ∨
      ∃ q, x.target = .unicast q ∧ q ∉ peers ∧ ∀ y ∈ out, y.2.origin = .cover := by
  intro out
  cases ht : x.target with
  | broadcast =>
    have hlen := length_pickTargets peers (effectiveFanout cfg peers) sch
    have hpos := effectiveFanout_pos cfg peers
    have hpeers := List.length_pos_iff.mpr hne
    obtain ⟨q, hq⟩ := List.exists_mem_of_length_pos
      (show 0 < (sch.pickTargets peers (effectiveFanout cfg peers)).1.length by omega)
    refine .inl ⟨q, mem_of_mem_pickTargets hq, trivial, ?_⟩
    simp only [out, sends_dispatchGlobal_broadcast cfg cg g sch ht]
    exact List.mem_map_of_mem hq
  | unicast q =>
    by_cases hq : q ∈ peers
    · refine .inl ⟨q, hq, rfl, ?_⟩
      simp only [out, sends_dispatchGlobal_connected cfg cg g sch ht hq]
      exact List.mem_cons_self ..
    · refine .inr ⟨q, rfl, hq, fun y hy => ?_⟩
      simp only [out, sends_dispatchGlobal_disconnected cfg cg g sch ht hq] at hy
      exact (of_mem_covers cfg cg (List.of_mem_zip hy).2).2

/-- **The dispatch ends a tick well.** -/
theorem tickOk_dispatchTick {p : Addr} {ps : List Addr} (frame : Option (PendingFrame Addr)) (g : G)
    (sch : Scheduler Addr w) :
    TickOk cfg cg none ⟨p :: ps, frame.toList, sends (dispatchTick cfg cg (p :: ps) frame g sch).events⟩ := by
  have hsends : sends (dispatchTick cfg cg (p :: ps) frame g sch).events =
      sends (dispatchGlobal cfg cg (p :: ps) (frameToSend cfg cg frame g).1 (frameToSend cfg cg frame g).2.2
        sch).events := by
    cases frame <;> rfl
  rw [hsends]
  refine ⟨by simp, ?_, fun f hf => .inr ?_, fun x hx => ?_⟩
  · cases frame <;> simp
  · obtain rfl := Option.mem_toList.mp hf
    rcases dispatchGlobal_cases (List.cons_ne_nil p ps) (finalizeReal cfg.toShapeConfig cg f g).1
      (finalizeReal cfg.toShapeConfig cg f g).2 sch with ⟨q, hq, hallows, hsent⟩ | ⟨q, ht, hq, hcover⟩
    · exact .inl ⟨g, q, hq, hallows, hsent⟩
    · exact .inr ⟨q, ht, hq, hcover⟩
  · rcases mem_dispatchGlobal (mem_sends_iff.mp hx) with ⟨h, -⟩ | ⟨h, -⟩
    · cases frame with
      | none =>
        rw [h]
        exact .inl rfl
      | some f => exact .inr ⟨f, List.mem_singleton_self f, g, h⟩
    · exact .inl h

omit [DecidableEq Addr] in
/-- Nothing is popped by a submission, nor by a dispatch. -/
theorem popsShared_eq_nil (h : ∀ owner k f, .pop owner k f ∉ es) : popsShared es = [] := by
  apply List.filterMap_eq_nil_iff.mpr
  intro e he
  cases e with
  | pop owner k f => exact (h owner k f he).elim
  | _ => rfl

omit [DecidableEq Addr] in
/-- What the shaper does without popping is no part of a tick. -/
theorem ofEvents_append_quiet (t : List (Event Addr)) (h : ∀ e ∈ es, e.ofShaper = true)
    (hpop : ∀ owner k f, .pop owner k f ∉ es) :
    (∀ e ∈ es, beginsTick e = false) ∧ Tick.ofEvents (t ++ es) = Tick.ofEvents t := by
  have hbegins : ∀ e ∈ es, beginsTick e = false := fun e he => by
    have hs := h e he
    cases e <;> first | rfl | cases hs
  refine ⟨hbegins, ?_⟩
  rw [ofEvents_append t hbegins, popsShared_eq_nil hpop, (reads_of_ofShaper h).1, List.append_nil, List.append_nil]
  rfl

omit [DecidableEq Addr] in
/-- The step that pops from a shared lane, if there is a frame, adds it to the tick. -/
theorem ofEvents_append_pop (lane : Lane) {t : List (Event Addr)} {p : Addr} {ps : List Addr}
    (ht : Tick.ofEvents t = ⟨p :: ps, [], []⟩) (frame : Option (PendingFrame Addr)) :
    (∀ e ∈ frame.toList.map (Event.pop none lane), beginsTick e = false) ∧
      Tick.ofEvents (t ++ frame.toList.map (.pop none lane)) = ⟨p :: ps, frame.toList, []⟩ := by
  have hbegins : ∀ e ∈ frame.toList.map (Event.pop none lane), beginsTick e = false := by
    intro e he
    obtain ⟨f, -, rfl⟩ := List.mem_map.mp he
    rfl
  obtain ⟨hpeers, hpops, hsends⟩ := Tick.mk.inj ht
  refine ⟨hbegins, ?_⟩
  rw [ofEvents_append t hbegins, hpeers, hpops, hsends]
  cases frame <;> rfl

/-- **A step adds to the tick what its place allows**, or it is the snapshot that begins
the next one. -/
theorem ticking_does (hscope : cfg.scope = .global) (htimed : passthrough cfg = false) {t : List (Event Addr)}
    (ht : Ticking cfg cg (.ofEvents t) s.pc) (h : Does cfg cg s a es s') :
    ((∀ e ∈ es, beginsTick e = false) ∧ Ticking cfg cg (.ofEvents (t ++ es)) s'.pc) ∨
      ∃ e, es = [e] ∧ beginsTick e = true ∧ TickOk cfg cg none (.ofEvents t) ∧
        Ticking cfg cg (.ofEvents [e]) s'.pc := by
  have hquiet : (∀ e ∈ es, e.ofShaper = true) → (∀ owner k f, .pop owner k f ∉ es) → s'.pc = s.pc →
      (∀ e ∈ es, beginsTick e = false) ∧ Ticking cfg cg (.ofEvents (t ++ es)) s'.pc := by
    intro hes hpop hpc
    obtain ⟨hbegins, hsame⟩ := ofEvents_append_quiet t hes hpop
    rw [hsame, hpc]
    exact ⟨hbegins, ht⟩
  have hsubmits : (∀ e ∈ es, e.submits = true) → s'.pc = s.pc →
      (∀ e ∈ es, beginsTick e = false) ∧ Ticking cfg cg (.ofEvents (t ++ es)) s'.pc := fun hes =>
    hquiet (fun e he => e.ofShaper_of_submits (hes e he)) fun _ _ _ he => Bool.noConfusion (hes _ he)
  cases h with
  | enqueue _ => exact .inl (hsubmits submits_enqueueRawEvents rfl)
  | fan _ =>
    refine .inl (hsubmits (fun e he => ?_) rfl)
    rcases List.mem_cons.mp he with rfl | he
    · rfl
    · exact submits_fanOutToEvents _ _ e he
  | prunePeerLanes =>
    exact .inl (hquiet (ofShaper_prunePeerLanesEvents _ _) (by simp [prunePeerLanesEvents]) rfl)
  | tick hpc _ =>
    rw [hpc] at ht
    refine .inl ⟨List.forall_mem_nil _, ?_⟩
    rwa [List.append_nil]
  | consume _ hpass _ => exact absurd hpass (by rw [htimed]; exact Bool.noConfusion)
  | @snapshot peers hpc _ _ =>
    rw [hpc] at ht
    refine .inr ⟨_, rfl, rfl, ht, ?_⟩
    cases peers with
    | nil =>
      rw [afterSnapshot_global_nil hscope]
      exact .silent _
    | cons p ps =>
      rw [afterSnapshot_global_cons hscope]
      rfl
  | @popHigh p ps hpc =>
    rw [hpc] at ht
    obtain ⟨hbegins, hadd⟩ := ofEvents_append_pop .high ht s.shaper.highLane.head?
    refine .inl ⟨hbegins, ?_⟩
    unfold popHighEvents
    rw [hadd]
    show Ticking cfg cg _ (afterPopHigh p ps s.shaper.highLane.head?)
    cases s.shaper.highLane.head? <;> rfl
  | @popLow p ps hpc =>
    rw [hpc] at ht
    obtain ⟨hbegins, hadd⟩ := ofEvents_append_pop .low ht s.shaper.lowLane.head?
    refine .inl ⟨hbegins, ?_⟩
    unfold popLowEvents
    rw [hadd]
    show Ticking cfg cg _ (afterPopLow cfg p ps s.shaper.lowLane.head?)
    cases s.shaper.lowLane.head? with
    | none =>
      simp only [afterPopLow, htimed]
      rfl
    | some f => rfl
  | @dispatch p ps frame hpc =>
    rw [hpc] at ht
    obtain ⟨hpeers, hpops, hsends⟩ := Tick.mk.inj ht
    have hdispatch : ∀ e ∈ (dispatchTick cfg cg (p :: ps) frame s.gen s.scheduler).events, e.ofDispatch = true :=
      ofDispatch_dispatchTick _ _ _ _
    have hbegins : ∀ e ∈ (dispatchTick cfg cg (p :: ps) frame s.gen s.scheduler).events, beginsTick e = false := by
      intro e he
      have hd := hdispatch e he
      cases e <;> first | rfl | cases hd
    have hpop := popsShared_eq_nil fun _ _ _ he => Bool.noConfusion (hdispatch _ he)
    refine .inl ⟨hbegins, ?_⟩
    rw [ofEvents_append t hbegins, hpeers, hpops, hsends, hpop, List.append_nil, List.nil_append]
    simp only [afterDispatch, htimed]
    exact tickOk_dispatchTick frame s.gen s.scheduler
  | refresh hpc => rw [hpc] at ht; exact ht.elim
  | prune hpc => rw [hpc] at ht; exact ht.elim
  | pick hpc => rw [hpc] at ht; exact ht.elim
  | walk hpc => rw [hpc] at ht; exact ht.elim
  | visit hpc => rw [hpc] at ht; exact ht.elim
  | deliver hpc => rw [hpc] at ht; exact ht.elim
  | _ => exact .inl (hsubmits (List.forall_mem_nil _) rfl)

/-! ### Every run -/

omit [DecidableEq Addr] in
/-- Everything popped and everything sent is so in a tick. -/
theorem flatMap_ticksOf (tr : List (Event Addr)) :
    (ticksOf tr).flatMap Tick.popped = popsShared tr ∧ (ticksOf tr).flatMap Tick.sent = sends tr := by
  have hticks : ticksOf tr = ((segments beginsTick tr).1 :: (segments beginsTick tr).2).reverse.map .ofEvents := by
    rw [List.map_reverse]
    rfl
  have hflat := flatten_segments beginsTick tr
  constructor
  · conv_rhs => rw [← hflat]
    rw [hticks, popsShared, List.filterMap_flatten, List.flatMap_map]
    rfl
  · conv_rhs => rw [← hflat]
    rw [hticks, sends, List.filterMap_flatten, List.flatMap_map]
    rfl

theorem coe_popsShared (tr : List (Event Addr)) :
    (popsShared tr : Multiset (PendingFrame Addr)) = pops none .high tr + pops none .low tr := by
  induction tr with
  | nil => rfl
  | cons e tr ih =>
    have hcons : popsShared (e :: tr) = popsShared [e] ++ popsShared tr := List.filterMap_append (l := [e])
    have hpops : ∀ lane, pops none lane (e :: tr) = pops none lane [e] ++ pops none lane tr := fun lane =>
      pops_append [e] tr
    have hone : (popsShared [e] : Multiset (PendingFrame Addr)) = pops none .high [e] + pops none .low [e] := by
      cases e with
      | pop owner lane f => cases owner <;> cases lane <;> rfl
      | _ => rfl
    rw [hcons, hpops, hpops, ← Multiset.coe_add, ← Multiset.coe_add, ← Multiset.coe_add, hone, ih]
    abel

/-- A low frame is evicted only from a full low lane: one frame, the last. -/
theorem evicts_low_does (hscope : cfg.scope = .global) (hwf : SystemWf cfg s) (h : Does cfg cg s a es s') :
    evicts none .low es = [] ∨ s.shaper.lowLane.length = cfg.lowLaneCapacity ∧
      evicts none .low es = s.shaper.lowLane.getLast?.toList := by
  rcases submits_cases h with hes | ⟨lane, target, b, -, -, rfl⟩ | ⟨i, lane, b, peers, -, hi, -⟩
  · exact .inl (reads_of_not_submits none .low hes).2.2
  · rcases enqueueRaw_cases cfg s.calls lane target b s.shaper with
      ⟨e, s', -, hes, -⟩ | ⟨-, -, -, -, hes⟩ | ⟨-, hne, -⟩ | ⟨-, hne, -⟩
    · rw [hes]
      exact .inl rfl
    · rw [hes]
      exact LaneStep.evicts_low (laneStep_pushGlobal cfg lane _ s.shaper none) (hwf.shaper.lanes none)
    · exact absurd hscope hne
    · exact absurd hscope hne
  · exact absurd hscope (hwf.fans lane b peers (List.mem_of_getElem? hi)).1

/-- **Conservation**: what holds after a run in `Global` scope under a timed strategy. -/
structure GlobalConservation (cfg : ShaperConfig) (cg : CoverGenerator G) (tr : List (Event Addr))
    (s : SystemState Addr G w) : Prop where
  /-- What was popped from the high lane, then what is in it, is what was accepted, in order. -/
  high : pops none .high tr ++ s.shaper.highLane = accepted .high tr
  /-- What was accepted into the low lane was popped, or evicted, or is in it. -/
  low : (accepted .low tr : Multiset (PendingFrame Addr)) =
    pops none .low tr + evicts none .low tr + s.shaper.lowLane
  /-- Whatever the next step, a low frame is evicted only from a full low lane. -/
  evicted : ∀ {a es s'}, Step cfg cg s a es s' → evicts none .low es = [] ∨
    s.shaper.lowLane.length = cfg.lowLaneCapacity ∧ evicts none .low es = s.shaper.lowLane.getLast?.toList
  /-- Everything popped was popped in a tick. -/
  popped : ((ticksOf tr).flatMap Tick.popped : Multiset (PendingFrame Addr)) =
    pops none .high tr + pops none .low tr
  /-- Everything sent was sent in a tick. -/
  sent : (ticksOf tr).flatMap Tick.sent = sends tr
  /-- The tick under way. -/
  now : TickOk cfg cg s.pc.held (tickNow tr)
  /-- The ticks before it. -/
  before : ∀ t ∈ ticksBefore tr, TickOk cfg cg none t
  /-- No accepted frame is sent in two ticks. -/
  once : (ticksOf tr).Pairwise fun t t' => ∀ x ∈ t.sent, ∀ y ∈ t'.sent,
    x.2.origin = y.2.origin → x.2.origin = .cover

omit [DecidableEq Addr] in
/-- If nothing is popped in two ticks, nothing real is sent in two. -/
theorem pairwise_sent {ts : List (Tick Addr)} (hok : ∀ t ∈ ts, ∃ held, TickOk cfg cg held t)
    (hnd : ((ts.flatMap Tick.popped).map PendingFrame.origin).Nodup) :
    ts.Pairwise fun t t' => ∀ x ∈ t.sent, ∀ y ∈ t'.sent, x.2.origin = y.2.origin → x.2.origin = .cover := by
  rw [List.map_flatMap, List.nodup_flatMap] at hnd
  have hpopped : ∀ t ∈ ts, ∀ x ∈ t.sent, x.2.origin = .cover ∨ x.2.origin ∈ t.popped.map PendingFrame.origin := by
    intro t ht x hx
    obtain ⟨held, hok⟩ := hok t ht
    apply (hok.real x hx).imp_right
    rintro ⟨f, hf, g, he⟩
    rw [he, finalizeReal_origin]
    exact List.mem_map_of_mem hf
  refine hnd.2.imp_of_mem fun {t t'} ht ht' hdisj x hx y hy he => ?_
  rcases hpopped t ht x hx with h | h
  · exact h
  rcases hpopped t' ht' y hy with h' | h'
  · rw [he, h']
  · exact absurd (he ▸ h') (hdisj h)

/-- **Conservation in `Global` scope**, under a timed strategy, after every interleaving of
submissions, connections and calls of the application with the steps of the scheduler. -/
theorem global_conservation (hscope : cfg.scope = .global) (hstrategy : cfg.strategy ≠ .none) {sch : Scheduler Addr w}
    {gen : G} {as : List (Act Addr)} (h : Run (Step cfg cg) (.new sch gen) as tr s) :
    GlobalConservation cfg cg tr s := by
  have htimed : passthrough cfg = false := decide_eq_false hstrategy
  have hwf := systemWf_run (SystemWf.new sch gen) h
  have hlanes : SharedLanes tr s := sharedLanes_run hscope h
  obtain ⟨hticking, hdone⟩ : Ticking cfg cg (tickNow tr) s.pc ∧
      ∀ t ∈ (segments beginsTick tr).2, TickOk cfg cg none (.ofEvents t) := by
    have hstart : Ticking cfg cg (.ofEvents ([] : List (Event Addr))) (.idle : Pc Addr) := .silent _
    refine Run.segments (fun t s => Ticking cfg cg (.ofEvents t) s.pc) (fun t => TickOk cfg cg none (.ofEvents t))
      hstart ?_ h
    exact fun ht hstep => ticking_does hscope htimed ht (does_of_step hstep)
  have hnow : TickOk cfg cg s.pc.held (tickNow tr) := hticking.tickOk
  have hbefore : ∀ t ∈ ticksBefore tr, TickOk cfg cg none t := by
    intro t ht
    obtain ⟨es, hes, rfl⟩ := List.mem_map.mp ht
    exact hdone es hes
  have hpopped : ((ticksOf tr).flatMap Tick.popped : Multiset (PendingFrame Addr)) =
      pops none .high tr + pops none .low tr := by
    rw [(flatMap_ticksOf tr).1, coe_popsShared]
  have hok : ∀ t ∈ ticksOf tr, ∃ held, TickOk cfg cg held t := by
    intro t ht
    rcases List.mem_cons.mp (List.mem_reverse.mp ht) with rfl | ht
    · exact ⟨_, hnow⟩
    · exact ⟨none, hbefore t ht⟩
  have hnd := hlanes.nodup_pops
  rw [← hpopped, Multiset.map_coe, Multiset.coe_nodup] at hnd
  exact ⟨hlanes.high, hlanes.low, fun hstep => evicts_low_does hscope hwf (does_of_step hstep), hpopped,
    (flatMap_ticksOf tr).2, hnow, hbefore, pairwise_sent hok hnd⟩

/-- Two frames, one of each lane, and two ticks. -/
theorem global_conservation_two :
    let cfg : ShaperConfig := { frameSize := 32, accepted := by decide }
    let s₀ : SystemState ℕ (Stream' UInt8) 64 := .new { rng := Stream'.const 1 } (Stream'.const 5)
    let acts : List (Act ℕ) :=
      [.connect 1, .enqueue .low (.unicast 1) (List.replicate 32 7), .wake, .snapshot [1],
        .enqueue .high .broadcast (List.replicate 32 8), .sched, .sched, .wake, .snapshot [1], .sched, .sched, .sched]
    ∃ tr s, exec (step cfg randomCover) s₀ acts = some (tr, s) ∧ GlobalConservation cfg randomCover tr s := by
  intro cfg s₀ acts
  obtain ⟨tr, s, h⟩ : ∃ tr s, exec (step cfg randomCover) s₀ acts = some (tr, s) := ⟨_, _, rfl⟩
  exact ⟨tr, s, h, global_conservation rfl (by decide) (run_of_exec h)⟩

end Peashape.Shaping

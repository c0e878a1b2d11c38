import Peashape.Shaping.Numbering
import Peashape.Shaping.PeerLanes

/-!
# In order, and each once

Calls of `enqueue_raw` are numbered as they are accepted. Over any interleaving, the frames put in
the lanes of one owner are numbered upwards (`numbered_run`), what is popped from them is part of
what was put in, of the high lane in order (`takes_run`), and what is sent to a peer is part of
what was popped for it, in order (`sentTo_sublist_run`). So nothing is sent to a peer twice, and
high frames are sent in the order they were accepted in (`sent_in_order`).
-/

namespace Peashape.Shaping

open Foundation Shaper SystemState

variable {Addr G : Type*} [DecidableEq Addr] {w : ℕ} {cfg : ShaperConfig} {cg : CoverGenerator G}
  {s s' : SystemState Addr G w} {a : Act Addr} {es tr : List (Event Addr)} {owner : Option Addr}
  {l l' : PeerLanes Addr}

/-- The call that submitted a frame. -/
def callOf (f : PendingFrame Addr) : Option ℕ :=
  match f.origin with
  | .cover => none
  | .enqueued n => some n

/-- The frames put in either lane of an owner, in order. -/
def pushedTo (owner : Option Addr) (tr : List (Event Addr)) : List (PendingFrame Addr) :=
  tr.filterMap fun
    | .push o _ f => if o = owner then some f else none
    | _ => none

/-- The frames popped from either lane of an owner, in order, each with its lane. -/
def poppedFrom (owner : Option Addr) (tr : List (Event Addr)) : List (Lane × PendingFrame Addr) :=
  tr.filterMap fun
    | .pop o lane f => if o = owner then some (lane, f) else none
    | _ => none

@[simp] theorem pushedTo_append (tr tr' : List (Event Addr)) :
    pushedTo owner (tr ++ tr') = pushedTo owner tr ++ pushedTo owner tr' := List.filterMap_append

@[simp] theorem poppedFrom_append (tr tr' : List (Event Addr)) :
    poppedFrom owner (tr ++ tr') = poppedFrom owner tr ++ poppedFrom owner tr' := List.filterMap_append

/-- Events not about an owner put nothing in its lanes and take nothing out. -/
theorem pushedTo_of_not_concerns (h : ∀ e ∈ es, e.concerns owner = false) :
    pushedTo owner es = [] ∧ poppedFrom owner es = [] := by
  constructor <;>
  · refine List.filterMap_eq_nil_iff.mpr fun e he => ?_
    have hc := h e he
    cases e <;> first | rfl | exact if_neg (of_decide_eq_false hc)

theorem mem_pushedTo {f : PendingFrame Addr} (h : f ∈ pushedTo owner tr) : ∃ lane, .push owner lane f ∈ tr := by
  obtain ⟨e, he, hsome⟩ := List.mem_filterMap.mp h
  cases e with
  | push o lane g =>
    by_cases ho : o = owner
    · subst ho
      simp only [if_true, Option.some.injEq] at hsome
      subst hsome
      exact ⟨lane, he⟩
    · simp [ho] at hsome
  | _ => cases hsome

/-! ### What was popped was put in -/

/-- Of one lane, it is what was popped from it. -/
theorem map_snd_poppedFrom (lane : Lane) : ∀ tr : List (Event Addr),
    ((poppedFrom owner tr).filter fun x => decide (x.1 = lane)).map Prod.snd = pops owner lane tr
  | [] => rfl
  | e :: tr => by
    have ih := map_snd_poppedFrom lane tr
    rw [poppedFrom, pops] at ih ⊢
    cases e with
    | pop o k f =>
      by_cases ho : o = owner
      · by_cases hk : k = lane <;> simp [ho, hk, ← ih]
      · simp [ho, ← ih]
    | _ => simpa using ih

/-- What is put in a lane is put in the lanes. -/
theorem pushes_sublist_pushedTo (lane : Lane) : ∀ tr : List (Event Addr),
    (pushes owner lane tr).Sublist (pushedTo owner tr)
  | [] => .refl []
  | e :: tr => by
    have ih := pushes_sublist_pushedTo lane tr
    rw [pushes, pushedTo] at ih ⊢
    cases e with
    | push o k f =>
      by_cases ho : o = owner
      · by_cases hk : k = lane
        · simpa [ho, hk] using ih
        · simpa [ho, hk] using ih.cons f
      · simpa [ho] using ih
    | _ => simpa using ih

/-- What was popped from a lane left it. -/
theorem pops_sublist_removed (lane : Lane) : ∀ tr : List (Event Addr),
    (pops owner lane tr).Sublist (removed owner lane tr)
  | [] => .refl []
  | e :: tr => by
    have ih := pops_sublist_removed lane tr
    rw [pops, removed] at ih ⊢
    cases e with
    | pop o k f =>
      by_cases hk : o = owner ∧ k = lane
      · simpa [hk] using ih
      · simpa [hk] using ih
    | evict o k f =>
      by_cases hk : o = owner ∧ k = lane
      · simpa [hk] using ih.cons f
      · simpa [hk] using ih
    | _ => simpa using ih

/-- The two lanes together, counted. -/
theorem coe_pushedTo : ∀ tr : List (Event Addr),
    (pushedTo owner tr : Multiset (PendingFrame Addr)) = pushes owner .high tr + pushes owner .low tr
  | [] => rfl
  | e :: tr => by
    have ih := coe_pushedTo tr
    rw [Multiset.coe_add, pushedTo, pushes, pushes] at ih ⊢
    cases e with
    | push o k f =>
      by_cases ho : o = owner
      · cases k with
        | high => simpa [ho] using ih
        | low => simpa [ho, ← Multiset.coe_add, ← Multiset.cons_coe] using congrArg (f ::ₘ ·) ih
      · simpa [ho] using ih
    | _ => simpa using ih

theorem coe_poppedFrom : ∀ tr : List (Event Addr),
    ((poppedFrom owner tr).map Prod.snd : Multiset (PendingFrame Addr)) = pops owner .high tr + pops owner .low tr
  | [] => rfl
  | e :: tr => by
    have ih := coe_poppedFrom tr
    rw [Multiset.coe_add, poppedFrom, pops, pops] at ih ⊢
    cases e with
    | pop o k f =>
      by_cases ho : o = owner
      · cases k with
        | high => simpa [ho] using ih
        | low => simpa [ho, ← Multiset.coe_add, ← Multiset.cons_coe] using congrArg (f ::ₘ ·) ih
      · simpa [ho] using ih
    | _ => simpa using ih

/-- What a step of the lanes pops, and what is in them then, was in them or is put in: of the high
lane in this order, and of the low lane counted. -/
structure Takes (owner : Option Addr) (l : PeerLanes Addr) (es : List (Event Addr)) (l' : PeerLanes Addr) : Prop where
  /-- Of the high lane, in order. -/
  high : (pops owner .high es ++ l'.high).Sublist (l.high ++ pushes owner .high es)
  /-- Of the low lane, counted. -/
  low : (pops owner .low es : Multiset (PendingFrame Addr)) + l'.low ≤ l.low + pushes owner .low es

theorem LaneStep.takes (h : LaneStep cfg owner l es l') : Takes owner l es l' := by
  rcases LaneStep.balance_or_prune h with hb | ⟨e, rfl, hp, rfl⟩
  · constructor
    · rw [hb.high]
      exact (pops_sublist_removed .high es).append_right _
    · rw [hb.low, add_right_comm]
      exact Multiset.le_add_right _ _
  · have hnone (lane : Lane) : pops owner lane [e] = [] := by cases e <;> first | rfl | cases hp
    exact ⟨by simp [hnone], by simp only [hnone, Multiset.coe_nil, zero_add]; exact Multiset.zero_le _⟩

/-- Any number of steps. -/
theorem LaneRun.takes (h : LaneRun cfg owner l es l') : Takes owner l es l' := by
  obtain ⟨ks, h⟩ := h
  refine h.invariant (I := fun es l' => Takes owner l es l') ⟨by simp [pops, pushes], by simp [pops, pushes]⟩ ?_
  intro es l' _ es' l'' ih hstep
  have hs := LaneStep.takes hstep
  constructor
  · rw [pops_append, pushes_append, List.append_assoc, ← List.append_assoc l.high]
    refine (hs.high.append_left _).trans ?_
    rw [← List.append_assoc]
    exact ih.high.append_right _
  · rw [pops_append, pushes_append, ← Multiset.coe_add, ← Multiset.coe_add]
    calc (pops owner .low es : Multiset (PendingFrame Addr)) + pops owner .low es' + l''.low
        ≤ pops owner .low es + (l'.low + pushes owner .low es') := by
          rw [add_assoc]
          exact add_le_add le_rfl hs.low
      _ = pops owner .low es + l'.low + pushes owner .low es' := (add_assoc _ _ _).symm
      _ ≤ l.low + pushes owner .low es + pushes owner .low es' := add_le_add ih.low le_rfl
      _ = l.low + (pushes owner .low es + pushes owner .low es') := add_assoc _ _ _

/-- **What was popped from an owner's lanes was put in them**, over any interleaving. -/
theorem takes_run {sch : Scheduler Addr w} {gen : G} {as : List (Act Addr)}
    (h : Run (Step cfg cg) (.new sch gen) as tr s) (owner : Option Addr) :
    Takes owner {} tr (s.shaper.lanesAt owner) := by
  have hrun : LaneRun cfg owner {} tr (s.shaper.lanesAt owner) := by
    refine h.invariant (I := fun tr s => LaneRun cfg owner {} tr (s.shaper.lanesAt owner)) ?_
      fun hi hstep => hi.trans (laneRun_does (does_of_step hstep) owner)
    cases owner <;> exact .keep (by simp)
  exact LaneRun.takes hrun

/-! ### Numbered upwards -/

/-- At most one frame is put in the lanes of an owner, and if so by this call. -/
def PutsOne (owner : Option Addr) (call : ℕ) (es : List (Event Addr)) : Prop :=
  pushedTo owner es = [] ∨ ∃ f, pushedTo owner es = [f] ∧ f.origin = .enqueued call

theorem PutsOne.of_not_concerns {call : ℕ} (h : ∀ e ∈ es, e.concerns owner = false) : PutsOne owner call es :=
  .inl (pushedTo_of_not_concerns h).1

/-- Room is made in a lane, and a frame put in it. -/
theorem putsOne_evict_push {call : ℕ} {f : PendingFrame Addr} (hf : f.origin = .enqueued call) (o : Option Addr)
    (lane : Lane) (gone : List (PendingFrame Addr)) :
    PutsOne owner call (gone.map (.evict o lane) ++ [.push o lane f]) := by
  by_cases ho : o = owner
  · exact .inr ⟨f, by simp [pushedTo, List.filterMap_map, ho], hf⟩
  · exact .inl (by simp [pushedTo, List.filterMap_map, ho])

theorem putsOne_pushGlobalEvents (lane : Lane) (target : Target Addr) (frame : Bytes) (call : ℕ) (s : Shaper Addr) :
    PutsOne owner call (pushGlobalEvents cfg lane ⟨frame, target, .enqueued call⟩ s) := by
  cases lane with
  | high =>
    simp only [pushGlobalEvents]
    split_ifs
    · exact .inl rfl
    · exact putsOne_evict_push rfl none .high []
  | low => exact putsOne_evict_push rfl none .low _

theorem putsOne_pushPeerEvents (peer : Addr) (lane : Lane) (frame : Bytes) (call : ℕ) (s : Shaper Addr) :
    PutsOne owner call (pushPeerEvents cfg call peer lane frame s) := by
  cases lane with
  | high =>
    simp only [pushPeerEvents]
    split_ifs
    · exact .inl rfl
    · exact putsOne_evict_push rfl (some peer) .high []
  | low => exact putsOne_evict_push rfl (some peer) .low _

/-- A fan-out puts one frame in the lanes of each peer. -/
theorem putsOne_fanOutToEvents {peers : List Addr} (hnd : peers.Nodup) (lane : Lane) (frame : Bytes) (call : ℕ)
    (s : Shaper Addr) : PutsOne owner call (fanOutToEvents cfg call lane frame peers s) := by
  cases owner with
  | none =>
    refine .inl (List.eq_nil_iff_forall_not_mem.mpr fun f hf => ?_)
    obtain ⟨k, hpush⟩ := mem_pushedTo hf
    obtain ⟨peer, hpeer, -⟩ := push_of_mem_fanOutToEvents hpush
    cases hpeer
  | some p =>
    by_cases hp : p ∈ peers
    · obtain ⟨pre, post, hes, hpre, hpost⟩ := fanOutToEvents_split cfg call lane frame (s := s) hnd hp
      have hone : PutsOne (some p) call (fanPushEvents cfg call lane frame s p) := by
        cases lane <;> exact putsOne_evict_push rfl (some p) _ _
      simp only [PutsOne, hes, pushedTo_append, (pushedTo_of_not_concerns hpre).1, (pushedTo_of_not_concerns hpost).1,
        List.nil_append, List.append_nil]
      exact hone
    · exact .of_not_concerns (fanOutTo_of_not_mem cfg call lane frame hp).1

/-- So does no call more than one. -/
theorem putsOne_enqueueRawEvents {s : Shaper Addr} (hnd : s.pcPeers.Nodup) (call : ℕ) (lane : Lane)
    (target : Target Addr) (frame : Bytes) : PutsOne owner call (enqueueRawEvents cfg call lane target frame s) := by
  have hhead {es : List (Event Addr)} (h : PutsOne owner call es) :
      PutsOne owner call (.accepted call lane target frame :: es) := h
  rcases enqueueRaw_cases cfg call lane target frame s with
    ⟨e, s', -, hes, -⟩ | ⟨-, -, -, -, hes⟩ | ⟨-, -, p, -, -, -, hes⟩ | ⟨-, -, -, -, hes⟩ <;> rw [hes]
  · exact .inl rfl
  · exact hhead (putsOne_pushGlobalEvents lane target frame call s)
  · exact hhead (putsOne_pushPeerEvents p lane frame call s)
  · exact hhead (putsOne_fanOutToEvents hnd lane frame call s)

/-- The lists of peers to fan out to have no duplicates. -/
structure NoRepeats (s : SystemState Addr G w) : Prop where
  /-- The cached one. -/
  cached : s.shaper.pcPeers.Nodup
  /-- And the cloned ones. -/
  cloned : ∀ lane frame peers, .fan lane frame peers ∈ s.producers → peers.Nodup

/-- A cache that an application writes has no duplicates either. -/
def Distinct : Act Addr → Prop
  | .refreshPcPeers peers => peers.Nodup
  | _ => True

instance : DecidablePred (Distinct : Act Addr → Prop)
  | .refreshPcPeers peers => inferInstanceAs (Decidable peers.Nodup)
  | .enqueue _ _ _ | .producer _ | .connect _ | .disconnect _ | .wake | .snapshot _ | .sched | .prunePeerLanes _ =>
    inferInstanceAs (Decidable True)

theorem NoRepeats.does (hn : NoRepeats s) (hpc : PcWf cfg s.pc) (ha : Distinct a) (h : Does cfg cg s a es s') :
    NoRepeats s' := by
  obtain ⟨hcached, hcloned⟩ := hn
  have hnotify {ps qs : List (Producer Addr)} (hps : ∀ lane frame peers, .fan lane frame peers ∈ ps → peers.Nodup)
      (hqs : ∀ q ∈ qs, q = .notify) : ∀ lane frame peers, .fan lane frame peers ∈ ps ++ qs → peers.Nodup :=
    fun lane frame peers => fans_append (hps lane frame peers) hqs
  cases h with
  | enqueue =>
    refine ⟨by rwa [pcPeers_enqueueRaw], hnotify hcloned fun q hq => ?_⟩
    split_ifs at hq
    · exact List.mem_singleton.mp hq
    · cases hq
  | clone =>
    refine ⟨hcached, fun l b ps hmem => ?_⟩
    rcases List.mem_append.mp hmem with hmem | hmem
    · exact hcloned l b ps hmem
    · cases List.mem_singleton.mp hmem
      exact hcached
  | fan =>
    refine ⟨by rwa [pcPeers_fanOutTo], fun l b ps hmem => ?_⟩
    rcases List.mem_or_eq_of_mem_set hmem with hmem | hmem
    · exact hcloned l b ps hmem
    · cases hmem
  | notify => exact ⟨hcached, fun l b ps hmem => hcloned l b ps (List.mem_of_mem_eraseIdx hmem)⟩
  | refresh h =>
    rw [h] at hpc
    exact ⟨hpc.2, hcloned⟩
  | prune => exact ⟨by rwa [pcPeers_prunePeerLanes], hcloned⟩
  | prunePeerLanes => exact ⟨by rwa [pcPeers_prunePeerLanes], hcloned⟩
  | visit => exact ⟨by rwa [pcPeers_nextFrameFor], hcloned⟩
  | popHigh => exact ⟨hcached, hcloned⟩
  | popLow => exact ⟨hcached, hcloned⟩
  | refreshPcPeers => exact ⟨ha, hcloned⟩
  | _ => exact ⟨hcached, hcloned⟩

/-- **What a step puts in the lanes of an owner**: at most one frame, and if so by the next call. -/
theorem pushedTo_does (hn : NoRepeats s) (h : Does cfg cg s a es s') :
    (pushedTo owner es = [] ∧ s.calls ≤ s'.calls) ∨
      ∃ f, pushedTo owner es = [f] ∧ f.origin = .enqueued s.calls ∧ s'.calls = s.calls + 1 := by
  have hcalls := calls_le_does h
  rcases submits_cases h with hes | ⟨lane, target, frame, -, hnext, rfl⟩ | ⟨i, lane, frame, peers, -, hi, hnext, rfl⟩
  · refine .inl ⟨List.filterMap_eq_nil_iff.mpr fun e he => ?_, hcalls⟩
    have hs := hes e he
    cases e <;> first | rfl | cases hs
  · exact (putsOne_enqueueRawEvents hn.cached s.calls lane target frame).imp (fun h => ⟨h, hcalls⟩)
      fun ⟨f, hf, ho⟩ => ⟨f, hf, ho, hnext⟩
  · have hone : PutsOne owner s.calls
        (.accepted s.calls lane .broadcast frame :: fanOutToEvents cfg s.calls lane frame peers s.shaper) :=
      putsOne_fanOutToEvents (hn.cloned _ _ _ (List.mem_of_getElem? hi)) lane frame s.calls s.shaper
    exact hone.imp (fun h => ⟨h, hcalls⟩) fun ⟨f, hf, ho⟩ => ⟨f, hf, ho, hnext⟩

/-- **The frames put in the lanes of an owner are numbered upwards**, over any interleaving. -/
theorem numbered_run {sch : Scheduler Addr w} {gen : G} {as : List (Act Addr)}
    (h : Run (Step cfg cg) (.new sch gen) as tr s) (hd : ∀ a ∈ as, Distinct a) :
    NoRepeats s ∧ ((pushedTo owner tr).filterMap callOf).Pairwise (· < ·) ∧
      ∀ n ∈ (pushedTo owner tr).filterMap callOf, n < s.calls := by
  induction h with
  | nil => exact ⟨⟨List.nodup_nil, fun _ _ _ hmem => by cases hmem⟩, List.Pairwise.nil, fun _ hn => by cases hn⟩
  | @snoc as tr s a es s' hrun hs ih =>
    have hdoes := does_of_step hs
    obtain ⟨hn, hsorted, hlt⟩ := ih fun x hx => hd x (List.mem_append_left _ hx)
    refine ⟨hn.does (systemWf_run (.new sch gen) hrun).pc (hd a (by simp)) hdoes, ?_⟩
    rw [pushedTo_append, List.filterMap_append]
    rcases pushedTo_does hn hdoes with ⟨hnone, hcalls⟩ | ⟨f, hone, horigin, hnext⟩
    · rw [hnone, List.filterMap_nil, List.append_nil]
      exact ⟨hsorted, fun n hn => (hlt n hn).trans_le hcalls⟩
    · have hcall : [f].filterMap callOf = [s.calls] := by simp [callOf, horigin]
      rw [hone, hcall, hnext]
      refine ⟨List.pairwise_append.mpr ⟨hsorted, List.pairwise_singleton _ _, fun n hn m hm => ?_⟩, fun n hn => ?_⟩
      · rw [List.mem_singleton.mp hm]
        exact hlt n hn
      · rcases List.mem_append.mp hn with hn | hn
        · exact Nat.lt_succ_of_lt (hlt n hn)
        · rw [List.mem_singleton.mp hn]
          exact Nat.lt_succ_self _

/-! ### What is sent was popped -/

omit [DecidableEq Addr] in
theorem callOf_of_cover {f : PendingFrame Addr} (h : f.origin = .cover) : callOf f = none := by simp [callOf, h]

omit [DecidableEq Addr] in
theorem calls_toList (frame : Option (PendingFrame Addr)) :
    frame.toList.filterMap callOf = (frame.bind callOf).toList := by
  cases frame with
  | none => rfl
  | some f => cases h : callOf f <;> simp [h]

omit [DecidableEq Addr] in
/-- The generator does not change what a frame was submitted by. -/
theorem callOf_frameToSend (frame : Option (PendingFrame Addr)) (g : G) :
    callOf (frameToSend cfg cg frame g).1 = frame.bind callOf := by
  cases frame <;> rfl

theorem mem_sentTo_iff {p : Addr} {f : PendingFrame Addr} : f ∈ sentTo p tr ↔ .send p f ∈ tr := by
  simp [sentTo, ← mem_sends_iff]

/-- Fresh cover was submitted by nobody. -/
theorem calls_sentTo_sendCovers (p : Addr) (targets : List Addr) (g : G) :
    (sentTo p (sendCovers cfg.toShapeConfig cg targets g).1).filterMap callOf = [] :=
  List.filterMap_eq_nil_iff.mpr fun _ hf => callOf_of_cover (mem_sendCovers (mem_sentTo_iff.mp hf)).1

/-- A broadcast sends its frame to a peer once at most. -/
theorem sentTo_map_send {targets : List Addr} (hnd : targets.Nodup) (frame : PendingFrame Addr) (p : Addr) :
    (sentTo p (targets.map fun q => .send q frame)).Sublist [frame] := by
  have hsent : sentTo p (targets.map fun q => .send q frame) =
      (targets.filter fun q => decide (q = p)).map fun _ => frame := by
    simp [sentTo, sends, List.filterMap_map, List.filter_map, Function.comp_def]
  have hone : targets.count p ≤ 1 := List.nodup_iff_count_le_one.mp hnd p
  rw [hsent, List.filter_eq, List.map_replicate]
  exact (List.replicate_sublist_replicate frame).mpr hone

/-- So does a dispatch. -/
theorem calls_sentTo_dispatchGlobal {peers : List Addr} (hnd : peers.Nodup) (frame : PendingFrame Addr) (g : G)
    (sch : Scheduler Addr w) (p : Addr) :
    ((sentTo p (dispatchGlobal cfg cg peers frame g sch).events).filterMap callOf).Sublist (callOf frame).toList := by
  have hframe : [frame].filterMap callOf = (callOf frame).toList := calls_toList (some frame)
  cases ht : frame.target with
  | broadcast =>
    simp only [dispatchGlobal, ht, ← hframe]
    exact (sentTo_map_send (nodup_pickTargets hnd _ sch) frame p).filterMap callOf
  | unicast q =>
    by_cases hq : q ∈ peers
    · have hsplit {es : List (Event Addr)} (hes : (sentTo p es).filterMap callOf = []) :
          ((sentTo p (.send q frame :: es)).filterMap callOf).Sublist (callOf frame).toList := by
        have hfirst := (sentTo_map_send (List.nodup_singleton q) frame p).filterMap callOf
        have happend : sentTo p (.send q frame :: es) = sentTo p [.send q frame] ++ sentTo p es := sentTo_append p [_] es
        rwa [happend, List.filterMap_append, hes, List.append_nil, ← hframe]
      simp only [dispatchGlobal, ht, hq, if_true]
      exact hsplit (calls_sentTo_sendCovers p _ g)
    · simp only [dispatchGlobal, ht, hq, if_false]
      rw [calls_sentTo_sendCovers]
      exact List.nil_sublist _

/-- The owner of the lanes that frames for a peer come from. -/
def laneOwner (cfg : ShaperConfig) (p : Addr) : Option Addr := if cfg.scope = .global then none else some p

/-- The frame the scheduler holds, if it comes from the lanes of this owner. -/
def heldFrom (owner : Option Addr) (pc : Pc Addr) : List (PendingFrame Addr) :=
  if pc.heldFor = owner then pc.held.toList else []

theorem heldFrom_of_none {pc : Pc Addr} (h : pc.held = none) : heldFrom owner pc = [] := by
  rw [heldFrom, h]
  split_ifs <;> rfl

/-- What a step sends to a peer is the frame the scheduler holds for it, and it was not submitted by
anybody otherwise. -/
theorem calls_sentTo_does {p : Addr} (hpc : PcWf cfg s.pc) (h : Does cfg cg s a es s') :
    ((sentTo p es).filterMap callOf).Sublist ((heldFrom (laneOwner cfg p) s.pc).filterMap callOf) := by
  rcases calls_does h with ⟨-, hsends, -⟩ | ⟨peer, frame, todo, hat, -, hsends, -⟩ | ⟨q, qs, frame, hat, -, hsends, -⟩
  · rw [sentTo, hsends]
    exact List.nil_sublist _
  · rw [hat] at hpc ⊢
    by_cases hpeer : peer = p
    · subst hpeer
      have howner : laneOwner cfg peer = some peer := if_neg hpc.1
      have hsent : sentTo peer es = [(frameToSend cfg cg frame s.gen).1] := by simp [sentTo, hsends]
      have hone : [(frameToSend cfg cg frame s.gen).1].filterMap callOf = _ := calls_toList (some _)
      rw [hsent, hone, Option.bind_some, callOf_frameToSend, heldFrom, howner]
      simp only [Pc.heldFor, Pc.held, if_true, calls_toList]
      exact .refl _
    · simp [sentTo, hsends, hpeer]
  · rw [hat] at hpc ⊢
    have howner : laneOwner cfg p = none := if_pos hpc.1
    have hsent : sentTo p es = sentTo p (dispatchGlobal cfg cg (q :: qs) (frameToSend cfg cg frame s.gen).1
        (frameToSend cfg cg frame s.gen).2.2 s.scheduler).events := by rw [sentTo, sentTo, hsends]
    rw [hsent, heldFrom, howner]
    simp only [Pc.heldFor, Pc.held, if_true, calls_toList]
    rw [← callOf_frameToSend frame s.gen]
    exact calls_sentTo_dispatchGlobal hpc.2.1 _ _ _ p

/-- A pop, and the frame it popped held for the owner it was popped for. -/
theorem heldFrom_of_pop {lane : Lane} {f : PendingFrame Addr} {pc : Pc Addr} (hheld : pc.held = some f) :
    heldFrom owner pc = (poppedFrom owner [.pop pc.heldFor lane f]).map Prod.snd := by
  rw [heldFrom, hheld]
  by_cases ho : pc.heldFor = owner <;> simp [poppedFrom, ho]

/-- What the scheduler holds after a step it held before or popped, and meanwhile it sent nothing. -/
theorem heldFrom_does (owner : Option Addr) (h : Does cfg cg s a es s') : heldFrom owner s'.pc = [] ∨
    sends es = [] ∧ (heldFrom owner s'.pc).Sublist (heldFrom owner s.pc ++ (poppedFrom owner es).map Prod.snd) := by
  have quiet (hes : ∀ e ∈ es, e.ofShaper = true) (hpc : s'.pc = s.pc) : heldFrom owner s'.pc = [] ∨
      sends es = [] ∧ (heldFrom owner s'.pc).Sublist (heldFrom owner s.pc ++ (poppedFrom owner es).map Prod.snd) :=
    .inr ⟨(reads_of_ofShaper hes).1, hpc ▸ List.sublist_append_left _ _⟩
  have popped (lane : Lane) (f : PendingFrame Addr) (hheld : s'.pc.held = some f)
      (hes : es = [.pop s'.pc.heldFor lane f]) : heldFrom owner s'.pc = [] ∨
      sends es = [] ∧ (heldFrom owner s'.pc).Sublist (heldFrom owner s.pc ++ (poppedFrom owner es).map Prod.snd) := by
    refine .inr ⟨by rw [hes]; rfl, ?_⟩
    rw [heldFrom_of_pop hheld, ← hes]
    exact List.sublist_append_right _ _
  cases h with
  | enqueue => exact quiet ofShaper_enqueueRawEvents rfl
  | fan =>
    refine quiet (fun e he => ?_) rfl
    rcases List.mem_cons.mp he with rfl | he
    · rfl
    · exact ofShaper_fanOutToEvents _ _ e he
  | prunePeerLanes => exact quiet (ofShaper_prunePeerLanesEvents _ _) rfl
  | clone | notify | connect | disconnect | refreshPcPeers => exact quiet (by simp) rfl
  | tick | consume | refresh | pick => exact .inl (heldFrom_of_none rfl)
  | snapshot => exact .inl (heldFrom_of_none (held_afterSnapshot _))
  | prune => exact .inl (heldFrom_of_none (held_afterPrune _))
  | walk => exact .inl (heldFrom_of_none (held_visitNext _))
  | deliver => exact .inl (heldFrom_of_none (held_visitNext _))
  | dispatch => exact .inl (heldFrom_of_none (held_afterDispatch _ _))
  | @visit peer todo hpc =>
    rcases nextFrameFor_cases peer s.shaper with ⟨f, high, low, hl, hn⟩ | ⟨f, low, hl, hn⟩ | ⟨-, hn⟩
    · exact popped .high f (by simp [hn]) (by simp [nextFrameForEvents, hl, hn, afterVisit, Pc.heldFor])
    · exact popped .low f (by simp [hn]) (by simp [nextFrameForEvents, hl, hn, afterVisit, Pc.heldFor])
    · exact .inl (heldFrom_of_none (by simp [hn]))
  | @popHigh p ps hpc =>
    cases hf : s.shaper.highLane with
    | nil => exact .inl (heldFrom_of_none (by simp [popHigh, hf]))
    | cons f high =>
      exact popped .high f (by simp [popHigh, hf])
        (by simp [popHighEvents, popHigh, hf, afterPopHigh, Pc.heldFor])
  | @popLow p ps hpc =>
    cases hf : s.shaper.lowLane with
    | nil => exact .inl (heldFrom_of_none (by simp [popLow, hf]))
    | cons f low =>
      exact popped .low f (by simp [popLow, hf])
        (by simp [popLowEvents, popLow, hf, afterPopLow, Pc.heldFor])

/-- **What is sent to a peer was popped from its lanes**, over any interleaving and in this order: the calls
of what was sent to it and of what the scheduler still holds for it. -/
theorem sentTo_sublist_run {sch : Scheduler Addr w} {gen : G} {as : List (Act Addr)}
    (h : Run (Step cfg cg) (.new sch gen) as tr s) (p : Addr) :
    ((sentTo p tr ++ heldFrom (laneOwner cfg p) s.pc).filterMap callOf).Sublist
      (((poppedFrom (laneOwner cfg p) tr).map Prod.snd).filterMap callOf) := by
  refine h.invariant_of (J := fun _ s => SystemWf cfg s)
    (I := fun tr s => ((sentTo p tr ++ heldFrom (laneOwner cfg p) s.pc).filterMap callOf).Sublist
      (((poppedFrom (laneOwner cfg p) tr).map Prod.snd).filterMap callOf))
    (fun h => systemWf_run (.new sch gen) h) (by rw [heldFrom_of_none rfl]; exact .refl _)
    fun {tr s a es s'} hs hi hstep => ?_
  have hdoes := does_of_step hstep
  simp only [sentTo_append, poppedFrom_append, List.map_append, List.filterMap_append] at hi ⊢
  rcases heldFrom_does (laneOwner cfg p) hdoes with hnone | ⟨hsends, hheld⟩
  · -- what was held is sent, or dropped
    rw [hnone, List.filterMap_nil, List.append_nil]
    exact ((calls_sentTo_does hs.pc hdoes).append_left _).trans (hi.trans (List.sublist_append_left _ _))
  · have hsent : sentTo p es = [] := by rw [sentTo, hsends]; rfl
    have hheld' := hheld.filterMap callOf
    rw [List.filterMap_append] at hheld'
    rw [hsent, List.filterMap_nil, List.append_nil]
    refine (hheld'.append_left _).trans ?_
    rw [← List.append_assoc]
    exact hi.append_right _

/-- Of what was sent alone. -/
theorem calls_sentTo_sublist {sch : Scheduler Addr w} {gen : G} {as : List (Act Addr)}
    (h : Run (Step cfg cg) (.new sch gen) as tr s) (p : Addr) : ((sentTo p tr).filterMap callOf).Sublist
      (((poppedFrom (laneOwner cfg p) tr).map Prod.snd).filterMap callOf) :=
  ((List.sublist_append_left _ _).filterMap callOf).trans (sentTo_sublist_run h p)

/-! ### In the order of the calls -/

omit [DecidableEq Addr] in
/-- A frame is put in the lane in which room was made. -/
theorem lane_of_mem_evict_push {o : Option Addr} {lane k : Lane} (gone : List (PendingFrame Addr))
    {f g : PendingFrame Addr} (h : Event.push owner k f ∈ gone.map (Event.evict o lane) ++ [.push o lane g]) :
    k = lane := by
  simp only [List.mem_append, List.mem_map, reduceCtorEq, and_false, exists_false, List.mem_singleton,
    Event.push.injEq, false_or] at h
  exact h.2.1

theorem lane_of_mem_fanOutToEvents {call : ℕ} {lane k : Lane} {frame : Bytes} {f : PendingFrame Addr} :
    ∀ {peers : List Addr} {s : Shaper Addr}, .push owner k f ∈ fanOutToEvents cfg call lane frame peers s → k = lane
  | [], _, h => by cases h
  | peer :: peers, s, h => by
    rcases List.mem_append.mp h with h | h
    · cases lane <;> exact lane_of_mem_evict_push _ h
    · exact lane_of_mem_fanOutToEvents h

/-- So does a call. -/
theorem lane_of_mem_enqueueRawEvents {call : ℕ} {lane k : Lane} {target : Target Addr} {frame : Bytes}
    {s : Shaper Addr} {f : PendingFrame Addr} (h : .push owner k f ∈ enqueueRawEvents cfg call lane target frame s) :
    k = lane := by
  rcases enqueueRaw_cases cfg call lane target frame s with
    ⟨e, s', -, hes, -⟩ | ⟨-, -, -, -, hes⟩ | ⟨-, -, p, -, -, -, hes⟩ | ⟨-, -, -, -, hes⟩ <;> rw [hes] at h
  · cases List.mem_singleton.mp h
  all_goals replace h := (List.mem_cons.mp h).resolve_left (by simp)
  · cases lane with
    | high =>
      simp only [pushGlobalEvents] at h
      split_ifs at h
      · cases h
      · exact lane_of_mem_evict_push [] h
    | low => exact lane_of_mem_evict_push _ h
  · cases lane with
    | high =>
      simp only [pushPeerEvents] at h
      split_ifs at h
      · cases h
      · exact lane_of_mem_evict_push [] h
    | low => exact lane_of_mem_evict_push _ h
  · exact lane_of_mem_fanOutToEvents h

/-- What a step puts in a lane was accepted for this lane. -/
theorem accepted_of_push (h : Does cfg cg s a es s') {lane : Lane} {f : PendingFrame Addr}
    (hf : .push owner lane f ∈ es) : ∃ n target, f.origin = .enqueued n ∧ .accepted n lane target f.bytes ∈ es := by
  obtain ⟨n, k, target, horigin, hacc, -⟩ := traced_of_push h hf
  suffices hk : lane = k from ⟨n, target, horigin, hk ▸ hacc⟩
  rcases submits_cases h with hes | ⟨_, _, _, -, -, rfl⟩ | ⟨_, _, _, _, -, -, -, rfl⟩
  · cases hes _ hf
  · obtain ⟨-, rfl, -⟩ := eq_of_accepted_mem_enqueueRawEvents hacc
    exact lane_of_mem_enqueueRawEvents hf
  · rcases List.mem_cons.mp hacc with hacc | hacc
    · cases hacc
      exact lane_of_mem_fanOutToEvents ((List.mem_cons.mp hf).resolve_left (by simp))
    · exact (not_accepted_fanOutToEvents hacc).elim

/-- What is put in a lane, over any interleaving, was accepted for this lane. -/
theorem accepted_of_push_run {sch : Scheduler Addr w} {gen : G} {as : List (Act Addr)}
    (h : Run (Step cfg cg) (.new sch gen) as tr s) {lane : Lane} {f : PendingFrame Addr}
    (hf : f ∈ pushes owner lane tr) : ∃ n target, f.origin = .enqueued n ∧ .accepted n lane target f.bytes ∈ tr := by
  refine h.invariant (I := fun tr _ => ∀ f ∈ pushes owner lane tr, ∃ n target, f.origin = .enqueued n ∧
    .accepted n lane target f.bytes ∈ tr) (fun f hf => by cases hf) (fun {tr s a es s'} hi hstep f hf => ?_) f hf
  rw [pushes_append] at hf
  rcases List.mem_append.mp hf with hf | hf
  · obtain ⟨n, target, horigin, hacc⟩ := hi f hf
    exact ⟨n, target, horigin, List.mem_append_left _ hacc⟩
  · obtain ⟨n, target, horigin, hacc⟩ := accepted_of_push (does_of_step hstep) (mem_pushes_iff.mp hf)
    exact ⟨n, target, horigin, List.mem_append_right _ hacc⟩

/-- What was popped from a lane was accepted for this lane. -/
theorem accepted_of_pop_run {sch : Scheduler Addr w} {gen : G} {as : List (Act Addr)}
    (h : Run (Step cfg cg) (.new sch gen) as tr s) {x : Lane × PendingFrame Addr} (hx : x ∈ poppedFrom owner tr)
    {n : ℕ} (hn : callOf x.2 = some n) : ∃ target, .accepted n x.1 target x.2.bytes ∈ tr := by
  have htakes := takes_run h owner
  have hpop : x.2 ∈ pops owner x.1 tr := by
    rw [← map_snd_poppedFrom]
    exact List.mem_map_of_mem (List.mem_filter.mpr ⟨hx, by simp⟩)
  have hpush : x.2 ∈ pushes owner x.1 tr := by
    revert hpop
    cases x.1 with
    | high => exact fun hpop => htakes.high.subset (List.mem_append_left _ hpop)
    | low => exact fun hpop => Multiset.mem_of_le htakes.low (Multiset.mem_add.mpr (.inl hpop))
  obtain ⟨m, target, horigin, hacc⟩ := accepted_of_push_run h hpush
  obtain rfl : m = n := by simpa [callOf, horigin] using hn
  exact ⟨target, hacc⟩

/-- No call's frame is popped twice from the lanes of an owner. -/
theorem nodup_calls_poppedFrom {sch : Scheduler Addr w} {gen : G} {as : List (Act Addr)}
    (h : Run (Step cfg cg) (.new sch gen) as tr s) (hd : ∀ a ∈ as, Distinct a) (owner : Option Addr) :
    (((poppedFrom owner tr).map Prod.snd).filterMap callOf).Nodup := by
  have htakes := takes_run h owner
  have hle : ((poppedFrom owner tr).map Prod.snd : Multiset (PendingFrame Addr)) ≤ pushedTo owner tr := by
    rw [coe_poppedFrom, coe_pushedTo]
    have hhigh : (pops owner .high tr : Multiset (PendingFrame Addr)) ≤ pushes owner .high tr :=
      Multiset.coe_le.mpr ((List.sublist_append_left _ _).trans htakes.high).subperm
    have hlow : (pops owner .low tr : Multiset (PendingFrame Addr)) ≤ pushes owner .low tr :=
      ((Multiset.le_add_right _ _).trans htakes.low).trans_eq (zero_add _)
    exact add_le_add hhigh hlow
  have hcalls := Multiset.filterMap_le_filterMap callOf hle
  rw [Multiset.filterMap_coe, Multiset.filterMap_coe] at hcalls
  exact Multiset.coe_nodup.mp (Multiset.nodup_of_le hcalls (Multiset.coe_nodup.mpr ((numbered_run h hd).2.1.imp ne_of_lt)))

/-- Whether calls that were accepted for the high lane come in order. -/
def HighInOrder (tr : List (Event Addr)) (m n : ℕ) : Prop :=
  ∀ target b target' b', .accepted m .high target b ∈ tr → .accepted n .high target' b' ∈ tr → m < n

/-- Those that were accepted for the high lane are popped in this order. -/
theorem pairwise_calls_poppedFrom {sch : Scheduler Addr w} {gen : G} {as : List (Act Addr)}
    (h : Run (Step cfg cg) (.new sch gen) as tr s) (hd : ∀ a ∈ as, Distinct a) (owner : Option Addr) :
    (((poppedFrom owner tr).map Prod.snd).filterMap callOf).Pairwise (HighInOrder tr) := by
  have hsub : (pops owner .high tr).Sublist (pushedTo owner tr) :=
    ((List.sublist_append_left _ _).trans (takes_run h owner).high).trans (pushes_sublist_pushedTo .high tr)
  obtain ⟨-, hnumbered, -⟩ := numbered_run h hd
  have hhigh := (List.pairwise_filterMap.mp hnumbered).sublist hsub
  rw [← map_snd_poppedFrom, List.pairwise_map, List.pairwise_filter] at hhigh
  rw [List.pairwise_filterMap, List.pairwise_map]
  refine hhigh.imp_of_mem fun {x y} hx hy hlt m hm n hn target b target' b' hacc hacc' => ?_
  -- a frame of a high call was popped from the high lane
  have hlane {x : Lane × PendingFrame Addr} (hx : x ∈ poppedFrom owner tr) {m : ℕ} (hm : callOf x.2 = some m)
      {target : Target Addr} {b : Bytes} (hacc : .accepted m .high target b ∈ tr) : x.1 = .high := by
    obtain ⟨t, hpop⟩ := accepted_of_pop_run h hx hm
    exact ((provenance_run h).unique m _ _ _ _ _ _ hpop hacc).1
  exact hlt (by simp [hlane hx hm hacc]) (by simp [hlane hy hn hacc']) m hm n hn

/-- **In order, and each once.** Over any interleaving, in either scope and under every strategy: of no call
is anything sent to a peer twice, and of calls on the high lane it is sent in the order in which they were
accepted. -/
theorem sent_in_order {sch : Scheduler Addr w} {gen : G} {as : List (Act Addr)}
    (h : Run (Step cfg cg) (.new sch gen) as tr s) (hd : ∀ a ∈ as, Distinct a) (p : Addr) :
    ((sentTo p tr).filterMap callOf).Nodup ∧ ((sentTo p tr).filterMap callOf).Pairwise (HighInOrder tr) :=
  ⟨(nodup_calls_poppedFrom h hd _).sublist (calls_sentTo_sublist h p),
    (pairwise_calls_poppedFrom h hd _).sublist (calls_sentTo_sublist h p)⟩

/-- A low frame and then two high ones, in three ticks. -/
theorem sent_in_order_three :
    let cfg : ShaperConfig := { fanout := 1, frameSize := 32, accepted := by decide }
    let s₀ : SystemState ℕ (Stream' UInt8) 64 := .new { rng := Stream'.const 1 } (Stream'.const 5)
    let acts : List (Act ℕ) :=
      [.connect 1, .enqueue .low .broadcast (List.replicate 32 6), .enqueue .high .broadcast (List.replicate 32 7),
        .enqueue .high (.unicast 1) (List.replicate 32 8), .wake, .snapshot [1], .sched, .sched, .wake, .snapshot [1],
        .sched, .sched, .wake, .snapshot [1], .sched, .sched, .sched]
    ∃ tr s, Run (Step cfg randomCover) s₀ acts tr s ∧ (sentTo 1 tr).filterMap callOf = [1, 2, 0] ∧
      ((sentTo 1 tr).filterMap callOf).Nodup ∧ ((sentTo 1 tr).filterMap callOf).Pairwise (HighInOrder tr) := by
  intro cfg s₀ acts
  obtain ⟨tr, s, h, hcalls⟩ : ∃ tr s, Run (Step cfg randomCover) s₀ acts tr s ∧
      (sentTo 1 tr).filterMap callOf = [1, 2, 0] := exists_run_of_exec (by decide +kernel)
  exact ⟨tr, s, h, hcalls, sent_in_order h (by decide) 1⟩

end Peashape.Shaping

import Peashape.Foundation.Machine
import Peashape.Model.History
import Mathlib.Algebra.Order.Group.Multiset
import Mathlib.Tactic.Abel

/-!
# Conservation on one pair of lanes

What `LaneStep` says of one step, carried over to a history of any length, for one pair
of lanes at a time, shared or a peer's own:

* `LaneWf` — every queued frame has the configured size and no lane exceeds its
  capacity;
* `Ledger` — since the entry was last pruned, the frames that left the high lane,
  followed by those in it, are the frames put in it, in order; and the frames put in the
  low lane are those popped, those evicted and those still in it, counted;
* `LaneStep.evicts_high` and `LaneStep.evicts_low` — a frame is evicted only from a full
  lane, one at a time, the one at the end that was there longest.
-/

namespace Peashape.Shaping

open Foundation Shaper

variable {Addr : Type*} [DecidableEq Addr] {cfg : ShaperConfig} {owner : Option Addr}
  {l l' : PeerLanes Addr} {es : List (Event Addr)} {lane : Lane}

/-! ### Reading the events of a step -/

@[simp] theorem pushes_append (tr tr' : List (Event Addr)) :
    pushes owner lane (tr ++ tr') = pushes owner lane tr ++ pushes owner lane tr' :=
  List.filterMap_append

@[simp] theorem pops_append (tr tr' : List (Event Addr)) :
    pops owner lane (tr ++ tr') = pops owner lane tr ++ pops owner lane tr' :=
  List.filterMap_append

@[simp] theorem evicts_append (tr tr' : List (Event Addr)) :
    evicts owner lane (tr ++ tr') = evicts owner lane tr ++ evicts owner lane tr' :=
  List.filterMap_append

@[simp] theorem removed_append (tr tr' : List (Event Addr)) :
    removed owner lane (tr ++ tr') = removed owner lane tr ++ removed owner lane tr' :=
  List.filterMap_append

@[simp] theorem pushes_map_evict (o : Option Addr) (k : Lane) (fs : List (PendingFrame Addr)) :
    pushes owner lane (fs.map (.evict o k)) = [] := by
  simp [pushes, List.filterMap_map]

@[simp] theorem pops_map_evict (o : Option Addr) (k : Lane) (fs : List (PendingFrame Addr)) :
    pops owner lane (fs.map (.evict o k)) = [] := by
  simp [pops, List.filterMap_map]

@[simp] theorem evicts_map_evict (k : Lane) (fs : List (PendingFrame Addr)) :
    evicts owner lane (fs.map (.evict owner k)) = if k = lane then fs else [] := by
  by_cases h : k = lane <;> simp [evicts, List.filterMap_map, h]

@[simp] theorem removed_map_evict (k : Lane) (fs : List (PendingFrame Addr)) :
    removed owner lane (fs.map (.evict owner k)) = if k = lane then fs else [] := by
  by_cases h : k = lane <;> simp [removed, List.filterMap_map, h]

/-- Events not about an owner read as nothing. -/
theorem reads_of_not_concerns (lane : Lane) (h : ∀ e ∈ es, e.concerns owner = false) :
    pushes owner lane es = [] ∧ pops owner lane es = [] ∧ evicts owner lane es = [] ∧
      removed owner lane es = [] := by
  have hskip : ∀ {o : Option Addr} {k : Lane} {f : PendingFrame Addr}, decide (o = owner) = false →
      (if o = owner ∧ k = lane then some f else none) = none := fun ho =>
    if_neg fun hc => of_decide_eq_false ho hc.1
  refine ⟨?_, ?_, ?_, ?_⟩ <;>
  · apply List.filterMap_eq_nil_iff.mpr
    intro e he
    have hc := h e he
    cases e <;> first | rfl | exact hskip hc

theorem not_prunes_of_not_concerns (h : ∀ e ∈ es, e.concerns owner = false) : ∀ e ∈ es, e.prunes owner = false := by
  intro e he
  have hc := h e he
  cases e <;> first | rfl | exact hc

/-- Events that put one frame in one lane of an owner, and throw `gone` away to make room. -/
structure Puts (owner : Option Addr) (lane : Lane) (f : PendingFrame Addr) (gone : List (PendingFrame Addr))
    (es : List (Event Addr)) : Prop where
  /-- The frame is put in that lane and in no other. -/
  pushes : ∀ k, pushes owner k es = if lane = k then [f] else []
  /-- What is thrown away comes from that lane. -/
  evicts : ∀ k, evicts owner k es = if lane = k then gone else []
  /-- Nothing is popped. -/
  pops : ∀ k, pops owner k es = []
  /-- Nothing else leaves. -/
  removed : ∀ k, removed owner k es = if lane = k then gone else []
  /-- No entry is dropped. -/
  prunes : ∀ e ∈ es, e.prunes owner = false

theorem Puts.evict_push (owner : Option Addr) (lane : Lane) (f : PendingFrame Addr)
    (gone : List (PendingFrame Addr)) :
    Puts owner lane f gone (gone.map (.evict owner lane) ++ [.push owner lane f]) where
  pushes k := by
    rw [pushes_append, pushes_map_evict]
    by_cases h : lane = k <;> simp [Peashape.pushes, h]
  evicts k := by
    rw [evicts_append, evicts_map_evict]
    exact List.append_nil _
  pops k := by
    rw [pops_append, pops_map_evict]
    rfl
  removed k := by
    rw [removed_append, removed_map_evict]
    exact List.append_nil _
  prunes e he := by
    rcases List.mem_append.mp he with he | he
    · obtain ⟨g, -, rfl⟩ := List.mem_map.mp he
      rfl
    · rw [List.mem_singleton.mp he]
      rfl

/-- Events not about the owner, before and after, change nothing. -/
theorem Puts.surround {f : PendingFrame Addr} {gone : List (PendingFrame Addr)} {pre post : List (Event Addr)}
    (h : Puts owner lane f gone es) (hpre : ∀ e ∈ pre, e.concerns owner = false)
    (hpost : ∀ e ∈ post, e.concerns owner = false) : Puts owner lane f gone (pre ++ es ++ post) where
  pushes k := by
    rw [pushes_append, pushes_append, (reads_of_not_concerns k hpre).1, (reads_of_not_concerns k hpost).1,
      h.pushes, List.nil_append, List.append_nil]
  evicts k := by
    rw [evicts_append, evicts_append, (reads_of_not_concerns k hpre).2.2.1,
      (reads_of_not_concerns k hpost).2.2.1, h.evicts, List.nil_append, List.append_nil]
  pops k := by
    rw [pops_append, pops_append, (reads_of_not_concerns k hpre).2.1, (reads_of_not_concerns k hpost).2.1,
      h.pops, List.nil_append, List.append_nil]
  removed k := by
    rw [removed_append, removed_append, (reads_of_not_concerns k hpre).2.2.2,
      (reads_of_not_concerns k hpost).2.2.2, h.removed, List.nil_append, List.append_nil]
  prunes e he := by
    rcases List.mem_append.mp he with he | he
    · rcases List.mem_append.mp he with he | he
      · exact not_prunes_of_not_concerns hpre e he
      · exact h.prunes e he
    · exact not_prunes_of_not_concerns hpost e he

/-! ### What a step pushes -/

theorem mem_pushes_iff {tr : List (Event Addr)} {f : PendingFrame Addr} :
    f ∈ pushes owner lane tr ↔ Event.push owner lane f ∈ tr := by
  simp only [pushes, List.mem_filterMap]
  constructor
  · rintro ⟨e, he, hf⟩
    cases e <;> simp_all
  · exact fun h => ⟨_, h, by simp⟩

omit [DecidableEq Addr] in
theorem eq_of_mem_pushGlobalEvents {pframe f : PendingFrame Addr} {s : Shaper Addr} {k : Lane}
    (h : Event.push owner lane f ∈ pushGlobalEvents cfg k pframe s) : f = pframe := by
  cases k <;> simp only [pushGlobalEvents] at h
  · split_ifs at h <;> simp_all
  · simp_all

theorem eq_of_mem_pushPeerEvents {f : PendingFrame Addr} {s : Shaper Addr} {k : Lane} {call : ℕ}
    {peer : Addr} {frame : Bytes} (h : Event.push owner lane f ∈ pushPeerEvents cfg call peer k frame s) :
    f = peerFrame peer frame call := by
  cases k <;> simp only [pushPeerEvents] at h
  · split_ifs at h
    · cases h
    · simp only [List.mem_singleton, Event.push.injEq] at h
      exact h.2.2
  · simp only [List.mem_append, List.mem_map, reduceCtorEq, and_false, exists_false, List.mem_singleton,
      Event.push.injEq, false_or] at h
    exact h.2.2

theorem eq_of_mem_fanPushEvents {f : PendingFrame Addr} {s : Shaper Addr} {k : Lane} {call : ℕ}
    {peer : Addr} {frame : Bytes} (h : Event.push owner lane f ∈ fanPushEvents cfg call k frame s peer) :
    f = peerFrame peer frame call := by
  cases k <;> simp only [fanPushEvents, List.mem_append, List.mem_map, reduceCtorEq, and_false,
    exists_false, List.mem_singleton, Event.push.injEq, false_or] at h <;> exact h.2.2

/-! ### Size and capacity -/

/-- Every queued frame has `frame_size` bytes, and no lane exceeds its capacity. -/
structure LaneWf (cfg : ShaperConfig) (l : PeerLanes Addr) : Prop where
  /-- Every frame has the configured size. -/
  sized : ∀ f ∈ l.high ++ l.low, f.bytes.length = cfg.frameSize
  /-- The high lane is within its capacity. -/
  high_le : l.high.length ≤ cfg.highLaneCapacity
  /-- The low lane is within its capacity. -/
  low_le : l.low.length ≤ cfg.lowLaneCapacity

omit [DecidableEq Addr] in
theorem LaneWf.empty : LaneWf cfg ({} : PeerLanes Addr) := ⟨by simp, by simp, by simp⟩

/-- A step keeps sizes and capacities, if the frames it pushes have the right size. -/
theorem LaneStep.wf (h : LaneStep cfg owner l es l') (hl : LaneWf cfg l)
    (hsize : ∀ lane, ∀ f ∈ pushes owner lane es, f.bytes.length = cfg.frameSize) : LaneWf cfg l' := by
  obtain ⟨hs, hh, hlo⟩ := hl
  simp only [List.mem_append] at hs
  cases h with
  | keep _ => exact ⟨by simpa using hs, hh, hlo⟩
  | @pushHigh _ f room =>
    have hf := hsize .high f (by simp [pushes])
    refine ⟨fun g hg => ?_, by simp only [List.length_append, List.length_singleton]; omega, hlo⟩
    simp only [List.mem_append, List.mem_singleton] at hg
    rcases hg with (hg | rfl) | hg
    · exact hs g (.inl hg)
    · exact hf
    · exact hs g (.inr hg)
  | @pushLow _ f =>
    have hf := hsize .low f (by simp [pushes])
    have hlen := Deque.length_evictBack_lt cfg.low_pos l.low
    refine ⟨fun g hg => ?_, hh, by simp only [List.length_cons]; omega⟩
    simp only [List.mem_append, List.mem_cons] at hg
    rcases hg with hg | rfl | hg
    · exact hs g (.inl hg)
    · exact hf
    · exact hs g (.inr (Deque.mem_of_mem_evictBack cfg.low_pos hg))
  | @fanHigh _ f =>
    have hf := hsize .high f (by simp [pushes])
    have hlen := Deque.length_evictFront_lt cfg.high_pos l.high
    refine ⟨fun g hg => ?_, by simp only [List.length_append, List.length_singleton]; omega, hlo⟩
    simp only [List.mem_append, List.mem_singleton] at hg
    rcases hg with (hg | rfl) | hg
    · exact hs g (.inl (Deque.mem_of_mem_evictFront cfg.high_pos hg))
    · exact hf
    · exact hs g (.inr hg)
  | popHigh =>
    refine ⟨fun g hg => hs g ?_, Nat.le_of_succ_le hh, hlo⟩
    rcases List.mem_append.mp hg with hg | hg
    · exact .inl (List.mem_cons_of_mem _ hg)
    · exact .inr hg
  | popLow =>
    refine ⟨fun g hg => hs g ?_, hh, Nat.le_of_succ_le hlo⟩
    rcases List.mem_append.mp hg with hg | hg
    · exact .inl hg
    · exact .inr (List.mem_cons_of_mem _ hg)
  | prune _ => exact LaneWf.empty

/-! ### Where the frames of a lane come from and go to -/

/-- A frame in a lane after a step was there before, or is put there by it. -/
theorem LaneStep.mem_or_push (h : LaneStep cfg owner l es l') {f : PendingFrame Addr}
    (hf : f ∈ l'.lane lane) : f ∈ l.lane lane ∨ Event.push owner lane f ∈ es := by
  cases h with
  | keep _ => exact .inl hf
  | pushHigh _ =>
    cases lane with
    | high =>
      rcases List.mem_append.mp hf with hf | hf
      · exact .inl hf
      · exact .inr (by rw [List.mem_singleton.mp hf]; exact List.mem_singleton_self _)
    | low => exact .inl hf
  | pushLow =>
    cases lane with
    | high => exact .inl hf
    | low =>
      rcases List.mem_cons.mp hf with rfl | hf
      · exact .inr (List.mem_append_right _ (List.mem_singleton_self _))
      · exact .inl (Deque.mem_of_mem_evictBack cfg.low_pos hf)
  | fanHigh =>
    cases lane with
    | high =>
      rcases List.mem_append.mp hf with hf | hf
      · exact .inl (Deque.mem_of_mem_evictFront cfg.high_pos hf)
      · rw [List.mem_singleton.mp hf]
        exact .inr (List.mem_append_right _ (List.mem_singleton_self _))
    | low => exact .inl hf
  | popHigh =>
    cases lane with
    | high => exact .inl (List.mem_cons_of_mem _ hf)
    | low => exact .inl hf
  | popLow =>
    cases lane with
    | high => exact .inl hf
    | low => exact .inl (List.mem_cons_of_mem _ hf)
  | prune _ => cases lane <;> cases hf

/-- A frame in a lane before a step is there after it, or the step pops it, evicts it or
drops the whole entry. -/
theorem LaneStep.mem_or_removed (h : LaneStep cfg owner l es l') {f : PendingFrame Addr}
    (hf : f ∈ l.lane lane) : f ∈ l'.lane lane ∨ Event.pop owner lane f ∈ es ∨ Event.evict owner lane f ∈ es ∨
      ∃ e ∈ es, e.prunes owner = true := by
  cases h with
  | keep _ => exact .inl hf
  | pushHigh _ =>
    cases lane with
    | high => exact .inl (List.mem_append_left _ hf)
    | low => exact .inl hf
  | pushLow =>
    cases lane with
    | high => exact .inl hf
    | low =>
      have hsplit := Deque.evictBack_append_evictedBack cfg.low_pos l.low
      have hmem : f ∈ l.low := hf
      rw [← hsplit] at hmem
      rcases List.mem_append.mp hmem with hmem | hmem
      · exact .inl (List.mem_cons_of_mem _ hmem)
      · exact .inr (.inr (.inl (List.mem_append_left _ (List.mem_map_of_mem hmem))))
  | fanHigh =>
    cases lane with
    | high =>
      have hsplit := Deque.evictedFront_append_evictFront cfg.high_pos l.high
      have hmem : f ∈ l.high := hf
      rw [← hsplit] at hmem
      rcases List.mem_append.mp hmem with hmem | hmem
      · exact .inr (.inr (.inl (List.mem_append_left _ (List.mem_map_of_mem hmem))))
      · exact .inl (List.mem_append_left _ hmem)
    | low => exact .inl hf
  | popHigh =>
    cases lane with
    | high =>
      rcases List.mem_cons.mp hf with rfl | hf
      · exact .inr (.inl (List.mem_singleton_self _))
      · exact .inl hf
    | low => exact .inl hf
  | popLow =>
    cases lane with
    | high => exact .inl hf
    | low =>
      rcases List.mem_cons.mp hf with rfl | hf
      · exact .inr (.inl (List.mem_singleton_self _))
      · exact .inl hf
  | prune hp => exact .inr (.inr (.inr ⟨_, List.mem_singleton_self _, hp⟩))

/-! ### Evictions -/

/-- A high frame is evicted only from a high lane at capacity: one frame, the first. -/
theorem LaneStep.evicts_high (h : LaneStep cfg owner l es l') (hl : LaneWf cfg l) :
    evicts owner .high es = [] ∨
      l.high.length = cfg.highLaneCapacity ∧ evicts owner .high es = l.high.head?.toList := by
  cases h with
  | keep hes => exact .inl (reads_of_not_concerns .high hes).2.2.1
  | fanHigh =>
    simp only [evicts_append, evicts_map_evict, if_true, Deque.evictedFront_eq cfg.high_pos hl.high_le]
    by_cases hfull : l.high.length = cfg.highLaneCapacity
    · exact .inr ⟨hfull, by simp [evicts, hfull]⟩
    · exact .inl (by simp [evicts, hfull])
  | pushLow => exact .inl (by simp [evicts])
  | _ => exact .inl rfl

/-- A low frame is evicted only from a low lane at capacity: one frame, the last. -/
theorem LaneStep.evicts_low (h : LaneStep cfg owner l es l') (hl : LaneWf cfg l) :
    evicts owner .low es = [] ∨
      l.low.length = cfg.lowLaneCapacity ∧ evicts owner .low es = l.low.getLast?.toList := by
  cases h with
  | keep hes => exact .inl (reads_of_not_concerns .low hes).2.2.1
  | pushLow =>
    simp only [evicts_append, evicts_map_evict, if_true, Deque.evictedBack_eq cfg.low_pos hl.low_le]
    by_cases hfull : l.low.length = cfg.lowLaneCapacity
    · exact .inr ⟨hfull, by simp [evicts, hfull]⟩
    · exact .inl (by simp [evicts, hfull])
  | fanHigh => exact .inl (by simp [evicts])
  | _ => exact .inl rfl

/-! ### The ledger -/

/-- Events that do not drop the owner's entry are added to the history since it was. -/
theorem sincePrune_append (tr : List (Event Addr)) (h : ∀ e ∈ es, e.prunes owner = false) :
    sincePrune owner (tr ++ es) = sincePrune owner tr ++ es := by
  induction es using List.reverseRecOn with
  | nil => simp
  | append_singleton es e ih =>
    have he : e.prunes owner = false := h e (by simp)
    rw [← List.append_assoc, sincePrune, List.rtakeWhile_concat_pos _ _ _ (by simp [he]), ← List.append_assoc]
    congr 1
    exact ih fun x hx => h x (List.mem_append_left _ hx)

/-- Right after the owner's entry is dropped there is no history. -/
theorem sincePrune_concat_prune (tr : List (Event Addr)) {e : Event Addr} (h : e.prunes owner = true) :
    sincePrune owner (tr ++ [e]) = [] :=
  List.rtakeWhile_concat_neg _ _ _ (by simp [h])

/-- **The ledger** of a pair of lanes, since its owner's entry was last pruned. -/
structure Ledger (owner : Option Addr) (tr : List (Event Addr)) (l : PeerLanes Addr) : Prop where
  /-- What left the high lane, then what is in it, is what was put in it, in order. -/
  high : removed owner .high (sincePrune owner tr) ++ l.high = pushes owner .high (sincePrune owner tr)
  /-- What was put in the low lane was popped, or evicted, or is still in it. -/
  low : (pushes owner .low (sincePrune owner tr) : Multiset (PendingFrame Addr)) =
    pops owner .low (sincePrune owner tr) + evicts owner .low (sincePrune owner tr) + l.low
  /-- The low lane is in the reverse of the order in which its frames were put in it. -/
  lifo : l.low.Sublist (pushes owner .low (sincePrune owner tr)).reverse

theorem Ledger.empty : Ledger owner [] ({} : PeerLanes Addr) := ⟨rfl, rfl, List.Sublist.slnil⟩

/-- **The balance of a step** that does not drop the entry: what is in the lanes before it,
with what it puts there, is what leaves and what is in them after it. -/
structure Balance (owner : Option Addr) (l : PeerLanes Addr) (es : List (Event Addr)) (l' : PeerLanes Addr) :
    Prop where
  /-- The entry is not dropped. -/
  prunes : ∀ e ∈ es, e.prunes owner = false
  /-- Of the high lane, in order. -/
  high : l.high ++ pushes owner .high es = removed owner .high es ++ l'.high
  /-- Of the low lane, counted. -/
  low : (l.low : Multiset (PendingFrame Addr)) + pushes owner .low es =
    pops owner .low es + evicts owner .low es + l'.low
  /-- The low lane grows at the front. -/
  lifo : l'.low.Sublist ((pushes owner .low es).reverse ++ l.low)

/-- A balanced step keeps the ledger. -/
theorem Ledger.balance {tr : List (Event Addr)} (hl : Ledger owner tr l) (hb : Balance owner l es l') :
    Ledger owner (tr ++ es) l' := by
  obtain ⟨hh, hlo, hli⟩ := hl
  refine ⟨?_, ?_, ?_⟩ <;> rw [sincePrune_append tr hb.prunes]
  · rw [removed_append, pushes_append, ← hh, List.append_assoc, ← hb.high, List.append_assoc]
  · rw [pushes_append, pops_append, evicts_append, ← Multiset.coe_add, ← Multiset.coe_add, ← Multiset.coe_add, hlo,
      add_assoc, hb.low]
    abel
  · rw [pushes_append, List.reverse_append]
    exact hb.lifo.trans (List.Sublist.append_left hli _)

/-- A push onto a high lane that makes room at the front is balanced. -/
theorem Balance.puts_high {f : PendingFrame Addr} {gone kept : List (PendingFrame Addr)}
    (hes : Puts owner .high f gone es) (hl : gone ++ kept = l.high) :
    Balance owner l es { l with high := kept ++ [f] } where
  prunes := hes.prunes
  high := by
    rw [hes.pushes, hes.removed, if_pos rfl, if_pos rfl, ← hl, List.append_assoc]
  low := by
    rw [hes.pushes, hes.pops, hes.evicts, if_neg Lane.noConfusion, if_neg Lane.noConfusion]
    simp
  lifo := by
    rw [hes.pushes, if_neg Lane.noConfusion]
    exact List.Sublist.refl _

/-- A push onto a low lane that makes room at the back is balanced. -/
theorem Balance.puts_low {f : PendingFrame Addr} {gone kept : List (PendingFrame Addr)}
    (hes : Puts owner .low f gone es) (hl : kept ++ gone = l.low) :
    Balance owner l es { l with low := f :: kept } where
  prunes := hes.prunes
  high := by
    rw [hes.pushes, hes.removed, if_neg Lane.noConfusion, if_neg Lane.noConfusion, List.append_nil, List.nil_append]
  low := by
    have hcons : ((f :: kept : List (PendingFrame Addr)) : Multiset (PendingFrame Addr)) = {f} + kept := by
      rw [← Multiset.cons_coe, Multiset.singleton_add]
    rw [hes.pushes, hes.pops, hes.evicts, if_pos rfl, if_pos rfl, ← hl, ← Multiset.coe_add, hcons,
      Multiset.coe_singleton, Multiset.coe_nil]
    abel
  lifo := by
    rw [hes.pushes, if_pos rfl, ← hl]
    exact (List.sublist_append_left kept gone).cons_cons f

/-- A pop is balanced. -/
theorem Balance.pop {k : Lane} {f : PendingFrame Addr} (hhigh : l.high = (if k = .high then [f] else []) ++ l'.high)
    (hlow : l.low = (if k = .low then [f] else []) ++ l'.low) : Balance owner l [.pop owner k f] l' where
  prunes e he := by
    rw [List.mem_singleton.mp he]
    rfl
  high := by
    rw [hhigh]
    cases k <;> simp [pushes, removed]
  low := by
    rw [hlow]
    cases k <;> simp [pushes, pops, evicts]
  lifo := by
    rw [hlow]
    exact List.sublist_append_right _ _

/-- A step is balanced, or drops the entry. -/
theorem LaneStep.balance_or_prune (h : LaneStep cfg owner l es l') :
    Balance owner l es l' ∨ ∃ e, es = [e] ∧ e.prunes owner = true ∧ l' = {} := by
  cases h with
  | keep hes =>
    obtain ⟨h1, -, -, h4⟩ := reads_of_not_concerns .high hes
    obtain ⟨g1, g2, g3, -⟩ := reads_of_not_concerns .low hes
    refine .inl ⟨not_prunes_of_not_concerns hes, ?_, ?_, ?_⟩
    · rw [h1, h4, List.append_nil, List.nil_append]
    · rw [g1, g2, g3]
      simp
    · rw [g1]
      exact List.Sublist.refl _
  | @pushHigh _ f _ => exact .inl (.puts_high (Puts.evict_push owner .high f []) rfl)
  | @pushLow _ f =>
    exact .inl (.puts_low (Puts.evict_push owner .low f _) (Deque.evictBack_append_evictedBack cfg.low_pos l.low))
  | @fanHigh _ f =>
    exact .inl (.puts_high (Puts.evict_push owner .high f _)
      (Deque.evictedFront_append_evictFront cfg.high_pos l.high))
  | popHigh => exact .inl (.pop rfl rfl)
  | popLow => exact .inl (.pop rfl rfl)
  | prune hp => exact .inr ⟨_, rfl, hp, rfl⟩

/-- **A step keeps the ledger.** -/
theorem Ledger.step {tr : List (Event Addr)} (h : LaneStep cfg owner l es l') (hl : Ledger owner tr l) :
    Ledger owner (tr ++ es) l' := by
  rcases LaneStep.balance_or_prune h with hb | ⟨e, rfl, hp, rfl⟩
  · exact hl.balance hb
  · -- the entry is dropped, and the ledger starts afresh
    refine ⟨?_, ?_, ?_⟩ <;> rw [sincePrune_concat_prune tr hp]
    · rfl
    · rfl
    · exact List.Sublist.slnil

/-- The first frame of a high lane was put in before every other frame in it. -/
theorem Ledger.head_oldest {tr : List (Event Addr)} (h : Ledger owner tr l) {f : PendingFrame Addr}
    (hf : l.high.head? = some f) :
    ∀ g ∈ l.high.tail, [f, g].Sublist (pushes owner .high (sincePrune owner tr)) := by
  intro g hg
  obtain ⟨high, hh⟩ := List.head?_eq_some_iff.mp hf
  rw [← h.high, hh]
  rw [hh, List.tail_cons] at hg
  exact ((List.singleton_sublist.mpr hg).cons_cons f).trans (List.sublist_append_right _ _)

/-- The last frame of a low lane was put in before every other frame in it. -/
theorem Ledger.last_oldest {tr : List (Event Addr)} (h : Ledger owner tr l) {f : PendingFrame Addr}
    (hf : l.low.getLast? = some f) :
    ∀ g ∈ l.low.dropLast, [f, g].Sublist (pushes owner .low (sincePrune owner tr)) := by
  intro g hg
  obtain ⟨low, hlow⟩ := List.getLast?_eq_some_iff.mp hf
  have hli := h.lifo.reverse
  rw [hlow, List.dropLast_concat] at hg
  rw [hlow, List.reverse_append, List.reverse_reverse] at hli
  refine List.Sublist.trans ?_ hli
  exact (List.singleton_sublist.mpr (List.mem_reverse.mpr hg)).cons_cons f

/-! ### Runs of steps -/

/-- What any number of steps do to the lanes of an owner. -/
def LaneRun (cfg : ShaperConfig) (owner : Option Addr) (l : PeerLanes Addr) (es : List (Event Addr))
    (l' : PeerLanes Addr) : Prop :=
  ∃ ks : List Unit, Run (fun l (_ : Unit) es l' => LaneStep cfg owner l es l') l ks es l'

theorem LaneRun.of_step (h : LaneStep cfg owner l es l') : LaneRun cfg owner l es l' := ⟨[()], .single h⟩

theorem LaneRun.keep (h : ∀ e ∈ es, e.concerns owner = false) : LaneRun cfg owner l es l :=
  .of_step (.keep h)

theorem LaneRun.trans {es' : List (Event Addr)} {l'' : PeerLanes Addr} (h : LaneRun cfg owner l es l')
    (h' : LaneRun cfg owner l' es' l'') : LaneRun cfg owner l (es ++ es') l'' := by
  obtain ⟨ks, h⟩ := h
  obtain ⟨ks', h'⟩ := h'
  exact ⟨ks ++ ks', h.trans h'⟩

theorem LaneRun.mem_or_push (h : LaneRun cfg owner l es l') {f : PendingFrame Addr}
    (hf : f ∈ l'.lane lane) : f ∈ l.lane lane ∨ Event.push owner lane f ∈ es := by
  obtain ⟨ks, h⟩ := h
  refine h.invariant (I := fun es l' => f ∈ l'.lane lane → f ∈ l.lane lane ∨ Event.push owner lane f ∈ es)
    .inl ?_ hf
  intro es l' _ es' l'' ih hstep hf
  rcases LaneStep.mem_or_push hstep hf with hf | hf
  · exact (ih hf).imp_right fun h => List.mem_append_left _ h
  · exact .inr (List.mem_append_right _ hf)

theorem LaneRun.mem_or_removed (h : LaneRun cfg owner l es l') {f : PendingFrame Addr}
    (hf : f ∈ l.lane lane) : f ∈ l'.lane lane ∨ Event.pop owner lane f ∈ es ∨ Event.evict owner lane f ∈ es ∨
      ∃ e ∈ es, e.prunes owner = true := by
  obtain ⟨ks, h⟩ := h
  refine h.invariant (I := fun es l' => f ∈ l'.lane lane ∨ Event.pop owner lane f ∈ es ∨
    Event.evict owner lane f ∈ es ∨ ∃ e ∈ es, e.prunes owner = true) (.inl hf) ?_
  rintro es l' _ es' l'' (hin | hpop | hevict | ⟨e, he, hp⟩) hstep
  · rcases LaneStep.mem_or_removed hstep hin with h | h | h | ⟨e, he, hp⟩
    · exact .inl h
    · exact .inr (.inl (List.mem_append_right _ h))
    · exact .inr (.inr (.inl (List.mem_append_right _ h)))
    · exact .inr (.inr (.inr ⟨e, List.mem_append_right _ he, hp⟩))
  · exact .inr (.inl (List.mem_append_left _ hpop))
  · exact .inr (.inr (.inl (List.mem_append_left _ hevict)))
  · exact .inr (.inr (.inr ⟨e, List.mem_append_left _ he, hp⟩))

/-- A run of steps keeps the ledger. -/
theorem Ledger.run {tr : List (Event Addr)} (hl : Ledger owner tr l) (h : LaneRun cfg owner l es l') :
    Ledger owner (tr ++ es) l' := by
  obtain ⟨ks, h⟩ := h
  exact h.invariant_after hl fun hl' hstep => hl'.step hstep

theorem laneRun_fanOutTo (call : ℕ) (lane : Lane) (frame : Bytes) (owner : Option Addr) :
    ∀ (peers : List Addr) (s : Shaper Addr),
      LaneRun cfg owner (s.lanesAt owner) (fanOutToEvents cfg call lane frame peers s)
        ((fanOutTo cfg call peers lane frame s).lanesAt owner)
  | [], _ => ⟨[], .nil⟩
  | peer :: peers, s =>
    (LaneRun.of_step (laneStep_fanPush cfg call lane frame s peer owner)).trans
      (laneRun_fanOutTo call lane frame owner peers _)

theorem laneRun_enqueueRaw (call : ℕ) (lane : Lane) (target : Target Addr) (frame : Bytes) (s : Shaper Addr)
    (owner : Option Addr) :
    LaneRun cfg owner (s.lanesAt owner) (enqueueRawEvents cfg call lane target frame s)
      ((enqueueRaw cfg call lane target frame s).2.lanesAt owner) := by
  have haccepted : LaneRun cfg owner (s.lanesAt owner) [.accepted call lane target frame] (s.lanesAt owner) :=
    .keep (by simp [Event.concerns])
  rcases enqueueRaw_cases cfg call lane target frame s with
    ⟨e, s', hr, hes, hs', -⟩ | ⟨-, -, -, hr, hes⟩ | ⟨-, -, p, -, -, hr, hes⟩ | ⟨-, -, -, hr, hes⟩ <;> rw [hr, hes]
  · rw [hs']
    exact .keep (by simp [Event.concerns])
  · exact haccepted.trans (.of_step (laneStep_pushGlobal cfg lane _ s owner))
  · exact haccepted.trans (.of_step (laneStep_pushPeer cfg call p lane frame s owner))
  · exact haccepted.trans (laneRun_fanOutTo call lane frame owner _ s)

end Peashape.Shaping

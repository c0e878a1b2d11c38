import Mathlib.Data.Finset.Card
import Peashape.Shaping.TickShape

/-!
# Which peers `pick_targets` picks

"The selection proceeds in two phases": peers not sent to last tick first, and the others
only when these run out. This module proves how many of each kind a call returns and in
which order, for every list of peers, fanout, memory, cursor and sequence of offsets
(`pickLoop_phases`, `pickTargets_phases`), and what follows for two calls in a row: the
first call is what the second remembers, so the second goes first to the peers the first
left out (`card_two_calls`, `mem_two_calls`).

The loop of `Scheduler.pickTargets` works on positions that carry their bound. The same
loop on bare indices, where an index may be out of range, is `pickTargetsIndexed`; that it
computes the same, and so never panics, is `pickTargetsIndexed_eq`.
-/

namespace Peashape.Shaping

open Foundation Scheduler

variable {Addr : Type*} {w : ℕ}

/-! ### The two phases -/

section Phases

variable {peers : List Addr}

/-- The peers in the pool of the fresh ones. -/
def freshPool (st : Picking peers w) : List Addr := st.fresh.map peers.get

/-- The peers in the pool of the recently used ones. -/
def usedPool (st : Picking peers w) : List Addr := st.used.map peers.get

/-- A round takes a peer from the fresh pool, or, when that is empty, from the used one. -/
theorem pickStep_cases {st st' : Picking peers w} (h : pickStep st = some st') :
    ∃ p, st'.chosen = st.chosen ++ [p] ∧
      ((p :: freshPool st').Perm (freshPool st) ∧ usedPool st' = usedPool st ∨
        freshPool st = [] ∧ freshPool st' = [] ∧ (p :: usedPool st').Perm (usedPool st)) := by
  obtain ⟨fresh, used, chosen, cursor, rng⟩ := st
  cases fresh with
  | cons a fresh =>
    simp only [pickStep, Option.some.injEq] at h
    subst h
    exact ⟨_, rfl, .inl ⟨(drawFrom_perm cursor rng a fresh).map peers.get, rfl⟩⟩
  | nil =>
    cases used with
    | cons a used =>
      simp only [pickStep, Option.some.injEq] at h
      subst h
      exact ⟨_, rfl, .inr ⟨rfl, rfl, (drawFrom_perm cursor rng a used).map peers.get⟩⟩
    | nil => simp [pickStep] at h

/-- **The two phases of the loop**: it chooses some peers from the fresh pool, as many as
there are rounds and peers in it, and after them some from the used pool. -/
theorem pickLoop_phases : ∀ (k : ℕ) (st : Picking peers w), ∃ xs ys,
    (pickLoop k st).chosen = st.chosen ++ (xs ++ ys) ∧
    (xs ++ freshPool (pickLoop k st)).Perm (freshPool st) ∧
    (ys ++ usedPool (pickLoop k st)).Perm (usedPool st) ∧
    xs.length = min k (freshPool st).length := by
  intro k
  induction k with
  | zero => exact fun st => ⟨[], [], (List.append_nil _).symm, .refl _, .refl _, by simp⟩
  | succ k ih =>
    intro st
    cases hs : pickStep st with
    | none =>
      -- both pools are empty
      have hempty : freshPool st ++ usedPool st = [] := by
        rw [freshPool, usedPool, ← List.map_append]
        exact pickStep_eq_none hs
      have hfresh : freshPool st = [] := (List.append_eq_nil_iff.mp hempty).1
      have hloop : pickLoop (k + 1) st = st := by simp only [pickLoop, hs]
      rw [hloop]
      exact ⟨[], [], (List.append_nil _).symm, .refl _, .refl _, by simp [hfresh]⟩
    | some st' =>
      obtain ⟨xs, ys, hchosen, hxs, hys, hlen⟩ := ih st'
      obtain ⟨p, hp, ⟨hfresh, hused⟩ | ⟨hnil, hnil', hused⟩⟩ := pickStep_cases hs
      · -- a fresh peer
        have hl := hfresh.length_eq
        rw [List.length_cons] at hl
        simp only [pickLoop, hs]
        refine ⟨p :: xs, ys, ?_, (hxs.cons p).trans hfresh, hused ▸ hys, ?_⟩
        · rw [hchosen, hp, List.append_assoc, List.singleton_append, List.cons_append]
        · rw [List.length_cons, hlen, ← hl]
          omega
      · -- a recently used one: no fresh peer was left, and none comes back
        rw [hnil', List.length_nil, Nat.min_zero] at hlen
        obtain rfl := List.eq_nil_of_length_eq_zero hlen
        simp only [pickLoop, hs]
        refine ⟨[], p :: ys, ?_, ?_, (hys.cons p).trans hused, by simp [hnil]⟩
        · rw [hchosen, hp, List.append_assoc, List.nil_append, List.nil_append, List.singleton_append]
        · rw [hnil]
          rwa [hnil'] at hxs

variable [DecidableEq Addr] (peers)

omit [DecidableEq Addr] in
/-- The peers at the positions chosen by what the peer is. -/
theorem map_get_filter_finRange (q : Addr → Bool) :
    ((List.finRange peers.length).filter fun i => q (peers.get i)).map peers.get = peers.filter q := by
  have h := List.filter_map (f := peers.get) (p := q) (l := List.finRange peers.length)
  rw [List.map_get_finRange] at h
  exact h.symm

/-- The loop starts with the peers not remembered in the fresh pool. -/
theorem freshPool_pickStart (sch : Scheduler Addr w) :
    freshPool (pickStart peers sch) = peers.filter (· ∉ sch.lastPeers) := by
  rw [← map_get_filter_finRange]
  simp only [freshPool, pickStart, List.partition_eq_filter_filter]
  congr 1
  apply List.filter_congr
  simp

/-- And with those remembered in the used one. -/
theorem usedPool_pickStart (sch : Scheduler Addr w) :
    usedPool (pickStart peers sch) = peers.filter (· ∈ sch.lastPeers) := by
  rw [← map_get_filter_finRange]
  simp only [usedPool, pickStart, List.partition_eq_filter_filter]

/-- **The two phases of `pick_targets`**: fresh peers, as many as there are up to the
fanout, and after them recently used ones. -/
theorem pickTargets_phases (fanout : ℕ) (sch : Scheduler Addr w) :
    ∃ xs ys, (sch.pickTargets peers fanout).1 = xs ++ ys ∧ (∀ p ∈ xs, p ∉ sch.lastPeers) ∧
      (∀ p ∈ ys, p ∈ sch.lastPeers) ∧
      xs.length = min fanout (peers.filter (· ∉ sch.lastPeers)).length := by
  unfold pickTargets
  split_ifs with h
  · obtain rfl := List.eq_nil_of_length_eq_zero h
    exact ⟨[], [], rfl, List.forall_mem_nil _, List.forall_mem_nil _, by simp⟩
  · obtain ⟨xs, ys, hchosen, hxs, hys, hlen⟩ :=
      pickLoop_phases (min fanout peers.length) (pickStart peers sch)
    rw [freshPool_pickStart] at hxs hlen
    rw [usedPool_pickStart] at hys
    refine ⟨xs, ys, ?_, ?_, ?_, ?_⟩
    · simpa [pickStart] using hchosen
    · intro p hp
      have hmem := hxs.mem_iff.mp (List.mem_append_left _ hp)
      simpa using (List.mem_filter.mp hmem).2
    · intro p hp
      have hmem := hys.mem_iff.mp (List.mem_append_left _ hp)
      simpa using (List.mem_filter.mp hmem).2
    · have hle := List.length_filter_le (fun p => decide (p ∉ sch.lastPeers)) peers
      rw [hlen]
      omega

/-- What is remembered of a call is what it returned. -/
theorem lastPeers_pickTargets {peers : List Addr} (hne : peers ≠ []) (fanout : ℕ) (sch : Scheduler Addr w) :
    (sch.pickTargets peers fanout).2.lastPeers = (sch.pickTargets peers fanout).1 := by
  have h : peers.length ≠ 0 := by simpa using hne
  simp only [pickTargets, if_neg h]

end Phases

/-! ### Two calls in a row -/

section TwoCalls

variable [DecidableEq Addr] {peers : List Addr}

/-- The peers a call leaves out. -/
theorem length_filter_not_mem_pickTargets (hnd : peers.Nodup) (fanout : ℕ) (sch : Scheduler Addr w) :
    (peers.filter (· ∉ (sch.pickTargets peers fanout).1)).length = peers.length - min fanout peers.length := by
  obtain ⟨rest, hrest⟩ := pickTargets_perm peers fanout sch
  have hdisj := List.nodup_append'.mp (hrest.nodup_iff.mpr hnd)
  have hfilter := (hrest.filter (· ∉ (sch.pickTargets peers fanout).1)).length_eq
  have hpicked : (sch.pickTargets peers fanout).1.filter (· ∉ (sch.pickTargets peers fanout).1) = [] := by
    apply List.filter_eq_nil_iff.mpr
    simp
  have hkept : rest.filter (· ∉ (sch.pickTargets peers fanout).1) = rest := by
    apply List.filter_eq_self.mpr
    intro p hp
    simpa using fun h => hdisj.2.2 h hp
  have hlen := hrest.length_eq
  rw [List.length_append, length_pickTargets] at hlen
  rw [← hfilter, List.filter_append, hpicked, hkept, List.nil_append]
  omega

/-- **Two calls in a row** with the same peers and fanout pick, together, twice as many
peers as one of them, or all. -/
theorem card_two_calls (hnd : peers.Nodup) (fanout : ℕ) (sch : Scheduler Addr w) :
    ((sch.pickTargets peers fanout).1.toFinset ∪
      ((sch.pickTargets peers fanout).2.pickTargets peers fanout).1.toFinset).card =
      min peers.length (2 * min fanout peers.length) := by
  rcases eq_or_ne peers [] with rfl | hne
  · simp [pickTargets]
  obtain ⟨xs, ys, hpick, hxs, hys, hlen⟩ := pickTargets_phases peers fanout (sch.pickTargets peers fanout).2
  rw [lastPeers_pickTargets hne] at hxs hys hlen
  rw [length_filter_not_mem_pickTargets hnd] at hlen
  have hnd₁ := nodup_pickTargets hnd fanout sch
  have hnd₂ := nodup_pickTargets hnd fanout (sch.pickTargets peers fanout).2
  have hlen₁ := length_pickTargets peers fanout sch
  rw [hpick] at hnd₂ ⊢
  have hunion : (sch.pickTargets peers fanout).1.toFinset ∪ (xs ++ ys).toFinset =
      ((sch.pickTargets peers fanout).1 ++ xs).toFinset := by
    -- what the second call takes from the used pool, the first one returned
    ext p
    simp only [Finset.mem_union, List.mem_toFinset, List.mem_append]
    constructor
    · rintro (h | h | h)
      · exact .inl h
      · exact .inr h
      · exact .inl (hys p h)
    · rintro (h | h)
      · exact .inl h
      · exact .inr (.inl h)
  have hdisj : ((sch.pickTargets peers fanout).1 ++ xs).Nodup :=
    List.nodup_append'.mpr ⟨hnd₁, (List.nodup_append'.mp hnd₂).1, fun p h h' => hxs p h' h⟩
  rw [hunion, List.toFinset_card_of_nodup hdisj, List.length_append, hlen₁, hlen]
  omega

/-- So with a fanout of half the peers or more, two calls in a row leave nobody out. -/
theorem mem_two_calls (hnd : peers.Nodup) {fanout : ℕ} (hfan : peers.length ≤ 2 * fanout)
    (sch : Scheduler Addr w) {p : Addr} (hp : p ∈ peers) :
    p ∈ (sch.pickTargets peers fanout).1 ∨
      p ∈ ((sch.pickTargets peers fanout).2.pickTargets peers fanout).1 := by
  have hsub : (sch.pickTargets peers fanout).1.toFinset ∪
      ((sch.pickTargets peers fanout).2.pickTargets peers fanout).1.toFinset ⊆ peers.toFinset := by
    intro q hq
    simp only [Finset.mem_union, List.mem_toFinset] at hq ⊢
    exact hq.elim mem_of_mem_pickTargets mem_of_mem_pickTargets
  have hcard : peers.toFinset.card ≤ ((sch.pickTargets peers fanout).1.toFinset ∪
      ((sch.pickTargets peers fanout).2.pickTargets peers fanout).1.toFinset).card := by
    rw [card_two_calls hnd, List.toFinset_card_of_nodup hnd]
    omega
  have hall := Finset.eq_of_subset_of_card_le hsub hcard
  have hmem : p ∈ peers.toFinset := List.mem_toFinset.mpr hp
  rw [← hall] at hmem
  simpa using hmem

end TwoCalls

/-! ### Indices -/

section Indices

/-- `rng.random_range(0..n)`, which panics on an empty range. -/
def randomRangeNonempty (n : ℕ) (rng : Stream' ℕ) : Option (ℕ × Stream' ℕ) :=
  if n = 0 then none else some (randomRange n rng)

/-- `pool.remove(i)`, which panics on an index out of range. -/
def poolRemove (pool : List ℕ) (i : ℕ) : Option (ℕ × List ℕ) :=
  match pool[i]? with
  | none => none
  | some x => some (x, pool.eraseIdx i)

/-- The local variables of the loop, over bare indices. -/
structure Indexing (Addr : Type*) (w : ℕ) where
  /-- Positions not sent to last tick. -/
  fresh : List ℕ
  /-- Positions sent to last tick. -/
  used : List ℕ
  /-- The peers chosen so far. -/
  chosen : List Addr
  /-- The cursor. -/
  cursor : BitVec w
  /-- The random numbers left. -/
  rng : Stream' ℕ

/-- Draw from the pool and look up the peer at the position removed: the peer, what is left
of the pool, and of the random numbers. -/
def drawIndexed (peers : List Addr) (cursor : BitVec w) (rng : Stream' ℕ) (pool : List ℕ) :
    Option (Addr × List ℕ × Stream' ℕ) :=
  match randomRangeNonempty pool.length rng with
  | none => none
  | some (offset, rng) =>
    match poolRemove pool (cursorSum cursor offset % pool.length) with
    | none => none
    | some (i, pool) =>
      match peers[i]? with
      | none => none
      | some p => some (p, pool, rng)

/-- The loop, for at most the given number of rounds. -/
def pickLoopIndexed (peers : List Addr) : ℕ → Indexing Addr w → Option (Indexing Addr w)
  | 0, st => some st
  | k + 1, st =>
    if st.fresh ≠ [] then
      match drawIndexed peers st.cursor st.rng st.fresh with
      | none => none
      | some (p, fresh, rng) =>
        pickLoopIndexed peers k ⟨fresh, st.used, st.chosen ++ [p], st.cursor + 1, rng⟩
    else if st.used ≠ [] then
      match drawIndexed peers st.cursor st.rng st.used with
      | none => none
      | some (p, used, rng) =>
        pickLoopIndexed peers k ⟨st.fresh, used, st.chosen ++ [p], st.cursor + 1, rng⟩
    else some st

variable [DecidableEq Addr]

/-- `pick_targets` over bare indices: `none` when a range is empty or an index is out of
range. -/
def pickTargetsIndexed (peers : List Addr) (fanout : ℕ) (sch : Scheduler Addr w) :
    Option (List Addr × Scheduler Addr w) :=
  if peers.length = 0 then some ([], sch)
  else
    let (used, fresh) := peers.zipIdx.partition fun x => decide (x.1 ∈ sch.lastPeers)
    (pickLoopIndexed peers (min fanout peers.length)
      ⟨fresh.map Prod.snd, used.map Prod.snd, [], sch.cursor, sch.rng⟩).map
      fun st => (st.chosen, ⟨st.cursor, st.chosen, st.rng⟩)

omit [DecidableEq Addr]

/-- The variables of a loop, its positions without their bounds. -/
def indices {peers : List Addr} (st : Picking peers w) : Indexing Addr w :=
  ⟨st.fresh.map Fin.val, st.used.map Fin.val, st.chosen, st.cursor, st.rng⟩

/-- A draw from a nonempty pool of positions does not panic. -/
theorem drawIndexed_eq {peers : List Addr} (cursor : BitVec w) (rng : Stream' ℕ) (a : Fin peers.length)
    (pool : List (Fin peers.length)) :
    drawIndexed peers cursor rng ((a :: pool).map Fin.val) =
      some (peers.get (drawFrom cursor rng a pool).1, (drawFrom cursor rng a pool).2.1.map Fin.val,
        (drawFrom cursor rng a pool).2.2) := by
  have hlen : ((a :: pool).map Fin.val).length = pool.length + 1 := by simp
  have hlt : cursorSum cursor (rng.head % (pool.length + 1)) % (pool.length + 1) < (a :: pool).length :=
    Nat.mod_lt _ (Nat.succ_pos _)
  have hrange : randomRangeNonempty (pool.length + 1) rng = some (rng.head % (pool.length + 1), rng.tail) :=
    if_neg (Nat.succ_ne_zero _)
  have hremove : poolRemove ((a :: pool).map Fin.val)
      (cursorSum cursor (rng.head % (pool.length + 1)) % (pool.length + 1)) =
      some ((drawFrom cursor rng a pool).1.val, (drawFrom cursor rng a pool).2.1.map Fin.val) := by
    simp only [poolRemove, List.getElem?_map, List.getElem?_eq_getElem hlt, Option.map_some,
      List.eraseIdx_map]
    rfl
  have hpeer : peers[(drawFrom cursor rng a pool).1.val]? = some (peers.get (drawFrom cursor rng a pool).1) :=
    List.getElem?_eq_getElem _
  simp only [drawIndexed, hlen, hrange, hremove, hpeer]
  rfl

/-- Nor does the loop. -/
theorem pickLoopIndexed_eq {peers : List Addr} : ∀ (k : ℕ) (st : Picking peers w),
    pickLoopIndexed peers k (indices st) = some (indices (pickLoop k st)) := by
  intro k
  induction k with
  | zero => exact fun _ => rfl
  | succ k ih =>
    rintro ⟨_ | ⟨a, fresh⟩, used, chosen, cursor, rng⟩
    · cases used with
      | nil => rfl
      | cons a used =>
        have hdraw := drawIndexed_eq cursor rng a used
        simp only [pickLoopIndexed, indices, hdraw]
        rw [if_neg (by simp), if_pos (by simp)]
        exact ih ⟨[], (drawFrom cursor rng a used).2.1, chosen ++ [peers.get (drawFrom cursor rng a used).1],
          cursor + 1, (drawFrom cursor rng a used).2.2⟩
    · have hdraw := drawIndexed_eq cursor rng a fresh
      simp only [pickLoopIndexed, indices, hdraw]
      rw [if_pos (by simp)]
      exact ih ⟨(drawFrom cursor rng a fresh).2.1, used, chosen ++ [peers.get (drawFrom cursor rng a fresh).1],
        cursor + 1, (drawFrom cursor rng a fresh).2.2⟩

/-- Numbering the peers is listing their positions. -/
theorem zipIdx_eq_map_finRange (peers : List Addr) :
    peers.zipIdx = (List.finRange peers.length).map fun i => (peers.get i, i.val) := by
  apply List.ext_getElem
  · simp
  · intro i _ _
    simp

variable [DecidableEq Addr]

/-- **No index of `pick_targets` is out of range**: over bare indices it computes the same. -/
theorem pickTargetsIndexed_eq (peers : List Addr) (fanout : ℕ) (sch : Scheduler Addr w) :
    pickTargetsIndexed peers fanout sch = some (sch.pickTargets peers fanout) := by
  unfold pickTargetsIndexed pickTargets
  split_ifs with h
  · rfl
  · have hstart : (⟨(peers.zipIdx.partition fun x => decide (x.1 ∈ sch.lastPeers)).2.map Prod.snd,
        (peers.zipIdx.partition fun x => decide (x.1 ∈ sch.lastPeers)).1.map Prod.snd, [], sch.cursor, sch.rng⟩ :
        Indexing Addr w) = indices (pickStart peers sch) := by
      simp only [indices, pickStart, zipIdx_eq_map_finRange, List.partition_eq_filter_filter, List.filter_map,
        List.map_map]
      rfl
    have hloop := pickLoopIndexed_eq (min fanout peers.length) (pickStart peers sch)
    rw [← hstart] at hloop
    exact congrArg (Option.map _) hloop

end Indices

/-! ### The selection -/

section Selection

variable [DecidableEq Addr] {peers : List Addr}

/-- **Peer selection.** For every list of distinct peers, fanout, memory, cursor and offsets:
no index is out of range; as many peers are picked as the fanout says, or all, distinct, from
the list; the fresh ones come first, as many as there are up to the fanout; the call is
remembered. Two calls in a row pick together twice as many, or all, so with a fanout of half
the peers or more they leave nobody out. -/
theorem pickTargets_selection (hnd : peers.Nodup) (fanout : ℕ) (sch : Scheduler Addr w) :
    let first := sch.pickTargets peers fanout
    let second := first.2.pickTargets peers fanout
    pickTargetsIndexed peers fanout sch = some first ∧
    first.1.length = min fanout peers.length ∧ first.1.Nodup ∧ (∀ p ∈ first.1, p ∈ peers) ∧
    (∃ xs ys, first.1 = xs ++ ys ∧ (∀ p ∈ xs, p ∉ sch.lastPeers) ∧ (∀ p ∈ ys, p ∈ sch.lastPeers) ∧
      xs.length = min fanout (peers.filter (· ∉ sch.lastPeers)).length) ∧
    (0 < peers.length → first.2.lastPeers = first.1) ∧
    (first.1.toFinset ∪ second.1.toFinset).card = min peers.length (2 * min fanout peers.length) ∧
    (peers.length ≤ 2 * fanout → ∀ p ∈ peers, p ∈ first.1 ∨ p ∈ second.1) := by
  intro first second
  refine ⟨pickTargetsIndexed_eq peers fanout sch, length_pickTargets peers fanout sch,
    nodup_pickTargets hnd fanout sch, fun p => mem_of_mem_pickTargets, pickTargets_phases peers fanout sch,
    ?_, card_two_calls hnd fanout sch, ?_⟩
  · intro hpos
    exact lastPeers_pickTargets (List.length_pos_iff.mp hpos) fanout sch
  · intro hfan p hp
    exact mem_two_calls hnd hfan sch hp

/-- Five peers, the first two of them remembered, and a fanout of three. -/
theorem pickTargets_selection_five :
    let sch : Scheduler ℕ 64 := ⟨7, [1, 2], Stream'.const 4⟩
    let first := sch.pickTargets [1, 2, 3, 4, 5] 3
    let second := first.2.pickTargets [1, 2, 3, 4, 5] 3
    pickTargetsIndexed [1, 2, 3, 4, 5] 3 sch = some first ∧ first.2.lastPeers = first.1 ∧
      ∀ p ∈ [1, 2, 3, 4, 5], p ∈ first.1 ∨ p ∈ second.1 := by
  intro sch first second
  obtain ⟨hindex, -, -, -, -, hlast, -, hall⟩ :=
    pickTargets_selection (show [1, 2, 3, 4, 5].Nodup by decide) 3 sch
  exact ⟨hindex, hlast (by decide), hall (by decide)⟩

end Selection

end Peashape.Shaping

import Peashape.Shaping.Draws

/-!
# The picks are unbiased

"Within each pool a cursor + per-pick random offset rotates the selection". The offset is
uniform in its pool, and the cursor only turns it: as long as their sum does not wrap, the
offsets of a call of `pick_targets` and the ordered selections it may return determine each
other, so all these selections are equally likely, wherever the cursor is. The same is true of
the offset of `pick_round_robin` and the peer it returns. See `picks_unbiased`.

The selections are of positions, since a peer might be listed twice.
-/

namespace Peashape.Shaping

open Foundation Scheduler

variable {Addr : Type*} [DecidableEq Addr] {w : ℕ}

/-- Fresh positions are taken first: before one of a remembered peer, all those of fresh ones. -/
def FreshFirst (peers lastPeers : List Addr) (ps : List (Fin peers.length)) : Prop :=
  ∀ xs i ys, ps = xs ++ i :: ys → peers.get i ∈ lastPeers → ∀ j, peers.get j ∉ lastPeers → j ∈ xs

/-- The ordered selections of `min fanout n` distinct positions that take fresh ones first. -/
def orderedSelections (peers : List Addr) (fanout : ℕ) (lastPeers : List Addr) : Set (List (Fin peers.length)) :=
  {ps | ps.length = min fanout peers.length ∧ ps.Nodup ∧ FreshFirst peers lastPeers ps}

/-- The offsets of a call of `pick_targets`: each is below the size of the pool it is for. -/
abbrev TargetOffsets (peers : List Addr) (fanout : ℕ) (sch : Scheduler Addr w) : Type :=
  Offsets (drawSizes peers fanout sch.lastPeers)

instance (peers : List Addr) (fanout : ℕ) (lastPeers : List Addr) :
    Nonempty (Offsets (drawSizes peers fanout lastPeers)) :=
  inferInstanceAs (Nonempty (Offsets (poolSizes _ _ _)))

/-- The positions a call of `pick_targets` picks with these offsets. -/
def pickedPositions (peers : List Addr) (fanout : ℕ) (sch : Scheduler Addr w)
    (o : TargetOffsets peers fanout sch) : List (Fin peers.length) :=
  draws cursorSum (· + 1) sch.cursor (pickStart peers sch).fresh (pickStart peers sch).used o.toList

/-- The position `pick_round_robin` picks, of `n`, with this offset. -/
def pickedPosition (cursor : BitVec w) {n : ℕ} (o : Fin n) : Fin n :=
  ⟨cursorSum cursor o % n, Nat.mod_lt _ o.pos⟩

variable (peers : List Addr) (fanout : ℕ) (sch : Scheduler Addr w)

/-! ### `pick_targets` -/

/-- Selections from the two pools are those that take fresh positions first. -/
theorem selects_pickStart_iff {ps : List (Fin peers.length)} :
    Selects (pickStart peers sch).fresh (pickStart peers sch).used ps ↔
      ps.Nodup ∧ FreshFirst peers sch.lastPeers ps := by
  constructor
  · intro h
    refine ⟨h.nodup, fun xs i ys heq hi j hj => ?_⟩
    exact h.order xs i ys heq ((mem_used_pickStart peers sch).mpr hi) j ((mem_fresh_pickStart peers sch).mpr hj)
  · rintro ⟨hnd, hfirst⟩
    refine ⟨hnd, fun i _ => ?_, fun xs i ys heq hi j hj => ?_⟩
    · rw [mem_fresh_pickStart, mem_used_pickStart]
      exact (Decidable.em _).symm
    · exact hfirst xs i ys heq ((mem_used_pickStart peers sch).mp hi) j ((mem_fresh_pickStart peers sch).mp hj)

/-- The offsets are in range of the pools of the loop. -/
theorem forall₂_toList (o : TargetOffsets peers fanout sch) :
    List.Forall₂ (· < ·) o.toList (poolSizes (min fanout peers.length) (pickStart peers sch).fresh.length
      (pickStart peers sch).used.length) := by
  rw [← drawSizes_eq]
  exact (Offsets.toList_bijOn _).mapsTo (Set.mem_univ o)

/-- What `pick_targets` returns are the peers at the positions drawn. -/
theorem pickTargets_positions (o : TargetOffsets peers fanout sch) (rest : Stream' ℕ) :
    (({ sch with rng := o.toList ++ₛ rest } : Scheduler Addr w).pickTargets peers fanout).1 =
      (pickedPositions peers fanout sch o).map peers.get := by
  unfold pickTargets
  split_ifs with hnil
  · -- no peers, no positions
    obtain rfl := List.eq_nil_of_length_eq_zero hnil
    cases pickedPositions [] fanout sch o with
    | nil => rfl
    | cons i ps => exact i.elim0
  · exact pickLoop_chosen (nodup_pickStart peers sch) (forall₂_toList peers fanout sch o) rfl

/-- **Offsets are selections**: a call with one sequence of offsets picks one selection, and
every selection is what exactly one sequence picks. -/
theorem pickedPositions_bijOn (hfit : SumsFit sch.cursor (drawSizes peers fanout sch.lastPeers)) :
    Set.BijOn (pickedPositions peers fanout sch) Set.univ (orderedSelections peers fanout sch.lastPeers) := by
  have hperm := hfit.permutes fun n hn => pos_of_mem_poolSizes hn
  rw [drawSizes_eq] at hperm
  have hdraws := draws_bijOn (nodup_pickStart peers sch) hperm
  have hlist := Offsets.toList_bijOn (drawSizes peers fanout sch.lastPeers)
  rw [← drawSizes_eq] at hdraws
  have hall := hdraws.comp hlist
  have hset : {xs | xs.length = min (min fanout peers.length) ((pickStart peers sch).fresh.length +
      (pickStart peers sch).used.length) ∧ Selects (pickStart peers sch).fresh (pickStart peers sch).used xs} =
      orderedSelections peers fanout sch.lastPeers := by
    ext ps
    rw [Set.mem_ofPred_eq, length_pools_pickStart, min_eq_left (min_le_right fanout peers.length), selects_pickStart_iff]
    exact Iff.rfl
  rw [hset] at hall
  exact hall

/-! ### `pick_round_robin` -/

omit [DecidableEq Addr] in
/-- What `pick_round_robin` returns is the peer at the position picked. -/
theorem pickRoundRobin_position (p : Addr) (ps : List Addr) (sch : Scheduler Addr w) (o : Fin (ps.length + 1))
    (rest : Stream' ℕ) :
    (({ sch with rng := Stream'.cons o rest } : Scheduler Addr w).pickRoundRobin p ps true).1 =
      (p :: ps).get (pickedPosition sch.cursor o) := by
  have hoffset : (Stream'.cons (o : ℕ) rest).head % (ps.length + 1) = o := Nat.mod_eq_of_lt o.isLt
  show (p :: ps).get
    ⟨cursorSum sch.cursor ((Stream'.cons (o : ℕ) rest).head % (ps.length + 1)) % (ps.length + 1), _⟩ = _
  simp only [hoffset]
  rfl

/-- The offsets are the positions, in another order. -/
theorem pickedPosition_bijective {cursor : BitVec w} {n : ℕ} (hn : 0 < n) (h : cursor.toNat + n ≤ 2 ^ w) :
    Function.Bijective (pickedPosition cursor : Fin n → Fin n) := by
  refine Finite.injective_iff_bijective.mp fun o o' heq => Fin.ext ?_
  exact (bijOn_cursorSum hn h).injOn o.isLt o'.isLt (Fin.mk.inj heq)

/-! ### Both -/

/-- **The picks are unbiased.** For every list of peers, fanout, memory and cursor: if no sum in
the call reaches `2 ^ w`, whatever the offsets, then

* the sizes of the pools, round by round, are the ones the offsets are below;
* `pick_targets` returns the peers at the positions picked, and this makes of the sequences of
  offsets, one to one, all ordered selections of `min fanout n` distinct positions that take
  fresh ones first;
* with uniform offsets these selections all have the same probability.

And if no sum of `pick_round_robin` does, it returns the peer at the position picked, which
makes of the offsets, one to one, the positions of the `n` peers; with uniform offsets they all
have the same probability. -/
theorem picks_unbiased :
    (∀ (peers : List Addr) (fanout : ℕ) (sch : Scheduler Addr w),
      SumsFit sch.cursor (drawSizes peers fanout sch.lastPeers) →
      (∀ rng, remainings (min fanout peers.length) (pickStart peers { sch with rng := rng }) =
        drawSizes peers fanout sch.lastPeers) ∧
      (∀ o rest, (({ sch with rng := Offsets.toList o ++ₛ rest } : Scheduler Addr w).pickTargets peers fanout).1 =
        (pickedPositions peers fanout sch o).map peers.get) ∧
      Set.BijOn (pickedPositions peers fanout sch) Set.univ (orderedSelections peers fanout sch.lastPeers) ∧
      ∀ ps ∈ orderedSelections peers fanout sch.lastPeers,
        ((PMF.uniformOfFintype (TargetOffsets peers fanout sch)).map (pickedPositions peers fanout sch)) ps =
          ((orderedSelections peers fanout sch.lastPeers).ncard : ENNReal)⁻¹) ∧
    ∀ (p : Addr) (ps : List Addr) (sch : Scheduler Addr w), sch.cursor.toNat + (ps.length + 1) ≤ 2 ^ w →
      (∀ (o : Fin (ps.length + 1)) rest,
        (({ sch with rng := Stream'.cons o rest } : Scheduler Addr w).pickRoundRobin p ps true).1 =
          (p :: ps).get (pickedPosition sch.cursor o)) ∧
      Function.Bijective (pickedPosition sch.cursor : Fin (ps.length + 1) → Fin (ps.length + 1)) ∧
      ∀ i, ((PMF.uniformOfFintype (Fin (ps.length + 1))).map (pickedPosition sch.cursor)) i =
        ((ps.length + 1 : ℕ) : ENNReal)⁻¹ := by
  constructor
  · intro peers fanout sch hfit
    have hbij := pickedPositions_bijOn peers fanout sch hfit
    refine ⟨fun rng => ?_, pickTargets_positions peers fanout sch, hbij, fun ps hps => map_uniform_apply hbij hps⟩
    rw [remainings_eq]
    exact (drawSizes_eq peers fanout { sch with rng := rng }).symm
  · intro p ps sch hsum
    have hbij : Function.Bijective (pickedPosition sch.cursor : Fin (ps.length + 1) → Fin (ps.length + 1)) :=
      pickedPosition_bijective (Nat.succ_pos _) hsum
    refine ⟨pickRoundRobin_position p ps sch, hbij, fun i => ?_⟩
    rw [map_uniform_apply (Set.bijOn_univ.mpr hbij) (Set.mem_univ i), Set.ncard_univ, Nat.card_eq_fintype_card,
      Fintype.card_fin]

/-- Five peers of which two are remembered, and a fanout of four, so that a remembered one is
picked too; and three peers in turn. -/
theorem picks_unbiased_five :
    let sch : Scheduler ℕ 64 := ⟨7, [1, 2], Stream'.const 0⟩
    let peers := [1, 2, 3, 4, 5]
    drawSizes peers 4 sch.lastPeers = [3, 2, 1, 2] ∧
      Set.BijOn (pickedPositions peers 4 sch) Set.univ (orderedSelections peers 4 [1, 2]) ∧
      (∀ ps ∈ orderedSelections peers 4 [1, 2],
        ((PMF.uniformOfFintype (TargetOffsets peers 4 sch)).map (pickedPositions peers 4 sch)) ps =
          ((orderedSelections peers 4 [1, 2]).ncard : ENNReal)⁻¹) ∧
      Function.Bijective (pickedPosition sch.cursor : Fin 3 → Fin 3) := by
  intro sch peers
  obtain ⟨-, -, hbij, huniform⟩ := picks_unbiased.1 peers 4 sch (by decide)
  obtain ⟨-, hturn, -⟩ := picks_unbiased.2 6 [7, 8] sch (by decide)
  exact ⟨by decide, hbij, huniform, hturn⟩

end Peashape.Shaping

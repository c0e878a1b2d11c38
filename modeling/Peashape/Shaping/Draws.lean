import Peashape.Foundation.Drawing
import Peashape.Shaping.PeerSelection

/-!
# The picks as draws

The loop of `pick_targets` draws positions without replacement from two pools, the fresh peers
and the recently used ones. A round is a draw of `Foundation.Drawing` (`pickStep_of_takeAt`).
The sizes of the pools it draws from do not depend on what is drawn (`remainings_eq`), and
offsets below these sizes draw what `draws` says (`pickLoop_chosen`).

The sum of the cursor and an offset stays below `2 ^ w`, whatever the offsets, if the cursor
and the size of the pool add up to at most that, at each round (`SumsFit`).
-/

namespace Peashape.Shaping

open Foundation Scheduler

variable {Addr : Type*} {w : ℕ} {peers : List Addr}

/-! ### The sums -/

/-- The cursor, which moves by one with each draw, leaves room for every offset below the size
of the pool. -/
def SumsFit : BitVec w → List ℕ → Prop
  | _, [] => True
  | cursor, n :: sizes => cursor.toNat + n ≤ 2 ^ w ∧ SumsFit (cursor + 1) sizes

instance SumsFit.decidable : ∀ (cursor : BitVec w) (sizes : List ℕ), Decidable (SumsFit cursor sizes)
  | _, [] => inferInstanceAs (Decidable True)
  | cursor, n :: sizes =>
    have := SumsFit.decidable (cursor + 1) sizes
    inferInstanceAs (Decidable (cursor.toNat + n ≤ 2 ^ w ∧ SumsFit (cursor + 1) sizes))

/-- A sum that fits does not wrap. -/
theorem cursorSum_of_lt {cursor : BitVec w} {offset : ℕ} (h : cursor.toNat + offset < 2 ^ w) :
    cursorSum cursor offset = cursor.toNat + offset := by
  have hoffset : offset < 2 ^ w := by omega
  rw [cursorSum, BitVec.toNat_add, BitVec.toNat_ofNat, Nat.mod_eq_of_lt hoffset, Nat.mod_eq_of_lt h]

/-- With room for all of them, the cursor permutes the offsets. -/
theorem bijOn_cursorSum {cursor : BitVec w} {n : ℕ} (hn : 0 < n) (h : cursor.toNat + n ≤ 2 ^ w) :
    Set.BijOn (fun o => cursorSum cursor o % n) (Set.Iio n) (Set.Iio n) := by
  refine (bijOn_add_mod cursor.toNat hn).congr fun o ho => ?_
  have hlt : o < n := ho
  simp only [cursorSum_of_lt (show cursor.toNat + o < 2 ^ w by omega)]

theorem SumsFit.permutes : ∀ {sizes : List ℕ} {cursor : BitVec w}, SumsFit cursor sizes →
    (∀ n ∈ sizes, 0 < n) → Permutes cursorSum (· + 1) cursor sizes := by
  intro sizes
  induction sizes with
  | nil => exact fun _ _ => trivial
  | cons n sizes ih =>
    rintro cursor ⟨hn, hrest⟩ hpos
    obtain ⟨hn', hpos'⟩ := List.forall_mem_cons.mp hpos
    exact ⟨bijOn_cursorSum hn' hn, ih hrest hpos'⟩

/-! ### The rounds -/

/-- A round is a draw. -/
theorem pickStep_of_takeAt {st : Picking peers w} {i : Fin peers.length} {fresh used : List (Fin peers.length)}
    (h : takeAt (cursorSum st.cursor (st.rng.head % poolSize st.fresh.length st.used.length)) st.fresh st.used =
      some (i, fresh, used)) :
    pickStep st = some ⟨fresh, used, st.chosen ++ [peers.get i], st.cursor + 1, st.rng.tail⟩ := by
  obtain ⟨_ | ⟨a, fresh'⟩, used', chosen, cursor, rng⟩ := st
  · cases used' with
    | nil => cases h
    | cons a used' =>
      simp only [takeAt, Option.some.injEq, Prod.mk.injEq] at h
      obtain ⟨rfl, rfl, rfl⟩ := h
      rfl
  · simp only [takeAt, Option.some.injEq, Prod.mk.injEq] at h
    obtain ⟨rfl, rfl, rfl⟩ := h
    rfl

/-- With both pools empty the loop breaks; otherwise there is a round. -/
theorem pickStep_eq_takeAt (st : Picking peers w) :
    (st.fresh = [] ∧ st.used = [] ∧ pickStep st = none) ∨
      ∃ i fresh used,
        takeAt (cursorSum st.cursor (st.rng.head % poolSize st.fresh.length st.used.length)) st.fresh st.used =
          some (i, fresh, used) ∧
        pickStep st = some ⟨fresh, used, st.chosen ++ [peers.get i], st.cursor + 1, st.rng.tail⟩ := by
  cases h : takeAt (cursorSum st.cursor (st.rng.head % poolSize st.fresh.length st.used.length)) st.fresh st.used with
  | none =>
    obtain ⟨hfresh, hused⟩ := eq_nil_of_takeAt h
    refine .inl ⟨hfresh, hused, ?_⟩
    simp only [pickStep, hfresh, hused]
  | some x => exact .inr ⟨x.1, x.2.1, x.2.2, rfl, pickStep_of_takeAt h⟩

/-- The sizes of the pools the loop draws from: `remaining`, round by round. -/
def remainings : ℕ → Picking peers w → List ℕ
  | 0, _ => []
  | k + 1, st =>
    match pickStep st with
    | none => []
    | some st' => (if st.fresh ≠ [] then st.fresh else st.used).length :: remainings k st'

/-- They depend on how many positions there are in the two pools alone. -/
theorem remainings_eq : ∀ (k : ℕ) (st : Picking peers w),
    remainings k st = poolSizes k st.fresh.length st.used.length := by
  intro k
  induction k with
  | zero => exact fun _ => rfl
  | succ k ih =>
    intro st
    rcases pickStep_eq_takeAt st with ⟨hfresh, hused, hstep⟩ | ⟨i, fresh, used, htake, hstep⟩
    · simp only [remainings, hstep, hfresh, hused]
      rfl
    · rw [poolSizes_of_takeAt htake k]
      simp only [remainings, hstep, ih]
      cases st.fresh <;> rfl

/-- **The loop draws.** Offsets in range draw, by way of the random numbers, the positions of
the peers that the loop chooses. -/
theorem pickLoop_chosen : ∀ {os : List ℕ} {k : ℕ} {st : Picking peers w} {rest : Stream' ℕ},
    (st.fresh ++ st.used).Nodup → List.Forall₂ (· < ·) os (poolSizes k st.fresh.length st.used.length) →
    st.rng = os ++ₛ rest →
    (pickLoop k st).chosen =
      st.chosen ++ (draws cursorSum (· + 1) st.cursor st.fresh st.used os).map peers.get := by
  intro os
  induction os with
  | nil =>
    intro k st rest _ h _
    have hdone : pickLoop k st = st := by
      cases k with
      | zero => rfl
      | succ k =>
        rcases pickStep_eq_takeAt st with ⟨-, -, hstep⟩ | ⟨i, fresh, used, htake, -⟩
        · simp only [pickLoop, hstep]
        · rw [poolSizes_of_takeAt htake k] at h
          cases h
    rw [hdone]
    exact (List.append_nil _).symm
  | cons o os ih =>
    intro k st rest hnd h hrng
    obtain ⟨k', i, fresh, used, rfl, ho, htake, hleaves, hos⟩ :=
      takeAt_of_forall₂ hnd h (cursorSum st.cursor o)
    have hhead : st.rng.head % poolSize st.fresh.length st.used.length = o := by
      rw [hrng]
      exact Nat.mod_eq_of_lt ho
    have hstep := pickStep_of_takeAt (hhead.symm ▸ htake)
    let st' : Picking peers w := ⟨fresh, used, st.chosen ++ [peers.get i], st.cursor + 1, st.rng.tail⟩
    have hrest : (pickLoop k' st').chosen = st'.chosen ++ _ :=
      ih hleaves.nodup hos (congrArg Stream'.tail hrng)
    simp only [pickLoop, hstep, draws, htake, List.map_cons]
    rw [hrest, List.append_assoc, List.singleton_append]

/-! ### The start of the loop -/

section Start

variable [DecidableEq Addr] (peers)

/-- The sizes of the pools a call of `pick_targets` draws from. -/
def drawSizes (fanout : ℕ) (lastPeers : List Addr) : List ℕ :=
  poolSizes (min fanout peers.length) (peers.filter (· ∉ lastPeers)).length (peers.filter (· ∈ lastPeers)).length

variable (fanout : ℕ) (sch : Scheduler Addr w)

/-- The pools at the start of the loop are as large. -/
theorem drawSizes_eq :
    drawSizes peers fanout sch.lastPeers =
      poolSizes (min fanout peers.length) (pickStart peers sch).fresh.length (pickStart peers sch).used.length := by
  have hfresh := congrArg List.length (freshPool_pickStart peers sch)
  have hused := congrArg List.length (usedPool_pickStart peers sch)
  rw [freshPool, List.length_map] at hfresh
  rw [usedPool, List.length_map] at hused
  rw [drawSizes, hfresh, hused]

/-- Every position is in one of the two pools, once. -/
theorem pools_pickStart :
    ((pickStart peers sch).fresh ++ (pickStart peers sch).used).Perm (List.finRange peers.length) := by
  simp only [pickStart, List.partition_eq_filter_filter]
  exact List.perm_append_comm.trans (List.filter_append_perm _ _)

theorem length_pools_pickStart :
    (pickStart peers sch).fresh.length + (pickStart peers sch).used.length = peers.length := by
  have hlen := (pools_pickStart peers sch).length_eq
  rwa [List.length_append, List.length_finRange] at hlen

theorem nodup_pickStart : ((pickStart peers sch).fresh ++ (pickStart peers sch).used).Nodup :=
  (pools_pickStart peers sch).nodup_iff.mpr (List.nodup_finRange _)

theorem mem_fresh_pickStart {i : Fin peers.length} :
    i ∈ (pickStart peers sch).fresh ↔ peers.get i ∉ sch.lastPeers := by
  simp [pickStart, List.partition_eq_filter_filter]

theorem mem_used_pickStart {i : Fin peers.length} :
    i ∈ (pickStart peers sch).used ↔ peers.get i ∈ sch.lastPeers := by
  simp [pickStart, List.partition_eq_filter_filter]

end Start

end Peashape.Shaping

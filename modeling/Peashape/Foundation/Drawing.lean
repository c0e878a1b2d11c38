import Mathlib.Data.List.Forall2
import Mathlib.Data.List.OfFn
import Mathlib.Data.Set.Finite.Basic
import Mathlib.Probability.Distributions.Uniform
import Peashape.Foundation.Deque

/-!
# Drawing without replacement

Items are drawn one after another from two pools, from the second once the first is empty
(`takeAt`). Which item of a pool is drawn depends on an offset below the size of the pool and
on a cursor, which moves with each draw (`draws`).

If every cursor permutes the offsets (`Permutes`), the sequences of offsets are as good as the
draws: each ordered selection that takes the first pool first (`Selects`) is what exactly one
sequence of offsets gives (`draws_bijOn`).
-/

namespace Peashape.Foundation

variable {α σ : Type*} {first second : List α} {x : α} {xs : List α} {m : ℕ}

/-! ### Ordered selections -/

/-- Distinct items of two pools, none from the second while one of the first is left. -/
structure Selects (first second xs : List α) : Prop where
  /-- No item is there twice. -/
  nodup : xs.Nodup
  /-- All are from the pools. -/
  mem : ∀ x ∈ xs, x ∈ first ∨ x ∈ second
  /-- Before an item of the second pool are all those of the first. -/
  order : ∀ ys x zs, xs = ys ++ x :: zs → x ∈ second → ∀ y ∈ first, y ∈ ys

namespace Selects

theorem nil : Selects first second [] where
  nodup := List.nodup_nil
  mem := List.forall_mem_nil _
  order ys x zs h := absurd h (by simp)

/-- The first item is from the first pool, if there is one. -/
theorem head_mem_first (h : Selects first second (x :: xs)) (hne : first ≠ []) : x ∈ first := by
  refine (h.mem x List.mem_cons_self).resolve_right fun hx => ?_
  obtain ⟨y, hy⟩ := List.exists_mem_of_ne_nil first hne
  exact List.not_mem_nil (h.order [] x xs rfl hx y hy)

theorem head_mem_second (h : Selects [] second (x :: xs)) : x ∈ second :=
  (h.mem x List.mem_cons_self).resolve_left List.not_mem_nil

/-- An item of the first pool, and a selection from the rest. -/
theorem cons_first_iff {rest : List α} (hp : (x :: rest).Perm first) (hnd : (first ++ second).Nodup) :
    Selects first second (x :: xs) ↔ Selects rest second xs := by
  obtain ⟨hfirst, -, hdisj⟩ := List.nodup_append'.mp hnd
  have hx : x ∈ first := hp.mem_iff.mp List.mem_cons_self
  have hxrest : x ∉ rest := (List.nodup_cons.mp (hp.nodup_iff.mpr hfirst)).1
  constructor
  · intro h
    obtain ⟨hxs, hnodup⟩ := List.nodup_cons.mp h.nodup
    refine ⟨hnodup, fun y hy => ?_, fun ys z zs heq hz y hy => ?_⟩
    · refine (h.mem y (List.mem_cons_of_mem x hy)).imp_left fun hyfirst => ?_
      exact (List.mem_cons.mp (hp.mem_iff.mpr hyfirst)).resolve_left fun heq => hxs (heq ▸ hy)
    · have hmem := h.order (x :: ys) z zs (congrArg (List.cons x) heq) hz y
        (hp.mem_iff.mp (List.mem_cons_of_mem x hy))
      exact (List.mem_cons.mp hmem).resolve_left fun heq => hxrest (heq ▸ hy)
  · intro h
    have hxs : x ∉ xs := fun hmem => (h.mem x hmem).elim hxrest (hdisj hx)
    refine ⟨List.nodup_cons.mpr ⟨hxs, h.nodup⟩, List.forall_mem_cons.mpr ⟨.inl hx, fun y hy => ?_⟩,
      fun ys z zs heq hz y hy => ?_⟩
    · exact (h.mem y hy).imp_left fun hrest => hp.mem_iff.mp (List.mem_cons_of_mem x hrest)
    · cases ys with
      | nil =>
        -- the first item is not from the second pool
        obtain ⟨rfl, -⟩ := List.cons.inj heq
        exact absurd hz (hdisj hx)
      | cons x' ys =>
        obtain ⟨rfl, htail⟩ := List.cons.inj heq
        rcases List.mem_cons.mp (hp.mem_iff.mpr hy) with rfl | hrest
        · exact List.mem_cons_self
        · exact List.mem_cons_of_mem x (h.order ys z zs htail hz y hrest)

/-- With the first pool empty, an item of the second one, and a selection from the rest. -/
theorem cons_second_iff {rest : List α} (hp : (x :: rest).Perm second) (hnd : second.Nodup) :
    Selects [] second (x :: xs) ↔ Selects [] rest xs := by
  have hx : x ∈ second := hp.mem_iff.mp List.mem_cons_self
  have hxrest : x ∉ rest := (List.nodup_cons.mp (hp.nodup_iff.mpr hnd)).1
  constructor
  · intro h
    obtain ⟨hxs, hnodup⟩ := List.nodup_cons.mp h.nodup
    refine ⟨hnodup, fun y hy => .inr ?_, fun ys z zs _ _ y hy => absurd hy List.not_mem_nil⟩
    have hsecond := (h.mem y (List.mem_cons_of_mem x hy)).resolve_left List.not_mem_nil
    exact (List.mem_cons.mp (hp.mem_iff.mpr hsecond)).resolve_left fun heq => hxs (heq ▸ hy)
  · intro h
    have hmem : ∀ y ∈ xs, y ∈ rest := fun y hy => (h.mem y hy).resolve_left List.not_mem_nil
    refine ⟨List.nodup_cons.mpr ⟨fun hxs => hxrest (hmem x hxs), h.nodup⟩,
      List.forall_mem_cons.mpr ⟨.inr hx, fun y hy => .inr ?_⟩, fun ys z zs _ _ y hy => absurd hy List.not_mem_nil⟩
    exact hp.mem_iff.mp (List.mem_cons_of_mem x (hmem y hy))

end Selects

/-! ### Drawing -/

/-- Remove the item at an index, modulo the length, from the first pool, or from the second one
if that is empty. -/
def takeAt (i : ℕ) : List α → List α → Option (α × List α × List α)
  | a :: first, second =>
    let (x, first) := Deque.removeAt i a first
    some (x, first, second)
  | [], a :: second =>
    let (x, second) := Deque.removeAt i a second
    some (x, [], second)
  | [], [] => none

/-- The size of the pool the next item is from. -/
def poolSize : ℕ → ℕ → ℕ
  | first + 1, _ => first + 1
  | 0, second => second

/-- The sizes of the pools of the next `m` draws, or of as many as there are items. -/
def poolSizes : ℕ → ℕ → ℕ → List ℕ
  | 0, _, _ => []
  | m + 1, first + 1, second => (first + 1) :: poolSizes m first second
  | m + 1, 0, second + 1 => (second + 1) :: poolSizes m 0 second
  | _ + 1, 0, 0 => []

/-- What a sequence of offsets draws, if `index c o` is where the cursor `c` and the offset `o`
point to. -/
def draws (index : σ → ℕ → ℕ) (next : σ → σ) : σ → List α → List α → List ℕ → List α
  | _, _, _, [] => []
  | c, first, second, o :: os =>
    match takeAt (index c o) first second with
    | none => []
    | some (x, first, second) => x :: draws index next (next c) first second os

/-- Each cursor permutes the offsets below the size of its pool. -/
def Permutes (index : σ → ℕ → ℕ) (next : σ → σ) : σ → List ℕ → Prop
  | _, [] => True
  | c, n :: sizes =>
    Set.BijOn (fun o => index c o % n) (Set.Iio n) (Set.Iio n) ∧ Permutes index next (next c) sizes

theorem length_poolSizes : ∀ m first second, (poolSizes m first second).length = min m (first + second)
  | 0, _, _ => by simp [poolSizes]
  | m + 1, first + 1, second => by
    rw [poolSizes, List.length_cons, length_poolSizes m first second]
    omega
  | m + 1, 0, second + 1 => by
    rw [poolSizes, List.length_cons, length_poolSizes m 0 second]
    omega
  | _ + 1, 0, 0 => rfl

/-- No pool drawn from is empty. -/
theorem pos_of_mem_poolSizes : ∀ {m first second n}, n ∈ poolSizes m first second → 0 < n
  | m + 1, first + 1, second, n, h => by
    rcases List.mem_cons.mp h with rfl | h
    · exact Nat.succ_pos first
    · exact pos_of_mem_poolSizes h
  | m + 1, 0, second + 1, n, h => by
    rcases List.mem_cons.mp h with rfl | h
    · exact Nat.succ_pos second
    · exact pos_of_mem_poolSizes h

/-- There is nothing to draw from two empty pools alone. -/
theorem eq_nil_of_takeAt {i : ℕ} (h : takeAt i first second = none) : first = [] ∧ second = [] := by
  cases first with
  | cons a first => cases h
  | nil =>
    cases second with
    | cons a second => cases h
    | nil => exact ⟨rfl, rfl⟩

/-- A draw leaves smaller pools. -/
theorem poolSizes_of_takeAt {i : ℕ} {first' second' : List α}
    (h : takeAt i first second = some (x, first', second')) (m : ℕ) :
    poolSizes (m + 1) first.length second.length =
      poolSize first.length second.length :: poolSizes m first'.length second'.length := by
  have hlen : ∀ (a : α) (l : List α), (Deque.removeAt i a l).2.length = l.length := by
    intro a l
    have hp := (Deque.removeAt_perm i a l).length_eq
    simp only [List.length_cons] at hp
    omega
  cases first with
  | cons a first =>
    simp only [takeAt, Option.some.injEq, Prod.mk.injEq] at h
    obtain ⟨-, rfl, rfl⟩ := h
    rw [hlen]
    rfl
  | nil =>
    cases second with
    | cons a second =>
      simp only [takeAt, Option.some.injEq, Prod.mk.injEq] at h
      obtain ⟨-, rfl, rfl⟩ := h
      rw [hlen]
      rfl
    | nil => cases h

/-- What a draw leaves: smaller pools, and the selections that go on with the item drawn. -/
structure Leaves (first second : List α) (x : α) (first' second' : List α) : Prop where
  /-- No item is there twice. -/
  nodup : (first' ++ second').Nodup
  /-- What can still be selected. -/
  selects : ∀ xs, Selects first second (x :: xs) ↔ Selects first' second' xs
  /-- The sizes of the pools. -/
  sizes : ∀ m, poolSizes (m + 1) first.length second.length =
    poolSize first.length second.length :: poolSizes m first'.length second'.length

/-- A draw from pools that are not both empty. -/
theorem takeAt_leaves (hnd : (first ++ second).Nodup) (hne : first ++ second ≠ []) (i : ℕ) :
    ∃ x first' second', takeAt i first second = some (x, first', second') ∧
      Leaves first second x first' second' := by
  obtain ⟨hfirst, hsecond, hdisj⟩ := List.nodup_append'.mp hnd
  cases first with
  | cons a first =>
    have hp := Deque.removeAt_perm i a first
    refine ⟨_, _, _, rfl, ?_, fun xs => Selects.cons_first_iff hp hnd, poolSizes_of_takeAt rfl⟩
    have hrest := (hp.append_right second).nodup_iff.mpr hnd
    exact (List.nodup_cons.mp hrest).2
  | nil =>
    obtain ⟨a, second, rfl⟩ := List.exists_cons_of_ne_nil hne
    have hp := Deque.removeAt_perm i a second
    exact ⟨_, [], _, rfl, (List.nodup_cons.mp (hp.nodup_iff.mpr hsecond)).2,
      fun xs => Selects.cons_second_iff hp hsecond, poolSizes_of_takeAt rfl⟩

/-- With an offset in range for each of the draws, there is something to draw. -/
theorem takeAt_of_forall₂ {o : ℕ} {os : List ℕ} (hnd : (first ++ second).Nodup)
    (h : List.Forall₂ (· < ·) (o :: os) (poolSizes m first.length second.length)) (i : ℕ) :
    ∃ m' x first' second', m = m' + 1 ∧ o < poolSize first.length second.length ∧
      takeAt i first second = some (x, first', second') ∧ Leaves first second x first' second' ∧
      List.Forall₂ (· < ·) os (poolSizes m' first'.length second'.length) := by
  cases m with
  | zero => cases h
  | succ m =>
    have hne : first ++ second ≠ [] := by
      intro hnil
      obtain ⟨rfl, rfl⟩ := List.append_eq_nil_iff.mp hnil
      cases h
    obtain ⟨x, first', second', htake, hleaves⟩ := takeAt_leaves hnd hne i
    rw [hleaves.sizes m] at h
    obtain ⟨ho, hos⟩ := List.forall₂_cons.mp h
    exact ⟨m, x, first', second', rfl, ho, htake, hleaves, hos⟩

/-- Different indices, modulo the size of the pool, are those of different items. -/
theorem takeAt_inj {i j : ℕ} {first₁ second₁ first₂ second₂ : List α} (hnd : (first ++ second).Nodup)
    (hi : takeAt i first second = some (x, first₁, second₁))
    (hj : takeAt j first second = some (x, first₂, second₂)) :
    i % poolSize first.length second.length = j % poolSize first.length second.length := by
  obtain ⟨hfirst, hsecond, -⟩ := List.nodup_append'.mp hnd
  -- what is removed from a pool tells its index
  have hinj : ∀ {a : α} {l : List α}, (a :: l).Nodup → (Deque.removeAt i a l).1 = (Deque.removeAt j a l).1 →
      i % (l.length + 1) = j % (l.length + 1) := by
    intro a l hl heq
    exact Fin.mk.inj (hl.get_inj_iff.mp heq)
  cases first with
  | cons a first =>
    simp only [takeAt, Option.some.injEq, Prod.mk.injEq] at hi hj
    exact hinj hfirst (hi.1.trans hj.1.symm)
  | nil =>
    cases second with
    | cons a second =>
      simp only [takeAt, Option.some.injEq, Prod.mk.injEq] at hi hj
      exact hinj hsecond (hi.1.trans hj.1.symm)
    | nil => cases hi

/-- The first item of a selection has an index. -/
theorem exists_takeAt (h : Selects first second (x :: xs)) :
    ∃ k < poolSize first.length second.length, ∀ i, i % poolSize first.length second.length = k →
      ∃ first' second', takeAt i first second = some (x, first', second') := by
  have hfind : ∀ {a : α} {l : List α}, x ∈ a :: l → ∃ k < l.length + 1, ∀ i, i % (l.length + 1) = k →
      (Deque.removeAt i a l).1 = x := by
    intro a l hmem
    obtain ⟨k, hk, hget⟩ := List.getElem_of_mem hmem
    refine ⟨k, hk, fun i hi => ?_⟩
    simp only [Deque.removeAt, hi]
    exact hget
  cases first with
  | cons a first =>
    obtain ⟨k, hk, hitem⟩ := hfind (h.head_mem_first (List.cons_ne_nil a first))
    refine ⟨k, hk, fun i hi => ⟨(Deque.removeAt i a first).2, second, ?_⟩⟩
    simp only [takeAt, hitem i hi]
  | nil =>
    cases second with
    | cons a second =>
      obtain ⟨k, hk, hitem⟩ := hfind h.head_mem_second
      refine ⟨k, hk, fun i hi => ⟨[], (Deque.removeAt i a second).2, ?_⟩⟩
      simp only [takeAt, hitem i hi]
    | nil => exact absurd h.head_mem_second List.not_mem_nil

/-! ### Offsets and selections -/

section Draws

variable {index : σ → ℕ → ℕ} {next : σ → σ}

/-- What is drawn is a selection. -/
theorem draws_selects : ∀ {os : List ℕ} {m : ℕ} {c : σ} {first second : List α}, (first ++ second).Nodup →
    List.Forall₂ (· < ·) os (poolSizes m first.length second.length) →
    (draws index next c first second os).length = os.length ∧
      Selects first second (draws index next c first second os) := by
  intro os
  induction os with
  | nil => exact fun _ _ => ⟨rfl, .nil⟩
  | cons o os ih =>
    intro m c first second hnd h
    obtain ⟨m', x, first', second', -, -, htake, hleaves, hos⟩ := takeAt_of_forall₂ hnd h (index c o)
    obtain ⟨hlen, hsel⟩ := ih (c := next c) hleaves.nodup hos
    simp only [draws, htake]
    exact ⟨congrArg (· + 1) hlen, (hleaves.selects _).mpr hsel⟩

/-- Different offsets draw differently. -/
theorem draws_inj : ∀ {os os' : List ℕ} {m : ℕ} {c : σ} {first second : List α}, (first ++ second).Nodup →
    Permutes index next c (poolSizes m first.length second.length) →
    List.Forall₂ (· < ·) os (poolSizes m first.length second.length) →
    List.Forall₂ (· < ·) os' (poolSizes m first.length second.length) →
    draws index next c first second os = draws index next c first second os' → os = os' := by
  intro os
  induction os with
  | nil =>
    intro os' m c first second _ _ h h' _
    exact (List.length_eq_zero_iff.mp (h'.length_eq.trans h.length_eq.symm)).symm
  | cons o os ih =>
    rintro (_ | ⟨o', os'⟩) m c first second hnd hperm h h' heq
    · exact absurd (h.length_eq.trans h'.length_eq.symm) (by simp)
    obtain ⟨m', x, first₁, second₁, rfl, ho, htake, hleaves, hos⟩ := takeAt_of_forall₂ hnd h (index c o)
    obtain ⟨_, x', first₂, second₂, -, ho', htake', -, -⟩ := takeAt_of_forall₂ hnd h' (index c o')
    rw [hleaves.sizes m'] at hperm h'
    simp only [draws, htake, htake', List.cons.injEq] at heq
    obtain ⟨rfl, heq⟩ := heq
    -- the same item, so the same offset
    obtain rfl : o = o' := hperm.1.injOn ho ho' (takeAt_inj hnd htake htake')
    rw [htake, Option.some.injEq, Prod.mk.injEq, Prod.mk.injEq] at htake'
    obtain ⟨-, rfl, rfl⟩ := htake'
    exact congrArg (List.cons o) (ih hleaves.nodup hperm.2 hos (List.forall₂_cons.mp h').2 heq)

/-- Every selection is drawn. -/
theorem exists_draws : ∀ {xs : List α} {m : ℕ} {c : σ} {first second : List α}, (first ++ second).Nodup →
    Permutes index next c (poolSizes m first.length second.length) →
    xs.length = (poolSizes m first.length second.length).length → Selects first second xs →
    ∃ os, List.Forall₂ (· < ·) os (poolSizes m first.length second.length) ∧
      draws index next c first second os = xs := by
  intro xs
  induction xs with
  | nil =>
    intro m c first second _ _ hlen _
    rw [List.length_eq_zero_iff.mp hlen.symm]
    exact ⟨[], .nil, rfl⟩
  | cons x xs ih =>
    intro m c first second hnd hperm hlen hsel
    have hne : first ++ second ≠ [] := by
      intro hnil
      obtain ⟨rfl, rfl⟩ := List.append_eq_nil_iff.mp hnil
      exact absurd hsel.head_mem_second List.not_mem_nil
    cases m with
    | zero => cases hlen
    | succ m =>
      obtain ⟨k, hk, hitem⟩ := exists_takeAt hsel
      obtain ⟨_, _, _, -, hsizes⟩ := takeAt_leaves hnd hne 0
      rw [hsizes.sizes m] at hperm
      obtain ⟨o, ho, hindex⟩ := hperm.1.surjOn hk
      obtain ⟨first', second', htake⟩ := hitem _ hindex
      obtain ⟨x', first'', second'', htake', hleaves⟩ := takeAt_leaves hnd hne (index c o)
      rw [htake, Option.some.injEq, Prod.mk.injEq, Prod.mk.injEq] at htake'
      obtain ⟨rfl, rfl, rfl⟩ := htake'
      rw [← hsizes.sizes m, hleaves.sizes m] at hperm
      rw [hleaves.sizes m] at hlen ⊢
      obtain ⟨os, hos, hdraws⟩ := ih hleaves.nodup hperm.2 (Nat.succ.inj hlen) ((hleaves.selects xs).mp hsel)
      refine ⟨o :: os, .cons ho hos, ?_⟩
      simp only [draws, htake, hdraws]

/-- **Offsets and selections.** If every cursor permutes the offsets, the sequences of offsets
in range are, by what they draw, the ordered selections of as many items as there are draws. -/
theorem draws_bijOn {c : σ} (hnd : (first ++ second).Nodup)
    (hperm : Permutes index next c (poolSizes m first.length second.length)) :
    Set.BijOn (draws index next c first second)
      {os | List.Forall₂ (· < ·) os (poolSizes m first.length second.length)}
      {xs | xs.length = min m (first.length + second.length) ∧ Selects first second xs} := by
  rw [← length_poolSizes]
  refine ⟨fun os hos => ?_, fun os hos os' hos' heq => draws_inj hnd hperm hos hos' heq, fun xs hxs => ?_⟩
  · obtain ⟨hlen, hsel⟩ : (draws index next c first second os).length = os.length ∧ _ := draws_selects hnd hos
    exact ⟨hlen.trans hos.length_eq, hsel⟩
  · exact exists_draws hnd hperm hxs.1 hxs.2

end Draws

/-! ### Sequences of offsets -/

/-- As many offsets as there are sizes, each below its size. -/
def Offsets (sizes : List ℕ) : Type := (i : Fin sizes.length) → Fin (sizes.get i)

namespace Offsets

instance (sizes : List ℕ) : Fintype (Offsets sizes) :=
  inferInstanceAs (Fintype ((i : Fin sizes.length) → Fin (sizes.get i)))

instance (m first second : ℕ) : Nonempty (Offsets (poolSizes m first second)) :=
  ⟨fun i => ⟨0, pos_of_mem_poolSizes (List.get_mem _ i)⟩⟩

/-- The offsets in order. -/
def toList {sizes : List ℕ} (o : Offsets sizes) : List ℕ := List.ofFn fun i => (o i).val

theorem toList_bijOn (sizes : List ℕ) :
    Set.BijOn (fun o : Offsets sizes => o.toList) Set.univ {os | List.Forall₂ (· < ·) os sizes} := by
  refine ⟨fun o _ => ?_, fun o _ o' _ heq => ?_, fun os hos => ?_⟩
  · refine List.forall₂_iff_get.mpr ⟨List.length_ofFn, fun i hi hi' => ?_⟩
    simp [toList]
  · funext i
    exact Fin.ext (congrFun (List.ofFn_injective heq) i)
  · obtain ⟨hlen, hlt⟩ := List.forall₂_iff_get.mp hos
    refine ⟨fun i => ⟨os.get ⟨i, i.isLt.trans_eq hlen.symm⟩, hlt i _ i.isLt⟩, Set.mem_univ _, ?_⟩
    apply List.ext_get
    · simp [toList, hlen]
    · intro i hi hi'
      simp [toList]

end Offsets

/-- A cursor added permutes the offsets. -/
theorem bijOn_add_mod (c : ℕ) {n : ℕ} (hn : 0 < n) :
    Set.BijOn (fun o => (c + o) % n) (Set.Iio n) (Set.Iio n) := by
  have hmaps : Set.MapsTo (fun o => (c + o) % n) (Set.Iio n) (Set.Iio n) := fun o _ => Nat.mod_lt _ hn
  refine ((Set.finite_Iio n).injOn_iff_bijOn_of_mapsTo hmaps).mp fun o ho o' ho' heq => ?_
  have hmod : o ≡ o' [MOD n] := Nat.ModEq.add_left_cancel' c heq
  exact hmod.eq_of_lt_of_lt ho ho'

/-- **Uniform offsets make uniform selections**: what is in bijection with a finite type has,
when an element of that is chosen uniformly, each value with the same probability. -/
theorem map_uniform_apply {ι : Type*} [Fintype ι] [Nonempty ι] {f : ι → α} {S : Set α}
    (hf : Set.BijOn f Set.univ S) {a : α} (ha : a ∈ S) :
    ((PMF.uniformOfFintype ι).map f) a = (S.ncard : ENNReal)⁻¹ := by
  obtain ⟨i, -, rfl⟩ := hf.surjOn ha
  have hcard : S.ncard = Fintype.card ι := by
    rw [← hf.ncard_eq, Set.ncard_univ, Nat.card_eq_fintype_card]
  rw [PMF.map_apply, tsum_eq_single i, if_pos rfl, PMF.uniformOfFintype_apply, hcard]
  intro j hj
  exact if_neg fun heq => hj (hf.injOn (Set.mem_univ j) (Set.mem_univ i) heq.symm)

end Peashape.Foundation

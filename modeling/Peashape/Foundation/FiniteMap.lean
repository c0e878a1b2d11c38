import Mathlib.Data.Finmap
import Mathlib.Algebra.Order.BigOperators.Group.Multiset
import Mathlib.Algebra.Order.Group.Nat

/-!
# Finite maps: retaining keys and totals

Mathlib's `Finmap` is the extensional finite map. Two operations of hash maps are
missing there: `retain`, which keeps the entries whose key passes a test, and the sum
of a measure over all entries. With them come their `lookup` and insertion laws.
-/

namespace Peashape.Foundation.FiniteMap

universe u v

variable {α : Type u} {β : Type v} [DecidableEq α]

/-- Keep the entries whose key passes the test. -/
def retain (p : α → Bool) (m : Finmap fun _ : α => β) : Finmap fun _ : α => β where
  entries := m.entries.filter fun e => p e.1
  nodupKeys := by
    rw [← Multiset.nodup_keys]
    exact Multiset.nodup_of_le (Multiset.map_le_map (Multiset.filter_le _ _)) m.nodupKeys.nodup_keys

theorem lookup_retain (p : α → Bool) (m : Finmap fun _ : α => β) (a : α) :
    (retain p m).lookup a = if p a then m.lookup a else none := by
  ext b
  rw [Finmap.lookup_eq_some_iff, retain, Multiset.mem_filter]
  cases hp : p a <;> simp [Finmap.lookup_eq_some_iff]

@[simp] theorem lookup_retain_of_pos {p : α → Bool} {m : Finmap fun _ : α => β} {a : α} (h : p a = true) :
    (retain p m).lookup a = m.lookup a := by
  rw [lookup_retain, if_pos h]

@[simp] theorem lookup_retain_of_neg {p : α → Bool} {m : Finmap fun _ : α => β} {a : α} (h : p a = false) :
    (retain p m).lookup a = none := by
  rw [lookup_retain, if_neg (by simp [h])]

/-- Nothing to retain in the empty map. -/
theorem retain_empty (p : α → Bool) : retain p (∅ : Finmap fun _ : α => β) = ∅ :=
  Finmap.ext_lookup fun a => by rw [lookup_retain, Finmap.lookup_empty, ite_self]

@[simp] theorem mem_retain {p : α → Bool} {m : Finmap fun _ : α => β} {a : α} : a ∈ retain p m ↔ p a = true ∧ a ∈ m := by
  rw [← Finmap.lookup_isSome, ← Finmap.lookup_isSome, lookup_retain]
  split_ifs with h <;> simp [h]

/-- The sum of the measure `f` over all entries. -/
def total (f : β → ℕ) (m : Finmap fun _ : α => β) : ℕ := (m.entries.map fun e => f e.2).sum

omit [DecidableEq α] in
@[simp] theorem total_empty (f : β → ℕ) : total f (∅ : Finmap fun _ : α => β) = 0 := rfl

/-- If no entry measures more than `c`, all of them do not measure more than `c` for each key. -/
theorem total_le {f : β → ℕ} {c : ℕ} {m : Finmap fun _ : α => β} (h : ∀ a b, m.lookup a = some b → f b ≤ c) :
    total f m ≤ c * m.keys.card := by
  have hentry : ∀ n ∈ m.entries.map (fun e => f e.2), n ≤ c := fun n hn => by
    obtain ⟨e, he, rfl⟩ := Multiset.mem_map.mp hn
    exact h e.1 e.2 (Finmap.lookup_eq_some_iff.mpr he)
  have hsum := Multiset.sum_le_card_nsmul _ c hentry
  have hcard : m.keys.card = Multiset.card m.entries := Multiset.card_map _ _
  rwa [Multiset.card_map, Nat.nsmul_eq_mul, Nat.mul_comm, ← hcard] at hsum

end Peashape.Foundation.FiniteMap

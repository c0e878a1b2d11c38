import Mathlib.Data.List.Rotate
import Mathlib.Data.List.Count
import Mathlib.Tactic.TypeStar

/-!
# Round robin

Turns are taken from a list in order, over and over: turn `c` is that of the item at position
`c`, modulo the length. A run of turns may start anywhere. As many turns in a row as there are
items are the list, rotated, so that each item has exactly one (`turns_perm`); so in `m` times
as many each has exactly `m` (`count_turns`).
-/

namespace Peashape.Foundation.RoundRobin

variable {α : Type*} {l : List α}

/-- Whose turn it is. -/
def turn (l : List α) (hl : 0 < l.length) (c : ℕ) : α := l.get ⟨c % l.length, Nat.mod_lt c hl⟩

/-- The next `m` turns, from turn `c` on. -/
def turns (l : List α) (hl : 0 < l.length) (c m : ℕ) : List α := (List.range m).map fun i => turn l hl (c + i)

variable (hl : 0 < l.length)

@[simp] theorem length_turns (c m : ℕ) : (turns l hl c m).length = m := by simp [turns]

theorem turns_succ (c m : ℕ) : turns l hl c (m + 1) = turn l hl c :: turns l hl (c + 1) m := by
  simp only [turns, List.range_succ_eq_map, List.map_cons, List.map_map, Nat.add_zero]
  congr 1
  refine List.map_congr_left fun i _ => ?_
  show turn l hl (c + (i + 1)) = turn l hl (c + 1 + i)
  rw [Nat.add_assoc, Nat.add_comm 1 i]

theorem turns_add (c m m' : ℕ) : turns l hl c (m + m') = turns l hl c m ++ turns l hl (c + m) m' := by
  simp only [turns, List.range_add, List.map_append, List.map_map]
  congr 1
  refine List.map_congr_left fun i _ => ?_
  show turn l hl (c + (m + i)) = turn l hl (c + m + i)
  rw [Nat.add_assoc]

/-- A part of a run of turns is a run of turns. -/
theorem take_drop_turns (c : ℕ) {m i n : ℕ} (h : i + n ≤ m) :
    ((turns l hl c m).drop i).take n = turns l hl (c + i) n := by
  obtain ⟨rest, rfl⟩ := Nat.exists_eq_add_of_le h
  rw [Nat.add_assoc, turns_add, List.drop_left' (length_turns hl c i), turns_add,
    List.take_left' (length_turns hl (c + i) n)]

/-- A round of turns is the list, from the item whose turn is first. -/
theorem turns_length_eq_rotate (c : ℕ) : turns l hl c l.length = l.rotate c := by
  apply List.ext_getElem
  · simp
  · intro i hi _
    rw [List.getElem_rotate]
    simp [turns, turn, Nat.add_comm c i]

/-- **A round of turns gives each item one**, wherever it starts. -/
theorem turns_perm (c : ℕ) : (turns l hl c l.length).Perm l := by
  rw [turns_length_eq_rotate]
  exact List.rotate_perm l c

/-- **`m` rounds of turns give each item `m`.** -/
theorem count_turns [DecidableEq α] (hnd : l.Nodup) {a : α} (ha : a ∈ l) :
    ∀ (m c : ℕ), (turns l hl c (m * l.length)).count a = m
  | 0, c => by simp [turns]
  | m + 1, c => by
    rw [Nat.succ_mul, Nat.add_comm, turns_add, List.count_append, (turns_perm hl c).count_eq,
      List.count_eq_one_of_mem hnd ha, count_turns hnd ha m, Nat.add_comm]

end Peashape.Foundation.RoundRobin

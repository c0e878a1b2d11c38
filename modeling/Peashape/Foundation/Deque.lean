import Mathlib.Data.List.Perm.Basic
import Mathlib.Data.Nat.Basic
import Mathlib.Tactic.TypeStar

/-!
# Bounded double-ended queues

A deque is the list of its items, front first. This module has the loops by which a
bounded deque makes room for one more item — popping from the back, or from the
front, for as long as the length is at least the capacity — with what each loop
leaves and what it throws away, and the removal of one item at an index taken
modulo the length.

For a positive capacity the loops are `take` and `drop`; from a deque within its
capacity they throw away nothing, or exactly the item at their end.
-/

namespace Peashape.Foundation.Deque

variable {α : Type*} {cap : ℕ} {l : List α}

/-! ### Making room at the back -/

/-- `while cap ≤ l.len() { l.pop_back(); }`, for at most the given number of rounds. -/
def evictBackLoop (cap : ℕ) : ℕ → List α → List α
  | 0, l => l
  | n + 1, l => if cap ≤ l.length then evictBackLoop cap n l.dropLast else l

/-- `while cap ≤ l.len() { l.pop_back(); }`. A deque is empty after as many rounds as it
has items, so for a positive capacity these are enough (`length_evictBack_lt`). -/
def evictBack (cap : ℕ) (l : List α) : List α := evictBackLoop cap l.length l

/-- What `evictBack` throws away, front first. -/
def evictedBack (cap : ℕ) (l : List α) : List α := l.drop (evictBack cap l).length

theorem evictBackLoop_eq_take (h : 0 < cap) :
    ∀ (n : ℕ) (l : List α), l.length ≤ n → evictBackLoop cap n l = l.take (cap - 1) := by
  intro n
  induction n with
  | zero =>
    intro l hl
    rw [List.eq_nil_of_length_eq_zero (Nat.le_zero.mp hl), evictBackLoop, List.take_nil]
  | succ n ih =>
    intro l hl
    rw [evictBackLoop]
    split_ifs with hc
    · rw [ih _ (by simp; omega), List.dropLast_eq_take, List.take_take]
      congr 1
      omega
    · rw [List.take_of_length_le (by omega)]

theorem evictBack_eq_take (h : 0 < cap) (l : List α) : evictBack cap l = l.take (cap - 1) :=
  evictBackLoop_eq_take h _ l le_rfl

/-- There is room afterwards. -/
theorem length_evictBack_lt (h : 0 < cap) (l : List α) : (evictBack cap l).length < cap := by
  rw [evictBack_eq_take h, List.length_take]
  omega

theorem evictBack_append_evictedBack (h : 0 < cap) (l : List α) :
    evictBack cap l ++ evictedBack cap l = l := by
  have hlen : (l.take (cap - 1)).length = min (cap - 1) l.length := List.length_take
  rw [evictedBack, evictBack_eq_take h, hlen]
  rcases Nat.le_total (cap - 1) l.length with hc | hc
  · rw [Nat.min_eq_left hc, List.take_append_drop]
  · rw [Nat.min_eq_right hc, List.drop_length, List.append_nil, List.take_of_length_le hc]

/-- With room already, nothing is thrown away. -/
theorem evictBack_of_lt (h : l.length < cap) : evictBack cap l = l := by
  rw [evictBack_eq_take (by omega), List.take_of_length_le (by omega)]

theorem evictedBack_of_lt (h : l.length < cap) : evictedBack cap l = [] := by
  rw [evictedBack, evictBack_of_lt h, List.drop_length]

/-- At capacity, exactly the last item is thrown away. -/
theorem evictBack_concat {x : α} (h : l.length + 1 = cap) : evictBack cap (l ++ [x]) = l := by
  rw [evictBack_eq_take (by omega), ← h, Nat.add_sub_cancel, List.take_left]

theorem evictedBack_concat {x : α} (h : l.length + 1 = cap) : evictedBack cap (l ++ [x]) = [x] := by
  rw [evictedBack, evictBack_concat h, List.drop_left]

/-- From a deque within its capacity, nothing or exactly the last item is thrown away. -/
theorem evictedBack_eq (h : 0 < cap) (hl : l.length ≤ cap) :
    evictedBack cap l = if l.length = cap then l.getLast?.toList else [] := by
  split_ifs with hc
  · rcases List.eq_nil_or_concat l with rfl | ⟨l, x, rfl⟩
    · exact absurd hc (Nat.ne_of_lt h)
    · rw [List.concat_eq_append] at hc ⊢
      rw [List.length_append, List.length_singleton] at hc
      rw [evictedBack_concat hc, List.getLast?_concat, Option.toList_some]
  · exact evictedBack_of_lt (lt_of_le_of_ne hl hc)

theorem mem_of_mem_evictBack {x : α} (h : 0 < cap) (hx : x ∈ evictBack cap l) : x ∈ l := by
  rw [evictBack_eq_take h] at hx
  exact List.mem_of_mem_take hx

/-! ### Making room at the front -/

/-- `while cap ≤ l.len() { l.pop_front(); }`, for at most the given number of rounds. -/
def evictFrontLoop (cap : ℕ) : ℕ → List α → List α
  | 0, l => l
  | n + 1, l => if cap ≤ l.length then evictFrontLoop cap n l.tail else l

/-- `while cap ≤ l.len() { l.pop_front(); }`. -/
def evictFront (cap : ℕ) (l : List α) : List α := evictFrontLoop cap l.length l

/-- What `evictFront` throws away, front first. -/
def evictedFront (cap : ℕ) (l : List α) : List α := l.take (l.length - (evictFront cap l).length)

theorem evictFrontLoop_eq_drop (h : 0 < cap) : ∀ (n : ℕ) (l : List α), l.length ≤ n →
    evictFrontLoop cap n l = l.drop (l.length - (cap - 1)) := by
  intro n
  induction n with
  | zero =>
    intro l hl
    rw [List.eq_nil_of_length_eq_zero (Nat.le_zero.mp hl), evictFrontLoop, List.drop_nil]
  | succ n ih =>
    intro l hl
    rw [evictFrontLoop]
    split_ifs with hc
    · rw [ih _ (by simp; omega), ← List.drop_one, List.drop_drop, List.length_drop]
      congr 1
      omega
    · rw [Nat.sub_eq_zero_of_le (by omega), List.drop_zero]

theorem evictFront_eq_drop (h : 0 < cap) (l : List α) :
    evictFront cap l = l.drop (l.length - (cap - 1)) :=
  evictFrontLoop_eq_drop h _ l le_rfl

/-- There is room afterwards. -/
theorem length_evictFront_lt (h : 0 < cap) (l : List α) : (evictFront cap l).length < cap := by
  rw [evictFront_eq_drop h, List.length_drop]
  omega

theorem evictedFront_append_evictFront (h : 0 < cap) (l : List α) :
    evictedFront cap l ++ evictFront cap l = l := by
  have hlen : l.length - (l.length - (l.length - (cap - 1))) = l.length - (cap - 1) := by omega
  rw [evictedFront, evictFront_eq_drop h, List.length_drop, hlen, List.take_append_drop]

/-- With room already, nothing is thrown away. -/
theorem evictFront_of_lt (h : l.length < cap) : evictFront cap l = l := by
  rw [evictFront_eq_drop (by omega), Nat.sub_eq_zero_of_le (by omega), List.drop_zero]

theorem evictedFront_of_lt (h : l.length < cap) : evictedFront cap l = [] := by
  rw [evictedFront, evictFront_of_lt h, Nat.sub_self, List.take_zero]

/-- At capacity, exactly the first item is thrown away. -/
theorem evictFront_cons {x : α} (h : l.length + 1 = cap) : evictFront cap (x :: l) = l := by
  rw [evictFront_eq_drop (by omega), List.length_cons, h, show cap - (cap - 1) = 1 by omega,
    List.drop_one, List.tail_cons]

theorem evictedFront_cons {x : α} (h : l.length + 1 = cap) : evictedFront cap (x :: l) = [x] := by
  rw [evictedFront, evictFront_cons h, List.length_cons, Nat.add_sub_cancel_left, List.take_succ_cons,
    List.take_zero]

/-- From a deque within its capacity, nothing or exactly the first item is thrown away. -/
theorem evictedFront_eq (h : 0 < cap) (hl : l.length ≤ cap) :
    evictedFront cap l = if l.length = cap then l.head?.toList else [] := by
  split_ifs with hc
  · obtain ⟨x, l, rfl⟩ := List.exists_cons_of_length_pos (hc ▸ h)
    rw [evictedFront_cons hc, List.head?_cons, Option.toList_some]
  · exact evictedFront_of_lt (lt_of_le_of_ne hl hc)

theorem mem_of_mem_evictFront {x : α} (h : 0 < cap) (hx : x ∈ evictFront cap l) : x ∈ l := by
  rw [evictFront_eq_drop h] at hx
  exact List.mem_of_mem_drop hx

/-! ### Removing one item -/

/-- Remove from the nonempty list `a :: l` the item at index `i`, modulo the length. -/
def removeAt (i : ℕ) (a : α) (l : List α) : α × List α :=
  ((a :: l).get ⟨i % (l.length + 1), Nat.mod_lt _ (Nat.succ_pos _)⟩,
    (a :: l).eraseIdx (i % (l.length + 1)))

/-- The item removed and the rest are the list, in another order. -/
theorem removeAt_perm (i : ℕ) (a : α) (l : List α) :
    ((removeAt i a l).1 :: (removeAt i a l).2).Perm (a :: l) :=
  List.getElem_cons_eraseIdx_perm _

end Peashape.Foundation.Deque

import Peashape.Foundation.Deque
import Mathlib.Data.List.Infix

/-!
# Bounded stacks

A bounded stack drops its last item to make room for a new first one. Beside it runs a stack
without a bound, on which the same items are pushed, and from which an item is popped whenever
one is popped from the bounded stack; a pop made when the bounded stack is empty is ignored,
since the items it would pop have been dropped.

`Below` relates the two: the bounded stack is the top of the unbounded one. It is kept by
every operation (`Below.step`), and as long as it holds, a pop gives the same item
(`Below.head?`). `drops` says what a push throws away.
-/

namespace Peashape.Foundation

/-- An operation on a stack. -/
inductive StackOp (α : Type*) where
  /-- Push an item. -/
  | push (x : α)
  /-- Pop the first item, if there is one. -/
  | pop

namespace BoundedStack

variable {α : Type*} {cap : ℕ} {l t : List α}

/-- An operation on the bounded stack. -/
def step (cap : ℕ) (l : List α) : StackOp α → List α
  | .push x => x :: Deque.evictBack cap l
  | .pop => l.tail

/-- The same operation on the stack `t` beside the bounded stack `l`. -/
def stepBeside (l t : List α) : StackOp α → List α
  | .push x => x :: t
  | .pop => if l = [] then t else t.tail

/-- The bounded stack is the top of the other one, and within its bound. -/
structure Below (cap : ℕ) (l t : List α) : Prop where
  /-- It is the top. -/
  isPrefix : l <+: t
  /-- Its bound. -/
  length_le : l.length ≤ cap

theorem Below.nil : Below cap ([] : List α) [] := ⟨List.prefix_rfl, Nat.zero_le _⟩

/-- **Every operation keeps the relation.** -/
theorem Below.step (hcap : 0 < cap) (h : Below cap l t) (o : StackOp α) :
    Below cap (BoundedStack.step cap l o) (stepBeside l t o) := by
  cases o with
  | push x =>
    constructor
    · show x :: Deque.evictBack cap l <+: x :: t
      rw [Deque.evictBack_eq_take hcap]
      exact List.cons_prefix_cons.mpr ⟨rfl, (List.take_prefix _ l).trans h.isPrefix⟩
    · exact Deque.length_evictBack_lt hcap l
  | pop =>
    obtain ⟨⟨rest, rfl⟩, hlen⟩ := h
    cases l with
    | nil => exact ⟨List.nil_prefix, Nat.zero_le _⟩
    | cons x l =>
      constructor
      · exact List.prefix_append l rest
      · exact (Nat.le_succ _).trans hlen

/-- A pop gives the same item. -/
theorem Below.head? (h : Below cap l t) (hne : l ≠ []) : l.head? = t.head? := by
  obtain ⟨⟨rest, rfl⟩, -⟩ := h
  cases l with
  | nil => exact absurd rfl hne
  | cons x l => rfl

/-- What a push throws away: nothing, or the last item of a full stack. -/
theorem drops (hcap : 0 < cap) (hlen : l.length ≤ cap) :
    (l.length < cap ∧ Deque.evictBack cap l = l) ∨ (l.length = cap ∧ Deque.evictBack cap l = l.dropLast) := by
  rcases Nat.lt_or_eq_of_le hlen with hlt | heq
  · exact .inl ⟨hlt, Deque.evictBack_of_lt hlt⟩
  · refine .inr ⟨heq, ?_⟩
    rw [Deque.evictBack_eq_take hcap, List.dropLast_eq_take, heq]

end BoundedStack

end Peashape.Foundation

import Peashape.Foundation.Machine
import Mathlib.Data.List.Basic

/-!
# Waiting in a queue

An item's place in a queue is the number of items ahead of it, or `none` once it is gone
(`Place`). Appending other items does not change it, and each removal at the front moves it
by one (`advance`): it is removed when there is nothing ahead.

`observe_place` carries this over to the runs of a machine. Some of what the machine shows are
turns of the queue; a turn moves the place, everything else leaves it alone; and then an item
with `k` items ahead is what is shown at turn `k`, counted from `0`, and at no other.
-/

namespace Peashape.Foundation

variable {β : Type*} {f g : β} {l : List β} {k : Option ℕ}

/-- The place after a removal at the front. -/
def advance : Option ℕ → Option ℕ
  | some (j + 1) => some j
  | _ => none

/-- The place of an item that occurs once in the queue, or not at all. -/
def Place (f : β) : Option ℕ → List β → Prop
  | none, l => f ∉ l
  | some j, l => ∃ ahead behind, l = ahead ++ f :: behind ∧ ahead.length = j ∧ f ∉ ahead ∧ f ∉ behind

namespace Place

/-- The place of a new item is behind all the others. -/
theorem concat (h : f ∉ l) : Place f (some l.length) (l ++ [f]) := ⟨l, [], rfl, rfl, h, List.not_mem_nil⟩

/-- Items appended do not change it. -/
theorem append {new : List β} (h : Place f k l) (hnew : f ∉ new) : Place f k (l ++ new) := by
  cases k with
  | none => exact fun hmem => (List.mem_append.mp hmem).elim h hnew
  | some j =>
    obtain ⟨ahead, behind, rfl, hlen, hahead, hbehind⟩ := h
    refine ⟨ahead, behind ++ new, by simp, hlen, hahead, fun hmem => ?_⟩
    exact (List.mem_append.mp hmem).elim hbehind hnew

/-- A removal at the front moves it by one. -/
theorem tail (h : Place f k l) : Place f (advance k) l.tail := by
  cases k with
  | none => exact fun hmem => h (List.mem_of_mem_tail hmem)
  | some j =>
    obtain ⟨_ | ⟨g, ahead⟩, behind, rfl, rfl, hahead, hbehind⟩ := h
    · exact hbehind
    · exact ⟨ahead, behind, rfl, rfl, fun hmem => hahead (List.mem_cons_of_mem g hmem), hbehind⟩

/-- It is the item removed exactly if there is nothing ahead of it. -/
theorem head?_eq_some_iff (h : Place f k l) : l.head? = some f ↔ k = some 0 := by
  cases k with
  | none => exact iff_of_false (fun hhead => h (List.mem_of_head? hhead)) (by simp)
  | some j =>
    obtain ⟨_ | ⟨g, ahead⟩, behind, rfl, rfl, hahead, -⟩ := h
    · exact iff_of_true rfl rfl
    · refine iff_of_false (fun hhead => ?_) (by simp)
      exact hahead (Option.some.inj hhead ▸ List.mem_cons_self)

/-- An empty queue has no items. -/
theorem eq_none_of_nil (h : Place f k ([] : List β)) : k = none := by
  cases k with
  | none => rfl
  | some j =>
    obtain ⟨ahead, behind, hnil, -⟩ := h
    simp at hnil

end Place

/-- To be at the front after one removal is to have one item ahead. -/
theorem advance_eq_some_iff {j : ℕ} : advance k = some j ↔ k = some (j + 1) := by
  rcases k with _ | _ | i <;> simp [advance]

/-- **Waiting in line.** Where a turn of the queue shows the item exactly if nothing is ahead of
it, and moves its place by one, and everything else leaves the place alone, an item is shown at
the turn with the number of its place and at no other. -/
theorem observe_place {σ α ε ι ω : Type*} {f : σ → α → List ε × σ} {vis : α → Option ι} {obs : List ε → ω}
    (turn : ω → Bool) (hit : ω → Prop) (At : Option ℕ → σ → Prop) {I : σ → Prop} {C : σ → α → Prop}
    (hI : ∀ {s a}, I s → C s a → I (f s a).2)
    (silent : ∀ {s a x}, I s → C s a → vis a = none → At x s → At x (f s a).2)
    (passed : ∀ {s a i x}, I s → C s a → vis a = some i → turn (obs (f s a).1) = false →
      At x s → At x (f s a).2)
    (served : ∀ {s a i x}, I s → C s a → vis a = some i → turn (obs (f s a).1) = true → At x s →
      (hit (obs (f s a).1) ↔ x = some 0) ∧ At (advance x) (f s a).2) :
    ∀ {as : List α} {s : σ} {x : Option ℕ}, I s → Always f C s as → At x s →
      ∀ {i o}, ((observe f vis obs s as).filter turn)[i]? = some o → (hit o ↔ x = some i) := by
  intro as
  induction as with
  | nil =>
    intro s x _ _ _ i o ho
    simp [observe] at ho
  | cons a as ih =>
    rintro s x hs ⟨ha, has⟩ hx i o ho
    have hs' := hI hs ha
    cases hv : vis a with
    | none =>
      simp only [observe, hv] at ho
      exact ih hs' has (silent hs ha hv hx) ho
    | some j =>
      simp only [observe, hv] at ho
      cases ht : turn (obs (f s a).1) with
      | false =>
        rw [List.filter_cons_of_neg (by simp [ht])] at ho
        exact ih hs' has (passed hs ha hv ht hx) ho
      | true =>
        rw [List.filter_cons_of_pos ht] at ho
        obtain ⟨hhit, hnext⟩ := served hs ha hv ht hx
        cases i with
        | zero =>
          obtain rfl : obs (f s a).1 = o := by simpa using ho
          exact hhit
        | succ i => exact (ih hs' has hnext (by simpa using ho)).trans advance_eq_some_iff

end Peashape.Foundation

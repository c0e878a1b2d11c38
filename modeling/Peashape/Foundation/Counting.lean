import Mathlib.Data.List.Infix
import Mathlib.Logic.Function.Iterate

/-!
# Lists that count

The entries of a list carry numbers, or whatever else has a successor, and each carries the
successor of what the one before it carries. `Counts` says so, from a given number on. A list
that counts still does so when it is cut (`Counts.stretch`), and two of them can be joined
where the second goes on with the count (`counts_append_iff`).
-/

namespace Peashape.Foundation

variable {α β H : Type*} {read : α → Option H} {succ : H → H} {h : H} {xs ys : List α}

/-- The entries carry `h`, its successor, and so on. -/
def Counts (read : α → Option H) (succ : H → H) : H → List α → Prop
  | _, [] => True
  | h, x :: xs => read x = some h ∧ Counts read succ (succ h) xs

theorem counts_append_iff : ∀ {h : H} {xs : List α},
    Counts read succ h (xs ++ ys) ↔ Counts read succ h xs ∧ Counts read succ (succ^[xs.length] h) ys
  | _, [] => (iff_of_eq (true_and _)).symm
  | h, x :: xs => by
    have ih := @counts_append_iff (succ h) xs
    rw [List.cons_append, Counts, Counts, List.length_cons, Function.iterate_succ_apply, ih, and_assoc]

/-- What entry `i` carries. -/
theorem Counts.getElem? : ∀ {h : H} {xs : List α}, Counts read succ h xs → ∀ {i : ℕ} {x : α}, xs[i]? = some x →
    read x = some (succ^[i] h)
  | h, y :: xs, hc, 0, x, hx => by
    cases hx
    exact hc.1
  | h, y :: xs, hc, i + 1, x, hx => by
    rw [Function.iterate_succ_apply]
    exact hc.2.getElem? hx

/-- A stretch of a list that counts. -/
theorem Counts.stretch (hc : Counts read succ h ys) (hsub : xs <:+: ys) : ∃ n, Counts read succ (succ^[n] h) xs := by
  obtain ⟨before, after, rfl⟩ := hsub
  rw [List.append_assoc, counts_append_iff, counts_append_iff] at hc
  exact ⟨before.length, hc.2.1⟩

/-- Entries that carry what others are mapped to. -/
theorem counts_map_iff {read : β → Option H} (f : α → β) : ∀ {h : H} {xs : List α},
    Counts read succ h (xs.map f) ↔ Counts (fun x => read (f x)) succ h xs
  | _, [] => Iff.rfl
  | _, _ :: _ => and_congr_right fun _ => counts_map_iff f

end Peashape.Foundation

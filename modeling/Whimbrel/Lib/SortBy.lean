import Mathlib.Data.List.Sort
import Mathlib.Data.List.TakeWhile

/-! A stable sort by a key.

Elements with equal keys keep the order they had. -/

set_option autoImplicit false

namespace SortBy

variable {α κ : Type} [LinearOrder κ] (key : α → κ)

def sortBy (l : List α) : List α := l.insertionSort fun a b => key a ≤ key b

theorem sortBy_perm (l : List α) : (sortBy key l).Perm l := List.perm_insertionSort _ l

theorem sortBy_sorted (l : List α) : (sortBy key l).Pairwise fun a b => key a ≤ key b := by
  have : Std.Total fun a b : α => key a ≤ key b := ⟨fun a b => le_total (key a) (key b)⟩
  have : IsTrans α fun a b => key a ≤ key b := ⟨fun _ _ _ => le_trans⟩
  exact List.pairwise_insertionSort _ l

/-- The elements of one key are those of the list, in its order. -/
theorem sortBy_stable (l : List α) (k : κ) : (sortBy key l).filter (key · = k) = l.filter (key · = k) := by
  induction l with
  | nil => rfl
  | cons a l ih =>
    have split : sortBy key (a :: l) = (sortBy key l).takeWhile (fun b => ¬ key a ≤ key b) ++
        a :: (sortBy key l).dropWhile fun b => ¬ key a ≤ key b :=
      List.orderedInsert_eq_take_drop _ a (sortBy key l)
    rw [← List.takeWhile_append_dropWhile (p := fun b => ¬ key a ≤ key b) (l := sortBy key l), List.filter_append] at ih
    rw [split, List.filter_append]
    by_cases same : key a = k
    · -- what stands before it has a smaller key
      have before : ((sortBy key l).takeWhile fun b => ¬ key a ≤ key b).filter (key · = k) = [] := by
        apply List.filter_eq_nil_iff.mpr
        intro b mem equal
        have less := List.mem_takeWhile_imp mem
        simp only [decide_eq_true_eq] at less equal
        exact less (le_of_eq (same.trans equal.symm))
      rw [before, List.nil_append] at ih ⊢
      rw [List.filter_cons, List.filter_cons, ih]
    · simp only [List.filter_cons, same, decide_false, Bool.false_eq_true, if_false, ih]

end SortBy

import Mathlib.Algebra.BigOperators.Group.List.Basic
import Mathlib.Algebra.Order.Field.Rat
import Mathlib.Data.List.Count
import Mathlib.Tactic.Linarith
import Mathlib.Tactic.Ring

/-! Mid-ranks in a list of values that may repeat.

The mid-rank of a value is the mean of the positions its copies take in sorted order,
counted from one. -/

set_option autoImplicit false

namespace Ranks

variable {α β : Type} [LinearOrder α] [LinearOrder β]

def below (v : List α) (x : α) : Nat := v.countP (· < x)

def midRank (v : List α) (x : α) : ℚ := below v x + (v.count x + 1 : ℚ) / 2

theorem below_perm {v w : List α} (perm : v.Perm w) (x : α) : below v x = below w x := perm.countP_eq _

theorem midRank_perm {v w : List α} (perm : v.Perm w) (x : α) : midRank v x = midRank w x := by
  rw [midRank, midRank, below_perm perm, perm.count_eq]

theorem midRank_of_perm {v low ties high : List α} {x : α} (perm : v.Perm (low ++ ties ++ high))
    (lows : ∀ y ∈ low, y < x) (same : ∀ y ∈ ties, y = x) (highs : ∀ y ∈ high, x < y) :
    midRank v x = low.length + (ties.length + 1 : ℚ) / 2 := by
  have lowCount : below (low ++ ties ++ high) x = low.length := by
    have all : low.countP (· < x) = low.length :=
      List.countP_eq_length.mpr fun y mem => decide_eq_true (lows y mem)
    have none : ties.countP (· < x) = 0 :=
      List.countP_eq_zero.mpr fun y mem => by simp [same y mem]
    have above : high.countP (· < x) = 0 :=
      List.countP_eq_zero.mpr fun y mem => by simp [le_of_lt (highs y mem)]
    rw [below, List.countP_append, List.countP_append, all, none, above]
    rfl
  have tieCount : (low ++ ties ++ high).count x = ties.length := by
    have all : ties.count x = ties.length := List.count_eq_length.mpr fun y mem => (same y mem).symm
    have before : low.count x = 0 := List.count_eq_zero.mpr fun mem => lt_irrefl x (lows x mem)
    have after : high.count x = 0 := List.count_eq_zero.mpr fun mem => lt_irrefl x (highs x mem)
    rw [List.count_append, List.count_append, all, before, after, Nat.zero_add, Nat.add_zero]
  rw [midRank_perm perm, midRank, lowCount, tieCount]

/-- A transformation that keeps the strict order of the values keeps their ranks. -/
theorem midRank_map {v : List α} {f : α → β} (rising : StrictMonoOn f {y | y ∈ v}) {x : α} (mem : x ∈ v) :
    midRank (v.map f) (f x) = midRank v x := by
  have lower : below (v.map f) (f x) = below v x := by
    rw [below, below, List.countP_map]
    refine List.countP_congr fun y inside => ?_
    simp only [Function.comp, decide_eq_true_eq]
    exact rising.lt_iff_lt inside mem
  have ties : (v.map f).count (f x) = v.count x := by
    rw [List.count, List.count, List.countP_map]
    refine List.countP_congr fun y inside => ?_
    simp only [Function.comp, beq_iff_eq]
    exact rising.injOn.eq_iff inside mem
  rw [midRank, midRank, lower, ties]

theorem count_cons_cases (v : List α) (y x : α) :
    below (y :: v) x = below v x + 1 ∧ (y :: v).count x = v.count x ∧ y < x ∨
    below (y :: v) x = below v x ∧ (y :: v).count x = v.count x + 1 ∧ y = x ∨
    below (y :: v) x = below v x ∧ (y :: v).count x = v.count x ∧ x < y := by
  rcases lt_trichotomy y x with less | same | more
  · refine .inl ⟨?_, List.count_cons_of_ne (ne_of_lt less), less⟩
    exact List.countP_cons_of_pos (decide_eq_true less)
  · refine .inr (.inl ⟨?_, ?_, same⟩)
    · exact List.countP_cons_of_neg (by simp [same])
    · rw [same, List.count_cons_self]
  · refine .inr (.inr ⟨?_, List.count_cons_of_ne (ne_of_gt more), more⟩)
    exact List.countP_cons_of_neg (by simp [le_of_lt more])

def above (v : List α) (x : α) : Nat := v.countP (x < ·)

theorem count_three (v : List α) (x : α) : below v x + v.count x + above v x = v.length := by
  induction v with
  | nil => rfl
  | cons y v ih =>
    have larger : above (y :: v) x = above v x + if x < y then 1 else 0 := by
      simp only [above, List.countP_cons, decide_eq_true_eq]
    rw [larger, List.length_cons]
    rcases count_cons_cases v y x with ⟨lower, ties, less⟩ | ⟨lower, ties, same⟩ | ⟨lower, ties, more⟩
    · rw [if_neg (not_lt_of_gt less)]
      omega
    · rw [if_neg (by simp [same])]
      omega
    · rw [if_pos more]
      omega

theorem sum_counts (v : List α) : (v.map fun x => 2 * below v x + v.count x).sum = v.length * v.length := by
  induction v with
  | nil => rfl
  | cons y v ih =>
    -- the new value adds to the counts of those it is below or equal to
    have grown (w : List α) : (w.map fun x => 2 * below (y :: v) x + (y :: v).count x).sum =
        (w.map fun x => 2 * below v x + v.count x).sum + (2 * above w y + w.count y) := by
      induction w with
      | nil => rfl
      | cons x w inner =>
        have larger : above (x :: w) y = above w y + if y < x then 1 else 0 := by
          simp only [above, List.countP_cons, decide_eq_true_eq]
        have ties : (x :: w).count y = w.count y + if y = x then 1 else 0 := by
          simp only [List.count_cons, beq_iff_eq, @eq_comm α x y]
        rw [List.map_cons, List.sum_cons, inner, List.map_cons, List.sum_cons, larger, ties]
        rcases count_cons_cases v y x with ⟨lower, same, less⟩ | ⟨lower, same, rfl⟩ | ⟨lower, same, more⟩
        · rw [lower, same, if_pos less, if_neg (ne_of_lt less)]
          omega
        · rw [lower, same, if_neg (lt_irrefl y), if_pos rfl]
          omega
        · rw [lower, same, if_neg (not_lt_of_gt more), if_neg (ne_of_gt more)]
          omega
    have three := count_three v y
    have lower : below (y :: v) y = below v y := List.countP_cons_of_neg (by simp)
    rw [List.map_cons, List.sum_cons, grown, ih, List.length_cons, lower, List.count_cons_self, ← three]
    ring

theorem sum_midRank (v : List α) : (v.map (midRank v)).sum = v.length * (v.length + 1 : ℚ) / 2 := by
  have doubled (w : List α) : (w.map (midRank v)).sum * 2 =
      ((w.map fun x => 2 * below v x + v.count x).sum : Nat) + w.length := by
    induction w with
    | nil => simp
    | cons x w ih =>
      simp only [List.map_cons, List.sum_cons, List.length_cons, midRank] at ih ⊢
      push_cast at ih ⊢
      linarith
  have twice := doubled v
  rw [sum_counts] at twice
  push_cast at twice
  linarith

end Ranks

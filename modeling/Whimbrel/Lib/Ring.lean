import Mathlib.Data.Fin.Basic
import Mathlib.Data.ZMod.Defs
import Mathlib.Logic.Function.Basic

/-! Rings that overwrite their oldest slot.

A ring of `n` slots holds the first `n` elements of a list kept newest first. The
slot written next holds the oldest of them once the ring is full. -/

set_option autoImplicit false

namespace Ring

variable {A : Type} {n : Nat} [NeZero n]

/-- The slot written `k` writes before the last one holds the element with `k` newer ones. -/
def Holds (slot : Fin n → Option A) (next : Fin n) (l : List A) : Prop := ∀ k : Fin n, slot (next - 1 - k) = l[k.val]?

variable {slot : Fin n → Option A} {next : Fin n} {l : List A} {a : A}

theorem Holds.at (holds : Holds slot next l) (i : Fin n) : slot i = l[(next - 1 - i).val]? := by
  have back := holds (next - 1 - i)
  rwa [sub_sub_cancel] at back

theorem Holds.push (holds : Holds slot next l) (a : A) : Holds (Function.update slot next (some a)) (next + 1) (a :: l) := by
  intro k
  rw [add_sub_cancel_right]
  by_cases first : k = 0
  · rw [first, sub_zero, Function.update_self]
    rfl
  · have other : next - k ≠ next := fun same => first (sub_eq_self.mp same)
    have back := holds (k - 1)
    rw [sub_sub, add_sub_cancel] at back
    obtain ⟨j, rest⟩ : ∃ j, k.val = j + 1 := Nat.exists_eq_succ_of_ne_zero fun zero => first (Fin.ext zero)
    rw [Fin.val_sub_one_of_ne_zero first] at back
    rw [Function.update_of_ne other, back, rest]
    rfl

/-- What is in a slot is one of the newest `n`. -/
theorem Holds.mem_iff (holds : Holds slot next l) : (∃ i, slot i = some a) ↔ a ∈ l.take n := by
  rw [List.mem_iff_getElem?]
  constructor
  · rintro ⟨i, there⟩
    refine ⟨(next - 1 - i).val, ?_⟩
    rw [List.getElem?_take_of_lt (Fin.isLt _), ← holds.at, there]
  · rintro ⟨k, there⟩
    have small : k < n := by
      by_contra large
      rw [List.getElem?_take_eq_none (Nat.le_of_not_lt large)] at there
      cases there
    rw [List.getElem?_take_of_lt small] at there
    exact ⟨next - 1 - ⟨k, small⟩, (holds ⟨k, small⟩).trans there⟩

/-- The slot written next holds the oldest of a full ring. -/
theorem Holds.oldest (holds : Holds slot next l) : slot next = l[n - 1]? := by
  have back := holds.at next
  rw [sub_right_comm, sub_self] at back
  have last : ((0 : Fin n) - 1).val = n - 1 := by
    obtain ⟨m, rfl⟩ := Nat.exists_eq_succ_of_ne_zero (NeZero.ne n)
    rw [zero_sub]
    exact Fin.coe_neg_one
  rwa [last] at back

theorem Holds.injective (holds : Holds slot next l) (nodup : (l.take n).Nodup) {i j : Fin n} (left : slot i = some a)
    (right : slot j = some a) : i = j := by
  have position {i : Fin n} (there : slot i = some a) : (l.take n)[(next - 1 - i).val]? = some a := by
    rw [List.getElem?_take_of_lt (Fin.isLt _), ← holds.at, there]
  have first := position left
  have same := (List.getElem?_inj (List.getElem?_eq_some_iff.mp first).1 nodup).mp (first.trans (position right).symm)
  have back := Fin.ext same
  rwa [sub_right_inj] at back

end Ring

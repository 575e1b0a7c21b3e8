import Mathlib.Data.Nat.ModEq

/-! One's-complement sums.

A sum of digits in base `m + 1` is reduced by adding its carry back in. What is left
is the residue modulo `m`, with `m` itself for every sum that is a positive
multiple of `m`. -/

set_option autoImplicit false

namespace OnesComplement

def carry (m n : Nat) : Nat := n % (m + 1) + n / (m + 1)

/-- The residue of a sum: zero only for zero. -/
def residue (m n : Nat) : Nat := if n = 0 then 0 else (n - 1) % m + 1

variable {m : Nat}

theorem carry_modEq (n : Nat) : carry m n ≡ n [MOD m] := by
  have split : m * (n / (m + 1)) + carry m n = n := by
    rw [carry, ← Nat.add_assoc, Nat.add_right_comm, ← Nat.succ_mul]
    exact Nat.div_add_mod n (m + 1)
  calc carry m n ≡ m * (n / (m + 1)) + carry m n [MOD m] := by
        rw [Nat.ModEq, Nat.mul_add_mod]
    _ = n := split

theorem carry_eq_zero_iff {n : Nat} : carry m n = 0 ↔ n = 0 := by
  constructor
  · intro none
    obtain ⟨low, high⟩ := Nat.add_eq_zero_iff.mp none
    have split := Nat.div_add_mod n (m + 1)
    rw [low, high] at split
    omega
  · rintro rfl
    simp [carry]

section
variable {n k : Nat}

@[simp] theorem residue_zero : residue m 0 = 0 := rfl

theorem residue_eq_zero_iff : residue m n = 0 ↔ n = 0 := by
  rw [residue]
  split <;> omega

theorem residue_le (pos : 0 < m) : residue m n ≤ m := by
  rw [residue]
  split
  · exact Nat.zero_le m
  · exact Nat.mod_lt _ pos

theorem residue_modEq : residue m n ≡ n [MOD m] := by
  rw [residue]
  split
  · rename_i zero
    rw [zero]
  · rename_i nonzero
    calc (n - 1) % m + 1 ≡ n - 1 + 1 [MOD m] := (Nat.mod_modEq (n - 1) m).add_right 1
      _ = n := Nat.succ_pred_eq_of_ne_zero nonzero

theorem eq_residue (pos : 0 < m) (small : k ≤ m) (congruent : k ≡ n [MOD m]) (zero : k = 0 ↔ n = 0) : k = residue m n := by
  by_cases none : n = 0
  · rw [zero.mpr none, none, residue_zero]
  · have some : k ≠ 0 := fun none' => none (zero.mp none')
    have some' : residue m n ≠ 0 := fun none' => none (residue_eq_zero_iff.mp none')
    have bound : residue m n ≤ m := residue_le pos
    -- both lie in `1, …, m`, so their predecessors are below `m`
    have same : k - 1 ≡ residue m n - 1 [MOD m] := by
      refine Nat.ModEq.add_right_cancel' 1 ?_
      rw [Nat.sub_add_cancel (Nat.pos_of_ne_zero some), Nat.sub_add_cancel (Nat.pos_of_ne_zero some')]
      exact congruent.trans residue_modEq.symm
    have equal := same.eq_of_lt_of_lt (by omega) (by omega)
    omega

/-- Adding the carry back in keeps the residue. -/
theorem residue_carry (pos : 0 < m) : residue m (carry m n) = residue m n :=
  eq_residue pos (residue_le pos) (residue_modEq.trans (carry_modEq n)) (residue_eq_zero_iff.trans carry_eq_zero_iff)

theorem residue_of_le (pos : 0 < m) (small : n ≤ m) : residue m n = n := (eq_residue pos small rfl Iff.rfl).symm

theorem residue_eq_self_iff (pos : 0 < m) : residue m n = m ↔ n ≠ 0 ∧ n ≡ 0 [MOD m] := by
  constructor
  · intro full
    refine ⟨fun none => ?_, ?_⟩
    · rw [none, residue_zero] at full
      omega
    · calc n ≡ residue m n [MOD m] := residue_modEq.symm
        _ ≡ 0 [MOD m] := by rw [full, Nat.ModEq, Nat.mod_self, Nat.zero_mod]
  · rintro ⟨some, multiple⟩
    refine (eq_residue pos (Nat.le_refl m) ?_ ⟨fun none => by omega, fun none => absurd none some⟩).symm
    calc m ≡ 0 [MOD m] := by rw [Nat.ModEq, Nat.mod_self, Nat.zero_mod]
      _ ≡ n [MOD m] := multiple.symm

/-- The complement of the residue makes the sum a positive multiple. -/
theorem residue_add_complement (pos : 0 < m) : residue m (n + (m - residue m n)) = m := by
  have bound : residue m n ≤ m := residue_le pos
  rw [residue_eq_self_iff pos]
  constructor
  · intro none
    have zero : residue m n = 0 := by rw [(Nat.add_eq_zero_iff.mp none).1, residue_zero]
    omega
  · calc n + (m - residue m n) ≡ residue m n + (m - residue m n) [MOD m] := residue_modEq.symm.add_right _
      _ = m := Nat.add_sub_cancel' bound
      _ ≡ 0 [MOD m] := by rw [Nat.ModEq, Nat.mod_self, Nat.zero_mod]

theorem residue_ne_of_close (pos : 0 < m) (full : residue m n = m) (distinct : n ≠ k) (near : n < k + m) (near' : k < n + m) :
    residue m k ≠ m := by
  intro full'
  obtain ⟨-, left⟩ := (residue_eq_self_iff pos).mp full
  obtain ⟨-, right⟩ := (residue_eq_self_iff pos).mp full'
  have congruent : n ≡ k [MOD m] := left.trans right.symm
  rcases Nat.lt_or_gt_of_ne distinct with less | less
  · have divides := (Nat.modEq_iff_dvd' (Nat.le_of_lt less)).mp congruent
    exact absurd (Nat.le_of_dvd (Nat.sub_pos_of_lt less) divides) (by omega)
  · have divides := (Nat.modEq_iff_dvd' (Nat.le_of_lt less)).mp congruent.symm
    exact absurd (Nat.le_of_dvd (Nat.sub_pos_of_lt less) divides) (by omega)

end

end OnesComplement

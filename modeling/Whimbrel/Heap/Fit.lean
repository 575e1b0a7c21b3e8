import Whimbrel.Heap.FreeList

/-! What fits in a free block: `align_up` and one round of `try_alloc` of `src/heap.rs`. -/

set_option autoImplicit false

namespace Whimbrel.Heap

open Checked Blocks Linked

def roundUp (x align : Nat) : Nat := (x + (align - 1)) / align * align

section
variable {x y align : Nat}

theorem roundUp_mod : roundUp x align % align = 0 := Nat.mul_mod_left ..

theorem le_roundUp (pos : 0 < align) : x ≤ roundUp x align := by
  have split := Nat.div_add_mod' (x + (align - 1)) align
  have small := Nat.mod_lt (x + (align - 1)) pos
  rw [roundUp]
  omega

theorem roundUp_le (pos : 0 < align) (multiple : y % align = 0) (above : x ≤ y) : roundUp x align ≤ y := by
  obtain ⟨k, rfl⟩ := Nat.dvd_of_mod_eq_zero multiple
  rw [roundUp, Nat.mul_comm align k]
  refine Nat.mul_le_mul_right align (Nat.lt_succ_iff.mp (Nat.div_lt_of_lt_mul ?_))
  rw [Nat.mul_succ]
  omega

theorem roundUp_mono (le : x ≤ y) : roundUp x align ≤ roundUp y align :=
  Nat.mul_le_mul_right align (Nat.div_le_div_right (Nat.add_le_add_right le _))

theorem roundUp_of_mod (pos : 0 < align) (multiple : x % align = 0) : roundUp x align = x :=
  Nat.le_antisymm (roundUp_le pos multiple (Nat.le_refl x)) (le_roundUp pos)

/-- Where the sum of `align_up` overflows there is no multiple below `2 ^ 64`. -/
theorem roundUp_large (power : align.isPowerOfTwo) (pos : 0 < x) (large : 2 ^ 64 ≤ x + (align - 1)) :
    2 ^ 64 ≤ roundUp x align := by
  obtain ⟨k, rfl⟩ := power
  rcases Nat.le_total k 64 with low | high
  · obtain ⟨n, whole⟩ : ∃ n, 2 ^ 64 = n * 2 ^ k := ⟨2 ^ (64 - k), by rw [← Nat.pow_add, Nat.sub_add_cancel low]⟩
    rw [whole] at large ⊢
    exact Nat.mul_le_mul_right _ ((Nat.le_div_iff_mul_le (Nat.two_pow_pos k)).mpr large)
  · have one : 1 * 2 ^ k ≤ roundUp x (2 ^ k) := by
      refine Nat.mul_le_mul_right _ ((Nat.le_div_iff_mul_le (Nat.two_pow_pos k)).mpr ?_)
      have some := Nat.two_pow_pos k
      omega
    rw [Nat.one_mul] at one
    exact Nat.le_trans (Nat.pow_le_pow_right (by decide) high) one

theorem alignUp_eq (power : align.isPowerOfTwo) :
    alignUp x align = if x + (align - 1) < 2 ^ 64 then some (roundUp x align) else none := by
  obtain ⟨k, rfl⟩ := power
  have ne : ¬ (2 ^ k = 0 ∨ ¬ (2 ^ k).isPowerOfTwo) :=
    not_or.mpr ⟨Nat.ne_of_gt (Nat.two_pow_pos k), not_not.mpr ⟨k, rfl⟩⟩
  rw [alignUp, if_neg ne]
  dsimp only
  rw [checkedAdd]
  split
  · dsimp only [Option.map_some]
    rw [Nat.and_two_pow_sub_one_eq_mod, roundUp]
    have split := Nat.div_add_mod' (x + (2 ^ k - 1)) (2 ^ k)
    refine congrArg some ?_
    omega
  · rfl

theorem roundUp_word (power : align.isPowerOfTwo) (word : x % 8 = 0) : roundUp x align % 8 = 0 := by
  obtain ⟨k, rfl⟩ := power
  rcases Nat.le_total k 3 with low | high
  · have divides : 2 ^ k ∣ 8 := Nat.pow_dvd_pow 2 low
    rw [roundUp_of_mod (Nat.two_pow_pos k) (Nat.mod_eq_zero_of_dvd (Nat.dvd_trans divides (Nat.dvd_of_mod_eq_zero word)))]
    exact word
  · have divides : 8 ∣ 2 ^ k := Nat.pow_dvd_pow 2 high
    exact Nat.mod_eq_zero_of_dvd (Nat.dvd_trans divides (Nat.dvd_of_mod_eq_zero roundUp_mod))

end

/-- The least pointer in a block that starts at `start`. -/
def userAt (start align : Nat) : Nat := roundUp (start + 16) align

def takenAt (start align size : Nat) : Nat := roundUp (userAt start align + size) 8

/-- A pointer that a block has room for. -/
structure Admits (b : Block) (align size u : Nat) : Prop where
  aligned : u % align = 0
  above : b.start + 16 ≤ u
  room : roundUp (u + size) 8 ≤ b.stop

section
variable {start fin align size : Nat} {b : Block}

theorem userAt_above (power : align.isPowerOfTwo) : start + 16 ≤ userAt start align := le_roundUp (Nat.pos_of_isPowerOfTwo power)

theorem takenAt_above : userAt start align + size ≤ takenAt start align size := le_roundUp (by decide)

theorem takenAt_mono {other : Nat} (le : start ≤ other) : takenAt start align size ≤ takenAt other align size :=
  roundUp_mono (Nat.add_le_add_right (roundUp_mono (Nat.add_le_add_right le 16)) size)

/-- A block admits a pointer where the least one has room. -/
theorem admits_iff (power : align.isPowerOfTwo) : (∃ u, Admits b align size u) ↔ takenAt b.start align size ≤ b.stop := by
  have pos := Nat.pos_of_isPowerOfTwo power
  constructor
  · rintro ⟨u, fits⟩
    have least : userAt b.start align ≤ u := roundUp_le pos fits.aligned fits.above
    exact Nat.le_trans (roundUp_mono (Nat.add_le_add_right least size)) fits.room
  · intro room
    exact ⟨userAt b.start align, roundUp_mod, userAt_above power, room⟩

theorem fit_cases (power : align.isPowerOfTwo) (small : fin < 2 ^ 64) :
    (takenAt start align size ≤ fin ∧
      fit start fin align size = .take (userAt start align) (userAt start align - 16) (takenAt start align size)) ∨
    (fin < takenAt start align size ∧ fit start fin align size = .skip) ∨
    (2 ^ 64 ≤ takenAt start align size ∧ fit start fin align size = .stop) := by
  have above := @userAt_above start align power
  have taken := @takenAt_above start align size
  rw [fit, checkedAdd, header]
  by_cases base : start + 16 < 2 ^ 64
  · rw [if_pos base]
    dsimp only
    rw [alignUp_eq power]
    by_cases aligned : start + 16 + (align - 1) < 2 ^ 64
    · rw [if_pos aligned]
      dsimp only
      rw [show roundUp (start + 16) align = userAt start align from rfl, if_neg (by omega), checkedAdd]
      by_cases payload : userAt start align + size < 2 ^ 64
      · rw [if_pos payload]
        dsimp only
        rw [alignUp_eq (by decide), headerAlign]
        by_cases whole : userAt start align + size + (8 - 1) < 2 ^ 64
        · rw [if_pos whole]
          dsimp only
          rw [show roundUp (userAt start align + size) 8 = takenAt start align size from rfl]
          by_cases room : takenAt start align size ≤ fin
          · exact .inl ⟨room, if_neg (Nat.not_lt.mpr room)⟩
          · exact .inr (.inl ⟨Nat.not_le.mp room, if_pos (Nat.not_le.mp room)⟩)
        · rw [if_neg whole]
          exact .inr (.inr ⟨roundUp_large ⟨3, rfl⟩ (by omega) (Nat.not_lt.mp whole), rfl⟩)
      · rw [if_neg payload]
        exact .inr (.inr ⟨by omega, rfl⟩)
    · -- `align_up` gives `None`: this skips the block, although no later one can do better.
      have large : 2 ^ 64 ≤ userAt start align := roundUp_large power (by omega) (Nat.not_lt.mp aligned)
      rw [if_neg aligned]
      exact .inr (.inl ⟨by omega, rfl⟩)
  · rw [if_neg base]
    exact .inr (.inl ⟨by omega, rfl⟩)

def Fit.Means (start fin align size : Nat) : Fit → Prop
  | .skip => fin < takenAt start align size
  | .stop => 2 ^ 64 ≤ takenAt start align size
  | .take user hdr takenEnd => takenAt start align size ≤ fin ∧ user = userAt start align ∧
      hdr = userAt start align - 16 ∧ takenEnd = takenAt start align size

theorem fit_means (power : align.isPowerOfTwo) (small : fin < 2 ^ 64) :
    (fit start fin align size).Means start fin align size := by
  rcases @fit_cases start fin align size power small with ⟨room, is⟩ | ⟨short, is⟩ | ⟨large, is⟩
  · rw [is]
    exact ⟨room, rfl, rfl, rfl⟩
  · rw [is]
    exact short
  · rw [is]
    exact large

end

end Whimbrel.Heap

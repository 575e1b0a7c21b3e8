import Whimbrel.Base
import Whimbrel.Lib.OnesComplement

/-! Internet checksum (RFC 1071): `src/checksum.rs`. -/

set_option autoImplicit false

namespace Whimbrel.Checksum

/-- `while sum > 0xffff`, at most `fuel` rounds of the body. -/
def foldLoop : Nat → U32 → U32
  | 0, sum => sum
  | fuel + 1, sum => if sum > 0xffff then foldLoop fuel ((sum &&& (0xffff : U32)) + sum >>> 16) else sum

def fold (sum : U32) : U16 := (foldLoop 2 sum).setWidth 16

/-- The big-endian words are added to `acc` without folding; an odd last byte is
the high half of a padded word. -/
def accumulate (acc : U32) : List U8 → U32
  | a :: b :: rest => accumulate (acc + (a ++ b).setWidth 32) rest
  | [a] => acc + (a.setWidth 32 <<< 8)
  | [] => acc

def sum (data : List U8) : U16 := fold (accumulate 0 data)

def checksum (data : List U8) : U16 := ~~~ sum data

def valid (data : List U8) : Bool := sum data == 0xffff

theorem round_toNat (sum : U32) :
    ((sum &&& (0xffff : U32)) + sum >>> 16).toNat = sum.toNat % 65536 + sum.toNat / 65536 := by
  have low : (sum &&& (0xffff : U32)).toNat = sum.toNat % 65536 := by
    rw [BitVec.toNat_and]
    exact Nat.and_two_pow_sub_one_eq_mod sum.toNat 16
  have high : (sum >>> 16).toNat = sum.toNat / 65536 := by
    simp [BitVec.toNat_ushiftRight, Nat.shiftRight_eq_div_pow]
  have bound := sum.isLt
  rw [BitVec.toNat_add, low, high]
  omega

theorem foldLoop_done (sum : U32) : ¬ foldLoop 2 sum > 0xffff := by
  have bound := sum.isLt
  have once := round_toNat sum
  have twice := round_toNat ((sum &&& (0xffff : U32)) + sum >>> 16)
  simp only [foldLoop, gt_iff_lt, BitVec.lt_def]
  split
  · split
    · rw [twice, once]
      simp
      omega
    · assumption
  · assumption

open OnesComplement

/-- The 16-bit big-endian words, an odd last byte padded on the right. -/
def wordSum : List U8 → Nat
  | a :: b :: rest => 256 * a.toNat + b.toNat + wordSum rest
  | [a] => 256 * a.toNat
  | [] => 0

theorem toNat_word (a b : U8) : ((a ++ b).setWidth 32).toNat = 256 * a.toNat + b.toNat := by
  have high := a.isLt
  have low := b.isLt
  have joined : (a ++ b).toNat = 256 * a.toNat + b.toNat := by
    rw [BitVec.toNat_append, ← Nat.shiftLeft_add_eq_or_of_lt low, Nat.shiftLeft_eq, Nat.mul_comm]
  rw [BitVec.toNat_setWidth, joined]
  omega

section
variable {acc : U32} {d x y : List U8} {b c : U8}

theorem accumulate_toNat : (accumulate acc d).toNat = (acc.toNat + wordSum d) % 2 ^ 32 := by
  induction acc, d using accumulate.induct with
  | case1 acc a b rest ih =>
    rw [accumulate, ih, wordSum, BitVec.toNat_add, toNat_word]
    omega
  | case2 acc a =>
    have bound := a.isLt
    rw [accumulate, wordSum, BitVec.toNat_add, BitVec.toNat_shiftLeft, BitVec.toNat_setWidth, Nat.shiftLeft_eq]
    omega
  | case3 acc => exact (Nat.mod_eq_of_lt acc.isLt).symm

theorem wordSum_le : wordSum d ≤ 65535 * ((d.length + 1) / 2) := by
  induction d using wordSum.induct with
  | case1 a b rest ih =>
    have high := a.isLt
    have low := b.isLt
    rw [wordSum, List.length_cons, List.length_cons]
    omega
  | case2 a =>
    have high := a.isLt
    rw [wordSum, List.length_singleton]
    omega
  | case3 => exact Nat.zero_le _

/-- Nothing is lost while the bytes are few enough. -/
theorem accumulate_exact (room : acc.toNat + 65535 * ((d.length + 1) / 2) < 2 ^ 32) :
    (accumulate acc d).toNat = acc.toNat + wordSum d := by
  have bound := @wordSum_le d
  rw [accumulate_toNat, Nat.mod_eq_of_lt (by omega)]

theorem accumulate_append (even : x.length % 2 = 0) : accumulate (accumulate acc x) y = accumulate acc (x ++ y) := by
  induction acc, x using accumulate.induct with
  | case1 acc a b rest ih =>
    rw [accumulate, ih (by rw [List.length_cons, List.length_cons] at even; omega), List.cons_append, List.cons_append,
      accumulate]
  | case2 acc a => cases even
  | case3 acc => rfl

theorem wordSum_append (even : x.length % 2 = 0) : wordSum (x ++ y) = wordSum x + wordSum y := by
  induction x using wordSum.induct with
  | case1 a b rest ih =>
    rw [List.cons_append, List.cons_append, wordSum, wordSum, ih (by rw [List.length_cons, List.length_cons] at even; omega)]
    omega
  | case2 a => cases even
  | case3 => rw [List.nil_append, wordSum, Nat.zero_add]

theorem wordSum_eq_zero_iff : wordSum d = 0 ↔ ∀ b ∈ d, b = 0 := by
  have zero {b : U8} : b.toNat = 0 ↔ b = 0 := by rw [← BitVec.toNat_inj]; rfl
  induction d using wordSum.induct with
  | case1 a b rest ih =>
    rw [wordSum, List.forall_mem_cons, List.forall_mem_cons]
    constructor
    · intro none
      exact ⟨zero.mp (by omega), zero.mp (by omega), ih.mp (by omega)⟩
    · rintro ⟨first, second, later⟩
      have first := zero.mpr first
      have second := zero.mpr second
      have later := ih.mpr later
      omega
  | case2 a =>
    rw [wordSum, List.forall_mem_singleton, ← zero]
    omega
  | case3 => simp [wordSum]

theorem wordSum_byte : wordSum (x ++ b :: y) = wordSum (x ++ 0 :: y) + (if x.length % 2 = 0 then 256 else 1) * b.toNat := by
  induction x using wordSum.induct with
  | case1 a c rest ih =>
    have parity : (a :: c :: rest).length % 2 = rest.length % 2 := by
      rw [List.length_cons, List.length_cons]
      omega
    rw [parity]
    simp only [List.cons_append, wordSum] at ih ⊢
    omega
  | case2 a => simp [wordSum]; omega
  | case3 =>
    cases y with
    | nil => simp [wordSum]
    | cons e y => simp [wordSum]; omega

end

/-! ## The folded sum -/

theorem residue_foldLoop (fuel : Nat) (sum : U32) : residue 65535 (foldLoop fuel sum).toNat = residue 65535 sum.toNat := by
  induction fuel generalizing sum with
  | zero => rfl
  | succ fuel ih =>
    rw [foldLoop]
    split
    · rw [ih, round_toNat]
      exact residue_carry (by decide)
    · rfl

/-- The fold is the one's-complement residue of the accumulator. -/
theorem fold_toNat (sum : U32) : (fold sum).toNat = residue 65535 sum.toNat := by
  have small : (foldLoop 2 sum).toNat ≤ 65535 := by
    have done := foldLoop_done sum
    rw [gt_iff_lt, BitVec.lt_def] at done
    exact Nat.le_of_not_lt done
  rw [fold, BitVec.toNat_setWidth, ← residue_foldLoop 2 sum, residue_of_le (by decide) small, Nat.mod_eq_of_lt (by omega)]

section
variable {d x y : List U8} {b c : U8}

theorem sum_toNat (short : d.length ≤ 131070) : (sum d).toNat = residue 65535 (wordSum d) := by
  have start : (0 : U32).toNat = 0 := rfl
  rw [sum, fold_toNat, accumulate_exact (by omega), start, Nat.zero_add]

theorem valid_iff (short : d.length ≤ 131070) : valid d ↔ residue 65535 (wordSum d) = 65535 := by
  rw [valid, beq_iff_eq, ← BitVec.toNat_inj, sum_toNat short]
  rfl

theorem wordSum_beBytes16 (v : U16) : wordSum (beBytes16 v) = v.toNat := by
  have bound := v.isLt
  rw [beBytes16, wordSum, wordSum, BitVec.extractLsb'_toNat, BitVec.extractLsb'_toNat, Nat.shiftRight_eq_div_pow,
    Nat.shiftRight_eq_div_pow]
  omega

theorem toNat_checksum (short : d.length ≤ 131070) : (checksum d).toNat = 65535 - residue 65535 (wordSum d) := by
  rw [checksum, BitVec.toNat_not, sum_toNat short]

theorem wordSum_field (even : x.length % 2 = 0) (v : U16) :
    wordSum (x ++ beBytes16 v ++ y) = wordSum (x ++ [0, 0] ++ y) + v.toNat := by
  have field (v : U16) : wordSum (x ++ beBytes16 v ++ y) = wordSum x + wordSum y + v.toNat := by
    rw [List.append_assoc, wordSum_append even, wordSum_append (by simp), wordSum_beBytes16]
    omega
  have zeroed : wordSum (x ++ [0, 0] ++ y) = wordSum x + wordSum y := field 0
  rw [field, zeroed]

theorem length_field (v : U16) : (x ++ beBytes16 v ++ y).length = (x ++ [0, 0] ++ y).length := by
  simp only [List.length_append, beBytes16_length, List.length_cons, List.length_nil]

/-- A stored checksum validates. -/
theorem valid_stored (short : (x ++ [0, 0] ++ y).length ≤ 131070) (even : x.length % 2 = 0) :
    valid (x ++ beBytes16 (checksum (x ++ [0, 0] ++ y)) ++ y) := by
  rw [valid_iff (length_field _ ▸ short), wordSum_field even, toNat_checksum short]
  exact residue_add_complement (by decide)

theorem valid_stored_ones (short : (x ++ [0, 0] ++ y).length ≤ 131070) (even : x.length % 2 = 0)
    (zero : checksum (x ++ [0, 0] ++ y) = 0) : valid (x ++ beBytes16 0xffff ++ y) := by
  have stored := valid_stored short even
  rw [zero, valid_iff (length_field 0 ▸ short), residue_eq_self_iff (by decide),
    wordSum_field even] at stored
  rw [valid_iff (length_field 0xffff ▸ short), residue_eq_self_iff (by decide), wordSum_field even]
  have ones : (0xffff : U16).toNat = 65535 := rfl
  have none : (0 : U16).toNat = 0 := rfl
  rw [none, Nat.add_zero] at stored
  rw [ones]
  exact ⟨by omega, Nat.ModEq.symm (stored.2.symm.trans (by rw [Nat.ModEq, Nat.add_mod_right]))⟩

/-- One changed byte is noticed. -/
theorem not_valid_of_byte (short : (x ++ b :: y).length ≤ 131070) (ok : valid (x ++ b :: y)) (other : c ≠ b) :
    ¬ valid (x ++ c :: y) := by
  have same : (x ++ c :: y).length = (x ++ b :: y).length := by simp
  rw [valid_iff short, wordSum_byte] at ok
  rw [valid_iff (same ▸ short), wordSum_byte]
  rw [Ne, ← BitVec.toNat_inj] at other
  have left := b.isLt
  have right := c.isLt
  -- the two sums differ by less than 255 words
  refine residue_ne_of_close (by decide) ok ?_ ?_ ?_ <;> split <;> omega

/-- The RFC 1071 sum of up to 65535 bytes. It is congruent to the sum of the words and zero only for
zeros; the accumulator does not wrap, nor when it starts from a 12-byte pseudo-header; the fold has
ended; even pieces can be added one after the other; a checksum stored in a zeroed even field
validates; and a valid list with one byte changed is not valid. -/
theorem sum_rfc1071 (d : List U8) (short : d.length ≤ 65535) :
    ((sum d).toNat ≡ wordSum d [MOD 65535] ∧ (sum d = 0 → ∀ b ∈ d, b = 0)) ∧
    ((accumulate 0 d).toNat = wordSum d ∧
      ∀ pseudo : List U8, pseudo.length = 12 →
        (accumulate (accumulate 0 pseudo) d).toNat = wordSum pseudo + wordSum d) ∧
    (∀ acc, ¬ foldLoop 2 acc > 0xffff) ∧
    (∀ acc x y, d = x ++ y → x.length % 2 = 0 → accumulate (accumulate acc x) y = accumulate acc d) ∧
    (∀ x y, d = x ++ [0, 0] ++ y → x.length % 2 = 0 → valid (x ++ beBytes16 (checksum d) ++ y)) ∧
    (∀ x b y c, d = x ++ b :: y → valid d → c ≠ b → ¬ valid (x ++ c :: y)) := by
  have start : (0 : U32).toNat = 0 := rfl
  have plain {e : List U8} (few : e.length ≤ 65535) : (accumulate 0 e).toNat = wordSum e := by
    rw [accumulate_exact (by omega), start, Nat.zero_add]
  refine ⟨⟨?_, fun zero => ?_⟩, ⟨plain short, fun pseudo length => ?_⟩, foldLoop_done, ?_, ?_, ?_⟩
  · rw [sum_toNat (by omega)]
    exact residue_modEq
  · have none : (sum d).toNat = 0 := congrArg BitVec.toNat zero
    rw [sum_toNat (by omega)] at none
    exact wordSum_eq_zero_iff.mp (residue_eq_zero_iff.mp none)
  · -- Twelve bytes more still fit the 32-bit accumulator.
    have seed := plain (show pseudo.length ≤ 65535 by omega)
    have bound := @wordSum_le pseudo
    rw [length] at bound
    rw [accumulate_exact (by omega), seed]
  · rintro acc x y rfl even
    exact accumulate_append even
  · rintro x y rfl even
    exact valid_stored (by omega) even
  · rintro x b y c rfl ok other
    exact not_valid_of_byte (by omega) ok other

/-- The header of the self-test, before and after its checksum is stored and after its protocol is changed. -/
theorem sum_rfc1071_header :
    let hdr : List U8 := [0x45, 0, 0, 0x14, 0, 0, 0, 0, 64, 1, 0, 0, 10, 0, 2, 15, 10, 0, 2, 2]
    let built := hdr.take 10 ++ beBytes16 (checksum hdr) ++ hdr.drop 12
    (sum hdr).toNat ≡ wordSum hdr [MOD 65535] ∧ valid built ∧ ¬ valid (built.take 9 ++ 0 :: built.drop 10) := by
  intro hdr built
  have first := sum_rfc1071 hdr (by decide)
  have second := sum_rfc1071 built (by decide +kernel)
  have ok : valid built := first.2.2.2.2.1 (hdr.take 10) (hdr.drop 12) (by decide) (by decide)
  exact ⟨first.1.1, ok, second.2.2.2.2.2 (built.take 9) 1 (built.drop 10) 0 (by decide +kernel) ok (by decide)⟩

end

end Whimbrel.Checksum

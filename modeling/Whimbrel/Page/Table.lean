import Whimbrel.Base
import Mathlib.Tactic.IntervalCases

/-! Sv39 page tables in memory: the mapper and the walker of `src/page.rs`.

The mapper writes entries by flag constants, the walker reads them by bit
position. Memory is kept by 64-bit words, with the frames `alloc_frame` will
return. The counter of tables is left out. -/

set_option autoImplicit false

namespace Whimbrel.Page

open Checked

abbrev U64 := BitVec 64

def offBits : Nat := 12
def vpnBits : Nat := 9
def vpnMask : Usize := 0x1ff
def frameBytes : Nat := 4096
def mega : Usize := 2 * 1024 * 1024
def megaMask : Usize := mega - 1

/-! `FLAG_V` to `FLAG_D`, `NONLEAF`, and the `LEAF_*` combinations. -/

def flagV : U64 := 1#64 <<< 0
def flagR : U64 := 1#64 <<< 1
def flagW : U64 := 1#64 <<< 2
def flagX : U64 := 1#64 <<< 3
def flagU : U64 := 1#64 <<< 4
def flagA : U64 := 1#64 <<< 6
def flagD : U64 := 1#64 <<< 7

def leafRx : U64 := flagV ||| flagR ||| flagX ||| flagA ||| flagD
def leafR : U64 := flagV ||| flagR ||| flagA ||| flagD
def leafRw : U64 := flagV ||| flagR ||| flagW ||| flagA ||| flagD
def leafUrx : U64 := leafRx ||| flagU
def leafUr : U64 := leafR ||| flagU
def leafUrw : U64 := leafRw ||| flagU
def nonleaf : U64 := flagV

structure Phys where
  word : Usize → U64
  /-- The frames `alloc_frame` returns, in order. -/
  free : List Usize

def Phys.write (s : Phys) (slot : Usize) (raw : U64) : Phys := { s with word := Function.update s.word slot raw }

/-- `alloc_table`: `alloc_frame` zeroes the frame it returns. -/
def allocTable (s : Phys) : Result (Phys × Usize) :=
  match s.free with
  | [] => .error .outOfFrames
  | pa :: free =>
    .ok ({ word := fun a => if pa.toNat ≤ a.toNat ∧ a.toNat < pa.toNat + frameBytes then 0 else s.word a, free }, pa)

def vpn (va : Usize) (level : Nat) : Usize := (va >>> (offBits + vpnBits * level)) &&& vpnMask

def pteSlot (table index : Usize) : Usize := table + 8 * index

def encodeLeaf (pa : Usize) (flags : U64) : U64 := ((pa >>> offBits) <<< 10) ||| flags

/-! ## The mapper -/

def checkFlags (flags : U64) : Result Unit := do
  if flags &&& flagW ≠ 0 ∧ flags &&& flagR = 0 then throw .mapFlags
  if flags &&& (flagR ||| flagW ||| flagX) = 0 then throw .mapFlags

/-- One level of the descent: the next table, created if the entry is empty. -/
def descend (s : Phys) (table va : Usize) (level : Nat) : Result (Phys × Usize) := do
  let slot := pteSlot table (vpn va level)
  let raw := s.word slot
  if raw = 0 then
    let (s, next) ← allocTable s
    return (s.write slot (encodeLeaf next nonleaf), next)
  if raw &&& (flagR ||| flagW ||| flagX) ≠ 0 then throw .mapSuperpage
  if raw &&& flagV = 0 then throw .mapInvalid
  return (s, (raw >>> 10) <<< offBits)

def putLeaf (s : Phys) (table va : Usize) (level : Nat) (raw : U64) : Result Phys := do
  let slot := pteSlot table (vpn va level)
  if s.word slot ≠ 0 then throw .mapRemap
  return s.write slot raw

def map (s : Phys) (root va pa : Usize) (flags : U64) : Result Phys := do
  if va.toNat % frameBytes ≠ 0 ∨ pa.toNat % frameBytes ≠ 0 then throw .mapUnaligned
  checkFlags flags
  let (s, table) ← descend s root va 2
  let (s, table) ← descend s table va 1
  putLeaf s table va 0 (encodeLeaf pa flags)

def map2m (s : Phys) (root va pa : Usize) (flags : U64) : Result Phys := do
  if va &&& megaMask ≠ 0 ∨ pa &&& megaMask ≠ 0 then throw .mapUnaligned
  if va ≠ pa then throw .mapNotIdentity
  checkFlags flags
  let (s, table) ← descend s root va 2
  putLeaf s table va 1 (encodeLeaf pa flags)

/-! ## The walker -/

def pteBit (raw : U64) (bit : Nat) : Bool := (raw >>> bit) &&& 1#64 != 0

def ptePpn (raw : U64) : U64 := (raw >>> 10) &&& (1#64 <<< 44 - 1)

inductive Walk where
  | unmapped (level : Nat) (raw : U64)
  | mapped (pa : Usize) (raw : U64) (level : Nat)
  deriving DecidableEq, Repr

def sv39Canonical (va : Usize) : Bool :=
  let top := va.sshiftRight 38
  top == 0 || top == -1

def leafBytes (level : Nat) : Usize :=
  match level with
  | 0 => 4096
  | 1 => mega
  -- the walker asks for levels 0 and 1 only
  | _ => 1#64 <<< 30

def walkFrom (s : Phys) (va : Usize) (level : Nat) (table : Usize) : Result Walk := do
  let idx := (va >>> (12 + 9 * level)) &&& 0x1ff
  let raw := s.word (table + 8 * idx)
  if !pteBit raw 0 then return .unmapped level raw
  let r := pteBit raw 1
  let w := pteBit raw 2
  let x := pteBit raw 3
  if r || w || x then
    if w && !r then throw .walkReserved
    if level = 2 then throw .walkSuperpage
    if level = 1 ∧ ptePpn raw &&& 0x1ff ≠ 0 then throw .walkSuperpage
    return .mapped ((ptePpn raw <<< 12) ||| (va &&& (leafBytes level - 1))) raw level
  if pteBit raw 4 || pteBit raw 5 || pteBit raw 6 || pteBit raw 7 then throw .walkNonLeaf
  match level with
  | 0 => throw .walkNonLeaf
  | level + 1 => walkFrom s va level (ptePpn raw <<< 12)

def walk (s : Phys) (root va : Usize) : Result Walk :=
  if !sv39Canonical va then .error .walkNonCanonical else walkFrom s va 2 root

theorem pteBit_eq (raw : U64) (bit : Nat) : pteBit raw bit = raw.getLsbD bit := by
  rw [pteBit, BitVec.and_one_eq_setWidth_ofBool_getLsbD, BitVec.getLsbD_ushiftRight, Nat.add_zero]
  cases raw.getLsbD bit <;> rfl

theorem and_flag_eq_zero (raw : U64) {bit : Nat} (inside : bit < 64) :
    raw &&& (1#64 <<< bit) = 0#64 ↔ raw.getLsbD bit = false := by
  rw [← BitVec.twoPow_eq, BitVec.and_twoPow]
  cases raw.getLsbD bit
  · simp
  · rw [if_pos rfl, ← BitVec.toNat_inj, BitVec.toNat_twoPow_of_lt inside]
    simp

theorem and_rwx_eq_zero (raw : U64) : raw &&& (flagR ||| flagW ||| flagX) = 0#64 ↔
    raw.getLsbD 1 = false ∧ raw.getLsbD 2 = false ∧ raw.getLsbD 3 = false := by
  rw [BitVec.and_or_distrib_left, BitVec.and_or_distrib_left, BitVec.or_eq_zero_iff, BitVec.or_eq_zero_iff, flagR,
    flagW, flagX, and_flag_eq_zero, and_flag_eq_zero, and_flag_eq_zero, and_assoc] <;> decide

theorem encodeLeaf_bit (pa : Usize) (flags : U64) {bit : Nat} (low : bit < 10) :
    (encodeLeaf pa flags).getLsbD bit = flags.getLsbD bit := by
  simp [encodeLeaf, BitVec.getLsbD_or, BitVec.getLsbD_shiftLeft, low]

theorem toNat_encodeLeaf (pa : Usize) {flags : U64} (small : flags.toNat < 2 ^ 10) :
    (encodeLeaf pa flags).toNat = pa.toNat / 4096 * 1024 + flags.toNat := by
  have bound := pa.isLt
  rw [encodeLeaf, BitVec.toNat_or, BitVec.toNat_shiftLeft, BitVec.toNat_ushiftRight, Nat.shiftRight_eq_div_pow,
    Nat.shiftLeft_eq, offBits, Nat.mod_eq_of_lt (by omega), Nat.mul_comm, ← Nat.two_pow_add_eq_or_of_lt small,
    Nat.mul_comm]

theorem toNat_ptePpn (raw : U64) : (ptePpn raw).toNat = raw.toNat / 1024 % 2 ^ 44 := by
  rw [ptePpn, BitVec.toNat_and, BitVec.toNat_ushiftRight, Nat.shiftRight_eq_div_pow]
  exact Nat.and_two_pow_sub_one_eq_mod _ 44

theorem toNat_ptePpn_encodeLeaf (pa : Usize) {flags : U64} (small : flags.toNat < 2 ^ 10) :
    (ptePpn (encodeLeaf pa flags)).toNat = pa.toNat / 4096 % 2 ^ 44 := by
  rw [toNat_ptePpn, toNat_encodeLeaf pa small]
  omega

abbrev Ppn := BitVec 44
abbrev Index := BitVec 9

def frameAddr (a : Ppn) : Usize := a.setWidth 64 <<< 12

def cell (a : Ppn) (i : Index) : Usize := pteSlot (frameAddr a) (i.setWidth 64)

def indexAt (va : Usize) (level : Nat) : Index := va.extractLsb' (12 + 9 * level) 9

theorem toNat_frameAddr (a : Ppn) : (frameAddr a).toNat = a.toNat * 4096 := by
  have bound := a.isLt
  rw [frameAddr, BitVec.toNat_shiftLeft, BitVec.toNat_setWidth, Nat.shiftLeft_eq]
  omega

theorem toNat_indexAt (va : Usize) (level : Nat) : (indexAt va level).toNat = va.toNat / 2 ^ (12 + 9 * level) % 512 := by
  rw [indexAt, BitVec.extractLsb'_toNat, Nat.shiftRight_eq_div_pow]

theorem toNat_cell (a : Ppn) (i : Index) : (cell a i).toNat = a.toNat * 4096 + 8 * i.toNat := by
  have inFrame := a.isLt
  have inTable := i.isLt
  rw [cell, pteSlot, BitVec.toNat_add, toNat_frameAddr, BitVec.toNat_mul, BitVec.toNat_setWidth]
  change (_ + 8 * _ % 2 ^ 64) % 2 ^ 64 = _
  omega

theorem cell_inj {a b : Ppn} {i j : Index} : cell a i = cell b j ↔ a = b ∧ i = j := by
  have inTable := i.isLt
  have inTable' := j.isLt
  rw [← BitVec.toNat_inj, ← BitVec.toNat_inj, ← BitVec.toNat_inj, toNat_cell, toNat_cell]
  omega

theorem cell_in_frame {a b : Ppn} {i : Index} :
    ((frameAddr a).toNat ≤ (cell b i).toNat ∧ (cell b i).toNat < (frameAddr a).toNat + frameBytes) ↔ b = a := by
  have inTable := i.isLt
  rw [← BitVec.toNat_inj, toNat_cell, toNat_frameAddr, frameBytes]
  omega

theorem indexAt_setWidth (va : Usize) (level : Nat) : (indexAt va level).setWidth 64 = (va >>> (12 + 9 * level)) &&& 0x1ff := by
  have bound := (indexAt va level).isLt
  rw [← BitVec.toNat_inj, BitVec.toNat_setWidth, toNat_indexAt, BitVec.toNat_and, BitVec.toNat_ushiftRight,
    Nat.shiftRight_eq_div_pow]
  change _ = _ &&& (2 ^ 9 - 1)
  rw [Nat.and_two_pow_sub_one_eq_mod]
  omega

theorem pteSlot_eq (a : Ppn) (va : Usize) (level : Nat) : pteSlot (frameAddr a) (vpn va level) = cell a (indexAt va level) := by
  rw [cell, indexAt_setWidth]
  rfl

/-! What the mapper and the walker find in a pointer to a table. -/

def pointer (a : Ppn) : U64 := encodeLeaf (frameAddr a) nonleaf

theorem pointer_bit (a : Ppn) {bit : Nat} (low : bit < 10) : (pointer a).getLsbD bit = decide (bit = 0) := by
  rw [pointer, encodeLeaf_bit _ _ low]
  interval_cases bit <;> rfl

theorem toNat_pointer (a : Ppn) : (pointer a).toNat = a.toNat * 1024 + 1 := by
  rw [pointer, toNat_encodeLeaf _ (by decide), toNat_frameAddr]
  change _ + 1 = _
  omega

theorem pointer_table (a : Ppn) : (pointer a >>> 10) <<< offBits = frameAddr a := by
  have bound := a.isLt
  rw [← BitVec.toNat_inj, BitVec.toNat_shiftLeft, BitVec.toNat_ushiftRight, toNat_pointer, toNat_frameAddr,
    Nat.shiftRight_eq_div_pow, Nat.shiftLeft_eq, offBits]
  omega

theorem ptePpn_pointer (a : Ppn) : ptePpn (pointer a) <<< 12 = frameAddr a := by
  have bound := a.isLt
  rw [← BitVec.toNat_inj, BitVec.toNat_shiftLeft, toNat_ptePpn, toNat_pointer, toNat_frameAddr, Nat.shiftLeft_eq]
  omega

end Whimbrel.Page

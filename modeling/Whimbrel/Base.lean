import Whimbrel.Lib.Checked
import Mathlib.Algebra.Group.Int.Defs
import Mathlib.Algebra.GroupWithZero.Nat
import Mathlib.Data.List.Basic
import Mathlib.Logic.Function.Basic

/-! Machine integers, addresses and panics shared by the kernel modules.

`usize` is 64 bits on this target. A `panic!`, a failed bounds check and an
arithmetic overflow of the dev profile all end the kernel, so each is an
error of `Result`. -/

set_option autoImplicit false

namespace Whimbrel

abbrev U8 := BitVec 8
abbrev U16 := BitVec 16
abbrev U32 := BitVec 32
abbrev Usize := BitVec 64

/-- The task tables an image can be built with. -/
inductive Image where
  /-- The compiled app in slot 3. -/
  | app
  /-- `userptr-kernel-selftest` or `userptr-span-selftest`. -/
  | userptr
  /-- `user-fault-selftest`. -/
  | userFault
  deriving DecidableEq, Repr

/-- The Cargo profile and features that change what the modelled code does. -/
structure Config where
  /-- `profile.dev`: overflow checks and debug assertions are on. -/
  dev : Bool
  /-- Feature `tcp-drop-first-tx`. -/
  dropFirstTx : Bool
  image : Image
  deriving DecidableEq, Repr

def Config.default : Config := ⟨true, false, .app⟩

/-- What the code around a function finds and cannot change: the timer interrupt
enable and the firmware's answers. -/
structure Platform where
  /-- `sie.STIE`. -/
  stie : Bool
  /-- `sbi_set_timer` returned `SBI_SUCCESS`. -/
  setTimer : Usize → Bool
  /-- `sbi::shutdown` does not return. -/
  shutdown : Bool

/-- The ways the modelled code stops the kernel. -/
inductive Panic where
  | bounds
  | overflow
  | txBuf
  | txDesc
  /-- `wait_tx` saw no completion. -/
  | txStalled
  | builderBuf
  | noGatewayMac
  | tcpDataLen
  | rxUsedId
  | rxInflight
  | ticksNotArmed
  | setTimer
  | sscratchNonzero
  | sumSet
  | noCurrentTask
  | taskId
  | taskExists
  | taskNotCreated
  | taskLayout
  | preemptFrame
  | kernelFault
  | unknownTrap
  | rexmitCount
  | userFaultCheck
  | shutdownFailed
  | outOfFrames
  | mapUnaligned
  | mapNotIdentity
  | mapFlags
  | mapSuperpage
  | mapInvalid
  | mapRemap
  | mapRange
  | walkNonCanonical
  | walkReserved
  | walkSuperpage
  | walkNonLeaf
  | linkerSymbols
  | heapCrossed
  | heapSymbols
  | framesFrozen
  | frameUnmanaged
  | frameDoubleFree
  | recycledUnderflow
  | recycledCyclic
  | recycledCount
  | bumpPastRam
  | frameSelfTest
  | pageProbe
  | pageRange
  | pageTables
  | heapInsertRange
  | heapOverlap
  | heapBadAlign
  | heapNull
  | heapUnderflow
  | heapUnaligned
  /-- The walk of the free list does not end. -/
  | heapCyclic
  deriving DecidableEq, Repr

abbrev Result := Except Panic

def Result.panic? {α : Type} : Result α → Option Panic
  | .ok _ => none
  | .error e => some e

structure Ip where
  b0 : U8
  b1 : U8
  b2 : U8
  b3 : U8
  deriving DecidableEq, Repr

structure Mac where
  b0 : U8
  b1 : U8
  b2 : U8
  b3 : U8
  b4 : U8
  b5 : U8
  deriving DecidableEq, Repr

def Ip.zero : Ip := ⟨0, 0, 0, 0⟩

def ourIp : Ip := ⟨10, 0, 2, 15⟩
def gwIp : Ip := ⟨10, 0, 2, 2⟩

def Ip.toList (a : Ip) : List U8 := [a.b0, a.b1, a.b2, a.b3]

def Mac.toList (m : Mac) : List U8 := [m.b0, m.b1, m.b2, m.b3, m.b4, m.b5]

@[simp] theorem Ip.toList_length (a : Ip) : a.toList.length = 4 := rfl

@[simp] theorem Mac.toList_length (m : Mac) : m.toList.length = 6 := rfl

/-- The byte at `i`, zero past the end. Specifications use it where the code's
own bound check has already passed. -/
def byteAt (b : List U8) (i : Nat) : U8 := b.getD i 0

def word16 (b : List U8) (off : Nat) : U16 := byteAt b off ++ byteAt b (off + 1)

def word32 (b : List U8) (off : Nat) : U32 :=
  byteAt b off ++ byteAt b (off + 1) ++ byteAt b (off + 2) ++ byteAt b (off + 3)

def ipAt (b : List U8) (off : Nat) : Ip :=
  ⟨byteAt b off, byteAt b (off + 1), byteAt b (off + 2), byteAt b (off + 3)⟩

def macAt (b : List U8) (off : Nat) : Mac :=
  ⟨byteAt b off, byteAt b (off + 1), byteAt b (off + 2), byteAt b (off + 3),
    byteAt b (off + 4), byteAt b (off + 5)⟩

/-- `n += 1` on a `u32`: the dev profile checks, the release profile wraps. -/
def succ32 (cfg : Config) (n : U32) : Result U32 :=
  if cfg.dev ∧ n + 1 = 0 then .error .overflow else .ok (n + 1)

def addUsize (cfg : Config) (a b : Usize) : Result Usize :=
  if cfg.dev ∧ 2 ^ 64 ≤ a.toNat + b.toNat then .error .overflow else .ok (a + b)

abbrev Counters (R : Type) := R → U32

/-- `DROP_R = DROP_R.wrapping_add(1)`. -/
def Counters.bump {R : Type} [DecidableEq R] (drops : Counters R) (r : R) : Counters R :=
  Function.update drops r (drops r + 1)

def index (b : List U8) (i : Nat) : Result U8 := Checked.index .bounds b i

def slice (b : List U8) (lo hi : Nat) : Result (List U8) := Checked.slice .bounds b lo hi

/-- `b[lo..hi].copy_from_slice(src)`. -/
def copyIn (b : List U8) (lo hi : Nat) (src : List U8) : Result (List U8) :=
  Checked.copyFromSlice .bounds b lo hi src

/-- A sequence of `copy_from_slice` and `b[i] = v`. -/
def copyAll (b : List U8) (ws : List (Checked.Write U8)) : Result (List U8) := Checked.copyAll .bounds b ws

/-- `u16::from_be_bytes([b[off], b[off + 1]])`. -/
def be16 (b : List U8) (off : Nat) : Result U16 := do
  let hi ← index b off
  let lo ← index b (off + 1)
  return hi ++ lo

def be32 (b : List U8) (off : Nat) : Result U32 := do
  let b0 ← index b off
  let b1 ← index b (off + 1)
  let b2 ← index b (off + 2)
  let b3 ← index b (off + 3)
  return b0 ++ b1 ++ b2 ++ b3

def readIp (b : List U8) (off : Nat) : Result Ip := do
  let s ← slice b off (off + 4)
  return ipAt s 0

def readMac (b : List U8) (off : Nat) : Result Mac := do
  let s ← slice b off (off + 6)
  return macAt s 0

def beBytes16 (v : U16) : List U8 := [v.extractLsb' 8 8, v.extractLsb' 0 8]

def beBytes32 (v : U32) : List U8 :=
  [v.extractLsb' 24 8, v.extractLsb' 16 8, v.extractLsb' 8 8, v.extractLsb' 0 8]

@[simp] theorem beBytes16_length (v : U16) : (beBytes16 v).length = 2 := rfl

theorem beBytes16_append (v : U16) : v.extractLsb' 8 8 ++ v.extractLsb' 0 8 = v := by
  have whole := @BitVec.extractLsb'_append_extractLsb'_eq_extractLsb' 16 8 0 8 8 v rfl
  simpa using whole

theorem beBytes32_append (v : U32) :
    v.extractLsb' 24 8 ++ v.extractLsb' 16 8 ++ v.extractLsb' 8 8 ++ v.extractLsb' 0 8 = v := by
  have high := @BitVec.extractLsb'_append_extractLsb'_eq_extractLsb' 32 24 16 8 8 v rfl
  have upper := @BitVec.extractLsb'_append_extractLsb'_eq_extractLsb' 32 16 8 8 16 v rfl
  have whole := @BitVec.extractLsb'_append_extractLsb'_eq_extractLsb' 32 8 0 8 24 v rfl
  rw [high, upper, whole]
  simp

theorem beBytes16_bytes (a b : U8) : beBytes16 (a ++ b) = [a, b] := by
  have high : (a ++ b).extractLsb' 8 8 = a := BitVec.extractLsb'_append_eq_left
  have low : (a ++ b).extractLsb' 0 8 = b := BitVec.extractLsb'_append_eq_right
  rw [beBytes16, high, low]

@[simp] theorem bind_ok {α β : Type} (a : α) (f : α → Result β) : (Except.ok a >>= f) = f a := rfl

@[simp] theorem bind_error {α β : Type} (e : Panic) (f : α → Result β) :
    (Except.error e >>= f) = .error e := rfl

@[simp] theorem pure_eq_ok {α : Type} (a : α) : (pure a : Result α) = .ok a := rfl

theorem bind_eq_ok {α β : Type} {x : Result α} {f : α → Result β} {b : β} (done : (x >>= f) = .ok b) :
    ∃ a, x = .ok a ∧ f a = .ok b := Checked.of_bind_ok done

theorem map_eq_ok {α β : Type} {x : Result α} {f : α → β} {b : β} (done : (f <$> x) = .ok b) :
    ∃ a, x = .ok a ∧ f a = b := Checked.of_map_ok done

theorem index_ok {b : List U8} {i : Nat} (h : i < b.length) : index b i = .ok (byteAt b i) :=
  Checked.index_of_lt Panic.bounds h 0

theorem slice_ok {b : List U8} {lo hi : Nat} (h : lo ≤ hi) (bound : hi ≤ b.length) :
    slice b lo hi = .ok ((b.drop lo).take (hi - lo)) :=
  Checked.slice_of_le Panic.bounds h bound

theorem copyAll_front {dst : List U8} {pieces : List (List U8)} {n : Nat} (length : pieces.flatten.length = n)
    (fits : n ≤ dst.length) : copyAll dst (Checked.Write.place 0 pieces) = .ok (pieces.flatten ++ dst.drop n) := by
  have fits' : 0 + pieces.flatten.length ≤ dst.length := by omega
  have placed := Checked.copyAll_place Panic.bounds fits'
  rw [List.take_zero, List.nil_append, Nat.zero_add, length] at placed
  exact placed

theorem front_written_length {x dst : List U8} {n : Nat} (length : x.length = n) (fits : n ≤ dst.length) :
    (x ++ dst.drop n).length = dst.length := by
  rw [List.length_append, List.length_drop]
  omega

theorem copyIn_field {x y : List U8} {lo hi : Nat} (start : x.length = lo) (stop : lo + 2 = hi) (v : U16) :
    copyIn (x ++ [0, 0] ++ y) lo hi (beBytes16 v) = .ok (x ++ beBytes16 v ++ y) :=
  Checked.copyFromSlice_field Panic.bounds start stop rfl

theorem slice_length_le {b r : List U8} {lo hi : Nat} (done : slice b lo hi = .ok r) : r.length ≤ b.length := by
  unfold slice Checked.slice at done
  split at done
  · cases done
    rw [List.length_take, List.length_drop]
    omega
  · cases done

theorem be16_ok {b : List U8} {off : Nat} (h : off + 1 < b.length) :
    be16 b off = .ok (word16 b off) := by
  simp [be16, index_ok h, index_ok (Nat.lt_of_succ_lt h), word16]

theorem be32_ok {b : List U8} {off : Nat} (h : off + 3 < b.length) :
    be32 b off = .ok (word32 b off) := by
  have h0 : off < b.length := by omega
  have h1 : off + 1 < b.length := by omega
  have h2 : off + 2 < b.length := by omega
  simp [be32, index_ok h, index_ok h0, index_ok h1, index_ok h2, word32]

theorem byteAt_window {b : List U8} {lo n i : Nat} (h : i < n) :
    byteAt ((b.drop lo).take n) i = byteAt b (lo + i) := by
  simp [byteAt, List.getD, h]

theorem readIp_ok {b : List U8} {off : Nat} (h : off + 4 ≤ b.length) :
    readIp b off = .ok (ipAt b off) := by
  rw [readIp, slice_ok (Nat.le_add_right off 4) h]
  simp [ipAt, byteAt_window]

theorem readMac_ok {b : List U8} {off : Nat} (h : off + 6 ≤ b.length) :
    readMac b off = .ok (macAt b off) := by
  rw [readMac, slice_ok (Nat.le_add_right off 6) h]
  simp [macAt, byteAt_window]

end Whimbrel

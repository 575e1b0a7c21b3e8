import Whimbrel.Task

/-! User pointers: `src/uaccess.rs`.

The copies run with `SUM` set; a byte whose page does not allow the access is a
kernel page fault. The other side of a copy is kernel `.bss`, which no user
interval meets, so the overlap check of `copy_nonoverlapping` passes. -/

set_option autoImplicit false

namespace Whimbrel.Uaccess

open Checked

def copyMax : Nat := 4096

inductive Access where
  | read
  | write
  deriving DecidableEq, Repr

inductive UserPtrError where
  | spansPastInterval
  | notInUserInterval
  deriving DecidableEq, Repr

def contains (lo hi ptr fin : Nat) : Bool := lo < hi && ptr ≥ lo && fin ≤ hi

/-- The comparisons of `user_range_ok`, once `ptr + len` has not wrapped. -/
def inInterval (lay : Layout) (s : Slot) (t : Task) (ptr fin : Nat) (access : Access) : Bool :=
  contains s.ustackBottom s.ustackTop ptr fin ||
  contains t.brkBase.toNat t.brk.toNat ptr fin ||
  contains lay.udataStart lay.udataEnd ptr fin || contains lay.ubssStart lay.ubssEnd ptr fin ||
  (lay.udataEnd == lay.ubssStart && contains lay.udataStart lay.ubssEnd ptr fin) ||
  (access == .read && contains lay.urodataStart lay.urodataEnd ptr fin)

def userRangeOk (lay : Layout) (t : Task) (ptr : Usize) (len : Nat) (access : Access) : Result Bool := do
  -- `checked_add`
  if ptr.toNat + len ≥ 2 ^ 64 then return false
  let s ← lay.slot t.id
  return inInterval lay s t ptr.toNat (ptr.toNat + len) access

def classify (lay : Layout) (t : Task) (ptr : Usize) (len : Nat) (access : Access) :
    Result (Except UserPtrError Unit) := do
  if ← userRangeOk lay t ptr len access then return .ok ()
  if len > 0 then
    if ← userRangeOk lay t ptr 1 access then return .error .spansPastInterval
  return .error .notInUserInterval

def checkRange (lay : Layout) (t : Task) (ptr : Usize) (len : Nat) (access : Access) :
    Result (Except UserPtrError Unit) :=
  classify lay t ptr len access

def loadBytes (lay : Layout) (mem : Asm.Memory) (src : Usize) (n : Nat) : Result (List U8) :=
  if (List.range n).all (fun i => lay.loadable true (src + addr i)) then
    .ok ((List.range n).map fun i => mem (src + addr i))
  else .error .kernelFault

def storeBytes (lay : Layout) (mem : Asm.Memory) (dst : Usize) (bytes : List U8) : Result Asm.Memory :=
  if (List.range bytes.length).all (fun i => lay.storable true (dst + addr i)) then
    .ok fun a => bytes.getD (a - dst).toNat (mem a)
  else .error .kernelFault

/-- What `storeBytes` leaves at the place of each byte. -/
theorem getD_offset {bytes : List U8} {dst : Usize} {i : Nat} {byte : U8} (short : bytes.length ≤ copyMax)
    (inside : i < bytes.length) : bytes.getD (dst + addr i - dst).toNat byte = bytes.get ⟨i, inside⟩ := by
  -- the distance from the start of the buffer does not wrap
  have offset : (dst + addr i - dst).toNat = i := by
    have small : i < 2 ^ 64 := Nat.lt_of_lt_of_le inside (Nat.le_trans short (by decide))
    rw [BitVec.add_comm, BitVec.add_sub_cancel, addr, BitVec.toNat_ofNat, Nat.mod_eq_of_lt small]
  rw [offset, List.getD_eq_getElem?_getD, List.getElem?_eq_getElem inside]
  rfl

def copyFromUser (lay : Layout) (mem : Asm.Memory) (t : Task) (src len : Usize) :
    Result (Except UserPtrError (List U8)) := do
  let n := min len.toNat copyMax
  match ← classify lay t src n .read with
  | .error e => return .error e
  | .ok () =>
    if n = 0 then return .ok []
    return .ok (← loadBytes lay mem src n)

/-- The memory after the copy and the number of bytes copied. -/
def copyToUser (lay : Layout) (mem : Asm.Memory) (t : Task) (dst : Usize) (src : List U8) :
    Result (Except UserPtrError (Asm.Memory × Nat)) := do
  let n := min src.length copyMax
  match ← classify lay t dst n .write with
  | .error e => return .error e
  | .ok () =>
    if n = 0 then return .ok (mem, 0)
    return .ok (← storeBytes lay mem dst (src.take n), n)

section
variable {lay : Layout} {id : Nat} {t : Task} {ptr : Usize} {len : Nat} {access : Access}

def rangeOk (lay : Layout) (t : Task) (ptr : Usize) (len : Nat) (access : Access) : Bool :=
  ptr.toNat + len < 2 ^ 64 && inInterval lay (lay.slotAt t.id) t ptr.toNat (ptr.toNat + len) access

theorem userRangeOk_eq (known : t.id < maxTasks) :
    userRangeOk lay t ptr len access = .ok (rangeOk lay t ptr len access) := by
  unfold userRangeOk rangeOk
  by_cases wraps : ptr.toNat + len ≥ 2 ^ 64
  · rw [if_pos wraps, decide_eq_false (Nat.not_lt.mpr wraps), Bool.false_and]
    rfl
  · rw [if_neg wraps, lay.slot_ok known, decide_eq_true (Nat.not_le.mp wraps), Bool.true_and]
    rfl

def classified (lay : Layout) (t : Task) (ptr : Usize) (len : Nat) (access : Access) : Except UserPtrError Unit :=
  if rangeOk lay t ptr len access then .ok ()
  else if len > 0 ∧ rangeOk lay t ptr 1 access then .error .spansPastInterval
  else .error .notInUserInterval

theorem classify_eq (known : t.id < maxTasks) :
    classify lay t ptr len access = .ok (classified lay t ptr len access) := by
  unfold classify classified
  simp only [userRangeOk_eq known, bind_ok]
  by_cases whole : rangeOk lay t ptr len access
  · rw [if_pos whole, if_pos whole]
    rfl
  · rw [if_neg whole, if_neg whole]
    by_cases some : len > 0
    · by_cases one : rangeOk lay t ptr 1 access <;> simp [some, one]
    · simp [some]

theorem classified_ok (ok : rangeOk lay t ptr len access) : classified lay t ptr len access = .ok () := if_pos ok

theorem classified_error (bad : ¬ rangeOk lay t ptr len access) : ∃ e, classified lay t ptr len access = .error e := by
  rw [classified, if_neg bad]
  split <;> exact ⟨_, rfl⟩

theorem rangeOk_mono {n : Nat} (ok : rangeOk lay t ptr len access) (shorter : n ≤ len) : rangeOk lay t ptr n access := by
  have ends {lo hi : Nat} (whole : contains lo hi ptr.toNat (ptr.toNat + len)) :
      contains lo hi ptr.toNat (ptr.toNat + n) := by
    simp only [contains, Bool.and_eq_true, decide_eq_true_eq] at whole ⊢
    omega
  simp only [rangeOk, inInterval, Bool.and_eq_true, Bool.or_eq_true, decide_eq_true_eq] at ok ⊢
  refine ⟨by omega, ok.2.imp ?_ (And.imp_right ends)⟩
  exact Or.imp (Or.imp (Or.imp (Or.imp ends ends) ends) ends) (And.imp_right ends)

/-- The address lies in a region that allows the access. -/
def Backed (lay : Layout) (access : Access) (va : Nat) : Prop :=
  ∃ g ∈ lay.ram, g.Holds va ∧ g.perm.r ∧ (access = .write → g.perm.w)

theorem Backed.loadable {va : Usize} (backed : Backed lay access va.toNat) : lay.loadable true va := by
  obtain ⟨g, mem, holds, readable, -⟩ := backed
  simp [Layout.loadable, lay.leaf_of_mem mem holds, readable]

theorem Backed.storable {va : Usize} (backed : Backed lay .write va.toNat) : lay.storable true va := by
  obtain ⟨g, mem, holds, -, writable⟩ := backed
  simp [Layout.storable, lay.leaf_of_mem mem holds, writable rfl]

theorem backed_urw {lo hi : Nat} (mem : ⟨lo, hi, .urw⟩ ∈ lay.ram) {va : Nat} (lower : lo ≤ va) (upper : va < hi) :
    Backed lay access va :=
  ⟨_, mem, ⟨lower, upper⟩, rfl, fun _ => rfl⟩

theorem toNat_addr {n : Nat} (small : n < ramL1Start) : (addr n).toNat = n := by
  rw [addr, BitVec.toNat_ofNat, Nat.mod_eq_of_lt]
  exact Nat.lt_trans small (by decide)

/-- The software check refines the map: every byte of an admitted range is backed. -/
theorem rangeOk_backed (inv : t.Inv lay id) (known : id < maxTasks) (ok : rangeOk lay t ptr len access) {i : Nat}
    (inside : i < len) : Backed lay access (ptr.toNat + i) := by
  have top := lay.kstackTop_lt known
  have base : t.brkBase.toNat = (lay.slotAt id).brkBase := by
    rw [inv.brkBase, toNat_addr]
    simp only [Layout.slotAt, Slot.from] at top ⊢
    omega
  have wall : t.brk.toNat ≤ (lay.slotAt id).brkWall := by
    have below : t.brk.toNat ≤ t.brkWall.toNat := inv.below
    rw [inv.brkWall, toNat_addr] at below
    · exact below
    · simp only [Layout.slotAt, Slot.from] at top ⊢
      omega
  have udata : ⟨lay.udataStart, lay.udataEnd, .urw⟩ ∈ lay.ram := by simp [Layout.ram]
  have ubss : ⟨lay.ubssStart, lay.ubssEnd, .urw⟩ ∈ lay.ram := by simp [Layout.ram]
  simp only [rangeOk, inInterval, contains, Bool.and_eq_true, Bool.or_eq_true, decide_eq_true_eq, ge_iff_le,
    inv.id_eq, beq_iff_eq] at ok
  obtain ⟨-, ((((stack | live) | data) | bss) | ⟨adjacent, both⟩) | ⟨read, rodata⟩⟩ := ok
  · have mem : ⟨_, _, .urw⟩ ∈ (lay.slotAt id).regions := List.mem_cons_self
    exact backed_urw (lay.slotRegion_mem known mem) (by omega) (by omega)
  · have mem : ⟨_, _, .urw⟩ ∈ (lay.slotAt id).regions := List.mem_cons_of_mem _ List.mem_cons_self
    exact backed_urw (lay.slotRegion_mem known mem) (by omega) (by omega)
  · exact backed_urw udata (by omega) (by omega)
  · exact backed_urw ubss (by omega) (by omega)
  · -- A range across `.udata` and `.ubss` is admitted as a whole; each byte is in one of them.
    by_cases lower : ptr.toNat + i < lay.udataEnd
    · exact backed_urw udata (by omega) lower
    · exact backed_urw ubss (by omega) (by omega)
  · have mem : ⟨lay.urodataStart, lay.urodataEnd, .ur⟩ ∈ lay.ram := by simp [Layout.ram]
    have lower : lay.urodataStart ≤ ptr.toNat + i := by omega
    have upper : ptr.toNat + i < lay.urodataEnd := by omega
    exact ⟨_, mem, ⟨lower, upper⟩, rfl, fun write => by rw [read] at write; cases write⟩

theorem toNat_add_addr (ok : rangeOk lay t ptr len access) {i : Nat} (inside : i < len) :
    (ptr + addr i).toNat = ptr.toNat + i := by
  simp only [rangeOk, Bool.and_eq_true, decide_eq_true_eq] at ok
  rw [addr, BitVec.toNat_add, BitVec.toNat_ofNat]
  omega

theorem rangeOk_all (inv : t.Inv lay id) (known : id < maxTasks) (ok : rangeOk lay t ptr len access) {allowed : Usize → Bool}
    (each : ∀ va : Usize, Backed lay access va.toNat → allowed va) :
    (List.range len).all fun i => allowed (ptr + addr i) := by
  rw [List.all_eq_true]
  intro i inside
  rw [List.mem_range] at inside
  have backed := rangeOk_backed inv known ok inside
  rw [← toNat_add_addr ok inside] at backed
  exact each _ backed

theorem loadBytes_returns (inv : t.Inv lay id) (known : id < maxTasks) (ok : rangeOk lay t ptr len access)
    (mem : Asm.Memory) : Returns (loadBytes lay mem ptr len) (·.length = len) := by
  rw [loadBytes, if_pos (rangeOk_all inv known ok fun _ backed => backed.loadable)]
  exact .ok (by simp)

theorem storeBytes_returns (inv : t.Inv lay id) (known : id < maxTasks) {bytes : List U8}
    (ok : rangeOk lay t ptr bytes.length .write) (mem : Asm.Memory) :
    Returns (storeBytes lay mem ptr bytes) fun _ => True := by
  rw [storeBytes, if_pos (rangeOk_all inv known ok fun _ backed => backed.storable)]
  exact .ok trivial

def copyLen (len : Usize) : Nat := min len.toNat copyMax

theorem copyFromUser_returns (inv : t.Inv lay id) (known : id < maxTasks) (mem : Asm.Memory) (src len : Usize) :
    Returns (copyFromUser lay mem t src len) fun r =>
      if rangeOk lay t src (copyLen len) .read then ∃ bytes, r = .ok bytes ∧ bytes.length = copyLen len
      else ∃ e, r = .error e := by
  have here : t.id < maxTasks := inv.id_eq.symm ▸ known
  unfold copyFromUser
  change Returns (classify lay t src (copyLen len) .read >>= _) _
  rw [classify_eq here, bind_ok]
  by_cases ok : rangeOk lay t src (copyLen len) .read
  · rw [classified_ok ok]
    simp only [if_pos ok]
    by_cases none : copyLen len = 0
    · rw [copyLen] at none
      simp only [none, if_true]
      exact .ok ⟨[], rfl, by rw [copyLen, none]; rfl⟩
    · rw [copyLen] at none
      rw [if_neg none]
      exact (loadBytes_returns inv known ok mem).bind fun bytes length => .ok ⟨bytes, rfl, length⟩
  · obtain ⟨e, refused⟩ := classified_error ok
    rw [refused]
    simp only [if_neg ok]
    exact .ok ⟨e, rfl⟩

theorem copyToUser_returns (inv : t.Inv lay id) (known : id < maxTasks) (mem : Asm.Memory) {dst : Usize} {src : List U8}
    (ok : rangeOk lay t dst src.length .write) : Returns (copyToUser lay mem t dst src) fun r => ∃ m n, r = .ok (m, n) := by
  have here : t.id < maxTasks := inv.id_eq.symm ▸ known
  have capped := rangeOk_mono ok (Nat.min_le_left src.length copyMax)
  unfold copyToUser
  dsimp only
  rw [classify_eq here, bind_ok, classified_ok capped]
  dsimp only
  split
  · exact .ok ⟨_, _, rfl⟩
  · have length : (src.take (min src.length copyMax)).length = min src.length copyMax := by simp
    have same : rangeOk lay t dst (src.take (min src.length copyMax)).length .write := length.symm ▸ capped
    exact (storeBytes_returns inv known same mem).bind fun _ _ => .ok ⟨_, _, rfl⟩

end

end Whimbrel.Uaccess

import Whimbrel.Page.Space
import Whimbrel.Syscall

/-! The pointer check against the page tables.

`user_range_ok` compares addresses with linker symbols and the task's break; the
copies then go through the tables `build` left. The symbols are any that
`check_layout` and `build` accept, not only those of `linker.ld`. -/

set_option autoImplicit false

namespace Whimbrel

open Checked Radix Uaccess

namespace Symbols

def guard : Nat := 4 * 1024
def stack : Nat := 8 * 1024
def brkBytes : Nat := 64 * 1024

def require (got want : Nat) : Result Unit := if got ≠ want then .error .taskLayout else .ok ()

def requireAligned (addr : Nat) : Result Unit := if addr % pageSize ≠ 0 then .error .taskLayout else .ok ()

def wrappingSub (a b : Nat) : Nat := (a + 2 ^ 64 - b) % 2 ^ 64

def plus (cfg : Config) (a b : Nat) : Result Nat :=
  if a + b < 2 ^ 64 then .ok (a + b) else if cfg.dev then .error .overflow else .ok ((a + b) % 2 ^ 64)

def checkSlot (cfg : Config) (s : Slot) : Result Unit := do
  requireAligned s.ustackGuard
  require (wrappingSub s.ustackBottom s.ustackGuard) guard
  require (wrappingSub s.ustackTop s.ustackBottom) stack
  require (wrappingSub s.brkWall s.brkBase) brkBytes
  require (wrappingSub s.kstackBottom s.kstackGuard) guard
  require (wrappingSub s.kstackTop s.kstackBottom) stack
  -- one condition of seven comparisons, each evaluated only if those before it fail
  require s.ustackBottom (← plus cfg s.ustackGuard guard)
  require s.ustackTop (← plus cfg s.ustackBottom stack)
  require s.brkBase s.ustackTop
  require s.brkWall (← plus cfg s.brkBase brkBytes)
  require s.kstackGuard s.brkWall
  require s.kstackBottom (← plus cfg s.kstackGuard guard)
  require s.kstackTop (← plus cfg s.kstackBottom stack)

def checkLayout (cfg : Config) (sym : Symbols) : Result Unit := do
  requireAligned sym.utextStart
  requireAligned sym.urodataStart
  requireAligned sym.udataStart
  requireAligned sym.ubssStart
  requireAligned sym.tasksStart
  if ¬ (sym.utextStart ≤ sym.utextEnd ∧ sym.utextEnd ≤ sym.urodataStart ∧ sym.urodataStart ≤ sym.urodataEnd ∧
      sym.urodataEnd ≤ sym.udataStart ∧ sym.udataStart ≤ sym.udataEnd ∧ sym.udataEnd ≤ sym.ubssStart ∧
      sym.ubssStart ≤ sym.ubssEnd ∧ sym.ubssEnd ≤ sym.tasksStart ∧ sym.tasksStart < sym.tasksEnd ∧
      sym.tasksEnd ≤ sym.kernelEnd ∧ sym.kernelEnd = sym.heapStart) then throw .taskLayout
  if sym.tasksEnd - sym.tasksStart ≠ maxTasks * taskReserve then throw .taskLayout
  (List.range maxTasks).forM fun id => do checkSlot cfg (← sym.slot id)

theorem require_then {got want : Nat} {rest : Unit → Result Unit} (passed : (require got want >>= rest) = .ok ()) :
    got = want ∧ rest () = .ok () := by
  obtain ⟨⟨⟩, first, passed⟩ := bind_eq_ok passed
  exact ⟨not_not.mp (check_eq_ok first).1, passed⟩

theorem plus_then {cfg : Config} {a b : Nat} {rest : Nat → Result Unit} (passed : (plus cfg a b >>= rest) = .ok ())
    (small : a + b < 2 ^ 64) : rest (a + b) = .ok () := by
  rw [plus, if_pos small] at passed
  exact passed

theorem slot_eq_from {cfg : Config} {s : Slot} (passed : checkSlot cfg s = .ok ())
    (low : s.ustackGuard + taskReserve ≤ 2 ^ 38) : s = .from s.ustackGuard := by
  unfold checkSlot at passed
  simp only [taskReserve, guard, stack, brkBytes] at low passed
  obtain ⟨⟨⟩, -, passed⟩ := bind_eq_ok passed
  obtain ⟨-, passed⟩ := require_then passed
  obtain ⟨-, passed⟩ := require_then passed
  obtain ⟨-, passed⟩ := require_then passed
  obtain ⟨-, passed⟩ := require_then passed
  obtain ⟨-, passed⟩ := require_then passed
  -- each sum stays below the slot's end
  obtain ⟨ustackBottom, passed⟩ := require_then (plus_then passed (by omega))
  obtain ⟨ustackTop, passed⟩ := require_then (plus_then passed (by omega))
  obtain ⟨brkBase, passed⟩ := require_then passed
  obtain ⟨brkWall, passed⟩ := require_then (plus_then passed (by omega))
  obtain ⟨kstackGuard, passed⟩ := require_then passed
  obtain ⟨kstackBottom, passed⟩ := require_then (plus_then passed (by omega))
  have kstackTop := not_not.mp (check_eq_ok (plus_then passed (by omega))).1
  obtain ⟨g0, g1, g2, g3, g4, g5, g6, g7⟩ := s
  simp only [Slot.from, Slot.mk.injEq, true_and] at *
  omega

theorem slot_of_checkLayout {cfg : Config} {sym : Symbols} (passed : checkLayout cfg sym = .ok ()) {id : Nat}
    (known : id < maxTasks) : checkSlot cfg (sym.slotAt id) = .ok () := by
  unfold checkLayout at passed
  obtain ⟨⟨⟩, -, passed⟩ := bind_eq_ok passed
  obtain ⟨⟨⟩, -, passed⟩ := bind_eq_ok passed
  obtain ⟨⟨⟩, -, passed⟩ := bind_eq_ok passed
  obtain ⟨⟨⟩, -, passed⟩ := bind_eq_ok passed
  obtain ⟨⟨⟩, -, passed⟩ := bind_eq_ok passed
  obtain ⟨-, passed⟩ := check_eq_ok passed
  obtain ⟨-, passed⟩ := check_eq_ok passed
  have each := forM_eq_ok passed id (List.mem_range.mpr known)
  rwa [slot, if_pos known] at each

/-! ## The pointer check and the copies -/

variable (sym : Symbols) (t : Task)

def inInterval (s : Slot) (ptr fin : Nat) (access : Access) : Bool :=
  contains s.ustackBottom s.ustackTop ptr fin ||
  contains t.brkBase.toNat t.brk.toNat ptr fin ||
  contains sym.udataStart sym.udataEnd ptr fin || contains sym.ubssStart sym.ubssEnd ptr fin ||
  (sym.udataEnd == sym.ubssStart && contains sym.udataStart sym.ubssEnd ptr fin) ||
  (access == .read && contains sym.urodataStart sym.urodataEnd ptr fin)

def userRangeOk (ptr : Usize) (len : Nat) (access : Access) : Result Bool := do
  -- `checked_add`
  if ptr.toNat + len ≥ 2 ^ 64 then return false
  let s ← sym.slot t.id
  return sym.inInterval t s ptr.toNat (ptr.toNat + len) access

theorem userRangeOk_symbols (lay : Layout) : lay.symbols.userRangeOk = Uaccess.userRangeOk lay := rfl

def classify (ptr : Usize) (len : Nat) (access : Access) : Result (Except UserPtrError Unit) := do
  if ← sym.userRangeOk t ptr len access then return .ok ()
  if len > 0 then
    if ← sym.userRangeOk t ptr 1 access then return .error .spansPastInterval
  return .error .notInUserInterval

/-- An S-mode access with `SUM` set does not fault: the leaf has the bits of the access. -/
def allows (s : Page.Phys) (root : Usize) (access : Access) (va : Usize) : Bool :=
  match Page.walk s root va with
  | .ok (.mapped _ raw _) =>
    match access with
    | .read => Page.pteBit raw 1 && Page.pteBit raw 6
    | .write => Page.pteBit raw 2 && Page.pteBit raw 6 && Page.pteBit raw 7
  | _ => false

def allowsAll (s : Page.Phys) (root : Usize) (access : Access) (ptr : Usize) (n : Nat) : Bool :=
  (List.range n).all fun i => allows s root access (ptr + addr i)

/-- The memory is by virtual address; every leaf `build` makes is an identity leaf. -/
def copyFromUser (s : Page.Phys) (root : Usize) (mem : Asm.Memory) (src len : Usize) :
    Result (Except UserPtrError (List U8)) := do
  let n := min len.toNat copyMax
  match ← sym.classify t src n .read with
  | .error e => return .error e
  | .ok () =>
    if n = 0 then return .ok []
    if ¬ allowsAll s root .read src n then throw .kernelFault
    return .ok ((List.range n).map fun i => mem (src + addr i))

def copyToUser (s : Page.Phys) (root : Usize) (mem : Asm.Memory) (dst : Usize) (src : List U8) :
    Result (Except UserPtrError (Asm.Memory × Nat)) := do
  let n := min src.length copyMax
  match ← sym.classify t dst n .write with
  | .error e => return .error e
  | .ok () =>
    if n = 0 then return .ok (mem, 0)
    if ¬ allowsAll s root .write dst n then throw .kernelFault
    return .ok (fun a => (src.take n).getD (a - dst).toNat (mem a), n)

end Symbols

def Task.sbrk (t : Task) (delta : Usize) : Task :=
  match Kernel.checkedAddSigned t.brk delta with
  | none => t
  | some new => if new > t.brkWall ∨ new < t.brkBase then t else { t with brk := new }

theorem Kernel.sysSbrk_task {cfg : Config} {k : Kernel} {c : Nat} {t : Task} {r : Kernel × Outcome} (runs : Runs k c t)
    (done : k.sysSbrk cfg t.frame = .ok r) : r.1.tasks c = some (t.sbrk (k.a0 t.frame)) := by
  have kept {k' : Kernel} {error value : Usize} (done : k'.answer cfg t.frame error value = .ok r) :
      r.1.tasks = k'.tasks := by
    obtain ⟨m, advanced, rest⟩ := bind_eq_ok done
    cases rest
    obtain ⟨sepc, -, stored⟩ := bind_eq_ok advanced
    cases stored
    rfl
  rw [sysSbrk, runs.current, bind_ok] at done
  dsimp only at done
  rw [Task.sbrk]
  cases sum : checkedAddSigned t.brk (k.a0 t.frame) with
  | none =>
    rw [sum] at done
    rw [kept done]
    exact runs.task
  | some new =>
    rw [sum] at done
    dsimp only at done ⊢
    by_cases outside : new > t.brkWall ∨ new < t.brkBase
    · rw [if_pos outside] at done ⊢
      rw [kept done]
      exact runs.task
    · rw [if_neg outside] at done ⊢
      rw [kept done]
      exact Function.update_self ..

namespace Symbols

variable (sym : Symbols)

def created (id : Nat) : Task :=
  let s := sym.slotAt id
  { id, state := .ready, frame := addr (s.kstackTop - Trap.frameSize.toNat), kstackTop := addr s.kstackTop
    ustackTop := addr s.ustackTop, brkBase := addr s.brkBase, brk := addr s.brkBase, brkWall := addr s.brkWall
    exitCode := 0, writes := 0, yields := 0 }

theorem created_symbols (lay : Layout) (id : Nat) : lay.symbols.created id = Kernel.created lay id := rfl

/-- What `sbrk` keeps of the task of slot `id`. -/
structure Holds (id : Nat) (t : Task) : Prop where
  id_eq : t.id = id
  brkBase : t.brkBase = addr (sym.slotAt id).brkBase
  brkWall : t.brkWall = addr (sym.slotAt id).brkWall
  above : t.brkBase ≤ t.brk
  below : t.brk ≤ t.brkWall

variable {sym} {id : Nat} {t : Task}

theorem Holds.created (grows : addr (sym.slotAt id).brkBase ≤ addr (sym.slotAt id).brkWall) :
    sym.Holds id (sym.created id) :=
  ⟨rfl, rfl, rfl, BitVec.le_refl _, grows⟩

theorem Holds.sbrk (holds : sym.Holds id t) (delta : Usize) : sym.Holds id (t.sbrk delta) := by
  unfold Task.sbrk
  split
  · exact holds
  · split
    · exact holds
    · rename_i inside
      rw [not_or, BitVec.not_lt, BitVec.not_lt] at inside
      exact { holds with above := inside.2, below := inside.1 }

theorem Holds.sbrks (holds : sym.Holds id t) (deltas : List Usize) : sym.Holds id (deltas.foldl Task.sbrk t) := by
  induction deltas generalizing t with
  | nil => exact holds
  | cons delta deltas ih => exact ih (holds.sbrk delta)

/-- An address of the task's stack, of its break up to `brk`, or of the sections all tasks share. -/
def Own (sym : Symbols) (t : Task) (va : Nat) : Prop :=
  ((sym.slotAt t.id).ustackBottom ≤ va ∧ va < (sym.slotAt t.id).ustackTop) ∨
  (t.brkBase.toNat ≤ va ∧ va < t.brk.toNat) ∨
  (sym.urodataStart ≤ va ∧ va < sym.urodataEnd) ∨ (sym.udataStart ≤ va ∧ va < sym.udataEnd) ∨
  (sym.ubssStart ≤ va ∧ va < sym.ubssEnd)

def Private (sym : Symbols) (id va : Nat) : Prop :=
  ((sym.slotAt id).ustackBottom ≤ va ∧ va < (sym.slotAt id).ustackTop) ∨
  ((sym.slotAt id).brkBase ≤ va ∧ va < (sym.slotAt id).brkWall)

theorem private_region {va : Nat} (owned : sym.Private id va) : ∃ g ∈ (sym.slotAt id).regions, g.Holds va := by
  rcases owned with stack | brk
  · exact ⟨⟨_, _, .urw⟩, List.mem_cons_self, stack⟩
  · exact ⟨⟨_, _, .urw⟩, List.mem_cons_of_mem _ List.mem_cons_self, brk⟩

/-- Every address of an admitted range is the task's own, in a region that allows the access. -/
theorem Holds.backed (holds : sym.Holds id t) (low : (sym.slotAt id).brkBase < 2 ^ 64 ∧ (sym.slotAt id).brkWall < 2 ^ 64)
    {ptr fin : Nat} {access : Access} (ok : sym.inInterval t (sym.slotAt id) ptr fin access) {va : Nat} (lower : ptr ≤ va)
    (upper : va < fin) :
    sym.Own t va ∧ ∃ g, (g ∈ (sym.slotAt id).regions ∨ g ∈ Page.sectionRegions sym) ∧ g.Holds va ∧ g.perm.r ∧ g.perm.u ∧
      (access = .write → g.perm.w) := by
  have base : t.brkBase.toNat = (sym.slotAt id).brkBase := by
    rw [holds.brkBase, addr, BitVec.toNat_ofNat, Nat.mod_eq_of_lt low.1]
  have wall : t.brk.toNat ≤ (sym.slotAt id).brkWall := by
    have below : t.brk.toNat ≤ t.brkWall.toNat := holds.below
    rwa [holds.brkWall, addr, BitVec.toNat_ofNat, Nat.mod_eq_of_lt low.2] at below
  have inSection {g : Region} {i : Nat} (there : (Page.sectionRegions sym)[i]? = some g) :
      g ∈ (sym.slotAt id).regions ∨ g ∈ Page.sectionRegions sym := .inr (List.mem_of_getElem? there)
  have data (here : sym.udataStart ≤ va ∧ va < sym.udataEnd) :
      sym.Own t va ∧ ∃ g, (g ∈ (sym.slotAt id).regions ∨ g ∈ Page.sectionRegions sym) ∧ g.Holds va ∧ g.perm.r ∧
        g.perm.u ∧ (access = .write → g.perm.w) :=
    ⟨.inr (.inr (.inr (.inl here))), ⟨_, _, .urw⟩, inSection (i := 6) rfl, here, rfl, rfl, fun _ => rfl⟩
  have bss (here : sym.ubssStart ≤ va ∧ va < sym.ubssEnd) :
      sym.Own t va ∧ ∃ g, (g ∈ (sym.slotAt id).regions ∨ g ∈ Page.sectionRegions sym) ∧ g.Holds va ∧ g.perm.r ∧
        g.perm.u ∧ (access = .write → g.perm.w) :=
    ⟨.inr (.inr (.inr (.inr here))), ⟨_, _, .urw⟩, inSection (i := 7) rfl, here, rfl, rfl, fun _ => rfl⟩
  simp only [inInterval, contains, Bool.and_eq_true, Bool.or_eq_true, decide_eq_true_eq, ge_iff_le, beq_iff_eq] at ok
  obtain ((((stack | live) | inData) | inBss) | ⟨adjacent, both⟩) | ⟨read, rodata⟩ := ok
  · have here : (sym.slotAt id).ustackBottom ≤ va ∧ va < (sym.slotAt id).ustackTop := by omega
    refine ⟨.inl ?_, ⟨_, _, .urw⟩, .inl List.mem_cons_self, here, rfl, rfl, fun _ => rfl⟩
    rw [holds.id_eq]
    exact here
  · have here : t.brkBase.toNat ≤ va ∧ va < t.brk.toNat := by omega
    have window : (sym.slotAt id).brkBase ≤ va ∧ va < (sym.slotAt id).brkWall := by omega
    exact ⟨.inr (.inl here), ⟨_, _, .urw⟩, .inl (List.mem_cons_of_mem _ List.mem_cons_self), window, rfl, rfl, fun _ => rfl⟩
  · exact data (by omega)
  · exact bss (by omega)
  · -- adjacent sections count as one interval
    by_cases first : va < sym.udataEnd
    · exact data (by omega)
    · exact bss (by omega)
  · have here : sym.urodataStart ≤ va ∧ va < sym.urodataEnd := by omega
    refine ⟨.inr (.inr (.inl here)), ⟨_, _, .ur⟩, inSection (i := 5) rfl, here, rfl, rfl, fun write => ?_⟩
    rw [read] at write
    cases write

end Symbols

namespace Page

section
variable {sym : Symbols} (apart : (spans sym).Pairwise fun g h => Apart g.toRegion h.toRegion)
include apart

theorem slots_apart {id other : Nat} (known : id < maxTasks) (known' : other < maxTasks) (distinct : other ≠ id)
    {g h : Region} (inG : g ∈ (sym.slotAt id).regions ∨ g ∈ sectionRegions sym) (inH : h ∈ (sym.slotAt other).regions) :
    Apart g h := by
  have lower := (List.pairwise_append.mp apart).1
  obtain ⟨-, slots, cross⟩ := List.pairwise_append.mp lower
  have place {id : Nat} (known : id < maxTasks) {g : Region} (mem : g ∈ (sym.slotAt id).regions) :
      Span.mk g 0 ∈ (List.range maxTasks).flatMap (fun id => (sym.slotAt id).regions.map (Span.mk · 0)) :=
    List.mem_flatMap.mpr ⟨id, List.mem_range.mpr known, List.mem_map_of_mem mem⟩
  rcases inG with inSlot | inSection
  · have between := (List.pairwise_flatMap.mp slots).2
    rcases Nat.lt_or_gt_of_ne distinct with before | after
    · have each := List.pairwise_iff_getElem.mp between other id (by simpa using known') (by simpa using known) before
      rw [List.getElem_range, List.getElem_range] at each
      exact (each _ (List.mem_map_of_mem inH) _ (List.mem_map_of_mem inSlot)).symm
    · have each := List.pairwise_iff_getElem.mp between id other (by simpa using known) (by simpa using known') after
      rw [List.getElem_range, List.getElem_range] at each
      exact each _ (List.mem_map_of_mem inSlot) _ (List.mem_map_of_mem inH)
  · exact cross _ (List.mem_map_of_mem inSection) _ (place known' inH)

end

/-! ## The check refines the tables -/

section
variable {cfg : Config} {sym : Symbols} {s s' : Phys} {root : Usize}

def LowSlots (sym : Symbols) : Prop := ∀ id < maxTasks, (sym.slotAt id).ustackGuard + taskReserve ≤ 2 ^ 38

theorem slot_low (accepted : Symbols.checkLayout cfg sym = .ok ()) (low : LowSlots sym) {id : Nat} (known : id < maxTasks) :
    (sym.slotAt id).brkBase ≤ (sym.slotAt id).brkWall ∧ (sym.slotAt id).brkWall < 2 ^ 38 ∧
      ∀ g ∈ (sym.slotAt id).regions, g.hi ≤ 2 ^ 38 := by
  have below := low id known
  rw [Symbols.slot_eq_from (Symbols.slot_of_checkLayout accepted known) below]
  simp only [taskReserve] at below
  simp only [Slot.regions, Slot.from, List.forall_mem_cons, List.not_mem_nil, false_imp_iff, implies_true, and_true]
  omega

theorem spans_low (accepted : Symbols.checkLayout cfg sym = .ok ()) (checks : Checks sym) (low : LowSlots sym) :
    ∀ g ∈ spans sym, g.hi ≤ 2 ^ 38 := by
  obtain ⟨-, -, ordered, -, user, heap⟩ := checks
  simp only [Ordered, UserOrdered, ramEnd, ramL1Start] at ordered user heap
  refine List.forall_mem_append.mpr ⟨List.forall_mem_append.mpr ⟨?_, ?_⟩, ?_⟩
  · simp only [sectionRegions, List.map_cons, List.map_nil, List.forall_mem_cons, List.not_mem_nil, false_imp_iff,
      implies_true, and_true]
    and_intros <;> omega
  · intro g mem
    obtain ⟨id, known, inside⟩ := List.mem_flatMap.mp mem
    obtain ⟨h, here, rfl⟩ := List.mem_map.mp inside
    exact (slot_low accepted low (List.mem_range.mp known)).2.2 h here
  · simp only [ramL1Start, ramEnd, mmioEnd, List.forall_mem_cons, List.not_mem_nil, false_imp_iff, implies_true, and_true]
    omega

theorem mem_spans {id : Nat} (known : id < maxTasks) {g : Region}
    (mem : g ∈ (sym.slotAt id).regions ∨ g ∈ sectionRegions sym) : Span.mk g 0 ∈ spans sym := by
  rcases mem with inSlot | inSection
  · exact slot_mem_spans known inSlot
  · exact section_mem_spans inSection

theorem flagsMatch_bits {raw : U64} {p : Perm} (flags : flagsMatch raw p) :
    pteBit raw 1 = p.r ∧ pteBit raw 2 = p.w ∧ pteBit raw 3 = p.x ∧ pteBit raw 4 = p.u ∧ pteBit raw 6 ∧ pteBit raw 7 := by
  obtain ⟨-, r, w, x, u, -, accessed, dirty⟩ := flagsMatch_iff.mp flags
  simp only [pteBit_eq]
  exact ⟨r, w, x, u, accessed, dirty⟩

/-- What holds of an address in a range the check admits. -/
structure Admitted (sym : Symbols) (s : Phys) (root : Usize) (t : Task) (access : Access) (va : Usize) : Prop where
  leaf : ∃ raw level, walk s root va = .ok (.mapped va raw level) ∧ pteBit raw 4 ∧ pteBit raw 1 ∧
    (access = .write → pteBit raw 2) ∧ pteBit raw 6 ∧ pteBit raw 7
  own : sym.Own t va.toNat
  foreign : ∀ other < maxTasks, other ≠ t.id → ¬ sym.Private other va.toNat

theorem Admitted.allows {t : Task} {access : Access} {va : Usize} (admitted : Admitted sym s root t access va) :
    Symbols.allows s root access va := by
  obtain ⟨raw, level, walked, -, readable, writable, accessed, dirty⟩ := admitted.leaf
  rw [Symbols.allows, walked]
  cases access with
  | read => simp [readable, accessed]
  | write => simp [writable rfl, accessed, dirty]

/-- The range does not wrap, and what holds of each of its addresses. -/
def AllAdmitted (sym : Symbols) (s : Phys) (root : Usize) (t : Task) (access : Access) (ptr : Usize) (len : Nat) : Prop :=
  ptr.toNat + len < 2 ^ 64 ∧
    ∀ va : Usize, ptr.toNat ≤ va.toNat → va.toNat < ptr.toNat + len → Admitted sym s root t access va

theorem AllAdmitted.offset {t : Task} {access : Access} {ptr : Usize} {len i : Nat}
    (all : AllAdmitted sym s root t access ptr len) (inside : i < len) : Admitted sym s root t access (ptr + addr i) := by
  have fits := all.1
  have sum : (ptr + addr i).toNat = ptr.toNat + i := by
    rw [addr, BitVec.toNat_add, BitVec.toNat_ofNat]
    omega
  exact all.2 _ (by omega) (by omega)

theorem AllAdmitted.allowsAll {t : Task} {access : Access} {ptr : Usize} {len : Nat}
    (all : AllAdmitted sym s root t access ptr len) : Symbols.allowsAll s root access ptr len :=
  List.all_eq_true.mpr fun _ inside => (all.offset (List.mem_range.mp inside)).allows

theorem userRangeOk_eq {t : Task} (known : t.id < maxTasks) (ptr : Usize) (len : Nat) (access : Access) :
    sym.userRangeOk t ptr len access = .ok (decide (ptr.toNat + len < 2 ^ 64) &&
      sym.inInterval t (sym.slotAt t.id) ptr.toNat (ptr.toNat + len) access) := by
  rw [Symbols.userRangeOk, Symbols.slot, if_pos known]
  by_cases wraps : ptr.toNat + len ≥ 2 ^ 64
  · rw [if_pos wraps, decide_eq_false (Nat.not_lt.mpr wraps), Bool.false_and]
    rfl
  · rw [if_neg wraps, decide_eq_true (Nat.not_le.mp wraps), Bool.true_and]
    rfl

theorem classify_returns {t : Task} (known : t.id < maxTasks) (ptr : Usize) (len : Nat) (access : Access) :
    ∃ r, sym.classify t ptr len access = .ok r ∧ (r = .ok () → sym.userRangeOk t ptr len access = .ok true) := by
  unfold Symbols.classify
  simp only [userRangeOk_eq known, bind_ok]
  split
  · rename_i whole
    exact ⟨_, rfl, fun _ => by rw [whole]⟩
  · split
    · split
      · exact ⟨_, rfl, fun refused => by cases refused⟩
      · exact ⟨_, rfl, fun refused => by cases refused⟩
    · exact ⟨_, rfl, fun refused => by cases refused⟩

/-- The check admits only addresses the tables map for the user. -/
theorem admitted_of_userRangeOk {ppn : Ppn} {need : List (List Index)} (tables : Tables ppn need (buildCalls sym) s')
    (good : ∀ g ∈ spans sym, g.Good ∧ g.hi ≤ 2 ^ 38) {id : Nat} (known : id < maxTasks) {t : Task} (holds : sym.Holds id t)
    (low : (sym.slotAt id).brkBase < 2 ^ 64 ∧ (sym.slotAt id).brkWall < 2 ^ 64) {ptr : Usize} {len : Nat} {access : Access}
    (ok : sym.userRangeOk t ptr len access = .ok true) : AllAdmitted sym s' (frameAddr ppn) t access ptr len := by
  rw [userRangeOk_eq (holds.id_eq.symm ▸ known), Except.ok.injEq, Bool.and_eq_true, decide_eq_true_eq, holds.id_eq] at ok
  obtain ⟨fits, inside⟩ := ok
  refine ⟨fits, fun va lower upper => ?_⟩
  obtain ⟨own, g, mem, here, readable, user, writable⟩ := holds.backed low inside lower upper
  obtain ⟨raw, walked, flags⟩ := walk_of_holds tables good (mem_spans known mem) here
  obtain ⟨r, w, -, u, accessed, dirty⟩ := flagsMatch_bits flags
  refine ⟨⟨raw, 0, walked, u.trans user, r.trans readable, fun write => w.trans (writable write), accessed, dirty⟩, own, ?_⟩
  intro other known' distinct owned
  rw [holds.id_eq] at distinct
  obtain ⟨h, inH, there⟩ := Symbols.private_region owned
  have below : va.toNat < 2 ^ 38 := Nat.lt_of_lt_of_le here.2 (good _ (mem_spans known mem)).2
  exact slots_apart (spans_apart tables good) known known' distinct mem inH va.toNat below here there

section
variable {t : Task} (known : t.id < maxTasks)
  (admits : ∀ {ptr len access}, sym.userRangeOk t ptr len access = .ok true → AllAdmitted sym s root t access ptr len)
include known admits

theorem copyFromUser_admitted (mem : Asm.Memory) (src len : Usize) :
    ∃ r, sym.copyFromUser t s root mem src len = .ok r ∧ ∀ bytes, r = .ok bytes →
      bytes = (List.range (min len.toNat copyMax)).map (fun i => mem (src + addr i)) ∧
      ∀ i < min len.toNat copyMax, Admitted sym s root t .read (src + addr i) := by
  obtain ⟨r, classified, passes⟩ := classify_returns known src (min len.toNat copyMax) .read
  rw [Symbols.copyFromUser]
  dsimp only
  rw [classified, bind_ok]
  cases r with
  | error e => exact ⟨_, rfl, fun bytes refused => by cases refused⟩
  | ok u =>
    have all := admits (passes rfl)
    dsimp only
    split
    · rename_i none
      refine ⟨_, rfl, fun bytes copied => ?_⟩
      cases copied
      simp [none]
    · rw [if_neg (not_not.mpr all.allowsAll)]
      refine ⟨_, rfl, fun bytes copied => ?_⟩
      cases copied
      exact ⟨rfl, fun i inside => all.offset inside⟩

/-- A copy to the user returns, and changes memory at admitted addresses only. -/
theorem copyToUser_admitted (mem : Asm.Memory) (dst : Usize) (src : List U8) :
    ∃ r, sym.copyToUser t s root mem dst src = .ok r ∧ ∀ mem' n, r = .ok (mem', n) → n = min src.length copyMax ∧
      (∀ i < n, some (mem' (dst + addr i)) = src[i]?) ∧
      ∀ va, mem' va ≠ mem va → Admitted sym s root t .write va := by
  obtain ⟨r, classified, passes⟩ := classify_returns known dst (min src.length copyMax) .write
  rw [Symbols.copyToUser]
  dsimp only
  rw [classified, bind_ok]
  cases r with
  | error e => exact ⟨_, rfl, fun mem' n refused => by cases refused⟩
  | ok u =>
    have all := admits (passes rfl)
    dsimp only
    split
    · rename_i none
      refine ⟨_, rfl, fun mem' n copied => ?_⟩
      cases copied
      exact ⟨none.symm, fun i inside => absurd inside (Nat.not_lt_zero i), fun va changed => absurd rfl changed⟩
    · rw [if_neg (not_not.mpr all.allowsAll)]
      refine ⟨_, rfl, fun mem' n copied => ?_⟩
      cases copied
      have length : (src.take (min src.length copyMax)).length = min src.length copyMax :=
        List.length_take_of_le (Nat.min_le_left ..)
      refine ⟨rfl, fun i inside => ?_, fun va changed => ?_⟩
      · dsimp only
        rw [getD_offset (length.trans_le (Nat.min_le_right ..)) (length.symm ▸ inside), List.get_eq_getElem, List.getElem_take]
        exact (List.getElem?_eq_getElem (by omega)).symm
      -- an address where nothing is stored keeps its byte
      · have inside : (va - dst).toNat < min src.length copyMax := by
          by_contra outside
          apply changed
          dsimp only
          rw [List.getD_eq_getElem?_getD, List.getElem?_eq_none (length.trans_le (Nat.not_lt.mp outside))]
          rfl
        have same : dst + addr (va - dst).toNat = va := by
          rw [addr, BitVec.ofNat_toNat, BitVec.setWidth_eq, BitVec.add_comm, BitVec.sub_add_cancel]
        exact same ▸ all.offset inside

end

/-- For slots in the low half: whatever breaks a task has asked for, a range the check admits does not
wrap, all its addresses are identity leaves for the user with the rights of the access, and they are the task's own
and no other task's. The copies do not fault, and read and write at such addresses only. -/
theorem userRangeOk_refines_tables (frames : Frames s.free) (accepted : Symbols.checkLayout cfg sym = .ok ())
    (built : build sym s = .ok (s', root)) (low : LowSlots sym) {id : Nat} (known : id < maxTasks) (deltas : List Usize) :
    let t := deltas.foldl Task.sbrk (sym.created id)
    (t.id = id ∧ t.brkBase ≤ t.brk ∧ t.brk ≤ t.brkWall) ∧
    (∀ ptr len access, sym.userRangeOk t ptr len access = .ok true → ptr.toNat + len < 2 ^ 64 ∧
      ∀ va : Usize, ptr.toNat ≤ va.toNat → va.toNat < ptr.toNat + len → Admitted sym s' root t access va) ∧
    (∀ mem src len, ∃ r, sym.copyFromUser t s' root mem src len = .ok r ∧ ∀ bytes, r = .ok bytes →
      bytes = (List.range (min len.toNat copyMax)).map (fun i => mem (src + addr i)) ∧
      ∀ i < min len.toNat copyMax, Admitted sym s' root t .read (src + addr i)) ∧
    ∀ mem dst src, ∃ r, sym.copyToUser t s' root mem dst src = .ok r ∧ ∀ mem' n, r = .ok (mem', n) →
      n = min src.length copyMax ∧ (∀ i < n, some (mem' (dst + addr i)) = src[i]?) ∧
      ∀ va, mem' va ≠ mem va → Admitted sym s' root t .write va := by
  intro t
  obtain ⟨grows, wall, -⟩ := slot_low accepted low known
  have small : (sym.slotAt id).brkBase < 2 ^ 64 ∧ (sym.slotAt id).brkWall < 2 ^ 64 := by omega
  -- `sbrk` keeps the break within the slot
  have holds : sym.Holds id t := by
    refine (Symbols.Holds.created ?_).sbrks deltas
    rw [BitVec.le_def, addr, addr, BitVec.toNat_ofNat, BitVec.toNat_ofNat, Nat.mod_eq_of_lt small.1,
      Nat.mod_eq_of_lt small.2]
    exact grows
  have here : t.id < maxTasks := holds.id_eq.symm ▸ known
  obtain ⟨good, ppn, rfl, tables⟩ := tables_of_build frames built
  have bounded := spans_low accepted (checks_of_build built) low
  have admits {ptr : Usize} {len : Nat} {access : Access} (ok : sym.userRangeOk t ptr len access = .ok true) :
      AllAdmitted sym s' (frameAddr ppn) t access ptr len :=
    admitted_of_userRangeOk tables (fun g mem => ⟨good g mem, bounded g mem⟩) known holds small ok
  exact ⟨⟨holds.id_eq, holds.above, holds.below⟩, fun ptr len access ok => admits ok,
    copyFromUser_admitted here admits, copyToUser_admitted here admits⟩

end

/-- In the one-page layout task 1 asks for 256 bytes of break; the last of them may then be written, and a copy
there changes no address that is not the task's. -/
theorem userRangeOk_refines_tables_onePages : ∃ s' root, build onePages.symbols fiveFrames = .ok (s', root) ∧
    let t := (onePages.symbols.created 1).sbrk 256
    Admitted onePages.symbols s' root t .write 0x802310ff ∧
    ∃ r, onePages.symbols.copyToUser t s' root (fun _ => 0) 0x802310ff [7] = .ok r ∧
      ∀ mem' n, r = .ok (mem', n) → ∀ va, mem' va ≠ 0 → Admitted onePages.symbols s' root t .write va := by
  obtain ⟨s', ppn, built, -, -⟩ := onePages.build_returns frames_fiveFrames (by decide)
  have low : LowSlots onePages.symbols := by
    unfold LowSlots
    decide
  have checked : Symbols.checkLayout .default onePages.symbols = .ok () := rfl
  obtain ⟨-, admits, -, stores⟩ :=
    @userRangeOk_refines_tables .default _ _ _ _ frames_fiveFrames checked built low 1 (by decide) [256]
  obtain ⟨-, each⟩ := admits 0x802310ff 1 .write (by decide +kernel)
  obtain ⟨r, done, changes⟩ := stores (fun _ => 0) 0x802310ff [7]
  exact ⟨s', _, built, each 0x802310ff (by decide) (by decide), r, done, fun mem' n copied => (changes mem' n copied).2.2⟩

/-- The one-page layout with slot 0 moved to the first address that is not canonical. -/
def farSlot : Symbols :=
  { onePages.symbols with slotAt := fun id => if id = 0 then .from (2 ^ 38) else onePages.symbols.slotAt id }

def sevenFrames : Phys :=
  ⟨fun _ => 0, [0x80600000, 0x80601000, 0x80602000, 0x80603000, 0x80604000, 0x80605000, 0x80606000]⟩

theorem frames_sevenFrames : Frames sevenFrames.free where
  aligned := by simp [sevenFrames]
  low := by simp [sevenFrames]
  nodup := by simp [sevenFrames]

theorem checks_farSlot : Checks farSlot where
  start := rfl
  guard := rfl
  ordered := by decide
  follows := rfl
  user := by decide
  heap := by decide

def farPositions : List (List Index) := [[2], [2, 1], [0], [0, 128], [256], [256, 0]]

theorem calls_farSlot : ∀ c ∈ buildCalls farSlot, ∀ q, q ≠ [] → q <+: c.dir → q ∈ farPositions := by
  intro c mem q below up
  have all : ∀ c ∈ buildCalls farSlot, c.dir.take 1 ∈ farPositions ∧ c.dir.take 2 ∈ farPositions := by decide +kernel
  have taken := c.dir_take below up
  rw [List.mem_cons, List.mem_singleton] at taken
  rcases taken with rfl | rfl
  · exact (all c mem).1
  · exact (all c mem).2

/-- Both checks accept a slot above the canonical low half; its addresses are admitted and do not translate. -/
theorem far_slot_admitted : ∃ s' root, Frames sevenFrames.free ∧ Symbols.checkLayout .default farSlot = .ok () ∧
    build farSlot sevenFrames = .ok (s', root) ∧
    farSlot.userRangeOk (farSlot.created 0) 0x4000001000 1 .read = .ok true ∧
    walk s' root 0x4000001000 = .error .walkNonCanonical := by
  have aligned : ∀ g ∈ spans farSlot, g.Aligned ∧ g.hi ≤ 2 ^ 39 := by decide +kernel
  have good : ∀ g ∈ spans farSlot, g.Good ∧ g.hi ≤ 2 ^ 39 := fun g mem =>
    ⟨⟨(aligned g mem).1, (spans_proper farSlot g mem).1, (spans_proper farSlot g mem).2⟩, (aligned g mem).2⟩
  have disjoint : (spans farSlot).Pairwise fun g h => g.hi ≤ h.lo ∨ h.hi ≤ g.lo := by decide +kernel
  obtain ⟨s', ppn, ran, -, -⟩ := build_returns frames_sevenFrames checks_farSlot good disjoint calls_farSlot (by decide)
  have checked : Symbols.checkLayout .default farSlot = .ok () := rfl
  have admitted : farSlot.userRangeOk (farSlot.created 0) 0x4000001000 1 .read = .ok true := by decide +kernel
  refine ⟨s', _, frames_sevenFrames, checked, ran, admitted, ?_⟩
  rw [walk, if_pos (by decide)]

end Page

end Whimbrel

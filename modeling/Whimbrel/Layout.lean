import Whimbrel.Base

/-! The linker layout and the address space `page::build` maps over it.

`linker.ld` fixes every symbol once the section sizes are known. The map is kept
as its regions, one for each `map_range` of `build`; every address a region
covers translates to itself. -/

set_option autoImplicit false

namespace Whimbrel

def pageSize : Nat := 4096
def kernelStart : Nat := 0x80200000
def ramL1Start : Nat := 0x80400000
def ramEnd : Nat := 0x88000000
def mmioBase : Nat := 0x10001000
def mmioEnd : Nat := 0x10009000

def maxTasks : Nat := 4
def taskReserve : Nat := 88 * 1024

structure Sections where
  text : Nat
  rodata : Nat
  /-- `.data` and `.bss`. -/
  data : Nat
  utext : Nat
  urodata : Nat
  udata : Nat
  ubss : Nat
  deriving DecidableEq, Repr

namespace Sections

variable (s : Sections)

def rodataStart : Nat := kernelStart + pageSize * s.text
def dataStart : Nat := s.rodataStart + pageSize * s.rodata
def bssEnd : Nat := s.dataStart + pageSize * s.data
def bootStackBottom : Nat := s.bssEnd + 4 * 1024
def bootStackTop : Nat := s.bootStackBottom + 64 * 1024
def utextStart : Nat := s.bootStackTop
def utextEnd : Nat := s.utextStart + pageSize * s.utext
def urodataStart : Nat := s.utextEnd
def urodataEnd : Nat := s.urodataStart + pageSize * s.urodata
def udataStart : Nat := s.urodataEnd
def udataEnd : Nat := s.udataStart + pageSize * s.udata
def ubssStart : Nat := s.udataEnd
def ubssEnd : Nat := s.ubssStart + pageSize * s.ubss
def tasksStart : Nat := s.ubssEnd
def tasksEnd : Nat := s.tasksStart + maxTasks * taskReserve
def heapStart : Nat := s.tasksEnd
def heapEnd : Nat := s.heapStart + 1024 * 1024

end Sections

/-- A layout that `page::build` accepts: no kernel section is empty, and the heap
ends below the first 2 MiB leaf. -/
structure Layout extends Sections where
  text_pos : 0 < text
  rodata_pos : 0 < rodata
  data_pos : 0 < data
  fits : toSections.heapEnd < ramL1Start

structure Slot where
  ustackGuard : Nat
  ustackBottom : Nat
  ustackTop : Nat
  brkBase : Nat
  brkWall : Nat
  kstackGuard : Nat
  kstackBottom : Nat
  kstackTop : Nat
  deriving DecidableEq, Repr

def Slot.from (base : Nat) : Slot where
  ustackGuard := base
  ustackBottom := base + 4 * 1024
  ustackTop := base + 12 * 1024
  brkBase := base + 12 * 1024
  brkWall := base + 76 * 1024
  kstackGuard := base + 76 * 1024
  kstackBottom := base + 80 * 1024
  kstackTop := base + 88 * 1024

def Layout.slotAt (lay : Layout) (id : Nat) : Slot := .from (lay.tasksStart + id * taskReserve)

def Layout.slot (lay : Layout) (id : Nat) : Result Slot :=
  if id < maxTasks then .ok (lay.slotAt id) else .error .taskId

theorem Layout.slot_ok (lay : Layout) {id : Nat} (known : id < maxTasks) : lay.slot id = .ok (lay.slotAt id) :=
  if_pos known

structure Perm where
  r : Bool
  w : Bool
  x : Bool
  u : Bool
  deriving DecidableEq, Repr

namespace Perm

/-! `LEAF_RX`, `LEAF_R`, `LEAF_RW`, `LEAF_URX`, `LEAF_UR` and `LEAF_URW`. -/

def rx : Perm := ⟨true, false, true, false⟩
def ro : Perm := ⟨true, false, false, false⟩
def rw : Perm := ⟨true, true, false, false⟩
def urx : Perm := ⟨true, false, true, true⟩
def ur : Perm := ⟨true, false, false, true⟩
def urw : Perm := ⟨true, true, false, true⟩

end Perm

structure Region where
  lo : Nat
  hi : Nat
  perm : Perm
  deriving DecidableEq, Repr

def Region.Holds (g : Region) (va : Nat) : Prop := g.lo ≤ va ∧ va < g.hi

instance (g : Region) (va : Nat) : Decidable (g.Holds va) :=
  inferInstanceAs (Decidable (g.lo ≤ va ∧ va < g.hi))

def Slot.regions (s : Slot) : List Region :=
  [⟨s.ustackBottom, s.ustackTop, .urw⟩, ⟨s.brkBase, s.brkWall, .urw⟩, ⟨s.kstackBottom, s.kstackTop, .rw⟩]

namespace Layout

variable (lay : Layout)

/-- The part of the map from `__kernel_start` up, in the order of `build`. -/
def ram : List Region :=
  [⟨kernelStart, lay.rodataStart, .rx⟩, ⟨lay.rodataStart, lay.dataStart, .ro⟩,
    ⟨lay.dataStart, lay.bssEnd, .rw⟩, ⟨lay.bootStackBottom, lay.bootStackTop, .rw⟩,
    ⟨lay.utextStart, lay.utextEnd, .urx⟩, ⟨lay.urodataStart, lay.urodataEnd, .ur⟩,
    ⟨lay.udataStart, lay.udataEnd, .urw⟩, ⟨lay.ubssStart, lay.ubssEnd, .urw⟩] ++
  (List.range maxTasks).flatMap (fun id => (lay.slotAt id).regions) ++
  [⟨lay.heapStart, lay.heapEnd, .rw⟩, ⟨lay.heapEnd, ramL1Start, .rw⟩, ⟨ramL1Start, ramEnd, .rw⟩]

def regions : List Region := lay.ram ++ [⟨mmioBase, mmioEnd, .rw⟩]

/-- The leaf an address translates through. -/
def leaf (va : Usize) : Option Perm := (lay.regions.find? (·.Holds va.toNat)).map (·.perm)

/-- An S-mode load does not fault: the page is readable, and a user page needs `SUM`. -/
def loadable (sum : Bool) (va : Usize) : Bool :=
  match lay.leaf va with
  | some p => p.r && (!p.u || sum)
  | none => false

def storable (sum : Bool) (va : Usize) : Bool :=
  match lay.leaf va with
  | some p => p.w && (!p.u || sum)
  | none => false

end Layout

def Stacked (lo hi : Nat) : List Region → Prop
  | [] => lo ≤ hi
  | g :: gs => lo ≤ g.lo ∧ g.lo ≤ g.hi ∧ Stacked g.hi hi gs

section
variable {lo mid hi : Nat} {gs : List Region}

theorem Stacked.append {hs : List Region} (lower : Stacked lo mid gs) (upper : Stacked mid hi hs) :
    Stacked lo hi (gs ++ hs) := by
  induction gs generalizing lo with
  | nil =>
    cases hs with
    | nil => exact Nat.le_trans lower upper
    | cons h hs => exact ⟨Nat.le_trans lower upper.1, upper.2⟩
  | cons g gs ih => exact ⟨lower.1, lower.2.1, ih lower.2.2⟩

theorem Stacked.repeat {size : Nat} {part : Nat → List Region}
    (each : ∀ id, Stacked (lo + id * size) (lo + (id + 1) * size) (part id)) (n : Nat) :
    Stacked lo (lo + n * size) ((List.range n).flatMap part) := by
  induction n with
  | zero => exact Nat.le_add_right lo _
  | succ n ih =>
    rw [List.range_succ, List.flatMap_append, List.flatMap_singleton]
    exact ih.append (each n)

theorem Stacked.above (stacked : Stacked lo hi gs) {g : Region} (mem : g ∈ gs) : lo ≤ g.lo := by
  induction gs generalizing lo with
  | nil => cases mem
  | cons a gs ih =>
    rcases List.mem_cons.mp mem with rfl | later
    · exact stacked.1
    · exact Nat.le_trans (Nat.le_trans stacked.1 stacked.2.1) (ih stacked.2.2 later)

theorem Stacked.le (stacked : Stacked lo hi gs) : lo ≤ hi := by
  induction gs generalizing lo with
  | nil => exact stacked
  | cons a gs ih => exact Nat.le_trans (Nat.le_trans stacked.1 stacked.2.1) (ih stacked.2.2)

theorem Stacked.below (stacked : Stacked lo hi gs) {g : Region} (mem : g ∈ gs) : g.hi ≤ hi := by
  induction gs generalizing lo with
  | nil => cases mem
  | cons a gs ih =>
    rcases List.mem_cons.mp mem with rfl | later
    · exact stacked.2.2.le
    · exact ih stacked.2.2 later

/-- No two regions of a stack have an address in common. -/
theorem Stacked.find (stacked : Stacked lo hi gs) {g : Region} (mem : g ∈ gs) {va : Nat}
    (holds : g.Holds va) : gs.find? (·.Holds va) = some g := by
  induction gs generalizing lo with
  | nil => cases mem
  | cons a gs ih =>
    rcases List.mem_cons.mp mem with rfl | later
    · rw [List.find?_cons_of_pos (by simpa using holds)]
    · have apart : a.hi ≤ g.lo := stacked.2.2.above later
      have outside : ¬ a.Holds va := fun inside =>
        absurd (Nat.lt_of_lt_of_le inside.2 apart) (Nat.not_lt.mpr holds.1)
      rw [List.find?_cons_of_neg (by simpa using outside)]
      exact ih stacked.2.2 later

end

namespace Layout

variable (lay : Layout)

theorem stacked_slot (id : Nat) : Stacked (lay.tasksStart + id * taskReserve)
    (lay.tasksStart + (id + 1) * taskReserve) (lay.slotAt id).regions := by
  simp only [Slot.regions, slotAt, Slot.from, Stacked, taskReserve]
  omega

theorem stacked_ram : Stacked kernelStart ramEnd lay.ram := by
  have fits := Nat.le_of_lt lay.fits
  refine @Stacked.append _ lay.heapStart _ _ _ (@Stacked.append _ lay.tasksStart _ _ _ ?_ ?_) ?_
  · simp only [Stacked, Sections.rodataStart, Sections.dataStart, Sections.bssEnd, Sections.bootStackBottom,
      Sections.bootStackTop, Sections.utextStart, Sections.utextEnd, Sections.urodataStart, Sections.urodataEnd,
      Sections.udataStart, Sections.udataEnd, Sections.ubssStart, Sections.ubssEnd, Sections.tasksStart]
    omega
  · exact .repeat lay.stacked_slot maxTasks
  · refine ⟨Nat.le_refl _, Nat.le_add_right _ _, Nat.le_refl _, fits, Nat.le_refl _, ?_, Nat.le_refl _⟩
    decide

theorem slotRegion_mem {id : Nat} (known : id < maxTasks) {g : Region} (mem : g ∈ (lay.slotAt id).regions) :
    g ∈ lay.ram := by
  refine List.mem_append_left _ (List.mem_append_right _ ?_)
  exact List.mem_flatMap.mpr ⟨id, List.mem_range.mpr known, mem⟩

theorem kstackTop_lt {id : Nat} (known : id < maxTasks) : (lay.slotAt id).kstackTop < ramL1Start := by
  have fits := lay.fits
  simp only [Sections.heapEnd, Sections.heapStart, Sections.tasksEnd, maxTasks, taskReserve] at fits known
  simp only [slotAt, Slot.from, taskReserve]
  omega

theorem leaf_of_mem {g : Region} (mem : g ∈ lay.ram) {va : Usize} (holds : g.Holds va.toNat) :
    lay.leaf va = some g.perm := by
  rw [leaf, regions, List.find?_append, lay.stacked_ram.find mem holds]
  rfl

theorem leaf_lt {va : Usize} {p : Perm} (mapped : lay.leaf va = some p) : va.toNat < ramEnd := by
  obtain ⟨g, found, -⟩ := Option.map_eq_some_iff.mp mapped
  have holds : g.Holds va.toNat := by simpa using List.find?_some found
  rcases List.mem_append.mp (List.mem_of_find?_eq_some found) with inRam | inMmio
  · exact Nat.lt_of_lt_of_le holds.2 (lay.stacked_ram.below inRam)
  · rw [List.mem_singleton.mp inMmio] at holds
    exact Nat.lt_trans holds.2 (by decide)

theorem loadable_lt {sum : Bool} {va : Usize} (loads : lay.loadable sum va) : va.toNat < ramEnd := by
  unfold loadable at loads
  split at loads
  · rename_i mapped
    exact lay.leaf_lt mapped
  · cases loads

end Layout

end Whimbrel

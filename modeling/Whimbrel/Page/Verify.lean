import Whimbrel.Frame
import Whimbrel.Page.Range

/-! The boot verifier: `verify` and `init` of `src/page.rs`.

After `build` the kernel walks an expected leaf, or hole, for every region. The
root of the tables is probed as a 4 KiB leaf wherever the frame allocator put it. -/

set_option autoImplicit false

namespace Whimbrel.Page

open Checked

def ramStart : Nat := 0x80000000
def aboveRam : Nat := 0x90000000
def uartMmio : Nat := 0x10000000
def expectedTables : Nat := 5

/-! `KERNEL_RX` to `USER_RW`. -/

def kernelRx : Expect := .mapped .rx 0
def kernelR : Expect := .mapped .ro 0
def kernelRw : Expect := .mapped .rw 0
def kernelRwL1 : Expect := .mapped .rw 1
def userRx : Expect := .mapped .urx 0
def userR : Expect := .mapped .ur 0
def userRw : Expect := .mapped .urw 0

def probe (s : Phys) (root va : Usize) (expect : Expect) : Result Unit := do
  match ← walk s root va, expect with
  | .mapped pa raw level, .mapped p want =>
    if pa ≠ va then throw .pageProbe
    if level ≠ want then throw .pageProbe
    if !flagsMatch raw p then throw .pageProbe
  | .unmapped .., .unmapped => return
  | .mapped .., .unmapped => throw .pageProbe
  | .unmapped .., .mapped .. => throw .pageProbe

inductive Check where
  | probe (va : Nat) (expect : Expect)
  | range (start fin : Nat) (expect : Expect)
  deriving DecidableEq, Repr

def Check.run (s : Phys) (root : Usize) : Check → Result Unit
  | .probe va expect => Page.probe s root (BitVec.ofNat 64 va) expect
  | .range start fin expect => assertRange s root (BitVec.ofNat 64 start) (BitVec.ofNat 64 fin) expect

def probeSpan (start fin : Nat) (expect : Expect) : List Check :=
  if start = fin then [] else [.probe start expect, .probe (fin - 1) expect]

/-- The probes before `ram_l1_start` is asked for. -/
def firstChecks (sym : Symbols) : List Check :=
  [.probe sym.kernelStart kernelRx, .probe (sym.rodataStart - 1) kernelRx, .probe sym.rodataStart kernelR,
    .probe sym.dataStart kernelRw, .probe (sym.bootStackTop - 0x10) kernelRw, .probe sym.heapStart kernelRw,
    .probe sym.heapEnd kernelRw]

def slotProbes (s : Slot) : List Check :=
  [.probe s.ustackGuard .unmapped] ++ probeSpan s.ustackBottom s.ustackTop userRw ++
  probeSpan s.brkBase s.brkWall userRw ++ [.probe s.kstackGuard .unmapped] ++
  probeSpan s.kstackBottom s.kstackTop kernelRw

def slotRanges (s : Slot) : List Check :=
  [.range s.ustackGuard s.ustackBottom .unmapped, .range s.ustackBottom s.ustackTop userRw,
    .range s.brkBase s.brkWall userRw, .range s.kstackGuard s.kstackBottom .unmapped,
    .range s.kstackBottom s.kstackTop kernelRw]

def restChecks (sym : Symbols) (root l1 : Nat) : List Check :=
  [.probe l1 kernelRwL1, .probe (ramEnd - pageSize) kernelRwL1, .probe root kernelRw, .probe sym.bssEnd .unmapped,
    .probe ramStart .unmapped, .probe aboveRam .unmapped, .probe uartMmio .unmapped] ++
  probeSpan mmioBase mmioEnd kernelRw ++ probeSpan sym.utextStart sym.utextEnd userRx ++
  probeSpan sym.urodataStart sym.urodataEnd userR ++ probeSpan sym.udataStart sym.udataEnd userRw ++
  probeSpan sym.ubssStart sym.ubssEnd userRw ++ (List.range maxTasks).flatMap (fun id => slotProbes (sym.slotAt id)) ++
  [.range sym.kernelStart sym.rodataStart kernelRx, .range sym.rodataStart sym.dataStart kernelR,
    .range sym.dataStart sym.bssEnd kernelRw, .range sym.bssEnd sym.bootStackBottom .unmapped,
    .range sym.bootStackBottom sym.bootStackTop kernelRw, .range sym.utextStart sym.utextEnd userRx,
    .range sym.urodataStart sym.urodataEnd userR, .range sym.udataStart sym.udataEnd userRw,
    .range sym.ubssStart sym.ubssEnd userRw] ++
  (List.range maxTasks).flatMap (fun id => slotRanges (sym.slotAt id)) ++
  [.range sym.heapStart l1 kernelRw, .range l1 ramEnd kernelRwL1, .range mmioBase mmioEnd kernelRw]

def verify (sym : Symbols) (s : Phys) (root : Usize) : Result Unit := do
  (firstChecks sym).forM (Check.run s root)
  let l1 ← ramL1StartOf sym
  (restChecks sym root.toNat l1).forM (Check.run s root)

/-- `init` on its first call, with `satp` still zero. -/
def init (sym : Symbols) (s : Phys) : Result (Phys × Usize) := do
  let (s', root) ← build sym s
  verify sym s' root
  -- `TABLES` counts the frames `alloc_table` took
  if s.free.length - s'.free.length ≠ expectedTables then throw .pageTables
  return (s', root)

/-! ## Single checks -/

section
variable {s : Phys} {root va : Usize} {expect : Expect}

theorem probe_ok_iff : probe s root va expect = .ok () ↔ expect.Meets s root va := by
  constructor
  · intro passed
    obtain ⟨r, walked, passed⟩ := bind_eq_ok passed
    cases r with
    | mapped pa raw level =>
      cases expect with
      | unmapped => cases passed
      | mapped p want =>
        obtain ⟨same, passed⟩ := check_eq_ok passed
        obtain ⟨high, passed⟩ := check_eq_ok passed
        obtain ⟨flags, -⟩ := check_eq_ok passed
        rw [not_not.mp same, not_not.mp high] at walked
        exact ⟨raw, walked, by simpa using flags⟩
    | unmapped level raw =>
      cases expect with
      | unmapped => exact ⟨level, raw, walked⟩
      | mapped p want => cases passed
  · intro meets
    cases expect with
    | unmapped =>
      obtain ⟨level, raw, walked⟩ := meets
      rw [probe, walked]
      rfl
    | mapped p level =>
      obtain ⟨raw, walked, flags⟩ := meets
      rw [probe, walked, bind_ok]
      dsimp only
      rw [if_neg (by simp), if_neg (by simp), if_neg (by simp [flags])]
      rfl

def Expect.grain : Expect → Nat
  | .unmapped => frameBytes
  | .mapped _ level => levelBytes level

theorem rangeStep_mapped {fin : Usize} {p : Perm} {level : Nat} {raw : Usize} (walked : walk s root va = .ok (.mapped va raw level))
    (flags : flagsMatch raw p) (below : va.toNat < fin.toNat) (aligned : va.toNat % levelBytes level = 0)
    (whole : fin.toNat % levelBytes level = 0) :
    ∃ next, rangeStep s root fin (.mapped p level) va = .ok next ∧ next ≤ fin ∧ next.toNat % levelBytes level = 0 := by
  have size := toNat_leafBytes (walk_level_le walked)
  dsimp only [Walk.level] at size
  -- the leaf ends within the range: both ends are multiples of its size
  have room : va.toNat + levelBytes level ≤ fin.toNat :=
    Nat.le_of_lt_add_of_dvd (Nat.add_lt_add_right below _)
      (Nat.dvd_add (Nat.dvd_of_mod_eq_zero aligned) (Nat.dvd_refl _)) (Nat.dvd_of_mod_eq_zero whole)
  have bound := fin.isLt
  have user : pteBit raw 4 = p.u := by
    obtain ⟨-, -, -, -, bit, -⟩ := flagsMatch_iff.mp flags
    rw [pteBit_eq, bit]
  have sum : (va + leafBytes level).toNat = va.toNat + levelBytes level := by
    rw [BitVec.toNat_add, size, Nat.mod_eq_of_lt (by omega)]
  refine ⟨va + leafBytes level, ?_, BitVec.le_def.mpr (sum.trans_le room), ?_⟩
  · rw [rangeStep, walked, bind_ok]
    dsimp only
    rw [if_neg (by simp [flags]), if_neg (by simp [user]), if_neg (by simp [user]), size, if_neg (by simp [aligned]),
      if_neg (by omega), if_neg (by rw [gt_iff_lt, BitVec.lt_def, sum]; omega)]
    rfl
  · rw [sum, Nat.add_mod_right, aligned]

theorem rangeStep_unmapped {fin raw : Usize} {level : Nat} (walked : walk s root va = .ok (.unmapped level raw))
    (below : va.toNat < fin.toNat) (low : fin.toNat ≤ 2 ^ 38) (whole : fin.toNat % frameBytes = 0) :
    ∃ next, rangeStep s root fin .unmapped va = .ok next ∧ next ≤ fin ∧ next.toNat % frameBytes = 0 := by
  have high : level ≤ 2 := walk_level_le walked
  have base := Nat.div_mul_le_self va.toNat (levelBytes level)
  have step : levelBytes level ≤ 2 ^ 30 := by
    rw [levelBytes_eq]
    exact Nat.pow_le_pow_right (by decide) (by omega)
  have sum := @toNat_nextSlot level va high (by omega)
  refine ⟨if (va &&& ~~~(leafBytes level - 1)) + leafBytes level > fin then fin
    else (va &&& ~~~(leafBytes level - 1)) + leafBytes level, ?_, ?_, ?_⟩
  · rw [rangeStep, walked, bind_ok]
    dsimp only
    rw [toNat_slotBase high, toNat_leafBytes high, if_neg (by omega)]
    rfl
  · split
    · exact BitVec.le_refl _
    · rename_i inside
      exact BitVec.not_lt.mp inside
  · split
    · exact whole
    · rw [sum, levelBytes]
      change (_ + 4096 * 512 ^ level) % 4096 = 0
      rw [← Nat.mul_assoc, Nat.mul_comm _ 4096, Nat.mul_assoc]
      omega

/-- An iteration at an address that translates as expected goes on to the next grain at least. -/
theorem rangeStep_returns {fin : Usize} (meets : expect.Meets s root va) (below : va < fin) (low : fin.toNat ≤ 2 ^ 38)
    (aligned : va.toNat % expect.grain = 0) (whole : fin.toNat % expect.grain = 0) :
    ∃ next, rangeStep s root fin expect va = .ok next ∧ next ≤ fin ∧ next.toNat % expect.grain = 0 := by
  rw [BitVec.lt_def] at below
  cases expect with
  | mapped p level =>
    obtain ⟨raw, walked, flags⟩ := meets
    exact rangeStep_mapped walked flags below aligned whole
  | unmapped =>
    obtain ⟨level, raw, walked⟩ := meets
    exact rangeStep_unmapped walked below low whole

theorem assertFrom_returns {fin : Usize} (meets : ∀ w, va ≤ w → w < fin → expect.Meets s root w) (low : fin.toNat ≤ 2 ^ 38)
    (aligned : va.toNat % expect.grain = 0) (whole : fin.toNat % expect.grain = 0) :
    assertFrom s root fin expect va = .ok () := by
  induction left : fin.toNat - va.toNat using Nat.strongRecOn generalizing va with
  | ind left ih =>
    by_cases below : va < fin
    · obtain ⟨next, ran, -, aligned'⟩ := rangeStep_returns (meets va (BitVec.le_refl _) below) below low aligned whole
      have increases := rangeStep_increases ran below
      rw [assertFrom_eq below, ran, bind_ok]
      rw [BitVec.lt_def] at increases below
      refine ih (fin.toNat - next.toNat) (by omega) (fun w above inside => meets w ?_ inside) aligned' rfl
      rw [BitVec.le_def] at above ⊢
      omega
    · rw [assertFrom, dif_neg below]

theorem assertRange_returns {start fin : Usize} (meets : ∀ w, start ≤ w → w < fin → expect.Meets s root w)
    (ordered : start ≤ fin) (low : fin.toNat ≤ 2 ^ 38) (aligned : start.toNat % expect.grain = 0)
    (whole : fin.toNat % expect.grain = 0) (pages : expect.grain % frameBytes = 0) :
    assertRange s root start fin expect = .ok () := by
  have page {a : Usize} (multiple : a.toNat % expect.grain = 0) : a.toNat % frameBytes = 0 :=
    Nat.mod_eq_zero_of_dvd ((Nat.dvd_of_mod_eq_zero pages).trans (Nat.dvd_of_mod_eq_zero multiple))
  rw [assertRange]
  by_cases empty : start = fin
  · rw [if_pos empty]
    rfl
  · rw [if_neg empty, if_neg]
    · exact assertFrom_returns meets low aligned whole
    · rw [page aligned, page whole, gt_iff_lt, BitVec.lt_def]
      rw [BitVec.le_def] at ordered
      omega

end

/-- What the regions of the layout say of an address. -/
def Expect.Shown (lay : Layout) (va : Nat) : Expect → Prop
  | .unmapped => ∀ g ∈ spans lay.symbols, ¬ g.Holds va
  | .mapped p level => ∃ g ∈ spans lay.symbols, g.Holds va ∧ g.perm = p ∧ g.level = level

def Check.Passes (lay : Layout) : Check → Prop
  | .probe va expect => va < 2 ^ 38 ∧ expect.Shown lay va
  | .range start fin expect => start ≤ fin ∧ fin ≤ 2 ^ 38 ∧ start % expect.grain = 0 ∧ fin % expect.grain = 0 ∧
      expect.grain % frameBytes = 0 ∧ ∀ va, start ≤ va → va < fin → expect.Shown lay va

section
variable {lay : Layout} {s : Phys} {root : Ppn} {need : List (List Index)}

theorem Expect.Shown.meets {expect : Expect} {va : Usize} (shown : expect.Shown lay va.toNat) (low : va.toNat < 2 ^ 38)
    (tables : Tables root need (buildCalls lay.symbols) s) : expect.Meets s (frameAddr root) va := by
  cases expect with
  | unmapped =>
    rcases walk_spans tables lay.spans_good (sv39Canonical_iff.mpr (.inl low)) with ⟨g, mem, holds, -⟩ | ⟨-, lowest, walked⟩
    · exact absurd holds (shown g mem)
    · exact ⟨lowest, 0, walked⟩
  | mapped p level =>
    obtain ⟨g, mem, holds, rfl, rfl⟩ := shown
    exact walk_of_holds tables lay.spans_good mem holds

theorem toNat_ofNat {n : Nat} (low : n ≤ 2 ^ 38) : (BitVec.ofNat 64 n).toNat = n := by
  rw [BitVec.toNat_ofNat, Nat.mod_eq_of_lt (by omega)]

theorem Check.Passes.run {c : Check} (passes : c.Passes lay) (tables : Tables root need (buildCalls lay.symbols) s) :
    c.run s (frameAddr root) = .ok () := by
  cases c with
  | probe va expect =>
    obtain ⟨low, shown⟩ := passes
    have same := toNat_ofNat (Nat.le_of_lt low)
    exact probe_ok_iff.mpr (Expect.Shown.meets (same.symm ▸ shown) (same.symm ▸ low) tables)
  | range start fin expect =>
    obtain ⟨ordered, low, aligned, whole, pages, shown⟩ := passes
    have first := toNat_ofNat (Nat.le_trans ordered low)
    have last := toNat_ofNat low
    refine assertRange_returns (fun w above below => ?_) ?_ (last.symm ▸ low) (first.symm ▸ aligned) (last.symm ▸ whole) pages
    · rw [BitVec.le_def, first] at above
      rw [BitVec.lt_def, last] at below
      exact (shown w.toNat above below).meets (Nat.lt_of_lt_of_le below low) tables
    · rw [BitVec.le_def, first, last]
      exact ordered

variable {g : Span} (mem : g ∈ spans lay.symbols)
include mem

theorem passes_probe {va : Nat} (holds : g.Holds va) : (Check.probe va (.mapped g.perm g.level)).Passes lay :=
  ⟨Nat.lt_of_lt_of_le holds.2 (lay.spans_good g mem).2, g, mem, holds, rfl, rfl⟩

theorem passes_range : (Check.range g.lo g.hi (.mapped g.perm g.level)).Passes lay := by
  obtain ⟨⟨⟨aligned, whole, ordered⟩, low, -⟩, bound⟩ := lay.spans_good g mem
  refine ⟨ordered, bound, aligned, whole, ?_, fun va above below => ⟨g, mem, ⟨above, below⟩, rfl, rfl⟩⟩
  change 4096 * 512 ^ g.level % 4096 = 0
  exact Nat.mul_mod_right ..

theorem passes_probeSpan : ∀ c ∈ probeSpan g.lo g.hi (.mapped g.perm g.level), c.Passes lay := by
  have ordered := (lay.spans_good g mem).1.aligned.2.2
  rw [probeSpan]
  split
  · simp
  · simp only [List.forall_mem_cons, List.not_mem_nil, false_imp_iff, implies_true, and_true]
    exact ⟨passes_probe mem ⟨Nat.le_refl _, by omega⟩, passes_probe mem ⟨by omega, by omega⟩⟩

end

section
variable {lay : Layout}

theorem shown_hole {va : Nat} (low : va < 2 ^ 38) (hole : lay.HoleAddr va) : Expect.unmapped.Shown lay va := by
  intro g mem holds
  have same := toNat_ofNat (Nat.le_of_lt low)
  have inside : g.toRegion ∈ lay.regions := lay.regions_eq ▸ List.mem_map_of_mem mem
  have mapped : lay.leaf (BitVec.ofNat 64 va) = some g.perm := lay.leaf_of_holds inside (same.symm ▸ holds)
  rw [lay.leaf_hole (same.symm ▸ hole)] at mapped
  cases mapped

theorem passes_hole {va : Nat} (low : va < 2 ^ 38) (hole : lay.HoleAddr va) : (Check.probe va .unmapped).Passes lay :=
  ⟨low, shown_hole low hole⟩

theorem passes_holes {start fin : Nat} (ordered : start ≤ fin) (low : fin ≤ 2 ^ 38) (aligned : start % 4096 = 0)
    (whole : fin % 4096 = 0) (holes : ∀ va, start ≤ va → va < fin → lay.HoleAddr va) :
    (Check.range start fin .unmapped).Passes lay :=
  ⟨ordered, low, aligned, whole, rfl, fun va above below => shown_hole (Nat.lt_of_lt_of_le below low) (holes va above below)⟩

def otherSpans (sym : Symbols) : List Span :=
  [⟨⟨sym.heapStart, sym.heapEnd, .rw⟩, 0⟩, ⟨⟨sym.heapEnd, ramL1Start, .rw⟩, 0⟩, ⟨⟨ramL1Start, ramEnd, .rw⟩, 1⟩,
    ⟨⟨mmioBase, mmioEnd, .rw⟩, 0⟩]

theorem other_mem_spans {sym : Symbols} {g : Span} (mem : g ∈ otherSpans sym) : g ∈ spans sym := List.mem_append_right _ mem

section
variable {g : Region} {h : Span} {va i : Nat}

theorem passes_section (there : (sectionRegions lay.symbols)[i]? = some g) (holds : g.Holds va) :
    (Check.probe va (.mapped g.perm 0)).Passes lay :=
  passes_probe (section_mem_spans (List.mem_of_getElem? there)) holds

theorem passes_other (there : (otherSpans lay.symbols)[i]? = some h) (holds : h.Holds va) :
    (Check.probe va (.mapped h.perm h.level)).Passes lay :=
  passes_probe (other_mem_spans (List.mem_of_getElem? there)) holds

theorem passes_sectionRange (there : (sectionRegions lay.symbols)[i]? = some g) :
    (Check.range g.lo g.hi (.mapped g.perm 0)).Passes lay :=
  passes_range (section_mem_spans (List.mem_of_getElem? there))

theorem passes_sectionSpan (there : (sectionRegions lay.symbols)[i]? = some g) :
    ∀ c ∈ probeSpan g.lo g.hi (.mapped g.perm 0), c.Passes lay :=
  passes_probeSpan (section_mem_spans (List.mem_of_getElem? there))

end

theorem firstChecks_pass (lay : Layout) : ∀ c ∈ firstChecks lay.symbols, c.Passes lay := by
  have order := lay.order
  have text : kernelStart < lay.rodataStart := lay.checks.ordered.1
  have rodata : lay.rodataStart < lay.dataStart := lay.checks.ordered.2.1
  have data : lay.dataStart < lay.bssEnd := lay.checks.ordered.2.2.1
  simp only [firstChecks, List.forall_mem_cons, List.not_mem_nil, false_imp_iff, implies_true, and_true]
  refine ⟨?_, ?_, ?_, ?_, ?_, ?_, ?_⟩
  · exact passes_section (i := 0) rfl ⟨Nat.le_refl _, text⟩
  · exact passes_section (i := 0) rfl ⟨Nat.le_sub_one_of_lt text, Nat.sub_lt (Nat.zero_lt_of_lt text) (by decide)⟩
  · exact passes_section (i := 1) rfl ⟨Nat.le_refl _, rodata⟩
  · exact passes_section (i := 2) rfl ⟨Nat.le_refl _, data⟩
  · refine passes_section (i := 3) rfl ⟨?_, ?_⟩
    · change lay.bootStackBottom ≤ lay.bootStackTop - 0x10
      omega
    · change lay.bootStackTop - 0x10 < lay.bootStackTop
      omega
  · exact passes_other (i := 0) rfl ⟨Nat.le_refl _, by change lay.heapStart < lay.heapEnd; omega⟩
  · exact passes_other (i := 1) rfl ⟨Nat.le_refl _, lay.fits⟩

theorem slot_holes (lay : Layout) {id : Nat} (known : id < maxTasks) {va : Nat}
    (guard : ((lay.slotAt id).ustackGuard ≤ va ∧ va < (lay.slotAt id).ustackBottom) ∨
      ((lay.slotAt id).kstackGuard ≤ va ∧ va < (lay.slotAt id).kstackBottom)) : lay.HoleAddr va := .inr (.inl ⟨id, known, guard⟩)

theorem slotProbes_pass (lay : Layout) {id : Nat} (known : id < maxTasks) : ∀ c ∈ slotProbes (lay.slotAt id), c.Passes lay := by
  have top := lay.kstackTop_lt known
  have span {g : Region} {i : Nat} (there : (lay.slotAt id).regions[i]? = some g) :
      ∀ c ∈ probeSpan g.lo g.hi (.mapped g.perm 0), c.Passes lay :=
    passes_probeSpan (@slot_mem_spans lay.symbols _ known _ (List.mem_of_getElem? there))
  have hole {va : Nat} (low : va < 2 ^ 38) (guard : lay.HoleAddr va) : ∀ c ∈ [Check.probe va .unmapped], c.Passes lay := by
    rw [List.forall_mem_singleton]
    exact passes_hole low guard
  simp only [slotProbes, List.forall_mem_append]
  refine ⟨⟨⟨⟨hole ?_ (slot_holes lay known (.inl ⟨Nat.le_refl _, ?_⟩)), @span ⟨_, _, .urw⟩ 0 rfl⟩, @span ⟨_, _, .urw⟩ 1 rfl⟩,
    hole ?_ (slot_holes lay known (.inr ⟨Nat.le_refl _, ?_⟩))⟩, @span ⟨_, _, .rw⟩ 2 rfl⟩
  all_goals
    simp only [Layout.slotAt, Slot.from, ramL1Start] at top ⊢
    omega

theorem slotRanges_pass (lay : Layout) {id : Nat} (known : id < maxTasks) : ∀ c ∈ slotRanges (lay.slotAt id), c.Passes lay := by
  have top := lay.kstackTop_lt known
  have aligned := lay.tasksStart_aligned
  have range {g : Region} {i : Nat} (there : (lay.slotAt id).regions[i]? = some g) :
      (Check.range g.lo g.hi (.mapped g.perm 0)).Passes lay :=
    passes_range (@slot_mem_spans lay.symbols _ known _ (List.mem_of_getElem? there))
  simp only [slotRanges, List.forall_mem_cons, List.not_mem_nil, false_imp_iff, implies_true, and_true]
  refine ⟨passes_holes ?_ ?_ ?_ ?_ fun va above below => slot_holes lay known (.inl ⟨above, below⟩), range (i := 0) rfl,
    range (i := 1) rfl, passes_holes ?_ ?_ ?_ ?_ fun va above below => slot_holes lay known (.inr ⟨above, below⟩),
    range (i := 2) rfl⟩
  all_goals
    simp only [Layout.slotAt, Slot.from, taskReserve, ramL1Start] at top ⊢
    omega

end

theorem heapRange_pass (lay : Layout) : (Check.range lay.heapStart ramL1Start kernelRw).Passes lay := by
  have order := lay.order
  have aligned := lay.tasksStart_aligned
  refine ⟨by omega, by decide, ?_, rfl, rfl, fun va above below => ?_⟩
  · change lay.heapStart % 4096 = 0
    omega
  · by_cases inHeap : va < lay.heapEnd
    · exact ⟨_, @other_mem_spans lay.symbols _ (List.mem_of_getElem? (i := 0) rfl), ⟨above, inHeap⟩, rfl, rfl⟩
    · exact ⟨_, @other_mem_spans lay.symbols _ (List.mem_of_getElem? (i := 1) rfl), ⟨Nat.le_of_not_lt inHeap, below⟩, rfl,
        rfl⟩

theorem restChecks_pass (lay : Layout) {root : Nat} (above : lay.heapEnd ≤ root) (below : root < ramL1Start) :
    ∀ c ∈ restChecks lay.symbols root ramL1Start, c.Passes lay := by
  have order := lay.order
  have guard : lay.bssEnd % 4096 = 0 :=
    (lay.low_aligned ⟨lay.dataStart, lay.bssEnd, .rw⟩
      (List.mem_append_left _ (List.mem_append_left _ (List.mem_of_getElem? (i := 2) rfl)))).2
  have slots {f : Slot → List Check} (pass : ∀ id < maxTasks, ∀ c ∈ f (lay.slotAt id), c.Passes lay) :
      ∀ c ∈ (List.range maxTasks).flatMap (fun id => f (lay.symbols.slotAt id)), c.Passes lay := by
    intro c mem
    obtain ⟨id, known, inside⟩ := List.mem_flatMap.mp mem
    exact pass id (List.mem_range.mp known) c inside
  -- The groups of `restChecks` in order: single probes, spans, slots, ranges.
  simp only [restChecks, List.forall_mem_append]
  refine ⟨⟨⟨⟨⟨⟨⟨⟨⟨?_, ?_⟩, ?_⟩, ?_⟩, ?_⟩, ?_⟩, slots fun id => slotProbes_pass lay⟩, ?_⟩, slots fun id => slotRanges_pass lay⟩, ?_⟩
  · simp only [List.forall_mem_cons, List.not_mem_nil, false_imp_iff, implies_true, and_true]
    refine ⟨?_, ?_, ?_, ?_, ?_, ?_, ?_⟩
    · exact passes_other (i := 2) rfl ⟨Nat.le_refl _, by decide⟩
    · exact passes_other (i := 2) rfl ⟨by decide, by decide⟩
    · exact passes_other (i := 1) rfl ⟨above, below⟩
    · refine passes_hole ?_ (.inl ⟨Nat.le_refl _, ?_⟩)
      · change lay.bssEnd < 2 ^ 38
        simp only [ramL1Start] at order
        omega
      · change lay.bssEnd < lay.bootStackBottom
        omega
    · exact passes_hole (by decide) (.inr (.inr (.inl (by decide))))
    · exact passes_hole (by decide) (.inr (.inr (.inr (by decide))))
    · exact passes_hole (by decide) (.inr (.inr (.inl (by decide))))
  · exact passes_probeSpan (g := ⟨⟨_, _, .rw⟩, 0⟩) (other_mem_spans (List.mem_of_getElem? (i := 3) rfl))
  · exact passes_sectionSpan (g := ⟨_, _, .urx⟩) (i := 4) rfl
  · exact passes_sectionSpan (g := ⟨_, _, .ur⟩) (i := 5) rfl
  · exact passes_sectionSpan (g := ⟨_, _, .urw⟩) (i := 6) rfl
  · exact passes_sectionSpan (g := ⟨_, _, .urw⟩) (i := 7) rfl
  · simp only [List.forall_mem_cons, List.not_mem_nil, false_imp_iff, implies_true, and_true]
    refine ⟨passes_sectionRange (i := 0) rfl, passes_sectionRange (i := 1) rfl, passes_sectionRange (i := 2) rfl,
      passes_holes ?_ ?_ ?_ ?_ fun va lower upper => .inl ⟨lower, upper⟩, passes_sectionRange (i := 3) rfl,
      passes_sectionRange (i := 4) rfl, passes_sectionRange (i := 5) rfl, passes_sectionRange (i := 6) rfl,
      passes_sectionRange (i := 7) rfl⟩
    all_goals
      simp only [ramL1Start] at order
      dsimp only [Layout.symbols, Sections.symbols]
      omega
  · simp only [List.forall_mem_cons, List.not_mem_nil, false_imp_iff, implies_true, and_true]
    exact ⟨heapRange_pass lay, passes_range (g := ⟨⟨_, _, .rw⟩, 1⟩) (other_mem_spans (List.mem_of_getElem? (i := 2) rfl)),
      passes_range (g := ⟨⟨_, _, .rw⟩, 0⟩) (other_mem_spans (List.mem_of_getElem? (i := 3) rfl))⟩

section
variable {lay : Layout} {s : Phys} {root : Ppn} {need : List (List Index)}

theorem verify_eq (tables : Tables root need (buildCalls lay.symbols) s) :
    verify lay.symbols s (frameAddr root) =
      (restChecks lay.symbols (frameAddr root).toNat ramL1Start).forM (Check.run s (frameAddr root)) := by
  have first : (firstChecks lay.symbols).forM (Check.run s (frameAddr root)) = .ok () :=
    forM_ok fun c mem => (firstChecks_pass lay c mem).run tables
  have l1 : ramL1StartOf lay.symbols = .ok ramL1Start := if_neg (Nat.not_le.mpr lay.fits)
  rw [verify, first, bind_ok, l1, bind_ok]

/-- The verifier accepts the tables of a layout if the root is below the 2 MiB leaves. -/
theorem verify_low (tables : Tables root need (buildCalls lay.symbols) s) (above : lay.heapEnd ≤ (frameAddr root).toNat)
    (below : (frameAddr root).toNat < ramL1Start) : verify lay.symbols s (frameAddr root) = .ok () := by
  rw [verify_eq tables]
  exact forM_ok fun c mem => (restChecks_pass lay above below c mem).run tables

/-- A root among the 2 MiB leaves is rejected by its own probe. -/
theorem verify_high (tables : Tables root need (buildCalls lay.symbols) s) (high : ramL1Start ≤ (frameAddr root).toNat)
    (inRam : (frameAddr root).toNat < ramEnd) : verify lay.symbols s (frameAddr root) = .error .pageProbe := by
  have mega : (⟨⟨ramL1Start, ramEnd, .rw⟩, 1⟩ : Span) ∈ spans lay.symbols :=
    other_mem_spans (List.mem_of_getElem? (i := 2) rfl)
  obtain ⟨raw, found, -⟩ := walk_of_holds tables lay.spans_good mega ⟨high, inRam⟩
  have probed : Check.run s (frameAddr root) (.probe (frameAddr root).toNat kernelRw) = .error .pageProbe := by
    rw [Check.run, BitVec.ofNat_toNat, BitVec.setWidth_eq, probe, found, bind_ok]
    change (if frameAddr root ≠ frameAddr root then _ else _) = _
    rw [if_neg (by simp), if_pos (by decide)]
    rfl
  have passed : ∀ c ∈ [Check.probe ramL1Start kernelRwL1, .probe (ramEnd - pageSize) kernelRwL1],
      c.run s (frameAddr root) = .ok () := by
    simp only [List.forall_mem_cons, List.not_mem_nil, false_imp_iff, implies_true, and_true]
    exact ⟨(passes_probe mega ⟨Nat.le_refl _, by decide⟩).run tables, (passes_probe mega ⟨by decide, by decide⟩).run tables⟩
  obtain ⟨after, split⟩ : ∃ after, restChecks lay.symbols (frameAddr root).toNat ramL1Start =
      [.probe ramL1Start kernelRwL1, .probe (ramEnd - pageSize) kernelRwL1] ++
        .probe (frameAddr root).toNat kernelRw :: after := by
    simp only [restChecks, List.cons_append, List.nil_append, List.append_assoc]
    exact ⟨_, rfl⟩
  rw [verify_eq tables, split]
  exact forM_stops passed probed

end

/-! ## The tables of a layout -/

section
variable (lay : Layout)

theorem calls_fresh : ∀ c ∈ buildCalls lay.symbols, c.position ∉ Layout.tablePositions := by
  intro c mem
  obtain ⟨g, inside, here⟩ := List.mem_flatMap.mp mem
  have good := lay.spans_good g inside
  cases c with
  | page va pa flags => simp [Call.position, Call.dir, Layout.tablePositions]
  | mega va flags =>
    obtain ⟨-, -, -, level, -⟩ := good.1.call here
    obtain ⟨lower, upper⟩ := good.1.call_range (Nat.le_trans good.2 (by decide)) here
    have index := toNat_indexAt va 1
    rw [lay.spans_eq] at inside
    rcases List.mem_append.mp inside with inLow | inRest
    · obtain ⟨h, -, rfl⟩ := List.mem_map.mp inLow
      cases level
    · rcases List.mem_cons.mp inRest with rfl | inMmio
      · change ramL1Start ≤ va.toNat at lower
        change va.toNat + 2097152 ≤ ramEnd at upper
        rw [ramL1Start] at lower
        rw [ramEnd] at upper
        -- Among the entries for RAM the 2 MiB leaves are 2 to 63, and the one table is 1.
        have range : 2 ≤ (indexAt va 1).toNat ∧ (indexAt va 1).toNat < 64 := by omega
        simp only [Call.position, Call.dir, Call.last, Layout.tablePositions, List.cons_append, List.nil_append, List.mem_cons,
          List.cons.injEq, List.not_mem_nil, and_true, or_false]
        rintro (⟨-, same⟩ | ⟨-, same⟩ | ⟨-, same⟩ | ⟨-, same⟩)
        · cases same
        · rw [same] at range
          revert range
          decide
        · cases same
        · rw [same] at range
          revert range
          decide
      · rw [List.mem_singleton.mp inMmio] at level
        cases level

theorem calls_filled : ∀ q ∈ Layout.tablePositions, ∃ c ∈ buildCalls lay.symbols, q <+: c.position := by
  have page {g : Span} (mem : g ∈ spans lay.symbols) (zero : g.level = 0) {va : Usize} (holds : g.Holds va.toNat) :
      ∃ c ∈ buildCalls lay.symbols, c.position = indices va 2 := by
    have good := lay.spans_good g mem
    have low : va.toNat < 2 ^ 38 := Nat.lt_of_lt_of_le holds.2 good.2
    obtain ⟨c, inside, covered⟩ := good.1.exists_call holds
    obtain ⟨accepted, -, -, level, -⟩ := good.1.call inside
    have up := (position_above_iff_covers accepted (Nat.lt_of_le_of_lt covered.1 low) (.inl low)).mpr covered
    refine ⟨c, List.mem_flatMap.mpr ⟨g, mem, inside⟩, up.eq_of_length ?_⟩
    rw [zero] at level
    cases c with
    | page va pa flags => rfl
    | mega va flags => cases level
  -- One page of the kernel and one of the device window need all four tables.
  obtain ⟨c, inside, kernel⟩ := @page ⟨⟨_, _, .rx⟩, 0⟩
    (section_mem_spans (List.mem_of_getElem? (i := 0) rfl)) rfl 0x80200000 ⟨Nat.le_refl _, lay.checks.ordered.1⟩
  obtain ⟨d, inside', mmio⟩ := @page ⟨⟨_, _, .rw⟩, 0⟩
    (other_mem_spans (List.mem_of_getElem? (i := 3) rfl)) rfl 0x10001000 ⟨by decide, by decide⟩
  simp only [Layout.tablePositions, List.forall_mem_cons, List.not_mem_nil, false_imp_iff, implies_true, and_true]
  refine ⟨⟨c, inside, ?_⟩, ⟨c, inside, ?_⟩, ⟨d, inside', ?_⟩, d, inside', ?_⟩
  · rw [kernel]
    decide
  · rw [kernel]
    decide
  · rw [mmio]
    decide
  · rw [mmio]
    decide

theorem frames_of_build {s s' : Phys} {root : Usize} (frames : Frames s.free) (enough : 5 ≤ s.free.length)
    (ran : build lay.symbols s = .ok (s', root)) : s.free.length - s'.free.length = expectedTables := by
  obtain ⟨-, s0, alloc, mapped⟩ := runs_of_build ran
  obtain ⟨ppn, rfl, tables⟩ := @allocTable_tables s s0 root Layout.tablePositions frames alloc enough
  have each : ∀ c ∈ buildCalls lay.symbols, c.Accepted ∧ c.Plain ∧ (∀ q, q ≠ [] → q <+: c.dir → q ∈ Layout.tablePositions) ∧
      c.position ∉ Layout.tablePositions := by
    intro c mem
    obtain ⟨g, inside, here⟩ := List.mem_flatMap.mp mem
    obtain ⟨accepted, plain, -⟩ := (lay.spans_good g inside).1.call here
    exact ⟨accepted, plain, lay.calls_dirs c mem, calls_fresh lay c mem⟩
  have tallied := (Tallied.of_tables tables (by decide)).run (by decide) (by simp) each mapped
  rw [List.nil_append] at tallied
  have left := tallied.length_free (calls_filled lay)
  have taken : s.free.length = s0.free.length + 1 := by
    unfold allocTable at alloc
    split at alloc
    · cases alloc
    · rename_i head rest free
      cases alloc
      rw [free, List.length_cons]
  have four : Layout.tablePositions.length = 4 := rfl
  rw [expectedTables]
  omega

end

section
variable {lay : Layout} {s : Phys} {first : Usize} (frames : Frames s.free) (enough : 5 ≤ s.free.length)
  (head : s.free.head? = some first)
include frames enough head

theorem init_low (above : lay.heapEnd ≤ first.toNat) (below : first.toNat < ramL1Start) :
    ∃ s', init lay.symbols s = .ok (s', first) := by
  obtain ⟨s', ppn, ran, root, tables⟩ := lay.build_returns frames enough
  obtain rfl : frameAddr ppn = first := Option.some.inj (root.symm.trans head)
  rw [init, ran, bind_ok]
  dsimp only
  rw [verify_low tables above below, bind_ok, if_neg (not_not.mpr (frames_of_build lay frames enough ran))]
  exact ⟨s', rfl⟩

theorem init_high (high : ramL1Start ≤ first.toNat) (inRam : first.toNat < ramEnd) :
    init lay.symbols s = .error .pageProbe := by
  obtain ⟨s', ppn, ran, root, tables⟩ := lay.build_returns frames enough
  obtain rfl : frameAddr ppn = first := Option.some.inj (root.symm.trans head)
  rw [init, ran, bind_ok]
  dsimp only
  rw [verify_high tables high inRam]
  rfl

end

/-- The frames `alloc_frame` returns while no frame is freed, and the memory they are in. -/
def ofFrames (s : Frame.State) : Phys := ⟨s.word, Frame.framesFrom s.bump ((ramEnd - s.bump.toNat) / pageSize)⟩

theorem allocTable_ofFrames {s : Frame.State} (thawed : s.frozen = false) (none : s.head = 0)
    (aligned : s.bump.toNat % 4096 = 0) :
    allocTable (ofFrames s) = (fun r => (ofFrames r.1, r.2)) <$> Frame.allocFrame s := by
  by_cases room : s.bump.toNat < ramEnd
  · have next : (s.bump + 4096).toNat = s.bump.toNat + 4096 := by
      have page : (4096 : Usize).toNat = 4096 := rfl
      rw [ramEnd] at room
      rw [BitVec.toNat_add, page]
      omega
    have more : (ramEnd - s.bump.toNat) / pageSize = (ramEnd - (s.bump + 4096).toNat) / pageSize + 1 := by
      rw [next]
      rw [ramEnd] at room ⊢
      rw [pageSize]
      omega
    rw [Frame.allocFrame_bump thawed none room, allocTable, ofFrames, more, Frame.framesFrom_cons]
    rfl
  · have full : (ramEnd - s.bump.toNat) / pageSize = 0 := by
      rw [Nat.sub_eq_zero_of_le (Nat.le_of_not_lt room), Nat.zero_div]
    rw [allocTable, ofFrames, full, Frame.allocFrame, if_neg (by simp [thawed]), Frame.takeFrame, if_neg (not_not.mpr none),
      if_pos (Nat.le_of_not_lt room)]
    rfl

theorem frames_ofFrames {s : Frame.State} (aligned : s.bump.toNat % 4096 = 0) (room : s.bump.toNat + 5 * 4096 ≤ ramEnd) :
    Frames (ofFrames s).free ∧ 5 ≤ (ofFrames s).free.length ∧ (ofFrames s).free.head? = some s.bump := by
  obtain ⟨n, count, bound⟩ : ∃ n, (ramEnd - s.bump.toNat) / pageSize = n + 5 ∧ s.bump.toNat + 4096 * (n + 5) ≤ ramEnd := by
    refine ⟨(ramEnd - s.bump.toNat) / pageSize - 5, ?_⟩
    rw [ramEnd] at room ⊢
    rw [pageSize]
    omega
  have fits : s.bump.toNat + 4096 * (n + 5) < 2 ^ 64 := Nat.lt_of_le_of_lt bound (by decide)
  rw [ofFrames, count]
  refine ⟨⟨fun f mem => ?_, fun f mem => ?_, Frame.nodup_framesFrom fits⟩, ?_, ?_⟩
  · exact ((Frame.mem_framesFrom aligned fits).mp mem).1
  · have upper := ((Frame.mem_framesFrom aligned fits).mp mem).2.2
    exact Nat.lt_of_lt_of_le upper (Nat.le_trans bound (by decide))
  · rw [Frame.length_framesFrom]
    exact Nat.le_add_left 5 n
  · rw [Frame.framesFrom_cons]
    rfl

/-- `frame::init`, and `frame::self_test` unless the image boots fast. -/
def bootFrames (fast : Bool) (lay : Layout) (word : Usize → Usize) : Result Frame.State := do
  let s ← Frame.init word (BitVec.ofNat 64 lay.heapStart) (BitVec.ofNat 64 lay.heapEnd)
  if fast then return s
  Frame.selfTest s

def boot (fast : Bool) (lay : Layout) (word : Usize → Usize) : Result (Phys × Usize) := do
  let s ← bootFrames fast lay word
  init lay.symbols (ofFrames s)

/-- The frames before the root are those the self-test keeps. -/
theorem bootFrames_returns (fast : Bool) (lay : Layout) (word : Usize → Usize) :
    ∃ s, bootFrames fast lay word = .ok s ∧ s.frozen = false ∧ s.head = 0 ∧
      s.bump.toNat = lay.heapEnd + if fast then 0 else 0x2000 := by
  have order := lay.order
  have tasks := lay.tasksStart_aligned
  rw [ramL1Start] at order
  have start : (BitVec.ofNat 64 lay.heapStart).toNat = lay.heapStart := toNat_ofNat (by omega)
  have fin : (BitVec.ofNat 64 lay.heapEnd).toNat = lay.heapEnd := toNat_ofNat (by omega)
  have aligned : lay.heapEnd % 4096 = 0 := by omega
  obtain ⟨s, is⟩ : ∃ s : Frame.State, s = ⟨0, BitVec.ofNat 64 lay.heapEnd, BitVec.ofNat 64 lay.heapEnd,
    (ramEnd - (BitVec.ofNat 64 lay.heapEnd).toNat) / pageSize, 0, false, word⟩ := ⟨_, rfl⟩
  have bump : s.bump.toNat = lay.heapEnd := by rw [is, fin]
  have booted : Frame.init word (BitVec.ofNat 64 lay.heapStart) (BitVec.ofNat 64 lay.heapEnd) = .ok s := by
    rw [Frame.init, if_neg, if_neg, is]
    · rfl
    · rw [fin, ramEnd, pageSize]
      omega
    · rw [BitVec.le_def, start, fin, ramEnd, pageSize]
      omega
  rw [bootFrames, booted, bind_ok]
  cases fast with
  | true => exact ⟨s, rfl, by rw [is], by rw [is], by rw [bump, if_pos rfl, Nat.add_zero]⟩
  | false =>
    have total : s.bump.toNat + 4096 * s.total = ramEnd := by
      rw [bump, is]
      change lay.heapEnd + 4096 * ((ramEnd - (BitVec.ofNat 64 lay.heapEnd).toNat) / pageSize) = ramEnd
      rw [fin, ramEnd, pageSize]
      omega
    -- The self-test takes back the frame it frees, so two frames stay allocated.
    obtain ⟨t, tested, thawed, none, bumped⟩ := Frame.selfTest_returns (by rw [is]) (by rw [is]) (by rw [is]) (by rw [is])
      (by rw [bump, aligned]) (by omega) total (by rw [ramEnd] at total; omega)
    refine ⟨t, tested, thawed, none, ?_⟩
    have pages : (0x2000 : Usize).toNat = 0x2000 := rfl
    rw [bumped, BitVec.toNat_add, bump, pages, if_neg Bool.false_ne_true]
    omega

theorem boot_frames (fast : Bool) (lay : Layout) (word : Usize → Usize) :
    ∃ s : Phys, ∃ first : Usize, boot fast lay word = init lay.symbols s ∧ Frames s.free ∧ 5 ≤ s.free.length ∧
      s.free.head? = some first ∧ first.toNat = lay.heapEnd + if fast then 0 else 0x2000 := by
  obtain ⟨s, booted, -, -, bump⟩ := bootFrames_returns fast lay word
  have order := lay.order
  have tasks := lay.tasksStart_aligned
  rw [ramL1Start] at order
  obtain ⟨frames, enough, head⟩ := @frames_ofFrames s (by rw [bump]; split <;> omega) (by rw [bump, ramEnd]; split <;> omega)
  refine ⟨ofFrames s, s.bump, ?_, frames, enough, head, bump⟩
  rw [boot, booted, bind_ok]

/-- Page tables are built and verified at boot just when the image boots fast, or the two frames the
self-test keeps do not push the root past the 4 KiB leaves. -/
theorem boot_returns_iff (fast : Bool) (lay : Layout) (word : Usize → Usize) :
    (∃ r, boot fast lay word = .ok r) ↔ fast ∨ lay.heapEnd + 0x2000 < ramL1Start := by
  obtain ⟨s, first, booted, frames, enough, head, root⟩ := boot_frames fast lay word
  rw [booted]
  have low (below : first.toNat < ramL1Start) : ∃ r, init lay.symbols s = .ok r := by
    obtain ⟨s', done⟩ := init_low frames enough head (root ▸ Nat.le_add_right _ _) below
    exact ⟨_, done⟩
  have fits := lay.fits
  cases fast with
  | true =>
    rw [if_pos rfl, Nat.add_zero] at root
    exact ⟨fun _ => .inl rfl, fun _ => low (root ▸ fits)⟩
  | false =>
    rw [if_neg Bool.false_ne_true] at root
    constructor
    · rintro ⟨r, done⟩
      -- A root at or past the first 2 MiB leaf is found there by `verify` and rejected.
      refine .inr (Nat.lt_of_not_le fun high => ?_)
      have inRam : first.toNat < ramEnd := by
        rw [root]
        exact Nat.lt_of_lt_of_le (Nat.add_lt_add_right fits _) (by decide)
      rw [init_high frames enough head (root ▸ high) inRam] at done
      cases done
    · rintro (fast | below)
      · cases fast
      · exact low (root ▸ below)

/-- A layout whose heap ends two pages below the first 2 MiB leaf. -/
def tallText : Layout where
  text := 143
  rodata := 1
  data := 1
  utext := 1
  urodata := 1
  udata := 1
  ubss := 1
  text_pos := by decide
  rodata_pos := Nat.one_pos
  data_pos := Nat.one_pos
  fits := by decide

/-- On the default image the root of this layout is the first frame of the 2 MiB leaves, and its probe panics. -/
theorem boot_tallText_fails : tallText.heapEnd = 0x803fe000 ∧ boot false tallText (fun _ => 0) = .error .pageProbe := by
  obtain ⟨s, first, booted, frames, enough, head, root⟩ := boot_frames false tallText (fun _ => 0)
  have at_ : first.toNat = ramL1Start := root.trans (by decide)
  refine ⟨by decide, ?_⟩
  rw [booted]
  exact init_high frames enough head (Nat.le_of_eq at_.symm) (at_ ▸ by decide)

end Whimbrel.Page

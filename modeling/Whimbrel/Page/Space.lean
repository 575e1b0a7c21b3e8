import Whimbrel.Page.Build

/-! The address space at boot.

For the symbols of a layout `build` returns, and the walk of every canonical
address is what the regions of the layout say. -/

set_option autoImplicit false

namespace Whimbrel

open Checked Radix

section
variable {lo mid hi : Nat} {gs : List Region}

theorem Stacked.pairwise (stacked : Stacked lo hi gs) : gs.Pairwise fun g h => g.hi ≤ h.lo := by
  induction gs generalizing lo with
  | nil => exact .nil
  | cons g gs ih => exact .cons (fun h mem => stacked.2.2.above mem) (ih stacked.2.2)

theorem Stacked.ordered (stacked : Stacked lo hi gs) {g : Region} (mem : g ∈ gs) : g.lo ≤ g.hi := by
  induction gs generalizing lo with
  | nil => cases mem
  | cons a gs ih =>
    rcases List.mem_cons.mp mem with rfl | later
    · exact stacked.2.1
    · exact ih stacked.2.2 later

theorem Stacked.outside (stacked : Stacked lo hi gs) {va : Nat} (outer : va < lo ∨ hi ≤ va) : ∀ g ∈ gs, ¬ g.Holds va := by
  rintro g mem ⟨lower, upper⟩
  have first := stacked.above mem
  have last := stacked.below mem
  omega

end

namespace Layout

variable (lay : Layout)

def symbols : Symbols := lay.toSections.symbols

theorem regions_eq : (Page.spans lay.symbols).map (·.toRegion) = lay.regions := rfl

end Layout

namespace Page

def flagsMatch (raw : U64) (p : Perm) : Bool :=
  pteBit raw 0 && pteBit raw 1 == p.r && pteBit raw 2 == p.w && pteBit raw 3 == p.x && pteBit raw 4 == p.u &&
  !pteBit raw 5 && pteBit raw 6 && pteBit raw 7

theorem flagsMatch_iff {raw : U64} {p : Perm} : flagsMatch raw p ↔ raw.getLsbD 0 ∧ raw.getLsbD 1 = p.r ∧
    raw.getLsbD 2 = p.w ∧ raw.getLsbD 3 = p.x ∧ raw.getLsbD 4 = p.u ∧ ¬ raw.getLsbD 5 ∧ raw.getLsbD 6 ∧ raw.getLsbD 7 := by
  simp [flagsMatch, pteBit_eq, and_assoc]

theorem flagsMatch_encodeLeaf (pa : Usize) {p : Perm} (proper : Proper p) : flagsMatch (encodeLeaf pa (permFlags p)) p := by
  simp only [flagsMatch, pteBit_eq]
  rw [encodeLeaf_bit _ _ (by decide), encodeLeaf_bit _ _ (by decide), encodeLeaf_bit _ _ (by decide),
    encodeLeaf_bit _ _ (by decide), encodeLeaf_bit _ _ (by decide), encodeLeaf_bit _ _ (by decide),
    encodeLeaf_bit _ _ (by decide), encodeLeaf_bit _ _ (by decide)]
  obtain ⟨r, w, x, u⟩ := p
  revert proper
  cases r <;> cases w <;> cases x <;> cases u <;> decide

theorem walk_spans {root : Ppn} {need : List (List Index)} {gs : List Span} {s : Phys}
    (tables : Tables root need (gs.flatMap Span.calls) s) (good : ∀ g ∈ gs, g.Good ∧ g.hi ≤ 2 ^ 38) {va : Usize}
    (canonical : sv39Canonical va) :
    (∃ g ∈ gs, g.Holds va.toNat ∧
      ∃ raw, walk s (frameAddr root) va = .ok (.mapped va raw g.level) ∧ flagsMatch raw g.perm) ∨
    ((∀ g ∈ gs, ¬ g.Holds va.toNat) ∧ ∃ lowest, walk s (frameAddr root) va = .ok (.unmapped lowest 0)) := by
  have range {c : Call} (mem : c ∈ gs.flatMap Span.calls) :
      ∃ g ∈ gs, c ∈ g.calls ∧ g.lo ≤ c.va.toNat ∧ c.va.toNat + c.bytes ≤ g.hi := by
    obtain ⟨g, inside, here⟩ := List.mem_flatMap.mp mem
    exact ⟨g, inside, here, (good g inside).1.call_range (Nat.le_trans (good g inside).2 (by decide)) here⟩
  -- Every call of a span stays below the half where addresses stop being canonical.
  have low : ∀ c ∈ gs.flatMap Span.calls, c.va.toNat < 2 ^ 38 ∧ c.pa.toNat < 2 ^ 56 := by
    intro c mem
    obtain ⟨g, inside, here, -, upper⟩ := range mem
    have pos : 0 < c.bytes := Span.levelBytes_pos c.level
    have bound := (good g inside).2
    rw [((good g inside).1.call here).2.2.1]
    omega
  rcases tables.walk_covers low canonical with ⟨c, sole, walked⟩ | ⟨none, walked⟩
  · have mem : c ∈ (gs.flatMap Span.calls).filter (·.Covers va) := by
      rw [sole]
      exact List.mem_singleton_self c
    obtain ⟨mem, covered⟩ := List.mem_filter.mp mem
    obtain ⟨g, inside, here, lower, upper⟩ := range mem
    obtain ⟨above, below⟩ : c.Covers va := of_decide_eq_true covered
    obtain ⟨-, -, identity, level, flags⟩ := (good g inside).1.call here
    refine .inl ⟨g, inside, ⟨Nat.le_trans lower above, Nat.lt_of_lt_of_le below upper⟩, c.raw, ?_, ?_⟩
    · rw [walked, identity, level, BitVec.add_comm, BitVec.sub_add_cancel]
    · rw [Call.raw, flags]
      exact flagsMatch_encodeLeaf _ (good g inside).1.proper
  · refine .inr ⟨fun g inside holds => ?_, walked⟩
    obtain ⟨c, here, covered⟩ := (good g inside).1.exists_call holds
    have absent := List.filter_eq_nil_iff.mp none c (List.mem_flatMap.mpr ⟨g, inside, here⟩)
    exact absent (decide_eq_true covered)

def Apart (g h : Region) : Prop := ∀ va < 2 ^ 38, g.Holds va → ¬ h.Holds va

theorem Apart.symm {g h : Region} (apart : Apart g h) : Apart h g := fun va low there here => apart va low here there

section
variable {root : Ppn} {need : List (List Index)} {s : Phys}

theorem spans_apart {gs : List Span} (tables : Tables root need (gs.flatMap Span.calls) s)
    (good : ∀ g ∈ gs, g.Good ∧ g.hi ≤ 2 ^ 38) : gs.Pairwise fun g h => Apart g.toRegion h.toRegion := by
  refine List.Pairwise.imp_of_mem (fun {g h} inG inH separate va low here there => ?_)
    (List.pairwise_flatMap.mp tables.distinct).2
  obtain ⟨w, rfl⟩ : ∃ w : Usize, w.toNat = va := ⟨BitVec.ofNat 64 va, Nat.mod_eq_of_lt (by omega)⟩
  have above {f : Span} (mem : f ∈ gs) (holds : f.Holds w.toNat) : ∃ c ∈ f.calls, c.position <+: indices w 2 := by
    obtain ⟨c, inside, covered⟩ := (good f mem).1.exists_call holds
    have below : c.va.toNat < 2 ^ 38 := Nat.lt_of_le_of_lt covered.1 low
    exact ⟨c, inside, (position_above_iff_covers ((good f mem).1.call inside).1 below (.inl low)).mpr covered⟩
  obtain ⟨c, inC, upC⟩ := above inG here
  obtain ⟨d, inD, upD⟩ := above inH there
  exact separate c inC d inD (List.prefix_or_prefix_of_prefix upC upD)

/-- The walk of an address in a mapped region is an identity leaf with the region's flags. -/
theorem walk_of_holds {gs : List Span} (tables : Tables root need (gs.flatMap Span.calls) s)
    (good : ∀ g ∈ gs, g.Good ∧ g.hi ≤ 2 ^ 38) {g : Span} (mem : g ∈ gs) {va : Usize}
    (holds : g.Holds va.toNat) : ∃ raw, walk s (frameAddr root) va = .ok (.mapped va raw g.level) ∧ flagsMatch raw g.perm := by
  have low : va.toNat < 2 ^ 38 := Nat.lt_of_lt_of_le holds.2 (good g mem).2
  rcases walk_spans tables good (sv39Canonical_iff.mpr (.inl low)) with ⟨h, inside, there, found⟩ | ⟨unheld, -⟩
  · have same : h = g := by
      by_contra distinct
      have : Std.Symm fun g h : Span => Apart g.toRegion h.toRegion := ⟨fun _ _ => Apart.symm⟩
      exact (spans_apart tables good).forall inside mem distinct va.toNat low there holds
    rwa [same] at found
  · exact absurd holds (unheld g mem)

end

end Page

/-! ## The regions of a layout -/

namespace Layout

variable (lay : Layout)

theorem checks : Page.Checks lay.symbols where
  start := rfl
  guard := rfl
  ordered := by
    have text := lay.text_pos
    have rodata := lay.rodata_pos
    have data := lay.data_pos
    have fits := lay.fits
    simp only [Page.Ordered, symbols, Sections.symbols, Sections.rodataStart, Sections.dataStart, Sections.bssEnd,
      Sections.bootStackBottom, Sections.bootStackTop, Sections.utextStart, Sections.utextEnd, Sections.urodataStart,
      Sections.urodataEnd, Sections.udataStart, Sections.udataEnd, Sections.ubssStart, Sections.ubssEnd,
      Sections.tasksStart, Sections.tasksEnd, Sections.heapStart, Sections.heapEnd, pageSize, maxTasks, taskReserve,
      ramL1Start, ramEnd] at fits ⊢
    omega
  follows := rfl
  user := by
    simp only [Page.UserOrdered, symbols, Sections.symbols, Sections.utextEnd, Sections.urodataStart,
      Sections.urodataEnd, Sections.udataStart, Sections.udataEnd, Sections.ubssStart, Sections.ubssEnd,
      Sections.tasksStart, Sections.tasksEnd, Sections.heapStart, maxTasks, taskReserve]
    omega
  heap := lay.fits

def low : List Region :=
  Page.sectionRegions lay.symbols ++ (List.range maxTasks).flatMap (fun id => (lay.slotAt id).regions) ++
  [⟨lay.heapStart, lay.heapEnd, .rw⟩, ⟨lay.heapEnd, ramL1Start, .rw⟩]

theorem ram_eq : lay.ram = lay.low ++ [⟨ramL1Start, ramEnd, .rw⟩] := by
  rw [low, List.append_assoc]
  rfl

theorem spans_eq : Page.spans lay.symbols =
    lay.low.map (⟨·, 0⟩) ++ [⟨⟨ramL1Start, ramEnd, .rw⟩, 1⟩, ⟨⟨mmioBase, mmioEnd, .rw⟩, 0⟩] := by
  rw [low, List.map_append, List.map_append, List.map_flatMap, List.append_assoc]
  rfl

theorem low_range {g : Region} (mem : g ∈ lay.low) : kernelStart ≤ g.lo ∧ g.lo ≤ g.hi ∧ g.hi ≤ ramL1Start := by
  have stacked := lay.stacked_ram
  have inRam : g ∈ lay.ram := lay.ram_eq ▸ List.mem_append_left _ mem
  have below := stacked.pairwise
  rw [ram_eq, List.pairwise_append] at below
  exact ⟨stacked.above inRam, stacked.ordered inRam, below.2.2 g mem _ (List.mem_singleton_self _)⟩

theorem tasksStart_aligned : lay.tasksStart % 4096 = 0 := by
  simp only [Sections.tasksStart, Sections.ubssEnd, Sections.ubssStart, Sections.udataEnd, Sections.udataStart,
    Sections.urodataEnd, Sections.urodataStart, Sections.utextEnd, Sections.utextStart, Sections.bootStackTop,
    Sections.bootStackBottom, Sections.bssEnd, Sections.dataStart, Sections.rodataStart, kernelStart, pageSize]
  omega

theorem low_aligned : ∀ g ∈ lay.low, g.lo % 4096 = 0 ∧ g.hi % 4096 = 0 := by
  have tasks := lay.tasksStart_aligned
  refine List.forall_mem_append.mpr ⟨List.forall_mem_append.mpr ⟨?_, ?_⟩, ?_⟩
  · simp only [Page.sectionRegions, List.forall_mem_cons, List.not_mem_nil, false_imp_iff, implies_true, and_true, true_and,
      symbols, Sections.symbols, Sections.ubssEnd, Sections.ubssStart, Sections.udataEnd, Sections.udataStart,
      Sections.urodataEnd, Sections.urodataStart, Sections.utextEnd, Sections.utextStart, Sections.bootStackTop,
      Sections.bootStackBottom, Sections.bssEnd, Sections.dataStart, Sections.rodataStart, kernelStart, pageSize]
    and_intros <;> omega
  · intro g mem
    obtain ⟨id, -, inside⟩ := List.mem_flatMap.mp mem
    have slot : ∀ g ∈ (lay.slotAt id).regions, g.lo % 4096 = 0 ∧ g.hi % 4096 = 0 := by
      simp only [Slot.regions, slotAt, Slot.from, taskReserve, List.forall_mem_cons, List.not_mem_nil, false_imp_iff,
        implies_true, and_true]
      omega
    exact slot g inside
  · simp only [List.forall_mem_cons, List.not_mem_nil, false_imp_iff, implies_true, and_true, Sections.heapEnd,
      Sections.heapStart, Sections.tasksEnd, maxTasks, taskReserve, ramL1Start]
    omega

theorem spans_good : ∀ g ∈ Page.spans lay.symbols, g.Good ∧ g.hi ≤ 2 ^ 38 := by
  intro g mem
  have proper := Page.spans_proper lay.symbols g mem
  rw [spans_eq] at mem
  rcases List.mem_append.mp mem with inLow | inRest
  · obtain ⟨h, inside, rfl⟩ := List.mem_map.mp inLow
    obtain ⟨-, ordered, below⟩ := lay.low_range inside
    obtain ⟨lower, upper⟩ := lay.low_aligned h inside
    exact ⟨⟨⟨lower, upper, ordered⟩, proper.1, proper.2⟩, Nat.le_trans below (by decide)⟩
  · rcases List.mem_cons.mp inRest with rfl | inMmio
    · exact ⟨⟨by decide, proper.1, proper.2⟩, by decide⟩
    · rw [List.mem_singleton.mp inMmio] at proper ⊢
      exact ⟨⟨by decide, proper.1, proper.2⟩, by decide⟩

theorem spans_disjoint : (Page.spans lay.symbols).Pairwise fun g h => g.hi ≤ h.lo ∨ h.hi ≤ g.lo := by
  have regions : lay.regions.Pairwise fun g h => g.hi ≤ h.lo ∨ h.hi ≤ g.lo := by
    refine List.pairwise_append.mpr ⟨lay.stacked_ram.pairwise.imp .inl, List.pairwise_singleton _ _, ?_⟩
    intro g inRam h inMmio
    rw [List.mem_singleton.mp inMmio]
    exact .inr (Nat.le_trans (by decide) (lay.stacked_ram.above inRam))
  rw [← regions_eq, List.pairwise_map] at regions
  exact regions

def tablePositions : List (List Page.Index) := [[2], [2, 1], [0], [0, 128]]

theorem calls_dirs : ∀ c ∈ Page.buildCalls lay.symbols, ∀ q, q ≠ [] → q <+: c.dir → q ∈ tablePositions := by
  intro c mem q below up
  obtain ⟨g, inside, here⟩ := List.mem_flatMap.mp mem
  have good := lay.spans_good g inside
  obtain ⟨-, -, -, level, -⟩ := good.1.call here
  obtain ⟨lower, upper⟩ := good.1.call_range (Nat.le_trans good.2 (by decide)) here
  have taken := c.dir_take below up
  have index {k n : Nat} (small : n < 512) (at_ : c.va.toNat / 2 ^ (12 + 9 * k) % 512 = n) :
      Page.indexAt c.va k = BitVec.ofNat 9 n := by
    rw [← BitVec.toNat_inj, Page.toNat_indexAt, at_, BitVec.toNat_ofNat, Nat.mod_eq_of_lt small]
  -- below 2 MiB leaves there is one more table
  have mega (two : Page.indexAt c.va 2 = 2) (one : c.level = 1) : c.dir = [2] := by
    cases c with
    | page va pa flags => cases one
    | mega va flags => exact congrArg (fun i => [i]) two
  have page {i j : Page.Index} (two : Page.indexAt c.va 2 = i) (one : Page.indexAt c.va 1 = j) (zero : c.level = 0) :
      c.dir = [i, j] := by
    cases c with
    | page va pa flags => exact congrArg₂ (fun i j => [i, j]) two one
    | mega va flags => cases zero
  have pos : 0 < c.bytes := Page.Span.levelBytes_pos c.level
  rw [spans_eq] at inside
  rcases List.mem_append.mp inside with inLow | inRest
  · obtain ⟨h, low, rfl⟩ := List.mem_map.mp inLow
    obtain ⟨first, -, last⟩ := lay.low_range low
    simp only [kernelStart, ramL1Start] at first last lower upper
    rw [page (index (k := 2) (n := 2) (by decide) (by omega)) (index (k := 1) (n := 1) (by decide) (by omega)) level] at taken
    simp only [tablePositions, List.mem_cons] at taken ⊢
    exact taken.imp id fun second => .inl (by simpa using second)
  · rcases List.mem_cons.mp inRest with rfl | inMmio
    · simp only [ramL1Start, ramEnd] at lower upper
      rw [mega (index (k := 2) (n := 2) (by decide) (by omega)) level] at taken
      simp only [tablePositions, List.mem_cons] at taken ⊢
      exact .inl (taken.elim id fun second => by simpa using second)
    · rw [List.mem_singleton.mp inMmio] at lower upper level
      simp only [mmioBase, mmioEnd] at lower upper
      rw [page (index (k := 2) (n := 0) (by decide) (by omega)) (index (k := 1) (n := 128) (by decide) (by omega)) level]
        at taken
      simp only [tablePositions, List.mem_cons] at taken ⊢
      exact .inr (.inr (taken.imp id fun second => .inl (by simpa using second)))

/-- An address of the user sections, a user stack or a break window. -/
def UserAddr (va : Nat) : Prop :=
  (lay.utextStart ≤ va ∧ va < lay.utextEnd) ∨ (lay.urodataStart ≤ va ∧ va < lay.urodataEnd) ∨
  (lay.udataStart ≤ va ∧ va < lay.udataEnd) ∨ (lay.ubssStart ≤ va ∧ va < lay.ubssEnd) ∨
  ∃ id < maxTasks, ((lay.slotAt id).ustackBottom ≤ va ∧ va < (lay.slotAt id).ustackTop) ∨
    ((lay.slotAt id).brkBase ≤ va ∧ va < (lay.slotAt id).brkWall)

/-- A guard page, an address below the kernel outside the device window, or one past RAM. -/
def HoleAddr (va : Nat) : Prop :=
  (lay.bssEnd ≤ va ∧ va < lay.bootStackBottom) ∨
  (∃ id < maxTasks, ((lay.slotAt id).ustackGuard ≤ va ∧ va < (lay.slotAt id).ustackBottom) ∨
    ((lay.slotAt id).kstackGuard ≤ va ∧ va < (lay.slotAt id).kstackBottom)) ∨
  (va < kernelStart ∧ ¬ (mmioBase ≤ va ∧ va < mmioEnd)) ∨ ramEnd ≤ va

theorem order : kernelStart ≤ lay.rodataStart ∧ lay.rodataStart ≤ lay.dataStart ∧ lay.dataStart ≤ lay.bssEnd ∧
    lay.bootStackBottom = lay.bssEnd + 4096 ∧ lay.bootStackTop = lay.bootStackBottom + 65536 ∧
    lay.utextStart = lay.bootStackTop ∧ lay.utextStart ≤ lay.utextEnd ∧ lay.urodataStart = lay.utextEnd ∧
    lay.urodataStart ≤ lay.urodataEnd ∧ lay.udataStart = lay.urodataEnd ∧ lay.udataStart ≤ lay.udataEnd ∧
    lay.ubssStart = lay.udataEnd ∧ lay.ubssStart ≤ lay.ubssEnd ∧ lay.tasksStart = lay.ubssEnd ∧
    lay.heapStart = lay.tasksStart + 4 * 90112 ∧ lay.heapEnd = lay.heapStart + 1048576 ∧ lay.heapEnd < ramL1Start :=
  ⟨Nat.le_add_right .., Nat.le_add_right .., Nat.le_add_right .., rfl, rfl, rfl, Nat.le_add_right .., rfl,
    Nat.le_add_right .., rfl, Nat.le_add_right .., rfl, Nat.le_add_right .., rfl, rfl, rfl, lay.fits⟩

theorem mem_regions {g : Region} (mem : g ∈ lay.regions) : g ∈ Page.sectionRegions lay.symbols ∨
    (∃ id < maxTasks, g ∈ (lay.slotAt id).regions) ∨
    g ∈ [⟨lay.heapStart, lay.heapEnd, .rw⟩, ⟨lay.heapEnd, ramL1Start, .rw⟩, ⟨ramL1Start, ramEnd, .rw⟩, ⟨mmioBase, mmioEnd, .rw⟩] := by
  rcases List.mem_append.mp mem with inRam | inMmio
  · rcases List.mem_append.mp inRam with lower | upper
    · rcases List.mem_append.mp lower with inSection | inSlot
      · exact .inl inSection
      · obtain ⟨id, known, inside⟩ := List.mem_flatMap.mp inSlot
        exact .inr (.inl ⟨id, List.mem_range.mp known, inside⟩)
    · exact .inr (.inr (List.mem_append_left [_] upper))
  · exact .inr (.inr (List.mem_append_right [_, _, _] inMmio))

theorem leaf_eq_none {va : Usize} (unheld : ∀ g ∈ lay.regions, ¬ g.Holds va.toNat) : lay.leaf va = none := by
  rw [leaf, Option.map_eq_none_iff, List.find?_eq_none]
  simpa using unheld

theorem leaf_eq_some {va : Usize} {p : Perm} (mapped : lay.leaf va = some p) :
    ∃ g ∈ lay.regions, g.Holds va.toNat ∧ g.perm = p := by
  obtain ⟨g, found, rfl⟩ := Option.map_eq_some_iff.mp mapped
  exact ⟨g, List.mem_of_find?_eq_some found, by simpa using List.find?_some found, rfl⟩

theorem leaf_of_holds {g : Region} (mem : g ∈ lay.regions) {va : Usize} (holds : g.Holds va.toNat) :
    lay.leaf va = some g.perm := by
  rcases List.mem_append.mp mem with inRam | inMmio
  · exact lay.leaf_of_mem inRam holds
  · have below : ∀ h ∈ lay.ram, ¬ h.Holds va.toNat := by
      rw [List.mem_singleton.mp inMmio] at holds
      exact lay.stacked_ram.outside (.inl (Nat.lt_trans holds.2 (by decide)))
    rw [leaf, regions, List.find?_append, List.find?_eq_none.mpr (by simpa using below)]
    rw [List.mem_singleton.mp inMmio] at holds ⊢
    rw [Option.none_or, List.find?_cons_of_pos (by simpa using holds)]
    rfl

theorem section_range : ∀ g ∈ Page.sectionRegions lay.symbols,
    kernelStart ≤ g.lo ∧ g.hi ≤ lay.tasksStart ∧ (g.hi ≤ lay.bssEnd ∨ lay.bootStackBottom ≤ g.lo) := by
  have order := lay.order
  simp only [Page.sectionRegions, List.forall_mem_cons, List.not_mem_nil, false_imp_iff, implies_true, and_true, symbols,
    Sections.symbols]
  and_intros <;> omega

theorem slot_range (id : Nat) : ∀ g ∈ (lay.slotAt id).regions,
    (lay.slotAt id).ustackBottom ≤ g.lo ∧ g.hi ≤ (lay.slotAt id).kstackTop ∧
      (g.hi ≤ (lay.slotAt id).kstackGuard ∨ (lay.slotAt id).kstackBottom ≤ g.lo) := by
  simp only [Slot.regions, slotAt, Slot.from, List.forall_mem_cons, List.not_mem_nil, false_imp_iff, implies_true,
    and_true]
  and_intros <;> omega

theorem leaf_hole {va : Usize} (hole : lay.HoleAddr va.toNat) : lay.leaf va = none := by
  refine lay.leaf_eq_none fun g mem => ?_
  have order := lay.order
  rw [Region.Holds]
  simp only [HoleAddr, slotAt, Slot.from, taskReserve, maxTasks, kernelStart, ramEnd, mmioBase, mmioEnd] at hole
  simp only [kernelStart, ramL1Start] at order
  rcases lay.mem_regions mem with inSection | ⟨id, known, inSlot⟩ | inRest
  · have range := lay.section_range g inSection
    simp only [kernelStart] at range
    rcases hole with guard | ⟨id, known, guard⟩ | below | above <;> omega
  · have range := lay.slot_range id g inSlot
    simp only [slotAt, Slot.from, taskReserve, maxTasks] at range known
    rcases hole with guard | ⟨id', known', guard⟩ | below | above <;> omega
  · have range : (lay.heapStart ≤ g.lo ∧ g.hi ≤ 0x88000000) ∨ (g.lo = 0x10001000 ∧ g.hi = 0x10009000) := by
      simp only [List.mem_cons, List.not_mem_nil, or_false] at inRest
      rcases inRest with rfl | rfl | rfl | rfl <;> dsimp only [ramL1Start, ramEnd, mmioBase, mmioEnd] <;> omega
    rcases hole with guard | ⟨id, known, guard⟩ | below | above <;> omega

/-- The user's leaves are those of the user sections, stacks and break windows. -/
theorem leaf_user_iff {va : Usize} : (∃ p, lay.leaf va = some p ∧ p.u) ↔ lay.UserAddr va.toNat := by
  constructor
  · rintro ⟨p, mapped, user⟩
    obtain ⟨g, mem, holds, rfl⟩ := lay.leaf_eq_some mapped
    rcases lay.mem_regions mem with inSection | ⟨id, known, inSlot⟩ | inRest
    · simp only [Page.sectionRegions, List.mem_cons, List.not_mem_nil, or_false] at inSection
      rcases inSection with rfl | rfl | rfl | rfl | rfl | rfl | rfl | rfl
      -- the four kernel ranges are not the user's
      iterate 4 cases user
      · exact .inl holds
      · exact .inr (.inl holds)
      · exact .inr (.inr (.inl holds))
      · exact .inr (.inr (.inr (.inl holds)))
    · simp only [Slot.regions, List.mem_cons, List.not_mem_nil, or_false] at inSlot
      rcases inSlot with rfl | rfl | rfl
      · exact .inr (.inr (.inr (.inr ⟨id, known, .inl holds⟩)))
      · exact .inr (.inr (.inr (.inr ⟨id, known, .inr holds⟩)))
      · cases user
    · simp only [List.mem_cons, List.not_mem_nil, or_false] at inRest
      rcases inRest with rfl | rfl | rfl | rfl <;> cases user
  · have inSection {g : Region} {i : Nat} (there : (Page.sectionRegions lay.symbols)[i]? = some g) : g ∈ lay.regions :=
      List.mem_append_left _ (List.mem_append_left _ (List.mem_append_left _ (List.mem_of_getElem? there)))
    have inSlot {id : Nat} (known : id < maxTasks) {g : Region} (mem : g ∈ (lay.slotAt id).regions) : g ∈ lay.regions :=
      List.mem_append_left _ (lay.slotRegion_mem known mem)
    have leaf {g : Region} (mem : g ∈ lay.regions) (holds : g.Holds va.toNat) (user : g.perm.u) :
        ∃ p, lay.leaf va = some p ∧ p.u := ⟨g.perm, lay.leaf_of_holds mem holds, user⟩
    rintro (utext | urodata | udata | ubss | ⟨id, known, stack | brk⟩)
    · exact @leaf ⟨_, _, .urx⟩ (inSection (i := 4) rfl) utext rfl
    · exact @leaf ⟨_, _, .ur⟩ (inSection (i := 5) rfl) urodata rfl
    · exact @leaf ⟨_, _, .urw⟩ (inSection (i := 6) rfl) udata rfl
    · exact @leaf ⟨_, _, .urw⟩ (inSection (i := 7) rfl) ubss rfl
    · exact @leaf ⟨_, _, .urw⟩ (inSlot known List.mem_cons_self) stack rfl
    · exact @leaf ⟨_, _, .urw⟩ (inSlot known (List.mem_cons_of_mem _ List.mem_cons_self)) brk rfl

theorem leaf_proper {va : Usize} {p : Perm} (mapped : lay.leaf va = some p) : Page.Proper p := by
  obtain ⟨g, mem, -, rfl⟩ := lay.leaf_eq_some mapped
  rw [← regions_eq] at mem
  obtain ⟨span, inside, rfl⟩ := List.mem_map.mp mem
  exact (Page.spans_proper lay.symbols span inside).2

/-- With five frames `build` returns, the first of them holding the root. -/
theorem build_returns {s : Page.Phys} (frames : Page.Frames s.free) (enough : 5 ≤ s.free.length) :
    ∃ s' ppn, Page.build lay.symbols s = .ok (s', Page.frameAddr ppn) ∧ s.free.head? = some (Page.frameAddr ppn) ∧
      Page.Tables ppn tablePositions (Page.buildCalls lay.symbols) s' := by
  have good : ∀ g ∈ Page.spans lay.symbols, g.Good ∧ g.hi ≤ 2 ^ 39 := fun g mem =>
    ⟨(lay.spans_good g mem).1, Nat.le_trans (lay.spans_good g mem).2 (by decide)⟩
  exact Page.build_returns frames lay.checks good lay.spans_disjoint lay.calls_dirs enough

end Layout

namespace Page

/-- With five frames `build` returns. The walk of a canonical address is an identity leaf with
the permissions of its region, or it is unmapped. No leaf is writable and executable, the user's
leaves are exactly its sections, stacks and break windows, and the holes are unmapped. -/
theorem build_maps_layout (lay : Layout) (s : Phys) (frames : Frames s.free) (enough : 5 ≤ s.free.length) :
    ∃ s' root, build lay.symbols s = .ok (s', root) ∧
      (∀ va, sv39Canonical va →
        match lay.leaf va with
        | some p => ∃ raw level, walk s' root va = .ok (.mapped va raw level) ∧ flagsMatch raw p
        | none => ∃ level raw, walk s' root va = .ok (.unmapped level raw)) ∧
      (∀ va p, lay.leaf va = some p → ¬ (p.w ∧ p.x)) ∧
      (∀ va, (∃ p, lay.leaf va = some p ∧ p.u) ↔ lay.UserAddr va.toNat) ∧
      (∀ va : Usize, lay.HoleAddr va.toNat → lay.leaf va = none) := by
  obtain ⟨s', ppn, ran, -, tables⟩ := lay.build_returns frames enough
  refine ⟨s', _, ran, fun va canonical => ?_, fun va p mapped => (lay.leaf_proper mapped).2, fun va => lay.leaf_user_iff,
    fun va => lay.leaf_hole⟩
  rcases walk_spans tables lay.spans_good canonical with ⟨g, mem, holds, raw, walked, flags⟩ | ⟨unheld, lowest, walked⟩
  · have inside : g.toRegion ∈ lay.regions := lay.regions_eq ▸ List.mem_map_of_mem mem
    rw [lay.leaf_of_holds inside holds]
    exact ⟨raw, g.level, walked, flags⟩
  · have none : lay.leaf va = none := by
      refine lay.leaf_eq_none fun g mem => ?_
      rw [← lay.regions_eq] at mem
      obtain ⟨span, inside, rfl⟩ := List.mem_map.mp mem
      exact unheld span inside
    rw [none]
    exact ⟨lowest, 0, walked⟩

/-- A layout with one page in every section, and the frames above its heap. -/
def onePages : Layout where
  text := 1
  rodata := 1
  data := 1
  utext := 1
  urodata := 1
  udata := 1
  ubss := 1
  text_pos := Nat.one_pos
  rodata_pos := Nat.one_pos
  data_pos := Nat.one_pos
  fits := by decide

def fiveFrames : Phys := ⟨fun _ => 0, [0x80600000, 0x80601000, 0x80602000, 0x80603000, 0x80604000]⟩

theorem frames_fiveFrames : Frames fiveFrames.free where
  aligned := by simp [fiveFrames]
  low := by simp [fiveFrames]
  nodup := by simp [fiveFrames]

/-- The second page of the kernel is read-only, and the page below the boot stack is a hole. -/
theorem build_maps_layout_onePages : ∃ s' root, build onePages.symbols fiveFrames = .ok (s', root) ∧
    (∃ raw level, walk s' root 0x80201fff = .ok (.mapped 0x80201fff raw level) ∧ flagsMatch raw .ro) ∧
    ∃ level raw, walk s' root 0x80203000 = .ok (.unmapped level raw) := by
  obtain ⟨s', root, ran, walked, -⟩ := build_maps_layout onePages fiveFrames frames_fiveFrames (by decide)
  have readOnly : onePages.leaf 0x80201fff = some .ro := by decide +kernel
  have guard : onePages.leaf 0x80203000 = none := by decide +kernel
  have first := walked 0x80201fff (by decide +kernel)
  have second := walked 0x80203000 (by decide +kernel)
  rw [readOnly] at first
  rw [guard] at second
  exact ⟨s', root, ran, first, second⟩

/-- Without read-only data two symbols are equal, and `build` panics on their order. -/
theorem build_empty_rodata : ∃ sec : Sections, sec.rodata = 0 ∧ sec.heapEnd < ramL1Start ∧
    ∀ s, build sec.symbols s = .error .linkerSymbols := by
  refine ⟨{ onePages.toSections with rodata := 0 }, rfl, by decide, fun s => ?_⟩
  unfold build
  rw [if_neg (by decide), if_neg (by decide), if_neg (by decide), if_pos (by decide)]
  rfl

end Page

end Whimbrel

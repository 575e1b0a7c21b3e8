import Whimbrel.Layout
import Whimbrel.Page.Walk

/-! The kernel map: `build` of `src/page.rs` over the linker symbols.

`build` takes the symbols as it finds them. The ranges it maps are regions of the
layout, one call of the mapper for each page, so the tables it leaves are those
of one list of calls. -/

set_option autoImplicit false

namespace Whimbrel

structure Symbols where
  kernelStart : Nat
  rodataStart : Nat
  dataStart : Nat
  bssEnd : Nat
  bootStackBottom : Nat
  bootStackTop : Nat
  utextStart : Nat
  utextEnd : Nat
  urodataStart : Nat
  urodataEnd : Nat
  udataStart : Nat
  udataEnd : Nat
  ubssStart : Nat
  ubssEnd : Nat
  tasksStart : Nat
  tasksEnd : Nat
  kernelEnd : Nat
  heapStart : Nat
  heapEnd : Nat
  /-- The symbols of the slots below `MAX_TASKS`. -/
  slotAt : Nat → Slot

def Symbols.slot (sym : Symbols) (id : Nat) : Result Slot :=
  if id < maxTasks then .ok (sym.slotAt id) else .error .taskId

/-- The symbols `linker.ld` gives for the section sizes. -/
def Sections.symbols (s : Sections) : Symbols where
  kernelStart := Whimbrel.kernelStart
  rodataStart := s.rodataStart
  dataStart := s.dataStart
  bssEnd := s.bssEnd
  bootStackBottom := s.bootStackBottom
  bootStackTop := s.bootStackTop
  utextStart := s.utextStart
  utextEnd := s.utextEnd
  urodataStart := s.urodataStart
  urodataEnd := s.urodataEnd
  udataStart := s.udataStart
  udataEnd := s.udataEnd
  ubssStart := s.ubssStart
  ubssEnd := s.ubssEnd
  tasksStart := s.tasksStart
  tasksEnd := s.tasksEnd
  kernelEnd := s.heapStart
  heapStart := s.heapStart
  heapEnd := s.heapEnd
  slotAt id := .from (s.tasksStart + id * taskReserve)

namespace Page

open Checked Radix

def permFlags (p : Perm) : U64 :=
  (if p.x then leafRx else if p.w then leafRw else leafR) ||| (if p.u then flagU else 0)

example : [Perm.rx, .ro, .rw, .urx, .ur, .urw].map permFlags = [leafRx, leafR, leafRw, leafUrx, leafUr, leafUrw] := by
  decide

def steps (step start fin : Nat) : List Usize :=
  (List.range ((fin - start) / step)).map fun i => BitVec.ofNat 64 (start + step * i)

def mapRange (s : Phys) (root : Usize) (start fin : Nat) (flags : U64) : Result Phys := do
  if start % frameBytes ≠ 0 ∨ fin % frameBytes ≠ 0 ∨ start > fin then throw .mapRange
  (steps frameBytes start fin).foldlM (fun s va => map s root va va flags) s

def mapRange2m (s : Phys) (root : Usize) (start fin : Nat) (flags : U64) : Result Phys := do
  if start % mega.toNat ≠ 0 ∨ fin % mega.toNat ≠ 0 ∨ start > fin then throw .mapRange
  (steps mega.toNat start fin).foldlM (fun s va => map2m s root va va flags) s

/-- The ranges of `build` below the task slots: the kernel sections, the boot
stack and the user sections. -/
def sectionRegions (sym : Symbols) : List Region :=
  [⟨sym.kernelStart, sym.rodataStart, .rx⟩, ⟨sym.rodataStart, sym.dataStart, .ro⟩,
    ⟨sym.dataStart, sym.bssEnd, .rw⟩, ⟨sym.bootStackBottom, sym.bootStackTop, .rw⟩,
    ⟨sym.utextStart, sym.utextEnd, .urx⟩, ⟨sym.urodataStart, sym.urodataEnd, .ur⟩,
    ⟨sym.udataStart, sym.udataEnd, .urw⟩, ⟨sym.ubssStart, sym.ubssEnd, .urw⟩]

def mapRegions (s : Phys) (root : Usize) (gs : List Region) : Result Phys :=
  gs.foldlM (fun s g => mapRange s root g.lo g.hi (permFlags g.perm)) s

def Ordered (sym : Symbols) : Prop :=
  sym.kernelStart < sym.rodataStart ∧ sym.rodataStart < sym.dataStart ∧ sym.dataStart < sym.bssEnd ∧
  sym.bssEnd < sym.bootStackBottom ∧ sym.bootStackBottom < sym.bootStackTop ∧ sym.bootStackTop < sym.heapStart ∧
  sym.heapStart < sym.heapEnd ∧ sym.heapEnd < ramEnd

def UserOrdered (sym : Symbols) : Prop :=
  sym.utextStart ≤ sym.utextEnd ∧ sym.utextEnd ≤ sym.urodataStart ∧ sym.urodataStart ≤ sym.urodataEnd ∧
  sym.urodataEnd ≤ sym.udataStart ∧ sym.udataStart ≤ sym.udataEnd ∧ sym.udataEnd ≤ sym.ubssStart ∧
  sym.ubssStart ≤ sym.ubssEnd ∧ sym.ubssEnd ≤ sym.tasksStart ∧ sym.tasksStart < sym.tasksEnd ∧
  sym.tasksEnd ≤ sym.heapStart

instance (sym : Symbols) : Decidable (Ordered sym) := inferInstanceAs (Decidable (_ ∧ _))

instance (sym : Symbols) : Decidable (UserOrdered sym) := inferInstanceAs (Decidable (_ ∧ _))

def ramL1StartOf (sym : Symbols) : Result Nat :=
  if sym.heapEnd ≥ ramL1Start then .error .heapCrossed else .ok ramL1Start

/-- The memory with the tables, and the root. -/
def build (sym : Symbols) (s : Phys) : Result (Phys × Usize) := do
  if sym.kernelStart ≠ 0x80200000 then throw .linkerSymbols
  if sym.bssEnd + frameBytes ≠ sym.bootStackBottom then throw .linkerSymbols
  if sym.bootStackTop ≥ sym.heapStart then throw .linkerSymbols
  if ¬ Ordered sym then throw .linkerSymbols
  if sym.utextStart ≠ sym.bootStackTop then throw .linkerSymbols
  if ¬ UserOrdered sym then throw .linkerSymbols
  let (s, root) ← allocTable s
  let s ← mapRegions s root (sectionRegions sym)
  let s ← (List.range maxTasks).foldlM (fun s id => do
    let slot ← sym.slot id
    mapRegions s root slot.regions) s
  let s ← mapRange s root sym.heapStart sym.heapEnd leafRw
  let l1 ← ramL1StartOf sym
  let s ← mapRange s root sym.heapEnd l1 leafRw
  let s ← mapRange2m s root l1 ramEnd leafRw
  let s ← mapRange s root mmioBase mmioEnd leafRw
  return (s, root)

/-! ## The calls of `build` -/

structure Span extends Region where
  level : Nat

namespace Span

def call (level : Nat) (flags : U64) (va : Usize) : Call :=
  match level with
  | 0 => .page va va flags
  | _ => .mega va flags

def calls (g : Span) : List Call :=
  (steps (levelBytes g.level) g.lo g.hi).map (call g.level (permFlags g.perm))

def Aligned (g : Span) : Prop := g.lo % levelBytes g.level = 0 ∧ g.hi % levelBytes g.level = 0 ∧ g.lo ≤ g.hi

instance (g : Span) : Decidable g.Aligned := inferInstanceAs (Decidable (_ ∧ _))

def map (root : Usize) (s : Phys) (g : Span) : Result Phys :=
  if g.Aligned then g.calls.foldlM (Call.exec root) s else .error .mapRange

end Span

section
variable (s : Phys) (root : Usize) (lo hi : Nat) (p : Perm)

theorem ite_misaligned {α : Type} (size lo hi : Nat) (a b : α) :
    (if lo % size ≠ 0 ∨ hi % size ≠ 0 ∨ lo > hi then a else b) =
      if lo % size = 0 ∧ hi % size = 0 ∧ lo ≤ hi then b else a := by
  by_cases good : lo % size = 0 ∧ hi % size = 0 ∧ lo ≤ hi
  · have fine : ¬ (lo % size ≠ 0 ∨ hi % size ≠ 0 ∨ lo > hi) := by
      rintro (bad | bad | bad)
      · exact bad good.1
      · exact bad good.2.1
      · exact Nat.not_lt.mpr good.2.2 bad
    rw [if_neg fine, if_pos good]
  · have bad : lo % size ≠ 0 ∨ hi % size ≠ 0 ∨ lo > hi := by
      simp only [not_and_or, Nat.not_le] at good
      exact good
    rw [if_pos bad, if_neg good]

theorem mapRange_eq : mapRange s root lo hi (permFlags p) = Span.map root s ⟨⟨lo, hi, p⟩, 0⟩ := by
  unfold mapRange Span.map
  rw [ite_misaligned, Span.calls, List.foldlM_map]
  rfl

theorem mapRange2m_eq : mapRange2m s root lo hi (permFlags p) = Span.map root s ⟨⟨lo, hi, p⟩, 1⟩ := by
  unfold mapRange2m Span.map
  rw [ite_misaligned, Span.calls, List.foldlM_map]
  rfl

theorem mapRegions_eq (gs : List Region) :
    mapRegions s root gs = (gs.map fun g => Span.mk g 0).foldlM (Span.map root) s := by
  rw [mapRegions, List.foldlM_map]
  congr 1
  funext s g
  exact mapRange_eq s root g.lo g.hi g.perm

end

/-- The regions `build` maps, in its order. -/
def spans (sym : Symbols) : List Span :=
  (sectionRegions sym).map (⟨·, 0⟩) ++
  (List.range maxTasks).flatMap (fun id => (sym.slotAt id).regions.map (⟨·, 0⟩)) ++
  [⟨⟨sym.heapStart, sym.heapEnd, .rw⟩, 0⟩, ⟨⟨sym.heapEnd, ramL1Start, .rw⟩, 0⟩, ⟨⟨ramL1Start, ramEnd, .rw⟩, 1⟩,
    ⟨⟨mmioBase, mmioEnd, .rw⟩, 0⟩]

theorem section_mem_spans {sym : Symbols} {g : Region} (mem : g ∈ sectionRegions sym) : Span.mk g 0 ∈ spans sym :=
  List.mem_append_left _ (List.mem_append_left _ (List.mem_map_of_mem mem))

theorem slot_mem_spans {sym : Symbols} {id : Nat} (known : id < maxTasks) {g : Region} (mem : g ∈ (sym.slotAt id).regions) :
    Span.mk g 0 ∈ spans sym := by
  refine List.mem_append_left _ (List.mem_append_right _ ?_)
  exact List.mem_flatMap.mpr ⟨id, List.mem_range.mpr known, List.mem_map_of_mem mem⟩

/-- What `build` checks of the symbols themselves. -/
structure Checks (sym : Symbols) : Prop where
  start : sym.kernelStart = 0x80200000
  guard : sym.bssEnd + frameBytes = sym.bootStackBottom
  ordered : Ordered sym
  follows : sym.utextStart = sym.bootStackTop
  user : UserOrdered sym
  heap : sym.heapEnd < ramL1Start

theorem mapSlots_eq (sym : Symbols) (root : Usize) (s : Phys) {ids : List Nat} (known : ∀ id ∈ ids, id < maxTasks) :
    ids.foldlM (fun s id => do
      let slot ← sym.slot id
      mapRegions s root slot.regions) s =
    (ids.flatMap fun id => (sym.slotAt id).regions.map fun g => Span.mk g 0).foldlM (Span.map root) s := by
  induction ids generalizing s with
  | nil => rfl
  | cons id ids ih =>
    rw [List.foldlM_cons, List.flatMap_cons, List.foldlM_append, Symbols.slot, if_pos (known id List.mem_cons_self), bind_ok,
      mapRegions_eq]
    congr 1
    funext s
    exact ih s fun id mem => known id (List.mem_cons_of_mem _ mem)

theorem build_eq {sym : Symbols} (checks : Checks sym) (s : Phys) : build sym s = (do
    let (s, root) ← allocTable s
    let s ← (spans sym).foldlM (Span.map root) s
    return (s, root)) := by
  obtain ⟨start, guard, ordered, follows, user, heap⟩ := checks
  have below : ¬ sym.bootStackTop ≥ sym.heapStart := Nat.not_le.mpr ordered.2.2.2.2.2.1
  unfold build
  rw [if_neg (not_not.mpr start), if_neg (not_not.mpr guard), if_neg below, if_neg (not_not.mpr ordered),
    if_neg (not_not.mpr follows), if_neg (not_not.mpr user)]
  dsimp only
  congr 1
  funext ⟨s, root⟩
  have l1 : ramL1StartOf sym = .ok ramL1Start := if_neg (Nat.not_le.mpr heap)
  have rw : leafRw = permFlags .rw := by decide
  have slots := fun s => @mapSlots_eq sym root s (List.range maxTasks) fun id mem => List.mem_range.mp mem
  simp only [slots]
  simp only [spans, List.foldlM_append, bind_assoc, mapRegions_eq, rw, mapRange_eq, mapRange2m_eq, l1, bind_ok,
    List.foldlM_cons, List.foldlM_nil, pure_bind]

theorem checks_of_build {sym : Symbols} {s : Phys} {r : Phys × Usize} (ran : build sym s = .ok r) : Checks sym := by
  unfold build at ran
  by_cases start : sym.kernelStart ≠ 0x80200000
  · rw [if_pos start] at ran
    cases ran
  by_cases guard : sym.bssEnd + frameBytes ≠ sym.bootStackBottom
  · rw [if_neg start, if_pos guard] at ran
    cases ran
  by_cases below : sym.bootStackTop ≥ sym.heapStart
  · rw [if_neg start, if_neg guard, if_pos below] at ran
    cases ran
  by_cases ordered : ¬ Ordered sym
  · rw [if_neg start, if_neg guard, if_neg below, if_pos ordered] at ran
    cases ran
  by_cases follows : sym.utextStart ≠ sym.bootStackTop
  · rw [if_neg start, if_neg guard, if_neg below, if_neg ordered, if_pos follows] at ran
    cases ran
  by_cases user : ¬ UserOrdered sym
  · rw [if_neg start, if_neg guard, if_neg below, if_neg ordered, if_neg follows, if_pos user] at ran
    cases ran
  rw [if_neg start, if_neg guard, if_neg below, if_neg ordered, if_neg follows, if_neg user] at ran
  -- the heap is checked after the ranges below it are mapped
  obtain ⟨⟨s0, root⟩, -, ran⟩ := bind_eq_ok ran
  obtain ⟨s1, -, ran⟩ := bind_eq_ok ran
  obtain ⟨s2, -, ran⟩ := bind_eq_ok ran
  obtain ⟨s3, -, ran⟩ := bind_eq_ok ran
  obtain ⟨l1, heap, -⟩ := bind_eq_ok ran
  obtain ⟨below, -⟩ := check_eq_ok heap
  exact ⟨not_not.mp start, not_not.mp guard, not_not.mp ordered, not_not.mp follows, not_not.mp user, Nat.not_le.mp below⟩

/-- Mapping the spans is running their calls, if every range is well formed. -/
theorem mapSpans_eq (root : Usize) (s : Phys) {gs : List Span} (aligned : ∀ g ∈ gs, g.Aligned) :
    gs.foldlM (Span.map root) s = (gs.flatMap Span.calls).foldlM (Call.exec root) s := by
  induction gs generalizing s with
  | nil => rfl
  | cons g gs ih =>
    rw [List.foldlM_cons, List.flatMap_cons, List.foldlM_append, Span.map, if_pos (aligned g List.mem_cons_self)]
    congr 1
    funext s
    exact ih s fun g mem => aligned g (List.mem_cons_of_mem _ mem)

theorem aligned_of_mapSpans {root : Usize} {s s' : Phys} {gs : List Span} (ran : gs.foldlM (Span.map root) s = .ok s') :
    ∀ g ∈ gs, g.Aligned := by
  induction gs generalizing s with
  | nil => simp
  | cons g gs ih =>
    rw [List.foldlM_cons] at ran
    obtain ⟨s1, first, rest⟩ := bind_eq_ok ran
    refine List.forall_mem_cons.mpr ⟨?_, ih rest⟩
    by_contra bad
    rw [Span.map, if_neg bad] at first
    cases first

def buildCalls (sym : Symbols) : List Call := (spans sym).flatMap Span.calls

/-- A permission the `LEAF_*` constants have: readable, and not both writable and executable. -/
def Proper (p : Perm) : Prop := p.r ∧ ¬ (p.w ∧ p.x)

instance (p : Perm) : Decidable (Proper p) := inferInstanceAs (Decidable (_ ∧ _))

theorem permFlags_ok {p : Perm} (proper : Proper p) :
    FlagsOk (permFlags p) ∧ Readable (permFlags p) ∧ (permFlags p).toNat < 2 ^ 10 := by
  obtain ⟨r, w, x, u⟩ := p
  revert proper
  cases r <;> cases w <;> cases x <;> cases u <;> decide

namespace Span

variable {g : Span} {c : Call}

structure Good (g : Span) : Prop where
  aligned : g.Aligned
  low : g.level ≤ 1
  proper : Proper g.perm

theorem call_level {level : Nat} (low : level ≤ 1) (flags : U64) (va : Usize) : (call level flags va).level = level := by
  obtain rfl | rfl : level = 0 ∨ level = 1 := by omega
  · rfl
  · rfl

theorem call_va (level : Nat) (flags : U64) (va : Usize) : (call level flags va).va = va ∧ (call level flags va).pa = va ∧
    (call level flags va).flags = flags := by
  cases level <;> exact ⟨rfl, rfl, rfl⟩

theorem levelBytes_pos (level : Nat) : 0 < levelBytes level :=
  Nat.mul_pos (by decide) (Nat.pow_pos (by decide))

theorem levelBytes_dvd {level : Nat} (low : level ≤ 1) : levelBytes level ∣ 2 ^ 64 := by
  obtain rfl | rfl : level = 0 ∨ level = 1 := by omega
  · decide
  · decide

def count (g : Span) : Nat := (g.hi - g.lo) / levelBytes g.level

def callAt (g : Span) (i : Nat) : Call :=
  call g.level (permFlags g.perm) (BitVec.ofNat 64 (g.lo + levelBytes g.level * i))

theorem calls_eq (g : Span) : g.calls = (List.range g.count).map g.callAt := List.map_map

theorem mem_calls : c ∈ g.calls ↔ ∃ i, i < g.count ∧ g.callAt i = c := by
  rw [calls_eq, List.mem_map]
  simp only [List.mem_range]

theorem callAt_end (g : Span) {i : Nat} (ordered : g.lo ≤ g.hi) (inside : i < g.count) :
    g.lo + levelBytes g.level * i + levelBytes g.level ≤ g.hi := by
  have last := Nat.mul_le_mul_left (levelBytes g.level) inside
  have whole := Nat.mul_div_le (g.hi - g.lo) (levelBytes g.level)
  rw [Nat.mul_succ] at last
  rw [count] at last
  omega

theorem toNat_callAt (g : Span) {i : Nat} (ordered : g.lo ≤ g.hi) (small : g.hi ≤ 2 ^ 64) (inside : i < g.count) :
    (g.callAt i).va.toNat = g.lo + levelBytes g.level * i := by
  have last := g.callAt_end ordered inside
  have pos := levelBytes_pos g.level
  rw [callAt, (call_va _ _ _).1, BitVec.toNat_ofNat, Nat.mod_eq_of_lt (by omega)]

theorem Good.call (good : g.Good) (mem : c ∈ g.calls) :
    c.Accepted ∧ c.Plain ∧ c.pa = c.va ∧ c.level = g.level ∧ c.flags = permFlags g.perm := by
  obtain ⟨i, -, rfl⟩ := mem_calls.mp mem
  obtain ⟨flagsOk, readable, small⟩ := permFlags_ok good.proper
  rw [callAt]
  have multiple : (BitVec.ofNat 64 (g.lo + levelBytes g.level * i)).toNat % levelBytes g.level = 0 := by
    rw [BitVec.toNat_ofNat, Nat.mod_mod_of_dvd _ (levelBytes_dvd good.low), Nat.add_mul_mod_self_left]
    exact good.aligned.1
  have low := good.low
  generalize BitVec.ofNat 64 (g.lo + levelBytes g.level * i) = va at multiple ⊢
  generalize g.level = level at multiple low ⊢
  obtain rfl | rfl : level = 0 ∨ level = 1 := by omega
  · exact ⟨⟨⟨multiple, multiple⟩, flagsOk⟩, ⟨readable, small⟩, rfl, rfl, rfl⟩
  · exact ⟨⟨(and_megaMask va).mpr multiple, flagsOk⟩, ⟨readable, small⟩, rfl, rfl, rfl⟩

theorem Good.call_range (good : g.Good) (small : g.hi ≤ 2 ^ 64) (mem : c ∈ g.calls) :
    g.lo ≤ c.va.toNat ∧ c.va.toNat + c.bytes ≤ g.hi := by
  obtain ⟨-, -, -, level, -⟩ := good.call mem
  obtain ⟨i, inside, rfl⟩ := mem_calls.mp mem
  have last := g.callAt_end good.aligned.2.2 inside
  rw [Call.bytes, level, g.toNat_callAt good.aligned.2.2 small inside]
  omega

theorem Good.exists_call (good : g.Good) {va : Usize} (holds : g.Holds va.toNat) : ∃ c ∈ g.calls, c.Covers va := by
  obtain ⟨low, high, ordered⟩ := good.aligned
  obtain ⟨lower, upper⟩ := holds
  have pos := levelBytes_pos g.level
  have inside : (va.toNat - g.lo) / levelBytes g.level < g.count := by
    have whole : g.count * levelBytes g.level = g.hi - g.lo :=
      Nat.div_mul_cancel (Nat.dvd_sub (Nat.dvd_of_mod_eq_zero high) (Nat.dvd_of_mod_eq_zero low))
    rw [Nat.div_lt_iff_lt_mul pos, whole]
    omega
  refine ⟨_, mem_calls.mpr ⟨_, inside, rfl⟩, ?_⟩
  have whole := Nat.div_add_mod (va.toNat - g.lo) (levelBytes g.level)
  have rest := Nat.mod_lt (va.toNat - g.lo) pos
  have bound := va.isLt
  rw [Call.Covers, callAt, (call_va _ _ _).1, Call.bytes, call_level good.low, BitVec.toNat_ofNat,
    Nat.mod_eq_of_lt (by omega)]
  omega

theorem apart_of_le {d : Call} (left : c.Accepted) (right : d.Accepted) (low : d.va.toNat < 2 ^ 39)
    (below : c.va.toNat + c.bytes ≤ d.va.toNat) : ¬ Meets c.position d.position := by
  have pos := levelBytes_pos c.level
  rw [meets_iff_overlaps left right (by omega) low, Call.Overlaps]
  omega

theorem Good.distinct (good : g.Good) (small : g.hi ≤ 2 ^ 39) :
    g.calls.Pairwise fun c d => ¬ Meets c.position d.position := by
  rw [calls_eq, List.pairwise_map]
  refine List.Pairwise.imp_of_mem (fun {i j} left right less => ?_) List.pairwise_lt_range
  rw [List.mem_range] at left right
  have ordered := good.aligned.2.2
  have first := good.call (mem_calls.mpr ⟨i, left, rfl⟩)
  have second := good.call (mem_calls.mpr ⟨j, right, rfl⟩)
  have bound : g.hi ≤ 2 ^ 64 := Nat.le_trans small (by decide)
  have last := g.callAt_end ordered right
  have pos := levelBytes_pos g.level
  have gap := Nat.mul_le_mul_left (levelBytes g.level) less
  rw [Nat.mul_succ] at gap
  refine apart_of_le first.1 second.1 ?_ ?_
  · rw [g.toNat_callAt ordered bound right]
    omega
  · rw [g.toNat_callAt ordered bound left, g.toNat_callAt ordered bound right, Call.bytes, first.2.2.2.1]
    omega

theorem Good.apart {h : Span} (good : g.Good) (good' : h.Good) (small : h.hi ≤ 2 ^ 39) (below : g.hi ≤ h.lo)
    {d : Call} (left : c ∈ g.calls) (right : d ∈ h.calls) : ¬ Meets c.position d.position := by
  have bound : h.hi ≤ 2 ^ 64 := Nat.le_trans small (by decide)
  have second := good'.call_range bound right
  have ordered := good'.aligned.2.2
  have first := good.call_range (by omega) left
  have pos : 0 < d.bytes := levelBytes_pos d.level
  exact apart_of_le (good.call left).1 (good'.call right).1 (by omega) (by omega)

end Span

/-! ## The tables `build` leaves -/

theorem spans_distinct {gs : List Span} (good : ∀ g ∈ gs, g.Good ∧ g.hi ≤ 2 ^ 39)
    (disjoint : gs.Pairwise fun g h => g.hi ≤ h.lo ∨ h.hi ≤ g.lo) :
    (gs.flatMap Span.calls).Pairwise fun c d => ¬ Meets c.position d.position := by
  refine List.pairwise_flatMap.mpr ⟨fun g mem => (good g mem).1.distinct (good g mem).2, ?_⟩
  refine List.Pairwise.imp_of_mem (fun {g h} left right apart c inG d inH => ?_) disjoint
  rcases apart with below | above
  · exact (good g left).1.apart (good h right).1 (good h right).2 below inG inH
  · exact fun meets => (good h right).1.apart (good g left).1 (good g left).2 above inH inG meets.symm

theorem spans_proper (sym : Symbols) : ∀ g ∈ spans sym, g.level ≤ 1 ∧ Proper g.perm := by
  -- neither depends on the symbols
  have all : (spans sym).all (fun g => decide (g.level ≤ 1 ∧ Proper g.perm)) = true := rfl
  exact fun g mem => of_decide_eq_true (List.all_eq_true.mp all g mem)

variable {sym : Symbols} {s s' : Phys} {root : Usize}

theorem allocTable_tables {need : List (List Index)} (frames : Frames s.free) (ran : allocTable s = .ok (s', root))
    (enough : need.length < s.free.length) : ∃ ppn, root = frameAddr ppn ∧ Tables ppn need [] s' := by
  obtain ⟨ppns, same, nodup⟩ := frames.ppns
  unfold allocTable at ran
  split at ran
  · cases ran
  · rename_i head free taken
    cases ran
    obtain ⟨ppn, rest, rfl, rfl, unused⟩ := List.map_eq_cons_iff.mp (same.symm.trans taken)
    rw [taken, List.length_cons, ← unused, List.length_map] at enough
    exact ⟨ppn, rfl, .empty (fun i => if_pos (cell_in_frame.mpr rfl)) unused.symm nodup (Nat.le_of_lt_succ enough)⟩

/-- If `build` returns, every range was well formed, and it ran its calls from a fresh root. -/
theorem runs_of_build (ran : build sym s = .ok (s', root)) : (∀ g ∈ spans sym, g.Good) ∧
    ∃ s0, allocTable s = .ok (s0, root) ∧ (buildCalls sym).foldlM (Call.exec root) s0 = .ok s' := by
  rw [build_eq (checks_of_build ran)] at ran
  obtain ⟨⟨s0, root'⟩, alloc, ran⟩ := bind_eq_ok ran
  obtain ⟨s1, mapped, done⟩ := bind_eq_ok ran
  cases done
  have aligned := aligned_of_mapSpans mapped
  rw [mapSpans_eq _ _ aligned] at mapped
  exact ⟨fun g mem => ⟨aligned g mem, (spans_proper sym g mem).1, (spans_proper sym g mem).2⟩, s0, alloc, mapped⟩

theorem tables_of_build (frames : Frames s.free) (ran : build sym s = .ok (s', root)) :
    (∀ g ∈ spans sym, g.Good) ∧ ∃ ppn, root = frameAddr ppn ∧ Tables ppn [] (buildCalls sym) s' := by
  obtain ⟨good, s0, alloc, mapped⟩ := runs_of_build ran
  have some : 0 < s.free.length := by
    cases free : s.free with
    | nil =>
      rw [allocTable, free] at alloc
      cases alloc
    | cons f rest => exact Nat.succ_pos _
  obtain ⟨ppn, rfl, tables⟩ := allocTable_tables frames alloc (show ([] : List (List Index)).length < _ from some)
  have plain : ∀ c ∈ buildCalls sym, c.Plain := by
    intro c mem
    obtain ⟨g, inside, here⟩ := List.mem_flatMap.mp mem
    exact ((good g inside).call here).2.1
  have all := tables.run plain mapped
  rw [List.nil_append] at all
  exact ⟨good, ppn, rfl, all⟩

/-- `build` returns if the checks pass, the ranges are well formed and disjoint, and there is a
frame for the root and for each table. -/
theorem build_returns {need : List (List Index)} (frames : Frames s.free) (checks : Checks sym)
    (good : ∀ g ∈ spans sym, g.Good ∧ g.hi ≤ 2 ^ 39)
    (disjoint : (spans sym).Pairwise fun g h => g.hi ≤ h.lo ∨ h.hi ≤ g.lo)
    (dirs : ∀ c ∈ buildCalls sym, ∀ q, q ≠ [] → q <+: c.dir → q ∈ need) (enough : need.length < s.free.length) :
    ∃ s' ppn, build sym s = .ok (s', frameAddr ppn) ∧ s.free.head? = some (frameAddr ppn) ∧
      Tables ppn need (buildCalls sym) s' := by
  obtain ⟨first, rest, free⟩ := List.exists_cons_of_length_pos (Nat.lt_of_le_of_lt (Nat.zero_le _) enough)
  obtain ⟨s0, alloc⟩ : ∃ s0, allocTable s = .ok (s0, first) := by
    rw [allocTable, free]
    exact ⟨_, rfl⟩
  obtain ⟨ppn, rfl, tables⟩ := allocTable_tables frames alloc enough
  have each : ∀ c ∈ buildCalls sym, c.Accepted ∧ c.Plain ∧ ∀ q, q ≠ [] → q <+: c.dir → q ∈ need := by
    intro c mem
    obtain ⟨g, inside, here⟩ := List.mem_flatMap.mp mem
    have spec := (good g inside).1.call here
    exact ⟨spec.1, spec.2.1, dirs c mem⟩
  -- The regions are disjoint, so no call meets an earlier one.
  have apart : ([] ++ buildCalls sym).Pairwise fun (c d : Call) => ¬ Meets c.position d.position := by
    rw [List.nil_append]
    exact spans_distinct good disjoint
  obtain ⟨s', ran, tables⟩ := tables.run_returns each apart
  rw [List.nil_append] at tables
  refine ⟨s', ppn, ?_, by rw [free]; rfl, tables⟩
  rw [build_eq checks, alloc, bind_ok]
  dsimp only
  rw [mapSpans_eq _ _ fun g mem => (good g mem).1.aligned]
  change ((buildCalls sym).foldlM _ s0 >>= _) = _
  rw [ran]
  rfl

end Page

end Whimbrel

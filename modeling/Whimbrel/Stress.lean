import Whimbrel.Frame
import Whimbrel.Heap.Global
import Whimbrel.Lib.Slots
import Whimbrel.Timer

/-! The allocator storm of the stress image: `src/stress.rs`.

A table of frames and one of heap pointers are filled and cleared slot by slot, the
slot and the request drawn from a linear congruential generator; afterwards both
allocators must be as they were. -/

set_option autoImplicit false

namespace Whimbrel.Stress

open Checked Slots Transition

def iters : Nat := 4096
def slots : Nat := 16
def lcgSeed : U32 := 0xC0FFEE

def lcgNext (x : U32) : U32 := x * 1664525 + 1013904223

abbrev HeapSlot := Heap.Grant

structure Machine where
  frames : Frame.State
  heap : Heap.Global

/-- Why a storm stops the kernel, with what its message prints. -/
inductive Stop where
  | frame (why : Panic)
  | heap (why : Heap.Stop)
  | timer (why : Timer.Stop)
  | layout (size align : Nat)
  | start (tag : String) (blocks bytes : Nat)
  | framesFree (tag : String) (frames want : Nat)
  | heapBlocks (tag : String) (blocks bytes region : Nat)
  deriving DecidableEq, Repr

/-- The locals of `storm`: the generator, and the two tables. -/
structure Storm where
  rng : U32
  mem : Machine
  frames : Fin slots → Usize
  heaps : Fin slots → HeapSlot

def slotOf (r : U32) : Fin slots := ⟨r.toNat % slots, Nat.mod_lt _ (by decide)⟩

def sizeOf (r : U32) : Nat := 8 <<< ((r >>> 8) &&& 7).toNat

def alignOf (r : U32) : Nat := 1 <<< ((r >>> 16) &&& 3).toNat

/-- `Layout::from_size_align`: a power of two, and the size rounded up to it is not above `isize::MAX`. -/
def layoutOk (size align : Nat) : Bool := decide align.isPowerOfTwo && decide (size + (align - 1) < 2 ^ 63)

def Storm.freeFrame (st : Storm) (slot : Fin slots) : Except Stop Storm := do
  let frames ← (Frame.freeFrame st.mem.frames (st.frames slot)).mapError .frame
  return { st with mem := { st.mem with frames }, frames := Function.update st.frames slot 0 }

def Storm.frameRound (st : Storm) (slot : Fin slots) : Except Stop Storm := do
  if st.frames slot = 0 then
    let (frames, pa) ← (Frame.allocFrame st.mem.frames).mapError .frame
    return { st with mem := { st.mem with frames }, frames := Function.update st.frames slot pa }
  else st.freeFrame slot

/-- `dealloc` of a slot; its layout stays. -/
def Storm.freeHeap (cfg : Config) (st : Storm) (slot : Fin slots) : Except Stop Storm := do
  let a := st.heaps slot
  let heap ← (st.mem.heap.dealloc cfg a.ptr a.size a.align).mapError .heap
  return { st with mem := { st.mem with heap }, heaps := Function.update st.heaps slot { a with ptr := 0 } }

def Storm.heapRound (cfg : Config) (st : Storm) (r : U32) (slot : Fin slots) : Except Stop Storm := do
  if (st.heaps slot).ptr = 0 then
    let size := sizeOf r
    let align := alignOf r
    if !layoutOk size align then throw (.layout size align)
    let (heap, ptr) ← (st.mem.heap.alloc cfg size align).mapError .heap
    return { st with mem := { st.mem with heap }, heaps := Function.update st.heaps slot ⟨ptr, size, align⟩ }
  else st.freeHeap cfg slot

def Storm.round (cfg : Config) (st : Storm) : Except Stop Storm :=
  let r := lcgNext st.rng
  let slot := slotOf r
  let st := { st with rng := r }
  if r &&& 1 = 0 then st.frameRound slot else st.heapRound cfg r slot

def Storm.rounds (cfg : Config) : Nat → Storm → Except Stop Storm
  | 0, st => .ok st
  | n + 1, st => do
    let st ← st.round cfg
    st.rounds cfg n

def Storm.clear (cfg : Config) (st : Storm) (slot : Fin slots) : Except Stop Storm := do
  let st ← if st.frames slot ≠ 0 then st.freeFrame slot else .ok st
  if (st.heaps slot).ptr ≠ 0 then st.freeHeap cfg slot else return st

def assertRestored (cfg : Config) (m : Machine) (framesStart : Nat) (tag : String) : Except Stop Unit := do
  (Frame.checkRecycled m.frames).mapError .frame
  let frames ← (Frame.freeCount m.frames).mapError .frame
  if frames ≠ framesStart then throw (.framesFree tag frames framesStart)
  let (blocks, bytes) ← (Heap.freeStats cfg m.heap.heap).mapError .heap
  let region := Heap.regionSize m.heap.heap
  if blocks ≠ 1 ∨ bytes ≠ region then throw (.heapBlocks tag blocks bytes region)

def Storm.start (rng : U32) (m : Machine) : Storm := ⟨rng, m, fun _ => 0, fun _ => ⟨0, 1, 1⟩⟩

/-- `storm`, with `n` for `ITERS`; the generator and the allocators it leaves. -/
def storm (cfg : Config) (n : Nat) (tag : String) (rng : U32) (m : Machine) : Except Stop (U32 × Machine) := do
  let framesStart ← (Frame.freeCount m.frames).mapError .frame
  let (blocks, bytes) ← (Heap.freeStats cfg m.heap.heap).mapError .heap
  if blocks ≠ 1 ∨ bytes ≠ Heap.regionSize m.heap.heap then throw (.start tag blocks bytes)
  let st ← (Storm.start rng m).rounds cfg n
  let st ← (List.finRange slots).foldlM (Storm.clear cfg) st
  assertRestored cfg st.mem framesStart tag
  return (st.rng, st.mem)

/-- `run`; `now` is the clock at the two calls of `set_period`. -/
def run (cfg : Config) (platform : Platform) (now : Usize × Usize) (t : Timer.State) (m : Machine) :
    Except Stop (Timer.State × Machine) := do
  let (rng, m) ← storm cfg iters "10ms" lcgSeed m
  let (t, _) ← (Timer.setPeriod platform now.1 Timer.period1ms t).mapError .timer
  let (_, m) ← storm cfg iters "1ms" rng m
  let (t, _) ← (Timer.setPeriod platform now.2 Timer.period t).mapError .timer
  return (t, m)

def taken (pa : Usize) : Bool := pa ≠ 0

def live (a : HeapSlot) : Bool := a.ptr ≠ 0

/-- The frames of a storm, over those that were outstanding before it. -/
structure FrameSide (out : List Usize) (total : Nat) (s : Frame.State) (table : Fin slots → Usize) : Prop where
  thawed : s.frozen = false
  total : s.total = total
  inv : ∃ all : List Usize, all.Perm (occupied taken table ++ out) ∧ Frame.Inv s all
  even : ∀ i, table i ≠ 0 → i.val % 2 = 0

structure HeapSide (lo hi : Nat) (g : Heap.Global) (table : Fin slots → HeapSlot) : Prop where
  idle : g.inAlloc = false
  inv : ∃ w l, w.heap = g.heap ∧ w.live.Perm (occupied live table) ∧ Heap.Sound lo hi w l ∧ Heap.Snug w
  small : ∀ i, (table i).ptr ≠ 0 → (table i).size ≤ 1024
  odd : ∀ i, (table i).ptr ≠ 0 → i.val % 2 = 1

section
variable {α : Type} {p : α → Bool} {table : Fin slots → α} {slot : Fin slots} {v : α}

theorem half_slots : ∀ b : Fin 2, (List.finRange slots).countP (fun i => i.val % 2 == b.val) = 8 := by decide

theorem occupied_le (b : Fin 2) (only : ∀ i, p (table i) = true → i.val % 2 = b.val) : (occupied p table).length ≤ 8 := by
  rw [← half_slots b]
  refine length_held_le _ fun i some => beq_iff_eq.mpr (only i ?_)
  exact by_contra fun null => some (Option.guard_eq_none_iff.mpr (Bool.not_eq_true _ ▸ null))

theorem occupied_lt (b : Fin 2) (only : ∀ i, p (table i) = true → i.val % 2 = b.val) (parity : slot.val % 2 = b.val)
    (empty : p (table slot) = false) (value : p v = true) : (occupied p table).length < 8 := by
  have filled : (occupied p (Function.update table slot v)).length ≤ 8 := by
    refine occupied_le b fun i some => ?_
    by_cases here : i = slot
    · exact here ▸ parity
    · exact only i (Function.update_of_ne here v table ▸ some)
  rwa [(occupied_fill empty value).length_eq] at filled

end

section
variable (cfg : Config) {out : List Usize} {total lo hi size align : Nat} {s : Frame.State} {g : Heap.Global}
  {frames : Fin slots → Usize} {heaps : Fin slots → HeapSlot} {slot : Fin slots}

theorem forall_update {α : Type} {P : Fin slots → α → Prop} {table : Fin slots → α} {v : α} (old : ∀ i, P i (table i))
    (new : P slot v) : ∀ i, P i (Function.update table slot v i) := by
  intro i
  by_cases here : i = slot
  · subst here
    rw [Function.update_self]
    exact new
  · rw [Function.update_of_ne here]
    exact old i

theorem FrameSide.alloc (side : FrameSide out total s frames) (room : out.length + 8 ≤ total) (even : slot.val % 2 = 0)
    (empty : frames slot = 0) : ∃ s' pa, Frame.allocFrame s = .ok (s', pa) ∧ pa ≠ 0 ∧
      FrameSide out total s' (Function.update frames slot pa) := by
  obtain ⟨all, same, inv⟩ := side.inv
  have null : taken (frames slot) = false := decide_eq_false (not_not.mpr empty)
  have few := @occupied_lt Usize taken frames slot 1 0 (fun i some => side.even i (of_decide_eq_true some)) even null rfl
  have count := same.length_eq
  have is := side.total
  rw [List.length_append] at count
  rcases inv.allocFrame side.thawed with ⟨full, -⟩ | ⟨s', pa, done, -, inv', -, total', -, thawed⟩
  · omega
  · have positive := inv'.positive
    have managed := (inv'.outstanding.2 pa List.mem_cons_self).2.1
    have some : pa ≠ 0 := by
      rintro rfl
      exact absurd (BitVec.le_def.mp managed) (Nat.not_le.mpr positive)
    refine ⟨s', pa, done, some, thawed, total'.trans is, ⟨_, ?_, inv'⟩,
      forall_update (P := fun i pa => pa ≠ 0 → i.val % 2 = 0) side.even fun _ => even⟩
    exact (same.cons pa).trans ((occupied_fill null (decide_eq_true some)).symm.append_right out)

theorem FrameSide.free (side : FrameSide out total s frames) (full : frames slot ≠ 0) :
    ∃ s', Frame.freeFrame s (frames slot) = .ok s' ∧ FrameSide out total s' (Function.update frames slot 0) := by
  obtain ⟨all, same, inv⟩ := side.inv
  have cleared : (occupied taken frames).Perm (frames slot :: occupied taken (Function.update frames slot 0)) :=
    occupied_clear (decide_eq_true full) rfl
  have moved : all.Perm (frames slot :: (occupied taken (Function.update frames slot 0) ++ out)) :=
    same.trans (cleared.append_right out)
  obtain ⟨s', done, inv', total', -, thawed⟩ := inv.freeFrame side.thawed (moved.mem_iff.mpr List.mem_cons_self)
  refine ⟨s', done, thawed, total'.trans side.total, ⟨_, ?_, inv'⟩,
    forall_update (P := fun i pa => pa ≠ 0 → i.val % 2 = 0) side.even fun some => absurd rfl some⟩
  have erased := moved.erase (frames slot)
  rwa [List.erase_cons_head] at erased

theorem HeapSide.alloc (side : HeapSide lo hi g heaps) (large : 17000 ≤ hi - lo) (odd : slot.val % 2 = 1)
    (empty : (heaps slot).ptr = 0) (small : size ≤ 1024) (power : align.isPowerOfTwo) (low : align ≤ 8) :
    ∃ g' p, g.alloc cfg size align = .ok (g', p) ∧ p ≠ 0 ∧ HeapSide lo hi g' (Function.update heaps slot ⟨p, size, align⟩) := by
  obtain ⟨w, l, is, same, sound, snug⟩ := side.inv
  have null : live (heaps slot) = false := decide_eq_false (not_not.mpr empty)
  -- Only odd slots hold pointers, and this one is empty: at most seven are live.
  have few := @occupied_lt HeapSlot live heaps slot ⟨1, 0, 0⟩ 1 (fun i some => side.odd i (of_decide_eq_true some)) odd null rfl
  have sizes : ∀ a ∈ w.live, a.size ≤ 1024 := by
    intro a mem
    obtain ⟨i, rfl, some⟩ := mem_occupied.mp (same.mem_iff.mp mem)
    exact side.small i (of_decide_eq_true some)
  have enough : (7 + 1) * (2 * 1024 + align + 61) ≤ hi - lo := by omega
  obtain ⟨t, p, took, some⟩ := sound.tryAlloc_room cfg snug (k := 7) (by have := same.length_eq; omega) sizes small power enough
  have booted : 0 < w.heap.heapStart := sound.bounds.1 ▸ sound.low
  have step : Heap.Steps cfg w (.alloc size align)
      ⟨t, ⟨p, size, align⟩ :: w.live, w.freed.filter fun d => d.block.Apart (Heap.blockOf t p)⟩ := by
    refine ⟨power, ?_⟩
    rw [Heap.World.step, took, bind_ok]
    exact if_neg some
  obtain ⟨l', sound'⟩ := Heap.step_sound ⟨l, sound⟩ step
  have snug' := Heap.step_snug ⟨l, sound⟩ snug step
  refine ⟨⟨t, false⟩, p, Heap.Global.alloc_eq side.idle (is ▸ booted) (is ▸ took) some, some, rfl, ⟨_, l', rfl, ?_, sound', snug'⟩,
    forall_update (P := fun _ (a : HeapSlot) => a.ptr ≠ 0 → a.size ≤ 1024) side.small fun _ => small,
    forall_update (P := fun i (a : HeapSlot) => a.ptr ≠ 0 → i.val % 2 = 1) side.odd fun _ => odd⟩
  exact (same.cons _).trans (occupied_fill null (decide_eq_true some)).symm

theorem HeapSide.free (side : HeapSide lo hi g heaps) (full : (heaps slot).ptr ≠ 0) :
    ∃ g', g.dealloc cfg (heaps slot).ptr (heaps slot).size (heaps slot).align = .ok g' ∧
      HeapSide lo hi g' (Function.update heaps slot { heaps slot with ptr := 0 }) := by
  obtain ⟨w, l, is, same, sound, snug⟩ := side.inv
  have cleared : (occupied live heaps).Perm
      (heaps slot :: occupied live (Function.update heaps slot { heaps slot with ptr := 0 })) :=
    occupied_clear (decide_eq_true full) rfl
  have mem : heaps slot ∈ w.live := (same.trans cleared).mem_iff.mpr List.mem_cons_self
  obtain ⟨t, freed, -⟩ := @Heap.deallocRaw_spec cfg lo hi w l (heaps slot) sound mem
  have step : Heap.Steps cfg w (.free (heaps slot))
      ⟨t, w.live.erase (heaps slot), ⟨(heaps slot).ptr, Heap.blockOf w.heap (heaps slot).ptr⟩ :: w.freed⟩ := by
    refine ⟨mem, ?_⟩
    rw [Heap.World.step, freed]
    rfl
  obtain ⟨l', sound'⟩ := Heap.step_sound ⟨l, sound⟩ step
  have snug' := Heap.step_snug ⟨l, sound⟩ snug step
  refine ⟨⟨t, false⟩, Heap.Global.dealloc_eq side.idle (is ▸ freed), rfl, ⟨_, l', rfl, ?_, sound', snug'⟩,
    forall_update (P := fun _ (a : HeapSlot) => a.ptr ≠ 0 → a.size ≤ 1024) side.small fun some => absurd rfl some,
    forall_update (P := fun i (a : HeapSlot) => a.ptr ≠ 0 → i.val % 2 = 1) side.odd fun some => absurd rfl some⟩
  have erased := (same.trans cleared).erase (heaps slot)
  rwa [List.erase_cons_head] at erased

end

/-! ## Rounds -/

structure Busy (out : List Usize) (total lo hi : Nat) (st : Storm) : Prop where
  frames : FrameSide out total st.mem.frames st.frames
  heaps : HeapSide lo hi st.mem.heap st.heaps

def Storm.full (st : Storm) (i : Fin slots) : Bool := taken (st.frames i) || live (st.heaps i)

def flip (f : Fin slots → Bool) (slot : Fin slots) : Fin slots → Bool := Function.update f slot (!f slot)

section
variable {r : U32}

theorem slotOf_parity : (slotOf r).val % 2 = r.toNat % 2 := by
  change r.toNat % 16 % 2 = _
  omega

theorem and_one_eq_zero : r &&& 1 = 0 ↔ r.toNat % 2 = 0 := by
  rw [← BitVec.toNat_inj, BitVec.toNat_and]
  change r.toNat &&& 1 = 0 ↔ _
  rw [Nat.and_one_is_mod]

theorem and_toNat_le {m : U32} : (r &&& m).toNat ≤ m.toNat := by
  rw [BitVec.toNat_and]
  exact Nat.and_le_right

theorem sizeOf_le : sizeOf r ≤ 1024 := by
  have bits : ((r >>> 8) &&& 7).toNat ≤ 7 := and_toNat_le
  rw [sizeOf, Nat.shiftLeft_eq]
  exact Nat.mul_le_mul_left 8 (Nat.pow_le_pow_right (by decide) bits)

theorem alignOf_power : (alignOf r).isPowerOfTwo := ⟨_, (Nat.shiftLeft_eq 1 _).trans (Nat.one_mul _)⟩

theorem alignOf_le : alignOf r ≤ 8 := by
  have bits : ((r >>> 16) &&& 3).toNat ≤ 3 := and_toNat_le
  rw [alignOf, Nat.shiftLeft_eq, Nat.one_mul]
  exact Nat.pow_le_pow_right (by decide) bits

theorem layoutOk_drawn : layoutOk (sizeOf r) (alignOf r) = true := by
  have size := @sizeOf_le r
  have align := @alignOf_le r
  exact (Bool.and_eq_true ..).mpr ⟨decide_eq_true alignOf_power, decide_eq_true (by omega)⟩

end

section
variable (cfg : Config) {out : List Usize} {total lo hi : Nat} {st : Storm} {slot : Fin slots}

theorem full_draw {r : U32} : Storm.full ⟨r, st.mem, st.frames, st.heaps⟩ = st.full := by
  funext i
  rw [Storm.full, Storm.full]

theorem full_frames {pa : Usize} {m : Machine} (none : (st.heaps slot).ptr = 0) (changed : taken pa = !taken (st.frames slot)) :
    Storm.full { st with mem := m, frames := Function.update st.frames slot pa } = flip st.full slot := by
  funext i
  by_cases here : i = slot
  · subst here
    simp [Storm.full, flip, changed, live, none]
  · simp [Storm.full, flip, Function.update_of_ne here]

theorem full_heaps {a : HeapSlot} {m : Machine} (none : st.frames slot = 0) (changed : live a = !live (st.heaps slot)) :
    Storm.full { st with mem := m, heaps := Function.update st.heaps slot a } = flip st.full slot := by
  funext i
  by_cases here : i = slot
  · subst here
    simp [Storm.full, flip, changed, taken, none]
  · simp [Storm.full, flip, Function.update_of_ne here]

theorem Busy.frameRound (busy : Busy out total lo hi st) (room : out.length + 8 ≤ total) (even : slot.val % 2 = 0) :
    ∃ st', st.frameRound slot = .ok st' ∧ Busy out total lo hi st' ∧ st'.rng = st.rng ∧ st'.full = flip st.full slot := by
  have none : (st.heaps slot).ptr = 0 := by_contra fun some => by
    have odd := busy.heaps.odd slot some
    omega
  rw [Storm.frameRound]
  by_cases empty : st.frames slot = 0
  · obtain ⟨s', pa, done, some, side⟩ := busy.frames.alloc room even empty
    rw [if_pos empty, done]
    refine ⟨_, rfl, ⟨side, busy.heaps⟩, rfl, full_frames none ?_⟩
    rw [empty]
    exact decide_eq_true some
  · obtain ⟨s', done, side⟩ := busy.frames.free empty
    rw [if_neg empty, Storm.freeFrame, done]
    refine ⟨_, rfl, ⟨side, busy.heaps⟩, rfl, full_frames none ?_⟩
    rw [show taken (st.frames slot) = true from decide_eq_true empty]
    rfl

theorem Busy.freeHeap (busy : Busy out total lo hi st) (full : (st.heaps slot).ptr ≠ 0) :
    ∃ st', st.freeHeap cfg slot = .ok st' ∧ Busy out total lo hi st' ∧ st'.rng = st.rng ∧ st'.full = flip st.full slot := by
  have none : st.frames slot = 0 := by_contra fun some => by
    have even := busy.frames.even slot some
    have odd := busy.heaps.odd slot full
    omega
  obtain ⟨g', done, side⟩ := busy.heaps.free cfg full
  rw [Storm.freeHeap, done]
  refine ⟨_, rfl, ⟨busy.frames, side⟩, rfl, full_heaps none ?_⟩
  rw [show live (st.heaps slot) = true from decide_eq_true full]
  rfl

theorem Busy.heapRound {r : U32} (busy : Busy out total lo hi st) (large : 17000 ≤ hi - lo) (odd : slot.val % 2 = 1) :
    ∃ st', st.heapRound cfg r slot = .ok st' ∧ Busy out total lo hi st' ∧ st'.rng = st.rng ∧ st'.full = flip st.full slot := by
  have none : st.frames slot = 0 := by_contra fun some => by
    have even := busy.frames.even slot some
    omega
  rw [Storm.heapRound]
  by_cases empty : (st.heaps slot).ptr = 0
  · obtain ⟨g', p, done, some, side⟩ := busy.heaps.alloc cfg large odd empty (@sizeOf_le r) alignOf_power alignOf_le
    rw [if_pos empty]
    dsimp only
    rw [layoutOk_drawn, if_neg (by decide), done]
    refine ⟨_, rfl, ⟨busy.frames, side⟩, rfl, full_heaps none ?_⟩
    rw [show live (st.heaps slot) = false from decide_eq_false (not_not.mpr empty)]
    exact decide_eq_true some
  · rw [if_neg empty]
    exact busy.freeHeap cfg empty

/-- Every round returns and flips the slot it draws. -/
theorem Busy.round (busy : Busy out total lo hi st) (room : out.length + 8 ≤ total) (large : 17000 ≤ hi - lo) :
    ∃ st', st.round cfg = .ok st' ∧ Busy out total lo hi st' ∧ st'.rng = lcgNext st.rng ∧
      st'.full = flip st.full (slotOf (lcgNext st.rng)) := by
  rw [Storm.round]
  generalize lcgNext st.rng = r
  have drawn : Busy out total lo hi { st with rng := r } := ⟨busy.frames, busy.heaps⟩
  have parity := @slotOf_parity r
  by_cases even : r &&& 1 = 0
  · rw [if_pos even]
    rw [and_one_eq_zero] at even
    have clear : (slotOf r).val % 2 = 0 := by omega
    obtain ⟨st', done, kept, rng, full⟩ := @Busy.frameRound out total lo hi _ (slotOf r) drawn room clear
    rw [@full_draw st r] at full
    exact ⟨st', done, kept, rng, full⟩
  · rw [if_neg even]
    rw [and_one_eq_zero] at even
    have set : (slotOf r).val % 2 = 1 := by omega
    obtain ⟨st', done, kept, rng, full⟩ := @Busy.heapRound cfg out total lo hi _ (slotOf r) r drawn large set
    rw [@full_draw st r] at full
    exact ⟨st', done, kept, rng, full⟩

def draws : Nat → U32 → List (Fin slots)
  | 0, _ => []
  | n + 1, x => slotOf (lcgNext x) :: draws n (lcgNext x)

theorem Busy.rounds (busy : Busy out total lo hi st) (room : out.length + 8 ≤ total) (large : 17000 ≤ hi - lo) (n : Nat) :
    ∃ st', st.rounds cfg n = .ok st' ∧ Busy out total lo hi st' ∧ st'.full = (draws n st.rng).foldl flip st.full := by
  induction n generalizing st with
  | zero => exact ⟨st, rfl, busy, rfl⟩
  | succ n ih =>
    obtain ⟨next, done, kept, rng, full⟩ := busy.round cfg room large
    obtain ⟨st', rest, last, after⟩ := ih kept
    rw [Storm.rounds, done]
    refine ⟨st', rest, last, ?_⟩
    rw [after, rng, full, draws, List.foldl_cons]

theorem Busy.clear (busy : Busy out total lo hi st) (slot : Fin slots) :
    ∃ st', st.clear cfg slot = .ok st' ∧ Busy out total lo hi st' ∧ st'.full = Function.update st.full slot false := by
  have flipped {f : Fin slots → Bool} (full : f slot = true) : flip f slot = Function.update f slot false := by
    rw [flip, full]
    rfl
  rw [Storm.clear]
  by_cases frame : st.frames slot = 0
  · rw [if_neg (not_not.mpr frame)]
    by_cases heap : (st.heaps slot).ptr = 0
    · have empty : st.full slot = false := by simp [Storm.full, taken, live, frame, heap]
      refine ⟨st, if_neg (not_not.mpr heap), busy, ?_⟩
      rw [← empty, Function.update_eq_self]
    · obtain ⟨st', done, kept, -, full⟩ := busy.freeHeap cfg heap
      refine ⟨st', (if_pos heap).trans done, kept, full.trans (flipped ?_)⟩
      simp [Storm.full, live, heap]
  · obtain ⟨s', done, side⟩ := busy.frames.free frame
    -- A slot holds a frame or a pointer by its parity, never both.
    have none : (st.heaps slot).ptr = 0 := by_contra fun some => by
      have even := busy.frames.even slot frame
      have odd := busy.heaps.odd slot some
      omega
    rw [if_pos frame, Storm.freeFrame, done]
    refine ⟨_, if_neg (not_not.mpr none), ⟨side, busy.heaps⟩, (full_frames none ?_).trans (flipped ?_)⟩
    · rw [show taken (st.frames slot) = true from decide_eq_true frame]
      rfl
    · exact (Bool.or_eq_true ..).mpr (.inl (decide_eq_true frame))

theorem Busy.clearAll (busy : Busy out total lo hi st) (l : List (Fin slots)) :
    ∃ st', l.foldlM (Storm.clear cfg) st = .ok st' ∧ Busy out total lo hi st' ∧
      ∀ i, i ∈ l ∨ st.full i = false → st'.full i = false := by
  induction l generalizing st with
  | nil => exact ⟨st, rfl, busy, fun i empty => empty.resolve_left List.not_mem_nil⟩
  | cons slot l ih =>
    obtain ⟨next, done, kept, full⟩ := busy.clear cfg slot
    obtain ⟨st', rest, last, after⟩ := ih kept
    rw [List.foldlM_cons, done]
    refine ⟨st', rest, last, fun i empty => after i ?_⟩
    rw [full]
    by_cases here : i = slot
    · exact .inr (here ▸ Function.update_self ..)
    · rw [Function.update_of_ne here]
      exact empty.imp_left fun mem => (List.mem_cons.mp mem).resolve_left here

/-- Allocators on which a storm can start: the frames `out` are outstanding and nothing is live on the heap. -/
def Ready (out : List Usize) (total lo hi : Nat) (m : Machine) : Prop := Busy out total lo hi (Storm.start 0 m)

theorem Busy.ready (busy : Busy out total lo hi st) (empty : ∀ i, st.full i = false) : Ready out total lo hi st.mem := by
  have null (i : Fin slots) : taken (st.frames i) = false ∧ live (st.heaps i) = false := Bool.or_eq_false_iff.mp (empty i)
  obtain ⟨all, same, inv⟩ := busy.frames.inv
  obtain ⟨w, l, is, live', sound, snug⟩ := busy.heaps.inv
  rw [occupied_eq_nil fun i => (null i).1] at same
  rw [occupied_eq_nil fun i => (null i).2] at live'
  refine ⟨⟨busy.frames.thawed, busy.frames.total, ⟨all, same, inv⟩, fun i some => absurd rfl some⟩,
    ⟨busy.heaps.idle, ⟨w, l, is, live', sound, snug⟩, fun i some => absurd rfl some, fun i some => absurd rfl some⟩⟩

section
variable {m : Machine}

theorem Ready.freeCount (ready : Ready out total lo hi m) : Frame.freeCount m.frames = .ok (total - out.length) := by
  obtain ⟨all, same, inv⟩ := ready.frames.inv
  have count : Frame.freeCount m.frames = .ok (m.frames.total - all.length) := inv.freeCount
  have is : m.frames.total = total := ready.frames.total
  rw [count, is, same.length_eq]
  rfl

theorem Ready.checkRecycled (ready : Ready out total lo hi m) : Frame.checkRecycled m.frames = .ok () := by
  obtain ⟨all, -, inv⟩ := ready.frames.inv
  exact inv.checkRecycled

theorem Ready.freeStats (ready : Ready out total lo hi m) :
    Heap.freeStats cfg m.heap.heap = .ok (1, Heap.regionSize m.heap.heap) ∧ Heap.regionSize m.heap.heap = hi - lo := by
  obtain ⟨w, l, is, none, sound, -⟩ := ready.heaps.inv
  have same : w.heap = m.heap.heap := is
  have region : Heap.regionSize w.heap = hi - lo := by
    rw [Heap.regionSize, sound.bounds.1, sound.bounds.2]
  rw [← same]
  exact ⟨Heap.freeStats_idle sound none.eq_nil, region⟩

/-- A storm returns, whatever its seed and however many rounds it has, and leaves the allocators ready. -/
theorem Ready.storm (n : Nat) (tag : String) (rng : U32) (ready : Ready out total lo hi m) (room : out.length + 8 ≤ total)
    (large : 17000 ≤ hi - lo) : ∃ rng' m', Stress.storm cfg n tag rng m = .ok (rng', m') ∧ Ready out total lo hi m' := by
  have start : Busy out total lo hi (Storm.start rng m) := ⟨ready.frames, ready.heaps⟩
  obtain ⟨st, done, busy, -⟩ := start.rounds cfg room large n
  obtain ⟨st', cleared, idle, empty⟩ := busy.clearAll cfg (List.finRange slots)
  have ready' := idle.ready fun i => empty i (.inl (List.mem_finRange i))
  have whole : ¬ ((1 : Nat) ≠ 1 ∨ Heap.regionSize m.heap.heap ≠ Heap.regionSize m.heap.heap) := by simp
  have restored : assertRestored cfg st'.mem (total - out.length) tag = .ok () := by
    rw [assertRestored, ready'.checkRecycled, ready'.freeCount, (ready'.freeStats cfg).1]
    simp [Except.mapError, bind, Except.bind, pure, Except.pure]
  refine ⟨st'.rng, st'.mem, ?_, ready'⟩
  rw [Stress.storm, ready.freeCount, (ready.freeStats cfg).1]
  simp only [Except.mapError, ok_bind]
  rw [if_neg whole, done]
  simp only [ok_bind]
  rw [cleared]
  simp only [ok_bind]
  rw [restored]
  rfl

theorem Ready.run {platform : Platform} {now : Usize × Usize} {t : Timer.State} (ready : Ready out total lo hi m)
    (room : out.length + 8 ≤ total) (large : 17000 ≤ hi - lo) (answers : ∀ deadline, platform.setTimer deadline = true) :
    ∃ m', Stress.run cfg platform now t m = .ok (⟨Timer.period, t.ticks⟩, m') ∧ Ready out total lo hi m' := by
  obtain ⟨rng, m₁, first, ready₁⟩ := ready.storm cfg iters "10ms" lcgSeed room large
  obtain ⟨rng', m₂, second, ready₂⟩ := ready₁.storm cfg iters "1ms" rng room large
  refine ⟨m₂, ?_, ready₂⟩
  rw [Stress.run, first, ok_bind]
  dsimp only
  rw [Timer.setPeriod_eq answers (by decide)]
  simp only [Except.mapError, ok_bind]
  rw [second, ok_bind]
  dsimp only
  rw [Timer.setPeriod_eq answers (by decide)]
  rfl

theorem Ready.of_history {word : Usize → Usize} {start fin : Usize} {s₀ s : Frame.State} {fops : List Frame.Op}
    {heapWord : Nat → Nat} {h₀ : Heap.State} {hops : List Heap.Op} {w : Heap.World}
    (frames : Frame.init word start fin = .ok s₀) (history : Run Frame.Step (s₀, []) fops (s, out)) (thawed : s.frozen = false)
    (heap : Heap.init heapWord lo hi = .ok h₀) (whole : hi % 8 = 0) (high : hi < 2 ^ 64)
    (story : Run (Heap.Steps cfg) (Heap.fresh h₀) hops w) (idle : w.live = []) :
    Ready out s.total lo hi ⟨s, ⟨w.heap, false⟩⟩ := by
  obtain ⟨inv₀, is, -⟩ := Frame.Inv.init frames
  have start' : Frame.Holds fin (s₀, []) := ⟨inv₀, is⟩
  have holds : Frame.Holds fin (s, out) := history.invariant (fun _ _ _ holds step => holds.step step) start'
  obtain ⟨l, sound⟩ := Heap.run_sound heap whole high story
  have noFrames : occupied taken (fun _ : Fin slots => (0 : Usize)) = [] := occupied_eq_nil fun _ => rfl
  have noPointers : occupied live (fun _ : Fin slots => (⟨0, 1, 1⟩ : HeapSlot)) = [] := occupied_eq_nil fun _ => rfl
  have snug : Heap.Snug w := by
    rw [Heap.Snug, idle]
    exact List.forall_mem_nil _
  refine ⟨⟨thawed, rfl, ⟨out, ?_, holds.1⟩, fun _ some => absurd rfl some⟩,
    ⟨rfl, ⟨w, l, rfl, ?_, sound, snug⟩, fun _ some => absurd rfl some, fun _ some => absurd rfl some⟩⟩
  · change out.Perm (occupied taken (fun _ : Fin slots => (0 : Usize)) ++ out)
    rw [noFrames]
    exact .refl _
  · change w.live.Perm (occupied live (fun _ : Fin slots => (⟨0, 1, 1⟩ : HeapSlot)))
    rw [idle, noPointers]

/-- From any history of the two allocators that leaves eight frames and nothing live on the heap, every storm returns,
whatever the seed and the number of rounds: no request fails and no check of the storm does. The frames outstanding
and the free frames are those of the start, the recycled list is whole, and the heap is one free block. -/
theorem storm_restores {word : Usize → Usize} {start fin : Usize} {s₀ s : Frame.State} {fops : List Frame.Op}
    {heapWord : Nat → Nat} {h₀ : Heap.State} {hops : List Heap.Op} {w : Heap.World}
    (frames : Frame.init word start fin = .ok s₀) (history : Run Frame.Step (s₀, []) fops (s, out)) (thawed : s.frozen = false)
    (heap : Heap.init heapWord lo hi = .ok h₀) (whole : hi % 8 = 0) (high : hi < 2 ^ 64)
    (story : Run (Heap.Steps cfg) (Heap.fresh h₀) hops w) (idle : w.live = []) (room : out.length + 8 ≤ s.total)
    (large : 17000 ≤ hi - lo) (n : Nat) (tag : String) (rng : U32) :
    ∃ rng' m', storm cfg n tag rng ⟨s, ⟨w.heap, false⟩⟩ = .ok (rng', m') ∧ (∃ all, Frame.Inv m'.frames all ∧ all.Perm out) ∧
      Frame.freeCount m'.frames = Frame.freeCount s ∧ Frame.checkRecycled m'.frames = .ok () ∧
      Heap.freeStats cfg m'.heap.heap = .ok (1, hi - lo) := by
  have ready := Ready.of_history cfg frames history thawed heap whole high story idle
  obtain ⟨rng', m', done, after⟩ := ready.storm cfg n tag rng room large
  obtain ⟨all, same, inv⟩ := after.frames.inv
  refine ⟨rng', m', done, ⟨all, inv, ?_⟩, after.freeCount.trans ready.freeCount.symm, after.checkRecycled, ?_⟩
  · rwa [occupied_eq_nil fun _ => rfl] at same
  · rw [← (after.freeStats cfg).2]
    exact (after.freeStats cfg).1

end

end

def lowNext (i : Fin slots) : Fin slots := ⟨(i.val * 13 + 15) % slots, Nat.mod_lt _ (by decide)⟩

theorem slotOf_lcgNext {x : U32} : slotOf (lcgNext x) = lowNext (slotOf x) := by
  apply Fin.ext
  change (x * 1664525 + 1013904223).toNat % 16 = (x.toNat % 16 * 13 + 15) % 16
  rw [BitVec.toNat_add, BitVec.toNat_mul]
  change (x.toNat * 1664525 % 2 ^ 32 + 1013904223) % 2 ^ 32 % 16 = _
  omega

def lowDraws : Nat → Fin slots → List (Fin slots)
  | 0, _ => []
  | n + 1, i => lowNext i :: lowDraws n (lowNext i)

theorem draws_eq {n : Nat} {x : U32} : draws n x = lowDraws n (slotOf x) := by
  induction n generalizing x with
  | zero => rfl
  | succ n ih => rw [draws, lowDraws, ih, slotOf_lcgNext]

theorem lowDraws_add {m n : Nat} {i : Fin slots} : lowDraws (m + n) i = lowDraws m i ++ lowDraws n (lowNext^[m] i) := by
  induction m generalizing i with
  | zero => rw [Nat.zero_add, lowDraws, List.nil_append, Function.iterate_zero, id]
  | succ m ih => rw [Nat.add_right_comm, lowDraws, lowDraws, ih, List.cons_append, Function.iterate_succ_apply]

/-- In 32 rounds every slot is drawn twice, and the generator modulo 16 is where it was. -/
theorem count_lowDraws : ∀ i j : Fin slots, (lowDraws 32 i).count j = 2 := by decide +kernel

theorem lowNext_cycle : ∀ i : Fin slots, lowNext^[32] i = i := by decide +kernel

theorem foldl_flip {l : List (Fin slots)} {f : Fin slots → Bool} {j : Fin slots} :
    l.foldl flip f j = if l.count j % 2 = 0 then f j else !f j := by
  induction l generalizing f with
  | nil => rfl
  | cons i l ih =>
    rw [List.foldl_cons, ih, flip]
    by_cases here : j = i
    · subst here
      rw [Function.update_self, List.count_cons_self]
      rcases Nat.mod_two_eq_zero_or_one (l.count j) with even | odd
      · rw [if_pos even, if_neg (by omega)]
      · rw [if_neg (by omega), if_pos (by omega), Bool.not_not]
    · rw [Function.update_of_ne here, List.count_cons_of_ne (Ne.symm here)]

theorem foldl_flip_draws {n : Nat} {x : U32} {f : Fin slots → Bool} : (draws (32 + n) x).foldl flip f = (draws n x).foldl flip f := by
  have cycle : (lowDraws 32 (slotOf x)).foldl flip f = f := by
    funext j
    rw [foldl_flip, count_lowDraws, if_pos (by decide)]
  rw [draws_eq, draws_eq, lowDraws_add, List.foldl_append, cycle, lowNext_cycle]

theorem foldl_flip_cycles {k : Nat} {x : U32} {f : Fin slots → Bool} : (draws (32 * k) x).foldl flip f = f := by
  induction k with
  | zero => rfl
  | succ k ih => rw [Nat.mul_succ, Nat.add_comm, foldl_flip_draws, ih]

section
variable (cfg : Config) {out : List Usize} {total lo hi : Nat} {m : Machine}

/-- Whatever the seed, frames are only ever held in even slots and pointers in odd ones, the slots in use repeat every
32 rounds, and after a multiple of 32 rounds, as after `ITERS`, every slot is empty, so that the final loop frees nothing. -/
theorem rounds_cycle (ready : Ready out total lo hi m) (room : out.length + 8 ≤ total) (large : 17000 ≤ hi - lo) (n : Nat)
    (rng : U32) : ∃ st st', (Storm.start rng m).rounds cfg n = .ok st ∧ (Storm.start rng m).rounds cfg (32 + n) = .ok st' ∧
      (∀ i, st.frames i ≠ 0 → i.val % 2 = 0) ∧ (∀ i, (st.heaps i).ptr ≠ 0 → i.val % 2 = 1) ∧ st'.full = st.full ∧
      (n % 32 = 0 → (∀ i, st.full i = false) ∧ (List.finRange slots).foldlM (Storm.clear cfg) st = .ok st) := by
  have start : Busy out total lo hi (Storm.start rng m) := ⟨ready.frames, ready.heaps⟩
  obtain ⟨st, done, busy, full⟩ := start.rounds cfg room large n
  obtain ⟨st', done', -, full'⟩ := start.rounds cfg room large (32 + n)
  refine ⟨st, st', done, done', busy.frames.even, busy.heaps.odd, ?_, fun whole => ?_⟩
  · rw [full, full', foldl_flip_draws]
  · have empty (i : Fin slots) : st.full i = false := by
      rw [full, ← Nat.div_mul_cancel (Nat.dvd_of_mod_eq_zero whole), Nat.mul_comm, foldl_flip_cycles]
      rfl
    have idle (i : Fin slots) : st.clear cfg i = .ok st := by
      obtain ⟨frame, heap⟩ := Bool.or_eq_false_iff.mp (empty i)
      rw [Storm.clear, if_neg (of_decide_eq_false frame)]
      exact if_neg (of_decide_eq_false heap)
    refine ⟨empty, ?_⟩
    induction List.finRange slots with
    | nil => rfl
    | cons i l ih =>
      rw [List.foldlM_cons, idle]
      exact ih

end

theorem ready_fresh : ∃ s₀ h₀, Frame.init (fun _ => 0) 0x87fe8000 0x87ff0000 = .ok s₀ ∧ s₀.total = 16 ∧ s₀.frozen = false ∧
    Heap.init (fun _ => 0) 0x87fe8000 0x87ff0000 = .ok h₀ := by
  refine ⟨_, _, rfl, by decide, rfl, rfl⟩

theorem storm_restores_fresh : ∃ m rng m', storm .default iters "10ms" lcgSeed m = .ok (rng, m') ∧
    Heap.freeStats .default m'.heap.heap = .ok (1, 32768) := by
  obtain ⟨s₀, h₀, frames, total, thawed, heap⟩ := ready_fresh
  obtain ⟨rng, m', done, -, -, -, stats⟩ := storm_restores .default frames .nil thawed heap rfl (by decide) .nil rfl
    (total ▸ by decide) (by decide) iters "10ms" lcgSeed
  exact ⟨_, rng, m', done, stats⟩

theorem rounds_cycle_fresh : ∃ m st, (Storm.start lcgSeed m).rounds .default iters = .ok st ∧ ∀ i, st.full i = false := by
  obtain ⟨s₀, h₀, frames, total, thawed, heap⟩ := ready_fresh
  have ready := Ready.of_history .default frames .nil thawed heap rfl (by decide) .nil rfl
  obtain ⟨st, -, done, -, -, -, -, whole⟩ := rounds_cycle .default ready (total ▸ by decide) (by decide) iters lcgSeed
  exact ⟨_, st, done, (whole rfl).1⟩

end Whimbrel.Stress

import Whimbrel.Layout
import Whimbrel.Lib.Linked
import Whimbrel.Lib.Transition

/-! The physical frame allocator: `src/frame.rs`.

Virgin frames are handed out by a bump pointer; freed frames are linked through
their first word. Memory is kept by 64-bit words, and the owner of a frame may
write any of its words. -/

set_option autoImplicit false

namespace Whimbrel.Frame

open Checked Linked

structure State where
  /-- The first recycled frame, 0 if there is none. -/
  head : Usize
  bump : Usize
  heapEnd : Usize
  total : Nat
  recycled : Nat
  frozen : Bool
  /-- Memory by 64-bit words. -/
  word : Usize → Usize

def Within (pa a : Usize) : Prop := pa.toNat ≤ a.toNat ∧ a.toNat < pa.toNat + pageSize

instance (pa a : Usize) : Decidable (Within pa a) := inferInstanceAs (Decidable (_ ∧ _))

def zeroFrame (word : Usize → Usize) (pa : Usize) : Usize → Usize := fun a => if Within pa a then 0 else word a

def init (word : Usize → Usize) (start fin : Usize) : Result State := do
  if start.toNat % pageSize ≠ 0 ∨ fin.toNat % pageSize ≠ 0 ∨ fin ≤ start ∨ fin.toNat > ramEnd then throw .heapSymbols
  if (ramEnd - fin.toNat) % pageSize ≠ 0 then throw .heapSymbols
  return { head := 0, bump := fin, heapEnd := fin, total := (ramEnd - fin.toNat) / pageSize, recycled := 0
           frozen := false, word }

def totalFrames (s : State) : Nat := s.total

def freeCount (s : State) : Result Nat := do
  if s.bump.toNat > ramEnd then throw .bumpPastRam
  return (ramEnd - s.bump.toNat) / pageSize + s.recycled

def freeze (s : State) : State := { s with frozen := true }

def takeFrame (s : State) : Result (State × Usize) := do
  if s.head ≠ 0 then
    let next := s.word s.head
    if s.recycled = 0 then throw .recycledUnderflow
    return ({ s with head := next, recycled := s.recycled - 1 }, s.head)
  else
    if s.bump.toNat ≥ ramEnd then throw .outOfFrames
    return ({ s with bump := s.bump + 4096 }, s.bump)

def allocFrame (s : State) : Result (State × Usize) := do
  if s.frozen then throw .framesFrozen
  let (s, pa) ← takeFrame s
  return ({ s with word := zeroFrame s.word pa }, pa)

def freeFrame (s : State) (pa : Usize) : Result State := do
  if s.frozen then throw .framesFrozen
  if pa.toNat % pageSize ≠ 0 ∨ pa < s.heapEnd ∨ pa.toNat ≥ ramEnd then throw .frameUnmanaged
  if pa ≥ s.bump then throw .frameUnmanaged
  if pa = s.head then throw .frameDoubleFree
  return { s with word := Function.update s.word pa s.head, head := pa, recycled := s.recycled + 1 }

/-- The nodes from `pa` on; `left` more may be visited before the list counts as cyclic. -/
def countFrom (word : Usize → Usize) (pa : Usize) (left : Nat) : Result Nat :=
  if pa = 0 then .ok 0 else
    match left with
    | 0 => .error .recycledCyclic
    | left + 1 => (· + 1) <$> countFrom word (word pa) left

def checkRecycled (s : State) : Result Unit := do
  let n ← countFrom s.word s.head (s.recycled + 1)
  if n ≠ s.recycled then throw .recycledCount

/-- `self_test`; it leaves two frames allocated. -/
def selfTest (s : State) : Result State := do
  let (s, a) ← allocFrame s
  let (s, b) ← allocFrame s
  if a = b then throw .frameSelfTest
  if a.toNat % pageSize ≠ 0 ∨ b.toNat % pageSize ≠ 0 then throw .frameSelfTest
  -- the two pages, a word at a time
  if (List.range 512).any (fun i => s.word (a + 8 * BitVec.ofNat 64 i) ≠ 0 ∨ s.word (b + 8 * BitVec.ofNat 64 i) ≠ 0) then
    throw .frameSelfTest
  let s ← freeFrame s a
  let (s, c) ← allocFrame s
  if c ≠ a then throw .frameSelfTest
  checkRecycled s
  if (← freeCount s) ≠ totalFrames s - 2 then throw .frameSelfTest
  return s

section
variable {s : State}

theorem allocFrame_bump (thawed : s.frozen = false) (none : s.head = 0) (room : s.bump.toNat < ramEnd) :
    allocFrame s = .ok ({ s with bump := s.bump + 4096, word := zeroFrame s.word s.bump }, s.bump) := by
  rw [allocFrame, if_neg (by simp [thawed]), takeFrame, if_neg (not_not.mpr none), if_neg (Nat.not_le.mpr room)]
  rfl

theorem allocFrame_recycled (thawed : s.frozen = false) (some : s.head ≠ 0) (counted : s.recycled ≠ 0) :
    allocFrame s = .ok ({ s with head := s.word s.head, recycled := s.recycled - 1, word := zeroFrame s.word s.head }, s.head) := by
  rw [allocFrame, if_neg (by simp [thawed]), takeFrame, if_pos some, if_neg counted]
  rfl

theorem freeFrame_managed {pa : Usize} (thawed : s.frozen = false) (aligned : pa.toNat % 4096 = 0) (lower : s.heapEnd ≤ pa)
    (upper : pa.toNat < ramEnd) (handed : pa < s.bump) (other : pa ≠ s.head) :
    freeFrame s pa = .ok { s with word := Function.update s.word pa s.head, head := pa, recycled := s.recycled + 1 } := by
  have managed : ¬ (pa.toNat % pageSize ≠ 0 ∨ pa < s.heapEnd ∨ pa.toNat ≥ ramEnd) := by
    rw [BitVec.le_def] at lower
    rw [pageSize, BitVec.lt_def]
    omega
  rw [freeFrame, if_neg (by simp [thawed]), if_neg managed, if_neg (BitVec.not_le.mpr handed), if_neg other]
  rfl

/-- From boot the self-test returns, with the first two frames outstanding. -/
theorem selfTest_returns (thawed : s.frozen = false) (none : s.head = 0) (count : s.recycled = 0)
    (virgin : s.bump = s.heapEnd) (aligned : s.bump.toNat % 4096 = 0) (positive : 0 < s.bump.toNat)
    (total : s.bump.toNat + 4096 * s.total = ramEnd) (two : 2 ≤ s.total) :
    ∃ s', selfTest s = .ok s' ∧ s'.frozen = false ∧ s'.head = 0 ∧ s'.bump = s.bump + 0x2000 := by
  have page : (4096 : Usize).toNat = 4096 := rfl
  have next : (s.bump + 4096).toNat = s.bump.toNat + 4096 := by
    rw [ramEnd] at total
    rw [BitVec.toNat_add, page]
    omega
  have after : (s.bump + 4096 + 4096).toNat = s.bump.toNat + 8192 := by
    rw [ramEnd] at total
    rw [BitVec.toNat_add, next, page]
    omega
  have distinct : s.bump ≠ s.bump + 4096 := by
    rw [Ne, ← BitVec.toNat_inj, next]
    omega
  have nonzero : s.bump ≠ 0 := by
    rintro zero
    rw [zero] at positive
    cases positive
  -- the states after each of the four calls
  obtain ⟨s₁, is₁⟩ : ∃ t, t = { s with bump := s.bump + 4096, word := zeroFrame s.word s.bump } := ⟨_, rfl⟩
  obtain ⟨s₂, is₂⟩ : ∃ t, t = { s₁ with bump := s₁.bump + 4096, word := zeroFrame s₁.word s₁.bump } := ⟨_, rfl⟩
  obtain ⟨s₃, is₃⟩ : ∃ t, t = { s₂ with word := Function.update s₂.word s.bump s₂.head, head := s.bump, recycled := s₂.recycled + 1 } :=
    ⟨_, rfl⟩
  obtain ⟨s₄, is₄⟩ : ∃ t, t = { s₃ with head := s₃.word s₃.head, recycled := s₃.recycled - 1, word := zeroFrame s₃.word s₃.head } :=
    ⟨_, rfl⟩
  have first : allocFrame s = .ok (s₁, s.bump) := is₁ ▸ allocFrame_bump thawed none (by omega)
  have bump₁ : s₁.bump = s.bump + 4096 := is₁ ▸ rfl
  have second : allocFrame s₁ = .ok (s₂, s₁.bump) := by
    rw [is₂]
    exact allocFrame_bump (is₁ ▸ thawed) (is₁ ▸ none) (by rw [bump₁]; omega)
  have bump₂ : s₂.bump = s.bump + 4096 + 4096 := by rw [is₂, bump₁]
  have third : freeFrame s₂ s.bump = .ok s₃ := by
    rw [is₃]
    have head : s₂.head = 0 := by rw [is₂, is₁]; exact none
    have lower : s₂.heapEnd = s.bump := by rw [is₂, is₁]; exact virgin.symm
    refine freeFrame_managed (by rw [is₂, is₁]; exact thawed) aligned (lower ▸ BitVec.le_refl _) (by omega) ?_ (head ▸ nonzero)
    rw [BitVec.lt_def, bump₂, after]
    omega
  have head₃ : s₃.head = s.bump := is₃ ▸ rfl
  have fourth : allocFrame s₃ = .ok (s₄, s.bump) := by
    rw [is₄, ← head₃]
    exact allocFrame_recycled (by rw [is₃, is₂, is₁]; exact thawed) (head₃ ▸ nonzero) (by rw [is₃]; simp)
  have head₄ : s₄.head = 0 := by
    rw [is₄, is₃]
    change Function.update _ _ _ _ = _
    rw [Function.update_self, is₂, is₁]
    exact none
  have recycled₄ : s₄.recycled = 0 := by
    rw [is₄, is₃, is₂, is₁]
    exact count
  have bump₄ : s₄.bump = s.bump + 4096 + 4096 := by rw [is₄, is₃, bump₂]
  have zeroed : ¬ (List.range 512).any (fun i => s₂.word (s.bump + 8 * BitVec.ofNat 64 i) ≠ 0 ∨
      s₂.word (s₁.bump + 8 * BitVec.ofNat 64 i) ≠ 0) := by
    simp only [List.any_eq_true, List.mem_range, decide_eq_true_eq, not_exists, not_and, not_or, not_not]
    intro i small
    have offset : (8 * BitVec.ofNat 64 i).toNat = 8 * i := by
      have index : (BitVec.ofNat 64 i).toNat = i := Nat.mod_eq_of_lt (by omega)
      have eight : (8 : Usize).toNat = 8 := rfl
      rw [BitVec.toNat_mul, index, eight]
      exact Nat.mod_eq_of_lt (by omega)
    have inside {pa : Usize} (low : pa.toNat + 4096 < 2 ^ 64) : Within pa (pa + 8 * BitVec.ofNat 64 i) := by
      rw [Within, BitVec.toNat_add, offset, Nat.mod_eq_of_lt (by omega), pageSize]
      omega
    rw [ramEnd] at total
    have word₂ : s₂.word = zeroFrame (zeroFrame s.word s.bump) s₁.bump := by rw [is₂, is₁]
    rw [word₂]
    refine ⟨?_, if_pos (inside (by rw [bump₁]; omega))⟩
    rw [zeroFrame]
    split
    · rfl
    · exact if_pos (inside (by omega))
  have checked : checkRecycled s₄ = .ok () := by
    rw [checkRecycled, head₄, countFrom, if_pos rfl, bind_ok, recycled₄, if_neg (by simp)]
    rfl
  have counted : freeCount s₄ = .ok (totalFrames s₄ - 2) := by
    have total₄ : totalFrames s₄ = s.total := by rw [is₄, is₃, is₂, is₁]; rfl
    have left : (ramEnd - s₄.bump.toNat) / pageSize + s₄.recycled = totalFrames s₄ - 2 := by
      rw [bump₄, after, recycled₄, total₄, pageSize]
      omega
    rw [freeCount, if_neg (by rw [bump₄, after]; omega), left]
    rfl
  refine ⟨s₄, ?_, by rw [is₄, is₃, is₂, is₁]; exact thawed, head₄, by rw [bump₄, BitVec.add_assoc]; rfl⟩
  rw [selfTest, first, bind_ok]
  dsimp only
  rw [second, bind_ok]
  dsimp only
  rw [if_neg (bump₁ ▸ distinct), if_neg (by rw [bump₁, next, pageSize]; omega), if_neg zeroed, third, bind_ok, fourth, bind_ok]
  dsimp only
  rw [if_neg (by simp), checked, bind_ok, counted, bind_ok, if_neg (by simp)]
  rfl

end

def framesFrom (lo : Usize) (n : Nat) : List Usize := (List.range n).map fun i => BitVec.ofNat 64 (lo.toNat + 4096 * i)

section
variable {lo : Usize} {n : Nat}

theorem framesFrom_succ : framesFrom lo (n + 1) = framesFrom lo n ++ [BitVec.ofNat 64 (lo.toNat + 4096 * n)] := by
  rw [framesFrom, List.range_succ, List.map_append]
  rfl

theorem framesFrom_cons : framesFrom lo (n + 1) = lo :: framesFrom (lo + 4096) n := by
  rw [framesFrom, List.range_succ_eq_map, List.map_cons, List.map_map, framesFrom]
  refine congrArg₂ List.cons ?_ ?_
  · simp
  · refine List.map_congr_left fun i _ => ?_
    rw [Function.comp_apply, ← BitVec.toNat_inj, BitVec.toNat_ofNat, BitVec.toNat_ofNat, BitVec.toNat_add]
    change _ = ((lo.toNat + 4096) % 2 ^ 64 + 4096 * i) % 2 ^ 64
    omega

theorem length_framesFrom : (framesFrom lo n).length = n := by
  rw [framesFrom, List.length_map, List.length_range]

theorem mem_framesFrom {pa : Usize} (aligned : lo.toNat % 4096 = 0) (fits : lo.toNat + 4096 * n < 2 ^ 64) :
    pa ∈ framesFrom lo n ↔ pa.toNat % 4096 = 0 ∧ lo.toNat ≤ pa.toNat ∧ pa.toNat < lo.toNat + 4096 * n := by
  simp only [framesFrom, List.mem_map, List.mem_range]
  constructor
  · rintro ⟨i, small, rfl⟩
    have sum : (BitVec.ofNat 64 (lo.toNat + 4096 * i)).toNat = lo.toNat + 4096 * i := Nat.mod_eq_of_lt (by omega)
    rw [sum]
    omega
  · rintro ⟨multiple, lower, upper⟩
    refine ⟨(pa.toNat - lo.toNat) / 4096, by omega, ?_⟩
    rw [← BitVec.toNat_inj, BitVec.toNat_ofNat, Nat.mod_eq_of_lt (by omega)]
    omega

theorem nodup_framesFrom (fits : lo.toNat + 4096 * n < 2 ^ 64) : (framesFrom lo n).Nodup := by
  refine List.Nodup.map_on ?_ List.nodup_range
  intro i left j right same
  rw [List.mem_range] at left right
  rw [← BitVec.toNat_inj, BitVec.toNat_ofNat, BitVec.toNat_ofNat, Nat.mod_eq_of_lt (by omega),
    Nat.mod_eq_of_lt (by omega)] at same
  omega

end

theorem not_within {pa b : Usize} (aligned : pa.toNat % 4096 = 0) (aligned' : b.toNat % 4096 = 0) (distinct : b ≠ pa) :
    ¬ Within pa b := by
  rw [Ne, ← BitVec.toNat_inj] at distinct
  rw [Within, pageSize]
  omega

/-! ## The invariant -/

/-- The allocator while the frames `out` are outstanding. -/
structure Inv (s : State) (out : List Usize) : Prop where
  aligned : s.heapEnd.toNat % 4096 = 0
  positive : 0 < s.heapEnd.toNat
  total : s.heapEnd.toNat + 4096 * s.total = ramEnd
  /-- The frames below the bump are outstanding or on the recycled list, each once. -/
  frames : ∃ used l, used ≤ s.total ∧ s.bump.toNat = s.heapEnd.toNat + 4096 * used ∧ Chain s.word 0 s.head l ∧
    s.recycled = l.length ∧ (out ++ l).Perm (framesFrom s.heapEnd used)

section
variable {s s' : State} {out : List Usize} {pa : Usize}

theorem Inv.mem_frames (inv : Inv s out) {used : Nat} (bound : used ≤ s.total) :
    pa ∈ framesFrom s.heapEnd used ↔
      pa.toNat % 4096 = 0 ∧ s.heapEnd.toNat ≤ pa.toNat ∧ pa.toNat < s.heapEnd.toNat + 4096 * used := by
  have total := inv.total
  rw [ramEnd] at total
  exact mem_framesFrom inv.aligned (by omega)

theorem Inv.nodup_frames (inv : Inv s out) {used : Nat} (bound : used ≤ s.total) : (framesFrom s.heapEnd used).Nodup := by
  have total := inv.total
  rw [ramEnd] at total
  exact nodup_framesFrom (by omega)

theorem Inv.init {word : Usize → Usize} {start fin : Usize} (booted : Frame.init word start fin = .ok s) :
    Inv s [] ∧ s.heapEnd = fin ∧ s.frozen = false := by
  obtain ⟨usable, booted⟩ := check_eq_ok booted
  obtain ⟨-, booted⟩ := check_eq_ok booted
  cases booted
  simp only [not_or, Ne, not_not, BitVec.not_le, Nat.not_lt, pageSize, BitVec.lt_def] at usable
  obtain ⟨-, aligned, above, below⟩ := usable
  refine ⟨⟨aligned, Nat.lt_of_le_of_lt (Nat.zero_le _) above, ?_, 0, [], Nat.zero_le _, rfl, .nil, rfl, .refl _⟩, rfl, rfl⟩
  simp only [ramEnd, pageSize] at below ⊢
  omega

theorem Inv.write (inv : Inv s out) {word : Usize → Usize}
    (kept : ∀ a, (∀ pa ∈ out, ¬ Within pa a) → word a = s.word a) : Inv { s with word } out := by
  obtain ⟨used, l, bound, bump, chain, count, all⟩ := inv.frames
  refine { inv with frames := ⟨used, l, bound, bump, chain.congr fun a mem => kept a fun pa owned => ?_, count, all⟩ }
  have member {b : Usize} (inside : b ∈ out ++ l) := (inv.mem_frames bound).mp (all.mem_iff.mp inside)
  have distinct : a ≠ pa := by
    rintro rfl
    exact List.disjoint_of_nodup_append (all.symm.nodup (inv.nodup_frames bound)) owned mem
  exact not_within (member (List.mem_append_left l owned)).1 (member (List.mem_append_right out mem)).1 distinct

theorem Inv.freeze (inv : Inv s out) : Inv (Frame.freeze s) out := { inv with }

theorem Inv.takeFrame (inv : Inv s out) :
    (out.length = s.total ∧ Frame.takeFrame s = .error .outOfFrames) ∨
    ∃ s' pa, Frame.takeFrame s = .ok (s', pa) ∧ pa ∉ out ∧ Inv s' (pa :: out) ∧ s'.word = s.word ∧ s'.total = s.total ∧
      s'.heapEnd = s.heapEnd ∧ s'.frozen = s.frozen := by
  obtain ⟨used, l, bound, bump, chain, count, all⟩ := inv.frames
  have nodup : (out ++ l).Nodup := all.symm.nodup (inv.nodup_frames bound)
  have total := inv.total
  rw [ramEnd] at total
  rw [Frame.takeFrame]
  cases l with
  | cons a l =>
    obtain ⟨head, nonzero, rest⟩ := Chain.cons_iff.mp chain
    rw [head, if_pos nonzero, count, if_neg (by simp)]
    refine .inr ⟨_, a, rfl, fun owned => ?_, ?_, rfl, rfl, rfl, rfl⟩
    · exact List.disjoint_of_nodup_append nodup owned List.mem_cons_self
    · refine { inv with frames := ⟨used, l, bound, bump, rest, by simp, ?_⟩ }
      exact List.perm_middle.symm.trans all
  | nil =>
    -- nothing is recycled: all frames below the bump are outstanding
    have head : s.head = 0 := chain.1
    have length := all.length_eq
    rw [length_framesFrom, List.append_nil] at length
    rw [if_neg (by simp [head])]
    by_cases full : s.bump.toNat ≥ ramEnd
    · rw [if_pos full]
      rw [ramEnd] at full
      exact .inl ⟨by omega, rfl⟩
    · rw [if_neg full]
      rw [ramEnd] at full
      have next : s.bump = BitVec.ofNat 64 (s.heapEnd.toNat + 4096 * used) := by
        rw [← BitVec.toNat_inj, BitVec.toNat_ofNat, Nat.mod_eq_of_lt (by omega), bump]
      have bumped : (s.bump + 4096).toNat = s.heapEnd.toNat + 4096 * (used + 1) := by
        have page : (4096 : Usize).toNat = 4096 := rfl
        rw [BitVec.toNat_add, bump, page]
        omega
      refine .inr ⟨_, s.bump, rfl, fun owned => ?_, ?_, rfl, rfl, rfl, rfl⟩
      · have below := ((inv.mem_frames bound).mp (all.mem_iff.mp (List.mem_append_left [] owned))).2.2
        omega
      · have room : used + 1 ≤ s.total := by omega
        have more : (s.bump :: out ++ []).Perm (framesFrom s.heapEnd (used + 1)) := by
          rw [List.append_nil] at all ⊢
          rw [framesFrom_succ, ← next]
          exact (all.cons _).trans (List.perm_append_singleton _ _).symm
        exact ⟨inv.aligned, inv.positive, inv.total, used + 1, [], room, bumped, chain, count, more⟩

/-- `alloc_frame` panics when every frame is outstanding, and otherwise returns a cleared frame. -/
theorem Inv.allocFrame (inv : Inv s out) (thawed : s.frozen = false) :
    (out.length = s.total ∧ Frame.allocFrame s = .error .outOfFrames) ∨
    ∃ s' pa, Frame.allocFrame s = .ok (s', pa) ∧ pa ∉ out ∧ Inv s' (pa :: out) ∧ (∀ a, Within pa a → s'.word a = 0) ∧
      s'.total = s.total ∧ s'.heapEnd = s.heapEnd ∧ s'.frozen = false := by
  rw [Frame.allocFrame, thawed, if_neg Bool.false_ne_true]
  rcases inv.takeFrame with ⟨full, failed⟩ | ⟨s', pa, taken, fresh, inv', word, total, heapEnd, frozen⟩
  · rw [failed]
    exact .inl ⟨full, rfl⟩
  · rw [taken, bind_ok]
    have cleared : Inv { s' with word := zeroFrame s'.word pa } (pa :: out) :=
      inv'.write fun a outside => if_neg (outside pa List.mem_cons_self)
    exact .inr ⟨_, pa, rfl, fresh, cleared, fun a inside => if_pos inside, total, heapEnd, frozen.trans thawed⟩

theorem Inv.freeFrame (inv : Inv s out) (thawed : s.frozen = false) (owned : pa ∈ out) :
    ∃ s', Frame.freeFrame s pa = .ok s' ∧ Inv s' (out.erase pa) ∧ s'.total = s.total ∧ s'.heapEnd = s.heapEnd ∧
      s'.frozen = false := by
  obtain ⟨used, l, bound, bump, chain, count, all⟩ := inv.frames
  have nodup : (out ++ l).Nodup := all.symm.nodup (inv.nodup_frames bound)
  have unlisted : pa ∉ l := fun listed => List.disjoint_of_nodup_append nodup owned listed
  obtain ⟨aligned, lower, upper⟩ := (inv.mem_frames bound).mp (all.mem_iff.mp (List.mem_append_left l owned))
  have total := inv.total
  have positive := inv.positive
  have nonzero : pa ≠ 0 := by
    rw [Ne, ← BitVec.toNat_inj]
    change pa.toNat ≠ 0
    omega
  -- The code only compares with the head; an outstanding frame is nowhere on the list.
  have other : ¬ pa = s.head := by
    rintro rfl
    cases l with
    | nil => exact nonzero chain.1
    | cons a l => exact unlisted ((Chain.cons_iff.mp chain).1 ▸ List.mem_cons_self)
  have ran := freeFrame_managed thawed aligned (BitVec.le_def.mpr lower) (by omega) (BitVec.lt_def.mpr (by omega)) other
  have linked : Chain (Function.update s.word pa s.head) 0 pa (pa :: l) := by
    refine Chain.cons_iff.mpr ⟨rfl, nonzero, ?_⟩
    rw [Function.update_self]
    refine chain.congr fun c mem => Function.update_of_ne ?_ _ _
    rintro rfl
    exact unlisted mem
  have moved : (out.erase pa ++ pa :: l).Perm (framesFrom s.heapEnd used) :=
    (List.perm_middle.trans ((List.perm_cons_erase owned).symm.append_right l)).trans all
  exact ⟨_, ran, ⟨inv.aligned, inv.positive, inv.total, used, pa :: l, bound, bump, linked, congrArg (· + 1) count, moved⟩, rfl,
    rfl, thawed⟩

theorem countFrom_chain {word : Usize → Usize} {a : Usize} {l : List Usize} (chain : Chain word 0 a l) {left : Nat}
    (enough : l.length ≤ left) : countFrom word a left = .ok l.length := by
  induction l generalizing a left with
  | nil =>
    unfold countFrom
    rw [if_pos (chain.eq_nil_iff.mp rfl)]
    rfl
  | cons b l ih =>
    obtain ⟨rfl, nonzero, rest⟩ := Chain.cons_iff.mp chain
    cases left with
    | zero => cases enough
    | succ left =>
      rw [countFrom, if_neg nonzero, ih rest (Nat.le_of_succ_le_succ enough)]
      rfl

theorem Inv.checkRecycled (inv : Inv s out) : Frame.checkRecycled s = .ok () := by
  obtain ⟨used, l, bound, bump, chain, count, all⟩ := inv.frames
  rw [Frame.checkRecycled, countFrom_chain chain (by omega), bind_ok, if_neg (by simp [count])]
  rfl

theorem Inv.freeCount (inv : Inv s out) : Frame.freeCount s = .ok (s.total - out.length) := by
  obtain ⟨used, l, bound, bump, chain, count, all⟩ := inv.frames
  have length := all.length_eq
  have total := inv.total
  rw [length_framesFrom, List.length_append] at length
  rw [Frame.freeCount, if_neg (by omega)]
  change Except.ok _ = _
  congr 1
  rw [pageSize]
  omega

theorem Inv.recycled_list (inv : Inv s out) : ∃ l, Chain s.word 0 s.head l ∧ l.Nodup ∧ s.recycled = l.length ∧
    ∀ pa, pa ∈ l ↔ pa.toNat % pageSize = 0 ∧ s.heapEnd ≤ pa ∧ pa < s.bump ∧ pa ∉ out := by
  obtain ⟨used, l, bound, bump, chain, count, all⟩ := inv.frames
  have nodup : (out ++ l).Nodup := all.symm.nodup (inv.nodup_frames bound)
  refine ⟨l, chain, chain.nodup, count, fun pa => ?_⟩
  have below : (pa ∈ out ∨ pa ∈ l) ↔ pa.toNat % pageSize = 0 ∧ s.heapEnd ≤ pa ∧ pa < s.bump := by
    rw [← List.mem_append, all.mem_iff, inv.mem_frames bound, BitVec.le_def, BitVec.lt_def, bump]
    rfl
  constructor
  · intro listed
    obtain ⟨aligned, lower, upper⟩ := below.mp (.inr listed)
    exact ⟨aligned, lower, upper, fun owned => List.disjoint_of_nodup_append nodup owned listed⟩
  · rintro ⟨aligned, lower, upper, unowned⟩
    exact (below.mpr ⟨aligned, lower, upper⟩).resolve_left unowned

theorem Inv.outstanding (inv : Inv s out) : out.Nodup ∧
    ∀ pa ∈ out, pa.toNat % pageSize = 0 ∧ s.heapEnd ≤ pa ∧ pa.toNat < ramEnd := by
  obtain ⟨used, l, bound, bump, chain, count, all⟩ := inv.frames
  have nodup : (out ++ l).Nodup := all.symm.nodup (inv.nodup_frames bound)
  have total := inv.total
  refine ⟨nodup.of_append_left, fun pa owned => ?_⟩
  obtain ⟨aligned, lower, upper⟩ := (inv.mem_frames bound).mp (all.mem_iff.mp (List.mem_append_left l owned))
  exact ⟨aligned, lower, by omega⟩

end

inductive Op where
  | alloc
  | free (pa : Usize)
  /-- The owners write into their frames. -/
  | write
  | freeze
  deriving DecidableEq, Repr

inductive Step : State × List Usize → Op → State × List Usize → Prop where
  | alloc {s s' : State} {out : List Usize} {pa : Usize} :
      allocFrame s = .ok (s', pa) → Step (s, out) .alloc (s', pa :: out)
  | free {s s' : State} {out : List Usize} {pa : Usize} :
      pa ∈ out → freeFrame s pa = .ok s' → Step (s, out) (.free pa) (s', out.erase pa)
  | write {s : State} {out : List Usize} {word : Usize → Usize} :
      (∀ a, (∀ pa ∈ out, ¬ Within pa a) → word a = s.word a) → Step (s, out) .write ({ s with word }, out)
  | freeze {s : State} {out : List Usize} : Step (s, out) .freeze (freeze s, out)

def Holds (fin : Usize) (x : State × List Usize) : Prop := Inv x.1 x.2 ∧ x.1.heapEnd = fin

theorem Holds.step {fin : Usize} {x y : State × List Usize} {op : Op} (holds : Holds fin x) (step : Step x op y) :
    Holds fin y := by
  obtain ⟨inv, heapEnd⟩ := holds
  have thawed {α : Type} {s : State} {r : Result α} {b : α}
      (ran : (if s.frozen then .error .framesFrozen else r) = .ok b) : s.frozen = false := by
    simpa using (check_eq_ok ran).1
  cases step with
  | alloc ran =>
    rcases inv.allocFrame (thawed ran) with ⟨-, failed⟩ | ⟨s', pa, done, -, inv', -, -, same, -⟩
    · rw [failed] at ran
      cases ran
    · rw [done] at ran
      cases ran
      exact ⟨inv', same.trans heapEnd⟩
  | free owned ran =>
    obtain ⟨s', done, inv', -, same, -⟩ := inv.freeFrame (thawed ran) owned
    rw [done] at ran
    cases ran
    exact ⟨inv', same.trans heapEnd⟩
  | write kept => exact ⟨inv.write kept, heapEnd⟩
  | freeze => exact ⟨inv.freeze, heapEnd⟩

/-- After any history of allocations, frees of outstanding frames, writes of the owners and freezes:
the outstanding frames are distinct managed pages; an allocation fails exactly when the allocator is
frozen or all frames are outstanding, and returns a cleared frame otherwise; an outstanding frame can be freed until
the freeze; the recycled list is the frames below the bump that are not outstanding, each once; the
recycled walk passes and the count of free frames is exact. -/
theorem frames_conserved {word : Usize → Usize} {start fin : Usize} {s₀ s : State} {ops : List Op} {out : List Usize}
    (booted : init word start fin = .ok s₀) (run : Transition.Run Step (s₀, []) ops (s, out)) :
    (s.heapEnd = fin ∧ totalFrames s = (ramEnd - fin.toNat) / pageSize) ∧
    (out.Nodup ∧ ∀ pa ∈ out, pa.toNat % pageSize = 0 ∧ fin ≤ pa ∧ pa.toNat < ramEnd) ∧
    ((∃ e, allocFrame s = .error e) ↔ s.frozen ∨ out.length = totalFrames s) ∧
    (∀ s' pa, allocFrame s = .ok (s', pa) → pa ∉ out ∧ ∀ a, Within pa a → s'.word a = 0) ∧
    (s.frozen = false → ∀ pa ∈ out, ∃ s', freeFrame s pa = .ok s') ∧
    (∃ l, Chain s.word 0 s.head l ∧ l.Nodup ∧
      ∀ pa, pa ∈ l ↔ pa.toNat % pageSize = 0 ∧ fin ≤ pa ∧ pa < s.bump ∧ pa ∉ out) ∧
    checkRecycled s = .ok () ∧ freeCount s = .ok (totalFrames s - out.length) := by
  obtain ⟨start, heapEnd, -⟩ := Inv.init booted
  have preserved : ∀ x op y, Holds fin x → Step x op y → Holds fin y := fun x op y holds step => holds.step step
  obtain ⟨inv, rfl⟩ := run.invariant preserved ⟨start, heapEnd⟩
  dsimp only at inv ⊢
  have total : totalFrames s = (ramEnd - s.heapEnd.toNat) / pageSize := by
    have sum := inv.total
    simp only [totalFrames, pageSize]
    omega
  obtain ⟨l, chain, nodup, -, members⟩ := inv.recycled_list
  refine ⟨⟨rfl, total⟩, inv.outstanding, ?_, ?_, fun thawed pa owned => ?_, ⟨l, chain, nodup, members⟩, inv.checkRecycled,
    inv.freeCount⟩
  · cases frozen : s.frozen with
    | true => exact ⟨fun _ => .inl rfl, fun _ => ⟨.framesFrozen, by rw [allocFrame, frozen]; rfl⟩⟩
    | false =>
      rcases inv.allocFrame frozen with ⟨full, failed⟩ | ⟨s', pa, done, fresh, inv', -, same, -⟩
      · exact ⟨fun _ => .inr full, fun _ => ⟨_, failed⟩⟩
      · refine ⟨fun ⟨e, failed⟩ => ?_, fun full => ?_⟩
        · rw [done] at failed
          cases failed
        · -- one more frame is outstanding after the allocation, and that is at most all of them
          obtain ⟨used, l, bound, -, -, -, all⟩ := inv'.frames
          have length := all.length_eq
          rw [length_framesFrom, List.length_append, List.length_cons] at length
          have full := full.resolve_left Bool.false_ne_true
          rw [totalFrames] at full
          omega
  · intro s' pa ran
    have thawed : s.frozen = false := by simpa using (check_eq_ok ran).1
    rcases inv.allocFrame thawed with ⟨-, failed⟩ | ⟨t, p, done, fresh, -, cleared, -⟩
    · rw [failed] at ran
      cases ran
    · rw [done] at ran
      cases ran
      exact ⟨fresh, cleared⟩
  · obtain ⟨s', done, -⟩ := inv.freeFrame thawed owned
    exact ⟨s', done⟩

/-- Two allocations and a free from the boot state of a one-page heap below the last four frames of RAM. -/
theorem frames_conserved_three : ∃ s out, out = [0x87ffc000] ∧ checkRecycled s = .ok () ∧ freeCount s = .ok 3 := by
  have ran : (init (fun _ => 7) 0x87ffb000 0x87ffc000 >>= fun s₀ => allocFrame s₀ >>= fun r => allocFrame r.1 >>= fun t =>
      (fun _ => (r.2, t.2)) <$> freeFrame t.1 t.2) = .ok (0x87ffc000, 0x87ffd000) := by decide +kernel
  obtain ⟨s₀, booted, ran⟩ := bind_eq_ok ran
  obtain ⟨⟨s₁, a⟩, first, ran⟩ := bind_eq_ok ran
  obtain ⟨⟨s₂, b⟩, second, ran⟩ := bind_eq_ok ran
  obtain ⟨s₃, third, same⟩ := map_eq_ok ran
  obtain ⟨rfl, rfl⟩ := Prod.mk.inj same
  have run : Transition.Run Step (s₀, []) [.alloc, .alloc, .free 0x87ffd000] (s₃, [0x87ffc000]) :=
    ((Transition.Run.single (.alloc first)).snoc (.alloc second)).snoc (.free List.mem_cons_self third)
  obtain ⟨⟨-, total⟩, -, -, -, -, -, walked, count⟩ := frames_conserved booted run
  rw [total] at count
  exact ⟨s₃, _, rfl, walked, count⟩

end Whimbrel.Frame

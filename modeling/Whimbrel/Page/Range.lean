import Whimbrel.Page.Space

/-! Checking whole ranges: `assert_range` of `src/page.rs`.

The loop walks one address of every leaf or empty slot it meets. The addresses it
skips share that entry with the one it walked, so they translate in the same way. -/

set_option autoImplicit false

namespace Whimbrel.Page

open Checked

inductive Expect where
  | unmapped
  | mapped (p : Perm) (level : Nat)
  deriving DecidableEq, Repr

def rangeStep (s : Phys) (root fin : Usize) (expect : Expect) (va : Usize) : Result Usize := do
  match ← walk s root va, expect with
  | .mapped pa raw level, .mapped p want =>
    if pa ≠ va ∨ level ≠ want ∨ !flagsMatch raw p then throw .pageRange
    if p.u && pteBit raw 4 == false then throw .pageRange
    if !p.u && pteBit raw 4 then throw .pageRange
    let step := leafBytes level
    if va.toNat % step.toNat ≠ 0 then throw .pageRange
    -- `checked_add`
    if va.toNat + step.toNat ≥ 2 ^ 64 then throw .pageRange
    let next := va + step
    if next > fin then throw .pageRange
    return next
  | .unmapped level _, .unmapped =>
    let step := leafBytes level
    let base := va &&& ~~~(step - 1)
    if base.toNat + step.toNat ≥ 2 ^ 64 then throw .pageRange
    let next := base + step
    return if next > fin then fin else next
  | .mapped .., .unmapped => throw .pageRange
  | .unmapped .., .mapped .. => throw .pageRange

/-! ## Addresses that share an entry -/

def Walk.level : Walk → Nat
  | .unmapped level _ => level
  | .mapped _ _ level => level

/-- What the walk of another address in the same slot ends with. -/
def Walk.move (w : Usize) : Walk → Walk
  | .unmapped level raw => .unmapped level raw
  | .mapped _ raw level => .mapped (leafPa raw w level) raw level

section
variable {s : Phys} {va w : Usize} {level lowest : Nat} {table : Usize} {raw : U64} {r : Walk}

def walkEntry (s : Phys) (va : Usize) (level : Nat) (raw : U64) : Result Walk := do
  if !pteBit raw 0 then return .unmapped level raw
  if pteBit raw 1 || pteBit raw 2 || pteBit raw 3 then
    if pteBit raw 2 && !pteBit raw 1 then throw .walkReserved
    if level = 2 then throw .walkSuperpage
    if level = 1 ∧ ptePpn raw &&& 0x1ff ≠ 0 then throw .walkSuperpage
    return .mapped (leafPa raw va level) raw level
  if pteBit raw 4 || pteBit raw 5 || pteBit raw 6 || pteBit raw 7 then throw .walkNonLeaf
  match level with
  | 0 => throw .walkNonLeaf
  | level + 1 => walkFrom s va level (ptePpn raw <<< 12)

def entryAt (s : Phys) (table : Usize) (va : Usize) (level : Nat) : U64 :=
  s.word (table + 8 * (indexAt va level).setWidth 64)

theorem entryAt_congr (same : indexAt w level = indexAt va level) : entryAt s table w level = entryAt s table va level := by
  unfold entryAt
  rw [same]

theorem walkFrom_eq : walkFrom s va level table = walkEntry s va level (entryAt s table va level) := by
  rw [entryAt, indexAt_setWidth]
  unfold walkFrom walkEntry
  rfl

theorem walkEntry_cases (done : walkEntry s va level raw = .ok r) :
    (r = .unmapped level raw ∧ ∀ w, walkEntry s w level raw = .ok (.unmapped level raw)) ∨
    (r = .mapped (leafPa raw va level) raw level ∧ level ≠ 2 ∧ (level = 1 → ptePpn raw &&& 0x1ff = 0) ∧
      ∀ w, walkEntry s w level raw = .ok (.mapped (leafPa raw w level) raw level)) ∨
    ∃ lower, level = lower + 1 ∧ ∀ w, walkEntry s w level raw = walkFrom s w lower (ptePpn raw <<< 12) := by
  unfold walkEntry at done ⊢
  by_cases invalid : !pteBit raw 0
  · simp only [if_pos invalid] at done ⊢
    cases done
    exact .inl ⟨rfl, fun _ => rfl⟩
  simp only [if_neg invalid] at done ⊢
  by_cases leaf : pteBit raw 1 || pteBit raw 2 || pteBit raw 3
  · simp only [if_pos leaf] at done ⊢
    obtain ⟨readable, done⟩ := check_eq_ok done
    obtain ⟨low, done⟩ := check_eq_ok done
    obtain ⟨aligned, done⟩ := check_eq_ok done
    cases done
    simp only [if_neg readable, if_neg low, if_neg aligned]
    exact .inr (.inl ⟨trivial, low, fun one => by simpa [one] using aligned, fun _ => rfl⟩)
  · simp only [if_neg leaf] at done ⊢
    obtain ⟨clear, done⟩ := check_eq_ok done
    simp only [if_neg clear]
    cases level with
    | zero => cases done
    | succ lower => exact .inr (.inr ⟨lower, rfl, fun _ => rfl⟩)

theorem walkFrom_level_le (walked : walkFrom s va level table = .ok r) : r.level ≤ level := by
  induction level generalizing table with
  | zero =>
    rw [walkFrom_eq] at walked
    rcases walkEntry_cases walked with ⟨rfl, -⟩ | ⟨rfl, -⟩ | ⟨lower, same, -⟩
    · exact Nat.le_refl 0
    · exact Nat.le_refl 0
    · cases same
  | succ level ih =>
    rw [walkFrom_eq] at walked
    rcases walkEntry_cases walked with ⟨rfl, -⟩ | ⟨rfl, -⟩ | ⟨lower, same, down⟩
    · exact Nat.le_refl _
    · exact Nat.le_refl _
    · cases same
      rw [down] at walked
      exact Nat.le_succ_of_le (ih walked)

theorem levelBytes_eq (level : Nat) : levelBytes level = 2 ^ (12 + 9 * level) := by
  simp only [levelBytes, Nat.pow_add, Nat.pow_mul, Nat.reducePow]

theorem indexAt_same (same : va.toNat / levelBytes lowest = w.toNat / levelBytes lowest) (above : lowest ≤ level) :
    indexAt va level = indexAt w level := by
  obtain ⟨d, rfl⟩ := Nat.exists_eq_add_of_le above
  have split : 2 ^ (12 + 9 * (lowest + d)) = levelBytes lowest * 2 ^ (9 * d) := by
    rw [levelBytes_eq, ← Nat.pow_add, Nat.mul_add, Nat.add_assoc]
  rw [← BitVec.toNat_inj, toNat_indexAt, toNat_indexAt, split, ← Nat.div_div_eq_div_mul, ← Nat.div_div_eq_div_mul, same]

/-- The walk of an address decides the walks of all addresses in the slot where it ends. -/
theorem walkFrom_same (walked : walkFrom s va level table = .ok r)
    (same : va.toNat / levelBytes r.level = w.toNat / levelBytes r.level) : walkFrom s w level table = .ok (r.move w) := by
  have index : indexAt w level = indexAt va level := (indexAt_same same (walkFrom_level_le walked)).symm
  have entry : entryAt s table w level = entryAt s table va level := entryAt_congr index
  induction level generalizing table with
  | zero =>
    rw [walkFrom_eq] at walked ⊢
    rw [entry]
    rcases walkEntry_cases walked with ⟨rfl, all⟩ | ⟨rfl, -, -, all⟩ | ⟨lower, empty, -⟩
    · exact all w
    · exact all w
    · cases empty
  | succ level ih =>
    rw [walkFrom_eq] at walked ⊢
    rw [entry]
    rcases walkEntry_cases walked with ⟨rfl, all⟩ | ⟨rfl, -, -, all⟩ | ⟨lower, here, down⟩
    · exact all w
    · exact all w
    · cases here
      rw [down] at walked ⊢
      have index' : indexAt w level = indexAt va level := (indexAt_same same (walkFrom_level_le walked)).symm
      exact ih walked index' (entryAt_congr index')

theorem walk_same {root : Usize} (walked : walk s root va = .ok r)
    (same : va.toNat / levelBytes r.level = w.toNat / levelBytes r.level) (canonical : sv39Canonical w) :
    walk s root w = .ok (r.move w) := by
  obtain ⟨-, walked⟩ := check_eq_ok walked
  rw [walk, if_neg (by simp [canonical])]
  exact walkFrom_same walked same

theorem walkFrom_mapped {pa : Usize} (two : level ≤ 2) (walked : walkFrom s va level table = .ok (.mapped pa raw lowest)) :
    lowest ≤ 1 ∧ pa = leafPa raw va lowest ∧ (ptePpn raw).toNat * 4096 % levelBytes lowest = 0 := by
  -- The walker's check of the low nine bits makes a 2 MiB page a multiple of 2 MiB.
  have aligned {level : Nat} (low : level ≤ 1) (page : level = 1 → ptePpn raw &&& 0x1ff = 0) :
      (ptePpn raw).toNat * 4096 % levelBytes level = 0 := by
    obtain rfl | rfl : level = 0 ∨ level = 1 := by omega
    · rw [levelBytes]
      omega
    · have low := congrArg BitVec.toNat (page rfl)
      rw [BitVec.toNat_and] at low
      change _ &&& (2 ^ 9 - 1) = 0 at low
      rw [Nat.and_two_pow_sub_one_eq_mod] at low
      rw [levelBytes]
      omega
  induction level generalizing table with
  | zero =>
    rw [walkFrom_eq] at walked
    rcases walkEntry_cases walked with ⟨same, -⟩ | ⟨same, -, page, -⟩ | ⟨lower, empty, -⟩
    · cases same
    · cases same
      exact ⟨Nat.zero_le 1, rfl, aligned (Nat.zero_le 1) page⟩
    · cases empty
  | succ level ih =>
    rw [walkFrom_eq] at walked
    rcases walkEntry_cases walked with ⟨same, -⟩ | ⟨same, low, page, -⟩ | ⟨lower, here, down⟩
    · cases same
    · cases same
      have low : level + 1 ≤ 1 := by omega
      exact ⟨low, rfl, aligned low page⟩
    · cases here
      rw [down] at walked
      exact ih (by omega) walked

theorem walk_mapped {root pa : Usize} (walked : walk s root va = .ok (.mapped pa raw lowest)) :
    lowest ≤ 1 ∧ pa = leafPa raw va lowest ∧ (ptePpn raw).toNat * 4096 % levelBytes lowest = 0 :=
  walkFrom_mapped (Nat.le_refl 2) (check_eq_ok walked).2

theorem walk_level_le {root : Usize} (walked : walk s root va = .ok r) : r.level ≤ 2 :=
  walkFrom_level_le (check_eq_ok walked).2

theorem toNat_leafBytes (low : level ≤ 2) : (leafBytes level).toNat = levelBytes level := by
  obtain rfl | rfl | rfl : level = 0 ∨ level = 1 ∨ level = 2 := by omega
  · rfl
  · rfl
  · rfl

theorem toNat_slotBase (low : level ≤ 2) (va : Usize) :
    (va &&& ~~~(leafBytes level - 1)).toNat = va.toNat / levelBytes level * levelBytes level := by
  have bound := va.isLt
  have clear {k : Nat} {m : Usize} (mask : m.toNat = 2 ^ k - 1) : va &&& ~~~m = (va >>> k) <<< k := by
    refine BitVec.eq_of_getLsbD_eq fun i inside => ?_
    have bit : m.getLsbD i = decide (i < k) := by
      rw [BitVec.getLsbD, mask, Nat.testBit_two_pow_sub_one]
    rw [BitVec.getLsbD_and, BitVec.getLsbD_not, bit, BitVec.getLsbD_shiftLeft, BitVec.getLsbD_ushiftRight]
    by_cases below : i < k
    · simp [below]
    · simp [below, inside, Nat.add_sub_cancel' (Nat.not_lt.mp below)]
  have mask : (leafBytes level - 1).toNat = 2 ^ (12 + 9 * level) - 1 := by
    obtain rfl | rfl | rfl : level = 0 ∨ level = 1 ∨ level = 2 := by omega
    · rfl
    · rfl
    · rfl
  have whole := Nat.div_mul_le_self va.toNat (2 ^ (12 + 9 * level))
  rw [clear mask, BitVec.toNat_shiftLeft, BitVec.toNat_ushiftRight, Nat.shiftLeft_eq, Nat.shiftRight_eq_div_pow,
    Nat.mod_eq_of_lt (by omega), levelBytes_eq]

theorem toNat_nextSlot {va : Usize} (low : level ≤ 2)
    (fits : va.toNat / levelBytes level * levelBytes level + levelBytes level < 2 ^ 64) :
    ((va &&& ~~~(leafBytes level - 1)) + leafBytes level).toNat =
      va.toNat / levelBytes level * levelBytes level + levelBytes level := by
  rw [BitVec.toNat_add, toNat_slotBase low, toNat_leafBytes low, Nat.mod_eq_of_lt fits]

end

/-- The address translates as expected. -/
def Expect.Meets (s : Phys) (root va : Usize) : Expect → Prop
  | .unmapped => ∃ level raw, walk s root va = .ok (.unmapped level raw)
  | .mapped p level => ∃ raw, walk s root va = .ok (.mapped va raw level) ∧ flagsMatch raw p

section
variable {s : Phys} {root fin va next : Usize} {expect : Expect}

theorem rangeStep_cases (ran : rangeStep s root fin expect va = .ok next) :
    (∃ p level raw, expect = .mapped p level ∧ walk s root va = .ok (.mapped va raw level) ∧ flagsMatch raw p ∧
      va.toNat % levelBytes level = 0 ∧ next.toNat = va.toNat + levelBytes level ∧ next ≤ fin) ∨
    ∃ level raw, expect = .unmapped ∧ walk s root va = .ok (.unmapped level raw) ∧
      next.toNat = min ((va.toNat / levelBytes level + 1) * levelBytes level) fin.toNat := by
  obtain ⟨r, walked, ran⟩ := bind_eq_ok ran
  cases r with
  | mapped pa raw level =>
    have low : level ≤ 2 := walk_level_le walked
    have size := toNat_leafBytes low
    cases expect with
    | unmapped => cases ran
    | mapped p want =>
      -- The six checks of the source in their order, two of which say nothing that is needed.
      obtain ⟨matched, ran⟩ := check_eq_ok ran
      obtain ⟨-, ran⟩ := check_eq_ok ran
      obtain ⟨-, ran⟩ := check_eq_ok ran
      obtain ⟨aligned, ran⟩ := check_eq_ok ran
      obtain ⟨fits, ran⟩ := check_eq_ok ran
      obtain ⟨inside, ran⟩ := check_eq_ok ran
      cases ran
      simp only [not_or, Ne, not_not, Bool.not_eq_true] at matched
      obtain ⟨rfl, rfl, flags⟩ := matched
      rw [not_not, size] at aligned
      rw [size] at fits
      refine .inl ⟨p, level, raw, rfl, walked, by simpa using flags, aligned, ?_, BitVec.not_lt.mp inside⟩
      rw [BitVec.toNat_add, size]
      omega
  | unmapped level raw =>
    have low : level ≤ 2 := walk_level_le walked
    have size := toNat_leafBytes low
    cases expect with
    | mapped p want => cases ran
    | unmapped =>
      obtain ⟨fits, ran⟩ := check_eq_ok ran
      cases ran
      refine .inr ⟨level, raw, rfl, walked, ?_⟩
      rw [toNat_slotBase low, size] at fits
      have sum : ((va &&& ~~~(leafBytes level - 1)) + leafBytes level).toNat =
          (va.toNat / levelBytes level + 1) * levelBytes level := by
        rw [toNat_nextSlot low (Nat.not_le.mp fits), Nat.add_mul, Nat.one_mul]
      split
      · rename_i past
        rw [gt_iff_lt, BitVec.lt_def, sum] at past
        omega
      · rename_i inside
        rw [gt_iff_lt, BitVec.lt_def, sum] at inside
        rw [sum]
        omega

theorem rangeStep_increases (ran : rangeStep s root fin expect va = .ok next) (below : va < fin) : va < next := by
  rw [BitVec.lt_def] at below ⊢
  rcases rangeStep_cases ran with ⟨p, level, raw, -, -, -, -, sum, -⟩ | ⟨level, raw, -, -, sum⟩
  · have pos := Span.levelBytes_pos level
    omega
  · have slot := Nat.lt_mul_div_succ va.toNat (Span.levelBytes_pos level)
    rw [Nat.mul_comm] at slot
    omega

/-- Every address up to the next one meets the expectation. -/
theorem rangeStep_meets (ran : rangeStep s root fin expect va = .ok next) (low : fin.toNat ≤ 2 ^ 38) {w : Usize}
    (above : va ≤ w) (below : w < next) (inside : w < fin) : expect.Meets s root w := by
  rw [BitVec.le_def] at above
  rw [BitVec.lt_def] at below inside
  have canonical : sv39Canonical w := sv39Canonical_iff.mpr (.inl (Nat.lt_of_lt_of_le inside low))
  rcases rangeStep_cases ran with ⟨p, level, raw, rfl, walked, flags, aligned, sum, -⟩ | ⟨level, raw, rfl, walked, sum⟩
  · have pos := Span.levelBytes_pos level
    obtain ⟨whole, offset⟩ : w.toNat / levelBytes level = va.toNat / levelBytes level ∧
        w.toNat % levelBytes level = w.toNat - va.toNat := by
      have quotient : w.toNat / levelBytes level = va.toNat / levelBytes level := by
        have base := Nat.div_add_mod va.toNat (levelBytes level)
        refine Nat.div_eq_of_lt_le ?_ ?_
        · rw [Nat.mul_comm]
          omega
        · rw [Nat.add_mul, Nat.one_mul, Nat.mul_comm]
          omega
      have base := Nat.div_add_mod va.toNat (levelBytes level)
      have here := Nat.div_add_mod w.toNat (levelBytes level)
      rw [quotient] at here
      exact ⟨quotient, by omega⟩
    have moved := walk_same walked whole.symm canonical
    obtain ⟨small, page, multiple⟩ := walk_mapped walked
    -- the page of the leaf is the slot itself
    have same : leafPa raw w level = w := by
      have here := congrArg BitVec.toNat page
      rw [toNat_leafPa small multiple, aligned] at here
      rw [← BitVec.toNat_inj, toNat_leafPa small multiple, offset]
      omega
    rw [Walk.move, same] at moved
    exact ⟨raw, moved, flags⟩
  · have slot : va.toNat / levelBytes level = w.toNat / levelBytes level := by
      refine Nat.le_antisymm (Nat.div_le_div_right above) (Nat.lt_add_one_iff.mp ?_)
      rw [Nat.div_lt_iff_lt_mul (Span.levelBytes_pos level)]
      omega
    exact ⟨level, raw, walk_same walked slot canonical⟩

end

/-! ## The loop -/

def assertFrom (s : Phys) (root fin : Usize) (expect : Expect) (va : Usize) : Result Unit :=
  if _below : va < fin then
    match _ran : rangeStep s root fin expect va with
    | .error e => .error e
    | .ok next => assertFrom s root fin expect next
  else .ok ()
termination_by fin.toNat - va.toNat
decreasing_by
  have increases := BitVec.lt_def.mp (rangeStep_increases _ran _below)
  have below := BitVec.lt_def.mp _below
  omega

def assertRange (s : Phys) (root start fin : Usize) (expect : Expect) : Result Unit := do
  if start = fin then return
  if start.toNat % frameBytes ≠ 0 ∨ fin.toNat % frameBytes ≠ 0 ∨ start > fin then throw .pageRange
  assertFrom s root fin expect start

section
variable {s : Phys} {root fin va : Usize} {expect : Expect}

theorem assertFrom_eq (below : va < fin) :
    assertFrom s root fin expect va = rangeStep s root fin expect va >>= assertFrom s root fin expect := by
  rw [assertFrom, dif_pos below]
  split <;> rename_i ran <;> rw [ran] <;> rfl

/-- The loop as an induction on the addresses left. -/
theorem assertFrom_meets (passed : assertFrom s root fin expect va = .ok ()) (low : fin.toNat ≤ 2 ^ 38) {w : Usize}
    (above : va ≤ w) (inside : w < fin) : expect.Meets s root w := by
  induction left : fin.toNat - va.toNat using Nat.strongRecOn generalizing va with
  | ind left ih =>
    have below : va < fin := BitVec.lt_def.mpr (Nat.lt_of_le_of_lt (BitVec.le_def.mp above) (BitVec.lt_def.mp inside))
    rw [assertFrom_eq below] at passed
    obtain ⟨next, ran, passed⟩ := bind_eq_ok passed
    have increases := rangeStep_increases ran below
    by_cases here : w < next
    · exact rangeStep_meets ran low above here inside
    · rw [BitVec.lt_def] at increases below
      exact ih (fin.toNat - next.toNat) (by omega) passed (BitVec.not_lt.mp here) rfl

end

/-- If `assert_range` returns, every address of the range translates as expected, also those it did not
walk: a leaf at the level has V, A and D, no G, and R, W, X and U of the permission. Each iteration goes on
with a larger address. -/
theorem assertRange_sound (s : Phys) (root start fin : Usize) (expect : Expect) (low : fin.toNat ≤ 2 ^ 38) :
    (assertRange s root start fin expect = .ok () → ∀ va, start ≤ va → va < fin →
      match expect with
      | .unmapped => ∃ level raw, walk s root va = .ok (.unmapped level raw)
      | .mapped p level => ∃ raw, walk s root va = .ok (.mapped va raw level) ∧ raw.getLsbD 0 ∧ raw.getLsbD 1 = p.r ∧
        raw.getLsbD 2 = p.w ∧ raw.getLsbD 3 = p.x ∧ raw.getLsbD 4 = p.u ∧ ¬ raw.getLsbD 5 ∧ raw.getLsbD 6 ∧
        raw.getLsbD 7) ∧
    ∀ va next, va < fin → rangeStep s root fin expect va = .ok next → va < next := by
  refine ⟨fun passed va above inside => ?_, fun va next below ran => rangeStep_increases ran below⟩
  have meets : expect.Meets s root va := by
    unfold assertRange at passed
    by_cases empty : start = fin
    · rw [empty] at above
      exact absurd inside (BitVec.not_lt.mpr above)
    · rw [if_neg empty] at passed
      exact assertFrom_meets (check_eq_ok passed).2 low above inside
  cases expect with
  | unmapped => exact meets
  | mapped p level =>
    obtain ⟨raw, walked, flags⟩ := meets
    exact ⟨raw, walked, flagsMatch_iff.mp flags⟩

/-- Two tables with one level-1 leaf: the first 2 MiB of RAM, read and write. -/
def megaLeaf : Phys :=
  ⟨fun a => if a = 0x80600010 then encodeLeaf 0x80601000 nonleaf else
    if a = 0x80601000 then encodeLeaf 0x80000000 leafRw else 0, []⟩

/-- One iteration passes over the whole leaf, an address within it included. -/
theorem assertRange_sound_mega :
    assertRange megaLeaf 0x80600000 0x80000000 0x80200000 (.mapped ⟨true, true, false, false⟩ 1) = .ok () ∧
    ∃ raw, walk megaLeaf 0x80600000 0x80123456 = .ok (.mapped 0x80123456 raw 1) ∧ raw.getLsbD 2 = true ∧
      raw.getLsbD 4 = false := by
  have skips : rangeStep megaLeaf 0x80600000 0x80200000 (.mapped ⟨true, true, false, false⟩ 1) 0x80000000 =
      .ok 0x80200000 := by decide +kernel
  have passed : assertRange megaLeaf 0x80600000 0x80000000 0x80200000 (.mapped ⟨true, true, false, false⟩ 1) = .ok () := by
    rw [assertRange, if_neg (by decide), if_neg (by decide)]
    dsimp only
    rw [assertFrom_eq (by decide), skips, bind_ok, assertFrom, dif_neg (by decide)]
  obtain ⟨raw, walked, -, -, writable, -, user, -⟩ :=
    (assertRange_sound megaLeaf _ _ _ _ (by decide)).1 passed 0x80123456 (by decide) (by decide)
  exact ⟨passed, raw, walked, writable, user⟩

end Whimbrel.Page

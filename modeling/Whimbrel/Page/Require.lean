import Whimbrel.Page.Verify

/-! Checks against the live tables: `require_leaf`, `require_identity_rw`,
`require_identity_rw_range` and `activate` of `src/page.rs`. -/

set_option autoImplicit false

namespace Whimbrel.Page

open Checked

/-- A 4 KiB leaf at `va` itself, with these bits and not for U-mode. -/
def requireLeaf (s : Phys) (root va : Usize) (r w x : Bool) : Result Unit := do
  match ← walk s root va with
  | .mapped pa raw level => if pa ≠ va ∨ level ≠ 0 ∨ !flagsMatch raw ⟨r, w, x, false⟩ then throw .pageProbe
  | .unmapped .. => throw .pageProbe

def requireIdentityRw (s : Phys) (root va : Usize) : Result Unit := requireLeaf s root va true true false

def requireFrom (s : Phys) (root fin va : Usize) : Result Unit :=
  if _below : va < fin then do
    requireIdentityRw s root va
    -- `va += PAGE_SIZE`; above this the walk has panicked already
    if _high : 2 ^ 64 ≤ va.toNat + 4096 then throw .overflow
    else requireFrom s root fin (va + 4096)
  else .ok ()
termination_by fin.toNat - va.toNat
decreasing_by
  have below := BitVec.lt_def.mp _below
  have page : (4096 : Usize).toNat = 4096 := rfl
  rw [BitVec.toNat_add, page, Nat.mod_eq_of_lt (Nat.not_le.mp _high)]
  omega

def requireIdentityRwRange (s : Phys) (root start fin : Usize) : Result Unit := do
  if start ≥ fin then return
  requireFrom s root fin (start &&& ~~~(4096 - 1))
  requireIdentityRw s root (fin - 1)

section
variable {s : Phys} {root va w start fin : Usize}

theorem requireLeaf_iff {r w x : Bool} :
    requireLeaf s root va r w x = .ok () ↔ (Expect.mapped ⟨r, w, x, false⟩ 0).Meets s root va := by
  constructor
  · intro passed
    obtain ⟨found, walked, passed⟩ := bind_eq_ok passed
    cases found with
    | unmapped level raw => cases passed
    | mapped pa raw level =>
      obtain ⟨leaf, -⟩ := check_eq_ok passed
      simp only [not_or, Ne, not_not, Bool.not_eq_true] at leaf
      obtain ⟨rfl, rfl, flags⟩ := leaf
      exact ⟨raw, walked, by simpa using flags⟩
  · rintro ⟨raw, walked, flags⟩
    rw [requireLeaf, walked, bind_ok]
    dsimp only
    rw [if_neg (by simp [flags])]
    rfl

theorem requireIdentityRw_iff : requireIdentityRw s root va = .ok () ↔ kernelRw.Meets s root va := requireLeaf_iff

theorem meets_page {p : Perm} (meets : (Expect.mapped p 0).Meets s root va) (page : va.toNat / 4096 = w.toNat / 4096)
    (canonical : sv39Canonical w) : (Expect.mapped p 0).Meets s root w := by
  obtain ⟨raw, walked, flags⟩ := meets
  obtain ⟨-, identity, multiple⟩ := walk_mapped walked
  have moved := walk_same walked page canonical
  have same : leafPa raw w 0 = w := by
    have here := congrArg BitVec.toNat identity
    have size : levelBytes 0 = 4096 := rfl
    rw [toNat_leafPa (Nat.zero_le 1) multiple, size] at here
    rw [← BitVec.toNat_inj, toNat_leafPa (Nat.zero_le 1) multiple, size]
    omega
  rw [Walk.move, same] at moved
  exact ⟨raw, moved, flags⟩

theorem requireFrom_step (below : va < fin) (low : fin.toNat ≤ 2 ^ 38) :
    requireFrom s root fin va = requireIdentityRw s root va >>= fun _ => requireFrom s root fin (va + 4096) := by
  have here := BitVec.lt_def.mp below
  rw [requireFrom, dif_pos below, dif_neg (by omega)]

theorem requireFrom_iff (aligned : va.toNat % 4096 = 0) (low : fin.toNat ≤ 2 ^ 38) :
    requireFrom s root fin va = .ok () ↔ ∀ w, va ≤ w → w < fin → kernelRw.Meets s root w := by
  induction left : fin.toNat - va.toNat using Nat.strongRecOn generalizing va with
  | ind left ih =>
    by_cases below : va < fin
    · have here := BitVec.lt_def.mp below
      have page : (4096 : Usize).toNat = 4096 := rfl
      have next : (va + 4096).toNat = va.toNat + 4096 := by
        rw [BitVec.toNat_add, page, Nat.mod_eq_of_lt (by omega)]
      have rest := @ih (fin.toNat - (va + 4096).toNat) (by omega) (va + 4096) (by omega) rfl
      rw [requireFrom_step below low, seq_ok, requireIdentityRw_iff, rest]
      constructor
      · rintro ⟨first, others⟩ w above inside
        have up := BitVec.le_def.mp above
        have down := BitVec.lt_def.mp inside
        -- A byte of this page has the translation of its first byte; the others are left to the rest.
        by_cases same : w.toNat < va.toNat + 4096
        · exact meets_page first (by omega) (sv39Canonical_iff.mpr (.inl (by omega)))
        · exact others w (BitVec.le_def.mpr (by omega)) inside
      · intro all
        refine ⟨all va (BitVec.le_refl va) below, fun w above inside => all w ?_ inside⟩
        have up := BitVec.le_def.mp above
        exact BitVec.le_def.mpr (by omega)
    · rw [requireFrom, dif_neg below]
      refine ⟨fun _ w above inside => ?_, fun _ => rfl⟩
      have up := BitVec.le_def.mp above
      have down := BitVec.lt_def.mp inside
      exact absurd (BitVec.lt_def.mpr (Nat.lt_of_le_of_lt up down)) below

/-- The range is passed just where every byte of it is identity-mapped for reading and writing by the kernel only. -/
theorem requireIdentityRwRange_iff (low : fin.toNat ≤ 2 ^ 38) :
    requireIdentityRwRange s root start fin = .ok () ↔ ∀ va, start ≤ va → va < fin → kernelRw.Meets s root va := by
  rw [requireIdentityRwRange]
  by_cases empty : start ≥ fin
  · rw [if_pos empty]
    refine ⟨fun _ va above inside => ?_, fun _ => rfl⟩
    exact absurd inside (BitVec.not_lt.mpr (BitVec.le_trans empty above))
  have ordered := BitVec.lt_def.mp (BitVec.not_le.mp empty)
  have base : (start &&& ~~~(4096 - 1)).toNat = start.toNat / 4096 * 4096 := @toNat_slotBase 0 (by decide) start
  have last : (fin - 1).toNat = fin.toNat - 1 := by
    have one : (1 : Usize).toNat = 1 := rfl
    rw [BitVec.toNat_sub_of_le (BitVec.le_def.mpr (by omega)), one]
  rw [if_neg empty, seq_ok, requireFrom_iff (by rw [base]; exact Nat.mul_mod_left ..) low, requireIdentityRw_iff]
  constructor
  · rintro ⟨all, -⟩ va above inside
    have up := BitVec.le_def.mp above
    exact all va (BitVec.le_def.mpr (by omega)) inside
  · intro all
    refine ⟨fun w above inside => ?_, all _ (BitVec.le_def.mpr (by omega)) (BitVec.lt_def.mpr (by omega))⟩
    have up := BitVec.le_def.mp above
    have down := BitVec.lt_def.mp inside
    by_cases inner : start.toNat ≤ w.toNat
    · exact all w (BitVec.le_def.mpr inner) inside
    -- the rest of the first page is translated with its part in the range
    · refine meets_page (all start (BitVec.le_refl start) (BitVec.lt_def.mpr ordered)) (by omega) ?_
      exact sv39Canonical_iff.mpr (.inl (by omega))

end

/-! ## Activation -/

def modeSv39 : Usize := 8
def ppnMask : Usize := (1 <<< 44) - 1

def satpValue (root : Usize) : Usize := (modeSv39 <<< 60) ||| ((root >>> 12) &&& ppnMask)

structure Csrs where
  satp : Usize
  sie : Bool
  deriving DecidableEq, Repr

/-- The instructions around the write of `satp`. -/
inductive Fenced where
  | clearSie
  | writeSatp (v : Usize)
  | sfence
  | restoreSie (was : Bool)
  deriving DecidableEq, Repr

/-- `csrs` with a clear mask changes nothing. -/
def Fenced.run (c : Csrs) : Fenced → Csrs
  | .clearSie => { c with sie := false }
  | .writeSatp v => { c with satp := v }
  | .sfence => c
  | .restoreSie was => { c with sie := c.sie || was }

inductive Stop where
  | panic (why : Panic)
  | beforeInit
  | satpMode (satp : Usize)
  | satpPpn (satp : Usize)
  | satpReadback (wrote read : Usize)
  deriving DecidableEq, Repr

/-- `activate`, with the tables at `root` and the addresses it finds itself, the trap entry and the stack at. -/
def activate (s : Phys) (root pc entry sp : Usize) (c : Csrs) : Except Stop Csrs := do
  if root = 0 then throw .beforeInit
  let satp := satpValue root
  if satp >>> 60 ≠ modeSv39 then throw (.satpMode satp)
  if satp &&& ppnMask ≠ root >>> 12 then throw (.satpPpn satp)
  (requireLeaf s root pc true false true).mapError .panic
  (requireLeaf s root entry true false true).mapError .panic
  (requireLeaf s root sp true true false).mapError .panic
  let c := [Fenced.clearSie, .writeSatp satp, .sfence, .restoreSie c.sie].foldl Fenced.run c
  if c.satp ≠ satp then throw (.satpReadback satp c.satp)
  return c

theorem satpValue_fields {root : Usize} (low : root.toNat < 2 ^ 56) :
    satpValue root >>> 60 = modeSv39 ∧ satpValue root &&& ppnMask = root >>> 12 := by
  have bits : (root >>> 12).toNat < 2 ^ 44 := by
    rw [BitVec.toNat_ushiftRight, Nat.shiftRight_eq_div_pow]
    omega
  have mask : (root >>> 12) &&& ppnMask = root >>> 12 := by
    rw [← BitVec.toNat_inj, BitVec.toNat_and]
    exact (Nat.and_two_pow_sub_one_eq_mod _ 44).trans (Nat.mod_eq_of_lt bits)
  rw [satpValue, mask]
  constructor
  · rw [BitVec.ushiftRight_or_distrib]
    have none : root >>> 12 >>> 60 = 0 := by
      rw [← BitVec.toNat_inj, BitVec.toNat_ushiftRight, Nat.shiftRight_eq_div_pow]
      exact Nat.div_eq_of_lt (Nat.lt_of_lt_of_le bits (by decide))
    rw [none]
    decide
  · have none : (modeSv39 <<< 60) &&& ppnMask = 0 := by decide
    rw [BitVec.and_or_distrib_right, none, mask]
    exact BitVec.zero_or

section
variable {lay : Layout} {s : Phys} {root : Usize}

theorem boot_tables {fast : Bool} {word : Usize → Usize} (booted : boot fast lay word = .ok (s, root)) :
    lay.heapEnd ≤ root.toNat ∧ ∃ ppn need, root = frameAddr ppn ∧ Tables ppn need (buildCalls lay.symbols) s := by
  obtain ⟨s₀, first, starts, frames, enough, head, above⟩ := boot_frames fast lay word
  obtain ⟨s', ppn, ran, root', tables⟩ := lay.build_returns frames enough
  obtain rfl : frameAddr ppn = first := Option.some.inj (root'.symm.trans head)
  rw [starts, init, ran, bind_ok] at booted
  dsimp only at booted
  obtain ⟨-, booted⟩ := seq_ok.mp booted
  obtain ⟨-, booted⟩ := check_eq_ok booted
  obtain ⟨rfl, rfl⟩ := Prod.mk.inj (Except.ok.inj booted)
  exact ⟨above ▸ Nat.le_add_right _ _, ppn, _, rfl, tables⟩

theorem meets_section {fast : Bool} {word : Usize → Usize} (booted : boot fast lay word = .ok (s, root)) {i : Nat} {g : Region}
    {va : Usize} (there : (sectionRegions lay.symbols)[i]? = some g) (holds : g.Holds va.toNat) :
    (Expect.mapped g.perm 0).Meets s root va := by
  obtain ⟨-, ppn, need, rfl, tables⟩ := boot_tables booted
  obtain ⟨low, shown⟩ := passes_section there holds
  exact shown.meets low tables

theorem meets_text {fast : Bool} {word : Usize → Usize} (booted : boot fast lay word = .ok (s, root)) {va : Usize}
    (lower : kernelStart ≤ va.toNat) (upper : va.toNat < lay.rodataStart) : kernelRx.Meets s root va :=
  @meets_section lay s root fast word booted 0 ⟨kernelStart, lay.rodataStart, .rx⟩ va rfl ⟨lower, upper⟩

theorem meets_data {fast : Bool} {word : Usize → Usize} (booted : boot fast lay word = .ok (s, root)) {va : Usize}
    (lower : lay.dataStart ≤ va.toNat) (upper : va.toNat < lay.bssEnd) : kernelRw.Meets s root va :=
  @meets_section lay s root fast word booted 2 ⟨lay.dataStart, lay.bssEnd, .rw⟩ va rfl ⟨lower, upper⟩

theorem meets_stack {fast : Bool} {word : Usize → Usize} (booted : boot fast lay word = .ok (s, root)) {va : Usize}
    (lower : lay.bootStackBottom ≤ va.toNat) (upper : va.toNat < lay.bootStackTop) : kernelRw.Meets s root va :=
  @meets_section lay s root fast word booted 3 ⟨lay.bootStackBottom, lay.bootStackTop, .rw⟩ va rfl ⟨lower, upper⟩

def satpRoot (satp : Usize) : Usize := (satp &&& ppnMask) <<< 12

theorem frameAddr_fields {ppn : Ppn} : (frameAddr ppn).toNat < 2 ^ 56 ∧ (frameAddr ppn >>> 12) <<< 12 = frameAddr ppn := by
  have bound := ppn.isLt
  have value := toNat_frameAddr ppn
  refine ⟨by omega, ?_⟩
  rw [← BitVec.toNat_inj, BitVec.toNat_shiftLeft, BitVec.toNat_ushiftRight, Nat.shiftLeft_eq, Nat.shiftRight_eq_div_pow, value]
  omega

theorem activate_eq {pc entry sp : Usize} (some : root ≠ 0) (low : root.toNat < 2 ^ 56) (text : kernelRx.Meets s root pc)
    (handler : kernelRx.Meets s root entry) (stack : kernelRw.Meets s root sp) (c : Csrs) :
    activate s root pc entry sp c = .ok ⟨satpValue root, c.sie⟩ := by
  obtain ⟨mode, bits⟩ := satpValue_fields low
  rw [activate, if_neg some]
  dsimp only
  rw [if_neg (not_not.mpr mode), if_neg (not_not.mpr bits), requireLeaf_iff.mpr text, requireLeaf_iff.mpr handler,
    requireLeaf_iff.mpr stack]
  generalize satpValue root = satp
  simp only [Except.mapError, ok_bind, List.foldl_cons, List.foldl_nil, Fenced.run, Bool.false_or]
  exact if_neg (not_not_intro rfl)

/-- Once the boot has built and verified its tables, `activate` returns from wherever in the kernel's text and on its
stack it runs: `satp` selects Sv39 at the root that was built, interrupts are enabled as they were, and the text, the
data and the stack are where they were. -/
theorem activate_returns {fast : Bool} {word : Usize → Usize} (booted : boot fast lay word = .ok (s, root)) {pc entry sp : Usize}
    (text : kernelStart ≤ pc.toNat ∧ pc.toNat < lay.rodataStart) (handler : kernelStart ≤ entry.toNat ∧ entry.toNat < lay.rodataStart)
    (stack : lay.bootStackBottom ≤ sp.toNat ∧ sp.toNat < lay.bootStackTop) (c : Csrs) :
    ∃ c', activate s root pc entry sp c = .ok c' ∧ c'.satp >>> 60 = modeSv39 ∧ satpRoot c'.satp = root ∧ c'.sie = c.sie ∧
      (∀ va, kernelStart ≤ va.toNat → va.toNat < lay.rodataStart → kernelRx.Meets s (satpRoot c'.satp) va) ∧
      (∀ va, lay.dataStart ≤ va.toNat → va.toNat < lay.bssEnd → kernelRw.Meets s (satpRoot c'.satp) va) ∧
      ∀ va, lay.bootStackBottom ≤ va.toNat → va.toNat < lay.bootStackTop → kernelRw.Meets s (satpRoot c'.satp) va := by
  obtain ⟨above, ppn, -, is, -⟩ := boot_tables booted
  obtain ⟨low, page⟩ := @frameAddr_fields ppn
  rw [← is] at low page
  have order := lay.order
  have some : root ≠ 0 := by
    rintro rfl
    change lay.heapEnd ≤ 0 at above
    omega
  have done := activate_eq some low (meets_text booted text.1 text.2) (meets_text booted handler.1 handler.2)
    (meets_stack booted stack.1 stack.2) c
  obtain ⟨mode, bits⟩ := satpValue_fields low
  have back : satpRoot (satpValue root) = root := by
    rw [satpRoot, bits, page]
  refine ⟨_, done, mode, back, rfl, ?_, ?_, ?_⟩
  · rw [back]
    exact fun va => meets_text booted
  · rw [back]
    exact fun va => meets_data booted
  · rw [back]
    exact fun va => meets_stack booted

theorem boot_low {lay : Layout} {word : Usize → Usize} (low : lay.heapEnd + 0x2000 < ramL1Start) :
    ∃ s root, boot false lay word = .ok (s, root) := by
  obtain ⟨s, first, booted, frames, enough, head, root⟩ := boot_frames false lay word
  have at_ : first.toNat = lay.heapEnd + 0x2000 := root
  obtain ⟨s', done⟩ := init_low frames enough head (at_ ▸ Nat.le_add_right _ _) (at_ ▸ low)
  exact ⟨s', first, booted.trans done⟩

theorem activate_returns_onePages : ∃ s root c', activate s root 0x80200000 0x80200004 0x80205000 ⟨0, true⟩ = .ok c' ∧
    c'.satp >>> 60 = modeSv39 ∧ c'.sie = true := by
  obtain ⟨s, root, booted⟩ := @boot_low onePages (fun _ => 0) (by decide)
  obtain ⟨c', done, mode, -, sie, -⟩ := @activate_returns onePages s root false _ booted 0x80200000 0x80200004 0x80205000
    (by decide) (by decide) (by decide) ⟨0, true⟩
  exact ⟨s, root, c', done, mode, sie⟩

end

end Whimbrel.Page

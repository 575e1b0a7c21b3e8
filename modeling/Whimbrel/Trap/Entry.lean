import Whimbrel.Trap.Frame

/-! `__trap_entry` and `__trap_return`.

The entry decides twice whether it came from U-mode: on the `sscratch` it swaps
into `sp`, and again on the `sp` it swapped out. Only the first is the kernel's. -/

set_option autoImplicit false

namespace Whimbrel.Trap

open Asm

inductive Csr where
  | sscratch
  | sepc
  | sstatus
  deriving DecidableEq

inductive Symbol where
  /-- `__global_pointer$` -/
  | globalPointer
  | trapHandler
  deriving DecidableEq

def saveFrame : List (Instr Csr Symbol) :=
  [.sd .ra 8 .sp, .sd .gp 24 .sp, .sd .tp 32 .sp, .sd .t0 40 .sp, .sd .t1 48 .sp, .sd .t2 56 .sp,
    .sd .s0 64 .sp, .sd .s1 72 .sp, .sd .a0 80 .sp, .sd .a1 88 .sp, .sd .a2 96 .sp, .sd .a3 104 .sp,
    .sd .a4 112 .sp, .sd .a5 120 .sp, .sd .a6 128 .sp, .sd .a7 136 .sp, .sd .s2 144 .sp,
    .sd .s3 152 .sp, .sd .s4 160 .sp, .sd .s5 168 .sp, .sd .s6 176 .sp, .sd .s7 184 .sp,
    .sd .s8 192 .sp, .sd .s9 200 .sp, .sd .s10 208 .sp, .sd .s11 216 .sp, .sd .t3 224 .sp,
    .sd .t4 232 .sp, .sd .t5 240 .sp, .sd .t6 248 .sp]

/-- Blocks 1 and 2 up to the second decision. -/
def push : List (Instr Csr Symbol) :=
  [.addi .sp .sp (-272)] ++ saveFrame ++ [.addi .t0 .sp 272, .sd .t0 16 .sp, .csrr .t0 .sscratch]

/-- The U path only: user `sp` into `x[2]`, `sscratch` cleared, kernel `gp`. -/
def fromU : List (Instr Csr Symbol) :=
  [.sd .t0 16 .sp, .csrw .sscratch .zero, .la .gp .globalPointer]

def saveCsrs : List (Instr Csr Symbol) :=
  [.csrr .t0 .sepc, .sd .t0 256 .sp, .csrr .t0 .sstatus, .sd .t0 264 .sp, .mv .a0 .sp]

def restoreCsrs : List (Instr Csr Symbol) :=
  [.mv .sp .a0, .ld .t0 256 .sp, .csrw .sepc .t0, .ld .t0 264 .sp, .csrw .sstatus .t0]

def restoreFrame : List (Instr Csr Symbol) :=
  [.ld .ra 8 .sp, .ld .gp 24 .sp, .ld .tp 32 .sp, .ld .t1 48 .sp, .ld .t2 56 .sp, .ld .s0 64 .sp,
    .ld .s1 72 .sp, .ld .a0 80 .sp, .ld .a1 88 .sp, .ld .a2 96 .sp, .ld .a3 104 .sp, .ld .a4 112 .sp,
    .ld .a5 120 .sp, .ld .a6 128 .sp, .ld .a7 136 .sp, .ld .s2 144 .sp, .ld .s3 152 .sp,
    .ld .s4 160 .sp, .ld .s5 168 .sp, .ld .s6 176 .sp, .ld .s7 184 .sp, .ld .s8 192 .sp,
    .ld .s9 200 .sp, .ld .s10 208 .sp, .ld .s11 216 .sp, .ld .t3 224 .sp, .ld .t4 232 .sp,
    .ld .t5 240 .sp, .ld .t6 248 .sp]

/-- `SPP` of the frame into `t0`, then the pop. -/
def popFrame : List (Instr Csr Symbol) :=
  [.ld .t0 264 .sp, .andi .t0 .t0 0x100, .addi .sp .sp 272]

/-- Park user `sp`, restore `t0`, swap. -/
def toU : List (Instr Csr Symbol) :=
  [.ld .t0 (-256) .sp, .csrw .sscratch .t0, .ld .t0 (-232) .sp, .csrrw .sp .sscratch .sp]

def trapReturn : List (Line Csr Symbol) :=
  (restoreCsrs ++ restoreFrame ++ popFrame).map .op ++ .bnez .t0 3 :: (toU.map .op ++
    [.sret, .label 3, .op (.ld .t0 (-232) .sp), .sret])

/-- `__trap_entry`; the call returns into `__trap_return`. -/
def trapEntry : List (Line Csr Symbol) :=
  [.op (.csrrw .sp .sscratch .sp), .bnez .sp 1, .op (.csrrw .sp .sscratch .sp), .label 1] ++
    (push.map .op ++ .beqz .t0 2 :: (fromU.map .op ++ .label 2 :: (saveCsrs.map .op ++
      .call .trapHandler :: trapReturn)))

def saved : List Reg := (List.finRange 32).filter fun r => r ≠ .zero ∧ r ≠ .sp

def restored : List Reg := (List.finRange 32).filter fun r => r ≠ .zero ∧ r ≠ .sp ∧ r ≠ .t0

/-- D-0020: `x[i]` at `8 * i`. -/
def offset (r : Reg) : BitVec 12 := BitVec.ofNat 12 (8 * r)

theorem saveFrame_eq : saveFrame = saves offset .sp saved := rfl

theorem restoreFrame_eq : restoreFrame = restores offset .sp restored := rfl

theorem addr_offset (m : Machine Csr) (r : Reg) : m.addr (offset r) .sp = slot (m.get .sp) r := by
  have same : (offset r).signExtend 64 = BitVec.ofNat 64 (8 * r) := by
    revert r
    decide
  rw [Machine.addr, same, slot]

theorem mem_saved {r : Reg} : r ∈ saved ↔ r ≠ .zero ∧ r ≠ .sp := by
  simp [saved]

theorem mem_restored {r : Reg} : r ∈ restored ↔ r ≠ .zero ∧ r ≠ .sp ∧ r ≠ .t0 := by
  simp [restored]

theorem slots_apart (base : Usize) {i j : Nat} (hi : i < 34) (hj : j < 34) (ne : i ≠ j) :
    Apart (slot base i) (slot base j) :=
  slot_apart base (by omega) (by omega) ne

theorem saved_spread (m : Machine Csr) : Spread m offset .sp saved := by
  have once : saved.Nodup := (List.nodup_finRange 32).filter _
  refine once.imp ?_
  intro r s ne
  rw [addr_offset, addr_offset]
  exact slots_apart _ (by omega) (by omega) (Fin.val_ne_of_ne ne)

/-! ## Entry -/

section
variable {symbols : Symbol → Usize} {trapped s m r : Machine Csr} {top : Usize}

/-- What the handler may rely on, and what it must give back. -/
structure KernelContext (symbols : Symbol → Usize) (trapped : Machine Csr) (top : Usize)
    (m : Machine Csr) : Prop where
  regs : ∀ i : Reg, i ≠ .zero → (frameAt m.mem (top - frameSize)).x i = trapped.get i
  sepc : (frameAt m.mem (top - frameSize)).sepc = trapped.csr .sepc
  sstatus : (frameAt m.mem (top - frameSize)).sstatus = trapped.csr .sstatus
  sscratch : m.csr .sscratch = 0
  sp : m.get .sp = top - frameSize
  a0 : m.get .a0 = top - frameSize
  gp : m.get .gp = symbols .globalPointer

structure Resumed (trapped : Machine Csr) (top : Usize) (m : Machine Csr) : Prop where
  regs : ∀ i : Reg, i ≠ .zero → m.get i = trapped.get i
  sepc : m.csr .sepc = trapped.csr .sepc
  sstatus : m.csr .sstatus = trapped.csr .sstatus
  sscratch : m.csr .sscratch = top

/-- The state at the second decision: everything saved, the trapped `sp` in `t0`. -/
structure Pushed (trapped : Machine Csr) (top : Usize) (s : Machine Csr) : Prop where
  sp : s.get .sp = top - frameSize
  t0 : s.get .t0 = trapped.get .sp
  gp : s.get .gp = trapped.get .gp
  sscratch : s.csr .sscratch = trapped.get .sp
  sepc : s.csr .sepc = trapped.csr .sepc
  sstatus : s.csr .sstatus = trapped.csr .sstatus
  regs : ∀ r ∈ saved, load64 s.mem (slot (top - frameSize) r) = trapped.get r
  x2 : load64 s.mem (slot (top - frameSize) 2) = top

def swapped (trapped : Machine Csr) : Machine Csr :=
  (trapped.setCsr .sscratch (trapped.get .sp)).set .sp (trapped.csr .sscratch)

theorem swapped_get (trapped : Machine Csr) (r : Reg) :
    (swapped trapped).get r = if r = .sp then trapped.csr .sscratch else trapped.get r := by
  simp [swapped, Machine.get_set, Reg.sp]

theorem exec_trapEntry (nonzero : trapped.csr .sscratch ≠ 0) :
    exec symbols none trapEntry trapped = exec symbols none
      (push.map .op ++ .beqz .t0 2 :: (fromU.map .op ++ .label 2 :: (saveCsrs.map .op ++
        .call .trapHandler :: trapReturn))) (swapped trapped) := by
  have sp : (swapped trapped).get .sp ≠ 0 := by
    rw [swapped_get, if_pos rfl]
    exact nonzero
  unfold trapEntry
  simp only [List.cons_append, List.nil_append, exec, Instr.run]
  change exec symbols (if (swapped trapped).get .sp = 0 then none else some 1) _ (swapped trapped) = _
  rw [if_neg sp]
  rfl

theorem add_neg_frameSize (a : Usize) : a + (-272 : BitVec 12).signExtend 64 = a - frameSize := by
  rw [show (-272 : BitVec 12).signExtend 64 = -272 by decide, frameSize]
  bv_omega

theorem stored (kernel : trapped.csr .sscratch = top) : ∃ c : Machine Csr,
    runAll symbols push (swapped trapped) =
      runAll symbols [.addi .t0 .sp 272, .sd .t0 16 .sp, .csrr .t0 .sscratch] c ∧
    (∀ r, c.get r = if r = .sp then top - frameSize else trapped.get r) ∧
    c.csr = (swapped trapped).csr ∧
    ∀ r ∈ saved, load64 c.mem (slot (top - frameSize) r) = trapped.get r := by
  let b := (swapped trapped).set .sp (top - frameSize)
  have get (r : Reg) : b.get r = if r = .sp then top - frameSize else trapped.get r := by
    rw [Machine.get_set, swapped_get]
    by_cases sp : r = .sp <;> simp [sp, Reg.sp]
  have start : runAll symbols [.addi .sp .sp (-272)] (swapped trapped) = b := by
    rw [runAll_cons, Instr.run, swapped_get, if_pos rfl, kernel, add_neg_frameSize]
    rfl
  refine ⟨runAll symbols saveFrame b, ?_, ?_, ?_, ?_⟩
  · rw [push, runAll_append, runAll_append, start]
  · intro r
    rw [saveFrame_eq, saves_get, get]
  · rw [saveFrame_eq, saves_csr]
    exact Machine.set_csr _ _ _
  · intro r member
    have saves := saves_mem symbols (saved_spread b) member
    rw [addr_offset, get .sp, if_pos rfl, get r, if_neg (mem_saved.mp member).2] at saves
    rw [saveFrame_eq]
    exact saves

theorem pushed (kernel : trapped.csr .sscratch = top) :
    Pushed trapped top (runAll symbols push (swapped trapped)) := by
  obtain ⟨c, after, get, csr, regs⟩ := @stored symbols trapped top kernel
  have sp : c.get .sp = top - frameSize := by rw [get, if_pos rfl]
  have full : top - frameSize + 272#64 = top := by
    rw [frameSize]
    bv_omega
  -- The kernel stack top goes into `x[2]` first; the user's `sp` replaces it later.
  have mem : (runAll symbols push (swapped trapped)).mem = store64 c.mem (slot (top - frameSize) 2) top := by
    rw [after]
    simp [runAll, Instr.run, Machine.get_set, Machine.addr, slot, Reg.sp, Reg.t0, sp, full]
  have sscratch : c.csr .sscratch = trapped.get .sp := by
    rw [csr, swapped, Machine.set_csr, Machine.setCsr_csr, Function.update_self]
  have other {s : Csr} (ne : s ≠ .sscratch) : c.csr s = trapped.csr s := by
    rw [csr, swapped, Machine.set_csr, Machine.setCsr_csr, Function.update_of_ne ne]
  exact {
    sp := by
      rw [after]
      simp [runAll, Instr.run, Machine.get_set, Reg.sp, Reg.t0, sp]
    t0 := by
      rw [after]
      simp [runAll, Instr.run, Machine.get_set, Reg.t0, sscratch]
    gp := by
      rw [after]
      simp [runAll, Instr.run, Machine.get_set, Reg.gp, Reg.t0, Reg.sp, get]
    sscratch := by
      rw [after]
      simp [runAll, Instr.run, sscratch]
    sepc := by
      rw [after]
      simp [runAll, Instr.run, other]
    sstatus := by
      rw [after]
      simp [runAll, Instr.run, other]
    regs := fun r member => by
      rw [mem, load64_store64_of_apart _ _ (slots_apart _ (by omega) (by omega) ?_), regs r member]
      exact fun same => (mem_saved.mp member).2 (Fin.ext same)
    x2 := by rw [mem, load64_store64] }

theorem exec_entry (kernel : trapped.csr .sscratch = top) (nonzero : top ≠ 0) :
    ∃ s, Pushed trapped top s ∧ exec symbols none trapEntry trapped = .call .trapHandler trapReturn
      (runAll symbols saveCsrs (if trapped.get .sp = 0 then s else runAll symbols fromU s)) := by
  have done := @pushed symbols trapped top kernel
  refine ⟨_, done, ?_⟩
  rw [exec_trapEntry (kernel ▸ nonzero), exec_block, exec, done.t0]
  split
  · rw [exec_skip _ (by simp), exec_block]
    rfl
  · rw [exec_block, exec, exec_block]
    rfl

theorem saveCsrs_mem (sp : s.get .sp = top - frameSize) :
    (runAll symbols saveCsrs s).mem = store64 (store64 s.mem (slot (top - frameSize) 32) (s.csr .sepc))
      (slot (top - frameSize) 33) (s.csr .sstatus) := by
  simp [saveCsrs, runAll, Instr.run, Machine.get_set, Machine.addr, slot, Reg.sp, Reg.t0, sp]

theorem saveCsrs_reg (sp : s.get .sp = top - frameSize) (i : Reg) :
    (frameAt (runAll symbols saveCsrs s).mem (top - frameSize)).x i = load64 s.mem (slot (top - frameSize) i) := by
  rw [frameAt_x, saveCsrs_mem sp, load64_store64_of_apart _ _ (slots_apart _ (by omega) (by omega) (by omega)),
    load64_store64_of_apart _ _ (slots_apart _ (by omega) (by omega) (by omega))]

theorem Pushed.context (done : Pushed trapped top s) :
    KernelContext symbols trapped top (runAll symbols saveCsrs (runAll symbols fromU s)) := by
  obtain ⟨u, after⟩ : ∃ u, u = runAll symbols fromU s := ⟨_, rfl⟩
  have sp : u.get .sp = top - frameSize := by
    rw [after]
    simp [fromU, runAll, Instr.run, Machine.get_set, Reg.sp, Reg.gp, done.sp]
  -- `fromU` overwrites `x[2]` with the user's `sp`, which the swap left in `sscratch`.
  have mem : u.mem = store64 s.mem (slot (top - frameSize) 2) (trapped.get .sp) := by
    rw [after]
    simp [fromU, runAll, Instr.run, Machine.addr, slot, done.sp, done.t0]
  have csr : u.csr = Function.update s.csr .sscratch 0 := by
    rw [after]
    simp [fromU, runAll, Instr.run, Machine.get, Reg.zero]
  rw [← after]
  exact {
    regs := fun i real => by
      rw [saveCsrs_reg sp, mem]
      by_cases isSp : i = .sp
      · rw [isSp]
        exact load64_store64 _ _ _
      · rw [load64_store64_of_apart _ _ (slots_apart _ (by omega) (by omega) ?_),
          done.regs i (mem_saved.mpr ⟨real, isSp⟩)]
        exact fun same => isSp (Fin.ext same)
    sepc := by
      rw [frameAt_sepc, saveCsrs_mem sp, load64_store64_of_apart _ _ (slots_apart _ (by omega) (by omega) (by omega)),
        load64_store64, csr, Function.update_of_ne (by decide), done.sepc]
    sstatus := by
      rw [frameAt_sstatus, saveCsrs_mem sp, load64_store64, csr, Function.update_of_ne (by decide), done.sstatus]
    sscratch := by simp [saveCsrs, runAll, Instr.run, csr]
    sp := by simp [saveCsrs, runAll, Instr.run, Machine.get_set, Reg.sp, Reg.t0, Reg.a0, sp]
    a0 := by simp [saveCsrs, runAll, Instr.run, Machine.get_set, Reg.sp, Reg.t0, Reg.a0, sp]
    gp := by
      rw [after]
      simp [saveCsrs, fromU, runAll, Instr.run, Machine.get_set, Reg.gp, Reg.t0, Reg.a0] }

/-! ## Return -/

structure Popped (frame : TrapFrame) (base : Usize) (mem : Memory) (m : Machine Csr) : Prop where
  mem_eq : m.mem = mem
  sp : m.get .sp = base + frameSize
  t0 : m.get .t0 = frame.sstatus &&& Sstatus.spp
  regs : ∀ i ∈ restored, m.get i = frame.x i
  sepc : m.csr .sepc = frame.sepc
  sstatus : m.csr .sstatus = frame.sstatus

theorem restoreFrame_get {i : Reg} (member : i ∈ restored) :
    (runAll symbols restoreFrame m).get i = (frameAt m.mem (m.get .sp)).x i := by
  rw [restoreFrame_eq, restores_get (by decide) (by decide) (by decide) member, addr_offset, frameAt_x]

theorem restoreFrame_sp : (runAll symbols restoreFrame m).get .sp = m.get .sp := by
  rw [restoreFrame_eq, restores_other (by decide)]

theorem restoreFrame_frame : (runAll symbols restoreFrame m).mem = m.mem ∧
    (runAll symbols restoreFrame m).csr = m.csr := by
  rw [restoreFrame_eq]
  exact restores_frame m

theorem restoreCsrs_spec {base : Usize} (a0 : r.get .a0 = base) :
    (runAll symbols restoreCsrs r).get .sp = base ∧ (runAll symbols restoreCsrs r).mem = r.mem ∧
    (runAll symbols restoreCsrs r).csr .sepc = (frameAt r.mem base).sepc ∧
    (runAll symbols restoreCsrs r).csr .sstatus = (frameAt r.mem base).sstatus := by
  simp [restoreCsrs, runAll, Instr.run, Machine.get_set, Machine.addr, slot, Reg.sp, Reg.t0, a0]

theorem popFrame_spec {base : Usize} (sp : m.get .sp = base) :
    (runAll symbols popFrame m).get .sp = base + frameSize ∧
    (runAll symbols popFrame m).get .t0 = (frameAt m.mem base).sstatus &&& Sstatus.spp ∧
    (runAll symbols popFrame m).mem = m.mem ∧ (runAll symbols popFrame m).csr = m.csr := by
  simp [popFrame, runAll, Instr.run, Machine.get_set, Machine.addr, slot, Reg.sp, Reg.t0, Sstatus.spp, frameSize, sp]

theorem popFrame_get {i : Reg} (member : i ∈ restored) : (runAll symbols popFrame m).get i = m.get i := by
  have spared := mem_restored.mp member
  simp [popFrame, runAll, Instr.run, Machine.get_set, spared.2.1, spared.2.2]

theorem popped {base : Usize} (a0 : r.get .a0 = base) :
    Popped (frameAt r.mem base) base r.mem (runAll symbols (restoreCsrs ++ restoreFrame ++ popFrame) r) := by
  obtain ⟨sp, mem, sepc, sstatus⟩ := @restoreCsrs_spec symbols r base a0
  rw [runAll_append, runAll_append]
  generalize runAll symbols restoreCsrs r = b at sp mem sepc sstatus ⊢
  have regs (i : Reg) (member : i ∈ restored) := @restoreFrame_get symbols b i member
  have spB := @restoreFrame_sp symbols b
  have frame := @restoreFrame_frame symbols b
  rw [sp] at spB
  rw [mem] at frame
  rw [sp, mem] at regs
  generalize runAll symbols restoreFrame b = c at regs spB frame ⊢
  obtain ⟨spC, t0, memC, csr⟩ := @popFrame_spec symbols c base spB
  exact {
    mem_eq := memC.trans frame.1
    sp := spC
    t0 := by rw [t0, frame.1]
    regs := fun i member => (popFrame_get member).trans (regs i member)
    sepc := by rw [csr, frame.2, sepc]
    sstatus := by rw [csr, frame.2, sstatus] }

theorem Popped.x2 {base : Usize} (done : Popped (frameAt r.mem base) base r.mem m) :
    load64 m.mem (m.addr (-256) .sp) = (frameAt r.mem base).x .sp := by
  have back : base + frameSize + -256#64 = slot base (Reg.sp : Nat) := by
    rw [frameSize, slot, show ((Reg.sp : Reg) : Nat) = 2 from rfl]
    bv_omega
  rw [Machine.addr, show (-256 : BitVec 12).signExtend 64 = -256#64 by decide, done.sp, done.mem_eq, frameAt_x, back]

theorem Popped.x5 {base : Usize} (done : Popped (frameAt r.mem base) base r.mem m) :
    load64 m.mem (m.addr (-232) .sp) = (frameAt r.mem base).x .t0 := by
  have back : base + frameSize + -232#64 = slot base (Reg.t0 : Nat) := by
    rw [frameSize, slot, show ((Reg.t0 : Reg) : Nat) = 5 from rfl]
    bv_omega
  rw [Machine.addr, show (-232 : BitVec 12).signExtend 64 = -232#64 by decide, done.sp, done.mem_eq, frameAt_x, back]

theorem exec_trapReturn {base : Usize} (a0 : r.get .a0 = base) (user : fromUser (frameAt r.mem base)) :
    ∃ e, exec symbols none trapReturn r = .sret e ∧
      (∀ i : Reg, i ≠ .zero → e.get i = (frameAt r.mem base).x i) ∧
      e.csr .sepc = (frameAt r.mem base).sepc ∧ e.csr .sstatus = (frameAt r.mem base).sstatus ∧
      e.csr .sscratch = base + frameSize ∧ e.mem = r.mem := by
  obtain ⟨p, pops⟩ : ∃ p, p = runAll symbols (restoreCsrs ++ restoreFrame ++ popFrame) r := ⟨_, rfl⟩
  have done : Popped (frameAt r.mem base) base r.mem p := by
    rw [pops]
    exact popped a0
  have fromU : p.get .t0 = 0 := by
    rw [done.t0]
    exact of_decide_eq_true user
  have x2 := done.x2
  have x5 := done.x5
  refine ⟨runAll symbols toU p, ?_, ?_, ?_, ?_, ?_, ?_⟩
  · rw [trapReturn, exec_block, ← pops, exec, if_pos fromU, exec_block]
    rfl
  · intro i real
    -- `sp` and `t0` are in use to the end and come back last.
    by_cases sp : i = .sp
    · rw [sp, ← x2]
      simp [toU, runAll, Instr.run, Machine.get_set, Machine.addr, Reg.sp, Reg.t0]
    · by_cases t0 : i = .t0
      · rw [t0, ← x5]
        simp [toU, runAll, Instr.run, Machine.get_set, Machine.addr, Reg.sp, Reg.t0]
      · rw [← done.regs i (mem_restored.mpr ⟨real, sp, t0⟩)]
        simp [toU, runAll, Instr.run, Machine.get_set, sp, t0]
  · simp [toU, runAll, Instr.run, done.sepc]
  · simp [toU, runAll, Instr.run, done.sstatus]
  · simp [toU, runAll, Instr.run, Machine.get_set, Reg.sp, Reg.t0, done.sp]
  · simp [toU, runAll, Instr.run, done.mem_eq]

/-- The entry calls the handler in the kernel's context, and if the handler gives
the frame back as it was, the trapped context is resumed. -/
def EstablishesKernel (symbols : Symbol → Usize) (trapped : Machine Csr) (top : Usize) : Prop :=
  ∃ rest m, exec symbols none trapEntry trapped = .call .trapHandler rest m ∧
    KernelContext symbols trapped top m ∧
    ∀ returned, returned.get .a0 = top - frameSize →
      frameAt returned.mem (top - frameSize) = frameAt m.mem (top - frameSize) →
      ∃ e, exec symbols none rest returned = .sret e ∧ Resumed trapped top e

theorem KernelContext.resumes (context : KernelContext symbols trapped top m)
    (user : trapped.csr .sstatus &&& Sstatus.spp = 0) (a0 : r.get .a0 = top - frameSize)
    (kept : frameAt r.mem (top - frameSize) = frameAt m.mem (top - frameSize)) :
    ∃ e, exec symbols none trapReturn r = .sret e ∧ Resumed trapped top e := by
  have fromU : fromUser (frameAt r.mem (top - frameSize)) := by
    rw [kept, fromUser, context.sstatus]
    exact decide_eq_true user
  obtain ⟨e, runs, regs, sepc, sstatus, sscratch, -⟩ := @exec_trapReturn symbols r _ a0 fromU
  rw [kept] at regs sepc sstatus
  refine ⟨e, runs, ?_, sepc.trans context.sepc, sstatus.trans context.sstatus, ?_⟩
  · intro i real
    rw [regs i real, context.regs i real]
  · rw [sscratch, BitVec.sub_add_cancel]

/-- With a zero `sp` the second decision takes the S path: `x[2]` stays the
kernel stack top and `gp` stays the user's. -/
theorem exec_entry_zero (kernel : trapped.csr .sscratch = top) (nonzero : top ≠ 0) (zero : trapped.get .sp = 0) :
    ∃ m, exec symbols none trapEntry trapped = .call .trapHandler trapReturn m ∧
      (frameAt m.mem (top - frameSize)).x .sp = top ∧ m.get .gp = trapped.get .gp := by
  obtain ⟨s, done, runs⟩ := @exec_entry symbols trapped top kernel nonzero
  rw [if_pos zero] at runs
  refine ⟨_, runs, ?_, ?_⟩
  · rw [saveCsrs_reg done.sp]
    exact done.x2
  · rw [← done.gp]
    simp [saveCsrs, runAll, Instr.run, Machine.get_set, Reg.gp, Reg.t0, Reg.a0]

theorem not_establishesKernel (kernel : trapped.csr .sscratch = top) (nonzero : top ≠ 0)
    (zero : trapped.get .sp = 0) : ¬ EstablishesKernel symbols trapped top := by
  rintro ⟨rest, m, called, context, -⟩
  obtain ⟨m', runs, x2, -⟩ := @exec_entry_zero symbols trapped top kernel nonzero zero
  rw [runs, Exit.call.injEq] at called
  have saved := context.regs .sp (by decide)
  rw [← called.2.2, x2, zero] at saved
  exact nonzero saved

/-- The kernel context is established for every register file with a nonzero `sp`, and for no other. -/
theorem establishesKernel_iff (kernel : trapped.csr .sscratch = top) (nonzero : top ≠ 0)
    (user : trapped.csr .sstatus &&& Sstatus.spp = 0) :
    EstablishesKernel symbols trapped top ↔ trapped.get .sp ≠ 0 := by
  constructor
  · intro establishes zero
    exact not_establishesKernel kernel nonzero zero establishes
  · intro real
    obtain ⟨s, done, runs⟩ := @exec_entry symbols trapped top kernel nonzero
    rw [if_neg real] at runs
    exact ⟨_, _, runs, done.context, fun r a0 kept => done.context.resumes user a0 kept⟩

end

def userContext (sp : Usize) : Machine Csr where
  x r := if r = .sp then sp else if r = .gp then 0xdead else 0
  csr
    | .sscratch => 0x80210000
    | .sepc => 0x80400000
    | .sstatus => Sstatus.spie
  mem _ := 0

def kernelSymbols : Symbol → Usize
  | .globalPointer => 0x80208800
  | .trapHandler => 0x80200100

theorem establishesKernel_ordinary : EstablishesKernel kernelSymbols (userContext 0x80500000) 0x80210000 :=
  (establishesKernel_iff rfl (by decide) (by decide)).mpr (by decide)

/-- The handler of a task that trapped with `sp = 0` runs on the task's `gp`. -/
theorem zero_sp_keeps_user_gp : ¬ EstablishesKernel kernelSymbols (userContext 0) 0x80210000 ∧
    ∃ m, exec kernelSymbols none trapEntry (userContext 0) = .call .trapHandler trapReturn m ∧
      (frameAt m.mem (0x80210000 - frameSize)).x .sp = 0x80210000 ∧ m.get .gp = 0xdead := by
  have kernel : (userContext 0).csr .sscratch = 0x80210000 := rfl
  exact ⟨not_establishesKernel kernel (by decide) (by decide), exec_entry_zero kernel (by decide) (by decide)⟩

end Whimbrel.Trap

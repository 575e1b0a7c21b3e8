import Mathlib.Logic.Relation
import Whimbrel.Trap.Entry

/-! Traps of the kernel itself.

In S-mode `sscratch` is zero, so the entry undoes its swap and the frame goes
below the interrupted `sp`. The return leaves `sscratch` alone, and kernel code
that spares the frames above it may be interrupted again, to any depth. -/

set_option autoImplicit false

namespace Whimbrel.Trap

open Asm

section
variable {symbols : Symbol → Usize} {trapped s m r : Machine Csr} {base : Usize}

structure Restored (frame : TrapFrame) (base : Usize) (r e : Machine Csr) : Prop where
  regs : ∀ i : Reg, i ≠ .zero → i ≠ .sp → e.get i = frame.x i
  sepc : e.csr .sepc = frame.sepc
  sstatus : e.csr .sstatus = frame.sstatus
  user : frame.sstatus &&& Sstatus.spp = 0 → e.get .sp = frame.x .sp ∧ e.csr .sscratch = base + frameSize
  kernel : frame.sstatus &&& Sstatus.spp ≠ 0 → e.get .sp = base + frameSize ∧ e.csr .sscratch = r.csr .sscratch
  mem : e.mem = r.mem

theorem pops_sscratch :
    (runAll symbols (restoreCsrs ++ restoreFrame ++ popFrame) r).csr .sscratch = r.csr .sscratch := by
  rw [runAll_append, runAll_append]
  have first : (runAll symbols restoreCsrs r).csr .sscratch = r.csr .sscratch := by
    simp [restoreCsrs, runAll, Instr.run]
  have last (c : Machine Csr) : (runAll symbols popFrame c).csr = c.csr := by
    simp [popFrame, runAll, Instr.run]
  rw [last, restoreFrame_frame.2, first]

theorem exec_trapReturn_kernel (a0 : r.get .a0 = base) (kernel : (frameAt r.mem base).sstatus &&& Sstatus.spp ≠ 0) :
    ∃ e, exec symbols none trapReturn r = .sret e ∧ Restored (frameAt r.mem base) base r e := by
  obtain ⟨p, pops⟩ : ∃ p, p = runAll symbols (restoreCsrs ++ restoreFrame ++ popFrame) r := ⟨_, rfl⟩
  have done : Popped (frameAt r.mem base) base r.mem p := by
    rw [pops]
    exact popped a0
  have toS : p.get .t0 ≠ 0 := by
    rw [done.t0]
    exact kernel
  -- `t0` held `SPP` for the branch; its own value still lies below the popped `sp`
  refine ⟨p.set .t0 (load64 p.mem (p.addr (-232) .sp)), ?_, ?_⟩
  · rw [trapReturn, exec_block, ← pops, exec, if_neg toS]
    exact @exec_skip _ _ _ symbols 3 (toU.map .op ++ [.sret]) [.op (.ld .t0 (-232) .sp), .sret] p (by simp)
  · exact {
      regs := fun i real spared => by
        rw [Machine.get_set]
        by_cases t0 : i = .t0
        · rw [if_pos ⟨t0, by decide⟩, t0, done.x5]
        · rw [if_neg fun same => t0 same.1, done.regs i (mem_restored.mpr ⟨real, spared, t0⟩)]
      sepc := by rw [Machine.set_csr, done.sepc]
      sstatus := by rw [Machine.set_csr, done.sstatus]
      user := fun user => absurd user kernel
      kernel := fun _ => by
        rw [Machine.get_set, if_neg (by decide), done.sp, Machine.set_csr, pops, pops_sscratch]
        exact ⟨rfl, rfl⟩
      mem := by rw [Machine.set_mem, done.mem_eq] }

theorem exec_trapReturn_restores (a0 : r.get .a0 = base) :
    ∃ e, exec symbols none trapReturn r = .sret e ∧ Restored (frameAt r.mem base) base r e := by
  by_cases user : (frameAt r.mem base).sstatus &&& Sstatus.spp = 0
  · obtain ⟨e, runs, regs, sepc, sstatus, sscratch, mem⟩ := @exec_trapReturn symbols r base a0 (decide_eq_true user)
    exact ⟨e, runs, {
      regs := fun i real _ => regs i real
      sepc := sepc
      sstatus := sstatus
      user := fun _ => ⟨regs .sp (by decide), sscratch⟩
      kernel := fun kernel => absurd user kernel
      mem := mem }⟩
  · exact exec_trapReturn_kernel a0 user

def FramesApart (base other : Usize) : Prop := frameSize ≤ base - other ∧ frameSize ≤ other - base

theorem FramesApart.slots {base other : Usize} (apart : FramesApart base other) {i j : Nat} (hi : i < 34) (hj : j < 34) :
    Apart (slot base i) (slot other j) := by
  obtain ⟨above, below⟩ := apart
  simp only [frameSize, BitVec.le_def] at above below
  unfold Apart slot
  bv_omega

/-- The handler's call for a trap of the kernel: the whole context is in the frame below `sp`. -/
structure Entered (trapped m : Machine Csr) : Prop where
  regs : ∀ i : Reg, i ≠ .zero → (frameAt m.mem (trapped.get .sp - frameSize)).x i = trapped.get i
  sepc : (frameAt m.mem (trapped.get .sp - frameSize)).sepc = trapped.csr .sepc
  sstatus : (frameAt m.mem (trapped.get .sp - frameSize)).sstatus = trapped.csr .sstatus
  sscratch : m.csr .sscratch = 0
  a0 : m.get .a0 = trapped.get .sp - frameSize
  others : ∀ base, FramesApart base (trapped.get .sp - frameSize) → frameAt m.mem base = frameAt trapped.mem base

/-- With `sscratch` zero the second swap undoes the first. -/
theorem exec_trapEntry_kernel (zero : trapped.csr .sscratch = 0) :
    exec symbols none trapEntry trapped = .call .trapHandler trapReturn
      (runAll symbols saveCsrs (runAll symbols push (swapped (swapped trapped)))) := by
  have sp : (swapped trapped).get .sp = 0 := by rw [swapped_get, if_pos rfl, zero]
  have parked : (swapped trapped).csr .sscratch = trapped.get .sp := by
    rw [swapped, Machine.set_csr, Machine.setCsr_csr, Function.update_self]
  have done := @pushed symbols (swapped trapped) _ parked
  -- the `bnez` falls through to the second swap
  have unswapped : exec symbols none trapEntry trapped = exec symbols none
      (push.map .op ++ .beqz .t0 2 :: (fromU.map .op ++ .label 2 :: (saveCsrs.map .op ++
        .call .trapHandler :: trapReturn))) (swapped (swapped trapped)) := by
    unfold trapEntry
    simp only [List.cons_append, List.nil_append, exec, Instr.run]
    change exec symbols (if (swapped trapped).get .sp = 0 then none else some 1) _ (swapped trapped) = _
    rw [if_pos sp]
    rfl
  rw [unswapped, exec_block, exec, done.t0, if_pos sp, exec_skip _ (by simp), exec_block]
  rfl

theorem push_apart {a : Usize} (sp : m.get .sp = base + frameSize) (apart : ∀ i < 34, Apart a (slot base i)) :
    load64 (runAll symbols push m).mem a = load64 m.mem a := by
  let b := m.set .sp base
  have start : runAll symbols [.addi .sp .sp (-272)] m = b := by
    rw [runAll_cons, Instr.run, sp, add_neg_frameSize, BitVec.add_sub_cancel]
    rfl
  have spB : b.get .sp = base := by rw [Machine.get_set, if_pos ⟨rfl, by decide⟩]
  have kept : load64 (runAll symbols saveFrame b).mem a = load64 m.mem a := by
    rw [saveFrame_eq, saves_apart, Machine.set_mem]
    intro r _
    rw [addr_offset, spB]
    exact apart r (by omega)
  have spC : (runAll symbols saveFrame b).get .sp = base := by rw [saveFrame_eq, saves_get, spB]
  rw [push, runAll_append, runAll_append, start]
  generalize runAll symbols saveFrame b = c at kept spC ⊢
  have x2 : load64 (store64 c.mem (slot base 2) (base + 272#64)) a = load64 m.mem a := by
    rw [load64_store64_of_apart _ _ (apart 2 (by decide)), kept]
  simpa [runAll, Instr.run, Machine.get_set, Machine.addr, slot, Reg.sp, Reg.t0, spC] using x2

theorem entered (zero : trapped.csr .sscratch = 0) :
    Entered trapped (runAll symbols saveCsrs (runAll symbols push (swapped (swapped trapped)))) := by
  have parked : (swapped trapped).csr .sscratch = trapped.get .sp := by
    rw [swapped, Machine.set_csr, Machine.setCsr_csr, Function.update_self]
  have other {c : Csr} (ne : c ≠ .sscratch) : (swapped trapped).csr c = trapped.csr c := by
    rw [swapped, Machine.set_csr, Machine.setCsr_csr, Function.update_of_ne ne]
  have done := @pushed symbols (swapped trapped) _ parked
  have start : (swapped (swapped trapped)).get .sp = trapped.get .sp - frameSize + frameSize := by
    rw [swapped_get, if_pos rfl, parked, BitVec.sub_add_cancel]
  have mem : (swapped (swapped trapped)).mem = trapped.mem := by simp [swapped]
  have outside (base : Usize) (apart : FramesApart base (trapped.get .sp - frameSize)) {i : Nat} (hi : i < 34) :
      load64 (runAll symbols push (swapped (swapped trapped))).mem (slot base i) = load64 trapped.mem (slot base i) := by
    rw [push_apart start fun j hj => apart.slots hi hj, mem]
  -- what `pushed` says of the machine is enough from here on
  generalize runAll symbols push (swapped (swapped trapped)) = s at done outside ⊢
  have csrs := @saveCsrs_mem symbols s _ done.sp
  exact {
    regs := fun i real => by
      rw [saveCsrs_reg done.sp]
      by_cases isSp : i = .sp
      · rw [isSp]
        exact done.x2
      · rw [done.regs i (mem_saved.mpr ⟨real, isSp⟩), swapped_get, if_neg isSp]
    sepc := by
      rw [frameAt_sepc, csrs, load64_store64_of_apart _ _ (slots_apart _ (by omega) (by omega) (by omega)),
        load64_store64, done.sepc, other (by decide)]
    sstatus := by rw [frameAt_sstatus, csrs, load64_store64, done.sstatus, other (by decide)]
    sscratch := by
      have cleared : s.csr .sscratch = 0 := by rw [done.sscratch, swapped_get, if_pos rfl, zero]
      simp [saveCsrs, runAll, Instr.run, cleared]
    a0 := by simp [saveCsrs, runAll, Instr.run, Machine.get_set, Reg.sp, Reg.t0, Reg.a0, done.sp]
    others := fun base apart => by
      have same {i : Nat} (hi : i < 34) :
          load64 (runAll symbols saveCsrs s).mem (slot base i) = load64 trapped.mem (slot base i) := by
        rw [csrs, load64_store64_of_apart _ _ (apart.slots hi (by decide)),
          load64_store64_of_apart _ _ (apart.slots hi (by decide)), outside base apart hi]
      simp only [frameAt, same (show 32 < 34 by decide), same (show 33 < 34 by decide), TrapFrame.mk.injEq, and_true]
      funext i
      exact same (by omega) }

/-! ## Traps of kernel code -/

/-- A trap of the kernel, from the entry to `sret`, with `handler` run over the frames on the stack. -/
def Takes (symbols : Symbol → Usize) (handler : List Usize → Machine Csr → Machine Csr → Prop) (frames : List Usize)
    (trapped e : Machine Csr) : Prop :=
  trapped.csr .sstatus &&& Sstatus.spp ≠ 0 ∧
  (∀ base ∈ frames, FramesApart base (trapped.get .sp - frameSize)) ∧
  ∃ rest m r, exec symbols none trapEntry trapped = .call .trapHandler rest m ∧
    handler ((trapped.get .sp - frameSize) :: frames) m r ∧ r.get .a0 = m.get .a0 ∧
    exec symbols none rest r = .sret e

/-- Kernel code that leaves `sscratch` and the frames on the stack as they are. The
hardware's part of a trap and of `sret`, which writes `sepc` and `sstatus`, is of this kind. -/
structure Spares (frames : List Usize) (m r : Machine Csr) : Prop where
  sscratch : r.csr .sscratch = m.csr .sscratch
  kept : ∀ base ∈ frames, frameAt r.mem base = frameAt m.mem base

/-- A handler that returns its frame unmodified and is itself interrupted at most `depth` traps deep. -/
def Handles (symbols : Symbol → Usize) : Nat → List Usize → Machine Csr → Machine Csr → Prop
  | 0, frames => Spares frames
  | depth + 1, frames => Relation.ReflTransGen fun m r =>
      Spares frames m r ∨ Takes symbols (Handles symbols depth) frames m r

theorem Entered.resumes (context : Entered trapped m) (kernel : trapped.csr .sstatus &&& Sstatus.spp ≠ 0)
    (a0 : r.get .a0 = m.get .a0) (kept : Spares [trapped.get .sp - frameSize] m r) :
    ∃ e, exec symbols none trapReturn r = .sret e ∧ Resumed trapped 0 e ∧ e.mem = r.mem := by
  have same := kept.kept _ List.mem_cons_self
  obtain ⟨e, runs, restored⟩ := @exec_trapReturn_restores symbols r _ (a0.trans context.a0)
  rw [same] at restored
  obtain ⟨sp, sscratch⟩ := restored.kernel (context.sstatus ▸ kernel)
  refine ⟨e, runs, ?_, restored.mem⟩
  exact {
    regs := fun i real => by
      by_cases isSp : i = .sp
      · rw [isSp, sp, BitVec.sub_add_cancel]
      · rw [restored.regs i real isSp, context.regs i real]
    sepc := restored.sepc.trans context.sepc
    sstatus := restored.sstatus.trans context.sstatus
    sscratch := by rw [sscratch, kept.sscratch, context.sscratch] }

theorem Spares.trans {frames : List Usize} (first : Spares frames s m) (second : Spares frames m r) :
    Spares frames s r where
  sscratch := second.sscratch.trans first.sscratch
  kept base member := (second.kept base member).trans (first.kept base member)

section
variable {handler : List Usize → Machine Csr → Machine Csr → Prop} {frames : List Usize} {e : Machine Csr}

/-- If the handler spares the frames it runs over, the trap is invisible to what it interrupted. -/
theorem Takes.resumes (spares : ∀ {frames m r}, m.csr .sscratch = 0 → handler frames m r → Spares frames m r)
    (zero : trapped.csr .sscratch = 0) (takes : Takes symbols handler frames trapped e) :
    Resumed trapped 0 e ∧ Spares frames trapped e := by
  obtain ⟨kernel, apart, rest, m, r, called, handled, a0, returned⟩ := takes
  -- the handler runs on the machine `entered` describes, and its return is `trapReturn`
  rw [exec_trapEntry_kernel zero, Exit.call.injEq] at called
  obtain ⟨-, rfl, rfl⟩ := called
  have context := @entered symbols trapped zero
  have kept := spares context.sscratch handled
  obtain ⟨e', runs, resumed, mem⟩ := @Entered.resumes symbols _ _ _ context kernel a0
    ⟨kept.sscratch, fun base member => kept.kept base (by grind)⟩
  rw [runs, Exit.sret.injEq] at returned
  subst returned
  refine ⟨resumed, resumed.sscratch.trans zero.symm, ?_⟩
  intro base member
  rw [mem, kept.kept base (List.mem_cons_of_mem _ member), context.others base (apart base member)]

theorem Handles.spares {depth : Nat} (zero : m.csr .sscratch = 0) (handles : Handles symbols depth frames m r) :
    Spares frames m r := by
  -- on the depth, and inside on the run of the handler: `sscratch` is zero again at each of its traps
  induction depth generalizing frames m r with
  | zero => exact handles
  | succ depth ih =>
    rw [Handles] at handles
    induction handles with
    | refl => exact ⟨rfl, fun _ _ => rfl⟩
    | tail _ step before =>
      refine before.trans ?_
      rcases step with work | takes
      · exact work
      · exact (takes.resumes ih (before.sscratch.trans zero)).2

end

end

/-- `__trap_return` resumes the frame in `a0`, whatever it holds. A trap of the kernel
whose handler gives its frame back is invisible, also when that handler, and the
handlers of its own traps, are interrupted in turn. -/
theorem trapReturn_exact_kernel_transparent (symbols : Symbol → Usize) :
    (∀ r : Machine Csr, ∃ e, exec symbols none trapReturn r = .sret e ∧
      Restored (frameAt r.mem (r.get .a0)) (r.get .a0) r e) ∧
    (∀ trapped : Machine Csr, trapped.csr .sscratch = 0 → trapped.csr .sstatus &&& Sstatus.spp ≠ 0 →
      ∃ m, exec symbols none trapEntry trapped = .call .trapHandler trapReturn m ∧ Entered trapped m ∧
        ∀ r, r.get .a0 = m.get .a0 → Spares [m.get .a0] m r →
          ∃ e, exec symbols none trapReturn r = .sret e ∧ Resumed trapped 0 e) ∧
    ∀ (depth : Nat) (frames : List Usize) (trapped e : Machine Csr), trapped.csr .sscratch = 0 →
      Takes symbols (Handles symbols depth) frames trapped e → Resumed trapped 0 e ∧ Spares frames trapped e := by
  refine ⟨fun r => exec_trapReturn_restores rfl, ?_, ?_⟩
  · intro trapped zero kernel
    have context := @entered symbols trapped zero
    refine ⟨_, exec_trapEntry_kernel zero, context, ?_⟩
    intro r a0 kept
    rw [context.a0] at kept
    obtain ⟨e, runs, resumed, -⟩ := @Entered.resumes symbols _ _ _ context kernel a0 kept
    exact ⟨e, runs, resumed⟩
  · intro depth frames trapped e zero takes
    exact takes.resumes Handles.spares zero

def kernelContext : Machine Csr where
  x r := BitVec.ofNat 64 (0x80212000 + r)
  csr
    | .sscratch => 0
    | .sepc => 0x80200400
    | .sstatus => Sstatus.spp ||| Sstatus.spie
  mem _ := 0

theorem kernelContext_resumed : ∃ m e, exec kernelSymbols none trapEntry kernelContext = .call .trapHandler trapReturn m ∧
    exec kernelSymbols none trapReturn m = .sret e ∧ Resumed kernelContext 0 e := by
  obtain ⟨m, called, -, returns⟩ :=
    (trapReturn_exact_kernel_transparent kernelSymbols).2.1 kernelContext rfl (by decide)
  obtain ⟨e, runs, resumed⟩ := returns m rfl ⟨rfl, fun _ _ => rfl⟩
  exact ⟨m, e, called, runs, resumed⟩

end Whimbrel.Trap

import Whimbrel.Base
import Whimbrel.Lib.Asm

/-! Supervisor status bits and the trap frame. -/

set_option autoImplicit false

namespace Whimbrel

/-! `csr::sstatus`. -/

def Sstatus.sie : Usize := 1 <<< 1
def Sstatus.spie : Usize := 1 <<< 5
def Sstatus.spp : Usize := 1 <<< 8
def Sstatus.sum : Usize := 1 <<< 18
def Sstatus.uxl64 : Usize := 2 <<< 32

namespace Trap

def frameSize : Usize := 272

/-- `x[0]` is unused; `x[2]` is the `sp` before the trap. -/
structure TrapFrame where
  x : Asm.Reg → Usize
  sepc : Usize
  sstatus : Usize

/-- `#[repr(C)]`: `x[i]` at offset `8 * i`, then `sepc` and `sstatus`. -/
def frameAt (mem : Asm.Memory) (base : Usize) : TrapFrame where
  x i := Asm.load64 mem (Asm.slot base i)
  sepc := Asm.load64 mem (Asm.slot base 32)
  sstatus := Asm.load64 mem (Asm.slot base 33)

@[simp] theorem frameAt_x (mem : Asm.Memory) (base : Usize) (i : Asm.Reg) :
    (frameAt mem base).x i = Asm.load64 mem (Asm.slot base i) := rfl

@[simp] theorem frameAt_sepc (mem : Asm.Memory) (base : Usize) :
    (frameAt mem base).sepc = Asm.load64 mem (Asm.slot base 32) := rfl

@[simp] theorem frameAt_sstatus (mem : Asm.Memory) (base : Usize) :
    (frameAt mem base).sstatus = Asm.load64 mem (Asm.slot base 33) := rfl

def fromUser (frame : TrapFrame) : Bool := frame.sstatus &&& Sstatus.spp = 0

end Trap

end Whimbrel

import Mathlib.Algebra.GroupWithZero.Nat
import Mathlib.Data.List.Basic
import Mathlib.Logic.Function.Basic

/-! A fragment of RV64 assembly over bytes.

Branches go forward to a numbered local label, as `1f` does, so a program is
executed by recursion on its text. Control and status registers and symbols are
parameters. Addresses wrap at 64 bits. -/

set_option autoImplicit false

namespace Asm

abbrev Word := BitVec 64
abbrev Memory := Word → BitVec 8

def load64 (m : Memory) (a : Word) : Word :=
  m (a + 7) ++ m (a + 6) ++ m (a + 5) ++ m (a + 4) ++ m (a + 3) ++ m (a + 2) ++ m (a + 1) ++ m a

def store64 (m : Memory) (a v : Word) : Memory := fun b =>
  if (b - a).toNat < 8 then v.extractLsb' (8 * (b - a).toNat) 8 else m b

def Apart (a b : Word) : Prop := 8 ≤ (a - b).toNat ∧ 8 ≤ (b - a).toNat

theorem store64_inside (m : Memory) (a v k : Word) (small : k.toNat < 8) :
    store64 m a v (a + k) = v.extractLsb' (8 * k.toNat) 8 := by
  have offset : a + k - a = k := by bv_omega
  rw [store64, offset, if_pos small]

theorem store64_outside (m : Memory) {a b : Word} (v k : Word) (apart : Apart b a) (small : k.toNat < 8) :
    store64 m a v (b + k) = m (b + k) := by
  obtain ⟨above, below⟩ := apart
  rw [store64, if_neg (by bv_omega)]

@[simp] theorem load64_store64 (m : Memory) (a v : Word) : load64 (store64 m a v) a = v := by
  have first : store64 m a v a = v.extractLsb' 0 8 := by
    simpa using store64_inside m a v 0 (by decide)
  simp only [load64, first, store64_inside m a v _ (show (1 : Word).toNat < 8 by decide),
    store64_inside m a v _ (show (2 : Word).toNat < 8 by decide),
    store64_inside m a v _ (show (3 : Word).toNat < 8 by decide),
    store64_inside m a v _ (show (4 : Word).toNat < 8 by decide),
    store64_inside m a v _ (show (5 : Word).toNat < 8 by decide),
    store64_inside m a v _ (show (6 : Word).toNat < 8 by decide),
    store64_inside m a v _ (show (7 : Word).toNat < 8 by decide)]
  apply BitVec.eq_of_getLsbD_eq
  intro i small
  simp only [BitVec.getLsbD_append, BitVec.getLsbD_extractLsb']
  grind

theorem load64_store64_of_apart (m : Memory) {a b : Word} (v : Word) (apart : Apart b a) :
    load64 (store64 m a v) b = load64 m b := by
  have first : store64 m a v b = m b := by
    simpa using store64_outside m v 0 apart (by decide)
  simp only [load64, first, store64_outside m v _ apart (show (1 : Word).toNat < 8 by decide),
    store64_outside m v _ apart (show (2 : Word).toNat < 8 by decide),
    store64_outside m v _ apart (show (3 : Word).toNat < 8 by decide),
    store64_outside m v _ apart (show (4 : Word).toNat < 8 by decide),
    store64_outside m v _ apart (show (5 : Word).toNat < 8 by decide),
    store64_outside m v _ apart (show (6 : Word).toNat < 8 by decide),
    store64_outside m v _ apart (show (7 : Word).toNat < 8 by decide)]

def slot (base : Word) (i : Nat) : Word := base + BitVec.ofNat 64 (8 * i)

theorem slot_apart (base : Word) {i j : Nat} (hi : i < 2 ^ 60) (hj : j < 2 ^ 60) (ne : i ≠ j) :
    Apart (slot base i) (slot base j) := by
  have difference (i j : Nat) : slot base i - slot base j = BitVec.ofNat 64 (8 * i) - BitVec.ofNat 64 (8 * j) := by
    unfold slot
    bv_omega
  simp only [Apart, difference, BitVec.toNat_sub, BitVec.toNat_ofNat]
  omega

/-! ## Instructions -/

abbrev Reg := Fin 32

abbrev Reg.zero : Reg := 0
abbrev Reg.ra : Reg := 1
abbrev Reg.sp : Reg := 2
abbrev Reg.gp : Reg := 3
abbrev Reg.tp : Reg := 4
abbrev Reg.t0 : Reg := 5
abbrev Reg.t1 : Reg := 6
abbrev Reg.t2 : Reg := 7
abbrev Reg.s0 : Reg := 8
abbrev Reg.s1 : Reg := 9
abbrev Reg.a0 : Reg := 10
abbrev Reg.a1 : Reg := 11
abbrev Reg.a2 : Reg := 12
abbrev Reg.a3 : Reg := 13
abbrev Reg.a4 : Reg := 14
abbrev Reg.a5 : Reg := 15
abbrev Reg.a6 : Reg := 16
abbrev Reg.a7 : Reg := 17
abbrev Reg.s2 : Reg := 18
abbrev Reg.s3 : Reg := 19
abbrev Reg.s4 : Reg := 20
abbrev Reg.s5 : Reg := 21
abbrev Reg.s6 : Reg := 22
abbrev Reg.s7 : Reg := 23
abbrev Reg.s8 : Reg := 24
abbrev Reg.s9 : Reg := 25
abbrev Reg.s10 : Reg := 26
abbrev Reg.s11 : Reg := 27
abbrev Reg.t3 : Reg := 28
abbrev Reg.t4 : Reg := 29
abbrev Reg.t5 : Reg := 30
abbrev Reg.t6 : Reg := 31

structure Machine (C : Type) where
  /-- `x 0` is never read. -/
  x : Reg → Word
  csr : C → Word
  mem : Memory

section
variable {C S : Type}

def Machine.get (m : Machine C) (r : Reg) : Word := if r = 0 then 0 else m.x r

def Machine.set (m : Machine C) (r : Reg) (v : Word) : Machine C :=
  if r = 0 then m else { m with x := Function.update m.x r v }

def Machine.setCsr [DecidableEq C] (m : Machine C) (c : C) (v : Word) : Machine C :=
  { m with csr := Function.update m.csr c v }

def Machine.setMem (m : Machine C) (mem : Memory) : Machine C := { m with mem }

theorem Machine.get_set (m : Machine C) (r s : Reg) (v : Word) :
    (m.set r v).get s = if s = r ∧ r ≠ 0 then v else m.get s := by
  by_cases real : r = 0
  · simp [get, set, real]
  · by_cases same : s = r
    · subst same
      simp [get, set, real]
    · simp [get, set, real, same]

-- not by `rfl`: the kernel would compare the two machines before their registers
@[simp] theorem Machine.get_setCsr [DecidableEq C] (m : Machine C) (c : C) (v : Word) (r : Reg) :
    (m.setCsr c v).get r = m.get r := by
  rw [get, get, setCsr]

@[simp] theorem Machine.get_setMem (m : Machine C) (mem : Memory) (r : Reg) :
    (m.setMem mem).get r = m.get r := by
  rw [get, get, setMem]

@[simp] theorem Machine.set_csr (m : Machine C) (r : Reg) (v : Word) : (m.set r v).csr = m.csr := by
  unfold set
  split <;> rfl

@[simp] theorem Machine.set_mem (m : Machine C) (r : Reg) (v : Word) : (m.set r v).mem = m.mem := by
  unfold set
  split <;> rfl

@[simp] theorem Machine.setCsr_csr [DecidableEq C] (m : Machine C) (c : C) (v : Word) :
    (m.setCsr c v).csr = Function.update m.csr c v := rfl

@[simp] theorem Machine.setCsr_mem [DecidableEq C] (m : Machine C) (c : C) (v : Word) :
    (m.setCsr c v).mem = m.mem := rfl

@[simp] theorem Machine.setMem_csr (m : Machine C) (mem : Memory) : (m.setMem mem).csr = m.csr := rfl

@[simp] theorem Machine.setMem_mem (m : Machine C) (mem : Memory) : (m.setMem mem).mem = mem := rfl

inductive Instr (C S : Type) where
  | csrrw (rd : Reg) (csr : C) (rs : Reg)
  | csrr (rd : Reg) (csr : C)
  | csrw (csr : C) (rs : Reg)
  | addi (rd rs : Reg) (imm : BitVec 12)
  | andi (rd rs : Reg) (imm : BitVec 12)
  | ld (rd : Reg) (imm : BitVec 12) (base : Reg)
  | sd (rs : Reg) (imm : BitVec 12) (base : Reg)
  | la (rd : Reg) (symbol : S)
  | mv (rd rs : Reg)

def Machine.addr (m : Machine C) (imm : BitVec 12) (base : Reg) : Word := m.get base + imm.signExtend 64

def Instr.run [DecidableEq C] (symbols : S → Word) (m : Machine C) : Instr C S → Machine C
  | .csrrw rd csr rs => (m.setCsr csr (m.get rs)).set rd (m.csr csr)
  | .csrr rd csr => m.set rd (m.csr csr)
  | .csrw csr rs => m.setCsr csr (m.get rs)
  | .addi rd rs imm => m.set rd (m.get rs + imm.signExtend 64)
  | .andi rd rs imm => m.set rd (m.get rs &&& imm.signExtend 64)
  | .ld rd imm base => m.set rd (load64 m.mem (m.addr imm base))
  | .sd rs imm base => m.setMem (store64 m.mem (m.addr imm base) (m.get rs))
  | .la rd symbol => m.set rd (symbols symbol)
  | .mv rd rs => m.set rd (m.get rs)

inductive Line (C S : Type) where
  | op (i : Instr C S)
  | label (n : Nat)
  | bnez (rs : Reg) (target : Nat)
  | beqz (rs : Reg) (target : Nat)
  | call (symbol : S)
  | sret

/-- Where execution leaves a text. -/
inductive Exit (C S : Type) where
  | call (symbol : S) (rest : List (Line C S)) (m : Machine C)
  | sret (m : Machine C)
  | falls (m : Machine C)

/-- Execute a text; `some n` is a branch on its way to the label `n`. -/
def exec [DecidableEq C] (symbols : S → Word) : Option Nat → List (Line C S) → Machine C → Exit C S
  | _, [], m => .falls m
  | some n, .label k :: code, m => exec symbols (if k = n then none else some n) code m
  | some n, _ :: code, m => exec symbols (some n) code m
  | none, .op i :: code, m => exec symbols none code (i.run symbols m)
  | none, .label _ :: code, m => exec symbols none code m
  | none, .bnez r n :: code, m => exec symbols (if m.get r = 0 then none else some n) code m
  | none, .beqz r n :: code, m => exec symbols (if m.get r = 0 then some n else none) code m
  | none, .call f :: code, m => .call f code m
  | none, .sret :: _, m => .sret m

variable [DecidableEq C] {symbols : S → Word}

def runAll (symbols : S → Word) (is : List (Instr C S)) (m : Machine C) : Machine C :=
  is.foldl (Instr.run symbols) m

theorem runAll_cons (i : Instr C S) (is : List (Instr C S)) (m : Machine C) :
    runAll symbols (i :: is) m = runAll symbols is (i.run symbols m) := rfl

theorem runAll_append (is js : List (Instr C S)) (m : Machine C) :
    runAll symbols (is ++ js) m = runAll symbols js (runAll symbols is m) :=
  List.foldl_append

theorem exec_block (is : List (Instr C S)) (code : List (Line C S)) (m : Machine C) :
    exec symbols none (is.map .op ++ code) m = exec symbols none code (runAll symbols is m) := by
  induction is generalizing m with
  | nil => rfl
  | cons i is ih => exact ih (i.run symbols m)

theorem exec_skip {n : Nat} {before code : List (Line C S)} (m : Machine C) (free : ∀ k, .label k ∈ before → k ≠ n) :
    exec symbols (some n) (before ++ .label n :: code) m = exec symbols none code m := by
  induction before with
  | nil => simp [exec]
  | cons line before ih =>
    have rest := ih fun k member => free k (List.mem_cons_of_mem _ member)
    cases line with
    | label k => simp [exec, free k List.mem_cons_self, rest]
    | op | bnez | beqz | call | sret => simpa [exec] using rest

/-- The registers `rs`, each to its own doubleword below `base`. -/
def saves (offset : Reg → BitVec 12) (base : Reg) (rs : List Reg) : List (Instr C S) :=
  rs.map fun r => .sd r (offset r) base

def restores (offset : Reg → BitVec 12) (base : Reg) (rs : List Reg) : List (Instr C S) :=
  rs.map fun r => .ld r (offset r) base

def Spread (m : Machine C) (offset : Reg → BitVec 12) (base : Reg) (rs : List Reg) : Prop :=
  rs.Pairwise fun r s => Apart (m.addr (offset r) base) (m.addr (offset s) base)

theorem saves_get (offset : Reg → BitVec 12) (base : Reg) (rs : List Reg) (m : Machine C) (r : Reg) :
    (runAll symbols (saves offset base rs) m).get r = m.get r := by
  induction rs generalizing m with
  | nil => rfl
  | cons s rs ih => exact ih _

theorem saves_csr (offset : Reg → BitVec 12) (base : Reg) (rs : List Reg) (m : Machine C) :
    (runAll symbols (saves offset base rs) m).csr = m.csr := by
  induction rs generalizing m with
  | nil => rfl
  | cons s rs ih => exact ih _

theorem saves_apart {offset : Reg → BitVec 12} {base : Reg} {rs : List Reg} {m : Machine C} {a : Word}
    (apart : ∀ r ∈ rs, Apart a (m.addr (offset r) base)) :
    load64 (runAll symbols (saves offset base rs) m).mem a = load64 m.mem a := by
  induction rs generalizing m with
  | nil => rfl
  | cons s rs ih =>
    calc load64 (runAll symbols (saves offset base (s :: rs)) m).mem a
        = load64 (store64 m.mem (m.addr (offset s) base) (m.get s)) a :=
          ih (m := Instr.run symbols m (.sd s (offset s) base)) fun r member =>
            apart r (List.mem_cons_of_mem _ member)
      _ = load64 m.mem a := load64_store64_of_apart _ _ (apart s List.mem_cons_self)

theorem saves_mem (symbols : S → Word) {offset : Reg → BitVec 12} {base : Reg} {rs : List Reg} {m : Machine C}
    (spread : Spread m offset base rs) {r : Reg} (member : r ∈ rs) :
    load64 (runAll symbols (saves offset base rs) m).mem (m.addr (offset r) base) = m.get r := by
  induction rs generalizing m with
  | nil => cases member
  | cons s rs ih =>
    obtain ⟨first, rest⟩ := List.pairwise_cons.mp spread
    rcases List.mem_cons.mp member with rfl | later
    · calc load64 (runAll symbols (saves offset base (r :: rs)) m).mem (m.addr (offset r) base)
          = load64 (store64 m.mem (m.addr (offset r) base) (m.get r)) (m.addr (offset r) base) :=
            saves_apart (m := Instr.run symbols m (.sd r (offset r) base)) first
        _ = m.get r := load64_store64 _ _ _
    · exact ih (m := Instr.run symbols m (.sd s (offset s) base)) rest later

theorem restores_frame {offset : Reg → BitVec 12} {base : Reg} {rs : List Reg} (m : Machine C) :
    (runAll symbols (restores offset base rs) m).mem = m.mem ∧
      (runAll symbols (restores offset base rs) m).csr = m.csr := by
  induction rs generalizing m with
  | nil => exact ⟨rfl, rfl⟩
  | cons s rs ih =>
    obtain ⟨mem, csr⟩ := ih (Instr.run symbols m (.ld s (offset s) base))
    exact ⟨mem.trans (Machine.set_mem _ _ _), csr.trans (Machine.set_csr _ _ _)⟩

theorem restores_other {offset : Reg → BitVec 12} {base : Reg} {rs : List Reg} {m : Machine C} {r : Reg}
    (other : r ∉ rs) : (runAll symbols (restores offset base rs) m).get r = m.get r := by
  induction rs generalizing m with
  | nil => rfl
  | cons s rs ih =>
    simp only [List.mem_cons, not_or] at other
    calc (runAll symbols (restores offset base (s :: rs)) m).get r
        = (Instr.run symbols m (.ld s (offset s) base)).get r := ih other.2
      _ = m.get r := by rw [Instr.run, Machine.get_set, if_neg fun same => other.1 same.1]

/-- A restore that spares its base register reads every register from its doubleword. -/
theorem restores_get {offset : Reg → BitVec 12} {base : Reg} {rs : List Reg} {m : Machine C} {r : Reg}
    (real : 0 ∉ rs) (spared : base ∉ rs) (once : rs.Nodup) (member : r ∈ rs) :
    (runAll symbols (restores offset base rs) m).get r = load64 m.mem (m.addr (offset r) base) := by
  induction rs generalizing m with
  | nil => cases member
  | cons s rs ih =>
    simp only [List.mem_cons, not_or] at real spared
    obtain ⟨fresh, rest⟩ := List.nodup_cons.mp once
    rcases List.mem_cons.mp member with rfl | later
    · calc (runAll symbols (restores offset base (r :: rs)) m).get r
          = (Instr.run symbols m (.ld r (offset r) base)).get r := restores_other fresh
        _ = load64 m.mem (m.addr (offset r) base) := by
          rw [Instr.run, Machine.get_set, if_pos ⟨rfl, Ne.symm real.1⟩]
    · calc (runAll symbols (restores offset base (s :: rs)) m).get r
          = load64 (Instr.run symbols m (.ld s (offset s) base)).mem
              ((Instr.run symbols m (.ld s (offset s) base)).addr (offset r) base) := ih real.2 spared.2 rest later
        _ = load64 m.mem (m.addr (offset r) base) := by
          rw [Machine.addr, Machine.addr, Instr.run, Machine.get_set, if_neg fun same => spared.1 same.1,
            Machine.set_mem]

end

end Asm

import Whimbrel.Base

/-! The checker of user code: the loop of `scripts/check-utext.sh`.

An instruction of the disassembly has its operands already split at the commas.
The linker's symbols are a parameter, through the ranges they bound. -/

set_option autoImplicit false

namespace Whimbrel.Utext

open Checked

inductive Reg where
  | zero | ra | sp | gp | tp
  | t0 | t1 | t2 | t3 | t4 | t5 | t6
  | s0 | s1 | s2 | s3 | s4 | s5 | s6 | s7 | s8 | s9 | s10 | s11
  | a0 | a1 | a2 | a3 | a4 | a5 | a6 | a7
  deriving DecidableEq, Repr

/-- `hex`: the number is written with `0x`. -/
inductive Operand where
  | reg (r : Reg)
  | num (value : Int) (hex : Bool)
  | mem (offset : Int) (hex : Bool) (base : Reg)
  | word (text : String)
  deriving DecidableEq, Repr

structure Insn where
  pc : Nat
  op : String
  args : List Operand
  deriving DecidableEq, Repr

structure Range where
  name : String
  lo : Nat
  hi : Nat
  deriving DecidableEq, Repr

structure Symbols where
  ranges : List Range
  utextStart : Nat

inductive Reason where
  | gpTp
  | fp (op : String)
  | branchForm (op : String)
  | operands (op : String)
  | noTarget
  | noAddress (op : String)
  | auipc
  | kernelAddress (how : String) (addr : Nat)
  | outside (how : String) (addr : Nat)
  | jalr
  | unhandled (op : String)
  deriving DecidableEq, Repr

inductive Fail where
  | refused (pc : Nat) (reason : Reason)
  /-- `.utext is empty or missing`. -/
  | empty
  deriving DecidableEq, Repr

structure Resolved where
  pc : Nat
  how : String
  addr : Nat
  name : String
  deriving DecidableEq, Repr

def loadStore : List String :=
  ["lb", "lh", "lw", "ld", "lbu", "lhu", "lwu", "sb", "sh", "sw", "sd", "c.ldsp", "c.sdsp", "c.lwsp", "c.swsp",
    "c.ld", "c.sd", "c.lw", "c.sw"]

def branch : List String :=
  ["beq", "bne", "blt", "bge", "bltu", "bgeu", "beqz", "bnez", "blez", "bgez", "bltz", "bgtz", "bgt", "ble", "bgtu",
    "bleu", "c.beqz", "c.bnez"]

def skip : List String :=
  ["lui", "li", "addi", "addiw", "add", "sub", "ecall", "ebreak", "unimp", "nop", "mv", "neg", "not", "seqz", "snez",
    "sltz", "sgtz", "beq", "bne", "blt", "bge", "bltu", "bgeu", "beqz", "bnez", "blez", "bgez", "bltz", "bgtz", "bgt",
    "ble", "bgtu", "bleu", "slli", "srli", "srai", "slliw", "srliw", "sraiw", "and", "or", "xor", "andi", "ori", "xori",
    "sll", "srl", "sra", "sllw", "srlw", "sraw", "addw", "subw", "mul", "mulh", "mulhu", "mulhsu", "mulw", "div", "divu",
    "rem", "remu", "divw", "divuw", "remw", "remuw", "sext.w", "zext.b", "zext.w", "zext.h", "c.addi", "c.addiw",
    "c.addi16sp", "c.addi4spn", "c.add", "c.addw", "c.sub", "c.subw", "c.mv", "c.li", "c.lui", "c.nop", "c.slli",
    "c.srli", "c.srai", "c.andi", "c.and", "c.or", "c.xor", "c.beqz", "c.bnez", "c.unimp", "c.ebreak", "fence",
    "fence.i", "ret"]

def directJumps : List String := ["jal", "j", "call", "tail", "c.j", "c.jal"]

def indirectJumps : List String := ["jalr", "jr", "c.jr", "c.jalr"]

/-- `GP_TP.search`: one of the runs of letters and digits is the name. -/
def searchGpTp (text : String) : Bool :=
  (text.toList.splitOnP fun c => !(c.isLower || c.isDigit)).any fun w => w = "gp".toList ∨ w = "tp".toList

def Reg.isGpTp (r : Reg) : Bool := r = .gp ∨ r = .tp

def Operand.namesGpTp : Operand → Bool
  | .reg r => r.isGpTp
  | .num _ _ => false
  | .mem _ _ base => base.isGpTp
  | .word text => searchGpTp text

def Insn.namesGpTp (insn : Insn) : Bool := insn.args.any Operand.namesGpTp || searchGpTp insn.op

def isFp (op : String) : Bool :=
  if op = "fence" ∨ op = "fence.i" then false
  else "c.f".toList.isPrefixOf op.toList || "f".toList.isPrefixOf op.toList

def where? (syms : Symbols) (addr : Nat) : Option String :=
  (syms.ranges.find? fun r => r.lo < r.hi ∧ r.lo ≤ addr ∧ addr < r.hi).map (·.name)

def kernelLo : Nat := 0x80200000

def checkAddr (syms : Symbols) (pc : Nat) (addr : Nat) (how : String) : Except Fail Resolved :=
  match where? syms addr with
  | some name => .ok ⟨pc, how, addr, name⟩
  | none =>
    if kernelLo ≤ addr ∧ addr < syms.utextStart then .error (.refused pc (.kernelAddress how addr))
    else .error (.refused pc (.outside how addr))

def parseRegImm : List Operand → Option (Operand × Int)
  | [rd, .num imm _] => some (rd, imm)
  | _ => none

/-- What follows the second operand is not looked at. -/
def parseMem : List Operand → Option (Operand × Int × Reg)
  | first :: .mem offset _ base :: _ => some (first, offset, base)
  | _ => none

def parseJalr : List Operand → Option (Operand × Operand × Int)
  | [.mem offset _ base] => some (.reg .zero, .reg base, offset)
  | [rs] => some (.reg .ra, rs, 0)
  | [rd, rs, .num imm _] => some (rd, rs, imm)
  | [rd, .mem offset _ base] => some (rd, .reg base, offset)
  | [rs, .num imm _] => some (.reg .ra, rs, imm)
  | [rd, rs] => some (rd, rs, 0)
  | _ => none

/-- The digits after `0x`; a sign before them is not part of the match. -/
def hexTargets (args : List Operand) : List Nat :=
  args.filterMap fun
    | .num value true => some value.natAbs
    | .mem offset true _ => some offset.natAbs
    | _ => none

def wrap (v : Int) : Nat := (v % 2 ^ 64).toNat

def auipcVal (pc : Nat) (imm : Int) : Nat := wrap (pc + imm * 2 ^ 12)

/-- The offset by which the instruction after an `auipc` uses its register, if it does. -/
def window (rd : Operand) (next : Insn) : Option Int :=
  if next.op ∈ ["addi", "addiw"] then
    match next.args with
    | [_, rs, .num imm _] => if rs = rd then some imm else none
    | _ => none
  else if next.op ∈ loadStore then
    match parseMem next.args with
    | some (_, offset, base) => if .reg base = rd then some offset else none
    | none => none
  else if next.op ∈ indirectJumps then
    match parseJalr next.args with
    | some (_, rs, imm) => if rs = rd then some imm else none
    | none => none
  else none

/-- The address is the last one written in hexadecimal. -/
def checkTarget (syms : Symbols) (insn : Insn) (otherwise : Reason) : Except Fail Resolved :=
  match (hexTargets insn.args).getLast? with
  | none => .error (.refused insn.pc otherwise)
  | some target => checkAddr syms insn.pc target insn.op

def checkAuipc (syms : Symbols) (insn : Insn) (next : Option Insn) : Except Fail (Resolved × Bool) :=
  match parseRegImm insn.args with
  | none => .error (.refused insn.pc .auipc)
  | some (rd, imm) =>
    let base := auipcVal insn.pc imm
    match next.bind fun n => (window rd n).map fun offset => (n, offset) with
    | none => (·, false) <$> checkAddr syms insn.pc base "auipc"
    | some (n, offset) =>
      let how := if n.op ∈ ["addi", "addiw"] then "auipc+addi" else "auipc+" ++ n.op
      (·, true) <$> checkAddr syms insn.pc (wrap (base + offset)) how

/-- One pass of the loop: what was resolved, and whether the next instruction is paired. -/
def examine (syms : Symbols) (insn : Insn) (next : Option Insn) : Except Fail (List Resolved × Bool) :=
  if insn.namesGpTp then .error (.refused insn.pc .gpTp)
  else if isFp insn.op then .error (.refused insn.pc (.fp insn.op))
  else if insn.op ∈ skip then
    if insn.op ∈ branch then (fun r => ([r], false)) <$> checkTarget syms insn (.branchForm insn.op)
    else .ok ([], false)
  else if insn.op ∈ loadStore then
    match parseMem insn.args with
    | some _ => .ok ([], false)
    | none =>
      if "ps".toList.isPrefixOf insn.op.toList.reverse ∧ (parseRegImm insn.args).isSome then .ok ([], false)
      else .error (.refused insn.pc (.operands insn.op))
  else if insn.op ∈ directJumps then (fun r => ([r], false)) <$> checkTarget syms insn .noTarget
  else if insn.op ∈ ["la", "lla"] then (fun r => ([r], false)) <$> checkTarget syms insn (.noAddress insn.op)
  else if insn.op = "auipc" then (fun r => ([r.1], r.2)) <$> checkAuipc syms insn next
  else if insn.op ∈ indirectJumps then
    match parseJalr insn.args with
    | some (_, rs, _) => if rs = .reg .ra then .ok ([], false) else .error (.refused insn.pc .jalr)
    | none => .error (.refused insn.pc .jalr)
  else .error (.refused insn.pc (.unhandled insn.op))

def checkFrom (syms : Symbols) : Nat → List Nat → List Insn → Except Fail (List Resolved)
  | _, _, [] => .ok []
  | i, paired, insn :: insns =>
    if i ∈ paired then checkFrom syms (i + 1) paired insns
    else do
      let (found, pairs) ← examine syms insn insns.head?
      let later ← checkFrom syms (i + 1) (if pairs then (i + 1) :: paired else paired) insns
      return found ++ later

def check (syms : Symbols) (insns : List Insn) : Except Fail (List Resolved) :=
  if insns = [] then .error .empty else checkFrom syms 0 [] insns

/-! ## What the checker is for -/

def InUser (syms : Symbols) (addr : Nat) : Prop := ∃ r ∈ syms.ranges, r.lo ≤ addr ∧ addr < r.hi

instance (syms : Symbols) (addr : Nat) : Decidable (InUser syms addr) :=
  inferInstanceAs (Decidable (∃ r ∈ syms.ranges, r.lo ≤ addr ∧ addr < r.hi))

/-- The register and the offset of an address formed by an addition, a load, a store or a jump. -/
def baseUse (insn : Insn) : Option (Reg × Int) :=
  if insn.op = "addi" then
    match insn.args with
    | [_, .reg rs, .num imm _] => some (rs, imm)
    | _ => none
  else if insn.op = "c.addi" then
    match insn.args with
    | [.reg rd, .num imm _] => some (rd, imm)
    | _ => none
  else if insn.op ∈ loadStore then (parseMem insn.args).map fun m => (m.2.2, m.2.1)
  else if insn.op ∈ indirectJumps then
    match parseJalr insn.args with
    | some (_, .reg rs, imm) => some (rs, imm)
    | _ => none
  else none

def stores : List String := ["sb", "sh", "sw", "sd", "c.sdsp", "c.swsp", "c.sd", "c.sw"]

def transfers (insn : Insn) : Bool :=
  insn.op ∈ branch ∨ insn.op ∈ directJumps ∨ insn.op ∈ indirectJumps ∨ insn.op = "ret"

def redefines (rd : Reg) (insn : Insn) : Bool := insn.op ∉ stores ∧ insn.op ∉ branch ∧ insn.args.head? = some (.reg rd)

/-- Between the two no instruction leaves the line or gives the register another value. -/
def Reaches (insns : List Insn) (i j : Nat) (rd : Reg) : Prop :=
  i < j ∧ ∀ k, i < k → k < j → ∃ insn, insns[k]? = some insn ∧ transfers insn = false ∧ redefines rd insn = false

/-- The instruction at `j` forms `addr` from the register that the `auipc` at `i` has set. The disassembly prints
the twenty bits of `imm` unsigned; the machine extends their sign. -/
def UsedAt (insns : List Insn) (i j : Nat) (use : Insn) (imm : Int) (addr : Nat) : Prop :=
  ∃ insn rd offset, insns[i]? = some insn ∧ insn.op = "auipc" ∧ parseRegImm insn.args = some (.reg rd, imm) ∧
    insns[j]? = some use ∧ baseUse use = some (rd, offset) ∧ Reaches insns i j rd ∧
    addr = ((insn.pc + imm.bmod (2 ^ 20) * 2 ^ 12 + offset) % 2 ^ 64).toNat

/-- User code that cannot refer to the kernel. -/
structure Sound (syms : Symbols) (insns : List Insn) : Prop where
  names : ∀ insn ∈ insns, insn.namesGpTp = false ∧ isFp insn.op = false
  targets : ∀ insn ∈ insns, insn.op ∈ branch ∨ insn.op ∈ directJumps →
    ∃ target, (hexTargets insn.args).getLast? = some target ∧ InUser syms target
  uses : ∀ i j use imm addr, UsedAt insns i j use imm addr → InUser syms addr

section
variable {syms : Symbols} {insn next : Insn} {rd : Operand}

theorem inUser_of_checkAddr {pc addr : Nat} {how : String} {r : Resolved} (ok : checkAddr syms pc addr how = .ok r) :
    InUser syms addr := by
  unfold checkAddr where? at ok
  cases found : syms.ranges.find? fun r => r.lo < r.hi ∧ r.lo ≤ addr ∧ addr < r.hi with
  | none =>
    rw [found] at ok
    simp only [Option.map_none] at ok
    split at ok <;> cases ok
  | some range =>
    have inside := List.find?_some found
    rw [decide_eq_true_eq] at inside
    exact ⟨range, List.mem_of_find?_eq_some found, inside.2⟩

theorem checkTarget_ok {otherwise : Reason} {r : Resolved} (ok : checkTarget syms insn otherwise = .ok r) :
    ∃ target, (hexTargets insn.args).getLast? = some target ∧ InUser syms target := by
  unfold checkTarget at ok
  split at ok
  · cases ok
  · rename_i target last
    exact ⟨target, last, inUser_of_checkAddr ok⟩

theorem examine_names {after : Option Insn} {r : List Resolved × Bool} (ok : examine syms insn after = .ok r) :
    insn.namesGpTp = false ∧ isFp insn.op = false := by
  unfold examine at ok
  split at ok
  · cases ok
  · split at ok
    · cases ok
    · rename_i names fp
      exact ⟨Bool.eq_false_iff.mpr names, Bool.eq_false_iff.mpr fp⟩

theorem branch_skipped : ∀ op ∈ branch, op ∈ skip := by decide +kernel

theorem direct_reached : ∀ op ∈ directJumps, op ∉ skip ∧ op ∉ loadStore := by decide +kernel

theorem examine_target {after : Option Insn} {r : List Resolved × Bool} (ok : examine syms insn after = .ok r)
    (direct : insn.op ∈ branch ∨ insn.op ∈ directJumps) :
    ∃ target, (hexTargets insn.args).getLast? = some target ∧ InUser syms target := by
  obtain ⟨names, fp⟩ := examine_names ok
  rw [examine, names, fp, if_neg Bool.false_ne_true, if_neg Bool.false_ne_true] at ok
  rcases direct with taken | jump
  · rw [if_pos (branch_skipped _ taken), if_pos taken] at ok
    obtain ⟨resolved, checked, -⟩ := of_map_ok ok
    exact checkTarget_ok checked
  · obtain ⟨notSkip, notMem⟩ := direct_reached _ jump
    rw [if_neg notSkip, if_neg notMem, if_pos jump] at ok
    obtain ⟨resolved, checked, -⟩ := of_map_ok ok
    exact checkTarget_ok checked

theorem auipc_reached : "auipc" ∉ skip ∧ "auipc" ∉ loadStore ∧ "auipc" ∉ directJumps ∧ "auipc" ∉ ["la", "lla"] := by
  decide +kernel

theorem wrap_auipcVal {pc : Nat} {imm offset : Int} (plain : imm.bmod (2 ^ 20) = imm) :
    wrap (auipcVal pc imm + offset) = ((pc + imm.bmod (2 ^ 20) * 2 ^ 12 + offset) % 2 ^ 64).toNat := by
  have whole : (((pc : Int) + imm * 2 ^ 12) % 2 ^ 64).toNat = ((pc : Int) + imm * 2 ^ 12) % 2 ^ 64 :=
    Int.toNat_of_nonneg (Int.emod_nonneg _ (by decide))
  rw [wrap, auipcVal, wrap, whole, Int.emod_add_emod, plain]

/-- The instruction right after an `auipc` is the one it is checked with. -/
theorem examine_auipc {imm offset : Int} {r : List Resolved × Bool} (ok : examine syms insn (some next) = .ok r)
    (auipc : insn.op = "auipc") (parsed : parseRegImm insn.args = some (rd, imm)) (used : window rd next = some offset) :
    InUser syms (wrap (auipcVal insn.pc imm + offset)) := by
  obtain ⟨names, fp⟩ := examine_names ok
  obtain ⟨notSkip, notMem, notJump, notLa⟩ := auipc_reached
  rw [← auipc] at notSkip notMem notJump notLa
  rw [examine, names, fp, if_neg Bool.false_ne_true, if_neg Bool.false_ne_true, if_neg notSkip, if_neg notMem,
    if_neg notJump, if_neg notLa, if_pos auipc] at ok
  obtain ⟨checked, ok, -⟩ := of_map_ok ok
  rw [checkAuipc, parsed] at ok
  simp only [Option.bind_some, used, Option.map_some] at ok
  obtain ⟨resolved, ok, -⟩ := of_map_ok ok
  exact inUser_of_checkAddr ok

theorem examine_pairs {after : Option Insn} {found : List Resolved} (ok : examine syms insn after = .ok (found, true)) :
    insn.op = "auipc" ∧ ∃ next rd imm offset, after = some next ∧ parseRegImm insn.args = some (rd, imm) ∧
      window rd next = some offset := by
  -- every other branch answers `false` or raises
  unfold examine at ok
  split at ok
  · cases ok
  split at ok
  · cases ok
  split at ok
  · split at ok
    · obtain ⟨_, -, same⟩ := of_map_ok ok
      cases same
    · cases ok
  split at ok
  · split at ok
    · cases ok
    · split at ok <;> cases ok
  split at ok
  · obtain ⟨_, -, same⟩ := of_map_ok ok
    cases same
  split at ok
  · obtain ⟨_, -, same⟩ := of_map_ok ok
    cases same
  split at ok
  · rename_i auipc
    refine ⟨auipc, ?_⟩
    obtain ⟨⟨resolved, paired⟩, checked, same⟩ := of_map_ok ok
    cases same
    unfold checkAuipc at checked
    split at checked
    · cases checked
    · rename_i rd imm parsed
      dsimp only at checked
      split at checked
      · obtain ⟨_, -, same⟩ := of_map_ok checked
        cases same
      · rename_i n offset bound
        obtain ⟨next, is, bound⟩ := Option.bind_eq_some_iff.mp bound
        obtain ⟨offset, used, same⟩ := Option.map_eq_some_iff.mp bound
        exact ⟨next, rd, imm, offset, is, parsed, used⟩
  split at ok
  · split at ok
    · split at ok <;> cases ok
    · cases ok
  · cases ok

/-- Every instruction was examined, or is the second half of a pair. -/
theorem checkFrom_covers {insns : List Insn} {i : Nat} {paired : List Nat} {r : List Resolved}
    (ok : checkFrom syms i paired insns = .ok r) (k : Nat) (insn : Insn) (at' : insns[k]? = some insn) :
    i + k ∈ paired ∨ (∃ r, examine syms insn insns[k + 1]? = .ok r) ∨
      ∃ j before found, k = j + 1 ∧ insns[j]? = some before ∧ examine syms before (some insn) = .ok (found, true) := by
  induction insns generalizing i paired k r with
  | nil => cases at'
  | cons head insns ih =>
    have next : insns.head? = (head :: insns)[1]? := by rw [List.getElem?_cons_succ, List.head?_eq_getElem?]
    rw [checkFrom] at ok
    by_cases skipped : i ∈ paired
    · rw [if_pos skipped] at ok
      cases k with
      | zero => exact .inl skipped
      | succ k =>
        rw [List.getElem?_cons_succ] at at'
        rcases ih ok k at' with earlier | examined | ⟨j, before, found, rfl, was, pairs⟩
        · exact .inl (by rwa [Nat.add_right_comm] at earlier)
        · exact .inr (.inl examined)
        · exact .inr (.inr ⟨j + 1, before, found, rfl, was, pairs⟩)
    · rw [if_neg skipped] at ok
      obtain ⟨⟨found, pairs⟩, examined, ok⟩ := of_bind_ok ok
      obtain ⟨later, ok, -⟩ := of_bind_ok ok
      cases k with
      | zero =>
        cases at'
        exact .inr (.inl ⟨_, next ▸ examined⟩)
      | succ k =>
        rw [List.getElem?_cons_succ] at at'
        rcases ih ok k at' with earlier | examined | ⟨j, before, found, rfl, was, pairs⟩
        · cases pairs with
          | false => exact .inl (by rwa [Nat.add_right_comm] at earlier)
          | true =>
            -- the index added is that of the first instruction of the rest
            rcases List.mem_cons.mp earlier with here | earlier
            · obtain rfl : k = 0 := by omega
              rw [next, List.getElem?_cons_succ, at'] at examined
              exact .inr (.inr ⟨0, head, found, rfl, rfl, examined⟩)
            · exact .inl (by rwa [Nat.add_right_comm] at earlier)
        · exact .inr (.inl examined)
        · exact .inr (.inr ⟨j + 1, before, found, rfl, was, pairs⟩)

/-- A use in the next instruction is seen, unless it is the compressed addition. -/
theorem window_of_baseUse {rd : Reg} {offset : Int} (used : baseUse next = some (rd, offset)) (plain : next.op ≠ "c.addi") :
    window (.reg rd) next = some offset := by
  unfold baseUse at used
  unfold window
  -- `baseUse` and `window` ask for the kinds of instruction in the same order.
  by_cases add : next.op = "addi"
  · rw [if_pos add] at used
    rw [if_pos (by rw [add]; decide)]
    split at used
    · rename_i shape
      cases used
      rw [shape]
      exact if_pos rfl
    · cases used
  rw [if_neg add, if_neg plain] at used
  by_cases mem : next.op ∈ loadStore
  · have other : ∀ op ∈ loadStore, op ∉ ["addi", "addiw"] := by decide +kernel
    rw [if_pos mem] at used
    rw [if_neg (other _ mem), if_pos mem]
    obtain ⟨⟨first, off, base⟩, parsed, same⟩ := Option.map_eq_some_iff.mp used
    cases same
    rw [parsed]
    exact if_pos rfl
  rw [if_neg mem] at used
  by_cases jump : next.op ∈ indirectJumps
  · have other : ∀ op ∈ indirectJumps, op ∉ ["addi", "addiw"] := by decide +kernel
    rw [if_pos jump] at used
    rw [if_neg (other _ jump), if_neg mem, if_pos jump]
    split at used
    · rename_i parsed
      cases used
      rw [parsed]
      exact if_pos rfl
    · cases used
  · rw [if_neg jump] at used
    cases used

theorem op_of_window {offset : Int} (used : window rd next = some offset) :
    isFp next.op = false ∧ next.op ∉ branch ∧ next.op ∉ directJumps ∧ next.op ≠ "auipc" := by
  have others : ∀ op ∈ ["addi", "addiw"] ++ loadStore ++ indirectJumps,
      isFp op = false ∧ op ∉ branch ∧ op ∉ directJumps ∧ op ≠ "auipc" := by decide +kernel
  refine others _ ?_
  rw [List.mem_append, List.mem_append]
  unfold window at used
  split at used
  · rename_i add
    exact .inl (.inl add)
  split at used
  · rename_i mem
    exact .inl (.inr mem)
  split at used
  · rename_i jump
    exact .inr jump
  · cases used

end

/-- No instruction that is paired with the `auipc` before it names gp or tp. -/
def PairsClean (insns : List Insn) : Prop :=
  ∀ i insn next rd imm offset, insns[i]? = some insn → insns[i + 1]? = some next → insn.op = "auipc" →
    parseRegImm insn.args = some (rd, imm) → window rd next = some offset → next.namesGpTp = false

/-- The uses whose address is not the one that was checked are in user ranges: those further on, the compressed
additions, and those of an `auipc` whose printed immediate is not its value. -/
def FarUses (syms : Symbols) (insns : List Insn) : Prop :=
  ∀ i j use imm addr, UsedAt insns i j use imm addr →
    j ≠ i + 1 ∨ use.op = "c.addi" ∨ imm.bmod (2 ^ 20) ≠ imm → InUser syms addr

/-- What the checker accepts is sound exactly when the instructions it does not look at are. -/
theorem check_sound_iff {syms : Symbols} {insns : List Insn} {r : List Resolved} (ok : check syms insns = .ok r) :
    Sound syms insns ↔ PairsClean insns ∧ FarUses syms insns := by
  unfold check at ok
  split at ok
  · cases ok
  have covers (k : Nat) (insn : Insn) (at' : insns[k]? = some insn) :
      (∃ r, examine syms insn insns[k + 1]? = .ok r) ∨ ∃ j before rd imm offset, k = j + 1 ∧ insns[j]? = some before ∧
        before.op = "auipc" ∧ parseRegImm before.args = some (rd, imm) ∧ window rd insn = some offset := by
    rcases checkFrom_covers ok k insn at' with none | examined | ⟨j, before, found, shift, was, pairs⟩
    · exact absurd none List.not_mem_nil
    · exact .inl examined
    · obtain ⟨auipc, next, rd, imm, offset, same, parsed, used⟩ := examine_pairs pairs
      cases same
      exact .inr ⟨j, before, rd, imm, offset, shift, was, auipc, parsed, used⟩
  constructor
  · intro sound
    refine ⟨fun i insn next rd imm offset _ at' _ _ _ => ?_, fun i j use imm addr used _ => sound.uses i j use imm addr used⟩
    exact (sound.names next (List.mem_of_getElem? at')).1
  rintro ⟨pairs, far⟩
  refine ⟨fun insn mem => ?_, fun insn mem direct => ?_, fun i j use imm addr used => ?_⟩
  · obtain ⟨k, at'⟩ := List.getElem?_of_mem mem
    rcases covers k insn at' with ⟨r, examined⟩ | ⟨j, before, rd, imm, offset, rfl, was, auipc, parsed, used⟩
    · exact examine_names examined
    · exact ⟨pairs j before insn rd imm offset was at' auipc parsed used, (op_of_window used).1⟩
  · obtain ⟨k, at'⟩ := List.getElem?_of_mem mem
    rcases covers k insn at' with ⟨r, examined⟩ | ⟨j, before, rd, imm, offset, -, -, -, -, used⟩
    · exact examine_target examined direct
    · obtain ⟨-, notBranch, notJump, -⟩ := op_of_window used
      exact (direct.elim notBranch notJump).elim
  · by_cases hidden : j ≠ i + 1 ∨ use.op = "c.addi" ∨ imm.bmod (2 ^ 20) ≠ imm
    · exact far i j use imm addr used hidden
    simp only [not_or, Ne, not_not] at hidden
    obtain ⟨rfl, plain, printed⟩ := hidden
    obtain ⟨insn, rd, offset, at', auipc, parsed, next, base, -, rfl⟩ := used
    -- an auipc is never the second half of a pair
    rcases covers i insn at' with ⟨r, examined⟩ | ⟨_, _, _, _, _, _, _, _, _, paired⟩
    · rw [next] at examined
      rw [← wrap_auipcVal printed]
      exact examine_auipc examined auipc parsed (window_of_baseUse base plain)
    · exact absurd auipc (op_of_window paired).2.2.2

def onePage : Symbols := ⟨[⟨".utext", 0x80228000, 0x80229000⟩], 0x80228000⟩

def farLoad : List Insn :=
  [⟨0x80228000, "auipc", [.reg .a0, .num 0 true]⟩, ⟨0x80228004, "addi", [.reg .a1, .reg .a0, .num 0x10 true]⟩,
    ⟨0x80228008, "ld", [.reg .a2, .mem 0x18 true .a0]⟩]

theorem check_sound_iff_farLoad : Sound onePage farLoad ∧
    UsedAt farLoad 0 2 ⟨0x80228008, "ld", [.reg .a2, .mem 0x18 true .a0]⟩ 0 0x80228018 := by
  have ok : check onePage farLoad = .ok [⟨0x80228000, "auipc+addi", 0x80228010, ".utext"⟩] := by decide +kernel
  refine ⟨(check_sound_iff ok).mpr ⟨fun i insn next rd imm offset _ at' _ _ _ => ?_,
    fun i j use imm addr used _ => ?_⟩, ?_⟩
  · have clean : ∀ insn ∈ farLoad, insn.namesGpTp = false := by decide +kernel
    exact clean next (List.mem_of_getElem? at')
  · obtain ⟨insn, rd, offset, at', auipc, parsed, there, base, -, rfl⟩ := used
    have first : insn = ⟨0x80228000, "auipc", [.reg .a0, .num 0 true]⟩ := by
      have only : ∀ insn ∈ farLoad, insn.op = "auipc" → insn = ⟨0x80228000, "auipc", [.reg .a0, .num 0 true]⟩ := by
        decide +kernel
      exact only insn (List.mem_of_getElem? at') auipc
    subst first
    cases parsed
    have near : ∀ use ∈ farLoad, ∀ b ∈ baseUse use, 0 ≤ b.2 ∧ b.2 < 0x1000 := by decide +kernel
    obtain ⟨low, high⟩ := near use (List.mem_of_getElem? there) _ base
    refine ⟨_, List.mem_singleton_self _, ?_⟩
    have zero : Int.bmod 0 (2 ^ 20) = 0 := by decide
    simp only [zero]
    omega
  · refine ⟨_, .a0, 0x18, rfl, rfl, rfl, rfl, by decide +kernel, ⟨by decide, fun k low high => ?_⟩, by decide +kernel⟩
    obtain rfl : k = 1 := by omega
    exact ⟨_, rfl, by decide +kernel, by decide +kernel⟩

/-- A register shared by a store of gp and a load from below the user's text. -/
def sharedBase : List Insn :=
  [⟨0x80228000, "auipc", [.reg .a0, .num 0 true]⟩, ⟨0x80228004, "sd", [.reg .gp, .mem 0 true .a0]⟩,
    ⟨0x80228008, "ld", [.reg .a1, .mem (-0x8) true .a0]⟩]

/-- The checker accepts it: the store is the second half of a pair and the load comes later. -/
theorem check_sharedBase :
    check onePage sharedBase = .ok [⟨0x80228000, "auipc+sd", 0x80228000, ".utext"⟩] ∧
    (∃ insn ∈ sharedBase, insn.namesGpTp = true) ∧
    UsedAt sharedBase 0 2 ⟨0x80228008, "ld", [.reg .a1, .mem (-0x8) true .a0]⟩ 0 0x80227ff8 ∧
    ¬ InUser onePage 0x80227ff8 ∧ ¬ Sound onePage sharedBase := by
  have outside : ¬ InUser onePage 0x80227ff8 := by decide +kernel
  have used : UsedAt sharedBase 0 2 ⟨0x80228008, "ld", [.reg .a1, .mem (-0x8) true .a0]⟩ 0 0x80227ff8 := by
    refine ⟨_, .a0, -0x8, rfl, rfl, rfl, rfl, by decide +kernel, ⟨by decide, fun k low high => ?_⟩, by decide +kernel⟩
    obtain rfl : k = 1 := by omega
    exact ⟨_, rfl, by decide +kernel, by decide +kernel⟩
  exact ⟨by decide +kernel, by decide +kernel, used, outside, fun sound => outside (sound.uses _ _ _ _ _ used)⟩

end Whimbrel.Utext

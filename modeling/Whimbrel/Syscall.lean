import Whimbrel.Tcp.Delivery
import Whimbrel.Uaccess

/-! System calls: `src/syscall.rs`, and the condition under which each is contained. -/

set_option autoImplicit false

namespace Whimbrel

open Checked Uaccess
open Trap (TrapFrame)

/-- What a handler finds in the CSRs and at the device. -/
structure Env where
  sscratch : Usize
  scause : Usize
  stval : Usize
  sstatus : Usize
  /-- `rdtime`. -/
  now : Usize
  /-- The used entries a poll of the NIC finds. -/
  received : List Net.Completion

namespace Syscall

def sysWrite : Usize := 1
def sysExit : Usize := 2
def sysSbrk : Usize := 3
def sysGettime : Usize := 4
def sysYield : Usize := 5
def sysRecv : Usize := 6
def sysSend : Usize := 7

def ok : Usize := 0
def errInvalidParam : Usize := -1
def errInvalidAddress : Usize := -2
def errNoMem : Usize := -3
def errAgain : Usize := -4

end Syscall

namespace Kernel

variable (cfg : Config) (lay : Layout) (platform : Platform) (env : Env) (k : Kernel) (frame : Usize)

def a0 : Usize := (k.frames frame).x Asm.Reg.a0
def a1 : Usize := (k.frames frame).x Asm.Reg.a1
def a2 : Usize := (k.frames frame).x Asm.Reg.a2
def a7 : Usize := (k.frames frame).x Asm.Reg.a7

def setRetval (error value : Usize) : Kernel :=
  let f := k.frames frame
  k.setFrame frame { f with x := Function.update (Function.update f.x Asm.Reg.a0 error) Asm.Reg.a1 value }

def advanceEcall : Result Kernel := do
  let f := k.frames frame
  let sepc ← addUsize cfg f.sepc 4
  return k.setFrame frame { f with sepc }

/-- `advance_ecall(frame); frame.set_retval(..); frame`. -/
def answer (error value : Usize) : Result (Kernel × Outcome) := do
  let k ← k.advanceEcall cfg frame
  return (k.setRetval frame error value, .resume frame)

/-! ## The calls -/

def killInvalidPtr : Result (Kernel × Outcome) := do
  let k := k.setRetval frame Syscall.errInvalidAddress 0
  let k ← k.killInvalidUserPtr
  k.stopUntilScheduler platform

def sysWrite : Result (Kernel × Outcome) := do
  let (slot, t) ← k.current
  match ← copyFromUser lay k.mem t (k.a0 frame) (k.a1 frame) with
  | .ok bytes =>
    let writes ← addUsize cfg t.writes 1
    let k := k.put slot { t with writes }
    let k := { k with console := k.console ++ bytes }
    k.answer cfg frame Syscall.ok (addr bytes.length)
  | .error _ => k.killInvalidPtr platform frame

def sysExit : Result (Kernel × Outcome) := do
  let (_, t) ← k.current
  let k ← k.exitCurrent (k.a0 frame)
  k.afterExit cfg platform t.id

def checkedAddSigned (old delta : Usize) : Option Usize :=
  let sum := (old.toNat : Int) + delta.toInt
  if 0 ≤ sum ∧ sum < 2 ^ 64 then some (old + delta) else none

def sysSbrk : Result (Kernel × Outcome) := do
  let (slot, t) ← k.current
  match checkedAddSigned t.brk (k.a0 frame) with
  | none => k.answer cfg frame Syscall.errNoMem t.brk
  | some new =>
    if new > t.brkWall ∨ new < t.brkBase then k.answer cfg frame Syscall.errNoMem t.brk
    else (k.put slot { t with brk := new }).answer cfg frame Syscall.ok t.brk

def sysGettime : Result (Kernel × Outcome) := k.answer cfg frame Syscall.ok env.now

def sysYield : Result (Kernel × Outcome) := do
  let k ← k.advanceEcall cfg frame
  (k.setRetval frame Syscall.ok 0).yieldCpu cfg frame

def poll : Result Kernel := do
  let (net, _) ← Net.pollRx cfg platform k.net env.received
  return { k with net := ← Net.pumpTcp cfg platform net env.now }

def recvCopy (t : Task) (ncap : Nat) (payload : List U8) (tcp : Bool) : Result (Kernel × Outcome) := do
  let n := min payload.length ncap
  match ← copyToUser lay k.mem t (k.a0 frame) (← slice payload 0 n) with
  | .ok (mem, n) =>
    let k := { k with mem }
    let k := { k with net := ← Net.exec cfg platform k.net (if tcp then .tcpConsume else .udpConsume) }
    k.answer cfg frame Syscall.ok (addr n)
  | .error _ => k.killInvalidPtr platform frame

def tcpEof : Result (Kernel × Bool) := do
  let (tcp, l) ← Tcp.exec cfg k.net.tcp .takeEof
  return ({ k with net := { k.net with tcp } }, l.eof)

/-- `sys_recv` once the buffer has been checked. -/
def recvChecked (t : Task) (ncap : Nat) : Result (Kernel × Outcome) := do
  let k ← k.poll cfg platform env
  match ← Tcp.pending k.net.tcp.tcb with
  | some payload => k.recvCopy cfg lay platform frame t ncap payload true
  | none =>
    let (k, eof) ← k.tcpEof cfg
    if eof then k.answer cfg frame Syscall.ok 0
    else if k.net.udpPending then k.recvCopy cfg lay platform frame t ncap k.net.udpData false
    else k.answer cfg frame Syscall.errAgain 0

def sysRecv : Result (Kernel × Outcome) := do
  let (_, t) ← k.current
  let ncap := min (k.a1 frame).toNat copyMax
  match ← checkRange lay t (k.a0 frame) ncap .write with
  | .error _ => k.killInvalidPtr platform frame
  | .ok () => k.recvChecked cfg lay platform env frame t ncap

/-- TCP if the connection takes the bytes, else UDP. -/
def sendBytes (bytes : List U8) (flags : Usize) : Result (Kernel × Bool) := do
  let (net, sent) ← Net.tcpSend cfg platform k.net env.now bytes flags
  if sent then return ({ k with net }, true)
  let (net, sent) ← Net.udpSend net bytes
  return ({ k with net }, sent)

def sysSend : Result (Kernel × Outcome) := do
  let (_, t) ← k.current
  match ← copyFromUser lay k.mem t (k.a0 frame) (k.a1 frame) with
  | .ok bytes =>
    let (k, sent) ← k.sendBytes cfg platform env bytes (k.a2 frame)
    if sent then k.answer cfg frame Syscall.ok (addr bytes.length)
    else k.answer cfg frame Syscall.errInvalidParam 0
  | .error _ => k.killInvalidPtr platform frame

def fromEcall : Result (Kernel × Outcome) := do
  if env.sstatus &&& Sstatus.sum ≠ 0 then throw .sumSet
  let num := k.a7 frame
  if num = Syscall.sysWrite then k.sysWrite cfg lay platform frame
  else if num = Syscall.sysExit then k.sysExit cfg platform frame
  else if num = Syscall.sysSbrk then k.sysSbrk cfg frame
  else if num = Syscall.sysGettime then k.sysGettime cfg env frame
  else if num = Syscall.sysYield then k.sysYield cfg frame
  else if num = Syscall.sysRecv then k.sysRecv cfg lay platform env frame
  else if num = Syscall.sysSend then k.sysSend cfg lay platform env frame
  else do
    let (k, id) ← k.killUnknownSyscall
    k.afterExit cfg platform id

end Kernel

/-! ## Containment -/

def AddSafe (cfg : Config) (a b : Usize) : Prop := cfg.dev → a.toNat + b.toNat < 2 ^ 64

instance (cfg : Config) (a b : Usize) : Decidable (AddSafe cfg a b) :=
  inferInstanceAs (Decidable (cfg.dev = true → a.toNat + b.toNat < 2 ^ 64))

/-- The connection takes the bytes, or a UDP peer is known and its frame can be built. -/
def SendSafe (net : Net.Statics) (len : Nat) : Prop :=
  Tcp.takesSend net.tcp.tcb len ∨
    (net.udpPeer → Arp.lookup net.arp.cache gwIp ≠ none ∧ len ≤ Net.udpRoom)

instance (net : Net.Statics) (len : Nat) : Decidable (SendSafe net len) :=
  inferInstanceAs (Decidable (Tcp.takesSend net.tcp.tcb len = true ∨
    (net.udpPeer = true → Arp.lookup net.arp.cache gwIp ≠ none ∧ len ≤ Net.udpRoom)))

namespace Kernel

section
variable {cfg : Config} {lay : Layout} {platform : Platform} {env : Env} {k m u : Kernel} {c : Nat} {t s : Task}
variable {safe : Prop}

theorem Settles.of_returns {x : Result (Kernel × Outcome)} (returns : Returns x (Handled lay k)) :
    Settles lay k True x :=
  ⟨fun _ => returns, fun bad => absurd trivial bad⟩

theorem Settles.bind_iff {α : Type} {x : Result α} {first : Prop} {f : α → Result (Kernel × Outcome)}
    (exact_ : (∃ a, x = .ok a) ↔ first) (rest : ∀ a, x = .ok a → Settles lay k safe (f a)) :
    Settles lay k (first ∧ safe) (x >>= f) := by
  by_cases holds : first
  · obtain ⟨a, done⟩ := exact_.mpr holds
    have settled := rest a done
    rw [done, bind_ok]
    exact ⟨fun both => settled.1 both.2, fun bad => settled.2 fun rest => bad ⟨holds, rest⟩⟩
  · refine ⟨fun both => absurd both.1 holds, fun _ r done => ?_⟩
    obtain ⟨a, ran, -⟩ := bind_eq_ok done
    exact absurd (exact_.mp ⟨a, ran⟩) holds

theorem addUsize_ok_iff {a b : Usize} : (∃ r, addUsize cfg a b = .ok r) ↔ AddSafe cfg a b := by
  unfold addUsize AddSafe
  split
  · rename_i wraps
    exact ⟨fun ⟨_, done⟩ => (by cases done), fun fits => absurd (fits wraps.1) (Nat.not_lt.mpr wraps.2)⟩
  · rename_i fits
    exact ⟨fun _ dev => Nat.lt_of_not_le fun wraps => fits ⟨dev, wraps⟩, fun _ => ⟨_, rfl⟩⟩

/-- `m` is `k` but for the running task's own data. -/
structure Stays (lay : Layout) (k m : Kernel) (c : Nat) (s : Task) : Prop where
  sound : Sound lay m
  runs : Runs m c s
  others : ∀ {id}, id ≠ c → m.tasks id = k.tasks id

theorem Runs.stays (runs : Runs k c t) (sound : Sound lay k) : Stays lay k k c t := ⟨sound, runs, fun _ => rfl⟩

theorem Stays.trans (first : Stays lay k m c t) (second : Stays lay m u c s) : Stays lay k u c s :=
  ⟨second.sound, second.runs, fun away => (second.others away).trans (first.others away)⟩

theorem Runs.put (runs : Runs k c t) (sound : Sound lay k) {t' : Task} (inv : t'.Inv lay c)
    (running : t'.state = .running) : Stays lay k (k.put c t') c t' :=
  ⟨sound.put runs.task inv fun _ => runs.cur, ⟨runs.cur, runs.known, by simp [Kernel.put], running⟩,
    fun away => by simp [Kernel.put, away]⟩

theorem Runs.setNet (runs : Runs k c t) (sound : Sound lay k) {net : Net.Statics} (inv : Net.Inv net) :
    Stays lay k { k with net } c t :=
  ⟨⟨sound.made, sound.task, sound.status, sound.alone, inv⟩, ⟨runs.cur, runs.known, runs.task, runs.running⟩,
    fun _ => rfl⟩

theorem Runs.setConsole (runs : Runs k c t) (sound : Sound lay k) (console : List U8) :
    Stays lay k { k with console } c t :=
  ⟨⟨sound.made, sound.task, sound.status, sound.alone, sound.net⟩, ⟨runs.cur, runs.known, runs.task, runs.running⟩,
    fun _ => rfl⟩

theorem Runs.setTicks (runs : Runs k c t) (sound : Sound lay k) (ticks : Usize) : Stays lay k { k with ticks } c t :=
  ⟨⟨sound.made, sound.task, sound.status, sound.alone, sound.net⟩, ⟨runs.cur, runs.known, runs.task, runs.running⟩,
    fun _ => rfl⟩

theorem Runs.setMem (runs : Runs k c t) (sound : Sound lay k) (mem : Asm.Memory) : Stays lay k { k with mem } c t :=
  ⟨⟨sound.made, sound.task, sound.status, sound.alone, sound.net⟩, ⟨runs.cur, runs.known, runs.task, runs.running⟩,
    fun _ => rfl⟩

theorem Runs.setFrame (runs : Runs k c t) (sound : Sound lay k) {frame : Usize} {f : TrapFrame}
    (status : f.sstatus = fabricatedSstatus) : Stays lay k (k.setFrame frame f) c t :=
  ⟨sound.setFrame status, ⟨runs.cur, runs.known, runs.task, runs.running⟩, fun _ => rfl⟩

theorem Stays.frame (stays : Stays lay k m c s) (sound : Sound lay k) (runs : Runs k c t) : s.frame = t.frame :=
  (stays.sound.task stays.runs.task).frame.trans (sound.task runs.task).frame.symm

theorem Stays.spared (stays : Stays lay k m c s) (runs : Runs k c t) {i : Nat} (other : k.cur ≠ some i) :
    m.tasks i = k.tasks i :=
  stays.others fun same => other (by rw [runs.cur, same])

theorem Stays.anyReady_eq (stays : Stays lay k m c s) (runs : Runs k c t) : m.anyReady = k.anyReady := by
  refine anyReady_congr fun id => ?_
  by_cases here : id = c
  · rw [here]
    exact ⟨fun ready => absurd ready stays.runs.not_readyAt, fun ready => absurd ready runs.not_readyAt⟩
  · rw [ReadyAt, ReadyAt, stays.others here]

theorem Stays.handled (stays : Stays lay k m c s) (sound : Sound lay k) (runs : Runs k c t) :
    Handled lay k (m, .resume t.frame) := by
  refine ⟨?_, fun frame same => ?_⟩
  · exact .resume runs.task (.inr runs.cur) stays.runs.cur stays.runs.task stays.runs.running
      fun i other => .inl (stays.spared runs other)
  · cases same
    exact ⟨stays.sound, c, s, stays.runs, stays.frame sound runs⟩

theorem Stays.lift (stays : Stays lay k m c s) (sound : Sound lay k) (runs : Runs k c t) {r : Kernel × Outcome}
    (handled : Handled lay m r) : Handled lay k r := by
  obtain ⟨u, o⟩ := r
  refine ⟨?_, handled.2⟩
  have contained : Contained m u o := handled.1
  have cur : m.cur = k.cur := stays.runs.cur.trans runs.cur.symm
  cases contained with
  | @resume id t0 t1 was eligible now task running others =>
    have spared (i : Nat) (other : k.cur ≠ some i) : Spared k u i := by
      have left := others i (cur ▸ other)
      rw [Spared, stays.spared runs other] at left
      exact left
    by_cases here : id = c
    · subst here
      rw [stays.runs.task, Option.some.injEq] at was
      subst was
      rw [stays.frame sound runs]
      exact .resume runs.task (.inr runs.cur) now task running spared
    · rw [stays.others here] at was
      exact .resume was (cur ▸ eligible) now task running spared
  | shutdown idle others =>
    refine .shutdown (stays.anyReady_eq runs ▸ idle) fun i other => ?_
    rw [others i (cur ▸ other), stays.spared runs other]

theorem Stays.lift_settles (stays : Stays lay k m c s) (sound : Sound lay k) (runs : Runs k c t)
    {x : Result (Kernel × Outcome)} (settles : Settles lay m safe x) : Settles lay k safe x :=
  ⟨fun holds => (settles.1 holds).mono fun _ handled => stays.lift sound runs handled,
    fun fails => stays.anyReady_eq runs ▸ settles.2 fails⟩

theorem Runs.setRetval (runs : Runs k c t) (sound : Sound lay k) (error value : Usize) :
    Stays lay k (k.setRetval t.frame error value) c t :=
  runs.setFrame sound (sound.status runs.task)

theorem Runs.advanceEcall (runs : Runs k c t) (sound : Sound lay k) {u : Kernel}
    (done : k.advanceEcall cfg t.frame = .ok u) : Stays lay k u c t := by
  obtain ⟨sepc, -, done⟩ := bind_eq_ok done
  cases done
  exact runs.setFrame sound (sound.status runs.task)

theorem advanceEcall_ok_iff {frame : Usize} :
    (∃ u, k.advanceEcall cfg frame = .ok u) ↔ AddSafe cfg (k.frames frame).sepc 4 := by
  rw [← addUsize_ok_iff]
  constructor
  · rintro ⟨u, done⟩
    obtain ⟨sepc, sum, -⟩ := bind_eq_ok done
    exact ⟨sepc, sum⟩
  · rintro ⟨sepc, sum⟩
    exact ⟨_, by rw [advanceEcall, sum]; rfl⟩

theorem answer_settles (sound : Sound lay k) (runs : Runs k c t) (error value : Usize) :
    Settles lay k (AddSafe cfg (k.frames t.frame).sepc 4) (k.answer cfg t.frame error value) := by
  rw [← and_true (AddSafe cfg _ _)]
  refine .bind_iff advanceEcall_ok_iff fun u done => ?_
  have stays := runs.advanceEcall sound done
  exact .of_returns (.ok ((stays.trans (stays.runs.setRetval stays.sound error value)).handled sound runs))

theorem Stays.answer_settles (stays : Stays lay k m c s) (sound : Sound lay k) (runs : Runs k c t)
    (frames : m.frames = k.frames) (error value : Usize) :
    Settles lay k (AddSafe cfg (k.frames t.frame).sepc 4) (m.answer cfg t.frame error value) := by
  rw [← stays.frame sound runs, ← frames]
  exact stays.lift_settles sound runs (Kernel.answer_settles stays.sound stays.runs error value)

theorem killInvalidPtr_eq (answers : platform.Answers) (runs : Runs k c t) :
    k.killInvalidPtr platform t.frame =
      .ok ((k.setRetval t.frame Syscall.errInvalidAddress 0).ended c t, .shutdown) := by
  have marked : (k.setRetval t.frame Syscall.errInvalidAddress 0).markExited =
      .ok ((k.setRetval t.frame Syscall.errInvalidAddress 0).ended c t, t.id) :=
    Runs.markExited ⟨runs.cur, runs.known, runs.task, runs.running⟩
  rw [killInvalidPtr, killInvalidUserPtr, marked]
  exact stopUntilScheduler_eq answers

/-- An invalid pointer ends the machine, whoever else is Ready. -/
theorem killInvalidPtr_settles (answers : platform.Answers) (sound : Sound lay k) (runs : Runs k c t) :
    Settles lay k (k.anyReady = false) (k.killInvalidPtr platform t.frame) := by
  have stays := runs.setRetval sound Syscall.errInvalidAddress 0
  obtain ⟨parked, -, -⟩ := stays.runs.ended stays.sound (stays.sound.task stays.runs.task) rfl
  rw [killInvalidPtr_eq answers runs]
  refine ⟨fun idle => .ok ⟨.shutdown idle fun i other => ?_, fun _ same => by cases same⟩, fun busy r done => ?_⟩
  · exact parked.others fun same => other (by rw [runs.cur, same])
  · cases done
    exact ⟨rfl, by simpa using busy⟩

theorem Settles.ite {p : Prop} [Decidable p] {yes no : Prop} {x : Result (Kernel × Outcome)}
    (accepted : p → Settles lay k yes x) (refused : ¬ p → Settles lay k no x) :
    Settles lay k (if p then yes else no) x := by
  by_cases holds : p
  · rw [if_pos holds]
    exact accepted holds
  · rw [if_neg holds]
    exact refused holds

theorem copyFromUser_admitted (sound : Sound lay k) (runs : Runs k c t)
    (ok : rangeOk lay t (k.a0 t.frame) (copyLen (k.a1 t.frame)) .read) :
    ∃ bytes, copyFromUser lay k.mem t (k.a0 t.frame) (k.a1 t.frame) = .ok (.ok bytes) ∧
      bytes.length = copyLen (k.a1 t.frame) := by
  obtain ⟨r, copied, result⟩ :=
    copyFromUser_returns (sound.task runs.task) runs.known k.mem (k.a0 t.frame) (k.a1 t.frame)
  rw [if_pos ok] at result
  obtain ⟨bytes, rfl, length⟩ := result
  exact ⟨bytes, copied, length⟩

theorem copyFromUser_refused (sound : Sound lay k) (runs : Runs k c t)
    (bad : ¬ rangeOk lay t (k.a0 t.frame) (copyLen (k.a1 t.frame)) .read) :
    ∃ e, copyFromUser lay k.mem t (k.a0 t.frame) (k.a1 t.frame) = .ok (.error e) := by
  obtain ⟨r, copied, result⟩ :=
    copyFromUser_returns (sound.task runs.task) runs.known k.mem (k.a0 t.frame) (k.a1 t.frame)
  rw [if_neg bad] at result
  obtain ⟨e, rfl⟩ := result
  exact ⟨e, copied⟩

theorem sysWrite_refused (sound : Sound lay k) (runs : Runs k c t)
    (bad : ¬ rangeOk lay t (k.a0 t.frame) (copyLen (k.a1 t.frame)) .read) :
    k.sysWrite cfg lay platform t.frame = k.killInvalidPtr platform t.frame := by
  obtain ⟨e, copied⟩ := copyFromUser_refused sound runs bad
  rw [sysWrite, runs.current, bind_ok]
  dsimp only
  rw [copied, bind_ok]

theorem sysWrite_settles (answers : platform.Answers) (sound : Sound lay k) (runs : Runs k c t) :
    Settles lay k (if rangeOk lay t (k.a0 t.frame) (copyLen (k.a1 t.frame)) .read then
        AddSafe cfg t.writes 1 ∧ AddSafe cfg (k.frames t.frame).sepc 4 else k.anyReady = false)
      (k.sysWrite cfg lay platform t.frame) := by
  refine .ite (fun ok => ?_) (fun bad => ?_)
  · have inv := sound.task runs.task
    obtain ⟨bytes, copied, -⟩ := copyFromUser_admitted sound runs ok
    rw [sysWrite, runs.current, bind_ok]
    dsimp only
    rw [copied, bind_ok]
    refine .bind_iff addUsize_ok_iff fun writes _ => ?_
    have inv' : Task.Inv lay c { t with writes } := { inv with }
    have stays := runs.put sound inv' runs.running
    exact (stays.trans (stays.runs.setConsole stays.sound _)).answer_settles sound runs rfl _ _
  · rw [sysWrite_refused sound runs bad]
    exact killInvalidPtr_settles answers sound runs

theorem Runs.sysExit_eq (runs : Runs k c t) :
    k.sysExit cfg platform t.frame = (k.ended c { t with exitCode := k.a0 t.frame }).afterExit cfg platform t.id := by
  have stored : Runs (k.put c { t with exitCode := k.a0 t.frame }) c { t with exitCode := k.a0 t.frame } :=
    ⟨runs.cur, runs.known, by simp [Kernel.put], runs.running⟩
  have twice : (k.put c { t with exitCode := k.a0 t.frame }).ended c { t with exitCode := k.a0 t.frame } =
      k.ended c { t with exitCode := k.a0 t.frame } := by simp [Kernel.ended, Kernel.put]
  rw [sysExit, runs.current, bind_ok]
  dsimp only
  rw [exitCurrent, runs.current, bind_ok]
  dsimp only
  rw [stored.markExited, twice]
  rfl

theorem sysExit_settles (answers : platform.Answers) (sound : Sound lay k) (runs : Runs k c t) :
    Settles lay k (EndSafe cfg k) (k.sysExit cfg platform t.frame) := by
  have inv : Task.Inv lay c { t with exitCode := k.a0 t.frame } := { sound.task runs.task with }
  obtain ⟨parked, gone, writes⟩ := runs.ended sound inv rfl
  rw [runs.sysExit_eq]
  exact parked.afterExit_settles answers sound runs gone writes t.id

theorem sysSbrk_settles (sound : Sound lay k) (runs : Runs k c t) :
    Settles lay k (AddSafe cfg (k.frames t.frame).sepc 4) (k.sysSbrk cfg t.frame) := by
  rw [sysSbrk, runs.current, bind_ok]
  dsimp only
  cases checkedAddSigned t.brk (k.a0 t.frame) with
  | none => exact answer_settles sound runs _ _
  | some new =>
    dsimp only
    split
    · exact answer_settles sound runs _ _
    · rename_i inside
      rw [not_or, BitVec.not_lt, BitVec.not_lt] at inside
      have inv : Task.Inv lay c { t with brk := new } :=
        { sound.task runs.task with above := inside.2, below := inside.1 }
      exact (runs.put sound inv runs.running).answer_settles sound runs rfl _ _

theorem yieldCpu_settles (sound : Sound lay k) (runs : Runs k c t) :
    Settles lay k (AddSafe cfg t.yields 1) (k.yieldCpu cfg t.frame) := by
  rw [yieldCpu, runs.current, bind_ok, ← and_true (AddSafe cfg _ _)]
  refine .bind_iff addUsize_ok_iff fun yields _ => ?_
  have inv : Task.Inv lay c { t with yields } := { sound.task runs.task with }
  have stays := runs.put sound inv runs.running
  have switched := preempt_returns stays.sound stays.runs
  exact stays.lift_settles sound runs (.of_returns switched)

theorem sysYield_settles (sound : Sound lay k) (runs : Runs k c t) :
    Settles lay k (AddSafe cfg (k.frames t.frame).sepc 4 ∧ AddSafe cfg t.yields 1) (k.sysYield cfg t.frame) := by
  refine .bind_iff advanceEcall_ok_iff fun u done => ?_
  have advanced := runs.advanceEcall sound done
  have stays := advanced.trans (advanced.runs.setRetval advanced.sound Syscall.ok 0)
  exact stays.lift_settles sound runs (yieldCpu_settles stays.sound stays.runs)

def PollSafe (cfg : Config) (net : Net.Statics) (received : List Net.Completion) : Prop :=
  Net.Answerable net.arp.cache received ∧ (cfg.dev → received.length < 2 ^ 32)

instance (cfg : Config) (net : Net.Statics) (received : List Net.Completion) : Decidable (PollSafe cfg net received) :=
  inferInstanceAs (Decidable (_ ∧ (cfg.dev = true → _)))

theorem poll_ok_iff (answers : platform.Answers) (inv : Net.Inv k.net)
    (ids : ∀ e ∈ env.received, e.id.toNat < Net.rxBufs) :
    (∃ u, k.poll cfg platform env = .ok u) ↔ PollSafe cfg k.net env.received := by
  rw [PollSafe, ← @Net.pollRx_ok_iff cfg platform k.net inv env.received ids]
  constructor
  · rintro ⟨u, done⟩
    obtain ⟨r, polled, -⟩ := bind_eq_ok done
    exact ⟨r, polled⟩
  · rintro ⟨r, polled⟩
    obtain ⟨net, pumped, -⟩ := @Net.pumpTcp_returns cfg platform r.1 env.now answers (inv.pollRx polled)
    exact ⟨{ k with net }, by rw [poll, polled, bind_ok]; simp only [pumped, bind_ok, pure_eq_ok]⟩

theorem poll_net (inv : Net.Inv k.net) (done : k.poll cfg platform env = .ok u) :
    ∃ net, Net.Inv net ∧ u = { k with net } := by
  obtain ⟨r, polled, done⟩ := bind_eq_ok done
  obtain ⟨net, pumped, done⟩ := bind_eq_ok done
  cases done
  have step : Net.Step cfg platform r.1 (.pumpTcp env.now) net := pumped
  exact ⟨net, (inv.pollRx polled).step step, rfl⟩

theorem recvCopy_admitted (sound : Sound lay k) (runs : Runs k c t) {ncap : Nat}
    (ok : rangeOk lay t (k.a0 t.frame) ncap .write) (payload : List U8) (tcp : Bool) :
    ∃ mem n, k.recvCopy cfg lay platform t.frame t ncap payload tcp =
      (Net.exec cfg platform k.net (if tcp then .tcpConsume else .udpConsume) >>= fun net =>
        ({ k with mem, net } : Kernel).answer cfg t.frame Syscall.ok (addr n)) := by
  have shorter : ((payload.drop 0).take (min payload.length ncap - 0)).length ≤ ncap := by
    rw [List.length_take]
    omega
  obtain ⟨r, copied, mem, n, rfl⟩ :=
    copyToUser_returns (sound.task runs.task) runs.known k.mem (rangeOk_mono ok shorter)
  rw [recvCopy, slice_ok (Nat.zero_le _) (Nat.min_le_left _ _), bind_ok, copied, bind_ok]
  exact ⟨mem, n, rfl⟩

theorem recvCopy_settles (sound : Sound lay k) (runs : Runs k c t) {ncap : Nat}
    (ok : rangeOk lay t (k.a0 t.frame) ncap .write) (payload : List U8) (tcp : Bool) :
    Settles lay k (AddSafe cfg (k.frames t.frame).sepc 4)
      (k.recvCopy cfg lay platform t.frame t ncap payload tcp) := by
  obtain ⟨mem, n, same⟩ := @recvCopy_admitted cfg lay platform k c t sound runs ncap ok payload tcp
  rw [same]
  have stored := runs.setMem sound mem
  have consumed : Returns (Net.exec cfg platform k.net (if tcp then .tcpConsume else .udpConsume)) fun _ => True := by
    cases tcp
    · exact .ok trivial
    · exact .ok trivial
  obtain ⟨net, done, -⟩ := consumed
  rw [done, bind_ok]
  have step : Net.Step cfg platform k.net (if tcp then .tcpConsume else .udpConsume) net := done
  exact (stored.trans (stored.runs.setNet stored.sound (sound.net.step step))).answer_settles sound runs rfl _ _

theorem tcpEof_returns (cfg : Config) (platform : Platform) (k : Kernel) : ∃ tcp eof,
    k.tcpEof cfg = .ok ({ k with net := { k.net with tcp } }, eof) ∧
      Net.Step cfg platform k.net .tcpEof { k.net with tcp } := by
  obtain ⟨tcp, l, took, -⟩ := Tcp.exec_total cfg k.net.tcp .takeEof
  refine ⟨tcp, l.eof, ?_, ?_⟩
  · rw [tcpEof, took, bind_ok]
    rfl
  · rw [Net.Step, Net.exec, took]
    rfl

theorem recvChecked_settles (answers : platform.Answers) (sound : Sound lay k) (runs : Runs k c t)
    (ids : ∀ e ∈ env.received, e.id.toNat < Net.rxBufs) {ncap : Nat}
    (ok : rangeOk lay t (k.a0 t.frame) ncap .write) :
    Settles lay k (PollSafe cfg k.net env.received ∧ AddSafe cfg (k.frames t.frame).sepc 4)
      (k.recvChecked cfg lay platform env t.frame t ncap) := by
  refine .bind_iff (poll_ok_iff answers sound.net ids) fun u done => ?_
  obtain ⟨net, inv, rfl⟩ := poll_net sound.net done
  have polled := runs.setNet sound inv
  rw [Tcp.pending_eq inv.tcb, bind_ok]
  cases Tcp.pendingBytes net.tcp.tcb with
  | some payload => exact polled.lift_settles sound runs (recvCopy_settles polled.sound polled.runs ok payload true)
  | none =>
    obtain ⟨tcp, eof, told, step⟩ := tcpEof_returns cfg platform { k with net }
    have ended := runs.setNet sound (inv.step step)
    dsimp only
    rw [told, bind_ok]
    dsimp only
    split
    · exact ended.answer_settles sound runs rfl _ _
    split
    · exact ended.lift_settles sound runs (recvCopy_settles ended.sound ended.runs ok _ false)
    · exact ended.answer_settles sound runs rfl _ _

theorem sysRecv_refused (sound : Sound lay k) (runs : Runs k c t)
    (bad : ¬ rangeOk lay t (k.a0 t.frame) (copyLen (k.a1 t.frame)) .write) :
    k.sysRecv cfg lay platform env t.frame = k.killInvalidPtr platform t.frame := by
  have known : t.id < maxTasks := (sound.task runs.task).id_eq.symm ▸ runs.known
  rw [copyLen] at bad
  obtain ⟨e, refused⟩ := classified_error bad
  rw [sysRecv, runs.current, bind_ok]
  dsimp only
  rw [checkRange, classify_eq known, bind_ok, refused]

theorem sysRecv_admitted (sound : Sound lay k) (runs : Runs k c t)
    (ok : rangeOk lay t (k.a0 t.frame) (copyLen (k.a1 t.frame)) .write) :
    k.sysRecv cfg lay platform env t.frame = k.recvChecked cfg lay platform env t.frame t (copyLen (k.a1 t.frame)) := by
  have known : t.id < maxTasks := (sound.task runs.task).id_eq.symm ▸ runs.known
  rw [copyLen] at ok ⊢
  rw [sysRecv, runs.current, bind_ok]
  dsimp only
  rw [checkRange, classify_eq known, bind_ok, classified_ok ok]

theorem sysRecv_settles (answers : platform.Answers) (sound : Sound lay k) (runs : Runs k c t)
    (ids : ∀ e ∈ env.received, e.id.toNat < Net.rxBufs) :
    Settles lay k (if rangeOk lay t (k.a0 t.frame) (copyLen (k.a1 t.frame)) .write then
        PollSafe cfg k.net env.received ∧ AddSafe cfg (k.frames t.frame).sepc 4 else k.anyReady = false)
      (k.sysRecv cfg lay platform env t.frame) := by
  refine .ite (fun ok => ?_) (fun bad => ?_)
  · rw [sysRecv_admitted sound runs ok]
    exact recvChecked_settles answers sound runs ids ok
  · rw [sysRecv_refused sound runs bad]
    exact killInvalidPtr_settles answers sound runs

theorem sendBytes_ok_iff (answers : platform.Answers) (inv : Net.Inv k.net) {bytes : List U8}
    (small : bytes.length < 2 ^ 16) (flags : Usize) :
    (∃ r, k.sendBytes cfg platform env bytes flags = .ok r) ↔ SendSafe k.net bytes.length := by
  obtain ⟨⟨net, sent⟩, done, took, same⟩ := @Net.tcpSend_returns cfg platform k.net env.now answers inv bytes flags
  rw [sendBytes, done, bind_ok]
  dsimp only at took same ⊢
  cases sent with
  | true => exact ⟨fun _ => .inl took.symm, fun _ => ⟨_, rfl⟩⟩
  | false =>
    rw [same rfl, SendSafe, ← took, ← Net.udpSend_ok_iff small]
    simp only [Bool.false_eq_true, if_false, false_or]
    constructor
    · rintro ⟨r, done⟩
      obtain ⟨v, sent, -⟩ := bind_eq_ok done
      exact ⟨v, sent⟩
    · rintro ⟨v, sent⟩
      exact ⟨_, by rw [sent]; rfl⟩

theorem sendBytes_net (inv : Net.Inv k.net) {bytes : List U8} {flags : Usize} {r : Kernel × Bool}
    (done : k.sendBytes cfg platform env bytes flags = .ok r) : ∃ net, Net.Inv net ∧ r.1 = { k with net } := by
  obtain ⟨⟨net, sent⟩, tcp, done⟩ := bind_eq_ok done
  have step : Net.Step cfg platform k.net (.tcpSend env.now bytes flags) net := by
    rw [Net.Step, Net.exec, tcp]
    rfl
  have next := inv.step step
  dsimp only at done
  split at done
  · cases done
    exact ⟨net, next, rfl⟩
  · obtain ⟨⟨net', sent'⟩, udp, done⟩ := bind_eq_ok done
    cases done
    have step : Net.Step cfg platform net (.udpSend bytes) net' := by
      rw [Net.Step, Net.exec, udp]
      rfl
    exact ⟨net', next.step step, rfl⟩

theorem sysSend_refused (sound : Sound lay k) (runs : Runs k c t)
    (bad : ¬ rangeOk lay t (k.a0 t.frame) (copyLen (k.a1 t.frame)) .read) :
    k.sysSend cfg lay platform env t.frame = k.killInvalidPtr platform t.frame := by
  obtain ⟨e, copied⟩ := copyFromUser_refused sound runs bad
  rw [sysSend, runs.current, bind_ok]
  dsimp only
  rw [copied, bind_ok]

theorem sysSend_settles (answers : platform.Answers) (sound : Sound lay k) (runs : Runs k c t) :
    Settles lay k (if rangeOk lay t (k.a0 t.frame) (copyLen (k.a1 t.frame)) .read then
        SendSafe k.net (copyLen (k.a1 t.frame)) ∧ AddSafe cfg (k.frames t.frame).sepc 4 else k.anyReady = false)
      (k.sysSend cfg lay platform env t.frame) := by
  refine .ite (fun ok => ?_) (fun bad => ?_)
  · obtain ⟨bytes, copied, length⟩ := copyFromUser_admitted sound runs ok
    rw [sysSend, runs.current, bind_ok]
    dsimp only
    rw [copied, bind_ok]
    have small : bytes.length < 2 ^ 16 := by
      rw [length, copyLen, copyMax]
      omega
    rw [← length]
    refine .bind_iff (sendBytes_ok_iff answers sound.net small _) fun r done => ?_
    obtain ⟨u, sent⟩ := r
    obtain ⟨net, inv, rfl⟩ := sendBytes_net sound.net done
    have stays := runs.setNet sound inv
    dsimp only
    split <;> exact stays.answer_settles sound runs rfl _ _
  · rw [sysSend_refused sound runs bad]
    exact killInvalidPtr_settles answers sound runs

/-- The call's buffer fails the pointer check. -/
def PtrRefused (lay : Layout) (k : Kernel) (t : Task) : Prop :=
  ((k.a7 t.frame = Syscall.sysWrite ∨ k.a7 t.frame = Syscall.sysSend) ∧
    ¬ rangeOk lay t (k.a0 t.frame) (copyLen (k.a1 t.frame)) .read) ∨
  (k.a7 t.frame = Syscall.sysRecv ∧ ¬ rangeOk lay t (k.a0 t.frame) (copyLen (k.a1 t.frame)) .write)

instance (lay : Layout) (k : Kernel) (t : Task) : Decidable (PtrRefused lay k t) :=
  inferInstanceAs (Decidable (_ ∨ _))

/-- The condition under which an `ecall` of the running task is contained. -/
def CallSafe (cfg : Config) (lay : Layout) (env : Env) (k : Kernel) (t : Task) : Prop :=
  let num := k.a7 t.frame
  let readable := rangeOk lay t (k.a0 t.frame) (copyLen (k.a1 t.frame)) .read
  let writable := rangeOk lay t (k.a0 t.frame) (copyLen (k.a1 t.frame)) .write
  let advances := AddSafe cfg (k.frames t.frame).sepc 4
  if num = Syscall.sysWrite then if readable then AddSafe cfg t.writes 1 ∧ advances else k.anyReady = false
  else if num = Syscall.sysExit then EndSafe cfg k
  else if num = Syscall.sysSbrk then advances
  else if num = Syscall.sysGettime then advances
  else if num = Syscall.sysYield then advances ∧ AddSafe cfg t.yields 1
  else if num = Syscall.sysRecv then
    if writable then PollSafe cfg k.net env.received ∧ advances else k.anyReady = false
  else if num = Syscall.sysSend then
    if readable then SendSafe k.net (copyLen (k.a1 t.frame)) ∧ advances else k.anyReady = false
  else EndSafe cfg k

instance (cfg : Config) (lay : Layout) (env : Env) (k : Kernel) (t : Task) : Decidable (CallSafe cfg lay env k t) :=
  by dsimp only [CallSafe]; infer_instance

/-- Two decisions on the same question agree branch by branch. -/
theorem Settles.branch {p : Prop} [Decidable p] {yes no : Prop} {x y : Result (Kernel × Outcome)}
    (first : p → Settles lay k yes x) (rest : ¬ p → Settles lay k no y) :
    Settles lay k (if p then yes else no) (if p then x else y) := by
  by_cases holds : p
  · rw [if_pos holds, if_pos holds]
    exact first holds
  · rw [if_neg holds, if_neg holds]
    exact rest holds

theorem fromEcall_settles (answers : platform.Answers) (sound : Sound lay k) (runs : Runs k c t)
    (closed : env.sstatus &&& Sstatus.sum = 0) (ids : ∀ e ∈ env.received, e.id.toNat < Net.rxBufs) :
    Settles lay k (CallSafe cfg lay env k t) (k.fromEcall cfg lay platform env t.frame) := by
  unfold fromEcall CallSafe
  rw [if_neg (not_not.mpr closed)]
  refine .branch (fun _ => sysWrite_settles answers sound runs) fun _ => ?_
  refine .branch (fun _ => sysExit_settles answers sound runs) fun _ => ?_
  refine .branch (fun _ => sysSbrk_settles sound runs) fun _ => ?_
  refine .branch (fun _ => answer_settles sound runs _ _) fun _ => ?_
  refine .branch (fun _ => sysYield_settles sound runs) fun _ => ?_
  refine .branch (fun _ => sysRecv_settles answers sound runs ids) fun _ => ?_
  refine .branch (fun _ => sysSend_settles answers sound runs) fun _ => ?_
  exact killAndReschedule_settles answers sound runs

end

end Kernel

end Whimbrel

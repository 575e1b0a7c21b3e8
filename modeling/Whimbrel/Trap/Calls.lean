import Whimbrel.Trap.Effect

/-! Which system calls return.

A buffer that is refused kills the task, and the machine with it. Every other call
answers, ends the task or panics; `CallFits` is when it does not panic. -/

set_option autoImplicit false

namespace Whimbrel

open Checked Transition Uaccess
open Trap (TrapFrame)

namespace Net

/-- The gateway is in the cache before each frame and after the last. -/
def GatewayKept (cache : Arp.Cache) : List Completion → Prop
  | [] => Arp.lookup cache gwIp ≠ none
  | c :: cs => Arp.lookup cache gwIp ≠ none ∧ GatewayKept (c.learned cache) cs

instance decidableGatewayKept : (cache : Arp.Cache) → (cs : List Completion) → Decidable (GatewayKept cache cs)
  | cache, [] => inferInstanceAs (Decidable (Arp.lookup cache gwIp ≠ none))
  | cache, c :: cs =>
    haveI := decidableGatewayKept (c.learned cache) cs
    inferInstanceAs (Decidable (_ ∧ GatewayKept (c.learned cache) cs))

theorem GatewayKept.known {cache : Arp.Cache} {cs : List Completion} (kept : GatewayKept cache cs) :
    Arp.lookup cache gwIp ≠ none := by
  cases cs with
  | nil => exact kept
  | cons c cs => exact kept.1

theorem GatewayKept.answerable {cache : Arp.Cache} {cs : List Completion} (kept : GatewayKept cache cs) :
    Answerable cache cs := by
  induction cs generalizing cache with
  | nil => exact trivial
  | cons c cs ih => exact ⟨fun _ _ _ => kept.1, ih kept.2⟩

end Net

namespace Kernel

/-- The condition under which an `ecall` does not panic while the gateway is known:
no counter of the dev profile overflows, the last task may finish, and what the
connection does not take fits a datagram. -/
def CallFits (cfg : Config) (lay : Layout) (env : Env) (k : Kernel) (t : Task) : Prop :=
  let num := k.a7 t.frame
  let len := copyLen (k.a1 t.frame)
  let advances := AddSafe cfg (k.frames t.frame).sepc 4
  if num = Syscall.sysWrite then rangeOk lay t (k.a0 t.frame) len .read → AddSafe cfg t.writes 1 ∧ advances
  else if num = Syscall.sysExit then EndSafe cfg k
  else if num = Syscall.sysSbrk then advances
  else if num = Syscall.sysGettime then advances
  else if num = Syscall.sysYield then advances ∧ AddSafe cfg t.yields 1
  else if num = Syscall.sysRecv then
    rangeOk lay t (k.a0 t.frame) len .write → (cfg.dev → env.received.length < 2 ^ 32) ∧ advances
  else if num = Syscall.sysSend then
    rangeOk lay t (k.a0 t.frame) len .read →
      (Tcp.takesSend k.net.tcp.tcb len ∨ (k.net.udpPeer → len ≤ Net.udpRoom)) ∧ advances
  else EndSafe cfg k

instance (cfg : Config) (lay : Layout) (env : Env) (k : Kernel) (t : Task) : Decidable (CallFits cfg lay env k t) :=
  by dsimp only [CallFits]; infer_instance

section
variable {cfg : Config} {lay : Layout} {platform : Platform} {env : Env} {k m : Kernel} {c : Nat} {t s : Task}
variable {r : Kernel × Outcome}

theorem pollSafe_iff (kept : Net.GatewayKept k.net.arp.cache env.received) :
    PollSafe cfg k.net env.received ↔ (cfg.dev → env.received.length < 2 ^ 32) :=
  and_iff_right kept.answerable

theorem sendSafe_iff {len : Nat} (known : Arp.lookup k.net.arp.cache gwIp ≠ none) :
    SendSafe k.net len ↔ (Tcp.takesSend k.net.tcp.tcb len ∨ (k.net.udpPeer → len ≤ Net.udpRoom)) := by
  rw [SendSafe]
  simp only [ne_eq, known, not_false_eq_true, true_and]

theorem refused_or_ite_iff {accepted : Bool} {yes no : Prop} :
    (accepted = false ∨ if accepted then yes else no) ↔ (accepted → yes) := by
  cases accepted <;> simp

theorem refused_or_callSafe_send (send : k.a7 t.frame = Syscall.sysSend) :
    PtrRefused lay k t ∨ CallSafe cfg lay env k t ↔
      (rangeOk lay t (k.a0 t.frame) (copyLen (k.a1 t.frame)) .read →
        SendSafe k.net (copyLen (k.a1 t.frame)) ∧ AddSafe cfg (k.frames t.frame).sepc 4) := by
  unfold PtrRefused CallSafe
  simp [send, Syscall.sysWrite, Syscall.sysExit, Syscall.sysSbrk, Syscall.sysGettime, Syscall.sysYield, Syscall.sysRecv,
    Syscall.sysSend, refused_or_ite_iff]

theorem refused_or_callSafe_iff (kept : Net.GatewayKept k.net.arp.cache env.received) :
    PtrRefused lay k t ∨ CallSafe cfg lay env k t ↔ CallFits cfg lay env k t := by
  by_cases send : k.a7 t.frame = Syscall.sysSend
  · rw [refused_or_callSafe_send send, sendSafe_iff kept.known, CallFits]
    simp [send, Syscall.sysWrite, Syscall.sysExit, Syscall.sysSbrk, Syscall.sysGettime, Syscall.sysYield,
      Syscall.sysRecv, Syscall.sysSend]
  unfold PtrRefused CallSafe CallFits
  rw [pollSafe_iff kept]
  generalize k.a7 t.frame = num at send
  by_cases write : num = Syscall.sysWrite
  · simp [write, Syscall.sysWrite, Syscall.sysRecv, Syscall.sysSend, refused_or_ite_iff]
  by_cases recv : num = Syscall.sysRecv
  · simp [recv, Syscall.sysWrite, Syscall.sysExit, Syscall.sysSbrk, Syscall.sysGettime, Syscall.sysYield, Syscall.sysRecv,
      Syscall.sysSend, refused_or_ite_iff]
  · simp [write, recv, send]

theorem trapHandler_ecall {frame : Usize} (kernelMode : env.sscratch = 0) (ecall : env.scause = Scause.excEcallU) :
    k.trapHandler cfg lay platform env frame = k.fromEcall cfg lay platform env frame := by
  unfold trapHandler
  rw [ecall, if_neg (not_not.mpr kernelMode), if_neg (by decide), if_pos (by decide)]

theorem fromEcall_write {frame : Usize} (closed : env.sstatus &&& Sstatus.sum = 0)
    (num : k.a7 frame = Syscall.sysWrite) :
    k.fromEcall cfg lay platform env frame = k.sysWrite cfg lay platform frame := by
  unfold fromEcall
  rw [if_neg (not_not.mpr closed)]
  dsimp only
  rw [if_pos num]

theorem fromEcall_recv {frame : Usize} (closed : env.sstatus &&& Sstatus.sum = 0)
    (num : k.a7 frame = Syscall.sysRecv) :
    k.fromEcall cfg lay platform env frame = k.sysRecv cfg lay platform env frame := by
  unfold fromEcall
  rw [if_neg (not_not.mpr closed)]
  dsimp only
  rw [num, if_neg (by decide), if_neg (by decide), if_neg (by decide), if_neg (by decide), if_neg (by decide),
    if_pos rfl]

theorem fromEcall_send {frame : Usize} (closed : env.sstatus &&& Sstatus.sum = 0)
    (num : k.a7 frame = Syscall.sysSend) :
    k.fromEcall cfg lay platform env frame = k.sysSend cfg lay platform env frame := by
  unfold fromEcall
  rw [if_neg (not_not.mpr closed)]
  dsimp only
  rw [num, if_neg (by decide), if_neg (by decide), if_neg (by decide), if_neg (by decide), if_neg (by decide),
    if_neg (by decide), if_pos rfl]

/-- A refused buffer takes the machine down. -/
theorem fromEcall_refused (answers : platform.Answers) (sound : Sound lay k) (runs : Runs k c t)
    (closed : env.sstatus &&& Sstatus.sum = 0) (refused : PtrRefused lay k t) :
    k.fromEcall cfg lay platform env t.frame =
      .ok ((k.setRetval t.frame Syscall.errInvalidAddress 0).ended c t, .shutdown) := by
  rw [← killInvalidPtr_eq answers runs]
  rcases refused with ⟨write | send, bad⟩ | ⟨recv, bad⟩
  · rw [fromEcall_write closed write, sysWrite_refused sound runs bad]
  · rw [fromEcall_send closed send, sysSend_refused sound runs bad]
  · rw [fromEcall_recv closed recv, sysRecv_refused sound runs bad]

theorem Effect.shutdown (effect : Effect cfg lay platform env k c t r) (sound : Sound lay k) (runs : Runs k c t)
    (off : r.2 = .shutdown) : (env.scause = Scause.excEcallU ∧ PtrRefused lay k t) ∨ k.anyReady = false := by
  cases effect with
  | resumed | switched | ended => cases off
  | stopped ecall refused => exact .inl ⟨ecall, refused⟩
  | @finished code last =>
    have inv : Task.Inv lay c { t with exitCode := code } := { sound.task runs.task with }
    obtain ⟨parked, gone, -⟩ := runs.ended sound inv rfl
    obtain ⟨found, search, idle⟩ := nextReadyAfter_returns parked.sound c
    cases last.symm.trans search
    exact .inr ((parked.anyReady_eq runs gone).symm.trans idle)

/-- The calls that do not panic. -/
theorem fromEcall_ok_iff (answers : platform.Answers) (sound : Sound lay k) (runs : Runs k c t)
    (ecall : env.scause = Scause.excEcallU) (closed : env.sstatus &&& Sstatus.sum = 0)
    (ids : ∀ e ∈ env.received, e.id.toNat < Net.rxBufs) :
    (∃ r, k.fromEcall cfg lay platform env t.frame = .ok r) ↔ PtrRefused lay k t ∨ CallSafe cfg lay env k t := by
  obtain ⟨returns, stops⟩ := @fromEcall_settles cfg lay platform env k c t answers sound runs closed ids
  constructor
  · rintro ⟨r, done⟩
    by_contra neither
    rw [not_or] at neither
    obtain ⟨off, ready⟩ := stops neither.2 r done
    rcases (fromEcall_effect ecall sound runs done).shutdown sound runs off with ⟨-, refused⟩ | idle
    · exact neither.1 refused
    · simp [idle] at ready
  · rintro (refused | safe)
    · exact ⟨_, fromEcall_refused answers sound runs closed refused⟩
    · obtain ⟨r, done, -⟩ := returns safe
      exact ⟨r, done⟩

theorem Effect.killed (effect : Effect cfg lay platform env k c t r) (off : r.2 = .shutdown) :
    ∃ s, r.1.tasks c = some s ∧ s.state = .exited := by
  cases effect with
  | resumed | switched | ended => cases off
  | finished | stopped => exact ⟨_, ended_self _ _ _, rfl⟩

end

end Kernel

namespace User

def CallFits (cfg : Config) (lay : Layout) (u : User) (tr : UserTrap) : Prop :=
  ∀ t ∈ u.kernel.cur.bind u.kernel.tasks, Kernel.CallFits cfg lay (u.env tr) (u.entered tr) t

instance (cfg : Config) (lay : Layout) (u : User) (tr : UserTrap) : Decidable (u.CallFits cfg lay tr) :=
  inferInstanceAs (Decidable (∀ t ∈ u.kernel.cur.bind u.kernel.tasks, _))

section
variable {cfg : Config} {lay : Layout} {platform : Platform} {u v : User} {tr : UserTrap}

theorem ecall_ok_iff (answers : platform.Answers) (inUser : Kernel.InUser lay u.kernel u.frame)
    (ecall : tr.scause = Scause.excEcallU) {c : Nat} {t : Task} (runs : Kernel.Runs u.kernel c t) :
    (∃ r, u.trap cfg lay platform tr = .ok r) ↔
      Kernel.PtrRefused lay (u.entered tr) t ∨ Kernel.CallSafe cfg lay (u.env tr) (u.entered tr) t := by
  obtain ⟨c', t', runs', frame, stays⟩ := entered_stays inUser tr
  cases runs.cur.symm.trans runs'.cur
  cases runs.task.symm.trans runs'.task
  rw [trap, Kernel.trapHandler_ecall rfl ecall, ← frame]
  exact Kernel.fromEcall_ok_iff answers stays.sound stays.runs ecall (env_closed inUser tr) tr.ids

/-- In every reachable state, with any arguments and any received frames that keep
the gateway in the cache: a system call returns a frame or kills the task exactly
if what it would send over UDP fits a frame and no counter overflows. -/
theorem ecall_returns_iff (answers : platform.Answers) {mac : Mac} {ops : List Net.Op} {net : Net.Statics}
    (stack : Run (Net.Step cfg platform) (.boot mac) ops net) {e : Entries} {ticks : Usize}
    (booted : boot cfg lay e net ticks = .ok u) {trs : List UserTrap} (run : Run (Step cfg lay platform) u trs v)
    (ecall : tr.scause = Scause.excEcallU) (kept : Net.GatewayKept v.kernel.net.arp.cache tr.received) :
    (∃ k o, v.trap cfg lay platform tr = .ok (k, o) ∧
      ((∃ frame, o = .resume frame) ∨ ∃ c ∈ v.kernel.cur, ∃ t ∈ k.tasks c, t.state = .exited)) ↔
        v.CallFits cfg lay tr := by
  have inUser := run_inUser answers stack booted run
  obtain ⟨c, t, runs, frame, stays⟩ := entered_stays inUser tr
  have fits : v.CallFits cfg lay tr ↔ Kernel.CallFits cfg lay (v.env tr) (v.entered tr) t := by
    simp [CallFits, runs.cur, runs.task]
  rw [fits, ← Kernel.refused_or_callSafe_iff kept, ← ecall_ok_iff answers inUser ecall runs]
  constructor
  · rintro ⟨k, o, done, -⟩
    exact ⟨_, done⟩
  · rintro ⟨⟨k, o⟩, done⟩
    refine ⟨k, o, done, ?_⟩
    cases o with
    | resume frame => exact .inl ⟨frame, rfl⟩
    | shutdown =>
      obtain ⟨c', t', runs', -, -, effect⟩ := trap_effect inUser done
      exact .inr ⟨c', runs'.cur, effect.killed rfl⟩

end

def appTask : User :=
  match boot .default smallLayout ⟨0, 0, 0, 0⟩ (.boot Net.guestMac) 0 with
  | .ok u => u
  | .error _ => ⟨Kernel.bare (.boot Net.guestMac) 0, 0⟩

def appBuf : Usize := addr (smallLayout.slotAt 3).ustackBottom

def callOf (num : Usize) (len : Nat) (received : List Net.Completion)
    (ids : ∀ e ∈ received, e.id.toNat < Net.rxBufs) : UserTrap :=
  { exceptionAt Scause.excEcallU (addr smallLayout.utextStart) appBuf (addr len) num with received, ids }

def sendOf (len : Nat) : UserTrap := callOf Syscall.sysSend len [] ids_nil

def askedByUdp : UserTrap :=
  callOf Syscall.sysRecv 1472 [Net.arpReplyFrom gwIp, Net.udpFrom gwIp 9 [1, 2]] (by decide +kernel)

/-- The app after its `recv`, which leaves the gateway in the cache and knows a UDP peer. -/
def askedApp : User :=
  ⟨((appTask.trap .default smallLayout Net.qemu askedByUdp).toOption.map (·.1)).getD appTask.kernel, appTask.frame⟩

theorem askedApp_step : Step .default smallLayout Net.qemu appTask askedByUdp askedApp := by
  have outcome : (appTask.trap .default smallLayout Net.qemu askedByUdp).toOption.map (·.2) =
      some (.resume appTask.frame) := by decide +kernel
  rw [Step, askedApp]
  rcases done : appTask.trap .default smallLayout Net.qemu askedByUdp with e | ⟨k, o⟩
  · rw [done] at outcome
    cases outcome
  · rw [done] at outcome
    cases outcome
    rfl

theorem ecall_returns_iff_send :
    askedApp.CallFits .default smallLayout (sendOf 2) ∧
      ∃ k o, askedApp.trap .default smallLayout Net.qemu (sendOf 2) = .ok (k, o) := by
  have booted : boot .default smallLayout ⟨0, 0, 0, 0⟩ (.boot Net.guestMac) 0 = .ok appTask := rfl
  have kept : Net.GatewayKept askedApp.kernel.net.arp.cache (sendOf 2).received := by decide +kernel
  have fits : askedApp.CallFits .default smallLayout (sendOf 2) := by decide +kernel
  obtain ⟨k, o, done, -⟩ :=
    (ecall_returns_iff ⟨rfl, fun _ => rfl, rfl⟩ .nil booted (.single askedApp_step) rfl kept).mpr fits
  exact ⟨fits, k, o, done⟩

/-- The gateway is in the cache and the length is accepted, but the datagram is
longer than the TX buffer. -/
theorem send_long_panics :
    Step .default smallLayout Net.qemu appTask askedByUdp askedApp ∧
    Net.GatewayKept askedApp.kernel.net.arp.cache (sendOf 1995).received ∧
      (askedApp.trap .default smallLayout Net.qemu (sendOf 1995)).panic? = some .txBuf :=
  ⟨askedApp_step, by decide +kernel⟩

end User

end Whimbrel

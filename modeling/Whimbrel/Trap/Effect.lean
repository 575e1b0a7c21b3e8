import Whimbrel.Net.Queues
import Whimbrel.Trap.Handler

/-! What a trap that returned has done.

The running task is resumed with its frame changed, gives way to the next Ready
task, or has ended. `Effect` says so once, with the change of the trapped frame,
of the network stack and of the table; isolation, delivery and the end of tasks
are read off it. -/

set_option autoImplicit false

namespace Whimbrel

open Checked Transition
open Trap (TrapFrame)

def Trap.TrapFrame.answered (f : TrapFrame) (error value : Usize) : TrapFrame :=
  { f with
    x := Function.update (Function.update f.x Asm.Reg.a0 error) Asm.Reg.a1 value
    sepc := f.sepc + 4 }

inductive Saves (env : Env) (f : TrapFrame) : TrapFrame → Prop where
  | tick (interrupt : env.scause &&& Scause.interrupt ≠ 0) : Saves env f f
  | answer (ecall : env.scause = Scause.excEcallU) (error value : Usize) : Saves env f (f.answered error value)
  | step (breakpoint : env.scause = Scause.excBreakpoint) (half : U16) :
      Saves env f { f with sepc := f.sepc + Trap.instructionWidth half }

/-- The operation neither takes frames nor looks at the clock for the RTO. -/
def Net.Op.isLocal : Net.Op → Bool
  | .pollRx _ | .pumpTcp _ => false
  | _ => true

/-- What a system call does to the stack: `recv` polls first. -/
inductive NetEffect (cfg : Config) (platform : Platform) (env : Env) (num : Usize) (net : Net.Statics) :
    Net.Statics → Prop where
  | none {u : Net.Statics} (same : u = net) : NetEffect cfg platform env num net u
  | calls {ops : List Net.Op} {u : Net.Statics} (ecall : env.scause = Scause.excEcallU)
      (run : Run (Net.Step cfg platform) net ops u) (here : ∀ op ∈ ops, op.isLocal) : NetEffect cfg platform env num net u
  | recv {a b u : Net.Statics} {ops : List Net.Op} (ecall : env.scause = Scause.excEcallU) (is : num = Syscall.sysRecv)
      (polled : Net.Step cfg platform net (.pollRx env.received) a)
      (pumped : Net.Step cfg platform a (.pumpTcp env.now) b) (run : Run (Net.Step cfg platform) b ops u)
      (here : ∀ op ∈ ops, op.isLocal) : NetEffect cfg platform env num net u

theorem NetEffect.eq_of_ne {cfg : Config} {platform : Platform} {env : Env} {num : Usize} {net u : Net.Statics}
    (effect : NetEffect cfg platform env num net u) (other : env.scause ≠ Scause.excEcallU) : u = net := by
  cases effect with
  | none same => exact same
  | calls ecall | recv ecall => exact absurd ecall other

namespace Kernel

open Uaccess

/-- The outcome of a trap of the running task `t` in slot `c`. -/
inductive Effect (cfg : Config) (lay : Layout) (platform : Platform) (env : Env) (k : Kernel) (c : Nat) (t : Task) :
    Kernel × Outcome → Prop where
  | resumed {m : Kernel} {s : Task} {f : TrapFrame} (stays : Stays lay k m c s)
      (frames : m.frames = Function.update k.frames t.frame f) (saves : Saves env (k.frames t.frame) f)
      (net : NetEffect cfg platform env (k.a7 t.frame) k.net m.net) : Effect cfg lay platform env k c t (m, .resume t.frame)
  | switched {m : Kernel} {s : Task} {f : TrapFrame} {n : Nat} {next : Task} (stays : Stays lay k m c s)
      (frames : m.frames = Function.update k.frames t.frame f) (saves : Saves env (k.frames t.frame) f)
      (net : m.net = k.net) (found : (m.put c { s with state := .ready }).nextReadyAfter c = .ok (some n))
      (task : (m.put c { s with state := .ready }).tasks n = some next) :
      Effect cfg lay platform env k c t ((m.put c { s with state := .ready }).started n next, .resume next.frame)
  | ended {code : Usize} {n : Nat} {next : Task}
      (found : (k.ended c { t with exitCode := code }).nextReadyAfter c = .ok (some n))
      (task : (k.ended c { t with exitCode := code }).tasks n = some next) :
      Effect cfg lay platform env k c t ((k.ended c { t with exitCode := code }).started n next, .resume next.frame)
  /-- Nobody is left. -/
  | finished {code : Usize} (last : (k.ended c { t with exitCode := code }).nextReadyAfter c = .ok none) :
      Effect cfg lay platform env k c t (k.ended c { t with exitCode := code }, .shutdown)
  /-- An invalid user pointer. -/
  | stopped (ecall : env.scause = Scause.excEcallU) (refused : PtrRefused lay k t) : Effect cfg lay platform env k c t
      ((k.setRetval t.frame Syscall.errInvalidAddress 0).ended c t, .shutdown)

section
variable {cfg : Config} {lay : Layout} {platform : Platform} {env : Env} {k m : Kernel} {c : Nat} {t s : Task}
variable {r : Kernel × Outcome}

theorem addUsize_eq {a b sum : Usize} (done : addUsize cfg a b = .ok sum) : sum = a + b := by
  unfold addUsize at done
  split at done <;> cases done
  rfl

@[simp] theorem setFrame_setFrame (k : Kernel) (frame : Usize) (f g : TrapFrame) :
    (k.setFrame frame f).setFrame frame g = k.setFrame frame g := by
  simp [setFrame]

theorem advanceEcall_eq {frame : Usize} (done : k.advanceEcall cfg frame = .ok m) (error value : Usize) :
    m.setRetval frame error value = k.setFrame frame ((k.frames frame).answered error value) := by
  obtain ⟨sepc, sum, done⟩ := bind_eq_ok done
  cases done
  rw [addUsize_eq sum, setRetval, setFrame_setFrame]
  simp [setFrame, TrapFrame.answered]

theorem answer_eq {frame error value : Usize} (done : k.answer cfg frame error value = .ok r) :
    r = (k.setFrame frame ((k.frames frame).answered error value), .resume frame) := by
  obtain ⟨m, advanced, done⟩ := bind_eq_ok done
  cases done
  rw [advanceEcall_eq advanced]

theorem Stays.answer_effect (stays : Stays lay k m c s) (ecall : env.scause = Scause.excEcallU)
    (sound : Sound lay k) (runs : Runs k c t) (frames : m.frames = k.frames)
    (net : NetEffect cfg platform env (k.a7 t.frame) k.net m.net) {error value : Usize}
    (done : m.answer cfg t.frame error value = .ok r) : Effect cfg lay platform env k c t r := by
  rw [answer_eq done, frames]
  have status : ((k.frames t.frame).answered error value).sstatus = fabricatedSstatus := sound.status runs.task
  refine .resumed (stays.trans (stays.runs.setFrame stays.sound status)) ?_ (.answer ecall error value) net
  rw [setFrame, frames]

theorem killInvalidPtr_eq_ok (runs : Runs k c t) (done : k.killInvalidPtr platform t.frame = .ok r) :
    r = ((k.setRetval t.frame Syscall.errInvalidAddress 0).ended c t, .shutdown) := by
  have marked : (k.setRetval t.frame Syscall.errInvalidAddress 0).markExited =
      .ok ((k.setRetval t.frame Syscall.errInvalidAddress 0).ended c t, t.id) :=
    Runs.markExited ⟨runs.cur, runs.known, runs.task, runs.running⟩
  rw [killInvalidPtr, killInvalidUserPtr, marked] at done
  unfold stopUntilScheduler at done
  split at done <;> cases done
  rfl

theorem killInvalidPtr_effect (ecall : env.scause = Scause.excEcallU) (refused : PtrRefused lay k t) (runs : Runs k c t)
    (done : k.killInvalidPtr platform t.frame = .ok r) : Effect cfg lay platform env k c t r := by
  rw [killInvalidPtr_eq_ok runs done]
  exact .stopped ecall refused

theorem finishSched_eq_ok (done : m.finishSched cfg platform = .ok r) : r = (m, .shutdown) := by
  have stops {r : Kernel × Outcome} (done : m.stopUntilScheduler platform = .ok r) : r = (m, .shutdown) := by
    unfold stopUntilScheduler at done
    split at done <;> cases done
    rfl
  unfold finishSched at done
  by_cases fault : cfg.image = .userFault
  · rw [if_pos fault] at done
    obtain ⟨t1, -, done⟩ := bind_eq_ok done
    obtain ⟨t2, -, done⟩ := bind_eq_ok done
    by_cases running : t1.state ≠ .exited ∨ t2.state ≠ .exited
    · rw [if_pos running] at done
      cases done
    by_cases silent : t1.writes = 0
    · rw [if_neg running, if_pos silent] at done
      cases done
    · rw [if_neg running, if_neg silent] at done
      exact stops done
  · rw [if_neg fault] at done
    unfold finishApp at done
    split at done
    · cases done
    · exact stops done

theorem get_eq_ok {n : Nat} (got : m.get n = .ok s) : m.tasks n = some s := by
  unfold get at got
  split at got
  · cases got
  cases slot : m.tasks n with
  | none => simp [slot] at got
  | some s' =>
    rw [slot] at got
    cases got
    rfl

theorem run_eq_ok {n : Nat} (done : m.run n = .ok r) :
    ∃ s, m.tasks n = some s ∧ r = (m.started n s, .resume s.frame) := by
  obtain ⟨s, got, done⟩ := bind_eq_ok done
  cases done
  exact ⟨s, get_eq_ok got, rfl⟩

theorem afterExit_effect (inv : t.Inv lay c) {code : Usize}
    (done : (k.ended c { t with exitCode := code }).afterExit cfg platform t.id = .ok r) :
    Effect cfg lay platform env k c t r := by
  obtain ⟨next, found, done⟩ := bind_eq_ok done
  replace found := (congrArg (k.ended c { t with exitCode := code }).nextReadyAfter inv.id_eq).symm.trans found
  cases next with
  | some n =>
    obtain ⟨s, task, rfl⟩ := run_eq_ok done
    exact .ended found task
  | none =>
    rw [finishSched_eq_ok done]
    exact .finished found

theorem killAndReschedule_effect (sound : Sound lay k) (runs : Runs k c t)
    (done : k.killAndReschedule cfg platform = .ok r) : Effect cfg lay platform env k c t r := by
  rw [runs.killAndReschedule_eq] at done
  exact @afterExit_effect cfg lay platform env k c t r (sound.task runs.task) t.exitCode done

theorem Stays.preempt_effect (stays : Stays lay k m c s) {f : TrapFrame} (sound : Sound lay k) (runs : Runs k c t)
    (frames : m.frames = Function.update k.frames t.frame f) (saves : Saves env (k.frames t.frame) f)
    (net : m.net = k.net) (done : m.preempt t.frame = .ok r) : Effect cfg lay platform env k c t r := by
  unfold preempt at done
  rw [stays.runs.current, bind_ok] at done
  dsimp only at done
  have inv := stays.sound.task stays.runs.task
  rw [if_neg (not_not.mpr (stays.frame sound runs))] at done
  obtain ⟨next, found, done⟩ := bind_eq_ok done
  replace found := (congrArg (m.put c { s with state := .ready }).nextReadyAfter inv.id_eq).symm.trans found
  cases next with
  | some n =>
    obtain ⟨next, task, rfl⟩ := run_eq_ok done
    exact .switched stays frames saves net found task
  | none =>
    -- the task itself is Ready, so the search has found one
    have inv' : Task.Inv lay c { s with state := .ready } := { inv with }
    have parked := stays.runs.parked stays.sound inv' fun stopped => by cases stopped
    obtain ⟨n, again, idle⟩ := nextReadyAfter_returns parked.sound c
    cases found.symm.trans again
    have here : (m.put c { s with state := .ready }).tasks c = some { s with state := .ready } := by simp [Kernel.put]
    have ready : (m.put c { s with state := .ready }).anyReady := anyReady_iff.mpr ⟨c, stays.runs.known, _, here, rfl⟩
    rw [idle] at ready
    cases ready

/-! ## Each call -/

theorem sysWrite_effect (ecall : env.scause = Scause.excEcallU) (num : k.a7 t.frame = Syscall.sysWrite)
    (sound : Sound lay k) (runs : Runs k c t) (done : k.sysWrite cfg lay platform t.frame = .ok r) :
    Effect cfg lay platform env k c t r := by
  by_cases ok : rangeOk lay t (k.a0 t.frame) (copyLen (k.a1 t.frame)) .read
  · obtain ⟨bytes, copies, -⟩ := copyFromUser_admitted sound runs ok
    rw [sysWrite, runs.current, bind_ok] at done
    dsimp only at done
    rw [copies, bind_ok] at done
    obtain ⟨writes, -, done⟩ := bind_eq_ok done
    have inv : Task.Inv lay c { t with writes } := { sound.task runs.task with }
    have stays := runs.put sound inv runs.running
    exact (stays.trans (stays.runs.setConsole stays.sound _)).answer_effect ecall sound runs rfl (.none rfl) done
  · rw [sysWrite_refused sound runs ok] at done
    exact killInvalidPtr_effect ecall (.inl ⟨.inl num, ok⟩) runs done

theorem sysExit_effect (sound : Sound lay k) (runs : Runs k c t) (done : k.sysExit cfg platform t.frame = .ok r) :
    Effect cfg lay platform env k c t r := by
  rw [runs.sysExit_eq] at done
  exact @afterExit_effect cfg lay platform env k c t r (sound.task runs.task) (k.a0 t.frame) done

theorem sysSbrk_effect (ecall : env.scause = Scause.excEcallU) (sound : Sound lay k) (runs : Runs k c t)
    (done : k.sysSbrk cfg t.frame = .ok r) : Effect cfg lay platform env k c t r := by
  have refused {v : Kernel × Outcome} (done : k.answer cfg t.frame Syscall.errNoMem t.brk = .ok v) :
      Effect cfg lay platform env k c t v :=
    (runs.stays sound).answer_effect ecall sound runs rfl (.none rfl) done
  rw [sysSbrk, runs.current, bind_ok] at done
  dsimp only at done
  cases sum : checkedAddSigned t.brk (k.a0 t.frame) with
  | none =>
    rw [sum] at done
    exact refused done
  | some new =>
    rw [sum] at done
    dsimp only at done
    split at done
    · exact refused done
    · rename_i inside
      rw [not_or, BitVec.not_lt, BitVec.not_lt] at inside
      have inv : Task.Inv lay c { t with brk := new } :=
        { sound.task runs.task with above := inside.2, below := inside.1 }
      exact (runs.put sound inv runs.running).answer_effect ecall sound runs rfl (.none rfl) done

theorem sysYield_effect (ecall : env.scause = Scause.excEcallU) (sound : Sound lay k) (runs : Runs k c t)
    (done : k.sysYield cfg t.frame = .ok r) : Effect cfg lay platform env k c t r := by
  obtain ⟨m, advanced, done⟩ := bind_eq_ok done
  rw [advanceEcall_eq advanced] at done
  have status : ((k.frames t.frame).answered Syscall.ok 0).sstatus = fabricatedSstatus := sound.status runs.task
  have answered : Stays lay k (k.setFrame t.frame ((k.frames t.frame).answered Syscall.ok 0)) c t :=
    runs.setFrame sound status
  rw [yieldCpu, answered.runs.current, bind_ok] at done
  obtain ⟨yields, -, done⟩ := bind_eq_ok done
  have inv : Task.Inv lay c { t with yields } := { sound.task runs.task with }
  have stays := answered.trans (answered.runs.put answered.sound inv runs.running)
  exact stays.preempt_effect sound runs rfl (.answer ecall Syscall.ok 0) rfl done

theorem recvCopy_effect (ecall : env.scause = Scause.excEcallU) (sound : Sound lay k) (runs : Runs k c t)
    {net : Net.Statics} (inv : Net.Inv net) {ncap : Nat} (ok : rangeOk lay t (k.a0 t.frame) ncap .write)
    {payload : List U8} {tcp : Bool}
    (before : ∀ {u}, Net.Step cfg platform net (if tcp then .tcpConsume else .udpConsume) u →
      NetEffect cfg platform env (k.a7 t.frame) k.net u)
    (done : ({ k with net } : Kernel).recvCopy cfg lay platform t.frame t ncap payload tcp = .ok r) :
    Effect cfg lay platform env k c t r := by
  have polled := runs.setNet sound inv
  -- the buffer was checked before the poll
  obtain ⟨mem, n, same⟩ := @recvCopy_admitted cfg lay platform { k with net } c t polled.sound polled.runs ncap ok payload tcp
  rw [same] at done
  obtain ⟨u, consumed, done⟩ := bind_eq_ok done
  have step : Net.Step cfg platform net (if tcp then .tcpConsume else .udpConsume) u := consumed
  have kept := polled.trans (polled.runs.setMem polled.sound mem)
  exact (kept.trans (kept.runs.setNet kept.sound (inv.step step))).answer_effect ecall sound runs rfl (before step) done

theorem sysRecv_effect (ecall : env.scause = Scause.excEcallU) (num : k.a7 t.frame = Syscall.sysRecv)
    (sound : Sound lay k) (runs : Runs k c t) (done : k.sysRecv cfg lay platform env t.frame = .ok r) :
    Effect cfg lay platform env k c t r := by
  by_cases ok : rangeOk lay t (k.a0 t.frame) (copyLen (k.a1 t.frame)) .write
  · rw [sysRecv_admitted sound runs ok] at done
    obtain ⟨m, polled, done⟩ := bind_eq_ok done
    obtain ⟨⟨a, replied⟩, drained, polled⟩ := bind_eq_ok polled
    obtain ⟨b, pumped, polled⟩ := bind_eq_ok polled
    cases polled
    have first : Net.Step cfg platform k.net (.pollRx env.received) a := by
      rw [Net.Step, Net.exec, drained]
      rfl
    have second : Net.Step cfg platform a (.pumpTcp env.now) b := pumped
    have inv : Net.Inv b := (sound.net.step first).step second
    -- Whatever the call does after the poll is local to the stack.
    have called {ops : List Net.Op} {u : Net.Statics} (run : Run (Net.Step cfg platform) b ops u)
        (here : ∀ op ∈ ops, op.isLocal) : NetEffect cfg platform env (k.a7 t.frame) k.net u :=
      .recv ecall num first second run here
    rw [Tcp.pending_eq inv.tcb, bind_ok] at done
    cases has : Tcp.pendingBytes b.tcp.tcb with
    | some payload =>
      simp only [has] at done
      exact recvCopy_effect ecall sound runs inv ok (fun step => called (.single step) (by simp [Net.Op.isLocal])) done
    | none =>
      simp only [has] at done
      obtain ⟨⟨m, eof⟩, told, done⟩ := bind_eq_ok done
      obtain ⟨⟨tcp, l⟩, took, told⟩ := bind_eq_ok told
      cases told
      have third : Net.Step cfg platform b .tcpEof { b with tcp } := by
        rw [Net.Step, Net.exec, took]
        rfl
      have inv' := inv.step third
      have asked : NetEffect cfg platform env (k.a7 t.frame) k.net { b with tcp } :=
        called (.single third) (by simp [Net.Op.isLocal])
      have stays := runs.setNet sound inv'
      dsimp only at done
      split at done
      · exact stays.answer_effect ecall sound runs rfl asked done
      split at done
      · exact recvCopy_effect ecall sound runs inv' ok
          (fun step => called (.cons third (.single step)) (by simp [Net.Op.isLocal])) done
      · exact stays.answer_effect ecall sound runs rfl asked done
  · rw [sysRecv_refused sound runs ok] at done
    exact killInvalidPtr_effect ecall (.inr ⟨num, ok⟩) runs done

theorem sysSend_effect (ecall : env.scause = Scause.excEcallU) (num : k.a7 t.frame = Syscall.sysSend)
    (sound : Sound lay k) (runs : Runs k c t) (done : k.sysSend cfg lay platform env t.frame = .ok r) :
    Effect cfg lay platform env k c t r := by
  by_cases ok : rangeOk lay t (k.a0 t.frame) (copyLen (k.a1 t.frame)) .read
  · obtain ⟨bytes, copies, -⟩ := copyFromUser_admitted sound runs ok
    rw [sysSend, runs.current, bind_ok] at done
    dsimp only at done
    rw [copies, bind_ok] at done
    obtain ⟨⟨m, sent⟩, ran, done⟩ := bind_eq_ok done
    obtain ⟨net, inv, same⟩ := sendBytes_net sound.net ran
    dsimp only at same
    subst same
    have stays := runs.setNet sound inv
    have called : NetEffect cfg platform env (k.a7 t.frame) k.net net := by
      obtain ⟨⟨a, took⟩, tcp, ran⟩ := bind_eq_ok ran
      have first : Net.Step cfg platform k.net (.tcpSend env.now bytes (k.a2 t.frame)) a := by
        rw [Net.Step, Net.exec, tcp]
        rfl
      dsimp only at ran
      split at ran
      · cases ran
        exact .calls ecall (.single first) (by simp [Net.Op.isLocal])
      · obtain ⟨⟨b, sent⟩, udp, ran⟩ := bind_eq_ok ran
        cases ran
        have second : Net.Step cfg platform a (.udpSend bytes) b := by
          rw [Net.Step, Net.exec, udp]
          rfl
        exact .calls ecall (.cons first (.single second)) (by simp [Net.Op.isLocal])
    dsimp only at done
    split at done <;> exact stays.answer_effect ecall sound runs rfl called done
  · rw [sysSend_refused sound runs ok] at done
    exact killInvalidPtr_effect ecall (.inl ⟨.inr num, ok⟩) runs done

theorem fromEcall_effect (ecall : env.scause = Scause.excEcallU) (sound : Sound lay k) (runs : Runs k c t)
    (done : k.fromEcall cfg lay platform env t.frame = .ok r) : Effect cfg lay platform env k c t r := by
  unfold fromEcall at done
  split at done
  · cases done
  dsimp only at done
  split at done
  · rename_i num
    exact sysWrite_effect ecall num sound runs done
  split at done
  · exact sysExit_effect sound runs done
  split at done
  · exact sysSbrk_effect ecall sound runs done
  split at done
  · exact (runs.stays sound).answer_effect ecall sound runs rfl (.none rfl) done
  split at done
  · exact sysYield_effect ecall sound runs done
  split at done
  · rename_i num
    exact sysRecv_effect ecall num sound runs done
  split at done
  · rename_i num
    exact sysSend_effect ecall num sound runs done
  · exact killAndReschedule_effect sound runs done

/-! ## Each trap -/

theorem scause_eq {scause code : Usize} (exception : scause &&& Scause.interrupt = 0)
    (is : scause &&& ~~~Scause.interrupt = code) : scause = code := by
  have whole : scause = (scause &&& Scause.interrupt) ||| (scause &&& ~~~Scause.interrupt) := by
    rw [← BitVec.and_or_distrib_left, BitVec.or_not_self, BitVec.and_allOnes]
  rw [whole, exception, is]
  simp

theorem trapHandler_effect (sound : Sound lay k) (runs : Runs k c t)
    (done : k.trapHandler cfg lay platform env t.frame = .ok r) : Effect cfg lay platform env k c t r := by
  have user := sound.fromUser runs
  unfold trapHandler at done
  dsimp only at done
  split at done
  · cases done
  split at done
  · rename_i interrupt
    split at done
    · obtain ⟨m, ticked, done⟩ := bind_eq_ok done
      unfold onInterrupt at ticked
      split at ticked
      · cases ticked
        have stays := runs.setTicks sound (k.ticks + 1)
        have current : ({ k with ticks := k.ticks + 1 } : Kernel).hasCurrent := by rw [hasCurrent, stays.runs.cur]; rfl
        rw [if_pos current] at done
        exact stays.preempt_effect sound runs (Function.update_eq_self _ _).symm (.tick interrupt) rfl done
      · cases ticked
    · cases done
  rename_i exception
  rw [not_not] at exception
  split at done
  · rename_i ecall
    exact fromEcall_effect (scause_eq exception ecall) sound runs done
  split at done
  · rename_i breakpoint
    -- A breakpoint of the user is skipped by the width of its instruction.
    obtain ⟨half, -, done⟩ := bind_eq_ok done
    obtain ⟨sepc, sum, done⟩ := bind_eq_ok done
    cases done
    rw [addUsize_eq sum]
    have stays : Stays lay k (k.setFrame t.frame { k.frames t.frame with
        sepc := (k.frames t.frame).sepc + Trap.instructionWidth half }) c t :=
      runs.setFrame sound (sound.status runs.task)
    exact .resumed stays rfl (.step (scause_eq exception breakpoint) half) (.none rfl)
  · rw [ite_self] at done
    exact killAndReschedule_effect sound runs done

theorem Effect.netEffect (effect : Effect cfg lay platform env k c t r) :
    NetEffect cfg platform env (k.a7 t.frame) k.net r.1.net := by
  cases effect with
  | resumed _ _ _ net => exact net
  | switched _ _ _ net =>
    exact .none net
  | ended | finished | stopped => exact .none rfl

end

end Kernel

namespace User

variable {cfg : Config} {lay : Layout} {platform : Platform} {u v : User} {tr : UserTrap}

/-- What a trap from U-mode that returned has done. -/
theorem trap_effect (inUser : Kernel.InUser lay u.kernel u.frame) {r : Kernel × Outcome}
    (done : u.trap cfg lay platform tr = .ok r) :
    ∃ c t, Kernel.Runs u.kernel c t ∧ t.frame = u.frame ∧ Kernel.Stays lay u.kernel (u.entered tr) c t ∧
      Kernel.Effect cfg lay platform (u.env tr) (u.entered tr) c t r := by
  obtain ⟨c, t, runs, frame, stays⟩ := entered_stays inUser tr
  rw [trap, ← frame] at done
  exact ⟨c, t, runs, frame, stays, Kernel.trapHandler_effect stays.sound stays.runs done⟩

theorem NetEffect.frames {env : Env} {num : Usize} {net net' : Net.Statics}
    (effect : NetEffect cfg platform env num net net') :
    ∃ ops, Run (Net.Step cfg platform) net ops net' ∧ ops.flatMap Net.Op.frames ⊆ env.received := by
  have empty {ops : List Net.Op} (here : ∀ op ∈ ops, op.isLocal) : ops.flatMap Net.Op.frames = [] := by
    rw [List.flatMap_eq_nil_iff]
    intro op mem
    have isLocal := here op mem
    cases op <;> first | rfl | cases isLocal
  cases effect with
  | none same =>
    rw [same]
    exact ⟨[], .nil, List.nil_subset _⟩
  | calls _ run here => exact ⟨_, run, by rw [empty here]; exact List.nil_subset _⟩
  | recv _ _ polled pumped run here =>
    refine ⟨_, .cons polled (.cons pumped run), ?_⟩
    rw [List.flatMap_cons, List.flatMap_cons, empty here]
    simp [Net.Op.frames]

theorem trap_net (inUser : Kernel.InUser lay u.kernel u.frame) {r : Kernel × Outcome}
    (done : u.trap cfg lay platform tr = .ok r) :
    NetEffect cfg platform (u.env tr) (tr.x Asm.Reg.a7) u.kernel.net r.1.net := by
  obtain ⟨c, t, -, frame, -, effect⟩ := trap_effect inUser done
  have number : (u.entered tr).a7 t.frame = tr.x Asm.Reg.a7 := by rw [frame, Kernel.a7, entered_x]
  rw [← number]
  exact effect.netEffect

theorem foldlM_net {ops : List TableOp} {k m : Kernel} (done : ops.foldlM (TableOp.exec lay) k = .ok m) :
    m.net = k.net := by
  induction ops generalizing k with
  | nil =>
    cases done
    rfl
  | cons op ops ih =>
    obtain ⟨k', first, rest⟩ := bind_eq_ok done
    rw [ih rest]
    cases op with
    | create id entry =>
      change k.create lay id entry = .ok k' at first
      unfold Kernel.create at first
      by_cases unknown : id ≥ maxTasks
      · rw [if_pos unknown] at first
        cases first
      by_cases used : (k.tasks id).isSome
      · rw [if_neg unknown, if_pos used] at first
        cases first
      rw [if_neg unknown, if_neg used] at first
      obtain ⟨s, -, first⟩ := bind_eq_ok first
      by_cases small : s.kstackTop - Trap.frameSize.toNat < s.kstackBottom
      · rw [if_pos small] at first
        cases first
      · rw [if_neg small] at first
        cases first
        rfl
    | retire id =>
      obtain ⟨t, -, first⟩ := bind_eq_ok first
      cases first
      rfl

theorem boot_net {e : Entries} {net : Net.Statics} {ticks : Usize} (booted : boot cfg lay e net ticks = .ok u) :
    u.kernel.net = net := by
  obtain ⟨k, init, booted⟩ := bind_eq_ok booted
  obtain ⟨m, table, init⟩ := bind_eq_ok init
  obtain ⟨-, -, init⟩ := bind_eq_ok init
  cases init
  obtain ⟨⟨m, frame⟩, entered, booted⟩ := bind_eq_ok booted
  cases booted
  obtain ⟨t, -, entered⟩ := bind_eq_ok entered
  cases entered
  exact foldlM_net table

def seen (ops : List Net.Op) (trs : List UserTrap) : List Net.Completion :=
  ops.flatMap Net.Op.frames ++ trs.flatMap UserTrap.received

theorem seen_snoc (ops : List Net.Op) (trs : List UserTrap) (tr : UserTrap) :
    seen ops (trs ++ [tr]) = seen ops trs ++ tr.received := by
  simp [seen]

/-- What is queued in a state that a run reaches was received whole. -/
theorem run_origin (answers : platform.Answers) {mac : Mac} {ops : List Net.Op} {net : Net.Statics}
    (stack : Run (Net.Step cfg platform) (.boot mac) ops net) {e : Entries} {ticks : Usize}
    (booted : boot cfg lay e net ticks = .ok u) {trs : List UserTrap} (run : Run (Step cfg lay platform) u trs v) :
    Net.Origin (seen ops trs) v.kernel.net := by
  obtain ⟨_, done, start⟩ := boot_returns cfg lay e (.run stack (.boot mac)) ticks
  cases done.symm.trans booted
  have origin : Net.Origin (seen ops []) u.kernel.net := by
    rw [boot_net booted, seen, List.flatMap_nil, List.append_nil]
    exact .run stack
  have both : Kernel.InUser lay v.kernel v.frame ∧ Net.Origin (seen ops trs) v.kernel.net := by
    refine @Run.history _ _ _ (fun trs v => Kernel.InUser lay v.kernel v.frame ∧ Net.Origin (seen ops trs) v.kernel.net)
      (fun trs a tr b held step => ?_) _ _ _ run ⟨start, origin⟩
    obtain ⟨ops', calls, sub⟩ := NetEffect.frames (trap_net held.1 step)
    refine ⟨step.inUser answers held.1, (held.2.steps calls).mono ?_⟩
    rw [seen_snoc]
    exact List.append_subset.mpr ⟨List.subset_append_left _ _, fun c mem => List.mem_append_right _ (sub mem)⟩
  exact both.2

end User

end Whimbrel

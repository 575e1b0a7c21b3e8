import Whimbrel.Trap.Calls

/-! The panics a trap from U-mode can end in.

The checks on the scheduler's own data are not among them: the handler always
finds a current task, its slot and its frame. -/

set_option autoImplicit false

namespace Whimbrel

open Checked Uaccess
open Trap (TrapFrame)

/-- A trap of a task may end in this panic. -/
def Panic.OfTrap (e : Panic) : Prop :=
  e ∈ [.overflow, .noGatewayMac, .txBuf, .rexmitCount, .userFaultCheck, .kernelFault, .unknownTrap]

instance (e : Panic) : Decidable e.OfTrap := inferInstanceAs (Decidable (e ∈ _))

theorem addUsize_fails (cfg : Config) (a b : Usize) : Fails (addUsize cfg a b) Panic.OfTrap := by
  unfold addUsize
  split
  · exact .error (by decide)
  · exact .ok _

namespace Net

variable {cfg : Config} {platform : Platform} {net : Statics}

/-- One frame stops the kernel only for want of the gateway, or of a counter. -/
theorem rxStep_fails {took : U32} {replied : Bool} {c : Completion} (known : c.id.toNat < rxBufs) :
    Fails (rxStep cfg platform net took replied c) Panic.OfTrap := by
  unfold rxStep
  rw [if_neg (Nat.not_le.mpr known)]
  refine .bind ?_ fun r _ => .bind ?_ fun took' _ => .ok _
  · by_cases answerable : c.Answerable net.arp.cache
    · exact (@classifyRx_returns cfg platform
        { net with rxSeen := net.rxSeen + 1, rxCompleted := net.rxCompleted + 1 } c answerable).fails
    · unfold Completion.Answerable at answerable
      push Not at answerable
      obtain ⟨frame, has, request, absent⟩ := answerable
      rw [@classifyRx_error cfg platform
        { net with rxSeen := net.rxSeen + 1, rxCompleted := net.rxCompleted + 1 } c frame has request absent]
      exact .error (by decide)
  · unfold succ32
    split
    · exact .error (by decide)
    · exact .ok _

theorem rxLoop_fails {took : U32} {replied : Bool} {cs : List Completion} (ids : ∀ c ∈ cs, c.id.toNat < rxBufs) :
    Fails (rxLoop cfg platform net took replied cs) Panic.OfTrap := by
  induction cs generalizing net took replied with
  | nil => exact .ok _
  | cons c cs ih =>
    exact .bind (rxStep_fails (ids c List.mem_cons_self)) fun r _ => ih fun c mem => ids c (List.mem_cons_of_mem _ mem)

theorem pollRx_fails (inv : Inv net) {cs : List Completion} (ids : ∀ c ∈ cs, c.id.toNat < rxBufs) :
    Fails (pollRx cfg platform net cs) Panic.OfTrap := by
  refine .bind (rxLoop_fails ids) fun r loop => ?_
  obtain ⟨-, countable, answerable⟩ := rxLoop_ok loop
  obtain ⟨r', same, inflight, -⟩ := @rxLoop_returns cfg platform net 0 false cs ids countable answerable
  cases loop.symm.trans same
  obtain ⟨u, took, replied⟩ := r
  dsimp only
  rw [if_neg fun leaked => leaked.2 (inflight.trans inv.inflight)]
  exact .ok _

theorem udpSend_fails {payload : List U8} (small : payload.length < 2 ^ 16) :
    Fails (udpSend net payload) Panic.OfTrap := by
  unfold udpSend
  split
  · exact .ok _
  refine .bind ?_ fun _ _ => .ok _
  by_cases fits : Arp.lookup net.arp.cache gwIp ≠ none ∧ payload.length ≤ udpRoom
  · obtain ⟨u, done⟩ := (txUdp_ok_iff small net.udpSrcIp net.udpSrcPort).mpr fits
    rw [done]
    exact .ok _
  unfold txUdp gatewayMac
  cases known : Arp.lookup net.arp.cache gwIp with
  | none => exact .error (by decide)
  | some gw =>
    have long : udpRoom < payload.length := Nat.not_le.mp fun fit => fits ⟨by simp [known], fit⟩
    have long32 : bufLen < (BitVec.ofNat 32 (vnetHdr + max (ethHdr + (20 + (8 + payload.length))) ethMin)).toNat := by
      simp only [udpRoom, transportMax, bufLen, vnetHdr, ethHdr, ethMin, Udp.hdr, BitVec.toNat_ofNat] at long ⊢
      omega
    rw [bind_ok]
    unfold txIpv4 ipv4Frame fillTx
    dsimp only
    rw [if_pos long32]
    exact .error (by decide)

end Net

namespace Kernel

section
variable {cfg : Config} {lay : Layout} {platform : Platform} {env : Env} {k m : Kernel} {c : Nat} {t : Task}

theorem answer_fails (frame error value : Usize) : Fails (k.answer cfg frame error value) Panic.OfTrap :=
  .bind (.bind (addUsize_fails _ _ _) fun _ _ => .ok _) fun _ _ => .ok _

theorem Parked.afterExit_fails (parked : Parked lay k m c) (answers : platform.Answers) (id : Nat) :
    Fails (m.afterExit cfg platform id) Panic.OfTrap := by
  obtain ⟨r, next, found⟩ := nextReadyAfter_returns parked.sound id
  unfold afterExit
  rw [next, bind_ok]
  cases r with
  | some n =>
    obtain ⟨known, s, task, -⟩ := found
    dsimp only
    rw [run_eq known task]
    exact .ok _
  | none =>
    obtain ⟨stops, -⟩ := finishSched_eq cfg answers parked.sound parked.idle found
    by_cases can : CanFinish cfg m
    · dsimp only
      rw [stops can]
      exact .ok _
    dsimp only
    unfold finishSched
    split
    · obtain ⟨t1, task1⟩ := parked.sound.made (show 1 < maxTasks by decide)
      obtain ⟨t2, task2⟩ := parked.sound.made (show 2 < maxTasks by decide)
      unfold finishUserFault
      rw [get_ok (by decide) task1, bind_ok, get_ok (by decide) task2, bind_ok]
      -- The checks of `finish_user_fault`: both tasks have ended, and task 1 has written.
      by_cases alive : t1.state ≠ .exited ∨ t2.state ≠ .exited
      · rw [if_pos alive]
        exact .error (e := Panic.userFaultCheck) (by decide)
      rw [if_neg alive]
      by_cases silent : t1.writes = 0
      · rw [if_pos silent]
        exact .error (e := Panic.userFaultCheck) (by decide)
      · rw [if_neg silent, stopUntilScheduler_eq answers]
        exact .ok _
    · unfold finishApp
      split
      · exact .error (by decide)
      · rw [stopUntilScheduler_eq answers]
        exact .ok _

theorem ended_fails (answers : platform.Answers) (sound : Sound lay k) (runs : Runs k c t) (code : Usize) :
    Fails ((k.ended c { t with exitCode := code }).afterExit cfg platform t.id) Panic.OfTrap := by
  have inv : Task.Inv lay c { t with exitCode := code } := { sound.task runs.task with }
  obtain ⟨parked, -, -⟩ := runs.ended sound inv rfl
  exact parked.afterExit_fails answers t.id

theorem killAndReschedule_fails (answers : platform.Answers) (sound : Sound lay k) (runs : Runs k c t) :
    Fails (k.killAndReschedule cfg platform) Panic.OfTrap := by
  rw [runs.killAndReschedule_eq]
  exact @ended_fails cfg lay platform k c t answers sound runs t.exitCode

theorem killInvalidPtr_fails (answers : platform.Answers) (runs : Runs k c t) :
    Fails (k.killInvalidPtr platform t.frame) Panic.OfTrap := by
  rw [killInvalidPtr_eq answers runs]
  exact .ok _

theorem sysWrite_fails (answers : platform.Answers) (sound : Sound lay k) (runs : Runs k c t) :
    Fails (k.sysWrite cfg lay platform t.frame) Panic.OfTrap := by
  obtain ⟨r, copied, -⟩ :=
    copyFromUser_returns (sound.task runs.task) runs.known k.mem (k.a0 t.frame) (k.a1 t.frame)
  rw [sysWrite, runs.current, bind_ok]
  dsimp only
  rw [copied, bind_ok]
  cases r with
  | ok bytes => exact .bind (addUsize_fails _ _ _) fun _ _ => answer_fails _ _ _
  | error e => exact killInvalidPtr_fails answers runs

theorem sysYield_fails (sound : Sound lay k) (runs : Runs k c t) : Fails (k.sysYield cfg t.frame) Panic.OfTrap := by
  refine .bind (.bind (addUsize_fails _ _ _) fun _ _ => .ok _) fun u done => ?_
  have advanced := runs.advanceEcall sound done
  have stays := advanced.trans (advanced.runs.setRetval advanced.sound Syscall.ok 0)
  rw [yieldCpu, stays.runs.current, bind_ok]
  refine .bind (addUsize_fails _ _ _) fun yields _ => ?_
  have inv : Task.Inv lay c { t with yields } := { sound.task runs.task with }
  have counted := stays.runs.put stays.sound inv runs.running
  -- the current task's own frame is the one that was trapped
  exact (preempt_returns counted.sound counted.runs).fails

theorem recvCopy_fails (sound : Sound lay k) (runs : Runs k c t) {ncap : Nat}
    (ok : rangeOk lay t (k.a0 t.frame) ncap .write) (payload : List U8) (tcp : Bool) :
    Fails (k.recvCopy cfg lay platform t.frame t ncap payload tcp) Panic.OfTrap := by
  obtain ⟨mem, n, same⟩ := @recvCopy_admitted cfg lay platform k c t sound runs ncap ok payload tcp
  rw [same]
  refine .bind ?_ fun _ _ => answer_fails _ _ _
  cases tcp
  · exact .ok _
  · exact .ok _

theorem recvChecked_fails (answers : platform.Answers) (sound : Sound lay k) (runs : Runs k c t)
    (ids : ∀ e ∈ env.received, e.id.toNat < Net.rxBufs) {ncap : Nat} (ok : rangeOk lay t (k.a0 t.frame) ncap .write) :
    Fails (k.recvChecked cfg lay platform env t.frame t ncap) Panic.OfTrap := by
  refine .bind (.bind (Net.pollRx_fails sound.net ids) fun r polled => ?_) fun u polled => ?_
  · exact .bind (Net.pumpTcp_returns answers (sound.net.pollRx polled)).fails fun _ _ => .ok _
  obtain ⟨net, inv, rfl⟩ := poll_net sound.net polled
  have stays := runs.setNet sound inv
  rw [Tcp.pending_eq inv.tcb, bind_ok]
  cases Tcp.pendingBytes net.tcp.tcb with
  | some payload => exact recvCopy_fails stays.sound stays.runs ok payload true
  | none =>
    obtain ⟨tcp, eof, told, step⟩ := tcpEof_returns cfg platform { k with net }
    have ended := runs.setNet sound (inv.step step)
    dsimp only
    rw [told, bind_ok]
    dsimp only
    split
    · exact answer_fails _ _ _
    split
    · exact recvCopy_fails ended.sound ended.runs ok _ false
    · exact answer_fails _ _ _

theorem sysRecv_fails (answers : platform.Answers) (sound : Sound lay k) (runs : Runs k c t)
    (ids : ∀ e ∈ env.received, e.id.toNat < Net.rxBufs) :
    Fails (k.sysRecv cfg lay platform env t.frame) Panic.OfTrap := by
  by_cases ok : rangeOk lay t (k.a0 t.frame) (copyLen (k.a1 t.frame)) .write
  · rw [sysRecv_admitted sound runs ok]
    exact recvChecked_fails answers sound runs ids ok
  · rw [sysRecv_refused sound runs ok]
    exact killInvalidPtr_fails answers runs

theorem sysSend_fails (answers : platform.Answers) (sound : Sound lay k) (runs : Runs k c t) :
    Fails (k.sysSend cfg lay platform env t.frame) Panic.OfTrap := by
  by_cases ok : rangeOk lay t (k.a0 t.frame) (copyLen (k.a1 t.frame)) .read
  case neg =>
    rw [sysSend_refused sound runs ok]
    exact killInvalidPtr_fails answers runs
  obtain ⟨bytes, copied, length⟩ := copyFromUser_admitted sound runs ok
  have small : bytes.length < 2 ^ 16 := by
    rw [length, copyLen, copyMax]
    omega
  rw [sysSend, runs.current, bind_ok]
  dsimp only
  rw [copied, bind_ok]
  refine .bind (.bind (Net.tcpSend_returns answers sound.net _ _).fails fun r _ => ?_) fun r _ => ?_
  · obtain ⟨net, sent⟩ := r
    dsimp only
    split
    · exact .ok _
    · exact .bind (Net.udpSend_fails small) fun _ _ => .ok _
  · obtain ⟨u, sent⟩ := r
    dsimp only
    split
    · exact answer_fails _ _ _
    · exact answer_fails _ _ _

theorem fromEcall_fails (answers : platform.Answers) (sound : Sound lay k) (runs : Runs k c t)
    (closed : env.sstatus &&& Sstatus.sum = 0) (ids : ∀ e ∈ env.received, e.id.toNat < Net.rxBufs) :
    Fails (k.fromEcall cfg lay platform env t.frame) Panic.OfTrap := by
  unfold fromEcall
  rw [if_neg (not_not.mpr closed)]
  dsimp only
  split
  · exact sysWrite_fails answers sound runs
  split
  · rw [runs.sysExit_eq]
    exact ended_fails answers sound runs _
  split
  · rw [sysSbrk, runs.current, bind_ok]
    dsimp only
    split
    · exact answer_fails _ _ _
    · split
      · exact answer_fails _ _ _
      · exact answer_fails _ _ _
  split
  · exact answer_fails _ _ _
  split
  · exact sysYield_fails sound runs
  split
  · exact sysRecv_fails answers sound runs ids
  split
  · exact sysSend_fails answers sound runs
  · exact killAndReschedule_fails answers sound runs

theorem trapHandler_fails (answers : platform.Answers) (sound : Sound lay k) (runs : Runs k c t)
    (kernelMode : env.sscratch = 0) (closed : env.sstatus &&& Sstatus.sum = 0)
    (ids : ∀ e ∈ env.received, e.id.toNat < Net.rxBufs) :
    Fails (k.trapHandler cfg lay platform env t.frame) Panic.OfTrap := by
  by_cases interrupt : env.scause &&& Scause.interrupt = 0
  · have user := sound.fromUser runs
    unfold trapHandler
    rw [if_neg (not_not.mpr kernelMode), if_neg (not_not.mpr interrupt), if_pos user, if_pos user, ite_self]
    split
    · exact fromEcall_fails answers sound runs closed ids
    split
    · refine .bind ?_ fun half _ => .bind (addUsize_fails _ _ _) fun _ _ => .ok _
      unfold readHalf
      split
      · exact .ok _
      · exact .error (by decide)
    · exact killAndReschedule_fails answers sound runs
  · by_cases timer : env.scause &&& ~~~Scause.interrupt = Scause.intSTimer
    · exact (trapHandler_timer answers sound runs kernelMode interrupt timer).fails
    · rw [trapHandler_otherInterrupt kernelMode interrupt timer]
      exact .error (by decide)

end

end Kernel

theorem User.trap_fails {cfg : Config} {lay : Layout} {platform : Platform} {u : User} {tr : UserTrap}
    (answers : platform.Answers) (inUser : Kernel.InUser lay u.kernel u.frame) :
    Fails (u.trap cfg lay platform tr) Panic.OfTrap := by
  obtain ⟨c, t, -, frame, stays⟩ := entered_stays inUser tr
  rw [trap, ← frame]
  exact Kernel.trapHandler_fails answers stays.sound stays.runs rfl (env_closed inUser tr) tr.ids

end Whimbrel

import Whimbrel.Net.Address
import Whimbrel.Recv

/-! `send` as the answer to a `recv`.

`send` does not know what `recv` delivered: it asks the TCB first and falls back
to the last UDP peer. `ReplySafe` is when that choice meets the sender. -/

set_option autoImplicit false

namespace Whimbrel

open Checked Transition Uaccess
open Net (Endpoint Transport)

/-- The message a frame carries over a transport. -/
def Net.Completion.message (c : Net.Completion) : Transport → Option Net.Message
  | .tcp => c.segment
  | .udp => c.datagram

namespace Kernel

/-- What a `recv` that polled to `m` hands over, and who sent it. -/
def delivered (m : Kernel) : Option (Endpoint × List U8) :=
  match Tcp.pendingBytes m.net.tcp.tcb with
  | some p => some (⟨.tcp, m.net.tcp.tcb.remoteIp, m.net.tcp.tcb.remotePort⟩, p)
  | none =>
    if (Tcp.takeEof m.net.tcp.tcb).2.1 then none
    else if m.net.udpPending then some (⟨.udp, m.net.udpSrcIp, m.net.udpSrcPort⟩, m.net.udpData)
    else none

/-- A `send` that found `net` failed and transmitted nothing, or transmitted to `e`. -/
def Replies (e : Endpoint) (net : Net.Statics) (r : Kernel × Outcome) : Prop :=
  (r.1.net.wire = net.wire ∧
    ∀ frame, r.2 = .resume frame → (r.1.frames frame).x Asm.Reg.a0 = Syscall.errInvalidParam) ∨
  ∃ f, r.1.net.wire = net.wire ++ [f] ∧ Net.addressee f = some e

/-- The connection takes the bytes exactly if it is to answer. -/
def ReplySafe (net : Net.Statics) (len : Nat) : Transport → Prop
  | .tcp => if Tcp.takesSend net.tcp.tcb len then Arp.lookup net.arp.cache gwIp ≠ none else ¬ net.udpPeer
  | .udp => ¬ Tcp.takesSend net.tcp.tcb len

instance (net : Net.Statics) (len : Nat) (t : Transport) : Decidable (ReplySafe net len t) := by
  cases t <;> dsimp only [ReplySafe] <;> infer_instance

/-- The endpoint is the one `send` would use on its transport. -/
def Current (net : Net.Statics) (e : Endpoint) : Prop :=
  e = ⟨.tcp, net.tcp.tcb.remoteIp, net.tcp.tcb.remotePort⟩ ∨
    e = ⟨.udp, net.udpSrcIp, net.udpSrcPort⟩ ∧ net.udpPeer

inductive Sent (net : Net.Statics) (len : Nat) (u : Net.Statics) : Bool → Prop where
  | lost (takes : Tcp.takesSend net.tcp.tcb len) (unknown : Arp.lookup net.arp.cache gwIp = none)
      (wire : u.wire = net.wire) : Sent net len u true
  | tcp {f : List U8} (takes : Tcp.takesSend net.tcp.tcb len) (known : Arp.lookup net.arp.cache gwIp ≠ none)
      (wire : u.wire = net.wire ++ [f])
      (dst : Net.addressee f = some ⟨.tcp, net.tcp.tcb.remoteIp, net.tcp.tcb.remotePort⟩) : Sent net len u true
  | udp {f : List U8} (refused : ¬ Tcp.takesSend net.tcp.tcb len) (peer : net.udpPeer) (wire : u.wire = net.wire ++ [f])
      (dst : Net.addressee f = some ⟨.udp, net.udpSrcIp, net.udpSrcPort⟩) : Sent net len u true
  | none (refused : ¬ Tcp.takesSend net.tcp.tcb len) (peer : ¬ net.udpPeer) (wire : u.wire = net.wire) :
      Sent net len u false

section
variable {cfg : Config} {lay : Layout} {platform : Platform} {env : Env} {k m : Kernel} {c : Nat} {t : Task}

theorem sendBytes_sent {bytes : List U8} {flags : Usize} {sent : Bool} (small : bytes.length < 2 ^ 15)
    (done : k.sendBytes cfg platform env bytes flags = .ok (m, sent)) : Sent k.net bytes.length m.net sent := by
  obtain ⟨⟨net, took⟩, tcp, done⟩ := bind_eq_ok done
  obtain ⟨⟨tcp', l⟩, ran, tcp⟩ := bind_eq_ok tcp
  by_cases takes : Tcp.takesSend k.net.tcp.tcb bytes.length
  · obtain ⟨seq, ack, segFlags, out⟩ := @Tcp.appSend_length env.now k.net.tcp.tcb bytes (flags &&& 1 ≠ 0) takes
    have same : l.out = (Tcp.appSend env.now k.net.tcp.tcb bytes (flags &&& 1 ≠ 0)).2.1 := by
      cases ran
      rfl
    dsimp only at tcp
    rw [same, out, if_neg (by simp)] at tcp
    obtain ⟨u, seg, tcp⟩ := bind_eq_ok tcp
    cases tcp
    cases done
    have went := Net.txTcpSeg_addressee seg
    -- Without the gateway the segment is not transmitted, although the TCB took it.
    by_cases unknown : Arp.lookup k.net.arp.cache gwIp = none
    · rw [if_pos unknown] at went
      exact .lost takes unknown went
    · rw [if_neg unknown] at went
      obtain ⟨f, wire, dst⟩ := went
      exact .tcp takes unknown wire dst
  · rw [Bool.not_eq_true] at takes
    simp only [Tcp.exec, Tcp.appSend_refused takes] at ran
    cases ran
    cases tcp
    obtain ⟨⟨u, sent⟩, udp, done⟩ := bind_eq_ok done
    cases done
    have refused : ¬ Tcp.takesSend k.net.tcp.tcb bytes.length := by rw [takes]; simp
    unfold Net.udpSend at udp
    split at udp
    · rename_i peer
      cases udp
      exact .none refused peer rfl
    · rename_i peer
      obtain ⟨v, tx, udp⟩ := bind_eq_ok udp
      cases udp
      obtain ⟨f, same, dst⟩ := Net.txUdp_addressee small tx
      exact .udp refused (not_not.mp peer) (by rw [same]; rfl) dst

theorem replies_sent_iff {e dst : Endpoint} {net : Net.Statics} {r : Kernel × Outcome} {f : List U8}
    (wire : r.1.net.wire = net.wire ++ [f]) (went : Net.addressee f = some dst) : Replies e net r ↔ dst = e := by
  constructor
  · rintro (⟨same, -⟩ | ⟨g, sent, there⟩)
    · rw [wire] at same
      exact absurd same (by simp)
    · rw [wire, List.append_cancel_left_eq, List.cons.injEq] at sent
      rw [← sent.1, went, Option.some.injEq] at there
      exact there
  · rintro rfl
    exact .inr ⟨f, wire, went⟩

theorem not_replies {e : Endpoint} {net : Net.Statics} {u : Kernel} {frame : Usize} (wire : u.net.wire = net.wire)
    (ok : (u.frames frame).x Asm.Reg.a0 = Syscall.ok) : ¬ Replies e net (u, .resume frame) := by
  rintro (⟨-, refused⟩ | ⟨f, sent, -⟩)
  · have error := refused frame rfl
    rw [ok] at error
    exact absurd error (by decide)
  · rw [wire] at sent
    exact absurd sent (by simp)

/-- A `send` with a valid buffer: who gets the bytes. -/
theorem Sent.replies_iff {net u : Net.Statics} {len : Nat} {sent : Bool} {e : Endpoint} {r : Kernel × Outcome}
    {frame value : Usize} {f : Trap.TrapFrame} (went : Sent net len u sent) (current : Current net e)
    (result : r = (({ k with net := u } : Kernel).setFrame frame
      (f.answered (if sent then Syscall.ok else Syscall.errInvalidParam) value), .resume frame)) :
    Replies e net r ↔ ReplySafe net len e.transport := by
  have pair : (r.1.frames frame).x Asm.Reg.a0 = if sent then Syscall.ok else Syscall.errInvalidParam := by
    rw [result]
    simp [setFrame]
  have net' : r.1.net = u := by rw [result]; rfl
  have back : r.2 = .resume frame := by rw [result]
  -- Who is to be answered against what was done: eight cases, one of them impossible.
  rcases current with rfl | ⟨rfl, peer⟩
  · cases went with
    | lost takes unknown wire =>
      have silent := @not_replies ⟨.tcp, net.tcp.tcb.remoteIp, net.tcp.tcb.remotePort⟩ net r.1 frame (net' ▸ wire) pair
      rw [← back] at silent
      simp [ReplySafe, takes, unknown, silent]
    | tcp takes known wire dst =>
      rw [replies_sent_iff (net' ▸ wire) dst]
      simp [ReplySafe, takes, known]
    | udp refused peer wire dst =>
      rw [replies_sent_iff (net' ▸ wire) dst]
      simp [ReplySafe, refused, peer]
    | none refused peer wire =>
      have failed : Replies ⟨.tcp, net.tcp.tcb.remoteIp, net.tcp.tcb.remotePort⟩ net r :=
        .inl ⟨net' ▸ wire, fun frame' same => by cases back.symm.trans same; exact pair⟩
      simp [ReplySafe, refused, peer, failed]
  · cases went with
    | lost takes unknown wire =>
      have silent := @not_replies ⟨.udp, net.udpSrcIp, net.udpSrcPort⟩ net r.1 frame (net' ▸ wire) pair
      rw [← back] at silent
      simp [ReplySafe, takes, silent]
    | tcp takes known wire dst =>
      rw [replies_sent_iff (net' ▸ wire) dst]
      simp [ReplySafe, takes]
    | udp refused _ wire dst =>
      rw [replies_sent_iff (net' ▸ wire) dst]
      simp [ReplySafe, refused]
    | none refused none wire => exact absurd peer none

theorem sysSend_replies_iff (sound : Sound lay k) (runs : Runs k c t) {e : Endpoint} (current : Current k.net e)
    {r : Kernel × Outcome} (done : k.sysSend cfg lay platform env t.frame = .ok r) :
    Replies e k.net r ↔ (rangeOk lay t (k.a0 t.frame) (copyLen (k.a1 t.frame)) .read →
      ReplySafe k.net (copyLen (k.a1 t.frame)) e.transport) := by
  obtain ⟨copied, reads, result⟩ :=
    copyFromUser_returns (sound.task runs.task) runs.known k.mem (k.a0 t.frame) (k.a1 t.frame)
  rw [sysSend, runs.current, bind_ok] at done
  dsimp only at done
  rw [reads, bind_ok] at done
  by_cases ok : rangeOk lay t (k.a0 t.frame) (copyLen (k.a1 t.frame)) .read
  · rw [if_pos ok] at result
    obtain ⟨bytes, rfl, length⟩ := result
    rw [imp_iff_right ok, ← length]
    have small : bytes.length < 2 ^ 15 := by
      rw [length, copyLen, copyMax]
      omega
    obtain ⟨⟨m, sent⟩, ran, done⟩ := bind_eq_ok done
    obtain ⟨net, -, same⟩ := sendBytes_net sound.net ran
    dsimp only at same
    subst same
    have went := sendBytes_sent small ran
    dsimp only at done
    cases sent with
    | true => exact went.replies_iff current (answer_eq done)
    | false => exact went.replies_iff current (answer_eq done)
  · rw [if_neg ok] at result
    obtain ⟨_, rfl⟩ := result
    refine iff_of_true ?_ fun valid => absurd valid ok
    -- an invalid pointer resumes nobody and transmits nothing
    rw [killInvalidPtr_eq_ok runs done]
    exact .inl ⟨rfl, fun frame same => by cases same⟩

/-- The endpoint of a delivery is the one `send` would use on its transport. -/
theorem Picks.current {e : Endpoint} {p : List U8} {seen : List Net.Completion} {frame ptr : Usize} {ncap : Nat}
    {u : Kernel} (picks : Picks cfg m frame ptr ncap u) (delivers : m.delivered = some (e, p))
    (origin : Net.Origin seen m.net) : Current u.net e := by
  cases picks with
  | segment has consumed =>
    rw [delivered, has] at delivers
    cases delivers
    cases consumed
    exact .inl rfl
  | @eof _ l read took told =>
    have same : l.eof = (Tcp.takeEof m.net.tcp.tcb).2.1 := by
      cases took
      rfl
    rw [delivered, read] at delivers
    dsimp only at delivers
    rw [if_pos (same ▸ told)] at delivers
    cases delivers
  | datagram read took has =>
    rw [delivered, read] at delivers
    dsimp only at delivers
    rw [if_pos has] at delivers
    split at delivers
    · cases delivers
    · cases delivers
      exact .inr ⟨rfl, origin.peer has⟩
  | again read _ none =>
    rw [delivered, read] at delivers
    dsimp only at delivers
    rw [if_neg none] at delivers
    split at delivers <;> cases delivers

/-- What is delivered was received, whole, from that endpoint. -/
theorem delivered_message {e : Endpoint} {p : List U8} {seen : List Net.Completion}
    (delivers : m.delivered = some (e, p)) (origin : Net.Origin seen m.net) :
    ∃ c ∈ seen, c.message e.transport = some ⟨e.ip, e.port, p⟩ := by
  rw [delivered] at delivers
  split at delivers
  case h_1 has =>
    cases delivers
    exact origin.segment has
  case h_2 =>
    split at delivers
    · cases delivers
    split at delivers
    · cases delivers
      exact origin.datagram ‹_›
    · cases delivers

end

end Kernel

namespace User

/-- The condition on the state a `send` finds and on its arguments: a buffer that is
accepted is sent, and to the right peer. -/
def ReplySafe (cfg : Config) (lay : Layout) (u : User) (tr : UserTrap) (t : Transport) : Prop :=
  ∀ task ∈ u.kernel.cur.bind u.kernel.tasks,
    rangeOk lay task (tr.x Asm.Reg.a0) (copyLen (tr.x Asm.Reg.a1)) .read →
      (SendSafe u.kernel.net (copyLen (tr.x Asm.Reg.a1)) ∧ AddSafe cfg tr.sepc 4) ∧
        Kernel.ReplySafe u.kernel.net (copyLen (tr.x Asm.Reg.a1)) t

instance (cfg : Config) (lay : Layout) (u : User) (tr : UserTrap) (t : Transport) :
    Decidable (u.ReplySafe cfg lay tr t) :=
  inferInstanceAs (Decidable (∀ task ∈ u.kernel.cur.bind u.kernel.tasks, _))

section
variable {cfg : Config} {lay : Layout} {platform : Platform} {u v w : User} {tr : UserTrap}

theorem Step.net_eq (inUser : Kernel.InUser lay u.kernel u.frame) (step : Step cfg lay platform u tr v)
    (other : tr.scause ≠ Scause.excEcallU) : v.kernel.net = u.kernel.net :=
  (trap_net inUser step).eq_of_ne other

theorem send_replies_iff (answers : platform.Answers) (inUser : Kernel.InUser lay u.kernel u.frame) {e : Endpoint}
    (current : Kernel.Current u.kernel.net e) (ecall : tr.scause = Scause.excEcallU)
    (num : tr.x Asm.Reg.a7 = Syscall.sysSend) :
    (∃ r, u.trap cfg lay platform tr = .ok r ∧ Kernel.Replies e u.kernel.net r) ↔
      u.ReplySafe cfg lay tr e.transport := by
  obtain ⟨c, t, runs, frame, stays⟩ := entered_stays inUser tr
  have number : (u.entered tr).a7 u.frame = Syscall.sysSend := by rw [Kernel.a7, entered_x, num]
  have returns := @ecall_ok_iff cfg lay platform u tr answers inUser ecall c t runs
  have safe : u.ReplySafe cfg lay tr e.transport ↔
      (rangeOk lay t (tr.x Asm.Reg.a0) (copyLen (tr.x Asm.Reg.a1)) .read →
        (SendSafe u.kernel.net (copyLen (tr.x Asm.Reg.a1)) ∧ AddSafe cfg tr.sepc 4) ∧
          Kernel.ReplySafe u.kernel.net (copyLen (tr.x Asm.Reg.a1)) e.transport) := by
    simp [ReplySafe, runs.cur, runs.task]
  have replies {r : Kernel × Outcome} (done : u.trap cfg lay platform tr = .ok r) :
      Kernel.Replies e u.kernel.net r ↔ (rangeOk lay t (tr.x Asm.Reg.a0) (copyLen (tr.x Asm.Reg.a1)) .read →
        Kernel.ReplySafe u.kernel.net (copyLen (tr.x Asm.Reg.a1)) e.transport) := by
    rw [trap, Kernel.trapHandler_ecall rfl ecall, Kernel.fromEcall_send (env_closed inUser tr) number, ← frame] at done
    have sent := Kernel.sysSend_replies_iff stays.sound stays.runs current done
    rwa [frame, Kernel.a0, Kernel.a1, entered_x] at sent
  rw [Kernel.refused_or_callSafe_send (by rw [frame]; exact number), frame, Kernel.a0, Kernel.a1, entered_x,
    entered_sepc] at returns
  change _ ↔ (_ → SendSafe u.kernel.net _ ∧ _) at returns
  rw [safe, imp_and, ← returns]
  constructor
  · rintro ⟨r, done, right⟩
    exact ⟨⟨r, done⟩, (replies done).mp right⟩
  · rintro ⟨⟨r, done⟩, right⟩
    exact ⟨r, done, (replies done).mpr right⟩

/-- In every reachable state: `recv` delivers a received message from `e`, and the
next system call, after any ticks, is a `send`. It fails and transmits nothing, or
transmits to `e` over the same transport, exactly when its buffer is refused or it
does not panic and the connection takes the bytes if and only if `e` is its peer. -/
theorem reply_reaches_sender_iff (answers : platform.Answers) {mac : Mac} {ops : List Net.Op} {net : Net.Statics}
    (stack : Run (Net.Step cfg platform) (.boot mac) ops net) {entries : Entries} {ticks : Usize}
    (booted : boot cfg lay entries net ticks = .ok u) {trs : List UserTrap} (run : Run (Step cfg lay platform) u trs v)
    (ecall : tr.scause = Scause.excEcallU) (num : tr.x Asm.Reg.a7 = Syscall.sysRecv) {k m : Kernel} {frame : Usize}
    (returned : v.trap cfg lay platform tr = .ok (k, .resume frame))
    (polled : (v.entered tr).poll cfg platform (v.env tr) = .ok m) {e : Endpoint} {p : List U8}
    (delivers : m.delivered = some (e, p)) {others : List UserTrap}
    (between : Run (StepWhen cfg lay platform fun _ tr => tr.scause ≠ Scause.excEcallU) ⟨k, frame⟩ others w)
    {send : UserTrap} (ecall' : send.scause = Scause.excEcallU) (num' : send.x Asm.Reg.a7 = Syscall.sysSend) :
    (∃ c ∈ seen ops (trs ++ [tr]), c.message e.transport = some ⟨e.ip, e.port, p⟩) ∧
      ((∃ r, w.trap cfg lay platform send = .ok r ∧ Kernel.Replies e w.kernel.net r) ↔
        w.ReplySafe cfg lay send e.transport) := by
  have inUser := run_inUser answers stack booted run
  have origin : Net.Origin (seen ops (trs ++ [tr])) m.net := by
    rw [seen_snoc]
    exact poll_origin (run_origin answers stack booted run) polled
  refine ⟨Kernel.delivered_message delivers origin, ?_⟩
  obtain ⟨rfl, m', same, picks⟩ := trap_recv inUser ecall num returned
  cases polled.symm.trans same
  have current : Kernel.Current k.net e := picks.current delivers origin
  -- the ticks in between leave the stack as `recv` left it
  have step : Step cfg lay platform v tr ⟨k, v.frame⟩ := returned
  have after : Kernel.InUser lay w.kernel w.frame ∧ w.kernel.net = k.net := by
    refine @Run.invariant _ _ _ (fun w => Kernel.InUser lay w.kernel w.frame ∧ w.kernel.net = k.net)
      (fun a tr b held step => ?_) _ _ _ between ⟨step.inUser answers inUser, rfl⟩
    exact ⟨step.1.inUser answers held.1, (step.1.net_eq held.1 step.2).trans held.2⟩
  rw [← after.2] at current
  exact send_replies_iff answers after.1 current ecall' num'

end

/-- A `recv` of the app, then a `send` of `len` bytes: who sent what is delivered, and
to whom the frames of the reply go. -/
def exchange (recv : UserTrap) (len : Nat) : Option (Option Endpoint × List (Option Endpoint)) := do
  let m ← ((appTask.entered recv).poll .default Net.qemu (appTask.env recv)).toOption
  let (k, .resume frame) ← (appTask.trap .default smallLayout Net.qemu recv).toOption | none
  let (k', _) ← (User.trap .default smallLayout Net.qemu ⟨k, frame⟩ (sendOf len)).toOption
  some (m.delivered.map (·.1), (k'.net.wire.drop k.net.wire.length).map Net.addressee)

theorem reply_reaches_sender_iff_udp :
    ∃ u, Step .default smallLayout Net.qemu appTask askedByUdp u ∧ u.ReplySafe .default smallLayout (sendOf 2) .udp ∧
      ∃ r, u.trap .default smallLayout Net.qemu (sendOf 2) = .ok r ∧ Kernel.Replies ⟨.udp, gwIp, 9⟩ u.kernel.net r := by
  have booted : boot .default smallLayout ⟨0, 0, 0, 0⟩ (.boot Net.guestMac) 0 = .ok appTask := rfl
  have source : ((appTask.entered askedByUdp).poll .default Net.qemu (appTask.env askedByUdp)).toOption.map
      Kernel.delivered = some (some (⟨.udp, gwIp, 9⟩, [1, 2])) := by decide +kernel
  obtain ⟨u, step, safe⟩ : ∃ u, Step .default smallLayout Net.qemu appTask askedByUdp u ∧
      u.ReplySafe .default smallLayout (sendOf 2) .udp := ⟨askedApp, askedApp_step, by decide +kernel⟩
  cases polled : (appTask.entered askedByUdp).poll .default Net.qemu (appTask.env askedByUdp) with
  | error => simp [polled, Except.toOption] at source
  | ok m =>
    rw [polled] at source
    have ecall : (sendOf 2).scause = Scause.excEcallU := rfl
    obtain ⟨-, replies⟩ := reply_reaches_sender_iff (w := u) ⟨rfl, fun _ => rfl, rfl⟩ .nil booted .nil rfl rfl step polled
      (Option.some.inj source) .nil ecall rfl
    exact ⟨u, step, safe, replies.mpr safe⟩

def askedByUdpConnected : UserTrap :=
  recvOf .udpEcho (segments (requestSegs.take 2) ++ [Net.udpFrom gwIp 9 [1, 2]]) (by decide +kernel)

def askedByTcp : UserTrap := recvOf .http (segments requestSegs ++ [Net.udpFrom gwIp 9 [1, 2]]) (by decide +kernel)

/-- The datagram is answered on the connection; the request of the connection, with
more than a segment holds, at the source of the datagram. -/
theorem reply_crosses :
    exchange askedByUdpConnected 2 = some (some ⟨.udp, gwIp, 9⟩, [some ⟨.tcp, gwIp, 40000⟩]) ∧
      exchange askedByTcp 600 = some (some ⟨.tcp, gwIp, 40000⟩, [some ⟨.udp, gwIp, 9⟩]) := by
  decide +kernel

end User

end Whimbrel

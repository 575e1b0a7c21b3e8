import Whimbrel.App
import Whimbrel.Net.Payload

/-! The app on the kernel.

Between two calls of the app the hart may take any other traps; they leave the network
stack and the app's buffer alone. A call is the trap that finds the arguments in the
registers, and its reply what the resumed frame and the memory then hold. -/

set_option autoImplicit false

namespace Whimbrel

open Checked Transition Uaccess Dialogue

/-! ## What the calls do to the stack -/

namespace Net

def Room (net : Statics) : Prop := net.udpPending → net.udpData.length ≤ udpPayloadMax

def Op.Sends (bytes : List U8) : Op → Prop
  | .tcpSend _ payload _ | .udpSend payload => payload = bytes
  | _ => False

def Op.Mute : Op → Prop
  | .tcpSend .. | .udpSend _ => False
  | _ => True

theorem Op.Mute.offers {op : Op} (mute : op.Mute) (allowed : List U8 → Prop) : op.Offers allowed := by
  cases op <;> trivial

theorem Op.Sends.offers {op : Op} {bytes : List U8} {allowed : List U8 → Prop} (sends : op.Sends bytes)
    (short : bytes.length < 2 ^ 15) (clean : bytes ≠ [] → allowed bytes) : op.Offers allowed := by
  cases op with
  | tcpSend now payload flags =>
    cases sends
    exact clean
  | udpSend payload =>
    cases sends
    exact ⟨short, Classical.or_iff_not_imp_left.mpr clean⟩
  | _ => cases sends

theorem Op.Sends.frames {op : Op} {bytes : List U8} (sends : op.Sends bytes) : op.frames = [] := by
  cases op <;> first | rfl | cases sends

section
variable {cfg : Config} {platform : Platform} {net u : Statics}

theorem Room.of_eq (room : Room net) (udp : u.udpQueue = net.udpQueue) : Room u := by
  simp only [Statics.udpQueue, UdpQueue.mk.injEq] at udp
  rw [Room, udp.1, udp.2.1]
  exact room

theorem Room.step {op : Op} (room : Room net) (step : Step cfg platform net op u) : Room u := by
  by_cases poll : ∃ cs, op = .pollRx cs
  · obtain ⟨cs, rfl⟩ := poll
    obtain ⟨r, done, rfl⟩ := map_eq_ok step
    have any : FramesMeet cfg platform (fun _ _ => True) net 0 false cs := .of_forall fun _ _ => trivial
    refine (pollRx_run any done).invariant (fun a c b room frame => ?_) room
    cases frame.1 with
    | nothing _ udp | segment _ _ _ udp => exact room.of_eq udp
    | datagram _ takes _ udp =>
      simp only [Statics.udpQueue, UdpQueue.mk.injEq] at udp
      rw [Room, udp.2.1]
      exact fun _ => takes.2
  · cases step.calls fun cs same => poll ⟨cs, same⟩ with
    | tcp _ _ _ udp | same _ udp => exact room.of_eq udp
    | consumed _ udp => exact @Room.of_eq (udpConsume net) u (fun has => (by cases has)) udp

end

end Net

theorem copyFromUser_bytes {lay : Layout} {mem : Asm.Memory} {t : Task} {src len : Usize} {bytes : List U8}
    (done : copyFromUser lay mem t src len = .ok (.ok bytes)) : bytes = userBytes mem src (copyLen len) := by
  obtain ⟨verdict, -, done⟩ := bind_eq_ok done
  cases verdict with
  | error e => cases done
  | ok =>
    dsimp only at done
    split at done
    · rename_i none
      cases done
      rw [copyLen, none]
      rfl
    · obtain ⟨loaded, load, done⟩ := bind_eq_ok done
      cases done
      unfold loadBytes at load
      split at load
      · cases load
        rfl
      · cases load

namespace Kernel

section
variable {cfg : Config} {lay : Layout} {platform : Platform} {env : Env} {k m u : Kernel} {c : Nat} {t : Task}
variable {frame ptr back : Usize} {ncap : Nat}

theorem Picks.steps (platform : Platform) (picks : Picks cfg m frame ptr ncap u) :
    ∃ ops, Run (Net.Step cfg platform) m.net ops u.net ∧ ∀ op ∈ ops, op.Mute ∧ op.frames = [] := by
  cases picks with
  | @segment _ _ tcp _ _ has consumed =>
    have step : Net.Step cfg platform m.net .tcpConsume { m.net with tcp } := by
      rw [Net.Step, Net.exec, consumed]
      rfl
    exact ⟨_, .single step, by simp [Net.Op.Mute, Net.Op.frames]⟩
  | @eof tcp _ read took | @again tcp _ read took =>
    have step : Net.Step cfg platform m.net .tcpEof { m.net with tcp } := by
      rw [Net.Step, Net.exec, took]
      rfl
    exact ⟨_, .single step, by simp [Net.Op.Mute, Net.Op.frames]⟩
  | @datagram _ tcp _ _ read took =>
    have first : Net.Step cfg platform m.net .tcpEof { m.net with tcp } := by
      rw [Net.Step, Net.exec, took]
      rfl
    have second : Net.Step cfg platform { m.net with tcp } .udpConsume (Net.udpConsume { m.net with tcp }) := rfl
    exact ⟨_, .cons first (.single second), by simp [Net.Op.Mute, Net.Op.frames]⟩

theorem sendBytes_steps {bytes : List U8} {flags : Usize} {sent : Bool}
    (done : k.sendBytes cfg platform env bytes flags = .ok (m, sent)) :
    ∃ ops, Run (Net.Step cfg platform) k.net ops m.net ∧ ∀ op ∈ ops, op.Sends bytes := by
  obtain ⟨⟨a, took⟩, tcp, done⟩ := bind_eq_ok done
  have first : Net.Step cfg platform k.net (.tcpSend env.now bytes flags) a := by
    rw [Net.Step, Net.exec, tcp]
    rfl
  dsimp only at done
  split at done
  · cases done
    exact ⟨_, .single first, by simp [Net.Op.Sends]⟩
  · obtain ⟨⟨b, sent⟩, udp, done⟩ := bind_eq_ok done
    cases done
    have second : Net.Step cfg platform a (.udpSend bytes) b := by
      rw [Net.Step, Net.exec, udp]
      rfl
    exact ⟨_, .cons first (.single second), by simp [Net.Op.Sends]⟩

theorem killInvalidPtr_not_resume (done : k.killInvalidPtr platform frame = .ok (u, .resume back)) : False := by
  obtain ⟨k', -, done⟩ := bind_eq_ok done
  unfold stopUntilScheduler at done
  split at done <;> cases done

theorem sysWrite_net (done : k.sysWrite cfg lay platform frame = .ok (u, .resume back)) : u.net = k.net := by
  obtain ⟨⟨slot, t⟩, -, done⟩ := bind_eq_ok done
  obtain ⟨copied, -, done⟩ := bind_eq_ok done
  cases copied with
  | error e => exact (killInvalidPtr_not_resume done).elim
  | ok bytes =>
    obtain ⟨writes, -, done⟩ := bind_eq_ok done
    have result := answer_eq done
    simp only [Prod.mk.injEq] at result
    rw [result.1]
    rfl

theorem sysSend_steps (done : k.sysSend cfg lay platform env frame = .ok (u, .resume back)) :
    ∃ ops, Run (Net.Step cfg platform) k.net ops u.net ∧
      ∀ op ∈ ops, op.Sends (userBytes k.mem (k.a0 frame) (copyLen (k.a1 frame))) := by
  obtain ⟨⟨slot, t⟩, -, done⟩ := bind_eq_ok done
  obtain ⟨copied, reads, done⟩ := bind_eq_ok done
  cases copied with
  | error e => exact (killInvalidPtr_not_resume done).elim
  | ok bytes =>
    rw [← copyFromUser_bytes reads]
    obtain ⟨⟨m, sent⟩, ran, done⟩ := bind_eq_ok done
    obtain ⟨ops, run, sends⟩ := sendBytes_steps ran
    refine ⟨ops, ?_, sends⟩
    dsimp only at done
    split at done
    · have result := answer_eq done
      simp only [Prod.mk.injEq] at result
      rw [result.1]
      exact run
    · have result := answer_eq done
      simp only [Prod.mk.injEq] at result
      rw [result.1]
      exact run

end

end Kernel

namespace User

section
variable {cfg : Config} {lay : Layout} {platform : Platform} {u v : User} {tr : UserTrap} {k : Kernel} {frame : Usize}

theorem entered_mem : (u.entered tr).mem = tr.mem := rfl

theorem quiet (answers : platform.Answers) (inUser : Kernel.InUser lay u.kernel u.frame) {ticks : List UserTrap}
    (between : Run (StepWhen cfg lay platform fun _ tr => tr.scause ≠ Scause.excEcallU) u ticks v) :
    Kernel.InUser lay v.kernel v.frame ∧ v.kernel.net = u.kernel.net := by
  refine @Run.invariant _ _ _ (fun v => Kernel.InUser lay v.kernel v.frame ∧ v.kernel.net = u.kernel.net)
    (fun a tr b held step => ?_) _ _ _ between ⟨inUser, rfl⟩
  exact ⟨step.1.inUser answers held.1, (trap_net held.1 step.1).eq_of_ne step.2 |>.trans held.2⟩

theorem trap_write (inUser : Kernel.InUser lay u.kernel u.frame) (ecall : tr.scause = Scause.excEcallU)
    (num : tr.x Asm.Reg.a7 = Syscall.sysWrite) (returned : u.trap cfg lay platform tr = .ok (k, .resume frame)) :
    k.net = u.kernel.net := by
  have number : (u.entered tr).a7 u.frame = Syscall.sysWrite := by rw [Kernel.a7, entered_x, num]
  rw [trap, Kernel.trapHandler_ecall rfl ecall, Kernel.fromEcall_write (env_closed inUser tr) number] at returned
  have kept := Kernel.sysWrite_net returned
  exact kept

theorem trap_send (inUser : Kernel.InUser lay u.kernel u.frame) (ecall : tr.scause = Scause.excEcallU)
    (num : tr.x Asm.Reg.a7 = Syscall.sysSend) (returned : u.trap cfg lay platform tr = .ok (k, .resume frame)) :
    ∃ ops, Run (Net.Step cfg platform) u.kernel.net ops k.net ∧
      ∀ op ∈ ops, op.Sends (userBytes tr.mem (tr.x Asm.Reg.a0) (copyLen (tr.x Asm.Reg.a1))) := by
  have number : (u.entered tr).a7 u.frame = Syscall.sysSend := by rw [Kernel.a7, entered_x, num]
  rw [trap, Kernel.trapHandler_ecall rfl ecall, Kernel.fromEcall_send (env_closed inUser tr) number] at returned
  obtain ⟨ops, run, sends⟩ := Kernel.sysSend_steps returned
  rw [Kernel.a0, Kernel.a1, entered_x, entered_mem] at sends
  exact ⟨ops, run, sends⟩

end

end User

namespace App

/-- `.urodata` holds the texts. -/
structure Symbols.Holds (sym : Symbols) (b : Build) (mem : Asm.Memory) : Prop where
  ready : userBytes mem sym.ready (readyText b.app).length = readyText b.app
  done : userBytes mem sym.done (doneText b.app).length = doneText b.app
  resp : b.app = .http → userBytes mem sym.resp respText.length = respText

structure World where
  user : User
  seen : List Net.Completion

def Call.takes (tr : UserTrap) : Call → List Net.Completion
  | .recv .. => tr.received
  | .write .. | .exit _ | .send .. => []

/-- The kernel answers a call: after other traps of the app, the one with the call in
the registers. The app has written neither its texts nor its buffer. -/
inductive Serves (cfg : Config) (lay : Layout) (platform : Platform) (b : Build) (sym : Symbols) :
    Steps World Call (fun _ => Reply) where
  | call {u v w : User} {seen : List Net.Completion} {ticks : List UserTrap} {call : Call} {tr : UserTrap}
      (between : Run (User.StepWhen cfg lay platform fun _ tr => tr.scause ≠ Scause.excEcallU) u ticks v)
      (same : v.frame = u.frame) (ecall : tr.scause = Scause.excEcallU)
      (regs : call.regs = (tr.x Asm.Reg.a7, tr.x Asm.Reg.a0, tr.x Asm.Reg.a1, tr.x Asm.Reg.a2))
      (texts : sym.Holds b tr.mem)
      (buffer : userBytes tr.mem sym.buf b.app.recvBuf = userBytes u.kernel.mem sym.buf b.app.recvBuf)
      (step : User.Step cfg lay platform v tr w) :
      Serves cfg lay platform b sym ⟨u, seen⟩ call
        ⟨(w.kernel.frames w.frame).x Asm.Reg.a0, (w.kernel.frames w.frame).x Asm.Reg.a1, w.kernel.mem⟩
        ⟨w, seen ++ call.takes tr⟩

structure Alive (lay : Layout) (w : World) : Prop where
  user : Kernel.InUser lay w.user.kernel w.user.frame
  origin : Net.Origin w.seen w.user.kernel.net
  room : Net.Room w.user.kernel.net

/-- A frame that was taken brought `g`, in a segment or a datagram of the size the stack queues. -/
def Brought (seen : List Net.Completion) (g : Net.Message) : Prop :=
  ∃ c ∈ seen, c.segment = some g ∧ g.data.length ≤ Tcp.payloadMax ∨
    c.datagram = some g ∧ g.data.length ≤ Net.udpPayloadMax

/-- What a `recv` into `cap` bytes at `ptr` may return. -/
inductive Hears (seen : List Net.Completion) (ptr : Usize) (cap : Nat) (r : Reply) : Prop where
  | again (err : r.err = Syscall.errAgain)
  | empty (ok : r.err = Syscall.ok) (none : r.val = 0)
  | message {g : Net.Message} (ok : r.err = Syscall.ok) (brought : Brought seen g)
      (count : r.val.toNat = min g.data.length cap) (bytes : userBytes r.mem ptr r.val.toNat = g.data.take cap)

section
variable {cfg : Config} {lay : Layout} {platform : Platform} {b : Build} {sym : Symbols} {w w' : World} {r : Reply}

theorem Alive.steps {ops : List Net.Op} (alive : Alive lay w) (user : Kernel.InUser lay w'.user.kernel w'.user.frame)
    (run : Run (Net.Step cfg platform) w.user.kernel.net ops w'.user.kernel.net)
    (seen : w'.seen = w.seen ++ ops.flatMap Net.Op.frames) : Alive lay w' where
  user := user
  origin := seen ▸ alive.origin.steps run
  room := run.invariant (fun _ _ _ room step => room.step step) alive.room

theorem Serves.write (answers : platform.Answers) (alive : Alive lay w) {ptr len : Usize}
    (serves : Serves cfg lay platform b sym w (.write ptr len) r w') :
    Alive lay w' ∧ w'.user.kernel.net = w.user.kernel.net := by
  cases serves with
  | @call u v z seen ticks _ tr between same ecall regs texts buffer step =>
    obtain ⟨inUser, net⟩ := User.quiet answers alive.user between
    simp only [Call.regs, Prod.mk.injEq] at regs
    have kept : z.kernel.net = u.kernel.net := (User.trap_write inUser ecall regs.1.symm step).trans net
    refine ⟨⟨step.inUser answers inUser, ?_, ?_⟩, kept⟩
    · rw [kept, Call.takes, List.append_nil]
      exact alive.origin
    · rw [kept]
      exact alive.room

theorem recvBuf_room : min (addr b.app.recvBuf).toNat copyMax = b.app.recvBuf := by
  cases b.app <;> decide

theorem recvBuf_le : b.app.recvBuf ≤ copyMax := by
  cases b.app <;> decide

theorem Hears.of_picks {m k : Kernel} {frame ptr : Usize} {cap : Nat} {seen : List Net.Completion} (small : cap ≤ copyMax)
    (picks : Kernel.Picks cfg m frame ptr cap k) (origin : Net.Origin seen m.net) (room : Net.Room m.net) :
    Hears seen ptr cap ⟨(k.frames frame).x Asm.Reg.a0, (k.frames frame).x Asm.Reg.a1, k.mem⟩ := by
  -- The count in `a1` is the one that was copied: it is small enough for a register.
  have copied {p : List U8} {n : Nat} {mem : Asm.Memory} (count : n = min p.length cap)
      (bytes : userBytes mem ptr n = p.take n) :
      (addr n).toNat = min p.length cap ∧ userBytes mem ptr (addr n).toNat = p.take cap := by
    rw [Kernel.toNat_addr_of_le (by omega), bytes, count, Nat.min_comm, ← List.take_eq_take_min]
    exact ⟨rfl, rfl⟩
  cases picks with
  | @segment p mem tcp l n has consumed count bytes =>
    obtain ⟨c, taken, brings⟩ := origin.segment has
    have short : p.length ≤ Tcp.payloadMax := by
      have full := m.net.tcp.tcb.rx.full
      simp only [Tcp.pendingBytes, Tcp.rxPending_of_pendingBytes has, if_true, Option.some.injEq] at has
      rw [← has, List.length_take, full]
      exact Nat.min_le_right _ _
    simp only [Kernel.setFrame, Function.update_self, Kernel.answered_a0, Kernel.answered_a1]
    exact .message rfl ⟨c, taken, .inl ⟨brings, short⟩⟩ (copied count bytes).1 (copied count bytes).2
  | eof read took told =>
    simp only [Kernel.setFrame, Function.update_self, Kernel.answered_a0, Kernel.answered_a1]
    exact .empty rfl rfl
  | @datagram mem tcp l n read took has count bytes =>
    obtain ⟨c, taken, brings⟩ := origin.datagram has
    simp only [Kernel.setFrame, Function.update_self, Kernel.answered_a0, Kernel.answered_a1]
    exact .message rfl ⟨c, taken, .inr ⟨brings, room has⟩⟩ (copied count bytes).1 (copied count bytes).2
  | again read took none =>
    simp only [Kernel.setFrame, Function.update_self, Kernel.answered_a0, Kernel.answered_a1]
    exact .again rfl

theorem Serves.recv (answers : platform.Answers) (alive : Alive lay w) {ptr : Usize}
    (serves : Serves cfg lay platform b sym w (.recv ptr (addr b.app.recvBuf)) r w') :
    Alive lay w' ∧ (∃ ops, Run (Net.Step cfg platform) w.user.kernel.net ops w'.user.kernel.net ∧ ∀ op ∈ ops, op.Mute) ∧
      Hears w'.seen ptr b.app.recvBuf r ∧ r.mem = w'.user.kernel.mem := by
  cases serves with
  | @call u v z seen ticks _ tr between same ecall regs texts buffer step =>
    obtain ⟨inUser, net⟩ := User.quiet answers alive.user between
    simp only [Call.regs, Prod.mk.injEq] at regs
    obtain ⟨num, buf, len, -⟩ := regs
    obtain ⟨back, m, polled, picks⟩ := User.trap_recv inUser ecall num.symm step
    rw [← buf, ← len, recvBuf_room, ← back] at picks
    -- The poll comes first, and `picks` is about the state it leaves.
    obtain ⟨a, drained, pumped⟩ := Kernel.poll_steps polled
    have poll : Run (Net.Step cfg platform) u.kernel.net [.pollRx tr.received, .pumpTcp tr.now] m.net := by
      rw [← net]
      exact .cons drained (.single pumped)
    obtain ⟨ops, rest, quiet⟩ := picks.steps platform
    have origin : Net.Origin (seen ++ tr.received) m.net := by
      have after := alive.origin.steps poll
      simpa [Net.Op.frames] using after
    have room : Net.Room m.net := poll.invariant (fun _ _ _ room step => room.step step) alive.room
    have none : ops.flatMap Net.Op.frames = [] := List.flatMap_eq_nil_iff.mpr fun op member => (quiet op member).2
    refine ⟨alive.steps (step.inUser answers inUser) (poll.append rest) ?_, ⟨_, poll.append rest, ?_⟩,
      .of_picks recvBuf_le picks origin room, rfl⟩
    · rw [List.flatMap_append, none, Call.takes]
      simp [Net.Op.frames]
    · refine List.forall_mem_append.mpr ⟨?_, fun op member => (quiet op member).1⟩
      simp [Net.Op.Mute]

theorem Serves.send (answers : platform.Answers) (alive : Alive lay w) {ptr len flags : Usize}
    (serves : Serves cfg lay platform b sym w (.send ptr len flags) r w') :
    Alive lay w' ∧ ∃ mem, sym.Holds b mem ∧
      userBytes mem sym.buf b.app.recvBuf = userBytes w.user.kernel.mem sym.buf b.app.recvBuf ∧
      w'.seen = w.seen ∧ ∃ ops, Run (Net.Step cfg platform) w.user.kernel.net ops w'.user.kernel.net ∧
        ∀ op ∈ ops, op.Sends (userBytes mem ptr (copyLen len)) := by
  cases serves with
  | @call u v z seen ticks _ tr between same ecall regs texts buffer step =>
    obtain ⟨inUser, net⟩ := User.quiet answers alive.user between
    simp only [Call.regs, Prod.mk.injEq] at regs
    obtain ⟨num, buf, size, -⟩ := regs
    obtain ⟨ops, run, sends⟩ := User.trap_send inUser ecall num.symm step
    rw [← buf, ← size] at sends
    rw [net] at run
    have none : ops.flatMap Net.Op.frames = [] := List.flatMap_eq_nil_iff.mpr fun op member => (sends op member).frames
    refine ⟨alive.steps (step.inUser answers inUser) run ?_, tr.mem, texts, buffer, List.append_nil seen, ops, run, sends⟩
    rw [none]
    rfl

theorem Alive.boot (answers : platform.Answers) {mac : Mac} {ops : List Net.Op} {net : Net.Statics}
    (stack : Run (Net.Step cfg platform) (.boot mac) ops net) (mute : ∀ op ∈ ops, op.Mute) {e : Entries} {ticks : Usize}
    {u : User} (booted : User.boot cfg lay e net ticks = .ok u) (allowed : List U8 → Prop) :
    Alive lay ⟨u, ops.flatMap Net.Op.frames⟩ ∧ Net.Speaks allowed u.kernel.net := by
  have inUser := User.run_inUser answers stack booted .nil
  have speaks : Net.Speaks allowed net := .run stack (fun op member => (mute op member).offers allowed) (.boot allowed mac)
  have origin : Net.Origin (ops.flatMap Net.Op.frames) net := .run stack
  have room : Net.Room net := stack.invariant (fun _ _ _ room step => room.step step) fun has => (by cases has)
  rw [← User.boot_net booted] at speaks origin room
  exact ⟨⟨inUser, origin, room⟩, speaks⟩

end

def pageLayout : Layout := { User.smallLayout with urodata := 1, fits := by decide }

def pageSym : Symbols where
  ready := addr pageLayout.urodataStart
  done := addr (pageLayout.urodataStart + 16)
  resp := addr (pageLayout.urodataStart + 32)
  buf := addr (pageLayout.slotAt 3).ustackBottom

def pageMem (app : App) : Asm.Memory := fun a =>
  let i := (a - pageSym.ready).toNat
  if i < 16 then (readyText app).getD i 0
  else if i < 32 then (doneText app).getD (i - 16) 0
  else if i < 124 then respText.getD (i - 32) 0
  else 0

def started : User :=
  match User.boot .default pageLayout ⟨0, 0, 0, 0⟩ (.boot Net.guestMac) 0 with
  | .ok u => u
  | .error _ => ⟨Kernel.bare (.boot Net.guestMac) 0, 0⟩

def Call.trap (call : Call) (mem : Asm.Memory) (received : List Net.Completion)
    (ids : ∀ e ∈ received, e.id.toNat < Net.rxBufs) : UserTrap where
  x := Function.update (Function.update (Function.update (Function.update (fun _ => 0) Asm.Reg.a7 call.regs.1)
    Asm.Reg.a0 call.regs.2.1) Asm.Reg.a1 call.regs.2.2.1) Asm.Reg.a2 call.regs.2.2.2
  sepc := addr pageLayout.utextStart
  scause := Scause.excEcallU
  stval := 0
  mem := mem
  now := 0
  received := received
  ids := ids

def resumed (u : User) (tr : UserTrap) : User :=
  ⟨((u.trap .default pageLayout Net.qemu tr).toOption.map (·.1)).getD u.kernel, u.frame⟩

def replyOf (u : User) : Reply :=
  ⟨(u.kernel.frames u.frame).x Asm.Reg.a0, (u.kernel.frames u.frame).x Asm.Reg.a1, u.kernel.mem⟩

instance (sym : Symbols) (b : Build) (mem : Asm.Memory) : Decidable (sym.Holds b mem) :=
  decidable_of_iff (userBytes mem sym.ready (readyText b.app).length = readyText b.app ∧
    userBytes mem sym.done (doneText b.app).length = doneText b.app ∧
    (b.app = .http → userBytes mem sym.resp respText.length = respText))
    ⟨fun ⟨ready, done, resp⟩ => ⟨ready, done, resp⟩, fun ⟨ready, done, resp⟩ => ⟨ready, done, resp⟩⟩

/-- The kernel answers the call from `u` with these texts in memory. -/
def Answered (b : Build) (u : User) (tr : UserTrap) : Prop :=
  (u.trap .default pageLayout Net.qemu tr).toOption.map (·.2) = some (.resume u.frame) ∧ pageSym.Holds b tr.mem ∧
    userBytes tr.mem pageSym.buf b.app.recvBuf = userBytes u.kernel.mem pageSym.buf b.app.recvBuf

instance (b : Build) (u : User) (tr : UserTrap) : Decidable (Answered b u tr) := inferInstanceAs (Decidable (_ ∧ _ ∧ _))

theorem Answered.serves {b : Build} {u : User} {seen : List Net.Completion} {call : Call} {mem : Asm.Memory}
    {received : List Net.Completion} {ids : ∀ e ∈ received, e.id.toNat < Net.rxBufs}
    (answered : Answered b u (call.trap mem received ids)) :
    Serves .default pageLayout Net.qemu b pageSym ⟨u, seen⟩ call (replyOf (resumed u (call.trap mem received ids)))
      ⟨resumed u (call.trap mem received ids), seen ++ call.takes (call.trap mem received ids)⟩ := by
  obtain ⟨outcome, texts, buffer⟩ := answered
  refine .call .nil rfl rfl rfl texts buffer ?_
  rw [User.Step, resumed]
  rcases done : u.trap .default pageLayout Net.qemu (call.trap mem received ids) with e | ⟨k, o⟩
  · rw [done] at outcome
    cases outcome
  · rw [done] at outcome
    cases outcome
    rfl

end App

end Whimbrel

import Whimbrel.Trap.Calls

/-! `recv`: what the app is handed, and what stays queued.

After its poll the call picks the TCP payload, else end-of-stream, else the UDP
datagram. Only the datagram can be empty or longer than the buffer. -/

set_option autoImplicit false

namespace Whimbrel

open Checked Transition Uaccess

inductive App where
  | http
  | udpEcho
  deriving DecidableEq, Repr

def App.recvBuf : App → Nat
  | .http => 512
  | .udpEcho => 1472

def userBytes (mem : Asm.Memory) (ptr : Usize) (n : Nat) : List U8 := (List.range n).map fun i => mem (ptr + addr i)

theorem copyToUser_bytes {lay : Layout} {mem mem' : Asm.Memory} {t : Task} {dst : Usize} {src : List U8} {n : Nat}
    (short : src.length ≤ copyMax) (done : copyToUser lay mem t dst src = .ok (.ok (mem', n))) :
    n = src.length ∧ userBytes mem' dst n = src := by
  obtain ⟨verdict, -, done⟩ := bind_eq_ok done
  cases verdict with
  | error e => cases done
  | ok =>
    dsimp only at done
    rw [Nat.min_eq_left short] at done
    by_cases none : src.length = 0
    · rw [if_pos none] at done
      cases done
      exact ⟨none.symm, (List.eq_nil_of_length_eq_zero none).symm⟩
    · rw [if_neg none] at done
      obtain ⟨stored, store, done⟩ := bind_eq_ok done
      cases done
      rw [List.take_length] at store
      unfold storeBytes at store
      split at store
      · cases store
        refine ⟨rfl, List.ext_getElem (by simp [userBytes]) fun i _ inside => ?_⟩
        simp only [userBytes, List.getElem_map, List.getElem_range]
        exact getD_offset short inside
      · cases store

namespace Kernel

/-- What a `recv` that polled to `m` picked, and the kernel it leaves. -/
inductive Picks (cfg : Config) (m : Kernel) (frame ptr : Usize) (ncap : Nat) : Kernel → Prop where
  | segment {p : List U8} {mem : Asm.Memory} {tcp : Tcp.Statics} {l : Tcp.Label} {n : Nat}
      (has : Tcp.pendingBytes m.net.tcp.tcb = some p) (consumed : Tcp.exec cfg m.net.tcp .consume = .ok (tcp, l))
      (count : n = min p.length ncap) (bytes : userBytes mem ptr n = p.take n) :
      Picks cfg m frame ptr ncap
        { m.setFrame frame ((m.frames frame).answered Syscall.ok (addr n)) with mem, net := { m.net with tcp } }
  | eof {tcp : Tcp.Statics} {l : Tcp.Label} (read : Tcp.pendingBytes m.net.tcp.tcb = none)
      (took : Tcp.exec cfg m.net.tcp .takeEof = .ok (tcp, l)) (told : l.eof) :
      Picks cfg m frame ptr ncap
        { m.setFrame frame ((m.frames frame).answered Syscall.ok 0) with net := { m.net with tcp } }
  | datagram {mem : Asm.Memory} {tcp : Tcp.Statics} {l : Tcp.Label} {n : Nat}
      (read : Tcp.pendingBytes m.net.tcp.tcb = none) (took : Tcp.exec cfg m.net.tcp .takeEof = .ok (tcp, l))
      (has : m.net.udpPending) (count : n = min m.net.udpData.length ncap)
      (bytes : userBytes mem ptr n = m.net.udpData.take n) :
      Picks cfg m frame ptr ncap
        { m.setFrame frame ((m.frames frame).answered Syscall.ok (addr n)) with
          mem, net := Net.udpConsume { m.net with tcp } }
  | again {tcp : Tcp.Statics} {l : Tcp.Label} (read : Tcp.pendingBytes m.net.tcp.tcb = none)
      (took : Tcp.exec cfg m.net.tcp .takeEof = .ok (tcp, l)) (none : ¬ m.net.udpPending) :
      Picks cfg m frame ptr ncap
        { m.setFrame frame ((m.frames frame).answered Syscall.errAgain 0) with net := { m.net with tcp } }

section
variable {cfg : Config} {lay : Layout} {platform : Platform} {env : Env} {k m : Kernel} {t : Task} {frame : Usize}
variable {ncap : Nat} {u : Kernel} {back : Usize}

theorem recvCopy_eq {payload : List U8} {tcp : Bool} (small : ncap ≤ copyMax)
    (done : m.recvCopy cfg lay platform frame t ncap payload tcp = .ok (u, .resume back)) :
    ∃ mem n net, Net.exec cfg platform m.net (if tcp then .tcpConsume else .udpConsume) = .ok net ∧
      n = min payload.length ncap ∧ userBytes mem (m.a0 frame) n = payload.take n ∧ back = frame ∧
      u = { m.setFrame frame ((m.frames frame).answered Syscall.ok (addr n)) with mem, net } := by
  obtain ⟨bytes, cut, done⟩ := bind_eq_ok done
  rw [slice_ok (Nat.zero_le _) (Nat.min_le_left _ _), List.drop_zero, Nat.sub_zero] at cut
  cases cut
  obtain ⟨copied, stored, done⟩ := bind_eq_ok done
  cases copied with
  | error e =>
    -- the kill of an invalid pointer resumes nobody
    obtain ⟨k', -, done⟩ := bind_eq_ok done
    unfold stopUntilScheduler at done
    split at done <;> cases done
  | ok copy =>
    obtain ⟨net, consumed, done⟩ := bind_eq_ok done
    have length : (payload.take (min payload.length ncap)).length = min payload.length ncap := by simp
    have placed := copyToUser_bytes (by rw [length]; omega) stored
    rw [length] at placed
    have result := answer_eq done
    simp only [Prod.mk.injEq, Outcome.resume.injEq] at result
    refine ⟨copy.1, copy.2, net, consumed, placed.1, ?_, result.2, result.1⟩
    rw [placed.2, placed.1]

theorem recvChecked_picks (inv : Net.Inv k.net) (small : ncap ≤ copyMax)
    (done : k.recvChecked cfg lay platform env frame t ncap = .ok (u, .resume back)) :
    back = frame ∧ ∃ m, k.poll cfg platform env = .ok m ∧ Picks cfg m frame (k.a0 frame) ncap u := by
  obtain ⟨m, polled, done⟩ := bind_eq_ok done
  obtain ⟨net, inv', rfl⟩ := poll_net inv polled
  rw [Tcp.pending_eq inv'.tcb, bind_ok] at done
  cases has : Tcp.pendingBytes net.tcp.tcb with
  | some p =>
    simp only [has] at done
    obtain ⟨mem, n, net', consumed, count, bytes, same, rfl⟩ := recvCopy_eq small done
    obtain ⟨⟨tcp, l⟩, ran, consumed⟩ := bind_eq_ok consumed
    cases consumed
    exact ⟨same, _, polled, .segment has ran count bytes⟩
  | none =>
    simp only [has] at done
    obtain ⟨⟨m, eof⟩, told, done⟩ := bind_eq_ok done
    obtain ⟨⟨tcp, l⟩, took, told⟩ := bind_eq_ok told
    cases told
    dsimp only at done
    split at done
    · rename_i eof
      have result := answer_eq done
      simp only [Prod.mk.injEq, Outcome.resume.injEq] at result
      rw [result.1]
      exact ⟨result.2, _, polled, .eof has took eof⟩
    split at done
    · rename_i pending
      obtain ⟨mem, n, net', consumed, count, bytes, same, rfl⟩ := recvCopy_eq small done
      cases consumed
      exact ⟨same, _, polled, .datagram has took pending count bytes⟩
    · rename_i none
      have result := answer_eq done
      simp only [Prod.mk.injEq, Outcome.resume.injEq] at result
      rw [result.1]
      exact ⟨result.2, _, polled, .again has took none⟩

theorem sysRecv_picks {lay : Layout} {c : Nat} (sound : Sound lay k) (runs : Runs k c t)
    (done : k.sysRecv cfg lay platform env t.frame = .ok (u, .resume back)) :
    back = t.frame ∧ ∃ m, k.poll cfg platform env = .ok m ∧ Picks cfg m t.frame (k.a0 t.frame) (min (k.a1 t.frame).toNat copyMax) u := by
  rw [sysRecv, runs.current, bind_ok] at done
  obtain ⟨verdict, -, done⟩ := bind_eq_ok done
  cases verdict with
  | error e =>
    obtain ⟨k', -, done⟩ := bind_eq_ok done
    unfold stopUntilScheduler at done
    split at done <;> cases done
  | ok => exact recvChecked_picks sound.net (Nat.min_le_right _ _) done

end

structure Returned (mem : Asm.Memory) (ptr error value : Usize) (p : List U8) : Prop where
  ok : error = Syscall.ok
  count : value.toNat = p.length
  bytes : userBytes mem ptr p.length = p

/-- The poll from `k` to `m` drops nothing that is queued before it or after some of its frames. -/
structure KeepsQueued (cfg : Config) (platform : Platform) (received : List Net.Completion) (k m : Kernel) : Prop where
  segment : ∀ {front r p}, front <+: received → Net.rxLoop cfg platform k.net 0 false front = .ok r →
    Tcp.pendingBytes r.1.tcp.tcb = some p → Tcp.pendingBytes m.net.tcp.tcb = some p
  datagram : ∀ {front r}, front <+: received → Net.rxLoop cfg platform k.net 0 false front = .ok r →
    r.1.udpPending → m.net.udpQueue = r.1.udpQueue

/-- A `recv` from `k`, polled to `m` and back in `u`, handed over whole messages. -/
structure Whole (cfg : Config) (platform : Platform) (received seen : List Net.Completion) (k m u : Kernel)
    (ptr error value : Usize) : Prop where
  kept : KeepsQueued cfg platform received k m
  /-- `take_eof` has returned `true`. -/
  eof : error = Syscall.ok → value = 0 → ∃ m', m.tcpEof cfg = .ok (m', true)
  message : error = Syscall.ok → value ≠ 0 →
    ∃ c ∈ seen, ∃ g, (c.segment = some g ∨ c.datagram = some g) ∧ Returned u.mem ptr error value g.data
  segment : ∀ {p}, Tcp.pendingBytes m.net.tcp.tcb = some p →
    Returned u.mem ptr error value p ∨ Tcp.pendingBytes u.net.tcp.tcb = some p
  datagram : m.net.udpPending → Returned u.mem ptr error value m.net.udpData ∨ u.net.udpQueue = m.net.udpQueue

section
variable {cfg : Config} {k m u : Kernel} {frame ptr error value : Usize} {ncap n : Nat}

@[simp] theorem answered_a0 (f : Trap.TrapFrame) (error value : Usize) : (f.answered error value).x Asm.Reg.a0 = error :=
  rfl

@[simp] theorem answered_a1 (f : Trap.TrapFrame) (error value : Usize) : (f.answered error value).x Asm.Reg.a1 = value :=
  rfl

theorem toNat_addr_of_le (small : n ≤ copyMax) : (addr n).toNat = n := by
  rw [addr, BitVec.toNat_ofNat, Nat.mod_eq_of_lt]
  exact Nat.lt_of_le_of_lt small (by decide)

/-- A message that fits is returned whole. -/
theorem Returned.of_fits {mem : Asm.Memory} {p : List U8} (fits : p.length ≤ ncap) (small : ncap ≤ copyMax)
    (count : n = min p.length ncap) (bytes : userBytes mem ptr n = p.take n) :
    Returned mem ptr Syscall.ok (addr n) p := by
  rw [Nat.min_eq_left fits] at count
  subst count
  rw [List.take_length] at bytes
  exact ⟨rfl, toNat_addr_of_le (Nat.le_trans fits small), bytes⟩

theorem Returned.not_zero {mem : Asm.Memory} {p : List U8} (returned : Returned mem ptr error value p)
    (some : 0 < p.length) : value ≠ 0 := by
  rintro rfl
  have count : 0 = p.length := returned.count
  omega

theorem tcpEof_eq {tcp : Tcp.Statics} {l : Tcp.Label} (took : Tcp.exec cfg m.net.tcp .takeEof = .ok (tcp, l))
    (told : l.eof) : ∃ m', m.tcpEof cfg = .ok (m', true) := by
  refine ⟨{ m with net := { m.net with tcp } }, ?_⟩
  rw [tcpEof, took, bind_ok]
  simp [told]

theorem Picks.whole {platform : Platform} {received seen : List Net.Completion} (picks : Picks cfg m frame ptr ncap u) (origin : Net.Origin seen m.net)
    (fits : Net.Fits ncap m.net) (room : Tcp.payloadMax ≤ ncap) (small : ncap ≤ copyMax)
    (kept : KeepsQueued cfg platform received k m) :
    Whole cfg platform received seen k m u ptr ((u.frames frame).x Asm.Reg.a0) ((u.frames frame).x Asm.Reg.a1) := by
  cases picks with
  | @segment p mem tcp l n has consumed count bytes =>
    -- `queue_rx` took one to 512 bytes
    have length : 0 < p.length ∧ p.length ≤ Tcp.payloadMax := by
      obtain ⟨one, most, -⟩ := origin.tcb.unread (Tcp.rxPending_of_pendingBytes has)
      have full := m.net.tcp.tcb.rx.full
      simp only [Tcp.pendingBytes, Tcp.rxPending_of_pendingBytes has, if_true, Option.some.injEq] at has
      rw [← has, List.length_take, full]
      omega
    have returned : Returned mem ptr Syscall.ok (addr n) p := .of_fits (Nat.le_trans length.2 room) small count bytes
    obtain ⟨c, mem, whole⟩ := origin.segment has
    simp only [setFrame, Function.update_self, answered_a0, answered_a1]
    refine ⟨kept, fun _ zero => absurd zero (returned.not_zero length.1), fun _ _ => ?_, ?_, ?_⟩
    · exact ⟨c, mem, _, .inl whole, returned⟩
    · intro p' has'
      cases has.symm.trans has'
      exact .inl returned
    · exact fun _ => .inr rfl
  | eof read took told =>
    simp only [setFrame, Function.update_self, answered_a0, answered_a1]
    refine ⟨kept, fun _ _ => tcpEof_eq took told, fun _ some => absurd rfl some, ?_, fun _ => .inr rfl⟩
    intro p has
    rw [read] at has
    cases has
  | @datagram mem tcp l n read took has count bytes =>
    obtain ⟨some, most⟩ := fits has
    have returned : Returned mem ptr Syscall.ok (addr n) m.net.udpData := .of_fits most small count bytes
    obtain ⟨c, mem, whole⟩ := origin.datagram has
    simp only [setFrame, Function.update_self, answered_a0, answered_a1]
    refine ⟨kept, fun _ zero => absurd zero (returned.not_zero some), fun _ _ => ?_, ?_, ?_⟩
    · exact ⟨c, mem, _, .inr whole, returned⟩
    · intro p has
      rw [read] at has
      cases has
    · exact fun _ => .inl returned
  | again read took none =>
    simp only [setFrame, Function.update_self, answered_a0, answered_a1]
    refine ⟨kept, fun ok => absurd ok (by decide), fun ok => absurd ok (by decide), ?_,
      fun has => absurd has none⟩
    intro p has
    rw [read] at has
    cases has

theorem poll_steps {platform : Platform} {env : Env} (polled : k.poll cfg platform env = .ok m) :
    ∃ a, Net.Step cfg platform k.net (.pollRx env.received) a ∧ Net.Step cfg platform a (.pumpTcp env.now) m.net := by
  obtain ⟨⟨a, replied⟩, drained, polled⟩ := bind_eq_ok polled
  obtain ⟨b, pumped, polled⟩ := bind_eq_ok polled
  cases polled
  refine ⟨a, ?_, pumped⟩
  rw [Net.Step, Net.exec, drained]
  rfl

end

end Kernel

namespace User

/-- Every frame a `recv` polls, and its RTO check, lose nothing. -/
def Tidy (cfg : Config) (platform : Platform) (buf : Nat) (u : User) (tr : UserTrap) : Prop :=
  tr.scause = Scause.excEcallU → tr.x Asm.Reg.a7 = Syscall.sysRecv →
    (Net.Op.pollRx tr.received).Tidy cfg platform buf u.kernel.net ∧
    ∀ a, Net.exec cfg platform u.kernel.net (.pollRx tr.received) = .ok a →
      (Net.Op.pumpTcp tr.now).Tidy cfg platform buf a

instance (cfg : Config) (platform : Platform) (buf : Nat) (u : User) (tr : UserTrap) :
    Decidable (u.Tidy cfg platform buf tr) :=
  inferInstanceAs (Decidable (_ → _ → _ ∧ ∀ a, _ = Except.ok a → _))

structure CallsRecv (app : App) (tr : UserTrap) (ptr : Usize) : Prop where
  ecall : tr.scause = Scause.excEcallU
  num : tr.x Asm.Reg.a7 = Syscall.sysRecv
  buf : tr.x Asm.Reg.a0 = ptr
  len : tr.x Asm.Reg.a1 = addr app.recvBuf

section
variable {cfg : Config} {lay : Layout} {platform : Platform} {u v : User} {tr : UserTrap} {buf : Nat}

theorem trap_fits (inUser : Kernel.InUser lay u.kernel u.frame) (tidy : u.Tidy cfg platform buf tr)
    (fits : Net.Fits buf u.kernel.net) {r : Kernel × Outcome} (done : u.trap cfg lay platform tr = .ok r) :
    Net.Fits buf r.1.net := by
  have quiet {net net' : Net.Statics} {ops : List Net.Op} (fits : Net.Fits buf net)
      (run : Run (Net.Step cfg platform) net ops net') (here : ∀ op ∈ ops, op.isLocal) : Net.Fits buf net' := by
    induction run with
    | nil => exact fits
    | @snoc _ _ ops op _ last ih =>
      have isLocal := here op (List.mem_append_right _ List.mem_cons_self)
      refine (ih fun op mem => here op (List.mem_append_left _ mem)).step ⟨last, ?_⟩
      cases op <;> trivial
  cases trap_net inUser done with
  | none same =>
    rw [same]
    exact fits
  | calls _ run here => exact quiet fits run here
  | recv ecall is polled pumped run here =>
    obtain ⟨frames, rto⟩ := tidy ecall is
    exact quiet ((fits.step ⟨polled, frames⟩).step ⟨pumped, rto _ polled⟩) run here

theorem run_fits (answers : platform.Answers) {mac : Mac} {ops : List Net.Op} {net : Net.Statics}
    (stack : Run (Net.StepWhen cfg platform fun net op => op.Tidy cfg platform buf net) (.boot mac) ops net)
    {e : Entries} {ticks : Usize} (booted : boot cfg lay e net ticks = .ok u) {trs : List UserTrap}
    (run : Run (StepWhen cfg lay platform (Tidy cfg platform buf)) u trs v) : Net.Fits buf v.kernel.net := by
  have start : Net.Fits buf u.kernel.net := by
    rw [boot_net booted]
    exact stack.invariant (fun _ _ _ fits step => fits.step step) fun has => (by cases has)
  have plain : Run (Net.Step cfg platform) (.boot mac) ops net := stack.mono fun _ _ _ step => step.1
  have inUser : Kernel.InUser lay u.kernel u.frame := run_inUser answers plain booted .nil
  have both : Kernel.InUser lay v.kernel v.frame ∧ Net.Fits buf v.kernel.net := by
    refine @Run.invariant _ _ _ (fun v => Kernel.InUser lay v.kernel v.frame ∧ Net.Fits buf v.kernel.net)
      (fun a tr b held step => ?_) _ _ _ run ⟨inUser, start⟩
    exact ⟨step.1.inUser answers held.1, trap_fits held.1 step.2 held.2 step.1⟩
  exact both.2

/-- What the poll of a `recv` queues was received whole, too. -/
theorem poll_origin {seen : List Net.Completion} (origin : Net.Origin seen u.kernel.net) {m : Kernel}
    (polled : (u.entered tr).poll cfg platform (u.env tr) = .ok m) : Net.Origin (seen ++ tr.received) m.net := by
  obtain ⟨a, drained, pumped⟩ := Kernel.poll_steps polled
  have after := origin.steps (.cons drained (.single pumped))
  simpa [Net.Op.frames, env] using after

theorem trap_recv (inUser : Kernel.InUser lay u.kernel u.frame) (ecall : tr.scause = Scause.excEcallU)
    (num : tr.x Asm.Reg.a7 = Syscall.sysRecv) {k : Kernel} {frame : Usize}
    (returned : u.trap cfg lay platform tr = .ok (k, .resume frame)) :
    frame = u.frame ∧ ∃ m, (u.entered tr).poll cfg platform (u.env tr) = .ok m ∧
      Kernel.Picks cfg m u.frame (tr.x Asm.Reg.a0) (min (tr.x Asm.Reg.a1).toNat copyMax) k := by
  obtain ⟨c, t, -, same, stays⟩ := entered_stays inUser tr
  have number : (u.entered tr).a7 u.frame = Syscall.sysRecv := by rw [Kernel.a7, entered_x, num]
  rw [trap, Kernel.trapHandler_ecall rfl ecall, Kernel.fromEcall_recv (env_closed inUser tr) number, ← same] at returned
  obtain ⟨rfl, m, polled, picks⟩ := Kernel.sysRecv_picks stays.sound stays.runs returned
  rw [same, Kernel.a0, Kernel.a1, entered_x] at picks
  exact ⟨same, m, polled, picks⟩

/-- In every run whose polls queue no empty and no longer datagram than the app's
buffer, and drop no unread payload: `recv` says (OK, 0) only at end-of-stream,
hands over whole messages, and what it does not hand over stays queued, also when
it was queued in the poll of this call. -/
theorem recv_returns_whole_messages (answers : platform.Answers) (app : App) {mac : Mac} {ops : List Net.Op}
    {net : Net.Statics}
    (stack : Run (Net.StepWhen cfg platform fun net op => op.Tidy cfg platform app.recvBuf net) (.boot mac) ops net)
    {e : Entries} {ticks : Usize} (booted : boot cfg lay e net ticks = .ok u) {trs : List UserTrap}
    (run : Run (StepWhen cfg lay platform (Tidy cfg platform app.recvBuf)) u trs v) {ptr : Usize}
    (recv : CallsRecv app tr ptr) (tidy : v.Tidy cfg platform app.recvBuf tr) {k : Kernel} {frame : Usize}
    (returned : v.trap cfg lay platform tr = .ok (k, .resume frame)) :
    frame = v.frame ∧ ∃ m, (v.entered tr).poll cfg platform (v.env tr) = .ok m ∧
      Kernel.Whole cfg platform tr.received (seen ops (trs ++ [tr])) (v.entered tr) m k ptr
        ((k.frames frame).x Asm.Reg.a0) ((k.frames frame).x Asm.Reg.a1) := by
  have stack' : Run (Net.Step cfg platform) (.boot mac) ops net := stack.mono fun _ _ _ step => step.1
  have run' : Run (Step cfg lay platform) u trs v := run.mono fun _ _ _ step => step.1
  have inUser := run_inUser answers stack' booted run'
  obtain ⟨rfl, m, polled, picks⟩ := trap_recv inUser recv.ecall recv.num returned
  rw [recv.buf, recv.len] at picks
  have room : min (addr app.recvBuf).toNat Uaccess.copyMax = app.recvBuf := by cases app <;> decide
  rw [room] at picks
  obtain ⟨a, drained, pumped⟩ := Kernel.poll_steps polled
  -- What the poll of this call queues is tidy as well, so it fits and has an origin.
  obtain ⟨frames, rto⟩ := tidy recv.ecall recv.num
  have fits := ((run_fits answers stack booted run).step ⟨drained, frames⟩).step ⟨pumped, rto _ drained⟩
  have origin : Net.Origin (seen ops (trs ++ [tr])) m.net := by
    rw [seen_snoc]
    exact poll_origin (run_origin answers stack' booted run') polled
  refine ⟨rfl, m, polled, picks.whole origin fits ?_ ?_ ⟨?_, ?_⟩⟩
  · cases app <;> decide
  · cases app <;> decide
  · rintro front r p ⟨back, split⟩ reached has
    rw [← split] at frames
    change Net.Step cfg platform _ (.pollRx tr.received) a at drained
    rw [← split] at drained
    exact Net.poll_keepsSegment reached ⟨drained, frames⟩ ⟨pumped, rto _ (split ▸ drained)⟩ has
  · rintro front r ⟨back, split⟩ reached full
    change Net.Step cfg platform _ (.pollRx tr.received) a at drained
    rw [← split] at drained
    exact Net.poll_keepsDatagram reached drained pumped full

end

def recvOf (app : App) (received : List Net.Completion) (ids : ∀ e ∈ received, e.id.toNat < Net.rxBufs) : UserTrap :=
  callOf Syscall.sysRecv app.recvBuf received ids

def retval : Result (Kernel × Outcome) → Option (Usize × Usize)
  | .ok (k, .resume frame) => some ((k.frames frame).x Asm.Reg.a0, (k.frames frame).x Asm.Reg.a1)
  | _ => none

theorem retval_some {x : Result (Kernel × Outcome)} {pair : Usize × Usize} (back : retval x = some pair) :
    ∃ k frame, x = .ok (k, .resume frame) := by
  unfold retval at back
  split at back
  · exact ⟨_, _, rfl⟩
  · cases back

def shortDatagram : UserTrap := recvOf .http [Net.udpFrom gwIp 9 [1, 2]] (by decide +kernel)

theorem recv_returns_whole_messages_short :
    ∃ k frame m, appTask.trap .default smallLayout Net.qemu shortDatagram = .ok (k, .resume frame) ∧
      Kernel.Whole .default Net.qemu shortDatagram.received (seen [] [shortDatagram]) (appTask.entered shortDatagram) m k
        appBuf
        ((k.frames frame).x Asm.Reg.a0) ((k.frames frame).x Asm.Reg.a1) := by
  have booted : boot .default smallLayout ⟨0, 0, 0, 0⟩ (.boot Net.guestMac) 0 = .ok appTask := rfl
  have tidy : appTask.Tidy .default Net.qemu App.http.recvBuf shortDatagram := by decide +kernel
  have pair : retval (appTask.trap .default smallLayout Net.qemu shortDatagram) = some (Syscall.ok, 2) := by
    decide +kernel
  obtain ⟨k, frame, returned⟩ := retval_some pair
  obtain ⟨-, m, -, whole⟩ := recv_returns_whole_messages ⟨rfl, fun _ => rfl, rfl⟩ .http .nil booted .nil
    ⟨rfl, rfl, rfl, rfl⟩ tidy returned
  exact ⟨k, frame, m, returned, whole⟩

def segments (segs : List (List U8)) : List Net.Completion :=
  Net.arpReplyFrom gwIp :: segs.map (Net.ipv4From gwIp Ipv4.protoTcp)

def requestSegs : List (List U8) :=
  [Tcp.peerSeg 100 0 Tcp.Flag.syn [], Tcp.peerSeg 101 1 Tcp.Flag.ack [],
    Tcp.peerSeg 101 1 (Tcp.Flag.psh ||| Tcp.Flag.ack) [71, 69]]

def emptyDatagram : UserTrap := recvOf .http [Net.udpFrom gwIp 9 []] (by decide +kernel)

def longDatagram : UserTrap := recvOf .http [Net.udpFrom gwIp 9 (List.replicate 513 65)] (by decide +kernel)

def abortedRequest : UserTrap :=
  recvOf .http (segments (requestSegs ++ [Tcp.peerSeg 103 1 Tcp.Flag.rst []])) (by decide +kernel)

/-- An empty datagram is (OK, 0) although `take_eof` says `false`; of 513 bytes the
app gets 512 and the queue is empty; a RST takes an accepted request with it. -/
theorem recv_discards :
    (retval (appTask.trap .default smallLayout Net.qemu emptyDatagram) = some (Syscall.ok, 0) ∧
      ((appTask.entered emptyDatagram).poll .default Net.qemu (appTask.env emptyDatagram) >>= fun m =>
        m.tcpEof .default).toOption.map (·.2) = some false) ∧
    (retval (appTask.trap .default smallLayout Net.qemu longDatagram) = some (Syscall.ok, 512) ∧
      (appTask.trap .default smallLayout Net.qemu longDatagram).toOption.map (·.1.net.udpPending) = some false) ∧
    ((Net.pollRx .default Net.qemu (.boot Net.guestMac) (segments requestSegs)).toOption.map
        (fun r => Tcp.pendingBytes r.1.tcp.tcb) = some (some [71, 69]) ∧
      retval (appTask.trap .default smallLayout Net.qemu abortedRequest) = some (Syscall.errAgain, 0)) := by
  decide +kernel

end User

end Whimbrel

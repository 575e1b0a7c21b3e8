import Whimbrel.Net.App
import Whimbrel.Tcp.Unread

/-! The two receive queues: one TCP payload in the TCB, one UDP datagram.

A received frame is a TCP segment for `handle`, a datagram that fills an empty
UDP queue, or leaves both queues as they were. What is queued was received
whole, from the endpoint the queue remembers. -/

set_option autoImplicit false

namespace Whimbrel.Net

open Checked Transition

structure Message where
  ip : Ip
  port : U16
  data : List U8
  deriving DecidableEq, Repr

namespace Completion

variable (c : Completion)

def ipv4 : Option Ipv4.Datagram :=
  c.frame.bind fun frame =>
    if word16 frame 12 = ethTypeIpv4 then (Ipv4.judge frame ourIp).toOption else none

def tcpOp : Option Tcp.Op :=
  c.ipv4.bind fun d => if d.proto = Ipv4.protoTcp then some (.handle c.now d.payload d.src ourIp) else none

def segment : Option Message := (c.tcpOp.bind Tcp.Op.arrival).map fun a => ⟨a.src, a.seg.sport, a.seg.data⟩

def datagram : Option Message :=
  c.ipv4.bind fun d =>
    if d.proto = Ipv4.protoUdp then
      (Udp.judge d.payload d.src ourIp).toOption.map fun e => ⟨d.src, e.srcPort, e.raw.drop Udp.hdr⟩
    else none

end Completion

/-! ## What a frame does -/

/-- `UDP_PENDING`, `UDP_BUF[..UDP_LEN]`, `UDP_SRC_IP`, `UDP_SRC_PORT` and `UDP_PEER`. -/
structure UdpQueue where
  pending : Bool
  data : List U8
  srcIp : Ip
  srcPort : U16
  peer : Bool
  deriving DecidableEq, Repr

def Statics.udpQueue (net : Statics) : UdpQueue :=
  ⟨net.udpPending, net.udpData, net.udpSrcIp, net.udpSrcPort, net.udpPeer⟩

def takesDatagram (net : Statics) (m : Message) : Prop := ¬ net.udpPending ∧ m.data.length ≤ udpPayloadMax

instance (net : Statics) (m : Message) : Decidable (takesDatagram net m) := inferInstanceAs (Decidable (_ ∧ _))

inductive Arrives (cfg : Config) (net : Statics) (c : Completion) (u : Statics) : Prop where
  | nothing (tcb : u.tcp.tcb = net.tcp.tcb) (udp : u.udpQueue = net.udpQueue)
  | segment {op : Tcp.Op} {tcp : Tcp.Statics} {l : Tcp.Label} (brings : c.tcpOp = some op)
      (handled : Tcp.exec cfg net.tcp op = .ok (tcp, l)) (tcb : u.tcp.tcb = tcp.tcb) (udp : u.udpQueue = net.udpQueue)
  | datagram {m : Message} (brings : c.datagram = some m) (takes : takesDatagram net m)
      (tcb : u.tcp.tcb = net.tcp.tcb) (udp : u.udpQueue = ⟨true, m.data, m.ip, m.port, true⟩)

section
variable {cfg : Config} {platform : Platform} {net u : Statics} {now : Usize} {c : Completion}

theorem TcpSent.queues (sent : TcpSent net u) : u.tcp.tcb = net.tcp.tcb ∧ u.udpQueue = net.udpQueue := by
  cases sent <;> exact ⟨rfl, rfl⟩

theorem posted_queues {frame : Result (List U8)} (done : (frame >>= net.posted) = .ok u) :
    u.tcp.tcb = net.tcp.tcb ∧ u.udpQueue = net.udpQueue := by
  obtain ⟨f, -, done⟩ := bind_eq_ok done
  unfold Statics.posted at done
  split at done
  · cases done
  · cases done
    exact ⟨rfl, rfl⟩

theorem Arrives.of_eq {net' u' : Statics} (arrives : Arrives cfg net c u) (before : net.tcp = net'.tcp)
    (queue : net.udpQueue = net'.udpQueue) (after : u'.tcp.tcb = u.tcp.tcb) (queue' : u'.udpQueue = u.udpQueue) :
    Arrives cfg net' c u' := by
  cases arrives with
  | nothing tcb udp => exact .nothing (after.trans (before ▸ tcb)) (queue'.trans (udp.trans queue))
  | segment brings handled tcb udp =>
    exact .segment brings (before ▸ handled) (after.trans tcb) (queue'.trans (udp.trans queue))
  | datagram brings takes tcb udp =>
    have free : net.udpPending = net'.udpPending := congrArg UdpQueue.pending queue
    exact .datagram brings ⟨free ▸ takes.1, takes.2⟩ (after.trans (before ▸ tcb)) (queue'.trans udp)

theorem classifyUdp_arrives {d : Ipv4.Datagram} (brings : c.ipv4 = some d) (isUdp : d.proto = Ipv4.protoUdp)
    (done : classifyUdp net d = .ok u) : Arrives cfg net c u := by
  unfold classifyUdp at done
  rw [Udp.parse_eq] at done
  cases accepted : Udp.judge d.payload d.src ourIp with
  | error r =>
    rw [accepted] at done
    cases done
    exact .nothing rfl rfl
  | ok echo =>
    rw [accepted] at done
    simp only [settle, bind_ok] at done
    have tail : (echo.raw.drop Udp.hdr).take (echo.raw.length - Udp.hdr) = echo.raw.drop Udp.hdr :=
      List.take_of_length_le (by simp)
    rw [Udp.Echo.payload, slice_ok (Udp.raw_of_judge accepted) (Nat.le_refl _), bind_ok, tail] at done
    split at done
    · cases done
      exact .nothing rfl rfl
    rename_i short
    split at done
    · cases done
      exact .nothing rfl rfl
    · rename_i free
      cases done
      have carries : c.datagram = some ⟨d.src, echo.srcPort, echo.raw.drop Udp.hdr⟩ := by
        rw [Completion.datagram, brings, Option.bind_some, if_pos isUdp, accepted]
        rfl
      exact .datagram carries ⟨free, Nat.le_of_not_lt short⟩ rfl rfl

theorem classifyTcp_arrives {d : Ipv4.Datagram} (brings : c.ipv4 = some d) (isTcp : d.proto = Ipv4.protoTcp)
    (done : classifyTcp cfg platform c.now net d = .ok u) : Arrives cfg net c u := by
  unfold classifyTcp at done
  split at done
  · cases done
    exact .nothing rfl rfl
  · obtain ⟨⟨tcp, l⟩, handled, done⟩ := bind_eq_ok done
    have queues := (TcpSent.of_ok done).queues
    have carries : c.tcpOp = some (.handle c.now d.payload d.src ourIp) := by
      rw [Completion.tcpOp, brings, Option.bind_some, if_pos isTcp]
    exact .segment carries handled queues.1 queues.2

theorem classifyIcmp_queues {d : Ipv4.Datagram} (done : classifyIcmp now net d = .ok u) :
    u.tcp.tcb = net.tcp.tcb ∧ u.udpQueue = net.udpQueue := by
  unfold classifyIcmp at done
  obtain ⟨⟨drops, msg⟩, -, done⟩ := bind_eq_ok done
  cases msg with
  | none =>
    cases done
    exact ⟨rfl, rfl⟩
  | some msg =>
    cases msg with
    | echoReq ident seq raw =>
      obtain ⟨gw, -, done⟩ := bind_eq_ok done
      have same := @posted_queues { net with icmp := drops } u _ done
      exact same
    | echoReply ident seq =>
      dsimp only at done
      split at done <;> cases done <;> exact ⟨rfl, rfl⟩

theorem classifyIpv4_arrives {frame : List U8} (has : c.frame = some frame) (isIpv4 : word16 frame 12 = ethTypeIpv4)
    (done : classifyIpv4 cfg platform c.now net frame = .ok u) : Arrives cfg net c u := by
  unfold classifyIpv4 at done
  rw [Ipv4.parse_eq] at done
  cases accepted : Ipv4.judge frame ourIp with
  | error r =>
    rw [accepted] at done
    cases done
    exact .nothing rfl rfl
  | ok d =>
    rw [accepted] at done
    simp only [settle, bind_ok] at done
    have brings : c.ipv4 = some d := by
      rw [Completion.ipv4, has, Option.bind_some, if_pos isIpv4, accepted]
      rfl
    split at done
    · rename_i isUdp
      exact classifyUdp_arrives brings isUdp done
    split at done
    · rename_i isTcp
      exact classifyTcp_arrives brings isTcp done
    · exact .nothing (classifyIcmp_queues done).1 (classifyIcmp_queues done).2

theorem classifyArp_queues {frame : List U8} {r : Statics × Bool} (done : classifyArp net frame = .ok r) :
    r.1.tcp.tcb = net.tcp.tcb ∧ r.1.udpQueue = net.udpQueue := by
  unfold classifyArp at done
  obtain ⟨⟨arp, event⟩, -, done⟩ := bind_eq_ok done
  cases event with
  | none =>
    cases done
    exact ⟨rfl, rfl⟩
  | some event =>
    cases event with
    | reply =>
      cases done
      exact ⟨rfl, rfl⟩
    | request req =>
      obtain ⟨v, sent, done⟩ := bind_eq_ok done
      cases done
      have same := @posted_queues { net with arp } v _ sent
      exact same

theorem classifyRx_arrives {r : Statics × Bool} (done : classifyRx cfg platform net c = .ok r) :
    Arrives cfg net c r.1 := by
  rw [classifyRx_eq] at done
  cases has : c.frame with
  | none =>
    rw [has] at done
    cases done
    exact .nothing rfl rfl
  | some frame =>
    simp only [has] at done
    split at done
    · rename_i isIpv4
      obtain ⟨v, classified, rfl⟩ := map_eq_ok done
      exact classifyIpv4_arrives has isIpv4 classified
    split at done
    · cases done
      exact .nothing rfl rfl
    · exact .nothing (classifyArp_queues done).1 (classifyArp_queues done).2

theorem rxStep_arrives {took : U32} {replied : Bool} {r : Statics × U32 × Bool}
    (done : rxStep cfg platform net took replied c = .ok r) : Arrives cfg net c r.1 := by
  unfold rxStep at done
  split at done
  · cases done
  obtain ⟨⟨v, replied'⟩, classified, done⟩ := bind_eq_ok done
  obtain ⟨took', -, done⟩ := bind_eq_ok done
  cases done
  exact (classifyRx_arrives classified).of_eq rfl rfl rfl rfl

/-- Every frame of the list meets the condition in the state it finds. -/
def FramesMeet (cfg : Config) (platform : Platform) (P : Statics → Completion → Prop) :
    Statics → U32 → Bool → List Completion → Prop
  | _, _, _, [] => True
  | net, took, replied, c :: cs =>
    P net c ∧ ∀ r, rxStep cfg platform net took replied c = .ok r → FramesMeet cfg platform P r.1 r.2.1 r.2.2 cs

instance decidableFramesMeet (P : Statics → Completion → Prop) [∀ net c, Decidable (P net c)] : (net : Statics) →
    (took : U32) → (replied : Bool) → (cs : List Completion) → Decidable (FramesMeet cfg platform P net took replied cs)
  | _, _, _, [] => inferInstanceAs (Decidable True)
  | net, took, replied, c :: cs =>
    haveI (r : Statics × U32 × Bool) := decidableFramesMeet P r.1 r.2.1 r.2.2 cs
    inferInstanceAs (Decidable (P net c ∧ ∀ r, rxStep cfg platform net took replied c = .ok r → _))

theorem FramesMeet.of_forall {P : Statics → Completion → Prop} (all : ∀ net c, P net c) {took : U32} {replied : Bool}
    {cs : List Completion} : FramesMeet cfg platform P net took replied cs := by
  induction cs generalizing net took replied with
  | nil => trivial
  | cons c cs ih => exact ⟨all net c, fun r _ => ih⟩

theorem rxLoop_run {P : Statics → Completion → Prop} {took : U32} {replied : Bool} {cs : List Completion}
    {r : Statics × U32 × Bool} (meets : FramesMeet cfg platform P net took replied cs)
    (ran : rxLoop cfg platform net took replied cs = .ok r) :
    Run (fun a c b => Arrives cfg a c b ∧ P a c) net cs r.1 := by
  induction cs generalizing net took replied with
  | nil =>
    cases ran
    exact .nil
  | cons c cs ih =>
    obtain ⟨v, first, rest⟩ := bind_eq_ok ran
    exact .cons ⟨rxStep_arrives first, meets.1⟩ (ih (meets.2 v first) rest)

theorem FramesMeet.rest {P : Statics → Completion → Prop} {took : U32} {replied : Bool} {front back : List Completion}
    {v : Statics × U32 × Bool} (meets : FramesMeet cfg platform P net took replied (front ++ back))
    (reached : rxLoop cfg platform net took replied front = .ok v) : FramesMeet cfg platform P v.1 v.2.1 v.2.2 back := by
  induction front generalizing net took replied with
  | nil =>
    cases reached
    exact meets
  | cons c front ih =>
    obtain ⟨r, first, reached⟩ := bind_eq_ok reached
    exact ih (meets.2 r first) reached

/-- A poll that has reached `v` takes the other frames one after the other. -/
theorem pollRx_rest {P : Statics → Completion → Prop} {front back : List Completion} {v : Statics × U32 × Bool}
    {r : Statics × Bool} (meets : FramesMeet cfg platform P net 0 false (front ++ back))
    (reached : rxLoop cfg platform net 0 false front = .ok v) (done : pollRx cfg platform net (front ++ back) = .ok r) :
    Run (fun a c b => Arrives cfg a c b ∧ P a c) v.1 back r.1 := by
  obtain ⟨⟨w, took, replied⟩, ran, done⟩ := bind_eq_ok done
  rw [rxLoop_append, reached, bind_ok] at ran
  dsimp only at done
  split at done
  · cases done
  · cases done
    exact rxLoop_run (meets.rest reached) ran

theorem pollRx_run {P : Statics → Completion → Prop} {cs : List Completion} {r : Statics × Bool}
    (meets : FramesMeet cfg platform P net 0 false cs) (done : pollRx cfg platform net cs = .ok r) :
    Run (fun a c b => Arrives cfg a c b ∧ P a c) net cs r.1 :=
  @pollRx_rest _ _ _ _ [] cs _ _ meets rfl done

theorem pumpTcp_queues (done : pumpTcp cfg platform net now = .ok u) :
    ∃ tcp l, Tcp.exec cfg net.tcp (.checkRto now) = .ok (tcp, l) ∧ u.tcp.tcb = tcp.tcb ∧
      u.udpQueue = net.udpQueue := by
  obtain ⟨⟨tcp, l⟩, checked, done⟩ := bind_eq_ok done
  have queues := (TcpSent.of_ok done).queues
  exact ⟨tcp, l, checked, queues.1, queues.2⟩

/-! ## Where the queued payloads come from -/

/-- What is queued is the whole payload of a frame, from the endpoint the queue remembers. -/
structure Origin (seen : List Completion) (net : Statics) : Prop where
  tcb : Tcp.TcbInv net.tcp.tcb
  segment : ∀ {p}, Tcp.pendingBytes net.tcp.tcb = some p →
    ∃ c ∈ seen, c.segment = some ⟨net.tcp.tcb.remoteIp, net.tcp.tcb.remotePort, p⟩
  datagram : net.udpPending → ∃ c ∈ seen, c.datagram = some ⟨net.udpSrcIp, net.udpSrcPort, net.udpData⟩
  peer : net.udpPending → net.udpPeer

theorem Origin.boot (mac : Mac) : Origin [] (.boot mac) :=
  ⟨.init, fun has => (by cases has), fun has => (by cases has), fun has => (by cases has)⟩

theorem Origin.mono {seen more : List Completion} (origin : Origin seen net) (sub : seen ⊆ more) : Origin more net where
  tcb := origin.tcb
  segment has := (origin.segment has).imp fun _ found => ⟨sub found.1, found.2⟩
  datagram has := (origin.datagram has).imp fun _ found => ⟨sub found.1, found.2⟩
  peer := origin.peer

theorem Origin.of_eq {seen : List Completion} (origin : Origin seen net) (tcb : u.tcp.tcb = net.tcp.tcb)
    (udp : u.udpQueue = net.udpQueue) : Origin seen u := by
  simp only [Statics.udpQueue, UdpQueue.mk.injEq] at udp
  obtain ⟨pending, data, srcIp, srcPort, peer⟩ := udp
  refine ⟨tcb ▸ origin.tcb, fun has => ?_, fun has => ?_, fun has => ?_⟩
  · rw [tcb] at has ⊢
    exact origin.segment has
  · rw [pending] at has
    rw [data, srcIp, srcPort]
    exact origin.datagram has
  · rw [pending] at has
    rw [peer]
    exact origin.peer has

theorem Origin.tcp {seen : List Completion} (origin : Origin seen net) {op : Tcp.Op} {tcp : Tcp.Statics} {l : Tcp.Label}
    (ran : Tcp.exec cfg net.tcp op = .ok (tcp, l))
    (known : ∀ a, op.arrival = some a → ∃ c ∈ seen, c.segment = some ⟨a.src, a.seg.sport, a.seg.data⟩) :
    Origin seen { net with tcp } := by
  have same := Tcp.exec_op ran
  have step : Tcp.Step cfg net.tcp l tcp := by rw [Tcp.Step, same, ran]
  refine ⟨.run (.single step) origin.tcb, fun {p} has => ?_, origin.datagram, origin.peer⟩
  rcases step.pending_from origin.tcb has with ⟨before, ip, port⟩ | ⟨a, arrives, rfl, ip, port⟩
  · change ∃ c ∈ seen, c.segment = some ⟨tcp.tcb.remoteIp, tcp.tcb.remotePort, p⟩
    rw [ip, port]
    exact origin.segment before
  · change ∃ c ∈ seen, c.segment = some ⟨tcp.tcb.remoteIp, tcp.tcb.remotePort, a.seg.data⟩
    rw [← ip, ← port]
    exact known a (same ▸ arrives)

theorem Origin.arrives {seen : List Completion} (origin : Origin seen net) (arrives : Arrives cfg net c u) :
    Origin (seen ++ [c]) u := by
  have wider : Origin (seen ++ [c]) net := origin.mono (List.subset_append_left _ _)
  have here : c ∈ seen ++ [c] := List.mem_append_right _ List.mem_cons_self
  cases arrives with
  | nothing tcb udp => exact wider.of_eq tcb udp
  | @segment op tcp l brings handled tcb udp =>
    refine (wider.tcp handled fun a arrives => ⟨c, here, ?_⟩).of_eq tcb udp
    rw [Completion.segment, brings, Option.bind_some, arrives]
    rfl
  | @datagram m brings takes tcb udp =>
    simp only [Statics.udpQueue, UdpQueue.mk.injEq] at udp
    obtain ⟨-, data, srcIp, srcPort, peer⟩ := udp
    refine ⟨tcb ▸ wider.tcb, fun has => ?_, fun _ => ⟨c, here, ?_⟩, fun _ => peer⟩
    · rw [tcb] at has ⊢
      exact wider.segment has
    · rw [data, srcIp, srcPort, brings]

theorem Origin.frames {seen cs : List Completion} (origin : Origin seen net) (run : Run (Arrives cfg) net cs u) :
    Origin (seen ++ cs) u := by
  refine @Run.history _ _ _ (fun cs net => Origin (seen ++ cs) net) (fun cs a c b held arrives => ?_) _ _ _ run ?_
  · rw [← List.append_assoc]
    exact held.arrives arrives
  · rw [List.append_nil]
    exact origin

def Op.frames : Op → List Completion
  | .pollRx cs => cs
  | _ => []

inductive Calls (cfg : Config) (net u : Statics) : Prop where
  | tcp {op : Tcp.Op} {tcp : Tcp.Statics} {l : Tcp.Label} (brings : op.arrival = none)
      (ran : Tcp.exec cfg net.tcp op = .ok (tcp, l)) (tcb : u.tcp.tcb = tcp.tcb) (udp : u.udpQueue = net.udpQueue)
  | same (tcb : u.tcp.tcb = net.tcp.tcb) (udp : u.udpQueue = net.udpQueue)
  | consumed (tcb : u.tcp.tcb = net.tcp.tcb) (udp : u.udpQueue = (udpConsume net).udpQueue)

theorem Step.calls {op : Op} (notPoll : ∀ cs, op ≠ .pollRx cs) (step : Step cfg platform net op u) : Calls cfg net u := by
  cases op with
  | pollRx cs => exact absurd rfl (notPoll cs)
  | pumpTcp now =>
    obtain ⟨tcp, l, ran, tcb, udp⟩ := pumpTcp_queues step
    exact .tcp rfl ran tcb udp
  | tcpSend now payload flags =>
    obtain ⟨r, called, rfl⟩ := map_eq_ok step
    obtain ⟨⟨tcp, l⟩, ran, called⟩ := bind_eq_ok called
    dsimp only at called
    split at called
    · cases called
      exact .tcp rfl ran rfl rfl
    · obtain ⟨v, sent, called⟩ := bind_eq_ok called
      cases called
      have queues := (TcpSent.of_ok sent).queues
      exact .tcp rfl ran queues.1 queues.2
  | tcpConsume | tcpEof =>
    obtain ⟨⟨tcp, l⟩, ran, step⟩ := bind_eq_ok step
    cases step
    exact .tcp rfl ran rfl rfl
  | udpSend payload =>
    obtain ⟨r, called, rfl⟩ := map_eq_ok step
    unfold udpSend at called
    split at called
    · cases called
      exact .same rfl rfl
    · obtain ⟨v, sent, called⟩ := bind_eq_ok called
      cases called
      obtain ⟨gw, -, sent⟩ := bind_eq_ok sent
      exact .same (posted_queues sent).1 (posted_queues sent).2
  | udpConsume =>
    cases step
    exact .consumed rfl rfl
  | arpRequest | gratuitousArp => exact .same (posted_queues step).1 (posted_queues step).2
  | ping now =>
    obtain ⟨gw, -, step⟩ := bind_eq_ok step
    obtain ⟨v, sent, step⟩ := bind_eq_ok step
    cases step
    exact .same (posted_queues sent).1 (posted_queues sent).2

theorem Origin.step {seen : List Completion} {op : Op} (origin : Origin seen net) (step : Step cfg platform net op u) :
    Origin (seen ++ op.frames) u := by
  by_cases poll : ∃ cs, op = .pollRx cs
  · obtain ⟨cs, rfl⟩ := poll
    obtain ⟨r, done, rfl⟩ := map_eq_ok step
    have any : FramesMeet cfg platform (fun _ _ => True) net 0 false cs := .of_forall fun _ _ => trivial
    exact origin.frames ((pollRx_run any done).mono fun _ _ _ frame => frame.1)
  · replace origin : Origin (seen ++ op.frames) net := origin.mono (List.subset_append_left _ _)
    cases step.calls fun cs same => poll ⟨cs, same⟩ with
    | tcp brings ran tcb udp =>
      exact (origin.tcp ran fun a arrives => by rw [brings] at arrives; cases arrives).of_eq tcb udp
    | same tcb udp => exact origin.of_eq tcb udp
    | consumed tcb udp =>
      have emptied : Origin (seen ++ op.frames) (udpConsume net) :=
        ⟨origin.tcb, origin.segment, fun has => (by cases has), fun has => (by cases has)⟩
      exact emptied.of_eq tcb udp

theorem Origin.steps {seen : List Completion} {ops : List Op} (origin : Origin seen net)
    (run : Run (Step cfg platform) net ops u) : Origin (seen ++ ops.flatMap Op.frames) u := by
  refine @Run.history _ _ _ (fun ops net => Origin (seen ++ ops.flatMap Op.frames) net)
    (fun ops a op b held step => ?_) _ _ _ run ?_
  · rw [List.flatMap_append, List.flatMap_singleton, ← List.append_assoc]
    exact held.step step
  · rw [List.flatMap_nil, List.append_nil]
    exact origin

theorem Origin.run {mac : Mac} {ops : List Op} (run : Run (Step cfg platform) (.boot mac) ops net) :
    Origin (ops.flatMap Op.frames) net :=
  (Origin.boot mac).steps run

/-! ## Frames that lose nothing -/

/-- A datagram that is queued has a byte and fits the app's buffer, and a segment
does not drop an unread payload. -/
def Completion.Tidy (cfg : Config) (buf : Nat) (net : Statics) (c : Completion) : Prop :=
  (∀ m ∈ c.datagram, takesDatagram net m → 0 < m.data.length ∧ m.data.length ≤ buf) ∧
    ∀ op ∈ c.tcpOp, Tcp.KeepsUnread cfg net.tcp.tcb op

instance (buf : Nat) (c : Completion) : Decidable (c.Tidy cfg buf net) :=
  inferInstanceAs (Decidable ((∀ m ∈ c.datagram, _) ∧ ∀ op ∈ c.tcpOp, _))

def Op.Tidy (cfg : Config) (platform : Platform) (buf : Nat) (net : Statics) : Op → Prop
  | .pollRx cs => FramesMeet cfg platform (fun net c => c.Tidy cfg buf net) net 0 false cs
  | .pumpTcp now => Tcp.KeepsUnread cfg net.tcp.tcb (.checkRto now)
  | _ => True

instance (buf : Nat) (op : Op) : Decidable (op.Tidy cfg platform buf net) := by
  cases op <;> dsimp only [Op.Tidy] <;> infer_instance

def StepWhen (cfg : Config) (platform : Platform) (ok : Statics → Op → Prop) (net : Statics) (op : Op) (u : Statics) :
    Prop :=
  Step cfg platform net op u ∧ ok net op

def Fits (buf : Nat) (net : Statics) : Prop := net.udpPending → 0 < net.udpData.length ∧ net.udpData.length ≤ buf

theorem Fits.of_eq {buf : Nat} (fits : Fits buf net) (udp : u.udpQueue = net.udpQueue) : Fits buf u := by
  simp only [Statics.udpQueue, UdpQueue.mk.injEq] at udp
  rw [Fits, udp.1, udp.2.1]
  exact fits

theorem Fits.arrives {buf : Nat} (fits : Fits buf net) (tidy : c.Tidy cfg buf net) (arrives : Arrives cfg net c u) :
    Fits buf u := by
  cases arrives with
  | nothing _ udp | segment _ _ _ udp => exact fits.of_eq udp
  | datagram brings takes _ udp =>
    simp only [Statics.udpQueue, UdpQueue.mk.injEq] at udp
    rw [Fits, udp.2.1]
    exact fun _ => tidy.1 _ brings takes

theorem Fits.step {buf : Nat} {op : Op} (fits : Fits buf net)
    (step : StepWhen cfg platform (fun net op => op.Tidy cfg platform buf net) net op u) : Fits buf u := by
  obtain ⟨step, tidy⟩ := step
  by_cases poll : ∃ cs, op = .pollRx cs
  · obtain ⟨cs, rfl⟩ := poll
    obtain ⟨r, done, rfl⟩ := map_eq_ok step
    exact (pollRx_run tidy done).invariant (fun _ _ _ fits frame => fits.arrives frame.2 frame.1) fits
  · cases step.calls fun cs same => poll ⟨cs, same⟩ with
    | tcp _ _ _ udp | same _ udp => exact fits.of_eq udp
    | consumed _ udp => exact @Fits.of_eq (udpConsume net) u buf (fun has => (by cases has)) udp

theorem Completion.tcpOp_ne_consume {op : Tcp.Op} (brings : c.tcpOp = some op) : op ≠ .consume := by
  rintro rfl
  obtain ⟨d, -, brings⟩ := Option.bind_eq_some_iff.mp brings
  split at brings <;> cases brings

theorem exec_keepsUnread {op : Tcp.Op} {tcp : Tcp.Statics} {l : Tcp.Label} {p : List U8}
    (ran : Tcp.exec cfg net.tcp op = .ok (tcp, l)) (keeps : Tcp.KeepsUnread cfg net.tcp.tcb op) (reads : op ≠ .consume)
    (has : Tcp.pendingBytes net.tcp.tcb = some p) : Tcp.pendingBytes tcp.tcb = some p := by
  obtain rfl := Tcp.exec_op ran
  have step : Tcp.Step cfg net.tcp l tcp := ran
  exact step.keepsUnread keeps reads has

theorem Arrives.keepsSegment {buf : Nat} {p : List U8} (arrives : Arrives cfg net c u) (tidy : c.Tidy cfg buf net)
    (has : Tcp.pendingBytes net.tcp.tcb = some p) : Tcp.pendingBytes u.tcp.tcb = some p := by
  cases arrives with
  | nothing tcb | datagram _ _ tcb => rw [tcb, has]
  | segment brings handled tcb =>
    rw [tcb]
    exact exec_keepsUnread handled (tidy.2 _ brings) (Completion.tcpOp_ne_consume brings) has

/-- A full UDP queue keeps its datagram, whatever arrives. -/
theorem Arrives.keepsDatagram (arrives : Arrives cfg net c u) (full : net.udpPending) : u.udpQueue = net.udpQueue := by
  cases arrives with
  | nothing _ udp | segment _ _ _ udp => exact udp
  | datagram _ takes => exact absurd full takes.1

section
variable {front back : List Completion} {v : Statics × U32 × Bool} {a : Statics}
  (reached : rxLoop cfg platform net 0 false front = .ok v)
include reached

theorem poll_keepsSegment {buf : Nat} {p : List U8}
    (drained : StepWhen cfg platform (fun net op => op.Tidy cfg platform buf net) net (.pollRx (front ++ back)) a)
    (pumped : StepWhen cfg platform (fun net op => op.Tidy cfg platform buf net) a (.pumpTcp now) u)
    (has : Tcp.pendingBytes v.1.tcp.tcb = some p) : Tcp.pendingBytes u.tcp.tcb = some p := by
  obtain ⟨r, done, rfl⟩ := map_eq_ok drained.1
  have drained : Tcp.pendingBytes r.1.tcp.tcb = some p :=
    @Run.invariant _ _ _ (fun net => Tcp.pendingBytes net.tcp.tcb = some p)
      (fun _ _ _ has frame => frame.1.keepsSegment frame.2 has) _ _ _ (pollRx_rest drained.2 reached done) has
  obtain ⟨tcp, l, ran, tcb, -⟩ := pumpTcp_queues pumped.1
  rw [tcb]
  exact exec_keepsUnread ran pumped.2 (by simp) drained

theorem poll_keepsDatagram (drained : Step cfg platform net (.pollRx (front ++ back)) a)
    (pumped : Step cfg platform a (.pumpTcp now) u) (full : v.1.udpPending) : u.udpQueue = v.1.udpQueue := by
  obtain ⟨r, done, rfl⟩ := map_eq_ok drained
  have any : FramesMeet cfg platform (fun _ _ => True) net 0 false (front ++ back) := .of_forall fun _ _ => trivial
  have kept : r.1.udpPending ∧ r.1.udpQueue = v.1.udpQueue := by
    refine @Run.invariant _ _ _ (fun u => u.udpPending ∧ u.udpQueue = v.1.udpQueue) ?_ _ _ _
      (pollRx_rest any reached done) ⟨full, rfl⟩
    rintro a c b ⟨pending, same⟩ ⟨arrives, -⟩
    have next := arrives.keepsDatagram pending
    exact ⟨(congrArg UdpQueue.pending next).trans pending, next.trans same⟩
  obtain ⟨_, _, -, -, udp⟩ := pumpTcp_queues pumped
  exact udp.trans kept.2

end

end

def ipv4From (ip : Ip) (proto : U8) (payload : List U8) : Completion :=
  match Ipv4.writeHeader (List.replicate 20 0) (BitVec.ofNat 16 (20 + payload.length)) proto ip ourIp with
  | .ok header => received (List.replicate vnetHdr 0 ++ guestMac.toList ++ peerMac.toList ++ beBytes16 ethTypeIpv4 ++
      header ++ payload)
  | .error _ => received []

def udpFrom (ip : Ip) (port : U16) (data : List U8) : Completion :=
  match Udp.writeDgram (List.replicate (Udp.hdr + data.length) 0) port Udp.echoPort data ip ourIp with
  | .ok (datagram, _) => ipv4From ip Ipv4.protoUdp datagram
  | .error _ => received []

end Whimbrel.Net

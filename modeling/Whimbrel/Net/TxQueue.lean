import Whimbrel.Net.RxQueue

/-! The TX virtqueue: the eight senders of `src/net.rs`, `post_tx` and `take_tx_used` of
`src/virtq.rs`, and `wait_tx`, against a device that completes when it likes.

All senders fill buffer 0 and post descriptor 0. A sender is cut at each write to the
buffer, at the stores of `post_tx`, at the counters and at the loads of `wait_tx`. The
device reads the buffer when it completes the descriptor; that it would have read the
same before is part of the invariant. -/

set_option autoImplicit false

namespace Whimbrel.Net

open Checked Transition Virtqueue

inductive TxCall where
  | gratuitousArp
  | arpRequest
  | arpReply (req : Arp.RequestForUs)
  | icmpEchoReply (dstIp : Ip) (req : List U8)
  | ping (now : Usize)
  | tcpSynack (dstIp : Ip) (dstPort : U16) (seq ack : U32)
  | tcpSeg (now : Usize) (dstIp : Ip) (dstPort : U16) (seq ack : U32) (flags : U8) (dataLen : Nat)
  | udp (payload : List U8) (dstIp : Ip) (dstPort : U16)

def TxCall.exec (platform : Platform) (net : Statics) : TxCall → Result Statics
  | .gratuitousArp => txGratuitousArp net
  | .arpRequest => txArpRequest net
  | .arpReply req => txArpReply net req
  | .icmpEchoReply dstIp req => txIcmpEchoReply net dstIp req
  | .ping now => pingGateway net now
  | .tcpSynack dstIp dstPort seq ack => txTcpSynack net dstIp dstPort seq ack
  | .tcpSeg now dstIp dstPort seq ack flags dataLen => txTcpSeg platform now net dstIp dstPort seq ack flags dataLen
  | .udp payload dstIp dstPort => txUdp net payload dstIp dstPort

/-- The bytes a sender leaves at the front of the buffer; `none` if it counts a missing
gateway instead. -/
def TxCall.frame (net : Statics) : TxCall → Result (Option (List U8))
  | .gratuitousArp => some <$> fillTx txLen (writeGarp net.mac)
  | .arpRequest => some <$> fillTx txLen fun f => Arp.writeRequest f net.mac ourIp gwIp
  | .arpReply req => some <$> fillTx txLen fun f => Arp.writeReply f net.mac ourIp req
  | .icmpEchoReply dstIp req => do
    let gw ← gatewayMac net
    some <$> ipv4Frame net.mac gw Ipv4.protoIcmp dstIp req.length fun b => Icmp.writeEchoReply b req
  | .ping _ => do
    let gw ← gatewayMac net
    some <$> ipv4Frame net.mac gw Ipv4.protoIcmp gwIp (8 + pingData.length) fun b =>
      Icmp.writeEchoReq b pingId pingSeq pingData
  | .tcpSynack dstIp dstPort seq ack => do
    let some gw := Arp.lookup net.arp.cache gwIp | return none
    some <$> ipv4Frame net.mac gw Ipv4.protoTcp dstIp 24 fun b =>
      Tcp.writeSynack b Tcp.listenPort dstPort seq ack ourIp dstIp
  | .tcpSeg _ dstIp dstPort seq ack flags dataLen => do
    let some gw := Arp.lookup net.arp.cache gwIp | return none
    let payload ← segPayload net.tcp.tcb dataLen
    some <$> ipv4Frame net.mac gw Ipv4.protoTcp dstIp (20 + payload.length) fun b =>
      Tcp.writeSeg b Tcp.listenPort dstPort seq ack flags payload ourIp dstIp
  | .udp payload dstIp dstPort => do
    let gw ← gatewayMac net
    some <$> ipv4Frame net.mac gw Ipv4.protoUdp dstIp (8 + payload.length) fun b =>
      Udp.writeDgram b Udp.echoPort dstPort payload ourIp dstIp

def TxCall.after (platform : Platform) (net : Statics) : TxCall → Result Statics
  | .ping now => .ok { net with pingDone := false, pingTx := now }
  | .tcpSeg now _ _ _ _ _ dataLen => stampE3g platform now net dataLen
  | .gratuitousArp | .arpRequest | .arpReply _ | .icmpEchoReply .. | .tcpSynack .. | .udp .. => .ok net

def Statics.send (net : Statics) (after : Statics → Result Statics) : Option (List U8) → Result Statics
  | none => .ok (noteNoarp net)
  | some f => net.posted f >>= after

theorem TxCall.exec_eq (platform : Platform) (net : Statics) (call : TxCall) :
    call.exec platform net = call.frame net >>= net.send (call.after platform) := by
  -- Five senders build a frame and post it; two of these ask for the gateway first.
  have plain (built : Result (List U8)) : (built >>= net.posted) = (some <$> built) >>= net.send .ok := by
    cases built with
    | error => rfl
    | ok f => exact (bind_pure (net.posted f)).symm
  have routed (rest : Mac → Result (List U8)) : (gatewayMac net >>= fun gw => rest gw >>= net.posted) =
      (gatewayMac net >>= fun gw => some <$> rest gw) >>= net.send .ok := by
    cases gatewayMac net with
    | error => rfl
    | ok gw => exact plain (rest gw)
  cases call with
  | gratuitousArp | arpRequest | arpReply => exact plain _
  | icmpEchoReply dstIp req =>
    exact routed fun gw => ipv4Frame net.mac gw Ipv4.protoIcmp dstIp req.length fun b => Icmp.writeEchoReply b req
  | udp payload dstIp dstPort =>
    exact routed fun gw => ipv4Frame net.mac gw Ipv4.protoUdp dstIp (8 + payload.length) fun b =>
      Udp.writeDgram b Udp.echoPort dstPort payload ourIp dstIp
  | ping now =>
    rw [TxCall.exec, TxCall.frame, pingGateway]
    cases gatewayMac net with
    | error => rfl
    | ok gw =>
      rw [bind_ok, bind_ok, txIpv4]
      cases ipv4Frame net.mac gw Ipv4.protoIcmp gwIp (8 + pingData.length) fun b =>
        Icmp.writeEchoReq b pingId pingSeq pingData <;> rfl
  | tcpSynack dstIp dstPort seq ack =>
    rw [TxCall.exec, TxCall.frame, txTcpSynack]
    cases Arp.lookup net.arp.cache gwIp with
    | none => rfl
    | some gw => exact plain _
  | tcpSeg now dstIp dstPort seq ack flags dataLen =>
    rw [TxCall.exec, TxCall.frame, txTcpSeg]
    cases Arp.lookup net.arp.cache gwIp with
    | none => rfl
    | some gw =>
      dsimp only
      cases segPayload net.tcp.tcb dataLen with
      | error => rfl
      | ok payload =>
        rw [bind_ok, bind_ok, txIpv4]
        cases ipv4Frame net.mac gw Ipv4.protoTcp dstIp (20 + payload.length) fun b =>
          Tcp.writeSeg b Tcp.listenPort dstPort seq ack flags payload ourIp dstIp <;> rfl

/-! ## The queue -/

inductive TxStage where
  | filling
  | filled
  /-- `desc[0].len` is written. -/
  | described
  /-- The ring slot is written and not published. -/
  | written
  | published
  /-- In the loop of `wait_tx`. -/
  | waiting
  /-- `used.idx` has moved. -/
  | loaded
  deriving DecidableEq, Repr

def TxStage.flying : TxStage → Bool
  | .filling | .filled | .described | .written => false
  | .published | .waiting | .loaded => true

/-- What `TX_POSTED` is ahead of its value before the call. -/
def TxStage.counted : TxStage → U32
  | .filling | .filled | .described | .written | .published => 0
  | .waiting | .loaded => 1

def TxStage.flight (s : TxStage) : List Nat := if s.flying then [0] else []

inductive TxPc where
  | idle
  | sending (stage : TxStage) (call : TxCall) (frame : List U8)

def TxPc.flight : TxPc → List Nat
  | .idle => []
  | .sending stage _ _ => stage.flight

/-- The queue and the driver. The last three fields record what happened: the statics
the sender began with, the frames that were published and the completions. -/
structure TxWorld where
  q : Queue qsize
  buf : Buffer
  descLen : Nat
  net : Statics
  pc : TxPc
  began : Statics
  posted : List (List U8)
  log : List (Nat × Nat)

def TxWorld.bytes (w : TxWorld) : List U8 := w.buf.1.take w.descLen

def Statics.txTaken (net : Statics) : Statics :=
  { net with txSeen := net.txSeen + 1, txCompleted := net.txCompleted + 1 }

/-- The next step of a sender; `expired` is the clock of `wait_tx`. -/
def TxWorld.drive (platform : Platform) (expired : Bool) (w : TxWorld) (call : TxCall) (frame : List U8) :
    TxStage → Result TxWorld
  | .filling => .ok (if w.buf.1.take frame.length = frame then { w with pc := .sending .filled call frame } else w)
  | .filled =>
    if frame.length = 0 then .error .txDesc
    else .ok { w with descLen := frame.length, pc := .sending .described call frame }
  | .described => .ok { w with q := w.q.put 0, pc := .sending .written call frame }
  | .written => .ok { w with q := w.q.publish, posted := w.posted ++ [frame], pc := .sending .published call frame }
  | .published => .ok { w with
      net := { w.net with txPosted := w.net.txPosted + 1 }, pc := .sending .waiting call frame }
  | .waiting =>
    if w.q.used = w.net.txSeen then
      -- the loop goes on, or gives up
      if expired then .error .txStalled else .ok w
    else .ok { w with pc := .sending .loaded call frame }
  | .loaded => do
    let net ← call.after platform w.net.txTaken
    return { w with net, pc := .idle }

def Buffer.write (buf : Buffer) (off : Nat) (bytes : List U8) (inside : off + bytes.length ≤ bufLen) : Buffer :=
  ⟨buf.1.take off ++ bytes ++ buf.1.drop (off + bytes.length), by
    rw [List.length_append, List.length_append, List.length_take, List.length_drop, buf.2]
    omega⟩

structure SameTx (net u : Statics) : Prop where
  posted : u.txPosted = net.txPosted
  completed : u.txCompleted = net.txCompleted
  seen : u.txSeen = net.txSeen
  wire : u.wire = net.wire

inductive TxEvent where
  | device
  | call (call : TxCall)
  | write (off : Nat) (bytes : List U8)
  | drive (expired : Bool)
  | other

/-- The device reads the frame when it completes. Between calls the rest of the stack may
do anything to the other statics. -/
inductive TxStep (platform : Platform) : TxWorld → TxEvent → TxWorld → Prop where
  | device {w : TxWorld} {done : Option (Nat × Nat)} {q : Queue qsize} : Device w.q done q →
      TxStep platform w .device { w with
        q, log := w.log ++ done.toList, net := { w.net with wire := w.net.wire ++ done.toList.map fun _ => w.bytes } }
  | call {w : TxWorld} {call : TxCall} {frame : List U8} : w.pc = .idle → call.frame w.net = .ok (some frame) →
      TxStep platform w (.call call) { w with pc := .sending .filling call frame, began := w.net }
  | noarp {w : TxWorld} {call : TxCall} : w.pc = .idle → call.frame w.net = .ok none →
      TxStep platform w (.call call) { w with net := noteNoarp w.net }
  | write {w : TxWorld} {call : TxCall} {frame : List U8} (off : Nat) (bytes : List U8)
      (inside : off + bytes.length ≤ bufLen) : w.pc = .sending .filling call frame →
      TxStep platform w (.write off bytes) { w with buf := Buffer.write w.buf off bytes inside }
  | drive {w u : TxWorld} {expired : Bool} {stage : TxStage} {call : TxCall} {frame : List U8} :
      w.pc = .sending stage call frame → w.drive platform expired call frame stage = .ok u →
      TxStep platform w (.drive expired) u
  | other {w : TxWorld} {net : Statics} : w.pc = .idle → SameTx w.net net → TxStep platform w .other { w with net }

def TxWorld.boot (mac : Mac) (ring : Fin qsize → Nat) (entries : Fin qsize → Nat × Nat) (buf : Buffer) (descLen : Nat) :
    TxWorld where
  q := ⟨ring, 0, entries, 0, 0, []⟩
  buf := buf
  descLen := descLen
  net := .boot mac
  pc := .idle
  began := .boot mac
  posted := []
  log := []

/-! ## The invariant -/

/-- The counters agree with what the device has read. -/
structure Balanced (net : Statics) : Prop where
  posted : net.txPosted = BitVec.ofNat 32 net.wire.length
  completed : net.txCompleted = BitVec.ofNat 32 net.wire.length

theorem Balanced.same {net u : Statics} (balanced : Balanced net) (same : SameTx net u) : Balanced u :=
  ⟨by rw [same.posted, same.wire, balanced.posted], by rw [same.completed, same.wire, balanced.completed]⟩

/-- The statics inside a call, from those it began with. -/
def Statics.during (net : Statics) (stage : TxStage) (frame : List U8) (completions : List (Nat × Nat)) : Statics :=
  { net with txPosted := net.txPosted + stage.counted, wire := net.wire ++ completions.map fun _ => frame }

structure Sending (w : TxWorld) (stage : TxStage) (call : TxCall) (frame : List U8) : Prop where
  built : call.frame w.began = .ok (some frame)
  balanced : Balanced w.began
  net : w.net = w.began.during stage frame (w.q.completed w.net.txSeen)
  posted : w.posted = w.began.wire ++ stage.flight.map fun _ => frame
  bytes : stage ≠ .filling → w.buf.1.take frame.length = frame
  desc : stage ≠ .filling → stage ≠ .filled → w.descLen = frame.length ∧ frame.length ≠ 0
  ring : stage = .written → w.q.ring (slot qsize w.q.avail) = 0
  loaded : stage = .loaded → w.q.used ≠ w.net.txSeen

structure TxInv (w : TxWorld) : Prop where
  owners : (w.q.out w.net.txSeen).Perm w.pc.flight
  flight : w.q.taken = w.q.used + BitVec.ofNat 16 w.q.held.length
  log : w.log.length + w.pc.flight.length = w.posted.length + (w.q.completed w.net.txSeen).length
  idle : w.pc = .idle → Balanced w.net ∧ w.posted = w.net.wire
  sending : ∀ stage call frame, w.pc = .sending stage call frame → Sending w stage call frame

section
variable {platform : Platform} {w u : TxWorld}

theorem TxInv.boot (mac : Mac) (ring : Fin qsize → Nat) (entries : Fin qsize → Nat × Nat) (buf : Buffer) (descLen : Nat) :
    TxInv (.boot mac ring entries buf descLen) where
  owners := by
    have available : between ring 0 0 = [] := between_self
    have unseen : between entries 0 0 = [] := between_self
    change (between ring 0 0 ++ [] ++ (between entries 0 0).map Prod.fst).Perm _
    rw [available, unseen]
    exact .refl _
  flight := rfl
  log := by
    have unseen : between entries 0 0 = [] := between_self
    change 0 = 0 + (between entries 0 0).length
    rw [unseen]
    rfl
  idle _ := ⟨⟨rfl, rfl⟩, rfl⟩
  sending _ _ _ reached := nomatch reached

theorem TxStage.flight_length (stage : TxStage) : stage.flight.length ≤ 1 := by
  cases stage <;> decide

theorem TxPc.flight_length (pc : TxPc) : pc.flight.length ≤ 1 := by
  cases pc with
  | idle => exact Nat.zero_le 1
  | sending stage => exact stage.flight_length

theorem TxInv.counted (inv : TxInv w) : w.q.Counted w.net.txSeen :=
  ⟨inv.owners.length_eq ▸ Nat.le_trans w.pc.flight_length (by decide), inv.flight⟩

theorem TxInv.out_nil (inv : TxInv w) (none : w.pc.flight = []) : w.q.out w.net.txSeen = [] :=
  List.perm_nil.mp (none ▸ inv.owners)

theorem TxInv.unseen_nil (inv : TxInv w) (none : w.pc.flight = []) : w.q.completed w.net.txSeen = [] :=
  List.map_eq_nil_iff.mp (List.append_eq_nil_iff.mp (inv.out_nil none)).2

theorem TxInv.unchanged (inv : TxInv w) {stage : TxStage} {call : TxCall} {frame : List U8}
    (reached : w.pc = .sending stage call frame) (still : stage.flying = false) : w.net = w.began := by
  have none : w.pc.flight = [] := by
    rw [reached, TxPc.flight, TxStage.flight, still]
    rfl
  have net := (inv.sending stage call frame reached).net
  rw [inv.unseen_nil none] at net
  have uncounted : stage.counted = 0#32 := by cases stage <;> first | rfl | cases still
  rw [net, Statics.during, List.map_nil, List.append_nil, uncounted, BitVec.add_zero]

theorem Statics.during_append (net : Statics) (stage : TxStage) (frame : List U8) (cs ds : List (Nat × Nat)) :
    { net.during stage frame cs with wire := (net.during stage frame cs).wire ++ ds.map fun _ => frame } =
      net.during stage frame (cs ++ ds) := by
  simp only [Statics.during, List.map_append, List.append_assoc]

theorem Statics.during_counted (net : Statics) (frame : List U8) (cs : List (Nat × Nat)) :
    { net.during .published frame cs with txPosted := (net.during .published frame cs).txPosted + 1 } =
      net.during .waiting frame cs := by
  have once : net.txPosted + 0#32 + 1 = net.txPosted + 1 := by rw [BitVec.add_zero]
  exact congrArg (fun posted => { net with txPosted := posted, wire := net.wire ++ cs.map fun _ => frame }) once

theorem Sending.frame_bytes {stage : TxStage} {call : TxCall} {frame : List U8} (sending : Sending w stage call frame)
    (flying : stage.flying) : w.bytes = frame := by
  have later : stage ≠ .filling ∧ stage ≠ .filled := by constructor <;> rintro rfl <;> cases flying
  rw [TxWorld.bytes, (sending.desc later.1 later.2).1]
  exact sending.bytes later.1

theorem TxInv.device {done : Option (Nat × Nat)} {q : Queue qsize} (inv : TxInv w) (step : Device w.q done q) :
    TxInv { w with
      q, log := w.log ++ done.toList, net := { w.net with wire := w.net.wire ++ done.toList.map fun _ => w.bytes } } := by
  obtain ⟨perm, counted, appended⟩ := step.moves qsize_size inv.counted
  cases reached : w.pc with
  | idle => exact absurd step (inv.counted.still (inv.out_nil (by rw [reached]; rfl)))
  | sending stage call frame =>
    cases flying : stage.flying with
    | false =>
      -- With nothing in flight a conforming device has no step to take.
      refine absurd step (inv.counted.still (inv.out_nil ?_))
      rw [reached, TxPc.flight, TxStage.flight, flying]
      rfl
    | true =>
      have now := inv.sending stage call frame reached
      have log := inv.log
      refine ⟨reached ▸ perm.trans inv.owners, counted.flight, ?_, nofun, ?_⟩
      · rw [reached] at log
        change (w.log ++ done.toList).length + (TxPc.sending stage call frame).flight.length =
          w.posted.length + (q.completed w.net.txSeen).length
        rw [appended, List.length_append, List.length_append]
        omega
      · intro stage' call' frame' same
        cases same
        refine ⟨now.built, now.balanced, ?_, now.posted, now.bytes, now.desc, ?_, ?_⟩
        · rw [appended, ← Statics.during_append, ← now.net, now.frame_bytes flying]
        · rintro rfl
          cases flying
        · intro last empty
          have gone : q.completed w.net.txSeen = [] := empty ▸ between_self
          rw [appended, Queue.completed_cons (now.loaded last)] at gone
          cases gone

theorem TxInv.advance (inv : TxInv w) {stage next : TxStage} {call : TxCall} {frame : List U8} {descLen : Nat}
    (reached : w.pc = .sending stage call frame) (flight : next.flight = stage.flight) (counted : next.counted = stage.counted)
    (bytes : next ≠ .filling → w.buf.1.take frame.length = frame)
    (desc : next ≠ .filling → next ≠ .filled → descLen = frame.length ∧ frame.length ≠ 0)
    (fresh : next ≠ .written) (loaded : next = .loaded → w.q.used ≠ w.net.txSeen) :
    TxInv { w with descLen, pc := .sending next call frame } := by
  have now := inv.sending stage call frame reached
  have owners := inv.owners
  have log := inv.log
  rw [reached, TxPc.flight, ← flight] at owners log
  refine ⟨owners, inv.flight, log, nofun, ?_⟩
  intro next' call' frame' same
  cases same
  refine ⟨now.built, now.balanced, ?_, flight ▸ now.posted, bytes, desc, fun last => absurd last fresh, loaded⟩
  rw [Statics.during, counted]
  exact now.net

theorem TxInv.room (inv : TxInv w) : (w.q.avail - w.q.taken).toNat < qsize := by
  have one := inv.owners.length_eq ▸ w.pc.flight_length
  rw [Queue.out, List.length_append, List.length_append, Queue.available, between_length] at one
  have size : 1 < qsize := by decide
  omega

theorem TxInv.put {call : TxCall} {frame : List U8} (inv : TxInv w) (reached : w.pc = .sending .described call frame) :
    TxInv { w with q := w.q.put 0, pc := .sending .written call frame } := by
  have now := inv.sending _ call frame reached
  have owners := inv.owners
  have log := inv.log
  rw [reached] at owners log
  refine ⟨?_, inv.flight, log, nofun, ?_⟩
  · rw [Queue.out_put qsize_size inv.room]
    exact owners
  · intro next' call' frame' same
    cases same
    exact ⟨now.built, now.balanced, now.net, now.posted, fun _ => now.bytes nofun, fun _ _ => now.desc nofun nofun,
      fun _ => Queue.ring_put 0, nofun⟩

theorem TxInv.publish {call : TxCall} {frame : List U8} (inv : TxInv w) (reached : w.pc = .sending .written call frame) :
    TxInv { w with q := w.q.publish, posted := w.posted ++ [frame], pc := .sending .published call frame } := by
  have now := inv.sending _ call frame reached
  have none : w.pc.flight = [] := by rw [reached]; rfl
  have handed : (w.q.publish.out w.net.txSeen).Perm (w.q.ring (slot qsize w.q.avail) :: w.q.out w.net.txSeen) :=
    Queue.out_publish qsize_size inv.room
  rw [now.ring rfl, inv.out_nil none] at handed
  refine ⟨handed, inv.flight, ?_, nofun, ?_⟩
  · have log := inv.log
    rw [none] at log
    change w.log.length + 1 = (w.posted ++ [frame]).length + (w.q.completed w.net.txSeen).length
    rw [List.length_append, List.length_singleton]
    rw [List.length_nil] at log
    omega
  · intro next' call' frame' same
    cases same
    refine ⟨now.built, now.balanced, now.net, ?_, fun _ => now.bytes nofun, fun _ _ => now.desc nofun nofun, nofun, nofun⟩
    have before : w.posted = w.began.wire ++ [] := now.posted
    rw [before, List.append_nil]
    rfl

theorem TxInv.count {call : TxCall} {frame : List U8} (inv : TxInv w) (reached : w.pc = .sending .published call frame) :
    TxInv { w with net := { w.net with txPosted := w.net.txPosted + 1 }, pc := .sending .waiting call frame } := by
  have now := inv.sending _ call frame reached
  have owners := inv.owners
  have log := inv.log
  rw [reached] at owners log
  refine ⟨owners, inv.flight, log, nofun, ?_⟩
  intro next' call' frame' same
  cases same
  refine ⟨now.built, now.balanced, ?_, now.posted, fun _ => now.bytes nofun, fun _ _ => now.desc nofun nofun, nofun, nofun⟩
  have net := congrArg (fun n : Statics => { n with txPosted := n.txPosted + 1 }) now.net
  exact net.trans (Statics.during_counted ..)

theorem TxCall.after_same {call : TxCall} {net u : Statics} (done : call.after platform net = .ok u) : SameTx net u := by
  cases call with
  | gratuitousArp | arpRequest | arpReply | icmpEchoReply | ping | tcpSynack | udp =>
    cases done
    exact ⟨rfl, rfl, rfl, rfl⟩
  | tcpSeg now dstIp dstPort seq ack flags dataLen =>
    unfold TxCall.after stampE3g at done
    dsimp only at done
    split at done
    · obtain ⟨_, -, done⟩ := bind_eq_ok done
      cases done
      exact ⟨rfl, rfl, rfl, rfl⟩
    · cases done
      exact ⟨rfl, rfl, rfl, rfl⟩

/-- `take_tx_used` returns the completion of this call's frame, and nothing is left. -/
theorem TxInv.taken {call : TxCall} {frame : List U8} (inv : TxInv w) (reached : w.pc = .sending .loaded call frame) :
    w.net.txTaken = w.began.after frame ∧ w.q.out (w.net.txSeen + 1) = [] := by
  have now := inv.sending _ call frame reached
  have owners := inv.owners
  rw [reached] at owners
  have moved := now.loaded rfl
  have rest : w.q.out (w.net.txSeen + 1) = [] := by
    have seen := (Queue.out_see moved).symm.trans owners
    exact List.eq_nil_of_length_eq_zero (Nat.succ.inj seen.length_eq)
  refine ⟨?_, rest⟩
  have unseen : w.q.completed (w.net.txSeen + 1) = [] := List.map_eq_nil_iff.mp (List.append_eq_nil_iff.mp rest).2
  have net := now.net
  rw [Queue.completed_cons moved, unseen] at net
  exact congrArg Statics.txTaken net

theorem Balanced.after {net : Statics} (balanced : Balanced net) (frame : List U8) : Balanced (net.after frame) := by
  have more : (net.wire ++ [frame]).length = net.wire.length + 1 := List.length_append
  constructor
  · change net.txPosted + 1 = BitVec.ofNat 32 (net.wire ++ [frame]).length
    rw [more, balanced.posted, BitVec.ofNat_add]
    rfl
  · change net.txCompleted + 1 = BitVec.ofNat 32 (net.wire ++ [frame]).length
    rw [more, balanced.completed, BitVec.ofNat_add]
    rfl

theorem TxInv.take {call : TxCall} {frame : List U8} {net : Statics} (inv : TxInv w)
    (reached : w.pc = .sending .loaded call frame) (done : call.after platform w.net.txTaken = .ok net) :
    TxInv { w with net, pc := .idle } := by
  have now := inv.sending _ call frame reached
  have same := TxCall.after_same done
  obtain ⟨taken, rest⟩ := inv.taken reached
  have seen : net.txSeen = w.net.txSeen + 1 := same.seen
  refine ⟨?_, inv.flight, ?_, fun _ => ⟨?_, ?_⟩, nofun⟩
  · rw [seen, rest]
    exact .refl _
  · have log := inv.log
    rw [reached, Queue.completed_cons (now.loaded rfl), List.length_cons] at log
    change w.log.length + 0 = w.posted.length + (w.q.completed net.txSeen).length
    rw [seen]
    exact Nat.succ.inj log
  · rw [taken] at same
    exact (now.balanced.after frame).same same
  · have wire := same.wire
    rw [taken] at wire
    exact now.posted.trans wire.symm

theorem TxInv.drive {expired : Bool} {stage : TxStage} {call : TxCall} {frame : List U8} (inv : TxInv w)
    (reached : w.pc = .sending stage call frame) (done : w.drive platform expired call frame stage = .ok u) : TxInv u := by
  have now := inv.sending stage call frame reached
  cases stage with
  | filling =>
    cases done
    split
    · -- The frame is written in pieces, and the stage changes once all of it is there.
      rename_i built
      exact inv.advance reached rfl rfl (fun _ => built) (fun _ later => absurd rfl later) nofun nofun
    · exact inv
  | filled =>
    rw [TxWorld.drive] at done
    split at done
    · cases done
    · rename_i nonempty
      cases done
      exact inv.advance reached rfl rfl (fun _ => now.bytes nofun) (fun _ _ => ⟨rfl, nonempty⟩) nofun nofun
  | described =>
    cases done
    exact inv.put reached
  | written =>
    cases done
    exact inv.publish reached
  | published =>
    cases done
    exact inv.count reached
  | waiting =>
    rw [TxWorld.drive] at done
    split at done
    · split at done
      · cases done
      · cases done
        exact inv
    · rename_i moved
      cases done
      exact inv.advance reached rfl rfl (fun _ => now.bytes nofun) (fun _ _ => now.desc nofun nofun) nofun fun _ => moved
  | loaded =>
    obtain ⟨net, after, done⟩ := bind_eq_ok done
    cases done
    exact inv.take reached after

theorem TxInv.between (inv : TxInv w) (idle : w.pc = .idle) {net : Statics} (same : SameTx w.net net) :
    TxInv { w with net } := by
  obtain ⟨balanced, posted⟩ := inv.idle idle
  refine ⟨?_, inv.flight, ?_, fun _ => ⟨balanced.same same, posted.trans same.wire.symm⟩, ?_⟩
  · rw [same.seen]
    exact inv.owners
  · rw [same.seen]
    exact inv.log
  · intro stage call frame sending
    cases idle.symm.trans sending

theorem TxInv.call (inv : TxInv w) (idle : w.pc = .idle) {call : TxCall} {frame : List U8}
    (built : call.frame w.net = .ok (some frame)) :
    TxInv { w with pc := .sending .filling call frame, began := w.net } := by
  obtain ⟨balanced, posted⟩ := inv.idle idle
  have none : w.pc.flight = [] := by rw [idle]; rfl
  have owners := inv.owners
  have log := inv.log
  rw [none] at owners log
  refine ⟨owners, inv.flight, log, nofun, ?_⟩
  intro stage' call' frame' same
  cases same
  refine ⟨built, balanced, ?_, ?_, fun later => absurd rfl later, fun later => absurd rfl later, nofun, nofun⟩
  · rw [inv.unseen_nil none, Statics.during, List.map_nil, List.append_nil]
    exact congrArg (fun count => { w.net with txPosted := count }) (BitVec.add_zero w.net.txPosted).symm
  · exact posted.trans (List.append_nil _).symm

theorem TxInv.write (inv : TxInv w) {call : TxCall} {frame : List U8} (reached : w.pc = .sending .filling call frame)
    (buf : Buffer) : TxInv { w with buf } := by
  refine ⟨inv.owners, inv.flight, inv.log, inv.idle, ?_⟩
  intro stage call' frame' same
  have now := inv.sending stage call' frame' same
  cases reached.symm.trans same
  exact ⟨now.built, now.balanced, now.net, now.posted, fun later => absurd rfl later, fun later => absurd rfl later,
    now.ring, now.loaded⟩

theorem TxInv.step {e : TxEvent} (inv : TxInv w) (step : TxStep platform w e u) : TxInv u := by
  cases step with
  | device moved => exact inv.device moved
  | call idle built => exact inv.call idle built
  | noarp idle => exact inv.between idle ⟨rfl, rfl, rfl, rfl⟩
  | write off bytes inside reached => exact inv.write reached _
  | drive reached done => exact inv.drive reached done
  | other idle same => exact inv.between idle same

theorem TxInv.run {mac : Mac} {ring : Fin qsize → Nat} {entries : Fin qsize → Nat × Nat} {buf : Buffer} {descLen : Nat}
    {es : List TxEvent} (run : Run (TxStep platform) (.boot mac ring entries buf descLen) es w) : TxInv w :=
  run.invariant (fun _ _ _ inv step => inv.step step) (.boot mac ring entries buf descLen)

/-! ## What every run keeps -/

/-- The step writes the buffer, or is in `post_tx`. -/
def TxWorld.Stores (w : TxWorld) : TxEvent → Prop
  | .write .. => True
  | .drive _ => ∃ stage call frame, w.pc = .sending stage call frame ∧ stage.flying = false
  | .device | .call _ | .other => False

theorem TxStep.stores {e : TxEvent} (step : TxStep platform w e u) (stores : w.Stores e) :
    ∃ stage call frame, w.pc = .sending stage call frame ∧ stage.flying = false := by
  cases step with
  | device | call | noarp | other => cases stores
  | @write call frame off bytes inside reached => exact ⟨.filling, call, frame, reached, rfl⟩
  | drive => exact stores

theorem TxStep.keeps {e : TxEvent} (step : TxStep platform w e u) (other : ¬ w.Stores e) :
    u.buf = w.buf ∧ u.descLen = w.descLen ∧ u.q.ring = w.q.ring ∧ u.q.avail = w.q.avail := by
  cases step with
  | device moved => cases moved <;> exact ⟨rfl, rfl, rfl, rfl⟩
  | call | noarp | other => exact ⟨rfl, rfl, rfl, rfl⟩
  | write => exact absurd trivial other
  | @drive _ _ stage call frame reached done =>
    cases stage with
    | filling | filled | described | written => exact absurd ⟨_, call, frame, reached, rfl⟩ other
    | published =>
      cases done
      exact ⟨rfl, rfl, rfl, rfl⟩
    | waiting =>
      rw [TxWorld.drive] at done
      split at done
      · split at done
        · cases done
        · cases done
          exact ⟨rfl, rfl, rfl, rfl⟩
      · cases done
        exact ⟨rfl, rfl, rfl, rfl⟩
    | loaded =>
      obtain ⟨net, -, done⟩ := bind_eq_ok done
      cases done
      exact ⟨rfl, rfl, rfl, rfl⟩

/-- Nothing is in flight, and every frame that was posted has been completed and counted. -/
structure Matched (w : TxWorld) : Prop where
  seen : w.net.txSeen = w.q.used
  used : w.q.used = w.q.avail
  out : w.q.out w.net.txSeen = []
  log : w.log.length = w.posted.length
  posted : w.net.txPosted = BitVec.ofNat 32 w.posted.length
  completed : w.net.txCompleted = BitVec.ofNat 32 w.posted.length

theorem TxInv.matched {stage : TxStage} {call : TxCall} {frame : List U8} (inv : TxInv w)
    (reached : w.pc = .sending stage call frame) (still : stage.flying = false) : Matched w := by
  have none : w.pc.flight = [] := by
    rw [reached, TxPc.flight, TxStage.flight, still]
    rfl
  have now := inv.sending stage call frame reached
  obtain ⟨seen, avail, -⟩ := inv.counted.quiet (inv.out_nil none)
  have log := inv.log
  rw [none, inv.unseen_nil none] at log
  have posted := now.posted
  rw [TxStage.flight, still] at posted
  have wire : w.posted = w.net.wire := by
    rw [inv.unchanged reached still]
    exact posted.trans (List.append_nil _)
  have balanced : Balanced w.net := by
    rw [inv.unchanged reached still]
    exact now.balanced
  exact ⟨seen.symm, avail.symm, inv.out_nil none, log, wire ▸ balanced.posted, wire ▸ balanced.completed⟩

theorem TxInv.reads (inv : TxInv w) {id : Nat} (out : id ∈ w.q.available ++ w.q.held) :
    id = 0 ∧ ∃ stage call, w.pc = .sending stage call w.bytes ∧ call.frame w.began = .ok (some w.bytes) := by
  have flying : id ∈ w.pc.flight := inv.owners.mem_iff.mp (List.mem_append_left _ out)
  cases reached : w.pc with
  | idle =>
    rw [reached] at flying
    cases flying
  | sending stage call frame =>
    rw [reached, TxPc.flight, TxStage.flight] at flying
    split at flying
    · rename_i posted
      have now := inv.sending stage call frame reached
      have bytes := now.frame_bytes posted
      exact ⟨List.mem_singleton.mp flying, stage, call, by rw [bytes], by rw [bytes]; exact now.built⟩
    · cases flying

/-- The device has read the posted frames in order, one for each completion. -/
theorem TxInv.wire (inv : TxInv w) : w.net.wire = w.posted.take w.log.length := by
  have log := inv.log
  cases reached : w.pc with
  | idle =>
    have none : w.pc.flight = [] := by rw [reached]; rfl
    rw [none, inv.unseen_nil none] at log
    have all : w.log.length = w.posted.length := log
    rw [all, List.take_length]
    exact (inv.idle reached).2.symm
  | sending stage call frame =>
    have now := inv.sending stage call frame reached
    -- One descriptor is in flight at most, so one completion is unseen at most.
    have few : (w.q.completed w.net.txSeen).length ≤ stage.flight.length := by
      have all := inv.owners.length_eq
      rw [reached, Queue.out, List.length_append, List.length_map] at all
      exact Nat.le_of_add_left_le (Nat.le_of_eq all)
    have posted := congrArg List.length now.posted
    rw [List.length_append, List.length_map] at posted
    have read : w.log.length = w.began.wire.length + (w.q.completed w.net.txSeen).length := by
      rw [reached, TxPc.flight] at log
      omega
    have wire : w.net.wire = w.began.wire ++ (w.q.completed w.net.txSeen).map fun _ => frame :=
      congrArg Statics.wire now.net
    rw [wire, now.posted, read, List.take_length_add_append, List.map_const', List.map_const', List.take_replicate,
      Nat.min_eq_left few]

theorem Buffer.write_front (buf : Buffer) (frame : List U8) (inside : 0 + frame.length ≤ bufLen) :
    (Buffer.write buf 0 frame inside).1.take frame.length = frame := by
  change (frame ++ buf.1.drop (0 + frame.length)).take frame.length = frame
  exact List.take_left

/-- A device that takes the descriptor and completes it lets every sender return. -/
theorem TxInv.transmits (inv : TxInv w) (idle : w.pc = .idle) {call : TxCall} {frame : List U8} {net : Statics}
    (built : call.frame w.net = .ok (some frame)) (nonempty : frame.length ≠ 0) (fits : frame.length ≤ bufLen)
    (after : call.after platform (w.net.after frame) = .ok net) :
    ∃ es u, Run (TxStep platform) w es u ∧ u.pc = .idle ∧ u.net = net ∧ u.posted = w.posted ++ [frame] := by
  have inside : 0 + frame.length ≤ bufLen := by omega
  obtain ⟨buf, isBuf⟩ : ∃ buf, buf = Buffer.write w.buf 0 frame inside := ⟨_, rfl⟩
  have front : buf.1.take frame.length = frame := by rw [isBuf, Buffer.write_front]
  obtain ⟨seen, avail, taken, held⟩ := inv.counted.quiet (inv.out_nil (by rw [idle]; rfl))
  have waits : (w.q.put 0).publish.avail ≠ (w.q.put 0).publish.taken := by
    change w.q.avail + 1 ≠ w.q.taken
    bv_omega
  have holds : 0 ∈ (w.q.put 0).publish.take.held := by
    change 0 ∈ w.q.held ++ [(w.q.put 0).ring (slot qsize w.q.taken)]
    have same : w.q.taken = (w.q.put 0).avail := taken.trans avail.symm
    rw [same, Queue.ring_put]
    exact List.mem_append_right _ (List.mem_singleton_self 0)
  have moved : w.q.used + 1 ≠ w.net.txSeen := by bv_omega
  have read : (w.net.wire ++ []) ++ [buf.1.take frame.length] = w.net.wire ++ [frame] := by rw [front, List.append_nil]
  have sent : call.after platform { w.net with
      txPosted := w.net.txPosted + 1
      txSeen := w.net.txSeen + 1
      txCompleted := w.net.txCompleted + 1
      wire := (w.net.wire ++ []) ++ [buf.1.take frame.length] } = .ok net := by
    rw [read]
    exact after
  have start : TxStep platform w (.call call) { w with pc := .sending .filling call frame, began := w.net } := .call idle built
  have fill : TxStep platform { w with pc := .sending .filling call frame, began := w.net } (.write 0 frame)
      { w with buf, pc := .sending .filling call frame, began := w.net } := isBuf ▸ .write 0 frame inside rfl
  have filled : TxStep platform { w with buf, pc := .sending .filling call frame, began := w.net } (.drive false)
      { w with buf, pc := .sending .filled call frame, began := w.net } := .drive rfl (congrArg Except.ok (if_pos front))
  -- the driver posts, the device takes and completes, the wait ends
  have rest : ∃ u, Run (TxStep platform) { w with buf, pc := .sending .filled call frame, began := w.net }
      [.drive false, .drive false, .drive false, .drive false, .device, .device, .drive false, .drive false] u ∧
      u.pc = .idle ∧ u.net = net ∧ u.posted = w.posted ++ [frame] :=
    ⟨_, .cons (.drive rfl (if_neg nonempty)) (.cons (.drive rfl rfl) (.cons (.drive rfl rfl) (.cons (.drive rfl rfl)
      (.cons (.device (.take waits)) (.cons (.device (.complete 0 0 holds)) (.cons (.drive rfl (if_neg moved))
        (.single (.drive rfl (congrArg (· >>= _) sent))))))))), rfl, rfl, rfl⟩
  obtain ⟨u, rest, facts⟩ := rest
  exact ⟨_, u, .cons start (.cons fill (.cons filled rest)), facts⟩

/-- In every state the senders and the device reach: a step that writes the buffer or
posts finds nothing in flight, with the indices equal and every post matched by a
completion that was counted; the other steps change neither the buffer nor what was
posted; what the device can read is the frame the call in progress has built, and
what it has read are the frames posted, in order. -/
theorem tx_buffer_owned {mac : Mac} {ring : Fin qsize → Nat} {entries : Fin qsize → Nat × Nat} {buf : Buffer} {descLen : Nat}
    {es : List TxEvent} (run : Run (TxStep platform) (.boot mac ring entries buf descLen) es w) :
    (∀ e u, TxStep platform w e u → w.Stores e → Matched w) ∧
    (∀ e u, TxStep platform w e u → ¬ w.Stores e →
      u.buf = w.buf ∧ u.descLen = w.descLen ∧ u.q.ring = w.q.ring ∧ u.q.avail = w.q.avail) ∧
    (∀ id ∈ w.q.available ++ w.q.held,
      id = 0 ∧ ∃ stage call, w.pc = .sending stage call w.bytes ∧ call.frame w.began = .ok (some w.bytes)) ∧
    w.net.wire = w.posted.take w.log.length := by
  have inv := TxInv.run run
  refine ⟨?_, ?_, ?_, inv.wire⟩
  · intro e u step stores
    obtain ⟨stage, call, frame, reached, still⟩ := step.stores stores
    exact inv.matched reached still
  · intro e u step other
    exact step.keeps other
  · intro id out
    exact inv.reads out

end

theorem TxCall.gratuitousArp_frame (net : Statics) :
    ∃ frame, TxCall.gratuitousArp.frame net = .ok (some frame) ∧ frame.length = txLen := by
  have built : Returns (fillTx txLen (writeGarp net.mac)) (·.length = txLen) := by
    refine fillTx_returns (by decide) fun f room => ?_
    rw [← room]
    refine copyAll_returns _ ?_
    rw [room]
    simp [Write.Inside, Write.at, frameRoom, bufLen, vnetHdr]
  obtain ⟨frame, done, length⟩ := built
  exact ⟨frame, congrArg (some <$> ·) done, length⟩

/-- The second of two gratuitous ARPs finds the first one matched. -/
theorem tx_buffer_owned_twoCalls : ∃ es w,
    Run (TxStep qemu) (.boot guestMac (fun _ => 0) (fun _ => (0, 0)) zeroBuffer 0) es w ∧
    w.posted.length = 1 ∧ (∃ call frame, w.pc = .sending .filling call frame) ∧ Matched w := by
  obtain ⟨frame, built, length⟩ := TxCall.gratuitousArp_frame (.boot guestMac)
  have start := TxInv.boot guestMac (fun _ => 0) (fun _ => (0, 0)) zeroBuffer 0
  obtain ⟨es, u, run, idle, net, posted⟩ := @TxInv.transmits qemu _ start rfl _ frame _ built (by rw [length]; decide)
    (by rw [length]; decide) rfl
  have again : TxCall.gratuitousArp.frame u.net = .ok (some frame) := by
    rw [net]
    exact built
  have next : Run (TxStep qemu) _ _ _ := .snoc run (.call idle again)
  refine ⟨_, _, next, ?_, ⟨_, _, rfl⟩, (tx_buffer_owned next).1 _ _ (.write 0 [] (by decide) rfl) trivial⟩
  change u.posted.length = 1
  rw [posted]
  rfl

end Whimbrel.Net

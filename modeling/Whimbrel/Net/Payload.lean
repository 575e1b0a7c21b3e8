import Whimbrel.Net.Address
import Whimbrel.Net.RoundTrip

/-! The application bytes on the wire.

A frame carries what its receiver takes out of it. All that the stack ever puts there
is what `send` was given: an answer to a segment is bare, and a retransmission repeats
the bytes in the TCB. -/

set_option autoImplicit false

namespace Whimbrel.Net

open Checked Transition

/-- The application bytes of a datagram, as its receiver reads them. -/
def dataOf (d : Ipv4.Datagram) : List U8 :=
  if d.proto = Ipv4.protoTcp then (Tcp.segmentOf d.payload).data
  else if d.proto = Ipv4.protoUdp then d.payload.drop Udp.hdr
  else []

/-- Whoever accepts the frame finds no application bytes in it, or allowed ones. -/
def Carries (allowed : List U8 → Prop) (frame : List U8) : Prop :=
  ∀ dst d, word16 (frame.drop vnetHdr) 12 = ethTypeIpv4 → Ipv4.judge (frame.drop vnetHdr) dst = .ok d →
    dataOf d = [] ∨ allowed (dataOf d)

theorem judge_fields {eth : List U8} {dst : Ip} {d : Ipv4.Datagram} (accepted : Ipv4.judge eth dst = .ok d) :
    ipAt (eth.drop ethHdr) 16 = dst ∧ d.proto = byteAt (eth.drop ethHdr) 9 ∧ d.payload.length < 2 ^ 16 := by
  obtain ⟨-, accepted⟩ := check_eq_ok accepted
  obtain ⟨-, accepted⟩ := check_eq_ok accepted
  obtain ⟨-, accepted⟩ := check_eq_ok accepted
  obtain ⟨-, accepted⟩ := check_eq_ok accepted
  obtain ⟨-, accepted⟩ := check_eq_ok accepted
  obtain ⟨-, accepted⟩ := check_eq_ok accepted
  obtain ⟨-, accepted⟩ := check_eq_ok accepted
  obtain ⟨target, accepted⟩ := check_eq_ok accepted
  obtain ⟨-, accepted⟩ := check_eq_ok accepted
  cases accepted
  refine ⟨not_not.mp target, rfl, ?_⟩
  have total := (word16 (eth.drop ethHdr) 2).isLt
  simp only [List.length_take]
  change min (_ - _) _ < _
  exact Nat.lt_of_le_of_lt (Nat.le_trans (Nat.min_le_left _ _) (Nat.sub_le _ _)) total

section
variable {allowed : List U8 → Prop} {mac gw : Mac} {dstIp : Ip} {proto : U8} {len : Nat}
  {build : List U8 → Result (List U8 × Nat)} {frame : List U8}

theorem ipv4Frame_fits (small : len < 2 ^ 16) (done : ipv4Frame mac gw proto dstIp len build = .ok frame) :
    len ≤ transportMax := by
  have exact32 : (BitVec.ofNat 32 (vnetHdr + max (ethHdr + (20 + len)) ethMin)).toNat =
      vnetHdr + max (ethHdr + (20 + len)) ethMin := by
    rw [BitVec.toNat_ofNat, Nat.mod_eq_of_lt]
    simp only [vnetHdr, ethHdr, ethMin]
    omega
  unfold ipv4Frame fillTx at done
  dsimp only at done
  rw [exact32] at done
  split at done
  · cases done
  · rename_i fits
    simp only [transportMax, bufLen, vnetHdr, ethHdr, ethMin] at fits ⊢
    omega

theorem Carries.of_writes {transport : List U8} (writes : Writes build transport) (length : transport.length = len)
    (small : len < 2 ^ 16) (known : proto = Ipv4.protoIcmp ∨ proto = Ipv4.protoUdp ∨ proto = Ipv4.protoTcp)
    (clean : dataOf ⟨ourIp, proto, transport⟩ = [] ∨ allowed (dataOf ⟨ourIp, proto, transport⟩))
    (done : ipv4Frame mac gw proto dstIp len build = .ok frame) : Carries allowed frame := by
  have fits := ipv4Frame_fits small done
  rw [ipv4Frame_from, ipv4FrameFrom_eq writes length fits] at done
  cases done
  intro dst d _ accepted
  have eth : (List.replicate vnetHdr (0 : U8) ++ ipv4Bytes ourIp mac gw proto dstIp transport).drop vnetHdr =
      ipv4Bytes ourIp mac gw proto dstIp transport := List.drop_left' List.length_replicate
  rw [eth] at accepted
  -- nobody but the addressee accepts it
  obtain ⟨target, -, -⟩ := judge_fields accepted
  have dst_eq : dstIp = dst := target
  have short : 20 + transport.length < 65536 := by
    rw [length]
    simp only [transportMax, bufLen, vnetHdr, ethHdr] at fits
    omega
  rw [← dst_eq, ipv4Bytes, Ipv4.judge_frame (ethernet_length gw mac) short known] at accepted
  cases accepted
  exact clean

theorem ipv4Frame_proto (small : len < 2 ^ 16) (done : ipv4Frame mac gw proto dstIp len build = .ok frame) :
    byteAt ((frame.drop vnetHdr).drop ethHdr) 9 = proto := by
  have post : 72 ≤ (BitVec.ofNat 32 (vnetHdr + max (ethHdr + (20 + len)) ethMin)).toNat := by
    simp only [BitVec.toNat_ofNat, vnetHdr, ethHdr, ethMin]
    omega
  unfold ipv4Frame fillTx at done
  dsimp only at done
  split at done
  · cases done
  obtain ⟨buf, filled, done⟩ := bind_eq_ok done
  obtain ⟨-, f, built, rfl⟩ := modifyFrom_eq_ok filled
  cases done
  obtain ⟨eth, -, built⟩ := bind_eq_ok built
  obtain ⟨withIp, header, built⟩ := bind_eq_ok built
  obtain ⟨long, hdr, wrote, rfl⟩ := modifyFrom_eq_ok header
  obtain ⟨room, body, -, rfl⟩ := modifyFrom_eq_ok built
  have front : ((List.replicate bufLen (0 : U8)).take vnetHdr).length = vnetHdr := by
    rw [List.length_take, List.length_replicate]
    rfl
  rw [List.drop_drop]
  exact (byteAt_header post front long room (by decide)).trans (writeHeader_bytes wrote).1

theorem Carries.of_icmp (small : len < 2 ^ 16) (done : ipv4Frame mac gw Ipv4.protoIcmp dstIp len build = .ok frame) :
    Carries allowed frame := by
  intro dst d _ accepted
  obtain ⟨-, proto, -⟩ := judge_fields accepted
  rw [ipv4Frame_proto small done] at proto
  left
  rw [dataOf, proto]
  rfl

theorem Carries.of_arp {write : List U8 → Result (List U8)}
    (etype : ∀ f g, write f = .ok g → byteAt g 12 = 0x08 ∧ byteAt g 13 = 0x06) (done : fillTx txLen write = .ok frame) :
    Carries allowed frame := by
  intro dst d isIpv4
  unfold fillTx at done
  split at done
  · cases done
  obtain ⟨buf, filled, done⟩ := bind_eq_ok done
  obtain ⟨-, g, wrote, rfl⟩ := modifyFrom_eq_ok filled
  cases done
  obtain ⟨high, low⟩ := etype _ _ wrote
  have read {i : Nat} (small : i < 60) :
      byteAt (((List.take vnetHdr (List.replicate bufLen (0 : U8)) ++ g).take txLen).drop vnetHdr) i = byteAt g i := by
    have front : (List.take vnetHdr (List.replicate bufLen (0 : U8))).length = vnetHdr := by
      rw [List.length_take, List.length_replicate]
      rfl
    simp only [byteAt, List.getD]
    rw [List.getElem?_drop, List.getElem?_take_of_lt (by rw [txLen, ethMin]; omega),
      List.getElem?_append_right (by omega), front, Nat.add_sub_cancel_left]
  rw [word16, read (by decide), read (by decide), high, low] at isIpv4
  exact absurd isIpv4 (by decide)

end

def TxCall.Clean (allowed : List U8 → Prop) (net : Statics) : TxCall → Prop
  | .tcpSeg _ _ _ _ _ _ dataLen => ∀ p, segPayload net.tcp.tcb dataLen = .ok p → p = [] ∨ allowed p
  | .udp payload _ _ => payload.length < 2 ^ 15 ∧ (payload = [] ∨ allowed payload)
  | .icmpEchoReply _ req => req.length < 2 ^ 16
  | .gratuitousArp | .arpRequest | .arpReply _ | .ping _ | .tcpSynack .. => True

theorem writePacket_etype {eth g : List U8} {dst ourMac : Mac} {ourIp : Ip} {op : U16} {target : List (Write U8)}
    (done : Arp.writePacket eth dst ourMac ourIp op target = .ok g) : byteAt g 12 = 0x08 ∧ byteAt g 13 = 0x06 := by
  unfold Arp.writePacket at done
  split at done
  · cases done
  obtain ⟨filled, copied, done⟩ := bind_eq_ok done
  obtain ⟨a, -, done⟩ := bind_eq_ok done
  obtain ⟨a', -, done⟩ := bind_eq_ok done
  have read (i : Nat) : byteAt g i = if Arp.ethHdr ≤ i ∧ i < _ then _ else byteAt filled i := copyFromSlice_getD done i 0
  have wrote (i : Nat) : byteAt filled i = Write.readAt i (byteAt eth i) _ := copyAll_getD copied i 0
  rw [read, read, if_neg (by decide), if_neg (by decide), wrote, wrote]
  exact ⟨rfl, rfl⟩

theorem writeGarp_etype {mac : Mac} {f g : List U8} (done : writeGarp mac f = .ok g) :
    byteAt g 12 = 0x08 ∧ byteAt g 13 = 0x06 := by
  have wrote (i : Nat) : byteAt g i = Write.readAt i (byteAt f i) _ := copyAll_getD done i 0
  rw [wrote, wrote]
  exact ⟨rfl, rfl⟩

section
variable {allowed : List U8 → Prop} {cfg : Config} {platform : Platform} {net u : Statics}

theorem TxCall.carries {call : TxCall} {f : List U8} (clean : call.Clean allowed net)
    (built : call.frame net = .ok (some f)) : Carries allowed f := by
  cases call with
  | gratuitousArp =>
    obtain ⟨g, built, same⟩ := map_eq_ok built
    cases same
    exact .of_arp (fun _ _ => writeGarp_etype) built
  | arpRequest | arpReply =>
    obtain ⟨g, built, same⟩ := map_eq_ok built
    cases same
    exact .of_arp (fun _ _ => writePacket_etype) built
  | icmpEchoReply =>
    obtain ⟨gw, -, built⟩ := bind_eq_ok built
    obtain ⟨g, built, same⟩ := map_eq_ok built
    cases same
    exact .of_icmp clean built
  | ping now =>
    obtain ⟨gw, -, built⟩ := bind_eq_ok built
    obtain ⟨g, built, same⟩ := map_eq_ok built
    cases same
    exact .of_icmp (by decide) built
  | tcpSynack dstIp dstPort seq ack =>
    rw [TxCall.frame] at built
    cases known : Arp.lookup net.arp.cache gwIp with
    | none =>
      rw [known] at built
      cases built
    | some gw =>
      rw [known] at built
      obtain ⟨g, built, same⟩ := map_eq_ok built
      cases same
      refine .of_writes writes_synackBytes Tcp.synackBytes_length (by decide) (.inr (.inr rfl)) (.inl ?_) built
      exact congrArg Tcp.Segment.data Tcp.segmentOf_synackBytes.1
  | tcpSeg now dstIp dstPort seq ack flags dataLen =>
    rw [TxCall.frame] at built
    cases known : Arp.lookup net.arp.cache gwIp with
    | none =>
      rw [known] at built
      cases built
    | some gw =>
      rw [known] at built
      obtain ⟨payload, cut, built⟩ := bind_eq_ok built
      obtain ⟨g, built, same⟩ := map_eq_ok built
      cases same
      have short := segPayload_length cut
      have data : dataOf ⟨ourIp, Ipv4.protoTcp, Tcp.segBytes Tcp.listenPort dstPort seq ack flags payload ourIp dstIp⟩ =
          payload := congrArg Tcp.Segment.data Tcp.segmentOf_segBytes.1
      refine .of_writes writes_segBytes Tcp.segBytes_length ?_ (.inr (.inr rfl)) ?_ built
      · rw [Tcp.payloadMax] at short
        rw [Tcp.hdrMin]
        omega
      · rw [data]
        exact clean payload cut
  | udp payload dstIp dstPort =>
    obtain ⟨gw, -, built⟩ := bind_eq_ok built
    obtain ⟨g, built, same⟩ := map_eq_ok built
    cases same
    have data : dataOf ⟨ourIp, Ipv4.protoUdp, Udp.dgram Udp.echoPort dstPort payload ourIp dstIp⟩ = payload := rfl
    refine .of_writes writes_dgram Udp.dgram_length ?_ (.inr (.inl rfl)) ?_ built
    · have small := clean.1
      rw [Udp.hdr]
      omega
    · rw [data]
      exact clean.2

/-! ## The stack -/

structure Flight (allowed : List U8 → Prop) (t : Tcp.Tcb) : Prop where
  inv : Tcp.TcbInv t
  bytes : t.unackedLen ≠ 0 → allowed (t.unacked.bytes.take t.unackedLen)

/-- Everything transmitted is allowed, and so is what may be transmitted again. -/
structure Speaks (allowed : List U8 → Prop) (net : Statics) : Prop where
  wire : ∀ f ∈ net.wire, Carries allowed f
  flight : Flight allowed net.tcp.tcb

def Op.Offers (allowed : List U8 → Prop) : Op → Prop
  | .tcpSend _ payload _ => payload ≠ [] → allowed payload
  | .udpSend payload => payload.length < 2 ^ 15 ∧ (payload = [] ∨ allowed payload)
  | _ => True

theorem Speaks.of_eq (speaks : Speaks allowed net) (wire : u.wire = net.wire) (tcb : u.tcp.tcb = net.tcp.tcb) :
    Speaks allowed u :=
  ⟨wire ▸ speaks.wire, tcb ▸ speaks.flight⟩

theorem Speaks.call {call : TxCall} (speaks : Speaks allowed net) (clean : call.Clean allowed net)
    (done : call.exec platform net = .ok u) : Speaks allowed u := by
  rw [TxCall.exec_eq] at done
  obtain ⟨frame, built, done⟩ := bind_eq_ok done
  cases frame with
  | none =>
    cases done
    exact speaks.of_eq rfl rfl
  | some f =>
    have carries := TxCall.carries clean built
    obtain ⟨v, posted, after⟩ := bind_eq_ok done
    unfold Statics.posted at posted
    split at posted
    · cases posted
    cases posted
    have sent : Speaks allowed (net.after f) := by
      refine ⟨fun g member => ?_, speaks.flight⟩
      rcases List.mem_append.mp member with old | new
      · exact speaks.wire g old
      · rw [List.mem_singleton.mp new]
        exact carries
    -- What follows the transmission touches neither the wire nor the TCB.
    cases call with
    | ping now =>
      cases after
      exact sent.of_eq rfl rfl
    | tcpSeg now dstIp dstPort seq ack flags dataLen =>
      rw [TxCall.after, stampE3g] at after
      split at after
      · obtain ⟨_, -, after⟩ := bind_eq_ok after
        cases after
        exact sent.of_eq rfl rfl
      · cases after
        exact sent
    | gratuitousArp | arpRequest | arpReply | icmpEchoReply | tcpSynack | udp =>
      cases after
      exact sent

/-- Each part of an operation of the TCB keeps the bytes in flight, lands them, or takes those of `send`. -/
theorem Flight.stage {t0 t v : Tcp.Tcb} {op : Tcp.Op} {events : List Tcp.Event}
    (offers : ∀ now data fin, op = .appSend now data fin → data ≠ [] → allowed data) (flight : Flight allowed t)
    (stage : Tcp.Stage cfg t0 op t events v) : Flight allowed v := by
  refine ⟨flight.inv.stage stage, ?_⟩
  cases stage with
  | aborted | acked | finAcked | ackCloses | finUnused | finTimeWait | rtoReset => exact fun some => absurd rfl some
  | opened | established | queued | finCloseWait | finStays | consumed | eofTaken | resent => exact flight.bytes
  | @sent now data fin sends ready first idle fits =>
    intro some
    have bytes : (Tcp.sendUnacked now { Tcp.storeUnacked t0 data fin fits with
        state := Tcp.sendState t0 fin }).1.unacked.bytes.take data.length = data := Tcp.Buf.take_fill _ _ fits
    have full : data ≠ [] := fun none => some (congrArg List.length none)
    change allowed ((Tcp.sendUnacked now _).1.unacked.bytes.take data.length)
    rw [bytes]
    exact offers now data fin sends full

theorem Flight.exec {s s' : Tcp.Statics} {op : Tcp.Op} {l : Tcp.Label}
    (offers : ∀ now data fin, op = .appSend now data fin → data ≠ [] → allowed data) (flight : Flight allowed s.tcb)
    (done : Tcp.exec cfg s op = .ok (s', l)) : Flight allowed s'.tcb := by
  have step : Tcp.Step cfg s l s' := by rw [Tcp.Step, Tcp.exec_op done, done]
  obtain ⟨parts, stages, -⟩ := step.stages
  rw [Tcp.exec_op done] at stages
  exact @Run.invariant _ _ _ (Flight allowed) (fun _ _ _ flight stage => flight.stage offers stage) _ _ _ stages flight

theorem Speaks.tcp {op : Tcp.Op} {tcp : Tcp.Statics} {l : Tcp.Label} {now : Usize} (speaks : Speaks allowed net)
    (offers : ∀ now data fin, op = .appSend now data fin → data ≠ [] → allowed data)
    (ran : Tcp.exec cfg net.tcp op = .ok (tcp, l)) (done : txTcp platform now { net with tcp } l.out = .ok u) :
    Speaks allowed u := by
  have flight := speaks.flight.exec offers ran
  have before : Speaks allowed { net with tcp } := ⟨speaks.wire, flight⟩
  have step : Tcp.Step cfg net.tcp l tcp := by rw [Tcp.Step, Tcp.exec_op ran, ran]
  cases out : l.out with
  | none =>
    rw [out] at done
    cases done
    exact before
  | synAck dstIp dstPort seq ack =>
    rw [out] at done
    exact @Speaks.call _ platform _ _ (.tcpSynack dstIp dstPort seq ack) before trivial done
  | seg dstIp dstPort seq ack flags dataLen =>
    rw [out] at done
    refine @Speaks.call _ platform _ _ (.tcpSeg now dstIp dstPort seq ack flags dataLen) before (fun p cut => ?_) done
    unfold segPayload at cut
    split at cut
    · cases cut
      exact .inl rfl
    -- a segment with data is the one in flight, whole
    · rename_i some
      have emits := step.emits
      rw [out] at emits
      have whole : dataLen = tcp.tcb.unackedLen := emits.dataLen (Nat.pos_of_ne_zero some)
      rw [flight.inv.unackedBytes_eq, bind_ok] at cut
      split at cut
      · cases cut
      · have length : (tcp.tcb.unacked.bytes.take tcp.tcb.unackedLen).length = dataLen := by
          rw [List.length_take, tcp.tcb.unacked.full, whole]
          exact Nat.min_eq_left flight.inv.unackedLen_le
        rw [slice_ok (Nat.zero_le _) (Nat.le_of_eq length.symm), List.drop_zero, Nat.sub_zero, ← length,
          List.take_length] at cut
        cases cut
        exact .inr (flight.bytes (whole ▸ some))

theorem classifyUdp_keeps {d : Ipv4.Datagram} (done : classifyUdp net d = .ok u) :
    u.wire = net.wire ∧ u.tcp = net.tcp := by
  obtain ⟨⟨drops, echo⟩, -, done⟩ := bind_eq_ok done
  cases echo with
  | none =>
    cases done
    exact ⟨rfl, rfl⟩
  | some echo =>
    obtain ⟨payload, -, done⟩ := bind_eq_ok done
    dsimp only at done
    split at done
    · cases done
      exact ⟨rfl, rfl⟩
    · split at done <;> cases done <;> exact ⟨rfl, rfl⟩

theorem Speaks.classifyTcp {now : Usize} {d : Ipv4.Datagram} (speaks : Speaks allowed net)
    (done : classifyTcp cfg platform now net d = .ok u) : Speaks allowed u := by
  unfold Net.classifyTcp at done
  split at done
  · cases done
    exact speaks.of_eq rfl rfl
  · obtain ⟨⟨tcp, l⟩, ran, done⟩ := bind_eq_ok done
    exact speaks.tcp (fun _ _ _ is => by cases is) ran done

theorem Speaks.classifyIcmp (platform : Platform) {now : Usize} {d : Ipv4.Datagram} (speaks : Speaks allowed net)
    (small : d.payload.length < 2 ^ 16) (done : classifyIcmp now net d = .ok u) : Speaks allowed u := by
  unfold Net.classifyIcmp at done
  rw [Icmp.parse_eq] at done
  cases accepted : Icmp.judge d.payload with
  | error r =>
    rw [accepted] at done
    cases done
    exact speaks.of_eq rfl rfl
  | ok msg =>
    rw [accepted] at done
    cases msg with
    | echoReq ident seq raw =>
      obtain ⟨rfl, -⟩ := Icmp.raw_of_judge accepted
      exact @Speaks.call _ platform _ _ (.icmpEchoReply d.src d.payload) speaks small done
    | echoReply ident seq =>
      simp only [settle, bind_ok] at done
      split at done <;> cases done <;> exact speaks.of_eq rfl rfl

theorem Speaks.classifyArp (platform : Platform) {frame : List U8} {r : Statics × Bool} (speaks : Speaks allowed net)
    (done : classifyArp net frame = .ok r) : Speaks allowed r.1 := by
  obtain ⟨⟨arp, event⟩, -, done⟩ := bind_eq_ok done
  have before : Speaks allowed { net with arp } := speaks.of_eq rfl rfl
  cases event with
  | none =>
    cases done
    exact before
  | some event =>
    cases event with
    | reply =>
      cases done
      exact before
    | request req =>
      obtain ⟨v, sent, done⟩ := bind_eq_ok done
      cases done
      exact @Speaks.call _ platform _ _ (.arpReply req) before trivial sent

theorem Speaks.classifyRx {c : Completion} {r : Statics × Bool} (speaks : Speaks allowed net)
    (done : classifyRx cfg platform net c = .ok r) : Speaks allowed r.1 := by
  rw [classifyRx_eq] at done
  cases has : c.frame with
  | none =>
    rw [has] at done
    cases done
    exact speaks.of_eq rfl rfl
  | some frame =>
    rw [has] at done
    dsimp only at done
    split at done
    · obtain ⟨u, classified, rfl⟩ := map_eq_ok done
      unfold classifyIpv4 at classified
      rw [Ipv4.parse_eq] at classified
      cases accepted : Ipv4.judge frame ourIp with
      | error =>
        rw [accepted] at classified
        cases classified
        exact speaks.of_eq rfl rfl
      | ok d =>
        rw [accepted] at classified
        simp only [settle, bind_ok] at classified
        split at classified
        · obtain ⟨wire, tcp⟩ := classifyUdp_keeps classified
          exact speaks.of_eq wire (congrArg Tcp.Statics.tcb tcp)
        · split at classified
          · exact speaks.classifyTcp classified
          · exact speaks.classifyIcmp platform (judge_fields accepted).2.2 classified
    · split at done
      · cases done
        exact speaks.of_eq rfl rfl
      · exact speaks.classifyArp platform done

theorem Speaks.rxLoop {took : U32} {replied : Bool} {cs : List Completion} {r : Statics × U32 × Bool}
    (speaks : Speaks allowed net) (done : rxLoop cfg platform net took replied cs = .ok r) : Speaks allowed r.1 := by
  induction cs generalizing net took replied with
  | nil =>
    cases done
    exact speaks
  | cons c cs ih =>
    obtain ⟨v, first, rest⟩ := bind_eq_ok done
    refine ih ?_ rest
    unfold rxStep at first
    split at first
    · cases first
    obtain ⟨w, classified, first⟩ := bind_eq_ok first
    obtain ⟨took', -, first⟩ := bind_eq_ok first
    cases first
    have before : Speaks allowed { net with rxSeen := net.rxSeen + 1, rxCompleted := net.rxCompleted + 1 } :=
      speaks.of_eq rfl rfl
    exact (before.classifyRx classified).of_eq rfl rfl

/-- Whatever arrives and whatever is called: only what `send` was given is transmitted. -/
theorem Speaks.step {op : Op} (speaks : Speaks allowed net) (offers : op.Offers allowed)
    (step : Step cfg platform net op u) : Speaks allowed u := by
  unfold Step at step
  cases op with
  | pollRx cs =>
    obtain ⟨r, polled, rfl⟩ := map_eq_ok step
    obtain ⟨v, loop, polled⟩ := bind_eq_ok polled
    dsimp only at polled
    split at polled
    · cases polled
    · cases polled
      exact speaks.rxLoop loop
  | pumpTcp now =>
    obtain ⟨⟨tcp, l⟩, ran, step⟩ := bind_eq_ok step
    exact speaks.tcp (fun _ _ _ is => by cases is) ran step
  | tcpSend now payload flags =>
    have bytes : ∀ now' data fin, Tcp.Op.appSend now payload (flags &&& 1 ≠ 0) = .appSend now' data fin →
        data ≠ [] → allowed data := by
      intro now' data fin same
      cases same
      exact offers
    obtain ⟨r, called, rfl⟩ := map_eq_ok step
    obtain ⟨⟨tcp, l⟩, ran, called⟩ := bind_eq_ok called
    dsimp only at called
    split at called
    · cases called
      exact ⟨speaks.wire, speaks.flight.exec bytes ran⟩
    · obtain ⟨v, sent, called⟩ := bind_eq_ok called
      cases called
      exact speaks.tcp bytes ran sent
  | tcpConsume | tcpEof =>
    obtain ⟨⟨tcp, l⟩, ran, step⟩ := bind_eq_ok step
    cases step
    exact ⟨speaks.wire, speaks.flight.exec (fun _ _ _ is => by cases is) ran⟩
  | udpSend payload =>
    obtain ⟨r, called, rfl⟩ := map_eq_ok step
    unfold udpSend at called
    split at called
    · cases called
      exact speaks
    · obtain ⟨v, sent, called⟩ := bind_eq_ok called
      cases called
      exact @Speaks.call _ platform _ _ (.udp payload net.udpSrcIp net.udpSrcPort) speaks offers sent
  | udpConsume =>
    cases step
    exact speaks.of_eq rfl rfl
  | arpRequest => exact @Speaks.call _ platform _ _ .arpRequest speaks trivial step
  | gratuitousArp => exact @Speaks.call _ platform _ _ .gratuitousArp speaks trivial step
  | ping now => exact @Speaks.call _ platform _ _ (.ping now) speaks trivial step

theorem Speaks.boot (allowed : List U8 → Prop) (mac : Mac) : Speaks allowed (.boot mac) where
  wire f sent := by cases sent
  flight := ⟨.init, fun some => absurd rfl some⟩

theorem Speaks.run {ops : List Op} (run : Run (Step cfg platform) net ops u) (offers : ∀ op ∈ ops, op.Offers allowed)
    (speaks : Speaks allowed net) : Speaks allowed u := by
  induction run with
  | nil => exact speaks
  | @snoc _ _ ops op _ last ih =>
    refine (ih fun op mem => offers op (List.mem_append_left _ mem)).step ?_ last
    exact offers op (List.mem_append_right _ List.mem_cons_self)

end

end Whimbrel.Net

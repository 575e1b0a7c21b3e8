import Whimbrel.Net.TxQueue

/-! What the stack builds is what it accepts.

A sender's frame is a virtio header of zeros, the Ethernet header, the IPv4 header, the
transport bytes and zeros up to the minimum. `ipv4::parse` at the destination takes
the transport bytes out again. -/

set_option autoImplicit false

namespace Whimbrel.Net

open Checked

/-- `ipv4Frame` with the sender's address as a parameter. -/
def ipv4FrameFrom (srcIp : Ip) (mac gw : Mac) (proto : U8) (dstIp : Ip) (len : Nat)
    (build : List U8 → Result (List U8 × Nat)) : Result (List U8) :=
  let ipTot := 20 + len
  let post := vnetHdr + max (ethHdr + ipTot) ethMin
  fillTx (BitVec.ofNat 32 post).toNat fun f => do
    let f ← copyAll f [⟨0, 6, gw.toList⟩, ⟨6, 12, mac.toList⟩, ⟨12, 14, beBytes16 ethTypeIpv4⟩]
    let f ← modifyFrom .bounds f ethHdr fun ip =>
      Ipv4.writeHeader ip (BitVec.ofNat 16 ipTot) proto srcIp dstIp
    modifyFrom .bounds f (ethHdr + 20) fun b => Prod.fst <$> build b

theorem ipv4Frame_from : ipv4Frame = ipv4FrameFrom ourIp := rfl

def ethernet (gw mac : Mac) : List U8 := gw.toList ++ mac.toList ++ beBytes16 ethTypeIpv4

/-- The builder writes these bytes into any buffer that holds them. -/
def Writes (build : List U8 → Result (List U8 × Nat)) (transport : List U8) : Prop :=
  ∀ b : List U8, transport.length ≤ b.length →
    build b = .ok (transport ++ b.drop transport.length, transport.length)

def ipv4Bytes (srcIp : Ip) (mac gw : Mac) (proto : U8) (dstIp : Ip) (transport : List U8) : List U8 :=
  ethernet gw mac ++ (Ipv4.header (BitVec.ofNat 16 (20 + transport.length)) proto srcIp dstIp ++
    (transport ++ List.replicate (ethMin - (ethHdr + 20 + transport.length)) 0))

theorem ethernet_length (gw mac : Mac) : (ethernet gw mac).length = ethHdr := rfl

section
variable {srcIp dstIp : Ip} {mac gw : Mac} {proto : U8} {transport : List U8}

theorem ipv4Bytes_length :
    (ipv4Bytes srcIp mac gw proto dstIp transport).length = max (ethHdr + (20 + transport.length)) ethMin := by
  rw [ipv4Bytes, List.length_append, List.length_append, List.length_append, ethernet_length, Ipv4.header_length,
    List.length_replicate]
  omega

theorem ipv4Build_eq {build : List U8 → Result (List U8 × Nat)} (writes : Writes build transport)
    (fits : transport.length ≤ transportMax) (total : U16) :
    (do
      let f ← copyAll (List.replicate frameRoom 0) [⟨0, 6, gw.toList⟩, ⟨6, 12, mac.toList⟩, ⟨12, 14, beBytes16 ethTypeIpv4⟩]
      let f ← modifyFrom Panic.bounds f ethHdr fun ip => Ipv4.writeHeader ip total proto srcIp dstIp
      modifyFrom .bounds f (ethHdr + 20) fun b => Prod.fst <$> build b) =
    .ok (ethernet gw mac ++ Ipv4.header total proto srcIp dstIp ++
      (transport ++ List.replicate (transportMax - transport.length) 0)) := by
  have copied : copyAll (List.replicate frameRoom 0) [⟨0, 6, gw.toList⟩, ⟨6, 12, mac.toList⟩,
      ⟨12, 14, beBytes16 ethTypeIpv4⟩] = .ok (ethernet gw mac ++ List.replicate (20 + transportMax) 0) := by
    have placed := @copyAll_front (List.replicate frameRoom 0) [gw.toList, mac.toList, beBytes16 ethTypeIpv4] ethHdr rfl
      (by rw [List.length_replicate]; decide)
    rw [List.drop_replicate] at placed
    exact placed
  have headed : modifyFrom Panic.bounds (ethernet gw mac ++ List.replicate (20 + transportMax) 0) ethHdr
      (fun ip => Ipv4.writeHeader ip total proto srcIp dstIp) =
      .ok (ethernet gw mac ++ (Ipv4.header total proto srcIp dstIp ++ List.replicate transportMax 0)) := by
    rw [modifyFrom_of_le, List.take_left' (ethernet_length gw mac)]
    · rw [List.length_append, ethernet_length]
      exact Nat.le_add_right _ _
    · rw [List.drop_left' (ethernet_length gw mac), Ipv4.writeHeader_eq (by rw [List.length_replicate]; omega),
        List.drop_replicate, Nat.add_sub_cancel_left]
  have front : (ethernet gw mac ++ Ipv4.header total proto srcIp dstIp).length = ethHdr + 20 := rfl
  have built : modifyFrom Panic.bounds (ethernet gw mac ++ (Ipv4.header total proto srcIp dstIp ++ List.replicate transportMax 0))
      (ethHdr + 20) (fun b => Prod.fst <$> build b) = .ok (ethernet gw mac ++ Ipv4.header total proto srcIp dstIp ++
        (transport ++ List.replicate (transportMax - transport.length) 0)) := by
    rw [← List.append_assoc, modifyFrom_of_le, List.take_left' front]
    · rw [List.length_append, front]
      omega
    · rw [List.drop_left' front, writes _ (by rw [List.length_replicate]; exact fits), List.drop_replicate]
      rfl
  rw [copied, bind_ok, headed, bind_ok, built]

theorem ipv4FrameFrom_eq {len : Nat} {build : List U8 → Result (List U8 × Nat)} (writes : Writes build transport)
    (length : transport.length = len) (fits : len ≤ transportMax) :
    ipv4FrameFrom srcIp mac gw proto dstIp len build =
      .ok (List.replicate vnetHdr 0 ++ ipv4Bytes srcIp mac gw proto dstIp transport) := by
  subst length
  have small : vnetHdr + max (ethHdr + (20 + transport.length)) ethMin ≤ bufLen := by
    simp only [transportMax, bufLen, vnetHdr, ethHdr, ethMin] at fits ⊢
    omega
  have exact32 : (BitVec.ofNat 32 (vnetHdr + max (ethHdr + (20 + transport.length)) ethMin)).toNat =
      vnetHdr + max (ethHdr + (20 + transport.length)) ethMin := by
    rw [BitVec.toNat_ofNat, Nat.mod_eq_of_lt]
    exact Nat.lt_of_le_of_lt small (by decide)
  have start : (List.replicate bufLen (0 : U8)).drop vnetHdr = List.replicate frameRoom 0 := List.drop_replicate
  have written := @ipv4Build_eq srcIp dstIp mac gw proto transport build writes fits (BitVec.ofNat 16 (20 + transport.length))
  unfold ipv4FrameFrom fillTx
  dsimp only
  rw [exact32, if_neg (Nat.not_lt.mpr small),
    modifyFrom_of_le _ (by rw [List.length_replicate]; decide) (start ▸ written), bind_ok]
  -- the padding is what the cut leaves of the zeros behind the datagram
  have post : vnetHdr + max (ethHdr + (20 + transport.length)) ethMin =
      (List.replicate vnetHdr (0 : U8) ++ (ethernet gw mac ++ (Ipv4.header (BitVec.ofNat 16 (20 + transport.length)) proto
        srcIp dstIp ++ transport))).length + (ethMin - (ethHdr + 20 + transport.length)) := by
    simp only [List.length_append, List.length_replicate, ethernet_length, Ipv4.header_length]
    omega
  have few : ethMin - (ethHdr + 20 + transport.length) ≤ transportMax - transport.length := by
    simp only [transportMax, bufLen, vnetHdr, ethHdr, ethMin] at fits ⊢
    omega
  have header : (List.replicate bufLen (0 : U8)).take vnetHdr = List.replicate vnetHdr 0 := List.take_replicate
  refine congrArg Except.ok ?_
  rw [header, ipv4Bytes, List.append_assoc (ethernet gw mac), ← List.append_assoc _ transport,
    ← List.append_assoc (ethernet gw mac), ← List.append_assoc (List.replicate vnetHdr 0), post, List.take_length_add_append,
    List.take_replicate, Nat.min_eq_left few]
  simp only [List.append_assoc]

end

/-- The frame is built, is padded with zeros to the minimum, and `ipv4::parse` at its
destination yields exactly the transport bytes. -/
def Ipv4Arrives (frame : Result (List U8)) (srcIp dstIp : Ip) (proto : U8) (transport : List U8) : Prop :=
  ∃ eth : List U8, frame = .ok (List.replicate vnetHdr 0 ++ eth) ∧
    eth.length = max (ethHdr + (20 + transport.length)) ethMin ∧
    eth.drop (ethHdr + (20 + transport.length)) = List.replicate (ethMin - (ethHdr + (20 + transport.length))) 0 ∧
    ∀ drops, Ipv4.parse drops eth dstIp = .ok (drops, some ⟨srcIp, proto, transport⟩)

theorem Writes.arrives {srcIp dstIp : Ip} {mac gw : Mac} {proto : U8} {transport : List U8} {len : Nat}
    {build : List U8 → Result (List U8 × Nat)} (writes : Writes build transport) (length : transport.length = len)
    (fits : len ≤ transportMax) (known : proto = Ipv4.protoIcmp ∨ proto = Ipv4.protoUdp ∨ proto = Ipv4.protoTcp) :
    Ipv4Arrives (ipv4FrameFrom srcIp mac gw proto dstIp len build) srcIp dstIp proto transport := by
  have small : 20 + transport.length < 65536 := by
    rw [← length, transportMax, bufLen, vnetHdr] at fits
    omega
  refine ⟨ipv4Bytes srcIp mac gw proto dstIp transport, ipv4FrameFrom_eq writes length fits, ipv4Bytes_length, ?_,
    fun drops => ?_⟩
  · have front : (ethernet gw mac ++ (Ipv4.header (BitVec.ofNat 16 (20 + transport.length)) proto srcIp dstIp ++
        transport)).length = ethHdr + (20 + transport.length) := by
      simp only [List.length_append, ethernet_length, Ipv4.header_length]
    rw [ipv4Bytes, ← List.append_assoc _ transport, ← List.append_assoc (ethernet gw mac), List.drop_left' front, Nat.add_assoc]
  · rw [Ipv4.parse_eq, ipv4Bytes, Ipv4.judge_frame (ethernet_length gw mac) small known]
    rfl

/-! ## The four senders -/

section
variable (srcIp : Ip) (mac gw : Mac) (srcPort dstPort : U16) (seq ack : U32) (flags : U8) (payload req : List U8) (dstIp : Ip)

def tcpSegFrame : Result (List U8) :=
  ipv4FrameFrom srcIp mac gw Ipv4.protoTcp dstIp (20 + payload.length) fun b =>
    Tcp.writeSeg b srcPort dstPort seq ack flags payload srcIp dstIp

def tcpSynackFrame : Result (List U8) :=
  ipv4FrameFrom srcIp mac gw Ipv4.protoTcp dstIp 24 fun b => Tcp.writeSynack b srcPort dstPort seq ack srcIp dstIp

def udpFrame : Result (List U8) :=
  ipv4FrameFrom srcIp mac gw Ipv4.protoUdp dstIp (8 + payload.length) fun b =>
    Udp.writeDgram b srcPort dstPort payload srcIp dstIp

def icmpReplyFrame : Result (List U8) :=
  ipv4FrameFrom srcIp mac gw Ipv4.protoIcmp dstIp req.length fun b => Icmp.writeEchoReply b req

end

/-- The senders build these frames, from our address and our ports. -/
def SendersBuild (net : Statics) (gw : Mac) (dstIp : Ip) (dstPort : U16) : Prop :=
  (∀ now seq ack flags dataLen payload, segPayload net.tcp.tcb dataLen = .ok payload →
    (TxCall.tcpSeg now dstIp dstPort seq ack flags dataLen).frame net =
      some <$> tcpSegFrame ourIp net.mac gw Tcp.listenPort dstPort seq ack flags payload dstIp) ∧
  (∀ seq ack, (TxCall.tcpSynack dstIp dstPort seq ack).frame net =
    some <$> tcpSynackFrame ourIp net.mac gw Tcp.listenPort dstPort seq ack dstIp) ∧
  (∀ payload, (TxCall.udp payload dstIp dstPort).frame net =
    some <$> udpFrame ourIp net.mac gw Udp.echoPort dstPort payload dstIp) ∧
  ∀ req, (TxCall.icmpEchoReply dstIp req).frame net = some <$> icmpReplyFrame ourIp net.mac gw req dstIp

theorem TxCall.frame_known {net : Statics} {gw : Mac} (known : Arp.lookup net.arp.cache gwIp = some gw) (dstIp : Ip)
    (dstPort : U16) : SendersBuild net gw dstIp dstPort := by
  have gateway : gatewayMac net = .ok gw := by rw [gatewayMac, known]
  refine ⟨?_, ?_, ?_, ?_⟩
  · intro now seq ack flags dataLen payload sends
    rw [TxCall.frame, known]
    dsimp only
    rw [sends]
    rfl
  · intro seq ack
    rw [TxCall.frame, known]
    rfl
  · intro payload
    rw [TxCall.frame, gateway]
    rfl
  · intro req
    rw [TxCall.frame, gateway]
    rfl

section
variable {srcIp dstIp : Ip} {mac gw : Mac} {srcPort dstPort : U16} {seq ack : U32} {flags : U8} {payload req : List U8}

theorem writes_segBytes : Writes (Tcp.writeSeg · srcPort dstPort seq ack flags payload srcIp dstIp)
    (Tcp.segBytes srcPort dstPort seq ack flags payload srcIp dstIp) := by
  intro b room
  rw [Tcp.segBytes_length] at room ⊢
  exact Tcp.writeSeg_eq room

theorem writes_synackBytes : Writes (Tcp.writeSynack · srcPort dstPort seq ack srcIp dstIp)
    (Tcp.synackBytes srcPort dstPort seq ack srcIp dstIp) := by
  intro b room
  exact Tcp.writeSynack_eq room

theorem writes_dgram : Writes (Udp.writeDgram · srcPort dstPort payload srcIp dstIp)
    (Udp.dgram srcPort dstPort payload srcIp dstIp) := by
  intro b room
  rw [Udp.dgram_length] at room ⊢
  exact Udp.writeDgram_eq room

theorem writes_replyBytes (long : Icmp.hdr ≤ req.length) : Writes (Icmp.writeEchoReply · req) (Icmp.replyBytes req) := by
  intro b room
  rw [Icmp.replyBytes_length long] at room ⊢
  exact Icmp.writeEchoReply_eq long room

/-- What the receiver of a TCP frame reads. -/
structure TcpArrives (frame : Result (List U8)) (srcIp dstIp : Ip) (dstPort : U16) (tcp : List U8) (offset : Nat)
    (g : Tcp.Segment) : Prop where
  arrives : Ipv4Arrives frame srcIp dstIp Ipv4.protoTcp tcp
  valid : Tcp.checksumValid srcIp dstIp tcp
  port : word16 tcp 2 = dstPort
  offset : Tcp.headerLen tcp = offset
  fields : Tcp.segmentOf tcp = g
  decodes : dstPort = Tcp.listenPort → Tcp.decode tcp srcIp dstIp = .ok g

theorem tcpSeg_arrives (short : payload.length ≤ Tcp.payloadMax) :
    TcpArrives (tcpSegFrame srcIp mac gw srcPort dstPort seq ack flags payload dstIp) srcIp dstIp dstPort
      (Tcp.segBytes srcPort dstPort seq ack flags payload srcIp dstIp) Tcp.hdrMin ⟨srcPort, seq, ack, flags, payload⟩ := by
  have length := @Tcp.segBytes_length srcPort dstPort seq ack flags payload srcIp dstIp
  obtain ⟨fields, offset⟩ := @Tcp.segmentOf_segBytes srcPort dstPort seq ack flags payload srcIp dstIp
  rw [Tcp.payloadMax] at short
  rw [Tcp.hdrMin] at length
  refine ⟨writes_segBytes.arrives length ?_ (.inr (.inr rfl)), Tcp.checksumValid_summed (by rw [Tcp.front_length]) ?_,
    Tcp.fields_summed.2.1, offset, fields, ?_⟩
  · rw [transportMax, bufLen, vnetHdr, ethHdr]
    omega
  · rw [Tcp.segBytes, Tcp.summed_length] at length
    omega
  · rintro rfl
    rw [← fields]
    refine Tcp.decode_summed rfl (Nat.le_of_eq offset.symm) ?_ ?_
    · rw [offset, length, Tcp.hdrMin]
      omega
    · omega

theorem tcpSynack_arrives :
    TcpArrives (tcpSynackFrame srcIp mac gw srcPort dstPort seq ack dstIp) srcIp dstIp dstPort
      (Tcp.synackBytes srcPort dstPort seq ack srcIp dstIp) Tcp.synackHlen
      ⟨srcPort, seq, ack, Tcp.Flag.syn ||| Tcp.Flag.ack, []⟩ := by
  have length := @Tcp.synackBytes_length srcPort dstPort seq ack srcIp dstIp
  obtain ⟨fields, offset, -⟩ := @Tcp.segmentOf_synackBytes srcPort dstPort seq ack srcIp dstIp
  refine ⟨writes_synackBytes.arrives length (by decide) (.inr (.inr rfl)),
    Tcp.checksumValid_summed (by rw [Tcp.front_length]) ?_, Tcp.fields_summed.2.1, offset, fields, ?_⟩
  · rw [Tcp.synackBytes, Tcp.summed_length, Tcp.synackHlen] at length
    omega
  · rintro rfl
    rw [← fields]
    refine Tcp.decode_summed rfl ?_ ?_ ?_
    · rw [offset]
      decide
    · rw [offset, length]
    · rw [length]
      decide

structure UdpArrives (frame : Result (List U8)) (srcIp dstIp : Ip) (srcPort dstPort : U16) (payload udp : List U8) :
    Prop where
  arrives : Ipv4Arrives frame srcIp dstIp Ipv4.protoUdp udp
  valid : Udp.checksumValid srcIp dstIp udp
  length : word16 udp 4 = BitVec.ofNat 16 (Udp.hdr + payload.length)
  payload : udp.drop Udp.hdr = payload
  accepted : Udp.judgeAt dstPort udp srcIp dstIp = .ok ⟨srcPort, udp⟩

theorem udp_arrives (short : payload.length ≤ udpPayloadMax) :
    UdpArrives (udpFrame srcIp mac gw srcPort dstPort payload dstIp) srcIp dstIp srcPort dstPort payload
      (Udp.dgram srcPort dstPort payload srcIp dstIp) := by
  rw [udpPayloadMax] at short
  have small : Udp.hdr + payload.length ≤ 65535 := by
    rw [Udp.hdr]
    omega
  refine ⟨writes_dgram.arrives Udp.dgram_length ?_ (.inr (.inl rfl)), Udp.checksumValid_dgram small, Udp.word16_dgram.2.2.1, rfl,
    Udp.judgeAt_dgram small⟩
  rw [transportMax, bufLen, vnetHdr, ethHdr]
  omega

structure IcmpArrives (frame : Result (List U8)) (srcIp dstIp : Ip) (req icmp : List U8) : Prop where
  arrives : Ipv4Arrives frame srcIp dstIp Ipv4.protoIcmp icmp
  valid : Checksum.valid icmp
  ident : word16 icmp 4 = word16 req 4
  seq : word16 icmp 6 = word16 req 6
  data : icmp.drop Icmp.hdr = req.drop Icmp.hdr
  accepted : byteAt req 1 = 0 → Icmp.judge icmp = .ok (.echoReply (word16 req 4) (word16 req 6))

theorem icmp_arrives (long : Icmp.hdr ≤ req.length) (short : req.length ≤ transportMax) :
    IcmpArrives (icmpReplyFrame srcIp mac gw req dstIp) srcIp dstIp req (Icmp.replyBytes req) := by
  have small : req.length ≤ 65535 := Nat.le_trans short (by decide)
  obtain ⟨-, -, ident, seq, data⟩ := Icmp.fields_replyBytes long
  exact ⟨(writes_replyBytes long).arrives (Icmp.replyBytes_length long) short (.inl rfl), Icmp.valid_replyBytes long small, ident,
    seq, data, Icmp.judge_replyBytes long small⟩

end

/-- Every frame the four senders build, here from any address and port, is accepted at
its destination, and the receiver reads the fields that went in. -/
theorem frames_accepted (srcIp dstIp : Ip) (mac gw : Mac) (srcPort dstPort : U16) :
    (∀ (seq ack : U32) (flags : U8) (payload : List U8), payload.length ≤ Tcp.payloadMax → ∃ tcp,
      Writes (Tcp.writeSeg · srcPort dstPort seq ack flags payload srcIp dstIp) tcp ∧
      TcpArrives (tcpSegFrame srcIp mac gw srcPort dstPort seq ack flags payload dstIp) srcIp dstIp dstPort tcp Tcp.hdrMin
        ⟨srcPort, seq, ack, flags, payload⟩) ∧
    (∀ seq ack : U32, ∃ tcp,
      Writes (Tcp.writeSynack · srcPort dstPort seq ack srcIp dstIp) tcp ∧
      TcpArrives (tcpSynackFrame srcIp mac gw srcPort dstPort seq ack dstIp) srcIp dstIp dstPort tcp Tcp.synackHlen
        ⟨srcPort, seq, ack, Tcp.Flag.syn ||| Tcp.Flag.ack, []⟩ ∧
      Tcp.parseMss tcp Tcp.synackHlen = .ok (some Tcp.ourMss)) ∧
    (∀ payload : List U8, payload.length ≤ udpPayloadMax → ∃ udp,
      Writes (Udp.writeDgram · srcPort dstPort payload srcIp dstIp) udp ∧
      UdpArrives (udpFrame srcIp mac gw srcPort dstPort payload dstIp) srcIp dstIp srcPort dstPort payload udp) ∧
    (∀ req : List U8, Icmp.hdr ≤ req.length → req.length ≤ transportMax → ∃ icmp,
      Writes (Icmp.writeEchoReply · req) icmp ∧
      IcmpArrives (icmpReplyFrame srcIp mac gw req dstIp) srcIp dstIp req icmp) ∧
    ∀ net : Statics, Arp.lookup net.arp.cache gwIp = some gw → SendersBuild net gw dstIp dstPort := by
  refine ⟨?_, ?_, ?_, ?_, fun net known => TxCall.frame_known known dstIp dstPort⟩
  · intro seq ack flags payload short
    exact ⟨_, writes_segBytes, tcpSeg_arrives short⟩
  · intro seq ack
    exact ⟨_, writes_synackBytes, tcpSynack_arrives, Tcp.segmentOf_synackBytes.2.2⟩
  · intro payload short
    exact ⟨_, writes_dgram, udp_arrives short⟩
  · intro req long short
    exact ⟨_, writes_replyBytes long, icmp_arrives long short⟩

/-- A segment of three bytes, which is padded, from our port to the gateway. -/
theorem frames_accepted_threeBytes : ∃ tcp,
    TcpArrives (tcpSegFrame ourIp guestMac peerMac Tcp.listenPort 40000 7 9 (Tcp.Flag.ack ||| Tcp.Flag.psh) [1, 2, 3] gwIp) ourIp
      gwIp 40000 tcp Tcp.hdrMin ⟨Tcp.listenPort, 7, 9, Tcp.Flag.ack ||| Tcp.Flag.psh, [1, 2, 3]⟩ := by
  obtain ⟨tcp, -, arrives⟩ := (frames_accepted ourIp gwIp guestMac peerMac Tcp.listenPort 40000).1 7 9
    (Tcp.Flag.ack ||| Tcp.Flag.psh) [1, 2, 3] (by decide)
  exact ⟨tcp, arrives⟩

end Whimbrel.Net

import Whimbrel.Net.Arp
import Whimbrel.Net.Icmp
import Whimbrel.Net.Ipv4
import Whimbrel.Net.Udp
import Whimbrel.Tcp.Output

/-! The virtio-net driver's statics and its transmit side: `src/net.rs`.

The device completes every posted descriptor, so `wait_tx` returns. All TX goes
through buffer 0, whose first `post` bytes a builder zeroes and fills; they are
what `wire` collects. The stall diagnostics print only and are left out. -/

set_option autoImplicit false

namespace Whimbrel.Net

open Checked

def vnetHdr : Nat := 12
def ethHdr : Nat := 14
def ethTypeArp : U16 := 0x0806
def ethTypeIpv4 : U16 := 0x0800
def ethMin : Nat := 60
def txLen : Nat := vnetHdr + ethMin
def bufLen : Nat := 2048
def rxBufs : Nat := 16
def udpPayloadMax : Nat := 1472
def pingId : U16 := 1
def pingSeq : U16 := 1
def pingData : List U8 := [0x77, 0x68, 0x69, 0x6d, 0x62, 0x72, 0x65, 0x6c]
def period : Usize := 100000

inductive Drop where
  | short
  | other
  deriving DecidableEq, Repr

structure Statics where
  mac : Mac
  arp : Arp.Statics
  ipv4 : Counters Ipv4.Drop
  icmp : Counters Icmp.Drop
  udp : Counters Udp.Drop
  tcp : Tcp.Statics
  drops : Counters Drop
  rxPosted : U32
  rxCompleted : U32
  rxSeen : U16
  txPosted : U32
  txCompleted : U32
  txSeen : U16
  pingTx : Usize
  pingRx : Usize
  pingDone : Bool
  udpPending : Bool
  /-- `UDP_BUF[..UDP_LEN]`. -/
  udpData : List U8
  udpSrcIp : Ip
  udpSrcPort : U16
  udpPeer : Bool
  /-- `PHASE_STAMPS[E3G]`. -/
  e3g : Usize
  /-- What the device has read from the TX buffer, oldest first. -/
  wire : List (List U8)

/-- After `post_rx`: the statics, with the sixteen RX buffers posted. -/
def Statics.boot (mac : Mac) : Statics where
  mac := mac
  arp := .init
  ipv4 := fun _ => 0
  icmp := fun _ => 0
  udp := fun _ => 0
  tcp := .init
  drops := fun _ => 0
  rxPosted := 16
  rxCompleted := 0
  rxSeen := 0
  txPosted := 0
  txCompleted := 0
  txSeen := 0
  pingTx := 0
  pingRx := 0
  pingDone := false
  udpPending := false
  udpData := []
  udpSrcIp := .zero
  udpSrcPort := 0
  udpPeer := false
  e3g := 0
  wire := []

def fillTx (post : Nat) (build : List U8 → Result (List U8)) : Result (List U8) := do
  if bufLen < post then throw .txBuf
  let buf ← modifyFrom Panic.bounds (List.replicate bufLen 0) vnetHdr build
  return buf.take post

def Statics.after (net : Statics) (frame : List U8) : Statics :=
  { net with
    txPosted := net.txPosted + 1
    txSeen := net.txSeen + 1
    txCompleted := net.txCompleted + 1
    wire := net.wire ++ [frame] }

/-- `post_tx(0, post)`, the doorbell and `wait_tx`. -/
def Statics.posted (net : Statics) (frame : List U8) : Result Statics :=
  if frame.length = 0 then .error .txDesc else .ok (net.after frame)

def txArpReply (net : Statics) (req : Arp.RequestForUs) : Result Statics := do
  net.posted (← fillTx txLen fun f => Arp.writeReply f net.mac ourIp req)

def txArpRequest (net : Statics) : Result Statics := do
  net.posted (← fillTx txLen fun f => Arp.writeRequest f net.mac ourIp gwIp)

def writeGarp (mac : Mac) (f : List U8) : Result (List U8) :=
  copyAll f [⟨0, 6, Arp.broadcast.toList⟩, ⟨6, 12, mac.toList⟩, ⟨12, 14, beBytes16 0x0806⟩,
    ⟨14, 16, beBytes16 1⟩, ⟨16, 18, beBytes16 0x0800⟩, .at 18 6, .at 19 4, ⟨20, 22, beBytes16 1⟩,
    ⟨22, 28, mac.toList⟩, ⟨28, 32, ourIp.toList⟩, ⟨38, 42, ourIp.toList⟩]

def txGratuitousArp (net : Statics) : Result Statics := do
  net.posted (← fillTx txLen (writeGarp net.mac))

/-- The frame the IPv4 senders share: `len` bytes of transport, written by `build`. -/
def ipv4Frame (mac gw : Mac) (proto : U8) (dstIp : Ip) (len : Nat)
    (build : List U8 → Result (List U8 × Nat)) : Result (List U8) :=
  let ipTot := 20 + len
  let post := vnetHdr + max (ethHdr + ipTot) ethMin
  fillTx (BitVec.ofNat 32 post).toNat fun f => do
    let f ← copyAll f [⟨0, 6, gw.toList⟩, ⟨6, 12, mac.toList⟩, ⟨12, 14, beBytes16 ethTypeIpv4⟩]
    let f ← modifyFrom .bounds f ethHdr fun ip =>
      Ipv4.writeHeader ip (BitVec.ofNat 16 ipTot) proto ourIp dstIp
    modifyFrom .bounds f (ethHdr + 20) fun b => Prod.fst <$> build b

def txIpv4 (net : Statics) (gw : Mac) (proto : U8) (dstIp : Ip) (len : Nat)
    (build : List U8 → Result (List U8 × Nat)) : Result Statics := do
  net.posted (← ipv4Frame net.mac gw proto dstIp len build)

/-- TX does not ARP and queue. -/
def gatewayMac (net : Statics) : Result Mac :=
  match Arp.lookup net.arp.cache gwIp with
  | some mac => .ok mac
  | none => .error .noGatewayMac

def noteNoarp (net : Statics) : Statics :=
  { net with tcp := { net.tcp with drops := { net.tcp.drops with noarp := net.tcp.drops.noarp + 1 } } }

def txTcpSynack (net : Statics) (dstIp : Ip) (dstPort : U16) (seq ack : U32) : Result Statics := do
  let some gw := Arp.lookup net.arp.cache gwIp | return noteNoarp net
  txIpv4 net gw Ipv4.protoTcp dstIp 24 fun b =>
    Tcp.writeSynack b Tcp.listenPort dstPort seq ack ourIp dstIp

/-- `timer::yield_once`: `assert_ticks_armed`, then `arm`. -/
def yieldOnce (platform : Platform) (now : Usize) : Result Unit := do
  if ¬ platform.stie then throw .ticksNotArmed
  if ¬ platform.setTimer (now + period) then throw .setTimer

def segPayload (t : Tcp.Tcb) (dataLen : Nat) : Result (List U8) :=
  if dataLen = 0 then .ok [] else do
    let u ← Tcp.unackedBytes t
    if dataLen > u.length then throw .tcpDataLen
    slice u 0 dataLen

/-- The first response is stamped, and the hart yields once. -/
def stampE3g (platform : Platform) (now : Usize) (net : Statics) (dataLen : Nat) : Result Statics := do
  if dataLen > 0 ∧ net.e3g = 0 then
    yieldOnce platform now
    return { net with e3g := now }
  return net

def txTcpSeg (platform : Platform) (now : Usize) (net : Statics) (dstIp : Ip) (dstPort : U16) (seq ack : U32)
    (flags : U8) (dataLen : Nat) : Result Statics := do
  let some gw := Arp.lookup net.arp.cache gwIp | return noteNoarp net
  let payload ← segPayload net.tcp.tcb dataLen
  let net ← txIpv4 net gw Ipv4.protoTcp dstIp (20 + payload.length) fun b =>
    Tcp.writeSeg b Tcp.listenPort dstPort seq ack flags payload ourIp dstIp
  stampE3g platform now net dataLen

def txTcp (platform : Platform) (now : Usize) (net : Statics) : Tcp.Out → Result Statics
  | .none => return net
  | .synAck dstIp dstPort seq ack => txTcpSynack net dstIp dstPort seq ack
  | .seg dstIp dstPort seq ack flags dataLen => txTcpSeg platform now net dstIp dstPort seq ack flags dataLen

def txUdp (net : Statics) (payload : List U8) (dstIp : Ip) (dstPort : U16) : Result Statics := do
  let gw ← gatewayMac net
  txIpv4 net gw Ipv4.protoUdp dstIp (8 + payload.length) fun b =>
    Udp.writeDgram b Udp.echoPort dstPort payload ourIp dstIp

def txIcmpEchoReply (net : Statics) (dstIp : Ip) (req : List U8) : Result Statics := do
  let gw ← gatewayMac net
  txIpv4 net gw Ipv4.protoIcmp dstIp req.length fun b => Icmp.writeEchoReply b req

/-- The part of `ping_gateway` before its wait. -/
def pingGateway (net : Statics) (now : Usize) : Result Statics := do
  let gw ← gatewayMac net
  let net ← txIpv4 net gw Ipv4.protoIcmp gwIp (8 + pingData.length) fun b =>
    Icmp.writeEchoReq b pingId pingSeq pingData
  return { net with pingDone := false, pingTx := now }

/-! ## What a transmission does -/

def frameRoom : Nat := bufLen - vnetHdr

theorem fillTx_returns {post : Nat} {build : List U8 → Result (List U8)} (fits : post ≤ bufLen)
    (builds : ∀ f, f.length = frameRoom → Returns (build f) (·.length = frameRoom)) :
    Returns (fillTx post build) (·.length = post) := by
  unfold fillTx
  rw [if_neg (Nat.not_lt.mpr fits)]
  have room : (List.replicate bufLen (0 : U8)).length = bufLen := List.length_replicate
  refine (modifyFrom_returns _ (by rw [room]; decide) ?_).bind fun buf length => ?_
  · rw [room]
    exact builds _ (by rw [List.length_drop, room, frameRoom])
  · refine .ok ?_
    rw [List.length_take, length, room]
    exact Nat.min_eq_left fits

theorem posted_returns (net : Statics) {frame : List U8} (nonempty : 0 < frame.length) :
    Returns (net.posted frame) (· = net.after frame) := by
  rw [Statics.posted, if_neg (Nat.ne_of_gt nonempty)]
  exact .ok rfl

/-- A transmission of a frame that was built changes nothing but the TX side. -/
theorem tx_returns (net : Statics) {post : Nat} {frame : Result (List U8)} (builds : Returns frame (·.length = post))
    (nonempty : 0 < post) : Returns (frame >>= net.posted) (fun u => ∃ f, u = net.after f) :=
  builds.bind fun f length => (posted_returns net (length ▸ nonempty)).mono fun _ same => ⟨f, same⟩

theorem txArpReply_returns (net : Statics) (req : Arp.RequestForUs) :
    Returns (txArpReply net req) (fun u => ∃ f, u = net.after f) := by
  refine tx_returns net (fillTx_returns (by decide) fun f length => ?_) (by decide)
  rw [← length]
  exact Arp.writeReply_returns (by rw [length]; decide) _ _ _

def transportMax : Nat := bufLen - (vnetHdr + ethHdr + 20)

theorem ipv4Frame_returns (mac gw : Mac) (proto : U8) (dstIp : Ip) {len : Nat} {build : List U8 → Result (List U8 × Nat)}
    (fits : len ≤ transportMax)
    (builds : ∀ b, b.length = transportMax → Returns (build b) (·.1.length = transportMax)) :
    Returns (ipv4Frame mac gw proto dstIp len build) (·.length = vnetHdr + max (ethHdr + (20 + len)) ethMin) := by
  have small : vnetHdr + max (ethHdr + (20 + len)) ethMin ≤ bufLen := by
    simp only [transportMax, bufLen, vnetHdr, ethHdr, ethMin] at fits ⊢
    omega
  have exact32 : (BitVec.ofNat 32 (vnetHdr + max (ethHdr + (20 + len)) ethMin)).toNat =
      vnetHdr + max (ethHdr + (20 + len)) ethMin := by
    rw [BitVec.toNat_ofNat, Nat.mod_eq_of_lt]
    exact Nat.lt_of_le_of_lt small (by decide)
  unfold ipv4Frame
  dsimp only
  rw [exact32]
  refine fillTx_returns small fun f room => ?_
  refine (copyAll_returns _ ?_).bind fun f length => ?_
  · rw [room]
    simp [Write.Inside, frameRoom, bufLen, vnetHdr]
  rw [room] at length
  refine (modifyFrom_returns _ (by rw [length]; decide) ?_).bind fun f same => ?_
  · rw [← List.length_drop]
    exact Ipv4.writeHeader_returns (by rw [List.length_drop, length]; decide) _ _ _ _
  rw [length] at same
  rw [← same]
  refine modifyFrom_returns _ (by rw [same]; decide) ?_
  have tail : (f.drop (ethHdr + 20)).length = transportMax := by
    rw [List.length_drop, same]
    decide
  obtain ⟨b, done, kept⟩ := builds _ tail
  have left : transportMax = f.length - (ethHdr + 20) := by
    rw [same]
    decide
  exact ⟨b.1, by rw [done]; rfl, kept.trans left⟩

theorem txIpv4_returns (net : Statics) (gw : Mac) (proto : U8) (dstIp : Ip) {len : Nat}
    {build : List U8 → Result (List U8 × Nat)} (fits : len ≤ transportMax)
    (builds : ∀ b, b.length = transportMax → Returns (build b) (·.1.length = transportMax)) :
    Returns (txIpv4 net gw proto dstIp len build) (fun u => ∃ f, u = net.after f) :=
  tx_returns net (ipv4Frame_returns net.mac gw proto dstIp fits builds) (by simp only [vnetHdr]; omega)

theorem txIcmpEchoReply_returns {net : Statics} {gw : Mac} (known : Arp.lookup net.arp.cache gwIp = some gw)
    (dstIp : Ip) {req : List U8} (header : Icmp.hdr ≤ req.length) (fits : req.length ≤ transportMax) :
    Returns (txIcmpEchoReply net dstIp req) (fun u => ∃ f, u = net.after f) := by
  unfold txIcmpEchoReply gatewayMac
  rw [known]
  refine txIpv4_returns net gw _ dstIp fits fun b room => ?_
  rw [← room]
  exact Icmp.writeEchoReply_returns header (room ▸ fits)

theorem txTcpSynack_sends {net : Statics} {gw : Mac} (known : Arp.lookup net.arp.cache gwIp = some gw) (dstIp : Ip)
    (dstPort : U16) (seq ack : U32) :
    Returns (txTcpSynack net dstIp dstPort seq ack) (fun u => ∃ f, u = net.after f) := by
  unfold txTcpSynack
  rw [known]
  refine txIpv4_returns net gw _ dstIp (by decide) fun b room => ?_
  rw [← room]
  exact Tcp.writeSynack_returns (by rw [room]; decide) _ _ _ _ _ _

theorem txTcpSynack_returns (net : Statics) (dstIp : Ip) (dstPort : U16) (seq ack : U32) :
    Returns (txTcpSynack net dstIp dstPort seq ack) (fun u => u = noteNoarp net ∨ ∃ f, u = net.after f) := by
  cases known : Arp.lookup net.arp.cache gwIp with
  | none =>
    unfold txTcpSynack
    rw [known]
    exact .ok (.inl rfl)
  | some gw => exact (txTcpSynack_sends known dstIp dstPort seq ack).mono fun _ sent => .inr sent

inductive TcpSent (net : Statics) : Statics → Prop where
  | silent : TcpSent net net
  | noarp : TcpSent net (noteNoarp net)
  | frame (f : List U8) : TcpSent net (net.after f)
  | first (f : List U8) (now : Usize) : TcpSent net { net.after f with e3g := now }

/-- The segment's bytes are in the TCB, and the timer answers if the hart yields. -/
structure Sendable (platform : Platform) (now : Usize) (t : Tcp.Tcb) (dataLen : Nat) : Prop where
  bytes : dataLen ≠ 0 → ∃ bytes, Tcp.unackedBytes t = .ok bytes ∧ bytes.length = dataLen
  fits : dataLen ≤ Tcp.payloadMax
  yields : dataLen ≠ 0 → platform.stie ∧ platform.setTimer (now + period)

theorem Sendable.payload {platform : Platform} {now : Usize} {t : Tcp.Tcb} {dataLen : Nat}
    (sendable : Sendable platform now t dataLen) : Returns (segPayload t dataLen) (·.length = dataLen) := by
  unfold segPayload
  by_cases none : dataLen = 0
  · rw [if_pos none]
    exact .ok none.symm
  · obtain ⟨bytes, read, length⟩ := sendable.bytes none
    have enough : dataLen ≤ bytes.length := Nat.le_of_eq length.symm
    rw [if_neg none, read, bind_ok, if_neg (Nat.not_lt.mpr enough)]
    exact slice_returns _ (Nat.zero_le _) enough

theorem Sendable.stamp {platform : Platform} {now : Usize} {t : Tcp.Tcb} {dataLen : Nat}
    (sendable : Sendable platform now t dataLen) (net : Statics) :
    Returns (stampE3g platform now net dataLen) (fun u => u = net ∨ u = { net with e3g := now }) := by
  unfold stampE3g
  split
  · rename_i first
    obtain ⟨stie, timer⟩ := sendable.yields (Nat.ne_of_gt first.1)
    rw [yieldOnce, if_neg (not_not_intro stie), if_neg (not_not_intro timer)]
    exact .ok (.inr rfl)
  · exact .ok (.inl rfl)

theorem txTcpSeg_sends {platform : Platform} {now : Usize} {net : Statics} {dataLen : Nat} {gw : Mac}
    (known : Arp.lookup net.arp.cache gwIp = some gw) (sendable : Sendable platform now net.tcp.tcb dataLen) (dstIp : Ip)
    (dstPort : U16) (seq ack : U32) (flags : U8) :
    Returns (txTcpSeg platform now net dstIp dstPort seq ack flags dataLen)
      (fun u => ∃ f, u = net.after f ∨ u = { net.after f with e3g := now }) := by
  unfold txTcpSeg
  rw [known]
  refine sendable.payload.bind fun payload length => ?_
  have fits : 20 + payload.length ≤ transportMax := by
    have bound := sendable.fits
    rw [Tcp.payloadMax, ← length] at bound
    rw [show transportMax = 2002 from rfl]
    omega
  refine (txIpv4_returns net gw _ dstIp fits fun b room => ?_).bind fun u sent => ?_
  · rw [← room]
    exact Tcp.writeSeg_returns (room ▸ fits) _ _ _ _ _ _ _
  · obtain ⟨f, rfl⟩ := sent
    exact (sendable.stamp _).mono fun v stamped => ⟨f, stamped⟩

theorem txTcpSeg_returns {platform : Platform} {now : Usize} {net : Statics} {dataLen : Nat}
    (sendable : Sendable platform now net.tcp.tcb dataLen) (dstIp : Ip) (dstPort : U16) (seq ack : U32) (flags : U8) :
    Returns (txTcpSeg platform now net dstIp dstPort seq ack flags dataLen) (TcpSent net) := by
  cases known : Arp.lookup net.arp.cache gwIp with
  | none =>
    unfold txTcpSeg
    rw [known]
    exact .ok .noarp
  | some gw =>
    refine (txTcpSeg_sends known sendable dstIp dstPort seq ack flags).mono fun u sent => ?_
    obtain ⟨f, rfl | rfl⟩ := sent
    · exact .frame f
    · exact .first f now

end Whimbrel.Net

import Whimbrel.Net.Queues

/-! Whom a transmitted frame is addressed to, read from its bytes. -/

set_option autoImplicit false

namespace Whimbrel.Net

open Checked

inductive Transport where
  | tcp
  | udp
  deriving DecidableEq, Repr

structure Endpoint where
  transport : Transport
  ip : Ip
  port : U16
  deriving DecidableEq, Repr

/-- The destination of a frame in the TX buffer, after the virtio and Ethernet headers. -/
def addressee (frame : List U8) : Option Endpoint :=
  let ip := frame.drop (vnetHdr + ethHdr)
  if byteAt ip 9 = Ipv4.protoTcp then some ⟨.tcp, ipAt ip 16, word16 ip 22⟩
  else if byteAt ip 9 = Ipv4.protoUdp then some ⟨.udp, ipAt ip 16, word16 ip 22⟩
  else none

section
variable {net u : Statics} {platform : Platform} {now : Usize}

theorem writeHeader_bytes {ip hdr : List U8} {total : U16} {proto : U8} {src dst : Ip}
    (done : Ipv4.writeHeader ip total proto src dst = .ok hdr) : byteAt hdr 9 = proto ∧ ipAt hdr 16 = dst := by
  unfold Ipv4.writeHeader at done
  split at done
  · cases done
  obtain ⟨filled, copied, done⟩ := bind_eq_ok done
  obtain ⟨_, -, done⟩ := bind_eq_ok done
  have read (i : Nat) : byteAt hdr i = if 10 ≤ i ∧ i < 12 then _ else byteAt filled i := copyFromSlice_getD done i 0
  have wrote (i : Nat) : byteAt filled i = Write.readAt i (byteAt ip i) _ := copyAll_getD copied i 0
  constructor
  · rw [read, if_neg (by decide), wrote]
    rfl
  · simp only [ipAt]
    rw [read, read, read, read, if_neg (by decide), if_neg (by decide), if_neg (by decide), if_neg (by decide),
      wrote, wrote, wrote, wrote]
    rfl

theorem port_of_writes {dst filled stored sum : List U8} {ws : List (Write U8)} {lo hi : Nat} {port : U16}
    (copied : copyAll dst ws = .ok filled) (summed : copyIn filled lo hi sum = .ok stored) (away : 4 ≤ lo)
    (wrote : ∀ a b, Write.readAt 2 a ws = port.extractLsb' 8 8 ∧ Write.readAt 3 b ws = port.extractLsb' 0 8) :
    word16 stored 2 = port := by
  have kept (i : Nat) (low : i < 4) : byteAt stored i = Write.readAt i (byteAt dst i) ws := by
    have read : byteAt stored i = if lo ≤ i ∧ i < hi then _ else byteAt filled i := copyFromSlice_getD summed i 0
    rw [read, if_neg (by omega)]
    exact copyAll_getD copied i 0
  rw [word16, kept 2 (by decide), kept 3 (by decide), (wrote _ 0).1, (wrote 0 _).2, beBytes16_append]

theorem writeDgram_port {dst payload : List U8} {srcPort dstPort : U16} {srcIp dstIp : Ip} {r : List U8 × Nat}
    (done : Udp.writeDgram dst srcPort dstPort payload srcIp dstIp = .ok r) : word16 r.1 2 = dstPort := by
  unfold Udp.writeDgram at done
  dsimp only at done
  split at done
  · cases done
  obtain ⟨filled, copied, done⟩ := bind_eq_ok done
  obtain ⟨_, -, done⟩ := bind_eq_ok done
  obtain ⟨stored, summed, done⟩ := bind_eq_ok done
  cases done
  exact port_of_writes copied summed (by decide) fun _ _ => ⟨rfl, rfl⟩

theorem writeSeg_port {dst payload : List U8} {srcPort dstPort : U16} {seq ack : U32} {flags : U8} {srcIp dstIp : Ip}
    {r : List U8 × Nat} (done : Tcp.writeSeg dst srcPort dstPort seq ack flags payload srcIp dstIp = .ok r) :
    word16 r.1 2 = dstPort := by
  unfold Tcp.writeSeg at done
  dsimp only at done
  split at done
  · cases done
  obtain ⟨filled, copied, done⟩ := bind_eq_ok done
  obtain ⟨_, -, done⟩ := bind_eq_ok done
  obtain ⟨stored, summed, done⟩ := bind_eq_ok done
  cases done
  refine port_of_writes copied summed (by decide) fun _ _ => ?_
  by_cases some : payload ≠ []
  · rw [if_pos some]
    exact ⟨rfl, rfl⟩
  · rw [if_neg some]
    exact ⟨rfl, rfl⟩

theorem byteAt_header {buf eth hdr body : List U8} {post i : Nat} (enough : 72 ≤ post) (front : buf.length = vnetHdr)
    (long : ethHdr ≤ eth.length) (room : ethHdr + 20 ≤ (eth.take ethHdr ++ hdr).length) (low : i < 20) :
    byteAt (((buf ++ ((eth.take ethHdr ++ hdr).take (ethHdr + 20) ++ body)).take post).drop (vnetHdr + ethHdr)) i =
      byteAt hdr i := by
  rw [vnetHdr] at *
  rw [ethHdr] at *
  have start : (eth.take 14).length = 14 := by rw [List.length_take]; omega
  have header : ((eth.take 14 ++ hdr).take (14 + 20)).length = 34 := by rw [List.length_take]; omega
  simp only [byteAt, List.getD]
  rw [List.getElem?_drop, List.getElem?_take_of_lt (by omega), List.getElem?_append_right (by omega), front,
    List.getElem?_append_left (by omega), List.getElem?_take_of_lt (by omega), List.getElem?_append_right (by omega),
    start]
  congr 2
  omega

theorem byteAt_transport {buf ip body : List U8} {post i : Nat} (enough : 72 ≤ post) (front : buf.length = vnetHdr)
    (room : ethHdr + 20 ≤ ip.length) (low : i < 4) :
    byteAt (((buf ++ (ip.take (ethHdr + 20) ++ body)).take post).drop (vnetHdr + ethHdr)) (20 + i) = byteAt body i := by
  rw [vnetHdr] at *
  rw [ethHdr] at *
  have header : (ip.take (14 + 20)).length = 34 := by rw [List.length_take]; omega
  simp only [byteAt, List.getD]
  rw [List.getElem?_drop, List.getElem?_take_of_lt (by omega), List.getElem?_append_right (by omega), front,
    List.getElem?_append_right (by omega), header]
  congr 2
  omega

def Transport.proto : Transport → U8
  | .tcp => Ipv4.protoTcp
  | .udp => Ipv4.protoUdp

/-- The frame of an IPv4 sender is addressed as the sender was told. -/
theorem ipv4Frame_addressee {mac gw : Mac} {t : Transport} {dstIp : Ip} {port : U16} {len : Nat}
    {build : List U8 → Result (List U8 × Nat)} {frame : List U8} (small : len < 2 ^ 16)
    (ports : ∀ b r, build b = .ok r → word16 r.1 2 = port)
    (done : ipv4Frame mac gw t.proto dstIp len build = .ok frame) : addressee frame = some ⟨t, dstIp, port⟩ := by
  -- Also a short frame is padded far enough for every field that is read.
  have post : 72 ≤ (BitVec.ofNat 32 (vnetHdr + max (ethHdr + (20 + len)) ethMin)).toNat := by
    simp only [BitVec.toNat_ofNat, vnetHdr, ethHdr, ethMin]
    omega
  unfold ipv4Frame fillTx at done
  dsimp only at done
  split at done
  · cases done
  obtain ⟨buf, filled, done⟩ := bind_eq_ok done
  obtain ⟨-, f, built, rfl⟩ := modifyFrom_eq_ok filled
  cases done
  obtain ⟨eth, -, built⟩ := bind_eq_ok built
  obtain ⟨withIp, header, built⟩ := bind_eq_ok built
  obtain ⟨long, hdr, wrote, rfl⟩ := modifyFrom_eq_ok header
  obtain ⟨room, body, transport, rfl⟩ := modifyFrom_eq_ok built
  obtain ⟨r, ran, rfl⟩ := map_eq_ok transport
  obtain ⟨proto, dst⟩ := writeHeader_bytes wrote
  have front : ((List.replicate bufLen (0 : U8)).take vnetHdr).length = vnetHdr := by
    rw [List.length_take, List.length_replicate]
    rfl
  have head {i : Nat} (low : i < 20) := @byteAt_header _ eth hdr r.1 _ i post front long room low
  have tail {i : Nat} (low : i < 4) := @byteAt_transport _ _ r.1 _ i post front room low
  have there := ports _ _ ran
  unfold addressee
  dsimp only
  unfold ipAt at dst ⊢
  unfold word16 at there ⊢
  rw [head (by decide : 9 < 20), head (by decide : 16 < 20), head (by decide : 16 + 1 < 20), head (by decide : 16 + 2 < 20),
    head (by decide : 16 + 3 < 20), tail (by decide : 2 < 4), tail (by decide : 2 + 1 < 4), proto, dst, there]
  cases t <;> rfl

theorem posted_eq {frame : Result (List U8)} (done : (frame >>= net.posted) = .ok u) :
    ∃ f, frame = .ok f ∧ u = net.after f := by
  obtain ⟨f, built, done⟩ := bind_eq_ok done
  unfold Statics.posted at done
  split at done
  · cases done
  · cases done
    exact ⟨f, built, rfl⟩

theorem txUdp_addressee {payload : List U8} {dstIp : Ip} {dstPort : U16} (small : payload.length < 2 ^ 15)
    (done : txUdp net payload dstIp dstPort = .ok u) :
    ∃ frame, u = net.after frame ∧ addressee frame = some ⟨.udp, dstIp, dstPort⟩ := by
  obtain ⟨gw, -, done⟩ := bind_eq_ok done
  obtain ⟨frame, built, rfl⟩ := posted_eq done
  exact ⟨frame, rfl, @ipv4Frame_addressee _ _ .udp _ _ _ _ _ (by omega) (fun _ _ => writeDgram_port) built⟩

theorem segPayload_length {t : Tcp.Tcb} {dataLen : Nat} {payload : List U8} (done : segPayload t dataLen = .ok payload) :
    payload.length ≤ Tcp.payloadMax := by
  unfold segPayload at done
  split at done
  · cases done
    exact Nat.zero_le _
  · obtain ⟨bytes, read, done⟩ := bind_eq_ok done
    split at done
    · cases done
    · have stored := slice_length_le read
      rw [t.unacked.full] at stored
      exact Nat.le_trans (slice_length_le done) stored

theorem txTcpSeg_addressee {dstIp : Ip} {dstPort : U16} {seq ack : U32} {flags : U8} {dataLen : Nat}
    (done : txTcpSeg platform now net dstIp dstPort seq ack flags dataLen = .ok u) :
    if Arp.lookup net.arp.cache gwIp = none then u.wire = net.wire
    else ∃ frame, u.wire = net.wire ++ [frame] ∧ addressee frame = some ⟨.tcp, dstIp, dstPort⟩ := by
  unfold txTcpSeg at done
  cases known : Arp.lookup net.arp.cache gwIp with
  | none =>
    simp only [known] at done
    cases done
    rfl
  | some gw =>
    simp only [known] at done
    obtain ⟨payload, cut, done⟩ := bind_eq_ok done
    obtain ⟨v, sent, done⟩ := bind_eq_ok done
    obtain ⟨frame, built, rfl⟩ := posted_eq sent
    have small := segPayload_length cut
    have wire : u.wire = net.wire ++ [frame] := by
      unfold stampE3g at done
      split at done
      · obtain ⟨_, -, done⟩ := bind_eq_ok done
        cases done
        rfl
      · cases done
        rfl
    rw [if_neg (by simp)]
    rw [Tcp.payloadMax] at small
    exact ⟨frame, wire, @ipv4Frame_addressee _ _ .tcp _ _ _ _ _ (by omega) (fun _ _ => writeSeg_port) built⟩

end

end Whimbrel.Net

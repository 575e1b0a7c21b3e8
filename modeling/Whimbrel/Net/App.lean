import Whimbrel.Net.Rx

/-! The application's side of the stack: when a send or a retransmission returns. -/

set_option autoImplicit false

namespace Whimbrel

/-- `timer::init` has set `sie.STIE`, the firmware takes every deadline, and
`sbi_system_reset` does not return. -/
structure Platform.Answers (platform : Platform) : Prop where
  stie : platform.stie
  setTimer : ∀ deadline, platform.setTimer deadline
  shutdown : platform.shutdown

namespace Net

open Checked

section
variable {cfg : Config} {platform : Platform} {net : Statics} {now : Usize}

theorem sendable_flight (answers : platform.Answers) {t : Tcp.Tcb} (inv : Tcp.TcbInv t) {dataLen : Nat}
    (flight : 0 < dataLen → dataLen = t.unackedLen) : Sendable platform now t dataLen where
  bytes real := by
    refine ⟨_, inv.unackedBytes_eq, ?_⟩
    rw [List.length_take, t.unacked.full, flight (Nat.pos_of_ne_zero real)]
    exact Nat.min_eq_left inv.unackedLen_le
  fits := by
    rcases Nat.eq_zero_or_pos dataLen with rfl | real
    · exact Nat.zero_le _
    · rw [flight real]
      exact inv.unackedLen_le
  yields _ := ⟨answers.stie, answers.setTimer _⟩

/-- Whatever an operation of the TCB emits can be transmitted. -/
theorem txTcp_sends (answers : platform.Answers) (inv : Tcp.TcbInv net.tcp.tcb) {s : Tcp.Tcb} {out : Tcp.Out}
    {events : List Tcp.Event} (emits : Tcp.Emits s net.tcp.tcb out events) :
    Returns (txTcp platform now net out) (TcpSent net) := by
  cases out with
  | none => exact .ok .silent
  | synAck => exact txTcp_returns trivial
  | seg => exact txTcpSeg_returns (sendable_flight answers inv emits.dataLen) _ _ _ _ _

theorem tcpOp_sends (answers : platform.Answers) (inv : Inv net) {op : Tcp.Op} {tcp : Tcp.Statics} {l : Tcp.Label}
    (done : Tcp.exec cfg net.tcp op = .ok (tcp, l)) :
    Returns (txTcp platform now { net with tcp } l.out) (fun _ => True) := by
  have step : Tcp.Step cfg net.tcp l tcp := by rw [Tcp.Step, Tcp.exec_op done, done]
  have next : Tcp.TcbInv tcp.tcb := .run (.single step) inv.tcb
  exact (@txTcp_sends platform { net with tcp } now answers next _ _ _ step.emits).mono fun _ _ => trivial

theorem pumpTcp_returns (answers : platform.Answers) (inv : Inv net) :
    Returns (pumpTcp cfg platform net now) (fun _ => True) := by
  obtain ⟨tcp, l, done, -⟩ := Tcp.exec_total cfg net.tcp (.checkRto now)
  unfold pumpTcp
  rw [done]
  exact tcpOp_sends answers inv done

theorem tcpSend_returns (answers : platform.Answers) (inv : Inv net) (payload : List U8) (flags : Usize) :
    Returns (tcpSend cfg platform net now payload flags)
      (fun r => r.2 = Tcp.takesSend net.tcp.tcb payload.length ∧ (r.2 = false → r.1 = net)) := by
  obtain ⟨tcp, l, done, -⟩ := Tcp.exec_total cfg net.tcp (.appSend now payload (flags &&& 1 ≠ 0))
  unfold tcpSend
  rw [done, bind_ok]
  have sends : Returns (txTcp platform now { net with tcp } l.out) fun _ => True := tcpOp_sends answers inv done
  cases takes : Tcp.takesSend net.tcp.tcb payload.length with
  | false =>
    simp only [Tcp.exec, Tcp.appSend_refused takes] at done
    cases done
    exact .ok ⟨rfl, fun _ => rfl⟩
  | true =>
    have some : l.out ≠ .none := by
      cases done
      exact Tcp.appSend_taken takes
    dsimp only
    rw [if_neg some]
    exact sends.bind fun u _ => .ok ⟨rfl, fun no => absurd no (by simp)⟩

def udpRoom : Nat := transportMax - Udp.hdr

theorem txUdp_ok_iff {payload : List U8} (small : payload.length < 2 ^ 16) (dstIp : Ip) (dstPort : U16) :
    (∃ u, txUdp net payload dstIp dstPort = .ok u) ↔
      Arp.lookup net.arp.cache gwIp ≠ none ∧ payload.length ≤ udpRoom := by
  unfold txUdp gatewayMac
  cases known : Arp.lookup net.arp.cache gwIp with
  | none => exact ⟨fun ⟨_, done⟩ => (by cases done), fun ⟨gw, _⟩ => absurd rfl gw⟩
  | some gw =>
    rw [bind_ok]
    constructor
    · rintro ⟨u, done⟩
      refine ⟨by simp, ?_⟩
      obtain ⟨frame, built, -⟩ := bind_eq_ok done
      -- The only check that refuses is the bound of the buffer.
      unfold ipv4Frame fillTx at built
      dsimp only at built
      split at built
      · cases built
      · rename_i fits
        simp only [bufLen, vnetHdr, ethHdr, ethMin, BitVec.toNat_ofNat] at fits
        simp only [udpRoom, transportMax, bufLen, vnetHdr, ethHdr, Udp.hdr]
        omega
    · rintro ⟨-, fits⟩
      have room : 8 + payload.length ≤ transportMax := by
        simp only [udpRoom, transportMax, bufLen, vnetHdr, ethHdr, Udp.hdr] at fits ⊢
        omega
      have builds (b : List U8) (length : b.length = transportMax) :
          Returns (Udp.writeDgram b Udp.echoPort dstPort payload ourIp dstIp) (·.1.length = transportMax) := by
        rw [← length]
        exact Udp.writeDgram_returns (by rw [length]; exact room) _ _ _ _
      obtain ⟨u, done, -⟩ := txIpv4_returns net gw Ipv4.protoUdp dstIp room builds
      exact ⟨u, done⟩

theorem udpSend_ok_iff {payload : List U8} (small : payload.length < 2 ^ 16) :
    (∃ r, udpSend net payload = .ok r) ↔
      (net.udpPeer → Arp.lookup net.arp.cache gwIp ≠ none ∧ payload.length ≤ udpRoom) := by
  unfold udpSend
  by_cases peer : net.udpPeer
  · rw [if_neg (not_not.mpr peer), imp_iff_right peer, ← txUdp_ok_iff small net.udpSrcIp net.udpSrcPort]
    constructor
    · rintro ⟨r, done⟩
      obtain ⟨u, sent, -⟩ := bind_eq_ok done
      exact ⟨u, sent⟩
    · rintro ⟨u, sent⟩
      exact ⟨(u, true), by rw [sent]; rfl⟩
  · rw [if_pos peer]
    exact ⟨fun _ known => absurd known peer, fun _ => ⟨_, rfl⟩⟩

end

end Net

end Whimbrel

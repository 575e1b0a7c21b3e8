import Whimbrel.Net.RoundTrip
import Whimbrel.Tcp.Drops

/-! The drop counters of the whole stack, and the frames that none of them counts.

`Accounted` is what the stack promises of a received frame: it is taken in, or one counter
grows by one. `silent` names the frames for which neither happens, from the state before
them: a UDP payload that does not fit or finds the queue full, an echo reply that answers
no ping, and the segments the TCB ignores. -/

set_option autoImplicit false

namespace Whimbrel.Net

open Checked Transition

inductive DropSite where
  | net (d : Drop)
  | arp (d : Arp.Drop)
  | ipv4 (d : Ipv4.Drop)
  | icmp (d : Icmp.Drop)
  | udp (d : Udp.Drop)
  | tcp (d : Tcp.Drop)
  deriving DecidableEq, Repr

def Statics.dropped (net : Statics) : Counters DropSite
  | .net d => net.drops d
  | .arp d => net.arp.drops d
  | .ipv4 d => net.ipv4 d
  | .icmp d => net.icmp d
  | .udp d => net.udp d
  | .tcp d => net.tcp.drops.count d

theorem dropped_bump {R : Type} [DecidableEq R] {site : R → DropSite} (injective : Function.Injective site)
    {net u : Statics} {d : R} (inside : ∀ r, u.dropped (site r) = Counters.bump (fun r => net.dropped (site r)) d r)
    (outside : ∀ s, (∀ r, s ≠ site r) → u.dropped s = net.dropped s) : u.dropped = net.dropped.bump (site d) := by
  funext s
  by_cases here : ∃ r, s = site r
  · obtain ⟨r, rfl⟩ := here
    rw [inside, Counters.bump, Counters.bump]
    by_cases same : r = d
    · rw [same, Function.update_self, Function.update_self]
    · rw [Function.update_of_ne same, Function.update_of_ne (injective.ne same)]
  · rw [not_exists] at here
    rw [outside s here, Counters.bump, Function.update_of_ne (here d)]

theorem ne_bump {R : Type} [DecidableEq R] (drops : Counters R) (d : R) : drops ≠ drops.bump d := by
  intro same
  have grown := congrFun same d
  rw [Counters.bump, Function.update_self] at grown
  bv_omega

section
variable (net : Statics)

theorem dropped_net (d : Drop) : { net with drops := net.drops.bump d }.dropped = net.dropped.bump (.net d) :=
  dropped_bump (fun _ _ => DropSite.net.inj) (fun _ => rfl) fun s other => by
    cases s <;> first | rfl | exact absurd rfl (other _)

theorem dropped_arp (d : Arp.Drop) : { net with arp := net.arp.drop d }.dropped = net.dropped.bump (.arp d) :=
  dropped_bump (fun _ _ => DropSite.arp.inj) (fun _ => rfl) fun s other => by
    cases s <;> first | rfl | exact absurd rfl (other _)

theorem dropped_ipv4 (d : Ipv4.Drop) : { net with ipv4 := net.ipv4.bump d }.dropped = net.dropped.bump (.ipv4 d) :=
  dropped_bump (fun _ _ => DropSite.ipv4.inj) (fun _ => rfl) fun s other => by
    cases s <;> first | rfl | exact absurd rfl (other _)

theorem dropped_icmp (d : Icmp.Drop) : { net with icmp := net.icmp.bump d }.dropped = net.dropped.bump (.icmp d) :=
  dropped_bump (fun _ _ => DropSite.icmp.inj) (fun _ => rfl) fun s other => by
    cases s <;> first | rfl | exact absurd rfl (other _)

theorem dropped_udp (d : Udp.Drop) : { net with udp := net.udp.bump d }.dropped = net.dropped.bump (.udp d) :=
  dropped_bump (fun _ _ => DropSite.udp.inj) (fun _ => rfl) fun s other => by
    cases s <;> first | rfl | exact absurd rfl (other _)

theorem dropped_tcp {tcp : Tcp.Statics} {d : Tcp.Drop} (once : tcp.drops.count = net.tcp.drops.count.bump d) :
    { net with tcp }.dropped = net.dropped.bump (.tcp d) :=
  dropped_bump (fun _ _ => DropSite.tcp.inj) (congrFun once) fun s other => by
    cases s <;> first | rfl | exact absurd rfl (other _)

end

/-! ## What is promised of a frame -/

/-- The frame was taken in: learned from, answered, matched with the ping, queued, or given
to the TCB, which moved or was acknowledged. -/
inductive Accepted (net : Statics) (frame : List U8) (u : Statics) : Prop where
  | learned {event : Arp.Event} {sender : Arp.RequestForUs} (isArp : word16 frame 12 = ethTypeArp)
      (judged : Arp.judge frame ourIp = .ok (event, sender))
      (cache : u.arp.cache = Arp.learn net.arp.cache sender.spa sender.sha)
  | answered (f : List U8) (sent : u.wire = net.wire ++ [f])
  | pinged (waiting : net.pingDone = false) (done : u.pingDone = true)
  | queued (free : net.udpPending = false) (full : u.udpPending = true)
  | moved (tcb : u.tcp.tcb ≠ net.tcp.tcb)
  | acknowledged {d : Ipv4.Datagram} {g : Tcp.Segment} (isIpv4 : word16 frame 12 = ethTypeIpv4)
      (datagram : Ipv4.judge frame ourIp = .ok d) (isTcp : d.proto = Ipv4.protoTcp)
      (segment : Tcp.decode d.payload d.src ourIp = .ok g) (pure : Tcp.PureAck net.tcp.tcb d.src g)

/-- Exactly one counter grew, by one; or none did, and the frame was accepted. -/
inductive Accounted (net : Statics) (c : Completion) (u : Statics) : Prop where
  | counted (site : DropSite) (once : u.dropped = net.dropped.bump site)
  | accepted {frame : List U8} (has : c.frame = some frame) (same : u.dropped = net.dropped)
      (accepted : Accepted net frame u)

def silentUdp (net : Statics) (d : Ipv4.Datagram) : Bool :=
  match Udp.judge d.payload d.src ourIp with
  | .ok echo => udpPayloadMax < echo.raw.length - Udp.hdr || net.udpPending
  | .error _ => false

def silentTcp (cfg : Config) (net : Statics) (d : Ipv4.Datagram) : Bool :=
  Arp.lookup net.arp.cache gwIp ≠ none && match Tcp.decode d.payload d.src ourIp with
    | .ok g => Tcp.Ignored cfg net.tcp.tcb d.src g
    | .error _ => false

def silentIcmp (net : Statics) (d : Ipv4.Datagram) : Bool :=
  match Icmp.judge d.payload with
  | .ok (.echoReply id seq) => ¬ (id = pingId ∧ seq = pingSeq ∧ ¬ net.pingDone)
  | _ => false

/-- The frame is neither accepted nor counted. -/
def silent (cfg : Config) (net : Statics) (frame : List U8) : Bool :=
  word16 frame 12 = ethTypeIpv4 && match Ipv4.judge frame ourIp with
    | .ok d =>
      if d.proto = Ipv4.protoUdp then silentUdp net d
      else if d.proto = Ipv4.protoTcp then silentTcp cfg net d
      else silentIcmp net d
    | .error _ => false

def Completion.Silent (c : Completion) (cfg : Config) (net : Statics) : Prop := ∃ frame ∈ c.frame, silent cfg net frame

instance (c : Completion) (cfg : Config) (net : Statics) : Decidable (c.Silent cfg net) :=
  inferInstanceAs (Decidable (∃ frame ∈ c.frame, silent cfg net frame))

section
variable {cfg : Config} {platform : Platform} {net u : Statics} {c : Completion} {frame : List U8} {d : Ipv4.Datagram}
  {now : Usize}

/-! ## Frames that are not silent -/

theorem Accounted.after (has : c.frame = some frame) {f : List U8} (same : u.dropped = net.dropped)
    (wire : u.wire = net.wire) : Accounted net c (u.after f) := by
  refine .accepted has same (.answered f ?_)
  rw [← wire]
  rfl

theorem classifyUdp_accounted (has : c.frame = some frame) (heard : silentUdp net d = false) :
    Returns (classifyUdp net d) (Accounted net c) := by
  unfold silentUdp at heard
  unfold classifyUdp
  rw [Udp.parse_eq]
  cases judged : Udp.judge d.payload d.src ourIp with
  | error r => exact .ok (.counted (.udp r) (dropped_udp net r))
  | ok echo =>
    simp only [judged, Bool.or_eq_false_iff, decide_eq_false_iff_not] at heard
    simp only [settle, bind_ok]
    refine (slice_returns _ (Udp.raw_of_judge judged) (Nat.le_refl _)).bind fun payload length => ?_
    rw [if_neg (by rw [length]; exact heard.1), if_neg (by rw [heard.2]; decide)]
    exact .ok (.accepted has rfl (.queued heard.2 rfl))

theorem classifyIcmp_accounted (has : c.frame = some frame) (fits : d.payload.length ≤ transportMax)
    (answerable : ∀ id seq raw, Icmp.judge d.payload = .ok (.echoReq id seq raw) →
      Arp.lookup net.arp.cache gwIp ≠ none) (heard : silentIcmp net d = false) :
    Returns (classifyIcmp now net d) (Accounted net c) := by
  unfold silentIcmp at heard
  unfold classifyIcmp
  rw [Icmp.parse_eq]
  cases judged : Icmp.judge d.payload with
  | error r => exact .ok (.counted (.icmp r) (dropped_icmp net r))
  | ok msg =>
    simp only [settle, bind_ok]
    cases msg with
    | echoReq ident seq raw =>
      obtain ⟨gw, known⟩ := Option.ne_none_iff_exists'.mp (answerable ident seq raw judged)
      obtain ⟨rfl, header⟩ := Icmp.raw_of_judge judged
      have sent := @txIcmpEchoReply_returns { net with icmp := net.icmp } gw known d.src _ header fits
      refine sent.mono ?_
      rintro u ⟨f, rfl⟩
      exact .after has rfl rfl
    | echoReply ident seq =>
      simp only [judged, decide_eq_false_iff_not, not_not] at heard
      dsimp only
      rw [if_pos heard]
      exact .ok (.accepted has rfl (.pinged (Bool.eq_false_iff.mpr heard.2.2) rfl))

theorem txTcp_answers {gw : Mac} (known : Arp.lookup net.arp.cache gwIp = some gw) {out : Tcp.Out} (bare : out.Bare)
    (some : out ≠ .none) : Returns (txTcp platform now net out) fun u => ∃ f, u = net.after f ∨ u = { net.after f with e3g := now } := by
  cases out with
  | none => exact absurd rfl some
  | synAck dstIp dstPort seq ack =>
    exact (txTcpSynack_sends known dstIp dstPort seq ack).mono fun _ ⟨f, sent⟩ => ⟨f, .inl sent⟩
  | seg dstIp dstPort seq ack flags dataLen =>
    cases (bare : dataLen = 0)
    exact txTcpSeg_sends known ⟨fun real => absurd rfl real, Nat.zero_le _, fun real => absurd rfl real⟩ _ _ _ _ _

theorem txTcp_dropped {gw : Mac} (known : Arp.lookup net.arp.cache gwIp = some gw) {out : Tcp.Out} (bare : out.Bare) :
    Returns (txTcp platform now net out) fun u => u.dropped = net.dropped ∧ u.tcp = net.tcp ∧
      (out ≠ .none → ∃ f, u.wire = net.wire ++ [f]) := by
  by_cases quiet : out = .none
  · rw [quiet]
    exact .ok ⟨rfl, rfl, fun some => absurd rfl some⟩
  · refine (txTcp_answers known bare quiet).mono fun u sent => ?_
    obtain ⟨f, rfl | rfl⟩ := sent <;> exact ⟨rfl, rfl, fun _ => ⟨f, rfl⟩⟩

theorem classifyTcp_accounted (has : c.frame = some frame) (isIpv4 : word16 frame 12 = ethTypeIpv4)
    (datagram : Ipv4.judge frame ourIp = .ok d) (isTcp : d.proto = Ipv4.protoTcp) (heard : silentTcp cfg net d = false) :
    Returns (classifyTcp cfg platform now net d) (Accounted net c) := by
  unfold classifyTcp
  by_cases missing : Arp.lookup net.arp.cache gwIp = none
  · rw [if_pos missing]
    exact .ok (.counted (.tcp .noarp) (dropped_tcp net (Tcp.Drops.count_noarp _)))
  rw [if_neg missing]
  obtain ⟨gw, known⟩ := Option.ne_none_iff_exists'.mp missing
  obtain ⟨tcp, l, done, -⟩ := Tcp.exec_total cfg net.tcp (.handle now d.payload d.src ourIp)
  rw [done, bind_ok]
  have sent := @txTcp_dropped platform { net with tcp } now gw known l.out (Tcp.handle_bare done)
  refine sent.mono fun u ⟨dropped, same, wire⟩ => ?_
  cases decoded : Tcp.decode d.payload d.src ourIp with
  | error r =>
    obtain ⟨rfl, -⟩ := Tcp.exec_rejected decoded done
    exact .counted (.tcp r.drop) (dropped.trans (dropped_tcp net (net.tcp.reject_count r)))
  | ok g =>
    have seen : ¬ Tcp.Ignored cfg net.tcp.tcb d.src g := by
      simpa [silentTcp, missing, decoded] using heard
    -- The transmission of an answer moves no counter.
    have uncounted (drops : tcp.drops = net.tcp.drops) : u.dropped = net.dropped := by
      rw [dropped]
      funext site
      cases site with
      | tcp site => exact congrArg (fun drops => Tcp.Drops.count drops site) drops
      | net | arp | ipv4 | icmp | udp => rfl
    cases Tcp.exec_handled decoded seen done with
    | counted site once => exact .counted (.tcp site) (dropped.trans (dropped_tcp net once))
    | moved drops tcb =>
      refine .accepted has (uncounted drops) (.moved ?_)
      rw [same]
      exact tcb
    | answered drops out =>
      obtain ⟨f, sent⟩ := wire out
      exact .accepted has (uncounted drops) (.answered f sent)
    | acknowledged drops pure =>
      exact .accepted has (uncounted drops) (.acknowledged isIpv4 datagram isTcp decoded pure)

theorem classifyIpv4_accounted (has : c.frame = some frame) (isIpv4 : word16 frame 12 = ethTypeIpv4)
    (answerable : isEchoRequest frame → Arp.lookup net.arp.cache gwIp ≠ none) (heard : silent cfg net frame = false) :
    Returns (classifyIpv4 cfg platform now net frame) (Accounted net c) := by
  unfold classifyIpv4
  rw [Ipv4.parse_eq]
  cases judged : Ipv4.judge frame ourIp with
  | error r => exact .ok (.counted (.ipv4 r) (dropped_ipv4 net r))
  | ok d =>
    obtain ⟨protos, length⟩ := Ipv4.of_judge judged
    simp only [silent, isIpv4, judged, decide_true, Bool.true_and] at heard
    simp only [settle, bind_ok]
    by_cases isUdp : d.proto = Ipv4.protoUdp
    · rw [if_pos isUdp] at heard ⊢
      exact classifyUdp_accounted has heard
    rw [if_neg isUdp] at heard ⊢
    by_cases isTcp : d.proto = Ipv4.protoTcp
    · rw [if_pos isTcp] at heard ⊢
      exact classifyTcp_accounted has isIpv4 judged isTcp heard
    rw [if_neg isTcp] at heard ⊢
    -- `parse` lets three protocols through, and two of them are done.
    have icmp : d.proto = Ipv4.protoIcmp := by tauto
    have fits : d.payload.length ≤ transportMax := by
      have short := c.frame_length has
      simp only [frameRoom, transportMax, bufLen, vnetHdr, ethHdr, Ipv4.ethHdr] at short length ⊢
      omega
    refine classifyIcmp_accounted has fits (fun ident seq raw request => answerable ?_) heard
    simp [isEchoRequest, isIpv4, judged, icmp, request]

theorem classifyArp_accounted (has : c.frame = some frame) (isArp : word16 frame 12 = ethTypeArp) :
    Returns (classifyArp net frame) fun r => Accounted net c r.1 := by
  unfold classifyArp
  rw [Arp.process_eq]
  cases judged : Arp.judge frame ourIp with
  | error r => exact .ok (.counted (.arp r) (dropped_arp net r))
  | ok found =>
    obtain ⟨event, sender⟩ := found
    simp only [settle, bind_ok]
    cases event with
    | reply => exact .ok (.accepted has rfl (.learned isArp judged rfl))
    | request req =>
      refine (txArpReply_returns _ req).bind ?_
      rintro u ⟨f, rfl⟩
      exact .ok (.accepted has rfl (.learned isArp judged rfl))

theorem classifyRx_accounted (answerable : c.Answerable net.arp.cache) (heard : ¬ c.Silent cfg net) :
    Returns (classifyRx cfg platform net c) fun r => Accounted net c r.1 := by
  rw [classifyRx_eq]
  cases has : c.frame with
  | none => exact .ok (.counted (.net .short) (dropped_net net .short))
  | some frame =>
    dsimp only
    by_cases isIpv4 : word16 frame 12 = ethTypeIpv4
    · have heard : silent cfg net frame = false := Bool.eq_false_iff.mpr fun quiet => heard ⟨frame, has, quiet⟩
      rw [if_pos isIpv4]
      obtain ⟨u, done, accounted⟩ := @classifyIpv4_accounted cfg platform net c frame c.now has isIpv4
        (answerable frame has) heard
      exact ⟨(u, false), by rw [done]; rfl, accounted⟩
    rw [if_neg isIpv4]
    by_cases isArp : word16 frame 12 = ethTypeArp
    · rw [if_neg (not_not_intro isArp)]
      exact classifyArp_accounted has isArp
    · rw [if_pos isArp]
      exact .ok (.counted (.net .other) (dropped_net net .other))

theorem classifyUdp_silent (quiet : silentUdp net d) : classifyUdp net d = .ok net := by
  unfold silentUdp at quiet
  unfold classifyUdp
  rw [Udp.parse_eq]
  cases judged : Udp.judge d.payload d.src ourIp with
  | error r => simp [judged] at quiet
  | ok echo =>
    simp only [judged, Bool.or_eq_true, decide_eq_true_eq] at quiet
    simp only [settle, bind_ok]
    obtain ⟨payload, read, length⟩ := slice_returns Panic.bounds (Udp.raw_of_judge judged) (Nat.le_refl _)
    have read : echo.payload = .ok payload := read
    rw [read, bind_ok, length]
    rcases quiet with long | full
    · rw [if_pos long]
      rfl
    · rw [if_pos full, ite_self]
      rfl

theorem classifyIcmp_silent (quiet : silentIcmp net d) : classifyIcmp now net d = .ok net := by
  unfold silentIcmp at quiet
  unfold classifyIcmp
  rw [Icmp.parse_eq]
  cases judged : Icmp.judge d.payload with
  | error r => simp [judged] at quiet
  | ok msg =>
    cases msg with
    | echoReq ident seq raw => simp [judged] at quiet
    | echoReply ident seq =>
      simp only [judged, decide_eq_true_eq] at quiet
      simp only [settle, bind_ok]
      rw [if_neg quiet]
      rfl

theorem classifyTcp_silent (quiet : silentTcp cfg net d) : classifyTcp cfg platform now net d = .ok net := by
  simp only [silentTcp, Bool.and_eq_true, decide_eq_true_eq] at quiet
  obtain ⟨known, quiet⟩ := quiet
  obtain ⟨tcp, l, done, -⟩ := Tcp.exec_total cfg net.tcp (.handle now d.payload d.src ourIp)
  rw [classifyTcp, if_neg known, done, bind_ok]
  cases decoded : Tcp.decode d.payload d.src ourIp with
  | error r => simp [decoded] at quiet
  | ok g =>
    simp only [decoded, decide_eq_true_eq] at quiet
    obtain ⟨rfl, none⟩ := Tcp.exec_ignored decoded quiet done
    dsimp only
    rw [none]
    rfl

theorem classifyIpv4_silent (quiet : silent cfg net frame) : classifyIpv4 cfg platform now net frame = .ok net := by
  simp only [silent, Bool.and_eq_true, decide_eq_true_eq] at quiet
  unfold classifyIpv4
  rw [Ipv4.parse_eq]
  cases judged : Ipv4.judge frame ourIp with
  | error r => simp [judged] at quiet
  | ok d =>
    simp only [judged] at quiet
    simp only [settle, bind_ok]
    by_cases isUdp : d.proto = Ipv4.protoUdp
    · rw [if_pos isUdp] at quiet ⊢
      exact classifyUdp_silent quiet.2
    rw [if_neg isUdp] at quiet ⊢
    by_cases isTcp : d.proto = Ipv4.protoTcp
    · rw [if_pos isTcp] at quiet ⊢
      exact classifyTcp_silent quiet.2
    · rw [if_neg isTcp] at quiet ⊢
      exact classifyIcmp_silent quiet.2

theorem isIpv4_of_silent (quiet : silent cfg net frame) : word16 frame 12 = ethTypeIpv4 := by
  simp only [silent, Bool.and_eq_true, decide_eq_true_eq] at quiet
  exact quiet.1

theorem classifyRx_silent (quiet : c.Silent cfg net) : classifyRx cfg platform net c = .ok (net, false) := by
  obtain ⟨frame, has, quiet⟩ := quiet
  have has : c.frame = some frame := has
  rw [classifyRx_eq, has]
  dsimp only
  rw [if_pos (isIpv4_of_silent quiet), classifyIpv4_silent quiet]
  rfl

theorem not_pureAck_of_silent {g : Tcp.Segment} (quiet : silent cfg net frame)
    (datagram : Ipv4.judge frame ourIp = .ok d) (isTcp : d.proto = Ipv4.protoTcp)
    (segment : Tcp.decode d.payload d.src ourIp = .ok g) : ¬ Tcp.PureAck net.tcp.tcb d.src g := by
  have notUdp : d.proto ≠ Ipv4.protoUdp := by
    rw [isTcp]
    decide
  simp only [silent, datagram, if_neg notUdp, if_pos isTcp, silentTcp, segment, Bool.and_eq_true,
    decide_eq_true_eq] at quiet
  exact quiet.2.2.not_pureAck

theorem not_accounted_of_silent (quiet : c.Silent cfg net) : ¬ Accounted net c net := by
  obtain ⟨frame, has, quiet⟩ := quiet
  have has : c.frame = some frame := has
  intro accounted
  cases accounted with
  | counted site once => exact ne_bump _ site once
  | accepted here same accepted =>
    rw [has] at here
    cases here
    cases accepted with
    | learned isArp =>
      rw [isIpv4_of_silent quiet] at isArp
      exact absurd isArp (by decide)
    | answered f sent => exact absurd sent (by simp)
    | pinged waiting done => exact Bool.noConfusion (waiting.symm.trans done)
    | queued free full => exact Bool.noConfusion (free.symm.trans full)
    | moved tcb => exact tcb rfl
    | acknowledged _ datagram isTcp segment pure => exact not_pureAck_of_silent quiet datagram isTcp segment pure

/-- In every state and whatever the frame, `classify_rx` accepts it or counts it once,
except that an echo request without the gateway stops the kernel and a silent frame
leaves no trace. -/
theorem frames_accounted_iff (cfg : Config) (platform : Platform) (net : Statics) (c : Completion) :
    (∃ r, classifyRx cfg platform net c = .ok r ∧ Accounted net c r.1) ↔
      c.Answerable net.arp.cache ∧ ¬ c.Silent cfg net := by
  constructor
  · rintro ⟨r, done, accounted⟩
    refine ⟨fun frame has request absent => ?_, fun quiet => ?_⟩
    · rw [classifyRx_error has request absent] at done
      cases done
    · rw [classifyRx_silent quiet] at done
      cases done
      exact not_accounted_of_silent quiet accounted
  · rintro ⟨answerable, heard⟩
    exact classifyRx_accounted answerable heard

end

def fromGateway (proto : U8) (transport : List U8) : Completion :=
  received (List.replicate vnetHdr 0 ++ ipv4Bytes gwIp peerMac guestMac proto ourIp transport)

def datagramOf (bytes : List U8) : Completion :=
  fromGateway Ipv4.protoUdp (Udp.dgram 4000 Udp.echoPort bytes gwIp ourIp)

def strayReply : Completion := fromGateway Ipv4.protoIcmp (Icmp.replyBytes [8, 0, 0, 0, 0, 7, 0, 1])

def segmentWith (flags : U8) : Completion :=
  fromGateway Ipv4.protoTcp (Tcp.segBytes 4000 Tcp.listenPort 0 0 flags [] gwIp ourIp)

def polled (cs : List Completion) : Statics :=
  match pollRx .default qemu (.boot guestMac) cs with
  | .ok r => r.1
  | .error _ => .boot guestMac

theorem polled_reached {cs : List Completion} (ids : ∀ c ∈ cs, c.id.toNat < rxBufs)
    (answerable : Answerable Arp.Cache.empty cs) (few : cs.length < 2 ^ 32) :
    Run (Step .default qemu) (.boot guestMac) [.pollRx cs] (polled cs) := by
  obtain ⟨r, done⟩ := (pollRx_ok_iff (.boot guestMac) ids).mpr ⟨answerable, fun _ => few⟩
  refine .single ?_
  rw [polled, done, Step, exec, done]
  rfl

/-- Right after boot an ARP reply and a datagram are accepted, and a SYN is counted: the gateway is unknown. -/
theorem frames_accounted_iff_boot : ∀ c ∈ [arpReplyFrom gwIp, datagramOf [1], segmentWith Tcp.Flag.syn],
    ∃ r, classifyRx .default qemu (.boot guestMac) c = .ok r ∧ Accounted (.boot guestMac) c r.1 := by
  intro c member
  refine (frames_accounted_iff .default qemu (.boot guestMac) c).mpr ?_
  revert c
  decide +kernel

/-- With the gateway known and a datagram unread, a second datagram, a reply to no ping of ours and a
RST in LISTEN are dropped and not counted. -/
theorem frames_untraced : Run (Step .default qemu) (.boot guestMac) [.pollRx [arpReplyFrom gwIp, datagramOf [1]]]
      (polled [arpReplyFrom gwIp, datagramOf [1]]) ∧
    ∀ c ∈ [datagramOf [2], strayReply, segmentWith Tcp.Flag.rst],
      classifyRx .default qemu (polled [arpReplyFrom gwIp, datagramOf [1]]) c =
        .ok (polled [arpReplyFrom gwIp, datagramOf [1]], false) ∧
      ¬ Accounted (polled [arpReplyFrom gwIp, datagramOf [1]]) c (polled [arpReplyFrom gwIp, datagramOf [1]]) := by
  refine ⟨polled_reached (by decide +kernel) (by decide +kernel) (by decide), fun c member => ?_⟩
  have quiet : ∀ c ∈ [datagramOf [2], strayReply, segmentWith Tcp.Flag.rst],
      c.Silent .default (polled [arpReplyFrom gwIp, datagramOf [1]]) := by
    decide +kernel
  exact ⟨classifyRx_silent (quiet c member), not_accounted_of_silent (quiet c member)⟩

end Whimbrel.Net

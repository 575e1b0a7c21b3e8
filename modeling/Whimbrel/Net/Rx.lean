import Whimbrel.Net.Driver

/-! The receive side of the driver and the runs of the network stack.

`poll_rx` is given the used-ring entries it will find, in ring order, each with
the bytes the device left in the buffer. -/

set_option autoImplicit false

namespace Whimbrel.Net

open Checked Transition

/-- One used-ring entry and its buffer; `now` is the `rdtime` of its processing. -/
structure Completion where
  id : U32
  len : U32
  buf : List U8
  full : buf.length = bufLen
  now : Usize

def classifyUdp (net : Statics) (d : Ipv4.Datagram) : Result Statics := do
  let (drops, echo) ← Udp.parse net.udp d.payload d.src ourIp
  let net := { net with udp := drops }
  let some echo := echo | return net
  let payload ← echo.payload
  -- neither of these two is counted
  if payload.length > udpPayloadMax then return net
  if net.udpPending then return net
  return { net with
    udpData := payload
    udpSrcIp := d.src
    udpSrcPort := echo.srcPort
    udpPending := true
    udpPeer := true }

def classifyTcp (cfg : Config) (platform : Platform) (now : Usize) (net : Statics) (d : Ipv4.Datagram) :
    Result Statics := do
  if Arp.lookup net.arp.cache gwIp = none then return noteNoarp net
  let (tcp, l) ← Tcp.exec cfg net.tcp (.handle now d.payload d.src ourIp)
  txTcp platform now { net with tcp } l.out

def classifyIcmp (now : Usize) (net : Statics) (d : Ipv4.Datagram) : Result Statics := do
  let (drops, msg) ← Icmp.parse net.icmp d.payload
  let net := { net with icmp := drops }
  match msg with
  | some (.echoReq _ _ raw) => txIcmpEchoReply net d.src raw
  | some (.echoReply id seq) =>
    if id = pingId ∧ seq = pingSeq ∧ ¬ net.pingDone then
      return { net with pingRx := now, pingDone := true }
    else return net
  | none => return net

def classifyIpv4 (cfg : Config) (platform : Platform) (now : Usize) (net : Statics) (frame : List U8) :
    Result Statics := do
  let (drops, d) ← Ipv4.parse net.ipv4 frame ourIp
  let net := { net with ipv4 := drops }
  match d with
  | none => return net
  | some d =>
    if d.proto = Ipv4.protoUdp then classifyUdp net d
    else if d.proto = Ipv4.protoTcp then classifyTcp cfg platform now net d
    else classifyIcmp now net d

def classifyArp (net : Statics) (frame : List U8) : Result (Statics × Bool) := do
  let (arp, event) ← Arp.process net.arp frame ourIp
  let net := { net with arp }
  match event with
  | some (.request req) => return (← txArpReply net req, true)
  | some .reply | none => return (net, false)

/-- The result says whether an ARP reply went out. -/
def classifyRx (cfg : Config) (platform : Platform) (net : Statics) (c : Completion) :
    Result (Statics × Bool) := do
  let n := c.len.toNat
  if n < vnetHdr + ethHdr ∨ n > c.buf.length then
    return ({ net with drops := net.drops.bump .short }, false)
  let frame ← slice c.buf vnetHdr n
  let etype ← be16 frame 12
  if etype = ethTypeIpv4 then
    return (← classifyIpv4 cfg platform c.now net frame, false)
  if etype ≠ ethTypeArp then
    return ({ net with drops := net.drops.bump .other }, false)
  classifyArp net frame

def rxStep (cfg : Config) (platform : Platform) (net : Statics) (took : U32) (replied : Bool) (c : Completion) :
    Result (Statics × U32 × Bool) := do
  if c.id.toNat ≥ rxBufs then throw .rxUsedId
  let net := { net with rxSeen := net.rxSeen + 1, rxCompleted := net.rxCompleted + 1 }
  let (net, r) ← classifyRx cfg platform net c
  let net := { net with rxPosted := net.rxPosted + 1 }
  let took ← succ32 cfg took
  return (net, took, replied || r)

def rxLoop (cfg : Config) (platform : Platform) (net : Statics) (took : U32) (replied : Bool) :
    List Completion → Result (Statics × U32 × Bool)
  | [] => return (net, took, replied)
  | c :: cs => do
    let (net, took, replied) ← rxStep cfg platform net took replied c
    rxLoop cfg platform net took replied cs

def pollRx (cfg : Config) (platform : Platform) (net : Statics) (cs : List Completion) : Result (Statics × Bool) := do
  let (net, took, replied) ← rxLoop cfg platform net 0 false cs
  if took ≠ 0 ∧ net.rxPosted - net.rxCompleted ≠ BitVec.ofNat 32 rxBufs then throw .rxInflight
  return (net, replied)

def pumpTcp (cfg : Config) (platform : Platform) (net : Statics) (now : Usize) : Result Statics := do
  let (tcp, l) ← Tcp.exec cfg net.tcp (.checkRto now)
  txTcp platform now { net with tcp } l.out

/-- `false`: nothing was sent. -/
def tcpSend (cfg : Config) (platform : Platform) (net : Statics) (now : Usize) (payload : List U8) (flags : Usize) :
    Result (Statics × Bool) := do
  let (tcp, l) ← Tcp.exec cfg net.tcp (.appSend now payload (flags &&& 1 ≠ 0))
  let net := { net with tcp }
  if l.out = .none then return (net, false)
  return (← txTcp platform now net l.out, true)

def udpConsume (net : Statics) : Statics := { net with udpPending := false, udpData := [] }

/-- `false`: no datagram has been received yet. -/
def udpSend (net : Statics) (payload : List U8) : Result (Statics × Bool) := do
  if ¬ net.udpPeer then return (net, false)
  return (← txUdp net payload net.udpSrcIp net.udpSrcPort, true)

/-- What boot and the syscalls do to the stack. -/
inductive Op where
  | pollRx (cs : List Completion)
  | pumpTcp (now : Usize)
  | tcpSend (now : Usize) (payload : List U8) (flags : Usize)
  | tcpConsume
  | tcpEof
  | udpSend (payload : List U8)
  | udpConsume
  | arpRequest
  | gratuitousArp
  | ping (now : Usize)

def exec (cfg : Config) (platform : Platform) (net : Statics) : Op → Result Statics
  | .pollRx cs => Prod.fst <$> pollRx cfg platform net cs
  | .pumpTcp now => pumpTcp cfg platform net now
  | .tcpSend now payload flags => Prod.fst <$> tcpSend cfg platform net now payload flags
  | .tcpConsume => do
    let (tcp, _) ← Tcp.exec cfg net.tcp .consume
    return { net with tcp }
  | .tcpEof => do
    let (tcp, _) ← Tcp.exec cfg net.tcp .takeEof
    return { net with tcp }
  | .udpSend payload => Prod.fst <$> udpSend net payload
  | .udpConsume => return udpConsume net
  | .arpRequest => txArpRequest net
  | .gratuitousArp => txGratuitousArp net
  | .ping now => pingGateway net now

def Step (cfg : Config) (platform : Platform) (net : Statics) (op : Op) (u : Statics) : Prop :=
  exec cfg platform net op = .ok u

/-! ## What a frame is and does to the cache -/

/-- The Ethernet frame of a completion of admissible length. -/
def Completion.frame (c : Completion) : Option (List U8) :=
  if c.len.toNat < vnetHdr + ethHdr ∨ c.len.toNat > c.buf.length then none
  else some ((c.buf.drop vnetHdr).take (c.len.toNat - vnetHdr))

def isEchoRequest (frame : List U8) : Bool :=
  word16 frame 12 = ethTypeIpv4 && match Ipv4.judge frame ourIp with
    | .ok d => d.proto = Ipv4.protoIcmp && match Icmp.judge d.payload with
      | .ok (.echoReq ..) => true
      | _ => false
    | .error _ => false

def cacheAfter (cache : Arp.Cache) (frame : List U8) : Arp.Cache :=
  if word16 frame 12 = ethTypeArp then
    match Arp.judge frame ourIp with
    | .ok (_, sender) => Arp.learn cache sender.spa sender.sha
    | .error _ => cache
  else cache

def Completion.learned (c : Completion) (cache : Arp.Cache) : Arp.Cache := c.frame.elim cache (cacheAfter cache)

/-- If the frame is an echo request, the cache has the gateway. -/
def Completion.Answerable (c : Completion) (cache : Arp.Cache) : Prop :=
  ∀ frame ∈ c.frame, isEchoRequest frame → Arp.lookup cache gwIp ≠ none

instance (c : Completion) (cache : Arp.Cache) : Decidable (c.Answerable cache) :=
  inferInstanceAs (Decidable (∀ frame ∈ c.frame, isEchoRequest frame → Arp.lookup cache gwIp ≠ none))

/-- No echo request of the list meets a cache without the gateway. -/
def Answerable (cache : Arp.Cache) : List Completion → Prop
  | [] => True
  | c :: cs => c.Answerable cache ∧ Answerable (c.learned cache) cs

instance decidableAnswerable : (cache : Arp.Cache) → (cs : List Completion) → Decidable (Answerable cache cs)
  | _, [] => inferInstanceAs (Decidable True)
  | cache, c :: cs =>
    haveI := decidableAnswerable (c.learned cache) cs
    inferInstanceAs (Decidable (c.Answerable cache ∧ Answerable (c.learned cache) cs))

/-- What the stack keeps while it classifies and transmits. -/
structure Kept (net u : Statics) : Prop where
  posted : u.rxPosted = net.rxPosted
  completed : u.rxCompleted = net.rxCompleted
  seen : u.rxSeen = net.rxSeen
  tcb : Tcp.TcbInv net.tcp.tcb → Tcp.TcbInv u.tcp.tcb

theorem Kept.refl (net : Statics) : Kept net net := ⟨rfl, rfl, rfl, id⟩

theorem Kept.trans {a b c : Statics} (first : Kept a b) (second : Kept b c) : Kept a c :=
  ⟨second.posted.trans first.posted, second.completed.trans first.completed, second.seen.trans first.seen,
    second.tcb ∘ first.tcb⟩

theorem Kept.after (net : Statics) (f : List U8) : Kept net (net.after f) := ⟨rfl, rfl, rfl, id⟩

structure Quiet (net u : Statics) : Prop extends Kept net u where
  arp : u.arp = net.arp

theorem TcpSent.quiet {net u : Statics} (sent : TcpSent net u) : Quiet net u := by
  cases sent <;> exact ⟨⟨rfl, rfl, rfl, id⟩, rfl⟩

theorem Kept.tcp {cfg : Config} {net : Statics} {op : Tcp.Op} {tcp : Tcp.Statics} {l : Tcp.Label}
    (done : Tcp.exec cfg net.tcp op = .ok (tcp, l)) : Kept net { net with tcp } := by
  have step : Tcp.Step cfg net.tcp l tcp := by rw [Tcp.Step, Tcp.exec_op done, done]
  exact ⟨rfl, rfl, rfl, fun inv => .run (.single step) inv⟩

section
variable {cfg : Config} {platform : Platform} {net : Statics} {d : Ipv4.Datagram} {now : Usize}

theorem txTcp_returns {out : Tcp.Out} (bare : out.Bare) : Returns (txTcp platform now net out) (TcpSent net) := by
  cases out with
  | none => exact .ok .silent
  | synAck dstIp dstPort seq ack =>
    refine (txTcpSynack_returns net dstIp dstPort seq ack).mono fun u sent => ?_
    rcases sent with rfl | ⟨f, rfl⟩
    · exact .noarp
    · exact .frame f
  | seg dstIp dstPort seq ack flags dataLen =>
    cases (bare : dataLen = 0)
    exact txTcpSeg_returns ⟨fun real => absurd rfl real, Nat.zero_le _, fun real => absurd rfl real⟩ _ _ _ _ _

theorem classifyUdp_returns : Returns (classifyUdp net d) (Quiet net) := by
  unfold classifyUdp
  rw [Udp.parse_eq]
  cases accepted : Udp.judge d.payload d.src ourIp with
  | error r => exact .ok ⟨⟨rfl, rfl, rfl, id⟩, rfl⟩
  | ok echo =>
    simp only [settle, bind_ok]
    refine (slice_returns _ (Udp.raw_of_judge accepted) (Nat.le_refl _)).bind fun payload _ => ?_
    split
    · exact .ok ⟨⟨rfl, rfl, rfl, id⟩, rfl⟩
    split <;> exact .ok ⟨⟨rfl, rfl, rfl, id⟩, rfl⟩

theorem classifyTcp_returns :
    Returns (classifyTcp cfg platform now net d) (Quiet net) := by
  unfold classifyTcp
  split
  · exact .ok ⟨⟨rfl, rfl, rfl, id⟩, rfl⟩
  · obtain ⟨tcp, l, done, -⟩ := Tcp.exec_total cfg net.tcp (.handle now d.payload d.src ourIp)
    rw [done, bind_ok]
    refine (txTcp_returns (Tcp.handle_bare done)).mono fun u sent => ?_
    exact ⟨(Kept.tcp done).trans sent.quiet.toKept, sent.quiet.arp⟩

/-- ICMP is the one branch that needs the gateway. -/
theorem classifyIcmp_returns (fits : d.payload.length ≤ transportMax)
    (answerable : ∀ id seq raw, Icmp.judge d.payload = .ok (.echoReq id seq raw) →
      Arp.lookup net.arp.cache gwIp ≠ none) :
    Returns (classifyIcmp now net d) (Quiet net) := by
  unfold classifyIcmp
  rw [Icmp.parse_eq]
  cases accepted : Icmp.judge d.payload with
  | error r => exact .ok ⟨⟨rfl, rfl, rfl, id⟩, rfl⟩
  | ok msg =>
    simp only [settle, bind_ok]
    cases msg with
    | echoReq ident seq raw =>
      obtain ⟨gw, known⟩ := Option.ne_none_iff_exists'.mp (answerable ident seq raw accepted)
      obtain ⟨rfl, header⟩ := Icmp.raw_of_judge accepted
      have sent := @txIcmpEchoReply_returns { net with icmp := net.icmp } gw known d.src _ header fits
      refine sent.mono ?_
      rintro u ⟨f, rfl⟩
      exact ⟨⟨rfl, rfl, rfl, id⟩, rfl⟩
    | echoReply ident seq =>
      dsimp only
      split <;> exact .ok ⟨⟨rfl, rfl, rfl, id⟩, rfl⟩

theorem classifyIcmp_error {ident seq : U16} {raw : List U8}
    (request : Icmp.judge d.payload = .ok (.echoReq ident seq raw))
    (absent : Arp.lookup net.arp.cache gwIp = none) : classifyIcmp now net d = .error .noGatewayMac := by
  unfold classifyIcmp
  rw [Icmp.parse_eq, request]
  simp only [settle, bind_ok, txIcmpEchoReply, gatewayMac, absent, bind_error]

theorem classifyIpv4_returns {frame : List U8} (isIpv4 : word16 frame 12 = ethTypeIpv4)
    (short : frame.length ≤ frameRoom) (answerable : isEchoRequest frame → Arp.lookup net.arp.cache gwIp ≠ none) :
    Returns (classifyIpv4 cfg platform now net frame) (Quiet net) := by
  unfold classifyIpv4
  rw [Ipv4.parse_eq]
  cases accepted : Ipv4.judge frame ourIp with
  | error r => exact .ok ⟨⟨rfl, rfl, rfl, id⟩, rfl⟩
  | ok d =>
    obtain ⟨protos, length⟩ := Ipv4.of_judge accepted
    simp only [settle, bind_ok]
    split
    · exact classifyUdp_returns
    rename_i notUdp
    split
    · exact classifyTcp_returns
    rename_i notTcp
    have icmp : d.proto = Ipv4.protoIcmp := by tauto
    have fits : d.payload.length ≤ transportMax := by
      simp only [frameRoom, transportMax, bufLen, vnetHdr, ethHdr, Ipv4.ethHdr] at short length ⊢
      omega
    refine classifyIcmp_returns fits fun ident seq raw request => answerable ?_
    simp [isEchoRequest, isIpv4, accepted, icmp, request]

theorem classifyIpv4_error {frame : List U8} (request : isEchoRequest frame)
    (absent : Arp.lookup net.arp.cache gwIp = none) :
    classifyIpv4 cfg platform now net frame = .error .noGatewayMac := by
  unfold isEchoRequest at request
  unfold classifyIpv4
  rw [Ipv4.parse_eq]
  cases accepted : Ipv4.judge frame ourIp with
  | error r => simp [accepted] at request
  | ok d =>
    simp only [accepted, Bool.and_eq_true, decide_eq_true_eq] at request
    obtain ⟨-, icmp, echo⟩ := request
    simp only [settle, bind_ok, icmp]
    rw [if_neg (by decide), if_neg (by decide)]
    split at echo
    · rename_i judged
      exact classifyIcmp_error judged absent
    · cases echo

theorem classifyArp_returns {frame : List U8} (isArp : word16 frame 12 = ethTypeArp) :
    Returns (classifyArp net frame) fun r =>
      Kept net r.1 ∧ r.1.arp.cache = cacheAfter net.arp.cache frame := by
  unfold classifyArp cacheAfter
  rw [Arp.process_eq, if_pos isArp]
  cases Arp.judge frame ourIp with
  | error r => exact .ok ⟨⟨rfl, rfl, rfl, id⟩, rfl⟩
  | ok judged =>
    obtain ⟨event, sender⟩ := judged
    simp only [settle, bind_ok]
    cases event with
    | reply => exact .ok ⟨⟨rfl, rfl, rfl, id⟩, rfl⟩
    | request req =>
      refine (txArpReply_returns _ req).bind ?_
      rintro u ⟨f, rfl⟩
      exact .ok ⟨⟨rfl, rfl, rfl, id⟩, rfl⟩

theorem classifyRx_eq (c : Completion) : classifyRx cfg platform net c = match c.frame with
    | none => .ok ({ net with drops := net.drops.bump .short }, false)
    | some frame =>
      if word16 frame 12 = ethTypeIpv4 then (·, false) <$> classifyIpv4 cfg platform c.now net frame
      else if word16 frame 12 ≠ ethTypeArp then .ok ({ net with drops := net.drops.bump .other }, false)
      else classifyArp net frame := by
  unfold classifyRx Completion.frame
  by_cases bad : c.len.toNat < vnetHdr + ethHdr ∨ c.len.toNat > c.buf.length
  · simp only [if_pos bad]
    rfl
  · have inside : vnetHdr ≤ c.len.toNat ∧ c.len.toNat ≤ c.buf.length := by omega
    have length : 12 + 1 < ((c.buf.drop vnetHdr).take (c.len.toNat - vnetHdr)).length := by
      simp only [List.length_take, List.length_drop, vnetHdr, ethHdr] at bad ⊢
      omega
    simp only [if_neg bad, slice_ok inside.1 inside.2, bind_ok, be16_ok length]
    generalize (c.buf.drop vnetHdr).take (c.len.toNat - vnetHdr) = frame
    split
    · cases classifyIpv4 cfg platform c.now net frame <;> rfl
    · rfl

theorem Completion.frame_length {c : Completion} {frame : List U8} (has : c.frame = some frame) :
    frame.length ≤ frameRoom := by
  unfold Completion.frame at has
  split at has
  · cases has
  · cases has
    simp only [List.length_take, List.length_drop, c.full, frameRoom]
    omega

structure Classified (net : Statics) (c : Completion) (u : Statics) : Prop extends Kept net u where
  cache : u.arp.cache = c.learned net.arp.cache

theorem cacheAfter_of_ne {cache : Arp.Cache} {frame : List U8} (other : word16 frame 12 ≠ ethTypeArp) :
    cacheAfter cache frame = cache := if_neg other

theorem classifyRx_returns {c : Completion} (answerable : c.Answerable net.arp.cache) :
    Returns (classifyRx cfg platform net c) fun r => Classified net c r.1 := by
  rw [classifyRx_eq]
  cases has : c.frame with
  | none => exact .ok ⟨⟨rfl, rfl, rfl, id⟩, by rw [Completion.learned, has]; rfl⟩
  | some frame =>
    simp only
    by_cases isIpv4 : word16 frame 12 = ethTypeIpv4
    · rw [if_pos isIpv4]
      obtain ⟨u, done, quiet⟩ := @classifyIpv4_returns cfg platform net c.now frame isIpv4 (c.frame_length has)
        (answerable frame has)
      refine ⟨(u, false), by rw [done]; rfl, quiet.toKept, ?_⟩
      rw [Completion.learned, has, quiet.arp]
      exact (cacheAfter_of_ne (by rw [isIpv4]; decide)).symm
    rw [if_neg isIpv4]
    by_cases isArp : word16 frame 12 = ethTypeArp
    · rw [if_neg (not_not_intro isArp)]
      refine (classifyArp_returns isArp).mono fun r kept => ⟨kept.1, ?_⟩
      rw [Completion.learned, has]
      exact kept.2
    · rw [if_pos isArp]
      refine .ok ⟨⟨rfl, rfl, rfl, id⟩, ?_⟩
      rw [Completion.learned, has]
      exact (cacheAfter_of_ne isArp).symm

theorem classifyRx_error {c : Completion} {frame : List U8} (has : c.frame = some frame)
    (request : isEchoRequest frame) (absent : Arp.lookup net.arp.cache gwIp = none) :
    classifyRx cfg platform net c = .error .noGatewayMac := by
  have isIpv4 : word16 frame 12 = ethTypeIpv4 := by
    simp only [isEchoRequest, Bool.and_eq_true, decide_eq_true_eq] at request
    exact request.1
  rw [classifyRx_eq, has]
  simp only [if_pos isIpv4, classifyIpv4_error request absent]
  rfl

end

/-! ## One poll -/

section
variable {cfg : Config} {platform : Platform} {net : Statics} {took : U32} {replied : Bool}

def Countable (cfg : Config) (took : U32) : Prop := cfg.dev → took + 1 ≠ 0

theorem succ32_returns {n : U32} (countable : Countable cfg n) : Returns (succ32 cfg n) (· = n + 1) := by
  rw [succ32, if_neg fun wraps => countable wraps.1 wraps.2]
  exact .ok rfl

structure Rounded (net : Statics) (took : U32) (c : Completion) (r : Statics × U32 × Bool) : Prop where
  inflight : r.1.rxPosted - r.1.rxCompleted = net.rxPosted - net.rxCompleted
  tcb : Tcp.TcbInv net.tcp.tcb → Tcp.TcbInv r.1.tcp.tcb
  took : r.2.1 = took + 1
  cache : r.1.arp.cache = c.learned net.arp.cache

theorem rxStep_returns {c : Completion} (known : c.id.toNat < rxBufs) (countable : Countable cfg took)
    (answerable : c.Answerable net.arp.cache) :
    Returns (rxStep cfg platform net took replied c) (Rounded net took c) := by
  unfold rxStep
  rw [if_neg (Nat.not_le.mpr known)]
  have one := @classifyRx_returns cfg platform
    { net with rxSeen := net.rxSeen + 1, rxCompleted := net.rxCompleted + 1 } c answerable
  refine one.bind fun r done => ?_
  refine (succ32_returns countable).bind fun took' next => .ok ?_
  refine ⟨?_, done.tcb, next, done.cache⟩
  simp only [done.posted, done.completed]
  bv_omega

theorem rxStep_ok {c : Completion} {r : Statics × U32 × Bool}
    (done : rxStep cfg platform net took replied c = .ok r) :
    c.id.toNat < rxBufs ∧ Countable cfg took ∧ c.Answerable net.arp.cache := by
  unfold rxStep at done
  split at done
  · cases done
  rename_i known
  refine ⟨Nat.not_le.mp known, ?_⟩
  obtain ⟨u, classified, done⟩ := bind_eq_ok done
  obtain ⟨took', counted, -⟩ := bind_eq_ok done
  constructor
  · intro dev wraps
    rw [succ32, if_pos ⟨dev, wraps⟩] at counted
    cases counted
  · intro frame has request absent
    have stops := @classifyRx_error cfg platform
      { net with rxSeen := net.rxSeen + 1, rxCompleted := net.rxCompleted + 1 } c frame has request absent
    rw [stops] at classified
    cases classified

def CountableAll (cfg : Config) (took : U32) (cs : List Completion) : Prop :=
  cfg.dev → took.toNat + cs.length < 2 ^ 32

theorem countableAll_cons {c : Completion} {cs : List Completion} :
    CountableAll cfg took (c :: cs) ↔ Countable cfg took ∧ CountableAll cfg (took + 1) cs := by
  unfold CountableAll Countable
  rw [← imp_and]
  refine imp_congr_right fun _ => ?_
  rw [List.length_cons]
  constructor
  · intro few
    have next : (took + 1).toNat = took.toNat + 1 := BitVec.toNat_add_of_lt (by simp; omega)
    refine ⟨fun wraps => ?_, by omega⟩
    rw [wraps] at next
    cases next
  · rintro ⟨more, few⟩
    bv_omega

theorem rxLoop_append (front back : List Completion) :
    rxLoop cfg platform net took replied (front ++ back) =
      rxLoop cfg platform net took replied front >>= fun r => rxLoop cfg platform r.1 r.2.1 r.2.2 back := by
  induction front generalizing net took replied with
  | nil => rfl
  | cons first front ih =>
    rw [List.cons_append, rxLoop, rxLoop, bind_assoc]
    exact bind_congr fun r => ih

theorem rxLoop_returns {cs : List Completion} (ids : ∀ c ∈ cs, c.id.toNat < rxBufs)
    (countable : CountableAll cfg took cs) (answerable : Answerable net.arp.cache cs) :
    Returns (rxLoop cfg platform net took replied cs) fun r =>
      r.1.rxPosted - r.1.rxCompleted = net.rxPosted - net.rxCompleted ∧
      (Tcp.TcbInv net.tcp.tcb → Tcp.TcbInv r.1.tcp.tcb) := by
  induction cs generalizing net took replied with
  | nil => exact .ok ⟨rfl, id⟩
  | cons c cs ih =>
    obtain ⟨now, later⟩ := countableAll_cons.mp countable
    obtain ⟨first, rest⟩ := answerable
    refine (rxStep_returns (ids c List.mem_cons_self) now first).bind fun r round => ?_
    rw [← round.cache] at rest
    rw [← round.took] at later
    refine (ih (fun c member => ids c (List.mem_cons_of_mem _ member)) later rest).mono fun u all => ?_
    exact ⟨all.1.trans round.inflight, all.2 ∘ round.tcb⟩

theorem rxLoop_ok {cs : List Completion} {r : Statics × U32 × Bool}
    (done : rxLoop cfg platform net took replied cs = .ok r) :
    (∀ c ∈ cs, c.id.toNat < rxBufs) ∧ CountableAll cfg took cs ∧ Answerable net.arp.cache cs := by
  induction cs generalizing net took replied with
  | nil =>
    refine ⟨by simp, fun _ => ?_, trivial⟩
    simpa using took.isLt
  | cons c cs ih =>
    obtain ⟨u, first, rest⟩ := bind_eq_ok done
    obtain ⟨known, countable, answerable⟩ := rxStep_ok first
    obtain ⟨v, same, round⟩ := @rxStep_returns cfg platform net took replied c known countable answerable
    rw [first, Except.ok.injEq] at same
    subst same
    obtain ⟨ids, later⟩ := ih rest
    rw [round.took, round.cache] at later
    exact ⟨List.forall_mem_cons.mpr ⟨known, ids⟩, countableAll_cons.mpr ⟨countable, later.1⟩, answerable, later.2⟩

structure Inv (net : Statics) : Prop where
  inflight : net.rxPosted - net.rxCompleted = BitVec.ofNat 32 rxBufs
  tcb : Tcp.TcbInv net.tcp.tcb

theorem Inv.boot (mac : Mac) : Inv (.boot mac) :=
  ⟨(by decide : (16 : U32) - 0 = BitVec.ofNat 32 rxBufs), .init⟩

theorem Inv.kept {u : Statics} (inv : Inv net) (kept : Kept net u) : Inv u :=
  ⟨by rw [kept.posted, kept.completed, inv.inflight], kept.tcb inv.tcb⟩

/-- A poll stops the kernel exactly on an echo request without the gateway, or on
more frames than the dev profile counts. -/
theorem pollRx_ok_iff (inv : Inv net) {cs : List Completion} (ids : ∀ c ∈ cs, c.id.toNat < rxBufs) :
    (∃ r, pollRx cfg platform net cs = .ok r) ↔
      Answerable net.arp.cache cs ∧ (cfg.dev → cs.length < 2 ^ 32) := by
  have countable : CountableAll cfg 0 cs ↔ (cfg.dev → cs.length < 2 ^ 32) := by
    simp [CountableAll]
  rw [← countable]
  constructor
  · rintro ⟨r, done⟩
    obtain ⟨u, loop, -⟩ := bind_eq_ok done
    exact (rxLoop_ok loop).2.symm
  · rintro ⟨answerable, counted⟩
    obtain ⟨r, loop, inflight, -⟩ := @rxLoop_returns cfg platform net 0 false cs ids counted answerable
    obtain ⟨u, took, replied⟩ := r
    refine ⟨(u, replied), ?_⟩
    rw [pollRx, loop]
    exact if_neg fun leaked => leaked.2 (inflight.trans inv.inflight)

theorem Inv.pollRx {cs : List Completion} {r : Statics × Bool} (inv : Inv net)
    (done : Net.pollRx cfg platform net cs = .ok r) : Inv r.1 := by
  obtain ⟨⟨u, took, replied⟩, loop, done⟩ := bind_eq_ok done
  obtain ⟨ids, countable, answerable⟩ := rxLoop_ok loop
  obtain ⟨v, same, inflight, tcb⟩ := @rxLoop_returns cfg platform net 0 false cs ids countable answerable
  rw [loop, Except.ok.injEq] at same
  subst same
  dsimp only at done
  split at done
  · cases done
  · cases done
    exact ⟨inflight.trans inv.inflight, tcb inv.tcb⟩

end

/-! ## Every run -/

section
variable {cfg : Config} {platform : Platform} {net u : Statics}

theorem Kept.posted_ok {frame : Result (List U8)} (done : (frame >>= net.posted) = .ok u) : Kept net u := by
  obtain ⟨f, -, done⟩ := bind_eq_ok done
  unfold Statics.posted at done
  split at done
  · cases done
  · cases done
    exact .after net f

theorem TcpSent.of_ok {now : Usize} {out : Tcp.Out} (done : txTcp platform now net out = .ok u) : TcpSent net u := by
  have posted {v : Statics} {frame : Result (List U8)} (sent : (frame >>= net.posted) = .ok v) :
      ∃ f, v = net.after f := by
    obtain ⟨f, -, sent⟩ := bind_eq_ok sent
    unfold Statics.posted at sent
    split at sent
    · cases sent
    · cases sent
      exact ⟨f, rfl⟩
  cases out with
  | none =>
    cases done
    exact .silent
  | synAck dstIp dstPort seq ack =>
    unfold txTcp txTcpSynack at done
    cases known : Arp.lookup net.arp.cache gwIp with
    | none =>
      simp only [known] at done
      cases done
      exact .noarp
    | some gw =>
      simp only [known] at done
      obtain ⟨f, rfl⟩ := posted done
      exact .frame f
  | seg dstIp dstPort seq ack flags dataLen =>
    unfold txTcp txTcpSeg at done
    cases known : Arp.lookup net.arp.cache gwIp with
    | none =>
      simp only [known] at done
      cases done
      exact .noarp
    | some gw =>
      simp only [known] at done
      obtain ⟨payload, -, done⟩ := bind_eq_ok done
      obtain ⟨v, sent, done⟩ := bind_eq_ok done
      obtain ⟨f, rfl⟩ := posted sent
      unfold stampE3g at done
      split at done
      · obtain ⟨_, -, done⟩ := bind_eq_ok done
        cases done
        exact .first f now
      · cases done
        exact .frame f

theorem Kept.txTcp_ok {now : Usize} {out : Tcp.Out} (done : txTcp platform now net out = .ok u) : Kept net u :=
  (TcpSent.of_ok done).quiet.toKept

theorem Kept.gateway_ok {rest : Mac → Result Statics} (each : ∀ gw, rest gw = .ok u → Kept net u)
    (done : (gatewayMac net >>= rest) = .ok u) : Kept net u := by
  obtain ⟨gw, -, done⟩ := bind_eq_ok done
  exact each gw done

theorem Kept.exec_ok {op : Op} (notPoll : ∀ cs, op ≠ .pollRx cs) (done : exec cfg platform net op = .ok u) :
    Kept net u := by
  cases op with
  | pollRx cs => exact absurd rfl (notPoll cs)
  | pumpTcp now =>
    obtain ⟨⟨tcp, l⟩, timer, done⟩ := bind_eq_ok done
    exact (Kept.tcp timer).trans (.txTcp_ok done)
  | tcpSend now payload flags =>
    obtain ⟨r, called, rfl⟩ := map_eq_ok done
    obtain ⟨⟨tcp, l⟩, sends, called⟩ := bind_eq_ok called
    refine (Kept.tcp sends).trans ?_
    dsimp only at called
    split at called
    · cases called
      exact .refl _
    · obtain ⟨v, sent, called⟩ := bind_eq_ok called
      cases called
      exact .txTcp_ok sent
  | tcpConsume | tcpEof =>
    obtain ⟨⟨tcp, l⟩, ran, done⟩ := bind_eq_ok done
    cases done
    exact .tcp ran
  | udpSend payload =>
    obtain ⟨r, called, rfl⟩ := map_eq_ok done
    unfold udpSend at called
    split at called
    · cases called
      exact .refl net
    · obtain ⟨v, sent, called⟩ := bind_eq_ok called
      cases called
      exact .gateway_ok (fun _ => .posted_ok) sent
  | udpConsume =>
    cases done
    exact ⟨rfl, rfl, rfl, id⟩
  | arpRequest | gratuitousArp => exact .posted_ok done
  | ping now =>
    refine .gateway_ok (fun gw done => ?_) done
    obtain ⟨v, sent, done⟩ := bind_eq_ok done
    cases done
    exact (Kept.posted_ok sent).trans ⟨rfl, rfl, rfl, id⟩

theorem Inv.step {op : Op} (inv : Inv net) (step : Step cfg platform net op u) : Inv u := by
  by_cases poll : ∃ cs, op = .pollRx cs
  · obtain ⟨cs, rfl⟩ := poll
    obtain ⟨r, done, rfl⟩ := map_eq_ok step
    exact inv.pollRx done
  · exact inv.kept (.exec_ok (fun cs same => poll ⟨cs, same⟩) step)

theorem Inv.run {ops : List Op} (run : Run (Step cfg platform) net ops u) (start : Inv net) : Inv u :=
  run.invariant (fun _ _ _ inv step => inv.step step) start

/-- In every reachable state, whatever frames arrive, the kernel survives a poll
exactly when no echo request meets a cache that lacks the gateway. -/
theorem remote_frames_panic_iff {mac : Mac} {ops : List Op}
    (run : Run (Step cfg platform) (.boot mac) ops net) {cs : List Completion}
    (ids : ∀ c ∈ cs, c.id.toNat < rxBufs) :
    (∃ r, pollRx cfg platform net cs = .ok r) ↔
      Answerable net.arp.cache cs ∧ (cfg.dev → cs.length < 2 ^ 32) :=
  pollRx_ok_iff (.run run (.boot mac)) ids

end

def received (bytes : List U8) : Completion where
  id := 0
  len := BitVec.ofNat 32 bytes.length
  buf := (bytes ++ List.replicate bufLen 0).take bufLen
  full := by simp
  now := 0

def guestMac : Mac := ⟨0x52, 0x54, 0, 0x12, 0x34, 0x56⟩
def peerMac : Mac := ⟨0x52, 0x55, 10, 0, 2, 2⟩

def arpReplyFrom (ip : Ip) : Completion :=
  match Arp.writeReply (List.replicate 60 0) peerMac ip ⟨guestMac, ourIp⟩ with
  | .ok frame => received (List.replicate vnetHdr 0 ++ frame)
  | .error _ => received []

def pingFrom (ip : Ip) : Completion :=
  let frame : Result (List U8) := do
    let header ← Ipv4.writeHeader (List.replicate 20 0) 36 Ipv4.protoIcmp ip ourIp
    let (icmp, _) ← Icmp.writeEchoReq (List.replicate 16 0) 7 1 pingData
    return guestMac.toList ++ peerMac.toList ++ beBytes16 ethTypeIpv4 ++ header ++ icmp
  match frame with
  | .ok frame => received (List.replicate vnetHdr 0 ++ frame)
  | .error _ => received []

def qemu : Platform := ⟨true, fun _ => true, true⟩

/-- Once the gateway has answered, a ping is answered. -/
theorem remote_frames_panic_iff_answered :
    ∃ r, pollRx .default qemu (.boot guestMac) [arpReplyFrom gwIp, pingFrom gwIp] = .ok r :=
  (remote_frames_panic_iff .nil (by decide +kernel)).mpr (by decide +kernel)

/-- A ping before the gateway has answered, and a ping after four other hosts
have taken its place in the cache. -/
theorem ping_without_gateway_panics :
    (pollRx .default qemu (.boot guestMac) [pingFrom gwIp]).panic? = some .noGatewayMac ∧
    (pollRx .default qemu (.boot guestMac) [arpReplyFrom gwIp, arpReplyFrom ⟨10, 0, 2, 3⟩,
      arpReplyFrom ⟨10, 0, 2, 4⟩, arpReplyFrom ⟨10, 0, 2, 5⟩, arpReplyFrom ⟨10, 0, 2, 6⟩,
      pingFrom gwIp]).panic? = some .noGatewayMac := by
  constructor <;> decide +kernel

end Whimbrel.Net

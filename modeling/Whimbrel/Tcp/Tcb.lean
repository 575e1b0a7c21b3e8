import Whimbrel.Checksum

/-! The TCP control block and the operations on it: `src/tcp.rs` without `handle`.

There is one TCB. Payloads live in fixed 512-byte arrays, of which `rxLen` and
`unackedLen` bytes are in use. Beside its result each operation returns the
`Event`s it passed through; the code has no such list, and no result depends
on it. -/

set_option autoImplicit false

namespace Whimbrel.Tcp

def hdrMin : Nat := 20
def listenPort : U16 := 80
def window : U16 := 8192
def defaultMss : U16 := 536
def ourMss : U16 := 1460
def synackHlen : Nat := 24
def rtoTicks : Usize := 2000000
def rtoMax : U8 := 8
/-- Cap on one payload queued for `recv` and on one unacked `send`. -/
def payloadMax : Nat := 512

namespace Flag
def fin : U8 := 0x01
def syn : U8 := 0x02
def rst : U8 := 0x04
def psh : U8 := 0x08
def ack : U8 := 0x10
end Flag

def hasFlag (flags f : U8) : Bool := flags &&& f != 0

inductive State where
  | listen
  | synRcvd
  | established
  | finWait1
  | finWait2
  | closeWait
  | lastAck
  deriving DecidableEq, Repr

structure Buf where
  bytes : List U8
  full : bytes.length = payloadMax

def Buf.zero : Buf := ⟨List.replicate payloadMax 0, List.length_replicate⟩

/-- `buf[..data.len()].copy_from_slice(data)`; the bound is the caller's check. -/
def Buf.fill (buf : Buf) (data : List U8) (fits : data.length ≤ payloadMax) : Buf :=
  ⟨data ++ buf.bytes.drop data.length, by
    have full := buf.full
    simp only [List.length_append, List.length_drop]
    omega⟩

@[simp] theorem Buf.take_fill (buf : Buf) (data : List U8) (fits : data.length ≤ payloadMax) :
    (buf.fill data fits).bytes.take data.length = data := by
  simp [Buf.fill]

structure Tcb where
  state : State
  remoteIp : Ip
  remotePort : U16
  theirIsn : U32
  rcvNxt : U32
  sndIsn : U32
  sndUna : U32
  sndNxt : U32
  mss : U16
  rx : Buf
  rxLen : Nat
  rxPending : Bool
  unacked : Buf
  unackedLen : Nat
  unackedFin : Bool
  inflight : Bool
  deadline : Usize
  tries : U8
  sawData : Bool
  appSent : Bool
  eof : Bool
  peerFin : Bool
  rexmit : U32

def Tcb.init : Tcb where
  state := .listen
  remoteIp := .zero
  remotePort := 0
  theirIsn := 0
  rcvNxt := 0
  sndIsn := 0
  sndUna := 0
  sndNxt := 0
  mss := defaultMss
  rx := .zero
  rxLen := 0
  rxPending := false
  unacked := .zero
  unackedLen := 0
  unackedFin := false
  inflight := false
  deadline := 0
  tries := 0
  sawData := false
  appSent := false
  eof := false
  peerFin := false
  rexmit := 0

structure Drops where
  short : U32
  doff : U32
  csum : U32
  opt : U32
  port : U32
  noarp : U32
  busy : U32
  unexpected : U32
  deriving DecidableEq, Repr

structure Statics where
  tcb : Tcb
  drops : Drops
  established : U32

def Statics.init : Statics := ⟨.init, ⟨0, 0, 0, 0, 0, 0, 0, 0⟩, 0⟩

/-- Wire output. The `dataLen` bytes of a segment are the first of `unackedBytes`. -/
inductive Out where
  | none
  | synAck (dstIp : Ip) (dstPort : U16) (seq ack : U32)
  | seg (dstIp : Ip) (dstPort : U16) (seq ack : U32) (flags : U8) (dataLen : Nat)
  deriving DecidableEq, Repr

/-- A segment with data or a FIN on the wire, its bytes included. -/
structure Emission where
  time : Usize
  dstIp : Ip
  dstPort : U16
  seq : U32
  flags : U8
  data : List U8
  deriving DecidableEq, Repr

/-- What an operation passed through, for statements about whole runs. -/
inductive Event where
  /-- A SYN left LISTEN. -/
  | opened
  /-- `queue_rx` took this payload and `rcv_nxt` moved past it. -/
  | queued (data : List U8)
  /-- `rx_fin` counted the peer's FIN; `eof` says whether it set the EOF mark. -/
  | fin (eof : Bool)
  /-- The peer acknowledged the segment in flight. -/
  | acked
  /-- An orderly close ended in truncated TIME_WAIT. -/
  | timeWait
  /-- An orderly close ended in LAST_ACK. -/
  | lastAck
  /-- A RST of the peer ended the connection. -/
  | aborted
  /-- `send_unacked` started a transmission. -/
  | sent (e : Emission)
  /-- `check_rto` repeated the segment in flight. -/
  | resent (e : Emission)
  /-- `check_rto` gave the connection up. -/
  | rtoReset
  /-- The app consumed this payload. -/
  | handed (data : List U8)
  /-- The app was told end-of-stream. -/
  | eofTaken
  deriving DecidableEq, Repr

def unackedBytes (t : Tcb) : Result (List U8) := slice t.unacked.bytes 0 t.unackedLen

def sameTuple (t : Tcb) (src : Ip) (sport : U16) : Bool :=
  t.remoteIp == src && t.remotePort == sport

def synack (t : Tcb) : Out := .synAck t.remoteIp t.remotePort t.sndIsn t.rcvNxt

def seg (t : Tcb) (seq : U32) (flags : U8) (dataLen : Nat) : Out :=
  .seg t.remoteIp t.remotePort seq t.rcvNxt flags dataLen

def ackOnly (t : Tcb) : Out := seg t t.sndNxt Flag.ack 0

def rstSeg (t : Tcb) : Out := seg t t.sndNxt (Flag.rst ||| Flag.ack) 0

def ackOnlySaved (src : Ip) (sport : U16) (ack seq : U32) : Out :=
  .seg src sport seq ack Flag.ack 0

/-- Back to LISTEN. `eof` stays until `take_eof`; sequence numbers are left as they are. -/
def listenReset (t : Tcb) : Tcb :=
  { t with
    state := .listen
    remoteIp := .zero
    remotePort := 0
    rxLen := 0
    rxPending := false
    unackedLen := 0
    unackedFin := false
    inflight := false
    deadline := 0
    tries := 0
    sawData := false
    appSent := false
    peerFin := false }

def timeWait (t : Tcb) : Tcb := listenReset t

def holdAcks (cfg : Config) (t : Tcb) : Bool := cfg.dropFirstTx && t.rexmit == 0 && t.appSent

/-- The segment in flight is acknowledged by exactly `snd_nxt`. -/
def ackMatches (cfg : Config) (t : Tcb) (ack : U32) : Bool :=
  t.inflight && ack == t.sndNxt && !holdAcks cfg t

def ackFlight (t : Tcb) (ack : U32) : Tcb :=
  { t with
    sndUna := ack
    inflight := false
    deadline := 0
    unackedLen := 0
    unackedFin := false }

def onTheirAck (cfg : Config) (t : Tcb) (ack : U32) : Tcb × List Event :=
  if ackMatches cfg t ack then
    let t := ackFlight t ack
    match t.state with
    | .finWait1 =>
      let t := { t with state := .finWait2 }
      if t.peerFin then (timeWait t, [.acked, .timeWait]) else (t, [.acked])
    | .lastAck => (listenReset t, [.acked, .lastAck])
    | _ => (t, [.acked])
  else (t, [])

def Statics.dropUnexpected (s : Statics) : Statics :=
  { s with drops := { s.drops with unexpected := s.drops.unexpected + 1 } }

def storeRx (t : Tcb) (data : List U8) (fits : data.length ≤ payloadMax) : Tcb :=
  { t with rx := t.rx.fill data fits, rxLen := data.length, rxPending := true, sawData := true }

/-- One payload at a time: a second one before `recv` is dropped, not appended. -/
def queueRx (s : Statics) (data : List U8) : Statics × Bool :=
  if data = [] then (s, true)
  else if s.tcb.rxPending then (s.dropUnexpected, false)
  else if fits : data.length ≤ payloadMax then
    ({ s with tcb := storeRx s.tcb data fits }, true)
  else (s.dropUnexpected, false)

def rxFin (t : Tcb) : Tcb :=
  { t with rcvNxt := t.rcvNxt + 1, eof := t.eof || t.sawData || t.appSent }

def flightFlags (t : Tcb) : U8 :=
  let flags := if t.unackedLen ≠ 0 then Flag.ack ||| Flag.psh else Flag.ack
  if t.unackedFin then flags ||| Flag.fin else flags

def emissionOf (now : Usize) (t : Tcb) : Emission :=
  ⟨now, t.remoteIp, t.remotePort, t.sndUna, flightFlags t, t.unacked.bytes.take t.unackedLen⟩

def armRto (now : Usize) (t : Tcb) : Tcb :=
  { t with inflight := true, tries := 1, deadline := rtoTicks + now }

def sendUnacked (now : Usize) (t : Tcb) : Tcb × Out :=
  let seq := t.sndUna
  let flags := Flag.ack
  let flags := if t.unackedLen ≠ 0 then flags ||| Flag.psh else flags
  let flags := if t.unackedFin then flags ||| Flag.fin else flags
  let sndNxt :=
    if t.unackedFin then seq + BitVec.ofNat 32 t.unackedLen + 1
    else seq + BitVec.ofNat 32 t.unackedLen
  let t := armRto now { t with sndNxt := sndNxt }
  (t, seg t seq flags t.unackedLen)

def storeUnacked (t : Tcb) (data : List U8) (fin : Bool) (fits : data.length ≤ payloadMax) : Tcb :=
  { t with
    unacked := t.unacked.fill data fits
    unackedLen := data.length
    unackedFin := fin
    appSent := true
    sndUna := t.sndNxt }

def sendState (t : Tcb) (fin : Bool) : State :=
  if t.state = .closeWait ∧ fin then .lastAck else if fin then .finWait1 else t.state

/-- App `send`: one outstanding segment, once per connection. -/
def appSend (now : Usize) (t : Tcb) (data : List U8) (fin : Bool) : Tcb × Out × List Event :=
  if t.state ≠ .established ∧ t.state ≠ .closeWait then (t, .none, [])
  else if t.appSent ∨ t.inflight then (t, .none, [])
  else if fits : data.length ≤ payloadMax then
    let t := storeUnacked t data fin fits
    let (t, out) := sendUnacked now { t with state := sendState t fin }
    (t, out, [.sent (emissionOf now t)])
  else (t, .none, [])

def pending (t : Tcb) : Result (Option (List U8)) := do
  if t.rxPending then
    let payload ← slice t.rx.bytes 0 t.rxLen
    return some payload
  else return none

/-- The bytes `pending` returns, as long as `rx_len` is within the array. -/
def pendingBytes (t : Tcb) : Option (List U8) :=
  if t.rxPending then some (t.rx.bytes.take t.rxLen) else none

def consume (t : Tcb) : Tcb × List Event :=
  ({ t with rxPending := false, rxLen := 0 }, (pendingBytes t).toList.map .handed)

/-- EOF is held while a payload is unread or our segment is in flight. -/
def takeEof (t : Tcb) : Tcb × Bool × List Event :=
  if t.eof ∧ ¬ t.rxPending ∧ ¬ t.inflight then ({ t with eof := false }, true, [.eofTaken])
  else (t, false, [])

/-- `now.wrapping_sub(deadline) > usize::MAX / 2` reads as "not yet due". -/
def rtoDue (now deadline : Usize) : Bool := ¬ (now - deadline > 0x7fffffffffffffff)

def saturatingSucc (n : U8) : U8 := if n = 255 then 255 else n + 1

theorem saturatingSucc_of_lt {n : U8} (more : n < rtoMax) : saturatingSucc n = n + 1 := by
  unfold saturatingSucc
  have unsaturated : n ≠ 255 := by
    intro same
    rw [same] at more
    exact absurd more (by decide)
  exact if_neg unsaturated

def countTry (now : Usize) (t : Tcb) : Tcb :=
  { t with
    tries := saturatingSucc t.tries
    rexmit := t.rexmit + 1
    deadline := rtoTicks + now }

def checkRto (now : Usize) (t : Tcb) : Tcb × Out × List Event :=
  if ¬ t.inflight then (t, .none, [])
  else if ¬ rtoDue now t.deadline then (t, .none, [])
  else if t.tries ≥ rtoMax then (listenReset t, rstSeg t, [.rtoReset])
  else
    let t := countTry now t
    let seq := t.sndUna
    let flags := Flag.ack
    let flags := if t.unackedLen ≠ 0 then flags ||| Flag.psh else flags
    let flags := if t.unackedFin then flags ||| Flag.fin else flags
    (t, seg t seq flags t.unackedLen, [.resent (emissionOf now t)])

end Whimbrel.Tcp

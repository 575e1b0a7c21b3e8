import Whimbrel.Tcp.Tcb

/-! `handle`: the checks on a received segment and the TCB transitions it drives.

The byte-level checks run in `Result`. After them the code is split where it
returns early: a RST, a SYN, and a segment of the open connection. -/

set_option autoImplicit false

namespace Whimbrel.Tcp

def protoTcp : U8 := 6

def pseudoHeader (src dst : Ip) (tcpLen : U16) : List U8 :=
  src.toList ++ dst.toList ++ [0, protoTcp] ++ beBytes16 tcpLen

/-- `tcp.len() as u16` truncates. -/
def tcpSum (src dst : Ip) (tcp : List U8) : U16 :=
  let pseudo := pseudoHeader src dst (BitVec.ofNat 16 tcp.length)
  Checksum.fold (Checksum.accumulate (Checksum.accumulate 0 pseudo) tcp)

def checksumTx (src dst : Ip) (tcp : List U8) : U16 := ~~~ tcpSum src dst tcp

def checksumValid (src dst : Ip) (tcp : List U8) : Bool := tcpSum src dst tcp == 0xffff

def optEol : U8 := 0
def optNop : U8 := 1
def optMss : U8 := 2
def optMssLen : Nat := 4

/-- The option loop of `parse_mss` from position `i`. Every round moves `i`, so
`hlen` rounds are enough. -/
def parseMssLoop (hdr : List U8) (hlen : Nat) : Nat → Nat → Option U16 → Result (Option U16)
  | 0, _, mss => return some (mss.getD defaultMss)
  | fuel + 1, i, mss => do
    if ¬ i < hlen then return some (mss.getD defaultMss)
    let kind ← index hdr i
    if kind = optEol then return some (mss.getD defaultMss)
    if kind = optNop then return ← parseMssLoop hdr hlen fuel (i + 1) mss
    if i + 1 ≥ hlen then return none
    let len := (← index hdr (i + 1)).toNat
    if len < 2 ∨ i + len > hlen then return none
    if kind = optMss then
      if len ≠ optMssLen then return none
      let v ← be16 hdr (i + 2)
      return ← parseMssLoop hdr hlen fuel (i + len) (some v)
    parseMssLoop hdr hlen fuel (i + len) mss

def parseMss (hdr : List U8) (hlen : Nat) : Result (Option U16) :=
  parseMssLoop hdr hlen hlen hdrMin none

/-- The header fields `handle` reads, and the payload after the data offset. -/
structure Segment where
  sport : U16
  seq : U32
  ack : U32
  flags : U8
  data : List U8
  deriving DecidableEq, Repr

namespace Segment
def isFin (g : Segment) : Bool := hasFlag g.flags Flag.fin
def isSyn (g : Segment) : Bool := hasFlag g.flags Flag.syn
def isRst (g : Segment) : Bool := hasFlag g.flags Flag.rst
def isAck (g : Segment) : Bool := hasFlag g.flags Flag.ack
end Segment

/-- A RST of the open connection returns to LISTEN; any other is ignored. -/
def onRst (s : Statics) (src : Ip) (g : Segment) : Statics × Out × List Event :=
  if s.tcb.state ≠ .listen ∧ sameTuple s.tcb src g.sport then
    ({ s with tcb := listenReset s.tcb }, .none, [.aborted])
  else (s, .none, [])

def acceptSyn (now : Usize) (t : Tcb) (src : Ip) (g : Segment) (mss : U16) : Tcb :=
  let isn : U32 := now.setWidth 32
  { t with
    remoteIp := src
    remotePort := g.sport
    theirIsn := g.seq
    rcvNxt := g.seq + 1
    sndIsn := isn
    sndUna := isn + 1
    sndNxt := isn + 1
    mss := mss
    state := .synRcvd }

/-- A SYN without ACK, its options already parsed. -/
def onSyn (now : Usize) (s : Statics) (src : Ip) (g : Segment) (mss : U16) :
    Statics × Out × List Event :=
  let t := s.tcb
  let busy := { s with drops := { s.drops with busy := s.drops.busy + 1 } }
  match t.state with
  | .listen =>
    let t := acceptSyn now t src g mss
    ({ s with tcb := t }, synack t, [.opened])
  | .synRcvd =>
    if sameTuple t src g.sport ∧ g.seq = t.theirIsn then (s, synack t, []) else (busy, .none, [])
  | _ => (busy, .none, [])

/-- The handshake ACK. `none`: dropped in SYN_RCVD. -/
def onSynRcvd (s : Statics) (g : Segment) : Option Statics :=
  if s.tcb.state = .synRcvd then
    if g.isAck ∧ ¬ g.isSyn ∧ g.ack = s.tcb.sndNxt ∧ g.seq = s.tcb.rcvNxt then
      some { s with tcb := { s.tcb with state := .established }, established := s.established + 1 }
    else none
  else some s

def advance (t : Tcb) (data : List U8) : Tcb :=
  { t with rcvNxt := t.rcvNxt + BitVec.ofNat 32 data.length }

/-- In-order payload is offered to `queue_rx`; `true` asks for an ACK. `none`:
the payload is out of order. -/
def onData (s : Statics) (g : Segment) : Option (Statics × Bool × List Event) :=
  if g.data = [] then some (s, false, [])
  else if g.seq ≠ s.tcb.rcvNxt then none
  else match queueRx s g.data with
    | (s, true) => some ({ s with tcb := advance s.tcb g.data }, true, [.queued g.data])
    | (s, false) => some (s, false, [])

def acceptFin (t : Tcb) : Tcb := { rxFin t with peerFin := true }

/-- The close of a TCB that no payload and no `send` ever used. -/
def closeUnused (now : Usize) (t : Tcb) : Tcb × Out :=
  sendUnacked now { t with
    unackedLen := 0
    unackedFin := true
    sndUna := t.sndNxt
    state := .lastAck }

/-- FIN processing, then the ACK that data or FIN asked for. -/
def onFin (cfg : Config) (now : Usize) (s : Statics) (src : Ip) (g : Segment) (needAck : Bool) :
    Statics × Out × List Event :=
  if g.isFin then
    if holdAcks cfg s.tcb then (s, .none, [])
    else if g.seq + BitVec.ofNat 32 g.data.length ≠ s.tcb.rcvNxt then (s, ackOnly s.tcb, [])
    else
      let marked := s.tcb.sawData || s.tcb.appSent
      let t := acceptFin s.tcb
      match t.state with
      | .established =>
        let t := { t with state := .closeWait }
        if ¬ t.sawData ∧ ¬ t.appSent then
          let (t, out) := closeUnused now t
          ({ s with tcb := t }, out, [.fin marked, .sent (emissionOf now t)])
        else ({ s with tcb := t }, ackOnly t, [.fin marked])
      | .finWait2 =>
        ({ s with tcb := timeWait t }, ackOnlySaved src g.sport t.rcvNxt t.sndNxt,
          [.fin marked, .timeWait])
      | _ => ({ s with tcb := t }, ackOnly t, [.fin marked])
  else (s, if needAck then ackOnly s.tcb else .none, [])

/-- A segment of the open connection: ACK, handshake, data, FIN, in this order. -/
def onOpen (cfg : Config) (now : Usize) (s : Statics) (src : Ip) (g : Segment) :
    Statics × Out × List Event :=
  let (t, acked) := if g.isAck then onTheirAck cfg s.tcb g.ack else (s.tcb, [])
  let s := { s with tcb := t }
  if g.isAck ∧ t.state = .listen then (s, .none, acked)
  else match onSynRcvd s g with
    | none => (s.dropUnexpected, .none, acked)
    | some s => match onData s g with
      | none => (s, ackOnly s.tcb, acked)
      | some (s, needAck, queued) =>
        let (s, out, closed) := onFin cfg now s src g needAck
        (s, out, acked ++ queued ++ closed)

def onOther (cfg : Config) (now : Usize) (s : Statics) (src : Ip) (g : Segment) :
    Statics × Out × List Event :=
  if s.tcb.state = .listen then (s.dropUnexpected, .none, [])
  else if ¬ sameTuple s.tcb src g.sport then
    ({ s with drops := { s.drops with busy := s.drops.busy + 1 } }, .none, [])
  else onOpen cfg now s src g

/-- Parse and drive the TCB. `now` is the `rdtime` read on the path taken. -/
def handle (cfg : Config) (now : Usize) (s : Statics) (payload : List U8) (src dst : Ip) :
    Result (Statics × Out × List Event) := do
  if payload.length < hdrMin then
    return ({ s with drops := { s.drops with short := s.drops.short + 1 } }, .none, [])
  let doff := (← index payload 12) >>> 4
  let hlen := doff.toNat * 4
  if doff < 5 ∨ hlen < hdrMin ∨ payload.length < hlen then
    return ({ s with drops := { s.drops with doff := s.drops.doff + 1 } }, .none, [])
  if ¬ checksumValid src dst payload then
    return ({ s with drops := { s.drops with csum := s.drops.csum + 1 } }, .none, [])
  let sport ← be16 payload 0
  let dport ← be16 payload 2
  let seq ← be32 payload 4
  let ack ← be32 payload 8
  let flags ← index payload 13
  let data ← slice payload hlen payload.length
  if dport ≠ listenPort then
    return ({ s with drops := { s.drops with port := s.drops.port + 1 } }, .none, [])
  let g : Segment := ⟨sport, seq, ack, flags, data⟩
  if g.isRst then return onRst s src g
  if g.isSyn ∧ ¬ g.isAck then
    let some mss ← parseMss payload hlen
      | return ({ s with drops := { s.drops with opt := s.drops.opt + 1 } }, .none, [])
    return onSyn now s src g mss
  return onOther cfg now s src g

end Whimbrel.Tcp

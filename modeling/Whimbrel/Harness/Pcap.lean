import Mathlib.Data.List.Infix
import Mathlib.Data.List.Nodup
import Whimbrel.Base

/-! The wire intervals of one boot: `extract_pcap` of `scripts/pcap_http.py`.

A display filter is a predicate on the decoded fields of a frame. -/

set_option autoImplicit false

namespace Whimbrel.Pcap

open Checked

structure Arp where
  opcode : Nat
  srcProto : Ip
  dstProto : Ip
  deriving DecidableEq, Repr

structure Ipv4 where
  src : Ip
  dst : Ip
  deriving DecidableEq, Repr

structure Tcp where
  srcport : U16
  dstport : U16
  flags : BitVec 12
  len : Nat
  nxtseq : Option Nat
  ack : Nat
  deriving DecidableEq, Repr

def Tcp.fin (t : Tcp) : Bool := t.flags.getLsbD 0
def Tcp.syn (t : Tcp) : Bool := t.flags.getLsbD 1
def Tcp.reset (t : Tcp) : Bool := t.flags.getLsbD 2
def Tcp.acks (t : Tcp) : Bool := t.flags.getLsbD 4

/-- `time` is `frame.time_relative` in the nanoseconds of `_time_ns`. -/
structure Frame where
  number : Nat
  time : Int
  ethSrc : Mac
  arp : Option Arp
  ip : Option Ipv4
  tcp : Option Tcp
  bytes : List U8
  deriving DecidableEq, Repr

structure Capture where
  frames : List Frame
  numbered : frames.Pairwise fun f g => f.number < g.number
  timed : frames.Pairwise fun f g => f.time ≤ g.time

def slirpMac : Mac := ⟨0x52, 0x55, 0x0a, 0x00, 0x02, 0x02⟩
def httpOk : List U8 := "HTTP/1.0 200 OK".toList.map fun c => BitVec.ofNat 8 c.toNat

def arpFilter (f : Frame) : Bool := f.arp.any fun a => a.opcode = 1 ∧ a.srcProto = gwIp ∧ a.dstProto = ourIp

def synackFilter (f : Frame) : Bool := f.tcp.any fun t => t.srcport = 80 ∧ t.flags = 0x012

def httpFilter (f : Frame) : Bool :=
  (f.ip.any fun p => p.src = ourIp) ∧ (f.tcp.any fun t => t.srcport = 80 ∧ 0 < t.len ∧ t.syn = false) ∧ httpOk <:+: f.bytes

def ackFilter (nxt fnHttp : Nat) (f : Frame) : Bool :=
  (f.ip.any fun p => p.src = gwIp ∧ p.dst = ourIp) ∧
    (f.tcp.any fun t => t.dstport = 80 ∧ t.syn = false ∧ t.fin = false ∧ t.reset = false ∧ t.acks ∧ t.len = 0 ∧ t.ack = nxt) ∧
    fnHttp < f.number

def finFilter (fnHttp : Nat) (f : Frame) : Bool :=
  (f.ip.any fun p => p.dst = ourIp) ∧ (f.tcp.any fun t => t.dstport = 80 ∧ t.fin) ∧ fnHttp < f.number

def guestTxFilter (f : Frame) : Bool := (f.arp.isSome ∨ f.ip.isSome) ∧ f.ethSrc ≠ slirpMac

def guestArpReqFilter (f : Frame) : Bool := (f.arp.any fun a => a.opcode = 1) ∧ f.ethSrc ≠ slirpMac

inductive Raised where
  | missing
  | noArp
  | noSynack
  | noHttp
  | synackBeforeArp
  | httpBeforeSynack
  | nxtseq
  | noAck
  | noFin
  | ackBeforeHttp
  | finBeforeHttp
  deriving DecidableEq, Repr

def tsharkTable (c : Capture) (filter : Frame → Bool) : List Frame := c.frames.filter filter

def firstRow (rows : List Frame) (otherwise : Raised) : Except Raised Frame :=
  match rows with
  | [] => .error otherwise
  | f :: _ => .ok f

def require (c : Bool) (otherwise : Raised) : Except Raised Unit := if c then .ok () else .error otherwise

def Frame.nxtseq (f : Frame) : Option Nat := f.tcp.bind Tcp.nxtseq

def nextSeq (http : Frame) : Except Raised Nat :=
  match http.nxtseq with
  | some nxt => .ok nxt
  | none => .error .nxtseq

/-- The frames the intervals are read from. -/
structure Selection where
  arp : Frame
  syn : Frame
  http : Frame
  ack : Frame
  fin : Frame
  deriving DecidableEq, Repr

def select (c : Capture) : Except Raised Selection := do
  let arp ← firstRow (tsharkTable c arpFilter) .noArp
  let syn ← firstRow (tsharkTable c synackFilter) .noSynack
  let http ← firstRow (tsharkTable c httpFilter) .noHttp
  require (arp.time ≤ syn.time) .synackBeforeArp
  require (syn.time ≤ http.time) .httpBeforeSynack
  let nxt ← nextSeq http
  let ack ← firstRow (tsharkTable c (ackFilter nxt http.number)) .noAck
  let fin ← firstRow (tsharkTable c (finFilter http.number)) .noFin
  require (http.time ≤ ack.time) .ackBeforeHttp
  require (http.time ≤ fin.time) .finBeforeHttp
  return { arp, syn, http, ack, fin }

structure Intervals where
  wNs : Int
  dAckNs : Int
  dFinNs : Int
  synackToHttpNs : Int
  httpLen : Nat
  guestFtxNs : Option Int
  guestArpReqN : Nat
  deriving DecidableEq, Repr

def intervals (c : Capture) (s : Selection) : Intervals where
  wNs := s.syn.time - s.arp.time
  dAckNs := s.ack.time - s.http.time
  dFinNs := s.fin.time - s.http.time
  synackToHttpNs := s.http.time - s.syn.time
  httpLen := (s.http.tcp.map Tcp.len).getD 0
  guestFtxNs := (tsharkTable c guestTxFilter).head?.map fun f => f.time - s.arp.time
  guestArpReqN := (tsharkTable c guestArpReqFilter).length

/-- `none` is a missing or empty file. -/
def extractPcap (pcap : Option Capture) : Except Raised Intervals :=
  match pcap with
  | none => .error .missing
  | some c => intervals c <$> select c

/-! ## Connections -/

structure Endpoint where
  address : Option Ip
  port : Option U16
  deriving DecidableEq, Repr

structure Connection where
  server : Endpoint
  client : Endpoint
  deriving DecidableEq, Repr

def Frame.sender (f : Frame) : Endpoint := ⟨f.ip.map Ipv4.src, f.tcp.map Tcp.srcport⟩
def Frame.receiver (f : Frame) : Endpoint := ⟨f.ip.map Ipv4.dst, f.tcp.map Tcp.dstport⟩

/-- The connection of a frame the server sends, and of one it receives. -/
def Frame.fromServer (f : Frame) : Connection := ⟨f.sender, f.receiver⟩
def Frame.toServer (f : Frame) : Connection := ⟨f.receiver, f.sender⟩

structure First (c : Capture) (kind : Frame → Prop) (f : Frame) : Prop where
  mem : f ∈ c.frames
  is : kind f
  least : ∀ g ∈ c.frames, kind g → f.number ≤ g.number

/-- A frame of the kind that is not `own` comes after one that is. -/
def Led (c : Capture) (kind own : Frame → Prop) : Prop :=
  ∀ f ∈ c.frames, kind f → ¬ own f → ∃ g ∈ c.frames, kind g ∧ own g ∧ g.number < f.number

/-- The intervals describe one exchange. -/
structure OneExchange (c : Capture) (s : Selection) (r : Intervals) : Prop where
  synack : s.syn.fromServer = s.http.fromServer
  ack : s.ack.toServer = s.http.fromServer
  fin : s.fin.toServer = s.http.fromServer
  opened : s.syn.number < s.http.number
  acked : s.http.number < s.ack.number
  finished : s.http.number < s.fin.number
  nonneg : 0 ≤ r.wNs ∧ 0 ≤ r.synackToHttpNs ∧ 0 ≤ r.dAckNs ∧ 0 ≤ r.dFinNs
  spans : ∃ arp fin, First c (arpFilter ·) arp ∧
    First c (fun f => finFilter s.http.number f ∧ f.toServer = s.http.fromServer) fin ∧
    r.wNs + r.synackToHttpNs + r.dFinNs = fin.time - arp.time

/-- Around the first response its own connection comes first each time. -/
structure Unmixed (c : Capture) : Prop where
  opened : ∀ r, First c (httpFilter ·) r → ∃ f ∈ c.frames, synackFilter f ∧ f.number < r.number
  synacks : ∀ r, First c (httpFilter ·) r → Led c (synackFilter ·) (·.fromServer = r.fromServer)
  acks : ∀ r, First c (httpFilter ·) r → ∀ nxt ∈ r.nxtseq, Led c (ackFilter nxt r.number ·) (·.toServer = r.fromServer)
  fins : ∀ r, First c (httpFilter ·) r → Led c (finFilter r.number ·) (·.toServer = r.fromServer)

section
variable {c : Capture} {kind : Frame → Prop} {f : Frame}

theorem First.unique {g : Frame} (first : First c kind f) (other : First c kind g) : f = g := by
  have same : f.number = g.number := le_antisymm (first.least g other.mem other.is) (other.least f first.mem first.is)
  have distinct : (c.frames.map Frame.number).Nodup := List.pairwise_map.mpr (c.numbered.imp ne_of_lt)
  exact List.inj_on_of_nodup_map distinct first.mem other.mem same

/-- The first of a kind is `own` where own frames lead. -/
theorem First.own_iff {own : Frame → Prop} (first : First c kind f) : own f ↔ Led c kind own := by
  constructor
  · intro mine g mem is foreign
    refine ⟨f, first.mem, first.is, mine, lt_of_le_of_ne (first.least g mem is) fun same => ?_⟩
    have also : First c kind g := ⟨mem, is, fun h there same' => same ▸ first.least h there same'⟩
    exact foreign (first.unique also ▸ mine)
  · intro led
    by_contra foreign
    obtain ⟨g, mem, is, -, earlier⟩ := led f first.mem first.is foreign
    exact absurd (first.least g mem is) (not_le_of_gt earlier)

theorem first_of_firstRow {filter : Frame → Bool} {otherwise : Raised}
    (row : firstRow (tsharkTable c filter) otherwise = .ok f) : First c (filter ·) f := by
  rw [tsharkTable] at row
  cases rows : c.frames.filter filter with
  | nil =>
    rw [rows] at row
    cases row
  | cons g rest =>
    rw [rows] at row
    obtain rfl := Except.ok.inj row
    have sorted := c.numbered.filter filter
    have mem : g ∈ c.frames.filter filter := rows ▸ List.mem_cons_self
    refine ⟨(List.mem_filter.mp mem).1, (List.mem_filter.mp mem).2, fun h there is => ?_⟩
    have inside : h ∈ g :: rest := rows ▸ List.mem_filter.mpr ⟨there, is⟩
    rw [rows] at sorted
    rcases List.mem_cons.mp inside with rfl | later
    · exact le_rfl
    · exact le_of_lt ((List.pairwise_cons.mp sorted).1 h later)

theorem require_ok {holds : Bool} {otherwise : Raised} (ok : require holds otherwise = .ok ()) : holds = true := by
  cases holds with
  | true => rfl
  | false => cases ok

theorem nxtseq_of_nextSeq {nxt : Nat} (ok : nextSeq f = .ok nxt) : f.nxtseq = some nxt := by
  rw [nextSeq] at ok
  cases read : f.nxtseq with
  | none =>
    rw [read] at ok
    cases ok
  | some n =>
    rw [read] at ok
    exact congrArg some (Except.ok.inj ok)

structure Selected (c : Capture) (s : Selection) (nxt : Nat) : Prop where
  arp : First c (arpFilter ·) s.arp
  syn : First c (synackFilter ·) s.syn
  http : First c (httpFilter ·) s.http
  nxtseq : s.http.nxtseq = some nxt
  ack : First c (ackFilter nxt s.http.number ·) s.ack
  fin : First c (finFilter s.http.number ·) s.fin
  times : s.arp.time ≤ s.syn.time ∧ s.syn.time ≤ s.http.time ∧ s.http.time ≤ s.ack.time ∧ s.http.time ≤ s.fin.time

theorem select_ok {s : Selection} (ok : select c = .ok s) : ∃ nxt, Selected c s nxt := by
  obtain ⟨arp, isArp, ok⟩ := of_bind_ok ok
  obtain ⟨syn, isSyn, ok⟩ := of_bind_ok ok
  obtain ⟨http, isHttp, ok⟩ := of_bind_ok ok
  simp only [seq_ok] at ok
  obtain ⟨toSyn, toHttp, ok⟩ := ok
  obtain ⟨nxt, isNxt, ok⟩ := of_bind_ok ok
  obtain ⟨ack, isAck, ok⟩ := of_bind_ok ok
  obtain ⟨fin, isFin, ok⟩ := of_bind_ok ok
  simp only [seq_ok] at ok
  obtain ⟨toAck, toFin, done⟩ := ok
  obtain rfl := Except.ok.inj done
  refine ⟨nxt, first_of_firstRow isArp, first_of_firstRow isSyn, first_of_firstRow isHttp, nxtseq_of_nextSeq isNxt,
    first_of_firstRow isAck, first_of_firstRow isFin, ?_⟩
  exact ⟨of_decide_eq_true (require_ok toSyn), of_decide_eq_true (require_ok toHttp), of_decide_eq_true (require_ok toAck),
    of_decide_eq_true (require_ok toFin)⟩

theorem after_of_ackFilter {nxt n : Nat} (is : ackFilter nxt n f = true) : n < f.number := (of_decide_eq_true is).2.2

theorem after_of_finFilter {n : Nat} (is : finFilter n f = true) : n < f.number := (of_decide_eq_true is).2.2

variable {s : Selection} {nxt : Nat}

theorem oneExchange_of_unmixed (selected : Selected c s nxt) (unmixed : Unmixed c) : OneExchange c s (intervals c s) where
  synack := selected.syn.own_iff.mpr (unmixed.synacks _ selected.http)
  ack := selected.ack.own_iff.mpr (unmixed.acks _ selected.http nxt selected.nxtseq)
  fin := selected.fin.own_iff.mpr (unmixed.fins _ selected.http)
  opened := by
    obtain ⟨f, mem, is, earlier⟩ := unmixed.opened _ selected.http
    exact lt_of_le_of_lt (selected.syn.least f mem is) earlier
  acked := after_of_ackFilter selected.ack.is
  finished := after_of_finFilter selected.fin.is
  nonneg := by
    obtain ⟨toSyn, toHttp, toAck, toFin⟩ := selected.times
    exact ⟨Int.sub_nonneg.mpr toSyn, Int.sub_nonneg.mpr toHttp, Int.sub_nonneg.mpr toAck, Int.sub_nonneg.mpr toFin⟩
  spans := by
    have own := selected.fin.own_iff.mpr (unmixed.fins _ selected.http)
    refine ⟨s.arp, s.fin, selected.arp, ⟨selected.fin.mem, ⟨selected.fin.is, own⟩, ?_⟩, ?_⟩
    · intro g mem both
      exact selected.fin.least g mem both.1
    · dsimp only [intervals]
      omega

theorem unmixed_of_oneExchange {r : Intervals} (selected : Selected c s nxt) (one : OneExchange c s r) : Unmixed c where
  opened r first := by
    rw [first.unique selected.http]
    exact ⟨s.syn, selected.syn.mem, selected.syn.is, one.opened⟩
  synacks r first := by
    rw [first.unique selected.http]
    exact selected.syn.own_iff.mp one.synack
  acks r first n read := by
    rw [first.unique selected.http] at read ⊢
    obtain rfl : n = nxt := Option.some.inj (read.symm.trans selected.nxtseq)
    exact selected.ack.own_iff.mp one.ack
  fins r first := by
    rw [first.unique selected.http]
    exact selected.fin.own_iff.mp one.fin

end

/-- The published intervals are of one exchange exactly where the frames around the
first response are led by its own connection. -/
theorem extractPcap_oneExchange_iff {pcap : Option Capture} {r : Intervals} (ok : extractPcap pcap = .ok r) :
    ∃ c s, pcap = some c ∧ select c = .ok s ∧ r = intervals c s ∧ (OneExchange c s r ↔ Unmixed c) := by
  cases pcap with
  | none => cases ok
  | some c =>
    obtain ⟨s, chosen, rfl⟩ := of_map_ok ok
    obtain ⟨nxt, selected⟩ := select_ok chosen
    exact ⟨c, s, rfl, chosen, rfl, unmixed_of_oneExchange selected, oneExchange_of_unmixed selected⟩

def sent (number : Nat) (port : U16) (flags : BitVec 12) (bytes : List U8) : Frame where
  number := number
  time := 100 * number
  ethSrc := ⟨0x52, 0x54, 0, 0x12, 0x34, 0x56⟩
  arp := none
  ip := some ⟨ourIp, gwIp⟩
  tcp := some ⟨80, port, flags, bytes.length, some (7 + bytes.length), 1⟩
  bytes := bytes

def received (number : Nat) (port : U16) (flags : BitVec 12) (ack : Nat) : Frame where
  number := number
  time := 100 * number
  ethSrc := slirpMac
  arp := none
  ip := some ⟨gwIp, ourIp⟩
  tcp := some ⟨port, 80, flags, 0, none, ack⟩
  bytes := []

def slirpRequest : Frame where
  number := 1
  time := 100
  ethSrc := slirpMac
  arp := some ⟨1, gwIp, ourIp⟩
  ip := none
  tcp := none
  bytes := []

/-- Port 1000 connects and port 2000 is answered; 1000 closes first. -/
def twoClients : Capture where
  frames := [slirpRequest, sent 2 1000 0x012 [], sent 3 2000 0x012 [], sent 4 2000 0x018 httpOk, received 5 2000 0x010 22,
    received 6 1000 0x011 1, received 7 2000 0x011 22]
  numbered := by decide +kernel
  timed := by decide +kernel

/-- The first SYN/ACK, the first response and the first FIN are of two connections. -/
theorem extractPcap_twoClients : ∃ s r, select twoClients = .ok s ∧ extractPcap (some twoClients) = .ok r ∧
    s.syn.receiver ≠ s.http.receiver ∧ s.fin.sender ≠ s.http.receiver ∧ s.syn.receiver = s.fin.sender ∧
    ¬ OneExchange twoClients s r := by
  refine ⟨⟨slirpRequest, sent 2 1000 0x012 [], sent 4 2000 0x018 httpOk, received 5 2000 0x010 22, received 6 1000 0x011 1⟩,
    ⟨100, 100, 200, 200, 15, some 100, 0⟩, by decide +kernel, by decide +kernel, by decide +kernel, by decide +kernel,
    by decide +kernel, ?_⟩
  intro one
  exact absurd one.synack (by decide +kernel)

/-- Port 2000 is answered; port 3000 connects, acknowledges and closes, each time after it. -/
def inTurn : Capture where
  frames := [slirpRequest, sent 2 2000 0x012 [], sent 3 3000 0x012 [], sent 4 2000 0x018 httpOk, received 5 2000 0x010 22,
    received 6 3000 0x010 22, received 7 2000 0x011 22, received 8 3000 0x011 22]
  numbered := by decide +kernel
  timed := by decide +kernel

theorem extractPcap_oneExchange_inTurn : ∃ s r, extractPcap (some inTurn) = .ok r ∧ select inTurn = .ok s ∧
    OneExchange inTurn s r := by
  obtain ⟨r, ok⟩ : ∃ r, extractPcap (some inTurn) = .ok r := ⟨⟨100, 100, 300, 200, 15, some 100, 0⟩, by decide +kernel⟩
  obtain ⟨c, s, isC, chosen, -, iff⟩ := extractPcap_oneExchange_iff ok
  obtain rfl := Option.some.inj isC
  have same (r : Frame) (first : First inTurn (httpFilter ·) r) : r = sent 4 2000 0x018 httpOk := by
    refine first.unique ⟨?_, ?_, ?_⟩
    · decide +kernel
    · decide +kernel
    · decide +kernel
  refine ⟨s, r, ok, chosen, iff.mpr ⟨?_, ?_, ?_, ?_⟩⟩
  · intro r first
    rw [same r first]
    decide +kernel
  · intro r first
    rw [same r first]
    unfold Led
    decide +kernel
  · intro r first nxt read
    rw [same r first] at read ⊢
    obtain rfl : 22 = nxt := Option.some.inj read
    unfold Led
    decide +kernel
  · intro r first
    rw [same r first]
    unfold Led
    decide +kernel

end Whimbrel.Pcap

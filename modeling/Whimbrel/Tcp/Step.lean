import Whimbrel.Lib.Transition
import Whimbrel.Tcp.Options

/-! The TCB as a transition system.

`handle` never panics (`handle_eq`): its checks either reject the bytes or
yield a `Segment`, which `deliver` gives to the TCB. An operation changes the
TCB in at most a few `Stage`s; everything proved about runs is proved for each
stage once and lifted by `Run.stage_history`. -/

set_option autoImplicit false

namespace Whimbrel.Tcp

open Transition

inductive Reject where
  | short
  | doff
  | csum
  | port
  deriving DecidableEq, Repr

def Statics.reject (s : Statics) : Reject → Statics
  | .short => { s with drops := { s.drops with short := s.drops.short + 1 } }
  | .doff => { s with drops := { s.drops with doff := s.drops.doff + 1 } }
  | .csum => { s with drops := { s.drops with csum := s.drops.csum + 1 } }
  | .port => { s with drops := { s.drops with port := s.drops.port + 1 } }

@[simp] theorem Statics.reject_tcb (s : Statics) (r : Reject) : (s.reject r).tcb = s.tcb := by
  cases r <;> rfl

def headerLen (payload : List U8) : Nat := (byteAt payload 12 >>> 4).toNat * 4

def segmentOf (payload : List U8) : Segment :=
  ⟨word16 payload 0, word32 payload 4, word32 payload 8, byteAt payload 13,
    payload.drop (headerLen payload)⟩

def mssOf (payload : List U8) : Option U16 :=
  match parseMss payload (headerLen payload) with
  | .ok mss => mss
  | .error _ => none

def decode (payload : List U8) (src dst : Ip) : Except Reject Segment :=
  if payload.length < hdrMin then .error .short
  else if byteAt payload 12 >>> 4 < 5 ∨ headerLen payload < hdrMin ∨
      payload.length < headerLen payload then .error .doff
  else if ¬ checksumValid src dst payload then .error .csum
  else if word16 payload 2 ≠ listenPort then .error .port
  else .ok (segmentOf payload)

def deliver (cfg : Config) (now : Usize) (s : Statics) (src : Ip) (g : Segment) (mss : Option U16) :
    Statics × Out × List Event :=
  if g.isRst then onRst s src g
  else if g.isSyn ∧ ¬ g.isAck then
    match mss with
    | none => ({ s with drops := { s.drops with opt := s.drops.opt + 1 } }, .none, [])
    | some mss => onSyn now s src g mss
  else onOther cfg now s src g

theorem parseMss_eq (payload : List U8) (within : headerLen payload ≤ payload.length) :
    parseMss payload (headerLen payload) = .ok (mssOf payload) := by
  obtain ⟨r, done⟩ := parseMss_returns within
  rw [mssOf, done]

/-- `handle` returns on every input, with what its two halves compute. -/
theorem handle_eq (cfg : Config) (now : Usize) (s : Statics) (payload : List U8) (src dst : Ip) :
    handle cfg now s payload src dst = .ok (match decode payload src dst with
      | .error r => (s.reject r, .none, [])
      | .ok g => deliver cfg now s src g (mssOf payload)) := by
  unfold handle decode
  by_cases short : payload.length < hdrMin
  · simp only [short, if_true]; rfl
  have long : 20 ≤ payload.length := by simpa [hdrMin] using short
  simp only [short, if_false, index_ok (show 12 < payload.length by omega), bind_ok,
    show (byteAt payload 12 >>> 4).toNat * 4 = headerLen payload from rfl]
  by_cases doff : byteAt payload 12 >>> 4 < 5 ∨ headerLen payload < hdrMin ∨
      payload.length < headerLen payload
  · rw [if_pos doff, if_pos doff]; rfl
  have within : headerLen payload ≤ payload.length := by
    simp only [not_or, Nat.not_lt] at doff
    exact doff.2.2
  rw [if_neg doff, if_neg doff]
  by_cases csum : checksumValid src dst payload
  swap
  · rw [if_pos csum, if_pos csum]; rfl
  rw [if_neg (not_not_intro csum), if_neg (not_not_intro csum)]
  -- past the checks every read is within the payload
  have tail : (payload.drop (headerLen payload)).take (payload.length - headerLen payload) =
      payload.drop (headerLen payload) := List.take_of_length_le (by simp)
  simp only [be16_ok (show 0 + 1 < payload.length by omega),
    be16_ok (show 2 + 1 < payload.length by omega), be32_ok (show 4 + 3 < payload.length by omega),
    be32_ok (show 8 + 3 < payload.length by omega), index_ok (show 13 < payload.length by omega),
    slice_ok within (Nat.le_refl _), bind_ok, tail]
  by_cases port : word16 payload 2 ≠ listenPort
  · rw [if_pos port, if_pos port]; rfl
  rw [if_neg port, if_neg port]
  have fields : (⟨word16 payload 0, word32 payload 4, word32 payload 8, byteAt payload 13,
      payload.drop (headerLen payload)⟩ : Segment) = segmentOf payload := rfl
  simp only [parseMss_eq payload within, bind_ok, deliver, fields]
  by_cases rst : (segmentOf payload).isRst
  · rw [if_pos rst, if_pos rst]; rfl
  rw [if_neg rst, if_neg rst]
  by_cases syn : (segmentOf payload).isSyn ∧ ¬ (segmentOf payload).isAck
  · rw [if_pos syn, if_pos syn]
    cases mssOf payload <;> rfl
  · rw [if_neg syn, if_neg syn]; rfl

/-! ## Operations -/

/-- The entry points of the module, in any order: `handle` from the poll loop,
the others from the syscalls and the RTO check. -/
inductive Op where
  | handle (now : Usize) (payload : List U8) (src dst : Ip)
  | appSend (now : Usize) (data : List U8) (fin : Bool)
  | consume
  | takeEof
  | checkRto (now : Usize)
  deriving DecidableEq, Repr

structure Label where
  op : Op
  out : Out
  /-- The result of `take_eof`. -/
  eof : Bool
  events : List Event
  deriving DecidableEq, Repr

def exec (cfg : Config) (s : Statics) (op : Op) : Result (Statics × Label) :=
  match op with
  | .handle now payload src dst => do
    let (s, out, events) ← handle cfg now s payload src dst
    return (s, ⟨op, out, false, events⟩)
  | .appSend now data fin =>
    let (t, out, events) := appSend now s.tcb data fin
    return ({ s with tcb := t }, ⟨op, out, false, events⟩)
  | .consume =>
    let (t, events) := consume s.tcb
    return ({ s with tcb := t }, ⟨op, .none, false, events⟩)
  | .takeEof =>
    let (t, eof, events) := takeEof s.tcb
    return ({ s with tcb := t }, ⟨op, .none, eof, events⟩)
  | .checkRto now =>
    let (t, out, events) := checkRto now s.tcb
    return ({ s with tcb := t }, ⟨op, out, false, events⟩)

def Step (cfg : Config) (s : Statics) (l : Label) (t : Statics) : Prop :=
  exec cfg s l.op = .ok (t, l)

/-- No operation panics, whatever the state and the input. -/
theorem exec_total (cfg : Config) (s : Statics) (op : Op) :
    ∃ t l, exec cfg s op = .ok (t, l) ∧ l.op = op := by
  cases op with
  | handle now payload src dst =>
    simp only [exec, handle_eq, bind_ok]
    exact ⟨_, _, rfl, rfl⟩
  | appSend | consume | takeEof | checkRto => exact ⟨_, _, rfl, rfl⟩

def execAll (cfg : Config) (s : Statics) : List Op → Result (Statics × List Label)
  | [] => return (s, [])
  | op :: ops => do
    let (s, l) ← exec cfg s op
    let (s, ls) ← execAll cfg s ops
    return (s, l :: ls)

theorem exec_op {cfg : Config} {s t : Statics} {op : Op} {l : Label}
    (done : exec cfg s op = .ok (t, l)) : l.op = op := by
  obtain ⟨t', l', result, same⟩ := exec_total cfg s op
  rw [done] at result
  cases result
  exact same

theorem execAll_run {cfg : Config} {ops : List Op} {s t : Statics} {ls : List Label}
    (done : execAll cfg s ops = .ok (t, ls)) : Run (Step cfg) s ls t := by
  induction ops generalizing s ls with
  | nil =>
    cases done
    exact .nil
  | cons op ops ih =>
    obtain ⟨s', l, first, same⟩ := exec_total cfg s op
    simp only [execAll, first, bind_ok] at done
    cases rest : execAll cfg s' ops with
    | error => simp [rest] at done
    | ok pair =>
      simp only [rest, bind_ok, pure_eq_ok, Except.ok.injEq, Prod.mk.injEq] at done
      obtain ⟨rfl, rfl⟩ := done
      refine .cons ?_ (ih rest)
      rw [Step, same, first]

theorem execAll_total (cfg : Config) (s : Statics) (ops : List Op) :
    ∃ t ls, execAll cfg s ops = .ok (t, ls) := by
  induction ops generalizing s with
  | nil => exact ⟨s, [], rfl⟩
  | cons op ops ih =>
    obtain ⟨t, l, first, _⟩ := exec_total cfg s op
    obtain ⟨u, ls, rest⟩ := ih t
    exact ⟨u, l :: ls, by simp [execAll, first, rest]⟩

def runOps (cfg : Config) (s : Statics) (ops : List Op) : Statics × List Label :=
  match execAll cfg s ops with
  | .ok done => done
  | .error _ => (s, [])

theorem runOps_run (cfg : Config) (s : Statics) (ops : List Op) :
    Run (Step cfg) s (runOps cfg s ops).2 (runOps cfg s ops).1 := by
  obtain ⟨t, ls, done⟩ := execAll_total cfg s ops
  rw [runOps, done]
  exact execAll_run done

def StepWhen (cfg : Config) (ok : Tcb → Op → Prop) (s : Statics) (l : Label) (t : Statics) : Prop :=
  Step cfg s l t ∧ ok s.tcb l.op

def meets (cfg : Config) (ok : Tcb → Op → Prop) [∀ t op, Decidable (ok t op)] (s : Statics) : List Op → Bool
  | [] => true
  | op :: ops => ok s.tcb op ∧ meets cfg ok (runOps cfg s [op]).1 ops

theorem runOps_when {cfg : Config} {ok : Tcb → Op → Prop} [∀ t op, Decidable (ok t op)] {s : Statics}
    {ops : List Op} (met : meets cfg ok s ops) :
    Run (StepWhen cfg ok) s (runOps cfg s ops).2 (runOps cfg s ops).1 := by
  induction ops generalizing s with
  | nil => exact .nil
  | cons op ops ih =>
    obtain ⟨t, l, first, same⟩ := exec_total cfg s op
    obtain ⟨u, ls, rest⟩ := execAll_total cfg t ops
    simp only [meets, runOps, execAll, first, bind_ok, pure_eq_ok, decide_eq_true_eq] at met
    have later := ih met.2
    simp only [runOps, execAll, first, rest, bind_ok, pure_eq_ok] at later ⊢
    refine .cons ⟨?_, ?_⟩ later
    · rw [Step, same, first]
    · rw [same]
      exact met.1

/-! ## What a segment can do, read off the state before it -/

/-- A segment that passed the checks of `handle`. -/
structure Arrival where
  now : Usize
  src : Ip
  seg : Segment
  mss : Option U16
  deriving DecidableEq, Repr

/-- The segment an operation brings, if it is `handle` and the checks pass. -/
def Op.arrival : Op → Option Arrival
  | .handle now payload src dst =>
    match decode payload src dst with
    | .ok g => some ⟨now, src, g, mssOf payload⟩
    | .error _ => none
  | _ => none

def OnArrival (p : Arrival → Prop) (op : Op) : Prop := ∀ a, op.arrival = some a → p a

instance (p : Arrival → Prop) [DecidablePred p] (op : Op) : Decidable (OnArrival p op) :=
  match arrives : op.arrival with
  | none => .isTrue (by simp [OnArrival, arrives])
  | some a => decidable_of_iff (p a) (by simp [OnArrival, arrives])

/-- The segment is for the open connection and is neither RST nor SYN. -/
structure Reaches (t : Tcb) (a : Arrival) : Prop where
  notRst : ¬ a.seg.isRst
  notSyn : ¬ (a.seg.isSyn ∧ ¬ a.seg.isAck)
  isOpen : t.state ≠ .listen
  tuple : sameTuple t a.src a.seg.sport

theorem reaches_iff {t : Tcb} {a : Arrival} :
    (¬ a.seg.isRst ∧ ¬ (a.seg.isSyn ∧ ¬ a.seg.isAck) ∧ t.state ≠ .listen ∧ sameTuple t a.src a.seg.sport) ↔
      Reaches t a :=
  ⟨fun ⟨rst, syn, isOpen, tuple⟩ => ⟨rst, syn, isOpen, tuple⟩,
    fun ⟨rst, syn, isOpen, tuple⟩ => ⟨rst, syn, isOpen, tuple⟩⟩

instance (t : Tcb) (a : Arrival) : Decidable (Reaches t a) := decidable_of_iff _ reaches_iff

def acks (cfg : Config) (t : Tcb) (g : Segment) : Prop := g.isAck ∧ ackMatches cfg t g.ack

def ackCloses (cfg : Config) (t : Tcb) (g : Segment) : Prop :=
  acks cfg t g ∧ (t.state = .finWait1 ∧ t.peerFin ∨ t.state = .lastAck)

def handshakes (t : Tcb) (g : Segment) : Prop :=
  t.state = .synRcvd → g.isAck ∧ ¬ g.isSyn ∧ g.ack = t.sndNxt ∧ g.seq = t.rcvNxt

/-- `queue_rx` would take its payload. -/
def takesData (t : Tcb) (g : Segment) : Prop :=
  g.data ≠ [] ∧ g.seq = t.rcvNxt ∧ ¬ t.rxPending ∧ g.data.length ≤ payloadMax

instance (cfg : Config) (t : Tcb) (g : Segment) : Decidable (acks cfg t g) :=
  inferInstanceAs (Decidable (_ ∧ _))

instance (cfg : Config) (t : Tcb) (g : Segment) : Decidable (ackCloses cfg t g) :=
  inferInstanceAs (Decidable (_ ∧ _))

instance (t : Tcb) (g : Segment) : Decidable (handshakes t g) :=
  inferInstanceAs (Decidable (_ → _))

instance (t : Tcb) (g : Segment) : Decidable (takesData t g) :=
  inferInstanceAs (Decidable (_ ∧ _))

def rcvAfter (t : Tcb) (g : Segment) : U32 :=
  if takesData t g then t.rcvNxt + BitVec.ofNat 32 g.data.length else t.rcvNxt

def takesFin (cfg : Config) (t : Tcb) (g : Segment) : Prop :=
  g.isFin ∧ ¬ holdAcks cfg t ∧ (g.data = [] ∨ g.seq = t.rcvNxt) ∧
    g.seq + BitVec.ofNat 32 g.data.length = rcvAfter t g

instance (cfg : Config) (t : Tcb) (g : Segment) : Decidable (takesFin cfg t g) :=
  inferInstanceAs (Decidable (_ ∧ _))

end Whimbrel.Tcp

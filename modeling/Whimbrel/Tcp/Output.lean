import Whimbrel.Tcp.Invariant
import Whimbrel.Tcp.Wire

/-! What an operation puts on the wire, and which events go with it.

Only two places emit data or a FIN: `send_unacked` and the retransmission of
`check_rto`. Both rebuild the segment from the TCB, and `flightSeg` is what
they build. -/

set_option autoImplicit false

namespace Whimbrel.Tcp

open Transition

def flightSeg (t : Tcb) : Out := seg t t.sndUna (flightFlags t) t.unackedLen

def Event.transmits : Event → Bool
  | .sent _ | .resent _ | .rtoReset => true
  | _ => false

/-- No transmission starts, repeats or is given up. -/
def Calm (events : List Event) : Prop := ∀ e ∈ events, ¬ e.transmits

instance (events : List Event) : Decidable (Calm events) := inferInstanceAs (Decidable (∀ e ∈ events, _))

theorem Calm.nil : Calm [] := by decide

theorem Calm.append {es fs : List Event} (first : Calm es) (second : Calm fs) : Calm (es ++ fs) := by
  intro e member
  rcases List.mem_append.mp member with before | after
  · exact first e before
  · exact second e after

/-- The output and the events of an operation from `s` to `t`. Whatever
acknowledges, acknowledges up to `rcv_nxt`. -/
inductive Emits (s t : Tcb) : Out → List Event → Prop where
  | silent {events : List Event} (calm : Calm events) : Emits s t .none events
  | synAck {events : List Event} {ip : Ip} {port : U16} {seq : U32} (calm : Calm events) :
      Emits s t (.synAck ip port seq t.rcvNxt) events
  | ack {events : List Event} {ip : Ip} {port : U16} {seq : U32} (calm : Calm events) :
      Emits s t (.seg ip port seq t.rcvNxt Flag.ack 0) events
  | start {events : List Event} (now : Usize) (calm : Calm events) :
      Emits s t (flightSeg t) (events ++ [.sent (emissionOf now t)])
  | again (now : Usize) : Emits s t (flightSeg t) [.resent (emissionOf now t)]
  | reset : t = listenReset s → Emits s t (rstSeg s) [.rtoReset]

section
variable {cfg : Config} {t0 t : Tcb} {events : List Event}

theorem ackPart_calm (t : Tcb) (g : Segment) : Calm (ackPart cfg t g).2 := by
  unfold ackPart onTheirAck
  split
  · split
    · dsimp only
      split
      · split <;> simp [Calm, Event.transmits]
      · simp [Calm, Event.transmits]
      · simp [Calm, Event.transmits]
    · simp [Calm, Event.transmits]
  · simp [Calm, Event.transmits]

theorem onData_calm {s s' : Statics} {needAck : Bool} {g : Segment}
    (offered : onData s g = some (s', needAck, events)) : Calm events := by
  rcases onData_cases g offered with ⟨_, _, _, rfl⟩ | ⟨_, _, _, rfl, _⟩
  · simp [Calm, Event.transmits]
  · decide

theorem onFin_emits (now : Usize) (s : Statics) (src : Ip) (g : Segment) (needAck : Bool)
    (calm : Calm events) :
    Emits t0 (onFin cfg now s src g needAck).1.tcb (onFin cfg now s src g needAck).2.1
      (events ++ (onFin cfg now s src g needAck).2.2) := by
  have fin (marked : Bool) : Calm [.fin marked] := by simp [Calm, Event.transmits]
  unfold onFin
  by_cases isFin : g.isFin
  swap
  · rw [if_neg isFin]
    have quiet : Calm (events ++ []) := by rwa [List.append_nil]
    cases needAck with
    | false => exact .silent quiet
    | true => exact .ack quiet
  rw [if_pos isFin]
  split
  · exact .silent (by rwa [List.append_nil])
  split
  · exact .ack (by rwa [List.append_nil])
  have same : (acceptFin s.tcb).state = s.tcb.state := rfl
  simp only [same]
  -- Only the close of an unused TCB starts a transmission of its own.
  cases s.tcb.state with
  | established =>
    dsimp only
    split
    · rw [← List.singleton_append, ← List.append_assoc]
      exact .start now (calm.append (fin _))
    · exact .ack (calm.append (fin _))
  | finWait2 => exact .ack (calm.append (by simp [Calm, Event.transmits]))
  | listen | synRcvd | finWait1 | closeWait | lastAck => exact .ack (calm.append (fin _))

theorem onOpen_emits (now : Usize) (s : Statics) (src : Ip) (g : Segment) :
    Emits t0 (onOpen cfg now s src g).1.tcb (onOpen cfg now s src g).2.1 (onOpen cfg now s src g).2.2 := by
  have calm := @ackPart_calm cfg s.tcb g
  unfold onOpen
  simp only [show (if g.isAck = true then onTheirAck cfg s.tcb g.ack else (s.tcb, [])) =
    ackPart cfg s.tcb g from rfl]
  generalize ackPart cfg s.tcb g = ackResult at calm
  obtain ⟨t, ackEvents⟩ := ackResult
  dsimp only at calm ⊢
  split
  · exact .silent calm
  cases onSynRcvd { s with tcb := t } g with
  | none => exact .silent calm
  | some s1 =>
    cases offered : onData s1 g with
    | none =>
      simp only [offered]
      exact .ack calm
    | some taken =>
      obtain ⟨s2, needAck, queued⟩ := taken
      simp only [offered]
      exact onFin_emits now s2 src g needAck (calm.append (onData_calm offered))

theorem deliver_emits (now : Usize) (s : Statics) (src : Ip) (g : Segment) (mss : Option U16) :
    Emits t0 (deliver cfg now s src g mss).1.tcb (deliver cfg now s src g mss).2.1
      (deliver cfg now s src g mss).2.2 := by
  unfold deliver
  split
  · unfold onRst
    split
    · exact .silent (by decide : Calm [.aborted])
    · exact .silent .nil
  split
  · cases mss with
    | none => exact .silent .nil
    | some mss =>
      dsimp only [onSyn]
      cases s.tcb.state with
      | listen => exact .synAck (by decide : Calm [.opened])
      | synRcvd =>
        dsimp only
        by_cases again : sameTuple s.tcb src g.sport ∧ g.seq = s.tcb.theirIsn
        · rw [if_pos again]
          exact .synAck .nil
        · rw [if_neg again]
          exact .silent .nil
      | established | finWait1 | finWait2 | closeWait | lastAck => exact .silent .nil
  unfold onOther
  split
  · exact .silent .nil
  split
  · exact .silent .nil
  · exact onOpen_emits now s src g

end

theorem appSend_emits (now : Usize) (t : Tcb) (data : List U8) (fin : Bool) :
    Emits t (appSend now t data fin).1 (appSend now t data fin).2.1 (appSend now t data fin).2.2 := by
  unfold appSend
  split
  · exact .silent .nil
  split
  · exact .silent .nil
  split
  · exact @Emits.start _ _ [] now .nil
  · exact .silent .nil

theorem consume_calm (t : Tcb) : Calm (consume t).2 := by
  unfold consume
  cases pendingBytes t <;> simp [Calm, Event.transmits]

theorem takeEof_calm (t : Tcb) : Calm (takeEof t).2.2 := by
  unfold takeEof
  split <;> simp [Calm, Event.transmits]

theorem checkRto_emits (now : Usize) (t : Tcb) :
    Emits t (checkRto now t).1 (checkRto now t).2.1 (checkRto now t).2.2 := by
  unfold checkRto
  split
  · exact .silent .nil
  split
  · exact .silent .nil
  split
  · exact .reset rfl
  · exact .again now

theorem Step.emits {cfg : Config} {s t : Statics} {l : Label} (step : Step cfg s l t) :
    Emits s.tcb t.tcb l.out l.events := by
  obtain ⟨op, out, eof, events⟩ := l
  cases op with
  | handle now payload src dst =>
    simp only [Step, exec, handle_eq, bind_ok] at step
    cases decoded : decode payload src dst with
    | error r =>
      rw [decoded] at step
      cases step
      exact .silent .nil
    | ok g =>
      rw [decoded] at step
      cases step
      exact deliver_emits now s src g (mssOf payload)
  | appSend now data fin =>
    cases step
    exact appSend_emits now s.tcb data fin
  | consume =>
    cases step
    exact .silent (consume_calm s.tcb)
  | takeEof =>
    cases step
    exact .silent (takeEof_calm s.tcb)
  | checkRto now =>
    cases step
    exact checkRto_emits now s.tcb

theorem Emits.dataLen {s t : Tcb} {events : List Event} {ip : Ip} {port : U16} {seq ack : U32}
    {flags : U8} {dataLen : Nat} (emits : Emits s t (.seg ip port seq ack flags dataLen) events)
    (positive : 0 < dataLen) : dataLen = t.unackedLen := by
  generalize same : Out.seg ip port seq ack flags dataLen = out at emits
  cases emits with
  | silent | synAck => cases same
  | ack | reset => 
    cases same
    exact absurd positive (Nat.lt_irrefl 0)
  | start | again =>
    cases same
    rfl

def Out.ack? : Out → Option U32
  | .none => Option.none
  | .synAck _ _ _ ack => some ack
  | .seg _ _ _ ack _ _ => some ack

/-- Everything on the wire acknowledges up to `rcv_nxt` as it is afterwards. -/
theorem Emits.ack_eq {s t : Tcb} {events : List Event} {out : Out} (emits : Emits s t out events)
    {ack : U32} (carries : out.ack? = some ack) : ack = t.rcvNxt := by
  cases emits with
  | silent => cases carries
  | synAck | ack | start | again =>
    cases carries
    rfl
  | reset same =>
    cases carries
    rw [same]
    rfl

theorem TcbInv.unackedLen_le {t : Tcb} (inv : TcbInv t) : t.unackedLen ≤ payloadMax := by
  by_cases flying : t.inflight
  · exact inv.fits flying
  · rw [(inv.idle flying).1]
    exact Nat.zero_le _

theorem TcbInv.unackedBytes_eq {t : Tcb} (inv : TcbInv t) :
    unackedBytes t = .ok (t.unacked.bytes.take t.unackedLen) := by
  have fits : t.unackedLen ≤ t.unacked.bytes.length := by
    rw [t.unacked.full]
    exact inv.unackedLen_le
  rw [unackedBytes, slice_ok (Nat.zero_le _) fits]
  rfl

/-- From the static TCB, whatever is called in whatever order: the invariant
holds, the next call returns, and a segment it emits with data carries exactly
`unacked_bytes()`. -/
theorem run_tcbInv {cfg : Config} {ls : List Label} {t : Statics}
    (run : Run (Step cfg) Statics.init ls t) :
    TcbInv t.tcb ∧ ∀ op, ∃ u l, exec cfg t op = .ok (u, l) ∧
      ∀ ip port seq ack flags dataLen, l.out = .seg ip port seq ack flags dataLen → 0 < dataLen →
        ∃ bytes, unackedBytes u.tcb = .ok bytes ∧ dataLen = bytes.length := by
  have inv : TcbInv t.tcb := .run run .init
  refine ⟨inv, ?_⟩
  intro op
  obtain ⟨u, l, done, same⟩ := exec_total cfg t op
  have step : Step cfg t l u := by rw [Step, same, done]
  have next : TcbInv u.tcb := .run (.single step) inv
  refine ⟨u, l, done, ?_⟩
  intro ip port seq ack flags dataLen out positive
  have emits := step.emits
  rw [out] at emits
  refine ⟨_, next.unackedBytes_eq, ?_⟩
  rw [List.length_take, u.tcb.unacked.full, Nat.min_eq_left next.unackedLen_le]
  exact emits.dataLen positive

def Out.Bare : Out → Prop
  | .none | .synAck .. => True
  | .seg _ _ _ _ _ dataLen => dataLen = 0

section
variable {cfg : Config}

theorem onFin_bare (now : Usize) (s : Statics) (src : Ip) (g : Segment) (needAck : Bool) :
    (onFin cfg now s src g needAck).2.1.Bare := by
  unfold onFin
  by_cases isFin : g.isFin
  swap
  · rw [if_neg isFin]
    cases needAck
    · trivial
    · rfl
  rw [if_pos isFin]
  split
  · trivial
  split
  · rfl
  dsimp only
  split
  · split <;> rfl
  · rfl
  · rfl

theorem onOpen_bare (now : Usize) (s : Statics) (src : Ip) (g : Segment) : (onOpen cfg now s src g).2.1.Bare := by
  unfold onOpen
  generalize (if g.isAck = true then onTheirAck cfg s.tcb g.ack else (s.tcb, [])) = acked
  obtain ⟨t, ackEvents⟩ := acked
  dsimp only
  split
  · trivial
  cases onSynRcvd { s with tcb := t } g with
  | none => trivial
  | some s1 =>
    cases offered : onData s1 g with
    | none =>
      simp only [offered]
      rfl
    | some taken =>
      simp only [offered]
      exact onFin_bare now _ src g _

theorem deliver_bare (now : Usize) (s : Statics) (src : Ip) (g : Segment) (mss : Option U16) :
    (deliver cfg now s src g mss).2.1.Bare := by
  unfold deliver
  split
  · unfold onRst
    split <;> trivial
  split
  · cases mss with
    | none => trivial
    | some mss =>
      dsimp only [onSyn]
      cases s.tcb.state with
      | synRcvd =>
        dsimp only
        split <;> trivial
      | listen | established | finWait1 | finWait2 | closeWait | lastAck => trivial
  unfold onOther
  split
  · trivial
  split
  · trivial
  · exact onOpen_bare now s src g

theorem handle_bare {now : Usize} {s t : Statics} {payload : List U8} {src dst : Ip} {l : Label}
    (done : exec cfg s (.handle now payload src dst) = .ok (t, l)) : l.out.Bare := by
  simp only [exec, handle_eq, bind_ok, pure_eq_ok, Except.ok.injEq, Prod.mk.injEq] at done
  rw [← done.2]
  cases decode payload src dst with
  | error => trivial
  | ok g => exact deliver_bare now s src g _

end

def takesSend (t : Tcb) (len : Nat) : Bool :=
  (t.state = .established ∨ t.state = .closeWait) ∧ ¬ (t.appSent ∨ t.inflight) ∧ len ≤ payloadMax

theorem appSend_refused {now : Usize} {t : Tcb} {data : List U8} {fin : Bool}
    (refused : takesSend t data.length = false) : appSend now t data fin = (t, .none, []) := by
  unfold appSend
  split
  · rfl
  split
  · rfl
  · rename_i open_ idle
    rw [dif_neg]
    intro fits
    simp only [takesSend, decide_eq_false_iff_not] at refused
    exact refused ⟨by tauto, idle, fits⟩

/-- What `app_send` takes goes out whole. -/
theorem appSend_length {now : Usize} {t : Tcb} {data : List U8} {fin : Bool} (takes : takesSend t data.length) :
    ∃ seq ack flags, (appSend now t data fin).2.1 = .seg t.remoteIp t.remotePort seq ack flags data.length := by
  simp only [takesSend, decide_eq_true_eq] at takes
  obtain ⟨opened, idle, fits⟩ := takes
  unfold appSend
  rw [if_neg (by tauto), if_neg idle, dif_pos fits]
  exact ⟨_, _, _, rfl⟩

theorem appSend_taken {now : Usize} {t : Tcb} {data : List U8} {fin : Bool}
    (takes : takesSend t data.length) : (appSend now t data fin).2.1 ≠ .none := by
  obtain ⟨_, _, _, sends⟩ := @appSend_length now t data fin takes
  rw [sends]
  exact fun none => by cases none

def sendingOps : List Op :=
  [.handle 0 (peerSeg 100 0 Flag.syn []) gwIp ourIp, .handle 0 (peerSeg 101 1 Flag.ack []) gwIp ourIp,
    .appSend 0 [1, 2, 3] true]

theorem run_tcbInv_sending :
    (runOps .default .init sendingOps).1.tcb.inflight ∧ TcbInv (runOps .default .init sendingOps).1.tcb :=
  ⟨by decide +kernel, (run_tcbInv (runOps_run .default .init sendingOps)).1⟩

end Whimbrel.Tcp

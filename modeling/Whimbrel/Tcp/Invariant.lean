import Whimbrel.Tcp.Stage

/-! The TCB invariant.

`TcbInv` relates the twenty fields that the entry points update piecemeal. It
holds of the static TCB, every stage preserves it, and so does every run. -/

set_option autoImplicit false

namespace Whimbrel.Tcp

open Transition

/-- The sequence numbers that the segment in flight takes up. -/
def flightSpan (t : Tcb) : U32 := BitVec.ofNat 32 t.unackedLen + if t.unackedFin then 1 else 0

structure TcbInv (t : Tcb) : Prop where
  span : t.inflight → t.sndNxt = t.sndUna + flightSpan t
  fits : t.inflight → t.unackedLen ≤ payloadMax
  tries : t.inflight → 1 ≤ t.tries ∧ t.tries ≤ rtoMax
  idle : ¬ t.inflight → t.unackedLen = 0 ∧ t.unackedFin = false
  acked : ¬ t.inflight → t.state ≠ .listen → t.sndUna = t.sndNxt
  closing : t.state = .finWait1 ∨ t.state = .lastAck → t.inflight ∧ t.unackedFin
  quiet : t.state = .listen ∨ t.state = .synRcvd ∨ t.state = .finWait2 → ¬ t.inflight
  fresh : t.state = .listen ∨ t.state = .synRcvd →
    ¬ t.rxPending ∧ ¬ t.sawData ∧ ¬ t.appSent ∧ ¬ t.peerFin
  finWait2 : t.state = .finWait2 → ¬ t.peerFin
  unread : t.rxPending → 1 ≤ t.rxLen ∧ t.rxLen ≤ payloadMax ∧ t.sawData
  /-- Only `send` and the close of an unused TCB put a segment in flight. -/
  used : t.inflight → t.appSent ∨ t.state = .lastAck
  peerClosed : t.state = .closeWait ∨ t.state = .lastAck → t.peerFin

theorem TcbInv.init : TcbInv Tcb.init := by
  constructor <;> simp [Tcb.init]

theorem TcbInv.reset (t : Tcb) : TcbInv (listenReset t) := by
  constructor <;> simp [listenReset]

section
variable {t : Tcb}

theorem TcbInv.acceptSyn (inv : TcbInv t) (listens : t.state = .listen) (now : Usize) (src : Ip)
    (g : Segment) (mss : U16) : TcbInv (acceptSyn now t src g mss) := by
  have idle := inv.quiet (.inl listens)
  have fresh := inv.fresh (.inl listens)
  have empty := inv.idle idle
  constructor <;> simp_all [Tcp.acceptSyn]

theorem TcbInv.ackFlight (inv : TcbInv t) {cfg : Config} {ack : U32} (matched : ackMatches cfg t ack)
    (notFinWait1 : t.state ≠ .finWait1) (notLastAck : t.state ≠ .lastAck) :
    TcbInv (ackFlight t ack) := by
  have same : ack = t.sndNxt := by
    simp only [ackMatches, Bool.and_eq_true, beq_iff_eq] at matched
    exact matched.1.2
  have fresh := inv.fresh
  have finWait2 := inv.finWait2
  have unread := inv.unread
  have peerClosed := inv.peerClosed
  constructor <;> simp_all [Tcp.ackFlight]

theorem TcbInv.finAcked (inv : TcbInv t) {cfg : Config} {ack : U32} (matched : ackMatches cfg t ack)
    (noFin : ¬ t.peerFin) : TcbInv { Tcp.ackFlight t ack with state := .finWait2 } := by
  have same : ack = t.sndNxt := by
    simp only [ackMatches, Bool.and_eq_true, beq_iff_eq] at matched
    exact matched.1.2
  have unread := inv.unread
  constructor <;> simp_all [Tcp.ackFlight]

theorem TcbInv.established (inv : TcbInv t) (synRcvd : t.state = .synRcvd) :
    TcbInv { t with state := .established } := by
  have idle := inv.quiet (.inr (.inl synRcvd))
  have empty := inv.idle idle
  have acked := inv.acked idle (by simp [synRcvd])
  have unread := inv.unread
  constructor <;> simp_all

theorem TcbInv.queued (inv : TcbInv t) (isOpen : t.state ≠ .listen) (isSynced : t.state ≠ .synRcvd)
    {data : List U8} (some : data ≠ []) (fits : data.length ≤ payloadMax) :
    TcbInv (advance (storeRx t data fits) data) := by
  have positive : 1 ≤ data.length := List.length_pos_iff.mpr some
  exact {
    span := inv.span
    fits := inv.fits
    tries := inv.tries
    idle := inv.idle
    acked := inv.acked
    closing := inv.closing
    quiet := inv.quiet
    fresh := fun early => absurd early (not_or.mpr ⟨isOpen, isSynced⟩)
    finWait2 := inv.finWait2
    unread := fun _ => ⟨positive, fits, rfl⟩
    used := inv.used
    peerClosed := inv.peerClosed }

theorem TcbInv.finStays (inv : TcbInv t)
    (closing : t.state = .finWait1 ∨ t.state = .closeWait ∨ t.state = .lastAck) :
    TcbInv (acceptFin t) where
  span := inv.span
  fits := inv.fits
  tries := inv.tries
  idle := inv.idle
  acked := inv.acked
  closing := inv.closing
  quiet := inv.quiet
  fresh early := by rcases closing with h | h | h <;> simp [acceptFin, rxFin, h] at early
  finWait2 finWait2 := by rcases closing with h | h | h <;> simp [acceptFin, rxFin, h] at finWait2
  unread := inv.unread
  used := inv.used
  peerClosed _ := rfl

theorem TcbInv.finCloseWait (inv : TcbInv t) (established : t.state = .established) :
    TcbInv { acceptFin t with state := .closeWait } where
  span := inv.span
  fits := inv.fits
  tries := inv.tries
  idle := inv.idle
  acked idle _ := inv.acked idle (by simp [established])
  closing closing := by simp at closing
  quiet quiet := by simp at quiet
  fresh early := by simp at early
  finWait2 finWait2 := by simp at finWait2
  unread := inv.unread
  used flying := by
    rcases inv.used flying with sent | last
    · exact .inl sent
    · simp [established] at last
  peerClosed _ := rfl

theorem TcbInv.sendUnacked (now : Usize) (fits : t.unackedLen ≤ payloadMax)
    (closing : t.state = .finWait1 ∨ t.state = .lastAck → t.unackedFin)
    (later : ¬ (t.state = .listen ∨ t.state = .synRcvd ∨ t.state = .finWait2))
    (used : t.appSent ∨ t.state = .lastAck)
    (peerClosed : t.state = .closeWait ∨ t.state = .lastAck → t.peerFin)
    (unread : t.rxPending → 1 ≤ t.rxLen ∧ t.rxLen ≤ payloadMax ∧ t.sawData) :
    TcbInv (Tcp.sendUnacked now t).1 where
  span _ := by
    cases fin : t.unackedFin <;> simp [Tcp.sendUnacked, armRto, flightSpan, fin, BitVec.add_assoc]
  fits _ := fits
  tries _ := (by decide : (1 : U8) ≤ 1 ∧ (1 : U8) ≤ rtoMax)
  idle idle := by simp [Tcp.sendUnacked, armRto] at idle
  acked idle := by simp [Tcp.sendUnacked, armRto] at idle
  closing states := ⟨rfl, closing states⟩
  quiet states := absurd states later
  fresh states := absurd (states.imp_right .inl) later
  finWait2 state := absurd (.inr (.inr state)) later
  unread := unread
  used _ := used
  peerClosed := peerClosed

theorem TcbInv.appSend (inv : TcbInv t) (now : Usize) (data : List U8) (fin : Bool)
    (ready : t.state = .established ∨ t.state = .closeWait) (fits : data.length ≤ payloadMax) :
    TcbInv (Tcp.sendUnacked now { storeUnacked t data fin fits with state := sendState t fin }).1 := by
  refine .sendUnacked now fits ?_ ?_ (.inl rfl) ?_ inv.unread
  · rcases ready with state | state <;> cases fin <;> simp [sendState, storeUnacked, state]
  · rcases ready with state | state <;> cases fin <;> simp [sendState, state]
  · intro closed
    apply inv.peerClosed
    rcases ready with state | state
    · cases fin <;> simp [sendState, state] at closed
    · exact .inl state

theorem TcbInv.closeUnused (inv : TcbInv t) (now : Usize) (fin : t.peerFin) :
    TcbInv (Tcp.closeUnused now t).1 :=
  .sendUnacked now (Nat.zero_le _) (fun _ => rfl) (by simp) (.inr rfl) (fun _ => fin) inv.unread

theorem TcbInv.consume (inv : TcbInv t) : TcbInv (Tcp.consume t).1 where
  span := inv.span
  fits := inv.fits
  tries := inv.tries
  idle := inv.idle
  acked := inv.acked
  closing := inv.closing
  quiet := inv.quiet
  fresh early := ⟨by simp [Tcp.consume], (inv.fresh early).2⟩
  finWait2 := inv.finWait2
  unread unread := by simp [Tcp.consume] at unread
  used := inv.used
  peerClosed := inv.peerClosed

theorem TcbInv.takeEof (inv : TcbInv t) : TcbInv { t with eof := false } :=
  ⟨inv.span, inv.fits, inv.tries, inv.idle, inv.acked, inv.closing, inv.quiet, inv.fresh, inv.finWait2,
    inv.unread, inv.used, inv.peerClosed⟩

theorem tries_succ_le {n : U8} (more : n < rtoMax) : 1 ≤ n + 1 ∧ n + 1 ≤ rtoMax := by
  have bound : n.toNat < 8 := more
  refine ⟨?_, ?_⟩
  · rw [BitVec.le_def, BitVec.toNat_add]
    simp
    omega
  · rw [BitVec.le_def, BitVec.toNat_add]
    simp [rtoMax]
    omega

theorem TcbInv.countTry (inv : TcbInv t) (now : Usize) (flying : t.inflight) (more : t.tries < rtoMax) :
    TcbInv (Tcp.countTry now t) where
  span := inv.span
  fits := inv.fits
  tries _ := by
    rw [Tcp.countTry, saturatingSucc_of_lt more]
    exact tries_succ_le more
  idle idle := absurd flying idle
  acked idle := absurd flying idle
  closing := inv.closing
  quiet := inv.quiet
  fresh := inv.fresh
  finWait2 := inv.finWait2
  unread := inv.unread
  used := inv.used
  peerClosed := inv.peerClosed

/-- Every stage preserves the invariant; the guard of the stage is what each case needs. -/
theorem TcbInv.stage {cfg : Config} {t0 u : Tcb} {op : Op} {events : List Event} (inv : TcbInv t)
    (stage : Stage cfg t0 op t events u) : TcbInv u := by
  cases stage with
  | aborted | ackCloses | finTimeWait | rtoReset => exact .reset _
  | opened _ _ _ _ listens => exact inv.acceptSyn listens _ _ _ _
  | acked _ _ acks notFinWait1 notLastAck => exact inv.ackFlight acks.2 notFinWait1 notLastAck
  | finAcked _ _ acks _ noFin => exact inv.finAcked acks.2 noFin
  | established _ _ _ synRcvd => exact inv.established synRcvd
  | queued _ past takes => exact inv.queued past.isOpen past.isSynced takes.1 takes.2.2.2
  | finUnused _ _ established _ => exact (inv.finCloseWait established).closeUnused _ rfl
  | finCloseWait _ _ established _ => exact inv.finCloseWait established
  | finStays _ _ closing => exact inv.finStays closing
  | sent _ ready _ _ fits => exact inv.appSend _ _ _ ready fits
  | consumed => exact inv.consume
  | eofTaken => exact inv.takeEof
  | resent _ flying _ more => exact inv.countTry _ flying more

end

theorem TcbInv.run {cfg : Config} {s t : Statics} {ls : List Label} (run : Run (Step cfg) s ls t)
    (inv : TcbInv s.tcb) : TcbInv t.tcb := by
  have guarded : Run (StepWhen cfg fun _ _ => True) s ls t := run.mono fun _ _ _ step => ⟨step, trivial⟩
  exact stage_history (J := fun _ t => TcbInv t) (fun _ _ _ _ _ _ _ held stage => held.stage stage)
    guarded [] inv

end Whimbrel.Tcp

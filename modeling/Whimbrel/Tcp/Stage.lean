import Whimbrel.Tcp.Step

/-! An operation as a short sequence of TCB changes.

`handle` can acknowledge our segment, finish the handshake, queue a payload
and count a FIN in one call. `Stage` lists each such change with its guard;
`Step.stages` takes every operation apart into them. -/

set_option autoImplicit false

namespace Whimbrel.Tcp

open Transition

/-- The TCB `t` that the data and FIN code sees, against `t0` before the segment. -/
structure Past (cfg : Config) (t0 : Tcb) (a : Arrival) (t : Tcb) : Prop where
  reaches : Reaches t0 a
  notCloses : ¬ ackCloses cfg t0 a.seg
  handshake : handshakes t0 a.seg
  isOpen : t.state ≠ .listen
  isSynced : t.state ≠ .synRcvd
  peerFin : t.peerFin = t0.peerFin
  appSent : t.appSent = t0.appSent
  rexmit : t.rexmit = t0.rexmit
  /-- FIN_WAIT_2 is reached by the segment's own ACK or was there before. -/
  finWait2 : t.state = .finWait2 ↔ t0.state = .finWait2 ∨ t0.state = .finWait1 ∧ acks cfg t0 a.seg

structure PastAck (cfg : Config) (t0 : Tcb) (a : Arrival) (t : Tcb) : Prop
    extends Past cfg t0 a t where
  rcvNxt : t.rcvNxt = t0.rcvNxt
  rxPending : t.rxPending = t0.rxPending

structure PastData (cfg : Config) (t0 : Tcb) (a : Arrival) (t : Tcb) : Prop
    extends Past cfg t0 a t where
  takes : takesFin cfg t0 a.seg
  rcvNxt : t.rcvNxt = a.seg.seq + BitVec.ofNat 32 a.seg.data.length
  rxPending : t.rxPending ↔ t0.rxPending ∨ takesData t0 a.seg

/-- One change of the TCB while `op` runs from `t0`. -/
inductive Stage (cfg : Config) (t0 : Tcb) (op : Op) : Tcb → List Event → Tcb → Prop where
  | aborted {a : Arrival} (arrives : op.arrival = some a) (rst : a.seg.isRst)
      (isOpen : t0.state ≠ .listen) (tuple : sameTuple t0 a.src a.seg.sport) :
      Stage cfg t0 op t0 [.aborted] (listenReset t0)
  | opened {a : Arrival} {mss : U16} (arrives : op.arrival = some a) (notRst : ¬ a.seg.isRst)
      (syn : a.seg.isSyn ∧ ¬ a.seg.isAck) (asks : a.mss = some mss) (listens : t0.state = .listen) :
      Stage cfg t0 op t0 [.opened] (acceptSyn a.now t0 a.src a.seg mss)
  | acked {a : Arrival} (arrives : op.arrival = some a) (reaches : Reaches t0 a)
      (acks : acks cfg t0 a.seg) (notFinWait1 : t0.state ≠ .finWait1) (notLastAck : t0.state ≠ .lastAck) :
      Stage cfg t0 op t0 [.acked] (ackFlight t0 a.seg.ack)
  | finAcked {a : Arrival} (arrives : op.arrival = some a) (reaches : Reaches t0 a)
      (acks : acks cfg t0 a.seg) (finWait1 : t0.state = .finWait1) (noFin : ¬ t0.peerFin) :
      Stage cfg t0 op t0 [.acked] { ackFlight t0 a.seg.ack with state := .finWait2 }
  | ackCloses {a : Arrival} {e : Event} (arrives : op.arrival = some a) (reaches : Reaches t0 a)
      (closes : ackCloses cfg t0 a.seg) (orderly : e = .timeWait ∨ e = .lastAck) :
      Stage cfg t0 op t0 [.acked, e] (listenReset (ackFlight t0 a.seg.ack))
  | established {a : Arrival} {t : Tcb} (arrives : op.arrival = some a) (reaches : Reaches t0 a)
      (handshake : handshakes t0 a.seg) (synRcvd : t.state = .synRcvd) :
      Stage cfg t0 op t [] { t with state := .established }
  | queued {a : Arrival} {t : Tcb} (arrives : op.arrival = some a) (past : PastAck cfg t0 a t)
      (takes : takesData t0 a.seg) :
      Stage cfg t0 op t [.queued a.seg.data] (advance (storeRx t a.seg.data takes.2.2.2) a.seg.data)
  | finUnused {a : Arrival} {t : Tcb} (arrives : op.arrival = some a) (past : PastData cfg t0 a t)
      (established : t.state = .established) (unused : ¬ t.sawData ∧ ¬ t.appSent) :
      Stage cfg t0 op t
        [.fin false, .sent (emissionOf a.now (closeUnused a.now { acceptFin t with state := .closeWait }).1)]
        (closeUnused a.now { acceptFin t with state := .closeWait }).1
  | finCloseWait {a : Arrival} {t : Tcb} (arrives : op.arrival = some a) (past : PastData cfg t0 a t)
      (established : t.state = .established) (used : t.sawData ∨ t.appSent) :
      Stage cfg t0 op t [.fin true] { acceptFin t with state := .closeWait }
  | finTimeWait {a : Arrival} {t : Tcb} (arrives : op.arrival = some a) (past : PastData cfg t0 a t)
      (finWait2 : t.state = .finWait2) :
      Stage cfg t0 op t [.fin (t.sawData || t.appSent), .timeWait] (listenReset (acceptFin t))
  | finStays {a : Arrival} {t : Tcb} (arrives : op.arrival = some a) (past : PastData cfg t0 a t)
      (closing : t.state = .finWait1 ∨ t.state = .closeWait ∨ t.state = .lastAck) :
      Stage cfg t0 op t [.fin (t.sawData || t.appSent)] (acceptFin t)
  | sent {now : Usize} {data : List U8} {fin : Bool} (sends : op = .appSend now data fin)
      (ready : t0.state = .established ∨ t0.state = .closeWait) (first : ¬ t0.appSent)
      (idle : ¬ t0.inflight) (fits : data.length ≤ payloadMax) :
      Stage cfg t0 op t0
        [.sent (emissionOf now
          (sendUnacked now { storeUnacked t0 data fin fits with state := sendState t0 fin }).1)]
        (sendUnacked now { storeUnacked t0 data fin fits with state := sendState t0 fin }).1
  | consumed (consumes : op = .consume) : Stage cfg t0 op t0 (consume t0).2 (consume t0).1
  | eofTaken (takes : op = .takeEof) (marked : t0.eof) (read : ¬ t0.rxPending) (idle : ¬ t0.inflight) :
      Stage cfg t0 op t0 [.eofTaken] { t0 with eof := false }
  | resent {now : Usize} (checks : op = .checkRto now) (flying : t0.inflight)
      (due : rtoDue now t0.deadline) (more : t0.tries < rtoMax) :
      Stage cfg t0 op t0 [.resent (emissionOf now (countTry now t0))] (countTry now t0)
  | rtoReset {now : Usize} (checks : op = .checkRto now) (flying : t0.inflight)
      (due : rtoDue now t0.deadline) (spent : rtoMax ≤ t0.tries) :
      Stage cfg t0 op t0 [.rtoReset] (listenReset t0)

/-- The stages of one operation, with the events they pass through in order. -/
def Stages (cfg : Config) (t0 : Tcb) (op : Op) (t : Tcb) (events : List Event) (u : Tcb) : Prop :=
  ∃ parts, Run (Stage cfg t0 op) t parts u ∧ parts.flatten = events

section
variable {cfg : Config} {t0 t u v : Tcb} {op : Op} {events more : List Event}

theorem Stages.refl : Stages cfg t0 op t [] t := ⟨[], .nil, rfl⟩

theorem Stages.single (stage : Stage cfg t0 op t events u) : Stages cfg t0 op t events u :=
  ⟨[events], .single stage, by simp⟩

theorem Stages.trans (first : Stages cfg t0 op t events u) (second : Stages cfg t0 op u more v) :
    Stages cfg t0 op t (events ++ more) v := by
  obtain ⟨parts, run, rfl⟩ := first
  obtain ⟨parts', run', rfl⟩ := second
  exact ⟨parts ++ parts', run.append run', by simp⟩

end

/-! ## `handle`, part by part -/

structure AfterAck (cfg : Config) (t0 : Tcb) (a : Arrival) (t : Tcb) : Prop where
  notCloses : ¬ ackCloses cfg t0 a.seg
  isOpen : t.state ≠ .listen
  synRcvd : t.state = .synRcvd ↔ t0.state = .synRcvd
  finWait2 : t.state = .finWait2 ↔ t0.state = .finWait2 ∨ t0.state = .finWait1 ∧ acks cfg t0 a.seg
  peerFin : t.peerFin = t0.peerFin
  appSent : t.appSent = t0.appSent
  rexmit : t.rexmit = t0.rexmit
  rcvNxt : t.rcvNxt = t0.rcvNxt
  sndNxt : t.sndNxt = t0.sndNxt
  rxPending : t.rxPending = t0.rxPending

section
variable {cfg : Config} {t0 t : Tcb} {op : Op} {a : Arrival}

def ackPart (cfg : Config) (t : Tcb) (g : Segment) : Tcb × List Event :=
  if g.isAck then onTheirAck cfg t g.ack else (t, [])

theorem AfterAck.refl (reaches : Reaches t0 a) (quiet : ¬ acks cfg t0 a.seg) : AfterAck cfg t0 a t0 where
  notCloses closes := quiet closes.1
  isOpen := reaches.isOpen
  synRcvd := Iff.rfl
  finWait2 := by simp [quiet]
  peerFin := rfl
  appSent := rfl
  rexmit := rfl
  rcvNxt := rfl
  sndNxt := rfl
  rxPending := rfl

theorem ackPart_quiet (quiet : ¬ acks cfg t0 a.seg) : ackPart cfg t0 a.seg = (t0, []) := by
  unfold ackPart onTheirAck
  by_cases isAck : a.seg.isAck
  · have unmatched : ¬ ackMatches cfg t0 a.seg.ack := fun h => quiet ⟨isAck, h⟩
    rw [if_pos isAck, if_neg unmatched]
  · rw [if_neg isAck]

/-- The ACK part either closes the connection or is followed by the rest of `handle`. -/
theorem ackPart_stages (arrives : op.arrival = some a) (reaches : Reaches t0 a) :
    Stages cfg t0 op t0 (ackPart cfg t0 a.seg).2 (ackPart cfg t0 a.seg).1 ∧
      ((ackPart cfg t0 a.seg).1.state = .listen ∧ a.seg.isAck ∧ ackCloses cfg t0 a.seg ∨
        AfterAck cfg t0 a (ackPart cfg t0 a.seg).1) := by
  by_cases acked : acks cfg t0 a.seg
  swap
  · rw [ackPart_quiet acked]
    exact ⟨.refl, .inr (.refl reaches acked)⟩
  have taken : ackPart cfg t0 a.seg = onTheirAck cfg t0 a.seg.ack := if_pos acked.1
  have same : (ackFlight t0 a.seg.ack).state = t0.state := rfl
  rw [taken, onTheirAck, if_pos acked.2]
  simp only [same]
  have isOpen := reaches.isOpen
  cases state : t0.state with
  | listen => exact absurd state isOpen
  | finWait1 =>
    dsimp only
    -- In FIN_WAIT_1 the ACK closes if the peer's FIN came first, and waits for it otherwise.
    by_cases fin : (ackFlight t0 a.seg.ack).peerFin
    · have closes : ackCloses cfg t0 a.seg := ⟨acked, .inl ⟨state, fin⟩⟩
      rw [if_pos fin]
      exact ⟨.single (.ackCloses arrives reaches closes (.inl rfl)), .inl ⟨rfl, acked.1, closes⟩⟩
    · have noFin : ¬ t0.peerFin := fin
      rw [if_neg fin]
      refine ⟨.single (.finAcked arrives reaches acked state noFin), .inr ?_⟩
      constructor <;> simp [ackFlight, ackCloses, state, noFin, acked]
  | lastAck =>
    have closes : ackCloses cfg t0 a.seg := ⟨acked, .inr state⟩
    exact ⟨.single (.ackCloses arrives reaches closes (.inr rfl)), .inl ⟨rfl, acked.1, closes⟩⟩
  | synRcvd | established | finWait2 | closeWait =>
    refine ⟨.single (.acked arrives reaches acked (by simp [state]) (by simp [state])), .inr ?_⟩
    constructor <;> simp [ackCloses, ackFlight, state]

theorem onSynRcvd_stages (arrives : op.arrival = some a) (reaches : Reaches t0 a) {s s' : Statics}
    (after : AfterAck cfg t0 a s.tcb) (passed : onSynRcvd s a.seg = some s') :
    Stages cfg t0 op s.tcb [] s'.tcb ∧ PastAck cfg t0 a s'.tcb := by
  unfold onSynRcvd at passed
  by_cases synRcvd : s.tcb.state = .synRcvd
  · rw [if_pos synRcvd] at passed
    split at passed
    · rename_i shakes
      cases passed
      -- The ACK part has not moved the numbers that the handshake is checked against.
      have handshake : handshakes t0 a.seg := by
        intro _
        rw [← after.sndNxt, ← after.rcvNxt]
        exact shakes
      have early : t0.state = .synRcvd := after.synRcvd.mp synRcvd
      refine ⟨.single (.established arrives reaches handshake synRcvd), ?_⟩
      exact {
        reaches, handshake, notCloses := after.notCloses
        isOpen := by simp
        isSynced := by simp
        peerFin := after.peerFin
        appSent := after.appSent
        rexmit := after.rexmit
        finWait2 := by simp [early]
        rcvNxt := after.rcvNxt
        rxPending := after.rxPending }
    · cases passed
  · rw [if_neg synRcvd] at passed
    cases passed
    have handshake : handshakes t0 a.seg := fun early => absurd (after.synRcvd.mpr early) synRcvd
    exact ⟨.refl, {
      reaches, handshake, notCloses := after.notCloses
      isOpen := after.isOpen
      isSynced := synRcvd
      peerFin := after.peerFin
      appSent := after.appSent
      rexmit := after.rexmit
      finWait2 := after.finWait2
      rcvNxt := after.rcvNxt
      rxPending := after.rxPending }⟩

/-- The payload is taken exactly when `takesData` holds before the segment. -/
theorem onData_cases {s s' : Statics} {needAck : Bool} {events : List Event} (g : Segment)
    (offered : onData s g = some (s', needAck, events)) :
    (∃ takes : takesData s.tcb g, s'.tcb = advance (storeRx s.tcb g.data takes.2.2.2) g.data ∧
        needAck = true ∧ events = [.queued g.data]) ∨
      ¬ takesData s.tcb g ∧ s'.tcb = s.tcb ∧ needAck = false ∧ events = [] ∧
        (g.data = [] ∨ g.seq = s.tcb.rcvNxt) := by
  unfold onData at offered
  by_cases empty : g.data = []
  · rw [if_pos empty] at offered
    cases offered
    exact .inr ⟨fun takes => takes.1 empty, rfl, rfl, rfl, .inl empty⟩
  rw [if_neg empty] at offered
  by_cases order : g.seq = s.tcb.rcvNxt
  swap
  · rw [if_pos order] at offered
    cases offered
  rw [if_neg (not_not_intro order), queueRx, if_neg empty] at offered
  by_cases unread : s.tcb.rxPending
  · rw [if_pos unread] at offered
    cases offered
    exact .inr ⟨fun takes => takes.2.2.1 unread, rfl, rfl, rfl, .inr order⟩
  rw [if_neg unread] at offered
  by_cases fits : g.data.length ≤ payloadMax
  · rw [dif_pos fits] at offered
    cases offered
    exact .inl ⟨⟨empty, order, unread, fits⟩, rfl, rfl, rfl⟩
  · rw [dif_neg fits] at offered
    cases offered
    exact .inr ⟨fun takes => fits takes.2.2.2, rfl, rfl, rfl, .inr order⟩

theorem PastAck.takesData_iff (past : PastAck cfg t0 a t) : takesData t a.seg ↔ takesData t0 a.seg := by
  unfold takesData
  rw [past.rcvNxt, past.rxPending]

structure BeforeFin (cfg : Config) (t0 : Tcb) (a : Arrival) (t : Tcb) : Prop
    extends Past cfg t0 a t where
  rcvNxt : t.rcvNxt = rcvAfter t0 a.seg
  ordered : a.seg.data = [] ∨ a.seg.seq = t0.rcvNxt
  rxPending : t.rxPending ↔ t0.rxPending ∨ takesData t0 a.seg

theorem onData_stages (arrives : op.arrival = some a) {s s' : Statics} {needAck : Bool}
    {events : List Event} (past : PastAck cfg t0 a s.tcb)
    (offered : onData s a.seg = some (s', needAck, events)) :
    Stages cfg t0 op s.tcb events s'.tcb ∧ BeforeFin cfg t0 a s'.tcb := by
  rcases onData_cases a.seg offered with ⟨takes, stored, _, rfl⟩ | ⟨refused, same, _, rfl, ordered⟩
  · have early : takesData t0 a.seg := past.takesData_iff.mp takes
    refine ⟨?_, ?_⟩
    · rw [stored]
      exact .single (.queued arrives past early)
    · rw [stored]
      exact {
        reaches := past.reaches, notCloses := past.notCloses, handshake := past.handshake
        isOpen := past.isOpen, isSynced := past.isSynced, peerFin := past.peerFin
        appSent := past.appSent, rexmit := past.rexmit, finWait2 := past.finWait2
        rcvNxt := by simp [advance, storeRx, rcvAfter, early, past.rcvNxt]
        ordered := .inr early.2.1
        rxPending := by simp [advance, storeRx, early] }
  · have refused0 : ¬ takesData t0 a.seg := fun takes => refused (past.takesData_iff.mpr takes)
    refine ⟨?_, ?_⟩
    · rw [same]
      exact .refl
    · rw [same]
      exact {
        past.toPast with
        rcvNxt := by simp [rcvAfter, refused0, past.rcvNxt]
        ordered := by rwa [past.rcvNxt] at ordered
        rxPending := by simp [refused0, past.rxPending] }

theorem BeforeFin.holdAcks_eq (before : BeforeFin cfg t0 a t) : holdAcks cfg t = holdAcks cfg t0 := by
  simp [holdAcks, before.rexmit, before.appSent]

theorem BeforeFin.pastData (before : BeforeFin cfg t0 a t) (fin : a.seg.isFin)
    (free : ¬ holdAcks cfg t)
    (inOrder : a.seg.seq + BitVec.ofNat 32 a.seg.data.length = t.rcvNxt) : PastData cfg t0 a t :=
  { before.toPast with
    takes := ⟨fin, by rwa [before.holdAcks_eq] at free, before.ordered, by rw [inOrder, before.rcvNxt]⟩
    rcvNxt := inOrder.symm
    rxPending := before.rxPending }

theorem onFin_stages (arrives : op.arrival = some a) {s : Statics} (needAck : Bool)
    (before : BeforeFin cfg t0 a s.tcb) :
    Stages cfg t0 op s.tcb (onFin cfg a.now s a.src a.seg needAck).2.2
      (onFin cfg a.now s a.src a.seg needAck).1.tcb := by
  unfold onFin
  by_cases fin : a.seg.isFin
  swap
  · rw [if_neg fin]
    exact .refl
  rw [if_pos fin]
  -- a FIN that is held back or out of order leaves the TCB
  by_cases held : holdAcks cfg s.tcb
  · rw [if_pos held]
    exact .refl
  rw [if_neg held]
  by_cases inOrder : a.seg.seq + BitVec.ofNat 32 a.seg.data.length = s.tcb.rcvNxt
  swap
  · rw [if_pos inOrder]
    exact .refl
  rw [if_neg (not_not_intro inOrder)]
  have past := before.pastData fin held inOrder
  have same : (acceptFin s.tcb).state = s.tcb.state := rfl
  simp only [same]
  cases state : s.tcb.state with
  | listen => exact absurd state before.isOpen
  | synRcvd => exact absurd state before.isSynced
  | established =>
    dsimp only
    by_cases unused : ¬ (acceptFin s.tcb).sawData ∧ ¬ (acceptFin s.tcb).appSent
    · rw [if_pos unused]
      have clear : (s.tcb.sawData || s.tcb.appSent) = false := by simpa [acceptFin, rxFin] using unused
      rw [clear]
      exact .single (.finUnused arrives past state unused)
    · rw [if_neg unused]
      have used : s.tcb.sawData ∨ s.tcb.appSent := by
        rw [not_and_or, not_not, not_not] at unused
        exact unused
      have marked : (s.tcb.sawData || s.tcb.appSent) = true := by simpa using used
      rw [marked]
      exact .single (.finCloseWait arrives past state used)
  | finWait2 => exact .single (.finTimeWait arrives past state)
  | finWait1 => exact .single (.finStays arrives past (.inl state))
  | closeWait => exact .single (.finStays arrives past (.inr (.inl state)))
  | lastAck => exact .single (.finStays arrives past (.inr (.inr state)))

theorem onOpen_stages (arrives : op.arrival = some a) {s : Statics} (reaches : Reaches s.tcb a) :
    Stages cfg s.tcb op s.tcb (onOpen cfg a.now s a.src a.seg).2.2
      (onOpen cfg a.now s a.src a.seg).1.tcb := by
  obtain ⟨acked, outcome⟩ := @ackPart_stages cfg s.tcb op a arrives reaches
  -- ACK, handshake, payload and FIN, each from the TCB the part before has left
  unfold onOpen
  simp only [show (if a.seg.isAck = true then onTheirAck cfg s.tcb a.seg.ack else (s.tcb, [])) =
    ackPart cfg s.tcb a.seg from rfl]
  generalize ackPart cfg s.tcb a.seg = ackResult at acked outcome
  obtain ⟨t, ackEvents⟩ := ackResult
  dsimp only at acked outcome ⊢
  rcases outcome with ⟨closed, isAck, _⟩ | after
  · rw [if_pos ⟨isAck, closed⟩]
    exact acked
  rw [if_neg (fun h => after.isOpen h.2)]
  cases shaken : onSynRcvd { s with tcb := t } a.seg with
  | none => exact acked
  | some s1 =>
    obtain ⟨shake, pastAck⟩ := onSynRcvd_stages arrives reaches after shaken
    have toShake := acked.trans shake
    rw [List.append_nil] at toShake
    cases offered : onData s1 a.seg with
    | none =>
      simp only [offered]
      exact toShake
    | some taken =>
      obtain ⟨s2, needAck, queued⟩ := taken
      simp only [offered]
      obtain ⟨data, before⟩ := onData_stages arrives pastAck offered
      exact (toShake.trans data).trans (onFin_stages arrives needAck before)

theorem deliver_stages (arrives : op.arrival = some a) (s : Statics) :
    Stages cfg s.tcb op s.tcb (deliver cfg a.now s a.src a.seg a.mss).2.2
      (deliver cfg a.now s a.src a.seg a.mss).1.tcb := by
  unfold deliver
  by_cases rst : a.seg.isRst
  · rw [if_pos rst, onRst]
    split
    · rename_i mine
      exact .single (.aborted arrives rst mine.1 mine.2)
    · exact .refl
  rw [if_neg rst]
  by_cases syn : a.seg.isSyn ∧ ¬ a.seg.isAck
  · rw [if_pos syn]
    cases asks : a.mss with
    | none => exact .refl
    | some mss =>
      dsimp only [onSyn]
      cases state : s.tcb.state with
      | listen => exact .single (.opened arrives rst syn asks state)
      | synRcvd =>
        dsimp only
        by_cases again : sameTuple s.tcb a.src a.seg.sport ∧ a.seg.seq = s.tcb.theirIsn
        · rw [if_pos again]
          exact .refl
        · rw [if_neg again]
          exact .refl
      | established | finWait1 | finWait2 | closeWait | lastAck => exact .refl
  rw [if_neg syn, onOther]
  by_cases listens : s.tcb.state = .listen
  · rw [if_pos listens]
    exact .refl
  rw [if_neg listens]
  by_cases mine : sameTuple s.tcb a.src a.seg.sport
  · rw [if_neg (not_not_intro mine)]
    exact onOpen_stages arrives ⟨rst, syn, listens, mine⟩
  · rw [if_pos mine]
    exact .refl

end

theorem appSend_stages {cfg : Config} (now : Usize) (t : Tcb) (data : List U8) (fin : Bool) :
    Stages cfg t (.appSend now data fin) t (appSend now t data fin).2.2 (appSend now t data fin).1 := by
  unfold appSend
  by_cases ready : t.state = .established ∨ t.state = .closeWait
  swap
  · rw [if_pos (not_or.mp ready)]
    exact .refl
  rw [if_neg (fun h => ready.elim h.1 h.2)]
  by_cases used : t.appSent ∨ t.inflight
  · rw [if_pos used]
    exact .refl
  rw [if_neg used]
  by_cases fits : data.length ≤ payloadMax
  · rw [dif_pos fits]
    obtain ⟨first, idle⟩ := not_or.mp used
    exact .single (.sent rfl ready first idle fits)
  · rw [dif_neg fits]
    exact .refl

theorem checkRto_stages {cfg : Config} (now : Usize) (t : Tcb) :
    Stages cfg t (.checkRto now) t (checkRto now t).2.2 (checkRto now t).1 := by
  unfold checkRto
  by_cases flying : t.inflight
  swap
  · rw [if_pos flying]
    exact .refl
  rw [if_neg (not_not_intro flying)]
  by_cases due : rtoDue now t.deadline
  swap
  · rw [if_pos due]
    exact .refl
  rw [if_neg (not_not_intro due)]
  by_cases spent : t.tries ≥ rtoMax
  · rw [if_pos spent]
    exact .single (.rtoReset rfl flying due spent)
  · rw [if_neg spent]
    exact .single (.resent rfl flying due (BitVec.not_le.mp spent))

theorem takeEof_stages {cfg : Config} (t : Tcb) :
    Stages cfg t .takeEof t (takeEof t).2.2 (takeEof t).1 := by
  unfold takeEof
  split
  · rename_i told
    exact .single (.eofTaken rfl told.1 told.2.1 told.2.2)
  · exact .refl

/-- Every operation is a sequence of stages with exactly its events. -/
theorem Step.stages {cfg : Config} {s t : Statics} {l : Label} (step : Step cfg s l t) :
    Stages cfg s.tcb l.op s.tcb l.events t.tcb := by
  obtain ⟨op, out, eof, events⟩ := l
  cases op with
  | handle now payload src dst =>
    simp only [Step, exec, handle_eq, bind_ok] at step
    cases decoded : decode payload src dst with
    | error r =>
      rw [decoded] at step
      cases step
      rw [Statics.reject_tcb]
      exact .refl
    | ok g =>
      rw [decoded] at step
      cases step
      have arrives : (Op.handle now payload src dst).arrival = some ⟨now, src, g, mssOf payload⟩ := by
        rw [Op.arrival, decoded]
      exact deliver_stages arrives s
  | appSend now data fin =>
    cases step
    exact appSend_stages now s.tcb data fin
  | consume =>
    cases step
    exact .single (.consumed rfl)
  | takeEof =>
    cases step
    exact takeEof_stages s.tcb
  | checkRto now =>
    cases step
    exact checkRto_stages now s.tcb

def eventsOf (ls : List Label) : List Event := ls.flatMap Label.events

@[simp] theorem eventsOf_nil : eventsOf [] = [] := rfl

@[simp] theorem eventsOf_append (ls ms : List Label) : eventsOf (ls ++ ms) = eventsOf ls ++ eventsOf ms :=
  List.flatMap_append

@[simp] theorem eventsOf_singleton (l : Label) : eventsOf [l] = l.events := by simp [eventsOf]

/-- What each stage preserves of the events so far and the TCB holds along the run. -/
theorem stage_history {cfg : Config} {ok : Tcb → Op → Prop} {J : List Event → Tcb → Prop}
    (preserved : ∀ es t0 op t e u, ok t0 op → J es t → Stage cfg t0 op t e u → J (es ++ e) u)
    {s t : Statics} {ls : List Label} (run : Run (StepWhen cfg ok) s ls t) (es : List Event)
    (start : J es s.tcb) : J (es ++ eventsOf ls) t.tcb := by
  induction run with
  | nil => simpa using start
  | @snoc _ t ls l _ last ih =>
    obtain ⟨step, meets⟩ := last
    obtain ⟨parts, stages, same⟩ := step.stages
    have whole : J (es ++ eventsOf ls ++ parts.flatten) t.tcb := by
      -- induction over the stages of the last operation
      refine @Run.history _ _ _ (fun parts t => J (es ++ eventsOf ls ++ parts.flatten) t) ?_ _ _ _ stages ?_
      · intro parts t e u held stage
        have next := preserved _ _ _ _ _ _ meets held stage
        simpa [List.append_assoc] using next
      · simpa using ih
    rw [same] at whole
    simpa [List.append_assoc] using whole

end Whimbrel.Tcp

import Whimbrel.Tcp.Delivery

/-! The payload the app has not read: where it came from, and what drops it. -/

set_option autoImplicit false

namespace Whimbrel.Tcp

open Transition

/-- The operation does not drop an unread payload: no close discards it, no RST
aborts its connection and the RTO check does not give the connection up. -/
def KeepsUnread (cfg : Config) (t : Tcb) (op : Op) : Prop :=
  Keeps cfg t op ∧
    (t.rxPending →
      OnArrival (fun a => ¬ (a.seg.isRst ∧ t.state ≠ .listen ∧ sameTuple t a.src a.seg.sport)) op ∧
      match op with
      | .checkRto now => ¬ (t.inflight ∧ rtoDue now t.deadline ∧ rtoMax ≤ t.tries)
      | _ => True)

instance (cfg : Config) (t : Tcb) (op : Op) : Decidable (KeepsUnread cfg t op) :=
  haveI : Decidable (match op with
      | .checkRto now => ¬ (t.inflight ∧ rtoDue now t.deadline ∧ rtoMax ≤ t.tries)
      | _ => True) := by cases op <;> infer_instance
  inferInstanceAs (Decidable (_ ∧ (t.rxPending = true → _)))

section
variable {cfg : Config} {t0 t u : Tcb} {op : Op} {events : List Event} {p : List U8}

theorem Stage.keepsUnread (keeps : KeepsUnread cfg t0 op) (reads : op ≠ .consume) (stage : Stage cfg t0 op t events u)
    (has : pendingBytes t = some p) : pendingBytes u = some p := by
  have pending := rxPending_of_pendingBytes has
  refine stage.keepsPending keeps.1 ?_ has
  cases stage with
  | aborted arrives rst isOpen tuple => exact absurd ⟨rst, isOpen, tuple⟩ ((keeps.2 pending).1 _ arrives)
  | rtoReset checks flying due spent =>
    subst checks
    exact absurd ⟨flying, due, spent⟩ (keeps.2 pending).2
  | consumed consumes => exact absurd consumes reads
  | ackCloses arrives reaches closes orderly => rcases orderly with rfl | rfl <;> simp [Event.Releases]
  | opened | acked | finAcked | established | queued | finUnused | finCloseWait | finTimeWait | finStays | sent
  | eofTaken | resent => simp [Event.Releases]

theorem Step.keepsUnread {s s' : Statics} {l : Label} (step : Step cfg s l s') (keeps : KeepsUnread cfg s.tcb l.op)
    (reads : l.op ≠ .consume) (has : pendingBytes s.tcb = some p) : pendingBytes s'.tcb = some p := by
  obtain ⟨parts, stages, -⟩ := step.stages
  exact @Run.invariant _ _ _ (fun t => pendingBytes t = some p) (fun _ _ _ has stage => stage.keepsUnread keeps reads has)
    _ _ _ stages has

def SamePeer (t0 t : Tcb) : Prop :=
  t0.state = .listen ∨ t.state = .listen ∨ t.remoteIp = t0.remoteIp ∧ t.remotePort = t0.remotePort

structure PendingFrom (t0 : Tcb) (op : Op) (t : Tcb) : Prop where
  inv : TcbInv t
  peer : SamePeer t0 t
  source : ∀ {p}, pendingBytes t = some p → pendingBytes t0 = some p ∨
    ∃ a, op.arrival = some a ∧ a.seg.data = p ∧ a.src = t.remoteIp ∧ a.seg.sport = t.remotePort

theorem SamePeer.of_eq (peer : SamePeer t0 t) (ip : u.remoteIp = t.remoteIp) (port : u.remotePort = t.remotePort)
    (isOpen : t.state ≠ .listen) : SamePeer t0 u := by
  rcases peer with listens | listens | same
  · exact .inl listens
  · exact absurd listens isOpen
  · exact .inr (.inr ⟨ip.trans same.1, port.trans same.2⟩)

theorem PendingFrom.kept (held : PendingFrom t0 op t) (inv : TcbInv u) (ip : u.remoteIp = t.remoteIp)
    (port : u.remotePort = t.remotePort) (same : pendingBytes u = pendingBytes t) (isOpen : t.state ≠ .listen) :
    PendingFrom t0 op u := by
  refine ⟨inv, held.peer.of_eq ip port isOpen, fun has => ?_⟩
  rw [same] at has
  rw [ip, port]
  exact held.source has

theorem PendingFrom.none (inv : TcbInv u) (peer : SamePeer t0 u) (read : pendingBytes u = none) : PendingFrom t0 op u :=
  ⟨inv, peer, fun has => by rw [read] at has; cases has⟩

theorem PendingFrom.stage (held : PendingFrom t0 op t) (stage : Stage cfg t0 op t events u) : PendingFrom t0 op u := by
  have inv := held.inv.stage stage
  cases stage with
  | aborted | ackCloses | finTimeWait | rtoReset => exact .none inv (.inr (.inl rfl)) rfl
  | opened _ _ _ _ listens =>
    exact .none inv (.inl listens) (pendingBytes_eq_none.mpr (inv.fresh (.inr rfl)).1)
  | acked _ reaches | finAcked _ reaches => exact held.kept inv rfl rfl rfl reaches.isOpen
  | established _ _ _ synRcvd => exact held.kept inv rfl rfl rfl (by simp [synRcvd])
  | finUnused _ past | finCloseWait _ past | finStays _ past => exact held.kept inv rfl rfl rfl past.isOpen
  | queued arrives past takes =>
    have tuple := past.reaches.tuple
    simp only [sameTuple, Bool.and_eq_true, beq_iff_eq] at tuple
    -- The stages before this one have not changed the peer.
    have same : t.remoteIp = t0.remoteIp ∧ t.remotePort = t0.remotePort := by
      rcases held.peer with listens | listens | same
      · exact absurd listens past.reaches.isOpen
      · exact absurd listens past.isOpen
      · exact same
    refine ⟨inv, .inr (.inr same), fun {p} has => .inr ⟨_, arrives, ?_, ?_, ?_⟩⟩
    · simpa [pendingBytes, advance, storeRx] using has
    · exact (same.1.trans tuple.1).symm
    · exact (same.2.trans tuple.2).symm
  | sent _ ready => exact held.kept inv rfl rfl rfl (by rcases ready with ready | ready <;> simp [ready])
  | consumed => exact .none inv held.peer rfl
  | eofTaken _ marked read =>
    exact .none inv held.peer (pendingBytes_eq_none.mpr read)
  | resent _ flying =>
    exact held.kept inv rfl rfl rfl fun listens => held.inv.quiet (.inl listens) flying

/-- What is pending after an operation was pending before it, from the same peer,
or is the payload of the segment the operation brought from the peer. -/
theorem Step.pending_from {s s' : Statics} {l : Label} (inv : TcbInv s.tcb) (step : Step cfg s l s')
    (has : pendingBytes s'.tcb = some p) :
    (pendingBytes s.tcb = some p ∧ s'.tcb.remoteIp = s.tcb.remoteIp ∧ s'.tcb.remotePort = s.tcb.remotePort) ∨
      ∃ a, l.op.arrival = some a ∧ a.seg.data = p ∧ a.src = s'.tcb.remoteIp ∧ a.seg.sport = s'.tcb.remotePort := by
  obtain ⟨parts, stages, -⟩ := step.stages
  have start : PendingFrom s.tcb l.op s.tcb := ⟨inv, .inr (.inr ⟨rfl, rfl⟩), .inl⟩
  have held : PendingFrom s.tcb l.op s'.tcb := stages.invariant (fun _ _ _ held stage => held.stage stage) start
  refine (held.source has).imp_left fun before => ⟨before, ?_⟩
  -- a payload is pending on both sides, so neither is in LISTEN
  rcases held.peer with listens | listens | same
  · exact absurd (rxPending_of_pendingBytes before) (inv.fresh (.inl listens)).1
  · exact absurd (rxPending_of_pendingBytes has) (held.inv.fresh (.inl listens)).1
  · exact same

end

end Whimbrel.Tcp

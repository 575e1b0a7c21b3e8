import Whimbrel.Tcp.Output

/-! Accepted data reaches the app.

A payload that `queue_rx` took waits until the app consumes it or an abort
drops it. `listen_reset` serves orderly closes too, and there it also clears
an unread payload; `Discards` is when. -/

set_option autoImplicit false

namespace Whimbrel.Tcp

open Transition

/-- The events after which the app need not read what was accepted before: it has
read it, or the connection was aborted. -/
def Event.Releases : Event → Prop
  | .handed _ | .aborted | .rtoReset => True
  | _ => False

instance (e : Event) : Decidable e.Releases := by
  cases e <;> unfold Event.Releases <;> infer_instance

/-- `queue_rx` took this payload and nothing has released it since. -/
def Waits (events : List Event) (data : List U8) : Prop :=
  ∃ before after, events = before ++ .queued data :: after ∧ ∀ e ∈ after, ¬ e.Releases

theorem Waits.of_append {es fs : List Event} {data : List U8} (waits : Waits (es ++ fs) data) :
    .queued data ∈ fs ∨ Waits es data ∧ ∀ e ∈ fs, ¬ e.Releases := by
  obtain ⟨before, after, split, stays⟩ := waits
  rcases List.append_eq_append_iff.mp split with ⟨middle, -, late⟩ | ⟨tail, early, rest⟩
  · exact .inl (by simp [late])
  cases tail with
  | nil =>
    rw [List.nil_append] at rest
    exact .inl (rest ▸ List.mem_cons_self)
  | cons e tail =>
    obtain ⟨rfl, rfl⟩ := List.cons.inj rest
    refine .inr ⟨⟨before, tail, early, fun e mem => ?_⟩, fun e mem => ?_⟩
    · exact stays e (List.mem_append_left _ mem)
    · exact stays e (List.mem_append_right _ mem)

/-- The segment closes the connection in order while a payload is unread, or
brings the payload itself along with the closing FIN. -/
def Discards (cfg : Config) (t : Tcb) (a : Arrival) : Prop :=
  Reaches t a ∧
    (ackCloses cfg t a.seg ∧ t.rxPending ∨
      (t.state = .finWait2 ∨ t.state = .finWait1 ∧ ¬ t.peerFin ∧ acks cfg t a.seg) ∧
        takesFin cfg t a.seg ∧ (t.rxPending ∨ takesData t a.seg))

instance (cfg : Config) (t : Tcb) (a : Arrival) : Decidable (Discards cfg t a) :=
  inferInstanceAs (Decidable (_ ∧ _))

def Keeps (cfg : Config) (t : Tcb) (op : Op) : Prop := OnArrival (fun a => ¬ Discards cfg t a) op

instance (cfg : Config) (t : Tcb) (op : Op) : Decidable (Keeps cfg t op) :=
  inferInstanceAs (Decidable (OnArrival _ op))

@[simp] theorem pendingBytes_consume (t : Tcb) : pendingBytes (consume t).1 = none := rfl

@[simp] theorem pendingBytes_listenReset (t : Tcb) : pendingBytes (listenReset t) = none := rfl

theorem pendingBytes_eq_none {t : Tcb} : pendingBytes t = none ↔ ¬ t.rxPending := by
  unfold pendingBytes
  split <;> simp_all

/-- A close that does not discard finds nothing unread. -/
theorem PastData.read {cfg : Config} {t0 t : Tcb} {op : Op} {a : Arrival} (keeps : Keeps cfg t0 op)
    (arrives : op.arrival = some a) (past : PastData cfg t0 a t) (finWait2 : t.state = .finWait2) : ¬ t.rxPending := by
  intro unread
  apply keeps _ arrives
  refine ⟨past.reaches, .inr ⟨?_, past.takes, past.rxPending.mp unread⟩⟩
  rcases past.finWait2.mp finWait2 with before | ⟨finWait1, acked⟩
  · exact .inl before
  · refine .inr ⟨finWait1, ?_, acked⟩
    intro fin
    exact past.notCloses ⟨acked, .inl ⟨finWait1, fin⟩⟩

section
variable {cfg : Config} {t0 t u : Tcb} {op : Op} {events more : List Event} {data : List U8}

theorem rxPending_of_pendingBytes (has : pendingBytes t = some data) : t.rxPending := by
  by_contra read
  rw [pendingBytes_eq_none.mpr read] at has
  cases has

/-- An accepted payload stays in the TCB through a stage that does not release it. -/
theorem Stage.keepsPending (keeps : Keeps cfg t0 op) (stage : Stage cfg t0 op t more u)
    (stays : ∀ e ∈ more, ¬ e.Releases) (has : pendingBytes t = some data) : pendingBytes u = some data := by
  have pending := rxPending_of_pendingBytes has
  cases stage with
  | aborted => exact absurd trivial (stays .aborted List.mem_cons_self)
  | rtoReset => exact absurd trivial (stays .rtoReset List.mem_cons_self)
  | ackCloses arrives reaches closes => exact absurd ⟨reaches, .inl ⟨closes, pending⟩⟩ (keeps _ arrives)
  | finTimeWait arrives past finWait2 => exact absurd pending (past.read keeps arrives finWait2)
  -- `queue_rx` refuses a second payload
  | queued arrives past takes =>
    rw [past.rxPending] at pending
    exact absurd pending takes.2.2.1
  | consumed =>
    rw [consume, has] at stays
    exact absurd trivial (stays (.handed data) List.mem_cons_self)
  | opened | acked | finAcked | established | finUnused | finCloseWait | finStays | sent | eofTaken | resent => exact has

theorem Stage.holdsQueued (stage : Stage cfg t0 op t more u) (queued : .queued data ∈ more) :
    pendingBytes u = some data := by
  cases stage with
  | queued arrives past takes =>
    obtain rfl : data = _ := by simpa using queued
    simp [pendingBytes, advance, storeRx]
  | ackCloses arrives reaches closes orderly => rcases orderly with rfl | rfl <;> simp at queued
  | consumed =>
    rw [consume] at queued
    cases read : pendingBytes t0 <;> simp [read] at queued
  | aborted | opened | acked | finAcked | established | finUnused | finCloseWait | finTimeWait | finStays | sent
  | eofTaken | resent | rtoReset => simp at queued

def Held (events : List Event) (t : Tcb) : Prop :=
  TcbInv t ∧ ∀ data, Waits events data → pendingBytes t = some data

theorem Held.init : Held [] Tcb.init :=
  ⟨.init, fun data ⟨before, after, split, _⟩ => by simp at split⟩

theorem Held.stage (keeps : Keeps cfg t0 op) (held : Held events t) (stage : Stage cfg t0 op t more u) :
    Held (events ++ more) u := by
  refine ⟨held.1.stage stage, fun data waits => ?_⟩
  rcases waits.of_append with queued | ⟨before, stays⟩
  · exact stage.holdsQueued queued
  · exact stage.keepsPending keeps stays (held.2 data before)

end

theorem pending_eq {t : Tcb} (inv : TcbInv t) : pending t = .ok (pendingBytes t) := by
  unfold pending pendingBytes
  by_cases unread : t.rxPending
  · have fits : t.rxLen ≤ t.rx.bytes.length := by
      rw [t.rx.full]
      exact (inv.unread unread).2.1
    simp [unread, slice_ok (Nat.zero_le _) fits]
  · simp [unread]

/-- As long as no segment discards, `pending()` returns every payload that the
server accepted and nothing has released since. -/
theorem accepted_stays_pending {cfg : Config} {ls : List Label} {t : Statics}
    (run : Run (StepWhen cfg (Keeps cfg)) Statics.init ls t) {before after : List Event} {data : List U8}
    (accepted : eventsOf ls = before ++ .queued data :: after)
    (stays : ∀ e ∈ after, ¬ e.Releases) : pending t.tcb = .ok (some data) := by
  have held : Held ([] ++ eventsOf ls) t.tcb :=
    stage_history (fun _ _ _ _ _ _ keeps held stage => held.stage keeps stage) run [] .init
  rw [pending_eq held.1, held.2 data ⟨before, after, accepted, stays⟩]

def requestOps : List Op :=
  [.handle 0 (peerSeg 100 0 Flag.syn []) gwIp ourIp, .handle 0 (peerSeg 101 1 Flag.ack []) gwIp ourIp,
    .handle 0 (peerSeg 101 1 (Flag.psh ||| Flag.ack) [71, 69]) gwIp ourIp]

/-- Before the app has read them, the peer sends another byte and then its FIN. -/
def secondOps : List Op :=
  requestOps ++ [.handle 0 (peerSeg 103 1 (Flag.psh ||| Flag.ack) [88]) gwIp ourIp,
    .handle 0 (peerSeg 103 1 (Flag.fin ||| Flag.ack) []) gwIp ourIp]

theorem accepted_stays_pending_request :
    eventsOf (runOps .default .init secondOps).2 = [.opened] ++ .queued [71, 69] :: [.fin true] ∧
      pending (runOps .default .init secondOps).1.tcb = .ok (some [71, 69]) := by
  have events : eventsOf (runOps .default .init secondOps).2 = [.opened] ++ .queued [71, 69] :: [.fin true] := by
    decide +kernel
  have keeps : meets .default (Keeps .default) .init secondOps := by decide +kernel
  exact ⟨events, accepted_stays_pending (runOps_when keeps) events (by decide)⟩

/-- The app has sent its FIN and the peer acknowledged it; data and the peer's
FIN then come in one segment. -/
def closingOps : List Op :=
  sendingOps ++ [.handle 0 (peerSeg 101 5 Flag.ack []) gwIp ourIp,
    .handle 0 (peerSeg 101 5 (Flag.fin ||| Flag.ack) [71, 69]) gwIp ourIp]

/-- The last segment out acknowledges the two bytes at 101 and the FIN after
them. They were neither consumed nor aborted, and `pending()` has nothing. -/
theorem orderly_close_discards :
    (runOps .default .init closingOps).2.getLast?.map Label.out =
        some (.seg gwIp 40000 5 104 Flag.ack 0) ∧
      [.queued [71, 69], .fin true, .timeWait] <:+ eventsOf (runOps .default .init closingOps).2 ∧
      pendingBytes (runOps .default .init closingOps).1.tcb = none := by
  decide +kernel

end Whimbrel.Tcp

import Whimbrel.Tcp.Stream

/-! The MSS the peer advertised.

`parse_mss` is stored in the TCB by the SYN that leaves LISTEN, and nothing reads
it afterwards: how long a data segment is depends on the app alone. -/

set_option autoImplicit false

namespace Whimbrel.Tcp

open Transition

/-- The MSS of the SYN that opened the current connection. -/
def advertisedAfter (mss : Option U16) (l : Label) : Option U16 :=
  if .opened ∈ l.events then l.op.arrival.bind Arrival.mss else mss

def advertised (ls : List Label) : Option U16 := ls.foldl advertisedAfter none

theorem advertised_snoc (ls : List Label) (l : Label) : advertised (ls ++ [l]) = advertisedAfter (advertised ls) l := by
  rw [advertised, List.foldl_append]
  rfl

def WithinMss (t : Tcb) : Op → Prop
  | .appSend _ data _ => takesSend t data.length → data.length ≤ t.mss.toNat
  | _ => True

instance (t : Tcb) (op : Op) : Decidable (WithinMss t op) :=
  match op with
  | .appSend _ data _ => inferInstanceAs (Decidable (takesSend t data.length = true → data.length ≤ t.mss.toNat))
  | .handle .. => inferInstanceAs (Decidable True)
  | .consume => inferInstanceAs (Decidable True)
  | .takeEof => inferInstanceAs (Decidable True)
  | .checkRto .. => inferInstanceAs (Decidable True)

section
variable {cfg : Config} {t0 t u : Tcb} {op : Op} {events : List Event}

/-- A stage stores the MSS of its SYN, or leaves the MSS and LISTEN alone. -/
theorem Stage.mss (stage : Stage cfg t0 op t events u) :
    (.opened ∈ events ∧ t0.state = .listen ∧ op.arrival.bind Arrival.mss = some u.mss) ∨
      (.opened ∉ events ∧ u.mss = t.mss ∧ (u.state ≠ .listen → t.state ≠ .listen)) := by
  cases stage with
  | opened arrives _ _ asks listens =>
    left
    simp [arrives, asks, listens, acceptSyn]
  | aborted | rtoReset =>
    right
    simp [listenReset]
  | ackCloses _ _ _ orderly =>
    right
    rcases orderly with rfl | rfl <;> simp [listenReset, ackFlight]
  | acked _ reaches => exact .inr ⟨by simp, rfl, fun _ => reaches.isOpen⟩
  | finAcked _ reaches => exact .inr ⟨by simp, rfl, fun _ => reaches.isOpen⟩
  | established _ _ _ synRcvd => exact .inr ⟨by simp, rfl, fun _ => by simp [synRcvd]⟩
  | queued _ past => exact .inr ⟨by simp, rfl, fun _ => past.isOpen⟩
  | finUnused _ past => exact .inr ⟨by simp, rfl, fun _ => past.isOpen⟩
  | finCloseWait _ past => exact .inr ⟨by simp, rfl, fun _ => past.isOpen⟩
  | finTimeWait _ past => exact .inr ⟨by simp, rfl, fun _ => past.isOpen⟩
  | finStays _ past => exact .inr ⟨by simp, rfl, fun _ => past.isOpen⟩
  | sent _ ready =>
    refine .inr ⟨by simp, rfl, fun _ => ?_⟩
    rcases ready with ready | ready <;> simp [ready]
  | consumed =>
    refine .inr ⟨?_, rfl, id⟩
    unfold consume
    cases pendingBytes t0 <;> simp
  | eofTaken => exact .inr ⟨by simp, rfl, id⟩
  | resent => exact .inr ⟨by simp, rfl, id⟩

theorem Step.mss {s s' : Statics} {l : Label} (step : Step cfg s l s') :
    (.opened ∈ l.events ∧ s.tcb.state = .listen ∧ l.op.arrival.bind Arrival.mss = some s'.tcb.mss) ∨
      (.opened ∉ l.events ∧ s'.tcb.mss = s.tcb.mss ∧ (s'.tcb.state ≠ .listen → s.tcb.state ≠ .listen)) := by
  obtain ⟨parts, stages, same⟩ := step.stages
  rw [← same]
  refine @Run.history _ _ _ (fun parts t =>
    (.opened ∈ parts.flatten ∧ s.tcb.state = .listen ∧ l.op.arrival.bind Arrival.mss = some t.mss) ∨
    (.opened ∉ parts.flatten ∧ t.mss = s.tcb.mss ∧ (t.state ≠ .listen → s.tcb.state ≠ .listen))) ?_ _ _ _ stages ?_
  · intro parts t e u held stage
    rw [List.flatten_append, List.flatten_singleton, List.mem_append]
    rcases stage.mss with ⟨opened, asks⟩ | ⟨quiet, mss, isOpen⟩
    · exact .inl ⟨.inr opened, asks⟩
    · rcases held with ⟨opened, listens, asks⟩ | ⟨before, kept, wasOpen⟩
      · exact .inl ⟨.inl opened, listens, by rw [mss, asks]⟩
      · exact .inr ⟨not_or.mpr ⟨before, quiet⟩, mss.trans kept, fun after => wasOpen (isOpen after)⟩
  · exact .inr ⟨by simp, rfl, id⟩

theorem advertised_eq {ls : List Label} {s : Statics} (run : Run (Step cfg) Statics.init ls s)
    (isOpen : s.tcb.state ≠ .listen) : advertised ls = some s.tcb.mss := by
  revert isOpen
  refine @Run.history _ _ _ (fun ls s => s.tcb.state ≠ .listen → advertised ls = some s.tcb.mss) ?_ _ _ _ run ?_
  · intro ls s l s' held step isOpen
    rw [advertised_snoc, advertisedAfter]
    rcases step.mss with ⟨opened, -, asks⟩ | ⟨quiet, mss, wasOpen⟩
    · rw [if_pos opened, asks]
    · rw [if_neg quiet, held (wasOpen isOpen), mss]
  · intro isOpen
    exact absurd rfl isOpen

structure FlightFits (t : Tcb) : Prop where
  inv : TcbInv t
  fits : t.unackedLen ≤ t.mss.toNat

theorem FlightFits.stage (held : FlightFits t) (within : WithinMss t0 op) (stage : Stage cfg t0 op t events u) :
    FlightFits u := by
  refine ⟨held.inv.stage stage, ?_⟩
  have fits := held.fits
  cases stage with
  | aborted | ackCloses | finTimeWait | rtoReset | acked | finAcked | finUnused => exact Nat.zero_le _
  | opened _ _ _ _ listens =>
    have empty := (held.inv.idle (held.inv.quiet (.inl listens))).1
    change t0.unackedLen ≤ _
    rw [empty]
    exact Nat.zero_le _
  | established | queued | finCloseWait | finStays | consumed | eofTaken | resent => exact fits
  | @sent now data fin sends ready first idle short =>
    subst sends
    refine within ?_
    simp only [takesSend, decide_eq_true_eq]
    exact ⟨ready, not_or.mpr ⟨first, idle⟩, short⟩

theorem FlightFits.run {ls : List Label} {s s' : Statics} (run : Run (StepWhen cfg WithinMss) s ls s')
    (start : FlightFits s.tcb) : FlightFits s'.tcb :=
  stage_history (J := fun _ t => FlightFits t) (fun _ _ _ _ _ _ within held stage => held.stage within stage) run []
    start

/-- In a run whose sends stay within the MSS, the next operation puts no longer
segment on the wire than the peer's SYN allowed, exactly when it stays within too. -/
theorem segments_within_mss_iff {ls : List Label} {s s' : Statics} {l : Label}
    (run : Run (StepWhen cfg WithinMss) Statics.init ls s) (step : Step cfg s l s') :
    (∀ ip port seq ack flags dataLen, l.out = .seg ip port seq ack flags dataLen →
      ∃ mss, advertised ls = some mss ∧ dataLen ≤ mss.toNat) ↔ WithinMss s.tcb l.op := by
  have plain : Run (Step cfg) Statics.init ls s := run.mono fun _ _ _ guarded => guarded.1
  have held : FlightFits s.tcb := .run run ⟨.init, Nat.zero_le _⟩
  constructor
  · intro bounded
    obtain ⟨op, out, eof, events⟩ := l
    cases op with
    | appSend now data fin =>
      intro takes
      have isOpen : s.tcb.state ≠ .listen := by
        simp only [takesSend, decide_eq_true_eq] at takes
        rcases takes.1 with ready | ready <;> simp [ready]
      obtain ⟨seq, ack, flags, sends⟩ := @appSend_length now s.tcb data fin takes
      cases step
      obtain ⟨mss, asked, small⟩ := bounded _ _ seq ack flags data.length sends
      rw [advertised_eq plain isOpen, Option.some.injEq] at asked
      rw [asked]
      exact small
    | handle | consume | takeEof | checkRto => trivial
  · intro within ip port seq ack flags dataLen out
    have after : FlightFits s'.tcb := .run (.single ⟨step, within⟩) held
    -- in LISTEN at most a SYN+ACK goes out, which is not an `Out.seg`
    have isOpen : s.tcb.state ≠ .listen := by
      intro listens
      rcases step.silent_of_listen held.inv listens with silent | ⟨-, _, _, _, _, answer⟩
      · rw [silent] at out
        cases out
      · rw [answer] at out
        cases out
    refine ⟨s.tcb.mss, advertised_eq plain isOpen, ?_⟩
    have kept : s'.tcb.mss = s.tcb.mss := by
      rcases step.mss with ⟨-, listens, -⟩ | ⟨-, kept, -⟩
      · exact absurd listens isOpen
      · exact kept
    have emits := step.emits
    rw [out] at emits
    rcases Nat.eq_zero_or_pos dataLen with rfl | real
    · exact Nat.zero_le _
    · rw [emits.dataLen real, ← kept]
      exact after.fits

end

def smallMssSyn : List U8 :=
  match writeSynack (List.replicate synackHlen 0) 40000 listenPort 100 0 gwIp ourIp with
  | .ok (bytes, _) =>
    let bytes := ((bytes.set 13 Flag.syn).set 22 0).set 23 100
    let c := checksumTx gwIp ourIp ((bytes.set 16 0).set 17 0)
    (bytes.set 16 (c.extractLsb' 8 8)).set 17 (c.extractLsb' 0 8)
  | .error _ => []

def smallMssOps : List Op :=
  [.handle 0 smallMssSyn gwIp ourIp, .handle 0 (peerSeg 101 1 Flag.ack []) gwIp ourIp]

theorem segments_within_mss_iff_full :
    ∃ mss, advertised (runOps .default .init smallMssOps).2 = some mss ∧ 100 ≤ mss.toNat := by
  have run := @runOps_when .default WithinMss _ .init smallMssOps (by decide +kernel)
  have step : Step .default (runOps .default .init smallMssOps).1
      ⟨.appSend 0 (List.replicate 100 1) false, _, false, _⟩ _ := rfl
  have within : WithinMss (runOps .default .init smallMssOps).1.tcb (.appSend 0 (List.replicate 100 1) false) := by
    decide +kernel
  have out : (appSend 0 (runOps .default .init smallMssOps).1.tcb (List.replicate 100 1) false).2.1 =
      .seg gwIp 40000 1 101 (Flag.ack ||| Flag.psh) 100 := by decide +kernel
  exact (segments_within_mss_iff run step).mpr within _ _ _ _ _ _ out

/-- The peer asked for at most 100 bytes, and 101 go out in one segment. -/
theorem send_exceeds_mss :
    advertised (runOps .default .init smallMssOps).2 = some 100 ∧
    (runOps .default .init (smallMssOps ++ [.appSend 0 (List.replicate 101 1) false])).2.getLast?.map Label.out =
      some (.seg gwIp 40000 1 101 (Flag.ack ||| Flag.psh) 101) := by
  decide +kernel

end Whimbrel.Tcp

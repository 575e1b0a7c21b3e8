import Mathlib.Data.List.Chain
import Whimbrel.Tcp.Delivery

/-! Stop-and-wait retransmission.

`attempts` collects what went out between the start of a transmission and its
end: a matching ACK, a RST, or the RTO reset. -/

set_option autoImplicit false

namespace Whimbrel.Tcp

open Transition

def attemptsAfter (w : List Emission) : Event → List Emission
  | .acked | .aborted | .rtoReset => []
  | .sent e | .resent e => w ++ [e]
  | _ => w

/-- The emissions of the transmission that is still open. -/
def attempts (events : List Event) : List Emission := events.foldl attemptsAfter []

theorem attempts_append (es fs : List Event) : attempts (es ++ fs) = fs.foldl attemptsAfter (attempts es) :=
  List.foldl_append

def Emission.segment (e : Emission) : Emission := { e with time := 0 }

theorem emissionOf_segment (now : Usize) (t : Tcb) : (emissionOf now t).segment = emissionOf 0 t := rfl

theorem since_deadline (now last : Usize) : now - (rtoTicks + last) = now - last - rtoTicks := by
  bv_omega

/-- The wrapping comparison of `check_rto` is true only from `RTO_TICKS` on. -/
theorem elapsed_of_due {now last : Usize} (due : rtoDue now (rtoTicks + last)) : rtoTicks ≤ now - last := by
  simp only [rtoDue, decide_eq_true_eq, gt_iff_lt, BitVec.not_lt] at due
  rw [since_deadline] at due
  generalize now - last = elapsed at due ⊢
  simp only [BitVec.le_def, BitVec.toNat_sub, rtoTicks] at due ⊢
  have bound := elapsed.isLt
  simp at due ⊢
  omega

theorem due_of_elapsed {now last : Usize} (enough : rtoTicks ≤ now - last)
    (recent : (now - last).toNat < 2 ^ 63) : rtoDue now (rtoTicks + last) := by
  simp only [rtoDue, decide_eq_true_eq, gt_iff_lt, BitVec.not_lt]
  rw [since_deadline]
  generalize now - last = elapsed at enough recent ⊢
  simp only [BitVec.le_def, BitVec.toNat_sub, rtoTicks] at enough ⊢
  simp at enough ⊢
  omega

/-- The TCB knows the open transmission: its segment, its count and its last time. -/
structure InFlight (events : List Event) (t : Tcb) : Prop where
  inv : TcbInv t
  idle : ¬ t.inflight → attempts events = []
  same : t.inflight → ∀ e ∈ attempts events, e.segment = emissionOf 0 t
  count : t.inflight → (attempts events).length = t.tries.toNat
  last : t.inflight → ∃ e, (attempts events).getLast? = some e ∧ t.deadline = rtoTicks + e.time
  spaced : (attempts events).IsChain fun a b => rtoTicks ≤ b.time - a.time

theorem InFlight.init : InFlight [] Tcb.init :=
  ⟨.init, fun _ => rfl, by simp [Tcb.init], by simp [Tcb.init], by simp [Tcb.init], .nil⟩

section
variable {cfg : Config} {events more : List Event} {t0 t u : Tcb} {op : Op}

theorem InFlight.quiet (flight : InFlight events t) (inv : TcbInv u)
    (kept : attempts (events ++ more) = attempts events) (inflight : u.inflight = t.inflight)
    (segment : emissionOf 0 u = emissionOf 0 t) (tries : u.tries = t.tries)
    (deadline : u.deadline = t.deadline) : InFlight (events ++ more) u where
  inv := inv
  idle idle := by
    rw [kept]
    exact flight.idle (inflight ▸ idle)
  same flying := by
    rw [kept, segment]
    exact flight.same (inflight ▸ flying)
  count flying := by
    rw [kept, tries]
    exact flight.count (inflight ▸ flying)
  last flying := by
    rw [kept, deadline]
    exact flight.last (inflight ▸ flying)
  spaced := by
    rw [kept]
    exact flight.spaced

theorem InFlight.landed (inv : TcbInv u) (none : attempts (events ++ more) = []) (idle : ¬ u.inflight) :
    InFlight (events ++ more) u where
  inv := inv
  idle _ := none
  same flying := absurd flying idle
  count flying := absurd flying idle
  last flying := absurd flying idle
  spaced := by
    rw [none]
    exact .nil

theorem InFlight.start (flight : InFlight events t) (inv : TcbInv u) (idle : ¬ t.inflight) {now : Usize}
    (sent : attempts (events ++ more) = attempts events ++ [emissionOf now u]) (flying : u.inflight)
    (tries : u.tries = 1) (deadline : u.deadline = rtoTicks + now) : InFlight (events ++ more) u := by
  rw [flight.idle idle, List.nil_append] at sent
  exact {
    inv
    idle := fun landed => absurd flying landed
    same := fun _ e member => by
      rw [sent, List.mem_singleton] at member
      rw [member, emissionOf_segment]
    count := fun _ => by simp [sent, tries]
    last := fun _ => ⟨emissionOf now u, by simp [sent], deadline⟩
    spaced := by simp [sent] }

theorem InFlight.again (flight : InFlight events t) (now : Usize) (flying : t.inflight)
    (due : rtoDue now t.deadline) (more : t.tries < rtoMax) :
    InFlight (events ++ [.resent (emissionOf now (countTry now t))]) (countTry now t) := by
  have sent : attempts (events ++ [.resent (emissionOf now (countTry now t))]) =
      attempts events ++ [emissionOf now t] := by
    rw [attempts_append]
    rfl
  obtain ⟨e, last, deadline⟩ := flight.last flying
  rw [deadline] at due
  exact {
    inv := flight.inv.countTry now flying more
    idle := fun landed => absurd flying landed
    same := fun _ x member => by
      rw [sent, List.mem_append, List.mem_singleton] at member
      rcases member with before | rfl
      · exact flight.same flying x before
      · rfl
    count := fun _ => by
      have bound : t.tries.toNat < 8 := more
      have counted := flight.count flying
      rw [sent, List.length_append, List.length_singleton, counted, countTry, saturatingSucc_of_lt more]
      rw [BitVec.toNat_add]
      simp
      omega
    last := fun _ => ⟨emissionOf now t, by simp [sent], rfl⟩
    spaced := by
      rw [sent]
      refine flight.spaced.append (.singleton _) ?_
      intro x isLast y isHead
      rw [last, Option.mem_def, Option.some.injEq] at isLast
      rw [List.head?_cons, Option.mem_def, Option.some.injEq] at isHead
      subst isLast isHead
      exact elapsed_of_due due }

theorem InFlight.stage (flight : InFlight events t) (stage : Stage cfg t0 op t more u) :
    InFlight (events ++ more) u := by
  have inv := flight.inv.stage stage
  cases stage with
  | aborted | rtoReset => exact .landed inv (by simp [attempts_append, attemptsAfter]) (by simp [listenReset])
  | acked | finAcked => exact .landed inv (by simp [attempts_append, attemptsAfter]) (by simp [ackFlight])
  | ackCloses _ _ _ orderly =>
    rcases orderly with rfl | rfl <;>
      exact .landed inv (by simp [attempts_append, attemptsAfter]) (by simp [listenReset])
  | finTimeWait _ _ finWait2 =>
    have idle := flight.inv.quiet (.inr (.inr finWait2))
    exact .landed inv (by simp [attempts_append, attemptsAfter, flight.idle idle]) (by simp [listenReset])
  | opened _ _ _ _ listens =>
    have idle := flight.inv.quiet (.inl listens)
    exact .landed inv (by simp [attempts_append, attemptsAfter, flight.idle idle]) idle
  | finUnused _ _ established unused =>
    -- Data in flight would be the app's, and the app has sent nothing.
    have idle : ¬ t.inflight := by
      intro flying
      rcases flight.inv.used flying with sent | lastAck
      · exact unused.2 sent
      · simp [established] at lastAck
    exact flight.start inv idle (by simp [attempts_append, attemptsAfter]) rfl rfl rfl
  | sent _ _ _ idle => exact flight.start inv idle (by simp [attempts_append, attemptsAfter]) rfl rfl rfl
  | resent _ flying due more => exact flight.again _ flying due more
  | consumed =>
    refine flight.quiet inv ?_ rfl rfl rfl rfl
    unfold consume
    cases pendingBytes t0 <;> simp [attempts_append, attemptsAfter]
  | established | queued | finCloseWait | finStays | eofTaken =>
    exact flight.quiet inv (by simp [attempts_append, attemptsAfter]) rfl rfl rfl rfl

def Op.now : Op → Option Usize
  | .handle now _ _ _ | .appSend now _ _ | .checkRto now => some now
  | .consume | .takeEof => none

def Event.emission? : Event → Option Emission
  | .sent e | .resent e => some e
  | _ => none

def emissions (events : List Event) : List Emission := events.filterMap Event.emission?

theorem emissions_append (es fs : List Event) : emissions (es ++ fs) = emissions es ++ emissions fs :=
  List.filterMap_append

theorem attempts_sublist (events : List Event) : (attempts events).Sublist (emissions events) := by
  induction events using List.reverseRecOn with
  | nil => exact .slnil
  | append_singleton es e ih =>
    rw [attempts_append, emissions_append]
    cases e with
    | sent e | resent e => exact ih.append (List.Sublist.refl [e])
    | acked | aborted | rtoReset => exact List.nil_sublist _
    | opened | queued | fin | timeWait | lastAck | handed | eofTaken =>
      exact ih.trans (List.sublist_append_left _ _)

theorem arrival_now {a : Arrival} (arrives : op.arrival = some a) : op.now = some a.now := by
  cases op with
  | handle now payload src dst =>
    simp only [Op.arrival] at arrives
    cases decoded : decode payload src dst with
    | error => simp [decoded] at arrives
    | ok g =>
      simp only [decoded, Option.some.injEq] at arrives
      rw [← arrives]
      rfl
  | appSend | consume | takeEof | checkRto => cases arrives

theorem Stage.time {e : Emission} (stage : Stage cfg t0 op t more u) (out : e ∈ emissions more) :
    op.now = some e.time := by
  cases stage with
  | finUnused arrives =>
    simp only [emissions, List.filterMap_cons, Event.emission?, List.filterMap_nil, List.mem_singleton] at out
    rw [out]
    exact arrival_now arrives
  | sent sends =>
    simp only [emissions, List.filterMap_cons, Event.emission?, List.filterMap_nil, List.mem_singleton] at out
    rw [out, sends]
    rfl
  | resent checks =>
    simp only [emissions, List.filterMap_cons, Event.emission?, List.filterMap_nil, List.mem_singleton] at out
    rw [out, checks]
    rfl
  | ackCloses _ _ _ orderly => rcases orderly with rfl | rfl <;> simp [emissions, Event.emission?] at out
  | consumed =>
    unfold consume at out
    cases pending : pendingBytes t0 <;> simp [pending, emissions, Event.emission?] at out
  | aborted | opened | acked | finAcked | established | queued | finCloseWait | finTimeWait | finStays
  | eofTaken | rtoReset => simp [emissions, Event.emission?] at out

theorem Calm.emissions_eq_nil (calm : Calm events) : emissions events = [] := by
  rw [emissions, List.filterMap_eq_nil_iff]
  intro e member
  have quiet := calm e member
  cases e <;> simp [Event.transmits, Event.emission?] at quiet ⊢

end

theorem Step.time {cfg : Config} {s t : Statics} {l : Label} {e : Emission} (step : Step cfg s l t)
    (out : e ∈ emissions l.events) : l.op.now = some e.time := by
  obtain ⟨parts, stages, same⟩ := step.stages
  rw [← same] at out
  refine @Run.history _ _ _ (fun parts _ => e ∈ emissions parts.flatten → l.op.now = some e.time) ?_ _ _ _
    stages (by simp [emissions]) out
  intro parts t more u earlier stage out
  rw [List.flatten_append, emissions_append, List.mem_append] at out
  rcases out with before | now
  · exact earlier before
  · exact stage.time (by simpa using now)

theorem Step.times {cfg : Config} {s t : Statics} {l : Label} (step : Step cfg s l t) :
    ((emissions l.events).map Emission.time).Sublist l.op.now.toList := by
  have time (e : Emission) (out : e ∈ emissions l.events) : l.op.now = some e.time := step.time out
  have emits := step.emits
  generalize l.out = out at emits
  generalize l.events = events at emits time
  cases emits with
  | silent calm | synAck calm | ack calm =>
    rw [calm.emissions_eq_nil]
    exact List.nil_sublist _
  | reset => exact List.nil_sublist _
  | @start before now calm =>
    have one : emissions (before ++ [.sent (emissionOf now t.tcb)]) = [emissionOf now t.tcb] := by
      rw [emissions_append, calm.emissions_eq_nil]
      rfl
    rw [one] at time ⊢
    rw [time _ (List.mem_singleton_self _)]
    exact List.Sublist.refl _
  | again now =>
    rw [time (emissionOf now t.tcb) (List.mem_singleton_self _)]
    exact List.Sublist.refl _

theorem run_times {cfg : Config} {s t : Statics} {ls : List Label} (run : Run (Step cfg) s ls t) :
    ((emissions (eventsOf ls)).map Emission.time).Sublist (ls.filterMap (·.op.now)) := by
  refine @Run.history _ _ _ (fun ls _ =>
    ((emissions (eventsOf ls)).map Emission.time).Sublist (ls.filterMap (·.op.now))) ?_ _ _ _ run .slnil
  intro ls s l t earlier step
  rw [eventsOf_append, eventsOf_singleton, emissions_append, List.map_append, List.filterMap_append]
  refine earlier.append ?_
  have now := step.times
  cases reads : l.op.now <;> simpa [reads] using now

/-! ## The transmission as a whole -/

/-- Data or a FIN on the wire is the newest attempt, byte for byte. -/
theorem Emits.recorded {s t : Tcb} {events : List Event} {ip : Ip} {port : U16} {seq ack : U32} {flags : U8}
    {dataLen : Nat} (emits : Emits s t (.seg ip port seq ack flags dataLen) events)
    (carries : 0 < dataLen ∨ hasFlag flags Flag.fin) (before : List Event) :
    ∃ e ∈ emissions events, (attempts (before ++ events)).getLast? = some e ∧
      e = ⟨e.time, ip, port, seq, flags, t.unacked.bytes.take t.unackedLen⟩ := by
  generalize same : Out.seg ip port seq ack flags dataLen = out at emits
  cases emits with
  | silent | synAck => cases same
  | ack | reset =>
    cases same
    exact absurd carries (by decide)
  | start now =>
    cases same
    refine ⟨emissionOf now t, by simp [emissions, Event.emission?], ?_, rfl⟩
    rw [← List.append_assoc, attempts_append]
    simp [attemptsAfter]
  | again now =>
    cases same
    refine ⟨emissionOf now t, by simp [emissions, Event.emission?], ?_, rfl⟩
    rw [attempts_append]
    simp [attemptsAfter]

theorem InFlight.run {cfg : Config} {ls : List Label} {t : Statics} (run : Run (Step cfg) .init ls t) :
    InFlight (eventsOf ls) t.tcb := by
  have guarded : Run (StepWhen cfg fun _ _ => True) .init ls t := run.mono fun _ _ _ step => ⟨step, trivial⟩
  exact stage_history (fun _ _ _ _ _ _ _ held stage => held.stage stage) guarded [] .init

/-- The eighth attempt is the last: the next expiry resets. -/
theorem InFlight.expires {cfg : Config} {events : List Event} {t : Statics} (flight : InFlight events t.tcb)
    (eight : (attempts events).length = 8) {e : Emission} (last : (attempts events).getLast? = some e)
    {now : Usize} (enough : e.time.toNat + rtoTicks.toNat ≤ now.toNat)
    (recent : now.toNat < e.time.toNat + 2 ^ 63) :
    exec cfg t (.checkRto now) = .ok ({ t with tcb := listenReset t.tcb },
      ⟨.checkRto now, .seg e.dstIp e.dstPort t.tcb.sndNxt t.tcb.rcvNxt (Flag.rst ||| Flag.ack) 0, false,
        [.rtoReset]⟩) := by
  have flying : t.tcb.inflight := by
    by_contra idle
    rw [flight.idle idle] at eight
    cases eight
  have difference : (now - e.time).toNat = now.toNat - e.time.toNat :=
    BitVec.toNat_sub_of_le (BitVec.le_def.mpr (by omega))
  -- Less than half of the clock's range has passed, so the wrapped difference is the true one.
  have due : rtoDue now t.tcb.deadline := by
    obtain ⟨e', last', deadline⟩ := flight.last flying
    rw [last, Option.some.injEq] at last'
    rw [deadline, ← last']
    apply due_of_elapsed
    · rw [BitVec.le_def, difference]
      omega
    · rw [difference]
      omega
  have spent : t.tcb.tries ≥ rtoMax := by
    have counted := flight.count flying
    rw [eight] at counted
    exact BitVec.le_def.mpr (Nat.le_of_eq counted)
  have same := flight.same flying e (List.mem_of_getLast? last)
  have ip : e.dstIp = t.tcb.remoteIp := congrArg Emission.dstIp same
  have port : e.dstPort = t.tcb.remotePort := congrArg Emission.dstPort same
  simp [exec, checkRto, flying, due, spent, rstSeg, seg, ip, port]

/-- Whatever arrives and is called in between, an open transmission repeats one
segment to one peer, at most eight times, `RTO_TICKS` apart; the expiry after the
eighth sends one RST and returns to LISTEN. -/
theorem retransmission_faithful {cfg : Config} {ls : List Label} {t : Statics}
    (run : Run (Step cfg) Statics.init ls t) (clock : (ls.filterMap (·.op.now)).Pairwise (· ≤ ·)) :
    (∀ l u ip port seq ack flags dataLen, Step cfg t l u → l.out = .seg ip port seq ack flags dataLen →
      0 < dataLen ∨ hasFlag flags Flag.fin → ∃ now bytes, l.op.now = some now ∧
        unackedBytes u.tcb = .ok bytes ∧ (attempts (eventsOf (ls ++ [l]))).getLast? = some ⟨now, ip, port, seq, flags, bytes⟩) ∧
    (∀ a ∈ attempts (eventsOf ls), ∀ b ∈ attempts (eventsOf ls), a.segment = b.segment) ∧
    (∀ e ∈ attempts (eventsOf ls), e.seq = t.tcb.sndUna) ∧
    (attempts (eventsOf ls)).length ≤ 8 ∧
    ((attempts (eventsOf ls)).IsChain fun a b => a.time.toNat + rtoTicks.toNat ≤ b.time.toNat) ∧
    (t.tcb.inflight ↔ attempts (eventsOf ls) ≠ []) ∧
    (∀ e now, (attempts (eventsOf ls)).length = 8 → (attempts (eventsOf ls)).getLast? = some e →
      e.time.toNat + rtoTicks.toNat ≤ now.toNat → now.toNat < e.time.toNat + 2 ^ 63 →
      ∃ u l, exec cfg t (.checkRto now) = .ok (u, l) ∧
        l.out = .seg e.dstIp e.dstPort t.tcb.sndNxt t.tcb.rcvNxt (Flag.rst ||| Flag.ack) 0 ∧
        u.tcb.state = .listen ∧ ¬ u.tcb.inflight) := by
  have flight := InFlight.run run
  have isOpen (e : Emission) (member : e ∈ attempts (eventsOf ls)) : t.tcb.inflight := by
    by_contra idle
    rw [flight.idle idle] at member
    cases member
  have segment (e : Emission) (member : e ∈ attempts (eventsOf ls)) : e.segment = emissionOf 0 t.tcb :=
    flight.same (isOpen e member) e member
  refine ⟨?_, ?_, ?_, ?_, ?_, ?_, ?_⟩
  · intro l u ip port seq ack flags dataLen step out carries
    have next : TcbInv u.tcb := .run (.single step) flight.inv
    have emits := step.emits
    rw [out] at emits
    obtain ⟨e, emitted, newest, same⟩ := emits.recorded carries (eventsOf ls)
    refine ⟨e.time, _, step.time emitted, next.unackedBytes_eq, ?_⟩
    rw [eventsOf_append, eventsOf_singleton, newest, ← same]
  · intro a ha b hb
    rw [segment a ha, segment b hb]
  · intro e member
    exact congrArg Emission.seq (segment e member)
  · by_cases flying : t.tcb.inflight
    · rw [flight.count flying]
      exact (flight.inv.tries flying).2
    · rw [flight.idle flying]
      exact Nat.zero_le _
  · -- the clock turns the wrapping difference into one of times
    have sorted : (attempts (eventsOf ls)).Pairwise fun a b => a.time ≤ b.time :=
      List.pairwise_map.mp (clock.sublist (((attempts_sublist _).map _).trans (run_times run)))
    rw [List.isChain_iff_getElem]
    intro i inside
    have order := sorted.isChain.getElem i inside
    have elapsed := flight.spaced.getElem i inside
    rw [BitVec.le_def, BitVec.toNat_sub_of_le order] at elapsed
    have later := BitVec.le_def.mp order
    omega
  · constructor
    · intro flying none
      obtain ⟨e, last, _⟩ := flight.last flying
      simp [none] at last
    · intro some
      obtain ⟨e, member⟩ := List.exists_mem_of_ne_nil _ some
      exact isOpen e member
  · intro e now eight last enough recent
    exact ⟨_, _, flight.expires eight last enough recent, rfl, rfl, by simp [listenReset]⟩

/-- The response to a peer that falls silent: eight attempts, 200 ms apart. -/
def silentOps : List Op :=
  sendingOps ++ [.checkRto 5, .checkRto (1 * rtoTicks), .checkRto (2 * rtoTicks), .checkRto (3 * rtoTicks),
    .checkRto (4 * rtoTicks), .checkRto (5 * rtoTicks), .checkRto (6 * rtoTicks), .checkRto (7 * rtoTicks)]

theorem retransmission_faithful_silent :
    (attempts (eventsOf (runOps .default .init silentOps).2)).length = 8 ∧
    ∃ u l, exec .default (runOps .default .init silentOps).1 (.checkRto (8 * rtoTicks)) = .ok (u, l) ∧
      l.out = .seg gwIp 40000 5 101 (Flag.rst ||| Flag.ack) 0 ∧ u.tcb.state = .listen := by
  refine ⟨by decide +kernel, ?_⟩
  have faithful := retransmission_faithful (runOps_run .default .init silentOps) (by decide +kernel)
  obtain ⟨u, l, result, out, state, _⟩ := faithful.2.2.2.2.2.2
    ⟨7 * rtoTicks, gwIp, 40000, 1, Flag.fin ||| Flag.psh ||| Flag.ack, [1, 2, 3]⟩ (8 * rtoTicks)
    (by decide +kernel) (by decide +kernel) (by decide +kernel) (by decide +kernel)
  exact ⟨u, l, result, by rw [out]; decide +kernel, state⟩

end Whimbrel.Tcp

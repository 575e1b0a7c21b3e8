import Whimbrel.Tcp.Conn

/-! The peer's FIN as the end of its stream.

The data and FIN code runs in every state after the handshake and only the
sequence number guards it, so a segment at `rcv_nxt` is accepted after the
peer's FIN as before it. `Extends` is when that happens. -/

set_option autoImplicit false

namespace Whimbrel.Tcp

open Transition

/-- `rcv_nxt` moves past something of the peer. -/
def Event.accepts : Event → Bool
  | .queued _ | .fin _ => true
  | _ => false

/-- The peer's FIN was accepted and the segment still adds to its stream. -/
def Extends (cfg : Config) (t : Tcb) (a : Arrival) : Prop :=
  t.peerFin ∧ Reaches t a ∧ ¬ ackCloses cfg t a.seg ∧ (takesData t a.seg ∨ takesFin cfg t a.seg)

instance (cfg : Config) (t : Tcb) (a : Arrival) : Decidable (Extends cfg t a) :=
  inferInstanceAs (Decidable (_ ∧ _))

def Final (cfg : Config) (t : Tcb) (op : Op) : Prop := OnArrival (fun a => ¬ Extends cfg t a) op

instance (cfg : Config) (t : Tcb) (op : Op) : Decidable (Final cfg t op) :=
  inferInstanceAs (Decidable (OnArrival _ op))

section
variable {cfg : Config} {t0 : Tcb} {a : Arrival} {s : Statics}

theorem onSynRcvd_some (after : AfterAck cfg t0 a s.tcb) (handshake : handshakes t0 a.seg) :
    ∃ s', onSynRcvd s a.seg = some s' := by
  unfold onSynRcvd
  by_cases synRcvd : s.tcb.state = .synRcvd
  · have shakes := handshake (after.synRcvd.mp synRcvd)
    rw [← after.sndNxt, ← after.rcvNxt] at shakes
    rw [if_pos synRcvd, if_pos shakes]
    exact ⟨_, rfl⟩
  · rw [if_neg synRcvd]
    exact ⟨_, rfl⟩

theorem onData_some {g : Segment} (ordered : g.data = [] ∨ g.seq = s.tcb.rcvNxt) :
    ∃ r, onData s g = some r := by
  unfold onData
  by_cases empty : g.data = []
  · rw [if_pos empty]
    exact ⟨_, rfl⟩
  · rw [if_neg empty, if_neg (not_not_intro (ordered.resolve_left empty))]
    split <;> exact ⟨_, rfl⟩

theorem onFin_counts (before : BeforeFin cfg t0 a s.tcb) (takes : takesFin cfg t0 a.seg) (needAck : Bool) :
    ∃ eof, .fin eof ∈ (onFin cfg a.now s a.src a.seg needAck).2.2 := by
  obtain ⟨fin, free, _, inOrder⟩ := takes
  rw [← before.holdAcks_eq] at free
  rw [← before.rcvNxt] at inOrder
  unfold onFin
  rw [if_pos fin, if_neg free, if_neg (not_not_intro inOrder)]
  refine ⟨s.tcb.sawData || s.tcb.appSent, ?_⟩
  dsimp only
  split
  · split <;> simp
  · simp
  · simp

theorem onOpen_accepts {op : Op} (arrives : op.arrival = some a) (reaches : Reaches s.tcb a)
    (notCloses : ¬ ackCloses cfg s.tcb a.seg) (handshake : handshakes s.tcb a.seg)
    (takes : takesData s.tcb a.seg ∨ takesFin cfg s.tcb a.seg) :
    ∃ e ∈ (onOpen cfg a.now s a.src a.seg).2.2, e.accepts := by
  obtain ⟨_, outcome⟩ := @ackPart_stages cfg s.tcb op a arrives reaches
  unfold onOpen
  simp only [show (if a.seg.isAck = true then onTheirAck cfg s.tcb a.seg.ack else (s.tcb, [])) =
    ackPart cfg s.tcb a.seg from rfl]
  generalize ackPart cfg s.tcb a.seg = ackResult at outcome
  obtain ⟨t, ackEvents⟩ := ackResult
  dsimp only at outcome ⊢
  rcases outcome with ⟨_, _, closes⟩ | after
  · exact absurd closes notCloses
  rw [if_neg (fun h => after.isOpen h.2)]
  obtain ⟨s1, shaken⟩ := @onSynRcvd_some cfg s.tcb a { s with tcb := t } after handshake
  obtain ⟨_, past⟩ := onSynRcvd_stages arrives reaches after shaken
  have ordered : a.seg.data = [] ∨ a.seg.seq = s1.tcb.rcvNxt := by
    rw [past.rcvNxt]
    exact takes.elim (fun data => .inr data.2.1) (fun fin => fin.2.2.1)
  obtain ⟨⟨s2, needAck, queued⟩, offered⟩ := onData_some ordered
  obtain ⟨_, before⟩ := onData_stages arrives past offered
  simp only [shaken, offered]
  rcases takes with data | fin
  · -- the payload part leaves its event in the middle of the list
    rcases onData_cases a.seg offered with ⟨_, _, _, rfl⟩ | ⟨refused, _⟩
    · exact ⟨.queued a.seg.data, by simp, rfl⟩
    · exact absurd (past.takesData_iff.mpr data) refused
  · obtain ⟨eof, counted⟩ := onFin_counts before fin needAck
    exact ⟨.fin eof, by simp [counted], rfl⟩

end

theorem deliver_eq_onOpen {cfg : Config} {s : Statics} {a : Arrival} (reaches : Reaches s.tcb a) :
    deliver cfg a.now s a.src a.seg a.mss = onOpen cfg a.now s a.src a.seg := by
  unfold deliver
  rw [if_neg reaches.notRst, if_neg reaches.notSyn, onOther, if_neg reaches.isOpen,
    if_neg (not_not_intro reaches.tuple)]

theorem Step.eq_onOpen {cfg : Config} {s t : Statics} {l : Label} {a : Arrival} (step : Step cfg s l t)
    (arrives : l.op.arrival = some a) (reaches : Reaches s.tcb a) :
    onOpen cfg a.now s a.src a.seg = (t, l.out, l.events) := by
  obtain ⟨op, out, eof, events⟩ := l
  cases op with
  | handle now payload src dst =>
    simp only [Step, exec, handle_eq, bind_ok] at step
    simp only [Op.arrival] at arrives
    cases decoded : decode payload src dst with
    | error => simp [decoded] at arrives
    | ok g =>
      simp only [decoded, Option.some.injEq] at arrives step
      subst arrives
      rw [← deliver_eq_onOpen reaches]
      cases step
      rfl
  | appSend | consume | takeEof | checkRto => cases arrives

/-! ## Final segments -/

section
variable {cfg : Config} {events : List Event} {t0 t u : Tcb} {op : Op}

/-- Without `Extends`, a stage that accepts starts from a connection whose FIN is still to come. -/
theorem Stage.first_fin {more : List Event} (final : Final cfg t0 op) (stage : Stage cfg t0 op t more u)
    (accepts : ∃ e ∈ more, e.accepts) : ¬ t.peerFin ∧ t.state ≠ .listen := by
  cases stage with
  | queued arrives past takes =>
    refine ⟨?_, past.isOpen⟩
    intro fin
    rw [past.peerFin] at fin
    exact final _ arrives ⟨fin, past.reaches, past.notCloses, .inl takes⟩
  | finUnused arrives past | finCloseWait arrives past | finTimeWait arrives past
  | finStays arrives past =>
    refine ⟨?_, past.isOpen⟩
    intro fin
    rw [past.peerFin] at fin
    exact final _ arrives ⟨fin, past.reaches, past.notCloses, .inr past.takes⟩
  | ackCloses _ _ _ orderly => rcases orderly with rfl | rfl <;> simp [Event.accepts] at accepts
  | consumed =>
    unfold consume at accepts
    cases pending : pendingBytes t0 <;> simp [pending, Event.accepts] at accepts
  | aborted | opened | acked | finAcked | established | sent | eofTaken | resent | rtoReset =>
    simp [Event.accepts] at accepts

theorem Stage.rcvNxt_eq {more : List Event} (stage : Stage cfg t0 op t more u)
    (calm : ∀ e ∈ more, ¬ e.accepts) (notOpened : .opened ∉ more) : u.rcvNxt = t.rcvNxt := by
  cases stage with
  | opened => simp at notOpened
  | queued | finUnused | finCloseWait | finTimeWait | finStays => simp [Event.accepts] at calm
  | aborted | acked | finAcked | ackCloses | established | sent | consumed | eofTaken | resent
  | rtoReset => rfl

theorem Stage.listens_of_opened {more : List Event} (stage : Stage cfg t0 op t more u)
    (opened : .opened ∈ more) : t0.state = .listen := by
  cases stage with
  | opened _ _ _ _ listens => exact listens
  | ackCloses _ _ _ orderly => rcases orderly with rfl | rfl <;> simp at opened
  | consumed =>
    unfold consume at opened
    cases pending : pendingBytes t0 <;> simp [pending] at opened
  | aborted | acked | finAcked | established | queued | finUnused | finCloseWait | finTimeWait
  | finStays | sent | eofTaken | resent | rtoReset => simp at opened

/-- The peer's FIN was accepted, and the connection it belongs to may have ended since. -/
def Settled (t : Tcb) : Prop := t.peerFin ∨ t.state = .listen

theorem Stage.settled {more : List Event} (stage : Stage cfg t0 op t more u) (notOpened : .opened ∉ more)
    (settled : Settled t) : Settled u := by
  cases stage with
  | opened => simp at notOpened
  | aborted | ackCloses | rtoReset | finTimeWait => exact .inr rfl
  | finUnused | finCloseWait | finStays => exact .inl rfl
  | acked | queued | consumed | eofTaken | resent => exact settled
  | finAcked _ reaches => exact .inl (settled.resolve_right reaches.isOpen)
  | established _ _ _ synRcvd => exact .inl (settled.resolve_right (by simp [synRcvd]))
  | sent _ ready =>
    refine .inl (settled.resolve_right ?_)
    rcases ready with state | state <;> simp [state]

theorem Final.quiet {s t : Statics} {l : Label} (final : Final cfg s.tcb l.op) (inv : TcbInv s.tcb)
    (fin : s.tcb.peerFin) (step : Step cfg s l t) :
    t.tcb.rcvNxt = s.tcb.rcvNxt ∧ ∀ e ∈ l.events, ¬ e.accepts := by
  obtain ⟨parts, stages, same⟩ := step.stages
  rw [← same]
  have isOpen : s.tcb.state ≠ .listen := fun listens => (inv.fresh (.inl listens)).2.2.2 fin
  -- induction over the stages of the operation; each starts from a settled TCB
  have whole : Settled t.tcb ∧ t.tcb.rcvNxt = s.tcb.rcvNxt ∧ ∀ e ∈ parts.flatten, ¬ e.accepts := by
    refine @Run.history _ _ _ (fun parts t => Settled t ∧ t.rcvNxt = s.tcb.rcvNxt ∧
      ∀ e ∈ parts.flatten, ¬ e.accepts) ?_ _ _ _ stages ⟨.inl fin, rfl, by simp⟩
    intro parts t more u ⟨settled, rcvNxt, quiet⟩ stage
    have calm : ∀ e ∈ more, ¬ e.accepts := by
      intro e member accepts
      obtain ⟨noFin, notListen⟩ := stage.first_fin final ⟨e, member, accepts⟩
      exact settled.elim noFin notListen
    have notOpened : .opened ∉ more := fun opened => isOpen (stage.listens_of_opened opened)
    refine ⟨stage.settled notOpened settled, (stage.rcvNxt_eq calm notOpened).trans rcvNxt, ?_⟩
    intro e member
    rw [List.flatten_append, List.mem_append] at member
    rcases member with before | now
    · exact quiet e before
    · exact calm e (by simpa using now)
  exact whole.2

/-- From a TCB with the FIN accepted, an operation leaves the stream alone
exactly when it meets `Final`. -/
theorem final_iff {s t : Statics} {l : Label} (inv : TcbInv s.tcb) (fin : s.tcb.peerFin)
    (step : Step cfg s l t) :
    (t.tcb.rcvNxt = s.tcb.rcvNxt ∧ ∀ e ∈ l.events, ¬ e.accepts) ↔ Final cfg s.tcb l.op := by
  constructor
  · intro quiet a arrives extends_
    obtain ⟨_, reaches, notCloses, takes⟩ := extends_
    have handshake : handshakes s.tcb a.seg :=
      fun synRcvd => absurd fin (inv.fresh (.inr synRcvd)).2.2.2
    obtain ⟨e, member, accepts⟩ := onOpen_accepts arrives reaches notCloses handshake takes
    rw [step.eq_onOpen arrives reaches] at member
    exact quiet.2 e member accepts
  · intro final
    exact final.quiet inv fin step

/-- Since the last SYN, nothing was accepted after a FIN. -/
def EndsStream (events : List Event) : Prop :=
  ∀ es e fs, events = es ++ e :: fs → 0 < (conn es).fins → ¬ e.accepts

theorem EndsStream.nil : EndsStream [] := by
  intro es e fs split
  simp at split

theorem EndsStream.snoc {e : Event} (ends : EndsStream events)
    (last : 0 < (conn events).fins → ¬ e.accepts) : EndsStream (events ++ [e]) := by
  intro es e' fs split counted
  rcases List.eq_nil_or_concat fs with rfl | ⟨fs', last', rfl⟩
  · obtain ⟨rfl, same⟩ := List.append_inj' split rfl
    cases same
    exact last counted
  · rw [List.concat_eq_append, ← List.cons_append, ← List.append_assoc] at split
    obtain ⟨front, _⟩ := List.append_inj' split rfl
    exact ends es e' fs' front counted

theorem EndsStream.append {more : List Event} (ends : EndsStream events)
    (first : 0 < (conn events).fins → ∀ e ∈ more, ¬ e.accepts)
    (rest : ∀ e ∈ more.tail, ¬ e.accepts) : EndsStream (events ++ more) := by
  cases more with
  | nil => simpa using ends
  | cons e more =>
    have head : EndsStream (events ++ [e]) := ends.snoc fun counted => first counted e (by simp)
    rw [List.append_cons]
    clear ends first
    -- the events after the first are appended one by one
    induction more generalizing events e with
    | nil => simpa using head
    | cons e' more ih =>
      have next : EndsStream (events ++ [e] ++ [e']) := head.snoc fun _ => rest e' (by simp)
      have later := ih e' (fun x member => rest x (List.mem_cons_of_mem _ member)) next
      simpa using later

theorem Stage.tail_accepts {more : List Event} (stage : Stage cfg t0 op t more u) :
    ∀ e ∈ more.tail, ¬ e.accepts := by
  cases stage with
  | ackCloses _ _ _ orderly => rcases orderly with rfl | rfl <;> simp [Event.accepts]
  | consumed =>
    unfold consume
    cases pendingBytes t0 <;> simp
  | finUnused | finTimeWait => simp [Event.accepts]
  | aborted | opened | acked | finAcked | established | queued | finCloseWait | finStays | sent
  | eofTaken | resent | rtoReset => simp

theorem conn_fins_le {c : Conn} {more : List Event} (calm : ∀ e ∈ more, ¬ e.accepts) :
    (more.foldl Conn.after c).fins ≤ c.fins := by
  induction more generalizing c with
  | nil => exact Nat.le_refl _
  | cons e more ih =>
    have rest := ih (c := c.after e) fun x member => calm x (List.mem_cons_of_mem _ member)
    refine Nat.le_trans rest ?_
    have quiet := calm e List.mem_cons_self
    cases e <;> simp [Conn.after, Conn.empty, Event.accepts] at quiet ⊢

theorem conn_fins_le_succ {c : Conn} {more : List Event} (rest : ∀ e ∈ more.tail, ¬ e.accepts) :
    (more.foldl Conn.after c).fins ≤ c.fins + 1 := by
  cases more with
  | nil => exact Nat.le_succ _
  | cons e more =>
    have later : (more.foldl Conn.after (c.after e)).fins ≤ (c.after e).fins := conn_fins_le rest
    refine Nat.le_trans later ?_
    cases e <;> simp [Conn.after, Conn.empty]

structure OneFin (events : List Event) (t : Tcb) : Prop where
  tracks : Tracks events t
  ends : EndsStream events
  fins : (conn events).fins ≤ 1

theorem OneFin.stage {more : List Event} (final : Final cfg t0 op) (one : OneFin events t)
    (stage : Stage cfg t0 op t more u) : OneFin (events ++ more) u := by
  have quietOrFirst : (∀ e ∈ more, ¬ e.accepts) ∨ (conn events).fins = 0 := by
    by_cases accepts : ∃ e ∈ more, e.accepts
    · obtain ⟨noFin, isOpen⟩ := stage.first_fin final accepts
      rw [one.tracks.peerFin isOpen] at noFin
      exact .inr (Nat.eq_zero_of_not_pos noFin)
    · exact .inl fun e member found => accepts ⟨e, member, found⟩
  refine ⟨one.tracks.stage stage, ?_, ?_⟩
  · apply one.ends.append
    · intro counted
      exact quietOrFirst.resolve_right (Nat.ne_of_gt counted)
    · exact stage.tail_accepts
  · rw [conn_append]
    rcases quietOrFirst with quiet | first
    · exact Nat.le_trans (conn_fins_le quiet) one.fins
    · have atMost := @conn_fins_le_succ (conn events) more stage.tail_accepts
      omega

end

/-- In every reachable state with the peer's FIN accepted, an operation leaves
`rcv_nxt` and the queue alone exactly when it meets `Final`. In a run that
meets it throughout, nothing of a connection is accepted after its FIN, the FIN
is counted once in `rcv_nxt`, and the app is handed what came before it. -/
theorem peerFin_final {cfg : Config} {ls : List Label} {s : Statics}
    (run : Run (Step cfg) Statics.init ls s) :
    (∀ l t, Step cfg s l t → s.tcb.peerFin →
      ((t.tcb.rcvNxt = s.tcb.rcvNxt ∧ ∀ e ∈ l.events, ¬ e.accepts) ↔ Final cfg s.tcb l.op)) ∧
    (Run (StepWhen cfg (Final cfg)) Statics.init ls s →
      EndsStream (eventsOf ls) ∧ (conn (eventsOf ls)).fins ≤ 1 ∧
      (.opened ∈ eventsOf ls → s.tcb.rcvNxt = (conn (eventsOf ls)).next s.tcb.theirIsn) ∧
      (conn (eventsOf ls)).handed <+: (conn (eventsOf ls)).accepted) := by
  constructor
  · intro l t step fin
    exact final_iff (.run run .init) fin step
  · intro guarded
    have one : OneFin (eventsOf ls) s.tcb :=
      stage_history (fun _ _ _ _ _ _ final one stage => one.stage final stage) guarded []
        ⟨.init, .nil, Nat.zero_le _⟩
    exact ⟨one.ends, one.fins, one.tracks.rcvNxt, one.tracks.handed⟩

def finOps : List Op := requestOps ++ [.handle 0 (peerSeg 103 1 (Flag.fin ||| Flag.ack) []) gwIp ourIp]

theorem peerFin_final_once :
    (runOps .default .init finOps).1.tcb.peerFin ∧ EndsStream (eventsOf (runOps .default .init finOps).2) :=
  ⟨by decide +kernel, ((peerFin_final (runOps_run .default .init finOps)).2
    (@runOps_when .default (Final .default) _ .init finOps (by decide +kernel))).1⟩

/-- After the FIN: a second FIN at `rcv_nxt`, and data behind it once the app has read. -/
def afterFinOps : List Op :=
  finOps ++ [.handle 0 (peerSeg 104 1 (Flag.fin ||| Flag.ack) []) gwIp ourIp, .consume,
    .handle 0 (peerSeg 105 1 (Flag.psh ||| Flag.ack) [88]) gwIp ourIp]

/-- Both FINs are counted, and the app is offered a byte that follows them. -/
theorem second_fin_accepted :
    (runOps .default .init finOps).1.tcb.peerFin ∧ (runOps .default .init finOps).1.tcb.rcvNxt = 104 ∧
      (runOps .default .init afterFinOps).1.tcb.rcvNxt = 106 ∧
      (conn (eventsOf (runOps .default .init afterFinOps).2)).fins = 2 ∧
      pendingBytes (runOps .default .init afterFinOps).1.tcb = some [88] := by
  decide +kernel

end Whimbrel.Tcp

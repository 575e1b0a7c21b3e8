import Whimbrel.Tcp.PeerFin

/-! In-order delivery of a conforming peer's stream.

The peer numbers its stream `B` from `isn + 1`. The network may drop, repeat and
reorder its segments; `Conforms` says only that each one carries the bytes that
belong at its sequence number. -/

set_option autoImplicit false

namespace Whimbrel.Tcp

open Transition

/-- A segment of the peer. Reset, SYN and bare ACK are free apart from the
number of the SYN; data and FIN lie at their place in the stream. -/
def Conforms (isn : U32) (B : List U8) (g : Segment) : Prop :=
  if g.isRst then True
  else if g.isSyn ∧ ¬ g.isAck then g.seq = isn
  else g.data = [] ∧ ¬ g.isFin ∨
    ∃ off ≤ B.length, g.seq = isn + 1 + BitVec.ofNat 32 off ∧ g.data <+: B.drop off ∧
      (g.isFin → off + g.data.length = B.length)

instance (isn : U32) (B : List U8) (g : Segment) : Decidable (Conforms isn B g) :=
  inferInstanceAs (Decidable (ite _ _ _))

theorem offset_eq {isn : U32} {off n : Nat} (offBound : off < 2 ^ 32) (bound : n < 2 ^ 32)
    (same : isn + 1 + BitVec.ofNat 32 off = isn + 1 + BitVec.ofNat 32 n) : off = n := by
  have numbers : BitVec.ofNat 32 off = BitVec.ofNat 32 n := by
    have cancel := congrArg (fun x => x - (isn + 1)) same
    simpa [BitVec.add_sub_cancel, BitVec.add_comm] using cancel
  have values := congrArg BitVec.toNat numbers
  rwa [BitVec.toNat_ofNat, BitVec.toNat_ofNat, Nat.mod_eq_of_lt offBound, Nat.mod_eq_of_lt bound] at values

theorem Conn.next_eq (isn : U32) (c : Conn) :
    c.next isn = isn + 1 + BitVec.ofNat 32 (c.accepted.length + c.fins) := by
  rw [Conn.next, BitVec.ofNat_add, BitVec.add_assoc (isn + 1)]

/-- What was accepted is the front of the stream, and the FIN only after all of it. -/
structure InStream (isn : U32) (B : List U8) (events : List Event) (t : Tcb) : Prop where
  tracks : Tracks events t
  isn : .opened ∈ events → t.theirIsn = isn
  accepted : (conn events).accepted <+: B
  fins : (conn events).fins = 0 ∨ (conn events).fins = 1 ∧ (conn events).accepted = B

section
variable {cfg : Config} {isn : U32} {B : List U8} {events : List Event} {t0 t u : Tcb} {op : Op}

theorem InStream.fins_le (inStream : InStream isn B events t) : (conn events).fins ≤ 1 := by
  rcases inStream.fins with none | ⟨one, _⟩ <;> omega

/-- The offset of a segment at `rcv_nxt`: it cannot lie past an accepted FIN. -/
theorem InStream.at_rcvNxt (inStream : InStream isn B events t) (short : B.length < 2 ^ 31)
    (isOpen : t.state ≠ .listen) {off : Nat} (within : off ≤ B.length)
    (expected : isn + 1 + BitVec.ofNat 32 off = t.rcvNxt) :
    off = (conn events).accepted.length ∧ (conn events).fins = 0 := by
  have opened := inStream.tracks.opened isOpen
  have length := inStream.accepted.length_le
  rw [inStream.tracks.rcvNxt opened, inStream.isn opened, Conn.next_eq] at expected
  have atMost := inStream.fins_le
  have same := offset_eq (by omega) (by omega) expected
  rcases inStream.fins with none | ⟨one, all⟩
  · exact ⟨by omega, none⟩
  · rw [all] at same
    omega

theorem prefix_extend {xs data : List U8} (front : xs <+: B) (next : data <+: B.drop xs.length) :
    xs ++ data <+: B := by
  obtain ⟨rest, rfl⟩ := front
  rw [List.drop_left] at next
  obtain ⟨tail, rfl⟩ := next
  exact ⟨tail, by simp⟩

theorem Conforms.offset {a : Arrival} (conforms : Conforms isn B a.seg) (reaches : Reaches t0 a)
    (carries : a.seg.data ≠ [] ∨ a.seg.isFin) :
    ∃ off ≤ B.length, a.seg.seq = isn + 1 + BitVec.ofNat 32 off ∧ a.seg.data <+: B.drop off ∧
      (a.seg.isFin → off + a.seg.data.length = B.length) := by
  rw [Conforms, if_neg reaches.notRst, if_neg reaches.notSyn] at conforms
  rcases conforms with ⟨empty, noFin⟩ | placed
  · exact absurd carries (not_or.mpr ⟨not_not_intro empty, noFin⟩)
  · exact placed

theorem InStream.queued {a : Arrival} (inStream : InStream isn B events t) (short : B.length < 2 ^ 31)
    (conforms : Conforms isn B a.seg) (past : PastAck cfg t0 a t) (takes : takesData t0 a.seg) :
    (conn events).accepted ++ a.seg.data <+: B ∧ (conn events).fins = 0 := by
  obtain ⟨off, within, seq, placed, _⟩ := conforms.offset past.reaches (.inl takes.1)
  have expected : isn + 1 + BitVec.ofNat 32 off = t.rcvNxt := by
    rw [← seq, takes.2.1, past.rcvNxt]
  obtain ⟨rfl, noFin⟩ := inStream.at_rcvNxt short past.isOpen within expected
  exact ⟨prefix_extend inStream.accepted placed, noFin⟩

/-- A FIN is accepted right behind the last byte of the stream. -/
theorem InStream.fin {a : Arrival} (inStream : InStream isn B events t) (short : B.length < 2 ^ 31)
    (conforms : Conforms isn B a.seg) (past : PastData cfg t0 a t) :
    (conn events).accepted = B ∧ (conn events).fins = 0 := by
  have fin := past.takes.1
  obtain ⟨off, _, seq, _, last⟩ := conforms.offset past.reaches (.inr fin)
  have whole := last fin
  have expected : isn + 1 + BitVec.ofNat 32 B.length = t.rcvNxt := by
    rw [past.rcvNxt, seq, ← whole, BitVec.ofNat_add, BitVec.add_assoc (isn + 1)]
  obtain ⟨all, noFin⟩ := inStream.at_rcvNxt short past.isOpen (Nat.le_refl _) expected
  exact ⟨inStream.accepted.eq_of_length all.symm, noFin⟩

theorem InStream.quiet (inStream : InStream isn B events t) {more : List Event}
    (tracks : Tracks (events ++ more) u) (theirIsn : u.theirIsn = t.theirIsn) (notOpened : .opened ∉ more)
    (accepted : (conn (events ++ more)).accepted = (conn events).accepted)
    (fins : (conn (events ++ more)).fins = (conn events).fins) : InStream isn B (events ++ more) u where
  tracks := tracks
  isn opened := by
    have before : .opened ∈ events := (List.mem_append.mp opened).resolve_right notOpened
    rw [theirIsn, inStream.isn before]
  accepted := by
    rw [accepted]
    exact inStream.accepted
  fins := by
    rw [accepted, fins]
    exact inStream.fins

theorem InStream.counted (inStream : InStream isn B events t) {more : List Event} (isOpen : t.state ≠ .listen)
    (tracks : Tracks (events ++ more) u) (theirIsn : u.theirIsn = t.theirIsn)
    (complete : (conn events).accepted = B ∧ (conn events).fins = 0)
    (same : conn (events ++ more) = { conn events with fins := (conn events).fins + 1 }) :
    InStream isn B (events ++ more) u where
  tracks := tracks
  isn _ := by rw [theirIsn, inStream.isn (inStream.tracks.opened isOpen)]
  accepted := by
    rw [same]
    exact inStream.accepted
  fins := by
    rw [same]
    exact .inr ⟨by simp [complete.2], complete.1⟩

theorem InStream.stage {more : List Event} (short : B.length < 2 ^ 31)
    (conforms : OnArrival (fun a => Conforms isn B a.seg) op) (inStream : InStream isn B events t)
    (stage : Stage cfg t0 op t more u) : InStream isn B (events ++ more) u := by
  have tracks := inStream.tracks.stage stage
  cases stage with
  | opened arrives notRst syn =>
    have placed := conforms _ arrives
    dsimp only at placed
    rw [Conforms, if_neg notRst, if_pos syn] at placed
    exact ⟨tracks, fun _ => placed, by simp [conn_append, Conn.after, Conn.empty],
      .inl (by simp [conn_append, Conn.after, Conn.empty])⟩
  | queued arrives past takes =>
    obtain ⟨accepted, noFin⟩ := inStream.queued short (conforms _ arrives) past takes
    exact {
      tracks
      isn := fun _ => inStream.isn (inStream.tracks.opened past.isOpen)
      accepted := by simpa [conn_append, Conn.after] using accepted
      fins := .inl (by simpa [conn_append, Conn.after] using noFin) }
  | finUnused arrives past | finCloseWait arrives past | finTimeWait arrives past
  | finStays arrives past =>
    exact inStream.counted past.isOpen tracks rfl (inStream.fin short (conforms _ arrives) past)
      (by simp [conn_append, Conn.after])
  | consumed =>
    refine inStream.quiet tracks rfl ?_ ?_ ?_ <;> unfold consume <;> cases pendingBytes t0 <;>
      simp [conn_append, Conn.after]
  | ackCloses _ _ _ orderly =>
    rcases orderly with rfl | rfl <;>
      exact inStream.quiet tracks rfl (by simp) (by simp [conn_append, Conn.after])
        (by simp [conn_append, Conn.after])
  | aborted | acked | finAcked | established | sent | eofTaken | resent | rtoReset =>
    exact inStream.quiet tracks rfl (by simp) (by simp [conn_append, Conn.after])
      (by simp [conn_append, Conn.after])

end

theorem deliver_silent {cfg : Config} (now : Usize) {s : Statics} (listens : s.tcb.state = .listen) (src : Ip)
    (g : Segment) (mss : Option U16) :
    (deliver cfg now s src g mss).2.1 = .none ∨
      .opened ∈ (deliver cfg now s src g mss).2.2 ∧
        ∃ ip port seq ack, (deliver cfg now s src g mss).2.1 = .synAck ip port seq ack := by
  unfold deliver
  split
  · unfold onRst
    split <;> exact .inl rfl
  split
  · cases mss with
    | none => exact .inl rfl
    | some mss =>
      right
      simp [onSyn, listens, synack]
  · rw [onOther, if_pos listens]
    exact .inl rfl

/-- LISTEN answers nothing but the SYN that leaves it. -/
theorem Step.silent_of_listen {cfg : Config} {s t : Statics} {l : Label} (step : Step cfg s l t)
    (inv : TcbInv s.tcb) (listens : s.tcb.state = .listen) :
    l.out = .none ∨ .opened ∈ l.events ∧ ∃ ip port seq ack, l.out = .synAck ip port seq ack := by
  obtain ⟨op, out, eof, events⟩ := l
  cases op with
  | handle now payload src dst =>
    simp only [Step, exec, handle_eq, bind_ok] at step
    cases decoded : decode payload src dst with
    | error =>
      rw [decoded] at step
      cases step
      exact .inl rfl
    | ok g =>
      rw [decoded] at step
      cases step
      exact deliver_silent now listens src g (mssOf payload)
  | appSend now data fin =>
    have refused : appSend now s.tcb data fin = (s.tcb, .none, []) := by simp [appSend, listens]
    simp only [Step, exec, refused, pure_eq_ok, Except.ok.injEq, Prod.mk.injEq, Label.mk.injEq] at step
    exact .inl step.2.2.1.symm
  | consume | takeEof =>
    cases step
    exact .inl rfl
  | checkRto now =>
    -- LISTEN has nothing in flight, so no timer is running.
    have idle := inv.quiet (.inl listens)
    have nothing : checkRto now s.tcb = (s.tcb, .none, []) := by simp [checkRto, idle]
    simp only [Step, exec, nothing, pure_eq_ok, Except.ok.injEq, Prod.mk.injEq, Label.mk.injEq] at step
    exact .inl step.2.2.1.symm

/-- From any LISTEN state, against one peer with stream `B`: in each connection
the app is handed a front of `B`, `rcv_nxt` counts exactly what was accepted,
and every segment acknowledges exactly that. -/
theorem stream_delivered {cfg : Config} {isn : U32} {B : List U8} (short : B.length < 2 ^ 31)
    {earlier ls : List Label} {s t : Statics} (before : Run (Step cfg) Statics.init earlier s)
    (listens : s.tcb.state = .listen)
    (run : Run (StepWhen cfg fun _ op => OnArrival (fun a => Conforms isn B a.seg) op) s ls t) :
    (conn (eventsOf ls)).handed <+: B ∧ (conn (eventsOf ls)).accepted <+: B ∧
      ((conn (eventsOf ls)).fins = 0 ∨ (conn (eventsOf ls)).fins = 1 ∧ (conn (eventsOf ls)).accepted = B) ∧
      (.opened ∈ eventsOf ls → t.tcb.rcvNxt = (conn (eventsOf ls)).next isn) ∧
      ∀ l ack, ls.getLast? = some l → l.out.ack? = some ack → ack = (conn (eventsOf ls)).next isn := by
  have inv : TcbInv s.tcb := .run before .init
  have start : InStream isn B [] s.tcb := ⟨.listen inv listens, by simp, List.nil_prefix, .inl rfl⟩
  have stages {ls : List Label} {t : Statics}
      (run : Run (StepWhen cfg fun _ op => OnArrival (fun a => Conforms isn B a.seg) op) s ls t) :
      InStream isn B (eventsOf ls) t.tcb :=
    stage_history (fun _ _ _ _ _ _ conforms held stage => held.stage short conforms stage) run [] start
  have inStream := stages run
  have counts (opened : .opened ∈ eventsOf ls) : t.tcb.rcvNxt = (conn (eventsOf ls)).next isn := by
    rw [inStream.tracks.rcvNxt opened, inStream.isn opened]
  refine ⟨inStream.tracks.handed.trans inStream.accepted, inStream.accepted, inStream.fins, counts, ?_⟩
  intro l ack last carries
  obtain ⟨front, rfl⟩ := List.getLast?_eq_some_iff.mp last
  obtain ⟨u, first, step, _⟩ := run.cases_snoc
  -- whatever is emitted belongs to a connection, so a SYN came before
  have opened : .opened ∈ eventsOf (front ++ [l]) := by
    rw [eventsOf_append, eventsOf_singleton, List.mem_append]
    have tracks := (stages first).tracks
    by_cases waiting : u.tcb.state = .listen
    · rcases step.silent_of_listen tracks.inv waiting with silent | ⟨now, -⟩
      · rw [silent] at carries
        cases carries
      · exact .inr now
    · exact .inl (tracks.opened waiting)
  rw [step.emits.ack_eq carries, counts opened]

/-- The stream `[71, 69]` with every segment sent twice, the FIN also before its turn. -/
def reorderedOps : List Op :=
  let syn := .handle 0 (peerSeg 100 0 Flag.syn []) gwIp ourIp
  let shake := .handle 0 (peerSeg 101 1 Flag.ack []) gwIp ourIp
  let data := .handle 0 (peerSeg 101 1 (Flag.psh ||| Flag.ack) [71, 69]) gwIp ourIp
  let fin := .handle 0 (peerSeg 103 1 (Flag.fin ||| Flag.ack) []) gwIp ourIp
  [syn, syn, shake, fin, data, data, .consume, shake, fin, fin]

theorem stream_delivered_reordered :
    (conn (eventsOf (runOps .default .init reorderedOps).2)).handed = [71, 69] ∧
      (runOps .default .init reorderedOps).1.tcb.rcvNxt =
        (conn (eventsOf (runOps .default .init reorderedOps).2)).next 100 :=
  ⟨by decide +kernel,
    (@stream_delivered .default 100 [71, 69] (by decide) [] _ .init _ .nil rfl
      (@runOps_when .default (fun _ op => OnArrival (fun a => Conforms 100 [71, 69] a.seg) op) _ .init
        reorderedOps (by decide +kernel))).2.2.2.1 (by decide +kernel)⟩

end Whimbrel.Tcp

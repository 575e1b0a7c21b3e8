import Whimbrel.Tcp.PeerFin

/-! End-of-stream and the connection it belongs to.

The EOF mark outlives `listen_reset` until `take_eof`. A SYN that LISTEN takes
meanwhile starts a connection under the mark of the one before; `ReusesEof` is
that step. -/

set_option autoImplicit false

namespace Whimbrel.Tcp

open Transition

def opens (events : List Event) : Nat := events.count .opened

/-- Each event with its connection; the SYN that leaves LISTEN is the first of the next one. -/
def numberedFrom (k : Nat) : List Event → List (Nat × Event)
  | [] => []
  | e :: es =>
    let k := if e = .opened then k + 1 else k
    (k, e) :: numberedFrom k es

def numbered (events : List Event) : List (Nat × Event) := numberedFrom 0 events

theorem opens_append (es fs : List Event) : opens (es ++ fs) = opens es + opens fs := List.count_append

theorem numberedFrom_append (k : Nat) (es fs : List Event) :
    numberedFrom k (es ++ fs) = numberedFrom k es ++ numberedFrom (k + opens es) fs := by
  induction es generalizing k with
  | nil => simp [numberedFrom, opens]
  | cons e es ih =>
    simp only [List.cons_append, numberedFrom, ih, List.cons.injEq, true_and]
    congr 2
    by_cases syn : e = .opened <;> simp [opens, syn]
    omega

theorem numbered_append (es fs : List Event) :
    numbered (es ++ fs) = numbered es ++ numberedFrom (opens es) fs := by
  rw [numbered, numberedFrom_append, Nat.zero_add]
  rfl

theorem numberedFrom_quiet {k : Nat} {es : List Event} (notOpened : .opened ∉ es) :
    numberedFrom k es = es.map (k, ·) := by
  induction es with
  | nil => rfl
  | cons e es ih =>
    obtain ⟨first, rest⟩ := not_or.mp (List.mem_cons.not.mp notOpened)
    simp [numberedFrom, Ne.symm first, ih rest]

theorem opens_quiet {es more : List Event} (notOpened : .opened ∉ more) : opens (es ++ more) = opens es := by
  rw [opens_append, opens, opens, List.count_eq_zero.mpr notOpened, Nat.add_zero]

/-- The peer's FIN of connection `k` was accepted. -/
def Ended (k : Nat) (events : List Event) : Prop := ∃ eof, (k, .fin eof) ∈ numbered events

/-- Connection `k` ended in a RST of the peer or in the RTO reset. -/
def Aborted (k : Nat) (events : List Event) : Prop :=
  (k, .aborted) ∈ numbered events ∨ (k, .rtoReset) ∈ numbered events

section
variable {k : Nat} {es more : List Event}

theorem Ended.append (ended : Ended k es) : Ended k (es ++ more) := by
  obtain ⟨eof, member⟩ := ended
  exact ⟨eof, by rw [numbered_append]; exact List.mem_append_left _ member⟩

theorem Ended.current (notOpened : .opened ∉ more) (ended : Ended (opens es) es) :
    Ended (opens (es ++ more)) (es ++ more) := by
  rw [opens_quiet notOpened]
  exact ended.append

theorem Aborted.append (aborted : Aborted k es) : Aborted k (es ++ more) := by
  unfold Aborted
  rw [numbered_append]
  exact aborted.imp (List.mem_append_left _) (List.mem_append_left _)

theorem mem_numbered_current {e : Event} (notOpened : .opened ∉ more) (member : e ∈ more) :
    (opens es, e) ∈ numbered (es ++ more) := by
  rw [numbered_append, numberedFrom_quiet notOpened]
  exact List.mem_append_right _ (List.mem_map_of_mem member)

theorem ended_of_fins (counted : 0 < (conn es).fins) : Ended (opens es) es := by
  induction es using List.reverseRecOn with
  | nil => simp [conn, Conn.empty] at counted
  | append_singleton es e ih =>
    have same : conn (es ++ [e]) = (conn es).after e := by simp [conn_append]
    rw [same] at counted
    cases e with
    | opened => simp [Conn.after, Conn.empty] at counted
    | fin eof =>
      refine ⟨eof, ?_⟩
      rw [show opens (es ++ [.fin eof]) = opens es from opens_quiet (by simp)]
      exact mem_numbered_current (by simp) (by simp)
    | queued | acked | timeWait | lastAck | aborted | sent | resent | rtoReset | handed | eofTaken =>
      exact (ih counted).current (by simp)

end

/-! ## Reports -/

/-- LISTEN takes a SYN while an end-of-stream is unreported. -/
def ReusesEof (t : Tcb) (a : Arrival) : Prop :=
  t.state = .listen ∧ t.eof ∧ ¬ a.seg.isRst ∧ (a.seg.isSyn ∧ ¬ a.seg.isAck) ∧ a.mss.isSome

instance (t : Tcb) (a : Arrival) : Decidable (ReusesEof t a) := inferInstanceAs (Decidable (_ ∧ _))

def EofRead (t : Tcb) (op : Op) : Prop := OnArrival (fun a => ¬ ReusesEof t a) op

instance (t : Tcb) (op : Op) : Decidable (EofRead t op) := inferInstanceAs (Decidable (OnArrival _ op))

/-- Whoever was handed a payload of connection `k` and is told end-of-stream: the
peer of `k` has sent its FIN, unless `k` was aborted. -/
def ToldRight (events : List Event) : Prop :=
  ∀ pre post, events = pre ++ .eofTaken :: post →
    ∀ k data, (k, .handed data) ∈ numbered pre → ¬ Aborted k pre → Ended k pre

/-- No payload is handed over while the end-of-stream of an earlier connection is unreported. -/
def Unmixed (events : List Event) : Prop :=
  ∀ pre data post, events = pre ++ .handed data :: post →
    ∀ p q, pre = p ++ .fin true :: q → .opened ∈ q → .eofTaken ∈ q

theorem split_append {es more pre post : List Event} {x : Event} (split : es ++ more = pre ++ x :: post) :
    (∃ c, es = pre ++ x :: c ∧ post = c ++ more) ∨ ∃ c, pre = es ++ c ∧ more = c ++ x :: post := by
  rcases List.append_eq_append_iff.mp split with ⟨c, front, back⟩ | ⟨c, front, back⟩
  · exact .inr ⟨c, front, back⟩
  · cases c with
    | nil => exact .inr ⟨[], by simpa using front.symm, by simpa using back.symm⟩
    | cons y c =>
      obtain ⟨rfl, rfl⟩ := List.cons.inj back
      exact .inl ⟨c, front, rfl⟩

section
variable {es more : List Event}

theorem ToldRight.append (told : ToldRight es)
    (last : .eofTaken ∈ more → more = [.eofTaken] ∧
      ∀ k data, (k, .handed data) ∈ numbered es → ¬ Aborted k es → Ended k es) : ToldRight (es ++ more) := by
  intro pre post split
  rcases split_append split with ⟨c, before, _⟩ | ⟨c, rfl, now⟩
  · exact told pre c before
  · obtain ⟨alone, right⟩ := last (by simp [now])
    rw [alone] at now
    obtain ⟨rfl, _⟩ := List.singleton_eq_append_iff.mp now |>.resolve_right (by simp)
    simpa using right

theorem Unmixed.append (unmixed : Unmixed es)
    (last : ∀ data, .handed data ∈ more → more = [.handed data] ∧
      ∀ p q, es = p ++ .fin true :: q → .opened ∈ q → .eofTaken ∈ q) : Unmixed (es ++ more) := by
  intro pre data post split
  rcases split_append split with ⟨c, before, _⟩ | ⟨c, rfl, now⟩
  · exact unmixed pre data c before
  · obtain ⟨alone, right⟩ := last data (by simp [now])
    rw [alone] at now
    obtain ⟨rfl, _⟩ := List.singleton_eq_append_iff.mp now |>.resolve_right (by simp)
    simpa using right

def Unreported (events : List Event) (t : Tcb) : Prop :=
  ∀ p q, events = p ++ .fin true :: q → .eofTaken ∉ q → t.eof ∧ .opened ∉ q

theorem Unreported.append {t u : Tcb} (unreported : Unreported es t)
    (kept : .eofTaken ∈ more ∨ (t.eof → u.eof)) (fresh : .opened ∈ more → ¬ t.eof)
    (marked : ∀ p q, more = p ++ .fin true :: q → u.eof ∧ .opened ∉ q) : Unreported (es ++ more) u := by
  intro p q split untold
  rcases split_append split with ⟨c, before, rfl⟩ | ⟨c, _, now⟩
  · obtain ⟨untoldBefore, untoldNow⟩ := not_or.mp (List.mem_append.not.mp untold)
    obtain ⟨eof, same⟩ := unreported p c before untoldBefore
    refine ⟨kept.resolve_left untoldNow eof, ?_⟩
    rw [List.mem_append, not_or]
    exact ⟨same, fun opened => fresh opened eof⟩
  · exact marked c q now

theorem unmarked {P : List Event → Prop} (none : .fin true ∉ more) :
    ∀ p q, more = p ++ .fin true :: q → P q := by
  intro p q split
  exact absurd (by simp [split]) none

structure EofInv (events : List Event) (t : Tcb) : Prop where
  tracks : Tracks events t
  marked : t.eof → 0 < (conn events).fins
  unreported : Unreported events t
  /-- A connection that is over had its FIN or was aborted. -/
  finished : ∀ k, 1 ≤ k → k < opens events ∨ k = opens events ∧ t.state = .listen →
    Ended k events ∨ Aborted k events
  handed : ∀ k data, (k, .handed data) ∈ numbered events → 1 ≤ k ∧ k ≤ opens events
  told : ToldRight events
  unmixed : Unmixed events

theorem EofInv.init : EofInv [] Tcb.init where
  tracks := .init
  marked marked := by simp [Tcb.init] at marked
  unreported := by simp [Unreported]
  finished k positive before := by simp [opens] at before; omega
  handed := by simp [numbered, numberedFrom]
  told := by simp [ToldRight]
  unmixed := by simp [Unmixed]

section
variable {cfg : Config} {t0 t u : Tcb} {op : Op}

theorem EofInv.quiet (inv : EofInv es t) (tracks : Tracks (es ++ more) u) (notOpened : .opened ∉ more)
    (notTold : .eofTaken ∉ more) (notHanded : ∀ data, .handed data ∉ more)
    (marked : u.eof → 0 < (conn (es ++ more)).fins) (kept : t.eof → u.eof)
    (now : ∀ p q, more = p ++ .fin true :: q → u.eof ∧ .opened ∉ q)
    (closes : u.state = .listen →
      t.state = .listen ∨ Ended (opens es) (es ++ more) ∨ Aborted (opens es) (es ++ more)) :
    EofInv (es ++ more) u where
  tracks := tracks
  marked := marked
  unreported := inv.unreported.append (.inr kept) (fun opened => absurd opened notOpened) now
  finished k positive before := by
    rw [opens_quiet notOpened] at before
    have earlier (past : k < opens es ∨ k = opens es ∧ t.state = .listen) :
        Ended k (es ++ more) ∨ Aborted k (es ++ more) :=
      (inv.finished k positive past).imp Ended.append Aborted.append
    -- Only the current connection can have ended just now.
    rcases before with past | ⟨rfl, listens⟩
    · exact earlier (.inl past)
    · rcases closes listens with already | ends
      · exact earlier (.inr ⟨rfl, already⟩)
      · exact ends
  handed k data member := by
    rw [opens_quiet notOpened]
    rw [numbered_append, numberedFrom_quiet notOpened, List.mem_append] at member
    rcases member with before | now
    · exact inv.handed k data before
    · obtain ⟨e, found, same⟩ := List.mem_map.mp now
      cases same
      exact absurd found (notHanded data)
  told := inv.told.append fun member => absurd member notTold
  unmixed := inv.unmixed.append fun data member => absurd member (notHanded data)

theorem EofInv.opened (inv : EofInv es t) (tracks : Tracks (es ++ [.opened]) u) (read : ¬ t.eof)
    (eof : u.eof = t.eof) (listens : t.state = .listen) (isOpen : u.state ≠ .listen) :
    EofInv (es ++ [.opened]) u where
  tracks := tracks
  marked marked := absurd (eof ▸ marked) read
  unreported := inv.unreported.append (.inr fun marked => absurd marked read) (fun _ => read)
    (unmarked (by simp))
  finished k positive before := by
    refine (inv.finished k positive ?_).imp Ended.append Aborted.append
    rw [opens_append] at before
    rcases before with past | ⟨_, stillListens⟩
    · have atMost : k ≤ opens es := Nat.le_of_lt_succ past
      exact (Nat.lt_or_eq_of_le atMost).imp_right fun same => ⟨same, listens⟩
    · exact absurd stillListens isOpen
  handed k data member := by
    rw [numbered_append, List.mem_append] at member
    rcases member with before | now
    · obtain ⟨positive, atMost⟩ := inv.handed k data before
      refine ⟨positive, ?_⟩
      rw [opens_append]
      omega
    · simp [numberedFrom] at now
  told := inv.told.append (by simp)
  unmixed := inv.unmixed.append (by simp)

theorem EofInv.handover (inv : EofInv es t) {data : List U8} (tracks : Tracks (es ++ [.handed data]) u)
    (isOpen : t.state ≠ .listen) (eof : u.eof = t.eof) (state : u.state = t.state) :
    EofInv (es ++ [.handed data]) u where
  tracks := tracks
  marked marked := by
    rw [conn_append]
    exact inv.marked (eof ▸ marked)
  unreported := inv.unreported.append (.inr fun marked => eof ▸ marked) (by simp) (unmarked (by simp))
  finished k positive before := by
    rw [opens_quiet (by simp), state] at before
    exact (inv.finished k positive before).imp Ended.append Aborted.append
  handed k data' member := by
    rw [opens_quiet (by simp)]
    rw [numbered_append, numberedFrom_quiet (by simp), List.mem_append] at member
    rcases member with before | now
    · exact inv.handed k data' before
    · simp at now
      have some : 0 < opens es := List.count_pos_iff.mpr (inv.tracks.opened isOpen)
      omega
  told := inv.told.append (by simp)
  unmixed := inv.unmixed.append fun data' member => by
    simp only [List.mem_singleton] at member
    refine ⟨by rw [member], ?_⟩
    intro p q split later
    -- An end-of-stream that is untold is of this connection, so no SYN came after it.
    by_contra untold
    exact (inv.unreported p q split untold).2 later

theorem EofInv.report (inv : EofInv es t) (tracks : Tracks (es ++ [.eofTaken]) u) (marked : t.eof)
    (taken : ¬ u.eof) (state : u.state = t.state) : EofInv (es ++ [.eofTaken]) u where
  tracks := tracks
  marked eof := absurd eof taken
  unreported := inv.unreported.append (.inl (by simp)) (by simp) (unmarked (by simp))
  finished k positive before := by
    rw [opens_quiet (by simp), state] at before
    exact (inv.finished k positive before).imp Ended.append Aborted.append
  handed k data member := by
    rw [opens_quiet (by simp)]
    rw [numbered_append, numberedFrom_quiet (by simp), List.mem_append] at member
    rcases member with before | now
    · exact inv.handed k data before
    · simp at now
  told := inv.told.append fun _ => by
    refine ⟨rfl, ?_⟩
    intro k data member unaborted
    obtain ⟨positive, atMost⟩ := inv.handed k data member
    -- the mark is of the current connection; an earlier one is over
    rcases Nat.lt_or_eq_of_le atMost with past | rfl
    · exact (inv.finished k positive (.inl past)).resolve_right unaborted
    · exact ended_of_fins (inv.marked marked)
  unmixed := inv.unmixed.append (by simp)

theorem EofInv.fin (inv : EofInv es t) {tail : List Event} {eof : Bool}
    (tracks : Tracks (es ++ .fin eof :: tail) u) (marks : u.eof = (t.eof || eof))
    (quiet : ∀ e ∈ tail, (∃ x, e = .sent x) ∨ e = .timeWait) : EofInv (es ++ .fin eof :: tail) u := by
  have notIn (e : Event) (sent : ¬ ∃ x, e = .sent x) (timeWait : e ≠ .timeWait) (fin : e ≠ .fin eof) :
      e ∉ .fin eof :: tail := by
    intro member
    rcases List.mem_cons.mp member with same | later
    · exact fin same
    · exact (quiet e later).elim sent timeWait
  have ended : Ended (opens es) (es ++ .fin eof :: tail) :=
    ⟨eof, mem_numbered_current (notIn _ (by simp) (by simp) (by simp)) (by simp)⟩
  have counted : 0 < (conn (es ++ .fin eof :: tail)).fins := by
    have kept (tail : List Event) (quiet : ∀ e ∈ tail, (∃ x, e = .sent x) ∨ e = .timeWait) (c : Conn) :
        tail.foldl Conn.after c = c := by
      induction tail with
      | nil => rfl
      | cons e tail ih =>
        have rest := ih fun x member => quiet x (List.mem_cons_of_mem _ member)
        rcases quiet e List.mem_cons_self with ⟨_, rfl⟩ | rfl <;> exact rest
    rw [conn_append, List.foldl_cons, kept tail quiet]
    exact Nat.succ_pos _
  refine inv.quiet tracks (notIn _ (by simp) (by simp) (by simp)) (notIn _ (by simp) (by simp) (by simp))
    (fun data => notIn _ (by simp) (by simp) (by simp)) (fun _ => counted) ?_ ?_ fun _ => .inr (.inl ended)
  · intro marked
    simp [marks, marked]
  · intro p q split
    cases p with
    | nil =>
      obtain ⟨same, rfl⟩ := List.cons.inj split
      cases same
      refine ⟨by simp [marks], ?_⟩
      intro opened
      exact (quiet _ opened).elim (by simp) (by simp)
    | cons e p =>
      obtain ⟨_, rfl⟩ := List.cons.inj split
      exact (quiet (.fin true) (by simp)).elim (by simp) (by simp)

theorem EofInv.same (inv : EofInv es t) (tracks : Tracks (es ++ more) u) (notOpened : .opened ∉ more)
    (notTold : .eofTaken ∉ more) (notHanded : ∀ data, .handed data ∉ more) (notFin : ∀ eof, .fin eof ∉ more)
    (fins : (conn (es ++ more)).fins = (conn es).fins) (eof : u.eof = t.eof)
    (closes : u.state = .listen →
      t.state = .listen ∨ Ended (opens es) (es ++ more) ∨ Aborted (opens es) (es ++ more)) :
    EofInv (es ++ more) u := by
  refine inv.quiet tracks notOpened notTold notHanded ?_ (fun marked => eof ▸ marked) (unmarked (notFin true))
    closes
  intro marked
  rw [fins]
  exact inv.marked (eof ▸ marked)

theorem EofInv.stage (read : EofRead t0 op) (inv : EofInv es t) (stage : Stage cfg t0 op t more u) :
    EofInv (es ++ more) u := by
  have tracks := inv.tracks.stage stage
  cases stage with
  | opened arrives notRst syn asks listens =>
    -- no mark of the connection before is left when the SYN is taken
    refine inv.opened tracks ?_ rfl listens (by simp [acceptSyn])
    intro eof
    exact read _ arrives ⟨listens, eof, notRst, syn, by simp [asks]⟩
  | finUnused _ _ _ unused =>
    refine inv.fin tracks ?_ (by simp)
    simp [closeUnused, sendUnacked, armRto, acceptFin, rxFin, unused]
  | finCloseWait _ _ _ used =>
    refine inv.fin tracks ?_ (by simp)
    have marked : (t.sawData || t.appSent) = true := by simpa using used
    simp [acceptFin, rxFin, Bool.or_assoc, marked]
  | finTimeWait => exact inv.fin tracks (Bool.or_assoc _ _ _) (by simp)
  | finStays => exact inv.fin tracks (Bool.or_assoc _ _ _) (by simp)
  | eofTaken _ marked => exact inv.report tracks marked (by simp) rfl
  | consumed =>
    cases pending : pendingBytes t0 with
    | none =>
      have none : (consume t0).2 = [] := by simp [consume, pending]
      rw [none] at tracks ⊢
      exact inv.same tracks (by simp) (by simp) (by simp) (by simp) (by simp) rfl .inl
    | some data =>
      have one : (consume t0).2 = [.handed data] := by simp [consume, pending]
      have isOpen : t0.state ≠ .listen := by
        intro listens
        rw [pendingBytes_eq_none.mpr (inv.tracks.inv.fresh (.inl listens)).1] at pending
        cases pending
      rw [one] at tracks ⊢
      exact inv.handover tracks isOpen rfl rfl
  | aborted =>
    exact inv.same tracks (by simp) (by simp) (by simp) (by simp) (by simp [conn_append, Conn.after]) rfl
      fun _ => .inr (.inr (.inl (mem_numbered_current (by simp) (by simp))))
  | rtoReset =>
    exact inv.same tracks (by simp) (by simp) (by simp) (by simp) (by simp [conn_append, Conn.after]) rfl
      fun _ => .inr (.inr (.inr (mem_numbered_current (by simp) (by simp))))
  | ackCloses _ reaches closes orderly =>
    have fin : t0.peerFin := by
      rcases closes.2 with ⟨_, fin⟩ | lastAck
      · exact fin
      · exact inv.tracks.inv.peerClosed (.inr lastAck)
    have ended := ended_of_fins ((inv.tracks.peerFin reaches.isOpen).mp fin)
    rcases orderly with rfl | rfl <;>
      exact inv.same tracks (by simp) (by simp) (by simp) (by simp) (by simp [conn_append, Conn.after]) rfl
        fun _ => .inr (.inl ended.append)
  | acked | resent | queued =>
    exact inv.same tracks (by simp) (by simp) (by simp) (by simp) (by simp [conn_append, Conn.after]) rfl .inl
  | finAcked =>
    exact inv.same tracks (by simp) (by simp) (by simp) (by simp) (by simp [conn_append, Conn.after]) rfl (by simp)
  | established =>
    exact inv.same tracks (by simp) (by simp) (by simp) (by simp) (by simp) rfl (by simp)
  | sent _ ready =>
    refine inv.same tracks (by simp) (by simp) (by simp) (by simp) (by simp [conn_append, Conn.after]) rfl ?_
    intro listens
    have idle := tracks.inv.quiet (.inl listens)
    simp [sendUnacked, armRto] at idle

theorem Stage.takes_eof (stage : Stage cfg t0 op t more u) (told : .eofTaken ∈ more) :
    op = .takeEof ∧ t0.eof ∧ ¬ t0.rxPending ∧ ¬ t0.inflight := by
  cases stage with
  | eofTaken takes marked read idle => exact ⟨takes, marked, read, idle⟩
  | ackCloses _ _ _ orderly => rcases orderly with rfl | rfl <;> simp at told
  | consumed =>
    unfold consume at told
    cases pending : pendingBytes t0 <;> simp [pending] at told
  | aborted | opened | acked | finAcked | established | queued | finUnused | finCloseWait | finTimeWait
  | finStays | sent | resent | rtoReset => simp at told

end

end

/-- `take_eof` returns `true` exactly where the event stands. -/
theorem Step.eof_iff {cfg : Config} {s t : Statics} {l : Label} (step : Step cfg s l t) :
    l.eof ↔ .eofTaken ∈ l.events := by
  -- Of all stages only that of `take_eof` leaves the event.
  have onlyTakeEof (told : .eofTaken ∈ l.events) :
      l.op = .takeEof ∧ s.tcb.eof ∧ ¬ s.tcb.rxPending ∧ ¬ s.tcb.inflight := by
    obtain ⟨parts, stages, same⟩ := step.stages
    rw [← same] at told
    refine @Run.history _ _ _ (fun parts _ => .eofTaken ∈ parts.flatten → l.op = .takeEof ∧ s.tcb.eof ∧
      ¬ s.tcb.rxPending ∧ ¬ s.tcb.inflight) ?_ _ _ _ stages (by simp) told
    intro parts t more u earlier stage told
    rw [List.flatten_append, List.mem_append] at told
    rcases told with before | now
    · exact earlier before
    · exact stage.takes_eof (by simpa using now)
  obtain ⟨op, out, eof, events⟩ := l
  cases op with
  | takeEof =>
    simp only [Step, exec, pure_eq_ok, Except.ok.injEq, Prod.mk.injEq, Label.mk.injEq] at step
    obtain ⟨_, _, _, rfl, rfl⟩ := step
    unfold takeEof
    split <;> simp
  | handle now payload src dst =>
    simp only [Step, exec, handle_eq, bind_ok, pure_eq_ok, Except.ok.injEq, Prod.mk.injEq,
      Label.mk.injEq] at step
    obtain ⟨_, _, _, rfl, _⟩ := step
    exact ⟨by simp, fun told => by cases (onlyTakeEof told).1⟩
  | appSend | consume | checkRto =>
    simp only [Step, exec, pure_eq_ok, Except.ok.injEq, Prod.mk.injEq, Label.mk.injEq] at step
    obtain ⟨_, _, _, rfl, _⟩ := step
    exact ⟨by simp, fun told => by cases (onlyTakeEof told).1⟩

/-- As long as no SYN is taken over an unreported end-of-stream: `take_eof`
speaks for every connection the app has read from that was not aborted, and the
app never reads past an unreported end-of-stream into the next connection. -/
theorem eof_of_right_connection {cfg : Config} {ls : List Label} {t : Statics}
    (run : Run (StepWhen cfg EofRead) Statics.init ls t) :
    ToldRight (eventsOf ls) ∧ Unmixed (eventsOf ls) ∧
      ∀ s l u, Step cfg s l u → (l.eof ↔ .eofTaken ∈ l.events) := by
  have inv : EofInv ([] ++ eventsOf ls) t.tcb :=
    stage_history (fun _ _ _ _ _ _ read inv stage => inv.stage read stage) run [] .init
  exact ⟨inv.told, inv.unmixed, fun _ _ _ step => step.eof_iff⟩

def wholeOps : List Op :=
  requestOps ++ [.consume, .appSend 0 [79, 75] true, .handle 0 (peerSeg 103 4 Flag.ack []) gwIp ourIp,
    .handle 0 (peerSeg 103 4 (Flag.fin ||| Flag.ack) []) gwIp ourIp]

theorem eof_of_right_connection_told :
    .eofTaken ∈ eventsOf (runOps .default .init (wholeOps ++ [.takeEof])).2 ∧
      ToldRight (eventsOf (runOps .default .init (wholeOps ++ [.takeEof])).2) :=
  ⟨by decide +kernel, (eof_of_right_connection
    (@runOps_when .default EofRead _ .init (wholeOps ++ [.takeEof]) (by decide +kernel))).1⟩

/-- The next client connects and sends before the app calls `recv` again. -/
def leakOps : List Op :=
  wholeOps ++ [.handle 9 (peerSeg 500 0 Flag.syn []) gwIp ourIp, .handle 9 (peerSeg 501 10 Flag.ack []) gwIp ourIp,
    .handle 9 (peerSeg 501 10 (Flag.psh ||| Flag.ack) [80]) gwIp ourIp, .consume, .takeEof]

def leakStart : List Event :=
  [.opened, .queued [71, 69], .handed [71, 69], .sent ⟨0, gwIp, 40000, 1, 0x19, [79, 75]⟩, .acked]

theorem leakOps_events : eventsOf (runOps .default .init leakOps).2 =
    leakStart ++ [.fin true, .timeWait, .opened, .queued [80], .handed [80], .eofTaken] := by
  decide +kernel

/-- Connection 2 was read from and not aborted, its peer has sent no FIN, and the
app is told end-of-stream. Its payload was handed over before that of connection
1 was reported. -/
theorem eof_leaks_into_next_connection :
    ¬ ToldRight (eventsOf (runOps .default .init leakOps).2) ∧
      ¬ Unmixed (eventsOf (runOps .default .init leakOps).2) := by
  rw [leakOps_events]
  constructor
  · intro told
    obtain ⟨eof, member⟩ := told (leakStart ++ [.fin true, .timeWait, .opened, .queued [80], .handed [80]]) []
      rfl 2 [80] (by decide) (by simp [Aborted, leakStart, numbered, numberedFrom])
    simp [leakStart, numbered, numberedFrom] at member
  · intro unmixed
    have reported := unmixed (leakStart ++ [.fin true, .timeWait, .opened, .queued [80]]) [80] [.eofTaken] rfl
      leakStart [.timeWait, .opened, .queued [80]] rfl (by simp)
    simp at reported

end Whimbrel.Tcp

import Whimbrel.Tcp.Delivery

/-! Segments of another peer.

While a connection is open, a segment from any other address or port moves drop
counters only. Deleting such segments from a run therefore changes nothing that
the TCB, the wire or the app can show. -/

set_option autoImplicit false

namespace Whimbrel.Tcp

/-- A connection is open, and the bytes come from someone else. The source port
is the first word of the segment. -/
def Foreign (t : Tcb) : Op → Prop
  | .handle _ payload src _ => t.state ≠ .listen ∧ ¬ sameTuple t src (word16 payload 0)
  | _ => False

instance (t : Tcb) (op : Op) : Decidable (Foreign t op) :=
  match op with
  | .handle .. => inferInstanceAs (Decidable (_ ∧ _))
  | .appSend .. => inferInstanceAs (Decidable False)
  | .consume => inferInstanceAs (Decidable False)
  | .takeEof => inferInstanceAs (Decidable False)
  | .checkRto .. => inferInstanceAs (Decidable False)

def SameButDrops (s t : Statics) : Prop := ∃ drops, t = { s with drops }

section
variable {cfg : Config} {now : Usize} {s t u : Statics} {src : Ip} {g : Segment}

theorem SameButDrops.refl (s : Statics) : SameButDrops s s := ⟨s.drops, rfl⟩

theorem SameButDrops.trans (first : SameButDrops s t) (second : SameButDrops t u) : SameButDrops s u := by
  obtain ⟨drops, rfl⟩ := first
  obtain ⟨drops', rfl⟩ := second
  exact ⟨drops', rfl⟩

theorem SameButDrops.symm (same : SameButDrops s t) : SameButDrops t s := by
  obtain ⟨drops, rfl⟩ := same
  exact ⟨s.drops, rfl⟩

theorem SameButDrops.tcb (same : SameButDrops s t) : s.tcb = t.tcb := by
  obtain ⟨drops, rfl⟩ := same
  rfl

theorem reject_same (s : Statics) (r : Reject) : SameButDrops s (s.reject r) := by
  cases r <;> exact ⟨_, rfl⟩

/-- Every arm of `handle` looks at the tuple before it touches the TCB. -/
theorem deliver_foreign (isOpen : s.tcb.state ≠ .listen) (other : ¬ sameTuple s.tcb src g.sport) (mss : Option U16) :
    ∃ t, deliver cfg now s src g mss = (t, .none, []) ∧ SameButDrops s t := by
  unfold deliver
  split
  · rw [onRst, if_neg (fun same => other same.2)]
    exact ⟨s, rfl, .refl s⟩
  split
  · cases mss with
    | none => exact ⟨_, rfl, _, rfl⟩
    | some mss =>
      unfold onSyn
      dsimp only
      split
      · contradiction
      · rw [if_neg (fun same => other same.1)]
        exact ⟨_, rfl, _, rfl⟩
      · exact ⟨_, rfl, _, rfl⟩
  · rw [onOther, if_neg isOpen, if_pos other]
    exact ⟨_, rfl, _, rfl⟩

theorem decode_segmentOf {payload : List U8} {dst : Ip} (passed : decode payload src dst = .ok g) :
    g = segmentOf payload := by
  unfold decode at passed
  repeat' split at passed
  all_goals cases passed
  rfl

theorem handle_foreign {payload : List U8} (isOpen : s.tcb.state ≠ .listen)
    (other : ¬ sameTuple s.tcb src (word16 payload 0)) (dst : Ip) :
    ∃ t, handle cfg now s payload src dst = .ok (t, .none, []) ∧ SameButDrops s t := by
  rw [handle_eq]
  cases passed : decode payload src dst with
  | error r => exact ⟨_, rfl, reject_same s r⟩
  | ok g =>
    have port : g.sport = word16 payload 0 := by rw [decode_segmentOf passed]; rfl
    obtain ⟨t, result, same⟩ := @deliver_foreign cfg now s src g isOpen (port ▸ other) (mssOf payload)
    exact ⟨t, congrArg Except.ok result, same⟩

/-! ## Nothing reads the drop counters -/

def Agree (r r' : Statics × Out × List Event) : Prop := ∃ drops, r' = ({ r.1 with drops }, r.2)

theorem onRst_agree (same : SameButDrops s t) : Agree (onRst s src g) (onRst t src g) := by
  obtain ⟨drops, rfl⟩ := same
  unfold onRst
  dsimp only
  split <;> exact ⟨drops, rfl⟩

theorem onSyn_agree (same : SameButDrops s t) (mss : U16) : Agree (onSyn now s src g mss) (onSyn now t src g mss) := by
  obtain ⟨drops, rfl⟩ := same
  unfold onSyn
  dsimp only
  split
  · exact ⟨drops, rfl⟩
  · split
    · exact ⟨drops, rfl⟩
    · exact ⟨_, rfl⟩
  · exact ⟨_, rfl⟩

theorem onFin_agree (same : SameButDrops s t) (needAck : Bool) :
    Agree (onFin cfg now s src g needAck) (onFin cfg now t src g needAck) := by
  obtain ⟨drops, rfl⟩ := same
  unfold onFin
  dsimp only
  repeat' split
  all_goals exact ⟨drops, rfl⟩

theorem queueRx_agree (same : SameButDrops s t) (data : List U8) :
    SameButDrops (queueRx s data).1 (queueRx t data).1 ∧ (queueRx s data).2 = (queueRx t data).2 := by
  obtain ⟨drops, rfl⟩ := same
  unfold queueRx
  dsimp only
  repeat' split
  all_goals exact ⟨⟨_, rfl⟩, rfl⟩

theorem onSynRcvd_agree (same : SameButDrops s t) : Option.Rel SameButDrops (onSynRcvd s g) (onSynRcvd t g) := by
  obtain ⟨drops, rfl⟩ := same
  unfold onSynRcvd
  dsimp only
  split
  · split
    · exact .some ⟨drops, rfl⟩
    · exact .none
  · exact .some ⟨drops, rfl⟩

theorem onData_agree (same : SameButDrops s t) :
    Option.Rel (fun r r' => SameButDrops r.1 r'.1 ∧ r.2 = r'.2) (onData s g) (onData t g) := by
  have queued := queueRx_agree same g.data
  unfold onData
  rw [← same.tcb]
  split
  · exact .some ⟨same, rfl⟩
  split
  · exact .none
  · obtain ⟨⟨drops, after⟩, took⟩ := queued
    cases first : queueRx s g.data with | mk v took₁ =>
    cases second : queueRx t g.data with | mk w took₂ =>
    rw [first, second] at after took
    subst after took
    cases took₁
    · exact .some ⟨⟨drops, rfl⟩, rfl⟩
    · exact .some ⟨⟨drops, rfl⟩, rfl⟩

theorem onOpen_agree (same : SameButDrops s t) : Agree (onOpen cfg now s src g) (onOpen cfg now t src g) := by
  obtain ⟨drops, rfl⟩ := same
  unfold onOpen
  -- the ACK part is a function of the TCB alone
  generalize (if g.isAck then onTheirAck cfg s.tcb g.ack else (s.tcb, [])) = r
  obtain ⟨tcb, acked⟩ := r
  dsimp only
  have shaken : Option.Rel SameButDrops (onSynRcvd { s with tcb } g) (onSynRcvd { s with tcb, drops } g) :=
    onSynRcvd_agree ⟨drops, rfl⟩
  split
  · exact ⟨drops, rfl⟩
  generalize onSynRcvd { s with tcb } g = left at shaken
  generalize onSynRcvd { s with tcb, drops } g = right at shaken
  cases shaken with
  | none => exact ⟨_, rfl⟩
  | @some v w same =>
    have offered := @onData_agree v w g same
    dsimp only
    generalize onData v g = left at offered
    generalize onData w g = right at offered
    cases offered with
    | none =>
      obtain ⟨drops', rfl⟩ := same
      exact ⟨drops', rfl⟩
    | @some r r' agree =>
      obtain ⟨v', needAck, queued⟩ := r
      obtain ⟨w', needAck', queued'⟩ := r'
      obtain ⟨same', rest⟩ := agree
      cases rest
      have closed := @onFin_agree cfg now v' w' src g same' needAck
      obtain ⟨drops', closed⟩ := closed
      dsimp only
      rw [closed]
      exact ⟨drops', rfl⟩

theorem onOther_agree (same : SameButDrops s t) : Agree (onOther cfg now s src g) (onOther cfg now t src g) := by
  have opened := @onOpen_agree cfg now s t src g same
  obtain ⟨drops, rfl⟩ := same
  unfold onOther
  dsimp only
  split
  · exact ⟨_, rfl⟩
  split
  · exact ⟨_, rfl⟩
  · exact opened

theorem deliver_agree (same : SameButDrops s t) (mss : Option U16) :
    Agree (deliver cfg now s src g mss) (deliver cfg now t src g mss) := by
  unfold deliver
  split
  · exact onRst_agree same
  split
  · cases mss with
    | none =>
      obtain ⟨drops, rfl⟩ := same
      exact ⟨_, rfl⟩
    | some mss => exact onSyn_agree same mss
  · exact onOther_agree same

theorem exec_agree (same : SameButDrops s t) (op : Op) :
    ∃ u v l, exec cfg s op = .ok (u, l) ∧ exec cfg t op = .ok (v, l) ∧ SameButDrops u v := by
  cases op with
  | handle now payload src dst =>
    simp only [exec, handle_eq, bind_ok]
    cases decode payload src dst with
    | error r =>
      obtain ⟨drops, rfl⟩ := same
      cases r <;> exact ⟨_, _, _, rfl, rfl, _, rfl⟩
    | ok g =>
      obtain ⟨drops, result⟩ := @deliver_agree cfg now s t src g same (mssOf payload)
      refine ⟨_, _, _, rfl, ?_, drops, rfl⟩
      dsimp only
      rw [result]
      rfl
  | appSend | consume | takeEof | checkRto =>
    obtain ⟨drops, rfl⟩ := same
    exact ⟨_, _, _, rfl, rfl, drops, rfl⟩

/-- The operations without the foreign segments; which ones are foreign depends
on the state they arrive in. -/
def withoutForeign (cfg : Config) (s : Statics) : List Op → List Op
  | [] => []
  | op :: ops =>
    let rest := withoutForeign cfg (runOps cfg s [op]).1 ops
    if Foreign s.tcb op then rest else op :: rest

def emitted (ls : List Label) : List Out := (ls.map Label.out).filter (· ≠ .none)

def eofAnswers (ls : List Label) : List Bool := (ls.filter (·.op = .takeEof)).map Label.eof

structure SameView (ls ms : List Label) : Prop where
  emitted : emitted ls = emitted ms
  events : eventsOf ls = eventsOf ms
  eofs : eofAnswers ls = eofAnswers ms

theorem SameView.cons {ls ms : List Label} (l : Label) (same : SameView ls ms) : SameView (l :: ls) (l :: ms) where
  emitted := by
    have rest := same.emitted
    unfold Tcp.emitted at rest ⊢
    simp only [List.map_cons, List.filter_cons, rest]
  events := by
    have rest := same.events
    unfold eventsOf at rest ⊢
    simp only [List.flatMap_cons, rest]
  eofs := by
    have rest := same.eofs
    unfold eofAnswers at rest ⊢
    simp only [List.filter_cons]
    split
    · simp only [List.map_cons, rest]
    · exact rest

theorem SameView.silent {ls ms : List Label} {op : Op} (other : op ≠ .takeEof) (same : SameView ls ms) :
    SameView (⟨op, .none, false, []⟩ :: ls) ms where
  emitted := by simpa [Tcp.emitted] using same.emitted
  events := by simpa [eventsOf] using same.events
  eofs := by simpa [eofAnswers, other] using same.eofs

theorem exec_foreign {op : Op} (foreign : Foreign s.tcb op) :
    ∃ t, exec cfg s op = .ok (t, ⟨op, .none, false, []⟩) ∧ SameButDrops s t ∧ op ≠ .takeEof := by
  cases op with
  | handle now payload src dst =>
    obtain ⟨t, done, same⟩ := @handle_foreign cfg now s src payload foreign.1 foreign.2 dst
    exact ⟨t, by rw [exec, done]; rfl, same, by simp⟩
  | appSend | consume | takeEof | checkRto => cases foreign

theorem runOps_cons {op : Op} {ops : List Op} {l : Label} (done : exec cfg s op = .ok (t, l)) :
    runOps cfg s (op :: ops) = ((runOps cfg t ops).1, l :: (runOps cfg t ops).2) ∧ (runOps cfg s [op]).1 = t := by
  obtain ⟨u, ls, rest⟩ := execAll_total cfg t ops
  simp [runOps, execAll, done, rest]

/-- A run and the run without the foreign segments, from states that differ in
the drop counters. -/
theorem withoutForeign_agrees (ops : List Op) (same : SameButDrops s t) :
    SameButDrops (runOps cfg s ops).1 (runOps cfg t (withoutForeign cfg s ops)).1 ∧
      SameView (runOps cfg s ops).2 (runOps cfg t (withoutForeign cfg s ops)).2 := by
  induction ops generalizing s t with
  | nil => exact ⟨same, ⟨rfl, rfl, rfl⟩⟩
  | cons op ops ih =>
    unfold withoutForeign
    by_cases foreign : Foreign s.tcb op
    · obtain ⟨u, done, quiet, other⟩ := @exec_foreign cfg s op foreign
      obtain ⟨run, next⟩ := @runOps_cons cfg s u op ops _ done
      rw [run, next]
      dsimp only
      rw [if_pos foreign]
      obtain ⟨states, view⟩ := ih (quiet.symm.trans same)
      exact ⟨states, view.silent other⟩
    · obtain ⟨u, v, l, done, done', after⟩ := @exec_agree cfg s t same op
      obtain ⟨run, next⟩ := @runOps_cons cfg s u op ops _ done
      rw [run, next]
      dsimp only
      rw [if_neg foreign, (runOps_cons done').1]
      obtain ⟨states, view⟩ := ih after
      exact ⟨states, view.cons l⟩

/-- While a connection is open, bytes from any other address or port move drop
counters only. So the run without them has the same TCB after every step (the
statement holds for every list of operations, hence for every first part of a
run), the same segments on the wire, and the same payloads and end-of-stream
answers for the app. -/
theorem foreign_segments_invisible (cfg : Config) (s : Statics) :
    (∀ now payload src dst, s.tcb.state ≠ .listen → ¬ sameTuple s.tcb src (word16 payload 0) →
      ∃ drops, handle cfg now s payload src dst = .ok ({ s with drops }, .none, [])) ∧
    ∀ ops, (runOps cfg s (withoutForeign cfg s ops)).1.tcb = (runOps cfg s ops).1.tcb ∧
      emitted (runOps cfg s (withoutForeign cfg s ops)).2 = emitted (runOps cfg s ops).2 ∧
      eventsOf (runOps cfg s (withoutForeign cfg s ops)).2 = eventsOf (runOps cfg s ops).2 ∧
      eofAnswers (runOps cfg s (withoutForeign cfg s ops)).2 = eofAnswers (runOps cfg s ops).2 := by
  constructor
  · intro now payload src dst isOpen other
    obtain ⟨t, done, drops, rfl⟩ := @handle_foreign cfg now s src payload isOpen other dst
    exact ⟨drops, done⟩
  · intro ops
    obtain ⟨states, view⟩ := @withoutForeign_agrees cfg s s ops (.refl s)
    exact ⟨states.tcb.symm, view.emitted.symm, view.events.symm, view.eofs.symm⟩

end

def strangerIp : Ip := ⟨10, 0, 2, 3⟩

def strangerRst : List U8 :=
  match writeSeg (List.replicate hdrMin 0) 40000 listenPort 103 1 Flag.rst [] strangerIp ourIp with
  | .ok (bytes, _) => bytes
  | .error _ => []

theorem foreign_segments_invisible_rst :
    (decode strangerRst strangerIp ourIp).toOption.map Segment.isRst = some true ∧
    ∃ drops, handle .default 0 (runOps .default .init requestOps).1 strangerRst strangerIp ourIp =
      .ok ({ (runOps .default .init requestOps).1 with drops }, .none, []) := by
  have isOpen : (runOps .default .init requestOps).1.tcb.state ≠ .listen := by decide +kernel
  have other : ¬ sameTuple (runOps .default .init requestOps).1.tcb strangerIp (word16 strangerRst 0) := by
    decide +kernel
  exact ⟨by decide +kernel, (foreign_segments_invisible .default _).1 0 strangerRst strangerIp ourIp isOpen other⟩

end Whimbrel.Tcp

import Whimbrel.Tcp.Stage

/-! What becomes of a segment that passed the checks of `handle`.

`deliver` counts it, acts on it, takes it as an acknowledgement, or leaves no trace of
it. `Ignored` says which segments are of the last kind, from the TCB before them. -/

set_option autoImplicit false

namespace Whimbrel.Tcp

inductive Drop where
  | short
  | doff
  | csum
  | opt
  | port
  | noarp
  | busy
  | unexpected
  deriving DecidableEq, Repr

def Drops.count (drops : Drops) : Counters Drop
  | .short => drops.short
  | .doff => drops.doff
  | .csum => drops.csum
  | .opt => drops.opt
  | .port => drops.port
  | .noarp => drops.noarp
  | .busy => drops.busy
  | .unexpected => drops.unexpected

def Reject.drop : Reject → Drop
  | .short => .short
  | .doff => .doff
  | .csum => .csum
  | .port => .port

theorem Statics.reject_count (s : Statics) (r : Reject) : (s.reject r).drops.count = s.drops.count.bump r.drop := by
  funext d
  cases r <;> cases d <;> rfl

theorem Drops.count_noarp (drops : Drops) :
    { drops with noarp := drops.noarp + 1 }.count = drops.count.bump .noarp := by
  funext d
  cases d <;> rfl

theorem Drops.count_opt (drops : Drops) : { drops with opt := drops.opt + 1 }.count = drops.count.bump .opt := by
  funext d
  cases d <;> rfl

theorem Drops.count_busy (drops : Drops) : { drops with busy := drops.busy + 1 }.count = drops.count.bump .busy := by
  funext d
  cases d <;> rfl

theorem Statics.dropUnexpected_count (s : Statics) : s.dropUnexpected.drops.count = s.drops.count.bump .unexpected := by
  funext d
  cases d <;> rfl

def PureAck (t : Tcb) (src : Ip) (g : Segment) : Prop :=
  t.state ≠ .listen ∧ sameTuple t src g.sport ∧ g.isAck ∧ ¬ g.isSyn ∧ ¬ g.isFin ∧ ¬ g.isRst ∧ g.data = []

/-- A RST of no open connection; and, once the handshake is over, a segment of the
connection with no payload and no news in its ACK that is no bare ACK either: it has no
ACK, or a SYN with it, or a FIN while the ACKs are held. -/
def Ignored (cfg : Config) (t : Tcb) (src : Ip) (g : Segment) : Prop :=
  if g.isRst then ¬ (t.state ≠ .listen ∧ sameTuple t src g.sport)
  else ¬ (g.isSyn ∧ ¬ g.isAck) ∧ t.state ≠ .listen ∧ sameTuple t src g.sport ∧ t.state ≠ .synRcvd ∧
    ¬ acks cfg t g ∧ g.data = [] ∧ if g.isFin then holdAcks cfg t = true else ¬ g.isAck ∨ g.isSyn

instance (cfg : Config) (t : Tcb) (src : Ip) (g : Segment) : Decidable (Ignored cfg t src g) :=
  if rst : g.isRst then
    decidable_of_iff (¬ (t.state ≠ .listen ∧ sameTuple t src g.sport)) (by rw [Ignored, if_pos rst])
  else
    decidable_of_iff (¬ (g.isSyn ∧ ¬ g.isAck) ∧ t.state ≠ .listen ∧ sameTuple t src g.sport ∧ t.state ≠ .synRcvd ∧
      ¬ acks cfg t g ∧ g.data = [] ∧ if g.isFin then holdAcks cfg t = true else ¬ g.isAck ∨ g.isSyn)
      (by rw [Ignored, if_neg rst])

/-- The segment was counted once, or not counted and not ignored. -/
inductive Handled (s : Statics) (src : Ip) (g : Segment) (r : Statics × Out × List Event) : Prop where
  | counted (d : Drop) (once : r.1.drops.count = s.drops.count.bump d)
  | moved (same : r.1.drops = s.drops) (tcb : r.1.tcb ≠ s.tcb)
  | answered (same : r.1.drops = s.drops) (out : r.2.1 ≠ .none)
  | acknowledged (same : r.1.drops = s.drops) (pure : PureAck s.tcb src g)

section
variable {cfg : Config} {now : Usize} {s s' : Statics} {src : Ip} {g : Segment} {op : Op} {a : Arrival}

/-! ## The parts of `handle` -/

theorem onRst_handled (rst : g.isRst) (seen : ¬ Ignored cfg s.tcb src g) : Handled s src g (onRst s src g) := by
  have ours : s.tcb.state ≠ .listen ∧ sameTuple s.tcb src g.sport := by
    rw [Ignored, if_pos rst] at seen
    exact not_not.mp seen
  rw [onRst, if_pos ours]
  refine .moved rfl fun same => ours.1 ?_
  rw [← same]
  rfl

theorem onSyn_handled (mss : U16) : Handled s src g (onSyn now s src g mss) := by
  dsimp only [onSyn]
  cases state : s.tcb.state with
  | listen => exact .answered rfl nofun
  | synRcvd =>
    dsimp only
    split
    · exact .answered rfl nofun
    · exact .counted .busy (Drops.count_busy _)
  | established | finWait1 | finWait2 | closeWait | lastAck => exact .counted .busy (Drops.count_busy _)

theorem ackPart_inflight {t : Tcb} (acked : acks cfg t g) : t.inflight ∧ (ackPart cfg t g).1.inflight = false := by
  obtain ⟨isAck, matching⟩ := acked
  constructor
  · simp only [ackMatches, Bool.and_eq_true] at matching
    exact matching.1.1
  · rw [ackPart, if_pos isAck, onTheirAck, if_pos matching]
    dsimp only
    split
    · split <;> rfl
    · rfl
    · rfl

inductive Offered (s : Statics) (g : Segment) : Statics → Bool → Prop where
  | nothing : g.data = [] → Offered s g s false
  | taken {s' : Statics} : s'.drops = s.drops → s.tcb.rxPending = false → s'.tcb.rxPending = true → Offered s g s' true
  | refused : Offered s g s.dropUnexpected false

theorem onData_offered {needAck : Bool} {events : List Event} (offered : onData s g = some (s', needAck, events)) :
    Offered s g s' needAck := by
  unfold onData at offered
  by_cases empty : g.data = []
  · rw [if_pos empty] at offered
    cases offered
    exact .nothing empty
  rw [if_neg empty] at offered
  split at offered
  · cases offered
  rw [queueRx, if_neg empty] at offered
  by_cases unread : s.tcb.rxPending
  · rw [if_pos unread] at offered
    cases offered
    exact .refused
  rw [if_neg unread] at offered
  by_cases fits : g.data.length ≤ payloadMax
  · rw [dif_pos fits] at offered
    cases offered
    exact .taken rfl (Bool.eq_false_iff.mpr unread) rfl
  · rw [dif_neg fits] at offered
    cases offered
    exact .refused

theorem onFin_cases (needAck : Bool) : (onFin cfg now s src g needAck).1.drops = s.drops ∧
    ((onFin cfg now s src g needAck).2.1 ≠ .none ∨
      (onFin cfg now s src g needAck).1 = s ∧ (g.isFin ∧ holdAcks cfg s.tcb ∨ ¬ g.isFin ∧ needAck = false)) := by
  unfold onFin
  by_cases fin : g.isFin
  swap
  · rw [if_neg fin]
    cases needAck with
    | false => exact ⟨rfl, .inr ⟨rfl, .inr ⟨fin, rfl⟩⟩⟩
    | true => exact ⟨rfl, .inl nofun⟩
  rw [if_pos fin]
  by_cases held : holdAcks cfg s.tcb
  · rw [if_pos held]
    exact ⟨rfl, .inr ⟨rfl, .inl ⟨fin, held⟩⟩⟩
  rw [if_neg held]
  split
  · exact ⟨rfl, .inl nofun⟩
  dsimp only
  split
  · split <;> exact ⟨rfl, .inl nofun⟩
  · exact ⟨rfl, .inl nofun⟩
  · exact ⟨rfl, .inl nofun⟩

/-- After the ACK and the handshake. A TCB that is still the same had neither. -/
structure Shaken (cfg : Config) (s : Statics) (g : Segment) (s1 : Statics) : Prop where
  drops : s1.drops = s.drops
  rxPending : s1.tcb.rxPending = s.tcb.rxPending
  still : s1.tcb = s.tcb → ¬ acks cfg s.tcb g ∧ s.tcb.state ≠ .synRcvd

theorem onSynRcvd_shaken {s1 : Statics} (after : AfterAck cfg s.tcb a (ackPart cfg s.tcb a.seg).1)
    (passed : onSynRcvd { s with tcb := (ackPart cfg s.tcb a.seg).1 } a.seg = some s1) : Shaken cfg s a.seg s1 := by
  have quiet : s1.tcb.inflight = (ackPart cfg s.tcb a.seg).1.inflight → s1.tcb = s.tcb → ¬ acks cfg s.tcb a.seg := by
    intro kept same acked
    obtain ⟨flying, landed⟩ := ackPart_inflight acked
    rw [same, flying, landed] at kept
    cases kept
  unfold onSynRcvd at passed
  split at passed
  · rename_i waiting
    split at passed
    · cases passed
      refine ⟨rfl, after.rxPending, fun same => ⟨quiet rfl same, fun early => ?_⟩⟩
      have shaken := congrArg Tcb.state same
      rw [early] at shaken
      cases shaken
    · cases passed
  · rename_i past
    cases passed
    exact ⟨rfl, after.rxPending, fun same => ⟨quiet rfl same, fun early => past (after.synRcvd.mpr early)⟩⟩

/-- A segment that changed nothing and got no answer is a bare ACK or ignored. -/
theorem Reaches.pureAck (reaches : Reaches s.tcb a) (seen : ¬ Ignored cfg s.tcb a.src a.seg) (empty : a.seg.data = [])
    (still : ¬ acks cfg s.tcb a.seg ∧ s.tcb.state ≠ .synRcvd) (fin : a.seg.isFin → holdAcks cfg s.tcb) :
    PureAck s.tcb a.src a.seg := by
  obtain ⟨notRst, notSyn, isOpen, tuple⟩ := reaches
  rw [Ignored, if_neg notRst] at seen
  by_cases isFin : a.seg.isFin
  · refine absurd ⟨notSyn, isOpen, tuple, still.2, still.1, empty, ?_⟩ seen
    rw [if_pos isFin]
    exact fin isFin
  · have bare : ¬ (¬ a.seg.isAck ∨ a.seg.isSyn) := by
      intro other
      refine seen ⟨notSyn, isOpen, tuple, still.2, still.1, empty, ?_⟩
      rw [if_neg isFin]
      exact other
    rw [not_or, not_not] at bare
    exact ⟨isOpen, tuple, bare.1, bare.2, isFin, notRst, empty⟩

theorem onOpen_handled (arrives : op.arrival = some a) (reaches : Reaches s.tcb a)
    (seen : ¬ Ignored cfg s.tcb a.src a.seg) : Handled s a.src a.seg (onOpen cfg a.now s a.src a.seg) := by
  obtain ⟨-, outcome⟩ := @ackPart_stages cfg s.tcb op a arrives reaches
  have shaken (s1 : Statics) (after : AfterAck cfg s.tcb a (ackPart cfg s.tcb a.seg).1) := @onSynRcvd_shaken cfg s a s1 after
  -- ACK, handshake, payload and FIN, each on what the part before has left
  unfold onOpen
  simp only [show (if a.seg.isAck = true then onTheirAck cfg s.tcb a.seg.ack else (s.tcb, [])) =
    ackPart cfg s.tcb a.seg from rfl]
  generalize ackPart cfg s.tcb a.seg = ackResult at outcome shaken
  obtain ⟨t, ackEvents⟩ := ackResult
  dsimp only at outcome shaken ⊢
  rcases outcome with ⟨closed, isAck, _⟩ | after
  · rw [if_pos ⟨isAck, closed⟩]
    exact .moved rfl fun same => reaches.isOpen (same ▸ closed)
  rw [if_neg (fun h => after.isOpen h.2)]
  cases passed : onSynRcvd { s with tcb := t } a.seg with
  | none => exact .counted .unexpected (Statics.dropUnexpected_count _)
  | some s1 =>
    have shaken := shaken s1 after passed
    cases offered : onData s1 a.seg with
    | none =>
      simp only [offered]
      exact .answered shaken.drops nofun
    | some taken =>
      obtain ⟨s2, needAck, queued⟩ := taken
      simp only [offered]
      obtain ⟨uncounted, outcome⟩ := @onFin_cases cfg a.now s2 a.src a.seg needAck
      cases onData_offered offered with
      | nothing empty =>
        rcases outcome with answer | ⟨same, fin⟩
        · exact .answered (uncounted.trans shaken.drops) answer
        by_cases still : s1.tcb = s.tcb
        · refine .acknowledged (uncounted.trans shaken.drops) (reaches.pureAck seen empty (shaken.still still) ?_)
          intro isFin
          rw [← still]
          exact fin.elim And.right fun none => absurd isFin none.1
        · exact .moved (uncounted.trans shaken.drops) (by rwa [same])
      | taken drops free full =>
        have drops := uncounted.trans (drops.trans shaken.drops)
        rcases outcome with answer | ⟨same, -⟩
        · exact .answered drops answer
        · refine .moved drops fun still => ?_
          rw [same] at still
          rw [still, ← shaken.rxPending, free] at full
          cases full
      | refused =>
        refine .counted .unexpected ?_
        rw [uncounted, Statics.dropUnexpected_count, shaken.drops]

theorem deliver_handled (arrives : op.arrival = some a) (seen : ¬ Ignored cfg s.tcb a.src a.seg) :
    Handled s a.src a.seg (deliver cfg a.now s a.src a.seg a.mss) := by
  unfold deliver
  by_cases rst : a.seg.isRst
  · rw [if_pos rst]
    exact onRst_handled rst seen
  rw [if_neg rst]
  by_cases syn : a.seg.isSyn ∧ ¬ a.seg.isAck
  · rw [if_pos syn]
    cases a.mss with
    | none => exact .counted .opt (Drops.count_opt _)
    | some mss => exact onSyn_handled mss
  rw [if_neg syn, onOther]
  split
  · exact .counted .unexpected (Statics.dropUnexpected_count _)
  rename_i isOpen
  by_cases tuple : sameTuple s.tcb a.src a.seg.sport
  · rw [if_neg (not_not_intro tuple)]
    exact onOpen_handled arrives ⟨rst, syn, isOpen, tuple⟩ seen
  · rw [if_pos tuple]
    exact .counted .busy (Drops.count_busy _)

theorem deliver_ignored (ignored : Ignored cfg s.tcb a.src a.seg) :
    deliver cfg a.now s a.src a.seg a.mss = (s, .none, []) := by
  unfold deliver
  by_cases rst : a.seg.isRst
  · rw [Ignored, if_pos rst] at ignored
    rw [if_pos rst, onRst, if_neg ignored]
  rw [Ignored, if_neg rst] at ignored
  obtain ⟨notSyn, isOpen, tuple, synced, quiet, empty, fin⟩ := ignored
  rw [if_neg rst, if_neg notSyn, onOther, if_neg isOpen, if_neg (not_not_intro tuple), onOpen]
  simp only [show (if a.seg.isAck = true then onTheirAck cfg s.tcb a.seg.ack else (s.tcb, [])) =
    ackPart cfg s.tcb a.seg from rfl, ackPart_quiet quiet, onSynRcvd, if_neg synced, onData, if_pos empty, onFin]
  rw [if_neg fun both => isOpen both.2]
  by_cases isFin : a.seg.isFin
  · rw [if_pos isFin] at fin
    simp only [if_pos isFin, if_pos fin, List.append_nil]
  · simp only [if_neg isFin, Bool.false_eq_true, if_false, List.append_nil]

theorem Ignored.not_pureAck (ignored : Ignored cfg s.tcb src g) : ¬ PureAck s.tcb src g := by
  rintro ⟨-, -, isAck, notSyn, notFin, notRst, -⟩
  rw [Ignored, if_neg notRst] at ignored
  obtain ⟨-, -, -, -, -, -, fin⟩ := ignored
  rw [if_neg notFin] at fin
  exact fin.elim (· isAck) notSyn

variable {payload : List U8} {dst : Ip} {l : Label}

theorem exec_rejected {r : Reject} (bad : decode payload src dst = .error r)
    (done : exec cfg s (.handle now payload src dst) = .ok (s', l)) : s' = s.reject r ∧ l.out = .none := by
  simp only [exec, handle_eq, bad, bind_ok] at done
  cases done
  exact ⟨rfl, rfl⟩

theorem exec_delivers (good : decode payload src dst = .ok g)
    (done : exec cfg s (.handle now payload src dst) = .ok (s', l)) :
    (s', l.out, l.events) = deliver cfg now s src g (mssOf payload) := by
  simp only [exec, handle_eq, good, bind_ok] at done
  cases done
  rfl

theorem exec_handled (good : decode payload src dst = .ok g) (seen : ¬ Ignored cfg s.tcb src g)
    (done : exec cfg s (.handle now payload src dst) = .ok (s', l)) : Handled s src g (s', l.out, l.events) := by
  rw [exec_delivers good done]
  have arrives : (Op.handle now payload src dst).arrival = some ⟨now, src, g, mssOf payload⟩ := by
    rw [Op.arrival, good]
  exact @deliver_handled cfg s _ _ arrives seen

theorem exec_ignored (good : decode payload src dst = .ok g) (ignored : Ignored cfg s.tcb src g)
    (done : exec cfg s (.handle now payload src dst) = .ok (s', l)) : s' = s ∧ l.out = .none := by
  have silent := @deliver_ignored cfg s ⟨now, src, g, mssOf payload⟩ ignored
  rw [← exec_delivers good done] at silent
  simp only [Prod.mk.injEq] at silent
  exact ⟨silent.1, silent.2.1⟩

end

end Whimbrel.Tcp

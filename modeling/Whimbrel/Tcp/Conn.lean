import Whimbrel.Tcp.Delivery

/-! What the events of a run say about the current connection.

A connection begins with the SYN that leaves LISTEN. `Conn` collects what it
accepted and what the app was handed of it; `Tracks` ties that to the TCB in
every state that any segments and calls can reach. -/

set_option autoImplicit false

namespace Whimbrel.Tcp

open Transition

structure Conn where
  accepted : List U8
  handed : List U8
  fins : Nat
  deriving DecidableEq, Repr

def Conn.empty : Conn := ⟨[], [], 0⟩

def Conn.after (c : Conn) : Event → Conn
  | .opened => .empty
  | .queued data => { c with accepted := c.accepted ++ data }
  | .handed data => { c with handed := c.handed ++ data }
  | .fin _ => { c with fins := c.fins + 1 }
  | _ => c

def conn (events : List Event) : Conn := events.foldl Conn.after .empty

theorem conn_append (es fs : List Event) : conn (es ++ fs) = fs.foldl Conn.after (conn es) :=
  List.foldl_append

/-- The next sequence number a connection with initial number `isn` expects. -/
def Conn.next (isn : U32) (c : Conn) : U32 :=
  isn + 1 + BitVec.ofNat 32 c.accepted.length + BitVec.ofNat 32 c.fins

structure Tracks (events : List Event) (t : Tcb) : Prop where
  inv : TcbInv t
  opened : t.state ≠ .listen → .opened ∈ events
  rcvNxt : .opened ∈ events → t.rcvNxt = (conn events).next t.theirIsn
  peerFin : t.state ≠ .listen → (t.peerFin ↔ 0 < (conn events).fins)
  handed : (conn events).handed <+: (conn events).accepted
  held : t.state ≠ .listen →
    (conn events).handed ++ (pendingBytes t).getD [] = (conn events).accepted

theorem Tracks.listen {t : Tcb} (inv : TcbInv t) (listens : t.state = .listen) : Tracks [] t :=
  ⟨inv, fun isOpen => absurd listens isOpen, by simp, fun isOpen => absurd listens isOpen, List.nil_prefix,
    fun isOpen => absurd listens isOpen⟩

theorem Tracks.init : Tracks [] Tcb.init := .listen .init rfl

section
variable {events : List Event} {t u : Tcb}

theorem Conn.next_queued (isn : U32) (c : Conn) (data : List U8) :
    (c.after (.queued data)).next isn = c.next isn + BitVec.ofNat 32 data.length := by
  simp only [next, after, List.length_append, BitVec.ofNat_add]
  ac_rfl

theorem Conn.next_fin (isn : U32) (c : Conn) : { c with fins := c.fins + 1 }.next isn = c.next isn + 1 := by
  simp only [next, BitVec.ofNat_add]
  ac_rfl

theorem Tracks.quiet (tracks : Tracks events t) {more : List Event} (inv : TcbInv u)
    (same : conn (events ++ more) = conn events) (notOpened : .opened ∉ more)
    (stays : u.state ≠ .listen → t.state ≠ .listen)
    (rcvNxt : u.rcvNxt = t.rcvNxt) (theirIsn : u.theirIsn = t.theirIsn)
    (peerFin : u.state ≠ .listen → u.peerFin = t.peerFin)
    (pending : u.state ≠ .listen → pendingBytes u = pendingBytes t) : Tracks (events ++ more) u where
  inv := inv
  opened isOpen := List.mem_append_left _ (tracks.opened (stays isOpen))
  rcvNxt opened := by
    have before : .opened ∈ events := (List.mem_append.mp opened).resolve_right notOpened
    rw [same, rcvNxt, theirIsn, tracks.rcvNxt before]
  peerFin isOpen := by
    rw [same, peerFin isOpen]
    exact tracks.peerFin (stays isOpen)
  handed := by
    rw [same]
    exact tracks.handed
  held isOpen := by
    rw [same, pending isOpen]
    exact tracks.held (stays isOpen)

theorem Tracks.fin (tracks : Tracks events t) {more : List Event} (inv : TcbInv u)
    (counted : conn (events ++ more) = { conn events with fins := (conn events).fins + 1 }) (notOpened : .opened ∉ more)
    (isOpen : t.state ≠ .listen) (rcvNxt : u.rcvNxt = t.rcvNxt + 1) (theirIsn : u.theirIsn = t.theirIsn)
    (peerFin : u.state ≠ .listen → u.peerFin)
    (pending : u.state ≠ .listen → pendingBytes u = pendingBytes t) : Tracks (events ++ more) u where
  inv := inv
  opened _ := List.mem_append_left _ (tracks.opened isOpen)
  rcvNxt opened := by
    have before : .opened ∈ events := (List.mem_append.mp opened).resolve_right notOpened
    rw [counted, Conn.next_fin, rcvNxt, theirIsn, tracks.rcvNxt before]
  peerFin stillOpen := by
    rw [counted]
    exact ⟨fun _ => Nat.succ_pos _, fun _ => peerFin stillOpen⟩
  handed := by
    rw [counted]
    exact tracks.handed
  held stillOpen := by
    rw [counted, pending stillOpen]
    exact tracks.held isOpen

theorem Tracks.acceptSyn (tracks : Tracks events t) (listens : t.state = .listen) (now : Usize) (src : Ip)
    (g : Segment) (mss : U16) : Tracks (events ++ [.opened]) (acceptSyn now t src g mss) := by
  have fresh := tracks.inv.fresh (.inl listens)
  have read : pendingBytes t = none := pendingBytes_eq_none.mpr fresh.1
  have empty : conn (events ++ [.opened]) = .empty := by simp [conn_append, Conn.after]
  exact {
    inv := tracks.inv.acceptSyn listens now src g mss
    opened := fun _ => by simp
    rcvNxt := fun _ => by simp [empty, Conn.next, Conn.empty, Tcp.acceptSyn]
    peerFin := fun _ => by
      have noFin := fresh.2.2.2
      simp [empty, Conn.empty, Tcp.acceptSyn, noFin]
    handed := by simp [empty, Conn.empty]
    held := fun _ => by
      have same : pendingBytes (Tcp.acceptSyn now t src g mss) = pendingBytes t := rfl
      simp [empty, Conn.empty, same, read] }

theorem Tracks.queued (tracks : Tracks events t) (isOpen : t.state ≠ .listen)
    (isSynced : t.state ≠ .synRcvd) (read : ¬ t.rxPending) {data : List U8} (some : data ≠ [])
    (fits : data.length ≤ payloadMax) :
    Tracks (events ++ [.queued data]) (advance (storeRx t data fits) data) := by
  have counted : conn (events ++ [.queued data]) = (conn events).after (.queued data) := by
    simp [conn_append]
  have now : pendingBytes (advance (storeRx t data fits) data) = .some data := by
    simp [pendingBytes, advance, storeRx]
  -- `queue_rx` takes a payload only when the one before was handed over.
  have before : (conn events).handed = (conn events).accepted := by
    simpa [pendingBytes_eq_none.mpr read] using tracks.held isOpen
  exact {
    inv := tracks.inv.queued isOpen isSynced some fits
    opened := fun _ => List.mem_append_left _ (tracks.opened isOpen)
    rcvNxt := fun _ => by
      rw [counted, Conn.next_queued]
      change t.rcvNxt + _ = _
      rw [tracks.rcvNxt (tracks.opened isOpen)]
      rfl
    peerFin := fun _ => by
      rw [counted]
      exact tracks.peerFin isOpen
    handed := by
      rw [counted]
      exact tracks.handed.trans (List.prefix_append _ _)
    held := fun _ => by
      rw [counted, now]
      simp [Conn.after, before] }

theorem Tracks.consume (tracks : Tracks events t) : Tracks (events ++ (consume t).2) (consume t).1 := by
  cases pending : pendingBytes t with
  | none =>
    have none : (Tcp.consume t).2 = [] := by simp [Tcp.consume, pending]
    rw [none]
    exact tracks.quiet tracks.inv.consume (by simp) (by simp) id rfl rfl (fun _ => rfl)
      (fun _ => by rw [pendingBytes_consume, pending])
  | some data =>
    have unread : t.rxPending := by
      by_contra read
      rw [pendingBytes_eq_none.mpr read] at pending
      cases pending
    have isOpen : t.state ≠ .listen := fun listens => (tracks.inv.fresh (.inl listens)).1 unread
    have one : (Tcp.consume t).2 = [.handed data] := by simp [Tcp.consume, pending]
    have counted : conn (events ++ [.handed data]) = (conn events).after (.handed data) := by
      simp [conn_append]
    have whole : (conn events).handed ++ data = (conn events).accepted := by
      simpa [pending] using tracks.held isOpen
    rw [one]
    exact {
      inv := tracks.inv.consume
      opened := fun _ => List.mem_append_left _ (tracks.opened isOpen)
      rcvNxt := fun _ => by
        rw [counted]
        exact tracks.rcvNxt (tracks.opened isOpen)
      peerFin := fun _ => by
        rw [counted]
        exact tracks.peerFin isOpen
      handed := by
        rw [counted]
        exact whole ▸ List.prefix_rfl
      held := fun _ => by
        rw [counted, pendingBytes_consume]
        simpa [Conn.after] using whole }

theorem Tracks.stage {cfg : Config} {t0 : Tcb} {op : Op} {more : List Event} (tracks : Tracks events t)
    (stage : Stage cfg t0 op t more u) : Tracks (events ++ more) u := by
  have inv := tracks.inv.stage stage
  cases stage with
  | opened _ _ _ _ listens => exact tracks.acceptSyn listens _ _ _ _
  | queued _ past takes =>
    have read : ¬ t.rxPending := by
      rw [past.rxPending]
      exact takes.2.2.1
    exact tracks.queued past.isOpen past.isSynced read takes.1 takes.2.2.2
  | consumed => exact tracks.consume
  | finUnused _ past | finCloseWait _ past | finStays _ past =>
    exact tracks.fin inv (by simp [conn_append, Conn.after]) (by simp) past.isOpen rfl rfl (fun _ => rfl)
      (fun _ => rfl)
  | finTimeWait _ past =>
    exact tracks.fin inv (by simp [conn_append, Conn.after]) (by simp) past.isOpen rfl rfl
      (fun isOpen => absurd rfl isOpen) (fun isOpen => absurd rfl isOpen)
  | aborted | rtoReset =>
    exact tracks.quiet inv (by simp [conn_append, Conn.after]) (by simp) (fun isOpen => absurd rfl isOpen)
      rfl rfl (fun isOpen => absurd rfl isOpen) (fun isOpen => absurd rfl isOpen)
  | ackCloses _ _ _ orderly =>
    rcases orderly with rfl | rfl <;>
      exact tracks.quiet inv (by simp [conn_append, Conn.after]) (by simp)
        (fun isOpen => absurd rfl isOpen) rfl rfl (fun isOpen => absurd rfl isOpen)
        (fun isOpen => absurd rfl isOpen)
  | acked | eofTaken | resent =>
    exact tracks.quiet inv (by simp [conn_append, Conn.after]) (by simp) id rfl rfl (fun _ => rfl)
      (fun _ => rfl)
  | finAcked _ reaches =>
    exact tracks.quiet inv (by simp [conn_append, Conn.after]) (by simp) (fun _ => reaches.isOpen) rfl rfl
      (fun _ => rfl) (fun _ => rfl)
  | established _ _ _ synRcvd =>
    exact tracks.quiet inv (by simp) (by simp) (fun _ => by simp [synRcvd]) rfl rfl (fun _ => rfl)
      (fun _ => rfl)
  | sent _ ready =>
    have isOpen : t.state ≠ .listen := by rcases ready with state | state <;> simp [state]
    exact tracks.quiet inv (by simp [conn_append, Conn.after]) (by simp) (fun _ => isOpen) rfl rfl
      (fun _ => rfl) (fun _ => rfl)

theorem Tracks.run {cfg : Config} {ls : List Label} {s : Statics} (run : Run (Step cfg) .init ls s) :
    Tracks (eventsOf ls) s.tcb := by
  have guarded : Run (StepWhen cfg fun _ _ => True) .init ls s := run.mono fun _ _ _ step => ⟨step, trivial⟩
  exact stage_history (fun _ _ _ _ _ _ _ held stage => held.stage stage) guarded [] .init

end

end Whimbrel.Tcp

import Whimbrel.Lib.Virtqueue
import Whimbrel.Net.Rx

/-! The RX virtqueue: `post_rx`, `take_rx_used` and `repost_rx` of `src/virtq.rs` under the
loop of `poll_rx`, against a device that runs at the same time.

The driver is cut where the device can come in between: the load of `used.idx`, the
read of the entry, the classification, the write of the ring slot, the store of
`avail.idx` and the counters. The classification is one step, since it reads no more
than the buffer of its descriptor. -/

set_option autoImplicit false

namespace Whimbrel.Net

open Checked Transition Virtqueue

abbrev qsize : Nat := 16

instance neZeroQsize : NeZero qsize := ⟨by decide⟩

theorem qsize_size : Size qsize := ⟨by decide, ⟨4096, rfl⟩, by decide⟩

abbrev Buffer := { b : List U8 // b.length = bufLen }

/-- Where the driver is in `poll_rx`. -/
inductive RxPc where
  | idle
  | polling
  /-- `used.idx` has moved. -/
  | loaded
  | holding (id len : Nat)
  | classified (id : Nat)
  /-- The ring slot is written and not published. -/
  | written (id : Nat)
  | published
  deriving DecidableEq, Repr

def RxPc.mine : RxPc → List Nat
  | .holding id _ | .classified id | .written id => [id]
  | .idle | .polling | .loaded | .published => []

/-- Completed and not counted as posted again. -/
def RxPc.owed : RxPc → U32
  | .holding .. | .classified _ | .written _ | .published => 1
  | .idle | .polling | .loaded => 0

/-- The queue and the driver. `took` and `replied` are the locals of `poll_rx`. The last
four fields record what happened: the completions of the device, the results of
`take_rx_used`, and for the poll that is going on the statics it began with and the
frames it has classified. -/
structure RxWorld where
  q : Queue qsize
  bufs : Nat → Buffer
  net : Statics
  pc : RxPc
  took : U32
  replied : Bool
  log : List (Nat × Nat)
  returned : List (Nat × Nat)
  began : Statics
  round : List Completion

def Statics.rxTaken (net : Statics) : Statics :=
  { net with rxSeen := net.rxSeen + 1, rxCompleted := net.rxCompleted + 1 }

def Statics.rxReposted (net : Statics) : Statics := { net with rxPosted := net.rxPosted + 1 }

def completionOf (buf : Buffer) (id len : Nat) (now : Usize) : Completion :=
  ⟨BitVec.ofNat 32 id, BitVec.ofNat 32 len, buf.1, buf.2, now⟩

def RxWorld.drive (cfg : Config) (platform : Platform) (now : Usize) (w : RxWorld) : Result RxWorld :=
  match w.pc with
  | .idle => .ok { w with pc := .polling, took := 0, replied := false, began := w.net, round := [] }
  | .polling =>
    if w.q.used = w.net.rxSeen then
      -- the check after the loop
      if w.took ≠ 0 ∧ w.net.rxPosted - w.net.rxCompleted ≠ BitVec.ofNat 32 rxBufs then .error .rxInflight
      else .ok { w with pc := .idle }
    else .ok { w with pc := .loaded }
  | .loaded =>
    let e := w.q.entries (slot qsize w.net.rxSeen)
    if e.1 ≥ rxBufs then .error .rxUsedId
    else .ok { w with net := w.net.rxTaken, pc := .holding e.1 e.2, returned := w.returned ++ [e] }
  | .holding id len => do
    let c := completionOf (w.bufs id) id len now
    let (net, r) ← classifyRx cfg platform w.net c
    return { w with net, pc := .classified id, replied := w.replied || r, round := w.round ++ [c] }
  | .classified id => .ok { w with q := w.q.put id, pc := .written id }
  | .written _ => .ok { w with q := w.q.publish, pc := .published }
  | .published => do
    let took ← succ32 cfg w.took
    return { w with net := w.net.rxReposted, pc := .polling, took }

inductive RxEvent where
  | device
  | dma (id : Nat)
  | drive (now : Usize)
  | other (op : Op)

/-- The device writes only into buffers it holds. The rest of the stack runs between polls. -/
inductive RxStep (cfg : Config) (platform : Platform) : RxWorld → RxEvent → RxWorld → Prop where
  | device {w : RxWorld} {done : Option (Nat × Nat)} {q : Queue qsize} : Device w.q done q →
      RxStep cfg platform w .device { w with q, log := w.log ++ done.toList }
  | dma {w : RxWorld} {id : Nat} (buf : Buffer) : id ∈ w.q.held →
      RxStep cfg platform w (.dma id) { w with bufs := Function.update w.bufs id buf }
  | drive {w u : RxWorld} {now : Usize} : w.drive cfg platform now = .ok u → RxStep cfg platform w (.drive now) u
  | other {w : RxWorld} {op : Op} {net : Statics} : w.pc = .idle → (∀ cs, op ≠ .pollRx cs) → Step cfg platform w.net op net →
      RxStep cfg platform w (.other op) { w with net }

inductive Drives (cfg : Config) (platform : Platform) (now : Usize) (w : RxWorld) : RxWorld → Prop where
  | enter (reached : w.pc = .idle) :
      Drives cfg platform now w { w with pc := .polling, took := 0, replied := false, began := w.net, round := [] }
  | leave (reached : w.pc = .polling) (empty : w.q.used = w.net.rxSeen)
      (whole : w.took ≠ 0 → w.net.rxPosted - w.net.rxCompleted = BitVec.ofNat 32 rxBufs) :
      Drives cfg platform now w { w with pc := .idle }
  | load (reached : w.pc = .polling) (moved : w.q.used ≠ w.net.rxSeen) : Drives cfg platform now w { w with pc := .loaded }
  | take {e : Nat × Nat} (reached : w.pc = .loaded) (entry : w.q.entries (slot qsize w.net.rxSeen) = e) (known : e.1 < rxBufs) :
      Drives cfg platform now w { w with net := w.net.rxTaken, pc := .holding e.1 e.2, returned := w.returned ++ [e] }
  | classify {id len : Nat} {r : Statics × Bool} (reached : w.pc = .holding id len)
      (done : classifyRx cfg platform w.net (completionOf (w.bufs id) id len now) = .ok r) :
      Drives cfg platform now w { w with
        net := r.1, pc := .classified id, replied := w.replied || r.2, round := w.round ++ [completionOf (w.bufs id) id len now] }
  | put {id : Nat} (reached : w.pc = .classified id) : Drives cfg platform now w { w with q := w.q.put id, pc := .written id }
  | publish {id : Nat} (reached : w.pc = .written id) :
      Drives cfg platform now w { w with q := w.q.publish, pc := .published }
  | count {took : U32} (reached : w.pc = .published) (counted : succ32 cfg w.took = .ok took) :
      Drives cfg platform now w { w with net := w.net.rxReposted, pc := .polling, took }

theorem RxWorld.drive_ok {cfg : Config} {platform : Platform} {now : Usize} {w u : RxWorld}
    (done : w.drive cfg platform now = .ok u) : Drives cfg platform now w u := by
  unfold RxWorld.drive at done
  cases reached : w.pc <;> simp only [reached] at done
  case idle =>
    cases done
    exact .enter reached
  case polling =>
    by_cases empty : w.q.used = w.net.rxSeen
    · rw [if_pos empty] at done
      split at done
      · cases done
      · rename_i whole
        cases done
        exact .leave reached empty fun some => not_not.mp fun leaked => whole ⟨some, leaked⟩
    · rw [if_neg empty] at done
      cases done
      exact .load reached empty
  case loaded =>
    split at done
    · cases done
    · rename_i known
      cases done
      exact .take reached rfl (Nat.not_le.mp known)
  case holding id len =>
    obtain ⟨r, classified, done⟩ := bind_eq_ok done
    cases done
    exact .classify reached classified
  case classified id =>
    cases done
    exact .put reached
  case written id =>
    cases done
    exact .publish reached
  case published =>
    obtain ⟨took, counted, done⟩ := bind_eq_ok done
    cases done
    exact .count reached counted

def RxWorld.boot (mac : Mac) (entries : Fin qsize → Nat × Nat) (bufs : Nat → Buffer) : RxWorld where
  q := ⟨fun i => i.val, 16, entries, 0, 0, []⟩
  bufs := bufs
  net := .boot mac
  pc := .idle
  took := 0
  replied := false
  log := []
  returned := []
  began := .boot mac
  round := []

/-! ## The invariant -/

structure RxInv (w : RxWorld) : Prop where
  owners : (w.q.out w.net.rxSeen ++ w.pc.mine).Perm (List.range rxBufs)
  flight : w.q.taken = w.q.used + BitVec.ofNat 16 w.q.held.length
  log : w.log = w.returned ++ w.q.completed w.net.rxSeen
  inflight : w.net.rxPosted - w.net.rxCompleted + w.pc.owed = BitVec.ofNat 32 rxBufs
  loaded : w.pc = .loaded → w.q.used ≠ w.net.rxSeen
  written : ∀ id, w.pc = .written id → w.q.ring (slot qsize w.q.avail) = id

section
variable {cfg : Config} {platform : Platform} {w u : RxWorld}

theorem RxInv.boot (mac : Mac) (entries : Fin qsize → Nat × Nat) (bufs : Nat → Buffer) :
    RxInv (.boot mac entries bufs) where
  owners := by
    have posted : between (fun i : Fin qsize => i.val) 0 16 = List.range rxBufs := by decide
    have unseen : between entries 0 0 = [] := between_self
    change (between (fun i : Fin qsize => i.val) 0 16 ++ [] ++ (between entries 0 0).map Prod.fst ++ []).Perm _
    rw [unseen, posted]
    exact .of_eq rfl
  flight := rfl
  log := between_self.symm
  inflight := (by decide : (16 : U32) - 0 + 0 = BitVec.ofNat 32 rxBufs)
  loaded reached := nomatch reached
  written _ reached := nomatch reached

theorem RxInv.total (inv : RxInv w) : (w.q.out w.net.rxSeen).length + w.pc.mine.length = qsize := by
  have same := inv.owners.length_eq
  rw [List.length_append, List.length_range] at same
  exact same

theorem RxInv.counted (inv : RxInv w) : w.q.Counted w.net.rxSeen :=
  ⟨by have := inv.total; omega, inv.flight⟩

theorem RxInv.room (inv : RxInv w) (holds : w.pc.mine.length = 1) : (w.q.avail - w.q.taken).toNat < qsize := by
  have total := inv.total
  rw [holds, Queue.out, List.length_append, List.length_append, Queue.available, between_length] at total
  omega

theorem RxInv.known (inv : RxInv w) (moved : w.q.used ≠ w.net.rxSeen) :
    (w.q.entries (slot qsize w.net.rxSeen)).1 < rxBufs := by
  have out : (w.q.entries (slot qsize w.net.rxSeen)).1 ∈ w.q.out w.net.rxSeen :=
    (Queue.out_see moved).mem_iff.mpr List.mem_cons_self
  exact List.mem_range.mp (inv.owners.mem_iff.mp (List.mem_append_left _ out))

theorem Kept.classifyRx_ok {net : Statics} {c : Completion} {r : Statics × Bool}
    (done : classifyRx cfg platform net c = .ok r) : Kept net r.1 := by
  by_cases answerable : c.Answerable net.arp.cache
  · obtain ⟨r', same, classified⟩ := @classifyRx_returns cfg platform net c answerable
    obtain rfl : r = r' := Except.ok.inj (done.symm.trans same)
    exact classified.toKept
  · simp only [Completion.Answerable, not_forall] at answerable
    obtain ⟨frame, has, request, absent⟩ := answerable
    rw [classifyRx_error has request (not_not.mp absent)] at done
    cases done

theorem RxInv.device {done : Option (Nat × Nat)} {q : Queue qsize} (inv : RxInv w) (step : Device w.q done q) :
    RxInv { w with q, log := w.log ++ done.toList } := by
  obtain ⟨perm, counted, appended⟩ := step.moves qsize_size inv.counted
  refine ⟨(perm.append_right _).trans inv.owners, counted.flight, ?_, inv.inflight, ?_, ?_⟩
  · rw [appended, ← List.append_assoc, ← inv.log]
  · intro reached empty
    -- an entry that was there is still there
    have gone : q.completed w.net.rxSeen = [] := empty ▸ between_self
    rw [appended, Queue.completed_cons (inv.loaded reached)] at gone
    cases gone
  · cases step <;> exact inv.written

theorem RxInv.goto (inv : RxInv w) (kept : Kept w.net u.net) (mine : u.pc.mine = w.pc.mine) (owed : u.pc.owed = w.pc.owed)
    (loaded : u.pc = .loaded → w.q.used ≠ w.net.rxSeen) (fresh : ∀ id, u.pc ≠ .written id)
    (q : u.q = w.q) (log : u.log = w.log) (returned : u.returned = w.returned) : RxInv u where
  owners := by rw [q, kept.seen, mine]; exact inv.owners
  flight := by rw [q]; exact inv.flight
  log := by rw [log, returned, q, kept.seen]; exact inv.log
  inflight := by rw [kept.posted, kept.completed, owed]; exact inv.inflight
  loaded reached := by rw [q, kept.seen]; exact loaded reached
  written id reached := absurd reached (fresh id)

theorem RxInv.take (inv : RxInv w) (reached : w.pc = .loaded) {e : Nat × Nat}
    (entry : w.q.entries (slot qsize w.net.rxSeen) = e) :
    RxInv { w with net := w.net.rxTaken, pc := .holding e.1 e.2, returned := w.returned ++ [e] } := by
  have moved := inv.loaded reached
  have before := inv.owners
  have due := inv.inflight
  rw [reached] at before due
  refine ⟨?_, inv.flight, ?_, ?_, nofun, nofun⟩
  · refine List.Perm.trans ?_ before
    have seen := Queue.out_see moved
    rw [entry] at seen
    exact (List.perm_append_singleton _ _).trans (seen.symm.trans (List.append_nil _ ▸ .refl _))
  · rw [inv.log, Queue.completed_cons moved, entry, List.append_assoc]
    rfl
  · change w.net.rxPosted - (w.net.rxCompleted + 1) + 1 = _
    rw [← due]
    change _ = w.net.rxPosted - w.net.rxCompleted + 0
    bv_omega

theorem RxInv.put {id : Nat} (inv : RxInv w) (reached : w.pc = .classified id) :
    RxInv { w with q := w.q.put id, pc := .written id } := by
  have before := inv.owners
  have due := inv.inflight
  have room := inv.room (by rw [reached]; rfl)
  rw [reached] at before due
  refine ⟨?_, inv.flight, inv.log, due, nofun, ?_⟩
  · rw [Queue.out_put qsize_size room]
    exact before
  · intro id' same
    cases same
    exact Queue.ring_put id

theorem RxInv.publish {id : Nat} (inv : RxInv w) (reached : w.pc = .written id) :
    RxInv { w with q := w.q.publish, pc := .published } := by
  have before := inv.owners
  have due := inv.inflight
  have room := inv.room (by rw [reached]; rfl)
  have handed : (w.q.publish.out w.net.rxSeen).Perm (w.q.ring (slot qsize w.q.avail) :: w.q.out w.net.rxSeen) :=
    Queue.out_publish qsize_size room
  rw [inv.written id reached] at handed
  rw [reached] at before due
  refine ⟨?_, inv.flight, inv.log, due, nofun, nofun⟩
  rw [RxPc.mine, List.append_nil]
  exact handed.trans ((List.perm_append_singleton _ _).symm.trans before)

theorem RxInv.count (inv : RxInv w) (reached : w.pc = .published) (took : U32) :
    RxInv { w with net := w.net.rxReposted, pc := .polling, took } := by
  have before := inv.owners
  have due := inv.inflight
  rw [reached] at before due
  refine ⟨before, inv.flight, inv.log, ?_, nofun, nofun⟩
  change w.net.rxPosted + 1 - w.net.rxCompleted + 0 = _
  rw [← due]
  change _ = w.net.rxPosted - w.net.rxCompleted + 1
  bv_omega

theorem RxInv.drives {now : Usize} (inv : RxInv w) (moves : Drives cfg platform now w u) : RxInv u := by
  cases moves with
  | enter reached | leave reached =>
    exact inv.goto (.refl _) (by rw [reached]; rfl) (by rw [reached]; rfl) nofun nofun rfl rfl rfl
  | load reached moved =>
    exact inv.goto (.refl _) (by rw [reached]; rfl) (by rw [reached]; rfl) (fun _ => moved) nofun rfl rfl rfl
  | take reached entry => exact inv.take reached entry
  | classify reached done =>
    exact inv.goto (.classifyRx_ok done) (by rw [reached]; rfl) (by rw [reached]; rfl) nofun nofun rfl rfl rfl
  | put reached => exact inv.put reached
  | publish reached => exact inv.publish reached
  | count reached => exact inv.count reached _

theorem RxInv.step {e : RxEvent} (inv : RxInv w) (step : RxStep cfg platform w e u) : RxInv u := by
  cases step with
  | device moved => exact inv.device moved
  | dma buf held => exact ⟨inv.owners, inv.flight, inv.log, inv.inflight, inv.loaded, inv.written⟩
  | drive done => exact inv.drives (RxWorld.drive_ok done)
  | other idle notPoll done =>
    refine inv.goto (.exec_ok notPoll done) rfl rfl inv.loaded ?_ rfl rfl rfl
    rintro id same
    cases idle.symm.trans same

theorem RxInv.run {mac : Mac} {entries : Fin qsize → Nat × Nat} {bufs : Nat → Buffer} {es : List RxEvent}
    (run : Run (RxStep cfg platform) (.boot mac entries bufs) es w) : RxInv w :=
  run.invariant (fun _ _ _ inv step => inv.step step) (.boot mac entries bufs)

theorem RxInv.alone (inv : RxInv w) {id : Nat} (holds : id ∈ w.pc.mine) : id ∉ w.q.out w.net.rxSeen := by
  have each : (w.q.out w.net.rxSeen ++ w.pc.mine).Nodup := inv.owners.nodup_iff.mpr List.nodup_range
  exact fun out => List.disjoint_of_nodup_append each out holds

/-- The device leaves the buffer that the driver holds. -/
theorem RxInv.bytes (inv : RxInv w) {id : Nat} (holds : id ∈ w.pc.mine) {e : RxEvent} (step : RxStep cfg platform w e u) :
    u.bufs id = w.bufs id := by
  cases step with
  | device | other => rfl
  | dma buf held =>
    refine Function.update_of_ne ?_ _ _
    rintro rfl
    exact inv.alone holds (List.mem_append_left _ (List.mem_append_right _ held))
  | drive done => cases RxWorld.drive_ok done <;> rfl

theorem RxWorld.drive_reads {bufs : Nat → Buffer} (same : ∀ id ∈ w.pc.mine, bufs id = w.bufs id) (now : Usize) :
    { w with bufs }.drive cfg platform now = (fun u => { u with bufs }) <$> w.drive cfg platform now := by
  unfold RxWorld.drive
  cases reached : w.pc <;> dsimp only
  case polling =>
    by_cases empty : w.q.used = w.net.rxSeen
    · rw [if_pos empty, if_pos empty]
      split <;> rfl
    · rw [if_neg empty, if_neg empty]
      rfl
  case loaded => split <;> rfl
  case holding id len =>
    have buffer : bufs id = w.bufs id := same id (by rw [reached]; exact List.mem_singleton_self id)
    rw [buffer]
    cases classifyRx cfg platform w.net (completionOf (w.bufs id) id len now) <;> rfl
  case published => cases succ32 cfg w.took <;> rfl
  all_goals rfl

/-- What can stop a poll. -/
theorem RxInv.drive_error {now : Usize} {p : Panic} (inv : RxInv w) (failed : w.drive cfg platform now = .error p) :
    p = .noGatewayMac ∨ p = .overflow := by
  unfold RxWorld.drive at failed
  cases reached : w.pc <;> simp only [reached] at failed
  case polling =>
    by_cases empty : w.q.used = w.net.rxSeen
    · -- The leak check passes: what is posted and not completed is a full ring.
      have whole := inv.inflight
      rw [reached] at whole
      change w.net.rxPosted - w.net.rxCompleted + 0#32 = _ at whole
      rw [BitVec.add_zero] at whole
      rw [if_pos empty, if_neg fun leaked => leaked.2 whole] at failed
      cases failed
    · rw [if_neg empty] at failed
      cases failed
  case loaded =>
    rw [if_neg (Nat.not_le.mpr (inv.known (inv.loaded reached)))] at failed
    cases failed
  case holding id len =>
    by_cases answerable : (completionOf (w.bufs id) id len now).Answerable w.net.arp.cache
    · obtain ⟨r, done, -⟩ := @classifyRx_returns cfg platform w.net _ answerable
      rw [done] at failed
      cases failed
    · simp only [Completion.Answerable, not_forall] at answerable
      obtain ⟨frame, has, request, absent⟩ := answerable
      rw [classifyRx_error has request (not_not.mp absent)] at failed
      cases failed
      exact .inl rfl
  case published =>
    unfold succ32 at failed
    split at failed
    · cases failed
      exact .inr rfl
    · cases failed
  all_goals cases failed

/-! ## The loop of `poll_rx` -/

theorem rxLoop_snoc {net : Statics} {took : U32} {replied : Bool} (cs : List Completion) (c : Completion) :
    rxLoop cfg platform net took replied (cs ++ [c]) =
      rxLoop cfg platform net took replied cs >>= fun r => rxStep cfg platform r.1 r.2.1 r.2.2 c := by
  rw [rxLoop_append]
  refine bind_congr fun r => ?_
  change (rxStep cfg platform r.1 r.2.1 r.2.2 c >>= pure) = _
  exact bind_pure _

/-- The statics are those of the loop over the frames of this poll, as far as the driver has come. -/
def RxWorld.Follows (cfg : Config) (platform : Platform) (w : RxWorld) : Prop :=
  match w.pc with
  | .idle => True
  | .polling | .loaded => rxLoop cfg platform w.began 0 false w.round = .ok (w.net, w.took, w.replied)
  | .holding id _ => id < rxBufs ∧
      ∃ net, rxLoop cfg platform w.began 0 false w.round = .ok (net, w.took, w.replied) ∧ w.net = net.rxTaken
  | .classified _ | .written _ | .published => ∃ net cs c before r, w.round = cs ++ [c] ∧
      rxLoop cfg platform w.began 0 false cs = .ok (net, w.took, before) ∧ c.id.toNat < rxBufs ∧
      classifyRx cfg platform net.rxTaken c = .ok (w.net, r) ∧ w.replied = (before || r)

theorem rxStep_of_classified {net u : Statics} {took took' : U32} {before r : Bool} {c : Completion}
    (known : c.id.toNat < rxBufs) (classified : classifyRx cfg platform net.rxTaken c = .ok (u, r))
    (counted : succ32 cfg took = .ok took') :
    rxStep cfg platform net took before c = .ok (u.rxReposted, took', before || r) := by
  unfold rxStep
  rw [if_neg (Nat.not_le.mpr known)]
  unfold Statics.rxTaken at classified
  simp only [classified, bind_ok, counted]
  rfl

theorem RxWorld.Follows.drives {now : Usize} (follows : w.Follows cfg platform) (moves : Drives cfg platform now w u) :
    u.Follows cfg platform := by
  unfold RxWorld.Follows at follows
  cases moves with
  | enter => rfl
  | leave => trivial
  | load reached =>
    rw [reached] at follows
    exact follows
  | take reached _ known =>
    rw [reached] at follows
    exact ⟨known, w.net, follows, rfl⟩
  | @classify id len r reached done =>
    rw [reached] at follows
    obtain ⟨known, net, looped, taken⟩ := follows
    rw [taken] at done
    refine ⟨net, w.round, _, w.replied, r.2, rfl, looped, ?_, done, rfl⟩
    have small : id < 2 ^ 32 := Nat.lt_trans known (by decide)
    change (BitVec.ofNat 32 id).toNat < rxBufs
    rw [BitVec.toNat_ofNat, Nat.mod_eq_of_lt small]
    exact known
  | put reached | publish reached =>
    rw [reached] at follows
    exact follows
  | count reached counted =>
    rw [reached] at follows
    obtain ⟨net, cs, c, before, r, round, looped, known, classified, replied⟩ := follows
    change rxLoop cfg platform w.began 0 false w.round = .ok (w.net.rxReposted, _, w.replied)
    -- The round ends with the count: one more frame of the loop is done.
    rw [round, rxLoop_snoc, looped, bind_ok, replied]
    exact rxStep_of_classified known classified counted

/-- A poll of the queue is `pollRx` of the frames it has taken. -/
theorem RxWorld.Follows.poll (follows : w.Follows cfg platform) (reached : w.pc = .polling)
    (whole : w.took ≠ 0 → w.net.rxPosted - w.net.rxCompleted = BitVec.ofNat 32 rxBufs) :
    pollRx cfg platform w.began w.round = .ok (w.net, w.replied) := by
  unfold RxWorld.Follows at follows
  rw [reached] at follows
  rw [pollRx, follows, bind_ok]
  exact if_neg fun leaked => leaked.2 (whole leaked.1)

/-- The statics after the last operation that is complete. -/
def RxWorld.settled (w : RxWorld) : Statics := if w.pc = .idle then w.net else w.began

theorem RxWorld.settled_idle (idle : w.pc = .idle) : w.settled = w.net := if_pos idle

theorem RxWorld.settled_busy (busy : w.pc ≠ .idle) : w.settled = w.began := if_neg busy

theorem RxStep.settles {e : RxEvent} (follows : w.Follows cfg platform) (step : RxStep cfg platform w e u) :
    u.settled = w.settled ∨ ∃ op, Step cfg platform w.settled op u.settled := by
  cases step with
  | device | dma => exact .inl rfl
  | @other op net idle notPoll done =>
    right
    rw [RxWorld.settled_idle idle]
    refine ⟨op, ?_⟩
    have after : { w with net }.settled = net := RxWorld.settled_idle idle
    rw [after]
    exact done
  | drive done =>
    cases RxWorld.drive_ok done with
    | enter reached =>
      left
      rw [RxWorld.settled_idle reached]
      rfl
    | leave reached _ whole =>
      -- The whole poll is one operation of the stack, and it takes effect when the loop ends.
      right
      rw [RxWorld.settled_busy (by rw [reached]; decide)]
      refine ⟨.pollRx w.round, ?_⟩
      change Prod.fst <$> pollRx cfg platform w.began w.round = .ok w.net
      rw [follows.poll reached whole]
      rfl
    | load reached | take reached | classify reached | put reached | publish reached | count reached =>
      have before : w.settled = w.began := RxWorld.settled_busy (by rw [reached]; nofun)
      exact .inl before.symm

theorem RxWorld.Follows.step {e : RxEvent} (follows : w.Follows cfg platform) (step : RxStep cfg platform w e u) :
    u.Follows cfg platform := by
  cases step with
  | device | dma => exact follows
  | other idle =>
    unfold RxWorld.Follows
    dsimp only
    rw [idle]
    trivial
  | drive done => exact follows.drives (RxWorld.drive_ok done)

/-- Whatever the device does, what the queue does to the stack is a run of its operations. -/
theorem rxQueue_refines {mac : Mac} {entries : Fin qsize → Nat × Nat} {bufs : Nat → Buffer} {es : List RxEvent}
    (run : Run (RxStep cfg platform) (.boot mac entries bufs) es w) :
    ∃ ops, Run (Step cfg platform) (.boot mac) ops w.settled := by
  have start : (RxWorld.boot mac entries bufs).Follows cfg platform ∧
      ∃ ops, Run (Step cfg platform) (.boot mac) ops (RxWorld.boot mac entries bufs).settled := ⟨trivial, [], .nil⟩
  have each (s : RxWorld) (e : RxEvent) (t : RxWorld)
      (before : s.Follows cfg platform ∧ ∃ ops, Run (Step cfg platform) (.boot mac) ops s.settled)
      (step : RxStep cfg platform s e t) :
      t.Follows cfg platform ∧ ∃ ops, Run (Step cfg platform) (.boot mac) ops t.settled := by
    obtain ⟨follows, ops, before⟩ := before
    refine ⟨follows.step step, ?_⟩
    rcases step.settles follows with same | ⟨op, next⟩
    · exact ⟨ops, same ▸ before⟩
    · exact ⟨ops ++ [op], .snoc before next⟩
  exact (run.invariant each start).2

/-- In every state the queue and the driver reach, however the device interleaves: the
descriptors are distributed over the four places, the published indices are at most
one ring apart, `take_rx_used` has returned the completions in order and lost none,
`poll_rx` does not find a leak, and its step reads no buffer but the one it holds,
which nothing writes. -/
theorem rx_descriptors_owned {mac : Mac} {entries : Fin qsize → Nat × Nat} {bufs : Nat → Buffer} {es : List RxEvent}
    (run : Run (RxStep cfg platform) (.boot mac entries bufs) es w) :
    (w.q.available ++ w.q.held ++ (w.q.completed w.net.rxSeen).map Prod.fst ++ w.pc.mine).Perm (List.range rxBufs) ∧
    (w.q.avail - w.q.used).toNat ≤ qsize ∧
    w.log = w.returned ++ w.q.completed w.net.rxSeen ∧
    (∀ now, w.drive cfg platform now ≠ .error .rxInflight) ∧
    (∀ bufs now, (∀ id ∈ w.pc.mine, bufs id = w.bufs id) →
      { w with bufs }.drive cfg platform now = (fun u => { u with bufs }) <$> w.drive cfg platform now) ∧
    ∀ id ∈ w.pc.mine, ∀ e u, RxStep cfg platform w e u → u.bufs id = w.bufs id := by
  have inv := RxInv.run run
  refine ⟨inv.owners, inv.counted.distance qsize_size, inv.log, ?_, ?_, ?_⟩
  · intro now failed
    rcases inv.drive_error failed with same | same <;> cases same
  · intro bufs now same
    exact RxWorld.drive_reads same now
  · intro id holds e u step
    exact inv.bytes holds step

end

def zeroBuffer : Buffer := ⟨List.replicate bufLen 0, List.length_replicate⟩

/-- The device takes two descriptors and completes the second first; the driver takes it. -/
theorem rx_descriptors_owned_outOfOrder : ∃ w : RxWorld,
    Run (RxStep .default qemu) (.boot guestMac (fun _ => (0, 0)) fun _ => zeroBuffer)
      [.device, .device, .device, .drive 0, .drive 0, .drive 0] w ∧
    w.pc = .holding 1 60 ∧ w.q.held = [0] ∧ w.returned = [(1, 60)] ∧
    (w.q.available ++ w.q.held ++ (w.q.completed w.net.rxSeen).map Prod.fst ++ w.pc.mine).Perm (List.range rxBufs) := by
  obtain ⟨w, run, holding, held, returned⟩ : ∃ w : RxWorld,
      Run (RxStep .default qemu) (.boot guestMac (fun _ => (0, 0)) fun _ => zeroBuffer)
        [.device, .device, .device, .drive 0, .drive 0, .drive 0] w ∧
      w.pc = .holding 1 60 ∧ w.q.held = [0] ∧ w.returned = [(1, 60)] :=
    ⟨_, .cons (.device (.take (by decide))) (.cons (.device (.take (by decide)))
      (.cons (.device (.complete 1 60 (by decide))) (.cons (.drive rfl) (.cons (.drive rfl) (.single (.drive rfl)))))),
      rfl, rfl, rfl⟩
  exact ⟨w, run, holding, held, returned, (rx_descriptors_owned run).1⟩

end Whimbrel.Net

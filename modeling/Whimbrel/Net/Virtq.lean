import Whimbrel.Net.Virtio
import Whimbrel.Net.RxQueue
import Whimbrel.Page.Require

/-! The split virtqueues and their pool (`src/virtq.rs`), from the descriptor tables to
the first RX buffers. -/

set_option autoImplicit false

namespace Whimbrel.Virtq

open Virtio Dialogue Checked Net

def txBufs : Nat := 8
def bufBytes : U32 := 2048
def descWrite : U16 := 2

structure Desc where
  addr : Usize
  len : U32
  flags : U16
  next : U16
  deriving DecidableEq, Repr

/-- The parts of a `Queue` that the kernel reads or writes here. -/
structure Queue where
  desc : Nat → Desc
  ring : Nat → U16
  availIdx : U16
  usedIdx : U16

structure Pool where
  rx : Queue
  tx : Queue

def Queue.new : Queue where
  desc := fun _ => ⟨0, 0, 0, 0⟩
  ring := fun _ => 0
  availIdx := 0
  usedIdx := 0

def Pool.new : Pool := ⟨.new, .new⟩

def Pool.queue (p : Pool) : Which → Queue
  | .rx => p.rx
  | .tx => p.tx

/-- `Q_RX` and `Q_TX`. -/
def num : Which → U32
  | .rx => 0
  | .tx => 1

/-- Where the linker put the pool, and the tables that are live. -/
structure Site where
  phys : Page.Phys
  root : Usize
  pool : Usize
  bssEnd : Usize
  stackBottom : Usize

namespace Site

variable (site : Site)

/-- `repr(C)`: 432 bytes for each queue, the descriptors first, then `avail` and `used`. -/
def area (w : Which) (a : Area) : Usize :=
  let queue := match w with
    | .rx => site.pool
    | .tx => site.pool + 432
  match a with
  | .desc => queue
  | .driver => queue + 256
  | .device => queue + 292

def rxBuf (i : Nat) : Usize := site.pool + BitVec.ofNat 64 (864 + i * 2048)
def txBuf (i : Nat) : Usize := site.pool + BitVec.ofNat 64 (33632 + i * 2048)

def poolEnd : Usize := site.pool + 53248

def inPool (addr : Usize) (len : U32) : Bool :=
  if 2 ^ 64 ≤ addr.toNat + len.toNat then false
  else site.pool ≤ addr ∧ addr + len.setWidth 64 ≤ site.poolEnd

def fillDescriptors (p : Pool) : Pool where
  rx := { p.rx with desc := fun i => if i < rxBufs then ⟨site.rxBuf i, bufBytes, descWrite, 0⟩ else p.rx.desc i }
  tx := { p.tx with desc := fun i => if i < txBufs then ⟨site.txBuf i, bufBytes, 0, 0⟩ else p.tx.desc i }

def requireRw (va : Usize) : Except Stop Unit := (Page.requireIdentityRw site.phys site.root va).mapError .panic

def requireRange (start fin : Usize) : Except Stop Unit :=
  (Page.requireIdentityRwRange site.phys site.root start fin).mapError .panic

end Site

def requireAlign (w : Which) (addr : Usize) (bytes : Nat) : Except Stop Unit :=
  if addr.toNat % bytes ≠ 0 then .error (.align w addr bytes) else .ok ()

def checkDesc (site : Site) (w : Which) (q : Queue) (filled i : Nat) : Except Stop Unit := do
  let d := q.desc i
  if i < filled then
    if d.addr = 0 ∨ !site.inPool d.addr d.len then throw (.outside w i d.addr d.len)
    site.requireRw d.addr
    if d.len ≠ 0 then site.requireRw (d.addr + d.len.setWidth 64 - 1)
  else if d.addr ≠ 0 then throw (.unused w i d.addr)

def checkQueue (site : Site) (w : Which) (q : Queue) (filled : Nat) : Except Stop Unit := do
  requireAlign w (site.area w .desc) 16
  requireAlign w (site.area w .driver) 2
  requireAlign w (site.area w .device) 4
  site.requireRange (site.area w .desc) (site.area w .desc + 256)
  site.requireRange (site.area w .driver) (site.area w .driver + 36)
  site.requireRange (site.area w .device) (site.area w .device + 132)
  if q.availIdx ≠ 0 ∨ q.usedIdx ≠ 0 then throw (.index w q.availIdx q.usedIdx)
  (List.range qsize).forM (checkDesc site w q filled)

/-- The guest's side of `verify`. -/
def checkPool (site : Site) (p : Pool) : Except Stop Unit := do
  if site.pool.toNat % pageSize ≠ 0 then throw (.poolAlign site.pool)
  site.requireRange site.pool site.poolEnd
  checkQueue site .rx p.rx rxBufs
  checkQueue site .tx p.tx txBufs

/-! ## Registers -/

/-- `OFF_QUEUE_DESC_LOW`, `OFF_QUEUE_DRIVER_LOW` and `OFF_QUEUE_DEVICE_LOW`. -/
def offLow : Area → Usize
  | .desc => offQueueDescLow
  | .driver => offQueueDriverLow
  | .device => offQueueDeviceLow

def lo (gpa : Usize) : U32 := gpa.setWidth 32
def hi (gpa : Usize) : U32 := (gpa >>> 32).setWidth 32

def writeAddr (base off gpa : Usize) : Io Unit := do
  write32 base off (lo gpa)
  write32 base (off + 4) (hi gpa)

def checkHalf (w : Which) (a : Area) (high : Bool) (want got : U32) : Io Unit :=
  if got = want then return
  else if got = 0 then return
  else .fail (.half w a high want got)

def readback (base : Usize) (w : Which) (a : Area) (gpa : Usize) : Io Unit := do
  let gotLo ← read32 base (offLow a)
  let gotHi ← read32 base (offLow a + 4)
  checkHalf w a false (lo gpa) gotLo
  checkHalf w a true (hi gpa) gotHi

def select (base : Usize) (w : Which) (when : When) : Io Unit := do
  write32 base offQueueSel (num w)
  let ready ← read32 base offQueueReady
  .failIf (ready ≠ 0) (.owned w when ready)

def writeQueueAddrs (site : Site) (base : Usize) (w : Which) : Io Unit := do
  select base w .addresses
  writeAddr base (offLow .desc) (site.area w .desc)
  writeAddr base (offLow .driver) (site.area w .driver)
  writeAddr base (offLow .device) (site.area w .device)

def readbackQueue (site : Site) (base : Usize) (w : Which) : Io Unit := do
  select base w .verify
  readback base w .desc (site.area w .desc)
  readback base w .driver (site.area w .driver)
  readback base w .device (site.area w .device)

def verify (site : Site) (p : Pool) (base : Usize) : Io Unit := do
  .lift (checkPool site p)
  readbackQueue site base .rx
  readbackQueue site base .tx

def programAddrs (site : Site) (base : Usize) : Io Unit := do
  writeQueueAddrs site base .rx
  writeQueueAddrs site base .tx

def setQueueNum (base : Usize) (w : Which) (n : U32) : Io Unit := do
  write32 base offQueueSel (num w)
  let max ← read32 base offQueueNumMax
  .failIf (max < n) (.numMax w max n)
  write32 base offQueueNum n

def setQueueReady (base : Usize) (w : Which) : Io Unit := do
  select base w .enable
  write32 base offQueueReady 1
  let got ← read32 base offQueueReady
  .failIf (got ≠ 1) (.readback w got)

def storeRing (p : Pool) (i : Nat) : Io Pool := do
  Prog.request (Access.storeRing i (BitVec.ofNat 16 i))
  return { p with rx := { p.rx with ring := Function.update p.rx.ring i (BitVec.ofNat 16 i) } }

def publishAvailIdx (p : Pool) (idx : U16) : Io Pool := do
  Prog.request Access.fenceWw
  Prog.request (Access.storeIdx idx)
  return { p with rx := { p.rx with availIdx := idx } }

def postRx (p : Pool) : Io (Pool × U16) := do
  let p ← (List.range rxBufs).foldlM storeRing p
  let idx := BitVec.ofNat 16 rxBufs
  let p ← publishAvailIdx p idx
  return (p, idx)

def notify (base : Usize) (w : Which) : Io Unit := do
  Prog.request Access.fenceWo
  write32 base offQueueNotify (num w)

def init (site : Site) (p : Pool) (net : Usize) : Io Pool := do
  .failIf (site.bssEnd + 4096 ≠ site.stackBottom) (.guardHole site.bssEnd site.stackBottom)
  let p := site.fillDescriptors p
  let base ← netBase net
  writeQueueAddrs site base .rx
  writeQueueAddrs site base .tx
  verify site p base
  return p

def Site.wants (site : Site) (q : U32) (off : Usize) : U32 :=
  let w := if q = 0 then Which.rx else Which.tx
  if off = offQueueDescLow then lo (site.area w .desc)
  else if off = offQueueDescLow + 4 then hi (site.area w .desc)
  else if off = offQueueDriverLow then lo (site.area w .driver)
  else if off = offQueueDriverLow + 4 then hi (site.area w .driver)
  else if off = offQueueDeviceLow then lo (site.area w .device)
  else hi (site.area w .device)

section
variable {site : Site} {w : Which} {a : Area}

theorem wants_lo : site.wants (num w) (offLow a) = lo (site.area w a) := by
  cases w <;> cases a <;> rfl

theorem wants_hi : site.wants (num w) (offLow a + 4) = hi (site.area w a) := by
  cases w <;> cases a <;> rfl

theorem offLow_mem : offLow a ∈ addressRegs ∧ offLow a + 4 ∈ addressRegs := by
  cases a <;> decide

def addressed (site : Site) (w : Which) (regs : U32 × Usize → Option U32) : U32 × Usize → Option U32 :=
  fun k => if k.1 = num w ∧ k.2 ∈ addressRegs then some (site.wants k.1 k.2) else regs k

theorem addressed_other {regs : U32 × Usize → Option U32} {q : U32} {off : Usize} (other : off ∉ addressRegs) :
    addressed site w regs (q, off) = regs (q, off) :=
  if_neg fun both => other both.2

def halves (site : Site) (w : Which) (a : Area) (regs : U32 × Usize → Option U32) : U32 × Usize → Option U32 :=
  Function.update (Function.update regs (num w, offLow a) (some (lo (site.area w a)))) (num w, offLow a + 4)
    (some (hi (site.area w a)))

theorem halves_apply (regs : U32 × Usize → Option U32) (k : U32 × Usize) : halves site w a regs k =
    if k.1 = num w ∧ (k.2 = offLow a ∨ k.2 = offLow a + 4) then some (site.wants k.1 k.2) else regs k := by
  obtain ⟨q, off⟩ := k
  rw [halves]
  by_cases high : (q, off) = (num w, offLow a + 4)
  · obtain ⟨rfl, rfl⟩ := Prod.mk.inj high
    rw [Function.update_self, if_pos ⟨rfl, .inr rfl⟩, wants_hi]
  rw [Function.update_of_ne high]
  by_cases low : (q, off) = (num w, offLow a)
  · obtain ⟨rfl, rfl⟩ := Prod.mk.inj low
    rw [Function.update_self, if_pos ⟨rfl, .inl rfl⟩, wants_lo]
  · rw [Function.update_of_ne low, if_neg]
    rintro ⟨rfl, rfl | rfl⟩
    · exact low rfl
    · exact high rfl

theorem addressed_eq (regs : U32 × Usize → Option U32) :
    halves site w .device (halves site w .driver (halves site w .desc regs)) = addressed site w regs := by
  funext k
  simp only [halves_apply, addressed, addressRegs, offLow, List.mem_cons, List.not_mem_nil, or_false]
  by_cases queue : k.1 = num w
  · simp only [queue, true_and]
    split
    · rename_i last
      rw [if_pos (.inr (.inr (.inr (.inr last))))]
    split
    · rename_i middle
      rw [if_pos (.inr (.inr (middle.elim .inl fun high => .inr (.inl high))))]
    split
    · rename_i first
      rw [if_pos (first.elim .inl fun high => .inr (.inl high))]
    · rename_i notLast notMiddle notFirst
      rw [if_neg]
      simp only [not_or] at notLast notMiddle notFirst ⊢
      exact ⟨notFirst.1, notFirst.2, notMiddle.1, notMiddle.2, notLast.1, notLast.2⟩
  · simp only [queue, false_and, if_false]

end

/-! ## The driver keeps to the protocol -/

/-- What the functions of a queue change of a session. -/
def on (s : Session) (sel : U32) (idle : Bool) (max : U32) (regs : U32 × Usize → Option U32) : Session :=
  { s with sel := sel, idle := idle, max := max, regs := regs }

def Moves (s : Session) (regs : U32 × Usize → Option U32) (t : Session) : Prop := ∃ sel idle max, t = on s sel idle max regs

section
variable {site : Site} {m : Option Machine} {s t u : Session} {regs regs' : U32 × Usize → Option U32} {w : Which} {a : Area}

theorem Moves.trans (first : Moves s regs t) (second : Moves t regs' u) : Moves s regs' u := by
  obtain ⟨sel, idle, max, rfl⟩ := first
  obtain ⟨sel', idle', max', rfl⟩ := second
  exact ⟨sel', idle', max', rfl⟩

theorem Moves.next {p : Io Unit} (moved : Moves s regs t) (regs' : U32 × Usize → Option U32)
    (spec : ∀ sel idle max, Upholds site.wants m (fun u _ => Moves (on s sel idle max regs) regs' u) p (on s sel idle max regs)) :
    Upholds site.wants m (fun u _ => Moves s regs' u) p t := by
  obtain ⟨sel, idle, max, rfl⟩ := id moved
  exact (spec sel idle max).mono fun u _ further => moved.trans further

theorem select_upholds {when : When} (net : s.net ≠ 0) (down : s.regs (num w, offQueueReady) = none) :
    Upholds site.wants m (fun t _ => t = on s (num w) true 0 s.regs) (select s.net w when) s := by
  rw [select]
  refine Upholds.write32 (.write net (.queueSel (by cases w <;> decide))) ?_
  refine Upholds.read32 (.read net) fun x fits => ?_
  refine Upholds.check_last ?_ fun zero => ?_
  · rintro m' rfl
    have read : x = (s.regs (num w, offQueueReady)).getD 0 := fits.ready rfl
    rw [down] at read
    exact not_not.mpr read
  · rw [Session.read_ready, not_not.mp zero]
    rfl

theorem writeAddr_upholds (net : s.net ≠ 0) (selected : s.sel = num w) (idle : s.idle = true) :
    Upholds site.wants m (fun t _ => t = { s with regs := halves site w a s.regs }) (writeAddr s.net (offLow a) (site.area w a)) s := by
  obtain ⟨low, high⟩ := @offLow_mem a
  have second : Session.Allows site.wants (s.write (offLow a) (lo (site.area w a)))
      (.write32 s.net (offLow a + 4) (site.wants s.sel (offLow a + 4))) := by
    rw [Session.write_address low]
    exact .write net (.address high idle)
  rw [selected, wants_hi] at second
  have first : Session.AllowsWrite site.wants s (offLow a) (site.wants s.sel (offLow a)) := .address low idle
  rw [selected, wants_lo] at first
  refine Upholds.write32 (.write net first) (Upholds.write32_last second ?_)
  rw [Session.write_address high, Session.write_address low, halves, ← selected]

theorem writeQueueAddrs_upholds (net : s.net ≠ 0) (down : s.regs (num w, offQueueReady) = none) :
    Upholds site.wants m (fun t _ => Moves s (addressed site w s.regs) t) (writeQueueAddrs site s.net w) s := by
  have each (regs : U32 × Usize → Option U32) (a : Area) := @writeAddr_upholds site m (on s (num w) true 0 regs) w a net rfl rfl
  refine (select_upholds net down).seq ?_
  rintro t v rfl
  refine (each _ .desc).seq ?_
  rintro t v rfl
  refine (each _ .driver).seq ?_
  rintro t v rfl
  refine Safe.mono (each _ .device) ?_
  rintro t v rfl
  rw [← addressed_eq]
  exact ⟨_, _, _, rfl⟩

theorem checkHalf_upholds {high : Bool} {want got : U32} (passes : ∀ m', m = some m' → got = 0 ∨ got = want) :
    Upholds site.wants m (fun t _ => t = s) (checkHalf w a high want got) s := by
  rw [checkHalf]
  by_cases same : got = want
  · rw [if_pos same]
    rfl
  by_cases zero : got = 0
  · rw [if_neg same, if_pos zero]
    rfl
  rw [if_neg same, if_neg zero]
  cases m with
  | none => rfl
  | some m' => exact ((passes m' rfl).elim zero same).elim

theorem readback_upholds (net : s.net ≠ 0) (selected : s.sel = num w)
    (inPlace : ∀ off ∈ addressRegs, s.regs (num w, off) = some (site.wants (num w) off)) :
    Upholds site.wants m (fun t _ => t = s) (readback s.net w a (site.area w a)) s := by
  obtain ⟨low, high⟩ := @offLow_mem a
  refine Upholds.read32 (.read net) fun x fitsLow => ?_
  rw [Session.read_address low]
  refine Upholds.read32 (.read net) fun y fitsHigh => ?_
  rw [Session.read_address high]
  have passesLow (m' : Machine) (is : m = some m') : x = 0 ∨ x = lo (site.area w a) := by
    subst is
    refine (fitsLow.address low).imp_right fun reads => ?_
    rw [selected, inPlace _ low, wants_lo] at reads
    exact (Option.some.inj reads).symm
  have passesHigh (m' : Machine) (is : m = some m') : y = 0 ∨ y = hi (site.area w a) := by
    subst is
    refine (fitsHigh.address high).imp_right fun reads => ?_
    rw [selected, inPlace _ high, wants_hi] at reads
    exact (Option.some.inj reads).symm
  refine (checkHalf_upholds passesLow).seq ?_
  rintro t v rfl
  exact checkHalf_upholds passesHigh

theorem readbackQueue_upholds (net : s.net ≠ 0) (down : s.regs (num w, offQueueReady) = none)
    (inPlace : ∀ off ∈ addressRegs, s.regs (num w, off) = some (site.wants (num w) off)) :
    Upholds site.wants m (fun t _ => Moves s s.regs t) (readbackQueue site s.net w) s := by
  refine (select_upholds net down).seq ?_
  rintro t v rfl
  have each (a : Area) := @readback_upholds site m (on s (num w) true 0 s.regs) w a net rfl inPlace
  refine (each .desc).seq ?_
  rintro t v rfl
  refine (each .driver).seq ?_
  rintro t v rfl
  refine Safe.mono (each .device) ?_
  rintro t v rfl
  exact ⟨_, _, _, rfl⟩

structure InPlace (site : Site) (regs : U32 × Usize → Option U32) : Prop where
  down : ∀ w, regs (num w, offQueueReady) = none
  addresses : ∀ w, ∀ off ∈ addressRegs, regs (num w, off) = some (site.wants (num w) off)

theorem verify_upholds {p : Pool} (sound : ∀ m', m = some m' → checkPool site p = .ok ()) (net : s.net ≠ 0) (inPlace : InPlace site s.regs) :
    Upholds site.wants m (fun t _ => Moves s s.regs t) (verify site p s.net) s := by
  refine Upholds.lift (fun m' is => ⟨(), sound m' is⟩) fun _ _ => ?_
  refine (readbackQueue_upholds net (inPlace.down .rx) (inPlace.addresses .rx)).seq fun t _ moved => ?_
  refine moved.next s.regs fun sel idle max => ?_
  exact @readbackQueue_upholds site m (on s sel idle max s.regs) .tx net (inPlace.down .tx) (inPlace.addresses .tx)

theorem addressed_inPlace (down : ∀ w, regs (num w, offQueueReady) = none) :
    InPlace site (addressed site .tx (addressed site .rx regs)) := by
  constructor
  · intro w
    rw [addressed_other (by decide), addressed_other (by decide), down]
  · intro w off mem
    have apart : num .rx ≠ num .tx := by decide
    cases w with
    | rx => rw [addressed, if_neg fun both => apart both.1, addressed, if_pos ⟨rfl, mem⟩]
    | tx => rw [addressed, if_pos ⟨rfl, mem⟩]

theorem writeTxAddrs_upholds (net : s.net ≠ 0) (down : ∀ w, s.regs (num w, offQueueReady) = none)
    (first : Moves s (addressed site .rx s.regs) t) :
    Upholds site.wants m (fun u _ => Moves s (addressed site .tx (addressed site .rx s.regs)) u) (writeQueueAddrs site s.net .tx) t := by
  have still : addressed site .rx s.regs (num .tx, offQueueReady) = none := (addressed_other (by decide)).trans (down .tx)
  refine first.next (addressed site .tx (addressed site .rx s.regs)) fun sel idle max => ?_
  exact @writeQueueAddrs_upholds site m (on s sel idle max (addressed site .rx s.regs)) .tx net still

theorem programAddrs_upholds (net : s.net ≠ 0) (down : ∀ w, s.regs (num w, offQueueReady) = none) :
    Upholds site.wants m (fun t _ => Moves s (addressed site .tx (addressed site .rx s.regs)) t) (programAddrs site s.net) s :=
  (writeQueueAddrs_upholds net (down .rx)).seq fun _ _ first => writeTxAddrs_upholds net down first

theorem setQueueNum_upholds {n : U32} (net : s.net ≠ 0) (agreed : s.Confirmed (acknowledge ||| driver ||| featuresOk) featuresOk)
    (down : s.regs (num w, offQueueReady) = none) (small : n ≤ 16) :
    Upholds site.wants m (fun t _ => Moves s (Function.update s.regs (num w, offQueueNum) (some n)) t) (setQueueNum s.net w n) s := by
  refine Upholds.write32 (.write net (.queueSel (by cases w <;> decide))) ?_
  refine Upholds.read32 (.read net) fun x fits => ?_
  refine Upholds.check ?_ fun room => ?_
  · rintro m' rfl
    exact BitVec.not_lt.mpr (BitVec.le_trans small (fits.numMax rfl))
  · exact Upholds.write32_last (.write net (.queueNum agreed (BitVec.not_lt.mp room) down)) ⟨_, _, _, rfl⟩

theorem setQueueReady_upholds (net : s.net ≠ 0) (agreed : s.Confirmed (acknowledge ||| driver ||| featuresOk) featuresOk)
    (down : s.regs (num w, offQueueReady) = none) (sized : s.regs (num w, offQueueNum) ≠ none)
    (inPlace : ∀ off ∈ addressRegs, s.regs (num w, off) = some (site.wants (num w) off)) :
    Upholds site.wants m (fun t _ => Moves s (Function.update s.regs (num w, offQueueReady) (some 1)) t) (setQueueReady s.net w) s := by
  refine (select_upholds net down).seq ?_
  rintro t v rfl
  refine Upholds.write32 (.write net (.queueReady agreed rfl sized inPlace)) ?_
  refine Upholds.read32 (.read net) fun x fits => ?_
  refine Upholds.check_last ?_ fun _ => ⟨_, _, _, rfl⟩
  rintro m' rfl
  have read := fits.ready rfl
  have wrote : (Function.update s.regs (num w, offQueueReady) (some 1)) (num w, offQueueReady) = some 1 := Function.update_self ..
  exact not_not.mpr (read.trans (congrArg (Option.getD · 0) wrote))

end

def filled (n : Nat) (ring : Nat → U16) : Nat → U16 := fun i => if i < n then BitVec.ofNat 16 i else ring i

theorem filled_succ {n : Nat} {ring : Nat → U16} : Function.update (filled n ring) n (BitVec.ofNat 16 n) = filled (n + 1) ring := by
  funext i
  rcases Nat.lt_trichotomy i n with less | rfl | more
  · rw [Function.update_of_ne (Nat.ne_of_lt less), filled, if_pos less, filled, if_pos (by omega)]
  · rw [Function.update_self, filled, if_pos (Nat.lt_succ_self i)]
  · rw [Function.update_of_ne (Nat.ne_of_gt more), filled, if_neg (by omega), filled, if_neg (by omega)]

def Pool.posted (p : Pool) (n : Nat) : Pool := { p with rx := { p.rx with ring := filled n p.rx.ring } }

section
variable {site : Site} {m : Option Machine} {s : Session} {p : Pool} {w : Which}

structure Posting (s : Session) (p : Pool) (n : Nat) (t : Session) (p' : Pool) : Prop where
  pool : p' = p.posted n
  session : ∃ ring loose, t = { s with ring := ring, loose := loose } ∧ ∀ i < n, ring i = some (BitVec.ofNat 16 i)

theorem storeRing_upholds {n : Nat} {t : Session} {p' : Pool} (unpublished : s.idx = 0) (below : n < rxBufs) (at_ : Posting s p n t p') :
    Upholds site.wants m (Posting s p (n + 1)) (storeRing p' n) t := by
  obtain ⟨rfl, ring, loose, rfl, stored⟩ := at_
  refine Safe.ask (.storeRing below unpublished) ?_
  rintro x t ⟨-, rfl⟩
  refine ⟨?_, Function.update ring n (some (BitVec.ofNat 16 n)), true, rfl, ?_⟩
  · rw [Pool.posted, Pool.posted, ← filled_succ]
  · intro i lower
    rcases Nat.lt_succ_iff_lt_or_eq.mp lower with before | rfl
    · rw [Function.update_of_ne (Nat.ne_of_lt before), stored i before]
    · rw [Function.update_self]

def Pool.live (p : Pool) : Pool := { p with rx := { p.rx with ring := filled rxBufs p.rx.ring, availIdx := 16 } }

theorem postRx_upholds (unpublished : s.idx = 0) :
    Upholds site.wants m (fun t r => r = (p.live, 16) ∧ ∃ ring, t = { s with ring := ring, loose := false, idx := 16, unseen := true } ∧
      ∀ i < rxBufs, ring i = some (BitVec.ofNat 16 i)) (postRx p) s := by
  refine Safe.seq (Safe.range (Posting s p) (fun n below t p' => storeRing_upholds unpublished below) ?_) ?_
  · exact ⟨by rw [Pool.posted]; rfl, s.ring, s.loose, rfl, fun i below => absurd below (Nat.not_lt_zero i)⟩
  · rintro t p' ⟨rfl, ring, loose, rfl, stored⟩
    refine Safe.ask .fenceWw ?_
    rintro x t ⟨-, rfl⟩
    refine Safe.ask (.storeIdx rfl stored) ?_
    rintro x t ⟨-, rfl⟩
    exact ⟨rfl, ring, rfl, stored⟩

theorem notify_upholds (net : s.net ≠ 0) (live : s.Confirmed (acknowledge ||| driver ||| featuresOk ||| driverOk) driverOk) :
    Upholds site.wants m (fun t _ => t = { s with unseen := false, rung := s.rung ++ [num w] }) (notify s.net w) s := by
  refine Safe.ask .fenceWo ?_
  rintro x t ⟨-, rfl⟩
  exact Upholds.write32_last (.write net (.queueNotify live rfl)) rfl

theorem init_upholds (guard : ∀ m', m = some m' → site.bssEnd + 4096 = site.stackBottom)
    (sound : ∀ m', m = some m' → checkPool site (site.fillDescriptors p) = .ok ()) (net : s.net ≠ 0)
    (down : ∀ w, s.regs (num w, offQueueReady) = none) :
    Upholds site.wants m (fun t p' => p' = site.fillDescriptors p ∧ Moves s (addressed site .tx (addressed site .rx s.regs)) t)
      (init site p s.net) s := by
  refine Upholds.check ?_ fun _ => ?_
  · intro m' is
    exact not_not.mpr (guard m' is)
  refine (netBase_upholds net).seq ?_
  rintro s base ⟨rfl, rfl⟩
  refine (writeQueueAddrs_upholds net (down .rx)).seq fun t _ first => ?_
  refine (writeTxAddrs_upholds net down first).seq fun u _ both => ?_
  refine Safe.seq (both.next _ fun sel idle max => ?_) fun u _ moved => ⟨rfl, moved⟩
  exact @verify_upholds site m (on s sel idle max (addressed site .tx (addressed site .rx s.regs))) _ sound net (addressed_inPlace down)

end

/-! ## The pool passes its own checks -/

/-- The pool on a page boundary, mapped for the kernel to read and write. -/
structure Site.Sound (site : Site) : Prop where
  aligned : site.pool.toNat % pageSize = 0
  low : site.pool.toNat + 53248 ≤ 2 ^ 38
  mapped : ∀ va, site.pool.toNat ≤ va.toNat → va.toNat < site.pool.toNat + 53248 → Page.kernelRw.Meets site.phys site.root va
  guard : site.bssEnd + 4096 = site.stackBottom

def areaAt : Which → Area → Nat
  | .rx, .desc => 0
  | .rx, .driver => 256
  | .rx, .device => 292
  | .tx, .desc => 432
  | .tx, .driver => 688
  | .tx, .device => 724

def areaBytes : Area → Nat
  | .desc => 256
  | .driver => 36
  | .device => 132

section
variable {site : Site} {w : Which} {a : Area} {p : Pool}

theorem Site.Sound.toNat_add (sound : site.Sound) {k : Nat} (inside : k ≤ 53248) :
    (site.pool + BitVec.ofNat 64 k).toNat = site.pool.toNat + k := by
  have low := sound.low
  rw [BitVec.toNat_add, BitVec.toNat_ofNat]
  omega

theorem area_eq : site.area w a = site.pool + BitVec.ofNat 64 (areaAt w a) := by
  cases w <;> cases a
  · exact (BitVec.add_zero site.pool).symm
  · rfl
  · rfl
  · rfl
  · exact BitVec.add_assoc ..
  · exact BitVec.add_assoc ..

theorem Site.Sound.rw (sound : site.Sound) {va : Usize} (lower : site.pool.toNat ≤ va.toNat) (upper : va.toNat < site.pool.toNat + 53248) :
    site.requireRw va = .ok () := by
  rw [Site.requireRw, Page.requireIdentityRw_iff.mpr (sound.mapped va lower upper)]
  rfl

theorem Site.Sound.range (sound : site.Sound) {start fin : Usize} (lower : site.pool.toNat ≤ start.toNat)
    (upper : fin.toNat ≤ site.pool.toNat + 53248) : site.requireRange start fin = .ok () := by
  have low := sound.low
  have meets : Page.requireIdentityRwRange site.phys site.root start fin = .ok () := by
    refine (Page.requireIdentityRwRange_iff (by omega)).mpr fun va above below => ?_
    have up := BitVec.le_def.mp above
    have down := BitVec.lt_def.mp below
    exact sound.mapped va (by omega) (by omega)
  rw [Site.requireRange, meets]
  rfl

theorem buffer_end {k : Nat} : site.pool + BitVec.ofNat 64 k + bufBytes.setWidth 64 = site.pool + BitVec.ofNat 64 (k + 2048) := by
  rw [BitVec.ofNat_add, ← BitVec.add_assoc]
  rfl

theorem Site.Sound.inPool (sound : site.Sound) {k : Nat} (inside : k + 2048 ≤ 53248) :
    site.inPool (site.pool + BitVec.ofNat 64 k) bufBytes = true := by
  have low := sound.low
  have len : bufBytes.toNat = 2048 := rfl
  have start := sound.toNat_add (k := k) (by omega)
  have stop := sound.toNat_add (k := k + 2048) inside
  have fin : site.poolEnd.toNat = site.pool.toNat + 53248 := sound.toNat_add (k := 53248) (Nat.le_refl _)
  rw [Site.inPool, if_neg (by omega), buffer_end]
  exact decide_eq_true ⟨BitVec.le_def.mpr (by omega), BitVec.le_def.mpr (by omega)⟩

theorem checkDesc_buffer (sound : site.Sound) {q : Queue} {filled i k : Nat} {flags : U16} (lower : i < filled)
    (is : q.desc i = ⟨site.pool + BitVec.ofNat 64 k, bufBytes, flags, 0⟩) (first : 0 < k) (last : k + 2048 ≤ 53248) :
    checkDesc site w q filled i = .ok () := by
  have low := sound.low
  have start := sound.toNat_add (k := k) (by omega)
  have there : site.pool + BitVec.ofNat 64 k ≠ 0 := by
    intro zero
    rw [zero] at start
    change 0 = _ at start
    omega
  have final : (site.pool + BitVec.ofNat 64 k + bufBytes.setWidth 64 - 1).toNat = site.pool.toNat + k + 2047 := by
    have one : (1 : Usize).toNat = 1 := rfl
    have whole := sound.toNat_add (k := k + 2048) last
    rw [buffer_end, BitVec.toNat_sub_of_le (BitVec.le_def.mpr (by omega)), whole, one]
    omega
  rw [checkDesc, is]
  dsimp only
  rw [if_pos lower, if_neg (by simp only [there, sound.inPool last, Bool.not_true, Bool.false_eq_true, or_false, not_false_eq_true]),
    sound.rw (by omega) (by omega), if_pos (by decide), sound.rw (by omega) (by omega)]
  rfl

theorem checkDesc_unused {q : Queue} {filled i : Nat} (upper : filled ≤ i) (is : (q.desc i).addr = 0) :
    checkDesc site w q filled i = .ok () := by
  rw [checkDesc, if_neg (Nat.not_lt.mpr upper), if_neg (not_not.mpr is)]
  rfl

theorem checkQueue_ok (sound : site.Sound) {q : Queue} {filled : Nat} (idle : q.availIdx = 0 ∧ q.usedIdx = 0)
    (each : ∀ i < qsize, checkDesc site w q filled i = .ok ()) : checkQueue site w q filled = .ok () := by
  have ranges (a : Area) : site.requireRange (site.area w a) (site.area w a + BitVec.ofNat 64 (areaBytes a)) = .ok () := by
    have inside : areaAt w a + areaBytes a ≤ 53248 := by cases w <;> cases a <;> decide
    have start := sound.toNat_add (k := areaAt w a) (by omega)
    have stop := sound.toNat_add (k := areaAt w a + areaBytes a) inside
    rw [area_eq, BitVec.add_assoc, ← BitVec.ofNat_add]
    exact sound.range (by omega) (by omega)
  have aligns (a : Area) (bytes : Nat) (fits : pageSize % bytes = 0 ∧ areaAt w a % bytes = 0) :
      requireAlign w (site.area w a) bytes = .ok () := by
    have inside : areaAt w a ≤ 53248 := by cases w <;> cases a <;> decide
    have pages : bytes ∣ site.pool.toNat := (Nat.dvd_of_mod_eq_zero fits.1).trans (Nat.dvd_of_mod_eq_zero sound.aligned)
    have multiple : bytes ∣ (site.area w a).toNat := by
      rw [area_eq, sound.toNat_add inside]
      exact Nat.dvd_add pages (Nat.dvd_of_mod_eq_zero fits.2)
    exact if_neg (not_not.mpr (Nat.mod_eq_zero_of_dvd multiple))
  refine seq_ok.mpr ⟨aligns .desc 16 (by cases w <;> decide), ?_⟩
  refine seq_ok.mpr ⟨aligns .driver 2 (by cases w <;> decide), ?_⟩
  refine seq_ok.mpr ⟨aligns .device 4 (by cases w <;> decide), ?_⟩
  refine seq_ok.mpr ⟨ranges .desc, seq_ok.mpr ⟨ranges .driver, seq_ok.mpr ⟨ranges .device, ?_⟩⟩⟩
  rw [if_neg (by simp only [idle, ne_eq, not_true_eq_false, or_false, not_false_eq_true])]
  exact forM_ok fun i mem => each i (List.mem_range.mp mem)

theorem checkPool_ok (sound : site.Sound) (idle : ∀ w, (p.queue w).availIdx = 0 ∧ (p.queue w).usedIdx = 0)
    (unused : ∀ i, (p.tx.desc i).addr = 0) : checkPool site (site.fillDescriptors p) = .ok () := by
  have fin : site.poolEnd.toNat = site.pool.toNat + 53248 := sound.toNat_add (k := 53248) (Nat.le_refl _)
  have rx : checkQueue site .rx (site.fillDescriptors p).rx rxBufs = .ok () := by
    refine checkQueue_ok sound (idle .rx) fun i below => ?_
    have bound : i < 16 := below
    exact checkDesc_buffer sound below (if_pos below) (by omega) (by omega)
  have tx : checkQueue site .tx (site.fillDescriptors p).tx txBufs = .ok () := by
    refine checkQueue_ok sound (idle .tx) fun i below => ?_
    by_cases used : i < txBufs
    · have bound : i < 8 := used
      exact checkDesc_buffer sound used (if_pos used) (by omega) (by omega)
    · refine checkDesc_unused (Nat.not_lt.mp used) ?_
      change Desc.addr (if i < txBufs then _ else _) = 0
      rw [if_neg used]
      exact unused i
  rw [checkPool, if_neg (not_not.mpr sound.aligned), sound.range (Nat.le_refl _) (Nat.le_of_eq fin), rx, tx]
  rfl

end

end Whimbrel.Virtq

import Mathlib.Logic.Function.Basic
import Whimbrel.Lib.Dialogue
import Whimbrel.Layout

/-! The virtio-mmio transports (`src/virtio.rs`): the accesses a device sees, the
probe, and the protocol between driver and device.

The driver is a program that asks: every volatile access and every fence is a
request, in program order. `Session` is what a log of requests and answers says about
the transport in use, and `Session.Allows` what the driver may do next. -/

set_option autoImplicit false

namespace Whimbrel.Virtio

open Dialogue

inductive Access where
  | read32 (base off : Usize)
  | read8 (base off : Usize)
  | write32 (base off : Usize) (val : U32)
  /-- A store to the RX queue's `avail.ring`. -/
  | storeRing (slot : Nat) (desc : U16)
  /-- The store to the RX queue's `avail.idx`. -/
  | storeIdx (idx : U16)
  | fenceWw
  | fenceWo
  deriving DecidableEq, Repr

@[reducible] def Access.Answer : Access → Type
  | .read32 .. => U32
  | .read8 .. => U8
  | _ => Unit

inductive Which where
  | rx
  | tx
  deriving DecidableEq, Repr

inductive Area where
  | desc
  | driver
  | device
  deriving DecidableEq, Repr

/-- Where a queue must not be ready yet. -/
inductive When where
  | addresses
  | verify
  | enable
  deriving DecidableEq, Repr

inductive Stop where
  | panic (why : Panic)
  | magic (slot : Nat) (got : U32)
  | version (slot : Nat) (got : U32)
  | noNet
  | noProbe
  | guardHole (bssEnd stackBottom : Usize)
  | poolAlign (pool : Usize)
  | align (queue : Which) (addr : Usize) (bytes : Nat)
  | index (queue : Which) (avail used : U16)
  | outside (queue : Which) (desc : Nat) (addr : Usize) (len : U32)
  | unused (queue : Which) (desc : Nat) (addr : Usize)
  | owned (queue : Which) (when : When) (ready : U32)
  | half (queue : Which) (area : Area) (high : Bool) (want got : U32)
  | numMax (queue : Which) (max want : U32)
  | readback (queue : Which) (ready : U32)
  | failed (got wrote : U32)
  | needsReset (got wrote : U32)
  | reset (got : U32)
  | noMac (word : U32)
  | noVersion1 (word : U32)
  | featuresOk (got : U32)
  | driverOk (got : U32)
  | zeroMac
  deriving DecidableEq, Repr

abbrev Io := Prog Access Access.Answer Stop

def magic : U32 := 0x74726976
def versionModern : U32 := 2
def deviceNet : U32 := 1
def nTransports : Nat := 8
def stride : Nat := 0x1000

def offMagic : Usize := 0x000
def offVersion : Usize := 0x004
def offDeviceId : Usize := 0x008
def offDeviceFeatures : Usize := 0x010
def offDeviceFeaturesSel : Usize := 0x014
def offDriverFeatures : Usize := 0x020
def offDriverFeaturesSel : Usize := 0x024
def offQueueSel : Usize := 0x030
def offQueueNumMax : Usize := 0x034
def offQueueNum : Usize := 0x038
def offQueueReady : Usize := 0x044
def offQueueNotify : Usize := 0x050
def offStatus : Usize := 0x070
def offQueueDescLow : Usize := 0x080
def offQueueDriverLow : Usize := 0x090
def offQueueDeviceLow : Usize := 0x0a0
def offConfig : Usize := 0x100

def read32 (base off : Usize) : Io U32 := Prog.request (Access.read32 base off)
def read8 (base off : Usize) : Io U8 := Prog.request (Access.read8 base off)
def write32 (base off : Usize) (val : U32) : Io Unit := Prog.request (Access.write32 base off val)

def transport (i : Nat) : Usize := BitVec.ofNat 64 (mmioBase + i * stride)

def probeSlot (found : Option Nat) (i : Nat) : Io (Option Nat) := do
  let base := transport i
  let m ← read32 base offMagic
  .failIf (m ≠ magic) (.magic i m)
  let v ← read32 base offVersion
  .failIf (v ≠ versionModern) (.version i v)
  let device ← read32 base offDeviceId
  return if device = deviceNet then some i else found

/-- `probe`, with `NET_BASE` as its result. -/
def probe : Io Usize := do
  match ← (List.range nTransports).foldlM probeSlot none with
  | some n => return transport n
  | none => .fail .noNet

def netBase (base : Usize) : Io Usize := do
  .failIf (base = 0) .noProbe
  return base

def acknowledge : U32 := 1
def driver : U32 := 2
def driverOk : U32 := 4
def featuresOk : U32 := 8
def needsReset : U32 := 64
def failed : U32 := 128
def fMac : U32 := 1 <<< 5
def fVersion1 : U32 := 1 <<< 0

/-! ## The protocol -/

/-- What the log of a transport says. -/
structure Session where
  /-- The transport whose magic was read last, if it was right. -/
  named : Option Usize
  /-- The transport whose version was read last, if it was the modern one. -/
  modern : Option Usize
  /-- The last transport found to be a network device. -/
  net : Usize
  /-- The status as written, and as read since. -/
  status : U32
  told : Option U32
  deviceSel : U32
  driverSel : U32
  /-- Feature words as read and as written since the reset. -/
  offered : U32 → U32
  taken : U32 → Option U32
  /-- The selected queue, whether it was read as not ready since, and the largest size it can have. -/
  sel : U32
  idle : Bool
  max : U32
  /-- Queue registers as written since the reset. -/
  regs : U32 × Usize → Option U32
  /-- The RX queue's avail ring, and whether a store to it is not yet fenced. -/
  ring : Nat → Option U16
  loose : Bool
  idx : U16
  /-- `avail.idx` was stored and not yet fenced. -/
  unseen : Bool
  /-- Doorbells, oldest first. -/
  rung : List U32

def Session.fresh : Session where
  named := none
  modern := none
  net := 0
  status := 0
  told := none
  deviceSel := 0
  driverSel := 0
  offered := fun _ => 0
  taken := fun _ => none
  sel := 0
  idle := false
  max := 0
  regs := fun _ => none
  ring := fun _ => none
  loose := false
  idx := 0
  unseen := false
  rung := []

def Session.read (s : Session) (base off : Usize) (x : U32) : Session :=
  if off = offMagic then { s with named := if x = magic then some base else none }
  else if off = offVersion then { s with modern := if x = versionModern then some base else none }
  else if off = offDeviceId then { s with net := if x = deviceNet then base else s.net }
  else if off = offStatus then { s with told := some x }
  else if off = offDeviceFeatures then { s with offered := Function.update s.offered s.deviceSel x }
  else if off = offQueueReady then { s with idle := x = 0 }
  else if off = offQueueNumMax then { s with max := x }
  else s

/-- A reset forgets features and queue registers. -/
def Session.reset (s : Session) : Session :=
  { s with status := 0, told := none, offered := fun _ => 0, taken := fun _ => none, idle := false, max := 0, regs := fun _ => none }

def Session.write (s : Session) (off : Usize) (v : U32) : Session :=
  if off = offStatus then if v = 0 then s.reset else { s with status := v, told := none }
  else if off = offDeviceFeaturesSel then { s with deviceSel := v }
  else if off = offDriverFeaturesSel then { s with driverSel := v }
  else if off = offDriverFeatures then { s with taken := Function.update s.taken s.driverSel (some v) }
  else if off = offQueueSel then { s with sel := v, idle := false, max := 0 }
  else if off = offQueueNotify then { s with rung := s.rung ++ [v] }
  else if off = offQueueReady then { s with regs := Function.update s.regs (s.sel, off) (some v), idle := false }
  else { s with regs := Function.update s.regs (s.sel, off) (some v) }

def addressRegs : List Usize :=
  [offQueueDescLow, offQueueDescLow + 4, offQueueDriverLow, offQueueDriverLow + 4, offQueueDeviceLow, offQueueDeviceLow + 4]

section
variable (s : Session) (base : Usize) (x : U32)

theorem Session.read_magic : s.read base offMagic x = { s with named := if x = magic then some base else none } := rfl
theorem Session.read_version : s.read base offVersion x = { s with modern := if x = versionModern then some base else none } := rfl
theorem Session.read_deviceId : s.read base offDeviceId x = { s with net := if x = deviceNet then base else s.net } := rfl
theorem Session.read_ready : s.read base offQueueReady x = { s with idle := x = 0 } := rfl

end

theorem Session.read_address {s : Session} {base off : Usize} {x : U32} (address : off ∈ addressRegs) : s.read base off x = s := by
  simp only [addressRegs, List.mem_cons, List.not_mem_nil, or_false] at address
  rcases address with rfl | rfl | rfl | rfl | rfl | rfl <;> rfl

theorem Session.write_address {s : Session} {off : Usize} {v : U32} (address : off ∈ addressRegs) :
    s.write off v = { s with regs := Function.update s.regs (s.sel, off) (some v) } := by
  simp only [addressRegs, List.mem_cons, List.not_mem_nil, or_false] at address
  rcases address with rfl | rfl | rfl | rfl | rfl | rfl <;> rfl

def Session.record (s : Session) : (r : Access) → r.Answer → Session
  | .read32 base off, x => s.read base off x
  | .read8 .., _ => s
  | .write32 _ off v, _ => s.write off v
  | .storeRing slot desc, _ => { s with ring := Function.update s.ring slot (some desc), loose := true }
  | .storeIdx idx, _ => { s with idx := idx, unseen := true }
  | .fenceWw, _ => { s with loose := false }
  | .fenceWo, _ => { s with unseen := false }

/-- The device has answered to the status `st` with `bits` set and no failure. -/
def Session.Confirmed (s : Session) (st bits : U32) : Prop :=
  s.status = st ∧ ∃ t, s.told = some t ∧ t &&& bits = bits ∧ t &&& failed = 0 ∧ t &&& needsReset = 0

/-- The next status. No bit is set on a device that reported a failure. -/
inductive Session.Advances (s : Session) : U32 → Prop where
  | reset : s.Advances 0
  | acknowledge : s.status = 0 → s.told = some 0 → s.Advances acknowledge
  | driver : s.Confirmed acknowledge 0 → s.Advances (acknowledge ||| driver)
  /-- Both feature words are chosen. -/
  | featuresOk : s.Confirmed (acknowledge ||| driver) 0 → s.taken 0 ≠ none → s.taken 1 ≠ none →
      s.Advances (acknowledge ||| driver ||| featuresOk)
  /-- Both queues are ready. -/
  | driverOk : s.Confirmed (acknowledge ||| driver ||| featuresOk) featuresOk → s.regs (0, offQueueReady) = some 1 →
      s.regs (1, offQueueReady) = some 1 → s.Advances (acknowledge ||| driver ||| featuresOk ||| driverOk)

/-- What the driver may write to the transport, where queue `q` is to have `wants q` in its address registers. -/
inductive Session.AllowsWrite (wants : U32 → Usize → U32) (s : Session) : Usize → U32 → Prop where
  | status {v : U32} : s.Advances v → s.AllowsWrite wants offStatus v
  | deviceSel {v : U32} : s.AllowsWrite wants offDeviceFeaturesSel v
  | driverSel {v : U32} : s.AllowsWrite wants offDriverFeaturesSel v
  /-- Only what was offered, and before FEATURES_OK. -/
  | features {v : U32} : s.status = acknowledge ||| driver → v &&& ~~~s.offered s.driverSel = 0 →
      s.AllowsWrite wants offDriverFeatures v
  | queueSel {v : U32} : v ≤ 1 → s.AllowsWrite wants offQueueSel v
  | queueNum {v : U32} : s.Confirmed (acknowledge ||| driver ||| featuresOk) featuresOk → v ≤ s.max →
      s.regs (s.sel, offQueueReady) = none → s.AllowsWrite wants offQueueNum v
  /-- The addresses of a queue that the device does not own. -/
  | address {off : Usize} : off ∈ addressRegs → s.idle → s.AllowsWrite wants off (wants s.sel off)
  /-- A queue is enabled once, with its size and addresses in place. -/
  | queueReady : s.Confirmed (acknowledge ||| driver ||| featuresOk) featuresOk → s.idle → s.regs (s.sel, offQueueNum) ≠ none →
      (∀ off ∈ addressRegs, s.regs (s.sel, off) = some (wants s.sel off)) → s.AllowsWrite wants offQueueReady 1
  /-- A doorbell, on a live device that can see what was published. -/
  | queueNotify {q : U32} : s.Confirmed (acknowledge ||| driver ||| featuresOk ||| driverOk) driverOk → s.unseen = false →
      s.AllowsWrite wants offQueueNotify q

inductive Session.Allows (wants : U32 → Usize → U32) (s : Session) : Access → Prop where
  | magic {i : Nat} : i < nTransports → s.Allows wants (.read32 (transport i) offMagic)
  | version {base : Usize} : s.named = some base → s.Allows wants (.read32 base offVersion)
  | deviceId {base : Usize} : s.named = some base → s.modern = some base → s.Allows wants (.read32 base offDeviceId)
  | read {off : Usize} : s.net ≠ 0 → s.Allows wants (.read32 s.net off)
  /-- The address is there once `NET_F_MAC` is agreed on. -/
  | config {off : Usize} {w : U32} : s.net ≠ 0 → s.Confirmed (acknowledge ||| driver ||| featuresOk ||| driverOk) driverOk →
      s.taken 0 = some w → w &&& fMac ≠ 0 → s.Allows wants (.read8 s.net off)
  | write {off : Usize} {v : U32} : s.net ≠ 0 → s.AllowsWrite wants off v → s.Allows wants (.write32 s.net off v)
  /-- The ring is filled before it is published, -/
  | storeRing {slot : Nat} {desc : U16} : slot < 16 → s.idx = 0 → s.Allows wants (.storeRing slot desc)
  /-- and what is published was stored before a fence. -/
  | storeIdx {idx : U16} : s.loose = false → (∀ i < idx.toNat, s.ring i = some (BitVec.ofNat 16 i)) → s.Allows wants (.storeIdx idx)
  | fenceWw : s.Allows wants .fenceWw
  | fenceWo : s.Allows wants .fenceWo

/-! ## Devices that go along -/

/-- A machine with modern transports only: what each of them is, and the configuration bytes of the network device. -/
structure Machine where
  id : Nat → U32
  config : Usize → U8

def Machine.mac (m : Machine) : Mac :=
  ⟨m.config offConfig, m.config (offConfig + 1), m.config (offConfig + 2), m.config (offConfig + 3), m.config (offConfig + 4),
    m.config (offConfig + 5)⟩

/-- A register that reads `x`, on such a machine: its network device accepts what a driver chooses, has room for the
queues and offers `NET_F_MAC` and `VERSION_1`. Its address registers may be write-only and read as zero. -/
structure Machine.Reads (m : Machine) (s : Session) (base off : Usize) (x : U32) : Prop where
  magic : off = offMagic → x = magic
  version : off = offVersion → x = versionModern
  deviceId : off = offDeviceId → ∀ i < nTransports, base = transport i → x = m.id i
  status : off = offStatus → x = s.status
  mac : off = offDeviceFeatures → s.deviceSel = 0 → x &&& fMac ≠ 0
  version1 : off = offDeviceFeatures → s.deviceSel = 1 → x &&& fVersion1 ≠ 0
  numMax : off = offQueueNumMax → 16 ≤ x
  ready : off = offQueueReady → x = (s.regs (s.sel, off)).getD 0
  address : off ∈ addressRegs → x = 0 ∨ s.regs (s.sel, off) = some x

def Machine.Fits (m : Machine) (s : Session) : (r : Access) → r.Answer → Prop
  | .read32 base off, x => m.Reads s base off x
  | .read8 _ off, x => x = m.config off
  | _, _ => True

/-- Answers of such a machine, with write-only address registers. -/
def Machine.answer (m : Machine) (s : Session) : (r : Access) → r.Answer
  | .read32 base off =>
    if off = offMagic then Virtio.magic
    else if off = offVersion then versionModern
    else if off = offDeviceId then m.id ((base.toNat - mmioBase) / stride)
    else if off = offStatus then s.status
    else if off = offDeviceFeatures then if s.deviceSel = 0 then fMac else fVersion1
    else if off = offQueueNumMax then 1024
    else if off = offQueueReady then (s.regs (s.sel, off)).getD 0
    else 0
  | .read8 _ off => m.config off
  | .write32 .. => ()
  | .storeRing .. => ()
  | .storeIdx .. => ()
  | .fenceWw => ()
  | .fenceWo => ()

theorem toNat_transport {i : Nat} (inside : i < nTransports) : (transport i).toNat = mmioBase + i * stride := by
  rw [nTransports] at inside
  rw [transport, BitVec.toNat_ofNat, mmioBase, stride]
  omega

theorem Machine.answer_fits (m : Machine) (s : Session) (r : Access) : m.Fits s r (m.answer s r) := by
  cases r with
  | read32 base off =>
    constructor
    case magic | version | status | ready =>
      rintro rfl
      rfl
    case deviceId =>
      rintro rfl i below rfl
      have slot : ((transport i).toNat - mmioBase) / stride = i := by
        rw [toNat_transport below, Nat.add_sub_cancel_left, Nat.mul_div_cancel _ (by decide)]
      exact congrArg m.id slot
    case mac =>
      rintro rfl first
      change (if s.deviceSel = 0 then fMac else fVersion1) &&& fMac ≠ 0
      rw [if_pos first]
      decide
    case version1 =>
      rintro rfl second
      change (if s.deviceSel = 0 then fMac else fVersion1) &&& fVersion1 ≠ 0
      rw [second]
      decide
    case numMax =>
      rintro rfl
      change (16 : U32) ≤ 1024
      decide
    case address =>
      intro address
      left
      simp only [addressRegs, List.mem_cons, List.not_mem_nil, or_false] at address
      rcases address with rfl | rfl | rfl | rfl | rfl | rfl <;> rfl
  | read8 base off => rfl
  | write32 base off v => trivial
  | storeRing slot desc => trivial
  | storeIdx idx => trivial
  | fenceWw => trivial
  | fenceWo => trivial

def Fits : Option Machine → Session → (r : Access) → r.Answer → Prop
  | none, _, _, _ => True
  | some m, s, r, x => m.Fits s r x

/-- The driver keeps to the protocol, and stops only if the answers are not those of a machine. -/
abbrev Upholds {V : Type} (wants : U32 → Usize → U32) (m : Option Machine) (good : Session → V → Prop) (p : Io V) (s : Session) : Prop :=
  Safe (recorded Session.record (Fits m)) (Session.Allows wants) (fun _ => m = none) good p s

section
variable {V W : Type} {wants : U32 → Usize → U32} {m : Option Machine} {s : Session} {goal : Session → W → Prop} {base off : Usize}

theorem Upholds.read32 {f : U32 → Io W} (allowed : s.Allows wants (.read32 base off))
    (next : ∀ x, Fits m s (.read32 base off) x → Upholds wants m goal (f x) (s.read base off x)) :
    Upholds wants m goal (Virtio.read32 base off >>= f) s := by
  refine Safe.ask allowed ?_
  rintro x s' ⟨fits, rfl⟩
  exact next x fits

theorem Upholds.write32 {v : U32} {f : Unit → Io W} (allowed : s.Allows wants (.write32 base off v))
    (next : Upholds wants m goal (f ()) (s.write off v)) : Upholds wants m goal (Virtio.write32 base off v >>= f) s := by
  refine Safe.ask allowed ?_
  rintro x s' ⟨-, rfl⟩
  exact next

theorem Upholds.write32_last {v : U32} {goal : Session → Unit → Prop} (allowed : s.Allows wants (.write32 base off v))
    (done : goal (s.write off v) ()) : Upholds wants m goal (Virtio.write32 base off v) s := by
  refine ⟨allowed, ?_⟩
  rintro x s' ⟨-, rfl⟩
  exact done

theorem Upholds.lift {r : Except Stop V} {f : V → Io W} (passes : ∀ m', m = some m' → ∃ v, r = .ok v)
    (next : ∀ v, r = .ok v → Upholds wants m goal (f v) s) : Upholds wants m goal (Prog.lift r >>= f) s := by
  cases r with
  | ok v => exact next v rfl
  | error e =>
    cases m with
    | none => rfl
    | some m' =>
      obtain ⟨v, done⟩ := passes m' rfl
      cases done

theorem Upholds.check_last {c : Prop} [Decidable c] {e : Stop} {goal : Session → Unit → Prop} (passes : ∀ m', m = some m' → ¬ c)
    (done : ¬ c → goal s ()) : Upholds wants m goal (Prog.failIf c e) s := by
  refine Safe.failIf (fun fails => ?_) done
  cases m with
  | none => rfl
  | some m' => exact absurd fails (passes m' rfl)

theorem Upholds.check {c : Prop} [Decidable c] {e : Stop} {f : Unit → Io W} (passes : ∀ m', m = some m' → ¬ c)
    (next : ¬ c → Upholds wants m goal (f ()) s) : Upholds wants m goal (Prog.failIf c e >>= f) s := by
  have checked : Upholds wants m (fun t _ => t = s ∧ ¬ c) (Prog.failIf c e) s := Upholds.check_last passes fun passed => ⟨rfl, passed⟩
  refine checked.seq ?_
  rintro t v ⟨rfl, passed⟩
  exact next passed

end

theorem netBase_upholds {wants : U32 → Usize → U32} {m : Option Machine} {s : Session} {base : Usize} (found : base ≠ 0) :
    Upholds wants m (fun t b => t = s ∧ b = base) (netBase base) s :=
  Upholds.check (fun _ _ => found) fun _ => ⟨rfl, rfl⟩

/-- `found` is the last network device among the first `k` transports. -/
def Machine.Last (m : Machine) (k : Nat) : Option Nat → Prop
  | none => ∀ i < k, m.id i ≠ deviceNet
  | some i => i < k ∧ m.id i = deviceNet ∧ ∀ j, i < j → j < k → m.id j ≠ deviceNet

def Session.probed (s : Session) (named modern : Option Usize) (net : Usize) : Session :=
  { s with named := named, modern := modern, net := net }

theorem Machine.Last.step {m : Machine} {k : Nat} {found : Option Nat} (last : m.Last k found) :
    m.Last (k + 1) (if m.id k = deviceNet then some k else found) := by
  split
  · rename_i net
    exact ⟨Nat.lt_succ_self k, net, fun j above below => absurd below (by omega)⟩
  · rename_i other
    cases found with
    | none =>
      intro i below
      rcases Nat.lt_succ_iff_lt_or_eq.mp below with before | rfl
      · exact last i before
      · exact other
    | some i =>
      refine ⟨Nat.lt_succ_of_lt last.1, last.2.1, fun j above below => ?_⟩
      rcases Nat.lt_succ_iff_lt_or_eq.mp below with before | rfl
      · exact last.2.2 j above before
      · exact other

theorem transport_ne_zero {i : Nat} (inside : i < nTransports) : transport i ≠ 0 := by
  intro zero
  have value := congrArg BitVec.toNat zero
  rw [toNat_transport inside, mmioBase] at value
  change _ = 0 at value
  omega

section
variable {wants : U32 → Usize → U32} {m : Option Machine} {s : Session}

structure Probing (m : Option Machine) (s : Session) (k : Nat) (t : Session) (found : Option Nat) : Prop where
  session : ∃ named modern, t = s.probed named modern ((found.map transport).getD s.net)
  inside : ∀ i, found = some i → i < nTransports
  last : ∀ m', m = some m' → m'.Last k found

theorem probeSlot_upholds {k : Nat} {t : Session} {found : Option Nat} (below : k < nTransports) (at_ : Probing m s k t found) :
    Upholds wants m (Probing m s (k + 1)) (probeSlot found k) t := by
  obtain ⟨⟨named, modern, rfl⟩, inside, last⟩ := at_
  rw [probeSlot]
  refine Upholds.read32 (.magic below) fun x fits => ?_
  refine Upholds.check ?_ fun right => ?_
  · rintro m' rfl
    exact not_not.mpr (fits.magic rfl)
  rw [Session.read_magic, if_pos (not_not.mp right)]
  refine Upholds.read32 (.version rfl) fun x fits => ?_
  refine Upholds.check ?_ fun right => ?_
  · rintro m' rfl
    exact not_not.mpr (fits.version rfl)
  rw [Session.read_version, if_pos (not_not.mp right)]
  refine Upholds.read32 (.deviceId rfl rfl) fun x fits => ?_
  rw [Session.read_deviceId]
  refine ⟨⟨some (transport k), some (transport k), ?_⟩, ?_, ?_⟩
  · by_cases net : x = deviceNet
    · rw [if_pos net, if_pos net]
      rfl
    · rw [if_neg net, if_neg net]
      rfl
  · intro i
    split
    · rintro ⟨⟩
      exact below
    · exact inside i
  · rintro m' rfl
    -- A later network device takes the place of an earlier one.
    obtain rfl : x = m'.id k := fits.deviceId rfl k below rfl
    exact (last m' rfl).step

/-- The probe reads magic, version and device id of each transport in this order, and finds the last network device. -/
theorem probe_upholds {W : Type} {goal : Session → W → Prop} {f : Usize → Io W} (net : ∀ m', m = some m' → ∃ i < nTransports, m'.id i = deviceNet)
    (next : ∀ i < nTransports, (∀ m', m = some m' → m'.Last nTransports (some i)) → ∀ named modern,
      Upholds wants m goal (f (transport i)) (s.probed named modern (transport i))) : Upholds wants m goal (probe >>= f) s := by
  have found : Upholds wants m (fun t base => ∃ i < nTransports, base = transport i ∧
      (∀ m', m = some m' → m'.Last nTransports (some i)) ∧ ∃ named modern, t = s.probed named modern base) probe s := by
    rw [probe]
    refine Safe.seq (Safe.range (Probing m s) (fun k below t found => probeSlot_upholds below) ?_) fun t found at_ => ?_
    · exact ⟨⟨s.named, s.modern, rfl⟩, fun i found => (by cases found), fun m' _ i below => absurd below (Nat.not_lt_zero i)⟩
    · obtain ⟨session, inside, last⟩ := at_
      cases found with
      | some i => exact ⟨i, inside i rfl, rfl, last, session⟩
      | none =>
        cases m with
        | none => rfl
        | some m' =>
          obtain ⟨i, below, is⟩ := net m' rfl
          exact absurd is (last m' rfl i below)
  refine found.seq ?_
  rintro t base ⟨i, below, rfl, last, named, modern, rfl⟩
  exact next i below last named modern

end

end Whimbrel.Virtio

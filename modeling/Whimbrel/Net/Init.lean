import Whimbrel.Net.Virtq

/-! The handshake of `net::init` (`src/net.rs`), after the probe and the setup of the
queues: from reset to the first posted buffers and the MAC address. -/

set_option autoImplicit false

namespace Whimbrel.Net

open Virtio Dialogue Virtq

def status (base : Usize) : Io U32 := read32 base offStatus

def writeStatus (base : Usize) (st : U32) : Io U32 := do
  write32 base offStatus st
  let got ← status base
  .failIf (got &&& failed ≠ 0) (.failed got st)
  .failIf (got &&& needsReset ≠ 0) (.needsReset got st)
  return got

def readDeviceFeatures (base : Usize) : Io (U32 × U32) := do
  write32 base offDeviceFeaturesSel 0
  let w0 ← read32 base offDeviceFeatures
  write32 base offDeviceFeaturesSel 1
  let w1 ← read32 base offDeviceFeatures
  return (w0, w1)

def writeDriverFeatures (base : Usize) (w0 w1 : U32) : Io Unit := do
  write32 base offDriverFeaturesSel 0
  write32 base offDriverFeatures w0
  write32 base offDriverFeaturesSel 1
  write32 base offDriverFeatures w1

def readMac (base : Usize) : Io Mac := do
  let b0 ← read8 base offConfig
  let b1 ← read8 base (offConfig + 1)
  let b2 ← read8 base (offConfig + 2)
  let b3 ← read8 base (offConfig + 3)
  let b4 ← read8 base (offConfig + 4)
  let b5 ← read8 base (offConfig + 5)
  return ⟨b0, b1, b2, b3, b4, b5⟩

/-- Reset, ACKNOWLEDGE, DRIVER, the features and FEATURES_OK. -/
def negotiate (base : Usize) : Io Unit := do
  let got ← writeStatus base 0
  .failIf (got ≠ 0) (.reset got)
  let _ ← writeStatus base acknowledge
  let _ ← writeStatus base (acknowledge ||| driver)
  let (dev0, dev1) ← readDeviceFeatures base
  .failIf (dev0 &&& fMac = 0) (.noMac dev0)
  .failIf (dev1 &&& fVersion1 = 0) (.noVersion1 dev1)
  writeDriverFeatures base fMac fVersion1
  let got ← writeStatus base (acknowledge ||| driver ||| featuresOk)
  .failIf (got &&& featuresOk = 0) (.featuresOk got)

def programQueues (site : Site) (p : Pool) (base : Usize) : Io Unit := do
  let n := BitVec.ofNat 32 qsize
  setQueueNum base .rx n
  setQueueNum base .tx n
  programAddrs site base
  verify site p base

def enableQueues (base : Usize) : Io Unit := do
  setQueueReady base .rx
  setQueueReady base .tx

def goLive (p : Pool) (base : Usize) : Io (Pool × U32 × Mac) := do
  let (p, idx) ← postRx p
  let got ← writeStatus base (acknowledge ||| driver ||| featuresOk ||| driverOk)
  .failIf (got &&& driverOk = 0) (.driverOk got)
  notify base .rx
  let mac ← readMac base
  .failIf (mac = ⟨0, 0, 0, 0, 0, 0⟩) .zeroMac
  return (p, idx.setWidth 32, mac)

/-- `net::init` as far as `MAC`, with `NET_BASE`: the pool, `RX_POSTED` and the address. -/
def init (site : Site) (p : Pool) (net : Usize) : Io (Pool × U32 × Mac) := do
  let base ← netBase net
  negotiate base
  programQueues site p base
  enableQueues base
  goLive p base

/-- `kmain` from `virtio::probe` on. -/
def start (site : Site) : Io (Pool × U32 × Mac) := do
  let base ← probe
  let p ← Virtq.init site .new base
  init site p base

/-! ## The handshake keeps to the protocol -/

theorem and_bit {x : U32} {k : Nat} (set : x &&& BitVec.twoPow 32 k ≠ 0) :
    x &&& BitVec.twoPow 32 k = BitVec.twoPow 32 k ∧ BitVec.twoPow 32 k &&& ~~~x = 0 := by
  have held : x.getLsbD k = true := by
    by_contra clear
    exact set (by rw [BitVec.and_twoPow, if_neg clear]; rfl)
  constructor
  · rw [BitVec.and_twoPow, if_pos held]
  · rw [BitVec.and_comm, BitVec.and_twoPow, BitVec.getLsbD_not, held]
    simp

section
variable {site : Site} {m : Option Machine} {s : Session}

theorem writeStatus_upholds {st : U32} (net : s.net ≠ 0) (advances : s.Advances st) (good : st &&& failed = 0 ∧ st &&& needsReset = 0) :
    Upholds site.wants m (fun t got => t = { s.write offStatus st with told := some got } ∧ (got &&& failed = 0 ∧
      got &&& needsReset = 0) ∧ ∀ m', m = some m' → got = st) (writeStatus s.net st) s := by
  have kept : (s.write offStatus st).net = s.net ∧ (s.write offStatus st).status = st := by
    change (if st = 0 then s.reset else { s with status := st, told := none }).net = s.net ∧
      (if st = 0 then s.reset else { s with status := st, told := none }).status = st
    split
    · rename_i zero
      exact ⟨rfl, zero.symm⟩
    · exact ⟨rfl, rfl⟩
  have read : Session.Allows site.wants (s.write offStatus st) (.read32 s.net offStatus) := by
    have allowed : Session.Allows site.wants (s.write offStatus st) (.read32 (s.write offStatus st).net offStatus) :=
      .read (kept.1 ▸ net)
    rwa [kept.1] at allowed
  refine Upholds.write32 (.write net (.status advances)) (Upholds.read32 read fun got fits => ?_)
  have same (m' : Machine) (is : m = some m') : got = st := by
    subst is
    exact (fits.status rfl).trans kept.2
  refine Upholds.check (fun m' is => not_not.mpr (same m' is ▸ good.1)) fun sane => ?_
  refine Upholds.check (fun m' is => not_not.mpr (same m' is ▸ good.2)) fun alive => ?_
  exact ⟨rfl, ⟨not_not.mp sane, not_not.mp alive⟩, same⟩

def offering (s : Session) (w0 w1 : U32) : Session :=
  { s with deviceSel := 1, offered := Function.update (Function.update s.offered 0 w0) 1 w1 }

def taking (s : Session) (w0 w1 : U32) : Session :=
  { s with driverSel := 1, taken := Function.update (Function.update s.taken 0 (some w0)) 1 (some w1) }

theorem readDeviceFeatures_upholds (net : s.net ≠ 0) :
    Upholds site.wants m (fun t words => t = offering s words.1 words.2 ∧
      ∀ m', m = some m' → words.1 &&& fMac ≠ 0 ∧ words.2 &&& fVersion1 ≠ 0) (readDeviceFeatures s.net) s := by
  refine Upholds.write32 (.write net .deviceSel) (Upholds.read32 (.read net) fun w0 fits0 => ?_)
  refine Upholds.write32 (.write net .deviceSel) (Upholds.read32 (.read net) fun w1 fits1 => ?_)
  refine ⟨rfl, ?_⟩
  rintro m' rfl
  exact ⟨fits0.mac rfl rfl, fits1.version1 rfl rfl⟩

theorem writeDriverFeatures_upholds {w0 w1 : U32} (net : s.net ≠ 0) (before : s.status = acknowledge ||| driver)
    (first : w0 &&& ~~~s.offered 0 = 0) (second : w1 &&& ~~~s.offered 1 = 0) :
    Upholds site.wants m (fun t _ => t = taking s w0 w1) (writeDriverFeatures s.net w0 w1) s := by
  refine Upholds.write32 (.write net .driverSel) (Upholds.write32 (.write net (.features before first)) ?_)
  exact Upholds.write32 (.write net .driverSel) (Upholds.write32_last (.write net (.features before second)) rfl)

structure Agreed (s t : Session) : Prop where
  confirmed : t.Confirmed (acknowledge ||| driver ||| featuresOk) featuresOk
  taken : t.taken 0 = some fMac ∧ t.taken 1 = some fVersion1
  net : t.net = s.net
  regs : t.regs = fun _ => none
  idx : t.idx = s.idx
  rung : t.rung = s.rung

def answered (s : Session) (st got : U32) : Session := { s with status := st, told := some got }

theorem negotiate_upholds (net : s.net ≠ 0) : Upholds site.wants m (fun t _ => Agreed s t) (negotiate s.net) s := by
  refine (writeStatus_upholds net .reset (by decide)).seq ?_
  rintro t got ⟨rfl, -, zero⟩
  refine Upholds.check (fun m' is => not_not.mpr (zero m' is)) fun reset => ?_
  obtain rfl := not_not.mp reset
  refine (@writeStatus_upholds site m (answered s.reset 0 0) acknowledge net (.acknowledge rfl rfl) (by decide)).seq ?_
  rintro t got1 ⟨rfl, sound1, -⟩
  refine (@writeStatus_upholds site m (answered s.reset acknowledge got1) (acknowledge ||| driver) net
    (.driver ⟨rfl, got1, rfl, BitVec.and_zero, sound1⟩) (by decide)).seq ?_
  rintro t got2 ⟨rfl, sound2, -⟩
  refine (@readDeviceFeatures_upholds site m (answered s.reset (acknowledge ||| driver) got2) net).seq ?_
  rintro t ⟨dev0, dev1⟩ ⟨rfl, offers⟩
  -- A device that lacks a feature stops the driver here; a machine's device has both.
  refine Upholds.check (fun m' is => (offers m' is).1) fun hasMac => ?_
  refine Upholds.check (fun m' is => (offers m' is).2) fun hasVersion1 => ?_
  refine (@writeDriverFeatures_upholds site m (offering (answered s.reset (acknowledge ||| driver) got2) dev0 dev1) fMac fVersion1 net rfl
    (and_bit (k := 5) hasMac).2 (and_bit (k := 0) hasVersion1).2).seq ?_
  rintro t v rfl
  refine (@writeStatus_upholds site m (taking (offering (answered s.reset (acknowledge ||| driver) got2) dev0 dev1) fMac fVersion1)
    (acknowledge ||| driver ||| featuresOk) net (.featuresOk ⟨rfl, got2, rfl, BitVec.and_zero, sound2⟩ (Option.some_ne_none _) (Option.some_ne_none _))
    (by decide)).seq ?_
  rintro t got3 ⟨rfl, sound3, same⟩
  refine Upholds.check_last (fun m' is => ?_) fun accepted => ?_
  · rw [same m' is]
    decide
  · exact ⟨⟨rfl, got3, rfl, (and_bit (k := 3) accepted).1, sound3⟩, ⟨rfl, rfl⟩, rfl, rfl, rfl, rfl⟩

structure Programmed (site : Site) (regs : U32 × Usize → Option U32) : Prop extends InPlace site regs where
  size : ∀ w, regs (num w, offQueueNum) = some (BitVec.ofNat 32 qsize)

structure Configured (site : Site) (regs : U32 × Usize → Option U32) : Prop where
  size : ∀ w, regs (num w, offQueueNum) = some (BitVec.ofNat 32 qsize)
  addresses : ∀ w, ∀ off ∈ addressRegs, regs (num w, off) = some (site.wants (num w) off)
  ready : ∀ w, regs (num w, offQueueReady) = some 1

section
variable {regs : U32 × Usize → Option U32}

theorem update_off {q q' : U32} {off off' : Usize} {v : Option U32} (other : off ≠ off') :
    Function.update regs (q', off') v (q, off) = regs (q, off) :=
  Function.update_of_ne (fun same => other (Prod.mk.inj same).2) v regs

theorem update_both {off : Usize} {v : Option U32} (w : Which) :
    Function.update (Function.update regs (num .rx, off) v) (num .tx, off) v (num w, off) = v := by
  have apart : num .rx ≠ num .tx := by decide
  cases w with
  | rx => rw [Function.update_of_ne (fun same => apart (Prod.mk.inj same).1), Function.update_self]
  | tx => rw [Function.update_self]

theorem ready_other {off : Usize} (address : off ∈ addressRegs) : off ≠ offQueueReady := by
  rintro rfl
  exact absurd address (by decide)

theorem Programmed.enabled (programmed : Programmed site regs) :
    Configured site (Function.update (Function.update regs (num .rx, offQueueReady) (some 1)) (num .tx, offQueueReady) (some 1)) where
  size w := by
    rw [update_off (by decide), update_off (by decide), programmed.size]
  addresses w off mem := by
    rw [update_off (ready_other mem), update_off (ready_other mem), programmed.addresses w off mem]
  ready w := update_both w

end

theorem programQueues_upholds {p : Pool} (sound : ∀ m', m = some m' → checkPool site p = .ok ()) (net : s.net ≠ 0)
    (agreed : s.Confirmed (acknowledge ||| driver ||| featuresOk) featuresOk) (down : ∀ w, s.regs (num w, offQueueReady) = none) :
    Upholds site.wants m (fun t _ => ∃ regs, Programmed site regs ∧ Moves s regs t) (programQueues site p s.net) s := by
  rw [programQueues]
  have small : BitVec.ofNat 32 qsize ≤ 16 := by decide
  have sized (w : Which) := @update_both s.regs offQueueNum (some (BitVec.ofNat 32 qsize)) w
  have down1 (w : Which) : Function.update s.regs (num .rx, offQueueNum) (some (BitVec.ofNat 32 qsize)) (num w, offQueueReady) = none :=
    (update_off (by decide)).trans (down w)
  refine (setQueueNum_upholds net agreed (down .rx) small).seq fun t _ moved => ?_
  generalize Function.update s.regs (num .rx, offQueueNum) (some (BitVec.ofNat 32 qsize)) = regs at *
  have down2 (w : Which) : Function.update regs (num .tx, offQueueNum) (some (BitVec.ofNat 32 qsize)) (num w, offQueueReady) = none :=
    (update_off (by decide)).trans (down1 w)
  refine Safe.seq (moved.next (Function.update regs (num .tx, offQueueNum) (some (BitVec.ofNat 32 qsize))) fun sel idle max =>
    @setQueueNum_upholds site m (on s sel idle max regs) .tx _ net agreed (down1 .tx) small) fun t _ moved => ?_
  generalize Function.update regs (num .tx, offQueueNum) (some (BitVec.ofNat 32 qsize)) = regs at *
  refine Safe.seq (moved.next (addressed site .tx (addressed site .rx regs)) fun sel idle max =>
    @programAddrs_upholds site m (on s sel idle max regs) net down2) fun t _ moved => ?_
  have programmed : Programmed site (addressed site .tx (addressed site .rx regs)) := by
    refine ⟨addressed_inPlace down2, fun w => ?_⟩
    rw [addressed_other (by decide), addressed_other (by decide), sized]
  refine Safe.mono (moved.next (addressed site .tx (addressed site .rx regs)) fun sel idle max =>
    @verify_upholds site m (on s sel idle max _) p sound net programmed.toInPlace) fun t _ moved => ⟨_, programmed, moved⟩

theorem enableQueues_upholds (net : s.net ≠ 0) (agreed : s.Confirmed (acknowledge ||| driver ||| featuresOk) featuresOk)
    (programmed : Programmed site s.regs) :
    Upholds site.wants m (fun t _ => ∃ regs, Configured site regs ∧ Moves s regs t) (enableQueues s.net) s := by
  have sized (w : Which) : s.regs (num w, offQueueNum) ≠ none := by
    rw [programmed.size]
    exact Option.some_ne_none _
  refine (setQueueReady_upholds net agreed (programmed.down .rx) (sized .rx) (programmed.addresses .rx)).seq fun t _ moved => ?_
  have apart : num .tx ≠ num .rx := by decide
  have down : Function.update s.regs (num .rx, offQueueReady) (some 1) (num .tx, offQueueReady) = none :=
    (Function.update_of_ne (fun same => apart (Prod.mk.inj same).1) _ _).trans (programmed.down .tx)
  have sized' : Function.update s.regs (num .rx, offQueueReady) (some 1) (num .tx, offQueueNum) ≠ none := by
    rw [update_off (by decide)]
    exact sized .tx
  have addresses : ∀ off ∈ addressRegs,
      Function.update s.regs (num .rx, offQueueReady) (some 1) (num .tx, off) = some (site.wants (num .tx) off) := by
    intro off mem
    rw [update_off (ready_other mem), programmed.addresses .tx off mem]
  refine Safe.mono (moved.next (Function.update (Function.update s.regs (num .rx, offQueueReady) (some 1)) (num .tx, offQueueReady) (some 1))
    fun sel idle max => @setQueueReady_upholds site m (on s sel idle max _) .tx net agreed down sized' addresses) ?_
  exact fun t _ moved => ⟨_, programmed.enabled, moved⟩

theorem readMac_upholds {w : U32} (net : s.net ≠ 0) (live : s.Confirmed (acknowledge ||| driver ||| featuresOk ||| driverOk) driverOk)
    (taken : s.taken 0 = some w) (set : w &&& fMac ≠ 0) :
    Upholds site.wants m (fun t mac => t = s ∧ ∀ m', m = some m' → mac = m'.mac) (readMac s.net) s := by
  have each (off : Usize) : Session.Allows site.wants s (.read8 s.net off) := .config net live taken set
  refine Safe.ask (each offConfig) ?_
  rintro b0 t ⟨fits0, rfl⟩
  refine Safe.ask (each (offConfig + 1)) ?_
  rintro b1 t ⟨fits1, rfl⟩
  refine Safe.ask (each (offConfig + 2)) ?_
  rintro b2 t ⟨fits2, rfl⟩
  refine Safe.ask (each (offConfig + 3)) ?_
  rintro b3 t ⟨fits3, rfl⟩
  refine Safe.ask (each (offConfig + 4)) ?_
  rintro b4 t ⟨fits4, rfl⟩
  refine Safe.ask (each (offConfig + 5)) ?_
  rintro b5 t ⟨fits5, rfl⟩
  refine ⟨rfl, ?_⟩
  rintro m' rfl
  rw [show b0 = _ from fits0, show b1 = _ from fits1, show b2 = _ from fits2, show b3 = _ from fits3, show b4 = _ from fits4,
    show b5 = _ from fits5]
  rfl

/-- A device at work: its status and features are confirmed, both queues have their size and addresses and are enabled,
the RX ring is published with every buffer in it, and the device was told so once. -/
structure Live (site : Site) (s : Session) : Prop where
  confirmed : s.Confirmed (acknowledge ||| driver ||| featuresOk ||| driverOk) driverOk
  taken : s.taken 0 = some fMac ∧ s.taken 1 = some fVersion1
  queues : Configured site s.regs
  ring : ∀ i < rxBufs, s.ring i = some (BitVec.ofNat 16 i)
  published : s.idx = BitVec.ofNat 16 rxBufs ∧ s.loose = false ∧ s.unseen = false
  rung : s.rung = [num .rx]

def posting (s : Session) (ring : Nat → Option U16) : Session := { s with ring := ring, loose := false, idx := 16, unseen := true }

structure Up (site : Site) (m : Option Machine) (p : Pool) (s t : Session) (r : Pool × U32 × Mac) : Prop where
  net : t.net = s.net
  live : Live site t
  pool : r.1 = p.live
  posted : r.2.1 = BitVec.ofNat 32 rxBufs
  address : r.2.2 ≠ ⟨0, 0, 0, 0, 0, 0⟩
  machine : ∀ m', m = some m' → r.2.2 = m'.mac

theorem goLive_upholds {p : Pool} (address : ∀ m', m = some m' → m'.mac ≠ ⟨0, 0, 0, 0, 0, 0⟩) (net : s.net ≠ 0)
    (agreed : s.Confirmed (acknowledge ||| driver ||| featuresOk) featuresOk) (taken : s.taken 0 = some fMac ∧ s.taken 1 = some fVersion1)
    (queues : Configured site s.regs) (unpublished : s.idx = 0) (silent : s.rung = []) :
    Upholds site.wants m (Up site m p s) (goLive p s.net) s := by
  refine (postRx_upholds unpublished).seq ?_
  rintro t ⟨p', idx⟩ ⟨same, ring, rfl, stored⟩
  obtain ⟨rfl, rfl⟩ := Prod.mk.inj same
  refine (@writeStatus_upholds site m (posting s ring) _ net
    (.driverOk agreed (queues.ready .rx) (queues.ready .tx)) (by decide)).seq ?_
  rintro t got ⟨rfl, sound, same⟩
  refine Upholds.check (fun m' is => ?_) fun stuck => ?_
  · rw [same m' is]
    decide
  have live : Session.Confirmed (answered (posting s ring) (acknowledge ||| driver ||| featuresOk ||| driverOk) got) _ driverOk :=
    ⟨rfl, got, rfl, (and_bit (k := 2) stuck).1, sound⟩
  refine (@notify_upholds site m (answered (posting s ring) _ got) .rx net live).seq ?_
  rintro t _ rfl
  refine (@readMac_upholds site m { answered (posting s ring) _ got with unseen := false, rung := s.rung ++ [num .rx] } fMac net live taken.1
    (by decide)).seq ?_
  rintro t mac ⟨rfl, is⟩
  refine Upholds.check (fun m' known => is m' known ▸ address m' known) fun real => ?_
  refine ⟨rfl, ⟨live, taken, queues, stored, ⟨rfl, rfl, rfl⟩, ?_⟩, rfl, rfl, real, is⟩
  exact congrArg (· ++ [num .rx]) silent

theorem init_upholds {p : Pool} (sound : ∀ m', m = some m' → checkPool site p = .ok ()) (address : ∀ m', m = some m' → m'.mac ≠ ⟨0, 0, 0, 0, 0, 0⟩)
    (net : s.net ≠ 0) (unpublished : s.idx = 0) (silent : s.rung = []) :
    Upholds site.wants m (Up site m p s) (init site p s.net) s := by
  refine (netBase_upholds net).seq ?_
  rintro s base ⟨rfl, rfl⟩
  refine (negotiate_upholds net).seq fun t _ agreed => ?_
  rw [← agreed.net] at net ⊢
  refine (programQueues_upholds sound net agreed.confirmed (fun w => congrFun agreed.regs _)).seq fun u _ moved => ?_
  obtain ⟨regs, programmed, sel, idle, max, rfl⟩ := moved
  refine (@enableQueues_upholds site m (on t sel idle max regs) net agreed.confirmed programmed).seq fun u _ moved => ?_
  obtain ⟨regs, configured, sel, idle, max, rfl⟩ := moved
  refine Safe.mono (@goLive_upholds site m (on t sel idle max regs) p address net agreed.confirmed agreed.taken configured
    (agreed.idx.trans unpublished) (agreed.rung.trans silent)) fun u r up => ?_
  exact ⟨up.net.trans agreed.net, up.live, up.pool, up.posted, up.address, up.machine⟩

theorem start_upholds (guard : ∀ m', m = some m' → site.Sound)
    (machine : ∀ m', m = some m' → m'.mac ≠ ⟨0, 0, 0, 0, 0, 0⟩ ∧ ∃ i < nTransports, m'.id i = deviceNet) :
    Upholds site.wants m (fun t r => ∃ i < nTransports, Up site m (site.fillDescriptors .new) (Session.fresh.probed none none (transport i)) t r ∧
      ∀ m', m = some m' → m'.Last nTransports (some i)) (start site) .fresh := by
  have sound (m' : Machine) (is : m = some m') : checkPool site (site.fillDescriptors .new) = .ok () :=
    checkPool_ok (guard m' is) (fun w => by cases w <;> exact ⟨rfl, rfl⟩) fun i => rfl
  refine probe_upholds (fun m' is => (machine m' is).2) fun i below last named modern => ?_
  have net : transport i ≠ 0 := transport_ne_zero below
  refine (@Virtq.init_upholds site m (Session.fresh.probed named modern (transport i)) .new (fun m' is => (guard m' is).guard) sound net
    fun w => rfl).seq ?_
  rintro t p ⟨rfl, sel, idle, max, rfl⟩
  refine Safe.mono (@init_upholds site m (on (Session.fresh.probed named modern (transport i)) sel idle max _) _ sound
    (fun m' is => (machine m' is).1) net rfl rfl) fun t r up => ?_
  exact ⟨i, below, ⟨up.net, up.live, up.pool, up.posted, up.address, up.machine⟩, last⟩

end

section
variable (site : Site) (device : Device Access Access.Answer)

/-- What a device and the kernel have said to each other when `start` ends. -/
abbrev log : List (Event Access Access.Answer) := ((start site).play device []).2

theorem start_any : Upholds site.wants none (fun t r => ∃ i < nTransports,
    Up site none (site.fillDescriptors .new) (Session.fresh.probed none none (transport i)) t r) (start site) (after Session.record .fresh []) := by
  refine Safe.mono (start_upholds (fun m' is => by cases is) fun m' is => by cases is) ?_
  rintro t r ⟨i, below, up, -⟩
  exact ⟨i, below, up⟩

end

def siteOf (lay : Layout) (phys : Page.Phys) (root pool : Usize) : Site :=
  ⟨phys, root, pool, BitVec.ofNat 64 lay.bssEnd, BitVec.ofNat 64 lay.bootStackBottom⟩

theorem siteOf_sound {lay : Layout} {fast : Bool} {word : Usize → Usize} {phys : Page.Phys} {root pool : Usize}
    (booted : Page.boot fast lay word = .ok (phys, root)) (aligned : pool.toNat % pageSize = 0)
    (inside : lay.dataStart ≤ pool.toNat ∧ pool.toNat + 53248 ≤ lay.bssEnd) : (siteOf lay phys root pool).Sound where
  aligned := aligned
  low := by
    have order := lay.order
    have fits := lay.fits
    rw [ramL1Start] at fits
    change pool.toNat + 53248 ≤ _
    omega
  mapped va lower upper := Page.meets_data booted (Nat.le_trans inside.1 lower) (Nat.lt_of_lt_of_le upper inside.2)
  guard := by
    change BitVec.ofNat 64 lay.bssEnd + BitVec.ofNat 64 4096 = BitVec.ofNat 64 (lay.bssEnd + 4 * 1024)
    rw [← BitVec.ofNat_add]

theorem start_machine {site : Site} {m : Machine} {device : Device Access Access.Answer} (sound : site.Sound)
    (net : ∃ i < nTransports, m.id i = deviceNet) (address : m.mac ≠ ⟨0, 0, 0, 0, 0, 0⟩)
    (answers : ∀ es r, m.Fits (after Session.record .fresh es) r (device es r)) :
    ∃ r, ((start site).play device []).1 = .ok r ∧ r.2.2 = m.mac ∧ ∃ i, m.Last nTransports (some i) ∧
      (after Session.record .fresh (log site device)).net = transport i := by
  have upholds : Upholds site.wants (some m) _ (start site) (after Session.record .fresh []) :=
    start_upholds (fun _ _ => sound) fun m' is => by cases is; exact ⟨address, net⟩
  have fits : ∀ es r, Fits (some m) (after Session.record .fresh es) r (device es r) := answers
  obtain ⟨r, done⟩ := Safe.returns fits upholds fun _ => Option.some_ne_none m
  obtain ⟨i, -, up, last⟩ := Safe.result fits upholds done
  exact ⟨r, done, up.machine m rfl, i, last m rfl, up.net⟩

/-! ## A machine with a network device -/

def poolPages : Layout where
  text := 1
  rodata := 1
  data := 14
  utext := 1
  urodata := 1
  udata := 1
  ubss := 1
  text_pos := Nat.one_pos
  rodata_pos := Nat.one_pos
  data_pos := by decide
  fits := by decide

def lastNet : Machine where
  id i := if i = 7 then deviceNet else 0
  config off := byteAt guestMac.toList (off - offConfig).toNat

def lastNetDevice : Device Access Access.Answer := fun es => lastNet.answer (after Session.record .fresh es)

theorem start_lastNet : ∃ site : Site, site.Sound ∧ ∃ r, ((start site).play lastNetDevice []).1 = .ok r := by
  obtain ⟨phys, root, booted⟩ := @Page.boot_low poolPages (fun _ => 0) (by decide)
  have sound := @siteOf_sound poolPages false _ phys root 0x80202000 booted (by decide) (by decide)
  obtain ⟨r, done, -⟩ := @start_machine _ lastNet lastNetDevice sound ⟨7, by decide, rfl⟩ (by decide) fun es => lastNet.answer_fits _
  exact ⟨_, sound, r, done⟩

section
variable (site : Site) (device : Device Access Access.Answer)

end

/-! ## What the device is given -/

/-- The RX queue as the device finds it, before it takes anything. -/
def shared (q : Virtq.Queue) (entries : Fin qsize → Nat × Nat) : Virtqueue.Queue qsize :=
  ⟨fun i => (q.ring i).toNat, q.availIdx, entries, q.usedIdx, 0, []⟩

def given (s : Session) (w : Which) (a : Area) : Option Usize := do
  let low ← s.regs (num w, offLow a)
  let high ← s.regs (num w, offLow a + 4)
  return high ++ low

structure Region where
  start : Usize
  bytes : Nat
  deriving DecidableEq, Repr

def Region.Apart (g h : Region) : Prop := g.start.toNat + g.bytes ≤ h.start.toNat ∨ h.start.toNat + h.bytes ≤ g.start.toNat

def areas : List (Which × Area) := [(.rx, .desc), (.rx, .driver), (.rx, .device), (.tx, .desc), (.tx, .driver), (.tx, .device)]

def buffers (q : Virtq.Queue) : List Region :=
  (List.range qsize).filterMap fun i => if (q.desc i).len = 0 then none else some ⟨(q.desc i).addr, (q.desc i).len.toNat⟩

/-- All that the device is told of: the areas in its registers and the buffers of both descriptor tables. -/
def handed (s : Session) (p : Pool) : List Region :=
  areas.filterMap (fun (w, a) => (given s w a).map (Region.mk · (areaBytes a))) ++ buffers p.rx ++ buffers p.tx

def extents : List (Nat × Nat) :=
  areas.map (fun (w, a) => (areaAt w a, areaBytes a)) ++ (List.range rxBufs).map (fun i => (864 + i * 2048, 2048)) ++
    (List.range txBufs).map fun i => (33632 + i * 2048, 2048)

theorem extents_apart : extents.Pairwise (fun g h => g.1 + g.2 ≤ h.1 ∨ h.1 + h.2 ≤ g.1) ∧ ∀ g ∈ extents, g.1 + g.2 ≤ 53248 := by
  decide +kernel

theorem hi_lo (gpa : Usize) : hi gpa ++ lo gpa = gpa := by
  refine BitVec.eq_of_getLsbD_eq fun i below => ?_
  rw [BitVec.getLsbD_append, lo, hi, BitVec.getLsbD_setWidth, BitVec.getLsbD_setWidth, BitVec.getLsbD_ushiftRight]
  by_cases low : i < 32
  · rw [if_pos low, decide_eq_true low, Bool.true_and]
  · rw [if_neg low, decide_eq_true (by omega), Bool.true_and, Nat.add_sub_cancel' (Nat.not_lt.mp low)]

section
variable {site : Site} {s : Session}

theorem Configured.given (queues : Configured site s.regs) (w : Which) (a : Area) : given s w a = some (site.area w a) := by
  obtain ⟨low, high⟩ := @offLow_mem a
  rw [Net.given, queues.addresses w _ low, queues.addresses w _ high, wants_lo, wants_hi]
  exact congrArg some (hi_lo _)

theorem handed_eq (queues : Configured site s.regs) :
    handed s (site.fillDescriptors .new).live = extents.map fun g => ⟨site.pool + BitVec.ofNat 64 g.1, g.2⟩ := by
  have rings : areas.filterMap (fun (w, a) => (given s w a).map (Region.mk · (areaBytes a))) =
      areas.map fun (w, a) => ⟨site.pool + BitVec.ofNat 64 (areaAt w a), areaBytes a⟩ := by
    simp only [areas, List.filterMap_cons, List.filterMap_nil, queues.given, Option.map_some, area_eq, List.map_cons, List.map_nil]
  have rx : buffers (site.fillDescriptors .new).live.rx = (List.range rxBufs).map fun i => ⟨site.rxBuf i, 2048⟩ := rfl
  have tx : buffers (site.fillDescriptors .new).live.tx = (List.range txBufs).map fun i => ⟨site.txBuf i, 2048⟩ := rfl
  rw [handed, rings, rx, tx, extents, List.map_append, List.map_append, List.map_map, List.map_map, List.map_map]
  rfl

end

section
variable (site : Site) (device : Device Access Access.Answer)

/-- Whatever the device answered, if `start` returns then the device has confirmed DRIVER_OK and no failure, the two
features are the ones agreed on, both queues have their size, the addresses of the pool's rings and are enabled, and
the RX queue is the one that the receive path starts from. -/
theorem start_live {r : Pool × U32 × Mac} (done : ((start site).play device []).1 = .ok r) (entries : Fin qsize → Nat × Nat) (bufs : Nat → Buffer) :
    Live site (after Session.record .fresh (log site device)) ∧
    (∃ i < nTransports, (after Session.record .fresh (log site device)).net = transport i) ∧
    shared r.1.rx entries = (RxWorld.boot r.2.2 entries bufs).q ∧ r.2.1 = (Statics.boot r.2.2).rxPosted ∧ r.2.2 ≠ ⟨0, 0, 0, 0, 0, 0⟩ := by
  obtain ⟨i, below, up⟩ := Safe.result (fun _ _ => trivial) (start_any site) done
  refine ⟨up.live, ⟨i, below, up.net⟩, ?_, up.posted, up.address⟩
  rw [up.pool]
  have ring : (fun i : Fin qsize => ((site.fillDescriptors .new).live.rx.ring i).toNat) = fun i => i.val := by
    funext i
    have below : i.val < 16 := i.isLt
    change (if i.val < 16 then BitVec.ofNat 16 i.val else _).toNat = i.val
    rw [if_pos below, BitVec.toNat_ofNat]
    omega
  rw [shared, ring]
  rfl

theorem start_live_lastNet : ∃ site r, ((start site).play lastNetDevice []).1 = .ok r ∧
    shared r.1.rx (fun _ => (0, 0)) = (RxWorld.boot r.2.2 (fun _ => (0, 0)) fun _ => zeroBuffer).q := by
  obtain ⟨site, -, r, done⟩ := start_lastNet
  exact ⟨site, r, done, (start_live site lastNetDevice done (fun _ => (0, 0)) fun _ => zeroBuffer).2.2.1⟩

/-- The device is given nothing outside the pool, and no two regions it is given overlap: neither a ring and a buffer,
nor two buffers, nor the rings of the two queues. -/
theorem start_confines {r : Pool × U32 × Mac} (done : ((start site).play device []).1 = .ok r) (sound : site.Sound) :
    (handed (after Session.record .fresh (log site device)) r.1).Pairwise Region.Apart ∧
    ∀ g ∈ handed (after Session.record .fresh (log site device)) r.1,
      site.pool.toNat ≤ g.start.toNat ∧ g.start.toNat + g.bytes ≤ site.poolEnd.toNat := by
  obtain ⟨i, below, up⟩ := Safe.result (fun _ _ => trivial) (start_any site) done
  rw [up.pool, handed_eq up.live.queues]
  obtain ⟨apart, inside⟩ := extents_apart
  have at_ (g : Nat × Nat) (mem : g ∈ extents) := sound.toNat_add (k := g.1) (by have := inside g mem; omega)
  have fin : site.poolEnd.toNat = site.pool.toNat + 53248 := sound.toNat_add (k := 53248) (Nat.le_refl _)
  constructor
  · refine List.pairwise_map.mpr (apart.imp_of_mem fun {g h} first second between => ?_)
    rw [Region.Apart, at_ g first, at_ h second]
    dsimp only
    omega
  · intro region listed
    obtain ⟨g, mem, rfl⟩ := List.mem_map.mp listed
    have bound := inside g mem
    rw [at_ g mem, fin]
    dsimp only
    omega

theorem start_confines_lastNet : ∃ site r, ((start site).play lastNetDevice []).1 = .ok r ∧
    (handed (after Session.record .fresh (log site lastNetDevice)) r.1).Pairwise Region.Apart := by
  obtain ⟨site, sound, r, done⟩ := start_lastNet
  exact ⟨site, r, done, (start_confines site lastNetDevice done sound).1⟩

end

/-- On a machine whose transports are modern and whose network device accepts the two features and has room for the
queues, `start` returns once the boot has mapped the pool: it has taken the last network device and its MAC address. -/
theorem start_returns {lay : Layout} {fast : Bool} {word : Usize → Usize} {phys : Page.Phys} {root pool : Usize}
    (booted : Page.boot fast lay word = .ok (phys, root)) (aligned : pool.toNat % pageSize = 0)
    (inside : lay.dataStart ≤ pool.toNat ∧ pool.toNat + 53248 ≤ lay.bssEnd) {m : Machine} {device : Device Access Access.Answer}
    (net : ∃ i < nTransports, m.id i = deviceNet) (address : m.mac ≠ ⟨0, 0, 0, 0, 0, 0⟩)
    (answers : ∀ es r, m.Fits (after Session.record .fresh es) r (device es r)) :
    ∃ r, ((start (siteOf lay phys root pool)).play device []).1 = .ok r ∧ r.2.2 = m.mac ∧ ∃ i, m.Last nTransports (some i) ∧
      (after Session.record .fresh (log (siteOf lay phys root pool) device)).net = transport i :=
  start_machine (siteOf_sound booted aligned inside) net address answers

theorem start_returns_lastNet : ∃ site r, ((start site).play lastNetDevice []).1 = .ok r ∧ r.2.2 = guestMac := by
  obtain ⟨phys, root, booted⟩ := @Page.boot_low poolPages (fun _ => 0) (by decide)
  obtain ⟨r, done, mac, -⟩ := @start_returns poolPages false _ phys root 0x80202000 booted (by decide) (by decide) lastNet lastNetDevice
    ⟨7, by decide, rfl⟩ (by decide) fun es => lastNet.answer_fits _
  exact ⟨_, r, done, mac⟩

end Whimbrel.Net

import Mathlib.Data.List.FinRange
import Whimbrel.Base

/-! ARP parse, reply, request and the 4-entry cache: `src/arp.rs`. -/

set_option autoImplicit false

namespace Whimbrel.Arp

open Checked

def ethHdr : Nat := 14
def arpLen : Nat := 28
def htypeEth : U16 := 1
def ptypeIpv4 : U16 := 0x0800
def hlen : U8 := 6
def plen : U8 := 4
def opRequest : U16 := 1
def opReply : U16 := 2
abbrev cacheN : Nat := 4

structure Ent where
  ip : Ip
  mac : Mac
  deriving DecidableEq, Repr

/-- `ENTRIES` and `NEXT`; `NEXT` is only ever stored modulo `CACHE_N`. -/
structure Cache where
  entries : Vector (Option Ent) cacheN
  next : Fin cacheN
  deriving DecidableEq

def Cache.empty : Cache := ⟨Vector.replicate cacheN none, 0⟩

def Cache.slotOf (c : Cache) (ip : Ip) : Option (Fin cacheN) :=
  (List.finRange cacheN).find? fun i => (c.entries.get i).any (·.ip = ip)

def learn (c : Cache) (ip : Ip) (mac : Mac) : Cache :=
  match c.slotOf ip with
  | some i => { c with entries := c.entries.set i (some ⟨ip, mac⟩) i.isLt }
  | none => ⟨c.entries.set c.next (some ⟨ip, mac⟩) c.next.isLt, c.next + 1⟩

def lookup (c : Cache) (ip : Ip) : Option Mac :=
  (c.slotOf ip).bind fun i => (c.entries.get i).map Ent.mac

inductive Drop where
  | short
  | htype
  | ptype
  | hlen
  | plen
  | op
  | tpa
  deriving DecidableEq, Repr

structure Statics where
  cache : Cache
  drops : Counters Drop

def Statics.init : Statics := ⟨.empty, fun _ => 0⟩

def Statics.drop (s : Statics) (r : Drop) : Statics := { s with drops := s.drops.bump r }

def Statics.learn (s : Statics) (ip : Ip) (mac : Mac) : Statics := { s with cache := Arp.learn s.cache ip mac }

structure RequestForUs where
  sha : Mac
  spa : Ip
  deriving DecidableEq, Repr

inductive Event where
  | request (req : RequestForUs)
  | reply
  deriving DecidableEq, Repr

/-- `none`: dropped, and counted. -/
def process (s : Statics) (eth : List U8) (ourIp : Ip) : Result (Statics × Option Event) := do
  if eth.length < ethHdr + arpLen then
    return (s.drop .short, none)
  let a ← slice eth ethHdr (ethHdr + arpLen)
  if (← be16 a 0) ≠ htypeEth then
    return (s.drop .htype, none)
  if (← be16 a 2) ≠ ptypeIpv4 then
    return (s.drop .ptype, none)
  if (← index a 4) ≠ hlen then
    return (s.drop .hlen, none)
  if (← index a 5) ≠ plen then
    return (s.drop .plen, none)
  let op ← be16 a 6
  let sha ← readMac a 8
  let spa ← readIp a 14
  let tpa ← readIp a 24
  -- the target comes before the opcode
  if tpa ≠ ourIp then
    return (s.drop .tpa, none)
  if op = opReply then
    return (s.learn spa sha, some .reply)
  if op ≠ opRequest then
    return (s.drop .op, none)
  return (s.learn spa sha, some (.request ⟨sha, spa⟩))

/-- What `process` makes of a frame, apart from the statics. -/
def judge (eth : List U8) (ourIp : Ip) : Except Drop (Event × RequestForUs) :=
  let a := (eth.drop ethHdr).take arpLen
  let sender : RequestForUs := ⟨macAt a 8, ipAt a 14⟩
  if eth.length < ethHdr + arpLen then .error .short
  else if word16 a 0 ≠ htypeEth then .error .htype
  else if word16 a 2 ≠ ptypeIpv4 then .error .ptype
  else if byteAt a 4 ≠ hlen then .error .hlen
  else if byteAt a 5 ≠ plen then .error .plen
  else if ipAt a 24 ≠ ourIp then .error .tpa
  else if word16 a 6 = opReply then .ok (.reply, sender)
  else if word16 a 6 ≠ opRequest then .error .op
  else .ok (.request sender, sender)

/-- `process` returns on every frame. -/
theorem process_eq (s : Statics) (eth : List U8) (ourIp : Ip) :
    process s eth ourIp = .ok (settle (fun r => (s.drop r, none))
      (fun d => (s.learn d.2.spa d.2.sha, some d.1)) (judge eth ourIp)) := by
  unfold process judge
  refine settle_check rfl fun short => ?_
  have length : ((eth.drop ethHdr).take arpLen).length = 28 := by
    rw [ethHdr, arpLen] at short
    rw [List.length_take, List.length_drop, ethHdr, arpLen]
    omega
  rw [slice_ok (Nat.le_add_right _ _) (Nat.not_lt.mp short), Nat.add_sub_cancel_left]
  generalize (eth.drop ethHdr).take arpLen = a at length
  simp only [bind_ok, be16_ok (show 0 + 1 < a.length by omega), be16_ok (show 2 + 1 < a.length by omega),
    be16_ok (show 6 + 1 < a.length by omega), index_ok (show 4 < a.length by omega),
    index_ok (show 5 < a.length by omega), readMac_ok (show 8 + 6 ≤ a.length by omega),
    readIp_ok (show 14 + 4 ≤ a.length by omega), readIp_ok (show 24 + 4 ≤ a.length by omega)]
  refine settle_check rfl fun _ => settle_check rfl fun _ => settle_check rfl fun _ => settle_check rfl fun _ =>
    settle_check rfl fun _ => ?_
  by_cases reply : word16 a 6 = opReply
  · rw [if_pos reply, if_pos reply]
    rfl
  · rw [if_neg reply, if_neg reply]
    exact settle_check rfl fun _ => rfl

/-! ## The documented check order -/

/-- The checks in the order of the module's documentation, and whether the frame fails them. -/
def documentedChecks (eth : List U8) (ourIp : Ip) : List (Drop × Bool) :=
  let a := (eth.drop ethHdr).take arpLen
  [(.short, eth.length < ethHdr + arpLen), (.htype, word16 a 0 ≠ htypeEth), (.ptype, word16 a 2 ≠ ptypeIpv4),
    (.hlen, byteAt a 4 ≠ hlen), (.plen, byteAt a 5 ≠ plen), (.op, word16 a 6 ≠ opRequest ∧ word16 a 6 ≠ opReply),
    (.tpa, ipAt a 24 ≠ ourIp)]

/-- The first check of the list that fails is counted; a frame that passes them all is learned from. -/
def documented (s : Statics) (eth : List U8) (ourIp : Ip) : Statics × Option Event :=
  let a := (eth.drop ethHdr).take arpLen
  match (documentedChecks eth ourIp).find? (·.2) with
  | some (r, _) => (s.drop r, none)
  | none =>
    (s.learn (ipAt a 14) (macAt a 8),
      some (if word16 a 6 = opReply then .reply else .request ⟨macAt a 8, ipAt a 14⟩))

/-- The opcode is unknown and the target is not us, and the frame passes the checks before those. -/
def TwoFaults (eth : List U8) (ourIp : Ip) : Prop :=
  let a := (eth.drop ethHdr).take arpLen
  ethHdr + arpLen ≤ eth.length ∧ word16 a 0 = htypeEth ∧ word16 a 2 = ptypeIpv4 ∧ byteAt a 4 = hlen ∧ byteAt a 5 = plen ∧
  (word16 a 6 ≠ opRequest ∧ word16 a 6 ≠ opReply) ∧ ipAt a 24 ≠ ourIp

instance (eth : List U8) (ourIp : Ip) : Decidable (TwoFaults eth ourIp) := inferInstanceAs (Decidable (_ ∧ _))

theorem drop_injective {s : Statics} {r q : Drop} (same : s.drop r = s.drop q) : r = q := by
  have counted := congrFun (congrArg Statics.drops same) r
  by_contra distinct
  simp only [Statics.drop, Counters.bump, Function.update_self, Function.update_of_ne distinct] at counted
  have larger := congrArg BitVec.toNat counted
  have bound := (s.drops r).isLt
  rw [BitVec.toNat_add] at larger
  change ((s.drops r).toNat + 1) % 2 ^ 32 = _ at larger
  omega

/-- `process` does what the documentation says, except on frames with an unknown opcode for another
target: it counts those by their target. -/
theorem process_documented_iff (s : Statics) (eth : List U8) (ourIp : Ip) :
    process s eth ourIp = .ok (documented s eth ourIp) ↔ ¬ TwoFaults eth ourIp := by
  rw [process_eq, documented, documentedChecks, judge, TwoFaults]
  generalize (eth.drop ethHdr).take arpLen = a
  -- up to the lengths of the addresses the two orders agree
  by_cases short : eth.length < ethHdr + arpLen
  · simp [short, settle]
  by_cases htype : word16 a 0 = htypeEth
  case neg => simp [short, htype, settle]
  by_cases ptype : word16 a 2 = ptypeIpv4
  case neg => simp [short, htype, ptype, settle]
  by_cases hlen' : byteAt a 4 = hlen
  case neg => simp [short, htype, ptype, hlen', settle]
  by_cases plen' : byteAt a 5 = plen
  case neg => simp [short, htype, ptype, hlen', plen', settle]
  have distinct : opReply ≠ opRequest := by decide
  by_cases target : ipAt a 24 = ourIp
  · by_cases reply : word16 a 6 = opReply
    · simp [short, htype, ptype, hlen', plen', target, reply, settle]
    · by_cases request : word16 a 6 = opRequest
      · simp [short, htype, ptype, hlen', plen', target, distinct.symm, request, settle]
      · simp [short, htype, ptype, hlen', plen', target, reply, request, settle]
  · by_cases known : word16 a 6 ≠ opRequest ∧ word16 a 6 ≠ opReply
    · have differ : s.drop .tpa ≠ s.drop .op := fun same => Drop.noConfusion (drop_injective same)
      simp [short, htype, ptype, hlen', plen', target, known, settle, differ, Nat.not_lt.mp short]
    · simp [short, htype, ptype, hlen', plen', target, known, settle]

def reversePacket : List U8 := List.replicate 14 0 ++ [0, 1, 8, 0, 6, 4, 0, 3] ++ List.replicate 20 0

/-- A reverse-ARP packet for nobody is counted by its target, where the documentation has its opcode first. -/
theorem reverse_counted_by_target : (∃ s', process .init reversePacket ourIp = .ok (s', none) ∧
      s'.drops .tpa = 1 ∧ s'.drops .op = 0) ∧
    (documented .init reversePacket ourIp).1.drops .op = 1 ∧ (documented .init reversePacket ourIp).1.drops .tpa = 0 :=
  ⟨⟨_, rfl, rfl, rfl⟩, rfl, rfl⟩

def broadcast : Mac := ⟨0xff, 0xff, 0xff, 0xff, 0xff, 0xff⟩

/-- The body `write_reply` and `write_request` share; a request leaves the target
hardware address zero. -/
def writePacket (eth : List U8) (dst ourMac : Mac) (ourIp : Ip) (op : U16) (target : List (Write U8)) :
    Result (List U8) := do
  if eth.length < 60 then throw .builderBuf
  let eth ← copyAll eth [⟨0, 60, List.replicate 60 0⟩, ⟨0, 6, dst.toList⟩, ⟨6, 12, ourMac.toList⟩,
    ⟨12, 14, beBytes16 0x0806⟩]
  let a ← slice eth ethHdr (ethHdr + arpLen)
  let a ← copyAll a ([⟨0, 2, beBytes16 htypeEth⟩, ⟨2, 4, beBytes16 ptypeIpv4⟩, .at 4 hlen, .at 5 plen,
    ⟨6, 8, beBytes16 op⟩, ⟨8, 14, ourMac.toList⟩, ⟨14, 18, ourIp.toList⟩] ++ target)
  copyIn eth ethHdr (ethHdr + arpLen) a

def writeReply (eth : List U8) (ourMac : Mac) (ourIp : Ip) (req : RequestForUs) : Result (List U8) :=
  writePacket eth req.sha ourMac ourIp 2 [⟨18, 24, req.sha.toList⟩, ⟨24, 28, req.spa.toList⟩]

def writeRequest (eth : List U8) (ourMac : Mac) (ourIp tpa : Ip) : Result (List U8) :=
  writePacket eth broadcast ourMac ourIp opRequest [⟨24, 28, tpa.toList⟩]

theorem writePacket_returns {eth : List U8} (fits : 60 ≤ eth.length) (dst ourMac : Mac) (ourIp : Ip) (op : U16)
    {target : List (Write U8)} (inside : ∀ w ∈ target, w.Inside 28) :
    Returns (writePacket eth dst ourMac ourIp op target) (·.length = eth.length) := by
  unfold writePacket
  rw [if_neg (Nat.not_lt.mpr fits)]
  refine (copyAll_returns _ ?_).bind fun e length => ?_
  · simp [Write.Inside]
    omega
  rw [← length] at fits ⊢
  refine (slice_returns _ (by decide) (Nat.le_trans (by decide) fits)).bind fun a size => ?_
  refine (copyAll_returns _ ?_).bind fun a' size' => ?_
  · rw [size]
    simp only [List.mem_append]
    rintro w (first | last)
    · revert w
      simp [Write.Inside, Write.at, ethHdr, arpLen]
    · exact inside w last
  · exact copyFromSlice_returns _ (by decide) (Nat.le_trans (by decide) fits) (by rw [size', size])

theorem writeReply_returns {eth : List U8} (fits : 60 ≤ eth.length) (ourMac : Mac) (ourIp : Ip)
    (req : RequestForUs) : Returns (writeReply eth ourMac ourIp req) (·.length = eth.length) :=
  writePacket_returns fits _ _ _ _ (by simp [Write.Inside])

end Whimbrel.Arp

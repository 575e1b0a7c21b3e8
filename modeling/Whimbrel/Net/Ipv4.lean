import Mathlib.Tactic.Tauto
import Whimbrel.Checksum

/-! IPv4 parse and header builder: `src/ipv4.rs`. -/

set_option autoImplicit false

namespace Whimbrel.Ipv4

open Checked

def ethHdr : Nat := 14
def ihlMin : U8 := 5
def version : U8 := 4
def protoIcmp : U8 := 1
def protoUdp : U8 := 17
def protoTcp : U8 := 6
def mf : U16 := 0x2000
def offMask : U16 := 0x1fff
def df : U16 := 0x4000

inductive Drop where
  | short
  | ver
  | ihl
  | csum
  | frag
  | dst
  | proto
  deriving DecidableEq, Repr

/-- The payload starts after the options; its length is from Total Length. -/
structure Datagram where
  src : Ip
  proto : U8
  payload : List U8
  deriving DecidableEq, Repr

def parse (drops : Counters Drop) (eth : List U8) (ourIp : Ip) : Result (Counters Drop × Option Datagram) := do
  if eth.length < ethHdr + 20 then
    return (drops.bump .short, none)
  let ip ← slice eth ethHdr eth.length
  if (← index ip 0) >>> 4 ≠ version then
    return (drops.bump .ver, none)
  let ihl := (← index ip 0) &&& (0x0f : U8)
  if ihl < ihlMin then
    return (drops.bump .ihl, none)
  let hlen := ihl.toNat * 4
  if ip.length < hlen then
    return (drops.bump .short, none)
  let tot := (← be16 ip 2).toNat
  if tot < hlen ∨ ethHdr + tot > eth.length then
    return (drops.bump .short, none)
  if ¬ Checksum.valid (← slice ip 0 hlen) then
    return (drops.bump .csum, none)
  let frag ← be16 ip 6
  if frag &&& mf ≠ 0 ∨ frag &&& offMask ≠ 0 then
    return (drops.bump .frag, none)
  let src ← readIp ip 12
  let dst ← readIp ip 16
  if dst ≠ ourIp then
    return (drops.bump .dst, none)
  let proto ← index ip 9
  if proto ≠ protoIcmp ∧ proto ≠ protoUdp ∧ proto ≠ protoTcp then
    return (drops.bump .proto, none)
  return (drops, some ⟨src, proto, ← slice ip hlen tot⟩)

def judge (eth : List U8) (ourIp : Ip) : Except Drop Datagram :=
  let ip := eth.drop ethHdr
  let hlen := (byteAt ip 0 &&& (0x0f : U8)).toNat * 4
  let tot := (word16 ip 2).toNat
  if eth.length < ethHdr + 20 then .error .short
  else if byteAt ip 0 >>> 4 ≠ version then .error .ver
  else if byteAt ip 0 &&& (0x0f : U8) < ihlMin then .error .ihl
  else if ip.length < hlen then .error .short
  else if tot < hlen ∨ ethHdr + tot > eth.length then .error .short
  else if ¬ Checksum.valid (ip.take hlen) then .error .csum
  else if word16 ip 6 &&& mf ≠ 0 ∨ word16 ip 6 &&& offMask ≠ 0 then .error .frag
  else if ipAt ip 16 ≠ ourIp then .error .dst
  else if byteAt ip 9 ≠ protoIcmp ∧ byteAt ip 9 ≠ protoUdp ∧ byteAt ip 9 ≠ protoTcp then .error .proto
  else .ok ⟨ipAt ip 12, byteAt ip 9, (ip.drop hlen).take (tot - hlen)⟩

theorem parse_eq (drops : Counters Drop) (eth : List U8) (ourIp : Ip) :
    parse drops eth ourIp =
      .ok (settle (fun r => (drops.bump r, none)) (fun d => (drops, some d)) (judge eth ourIp)) := by
  unfold parse judge
  refine settle_check rfl fun short => ?_
  have long : ethHdr ≤ eth.length := by omega
  have rest : (eth.drop ethHdr).take (eth.length - ethHdr) = eth.drop ethHdr :=
    List.take_of_length_le (by simp)
  rw [slice_ok long (Nat.le_refl _), rest]
  have length : (eth.drop ethHdr).length = eth.length - ethHdr := List.length_drop
  generalize eth.drop ethHdr = ip at length
  have size : 20 ≤ ip.length := by omega
  simp only [bind_ok, index_ok (show 0 < ip.length by omega), be16_ok (show 2 + 1 < ip.length by omega),
    be16_ok (show 6 + 1 < ip.length by omega), readIp_ok (show 12 + 4 ≤ ip.length by omega),
    readIp_ok (show 16 + 4 ≤ ip.length by omega), index_ok (show 9 < ip.length by omega)]
  refine settle_check rfl fun _ => settle_check rfl fun _ => settle_check rfl fun header => settle_check rfl fun total => ?_
  -- the header and the payload lie inside the datagram
  rw [slice_ok (Nat.zero_le _) (Nat.not_lt.mp header), slice_ok (by omega) (by omega)]
  simp only [bind_ok, List.drop_zero, Nat.sub_zero]
  exact settle_check rfl fun _ => settle_check rfl fun _ => settle_check rfl fun _ => settle_check rfl fun _ => rfl

theorem of_judge {eth : List U8} {ourIp : Ip} {d : Datagram} (accepted : judge eth ourIp = .ok d) :
    (d.proto = protoIcmp ∨ d.proto = protoUdp ∨ d.proto = protoTcp) ∧ ethHdr + 20 + d.payload.length ≤ eth.length := by
  obtain ⟨-, accepted⟩ := check_eq_ok accepted
  obtain ⟨-, accepted⟩ := check_eq_ok accepted
  obtain ⟨ihl, accepted⟩ := check_eq_ok accepted
  obtain ⟨-, accepted⟩ := check_eq_ok accepted
  obtain ⟨total, accepted⟩ := check_eq_ok accepted
  obtain ⟨-, accepted⟩ := check_eq_ok accepted
  obtain ⟨-, accepted⟩ := check_eq_ok accepted
  obtain ⟨-, accepted⟩ := check_eq_ok accepted
  obtain ⟨proto, accepted⟩ := check_eq_ok accepted
  cases accepted
  generalize eth.drop ethHdr = ip at ihl total proto ⊢
  have header : 20 ≤ (byteAt ip 0 &&& (0x0f : U8)).toNat * 4 := by
    have low := BitVec.le_def.mp (BitVec.not_lt.mp ihl)
    have five : ihlMin.toNat = 5 := rfl
    omega
  refine ⟨by simp only [ne_eq] at proto ⊢; tauto, ?_⟩
  simp only [List.length_take]
  omega

def writeHeader (ip : List U8) (total : U16) (proto : U8) (src dst : Ip) : Result (List U8) := do
  if ip.length < 20 then throw .builderBuf
  let ip ← copyAll ip [.at 0 (version <<< 4 ||| ihlMin), .at 1 0, ⟨2, 4, beBytes16 total⟩, ⟨4, 6, beBytes16 0⟩,
    ⟨6, 8, beBytes16 df⟩, .at 8 64, .at 9 proto, .at 10 0, .at 11 0, ⟨12, 16, src.toList⟩, ⟨16, 20, dst.toList⟩]
  let c := Checksum.checksum (← slice ip 0 20)
  copyIn ip 10 12 (beBytes16 c)

def headerFront (total : U16) (proto : U8) : List U8 :=
  [version <<< 4 ||| ihlMin, 0] ++ beBytes16 total ++ beBytes16 0 ++ beBytes16 df ++ [64, proto]

def header (total : U16) (proto : U8) (src dst : Ip) : List U8 :=
  headerFront total proto ++
    beBytes16 (Checksum.checksum (headerFront total proto ++ [0, 0] ++ (src.toList ++ dst.toList))) ++
    (src.toList ++ dst.toList)

section
variable {total : U16} {proto : U8} {src dst : Ip} {ip : List U8}

theorem headerFront_length : (headerFront total proto).length = 10 := rfl

@[simp] theorem header_length : (header total proto src dst).length = 20 := rfl

theorem writeHeader_eq (fits : 20 ≤ ip.length) :
    writeHeader ip total proto src dst = .ok (header total proto src dst ++ ip.drop 20) := by
  have written : copyAll ip [.at 0 (version <<< 4 ||| ihlMin), .at 1 0, ⟨2, 4, beBytes16 total⟩, ⟨4, 6, beBytes16 0⟩,
      ⟨6, 8, beBytes16 df⟩, .at 8 64, .at 9 proto, .at 10 0, .at 11 0, ⟨12, 16, src.toList⟩, ⟨16, 20, dst.toList⟩] =
      .ok (headerFront total proto ++ [0, 0] ++ (src.toList ++ dst.toList) ++ ip.drop 20) :=
    @copyAll_front ip [[version <<< 4 ||| ihlMin], [0], beBytes16 total, beBytes16 0, beBytes16 df, [64], [proto], [0], [0],
      src.toList, dst.toList] 20 rfl fits
  have summed : slice (headerFront total proto ++ [0, 0] ++ (src.toList ++ dst.toList) ++ ip.drop 20) 0 20 =
      .ok (headerFront total proto ++ [0, 0] ++ (src.toList ++ dst.toList)) := slice_front _ rfl
  have stored (sum : U16) : copyIn (headerFront total proto ++ [0, 0] ++ (src.toList ++ dst.toList) ++ ip.drop 20) 10 12
      (beBytes16 sum) = .ok (headerFront total proto ++ beBytes16 sum ++ (src.toList ++ dst.toList) ++ ip.drop 20) := by
    rw [List.append_assoc _ (src.toList ++ dst.toList), List.append_assoc _ (src.toList ++ dst.toList)]
    exact copyIn_field rfl rfl sum
  unfold writeHeader
  rw [if_neg (Nat.not_lt.mpr fits), written, bind_ok, summed, bind_ok]
  exact stored _

theorem valid_header : Checksum.valid (header total proto src dst) :=
  Checksum.valid_stored (show 20 ≤ 131070 by decide) (by rw [headerFront_length])

theorem writeHeader_returns (fits : 20 ≤ ip.length) (total : U16) (proto : U8) (src dst : Ip) :
    Returns (writeHeader ip total proto src dst) (·.length = ip.length) :=
  ⟨_, writeHeader_eq fits, front_written_length header_length fits⟩

/-- A datagram under any Ethernet header, with any padding, is taken out at its destination. -/
theorem judge_frame {eth transport pad : List U8} (ethernet : eth.length = ethHdr) (small : 20 + transport.length < 65536)
    (known : proto = protoIcmp ∨ proto = protoUdp ∨ proto = protoTcp) :
    judge (eth ++ (header (BitVec.ofNat 16 (20 + transport.length)) proto src dst ++ (transport ++ pad))) dst =
      .ok ⟨src, proto, transport⟩ := by
  have dropped {rest : List U8} : (eth ++ rest).drop ethHdr = rest := List.drop_left' ethernet
  have total : (BitVec.ofNat 16 (20 + transport.length)).toNat = 20 + transport.length := by
    rw [BitVec.toNat_ofNat, Nat.mod_eq_of_lt small]
  -- From here on the length field is a variable with a known value.
  generalize field : BitVec.ofNat 16 (20 + transport.length) = size at total
  have long : (eth ++ (header size proto src dst ++ (transport ++ pad))).length =
      ethHdr + 20 + transport.length + pad.length := by
    simp only [List.length_append, header_length, ethernet]
    omega
  have head : (header size proto src dst ++ (transport ++ pad)).take 20 = header size proto src dst := List.take_left' rfl
  have tail : (header size proto src dst ++ (transport ++ pad)).drop 20 = transport ++ pad := List.drop_left' rfl
  have first : byteAt (header size proto src dst ++ (transport ++ pad)) 0 = 0x45 := rfl
  have second : word16 (header size proto src dst ++ (transport ++ pad)) 2 = size := beBytes16_append size
  have fourth : word16 (header size proto src dst ++ (transport ++ pad)) 6 = df := beBytes16_append df
  have ninth : byteAt (header size proto src dst ++ (transport ++ pad)) 9 = proto := rfl
  have source : ipAt (header size proto src dst ++ (transport ++ pad)) 12 = src := rfl
  have target : ipAt (header size proto src dst ++ (transport ++ pad)) 16 = dst := rfl
  have headerLen : ((0x45 : U8) &&& (0x0f : U8)).toNat * 4 = 20 := by decide
  unfold judge
  simp only [dropped, first, second, fourth, ninth, source, target, total, headerLen, head, tail, long]
  have whole : (header size proto src dst ++ (transport ++ pad)).length = 20 + transport.length + pad.length := by
    rw [List.length_append, header_length, List.length_append, Nat.add_assoc]
  rw [if_neg (by omega), if_neg (by decide), if_neg (by decide), if_neg (by omega), if_neg (by omega),
    if_neg (not_not.mpr valid_header), if_neg (by decide), if_neg (not_not.mpr rfl), if_neg (by tauto),
    Nat.add_sub_cancel_left, List.take_left]

end

end Whimbrel.Ipv4

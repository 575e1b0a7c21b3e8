import Whimbrel.Checksum

/-! UDP echo port: `src/udp.rs`. -/

set_option autoImplicit false

namespace Whimbrel.Udp

open Checked

def hdr : Nat := 8
def echoPort : U16 := 7
def protoUdp : U8 := 17

def pseudoHeader (src dst : Ip) (udpLen : U16) : List U8 :=
  src.toList ++ dst.toList ++ [0, protoUdp] ++ beBytes16 udpLen

/-- `udp.len() as u16` truncates. -/
def udpSum (src dst : Ip) (udp : List U8) : U16 :=
  let pseudo := pseudoHeader src dst (BitVec.ofNat 16 udp.length)
  Checksum.fold (Checksum.accumulate (Checksum.accumulate 0 pseudo) udp)

/-- A computed 0 is sent as `0xffff`. -/
def storeChecksum (c : U16) : U16 := if c = 0 then 0xffff else c

def checksumTx (src dst : Ip) (udp : List U8) : U16 := storeChecksum (~~~ udpSum src dst udp)

def checksumValid (src dst : Ip) (udp : List U8) : Bool := udpSum src dst udp == 0xffff

inductive Drop where
  | short
  | len
  | csum
  | port
  deriving DecidableEq, Repr

structure Echo where
  srcPort : U16
  raw : List U8
  deriving DecidableEq, Repr

def parse (drops : Counters Drop) (payload : List U8) (src dst : Ip) : Result (Counters Drop × Option Echo) := do
  if payload.length < hdr then
    return (drops.bump .short, none)
  if (← be16 payload 4).toNat ≠ payload.length then
    return (drops.bump .len, none)
  if (← be16 payload 6) = 0 then
    return (drops.bump .csum, none)
  if ¬ checksumValid src dst payload then
    return (drops.bump .csum, none)
  if (← be16 payload 2) ≠ echoPort then
    return (drops.bump .port, none)
  return (drops, some ⟨← be16 payload 0, payload⟩)

def judge (payload : List U8) (src dst : Ip) : Except Drop Echo :=
  if payload.length < hdr then .error .short
  else if (word16 payload 4).toNat ≠ payload.length then .error .len
  else if word16 payload 6 = 0 then .error .csum
  else if ¬ checksumValid src dst payload then .error .csum
  else if word16 payload 2 ≠ echoPort then .error .port
  else .ok ⟨word16 payload 0, payload⟩

theorem parse_eq (drops : Counters Drop) (payload : List U8) (src dst : Ip) :
    parse drops payload src dst =
      .ok (settle (fun r => (drops.bump r, none)) (fun e => (drops, some e)) (judge payload src dst)) := by
  unfold parse judge
  refine settle_check rfl fun short => ?_
  rw [hdr] at short
  simp only [bind_ok, be16_ok (show 0 + 1 < payload.length by omega), be16_ok (show 2 + 1 < payload.length by omega),
    be16_ok (show 4 + 1 < payload.length by omega), be16_ok (show 6 + 1 < payload.length by omega)]
  exact settle_check rfl fun _ => settle_check rfl fun _ => settle_check rfl fun _ => settle_check rfl fun _ => rfl

theorem raw_of_judge {payload : List U8} {src dst : Ip} {echo : Echo} (accepted : judge payload src dst = .ok echo) :
    hdr ≤ echo.raw.length := by
  obtain ⟨long, accepted⟩ := check_eq_ok accepted
  obtain ⟨-, accepted⟩ := check_eq_ok accepted
  obtain ⟨-, accepted⟩ := check_eq_ok accepted
  obtain ⟨-, accepted⟩ := check_eq_ok accepted
  obtain ⟨-, accepted⟩ := check_eq_ok accepted
  cases accepted
  exact Nat.not_lt.mp long

def Echo.payload (e : Echo) : Result (List U8) := slice e.raw hdr e.raw.length

def writeDgram (dst : List U8) (srcPort dstPort : U16) (payload : List U8) (srcIp dstIp : Ip) :
    Result (List U8 × Nat) := do
  let n := hdr + payload.length
  if dst.length < n then throw .builderBuf
  let dst ← copyAll dst [⟨0, 2, beBytes16 srcPort⟩, ⟨2, 4, beBytes16 dstPort⟩,
    ⟨4, 6, beBytes16 (BitVec.ofNat 16 n)⟩, .at 6 0, .at 7 0, ⟨hdr, n, payload⟩]
  let c := checksumTx srcIp dstIp (← slice dst 0 n)
  let dst ← copyIn dst 6 8 (beBytes16 c)
  return (dst, n)

/-- Copy, swap the ports, new checksum. -/
def writeEcho (dst req : List U8) (srcIp dstIp : Ip) : Result (List U8 × Nat) := do
  if req.length < hdr then throw .builderBuf
  if dst.length < req.length then throw .builderBuf
  let dst ← copyIn dst 0 req.length req
  let dst ← copyIn dst 0 2 (← slice req 2 4)
  let dst ← copyIn dst 2 4 (← slice req 0 2)
  let dst ← copyAll dst [.at 6 0, .at 7 0]
  let c := checksumTx srcIp dstIp (← slice dst 0 req.length)
  let dst ← copyIn dst 6 8 (beBytes16 c)
  return (dst, req.length)

def front (srcPort dstPort : U16) (payload : List U8) : List U8 :=
  beBytes16 srcPort ++ beBytes16 dstPort ++ beBytes16 (BitVec.ofNat 16 (hdr + payload.length))

def dgram (srcPort dstPort : U16) (payload : List U8) (srcIp dstIp : Ip) : List U8 :=
  front srcPort dstPort payload ++
    beBytes16 (checksumTx srcIp dstIp (front srcPort dstPort payload ++ [0, 0] ++ payload)) ++ payload

section
variable {srcPort dstPort : U16} {payload dst req : List U8} {srcIp dstIp : Ip}

@[simp] theorem front_length : (front srcPort dstPort payload).length = 6 := rfl

@[simp] theorem dgram_length : (dgram srcPort dstPort payload srcIp dstIp).length = hdr + payload.length := by
  rw [dgram, List.length_append, List.length_append, front_length, beBytes16_length]
  rfl

theorem zeroed_length : (front srcPort dstPort payload ++ [0, 0] ++ payload).length = hdr + payload.length := by
  rw [List.length_append]
  rfl

theorem checksum_stored (rest : List U8) :
    let zeroed := front srcPort dstPort payload ++ [0, 0] ++ payload ++ rest
    slice zeroed 0 (hdr + payload.length) = .ok (front srcPort dstPort payload ++ [0, 0] ++ payload) ∧
    copyIn zeroed 6 8 (beBytes16 (checksumTx srcIp dstIp (front srcPort dstPort payload ++ [0, 0] ++ payload))) =
      .ok (dgram srcPort dstPort payload srcIp dstIp ++ rest) := by
  intro zeroed
  refine ⟨slice_front _ zeroed_length, ?_⟩
  rw [show zeroed = front srcPort dstPort payload ++ [0, 0] ++ (payload ++ rest) from List.append_assoc .., dgram,
    @copyIn_field _ _ 6 8 front_length rfl, List.append_assoc _ payload rest]

theorem writeDgram_eq (fits : hdr + payload.length ≤ dst.length) :
    writeDgram dst srcPort dstPort payload srcIp dstIp =
      .ok (dgram srcPort dstPort payload srcIp dstIp ++ dst.drop (hdr + payload.length), hdr + payload.length) := by
  have written : copyAll dst [⟨0, 2, beBytes16 srcPort⟩, ⟨2, 4, beBytes16 dstPort⟩,
      ⟨4, 6, beBytes16 (BitVec.ofNat 16 (hdr + payload.length))⟩, .at 6 0, .at 7 0, ⟨hdr, hdr + payload.length, payload⟩] =
      .ok (front srcPort dstPort payload ++ [0, 0] ++ payload ++ dst.drop (hdr + payload.length)) := by
    have same : [beBytes16 srcPort, beBytes16 dstPort, beBytes16 (BitVec.ofNat 16 (hdr + payload.length)), [0], [0],
        payload].flatten = front srcPort dstPort payload ++ [0, 0] ++ payload := by
      simp [front]
    rw [← same]
    exact copyAll_front (same ▸ zeroed_length) fits
  obtain ⟨summed, stored⟩ := @checksum_stored srcPort dstPort payload srcIp dstIp (dst.drop (hdr + payload.length))
  unfold writeDgram
  dsimp only
  rw [if_neg (Nat.not_lt.mpr fits), written, bind_ok, summed, bind_ok, stored]
  rfl

theorem writeDgram_returns (fits : hdr + payload.length ≤ dst.length) (srcPort dstPort : U16) (srcIp dstIp : Ip) :
    Returns (writeDgram dst srcPort dstPort payload srcIp dstIp) (·.1.length = dst.length) :=
  ⟨_, writeDgram_eq fits, front_written_length dgram_length fits⟩

/-- A request whose length field is right is turned round. -/
theorem writeEcho_eq (header : hdr ≤ req.length) (length : (word16 req 4).toNat = req.length) (fits : req.length ≤ dst.length) :
    writeEcho dst req srcIp dstIp =
      .ok (dgram (word16 req 2) (word16 req 0) (req.drop hdr) srcIp dstIp ++ dst.drop req.length, req.length) := by
  have copied : copyIn dst 0 req.length req = .ok (req ++ dst.drop req.length) :=
    (copyFromSlice_of_le _ (Nat.zero_le _) fits rfl).trans (by rw [List.take_zero, List.nil_append])
  unfold writeEcho
  rw [if_neg (Nat.not_lt.mpr header), if_neg (Nat.not_lt.mpr fits), copied, bind_ok]
  clear copied
  -- The eight bytes of the header by name, for the two ports to be swapped.
  match req, header with
  | a :: b :: c :: d :: e :: f :: g :: h :: payload, _ =>
    have size : (a :: b :: c :: d :: e :: f :: g :: h :: payload).length = hdr + payload.length := by
      simp only [List.length_cons, hdr]
      omega
    have field : BitVec.ofNat 16 (hdr + payload.length) = e ++ f := by
      rw [← size, ← length, BitVec.ofNat_toNat, BitVec.setWidth_eq]
      rfl
    have swapped : front (c ++ d) (a ++ b) payload = [c, d, a, b, e, f] := by
      rw [front, field, beBytes16_bytes, beBytes16_bytes, beBytes16_bytes]
      rfl
    rw [size]
    obtain ⟨summed, stored⟩ := @checksum_stored (c ++ d) (a ++ b) payload srcIp dstIp (dst.drop (hdr + payload.length))
    rw [swapped] at summed stored
    generalize dst.drop (hdr + payload.length) = rest at summed stored ⊢
    have dstPort : slice (a :: b :: c :: d :: e :: f :: g :: h :: payload) 2 4 = .ok [c, d] := by simp [slice, Checked.slice]
    have srcPort : slice (a :: b :: c :: d :: e :: f :: g :: h :: payload) 0 2 = .ok [a, b] := by simp [slice, Checked.slice]
    have first : copyIn (a :: b :: c :: d :: e :: f :: g :: h :: payload ++ rest) 0 2 [c, d] =
        .ok (c :: d :: c :: d :: e :: f :: g :: h :: payload ++ rest) := by simp [copyIn, copyFromSlice]
    have second : copyIn (c :: d :: c :: d :: e :: f :: g :: h :: payload ++ rest) 2 4 [a, b] =
        .ok (c :: d :: a :: b :: e :: f :: g :: h :: payload ++ rest) := by simp [copyIn, copyFromSlice]
    have zeroed : copyAll (c :: d :: a :: b :: e :: f :: g :: h :: payload ++ rest) [.at 6 0, .at 7 0] =
        .ok ([c, d, a, b, e, f] ++ [0, 0] ++ payload ++ rest) := by
      simp [copyAll, copyFromSlice, Checked.copyAll, Write.at]
    rw [dstPort, bind_ok, first, bind_ok, srcPort, bind_ok, second, bind_ok, zeroed, bind_ok, summed, bind_ok]
    dsimp only
    rw [stored]
    rfl

theorem pseudoHeader_length (src dst : Ip) (len : U16) : (pseudoHeader src dst len).length = 12 := rfl

theorem udpSum_eq (src dst : Ip) (udp : List U8) :
    udpSum src dst udp = Checksum.sum (pseudoHeader src dst (BitVec.ofNat 16 udp.length) ++ udp) := by
  rw [udpSum, Checksum.sum, Checksum.accumulate_append (by rw [pseudoHeader_length])]

theorem checksumTx_ne_zero (src dst : Ip) (udp : List U8) : checksumTx src dst udp ≠ 0 := by
  unfold checksumTx storeChecksum
  split
  · decide
  · assumption

theorem checksumValid_dgram (short : hdr + payload.length ≤ 65535) :
    checksumValid srcIp dstIp (dgram srcPort dstPort payload srcIp dstIp) := by
  have length : (front srcPort dstPort payload ++ [0, 0] ++ payload).length = hdr + payload.length := zeroed_length
  have sent := udpSum_eq srcIp dstIp (front srcPort dstPort payload ++ [0, 0] ++ payload)
  have received := udpSum_eq srcIp dstIp (dgram srcPort dstPort payload srcIp dstIp)
  rw [length] at sent
  rw [dgram_length, dgram] at received
  generalize pseudo : pseudoHeader srcIp dstIp (BitVec.ofNat 16 (hdr + payload.length)) = p at sent received
  have twelve : p.length = 12 := pseudo ▸ pseudoHeader_length ..
  have even : (p ++ front srcPort dstPort payload).length % 2 = 0 := by
    rw [List.length_append, twelve, front_length]
  have fits : (p ++ front srcPort dstPort payload ++ [0, 0] ++ payload).length ≤ 131070 := by
    rw [List.append_assoc p, List.append_assoc p, List.length_append, length, twelve]
    omega
  rw [← List.append_assoc, ← List.append_assoc] at sent received
  rw [checksumValid, dgram, received]
  change Checksum.valid _
  rw [checksumTx, storeChecksum]
  -- A sum of zero is sent as all ones, which validates as well.
  split
  case isTrue zero =>
    rw [sent] at zero
    exact Checksum.valid_stored_ones fits even zero
  case isFalse =>
    rw [sent]
    exact Checksum.valid_stored fits even

def judgeAt (port : U16) (payload : List U8) (src dst : Ip) : Except Drop Echo :=
  if payload.length < hdr then .error .short
  else if (word16 payload 4).toNat ≠ payload.length then .error .len
  else if word16 payload 6 = 0 then .error .csum
  else if ¬ checksumValid src dst payload then .error .csum
  else if word16 payload 2 ≠ port then .error .port
  else .ok ⟨word16 payload 0, payload⟩

theorem judgeAt_echoPort : judgeAt echoPort = judge := rfl

theorem word16_dgram :
    word16 (dgram srcPort dstPort payload srcIp dstIp) 0 = srcPort ∧
    word16 (dgram srcPort dstPort payload srcIp dstIp) 2 = dstPort ∧
    word16 (dgram srcPort dstPort payload srcIp dstIp) 4 = BitVec.ofNat 16 (hdr + payload.length) ∧
    word16 (dgram srcPort dstPort payload srcIp dstIp) 6 =
      checksumTx srcIp dstIp (front srcPort dstPort payload ++ [0, 0] ++ payload) :=
  ⟨beBytes16_append _, beBytes16_append _, beBytes16_append _, beBytes16_append _⟩

theorem judgeAt_dgram (short : hdr + payload.length ≤ 65535) :
    judgeAt dstPort (dgram srcPort dstPort payload srcIp dstIp) srcIp dstIp =
      .ok ⟨srcPort, dgram srcPort dstPort payload srcIp dstIp⟩ := by
  obtain ⟨first, second, third, fourth⟩ := @word16_dgram srcPort dstPort payload srcIp dstIp
  have exact16 : (BitVec.ofNat 16 (hdr + payload.length)).toNat = hdr + payload.length := by
    rw [BitVec.toNat_ofNat, Nat.mod_eq_of_lt (by omega)]
  rw [judgeAt, first, second, third, fourth, dgram_length, exact16, if_neg (by omega), if_neg (by omega),
    if_neg (checksumTx_ne_zero _ _ _), if_neg (not_not.mpr (checksumValid_dgram short)), if_neg (not_not.mpr rfl)]

end

/-- On an accepted request the two builders write one and the same reply into any buffer that holds
it; its checksum field is not zero and a peer listening on the request's port accepts it. -/
theorem echo_builders_agree {drops drops' : Counters Drop} {req : List U8} {peer ours : Ip} {echo : Echo}
    (accepted : parse drops req peer ours = .ok (drops', some echo)) :
    ∃ payload reply, echo.payload = .ok payload ∧ reply.length = req.length ∧
      (∀ dst : List U8, req.length ≤ dst.length →
        writeEcho dst req ours peer = .ok (reply ++ dst.drop req.length, req.length) ∧
        writeDgram dst echoPort echo.srcPort payload ours peer = .ok (reply ++ dst.drop req.length, req.length)) ∧
      word16 reply 6 ≠ 0 ∧ judgeAt echo.srcPort reply ours peer = .ok ⟨echoPort, reply⟩ := by
  rw [parse_eq] at accepted
  cases judged : judge req peer ours with
  | error r =>
    rw [judged] at accepted
    cases accepted
  | ok e =>
    rw [judged] at accepted
    cases accepted
    obtain ⟨long, judged⟩ := check_eq_ok judged
    obtain ⟨length, judged⟩ := check_eq_ok judged
    obtain ⟨-, judged⟩ := check_eq_ok judged
    obtain ⟨-, judged⟩ := check_eq_ok judged
    obtain ⟨port, judged⟩ := check_eq_ok judged
    cases judged
    have header : hdr ≤ req.length := Nat.not_lt.mp long
    have length := not_not.mp length
    have port := not_not.mp port
    have size : hdr + (req.drop hdr).length = req.length := by
      rw [List.length_drop]
      omega
    -- The length field is 16 bits wide and equal to the length.
    have small : hdr + (req.drop hdr).length ≤ 65535 := by
      have bound := (word16 req 4).isLt
      omega
    refine ⟨req.drop hdr, dgram echoPort (word16 req 0) (req.drop hdr) ours peer, ?_, ?_, fun dst fits => ⟨?_, ?_⟩, ?_, ?_⟩
    · rw [Echo.payload, slice_ok header (Nat.le_refl _), List.take_of_length_le (by simp)]
    · rw [dgram_length, size]
    · rw [writeEcho_eq header length fits, port]
    · rw [writeDgram_eq (size ▸ fits), size]
    · rw [word16_dgram.2.2.2]
      exact checksumTx_ne_zero _ _ _
    · exact judgeAt_dgram small

/-- The self-test's request, a payload of twelve bytes from port 12345. -/
theorem echo_builders_agree_selftest :
    let data : List U8 := [119, 104, 105, 109, 98, 114, 101, 108, 45, 117, 100, 112]
    let req := dgram 12345 echoPort data gwIp ourIp
    ∃ reply : List U8, reply.length = 20 ∧
      writeEcho (List.replicate 32 0) req ourIp gwIp = .ok (reply ++ List.replicate 12 0, 20) ∧
      judgeAt 12345 reply ourIp gwIp = .ok ⟨echoPort, reply⟩ := by
  intro data req
  have accepted : parse (fun _ => 0) req gwIp ourIp = .ok (fun _ => 0, some ⟨12345, req⟩) := by
    rw [parse_eq, ← judgeAt_echoPort, judgeAt_dgram (by decide)]
    rfl
  obtain ⟨payload, reply, -, length, builders, -, heard⟩ := echo_builders_agree accepted
  exact ⟨reply, length, (builders (List.replicate 32 0) (by decide)).1, heard⟩

end Whimbrel.Udp

import Whimbrel.Tcp.Step

/-! The two TCP builders, `write_synack` and `write_seg`.

Each writes at the front of `dst`, leaves the rest as it was and returns how
many bytes it used. -/

set_option autoImplicit false

namespace Whimbrel.Tcp

open Checked

def writeSynack (dst : List U8) (srcPort dstPort : U16) (seq ack : U32) (srcIp dstIp : Ip) :
    Result (List U8 × Nat) := do
  if dst.length < synackHlen then throw .builderBuf
  let dst ← copyAll dst [⟨0, 2, beBytes16 srcPort⟩, ⟨2, 4, beBytes16 dstPort⟩, ⟨4, 8, beBytes32 seq⟩,
    ⟨8, 12, beBytes32 ack⟩, .at 12 ((6 : U8) <<< 4), .at 13 (Flag.syn ||| Flag.ack),
    ⟨14, 16, beBytes16 window⟩, .at 16 0, .at 17 0, .at 18 0, .at 19 0, .at 20 optMss,
    .at 21 (BitVec.ofNat 8 optMssLen), ⟨22, 24, beBytes16 ourMss⟩]
  let c := checksumTx srcIp dstIp (← slice dst 0 synackHlen)
  let dst ← copyIn dst 16 18 (beBytes16 c)
  return (dst, synackHlen)

def writeSeg (dst : List U8) (srcPort dstPort : U16) (seq ack : U32) (flags : U8)
    (payload : List U8) (srcIp dstIp : Ip) : Result (List U8 × Nat) := do
  let n := hdrMin + payload.length
  if dst.length < n then throw .builderBuf
  let dst ← copyAll dst ([⟨0, 2, beBytes16 srcPort⟩, ⟨2, 4, beBytes16 dstPort⟩, ⟨4, 8, beBytes32 seq⟩,
    ⟨8, 12, beBytes32 ack⟩, .at 12 ((5 : U8) <<< 4), .at 13 flags, ⟨14, 16, beBytes16 window⟩,
    .at 16 0, .at 17 0, .at 18 0, .at 19 0] ++ if payload ≠ [] then [⟨hdrMin, n, payload⟩] else [])
  let c := checksumTx srcIp dstIp (← slice dst 0 n)
  let dst ← copyIn dst 16 18 (beBytes16 c)
  return (dst, n)

def front (srcPort dstPort : U16) (seq ack : U32) (doff flags : U8) : List U8 :=
  beBytes16 srcPort ++ beBytes16 dstPort ++ beBytes32 seq ++ beBytes32 ack ++ [doff, flags] ++ beBytes16 window

def summed (before rest : List U8) (srcIp dstIp : Ip) : List U8 :=
  before ++ beBytes16 (checksumTx srcIp dstIp (before ++ [0, 0] ++ rest)) ++ rest

def synackBytes (srcPort dstPort : U16) (seq ack : U32) (srcIp dstIp : Ip) : List U8 :=
  summed (front srcPort dstPort seq ack ((6 : U8) <<< 4) (Flag.syn ||| Flag.ack))
    ([0, 0, optMss, BitVec.ofNat 8 optMssLen] ++ beBytes16 ourMss) srcIp dstIp

def segBytes (srcPort dstPort : U16) (seq ack : U32) (flags : U8) (payload : List U8) (srcIp dstIp : Ip) : List U8 :=
  summed (front srcPort dstPort seq ack ((5 : U8) <<< 4) flags) ([0, 0] ++ payload) srcIp dstIp

section
variable {srcPort dstPort : U16} {seq ack : U32} {doff flags : U8} {payload before rest dst : List U8} {srcIp dstIp : Ip}

theorem front_length : (front srcPort dstPort seq ack doff flags).length = 16 := rfl

theorem summed_length : (summed before rest srcIp dstIp).length = before.length + 2 + rest.length := by
  rw [summed, List.length_append, List.length_append, beBytes16_length]

theorem synackBytes_length : (synackBytes srcPort dstPort seq ack srcIp dstIp).length = synackHlen := rfl

theorem segBytes_length : (segBytes srcPort dstPort seq ack flags payload srcIp dstIp).length = hdrMin + payload.length := by
  rw [segBytes, summed_length, front_length, List.length_append, hdrMin]
  exact (Nat.add_assoc 18 2 payload.length).symm

theorem checksum_stored {n : Nat} (before rest tail : List U8) (length : before.length = 16)
    (size : before.length + 2 + rest.length = n) :
    slice (before ++ [0, 0] ++ rest ++ tail) 0 n = .ok (before ++ [0, 0] ++ rest) ∧
    copyIn (before ++ [0, 0] ++ rest ++ tail) 16 18 (beBytes16 (checksumTx srcIp dstIp (before ++ [0, 0] ++ rest))) =
      .ok (summed before rest srcIp dstIp ++ tail) := by
  constructor
  · refine slice_front _ ?_
    rw [← size, List.length_append, List.length_append]
    rfl
  · rw [List.append_assoc _ rest tail, @copyIn_field _ _ 16 18 length rfl, summed, List.append_assoc _ rest tail]

theorem writeSynack_eq (fits : synackHlen ≤ dst.length) :
    writeSynack dst srcPort dstPort seq ack srcIp dstIp =
      .ok (synackBytes srcPort dstPort seq ack srcIp dstIp ++ dst.drop synackHlen, synackHlen) := by
  have written : copyAll dst [⟨0, 2, beBytes16 srcPort⟩, ⟨2, 4, beBytes16 dstPort⟩, ⟨4, 8, beBytes32 seq⟩,
      ⟨8, 12, beBytes32 ack⟩, .at 12 ((6 : U8) <<< 4), .at 13 (Flag.syn ||| Flag.ack), ⟨14, 16, beBytes16 window⟩,
      .at 16 0, .at 17 0, .at 18 0, .at 19 0, .at 20 optMss, .at 21 (BitVec.ofNat 8 optMssLen),
      ⟨22, 24, beBytes16 ourMss⟩] =
      .ok (front srcPort dstPort seq ack ((6 : U8) <<< 4) (Flag.syn ||| Flag.ack) ++ [0, 0] ++
        ([0, 0, optMss, BitVec.ofNat 8 optMssLen] ++ beBytes16 ourMss) ++ dst.drop synackHlen) :=
    @copyAll_front dst [beBytes16 srcPort, beBytes16 dstPort, beBytes32 seq, beBytes32 ack, [(6 : U8) <<< 4],
      [Flag.syn ||| Flag.ack], beBytes16 window, [0], [0], [0], [0], [optMss], [BitVec.ofNat 8 optMssLen],
      beBytes16 ourMss] synackHlen rfl fits
  obtain ⟨sliced, stored⟩ := @checksum_stored srcIp dstIp synackHlen
    (front srcPort dstPort seq ack ((6 : U8) <<< 4) (Flag.syn ||| Flag.ack))
    ([0, 0, optMss, BitVec.ofNat 8 optMssLen] ++ beBytes16 ourMss) (dst.drop synackHlen) rfl rfl
  unfold writeSynack
  rw [if_neg (Nat.not_lt.mpr fits), written, bind_ok, sliced, bind_ok]
  dsimp only
  rw [stored]
  rfl

theorem writeSeg_eq (fits : hdrMin + payload.length ≤ dst.length) :
    writeSeg dst srcPort dstPort seq ack flags payload srcIp dstIp =
      .ok (segBytes srcPort dstPort seq ack flags payload srcIp dstIp ++ dst.drop (hdrMin + payload.length),
        hdrMin + payload.length) := by
  have size : (front srcPort dstPort seq ack ((5 : U8) <<< 4) flags ++ [0, 0] ++ ([0, 0] ++ payload)).length =
      hdrMin + payload.length := by
    rw [List.length_append, List.length_append, List.length_append, ← Nat.add_assoc]
    rfl
  have written : copyAll dst ([⟨0, 2, beBytes16 srcPort⟩, ⟨2, 4, beBytes16 dstPort⟩, ⟨4, 8, beBytes32 seq⟩,
      ⟨8, 12, beBytes32 ack⟩, .at 12 ((5 : U8) <<< 4), .at 13 flags, ⟨14, 16, beBytes16 window⟩,
      .at 16 0, .at 17 0, .at 18 0, .at 19 0] ++
        if payload ≠ [] then [⟨hdrMin, hdrMin + payload.length, payload⟩] else []) =
      .ok (front srcPort dstPort seq ack ((5 : U8) <<< 4) flags ++ [0, 0] ++ ([0, 0] ++ payload) ++
        dst.drop (hdrMin + payload.length)) := by
    -- The payload is copied only if there is one.
    by_cases empty : payload = []
    · subst empty
      exact @copyAll_front dst [beBytes16 srcPort, beBytes16 dstPort, beBytes32 seq, beBytes32 ack, [(5 : U8) <<< 4],
        [flags], beBytes16 window, [0], [0], [0], [0]] hdrMin rfl fits
    · rw [if_pos empty]
      have same : [beBytes16 srcPort, beBytes16 dstPort, beBytes32 seq, beBytes32 ack, [(5 : U8) <<< 4],
          [flags], beBytes16 window, [0], [0], [0], [0], payload].flatten =
          front srcPort dstPort seq ack ((5 : U8) <<< 4) flags ++ [0, 0] ++ ([0, 0] ++ payload) := by
        simp [front]
      rw [← same]
      exact copyAll_front (same ▸ size) fits
  obtain ⟨sliced, stored⟩ := @checksum_stored srcIp dstIp (hdrMin + payload.length)
    (front srcPort dstPort seq ack ((5 : U8) <<< 4) flags) ([0, 0] ++ payload) (dst.drop (hdrMin + payload.length)) rfl
    (@summed_length _ _ srcIp dstIp ▸ segBytes_length)
  unfold writeSeg
  dsimp only
  rw [if_neg (Nat.not_lt.mpr fits), written, bind_ok, sliced, bind_ok, stored]
  rfl

theorem writeSynack_returns (fits : synackHlen ≤ dst.length) (srcPort dstPort : U16) (seq ack : U32) (srcIp dstIp : Ip) :
    Returns (writeSynack dst srcPort dstPort seq ack srcIp dstIp) (·.1.length = dst.length) :=
  ⟨_, writeSynack_eq fits, front_written_length synackBytes_length fits⟩

theorem writeSeg_returns (fits : hdrMin + payload.length ≤ dst.length) (srcPort dstPort : U16) (seq ack : U32) (flags : U8)
    (srcIp dstIp : Ip) :
    Returns (writeSeg dst srcPort dstPort seq ack flags payload srcIp dstIp) (·.1.length = dst.length) :=
  ⟨_, writeSeg_eq fits, front_written_length segBytes_length fits⟩

theorem pseudoHeader_length (src dst : Ip) (len : U16) : (pseudoHeader src dst len).length = 12 := rfl

theorem tcpSum_eq (src dst : Ip) (tcp : List U8) :
    tcpSum src dst tcp = Checksum.sum (pseudoHeader src dst (BitVec.ofNat 16 tcp.length) ++ tcp) := by
  rw [tcpSum, Checksum.sum, Checksum.accumulate_append (by rw [pseudoHeader_length])]

theorem checksumValid_summed (even : before.length % 2 = 0) (short : before.length + 2 + rest.length ≤ 65535) :
    checksumValid srcIp dstIp (summed before rest srcIp dstIp) := by
  have length : (before ++ [0, 0] ++ rest).length = before.length + 2 + rest.length := by
    rw [List.length_append, List.length_append]
    rfl
  have sent := tcpSum_eq srcIp dstIp (before ++ [0, 0] ++ rest)
  have received := tcpSum_eq srcIp dstIp (summed before rest srcIp dstIp)
  rw [length] at sent
  rw [summed_length, summed] at received
  generalize pseudo : pseudoHeader srcIp dstIp (BitVec.ofNat 16 (before.length + 2 + rest.length)) = p at sent received
  have twelve : p.length = 12 := pseudo ▸ pseudoHeader_length ..
  have aligned : (p ++ before).length % 2 = 0 := by
    rw [List.length_append, twelve]
    omega
  have fits : (p ++ before ++ [0, 0] ++ rest).length ≤ 131070 := by
    rw [List.append_assoc p, List.append_assoc p, List.length_append, length, twelve]
    omega
  rw [← List.append_assoc, ← List.append_assoc] at sent received
  rw [checksumValid, summed, received]
  change Checksum.valid _
  rw [checksumTx, sent]
  exact Checksum.valid_stored fits aligned

theorem fields_summed :
    let tcp := summed (front srcPort dstPort seq ack doff flags) rest srcIp dstIp
    word16 tcp 0 = srcPort ∧ word16 tcp 2 = dstPort ∧ word32 tcp 4 = seq ∧ word32 tcp 8 = ack ∧
      byteAt tcp 12 = doff ∧ byteAt tcp 13 = flags :=
  ⟨beBytes16_append _, beBytes16_append _, beBytes32_append _, beBytes32_append _, rfl, rfl⟩

theorem segmentOf_segBytes :
    segmentOf (segBytes srcPort dstPort seq ack flags payload srcIp dstIp) = ⟨srcPort, seq, ack, flags, payload⟩ ∧
    headerLen (segBytes srcPort dstPort seq ack flags payload srcIp dstIp) = hdrMin := by
  have five : (((5 : U8) <<< 4) >>> 4).toNat * 4 = hdrMin := by decide
  obtain ⟨sport, -, seqs, acks, offset, flag⟩ :=
    @fields_summed srcPort dstPort seq ack ((5 : U8) <<< 4) flags ([0, 0] ++ payload) srcIp dstIp
  have length : headerLen (segBytes srcPort dstPort seq ack flags payload srcIp dstIp) = hdrMin := by
    rw [headerLen, segBytes, offset, five]
  refine ⟨?_, length⟩
  rw [segmentOf, length, segBytes, sport, seqs, acks, flag]
  rfl

theorem segmentOf_synackBytes :
    segmentOf (synackBytes srcPort dstPort seq ack srcIp dstIp) = ⟨srcPort, seq, ack, Flag.syn ||| Flag.ack, []⟩ ∧
    headerLen (synackBytes srcPort dstPort seq ack srcIp dstIp) = synackHlen ∧
    parseMss (synackBytes srcPort dstPort seq ack srcIp dstIp) synackHlen = .ok (some ourMss) := by
  have six : (((6 : U8) <<< 4) >>> 4).toNat * 4 = synackHlen := by decide
  obtain ⟨sport, -, seqs, acks, offset, flag⟩ :=
    @fields_summed srcPort dstPort seq ack ((6 : U8) <<< 4) (Flag.syn ||| Flag.ack)
      ([0, 0, optMss, BitVec.ofNat 8 optMssLen] ++ beBytes16 ourMss) srcIp dstIp
  have length : headerLen (synackBytes srcPort dstPort seq ack srcIp dstIp) = synackHlen := by
    rw [headerLen, synackBytes, offset, six]
  refine ⟨?_, length, ?_⟩
  · rw [segmentOf, length, synackBytes, sport, seqs, acks, flag]
    rfl
  · rfl

/-- A segment for the listening port passes the checks of `handle`. -/
theorem decode_summed {tcp : List U8} (is : tcp = summed (front srcPort listenPort seq ack doff flags) rest srcIp dstIp)
    (offset : hdrMin ≤ headerLen tcp) (within : headerLen tcp ≤ tcp.length) (short : tcp.length ≤ 65535) :
    decode tcp srcIp dstIp = .ok (segmentOf tcp) := by
  have port : word16 tcp 2 = listenPort := is ▸ fields_summed.2.1
  have valid : checksumValid srcIp dstIp tcp := by
    rw [is, summed_length] at short
    rw [is]
    exact checksumValid_summed (by rw [front_length]) short
  have words : ¬ byteAt tcp 12 >>> 4 < 5 := by
    rw [headerLen, hdrMin] at offset
    have five : (5 : U8).toNat = 5 := rfl
    rw [BitVec.lt_def, five]
    omega
  have header : ¬ (byteAt tcp 12 >>> 4 < 5 ∨ headerLen tcp < hdrMin ∨ tcp.length < headerLen tcp) := by
    rintro (few | few | few)
    · exact words few
    · omega
    · omega
  rw [decode, if_neg (by omega), if_neg header, if_neg (not_not.mpr valid), if_neg (not_not.mpr port)]

end

/-- A segment from port 40000 of the gateway, for concrete runs. -/
def peerSeg (seq ack : U32) (flags : U8) (data : List U8) : List U8 :=
  match writeSeg (List.replicate (hdrMin + data.length) 0) 40000 listenPort seq ack flags data gwIp ourIp with
  | .ok (bytes, _) => bytes
  | .error _ => []

end Whimbrel.Tcp

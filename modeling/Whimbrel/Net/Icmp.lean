import Whimbrel.Checksum

/-! ICMP echo: `src/icmp.rs`. -/

set_option autoImplicit false

namespace Whimbrel.Icmp

open Checked

def typeEchoReply : U8 := 0
def typeEchoReq : U8 := 8
def hdr : Nat := 8

inductive Drop where
  | short
  | csum
  | type
  deriving DecidableEq, Repr

inductive Msg where
  | echoReq (id seq : U16) (raw : List U8)
  | echoReply (id seq : U16)
  deriving DecidableEq, Repr

/-- `none`: dropped, and counted. -/
def parse (drops : Counters Drop) (payload : List U8) : Result (Counters Drop × Option Msg) := do
  if payload.length < hdr then
    return (drops.bump .short, none)
  if ¬ Checksum.valid payload then
    return (drops.bump .csum, none)
  let typ ← index payload 0
  if (← index payload 1) ≠ 0 then
    return (drops.bump .type, none)
  let id ← be16 payload 4
  let seq ← be16 payload 6
  if typ = typeEchoReq then
    return (drops, some (.echoReq id seq payload))
  if typ = typeEchoReply then
    return (drops, some (.echoReply id seq))
  return (drops.bump .type, none)

def judge (payload : List U8) : Except Drop Msg :=
  if payload.length < hdr then .error .short
  else if ¬ Checksum.valid payload then .error .csum
  else if byteAt payload 1 ≠ 0 then .error .type
  else if byteAt payload 0 = typeEchoReq then .ok (.echoReq (word16 payload 4) (word16 payload 6) payload)
  else if byteAt payload 0 = typeEchoReply then .ok (.echoReply (word16 payload 4) (word16 payload 6))
  else .error .type

theorem parse_eq (drops : Counters Drop) (payload : List U8) :
    parse drops payload =
      .ok (settle (fun r => (drops.bump r, none)) (fun m => (drops, some m)) (judge payload)) := by
  unfold parse judge
  refine settle_check rfl fun short => settle_check rfl fun _ => ?_
  rw [hdr] at short
  simp only [bind_ok, index_ok (show 0 < payload.length by omega), index_ok (show 1 < payload.length by omega),
    be16_ok (show 4 + 1 < payload.length by omega), be16_ok (show 6 + 1 < payload.length by omega)]
  refine settle_check rfl fun _ => ?_
  by_cases request : byteAt payload 0 = typeEchoReq
  · rw [if_pos request, if_pos request]
    rfl
  rw [if_neg request, if_neg request]
  by_cases reply : byteAt payload 0 = typeEchoReply
  · rw [if_pos reply, if_pos reply]
    rfl
  · rw [if_neg reply, if_neg reply]
    rfl

theorem raw_of_judge {payload raw : List U8} {id seq : U16} (request : judge payload = .ok (.echoReq id seq raw)) :
    raw = payload ∧ hdr ≤ payload.length := by
  obtain ⟨long, request⟩ := check_eq_ok request
  obtain ⟨-, request⟩ := check_eq_ok request
  obtain ⟨-, request⟩ := check_eq_ok request
  refine ⟨?_, Nat.not_lt.mp long⟩
  split at request
  · cases request
    rfl
  · split at request <;> cases request

def writeEchoReq (icmp : List U8) (id seq : U16) (data : List U8) : Result (List U8 × Nat) := do
  let n := hdr + data.length
  if icmp.length < n then throw .builderBuf
  let icmp ← copyAll icmp [.at 0 typeEchoReq, .at 1 0, .at 2 0, .at 3 0, ⟨4, 6, beBytes16 id⟩,
    ⟨6, 8, beBytes16 seq⟩, ⟨hdr, n, data⟩]
  let c := Checksum.checksum (← slice icmp 0 n)
  let icmp ← copyIn icmp 2 4 (beBytes16 c)
  return (icmp, n)

/-- Type 8 to 0, the rest as it came, new checksum. -/
def writeEchoReply (dst req : List U8) : Result (List U8 × Nat) := do
  if req.length < hdr then throw .builderBuf
  if dst.length < req.length then throw .builderBuf
  let dst ← copyAll dst [⟨0, req.length, req⟩, .at 0 typeEchoReply, .at 2 0, .at 3 0]
  let c := Checksum.checksum (← slice dst 0 req.length)
  let dst ← copyIn dst 2 4 (beBytes16 c)
  return (dst, req.length)

def replyBytes (req : List U8) : List U8 :=
  [typeEchoReply, byteAt req 1] ++ beBytes16 (Checksum.checksum ([typeEchoReply, byteAt req 1] ++ [0, 0] ++ req.drop 4)) ++
    req.drop 4

section
variable {req dst : List U8}

theorem replyBytes_length (long : hdr ≤ req.length) : (replyBytes req).length = req.length := by
  rw [replyBytes, List.length_append, List.length_drop]
  rw [hdr] at long
  change 4 + (req.length - 4) = req.length
  omega

theorem writeEchoReply_eq (long : hdr ≤ req.length) (fits : req.length ≤ dst.length) :
    writeEchoReply dst req = .ok (replyBytes req ++ dst.drop req.length, req.length) := by
  have copied : copyIn dst 0 req.length req = .ok (req ++ dst.drop req.length) :=
    (copyFromSlice_of_le _ (Nat.zero_le _) fits rfl).trans (by rw [List.take_zero, List.nil_append])
  have size := replyBytes_length long
  unfold writeEchoReply
  rw [if_neg (Nat.not_lt.mpr long), if_neg (Nat.not_lt.mpr fits)]
  have written : copyAll dst [⟨0, req.length, req⟩, .at 0 typeEchoReply, .at 2 0, .at 3 0] =
      .ok ([typeEchoReply, byteAt req 1] ++ [0, 0] ++ req.drop 4 ++ dst.drop req.length) := by
    refine (congrArg (· >>= (copyAll · [.at 0 typeEchoReply, .at 2 0, .at 3 0])) copied).trans ?_
    -- The three bytes that are overwritten are among the first four.
    match req, long with
    | a :: b :: c :: d :: rest, _ => simp [copyAll, copyFromSlice, Checked.copyAll, Write.at, byteAt]
  have zeroed : ([typeEchoReply, byteAt req 1] ++ [0, 0] ++ req.drop 4).length = req.length := by
    rw [← size, replyBytes, List.length_append, List.length_append, List.length_append, List.length_append]
    rfl
  have summed : slice ([typeEchoReply, byteAt req 1] ++ [0, 0] ++ req.drop 4 ++ dst.drop req.length) 0 req.length =
      .ok ([typeEchoReply, byteAt req 1] ++ [0, 0] ++ req.drop 4) := slice_front _ zeroed
  have stored (sum : U16) : copyIn ([typeEchoReply, byteAt req 1] ++ [0, 0] ++ req.drop 4 ++ dst.drop req.length) 2 4
      (beBytes16 sum) = .ok ([typeEchoReply, byteAt req 1] ++ beBytes16 sum ++ req.drop 4 ++ dst.drop req.length) := by
    rw [List.append_assoc _ (req.drop 4), List.append_assoc _ (req.drop 4)]
    exact copyIn_field rfl rfl sum
  rw [written, bind_ok, summed, bind_ok]
  dsimp only
  rw [stored]
  rfl

theorem writeEchoReply_returns (header : hdr ≤ req.length) (fits : req.length ≤ dst.length) :
    Returns (writeEchoReply dst req) (·.1.length = dst.length) :=
  ⟨_, writeEchoReply_eq header fits, front_written_length (replyBytes_length header) fits⟩

theorem valid_replyBytes (long : hdr ≤ req.length) (short : req.length ≤ 65535) : Checksum.valid (replyBytes req) := by
  rw [hdr] at long
  refine Checksum.valid_stored ?_ (by simp)
  rw [List.length_append, List.length_drop]
  change 4 + (req.length - 4) ≤ 131070
  omega

theorem fields_replyBytes (long : hdr ≤ req.length) :
    byteAt (replyBytes req) 0 = typeEchoReply ∧ byteAt (replyBytes req) 1 = byteAt req 1 ∧
    word16 (replyBytes req) 4 = word16 req 4 ∧ word16 (replyBytes req) 6 = word16 req 6 ∧
    (replyBytes req).drop hdr = req.drop hdr := by
  match req, long with
  | a :: b :: c :: d :: rest, _ => exact ⟨rfl, rfl, rfl, rfl, rfl⟩

theorem judge_replyBytes (long : hdr ≤ req.length) (short : req.length ≤ 65535) (code : byteAt req 1 = 0) :
    judge (replyBytes req) = .ok (.echoReply (word16 req 4) (word16 req 6)) := by
  obtain ⟨type, same, ident, seq, -⟩ := fields_replyBytes long
  have length := replyBytes_length long
  rw [judge, if_neg (by omega), if_neg (not_not.mpr (valid_replyBytes long short)), same, code, if_neg (not_not.mpr rfl), type,
    if_neg (by decide), if_pos rfl, ident, seq]

end

end Whimbrel.Icmp

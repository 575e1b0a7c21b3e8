import Whimbrel.Tcp.Handle

/-! `parse_mss` and the grammar of TCP options.

An option area is a list of options and then its end: the header length, an end-of-list
octet with anything after it, or an option that breaks the grammar. The loop of `parse_mss`
reads one option a round (`mssRound`), and `MssLoop` is a run of it that has come to its end. -/

set_option autoImplicit false

namespace Whimbrel.Tcp

open Checked

/-! ## The grammar -/

inductive Opt where
  | nop
  | mss (value : U16)
  | other (kind : U8) (body : List U8) (unknown : kind ≠ optEol ∧ kind ≠ optNop ∧ kind ≠ optMss)
      (short : body.length + 2 < 256)

def Opt.bytes : Opt → List U8
  | .nop => [optNop]
  | .mss value => optMss :: 4 :: beBytes16 value
  | .other kind body _ _ => kind :: BitVec.ofNat 8 (body.length + 2) :: body

def serialize (opts : List Opt) : List U8 := opts.flatMap Opt.bytes

def Opt.mss? : Opt → Option U16
  | .mss value => some value
  | _ => none

/-- The last MSS of the list, or 536. -/
def lastMss (opts : List Opt) : U16 := (opts.filterMap Opt.mss?).getLast?.getD defaultMss

inductive Ends : List U8 → Prop where
  | done : Ends []
  | eol (rest : List U8) : Ends (optEol :: rest)

/-- The octets begin with an option that is cut off, too short, too long or an MSS of the wrong length. -/
inductive Malformed : List U8 → Prop where
  | noLength {kind : U8} : kind ≠ optEol → kind ≠ optNop → Malformed [kind]
  | short {kind len : U8} {rest : List U8} : kind ≠ optEol → kind ≠ optNop → len.toNat < 2 → Malformed (kind :: len :: rest)
  | overruns {kind len : U8} {rest : List U8} : kind ≠ optEol → kind ≠ optNop → rest.length + 2 < len.toNat →
      Malformed (kind :: len :: rest)
  | mssLength {len : U8} {rest : List U8} : len.toNat ≠ optMssLen → Malformed (optMss :: len :: rest)

/-! ## The rounds of the loop -/

inductive MssRound where
  | again (i : Nat) (mss : Option U16)
  | leave (result : Option U16)
  deriving DecidableEq, Repr

def mssRound (hdr : List U8) (hlen i : Nat) (mss : Option U16) : Result MssRound := do
  if ¬ i < hlen then return .leave (some (mss.getD defaultMss))
  let kind ← index hdr i
  if kind = optEol then return .leave (some (mss.getD defaultMss))
  if kind = optNop then return .again (i + 1) mss
  if i + 1 ≥ hlen then return .leave none
  let len := (← index hdr (i + 1)).toNat
  if len < 2 ∨ i + len > hlen then return .leave none
  if kind = optMss then
    if len ≠ optMssLen then return .leave none
    let v ← be16 hdr (i + 2)
    return .again (i + len) (some v)
  return .again (i + len) mss

inductive MssLoop (hdr : List U8) (hlen : Nat) : Nat → Option U16 → Option U16 → Prop where
  | leave {i : Nat} {mss result : Option U16} : mssRound hdr hlen i mss = .ok (.leave result) → MssLoop hdr hlen i mss result
  | again {i j : Nat} {mss mss' result : Option U16} : mssRound hdr hlen i mss = .ok (.again j mss') →
      MssLoop hdr hlen j mss' result → MssLoop hdr hlen i mss result

section
variable {hdr : List U8} {hlen i j fuel : Nat} {mss mss' result : Option U16}

theorem parseMssLoop_succ : parseMssLoop hdr hlen (fuel + 1) i mss = mssRound hdr hlen i mss >>= fun
    | .leave result => .ok result
    | .again j mss' => parseMssLoop hdr hlen fuel j mss' := by
  rw [parseMssLoop, mssRound]
  split
  · rfl
  cases index hdr i with
  | error => rfl
  | ok kind =>
    simp only [bind_ok]
    split
    · rfl
    split
    · rfl
    split
    · rfl
    cases index hdr (i + 1) with
    | error => rfl
    | ok len =>
      simp only [bind_ok]
      split
      · rfl
      split
      · split
        · rfl
        cases be16 hdr (i + 2) with
        | error => rfl
        | ok v =>
          simp only [bind_ok]
          rfl
      · rfl

theorem lt_of_again (next : mssRound hdr hlen i mss = .ok (.again j mss')) : i < hlen ∧ i < j := by
  unfold mssRound at next
  split at next
  · cases next
  rename_i inside
  refine ⟨not_not.mp inside, ?_⟩
  cases read : index hdr i with
  | error => simp [read] at next
  | ok kind =>
    simp only [read, bind_ok] at next
    split at next
    · cases next
    split at next
    · cases next
      omega
    split at next
    · cases next
    cases length : index hdr (i + 1) with
    | error => simp [length] at next
    | ok len =>
      simp only [length, bind_ok] at next
      split at next
      · cases next
      split at next
      · split at next
        · cases next
        cases value : be16 hdr (i + 2) with
        | error => simp [value] at next
        | ok v =>
          simp only [value, bind_ok] at next
          cases next
          omega
      · cases next
        omega

theorem MssLoop.computes (loop : MssLoop hdr hlen i mss result) (enough : hlen ≤ i + fuel) :
    parseMssLoop hdr hlen fuel i mss = .ok result := by
  induction loop generalizing fuel with
  | @leave i mss result done =>
    cases fuel with
    | zero =>
      -- out of rounds only past the end, where the round leaves with the same result
      rw [mssRound, if_pos (by omega)] at done
      cases done
      rfl
    | succ fuel => rw [parseMssLoop_succ, done, bind_ok]
  | @again i j mss mss' result next rest ih =>
    obtain ⟨inside, further⟩ := lt_of_again next
    obtain ⟨fuel, rfl⟩ : ∃ n, fuel = n + 1 := ⟨fuel - 1, by omega⟩
    rw [parseMssLoop_succ, next, bind_ok]
    exact ih (by omega)

theorem index_take (hdr : List U8) (n i : Nat) : Yields (index (hdr.take n) i) (index hdr i) := by
  intro b read
  by_cases inside : i < (hdr.take n).length
  · rw [index_ok inside] at read
    rw [List.length_take, Nat.lt_min] at inside
    rw [index_ok inside.2, ← read]
    simp [byteAt, inside.1]
  · rw [index, Checked.index, List.getElem?_eq_none (Nat.not_lt.mp inside)] at read
    cases read

theorem be16_take (hdr : List U8) (n i : Nat) : Yields (be16 (hdr.take n) i) (be16 hdr i) :=
  (index_take hdr n i).bind fun _ => (index_take hdr n (i + 1)).bind fun _ => .refl _

/-- What a round computes from the first octets alone it computes from any longer slice. -/
theorem mssRound_take (n : Nat) : Yields (mssRound (hdr.take n) hlen i mss) (mssRound hdr hlen i mss) := by
  unfold mssRound
  refine .ite (.refl _) ?_
  refine (index_take hdr n i).bind fun kind => .ite (.refl _) (.ite (.refl _) (.ite (.refl _) ?_))
  refine (index_take hdr n (i + 1)).bind fun len => .ite (.refl _) (.ite (.ite (.refl _) ?_) (.refl _))
  exact (be16_take hdr n (i + 2)).bind fun v => .refl _

theorem MssLoop.of_take (loop : MssLoop (hdr.take hlen) hlen i mss result) : MssLoop hdr hlen i mss result := by
  induction loop with
  | leave done => exact .leave (mssRound_take hlen _ done)
  | again next _ ih => exact .again (mssRound_take hlen _ next) ih

end

section
variable {front rest : List U8} {mss : Option U16}

theorem index_append (b : U8) : index (front ++ b :: rest) front.length = .ok b := by
  rw [index_ok (by simp)]
  simp [byteAt]

theorem index_append_succ (a b : U8) : index (front ++ a :: b :: rest) (front.length + 1) = .ok b := by
  rw [index_ok (by simp)]
  simp [byteAt]

theorem round_ends (ends : Ends rest) : mssRound (front ++ rest) (front ++ rest).length front.length mss =
    .ok (.leave (some (mss.getD defaultMss))) := by
  cases ends with
  | done => rw [mssRound, if_pos (by simp)]; rfl
  | eol rest =>
    rw [mssRound, if_neg (by simp), index_append, bind_ok, if_pos rfl]
    rfl

theorem round_malformed (malformed : Malformed rest) :
    mssRound (front ++ rest) (front ++ rest).length front.length mss = .ok (.leave none) := by
  cases malformed with
  | noLength notEol notNop =>
    rw [mssRound, if_neg (by simp), index_append, bind_ok, if_neg notEol, if_neg notNop, if_pos (by simp)]
    rfl
  | short notEol notNop bad =>
    rw [mssRound, if_neg (by simp), index_append, bind_ok, if_neg notEol, if_neg notNop, if_neg (by simp),
      index_append_succ, bind_ok, if_pos (.inl bad)]
    rfl
  | @overruns kind len rest notEol notNop bad =>
    have long : (front ++ kind :: len :: rest).length < front.length + len.toNat := by
      simp
      omega
    rw [mssRound, if_neg (by simp), index_append, bind_ok, if_neg notEol, if_neg notNop, if_neg (by simp),
      index_append_succ, bind_ok, if_pos (.inr long)]
    rfl
  | @mssLength len rest bad =>
    rw [mssRound, if_neg (by simp), index_append, bind_ok, if_neg (by decide), if_neg (by decide), if_neg (by simp),
      index_append_succ, bind_ok]
    dsimp only
    -- an MSS that overruns as well is refused by the test before, with the same result
    rw [if_pos (rfl : optMss = optMss), if_pos bad, ite_self]
    rfl

/-- A well-formed option is read in one round. -/
theorem round_opt (o : Opt) : mssRound (front ++ (o.bytes ++ rest)) (front ++ (o.bytes ++ rest)).length front.length mss =
    .ok (.again (front ++ o.bytes).length (o.mss?.or mss)) := by
  cases o with
  | nop =>
    rw [Opt.bytes, List.singleton_append, mssRound, if_neg (by simp), index_append, bind_ok, if_neg (by decide), if_pos rfl,
      List.length_append]
    rfl
  | mss value =>
    have fits : ¬ ((4 : U8).toNat < 2 ∨ front.length + (4 : U8).toNat > (front ++ optMss :: 4 :: (beBytes16 value ++ rest)).length) := by
      simp
    have read : be16 (front ++ optMss :: 4 :: (beBytes16 value ++ rest)) (front.length + 2) = .ok value := by
      have high : byteAt (front ++ optMss :: 4 :: (beBytes16 value ++ rest)) (front.length + 2) = value.extractLsb' 8 8 := by
        simp [byteAt, beBytes16]
      have low : byteAt (front ++ optMss :: 4 :: (beBytes16 value ++ rest)) (front.length + 2 + 1) = value.extractLsb' 0 8 := by
        simp [byteAt, beBytes16, Nat.add_assoc]
      rw [be16_ok (by simp; omega), word16, high, low, beBytes16_append]
    rw [Opt.bytes, List.cons_append, List.cons_append, mssRound, if_neg (by simp), index_append, bind_ok, if_neg (by decide),
      if_neg (by decide), if_neg (by simp), index_append_succ, bind_ok, if_neg fits, if_pos rfl, if_neg (by decide), read,
      bind_ok, List.length_append]
    rfl
  | other kind body unknown short =>
    have length : (BitVec.ofNat 8 (body.length + 2)).toNat = body.length + 2 := by
      rw [BitVec.toNat_ofNat, Nat.mod_eq_of_lt short]
    have fits : ¬ (body.length + 2 < 2 ∨
        front.length + (body.length + 2) > (front ++ kind :: BitVec.ofNat 8 (body.length + 2) :: (body ++ rest)).length) := by
      simp
    rw [Opt.bytes, List.cons_append, List.cons_append, mssRound, if_neg (by simp), index_append, bind_ok, if_neg unknown.1,
      if_neg unknown.2.1, if_neg (by simp), index_append_succ, bind_ok, length, if_neg fits, if_neg unknown.2.2,
      List.length_append]
    rfl

theorem loop_opts (opts : List Opt) {result : Option U16 → Option U16}
    (stops : ∀ front mss, mssRound (front ++ rest) (front ++ rest).length front.length mss = .ok (.leave (result mss))) :
    MssLoop (front ++ (serialize opts ++ rest)) (front ++ (serialize opts ++ rest)).length front.length mss
      (result ((opts.filterMap Opt.mss?).getLast?.or mss)) := by
  induction opts generalizing front mss with
  | nil => exact .leave (stops front mss)
  | cons o opts ih =>
    have bytes : serialize (o :: opts) ++ rest = o.bytes ++ (serialize opts ++ rest) := by
      rw [serialize, List.flatMap_cons, List.append_assoc]
      rfl
    -- an MSS replaces the one before it
    have last : (((o :: opts).filterMap Opt.mss?).getLast?.or mss) = ((opts.filterMap Opt.mss?).getLast?.or (o.mss?.or mss)) := by
      cases value : o.mss? with
      | none => rw [List.filterMap_cons_none value, Option.none_or]
      | some v =>
        rw [List.filterMap_cons_some value, List.getLast?_cons]
        cases (opts.filterMap Opt.mss?).getLast? <;> rfl
    rw [bytes, last]
    refine .again (round_opt o) ?_
    rw [← List.append_assoc]
    exact ih

/-- Every area is a list of options and a proper end, or a list of options and one that breaks the grammar. -/
theorem area_cases (area : List U8) : ∃ opts rest, area = serialize opts ++ rest ∧ (Ends rest ∨ Malformed rest) := by
  -- an option shortens the area
  induction size : area.length using Nat.strong_induction_on generalizing area with
  | _ size ih =>
    subst size
    have step (o : Opt) (rest : List U8) (split : area = o.bytes ++ rest) (some : 0 < o.bytes.length) :
        ∃ opts rest, area = serialize opts ++ rest ∧ (Ends rest ∨ Malformed rest) := by
      have shorter : rest.length < area.length := by
        rw [split, List.length_append]
        omega
      obtain ⟨opts, tail, same, stop⟩ := ih _ shorter rest rfl
      refine ⟨o :: opts, tail, ?_, stop⟩
      rw [split, same, serialize, serialize, List.flatMap_cons, List.append_assoc]
    have stay (stop : Ends area ∨ Malformed area) :
        ∃ opts rest, area = serialize opts ++ rest ∧ (Ends rest ∨ Malformed rest) := ⟨[], area, rfl, stop⟩
    match area with
    | [] => exact stay (.inl .done)
    | [kind] =>
      by_cases ends : kind = optEol
      · exact stay (.inl (ends ▸ .eol []))
      by_cases pads : kind = optNop
      · exact step .nop _ (by rw [pads]; rfl) (by decide)
      · exact stay (.inr (.noLength ends pads))
    | kind :: len :: rest =>
      by_cases ends : kind = optEol
      · exact stay (.inl (ends ▸ .eol _))
      by_cases pads : kind = optNop
      · exact step .nop _ (by rw [pads]; rfl) (by decide)
      by_cases few : len.toNat < 2
      · exact stay (.inr (.short ends pads few))
      by_cases long : rest.length + 2 < len.toNat
      · exact stay (.inr (.overruns ends pads long))
      by_cases isMss : kind = optMss
      · subst isMss
        by_cases four : len.toNat = optMssLen
        swap
        · exact stay (.inr (.mssLength four))
        rw [optMssLen] at four
        match rest with
        | hi :: lo :: rest =>
          refine step (.mss (hi ++ lo)) rest ?_ (Nat.zero_lt_succ _)
          have same : len = 4 := BitVec.eq_of_toNat_eq four
          rw [Opt.bytes, beBytes16_bytes, same]
          rfl
        -- two octets are left, or the option would overrun
        | [_] | [] => simp at long; omega
      · have size : (rest.take (len.toNat - 2)).length = len.toNat - 2 := by
          rw [List.length_take]
          omega
        have total : (rest.take (len.toNat - 2)).length + 2 = len.toNat := by omega
        have short : (rest.take (len.toNat - 2)).length + 2 < 256 := by
          rw [total]
          exact len.isLt
        refine step (.other kind _ ⟨ends, pads, isMss⟩ short) (rest.drop (len.toNat - 2)) ?_ (Nat.zero_lt_succ _)
        rw [Opt.bytes, total, BitVec.ofNat_toNat, BitVec.setWidth_eq, List.cons_append, List.cons_append, List.take_append_drop]

end

section
variable {hdr : List U8} {hlen : Nat}

def optionArea (hdr : List U8) (hlen : Nat) : List U8 := (hdr.take hlen).drop hdrMin

theorem loop_area (low : hdrMin ≤ hlen) (within : hlen ≤ hdr.length) {opts : List Opt} {rest : List U8}
    (area : optionArea hdr hlen = serialize opts ++ rest) {result : Option U16 → Option U16}
    (stops : ∀ front mss, mssRound (front ++ rest) (front ++ rest).length front.length mss = .ok (.leave (result mss))) :
    MssLoop (hdr.take hlen) hlen hdrMin none (result (opts.filterMap Opt.mss?).getLast?) := by
  have whole : (hdr.take hlen).take hdrMin ++ (serialize opts ++ rest) = hdr.take hlen := by
    rw [← area, optionArea, List.take_append_drop]
  have first : ((hdr.take hlen).take hdrMin).length = hdrMin := by
    rw [List.length_take, List.length_take]
    omega
  have loop := @loop_opts ((hdr.take hlen).take hdrMin) rest none opts result stops
  rwa [whole, first, List.length_take, Nat.min_eq_left within, Option.or_none] at loop

theorem loop_wellFormed (low : hdrMin ≤ hlen) (within : hlen ≤ hdr.length) {opts : List Opt} {tail : List U8}
    (area : optionArea hdr hlen = serialize opts ++ tail) (ends : Ends tail) :
    MssLoop (hdr.take hlen) hlen hdrMin none (some (lastMss opts)) :=
  @loop_area hdr hlen low within opts tail area (fun mss => some (mss.getD defaultMss)) fun _ _ => round_ends ends

theorem loop_malformed (low : hdrMin ≤ hlen) (within : hlen ≤ hdr.length) {opts : List Opt} {rest : List U8}
    (area : optionArea hdr hlen = serialize opts ++ rest) (malformed : Malformed rest) :
    MssLoop (hdr.take hlen) hlen hdrMin none none :=
  @loop_area hdr hlen low within opts rest area (fun _ => none) fun _ _ => round_malformed malformed

theorem MssLoop.parseMss_eq {result : Option U16} (loop : MssLoop (hdr.take hlen) hlen hdrMin none result) :
    parseMss hdr hlen = .ok result := loop.of_take.computes (Nat.le_add_left _ _)

theorem parseMss_returns (within : hlen ≤ hdr.length) : ∃ result, parseMss hdr hlen = .ok result := by
  by_cases low : hdrMin ≤ hlen
  · obtain ⟨opts, rest, area, ends | malformed⟩ := area_cases (optionArea hdr hlen)
    · exact ⟨_, (loop_wellFormed low within area ends).parseMss_eq⟩
    · exact ⟨_, (loop_malformed low within area malformed).parseMss_eq⟩
  · have round : mssRound hdr hlen hdrMin none = .ok (.leave (some defaultMss)) := by
      rw [mssRound, if_pos fun inside => low (Nat.le_of_lt inside)]
      rfl
    exact ⟨_, (MssLoop.leave round).computes (Nat.le_add_left _ _)⟩

/-- The loop ends without a read at or past `hlen`. It fails exactly on the areas in which
an option breaks the grammar, and otherwise returns the last MSS. -/
theorem parseMss_grammar (low : hdrMin ≤ hlen) (within : hlen ≤ hdr.length) :
    (∃ result, MssLoop (hdr.take hlen) hlen hdrMin none result ∧ parseMss hdr hlen = .ok result) ∧
    (parseMss hdr hlen = .ok none ↔ ∃ opts rest, optionArea hdr hlen = serialize opts ++ rest ∧ Malformed rest) ∧
    ∀ mss, parseMss hdr hlen = .ok (some mss) ↔
      ∃ opts tail, optionArea hdr hlen = serialize opts ++ tail ∧ Ends tail ∧ mss = lastMss opts := by
  have good {opts tail} (area : optionArea hdr hlen = serialize opts ++ tail) (ends : Ends tail) :
      parseMss hdr hlen = .ok (some (lastMss opts)) := (loop_wellFormed low within area ends).parseMss_eq
  have bad {opts rest} (area : optionArea hdr hlen = serialize opts ++ rest) (malformed : Malformed rest) :
      parseMss hdr hlen = .ok none := (loop_malformed low within area malformed).parseMss_eq
  -- Every area is of one of the two kinds, so each direction can be read off the other.
  obtain ⟨opts, rest, area, stop⟩ := area_cases (optionArea hdr hlen)
  refine ⟨?_, ⟨fun failed => ?_, fun ⟨_, _, area, malformed⟩ => bad area malformed⟩, fun mss => ⟨fun returned => ?_, ?_⟩⟩
  · rcases stop with ends | malformed
    · exact ⟨_, loop_wellFormed low within area ends, good area ends⟩
    · exact ⟨_, loop_malformed low within area malformed, bad area malformed⟩
  · rcases stop with ends | malformed
    · rw [good area ends] at failed
      cases failed
    · exact ⟨opts, rest, area, malformed⟩
  · rcases stop with ends | malformed
    · rw [good area ends] at returned
      cases returned
      exact ⟨opts, rest, area, ends, rfl⟩
    · rw [bad area malformed] at returned
      cases returned
  · rintro ⟨opts, tail, area, ends, rfl⟩
    exact good area ends

end

/-- A header of 36 octets with two MSS options, and one octet of payload. -/
def twoMss : List U8 :=
  List.replicate 20 0 ++ [2, 4, 5, 0xb4, 1, 3, 3, 7, 2, 4, 4, 0xb0] ++ [0, 2, 9, 9] ++ [0xaa]

/-- The second of the two counts, and what follows the end of the list does not. -/
theorem parseMss_grammar_twoMss : parseMss twoMss 36 = .ok (some 1200) := by
  refine ((parseMss_grammar (by decide) (by decide)).2.2 1200).mpr ?_
  exact ⟨[.mss 1460, .nop, .other 3 [7] (by decide) (by decide), .mss 1200], [0, 2, 9, 9], by decide, .eol _, by decide⟩

end Whimbrel.Tcp

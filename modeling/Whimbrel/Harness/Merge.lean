import Whimbrel.Lib.Text

/-! The kconfig merge gate: `classify` of `scripts/linux-merge-warnings.py`.

A log of merge_config.sh is read line by line; from the header of a record the
scanner looks at most four lines ahead. -/

set_option autoImplicit false

namespace Whimbrel.Merge

open Text

/-! ## Patterns -/

/-- `[A-Z0-9_]`. -/
def isSymbol (c : Char) : Bool := c.isUpper || c.isDigit || c = '_'

/-- A literal and `[A-Z0-9_]+`. -/
def symbolAfter (p line : Line) : Option (Line × Line) := (literal p line).bind (run isSymbol)

/-- `CONFIG_[A-Z0-9_]+` between two literals. -/
def configBetween (before after : String) (line : Line) : Option Line := do
  let (name, line) ← symbolAfter (before.toList ++ "CONFIG_".toList) line
  let _ ← literal after.toList line
  return "CONFIG_".toList ++ name

def redefinedRe : Line → Option Line := configBetween "Value of " " is redefined by fragment "

def redundantRe : Line → Option Line := configBetween "Value of " " is redundant by fragment "

def notFinalRe : Line → Option Line := configBetween "Value requested for " " not in final .config"

def requestedRe (u : Classes) (line : Line) : Option Line :=
  (literal "Requested value:".toList line).map (·.dropWhile u.space)

def actualRe (u : Classes) (line : Line) : Option Line :=
  (literal "Actual value:".toList line).map (·.dropWhile u.space)

def fragYRe (line : Line) : Option (Line × Line) := do
  let (name, line) ← symbolAfter "CONFIG_".toList line
  let value ← literal "=".toList line
  return (name, value)

def fragNRe (line : Line) : Option Line := do
  let (name, line) ← symbolAfter "# CONFIG_".toList line
  if line = " is not set".toList then return name else none

/-- `(?:CONFIG_)?`, taken if a symbol follows it. -/
def skipConfig (line : Line) : Line :=
  match literal "CONFIG_".toList line with
  | some rest => if (run isSymbol rest).isSome then rest else line
  | none => line

/-- `MERGE_OVERRIDE_RE`. A run of symbol characters shorter than the whole one does
not end a word. -/
def mergeOverrideRe (w : WordClasses) (line : Line) : Option Line := do
  let line ← literal "# merge-override ".toList line
  let (name, rest) ← run isSymbol (skipConfig line)
  if rest.head?.any w.word then none else return name

def bare (cfg : Line) : Line := (literal "CONFIG_".toList cfg).getD cfg

def isUnsetLine (u : Classes) (val cfg : Line) : Bool :=
  strip u val = [] ∨ strip u val = "# ".toList ++ cfg ++ " is not set".toList

def fragmentSymbol (u : Classes) (raw : Line) : Option (Line × Line) :=
  match fragYRe (strip u raw) with
  | some (name, value) => some (name, strip u value)
  | none => (fragNRe (strip u raw)).map (·, "unset".toList)

/-- The dictionary; of two pairs with one key the later one counts. -/
def fragmentSymbols (u : Classes) (frag : List Char) : List (Line × Line) :=
  (splitlines frag).filterMap (fragmentSymbol u)

def mergeOverrides (w : WordClasses) (frag : List Char) : List Line :=
  (splitlines frag).filterMap fun raw => mergeOverrideRe w (strip w.toClasses raw)

structure Report where
  info : List Line
  fails : List Line
  drops : List Line
  deriving DecidableEq

def annotatedLine (cfg want got : Line) : Line :=
  "annotated merge-override: ".toList ++ cfg ++ " requested ".toList ++ want ++ ", final ".toList ++ got

def failLine (cfg want got sym : Line) : Line :=
  "TEST FAIL: merge did not stick: ".toList ++ cfg ++ " requested ".toList ++ want ++ ", final ".toList ++ got ++
    " (unannotated; need # merge-override ".toList ++ sym ++ ": <why>)".toList

def recordNotFinal (u : Classes) (cfg requested actual : Line) (inFrag : List (Line × Line)) (overrides : List Line)
    (out : Report) : Report :=
  let req := strip u requested
  let act := strip u actual
  let sym := bare cfg
  let asked : Bool := sym ∈ inFrag.map Prod.fst
  let want := if isUnsetLine u req cfg then "unset".toList else req
  let got := if act = [] then "absent".toList else act
  if isUnsetLine u req cfg && isUnsetLine u act cfg then
    { out with info := out.info ++ ["not in final after unset (menu vanished): ".toList ++ cfg] }
  else if isUnsetLine u req cfg && !isUnsetLine u act cfg then
    if asked then
      if sym ∈ overrides then { out with info := out.info ++ [annotatedLine cfg want got] }
      else { out with fails := out.fails ++ [failLine cfg want got sym] }
    else { out with info := out.info ++ ["unsolicited final value (not in fragment): ".toList ++ cfg] }
  else if !isUnsetLine u req cfg && isUnsetLine u act cfg then
    if !asked then { out with drops := out.drops ++ [cfg] }
    else if sym ∈ overrides then { out with info := out.info ++ [annotatedLine cfg want got] }
    else { out with fails := out.fails ++ [failLine cfg want got sym] }
  else if asked then
    if sym ∈ overrides then { out with info := out.info ++ [annotatedLine cfg want got] }
    else { out with fails := out.fails ++ [failLine cfg want got sym] }
  else { out with drops := out.drops ++ [cfg] }

/-- The lines after a header: what is requested, what is found, and where the scan
goes on. At most `ahead` lines are read. -/
def readRecord (u : Classes) : Nat → Line → Line → List Line → Line × Line × List Line
  | 0, requested, actual, lines => (requested, actual, lines)
  | _ + 1, requested, actual, [] => (requested, actual, [])
  | ahead + 1, requested, actual, line :: lines =>
    match requestedRe u line with
    | some value => readRecord u ahead value actual lines
    | none =>
      match actualRe u line with
      | some value => (requested, value, lines)
      | none => if strip u line = [] then (requested, actual, lines) else readRecord u ahead requested actual lines

theorem readRecord_length (u : Classes) (ahead : Nat) (requested actual : Line) (lines : List Line) :
    (readRecord u ahead requested actual lines).2.2.length ≤ lines.length := by
  fun_induction readRecord u ahead requested actual lines with
  | case1 | case2 | case4 | case5 => simp
  | case3 | case6 => simp; omega

def classifyLines (u : Classes) (inFrag : List (Line × Line)) (overrides : List Line) (out : Report) :
    List Line → Report
  | [] => out
  | line :: lines =>
    match redefinedRe line with
    | some cfg =>
      classifyLines u inFrag overrides { out with info := out.info ++ ["redefined (informational): ".toList ++ cfg] } lines
    | none =>
      match redundantRe line with
      | some cfg =>
        classifyLines u inFrag overrides { out with info := out.info ++ ["redundant (informational): ".toList ++ cfg] }
          lines
      | none =>
        match notFinalRe line with
        | some cfg =>
          let read := readRecord u 4 [] [] lines
          classifyLines u inFrag overrides (recordNotFinal u cfg read.1 read.2.1 inFrag overrides out) read.2.2
        | none => classifyLines u inFrag overrides out lines
termination_by lines => lines.length
decreasing_by
  · exact Nat.lt_succ_self _
  · exact Nat.lt_succ_self _
  · exact Nat.lt_succ_of_le (readRecord_length u 4 [] [] lines)
  · exact Nat.lt_succ_self _

/-- What the summary says of the dropped symbols. -/
def dropsLine (count : Nat) : Line :=
  "dependent drop (informational): ".toList ++ decimal count ++ " symbols not in linux-trimmed.fragment".toList

def classify (w : WordClasses) (frag log : List Char) : Report :=
  let out := classifyLines w.toClasses (fragmentSymbols w.toClasses frag) (mergeOverrides w frag) ⟨[], [], []⟩
    (splitlines log)
  if out.drops = [] then out else { out with info := out.info ++ [dropsLine out.drops.length] }

/-! ## Names in the fragment -/

structure IsName (name : Line) : Prop where
  real : name ≠ []
  symbol : ∀ c ∈ name, isSymbol c = true

section
variable {w : WordClasses} {u : Classes} {line name rest : Line} {frag : List Char}

theorem symbolAfter_eq_some {p : Line} : symbolAfter p line = some (name, rest) ↔
    line = p ++ (name ++ rest) ∧ IsName name ∧ ∀ c ∈ rest.head?, isSymbol c = false := by
  rw [symbolAfter, Option.bind_eq_some_iff]
  constructor
  · rintro ⟨tail, found, taken⟩
    obtain ⟨rfl, real, symbol, stop⟩ := run_eq_some.mp taken
    exact ⟨literal_eq_some.mp found, ⟨real, symbol⟩, stop⟩
  · rintro ⟨rfl, isName, stop⟩
    exact ⟨name ++ rest, literal_append _ _, run_append isName.real isName.symbol stop⟩

theorem stops_at {p : Line} {c : Char} (first : p.head? = some c) (other : isSymbol c = false) (rest : Line) :
    ∀ d ∈ (p ++ rest).head?, isSymbol d = false := by
  intro d same
  rw [List.head?_append, first] at same
  cases same
  exact other

theorem fragYRe_eq_some {value : Line} : fragYRe line = some (name, value) ↔
    IsName name ∧ line = "CONFIG_".toList ++ (name ++ ("=".toList ++ value)) := by
  unfold fragYRe
  rw [Option.bind_eq_bind, Option.bind_eq_some_iff]
  constructor
  · rintro ⟨⟨name', rest⟩, taken, found⟩
    obtain ⟨rfl, isName, -⟩ := symbolAfter_eq_some.mp taken
    obtain ⟨value', same, ⟨⟩⟩ := Option.bind_eq_some_iff.mp found
    rw [literal_eq_some.mp same]
    exact ⟨isName, rfl⟩
  · rintro ⟨isName, rfl⟩
    refine ⟨(name, "=".toList ++ value), symbolAfter_eq_some.mpr ⟨rfl, isName, stops_at rfl (by decide) value⟩, ?_⟩
    dsimp only
    rw [Option.bind_eq_bind, literal_append]
    rfl

theorem fragNRe_eq_some : fragNRe line = some name ↔
    IsName name ∧ line = "# CONFIG_".toList ++ (name ++ " is not set".toList) := by
  unfold fragNRe
  rw [Option.bind_eq_bind, Option.bind_eq_some_iff]
  constructor
  · rintro ⟨⟨name', rest⟩, taken, found⟩
    obtain ⟨rfl, isName, -⟩ := symbolAfter_eq_some.mp taken
    dsimp only at found
    split at found
    case isTrue same =>
      cases found
      exact ⟨isName, by rw [same]⟩
    case isFalse => cases found
  · rintro ⟨isName, rfl⟩
    have stop := @stops_at " is not set".toList ' ' rfl (by decide) []
    rw [List.append_nil] at stop
    exact ⟨(name, " is not set".toList), symbolAfter_eq_some.mpr ⟨rfl, isName, stop⟩, if_pos rfl⟩

def Kconfig (u : Classes) (frag : List Char) (name : Line) : Prop :=
  ∃ raw ∈ splitlines frag, (∃ value, strip u raw = "CONFIG_".toList ++ (name ++ ("=".toList ++ value))) ∨
    strip u raw = "# CONFIG_".toList ++ (name ++ " is not set".toList)

theorem mem_fragmentSymbols (isName : IsName name) :
    name ∈ (fragmentSymbols u frag).map Prod.fst ↔ Kconfig u frag name := by
  rw [fragmentSymbols, List.map_filterMap, List.mem_filterMap]
  refine exists_congr fun raw => and_congr_right fun _ => ?_
  unfold fragmentSymbol
  cases set : fragYRe (strip u raw) with
  | some pair =>
    obtain ⟨name', value⟩ := pair
    obtain ⟨-, text⟩ := fragYRe_eq_some.mp set
    constructor
    · rintro ⟨⟩
      exact .inl ⟨value, text⟩
    · rintro (⟨value', same⟩ | same)
      · rw [fragYRe_eq_some.mpr ⟨isName, same⟩] at set
        cases set
        rfl
      · -- a line that sets a symbol begins with a letter, one that unsets it with `#`
        rw [text] at same
        cases same
  | none =>
    rw [Option.map_map]
    constructor
    · intro found
      obtain ⟨name', unset, ⟨⟩⟩ := Option.map_eq_some_iff.mp found
      exact .inr (fragNRe_eq_some.mp unset).2
    · rintro (⟨value, same⟩ | same)
      · rw [fragYRe_eq_some.mpr ⟨isName, same⟩] at set
        cases set
      · rw [fragNRe_eq_some.mpr ⟨isName, same⟩]
        rfl

/-- The line's annotation is for the symbol. `CONFIG_` before a symbol is not part of it. -/
def Annotates (w : WordClasses) (line name : Line) : Prop :=
  ∃ rest, (∀ c ∈ rest.head?, w.word c = false) ∧
    (line = "# merge-override ".toList ++ ("CONFIG_".toList ++ (name ++ rest)) ∨
      line = "# merge-override ".toList ++ (name ++ rest) ∧ ∀ more, IsName more → name ≠ "CONFIG_".toList ++ more)

def Overrides (w : WordClasses) (frag : List Char) (name : Line) : Prop :=
  ∃ raw ∈ splitlines frag, Annotates w (strip w.toClasses raw) name

theorem IsName.config (isName : IsName name) : IsName ("CONFIG_".toList ++ name) where
  real nil := isName.real (List.append_eq_nil_iff.mp nil).2
  symbol c mem := by
    rcases List.mem_append.mp mem with front | back
    · exact List.all_eq_true.mp (show "CONFIG_".toList.all isSymbol = true by decide) c front
    · exact isName.symbol c back

theorem skipConfig_config (isName : IsName name) (stop : ∀ c ∈ rest.head?, isSymbol c = false) :
    skipConfig ("CONFIG_".toList ++ (name ++ rest)) = name ++ rest := by
  rw [skipConfig, literal_append]
  dsimp only
  rw [run_append isName.real isName.symbol stop]
  rfl

theorem skipConfig_other (other : ∀ more tail, IsName more → (∀ c ∈ tail.head?, isSymbol c = false) →
    line ≠ "CONFIG_".toList ++ (more ++ tail)) : skipConfig line = line := by
  unfold skipConfig
  split
  case h_1 rest found =>
    cases after : run isSymbol rest with
    | none => rfl
    | some pair =>
      obtain ⟨same, real, symbol, stop⟩ := run_eq_some.mp after
      exact absurd (same ▸ literal_eq_some.mp found) (other pair.1 pair.2 ⟨real, symbol⟩ stop)
  case h_2 => rfl

theorem word_of_isSymbol {c : Char} (symbol : isSymbol c = true) : w.word c = true := by
  simp only [isSymbol, Bool.or_eq_true, decide_eq_true_eq] at symbol
  rcases symbol with (upper | digit) | rfl
  · have ascii : c.toNat < 128 := by
      have high : c.toNat ≤ 90 := (of_decide_eq_true upper).2
      omega
    rw [w.word_ascii c ascii]
    change (((c.isUpper || c.isLower) || c.isDigit) || decide (c = '_')) = true
    rw [upper]
    rfl
  · rw [w.word_ascii c (ascii_of_isDigit digit), Char.isAlphanum, digit, Bool.or_true]
    rfl
  · rw [w.word_ascii '_' (by decide)]
    decide

theorem mergeOverrideRe_eq_some (isName : IsName name) : mergeOverrideRe w line = some name ↔ Annotates w line name := by
  unfold mergeOverrideRe
  rw [Option.bind_eq_bind, Option.bind_eq_some_iff]
  constructor
  · rintro ⟨body, found, taken⟩
    obtain ⟨⟨name', rest⟩, symbols, last⟩ := Option.bind_eq_some_iff.mp taken
    dsimp only at last
    split at last
    case isTrue => cases last
    case isFalse ends =>
      cases last
      obtain ⟨text, -, -, stop⟩ := run_eq_some.mp symbols
      have ends : ∀ c ∈ rest.head?, w.word c = false := by
        intro c first
        rw [Option.mem_def.mp first] at ends
        exact Bool.eq_false_iff.mpr ends
      refine ⟨rest, ends, ?_⟩
      rw [literal_eq_some.mp found]
      -- whether `CONFIG_` is skipped depends on what follows it
      by_cases config : ∃ more tail, IsName more ∧ (∀ c ∈ tail.head?, isSymbol c = false) ∧
          body = "CONFIG_".toList ++ (more ++ tail)
      · obtain ⟨more, tail, isMore, stops, rfl⟩ := config
        rw [skipConfig_config isMore stops] at text
        exact .inl (by rw [text])
      · have other : skipConfig body = body := skipConfig_other fun more tail isMore stops same =>
          config ⟨more, tail, isMore, stops, same⟩
        rw [other] at text
        refine .inr ⟨by rw [text], ?_⟩
        rintro more isMore rfl
        exact config ⟨more, rest, isMore, stop, by rw [text, List.append_assoc]⟩
  · rintro ⟨rest, ends, text⟩
    have stop : ∀ c ∈ rest.head?, isSymbol c = false := fun c mem =>
      Bool.eq_false_iff.mpr fun symbol => Bool.false_ne_true ((ends c mem).symm.trans (word_of_isSymbol symbol))
    have last : (if rest.head?.any w.word then none else some name) = some name := by
      cases first : rest.head? with
      | none => rfl
      | some c =>
        rw [Option.any_some, ends c first]
        rfl
    have taken := run_append isName.real isName.symbol stop
    rcases text with rfl | ⟨rfl, other⟩
    · refine ⟨_, literal_append _ _, ?_⟩
      rw [skipConfig_config isName stop, taken]
      exact last
    · refine ⟨_, literal_append _ _, ?_⟩
      rw [skipConfig_other, taken]
      · exact last
      · -- the longest run of the text is the name, so `CONFIG_` and a symbol would be the name
        intro more tail isMore stops same
        have longer := run_append isMore.config.real isMore.config.symbol stops
        rw [List.append_assoc, ← same, taken] at longer
        cases longer
        exact other more isMore rfl

theorem mem_mergeOverrides (isName : IsName name) : name ∈ mergeOverrides w frag ↔ Overrides w frag name := by
  rw [mergeOverrides, List.mem_filterMap]
  refine exists_congr fun raw => and_congr_right fun _ => ?_
  exact mergeOverrideRe_eq_some isName

end

structure Unrecognised (u : Classes) (line : Line) : Prop where
  redefined : redefinedRe line = none
  redundant : redundantRe line = none
  notFinal : notFinalRe line = none
  requested : requestedRe u line = none
  actual : actualRe u line = none

/-- A record of the log, with the lines that got into it. -/
structure Record (u : Classes) where
  name : Line
  isName : IsName name
  /-- What the header goes on with. -/
  trail : Line
  before : List Line
  /-- What follows the colon. -/
  requested : Line
  between : List Line
  actual : Line
  noise : ∀ line ∈ before ++ between, Unrecognised u line ∧ strip u line ≠ []
  few : (before ++ between).length ≤ 2

section
variable {w : WordClasses} {u : Classes} {frag : List Char}

def Record.cfg (r : Record u) : Line := "CONFIG_".toList ++ r.name

def Record.header (r : Record u) : Line :=
  "Value requested for ".toList ++ "CONFIG_".toList ++ (r.name ++ (" not in final .config".toList ++ r.trail))

def Record.lines (r : Record u) : List Line :=
  r.header :: (r.before ++ ("Requested value:".toList ++ r.requested) ::
    (r.between ++ ["Actual value:".toList ++ r.actual]))

inductive Item (u : Classes) where
  | record (r : Record u)
  | other (line : Line) (plain : notFinalRe line = none)

def Item.lines : Item u → List Line
  | .record r => r.lines
  | .other line _ => [line]

def Item.record? : Item u → Option (Record u)
  | .record r => some r
  | .other _ _ => none

/-! ## Verdicts -/

def Record.Asked (r : Record u) (frag : List Char) : Prop := Kconfig u frag r.name

def Record.Overridden (r : Record w.toClasses) (frag : List Char) : Prop := Overrides w frag r.name

instance (r : Record u) (frag : List Char) : Decidable (r.Asked frag) :=
  decidable_of_iff _ (mem_fragmentSymbols r.isName)

instance (r : Record w.toClasses) (frag : List Char) : Decidable (r.Overridden frag) :=
  decidable_of_iff _ (mem_mergeOverrides r.isName)

/-- The value is blank, or the line that unsets the symbol. -/
def Unsets (u : Classes) (name value : Line) : Prop :=
  strip u value = [] ∨ strip u value = "# CONFIG_".toList ++ name ++ " is not set".toList

instance (u : Classes) (name value : Line) : Decidable (Unsets u name value) := inferInstanceAs (Decidable (_ ∨ _))

def Record.RequestedUnset (r : Record u) : Prop := Unsets u r.name r.requested

def Record.ActualUnset (r : Record u) : Prop := Unsets u r.name r.actual

instance (r : Record u) : Decidable r.RequestedUnset := inferInstanceAs (Decidable (Unsets ..))

instance (r : Record u) : Decidable r.ActualUnset := inferInstanceAs (Decidable (Unsets ..))

def Record.Fails (r : Record w.toClasses) (frag : List Char) : Prop :=
  r.Asked frag ∧ ¬ r.Overridden frag ∧ ¬ (r.RequestedUnset ∧ r.ActualUnset)

def Record.Drops (r : Record u) (frag : List Char) : Prop := ¬ r.Asked frag ∧ ¬ r.RequestedUnset

instance (r : Record w.toClasses) (frag : List Char) : Decidable (r.Fails frag) :=
  inferInstanceAs (Decidable (_ ∧ ¬ _ ∧ ¬ _))

instance (r : Record u) (frag : List Char) : Decidable (r.Drops frag) :=
  inferInstanceAs (Decidable (¬ _ ∧ ¬ _))

def Record.want (r : Record u) : Line := if r.RequestedUnset then "unset".toList else strip u r.requested

def Record.got (r : Record u) : Line := if strip u r.actual = [] then "absent".toList else strip u r.actual

def Record.failure (r : Record u) : Line := failLine r.cfg r.want r.got r.name

def Record.note (r : Record u) (frag : List Char) : Line :=
  if r.RequestedUnset ∧ r.ActualUnset then "not in final after unset (menu vanished): ".toList ++ r.cfg
  else if r.Asked frag then annotatedLine r.cfg r.want r.got
  else "unsolicited final value (not in fragment): ".toList ++ r.cfg

def Report.add (out more : Report) : Report := ⟨out.info ++ more.info, out.fails ++ more.fails, out.drops ++ more.drops⟩

/-- What one record adds, by itself. -/
def Record.report (r : Record w.toClasses) (frag : List Char) : Report :=
  if r.Fails frag then ⟨[], [r.failure], []⟩
  else if r.Drops frag then ⟨[], [], [r.cfg]⟩
  else ⟨[r.note frag], [], []⟩

theorem bare_cfg (r : Record u) : bare r.cfg = r.name := by
  have taken : literal "CONFIG_".toList r.cfg = some r.name := literal_append _ _
  rw [bare, taken]
  rfl

theorem isUnsetLine_strip (r : Record u) (val : Line) :
    isUnsetLine u (strip u val) r.cfg = true ↔ Unsets u r.name val := by
  rw [isUnsetLine, decide_eq_true_eq, strip_strip]
  rfl

/-- The tree of `_record_not_final`, its five leaves in the order of the specification. -/
theorem decision {O : Prop} [Decidable O] (reqUnset actUnset asked : Bool) (vanished unsolicited annotated failed dropped : Report) :
    (if reqUnset && actUnset then vanished
    else if reqUnset && !actUnset then if asked then if O then annotated else failed else unsolicited
    else if !reqUnset && actUnset then if !asked then dropped else if O then annotated else failed
    else if asked then if O then annotated else failed
    else dropped) =
    if asked = true ∧ ¬ O ∧ ¬ (reqUnset = true ∧ actUnset = true) then failed
    else if ¬ asked = true ∧ ¬ reqUnset = true then dropped
    else if reqUnset = true ∧ actUnset = true then vanished
    else if asked then annotated
    else unsolicited := by
  cases reqUnset <;> cases actUnset <;> cases asked <;> by_cases o : O <;> simp [o]

theorem recordNotFinal_eq (r : Record w.toClasses) (out : Report) :
    recordNotFinal w.toClasses r.cfg (r.requested.dropWhile w.space) (r.actual.dropWhile w.space)
      (fragmentSymbols w.toClasses frag) (mergeOverrides w frag) out = out.add (r.report frag) := by
  have asked : (r.name ∈ (fragmentSymbols w.toClasses frag).map Prod.fst) ↔ r.Asked frag := mem_fragmentSymbols r.isName
  have overridden : r.name ∈ mergeOverrides w frag ↔ r.Overridden frag := mem_mergeOverrides r.isName
  unfold recordNotFinal
  rw [decision]
  simp only [strip_dropWhile, isUnsetLine_strip, bare_cfg, asked, overridden, decide_eq_true_eq]
  -- One split for each leaf of `decision`; `Record.report` asks in the same order.
  split
  case isTrue fails =>
    rw [show r.report frag = ⟨[], [r.failure], []⟩ from if_pos fails, Report.add, List.append_nil, List.append_nil]
    rfl
  case isFalse passes =>
    split
    case isTrue drops =>
      have report : r.report frag = ⟨[], [], [r.cfg]⟩ := (if_neg passes).trans (if_pos drops)
      rw [report, Report.add, List.append_nil, List.append_nil]
    case isFalse kept =>
      have report : r.report frag = ⟨[r.note frag], [], []⟩ := (if_neg passes).trans (if_neg kept)
      rw [report, Report.add, List.append_nil, List.append_nil]
      split
      case isTrue vanished => rw [show r.note frag = _ from if_pos vanished]
      case isFalse found =>
        split
        case isTrue inFrag =>
          rw [show r.note frag = _ from (if_neg found).trans (if_pos inFrag)]
          rfl
        case isFalse alone => rw [show r.note frag = _ from (if_neg found).trans (if_neg alone)]

theorem readRecord_noise {noise : List Line} (passes : ∀ line ∈ noise, Unrecognised u line ∧ strip u line ≠ [])
    (ahead : Nat) (requested actual : Line) (lines : List Line) :
    readRecord u (noise.length + ahead) requested actual (noise ++ lines) = readRecord u ahead requested actual lines := by
  induction noise with
  | nil => rw [List.length_nil, Nat.zero_add, List.nil_append]
  | cons line noise ih =>
    obtain ⟨unrecognised, dark⟩ := passes line List.mem_cons_self
    rw [List.length_cons, Nat.add_right_comm, List.cons_append, readRecord, unrecognised.requested]
    dsimp only
    rw [unrecognised.actual]
    dsimp only
    rw [if_neg dark, ih fun line mem => passes line (List.mem_cons_of_mem _ mem)]

theorem requestedRe_eq (text : Line) : requestedRe u ("Requested value:".toList ++ text) = some (text.dropWhile u.space) := by
  rw [requestedRe, literal_append]
  rfl

theorem actualRe_eq (text : Line) : requestedRe u ("Actual value:".toList ++ text) = none ∧
    actualRe u ("Actual value:".toList ++ text) = some (text.dropWhile u.space) := by
  constructor
  · rw [requestedRe, literal_eq_none (by decide) (by decide)]
    rfl
  · rw [actualRe, literal_append]
    rfl

/-- The lookahead ends right behind the record. -/
theorem readRecord_record (r : Record u) (lines : List Line) :
    readRecord u 4 [] [] (r.before ++ ("Requested value:".toList ++ r.requested) ::
      (r.between ++ ("Actual value:".toList ++ r.actual) :: lines)) =
      (r.requested.dropWhile u.space, r.actual.dropWhile u.space, lines) := by
  -- with at most two lines of noise the lookahead of four reaches the actual value
  obtain ⟨spare, total⟩ : ∃ spare, r.before.length + (r.between.length + (spare + 1) + 1) = 4 := by
    have few := r.few
    rw [List.length_append] at few
    exact ⟨2 - (r.before.length + r.between.length), by omega⟩
  rw [← total, readRecord_noise fun line mem => r.noise line (List.mem_append_left _ mem), readRecord, requestedRe_eq]
  dsimp only
  rw [readRecord_noise fun line mem => r.noise line (List.mem_append_right _ mem), readRecord, (actualRe_eq r.actual).1]
  dsimp only
  rw [(actualRe_eq r.actual).2]

theorem notFinalRe_header (r : Record u) : notFinalRe r.header = some r.cfg := by
  have taken : symbolAfter ("Value requested for ".toList ++ "CONFIG_".toList) r.header =
      some (r.name, " not in final .config".toList ++ r.trail) :=
    symbolAfter_eq_some.mpr ⟨rfl, r.isName, stops_at rfl (by decide) r.trail⟩
  rw [notFinalRe, configBetween, taken, Option.bind_eq_bind, Option.bind_some]
  dsimp only
  rw [literal_append]
  rfl

theorem symbolAfter_header (r : Record u) : symbolAfter ("Value of ".toList ++ "CONFIG_".toList) r.header = none := by
  have longer : ¬ "Value of ".toList ++ "CONFIG_".toList <+: "Value requested for ".toList := by decide
  have shorter : ¬ "Value requested for ".toList <+: "Value of ".toList ++ "CONFIG_".toList := by decide
  have text : r.header = "Value requested for ".toList ++
      ("CONFIG_".toList ++ (r.name ++ (" not in final .config".toList ++ r.trail))) := List.append_assoc _ _ _
  rw [symbolAfter, text, literal_eq_none longer shorter]
  rfl

theorem redefinedRe_header (r : Record u) : redefinedRe r.header = none := by
  rw [redefinedRe, configBetween, symbolAfter_header]
  rfl

theorem redundantRe_header (r : Record u) : redundantRe r.header = none := by
  rw [redundantRe, configBetween, symbolAfter_header]
  rfl

/-- What a line between two records adds. -/
def otherInfo (line : Line) : List Line :=
  match redefinedRe line with
  | some cfg => ["redefined (informational): ".toList ++ cfg]
  | none =>
    match redundantRe line with
    | some cfg => ["redundant (informational): ".toList ++ cfg]
    | none => []

def Item.report (frag : List Char) : Item w.toClasses → Report
  | .record r => r.report frag
  | .other line _ => ⟨otherInfo line, [], []⟩

theorem classifyLines_other {line : Line} (plain : notFinalRe line = none) (inFrag : List (Line × Line))
    (overrides : List Line) (out : Report) (lines : List Line) :
    classifyLines u inFrag overrides out (line :: lines) =
      classifyLines u inFrag overrides (out.add ⟨otherInfo line, [], []⟩) lines := by
  rw [classifyLines, otherInfo, Report.add, List.append_nil, List.append_nil]
  cases redefinedRe line with
  | some cfg => rfl
  | none =>
    cases redundantRe line with
    | some cfg => rfl
    | none =>
      dsimp only
      rw [plain, List.append_nil]

theorem classifyLines_record (r : Record u) (inFrag : List (Line × Line)) (overrides : List Line) (out : Report)
    (lines : List Line) :
    classifyLines u inFrag overrides out (r.lines ++ lines) = classifyLines u inFrag overrides
      (recordNotFinal u r.cfg (r.requested.dropWhile u.space) (r.actual.dropWhile u.space) inFrag overrides out) lines := by
  have split : r.lines ++ lines = r.header :: (r.before ++ ("Requested value:".toList ++ r.requested) ::
      (r.between ++ ("Actual value:".toList ++ r.actual) :: lines)) := by
    rw [Record.lines, List.cons_append, List.append_assoc, List.cons_append, List.append_assoc, List.singleton_append]
  rw [split, classifyLines, redefinedRe_header]
  dsimp only
  rw [redundantRe_header]
  dsimp only
  rw [notFinalRe_header]
  dsimp only
  rw [readRecord_record]

/-- The scanner stays in step with the records: over a whole log each item adds
what it adds by itself. -/
theorem classifyLines_items (items : List (Item w.toClasses)) (out : Report) :
    classifyLines w.toClasses (fragmentSymbols w.toClasses frag) (mergeOverrides w frag) out (items.flatMap Item.lines) =
      items.foldl (fun out item => out.add (item.report frag)) out := by
  induction items generalizing out with
  | nil => rw [List.flatMap_nil, classifyLines, List.foldl_nil]
  | cons item items ih =>
    rw [List.flatMap_cons, List.foldl_cons, ← ih]
    cases item with
    | record r =>
      change classifyLines _ _ _ out (r.lines ++ _) = _
      rw [classifyLines_record, recordNotFinal_eq]
      rfl
    | other line plain => exact classifyLines_other plain _ _ out _

theorem foldl_report (items : List (Item w.toClasses)) (out : Report) :
    items.foldl (fun out item => out.add (item.report frag)) out =
      ⟨out.info ++ items.flatMap fun item => (item.report frag).info,
        out.fails ++ items.flatMap fun item => (item.report frag).fails,
        out.drops ++ items.flatMap fun item => (item.report frag).drops⟩ := by
  induction items generalizing out with
  | nil => simp only [List.foldl_nil, List.flatMap_nil, List.append_nil]
  | cons item items ih =>
    rw [List.foldl_cons, ih]
    simp only [Report.add, List.flatMap_cons, List.append_assoc]

def Item.info (frag : List Char) : Item w.toClasses → List Line
  | .record r => if r.Fails frag ∨ r.Drops frag then [] else [r.note frag]
  | .other line _ => otherInfo line

theorem Record.report_cases (r : Record w.toClasses) (frag : List Char) :
    r.Fails frag ∧ ¬ r.Drops frag ∧ r.report frag = ⟨[], [r.failure], []⟩ ∨
    ¬ r.Fails frag ∧ r.Drops frag ∧ r.report frag = ⟨[], [], [r.cfg]⟩ ∨
    ¬ r.Fails frag ∧ ¬ r.Drops frag ∧ r.report frag = ⟨[r.note frag], [], []⟩ := by
  by_cases fails : r.Fails frag
  · exact .inl ⟨fails, fun drops => drops.1 fails.1, if_pos fails⟩
  by_cases drops : r.Drops frag
  · exact .inr (.inl ⟨fails, drops, (if_neg fails).trans (if_pos drops)⟩)
  · exact .inr (.inr ⟨fails, drops, (if_neg fails).trans (if_neg drops)⟩)

theorem flatMap_records {part : Report → List Line} {P : Record w.toClasses → Prop} [DecidablePred P]
    {line : Record w.toClasses → Line} (own : ∀ r : Record w.toClasses, part (r.report frag) = if P r then [line r] else [])
    (others : ∀ info, part ⟨info, [], []⟩ = []) (items : List (Item w.toClasses)) :
    (items.flatMap fun item => part (item.report frag)) = ((items.filterMap Item.record?).filter P).map line := by
  induction items with
  | nil => rfl
  | cons item items ih =>
    rw [List.flatMap_cons, ih]
    cases item with
    | other text plain =>
      change part ⟨otherInfo text, [], []⟩ ++ _ = _
      rw [others]
      rfl
    | record r =>
      change part (r.report frag) ++ _ = ((r :: items.filterMap Item.record?).filter _).map _
      rw [own, List.filter_cons]
      by_cases holds : P r
      · rw [if_pos holds, if_pos (decide_eq_true holds), List.map_cons, List.singleton_append]
      · rw [if_neg holds, if_neg (by rw [decide_eq_false holds]; exact Bool.false_ne_true), List.nil_append]

theorem flatMap_fails (items : List (Item w.toClasses)) : (items.flatMap fun item => (item.report frag).fails) =
    ((items.filterMap Item.record?).filter (·.Fails frag)).map Record.failure := by
  refine @flatMap_records w frag Report.fails (·.Fails frag) _ _ (fun r => ?_) (fun _ => rfl) items
  obtain ⟨fails, -, report⟩ | ⟨passes, -, report⟩ | ⟨passes, -, report⟩ := r.report_cases frag
  · rw [report, if_pos fails]
  · rw [report, if_neg passes]
  · rw [report, if_neg passes]

theorem flatMap_drops (items : List (Item w.toClasses)) : (items.flatMap fun item => (item.report frag).drops) =
    ((items.filterMap Item.record?).filter (·.Drops frag)).map Record.cfg := by
  refine @flatMap_records w frag Report.drops (·.Drops frag) _ _ (fun r => ?_) (fun _ => rfl) items
  obtain ⟨-, kept, report⟩ | ⟨-, drops, report⟩ | ⟨-, kept, report⟩ := r.report_cases frag
  · rw [report, if_neg kept]
  · rw [report, if_pos drops]
  · rw [report, if_neg kept]

theorem report_info (item : Item w.toClasses) : (item.report frag).info = item.info frag := by
  cases item with
  | other line plain => rfl
  | record r =>
    change (r.report frag).info = if r.Fails frag ∨ r.Drops frag then [] else [r.note frag]
    obtain ⟨fails, -, report⟩ | ⟨-, drops, report⟩ | ⟨fails, drops, report⟩ := r.report_cases frag
    · rw [report, if_pos (.inl fails)]
    · rw [report, if_pos (.inr drops)]
    · rw [report, if_neg (not_or.mpr ⟨fails, drops⟩)]

end

theorem classify_eq (w : WordClasses) (frag log : List Char) :
    let out := classifyLines w.toClasses (fragmentSymbols w.toClasses frag) (mergeOverrides w frag) ⟨[], [], []⟩
      (splitlines log)
    (classify w frag log).fails = out.fails ∧ (classify w frag log).drops = out.drops ∧
    (classify w frag log).info = out.info ++ if out.drops = [] then [] else [dropsLine out.drops.length] := by
  unfold classify
  dsimp only
  generalize classifyLines w.toClasses (fragmentSymbols w.toClasses frag) (mergeOverrides w frag) ⟨[], [], []⟩
    (splitlines log) = out
  by_cases none : out.drops = []
  · rw [if_pos none, if_pos none, List.append_nil]
    exact ⟨rfl, rfl, rfl⟩
  · rw [if_neg none, if_neg none]
    exact ⟨rfl, rfl, rfl⟩

/-- Whatever the order and number of records and lines between them, each record of
the log is judged once, by itself and as specified. -/
theorem classify_records (w : WordClasses) (frag log : List Char) (items : List (Item w.toClasses))
    (made : splitlines log = items.flatMap Item.lines) :
    (classify w frag log).fails = ((items.filterMap Item.record?).filter (·.Fails frag)).map Record.failure ∧
    (classify w frag log).drops = ((items.filterMap Item.record?).filter (·.Drops frag)).map Record.cfg ∧
    (classify w frag log).info = items.flatMap (Item.info frag) ++
      if (classify w frag log).drops = [] then [] else [dropsLine (classify w frag log).drops.length] := by
  have scanned := @classifyLines_items w frag items ⟨[], [], []⟩
  rw [foldl_report, flatMap_fails, flatMap_drops, ← made] at scanned
  simp only [List.nil_append, report_info] at scanned
  have summarised := classify_eq w frag log
  rw [scanned] at summarised
  obtain ⟨fails, drops, info⟩ := summarised
  exact ⟨fails, drops, by rw [drops, info]⟩

def survivor : Record asciiWordClasses.toClasses where
  name := "EFI".toList
  isName := ⟨by decide, List.all_eq_true.mp (by decide)⟩
  trail := []
  before := ["see Kconfig".toList]
  requested := " # CONFIG_EFI is not set".toList
  between := []
  actual := " CONFIG_EFI=y".toList
  noise := by
    rw [List.append_nil, List.forall_mem_singleton]
    exact ⟨⟨by decide, by decide, by decide, by decide, by decide⟩, by decide⟩
  few := by decide

def unsetEfi : List Char := unlines ["# CONFIG_EFI is not set".toList]

theorem classify_records_survivor :
    (classify asciiWordClasses unsetEfi (unlines (survivor.lines ++ [[]]))).fails = [survivor.failure] := by
  have made : splitlines (unlines (survivor.lines ++ [[]])) = [Item.record survivor, .other [] rfl].flatMap Item.lines := by
    decide +kernel
  rw [(classify_records asciiWordClasses unsetEfi _ _ made).1]
  decide +kernel

end Whimbrel.Merge

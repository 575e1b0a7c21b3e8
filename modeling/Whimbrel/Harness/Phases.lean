import Whimbrel.Phase

/-! The harness's reader of the phase table: `parse_phases` of `scripts/bench.py`. -/

set_option autoImplicit false

namespace Whimbrel.Bench

open Text Phase

structure Row where
  phase : Line
  ticks : Nat
  nsSinceE2 : Nat
  deltaTicks : Nat
  deltaNs : Nat
  source : String
  sinceTicks : Nat
  deriving DecidableEq, Repr

/-- `BenchFail`, by its message, and what Python itself raises. -/
inductive Raised where
  | unset (line : Line)
  | malformed (line : Line)
  | noRows
  | firstRow (name : Line)
  | e3gMissing
  | stampsMissing
  | sum (total e2e3g overhead : Nat)
  | keyError
  | stopIteration
  deriving DecidableEq, Repr

def headerRe (line : Line) : Bool := (literal "PHASE ticks (".toList line).isSome

def dark (u : Classes) (c : Char) : Bool := !u.space c

def isDigit (u : Classes) (c : Char) : Bool := (u.digit c).isSome

def blank (u : Classes) (line : Line) : Bool := line.all u.space

def unsetRe (u : Classes) (line : Line) : Option Line := do
  let line ← literal "PHASE ".toList line
  let (name, line) ← run (dark u) line
  let line ← literal " unset".toList line
  if blank u line then return name else none

/-- A literal, then a group of digits. -/
def field (u : Classes) (label : String) (line : Line) : Option (Nat × Line) := do
  let line ← literal label.toList line
  let (digits, line) ← run (isDigit u) line
  return (number u digits, line)

/-- The row of the groups of `PHASE_ROW_RE`. -/
def rowRe (u : Classes) (line : Line) : Option Row := do
  let line ← literal "PHASE ".toList line
  let (name, line) ← run (dark u) line
  let (ticks, line) ← field u " ticks=" line
  let (_, line) ← field u " ns=" line
  let (since, line) ← field u " since_start=" line
  let (sinceNs, line) ← field u " ns=" line
  let (delta, line) ← field u " delta=" line
  let (deltaNs, line) ← field u " ns=" line
  if blank u line then return ⟨name, ticks, sinceNs, delta, deltaNs, "serial", since⟩ else none

/-- `raw.replace("\r", "").strip()`. -/
def clean (u : Classes) (raw : Line) : Line := strip u (raw.filter (· ≠ '\r'))

def isPhase (u : Classes) (raw : Line) : Bool := "PHASE".toList.isPrefixOf (clean u raw)

def parseLine (u : Classes) (raw : Line) : Except Raised (Option Row) :=
  if isPhase u raw then
    let line := clean u raw
    if headerRe line then .ok none
    else if (unsetRe u line).isSome then .error (.unset line)
    else match rowRe u line with
      | none => .error (.malformed line)
      | some row => .ok (some row)
  else .ok none

def parseLines (u : Classes) : List Line → Except Raised (List Row)
  | [] => .ok []
  | raw :: lines => do
    let row ← parseLine u raw
    let rows ← parseLines u lines
    return row.toList ++ rows

/-- Of two rows of one name the later one is in the dictionary. -/
def stampOverheadNs (rows : List Row) : Except Raised Nat :=
  match rows.reverse.find? (·.phase = "stamp_b".toList) with
  | none => .error .keyError
  | some row => .ok (max row.deltaNs 100)

/-- The sum over the rows no later than E3g. -/
def total (rows : List Row) (e2e3g : Nat) : Nat := ((rows.filter (·.nsSinceE2 ≤ e2e3g)).map (·.deltaNs)).sum

def assertPhasesSumToE3g (rows : List Row) : Except Raised Nat := do
  let overhead ← stampOverheadNs rows
  match rows.find? (·.phase = "E3g".toList) with
  | none => throw .stopIteration
  | some e3g =>
    let total := total rows e3g.nsSinceE2
    if ((total : Int) - e3g.nsSinceE2).natAbs > overhead then throw (.sum total e3g.nsSinceE2 overhead)
    return overhead

def parsePhases (u : Classes) (serialText : List Char) : Except Raised (List Row) := do
  let rows ← parseLines u (splitlines serialText)
  let names := rows.map (·.phase)
  match names.head? with
  | none => throw .noRows
  | some first =>
    if first ≠ "_start".toList then throw (.firstRow first)
    if "E3g".toList ∉ names then throw .e3gMissing
    if "stamp_a".toList ∉ names ∨ "stamp_b".toList ∉ names then throw .stampsMissing
    let _ ← assertPhasesSumToE3g rows
    return rows

/-! ## Reading one row back -/

section
variable {u : Classes}

theorem name_dark (i : Phase.Slot) : ∀ c ∈ name i, dark u c = true := by
  have printed : ∀ i : Phase.Slot, (name i).all (fun c => plain c && c != ' ') = true := by decide +kernel
  intro c mem
  have one := List.all_eq_true.mp (printed i) c mem
  rw [Bool.and_eq_true, bne_iff_ne] at one
  rw [dark, space_of_plain u one.1 one.2]
  rfl

theorem name_ne_nil : ∀ i : Phase.Slot, name i ≠ [] := by decide +kernel

theorem decimal_isDigit (n : Nat) : ∀ c ∈ decimal n, isDigit u c = true := by
  intro c mem
  rw [isDigit, digit_of_isDigit (isDigit_of_mem_decimal mem)]
  rfl

theorem field_eq {label : String} {n : Nat} {rest : Line} (stop : ∀ c ∈ rest.head?, isDigit u c = false) :
    field u label (label.toList ++ (decimal n ++ rest)) = some (n, rest) := by
  simp only [field, literal_append, Option.bind_eq_bind, Option.bind_some,
    run_append (decimal_ne_nil n) (decimal_isDigit n) stop, number_decimal]
  rfl

theorem head_label {label : String} (first : label.toList.head? = some ' ') {rest : Line} {c : Char}
    (mem : c ∈ (label.toList ++ rest).head?) : c = ' ' := by
  rw [List.head?_append, first, Option.some_or] at mem
  exact (Option.some.inj mem).symm

theorem stops_digits {label : String} (first : label.toList.head? = some ' ') (rest : Line) :
    ∀ c ∈ (label.toList ++ rest).head?, isDigit u c = false := by
  intro c mem
  rw [head_label first mem, isDigit, digit_blank]
  rfl

theorem run_name (i : Phase.Slot) {label : String} (first : label.toList.head? = some ' ') (rest : Line) :
    run (dark u) (name i ++ (label.toList ++ rest)) = some (name i, label.toList ++ rest) := by
  refine run_append (name_ne_nil i) (name_dark i) fun c mem => ?_
  have space : u.space ' ' = true := (u.space_ascii ' ' (by decide)).mpr (by decide)
  rw [head_label first mem, dark, space]
  rfl

theorem some_bind {α β : Type} (a : α) (f : α → Option β) : (some a >>= f) = f a := rfl

theorem rowRe_rowLine (i : Phase.Slot) (t since0 delta : Usize) :
    rowRe u (rowLine i t since0 delta) = some ⟨name i, t.toNat, (since0 * tickNs).toNat, delta.toNat,
      (delta * tickNs).toNat, "serial", since0.toNat⟩ := by
  have last (n : Nat) : field u " ns=" (" ns=".toList ++ decimal n) = some (n, []) := by
    have whole := @field_eq u " ns=" n [] (by simp)
    rwa [List.append_nil] at whole
  unfold rowRe rowLine
  repeat rw [List.append_assoc]
  rw [literal_append, some_bind, run_name i rfl, some_bind]
  dsimp only
  rw [field_eq (stops_digits rfl _), some_bind]
  dsimp only
  rw [field_eq (stops_digits rfl _), some_bind]
  dsimp only
  rw [field_eq (stops_digits rfl _), some_bind]
  dsimp only
  rw [field_eq (stops_digits rfl _), some_bind]
  dsimp only
  rw [field_eq (stops_digits rfl _), some_bind]
  dsimp only
  rw [last, some_bind]
  rfl

theorem rowLine_front (i : Phase.Slot) (t since0 delta : Usize) :
    ∃ rest, rowLine i t since0 delta = "PHASE ".toList ++ (name i ++ (" ticks=".toList ++ rest)) := by
  unfold rowLine
  repeat rw [List.append_assoc]
  exact ⟨_, rfl⟩

theorem plain_decimal (n : Nat) : (decimal n).all plain = true :=
  List.all_eq_true.mpr fun _ mem => plain_of_isDigit (isDigit_of_mem_decimal mem)

theorem plain_rowLine (i : Phase.Slot) (t since0 delta : Usize) : (rowLine i t since0 delta).all plain = true := by
  have named : ∀ i : Phase.Slot, (name i).all plain = true := by decide +kernel
  unfold rowLine
  simp only [List.all_append, plain_decimal, named, Bool.and_true]
  decide +kernel

@[simp] theorem clean_clean (raw : Line) : clean u (clean u raw) = clean u raw := by
  have kept : (clean u raw).filter (· ≠ '\r') = clean u raw := by
    refine List.filter_eq_self.mpr fun c mem => ?_
    exact (List.mem_filter.mp (mem_of_mem_strip mem)).2
  rw [clean, kept, clean, strip_strip]

theorem parseLine_clean (raw : Line) : parseLine u (clean u raw) = parseLine u raw := by
  unfold parseLine isPhase
  rw [clean_clean]

theorem clean_eq_self {line : Line} {a b : Char} (first : line.head? = some a) (last : line.getLast? = some b)
    (printed : line.all plain = true) (left : a ≠ ' ') (right : b ≠ ' ') : clean u line = line := by
  have each := List.all_eq_true.mp printed
  have kept : line.filter (· ≠ '\r') = line := by
    refine List.filter_eq_self.mpr fun c mem => decide_eq_true ?_
    rintro rfl
    exact absurd (each _ mem) (by decide)
  rw [clean, kept]
  refine strip_eq_self (fun c mem => ?_) fun c mem => ?_
  · rw [first] at mem
    cases mem
    exact space_of_plain u (each a (List.mem_of_mem_head? first)) left
  · rw [last] at mem
    cases mem
    exact space_of_plain u (each b (List.mem_of_mem_getLast? last)) right

theorem clean_rowLine (i : Phase.Slot) (t since0 delta : Usize) : clean u (rowLine i t since0 delta) = rowLine i t since0 delta := by
  obtain ⟨front, n, tail⟩ : ∃ front n, rowLine i t since0 delta = front ++ decimal n := ⟨_, _, rfl⟩
  obtain ⟨digits, d, ends⟩ := (List.eq_nil_or_concat (decimal n)).resolve_left (decimal_ne_nil n)
  rw [List.concat_eq_append] at ends
  have glyph : d ≠ ' ' := by
    rintro rfl
    have mem : ' ' ∈ decimal n := ends ▸ List.mem_append_right digits (List.mem_singleton_self ' ')
    exact absurd (isDigit_of_mem_decimal mem) (by decide)
  have last : (rowLine i t since0 delta).getLast? = some d := by
    rw [tail, ends, List.getLast?_append, List.getLast?_concat, Option.some_or]
  have first : (rowLine i t since0 delta).head? = some 'P' := by
    obtain ⟨rest, shape⟩ := rowLine_front i t since0 delta
    rw [shape]
    rfl
  exact clean_eq_self first last (plain_rowLine i t since0 delta) (by decide) glyph

theorem headerRe_rowLine (i : Phase.Slot) (t since0 delta : Usize) : headerRe (rowLine i t since0 delta) = false := by
  have other : ∀ i : Phase.Slot, (name i).take 2 ≠ "ti".toList ∧ 2 ≤ (name i).length := by decide +kernel
  have apart : ¬ "PHASE ticks (".toList <+: rowLine i t since0 delta := by
    intro begins
    obtain ⟨rest, shape⟩ := rowLine_front i t since0 delta
    rw [shape] at begins
    have named : "ticks (".toList <+: name i ++ _ := (List.prefix_append_right_inj "PHASE ".toList).mp begins
    have two := congrArg (List.take 2) (List.prefix_iff_eq_take.mp named)
    rw [List.take_take] at two
    exact (other i).1 ((List.take_append_of_le_length (other i).2).symm.trans two.symm)
  rw [headerRe, literal, if_neg (fun begins => apart (List.isPrefixOf_iff_prefix.mp begins))]
  rfl

theorem parseLine_rowLine (i : Phase.Slot) (t since0 delta : Usize) :
    parseLine u (rowLine i t since0 delta) = .ok (some ⟨name i, t.toNat, (since0 * tickNs).toNat, delta.toNat,
      (delta * tickNs).toNat, "serial", since0.toNat⟩) := by
  obtain ⟨rest, shape⟩ := rowLine_front i t since0 delta
  have phase : isPhase u (rowLine i t since0 delta) = true := by
    rw [isPhase, clean_rowLine, shape]
    rfl
  have set : unsetRe u (rowLine i t since0 delta) = none := by
    rw [unsetRe, shape, literal_append, some_bind, run_name i rfl, some_bind]
    rfl
  rw [parseLine, if_pos phase]
  dsimp only
  rw [clean_rowLine, headerRe_rowLine, set, rowRe_rowLine]
  rfl

theorem plain_header : header.all plain = true := by decide +kernel

theorem clean_header : clean u header = header :=
  clean_eq_self (a := 'P') (b := '0') rfl rfl plain_header (by decide) (by decide)

theorem parseLine_header : parseLine u header = .ok none := by
  have phase : isPhase u header = true := by
    rw [isPhase, clean_header]
    rfl
  rw [parseLine, if_pos phase, clean_header]
  rfl

theorem whole_of_plain {line : Line} (printed : line.all plain = true) : Whole line :=
  fun c mem => not_boundary_of_plain (List.all_eq_true.mp printed c mem)

theorem printed_line {stamps : Stamps} (nonzero : ∀ i, stamps i ≠ 0) :
    ∀ line ∈ (printAfterResponse false stamps).2, Whole line ∧ clean u line = line := by
  have rows {t0 last : Usize} (order : List Phase.Slot) :
      ∀ line ∈ printRows stamps t0 last order, Whole line ∧ clean u line = line := by
    induction order generalizing last with
    | nil => simp [printRows]
    | cons i order ih =>
      intro line mem
      rcases List.mem_cons.mp mem with rfl | later
      · exact ⟨whole_of_plain (plain_rowLine ..), clean_rowLine ..⟩
      · exact ih line later
  rw [printAfterResponse_eq nonzero]
  exact List.forall_mem_cons.mpr ⟨⟨whole_of_plain plain_header, clean_header⟩, rows _⟩

/-- The serial text of a boot, with or without carriage returns, has the table's lines as its phase lines. -/
theorem phases_joinLines {stamps : Stamps} (nonzero : ∀ i, stamps i ≠ 0) (cr : Bool) {lines : List Line}
    (whole : ∀ line ∈ lines, isPhase u line = false → Whole line)
    (others : lines.filter (isPhase u) = (printAfterResponse false stamps).2) :
    ((splitlines (joinLines cr lines)).map (clean u)).filter ("PHASE".toList.isPrefixOf ·) =
      (printAfterResponse false stamps).2 := by
  have each : ∀ line ∈ lines, Whole line := by
    intro line mem
    cases phase : isPhase u line with
    | false => exact whole line mem phase
    | true => exact (printed_line (u := u) nonzero line (others ▸ List.mem_filter.mpr ⟨mem, phase⟩)).1
  have same : (printAfterResponse false stamps).2.map (clean u) = (printAfterResponse false stamps).2 :=
    (List.map_congr_left fun line mem => (printed_line nonzero line mem).2).trans (List.map_id _)
  rw [splitlines_joinLines cr each, List.filter_map]
  change (lines.filter (isPhase u)).map (clean u) = _
  rw [others, same]

def rowsOf (stamps : Stamps) (t0 last : Usize) : List Phase.Slot → List Row
  | [] => []
  | i :: order =>
    ⟨name i, (stamps i).toNat, ((stamps i - t0) * tickNs).toNat, (stamps i - last).toNat,
      ((stamps i - last) * tickNs).toNat, "serial", (stamps i - t0).toNat⟩ :: rowsOf stamps t0 (stamps i) order

theorem parseLines_printRows (stamps : Stamps) (t0 last : Usize) (order : List Phase.Slot) :
    parseLines u (printRows stamps t0 last order) = .ok (rowsOf stamps t0 last order) := by
  induction order generalizing last with
  | nil => rfl
  | cons i order ih =>
    rw [printRows, parseLines, parseLine_rowLine, ih]
    rfl

theorem parseLines_phases (lines : List Line) :
    parseLines u ((lines.map (clean u)).filter ("PHASE".toList.isPrefixOf ·)) = parseLines u lines := by
  induction lines with
  | nil => rfl
  | cons raw lines ih =>
    rw [List.map_cons]
    by_cases phase : "PHASE".toList.isPrefixOf (clean u raw) = true
    · rw [List.filter_cons_of_pos phase, parseLines, ih, parseLine_clean, parseLines]
    · have skipped : parseLine u raw = .ok none := by rw [parseLine, isPhase, if_neg phase]
      rw [List.filter_cons_of_neg phase, ih, parseLines, skipped]
      cases parseLines u lines with
      | error e => rfl
      | ok rows => rfl

end

section
variable {stamps : Stamps} {t0 last bound : Usize} {order : List Phase.Slot}

theorem toNat_ns {a b : Usize} (le : b ≤ a) (small : a.toNat * 100 < 2 ^ 64) :
    ((a - b) * tickNs).toNat = 100 * (a.toNat - b.toNat) := by
  have hundred : tickNs.toNat = 100 := rfl
  rw [BitVec.toNat_mul, BitVec.toNat_sub_of_le le, hundred, Nat.mod_eq_of_lt (by omega), Nat.mul_comm]

theorem map_rowsOf :
    (rowsOf stamps t0 last order).map (·.phase) = order.map name ∧
    (rowsOf stamps t0 last order).map (·.ticks) = order.map (fun i => (stamps i).toNat) ∧
    (rowsOf stamps t0 last order).map (·.nsSinceE2) = order.map (fun i => ((stamps i - t0) * tickNs).toNat) := by
  induction order generalizing last with
  | nil => exact ⟨rfl, rfl, rfl⟩
  | cons i order ih =>
    obtain ⟨phases, ticks, since⟩ := @ih (stamps i)
    exact ⟨congrArg (_ :: ·) phases, congrArg (_ :: ·) ticks, congrArg (_ :: ·) since⟩

theorem mem_rowsOf {row : Row} (mem : row ∈ rowsOf stamps t0 last order) :
    ∃ i ∈ order, row.phase = name i ∧ row.nsSinceE2 = ((stamps i - t0) * tickNs).toNat := by
  induction order generalizing last with
  | nil => exact absurd mem List.not_mem_nil
  | cons i order ih =>
    rcases List.mem_cons.mp mem with rfl | later
    · exact ⟨i, List.mem_cons_self, rfl, rfl⟩
    · obtain ⟨j, member, same⟩ := ih later
      exact ⟨j, List.mem_cons_of_mem i member, same⟩

theorem total_past (small : ∀ i, (stamps i).toNat * 100 < 2 ^ 64) (zero : ∀ i, t0 ≤ stamps i) (origin : t0 ≤ bound)
    (past : ∀ i ∈ order, ¬ stamps i ≤ bound) :
    total (rowsOf stamps t0 last order) (100 * (bound.toNat - t0.toNat)) = 0 := by
  have none : (rowsOf stamps t0 last order).filter (·.nsSinceE2 ≤ 100 * (bound.toNat - t0.toNat)) = [] := by
    refine List.filter_eq_nil_iff.mpr fun row mem counted => ?_
    obtain ⟨i, member, -, since⟩ := mem_rowsOf mem
    have late := past i member
    have since0 := BitVec.le_def.mp (zero i)
    have boundNat := BitVec.le_def.mp origin
    rw [decide_eq_true_eq, since, toNat_ns (zero i) (small i)] at counted
    rw [BitVec.le_def] at late
    omega
  rw [total, none]
  rfl

/-- Up to the latest event at `bound` the differences add up to the time from `last`. -/
theorem total_rowsOf (small : ∀ i, (stamps i).toNat * 100 < 2 ^ 64) (zero : ∀ i, t0 ≤ stamps i) (origin : t0 ≤ bound)
    (sorted : order.Pairwise fun a b => stamps a ≤ stamps b) (after : ∀ i ∈ order, last ≤ stamps i) (le : last ≤ bound)
    (reached : bound = last ∨ ∃ e ∈ order, stamps e = bound) :
    total (rowsOf stamps t0 last order) (100 * (bound.toNat - t0.toNat)) = 100 * (bound.toNat - last.toNat) := by
  induction order generalizing last with
  | nil =>
    rcases reached with rfl | ⟨e, mem, -⟩
    · simp [rowsOf, total]
    · exact absurd mem List.not_mem_nil
  | cons i order ih =>
    obtain ⟨later, sorted⟩ := List.pairwise_cons.mp sorted
    have since := toNat_ns (zero i) (small i)
    have delta := toNat_ns (after i List.mem_cons_self) (small i)
    have zeroNat := BitVec.le_def.mp (zero i)
    have afterNat := BitVec.le_def.mp (after i List.mem_cons_self)
    have originNat := BitVec.le_def.mp origin
    have leNat := BitVec.le_def.mp le
    by_cases counted : stamps i ≤ bound
    · have countedNat := BitVec.le_def.mp counted
      have next : bound = stamps i ∨ ∃ e ∈ order, stamps e = bound := by
        rcases reached with rfl | ⟨e, mem, same⟩
        · exact .inl (BitVec.le_antisymm (after i List.mem_cons_self) counted)
        · rcases List.mem_cons.mp mem with rfl | mem
          · exact .inl same.symm
          · exact .inr ⟨e, mem, same⟩
      have rest := ih sorted later counted next
      unfold total at rest ⊢
      rw [rowsOf, List.filter_cons_of_pos (by simp only [since, decide_eq_true_eq]; omega), List.map_cons, List.sum_cons,
        rest]
      dsimp only
      rw [delta]
      omega
    · -- the later rows are past the bound as well, and none was at it
      have past : ∀ e ∈ i :: order, ¬ stamps e ≤ bound := by
        intro e mem early
        rcases List.mem_cons.mp mem with rfl | mem
        · exact counted early
        · exact counted (BitVec.le_trans (later e mem) early)
      have here : bound = last := reached.resolve_right fun ⟨e, mem, same⟩ => past e mem (BitVec.le_of_eq same)
      rw [total_past small zero origin past, here, Nat.sub_self, Nat.mul_zero]

theorem name_injective : ∀ i j : Phase.Slot, name i = name j → i = j := by decide +kernel

theorem total_e3g (nonzero : ∀ i, stamps i ≠ 0) (first : ∀ i, stamps start ≤ stamps i)
    (small : ∀ i, (stamps i).toNat * 100 < 2 ^ 64) :
    ∃ row, (rowsOf stamps (stamps start) (stamps start) (sortedOrder stamps)).find? (·.phase = "E3g".toList) = some row ∧
      row.nsSinceE2 = 100 * ((stamps e3g).toNat - (stamps start).toNat) ∧
      total (rowsOf stamps (stamps start) (stamps start) (sortedOrder stamps)) row.nsSinceE2 = row.nsSinceE2 := by
  obtain ⟨perm, sorted⟩ := sortedOrder_spec nonzero
  have member : e3g ∈ sortedOrder stamps := perm.mem_iff.mpr (List.mem_finRange e3g)
  have rising : (sortedOrder stamps).Pairwise fun a b => stamps a ≤ stamps b :=
    sorted.imp fun before => before.elim BitVec.le_of_lt fun same => BitVec.le_of_eq same.1
  have sum := total_rowsOf small first (first e3g) rising (fun i _ => first i) (first e3g) (.inr ⟨e3g, member, rfl⟩)
  cases found : (rowsOf stamps (stamps start) (stamps start) (sortedOrder stamps)).find? (·.phase = "E3g".toList) with
  | none =>
    have named : name e3g ∈ (rowsOf stamps (stamps start) (stamps start) (sortedOrder stamps)).map (·.phase) := by
      rw [map_rowsOf.1]
      exact List.mem_map_of_mem member
    obtain ⟨row, mem, phase⟩ := List.mem_map.mp named
    exact absurd (decide_eq_true phase) (List.find?_eq_none.mp found row mem)
  | some row =>
    obtain ⟨i, -, phase, since⟩ := mem_rowsOf (List.mem_of_find?_eq_some found)
    have chosen := List.find?_some found
    have same : row.phase = name e3g := of_decide_eq_true chosen
    -- No two slots have one name, so the row that was found is that of E3g.
    obtain rfl : i = e3g := name_injective i e3g (phase.symm.trans same)
    rw [toNat_ns (first e3g) (small e3g)] at since
    exact ⟨row, rfl, since, by rw [since, sum]⟩

theorem assertPhases_rowsOf (nonzero : ∀ i, stamps i ≠ 0) (first : ∀ i, stamps start ≤ stamps i)
    (small : ∀ i, (stamps i).toNat * 100 < 2 ^ 64) :
    ∃ overhead, assertPhasesSumToE3g (rowsOf stamps (stamps start) (stamps start) (sortedOrder stamps)) = .ok overhead := by
  obtain ⟨perm, -⟩ := sortedOrder_spec nonzero
  obtain ⟨row, found, -, sum⟩ := total_e3g nonzero first small
  generalize table : rowsOf stamps (stamps start) (stamps start) (sortedOrder stamps) = rows at found sum ⊢
  have named : name stampB ∈ rows.map (·.phase) := by
    rw [← table, map_rowsOf.1]
    exact List.mem_map_of_mem (perm.mem_iff.mpr (List.mem_finRange stampB))
  obtain ⟨stamp, mem, phase⟩ := List.mem_map.mp named
  cases pair : rows.reverse.find? (·.phase = "stamp_b".toList) with
  | none => exact absurd (decide_eq_true phase) (List.find?_eq_none.mp pair stamp (List.mem_reverse.mpr mem))
  | some b =>
    refine ⟨max b.deltaNs 100, ?_⟩
    rw [assertPhasesSumToE3g, stampOverheadNs, pair]
    change (match rows.find? (·.phase = "E3g".toList) with | none => _ | some e3g => _) = _
    rw [found]
    dsimp only
    rw [sum, Int.sub_self, if_neg (by simp)]
    rfl

end

/-- The parser reads back the table that the kernel printed from any text whose lines, without carriage
returns and stripped, that begin with PHASE are those of the table. The rows are the phases by stamp, ties
in the order of the array, the first one first; and the differences of the rows up to E3g, those at the
same tick included, add up to E3g exactly. -/
theorem parsePhases_printed (u : Classes) {stamps : Stamps} (nonzero : ∀ i, stamps i ≠ 0)
    (first : ∀ i, stamps start ≤ stamps i) (small : ∀ i, (stamps i).toNat * 100 < 2 ^ 64) {text : List Char}
    (printed : ((splitlines text).map (clean u)).filter ("PHASE".toList.isPrefixOf ·) = (printAfterResponse false stamps).2) :
    ∃ (rows : List Row) (order : List Phase.Slot) (row : Row), parsePhases u text = .ok rows ∧ rows.length = 22 ∧
      order.Perm (List.finRange 22) ∧ order.head? = some start ∧
      order.Pairwise (fun a b => stamps a < stamps b ∨ stamps a = stamps b ∧ a < b) ∧
      rows.map (·.phase) = order.map name ∧ rows.map (·.ticks) = order.map (fun i => (stamps i).toNat) ∧
      rows.map (·.nsSinceE2) = order.map (fun i => 100 * ((stamps i).toNat - (stamps start).toNat)) ∧
      rows.find? (·.phase = "E3g".toList) = some row ∧ total rows row.nsSinceE2 = row.nsSinceE2 := by
  obtain ⟨perm, sorted⟩ := sortedOrder_spec nonzero
  obtain ⟨row, found, -, sum⟩ := total_e3g nonzero first small
  obtain ⟨overhead, passed⟩ := assertPhases_rowsOf nonzero first small
  obtain ⟨phases, ticks, since⟩ := @map_rowsOf stamps (stamps start) (stamps start) (sortedOrder stamps)
  -- the parser skips the lines around the table
  have read : parseLines u (splitlines text) = .ok (rowsOf stamps (stamps start) (stamps start) (sortedOrder stamps)) := by
    rw [← parseLines_phases, printed, printAfterResponse_eq nonzero, parseLines, parseLine_header, parseLines_printRows]
    rfl
  have named (i : Phase.Slot) : name i ∈ (rowsOf stamps (stamps start) (stamps start) (sortedOrder stamps)).map (·.phase) := by
    rw [phases]
    exact List.mem_map_of_mem (perm.mem_iff.mpr (List.mem_finRange i))
  have head : ((rowsOf stamps (stamps start) (stamps start) (sortedOrder stamps)).map (·.phase)).head? = some (name start) := by
    rw [phases, List.head?_map, sortedOrder_head nonzero first]
    rfl
  have size := congrArg List.length phases
  generalize rowsOf stamps (stamps start) (stamps start) (sortedOrder stamps) = rows at *
  refine ⟨rows, sortedOrder stamps, row, ?_, ?_, perm, sortedOrder_head nonzero first, sorted, phases, ticks, ?_, found, sum⟩
  · rw [parsePhases, read]
    rw [Checked.ok_bind]
    dsimp only
    rw [head]
    dsimp only
    have startName : name start = "_start".toList := rfl
    have e3gThere : "E3g".toList ∈ rows.map (·.phase) := named e3g
    have stampsThere : ¬ ("stamp_a".toList ∉ rows.map (·.phase) ∨ "stamp_b".toList ∉ rows.map (·.phase)) :=
      not_or.mpr ⟨not_not.mpr (named stampA), not_not.mpr (named stampB)⟩
    rw [if_neg (not_not.mpr startName), if_neg (not_not.mpr e3gThere), if_neg stampsThere, passed]
    rfl
  · rw [List.length_map, List.length_map, perm.length_eq] at size
    exact size
  · rw [since]
    exact List.map_congr_left fun i _ => toNat_ns (first i) (small i)

def tickStamps : Stamps := fun i => BitVec.ofNat 64 (i.val + 1)

def tickLines : List Line :=
  "sbi: ok".toList :: (printAfterResponse false tickStamps).2 ++ ["M3 UNIKERNEL OK".toList]

/-- The lines of a log end in a carriage return and a line feed. -/
theorem parsePhases_printed_ticks :
    ∃ rows, parsePhases asciiClasses (joinLines true tickLines) = .ok rows ∧ rows.length = 22 := by
  have nonzero : ∀ i, tickStamps i ≠ 0 := by decide +kernel
  have lines : ∀ line ∈ tickLines, line.all plain = true := by decide +kernel
  have printed := @phases_joinLines asciiClasses tickStamps nonzero true tickLines
    (fun line member _ => whole_of_plain (lines line member)) (by decide +kernel)
  obtain ⟨rows, -, -, read, size, -⟩ :=
    parsePhases_printed asciiClasses nonzero (by decide +kernel) (by decide +kernel) printed
  exact ⟨rows, read, size⟩

/-- A line that begins with a blank and then PHASE stops the parser, although it does not begin with
PHASE. -/
theorem parsePhases_indented :
    "PHASE".toList.isPrefixOf " PHASE".toList = false ∧
    parsePhases asciiClasses (unlines (" PHASE".toList :: (printAfterResponse false fun _ => 1).2)) =
      .error (.malformed "PHASE".toList) := by
  decide +kernel

end Whimbrel.Bench

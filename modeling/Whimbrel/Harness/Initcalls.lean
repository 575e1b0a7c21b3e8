import Mathlib.Data.Char
import Mathlib.Data.List.Infix
import Mathlib.Data.List.Lex
import Mathlib.Data.Prod.Lex
import Whimbrel.Lib.Bisect
import Whimbrel.Lib.Checked
import Whimbrel.Lib.SortBy
import Whimbrel.Lib.Text

/-! Initcall labels: `scripts/label-linux-initcalls.py`.

The rows of a System.map and the lines of a serial log are whatever the script's
own patterns take for them. No pattern here has to go back: what follows a run
never continues it. -/

set_option autoImplicit false

namespace Whimbrel.Initcalls

open Text SortBy Checked

/-- An address and a name; sorted as Python sorts the pair. -/
abbrev Entry := Int × Line

structure Initcall where
  addr : Nat
  ret : Int
  usecs : Nat
  ns : Nat
  line : Line
  deriving DecidableEq, Repr

structure Label extends Initcall where
  name : Line
  offset : Int
  symbol : Line
  inHole : Bool
  deriving DecidableEq, Repr

structure LabelFail where
  message : Line
  deriving DecidableEq, Repr

def holeStartSub : Line := "Key type dns_resolver registered".toList
def holeEndSub : Line := "clk: Disabling unused clocks".toList
def maxOffset : Int := 64 * 1024

def asciiDigit (u : Classes) (c : Char) : Char :=
  match u.digit c with
  | some d => Char.ofNat (48 + d)
  | none => c

/-- The digits after the sign: `0x` and one underscore are skipped, and single
underscores may stand between digits. -/
def magnitude (text : Line) : Option Nat :=
  let digits :=
    match text with
    | '0' :: x :: rest =>
      if x = 'x' ∨ x = 'X' then
        match rest with
        | '_' :: rest => rest
        | _ => rest
      else text
    | _ => text
  let groups := digits.splitOn '_'
  if groups.all fun g => g ≠ [] ∧ g.all isHexDigit then some (hexNumber groups.flatten) else none

/-- `int(text, 16)`; `none` is its `ValueError`. -/
def intBase16 (u : Classes) (text : Line) : Option Int :=
  match text.map (asciiDigit u) with
  | '-' :: rest => (magnitude rest).map fun n => -(n : Int)
  | '+' :: rest => (magnitude rest).map fun n => (n : Int)
  | rest => (magnitude rest).map fun n => (n : Int)

def symbolRow (u : Classes) (raw : Line) : Option Entry :=
  match words u raw with
  | addr :: _ :: name :: _ => (intBase16 u addr).map (·, name)
  | _ => none

def symbolRows (u : Classes) (text : List Char) : List Entry := (splitlines text).filterMap (symbolRow u)

def loadSystemMap (u : Classes) (text : List Char) : Except LabelFail (List Entry) :=
  let entries := symbolRows u text
  if entries = [] then .error ⟨"TEST FAIL: System.map has no symbol rows".toList⟩
  else .ok (sortBy (toLex : Entry → Int ×ₗ Line) entries)

/-- `entries[i]`; the search stays inside the list. -/
def entryAt (entries : List Entry) (i : Int) : Entry := entries.getD i.toNat (0, [])

def resolve (addr : Int) (entries : List Entry) : Except LabelFail (Line × Int) :=
  let best := Bisect.rightmost (fun mid => (entryAt entries mid).1 ≤ addr) 0 (entries.length - 1) (-1)
  if best < 0 then
    .error ⟨"TEST FAIL: initcall 0x".toList ++ hexadecimal addr ++ " is below System.map (first 0x".toList ++
      hexadecimal (entryAt entries 0).1 ++ ")".toList⟩
  else
    let (base, name) := entryAt entries best
    let off := addr - base
    if maxOffset ≤ off then
      .error ⟨"TEST FAIL: initcall 0x".toList ++ hexadecimal addr ++ " resolved to ".toList ++ name ++ "+0x".toList ++
        hexadecimal off ++ " (offset ≥ 64 KiB; wrong System.map for this Image)".toList⟩
    else .ok (name, off)

/-! ## The serial log -/

def isDigit (u : Classes) (c : Char) : Bool := (u.digit c).isSome

def printkNs (u : Classes) (sec frac : Line) : Nat :=
  number u sec * 1000000000 + number u ((frac ++ List.replicate (9 - frac.length) '0').take 9)

def printkRe (u : Classes) (line : Line) : Option (Line × Line × Line) := do
  let line ← literal "[".toList line
  let (sec, line) ← run (isDigit u) (line.dropWhile u.space)
  let line ← literal ".".toList line
  let (frac, line) ← run (isDigit u) line
  let line ← literal "]".toList line
  match line with
  | c :: msg => if u.space c then some (sec, frac, msg) else none
  | [] => none

def signed (u : Classes) (line : Line) : Option (Int × Line) :=
  match literal "-".toList line with
  | some line => (run (isDigit u) line).map fun (digits, rest) => (-(number u digits : Int), rest)
  | none => (run (isDigit u) line).map fun (digits, rest) => ((number u digits : Int), rest)

/-- The groups of `INITCALL_RET_RE` from where `\b` holds. If `0x` is there it is
taken: without it the digits end at the `x`. -/
def initcallRetAt (u : Classes) (line : Line) : Option (Nat × Int × Nat) := do
  let line ← literal "initcall".toList line
  let (_, line) ← run u.space line
  let (addr, line) ← run isHexDigit ((literal "0x".toList line).getD line)
  let (_, line) ← run u.space line
  let line ← literal "returned".toList line
  let (_, line) ← run u.space line
  let (ret, line) ← signed u line
  let (_, line) ← run u.space line
  let line ← literal "after".toList line
  let (_, line) ← run u.space line
  let (usecs, line) ← run (isDigit u) line
  let (_, line) ← run u.space line
  let _ ← literal "usecs".toList line
  return (hexNumber addr, ret, number u usecs)

/-- `INITCALL_RET_RE.search`, `inWord` if the character before is one of a word. -/
def searchFrom (w : WordClasses) (inWord : Bool) : Line → Option (Nat × Int × Nat)
  | [] => none
  | c :: rest =>
    (if inWord then none else initcallRetAt w.toClasses (c :: rest)) <|> searchFrom w (w.word c) rest

def initcallRetRe (w : WordClasses) (msg : Line) : Option (Nat × Int × Nat) := searchFrom w false msg

structure Scan where
  rows : List Initcall
  holeStart : Option Nat
  holeEnd : Option Nat

def scanLine (w : WordClasses) (scan : Scan) (raw : Line) : Scan :=
  match printkRe w.toClasses (raw.rdropWhile (· = '\r')) with
  | none => scan
  | some (sec, frac, msg) =>
    let ts := printkNs w.toClasses sec frac
    let scan := if holeStartSub <:+: msg then { scan with holeStart := some ts } else scan
    let scan := if holeEndSub <:+: msg then { scan with holeEnd := some ts } else scan
    match initcallRetRe w msg with
    | none => scan
    | some (addr, ret, usecs) => { scan with rows := scan.rows ++ [⟨addr, ret, usecs, ts, msg⟩] }

def parseSerial (w : WordClasses) (text : List Char) : Scan := (splitlines text).foldl (scanLine w) ⟨[], none, none⟩

def labelRow (entries : List Entry) (holeStart holeEnd : Nat) (r : Initcall) : Except LabelFail Label := do
  let (name, off) ← resolve r.addr entries
  return {
    toInitcall := r
    name := name
    offset := off
    symbol := if off ≠ 0 then name ++ "+0x".toList ++ hexadecimal off else name
    inHole := holeStart < r.ns ∧ r.ns ≤ holeEnd }

def labelRows (entries : List Entry) (holeStart holeEnd : Nat) : List Initcall → Except LabelFail (List Label)
  | [] => .ok []
  | r :: rows => do
    let record ← labelRow entries holeStart holeEnd r
    let labeled ← labelRows entries holeStart holeEnd rows
    return record :: labeled

def label (w : WordClasses) (serialText mapText : List Char) : Except LabelFail (List Label × List Label) := do
  let entries ← loadSystemMap w.toClasses mapText
  let scan := parseSerial w serialText
  if scan.rows = [] then
    throw ⟨("TEST FAIL: zero initcall-returned lines " ++
      "(ignore_loglevel did not take, or this is the T4.8 loglevel=7 log)").toList⟩
  match scan.holeStart, scan.holeEnd with
  | some holeStart, some holeEnd =>
    if holeEnd ≤ holeStart then throw ⟨"TEST FAIL: hole window is empty or inverted".toList⟩
    let rows ← labelRows entries holeStart holeEnd scan.rows
    let labeled := sortBy (fun r => OrderDual.toDual r.usecs) rows
    let hole := labeled.filter (·.inHole)
    if hole = [] then
      throw ⟨"TEST FAIL: no initcall-returned lines inside the dns_resolver → clk-disable window".toList⟩
    return (hole, labeled)
  | _, _ =>
    throw ⟨"TEST FAIL: diagnostic serial missing dns_resolver / clk-disabling-unused-clocks window".toList⟩

/-! ## Resolving an address -/

section
variable {symbols : List Entry} {addr base : Int} {name : Line}

/-- The greatest base at or below the address, and of its names the last. -/
structure Nearest (symbols : List Entry) (addr base : Int) (name : Line) : Prop where
  mem : (base, name) ∈ symbols
  below : base ≤ addr
  greatest : ∀ s ∈ symbols, s.1 ≤ addr → s.1 ≤ base
  last : ∀ other, (base, other) ∈ symbols → other ≤ name

/-- `load_system_map`'s order. -/
def sorted (symbols : List Entry) : List Entry := sortBy (toLex : Entry → Int ×ₗ Line) symbols

theorem mem_sorted {s : Entry} : s ∈ sorted symbols ↔ s ∈ symbols := (sortBy_perm _ symbols).mem_iff

theorem entryAt_eq {entries : List Entry} {i : Nat} (inside : i < entries.length) :
    entryAt entries i = entries[i] := by
  rw [entryAt, Int.toNat_natCast, List.getD_eq_getElem?_getD, List.getElem?_eq_getElem inside, Option.getD_some]

theorem sorted_le {i j : Nat} (order : i ≤ j) (inside : j < (sorted symbols).length) :
    toLex (entryAt (sorted symbols) i) ≤ toLex (entryAt (sorted symbols) j) := by
  rw [entryAt_eq inside, entryAt_eq (Nat.lt_of_le_of_lt order inside)]
  rcases Nat.lt_or_eq_of_le order with less | rfl
  · exact List.pairwise_iff_getElem.mp (sortBy_sorted _ symbols) i j _ inside less
  · exact le_refl _

theorem fst_le_of_lex {a b : Entry} (le : toLex a ≤ toLex b) : a.1 ≤ b.1 := by
  rcases Prod.Lex.toLex_le_toLex.mp le with less | same
  · exact le_of_lt less
  · exact le_of_eq same.1

/-- Where the search ends: exactly the entries up to there are at or below the address. -/
theorem search_cuts (symbols : List Entry) (addr : Int) : ∃ best : Int,
    Bisect.rightmost (fun mid => (entryAt (sorted symbols) mid).1 ≤ addr) 0 ((sorted symbols).length - 1) (-1) = best ∧
    -1 ≤ best ∧ best < (sorted symbols).length ∧
    ∀ i : Nat, i < (sorted symbols).length → ((entryAt (sorted symbols) i).1 ≤ addr ↔ (i : Int) ≤ best) := by
  have downward : Bisect.Downward (fun mid => decide ((entryAt (sorted symbols) mid).1 ≤ addr)) 0
      ((sorted symbols).length - 1) := by
    intro i j low order high holds
    obtain ⟨i, rfl⟩ := Int.eq_ofNat_of_zero_le low
    obtain ⟨j, rfl⟩ := Int.eq_ofNat_of_zero_le (le_trans low order)
    have le := fst_le_of_lex (@sorted_le symbols i j (by omega) (by omega))
    exact decide_eq_true (le_trans le (of_decide_eq_true holds))
  have cuts := Bisect.rightmost_cuts downward (by omega) (show (-1 : Int) = 0 - 1 by omega)
  refine ⟨_, rfl, by have := cuts.low; omega, by have := cuts.high; omega, ?_⟩
  intro i inside
  have holds := cuts.holds i (by omega) (by omega)
  rwa [decide_eq_true_iff] at holds

theorem nearest_of_cut {best : Nat} (inside : best < (sorted symbols).length)
    (cut : ∀ i : Nat, i < (sorted symbols).length → ((entryAt (sorted symbols) i).1 ≤ addr ↔ i ≤ best)) :
    Nearest symbols addr (entryAt (sorted symbols) best).1 (entryAt (sorted symbols) best).2 := by
  -- of equal bases the sort puts the greatest name last, and the search ends at the last
  have before {s : Entry} (mem : s ∈ symbols) (below : s.1 ≤ addr) : toLex s ≤ toLex (entryAt (sorted symbols) best) := by
    obtain ⟨i, within, rfl⟩ := List.mem_iff_getElem.mp (mem_sorted.mpr mem)
    rw [← entryAt_eq within] at below ⊢
    exact sorted_le ((cut i within).mp below) inside
  have below : (entryAt (sorted symbols) best).1 ≤ addr := (cut best inside).mpr (le_refl _)
  refine ⟨?_, below, fun s mem le => fst_le_of_lex (before mem le), ?_⟩
  · rw [← mem_sorted, entryAt_eq inside]
    exact List.getElem_mem inside
  · intro other mem
    rcases Prod.Lex.toLex_le_toLex.mp (before mem below) with less | same
    · exact absurd less (lt_irrefl _)
    · exact same.2

/-- An address is resolved exactly if some symbol lies less than 64 KiB below it. -/
theorem resolve_spec (symbols : List Entry) (addr : Int) :
    (∃ base name, Nearest symbols addr base name ∧ addr - base < maxOffset ∧
      resolve addr (sorted symbols) = .ok (name, addr - base)) ∨
    ((∀ s ∈ symbols, s.1 ≤ addr → maxOffset ≤ addr - s.1) ∧ ∃ e, resolve addr (sorted symbols) = .error e) := by
  obtain ⟨best, found, low, high, cut⟩ := search_cuts symbols addr
  by_cases negative : best < 0
  · right
    constructor
    · intro s mem below
      obtain ⟨i, within, rfl⟩ := List.mem_iff_getElem.mp (mem_sorted.mpr mem)
      rw [← entryAt_eq within] at below
      have := (cut i within).mp below
      omega
    · rw [resolve, found, if_pos negative]
      exact ⟨_, rfl⟩
  · obtain ⟨best, rfl⟩ := Int.eq_ofNat_of_zero_le (Int.not_lt.mp negative)
    have nearest := @nearest_of_cut symbols addr best (by omega) fun i within => by rw [cut i within]; omega
    -- the text of the error does not matter here
    obtain ⟨e, step⟩ : ∃ e, resolve addr (sorted symbols) =
        if maxOffset ≤ addr - (entryAt (sorted symbols) best).1 then .error e
        else .ok ((entryAt (sorted symbols) best).2, addr - (entryAt (sorted symbols) best).1) := by
      rw [resolve, found, if_neg negative]
      exact ⟨_, rfl⟩
    by_cases far : maxOffset ≤ addr - (entryAt (sorted symbols) best).1
    · right
      refine ⟨?_, e, step.trans (if_pos far)⟩
      intro s mem below
      have := nearest.greatest s mem below
      omega
    · left
      exact ⟨_, _, nearest, by omega, step.trans (if_neg far)⟩

end

structure Printk where
  ns : Nat
  msg : Line

def printk? (w : WordClasses) (raw : Line) : Option Printk :=
  (printkRe w.toClasses (raw.rdropWhile (· = '\r'))).map fun (sec, frac, msg) => ⟨printkNs w.toClasses sec frac, msg⟩

def printks (w : WordClasses) (text : List Char) : List Printk := (splitlines text).filterMap (printk? w)

def Printk.initcall? (w : WordClasses) (p : Printk) : Option Initcall :=
  (initcallRetRe w p.msg).map fun (addr, ret, usecs) => ⟨addr, ret, usecs, p.ns, p.msg⟩

def initcallLines (w : WordClasses) (text : List Char) : List Initcall := (printks w text).filterMap (·.initcall? w)

def lastStamp (sub : Line) (ps : List Printk) : Option Nat := (ps.filter (sub <:+: ·.msg)).getLast?.map (·.ns)

section
variable {w : WordClasses}

def Scan.add (w : WordClasses) (scan : Scan) (p : Printk) : Scan where
  rows := scan.rows ++ (p.initcall? w).toList
  holeStart := if holeStartSub <:+: p.msg then some p.ns else scan.holeStart
  holeEnd := if holeEndSub <:+: p.msg then some p.ns else scan.holeEnd

theorem scanLine_eq (scan : Scan) (raw : Line) : scanLine w scan raw = ((printk? w raw).map (scan.add w)).getD scan := by
  unfold scanLine printk?
  cases printkRe w.toClasses (raw.rdropWhile (· = '\r')) with
  | none => rfl
  | some groups =>
    obtain ⟨sec, frac, msg⟩ := groups
    simp only [Option.map_some, Option.getD_some, Scan.add, Printk.initcall?]
    by_cases start : holeStartSub <:+: msg <;> by_cases stop : holeEndSub <:+: msg <;>
      cases initcallRetRe w msg <;> simp [start, stop]

theorem lastStamp_concat (sub : Line) (ps : List Printk) (p : Printk) :
    lastStamp sub (ps ++ [p]) = if sub <:+: p.msg then some p.ns else lastStamp sub ps := by
  unfold lastStamp
  split <;> simp_all

theorem foldl_add (ps : List Printk) : ps.foldl (Scan.add w) ⟨[], none, none⟩ =
    ⟨ps.filterMap (·.initcall? w), lastStamp holeStartSub ps, lastStamp holeEndSub ps⟩ := by
  -- from the end of the log: a later marker overwrites an earlier one
  induction ps using List.reverseRecOn with
  | nil => rfl
  | append_singleton ps p ih =>
    rw [List.foldl_append, ih, List.filterMap_append, lastStamp_concat, lastStamp_concat]
    rfl

theorem parseSerial_eq (text : List Char) : parseSerial w text =
    ⟨initcallLines w text, lastStamp holeStartSub (printks w text), lastStamp holeEndSub (printks w text)⟩ := by
  have step : scanLine w = fun scan raw => ((printk? w raw).map (scan.add w)).getD scan := by
    funext scan raw
    exact scanLine_eq scan raw
  rw [initcallLines, ← foldl_add, parseSerial, step, printks, List.foldl_filterMap]
  congr 1
  funext scan raw
  cases printk? w raw <;> rfl

end

section
variable {symbols : List Entry} {holeStart holeEnd : Nat} {r : Initcall} {rows : List Initcall}

/-- Some symbol lies at or below the address, less than 64 KiB away. -/
def Resolvable (symbols : List Entry) (addr : Int) : Prop := ∃ s ∈ symbols, s.1 ≤ addr ∧ addr - s.1 < maxOffset

instance (symbols : List Entry) (addr : Int) : Decidable (Resolvable symbols addr) :=
  inferInstanceAs (Decidable (∃ s ∈ symbols, s.1 ≤ addr ∧ addr - s.1 < maxOffset))

structure Labels (symbols : List Entry) (holeStart holeEnd : Nat) (r : Initcall) (l : Label) : Prop where
  row : l.toInitcall = r
  nearest : ∃ base, Nearest symbols r.addr base l.name ∧ l.offset = r.addr - base
  symbol : l.symbol = if l.offset ≠ 0 then l.name ++ "+0x".toList ++ hexadecimal l.offset else l.name
  inHole : l.inHole = true ↔ holeStart < r.ns ∧ r.ns ≤ holeEnd

theorem labelRow_spec (symbols : List Entry) (holeStart holeEnd : Nat) (r : Initcall) :
    (Resolvable symbols r.addr ∧ ∃ l, labelRow (sorted symbols) holeStart holeEnd r = .ok l ∧
      Labels symbols holeStart holeEnd r l) ∨
    (¬ Resolvable symbols r.addr ∧ ∃ e, labelRow (sorted symbols) holeStart holeEnd r = .error e) := by
  unfold labelRow
  rcases resolve_spec symbols r.addr with ⟨base, name, nearest, near, resolved⟩ | ⟨far, e, failed⟩
  · left
    rw [resolved]
    exact ⟨⟨_, nearest.mem, nearest.below, near⟩, _, rfl, {
      row := rfl
      nearest := ⟨base, nearest, rfl⟩
      symbol := rfl
      inHole := decide_eq_true_iff }⟩
  · right
    rw [failed]
    refine ⟨?_, e, rfl⟩
    rintro ⟨s, mem, below, near⟩
    have := far s mem below
    omega

theorem labelRows_spec (symbols : List Entry) (holeStart holeEnd : Nat) (rows : List Initcall) :
    ((∀ r ∈ rows, Resolvable symbols r.addr) ∧ ∃ labels, labelRows (sorted symbols) holeStart holeEnd rows = .ok labels ∧
      List.Forall₂ (Labels symbols holeStart holeEnd) rows labels) ∨
    (¬ (∀ r ∈ rows, Resolvable symbols r.addr) ∧ ∃ e, labelRows (sorted symbols) holeStart holeEnd rows = .error e) := by
  induction rows with
  | nil => exact .inl ⟨by simp, [], rfl, .nil⟩
  | cons r rows ih =>
    rw [labelRows, List.forall_mem_cons]
    rcases labelRow_spec symbols holeStart holeEnd r with ⟨resolvable, l, labelled, labels⟩ | ⟨unresolvable, e, failed⟩
    · rw [labelled]
      rcases ih with ⟨all, rest, done, each⟩ | ⟨some, e, failed⟩
      · rw [done]
        exact .inl ⟨⟨resolvable, all⟩, l :: rest, rfl, .cons labels each⟩
      · rw [failed]
        exact .inr ⟨fun all => some all.2, e, rfl⟩
    · rw [failed]
      exact .inr ⟨fun all => unresolvable all.1, e, rfl⟩

/-- The labelled initcalls of a log, and those of its hole. -/
structure Labelled (symbols : List Entry) (rows : List Initcall) (holeStart holeEnd : Nat) (hole labeled : List Label) :
    Prop where
  perm : (labeled.map (·.toInitcall)).Perm rows
  descending : labeled.Pairwise fun a b => b.usecs ≤ a.usecs
  stable : ∀ usecs, (labeled.filter (·.usecs = usecs)).map (·.toInitcall) = rows.filter (·.usecs = usecs)
  labels : ∀ l ∈ labeled, Labels symbols holeStart holeEnd l.toInitcall l
  hole : hole = labeled.filter fun l => holeStart < l.ns ∧ l.ns ≤ holeEnd

theorem labels_rows {labels : List Label} (each : List.Forall₂ (Labels symbols holeStart holeEnd) rows labels) :
    labels.map (·.toInitcall) = rows ∧ ∀ l ∈ labels, Labels symbols holeStart holeEnd l.toInitcall l := by
  induction each with
  | nil => exact ⟨rfl, by simp⟩
  | cons first _ ih =>
    refine ⟨?_, List.forall_mem_cons.mpr ⟨first.row.symm ▸ first, ih.2⟩⟩
    rw [List.map_cons, first.row, ih.1]

theorem labelled {labels : List Label} (each : List.Forall₂ (Labels symbols holeStart holeEnd) rows labels) :
    Labelled symbols rows holeStart holeEnd ((sortBy (fun r => OrderDual.toDual r.usecs) labels).filter (·.inHole))
      (sortBy (fun r => OrderDual.toDual r.usecs) labels) := by
  obtain ⟨same, all⟩ := labels_rows each
  have perm := sortBy_perm (fun r : Label => OrderDual.toDual r.usecs) labels
  have labels' : ∀ l ∈ sortBy (fun r : Label => OrderDual.toDual r.usecs) labels,
      Labels symbols holeStart holeEnd l.toInitcall l := fun l mem => all l (perm.mem_iff.mp mem)
  exact {
    perm := same ▸ perm.map _
    descending := sortBy_sorted (fun r : Label => OrderDual.toDual r.usecs) labels
    stable := fun usecs => by
      -- equal durations stay in the order of the log
      have stable := sortBy_stable (fun r : Label => OrderDual.toDual r.usecs) labels (OrderDual.toDual usecs)
      simp only [OrderDual.toDual_inj] at stable
      rw [stable, ← same, List.filter_map]
      rfl
    labels := labels'
    hole := List.filter_congr fun l mem => by
      rw [Bool.eq_iff_iff, (labels' l mem).inHole, decide_eq_true_iff] }

theorem Labelled.hole_ne_nil {hole labeled : List Label} (done : Labelled symbols rows holeStart holeEnd hole labeled) :
    hole ≠ [] ↔ ∃ r ∈ rows, holeStart < r.ns ∧ r.ns ≤ holeEnd := by
  rw [done.hole, ne_eq, List.filter_eq_nil_iff]
  constructor
  · intro some
    push Not at some
    obtain ⟨l, mem, within⟩ := some
    exact ⟨l.toInitcall, done.perm.mem_iff.mp (List.mem_map_of_mem mem), of_decide_eq_true within⟩
  · rintro ⟨r, mem, within⟩ none
    obtain ⟨l, inside, rfl⟩ := List.mem_map.mp (done.perm.mem_iff.mpr mem)
    exact none l inside (decide_eq_true within)

end

/-- Everything `label` asks of a log and a System.map. -/
structure Labelable (symbols : List Entry) (rows : List Initcall) (holeStart holeEnd : Nat) : Prop where
  symbol : symbols ≠ []
  row : rows ≠ []
  window : holeStart < holeEnd
  inside : ∃ r ∈ rows, holeStart < r.ns ∧ r.ns ≤ holeEnd
  resolvable : ∀ r ∈ rows, Resolvable symbols r.addr

theorem label_spec (w : WordClasses) (serialText mapText : List Char) :
    (∃ holeStart holeEnd hole labeled, label w serialText mapText = .ok (hole, labeled) ∧
      lastStamp holeStartSub (printks w serialText) = some holeStart ∧
      lastStamp holeEndSub (printks w serialText) = some holeEnd ∧
      Labelable (symbolRows w.toClasses mapText) (initcallLines w serialText) holeStart holeEnd ∧
      Labelled (symbolRows w.toClasses mapText) (initcallLines w serialText) holeStart holeEnd hole labeled) ∨
    ((∃ e, label w serialText mapText = .error e) ∧
      ¬ ∃ holeStart holeEnd, lastStamp holeStartSub (printks w serialText) = some holeStart ∧
        lastStamp holeEndSub (printks w serialText) = some holeEnd ∧
        Labelable (symbolRows w.toClasses mapText) (initcallLines w serialText) holeStart holeEnd) := by
  unfold label loadSystemMap
  rw [parseSerial_eq]
  dsimp only
  generalize symbolRows w.toClasses mapText = symbols, initcallLines w serialText = rows,
    lastStamp holeStartSub (printks w serialText) = first, lastStamp holeEndSub (printks w serialText) = last
  -- the checks in the order of the source, each with the field of `Labelable` it makes
  by_cases symbol : symbols = []
  · rw [if_pos symbol]
    exact .inr ⟨⟨_, rfl⟩, fun ⟨_, _, _, _, able⟩ => able.symbol symbol⟩
  rw [if_neg symbol, ok_bind]
  by_cases row : rows = []
  · rw [if_pos row]
    exact .inr ⟨⟨_, rfl⟩, fun ⟨_, _, _, _, able⟩ => able.row row⟩
  rw [if_neg row]
  cases first with
  | none => exact .inr ⟨⟨_, rfl⟩, fun ⟨_, _, stamp, _⟩ => nomatch stamp⟩
  | some holeStart =>
    cases last with
    | none => exact .inr ⟨⟨_, rfl⟩, fun ⟨_, _, _, stamp, _⟩ => nomatch stamp⟩
    | some holeEnd =>
      dsimp only
      by_cases window : holeEnd ≤ holeStart
      · rw [if_pos window]
        refine .inr ⟨⟨_, rfl⟩, ?_⟩
        rintro ⟨_, _, ⟨⟩, ⟨⟩, able⟩
        exact absurd able.window (Nat.not_lt.mpr window)
      rw [if_neg window]
      rcases labelRows_spec symbols holeStart holeEnd rows with ⟨all, labels, done, each⟩ | ⟨some, e, failed⟩
      · rw [sorted] at done
        rw [done, ok_bind]
        have sorted := labelled each
        by_cases empty : ((sortBy (fun r => OrderDual.toDual r.usecs) labels).filter (·.inHole)) = []
        · rw [if_pos empty]
          refine .inr ⟨⟨_, rfl⟩, ?_⟩
          rintro ⟨_, _, ⟨⟩, ⟨⟩, able⟩
          exact sorted.hole_ne_nil.mpr able.inside empty
        · rw [if_neg empty]
          exact .inl ⟨holeStart, holeEnd, _, _, rfl, rfl, rfl,
            ⟨symbol, row, Nat.not_le.mp window, sorted.hole_ne_nil.mp empty, all⟩, sorted⟩
      · rw [sorted] at failed
        rw [failed]
        refine .inr ⟨⟨e, rfl⟩, ?_⟩
        rintro ⟨_, _, ⟨⟩, ⟨⟩, able⟩
        exact some able.resolvable

/-- `label` returns exactly on the logs and maps that have all it asks for, and then
what it returns is the labelled list and its part in the window. -/
theorem label_exact (w : WordClasses) (serialText mapText : List Char) :
    ((∃ out, label w serialText mapText = .ok out) ↔
      ∃ holeStart holeEnd, lastStamp holeStartSub (printks w serialText) = some holeStart ∧
        lastStamp holeEndSub (printks w serialText) = some holeEnd ∧
        Labelable (symbolRows w.toClasses mapText) (initcallLines w serialText) holeStart holeEnd) ∧
    ∀ hole labeled, label w serialText mapText = .ok (hole, labeled) →
      ∃ holeStart holeEnd, lastStamp holeStartSub (printks w serialText) = some holeStart ∧
        lastStamp holeEndSub (printks w serialText) = some holeEnd ∧
        Labelled (symbolRows w.toClasses mapText) (initcallLines w serialText) holeStart holeEnd hole labeled := by
  rcases label_spec w serialText mapText with
    ⟨holeStart, holeEnd, hole, labeled, returned, first, last, able, done⟩ | ⟨⟨e, failed⟩, unable⟩
  · refine ⟨⟨fun _ => ⟨holeStart, holeEnd, first, last, able⟩, fun _ => ⟨_, returned⟩⟩, ?_⟩
    intro hole' labeled' same
    rw [returned, Except.ok.injEq, Prod.mk.injEq] at same
    obtain ⟨rfl, rfl⟩ := same
    exact ⟨holeStart, holeEnd, first, last, done⟩
  · refine ⟨⟨?_, fun able => absurd able unable⟩, ?_⟩
    · rintro ⟨out, returned⟩
      rw [failed] at returned
      cases returned
    · intro hole labeled returned
      rw [failed] at returned
      cases returned

def someMap : List Char := unlines ["2000 T bar".toList, "1000 T foo".toList, "1000 t alias".toList]

def someSerial : List Char :=
  unlines ["[  0.10] ".toList ++ holeStartSub, "[  0.20] initcall 0x1000 ".toList ++ "returned 0 after 5 usecs".toList,
    "[  0.25] initcall 1010 ".toList ++ "returned -19 after 20 usecs".toList, "[  0.30] ".toList ++ holeEndSub]

theorem label_exact_some : ∃ out, label asciiWordClasses someSerial someMap = .ok out ∧
    Labelled (symbolRows asciiClasses someMap) (initcallLines asciiWordClasses someSerial) 100000000 300000000
      out.1 out.2 := by
  have first : lastStamp holeStartSub (printks asciiWordClasses someSerial) = some 100000000 := by decide +kernel
  have last : lastStamp holeEndSub (printks asciiWordClasses someSerial) = some 300000000 := by decide +kernel
  obtain ⟨⟨hole, labeled⟩, returned⟩ := (label_exact asciiWordClasses someSerial someMap).1.mpr
    ⟨_, _, first, last, by decide +kernel, by decide +kernel, by decide, by decide +kernel, by decide +kernel⟩
  obtain ⟨_, _, first', last', done⟩ := (label_exact asciiWordClasses someSerial someMap).2 hole labeled returned
  rw [first, Option.some.injEq] at first'
  rw [last, Option.some.injEq] at last'
  subst first' last'
  exact ⟨(hole, labeled), returned, done⟩

end Whimbrel.Initcalls

import Mathlib.Data.List.Basic
import Mathlib.Data.List.DropRight
import Mathlib.Data.List.TakeWhile

/-! Lines of text and what a reader scans in one.

A scanner takes a literal or a run of one class of characters from the front of
a line. A run that the next literal cannot continue is the longest one, so no
scanner here goes back. -/

set_option autoImplicit false

namespace Text

abbrev Line := List Char

instance lawfulBEqLine : LawfulBEq Line := inferInstance

/-- The classes of characters. Those beyond ASCII are a matter of the reader's tables. -/
structure Classes where
  space : Char → Bool
  digit : Char → Option Nat
  space_ascii : ∀ c : Char, c.toNat < 128 → (space c = true ↔ c.toNat ∈ [9, 10, 11, 12, 13, 28, 29, 30, 31, 32])
  digit_ascii : ∀ c : Char, c.toNat < 128 → digit c = if c.isDigit then some (c.toNat - 48) else none

def asciiClasses : Classes where
  space c := c.toNat ∈ [9, 10, 11, 12, 13, 28, 29, 30, 31, 32]
  digit c := if c.isDigit then some (c.toNat - 48) else none
  space_ascii _ _ := decide_eq_true_iff
  digit_ascii _ _ := rfl

/-! ## Lines -/

def boundary (c : Char) : Bool := c.toNat ∈ [10, 11, 12, 13, 28, 29, 30, 0x85, 0x2028, 0x2029]

def splitFrom (line : Line) : List Char → List Line
  | [] => if line = [] then [] else [line]
  | c :: rest =>
    -- of a carriage return and a line feed the second ends the line
    if c = '\r' ∧ rest.head? = some '\n' then splitFrom line rest
    else if boundary c then line :: splitFrom [] rest
    else splitFrom (line ++ [c]) rest

def splitlines (text : List Char) : List Line := splitFrom [] text

def unlines (lines : List Line) : List Char := lines.flatMap (· ++ ['\n'])

/-- Each line ended by a line feed, or by a carriage return and a line feed. -/
def joinLines (cr : Bool) (lines : List Line) : List Char :=
  lines.flatMap (· ++ if cr then ['\r', '\n'] else ['\n'])

def Whole (line : Line) : Prop := ∀ c ∈ line, boundary c = false

theorem splitFrom_feed (front : Line) (rest : List Char) : splitFrom front ('\n' :: rest) = front :: splitFrom [] rest := by
  have ends : boundary '\n' = true := by decide
  rw [splitFrom, if_neg (fun both => absurd both.1 (by decide)), if_pos ends]

theorem splitFrom_ending (cr : Bool) (front : Line) (rest : List Char) :
    splitFrom front ((if cr then ['\r', '\n'] else ['\n']) ++ rest) = front :: splitFrom [] rest := by
  cases cr with
  | false => exact splitFrom_feed front rest
  | true =>
    change splitFrom front ('\r' :: '\n' :: rest) = _
    rw [splitFrom, if_pos ⟨rfl, rfl⟩, splitFrom_feed]

theorem splitFrom_whole {line : Line} (whole : Whole line) (cr : Bool) (front : Line) (rest : List Char) :
    splitFrom front (line ++ ((if cr then ['\r', '\n'] else ['\n']) ++ rest)) = (front ++ line) :: splitFrom [] rest := by
  induction line generalizing front with
  | nil => rw [List.nil_append, splitFrom_ending, List.append_nil]
  | cons c line ih =>
    have inside : boundary c = false := whole c List.mem_cons_self
    have plain : c ≠ '\r' := by
      rintro rfl
      exact absurd inside (by decide)
    rw [List.cons_append, splitFrom, if_neg (fun both => plain both.1), inside, if_neg Bool.false_ne_true,
      ih (fun c mem => whole c (List.mem_cons_of_mem _ mem)), List.append_assoc, List.singleton_append]

theorem splitlines_joinLines (cr : Bool) {lines : List Line} (whole : ∀ line ∈ lines, Whole line) :
    splitlines (joinLines cr lines) = lines := by
  induction lines with
  | nil => rfl
  | cons line lines ih =>
    rw [joinLines, List.flatMap_cons, List.append_assoc, splitlines, splitFrom_whole (whole line List.mem_cons_self),
      List.nil_append]
    exact congrArg (line :: ·) (ih fun l mem => whole l (List.mem_cons_of_mem _ mem))

/-! ## Scanning -/

def strip (u : Classes) (line : Line) : Line := (line.dropWhile u.space).rdropWhile u.space

def literal (p line : Line) : Option Line := if p.isPrefixOf line then some (line.drop p.length) else none

/-- The characters of the class in front, at least one, and what follows them. -/
def run (q : Char → Bool) (line : Line) : Option (Line × Line) :=
  if line.takeWhile q = [] then none else some (line.takeWhile q, line.dropWhile q)

theorem strip_eq_self {u : Classes} {line : Line} (first : ∀ c ∈ line.head?, u.space c = false)
    (last : ∀ c ∈ line.getLast?, u.space c = false) : strip u line = line := by
  have front : line.dropWhile u.space = line := by
    cases line with
    | nil => rfl
    | cons c line => rw [List.dropWhile_cons_of_neg (by rw [first c rfl]; exact Bool.false_ne_true)]
  rw [strip, front]
  rcases List.eq_nil_or_concat line with rfl | ⟨line, c, rfl⟩
  · rfl
  · rw [List.concat_eq_append] at last ⊢
    rw [List.rdropWhile_concat_neg _ _ _ (by rw [last c List.getLast?_concat]; exact Bool.false_ne_true)]

@[simp] theorem literal_append (p line : Line) : literal p (p ++ line) = some line := by
  rw [literal, if_pos (List.isPrefixOf_iff_prefix.mpr (List.prefix_append p line)), List.drop_left]

theorem run_append {q : Char → Bool} {front rest : Line} (some : front ≠ []) (inside : ∀ c ∈ front, q c = true)
    (stop : ∀ c ∈ rest.head?, q c = false) : run q (front ++ rest) = .some (front, rest) := by
  have taken : (front ++ rest).takeWhile q = front := by
    rw [List.takeWhile_append_of_pos inside]
    cases rest with
    | nil => rw [List.takeWhile_nil, List.append_nil]
    | cons c rest => rw [List.takeWhile_cons_of_neg (by rw [stop c rfl]; exact Bool.false_ne_true), List.append_nil]
  have left : (front ++ rest).dropWhile q = rest := by
    rw [List.dropWhile_append_of_pos inside]
    cases rest with
    | nil => rfl
    | cons c rest => rw [List.dropWhile_cons_of_neg (by rw [stop c rfl]; exact Bool.false_ne_true)]
  rw [run, taken, left, if_neg some]

theorem literal_eq_some {p line rest : Line} : literal p line = some rest ↔ line = p ++ rest := by
  constructor
  · intro taken
    rw [literal] at taken
    split at taken
    case isTrue found =>
      obtain ⟨rest', rfl⟩ := List.isPrefixOf_iff_prefix.mp found
      rw [List.drop_left, Option.some.injEq] at taken
      rw [taken]
    case isFalse => cases taken
  · rintro rfl
    exact literal_append p rest

/-- Where a literal stands, no other one does that it does not begin with, or begin. -/
theorem literal_eq_none {p q : Line} (longer : ¬ p <+: q) (shorter : ¬ q <+: p) (rest : Line) :
    literal p (q ++ rest) = none := by
  rw [literal, if_neg]
  intro found
  rcases List.prefix_or_prefix_of_prefix (List.isPrefixOf_iff_prefix.mp found) (List.prefix_append q rest) with first | first
  · exact longer first
  · exact shorter first

theorem head?_dropWhile {q : Char → Bool} (line : Line) : ∀ c ∈ (line.dropWhile q).head?, q c = false := by
  induction line with
  | nil => simp
  | cons d line ih =>
    rw [List.dropWhile_cons]
    split
    · exact ih
    · intro c same
      cases same
      simpa using ‹¬ q d = true›

theorem run_eq_some {q : Char → Bool} {line front rest : Line} : run q line = some (front, rest) ↔
    line = front ++ rest ∧ front ≠ [] ∧ (∀ c ∈ front, q c = true) ∧ ∀ c ∈ rest.head?, q c = false := by
  constructor
  · intro taken
    rw [run] at taken
    split at taken
    case isTrue => cases taken
    case isFalse real =>
      obtain ⟨rfl, rfl⟩ := Prod.mk.inj (Option.some.inj taken)
      exact ⟨List.takeWhile_append_dropWhile.symm, real, fun c mem => List.mem_takeWhile_imp mem, head?_dropWhile line⟩
  · rintro ⟨rfl, real, inside, stop⟩
    exact run_append real inside stop

@[simp] theorem strip_strip (u : Classes) (line : Line) : strip u (strip u line) = strip u line := by
  apply strip_eq_self
  · intro c first
    obtain ⟨rest, whole⟩ := List.rdropWhile_prefix u.space (l := line.dropWhile u.space)
    refine head?_dropWhile line c ?_
    rw [← whole, List.head?_append, show ((line.dropWhile u.space).rdropWhile u.space).head? = some c from first]
    rfl
  · intro c last
    rw [strip] at last
    by_cases empty : (line.dropWhile u.space).rdropWhile u.space = []
    · rw [empty] at last
      cases last
    · rw [List.getLast?_eq_some_getLast empty] at last
      cases last
      exact Bool.eq_false_iff.mpr (List.rdropWhile_last_not _ _ empty)

theorem mem_of_mem_strip {u : Classes} {line : Line} {c : Char} (mem : c ∈ strip u line) : c ∈ line :=
  (List.dropWhile_suffix u.space).mem ((List.rdropWhile_prefix u.space _).mem mem)

@[simp] theorem strip_dropWhile (u : Classes) (line : Line) : strip u (line.dropWhile u.space) = strip u line := by
  rw [strip, strip, List.dropWhile_idempotent]

def plain (c : Char) : Bool := 32 ≤ c.toNat && c.toNat < 128

theorem plain_iff {c : Char} : plain c = true ↔ 32 ≤ c.toNat ∧ c.toNat < 128 := by
  rw [plain, Bool.and_eq_true, decide_eq_true_eq, decide_eq_true_eq]

theorem not_boundary_of_plain {c : Char} (printed : plain c = true) : boundary c = false := by
  obtain ⟨low, high⟩ := plain_iff.mp printed
  refine decide_eq_false fun mem => ?_
  simp only [List.mem_cons, List.not_mem_nil, or_false] at mem
  omega

theorem space_of_plain (u : Classes) {c : Char} (printed : plain c = true) (glyph : c ≠ ' ') : u.space c = false := by
  obtain ⟨low, high⟩ := plain_iff.mp printed
  have other : c.toNat ≠ 32 := fun same => glyph (Char.ext (UInt32.toNat_inj.mp same))
  refine Bool.eq_false_iff.mpr fun blank => ?_
  have mem := (u.space_ascii c high).mp blank
  simp only [List.mem_cons, List.not_mem_nil, or_false] at mem
  omega

theorem digit_blank (u : Classes) : u.digit ' ' = none := u.digit_ascii ' ' (by decide)

def decimal (n : Nat) : Line := Nat.toDigits 10 n

def number (u : Classes) (digits : Line) : Nat := digits.foldl (fun n c => 10 * n + (u.digit c).getD 0) 0

theorem ascii_of_isDigit {c : Char} (digit : c.isDigit = true) : c.toNat < 128 := by
  rw [Char.isDigit, Bool.and_eq_true, decide_eq_true_eq, decide_eq_true_eq] at digit
  have upper : c.toNat ≤ 57 := digit.2
  omega

theorem isDigit_of_mem_decimal {n : Nat} {c : Char} (mem : c ∈ decimal n) : c.isDigit = true :=
  Nat.isDigit_of_mem_toDigits (by decide) (by decide) mem

theorem plain_of_isDigit {c : Char} (digit : c.isDigit = true) : plain c = true := by
  refine plain_iff.mpr ⟨?_, ascii_of_isDigit digit⟩
  rw [Char.isDigit, Bool.and_eq_true, decide_eq_true_eq, decide_eq_true_eq] at digit
  have lower : 48 ≤ c.toNat := digit.1
  omega

theorem decimal_ne_nil (n : Nat) : decimal n ≠ [] := Nat.toDigits_ne_nil

theorem digit_of_isDigit {u : Classes} {c : Char} (digit : c.isDigit = true) : u.digit c = some (c.toNat - 48) := by
  rw [u.digit_ascii c (ascii_of_isDigit digit), if_pos digit]

theorem number_decimal (u : Classes) (n : Nat) : number u (decimal n) = n := by
  have same (digits : Line) (all : ∀ c ∈ digits, c.isDigit = true) (start : Nat) :
      digits.foldl (fun n c => 10 * n + (u.digit c).getD 0) start = Nat.ofDigitChars 10 digits start := by
    induction digits generalizing start with
    | nil => rfl
    | cons c digits ih =>
      rw [List.foldl_cons, digit_of_isDigit (all c List.mem_cons_self),
        ih fun c mem => all c (List.mem_cons_of_mem _ mem)]
      rfl
  rw [number, same _ fun c mem => isDigit_of_mem_decimal mem]
  exact Nat.ofDigitChars_toDigits (by decide) (by decide)

structure WordClasses extends Classes where
  word : Char → Bool
  word_ascii : ∀ c : Char, c.toNat < 128 → word c = (c.isAlphanum || c = '_')

def asciiWordClasses : WordClasses where
  toClasses := asciiClasses
  word c := c.isAlphanum || c = '_'
  word_ascii _ _ := rfl

def words (u : Classes) (line : Line) : List Line := (line.splitOnP u.space).filter (· ≠ [])

def hexDigit (c : Char) : Option Nat :=
  if c.isDigit then some (c.toNat - 48)
  else if 'a' ≤ c ∧ c ≤ 'f' then some (c.toNat - 87)
  else if 'A' ≤ c ∧ c ≤ 'F' then some (c.toNat - 55)
  else none

def isHexDigit (c : Char) : Bool := (hexDigit c).isSome

def hexNumber (digits : Line) : Nat := digits.foldl (fun n c => 16 * n + (hexDigit c).getD 0) 0

def hexadecimal (n : Int) : Line :=
  if n < 0 then '-' :: Nat.toDigits 16 n.natAbs else Nat.toDigits 16 n.natAbs

end Text

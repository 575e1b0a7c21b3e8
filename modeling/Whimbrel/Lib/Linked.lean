import Mathlib.Data.List.Nodup
import Mathlib.Logic.Function.Basic

/-! Lists linked through a successor function.

A path visits the elements of a list, each found by following the one before it.
A chain is a path that first meets its end marker at the end; it determines its
list, which therefore has no repetition. -/

set_option autoImplicit false

namespace Linked

variable {A : Type}

/-- From `a` the successors are the elements of the list, and then `b`. -/
def Path (next : A → A) : A → List A → A → Prop
  | a, [], b => a = b
  | a, c :: l, b => a = c ∧ Path next (next c) l b

/-- A path to the marker `stop` that does not meet it before. -/
def Chain (next : A → A) (stop a : A) (l : List A) : Prop := Path next a l stop ∧ stop ∉ l

def entry (stop : A) (l : List A) : A := l.head?.getD stop

/-- The element before what follows a list that is entered from `a`. -/
def lastOf (a : A) : List A → A
  | [] => a
  | b :: l => lastOf b l

section
variable {next other : A → A} {stop a b c : A} {l m : List A}

theorem Path.append_iff : Path next a (l ++ m) c ↔ ∃ b, Path next a l b ∧ Path next b m c := by
  induction l generalizing a with
  | nil => simp [Path]
  | cons d l ih => simp [Path, ih, and_assoc]

/-- A path depends on the successors of its own elements only. -/
theorem Path.congr (path : Path next a l b) (same : ∀ c ∈ l, other c = next c) : Path other a l b := by
  induction l generalizing a with
  | nil => exact path
  | cons c l ih =>
    obtain ⟨rfl, rest⟩ := path
    rw [← same a List.mem_cons_self] at rest
    exact ⟨rfl, ih rest fun c mem => same c (List.mem_cons_of_mem _ mem)⟩

theorem Chain.nil : Chain next stop stop [] := ⟨rfl, List.not_mem_nil⟩

theorem Chain.cons_iff : Chain next stop a (b :: l) ↔ a = b ∧ b ≠ stop ∧ Chain next stop (next b) l := by
  rw [Chain, Chain, Path, List.mem_cons, not_or]
  exact ⟨fun ⟨⟨same, rest⟩, ne, absent⟩ => ⟨same, fun e => ne e.symm, rest, absent⟩,
    fun ⟨same, ne, rest, absent⟩ => ⟨⟨same, rest⟩, fun e => ne e.symm, absent⟩⟩

@[simp] theorem entry_cons : entry stop (a :: l) = a := rfl

@[simp] theorem lastOf_snoc : lastOf a (l ++ [b]) = b := by
  induction l generalizing a with
  | nil => rfl
  | cons c l ih => exact ih

theorem Chain.eq_entry (chain : Chain next stop a l) : a = entry stop l := by
  cases l with
  | nil => exact chain.1
  | cons b l => exact chain.1.1

theorem Chain.congr (chain : Chain next stop a l) (same : ∀ c ∈ l, other c = next c) : Chain other stop a l :=
  ⟨chain.1.congr same, chain.2⟩

theorem Chain.eq_nil_iff (chain : Chain next stop a l) : l = [] ↔ a = stop := by
  cases l with
  | nil => exact ⟨fun _ => chain.1, fun _ => rfl⟩
  | cons b l =>
    obtain ⟨rfl, ne, -⟩ := cons_iff.mp chain
    exact ⟨fun empty => (List.cons_ne_nil _ _ empty).elim, fun e => (ne e).elim⟩

theorem Chain.drop (chain : Chain next stop a (l ++ m)) : Chain next stop (entry stop m) m := by
  induction l generalizing a with
  | nil =>
    rw [List.nil_append] at chain
    rw [← chain.eq_entry]
    exact chain
  | cons b l ih => exact ih (cons_iff.mp chain).2.2

/-- The part of a chain after some of its elements, replaced by one that is entered at the same place. -/
theorem Chain.replace (chain : Chain next stop a (l ++ m)) {m' : List A} (same : ∀ c ∈ l, other c = next c)
    (rest : Chain other stop (entry stop m) m') : Chain other stop a (l ++ m') := by
  induction l generalizing a with
  | nil =>
    rw [List.nil_append] at chain
    rw [← chain.eq_entry] at rest
    exact rest
  | cons c l ih =>
    obtain ⟨rfl, ne, tail⟩ := cons_iff.mp chain
    refine cons_iff.mpr ⟨rfl, ne, ?_⟩
    rw [same a List.mem_cons_self]
    exact ih tail fun c mem => same c (List.mem_cons_of_mem a mem)

/-- The same where the last element before it gets a new successor. -/
theorem Chain.splice (chain : Chain next stop a (l ++ [b] ++ m)) {m' : List A} (same : ∀ c ∈ l, other c = next c)
    (rest : Chain other stop (other b) m') : Chain other stop a (l ++ [b] ++ m') := by
  rw [List.append_assoc, List.singleton_append] at chain ⊢
  have ne : b ≠ stop := (cons_iff.mp chain.drop).2.1
  exact chain.replace same (cons_iff.mpr ⟨rfl, ne, rest⟩)

theorem Chain.from_mem (chain : Chain next stop a l) (mem : b ∈ l) :
    ∃ before after, l = before ++ b :: after ∧ Chain next stop b (b :: after) := by
  obtain ⟨before, after, rfl⟩ := List.append_of_mem mem
  obtain ⟨d, -, rest⟩ := Path.append_iff.mp chain.1
  obtain rfl := rest.1
  exact ⟨before, after, rfl, rest, fun there => chain.2 (List.mem_append_right _ there)⟩

theorem Chain.unique (left : Chain next stop a l) (right : Chain next stop a m) : l = m := by
  induction l generalizing a m with
  | nil => exact (right.eq_nil_iff.mpr left.1).symm
  | cons b l ih =>
    obtain ⟨rfl, ne, rest⟩ := cons_iff.mp left
    cases m with
    | nil => exact (ne right.1).elim
    | cons c m =>
      obtain ⟨rfl, -, rest'⟩ := cons_iff.mp right
      rw [ih rest rest']

theorem Chain.nodup (chain : Chain next stop a l) : l.Nodup := by
  induction l generalizing a with
  | nil => exact .nil
  | cons b l ih =>
    obtain ⟨rfl, -, rest⟩ := cons_iff.mp chain
    refine List.nodup_cons.mpr ⟨fun again => ?_, ih rest⟩
    -- the second visit would be followed by the same list as the first
    obtain ⟨before, after, rfl, tail⟩ := rest.from_mem again
    have same := congrArg List.length (chain.unique tail)
    simp only [List.length_cons, List.length_append] at same
    omega

end

end Linked

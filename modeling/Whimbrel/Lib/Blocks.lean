import Mathlib.Data.List.Pairwise
import Mathlib.Data.List.Perm.Basic

/-! Blocks of addresses.

A list of blocks is compared with a range by counting, at every address, the
blocks that hold it: the list tiles the range if the count is one inside and
zero outside. A separated list is sorted, with a gap between any two blocks. -/

set_option autoImplicit false

namespace Blocks

/-- The addresses from `start` on, `size` of them. -/
structure Block where
  start : Nat
  size : Nat
  deriving DecidableEq, Repr

def Block.stop (b : Block) : Nat := b.start + b.size

def Block.Has (b : Block) (x : Nat) : Prop := b.start ≤ x ∧ x < b.stop

instance (b : Block) (x : Nat) : Decidable (b.Has x) := inferInstanceAs (Decidable (_ ∧ _))

/-- How many of the blocks hold the address. -/
def cover (x : Nat) (l : List Block) : Nat := l.countP fun b => decide (b.Has x)

/-- The blocks make up `[lo, hi)`, with no gap and no overlap. -/
def Tiles (lo hi : Nat) (l : List Block) : Prop := ∀ x, cover x l = if lo ≤ x ∧ x < hi then 1 else 0

/-- Sorted by address, and no two blocks touch. -/
def Separated (l : List Block) : Prop := l.Pairwise fun b c => b.stop < c.start

def Block.Apart (b c : Block) : Prop := b.stop ≤ c.start ∨ c.stop ≤ b.start

instance (b c : Block) : Decidable (b.Apart c) := inferInstanceAs (Decidable (_ ∨ _))

theorem Block.Apart.symm {b c : Block} (apart : b.Apart c) : c.Apart b := apart.elim .inr .inl

section
variable {x lo hi : Nat} {b c : Block} {l m : List Block}

@[simp] theorem cover_nil : cover x [] = 0 := rfl

@[simp] theorem cover_cons : cover x (b :: l) = (if b.Has x then 1 else 0) + cover x l := by
  rw [cover, List.countP_cons, Nat.add_comm]
  simp [cover]

@[simp] theorem cover_append : cover x (l ++ m) = cover x l + cover x m := List.countP_append

theorem cover_perm (same : l.Perm m) : cover x l = cover x m := same.countP_eq _

theorem cover_eq_zero_iff : cover x l = 0 ↔ ∀ b ∈ l, ¬ b.Has x := by simp [cover]

theorem cover_pos_iff : 0 < cover x l ↔ ∃ b ∈ l, b.Has x := by
  rw [Nat.pos_iff_ne_zero, Ne, cover_eq_zero_iff]
  simp

theorem Tiles.perm (tiles : Tiles lo hi l) (same : l.Perm m) : Tiles lo hi m := fun x => cover_perm same ▸ tiles x

theorem Tiles.once (tiles : Tiles lo hi (l ++ m)) (here : 0 < cover x l) : cover x m = 0 := by
  have counted := tiles x
  rw [cover_append] at counted
  split at counted <;> omega

theorem cover_join (touch : b.stop = c.start) : cover x [⟨b.start, b.size + c.size⟩] = cover x [b, c] := by
  simp only [cover_cons, cover_nil, Block.Has, Block.stop] at *
  grind

theorem Tiles.within (tiles : Tiles lo hi l) (mem : b ∈ l) (pos : 0 < b.size) : lo ≤ b.start ∧ b.stop ≤ hi := by
  have inside {y : Nat} (has : b.Has y) : lo ≤ y ∧ y < hi := by
    have counted : 0 < cover y l := cover_pos_iff.mpr ⟨b, mem, has⟩
    rw [tiles y] at counted
    by_contra outside
    rw [if_neg outside] at counted
    exact Nat.lt_irrefl 0 counted
  have first : lo ≤ b.start := (inside ⟨Nat.le_refl _, Nat.lt_add_of_pos_right pos⟩).1
  have last : b.start + b.size - 1 < hi := (inside ⟨by omega, by rw [Block.stop]; omega⟩).2
  rw [Block.stop]
  omega

theorem Tiles.apart (tiles : Tiles lo hi (b :: l)) (pos : 0 < b.size) (mem : c ∈ l) (pos' : 0 < c.size) : b.Apart c := by
  have single {y : Nat} (here : b.Has y) : ¬ c.Has y := by
    intro there
    have counted := tiles y
    have other : 0 < cover y l := cover_pos_iff.mpr ⟨c, mem, there⟩
    rw [cover_cons, if_pos here] at counted
    split at counted <;> omega
  have left : ¬ c.Has b.start := single ⟨Nat.le_refl _, Nat.lt_add_of_pos_right pos⟩
  have right : ¬ b.Has c.start := fun here => single here ⟨Nat.le_refl _, Nat.lt_add_of_pos_right pos'⟩
  rw [Block.Has] at left right
  rw [Block.Apart]
  omega

end

/-! ## Separated lists -/

section
variable {b c : Block} {l before after : List Block}

theorem separated_append : Separated (before ++ after) ↔
    Separated before ∧ Separated after ∧ ∀ b ∈ before, ∀ c ∈ after, b.stop < c.start := List.pairwise_append

theorem Separated.eq_or (separated : Separated l) (mem : b ∈ l) (mem' : c ∈ l) :
    b = c ∨ b.stop < c.start ∨ c.stop < b.start := by
  induction l with
  | nil => cases mem
  | cons d l ih =>
    obtain ⟨first, rest⟩ := List.pairwise_cons.mp separated
    rcases List.mem_cons.mp mem with rfl | later
    · rcases List.mem_cons.mp mem' with rfl | later'
      · exact .inl rfl
      · exact .inr (.inl (first c later'))
    · rcases List.mem_cons.mp mem' with rfl | later'
      · exact .inr (.inr (first b later))
      · exact ih rest later later'

/-- If every address of a block is held by a separated list, one block of the list holds them all. -/
theorem Separated.holds_whole (separated : Separated l) (pos : 0 < b.size) (held : ∀ x, b.Has x → 0 < cover x l) :
    ∃ c ∈ l, c.start ≤ b.start ∧ b.stop ≤ c.stop := by
  obtain ⟨c, mem, lower, upper⟩ := cover_pos_iff.mp (held b.start ⟨Nat.le_refl _, Nat.lt_add_of_pos_right pos⟩)
  refine ⟨c, mem, lower, Nat.le_of_not_lt fun short => ?_⟩
  -- the address after `c` would be held by another block, which touches `c`
  obtain ⟨d, mem', lower', upper'⟩ := cover_pos_iff.mp (held c.stop ⟨Nat.le_of_lt upper, short⟩)
  rcases separated.eq_or mem mem' with rfl | gap | gap
  · omega
  · omega
  · simp only [Block.stop] at *
    omega

/-- A block apart from a separated list has the blocks of the list on its two sides. -/
theorem Separated.split (separated : Separated l) (apart : ∀ c ∈ l, c.Apart b) (positive : ∀ c ∈ l, 0 < c.size) :
    ∃ before after, l = before ++ after ∧ (∀ c ∈ before, c.stop ≤ b.start) ∧ ∀ c ∈ after, b.stop ≤ c.start := by
  induction l with
  | nil => exact ⟨[], [], rfl, fun _ mem => (nomatch mem), fun _ mem => nomatch mem⟩
  | cons c l ih =>
    obtain ⟨first, rest⟩ := List.pairwise_cons.mp separated
    obtain ⟨here, apartRest⟩ := List.forall_mem_cons.mp apart
    obtain ⟨pos, posRest⟩ := List.forall_mem_cons.mp positive
    rcases here with left | right
    · obtain ⟨before, after, rfl, lower, upper⟩ := ih rest apartRest posRest
      exact ⟨c :: before, after, rfl, List.forall_mem_cons.mpr ⟨left, lower⟩, upper⟩
    · refine ⟨[], c :: l, rfl, fun _ mem => (nomatch mem), List.forall_mem_cons.mpr ⟨right, fun d mem => ?_⟩⟩
      have gap := first d mem
      simp only [Block.stop] at *
      omega

/-- A separated list that tiles a range is the range as one block. -/
theorem Separated.eq_singleton {lo hi : Nat} (separated : Separated l) (tiles : Tiles lo hi l) (positive : ∀ b ∈ l, 0 < b.size)
    (range : lo < hi) : l = [⟨lo, hi - lo⟩] := by
  have held : ∀ x, (⟨lo, hi - lo⟩ : Block).Has x → 0 < cover x l := by
    rintro x ⟨lower, upper⟩
    change x < lo + (hi - lo) at upper
    rw [tiles x, if_pos ⟨lower, by omega⟩]
    decide
  obtain ⟨c, mem, lower, upper⟩ := separated.holds_whole (Nat.sub_pos_of_lt range) held
  have inside := tiles.within mem (positive c mem)
  -- `c` fills the range, and another block would have to lie beside it.
  have only : ∀ d ∈ l, d = c := by
    intro d mem'
    have inside' := tiles.within mem' (positive d mem')
    have pos := positive d mem'
    rcases separated.eq_or mem mem' with rfl | gap | gap
    · rfl
    · simp only [Block.stop] at *
      omega
    · simp only [Block.stop] at *
      omega
  have same : c = ⟨lo, hi - lo⟩ := by
    obtain ⟨start, size⟩ := c
    simp only [Block.stop, Block.mk.injEq] at *
    omega
  subst same
  cases l with
  | nil => cases mem
  | cons d l =>
    obtain rfl := only d List.mem_cons_self
    cases l with
    | nil => rfl
    | cons e l =>
      obtain rfl := only e (List.mem_cons_of_mem _ List.mem_cons_self)
      have gap := (List.pairwise_cons.mp separated).1 _ List.mem_cons_self
      simp only [Block.stop] at gap
      omega

theorem Separated.length_le {lo hi n : Nat} (separated : Separated l) (large : ∀ b ∈ l, n ≤ b.size)
    (inside : ∀ b ∈ l, lo ≤ b.start ∧ b.stop ≤ hi) : n * l.length ≤ hi - lo := by
  induction l generalizing lo with
  | nil => exact Nat.zero_le _
  | cons b l ih =>
    obtain ⟨first, rest⟩ := List.pairwise_cons.mp separated
    have size := large b List.mem_cons_self
    have range := inside b List.mem_cons_self
    have left := ih rest (fun c mem => large c (List.mem_cons_of_mem b mem))
      (fun c mem => ⟨Nat.le_of_lt (first c mem), (inside c (List.mem_cons_of_mem b mem)).2⟩)
    rw [List.length_cons, Nat.mul_succ]
    rw [Block.stop] at left range
    omega

end

/-! ## Insertion -/

/-- A block before a list, joined with the first block if the two touch. -/
def joinNext (b : Block) : List Block → List Block
  | [] => [b]
  | c :: l => if b.stop = c.start then ⟨b.start, b.size + c.size⟩ :: l else b :: c :: l

/-- Insertion by address that joins the block with its neighbours. -/
def coalesce (b : Block) : List Block → List Block
  | [] => [b]
  | c :: l =>
    if c.start < b.start then
      if c.stop = b.start then joinNext ⟨c.start, c.size + b.size⟩ l else c :: coalesce b l
    else joinNext b (c :: l)

section
variable {x : Nat} {b c d : Block} {l before after : List Block}

theorem cover_joinNext : cover x (joinNext b l) = cover x (b :: l) := by
  cases l with
  | nil => rfl
  | cons c l =>
    rw [joinNext]
    split
    · rename_i touch
      have join := @cover_join x b c touch
      simp only [cover_cons, cover_nil] at join ⊢
      omega
    · rfl

theorem cover_coalesce : cover x (coalesce b l) = cover x (b :: l) := by
  induction l with
  | nil => rfl
  | cons c l ih =>
    rw [coalesce]
    split
    · split
      · rename_i touch
        have join := @cover_join x c b touch
        rw [cover_joinNext]
        simp only [cover_cons, cover_nil] at join ⊢
        omega
      · simp only [cover_cons] at ih ⊢
        omega
    · exact cover_joinNext

theorem forall_joinNext {P : Block → Prop} (join : ∀ c d, P c → P d → c.stop = d.start → P ⟨c.start, c.size + d.size⟩)
    (first : P b) (rest : ∀ c ∈ l, P c) : ∀ c ∈ joinNext b l, P c := by
  cases l with
  | nil => simpa [joinNext] using first
  | cons c l =>
    rw [List.forall_mem_cons] at rest
    rw [joinNext]
    split
    · rename_i touch
      exact List.forall_mem_cons.mpr ⟨join b c first rest.1 touch, rest.2⟩
    · exact List.forall_mem_cons.mpr ⟨first, List.forall_mem_cons.mpr rest⟩

theorem forall_coalesce {P : Block → Prop} (join : ∀ c d, P c → P d → c.stop = d.start → P ⟨c.start, c.size + d.size⟩)
    (new : P b) (rest : ∀ c ∈ l, P c) : ∀ c ∈ coalesce b l, P c := by
  induction l with
  | nil => simpa [coalesce] using new
  | cons c l ih =>
    obtain ⟨first, later⟩ := List.forall_mem_cons.mp rest
    rw [coalesce]
    split
    · split
      · rename_i touch
        exact forall_joinNext join (join c b first new touch) later
      · exact List.forall_mem_cons.mpr ⟨first, ih later⟩
    · exact forall_joinNext join new rest

theorem separated_joinNext (separated : Separated l) (next : ∀ c ∈ l, b.stop ≤ c.start) (positive : ∀ c ∈ l, 0 < c.size) :
    Separated (joinNext b l) := by
  cases l with
  | nil => exact List.pairwise_singleton _ _
  | cons c l =>
    obtain ⟨first, rest⟩ := List.pairwise_cons.mp separated
    rw [joinNext]
    split
    · rename_i touch
      refine .cons (fun d mem => ?_) rest
      have gap := first d mem
      simp only [Block.stop] at *
      omega
    · rename_i gap
      refine .cons (List.forall_mem_cons.mpr ⟨?_, fun d mem => ?_⟩) separated
      · have lower := next c List.mem_cons_self
        omega
      · have lower := next c List.mem_cons_self
        have size := positive c List.mem_cons_self
        have later := first d mem
        simp only [Block.stop] at *
        omega

theorem separated_coalesce (separated : Separated l) (apart : ∀ c ∈ l, c.Apart b) (positive : ∀ c ∈ l, 0 < c.size)
    (pos : 0 < b.size) : Separated (coalesce b l) := by
  induction l with
  | nil => exact List.pairwise_singleton _ _
  | cons c l ih =>
    obtain ⟨first, rest⟩ := List.pairwise_cons.mp separated
    obtain ⟨apart₁, apartRest⟩ := List.forall_mem_cons.mp apart
    obtain ⟨pos₁, posRest⟩ := List.forall_mem_cons.mp positive
    rw [coalesce]
    split
    · rename_i below
      split
      · rename_i touch
        -- The join of `c` and `b` ends where `b` ends, before the rest.
        refine separated_joinNext rest (fun d mem => ?_) posRest
        have gap := first d mem
        have other := apartRest d mem
        have size := posRest d mem
        simp only [Block.Apart, Block.stop] at *
        omega
      · rename_i gap
        refine .cons ?_ (ih rest apartRest posRest)
        have new : c.stop < b.start := by
          simp only [Block.Apart, Block.stop] at *
          omega
        exact forall_coalesce (fun d e left _ _ => left) new first
    · rename_i above
      -- Everything in the list is above `b`.
      refine separated_joinNext separated (fun d mem => ?_) positive
      have other := apart d mem
      have size := positive d mem
      have lower : c.start ≤ d.start := by
        rcases List.mem_cons.mp mem with rfl | later
        · exact Nat.le_refl _
        · have gap := first d later
          simp only [Block.stop] at gap
          omega
      simp only [Block.Apart, Block.stop] at *
      omega

theorem coalesce_append (passed : ∀ c ∈ before, c.stop < b.start) : coalesce b (before ++ after) = before ++ coalesce b after := by
  induction before with
  | nil => rfl
  | cons c before ih =>
    obtain ⟨first, rest⟩ := List.forall_mem_cons.mp passed
    have below : c.start < b.start := Nat.lt_of_le_of_lt (Nat.le_add_right _ _) first
    rw [List.cons_append, coalesce, if_pos below, if_neg (Nat.ne_of_lt first), ih rest]
    rfl

theorem coalesce_gap (below : ∀ c ∈ before, c.stop < b.start) (above : ∀ c ∈ after, b.start ≤ c.start) :
    coalesce b (before ++ after) = before ++ joinNext b after := by
  rw [coalesce_append below]
  cases after with
  | nil => rfl
  | cons c after => rw [coalesce, if_neg (Nat.not_lt.mpr (above c List.mem_cons_self))]

theorem coalesce_touch (below : ∀ c ∈ before, c.stop < b.start) (first : c.start < b.start) (touch : c.stop = b.start) :
    coalesce b (before ++ c :: after) = before ++ joinNext ⟨c.start, c.size + b.size⟩ after := by
  rw [coalesce_append below, coalesce, if_pos first, if_pos touch]

/-- What a block that ends at `stop` takes in of the list behind it, and what is left. -/
def absorb (stop : Nat) : List Block → Nat × List Block
  | [] => (0, [])
  | c :: l => if stop = c.start then (c.size, l) else (0, c :: l)

theorem joinNext_eq : joinNext b l = ⟨b.start, b.size + (absorb b.stop l).1⟩ :: (absorb b.stop l).2 := by
  cases l with
  | nil => rfl
  | cons c l =>
    rw [joinNext, absorb]
    split
    · rfl
    · rfl

theorem absorb_suffix {stop : Nat} : (absorb stop l).2 <:+ l := by
  cases l with
  | nil => exact List.suffix_refl []
  | cons c l =>
    rw [absorb]
    split
    · exact List.suffix_cons c l
    · exact List.suffix_refl _

end

end Blocks

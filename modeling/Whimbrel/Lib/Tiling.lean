import Mathlib.Algebra.BigOperators.Group.List.Basic
import Mathlib.Algebra.GroupWithZero.Nat
import Mathlib.Data.List.Perm.Subperm
import Whimbrel.Lib.Blocks

/-! Counting the blocks of a tiling.

The sizes of a tiling add up to its range. If some of its blocks are separated, each
of them is followed by one of the others, so they are not many more than those, and
one of few blocks that hold much is large. -/

set_option autoImplicit false

namespace Blocks

section
variable {lo hi : Nat} {b : Block} {l m : List Block}

theorem sum_has (b : Block) (n : Nat) :
    ((List.range n).map fun x => if b.Has x then 1 else 0).sum = min b.stop n - min b.start n := by
  induction n with
  | zero => simp
  | succ n ih =>
    rw [List.range_succ, List.map_append, List.sum_append, ih, List.map_singleton, List.sum_singleton]
    by_cases has : b.Has n
    · rw [if_pos has]
      rw [Block.Has] at has
      omega
    · rw [if_neg has]
      rw [Block.Has] at has
      rw [Block.stop] at *
      omega

theorem sum_cover {n : Nat} (below : ∀ b ∈ l, b.stop ≤ n) :
    ((List.range n).map fun x => cover x l).sum = (l.map Block.size).sum := by
  induction l with
  | nil => simp
  | cons b l ih =>
    have first := below b List.mem_cons_self
    have size : min b.stop n - min b.start n = b.size := by
      rw [Block.stop] at *
      omega
    simp only [cover_cons, List.sum_map_add, List.map_cons, List.sum_cons]
    rw [sum_has, size, ih fun c mem => below c (List.mem_cons_of_mem b mem)]

theorem Tiles.sum_size (tiles : Tiles lo hi l) (positive : ∀ b ∈ l, 0 < b.size) (range : lo ≤ hi) :
    (l.map Block.size).sum = hi - lo := by
  have whole : Block.stop ⟨lo, hi - lo⟩ = hi := Nat.add_sub_cancel' range
  have same (x : Nat) : cover x l = if Block.Has ⟨lo, hi - lo⟩ x then 1 else 0 := by
    rw [tiles x]
    refine if_congr ?_ rfl rfl
    rw [Block.Has, whole]
  rw [← sum_cover fun b mem => (tiles.within mem (positive b mem)).2]
  simp only [same]
  rw [sum_has, whole, Nat.min_self, Nat.min_eq_left range]

theorem Separated.nodup_stop (separated : Separated l) (positive : ∀ b ∈ l, 0 < b.size) : (l.map Block.stop).Nodup := by
  rw [List.Nodup, List.pairwise_map]
  refine separated.imp_of_mem fun {b c} _ mem gap same => ?_
  have size := positive c mem
  rw [Block.stop, Block.stop] at same
  rw [Block.stop] at gap
  omega

theorem Tiles.next (tiles : Tiles lo hi (l ++ m)) (separated : Separated l) (positive : ∀ b ∈ l ++ m, 0 < b.size) (mem : b ∈ l) :
    b.stop ∈ hi :: m.map Block.start := by
  have size := positive b (List.mem_append_left m mem)
  obtain ⟨low, high⟩ := tiles.within (List.mem_append_left m mem) size
  rcases Nat.eq_or_lt_of_le high with last | inside
  · exact last ▸ List.mem_cons_self
  -- the address after the block is covered, and not by a separated one
  have covered : 0 < cover b.stop (l ++ m) := by
    rw [tiles b.stop, if_pos ⟨by rw [Block.stop]; omega, inside⟩]
    exact Nat.one_pos
  obtain ⟨c, there, has⟩ := cover_pos_iff.mp covered
  have other : c ∈ m := by
    refine (List.mem_append.mp there).resolve_left fun same => ?_
    have size' := positive c there
    rcases separated.eq_or mem same with rfl | gap | gap <;>
    · simp only [Block.Has, Block.stop] at *
      omega
  have apart : b.Apart c := by
    obtain ⟨before, after, rfl⟩ := List.append_of_mem mem
    have front : Tiles lo hi (b :: (before ++ after ++ m)) := by
      refine tiles.perm ?_
      rw [List.append_assoc, List.append_assoc]
      exact List.perm_middle
    exact front.apart size (List.mem_append_right _ other) (positive c there)
  refine List.mem_cons_of_mem hi (List.mem_map.mpr ⟨c, other, ?_⟩)
  simp only [Block.Apart, Block.Has, Block.stop] at *
  omega

/-- The separated blocks of a tiling are at most one more than the others. -/
theorem Tiles.length_le (tiles : Tiles lo hi (l ++ m)) (separated : Separated l) (positive : ∀ b ∈ l ++ m, 0 < b.size) :
    l.length ≤ m.length + 1 := by
  have distinct := separated.nodup_stop fun b mem => positive b (List.mem_append_left m mem)
  have ends : l.map Block.stop ⊆ hi :: m.map Block.start := by
    intro x mem
    obtain ⟨b, there, rfl⟩ := List.mem_map.mp mem
    exact tiles.next separated positive there
  have counted := (distinct.subperm ends).length_le
  rwa [List.length_map, List.length_cons, List.length_map] at counted

theorem sum_size_le {n : Nat} (small : ∀ b ∈ l, b.size ≤ n) : (l.map Block.size).sum ≤ l.length * n := by
  induction l with
  | nil => exact Nat.zero_le _
  | cons b l ih =>
    have first := small b List.mem_cons_self
    have rest := ih fun c mem => small c (List.mem_cons_of_mem b mem)
    rw [List.map_cons, List.sum_cons, List.length_cons, Nat.succ_mul]
    omega

/-- Among few blocks of many addresses in all, one is large. -/
theorem exists_large {n k : Nat} (few : l.length ≤ k) (many : k * n < (l.map Block.size).sum) : ∃ b ∈ l, n < b.size := by
  by_contra none
  have small : ∀ b ∈ l, b.size ≤ n := fun b mem => Nat.not_lt.mp fun large => none ⟨b, mem, large⟩
  have less : l.length * n ≤ k * n := Nat.mul_le_mul_right n few
  have bound := sum_size_le small
  omega

end

end Blocks

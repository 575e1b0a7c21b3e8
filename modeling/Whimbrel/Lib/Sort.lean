import Mathlib.Data.List.Induction
import Mathlib.Order.Lattice

/-! Insertion sort in place: each element sinks by swaps with its left neighbour.

Elements are compared by a key. Those with equal keys keep the order they had. -/

set_option autoImplicit false

namespace InsertionSort

variable {α κ : Type} [LinearOrder κ] (key : α → κ)

/-- Swap the element at `j` down while its left neighbour has a larger key. -/
def sink : List α → Nat → List α
  | l, 0 => l
  | l, j + 1 =>
    match l[j + 1]?, l[j]? with
    | some x, some y => if key x < key y then sink ((l.set (j + 1) y).set j x) j else l
    | _, _ => l

def sort (l : List α) : List α := (List.range' 1 (l.length - 1)).foldl (sink key) l

/-- By key, and among equal keys by `older`. -/
def Before (older : α → α → Prop) (a b : α) : Prop := key a < key b ∨ key a = key b ∧ older a b

variable {key} {older : α → α → Prop}

theorem Before.le {a b : α} (before : Before key older a b) : key a ≤ key b :=
  before.elim le_of_lt fun same => le_of_eq same.1

/-- The element after `front` stops behind the last one that is not larger. -/
theorem sink_splits (front : List α) (x : α) (rest : List α) :
    ∃ low high, front = low ++ high ∧ sink key (front ++ x :: rest) front.length = low ++ x :: high ++ rest ∧
      (∀ y ∈ high, key x < key y) ∧ ∀ y ∈ low.getLast?, key y ≤ key x := by
  induction front using List.reverseRecOn generalizing rest with
  | nil => exact ⟨[], [], rfl, by simp [sink], by simp, by simp⟩
  | append_singleton front y ih =>
    have right : (front ++ [y] ++ x :: rest)[front.length + 1]? = some x := by simp
    have left : (front ++ [y] ++ x :: rest)[front.length]? = some y := by simp
    have swapped : ((front ++ [y] ++ x :: rest).set (front.length + 1) y).set front.length x =
        front ++ x :: (y :: rest) := by simp
    rw [List.length_append, List.length_singleton, sink, right, left]
    dsimp only
    rw [swapped]
    -- After a swap the element stands behind a front that is shorter by one.
    by_cases smaller : key x < key y
    · obtain ⟨low, high, split, sunk, above, last⟩ := ih (y :: rest)
      refine ⟨low, high ++ [y], by rw [split, List.append_assoc], ?_, ?_, last⟩
      · rw [if_pos smaller, sunk]
        simp
      · intro z mem
        rcases List.mem_append.mp mem with inner | final
        · exact above z inner
        · rw [List.mem_singleton.mp final]
          exact smaller
    · refine ⟨front ++ [y], [], by simp, by rw [if_neg smaller]; simp, by simp, fun z mem => ?_⟩
      rw [List.getLast?_concat] at mem
      cases mem
      exact le_of_not_gt smaller

theorem sink_sorted {front : List α} {x : α} (sorted : front.Pairwise (Before key older))
    (first : ∀ y ∈ front, older y x) (rest : List α) :
    ∃ front', sink key (front ++ x :: rest) front.length = front' ++ rest ∧
      front'.Pairwise (Before key older) ∧ front'.Perm (front ++ [x]) := by
  obtain ⟨low, high, split, sunk, above, last⟩ := @sink_splits _ _ _ key front x rest
  rw [split] at sorted first
  obtain ⟨lows, highs, across⟩ := List.pairwise_append.mp sorted
  have below : ∀ y ∈ low, key y ≤ key x := by
    intro y mem
    obtain ⟨init, z, shape⟩ := (List.eq_nil_or_concat low).resolve_left (List.ne_nil_of_mem mem)
    rw [shape, List.concat_eq_append] at lows mem last
    have bound : key z ≤ key x := last z (by simp)
    rcases List.mem_append.mp mem with inner | final
    · exact le_trans ((List.pairwise_append.mp lows).2.2 y inner z (by simp)).le bound
    · rw [List.mem_singleton.mp final]
      exact bound
  refine ⟨low ++ x :: high, sunk, ?_, ?_⟩
  · refine List.pairwise_append.mpr ⟨lows, List.pairwise_cons.mpr ⟨fun y mem => .inl (above y mem), highs⟩, ?_⟩
    intro y inLow z inHigh
    rcases List.mem_cons.mp inHigh with rfl | inHigh
    · -- With equal keys the order of the list decides: `x` came last.
      rcases lt_or_eq_of_le (below y inLow) with smaller | same
      · exact .inl smaller
      · exact .inr ⟨same, first y (List.mem_append_left _ inLow)⟩
    · exact across y inLow z inHigh
  · rw [split]
    exact List.perm_middle.trans (List.perm_append_singleton x (low ++ high)).symm

theorem foldl_sorted {front rest : List α} (sorted : front.Pairwise (Before key older))
    (first : ∀ y ∈ front, ∀ x ∈ rest, older y x) (ordered : rest.Pairwise older) :
    ((List.range' front.length rest.length).foldl (sink key) (front ++ rest)).Pairwise (Before key older) ∧
      ((List.range' front.length rest.length).foldl (sink key) (front ++ rest)).Perm (front ++ rest) := by
  induction rest generalizing front with
  | nil => simpa using sorted
  | cons x rest ih =>
    obtain ⟨front', sunk, sorted', perm⟩ := sink_sorted sorted (fun y mem => first y mem x (by simp)) rest
    obtain ⟨later, ordered⟩ := List.pairwise_cons.mp ordered
    have size : front'.length = front.length + 1 := by rw [perm.length_eq, List.length_append, List.length_singleton]
    have newer : ∀ y ∈ front', ∀ z ∈ rest, older y z := by
      intro y mem z inRest
      rcases List.mem_append.mp (perm.mem_iff.mp mem) with inner | final
      · exact first y inner z (List.mem_cons_of_mem x inRest)
      · rw [List.mem_singleton.mp final]
        exact later z inRest
    rw [List.length_cons, List.range'_succ, List.foldl_cons, sunk, ← size]
    obtain ⟨done, all⟩ := ih sorted' newer ordered
    have moved : (front' ++ rest).Perm (front ++ [x] ++ rest) := perm.append_right rest
    rw [List.append_assoc, List.singleton_append] at moved
    exact ⟨done, all.trans moved⟩

/-- The sort is stable. -/
theorem sort_stable {l : List α} (ordered : l.Pairwise older) :
    (sort key l).Pairwise (Before key older) ∧ (sort key l).Perm l := by
  cases l with
  | nil => exact ⟨.nil, .nil⟩
  | cons x rest =>
    obtain ⟨later, ordered⟩ := List.pairwise_cons.mp ordered
    have single : [x].Pairwise (Before key older) := List.pairwise_singleton _ x
    have first : ∀ y ∈ [x], ∀ z ∈ rest, older y z := fun y mem z inRest => List.mem_singleton.mp mem ▸ later z inRest
    exact foldl_sorted single first ordered

end InsertionSort

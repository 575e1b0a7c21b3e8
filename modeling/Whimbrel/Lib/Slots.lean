import Mathlib.Data.List.FinRange
import Mathlib.Data.List.Perm.Basic
import Mathlib.Logic.Function.Basic

/-! Tables of slots, each empty or with one value.

The values a table holds are compared as multisets: filling an empty slot adds one
value and clearing a slot removes its own. -/

set_option autoImplicit false

namespace Slots

variable {n : Nat} {α : Type} {f : Fin n → Option α} {i : Fin n} {a : α}

def held (f : Fin n → Option α) : List α := (List.finRange n).filterMap f

theorem mem_held : a ∈ held f ↔ ∃ i, f i = some a := by
  simp [held]

theorem held_eq_nil (empty : ∀ i, f i = none) : held f = [] :=
  List.filterMap_eq_nil_iff.mpr fun i _ => empty i

theorem finRange_split (i : Fin n) : ∃ before after, List.finRange n = before ++ i :: after ∧ i ∉ before ∧ i ∉ after := by
  obtain ⟨before, after, split⟩ := List.append_of_mem (List.mem_finRange i)
  have distinct := List.nodup_finRange n
  rw [split] at distinct
  obtain ⟨-, later, apart⟩ := List.nodup_append.mp distinct
  exact ⟨before, after, split, fun mem => apart i mem i List.mem_cons_self rfl, (List.nodup_cons.mp later).1⟩

theorem held_fill (empty : f i = none) : (held (Function.update f i (some a))).Perm (a :: held f) := by
  obtain ⟨before, after, split, first, last⟩ := finRange_split i
  have same (l : List (Fin n)) (absent : i ∉ l) : l.filterMap (Function.update f i (some a)) = l.filterMap f := by
    refine List.filterMap_congr fun j mem => Function.update_of_ne ?_ _ _
    rintro rfl
    exact absent mem
  have filled : (i :: after).filterMap (Function.update f i (some a)) = a :: after.filterMap f := by
    rw [List.filterMap_cons, Function.update_self, same after last]
  have vacant : (i :: after).filterMap f = after.filterMap f := by
    rw [List.filterMap_cons, empty]
  rw [held, held, split, List.filterMap_append, List.filterMap_append, same before first, filled, vacant]
  exact List.perm_middle

theorem held_clear (full : f i = some a) : (held f).Perm (a :: held (Function.update f i none)) := by
  have refill := @held_fill n α (Function.update f i none) i a (Function.update_self ..)
  rwa [Function.update_idem, ← full, Function.update_eq_self] at refill

section
variable {g : Fin n → α} {p : α → Bool} {v : α}

def occupied (p : α → Bool) (g : Fin n → α) : List α := held (Option.guard p ∘ g)

theorem mem_occupied : a ∈ occupied p g ↔ ∃ i, g i = a ∧ p a := by
  rw [occupied, mem_held]
  refine exists_congr fun i => Option.guard_eq_some_iff.trans ⟨?_, ?_⟩
  · rintro ⟨rfl, value⟩
    exact ⟨rfl, value⟩
  · rintro ⟨rfl, value⟩
    exact ⟨rfl, value⟩

theorem occupied_eq_nil (null : ∀ i, p (g i) = false) : occupied p g = [] :=
  held_eq_nil fun i => Option.guard_eq_none_iff.mpr (null i)

theorem occupied_fill (null : p (g i) = false) (value : p v = true) :
    (occupied p (Function.update g i v)).Perm (v :: occupied p g) := by
  rw [occupied, Function.comp_update, Option.guard_eq_some_iff.mpr ⟨rfl, value⟩]
  exact held_fill (Option.guard_eq_none_iff.mpr null)

theorem occupied_clear (value : p (g i) = true) (null : p v = false) :
    (occupied p g).Perm (g i :: occupied p (Function.update g i v)) := by
  rw [occupied, occupied, Function.comp_update, Option.guard_eq_none_iff.mpr null]
  exact held_clear (Option.guard_eq_some_iff.mpr ⟨rfl, value⟩)

end

theorem length_held_le (p : Fin n → Bool) (only : ∀ i, f i ≠ none → p i) : (held f).length ≤ (List.finRange n).countP p := by
  rw [held, List.length_filterMap_eq_countP]
  refine List.countP_mono_left fun i _ some => only i ?_
  exact Option.isSome_iff_ne_none.mp some

end Slots

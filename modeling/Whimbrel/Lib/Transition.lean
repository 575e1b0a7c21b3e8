import Mathlib.Data.List.Induction

/-! Finite runs of a labelled step relation.

A run records its labels in the order in which they happened. Invariants are
proved from one step, safety of a label from the state that label left. -/

set_option autoImplicit false

namespace Transition

variable {S L : Type}

/-- The steps of a run, oldest label first. -/
inductive Run (step : S → L → S → Prop) : S → List L → S → Prop where
  | nil {s : S} : Run step s [] s
  | snoc {s t u : S} {ls : List L} {l : L} :
      Run step s ls t → step t l u → Run step s (ls ++ [l]) u

variable {step : S → L → S → Prop}

theorem Run.single {s t : S} {l : L} (h : step s l t) : Run step s [l] t :=
  .snoc .nil h

theorem Run.append {s t u : S} {ls ms : List L} (first : Run step s ls t) (second : Run step t ms u) :
    Run step s (ls ++ ms) u := by
  induction second with
  | nil => simpa using first
  | snoc _ last ih =>
    rw [← List.append_assoc]
    exact .snoc ih last

theorem Run.cons {s t u : S} {l : L} {ls : List L} (first : step s l t) (rest : Run step t ls u) :
    Run step s (l :: ls) u :=
  (Run.single first).append rest

theorem Run.cases_snoc {s u : S} {ls : List L} {l : L} (run : Run step s (ls ++ [l]) u) :
    ∃ t, Run step s ls t ∧ step t l u := by
  generalize same : ls ++ [l] = labels at run
  cases run with
  | nil => simp at same
  | snoc before last =>
    obtain ⟨rfl, rfl⟩ := List.append_inj' same rfl |>.imp_right List.singleton_inj.mp
    exact ⟨_, before, last⟩

theorem Run.mono {other : S → L → S → Prop} (sub : ∀ s l t, step s l t → other s l t)
    {s t : S} {ls : List L} (run : Run step s ls t) : Run other s ls t := by
  induction run with
  | nil => exact .nil
  | snoc _ last ih => exact .snoc ih (sub _ _ _ last)

/-- What every step preserves holds at the end of every run. -/
theorem Run.invariant {Inv : S → Prop} (preserved : ∀ s l t, Inv s → step s l t → Inv t)
    {s t : S} {ls : List L} (run : Run step s ls t) (start : Inv s) : Inv t := by
  induction run with
  | nil => exact start
  | snoc _ last ih => exact preserved _ _ _ ih last

/-- The same rule for a relation between the labels so far and the state. -/
theorem Run.history {Inv : List L → S → Prop}
    (preserved : ∀ ls s l t, Inv ls s → step s l t → Inv (ls ++ [l]) t)
    {s t : S} {ls : List L} (run : Run step s ls t) (start : Inv [] s) : Inv ls t := by
  induction run with
  | nil => exact start
  | snoc _ last ih => exact preserved _ _ _ _ ih last

end Transition

import Mathlib.Order.Basic
import Mathlib.Tactic.Common

/-! Bisection of a closed range of places for the last one a predicate holds at. -/

set_option autoImplicit false

namespace Bisect

variable {p : Int → Bool} {lo hi best : Int}

/-- `best` is the last place where `p` was seen to hold. -/
def rightmost (p : Int → Bool) (lo hi best : Int) : Int :=
  if lo ≤ hi then
    let mid := (lo + hi) / 2
    if p mid then rightmost p (mid + 1) hi mid else rightmost p lo (mid - 1) best
  else best
termination_by (hi + 1 - lo).toNat

/-- A place below one where `p` holds is one itself. -/
def Downward (p : Int → Bool) (lo hi : Int) : Prop := ∀ i j, lo ≤ i → i ≤ j → j ≤ hi → p j = true → p i = true

/-- `r` cuts the range: `p` holds up to it, and nowhere after. -/
structure Cuts (p : Int → Bool) (lo hi r : Int) : Prop where
  low : lo - 1 ≤ r
  high : r ≤ hi
  holds : ∀ i, lo ≤ i → i ≤ hi → (p i = true ↔ i ≤ r)

/-- Throughout the loop `best` stands right before the range that is left. -/
theorem rightmost_cuts (downward : Downward p lo hi) (near : lo ≤ hi + 1) (before : best = lo - 1) :
    Cuts p lo hi (rightmost p lo hi best) := by
  fun_induction rightmost p lo hi best with
  | case1 lo hi best le mid holds ih =>
    -- left of the middle `p` holds too
    have rest := ih (fun i j low order high => downward i j (by omega) order high) (by omega) (by omega)
    refine ⟨by have := rest.low; omega, rest.high, ?_⟩
    intro i low high
    by_cases left : i ≤ mid
    · have upto : p i = true := downward i mid low left (by omega) holds
      have := rest.low
      exact ⟨fun _ => by omega, fun _ => upto⟩
    · exact rest.holds i (by omega) high
  | case2 lo hi best le mid fails ih =>
    -- right of the middle `p` fails too
    have rest := ih (fun i j low order high => downward i j low order (by omega)) (by omega) before
    refine ⟨rest.low, by have := rest.high; omega, ?_⟩
    intro i low high
    by_cases right : mid ≤ i
    · have beyond : p i ≠ true := fun holds => fails (downward mid i (by omega) right high holds)
      have := rest.high
      exact ⟨fun holds => absurd holds beyond, fun le => by omega⟩
    · exact rest.holds i low (by omega)
  | case3 lo hi best empty =>
    exact ⟨by omega, by omega, fun i low high => by omega⟩

end Bisect

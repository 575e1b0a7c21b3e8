import Mathlib.Data.List.Basic

/-! Lists with checked access.

An access outside the list is an error value chosen by the caller; inside it
is the list operation. Each operation has one equation for the successful case.
`Returns` is the rule of total correctness that chains of such accesses use. -/

set_option autoImplicit false

namespace Checked

variable {ε α : Type}

theorem ok_bind {β : Type} (a : α) (f : α → Except ε β) : (Except.ok a >>= f) = f a := rfl

def index (e : ε) (b : List α) (i : Nat) : Except ε α :=
  match b[i]? with
  | some v => .ok v
  | none => .error e

def slice (e : ε) (b : List α) (lo hi : Nat) : Except ε (List α) :=
  if lo ≤ hi ∧ hi ≤ b.length then .ok ((b.drop lo).take (hi - lo)) else .error e

/-- Replace positions `lo` to `hi` by a list of exactly that length. -/
def copyFromSlice (e : ε) (b : List α) (lo hi : Nat) (src : List α) : Except ε (List α) :=
  if lo ≤ hi ∧ hi ≤ b.length ∧ src.length = hi - lo then .ok (b.take lo ++ src ++ b.drop hi)
  else .error e

structure Write (α : Type) where
  lo : Nat
  hi : Nat
  src : List α

def Write.at (i : Nat) (v : α) : Write α := ⟨i, i + 1, [v]⟩

def copyAll (e : ε) : List α → List (Write α) → Except ε (List α)
  | b, [] => .ok b
  | b, w :: ws => do
    let b ← copyFromSlice e b w.lo w.hi w.src
    copyAll e b ws

def modifyFrom (e : ε) (b : List α) (lo : Nat) (f : List α → Except ε (List α)) :
    Except ε (List α) :=
  if lo ≤ b.length then (f (b.drop lo)).map (b.take lo ++ ·) else .error e

theorem index_of_lt (e : ε) {b : List α} {i : Nat} (h : i < b.length) (d : α) :
    index e b i = .ok (b.getD i d) := by
  simp [index, List.getElem?_eq_getElem h, List.getD]

theorem slice_of_le (e : ε) {b : List α} {lo hi : Nat} (h : lo ≤ hi) (bound : hi ≤ b.length) :
    slice e b lo hi = .ok ((b.drop lo).take (hi - lo)) := by
  simp [slice, h, bound]

theorem copyFromSlice_of_le (e : ε) {b src : List α} {lo hi : Nat} (h : lo ≤ hi)
    (bound : hi ≤ b.length) (same : src.length = hi - lo) :
    copyFromSlice e b lo hi src = .ok (b.take lo ++ src ++ b.drop hi) := by
  simp [copyFromSlice, h, bound, same]

theorem modifyFrom_of_le (e : ε) {b tail : List α} {lo : Nat} {f : List α → Except ε (List α)}
    (bound : lo ≤ b.length) (done : f (b.drop lo) = .ok tail) :
    modifyFrom e b lo f = .ok (b.take lo ++ tail) := by
  simp [modifyFrom, bound, done, Except.map]

theorem of_bind_ok {β : Type} {x : Except ε α} {f : α → Except ε β} {b : β} (done : (x >>= f) = .ok b) :
    ∃ a, x = .ok a ∧ f a = .ok b := by
  cases x with
  | error => cases done
  | ok a => exact ⟨a, rfl, done⟩

theorem of_map_ok {β : Type} {x : Except ε α} {f : α → β} {b : β} (done : (f <$> x) = .ok b) :
    ∃ a, x = .ok a ∧ f a = b := by
  cases x with
  | error => cases done
  | ok a => exact ⟨a, rfl, Except.ok.inj done⟩

theorem seq_ok {β : Type} {x : Except ε Unit} {f : Unit → Except ε β} {b : β} :
    (x >>= f) = .ok b ↔ x = .ok () ∧ f () = .ok b := by
  cases x with
  | error => exact ⟨nofun, nofun⟩
  | ok => exact ⟨fun done => ⟨rfl, done⟩, And.right⟩

/-- Assignments of the pieces, the first at position `k`. -/
def Write.place : Nat → List (List α) → List (Write α)
  | _, [] => []
  | k, piece :: pieces => ⟨k, k + piece.length, piece⟩ :: place (k + piece.length) pieces

theorem copyAll_place (e : ε) {pieces : List (List α)} {b : List α} {k : Nat}
    (fits : k + pieces.flatten.length ≤ b.length) :
    copyAll e b (Write.place k pieces) = .ok (b.take k ++ pieces.flatten ++ b.drop (k + pieces.flatten.length)) := by
  induction pieces generalizing b k with
  | nil => simp [Write.place, copyAll]
  | cons piece pieces ih =>
    simp only [List.flatten_cons, List.length_append] at fits ⊢
    have front : (b.take k ++ piece).length = k + piece.length := by
      rw [List.length_append, List.length_take]
      omega
    have first : copyFromSlice e b k (k + piece.length) piece = .ok (b.take k ++ piece ++ b.drop (k + piece.length)) :=
      copyFromSlice_of_le e (by omega) (by omega) (by omega)
    rw [Write.place, copyAll, first]
    -- what was written before ends where the next piece starts
    refine (ih (by simp only [List.length_append, List.length_take, List.length_drop]; omega)).trans ?_
    rw [List.take_left' front, List.drop_append, front, List.drop_drop, List.drop_of_length_le (by omega)]
    simp [Nat.add_assoc]

theorem slice_front (e : ε) {x y : List α} {n : Nat} (length : x.length = n) : slice e (x ++ y) 0 n = .ok x := by
  rw [slice_of_le e (Nat.zero_le n) (by simp [length]), Nat.sub_zero, List.drop_zero, List.take_left' length]

theorem copyFromSlice_field (e : ε) {x old new y : List α} {lo hi : Nat} (start : x.length = lo)
    (stop : lo + old.length = hi) (same : new.length = old.length) :
    copyFromSlice e (x ++ old ++ y) lo hi new = .ok (x ++ new ++ y) := by
  rw [copyFromSlice_of_le e (by omega) (by simp; omega) (by omega), List.append_assoc x old y, List.take_left' start,
    ← List.append_assoc x old y, List.drop_left' (by simp; omega)]

def Write.readAt (i : Nat) (old : α) (ws : List (Write α)) : α :=
  ws.foldl (fun v w => if w.lo ≤ i ∧ i < w.hi then w.src.getD (i - w.lo) v else v) old

theorem copyFromSlice_getD {e : ε} {b b' src : List α} {lo hi : Nat} (done : copyFromSlice e b lo hi src = .ok b')
    (i : Nat) (d : α) :
    b'.getD i d = if lo ≤ i ∧ i < hi then src.getD (i - lo) (b.getD i d) else b.getD i d := by
  unfold copyFromSlice at done
  split at done
  · rename_i fits
    obtain ⟨ordered, inside, length⟩ := fits
    cases done
    have front : (b.take lo).length = lo := by rw [List.length_take]; omega
    have middle : (b.take lo ++ src).length = hi := by rw [List.length_append, front, length]; omega
    simp only [List.getD]
    by_cases before : i < lo
    · rw [if_neg (by omega), List.append_assoc, List.getElem?_append_left (by rw [front]; exact before),
        List.getElem?_take_of_lt before]
    by_cases within : i < hi
    · have here : i - lo < src.length := by omega
      rw [if_pos ⟨by omega, within⟩, List.getElem?_append_left (by rw [middle]; exact within),
        List.getElem?_append_right (by rw [front]; omega), front, List.getElem?_eq_getElem here]
      rfl
    · rw [if_neg (by omega), List.getElem?_append_right (by rw [middle]; omega), middle, List.getElem?_drop,
        Nat.add_sub_cancel' (by omega)]
  · cases done

theorem copyAll_getD {e : ε} {b b' : List α} {ws : List (Write α)} (done : copyAll e b ws = .ok b') (i : Nat) (d : α) :
    b'.getD i d = Write.readAt i (b.getD i d) ws := by
  induction ws generalizing b with
  | nil =>
    cases done
    rfl
  | cons w ws ih =>
    rw [copyAll] at done
    cases first : copyFromSlice e b w.lo w.hi w.src with
    | error e' =>
      rw [first] at done
      cases done
    | ok c =>
      rw [first] at done
      rw [ih done, copyFromSlice_getD first]
      rfl

theorem modifyFrom_eq_ok {e : ε} {b b' : List α} {lo : Nat} {f : List α → Except ε (List α)}
    (done : modifyFrom e b lo f = .ok b') : lo ≤ b.length ∧ ∃ tail, f (b.drop lo) = .ok tail ∧ b' = b.take lo ++ tail := by
  unfold modifyFrom at done
  split at done
  · rename_i inside
    cases ran : f (b.drop lo) with
    | error e' =>
      rw [ran] at done
      cases done
    | ok tail =>
      rw [ran] at done
      cases done
      exact ⟨inside, tail, rfl, rfl⟩
  · cases done

/-! ## Total correctness -/

/-- A condition on the result, if there is one. -/
instance decidableForallOk {P : α → Prop} [DecidablePred P] : (x : Except ε α) → Decidable (∀ a, x = .ok a → P a)
  | .ok a => decidable_of_iff (P a) (by simp)
  | .error _ => .isTrue (by simp)

def Returns {β : Type} (x : Except ε β) (P : β → Prop) : Prop := ∃ b, x = .ok b ∧ P b

section
variable {β γ : Type} {x : Except ε β} {P : β → Prop}

theorem Returns.ok {b : β} (holds : P b) : Returns (.ok b : Except ε β) P := ⟨b, rfl, holds⟩

theorem Returns.bind {f : β → Except ε γ} {Q : γ → Prop} (first : Returns x P)
    (rest : ∀ b, P b → Returns (f b) Q) : Returns (x >>= f) Q := by
  obtain ⟨b, rfl, holds⟩ := first
  exact rest b holds

theorem Returns.mono {Q : β → Prop} (first : Returns x P) (implies : ∀ b, P b → Q b) : Returns x Q := by
  obtain ⟨b, same, holds⟩ := first
  exact ⟨b, same, implies b holds⟩

end

def Fails {β : Type} (x : Except ε β) (Q : ε → Prop) : Prop := ∀ e, x = .error e → Q e

section
variable {β γ : Type} {x : Except ε β} {Q : ε → Prop}

theorem Fails.ok (b : β) : Fails (.ok b : Except ε β) Q := fun e failed => by cases failed

theorem Fails.error {e : ε} (holds : Q e) : Fails (.error e : Except ε β) Q := fun e' failed => by
  cases failed
  exact holds

theorem Returns.fails {P : β → Prop} (returns : Returns x P) : Fails x Q := by
  obtain ⟨b, rfl, -⟩ := returns
  exact .ok b

theorem Fails.bind {f : β → Except ε γ} (first : Fails x Q) (rest : ∀ b, x = .ok b → Fails (f b) Q) :
    Fails (x >>= f) Q := by
  cases x with
  | error e => exact .error (first e rfl)
  | ok b => exact rest b rfl

end

/-! ## Simulation -/

section
variable {σ τ σ' τ' : Type} {R : σ → τ → Prop}

/-- Both computations fail, or both succeed with related results. -/
def Agrees (R : σ → τ → Prop) : Option σ → Except ε τ → Prop
  | some a, .ok b => R a b
  | none, .error _ => True
  | _, _ => False

theorem Agrees.bind {x : Option σ} {y : Except ε τ} {Q : σ' → τ' → Prop} {f : σ → Option σ'} {g : τ → Except ε τ'}
    (first : Agrees R x y) (rest : ∀ a b, x = some a → R a b → Agrees Q (f a) (g b)) : Agrees Q (x >>= f) (y >>= g) := by
  cases x <;> cases y
  · trivial
  · cases first
  · cases first
  · exact rest _ _ rfl first

theorem Agrees.of_ok {x : Option σ} {y : Except ε τ} {b : τ} (agrees : Agrees R x y) (ran : y = .ok b) :
    ∃ a, x = some a ∧ R a b := by
  subst ran
  cases x with
  | none => cases agrees
  | some a => exact ⟨a, rfl, agrees⟩

theorem Agrees.of_some {x : Option σ} {y : Except ε τ} {a : σ} (agrees : Agrees R x y) (ran : x = some a) :
    Returns y (R a) := by
  subst ran
  cases y with
  | error e => cases agrees
  | ok b => exact .ok agrees

end

/-- Whatever the first computation returns, the second one returns too. -/
def Yields {β : Type} (x y : Except ε β) : Prop := ∀ b, x = .ok b → y = .ok b

section
variable {β γ : Type} {x y z w : Except ε β}

theorem Yields.refl (x : Except ε β) : Yields x x := fun _ => id

theorem Yields.bind {f g : β → Except ε γ} (first : Yields x y) (rest : ∀ b, Yields (f b) (g b)) :
    Yields (x >>= f) (y >>= g) := by
  cases x with
  | error e =>
    intro c done
    cases done
  | ok b =>
    rw [first b rfl]
    exact rest b

theorem Yields.ite {p : Prop} [Decidable p] (yes : Yields x y) (no : Yields z w) :
    Yields (if p then x else z) (if p then y else w) := by
  by_cases holds : p
  · rw [if_pos holds, if_pos holds]
    exact yes
  · rw [if_neg holds, if_neg holds]
    exact no

end

section
variable {R D β : Type} {f : R → β} {g : D → β}

/-- What a decision comes to: `f` of the reason against, or `g` of what was accepted. -/
def settle (f : R → β) (g : D → β) : Except R D → β
  | .error r => f r
  | .ok d => g d

/-- A checked computation and a decision agree when they make the same check first. -/
theorem settle_check {c : Prop} [Decidable c] {r : R} {b : β} {x : Except ε β} {j : Except R D}
    (same : b = f r) (rest : ¬ c → x = .ok (settle f g j)) :
    (if c then .ok b else x) = .ok (settle f g (if c then .error r else j)) := by
  by_cases fails : c
  · rw [if_pos fails, if_pos fails, settle, same]
  · rw [if_neg fails, if_neg fails, rest fails]

theorem check_eq_ok {c : Prop} [Decidable c] {r : R} {j : Except R D} {d : D}
    (accepted : (if c then .error r else j) = .ok d) : ¬ c ∧ j = .ok d := by
  by_cases fails : c
  · rw [if_pos fails] at accepted
    cases accepted
  · rw [if_neg fails] at accepted
    exact ⟨fails, accepted⟩

end

theorem slice_returns (e : ε) {b : List α} {lo hi : Nat} (h : lo ≤ hi) (bound : hi ≤ b.length) :
    Returns (slice e b lo hi) (·.length = hi - lo) := by
  refine ⟨_, slice_of_le e h bound, ?_⟩
  simp only [List.length_take, List.length_drop]
  omega

theorem copyFromSlice_returns (e : ε) {b src : List α} {lo hi : Nat} (h : lo ≤ hi)
    (bound : hi ≤ b.length) (same : src.length = hi - lo) :
    Returns (copyFromSlice e b lo hi src) (·.length = b.length) := by
  refine ⟨_, copyFromSlice_of_le e h bound same, ?_⟩
  simp only [List.length_append, List.length_take, List.length_drop]
  omega

def Write.Inside (n : Nat) (w : Write α) : Prop := w.lo ≤ w.hi ∧ w.hi ≤ n ∧ w.src.length = w.hi - w.lo

theorem copyAll_returns (e : ε) {b : List α} {ws : List (Write α)} (inside : ∀ w ∈ ws, w.Inside b.length) :
    Returns (copyAll e b ws) (·.length = b.length) := by
  induction ws generalizing b with
  | nil => exact .ok rfl
  | cons w ws ih =>
    obtain ⟨order, bound, same⟩ := inside w List.mem_cons_self
    refine (copyFromSlice_returns e order bound same).bind fun c length => ?_
    rw [← length]
    exact ih fun w member => length ▸ inside w (List.mem_cons_of_mem _ member)

theorem modifyFrom_returns (e : ε) {b : List α} {lo : Nat} {f : List α → Except ε (List α)}
    (bound : lo ≤ b.length) (rest : Returns (f (b.drop lo)) (·.length = b.length - lo)) :
    Returns (modifyFrom e b lo f) (·.length = b.length) := by
  obtain ⟨tail, done, length⟩ := rest
  refine ⟨_, modifyFrom_of_le e bound done, ?_⟩
  simp only [List.length_append, List.length_take, length]
  omega

theorem forM_ok {f : α → Except ε PUnit} {l : List α} (each : ∀ a ∈ l, f a = .ok ⟨⟩) : l.forM f = .ok ⟨⟩ := by
  induction l with
  | nil => rfl
  | cons a l ih =>
    rw [List.forM, each a List.mem_cons_self]
    exact ih fun b mem => each b (List.mem_cons_of_mem a mem)

theorem forM_stops {f : α → Except ε PUnit} {before after : List α} {a : α} {e : ε} (passed : ∀ b ∈ before, f b = .ok ⟨⟩)
    (failed : f a = .error e) : (before ++ a :: after).forM f = .error e := by
  induction before with
  | nil =>
    rw [List.nil_append, List.forM, failed]
    rfl
  | cons b before ih =>
    rw [List.cons_append, List.forM, passed b List.mem_cons_self]
    exact ih fun c mem => passed c (List.mem_cons_of_mem b mem)

theorem forM_eq_ok {f : α → Except ε PUnit} {l : List α} (done : l.forM f = .ok ⟨⟩) : ∀ a ∈ l, f a = .ok ⟨⟩ := by
  induction l with
  | nil => simp
  | cons a l ih =>
    rw [List.forM] at done
    cases first : f a with
    | error e =>
      rw [first] at done
      cases done
    | ok u =>
      rw [first] at done
      exact List.forall_mem_cons.mpr ⟨first, ih done⟩

end Checked

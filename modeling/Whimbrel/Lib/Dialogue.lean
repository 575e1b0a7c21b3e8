import Mathlib.Data.List.Basic

/-! Programs that talk to an environment.

A program asks, goes on with the answer, and ends with a value or an error. The
environment answers from a state of its own, and more than one answer may be
possible. `Safe` is the rule of pre- and postconditions: every request is one the
state permits, whatever the answers, and every result meets the postcondition. -/

set_option autoImplicit false

namespace Dialogue

/-- A program with requests `R`, answers `A`, errors `E` and results `V`. -/
inductive Prog (R : Type) (A : R → Type) (E V : Type) where
  | ret (v : V)
  | fail (e : E)
  | ask (r : R) (k : A r → Prog R A E V)

section
variable {R : Type} {A : R → Type} {E V W : Type}

def Prog.bind : Prog R A E V → (V → Prog R A E W) → Prog R A E W
  | .ret v, f => f v
  | .fail e, _ => .fail e
  | .ask r k, f => .ask r fun x => (k x).bind f

instance : Monad (Prog R A E) where
  pure := .ret
  bind := Prog.bind

def Prog.request (r : R) : Prog R A E (A r) := .ask r .ret

def Prog.lift : Except E V → Prog R A E V
  | .ok v => .ret v
  | .error e => .fail e

@[irreducible] def Prog.failIf (c : Prop) [Decidable c] (e : E) : Prog R A E Unit := if c then .fail e else .ret ()

end

/-- What an environment in state `s` may answer, and its next state. -/
abbrev Steps (S R : Type) (A : R → Type) := S → (r : R) → A r → S → Prop

section
variable {S R : Type} {A : R → Type} {E V W : Type} {step : Steps S R A} {may : S → R → Prop} {bad : E → Prop}

/-- Whatever the environment answers, the program only asks what the state permits, a result is `good` and an error
is one of `bad`. -/
def Safe (step : Steps S R A) (may : S → R → Prop) (bad : E → Prop) (good : S → V → Prop) : Prog R A E V → S → Prop
  | .ret v, s => good s v
  | .fail e, _ => bad e
  | .ask r k, s => may s r ∧ ∀ x s', step s r x s' → Safe step may bad good (k x) s'

variable {p : Prog R A E V} {s s' : S} {good better : S → V → Prop}

theorem Safe.mono (safe : Safe step may bad better p s) (weaker : ∀ s v, better s v → good s v) : Safe step may bad good p s := by
  induction p generalizing s with
  | ret v => exact weaker s v safe
  | fail e => exact safe
  | ask r k ih => exact ⟨safe.1, fun x s' answered => ih x (safe.2 x s' answered)⟩

/-- Sequencing: what the first part establishes is what the second assumes. -/
theorem Safe.seq {f : V → Prog R A E W} {goal : S → W → Prop} (first : Safe step may bad good p s)
    (next : ∀ s v, good s v → Safe step may bad goal (f v) s) : Safe step may bad goal (p >>= f) s := by
  induction p generalizing s with
  | ret v => exact next s v first
  | fail e => exact first
  | ask r k ih => exact ⟨first.1, fun x s' answered => ih x (first.2 x s' answered)⟩

theorem Safe.ask {r : R} {f : A r → Prog R A E W} {goal : S → W → Prop} (asked : may s r)
    (next : ∀ x s', step s r x s' → Safe step may bad goal (f x) s') : Safe step may bad goal (Prog.request r >>= f) s :=
  ⟨asked, next⟩

theorem Safe.failIf {c : Prop} [Decidable c] {e : E} {goal : S → Unit → Prop} (stop : c → bad e) (passed : ¬ c → goal s ()) :
    Safe step may bad goal (Prog.failIf c e) s := by
  by_cases fails : c
  · rw [Prog.failIf, if_pos fails]
    exact stop fails
  · rw [Prog.failIf, if_neg fails]
    exact passed fails

/-- A counted loop, with an invariant of the counter. -/
theorem Safe.range' {f : V → Nat → Prog R A E V} {inv : Nat → S → V → Prop} {v : V} {k n : Nat}
    (each : ∀ i, k ≤ i → i < k + n → ∀ s v, inv i s v → Safe step may bad (inv (i + 1)) (f v i) s) (start : inv k s v) :
    Safe step may bad (inv (k + n)) ((List.range' k n).foldlM f v) s := by
  induction n generalizing k v s with
  | zero => exact start
  | succ n ih =>
    rw [List.range'_succ, List.foldlM_cons, ← Nat.succ_add_eq_add_succ]
    refine (each k (Nat.le_refl k) (by omega) s v start).seq fun s v holds => ih (fun i lower upper => ?_) holds
    exact each i (by omega) (by omega)

theorem Safe.range (inv : Nat → S → V → Prop) {f : V → Nat → Prog R A E V} {v : V} {n : Nat}
    (each : ∀ i < n, ∀ s v, inv i s v → Safe step may bad (inv (i + 1)) (f v i) s) (start : inv 0 s v) :
    Safe step may bad (inv n) ((List.range n).foldlM f v) s := by
  rw [List.range_eq_range']
  have loop := @Safe.range' S R A E V step may bad s f inv v 0 n (fun i _ upper => each i (by omega)) start
  rwa [Nat.zero_add] at loop

/-! ## Runs -/

abbrev Event (R : Type) (A : R → Type) := (r : R) × A r

/-- The program has had these requests answered; what is left of it, and the environment's state. -/
inductive Reaches (step : Steps S R A) (p : Prog R A E V) (s : S) : List (Event R A) → Prog R A E V → S → Prop where
  | start : Reaches step p s [] p s
  | answer {es : List (Event R A)} {r : R} {k : A r → Prog R A E V} {x : A r} {t u : S}
      (before : Reaches step p s es (.ask r k) t) (answered : step t r x u) : Reaches step p s (es ++ [⟨r, x⟩]) (k x) u

theorem Safe.reaches {q : Prog R A E V} {es : List (Event R A)} (safe : Safe step may bad good p s)
    (run : Reaches step p s es q s') : Safe step may bad good q s' := by
  induction run with
  | start => exact safe
  | answer _ answered ih => exact ih.2 _ _ answered

def logged (step : Steps S R A) : Steps (S × List (Event R A)) R A :=
  fun s r x s' => step s.1 r x s'.1 ∧ s'.2 = s.2 ++ [⟨r, x⟩]

theorem Reaches.logged {q : Prog R A E V} {es : List (Event R A)} (run : Reaches step p s es q s') :
    Reaches (logged step) p (s, []) es q (s', es) := by
  induction run with
  | start => exact .start
  | answer _ answered ih => exact .answer ih ⟨answered, rfl⟩

/-- An environment of which nothing is known: it answers from all that it was asked before. -/
abbrev Device (R : Type) (A : R → Type) := List (Event R A) → (r : R) → A r

/-- The end of a program that has asked `es` already, and all it has asked then. -/
def Prog.play (device : Device R A) : Prog R A E V → List (Event R A) → Except E V × List (Event R A)
  | .ret v, es => (.ok v, es)
  | .fail e, es => (.error e, es)
  | .ask r k, es => (k (device es r)).play device (es ++ [⟨r, device es r⟩])

def after (record : S → (r : R) → A r → S) (s : S) (es : List (Event R A)) : S := es.foldl (fun s e => record s e.1 e.2) s

/-- An environment whose state is its log, with answers that `fits` allows. -/
def recorded (record : S → (r : R) → A r → S) (fits : S → (r : R) → A r → Prop) : Steps S R A :=
  fun s r x s' => fits s r x ∧ s' = record s r x

variable {record : S → (r : R) → A r → S} {fits : S → (r : R) → A r → Prop} {device : Device R A} {start : S}
  {es : List (Event R A)}

theorem after_snoc {e : Event R A} : after record start (es ++ [e]) = record (after record start es) e.1 e.2 := by
  rw [after, List.foldl_append]
  rfl

theorem play_extends : ∃ more, (p.play device es).2 = es ++ more := by
  induction p generalizing es with
  | ret v => exact ⟨[], (List.append_nil es).symm⟩
  | fail e => exact ⟨[], (List.append_nil es).symm⟩
  | ask r k ih =>
    obtain ⟨more, extends_⟩ := @ih (device es r) (es ++ [⟨r, device es r⟩])
    exact ⟨⟨r, device es r⟩ :: more, extends_.trans (List.append_assoc ..)⟩

section
variable (answers : ∀ es r, fits (after record start es) r (device es r))
include answers

theorem Safe.answered {r : R} {k : A r → Prog R A E V}
    (safe : Safe (recorded record fits) may bad good (.ask r k) (after record start es)) :
    Safe (recorded record fits) may bad good (k (device es r)) (after record start (es ++ [⟨r, device es r⟩])) := by
  rw [after_snoc]
  exact safe.2 (device es r) _ ⟨answers es r, rfl⟩

/-- Each request of a safe program is one that the log before it permits. -/
theorem Safe.asks (safe : Safe (recorded record fits) may bad good p (after record start es)) {before rest : List (Event R A)}
    {e : Event R A} (split : (p.play device es).2 = before ++ e :: rest) (later : es.length ≤ before.length) :
    may (after record start before) e.1 := by
  induction p generalizing es with
  | ret v =>
    have length := congrArg List.length split
    rw [List.length_append, List.length_cons] at length
    change es.length = _ at length
    omega
  | fail e =>
    have length := congrArg List.length split
    rw [List.length_append, List.length_cons] at length
    change es.length = _ at length
    omega
  | ask r k ih =>
    rcases Nat.lt_or_eq_of_le later with more | same
    · refine ih (device es r) (Safe.answered answers safe) split ?_
      rw [List.length_append]
      exact more
    -- the request at the head of what is left
    · obtain ⟨more, extends_⟩ := @play_extends R A E V (k (device es r)) device (es ++ [⟨r, device es r⟩])
      have whole := extends_.symm.trans split
      rw [List.append_assoc] at whole
      obtain ⟨rfl, tail⟩ := List.append_inj whole same
      obtain ⟨rfl, -⟩ := List.cons.inj tail
      exact safe.1

/-- The result of a safe program is good in the state that its log leaves. -/
theorem Safe.result (safe : Safe (recorded record fits) may bad good p (after record start es)) {v : V}
    (done : (p.play device es).1 = .ok v) : good (after record start (p.play device es).2) v := by
  induction p generalizing es with
  | ret w =>
    obtain rfl := Except.ok.inj done
    exact safe
  | fail e => cases done
  | ask r k ih =>
    exact ih (device es r) (Safe.answered answers safe) done

theorem Safe.returns (safe : Safe (recorded record fits) may bad good p (after record start es)) (never : ∀ e, ¬ bad e) :
    ∃ v, (p.play device es).1 = .ok v := by
  induction p generalizing es with
  | ret v => exact ⟨v, rfl⟩
  | fail e => exact absurd safe (never e)
  | ask r k ih =>
    exact ih (device es r) (Safe.answered answers safe)

end

end

end Dialogue

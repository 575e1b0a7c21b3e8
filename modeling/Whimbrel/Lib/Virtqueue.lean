import Mathlib.Algebra.GroupWithZero.Nat
import Mathlib.Data.List.Perm.Basic
import Mathlib.Logic.Function.Basic

/-! Split virtqueues.

Two rings of `n` slots are addressed by free-running 16-bit indices modulo `n`. The
driver publishes descriptors on the one, the device takes them in order, holds them
and completes any of them at any time on the other. What stands on a ring between
two indices is a window, read as a list. -/

set_option autoImplicit false

namespace Virtqueue

/-- A ring size that the indices count without a jump where they wrap. -/
structure Size (n : Nat) : Prop where
  pos : 0 < n
  divides : n ∣ 2 ^ 16
  small : n < 2 ^ 16

variable {A : Type} {n : Nat} [NeZero n]

def slot (n : Nat) [NeZero n] (i : BitVec 16) : Fin n := Fin.ofNat n i.toNat

def window (ring : Fin n → A) (start : BitVec 16) : Nat → List A
  | 0 => []
  | k + 1 => ring (slot n start) :: window ring (start + 1) k

theorem add_succ (i : BitVec 16) (k : Nat) : i + BitVec.ofNat 16 (k + 1) = i + 1 + BitVec.ofNat 16 k := by
  rw [BitVec.add_assoc, BitVec.ofNat_add, BitVec.add_comm (BitVec.ofNat 16 k)]
  rfl

theorem add_distance (start stop : BitVec 16) : start + BitVec.ofNat 16 (stop - start).toNat = stop := by
  rw [BitVec.ofNat_toNat, BitVec.setWidth_eq, BitVec.add_comm, BitVec.sub_add_cancel]

section
variable {ring : Fin n → A} {start : BitVec 16} {k j : Nat}

@[simp] theorem window_length : (window ring start k).length = k := by
  induction k generalizing start with
  | zero => rfl
  | succ k ih => rw [window, List.length_cons, ih]

theorem slot_add_ne (size : Size n) (pos : 0 < j) (turn : j < n) : slot n (start + BitVec.ofNat 16 j) ≠ slot n start := by
  intro same
  have values := congrArg Fin.val same
  rw [slot, slot, Fin.val_ofNat, Fin.val_ofNat, BitVec.toNat_add, BitVec.toNat_ofNat, Nat.mod_mod_of_dvd _ size.divides,
    Nat.mod_eq_of_lt (Nat.lt_trans turn size.small)] at values
  have whole := Nat.sub_mod_eq_zero_of_mod_eq values
  rw [Nat.add_sub_cancel_left, Nat.mod_eq_of_lt turn] at whole
  exact Nat.ne_of_gt pos whole

theorem window_update (size : Size n) (behind : k ≤ j) (turn : j < n) (a : A) :
    window (Function.update ring (slot n (start + BitVec.ofNat 16 j)) a) start k = window ring start k := by
  induction k generalizing start j with
  | zero => rfl
  | succ k ih =>
    obtain ⟨j, rfl⟩ : ∃ m, j = m + 1 := ⟨j - 1, by omega⟩
    rw [window, window, Function.update_of_ne (slot_add_ne size (Nat.succ_pos j) turn).symm, add_succ,
      ih (by omega) (by omega)]

theorem window_push (size : Size n) (turn : k < n) (a : A) :
    window (Function.update ring (slot n (start + BitVec.ofNat 16 k)) a) start (k + 1) = window ring start k ++ [a] := by
  induction k generalizing start with
  | zero =>
    have here : start + BitVec.ofNat 16 0 = start := BitVec.add_zero start
    rw [here]
    exact congrArg (· :: []) (Function.update_self ..)
  | succ k ih =>
    rw [window, Function.update_of_ne (slot_add_ne size (Nat.succ_pos k) turn).symm, add_succ, ih (by omega)]
    rfl

end

def between (ring : Fin n → A) (start stop : BitVec 16) : List A := window ring start (stop - start).toNat

section
variable {ring : Fin n → A} {start stop : BitVec 16}

theorem between_length : (between ring start stop).length = (stop - start).toNat := window_length

theorem between_self : between ring start start = [] := by
  rw [between, BitVec.sub_self]
  rfl

theorem between_cons (ne : stop ≠ start) :
    between ring start stop = ring (slot n start) :: between ring (start + 1) stop := by
  obtain ⟨k, some⟩ : ∃ k, (stop - start).toNat = k + 1 := by
    refine ⟨(stop - start).toNat - 1, ?_⟩
    bv_omega
  have rest : (stop - (start + 1)).toNat = k := by bv_omega
  rw [between, some, window, between, rest]

theorem between_update (size : Size n) (room : (stop - start).toNat < n) (a : A) :
    between (Function.update ring (slot n stop) a) start stop = between ring start stop := by
  have same := @window_update A n _ ring start (stop - start).toNat _ size (Nat.le_refl _) room a
  rw [add_distance] at same
  exact same

theorem between_push (size : Size n) (room : (stop - start).toNat < n) (a : A) :
    between (Function.update ring (slot n stop) a) start (stop + 1) = between ring start stop ++ [a] := by
  have longer : (stop + 1 - start).toNat = (stop - start).toNat + 1 := by
    have small := size.small
    bv_omega
  have pushed := @window_push A n _ ring start (stop - start).toNat size room a
  rw [add_distance] at pushed
  rw [between, longer, pushed, between]

theorem between_publish (size : Size n) (room : (stop - start).toNat < n) :
    between ring start (stop + 1) = between ring start stop ++ [ring (slot n stop)] := by
  have pushed := @between_push A n _ ring start stop size room (ring (slot n stop))
  rw [Function.update_eq_self] at pushed
  exact pushed

end

/-- The two rings, and what the device has taken and not completed. A completion is a
descriptor and a length. -/
structure Queue (n : Nat) where
  ring : Fin n → Nat
  avail : BitVec 16
  entries : Fin n → Nat × Nat
  used : BitVec 16
  taken : BitVec 16
  held : List Nat

def Queue.take (q : Queue n) : Queue n := { q with taken := q.taken + 1, held := q.held ++ [q.ring (slot n q.taken)] }

def Queue.complete (q : Queue n) (id len : Nat) : Queue n :=
  { q with entries := Function.update q.entries (slot n q.used) (id, len), used := q.used + 1, held := q.held.erase id }

/-- What a conforming device does, with the completion it adds. -/
inductive Device : Queue n → Option (Nat × Nat) → Queue n → Prop where
  | take {q : Queue n} : q.avail ≠ q.taken → Device q none q.take
  | complete {q : Queue n} (id len : Nat) : id ∈ q.held → Device q (some (id, len)) (q.complete id len)

namespace Queue

/-- Published and not taken. -/
def available (q : Queue n) : List Nat := between q.ring q.taken q.avail

/-- Completed and not seen by the driver. -/
def completed (q : Queue n) (seen : BitVec 16) : List (Nat × Nat) := between q.entries seen q.used

/-- The descriptors that are not the driver's. -/
def out (q : Queue n) (seen : BitVec 16) : List Nat := q.available ++ q.held ++ (q.completed seen).map Prod.fst

def put (q : Queue n) (id : Nat) : Queue n := { q with ring := Function.update q.ring (slot n q.avail) id }

def publish (q : Queue n) : Queue n := { q with avail := q.avail + 1 }

structure Counted (q : Queue n) (seen : BitVec 16) : Prop where
  room : (q.out seen).length ≤ n
  flight : q.taken = q.used + BitVec.ofNat 16 q.held.length

end Queue

section
variable {q q' : Queue n} {seen : BitVec 16} {id : Nat}

theorem Queue.Counted.lengths (counted : q.Counted seen) :
    (q.avail - q.taken).toNat + q.held.length + (q.used - seen).toNat ≤ n := by
  have room := counted.room
  rw [Queue.out, List.length_append, List.length_append, List.length_map, Queue.available, Queue.completed, between_length,
    between_length] at room
  exact room

/-- The distance of the two published indices is what the device has to do. -/
theorem Queue.Counted.distance (counted : q.Counted seen) (size : Size n) : (q.avail - q.used).toNat ≤ n := by
  have lengths := counted.lengths
  have small := size.small
  have flight := counted.flight
  have held : (BitVec.ofNat 16 q.held.length).toNat = q.held.length := by
    rw [BitVec.toNat_ofNat]
    exact Nat.mod_eq_of_lt (by omega)
  bv_omega

theorem ofNat_succ (k : Nat) : BitVec.ofNat 16 (k + 1) = BitVec.ofNat 16 k + 1 := BitVec.ofNat_add k 1

/-- The device moves descriptors between its three places and adds its completions in order. -/
theorem Device.moves {done : Option (Nat × Nat)} (step : Device q done q') (size : Size n) (counted : q.Counted seen) :
    (q'.out seen).Perm (q.out seen) ∧ q'.Counted seen ∧ q'.completed seen = q.completed seen ++ done.toList := by
  have lengths := counted.lengths
  have flight := counted.flight
  cases step with
  | take some =>
    have first : q.available = q.ring (slot n q.taken) :: between q.ring (q.taken + 1) q.avail := between_cons some
    have perm : (q.take.out seen).Perm (q.out seen) := by
      rw [Queue.out, Queue.out, first]
      refine List.Perm.append_right _ ?_
      change (between q.ring (q.taken + 1) q.avail ++ (q.held ++ [q.ring (slot n q.taken)])).Perm _
      rw [← List.append_assoc]
      exact List.perm_append_singleton _ _
    refine ⟨perm, ⟨perm.length_eq ▸ counted.room, ?_⟩, (List.append_nil _).symm⟩
    rw [Queue.take]
    dsimp only
    rw [List.length_append, List.length_singleton, ofNat_succ, ← BitVec.add_assoc, ← flight]
  | complete id len mem =>
    have pos := List.length_pos_of_mem mem
    -- Which of the descriptors it holds it completes is up to the device.
    have last : (q.complete id len).completed seen = q.completed seen ++ [(id, len)] := between_push size (by omega) (id, len)
    have perm : ((q.complete id len).out seen).Perm (q.out seen) := by
      rw [Queue.out, last, Queue.out, List.map_append, List.append_assoc, List.append_assoc]
      refine List.Perm.append_left _ ?_
      change (q.held.erase id ++ (_ ++ [id])).Perm _
      refine List.Perm.trans ?_ ((List.perm_cons_erase mem).symm.append_right _)
      rw [List.cons_append, ← List.append_assoc]
      exact List.perm_append_singleton _ _
    refine ⟨perm, ⟨perm.length_eq ▸ counted.room, ?_⟩, last⟩
    have one : BitVec.ofNat 16 q.held.length = BitVec.ofNat 16 (q.held.length - 1) + 1 := by
      rw [← ofNat_succ, Nat.sub_add_cancel pos]
    rw [Queue.complete]
    dsimp only
    rw [flight, List.length_erase_of_mem mem, one, BitVec.add_assoc, BitVec.add_comm 1]

theorem Queue.Counted.quiet (counted : q.Counted seen) (none : q.out seen = []) :
    q.used = seen ∧ q.avail = q.used ∧ q.taken = q.used ∧ q.held = [] := by
  have lengths := congrArg List.length none
  rw [Queue.out, List.length_append, List.length_append, List.length_map, Queue.available, Queue.completed, between_length,
    between_length, List.length_nil] at lengths
  have held : q.held = [] := List.eq_nil_of_length_eq_zero (by omega)
  have flight := counted.flight
  rw [held, List.length_nil] at flight
  refine ⟨?_, ?_, ?_, held⟩ <;> bv_omega

theorem Queue.Counted.still {done : Option (Nat × Nat)} (counted : q.Counted seen) (none : q.out seen = []) :
    ¬ Device q done q' := by
  obtain ⟨-, avail, taken, held⟩ := counted.quiet none
  intro step
  cases step with
  | take some => exact some (avail.trans taken.symm)
  | complete id len mem =>
    rw [held] at mem
    cases mem

/-! ## The driver's side -/

theorem Queue.out_put (size : Size n) (room : (q.avail - q.taken).toNat < n) (id : Nat) : (q.put id).out seen = q.out seen := by
  have same : (q.put id).available = q.available := between_update size room id
  rw [Queue.out, same]
  rfl

theorem Queue.ring_put (id : Nat) : (q.put id).ring (slot n (q.put id).avail) = id := Function.update_self ..

theorem Queue.out_publish (size : Size n) (room : (q.avail - q.taken).toNat < n) :
    (q.publish.out seen).Perm (q.ring (slot n q.avail) :: q.out seen) := by
  have longer : q.publish.available = q.available ++ [q.ring (slot n q.avail)] := between_publish size room
  rw [Queue.out, longer, Queue.out, List.append_assoc, List.append_assoc, List.append_assoc, List.singleton_append]
  exact List.perm_middle

/-- The driver sees the completions in order. -/
theorem Queue.completed_cons (some : q.used ≠ seen) :
    q.completed seen = q.entries (slot n seen) :: q.completed (seen + 1) := between_cons some

theorem Queue.out_see (some : q.used ≠ seen) : (q.out seen).Perm ((q.entries (slot n seen)).1 :: q.out (seen + 1)) := by
  rw [Queue.out, Queue.completed_cons some, List.map_cons, Queue.out]
  exact List.perm_middle

end

end Virtqueue

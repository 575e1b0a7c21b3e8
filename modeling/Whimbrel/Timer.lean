import Mathlib.Algebra.GroupWithZero.Nat
import Mathlib.Order.Lattice
import Whimbrel.Lib.Transition
import Whimbrel.Trap.Handler

/-! The supervisor timer: `src/timer.rs`, and the hart's clock and comparator. -/

set_option autoImplicit false

namespace Whimbrel.Timer

open Checked Transition

/-- `PERIOD` and `PERIOD_1MS`, in ticks of the 10 MHz clock. -/
def period : Usize := 100000
def period1ms : Usize := 10000

structure State where
  periodNow : Usize
  ticks : Usize
  deriving DecidableEq, Repr

def State.boot : State := ⟨period, 0⟩

inductive Stop where
  | panic (why : Panic)
  | periodZero
  deriving DecidableEq, Repr

/-- `arm`: the deadline that `sbi_set_timer` takes. -/
def arm (platform : Platform) (now : Usize) (t : State) : Except Stop Usize := do
  let deadline := now + t.periodNow
  if ¬ platform.setTimer deadline then throw (.panic .setTimer)
  return deadline

def assertTicksArmed (stie : Bool) : Except Stop Unit := do
  if ¬ stie then throw (.panic .ticksNotArmed)

/-- `yield_once` up to the `wfi`. -/
def yieldOnce (platform : Platform) (now : Usize) (t : State) : Except Stop Usize := do
  assertTicksArmed platform.stie
  arm platform now t

def setPeriod (platform : Platform) (now : Usize) (ticks : Usize) (t : State) : Except Stop (State × Usize) := do
  if ticks = 0 then throw .periodZero
  let t := { t with periodNow := ticks }
  return (t, ← arm platform now t)

def onInterrupt (platform : Platform) (now : Usize) (t : State) : Except Stop (State × Usize) := do
  let t := { t with ticks := t.ticks + 1 }
  return (t, ← arm platform now t)

section
variable {platform : Platform} {now p : Usize} {t : State}

theorem arm_eq (answers : ∀ deadline, platform.setTimer deadline = true) : arm platform now t = .ok (now + t.periodNow) := by
  rw [arm, answers]
  rfl

theorem setPeriod_eq (answers : ∀ deadline, platform.setTimer deadline = true) (some : p ≠ 0) :
    setPeriod platform now p t = .ok (⟨p, t.ticks⟩, now + p) := by
  rw [setPeriod, if_neg some]
  change (arm platform now ⟨p, t.ticks⟩ >>= _) = _
  rw [arm_eq answers]
  rfl

theorem onInterrupt_eq (answers : ∀ deadline, platform.setTimer deadline = true) :
    onInterrupt platform now t = .ok (⟨t.periodNow, t.ticks + 1⟩, now + t.periodNow) := by
  rw [onInterrupt, arm_eq answers]
  rfl

theorem arm_deadline {deadline : Usize} (done : arm platform now t = .ok deadline) : deadline = now + t.periodNow := by
  rw [arm] at done
  split at done
  · cases done
  · exact (Except.ok.inj done).symm

end

/-! ## The hart's clock -/

/-- The clock, the comparator and the enables; `sip.STIP` is `deadline ≤ time`. -/
structure Hart where
  time : Usize
  deadline : Usize
  stie : Bool
  sie : Bool
  timer : State
  deriving DecidableEq, Repr

def Hart.pending (h : Hart) : Prop := h.deadline ≤ h.time

inductive Event where
  /-- Time passes. -/
  | pass (ticks : Nat)
  /-- The timer interrupt is taken and handled. -/
  | interrupt
  /-- `yield_once`, in a trap handler; the time its `wfi` waits passes afterwards. -/
  | yieldOnce
  /-- `set_period`. -/
  | setPeriod (p : Usize)
  /-- A trap clears `sstatus.SIE`, and its return restores it. -/
  | mask (sie : Bool)
  deriving DecidableEq, Repr

/-- One step, with the clock and the periods below `2 ^ 63`. -/
inductive Step (platform : Platform) : Hart → Event → Hart → Prop where
  | pass {h : Hart} {n : Nat} : h.time.toNat + n < 2 ^ 63 → Step platform h (.pass n) { h with time := h.time + BitVec.ofNat 64 n }
  | interrupt {h : Hart} {t : State} {deadline : Usize} : h.stie = true → h.sie = true → h.pending →
      onInterrupt platform h.time h.timer = .ok (t, deadline) → Step platform h .interrupt { h with timer := t, deadline }
  | yieldOnce {h : Hart} {deadline : Usize} : h.stie = platform.stie → h.sie = false →
      yieldOnce platform h.time h.timer = .ok deadline → Step platform h .yieldOnce { h with deadline }
  | setPeriod {h : Hart} {t : State} {p deadline : Usize} : p.toNat < 2 ^ 63 → setPeriod platform h.time p h.timer = .ok (t, deadline) →
      Step platform h (.setPeriod p) { h with timer := t, deadline }
  | mask {h : Hart} {sie : Bool} : Step platform h (.mask sie) { h with sie }

/-- The hart as `init` leaves it at time `now`: armed, then enabled. -/
def Hart.boot (now : Usize) : Hart := ⟨now, now + period, true, true, .boot⟩

def interrupts (l : List Event) : Nat := l.count .interrupt

def AtLeast (p : Nat) (l : List Event) : Prop := ∀ q, Event.setPeriod q ∈ l → p ≤ q.toNat

structure Paced (start p n : Nat) (h : Hart) : Prop where
  low : h.time.toNat < 2 ^ 63
  period : p ≤ h.timer.periodNow.toNat ∧ h.timer.periodNow.toNat < 2 ^ 63
  count : h.timer.ticks = BitVec.ofNat 64 n
  elapsed : start + n * p ≤ h.time.toNat
  deadline : start + (n + 1) * p ≤ h.deadline.toNat

section
variable {platform : Platform} {h h' : Hart} {start p n : Nat}

theorem armed_toNat (low : h.time.toNat < 2 ^ 63) (period : h.timer.periodNow.toNat < 2 ^ 63) :
    (h.time + h.timer.periodNow).toNat = h.time.toNat + h.timer.periodNow.toNat := by
  rw [BitVec.toNat_add, Nat.mod_eq_of_lt (by omega)]

theorem Paced.step {e : Event} (paced : Paced start p n h) (step : Step platform h e h') (slow : AtLeast p [e]) :
    Paced start p (n + interrupts [e]) h' := by
  obtain ⟨low, period, count, elapsed, deadline⟩ := paced
  have next : (n + 1) * p = n * p + p := Nat.succ_mul n p
  have after : (n + 1 + 1) * p = (n + 1) * p + p := Nat.succ_mul (n + 1) p
  cases step with
  | pass bound =>
    rename_i d
    have time : (h.time + BitVec.ofNat 64 d).toNat = h.time.toNat + d := by
      rw [BitVec.toNat_add, BitVec.toNat_ofNat, Nat.mod_eq_of_lt (by omega), Nat.mod_eq_of_lt (by omega)]
    refine ⟨?_, period, count, ?_, deadline⟩
    · dsimp only
      rw [time]
      exact bound
    · dsimp only
      rw [time]
      exact Nat.le_trans elapsed (Nat.le_add_right _ _)
  | interrupt enabled unmasked pending done =>
    -- the clock has reached the old deadline, and the new one is a period ahead of it
    obtain ⟨d, armed, same⟩ := of_bind_ok done
    obtain ⟨rfl, rfl⟩ := Prod.mk.inj (Except.ok.inj same)
    have reached : h.deadline.toNat ≤ h.time.toNat := BitVec.le_def.mp pending
    have ahead := armed_toNat low period.2
    rw [← arm_deadline armed] at ahead
    refine ⟨low, period, ?_, ?_, ?_⟩
    · dsimp only
      rw [count, BitVec.ofNat_add]
      rfl
    · change start + (n + 1) * p ≤ _
      exact Nat.le_trans deadline reached
    · change start + (n + 1 + 1) * p ≤ d.toNat
      omega
  | yieldOnce enabled masked done =>
    rename_i d
    obtain ⟨-, armed⟩ := seq_ok.mp done
    have ahead := armed_toNat low period.2
    rw [← arm_deadline armed] at ahead
    refine ⟨low, period, count, elapsed, ?_⟩
    change start + (n + 1) * p ≤ d.toNat
    omega
  | setPeriod bound done =>
    rename_i t q d
    obtain ⟨-, done⟩ := check_eq_ok done
    obtain ⟨d', armed, same⟩ := of_bind_ok done
    obtain ⟨rfl, rfl⟩ := Prod.mk.inj (Except.ok.inj same)
    have least : p ≤ q.toNat := slow q List.mem_cons_self
    have ahead := armed_toNat (h := { h with timer := ⟨q, h.timer.ticks⟩ }) low bound
    rw [← arm_deadline armed] at ahead
    refine ⟨low, ⟨least, bound⟩, count, elapsed, ?_⟩
    change start + (n + 1) * p ≤ d'.toNat
    dsimp only at ahead
    omega
  | mask => exact ⟨low, period, count, elapsed, deadline⟩

theorem paced_boot {now : Usize} (early : now.toNat < 2 ^ 63) (short : p ≤ period.toNat) : Paced now.toNat p 0 (.boot now) := by
  have ahead : (now + period).toNat = now.toNat + period.toNat := by
    rw [BitVec.toNat_add, Nat.mod_eq_of_lt (Nat.lt_of_lt_of_le (Nat.add_lt_add early (by decide : period.toNat < 2 ^ 63)) (by decide))]
  refine ⟨early, ⟨short, (by decide : period.toNat < 2 ^ 63)⟩, rfl, ?_, ?_⟩
  · rw [Nat.zero_mul]
    exact Nat.le_refl _
  · change now.toNat + (0 + 1) * p ≤ (now + period).toNat
    rw [ahead]
    omega

end

section
variable {platform : Platform} {now : Usize}

/-- The trap handler's interrupt is `on_interrupt` at the period of the boot. -/
theorem onInterrupt_kernel {env : Env} {k k' : Kernel} : k.onInterrupt platform env = .ok k' ↔
    ∃ t d, onInterrupt platform env.now ⟨period, k.ticks⟩ = .ok (t, d) ∧ k' = { k with ticks := t.ticks } := by
  have same : onInterrupt platform env.now ⟨period, k.ticks⟩ =
      if platform.setTimer (env.now + Net.period) = true then .ok (⟨period, k.ticks + 1⟩, env.now + period)
      else .error (.panic .setTimer) := by
    change (if ¬ platform.setTimer (env.now + Net.period) = true then _ else _) >>= _ = _
    by_cases set : platform.setTimer (env.now + Net.period) = true
    · rw [if_neg (not_not.mpr set), if_pos set]
      rfl
    · rw [if_pos set, if_neg set]
      rfl
  rw [same, Kernel.onInterrupt]
  by_cases set : platform.setTimer (env.now + Net.period) = true
  · rw [if_pos set, if_pos set]
    constructor
    · rintro ⟨⟩
      exact ⟨_, _, rfl, rfl⟩
    · rintro ⟨t, d, ⟨⟩, rfl⟩
      rfl
  · rw [if_neg set, if_neg set]
    constructor
    · rintro ⟨⟩
    · rintro ⟨t, d, ⟨⟩, -⟩

/-- The response path's yield is `yield_once` at that period. -/
theorem yieldOnce_net {n : Usize} : Net.yieldOnce platform now = .ok () ↔ ∃ d, yieldOnce platform now ⟨period, n⟩ = .ok d := by
  rw [Net.yieldOnce, yieldOnce, assertTicksArmed]
  by_cases armed : platform.stie = true
  · by_cases set : platform.setTimer (now + Net.period) = true
    · have done : arm platform now ⟨period, n⟩ = .ok (now + period) := if_neg (not_not.mpr set)
      rw [if_neg (not_not.mpr armed), if_neg (not_not.mpr set), if_neg (not_not.mpr armed)]
      exact ⟨fun _ => ⟨_, done⟩, fun _ => rfl⟩
    · have failed : arm platform now ⟨period, n⟩ = .error (.panic .setTimer) := if_pos set
      rw [if_neg (not_not.mpr armed), if_pos set, if_neg (not_not.mpr armed)]
      constructor
      · intro done
        cases done
      · rintro ⟨d, done⟩
        cases failed.symm.trans done
  · rw [if_pos armed, if_pos armed]
    constructor
    · intro done
      cases done
    · rintro ⟨d, done⟩
      cases done

end

end Whimbrel.Timer

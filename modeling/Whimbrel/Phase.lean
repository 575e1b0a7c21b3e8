import Whimbrel.Base
import Whimbrel.Lib.Sort
import Whimbrel.Lib.Text

/-! Phase timestamps on the serial console: `src/phase.rs`. -/

set_option autoImplicit false

namespace Whimbrel.Phase

open Text

abbrev Slot := Fin 22

def start : Slot := 0
def stampA : Slot := 1
def stampB : Slot := 2
def e3g : Slot := 20

def names : Vector String 22 := #v["_start", "stamp_a", "stamp_b", "stvec", "frame_init", "task_init", "page_build",
  "page_verify", "activate", "virtq_init", "DRIVER_OK", "first_rx", "serving_ready", "net_init_done", "heap_init",
  "accounting", "freeze", "sret", "syn_rx", "established", "E3g", "E3g_doorbell"]

def name (i : Slot) : Line := (names.get i).toList

/-- `PHASE_STAMPS`; zero is unset. -/
abbrev Stamps := Slot → Usize

def tickNs : Usize := 100

def header : Line := "PHASE ticks (10 MHz, 100 ns/tick); ns = ticks * 100".toList

def unsetLine (i : Slot) : Line := "PHASE ".toList ++ name i ++ " unset".toList

def rowLine (i : Slot) (t since0 delta : Usize) : Line :=
  "PHASE ".toList ++ name i ++ " ticks=".toList ++ decimal t.toNat ++ " ns=".toList ++ decimal (t * tickNs).toNat ++
    " since_start=".toList ++ decimal since0.toNat ++ " ns=".toList ++ decimal (since0 * tickNs).toNat ++
    " delta=".toList ++ decimal delta.toNat ++ " ns=".toList ++ decimal (delta * tickNs).toNat

/-- The rows of `order`, each with the time since the one before. -/
def printRows (stamps : Stamps) (t0 last : Usize) : List Slot → List Line
  | [] => []
  | i :: order => rowLine i (stamps i) (stamps i - t0) (stamps i - last) :: printRows stamps t0 (stamps i) order

def sortedOrder (stamps : Stamps) : List Slot :=
  InsertionSort.sort (fun i => (stamps i).toNat) ((List.finRange 22).filter (stamps · ≠ 0))

/-- `PRINTED` and the lines. -/
def printAfterResponse (printed : Bool) (stamps : Stamps) : Bool × List Line :=
  if printed then (printed, [])
  else if stamps e3g = 0 then (printed, [])
  else
    let unset := (List.finRange 22).filter (stamps · = 0)
    (true, header :: unset.map unsetLine ++ printRows stamps (stamps start) (stamps start) (sortedOrder stamps))

section
variable {stamps : Stamps}

theorem sortedOrder_spec (nonzero : ∀ i, stamps i ≠ 0) :
    (sortedOrder stamps).Perm (List.finRange 22) ∧
    (sortedOrder stamps).Pairwise fun a b => stamps a < stamps b ∨ stamps a = stamps b ∧ a < b := by
  have all : (List.finRange 22).filter (stamps · ≠ 0) = List.finRange 22 :=
    List.filter_eq_self.mpr fun i _ => decide_eq_true (nonzero i)
  obtain ⟨sorted, perm⟩ := @InsertionSort.sort_stable _ _ _ (fun i => (stamps i).toNat) (· < ·) (List.finRange 22)
    (List.pairwise_lt_finRange 22)
  rw [sortedOrder, all]
  refine ⟨perm, sorted.imp fun {a b} before => ?_⟩
  rw [BitVec.lt_def, ← BitVec.toNat_inj]
  exact before

/-- The first stamp leads, also among equals. -/
theorem sortedOrder_head (nonzero : ∀ i, stamps i ≠ 0) (first : ∀ i, stamps start ≤ stamps i) :
    (sortedOrder stamps).head? = some start := by
  obtain ⟨perm, sorted⟩ := sortedOrder_spec nonzero
  have mem : start ∈ sortedOrder stamps := perm.mem_iff.mpr (List.mem_finRange start)
  cases shape : sortedOrder stamps with
  | nil =>
    rw [shape] at mem
    exact absurd mem List.not_mem_nil
  | cons i rest =>
    rw [shape] at sorted mem
    rcases List.mem_cons.mp mem with rfl | later
    · rfl
    · rcases (List.pairwise_cons.mp sorted).1 start later with smaller | ⟨-, earlier⟩
      · exact absurd (first i) (BitVec.not_le.mpr smaller)
      · exact absurd earlier (Nat.not_lt_zero _)

theorem printAfterResponse_eq (nonzero : ∀ i, stamps i ≠ 0) :
    printAfterResponse false stamps =
      (true, header :: printRows stamps (stamps start) (stamps start) (sortedOrder stamps)) := by
  have none : (List.finRange 22).filter (stamps · = 0) = [] :=
    List.filter_eq_nil_iff.mpr fun i _ zero => nonzero i (of_decide_eq_true zero)
  rw [printAfterResponse, if_neg Bool.false_ne_true, if_neg (nonzero e3g), none]
  rfl

end

end Whimbrel.Phase

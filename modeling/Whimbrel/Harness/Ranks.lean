import Mathlib.Data.List.FinRange
import Whimbrel.Lib.Ranks
import Whimbrel.Lib.SortBy

/-! The ranks of `scripts/bench.py` behind its drift correlation.

`averageRanks` walks over the positions of a sorted list of indices. Its values are exact;
`none` is a loop that has not ended or an index out of range. -/

set_option autoImplicit false

namespace Whimbrel.Bench

open Ranks SortBy

/-- The inner `while`: the last position of the ties that begin at `i`. -/
def tieEnd (vals : List ℚ) (order : List Nat) (i : Nat) : Nat → Nat → Option Nat
  | 0, _ => none
  | fuel + 1, j =>
    if j + 1 < vals.length then do
      let next ← vals[← order[j + 1]?]?
      let first ← vals[← order[i]?]?
      if next = first then tieEnd vals order i fuel (j + 1) else some j
    else some j

def setRank (order : List Nat) (avg : ℚ) (ranks : List ℚ) (k : Nat) : Option (List ℚ) := do
  let t ← order[k]?
  if t < ranks.length then some (ranks.set t avg) else none

def rankLoop (vals : List ℚ) (order : List Nat) : Nat → Nat → List ℚ → Option (List ℚ)
  | 0, _, _ => none
  | fuel + 1, i, ranks =>
    if i < vals.length then do
      let j ← tieEnd vals order i vals.length i
      let avg : ℚ := (i + j) / 2 + 1
      let ranks ← (List.range' i (j + 1 - i)).foldlM (setRank order avg) ranks
      rankLoop vals order fuel (j + 1) ranks
    else some ranks

def sortedIndices (vals : List ℚ) : List Nat := sortBy (fun i => vals.getD i 0) (List.range vals.length)

/-- The outer loop makes at most `n` rounds and the inner one at most `n` in each. -/
def averageRanks (vals : List ℚ) : Option (List ℚ) :=
  rankLoop vals (sortedIndices vals) (vals.length + 1) 0 (List.replicate vals.length 0)

section
variable {vals : List ℚ} {order : List Nat} {ranks : List ℚ}

structure Sorted (vals : List ℚ) (order : List Nat) : Prop where
  perm : order.Perm (List.range vals.length)
  rising : order.Pairwise fun a b => vals.getD a 0 ≤ vals.getD b 0

theorem sortedIndices_sorted (vals : List ℚ) : Sorted vals (sortedIndices vals) where
  perm := sortBy_perm _ _
  rising := sortBy_sorted _ _

theorem Sorted.length (sorted : Sorted vals order) : order.length = vals.length := by
  rw [sorted.perm.length_eq, List.length_range]

theorem Sorted.lt (sorted : Sorted vals order) {t : Nat} (mem : t ∈ order) : t < vals.length :=
  List.mem_range.mp (sorted.perm.mem_iff.mp mem)

theorem Sorted.value (sorted : Sorted vals order) {t : Nat} (mem : t ∈ order) : vals[t]? = some (vals.getD t 0) := by
  have inside := sorted.lt mem
  rw [List.getD_eq_getElem?_getD, List.getElem?_eq_getElem inside]
  rfl

theorem Sorted.values (sorted : Sorted vals order) : vals.Perm (order.map fun i => vals.getD i 0) := by
  have whole : (List.range vals.length).map (fun i => vals.getD i 0) = vals := by
    apply List.ext_getElem?
    intro i
    by_cases inside : i < vals.length
    · simp [inside]
    · simp [inside]
  have moved := (sorted.perm.map fun i => vals.getD i 0).symm
  rwa [whole] at moved

theorem tieEnd_spec (sorted : Sorted vals order) {done mid rest : List Nat} {a fuel : Nat}
    (split : order = done ++ a :: (mid ++ rest)) (ties : ∀ b ∈ mid, vals.getD b 0 = vals.getD a 0)
    (enough : rest.length < fuel) : ∃ more later, rest = more ++ later ∧
      tieEnd vals order done.length fuel (done.length + mid.length) = some (done.length + mid.length + more.length) ∧
      (∀ b ∈ more, vals.getD b 0 = vals.getD a 0) ∧ ∀ b ∈ later.head?, vals.getD b 0 ≠ vals.getD a 0 := by
  have size := sorted.length
  -- each round moves the head of `rest` to the end of `mid`
  induction rest generalizing mid fuel with
  | nil =>
    obtain ⟨fuel, rfl⟩ := Nat.exists_eq_succ_of_ne_zero (Nat.ne_zero_of_lt enough)
    refine ⟨[], [], rfl, ?_, by simp, by simp⟩
    have last : ¬ done.length + mid.length + 1 < vals.length := by
      rw [← size, split]
      simp
      omega
    rw [tieEnd, if_neg last]
    rfl
  | cons b rest ih =>
    obtain ⟨fuel, rfl⟩ := Nat.exists_eq_succ_of_ne_zero (Nat.ne_zero_of_lt enough)
    have more : done.length + mid.length + 1 < vals.length := by
      rw [← size, split]
      simp
      omega
    have next : order[done.length + mid.length + 1]? = some b := by
      rw [split]
      simp [Nat.add_assoc]
    have first : order[done.length]? = some a := by
      rw [split]
      simp
    have inside : b ∈ order ∧ a ∈ order := by
      rw [split]
      simp
    rw [tieEnd, if_pos more, next, first]
    simp only [Option.bind_eq_bind, Option.bind_some, sorted.value inside.1, sorted.value inside.2]
    by_cases tie : vals.getD b 0 = vals.getD a 0
    · rw [if_pos tie]
      have longer : ∀ c ∈ mid ++ [b], vals.getD c 0 = vals.getD a 0 := by
        intro c mem
        rcases List.mem_append.mp mem with old | new
        · exact ties c old
        · rwa [List.mem_singleton.mp new]
      have moved : order = done ++ a :: (mid ++ [b] ++ rest) := by
        rw [split, List.append_assoc, List.singleton_append]
      obtain ⟨more, later, whole, found, same, stop⟩ := ih moved longer (Nat.lt_of_succ_lt_succ enough)
      refine ⟨b :: more, later, by rw [whole, List.cons_append], ?_, ?_, stop⟩
      · rw [List.length_append, List.length_singleton, ← Nat.add_assoc] at found
        rw [found, List.length_cons]
        congr 1
        omega
      · intro c mem
        rcases List.mem_cons.mp mem with rfl | old
        · exact tie
        · exact same c old
    · rw [if_neg tie]
      refine ⟨[], b :: rest, rfl, rfl, by simp, ?_⟩
      intro c mem
      cases mem
      exact tie

theorem setRanks_spec {avg : ℚ} {group : List Nat} {done later : List Nat} (split : order = done ++ (group ++ later))
    (inside : ∀ t ∈ group, t < ranks.length) :
    ∃ ranks', (List.range' done.length group.length).foldlM (setRank order avg) ranks = some ranks' ∧
      ranks'.length = ranks.length ∧ (∀ t ∈ group, ranks'[t]? = some avg) ∧ ∀ t ∉ group, ranks'[t]? = ranks[t]? := by
  induction group generalizing done ranks with
  | nil => exact ⟨ranks, rfl, rfl, by simp, fun _ _ => rfl⟩
  | cons a group ih =>
    have here : order[done.length]? = some a := by
      rw [split]
      simp
    have fits : a < ranks.length := inside a List.mem_cons_self
    have moved : order = (done ++ [a]) ++ (group ++ later) := by
      rw [split]
      simp
    have others : ∀ t ∈ group, t < (ranks.set a avg).length := by
      intro t mem
      rw [List.length_set]
      exact inside t (List.mem_cons_of_mem a mem)
    obtain ⟨ranks', filled, length, group', rest⟩ := ih moved others
    rw [List.length_append, List.length_singleton] at filled
    rw [List.length_set] at length
    refine ⟨ranks', ?_, length, ?_, ?_⟩
    · rw [List.length_cons, List.range'_succ, List.foldlM_cons, setRank, here]
      simp only [Option.bind_eq_bind, Option.bind_some, if_pos fits]
      exact filled
    · intro t mem
      -- An index that comes again is overwritten with the same average.
      by_cases again : t ∈ group
      · exact group' t again
      · have same : t = a := (List.mem_cons.mp mem).resolve_right again
        rw [rest t again, same, List.getElem?_set_self fits]
    · intro t other
      rw [List.mem_cons, not_or] at other
      rw [rest t other.2, List.getElem?_set_ne (Ne.symm other.1)]

structure Ranked (vals : List ℚ) (done : List Nat) (ranks : List ℚ) : Prop where
  length : ranks.length = vals.length
  ranked : ∀ t ∈ done, ranks[t]? = some (midRank vals (vals.getD t 0))

theorem Sorted.above (sorted : Sorted vals order) {done more later : List Nat} {a : Nat}
    (split : order = done ++ a :: (more ++ later)) (stop : ∀ b ∈ later.head?, vals.getD b 0 ≠ vals.getD a 0) :
    ∀ b ∈ later, vals.getD a 0 < vals.getD b 0 := by
  have rising := sorted.rising
  rw [split] at rising
  have rising := (List.pairwise_append.mp rising).2.1
  obtain ⟨least, rising⟩ := List.pairwise_cons.mp rising
  have rising := (List.pairwise_append.mp rising).2.1
  cases later with
  | nil => simp
  | cons c later =>
    have first : vals.getD a 0 < vals.getD c 0 :=
      lt_of_le_of_ne (least c (by simp)) (Ne.symm (stop c rfl))
    intro b mem
    rcases List.mem_cons.mp mem with rfl | old
    · exact first
    · exact lt_of_lt_of_le first ((List.pairwise_cons.mp rising).1 b old)

theorem Sorted.midRank_eq (sorted : Sorted vals order) {done more later : List Nat} {a : Nat}
    (split : order = done ++ a :: (more ++ later)) (lower : ∀ c ∈ done, vals.getD c 0 < vals.getD a 0)
    (ties : ∀ b ∈ more, vals.getD b 0 = vals.getD a 0) (above : ∀ b ∈ later, vals.getD a 0 < vals.getD b 0) :
    midRank vals (vals.getD a 0) = (done.length + (done.length + more.length : Nat) : ℚ) / 2 + 1 := by
  have values : vals.Perm (done.map (fun i => vals.getD i 0) ++ (a :: more).map (fun i => vals.getD i 0) ++
      later.map fun i => vals.getD i 0) := by
    have all := sorted.values
    rw [split] at all
    simpa using all
  have rank := midRank_of_perm values (List.forall_mem_map.mpr lower)
    (List.forall_mem_map.mpr (List.forall_mem_cons.mpr ⟨rfl, ties⟩)) (List.forall_mem_map.mpr above)
  rw [rank, List.length_map, List.length_map, List.length_cons]
  push_cast
  ring

/-- From a position where a new value begins, the outer loop ranks the rest. -/
theorem rankLoop_spec (sorted : Sorted vals order) {done todo : List Nat} {fuel : Nat} (split : order = done ++ todo)
    (ranked : Ranked vals done ranks) (apart : ∀ c ∈ done, ∀ b ∈ todo, vals.getD c 0 < vals.getD b 0)
    (enough : todo.length < fuel) :
    ∃ ranks', rankLoop vals order fuel done.length ranks = some ranks' ∧ Ranked vals order ranks' := by
  -- `done` is made of whole groups of ties, so the next index begins a new value
  induction fuel generalizing done todo ranks with
  | zero => exact absurd enough (Nat.not_lt_zero _)
  | succ fuel ih =>
    have size := sorted.length
    cases todo with
    | nil =>
      rw [List.append_nil] at split
      have finished : ¬ done.length < vals.length := by
        rw [← size, split]
        exact Nat.lt_irrefl _
      refine ⟨ranks, ?_, split ▸ ranked⟩
      rw [rankLoop, if_neg finished]
    | cons a rest =>
      have more : done.length < vals.length := by
        rw [← size, split]
        simp
      have few : rest.length < vals.length := by
        rw [← size, split]
        simp
        omega
      obtain ⟨ties, later, whole, found, same, stop⟩ := @tieEnd_spec vals order sorted done [] rest a vals.length split (by simp) few
      rw [whole] at split
      have above := sorted.above split stop
      have rank := sorted.midRank_eq split (fun c mem => apart c mem a List.mem_cons_self) same above
      have inside : ∀ t ∈ a :: ties, t < ranks.length := by
        intro t mem
        rw [ranked.length]
        apply sorted.lt
        rw [split, ← List.cons_append]
        exact List.mem_append_right _ (List.mem_append_left _ mem)
      obtain ⟨ranks', filled, length, group, others⟩ := setRanks_spec split inside
      -- the group joins what is done
      have joined : Ranked vals (done ++ a :: ties) ranks' := by
        refine ⟨length.trans ranked.length, fun t mem => ?_⟩
        by_cases tied : t ∈ a :: ties
        · have value : vals.getD t 0 = vals.getD a 0 := by
            rcases List.mem_cons.mp tied with rfl | old
            · rfl
            · exact same t old
          rw [group t tied, value, rank]
        · rw [others t tied]
          exact ranked.ranked t ((List.mem_append.mp mem).resolve_right tied)
      have apart' : ∀ c ∈ done ++ a :: ties, ∀ b ∈ later, vals.getD c 0 < vals.getD b 0 := by
        intro c mem b after
        rcases List.mem_append.mp mem with old | new
        · exact apart c old b (by rw [whole]; simp [after])
        · rcases List.mem_cons.mp new with rfl | tied
          · exact above b after
          · rw [same c tied]
            exact above b after
      have shorter : later.length < fuel := by
        rw [whole] at enough
        simp at enough
        omega
      have moved : order = done ++ a :: ties ++ later := by
        rw [split]
        simp
      obtain ⟨final, looped, all⟩ := ih moved joined apart' shorter
      refine ⟨final, ?_, all⟩
      have next : (done ++ a :: ties).length = done.length + ties.length + 1 := by
        simp
        omega
      have count : done.length + ties.length + 1 - done.length = (a :: ties).length := by
        simp
        omega
      rw [rankLoop, if_pos more]
      simp only [List.length_nil, Nat.add_zero] at found
      rw [found]
      simp only [Option.bind_eq_bind, Option.bind_some]
      rw [count, filled, ← next]
      exact looped

/-- Every index gets the mid-rank of its value. -/
theorem averageRanks_eq (vals : List ℚ) : averageRanks vals = some (vals.map (midRank vals)) := by
  have sorted := sortedIndices_sorted vals
  have start : Ranked vals [] (List.replicate vals.length 0) := ⟨List.length_replicate, by simp⟩
  obtain ⟨ranks, done, ranked⟩ := rankLoop_spec sorted (List.nil_append _).symm start (by simp)
    (Nat.lt_succ_of_le (Nat.le_of_eq sorted.length))
  rw [averageRanks]
  refine done.trans (congrArg some ?_)
  apply List.ext_getElem?
  intro i
  by_cases inside : i < vals.length
  · rw [ranked.ranked i (sorted.perm.mem_iff.mpr (List.mem_range.mpr inside))]
    simp [inside]
  · rw [List.getElem?_eq_none (by rw [ranked.length]; exact Nat.not_lt.mp inside),
      List.getElem?_eq_none (by rw [List.length_map]; exact Nat.not_lt.mp inside)]

end

/-! ## Mid-ranks -/

theorem averageRanks_midRanks (v : List ℚ) : ∃ ranks, averageRanks v = some ranks ∧ ranks.length = v.length ∧
    (∀ i : Fin v.length, ranks[i.val]? = some ((v.countP (· < v.get i) : ℚ) + (v.countP (· = v.get i) + 1) / 2)) ∧
    (∀ i j : Fin v.length, v.get i = v.get j → ranks[i.val]? = ranks[j.val]?) ∧
    ranks.sum = v.length * (v.length + 1) / 2 ∧
    (∀ σ : Equiv.Perm (Fin v.length),
      averageRanks (List.ofFn fun i => v.get (σ i)) = some (List.ofFn fun i => ranks.getD (σ i) 0)) ∧
    ∀ f : ℚ → ℚ, StrictMonoOn f {x | x ∈ v} → averageRanks (v.map f) = some ranks := by
  have read (i : Fin v.length) : (v.map (midRank v))[i.val]? = some (midRank v (v.get i)) := by
    simp
  refine ⟨v.map (midRank v), averageRanks_eq v, List.length_map _, ?_, ?_, sum_midRank v, ?_, ?_⟩
  · intro i
    rw [read i]
    rfl
  · intro i j same
    rw [read i, read j, same]
  · intro σ
    -- A mid-rank depends on the values as a multiset only.
    have perm : (List.ofFn fun i => v.get (σ i)).Perm v := by
      have moved := Equiv.Perm.ofFn_comp_perm σ v.get
      rwa [List.ofFn_get] at moved
    rw [averageRanks_eq, List.map_ofFn]
    congr 2
    funext i
    rw [Function.comp_apply, midRank_perm perm, List.getD_eq_getElem?_getD, read (σ i)]
    rfl
  · intro f rising
    rw [averageRanks_eq, List.map_map]
    congr 1
    apply List.map_congr_left
    intro x mem
    exact midRank_map rising mem

example : averageRanks [3, 1, 3, 2] = some [7 / 2, 1, 7 / 2, 2] := by decide +kernel

end Whimbrel.Bench

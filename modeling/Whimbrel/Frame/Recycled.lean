import Whimbrel.Frame

/-! What `check_recycled` catches: `src/frame.rs`.

`free_frame` compares with the head only. A frame freed while it is further down
the recycled list closes a cycle through it, and no later free opens the cycle. -/

set_option autoImplicit false

namespace Whimbrel.Frame

open Checked Linked

/-- The `while` loop of `check_recycled`, at most `fuel` iterations of its body; `none` if it would go on. -/
def checkLoop (s : State) : Nat → Nat → Usize → Option (Result Nat)
  | 0, n, pa => if pa = 0 then some (.ok n) else none
  | fuel + 1, n, pa =>
    if pa = 0 then some (.ok n)
    else if n + 1 > s.recycled + 1 then some (.error .recycledCyclic)
    else checkLoop s fuel (n + 1) (s.word pa)

def Listed (s : State) (pa : Usize) : Prop := ∃ l, Path s.word s.head l pa ∧ 0 ∉ l ∧ pa ≠ 0

/-- The frames `free_frame` takes for managed ones that were handed out. -/
def Managed (s : State) (pa : Usize) : Prop := pa.toNat % pageSize = 0 ∧ s.heapEnd ≤ pa ∧ pa < s.bump

section
variable {s s' t : State} {pa : Usize} {l m pas : List Usize} {n : Nat}

/-- The loop ends within `recycled + 2` iterations, as the recursion on the nodes left does. -/
theorem checkLoop_eq {left : Nat} (visited : n + left = s.recycled + 1) :
    checkLoop s (left + 1) n pa = some ((n + ·) <$> countFrom s.word pa left) := by
  induction left generalizing n pa with
  | zero =>
    unfold checkLoop countFrom
    by_cases last : pa = 0
    · rw [if_pos last, if_pos last]
      rfl
    · rw [if_neg last, if_neg last, if_pos (by omega)]
      rfl
  | succ left ih =>
    unfold checkLoop countFrom
    by_cases last : pa = 0
    · rw [if_pos last, if_pos last]
      rfl
    · rw [if_neg last, if_neg last, if_neg (by omega), ih (by omega)]
      dsimp only
      cases countFrom s.word (s.word pa) left with
      | error e => rfl
      | ok k =>
        have sum : n + 1 + k = n + (k + 1) := by omega
        exact congrArg (fun k => some (Except.ok k)) sum

theorem chain_of_countFrom {word : Usize → Usize} {left : Nat} (counted : countFrom word pa left = .ok n) :
    ∃ l, Chain word 0 pa l ∧ l.length = n := by
  induction left generalizing pa n with
  | zero =>
    unfold countFrom at counted
    split at counted
    · rename_i last
      cases counted
      exact ⟨[], last ▸ .nil, rfl⟩
    · cases counted
  | succ left ih =>
    unfold countFrom at counted
    split at counted
    · rename_i last
      cases counted
      exact ⟨[], last ▸ .nil, rfl⟩
    · rename_i more
      obtain ⟨k, rest, rfl⟩ := map_eq_ok counted
      obtain ⟨l, chain, rfl⟩ := ih rest
      exact ⟨pa :: l, Chain.cons_iff.mpr ⟨rfl, more, chain⟩, rfl⟩

/-- A check that passes has visited the whole list. -/
theorem chain_of_checkRecycled (passed : checkRecycled s = .ok ()) : ∃ l, Chain s.word 0 s.head l ∧ l.length = s.recycled := by
  obtain ⟨n, counted, passed⟩ := bind_eq_ok passed
  obtain ⟨same, -⟩ := check_eq_ok passed
  obtain ⟨l, chain, length⟩ := chain_of_countFrom counted
  exact ⟨l, chain, length.trans (not_not.mp same)⟩

theorem Chain.mem_of_listed (chain : Chain s.word 0 s.head l) (listed : Listed s pa) : pa ∈ l := by
  obtain ⟨before, path, nonzero, inside⟩ := listed
  generalize s.head = a at chain path
  induction before generalizing a l with
  | nil =>
    obtain rfl : a = pa := path
    cases l with
    | nil => exact absurd chain.1 inside
    | cons b l => exact (Chain.cons_iff.mp chain).1 ▸ List.mem_cons_self
  | cons b before ih =>
    obtain ⟨rfl, rest⟩ := path
    obtain ⟨here, later⟩ := List.ne_and_not_mem_of_not_mem_cons nonzero
    cases l with
    | nil => exact absurd chain.1.symm here
    | cons c l =>
      obtain ⟨rfl, -, tail⟩ := Chain.cons_iff.mp chain
      exact List.mem_cons_of_mem _ (ih later _ tail rest)

theorem freeFrame_eq (ran : freeFrame s pa = .ok s') :
    pa ≠ s.head ∧ s' = { s with word := Function.update s.word pa s.head, head := pa, recycled := s.recycled + 1 } := by
  obtain ⟨-, ran⟩ := check_eq_ok ran
  obtain ⟨-, ran⟩ := check_eq_ok ran
  obtain ⟨-, ran⟩ := check_eq_ok ran
  obtain ⟨other, ran⟩ := check_eq_ok ran
  cases ran
  exact ⟨other, rfl⟩

/-- If the list ends after a free, it ended before and the frame was not on it. -/
theorem chain_of_freeFrame (ran : freeFrame s pa = .ok s') (nonzero : pa ≠ 0) (chain : Chain s'.word 0 s'.head l) :
    ∃ m, Chain s.word 0 s.head m ∧ pa ∉ m := by
  obtain ⟨-, rfl⟩ := freeFrame_eq ran
  have nodup := chain.nodup
  cases l with
  | nil => exact absurd chain.1 nonzero
  | cons b m =>
    obtain ⟨rfl, -, rest⟩ := Chain.cons_iff.mp chain
    dsimp only at rest
    rw [Function.update_self] at rest
    have fresh := (List.nodup_cons.mp nodup).1
    refine ⟨m, rest.congr fun c mem => (Function.update_of_ne ?_ _ _).symm, fresh⟩
    rintro rfl
    exact fresh mem

theorem chain_of_frees (nonzero : 0 ∉ pas) (ran : pas.foldlM freeFrame s = .ok s') (chain : Chain s'.word 0 s'.head l) :
    ∃ m, Chain s.word 0 s.head m := by
  induction pas generalizing s with
  | nil =>
    cases ran
    exact ⟨l, chain⟩
  | cons pa pas ih =>
    obtain ⟨here, later⟩ := List.ne_and_not_mem_of_not_mem_cons nonzero
    rw [List.foldlM_cons] at ran
    obtain ⟨t, first, rest⟩ := bind_eq_ok ran
    obtain ⟨k, chain'⟩ := ih later rest
    obtain ⟨m, before, -⟩ := chain_of_freeFrame first here.symm chain'
    exact ⟨m, before⟩

theorem freeFrame_cases (managed : Managed s pa) (below : s.bump.toNat ≤ ramEnd) (thawed : s.frozen = false) :
    freeFrame s pa = .error .frameDoubleFree ∨
    ∃ s', freeFrame s pa = .ok s' ∧ s'.heapEnd = s.heapEnd ∧ s'.bump = s.bump ∧ s'.frozen = false := by
  obtain ⟨aligned, lower, upper⟩ := managed
  have inRam : pa.toNat < ramEnd := Nat.lt_of_lt_of_le (BitVec.lt_def.mp upper) below
  by_cases first : pa = s.head
  · have ok : ¬ (pa.toNat % pageSize ≠ 0 ∨ pa < s.heapEnd ∨ pa.toNat ≥ ramEnd) := by
      rw [BitVec.le_def] at lower
      rw [BitVec.lt_def]
      omega
    rw [freeFrame, if_neg (by simp [thawed]), if_neg ok, if_neg (BitVec.not_le.mpr upper), if_pos first]
    exact .inl rfl
  · exact .inr ⟨_, freeFrame_managed thawed aligned lower inRam upper first, rfl, rfl, thawed⟩

/-- Frees of managed frames stop at a head freed again, or not at all. -/
theorem frees_cases (managed : ∀ pa ∈ pas, Managed s pa) (below : s.bump.toNat ≤ ramEnd) (thawed : s.frozen = false) :
    pas.foldlM freeFrame s = .error .frameDoubleFree ∨ ∃ s', pas.foldlM freeFrame s = .ok s' := by
  induction pas generalizing s with
  | nil => exact .inr ⟨s, rfl⟩
  | cons pa pas ih =>
    obtain ⟨first, rest⟩ := List.forall_mem_cons.mp managed
    rw [List.foldlM_cons]
    rcases freeFrame_cases first below thawed with failed | ⟨t, ran, heapEnd, bump, thawed'⟩
    · rw [failed]
      exact .inl rfl
    · rw [ran, bind_ok]
      refine ih (fun b mem => ?_) (bump ▸ below) thawed'
      rw [Managed, heapEnd, bump]
      exact rest b mem

end

/-- From a well-formed state, frees of managed frames of which one is already on the recycled list
stop at a head freed again, or leave a list that `check_recycled` rejects. Whatever memory holds,
the walk ends within `recycled + 2` iterations, and it passes only a list of `recycled` distinct frames that ends. -/
theorem checkRecycled_catches :
    (∀ (s : State) (out pas : List Usize), Inv s out → s.frozen = false → (∀ pa ∈ pas, Managed s pa) →
      ∀ (before after : List Usize) (pa : Usize) (t : State), pas = before ++ pa :: after →
        before.foldlM freeFrame s = .ok t → Listed t pa →
        pas.foldlM freeFrame s = .error .frameDoubleFree ∨
        ∃ s', pas.foldlM freeFrame s = .ok s' ∧ ∃ e, checkRecycled s' = .error e) ∧
    ∀ s : State, (∃ r, checkLoop s (s.recycled + 2) 0 s.head = some r ∧ r = countFrom s.word s.head (s.recycled + 1)) ∧
      (checkRecycled s = .ok () → ∃ l, Chain s.word 0 s.head l ∧ l.length = s.recycled ∧ l.Nodup) := by
  refine ⟨fun s out pas inv thawed managed before after pa t split first listed => ?_, fun s => ⟨?_, fun passed => ?_⟩⟩
  · obtain ⟨used, l, bound, bump, -⟩ := inv.frames
    have total := inv.total
    have nonzero : 0 ∉ pas := by
      intro mem
      have lower := (managed 0 mem).2.1
      have positive := inv.positive
      rw [BitVec.le_def] at lower
      exact absurd (Nat.lt_of_lt_of_le positive lower) (Nat.lt_irrefl 0)
    rcases frees_cases managed (by omega) thawed with failed | ⟨s', ran⟩
    · exact .inl failed
    · refine .inr ⟨s', ran, ?_⟩
      cases checked : checkRecycled s' with
      | error e => exact ⟨e, rfl⟩
      | ok u =>
        -- a list that ends now ended before the repeated free, and did not have the frame
        exfalso
        obtain ⟨m, chain, -⟩ := chain_of_checkRecycled checked
        rw [split, List.foldlM_append, first, bind_ok, List.foldlM_cons] at ran
        obtain ⟨t', freed, rest⟩ := bind_eq_ok ran
        rw [split, List.mem_append, not_or] at nonzero
        obtain ⟨here, later⟩ := List.ne_and_not_mem_of_not_mem_cons nonzero.2
        obtain ⟨k, chain'⟩ := chain_of_frees later rest chain
        obtain ⟨j, chain'', absent⟩ := chain_of_freeFrame freed here.symm chain'
        exact absent (Chain.mem_of_listed chain'' listed)
  · refine ⟨_, checkLoop_eq (by omega), ?_⟩
    cases countFrom s.word s.head (s.recycled + 1) with
    | error e => rfl
    | ok k => exact congrArg Except.ok (Nat.zero_add k)
  · obtain ⟨l, chain, length⟩ := chain_of_checkRecycled passed
    exact ⟨l, chain, length, chain.nodup⟩

def twoOut : State := ⟨0, 0x87ffe000, 0x87ffc000, 4, 0, false, fun _ => 0⟩

/-- Freeing the first frame, the second and the first again closes a cycle, which the walk reports. -/
theorem checkRecycled_catches_repeat : ∃ s' e,
    [0x87ffc000, 0x87ffd000, 0x87ffc000].foldlM freeFrame twoOut = .ok s' ∧ checkRecycled s' = .error e := by
  have inv : Inv twoOut [0x87ffc000, 0x87ffd000] :=
    ⟨by decide, by decide, by decide, 2, [], by decide, by decide, .nil, rfl, by decide +kernel⟩
  have managed : ∀ pa ∈ [0x87ffc000, 0x87ffd000, 0x87ffc000], Managed twoOut pa := by
    simp only [List.forall_mem_cons, List.not_mem_nil, false_imp_iff, implies_true, and_true, Managed]
    decide
  have two : (fun t => (t.head, t.word t.head)) <$> [0x87ffc000, 0x87ffd000].foldlM freeFrame twoOut =
      .ok (0x87ffd000, 0x87ffc000) := by decide +kernel
  obtain ⟨t, first, same⟩ := map_eq_ok two
  obtain ⟨head, next⟩ := Prod.mk.inj same
  rw [head] at next
  have listed : Listed t 0x87ffc000 := ⟨[0x87ffd000], ⟨head, next⟩, by decide, by decide⟩
  have all : (fun _ => ()) <$> [0x87ffc000, 0x87ffd000, 0x87ffc000].foldlM freeFrame twoOut = .ok () := by decide +kernel
  obtain ⟨s', ran, -⟩ := map_eq_ok all
  rcases checkRecycled_catches.1 twoOut _ _ inv rfl managed [0x87ffc000, 0x87ffd000] [] 0x87ffc000 t rfl first listed with
    failed | ⟨s'', ran', e, caught⟩
  · rw [failed] at ran
    cases ran
  · exact ⟨s'', e, ran', caught⟩

end Whimbrel.Frame

import Whimbrel.Page.Mapper
import Mathlib.Data.List.Nodup

/-! What the walker finds in the tables of a sequence of calls.

The position of a call is above the indices of an address exactly when the
address lies in the range of the call, so a walk ends at the leaf of the call
that covers the address. -/

set_option autoImplicit false

namespace Whimbrel.Page

open Checked Radix

def indices (va : Usize) : Nat → List Index
  | 0 => [indexAt va 0]
  | level + 1 => indexAt va (level + 1) :: indices va level

theorem indices_length (va : Usize) (level : Nat) : (indices va level).length = level + 1 := by
  induction level with
  | zero => rfl
  | succ level ih => rw [indices, List.length_cons, ih]

def leafPa (raw : U64) (va : Usize) (level : Nat) : Usize := (ptePpn raw <<< 12) ||| (va &&& (leafBytes level - 1))

structure Walkable (raw : U64) (level : Nat) : Prop where
  readable : Readable raw
  low : level ≤ 1
  aligned : level = 1 → ptePpn raw &&& 0x1ff = 0

section
variable {t : Tree} {s : Phys} {root a : Ppn} {p : List Index} {va : Usize} {level : Nat}

theorem walk_word (backs : Backs t s) (table : t.node p = some (.table a)) (va : Usize) (level : Nat) :
    s.word (frameAddr a + 8 * ((va >>> (12 + 9 * level)) &&& 0x1ff)) = entryWord (t.node (p ++ [indexAt va level])) := by
  rw [← backs.word table, cell, indexAt_setWidth]
  rfl

theorem walkFrom_leaf {table : Usize} {raw : U64} (walkable : Walkable raw level)
    (entry : s.word (table + 8 * ((va >>> (12 + 9 * level)) &&& 0x1ff)) = raw) :
    walkFrom s va level table = .ok (.mapped (leafPa raw va level) raw level) := by
  obtain ⟨⟨valid, read⟩, low, aligned⟩ := walkable
  unfold walkFrom
  dsimp only
  simp only [entry, pteBit_eq, valid, read]
  rw [if_neg (by simp), if_pos (by simp), if_neg (by simp), if_neg (by omega), if_neg (fun both => both.2 (aligned both.1))]
  rfl

theorem walkFrom_empty {table : Usize} (entry : s.word (table + 8 * ((va >>> (12 + 9 * level)) &&& 0x1ff)) = 0) :
    walkFrom s va level table = .ok (.unmapped level 0) := by
  unfold walkFrom
  dsimp only
  rw [entry]
  rfl

theorem walkFrom_pointer {table : Usize} {b : Ppn}
    (entry : s.word (table + 8 * ((va >>> (12 + 9 * (level + 1))) &&& 0x1ff)) = pointer b) :
    walkFrom s va (level + 1) table = walkFrom s va level (frameAddr b) := by
  have bit {k : Nat} (low : k < 10) := pointer_bit b low
  rw [walkFrom]
  simp only [entry, pteBit_eq]
  rw [bit (by decide), bit (by decide), bit (by decide), bit (by decide), bit (by decide), bit (by decide), bit (by decide),
    bit (by decide), ptePpn_pointer]
  rfl

theorem walkFrom_find (backs : Backs t s) (table : t.node p = some (.table a)) (va : Usize) (depth : p.length + level = 2)
    (leaves : ∀ {q raw}, t.node q = some (.leaf raw) → q.length ≤ 3 ∧ Walkable raw (3 - q.length))
    (shallow : ∀ {q b}, t.node q = some (.table b) → q.length ≤ 2) :
    match t.find p (indices va level) with
    | some (raw, rest) => walkFrom s va level (frameAddr a) = .ok (.mapped (leafPa raw va rest.length) raw rest.length)
    | none => ∃ lowest, walkFrom s va level (frameAddr a) = .ok (.unmapped lowest 0) := by
  have word := walk_word backs table va level
  have length : (p ++ [indexAt va level]).length = p.length + 1 := by simp
  induction level generalizing p a with
  | zero =>
    rw [indices, Store.find]
    cases entry : t.node (p ++ [indexAt va 0]) with
    | none => exact ⟨0, walkFrom_empty (by rw [word, entry]; rfl)⟩
    | some n =>
      cases n with
      | leaf raw =>
        have walkable := (leaves entry).2
        rw [length, show 3 - (p.length + 1) = 0 by omega] at walkable
        exact walkFrom_leaf walkable (by rw [word, entry]; rfl)
      | table b =>
        -- there are no tables below the third level
        have := shallow entry
        omega
  | succ level ih =>
    rw [indices, Store.find]
    cases entry : t.node (p ++ [indexAt va (level + 1)]) with
    | none => exact ⟨level + 1, walkFrom_empty (by rw [word, entry]; rfl)⟩
    | some n =>
      cases n with
      | leaf raw =>
        have walkable := (leaves entry).2
        rw [length, show 3 - (p.length + 1) = level + 1 by omega] at walkable
        dsimp only
        rw [indices_length]
        exact walkFrom_leaf walkable (by rw [word, entry]; rfl)
      | table b =>
        rw [walkFrom_pointer (b := b) (by rw [word, entry]; rfl)]
        exact ih entry (by omega) (walk_word backs entry va level) (by simp)

end

/-! ## Ranges of addresses -/

def levelBytes (level : Nat) : Nat := 4096 * 512 ^ level

namespace Call

variable (c : Call)

def bytes : Nat := levelBytes c.level

def Covers (va : Usize) : Prop := c.va.toNat ≤ va.toNat ∧ va.toNat < c.va.toNat + c.bytes

instance (va : Usize) : Decidable (c.Covers va) := inferInstanceAs (Decidable (_ ∧ _))

def Overlaps (d : Call) : Prop := c.va.toNat < d.va.toNat + d.bytes ∧ d.va.toNat < c.va.toNat + c.bytes

instance (d : Call) : Decidable (c.Overlaps d) := inferInstanceAs (Decidable (_ ∧ _))

end Call

theorem and_megaMask (va : Usize) : va &&& megaMask = 0 ↔ va.toNat % 2 ^ 21 = 0 := by
  rw [← BitVec.toNat_inj, BitVec.toNat_and]
  change _ &&& (2 ^ 21 - 1) = 0 ↔ _
  rw [Nat.and_two_pow_sub_one_eq_mod]

section
variable {c d : Call} {va : Usize}

theorem Call.Accepted.aligned (accepted : c.Accepted) : c.va.toNat % c.bytes = 0 ∧ c.pa.toNat % c.bytes = 0 := by
  cases c with
  | page va pa flags => exact accepted.1
  | mega va flags =>
    have := (and_megaMask va).mp accepted.1
    exact ⟨this, this⟩

theorem digits_page (x : Usize) : x.toNat % 2 ^ 39 / levelBytes 0 =
    ((indexAt x 2).toNat * 512 + (indexAt x 1).toNat) * 512 + (indexAt x 0).toNat := by
  rw [toNat_indexAt, toNat_indexAt, toNat_indexAt, levelBytes]
  omega

theorem digits_mega (x : Usize) : x.toNat % 2 ^ 39 / levelBytes 1 = (indexAt x 2).toNat * 512 + (indexAt x 1).toNat := by
  rw [toNat_indexAt, toNat_indexAt, levelBytes]
  omega

theorem digits_inj {m n : Nat} {i j : Index} : m * 512 + i.toNat = n * 512 + j.toNat ↔ m = n ∧ i = j := by
  have bound := i.isLt
  have bound' := j.isLt
  rw [← BitVec.toNat_inj]
  omega

theorem take_indices {x y : Usize} {level : Nat} (low : level ≤ 1) :
    (indices x 2).take (3 - level) = (indices y 2).take (3 - level) ↔
      x.toNat % 2 ^ 39 / levelBytes level = y.toNat % 2 ^ 39 / levelBytes level := by
  obtain rfl | rfl : level = 0 ∨ level = 1 := by omega
  · rw [digits_page, digits_page, digits_inj, digits_inj, BitVec.toNat_inj]
    simp [indices, and_assoc]
  · rw [digits_mega, digits_mega, digits_inj, BitVec.toNat_inj]
    simp [indices]

theorem Call.position_eq (c : Call) : c.position = (indices c.va 2).take (3 - c.level) := by
  cases c <;> rfl

theorem Call.level_le (c : Call) : c.level ≤ 1 := by
  cases c <;> simp [level]

theorem position_above_iff : c.position <+: indices va 2 ↔ c.va.toNat % 2 ^ 39 / c.bytes = va.toNat % 2 ^ 39 / c.bytes := by
  have low := c.level_le
  rw [Call.bytes, ← take_indices low, List.prefix_iff_eq_take, c.position_eq, List.length_take, indices_length,
    Nat.min_eq_left (by omega)]

theorem meets_iff : Meets c.position d.position ↔
    c.va.toNat % 2 ^ 39 / levelBytes (max c.level d.level) = d.va.toNat % 2 ^ 39 / levelBytes (max c.level d.level) := by
  have above {c d : Call} (order : d.level ≤ c.level) : c.position <+: d.position ↔
      c.va.toNat % 2 ^ 39 / levelBytes c.level = d.va.toNat % 2 ^ 39 / levelBytes c.level := by
    have low := c.level_le
    rw [← take_indices low, List.prefix_iff_eq_take, c.position_eq, d.position_eq, List.length_take, indices_length,
      List.take_take, Nat.min_eq_left (by omega), Nat.min_eq_left (by omega)]
  have lengths {c d : Call} (longer : d.level < c.level) : ¬ d.position <+: c.position := by
    intro up
    have := up.length_le
    have low := c.level_le
    rw [c.position_eq, d.position_eq, List.length_take, List.length_take, indices_length, indices_length] at this
    omega
  rcases Nat.lt_trichotomy c.level d.level with lower | same | higher
  · rw [Nat.max_eq_right (by omega), Meets, or_iff_right (lengths lower), above (by omega), eq_comm]
  · rw [Nat.max_eq_left (by omega), Meets, above (by omega), above (by omega), same, eq_comm, or_self, eq_comm]
  · rw [Nat.max_eq_left (by omega), Meets, or_iff_left (lengths higher), above (by omega)]

/-- Below 512 GiB the accepted calls that meet are those whose ranges overlap. -/
theorem meets_iff_overlaps (left : c.Accepted) (right : d.Accepted) (low : c.va.toNat < 2 ^ 39) (low' : d.va.toNat < 2 ^ 39) :
    Meets c.position d.position ↔ c.Overlaps d := by
  have one := left.aligned.1
  have two := right.aligned.1
  rw [meets_iff, Nat.mod_eq_of_lt low, Nat.mod_eq_of_lt low', Call.Overlaps]
  unfold Call.bytes at one two ⊢
  cases c <;> cases d <;> simp only [Call.level, levelBytes, Nat.reduceMul, Nat.reducePow, Nat.max_self,
    Nat.zero_le, sup_of_le_left, sup_of_le_right] at one two ⊢ <;> omega

theorem position_above_iff_covers (accepted : c.Accepted) (low : c.va.toNat < 2 ^ 38)
    (canonical : va.toNat < 2 ^ 38 ∨ 2 ^ 64 - 2 ^ 38 ≤ va.toNat) : c.position <+: indices va 2 ↔ c.Covers va := by
  have aligned := accepted.aligned.1
  rw [position_above_iff, Nat.mod_eq_of_lt (by omega), Call.Covers]
  unfold Call.bytes at aligned ⊢
  have bound := va.isLt
  cases c <;> simp only [Call.level, levelBytes, Nat.reduceMul, Nat.reducePow] at aligned low ⊢ <;> omega

theorem sv39Canonical_iff : sv39Canonical va ↔ va.toNat < 2 ^ 38 ∨ 2 ^ 64 - 2 ^ 38 ≤ va.toNat := by
  have bound := va.isLt
  simp only [sv39Canonical, Bool.or_eq_true, beq_iff_eq, ← BitVec.toNat_inj, BitVec.toNat_sshiftRight,
    Nat.shiftRight_eq_div_pow]
  change ((_ : Nat) = 0 ∨ (_ : Nat) = 2 ^ 64 - 1) ↔ _
  cases negative : va.msb with
  | false =>
    rw [BitVec.msb_eq_false_iff_two_mul_lt] at negative
    rw [if_neg (by simp)]
    omega
  | true =>
    rw [BitVec.msb_eq_true_iff_two_mul_ge] at negative
    rw [if_pos rfl]
    omega

theorem toNat_leafPa {level : Nat} (low : level ≤ 1) {raw : U64} (aligned : (ptePpn raw).toNat * 4096 % levelBytes level = 0) :
    (leafPa raw va level).toNat = (ptePpn raw).toNat * 4096 + va.toNat % levelBytes level := by
  have bound : (ptePpn raw).toNat < 2 ^ 44 := by
    rw [toNat_ptePpn]
    exact Nat.mod_lt _ (by decide)
  rw [leafPa, BitVec.toNat_or, BitVec.toNat_shiftLeft, Nat.shiftLeft_eq, Nat.mod_eq_of_lt (by omega), BitVec.toNat_and]
  -- the offset stays below the lowest bit of the page
  have disjoint {k x y : Nat} (multiple : x % 2 ^ k = 0) : x ||| (y &&& (2 ^ k - 1)) = x + y % 2 ^ k := by
    obtain ⟨q, rfl⟩ := Nat.dvd_of_mod_eq_zero multiple
    rw [Nat.and_two_pow_sub_one_eq_mod, Nat.two_pow_add_eq_or_of_lt (Nat.mod_lt _ (Nat.two_pow_pos k))]
  obtain rfl | rfl : level = 0 ∨ level = 1 := by omega
  · exact @disjoint 12 _ _ aligned
  · exact @disjoint 21 _ _ aligned

theorem Call.toNat_leafPa (accepted : c.Accepted) (plain : c.Plain) :
    (leafPa c.raw va c.level).toNat = c.pa.toNat % 2 ^ 56 + va.toNat % c.bytes := by
  have ppn := toNat_ptePpn_encodeLeaf c.pa plain.2
  have aligned := accepted.aligned.2
  have page : c.pa.toNat / 4096 % 2 ^ 44 * 4096 = c.pa.toNat % 2 ^ 56 := by
    cases c <;> simp only [bytes, level, levelBytes, Nat.reduceMul, Nat.reducePow] at aligned <;> omega
  rw [Page.toNat_leafPa c.level_le, raw, ppn, page, bytes]
  rw [raw, ppn, page]
  cases c <;> simp only [bytes, level, levelBytes, Nat.reduceMul, Nat.reducePow] at aligned ⊢ <;> omega

theorem Call.leafPa_eq (accepted : c.Accepted) (plain : c.Plain) (low : c.pa.toNat < 2 ^ 56) (covered : c.Covers va) :
    leafPa c.raw va c.level = c.pa + (va - c.va) := by
  have aligned := accepted.aligned.1
  obtain ⟨lower, upper⟩ := covered
  have offset : va.toNat % c.bytes = va.toNat - c.va.toNat ∧ va.toNat - c.va.toNat < 2 ^ 21 := by
    cases c <;> simp only [bytes, level, levelBytes, Nat.reduceMul, Nat.reducePow] at aligned upper ⊢ <;> omega
  rw [← BitVec.toNat_inj, toNat_leafPa accepted plain, BitVec.toNat_add, BitVec.toNat_sub_of_le (BitVec.le_def.mpr lower),
    Nat.mod_eq_of_lt low, offset.1]
  omega

theorem Call.walkable (accepted : c.Accepted) (plain : c.Plain) : Walkable c.raw c.level where
  readable := plain.raw_readable
  low := c.level_le
  aligned := by
    intro high
    have ppn := toNat_ptePpn_encodeLeaf c.pa plain.2
    have aligned := accepted.aligned.2
    rw [bytes, high, levelBytes] at aligned
    rw [← BitVec.toNat_inj, BitVec.toNat_and, raw, ppn]
    change _ &&& (2 ^ 9 - 1) = 0
    rw [Nat.and_two_pow_sub_one_eq_mod]
    omega

end

/-- A walk ends at the leaf of a call above the address, or at an empty entry. -/
theorem Tables.walk {root : Ppn} {need : List (List Index)} {calls : List Call} {s : Phys} (tables : Tables root need calls s)
    {va : Usize} (canonical : sv39Canonical va) :
    (∃ c ∈ calls, c.position <+: indices va 2 ∧
      Page.walk s (frameAddr root) va = .ok (.mapped (leafPa c.raw va c.level) c.raw c.level)) ∨
    ((∀ c ∈ calls, ¬ c.position <+: indices va 2) ∧
      ∃ lowest, Page.walk s (frameAddr root) va = .ok (.unmapped lowest 0)) := by
  obtain ⟨t, holds, -, backs⟩ := tables.tree
  have length (c : Call) : c.position.length + c.level = 3 := by
    cases c <;> rfl
  -- where the leaves and tables of the tree are, the walk expects them
  have leaves : ∀ {q raw}, t.node q = some (.leaf raw) → q.length ≤ 3 ∧ Walkable raw (3 - q.length) := by
    intro q raw there
    obtain ⟨c, mem, rfl, rfl, -⟩ := tables.leaf holds there
    have walkable := Call.walkable (tables.accepted c mem) (tables.plain c mem)
    have here := length c
    rw [show 3 - c.position.length = c.level by omega]
    exact ⟨by omega, walkable⟩
  have shallow : ∀ {q b}, t.node q = some (.table b) → q.length ≤ 2 := by
    intro q b there
    rcases holds.table there with rfl | ⟨e, mem, up⟩
    · exact Nat.zero_le _
    · obtain ⟨c, -, rfl⟩ := List.mem_map.mp mem
      have here := length c
      have notLeaf : q ≠ c.position := by
        rintro rfl
        rw [holds.leaf.mpr mem] at there
        cases there
      have shorter : q.length < c.position.length := by
        refine Nat.lt_of_le_of_ne up.length_le fun same => notLeaf (up.eq_of_length same)
      omega
  have found := walkFrom_find backs holds.root va (show [].length + 2 = 2 from rfl) leaves shallow
  rw [Page.walk, if_neg (by simp [canonical])]
  cases search : t.find [] (indices va 2) with
  | some r =>
    obtain ⟨raw, rest⟩ := r
    rw [search] at found
    obtain ⟨q, path, mem⟩ := holds.find_eq_some_iff.mp search
    obtain ⟨c, inside, same⟩ := List.mem_map.mp mem
    obtain ⟨rfl, rfl⟩ := Prod.mk.inj same
    have total := congrArg List.length path
    rw [indices_length, List.length_append] at total
    have here := length c
    dsimp only at found
    rw [show rest.length = c.level by omega] at found
    exact .inl ⟨c, inside, ⟨rest, path.symm⟩, found⟩
  | none =>
    rw [search] at found
    refine .inr ⟨fun c inside ⟨rest, path⟩ => ?_, found⟩
    have := holds.find_eq_some_iff.mpr ⟨c.position, path.symm, List.mem_map_of_mem inside⟩
    rw [search] at this
    cases this

/-! ## Mapper and walker -/

/-- Frames as `alloc_frame` returns them: page-aligned, below 2^56, none twice. -/
structure Frames (frames : List Usize) : Prop where
  aligned : ∀ f ∈ frames, f.toNat % 4096 = 0
  low : ∀ f ∈ frames, f.toNat < 2 ^ 56
  nodup : frames.Nodup

theorem Frames.ppns {frames : List Usize} (ok : Frames frames) : ∃ ppns : List Ppn, frames = ppns.map frameAddr ∧ ppns.Nodup := by
  have back : ∀ f ∈ frames, frameAddr (f.extractLsb' 12 44) = f := by
    intro f mem
    have aligned := ok.aligned f mem
    have low := ok.low f mem
    rw [← BitVec.toNat_inj, toNat_frameAddr, BitVec.extractLsb'_toNat, Nat.shiftRight_eq_div_pow]
    omega
  have same : (frames.map fun f => f.extractLsb' 12 44).map frameAddr = frames := by
    rw [List.map_map]
    exact (List.map_congr_left back).trans (List.map_id' frames)
  refine ⟨_, same.symm, List.Nodup.of_map frameAddr ?_⟩
  rw [same]
  exact ok.nodup

def Zeroed (s : Phys) (table : Usize) : Prop := ∀ i : Index, s.word (pteSlot table (i.setWidth 64)) = 0

section
variable {root : Ppn} {need : List (List Index)} {calls : List Call} {c d : Call} {s s' : Phys} {va : Usize}

theorem Tables.same (tables : Tables root need calls s) (one : c ∈ calls) (two : d ∈ calls)
    (above : c.position <+: indices va 2) (above' : d.position <+: indices va 2) : c = d := by
  by_contra differ
  have : Std.Symm fun c d : Call => ¬ Meets c.position d.position := ⟨fun _ _ apart meets => apart meets.symm⟩
  exact tables.distinct.forall one two differ (List.prefix_or_prefix_of_prefix above above')

theorem Tables.of_free (tables : Tables root [] calls s) (enough : need.length ≤ s.free.length) : Tables root need calls s := by
  obtain ⟨t, holds, -, backs⟩ := tables.tree
  refine ⟨⟨t, holds, ?_, backs⟩, tables.accepted, tables.plain⟩
  rw [backs.free, List.length_map] at enough
  exact Nat.le_trans List.countP_le_length enough

theorem Call.dir_take (c : Call) {q : List Index} (below : q ≠ []) (up : q <+: c.dir) : q ∈ [c.dir.take 1, c.dir.take 2] := by
  have short : c.dir.length ≤ 2 := by
    cases c <;> simp [dir]
  have long := List.length_pos_iff.mpr below
  have length := up.length_le
  rw [List.prefix_iff_eq_take.mp up]
  obtain one | two : q.length = 1 ∨ q.length = 2 := by omega
  · simp [one]
  · simp [two]

/-- With two frames left a call stops exactly when it is not accepted or meets an earlier one. -/
theorem Tables.exec_fails_iff (tables : Tables root [] calls s) (plain : c.Plain) (enough : 2 ≤ s.free.length) :
    (∃ e, c.exec (frameAddr root) s = .error e) ↔ ¬ c.Accepted ∨ ∃ d ∈ calls, Meets c.position d.position := by
  constructor
  · rintro ⟨e, fails⟩
    by_contra both
    rw [not_or, not_not, not_exists] at both
    have ready : Tables root [c.dir.take 1, c.dir.take 2] calls s := tables.of_free enough
    obtain ⟨s', ran, -⟩ := ready.exec_returns both.1 plain (fun q below up => c.dir_take below up)
      fun d mem meets => both.2 d ⟨mem, meets⟩
    rw [fails] at ran
    cases ran
  · intro bad
    cases ran : c.exec (frameAddr root) s with
    | error e => exact ⟨e, rfl⟩
    | ok s' =>
      obtain ⟨accepted, apart, -⟩ := tables.exec plain ran
      rcases bad with rejected | ⟨d, mem, meets⟩
      · exact absurd accepted rejected
      · exact absurd meets (apart d mem)

/-- A call that returns leaves every translation as it was. -/
theorem Tables.walk_kept (tables : Tables root [] calls s) (plain : c.Plain) (ran : c.exec (frameAddr root) s = .ok s')
    (canonical : sv39Canonical va) {pa : Usize} {raw : U64} {level : Nat}
    (mapped : Page.walk s (frameAddr root) va = .ok (.mapped pa raw level)) :
    Page.walk s' (frameAddr root) va = .ok (.mapped pa raw level) := by
  obtain ⟨-, -, after⟩ := tables.exec plain ran
  rcases tables.walk canonical with ⟨d, mem, above, walked⟩ | ⟨-, lowest, walked⟩
  · have stays := List.mem_append_left [c] mem
    rcases after.walk canonical with ⟨e, mem', above', walked'⟩ | ⟨none, -⟩
    · rw [after.same mem' stays above' above] at walked'
      rw [← mapped, walked, walked']
    · exact absurd above (none d stays)
  · rw [walked] at mapped
    cases mapped

theorem Tables.walk_covers (tables : Tables root need calls s) (low : ∀ c ∈ calls, c.va.toNat < 2 ^ 38 ∧ c.pa.toNat < 2 ^ 56)
    (canonical : sv39Canonical va) :
    (∃ c, calls.filter (·.Covers va) = [c] ∧
      Page.walk s (frameAddr root) va = .ok (.mapped (c.pa + (va - c.va)) c.raw c.level)) ∨
    (calls.filter (·.Covers va) = [] ∧ ∃ lowest, Page.walk s (frameAddr root) va = .ok (.unmapped lowest 0)) := by
  have covers {c : Call} (mem : c ∈ calls) : c.position <+: indices va 2 ↔ c.Covers va :=
    position_above_iff_covers (tables.accepted c mem) (low c mem).1 (sv39Canonical_iff.mp canonical)
  -- Two calls that cover one address would meet.
  have sole {c : Call} (mem : c ∈ calls) (above : c.position <+: indices va 2) : calls.filter (·.Covers va) = [c] := by
    have apart := tables.distinct.filter fun c : Call => decide (c.Covers va)
    have here : c ∈ calls.filter (·.Covers va) := List.mem_filter.mpr ⟨mem, decide_eq_true ((covers mem).mp above)⟩
    have all : ∀ d ∈ calls.filter (·.Covers va), d = c := by
      intro d found
      obtain ⟨mem', covered⟩ := List.mem_filter.mp found
      exact tables.same mem' mem ((covers mem').mpr (of_decide_eq_true covered)) above
    match found : calls.filter (·.Covers va) with
    | [] =>
      rw [found] at here
      cases here
    | [d] =>
      rw [found, all d (by rw [found]; exact List.mem_cons_self)]
    | d :: e :: rest =>
      rw [found] at apart all
      rw [all d List.mem_cons_self, all e (List.mem_cons_of_mem d List.mem_cons_self)] at apart
      exact absurd (.inl (List.prefix_refl _)) ((List.pairwise_cons.mp apart).1 c List.mem_cons_self)
  rcases tables.walk canonical with ⟨c, mem, above, walked⟩ | ⟨none, walked⟩
  · have page := Call.leafPa_eq (tables.accepted c mem) (tables.plain c mem) (low c mem).2 ((covers mem).mp above)
    rw [page] at walked
    exact .inl ⟨c, sole mem above, walked⟩
  · refine .inr ⟨List.filter_eq_nil_iff.mpr fun c mem => ?_, walked⟩
    simpa using mt (covers mem).mpr (none c mem)

end

/-- A call in the canonical low half, to an address an entry can hold, whose flags
set `V`, `R`, `A` and `D` and keep to the ten flag bits of an entry. -/
structure Call.Fits (c : Call) : Prop where
  va : c.va.toNat < 2 ^ 38
  pa : c.pa.toNat < 2 ^ 56
  flags : c.flags &&& (flagV ||| flagR ||| flagA ||| flagD) = flagV ||| flagR ||| flagA ||| flagD
  small : c.flags.toNat < 2 ^ 10

theorem Call.Fits.plain {c : Call} (fits : c.Fits) : c.Plain := by
  have bit {k : Nat} (set : (flagV ||| flagR ||| flagA ||| flagD).getLsbD k = true) : c.flags.getLsbD k = true := by
    rw [← fits.flags, BitVec.getLsbD_and, Bool.and_eq_true] at set
    exact set.1
  exact ⟨⟨bit (by decide), bit (by decide)⟩, fits.small⟩

/-- The tables a sequence of calls leaves in memory. -/
theorem Tables.of_run {root : Usize} {s s' : Phys} {calls : List Call} (frames : Frames (root :: s.free))
    (zeroed : Zeroed s root) (plain : ∀ c ∈ calls, c.Plain) (ran : calls.foldlM (Call.exec root) s = .ok s') :
    ∃ ppn, root = frameAddr ppn ∧ Tables ppn [] calls s' := by
  obtain ⟨ppns, same, nodup⟩ := frames.ppns
  obtain ⟨ppn, free, rfl, rfl, unused⟩ := List.map_eq_cons_iff.mp same.symm
  have start : Tables ppn [] [] s := .empty zeroed unused.symm nodup (Nat.zero_le _)
  exact ⟨ppn, rfl, start.run plain ran⟩

/-- After any sequence of calls that return, the walk of a canonical address is the
leaf of the one call that covers it, and unmapped if none does. A further call
stops exactly when an argument is rejected or its range overlaps an earlier one;
if it returns, every translation stays. -/
theorem walk_agrees_with_calls {root : Usize} {s s' : Phys} {calls : List Call} (frames : Frames (root :: s.free))
    (zeroed : Zeroed s root) (fits : ∀ c ∈ calls, c.Fits) (ran : calls.foldlM (Call.exec root) s = .ok s') :
    (∀ va, sv39Canonical va →
      (∃ c, calls.filter (·.Covers va) = [c] ∧
        ∃ raw, walk s' root va = .ok (.mapped (c.pa + (va - c.va)) raw c.level) ∧ raw.setWidth 8 = c.flags.setWidth 8) ∨
      (calls.filter (·.Covers va) = [] ∧ ∃ level raw, walk s' root va = .ok (.unmapped level raw))) ∧
    (∀ c : Call, c.Fits → 2 ≤ s'.free.length →
      ((∃ e, c.exec root s' = .error e) ↔ ¬ c.Accepted ∨ ∃ d ∈ calls, c.Overlaps d)) ∧
    (∀ (c : Call) s'', c.Fits → c.exec root s' = .ok s'' → ∀ va, sv39Canonical va → ∀ pa raw level,
      walk s' root va = .ok (.mapped pa raw level) → walk s'' root va = .ok (.mapped pa raw level)) := by
  obtain ⟨ppn, rfl, tables⟩ := Tables.of_run frames zeroed (fun c mem => (fits c mem).plain) ran
  refine ⟨fun va canonical => ?_, fun c fit enough => ?_, fun c s'' fit more va canonical pa raw level mapped => ?_⟩
  · rcases tables.walk_covers (fun c mem => ⟨(fits c mem).va, (fits c mem).pa⟩) canonical with
      ⟨c, sole, walked⟩ | ⟨none, lowest, walked⟩
    · refine .inl ⟨c, sole, c.raw, walked, BitVec.eq_of_getLsbD_eq fun k inside => ?_⟩
      rw [BitVec.getLsbD_setWidth, BitVec.getLsbD_setWidth, Call.raw, encodeLeaf_bit _ _ (by omega)]
    · exact .inr ⟨none, lowest, 0, walked⟩
  · rw [tables.exec_fails_iff fit.plain enough]
    by_cases accepted : c.Accepted
    · have same : ∀ d ∈ calls, Meets c.position d.position ↔ c.Overlaps d := fun d mem =>
        meets_iff_overlaps accepted (tables.accepted d mem) (Nat.lt_trans fit.va (by decide))
          (Nat.lt_trans (fits d mem).va (by decide))
      exact or_congr Iff.rfl (exists_congr fun d => and_congr_right (same d))
    · simp [accepted]
  · exact tables.walk_kept fit.plain more canonical mapped

/-! A root, frames and calls to run. -/

def blank : Phys := ⟨fun _ => 0, [0x80601000, 0x80602000, 0x80603000, 0x80604000]⟩

theorem frames_blank : Frames (0x80600000 :: blank.free) where
  aligned := by simp [blank]
  low := by simp [blank]
  nodup := by simp [blank]

theorem zeroed_blank (root : Usize) : Zeroed blank root := fun _ => rfl

def twoCalls : List Call := [.page 0x80200000 0x80200000 leafRx, .mega 0x80400000 leafRw]

theorem walk_agrees_with_calls_two : ∃ s', twoCalls.foldlM (Call.exec 0x80600000) blank = .ok s' ∧
    ∃ raw, walk s' 0x80600000 0x80400abc = .ok (.mapped 0x80400abc raw 1) ∧ raw.setWidth 8 = leafRw.setWidth 8 := by
  have returns : (twoCalls.foldlM (Call.exec 0x80600000) blank).isOk := by decide +kernel
  cases ran : twoCalls.foldlM (Call.exec 0x80600000) blank with
  | error e =>
    rw [ran] at returns
    cases returns
  | ok s' =>
    have fits : ∀ c ∈ twoCalls, c.Fits := by
      simp only [twoCalls, List.forall_mem_cons, List.not_mem_nil, false_imp_iff, implies_true, and_true]
      exact ⟨⟨by decide, by decide, by decide, by decide⟩, ⟨by decide, by decide, by decide, by decide⟩⟩
    have covered : twoCalls.filter (·.Covers 0x80400abc) = [.mega 0x80400000 leafRw] := by decide +kernel
    refine ⟨s', rfl, ?_⟩
    rcases (walk_agrees_with_calls frames_blank (zeroed_blank _) fits ran).1 0x80400abc (by decide +kernel) with
      ⟨c, sole, walked⟩ | ⟨none, -⟩
    · rw [covered, List.cons.injEq] at sole
      rw [← sole.1] at walked
      exact walked
    · rw [covered] at none
      cases none

/-- A flag bit above the ten lands in the page number: the walk finds the next frame. -/
theorem flag_bit_ten_moves_page : ∃ (c : Call) (s' : Phys), c.va.toNat < 2 ^ 38 ∧ c.pa.toNat < 2 ^ 56 ∧
    c.flags &&& (flagV ||| flagR ||| flagA ||| flagD) = flagV ||| flagR ||| flagA ||| flagD ∧
    Frames (0x80600000 :: blank.free) ∧ Zeroed blank 0x80600000 ∧ [c].foldlM (Call.exec 0x80600000) blank = .ok s' ∧
    [c].filter (·.Covers 0) = [c] ∧ c.pa = 0 ∧ ∃ raw, walk s' 0x80600000 0 = .ok (.mapped 0x1000 raw 0) := by
  let c : Call := .page 0 0 (leafR ||| 1#64 <<< 10)
  have walked : ([c].foldlM (Call.exec 0x80600000) blank >>= fun s' => walk s' 0x80600000 0) =
      .ok (.mapped 0x1000 (leafR ||| 1#64 <<< 10) 0) := by decide +kernel
  obtain ⟨s', ran, found⟩ := bind_eq_ok walked
  exact ⟨c, s', by decide, by decide, by decide, frames_blank, zeroed_blank _, ran, by decide +kernel, rfl, _, found⟩

end Whimbrel.Page

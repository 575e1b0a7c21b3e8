import Whimbrel.Page.Table
import Whimbrel.Lib.Radix

/-! The tables the mapper writes are a radix tree, and the walker searches it.

`Backs` ties the words of the tables to the tree. Each step of `map` and `map_2m`
agrees with the tree operation of the library, so what a sequence of calls leaves
is a map from page positions to leaf entries. -/

set_option autoImplicit false

namespace Whimbrel.Page

open Checked Radix

abbrev Tree := Store Ppn Index U64

def entryWord : Option (Node Ppn U64) → U64
  | none => 0
  | some (.table a) => pointer a
  | some (.leaf raw) => raw

/-- Every table of the tree has the tree's entries in memory. -/
structure Backs (t : Tree) (s : Phys) : Prop where
  word : ∀ {p a}, t.node p = some (.table a) → ∀ i, s.word (cell a i) = entryWord (t.node (p ++ [i]))
  free : s.free = t.free.map frameAddr

def Readable (raw : U64) : Prop := raw.getLsbD 0 = true ∧ raw.getLsbD 1 = true

instance (raw : U64) : Decidable (Readable raw) := inferInstanceAs (Decidable (_ ∧ _))

theorem Readable.ne_zero {raw : U64} (readable : Readable raw) : raw ≠ 0 := by
  rintro rfl
  exact absurd readable.1 (by decide)

theorem pointer_ne_zero (a : Ppn) : pointer a ≠ 0 := by
  intro zero
  have bit := pointer_bit a (show 0 < 10 by decide)
  rw [zero] at bit
  exact absurd bit (by decide)

theorem entryWord_eq_zero {n : Option (Node Ppn U64)} (leaves : ∀ raw, n = some (.leaf raw) → Readable raw) :
    entryWord n = 0 ↔ n = none := by
  match n with
  | none => exact iff_of_true rfl rfl
  | some (.table a) => exact iff_of_false (pointer_ne_zero a) (by simp)
  | some (.leaf raw) => exact iff_of_false (leaves raw rfl).ne_zero (by simp)

@[simp] theorem Phys.write_word (s : Phys) (slot : Usize) (raw : U64) (a : Usize) :
    (s.write slot raw).word a = if a = slot then raw else s.word a :=
  Function.update_apply ..

section
variable {t : Tree} {s : Phys} {root a : Ppn} {p : List Index} {i : Index}

theorem cell_eq_iff (shape : Shape root t) {q : List Index} {b : Ppn} {j : Index} (there : t.node q = some (.table b))
    (table : t.node p = some (.table a)) : cell b j = cell a i ↔ q ++ [j] = p ++ [i] := by
  rw [cell_inj]
  constructor
  · rintro ⟨rfl, rfl⟩
    rw [shape.apart there table]
  · intro same
    obtain rfl := List.append_inj_left' same rfl
    rw [table] at there
    cases there
    exact ⟨rfl, by simpa using same⟩

theorem Backs.write (backs : Backs t s) (shape : Shape root t) (table : t.node p = some (.table a)) (raw : U64) :
    Backs (t.set (p ++ [i]) (.leaf raw)) (s.write (cell a i) raw) := by
  refine ⟨fun {q b} there j => ?_, backs.free⟩
  rw [Store.set_node] at there
  split at there
  · cases there
  · rw [Phys.write_word, Store.set_node]
    by_cases same : q ++ [j] = p ++ [i]
    · rw [if_pos ((cell_eq_iff shape there table).mpr same), if_pos same]
      rfl
    · rw [if_neg (mt (cell_eq_iff shape there table).mp same), if_neg same]
      exact backs.word there j

theorem Backs.grow (backs : Backs t s) (shape : Shape root t) (table : t.node p = some (.table a))
    (empty : t.node (p ++ [i]) = none) {b : Ppn} {free : List Ppn} (unused : t.free = b :: free) :
    Returns (allocTable s) fun r => r.2 = frameAddr b ∧
      Backs (Store.set { t with free } (p ++ [i]) (.table b)) (r.1.write (cell a i) (pointer b)) := by
  rw [allocTable, backs.free, unused, List.map_cons]
  refine .ok ⟨rfl, fun {q c} there j => ?_, rfl⟩
  have new {q : List Index} {c : Ppn} (old : t.node q = some (.table c)) : c ≠ b := by
    rintro rfl
    exact shape.fresh old (by simp [unused])
  rw [Store.set_node] at there
  rw [Phys.write_word, Store.set_node]
  dsimp only
  split at there
  · -- the new table is empty, and so is the tree below it
    rename_i fresh
    cases there
    have elsewhere : cell b j ≠ cell a i := fun same => new table (cell_inj.mp same).1.symm
    rw [if_neg elsewhere, if_pos (cell_in_frame.mpr rfl), fresh, if_neg (by simp), shape.below_empty empty]
    rfl
  · by_cases same : q ++ [j] = p ++ [i]
    · rw [if_pos ((cell_eq_iff shape there table).mpr same), if_pos same]
      rfl
    · rw [if_neg (mt (cell_eq_iff shape there table).mp same), if_neg (mt cell_in_frame.mp (new there)), if_neg same]
      exact backs.word there j

/-- One level of the descent enters the entry of the tree. -/
theorem descend_agrees (backs : Backs t s) (shape : Shape root t) (table : t.node p = some (.table a))
    (leaves : ∀ {q raw}, t.node q = some (.leaf raw) → Readable raw) (va : Usize) (level : Nat) :
    Agrees (fun x r => r.2 = frameAddr x.2 ∧ Backs x.1 r.1) (t.enter (p ++ [indexAt va level]))
      (descend s (frameAddr a) va level) := by
  have raw := backs.word table (indexAt va level)
  unfold descend Store.enter
  dsimp only
  rw [pteSlot_eq, raw]
  cases entry : t.node (p ++ [indexAt va level]) with
  | none =>
    rw [if_pos (show entryWord none = 0 from rfl)]
    cases unused : t.free with
    | nil =>
      rw [allocTable, backs.free, unused]
      trivial
    | cons b free =>
      obtain ⟨⟨s', next⟩, alloc, at_, backs'⟩ := backs.grow shape table entry unused
      dsimp only at at_
      subst at_
      rw [alloc]
      exact ⟨rfl, backs'⟩
  | some n =>
    cases n with
    | leaf raw =>
      have readable := leaves entry
      rw [if_neg (show entryWord (some (.leaf raw)) ≠ 0 from readable.ne_zero), if_pos]
      · trivial
      · intro none
        have := ((and_rwx_eq_zero raw).mp none).1
        rw [readable.2] at this
        cases this
    | table b =>
      -- a pointer is valid and has none of R, W, X
      have bits {bit : Nat} (low : bit < 10) := pointer_bit b low
      rw [if_neg (show entryWord (some (.table b)) ≠ 0 from pointer_ne_zero b), if_neg, if_neg]
      · exact ⟨pointer_table b, backs⟩
      · intro invalid
        have := (and_flag_eq_zero (pointer b) (show 0 < 64 by decide)).mp invalid
        rw [bits (by decide)] at this
        cases this
      · rw [not_not]
        exact (and_rwx_eq_zero _).mpr ⟨bits (by decide), bits (by decide), bits (by decide)⟩

theorem putLeaf_agrees (backs : Backs t s) (shape : Shape root t) (table : t.node p = some (.table a))
    (leaves : ∀ {q raw}, t.node q = some (.leaf raw) → Readable raw) (va : Usize) (level : Nat) (raw : U64) :
    Agrees Backs (t.place (p ++ [indexAt va level]) raw) (putLeaf s (frameAddr a) va level raw) := by
  have old := backs.word table (indexAt va level)
  unfold putLeaf Store.place
  dsimp only
  rw [pteSlot_eq, old]
  cases entry : t.node (p ++ [indexAt va level]) with
  | none =>
    rw [if_neg (show ¬ entryWord none ≠ 0 by simp [entryWord])]
    exact backs.write shape table raw
  | some n =>
    rw [if_pos]
    · trivial
    · rw [Ne, entryWord_eq_zero]
      · simp
      · rintro raw same
        exact leaves (entry.trans same)

end

/-! ## Calls -/

def FlagsOk (flags : U64) : Prop :=
  ¬ (flags &&& flagW ≠ 0 ∧ flags &&& flagR = 0) ∧ flags &&& (flagR ||| flagW ||| flagX) ≠ 0

instance (flags : U64) : Decidable (FlagsOk flags) := inferInstanceAs (Decidable (_ ∧ _))

theorem checkFlags_eq {flags : U64} (ok : FlagsOk flags) : checkFlags flags = .ok () := by
  unfold checkFlags
  rw [if_neg ok.1, if_neg ok.2]
  rfl

theorem checkFlags_fails {flags : U64} (bad : ¬ FlagsOk flags) : checkFlags flags = .error .mapFlags := by
  unfold checkFlags
  by_cases reserved : flags &&& flagW ≠ 0 ∧ flags &&& flagR = 0
  · rw [if_pos reserved]
    rfl
  · rw [if_neg reserved, if_pos (by_contra fun leaf => bad ⟨reserved, leaf⟩)]
    rfl

/-- A call of `map`, or of `map_2m` with one address. -/
inductive Call where
  | page (va pa : Usize) (flags : U64)
  | mega (va : Usize) (flags : U64)
  deriving DecidableEq, Repr

namespace Call

def va : Call → Usize
  | .page va _ _ => va
  | .mega va _ => va

def pa : Call → Usize
  | .page _ pa _ => pa
  | .mega va _ => va

def flags : Call → U64
  | .page _ _ flags => flags
  | .mega _ flags => flags

def level : Call → Nat
  | .page .. => 0
  | .mega .. => 1

def exec (root : Usize) (s : Phys) : Call → Result Phys
  | .page va pa flags => map s root va pa flags
  | .mega va flags => map2m s root va va flags

/-- No argument check stops the call. -/
def Accepted : Call → Prop
  | .page va pa flags => (va.toNat % frameBytes = 0 ∧ pa.toNat % frameBytes = 0) ∧ FlagsOk flags
  | .mega va flags => va &&& megaMask = 0 ∧ FlagsOk flags

def dir : Call → List Index
  | .page va _ _ => [indexAt va 2, indexAt va 1]
  | .mega va _ => [indexAt va 2]

def last : Call → Index
  | .page va _ _ => indexAt va 0
  | .mega va _ => indexAt va 1

def position (c : Call) : List Index := c.dir ++ [c.last]

def raw (c : Call) : U64 := encodeLeaf c.pa c.flags

def entry (c : Call) : List Index × U64 := (c.position, c.raw)

/-- The flags set `V` and `R`, and stay below the page number of the entry. -/
def Plain (c : Call) : Prop := Readable c.flags ∧ c.flags.toNat < 2 ^ 10

end Call

theorem Call.exec_rejected {c : Call} (rejected : ¬ c.Accepted) (root : Usize) (s : Phys) : ∃ e, c.exec root s = .error e := by
  cases c with
  | page va pa flags =>
    rw [exec, map]
    by_cases aligned : va.toNat % frameBytes ≠ 0 ∨ pa.toNat % frameBytes ≠ 0
    · rw [if_pos aligned]
      exact ⟨_, rfl⟩
    · rw [if_neg aligned, checkFlags_fails fun ok => rejected ⟨by simpa using aligned, ok⟩]
      exact ⟨_, rfl⟩
  | mega va flags =>
    rw [exec, map2m]
    by_cases aligned : va &&& megaMask ≠ 0 ∨ va &&& megaMask ≠ 0
    · rw [if_pos aligned]
      exact ⟨_, rfl⟩
    · rw [if_neg aligned, if_neg (not_not.mpr rfl), checkFlags_fails fun ok => rejected ⟨by simpa using aligned, ok⟩]
      exact ⟨_, rfl⟩

section
variable {t : Tree} {s : Phys} {root : Ppn}

/-- An accepted call inserts its leaf into the tree. -/
theorem Call.exec_agrees {c : Call} (accepted : c.Accepted) (backs : Backs t s) (shape : Shape root t)
    (leaves : ∀ {q raw}, t.node q = some (.leaf raw) → Readable raw) :
    Agrees Backs (t.insert root c.dir c.last c.raw) (c.exec (frameAddr root) s) := by
  -- the leaves stay the same while tables are added
  have still {p : List Index} {t t' : Tree} (opened : Opened p t t')
      (leaves : ∀ {q raw}, t.node q = some (.leaf raw) → Readable raw) {q : List Index} {raw : U64}
      (leaf : t'.node q = some (.leaf raw)) : Readable raw := by
    rcases opened.added leaf with before | ⟨-, b, same⟩
    · exact leaves before
    · cases same
  cases c with
  | page va pa flags =>
    obtain ⟨aligned, ok⟩ := accepted
    rw [exec, map, if_neg (by simpa using aligned), checkFlags_eq ok]
    simp only [Store.insert, Store.openTo, dir, last, bind_assoc, List.nil_append]
    refine (descend_agrees backs shape shape.root leaves va 2).bind ?_
    rintro ⟨t1, b⟩ ⟨s1, table⟩ entered ⟨rfl, backs⟩
    obtain ⟨shape, opened, here⟩ := shape.enter shape.root entered
    have leaves := @still _ _ _ opened leaves
    refine (descend_agrees backs shape here leaves va 1).bind ?_
    rintro ⟨t2, b⟩ ⟨s2, table⟩ entered ⟨rfl, backs⟩
    obtain ⟨shape, opened, here⟩ := shape.enter here entered
    exact putLeaf_agrees backs shape here (still opened leaves) va 0 _
  | mega va flags =>
    obtain ⟨aligned, ok⟩ := accepted
    rw [exec, map2m, if_neg (by simpa using aligned), if_neg (not_not.mpr rfl), checkFlags_eq ok]
    simp only [Store.insert, Store.openTo, dir, last, bind_assoc, List.nil_append]
    refine (descend_agrees backs shape shape.root leaves va 2).bind ?_
    rintro ⟨t1, b⟩ ⟨s1, table⟩ entered ⟨rfl, backs⟩
    obtain ⟨shape, opened, here⟩ := shape.enter shape.root entered
    exact putLeaf_agrees backs shape here (still opened leaves) va 1 _

end

/-- The tables hold exactly the calls, and there is a frame for each of the
positions that has no table yet. -/
structure Tables (root : Ppn) (need : List (List Index)) (calls : List Call) (s : Phys) : Prop where
  tree : ∃ t, Holds root (calls.map Call.entry) t ∧ Enough need t ∧ Backs t s
  accepted : ∀ c ∈ calls, c.Accepted
  plain : ∀ c ∈ calls, c.Plain

theorem Call.Plain.raw_readable {c : Call} (plain : c.Plain) : Readable c.raw := by
  rw [Readable, raw, encodeLeaf_bit _ _ (by decide), encodeLeaf_bit _ _ (by decide)]
  exact plain.1

section
variable {root : Ppn} {need : List (List Index)} {calls : List Call} {c : Call} {s s' : Phys}

theorem Tables.empty {free : List Ppn} (zeroed : ∀ i, s.word (cell root i) = 0) (unused : s.free = free.map frameAddr)
    (distinct : (root :: free).Nodup) (enough : need.length ≤ free.length) : Tables root need [] s := by
  refine ⟨⟨_, Holds.empty distinct, Nat.le_trans List.countP_le_length enough, fun {p a} there i => ?_, unused⟩, ?_, ?_⟩
  · rw [Store.set_node] at there
    split at there
    · cases there
      rw [zeroed, Store.set_node, if_neg (by simp)]
      rfl
    · cases there
  · simp
  · simp

theorem Tables.leaf (tables : Tables root need calls s) {t : Tree} (holds : Holds root (calls.map Call.entry) t)
    {q : List Index} {raw : U64} (there : t.node q = some (.leaf raw)) :
    ∃ c ∈ calls, c.position = q ∧ c.raw = raw ∧ Readable raw := by
  obtain ⟨c, mem, same⟩ := List.mem_map.mp (holds.leaf.mp there)
  obtain ⟨rfl, rfl⟩ := Prod.mk.inj same
  exact ⟨c, mem, rfl, rfl, (tables.plain c mem).raw_readable⟩

theorem Tables.push (tables : Tables root need calls s) (accepted : c.Accepted) (plain : c.Plain)
    (tree : ∃ t, Holds root ((calls ++ [c]).map Call.entry) t ∧ Enough need t ∧ Backs t s') :
    Tables root need (calls ++ [c]) s' where
  tree := tree
  accepted := by
    simp only [List.forall_mem_append, List.forall_mem_singleton]
    exact ⟨tables.accepted, accepted⟩
  plain := by
    simp only [List.forall_mem_append, List.forall_mem_singleton]
    exact ⟨tables.plain, plain⟩

/-- A call that returns was accepted and met no earlier call; it adds itself. -/
theorem Tables.exec (tables : Tables root [] calls s) (plain : c.Plain)
    (ran : c.exec (frameAddr root) s = .ok s') :
    c.Accepted ∧ (∀ d ∈ calls, ¬ Meets c.position d.position) ∧ Tables root [] (calls ++ [c]) s' := by
  have accepted : c.Accepted := by
    by_contra rejected
    obtain ⟨e, fails⟩ := Call.exec_rejected rejected (frameAddr root) s
    rw [fails] at ran
    cases ran
  obtain ⟨t, holds, -, backs⟩ := tables.tree
  obtain ⟨t', inserted, backs⟩ := (Call.exec_agrees accepted backs holds.toShape fun there => by
    obtain ⟨-, -, -, -, readable⟩ := tables.leaf holds there
    exact readable).of_ok ran
  obtain ⟨apart, holds⟩ := holds.insert inserted
  refine ⟨accepted, fun d mem => apart _ (List.mem_map_of_mem mem), tables.push accepted plain ⟨t', ?_, ?_, backs⟩⟩
  · rw [List.map_append]
    exact holds
  · exact Nat.zero_le _

/-- An accepted call that meets no earlier one returns. -/
theorem Tables.exec_returns (tables : Tables root need calls s) (accepted : c.Accepted) (plain : c.Plain)
    (mem : ∀ q, q ≠ [] → q <+: c.dir → q ∈ need) (apart : ∀ d ∈ calls, ¬ Meets c.position d.position) :
    Returns (c.exec (frameAddr root) s) (Tables root need (calls ++ [c])) := by
  obtain ⟨t, holds, enough, backs⟩ := tables.tree
  have free : ∀ e ∈ calls.map Call.entry, ¬ Meets (c.dir ++ [c.last]) e.1 := by
    intro e inside
    obtain ⟨d, earlier, rfl⟩ := List.mem_map.mp inside
    exact apart d earlier
  obtain ⟨t', inserted, enough⟩ := holds.insert_isSome (l := c.raw) enough mem free
  have agrees := Call.exec_agrees accepted backs holds.toShape fun there => by
    obtain ⟨-, -, -, -, readable⟩ := tables.leaf holds there
    exact readable
  refine (agrees.of_some inserted).mono fun s' backs => tables.push accepted plain ⟨t', ?_, enough, backs⟩
  rw [List.map_append]
  exact (holds.insert inserted).2

theorem Tables.run {more : List Call} (tables : Tables root [] calls s) (plain : ∀ c ∈ more, c.Plain)
    (ran : more.foldlM (Call.exec (frameAddr root)) s = .ok s') : Tables root [] (calls ++ more) s' := by
  induction more generalizing calls s with
  | nil =>
    cases ran
    rwa [List.append_nil]
  | cons c more ih =>
    rw [List.foldlM_cons] at ran
    obtain ⟨s1, first, rest⟩ := bind_eq_ok ran
    obtain ⟨-, -, tables⟩ := tables.exec (plain c List.mem_cons_self) first
    have all := ih tables (fun d mem => plain d (List.mem_cons_of_mem c mem)) rest
    rwa [List.append_assoc] at all

theorem Tables.run_returns {more : List Call} (tables : Tables root need calls s)
    (each : ∀ c ∈ more, c.Accepted ∧ c.Plain ∧ ∀ q, q ≠ [] → q <+: c.dir → q ∈ need)
    (apart : (calls ++ more).Pairwise fun c d => ¬ Meets c.position d.position) :
    Returns (more.foldlM (Call.exec (frameAddr root)) s) (Tables root need (calls ++ more)) := by
  induction more generalizing calls s with
  | nil => exact .ok (by rwa [List.append_nil])
  | cons c more ih =>
    obtain ⟨accepted, plain, mem⟩ := each c List.mem_cons_self
    have before : ∀ d ∈ calls, ¬ Meets c.position d.position := fun d earlier meets =>
      (List.pairwise_append.mp apart).2.2 d earlier c List.mem_cons_self meets.symm
    rw [List.foldlM_cons]
    refine (tables.exec_returns accepted plain mem before).bind fun s1 tables => ?_
    have all := ih tables (fun d mem => each d (List.mem_cons_of_mem c mem)) (by simpa using apart)
    rwa [List.append_assoc] at all

/-- No two calls that returned meet. -/
theorem Tables.distinct (tables : Tables root need calls s) :
    calls.Pairwise fun c d => ¬ Meets c.position d.position := by
  obtain ⟨t, holds, -⟩ := tables.tree
  exact List.pairwise_map.mp holds.distinct

/-- The tables hold the calls; with one frame for each position that has no table yet, `spare` frames are left over. -/
def Tallied (root : Ppn) (need : List (List Index)) (spare : Nat) (calls : List Call) (s : Phys) : Prop :=
  ∃ t, Holds root (calls.map Call.entry) t ∧ Backs t s ∧ missing need t + spare = t.free.length

theorem Tallied.of_tables (tables : Tables root need [] s) (below : [] ∉ need) :
    Tallied root need (s.free.length - need.length) [] s := by
  obtain ⟨t, holds, enough, backs⟩ := tables.tree
  have none : missing need t = need.length := by
    refine List.countP_eq_length.mpr fun q mem => ?_
    cases there : t.node q with
    | none => rfl
    | some n =>
      cases n with
      | leaf raw => exact absurd (holds.leaf.mp there) (List.not_mem_nil)
      | table a =>
        rcases holds.table there with rfl | ⟨e, inside, -⟩
        · exact absurd mem below
        · exact absurd inside List.not_mem_nil
  have left : missing need t ≤ t.free.length := enough
  refine ⟨t, holds, backs, ?_⟩
  rw [backs.free, List.length_map]
  omega

theorem Tallied.exec {spare : Nat} (tallied : Tallied root need spare calls s) (nodup : need.Nodup)
    (plain : ∀ d ∈ calls, d.Plain) (accepted : c.Accepted) (mem : ∀ q, q ≠ [] → q <+: c.dir → q ∈ need)
    (fresh : c.position ∉ need) (ran : c.exec (frameAddr root) s = .ok s') : Tallied root need spare (calls ++ [c]) s' := by
  obtain ⟨t, holds, backs, sum⟩ := tallied
  obtain ⟨t', inserted, backs⟩ := (Call.exec_agrees accepted backs holds.toShape fun there => by
    obtain ⟨d, earlier, same⟩ := List.mem_map.mp (holds.leaf.mp there)
    obtain ⟨rfl, rfl⟩ := Prod.mk.inj same
    exact (plain d earlier).raw_readable).of_ok ran
  have spent := missing_insert nodup mem fresh inserted
  refine ⟨t', ?_, backs, by omega⟩
  rw [List.map_append]
  exact (holds.insert inserted).2

theorem Tallied.run {spare : Nat} {more : List Call} (tallied : Tallied root need spare calls s) (nodup : need.Nodup)
    (plain : ∀ d ∈ calls, d.Plain)
    (each : ∀ d ∈ more, d.Accepted ∧ d.Plain ∧ (∀ q, q ≠ [] → q <+: d.dir → q ∈ need) ∧ d.position ∉ need)
    (ran : more.foldlM (Call.exec (frameAddr root)) s = .ok s') : Tallied root need spare (calls ++ more) s' := by
  induction more generalizing calls s with
  | nil =>
    cases ran
    rwa [List.append_nil]
  | cons d more ih =>
    rw [List.foldlM_cons] at ran
    obtain ⟨s1, first, rest⟩ := bind_eq_ok ran
    obtain ⟨accepted, readable, mem, fresh⟩ := each d List.mem_cons_self
    have next := tallied.exec nodup plain accepted mem fresh first
    have plain' : ∀ e ∈ calls ++ [d], e.Plain := by
      simp only [List.forall_mem_append, List.forall_mem_singleton]
      exact ⟨plain, readable⟩
    have all := ih next plain' (fun e later => each e (List.mem_cons_of_mem d later)) rest
    rwa [List.append_assoc] at all

theorem Tallied.length_free {spare : Nat} (tallied : Tallied root need spare calls s)
    (filled : ∀ q ∈ need, ∃ d ∈ calls, q <+: d.position) : s.free.length = spare := by
  obtain ⟨t, holds, backs, sum⟩ := tallied
  have none : missing need t = 0 := by
    refine List.countP_eq_zero.mpr fun q mem => ?_
    obtain ⟨d, inside, rest, path⟩ := filled q mem
    have leaf : t.node (q ++ rest) = some (.leaf d.raw) := by
      rw [path]
      exact holds.leaf.mpr (List.mem_map_of_mem inside)
    cases there : t.node q with
    | none => simp [holds.below_empty there] at leaf
    | some n => simp
  rw [backs.free, List.length_map]
  omega

end

end Whimbrel.Page

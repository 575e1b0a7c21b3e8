import Mathlib.Data.List.Induction
import Mathlib.Data.List.Nodup
import Mathlib.Data.List.Pairwise
import Mathlib.Logic.Function.Basic

/-! Radix trees kept in tables.

A table has one entry for each index. An entry is empty, is a leaf, or names the
table one level down. The tree is given by what stands at each position, where a
position is the list of indices that leads to it from the root. Tables come from
a list of unused ones. As a whole the tree is a map with no key above another:
`Holds` says so, and the theorems about it are what users of the library need. -/

set_option autoImplicit false

namespace Radix

variable {A I L : Type}

inductive Node (A L : Type) where
  | table (a : A)
  | leaf (l : L)

/-- What stands at each position, and the tables still unused. -/
structure Store (A I L : Type) where
  node : List I → Option (Node A L)
  free : List A

def Meets (p q : List I) : Prop := p <+: q ∨ q <+: p

theorem Meets.symm {p q : List I} (meets : Meets p q) : Meets q p := Or.symm meets

namespace Store

/-- Follow the path from the table at `p` to a leaf; the indices after it are left over. -/
def find (s : Store A I L) : List I → List I → Option (L × List I)
  | _, [] => none
  | p, i :: rest =>
    match s.node (p ++ [i]) with
    | some (.leaf l) => some (l, rest)
    | some (.table _) => s.find (p ++ [i]) rest
    | none => none

variable [DecidableEq I]

def set (s : Store A I L) (p : List I) (n : Node A L) : Store A I L :=
  { s with node := Function.update s.node p (some n) }

/-- The table at `p`, taken from the unused ones if the position is empty. -/
def enter (s : Store A I L) (p : List I) : Option (Store A I L × A) :=
  match s.node p with
  | some (.table a) => some (s, a)
  | some (.leaf _) => none
  | none =>
    match s.free with
    | [] => none
    | a :: rest => some (set { s with free := rest } p (.table a), a)

/-- The table reached from the one at `p` by the path, with the missing ones added. -/
def openTo (s : Store A I L) (p : List I) (a : A) : List I → Option (Store A I L × A)
  | [] => some (s, a)
  | i :: rest => do
    let (s, b) ← s.enter (p ++ [i])
    s.openTo (p ++ [i]) b rest

def place (s : Store A I L) (p : List I) (l : L) : Option (Store A I L) :=
  match s.node p with
  | none => some (s.set p (.leaf l))
  | some _ => none

def insert (s : Store A I L) (root : A) (path : List I) (i : I) (l : L) : Option (Store A I L) := do
  let (s, _) ← s.openTo [] root path
  s.place (path ++ [i]) l

@[simp] theorem set_node (s : Store A I L) (p : List I) (n : Node A L) (q : List I) :
    (s.set p n).node q = if q = p then some n else s.node q :=
  Function.update_apply ..

end Store

/-! ## The shape -/

/-- Every node but the root stands in a table, every table at one position, and
no unused table is in the tree. -/
structure Shape (root : A) (s : Store A I L) : Prop where
  root : s.node [] = some (.table root)
  parent : ∀ {p i n}, s.node (p ++ [i]) = some n → ∃ a, s.node p = some (.table a)
  apart : ∀ {p q a}, s.node p = some (.table a) → s.node q = some (.table a) → p = q
  fresh : ∀ {p a}, s.node p = some (.table a) → a ∉ s.free
  nodup : s.free.Nodup

namespace Shape

variable {root : A} {s : Store A I L}

theorem empty [DecidableEq I] {free : List A} (distinct : (root :: free).Nodup) :
    Shape root (({ node := fun _ => none, free } : Store A I L).set [] (.table root)) := by
  obtain ⟨unused, nodup⟩ := List.nodup_cons.mp distinct
  have only {p : List I} {n : Node A L}
      (there : (({ node := fun _ => none, free } : Store A I L).set [] (.table root)).node p = some n) :
      p = [] ∧ n = .table root := by
    rw [Store.set_node] at there
    split at there
    · exact ⟨by assumption, (Option.some.inj there).symm⟩
    · cases there
  refine ⟨by simp, fun there => ?_, fun left right => ?_, fun there => ?_, nodup⟩
  · exact absurd (only there).1 (by simp)
  · rw [(only left).1, (only right).1]
  · cases (only there).2
    exact unused

theorem above (shape : Shape root s) {p q : List I} {n : Node A L} (there : s.node (p ++ q) = some n) (below : q ≠ []) :
    ∃ a, s.node p = some (.table a) := by
  induction q using List.reverseRecOn generalizing n with
  | nil => exact absurd rfl below
  | append_singleton q i ih =>
    rw [← List.append_assoc] at there
    obtain ⟨a, up⟩ := shape.parent there
    by_cases here : q = []
    · subst here
      exact ⟨a, by simpa using up⟩
    · exact ih up here

theorem leaf_lowest (shape : Shape root s) {p q : List I} {l : L} {n : Node A L} (leaf : s.node p = some (.leaf l))
    (there : s.node (p ++ q) = some n) : q = [] := by
  by_contra below
  obtain ⟨a, table⟩ := shape.above there below
  rw [leaf] at table
  cases table

theorem below_empty (shape : Shape root s) {p q : List I} (empty : s.node p = none) : s.node (p ++ q) = none := by
  by_cases here : q = []
  · rw [here, List.append_nil, empty]
  · cases there : s.node (p ++ q) with
    | none => rfl
    | some n =>
      obtain ⟨a, table⟩ := shape.above there here
      rw [empty] at table
      cases table

/-- The search finds the leaf on the path. -/
theorem find_eq_some_iff (shape : Shape root s) {p path rest : List I} {a : A} {l : L} (table : s.node p = some (.table a)) :
    s.find p path = some (l, rest) ↔ ∃ q, path = q ++ rest ∧ s.node (p ++ q) = some (.leaf l) := by
  have notHere : s.node (p ++ []) ≠ some (.leaf l) := by simp [table]
  induction path generalizing p a with
  | nil =>
    refine iff_of_false (by simp [Store.find]) ?_
    rintro ⟨q, same, leaf⟩
    obtain ⟨rfl, -⟩ := List.append_eq_nil_iff.mp same.symm
    exact notHere leaf
  | cons i path ih =>
    -- a leaf on the path is the first entry itself or below it
    have split : (∃ q, i :: path = q ++ rest ∧ s.node (p ++ q) = some (.leaf l)) ↔
        ∃ q, path = q ++ rest ∧ s.node (p ++ [i] ++ q) = some (.leaf l) := by
      constructor
      · rintro ⟨q, same, leaf⟩
        cases q with
        | nil => exact absurd leaf notHere
        | cons j q =>
          obtain ⟨rfl, tail⟩ := List.cons.inj same
          exact ⟨q, tail, by simpa using leaf⟩
      · rintro ⟨q, rfl, leaf⟩
        exact ⟨i :: q, rfl, by simpa using leaf⟩
    rw [split, Store.find]
    cases first : s.node (p ++ [i]) with
    | none =>
      refine iff_of_false (by simp) ?_
      rintro ⟨q, -, leaf⟩
      rw [shape.below_empty first] at leaf
      cases leaf
    | some n =>
      cases n with
      | leaf m =>
        simp only [Option.some.injEq, Prod.mk.injEq]
        constructor
        · rintro ⟨rfl, rfl⟩
          exact ⟨[], rfl, by simpa using first⟩
        · rintro ⟨q, rfl, leaf⟩
          obtain rfl := shape.leaf_lowest first leaf
          rw [List.append_nil, first] at leaf
          exact ⟨by simpa using leaf, rfl⟩
      | table b => exact ih first (by simp [first])

end Shape

section
variable [DecidableEq I] {root a b : A} {s s' : Store A I L} {p path : List I} {i : I} {l : L}

/-- A node at an empty entry of a table keeps the shape. -/
theorem Shape.set (shape : Shape root s) (table : s.node p = some (.table a)) (empty : s.node (p ++ [i]) = none)
    {n : Node A L} {free : List A} (nodup : free.Nodup) (fewer : ∀ b ∈ free, b ∈ s.free)
    (unused : ∀ b, n = .table b → b ∈ s.free ∧ b ∉ free) :
    Shape root (Store.set { s with free } (p ++ [i]) n) := by
  have old {q : List I} {m : Node A L} (there : s.node q = some m) : q ≠ p ++ [i] := by
    rintro rfl
    rw [empty] at there
    cases there
  refine ⟨?_, fun {q j m} there => ?_, fun {q r c} left right => ?_, fun {q c} there => ?_, nodup⟩
  · rw [Store.set_node, if_neg (old shape.root)]
    exact shape.root
  · -- the parent of the new node is `p`, any other node keeps its own
    have up : ∃ c, s.node q = some (.table c) := by
      rw [Store.set_node] at there
      split at there
      · rename_i same
        obtain rfl := List.append_inj_left' same rfl
        exact ⟨a, table⟩
      · exact shape.parent there
    obtain ⟨c, up⟩ := up
    exact ⟨c, by rw [Store.set_node, if_neg (old up)]; exact up⟩
  · rw [Store.set_node] at left right
    split at left <;> split at right
    · rename_i first second
      rw [first, second]
    · exact absurd (unused c (Option.some.inj left)).1 (shape.fresh right)
    · exact absurd (unused c (Option.some.inj right)).1 (shape.fresh left)
    · exact shape.apart left right
  · rw [Store.set_node] at there
    split at there
    · exact (unused c (Option.some.inj there)).2
    · exact fun mem => shape.fresh there (fewer c mem)

structure Opened (path : List I) (s s' : Store A I L) : Prop where
  kept : ∀ {q n}, s.node q = some n → s'.node q = some n
  added : ∀ {q n}, s'.node q = some n → s.node q = some n ∨ q <+: path ∧ ∃ a, n = .table a

omit [DecidableEq I] in
theorem Opened.refl (path : List I) (s : Store A I L) : Opened path s s := ⟨id, .inl⟩

omit [DecidableEq I] in
theorem Opened.trans {longer : List I} {s'' : Store A I L} (first : Opened path s s') (more : path <+: longer)
    (second : Opened longer s' s'') : Opened longer s s'' where
  kept there := second.kept (first.kept there)
  added there := (second.added there).elim
    (fun before => (first.added before).imp_right fun new => ⟨new.1.trans more, new.2⟩) .inr

theorem Shape.enter (shape : Shape root s) (table : s.node p = some (.table a))
    (done : s.enter (p ++ [i]) = some (s', b)) :
    Shape root s' ∧ Opened (p ++ [i]) s s' ∧ s'.node (p ++ [i]) = some (.table b) := by
  unfold Store.enter at done
  split at done
  · rename_i there
    cases done
    exact ⟨shape, .refl _ _, there⟩
  · cases done
  · rename_i empty
    split at done
    · cases done
    · rename_i free
      cases done
      -- The table that is taken was unused: it stands nowhere else in the tree.
      have nodup := shape.nodup
      rw [free, List.nodup_cons] at nodup
      refine ⟨shape.set table empty nodup.2 (by simp +contextual [free]) ?_, ⟨fun {q n} there => ?_, fun {q n} there => ?_⟩, by simp⟩
      · rintro c same
        cases same
        exact ⟨by simp [free], nodup.1⟩
      · rw [Store.set_node, if_neg]
        · exact there
        · rintro rfl
          rw [empty] at there
          cases there
      · rw [Store.set_node] at there
        split at there
        · rename_i same
          exact .inr ⟨same ▸ List.prefix_refl _, b, (Option.some.inj there).symm⟩
        · exact .inl there

theorem Shape.openTo (shape : Shape root s) (table : s.node p = some (.table a))
    (done : s.openTo p a path = some (s', b)) :
    Shape root s' ∧ Opened (p ++ path) s s' ∧ s'.node (p ++ path) = some (.table b) := by
  induction path generalizing s p a with
  | nil =>
    cases done
    exact ⟨shape, .refl _ _, by simpa using table⟩
  | cons i path ih =>
    obtain ⟨⟨s1, c⟩, entered, rest⟩ := Option.bind_eq_some_iff.mp done
    obtain ⟨shape, first, here⟩ := shape.enter table entered
    obtain ⟨shape, second, there⟩ := ih shape here rest
    rw [List.append_assoc, List.singleton_append] at second there
    exact ⟨shape, first.trans ⟨path, by simp⟩ second, there⟩

/-- There is an unused table for each of the positions that has none yet. -/
def Enough (need : List (List I)) (s : Store A I L) : Prop :=
  need.countP (fun q => (s.node q).isNone) ≤ s.free.length

omit [DecidableEq I] in
theorem Enough.mono {need : List (List I)} (enough : Enough need s) (same : s'.free = s.free)
    (kept : ∀ {q n}, s.node q = some n → ∃ m, s'.node q = some m) : Enough need s' := by
  rw [Enough, same]
  refine Nat.le_trans (List.countP_mono_left fun q _ empty => ?_) enough
  cases there : s.node q with
  | none => rfl
  | some n =>
    obtain ⟨m, after⟩ := kept there
    rw [after] at empty
    cases empty

theorem Enough.set {need : List (List I)} {rest : List A} (enough : Enough need s) (mem : p ∈ need)
    (empty : s.node p = none) (free : s.free = b :: rest) {n : Node A L} :
    Enough need (Store.set { s with free := rest } p n) := by
  have before : 0 < need.countP (fun q => (s.node q).isNone && decide (q = p)) :=
    List.countP_pos_iff.mpr ⟨p, mem, by simp [empty]⟩
  have split := List.countP_eq_countP_filter_add need (fun q => (s.node q).isNone) fun q => decide (q = p)
  have after : need.countP (fun q => ((Store.set { s with free := rest } p n).node q).isNone) =
      (need.filter fun q => !decide (q = p)).countP fun q => (s.node q).isNone := by
    rw [List.countP_filter]
    refine List.countP_congr fun q _ => ?_
    by_cases here : q = p <;> simp [here]
  rw [List.countP_filter] at split
  rw [Enough, free, List.length_cons] at enough
  rw [Enough, after]
  change _ ≤ rest.length
  omega

theorem Enough.enter {need : List (List I)} (enough : Enough need s) (mem : p ∈ need)
    (noLeaf : ∀ l, s.node p ≠ some (.leaf l)) : ∃ s' b, s.enter p = some (s', b) ∧ Enough need s' := by
  unfold Store.enter
  split
  · exact ⟨s, _, rfl, enough⟩
  · rename_i there
    exact absurd there (noLeaf _)
  · rename_i empty
    split
    · rename_i none
      have pos : 0 < need.countP (fun q => (s.node q).isNone) := List.countP_pos_iff.mpr ⟨p, mem, by simp [empty]⟩
      rw [Enough, none, List.length_nil] at enough
      omega
    · rename_i free
      exact ⟨_, _, rfl, enough.set mem empty free⟩

theorem Enough.openTo {need : List (List I)} (shape : Shape root s) (enough : Enough need s)
    (table : s.node p = some (.table a)) (mem : ∀ q, q ≠ [] → q <+: path → p ++ q ∈ need)
    (noLeaf : ∀ q, q <+: p ++ path → ∀ l, s.node q ≠ some (.leaf l)) :
    ∃ s' b, s.openTo p a path = some (s', b) ∧ Enough need s' := by
  induction path generalizing s p a with
  | nil => exact ⟨s, a, rfl, enough⟩
  | cons i path ih =>
    have onPath : p ++ [i] <+: p ++ i :: path := ⟨path, by simp⟩
    obtain ⟨s1, c, entered, enough⟩ := enough.enter (mem [i] (by simp) ⟨path, rfl⟩) (noLeaf _ onPath)
    obtain ⟨shape, opened, here⟩ := shape.enter table entered
    obtain ⟨s', b, rest, enough⟩ := ih shape enough here
      (fun q _ more => by
        rw [List.append_assoc]
        exact mem (i :: q) (by simp) (List.cons_prefix_cons.mpr ⟨rfl, more⟩))
      (fun q more l leaf => by
        rcases opened.added leaf with before | ⟨-, c, same⟩
        · exact noLeaf q (by simpa using more) l before
        · cases same)
    exact ⟨s', b, by rw [Store.openTo, entered]; exact rest, enough⟩

def missing (need : List (List I)) (s : Store A I L) : Nat := need.countP fun q => (s.node q).isNone

section
variable {need : List (List I)}

/-- A table is taken for each position that is filled. -/
theorem missing_enter (nodup : need.Nodup) (mem : p ∈ need) (entered : s.enter p = some (s', b)) :
    missing need s' + s.free.length = missing need s + s'.free.length := by
  unfold Store.enter at entered
  split at entered
  · cases entered
    rfl
  · cases entered
  · rename_i empty
    split at entered
    · cases entered
    · rename_i rest free
      cases entered
      -- `p` is counted once among the positions without a node, and no longer afterwards.
      have here : need.countP (fun q => (s.node q).isNone && decide (q = p)) = 1 := by
        rw [← List.count_eq_one_of_mem nodup mem, List.count]
        refine List.countP_congr fun q _ => ?_
        by_cases same : q = p <;> simp [same, empty]
      have split := List.countP_eq_countP_filter_add need (fun q => (s.node q).isNone) fun q => decide (q = p)
      have after : missing need (Store.set { s with free := rest } p (.table b)) =
          (need.filter fun q => !decide (q = p)).countP fun q => (s.node q).isNone := by
        rw [missing, List.countP_filter]
        refine List.countP_congr fun q _ => ?_
        by_cases same : q = p <;> simp [same]
      rw [List.countP_filter, here] at split
      have length : (Store.set { s with free := rest } p (.table b)).free.length = rest.length := rfl
      rw [after, missing, split, length, free, List.length_cons]
      omega

theorem missing_openTo (nodup : need.Nodup) (mem : ∀ q, q ≠ [] → q <+: path → p ++ q ∈ need)
    (opens : s.openTo p a path = some (s', b)) : missing need s' + s.free.length = missing need s + s'.free.length := by
  induction path generalizing s p a with
  | nil =>
    cases opens
    rfl
  | cons i path ih =>
    rw [Store.openTo, Option.bind_eq_bind, Option.bind_eq_some_iff] at opens
    obtain ⟨⟨s1, c⟩, entered, rest⟩ := opens
    have first := missing_enter nodup (mem [i] (by simp) ⟨path, rfl⟩) entered
    have second := ih (fun q _ more => by
      rw [List.append_assoc]
      exact mem (i :: q) (by simp) (List.cons_prefix_cons.mpr ⟨rfl, more⟩)) rest
    omega

theorem missing_insert {i : I} {l : L} (nodup : need.Nodup) (mem : ∀ q, q ≠ [] → q <+: path → q ∈ need)
    (fresh : path ++ [i] ∉ need) (done : s.insert root path i l = some s') :
    missing need s' + s.free.length = missing need s + s'.free.length := by
  rw [Store.insert, Option.bind_eq_bind, Option.bind_eq_some_iff] at done
  obtain ⟨⟨s1, b⟩, opens, placed⟩ := done
  have opened := missing_openTo nodup (p := []) (by simpa using mem) opens
  cases there : s1.node (path ++ [i]) with
  | none =>
    unfold Store.place at placed
    dsimp only at placed
    rw [there] at placed
    cases placed
    -- The leaf's own position is not one of those counted.
    have same : missing need (s1.set (path ++ [i]) (.leaf l)) = missing need s1 := by
      refine List.countP_congr fun q inside => ?_
      rw [Store.set_node, if_neg]
      rintro rfl
      exact fresh inside
    rw [same]
    exact opened
  | some n =>
    unfold Store.place at placed
    dsimp only at placed
    rw [there] at placed
    cases placed

end

/-! ## The tree as a map -/

/-- The tree is in shape, its leaves are the entries, and its tables are there for the entries. -/
structure Holds (root : A) (entries : List (List I × L)) (s : Store A I L) : Prop extends Shape root s where
  leaf : ∀ {q l}, s.node q = some (.leaf l) ↔ (q, l) ∈ entries
  table : ∀ {q a}, s.node q = some (.table a) → q = [] ∨ ∃ e ∈ entries, q <+: e.1
  distinct : entries.Pairwise fun e f => ¬ Meets e.1 f.1

theorem Holds.empty {free : List A} (distinct : (root :: free).Nodup) :
    Holds root [] (({ node := fun _ => none, free } : Store A I L).set [] (.table root)) := by
  refine { Shape.empty distinct with leaf := ?_, table := ?_, distinct := .nil }
  · intro q l
    simp only [Store.set_node, List.not_mem_nil, iff_false]
    split <;> simp
  · intro q a there
    rw [Store.set_node] at there
    split at there
    · exact .inl (by assumption)
    · cases there

variable {entries : List (List I × L)}

omit [DecidableEq I] in
theorem Holds.find_eq_some_iff (holds : Holds root entries s) {rest : List I} :
    s.find [] path = some (l, rest) ↔ ∃ q, path = q ++ rest ∧ (q, l) ∈ entries := by
  rw [holds.toShape.find_eq_some_iff holds.root]
  simp only [List.nil_append, holds.leaf]

omit [DecidableEq I] in
theorem Holds.clear_iff (holds : Holds root entries s) (below : path ≠ []) :
    (s.node path = none ∧ ∀ q, q <+: path → ∀ l, s.node q ≠ some (.leaf l)) ↔ ∀ e ∈ entries, ¬ Meets path e.1 := by
  constructor
  · rintro ⟨empty, noLeaf⟩ ⟨q, l⟩ mem (⟨r, rfl⟩ | up)
    · have there := holds.leaf.mpr mem
      rw [holds.below_empty empty] at there
      cases there
    · exact noLeaf q up l (holds.leaf.mpr mem)
  · intro apart
    refine ⟨?_, fun q up l leaf => apart _ (holds.leaf.mp leaf) (.inr up)⟩
    cases there : s.node path with
    | none => rfl
    | some n =>
      cases n with
      | leaf l => exact absurd (.inl (List.prefix_refl path)) (apart _ (holds.leaf.mp there))
      | table a =>
        rcases holds.table there with top | ⟨e, mem, up⟩
        · exact absurd top below
        · exact absurd (.inl up) (apart e mem)

/-- A leaf that was inserted met no entry, and is a new one. -/
theorem Holds.insert (holds : Holds root entries s) (done : s.insert root path i l = some s') :
    (∀ e ∈ entries, ¬ Meets (path ++ [i]) e.1) ∧ Holds root (entries ++ [(path ++ [i], l)]) s' := by
  obtain ⟨⟨s1, b⟩, opens, placed⟩ := Option.bind_eq_some_iff.mp done
  obtain ⟨shape, opened, table⟩ := holds.toShape.openTo holds.root opens
  rw [List.nil_append] at opened table
  change s1.place (path ++ [i]) l = some s' at placed
  unfold Store.place at placed
  split at placed
  · rename_i empty
    cases placed
    have before : s.node (path ++ [i]) = none := by
      cases there : s.node (path ++ [i]) with
      | none => rfl
      | some n => rw [opened.kept there] at empty; cases empty
    have noLeaf : ∀ q, q <+: path ++ [i] → ∀ l, s.node q ≠ some (.leaf l) := by
      rintro q ⟨r, same⟩ l leaf
      -- the table at `path` lies below `q`
      rcases List.eq_nil_or_concat r with rfl | ⟨r, j, rfl⟩
      · rw [← same, List.append_nil, leaf] at before
        cases before
      · rw [List.concat_eq_append, ← List.append_assoc] at same
        obtain rfl := List.append_inj_left' same rfl
        obtain rfl := shape.leaf_lowest (opened.kept leaf) table
        rw [List.append_nil] at table
        rw [opened.kept leaf] at table
        cases table
    have apart := (holds.clear_iff (by simp)).mp ⟨before, noLeaf⟩
    refine ⟨apart, { shape.set table empty shape.nodup (fun _ mem => mem) (by simp) with leaf := ?_, table := ?_, distinct := ?_ }⟩
    · intro q m
      rw [List.mem_append, List.mem_singleton, Prod.mk.injEq, Store.set_node]
      split
      · rename_i same
        subst same
        have absent : (path ++ [i], m) ∉ entries := fun mem => by
          rw [← holds.leaf, before] at mem
          cases mem
        simp [absent, eq_comm]
      · rename_i other
        simp only [other, false_and, or_false, ← holds.leaf]
        refine ⟨fun leaf => ?_, opened.kept⟩
        rcases opened.added leaf with old | ⟨-, c, same⟩
        · exact old
        · cases same
    · intro q c there
      rw [Store.set_node] at there
      split at there
      · cases there
      · rcases opened.added there with old | ⟨up, -⟩
        · rcases holds.table old with top | ⟨e, mem, up⟩
          · exact .inl top
          · exact .inr ⟨e, List.mem_append_left _ mem, up⟩
        · exact .inr ⟨_, List.mem_append_right _ (List.mem_singleton_self _), up.trans (List.prefix_append _ _)⟩
    · refine List.pairwise_append.mpr ⟨holds.distinct, List.pairwise_singleton _ _, fun e mem f new meets => ?_⟩
      rw [List.mem_singleton.mp new] at meets
      exact apart e mem meets.symm
  · cases placed

/-- A leaf that meets no entry can be inserted while there are tables for the path. -/
theorem Holds.insert_isSome {need : List (List I)} (holds : Holds root entries s) (enough : Enough need s)
    (mem : ∀ q, q ≠ [] → q <+: path → q ∈ need) (apart : ∀ e ∈ entries, ¬ Meets (path ++ [i]) e.1) :
    ∃ s', s.insert root path i l = some s' ∧ Enough need s' := by
  obtain ⟨empty, noLeaf⟩ := (holds.clear_iff (by simp)).mpr apart
  obtain ⟨s1, b, opens, enough⟩ := enough.openTo holds.toShape holds.root (by simpa using mem)
    fun q up => noLeaf q (up.trans (List.prefix_append _ _))
  obtain ⟨-, opened, -⟩ := holds.toShape.openTo holds.root opens
  rw [List.nil_append] at opened
  -- New tables lie above the leaf's position, never at it.
  have still : s1.node (path ++ [i]) = none := by
    cases there : s1.node (path ++ [i]) with
    | none => rfl
    | some n =>
      rcases opened.added there with old | ⟨up, -⟩
      · rw [empty] at old
        cases old
      · exact absurd up.length_le (by simp)
  refine ⟨s1.set (path ++ [i]) (.leaf l), ?_, enough.mono rfl fun {q n} there => ?_⟩
  · rw [Store.insert, opens]
    change s1.place (path ++ [i]) l = _
    rw [Store.place, still]
  · rw [Store.set_node]
    split
    · exact ⟨_, rfl⟩
    · exact ⟨n, there⟩

end

end Radix

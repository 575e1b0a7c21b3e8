import Mathlib.Algebra.Order.Ring.Unbundled.Rat
import Mathlib.Data.List.Sort
import Mathlib.Order.Defs.LinearOrder
import Mathlib.Tactic.Linarith

/-! The closing paragraphs of the regime witness: `structural_finding` of
`scripts/regime-witness.py`.

Times are milliseconds. A paragraph is the values it states; the text around
them is fixed. -/

set_option autoImplicit false

namespace Whimbrel.Regime

def divideMs : ℚ := 14
def dipBelowMedianMs : ℚ := 1
def slack : ℚ := 1 / 10 ^ 9

inductive Side where
  | deflated
  | inflated
  deriving DecidableEq, Repr

def regimeSide (ms : ℚ) : Side := if ms < divideMs then .deflated else .inflated

abbrev Batch := Vector ℚ 3

/-- A boot with the idle time before it: batch from zero, trial from one. -/
structure Gap where
  batch : Nat
  trial : Nat
  pv : ℚ
  gap : ℚ

/-- The join of a campaign's warmups; a campaign has at least two batches. -/
structure Warmup where
  safe : List Batch
  m : Option (List Batch)
  gaps : List Gap
  two : 2 ≤ safe.length

/-- `canary` is the page_verify time of the canary: the text column and `canary_pv` are both there or both absent. -/
structure Campaign where
  label : String
  med : ℚ
  canary : Option ℚ
  warmup : Option Warmup

def median (data : List ℚ) : ℚ :=
  let sorted := data.insertionSort (· ≤ ·)
  let n := sorted.length
  if n % 2 = 1 then sorted.getD (n / 2) 0 else (sorted.getD (n / 2 - 1) 0 + sorted.getD (n / 2) 0) / 2

def isDip (val : ℚ) (siblings : List ℚ) : Bool := siblings ≠ [] ∧ median siblings - val ≥ dipBelowMedianMs

/-- All values but the one at batch `bi` and position `ti`, from one. -/
def others (batches : List Batch) (bi ti : Nat) : List ℚ :=
  batches.zipIdx.flatMap fun (wu, bj) =>
    wu.toList.zipIdx.filterMap fun (v, tk) => if bj = bi ∧ tk + 1 = ti then none else some v

def firstDips (batches : List Batch) : List (Nat × ℚ) :=
  batches.zipIdx.filterMap fun (wu, bi) => if isDip wu[0] (others batches bi 1) then some (bi, wu[0]) else none

def Warmup.first (w : Warmup) (bi : Nat) : ℚ := ((w.safe[bi]?).map (·[0])).getD 0

def Campaign.disagrees (r : Campaign) : Bool :=
  match r.canary with
  | none => false
  | some canary => regimeSide canary ≠ regimeSide r.med

/-- One campaign of the paragraph on the join: `b2` is called the deflated warmup. -/
structure Bit where
  label : String
  canary : ℚ
  b1 : ℚ
  b2 : ℚ
  deriving DecidableEq

structure MDip where
  label : String
  batch : Nat
  value : ℚ
  med : ℚ
  deriving DecidableEq

inductive Paragraph where
  /-- The number of disagreements and their labels. -/
  | canary (count : Nat) (labels : List String)
  /-- The warmup that is deflated is not the first boot. -/
  | join (bits : List Bit)
  /-- The cluster and its size; with nothing outside, every second batch starts in it. -/
  | cluster (lo hi : ℚ) (boots : Nat) (outside : List (String × ℚ))
  | mLane (dips : List MDip)
  /-- The two ranges overlap. -/
  | gaps (dipLo dipHi otherLo otherHi : ℚ)
  deriving DecidableEq

inductive Fail where
  | noWarmups
  | noCluster
  deriving DecidableEq, Repr

section
variable (rows : List Campaign)

/-- The campaigns with a warmup join. -/
def joined : List (Campaign × Warmup) := rows.filterMap fun r => r.warmup.map fun w => (r, w)

def cluster : List ℚ :=
  (joined rows).flatMap fun (r, w) =>
    (if r.disagrees then r.canary.toList else []) ++ (firstDips w.safe).map (·.2)

def b2FirstInflated : List (String × ℚ) :=
  (joined rows).filterMap fun (r, w) => if r.med ≥ divideMs then some (r.label, w.first 1) else none

def notInstant : List Bit :=
  (joined rows).filterMap fun (r, w) =>
    match r.canary with
    | none => none
    | some canary =>
      if regimeSide canary ≠ regimeSide (w.first 0) then some ⟨r.label, canary, w.first 0, w.first 1⟩ else none

def mDips : List MDip :=
  (joined rows).flatMap fun (r, w) =>
    match w.m with
    | none => []
    | some m => (firstDips m).map fun (bi, v) => ⟨r.label, bi + 1, v, median (others m bi 1)⟩

/-- The gaps of the inflated campaigns, with the others of the boot. -/
def inflatedGaps : List (Gap × List ℚ) :=
  (joined rows).flatMap fun (r, w) =>
    if r.med < divideMs then [] else w.gaps.map fun g => (g, others w.safe g.batch g.trial)

def dipGaps : List ℚ := ((inflatedGaps rows).filter fun g => isDip g.1.pv g.2).map (·.1.gap)

def otherGaps : List ℚ := ((inflatedGaps rows).filter fun g => ¬ isDip g.1.pv g.2).map (·.1.gap)

def structuralFinding : Except Fail (List Paragraph) :=
  if joined rows = [] then .error .noWarmups
  else
    match (cluster rows).min?, (cluster rows).max? with
    | some clo, some chi =>
      let outside := (b2FirstInflated rows).filter fun b => ¬ (clo - slack ≤ b.2 ∧ b.2 ≤ chi + slack)
      let disagrees := rows.filter Campaign.disagrees
      .ok <|
        [.canary disagrees.length (disagrees.map (·.label))] ++
        (if notInstant rows ≠ [] then [.join (notInstant rows)] else []) ++
        [.cluster clo chi (cluster rows).length outside] ++
        (if mDips rows ≠ [] then [.mLane (mDips rows)] else []) ++
        (match (dipGaps rows).min?, (dipGaps rows).max?, (otherGaps rows).min?, (otherGaps rows).max? with
          | some dipLo, some dipHi, some otherLo, some otherHi => [.gaps dipLo dipHi otherLo otherHi]
          | _, _, _, _ => [])
    | _, _ => .error .noCluster

end

/-! ## What the paragraphs say -/

/-- Canary and recorded median lie on different sides of the divide. -/
def Opposite (r : Campaign) (canary : ℚ) : Prop := r.canary = some canary ∧ ¬ (canary < divideMs ↔ r.med < divideMs)

theorem opposite_iff {r : Campaign} {canary : ℚ} (given : r.canary = some canary) :
    (∃ c, Opposite r c) ↔ ¬ (canary < divideMs ↔ r.med < divideMs) := by
  constructor
  · rintro ⟨c, same, sides⟩
    cases given.symm.trans same
    exact sides
  · exact fun sides => ⟨canary, given, sides⟩

instance (r : Campaign) : Decidable (∃ c, Opposite r c) :=
  match given : r.canary with
  | none => isFalse fun ⟨_, same, _⟩ => Option.some_ne_none _ (same.symm.trans given)
  | some _ => decidable_of_iff _ (opposite_iff given).symm

def FirstDip (w : Warmup) (v : ℚ) : Prop :=
  ∃ bi wu, w.safe[bi]? = some wu ∧ isDip wu[0] (others w.safe bi 1) = true ∧ v = wu[0]

section
variable (rows : List Campaign)

/-- The disagreeing canaries and the dips at position one. -/
def Clustered : Set ℚ :=
  { v | ∃ r ∈ rows, Opposite r v ∨ ∃ w, r.warmup = some w ∧ FirstDip w v }

def JoinedClustered : Set ℚ :=
  { v | ∃ r ∈ rows, ∃ w, r.warmup = some w ∧ (Opposite r v ∨ FirstDip w v) }

/-- The first warmup of the second batch of an inflated campaign. -/
def SecondFirst (v : ℚ) : Prop := ∃ r ∈ rows, ∃ w, r.warmup = some w ∧ divideMs ≤ r.med ∧ v = w.first 1

/-- The idle time before a boot of an inflated campaign that dips, or does not. -/
def IdleGap (dips : Bool) (gap : ℚ) : Prop :=
  ∃ r ∈ rows, ∃ w, r.warmup = some w ∧ divideMs ≤ r.med ∧
    ∃ g ∈ w.gaps, isDip g.pv (others w.safe g.batch g.trial) = dips ∧ gap = g.gap

/-- The paragraphs are true of the campaigns. Those on the canaries and on the cluster are always there, each
once. -/
structure Truthful (paras : List Paragraph) : Prop where
  disagreements : ∀ count labels, .canary count labels ∈ paras ↔
    count = (rows.filter fun r => ∃ c, Opposite r c).length ∧
    labels = (rows.filter fun r => ∃ c, Opposite r c).map (·.label)
  deflated : ∀ bits, .join bits ∈ paras → ∀ b ∈ bits,
    (∃ r ∈ rows, ∃ w, r.warmup = some w ∧ b.label = r.label ∧ b.b1 = w.first 0 ∧ b.b2 = w.first 1) ∧
    b.b2 < divideMs ∧ ¬ b.b1 < divideMs
  range : ∃ clo chi boots outside,
    (∀ lo hi n far, .cluster lo hi n far ∈ paras ↔ lo = clo ∧ hi = chi ∧ n = boots ∧ far = outside) ∧
    IsLeast (Clustered rows) clo ∧ IsGreatest (Clustered rows) chi ∧
    (outside = [] ↔ ∀ v, SecondFirst rows v → clo ≤ v ∧ v ≤ chi)
  overlap : ∀ dipLo dipHi otherLo otherHi, .gaps dipLo dipHi otherLo otherHi ∈ paras →
    IsLeast { a | IdleGap rows true a } dipLo ∧ IsGreatest { a | IdleGap rows true a } dipHi ∧
    IsLeast { b | IdleGap rows false b } otherLo ∧ IsGreatest { b | IdleGap rows false b } otherHi ∧
    (Set.Icc dipLo dipHi ∩ Set.Icc otherLo otherHi).Nonempty

/-- What the script does not test: a disagreeing canary without warmups lies among the others; a
canary that is not on the side of the first boot has an inflated first boot and a deflated second
batch; second batches within the slack of the cluster are in it; the two kinds of gaps interleave. -/
structure Supported : Prop where
  unjoined : ∀ r ∈ rows, r.warmup = none → ∀ c, Opposite r c →
    (∃ a ∈ JoinedClustered rows, a ≤ c) ∧ ∃ b ∈ JoinedClustered rows, c ≤ b
  deflated : ∀ r ∈ rows, ∀ w c, r.warmup = some w → r.canary = some c → ¬ (c < divideMs ↔ w.first 0 < divideMs) →
    w.first 1 < divideMs ∧ ¬ w.first 0 < divideMs
  near : (∀ v, SecondFirst rows v → (∃ a ∈ JoinedClustered rows, a - slack ≤ v) ∧ ∃ b ∈ JoinedClustered rows, v ≤ b + slack) →
    ∀ v, SecondFirst rows v → (∃ a ∈ JoinedClustered rows, a ≤ v) ∧ ∃ b ∈ JoinedClustered rows, v ≤ b
  overlap : (∃ a, IdleGap rows true a) → (∃ b, IdleGap rows false b) →
    (∃ a b, IdleGap rows true a ∧ IdleGap rows false b ∧ a ≤ b) ∧ ∃ a b, IdleGap rows true a ∧ IdleGap rows false b ∧ b ≤ a

end

section
variable {rows : List Campaign} {r : Campaign} {w : Warmup} {v : ℚ}

theorem regimeSide_ne {a b : ℚ} : regimeSide a ≠ regimeSide b ↔ ¬ (a < divideMs ↔ b < divideMs) := by
  unfold regimeSide
  by_cases left : a < divideMs <;> by_cases right : b < divideMs <;> simp [left, right]

theorem disagrees_iff : r.disagrees = true ↔ ∃ c, Opposite r c := by
  unfold Campaign.disagrees
  cases given : r.canary with
  | none => simp [Opposite, given]
  | some canary =>
    rw [opposite_iff given, decide_eq_true_eq]
    exact regimeSide_ne

theorem mem_joined : (r, w) ∈ joined rows ↔ r ∈ rows ∧ r.warmup = some w := by
  unfold joined
  simp only [List.mem_filterMap, Option.map_eq_some_iff, Prod.mk.injEq]
  constructor
  · rintro ⟨r, mem, w, given, rfl, rfl⟩
    exact ⟨mem, given⟩
  · rintro ⟨mem, given⟩
    exact ⟨r, mem, w, given, rfl, rfl⟩

theorem mem_firstDips : v ∈ (firstDips w.safe).map (·.2) ↔ FirstDip w v := by
  unfold firstDips FirstDip
  simp only [List.mem_map, List.mem_filterMap, List.mem_zipIdx_iff_getElem?, Prod.exists]
  constructor
  · rintro ⟨bi, v, ⟨wu, _, there, dip⟩, rfl⟩
    split at dip
    · rename_i is
      cases dip
      exact ⟨bi, wu, there, is, rfl⟩
    · cases dip
  · rintro ⟨bi, wu, there, dip, rfl⟩
    exact ⟨bi, wu[0], ⟨wu, bi, there, if_pos dip⟩, rfl⟩

theorem mem_disagreeing : v ∈ (if r.disagrees then r.canary.toList else []) ↔ Opposite r v := by
  by_cases disagrees : r.disagrees = true
  · obtain ⟨c, given, sides⟩ := disagrees_iff.mp disagrees
    rw [if_pos disagrees, given, Option.toList_some, List.mem_singleton]
    constructor
    · rintro rfl
      exact ⟨given, sides⟩
    · rintro ⟨same, -⟩
      exact Option.some.inj (same.symm.trans given)
  · rw [if_neg disagrees]
    exact ⟨fun none => absurd none List.not_mem_nil, fun opposite => absurd (disagrees_iff.mpr ⟨v, opposite⟩) disagrees⟩

theorem mem_cluster : v ∈ cluster rows ↔ v ∈ JoinedClustered rows := by
  unfold cluster JoinedClustered
  simp only [List.mem_flatMap, Prod.exists, mem_joined, List.mem_append, mem_firstDips, mem_disagreeing, Set.mem_ofPred_eq]
  constructor
  · rintro ⟨r, w, ⟨mem, given⟩, inside⟩
    exact ⟨r, mem, w, given, inside⟩
  · rintro ⟨r, mem, w, given, inside⟩
    exact ⟨r, w, ⟨mem, given⟩, inside⟩

theorem mem_b2FirstInflated : (∃ label, (label, v) ∈ b2FirstInflated rows) ↔ SecondFirst rows v := by
  unfold b2FirstInflated SecondFirst
  simp only [List.mem_filterMap, Prod.exists, mem_joined]
  constructor
  · rintro ⟨label, r, w, ⟨mem, given⟩, chosen⟩
    split at chosen
    · rename_i inflated
      cases chosen
      exact ⟨r, mem, w, given, inflated, rfl⟩
    · cases chosen
  · rintro ⟨r, mem, w, given, inflated, rfl⟩
    exact ⟨r.label, r, w, ⟨mem, given⟩, if_pos inflated⟩

theorem mem_notInstant {b : Bit} : b ∈ notInstant rows ↔ ∃ r ∈ rows, ∃ w c, r.warmup = some w ∧ r.canary = some c ∧
    ¬ (c < divideMs ↔ w.first 0 < divideMs) ∧ b = ⟨r.label, c, w.first 0, w.first 1⟩ := by
  unfold notInstant
  simp only [List.mem_filterMap, Prod.exists, mem_joined]
  constructor
  · rintro ⟨r, w, ⟨mem, given⟩, chosen⟩
    split at chosen
    · cases chosen
    · rename_i c canary
      split at chosen
      · rename_i sides
        cases chosen
        exact ⟨r, mem, w, c, given, canary, regimeSide_ne.mp sides, rfl⟩
      · cases chosen
  · rintro ⟨r, mem, w, c, given, canary, sides, rfl⟩
    refine ⟨r, w, ⟨mem, given⟩, ?_⟩
    rw [canary]
    exact if_pos (regimeSide_ne.mpr sides)

theorem mem_inflatedGaps {g : Gap} {siblings : List ℚ} : (g, siblings) ∈ inflatedGaps rows ↔
    ∃ r ∈ rows, ∃ w, r.warmup = some w ∧ divideMs ≤ r.med ∧ g ∈ w.gaps ∧ siblings = others w.safe g.batch g.trial := by
  unfold inflatedGaps
  simp only [List.mem_flatMap, Prod.exists, mem_joined]
  constructor
  · rintro ⟨r, w, ⟨mem, given⟩, chosen⟩
    split at chosen
    · exact absurd chosen List.not_mem_nil
    · rename_i inflated
      obtain ⟨g', gap, same⟩ := List.mem_map.mp chosen
      cases same
      exact ⟨r, mem, w, given, not_lt.mp inflated, gap, rfl⟩
  · rintro ⟨r, mem, w, given, inflated, gap, rfl⟩
    refine ⟨r, w, ⟨mem, given⟩, ?_⟩
    rw [if_neg (not_lt.mpr inflated)]
    exact List.mem_map.mpr ⟨g, gap, rfl⟩

theorem mem_dipGaps : v ∈ dipGaps rows ↔ IdleGap rows true v := by
  unfold dipGaps IdleGap
  simp only [List.mem_map, List.mem_filter, Prod.exists, mem_inflatedGaps]
  constructor
  · rintro ⟨g, _, ⟨⟨r, mem, w, given, inflated, gap, rfl⟩, dips⟩, rfl⟩
    exact ⟨r, mem, w, given, inflated, g, gap, dips, rfl⟩
  · rintro ⟨r, mem, w, given, inflated, g, gap, dips, rfl⟩
    exact ⟨g, _, ⟨⟨r, mem, w, given, inflated, gap, rfl⟩, dips⟩, rfl⟩

theorem mem_otherGaps : v ∈ otherGaps rows ↔ IdleGap rows false v := by
  unfold otherGaps IdleGap
  simp only [List.mem_map, List.mem_filter, Prod.exists, mem_inflatedGaps, decide_eq_true_eq, Bool.not_eq_true]
  constructor
  · rintro ⟨g, _, ⟨⟨r, mem, w, given, inflated, gap, rfl⟩, level⟩, rfl⟩
    exact ⟨r, mem, w, given, inflated, g, gap, level, rfl⟩
  · rintro ⟨r, mem, w, given, inflated, g, gap, level, rfl⟩
    exact ⟨g, _, ⟨⟨r, mem, w, given, inflated, gap, rfl⟩, level⟩, rfl⟩

theorem isLeast_of_min? {l : List ℚ} {S : Set ℚ} {a : ℚ} (least : l.min? = some a) (same : ∀ v, v ∈ l ↔ v ∈ S) :
    IsLeast S a := by
  obtain ⟨mem, below⟩ := List.min?_eq_some_iff.mp least
  exact ⟨(same a).mp mem, fun v inside => below v ((same v).mpr inside)⟩

theorem isGreatest_of_max? {l : List ℚ} {S : Set ℚ} {a : ℚ} (greatest : l.max? = some a) (same : ∀ v, v ∈ l ↔ v ∈ S) :
    IsGreatest S a := by
  obtain ⟨mem, above⟩ := List.max?_eq_some_iff.mp greatest
  exact ⟨(same a).mp mem, fun v inside => above v ((same v).mpr inside)⟩

theorem mem_optional {c : Prop} [Decidable c] {p q : Paragraph} : p ∈ (if c then [q] else []) ↔ c ∧ p = q := by
  by_cases holds : c <;> simp [holds]

theorem mem_gapParas {p : Paragraph} {a b c d : Option ℚ} :
    p ∈ (match a, b, c, d with
      | some dipLo, some dipHi, some otherLo, some otherHi => [Paragraph.gaps dipLo dipHi otherLo otherHi]
      | _, _, _, _ => []) ↔
    ∃ dipLo dipHi otherLo otherHi, a = some dipLo ∧ b = some dipHi ∧ c = some otherLo ∧ d = some otherHi ∧
      p = .gaps dipLo dipHi otherLo otherHi := by
  cases a <;> cases b <;> cases c <;> cases d <;> simp

theorem structuralFinding_ok {paras : List Paragraph} (ok : structuralFinding rows = .ok paras) :
    ∃ clo chi, (cluster rows).min? = some clo ∧ (cluster rows).max? = some chi ∧
      (∀ count labels, .canary count labels ∈ paras ↔
        count = (rows.filter Campaign.disagrees).length ∧ labels = (rows.filter Campaign.disagrees).map (·.label)) ∧
      (∀ bits, .join bits ∈ paras ↔ bits ≠ [] ∧ bits = notInstant rows) ∧
      (∀ lo hi boots outside, .cluster lo hi boots outside ∈ paras ↔ lo = clo ∧ hi = chi ∧ boots = (cluster rows).length ∧
        outside = (b2FirstInflated rows).filter fun b => ¬ (clo - slack ≤ b.2 ∧ b.2 ≤ chi + slack)) ∧
      ∀ dipLo dipHi otherLo otherHi, .gaps dipLo dipHi otherLo otherHi ∈ paras ↔
        (dipGaps rows).min? = some dipLo ∧ (dipGaps rows).max? = some dipHi ∧
        (otherGaps rows).min? = some otherLo ∧ (otherGaps rows).max? = some otherHi := by
  unfold structuralFinding at ok
  split at ok
  · cases ok
  split at ok
  · rename_i clo chi least greatest
    cases ok
    have pieces {p : Paragraph} := @List.mem_append Paragraph p
    refine ⟨clo, chi, least, greatest, fun count labels => ?_, fun bits => ?_, fun lo hi boots outside => ?_,
      fun dipLo dipHi otherLo otherHi => ?_⟩
    · simp [pieces, mem_gapParas]
    · simp only [pieces, List.mem_singleton, mem_optional, mem_gapParas, reduceCtorEq, and_false, false_or, or_false,
        exists_false, Paragraph.join.injEq]
      constructor
      · rintro ⟨some, rfl⟩
        exact ⟨some, rfl⟩
      · rintro ⟨some, rfl⟩
        exact ⟨some, rfl⟩
    · simp [pieces, mem_gapParas]
    · simp only [pieces, List.mem_singleton, mem_optional, mem_gapParas, reduceCtorEq, and_false, false_or,
        Paragraph.gaps.injEq]
      constructor
      · rintro ⟨_, _, _, _, a, b, c, d, rfl, rfl, rfl, rfl⟩
        exact ⟨a, b, c, d⟩
      · rintro ⟨a, b, c, d⟩
        exact ⟨_, _, _, _, a, b, c, d, rfl, rfl, rfl, rfl⟩
  · cases ok

theorem filter_disagrees : rows.filter Campaign.disagrees = rows.filter fun r => ∃ c, Opposite r c := by
  refine List.filter_congr fun r _ => ?_
  rw [Bool.eq_iff_iff, disagrees_iff, decide_eq_true_eq]

theorem clustered_of_joined (inside : v ∈ JoinedClustered rows) : v ∈ Clustered rows := by
  obtain ⟨r, mem, w, given, opposite | dip⟩ := inside
  · exact ⟨r, mem, .inl opposite⟩
  · exact ⟨r, mem, .inr ⟨w, given, dip⟩⟩

theorem clustered_range {clo chi : ℚ} (least : IsLeast (JoinedClustered rows) clo)
    (greatest : IsGreatest (JoinedClustered rows) chi) :
    (IsLeast (Clustered rows) clo ∧ IsGreatest (Clustered rows) chi) ↔
      ∀ r ∈ rows, r.warmup = none → ∀ c, Opposite r c →
        (∃ a ∈ JoinedClustered rows, a ≤ c) ∧ ∃ b ∈ JoinedClustered rows, c ≤ b := by
  constructor
  · rintro ⟨low, high⟩ r mem - c opposite
    have inside : c ∈ Clustered rows := ⟨r, mem, .inl opposite⟩
    exact ⟨⟨clo, least.1, low.2 inside⟩, ⟨chi, greatest.1, high.2 inside⟩⟩
  · intro unjoined
    have between : ∀ v ∈ Clustered rows, clo ≤ v ∧ v ≤ chi := by
      rintro v ⟨r, mem, opposite | ⟨w, given, dip⟩⟩
      · cases given : r.warmup with
        | none =>
          obtain ⟨⟨a, inA, below⟩, ⟨b, inB, above⟩⟩ := unjoined r mem given v opposite
          exact ⟨le_trans (least.2 inA) below, le_trans above (greatest.2 inB)⟩
        | some w =>
          have inside : v ∈ JoinedClustered rows := ⟨r, mem, w, given, .inl opposite⟩
          exact ⟨least.2 inside, greatest.2 inside⟩
      · have inside : v ∈ JoinedClustered rows := ⟨r, mem, w, given, .inr dip⟩
        exact ⟨least.2 inside, greatest.2 inside⟩
    exact ⟨⟨clustered_of_joined least.1, fun v inside => (between v inside).1⟩,
      ⟨clustered_of_joined greatest.1, fun v inside => (between v inside).2⟩⟩

theorem outside_nil_iff {clo chi : ℚ} :
    ((b2FirstInflated rows).filter fun b => ¬ (clo - slack ≤ b.2 ∧ b.2 ≤ chi + slack)) = [] ↔
      ∀ v, SecondFirst rows v → clo - slack ≤ v ∧ v ≤ chi + slack := by
  rw [List.filter_eq_nil_iff]
  constructor
  · intro none v second
    obtain ⟨label, mem⟩ := mem_b2FirstInflated.mpr second
    have inside := none (label, v) mem
    rw [decide_eq_true_eq, not_not] at inside
    exact inside
  · rintro all ⟨label, v⟩ mem outside
    rw [decide_eq_true_eq] at outside
    exact outside (all v (mem_b2FirstInflated.mp ⟨label, mem⟩))

/-- The sentence on the second batches is right unless one is outside by no more than the slack. -/
theorem near_iff {clo chi : ℚ} (least : IsLeast (JoinedClustered rows) clo)
    (greatest : IsGreatest (JoinedClustered rows) chi) :
    ((∀ v, SecondFirst rows v → clo - slack ≤ v ∧ v ≤ chi + slack) ↔ ∀ v, SecondFirst rows v → clo ≤ v ∧ v ≤ chi) ↔
      ((∀ v, SecondFirst rows v → (∃ a ∈ JoinedClustered rows, a - slack ≤ v) ∧ ∃ b ∈ JoinedClustered rows, v ≤ b + slack) →
        ∀ v, SecondFirst rows v → (∃ a ∈ JoinedClustered rows, a ≤ v) ∧ ∃ b ∈ JoinedClustered rows, v ≤ b) := by
  -- Both ends of the range are attained, so the two sides can be compared at `clo` and `chi`.
  have within (e v : ℚ) : ((∃ a ∈ JoinedClustered rows, a - e ≤ v) ∧ ∃ b ∈ JoinedClustered rows, v ≤ b + e) ↔
      clo - e ≤ v ∧ v ≤ chi + e := by
    constructor
    · rintro ⟨⟨a, inA, below⟩, ⟨b, inB, above⟩⟩
      exact ⟨le_trans (sub_le_sub_right (least.2 inA) e) below, le_trans above (add_le_add_left (greatest.2 inB) e)⟩
    · rintro ⟨below, above⟩
      exact ⟨⟨clo, least.1, below⟩, ⟨chi, greatest.1, above⟩⟩
  have exactly (v : ℚ) : ((∃ a ∈ JoinedClustered rows, a ≤ v) ∧ ∃ b ∈ JoinedClustered rows, v ≤ b) ↔ clo ≤ v ∧ v ≤ chi := by
    have zero := within 0 v
    simp only [sub_zero, add_zero] at zero
    exact zero
  have positive : (0 : ℚ) ≤ slack := by decide +kernel
  have wider : (∀ v, SecondFirst rows v → clo ≤ v ∧ v ≤ chi) →
      ∀ v, SecondFirst rows v → clo - slack ≤ v ∧ v ≤ chi + slack := by
    intro inside v second
    obtain ⟨below, above⟩ := inside v second
    exact ⟨by linarith, by linarith⟩
  simp only [within slack, exactly]
  exact ⟨fun same => same.mp, fun narrow => ⟨narrow, wider⟩⟩

theorem overlap_iff {D O : Set ℚ} {dipLo dipHi otherLo otherHi : ℚ} (dipLeast : IsLeast D dipLo)
    (dipGreatest : IsGreatest D dipHi) (otherLeast : IsLeast O otherLo) (otherGreatest : IsGreatest O otherHi) :
    (Set.Icc dipLo dipHi ∩ Set.Icc otherLo otherHi).Nonempty ↔
      (∃ a b, a ∈ D ∧ b ∈ O ∧ a ≤ b) ∧ ∃ a b, a ∈ D ∧ b ∈ O ∧ b ≤ a := by
  constructor
  · rintro ⟨v, ⟨dipBelow, dipAbove⟩, otherBelow, otherAbove⟩
    exact ⟨⟨dipLo, otherHi, dipLeast.1, otherGreatest.1, le_trans dipBelow otherAbove⟩,
      ⟨dipHi, otherLo, dipGreatest.1, otherLeast.1, le_trans otherBelow dipAbove⟩⟩
  · rintro ⟨⟨a, b, inA, inB, below⟩, ⟨c, d, inC, inD, above⟩⟩
    have first : dipLo ≤ otherHi := le_trans (dipLeast.2 inA) (le_trans below (otherGreatest.2 inB))
    have second : otherLo ≤ dipHi := le_trans (otherLeast.2 inD) (le_trans above (dipGreatest.2 inC))
    exact ⟨max dipLo otherLo, ⟨le_max_left _ _, max_le (dipGreatest.2 dipLeast.1) second⟩,
      ⟨le_max_right _ _, max_le first (otherGreatest.2 otherLeast.1)⟩⟩

end

/-- The paragraphs are true of the data exactly when the data happen to support what is not tested. -/
theorem structuralFinding_truthful_iff {rows : List Campaign} {paras : List Paragraph}
    (ok : structuralFinding rows = .ok paras) : Truthful rows paras ↔ Supported rows := by
  obtain ⟨clo, chi, min, max, canaries, joins, clusters, gaps⟩ := structuralFinding_ok ok
  have least := isLeast_of_min? min fun v => @mem_cluster rows v
  have greatest := isGreatest_of_max? max fun v => @mem_cluster rows v
  constructor
  · intro truthful
    obtain ⟨lo, hi, boots, outside, only, low, high, second⟩ := truthful.range
    obtain ⟨rfl, rfl, -, rfl⟩ := (clusters lo hi boots outside).mp ((only _ _ _ _).mpr ⟨rfl, rfl, rfl, rfl⟩)
    refine ⟨(clustered_range least greatest).mp ⟨low, high⟩, ?_, ?_, ?_⟩
    · intro r mem w c given canary sides
      have bit : (⟨r.label, c, w.first 0, w.first 1⟩ : Bit) ∈ notInstant rows :=
        mem_notInstant.mpr ⟨r, mem, w, c, given, canary, sides, rfl⟩
      exact (truthful.deflated _ ((joins _).mpr ⟨List.ne_nil_of_mem bit, rfl⟩) _ bit).2
    · rw [outside_nil_iff] at second
      exact (near_iff least greatest).mp second
    · rintro ⟨a, dips⟩ ⟨b, level⟩
      -- with a gap of each kind the paragraph is there
      obtain ⟨dipLo, dipMin⟩ := Option.ne_none_iff_exists'.mp
        (mt List.min?_eq_none_iff.mp (List.ne_nil_of_mem (mem_dipGaps.mpr dips)))
      obtain ⟨dipHi, dipMax⟩ := Option.ne_none_iff_exists'.mp
        (mt List.max?_eq_none_iff.mp (List.ne_nil_of_mem (mem_dipGaps.mpr dips)))
      obtain ⟨otherLo, otherMin⟩ := Option.ne_none_iff_exists'.mp
        (mt List.min?_eq_none_iff.mp (List.ne_nil_of_mem (mem_otherGaps.mpr level)))
      obtain ⟨otherHi, otherMax⟩ := Option.ne_none_iff_exists'.mp
        (mt List.max?_eq_none_iff.mp (List.ne_nil_of_mem (mem_otherGaps.mpr level)))
      obtain ⟨a, b, c, d, meet⟩ := truthful.overlap _ _ _ _ ((gaps _ _ _ _).mpr ⟨dipMin, dipMax, otherMin, otherMax⟩)
      exact (overlap_iff a b c d).mp meet
  · intro supported
    refine ⟨fun count labels => ?_, fun bits mem b inside => ?_, ⟨clo, chi, _, _, clusters, ?_⟩,
      fun dipLo dipHi otherLo otherHi mem => ?_⟩
    · rw [← filter_disagrees]
      exact canaries count labels
    · obtain ⟨-, rfl⟩ := (joins bits).mp mem
      obtain ⟨r, member, w, c, given, canary, sides, rfl⟩ := mem_notInstant.mp inside
      exact ⟨⟨r, member, w, given, rfl, rfl, rfl⟩, supported.deflated r member w c given canary sides⟩
    · obtain ⟨low, high⟩ := (clustered_range least greatest).mpr supported.unjoined
      rw [outside_nil_iff]
      exact ⟨low, high, (near_iff least greatest).mpr supported.near⟩
    · obtain ⟨dipMin, dipMax, otherMin, otherMax⟩ := (gaps dipLo dipHi otherLo otherHi).mp mem
      have a : IsLeast { a | IdleGap rows true a } dipLo := isLeast_of_min? dipMin fun v => mem_dipGaps
      have b : IsGreatest { a | IdleGap rows true a } dipHi := isGreatest_of_max? dipMax fun v => mem_dipGaps
      have c : IsLeast { b | IdleGap rows false b } otherLo := isLeast_of_min? otherMin fun v => mem_otherGaps
      have d : IsGreatest { b | IdleGap rows false b } otherHi := isGreatest_of_max? otherMax fun v => mem_otherGaps
      exact ⟨a, b, c, d, (overlap_iff a b c d).mpr (supported.overlap ⟨dipLo, a.1⟩ ⟨otherLo, c.1⟩)⟩

/-- A canary as low as the first warmup of the second batch. -/
def boundaryDip : Campaign :=
  ⟨"boundary", 81 / 5, some 12, some ⟨[#v[163 / 10, 81 / 5, 161 / 10], #v[12, 163 / 10, 16]], none, [], by decide⟩⟩

theorem structuralFinding_truthful_boundaryDip : ∃ paras,
    structuralFinding [boundaryDip] = .ok paras ∧ Truthful [boundaryDip] paras := by
  have found : structuralFinding [boundaryDip] =
      .ok [.canary 1 ["boundary"], .join [⟨"boundary", 12, 163 / 10, 12⟩], .cluster 12 12 2 []] := by decide +kernel
  refine ⟨_, found, (structuralFinding_truthful_iff found).mpr ?_⟩
  have low : (12 : ℚ) ∈ JoinedClustered [boundaryDip] :=
    ⟨boundaryDip, List.mem_singleton_self _, _, rfl, .inl ⟨rfl, by decide +kernel⟩⟩
  refine ⟨?_, ?_, fun _ v second => ?_, ?_⟩
  · intro r mem none
    rw [List.mem_singleton.mp mem] at none
    cases none
  · intro r mem w c given canary _
    rw [List.mem_singleton.mp mem] at given canary
    cases given
    cases canary
    decide +kernel
  · obtain ⟨r, mem, w, given, -, rfl⟩ := second
    rw [List.mem_singleton.mp mem] at given
    cases given
    exact ⟨⟨12, low, by decide +kernel⟩, ⟨12, low, by decide +kernel⟩⟩
  · rintro ⟨a, r, mem, w, given, -, g, inside, -⟩
    rw [List.mem_singleton.mp mem] at given
    cases given
    exact absurd inside List.not_mem_nil

/-- The same canary, with no dip at a batch's start; the boot that dips came a second after the last
one and its neighbour five. -/
def lateDip : Campaign :=
  ⟨"late", 81 / 5, some 12, some ⟨[#v[163 / 10, 81 / 5, 161 / 10], #v[81 / 5, 163 / 10, 11]], none,
    [⟨1, 3, 11, 1⟩, ⟨0, 2, 81 / 5, 5⟩], by decide⟩⟩

/-- An inflated warmup is called the deflated one, and ranges that are four seconds apart are said to
overlap. -/
theorem structuralFinding_lateDip :
    structuralFinding [lateDip] = .ok [.canary 1 ["late"], .join [⟨"late", 12, 163 / 10, 81 / 5⟩],
      .cluster 12 12 1 [("late", 81 / 5)], .gaps 1 1 5 5] ∧
    ¬ (81 / 5 : ℚ) < divideMs ∧ Set.Icc (1 : ℚ) 1 ∩ Set.Icc 5 5 = ∅ := by
  refine ⟨by decide +kernel, by decide +kernel, ?_⟩
  rw [Set.Icc_self, Set.Icc_self, Set.singleton_inter_eq_empty, Set.mem_singleton_iff]
  decide +kernel

end Whimbrel.Regime

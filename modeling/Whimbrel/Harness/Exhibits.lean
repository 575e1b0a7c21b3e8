import Whimbrel.Harness.Regime
import Whimbrel.Lib.Checked
import Whimbrel.Lib.Text

/-! The validators of the exhibits: `scripts/report-exhibits.py`.

The cells of a table are already read as numbers where the script calls `int` or
`float`; an empty cell is `none`. A refusal is told by its message, without the
label of the campaign. -/

set_option autoImplicit false

namespace Whimbrel.Exhibits

open Checked Text
open Regime (median)

structure Run where
  batchId : String
  trial : String
  warmup : Int
  config : String
  system : String
  gitSha : String
  dirty : Int
  stealTicks : Int
  virt : String
  governor : String
  smtControl : String
  cpufreqBoost : String
  kernelSha256 : String
  biosSha256 : String
  canaryStvecNs : String
  canaryPageVerifyNs : String
  e0ToFirstConnectNs : Option ℚ
  e0ToE4Ns : Option ℚ
  wNs : Option ℚ
  synackToHttpNs : Option ℚ
  dFinNs : Option ℚ
  deriving DecidableEq

structure Phase where
  batchId : String
  trial : String
  warmup : Int
  config : String
  phase : String
  system : Option String
  nsSinceE2 : Option ℚ
  deriving DecidableEq

structure Runs where
  fields : List String
  rows : List Run

abbrev Key := String × String × String

def Run.key (r : Run) : Key := (r.batchId, r.trial, r.config)
def Phase.key (p : Phase) : Key := (p.batchId, p.trial, p.config)

inductive Schema where
  | old
  | new
  deriving DecidableEq, Repr

/-- The messages of `ExhibitFail`, and what Python itself raises. -/
inductive Raised where
  | schemaMixed
  | schemaIncomplete
  | schemaOther
  | batchSet
  | mixedSha
  | shaPrefix (sha : String)
  | dirty
  | configs
  | trials (config : String) (n : Nat)
  | systems (config : String)
  | steal
  | total (n : Nat)
  | missing (field : String)
  | values (field : String)
  | manifest
  | kernelSha (config : String)
  | connectSpan
  | tripwire
  | linuxPhases (n : Nat)
  | e3gRows (n : Nat)
  | canaryMissing (field : String)
  | lanes
  | canaryEmpty
  | canaryValues (n : Nat)
  | bios
  | seamRows (config phase : String) (n : Nat)
  | noE3g (config : String)
  | batchCount (n : Nat)
  | unstable (config : String)
  | missingForS (field : String)
  | noS (config : String)
  | slower
  | contaminated
  | python
  deriving DecidableEq, Repr

abbrev Outcome := Except Raised

def require (c : Bool) (otherwise : Raised) : Outcome Unit := if c then .ok () else .error otherwise

def sameSet (a b : List String) : Bool := (∀ x ∈ a, x ∈ b) ∧ ∀ x ∈ b, x ∈ a

def safe : String := "release-default"
def fast : String := "release-fast-boot"
def mFast : String := "m-release-fast-boot"
def mSafe : String := "m-release-default"

def t48ArmOrder : List (String × String) :=
  [("whimbrel", "release-fast-boot"), ("whimbrel", "release-default"), ("linux", "trimmed"),
    ("linux", "trimmed-instrumented"), ("linux", "stock")]

def t47ArmOrder : List String := [fast, safe, mFast, mSafe]
def t47Opensbi : List String := [fast, safe]
def t47Shim : List String := [mFast, mSafe]
def t47SeamPhases : List String := ["stvec", "frame_init", "E3g"]
def controlTolNs : ℚ := 1000000

def recorded (rows : List Run) : List Run := rows.filter (·.warmup = 0)

def runsSchema (fields : List String) : Outcome Schema :=
  let newCols := ["w_ns", "d_ack_ns", "d_fin_ns"]
  if "e0_to_e3w_ns" ∈ fields then
    if ∃ c ∈ newCols, c ∈ fields then .error .schemaMixed else .ok .old
  else if ∀ c ∈ newCols, c ∈ fields then .ok .new
  else .error .schemaIncomplete

def requireSchema (runs : Runs) (want : Schema) : Outcome Unit := do
  require (runs.rows ≠ []) .python
  require ((← runsSchema runs.fields) = want) .schemaOther

def requireBatches (runs : Runs) (want : List String) : Outcome Unit :=
  require (sameSet (runs.rows.map (·.batchId)) want) .batchSet

def requireSha (kept : List Run) (shaStart : String) : Outcome Unit :=
  match (kept.map (·.gitSha)).dedup with
  | [sha] => require (shaStart.toList.isPrefixOf sha.toList) (.shaPrefix sha)
  | _ => .error .mixedSha

def requireClean (kept : List Run) : Outcome Unit := require (∀ r ∈ kept, r.dirty = 0) .dirty

def requireConfigs (kept : List Run) (want : List String) : Outcome Unit :=
  require (sameSet (kept.map (·.config)) want) .configs

def trials (kept : List Run) (config : String) : Nat := kept.countP (·.config = config)

def requireTrials (kept : List Run) (n : Nat) (config : String) : Outcome Unit :=
  require (trials kept config = n) (.trials config (trials kept config))

def requireSystem (kept : List Run) (system config : String) : Outcome Unit :=
  require (sameSet ((kept.filter (·.config = config)).map (·.system)) [system]) (.systems config)

def requireSteal (kept : List Run) : Outcome Unit := require (∀ r ∈ kept, r.stealTicks = 0) .steal

def requireTotal (kept : List Run) (n : Nat) : Outcome Unit := require (kept.length = n) (.total kept.length)

def environment : List (String × (Run → String) × String) :=
  [("virt", Run.virt, "none"), ("governor", Run.governor, "performance"), ("smt_control", Run.smtControl, "off"),
    ("cpufreq_boost", Run.cpufreqBoost, "0")]

/-- `absent` is what a missing column gives. -/
def requireEnvironment (runs : Runs) (kept : List Run) (absent : String → Raised) : Outcome Unit :=
  environment.forM fun (field, cell, want) => do
    require (field ∈ runs.fields) (absent field)
    require (sameSet (kept.map cell) [want]) (.values field)

/-- The recorded E3g rows of recorded runs. -/
def e3gRows (kept : List Run) (phases : List Phase) : List Phase :=
  phases.filter fun p => p.warmup = 0 ∧ p.phase = "E3g" ∧ p.key ∈ kept.map Run.key

def requireE3g (rows : List Phase) (n : Nat) : Outcome Unit := require (rows.length = n) (.e3gRows rows.length)

def float (cell : Option ℚ) : Outcome ℚ :=
  match cell with
  | some v => .ok v
  | none => .error .python

/-- `statistics.median`, which refuses an empty list. -/
def medianOf (data : List ℚ) : Outcome ℚ := if data = [] then .error .python else .ok (median data)

def armMedian (kept : List Run) (cell : Run → Option ℚ) (config : String) : Outcome ℚ := do
  medianOf (← (kept.filter (·.config = config)).mapM fun r => float (cell r))

/-- The medians of the first connection lie within a millisecond. -/
def requireConnects (kept : List Run) (configs : List String) : Outcome Unit := do
  let meds ← configs.mapM (armMedian kept (·.e0ToFirstConnectNs))
  match meds.min?, meds.max? with
  | some lo, some hi => require (hi - lo ≤ controlTolNs) .connectSpan
  | _, _ => .error .python

structure Params where
  batches : List String
  shaStart : String
  n : Nat
  manifest : List Char
  classes : Classes

def validate (runs : Runs) (phases : List Phase) (params : Params) : Outcome Unit := do
  let kept := recorded runs.rows
  requireSchema runs .old
  requireBatches runs params.batches
  requireSha kept params.shaStart
  requireClean kept
  requireConfigs kept [safe, fast]
  [safe, fast].forM (requireTrials kept params.n)
  requireSteal kept
  requireTotal kept (params.n * 2)
  requireEnvironment runs kept .missing
  requireE3g (e3gRows kept phases) (params.n * 2)

/-- The artifact lines; a later one of the same name counts. -/
def parseLinuxManifest (u : Classes) (text : List Char) : Outcome (List (Line × Line)) := do
  let artifacts := (splitlines text).filterMap fun raw =>
    let line := strip u raw
    if line = [] ∨ "#".toList.isPrefixOf line then none
    else match (line.splitOnP u.space).filter (· ≠ []) with
      | [kind, name, sha] => if kind = "artifact".toList then some (name, sha) else none
      | _ => none
  require (∀ name ∈ ["Image-stock", "Image-trimmed", "rootfs.cpio", "init"], name.toList ∈ artifacts.map (·.1)) .manifest
  return artifacts.reverse

def requireKernel (kept : List Run) (artifacts : List (Line × Line)) (config image : String) : Outcome Unit :=
  match artifacts.lookup image.toList with
  | none => .error .python
  | some sha => require (sameSet ((kept.filter (·.config = config)).map (·.kernelSha256)) [String.ofList sha]) (.kernelSha config)

def validateT48 (runs : Runs) (phases : List Phase) (params : Params) : Outcome Unit := do
  requireSchema runs .new
  let kept := recorded runs.rows
  requireBatches runs params.batches
  requireSha kept params.shaStart
  requireClean kept
  requireConfigs kept (t48ArmOrder.map (·.2))
  t48ArmOrder.forM fun (system, config) => do
    requireTrials kept params.n config
    requireSystem kept system config
  requireSteal kept
  requireTotal kept (params.n * t48ArmOrder.length)
  requireEnvironment runs kept fun _ => .python
  let artifacts ← parseLinuxManifest params.classes params.manifest
  requireKernel kept artifacts "stock" "Image-stock"
  requireKernel kept artifacts "trimmed" "Image-trimmed"
  requireKernel kept artifacts "trimmed-instrumented" "Image-trimmed"
  requireConnects kept (t48ArmOrder.map (·.2))
  let e4 ← (t48ArmOrder.map (·.2)).mapM fun config => (config, ·) <$> armMedian kept (·.e0ToE4Ns) config
  match e4.lookup "trimmed", e4.lookup "stock" with
  | some trimmed, some stock => require (trimmed < stock) .tripwire
  | _, _ => .error .python
  let linux := phases.filter fun p => p.warmup = 0 ∧ p.system = some "linux"
  require (linux = []) (.linuxPhases linux.length)
  requireE3g ((e3gRows kept phases).filter fun p => p.config ∈ [fast, safe]) (params.n * 2)

def e2e3gVals (kept : List Run) (phases : List Phase) (config : String) (batch : Option String) : Outcome (List ℚ) :=
  let keys := (kept.filter fun r => r.config = config ∧ ∀ b ∈ batch, r.batchId = b).map fun r => (r.batchId, r.trial)
  let vals := (phases.filter fun p =>
    p.warmup = 0 ∧ p.phase = "E3g" ∧ p.config = config ∧ (p.batchId, p.trial) ∈ keys).filterMap (·.nsSinceE2)
  if vals = [] then .error (.noE3g config) else .ok vals

def requireE2e3gStable (kept : List Run) (phases : List Phase) (config : String) : Outcome Unit := do
  match (kept.map (·.batchId)).dedup with
  | [a, b] =>
    let first ← medianOf (← e2e3gVals kept phases config (some a))
    let second ← medianOf (← e2e3gVals kept phases config (some b))
    if max first second < 1000000 then return
    require (|first - second| ≤ max (|max first second| / 50) 200000) (.unstable config)
  | batches => throw (.batchCount batches.length)

def sTrialNs (r : Run) : Outcome ℚ :=
  match r.e0ToE4Ns, r.e0ToFirstConnectNs, r.wNs, r.synackToHttpNs, r.dFinNs with
  | some e4, some connect, some w, some http, some fin => .ok ((e4 - connect) - (w + http + fin))
  | none, _, _, _, _ => .error (.missingForS "e0_to_e4_ns")
  | _, none, _, _, _ => .error (.missingForS "e0_to_first_connect_ns")
  | _, _, none, _, _ => .error (.missingForS "w_ns")
  | _, _, _, none, _ => .error (.missingForS "synack_to_http_ns")
  | _, _, _, _, none => .error (.missingForS "d_fin_ns")

def sVals (kept : List Run) (config : String) : Outcome (List ℚ) := do
  let vals ← (kept.filter (·.config = config)).mapM sTrialNs
  require (vals ≠ []) (.noS config)
  return vals

def requireDeltaSSane (kept : List Run) : Outcome Unit := do
  let delta := (← medianOf (← sVals kept fast)) - (← medianOf (← sVals kept mFast))
  require (-300000 ≤ delta) .slower
  require (|delta| ≤ 3000000) .contaminated

def Run.canary (r : Run) : String × String := (r.canaryStvecNs, r.canaryPageVerifyNs)

def validateT47 (runs : Runs) (phases : List Phase) (params : Params) : Outcome Unit := do
  requireSchema runs .new
  let kept := recorded runs.rows
  ["canary_stvec_ns", "canary_page_verify_ns"].forM fun field => require (field ∈ runs.fields) (.canaryMissing field)
  requireConfigs kept t47ArmOrder
  require (sameSet ((kept.filter fun r => r.config ∈ t47Opensbi).map (·.batchId))
    ((kept.filter fun r => r.config ∈ t47Shim).map (·.batchId))) .lanes
  requireBatches runs params.batches
  require (∀ r ∈ runs.rows, r.canaryStvecNs ≠ "" ∧ r.canaryPageVerifyNs ≠ "") .canaryEmpty
  let canaries := (runs.rows.map Run.canary).dedup
  require (canaries.length = 1) (.canaryValues canaries.length)
  requireSha kept params.shaStart
  requireClean kept
  t47ArmOrder.forM fun config => do
    requireTrials kept params.n config
    requireSystem kept "whimbrel" config
  requireSteal kept
  requireTotal kept (params.n * t47ArmOrder.length)
  requireEnvironment runs kept .missing
  let bios := ((kept.filter fun r => r.config ∈ t47Shim).map (·.biosSha256)).dedup
  require (bios.length = 1 ∧ "" ∉ bios) .bios
  requireConnects kept t47ArmOrder
  requireE3g (e3gRows kept phases) (params.n * t47ArmOrder.length)
  [fast, mFast].forM fun config => do
    t47SeamPhases.forM fun phase => do
      let n := phases.countP fun p => p.warmup = 0 ∧ p.phase = phase ∧ p.config = config ∧ p.key ∈ kept.map Run.key
      require (n = params.n) (.seamRows config phase n)
    requireE2e3gStable kept phases config
  requireDeltaSSane kept

/-! ## One measurement per trial -/

inductive Validator where
  | old
  | t48
  | t47
  deriving DecidableEq, Repr

def Validator.run : Validator → Runs → List Phase → Params → Outcome Unit
  | .old => validate
  | .t48 => validateT48
  | .t47 => validateT47

def Validator.configs : Validator → List String
  | .old => [safe, fast]
  | .t48 => t48ArmOrder.map (·.2)
  | .t47 => t47ArmOrder

def Validator.whimbrel : Validator → List String
  | .old => [safe, fast]
  | .t48 => [fast, safe]
  | .t47 => t47ArmOrder

def isE3g (p : Phase) : Bool := p.warmup = 0 ∧ p.phase = "E3g"

/-- Each recorded trial has one measurement. -/
structure Exact (v : Validator) (kept : List Run) (phases : List Phase) (params : Params) : Prop where
  distinct : (kept.map Run.key).Nodup
  single : ∀ r ∈ kept, r.config ∈ v.whimbrel →
    ∃ p, (phases.filter fun p => isE3g p ∧ p.key = r.key) = [p] ∧ p.nsSinceE2.isSome
  batches : ∀ b ∈ params.batches, ∀ c ∈ v.configs, ∃ r ∈ kept, r.batchId = b ∧ r.config = c
  values : ∀ c ∈ v.whimbrel, ∃ (l : List Phase) (vals : List ℚ), l.Sublist phases ∧ (∀ p ∈ l, isE3g p) ∧
    (l.map Phase.key).Perm ((kept.filter (·.config = c)).map Run.key) ∧ l.map (·.nsSinceE2) = vals.map some ∧
    e2e3gVals kept phases c none = .ok vals ∧ vals.length = params.n

/-- The E3g rows of the recorded trials of the Whimbrel arms. -/
def measurements (v : Validator) (kept : List Run) (phases : List Phase) : List Phase :=
  phases.filter fun p => isE3g p ∧ p.key ∈ kept.map Run.key ∧ p.config ∈ v.whimbrel

/-- What the counts do not show: no two measurements are of one trial and none is empty, no other trial is
recorded twice, and each batch runs each arm. -/
structure Paired (v : Validator) (kept : List Run) (phases : List Phase) (params : Params) : Prop where
  single : ((measurements v kept phases).map Phase.key).Nodup
  filled : ∀ p ∈ measurements v kept phases, p.nsSinceE2.isSome
  others : ((kept.filter fun r => r.config ∉ v.whimbrel).map Run.key).Nodup
  batches : ∀ b ∈ params.batches, ∀ c ∈ v.configs, ∃ r ∈ kept, r.batchId = b ∧ r.config = c

structure Gate (v : Validator) (kept : List Run) (phases : List Phase) (params : Params) : Prop where
  configs : ∀ c ∈ v.configs, ∃ r ∈ kept, r.config = c
  trials : ∀ c ∈ v.whimbrel, trials kept c = params.n
  e3g : (measurements v kept phases).length = params.n * v.whimbrel.length

theorem whimbrel_nodup (v : Validator) : v.whimbrel.Nodup := by
  cases v <;> decide +kernel

theorem whimbrel_subset (v : Validator) : ∀ c ∈ v.whimbrel, c ∈ v.configs := by
  cases v <;> decide +kernel

section
variable {α κ : Type} [DecidableEq κ]

theorem filter_key {f : α → κ} {l : List α} (distinct : (l.map f).Nodup) {a : α} (mem : a ∈ l) :
    (l.filter fun b => f b = f a) = [a] := by
  induction l with
  | nil => exact absurd mem List.not_mem_nil
  | cons b l ih =>
    obtain ⟨fresh, distinct⟩ := List.nodup_cons.mp distinct
    rcases List.mem_cons.mp mem with rfl | later
    · rw [List.filter_cons_of_pos (by simp)]
      refine congrArg (a :: ·) (List.filter_eq_nil_iff.mpr fun c inside same => ?_)
      exact fresh (List.mem_map.mpr ⟨c, inside, of_decide_eq_true same⟩)
    · have other : f b ≠ f a := fun same => fresh (same ▸ List.mem_map_of_mem later)
      rw [List.filter_cons_of_neg (by simp [other]), ih distinct later]

theorem length_filter_mem {f : α → κ} {l : List α} {classes : List κ} {n : Nat} (distinct : classes.Nodup)
    (each : ∀ c ∈ classes, (l.countP fun a => f a = c) = n) :
    (l.filter fun a => f a ∈ classes).length = n * classes.length := by
  induction classes with
  | nil => simp
  | cons c classes ih =>
    obtain ⟨fresh, distinct⟩ := List.nodup_cons.mp distinct
    have rest := ih distinct fun d mem => each d (List.mem_cons_of_mem c mem)
    have here := each c List.mem_cons_self
    rw [List.length_cons, Nat.mul_succ, ← rest, ← here, ← List.countP_eq_length_filter, ← List.countP_eq_length_filter]
    -- `c` is new among the classes, so no element is counted twice.
    have apart (l : List α) : (l.countP fun a => f a ∈ c :: classes) =
        (l.countP fun a => f a ∈ classes) + l.countP fun a => f a = c := by
      induction l with
      | nil => rfl
      | cons a l ih =>
        rw [List.countP_cons, List.countP_cons, List.countP_cons, ih]
        by_cases same : f a = c
        · have absent : f a ∉ classes := same ▸ fresh
          simp only [List.mem_cons, same, fresh, true_or, decide_true, decide_false, if_true]
          simp
          omega
        · simp only [List.mem_cons, same, false_or, decide_false]
          simp
          omega
    exact apart l

end

section
variable {v : Validator} {kept : List Run} {phases : List Phase} {params : Params}

theorem mem_measurements {p : Phase} : p ∈ measurements v kept phases ↔
    p ∈ phases ∧ isE3g p ∧ p.key ∈ kept.map Run.key ∧ p.config ∈ v.whimbrel := by
  rw [measurements, List.mem_filter, decide_eq_true_eq]

theorem measurements_eq : measurements v kept phases = (e3gRows kept phases).filter fun p => p.config ∈ v.whimbrel := by
  rw [measurements, e3gRows, List.filter_filter]
  refine List.filter_congr fun p _ => ?_
  rw [Bool.eq_iff_iff]
  simp only [Bool.and_eq_true, decide_eq_true_eq, isE3g]
  tauto

theorem config_of_key {r : Run} {p : Phase} (same : p.key = r.key) : p.config = r.config := congrArg (·.2.2) same

/-- Distinct measurements, as many as there are trials, are one for each trial. -/
theorem perm_measurements (gate : Gate v kept phases params) (paired : Paired v kept phases params) :
    ((measurements v kept phases).map Phase.key).Perm ((kept.filter fun r => r.config ∈ v.whimbrel).map Run.key) := by
  have covered : (measurements v kept phases).map Phase.key ⊆ (kept.filter fun r => r.config ∈ v.whimbrel).map Run.key := by
    intro key mem
    obtain ⟨p, inside, rfl⟩ := List.mem_map.mp mem
    obtain ⟨-, -, keyed, arm⟩ := mem_measurements.mp inside
    obtain ⟨r, member, same⟩ := List.mem_map.mp keyed
    refine List.mem_map.mpr ⟨r, List.mem_filter.mpr ⟨member, decide_eq_true ?_⟩, same⟩
    rw [← config_of_key same.symm]
    exact arm
  have counted : ((measurements v kept phases).map Phase.key).length =
      ((kept.filter fun r => r.config ∈ v.whimbrel).map Run.key).length := by
    rw [List.length_map, List.length_map, length_filter_mem (whimbrel_nodup v) gate.trials]
    exact gate.e3g
  exact (List.subperm_of_subset paired.single covered).perm_of_length_le (le_of_eq counted.symm)

/-- A trial of a Whimbrel arm has another key than one of another arm. -/
theorem distinct_of_paired (gate : Gate v kept phases params) (paired : Paired v kept phases params) :
    (kept.map Run.key).Nodup := by
  have parts : (kept.filter (fun r => r.config ∈ v.whimbrel) ++ kept.filter fun r => r.config ∉ v.whimbrel).Perm kept := by
    have whole := List.filter_append_perm (fun r : Run => decide (r.config ∈ v.whimbrel)) kept
    simpa only [decide_not] using whole
  rw [← (parts.map Run.key).nodup_iff, List.map_append, List.nodup_append]
  refine ⟨(perm_measurements gate paired).nodup_iff.mp paired.single, paired.others, ?_⟩
  intro key left key' right same
  obtain ⟨r, inside, rfl⟩ := List.mem_map.mp left
  obtain ⟨r', outside, rfl⟩ := List.mem_map.mp right
  have config : r.config = r'.config := congrArg (·.2.2) same
  exact of_decide_eq_true (List.mem_filter.mp outside).2 (config ▸ of_decide_eq_true (List.mem_filter.mp inside).2)

theorem single_of_paired (gate : Gate v kept phases params) (paired : Paired v kept phases params) {r : Run}
    (member : r ∈ kept) (arm : r.config ∈ v.whimbrel) :
    ∃ p, (phases.filter fun p => isE3g p ∧ p.key = r.key) = [p] ∧ p.nsSinceE2.isSome := by
  have keyed : r.key ∈ (measurements v kept phases).map Phase.key :=
    (perm_measurements gate paired).mem_iff.mpr
      (List.mem_map_of_mem (List.mem_filter.mpr ⟨member, decide_eq_true arm⟩))
  obtain ⟨p, inside, same⟩ := List.mem_map.mp keyed
  refine ⟨p, ?_, paired.filled p inside⟩
  rw [← filter_key paired.single inside, measurements, List.filter_filter]
  refine List.filter_congr fun q _ => ?_
  rw [Bool.eq_iff_iff]
  simp only [Bool.and_eq_true, decide_eq_true_eq, same]
  constructor
  · rintro ⟨recorded, key⟩
    refine ⟨key, recorded, key ▸ List.mem_map_of_mem member, ?_⟩
    rw [config_of_key key]
    exact arm
  · rintro ⟨key, recorded, -⟩
    exact ⟨recorded, key⟩

theorem arm_rows {c : String} (arm : c ∈ v.whimbrel) : (phases.filter fun p => p.warmup = 0 ∧ p.phase = "E3g" ∧
      p.config = c ∧ (p.batchId, p.trial) ∈ (kept.filter fun r => r.config = c ∧ ∀ b ∈ (none : Option String), r.batchId = b).map
        fun r => (r.batchId, r.trial)) =
    (measurements v kept phases).filter fun p => p.config = c := by
  rw [measurements_eq, e3gRows, List.filter_filter, List.filter_filter]
  refine List.filter_congr fun p _ => ?_
  rw [Bool.eq_iff_iff]
  simp only [Bool.and_eq_true, decide_eq_true_eq, List.mem_map, List.mem_filter]
  constructor
  · rintro ⟨warm, e3g, config, r, ⟨member, same, -⟩, key⟩
    obtain ⟨batch, trial⟩ := Prod.mk.injEq .. ▸ key
    refine ⟨⟨config, config ▸ arm⟩, warm, e3g, r, member, ?_⟩
    rw [Run.key, Phase.key, batch, trial, same, config]
  · rintro ⟨⟨config, -⟩, warm, e3g, r, member, key⟩
    refine ⟨warm, e3g, config, r, ⟨member, ?_, fun b none => nomatch none⟩, ?_⟩
    · rw [← config_of_key key.symm, config]
    · exact Prod.ext (congrArg (·.1) key) (congrArg (·.2.1) key)

theorem cells_filled {l : List Phase} (filled : ∀ p ∈ l, p.nsSinceE2.isSome) :
    l.map (·.nsSinceE2) = (l.filterMap (·.nsSinceE2)).map some := by
  induction l with
  | nil => rfl
  | cons p l ih =>
    obtain ⟨ns, cell⟩ := Option.isSome_iff_exists.mp (filled p List.mem_cons_self)
    rw [List.map_cons, List.filterMap_cons_some cell, List.map_cons, cell,
      ih fun q mem => filled q (List.mem_cons_of_mem p mem)]

theorem values_of_paired (gate : Gate v kept phases params) (paired : Paired v kept phases params) {c : String}
    (arm : c ∈ v.whimbrel) : ∃ (l : List Phase) (vals : List ℚ), l.Sublist phases ∧ (∀ p ∈ l, isE3g p) ∧
      (l.map Phase.key).Perm ((kept.filter (·.config = c)).map Run.key) ∧ l.map (·.nsSinceE2) = vals.map some ∧
      e2e3gVals kept phases c none = .ok vals ∧ vals.length = params.n := by
  obtain ⟨l, is⟩ : ∃ l, l = (measurements v kept phases).filter fun p => p.config = c := ⟨_, rfl⟩
  have within (p : Phase) (mem : p ∈ l) : p ∈ measurements v kept phases := (List.mem_filter.mp (is ▸ mem)).1
  have part : l.Sublist phases := by
    rw [is]
    exact List.filter_sublist.trans List.filter_sublist
  have keys : (l.map Phase.key).Perm ((kept.filter (·.config = c)).map Run.key) := by
    have whole := (perm_measurements gate paired).filter fun key => key.2.2 = c
    rw [List.filter_map, List.filter_map, List.filter_filter] at whole
    rw [is]
    refine whole.trans (List.Perm.of_eq (congrArg _ (List.filter_congr fun r _ => ?_)))
    rw [Bool.eq_iff_iff]
    simp only [Function.comp_apply, Run.key, Bool.and_eq_true, decide_eq_true_eq]
    exact ⟨fun both => of_decide_eq_true both.1, fun same => ⟨decide_eq_true same, same ▸ arm⟩⟩
  have cells := cells_filled fun p mem => paired.filled p (within p mem)
  have counted : (l.filterMap (·.nsSinceE2)).length = params.n := by
    rw [← List.length_map (f := some), ← cells, List.length_map, ← gate.trials c arm, trials, List.countP_eq_length_filter,
      ← List.length_map (f := Run.key), ← keys.length_eq, List.length_map]
  refine ⟨l, _, part, fun p mem => (mem_measurements.mp (within p mem)).2.1, keys, cells, ?_, counted⟩
  rw [e2e3gVals, arm_rows arm, ← is]
  -- An arm without rows would have no recorded trial either, but the counts show some.
  refine if_neg fun none => ?_
  obtain ⟨r, member, same⟩ := gate.configs c (whimbrel_subset v c arm)
  rw [none, List.length_nil, ← gate.trials c arm] at counted
  exact List.countP_eq_zero.mp counted.symm r member (decide_eq_true same)

theorem exact_of_paired (gate : Gate v kept phases params) (paired : Paired v kept phases params) :
    Exact v kept phases params where
  distinct := distinct_of_paired gate paired
  single _ member arm := single_of_paired gate paired member arm
  batches := paired.batches
  values _ arm := values_of_paired gate paired arm

theorem paired_of_exact (exact : Exact v kept phases params) : Paired v kept phases params := by
  -- the rows of one key are those `single` counts
  have only {p : Phase} (inside : p ∈ measurements v kept phases) :
      (phases.filter fun q => isE3g q ∧ q.key = p.key) = [p] ∧ p.nsSinceE2.isSome := by
    obtain ⟨there, recorded, keyed, arm⟩ := mem_measurements.mp inside
    obtain ⟨r, member, same⟩ := List.mem_map.mp keyed
    obtain ⟨q, rows, filled⟩ := exact.single r member (config_of_key same.symm ▸ arm)
    have mem : p ∈ phases.filter fun q => isE3g q ∧ q.key = r.key :=
      List.mem_filter.mpr ⟨there, decide_eq_true ⟨recorded, same.symm⟩⟩
    rw [rows, List.mem_singleton] at mem
    subst mem
    rw [← same]
    exact ⟨rows, filled⟩
  refine ⟨?_, fun p inside => (only inside).2, exact.distinct.sublist (List.filter_sublist.map _), exact.batches⟩
  refine List.nodup_iff_count_le_one.mpr fun key => ?_
  rw [List.count_eq_countP, List.countP_map, List.countP_eq_length_filter]
  rcases List.eq_nil_or_concat ((measurements v kept phases).filter _) with none | ⟨front, p, shape⟩
  · rw [none]
    exact Nat.zero_le 1
  · have mem : p ∈ (measurements v kept phases).filter ((· == key) ∘ Phase.key) := by
      rw [shape, List.concat_eq_append]
      exact List.mem_append_right _ (List.mem_singleton_self p)
    obtain ⟨inside, same⟩ := List.mem_filter.mp mem
    rw [Function.comp_apply, beq_iff_eq] at same
    have part : ((measurements v kept phases).filter ((· == key) ∘ Phase.key)).Sublist
        (phases.filter fun q => isE3g q ∧ q.key = p.key) := by
      rw [measurements, List.filter_filter]
      refine List.monotone_filter_right phases fun q both => ?_
      simp only [Bool.and_eq_true, Function.comp_apply, beq_iff_eq, decide_eq_true_eq] at both ⊢
      exact ⟨both.2.1, both.1.trans same.symm⟩
    rw [(only inside).1] at part
    exact part.length_le

theorem require_ok {c : Bool} {otherwise : Raised} (ok : require c otherwise = .ok ()) : c = true := by
  by_cases holds : c = true
  · exact holds
  · rw [require, if_neg holds] at ok
    cases ok

theorem configs_of_require {want : List String} (ok : requireConfigs kept want = .ok ()) :
    (∀ r ∈ kept, r.config ∈ want) ∧ ∀ c ∈ want, ∃ r ∈ kept, r.config = c := by
  obtain ⟨within, present⟩ := of_decide_eq_true (require_ok ok)
  exact ⟨fun r member => within _ (List.mem_map_of_mem member), fun c mem => List.mem_map.mp (present c mem)⟩

theorem trials_of_require {n : Nat} {c : String} (ok : requireTrials kept n c = .ok ()) : trials kept c = n :=
  of_decide_eq_true (require_ok ok)

theorem e3g_of_require {rows : List Phase} {n : Nat} (ok : requireE3g rows n = .ok ()) : rows.length = n :=
  of_decide_eq_true (require_ok ok)

theorem measurements_all (within : ∀ r ∈ kept, r.config ∈ v.whimbrel) : measurements v kept phases = e3gRows kept phases := by
  rw [measurements_eq]
  refine List.filter_eq_self.mpr fun p mem => ?_
  obtain ⟨-, -, keyed⟩ := of_decide_eq_true (List.mem_filter.mp mem).2
  obtain ⟨r, member, same⟩ := List.mem_map.mp keyed
  exact decide_eq_true (config_of_key same.symm ▸ within r member)

theorem gate_old {runs : Runs} (ok : validate runs phases params = .ok ()) :
    Gate .old (recorded runs.rows) phases params := by
  simp only [validate, seq_ok] at ok
  obtain ⟨-, -, -, -, configs, counted, -, -, -, e3g⟩ := ok
  obtain ⟨within, present⟩ := configs_of_require configs
  refine ⟨present, fun c arm => trials_of_require (forM_eq_ok counted c arm), ?_⟩
  exact (congrArg List.length (measurements_all (v := .old) within)).trans (e3g_of_require e3g)

theorem gate_t48 {runs : Runs} (ok : validateT48 runs phases params = .ok ()) :
    Gate .t48 (recorded runs.rows) phases params := by
  simp only [validateT48, seq_ok] at ok
  obtain ⟨-, -, -, -, configs, counted, -, -, -, ok⟩ := ok
  obtain ⟨artifacts, -, ok⟩ := of_bind_ok ok
  simp only [seq_ok] at ok
  obtain ⟨-, -, -, -, ok⟩ := ok
  obtain ⟨e4, -, ok⟩ := of_bind_ok ok
  have e3g : requireE3g (measurements .t48 (recorded runs.rows) phases) (params.n * 2) = .ok () := by
    rw [measurements_eq]
    -- Only the branch in which both medians exist reaches the count of E3g.
    cases trimmed : e4.lookup "trimmed" with
    | none =>
      simp only [trimmed] at ok
      cases ok
    | some a =>
      cases stock : e4.lookup "stock" with
      | none =>
        simp only [trimmed, stock] at ok
        cases ok
      | some b =>
        simp only [trimmed, stock, seq_ok] at ok
        exact ok.2.2
  refine ⟨(configs_of_require configs).2, fun c arm => ?_, e3g_of_require e3g⟩
  obtain ⟨⟨system, config⟩, mem, rfl⟩ := List.mem_map.mp (whimbrel_subset .t48 c arm)
  exact trials_of_require (seq_ok.mp (forM_eq_ok counted _ mem)).1

theorem gate_t47 {runs : Runs} (ok : validateT47 runs phases params = .ok ()) :
    Gate .t47 (recorded runs.rows) phases params := by
  simp only [validateT47, seq_ok] at ok
  obtain ⟨-, -, configs, -, -, -, -, -, -, counted, -, -, -, -, -, e3g, -⟩ := ok
  obtain ⟨within, present⟩ := configs_of_require configs
  refine ⟨present, fun c arm => trials_of_require (seq_ok.mp (forM_eq_ok counted c arm)).1, ?_⟩
  exact (congrArg List.length (measurements_all (v := .t47) within)).trans (e3g_of_require e3g)

theorem gate_of_run {runs : Runs} (ok : v.run runs phases params = .ok ()) : Gate v (recorded runs.rows) phases params := by
  cases v with
  | old => exact gate_old ok
  | t48 => exact gate_t48 ok
  | t47 => exact gate_t47 ok

/-- An accepted campaign has one measurement per trial exactly where no two measurements
are of one trial and none is empty, the trials of the other arms are distinct, and each
batch runs each arm. -/
theorem accepted_exact_iff {runs : Runs} (ok : v.run runs phases params = .ok ()) :
    Exact v (recorded runs.rows) phases params ↔ Paired v (recorded runs.rows) phases params :=
  ⟨paired_of_exact, exact_of_paired (gate_of_run ok)⟩

end

def quietTrial (batch config : String) : Run where
  batchId := batch
  trial := "1"
  warmup := 0
  config := config
  system := "whimbrel"
  gitSha := "cafe"
  dirty := 0
  stealTicks := 0
  virt := "none"
  governor := "performance"
  smtControl := "off"
  cpufreqBoost := "0"
  kernelSha256 := ""
  biosSha256 := ""
  canaryStvecNs := ""
  canaryPageVerifyNs := ""
  e0ToFirstConnectNs := none
  e0ToE4Ns := none
  wNs := none
  synackToHttpNs := none
  dFinNs := none

def quietE3g (batch config : String) : Phase where
  batchId := batch
  trial := "1"
  warmup := 0
  config := config
  phase := "E3g"
  system := none
  nsSinceE2 := some 700

def firstCampaign (rows : List Run) : Runs where
  fields := ["e0_to_e3w_ns", "virt", "governor", "smt_control", "cpufreq_boost"]
  rows := rows

def twoBatches : Params where
  batches := ["b-1", "b-2"]
  shaStart := "cafe"
  n := 2
  manifest := []
  classes := asciiClasses

/-- Duplicates and omissions cancel in the counts: one arm's batch is recorded twice, so is
the other arm's other batch, and a single trial carries all four measurements. -/
theorem validate_cancelling : ∃ (rows : List Run) (phases : List Phase),
    validate (firstCampaign rows) phases twoBatches = .ok () ∧
      ¬ ((recorded rows).map Run.key).Nodup ∧ e2e3gVals (recorded rows) phases fast none = .error (.noE3g fast) ∧
      e2e3gVals (recorded rows) phases safe none = .ok [700, 700, 700, 700] ∧
      ¬ Exact .old (recorded rows) phases twoBatches := by
  refine ⟨[quietTrial "b-1" safe, quietTrial "b-1" safe, quietTrial "b-2" fast, quietTrial "b-2" fast],
    List.replicate 4 (quietE3g "b-1" safe), by decide +kernel, by decide +kernel, by decide +kernel, by decide +kernel, ?_⟩
  intro exact
  exact absurd exact.distinct (by decide +kernel)

def pairedRows : List Run :=
  [quietTrial "b-1" safe, quietTrial "b-1" fast, quietTrial "b-2" fast, quietTrial "b-2" safe]

def pairedPhases : List Phase := [quietE3g "b-1" safe, quietE3g "b-1" fast, quietE3g "b-2" fast, quietE3g "b-2" safe]

theorem accepted_exact_iff_twoBatches : validate (firstCampaign pairedRows) pairedPhases twoBatches = .ok () ∧
    Exact .old (recorded pairedRows) pairedPhases twoBatches := by
  have accepted : Validator.old.run (firstCampaign pairedRows) pairedPhases twoBatches = .ok () := by decide +kernel
  refine ⟨accepted, (accepted_exact_iff accepted).mpr ⟨?_, ?_, ?_, ?_⟩⟩
  · decide +kernel
  · decide +kernel
  · decide +kernel
  · decide +kernel

end Whimbrel.Exhibits

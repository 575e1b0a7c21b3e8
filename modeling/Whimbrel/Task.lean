import Whimbrel.Layout
import Whimbrel.Net.App
import Whimbrel.Trap.Frame

/-! The task table and the scheduler: `src/task.rs`.

A trap frame lives at the address its task records; frames of different tasks are
88 KiB apart, so the frames are kept by address. The lines the kernel prints are
left out. -/

set_option autoImplicit false

namespace Whimbrel

open Checked
open Trap (TrapFrame)

inductive State where
  | ready
  | running
  | exited
  deriving DecidableEq, Repr

structure Task where
  id : Nat
  state : State
  frame : Usize
  kstackTop : Usize
  ustackTop : Usize
  brkBase : Usize
  brk : Usize
  brkWall : Usize
  exitCode : Usize
  writes : Usize
  yields : Usize
  deriving DecidableEq, Repr

def addr (n : Nat) : Usize := BitVec.ofNat 64 n

def fabricatedSstatus : Usize := Sstatus.spie ||| Sstatus.uxl64

/-- What the kernel keeps between traps. -/
structure Kernel where
  /-- `TASKS`. -/
  tasks : Nat → Option Task
  /-- `CURRENT`. -/
  cur : Option Nat
  /-- The trap frames on the kernel stacks. -/
  frames : Usize → TrapFrame
  /-- The bytes a load finds; tasks rewrite their own pages between traps. -/
  mem : Asm.Memory
  net : Net.Statics
  /-- `timer::TICKS`. -/
  ticks : Usize
  /-- What the tasks have written. -/
  console : List U8

/-- How a handler ends: a frame to resume, or the machine is off. -/
inductive Outcome where
  | resume (frame : Usize)
  | shutdown
  deriving DecidableEq, Repr

namespace Kernel

variable (cfg : Config) (lay : Layout) (platform : Platform) (k : Kernel)

/-- A store through `&mut TASKS[id]`. -/
def put (id : Nat) (t : Task) : Kernel := { k with tasks := Function.update k.tasks id (some t) }

def setFrame (frame : Usize) (f : TrapFrame) : Kernel := { k with frames := Function.update k.frames frame f }

def get (id : Nat) : Result Task :=
  if id ≥ maxTasks then .error .taskId else
    match k.tasks id with
    | some t => .ok t
    | none => .error .taskNotCreated

def create (id : Nat) (entry : Usize) : Result Kernel := do
  if id ≥ maxTasks then throw .taskId
  if (k.tasks id).isSome then throw .taskExists
  let s ← lay.slot id
  let framePa := s.kstackTop - Trap.frameSize.toNat
  if framePa < s.kstackBottom then throw .taskLayout
  let frame := addr framePa
  let k := k.setFrame frame
    { x := Function.update (fun _ => 0) Asm.Reg.sp (addr s.ustackTop), sepc := entry, sstatus := fabricatedSstatus }
  return k.put id
    { id, state := .ready, frame, kstackTop := addr s.kstackTop, ustackTop := addr s.ustackTop
      brkBase := addr s.brkBase, brk := addr s.brkBase, brkWall := addr s.brkWall
      exitCode := 0, writes := 0, yields := 0 }

end Kernel

structure Entries where
  user : Usize
  task1 : Usize
  task2 : Usize
  app : Usize

inductive TableOp where
  | create (id : Nat) (entry : Usize)
  /-- `get(id).state = State::Exited`. -/
  | retire (id : Nat)

def Image.tableOps (e : Entries) : Image → List TableOp
  | .userptr => [.create 0 e.user, .create 1 0, .retire 1, .create 2 0, .retire 2, .create 3 0, .retire 3]
  | .userFault => [.create 0 0, .create 1 e.task1, .create 2 e.task2, .create 3 0, .retire 0, .retire 3]
  | .app => [.create 0 0, .create 1 0, .create 2 0, .create 3 e.app, .retire 0, .retire 1, .retire 2]

def Image.first : Image → Nat
  | .userptr => 0
  | .userFault => 2
  | .app => 3

def TableOp.exec (lay : Layout) (k : Kernel) : TableOp → Result Kernel
  | .create id entry => k.create lay id entry
  | .retire id => do
    let t ← k.get id
    return k.put id { t with state := .exited }

namespace Kernel

variable (cfg : Config) (lay : Layout) (platform : Platform) (k : Kernel)

/-- The checks of the loop that prints the table. -/
def checkTask (id : Nat) : Result Unit := do
  let t ← k.get id
  if t.frame ≠ t.kstackTop - Trap.frameSize then throw .taskLayout
  let s ← lay.slot id
  if t.ustackTop ≠ addr s.ustackTop then throw .taskLayout

def init (e : Entries) : Result Kernel := do
  let k ← (cfg.image.tableOps e).foldlM (TableOp.exec lay) k
  (List.range maxTasks).forM (k.checkTask lay)
  return k

/-- The part of `enter` after its frame accounting, and the frame it resumes. -/
def enter (id : Nat) : Result (Kernel × Usize) := do
  let t ← k.get id
  let k := k.put id { t with state := .running }
  return ({ k with cur := some id }, t.frame)

/-! ## Scheduling -/

def current : Result (Nat × Task) :=
  match k.cur with
  | some id => do return (id, ← k.get id)
  | none => .error .noCurrentTask

def hasCurrent : Bool := k.cur.isSome

def firstReady (id : Nat) : List Nat → Result (Option Nat)
  | [] => return none
  | step :: steps => do
    let cand := (id + step) % maxTasks
    let t ← k.get cand
    if t.state = .ready then return some cand
    firstReady id steps

def nextReadyAfter (id : Nat) : Result (Option Nat) := k.firstReady id [1, 2, 3, 4]

/-- The switch counters, which nothing reads, are left out. -/
def run (id : Nat) : Result (Kernel × Outcome) := do
  let t ← k.get id
  let k := k.put id { t with state := .running }
  return ({ k with cur := some id }, .resume t.frame)

def preempt (frame : Usize) : Result (Kernel × Outcome) := do
  let (slot, t) ← k.current
  if t.frame ≠ frame then throw .preemptFrame
  let k := k.put slot { t with state := .ready }
  let next ← k.nextReadyAfter t.id
  k.run (next.getD t.id)

def yieldCpu (frame : Usize) : Result (Kernel × Outcome) := do
  let (slot, t) ← k.current
  let yields ← addUsize cfg t.yields 1
  (k.put slot { t with yields }).preempt frame

def stopUntilScheduler : Result (Kernel × Outcome) :=
  if platform.shutdown then .ok (k, .shutdown) else .error .shutdownFailed

/-- `net::dump` prints only. -/
def finishApp : Result (Kernel × Outcome) := do
  if cfg.dropFirstTx ∧ k.net.tcp.tcb.rexmit ≠ 1 then throw .rexmitCount
  k.stopUntilScheduler platform

def finishUserFault : Result (Kernel × Outcome) := do
  let t1 ← k.get 1
  let t2 ← k.get 2
  if t1.state ≠ .exited ∨ t2.state ≠ .exited then throw .userFaultCheck
  if t1.writes = 0 then throw .userFaultCheck
  k.stopUntilScheduler platform

def finishSched : Result (Kernel × Outcome) :=
  if cfg.image = .userFault then k.finishUserFault platform else k.finishApp cfg platform

def afterExit (exitedId : Nat) : Result (Kernel × Outcome) := do
  match ← k.nextReadyAfter exitedId with
  | some id => k.run id
  | none => k.finishSched cfg platform

def markExited : Result (Kernel × Nat) := do
  let (slot, t) ← k.current
  let k := k.put slot { t with state := .exited }
  return ({ k with cur := none }, t.id)

def killAndReschedule : Result (Kernel × Outcome) := do
  let (k, id) ← k.markExited
  k.afterExit cfg platform id

def killUnknownSyscall : Result (Kernel × Nat) := k.markExited

def killInvalidUserPtr : Result Kernel := Prod.fst <$> k.markExited

def exitCurrent (code : Usize) : Result Kernel := do
  let (slot, t) ← k.current
  Prod.fst <$> (k.put slot { t with exitCode := code }).markExited

end Kernel

/-! ## What a trap may do to the tasks -/

/-- A task as `create` made it and the system calls keep it. -/
structure Task.Inv (lay : Layout) (id : Nat) (t : Task) : Prop where
  id_eq : t.id = id
  frame : t.frame = addr (lay.slotAt id).kstackTop - Trap.frameSize
  kstackTop : t.kstackTop = addr (lay.slotAt id).kstackTop
  ustackTop : t.ustackTop = addr (lay.slotAt id).ustackTop
  brkBase : t.brkBase = addr (lay.slotAt id).brkBase
  brkWall : t.brkWall = addr (lay.slotAt id).brkWall
  above : t.brkBase ≤ t.brk
  below : t.brk ≤ t.brkWall

namespace Kernel

structure Sound (lay : Layout) (k : Kernel) : Prop where
  made : ∀ {id}, id < maxTasks → ∃ t, k.tasks id = some t
  task : ∀ {id t}, k.tasks id = some t → t.Inv lay id
  status : ∀ {id t}, k.tasks id = some t → (k.frames t.frame).sstatus = fabricatedSstatus
  alone : ∀ {id t}, k.tasks id = some t → t.state = .running → k.cur = some id
  net : Net.Inv k.net

structure Runs (k : Kernel) (c : Nat) (t : Task) : Prop where
  cur : k.cur = some c
  known : c < maxTasks
  task : k.tasks c = some t
  running : t.state = .running

/-- The hart is in U-mode, and the next trap pushes its frame at `frame`. -/
def InUser (lay : Layout) (k : Kernel) (frame : Usize) : Prop :=
  Sound lay k ∧ ∃ c t, Runs k c t ∧ t.frame = frame

def ReadyAt (k : Kernel) (id : Nat) : Prop := ∃ t, k.tasks id = some t ∧ t.state = .ready

def anyReady (k : Kernel) : Bool := (List.range maxTasks).any fun id => (k.tasks id).any (·.state = .ready)

theorem anyReady_iff {k : Kernel} : k.anyReady ↔ ∃ id, id < maxTasks ∧ k.ReadyAt id := by
  simp [anyReady, ReadyAt, Option.any_eq_true]

/-- A task other than the trapped one keeps its slot, or is the one that runs next. -/
def Spared (k u : Kernel) (id : Nat) : Prop :=
  u.tasks id = k.tasks id ∨
    ∃ t, k.tasks id = some t ∧ t.state = .ready ∧ u.cur = some id ∧ u.tasks id = some { t with state := .running }

/-- The trap touched no task but the current one, and a task that could run is
resumed; the machine is off only if no other task was Ready. -/
inductive Contained (k u : Kernel) : Outcome → Prop where
  | resume {id : Nat} {t t' : Task} (was : k.tasks id = some t) (eligible : t.state = .ready ∨ k.cur = some id)
      (cur : u.cur = some id) (task : u.tasks id = some t') (running : t'.state = .running)
      (others : ∀ i, k.cur ≠ some i → Spared k u i) : Contained k u (.resume t.frame)
  | shutdown (idle : k.anyReady = false) (others : ∀ i, k.cur ≠ some i → u.tasks i = k.tasks i) :
      Contained k u .shutdown

theorem Contained.spared {k u : Kernel} {o : Outcome} (contained : Contained k u o) {i : Nat} (other : k.cur ≠ some i) :
    Spared k u i := by
  cases contained with
  | resume _ _ _ _ _ others => exact others i other
  | shutdown _ others => exact .inl (others i other)

def Handled (lay : Layout) (k : Kernel) (r : Kernel × Outcome) : Prop :=
  Contained k r.1 r.2 ∧ ∀ frame, r.2 = .resume frame → InUser lay r.1 frame

/-- A handler contains the trap under the condition; without it, the kernel
panics or goes down over a Ready task. -/
def Settles (lay : Layout) (k : Kernel) (safe : Prop) (x : Result (Kernel × Outcome)) : Prop :=
  (safe → Returns x (Handled lay k)) ∧ (¬ safe → ∀ r, x = .ok r → r.2 = .shutdown ∧ k.anyReady)

section
variable {cfg : Config} {lay : Layout} {platform : Platform} {k m : Kernel} {c : Nat} {t : Task}

theorem get_ok {id : Nat} (known : id < maxTasks) (task : k.tasks id = some t) : k.get id = .ok t := by
  rw [get, if_neg (Nat.not_le.mpr known), task]

theorem current_ok (cur : k.cur = some c) (known : c < maxTasks) (task : k.tasks c = some t) :
    k.current = .ok (c, t) := by
  rw [Kernel.current, cur]
  simp [get_ok known task]

theorem Runs.current (runs : Runs k c t) : k.current = .ok (c, t) := current_ok runs.cur runs.known runs.task

theorem put_cases {id : Nat} {s t' : Task} (mem : (k.put c t').tasks id = some s) :
    (id = c ∧ s = t') ∨ k.tasks id = some s := by
  by_cases here : id = c
  · subst here
    simp only [Kernel.put, Function.update_self, Option.some.injEq] at mem
    exact .inl ⟨rfl, mem.symm⟩
  · simp only [Kernel.put, Function.update_of_ne here] at mem
    exact .inr mem

theorem Sound.put (sound : Sound lay k) {t' : Task} (was : k.tasks c = some t) (inv : t'.Inv lay c)
    (alone : t'.state = .running → k.cur = some c) : Sound lay (k.put c t') := by
  have same : t'.frame = t.frame := inv.frame.trans (sound.task was).frame.symm
  refine ⟨fun {id} known => ?_, fun mem => ?_, fun mem => ?_, fun mem running => ?_, sound.net⟩
  · by_cases here : id = c
    · exact ⟨t', by simp [Kernel.put, here]⟩
    · obtain ⟨s, mem⟩ := sound.made known
      exact ⟨s, by simp [Kernel.put, here, mem]⟩
  · rcases put_cases mem with ⟨rfl, rfl⟩ | old
    · exact inv
    · exact sound.task old
  · rcases put_cases mem with ⟨rfl, rfl⟩ | old
    · rw [same]
      exact sound.status was
    · exact sound.status old
  · rcases put_cases mem with ⟨rfl, rfl⟩ | old
    · exact alone running
    · exact sound.alone old running

theorem Sound.setFrame (sound : Sound lay k) {frame : Usize} {f : TrapFrame} (status : f.sstatus = fabricatedSstatus) :
    Sound lay (k.setFrame frame f) := by
  refine ⟨sound.made, sound.task, fun {id s} mem => ?_, sound.alone, sound.net⟩
  by_cases here : s.frame = frame
  · simp [Kernel.setFrame, here, status]
  · simp only [Kernel.setFrame, Function.update_of_ne here]
    exact sound.status mem

structure Parked (lay : Layout) (k m : Kernel) (c : Nat) : Prop where
  sound : Sound lay m
  idle : ∀ {id t}, m.tasks id = some t → t.state ≠ .running
  others : ∀ {id}, id ≠ c → m.tasks id = k.tasks id
  net : m.net = k.net

theorem Runs.parked (runs : Runs k c t) (sound : Sound lay k) {t' : Task} (inv : t'.Inv lay c)
    (stopped : t'.state ≠ .running) : Parked lay k (k.put c t') c := by
  refine ⟨sound.put runs.task inv fun running => absurd running stopped, fun {id s} mem => ?_, fun away => ?_, rfl⟩
  · by_cases here : id = c
    · simp only [Kernel.put, here, Function.update_self, Option.some.injEq] at mem
      rw [← mem]
      exact stopped
    · simp only [Kernel.put, Function.update_of_ne here] at mem
      intro running
      have same := (sound.alone mem running).symm.trans runs.cur
      exact here (Option.some.inj same)
  · simp [Kernel.put, away]

theorem Parked.setCur (parked : Parked lay k m c) (cur : Option Nat) : Parked lay k { m with cur } c :=
  ⟨⟨parked.sound.made, parked.sound.task, parked.sound.status,
    fun mem running => absurd running (parked.idle mem), parked.sound.net⟩, parked.idle, parked.others, parked.net⟩

def started (m : Kernel) (n : Nat) (s : Task) : Kernel := { m.put n { s with state := .running } with cur := some n }

theorem run_eq {n : Nat} {s : Task} (known : n < maxTasks) (task : m.tasks n = some s) :
    m.run n = .ok (m.started n s, .resume s.frame) := by
  rw [run, get_ok known task]
  rfl

/-- To run a Ready task once the current one has stopped is contained. -/
theorem Parked.started (parked : Parked lay k m c) (sound : Sound lay k) (runs : Runs k c t) {n : Nat} {s : Task}
    (known : n < maxTasks) (task : m.tasks n = some s) (ready : s.state = .ready) :
    Handled lay k (m.started n s, .resume s.frame) := by
  have inv := parked.sound.task task
  have placed : (m.started n s).tasks n = some { s with state := .running } := by simp [Kernel.started, Kernel.put]
  have elsewhere {id : Nat} (away : id ≠ n) : (m.started n s).tasks id = m.tasks id := by
    simp [Kernel.started, Kernel.put, away]
  have running : Runs (m.started n s) n { s with state := .running } := ⟨rfl, known, placed, rfl⟩
  constructor
  · have spared (i : Nat) (other : k.cur ≠ some i) : Spared k (m.started n s) i := by
      have away : i ≠ c := fun same => other (by rw [runs.cur, same])
      by_cases here : i = n
      · subst here
        exact .inr ⟨s, by rw [← parked.others away, task], ready, rfl, placed⟩
      · exact .inl ((elsewhere here).trans (parked.others away))
    -- A task that is preempted with nobody else Ready goes on itself.
    by_cases self : n = c
    · subst self
      have same : s.frame = t.frame := inv.frame.trans (sound.task runs.task).frame.symm
      rw [same]
      exact .resume runs.task (.inr runs.cur) rfl placed rfl spared
    · exact .resume (by rw [← parked.others self, task]) (.inl ready) rfl placed rfl spared
  · intro frame same
    cases same
    have inv' : Task.Inv lay n { s with state := .running } := { inv with }
    exact ⟨(parked.setCur (some n)).sound.put (c := n) task inv' fun _ => rfl, n, _, running, rfl⟩

theorem firstReady_returns (sound : Sound lay m) (id : Nat) (steps : List Nat) :
    Returns (m.firstReady id steps) fun r => match r with
      | some n => n < maxTasks ∧ m.ReadyAt n
      | none => ∀ step ∈ steps, ¬ m.ReadyAt ((id + step) % maxTasks) := by
  induction steps with
  | nil => exact .ok fun _ mem => absurd mem (by simp)
  | cons step steps ih =>
    have known : (id + step) % maxTasks < maxTasks := Nat.mod_lt _ (by decide)
    obtain ⟨s, task⟩ := sound.made known
    rw [firstReady, get_ok known task, bind_ok]
    by_cases ready : s.state = .ready
    · rw [if_pos ready]
      exact .ok ⟨known, s, task, ready⟩
    · rw [if_neg ready]
      refine ih.mono fun r found => ?_
      cases r with
      | some n => exact found
      | none =>
        rintro step' mem ⟨s', task', ready'⟩
        rcases List.mem_cons.mp mem with rfl | later
        · rw [task, Option.some.injEq] at task'
          exact ready (task' ▸ ready')
        · exact found step' later ⟨s', task', ready'⟩

theorem nextReadyAfter_returns (sound : Sound lay m) (id : Nat) :
    Returns (m.nextReadyAfter id) fun r => match r with
      | some n => n < maxTasks ∧ m.ReadyAt n
      | none => m.anyReady = false := by
  refine (firstReady_returns sound id _).mono fun r found => ?_
  cases r with
  | some n => exact found
  | none =>
    rw [← Bool.not_eq_true, anyReady_iff]
    rintro ⟨n, known, ready⟩
    have visited : ∃ step ∈ [1, 2, 3, 4], (id + step) % maxTasks = n := by
      simp only [maxTasks] at known ⊢
      refine ⟨(n + 3 - id % 4) % 4 + 1, ?_, ?_⟩
      · simp only [List.mem_cons, List.not_mem_nil, or_false]
        omega
      · omega
    obtain ⟨step, mem, rfl⟩ := visited
    exact found step mem ready

/-- A tick or a `yield` of the running task resumes a task that could run. -/
theorem preempt_returns (sound : Sound lay k) (runs : Runs k c t) :
    Returns (k.preempt t.frame) (Handled lay k) := by
  have inv : Task.Inv lay c { t with state := .ready } := { sound.task runs.task with }
  have parked := runs.parked sound inv (fun running => by cases running)
  unfold preempt
  rw [runs.current, bind_ok]
  dsimp only
  rw [if_neg (not_not.mpr rfl)]
  refine (nextReadyAfter_returns parked.sound t.id).bind fun r found => ?_
  cases r with
  | some n =>
    obtain ⟨known, s, task, ready⟩ := found
    rw [Option.getD_some, run_eq known task]
    exact .ok (parked.started sound runs known task ready)
  | none =>
    have here : (k.put c { t with state := .ready }).tasks c = some { t with state := .ready } := by simp [Kernel.put]
    have some : (k.put c { t with state := .ready }).anyReady := anyReady_iff.mpr ⟨c, runs.known, _, here, rfl⟩
    rw [found] at some
    cases some

/-- What the last task needs for the machine to be shut down rather than to panic. -/
def CanFinish (cfg : Config) (k : Kernel) : Prop :=
  if cfg.image = .userFault then (k.tasks 1).map (·.writes) ≠ some 0 else cfg.dropFirstTx → k.net.tcp.tcb.rexmit = 1

instance (cfg : Config) (k : Kernel) : Decidable (CanFinish cfg k) :=
  inferInstanceAs (Decidable (if cfg.image = .userFault then _ else _))

theorem stopUntilScheduler_eq (answers : platform.Answers) : m.stopUntilScheduler platform = .ok (m, .shutdown) :=
  if_pos answers.shutdown

theorem finishSched_eq (cfg : Config) (answers : platform.Answers) (sound : Sound lay m)
    (idle : ∀ {id s}, m.tasks id = some s → s.state ≠ .running) (none : m.anyReady = false) :
    (CanFinish cfg m → m.finishSched cfg platform = .ok (m, .shutdown)) ∧
      (¬ CanFinish cfg m → ∀ r, m.finishSched cfg platform ≠ .ok r) := by
  -- Nobody runs and nobody is Ready: all tasks have exited.
  have exited {id : Nat} {s : Task} (known : id < maxTasks) (task : m.tasks id = some s) : s.state = .exited := by
    cases state : s.state with
    | ready => exact absurd (anyReady_iff.mpr ⟨id, known, s, task, state⟩) (by simp [none])
    | running => exact absurd state (idle task)
    | exited => rfl
  unfold finishSched CanFinish
  by_cases fault : cfg.image = .userFault
  · obtain ⟨t1, task1⟩ := sound.made (show 1 < maxTasks by decide)
    obtain ⟨t2, task2⟩ := sound.made (show 2 < maxTasks by decide)
    have gone : ¬ (t1.state ≠ .exited ∨ t2.state ≠ .exited) := by
      simp [exited (by decide) task1, exited (by decide) task2]
    rw [if_pos fault, if_pos fault]
    unfold finishUserFault
    rw [get_ok (by decide) task1, bind_ok, get_ok (by decide) task2, bind_ok, if_neg gone, task1]
    by_cases silent : t1.writes = 0
    · rw [if_pos silent]
      exact ⟨fun writes => absurd (congrArg some silent) writes, fun _ r done => by cases done⟩
    · rw [if_neg silent]
      exact ⟨fun _ => stopUntilScheduler_eq answers, fun stuck => absurd (fun same => silent (Option.some.inj same)) stuck⟩
  · rw [if_neg fault, if_neg fault]
    unfold finishApp
    by_cases count : cfg.dropFirstTx ∧ m.net.tcp.tcb.rexmit ≠ 1
    · rw [if_pos count]
      exact ⟨fun once => absurd (once count.1) count.2, fun _ r done => by cases done⟩
    · rw [if_neg count]
      refine ⟨fun _ => stopUntilScheduler_eq answers, fun stuck => absurd (fun drop => ?_) stuck⟩
      exact not_not.mp fun other => count ⟨drop, other⟩

def EndSafe (cfg : Config) (k : Kernel) : Prop := k.anyReady ∨ CanFinish cfg k

instance (cfg : Config) (k : Kernel) : Decidable (EndSafe cfg k) :=
  inferInstanceAs (Decidable (_ ∨ _))

theorem anyReady_congr (same : ∀ id, m.ReadyAt id ↔ k.ReadyAt id) : m.anyReady = k.anyReady := by
  rw [Bool.eq_iff_iff, anyReady_iff, anyReady_iff]
  simp only [same]

theorem Runs.not_readyAt (runs : Runs k c t) : ¬ k.ReadyAt c := by
  rintro ⟨s, task, ready⟩
  rw [runs.task, Option.some.injEq] at task
  rw [← task, runs.running] at ready
  cases ready

theorem Parked.readyAt_iff (parked : Parked lay k m c) (runs : Runs k c t) (gone : ¬ m.ReadyAt c) (id : Nat) :
    m.ReadyAt id ↔ k.ReadyAt id := by
  by_cases here : id = c
  · rw [here]
    exact ⟨fun ready => absurd ready gone, fun ready => absurd ready runs.not_readyAt⟩
  · rw [ReadyAt, ReadyAt, parked.others here]

theorem Parked.anyReady_eq (parked : Parked lay k m c) (runs : Runs k c t) (gone : ¬ m.ReadyAt c) :
    m.anyReady = k.anyReady :=
  anyReady_congr (parked.readyAt_iff runs gone)

/-- The current task has ended: the next Ready task runs, or the last one is out. -/
theorem Parked.afterExit_settles (parked : Parked lay k m c) (answers : platform.Answers) (sound : Sound lay k)
    (runs : Runs k c t) (gone : ¬ m.ReadyAt c)
    (writes : (m.tasks 1).map (·.writes) = (k.tasks 1).map (·.writes)) (id : Nat) :
    Settles lay k (EndSafe cfg k) (m.afterExit cfg platform id) := by
  have ready := parked.anyReady_eq runs gone
  have finish : CanFinish cfg m ↔ CanFinish cfg k := by rw [CanFinish, CanFinish, writes, parked.net]
  obtain ⟨r, next, found⟩ := nextReadyAfter_returns parked.sound id
  unfold afterExit
  rw [next, bind_ok]
  cases r with
  | some n =>
    obtain ⟨known, s, task, isReady⟩ := found
    have any : k.anyReady := ready ▸ anyReady_iff.mpr ⟨n, known, s, task, isReady⟩
    dsimp only
    rw [run_eq known task]
    exact ⟨fun _ => .ok (parked.started sound runs known task isReady), fun bad => absurd (.inl any) bad⟩
  | none =>
    have none : k.anyReady = false := ready.symm.trans found
    obtain ⟨stops, stuck⟩ := finishSched_eq cfg answers parked.sound parked.idle found
    have onlyFinish : EndSafe cfg k ↔ CanFinish cfg m := by
      rw [EndSafe, none, finish]
      simp
    rw [Settles, onlyFinish]
    refine ⟨fun can => ⟨_, stops can, ?_⟩, fun cannot r done => absurd done (stuck cannot r)⟩
    refine ⟨.shutdown none fun i other => parked.others fun same => other ?_, fun _ same => by cases same⟩
    rw [runs.cur, same]

def ended (k : Kernel) (c : Nat) (t : Task) : Kernel := { k.put c { t with state := .exited } with cur := none }

theorem Runs.markExited (runs : Runs k c t) : k.markExited = .ok (k.ended c t, t.id) := by
  rw [Kernel.markExited, runs.current]
  rfl

theorem Runs.ended (runs : Runs k c t) (sound : Sound lay k) {t' : Task} (inv : t'.Inv lay c)
    (writes : t'.writes = t.writes) :
    Parked lay k (k.ended c t') c ∧ ¬ (k.ended c t').ReadyAt c ∧
      ((k.ended c t').tasks 1).map (·.writes) = (k.tasks 1).map (·.writes) := by
  have inv' : Task.Inv lay c { t' with state := .exited } := { inv with }
  refine ⟨(runs.parked sound inv' fun running => by cases running).setCur none, ?_, ?_⟩
  · rintro ⟨s, task, ready⟩
    simp only [Kernel.ended, Kernel.put, Function.update_self, Option.some.injEq] at task
    rw [← task] at ready
    cases ready
  · by_cases first : 1 = c
    · simp [Kernel.ended, Kernel.put, ← first, first ▸ runs.task, writes]
    · simp [Kernel.ended, Kernel.put, first]

theorem ended_self (k : Kernel) (c : Nat) (t : Task) : (k.ended c t).tasks c = some { t with state := .exited } :=
  Function.update_self ..

theorem ended_of_ne (k : Kernel) {c i : Nat} (t : Task) (away : i ≠ c) : (k.ended c t).tasks i = k.tasks i :=
  Function.update_of_ne away ..

theorem Runs.killAndReschedule_eq (runs : Runs k c t) :
    k.killAndReschedule cfg platform = (k.ended c t).afterExit cfg platform t.id := by
  rw [killAndReschedule, runs.markExited, bind_ok]

theorem killAndReschedule_settles (answers : platform.Answers) (sound : Sound lay k) (runs : Runs k c t) :
    Settles lay k (EndSafe cfg k) (k.killAndReschedule cfg platform) := by
  obtain ⟨parked, gone, writes⟩ := runs.ended sound (sound.task runs.task) rfl
  rw [runs.killAndReschedule_eq]
  exact parked.afterExit_settles answers sound runs gone writes t.id

/-! ## Boot -/

def bare (net : Net.Statics) (ticks : Usize) : Kernel where
  tasks _ := none
  cur := none
  frames _ := ⟨fun _ => 0, 0, 0⟩
  mem _ := 0
  net := net
  ticks := ticks
  console := []

/-- The table while `init` fills it: `ids` have been created, nobody runs. -/
structure Built (lay : Layout) (ids : List Nat) (k : Kernel) : Prop where
  made : ∀ {id}, id ∈ ids → ∃ t, k.tasks id = some t
  free : ∀ {id}, id ∉ ids → k.tasks id = none
  task : ∀ {id t}, k.tasks id = some t → t.Inv lay id ∧ t.state ≠ .running
  status : ∀ {id t}, k.tasks id = some t → (k.frames t.frame).sstatus = fabricatedSstatus
  cur : k.cur = none
  net : Net.Inv k.net

end

end Kernel

/-- The slots in use after an operation; `none` if it would stop the kernel. -/
def TableOp.slots (ids : List Nat) : TableOp → Option (List Nat)
  | .create id _ => if id < maxTasks ∧ id ∉ ids then some (id :: ids) else none
  | .retire id => if id < maxTasks ∧ id ∈ ids then some ids else none

namespace Kernel

section
variable {cfg : Config} {lay : Layout} {k : Kernel} {ids : List Nat}

theorem addr_sub_frameSize {n : Nat} (large : 272 ≤ n) : addr (n - 272) = addr n - Trap.frameSize := by
  apply BitVec.eq_of_toNat_eq
  simp only [addr, Trap.frameSize, BitVec.toNat_ofNat, BitVec.toNat_sub, BitVec.reduceToNat]
  omega

theorem Built.put (built : Built lay ids k) {id : Nat} {t : Task} (inv : t.Inv lay id) (stopped : t.state ≠ .running)
    (status : (k.frames t.frame).sstatus = fabricatedSstatus) : Built lay (id :: ids) (k.put id t) := by
  refine ⟨fun {i} mem => ?_, fun {i} out => ?_, fun mem => ?_, fun mem => ?_, built.cur, built.net⟩
  · by_cases here : i = id
    · exact ⟨t, by simp [Kernel.put, here]⟩
    · obtain ⟨s, task⟩ := built.made ((List.mem_cons.mp mem).resolve_left here)
      exact ⟨s, by simp [Kernel.put, here, task]⟩
  · rw [List.mem_cons, not_or] at out
    simp [Kernel.put, out.1, built.free out.2]
  · rcases put_cases mem with ⟨rfl, rfl⟩ | old
    · exact ⟨inv, stopped⟩
    · exact built.task old
  · rcases put_cases mem with ⟨rfl, rfl⟩ | old
    · exact status
    · exact built.status old

theorem Built.setFrame (built : Built lay ids k) {frame : Usize} {f : TrapFrame}
    (status : f.sstatus = fabricatedSstatus) : Built lay ids (k.setFrame frame f) := by
  refine ⟨built.made, built.free, built.task, fun {id t} mem => ?_, built.cur, built.net⟩
  by_cases here : t.frame = frame
  · simp [Kernel.setFrame, here, status]
  · simp only [Kernel.setFrame, Function.update_of_ne here]
    exact built.status mem

def created (lay : Layout) (id : Nat) : Task :=
  let s := lay.slotAt id
  { id, state := .ready, frame := addr (s.kstackTop - 272), kstackTop := addr s.kstackTop
    ustackTop := addr s.ustackTop, brkBase := addr s.brkBase, brk := addr s.brkBase, brkWall := addr s.brkWall
    exitCode := 0, writes := 0, yields := 0 }

theorem created_inv {id : Nat} (known : id < maxTasks) : (created lay id).Inv lay id := by
  have room : 272 ≤ (lay.slotAt id).kstackTop := by
    simp only [Layout.slotAt, Slot.from]
    omega
  have grows : addr (lay.slotAt id).brkBase ≤ addr (lay.slotAt id).brkWall := by
    have top := lay.kstackTop_lt known
    simp only [Layout.slotAt, Slot.from, ramL1Start] at top
    simp only [addr, BitVec.le_def, BitVec.toNat_ofNat, Layout.slotAt, Slot.from]
    omega
  exact ⟨rfl, addr_sub_frameSize room, rfl, rfl, rfl, rfl, BitVec.le_refl _, grows⟩

theorem create_eq {id : Nat} (known : id < maxTasks) (free : k.tasks id = none) (entry : Usize) :
    ∃ f, k.create lay id entry = .ok ((k.setFrame (created lay id).frame f).put id (created lay id)) ∧
      f.sstatus = fabricatedSstatus := by
  have size : Trap.frameSize.toNat = 272 := rfl
  have above : ¬ (lay.slotAt id).kstackTop - 272 < (lay.slotAt id).kstackBottom := by
    simp only [Layout.slotAt, Slot.from]
    omega
  unfold Kernel.create
  rw [if_neg (Nat.not_le.mpr known), free, if_neg (by simp), lay.slot_ok known, bind_ok]
  dsimp only
  rw [size, if_neg above]
  exact ⟨_, rfl, rfl⟩

theorem Built.create (built : Built lay ids k) {id : Nat} (known : id < maxTasks) (fresh : id ∉ ids) (entry : Usize) :
    Returns (k.create lay id entry) (Built lay (id :: ids)) := by
  obtain ⟨f, done, status⟩ := @create_eq lay k id known (built.free fresh) entry
  rw [done]
  exact .ok ((built.setFrame status).put (created_inv known) (by simp [created]) (by simpa [Kernel.setFrame] using status))

theorem Built.retire (built : Built lay ids k) {id : Nat} (known : id < maxTasks) (used : id ∈ ids) :
    Returns (TableOp.exec lay k (.retire id)) (Built lay ids) := by
  obtain ⟨t, task⟩ := built.made used
  have inv : Task.Inv lay id { t with state := .exited } := { (built.task task).1 with }
  have status := built.status task
  have stored := built.put inv (fun running => by cases running) status
  rw [TableOp.exec, get_ok known task, bind_ok]
  exact .ok ⟨fun mem => stored.made (List.mem_cons_of_mem _ mem),
    fun out => stored.free fun mem => out ((List.mem_cons.mp mem).elim (fun here => here ▸ used) fun old => old),
    stored.task, stored.status, stored.cur, stored.net⟩

theorem Built.exec (built : Built lay ids k) {op : TableOp} {after : List Nat} (next : op.slots ids = some after) :
    Returns (op.exec lay k) (Built lay after) := by
  cases op with
  | create id entry =>
    simp only [TableOp.slots, Option.ite_none_right_eq_some, Option.some.injEq] at next
    obtain ⟨⟨known, fresh⟩, rfl⟩ := next
    exact built.create known fresh entry
  | retire id =>
    simp only [TableOp.slots, Option.ite_none_right_eq_some, Option.some.injEq] at next
    obtain ⟨⟨known, used⟩, rfl⟩ := next
    exact built.retire known used

theorem Built.run (ops : List TableOp) (built : Built lay ids k) {after : List Nat}
    (next : ops.foldlM TableOp.slots ids = some after) :
    Returns (ops.foldlM (TableOp.exec lay) k) (Built lay after) := by
  induction ops generalizing ids k with
  | nil =>
    cases next
    exact .ok built
  | cons op ops ih =>
    rw [List.foldlM_cons, Option.bind_eq_bind, Option.bind_eq_some_iff] at next
    obtain ⟨mid, first, rest⟩ := next
    rw [List.foldlM_cons]
    exact (built.exec first).bind fun u done => ih done rest

theorem tableOps_slots (image : Image) (e : Entries) :
    ∃ ids, (image.tableOps e).foldlM TableOp.slots [] = some ids ∧ ∀ id < maxTasks, id ∈ ids := by
  cases image
  · exact ⟨[3, 2, 1, 0], rfl, by decide⟩
  · exact ⟨[3, 2, 1, 0], rfl, by decide⟩
  · exact ⟨[3, 2, 1, 0], rfl, by decide⟩

theorem checkTask_ok (built : Built lay ids k) {id : Nat} (known : id < maxTasks) (used : id ∈ ids) :
    k.checkTask lay id = .ok () := by
  obtain ⟨t, task⟩ := built.made used
  have inv := (built.task task).1
  have frame : t.frame = t.kstackTop - Trap.frameSize := inv.frame.trans (by rw [inv.kstackTop])
  rw [checkTask, get_ok known task, bind_ok, if_neg (not_not.mpr frame), lay.slot_ok known, bind_ok,
    if_neg (not_not.mpr inv.ustackTop)]
  rfl

/-- The table after `task::init`: all four tasks are made and nobody runs. -/
theorem init_returns (cfg : Config) (lay : Layout) (e : Entries) {net : Net.Statics} (inv : Net.Inv net)
    (ticks : Usize) :
    Returns ((bare net ticks).init cfg lay e) fun k => ∃ ids, Built lay ids k ∧ ∀ id < maxTasks, id ∈ ids := by
  have start : Built lay [] (bare net ticks) :=
    ⟨fun mem => absurd mem List.not_mem_nil, fun _ => rfl, fun mem => (by cases mem), fun mem => (by cases mem),
      rfl, inv⟩
  obtain ⟨ids, slots, all⟩ := tableOps_slots cfg.image e
  refine (start.run _ slots).bind fun k built => ?_
  have checked : (List.range maxTasks).forM (k.checkTask lay) = .ok () := forM_ok fun id mem => by
    have known := List.mem_range.mp mem
    exact checkTask_ok built known (all id known)
  rw [checked, bind_ok]
  exact .ok ⟨ids, built, all⟩

theorem Built.enter (built : Built lay ids k) (all : ∀ id < maxTasks, id ∈ ids) {id : Nat} (known : id < maxTasks) :
    Returns (k.enter id) fun r => InUser lay r.1 r.2 := by
  obtain ⟨t, task⟩ := built.made (all id known)
  rw [Kernel.enter, get_ok known task, bind_ok]
  have sound : Sound lay { k with cur := some id } :=
    ⟨fun known => built.made (all _ known), fun mem => (built.task mem).1, built.status,
      fun mem running => absurd running (built.task mem).2, built.net⟩
  have inv : Task.Inv lay id { t with state := .running } := { (built.task task).1 with }
  exact .ok ⟨sound.put task inv fun _ => rfl, id, { t with state := .running },
    ⟨rfl, known, by simp [Kernel.put], rfl⟩, rfl⟩

end

end Kernel

end Whimbrel

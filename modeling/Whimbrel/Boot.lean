import Whimbrel.Trap.Handler

/-! Boot with interrupts on: from the return of `timer::init` to the `csrw sstatus`
of `__trap_return` that turns them off.

A timer interrupt can be taken between any two steps. It pushes its frame below
the `sp` of the interrupted code, which is on the boot stack until `__trap_return`
moves it to the first task's frame. -/

set_option autoImplicit false

namespace Whimbrel

open Checked Transition
open Trap (TrapFrame)

/-- The calls of `kmain` and `enter` that touch neither `TASKS` nor `CURRENT`. -/
inductive BootCall where
  | ebreakSelfTest
  | waitTicks
  | checkDtb
  | frameInit
  | frameSelfTest
  | checkLayout
  | printTable
  | pageInit
  | pageActivate
  | virtioProbe
  | virtqInit
  | netInit
  | heapInit
  | heapSelfTest
  | accounting
  | freeze
  | printEnter
  | stampSret
  deriving DecidableEq, Repr

inductive BootStep where
  | call (c : BootCall)
  | table (op : TableOp)
  /-- `t.state = State::Running`. -/
  | setRunning (id : Nat)
  /-- `CURRENT = Some(id)`. -/
  | setCurrent (id : Nat)
  /-- `mv sp, a0` with `a0` the task's frame. -/
  | moveSp (id : Nat)
  /-- `ld t0, 256(sp)` and `csrw sepc, t0`. -/
  | restoreSepc

/-- From the return of `timer::init` to the line `enter` prints. -/
def Image.earlySteps (image : Image) (e : Entries) : List BootStep :=
  [.call .ebreakSelfTest, .call .waitTicks, .call .checkDtb, .call .frameInit, .call .frameSelfTest,
    .call .checkLayout] ++
  (image.tableOps e).map .table ++
  [.call .printTable, .call .pageInit, .call .pageActivate, .call .virtioProbe, .call .virtqInit, .call .netInit,
    .call .heapInit, .call .heapSelfTest, .call .accounting, .call .freeze, .call .printEnter]

def lastSteps (id : Nat) : List BootStep := [.call .stampSret, .moveSp id, .restoreSepc]

def Image.bootSteps (image : Image) (e : Entries) : List BootStep :=
  image.earlySteps e ++ .setRunning image.first :: .setCurrent image.first :: lastSteps image.first

structure BootTick where
  x : Asm.Reg → Usize
  sepc : Usize
  sstatus : Usize
  now : Usize

/-- The hart in S-mode with the steps it has still to run. -/
structure Boot where
  kernel : Kernel
  rest : List BootStep
  sp : Usize

/-- What a step leaves in the statics; a call may change the network stack. -/
def BootStep.exec (lay : Layout) (k : Kernel) (net : Net.Statics) : BootStep → Result Kernel
  | .call _ => .ok { k with net }
  | .table op => op.exec lay k
  | .setRunning id => do
    let t ← k.get id
    return k.put id { t with state := .running }
  | .setCurrent id => .ok { k with cur := some id }
  | .moveSp _ => .ok k
  | .restoreSepc => .ok k

def OnBootStack (lay : Layout) (sp : Usize) : Prop :=
  lay.bootStackBottom + 272 ≤ sp.toNat ∧ sp.toNat ≤ lay.bootStackTop

instance (lay : Layout) (sp : Usize) : Decidable (OnBootStack lay sp) :=
  inferInstanceAs (Decidable (_ ∧ _))

/-- Where `sp` may stand after a step. -/
def BootStep.Leaves (lay : Layout) (k : Kernel) (before after : Usize) : BootStep → Prop
  | .moveSp id => (k.tasks id).map (·.frame) = some after
  | .restoreSepc => after = before
  | _ => OnBootStack lay after

inductive BootLabel where
  | step (net : Net.Statics)
  | tick (tick : BootTick)

namespace Boot

variable (cfg : Config) (lay : Layout) (platform : Platform)

def start (image : Image) (e : Entries) (net : Net.Statics) (ticks sp : Usize) : Boot where
  kernel := .bare net ticks
  rest := image.bootSteps e
  sp := sp

def pushedAt (b : Boot) : Usize := b.sp - Trap.frameSize

def timerEnv (tick : BootTick) : Env where
  sscratch := 0
  scause := Scause.interrupt ||| Scause.intSTimer
  stval := 0
  sstatus := Sstatus.trap false tick.sstatus
  now := tick.now
  received := []

def interrupt (b : Boot) (tick : BootTick) : Result (Kernel × Outcome) :=
  (b.kernel.setFrame b.pushedAt ⟨tick.x, tick.sepc, Sstatus.trap false tick.sstatus⟩).trapHandler cfg lay platform
    (timerEnv tick) b.pushedAt

inductive Step : Boot → BootLabel → Boot → Prop where
  | step {k u : Kernel} {s : BootStep} {rest : List BootStep} {sp sp' : Usize} {net : Net.Statics}
      (done : s.exec lay k net = .ok u) (leaves : s.Leaves lay u sp sp') :
      Step ⟨k, s :: rest, sp⟩ (.step net) ⟨u, rest, sp'⟩
  /-- The handler returned the interrupted frame, and the interrupted code goes on. -/
  | tick {b : Boot} {tick : BootTick} {u : Kernel}
      (done : b.interrupt cfg lay platform tick = .ok (u, .resume b.pushedAt)) :
      Step b (.tick tick) { b with kernel := u }

end Boot

/-! ## Where boot stands -/

def BootStep.Early : BootStep → Prop
  | .call _ => True
  | .table _ => True
  | _ => False

theorem earlySteps_early {image : Image} {e : Entries} : ∀ s ∈ image.earlySteps e, s.Early := by
  intro s mem
  simp only [Image.earlySteps, List.mem_append, List.mem_map, List.mem_cons, List.not_mem_nil, or_false] at mem
  rcases mem with (mem | ⟨op, -, rfl⟩) | mem
  · rcases mem with rfl | rfl | rfl | rfl | rfl | rfl <;> trivial
  · trivial
  · rcases mem with rfl | rfl | rfl | rfl | rfl | rfl | rfl | rfl | rfl | rfl | rfl <;> trivial

theorem BootStep.Early.leaves {lay : Layout} {s : BootStep} (early : s.Early) {sp : Usize}
    (onStack : OnBootStack lay sp) (k : Kernel) : s.Leaves lay k sp sp := by
  cases s with
  | call | table => exact onStack
  | setRunning | setCurrent | moveSp | restoreSepc => cases early

/-- `CURRENT` is set by the store of `enter` and by nothing before it. -/
inductive Boot.Phase (lay : Layout) (first : Nat) (b : Boot) : Prop where
  | early (before : List BootStep) (quiet : ∀ s ∈ before, s.Early)
      (rest : b.rest = before ++ .setRunning first :: .setCurrent first :: lastSteps first)
      (cur : b.kernel.cur = none) (sp : OnBootStack lay b.sp)
  | marked (t : Task) (task : b.kernel.tasks first = some t) (rest : b.rest = .setCurrent first :: lastSteps first)
      (cur : b.kernel.cur = none) (sp : OnBootStack lay b.sp)
  | late (t : Task) (task : b.kernel.tasks first = some t) (rest : b.rest <:+ lastSteps first)
      (cur : b.kernel.cur = some first) (sp : OnBootStack lay b.sp ∨ b.sp = t.frame)

namespace Kernel

def Placed (lay : Layout) (k : Kernel) : Prop := ∀ id t, k.tasks id = some t → t.Inv lay id

section
variable {cfg : Config} {lay : Layout} {platform : Platform} {k u : Kernel} {env : Env} {frame : Usize}

theorem Placed.put (placed : Placed lay k) {id : Nat} {t : Task} (inv : t.Inv lay id) : Placed lay (k.put id t) := by
  intro i s task
  by_cases here : i = id
  · subst here
    simp only [Kernel.put, Function.update_self, Option.some.injEq] at task
    exact task ▸ inv
  · simp only [Kernel.put, Function.update_of_ne here] at task
    exact placed i s task

theorem get_task {id : Nat} {t : Task} (done : k.get id = .ok t) : id < maxTasks ∧ k.tasks id = some t := by
  unfold Kernel.get at done
  split at done
  · cases done
  rename_i known
  split at done
  · rename_i task
    cases done
    exact ⟨Nat.lt_of_not_le known, task⟩
  · cases done

theorem Placed.setState (placed : Placed lay k) {id : Nat} {t : Task} (task : k.tasks id = some t) (state : State) :
    Placed lay (k.put id { t with state }) := by
  have inv : Task.Inv lay id { t with state } := { placed id t task with }
  exact placed.put inv

theorem Placed.table (placed : Placed lay k) {op : TableOp} (done : op.exec lay k = .ok u) :
    Placed lay u ∧ u.cur = k.cur := by
  cases op with
  | create id entry =>
    by_cases known : id < maxTasks
    · cases free : k.tasks id with
      | none =>
        obtain ⟨f, created, -⟩ := @create_eq lay k id known free entry
        cases created.symm.trans done
        exact ⟨Placed.put (k := k.setFrame _ f) placed (created_inv known), rfl⟩
      | some t =>
        rw [TableOp.exec, Kernel.create, if_neg (Nat.not_le.mpr known), free] at done
        cases done
    · rw [TableOp.exec, Kernel.create, if_pos (Nat.not_lt.mp known)] at done
      cases done
  | retire id =>
    obtain ⟨t, got, done⟩ := bind_eq_ok done
    cases done
    exact ⟨placed.setState (get_task got).2 _, rfl⟩

theorem trapHandler_idle (answers : platform.Answers) (kernelMode : env.sscratch = 0)
    (timer : env.scause = Scause.interrupt ||| Scause.intSTimer) (idle : k.cur = none) :
    k.trapHandler cfg lay platform env frame = .ok ({ k with ticks := k.ticks + 1 }, .resume frame) := by
  unfold trapHandler onInterrupt
  rw [if_neg (not_not.mpr kernelMode), timer, if_pos (by decide), if_pos (by decide), if_pos (answers.setTimer _),
    bind_ok, hasCurrent, idle]
  rfl

theorem trapHandler_foreign (answers : platform.Answers) (kernelMode : env.sscratch = 0)
    (timer : env.scause = Scause.interrupt ||| Scause.intSTimer) {c : Nat} {t : Task} (known : c < maxTasks)
    (cur : k.cur = some c) (task : k.tasks c = some t) (other : t.frame ≠ frame) :
    k.trapHandler cfg lay platform env frame = .error .preemptFrame := by
  have current : ({ k with ticks := k.ticks + 1 } : Kernel).current = .ok (c, t) := current_ok cur known task
  unfold trapHandler onInterrupt
  rw [if_neg (not_not.mpr kernelMode), timer, if_pos (by decide), if_pos (by decide), if_pos (answers.setTimer _),
    bind_ok, if_pos (by rw [hasCurrent, cur]; rfl), preempt, current, bind_ok]
  dsimp only
  rw [if_pos other]
  rfl

end

end Kernel

section
variable {cfg : Config} {lay : Layout} {platform : Platform} {b : Boot}

theorem Task.Inv.frame_toNat {id : Nat} {t : Task} (inv : t.Inv lay id) (known : id < maxTasks) :
    t.frame.toNat = (lay.slotAt id).kstackTop - 272 := by
  have top := lay.kstackTop_lt known
  have room : 272 ≤ (lay.slotAt id).kstackTop := by
    simp only [Layout.slotAt, Slot.from]
    omega
  rw [inv.frame, ← Kernel.addr_sub_frameSize room, Uaccess.toNat_addr (by omega)]

/-- A frame pushed on the boot stack, or below the first task's frame, is not that frame. -/
theorem pushedAt_ne {id : Nat} {t : Task} (inv : t.Inv lay id) (known : id < maxTasks)
    (sp : OnBootStack lay b.sp ∨ b.sp = t.frame) : t.frame ≠ b.pushedAt := by
  intro same
  have top := lay.kstackTop_lt known
  have value := congrArg BitVec.toNat same
  rw [Boot.pushedAt, BitVec.toNat_sub, show Trap.frameSize.toNat = 272 from rfl] at value
  have frame := inv.frame_toNat known
  rcases sp with ⟨low, high⟩ | moved
  · simp only [ramL1Start, Layout.slotAt, Slot.from, Sections.tasksStart, Sections.ubssEnd, Sections.ubssStart,
      Sections.udataEnd, Sections.udataStart, Sections.urodataEnd, Sections.urodataStart, Sections.utextEnd,
      Sections.utextStart] at top frame low high
    omega
  · rw [moved] at value
    omega

namespace Boot

/-- The interrupted code goes on as it was: its registers, `sepc` and the `sstatus` of
the trap are in the frame, and memory, the task table and `CURRENT` are unchanged. -/
structure Resumes (b : Boot) (tick : BootTick) (u : Kernel) : Prop where
  frame : u.frames b.pushedAt = ⟨tick.x, tick.sepc, Sstatus.trap false tick.sstatus⟩
  mem : u.mem = b.kernel.mem
  tasks : u.tasks = b.kernel.tasks
  cur : u.cur = b.kernel.cur

theorem interrupt_idle (answers : platform.Answers) (idle : b.kernel.cur = none) (tick : BootTick) :
    ∃ u, b.interrupt cfg lay platform tick = .ok (u, .resume b.pushedAt) ∧ b.Resumes tick u := by
  refine ⟨_, Kernel.trapHandler_idle answers rfl rfl idle, ?_, rfl, rfl, rfl⟩
  exact Function.update_self ..

theorem interrupt_late (answers : platform.Answers) {first : Nat} (known : first < maxTasks) {t : Task}
    (inv : t.Inv lay first) (task : b.kernel.tasks first = some t) (cur : b.kernel.cur = some first)
    (sp : OnBootStack lay b.sp ∨ b.sp = t.frame) (tick : BootTick) :
    b.interrupt cfg lay platform tick = .error .preemptFrame :=
  Kernel.trapHandler_foreign answers rfl rfl known cur task (pushedAt_ne inv known sp)

structure Inv (lay : Layout) (first : Nat) (b : Boot) : Prop where
  placed : b.kernel.Placed lay
  phase : b.Phase lay first

theorem Inv.start {image : Image} {e : Entries} {net : Net.Statics} {ticks sp : Usize} (onStack : OnBootStack lay sp) :
    Inv lay image.first (start image e net ticks sp) :=
  ⟨fun id t task => (by cases task), .early _ earlySteps_early rfl rfl onStack⟩

theorem Inv.tick (answers : platform.Answers) {first : Nat} (known : first < maxTasks) (inv : Inv lay first b)
    {tick : BootTick} {u : Kernel} (done : b.interrupt cfg lay platform tick = .ok (u, .resume b.pushedAt)) :
    Inv lay first { b with kernel := u } := by
  have quiet (idle : b.kernel.cur = none) : u.tasks = b.kernel.tasks ∧ u.cur = none := by
    obtain ⟨v, returned, resumes⟩ := @interrupt_idle cfg lay platform b answers idle tick
    cases returned.symm.trans done
    exact ⟨resumes.tasks, resumes.cur.trans idle⟩
  obtain ⟨placed, phase⟩ := inv
  cases phase with
  | early before early rest cur sp =>
    obtain ⟨tasks, cur⟩ := quiet cur
    exact ⟨fun id t task => placed id t (tasks ▸ task), .early before early rest cur sp⟩
  | marked t task rest cur sp =>
    obtain ⟨tasks, cur⟩ := quiet cur
    exact ⟨fun id t task => placed id t (tasks ▸ task), .marked t (tasks ▸ task) rest cur sp⟩
  | late t task rest cur sp =>
    cases (interrupt_late answers known (placed first t task) task cur sp tick).symm.trans done

theorem Inv.step {first : Nat} {k u : Kernel} {s : BootStep} {rest : List BootStep} {sp sp' : Usize}
    {net : Net.Statics} (inv : Inv lay first ⟨k, s :: rest, sp⟩) (done : s.exec lay k net = .ok u)
    (leaves : s.Leaves lay u sp sp') : Inv lay first ⟨u, rest, sp'⟩ := by
  obtain ⟨placed, phase⟩ := inv
  cases phase with
  | early before quiet shape cur onStack =>
    cases before with
    | nil =>
      cases shape
      -- `enter` marks its task Running before it stores `CURRENT`.
      obtain ⟨t, got, done⟩ := bind_eq_ok done
      cases done
      exact ⟨placed.setState (Kernel.get_task got).2 .running,
        .marked { t with state := .running } (by simp [Kernel.put]) rfl cur leaves⟩
    | cons s' before =>
      cases shape
      have early := quiet s List.mem_cons_self
      cases s with
      | call c =>
        cases done
        exact ⟨placed, .early before (fun s mem => quiet s (List.mem_cons_of_mem _ mem)) rfl cur leaves⟩
      | table op =>
        obtain ⟨placed, same⟩ := placed.table done
        exact ⟨placed, .early before (fun s mem => quiet s (List.mem_cons_of_mem _ mem)) rfl (same.trans cur) leaves⟩
      | setRunning | setCurrent | moveSp | restoreSepc => cases early
  | marked t task shape cur onStack =>
    cases shape
    cases done
    exact ⟨placed, .late t task (List.suffix_refl _) rfl (.inl leaves)⟩
  | late t task shape cur place =>
    have shorter : rest <:+ lastSteps first := (List.suffix_cons s rest).trans shape
    have mem : s ∈ lastSteps first := shape.subset List.mem_cons_self
    simp only [lastSteps, List.mem_cons, List.not_mem_nil, or_false] at mem
    rcases mem with rfl | rfl | rfl
    · cases done
      exact ⟨placed, .late t task shorter cur (.inl leaves)⟩
    · cases done
      have moved : (k.tasks first).map (·.frame) = some sp' := leaves
      rw [task] at moved
      exact ⟨placed, .late t task shorter cur (.inr (Option.some.inj moved).symm)⟩
    · cases done
      exact ⟨placed, .late t task shorter cur (leaves ▸ place)⟩

theorem Inv.run (answers : platform.Answers) {first : Nat} (known : first < maxTasks) {a : Boot} {labels : List BootLabel}
    (run : Run (Step cfg lay platform) a labels b) (start : Inv lay first a) : Inv lay first b := by
  refine run.invariant (fun s l t inv step => ?_) start
  cases step with
  | step done leaves => exact inv.step done leaves
  | tick done => exact inv.tick answers known done

/-- Wherever a timer interrupt arrives during boot, the handler resumes the
interrupted code, with the task table and `CURRENT` unchanged, exactly while the
store `CURRENT = Some(id)` of `enter` is still to come. -/
theorem boot_tick_returns_iff (answers : platform.Answers) {e : Entries} {net : Net.Statics} {ticks sp : Usize}
    (onStack : OnBootStack lay sp) {labels : List BootLabel}
    (run : Run (Step cfg lay platform) (start cfg.image e net ticks sp) labels b) (tick : BootTick) :
    (∃ u, b.interrupt cfg lay platform tick = .ok (u, .resume b.pushedAt) ∧ b.Resumes tick u) ↔
      BootStep.setCurrent cfg.image.first ∈ b.rest := by
  have known : cfg.image.first < maxTasks := by cases cfg.image <;> decide
  have inv := Inv.run answers known run (.start onStack)
  cases inv.phase with
  | early before quiet rest cur sp => exact ⟨fun _ => by simp [rest], fun _ => interrupt_idle answers cur tick⟩
  | marked t task rest cur sp => exact ⟨fun _ => by simp [rest], fun _ => interrupt_idle answers cur tick⟩
  | late t task rest cur sp =>
    have stopped := @interrupt_late cfg lay platform b answers _ known t (inv.placed _ t task) task cur sp tick
    refine ⟨fun ⟨u, done, _⟩ => ?_, fun mem => ?_⟩
    · cases stopped.symm.trans done
    · simpa [lastSteps] using rest.subset mem

theorem steps_run {k u : Kernel} {net : Net.Statics} {sp : Usize}
    (steps : List BootStep) {rest : List BootStep} (stay : ∀ s ∈ steps, ∀ v, s.Leaves lay v sp sp)
    (done : steps.foldlM (fun k s => s.exec lay k net) k = .ok u) :
    ∃ labels, Run (Step cfg lay platform) ⟨k, steps ++ rest, sp⟩ labels ⟨u, rest, sp⟩ := by
  induction steps generalizing k with
  | nil =>
    cases done
    exact ⟨[], .nil⟩
  | cons s steps ih =>
    rw [List.foldlM_cons] at done
    obtain ⟨v, first, later⟩ := bind_eq_ok done
    obtain ⟨labels, run⟩ := ih (fun s mem => stay s (List.mem_cons_of_mem _ mem)) later
    exact ⟨_, run.cons (.step first (stay s List.mem_cons_self v))⟩

end Boot

end

namespace Boot

def stackTop : Usize := addr User.smallLayout.bootStackTop

def firstTick : BootTick := ⟨fun _ => 0, 0, Sstatus.sie, 0⟩

theorem boot_tick_returns_iff_start :
    let b := start .app ⟨0, 0, 0, 0⟩ (.boot Net.guestMac) 0 stackTop
    ∃ u, b.interrupt .default User.smallLayout Net.qemu firstTick = .ok (u, .resume b.pushedAt) ∧
      b.Resumes firstTick u := by
  have onStack : OnBootStack User.smallLayout stackTop := by decide
  have answers : Net.qemu.Answers := ⟨rfl, fun _ => rfl, rfl⟩
  have coming : BootStep.setCurrent 3 ∈ (start .app ⟨0, 0, 0, 0⟩ (.boot Net.guestMac) 0 stackTop).rest := by
    simp [start, Image.bootSteps, Image.first]
  exact (@boot_tick_returns_iff .default _ _ _ answers _ _ _ _ onStack _ .nil firstTick).mpr coming

def toCurrent : List BootStep := Image.app.earlySteps ⟨0, 0, 0, 0⟩ ++ [.setRunning 3, .setCurrent 3]

def enteredKernel : Kernel :=
  match toCurrent.foldlM (fun k s => s.exec User.smallLayout k (.boot Net.guestMac))
    (.bare (.boot Net.guestMac) 0) with
  | .ok k => k
  | .error _ => .bare (.boot Net.guestMac) 0

/-- A tick right after `CURRENT = Some(3)`. -/
theorem tick_after_current_panics :
    ∃ labels, Run (Step .default User.smallLayout Net.qemu)
      (start .app ⟨0, 0, 0, 0⟩ (.boot Net.guestMac) 0 stackTop) labels ⟨enteredKernel, lastSteps 3, stackTop⟩ ∧
      (interrupt .default User.smallLayout Net.qemu ⟨enteredKernel, lastSteps 3, stackTop⟩ firstTick).panic? =
        some .preemptFrame := by
  have onStack : OnBootStack User.smallLayout stackTop := by decide
  have stay : ∀ s ∈ toCurrent, ∀ v, s.Leaves User.smallLayout v stackTop stackTop := by
    intro s mem v
    rcases List.mem_append.mp mem with early | marks
    · exact (earlySteps_early s early).leaves onStack v
    · simp only [List.mem_cons, List.not_mem_nil, or_false] at marks
      rcases marks with rfl | rfl <;> exact onStack
  have done : toCurrent.foldlM (fun k s => s.exec User.smallLayout k (.boot Net.guestMac))
      (.bare (.boot Net.guestMac) 0) = .ok enteredKernel := rfl
  have reached := @steps_run .default _ Net.qemu _ _ _ _ toCurrent (lastSteps 3) stay done
  obtain ⟨labels, run⟩ := reached
  exact ⟨labels, by simpa [start, Image.bootSteps, Image.first, toCurrent] using run, by decide +kernel⟩

end Boot

end Whimbrel

import Whimbrel.Syscall

/-! `trap_handler`, and the hart between two traps from U-mode.

A user step is what the task did since the last `sret`: it leaves any registers,
any memory of its own and any cause behind, and the next trap pushes them at the
frame that was resumed. -/

set_option autoImplicit false

namespace Whimbrel

open Checked Transition
open Trap (TrapFrame)

namespace Scause

/-! `csr::scause`. -/

def interrupt : Usize := 1 <<< 63
def intSTimer : Usize := 5
def excInstAddrMisaligned : Usize := 0
def excBreakpoint : Usize := 3
def excEcallU : Usize := 8
def excInstPageFault : Usize := 12
def excLoadPageFault : Usize := 13
def excStorePageFault : Usize := 15

end Scause

def Trap.instructionWidth (half : U16) : Usize := if half &&& 3 = 3 then 4 else 2

namespace Kernel

variable (cfg : Config) (lay : Layout) (platform : Platform) (env : Env) (k : Kernel) (frame : Usize)

def onInterrupt : Result Kernel :=
  if platform.setTimer (env.now + Net.period) then .ok { k with ticks := k.ticks + 1 } else .error .setTimer

/-- `core::ptr::read(addr as *const u16)`: a load that faults in S-mode ends in the
handler's own panic. -/
def readHalf (sum : Bool) (va : Usize) : Result U16 :=
  -- core is prebuilt without debug assertions, so no profile checks the pointer
  if lay.loadable sum va ∧ lay.loadable sum (va + 1) then .ok (k.mem (va + 1) ++ k.mem va)
  else .error .kernelFault

def onBreakpoint : Result (Kernel × Outcome) := do
  let f := k.frames frame
  let half ← k.readHalf lay (env.sstatus &&& Sstatus.sum ≠ 0) f.sepc
  let sepc ← addUsize cfg f.sepc (Trap.instructionWidth half)
  return (k.setFrame frame { f with sepc }, .resume frame)

def trapHandler : Result (Kernel × Outcome) :=
  let code := env.scause &&& ~~~Scause.interrupt
  if env.sscratch ≠ 0 then .error .sscratchNonzero
  else if env.scause &&& Scause.interrupt ≠ 0 then
    if code = Scause.intSTimer then do
      let k ← k.onInterrupt platform env
      if k.hasCurrent then k.preempt frame else return (k, .resume frame)
    else .error .unknownTrap
  else if code = Scause.excEcallU then k.fromEcall cfg lay platform env frame
  else if code = Scause.excBreakpoint then k.onBreakpoint cfg lay env frame
  else if code = Scause.excInstAddrMisaligned ∨ code = Scause.excInstPageFault ∨ code = Scause.excLoadPageFault ∨
      code = Scause.excStorePageFault then
    if Trap.fromUser (k.frames frame) then k.killAndReschedule cfg platform else .error .kernelFault
  else if Trap.fromUser (k.frames frame) then k.killAndReschedule cfg platform else .error .unknownTrap

end Kernel

def Sstatus.sret (s : Usize) : Usize :=
  let enabled := if s &&& Sstatus.spie ≠ 0 then s ||| Sstatus.sie else s &&& ~~~Sstatus.sie
  (enabled ||| Sstatus.spie) &&& ~~~Sstatus.spp

def Sstatus.trap (user : Bool) (s : Usize) : Usize :=
  let saved := (if s &&& Sstatus.sie ≠ 0 then s ||| Sstatus.spie else s &&& ~~~Sstatus.spie) &&& ~~~Sstatus.sie
  if user then saved &&& ~~~Sstatus.spp else saved ||| Sstatus.spp

/-- The hart in U-mode: the next trap pushes its frame at `frame`. -/
structure User where
  kernel : Kernel
  frame : Usize

/-- A trap from U-mode, with whatever the task and the device have done before it. -/
structure UserTrap where
  x : Asm.Reg → Usize
  sepc : Usize
  scause : Usize
  stval : Usize
  mem : Asm.Memory
  now : Usize
  received : List Net.Completion
  /-- The device completes only buffers it was given. -/
  ids : ∀ e ∈ received, e.id.toNat < Net.rxBufs

namespace User

variable (cfg : Config) (lay : Layout) (platform : Platform) (u : User) (tr : UserTrap)

def status : Usize := Sstatus.trap true (Sstatus.sret (u.kernel.frames u.frame).sstatus)

def env : Env where
  sscratch := 0
  scause := tr.scause
  stval := tr.stval
  sstatus := u.status
  now := tr.now
  received := tr.received

/-- The kernel as `__trap_entry` calls the handler. -/
def entered : Kernel :=
  { u.kernel.setFrame u.frame { x := tr.x, sepc := tr.sepc, sstatus := u.status } with mem := tr.mem }

def trap : Result (Kernel × Outcome) := (u.entered tr).trapHandler cfg lay platform (u.env tr) u.frame

def Step (u : User) (tr : UserTrap) (v : User) : Prop :=
  u.trap cfg lay platform tr = .ok (v.kernel, .resume v.frame)

def StepWhen (ok : User → UserTrap → Prop) (u : User) (tr : UserTrap) (v : User) : Prop :=
  Step cfg lay platform u tr v ∧ ok u tr

/-- `task::init`, then `task::enter` of the image's first task. -/
def boot (e : Entries) (net : Net.Statics) (ticks : Usize) : Result User := do
  let k ← (Kernel.bare net ticks).init cfg lay e
  let (k, frame) ← k.enter cfg.image.first
  return ⟨k, frame⟩

end User

/-! ## Containment -/

/-- S-mode may read the instruction's halfword with `SUM` off. -/
def HalfReadable (lay : Layout) (va : Usize) : Prop :=
  lay.loadable false va ∧ lay.loadable false (va + 1)

instance (lay : Layout) (va : Usize) : Decidable (HalfReadable lay va) :=
  inferInstanceAs (Decidable (_ ∧ _))

namespace Kernel

/-- The condition under which an exception of the running task is contained. -/
def TrapSafe (cfg : Config) (lay : Layout) (env : Env) (k : Kernel) (t : Task) : Prop :=
  let code := env.scause &&& ~~~Scause.interrupt
  if code = Scause.excEcallU then CallSafe cfg lay env k t
  else if code = Scause.excBreakpoint then HalfReadable lay (k.frames t.frame).sepc
  else EndSafe cfg k

instance (cfg : Config) (lay : Layout) (env : Env) (k : Kernel) (t : Task) : Decidable (TrapSafe cfg lay env k t) :=
  by dsimp only [TrapSafe]; infer_instance

section
variable {cfg : Config} {lay : Layout} {platform : Platform} {env : Env} {k : Kernel} {c : Nat} {t : Task}

theorem readHalf_ok_iff {va : Usize} :
    (∃ half, k.readHalf lay false va = .ok half) ↔ HalfReadable lay va := by
  unfold readHalf HalfReadable
  split
  · rename_i loads
    exact ⟨fun _ => loads, fun _ => ⟨_, rfl⟩⟩
  · rename_i faults
    exact ⟨fun ⟨_, done⟩ => (by cases done), fun readable => absurd readable faults⟩

theorem onBreakpoint_settles (sound : Sound lay k) (runs : Runs k c t) (closed : env.sstatus &&& Sstatus.sum = 0) :
    Settles lay k (HalfReadable lay (k.frames t.frame).sepc) (k.onBreakpoint cfg lay env t.frame) := by
  have off : decide (env.sstatus &&& Sstatus.sum ≠ 0) = false := by simp [closed]
  unfold onBreakpoint
  rw [off, ← and_true (HalfReadable lay _)]
  refine .bind_iff readHalf_ok_iff fun half done => ?_
  have readable := readHalf_ok_iff.mp ⟨half, done⟩
  -- a readable address lies in RAM, so the addition cannot wrap
  have inRam := lay.loadable_lt readable.1
  have width : (Trap.instructionWidth half).toNat ≤ 4 := by
    unfold Trap.instructionWidth
    split <;> decide
  have advances : AddSafe cfg (k.frames t.frame).sepc (Trap.instructionWidth half) := fun _ => by
    simp only [ramEnd] at inRam
    omega
  obtain ⟨sepc, sum⟩ := addUsize_ok_iff.mpr advances
  rw [sum, bind_ok]
  have stays : Stays lay k (k.setFrame t.frame { k.frames t.frame with sepc }) c t :=
    runs.setFrame sound (sound.status runs.task)
  exact .of_returns (.ok (stays.handled sound runs))

theorem Sound.fromUser (sound : Sound lay k) (runs : Runs k c t) : Trap.fromUser (k.frames t.frame) := by
  rw [Trap.fromUser, sound.status runs.task]
  decide

theorem trapHandler_settles (answers : platform.Answers) (sound : Sound lay k) (runs : Runs k c t)
    (kernelMode : env.sscratch = 0) (exception : env.scause &&& Scause.interrupt = 0)
    (closed : env.sstatus &&& Sstatus.sum = 0) (ids : ∀ e ∈ env.received, e.id.toNat < Net.rxBufs) :
    Settles lay k (TrapSafe cfg lay env k t) (k.trapHandler cfg lay platform env t.frame) := by
  have user := sound.fromUser runs
  unfold trapHandler TrapSafe
  rw [if_neg (not_not.mpr kernelMode), if_neg (not_not.mpr exception), if_pos user, if_pos user, ite_self]
  refine .branch (fun _ => fromEcall_settles answers sound runs closed ids) fun _ => ?_
  exact .branch (fun _ => onBreakpoint_settles sound runs closed) fun _ => killAndReschedule_settles answers sound runs

theorem trapHandler_timer (answers : platform.Answers) (sound : Sound lay k) (runs : Runs k c t)
    (kernelMode : env.sscratch = 0) (timer : env.scause &&& Scause.interrupt ≠ 0)
    (code : env.scause &&& ~~~Scause.interrupt = Scause.intSTimer) :
    Returns (k.trapHandler cfg lay platform env t.frame) (Handled lay k) := by
  have stays := runs.setTicks sound (k.ticks + 1)
  have switched := preempt_returns stays.sound stays.runs
  have current : ({ k with ticks := k.ticks + 1 } : Kernel).hasCurrent := by rw [hasCurrent, stays.runs.cur]; rfl
  unfold trapHandler onInterrupt
  rw [if_neg (not_not.mpr kernelMode), if_pos timer, if_pos code, if_pos (answers.setTimer _), bind_ok,
    if_pos current]
  exact switched.mono fun _ handled => stays.lift sound runs handled

theorem trapHandler_otherInterrupt {frame : Usize} (kernelMode : env.sscratch = 0)
    (interrupt : env.scause &&& Scause.interrupt ≠ 0)
    (code : env.scause &&& ~~~Scause.interrupt ≠ Scause.intSTimer) :
    k.trapHandler cfg lay platform env frame = .error .unknownTrap := by
  unfold trapHandler
  rw [if_neg (not_not.mpr kernelMode), if_pos interrupt, if_neg code]

end

end Kernel

namespace User

/-- The condition under which the kernel survives the trap and keeps it to the task. -/
def Safe (cfg : Config) (lay : Layout) (u : User) (tr : UserTrap) : Prop :=
  ∀ t ∈ u.kernel.cur.bind u.kernel.tasks, Kernel.TrapSafe cfg lay (u.env tr) (u.entered tr) t

instance (cfg : Config) (lay : Layout) (u : User) (tr : UserTrap) : Decidable (u.Safe cfg lay tr) :=
  inferInstanceAs (Decidable (∀ t ∈ u.kernel.cur.bind u.kernel.tasks, _))

section
variable {cfg : Config} {lay : Layout} {platform : Platform} {u v : User} {tr : UserTrap}

theorem boot_returns (cfg : Config) (lay : Layout) (e : Entries) {net : Net.Statics} (inv : Net.Inv net)
    (ticks : Usize) : Returns (boot cfg lay e net ticks) fun u => Kernel.InUser lay u.kernel u.frame := by
  have known : cfg.image.first < maxTasks := by cases cfg.image <;> decide
  refine (Kernel.init_returns cfg lay e inv ticks).bind fun k ⟨ids, built, all⟩ => ?_
  exact (built.enter all known).bind fun r inUser => .ok inUser

theorem status_eq (inUser : Kernel.InUser lay u.kernel u.frame) : u.status = fabricatedSstatus := by
  obtain ⟨sound, c, t, runs, frame⟩ := inUser
  rw [status, ← frame, sound.status runs.task]
  decide

theorem env_closed (inUser : Kernel.InUser lay u.kernel u.frame) (tr : UserTrap) :
    (u.env tr).sstatus &&& Sstatus.sum = 0 := by
  change u.status &&& Sstatus.sum = 0
  rw [status_eq inUser]
  decide

@[simp] theorem entered_x (u : User) (tr : UserTrap) : ((u.entered tr).frames u.frame).x = tr.x := by
  simp [entered, Kernel.setFrame]

@[simp] theorem entered_sepc (u : User) (tr : UserTrap) : ((u.entered tr).frames u.frame).sepc = tr.sepc := by
  simp [entered, Kernel.setFrame]

theorem entered_stays (inUser : Kernel.InUser lay u.kernel u.frame) (tr : UserTrap) :
    ∃ c t, Kernel.Runs u.kernel c t ∧ t.frame = u.frame ∧ Kernel.Stays lay u.kernel (u.entered tr) c t := by
  have status := status_eq inUser
  obtain ⟨sound, c, t, runs, frame⟩ := inUser
  have pushed : Kernel.Stays lay u.kernel (u.kernel.setFrame u.frame ⟨tr.x, tr.sepc, u.status⟩) c t :=
    runs.setFrame sound status
  exact ⟨c, t, runs, frame, pushed.trans (pushed.runs.setMem pushed.sound tr.mem)⟩

theorem exception_settles (cfg : Config) (answers : platform.Answers) (inUser : Kernel.InUser lay u.kernel u.frame)
    (exception : tr.scause &&& Scause.interrupt = 0) :
    Kernel.Settles lay u.kernel (u.Safe cfg lay tr) (u.trap cfg lay platform tr) := by
  obtain ⟨c, t, runs, frame, stays⟩ := entered_stays inUser tr
  have closed := env_closed inUser tr
  have safe : u.Safe cfg lay tr ↔ Kernel.TrapSafe cfg lay (u.env tr) (u.entered tr) t := by
    simp [Safe, runs.cur, runs.task]
  rw [safe, trap, ← frame]
  refine stays.lift_settles inUser.1 runs ?_
  exact Kernel.trapHandler_settles answers stays.sound stays.runs rfl exception closed tr.ids

/-- Whatever the trap was, a resumed frame means that it was contained. -/
theorem Step.handled (answers : platform.Answers) (inUser : Kernel.InUser lay u.kernel u.frame)
    (step : Step cfg lay platform u tr v) : Kernel.Handled lay u.kernel (v.kernel, .resume v.frame) := by
  by_cases exception : tr.scause &&& Scause.interrupt = 0
  · obtain ⟨returns, stops⟩ := exception_settles cfg answers inUser exception
    by_cases safe : u.Safe cfg lay tr
    · obtain ⟨r, done, handled⟩ := returns safe
      cases done.symm.trans step
      exact handled
    · cases (stops safe _ step).1
  · obtain ⟨c, t, runs, frame, stays⟩ := entered_stays inUser tr
    by_cases timer : tr.scause &&& ~~~Scause.interrupt = Scause.intSTimer
    · obtain ⟨r, done, handled⟩ :=
        @Kernel.trapHandler_timer cfg lay platform (u.env tr) _ _ _ answers stays.sound stays.runs rfl exception timer
      rw [frame] at done
      cases done.symm.trans step
      exact stays.lift inUser.1 runs handled
    · have stopped : u.trap cfg lay platform tr = .error .unknownTrap :=
        Kernel.trapHandler_otherInterrupt rfl exception timer
      cases stopped.symm.trans step

theorem Step.inUser (answers : platform.Answers) (inUser : Kernel.InUser lay u.kernel u.frame)
    (step : Step cfg lay platform u tr v) : Kernel.InUser lay v.kernel v.frame :=
  (step.handled answers inUser).2 v.frame rfl

/-- Every state a run from boot reaches is one the kernel can take a trap in. -/
theorem run_inUser (answers : platform.Answers) {mac : Mac} {ops : List Net.Op} {net : Net.Statics}
    (stack : Run (Net.Step cfg platform) (.boot mac) ops net) {e : Entries} {ticks : Usize}
    (booted : boot cfg lay e net ticks = .ok u) {trs : List UserTrap} (run : Run (Step cfg lay platform) u trs v) :
    Kernel.InUser lay v.kernel v.frame := by
  obtain ⟨w, done, start⟩ := boot_returns cfg lay e (.run stack (.boot mac)) ticks
  cases done.symm.trans booted
  exact run.invariant (fun _ _ _ inUser step => step.inUser answers inUser) start

/-- In every reachable state, an exception raised in U-mode is contained exactly
when: an `ecall` meets the condition of its call, a breakpoint lies where S-mode
may read with `SUM` off, and after any other fault a task is Ready or the machine
can be shut down. -/
theorem user_exception_contained_iff (answers : platform.Answers) {mac : Mac} {ops : List Net.Op}
    {net : Net.Statics} (stack : Run (Net.Step cfg platform) (.boot mac) ops net) {e : Entries} {ticks : Usize}
    (booted : boot cfg lay e net ticks = .ok u) {trs : List UserTrap} (run : Run (Step cfg lay platform) u trs v)
    (tr : UserTrap) (exception : tr.scause &&& Scause.interrupt = 0) :
    (∃ r, v.trap cfg lay platform tr = .ok r ∧ Kernel.Contained v.kernel r.1 r.2) ↔ v.Safe cfg lay tr := by
  obtain ⟨returns, stops⟩ := exception_settles cfg answers (run_inUser answers stack booted run) exception
  constructor
  · rintro ⟨r, done, contained⟩
    by_contra unsafe_
    obtain ⟨off, ready⟩ := stops unsafe_ r done
    rw [off] at contained
    cases contained with
    | shutdown idle others => simp [idle] at ready
  · intro safe
    obtain ⟨r, done, handled⟩ := returns safe
    exact ⟨r, done, handled.1⟩

end

def smallLayout : Layout where
  text := 1
  rodata := 1
  data := 1
  utext := 1
  urodata := 0
  udata := 1
  ubss := 0
  text_pos := Nat.one_pos
  rodata_pos := Nat.one_pos
  data_pos := Nat.one_pos
  fits := by decide

theorem ids_nil : ∀ e ∈ ([] : List Net.Completion), e.id.toNat < Net.rxBufs := by simp

def exceptionAt (scause sepc : Usize) (a0 a1 a7 : Usize) : UserTrap where
  x := Function.update (Function.update (Function.update (fun _ => 0) Asm.Reg.a0 a0) Asm.Reg.a1 a1) Asm.Reg.a7 a7
  sepc := sepc
  scause := scause
  stval := 0
  mem _ := 0
  now := 0
  received := []
  ids := ids_nil

/-- The `user-fault-selftest` image, in its task 2. -/
def faultImage : Config := ⟨true, false, .userFault⟩

def firstTask : User :=
  match boot faultImage smallLayout ⟨0, 0, 0, 0⟩ (.boot Net.guestMac) 0 with
  | .ok u => u
  | .error _ => ⟨Kernel.bare (.boot Net.guestMac) 0, 0⟩

theorem user_exception_contained_iff_loadFault :
    ∃ r, firstTask.trap faultImage smallLayout Net.qemu (exceptionAt Scause.excLoadPageFault 0 0 0 0) = .ok r ∧
      Kernel.Contained firstTask.kernel r.1 r.2 := by
  have stack : Run (Net.Step faultImage Net.qemu) (.boot Net.guestMac) [] (.boot Net.guestMac) := .nil
  have booted : boot faultImage smallLayout ⟨0, 0, 0, 0⟩ (.boot Net.guestMac) 0 = .ok firstTask := rfl
  have safe : firstTask.Safe faultImage smallLayout (exceptionAt Scause.excLoadPageFault 0 0 0 0) := by decide +kernel
  exact (user_exception_contained_iff ⟨rfl, fun _ => rfl, rfl⟩ stack booted .nil _ (by decide)).mpr safe

/-- A task that executes `ebreak` in `.utext`, and one that writes from address 0
while another task is Ready. -/
theorem ebreak_panics_kernel :
    (firstTask.trap faultImage smallLayout Net.qemu
      (exceptionAt Scause.excBreakpoint (addr smallLayout.utextStart) 0 0 0)).panic? = some .kernelFault ∧
    (firstTask.kernel.anyReady ∧
      (firstTask.trap faultImage smallLayout Net.qemu
        (exceptionAt Scause.excEcallU (addr smallLayout.utextStart) 0 1 Syscall.sysWrite)).toOption.map (·.2) =
          some .shutdown) := by
  decide +kernel

end User

end Whimbrel

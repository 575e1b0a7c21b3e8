import Whimbrel.Trap.Calls

/-! How a task ends.

A fault, `exit` and an unknown number go through `after_exit`, which runs the next
Ready task. A buffer that is refused does not: it stops the machine. -/

set_option autoImplicit false

namespace Whimbrel

open Checked Transition
open Trap (TrapFrame)

theorem Task.Inv.frame_ne {lay : Layout} {i j : Nat} {s t : Task} (first : s.Inv lay i) (second : t.Inv lay j)
    (hi : i < maxTasks) (hj : j < maxTasks) (apart : i ≠ j) : s.frame ≠ t.frame := by
  intro same
  rw [first.frame, second.frame, BitVec.sub_left_inj] at same
  have equal := congrArg BitVec.toNat same
  have topI := lay.kstackTop_lt hi
  have topJ := lay.kstackTop_lt hj
  simp only [ramL1Start] at topI topJ
  rw [addr, addr, BitVec.toNat_ofNat, BitVec.toNat_ofNat, Nat.mod_eq_of_lt (by omega), Nat.mod_eq_of_lt (by omega)]
    at equal
  simp only [Layout.slotAt, Slot.from, taskReserve] at equal
  omega

namespace Syscall

def numbers : List Usize := [sysWrite, sysExit, sysSbrk, sysGettime, sysYield, sysRecv, sysSend]

end Syscall

namespace Kernel

def Ends (lay : Layout) (env : Env) (k : Kernel) (t : Task) : Prop :=
  if env.scause = Scause.excEcallU then
    k.a7 t.frame = Syscall.sysExit ∨ k.a7 t.frame ∉ Syscall.numbers ∨ PtrRefused lay k t
  else env.scause &&& Scause.interrupt = 0 ∧ env.scause ≠ Scause.excBreakpoint

instance (lay : Layout) (env : Env) (k : Kernel) (t : Task) : Decidable (Ends lay env k t) :=
  inferInstanceAs (Decidable (if env.scause = Scause.excEcallU then _ else _))

/-- The first Ready slot after `c`, going round. -/
def NextReady (k : Kernel) (c n : Nat) : Prop :=
  ∃ d, 0 < d ∧ d ≤ maxTasks ∧ n = (c + d) % maxTasks ∧ k.ReadyAt n ∧
    ∀ d', 0 < d' → d' < d → ¬ k.ReadyAt ((c + d') % maxTasks)

/-- From `k` to `m` the task in slot `c` has exited and the next Ready task is
resumed at `frame`; no other task and no other frame has changed. -/
structure Killed (k m : Kernel) (c : Nat) (frame : Usize) : Prop where
  exited : ∃ t code, k.tasks c = some t ∧ m.tasks c = some { t with state := .exited, exitCode := code }
  next : ∃ n s, NextReady k c n ∧ k.tasks n = some s ∧ frame = s.frame ∧ m.cur = some n ∧
    m.tasks n = some { s with state := .running } ∧ ∀ i, i ≠ c → i ≠ n → m.tasks i = k.tasks i
  frames : ∀ {i s}, i < maxTasks → i ≠ c → k.tasks i = some s → m.frames s.frame = k.frames s.frame

section
variable {cfg : Config} {lay : Layout} {platform : Platform} {env : Env} {k m : Kernel} {c : Nat} {t : Task}

theorem fromEcall_exit {frame : Usize} (closed : env.sstatus &&& Sstatus.sum = 0)
    (num : k.a7 frame = Syscall.sysExit) :
    k.fromEcall cfg lay platform env frame = k.sysExit cfg platform frame := by
  unfold fromEcall
  rw [if_neg (not_not.mpr closed)]
  dsimp only
  rw [num, if_neg (by decide), if_pos rfl]

theorem fromEcall_unknown {frame : Usize} (closed : env.sstatus &&& Sstatus.sum = 0)
    (num : k.a7 frame ∉ Syscall.numbers) :
    k.fromEcall cfg lay platform env frame = k.killAndReschedule cfg platform := by
  simp only [Syscall.numbers, List.mem_cons, List.not_mem_nil, or_false, not_or] at num
  obtain ⟨write, exit, sbrk, gettime, yield, recv, send⟩ := num
  unfold fromEcall
  rw [if_neg (not_not.mpr closed)]
  dsimp only
  rw [if_neg write, if_neg exit, if_neg sbrk, if_neg gettime, if_neg yield, if_neg recv, if_neg send]
  rfl

/-- Every way out but a refused buffer is `after_exit`. -/
theorem trapHandler_ends (runs : Runs k c t) (sound : Sound lay k) (kernelMode : env.sscratch = 0)
    (closed : env.sstatus &&& Sstatus.sum = 0) (ends : Ends lay env k t)
    (accepted : ¬ (env.scause = Scause.excEcallU ∧ PtrRefused lay k t)) :
    ∃ code, k.trapHandler cfg lay platform env t.frame =
      (k.ended c { t with exitCode := code }).afterExit cfg platform t.id := by
  have killed : k.killAndReschedule cfg platform =
      (k.ended c { t with exitCode := t.exitCode }).afterExit cfg platform t.id := runs.killAndReschedule_eq
  unfold Ends at ends
  split at ends
  · rename_i ecall
    rw [trapHandler_ecall kernelMode ecall]
    rcases ends with exit | unknown | refused
    · exact ⟨k.a0 t.frame, by rw [fromEcall_exit closed exit, runs.sysExit_eq]⟩
    · exact ⟨t.exitCode, by rw [fromEcall_unknown closed unknown, killed]⟩
    · exact absurd ⟨ecall, refused⟩ accepted
  · rename_i other
    obtain ⟨exception, step⟩ := ends
    have user := sound.fromUser runs
    have notEcall : env.scause &&& ~~~Scause.interrupt ≠ Scause.excEcallU := fun is => other (scause_eq exception is)
    have notBreak : env.scause &&& ~~~Scause.interrupt ≠ Scause.excBreakpoint := fun is => step (scause_eq exception is)
    refine ⟨t.exitCode, ?_⟩
    unfold trapHandler
    rw [if_neg (not_not.mpr kernelMode), if_neg (not_not.mpr exception), if_neg notEcall, if_neg notBreak, if_pos user,
      if_pos user, ite_self, killed]

theorem firstReady_first {id n : Nat} {steps : List Nat} (sorted : steps.Pairwise (· < ·))
    (found : m.firstReady id steps = .ok (some n)) :
    ∃ d ∈ steps, n = (id + d) % maxTasks ∧ m.ReadyAt n ∧ ∀ d' ∈ steps, d' < d → ¬ m.ReadyAt ((id + d') % maxTasks) := by
  induction steps with
  | nil => cases found
  | cons step steps ih =>
    obtain ⟨above, sorted⟩ := List.pairwise_cons.mp sorted
    obtain ⟨s, got, found⟩ := bind_eq_ok found
    have task := get_eq_ok got
    by_cases ready : s.state = .ready
    · rw [if_pos ready] at found
      cases found
      refine ⟨step, List.mem_cons_self, rfl, ⟨s, task, ready⟩, fun d' mem less => ?_⟩
      rcases List.mem_cons.mp mem with rfl | later
      · exact absurd less (Nat.lt_irrefl _)
      · exact absurd less (Nat.lt_asymm (above d' later))
    · rw [if_neg ready] at found
      obtain ⟨d, mem, is, found, first⟩ := ih sorted found
      refine ⟨d, List.mem_cons_of_mem _ mem, is, found, fun d' mem' less => ?_⟩
      rcases List.mem_cons.mp mem' with rfl | later
      · rintro ⟨s', task', ready'⟩
        rw [task, Option.some.injEq] at task'
        exact ready (task' ▸ ready')
      · exact first d' later less

theorem nextReadyAfter_first {id n : Nat} (found : m.nextReadyAfter id = .ok (some n)) : NextReady m id n := by
  obtain ⟨d, mem, is, ready, first⟩ := firstReady_first (by decide) found
  have range {d : Nat} : d ∈ [1, 2, 3, 4] ↔ 0 < d ∧ d ≤ maxTasks := by
    simp only [List.mem_cons, List.not_mem_nil, or_false, maxTasks]
    omega
  obtain ⟨pos, le⟩ := range.mp mem
  exact ⟨d, pos, le, is, ready, fun d' pos' less => first d' (range.mpr ⟨pos', by omega⟩) less⟩

theorem afterExit_ready (sound : Sound lay k) (runs : Runs k c t) (ready : k.anyReady) (code : Usize) :
    ∃ n s, NextReady k c n ∧ n ≠ c ∧ k.tasks n = some s ∧
      (k.ended c { t with exitCode := code }).afterExit cfg platform t.id =
        .ok ((k.ended c { t with exitCode := code }).started n s, .resume s.frame) := by
  have inv : Task.Inv lay c { t with exitCode := code } := { sound.task runs.task with }
  obtain ⟨parked, gone, -⟩ := runs.ended sound inv rfl
  have same := parked.readyAt_iff runs gone
  obtain ⟨found, search, which⟩ := nextReadyAfter_returns parked.sound c
  cases found with
  | none =>
    rw [parked.anyReady_eq runs gone, ready] at which
    cases which
  | some n =>
    obtain ⟨d, pos, le, is, readyN, first⟩ := nextReadyAfter_first search
    have next : NextReady k c n := ⟨d, pos, le, is, (same n).mp readyN, fun d' pos' less isReady =>
      first d' pos' less ((same _).mpr isReady)⟩
    have away : n ≠ c := fun here => runs.not_readyAt (here ▸ (same n).mp readyN)
    obtain ⟨known, s, task, -⟩ := which
    refine ⟨n, s, next, away, by rw [← parked.others away, task], ?_⟩
    rw [afterExit, (congrArg _ inv.id_eq).trans search, bind_ok]
    exact run_eq known task

end

end Kernel

namespace User

def Ends (lay : Layout) (u : User) (tr : UserTrap) : Prop :=
  ∀ t ∈ u.kernel.cur.bind u.kernel.tasks, Kernel.Ends lay (u.env tr) (u.entered tr) t

instance (lay : Layout) (u : User) (tr : UserTrap) : Decidable (u.Ends lay tr) :=
  inferInstanceAs (Decidable (∀ t ∈ u.kernel.cur.bind u.kernel.tasks, _))

/-- The trap is a `write`, `recv` or `send` with a buffer that fails the pointer check. -/
def PtrRefused (lay : Layout) (u : User) (tr : UserTrap) : Prop :=
  ∃ t ∈ u.kernel.cur.bind u.kernel.tasks, tr.scause = Scause.excEcallU ∧ Kernel.PtrRefused lay (u.entered tr) t

instance (lay : Layout) (u : User) (tr : UserTrap) : Decidable (u.PtrRefused lay tr) :=
  inferInstanceAs (Decidable (∃ t ∈ u.kernel.cur.bind u.kernel.tasks, _))

section
variable {cfg : Config} {lay : Layout} {platform : Platform} {u v : User} {tr : UserTrap}

theorem ends_killed (inUser : Kernel.InUser lay u.kernel u.frame) (ready : u.kernel.anyReady) {c : Nat}
    (cur : u.kernel.cur = some c) (ends : u.Ends lay tr) (accepted : ¬ u.PtrRefused lay tr) :
    ∃ m frame, u.trap cfg lay platform tr = .ok (m, .resume frame) ∧ Kernel.Killed u.kernel m c frame := by
  obtain ⟨c', t, runs, same, stays⟩ := entered_stays inUser tr
  cases cur.symm.trans runs.cur
  have task : t ∈ u.kernel.cur.bind u.kernel.tasks := by simp [runs.cur, runs.task]
  obtain ⟨code, down⟩ := @Kernel.trapHandler_ends cfg lay platform (u.env tr) _ c t stays.runs stays.sound rfl
    (env_closed inUser tr) (ends t task) fun refused => accepted ⟨t, task, refused⟩
  obtain ⟨n, s, next, away, taskN, runs'⟩ := @Kernel.afterExit_ready cfg lay platform _ c t stays.sound stays.runs
    (by rw [stays.anyReady_eq runs]; exact ready) code
  rw [trap, ← same, down, runs']
  refine ⟨_, _, rfl, ⟨t, code, runs.task, ?_⟩, ⟨n, s, next, taskN, rfl, rfl, ?_, fun i notC notN => ?_⟩, ?_⟩
  · exact (Function.update_of_ne away.symm ..).trans (Kernel.ended_self ..)
  · exact Function.update_self ..
  · exact (Function.update_of_ne notN ..).trans (Kernel.ended_of_ne _ _ notC)
  · intro i s known other has
    have apart := (inUser.1.task has).frame_ne (inUser.1.task runs.task) known runs.known other
    rw [same] at apart
    exact Function.update_of_ne apart ..

/-- An Exited task stays as it is and is not resumed. -/
theorem Step.exited (answers : platform.Answers) (inUser : Kernel.InUser lay u.kernel u.frame)
    (step : Step cfg lay platform u tr v) {i : Nat} {s : Task} (task : u.kernel.tasks i = some s)
    (exited : s.state = .exited) : v.kernel.tasks i = some s := by
  have contained := (step.handled answers inUser).1
  obtain ⟨sound, c, t, runs, frame⟩ := inUser
  have other : u.kernel.cur ≠ some i := by
    intro cur
    rw [runs.cur, Option.some.injEq] at cur
    subst cur
    cases runs.task.symm.trans task
    rw [runs.running] at exited
    cases exited
  rcases contained.spared other with same | ⟨s', task', ready, -⟩
  · exact same.trans task
  · rw [task, Option.some.injEq] at task'
    rw [← task', exited] at ready
    cases ready

theorem run_exited (answers : platform.Answers) (inUser : Kernel.InUser lay u.kernel u.frame) {trs : List UserTrap}
    (run : Run (Step cfg lay platform) u trs v) {i : Nat} {s : Task} (task : u.kernel.tasks i = some s)
    (exited : s.state = .exited) : Kernel.InUser lay v.kernel v.frame ∧ v.kernel.tasks i = some s :=
  @Run.invariant _ _ _ (fun v => Kernel.InUser lay v.kernel v.frame ∧ v.kernel.tasks i = some s)
    (fun _ _ _ held step => ⟨step.inUser answers held.1, step.exited answers held.1 held.2 exited⟩) _ _ _ run
    ⟨inUser, task⟩

/-- For every task table: while another task is Ready, a trap that ends the running
task marks it Exited, leaves every other task and frame alone and resumes the next
Ready task, exactly if it is not a refused buffer; the machine goes down over no
Ready task otherwise; and an Exited task is never resumed in any run. -/
theorem ended_task_goes_alone_iff (answers : platform.Answers) (inUser : Kernel.InUser lay u.kernel u.frame) :
    (∀ tr c, u.kernel.anyReady → u.kernel.cur = some c → u.Ends lay tr →
      ((∃ m frame, u.trap cfg lay platform tr = .ok (m, .resume frame) ∧ Kernel.Killed u.kernel m c frame) ↔
        ¬ u.PtrRefused lay tr)) ∧
    (∀ tr m, u.trap cfg lay platform tr = .ok (m, .shutdown) → ¬ u.PtrRefused lay tr → u.kernel.anyReady = false) ∧
    (∀ i s trs v, i < maxTasks → u.kernel.tasks i = some s → s.state = .exited → Run (Step cfg lay platform) u trs v →
      v.kernel.tasks i = some s ∧ v.kernel.cur ≠ some i ∧ v.frame ≠ s.frame) := by
  refine ⟨fun tr c ready cur ends => ⟨?_, ends_killed inUser ready cur ends⟩, fun tr m done accepted => ?_, ?_⟩
  · rintro ⟨m, frame, done, -⟩ ⟨t, task, ecall, refused⟩
    obtain ⟨c', t', runs, same, stays⟩ := entered_stays inUser tr
    rw [runs.cur, Option.bind_some, runs.task, Option.mem_some] at task
    subst task
    -- A refused buffer takes the machine down whoever else is Ready.
    have off := @Kernel.fromEcall_refused cfg lay platform (u.env tr) _ c' t' answers stays.sound stays.runs
      (env_closed inUser tr) refused
    rw [trap, Kernel.trapHandler_ecall rfl ecall, ← same, off] at done
    cases done
  · obtain ⟨c, t, runs, -, stays, effect⟩ := trap_effect inUser done
    rcases effect.shutdown stays.sound stays.runs rfl with refused | idle
    · exact absurd ⟨t, by simp [runs.cur, runs.task], refused⟩ accepted
    · rw [← stays.anyReady_eq runs, idle]
  · intro i s trs v known task exited run
    obtain ⟨⟨sound, c, t, runs, same⟩, task'⟩ := run_exited answers inUser run task exited
    have other : i ≠ c := by
      rintro rfl
      cases runs.task.symm.trans task'
      rw [runs.running] at exited
      cases exited
    refine ⟨task', fun cur => ?_, fun equal => ?_⟩
    · exact other (Option.some.inj (cur.symm.trans runs.cur))
    · exact (sound.task task').frame_ne (sound.task runs.task) known runs.known other (equal.symm.trans same.symm)

end

theorem ended_task_goes_alone_iff_fault :
    ∃ m frame, firstTask.trap faultImage smallLayout Net.qemu (exceptionAt Scause.excLoadPageFault 0 0 0 0) =
      .ok (m, .resume frame) ∧ Kernel.Killed firstTask.kernel m 2 frame := by
  have booted : boot faultImage smallLayout ⟨0, 0, 0, 0⟩ (.boot Net.guestMac) 0 = .ok firstTask := rfl
  obtain ⟨u, done, inUser⟩ := boot_returns faultImage smallLayout ⟨0, 0, 0, 0⟩ (.boot Net.guestMac) 0
  cases booted.symm.trans done
  have answers : Net.qemu.Answers := ⟨rfl, fun _ => rfl, rfl⟩
  have ends : firstTask.Ends smallLayout (exceptionAt Scause.excLoadPageFault 0 0 0 0) := by decide +kernel
  have accepted : ¬ firstTask.PtrRefused smallLayout (exceptionAt Scause.excLoadPageFault 0 0 0 0) := by decide +kernel
  exact ((ended_task_goes_alone_iff answers inUser).1 _ 2 (by decide +kernel) rfl ends).mpr accepted

def callWith (num ptr len : Usize) : UserTrap :=
  exceptionAt Scause.excEcallU (addr smallLayout.utextStart) ptr len num

def StopsAll (tr : UserTrap) : Prop :=
  firstTask.Ends smallLayout tr ∧
    (firstTask.trap faultImage smallLayout Net.qemu tr).toOption.map (fun r => (r.2, (r.1.tasks 1).map (·.state))) =
      some (.shutdown, some .ready)

instance (tr : UserTrap) : Decidable (StopsAll tr) := inferInstanceAs (Decidable (_ ∧ _))

/-- Task 2 names a buffer outside every user interval, or one that runs past its
stack, and task 1 is Ready. -/
theorem refused_buffer_stops_ready_task :
    firstTask.kernel.anyReady ∧
      (StopsAll (callWith Syscall.sysWrite 0 1) ∧ StopsAll (callWith Syscall.sysRecv 0 1) ∧
        StopsAll (callWith Syscall.sysSend 0 1)) ∧
      StopsAll (callWith Syscall.sysWrite (addr ((smallLayout.slotAt 2).ustackTop - 1)) 2) := by
  refine ⟨by decide +kernel, ⟨?_, ?_, ?_⟩, ?_⟩ <;> decide +kernel

end User

end Whimbrel

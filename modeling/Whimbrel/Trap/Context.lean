import Whimbrel.Trap.Ends
import Whimbrel.Trap.Panics

/-! The contexts of the tasks across any schedule.

A trap writes one frame, the running task's own. A task that has not ended finds
its frame as its last trap left it, whoever has run in between. -/

set_option autoImplicit false

namespace Whimbrel

open Checked Transition
open Trap (TrapFrame)

namespace Kernel

section
variable {cfg : Config} {lay : Layout} {platform : Platform} {env : Env} {k m : Kernel} {c : Nat} {t : Task}
variable {r : Kernel × Outcome}

theorem Effect.context (effect : Effect cfg lay platform env k c t r) (sound : Sound lay k) (runs : Runs k c t)
    {frame : Usize} (resumes : r.2 = .resume frame) :
    (∃ f, Saves env (k.frames t.frame) f ∧ r.1.frames = Function.update k.frames t.frame f) ∨
      (r.1.frames = k.frames ∧ ∃ s, r.1.tasks c = some s ∧ s.state = .exited) := by
  cases effect with
  | resumed _ frames saves => exact .inl ⟨_, saves, frames⟩
  | switched _ frames saves => exact .inl ⟨_, saves, frames⟩
  | @ended code n next found task =>
    have inv : Task.Inv lay c { t with exitCode := code } := { sound.task runs.task with }
    obtain ⟨-, gone, -⟩ := runs.ended sound inv rfl
    obtain ⟨-, -, -, -, ready, -⟩ := nextReadyAfter_first found
    have away : c ≠ n := fun here => gone (here ▸ ready)
    exact .inr ⟨rfl, _, (Function.update_of_ne away ..).trans (ended_self ..), rfl⟩
  | finished | stopped => cases resumes

end

end Kernel

namespace User

def pushed (u : User) (tr : UserTrap) : TrapFrame := ⟨tr.x, tr.sepc, u.status⟩

section
variable {cfg : Config} {lay : Layout} {platform : Platform} {u v w x : User} {tr : UserTrap} {c : Nat}

/-- One trap: only the running task's frame changes, and it is saved unless the task ends. -/
theorem Step.context (inUser : Kernel.InUser lay u.kernel u.frame) (step : Step cfg lay platform u tr v)
    (cur : u.kernel.cur = some c) :
    (∀ a, a ≠ u.frame → v.kernel.frames a = u.kernel.frames a) ∧
      ((∃ f, Saves (u.env tr) (u.pushed tr) f ∧ v.kernel.frames u.frame = f) ∨
        ∃ s, v.kernel.tasks c = some s ∧ s.state = .exited) := by
  obtain ⟨c', t, runs, frame, stays, effect⟩ := trap_effect inUser step
  cases cur.symm.trans runs.cur
  have entry : (u.entered tr).frames = Function.update u.kernel.frames u.frame (u.pushed tr) := rfl
  have away {a : Usize} (apart : a ≠ u.frame) (f : TrapFrame) :
      Function.update (u.entered tr).frames u.frame f a = u.kernel.frames a := by
    rw [entry, Function.update_of_ne apart, Function.update_of_ne apart]
  have own : (u.entered tr).frames u.frame = u.pushed tr := by rw [entry, Function.update_self]
  have written := effect.context stays.sound stays.runs rfl
  rw [frame, own] at written
  dsimp only at written
  rcases written with ⟨f, saves, frames⟩ | ⟨frames, gone⟩
  · rw [frames]
    exact ⟨fun a apart => away apart f, .inl ⟨f, saves, Function.update_self ..⟩⟩
  · rw [frames, entry]
    exact ⟨fun a apart => Function.update_of_ne apart .., .inr gone⟩

theorem run_frame (answers : platform.Answers) (inUser : Kernel.InUser lay u.kernel u.frame) (known : c < maxTasks)
    {trs : List UserTrap} (run : Run (StepWhen cfg lay platform fun u _ => u.kernel.cur ≠ some c) u trs v) {t : Task}
    (inv : t.Inv lay c) :
    Kernel.InUser lay v.kernel v.frame ∧ v.kernel.frames t.frame = u.kernel.frames t.frame := by
  refine @Run.invariant _ _ _
    (fun v => Kernel.InUser lay v.kernel v.frame ∧ v.kernel.frames t.frame = u.kernel.frames t.frame)
    (fun a tr b held step => ⟨step.1.inUser answers held.1, ?_⟩) _ _ _ run ⟨inUser, rfl⟩
  obtain ⟨sound, c', t', runs, frame⟩ := held.1
  have apart := inv.frame_ne (sound.task runs.task) known runs.known fun same => step.2 (same ▸ runs.cur)
  rw [frame] at apart
  exact ((step.1.context held.1 runs.cur).1 _ apart).trans held.2

/-- The frame in which a task goes on after the trap `tr` pushed `f`: a returning
system call has put its result in a0 and a1 and gone past the `ecall`. -/
def Continues (tr : UserTrap) (f g : TrapFrame) : Prop :=
  if tr.scause = Scause.excEcallU then ∃ error value, g = f.answered error value else g = f

theorem continues_of_saves {env : Env} {f g : TrapFrame} (saves : Saves env f g) (cause : env.scause = tr.scause)
    (listed : tr.scause ≠ Scause.excBreakpoint) : Continues tr f g := by
  rw [← cause] at listed
  rw [Continues, ← cause]
  cases saves with
  | tick interrupt =>
    rw [if_neg]
    rintro ecall
    rw [ecall] at interrupt
    exact interrupt (by decide)
  | answer ecall error value =>
    rw [if_pos ecall]
    exact ⟨error, value, rfl⟩
  | step breakpoint => exact absurd breakpoint listed

end

def tick (x : Asm.Reg → Usize) : UserTrap :=
  { exceptionAt (Scause.interrupt ||| Scause.intSTimer) (addr smallLayout.utextStart + 6) 0 0 0 with x }

def next (u : User) (tr : UserTrap) : User :=
  match u.trap faultImage smallLayout Net.qemu tr with
  | .ok (k, .resume frame) => ⟨k, frame⟩
  | _ => u

theorem next_step {u : User} {tr : UserTrap} {frame : Usize}
    (resumes : (u.trap faultImage smallLayout Net.qemu tr).toOption.map (·.2) = some (.resume frame)) :
    Step faultImage smallLayout Net.qemu u tr (u.next tr) := by
  rw [Step, next]
  rcases done : u.trap faultImage smallLayout Net.qemu tr with e | ⟨k, o⟩
  · rw [done] at resumes
    cases resumes
  · rw [done] at resumes
    cases resumes
    rfl

end User

end Whimbrel

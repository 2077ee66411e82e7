import Vmm386.Tasks.SchedRuns

/-!
# Suspending and waking, seen from a task

What `suspend_task` and `wake_task` do to the flags of a task, which is all that code that
waits for a wake-up depends on.
-/

namespace Vmm386.Tasks

namespace Flags

/-- `suspend_task`. -/
def suspend (flags : Flags) : Flags := { flags with running := false }

/-- `wake_task`. -/
def wake (flags : Flags) : Flags :=
  if ¬flags.running ∧ ¬flags.frozen ∧ ¬flags.zombie then { flags with running := true } else flags

/-- The flags of a task that is on the run queue and not about to be stopped. -/
def runnable : Flags := { running := true, frozen := false, zombie := false, immortal := false }

@[simp] theorem suspend_running (flags : Flags) : flags.suspend.running = false := rfl

theorem wake_of_running {flags : Flags} (h : flags.running = true) : flags.wake = flags := by
  rw [wake, if_neg fun hn => hn.1 h]

theorem wake_running {flags : Flags} (hf : flags.frozen = false) (hz : flags.zombie = false) :
    flags.wake.running = true := by
  rw [wake, hf, hz]
  split
  · rfl
  · rename_i h
    by_contra hr
    exact h ⟨hr, nofun, nofun⟩

@[simp] theorem suspend_frozen (flags : Flags) : flags.suspend.frozen = flags.frozen := rfl

@[simp] theorem suspend_zombie (flags : Flags) : flags.suspend.zombie = flags.zombie := rfl

@[simp] theorem wake_frozen (flags : Flags) : flags.wake.frozen = flags.frozen := by
  rw [wake]
  split <;> rfl

@[simp] theorem wake_zombie (flags : Flags) : flags.wake.zombie = flags.zombie := by
  rw [wake]
  split <;> rfl

end Flags

/-! ## The scheduler does this to the flags -/

namespace Sched

variable {s : Sched} {L : TaskQueue → List TaskId} {t u : TaskId}

theorem suspendTask_flags : ((s.suspendTask t).task u).flags =
    if u = t then (s.task u).flags.suspend else (s.task u).flags := by
  rw [suspendTask]
  split
  · by_cases hu : u = t
    · subst hu
      rw [if_pos rfl]
      exact congrArg Task.flags
        (setTask_self (s := (s.removeNode u).appendNode .suspended u) _)
    · rw [if_neg hu]
      exact congrArg Task.flags
        (setTask_of_ne (s := (s.removeNode t).appendNode .suspended t) hu)
  · rename_i hrun
    rw [Bool.not_eq_true] at hrun
    split
    · rename_i hu
      rw [hu, Flags.suspend, ← hrun]
    · rfl

theorem wakeTask_flags (h : s.Inv L) (ht : (s.task t).pid ≠ 0) :
    ((s.wakeTask t).task u).flags =
      if u = t then (s.task u).flags.wake else (s.task u).flags := by
  by_cases hwake : ¬(s.task t).flags.running ∧ ¬(s.task t).flags.frozen ∧
      ¬(s.task t).flags.zombie
  · simp only [wakeTask, if_pos hwake]
    obtain ⟨L', -, hself, hother, -⟩ := wakeSection_spec h ⟨ht, hwake.2.2⟩
    split
    · rename_i hu
      rw [hu, hself, Flags.wake, if_pos hwake]
    · rename_i hu
      exact hother u hu
  · simp only [wakeTask, if_neg hwake]
    split
    · rename_i hu
      rw [hu, Flags.wake, if_neg hwake]
    · rfl

end Sched

end Vmm386.Tasks

import Mathlib.Data.Nat.Notation
import Mathlib.Data.Option.Basic
import Mathlib.Logic.Function.Basic

/-! # Timed task schedulers

A scheduler owns tasks that run a function after a delay, a number of times. Its clients hold weak
pointers to tasks. `TaskScheduler F` lists the operations on tasks with functions `F` and what each
does to the tasks that are enabled; how the tasks are stored, in which order due tasks are run and
when exactly a repeated task is due again is left open. `TaskScheduler.table` is one scheduler. -/

namespace SctpSandbox

/-- Points in time and durations, in nanoseconds. -/
abbrev Time := ℕ

/-- `n` seconds. -/
def seconds (n : ℕ) : Time := n * 1000000000

/-- An enabled task. -/
structure ScheduledTask (F : Type) where
  /-- The function it runs. -/
  function : F
  /-- The delay before each run. -/
  delay : Time
  /-- The repetitions it was scheduled with. -/
  repetitions : ℕ
  /-- The repetitions still to run. -/
  left : ℕ
  /-- When it runs next. -/
  due : Time
  deriving DecidableEq

namespace ScheduledTask

variable {F : Type}

/-- A task as scheduled at `now`. -/
def start (now : Time) (f : F) (delay : Time) (repetitions : ℕ) : ScheduledTask F :=
  ⟨f, delay, repetitions, repetitions, now + delay⟩

/-- A task whose delay and repetitions start again at `now`. -/
def restart (now : Time) (t : ScheduledTask F) : ScheduledTask F :=
  { t with left := t.repetitions, due := now + t.delay }

/-- What a launch makes of one pointer: the task enabled there is run if it is due, and else things
stay as they are. -/
theorem launch_cases {α : Type*} {enabled : Option (ScheduledTask F)} {now : Time}
    {run : ScheduledTask F → α} {idle result : α}
    (hsome : ∀ t, enabled = some t → result = if t.due ≤ now then run t else idle)
    (hnone : enabled = none → result = idle) :
    (∃ t, enabled = some t ∧ t.due ≤ now ∧ result = run t) ∨
      (∀ t, enabled = some t → ¬ t.due ≤ now) ∧ result = idle := by
  cases enabled with
  | none => exact .inr ⟨fun t ht => absurd ht.symm (Option.some_ne_none t), hnone rfl⟩
  | some t =>
      by_cases hdue : t.due ≤ now
      · exact .inl ⟨t, rfl, hdue, (hsome t rfl).trans (if_pos hdue)⟩
      · refine .inr ⟨fun t' ht' => ?_, (hsome t rfl).trans (if_neg hdue)⟩
        rwa [← Option.some.inj ht']

end ScheduledTask

/-- A scheduler of tasks with functions `F`, through weak pointers to its tasks. -/
structure TaskScheduler (F : Type) where
  /-- The states of the scheduler. -/
  State : Type
  /-- Weak pointers to tasks. -/
  Ptr : Type
  /-- The scheduler without tasks. -/
  init : State
  /-- The enabled task behind a pointer. -/
  enabled : State → Ptr → Option (ScheduledTask F)
  /-- `lock()` on the pointer is not null. -/
  alive : State → Ptr → Bool
  /-- The pointer was handed out before. -/
  issued : State → Ptr → Prop
  /-- Schedule a function with a delay and repetitions, at a time. -/
  schedule : State → Time → F → Time → ℕ → State × Ptr
  /-- Restart the delay and the repetitions of a task, at a time. -/
  reset : State → Time → Ptr → State
  /-- Stop a task. -/
  disable : State → Ptr → State
  /-- Account for one run of a task, at a time. -/
  complete : State → Time → Ptr → State
  enabled_init : ∀ p, enabled init p = none
  /-- A task stays alive as long as it is enabled. -/
  alive_of_enabled : ∀ s p t, enabled s p = some t → alive s p = true
  issued_of_enabled : ∀ s p t, enabled s p = some t → issued s p
  /-- A new task is enabled, under a pointer not handed out before. -/
  schedule_fresh : ∀ s now f d n, ¬ issued s (schedule s now f d n).2
  enabled_schedule : ∀ s now f d n, enabled (schedule s now f d n).1 (schedule s now f d n).2 =
    some (.start now f d n)
  enabled_schedule_ne : ∀ s now f d n q, q ≠ (schedule s now f d n).2 →
    enabled (schedule s now f d n).1 q = enabled s q
  alive_schedule_ne : ∀ s now f d n q, q ≠ (schedule s now f d n).2 →
    alive (schedule s now f d n).1 q = alive s q
  issued_schedule : ∀ s now f d n q, issued (schedule s now f d n).1 q ↔
    q = (schedule s now f d n).2 ∨ issued s q
  /-- `reset` restarts an enabled task and touches no other. -/
  enabled_reset : ∀ s now p t, enabled s p = some t →
    enabled (reset s now p) p = some (t.restart now)
  enabled_reset_ne : ∀ s now p q, q ≠ p → enabled (reset s now p) q = enabled s q
  alive_reset_ne : ∀ s now p q, q ≠ p → alive (reset s now p) q = alive s q
  issued_reset : ∀ s now p q, issued (reset s now p) q ↔ issued s q
  /-- `disable` stops a task and touches no other. -/
  enabled_disable : ∀ s p, enabled (disable s p) p = none
  enabled_disable_ne : ∀ s p q, q ≠ p → enabled (disable s p) q = enabled s q
  alive_disable_ne : ∀ s p q, q ≠ p → alive (disable s p) q = alive s q
  issued_disable : ∀ s p q, issued (disable s p) q ↔ issued s q
  /-- A task that has run all its repetitions is gone. -/
  enabled_complete_last : ∀ s now p t, enabled s p = some t → t.left ≤ 1 →
    enabled (complete s now p) p = none ∧ alive (complete s now p) p = false
  /-- A task with repetitions left waits for another delay, counted from the time it was due at the
  earliest and from the time of the run at the latest. -/
  enabled_complete : ∀ s now p t, enabled s p = some t → 1 < t.left → t.due ≤ now →
    ∃ due, t.due + t.delay ≤ due ∧ due ≤ now + t.delay ∧
      enabled (complete s now p) p = some { t with left := t.left - 1, due := due }
  enabled_complete_none : ∀ s now p, enabled s p = none → enabled (complete s now p) p = none
  enabled_complete_ne : ∀ s now p q, q ≠ p → enabled (complete s now p) q = enabled s q
  alive_complete_ne : ∀ s now p q, q ≠ p → alive (complete s now p) q = alive s q
  issued_complete : ∀ s now p q, issued (complete s now p) q ↔ issued s q

/-! ## A scheduler that numbers its tasks -/

/-- The enabled tasks under their numbers; numbers from `next` on are unused. -/
structure TaskTable (F : Type) where
  next : ℕ
  tasks : ℕ → Option (ScheduledTask F)
  unused : ∀ p, next ≤ p → tasks p = none

namespace TaskTable

variable {F : Type}

/-- No task yet. -/
def empty : TaskTable F := ⟨0, fun _ => none, fun _ _ => rfl⟩

/-- Put a task under the next number. -/
def add (s : TaskTable F) (t : ScheduledTask F) : TaskTable F where
  next := s.next + 1
  tasks := Function.update s.tasks s.next (some t)
  unused := fun p hp => by
    rw [Function.update_of_ne (Nat.ne_of_gt hp)]
    exact s.unused p (Nat.le_of_succ_le hp)

/-- Replace the task under a number by `f` of it, which may drop it. -/
def modify (s : TaskTable F) (p : ℕ) (f : ScheduledTask F → Option (ScheduledTask F)) :
    TaskTable F where
  next := s.next
  tasks := Function.update s.tasks p ((s.tasks p).bind f)
  unused := fun q hq => by
    -- an unused number stays unused, also when it is the one modified
    by_cases hqp : q = p
    · subst hqp
      rw [Function.update_self, s.unused q hq, Option.bind_none]
    · rw [Function.update_of_ne hqp, s.unused q hq]

/-- The task at the modified place. -/
@[simp] theorem tasks_modify_self (s : TaskTable F) (p : ℕ)
    (f : ScheduledTask F → Option (ScheduledTask F)) :
    (s.modify p f).tasks p = (s.tasks p).bind f := Function.update_self _ _ _

/-- The tasks at the other places are left alone. -/
@[simp] theorem tasks_modify_ne (s : TaskTable F) {p q : ℕ} (h : q ≠ p)
    (f : ScheduledTask F → Option (ScheduledTask F)) : (s.modify p f).tasks q = s.tasks q :=
  Function.update_of_ne h _ _

/-- One run at `now`: the last one drops the task, any other makes it wait for its delay again. -/
def ran (now : Time) (t : ScheduledTask F) : Option (ScheduledTask F) :=
  if t.left ≤ 1 then none
  else some { t with left := t.left - 1, due := now + t.delay }

end TaskTable

/-- The scheduler on a table of tasks; a pointer is alive while its task is in the table. -/
def TaskScheduler.table (F : Type) : TaskScheduler F where
  State := TaskTable F
  Ptr := ℕ
  init := .empty
  enabled := TaskTable.tasks
  alive := fun s p => (s.tasks p).isSome
  issued := fun s p => p < s.next
  schedule := fun s now f d n => (s.add (.start now f d n), s.next)
  reset := fun s now p => s.modify p fun t => some (t.restart now)
  disable := fun s p => s.modify p fun _ => none
  complete := fun s now p => s.modify p (TaskTable.ran now)
  enabled_init := fun _ => rfl
  alive_of_enabled := fun s p t h => by rw [h]; rfl
  issued_of_enabled := fun s p t h => by
    by_contra hp
    rw [s.unused p (Nat.le_of_not_lt hp)] at h
    exact Option.some_ne_none t h.symm
  schedule_fresh := fun s _ _ _ _ => Nat.lt_irrefl s.next
  enabled_schedule := fun s _ _ _ _ => Function.update_self s.next _ _
  enabled_schedule_ne := fun s _ _ _ _ q hq => Function.update_of_ne hq _ _
  alive_schedule_ne := fun s _ _ _ _ q hq =>
    congrArg Option.isSome (Function.update_of_ne hq _ _)
  issued_schedule := fun s _ _ _ _ q => Nat.lt_succ_iff_lt_or_eq.trans or_comm
  enabled_reset := fun s now p t h => by rw [s.tasks_modify_self, h, Option.bind_some]
  enabled_reset_ne := fun s now p q hq => s.tasks_modify_ne hq _
  alive_reset_ne := fun s now p q hq => congrArg Option.isSome (s.tasks_modify_ne hq _)
  issued_reset := fun _ _ _ _ => Iff.rfl
  enabled_disable := fun s p => by
    rw [s.tasks_modify_self]
    cases s.tasks p <;> rfl
  enabled_disable_ne := fun s p q hq => s.tasks_modify_ne hq _
  alive_disable_ne := fun s p q hq => congrArg Option.isSome (s.tasks_modify_ne hq _)
  issued_disable := fun _ _ _ => Iff.rfl
  enabled_complete_last := fun s now p t h hl => by
    rw [s.tasks_modify_self, h, Option.bind_some, TaskTable.ran, if_pos hl]
    exact ⟨rfl, rfl⟩
  enabled_complete := fun s now p t h hl hdue => by
    refine ⟨now + t.delay, Nat.add_le_add_right hdue _, Nat.le_refl _, ?_⟩
    rw [s.tasks_modify_self, h, Option.bind_some, TaskTable.ran, if_neg (Nat.not_le.mpr hl)]
  enabled_complete_none := fun s now p h => by rw [s.tasks_modify_self, h, Option.bind_none]
  enabled_complete_ne := fun s now p q hq => s.tasks_modify_ne hq _
  alive_complete_ne := fun s now p q hq => congrArg Option.isSome (s.tasks_modify_ne hq _)
  issued_complete := fun _ _ _ _ => Iff.rfl

end SctpSandbox

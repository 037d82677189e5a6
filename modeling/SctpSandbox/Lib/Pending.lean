import Mathlib.Data.Set.Card
import SctpSandbox.Lib.TaskScheduler

/-! # Tasks that run once

A client that never stops or restarts a task, and schedules each to run once, uses a scheduler as a
bag of functions that wait for their time. `pending` is the set of the tasks that still have to run
a function; scheduling the function adds one task to it, and a run takes away the task that ran. -/

namespace SctpSandbox

namespace TaskScheduler

variable {F : Type} (T : TaskScheduler F)

/-- The pointers of the tasks that still have to run `f`. -/
def pending (s : T.State) (f : F) : Set T.Ptr := {p | ∃ t, T.enabled s p = some t ∧ t.function = f}

/-- Every task has one run left. -/
def RunOnce (s : T.State) : Prop := ∀ p t, T.enabled s p = some t → t.left = 1

/-- Schedule each of some functions once, with one delay. -/
def scheduleAll (now delay : Time) (fs : List F) (s : T.State) : T.State :=
  fs.foldl (fun s f => (T.schedule s now f delay 1).1) s

variable {T} {s : T.State} {f g : F} {now delay : Time} {p : T.Ptr} {t : ScheduledTask F}

/-- An enabled task is among the pending tasks of its function. -/
theorem mem_pending_of_enabled (h : T.enabled s p = some t) : p ∈ T.pending s t.function :=
  ⟨t, h, rfl⟩

/-- A new scheduler has none. -/
theorem pending_init (f : F) : T.pending T.init f = ∅ := by
  ext p
  simp [pending, T.enabled_init]

/-- The empty scheduler has no task that runs more than once. -/
theorem runOnce_init : T.RunOnce T.init := by
  intro p t h
  rw [T.enabled_init] at h
  exact absurd h.symm (Option.some_ne_none t)

/-! ## Scheduling -/

/-- A task scheduled to run once leaves all tasks to run once. -/
theorem RunOnce.schedule (h : T.RunOnce s) (now : Time) (f : F) (delay : Time) :
    T.RunOnce (T.schedule s now f delay 1).1 := by
  intro p t ht
  by_cases hp : p = (T.schedule s now f delay 1).2
  · subst hp
    rw [T.enabled_schedule] at ht
    rw [← Option.some.inj ht]
    rfl
  · rw [T.enabled_schedule_ne _ _ _ _ _ _ hp] at ht
    exact h p t ht

/-- A batch of tasks scheduled to run once leaves all tasks to run once. -/
theorem RunOnce.scheduleAll (h : T.RunOnce s) (now delay : Time) (fs : List F) :
    T.RunOnce (T.scheduleAll now delay fs s) := by
  induction fs generalizing s with
  | nil => exact h
  | cons f fs ih => exact ih (h.schedule now f delay)

/-- A scheduled task joins the pending ones of its function. -/
theorem pending_schedule_self (s : T.State) (now : Time) (f : F) (delay : Time) :
    T.pending (T.schedule s now f delay 1).1 f =
      insert (T.schedule s now f delay 1).2 (T.pending s f) := by
  ext q
  by_cases hq : q = (T.schedule s now f delay 1).2
  · subst hq
    exact iff_of_true ⟨_, T.enabled_schedule _ _ _ _ _, rfl⟩ (Set.mem_insert _ _)
  · rw [Set.mem_insert_iff, or_iff_right hq]
    simp only [pending, Set.mem_ofPred_eq, T.enabled_schedule_ne _ _ _ _ _ _ hq]

/-- A scheduled task leaves the pending ones of other functions. -/
theorem pending_schedule_ne (s : T.State) (now delay : Time) (h : g ≠ f) :
    T.pending (T.schedule s now g delay 1).1 f = T.pending s f := by
  ext q
  by_cases hq : q = (T.schedule s now g delay 1).2
  · -- the new task is one of `g`, and was not issued before
    subst hq
    refine iff_of_false ?_ ?_
    · rintro ⟨t, ht, hf⟩
      rw [T.enabled_schedule] at ht
      rw [← Option.some.inj ht] at hf
      exact h hf
    · rintro ⟨t, ht, -⟩
      exact T.schedule_fresh s now g delay 1 (T.issued_of_enabled s _ t ht)
  · simp only [pending, Set.mem_ofPred_eq, T.enabled_schedule_ne _ _ _ _ _ _ hq]

/-- A new task is one more. -/
theorem encard_pending_schedule_self (s : T.State) (now : Time) (f : F) (delay : Time) :
    (T.pending (T.schedule s now f delay 1).1 f).encard = (T.pending s f).encard + 1 := by
  rw [pending_schedule_self]
  refine Set.encard_insert_of_notMem ?_
  rintro ⟨t, ht, -⟩
  exact T.schedule_fresh s now f delay 1 (T.issued_of_enabled s _ t ht)

/-- **Each function scheduled is one more task for it.** -/
theorem encard_pending_scheduleAll [DecidableEq F] (s : T.State) (now delay : Time) (fs : List F)
    (f : F) : (T.pending (T.scheduleAll now delay fs s) f).encard =
      (T.pending s f).encard + fs.count f := by
  induction fs generalizing s with
  | nil => simp [scheduleAll]
  | cons g fs ih =>
      have hrest := ih (T.schedule s now g delay 1).1
      rw [scheduleAll, List.foldl_cons, ← scheduleAll, hrest]
      by_cases h : g = f
      · rw [h, encard_pending_schedule_self, List.count_cons_self, Nat.cast_add, Nat.cast_one,
          add_assoc, add_comm 1]
      · rw [pending_schedule_ne _ _ _ h, List.count_cons_of_ne h]

/-- A function has a pending task after a batch when it is in the batch or had one. -/
theorem pending_scheduleAll_nonempty (s : T.State) (now delay : Time) (fs : List F) (f : F) :
    (T.pending (T.scheduleAll now delay fs s) f).Nonempty ↔
      f ∈ fs ∨ (T.pending s f).Nonempty := by
  induction fs generalizing s with
  | nil => simp [scheduleAll]
  | cons g fs ih =>
      rw [scheduleAll, List.foldl_cons, ← scheduleAll, ih, List.mem_cons]
      by_cases h : g = f
      · rw [h, pending_schedule_self]
        exact iff_of_true (.inr (Set.insert_nonempty _ _)) (.inl (.inl rfl))
      · rw [pending_schedule_ne _ _ _ h]
        simp only [Ne.symm h, false_or]

/-! ## Runs -/

/-- The task that ran is gone, every other waits as before. -/
theorem pending_complete (h : T.RunOnce s) (now : Time) (p : T.Ptr) (f : F) :
    T.pending (T.complete s now p) f = T.pending s f \ {p} := by
  -- a task that runs once is gone when it has run
  have hgone : T.enabled (T.complete s now p) p = none := by
    cases hp : T.enabled s p with
    | none => exact T.enabled_complete_none s now p hp
    | some t => exact (T.enabled_complete_last s now p t hp (Nat.le_of_eq (h p t hp))).1
  ext q
  by_cases hq : q = p
  · subst hq
    refine iff_of_false ?_ fun hmem => hmem.2 rfl
    rintro ⟨t, ht, -⟩
    exact Option.some_ne_none t (ht.symm.trans hgone)
  · simp only [pending, Set.mem_ofPred_eq, T.enabled_complete_ne _ _ _ _ hq, Set.mem_sdiff,
      Set.mem_singleton_iff, hq, not_false_eq_true, and_true]

/-- A task that completes keeps the others to run once. -/
theorem RunOnce.complete (h : T.RunOnce s) (now : Time) (p : T.Ptr) :
    T.RunOnce (T.complete s now p) := by
  intro q t ht
  have hmem : q ∈ T.pending s t.function \ {p} := by
    rw [← pending_complete h now p]
    exact mem_pending_of_enabled ht
  have hq : q ≠ p := hmem.2
  rw [T.enabled_complete_ne _ _ _ _ hq] at ht
  exact h q t ht

/-- **A run is one task less** for its function. -/
theorem encard_pending_complete (h : T.RunOnce s) (now : Time) (hp : T.enabled s p = some t) :
    (T.pending (T.complete s now p) t.function).encard + 1 = (T.pending s t.function).encard := by
  rw [pending_complete h]
  exact Set.encard_sdiff_singleton_add_one (mem_pending_of_enabled hp)

/-- A task that completes leaves the pending ones of other functions. -/
theorem pending_complete_ne (h : T.RunOnce s) (now : Time) (hp : T.enabled s p = some t)
    (hf : t.function ≠ f) : T.pending (T.complete s now p) f = T.pending s f := by
  rw [pending_complete h]
  refine Set.sdiff_singleton_eq_self ?_
  rintro ⟨t', ht', hf'⟩
  rw [Option.some.inj (hp.symm.trans ht')] at hf
  exact hf hf'

end TaskScheduler

end SctpSandbox

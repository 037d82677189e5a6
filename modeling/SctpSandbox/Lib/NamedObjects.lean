import Mathlib.Data.Finset.Basic
import SctpSandbox.Lib.Run

/-! # Programs that create named objects

A named object outlives the process that creates it. A program is a sequence of calls, each of which
creates an object under a name that must be free, removes a name, whether it is there or not, uses
one that must be there, or has to do with none. A program that stops leaves the names as they are
then.

Which names that are there already keep a program from running to its end? Those it creates without
having removed them before: a program that runs from no names at all runs from some names exactly
when none of these is among them (`returns_iff_disjoint`). -/

namespace SctpSandbox

/-- A call, by what it has to do with names. -/
inductive NameCall (α : Type*) where
  /-- Create an object under a name that is free. -/
  | create (n : α)
  /-- Remove a name, if it is there. -/
  | remove (n : α)
  /-- Use a name that is there. -/
  | use (n : α)
  /-- Anything else. -/
  | other
  deriving DecidableEq

namespace NameCall

variable {α : Type*} [DecidableEq α] {cs ds : List (NameCall α)} {s t u : Finset α} {n : α}

/-- What a call makes of the names. -/
def run : NameCall α → Finset α → Outcome (Finset α)
  | create n, s => if n ∈ s then .threw s else .returned (insert n s)
  | remove n, s => .returned (s.erase n)
  | use n, s => if n ∈ s then .returned s else .threw s
  | other, s => .returned s

/-- The calls one after the other, until one throws. -/
def runAll (cs : List (NameCall α)) (s : Finset α) : Outcome (Finset α) := Outcome.forEach run cs s

/-- None of the calls throws. -/
def Returns (cs : List (NameCall α)) (s : Finset α) : Prop := ∃ t, runAll cs s = .returned t

/-- The call minds which names are there. -/
def mayThrow : NameCall α → Bool
  | create _ => true
  | remove _ => false
  | use _ => true
  | other => false

/-- The names that are created without having been removed before. -/
def exposed : List (NameCall α) → Finset α
  | [] => ∅
  | create n :: cs => insert n (exposed cs)
  | remove n :: cs => (exposed cs).erase n
  | use _ :: cs => exposed cs
  | other :: cs => exposed cs

/-! ## One name -/

/-- A call that neither creates nor removes a name leaves it as it was. -/
theorem mem_run (c : NameCall α) (s : Finset α) (hcreate : c ≠ create n) (hremove : c ≠ remove n) :
    n ∈ (c.run s).state ↔ n ∈ s := by
  cases c with
  | create m =>
      have hne : n ≠ m := fun h => hcreate (h ▸ rfl)
      rw [run]
      split
      · rfl
      · rw [Outcome.state_returned, Finset.mem_insert, or_iff_right hne]
  | remove m =>
      have hne : n ≠ m := fun h => hremove (h ▸ rfl)
      rw [run, Outcome.state_returned, Finset.mem_erase, and_iff_right hne]
  | use m =>
      rw [run]
      split <;> rfl
  | other => rfl

/-- After its creation a name exists. -/
theorem mem_run_create (n : α) (s : Finset α) : n ∈ ((create n).run s).state := by
  rw [run]
  split
  · assumption
  · exact Finset.mem_insert_self n s

/-- After its removal a name does not exist. -/
theorem not_mem_run_remove (n : α) (s : Finset α) : n ∉ ((remove n).run s).state :=
  Finset.notMem_erase n s

/-- Calls that neither create nor remove a name leave it as it was. -/
theorem mem_runAll (hcreate : create n ∉ cs) (hremove : remove n ∉ cs) :
    n ∈ (runAll cs s).state ↔ n ∈ s := by
  refine Outcome.forEach_state (P := fun t => n ∈ t ↔ n ∈ s) Iff.rfl fun c hc t ht => ?_
  rw [mem_run c t (fun h => hcreate (h ▸ hc)) fun h => hremove (h ▸ hc), ht]

/-- A name that is not removed stays. -/
theorem mem_runAll_of_mem (hremove : remove n ∉ cs) (h : n ∈ s) : n ∈ (runAll cs s).state := by
  refine Outcome.forEach_state (P := fun t => n ∈ t) h fun c hc t ht => ?_
  by_cases hcreate : c = create n
  · subst hcreate
    exact mem_run_create n t
  · exact (mem_run c t hcreate fun h => hremove (h ▸ hc)).mpr ht

/-- A name that is not created stays away. -/
theorem not_mem_runAll_of_not_mem (hcreate : create n ∉ cs) (h : n ∉ s) :
    n ∉ (runAll cs s).state := by
  refine Outcome.forEach_state (P := fun t => n ∉ t) h fun c hc t ht => ?_
  by_cases hremove : c = remove n
  · subst hremove
    exact not_mem_run_remove n t
  · rwa [mem_run c t (fun h => hcreate (h ▸ hc)) hremove]

/-! ## Sequences of calls -/

/-- The empty list of calls returns. -/
theorem returns_nil (s : Finset α) : Returns [] s := ⟨s, rfl⟩

/-- A list of calls returns when its first call and then the others do. -/
theorem returns_cons {c : NameCall α} :
    Returns (c :: cs) s ↔ ∃ t, c.run s = .returned t ∧ Returns cs t := by
  simp only [Returns, runAll, Outcome.forEach_cons]
  cases c.run s with
  | returned t => exact ⟨fun h => ⟨t, rfl, h⟩, fun ⟨t', ht, h⟩ => by cases ht; exact h⟩
  | threw t => exact ⟨fun ⟨_, h⟩ => absurd h (by simp), fun ⟨_, h, _⟩ => absurd h (by simp)⟩

/-- Calls in a row are run in a row. -/
theorem runAll_append (cs ds : List (NameCall α)) (s : Finset α) :
    runAll (cs ++ ds) s = (runAll cs s).andThen (runAll ds) := Outcome.forEach_append run cs ds s

/-- Two lists of calls return when the first does, and the second on what it left. -/
theorem returns_append : Returns (cs ++ ds) s ↔ ∃ t, runAll cs s = .returned t ∧ Returns ds t := by
  simp only [Returns, runAll_append]
  cases runAll cs s with
  | returned t => exact ⟨fun h => ⟨t, rfl, h⟩, fun ⟨t', ht, h⟩ => by cases ht; exact h⟩
  | threw t => exact ⟨fun ⟨_, h⟩ => absurd h (by simp), fun ⟨_, h, _⟩ => absurd h (by simp)⟩

/-- Calls that cannot throw return. -/
theorem returns_of_not_mayThrow (h : ∀ c ∈ cs, c.mayThrow = false) (s : Finset α) :
    Returns cs s := by
  induction cs generalizing s with
  | nil => exact returns_nil s
  | cons c cs ih =>
      obtain ⟨hc, hcs⟩ := List.forall_mem_cons.mp h
      rw [returns_cons]
      cases c with
      | create n => exact Bool.noConfusion hc
      | remove n => exact ⟨s.erase n, rfl, ih hcs _⟩
      | use n => exact Bool.noConfusion hc
      | other => exact ⟨s, rfl, ih hcs s⟩

/-- A name that is removed, and not created again, is gone. -/
theorem not_mem_runAll_of_remove (h : Returns cs s) (hcreate : create n ∉ cs)
    (hremove : remove n ∈ cs) : n ∉ (runAll cs s).state := by
  obtain ⟨before, behind, rfl⟩ := List.append_of_mem hremove
  obtain ⟨t, ht, -⟩ := returns_append.mp h
  have hbehind : create n ∉ behind := fun hmem =>
    hcreate (List.mem_append_right before (List.mem_cons_of_mem _ hmem))
  rw [runAll_append, ht]
  show n ∉ (runAll behind (t.erase n)).state
  exact not_mem_runAll_of_not_mem hbehind (Finset.notMem_erase n t)

/-- Calls that create no name of their own without removing it before are behind others as if they
were not there. -/
theorem exposed_append (cs : List (NameCall α)) (h : exposed ds = ∅) :
    exposed (cs ++ ds) = exposed cs := by
  induction cs with
  | nil => exact h
  | cons c cs ih => cases c <;> simp only [List.cons_append, exposed, ih]

/-- **What may be there already**: calls that return where less is there return where more is there
exactly when nothing of it is exposed. -/
theorem returns_iff_disjoint (hsub : s ⊆ u) (h : Returns cs s) :
    Returns cs u ↔ Disjoint (exposed cs) u := by
  induction cs generalizing s u with
  | nil => exact iff_of_true (returns_nil u) (Finset.disjoint_empty_left u)
  | cons c cs ih =>
      obtain ⟨t, ht, hrest⟩ := returns_cons.mp h
      rw [returns_cons]
      cases c with
      | create n =>
          have hn : n ∉ s := fun hmem => absurd ht (by simp [run, hmem])
          obtain rfl : insert n s = t := by simpa [run, hn] using ht
          -- the calls behind do not create `n` once more, from `insert n s` they return
          have hexposed : n ∉ exposed cs :=
            (Finset.disjoint_insert_right.mp ((ih subset_rfl hrest).mp hrest)).1
          rw [exposed, Finset.disjoint_insert_left]
          by_cases hu : n ∈ u
          · simp [run, hu]
          · have hbehind := ih (Finset.insert_subset_insert n hsub) hrest
            rw [Finset.disjoint_insert_right, and_iff_right hexposed] at hbehind
            rw [← hbehind]
            simp [run, hu]
      | remove n =>
          obtain rfl : s.erase n = t := by simpa [run] using ht
          have hbehind := ih (Finset.erase_subset_erase n hsub) hrest
          rw [exposed, Finset.disjoint_erase_comm, ← hbehind]
          simp [run]
      | use n =>
          have hn : n ∈ s := by
            by_contra hmem
            exact absurd ht (by simp [run, hmem])
          obtain rfl : s = t := by simpa [run, hn] using ht
          rw [exposed, ← ih hsub hrest]
          simp [run, hsub hn]
      | other =>
          obtain rfl : s = t := by simpa [run] using ht
          rw [exposed, ← ih hsub hrest]
          simp [run]

end NameCall

end SctpSandbox

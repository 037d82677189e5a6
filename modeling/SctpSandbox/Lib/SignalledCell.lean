import Mathlib.Algebra.Order.BigOperators.Group.Finset
import Mathlib.Data.Fintype.Basic
import Mathlib.Logic.Relation

/-! # A cell whose values are signalled

Several parties share a cell and a counting semaphore. Whoever stores a value posts next, and
whoever takes a permit reads next; a post may fail, and then the party stops. Nothing keeps the
parties apart, so that a value may be read twice or never. What the protocol does give is
`Reachable.balanced`: every value stored is read, or there is a permit for it, or a party is just
between the two; and `Reachable.latest`: what is read is what was stored last. -/

namespace SctpSandbox

/-- Where a party stands. -/
inductive SignalledCell.Standing where
  | idle
  /-- It has stored a value and posts next. -/
  | storing
  /-- It has taken a permit and reads next. -/
  | taking
  /-- Its post has failed. -/
  | stopped
  deriving DecidableEq

/-- What a party did to the value. -/
inductive SignalledCell.Event (α : Type*) where
  | stored (v : α)
  | read (v : α)
  deriving DecidableEq

/-- The cell, its semaphore and the parties. -/
structure SignalledCell (ι α : Type*) where
  value : α
  permits : ℕ := 0
  standing : ι → SignalledCell.Standing := fun _ => .idle
  /-- What the parties did, the newest first. -/
  history : List (ι × SignalledCell.Event α) := []

namespace SignalledCell

variable {ι α : Type*}

/-- A party that is between two operations that belong together counts. -/
def Standing.weight : Standing → ℕ
  | .idle => 0
  | .storing | .taking | .stopped => 1

/-- A process stands between at most one store and its post, or one permit and its read. -/
theorem Standing.weight_le (c : Standing) : c.weight ≤ 1 := by
  cases c <;> decide

/-- The values stored, the newest first. -/
def stores (history : List (ι × Event α)) : List α :=
  history.filterMap fun
    | (_, .stored v) => some v
    | (_, .read _) => none

/-- The values read, the newest first. -/
def reads (history : List (ι × Event α)) : List α :=
  history.filterMap fun
    | (_, .stored _) => none
    | (_, .read v) => some v

section History

variable (p : ι) (v : α) (history : List (ι × Event α))

/-- A store is the newest of the stores. -/
@[simp] theorem stores_stored : stores ((p, .stored v) :: history) = v :: stores history := rfl

@[simp] theorem stores_read : stores ((p, .read v) :: history) = stores history := rfl

@[simp] theorem reads_stored : reads ((p, .stored v) :: history) = reads history := rfl

/-- A read is the newest of the reads. -/
@[simp] theorem reads_read : reads ((p, .read v) :: history) = v :: reads history := rfl

end History

/-! ## The parties -/

section Parties

variable [Fintype ι]

/-- How many parties are between two operations that belong together. -/
def between (standing : ι → Standing) : ℕ := ∑ p, (standing p).weight

variable {standing : ι → Standing}

/-- A change of one process's standing changes the sum by its weight. -/
theorem between_update [DecidableEq ι] (standing : ι → Standing) (p : ι) (c : Standing) :
    between (Function.update standing p c) + (standing p).weight =
      between standing + c.weight := by
  have hrest : ∑ q ∈ Finset.univ.erase p, (Function.update standing p c q).weight =
      ∑ q ∈ Finset.univ.erase p, (standing q).weight := by
    refine Finset.sum_congr rfl fun q hq => ?_
    rw [Function.update_of_ne (Finset.ne_of_mem_erase hq)]
  rw [between, between, ← Finset.add_sum_erase _ _ (Finset.mem_univ p), hrest,
    Function.update_self, ← Finset.add_sum_erase _ (fun q => (standing q).weight)
    (Finset.mem_univ p)]
  omega

/-- There are at most as many accesses under way as there are processes. -/
theorem between_le (standing : ι → Standing) : between standing ≤ Fintype.card ι := by
  have hsum : between standing ≤ ∑ _p : ι, 1 :=
    Finset.sum_le_sum fun p _ => (standing p).weight_le
  exact hsum.trans_eq (Finset.card_eq_sum_ones _).symm

/-- When all processes are idle no access is under way. -/
theorem between_eq_zero (h : ∀ p, standing p = .idle) : between standing = 0 :=
  Finset.sum_eq_zero fun p _ => by rw [h p]; rfl

/-- When a process is not idle an access is under way. -/
theorem between_pos {p : ι} (h : standing p ≠ .idle) : 0 < between standing := by
  have hsingle : (standing p).weight ≤ between standing :=
    Finset.single_le_sum (f := fun q => (standing q).weight) (fun q _ => Nat.zero_le _)
      (Finset.mem_univ p)
  refine Nat.lt_of_lt_of_le ?_ hsingle
  cases hp : standing p with
  | idle => exact absurd hp h
  | storing | taking | stopped => exact Nat.one_pos

/-- Every value stored is read, or there is a permit for it, or a party is between the two. -/
def Balanced (m : SignalledCell ι α) : Prop :=
  (stores m.history).length = (reads m.history).length + m.permits + between m.standing

variable {m : SignalledCell ι α}

/-- There are never more reads than stores. -/
theorem Balanced.reads_le (h : m.Balanced) :
    (reads m.history).length + m.permits ≤ (stores m.history).length := by
  rw [Balanced] at h
  omega

/-- When everybody is idle, exactly the values not read have a permit. -/
theorem Balanced.of_idle (h : m.Balanced) (hidle : ∀ p, m.standing p = .idle) :
    (stores m.history).length = (reads m.history).length + m.permits := by
  rw [Balanced, between_eq_zero hidle, Nat.add_zero] at h
  exact h

end Parties

/-! ## The protocol -/

variable [DecidableEq ι]

/-- A party moves. -/
def set (m : SignalledCell ι α) (p : ι) (c : Standing) : SignalledCell ι α :=
  { m with standing := Function.update m.standing p c }

/-- What a party can do. -/
inductive Step : SignalledCell ι α → SignalledCell ι α → Prop
  | store (m : SignalledCell ι α) (p : ι) (v : α) : m.standing p = .idle →
      Step m { m.set p .storing with value := v, history := (p, .stored v) :: m.history }
  | post (m : SignalledCell ι α) (p : ι) : m.standing p = .storing →
      Step m { m.set p .idle with permits := m.permits + 1 }
  | fail (m : SignalledCell ι α) (p : ι) : m.standing p = .storing → Step m (m.set p .stopped)
  | take (m : SignalledCell ι α) (p : ι) : m.standing p = .idle → 0 < m.permits →
      Step m { m.set p .taking with permits := m.permits - 1 }
  | read (m : SignalledCell ι α) (p : ι) : m.standing p = .taking →
      Step m { m.set p .idle with history := (p, .read m.value) :: m.history }

/-- What the parties come to from a cell that holds `v₀` and that nobody has used. -/
def Reachable (v₀ : α) : SignalledCell ι α → Prop :=
  Relation.ReflTransGen Step { value := v₀ }

variable [Fintype ι] {m m' : SignalledCell ι α} {v₀ : α} {p : ι}

/-- The balance is kept by a step of one process that keeps it in sum. -/
theorem Balanced.of_set {c : Standing} (hm : m.Balanced)
    (hset : m'.standing = Function.update m.standing p c)
    (h : (stores m'.history).length + (reads m.history).length + m.permits +
        (m.standing p).weight =
      (stores m.history).length + (reads m'.history).length + m'.permits + c.weight) :
    m'.Balanced := by
  have hbetween := between_update m.standing p c
  rw [Balanced] at hm ⊢
  rw [hset]
  omega

/-- Step lemma: every step keeps the balance. -/
theorem Step.balanced (h : Step m m') (hm : m.Balanced) : m'.Balanced := by
  -- one step of one process: its standing changes, and the two sides with it
  cases h with
  | store p v hp =>
      refine hm.of_set (p := p) (c := .storing) rfl ?_
      simp only [hp, stores_stored, reads_stored, List.length_cons, Standing.weight, set]
      omega
  | post p hp =>
      refine hm.of_set (p := p) (c := .idle) rfl ?_
      simp only [hp, Standing.weight, set]
      omega
  | fail p hp =>
      refine hm.of_set (p := p) (c := .stopped) rfl ?_
      simp only [hp, Standing.weight, set]
  | take p hp hpos =>
      refine hm.of_set (p := p) (c := .taking) rfl ?_
      simp only [hp, Standing.weight, set]
      omega
  | read p hp =>
      refine hm.of_set (p := p) (c := .idle) rfl ?_
      simp only [hp, stores_read, reads_read, List.length_cons, Standing.weight, set]
      omega

/-- Run lemma: the balance holds of every reachable cell. -/
theorem Reachable.balanced (h : Reachable v₀ m) : m.Balanced := by
  have h₀ : ({ value := v₀ } : SignalledCell ι α).Balanced := by
    rw [Balanced, between_eq_zero fun _ => rfl]
    rfl
  induction h with
  | refl => exact h₀
  | tail _ hstep ih => exact hstep.balanced ih

/-! ## What is read -/

/-- The cell holds what was stored last, and so did everything read at its time. -/
structure Latest (v₀ : α) (m : SignalledCell ι α) : Prop where
  value : m.value = (stores m.history).headD v₀
  read : ∀ newer p v older, m.history = newer ++ (p, .read v) :: older →
    (stores older).head? = some v

omit [DecidableEq ι] [Fintype ι] in
/-- A line that is not a read needs nothing. -/
theorem Latest.cons_stored (h : Latest v₀ m) (p : ι) (v : α) :
    ∀ newer q w older, (p, .stored v) :: m.history = newer ++ (q, .read w) :: older →
      (stores older).head? = some w := by
  intro newer q w older heq
  rcases List.cons_eq_append_iff.mp heq with ⟨-, hcons⟩ | ⟨newer', -, hrest⟩
  · exact absurd (List.cons.inj hcons).1 (by simp)
  · exact h.read newer' q w older hrest

/-- Somebody who reads has taken a permit, so that a value was stored. -/
theorem Step.latest (h : Step m m') (hm : m.Balanced) (hl : Latest v₀ m) : Latest v₀ m' := by
  cases h with
  | store p v hp => exact ⟨rfl, hl.cons_stored p v⟩
  | post p hp => exact ⟨hl.value, hl.read⟩
  | fail p hp => exact ⟨hl.value, hl.read⟩
  | take p hp hpos => exact ⟨hl.value, hl.read⟩
  | read p hp =>
      refine ⟨hl.value, fun newer q w older heq => ?_⟩
      -- the read is the newest one, or was there before
      rcases List.cons_eq_append_iff.mp heq with ⟨-, hcons⟩ | ⟨newer', -, hrest⟩
      · obtain ⟨hline, hrest⟩ := List.cons.inj hcons
        obtain rfl : w = m.value := by
          have hread := (Prod.mk.inj hline).2
          exact Event.read.inj hread
        -- the reader holds a permit, so by the balance something has been stored
        have hpos : 0 < between m.standing := between_pos (p := p) (by rw [hp]; simp)
        rw [Balanced] at hm
        cases hstores : stores m.history with
        | nil =>
            rw [hstores, List.length_nil] at hm
            omega
        | cons v vs => rw [hrest, hstores, hl.value, hstores]; rfl
      · exact hl.read newer' q w older hrest

/-- **What is read is what was stored last**, and never what the cell held at first. -/
theorem Reachable.latest (h : Reachable v₀ m) : Latest v₀ m := by
  have h₀ : Latest v₀ ({ value := v₀ } : SignalledCell ι α) :=
    ⟨rfl, fun newer p v older heq => absurd heq (by simp)⟩
  induction h with
  | refl => exact h₀
  | tail hreach hstep ih => exact hstep.latest (Reachable.balanced hreach) ih

end SignalledCell

end SctpSandbox

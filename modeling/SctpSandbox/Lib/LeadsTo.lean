import Mathlib.Data.List.Basic
import SctpSandbox.Lib.Threads

/-! # Progress of threads that all take part

A schedule goes in rounds: in each of them every thread that has to take part moves at least once,
in any order and as often as it likes. `LeadsTo act part n P Q` says that from every state with `P`
any `n` rounds end in a state with `Q`. One round comes from one thread that helps: whatever the
others do, they leave `P` only for `Q`, and a move of its own ends in `Q` (`LeadsTo.ensures`). The
other rules put rounds together. -/

namespace SctpSandbox

namespace Pool

variable {ι σ κ ε : Type} [DecidableEq ι]

/-- Every thread that has to take part moves in the round. -/
def IsRound (part : ι → Prop) (r : List (ι × ε)) : Prop := ∀ i, part i → ∃ e, (i, e) ∈ r

/-- From every state with `P`, any `n` rounds or more end in a state with `Q`. -/
def LeadsTo (act : ι → ε → κ → σ → κ × σ) (part : ι → Prop) (n : ℕ) (P Q : Pool ι σ κ → Prop) :
    Prop :=
  ∀ rounds : List (List (ι × ε)), (∀ r ∈ rounds, IsRound part r) → n ≤ rounds.length →
    ∀ p, P p → Q (steps act rounds.flatten p)

/-- The moves of every thread keep `P`. -/
def Stable (act : ι → ε → κ → σ → κ × σ) (P : Pool ι σ κ → Prop) : Prop :=
  ∀ p i e, P p → P (p.set i (act i e (p.pc i) p.shared))

variable {act : ι → ε → κ → σ → κ × σ} {part : ι → Prop} {m n : ℕ} {P P' Q R : Pool ι σ κ → Prop}
  {p : Pool ι σ κ} {i : ι}

/-- Schedules in a row. -/
theorem steps_append (es es' : List (ι × ε)) (p : Pool ι σ κ) :
    steps act (es ++ es') p = steps act es' (steps act es p) := by
  induction es generalizing p with
  | nil => rfl
  | cons e es ih => exact ih _

/-- What every step keeps, every schedule keeps. -/
theorem Stable.steps (h : Stable act P) (es : List (ι × ε)) (hp : P p) :
    P (Pool.steps act es p) := by
  induction es generalizing p with
  | nil => exact hp
  | cons e es ih => exact ih (h p e.1 e.2 hp)

namespace LeadsTo

/-- What is stable needs no round. -/
theorem of_imp (hstable : Stable act Q) (h : ∀ p, P p → Q p) : LeadsTo act part n P Q :=
  fun rounds _ _ p hp => hstable.steps rounds.flatten (h p hp)

/-- **The rule of one round**: `P` is left for `Q` only, and a move of one thread that takes part
ends in `Q`, which is stable. -/
theorem ensures (hi : part i) (hstable : Stable act Q)
    (hunless : ∀ p j e, P p → P (p.set j (act j e (p.pc j) p.shared)) ∨
      Q (p.set j (act j e (p.pc j) p.shared)))
    (hmove : ∀ p e, P p → Q (p.set i (act i e (p.pc i) p.shared))) :
    LeadsTo act part 1 P Q := by
  -- along the schedule `P` holds until `Q` does, and the thread has moved by the end
  have hmoved : ∀ (es : List (ι × ε)) (p : Pool ι σ κ), P p → (∃ e, (i, e) ∈ es) →
      Q (steps act es p) := by
    intro es
    induction es with
    | nil => exact fun p _ ⟨e, he⟩ => absurd he List.not_mem_nil
    | cons e' es ih =>
        rintro p hp ⟨e, he⟩
        rcases List.mem_cons.mp he with rfl | he
        · exact hstable.steps es (hmove p e hp)
        · rcases hunless p e'.1 e'.2 hp with hp' | hq
          · exact ih _ hp' ⟨e, he⟩
          · exact hstable.steps es hq
  intro rounds hrounds hlen p hp
  cases rounds with
  | nil => exact absurd hlen (by simp)
  | cons r rounds =>
      rw [List.flatten_cons, steps_append]
      exact hstable.steps _ (hmoved r p hp (hrounds r List.mem_cons_self i hi))

/-- The rule of consequence. -/
theorem imp (h : LeadsTo act part n P Q) (hP : ∀ p, P' p → P p) (hQ : ∀ p, Q p → R p) :
    LeadsTo act part n P' R :=
  fun rounds hrounds hlen p hp => hQ _ (h rounds hrounds hlen p (hP p hp))

/-- Rounds after rounds. -/
theorem trans (h : LeadsTo act part m P Q) (h' : LeadsTo act part n Q R) :
    LeadsTo act part (m + n) P R := by
  intro rounds hrounds hlen p hp
  have hq : Q (steps act (rounds.take m).flatten p) := by
    refine h _ (fun r hr => hrounds r (List.mem_of_mem_take hr)) ?_ p hp
    rw [List.length_take]
    omega
  have hr := h' (rounds.drop m) (fun r hr => hrounds r (List.mem_of_mem_drop hr))
    (by rw [List.length_drop]; omega) _ hq
  rwa [← steps_append, ← List.flatten_append, List.take_append_drop] at hr

/-- Whatever thread can help. -/
theorem exists_left {α : Sort*} {P : α → Pool ι σ κ → Prop}
    (h : ∀ a, LeadsTo act part n (P a) Q) : LeadsTo act part n (fun p => ∃ a, P a p) Q :=
  fun rounds hrounds hlen p ⟨a, hp⟩ => h a rounds hrounds hlen p hp

/-- Two ways to one end, by cases. -/
theorem or_left (h : LeadsTo act part n P Q) (h' : LeadsTo act part n P' Q) :
    LeadsTo act part n (fun p => P p ∨ P' p) Q :=
  fun rounds hrounds hlen p hp => hp.elim (h rounds hrounds hlen p) (h' rounds hrounds hlen p)

/-- Threads that each do their part. -/
theorem forall_right {α : Sort*} {Q : α → Pool ι σ κ → Prop}
    (h : ∀ a, LeadsTo act part n P (Q a)) : LeadsTo act part n P fun p => ∀ a, Q a p :=
  fun rounds hrounds hlen p hp a => h a rounds hrounds hlen p hp

/-- **The rule of a measure**: what falls in every few rounds comes to its end. -/
theorem descend {P : ℕ → Pool ι σ κ → Prop} (hstable : Stable act (P 0))
    (h : ∀ k, LeadsTo act part m (P (k + 1)) (P k)) (k : ℕ) :
    LeadsTo act part (m * k) (P k) (P 0) := by
  induction k with
  | zero => exact of_imp hstable fun _ hp => hp
  | succ k ih =>
      rw [Nat.mul_succ, Nat.add_comm]
      exact (h k).trans ih

end LeadsTo

end Pool

end SctpSandbox

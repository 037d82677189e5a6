import Mathlib.Algebra.BigOperators.Group.Multiset.Basic
import Mathlib.Algebra.Order.Ring.Nat
import Mathlib.Data.Multiset.Filter
import SctpSandbox.Lib.Run

/-! # Systems that come to rest

A system whose steps lower a measure takes no more steps than the measure says, in whatever order
they come. For messages in flight the measure is a sum of weights: a delivery takes a message out
and puts its answers in, and lowers the sum when the answers together weigh less than the
message. -/

namespace SctpSandbox

variable {σ ε μ : Type*}

namespace Run

variable {step : σ → ε → Outcome σ} {ok : σ → ε → Prop} {s s' : σ} {es : List ε}

/-- **The bound rule**: a run whose steps lower a measure is no longer than the measure. -/
theorem length_le_measure (measure : σ → ℕ) (h : Run step ok s es s')
    (hstep : ∀ s e, ok s e → measure (step s e).state < measure s) : es.length ≤ measure s := by
  -- each step costs at least one, and nothing follows a throw
  induction h with
  | nil s => exact Nat.zero_le _
  | @cons s s₁ s' e es hok hs _ ih =>
      have hlt := hstep s e hok
      rw [hs, Outcome.state_returned] at hlt
      rw [List.length_cons]
      exact Nat.succ_le_of_lt (Nat.lt_of_le_of_lt ih hlt)
  | @threw s s' e hok hs =>
      have hlt := hstep s e hok
      rw [List.length_singleton]
      exact Nat.succ_le_of_lt (Nat.zero_lt_of_lt hlt)

end Run

/-- The states that one step leads to. -/
def Successor (step : σ → ε → Outcome σ) (ok : σ → ε → Prop) (s' s : σ) : Prop :=
  ∃ e, ok s e ∧ (step s e).state = s'

/-- **The termination rule**: no infinite sequence of steps lowers a measure. -/
theorem wellFounded_successor {step : σ → ε → Outcome σ} {ok : σ → ε → Prop} (measure : σ → ℕ)
    (hstep : ∀ s e, ok s e → measure (step s e).state < measure s) :
    WellFounded (Successor step ok) := by
  refine Subrelation.wf ?_ (InvImage.wf measure Nat.lt_wfRel.wf)
  rintro s' s ⟨e, hok, rfl⟩
  exact hstep s e hok

/-! ## Weights of messages in flight -/

section Weight

variable (weight : μ → ℕ)

/-- The weight of all messages in flight. -/
def totalWeight (flight : Multiset μ) : ℕ := (flight.map weight).sum

/-- The weight of what is in flight adds up. -/
@[simp] theorem totalWeight_add (flight answers : Multiset μ) :
    totalWeight weight (flight + answers) =
      totalWeight weight flight + totalWeight weight answers := by
  rw [totalWeight, Multiset.map_add, Multiset.sum_add]
  rfl

/-- A delivery that takes out more than it puts in lowers the weight. -/
theorem totalWeight_deliver [DecidableEq μ] {flight answers : Multiset μ} {m : μ} (hm : m ∈ flight)
    (hlt : totalWeight weight answers < weight m) :
    totalWeight weight (flight.erase m + answers) < totalWeight weight flight := by
  have hcons : totalWeight weight flight = weight m + totalWeight weight (flight.erase m) := by
    rw [← Multiset.cons_erase hm, totalWeight, Multiset.map_cons, Multiset.sum_cons,
      Multiset.erase_cons_head]
    rfl
  rw [totalWeight_add, hcons]
  omega

/-- A weight of two for some messages and of one for the others counts the former twice. -/
theorem totalWeight_ite (p : μ → Prop) [DecidablePred p] (flight : Multiset μ) :
    totalWeight (fun m => if p m then 2 else 1) flight =
      2 * (flight.filter p).card + (flight.filter fun m => ¬ p m).card := by
  induction flight using Multiset.induction_on with
  | empty => rfl
  | cons m flight ih =>
      have hcons : totalWeight (fun m => if p m then 2 else 1) (m ::ₘ flight) =
          (if p m then 2 else 1) + totalWeight (fun m => if p m then 2 else 1) flight := by
        rw [totalWeight, Multiset.map_cons, Multiset.sum_cons]
        rfl
      rw [hcons, ih]
      by_cases hp : p m
      · rw [if_pos hp, Multiset.filter_cons_of_pos _ hp,
          Multiset.filter_cons_of_neg (p := fun m => ¬ p m) _ (not_not.mpr hp), Multiset.card_cons]
        omega
      · rw [if_neg hp, Multiset.filter_cons_of_neg _ hp,
          Multiset.filter_cons_of_pos (p := fun m => ¬ p m) _ hp,
          Multiset.card_cons]
        omega

end Weight

end SctpSandbox

import Mathlib.Data.Nat.Notation
import SctpSandbox.Lib.Mutex

/-! # Calls taken in steps

A member function that locks the mutex several times is a sequence of atomic steps: `advance` goes
from one control point to the next. `finish` is the function run without interruption, and `asStep`
is one step as the step of a thread, which finds the mutex free and leaves it so. -/

namespace SctpSandbox

namespace Call

variable {ε σ κ : Type} {advance : κ → Call ε σ κ} {pc pc' : κ} {g g' : Guarded σ} {n : ℕ}

/-- Up to `n` steps without interruption. -/
def finish (advance : κ → Call ε σ κ) : ℕ → κ → Call ε σ κ
  | 0, pc => pure pc
  | n + 1, pc => do
      let pc' ← advance pc
      finish advance n pc'

/-- A control point without steps stays. -/
theorem finish_ended (h : ∀ g, advance pc g = .ok pc g) (n : ℕ) (g : Guarded σ) :
    finish advance n pc g = .ok pc g := by
  induction n with
  | zero => rfl
  | succ n ih =>
      rw [finish, bind_ok (h g)]
      exact ih

/-- A step that goes on leaves the rest of the fuel to the others. -/
theorem finish_ok (h : advance pc g = .ok pc' g') :
    finish advance (n + 1) pc g = finish advance n pc' g' := by
  rw [finish, bind_ok h]

/-- A step that fails ends the run. -/
theorem finish_error {e : Stop ε} (h : advance pc g = .error e g') :
    finish advance (n + 1) pc g = .error e g' := by
  rw [finish, bind_error h]

/-- **A last step that calls `m`** does what `m` does. -/
theorem finish_last {m : Call ε σ Unit} (hend : ∀ g, advance pc' g = .ok pc' g)
    (h : advance pc g = (m >>= fun _ => pure pc') g) :
    (finish advance (n + 1) pc >>= fun _ => pure ()) g = m g := by
  cases hm : m g with
  | ok a g' =>
      have hstep : advance pc g = .ok pc' g' := by
        rw [h, bind_ok hm]
        rfl
      rw [bind_ok ((finish_ok hstep).trans (finish_ended hend n g'))]
      rfl
  | error e g' =>
      have hstep : advance pc g = .error e g' := by
        rw [h, bind_error hm]
      rw [bind_error (finish_error hstep)]

/-- A step as the step of a thread; `threw` and `hung` are where it stands when it does not
return. -/
def asStep (threw : ε → κ) (hung : κ) (m : Call ε σ κ) (s : σ) : κ × σ :=
  match m ⟨s, false⟩ with
  | .ok pc' g => (pc', g.object)
  | .error (.exception e) g => (threw e, g.object)
  | .error .deadlock g => (hung, g.object)

variable {threw : ε → κ} {hung : κ} {m : Call ε σ κ} {s : σ}

/-- A call that returns moves its thread on. -/
theorem asStep_ok (h : m ⟨s, false⟩ = .ok pc' g) : asStep threw hung m s = (pc', g.object) := by
  rw [asStep, h]

/-- A call that throws sends its thread to the handler. -/
theorem asStep_exception {e : ε} (h : m ⟨s, false⟩ = .error (.exception e) g) :
    asStep threw hung m s = (threw e, g.object) := by
  rw [asStep, h]

end Call

end SctpSandbox

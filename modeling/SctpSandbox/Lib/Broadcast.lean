import Mathlib.Data.List.Basic
import SctpSandbox.Lib.Mutex

/-! # Broadcasts

A broadcast is a loop of calls, one attempt for each member of a list, and an attempt may fail.
`Attempts` says what the body of such a loop does. A call isolates the members when each of them is
attempted whatever becomes of the others; a loop that lets an exception out does so exactly when no
attempt fails (`Attempts.isolates_iff`). -/

namespace SctpSandbox

namespace Call

variable {ι ε σ : Type} {leave : List ι → σ → σ} {ok : ι → Bool} {P : σ → Prop}
  {f : ι → Call ε σ PUnit} {m : Call ε σ Unit} {is members : List ι} {g : Guarded σ}

/-- The body of a broadcast. `leave` is what attempts leave behind in the object, `ok` says which
attempts succeed; the body may rely on a property of the object that attempts keep. -/
structure Attempts (leave : List ι → σ → σ) (ok : ι → Bool) (P : σ → Prop)
    (f : ι → Call ε σ PUnit) : Prop where
  nil : ∀ s, leave [] s = s
  cons : ∀ i is s, leave (i :: is) s = leave is (leave [i] s)
  keeps : ∀ i s, P s → P (leave [i] s)
  succeeds : ∀ i g, P g.object → ok i = true → f i g = .ok () ⟨leave [i] g.object, g.held⟩
  fails : ∀ i g, P g.object → ok i = false → ∃ e g', f i g = .error e g'

/-- The call attempts to reach each member once, leaves nothing else behind, and returns. -/
def Isolates (leave : List ι → σ → σ) (members : List ι) (m : Call ε σ Unit) (g : Guarded σ) :
    Prop :=
  ∃ is, is.Perm members ∧ m g = .ok () ⟨leave is g.object, g.held⟩

/-- As long as attempts succeed the loop goes on. -/
theorem Attempts.forM_append (h : Attempts leave ok P f) (is rest : List ι)
    (his : ∀ i ∈ is, ok i = true) (hg : P g.object) :
    (is ++ rest).forM f g = rest.forM f ⟨leave is g.object, g.held⟩ := by
  -- by induction on the list, from any state the loop has reached
  induction is generalizing g with
  | nil => rw [List.nil_append, h.nil]
  | cons i is ih =>
      obtain ⟨hi, his⟩ := List.forall_mem_cons.mp his
      have hrest := ih (g := ⟨leave [i] g.object, g.held⟩) his (h.keeps i g.object hg)
      rw [List.cons_append, forM_cons, bind_ok (h.succeeds i g hg hi), hrest, h.cons i is]

/-- Without a failure everybody is attempted. -/
theorem Attempts.forM_ok (h : Attempts leave ok P f) (his : ∀ i ∈ is, ok i = true)
    (hg : P g.object) : is.forM f g = .ok () ⟨leave is g.object, g.held⟩ := by
  have happend := h.forM_append is [] his hg
  rw [List.append_nil] at happend
  exact happend

/-- A failure leaves the loop. -/
theorem Attempts.forM_error (h : Attempts leave ok P f) {i : ι} (hi : i ∈ is)
    (hfail : ok i = false) (hg : P g.object) : ∃ e g', is.forM f g = .error e g' := by
  induction is generalizing g with
  | nil => exact absurd hi List.not_mem_nil
  | cons j is ih =>
      rw [forM_cons]
      cases hj : ok j with
      | true =>
          -- the failure is behind the first member
          have hmem : i ∈ is := (List.mem_cons.mp hi).resolve_left fun heq => by
            rw [heq, hj] at hfail
            exact Bool.false_ne_true hfail.symm
          rw [bind_ok (h.succeeds j g hg hj)]
          exact ih hmem (h.keeps j g.object hg)
      | false =>
          obtain ⟨e, g', hthrew⟩ := h.fails j g hg hj
          exact ⟨e, g', bind_error hthrew⟩

/-- **A loop that lets exceptions out** isolates its members exactly when no attempt fails. -/
theorem Attempts.isolates_iff (h : Attempts leave ok P f) (hg : P g.object)
    (his : is.Perm members) :
    Isolates leave members (is.forM f) g ↔ ∀ i ∈ members, ok i = true := by
  constructor
  · rintro ⟨is', -, hrun⟩ i hi
    by_contra hfail
    obtain ⟨e, g', hthrew⟩ := h.forM_error (his.mem_iff.mpr hi) (by simpa using hfail) hg
    rw [hthrew] at hrun
    exact absurd hrun (by simp)
  · intro hok
    exact ⟨is, his, h.forM_ok (fun i hi => hok i (his.mem_iff.mp hi)) hg⟩

/-- The same in a scope of the lock. -/
theorem Attempts.isolates_withLock_iff {mtx : Mutex} {s : σ} (h : Attempts leave ok P f) (hs : P s)
    (his : is.Perm members) (hm : m ⟨s, true⟩ = is.forM f ⟨s, true⟩) :
    Isolates leave members (withLock mtx m) ⟨s, false⟩ ↔ ∀ i ∈ members, ok i = true := by
  constructor
  · -- a failing member ends the loop with its exception
    rintro ⟨is', -, hrun⟩ i hi
    by_contra hfail
    obtain ⟨e, g', hthrew⟩ :=
      h.forM_error (g := ⟨s, true⟩) (his.mem_iff.mpr hi) (by simpa using hfail) hs
    rw [withLock_free m rfl, hm, hthrew] at hrun
    cases e with
    | exception e => exact absurd hrun (by simp)
    | deadlock => exact absurd hrun (by simp)
  · intro hok
    refine ⟨is, his, withLock_ok ⟨leave is s, true⟩ rfl ?_⟩
    exact hm.trans (h.forM_ok (g := ⟨s, true⟩) (fun i hi => hok i (his.mem_iff.mp hi)) hs)

end Call

end SctpSandbox

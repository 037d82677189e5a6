import Mathlib.Logic.Function.Basic

/-! # Threads over a shared state

A pool of threads takes atomic steps in any order: at each step one thread, from its control point
and with some input of its surroundings, changes the shared state and moves on. `Interleaves` is
the states reached by all the orders; `Interleaves.invariant` is the rule for invariants of the
whole pool. -/

namespace SctpSandbox

/-- A shared state and the control point of every thread. -/
structure Pool (ι σ κ : Type) where
  shared : σ
  pc : ι → κ

namespace Pool

variable {ι σ κ ε : Type} [DecidableEq ι]

/-- Thread `i` moves to a control point and leaves a shared state. -/
def set (p : Pool ι σ κ) (i : ι) (r : κ × σ) : Pool ι σ κ :=
  ⟨r.2, Function.update p.pc i r.1⟩

/-- After a step the shared state is the one it made. -/
@[simp] theorem shared_set (p : Pool ι σ κ) (i : ι) (r : κ × σ) : (p.set i r).shared = r.2 := rfl

/-- After a step its own thread stands where the step put it. -/
@[simp] theorem pc_set_self (p : Pool ι σ κ) (i : ι) (r : κ × σ) : (p.set i r).pc i = r.1 :=
  Function.update_self _ _ _

/-- A step leaves the other threads where they stood. -/
theorem pc_set_ne (p : Pool ι σ κ) {i j : ι} (r : κ × σ) (h : j ≠ i) :
    (p.set i r).pc j = p.pc j := Function.update_of_ne h _ _

/-- The threads `is` are at their start, the others do not exist. -/
def started (idle start : κ) (is : List ι) (s : σ) : Pool ι σ κ :=
  ⟨s, fun i => if i ∈ is then start else idle⟩

/-- After the start a thread is idle or one of those started. -/
theorem pc_started (idle start : κ) (is : List ι) (s : σ) (i : ι) :
    (started idle start is s).pc i = idle ∨
      i ∈ is ∧ (started idle start is s).pc i = start := by
  by_cases h : i ∈ is
  · exact .inr ⟨h, if_pos h⟩
  · exact .inl (if_neg h)

/-- What holds at the new control point and at the old ones of the others holds at all. -/
theorem forall_pc_set {p : Pool ι σ κ} {i : ι} {r : κ × σ} {P : ι → κ → Prop} (hself : P i r.1)
    (h : ∀ j, j ≠ i → P j (p.pc j)) (j : ι) : P j ((p.set i r).pc j) := by
  by_cases heq : j = i
  · rw [heq, pc_set_self]
    exact hself
  · rw [pc_set_ne _ _ heq]
    exact h j heq

/-- A step that changes nothing. -/
theorem set_self (p : Pool ι σ κ) (i : ι) : p.set i (p.pc i, p.shared) = p := by
  obtain ⟨s, pc⟩ := p
  rw [set, Function.update_eq_self]

/-- `Interleaves act ok p p'`: some threads take some steps, one after the other, and lead from `p`
to `p'`. `act i e k s` is the step of thread `i` from control point `k` on input `e`, and `ok` says
which steps can be taken. -/
inductive Interleaves (act : ι → ε → κ → σ → κ × σ) (ok : ι → ε → κ → σ → Prop) :
    Pool ι σ κ → Pool ι σ κ → Prop
  | refl (p : Pool ι σ κ) : Interleaves act ok p p
  | step {p q : Pool ι σ κ} (i : ι) (e : ε) : Interleaves act ok p q → ok i e (q.pc i) q.shared →
      Interleaves act ok p (q.set i (act i e (q.pc i) q.shared))

/-- **The invariant rule**: what holds at the start and is kept by every step of every thread holds
in every state reached. -/
theorem Interleaves.invariant {act : ι → ε → κ → σ → κ × σ} {ok : ι → ε → κ → σ → Prop}
    {p q : Pool ι σ κ} {I : Pool ι σ κ → Prop} (h : Interleaves act ok p q) (hp : I p)
    (hstep : ∀ (q : Pool ι σ κ) i e, I q → ok i e (q.pc i) q.shared →
      I (q.set i (act i e (q.pc i) q.shared))) : I q := by
  induction h with
  | refl => exact hp
  | step i e _ hok ih => exact hstep _ i e ih hok

/-- A thread at a control point without steps stays there. -/
theorem Interleaves.pc_eq {act : ι → ε → κ → σ → κ × σ} {ok : ι → ε → κ → σ → Prop}
    {p q : Pool ι σ κ} {i : ι} {k : κ} (h : Interleaves act ok p q)
    (hstay : ∀ e s, (act i e k s).1 = k) (hp : p.pc i = k) : q.pc i = k := by
  -- the steps of other threads do not move it, its own leave it in place
  refine h.invariant (I := fun q => q.pc i = k) hp fun q j e hq _ => ?_
  by_cases hj : i = j
  · subst hj
    rw [pc_set_self, hq]
    exact hstay e q.shared
  · rw [pc_set_ne _ _ hj]
    exact hq

/-- The steps of a schedule, one after the other. -/
def steps (act : ι → ε → κ → σ → κ × σ) : List (ι × ε) → Pool ι σ κ → Pool ι σ κ
  | [], p => p
  | (i, e) :: es, p => steps act es (p.set i (act i e (p.pc i) p.shared))

/-- Every step of a schedule can be taken. -/
def StepsOk (act : ι → ε → κ → σ → κ × σ) (ok : ι → ε → κ → σ → Prop) :
    List (ι × ε) → Pool ι σ κ → Prop
  | [], _ => True
  | (i, e) :: es, p =>
      ok i e (p.pc i) p.shared ∧ StepsOk act ok es (p.set i (act i e (p.pc i) p.shared))

/-- Where every step can be taken, so can those of a schedule. -/
theorem StepsOk.of_forall {act : ι → ε → κ → σ → κ × σ} {ok : ι → ε → κ → σ → Prop}
    (es : List (ι × ε)) (p : Pool ι σ κ) (h : ∀ e ∈ es, ∀ k s, ok e.1 e.2 k s) :
    StepsOk act ok es p := by
  induction es generalizing p with
  | nil => trivial
  | cons e es ih =>
      exact ⟨h e List.mem_cons_self _ _, ih _ fun e' he' => h e' (List.mem_cons_of_mem e he')⟩

/-- An interleaving may be continued by a schedule whose steps are allowed. -/
theorem Interleaves.steps {act : ι → ε → κ → σ → κ × σ} {ok : ι → ε → κ → σ → Prop}
    {p q : Pool ι σ κ} {es : List (ι × ε)} (h : Interleaves act ok p q)
    (hok : StepsOk act ok es q) : Interleaves act ok p (Pool.steps act es q) := by
  induction es generalizing q with
  | nil => exact h
  | cons e es ih => exact ih (h.step e.1 e.2 hok.1) hok.2

end Pool

end SctpSandbox

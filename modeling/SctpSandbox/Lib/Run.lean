import Mathlib.Data.List.Infix
import Mathlib.Data.Set.Basic

/-! # Runs of a system whose steps may throw

A step answers an event with the state it leaves, by a normal return or by a throw. A run is a
sequence of events whose steps return; a throw ends it. The admissible steps of a run are cut down
by a guard on the state before the step and the event, so the same notion states the runs an
environment can produce and the runs all of whose steps meet some further condition. -/

namespace SctpSandbox

variable {σ ε : Type*}

/-- What a call that may throw leaves behind: the state at its return, or at its throw. -/
inductive Outcome (σ : Type*) where
  /-- The call returned normally. -/
  | returned (s : σ)
  /-- An exception left the call. -/
  | threw (s : σ)
  deriving DecidableEq

namespace Outcome

/-- The state a call leaves, however it ended. -/
def state : Outcome σ → σ
  | .returned s => s
  | .threw s => s

@[simp] theorem state_returned (s : σ) : (returned s).state = s := rfl

@[simp] theorem state_threw (s : σ) : (threw s).state = s := rfl

/-- Sequencing: the continuation runs only after a normal return. -/
def andThen : Outcome σ → (σ → Outcome σ) → Outcome σ
  | .returned s, k => k s
  | .threw s, _ => .threw s

/-- What follows a return gets its state. -/
@[simp] theorem andThen_returned (s : σ) (k : σ → Outcome σ) : (returned s).andThen k = k s := rfl

/-- Nothing follows an exception. -/
@[simp] theorem andThen_threw (s : σ) (k : σ → Outcome σ) :
    (threw s).andThen k = threw s := rfl

/-- Apply a function to the state a call leaves, however it ended. -/
def map (f : σ → σ) : Outcome σ → Outcome σ
  | .returned s => .returned (f s)
  | .threw s => .threw (f s)

/-- A change of the state commutes with reading it off the outcome. -/
@[simp] theorem state_map (f : σ → σ) (o : Outcome σ) : (o.map f).state = f o.state := by
  cases o with
  | returned s => rfl
  | threw s => rfl

/-- A property of the state that the first call and, from each state it returns, the continuation
keep is kept by their sequence. -/
theorem andThen_state {P : σ → Prop} {o : Outcome σ} {k : σ → Outcome σ} (ho : P o.state)
    (hk : ∀ s, P s → P (k s).state) : P (o.andThen k).state := by
  cases o with
  | returned s => exact hk s ho
  | threw s => exact ho

/-- Run one call for each element of a list, in order, until one throws. -/
def forEach {α : Type*} (f : α → σ → Outcome σ) : List α → σ → Outcome σ
  | [], s => .returned s
  | a :: as, s => (f a s).andThen (forEach f as)

/-- A loop is its first round and the others. -/
theorem forEach_cons {α : Type*} (f : α → σ → Outcome σ) (a : α) (as : List α) (s : σ) :
    forEach f (a :: as) s = (f a s).andThen (forEach f as) := rfl

/-- Loops in a row. -/
theorem forEach_append {α : Type*} (f : α → σ → Outcome σ) (as bs : List α) (s : σ) :
    forEach f (as ++ bs) s = (forEach f as s).andThen (forEach f bs) := by
  induction as generalizing s with
  | nil => rfl
  | cons a as ih =>
      rw [List.cons_append, forEach_cons, forEach_cons]
      cases f a s with
      | returned t => exact ih t
      | threw t => rfl

/-- A loop whose calls do what those of another loop do. -/
theorem forEach_congr {α : Type*} {f f' : α → σ → Outcome σ} {as : List α}
    (h : ∀ a ∈ as, ∀ s, f a s = f' a s) (s : σ) : forEach f as s = forEach f' as s := by
  induction as generalizing s with
  | nil => rfl
  | cons a as ih =>
      rw [forEach_cons, forEach_cons, h a List.mem_cons_self]
      congr 1
      funext t
      exact ih (fun b hb => h b (List.mem_cons_of_mem a hb)) t

/-- A loop with a call that throws from every state. -/
theorem forEach_threw {α : Type*} {f : α → σ → Outcome σ} {as : List α} {a : α} (ha : a ∈ as)
    (hf : ∀ s, ∃ s', f a s = .threw s') (s : σ) : ∃ s', forEach f as s = .threw s' := by
  induction as generalizing s with
  | nil => exact absurd ha List.not_mem_nil
  | cons b bs ih =>
      rw [forEach_cons]
      cases hb : f b s with
      | threw t => exact ⟨t, rfl⟩
      | returned t =>
          -- the call that throws is behind the first
          refine ih ((List.mem_cons.mp ha).resolve_left ?_) t
          rintro rfl
          obtain ⟨s', hs'⟩ := hf s
          exact absurd (hb.symm.trans hs') (by simp)

/-- The loop rule: what every call of the loop keeps, the loop keeps. -/
theorem forEach_state {α : Type*} {P : σ → Prop} {f : α → σ → Outcome σ} {as : List α} {s : σ}
    (hs : P s) (hf : ∀ a ∈ as, ∀ t, P t → P (f a t).state) : P (forEach f as s).state := by
  -- by induction on the list, from any state the loop has reached
  induction as generalizing s with
  | nil => exact hs
  | cons a as ih =>
      rw [forEach_cons]
      refine andThen_state (hf a List.mem_cons_self s hs) fun t ht => ih ht fun b hb => ?_
      exact hf b (List.mem_cons_of_mem a hb)

/-- The postcondition of a call that may throw: `I` of the state it returns, `P` of the state at its
throw. -/
def Ends (I P : σ → Prop) : Outcome σ → Prop
  | .returned s => I s
  | .threw s => P s

/-- A property of the last state holds however the call ends. -/
theorem ends_of_state {P : σ → Prop} {o : Outcome σ} (h : P o.state) : o.Ends P P := by
  cases o with
  | returned s => exact h
  | threw s => exact h

/-- A property of both ends holds of the last state. -/
theorem Ends.state {P : σ → Prop} {o : Outcome σ} (h : o.Ends P P) : P o.state := by
  cases o with
  | returned s => exact h
  | threw s => exact h

/-- The rule of consequence for both ends. -/
theorem Ends.imp {I J P Q : σ → Prop} {o : Outcome σ} (ho : o.Ends I P) (hI : ∀ s, I s → J s)
    (hP : ∀ s, P s → Q s) : o.Ends J Q := by
  cases o with
  | returned s => exact hI s ho
  | threw s => exact hP s ho

/-- The call returns. -/
abbrev Returns (o : Outcome σ) : Prop := o.Ends (fun _ => True) fun _ => False

/-- What a call leaves that returns. -/
theorem Ends.of_returns {I P : σ → Prop} {o : Outcome σ} (ho : o.Ends I P) (h : o.Returns) :
    I o.state := by
  cases o with
  | returned s => exact ho
  | threw s => exact absurd h id

/-- The sequencing rule. -/
theorem Ends.andThen {I J P : σ → Prop} {o : Outcome σ} {k : σ → Outcome σ} (ho : o.Ends I P)
    (hk : ∀ s, I s → (k s).Ends J P) : (o.andThen k).Ends J P := by
  cases o with
  | returned s => exact hk s ho
  | threw s => exact ho

/-- Each call of the loop, in the state it starts from, meets `ok`. -/
def EachMeets {α : Type*} (ok : α → σ → Prop) (f : α → σ → Outcome σ) : List α → σ → Prop
  | [], _ => True
  | a :: as, s => ok a s ∧ ∀ s', f a s = .returned s' → EachMeets ok f as s'

/-- Rounds that meet two conditions meet both together. -/
theorem EachMeets.and {α : Type*} {ok ok' : α → σ → Prop} {f : α → σ → Outcome σ} {as : List α}
    {s : σ} (h : EachMeets ok f as s) (h' : EachMeets ok' f as s) :
    EachMeets (fun a s => ok a s ∧ ok' a s) f as s := by
  induction as generalizing s with
  | nil => trivial
  | cons a as ih => exact ⟨⟨h.1, h'.1⟩, fun s' hs' => ih (h.2 s' hs') (h'.2 s' hs')⟩

/-- Rounds that meet a condition meet a weaker one. -/
theorem EachMeets.imp {α : Type*} {ok ok' : α → σ → Prop} {f : α → σ → Outcome σ} {as : List α}
    {s : σ} (h : EachMeets ok f as s) (himp : ∀ a s, ok a s → ok' a s) : EachMeets ok' f as s := by
  induction as generalizing s with
  | nil => trivial
  | cons a as ih => exact ⟨himp a s h.1, fun s' hs' => ih (h.2 s' hs')⟩

/-- The condition of the rounds may be rewritten. -/
theorem EachMeets.congr {α : Type*} {ok ok' : α → σ → Prop} {f : α → σ → Outcome σ} {as : List α}
    {s : σ} (h : ∀ a s, ok a s ↔ ok' a s) : EachMeets ok f as s ↔ EachMeets ok' f as s := by
  induction as generalizing s with
  | nil => exact Iff.rfl
  | cons a as ih => exact and_congr (h a s) (forall₂_congr fun _ _ => ih)

/-- The loop rule for a loop whose calls meet a condition. -/
theorem forEach_ends {α : Type*} {I P : σ → Prop} {ok : α → σ → Prop} {f : α → σ → Outcome σ}
    {as : List α} {s : σ} (hs : I s) (hok : EachMeets ok f as s)
    (hf : ∀ a t, I t → ok a t → (f a t).Ends I P) : (forEach f as s).Ends I P := by
  induction as generalizing s with
  | nil => exact hs
  | cons a as ih =>
      have ha := hf a s hs hok.1
      rw [forEach_cons]
      cases hfa : f a s with
      | returned t => exact ih (by rwa [hfa] at ha) (hok.2 t hfa)
      | threw t => rwa [hfa] at ha

/-- The loop rule for a loop whose calls keep `I` without a condition. -/
theorem forEach_keeps {α : Type*} {I P : σ → Prop} {f : α → σ → Outcome σ} (as : List α) {s : σ}
    (hs : I s) (hf : ∀ a t, I t → (f a t).Ends I P) : (forEach f as s).Ends I P := by
  induction as generalizing s with
  | nil => exact hs
  | cons a as ih =>
      rw [forEach_cons]
      exact (hf a s hs).andThen fun t ht => ih ht

/-- **The covering rule**: what the call for an element establishes, and every later call keeps,
holds of all elements when the loop returns. -/
theorem forEach_covers {α : Type*} {I : σ → Prop} {P : α → σ → Prop} {f : α → σ → Outcome σ}
    {as : List α} {s s' : σ} (hs : I s) (inv : ∀ a t t', I t → f a t = .returned t' → I t')
    (gain : ∀ a t t', I t → f a t = .returned t' → P a t')
    (keep : ∀ a b t t', I t → P a t → f b t = .returned t' → P a t')
    (h : forEach f as s = .returned s') : ∀ a ∈ as, P a s' := by
  -- what holds of some elements before the rest of the loop holds of them behind it
  have hrest : ∀ (bs : List α) (t : σ), I t → forEach f bs t = .returned s' →
      ∀ a, P a t → P a s' := by
    intro bs
    induction bs with
    | nil =>
        intro t _ ht a ha
        exact returned.inj ht ▸ ha
    | cons b bs ih =>
        intro t hI ht a ha
        rw [forEach_cons] at ht
        cases hb : f b t with
        | returned u =>
            rw [hb] at ht
            exact ih u (inv b t u hI hb) ht a (keep a b t u hI ha hb)
        | threw u => exact absurd (hb ▸ ht) (by simp)
  induction as generalizing s with
  | nil => exact fun a ha => absurd ha List.not_mem_nil
  | cons b bs ih =>
      rw [forEach_cons] at h
      cases hb : f b s with
      | returned t =>
          rw [hb] at h
          have hI := inv b s t hs hb
          intro a ha
          rcases List.mem_cons.mp ha with rfl | ha
          · exact hrest bs t hI h a (gain a s t hs hb)
          · exact ih hI h a ha
      | threw t => exact absurd (hb ▸ h) (by simp)

/-- Either every call of the loop meets the condition, or one does not, and what that one brings
about is not undone by the others. -/
theorem eachMeets_or_state {α : Type*} {I Q : σ → Prop} {ok : α → σ → Prop} {f : α → σ → Outcome σ}
    (as : List α) {s : σ} (hs : I s) (keep : ∀ a t, I t → ok a t → I (f a t).state)
    (bad : ∀ a t, I t → ¬ ok a t → Q (f a t).state) (stay : ∀ a t, Q t → Q (f a t).state) :
    EachMeets ok f as s ∨ Q (forEach f as s).state := by
  induction as generalizing s with
  | nil => exact .inl trivial
  | cons a as ih =>
      rw [forEach_cons]
      -- as long as the rounds meet the condition, `I` goes along
      by_cases ha : ok a s
      · have hI := keep a s hs ha
        cases hfa : f a s with
        | returned t =>
            rw [hfa] at hI
            refine (ih hI).imp_left fun hrest => ⟨ha, fun s' hs' => ?_⟩
            obtain rfl := returned.inj (hfa.symm.trans hs')
            exact hrest
        | threw t => exact .inl ⟨ha, fun s' hs' => absurd (hfa.symm.trans hs') (by simp)⟩
      · exact .inr (andThen_state (bad a s hs ha) fun t ht =>
          forEach_state ht fun b _ t ht => stay b t ht)

/-- **The exact loop rule**: where a call keeps `J` exactly if it meets the condition, and no call
restores `J`, the loop keeps `J` exactly if all its calls meet the condition. -/
theorem forEach_state_iff {α : Type*} {I J : σ → Prop} {ok : α → σ → Prop} {f : α → σ → Outcome σ}
    (as : List α) {s : σ} (hI : I s) (hJ : J s) (keep : ∀ a t, I t → I (f a t).state)
    (tight : ∀ a t, I t → J t → (J (f a t).state ↔ ok a t))
    (stay : ∀ a t, ¬ J t → ¬ J (f a t).state) :
    J (forEach f as s).state ↔ EachMeets ok f as s := by
  constructor
  · intro h
    have hmeets : EachMeets ok f as s ∨ ¬ J (forEach f as s).state :=
      -- the first round that fails the condition breaks `J` for good
      eachMeets_or_state (I := fun t => I t ∧ J t) as ⟨hI, hJ⟩
        (fun a t ht ha => ⟨keep a t ht.1, (tight a t ht.1 ht.2).mpr ha⟩)
        (fun a t ht ha h => ha ((tight a t ht.1 ht.2).mp h)) stay
    exact hmeets.resolve_right (not_not_intro h)
  · intro h
    have hends : (forEach f as s).Ends (fun t => I t ∧ J t) fun t => I t ∧ J t :=
      forEach_ends ⟨hI, hJ⟩ h fun a t ht ha =>
        ends_of_state ⟨keep a t ht.1, (tight a t ht.1 ht.2).mpr ha⟩
    exact hends.state.2

end Outcome

/-- `Run step ok s es s'`: the events `es`, each taken in a state that allows it, lead from `s` to
`s'`. Only the last step may throw. -/
inductive Run (step : σ → ε → Outcome σ) (ok : σ → ε → Prop) : σ → List ε → σ → Prop
  | nil (s : σ) : Run step ok s [] s
  | cons {s s₁ s' : σ} {e : ε} {es : List ε} :
      ok s e → step s e = .returned s₁ → Run step ok s₁ es s' → Run step ok s (e :: es) s'
  | threw {s s' : σ} {e : ε} : ok s e → step s e = .threw s' → Run step ok s [e] s'

namespace Run

variable {step : σ → ε → Outcome σ} {ok ok' : σ → ε → Prop} {s s' : σ} {es : List ε}

/-- The invariant rule for runs that may end in a throw. `I` is kept by every returning step; at a
throw only the weaker `P` has to hold, which is then what is known of the last state. -/
theorem invariant {I P : σ → Prop} (h : Run step ok s es s') (h₀ : I s)
    (weaken : ∀ s, I s → P s) (hstep : ∀ s e, I s → ok s e → (step s e).Ends I P) : P s' := by
  -- only the last step of a run may throw, so `I` holds up to it
  induction h with
  | nil s => exact weaken s h₀
  | cons hg hs _ ih =>
      have hend := hstep _ _ h₀ hg
      rw [hs] at hend
      exact ih hend
  | threw hg hs =>
      have hend := hstep _ _ h₀ hg
      rwa [hs] at hend

/-- The runs of a system are those of one that allows more. -/
theorem imp (h : Run step ok s es s') (himp : ∀ s e, ok s e → ok' s e) : Run step ok' s es s' := by
  induction h with
  | nil s => exact .nil s
  | cons hok hs _ ih => exact .cons (himp _ _ hok) hs ih
  | threw hok hs => exact .threw (himp _ _ hok) hs

/-- The invariant rule when a throw keeps the invariant as well. -/
theorem invariant_state {I : σ → Prop} (h : Run step ok s es s') (h₀ : I s)
    (hstep : ∀ s e, I s → ok s e → I (step s e).state) : I s' :=
  h.invariant h₀ (fun _ hi => hi) fun s e hi hg => Outcome.ends_of_state (hstep s e hi hg)

/-- The state that some events lead to. -/
def follow (step : σ → ε → Outcome σ) : σ → List ε → σ
  | s, [] => s
  | s, e :: es => follow step (step s e).state es

/-- Each of some events may happen in the state that the ones before it lead to. -/
def Allows (step : σ → ε → Outcome σ) (ok : σ → ε → Prop) : σ → List ε → Prop
  | _, [] => True
  | s, e :: es => ok s e ∧ Allows step ok (step s e).state es

instance decidableAllows [∀ s e, Decidable (ok s e)] : ∀ s es, Decidable (Allows step ok s es)
  | _, [] => isTrue trivial
  | s, e :: es => @instDecidableAnd _ _ _ (decidableAllows (step s e).state es)

/-- A run of a system whose steps never throw. -/
theorem of_allows (hret : ∀ s e, step s e = .returned (step s e).state)
    (h : Allows step ok s es) : Run step ok s es (follow step s es) := by
  induction es generalizing s with
  | nil => exact .nil s
  | cons e es ih => exact .cons h.1 (hret s e) (ih h.2)

/-- `P` holds in every state that the events `es` lead through from `s`. -/
def Throughout (step : σ → ε → Outcome σ) (ok : σ → ε → Prop) (P : σ → Prop) (s : σ)
    (es : List ε) : Prop :=
  ∀ es₁ s₁, es₁ <+: es → Run step ok s es₁ s₁ → P s₁

/-- A step is a function of the state and the event, so the first events of a run take the steps
that they take in the run. -/
theorem of_prefix {es₁ : List ε} {s₁ : σ} (h : Run step ok' s es s') (hpre : es₁ <+: es)
    (hrun : Run step ok s es₁ s₁) : Run step ok' s es₁ s₁ := by
  induction h generalizing es₁ with
  | nil s =>
      obtain rfl := List.prefix_nil.mp hpre
      cases hrun
      exact .nil _
  | cons hok' hs _ ih =>
      cases hrun with
      | nil => exact .nil _
      | cons hok hs₁ hrun₁ =>
          obtain ⟨rfl, hpre'⟩ := List.cons_prefix_cons.mp hpre
          -- both take the same step
          obtain rfl := Outcome.returned.inj (hs.symm.trans hs₁)
          exact .cons hok' hs (ih hpre' hrun₁)
      | threw hok hs₁ =>
          obtain ⟨rfl, -⟩ := List.cons_prefix_cons.mp hpre
          exact absurd (hs.symm.trans hs₁) (by simp)
  | threw hok' hs =>
      cases hrun with
      | nil => exact .nil _
      | cons hok hs₁ hrun₁ =>
          obtain ⟨rfl, -⟩ := List.cons_prefix_cons.mp hpre
          exact absurd (hs.symm.trans hs₁) (by simp)
      | threw hok hs₁ =>
          obtain ⟨rfl, -⟩ := List.cons_prefix_cons.mp hpre
          obtain rfl := Outcome.threw.inj (hs.symm.trans hs₁)
          exact .threw hok' hs

section Guard

variable {I P : σ → Prop} {guard : σ → ε → Prop}

/-- **The exact guard rule**: where a step keeps `P` exactly when it meets the guard, a run goes
through states with `P` only exactly when all its steps meet the guard. -/
theorem throughout_iff (h : Run step ok s es s') (h₀ : I s) (weaken : ∀ s, I s → P s)
    (keep : ∀ s e, I s → ok s e → guard s e → I (step s e).state)
    (tight : ∀ s e, I s → ok s e → P (step s e).state → guard s e) :
    Throughout step ok P s es ↔ Run step (fun s e => ok s e ∧ guard s e) s es s' := by
  constructor
  · intro hall
    induction h with
    | nil s => exact .nil s
    | @cons s s₁ s' e es hok hs hrun ih =>
        have hp : P (step s e).state := by
          rw [hs]
          -- the first event alone is a run
          exact hall [e] s₁ (by simp) (.cons hok hs (.nil s₁))
        have hguard := tight s e h₀ hok hp
        have hkeep := keep s e h₀ hok hguard
        rw [hs] at hkeep
        refine .cons ⟨hok, hguard⟩ hs (ih hkeep fun es₁ s₂ hpre hrun₁ => ?_)
        exact hall (e :: es₁) s₂ (List.cons_prefix_cons.mpr ⟨rfl, hpre⟩) (.cons hok hs hrun₁)
    | @threw s s' e hok hs =>
        have hp : P (step s e).state := by
          rw [hs]
          exact hall [e] s' (List.prefix_refl _) (.threw hok hs)
        exact .threw ⟨hok, tight s e h₀ hok hp⟩ hs
  · intro hg es₁ s₁ hpre hrun
    have hend : I s₁ := (hg.of_prefix hpre hrun).invariant_state h₀
      fun s e hs hok => keep s e hs hok.1 hok.2
    exact weaken s₁ hend

/-- Either every step of a run meets the guard, which keeps `I`, or one does not, and what that one
brings about is not undone by the others. -/
theorem meets_or_state {J : σ → Prop} (h : Run step ok s es s') (h₀ : I s)
    (keep : ∀ s e, I s → ok s e → guard s e → I (step s e).state)
    (bad : ∀ s e, I s → ok s e → ¬ guard s e → J (step s e).state)
    (stay : ∀ s e, J s → ok s e → J (step s e).state) :
    (Run step (fun s e => ok s e ∧ guard s e) s es s' ∧ I s') ∨ J s' := by
  -- once the guard has failed, `J` holds and stays
  induction h with
  | nil s => exact .inl ⟨.nil s, h₀⟩
  | @cons s s₁ s' e es hok hs hrun ih =>
      by_cases hguard : guard s e
      · have hkeep := keep s e h₀ hok hguard
        rw [hs] at hkeep
        exact (ih hkeep).imp_left fun hrest => ⟨.cons ⟨hok, hguard⟩ hs hrest.1, hrest.2⟩
      · have hbad := bad s e h₀ hok hguard
        rw [hs] at hbad
        exact .inr (hrun.invariant_state hbad stay)
  | @threw s s' e hok hs =>
      by_cases hguard : guard s e
      · have hkeep := keep s e h₀ hok hguard
        rw [hs] at hkeep
        exact .inl ⟨.threw ⟨hok, hguard⟩ hs, hkeep⟩
      · have hbad := bad s e h₀ hok hguard
        rw [hs] at hbad
        exact .inr hbad

/-- **The exact rule for the last state**: where a step keeps `J` exactly if it meets the guard, and
no step restores `J`, a run ends with `J` exactly if all its steps meet the guard. -/
theorem state_iff {J : σ → Prop} (h : Run step ok s es s') (h₀ : I s) (hJ : J s)
    (keep : ∀ s e, I s → ok s e → I (step s e).state)
    (tight : ∀ s e, I s → J s → ok s e → (J (step s e).state ↔ guard s e))
    (stay : ∀ s e, I s → ¬ J s → ok s e → ¬ J (step s e).state) :
    J s' ↔ Run step (fun s e => ok s e ∧ guard s e) s es s' := by
  constructor
  · intro hend
    -- a step that does not meet the guard would have left `J` for good
    have hmeets := h.meets_or_state (I := fun s => I s ∧ J s) (J := fun s => I s ∧ ¬ J s) ⟨h₀, hJ⟩
      (fun s e hs hok hg => ⟨keep s e hs.1 hok, (tight s e hs.1 hs.2 hok).mpr hg⟩)
      (fun s e hs hok hg => ⟨keep s e hs.1 hok, fun hj => hg ((tight s e hs.1 hs.2 hok).mp hj)⟩)
      fun s e hs hok => ⟨keep s e hs.1 hok, stay s e hs.1 hs.2 hok⟩
    exact (hmeets.resolve_right fun hleft => hleft.2 hend).1
  · intro hg
    have hend : I s' ∧ J s' := hg.invariant_state (I := fun s => I s ∧ J s) ⟨h₀, hJ⟩
      fun s e hs hok => ⟨keep s e hs.1 hok.1, (tight s e hs.1 hs.2 hok.1).mpr hok.2⟩
    exact hend.2

end Guard

end Run

end SctpSandbox

import Mathlib.Logic.Basic

/-! # Calls on an object guarded by one mutex

A member function, run by one thread, reads and writes its object, may leave by an exception, and
may lock the mutex of the object for a scope. `withLock` is such a scope: the lock is released at
its end however it ends. A second lock by the thread that holds the mutex deadlocks on a plain mutex
and is counted as part of the same scope on a recursive one. `EndsWith` and its rules say that a
call comes to its end with the mutex as it found it. -/

namespace SctpSandbox

/-- How a mutex answers a second lock by the thread that holds it. -/
inductive Mutex where
  | plain
  | recursive
  deriving DecidableEq

/-- Why a call does not return. -/
inductive Stop (ε : Type) where
  /-- It is left by an exception. -/
  | exception (e : ε)
  /-- Its thread waits for a mutex it holds itself. -/
  | deadlock
  deriving DecidableEq

/-- An object and whether the thread holds its mutex. -/
structure Guarded (σ : Type) where
  object : σ
  held : Bool := false

/-- A call on an object. -/
abbrev Call (ε σ α : Type) := EStateM (Stop ε) (Guarded σ) α

namespace Call

variable {ε σ α β ι : Type} {b : Bool} {g : Guarded σ}

/-- Read the object. -/
def this : Call ε σ σ := fun g => .ok g.object g

/-- Write the object. -/
def modifyThis (f : σ → σ) : Call ε σ Unit := fun g => .ok () { g with object := f g.object }

/-- Throw. -/
def raise (e : ε) : Call ε σ α := fun g => .error (.exception e) g

/-- Lock the mutex for the scope `m`. -/
def withLock (mtx : Mutex) (m : Call ε σ α) : Call ε σ α := fun g =>
  if g.held then
    match mtx with
    | .plain => .error .deadlock g
    | .recursive => m g
  else
    match m { g with held := true } with
    | .ok a g' => .ok a { g' with held := false }
    | .error (.exception e) g' => .error (.exception e) { g' with held := false }
    | .error .deadlock g' => .error .deadlock g'

/-- Run `m` in a `try` block; `true` when an exception that `p` selects was caught. -/
def catches (p : ε → Bool) (m : Call ε σ Unit) : Call ε σ Bool := fun g =>
  match m g with
  | .ok _ g' => .ok false g'
  | .error (.exception e) g' => if p e then .ok true g' else .error (.exception e) g'
  | .error .deadlock g' => .error .deadlock g'

/-- The object and its mutex after a call, however it ended. -/
def after : EStateM.Result (Stop ε) (Guarded σ) α → Guarded σ
  | .ok _ g => g
  | .error _ g => g

/-- The call came to its end, by a return or an exception, and left the mutex held or free as `b`
says. -/
def EndsWith (b : Bool) : EStateM.Result (Stop ε) (Guarded σ) α → Prop
  | .ok _ g => g.held = b
  | .error (.exception _) g => g.held = b
  | .error .deadlock _ => False

/-- From a mutex held or free as `b` says, the call comes to its end and leaves it so. -/
def Balanced (b : Bool) (m : Call ε σ α) : Prop := ∀ g, g.held = b → EndsWith b (m g)

/-- Where a call ends with the mutex so, the state says so. -/
theorem EndsWith.held {r : EStateM.Result (Stop ε) (Guarded σ) α} (h : EndsWith b r) :
    (after r).held = b := by
  match r, h with
  | .ok _ _, h => exact h
  | .error (.exception _) _, h => exact h

/-! ## Rules -/

/-- A value touches no mutex. -/
theorem balanced_pure (a : α) : Balanced b (pure a : Call ε σ α) := fun _ hg => hg

/-- A look at the object touches no mutex. -/
theorem balanced_this : Balanced b (this : Call ε σ σ) := fun _ hg => hg

/-- A change of the object touches no mutex. -/
theorem balanced_modifyThis (f : σ → σ) : Balanced b (modifyThis f : Call ε σ Unit) :=
  fun _ hg => hg

/-- An exception touches no mutex by itself. -/
theorem balanced_raise (e : ε) : Balanced b (raise e : Call ε σ α) := fun _ hg => hg

/-- What a sequence does is what its second call does after the first. -/
theorem bind_ok {m : Call ε σ α} {k : α → Call ε σ β} {a : α} {g' : Guarded σ}
    (h : m g = .ok a g') : (m >>= k) g = k a g' := by
  show EStateM.bind m k g = k a g'
  rw [EStateM.bind, h]

/-- What follows a look at the object gets the object. -/
theorem bind_this {k : σ → Call ε σ β} : ((this : Call ε σ σ) >>= k) g = k g.object g := rfl

/-- A loop is its first round and the others. -/
theorem forM_cons (f : ι → Call ε σ PUnit) (i : ι) (is : List ι) :
    (i :: is).forM f = (f i >>= fun _ => is.forM f) := rfl

/-- After a failure nothing follows. -/
theorem bind_error {m : Call ε σ α} {k : α → Call ε σ β} {e : Stop ε} {g' : Guarded σ}
    (h : m g = .error e g') : (m >>= k) g = .error e g' := by
  show EStateM.bind m k g = .error e g'
  rw [EStateM.bind, h]

/-- Calls that end alike are continued alike. -/
theorem bind_of_eq {m m' : Call ε σ α} {k : α → Call ε σ β} {g' : Guarded σ}
    (h : m g = m' g') : (m >>= k) g = (m' >>= k) g' := by
  show EStateM.bind m k g = EStateM.bind m' k g'
  rw [EStateM.bind, EStateM.bind, h]

/-- Two balanced calls in a row are balanced. -/
theorem Balanced.bind {m : Call ε σ α} {k : α → Call ε σ β} (hm : Balanced b m)
    (hk : ∀ a, Balanced b (k a)) : Balanced b (m >>= k) := by
  intro g hg
  -- the first call gives the mutex as `k` needs it, or has failed
  have hend := hm g hg
  cases hmg : m g with
  | ok a g' =>
      rw [hmg] at hend
      rw [bind_ok hmg]
      exact hk a g' hend
  | error e g' =>
      rw [hmg] at hend
      rw [bind_error hmg]
      cases e with
      | exception e => exact hend
      | deadlock => exact hend

/-- A choice between balanced calls is balanced. -/
theorem Balanced.ite {p : Prop} [Decidable p] {m m' : Call ε σ α} (hm : p → Balanced b m)
    (hm' : ¬ p → Balanced b m') : Balanced b (if p then m else m') := by
  split
  case isTrue h => exact hm h
  case isFalse h => exact hm' h

/-- A loop of balanced calls is balanced. -/
theorem balanced_forM {f : ι → Call ε σ PUnit} (is : List ι) (hf : ∀ i ∈ is, Balanced b (f i)) :
    Balanced b (is.forM f) := by
  -- by induction on the list; an exception ends the loop balanced as well
  induction is with
  | nil => exact balanced_pure _
  | cons i is ih =>
      rw [forM_cons]
      refine (hf i List.mem_cons_self).bind fun _ => ih fun j hj => ?_
      exact hf j (List.mem_cons_of_mem i hj)

/-- A balanced call stays balanced under a handler. -/
theorem Balanced.catches {p : ε → Bool} {m : Call ε σ Unit} (hm : Balanced b m) :
    Balanced b (catches p m) := by
  intro g hg
  have hend := hm g hg
  rw [Call.catches]
  cases hmg : m g with
  | ok a g' =>
      rw [hmg] at hend
      exact hend
  | error e g' =>
      rw [hmg] at hend
      cases e with
      -- a caught exception is a return, with the mutex as it was
      | exception e =>
          show EndsWith b (if p e then EStateM.Result.ok true g'
            else EStateM.Result.error (Stop.exception e) g')
          split
          · exact hend
          · exact hend
      | deadlock => exact hend

/-- A scope entered with a free mutex runs with it held and frees it. -/
theorem withLock_free {mtx : Mutex} (m : Call ε σ α) (hg : g.held = false) :
    withLock mtx m g = match m { g with held := true } with
      | .ok a g' => .ok a { g' with held := false }
      | .error (.exception e) g' => .error (.exception e) { g' with held := false }
      | .error .deadlock g' => .error .deadlock g' := by
  unfold withLock
  rw [if_neg (by simp [hg])]

/-- A plain mutex locked twice by one thread is a deadlock. -/
theorem withLock_plain_held (m : Call ε σ α) (hg : g.held = true) :
    withLock .plain m g = .error .deadlock g := if_pos hg

/-- A recursive mutex may be locked again by the thread that holds it. -/
theorem withLock_recursive_held (m : Call ε σ α) (hg : g.held = true) :
    withLock .recursive m g = m g := if_pos hg

/-- **A scope of the lock** takes a free mutex, and gives it back. -/
theorem Balanced.withLock {mtx : Mutex} {m : Call ε σ α} (hm : Balanced true m) :
    Balanced false (withLock mtx m) := by
  intro g hg
  have hend := hm { g with held := true } rfl
  rw [withLock_free m hg]
  cases hmg : m { g with held := true } with
  | ok a g' => exact rfl
  | error e g' =>
      rw [hmg] at hend
      cases e with
      | exception e => exact rfl
      | deadlock => exact hend

/-- A scope inside a scope is harmless on a recursive mutex only. -/
theorem Balanced.withLock_recursive {m : Call ε σ α} (hm : Balanced true m) :
    Balanced true (Call.withLock .recursive m) := by
  intro g hg
  rw [withLock_recursive_held m hg]
  exact hm g hg

/-- A locked call that returns gives the free mutex back. -/
theorem withLock_ok {mtx : Mutex} {m : Call ε σ α} {a : α} (g' : Guarded σ) (hg : g.held = false)
    (hm : m { g with held := true } = .ok a g') :
    withLock mtx m g = .ok a { g' with held := false } := by
  rw [withLock_free m hg, hm]

/-- A scope that returns ran to its end. -/
theorem of_withLock_ok {mtx : Mutex} {m : Call ε σ α} {a : α} {g' : Guarded σ}
    (hg : g.held = false) (h : withLock mtx m g = .ok a g') :
    ∃ g₁, m { g with held := true } = .ok a g₁ ∧ g' = { g₁ with held := false } := by
  rw [withLock_free m hg] at h
  cases hm : m { g with held := true } with
  | ok a' g₁ =>
      rw [hm] at h
      injection h with ha hg'
      exact ⟨g₁, by rw [ha], hg'.symm⟩
  | error e g₁ =>
      rw [hm] at h
      cases e with
      | exception e => exact absurd h (by simp)
      | deadlock => exact absurd h (by simp)

/-- A locked call that throws gives the free mutex back as well. -/
theorem withLock_exception {mtx : Mutex} {m : Call ε σ α} {e : ε} (g' : Guarded σ)
    (hg : g.held = false) (hm : m { g with held := true } = .error (.exception e) g') :
    withLock mtx m g = .error (.exception e) { g' with held := false } := by
  rw [withLock_free m hg, hm]

/-- A free mutex is taken, whatever its kind, and a deadlock inside the scope stays one. -/
theorem withLock_deadlock {mtx : Mutex} {m : Call ε σ α} (g' : Guarded σ) (hg : g.held = false)
    (hm : m { g with held := true } = .error .deadlock g') :
    withLock mtx m g = .error .deadlock g' := by
  rw [withLock_free m hg, hm]

/-! ## What calls keep -/

/-- The call keeps a property of the object, however it ends. -/
def Keeps (P : σ → Prop) (m : Call ε σ α) : Prop := ∀ g, P g.object → P (after (m g)).object

section Keeps

variable {P : σ → Prop}

/-- A value keeps every property of the object. -/
theorem keeps_pure (a : α) : Keeps P (pure a : Call ε σ α) := fun _ hg => hg

/-- A look at the object keeps every property of it. -/
theorem keeps_this : Keeps P (this : Call ε σ σ) := fun _ hg => hg

/-- An exception keeps every property of the object. -/
theorem keeps_raise (e : ε) : Keeps P (raise e : Call ε σ α) := fun _ hg => hg

/-- A change that preserves the property keeps it. -/
theorem keeps_modifyThis {f : σ → σ} (hf : ∀ s, P s → P (f s)) :
    Keeps P (modifyThis f : Call ε σ Unit) := fun g hg => hf g.object hg

/-- Two calls that keep a property keep it in a row. -/
theorem Keeps.bind {m : Call ε σ α} {k : α → Call ε σ β} (hm : Keeps P m)
    (hk : ∀ a, Keeps P (k a)) : Keeps P (m >>= k) := by
  intro g hg
  have hend := hm g hg
  cases hmg : m g with
  | ok a g' =>
      rw [hmg] at hend
      rw [bind_ok hmg]
      exact hk a g' hend
  | error e g' =>
      rw [hmg] at hend
      rw [bind_error hmg]
      exact hend

/-- A choice between calls that keep a property keeps it. -/
theorem Keeps.ite {p : Prop} [Decidable p] {m m' : Call ε σ α} (hm : p → Keeps P m)
    (hm' : ¬ p → Keeps P m') : Keeps P (if p then m else m') := by
  split
  case isTrue h => exact hm h
  case isFalse h => exact hm' h

/-- A call that keeps a property keeps it under a handler. -/
theorem Keeps.catches {p : ε → Bool} {m : Call ε σ Unit} (hm : Keeps P m) :
    Keeps P (catches p m) := by
  intro g hg
  have hend := hm g hg
  rw [Call.catches]
  cases hmg : m g with
  | ok a g' =>
      rw [hmg] at hend
      exact hend
  | error e g' =>
      rw [hmg] at hend
      cases e with
      | exception e =>
          show P (after (if p e then EStateM.Result.ok true g'
            else EStateM.Result.error (Stop.exception e) g')).object
          split
          · exact hend
          · exact hend
      | deadlock => exact hend

/-- A loop keeps a property that each of its rounds keeps. -/
theorem keeps_forM {f : ι → Call ε σ PUnit} (is : List ι) (hf : ∀ i ∈ is, Keeps P (f i)) :
    Keeps P (is.forM f) := by
  induction is with
  | nil => exact keeps_pure _
  | cons i is ih =>
      rw [forM_cons]
      refine (hf i List.mem_cons_self).bind fun _ => ih fun j hj => ?_
      exact hf j (List.mem_cons_of_mem i hj)

/-- The object after a scope is the object at the end of its body. -/
theorem after_withLock_free {mtx : Mutex} (m : Call ε σ α) (hg : g.held = false) :
    (after (withLock mtx m g)).object = (after (m { g with held := true })).object := by
  rw [withLock_free m hg]
  cases m { g with held := true } with
  | ok a g' => rfl
  | error e g' =>
      cases e with
      | exception e => rfl
      | deadlock => rfl

/-- A call that keeps a property keeps it under the mutex. -/
theorem Keeps.withLock {mtx : Mutex} {m : Call ε σ α} (hm : Keeps P m) :
    Keeps P (withLock mtx m) := by
  intro g hg
  -- a plain mutex that is held stops the call before its body
  by_cases hheld : g.held = true
  · cases mtx with
    | plain =>
        rw [withLock_plain_held m hheld]
        exact hg
    | recursive =>
        rw [withLock_recursive_held m hheld]
        exact hm g hg
  · rw [after_withLock_free m (by simpa using hheld)]
    exact hm { g with held := true } hg

end Keeps

/-! ## Sequences of calls -/

/-- Every call of a sequence comes to its end and leaves the mutex free. -/
def CompletesAll (run : ι → Call ε σ α) : List ι → Guarded σ → Prop
  | [], _ => True
  | i :: is, g => EndsWith false (run i g) ∧ CompletesAll run is (after (run i g))

/-- Every call of a sequence meets a condition on its input and the object it starts from. -/
def EachMeets (run : ι → Call ε σ α) (ok : ι → σ → Prop) : List ι → Guarded σ → Prop
  | [], _ => True
  | i :: is, g => ok i g.object ∧ EachMeets run ok is (after (run i g))

/-- **Sequences complete exactly as their calls do**: a condition that decides for every single call
whether it comes to its end decides it for every sequence. -/
theorem completesAll_iff {run : ι → Call ε σ α} {ok : ι → σ → Prop}
    (h : ∀ i g, g.held = false → (EndsWith false (run i g) ↔ ok i g.object)) (is : List ι)
    (hg : g.held = false) : CompletesAll run is g ↔ EachMeets run ok is g := by
  -- each call finds the mutex free, since the one before it came to its end
  induction is generalizing g with
  | nil => exact Iff.rfl
  | cons i is ih =>
      constructor
      · rintro ⟨hend, hrest⟩
        exact ⟨(h i g hg).mp hend, (ih hend.held).mp hrest⟩
      · rintro ⟨hok, hrest⟩
        have hend := (h i g hg).mpr hok
        exact ⟨hend, (ih hend.held).mpr hrest⟩

/-- Sequences of balanced calls complete. -/
theorem completesAll_of_balanced {run : ι → Call ε σ α} (h : ∀ i, Balanced false (run i))
    (is : List ι) (hg : g.held = false) : CompletesAll run is g := by
  induction is generalizing g with
  | nil => trivial
  | cons i is ih =>
      have hend := h i g hg
      exact ⟨hend, ih hend.held⟩

end Call

end SctpSandbox

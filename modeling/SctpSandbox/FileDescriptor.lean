import Mathlib.Data.List.AList
import SctpSandbox.Lib.Run

/-! # File descriptors and who closes them

`FileDescriptor` owns an fd through two fields, the number `fd` and the flag `should_close`; its
move operations copy the number and clear the flag of the source only. A program is a sequence of
operations on any number of such objects. Two laws are examined over whole runs: every adopted fd
reaches `::close`, and no fd has two owners. Both fail on the class as written
(`not_everyAdoptedClosed`, `not_singleOwner`); the exact kind of move that breaks them is isolated
in `KeepsOwner` and `KeepsSingleOwner`. -/

namespace SctpSandbox

/-- `using FD = int`. -/
abbrev FD := ℤ

/-- The class `FileDescriptor`: an fd number and the flag saying that this object closes it. -/
structure FileDescriptor where
  /-- The fd number; a move leaves it in the source. -/
  fd : FD
  /-- `should_close`, true by its default member initialiser. -/
  shouldClose : Bool := true
  deriving DecidableEq

namespace FileDescriptor

/-- `invalid_fd`, the default argument of the constructor. -/
def invalidFd : FD := -1

/-- `close()`: the object afterwards and the fds passed to `::close`. -/
def close (x : FileDescriptor) : FileDescriptor × List FD :=
  if x.shouldClose = true ∧ ¬ x.fd = invalidFd then ({ x with shouldClose := false }, [x.fd])
  else (x, [])

/-- `FileDescriptor(FileDescriptor&& other)`: the new object and what is left of `other`. The new
object's flag comes from the default member initialiser, not from `other`. -/
def moveConstruct (other : FileDescriptor) : FileDescriptor × FileDescriptor :=
  ({ fd := other.fd }, { other with shouldClose := false })

/-- `operator=(FileDescriptor&& other)` for `this != &other`: this object and `other` afterwards,
and the fds passed to `::close`. The flag is the one `close()` leaves. -/
def moveAssign (this other : FileDescriptor) : FileDescriptor × FileDescriptor × List FD :=
  ({ this.close.1 with fd := other.fd }, { other with shouldClose := false }, this.close.2)

/-- The object would pass `n` to `::close`. -/
def Closes (x : FileDescriptor) (n : FD) : Prop :=
  x.shouldClose = true ∧ x.fd = n ∧ n ≠ invalidFd

instance (x : FileDescriptor) (n : FD) : Decidable (x.Closes n) :=
  inferInstanceAs (Decidable (_ ∧ _ ∧ _))

/-- The object still names an fd but has given it away or closed it. -/
def Released (x : FileDescriptor) : Prop := x.shouldClose = false ∧ x.fd ≠ invalidFd

/-- The object holds no fd and would close one assigned to it: a default-constructed one. -/
def Vacant (x : FileDescriptor) : Prop := x.shouldClose = true ∧ x.fd = invalidFd

/-- An owner's `close` closes the descriptor and gives up the duty. -/
theorem close_of_closes {x : FileDescriptor} (h : x.shouldClose = true ∧ ¬ x.fd = invalidFd) :
    x.close = ({ x with shouldClose := false }, [x.fd]) := if_pos h

/-- The `close` of an object that owns nothing does nothing. -/
theorem close_of_not_closes {x : FileDescriptor}
    (h : ¬ (x.shouldClose = true ∧ ¬ x.fd = invalidFd)) : x.close = (x, []) := if_neg h

/-- `close()` calls `::close` on exactly the fd the object would close. -/
theorem mem_close {x : FileDescriptor} {n : FD} : n ∈ x.close.2 ↔ x.Closes n := by
  by_cases h : x.shouldClose = true ∧ ¬ x.fd = invalidFd
  · rw [close_of_closes h, List.mem_singleton]
    constructor
    · rintro rfl
      exact ⟨h.1, rfl, h.2⟩
    · exact fun hn => hn.2.1.symm
  · rw [close_of_not_closes h]
    constructor
    · exact fun hn => absurd hn List.not_mem_nil
    · rintro ⟨hs, rfl, hv⟩
      exact absurd ⟨hs, hv⟩ h

/-- After `close()` the object would close nothing. -/
@[simp] theorem not_closes_close (x : FileDescriptor) (n : FD) : ¬ x.close.1.Closes n := by
  by_cases h : x.shouldClose = true ∧ ¬ x.fd = invalidFd
  · simp [close_of_closes h, Closes]
  · rw [close_of_not_closes h]
    rintro ⟨hs, rfl, hv⟩
    exact h ⟨hs, hv⟩

/-- `close()` leaves the flag set only on an object that held nothing. -/
theorem close_shouldClose (x : FileDescriptor) : x.close.1.shouldClose = true ↔ x.Vacant := by
  by_cases h : x.shouldClose = true ∧ ¬ x.fd = invalidFd
  · simp [close_of_closes h, Vacant, h.2]
  · rw [close_of_not_closes h]
    constructor
    · intro hs
      exact ⟨hs, not_not.mp fun hv => h ⟨hs, hv⟩⟩
    · exact fun hv => hv.1

/-- The new object of a move construction owns the descriptor, whether or not the source did. -/
@[simp] theorem closes_moveConstruct_new (other : FileDescriptor) (n : FD) :
    other.moveConstruct.1.Closes n ↔ other.fd = n ∧ n ≠ invalidFd := by
  simp [moveConstruct, Closes]

/-- The source of a move construction owns nothing afterwards. -/
@[simp] theorem not_closes_moveConstruct_other (other : FileDescriptor) (n : FD) :
    ¬ other.moveConstruct.2.Closes n := by
  simp [moveConstruct, Closes]

/-- The source of a move assignment owns nothing afterwards. -/
@[simp] theorem not_closes_moveAssign_other (this other : FileDescriptor) (n : FD) :
    ¬ (this.moveAssign other).2.1.Closes n := by
  simp [moveAssign, Closes]

/-- An assignment makes its target an owner only when the target was vacant. -/
theorem closes_moveAssign_this (this other : FileDescriptor) (n : FD) :
    (this.moveAssign other).1.Closes n ↔ this.Vacant ∧ other.fd = n ∧ n ≠ invalidFd :=
  and_congr_left' this.close_shouldClose

end FileDescriptor

/-! ## Runs over any number of objects -/

/-- What the kernel sees of the objects: an fd it opened is adopted, or `::close` is called. -/
inductive FdCall where
  | adopted (n : FD)
  | closed (n : FD)
  deriving DecidableEq

/-- Whether `n` is open after the calls, the newest first. -/
def isOpen (n : FD) : List FdCall → Bool
  | [] => false
  | .adopted m :: cs => m = n || isOpen n cs
  | .closed m :: cs => m ≠ n && isOpen n cs

/-- The live objects under their addresses, and the calls made so far, the newest first. -/
structure FdObjects where
  objects : AList fun _ : ℕ => FileDescriptor := ∅
  calls : List FdCall := []

/-- The operations of a program on `FileDescriptor` objects. -/
inductive FdOp where
  /-- `FileDescriptor x{fd}` on an fd just opened. -/
  | adopt (i : ℕ) (n : FD)
  /-- `FileDescriptor x;` -/
  | default (i : ℕ)
  /-- `FileDescriptor x{move(y)}` -/
  | moveConstruct (i j : ℕ)
  /-- `x = move(y)`, also with `x` and `y` the same object. -/
  | moveAssign (i j : ℕ)
  /-- `x.close()` -/
  | close (i : ℕ)
  /-- `~FileDescriptor()` -/
  | destroy (i : ℕ)

namespace FdObjects

variable {s s' : FdObjects} {ops : List FdOp} {i j k : ℕ} {m n : FD} {x this other : FileDescriptor}

/-- Run one operation. Operations on addresses without an object do nothing; `Possible` keeps them
out of every run. -/
def step (s : FdObjects) : FdOp → FdObjects
  | .adopt i n => ⟨s.objects.insert i { fd := n }, .adopted n :: s.calls⟩
  | .default i => { s with objects := s.objects.insert i { fd := FileDescriptor.invalidFd } }
  | .moveConstruct i j =>
      match s.objects.lookup j with
      | some other =>
          { s with objects :=
              (s.objects.insert j other.moveConstruct.2).insert i other.moveConstruct.1 }
      | none => s
  | .moveAssign i j =>
      -- the source compares the addresses first
      if i = j then s
      else match s.objects.lookup i, s.objects.lookup j with
      | some this, some other =>
          ⟨(s.objects.insert j (this.moveAssign other).2.1).insert i (this.moveAssign other).1,
            (this.moveAssign other).2.2.map .closed ++ s.calls⟩
      | _, _ => s
  | .close i =>
      match s.objects.lookup i with
      | some x => ⟨s.objects.insert i x.close.1, x.close.2.map .closed ++ s.calls⟩
      | none => s
  | .destroy i =>
      match s.objects.lookup i with
      | some x => ⟨s.objects.erase i, x.close.2.map .closed ++ s.calls⟩
      | none => s

/-- The operations a program can perform: new objects at free addresses, the others on live
objects, and an adopted fd is one the kernel has just opened. -/
def Possible (s : FdObjects) : FdOp → Prop
  | .adopt i n => i ∉ s.objects ∧ 0 ≤ n ∧ isOpen n s.calls = false
  | .default i => i ∉ s.objects
  | .moveConstruct i j => i ∉ s.objects ∧ j ∈ s.objects
  | .moveAssign i j => i ∈ s.objects ∧ j ∈ s.objects
  | .close i => i ∈ s.objects
  | .destroy i => i ∈ s.objects

instance (s : FdObjects) (op : FdOp) : Decidable (s.Possible op) := by
  cases op <;> unfold Possible <;> infer_instance

/-- Runs of a program on `FileDescriptor` objects all of whose operations meet `ok`. -/
abbrev Runs (ok : FdObjects → FdOp → Prop) : FdObjects → List FdOp → FdObjects → Prop :=
  Run (fun s op => .returned (s.step op)) fun s op => s.Possible op ∧ ok s op

/-- The live object at `i` would close `n`. -/
def Owner (s : FdObjects) (i : ℕ) (n : FD) : Prop := ∃ x, s.objects.lookup i = some x ∧ x.Closes n

/-- Ownership of a registered object is read off the object. -/
theorem owner_of_lookup (h : s.objects.lookup i = some x) : s.Owner i n ↔ x.Closes n := by
  simp [Owner, h]

/-- Storing an object at `i` changes the owners at `i` only. -/
theorem owner_insert (t : AList fun _ : ℕ => FileDescriptor) (cs : List FdCall) :
    (⟨t.insert i x, cs⟩ : FdObjects).Owner k n ↔
      if k = i then x.Closes n else (⟨t, cs⟩ : FdObjects).Owner k n := by
  unfold Owner
  by_cases hk : k = i
  · subst hk
    simp [AList.lookup_insert]
  · simp [AList.lookup_insert_ne hk, hk]

/-- Destroying the object at `i` removes the owner at `i` only. -/
theorem owner_erase (t : AList fun _ : ℕ => FileDescriptor) (cs : List FdCall) :
    (⟨t.erase i, cs⟩ : FdObjects).Owner k n ↔ k ≠ i ∧ (⟨t, cs⟩ : FdObjects).Owner k n := by
  unfold Owner
  by_cases hk : k = i
  · subst hk
    simp [AList.lookup_erase]
  · simp [AList.lookup_erase_ne hk, hk]

/-- After closing what `x` closes, exactly the other open fds are open. -/
theorem isOpen_close (x : FileDescriptor) (cs : List FdCall) (n : FD) :
    isOpen n (x.close.2.map .closed ++ cs) = true ↔ ¬ x.Closes n ∧ isOpen n cs = true := by
  by_cases h : x.shouldClose = true ∧ ¬ x.fd = FileDescriptor.invalidFd
  · rw [← FileDescriptor.mem_close, FileDescriptor.close_of_closes h]
    simp only [List.map_cons, List.map_nil, List.cons_append, List.nil_append, isOpen,
      Bool.and_eq_true, decide_eq_true_eq, List.mem_singleton]
    exact and_congr_left' ne_comm
  · rw [← FileDescriptor.mem_close, FileDescriptor.close_of_not_closes h]
    simp

/-! ### What each operation does on live objects -/

/-- A registered object can be looked up. -/
theorem exists_lookup (h : i ∈ s.objects) : ∃ x, s.objects.lookup i = some x :=
  Option.isSome_iff_exists.mp (AList.lookup_isSome.mpr h)

/-- Nothing outside the register owns. -/
theorem not_owner_of_notMem (h : i ∉ s.objects) : ¬ s.Owner i n := by
  rintro ⟨x, hx, -⟩
  exact h (AList.lookup_isSome.mp (Option.isSome_iff_exists.mpr ⟨x, hx⟩))

/-- The step of a move construction from an existing object. -/
theorem step_moveConstruct (h : s.objects.lookup j = some other) :
    s.step (.moveConstruct i j) = { s with objects :=
      (s.objects.insert j other.moveConstruct.2).insert i other.moveConstruct.1 } := by
  simp only [step, h]

/-- The step of a move assignment between two different objects. -/
theorem step_moveAssign (hij : i ≠ j) (hi : s.objects.lookup i = some this)
    (hj : s.objects.lookup j = some other) :
    s.step (.moveAssign i j) =
      ⟨(s.objects.insert j (this.moveAssign other).2.1).insert i (this.moveAssign other).1,
        this.close.2.map .closed ++ s.calls⟩ := by
  simp only [step, hi, hj, if_neg hij]
  rfl

/-- A move assignment of an object to itself is guarded and changes nothing. -/
theorem step_moveAssign_self : s.step (.moveAssign i i) = s := by
  simp only [step, if_pos]

/-- The step of an explicit close. -/
theorem step_close (h : s.objects.lookup i = some x) :
    s.step (.close i) = ⟨s.objects.insert i x.close.1, x.close.2.map .closed ++ s.calls⟩ := by
  simp only [step, h]

/-- The step of a destructor. -/
theorem step_destroy (h : s.objects.lookup i = some x) :
    s.step (.destroy i) = ⟨s.objects.erase i, x.close.2.map .closed ++ s.calls⟩ := by
  simp only [step, h]

/-- After a construction by move the new object owns what `other` named, and `other` nothing. -/
theorem owner_moveConstruct (h : s.objects.lookup j = some other) :
    (s.step (.moveConstruct i j)).Owner k n ↔
      if k = i then other.fd = n ∧ n ≠ FileDescriptor.invalidFd
      else k ≠ j ∧ s.Owner k n := by
  rw [step_moveConstruct h, owner_insert, owner_insert]
  by_cases hk : k = i
  · simp [hk]
  · by_cases hj : k = j <;> simp [hk, hj]

/-- After an assignment a vacant target owns what `other` named; any other target owns nothing,
and neither does `other`. -/
theorem owner_moveAssign (hij : i ≠ j) (hi : s.objects.lookup i = some this)
    (hj : s.objects.lookup j = some other) :
    (s.step (.moveAssign i j)).Owner k n ↔
      if k = i then this.Vacant ∧ other.fd = n ∧ n ≠ FileDescriptor.invalidFd
      else k ≠ j ∧ s.Owner k n := by
  rw [step_moveAssign hij hi hj, owner_insert, owner_insert]
  by_cases hk : k = i
  · simp [hk, FileDescriptor.closes_moveAssign_this]
  · by_cases hj : k = j
    · simp [hj, hj ▸ hk]
    · simp only [hk, hj, if_false, ne_eq, not_false_iff, true_and]
      exact Iff.rfl

/-- After `close()` the object owns nothing. -/
theorem owner_close (h : s.objects.lookup i = some x) :
    (s.step (.close i)).Owner k n ↔ k ≠ i ∧ s.Owner k n := by
  rw [step_close h, owner_insert]
  by_cases hk : k = i
  · simp [hk]
  · simp only [hk, if_false, ne_eq, not_false_iff, true_and]
    exact Iff.rfl

/-- A destroyed object owns nothing. -/
theorem owner_destroy (h : s.objects.lookup i = some x) :
    (s.step (.destroy i)).Owner k n ↔ k ≠ i ∧ s.Owner k n := by
  rw [step_destroy h, owner_erase]
  exact Iff.rfl

/-! ### No adopted fd is leaked, as long as owners are assigned to vacant objects -/

/-- Every adopted fd was passed to `::close` afterwards. -/
def EveryAdoptedClosed (calls : List FdCall) : Prop :=
  ∀ post pre n, calls = post ++ .adopted n :: pre → .closed n ∈ post

/-- Every open fd would be closed by some live object. -/
def EveryOpenOwned (s : FdObjects) : Prop := ∀ n, isOpen n s.calls = true → ∃ i, s.Owner i n

/-- An assignment from an object that would close the open fd `n` needs a vacant target, unless `n`
is closed by another object all the same. -/
def KeepsOwner (s : FdObjects) : FdOp → Prop
  | .moveAssign i j => i ≠ j → ∀ this other n, s.objects.lookup i = some this →
      s.objects.lookup j = some other → other.Closes n → isOpen n s.calls = true →
      this.Vacant ∨ ∃ k, k ≠ j ∧ s.Owner k n
  | _ => True

/-- An fd adopted and not closed since is open. -/
theorem isOpen_of_adopted {post : List FdCall} (pre : List FdCall) (h : .closed n ∉ post) :
    isOpen n (post ++ .adopted n :: pre) = true := by
  -- by induction on the calls since the adoption
  induction post with
  | nil => simp [isOpen]
  | cons c post ih =>
      rw [List.mem_cons, not_or] at h
      cases c with
      | adopted m => simp [isOpen, ih h.2]
      | closed m =>
          have hm : m ≠ n := fun hmn => h.1 (by rw [hmn])
          simp [isOpen, ih h.2, hm]

/-- Where nothing is open, everything adopted was closed. -/
theorem everyAdoptedClosed_of_not_isOpen {calls : List FdCall}
    (h : ∀ n, isOpen n calls = false) : EveryAdoptedClosed calls := by
  intro post pre n hc
  by_contra hn
  have hopen := isOpen_of_adopted pre hn
  rw [← hc, h n] at hopen
  exact Bool.false_ne_true hopen

/-- An owner that closes what it owns leaves no open fd behind. -/
theorem EveryOpenOwned.close_of_owner (h : s.EveryOpenOwned) (hx : s.objects.lookup i = some x)
    {t : FdObjects} (hcalls : t.calls = x.close.2.map .closed ++ s.calls)
    (hown : ∀ k n, k ≠ i → s.Owner k n → t.Owner k n) : t.EveryOpenOwned := by
  intro n hn
  rw [hcalls, isOpen_close] at hn
  -- `n` is still open, so it is not what `x` owned
  obtain ⟨k, hk⟩ := h n hn.2
  refine ⟨k, hown k n ?_ hk⟩
  rintro rfl
  exact hn.1 ((owner_of_lookup hx).mp hk)

/-- Every open fd keeps an owner through each operation that meets `KeepsOwner`. -/
theorem everyOpenOwned_step {op : FdOp} (h : s.EveryOpenOwned) (hp : s.Possible op)
    (hk : s.KeepsOwner op) : (s.step op).EveryOpenOwned := by
  intro n hn
  cases op with
  | adopt i m =>
      obtain ⟨hi, hm, -⟩ := hp
      -- the new object owns its fd, every other fd keeps its owner
      by_cases hmn : m = n
      · refine ⟨i, (owner_insert _ _).mpr ?_⟩
        rw [if_pos rfl]
        refine ⟨rfl, hmn, ?_⟩
        rintro rfl
        exact absurd (hmn ▸ hm) (by decide)
      · obtain ⟨k, hk⟩ := h n (by simpa [step, isOpen, hmn] using hn)
        refine ⟨k, (owner_insert _ _).mpr ?_⟩
        rw [if_neg fun hki : k = i => not_owner_of_notMem hi (hki ▸ hk)]
        exact hk
  | default i =>
      obtain ⟨k, hk⟩ := h n hn
      refine ⟨k, (owner_insert _ _).mpr ?_⟩
      rw [if_neg fun hki : k = i => not_owner_of_notMem hp (hki ▸ hk)]
      exact hk
  | moveConstruct i j =>
      obtain ⟨other, hother⟩ := exists_lookup hp.2
      rw [step_moveConstruct hother] at hn
      obtain ⟨k, hk⟩ := h n hn
      by_cases hkj : k = j
      · -- the new object takes over from `other`
        have hcl : other.Closes n := (owner_of_lookup hother).mp (hkj ▸ hk)
        refine ⟨i, (owner_moveConstruct hother).mpr ?_⟩
        rw [if_pos rfl]
        exact hcl.2
      · refine ⟨k, (owner_moveConstruct hother).mpr ?_⟩
        rw [if_neg fun hki : k = i => not_owner_of_notMem hp.1 (hki ▸ hk)]
        exact ⟨hkj, hk⟩
  | moveAssign i j =>
      by_cases hij : i = j
      · subst hij
        rw [step_moveAssign_self] at hn ⊢
        exact h n hn
      obtain ⟨this, hthis⟩ := exists_lookup hp.1
      obtain ⟨other, hother⟩ := exists_lookup hp.2
      rw [step_moveAssign hij hthis hother, isOpen_close] at hn
      -- an owner away from the target and the source stays, so it is enough to find one
      have stays : ∀ k, k ≠ j → s.Owner k n → ∃ k, (s.step (.moveAssign i j)).Owner k n := by
        intro k hkj hown
        refine ⟨k, (owner_moveAssign hij hthis hother).mpr ?_⟩
        rw [if_neg fun hki : k = i => hn.1 ((owner_of_lookup hthis).mp (hki ▸ hown))]
        exact ⟨hkj, hown⟩
      obtain ⟨k, hown⟩ := h n hn.2
      by_cases hkj : k = j
      · -- the source owned `n`: the condition names the owner after it
        have hcl : other.Closes n := (owner_of_lookup hother).mp (hkj ▸ hown)
        rcases hk hij this other n hthis hother hcl hn.2 with hv | ⟨k', hk'j, hk'⟩
        · refine ⟨i, (owner_moveAssign hij hthis hother).mpr ?_⟩
          rw [if_pos rfl]
          exact ⟨hv, hcl.2⟩
        · exact stays k' hk'j hk'
      · exact stays k hkj hown
  | close i =>
      obtain ⟨x, hx⟩ := exists_lookup hp
      refine h.close_of_owner hx (by rw [step_close hx]) (fun k n hki hk => ?_) n hn
      exact (owner_close hx).mpr ⟨hki, hk⟩
  | destroy i =>
      obtain ⟨x, hx⟩ := exists_lookup hp
      refine h.close_of_owner hx (by rw [step_destroy hx]) (fun k n hki hk => ?_) n hn
      exact (owner_destroy hx).mpr ⟨hki, hk⟩

/-- The condition is exact: an operation that leaves every open fd with an owner meets it. -/
theorem keepsOwner_of_everyOpenOwned_step {op : FdOp} (h : (s.step op).EveryOpenOwned) :
    s.KeepsOwner op := by
  cases op with
  | moveAssign i j =>
      intro hij this other n hthis hother hcl hn
      by_contra hno
      rw [not_or, not_exists] at hno
      have hunowned : ∀ k, k ≠ j → ¬ s.Owner k n := fun k hkj hk => hno.2 k ⟨hkj, hk⟩
      obtain ⟨k, hk⟩ := h n (by
        rw [step_moveAssign hij hthis hother, isOpen_close]
        exact ⟨fun hc => hunowned i hij ((owner_of_lookup hthis).mpr hc), hn⟩)
      -- the owner after the assignment is the target, or an object that owned `n` before
      have hk' := (owner_moveAssign hij hthis hother).mp hk
      split at hk'
      · exact hno.1 hk'.1
      · exact hunowned k hk'.1 hk'.2
  | _ => trivial

/-- **No leak.** In every run whose assignments from an owner go to vacant objects, once all
objects are destroyed every adopted fd has been passed to `::close`. And an operation on objects
that own every open fd keeps it so exactly if it meets the condition. -/
theorem everyAdoptedClosed_of_run (h : Runs KeepsOwner {} ops s) (hd : s.objects = ∅) :
    EveryAdoptedClosed s.calls ∧ ∀ (t : FdObjects) (op : FdOp), t.EveryOpenOwned → t.Possible op →
      ((t.step op).EveryOpenOwned ↔ t.KeepsOwner op) := by
  refine ⟨?_, fun t op ht hp =>
    ⟨keepsOwner_of_everyOpenOwned_step, fun hok => everyOpenOwned_step ht hp hok⟩⟩
  have hinv : s.EveryOpenOwned :=
    h.invariant_state (fun n hn => by simp [isOpen] at hn)
      fun t op ht hok => everyOpenOwned_step ht hok.1 hok.2
  refine everyAdoptedClosed_of_not_isOpen fun n => Bool.eq_false_iff.mpr fun hn => ?_
  obtain ⟨i, hi⟩ := hinv n hn
  exact not_owner_of_notMem (by rw [hd]; exact AList.notMem_empty i) hi

/-- The run `FileDescriptor a{3}, b; b = move(a);` and both destructors leave nothing open. -/
theorem everyAdoptedClosed_vacant_target :
    EveryAdoptedClosed [.closed 3, .adopted 3] := by
  have hrun : Runs KeepsOwner {}
      [.adopt 0 3, .default 1, .moveAssign 1 0, .destroy 0, .destroy 1] _ :=
    .cons ⟨by decide, trivial⟩ rfl (.cons ⟨by decide, trivial⟩ rfl (.cons ⟨by decide, by
      intro _ this other n hthis _ _ _
      obtain rfl : ({ fd := FileDescriptor.invalidFd } : FileDescriptor) = this :=
        Option.some.inj hthis
      exact .inl ⟨rfl, rfl⟩⟩ rfl (.cons ⟨by decide, trivial⟩ rfl
        (.cons ⟨by decide, trivial⟩ rfl (.nil _)))))
  exact (everyAdoptedClosed_of_run hrun rfl).1

/-- A program on two objects: the first gives its fd to the second, which held one itself. -/
def leakingProgram : List FdOp :=
  [.adopt 0 3, .adopt 1 4, .moveAssign 1 0, .destroy 0, .destroy 1]

/-- **The leak.** `FileDescriptor a{3}, b{4}; b = move(a);` never closes fd 3: `close()` inside the
assignment clears the flag of `b`. -/
theorem not_everyAdoptedClosed :
    ¬ ∀ ops s, Runs (fun _ _ => True) {} ops s → s.objects = ∅ → EveryAdoptedClosed s.calls := by
  intro h
  have hrun : Runs (fun _ _ => True) {} leakingProgram _ :=
    .cons (by decide) rfl (.cons (by decide) rfl (.cons (by decide) rfl
      (.cons (by decide) rfl (.cons (by decide) rfl (.nil _)))))
  have hcl := h _ _ hrun rfl [.closed 4, .adopted 4] [] 3 rfl
  exact absurd hcl (by decide)

/-! ### No fd has two owners, as long as released objects are not moved from -/

/-- At most one live object would close an open fd. -/
def SingleOwner (s : FdObjects) : Prop :=
  ∀ n i j, isOpen n s.calls = true → s.Owner i n → s.Owner j n → i = j

/-- Between two calls of `::close` on one fd it was adopted again. -/
def NoSecondClose (calls : List FdCall) : Prop :=
  ∀ post mid pre n, calls = post ++ .closed n :: (mid ++ .closed n :: pre) → .adopted n ∈ mid

/-- A move whose result would close the fd of a released source needs that fd to be open and
without an owner. -/
def KeepsSingleOwner (s : FdObjects) : FdOp → Prop
  | .moveConstruct _ j => ∀ other, s.objects.lookup j = some other → other.Released →
      isOpen other.fd s.calls = true ∧ ∀ k, ¬ s.Owner k other.fd
  | .moveAssign i j => i ≠ j → ∀ this other, s.objects.lookup i = some this →
      s.objects.lookup j = some other → this.Vacant → other.Released →
      isOpen other.fd s.calls = true ∧ ∀ k, ¬ s.Owner k other.fd
  | _ => True

/-- Every call of `::close` was on an open fd. -/
def ClosesOpen : List FdCall → Prop
  | [] => True
  | .adopted _ :: cs => ClosesOpen cs
  | .closed n :: cs => isOpen n cs = true ∧ ClosesOpen cs

/-- Owners are unique, own open fds only, and so far only open fds were closed. -/
structure Sound (s : FdObjects) : Prop where
  /-- Whoever would close an fd would close an open one. -/
  ownsOpen : ∀ i n, s.Owner i n → isOpen n s.calls = true
  /-- No two objects would close one fd. -/
  unique : ∀ i j n, s.Owner i n → s.Owner j n → i = j
  /-- The calls made so far closed open fds. -/
  closesOpen : ClosesOpen s.calls

/-- A descriptor that is open again after a close was adopted in between. -/
theorem adopted_of_isOpen {mid pre : List FdCall} (h : isOpen n (mid ++ .closed n :: pre) = true) :
    .adopted n ∈ mid := by
  induction mid with
  | nil => simp [isOpen] at h
  | cons c mid ih =>
      -- a call about another descriptor changes nothing of this one's state
      cases c with
      | adopted m =>
          by_cases hm : m = n
          · exact hm ▸ List.mem_cons_self
          · exact List.mem_cons_of_mem _ (ih (by simpa [isOpen, hm] using h))
      | closed m =>
          simp only [List.cons_append, isOpen, Bool.and_eq_true] at h
          exact List.mem_cons_of_mem _ (ih h.2)

/-- Where only what is open is closed, nothing is closed twice in a row. -/
theorem noSecondClose_of_closesOpen {calls : List FdCall} (h : ClosesOpen calls) :
    NoSecondClose calls := by
  rintro post mid pre n rfl
  -- the later of the two was on an open fd, whatever calls came after it
  induction post with
  | nil => exact adopted_of_isOpen h.1
  | cons c post ih =>
      cases c with
      | adopted m => exact ih h
      | closed m => exact ih h.2

/-- An owner of an open descriptor may close it. -/
theorem closesOpen_close (h : ClosesOpen s.calls) (ho : ∀ n, x.Closes n → isOpen n s.calls = true) :
    ClosesOpen (x.close.2.map .closed ++ s.calls) := by
  by_cases hx : x.shouldClose = true ∧ ¬ x.fd = FileDescriptor.invalidFd
  · rw [FileDescriptor.close_of_closes hx]
    exact ⟨ho x.fd ⟨hx.1, rfl, hx.2⟩, h⟩
  · rw [FileDescriptor.close_of_not_closes hx]
    exact h

/-- An object that names a valid fd would close it or is released. -/
theorem closes_or_released (hv : other.fd ≠ FileDescriptor.invalidFd) :
    other.Closes other.fd ∨ other.Released := by
  cases hs : other.shouldClose with
  | true => exact .inl ⟨hs, rfl, hv⟩
  | false => exact .inr ⟨hs, hv⟩

/-- Taking `x` out of the objects that own something, by closing what it would close, keeps the
three parts of `Sound`. -/
theorem Sound.close_of_owner (h : s.Sound) (hx : s.objects.lookup i = some x) {t : FdObjects}
    (hcalls : t.calls = x.close.2.map .closed ++ s.calls)
    (hown : ∀ k n, t.Owner k n → k ≠ i ∧ s.Owner k n) : t.Sound where
  ownsOpen := by
    intro k n hk
    obtain ⟨hki, hk⟩ := hown k n hk
    rw [hcalls, isOpen_close]
    exact ⟨fun hn => hki (h.unique k i n hk ((owner_of_lookup hx).mpr hn)), h.ownsOpen k n hk⟩
  unique := fun k l n hk hl => h.unique k l n (hown k n hk).2 (hown l n hl).2
  closesOpen := by
    rw [hcalls]
    exact closesOpen_close h.closesOpen fun n hn => h.ownsOpen i n ((owner_of_lookup hx).mpr hn)

/-- The object that a move makes the owner of an open, otherwise unowned fd. -/
theorem Sound.of_owner_transfer (h : s.Sound) {t : FdObjects} (hcalls : t.calls = s.calls)
    (hopen : isOpen m s.calls = true)
    (hown : ∀ k n, t.Owner k n → (k = i ∧ n = m) ∨ (k ≠ i ∧ n ≠ m ∧ s.Owner k n)) : t.Sound where
  ownsOpen := by
    intro k n hk
    rw [hcalls]
    rcases hown k n hk with ⟨-, rfl⟩ | ⟨-, -, hk⟩
    · exact hopen
    · exact h.ownsOpen k n hk
  unique := by
    intro k l n hk hl
    -- the new owner owns `m` only, and nobody else owns `m`
    rcases hown k n hk with ⟨rfl, hnk⟩ | ⟨-, hnk, hk⟩ <;>
      rcases hown l n hl with ⟨rfl, hnl⟩ | ⟨-, hnl, hl⟩
    · rfl
    · exact absurd hnk hnl
    · exact absurd hnl hnk
    · exact h.unique k l n hk hl
  closesOpen := by
    rw [hcalls]
    exact h.closesOpen

/-- Fewer owners and no further call keep `Sound`. -/
theorem Sound.of_fewer_owners (h : s.Sound) {t : FdObjects} (hcalls : t.calls = s.calls)
    (hown : ∀ k n, t.Owner k n → s.Owner k n) : t.Sound where
  ownsOpen := fun k n hk => by rw [hcalls]; exact h.ownsOpen k n (hown k n hk)
  unique := fun k l n hk hl => h.unique k l n (hown k n hk) (hown l n hl)
  closesOpen := by rw [hcalls]; exact h.closesOpen

/-- The fd a move takes from `other` is open and has no owner besides, provided a released source
names an open fd without an owner. -/
theorem Sound.source_open (h : s.Sound) (hj : s.objects.lookup j = some other)
    (hv : other.fd ≠ FileDescriptor.invalidFd)
    (hrel : other.Released → isOpen other.fd s.calls = true ∧ ∀ k, ¬ s.Owner k other.fd) :
    isOpen other.fd s.calls = true ∧ ∀ k, k ≠ j → ¬ s.Owner k other.fd := by
  rcases closes_or_released hv with hcl | hr
  · have hown : s.Owner j other.fd := (owner_of_lookup hj).mpr hcl
    exact ⟨h.ownsOpen j _ hown, fun k hkj hk => hkj (h.unique k j _ hk hown)⟩
  · exact ⟨(hrel hr).1, fun k _ => (hrel hr).2 k⟩

/-- A move that leaves the number of `other` with `i`, the owner of nothing so far. -/
theorem Sound.move (h : s.Sound) {t : FdObjects} (hj : s.objects.lookup j = some other)
    (hcalls : t.calls = s.calls)
    (hown : ∀ k n, t.Owner k n →
      (k = i ∧ other.fd = n ∧ n ≠ FileDescriptor.invalidFd) ∨ (k ≠ i ∧ k ≠ j ∧ s.Owner k n))
    (hrel : other.Released → isOpen other.fd s.calls = true ∧ ∀ k, ¬ s.Owner k other.fd) :
    t.Sound := by
  by_cases hv : other.fd = FileDescriptor.invalidFd
  · -- an object without an fd makes nobody an owner
    refine h.of_fewer_owners hcalls fun k n hk => ?_
    rcases hown k n hk with ⟨-, hn, hn'⟩ | ⟨-, -, hk⟩
    · exact absurd (hn.symm.trans hv) hn'
    · exact hk
  · have hsrc := h.source_open hj hv hrel
    refine h.of_owner_transfer (i := i) hcalls hsrc.1 fun k n hk => ?_
    rcases hown k n hk with ⟨hki, hn, -⟩ | ⟨hki, hkj, hk⟩
    · exact .inl ⟨hki, hn.symm⟩
    · refine .inr ⟨hki, ?_, hk⟩
      rintro rfl
      exact hsrc.2 k hkj hk

/-- An object that adopts a fresh fd is its only owner. -/
theorem Sound.adopt {m : FD} (h : s.Sound) (hm : isOpen m s.calls = false) :
    (s.step (.adopt i m)).Sound := by
  have hown : ∀ k n, (s.step (.adopt i m)).Owner k n →
      (k = i ∧ n = m) ∨ (k ≠ i ∧ s.Owner k n) := by
    intro k n hk
    have hk' := (owner_insert _ _).mp hk
    split at hk'
    · next hki => exact .inl ⟨hki, hk'.2.1.symm⟩
    · next hki => exact .inr ⟨hki, hk'⟩
  -- a fresh fd is owned by nobody, since owners own open fds
  have hfree : ∀ k, ¬ s.Owner k m := fun k hk => by simp [h.ownsOpen k m hk] at hm
  refine ⟨?_, ?_, h.closesOpen⟩
  · intro k n hk
    rcases hown k n hk with ⟨-, rfl⟩ | ⟨-, hk⟩
    · simp [FdObjects.step, isOpen]
    · simp [FdObjects.step, isOpen, h.ownsOpen k n hk]
  · intro k l n hk hl
    rcases hown k n hk with ⟨hki, hnm⟩ | ⟨-, hk'⟩ <;>
      rcases hown l n hl with ⟨hli, hnm'⟩ | ⟨-, hl'⟩
    · exact hki.trans hli.symm
    · exact absurd (hnm ▸ hl') (hfree l)
    · exact absurd (hnm' ▸ hk') (hfree k)
    · exact h.unique k l n hk' hl'

/-- Each operation that meets `KeepsSingleOwner` keeps `Sound`. -/
theorem Sound.step {op : FdOp} (h : s.Sound) (hp : s.Possible op) (hk : s.KeepsSingleOwner op) :
    (s.step op).Sound := by
  cases op with
  | adopt i m => exact h.adopt hp.2.2
  -- a default object owns nothing
  | default i =>
      refine h.of_fewer_owners rfl fun k n hk => ?_
      have hk' := (owner_insert _ _).mp hk
      split at hk'
      · exact absurd hk'.2.1.symm hk'.2.2
      · exact hk'
  | moveConstruct i j =>
      obtain ⟨other, hother⟩ := exists_lookup hp.2
      refine h.move (i := i) hother (by rw [step_moveConstruct hother]) ?_ (hk other hother)
      intro k n hown
      have hown' := (owner_moveConstruct hother).mp hown
      split at hown'
      · next hki => exact .inl ⟨hki, hown'⟩
      · next hki => exact .inr ⟨hki, hown'⟩
  | moveAssign i j =>
      by_cases hij : i = j
      · subst hij
        rw [step_moveAssign_self]
        exact h
      obtain ⟨this, hthis⟩ := exists_lookup hp.1
      obtain ⟨other, hother⟩ := exists_lookup hp.2
      have hown : ∀ k n, (s.step (.moveAssign i j)).Owner k n →
          (k = i ∧ this.Vacant ∧ other.fd = n ∧ n ≠ FileDescriptor.invalidFd) ∨
            (k ≠ i ∧ k ≠ j ∧ s.Owner k n) := by
        intro k n hown
        have hown' := (owner_moveAssign hij hthis hother).mp hown
        split at hown'
        · next hki => exact .inl ⟨hki, hown'⟩
        · next hki => exact .inr ⟨hki, hown'⟩
      by_cases hv : this.Vacant
      · -- a vacant target closes nothing and becomes the owner
        refine h.move (i := i) hother ?_ (fun k n hk => ?_) (hk hij this other hthis hother hv)
        · rw [step_moveAssign hij hthis hother,
            FileDescriptor.close_of_not_closes fun hc => hc.2 hv.2]
          rfl
        · exact (hown k n hk).imp (fun hi => ⟨hi.1, hi.2.2⟩) id
      · -- any other target closes what it owned and ends up owning nothing
        refine h.close_of_owner hthis (by rw [step_moveAssign hij hthis hother]) fun k n hk => ?_
        rcases hown k n hk with ⟨-, hv', -⟩ | ⟨hki, -, hk⟩
        · exact absurd hv' hv
        · exact ⟨hki, hk⟩
  | close i =>
      obtain ⟨x, hx⟩ := exists_lookup hp
      exact h.close_of_owner hx (by rw [step_close hx]) fun k n hk => (owner_close hx).mp hk
  | destroy i =>
      obtain ⟨x, hx⟩ := exists_lookup hp
      exact h.close_of_owner hx (by rw [step_destroy hx]) fun k n hk => (owner_destroy hx).mp hk

/-- The condition is exact: an operation that breaks it leaves two owners of one fd, or an owner of
an fd that is not open. -/
theorem keepsSingleOwner_of_sound_step {op : FdOp} (hp : s.Possible op) (h : (s.step op).Sound) :
    s.KeepsSingleOwner op := by
  cases op with
  | moveConstruct i j =>
      intro other hother hrel
      have hi : (s.step (.moveConstruct i j)).Owner i other.fd := by
        rw [owner_moveConstruct hother, if_pos rfl]
        exact ⟨rfl, hrel.2⟩
      -- the new object owns the fd, so the fd is open and nobody else owns it
      have hopen := h.ownsOpen i _ hi
      rw [step_moveConstruct hother] at hopen
      refine ⟨hopen, fun k hk => ?_⟩
      have hki : k ≠ i := fun hki => not_owner_of_notMem hp.1 (hki ▸ hk)
      refine hki (h.unique k i _ ?_ hi)
      rw [owner_moveConstruct hother, if_neg hki]
      refine ⟨?_, hk⟩
      rintro rfl
      exact Bool.false_ne_true (hrel.1.symm.trans ((owner_of_lookup hother).mp hk).1)
  | moveAssign i j =>
      intro hij this other hthis hother hv hrel
      have hi : (s.step (.moveAssign i j)).Owner i other.fd := by
        rw [owner_moveAssign hij hthis hother, if_pos rfl]
        exact ⟨hv, rfl, hrel.2⟩
      -- the same for the target, which closed nothing of its own: it was vacant
      have hopen := h.ownsOpen i _ hi
      rw [step_moveAssign hij hthis hother, isOpen_close] at hopen
      refine ⟨hopen.2, fun k hk => ?_⟩
      have hki : k ≠ i := by
        rintro rfl
        exact hopen.1 ((owner_of_lookup hthis).mp hk)
      refine hki (h.unique k i _ ?_ hi)
      rw [owner_moveAssign hij hthis hother, if_neg hki]
      refine ⟨?_, hk⟩
      rintro rfl
      exact Bool.false_ne_true (hrel.1.symm.trans ((owner_of_lookup hother).mp hk).1)
  | _ => trivial

/-- There is no object yet. -/
theorem sound_initial : Sound {} where
  ownsOpen := fun _ _ hk => absurd hk (not_owner_of_notMem (AList.notMem_empty _))
  unique := fun _ _ _ hk => absurd hk (not_owner_of_notMem (AList.notMem_empty _))
  closesOpen := trivial

/-- **One owner.** In every run whose moves from a released object make nobody an owner, every open
fd has at most one owner and none is closed a second time without being adopted in between. And an
operation keeps owners unique and on open fds exactly if it meets the condition. -/
theorem singleOwner_of_run (h : Runs KeepsSingleOwner {} ops s) :
    s.SingleOwner ∧ NoSecondClose s.calls ∧ ∀ (t : FdObjects) (op : FdOp), t.Sound → t.Possible op →
      ((t.step op).Sound ↔ t.KeepsSingleOwner op) := by
  have hsound : s.Sound :=
    h.invariant_state sound_initial fun t op ht hok => ht.step hok.1 hok.2
  exact ⟨fun n i j _ hi hj => hsound.unique i j n hi hj,
    noSecondClose_of_closesOpen hsound.closesOpen, fun t op ht hp =>
      ⟨keepsSingleOwner_of_sound_step hp, fun hok => ht.step hp hok⟩⟩

/-- The run `FileDescriptor a{3}, b{move(a)}, c{move(b)};` leaves one owner of fd 3. -/
theorem singleOwner_move_chain :
    ∃ s, Runs KeepsSingleOwner {} [.adopt 0 3, .moveConstruct 1 0, .moveConstruct 2 1] s ∧
      s.SingleOwner ∧ NoSecondClose s.calls := by
  have hrun : Runs KeepsSingleOwner {} [.adopt 0 3, .moveConstruct 1 0, .moveConstruct 2 1] _ :=
    .cons ⟨by decide, trivial⟩ rfl (.cons ⟨by decide, by
      intro other hother hrel
      obtain rfl : ({ fd := 3 } : FileDescriptor) = other := Option.some.inj hother
      exact absurd hrel.1 (by decide)⟩ rfl (.cons ⟨by decide, by
      intro other hother hrel
      obtain rfl : ({ fd := 3 } : FileDescriptor) = other := Option.some.inj hother
      exact absurd hrel.1 (by decide)⟩ rfl (.nil _)))
  obtain ⟨howner, hclose, -⟩ := singleOwner_of_run hrun
  exact ⟨_, hrun, howner, hclose⟩

/-- A program that moves twice from one object. -/
def doublyMovingProgram : List FdOp := [.adopt 0 3, .moveConstruct 1 0, .moveConstruct 2 0]

/-- **Two owners.** After `FileDescriptor a{3}, b{move(a)}, c{move(a)};` both `b` and `c` would
close fd 3: the move constructor sets the flag of the new object whatever the flag of `a`. -/
theorem not_singleOwner :
    ¬ ∀ ops s, Runs (fun _ _ => True) {} ops s → s.SingleOwner ∧ NoSecondClose s.calls := by
  intro h
  have hrun : Runs (fun _ _ => True) {} doublyMovingProgram _ :=
    .cons (by decide) rfl (.cons (by decide) rfl (.cons (by decide) rfl (.nil _)))
  have hone := (h _ _ hrun).1 3 1 2 (by decide) ⟨{ fd := 3 }, by rfl, by decide⟩
    ⟨{ fd := 3 }, by rfl, by decide⟩
  exact absurd hone (by decide)

end FdObjects

end SctpSandbox

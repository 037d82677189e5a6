import Mathlib.Logic.Function.Basic
import SctpSandbox.Forked.SocketUnixForked
import SctpSandbox.Lib.NamedObjects

/-! # Starting again: the named objects of `SocketUnixForked`

The constructor of `SocketUnixForked` creates message queues, shared memory, a semaphore and a FIFO
under names, and the destructor removes the names, except the FIFO's. Both are sequences of system
calls here. Which calls an attempt to construct one makes is an input: any number of those before
the fork, and behind it those of the two processes in any order. A process that throws in the
constructor, or is killed, makes no further call; the destructor comes behind the constructor. What
a member function does in between has to do with no name. -/

namespace SctpSandbox

/-- What has a name. -/
inductive NamedObject where
  /-- `parent_mq_name` and `child_mq_name`. -/
  | queue (q : MessageQueue)
  /-- `shm_name`. -/
  | shm
  /-- `sem_name`. -/
  | sem
  /-- `pipe_name`. -/
  | namedPipe
  deriving DecidableEq

/-- The system calls of the constructor and the destructor. -/
inductive SystemCall where
  | mqUnlink (q : MessageQueue)
  | mqOpen (q : MessageQueue)
  | mqClose (q : MessageQueue)
  | shmOpen
  | ftruncate
  | mmap
  | munmap
  | shmUnlink
  | shmget
  | shmat
  | shmdt
  | semOpen
  | semInit
  | semCloseNamed
  | semUnlink
  | semCloseUnnamed
  | semDestroy
  | socketpair
  | pipe2
  | remove
  | mkfifo
  | openRead
  | openWrite
  | fork
  | sigaction
  | prctl
  | getppid
  | setsockopt
  | fcntlGet
  | fcntlSet
  | kill
  deriving DecidableEq

/-- What a call has to do with names. `mq_open`, `shm_open` and `sem_open` are called with `O_EXCL`.
That `mq_unlink` finds nothing is ignored, and `failedRemove` lets `ENOENT` pass. -/
def SystemCall.effect : SystemCall → NameCall NamedObject
  | mqUnlink q => .remove (.queue q)
  | mqOpen q => .create (.queue q)
  | shmOpen => .create .shm
  | shmUnlink => .remove .shm
  | semOpen => .create .sem
  | semUnlink => .remove .sem
  | remove => .remove .namedPipe
  | mkfifo => .create .namedPipe
  | openRead => .use .namedPipe
  | openWrite => .use .namedPipe
  | _ => .other

/-- The arguments of `fork` in the constructor. -/
inductive ForkArgument where
  | socketPair
  | pipe
  | namedPipe
  deriving DecidableEq

/-- The order in which the arguments are evaluated, which the language leaves open. -/
abbrev EvaluationOrder :=
  { order : List ForkArgument // order.Perm [.socketPair, .pipe, .namedPipe] }

namespace ForkedConstruction

open SystemCall

/-- `createMessageQueues`. -/
def createMessageQueues : List SystemCall :=
  [mqUnlink .parent, mqUnlink .child, mqOpen .parent, mqOpen .child]

/-- `createPosixSharedMemory`. -/
def createPosixSharedMemory : List SystemCall := [shmOpen, ftruncate, mmap]

/-- `createSysVSharedMemory`. -/
def createSysVSharedMemory : List SystemCall := [shmget, shmat]

/-- `createNamedSemaphore`. -/
def createNamedSemaphore : List SystemCall := [semOpen]

/-- `createUnnamedSemaphore`. -/
def createUnnamedSemaphore : List SystemCall := [semInit]

/-- `createSocketPair`, `createPipe` and `createNamedPipe`. -/
def createArgument : ForkArgument → List SystemCall
  | .socketPair => [socketpair]
  | .pipe => [pipe2]
  | .namedPipe => [remove, mkfifo, openRead, openWrite]

/-- The constructor in front of the arguments of `fork`. -/
def createShared : List SystemCall :=
  createMessageQueues ++ createPosixSharedMemory ++ createSysVSharedMemory ++
    createNamedSemaphore ++ createUnnamedSemaphore

/-- The constructor up to the system call `fork`. -/
def beforeFork (order : EvaluationOrder) : List SystemCall :=
  createShared ++ order.1.flatMap createArgument ++ [fork]

/-- `forkParent` and `forkChild`. -/
def forked : Process → List SystemCall
  | .parent => [sigaction]
  | .child => [sigaction, prctl, getppid]

/-- `configure`, for a socket of the family `AF_UNIX`. -/
def configure : List SystemCall := [setsockopt, fcntlGet, fcntlSet]

/-- `cleanUpMessageQueues`. -/
def cleanUpMessageQueues : List SystemCall :=
  [mqClose .parent, mqClose .child, mqUnlink .parent, mqUnlink .child]

/-- `cleanUpSemaphores`. -/
def cleanUpSemaphores : List SystemCall := [semCloseNamed, semUnlink, semCloseUnnamed, semDestroy]

/-- `cleanUpSharedMemory`. -/
def cleanUpSharedMemory : List SystemCall := [munmap, shmUnlink, shmdt]

/-- `SocketUnixForked::~SocketUnixForked`. -/
def destructor (p : Process) : List SystemCall :=
  cleanUpMessageQueues ++ cleanUpSemaphores ++ cleanUpSharedMemory ++
    if p = .child then [kill] else []

/-- What a process calls behind the fork: the rest of the constructor, then the destructor. -/
def afterFork (p : Process) : List SystemCall := forked p ++ configure ++ destructor p

/-- The calls of two processes in the order in which they take turns. -/
def interleave : List Process → (Process → List SystemCall) → List SystemCall
  | [], _ => []
  | p :: ps, rest =>
      if h : rest p = [] then interleave ps rest
      else (rest p).head h :: interleave ps (Function.update rest p (rest p).tail)

/-- An attempt to construct a `SocketUnixForked`, and what becomes of it. -/
structure Attempt where
  order : EvaluationOrder
  /-- How many calls up to the fork are made. -/
  made : ℕ
  /-- Which process makes the next call behind the fork. -/
  turns : List Process

/-- The calls an attempt makes, unless one of them fails. -/
def Attempt.calls (a : Attempt) : List SystemCall :=
  (beforeFork a.order).take a.made ++
    if (beforeFork a.order).length ≤ a.made then interleave a.turns afterFork else []

/-- The names an attempt leaves. -/
def Attempt.leaves (a : Attempt) (names : Finset NamedObject) : Finset NamedObject :=
  (NameCall.runAll (a.calls.map effect) names).state

/-- The names some attempts leave, one after the other. -/
def leftBy (attempts : List Attempt) : Finset NamedObject :=
  attempts.foldl (fun names a => a.leaves names) ∅

/-- No call of a new construction fails because of a name. -/
def Constructs (order : EvaluationOrder) (names : Finset NamedObject) : Prop :=
  NameCall.Returns ((beforeFork order).map effect) names

/-- An attempt that creates the shared memory removes its name, in one process at least. -/
def Attempt.CleansUp (a : Attempt) : Prop := shmOpen ∈ a.calls → shmUnlink ∈ a.calls

/-! ## A new construction -/

variable {order : EvaluationOrder} {names : Finset NamedObject} {a : Attempt}

/-- An argument's creation returns exactly when its name calls do. -/
theorem returns_createArgument (arg : ForkArgument) (names : Finset NamedObject) :
    NameCall.Returns ((createArgument arg).map effect) names := by
  cases arg with
  | socketPair => exact ⟨names, rfl⟩
  | pipe => exact ⟨names, rfl⟩
  | namedPipe => simp [createArgument, effect, NameCall.returns_cons, NameCall.returns_nil,
      NameCall.run]

/-- The arguments of `fork` are created whatever names there are. -/
theorem returns_arguments (args : List ForkArgument) (names : Finset NamedObject) :
    NameCall.Returns ((args.flatMap createArgument ++ [fork]).map effect) names := by
  induction args generalizing names with
  | nil => exact ⟨names, rfl⟩
  | cons arg args ih =>
      obtain ⟨t, ht⟩ := returns_createArgument arg names
      rw [List.flatMap_cons, List.append_assoc, List.map_append, NameCall.returns_append]
      exact ⟨t, ht, ih t⟩

/-- The arguments and the fork leave no name for others to take. -/
theorem exposed_arguments (args : List ForkArgument) :
    NameCall.exposed ((args.flatMap createArgument ++ [fork]).map effect) = ∅ := by
  induction args with
  | nil => rfl
  | cons arg args ih =>
      rw [List.flatMap_cons, List.append_assoc, List.map_append, NameCall.exposed_append _ ih]
      cases arg <;> decide

/-- The names that the constructor minds are those of the shared memory and the semaphore. -/
theorem exposed_beforeFork (order : EvaluationOrder) :
    NameCall.exposed ((beforeFork order).map effect) = {.shm, .sem} := by
  rw [beforeFork, List.append_assoc, List.map_append,
    NameCall.exposed_append _ (exposed_arguments order.1)]
  decide

/-- On a clean system the construction succeeds. -/
theorem constructs_empty (order : EvaluationOrder) : Constructs order ∅ := by
  have hshared : NameCall.runAll (createShared.map effect) ∅ =
      .returned {.sem, .shm, .queue .child, .queue .parent} := by decide
  rw [Constructs, beforeFork, List.append_assoc, List.map_append, NameCall.returns_append]
  exact ⟨_, hshared, returns_arguments order.1 _⟩

/-- So a construction fails for these names only. -/
theorem constructs_iff (order : EvaluationOrder) (names : Finset NamedObject) :
    Constructs order names ↔ .shm ∉ names ∧ .sem ∉ names := by
  rw [Constructs, NameCall.returns_iff_disjoint (Finset.empty_subset names)
    (constructs_empty order), exposed_beforeFork, Finset.disjoint_insert_left,
    Finset.disjoint_singleton_left]

/-! ## The calls of an attempt -/

/-- Behind the fork no call minds the names, or creates one. -/
theorem effect_afterFork (p : Process) : ∀ c ∈ afterFork p, c.effect.mayThrow = false := by
  cases p <;> decide

/-- What an interleaving does, one of the processes does. -/
theorem mem_interleave {c : SystemCall} {turns : List Process} {rest : Process → List SystemCall}
    (h : c ∈ interleave turns rest) : ∃ p, c ∈ rest p := by
  induction turns generalizing rest with
  | nil => exact absurd h List.not_mem_nil
  | cons p turns ih =>
      -- a turn of a process that is through is passed over
      rw [interleave] at h
      split at h
      · exact ih h
      · next hne =>
          rcases List.mem_cons.mp h with rfl | h
          · exact ⟨p, List.head_mem hne⟩
          · obtain ⟨q, hq⟩ := ih h
            -- the process whose turn it was has one call less
            by_cases hqp : q = p
            · subst hqp
              rw [Function.update_self] at hq
              exact ⟨q, List.mem_of_mem_tail hq⟩
            · rw [Function.update_of_ne hqp] at hq
              exact ⟨q, hq⟩

/-- A call comes in front of the first call of another kind. -/
def Precedes (c d : SystemCall) : List SystemCall → Prop
  | [] => True
  | x :: xs => x = c ∨ x ≠ d ∧ Precedes c d xs

instance decidablePrecedes (c d : SystemCall) : ∀ xs, Decidable (Precedes c d xs)
  | [] => isTrue trivial
  | _ :: xs => @instDecidableOr _ _ _ (@instDecidableAnd _ _ _ (decidablePrecedes c d xs))

/-- What precedes a call in each process has been called before it, in any order of turns. -/
theorem mem_interleave_of_precedes {c d : SystemCall} {turns : List Process}
    {rest : Process → List SystemCall} (hrest : ∀ p, Precedes c d (rest p))
    (h : d ∈ interleave turns rest) : c ∈ interleave turns rest := by
  -- by induction on the turns, until the first process calls `c`
  induction turns generalizing rest with
  | nil => exact absurd h List.not_mem_nil
  | cons p turns ih =>
      rw [interleave] at h ⊢
      split at h
      · next hnil =>
          rw [dif_pos hnil]
          exact ih hrest h
      · next hne =>
          rw [dif_neg hne]
          by_cases hhead : (rest p).head hne = c
          · exact hhead ▸ List.mem_cons_self
          · obtain ⟨x, xs, hx⟩ := List.exists_cons_of_ne_nil hne
            simp only [hx, List.head_cons, List.tail_cons, List.mem_cons] at h hhead ⊢
            have hp := hrest p
            rw [hx] at hp
            obtain ⟨hd, hxs⟩ := hp.resolve_left hhead
            refine Or.inr (ih (fun q => ?_) (h.resolve_left fun h => hd h.symm))
            by_cases hqp : q = p
            · subst hqp
              rwa [Function.update_self]
            · rw [Function.update_of_ne hqp]
              exact hrest q

/-- The attempt ends with the message queues at the latest, or opens the shared memory behind
them. -/
theorem Attempt.calls_cases (a : Attempt) : (∃ k, a.calls = createMessageQueues.take k) ∨
    ∃ rest, a.calls = createMessageQueues ++ shmOpen :: rest := by
  obtain ⟨rest, hrest⟩ : ∃ rest, beforeFork a.order = createMessageQueues ++ shmOpen :: rest :=
    ⟨_, rfl⟩
  have hlen : createMessageQueues.length = 4 := rfl
  -- four queues come before the shared memory
  by_cases hmade : a.made ≤ 4
  · left
    have hfork : ¬ (beforeFork a.order).length ≤ a.made := by
      rw [hrest, List.length_append, List.length_cons, hlen]
      omega
    refine ⟨a.made, ?_⟩
    rw [calls, if_neg hfork, List.append_nil, hrest, List.take_append_of_le_length (hlen ▸ hmade)]
  · right
    obtain ⟨k, hk⟩ : ∃ k, a.made = createMessageQueues.length + (k + 1) :=
      ⟨a.made - 5, by rw [hlen]; omega⟩
    rw [calls, hrest, hk, List.take_length_add_append, List.take_succ_cons, List.append_assoc]
    exact ⟨_, rfl⟩

/-! ## What attempts leave -/

/-- The shared memory's name is not removed before the fork. -/
theorem shmUnlink_notMem_beforeFork (order : EvaluationOrder) : shmUnlink ∉ beforeFork order := by
  intro h
  rcases List.mem_append.mp h with h | h
  · rcases List.mem_append.mp h with h | h
    · exact absurd h (by decide)
    · obtain ⟨arg, -, harg⟩ := List.mem_flatMap.mp h
      cases arg <;> exact absurd harg (by decide)
  · exact absurd h (by decide)

/-- An attempt that removes the name of the shared memory has got behind the fork. -/
theorem Attempt.calls_of_unlink (h : shmUnlink ∈ a.calls) :
    a.calls = beforeFork a.order ++ interleave a.turns afterFork ∧
      shmUnlink ∈ interleave a.turns afterFork := by
  rw [calls] at h ⊢
  have hbehind := (List.mem_append.mp h).resolve_left fun hmem =>
    shmUnlink_notMem_beforeFork a.order (List.mem_of_mem_take hmem)
  split at hbehind
  · next hfork => exact ⟨by rw [if_pos hfork, List.take_of_length_le hfork], hbehind⟩
  · exact absurd hbehind List.not_mem_nil

/-- The message queues touch neither the shared memory's name nor the semaphore's. -/
theorem notMem_effect_queues (k : ℕ) :
    ∀ n ∈ [NamedObject.shm, .sem], .create n ∉ (createMessageQueues.take k).map effect ∧
      .remove n ∉ (createMessageQueues.take k).map effect := by
  have hall : ∀ n ∈ [NamedObject.shm, .sem], .create n ∉ createMessageQueues.map effect ∧
      .remove n ∉ createMessageQueues.map effect := by decide
  intro n hn
  rw [List.map_take]
  exact ⟨fun h => (hall n hn).1 (List.mem_of_mem_take h),
    fun h => (hall n hn).2 (List.mem_of_mem_take h)⟩

/-- Creating the message queues changes nothing about the shared memory. -/
theorem Attempt.leaves_of_open {rest : List SystemCall}
    (h : a.calls = createMessageQueues ++ shmOpen :: rest) (names : Finset NamedObject) :
    ∃ t, (.shm ∈ t ↔ .shm ∈ names) ∧
      a.leaves names = (((NameCall.create NamedObject.shm).run t).andThen
        (NameCall.runAll (rest.map effect))).state := by
  obtain ⟨t, ht⟩ : NameCall.Returns (createMessageQueues.map effect) names := by
    simp [createMessageQueues, effect, NameCall.returns_cons, NameCall.returns_nil, NameCall.run]
  have hkept := notMem_effect_queues 4 .shm List.mem_cons_self
  refine ⟨t, ?_, ?_⟩
  · rw [← NameCall.mem_runAll (s := names) hkept.1 hkept.2]
    exact (congrArg (fun o => NamedObject.shm ∈ Outcome.state o) ht).symm.to_iff
  · rw [leaves, h, List.map_append, NameCall.runAll_append, ht]
    rfl

/-- The name of the shared memory, once it is there, is there for good: a later attempt fails at
it, and has no destructor. -/
theorem shm_mem_leaves_of_mem (h : .shm ∈ names) : .shm ∈ a.leaves names := by
  obtain ⟨k, hk⟩ | ⟨rest, hrest⟩ := a.calls_cases
  · have hkept := notMem_effect_queues k .shm List.mem_cons_self
    rw [Attempt.leaves, hk, NameCall.mem_runAll hkept.1 hkept.2]
    exact h
  · obtain ⟨t, ht, hleaves⟩ := Attempt.leaves_of_open hrest names
    rw [hleaves, NameCall.run, if_pos (ht.mpr h)]
    exact ht.mpr h

/-- An attempt that does not clean up leaves it. -/
theorem shm_mem_leaves (h : ¬ a.CleansUp) : .shm ∈ a.leaves names := by
  obtain ⟨hopen, hunlink⟩ := Classical.not_imp.mp h
  -- it was opened and not removed, so it is left
  obtain ⟨k, hk⟩ | ⟨rest, hrest⟩ := a.calls_cases
  · have hqueues : shmOpen ∉ createMessageQueues := by decide
    rw [hk] at hopen
    exact absurd (List.mem_of_mem_take hopen) hqueues
  · obtain ⟨t, -, hleaves⟩ := Attempt.leaves_of_open hrest names
    have hremove : NameCall.remove NamedObject.shm ∉ rest.map effect := by
      intro hmem
      -- no other call removes it
      obtain ⟨c, hc, heffect⟩ := List.mem_map.mp hmem
      have hcall : c = shmUnlink := by
        cases c <;> first | rfl | exact absurd heffect (by simp [effect])
      rw [hrest] at hunlink
      exact hunlink (List.mem_append_right _ (List.mem_cons_of_mem _ (hcall ▸ hc)))
    rw [hleaves]
    exact Outcome.andThen_state (P := fun s => NamedObject.shm ∈ s)
      (NameCall.mem_run_create _ t) fun s hs => NameCall.mem_runAll_of_mem hremove hs

/-- One that does leaves neither that name nor the one of the semaphore. -/
theorem leaves_cleansUp (h : a.CleansUp) (hshm : .shm ∉ names) (hsem : .sem ∉ names) :
    .shm ∉ a.leaves names ∧ .sem ∉ a.leaves names := by
  by_cases hunlink : shmUnlink ∈ a.calls
  · -- the destructor of a process has run, the semaphore in front of the shared memory
    obtain ⟨hcalls, hshmUnlink⟩ := Attempt.calls_of_unlink hunlink
    have hsemUnlink : semUnlink ∈ interleave a.turns afterFork :=
      mem_interleave_of_precedes (fun p => by cases p <;> decide) hshmUnlink
    obtain ⟨t, ht⟩ := (constructs_iff a.order names).mpr ⟨hshm, hsem⟩
    have hthrow : ∀ c ∈ (interleave a.turns afterFork).map effect, c.mayThrow = false := by
      intro c hc
      obtain ⟨call, hcall, rfl⟩ := List.mem_map.mp hc
      obtain ⟨p, hp⟩ := mem_interleave hcall
      exact effect_afterFork p call hp
    -- behind the fork nothing is created any more
    have hcreate : ∀ n, NameCall.create n ∉ (interleave a.turns afterFork).map effect :=
      fun n hmem => Bool.noConfusion (hthrow _ hmem)
    have hreturns := NameCall.returns_of_not_mayThrow hthrow t
    have hleaves : a.leaves names =
        (NameCall.runAll ((interleave a.turns afterFork).map effect) t).state := by
      rw [Attempt.leaves, hcalls, List.map_append, NameCall.runAll_append, ht]
      rfl
    rw [hleaves]
    exact ⟨NameCall.not_mem_runAll_of_remove hreturns (hcreate .shm)
        (List.mem_map.mpr ⟨shmUnlink, hshmUnlink, rfl⟩),
      NameCall.not_mem_runAll_of_remove hreturns (hcreate .sem)
        (List.mem_map.mpr ⟨semUnlink, hsemUnlink, rfl⟩)⟩
  · -- no destructor has run: the names were not taken either
    have hopen : shmOpen ∉ a.calls := fun hmem => hunlink (h hmem)
    -- the attempt stopped at the queues, or got as far as the shared memory
    obtain ⟨k, hk⟩ | ⟨rest, hrest⟩ := a.calls_cases
    · have hkept := notMem_effect_queues k
      rw [Attempt.leaves, hk, NameCall.mem_runAll (hkept .shm (by decide)).1
        (hkept .shm (by decide)).2,
        NameCall.mem_runAll (hkept .sem (by decide)).1 (hkept .sem (by decide)).2]
      exact ⟨hshm, hsem⟩
    · rw [hrest] at hopen
      exact absurd (List.mem_append_right _ List.mem_cons_self) hopen

/-! ## Any number of attempts -/

/-- The last attempt acts on what the earlier ones left. -/
theorem leftBy_concat (attempts : List Attempt) (a : Attempt) :
    leftBy (attempts ++ [a]) = a.leaves (leftBy attempts) := List.foldl_concat ..

/-- Either all attempts clean up, or the name of the shared memory is left. -/
theorem leftBy_cases (attempts : List Attempt) :
    ((∀ a ∈ attempts, a.CleansUp) ∧ .shm ∉ leftBy attempts ∧ .sem ∉ leftBy attempts) ∨
      (¬ (∀ a ∈ attempts, a.CleansUp) ∧ .shm ∈ leftBy attempts) := by
  -- by induction on the attempts, the last one first
  induction attempts using List.reverseRecOn with
  | nil => exact Or.inl ⟨fun a h => absurd h List.not_mem_nil, by decide, by decide⟩
  | append_singleton attempts a ih =>
      rw [leftBy_concat, List.forall_mem_append, List.forall_mem_singleton]
      rcases ih with ⟨hall, hshm, hsem⟩ | ⟨hnot, hshm⟩
      · by_cases ha : a.CleansUp
        · exact Or.inl ⟨⟨hall, ha⟩, leaves_cleansUp ha hshm hsem⟩
        · exact Or.inr ⟨fun h => ha h.2, shm_mem_leaves ha⟩
      · exact Or.inr ⟨fun h => hnot h.1, shm_mem_leaves_of_mem hshm⟩

/-- **A new construction succeeds exactly when every attempt before it that had opened the shared
memory removed its name again**, in the destructor of one process at least. -/
theorem constructs_leftBy_iff (order : EvaluationOrder) (attempts : List Attempt) :
    Constructs order (leftBy attempts) ↔ ∀ a ∈ attempts, a.CleansUp := by
  rw [constructs_iff]
  obtain ⟨hall, hfree⟩ | ⟨hnot, hshm⟩ := leftBy_cases attempts
  · exact iff_of_true hfree hall
  · exact iff_of_false (fun h => h.1 hshm) hnot

/-- The arguments of `fork` from left to right. -/
def leftToRight : EvaluationOrder := ⟨[.socketPair, .pipe, .namedPipe], List.Perm.refl _⟩

/-- An attempt in which `ftruncate` fails makes the next one fail. -/
theorem not_constructs_leftBy :
    ¬ Constructs leftToRight (leftBy [⟨leftToRight, 5, []⟩]) := by
  intro h
  exact ((constructs_iff _ _).mp h).1 (by decide)

end ForkedConstruction

end SctpSandbox

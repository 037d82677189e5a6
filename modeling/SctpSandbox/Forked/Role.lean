import SctpSandbox.Forked.Effects

/-! # Who is the child

`isChild` asks whether the member `parent` is set. The child sets it in `fork`; the parent does not
touch it, and it has no initialiser. So the role depends on what the storage held: `role_of_run`
says for any two objects that the pipes are polled and a signal is sent by those that take
themselves for the child, and with a nonzero word in the storage the parent is one of them. -/

namespace SctpSandbox

/-- The action is an attempt to read one of the pipes. -/
def ForkedAction.isPoll : ForkedAction → Bool
  | .polledPipe | .polledNamedPipe => true
  | _ => false

/-- The operation reads one of the pipes. -/
def ForkedOp.isPoll : ForkedOp → Bool
  | .readPipe | .readNamedPipe => true
  | _ => false

namespace SocketUnixForked

/-- The child is told by its parent's id, which is zero for the parent. -/
theorem isChild_iff {s : SocketUnixForked} : s.isChild = true ↔ s.parent ≠ 0 := decide_eq_true_iff

/-- The child's object always takes itself for the child. -/
theorem isChild_construct_child (prior : ProcessId) (pid : Pid) :
    (construct prior pid .child).isChild = true := by
  rw [isChild_iff]
  show (pid : ℤ) ≠ 0
  exact pid.property.ne'

/-- The parent's object does so exactly when its memory held something else than zero. -/
theorem isChild_construct_parent (prior : ProcessId) (pid : Pid) :
    (construct prior pid .parent).isChild = true ↔ prior ≠ 0 := isChild_iff

end SocketUnixForked

namespace ForkedPair

variable {attr : MqAttr} {this : Process → SocketUnixForked} {s s' s₁ : ForkedPair} {p : Process}
  {a : ForkedAction} {op : ForkedOp} {ops : List ForkedOp} {c : ForkedCall}

/-- Only the child polls the pipes, at the ends it reads from, and only the child sends a signal, to
the process `pid`. -/
structure KeepsRole (this : Process → SocketUnixForked) (pid : Pid) (s : ForkedPair) : Prop where
  polled : ∀ p a, (p, a) ∈ s.log → a.isPoll →
    p = .child ∧ (this p).pipe = some .read ∧ (this p).namedPipe = some .read
  signalled : ∀ p pid', (p, .signalled pid') ∈ s.log → p = .child ∧ pid' = (pid : ℤ)

/-! ## The role a process takes itself to have -/

/-- What a process may do by its own answer to `isChild`. -/
def Allowed (t : SocketUnixForked) (a : ForkedAction) : Prop :=
  (a.isPoll → t.isChild) ∧ ∀ pid, a = .signalled pid → t.isChild ∧ pid = t.parent

/-- The invariant: what was done and what is still to do goes by `isChild`. -/
structure ByRole (this : Process → SocketUnixForked) (s : ForkedPair) : Prop where
  log : ∀ p a, (p, a) ∈ s.log → Allowed (this p) a
  remaining : ∀ p, ∀ op ∈ (s.control p).remaining, op.isPoll → (this p).isChild

/-- Nobody has acted yet. -/
theorem ByRole.initial (this : Process → SocketUnixForked) : ByRole this {} where
  log _ _ h := absurd h List.not_mem_nil
  remaining _ _ h := absurd h List.not_mem_nil

/-- An operation polls a pipe only if it is a read, and sends no signal. -/
theorem leaves_perform_log (attr : MqAttr) (t : SocketUnixForked) (s : ForkedPair) (p : Process)
    (answer : KernelAnswer) (op : ForkedOp) :
    (perform s p attr t answer op).Leaves fun s' _ => ∀ q a, (q, a) ∈ s'.log → (q, a) ∈ s.log ∨
      (q = p ∧ (a.isPoll → op.isPoll) ∧ ∀ pid, a ≠ .signalled pid) := by
  by_cases hwrite : (∃ msg, op = .writePipe msg) ∨ ∃ msg, op = .writeNamedPipe msg
  · -- a write to a pipe leaves no line
    rcases hwrite with ⟨msg, rfl⟩ | ⟨msg, rfl⟩
    · rcases perform_writePipe attr t s p answer msg with heq | ⟨n, -, -, heq⟩
      · rw [heq]
        exact fun q a hmem => .inl hmem
      · rw [heq]
        exact fun q a hmem => .inl hmem
    · rcases perform_writeNamedPipe attr t s p answer msg with heq | ⟨n, -, -, heq⟩
      · rw [heq]
        exact fun q a hmem => .inl hmem
      · rw [heq]
        exact fun q a hmem => .inl hmem
  · -- any other operation leaves lines of its own channel, by its process
    refine (leaves_perform attr t s p answer op).imp fun s' more ⟨huses, _⟩ q a hmem => ?_
    obtain ⟨lines, hlog, hlines⟩ := huses.log
    rw [hlog, List.mem_append] at hmem
    refine hmem.symm.imp_right fun hline => ?_
    obtain ⟨hq, hch⟩ := hlines _ hline
    refine ⟨hq, fun hpoll => ?_, ?_⟩
    · -- a poll's line is on a pipe, and only a read of it is left there
      cases a with
      | polledPipe | polledNamedPipe =>
          have hchannel := (Option.some.inj hch).symm
          cases op with
          | writePipe msg => exact absurd (.inl ⟨msg, rfl⟩) hwrite
          | writeNamedPipe msg => exact absurd (.inr ⟨msg, rfl⟩) hwrite
          | readPipe | readNamedPipe => rfl
          | _ => exact absurd hchannel Channel.noConfusion
      | _ => exact absurd hpoll Bool.false_ne_true
    · rintro pid rfl
      exact absurd hch (by simp [ForkedAction.channel])

/-- What a call is going to poll. -/
theorem isChild_of_operations {t : SocketUnixForked} (h : op ∈ operations t c)
    (hpoll : op.isPoll = true) : t.isChild = true := by
  cases c with
  | send msg prios =>
      rw [operations_send] at h
      simp only [List.mem_cons, List.mem_append, List.mem_map, List.not_mem_nil, or_false] at h
      -- a `send` polls nothing
      rcases h with rfl | rfl | rfl | ⟨prio, -, rfl⟩ | rfl | rfl | rfl | rfl <;>
        exact absurd hpoll Bool.false_ne_true
  | receive =>
      rw [operations_receive] at h
      -- without the child's branch a `receive` polls nothing either
      by_contra hnot
      rw [if_neg hnot] at h
      simp only [List.mem_append, List.mem_cons, List.not_mem_nil, or_false] at h
      rcases h with (rfl | rfl | rfl) | rfl <;> exact absurd hpoll Bool.false_ne_true

/-- A step keeps the roles when its lines are allowed and a poll is left to a child only. -/
theorem ByRole.of_moves {c' : ForkedControl} (h : ByRole this s) (hcontrol : s₁.control = s.control)
    (hlog : ∀ q a, (q, a) ∈ s₁.log → Allowed (this q) a)
    (hremaining : ∀ op ∈ c'.remaining, op.isPoll → (this p).isChild) :
    ByRole this (s₁.setControl p c') where
  log := hlog
  remaining := forall_control_setControl
    (P := fun q c => ∀ op ∈ c.remaining, op.isPoll → (this q).isChild) hremaining fun q _ => by
      rw [hcontrol]
      exact h.remaining q

/-- One more line. -/
theorem ByRole.log_record (h : ByRole this s) (ha : Allowed (this p) a) :
    ∀ q b, (q, b) ∈ (s.record p a).log → Allowed (this q) b := by
  intro q b hmem
  rcases List.mem_cons.mp hmem with heq | hmem
  · obtain ⟨rfl, rfl⟩ := Prod.mk.inj heq
    exact ha
  · exact h.log q b hmem

/-- The lines of an operation that was to be made. -/
theorem ByRole.log_perform (h : ByRole this s) (hbusy : s.control p = .busy c (op :: ops))
    (hlog : ∀ q a, (q, a) ∈ s₁.log → (q, a) ∈ s.log ∨
      (q = p ∧ (a.isPoll → op.isPoll) ∧ ∀ pid, a ≠ .signalled pid)) :
    ∀ q a, (q, a) ∈ s₁.log → Allowed (this q) a := by
  intro q a hmem
  rcases hlog q a hmem with hold | ⟨rfl, hpoll, hsignal⟩
  · exact h.log q a hold
  · have hop := h.remaining q op (by rw [hbusy]; exact List.mem_cons_self)
    exact ⟨fun ha => hop (hpoll ha), fun pid ha => absurd ha (hsignal pid)⟩

/-- **Every step goes by the role the process takes itself to have.** -/
theorem byRole_move {input : ForkedInput} (h : ByRole this s)
    (hmove : Move attr this s p input s') : ByRole this s' := by
  cases hmove with
  | called c hready _ =>
      have hallowed : Allowed (this p) (.called c) := ⟨by simp [ForkedAction.isPoll], by simp⟩
      exact h.of_moves rfl (h.log_record hallowed) fun op hop => isChild_of_operations hop
  | returned c answer hbusy =>
      have hallowed : Allowed (this p) (.returned c) := ⟨by simp [ForkedAction.isPoll], by simp⟩
      exact h.of_moves rfl (h.log_record hallowed) fun op hop => absurd hop List.not_mem_nil
  | goesOn c op ops more answer s₁ hbusy _ heff =>
      have hlog := leaves_perform_log attr (this p) s p answer op
      rw [heff] at hlog
      obtain ⟨huses, hmore⟩ := uses_of_goesOn heff
      refine h.of_moves huses.control (h.log_perform hbusy hlog) fun op' hop' hpoll => ?_
      have hrest : op' ∈ ops := by
        -- the integer read after a permit is no poll
        rcases hmore with rfl | ⟨i, -, rfl⟩
        · exact hop'
        · rcases List.mem_cons.mp hop' with rfl | hop'
          · exact absurd hpoll Bool.false_ne_true
          · exact hop'
      refine h.remaining p op' ?_ hpoll
      rw [hbusy]
      exact List.mem_cons_of_mem op hrest
  | throws c op ops answer s₁ hbusy _ heff =>
      have hlog := leaves_perform_log attr (this p) s p answer op
      rw [heff] at hlog
      exact h.of_moves (uses_of_throws heff).control (h.log_perform hbusy hlog)
        fun op' hop' => absurd hop' List.not_mem_nil
  | outOfBounds c op ops answer hbusy _ heff =>
      exact h.of_moves rfl h.log fun op' hop' => absurd hop' List.not_mem_nil
  | destroyed hcontrol =>
      rw [destroy]
      split
      · next hchild =>
          have hallowed : Allowed (this p) (.signalled (this p).parent) := by
            refine ⟨by simp [ForkedAction.isPoll], fun pid heq => ⟨hchild, ?_⟩⟩
            exact (ForkedAction.signalled.inj heq).symm
          exact h.of_moves rfl (h.log_record hallowed) fun op hop => absurd hop List.not_mem_nil
      · exact h.of_moves rfl h.log fun op hop => absurd hop List.not_mem_nil

/-- In every run of any two objects, what each process does goes by its own `isChild`. -/
theorem role_of_run {es : List (Process × ForkedInput)}
    (hrun : Run (step attr this) Possible {} es s) :
    ByRole this s :=
  hrun.invariant_state (.initial this) fun _ _ h hok =>
    step_keeps hok fun _ hmove => byRole_move h hmove

/-! ## The storage the object is built in -/

/-- In storage that was zero only the child takes itself for the child. -/
theorem eq_child_of_isChild {pid : Pid}
    (h : (SocketUnixForked.construct 0 pid p).isChild = true) : p = .child := by
  cases p with
  | parent => exact absurd rfl ((SocketUnixForked.isChild_construct_parent 0 pid).mp h)
  | child => rfl

/-- Run lemma from zeroed memory: each process keeps its role. -/
theorem keepsRole_of_run {pid : Pid} {es : List (Process × ForkedInput)}
    (hrun : Run (step attr (SocketUnixForked.construct 0 pid)) Possible {} es s) :
    KeepsRole (SocketUnixForked.construct 0 pid) pid s := by
  have hrole := role_of_run hrun
  constructor
  · intro p a hmem hpoll
    obtain rfl := eq_child_of_isChild ((hrole.log p a hmem).1 hpoll)
    exact ⟨rfl, rfl, rfl⟩
  · intro p pid' hmem
    obtain ⟨hchild, heq⟩ := (hrole.log p _ hmem).2 pid' rfl
    obtain rfl := eq_child_of_isChild hchild
    exact ⟨rfl, heq⟩

/-- The parent's destructor in storage that was not zero. -/
theorem signalled_of_prior {prior : ProcessId} (attr : MqAttr) (pid : Pid) (h : prior ≠ 0) :
    ∃ s, Run (step attr (SocketUnixForked.construct prior pid)) Possible {}
        [(.parent, .destroy)] s ∧
      (.parent, .signalled prior) ∈ s.log := by
  have hchild : (SocketUnixForked.construct prior pid .parent).isChild = true :=
    (SocketUnixForked.isChild_construct_parent prior pid).mpr h
  have hstep : step attr (SocketUnixForked.construct prior pid) {} (.parent, .destroy) =
      .returned ((({} : ForkedPair).record .parent (.signalled prior)).setControl .parent
        .destroyed) := by
    rw [step, destroy, if_pos hchild]
    rfl
  exact ⟨_, .cons trivial hstep (.nil _), List.mem_cons_self⟩

/-- **The role is defined exactly in storage that was zero.** `isChild` tells the two processes
apart exactly if the word the member `parent` is built in was zero; and exactly then, over all runs
of the two processes, only the child polls the pipes and signals, to the pid of its parent. -/
theorem roleDefined_iff (prior : ProcessId) (pid : Pid) :
    ((∀ p, (SocketUnixForked.construct prior pid p).isChild = true ↔ p = .child) ↔ prior = 0) ∧
    ((∀ attr es s, Run (step attr (SocketUnixForked.construct prior pid)) Possible {} es s →
      KeepsRole (SocketUnixForked.construct prior pid) pid s) ↔ prior = 0) := by
  refine ⟨⟨fun h => ?_, ?_⟩, ⟨fun h => ?_, ?_⟩⟩
  · -- the parent takes itself for the child
    by_contra hprior
    have hparent := (h .parent).mp
      ((SocketUnixForked.isChild_construct_parent prior pid).mpr hprior)
    exact Process.noConfusion hparent
  · rintro rfl p
    refine ⟨eq_child_of_isChild, ?_⟩
    rintro rfl
    exact SocketUnixForked.isChild_construct_child 0 pid
  · by_contra hprior
    -- its destructor then signals the process whose id it found
    obtain ⟨s, hrun, hmem⟩ := signalled_of_prior .default pid hprior
    exact Process.noConfusion ((h .default _ s hrun).signalled .parent prior hmem).1
  · rintro rfl attr es s hrun
    exact keepsRole_of_run hrun

/-- **Leftover memory**: built where the number 7 was left, the parent signals process 7 when it is
destroyed. -/
theorem not_roleDefined : ¬ ∀ (prior : ProcessId) (pid : Pid),
    (∀ p, (SocketUnixForked.construct prior pid p).isChild = true ↔ p = .child) ∧
    ∀ attr es s, Run (step attr (SocketUnixForked.construct prior pid)) Possible {} es s →
      KeepsRole (SocketUnixForked.construct prior pid) pid s := by
  intro h
  have hseven : (7 : ProcessId) ≠ 0 := by decide
  obtain ⟨s, hrun, hmem⟩ := signalled_of_prior .default ⟨1, by decide⟩ hseven
  exact Process.noConfusion (((h 7 ⟨1, by decide⟩).2 .default _ s hrun).signalled .parent 7 hmem).1

end ForkedPair

end SctpSandbox

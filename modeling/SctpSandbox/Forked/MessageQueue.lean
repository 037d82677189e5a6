import SctpSandbox.Forked.Effects

/-! # The backlog of the message queues

`send` puts one copy of its message into the peer's queue for each of five priorities, and a
`receive` takes one message out. So the queue keeps to its capacity exactly as long as each send
finds room for its five copies; that the peer receives between two sends does not bring this about.

Only the parent sends on a queue: the child holds the read end of the pipe, and its `send` throws
there, before it comes to the queue. -/

namespace SctpSandbox

/-- The operation puts a message into a queue. -/
def ForkedOp.isMqSend : ForkedOp → Bool
  | .mqSend _ _ => true
  | _ => false

namespace ForkedPair

variable {attr : MqAttr} {this : Process → SocketUnixForked} {s s' s₁ : ForkedPair} {p : Process}
  {prior : ProcessId} {pid : Pid} {op : ForkedOp} {ops more : List ForkedOp} {c : ForkedCall}
  {msg : ChatMessage} {prios : List ℕ}

/-- The messages waiting in each queue are within its capacity, and no message is left partly sent
by a failing `mq_send`. -/
structure KeepsToCapacity (attr : MqAttr) (s : ForkedPair) : Prop where
  waiting : ∀ mq, (s.queue mq).length ≤ attr.maxmsg
  sent : ∀ p msg prio, s.control p ≠ .threw (.mqSend msg prio)

/-- A send by the parent finds room for its copies in the child's queue, and the message is not too
long for it. -/
def Fits (attr : MqAttr) (s : ForkedPair) : Process × ForkedInput → Prop
  | (.parent, .call (.send msg prios)) =>
      (s.queue .child).length + prios.length ≤ attr.maxmsg ∧ msg.length ≤ attr.msgsize
  | _ => True

instance (attr : MqAttr) (s : ForkedPair) : DecidablePred (Fits attr s)
  | (.parent, .call (.send _ _)) => inferInstanceAs (Decidable (_ ∧ _))
  | (.parent, .call .receive) | (.parent, .resume _) | (.parent, .destroy) | (.child, _) =>
      isTrue trivial

/-! ## What is still to be sent -/

/-- In front of the operations on a queue there is a write to the pipe. -/
def BehindPipe : List ForkedOp → Prop
  | [] | .writePipe _ :: _ => True
  | .mqSend _ _ :: _ => False
  | _ :: ops => BehindPipe ops

/-- Where a process may stand with `n` messages waiting for the child: the parent has room for all
the copies it is going to send, the child has the pipe before it. -/
def Settled (attr : MqAttr) (n : ℕ) : Process → ForkedControl → Prop
  | .parent, c => n + c.remaining.countP ForkedOp.isMqSend ≤ attr.maxmsg ∧
      ∀ msg prio, .mqSend msg prio ∈ c.remaining → msg.length ≤ attr.msgsize
  | .child, c => BehindPipe c.remaining

/-- The invariant of the runs whose sends fit. -/
structure Backlog (attr : MqAttr) (s : ForkedPair) : Prop extends KeepsToCapacity attr s where
  settled : ∀ p, Settled attr (s.queue .child).length p (s.control p)

/-- At the start nothing waits in either queue. -/
theorem Backlog.initial (attr : MqAttr) : Backlog attr {} where
  waiting _ := Nat.zero_le _
  sent _ _ _ := ForkedControl.noConfusion
  settled p := by
    cases p with
    | parent => exact ⟨Nat.zero_le _, fun _ _ h => absurd h List.not_mem_nil⟩
    | child => trivial

/-- The waiting messages get fewer at most. -/
def Drains (s s' : ForkedPair) : Prop := ∀ mq, (s'.queue mq).length ≤ (s.queue mq).length

/-- Queues left alone are drained, trivially. -/
theorem drains_of_eq (h : s'.queue = s.queue) : Drains s s' := fun mq => by rw [h]

/-- A process stays settled when its queue shrinks and its remaining sends are among those it had.
-/
theorem Settled.imp {n n' : ℕ} {c c' : ForkedControl} (h : Settled attr n p c) (hn : n' ≤ n)
    (hparent : List.Sublist (c'.remaining.filter ForkedOp.isMqSend)
      (c.remaining.filter ForkedOp.isMqSend))
    (hchild : p = .child → BehindPipe c.remaining → BehindPipe c'.remaining) :
    Settled attr n' p c' := by
  cases p with
  -- the parent: fewer sends are left, for a queue no longer than before
  | parent =>
      refine ⟨?_, fun msg prio hmem => h.2 msg prio ?_⟩
      · have hcount := hparent.length_le
        rw [← List.countP_eq_length_filter, ← List.countP_eq_length_filter] at hcount
        have h₁ := h.1
        omega
      · have hfilter : ForkedOp.mqSend msg prio ∈ c'.remaining.filter ForkedOp.isMqSend :=
          List.mem_filter.mpr ⟨hmem, rfl⟩
        exact (List.mem_filter.mp (hparent.subset hfilter)).1
  | child => exact hchild rfl h

/-- Whatever puts nothing into a queue keeps the invariant, if the process that moves has no more to
send than before. -/
theorem Backlog.of_drains (h : Backlog attr s) (hcontrol : s'.control = s.control)
    (hdrains : Drains s s') {c' : ForkedControl}
    (hsettled : Settled attr (s'.queue .child).length p c')
    (hsent : ∀ msg prio, c' ≠ .threw (.mqSend msg prio)) :
    Backlog attr (s'.setControl p c') where
  waiting mq := (hdrains mq).trans (h.waiting mq)
  sent := forall_control_setControl (P := fun _ c => ∀ msg prio, c ≠ .threw (.mqSend msg prio))
    hsent fun q _ => hcontrol ▸ h.sent q
  settled := forall_control_setControl hsettled fun q _ => by
    rw [hcontrol]
    exact (h.settled q).imp (hdrains .child) (List.Sublist.refl _) fun _ hbehind => hbehind

/-- Nothing is sent. -/
theorem Backlog.of_still {a : ForkedAction} (h : Backlog attr s) {c' : ForkedControl}
    (hsettled : Settled attr (s.queue .child).length p c')
    (hsent : ∀ msg prio, c' ≠ .threw (.mqSend msg prio)) :
    Backlog attr ((s.record p a).setControl p c') :=
  h.of_drains (control_record s p a) (drains_of_eq (queue_record s p a)) hsettled hsent

/-! ## The operations -/

/-- A read from another channel keeps the queues drained. -/
theorem drains_reads {line : ChatMessage → ForkedAction} (h : Drains s s₁)
    (hs : Reads p line s₁ s') : Drains s s' := by
  rcases hs with rfl | ⟨msg, rfl⟩
  · exact h
  · exact h

/-- Only `mq_send` puts a message into a queue. -/
theorem leaves_perform_drains (attr : MqAttr) (t : SocketUnixForked) (s : ForkedPair) (p : Process)
    (answer : KernelAnswer) (hop : op.isMqSend = false) :
    (perform s p attr t answer op).Leaves fun s' _ => Drains s s' := by
  by_cases hch : op.channel = .queues
  · -- only a receive is left of the operations on the queues
    cases op with
    | mqSend msg prio => exact absurd hop (by simp [ForkedOp.isMqSend])
    | mqReceive =>
        rw [perform_mqReceive]
        split
        · refine (leaves_dequeue _ _).imp fun s' more ⟨_, prio, hs'⟩ => ?_
          rcases hs' with hs' | hs'
          · exact drains_reads (drains_of_eq rfl) hs'
          · refine drains_reads (fun mq => ?_) hs'
            by_cases hmq : mq = t.mq
            · subst hmq
              rw [queue_setQueue_self]
              exact List.length_eraseP_le
            · rw [queue_setQueue_ne _ _ _ hmq]
        · exact drains_of_eq rfl
    | _ => exact absurd hch Channel.noConfusion
  · exact (leaves_perform attr t s p answer op).imp fun s' _ h => drains_of_eq (h.1.queue hch)

/-- The operation that an acquired permit adds is no send to a queue. -/
theorem filter_more (h : more = [] ∨ ∃ i, op = .semTrywait i ∧ more = [.get i]) :
    (more ++ ops).filter ForkedOp.isMqSend = ops.filter ForkedOp.isMqSend := by
  rcases h with rfl | ⟨i, -, rfl⟩
  · rfl
  · rfl

/-- The operation that an acquired permit adds may stand before the write to the pipe. -/
theorem behindPipe_more (h : more = [] ∨ ∃ i, op = .semTrywait i ∧ more = [.get i])
    (hops : BehindPipe ops) : BehindPipe (more ++ ops) := by
  rcases h with rfl | ⟨i, -, rfl⟩
  · exact hops
  · exact hops

/-- The child gets past no write to the pipe. -/
theorem behindPipe_tail {answer : KernelAnswer} (h : BehindPipe (op :: ops))
    (heff : perform s .child attr (SocketUnixForked.construct prior pid .child) answer op =
      .goesOn s' more) : BehindPipe ops := by
  cases op with
  | writePipe msg =>
      obtain ⟨hp, -⟩ := writePipe_goesOn heff
      exact Process.noConfusion hp
  | mqSend msg prio => exact absurd h id
  | _ => exact h

/-- The sends of one call to the queue, counted: one for each priority. -/
theorem countP_mqSend (msg : ChatMessage) (prios : List ℕ) :
    (prios.map (ForkedOp.mqSend msg)).countP ForkedOp.isMqSend = prios.length := by
  rw [← List.length_map (ForkedOp.mqSend msg)]
  refine List.countP_eq_length.mpr fun op hop => ?_
  obtain ⟨prio, -, rfl⟩ := List.mem_map.mp hop
  rfl

/-- What a call that fits is going to send. -/
theorem settled_operations (h : Fits attr s (p, .call c)) (hcap : KeepsToCapacity attr s)
    (t : SocketUnixForked) :
    Settled attr (s.queue .child).length p (.busy c (operations t c)) := by
  cases c with
  | send msg prios =>
      rw [operations_send]
      cases p with
      | parent =>
          -- all of the copies are still to be sent
          obtain ⟨hroom, hshort⟩ := h
          refine ⟨?_, fun msg' prio hmem => ?_⟩
          · have hcount := countP_mqSend msg prios
            simpa [ForkedControl.remaining, List.countP_cons, ForkedOp.isMqSend, hcount]
              using hroom
          · simp only [ForkedControl.remaining, List.mem_cons, List.mem_append, List.mem_map,
              ForkedOp.mqSend.injEq, reduceCtorEq, false_or, List.not_mem_nil, or_false] at hmem
            obtain ⟨prio', -, rfl, -⟩ := hmem
            exact hshort
      | child => trivial
  | receive =>
      rw [operations_receive]
      cases p with
      | parent =>
          refine ⟨?_, fun msg prio hmem => ?_⟩
          · have hwaiting := hcap.waiting .child
            cases t.isChild <;> simpa [ForkedControl.remaining, ForkedOp.isMqSend] using hwaiting
          · cases hchild : t.isChild <;> simp [ForkedControl.remaining, hchild] at hmem
      | child => cases t.isChild <;> trivial

/-- Putting the next message in the queue. -/
theorem backlog_mqSend {msg : ChatMessage} {prio : ℕ} (h : Backlog attr s)
    (hbusy : s.control p = .busy c (.mqSend msg prio :: ops)) :
    p = .parent ∧ ((s.queue .child).length < attr.maxmsg ∧ msg.length ≤ attr.msgsize) ∧
      Backlog attr ((s.setQueue .child (s.queue .child ++ [(prio, msg)])).setControl p
        (.busy c ops)) := by
  have hsettled := h.settled p
  rw [hbusy] at hsettled
  cases p with
  | child => exact absurd hsettled id
  | parent =>
      obtain ⟨hroom, hshort⟩ := hsettled
      -- this copy is among those there was room for
      rw [ForkedControl.remaining, List.countP_cons_of_pos (by rfl)] at hroom
      have hlt : (s.queue .child).length < attr.maxmsg := by omega
      have hlen : (s.queue .child ++ [(prio, msg)]).length = (s.queue .child).length + 1 := by
        rw [List.length_append, List.length_singleton]
      refine ⟨rfl, ⟨hlt, hshort msg prio List.mem_cons_self⟩, ⟨fun mq => ?_, ?_⟩, ?_⟩
      · cases mq with
        | parent =>
            rw [queue_setControl, queue_setQueue_ne _ _ _ (by simp)]
            exact h.waiting .parent
        | child =>
            rw [queue_setControl, queue_setQueue_self, hlen]
            exact hlt
      · exact forall_control_setControl
          (P := fun _ c => ∀ msg prio, c ≠ .threw (.mqSend msg prio))
          (fun _ _ => ForkedControl.noConfusion) fun q _ => h.sent q
      · rw [queue_setControl, queue_setQueue_self, hlen]
        refine forall_control_setControl ?_ fun q hq => ?_
        · refine ⟨?_, fun msg' prio' hmem => hshort msg' prio' (List.mem_cons_of_mem _ hmem)⟩
          rw [ForkedControl.remaining]
          omega
        · -- the child's operations do not depend on what is waiting
          have hchild := h.settled q
          cases q with
          | parent => exact absurd rfl hq
          | child => exact hchild

/-! ## Steps and runs -/

/-- **A step whose send fits keeps the backlog within the capacity.** -/
theorem backlog_move {input : ForkedInput} (h : Backlog attr s) (hfits : Fits attr s (p, input))
    (hmove : Move attr (SocketUnixForked.construct prior pid) s p input s') :
    Backlog attr s' := by
  cases hmove with
  | called c hready _ =>
      exact h.of_still (settled_operations hfits h.toKeepsToCapacity _)
        fun _ _ => ForkedControl.noConfusion
  | returned c answer hbusy =>
      have hsettled := h.settled p
      rw [hbusy] at hsettled
      exact h.of_still (hsettled.imp le_rfl (List.Sublist.refl _) fun _ hops => hops)
        fun _ _ => ForkedControl.noConfusion
  | destroyed hcontrol =>
      have hnone : Settled attr (s.queue .child).length p .destroyed :=
        (h.settled p).imp le_rfl (List.nil_sublist _) fun _ _ => trivial
      rw [destroy]
      split
      · exact h.of_still hnone fun _ _ => ForkedControl.noConfusion
      · exact h.of_drains rfl (drains_of_eq rfl) hnone fun _ _ => ForkedControl.noConfusion
  | goesOn c op ops more answer s₁ hbusy _ heff =>
      have hsettled := h.settled p
      rw [hbusy] at hsettled
      cases hop : op.isMqSend with
      | true =>
          cases op with
          | mqSend msg prio =>
              -- one more waits and one fewer is to be sent
              obtain ⟨rfl, hroom, hnext⟩ := backlog_mqSend h hbusy
              rw [perform_mqSend] at heff
              obtain ⟨rfl, rfl⟩ := ForkedEffect.goesOn.inj ((if_pos hroom).symm.trans heff)
              exact hnext
          | _ => exact absurd hop Bool.false_ne_true
      | false =>
          obtain ⟨huses, hmore⟩ := uses_of_goesOn heff
          have hdrains := leaves_perform_drains attr (SocketUnixForked.construct prior pid p) s p
            answer hop
          rw [heff] at hdrains
          refine h.of_drains huses.control hdrains ?_ fun _ _ => ForkedControl.noConfusion
          refine hsettled.imp (hdrains .child) ?_ fun hp hbehind => ?_
          · rw [ForkedControl.remaining, filter_more hmore]
            exact (List.sublist_cons_self op ops).filter _
          · subst hp
            exact behindPipe_more hmore (behindPipe_tail hbehind heff)
  | throws c op ops answer s₁ hbusy _ heff =>
      cases hop : op.isMqSend with
      | true =>
          cases op with
          | mqSend msg prio =>
              obtain ⟨rfl, hroom, -⟩ := backlog_mqSend h hbusy
              rw [perform_mqSend] at heff
              -- there was room, so that `mq_send` does not fail
              exact absurd ((if_pos hroom).symm.trans heff) (by simp)
          | _ => exact absurd hop Bool.false_ne_true
      | false =>
          have hdrains := leaves_perform_drains attr (SocketUnixForked.construct prior pid p) s p
            answer hop
          rw [heff] at hdrains
          refine h.of_drains (uses_of_throws heff).control hdrains ?_ ?_
          · exact (h.settled p).imp (hdrains .child) (List.nil_sublist _) fun _ _ => trivial
          · rintro msg prio heq
            obtain rfl := ForkedControl.threw.inj heq
            exact Bool.false_ne_true hop.symm
  | outOfBounds c op ops answer hbusy _ heff =>
      refine h.of_drains rfl (drains_of_eq rfl) ?_ fun _ _ => ForkedControl.noConfusion
      exact (h.settled p).imp le_rfl (List.nil_sublist _) fun _ _ => trivial

/-- A busy process whose operation goes on continues with the rest. -/
theorem step_goesOn {answer : KernelAnswer} (hbusy : s.control p = .busy c (op :: ops))
    (heff : perform s p attr (this p) answer op = .goesOn s₁ more) :
    step attr this s (p, .resume answer) =
      .returned (s₁.setControl p (.busy c (more ++ ops))) := by
  rw [step, resume, hbusy]
  show Outcome.returned (proceed s p c op ops (perform s p attr (this p) answer op)) = _
  rw [heff]
  rfl

/-- A busy process may be resumed with a fitting answer of the kernel. -/
theorem possible_resume {answer : KernelAnswer} (hbusy : s.control p = .busy c (op :: ops))
    (hanswer : Answers answer op) : s.Possible (p, .resume answer) := by
  show Resumes answer (s.control p)
  rw [hbusy]
  exact hanswer

/-- A process on its own comes to a failing `mq_send` of a message. -/
def LeftPartlySent (attr : MqAttr) (this : Process → SocketUnixForked) (s : ForkedPair)
    (p : Process) (msg : ChatMessage) : Prop :=
  ∃ (answers : List KernelAnswer) (s' : ForkedPair),
    Run (step attr this) Possible s (answers.map fun answer => (p, .resume answer)) s' ∧
      ∃ prio, s'.control p = .threw (.mqSend msg prio)

/-- A message left partly sent after one more operation was left so before it. -/
theorem LeftPartlySent.of_goesOn {answer : KernelAnswer}
    (hbusy : s.control p = .busy c (op :: ops)) (hanswer : Answers answer op)
    (heff : perform s p attr (this p) answer op = .goesOn s₁ [])
    (h : LeftPartlySent attr this (s₁.setControl p (.busy c ops)) p msg) :
    LeftPartlySent attr this s p msg := by
  obtain ⟨answers, s', hrun, hthrew⟩ := h
  exact ⟨answer :: answers, s',
    .cons (possible_resume hbusy hanswer) (step_goesOn hbusy heff) hrun, hthrew⟩

/-- Copies for which there is no room: one `mq_send` fails. -/
theorem leftPartlySent_mqSend (hbusy : s.control p = .busy c (prios.map (.mqSend msg) ++ ops))
    (hwaiting : (s.queue (this p).peerMq).length ≤ attr.maxmsg)
    (hfull : attr.maxmsg < (s.queue (this p).peerMq).length + prios.length ∨
      prios ≠ [] ∧ attr.msgsize < msg.length) : LeftPartlySent attr this s p msg := by
  induction prios generalizing s with
  | nil =>
      rcases hfull with hfull | ⟨hne, -⟩
      · exact absurd (hwaiting.trans_lt hfull) (lt_irrefl _)
      · exact absurd rfl hne
  | cons prio prios ih =>
      have heff := perform_mqSend attr (this p) s p .refused msg prio
      by_cases hroom : (s.queue (this p).peerMq).length < attr.maxmsg ∧ msg.length ≤ attr.msgsize
      · rw [if_pos hroom] at heff
        -- this copy fits, and the rest meet the same lack of room with one fewer to send
        refine .of_goesOn hbusy trivial heff (ih (control_setControl_self _ _ _) ?_ (.inl ?_))
        · simpa using Nat.succ_le_of_lt hroom.1
        · rcases hfull with hfull | ⟨-, hlong⟩
          · simp only [queue_setControl, queue_setQueue_self, List.length_append,
              List.length_singleton]
            rw [List.length_cons] at hfull
            omega
          · exact absurd hroom.2 (Nat.not_le.mpr hlong)
      · rw [if_neg hroom] at heff
        -- this copy is the one that fails
        have hstep : step attr this s (p, .resume .refused) =
            .returned (s.setControl p (.threw (.mqSend msg prio))) := by
          rw [step, resume, hbusy]
          show Outcome.returned (proceed s p c _ _ (perform s p attr (this p) .refused _)) = _
          rw [heff]
          rfl
        exact ⟨[.refused], _, .cons (possible_resume hbusy trivial) hstep (.nil _), prio,
          control_setControl_self _ _ _⟩

/-- What a `write` may return for any message. -/
theorem writes_length (msg : ChatMessage) : Writes msg msg.length := by
  rw [Writes]
  split
  · rfl
  · exact le_rfl

/-- A send of the parent that finds no room, on its own. -/
theorem leftPartlySent_send (hwaiting : (s.queue .child).length ≤ attr.maxmsg)
    (hprios : prios ≠ [])
    (hfits : ¬ Fits attr s (.parent, .call (.send msg prios)))
    (hbusy : s.control .parent = .busy c
      (operations (SocketUnixForked.construct prior pid .parent) (.send msg prios))) :
    LeftPartlySent attr (SocketUnixForked.construct prior pid) s .parent msg := by
  have hwrites : ∀ n, KernelAnswer.accepted msg.length = .accepted n → Writes msg n := by
    rintro n heq
    obtain rfl := KernelAnswer.accepted.inj heq
    exact writes_length msg
  have hfull : attr.maxmsg < (s.queue .child).length + prios.length ∨
      prios ≠ [] ∧ attr.msgsize < msg.length := by
    by_contra hnot
    obtain ⟨hroom, hshort⟩ := not_or.mp hnot
    exact hfits ⟨Nat.not_lt.mp hroom, Nat.not_lt.mp fun hlong => hshort ⟨hprios, hlong⟩⟩
  rw [operations_send] at hbusy
  -- the socket, the pipe and the named pipe take the message
  have hsend : perform s .parent attr (SocketUnixForked.construct prior pid .parent)
      (.accepted msg.length) (.send msg) = .goesOn _ [] := rfl
  refine .of_goesOn hbusy trivial hsend ?_
  refine .of_goesOn (control_setControl_self _ _ _) hwrites rfl ?_
  refine .of_goesOn (control_setControl_self _ _ _) hwrites rfl ?_
  exact leftPartlySent_mqSend (control_setControl_self _ _ _) hwaiting hfull

/-- Run lemma: the backlog's bound holds after every run that keeps to it. -/
theorem backlog_of_run {es : List (Process × ForkedInput)}
    (hrun : Run (step attr (SocketUnixForked.construct prior pid))
      (fun s e => s.Possible e ∧ Fits attr s e) {} es s) : Backlog attr s :=
  hrun.invariant_state (.initial attr) fun _ _ h hok =>
    step_keeps hok.1 fun _ hmove => backlog_move h hok.2 hmove

/-- **The queues keep to their capacity in the runs whose sends fit.** In every run of the two
processes in which the parent sends only what finds room for its copies, no queue overflows and no
`mq_send` fails, for any capacity. And the condition is exact: from a state of such a run a send of
the parent that does not fit is left partly sent, unless the child receives meanwhile. -/
theorem keepsToCapacity_of_run (attr : MqAttr) (prior : ProcessId) (pid : Pid)
    {es : List (Process × ForkedInput)}
    (hrun : Run (step attr (SocketUnixForked.construct prior pid))
      (fun s e => s.Possible e ∧ Fits attr s e) {} es s) :
    KeepsToCapacity attr s ∧ ∀ msg prios, s.Possible (.parent, .call (.send msg prios)) →
      ¬ Fits attr s (.parent, .call (.send msg prios)) →
      LeftPartlySent attr (SocketUnixForked.construct prior pid)
        (step attr (SocketUnixForked.construct prior pid) s
          (.parent, .call (.send msg prios))).state .parent msg := by
  have hbacklog := backlog_of_run hrun
  refine ⟨hbacklog.toKeepsToCapacity, fun msg prios hpossible hfits => ?_⟩
  obtain ⟨hready, hperm⟩ : s.control .parent = .ready ∧ prios.Perm (List.range 5) := hpossible
  have hprios : prios ≠ [] := by
    rintro rfl
    exact absurd hperm.length_eq (by simp)
  -- the call has written nothing yet: all the copies are to be sent
  have hcalled : (step attr (SocketUnixForked.construct prior pid) s
      (.parent, .call (.send msg prios))).state =
      (s.record .parent (.called (.send msg prios))).setControl .parent
        (.busy (.send msg prios) (operations
          (SocketUnixForked.construct prior pid .parent) (.send msg prios))) := by
    show call _ s .parent _ = _
    rw [call, hready]
  rw [hcalled]
  have hbusy := control_setControl_self (s.record .parent (.called (.send msg prios))) .parent
    (.busy (.send msg prios) (operations
      (SocketUnixForked.construct prior pid .parent) (.send msg prios)))
  exact leftPartlySent_send (hbacklog.waiting .child) hprios hfits hbusy

/-- Two messages from the parent, without a receive. -/
theorem keepsToCapacity_sample : KeepsToCapacity .default (Run.follow (step .default samplePair) {}
    (sampleSend ++ sampleSend)) :=
  (keepsToCapacity_of_run .default 0 ⟨1, by decide⟩ (run_of_allows (by decide +kernel))).1

/-- The process has returned from a send. -/
def ReturnedFromSend (p : Process) : Process × ForkedAction → Bool
  | (q, .returned (.send _ _)) => q = p
  | _ => false

/-- Since the last send of `p`, if any, the other process has completed a receive. -/
def Heard (s : ForkedPair) (p : Process) : Prop :=
  s.log.any (ReturnedFromSend p) →
    List.Sublist [(p.other, .returned .receive), (p.other, .called .receive)]
      (s.log.takeWhile fun a => !ReturnedFromSend p a)

/-- Each send waits for a receive of the peer. -/
def Alternates (s : ForkedPair) : Process × ForkedInput → Prop
  | (p, .call (.send _ _)) => s.Heard p
  | _ => True

instance (s : ForkedPair) (p : Process) : Decidable (s.Heard p) :=
  inferInstanceAs (Decidable (_ → _))

instance (s : ForkedPair) : DecidablePred s.Alternates
  | (p, .call (.send _ _)) => inferInstanceAs (Decidable (s.Heard p))
  | (_, .call .receive) | (_, .resume _) | (_, .destroy) => isTrue trivial

/-- Two messages that the child receives, and a third one. -/
def sampleThird : List (Process × ForkedInput) :=
  sampleSend ++ sampleReceive .child 9 ++ sampleSend ++ sampleReceive .child 9 ++ sampleSend.take 7

/-- **The third message does not fit**: with a queue of ten, five copies come in for each one that
is taken out. -/
theorem not_keepsToCapacity : ¬ ∀ (attr : MqAttr) (prior : ProcessId) (pid : Pid)
    (es : List (Process × ForkedInput)) (s : ForkedPair),
    Run (step attr (SocketUnixForked.construct prior pid))
      (fun s e => s.Possible e ∧ s.Alternates e) {} es s → KeepsToCapacity attr s := by
  intro h
  have hthird : Run.Allows (step .default samplePair) (fun s e => s.Possible e ∧ s.Alternates e) {}
        sampleThird ∧
      (Run.follow (step .default samplePair) {} sampleThird).control .parent =
        .threw (.mqSend (ascii "hi") 2) := by decide +kernel
  have hcap : KeepsToCapacity .default (Run.follow (step .default samplePair) {} sampleThird) :=
    h _ _ _ _ _ (run_of_allows hthird.1)
  exact hcap.sent .parent (ascii "hi") 2 hthird.2

end ForkedPair

end SctpSandbox

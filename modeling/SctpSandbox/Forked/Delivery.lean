import SctpSandbox.Forked.Pipes

/-! # What the socket pair and the message queues deliver

The socket pair carries whole datagrams both ways. The message queue of the child holds a copy of
each message for each of five priorities, and gives out the oldest of the highest priority first; so
the copies of one priority come out in the order in which they went in. A `Conduit` is what these
channels have in common: operations of one process that write to it, lines that tell what was read,
and the messages that wait in it. Whatever the interleaving, what was read and what waits are the
messages sent, in order (`Conduit.flow_of_run`). -/

namespace SctpSandbox

/-- The message that an operation sends on the socket pair. -/
def ForkedOp.toSocket : ForkedOp → Option ChatMessage
  | .send msg => some msg
  | _ => none

/-- The message that an operation puts into a queue with priority `k`. -/
def ForkedOp.toQueue (k : ℕ) : ForkedOp → Option ChatMessage
  | .mqSend msg prio => if prio = k then some msg else none
  | _ => none

/-- What holds of what an operation leaves, taken together. -/
theorem ForkedEffect.Leaves.and {P Q : ForkedPair → List ForkedOp → Prop} {e : ForkedEffect}
    (hP : e.Leaves P) (hQ : e.Leaves Q) : e.Leaves fun s ops => P s ops ∧ Q s ops := by
  cases e with
  | goesOn s ops => exact ⟨hP, hQ⟩
  | throws s => exact ⟨hP, hQ⟩
  | outOfBounds => trivial

namespace ForkedPair

variable {attr : MqAttr} {this : Process → SocketUnixForked} {s s' s₁ : ForkedPair} {p q : Process}
  {prior : ProcessId} {pid : Pid} {op : ForkedOp} {ops more : List ForkedOp} {c : ForkedCall}
  {msg : ChatMessage} {prios : List ℕ} {answer : KernelAnswer} {k : ℕ}
  {g : ForkedOp → Option ChatMessage} {sent written : List ChatMessage}

/-- A message that a process sends. -/
def lineSentBy (p : Process) : Process × ForkedAction → Option ChatMessage
  | (q, .called (.send msg _)) => if q = p then some msg else none
  | _ => none

/-- The messages that a process sends. -/
def sentBy (p : Process) : ForkedPair → List ChatMessage := told (lineSentBy p)

/-- Every message sent is plain. -/
def PlainInput : Process × ForkedInput → Prop
  | (_, .call (.send msg _)) => Plain msg
  | _ => True

instance : DecidablePred PlainInput
  | (_, .call (.send msg _)) => inferInstanceAs (Decidable (Plain msg))
  | (_, .call .receive) | (_, .resume _) | (_, .destroy) => isTrue trivial

/-- The use of a channel sends nothing anew. -/
theorem sentBy_uses {ch : Channel} (h : Uses ch q s s') : s'.sentBy p = s.sentBy p := by
  refine told_uses h fun q' a ha => ?_
  cases a with
  | called c => exact absurd ha (by simp [ForkedAction.channel])
  | _ => rfl

/-- A channel through which a process sends messages. -/
structure Conduit (attr : MqAttr) (this : Process → SocketUnixForked) (p : Process) where
  /-- The message that an operation writes to it. -/
  writes : ForkedOp → Option ChatMessage
  /-- The message that a line tells to have been read from it. -/
  line : Process × ForkedAction → Option ChatMessage
  /-- The messages that wait in it, the oldest first. -/
  waiting : ForkedPair → List ChatMessage
  /-- A send writes its message once. -/
  once : ∀ msg prios, prios.Perm (List.range 5) →
    (operations (this p) (.send msg prios)).filterMap writes = [msg]
  receive : (operations (this p) .receive).filterMap writes = []
  writes_get : ∀ i, writes (.get i) = none
  line_called : ∀ q c, line (q, .called c) = none
  line_returned : ∀ q c, line (q, .returned c) = none
  line_signalled : ∀ q pid, line (q, .signalled pid) = none
  waiting_record : ∀ s q a, waiting (s.record q a) = waiting s
  waiting_setControl : ∀ s q c, waiting (s.setControl q c) = waiting s
  /-- A write of the sender puts its message behind the others, or throws. -/
  write : ∀ s answer op msg, writes op = some msg →
    perform s p attr (this p) answer op = .throws s ∨
      ∃ s', perform s p attr (this p) answer op = .goesOn s' [] ∧
        told line s' = told line s ∧ waiting s' = waiting s ++ [msg]
  /-- Whatever else is done moves messages from the front to those read. -/
  keeps : ∀ s q answer op, (∀ msg ∈ waiting s, Plain msg) → (q = p → writes op = none) →
    (perform s q attr (this q) answer op).Leaves fun s' _ =>
      told line s' ++ waiting s' = told line s ++ waiting s

namespace Conduit

variable (C : Conduit attr this p)

/-- The messages read from the conduit, and those that wait in it. -/
def carried (s : ForkedPair) : List ChatMessage := told C.line s ++ C.waiting s

/-- What was read and what waits is what was written of the messages sent, and these are plain. -/
structure Flow (s : ForkedPair) : Prop where
  plain : ∀ msg ∈ s.sentBy p, Plain msg
  written : Written C.writes (s.sentBy p) (C.carried s) (s.control p)

variable {C}

/-- A process moves; if it is the sender, it goes on with what is left to write. -/
theorem written_setControl (h : Written g sent written (s.control p))
    (hcontrol : s₁.control = s.control) {c' : ForkedControl}
    (hself : q = p → Written g sent written c') :
    Written g sent written ((s₁.setControl q c').control p) := by
  by_cases hqp : q = p
  · subst hqp
    rw [control_setControl_self]
    exact hself rfl
  · rw [control_setControl_ne _ _ _ fun h => hqp h.symm, hcontrol]
    exact h

/-- What a conduit carries does not depend on where the processes stand. -/
theorem carried_setControl (s : ForkedPair) (q : Process) (c' : ForkedControl) :
    C.carried (s.setControl q c') = C.carried s := by
  rw [carried, carried, C.waiting_setControl]
  rfl

/-- A logged line of another conduit leaves what this one carries. -/
theorem carried_record {a : ForkedAction} (s : ForkedPair) (ha : C.line (q, a) = none) :
    C.carried (s.record q a) = C.carried s := by
  rw [carried, carried, C.waiting_record, told_record_none s ha]

/-- A process moves, and nothing is carried that was not carried before. -/
theorem Flow.of_carried {c' : ForkedControl} (h : C.Flow s) (hcontrol : s₁.control = s.control)
    (hsent : s₁.sentBy p = s.sentBy p) (hcarried : C.carried s₁ = C.carried s)
    (hself : q = p → Written C.writes (s.sentBy p) (C.carried s) c') :
    C.Flow (s₁.setControl q c') := by
  have hs : (s₁.setControl q c').sentBy p = s.sentBy p := hsent
  refine ⟨hs ▸ h.plain, ?_⟩
  rw [hs, carried_setControl, hcarried]
  exact written_setControl h.written hcontrol hself

/-- A process stops. -/
theorem Flow.stopped {c' : ForkedControl} (h : C.Flow s) (hcontrol : s₁.control = s.control)
    (hsent : s₁.sentBy p = s.sentBy p) (hcarried : C.carried s₁ = C.carried s)
    (hstopped : (∃ op, c' = .threw op) ∨ c' = .outOfBounds ∨ c' = .destroyed) :
    C.Flow (s₁.setControl q c') := by
  refine h.of_carried hcontrol hsent hcarried fun _ => ?_
  rcases hstopped with ⟨op, rfl⟩ | rfl | rfl
  · exact h.written.isPrefix
  · exact h.written.isPrefix
  · exact h.written.isPrefix

/-- Only plain messages wait in a conduit that flows. -/
theorem Flow.waiting_plain (h : C.Flow s) : ∀ msg ∈ C.waiting s, Plain msg := fun msg hmem =>
  h.plain msg (h.written.isPrefix.subset (List.mem_append_right _ hmem))

/-- A process calls a member function. -/
theorem flow_called (h : C.Flow s) (hready : s.control q = .ready)
    (hprios : ∀ msg prios, c = .send msg prios → prios.Perm (List.range 5))
    (hplain : PlainInput (q, .call c)) :
    C.Flow ((s.record q (.called c)).setControl q (.busy c (operations (this q) c))) := by
  have hcarried := carried_record (C := C) s (C.line_called q c)
  -- only the sender's own call changes what was sent
  by_cases hq : q = p
  · subst hq
    have hwritten := h.written
    rw [hready] at hwritten
    have hfinal : ((s.record q (.called c)).setControl q
        (.busy c (operations (this q) c))).sentBy q =
        s.sentBy q ++ (lineSentBy q (q, .called c)).toList := told_record _ s q _
    cases c with
    | send msg prios =>
        rw [lineSentBy, if_pos rfl, Option.toList_some] at hfinal
        refine ⟨fun m hm => ?_, ?_⟩
        · rw [hfinal] at hm
          rcases List.mem_append.mp hm with hm | hm
          · exact h.plain m hm
          · exact List.mem_singleton.mp hm ▸ hplain
        · -- the message is sent, and its write still to be made
          rw [hfinal, control_setControl_self, carried_setControl, hcarried, Written,
            C.once msg prios (hprios msg prios rfl)]
          exact congrArg (· ++ [msg]) hwritten
    | receive =>
        refine h.of_carried rfl (told_record_none s rfl) hcarried fun _ => ?_
        rw [Written, C.receive, List.append_nil]
        exact hwritten
  · refine h.of_carried rfl (told_record_none s ?_) hcarried fun heq => absurd heq hq
    cases c with
    | send msg prios => exact if_neg hq
    | receive => rfl

/-- A process goes on behind an operation. -/
theorem flow_goesOn (h : C.Flow s) (hbusy : s.control q = .busy c (op :: ops))
    (heff : perform s q attr (this q) answer op = .goesOn s₁ more) :
    C.Flow (s₁.setControl q (.busy c (more ++ ops))) := by
  obtain ⟨huses, hmore⟩ := uses_of_goesOn heff
  have hsent : s₁.sentBy p = s.sentBy p := sentBy_uses huses
  have hwritten := h.written
  -- the step is no write to this conduit
  by_cases hwrite : q = p → C.writes op = none
  · have hkeeps := C.keeps s q answer op h.waiting_plain hwrite
    rw [heff] at hkeeps
    refine h.of_carried huses.control hsent hkeeps fun hq => ?_
    subst hq
    rw [hbusy] at hwritten
    refine hwritten.next (hwrite rfl) ?_
    rcases hmore with rfl | ⟨i, -, rfl⟩
    · rfl
    · rw [List.filterMap_cons_none (C.writes_get i), List.filterMap_nil]
  · -- the sender writes its message
    obtain ⟨rfl, hsome⟩ := Classical.not_imp.mp hwrite
    obtain ⟨msg, hmsg⟩ := Option.ne_none_iff_exists'.mp hsome
    rcases C.write s answer op msg hmsg with hthrows | ⟨s₂, hgoes, htold, hwaiting⟩
    · exact absurd (hthrows.symm.trans heff) ForkedEffect.noConfusion
    · obtain ⟨rfl, rfl⟩ := ForkedEffect.goesOn.inj (hgoes.symm.trans heff)
      rw [hbusy] at hwritten
      have hs : (s₂.setControl q (.busy c ([] ++ ops))).sentBy q = s.sentBy q := hsent
      refine ⟨hs ▸ h.plain, ?_⟩
      rw [hs, control_setControl_self, carried_setControl, carried, htold, hwaiting,
        ← List.append_assoc]
      exact hwritten.concat hmsg

/-- An operation throws, and carries nothing. -/
theorem carried_of_throws (h : C.Flow s)
    (heff : perform s q attr (this q) answer op = .throws s₁) : C.carried s₁ = C.carried s := by
  by_cases hwrite : q = p → C.writes op = none
  · have hkeeps := C.keeps s q answer op h.waiting_plain hwrite
    rw [heff] at hkeeps
    exact hkeeps
  · obtain ⟨rfl, hsome⟩ := Classical.not_imp.mp hwrite
    obtain ⟨msg, hmsg⟩ := Option.ne_none_iff_exists'.mp hsome
    rcases C.write s answer op msg hmsg with hthrows | ⟨s₂, hgoes, -⟩
    · rw [ForkedEffect.throws.inj (hthrows.symm.trans heff)]
    · exact absurd (hgoes.symm.trans heff) ForkedEffect.noConfusion

/-- **A step of either process.** -/
theorem flow_move {input : ForkedInput} (h : C.Flow s) (hplain : PlainInput (q, input))
    (hmove : Move attr this s q input s') : C.Flow s' := by
  cases hmove with
  | called c hready hprios => exact flow_called h hready hprios hplain
  -- all writes are done when the call returns
  | returned c answer hbusy =>
      refine h.of_carried rfl (told_record_none s rfl) (carried_record s (C.line_returned q c))
        fun hq => ?_
      subst hq
      have hwritten := h.written
      rw [hbusy, Written, List.filterMap_nil, List.append_nil] at hwritten
      exact hwritten
  | goesOn c op ops more answer s₁ hbusy hanswer heff => exact flow_goesOn h hbusy heff
  | throws c op ops answer s₁ hbusy hanswer heff =>
      have huses := uses_of_throws heff
      exact h.stopped huses.control (sentBy_uses huses) (carried_of_throws h heff) (.inl ⟨op, rfl⟩)
  | outOfBounds c op ops answer hbusy _ heff => exact h.stopped rfl rfl rfl (.inr (.inl rfl))
  | destroyed hcontrol =>
      rw [destroy]
      split
      · exact h.stopped rfl (told_record_none s rfl) (carried_record s (C.line_signalled q _))
          (.inr (.inr rfl))
      · exact h.stopped rfl rfl rfl (.inr (.inr rfl))

/-- **What is carried is what was sent**, as far as it was written. -/
theorem flow_of_run (C : Conduit attr this p) (hempty : C.waiting {} = [])
    {es : List (Process × ForkedInput)}
    (hrun : Run (step attr this) (fun s e => s.Possible e ∧ PlainInput e) {} es s) : C.Flow s := by
  refine hrun.invariant_state (I := C.Flow) ⟨fun _ h => absurd h List.not_mem_nil, ?_⟩
    fun s e h hok => step_keeps hok.1 fun s' hmove => flow_move h hok.2 hmove
  show C.carried {} = []
  rw [carried, hempty]
  rfl

end Conduit

/-! ## The socket pair -/

/-- The socket that a process keeps after the fork. -/
def socketOf : Process → SocketEnd
  | .parent => .second
  | .child => .first

/-- Each process's socket is its own end of the pair. -/
theorem fd_construct (prior : ProcessId) (pid : Pid) (p : Process) :
    (SocketUnixForked.construct prior pid p).fd = some (socketOf p) := by
  cases p <;> rfl

/-- The other end of the pair belongs to the other process. -/
theorem other_socketOf (p : Process) : (socketOf p).other = socketOf p.other := by
  cases p <;> rfl

/-- The two processes hold different ends of the pair. -/
theorem socketOf_other_ne (p : Process) : socketOf p.other ≠ socketOf p := by
  cases p <;> exact SocketEnd.noConfusion

/-- Setting one end of the pair leaves the other. -/
theorem socketPair_setSocket_ne {e e' : SocketEnd} (data : List ChatMessage) (h : e' ≠ e) :
    (s.setSocket e data).socketPair e' = s.socketPair e' := Function.update_of_ne h _ _

/-- An end of the pair that is set holds what it was set to. -/
theorem socketPair_setSocket_self {e : SocketEnd} (data : List ChatMessage) :
    (s.setSocket e data).socketPair e = data := Function.update_self _ _ _

/-- A message that a process receives from the socket pair. -/
def lineFromSocket (p : Process) : Process × ForkedAction → Option ChatMessage
  | (q, .received msg) => if q = p then some msg else none
  | _ => none

/-- A read from somewhere else leaves the pair as it is. -/
theorem socketPair_reads {line : ChatMessage → ForkedAction} (h : Reads p line s s') :
    s'.socketPair = s.socketPair := by
  rcases h with rfl | ⟨msg, rfl⟩
  · rfl
  · rfl

/-- Only the operations on the socket pair change what waits there. -/
theorem socketPair_perform (attr : MqAttr) (t : SocketUnixForked) (s : ForkedPair) (p : Process)
    (answer : KernelAnswer) (hop : op.channel ≠ .socketPair) :
    (perform s p attr t answer op).Leaves fun s' _ => s'.socketPair = s.socketPair := by
  cases op with
  | send msg => exact absurd rfl hop
  | receive => exact absurd rfl hop
  -- the pipes' writes leave the pair, whatever the kernel accepts
  | writePipe msg =>
      rcases perform_writePipe attr t s p answer msg with heq | ⟨n, -, -, heq⟩
      · exact heq ▸ rfl
      · exact heq ▸ rfl
  | writeNamedPipe msg =>
      rcases perform_writeNamedPipe attr t s p answer msg with heq | ⟨n, -, -, heq⟩
      · exact heq ▸ rfl
      · exact heq ▸ rfl
  | mqSend msg prio =>
      rw [perform_mqSend]
      split
      · rfl
      · rfl
  | set i v => rfl
  | semPost i =>
      rw [perform_semPost]
      split
      · rfl
      · rfl
  | semTrywait i =>
      rw [perform_semTrywait]
      split
      · rfl
      · rfl
  | get i => rfl
  -- a read logs its line and takes from its own channel
  | readPipe =>
      rcases perform_readPipe attr t s p answer with ⟨-, heq⟩ | ⟨-, heq⟩
      · exact heq ▸ rfl
      · rw [heq]
        exact (leaves_readPackets _).imp fun s' _ ⟨_, _, hs'⟩ => (socketPair_reads hs').trans rfl
  | readNamedPipe =>
      rcases perform_readNamedPipe attr t s p answer with ⟨-, heq⟩ | ⟨-, heq⟩
      · exact heq ▸ rfl
      · rw [heq]
        exact (leaves_readBytes _).imp fun s' _ ⟨_, _, hs'⟩ => (socketPair_reads hs').trans rfl
  | mqReceive =>
      rw [perform_mqReceive]
      split
      · refine (leaves_dequeue _ _).imp fun s' _ ⟨_, _, hs'⟩ => ?_
        rcases hs' with hs' | hs'
        · exact socketPair_reads hs'
        · exact (socketPair_reads hs').trans rfl
      · rfl

/-- A plain datagram is received as it was sent; the quit message throws then. -/
theorem handled_plain (s : ForkedPair) (p : Process) (h : Plain msg) :
    (handled s p (SocketUnixForked.receive msgBuffer (.wrote (msg.take msgBufferSize)))).Leaves
      fun s' _ => s' = s.record p (.received msg) := by
  have hle : msg.length ≤ msgBuffer.length := by
    rw [length_msgBuffer]
    exact h.length_lt.le
  have hfill := storeZero_fill hle
  rw [if_pos (by rw [length_msgBuffer]; exact h.length_lt)] at hfill
  -- the buffer is long enough for the message and the zero behind it
  have hreceive : SocketUnixForked.receive msgBuffer (.wrote msg) =
      .done (msg ++ 0 :: msgBuffer.drop (msg.length + 1), some msg) := by
    rw [SocketUnixForked.receive, receiveMessageWith, receiveTerminated,
      RecvCall.failedReceive_wrote, if_neg Bool.false_ne_true, hfill]
    show chatMessage _ = _
    rw [chatMessage_terminated, cStr_eq_self h.nul]
  rw [List.take_of_length_le h.length_lt.le, hreceive, handled]
  split
  · rfl
  · rfl

/-- What was received from process `p` on the socket pair, and what waits there for the other. -/
def socketCarried (p : Process) (s : ForkedPair) : List ChatMessage :=
  told (lineFromSocket p.other) s ++ s.socketPair (socketOf p.other)

/-- Operations elsewhere. -/
theorem socketCarried_apart (attr : MqAttr) (t : SocketUnixForked) (p q : Process) (s : ForkedPair)
    (answer : KernelAnswer) (hop : op.channel ≠ .socketPair) :
    (perform s q attr t answer op).Leaves fun s' _ => s'.socketCarried p = s.socketCarried p := by
  refine ((leaves_perform attr t s q answer op).and
    (socketPair_perform attr t s q answer hop)).imp fun s' _ ⟨huses, hsame⟩ => ?_
  have htold : told (lineFromSocket p.other) s' = told (lineFromSocket p.other) s := by
    refine told_uses huses.1 fun q' a ha => ?_
    cases a with
    | received msg => exact absurd (Option.some.inj ha).symm hop
    | _ => rfl
  exact congrArg₂ (· ++ ·) htold (congrFun hsame _)

/-- The other process sends to the sender's own socket. -/
theorem socketCarried_send (attr : MqAttr) (prior : ProcessId) (pid : Pid) (p : Process)
    (s : ForkedPair) (answer : KernelAnswer) (msg : ChatMessage) :
    (perform s p.other attr (SocketUnixForked.construct prior pid p.other) answer
      (.send msg)).Leaves fun s' _ => s'.socketCarried p = s.socketCarried p := by
  rcases perform_send attr (SocketUnixForked.construct prior pid p.other) s p.other answer msg with
    heq | ⟨e, he, heq⟩
  · exact heq ▸ rfl
  · rw [heq]
    rw [fd_construct] at he
    have hne : socketOf p.other ≠ e.other := by
      rw [← Option.some.inj he, other_socketOf]
      exact (socketOf_other_ne p.other).symm
    exact congrArg (told _ s ++ ·) (socketPair_setSocket_ne _ hne)

/-- The other process receives what has waited longest. -/
theorem socketCarried_receive (p : Process) (s : ForkedPair)
    (hplain : ∀ msg ∈ s.socketPair (socketOf p.other), Plain msg) :
    (receiveDatagram s p.other (socketOf p.other)
      (s.socketPair (socketOf p.other))).Leaves fun s' _ =>
        s'.socketCarried p = s.socketCarried p := by
  -- what is read moves from the pair to what was told
  cases hdata : s.socketPair (socketOf p.other) with
  | nil => exact rfl
  | cons data rest =>
      rw [hdata] at hplain
      refine (handled_plain _ _ (hplain data List.mem_cons_self)).imp fun s' _ hs' => ?_
      subst hs'
      rw [socketCarried, told_record, lineFromSocket, if_pos rfl, Option.toList_some, socketCarried,
        hdata]
      show (told _ s ++ [data]) ++ (s.setSocket _ rest).socketPair _ = _
      rw [socketPair_setSocket_self, List.append_assoc]
      rfl

/-- The sender receives from its own socket. -/
theorem socketCarried_own (p : Process) (s : ForkedPair) :
    (receiveDatagram s p (socketOf p) (s.socketPair (socketOf p))).Leaves fun s' _ =>
      s'.socketCarried p = s.socketCarried p := by
  have hne : p ≠ p.other := by cases p <;> exact Process.noConfusion
  -- a line about its own end tells nothing of the other direction
  have htold : ∀ (s₁ : ForkedPair) msg, (s₁.record p (.received msg)).socketCarried p =
      s₁.socketCarried p := fun s₁ msg =>
    congrArg (· ++ s₁.socketPair _) (told_record_none s₁ (if_neg hne))
  refine (leaves_receiveDatagram (socketOf p) _).imp fun s' _ ⟨_, rest, hs'⟩ => ?_
  have hset : (s.setSocket (socketOf p) rest).socketCarried p = s.socketCarried p :=
    congrArg (told _ s ++ ·) (socketPair_setSocket_ne _ (socketOf_other_ne p))
  rcases hs' with (rfl | ⟨msg, rfl⟩) | (rfl | ⟨msg, rfl⟩)
  · rfl
  · exact htold s msg
  · exact hset
  · exact (htold _ msg).trans hset

/-- What a process does on the socket pair that is not its own send. -/
theorem socket_keeps (attr : MqAttr) (prior : ProcessId) (pid : Pid) (p : Process) (s : ForkedPair)
    (q : Process) (answer : KernelAnswer) (op : ForkedOp)
    (hplain : ∀ msg ∈ s.socketPair (socketOf p.other), Plain msg)
    (hwrites : q = p → ForkedOp.toSocket op = none) :
    (perform s q attr (SocketUnixForked.construct prior pid q) answer op).Leaves fun s' _ =>
      s'.socketCarried p = s.socketCarried p := by
  -- only the pair's own operations touch what it carries
  by_cases hch : op.channel = .socketPair
  · have hq : q = p ∨ q = p.other := by cases p <;> cases q <;> simp [Process.other]
    cases op with
    | send msg =>
        -- the other process sends: the sender's sends are no case here
        obtain rfl := hq.resolve_left fun hq => Option.some_ne_none _ (hwrites hq)
        exact socketCarried_send attr prior pid p s answer msg
    | receive =>
        rcases perform_receive attr (SocketUnixForked.construct prior pid q) s q answer with
          heq | ⟨e, he, heq⟩
        · exact heq ▸ rfl
        · rw [fd_construct] at he
          obtain rfl := Option.some.inj he
          rw [heq]
          -- the process itself reads its own end, the other one reads what was sent to it
          rcases hq with rfl | rfl
          · exact socketCarried_own q s
          · exact socketCarried_receive p s hplain
    | _ => exact absurd hch Channel.noConfusion
  · exact socketCarried_apart attr _ p q s answer hch

/-- A `send` puts its message into the pair once. -/
theorem filterMap_toSocket (t : SocketUnixForked) (msg : ChatMessage) (prios : List ℕ) :
    (operations t (.send msg prios)).filterMap ForkedOp.toSocket = [msg] := by
  have hqueue : (prios.map (ForkedOp.mqSend msg)).filterMap ForkedOp.toSocket = [] := by
    rw [List.filterMap_eq_nil_iff]
    intro op hop
    obtain ⟨prio, -, rfl⟩ := List.mem_map.mp hop
    rfl
  rw [operations_send]
  simp [List.filterMap_cons, List.filterMap_append, hqueue, ForkedOp.toSocket]

/-- The socket pair, from a process to the other. -/
def socketConduit (attr : MqAttr) (prior : ProcessId) (pid : Pid) (p : Process) :
    Conduit attr (SocketUnixForked.construct prior pid) p where
  writes := ForkedOp.toSocket
  line := lineFromSocket p.other
  waiting := fun s => s.socketPair (socketOf p.other)
  once := fun msg prios _ => filterMap_toSocket _ msg prios
  receive := by
    rw [operations_receive]
    cases (SocketUnixForked.construct prior pid p).isChild <;> rfl
  writes_get := fun _ => rfl
  line_called := fun _ _ => rfl
  line_returned := fun _ _ => rfl
  line_signalled := fun _ _ => rfl
  waiting_record := fun _ _ _ => rfl
  waiting_setControl := fun _ _ _ => rfl
  write := by
    intro s answer op msg hop
    cases op with
    | send msg' =>
        obtain rfl := Option.some.inj hop
        rcases perform_send attr (SocketUnixForked.construct prior pid p) s p answer msg' with
          heq | ⟨e, he, heq⟩
        · exact .inl heq
        · rw [fd_construct] at he
          obtain rfl := Option.some.inj he
          refine .inr ⟨_, heq, rfl, ?_⟩
          rw [other_socketOf]
          exact socketPair_setSocket_self _
    | _ => exact absurd hop (Option.some_ne_none msg).symm
  keeps := socket_keeps attr prior pid p

/-! ## The message queue of the child -/

/-- A message that the child receives from its queue with priority `k`. -/
def lineFromQueue (k : ℕ) : Process × ForkedAction → Option ChatMessage
  | (.child, .receivedFromMessageQueue msg prio) => if prio = k then some msg else none
  | _ => none

/-- The messages of one priority in a queue. -/
def ofPriority (k : ℕ) (queue : List (ℕ × ChatMessage)) : List ChatMessage :=
  queue.filterMap fun m => if m.1 = k then some m.2 else none

/-- The messages of one priority in two queues put together. -/
theorem ofPriority_append (k : ℕ) (queue queue' : List (ℕ × ChatMessage)) :
    ofPriority k (queue ++ queue') = ofPriority k queue ++ ofPriority k queue' :=
  List.filterMap_append

/-- The messages of one priority, told by the queue's first message. -/
theorem ofPriority_cons (k : ℕ) (m : ℕ × ChatMessage) (queue : List (ℕ × ChatMessage)) :
    ofPriority k (m :: queue) = (if m.1 = k then [m.2] else []) ++ ofPriority k queue := by
  rw [ofPriority, List.filterMap_cons]
  split <;> rename_i h
  · rw [if_neg (by intro hk; simp [hk] at h)]
    rfl
  · by_cases hk : m.1 = k
    · rw [if_pos hk] at h ⊢
      rw [Option.some.inj h]
      rfl
    · simp [hk] at h

/-- A queue without a priority has no messages of it. -/
theorem ofPriority_eq_nil {queue : List (ℕ × ChatMessage)} (h : ∀ m ∈ queue, m.1 ≠ k) :
    ofPriority k queue = [] :=
  List.filterMap_eq_nil_iff.mpr fun m hm => if_neg (h m hm)

/-- The oldest message of one priority that is taken out is the oldest of its priority, and those of
other priorities stay. -/
theorem ofPriority_dequeued {queue : List (ℕ × ChatMessage)} {m : ℕ × ChatMessage} {n : ℕ}
    (hfind : queue.find? (fun m => m.1 = n) = some m) (k : ℕ) :
    ofPriority k queue = (if m.1 = k then [m.2] else []) ++
      ofPriority k (queue.eraseP fun m => m.1 = n) := by
  have hm : m.1 = n := by simpa using List.find?_some hfind
  obtain ⟨before, after, rfl, hbefore⟩ := (List.find?_eq_some_iff_append.mp hfind).2
  have hne : ∀ m' ∈ before, ¬ m'.1 = n := fun m' hm' => by simpa using hbefore m' hm'
  rw [List.eraseP_append_right _ (by simpa using hne), List.eraseP_cons_of_pos (by simpa using hm),
    ofPriority_append, ofPriority_append, ofPriority_cons]
  by_cases hk : m.1 = k
  · -- nothing in front of it has its priority
    have hnil : ofPriority k before = [] := ofPriority_eq_nil fun m' hm' heq =>
      hne m' hm' (heq.trans (hk.symm.trans hm))
    rw [hnil, if_pos hk]
    rfl
  · rw [if_neg hk]
    rfl

/-- A `send` puts its message into the queue once at each priority. -/
theorem filterMap_toQueue (t : SocketUnixForked) (msg : ChatMessage) (hk : k < 5)
    (hprios : prios.Perm (List.range 5)) :
    (operations t (.send msg prios)).filterMap (ForkedOp.toQueue k) = [msg] := by
  have hrange : ((List.range 5).filterMap fun prio => if prio = k then some msg else none) =
      [msg] :=
    match k, hk with
    | 0, _ | 1, _ | 2, _ | 3, _ | 4, _ => rfl
  have hqueue : (prios.map (ForkedOp.mqSend msg)).filterMap (ForkedOp.toQueue k) = [msg] := by
    rw [List.filterMap_map]
    -- each priority is used once
    have hperm := hprios.filterMap fun prio => if prio = k then some msg else none
    rw [hrange] at hperm
    exact List.perm_singleton.mp hperm
  rw [operations_send]
  simp [List.filterMap_cons, List.filterMap_append, hqueue, ForkedOp.toQueue]

/-- A plain message is read from a queue as it was sent. -/
theorem receiveFromMessageQueue_plain (h : Plain msg) :
    ∃ buf, SocketUnixForked.receiveFromMessageQueue msgBuffer (.wrote msg) =
      .done (buf, some msg) := by
  have hpos : (RecvCall.wrote msg).callResult.result > 0 := by
    simpa [RecvCall.callResult] using List.length_pos_iff.mpr h.nonempty
  have hle : msg.length ≤ msgBuffer.length := by
    rw [length_msgBuffer]
    exact h.length_lt.le
  have hfill := storeZero_fill hle
  rw [if_pos (by rw [length_msgBuffer]; exact h.length_lt)] at hfill
  -- the zero falls behind the message, so `cStr` gives it back
  refine ⟨msg ++ 0 :: msgBuffer.drop (msg.length + 1), ?_⟩
  rw [SocketUnixForked.receiveFromMessageQueue, pollMessage, RecvCall.failedMqReceive_wrote,
    if_neg Bool.false_ne_true, if_pos hpos, hfill]
  show chatMessage _ = _
  rw [chatMessage_terminated, cStr_eq_self h.nul]

/-- What the child takes from its queue, if the messages of priority `k` are plain. -/
theorem dequeue_keeps (s : ForkedPair)
    (hplain : ∀ msg ∈ ofPriority k (s.queue .child), Plain msg) :
    (dequeue s .child .child
      ((s.queue .child).find? fun m => m.1 = highest (s.queue .child))).Leaves fun s' _ =>
      told (lineFromQueue k) s' ++ ofPriority k (s'.queue .child) =
        told (lineFromQueue k) s ++ ofPriority k (s.queue .child) := by
  cases hfind : (s.queue .child).find? fun m => m.1 = highest (s.queue .child) with
  | none => exact rfl
  | some m =>
      have hdequeued := ofPriority_dequeued hfind k
      have hset : (s.setQueue .child ((s.queue .child).eraseP fun m =>
          m.1 = highest (s.queue .child))).queue .child =
          (s.queue .child).eraseP fun m => m.1 = highest (s.queue .child) :=
        queue_setQueue_self _ _ _
      -- a message of this priority is told and taken away, any other one is neither
      by_cases hk : m.1 = k
      · rw [if_pos hk] at hdequeued
        rw [hdequeued] at hplain
        obtain ⟨buf, hreceive⟩ := receiveFromMessageQueue_plain (hplain m.2 List.mem_cons_self)
        rw [dequeue, hreceive]
        show told _ (record _ _ _) ++ ofPriority k (queue (record _ _ _) .child) = _
        rw [told_record, queue_record, hset, hdequeued, lineFromQueue, if_pos hk,
          Option.toList_some, List.append_assoc]
        rfl
      · rw [if_neg hk] at hdequeued
        refine (leaves_obtained _ _).imp fun s' _ hobtained => ?_
        obtain rfl | ⟨msg, rfl⟩ := hobtained.2
        · rw [hset]
          exact congrArg (told _ s ++ ·) hdequeued.symm
        · rw [told_record_none _ (if_neg hk), queue_record, hset]
          exact congrArg (told _ s ++ ·) hdequeued.symm

/-- What a process does on the queues that is not the parent's send of this priority. -/
theorem queue_keeps (attr : MqAttr) (prior : ProcessId) (pid : Pid) (k : ℕ) (s : ForkedPair)
    (q : Process) (answer : KernelAnswer) (op : ForkedOp)
    (hplain : ∀ msg ∈ ofPriority k (s.queue .child), Plain msg)
    (hwrites : q = .parent → ForkedOp.toQueue k op = none) :
    (perform s q attr (SocketUnixForked.construct prior pid q) answer op).Leaves fun s' _ =>
      told (lineFromQueue k) s' ++ ofPriority k (s'.queue .child) =
        told (lineFromQueue k) s ++ ofPriority k (s.queue .child) := by
  have hne : MessageQueue.child ≠ .parent := MessageQueue.noConfusion
  by_cases hch : op.channel = .queues
  swap
  · refine (leaves_perform attr (SocketUnixForked.construct prior pid q) s q answer op).imp
      fun s' _ ⟨huses, _⟩ => ?_
    have htold : told (lineFromQueue k) s' = told (lineFromQueue k) s := by
      refine told_uses huses fun q' a ha => ?_
      cases a with
      | receivedFromMessageQueue msg prio => exact absurd (Option.some.inj ha).symm hch
      | _ => cases q' <;> rfl
    rw [htold, huses.queue hch]
  · cases op with
    | mqSend msg prio =>
        rw [perform_mqSend]
        split
        · cases q with
          | parent =>
              -- a message of another priority comes in
              have hprio : prio ≠ k := by
                rintro rfl
                exact Option.some_ne_none msg ((if_pos rfl).symm.trans (hwrites rfl))
              show told _ s ++ ofPriority k ((s.setQueue .child _).queue .child) = _
              rw [queue_setQueue_self, ofPriority_append, ofPriority_cons, if_neg hprio,
                List.nil_append]
              exact congrArg (told _ s ++ ·) (List.append_nil _)
          | child => exact congrArg (told _ s ++ ofPriority k ·) (queue_setQueue_ne _ _ _ hne)
        · rfl
    | mqReceive =>
        rw [perform_mqReceive]
        split
        · cases q with
          | child => exact dequeue_keeps s hplain
          | parent =>
              refine (leaves_dequeue _ _).imp fun s' _ ⟨_, prio, hs'⟩ => ?_
              rcases hs' with (rfl | ⟨msg, rfl⟩) | (rfl | ⟨msg, rfl⟩)
              · rfl
              · exact congrArg (· ++ _) (told_record_none s rfl)
              · exact congrArg (told _ s ++ ofPriority k ·) (queue_setQueue_ne _ _ _ hne)
              · rw [told_record_none _ rfl, queue_record]
                exact congrArg (told _ s ++ ofPriority k ·) (queue_setQueue_ne _ _ _ hne)
        · rfl
    | _ => exact absurd hch Channel.noConfusion

/-- The messages of one priority, from the parent to the queue of the child. -/
def queueConduit (attr : MqAttr) (prior : ProcessId) (pid : Pid) (hk : k < 5) :
    Conduit attr (SocketUnixForked.construct prior pid) .parent where
  writes := ForkedOp.toQueue k
  line := lineFromQueue k
  waiting := fun s => ofPriority k (s.queue .child)
  once := fun msg _ hprios => filterMap_toQueue _ msg hk hprios
  receive := by
    rw [operations_receive]
    cases (SocketUnixForked.construct prior pid .parent).isChild <;> rfl
  writes_get := fun _ => rfl
  line_called := fun q _ => by cases q <;> rfl
  line_returned := fun q _ => by cases q <;> rfl
  line_signalled := fun q _ => by cases q <;> rfl
  waiting_record := fun _ _ _ => rfl
  waiting_setControl := fun _ _ _ => rfl
  write := by
    intro s answer op msg hop
    cases op with
    | mqSend msg' prio =>
        have hprio : prio = k := by
          by_contra hne
          exact Option.some_ne_none msg (hop.symm.trans (if_neg hne))
        obtain rfl : msg' = msg := Option.some.inj ((if_pos hprio).symm.trans hop)
        rw [perform_mqSend]
        split
        · refine .inr ⟨_, rfl, rfl, ?_⟩
          show ofPriority k ((s.setQueue .child _).queue .child) = _
          rw [queue_setQueue_self, ofPriority_append, ofPriority_cons, if_pos hprio]
          rfl
        · exact .inl rfl
    | _ => exact absurd hop (Option.some_ne_none msg).symm
  keeps := queue_keeps attr prior pid k

/-- The priorities in a queue are at most the highest. -/
theorem le_highest {queue : List (ℕ × ChatMessage)} {m : ℕ × ChatMessage} (hm : m ∈ queue) :
    m.1 ≤ highest queue := by
  induction queue with
  | nil => exact absurd hm List.not_mem_nil
  | cons m' queue ih =>
      show m.1 ≤ max m'.1 (highest queue)
      rcases List.mem_cons.mp hm with rfl | hm
      · exact le_max_left _ _
      · exact (ih hm).trans (le_max_right _ _)

/-- A line about a message read from the queue `mq`, with the highest priority there. -/
def ReadsHighest (mq : MessageQueue) (p : Process) (s s' : ForkedPair) : Prop :=
  s'.log = s.log ∨
    ∃ msg, s'.log = (p, .receivedFromMessageQueue msg (highest (s.queue mq))) :: s.log

/-- The message taken has the highest priority of the queue. -/
theorem ReadsHighest.le {mq : MessageQueue} {prio : ℕ} (h : ReadsHighest mq p s s')
    (hlog : s'.log = (q, .receivedFromMessageQueue msg prio) :: s.log) :
    ∀ m ∈ s.queue mq, m.1 ≤ prio := by
  intro m hm
  rcases h with hsame | ⟨msg', hread⟩
  · exact absurd (hlog.symm.trans hsame) (List.cons_ne_self _ _)
  · obtain ⟨-, hline⟩ := Prod.mk.inj (List.cons.inj (hlog.symm.trans hread)).1
    rw [(ForkedAction.receivedFromMessageQueue.inj hline).2]
    exact le_highest hm

/-- What a process reads from a queue has the highest priority there. -/
theorem queues_readsHighest (attr : MqAttr) (t : SocketUnixForked) (s : ForkedPair) (p : Process)
    (answer : KernelAnswer) (hop : op.channel = .queues) :
    (perform s p attr t answer op).Leaves fun s' _ => ReadsHighest t.mq p s s' := by
  cases op with
  | mqSend msg prio =>
      -- a send takes nothing, and the receive takes the first of the highest
      rw [perform_mqSend]
      split
      · exact .inl rfl
      · exact .inl rfl
  | mqReceive =>
      rw [perform_mqReceive]
      split
      · cases hfind : (s.queue t.mq).find? fun m => m.1 = highest (s.queue t.mq) with
        | none => exact .inl rfl
        | some m =>
            have hm : m.1 = highest (s.queue t.mq) := by simpa using List.find?_some hfind
            refine (leaves_obtained _ _).imp fun s' _ ⟨_, hs'⟩ => ?_
            rcases hs' with rfl | ⟨msg, rfl⟩
            · exact .inl rfl
            · exact .inr ⟨msg, hm ▸ rfl⟩
      · exact .inl rfl
  | _ => exact absurd hop Channel.noConfusion

/-- **The highest priority first**: when a process reads a message from its queue, none with a
higher priority waits there. -/
theorem read_highest {prio : ℕ} (hposs : s.Possible (p, .resume answer))
    (hlog : (step attr this s (p, .resume answer)).state.log =
      (p, .receivedFromMessageQueue msg prio) :: s.log) :
    ∀ m ∈ s.queue (this p).mq, m.1 ≤ prio := by
  obtain ⟨s', hstep, hmove⟩ : ∃ s', step attr this s (p, .resume answer) = .returned s' ∧
      Move attr this s p (.resume answer) s' := step_move hposs
  rw [hstep, Outcome.state_returned] at hlog
  -- only the operations on the queues leave such a line
  have hqueues : ∀ {op : ForkedOp} {s₁ : ForkedPair}, Uses op.channel p s s₁ →
      s₁.log = (p, .receivedFromMessageQueue msg prio) :: s.log → op.channel = .queues := by
    intro op s₁ huses hlog
    obtain ⟨lines, hlines, hchannel⟩ := huses.log
    have heq : lines = [(p, .receivedFromMessageQueue msg prio)] :=
      List.append_cancel_right (hlines.symm.trans hlog)
    have hline := (hchannel (p, .receivedFromMessageQueue msg prio)
      (heq ▸ List.mem_singleton_self _)).2
    exact (Option.some.inj hline).symm
  cases hmove with
  | returned c answer hbusy =>
      exact absurd (Prod.mk.inj (List.cons.inj hlog).1).2 ForkedAction.noConfusion
  | outOfBounds c op ops answer _ _ _ => exact absurd hlog.symm (List.cons_ne_self _ _)
  | throws c op ops answer s₁ _ _ heff =>
      have hread := queues_readsHighest attr (this p) s p answer
        (hqueues (uses_of_throws heff) hlog)
      rw [heff] at hread
      exact ReadsHighest.le hread hlog
  | goesOn c op ops more answer s₁ _ _ heff =>
      have hread := queues_readsHighest attr (this p) s p answer
        (hqueues (uses_of_goesOn heff).1 hlog)
      rw [heff] at hread
      exact ReadsHighest.le hread hlog

/-! ## Runs -/

/-- The messages that a process receives from the socket pair. -/
def fromSocket (p : Process) : ForkedPair → List ChatMessage := told (lineFromSocket p)

/-- The messages that the child receives from its queue with priority `k`. -/
def fromQueue (k : ℕ) : ForkedPair → List ChatMessage := told (lineFromQueue k)

/-- Of the messages that a process sends, these were received and those wait, in order; none is
missing between two sends. -/
structure Delivers (p : Process) (received waiting : List ChatMessage) (s : ForkedPair) : Prop where
  ordered : received ++ waiting <+: s.sentBy p
  complete : s.control p = .ready → received ++ waiting = s.sentBy p

/-- The invariant gives the delivery: what was told is a prefix of what was sent, the rest waits. -/
theorem Conduit.Flow.delivers {C : Conduit attr this p} (h : C.Flow s) :
    Delivers p (told C.line s) (C.waiting s) s := by
  refine ⟨h.written.isPrefix, fun hready => ?_⟩
  have hwritten := h.written
  rwa [hready] at hwritten

/-- **The socket pair and the queue lose, repeat and overtake nothing.** In every run of the two
processes whose messages are plain, in any order of their steps: what a process has received from
the socket pair, followed by what waits there for it, is what the other one has sent, as far as it
has got; and so is, for each of the five priorities, what the child has received from its queue,
where it always reads a message of the highest priority. -/
theorem delivered_of_run (attr : MqAttr) (prior : ProcessId) (pid : Pid)
    {es : List (Process × ForkedInput)}
    (hrun : Run (step attr (SocketUnixForked.construct prior pid))
      (fun s e => s.Possible e ∧ PlainInput e) {} es s) :
    (∀ p, Delivers p (s.fromSocket p.other) (s.socketPair (socketOf p.other)) s) ∧
    (∀ k < 5, Delivers .parent (s.fromQueue k) (ofPriority k (s.queue .child)) s) ∧
    ∀ answer msg prio, s.Possible (.child, .resume answer) →
      (step attr (SocketUnixForked.construct prior pid) s (.child, .resume answer)).state.log =
        (.child, .receivedFromMessageQueue msg prio) :: s.log →
      ∀ m ∈ s.queue .child, m.1 ≤ prio :=
  ⟨fun p => ((socketConduit attr prior pid p).flow_of_run rfl hrun).delivers,
    fun _ hk => ((queueConduit attr prior pid hk).flow_of_run rfl hrun).delivers,
    fun _ _ _ hposs hlog => read_highest hposs hlog⟩

/-- Two messages that the parent sends, and one round of the child. -/
theorem delivered_sample :
    Delivers .parent (ForkedPair.fromQueue 4 (Run.follow (step .default samplePair) {}
        (sampleSend ++ sampleSend ++ sampleReceive .child 7)))
      (ofPriority 4 ((Run.follow (step .default samplePair) {}
        (sampleSend ++ sampleSend ++ sampleReceive .child 7)).queue .child))
      (Run.follow (step .default samplePair) {}
        (sampleSend ++ sampleSend ++ sampleReceive .child 7)) :=
  (delivered_of_run .default 0 ⟨1, by decide⟩ (run_of_allows (by decide +kernel))).2.1 4 (by decide)

end ForkedPair

end SctpSandbox

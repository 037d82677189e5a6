import SctpSandbox.Forked.SocketUnixForked

/-! # What a step of the forked pair does

`Move` lists once what a step of a process can be, with the guards under which it is taken. The
operations are stated by what they leave: those that read a message leave the state with one line
more at most (`leaves_obtained`, `leaves_handled`), and each uses its own channel only
(`leaves_perform`). -/

namespace SctpSandbox

/-- What an operation leaves: the state, however it ends, and the operations put before the others.
-/
def ForkedEffect.Leaves (P : ForkedPair → List ForkedOp → Prop) : ForkedEffect → Prop
  | .goesOn s more => P s more
  | .throws s => P s []
  | .outOfBounds => True

/-- A weaker property holds where a stronger one does. -/
theorem ForkedEffect.Leaves.imp {P P' : ForkedPair → List ForkedOp → Prop} {e : ForkedEffect}
    (h : e.Leaves P) (himp : ∀ s more, P s more → P' s more) : e.Leaves P' := by
  cases e with
  | goesOn s more => exact himp s more h
  | throws s => exact himp s [] h
  | outOfBounds => trivial

/-- The operations of a call that are still to make. -/
def ForkedControl.remaining : ForkedControl → List ForkedOp
  | .busy _ ops => ops
  | _ => []

/-- What the processes share. -/
inductive Channel where
  | socketPair
  | pipe
  | namedPipe
  | queues
  /-- A shared integer and its semaphore. -/
  | integer (i : SharedInt)
  deriving DecidableEq

/-- The channel an operation is made on. -/
def ForkedOp.channel : ForkedOp → Channel
  | .send _ | .receive => .socketPair
  | .writePipe _ | .readPipe => .pipe
  | .writeNamedPipe _ | .readNamedPipe => .namedPipe
  | .mqSend _ _ | .mqReceive => .queues
  | .set i _ | .semPost i | .semTrywait i | .get i => .integer i

/-- The channel an action tells about. -/
def ForkedAction.channel : ForkedAction → Option Channel
  | .called _ | .returned _ | .signalled _ => none
  | .received _ => some .socketPair
  | .polledPipe | .receivedFromPipe _ => some .pipe
  | .polledNamedPipe | .receivedFromNamedPipe _ => some .namedPipe
  | .receivedFromMessageQueue _ _ => some .queues
  | .set i _ | .posted i | .acquired i | .got i _ => some (.integer i)

namespace ForkedPair

variable {attr : MqAttr} {this : Process → SocketUnixForked} {s s' : ForkedPair} {p q : Process}

/-! ## Fields -/

section Fields

variable (s : ForkedPair) (p : Process) (a : ForkedAction) (c : ForkedControl) (e : SocketEnd)
  (data : List ChatMessage) (mq : MessageQueue) (messages : List (ℕ × ChatMessage))
  (i : SharedInt) (v : ℤ) (n : ℕ)

/-- A logged line changes the log and nothing else. -/
@[simp] theorem control_record : (s.record p a).control = s.control := rfl
@[simp] theorem pipe_record : (s.record p a).pipe = s.pipe := rfl
@[simp] theorem namedPipe_record : (s.record p a).namedPipe = s.namedPipe := rfl
@[simp] theorem queue_record : (s.record p a).queue = s.queue := rfl
@[simp] theorem integer_record : (s.record p a).integer = s.integer := rfl
@[simp] theorem semaphore_record : (s.record p a).semaphore = s.semaphore := rfl
@[simp] theorem log_record : (s.record p a).log = (p, a) :: s.log := rfl

/-- A change of control changes nothing of the channels. -/
@[simp] theorem pipe_setControl : (s.setControl p c).pipe = s.pipe := rfl
@[simp] theorem namedPipe_setControl : (s.setControl p c).namedPipe = s.namedPipe := rfl
@[simp] theorem queue_setControl : (s.setControl p c).queue = s.queue := rfl
@[simp] theorem integer_setControl : (s.setControl p c).integer = s.integer := rfl
@[simp] theorem semaphore_setControl : (s.setControl p c).semaphore = s.semaphore := rfl
@[simp] theorem log_setControl : (s.setControl p c).log = s.log := rfl

/-- A process that is set stands where it was put. -/
@[simp] theorem control_setControl_self : (s.setControl p c).control p = c :=
  Function.update_self _ _ _

/-- Setting one process leaves the other. -/
theorem control_setControl_ne (h : q ≠ p) : (s.setControl p c).control q = s.control q :=
  Function.update_of_ne h _ _

/-- A write to the pair changes the pair alone. -/
@[simp] theorem control_setSocket : (s.setSocket e data).control = s.control := rfl
@[simp] theorem pipe_setSocket : (s.setSocket e data).pipe = s.pipe := rfl
@[simp] theorem namedPipe_setSocket : (s.setSocket e data).namedPipe = s.namedPipe := rfl
@[simp] theorem queue_setSocket : (s.setSocket e data).queue = s.queue := rfl
@[simp] theorem integer_setSocket : (s.setSocket e data).integer = s.integer := rfl
@[simp] theorem semaphore_setSocket : (s.setSocket e data).semaphore = s.semaphore := rfl
@[simp] theorem log_setSocket : (s.setSocket e data).log = s.log := rfl

/-- A queue that is set holds what it was set to, and the other one what it held. -/
@[simp] theorem queue_setQueue_self : (s.setQueue mq messages).queue mq = messages :=
  Function.update_self _ _ _

/-- Setting one queue leaves the other. -/
theorem queue_setQueue_ne {mq' : MessageQueue} (h : mq' ≠ mq) :
    (s.setQueue mq messages).queue mq' = s.queue mq' :=
  Function.update_of_ne h _ _

@[simp] theorem control_setQueue : (s.setQueue mq messages).control = s.control := rfl
@[simp] theorem pipe_setQueue : (s.setQueue mq messages).pipe = s.pipe := rfl
@[simp] theorem namedPipe_setQueue : (s.setQueue mq messages).namedPipe = s.namedPipe := rfl
@[simp] theorem integer_setQueue : (s.setQueue mq messages).integer = s.integer := rfl
@[simp] theorem semaphore_setQueue : (s.setQueue mq messages).semaphore = s.semaphore := rfl
@[simp] theorem log_setQueue : (s.setQueue mq messages).log = s.log := rfl

/-- A store changes the integer and nothing else. -/
@[simp] theorem control_setInteger : (s.setInteger i v).control = s.control := rfl
@[simp] theorem pipe_setInteger : (s.setInteger i v).pipe = s.pipe := rfl
@[simp] theorem namedPipe_setInteger : (s.setInteger i v).namedPipe = s.namedPipe := rfl
@[simp] theorem queue_setInteger : (s.setInteger i v).queue = s.queue := rfl
@[simp] theorem semaphore_setInteger : (s.setInteger i v).semaphore = s.semaphore := rfl
@[simp] theorem log_setInteger : (s.setInteger i v).log = s.log := rfl

/-- A post or an acquisition changes the semaphore and nothing else. -/
@[simp] theorem control_setSemaphore : (s.setSemaphore i n).control = s.control := rfl
@[simp] theorem pipe_setSemaphore : (s.setSemaphore i n).pipe = s.pipe := rfl
@[simp] theorem namedPipe_setSemaphore : (s.setSemaphore i n).namedPipe = s.namedPipe := rfl
@[simp] theorem queue_setSemaphore : (s.setSemaphore i n).queue = s.queue := rfl
@[simp] theorem integer_setSemaphore : (s.setSemaphore i n).integer = s.integer := rfl
@[simp] theorem log_setSemaphore : (s.setSemaphore i n).log = s.log := rfl

end Fields

/-- What holds of the process that moves and held of the other one holds of both. -/
theorem forall_control_setControl {P : Process → ForkedControl → Prop} {c : ForkedControl}
    (hself : P p c) (h : ∀ q, q ≠ p → P q (s.control q)) (q : Process) :
    P q ((s.setControl p c).control q) := by
  by_cases hq : q = p
  · subst hq
    rw [control_setControl_self]
    exact hself
  · rw [control_setControl_ne _ _ _ hq]
    exact h q hq

/-! ## Operations -/

/-- The operations of `send` in their order. -/
theorem operations_send (t : SocketUnixForked) (msg : ChatMessage) (prios : List ℕ) :
    operations t (.send msg prios) = .send msg :: .writePipe msg :: .writeNamedPipe msg ::
      (prios.map (.mqSend msg) ++ [.set .posix (sizeToInt msg.length), .semPost .posix,
        .set .sysV (sizeToInt msg.length), .semPost .sysV]) := by
  simp [operations, send, sendOnSocketPair, sendOnPipe, sendOnNamedPipe, sendOnMessageQueue,
    setPosixSharedMemory, postNamedSemaphore, setSysVSharedMemory, postUnnamedSemaphore]

/-- The operations of `receive` in their order; only the child reads the pipes. -/
theorem operations_receive (t : SocketUnixForked) :
    operations t .receive = [.receive, .semTrywait .posix, .semTrywait .sysV] ++
      (if t.isChild then [.readPipe, .readNamedPipe] else []) ++ [.mqReceive] := rfl

/-- At most a line about what process `p` has read comes in. -/
def Reads (p : Process) (line : ChatMessage → ForkedAction) (s s' : ForkedPair) : Prop :=
  s' = s ∨ ∃ msg, s' = s.record p (line msg)

/-- A polled path adds at most the line of what it read. -/
theorem leaves_obtained (line : ChatMessage → ForkedAction)
    (r : Access (IOBuffer × Option ChatMessage)) : (obtained s p line r).Leaves fun s' more =>
      more = [] ∧ Reads p line s s' := by
  cases r with
  | done a =>
      obtain ⟨buf, msg⟩ := a
      cases msg with
      | none => exact ⟨rfl, .inl rfl⟩
      | some msg => exact ⟨rfl, .inr ⟨msg, rfl⟩⟩
  | threw => exact ⟨rfl, .inl rfl⟩
  | outOfBounds => trivial

/-- So does the handling of a datagram. -/
theorem leaves_handled (r : Access (IOBuffer × Option ChatMessage)) :
    (handled s p r).Leaves fun s' more => more = [] ∧ Reads p .received s s' := by
  cases r with
  | done a =>
      obtain ⟨buf, msg⟩ := a
      cases msg with
      | none => exact ⟨rfl, .inl rfl⟩
      | some msg =>
          rw [handled]
          split
          · exact ⟨rfl, .inr ⟨msg, rfl⟩⟩
          · exact ⟨rfl, .inr ⟨msg, rfl⟩⟩
  | threw => exact ⟨rfl, .inl rfl⟩
  | outOfBounds => trivial

section Perform

variable (attr : MqAttr) (t : SocketUnixForked) (s : ForkedPair) (p : Process)
  (answer : KernelAnswer)

/-- A datagram is sent on a socket that is open, or the check throws. -/
theorem perform_send (msg : ChatMessage) : perform s p attr t answer (.send msg) = .throws s ∨
    ∃ e, t.fd = some e ∧ perform s p attr t answer (.send msg) =
      .goesOn (s.setSocket e.other (s.socketPair e.other ++ [msg])) [] := by
  cases answer with
  | refused => exact .inl rfl
  | accepted n =>
      cases h : t.fd with
      | none => exact .inl (by simp only [perform, h])
      | some e => exact .inr ⟨e, rfl, by simp only [perform, h]⟩

/-- A pipe is written at its write end, or the check throws. -/
theorem perform_writePipe (msg : ChatMessage) :
    perform s p attr t answer (.writePipe msg) = .throws s ∨
      ∃ n, answer = .accepted n ∧ t.pipe = some .write ∧
        perform s p attr t answer (.writePipe msg) =
          .goesOn { s with pipe := s.pipe ++ packets (msg.take n) } [] := by
  cases answer with
  | refused => exact .inl rfl
  | accepted n =>
      cases h : t.pipe with
      | none => exact .inl (by simp only [perform, h])
      | some e =>
          cases e with
          | read => exact .inl (by simp only [perform, h])
          | write => exact .inr ⟨n, rfl, rfl, by simp only [perform, h]⟩

/-- A write to the FIFO throws or appends what the kernel accepted. -/
theorem perform_writeNamedPipe (msg : ChatMessage) :
    perform s p attr t answer (.writeNamedPipe msg) = .throws s ∨
      ∃ n, answer = .accepted n ∧ t.namedPipe = some .write ∧
        perform s p attr t answer (.writeNamedPipe msg) =
          .goesOn { s with namedPipe := s.namedPipe ++ msg.take n } [] := by
  cases answer with
  | refused => exact .inl rfl
  | accepted n =>
      cases h : t.namedPipe with
      | none => exact .inl (by simp only [perform, h])
      | some e =>
          cases e with
          | read => exact .inl (by simp only [perform, h])
          | write => exact .inr ⟨n, rfl, rfl, by simp only [perform, h]⟩

/-- A receive from the pair throws without a descriptor and takes a datagram otherwise. -/
theorem perform_receive : perform s p attr t answer .receive = .throws s ∨
    ∃ e, t.fd = some e ∧
      perform s p attr t answer .receive = receiveDatagram s p e (s.socketPair e) := by
  cases answer with
  | refused => exact .inl rfl
  | accepted n =>
      cases h : t.fd with
      | none => exact .inl (by simp only [perform, h])
      | some e => exact .inr ⟨e, rfl, by simp only [perform, h]⟩

/-- A pipe is read at its read end, or the check throws. -/
theorem perform_readPipe :
    (t.pipe ≠ some .read ∧
      perform s p attr t answer .readPipe = .throws (s.record p .polledPipe)) ∨
    (t.pipe = some .read ∧
      perform s p attr t answer .readPipe = readPackets (s.record p .polledPipe) p s.pipe) := by
  cases h : t.pipe with
  | none => exact .inl ⟨by simp, by simp only [perform, h]⟩
  | some e =>
      cases e with
      | read => exact .inr ⟨rfl, by simp only [perform, h]⟩
      | write => exact .inl ⟨by simp, by simp only [perform, h]⟩

/-- A read of the FIFO throws at the wrong end and takes the bytes otherwise. -/
theorem perform_readNamedPipe :
    (t.namedPipe ≠ some .read ∧
      perform s p attr t answer .readNamedPipe = .throws (s.record p .polledNamedPipe)) ∨
    (t.namedPipe = some .read ∧ perform s p attr t answer .readNamedPipe =
      readBytes (s.record p .polledNamedPipe) p s.namedPipe) := by
  cases h : t.namedPipe with
  | none => exact .inl ⟨by simp, by simp only [perform, h]⟩
  | some e =>
      cases e with
      | read => exact .inr ⟨rfl, by simp only [perform, h]⟩
      | write => exact .inl ⟨by simp, by simp only [perform, h]⟩

/-- A queue takes a message while it has room and the message fits. -/
theorem perform_mqSend (msg : ChatMessage) (prio : ℕ) :
    perform s p attr t answer (.mqSend msg prio) =
      if (s.queue t.peerMq).length < attr.maxmsg ∧ msg.length ≤ attr.msgsize then
        .goesOn (s.setQueue t.peerMq (s.queue t.peerMq ++ [(prio, msg)])) []
      else .throws s := rfl

/-- A post counts up to the kernel's maximum. -/
theorem perform_semPost (i : SharedInt) : perform s p attr t answer (.semPost i) =
    if s.semaphore i < semValueMax then
      .goesOn ((s.setSemaphore i (s.semaphore i + 1)).record p (.posted i)) []
    else .throws s := rfl

/-- An acquisition counts down and lets the `get` follow; without a permit it passes by. -/
theorem perform_semTrywait (i : SharedInt) : perform s p attr t answer (.semTrywait i) =
    if 0 < s.semaphore i then
      .goesOn ((s.setSemaphore i (s.semaphore i - 1)).record p (.acquired i)) [.get i]
    else .goesOn s [] := rfl

/-- A queue gives the first of its highest messages, into a buffer that must be large enough. -/
theorem perform_mqReceive : perform s p attr t answer .mqReceive =
    if attr.msgsize ≤ msgBufferSize then
      dequeue s p t.mq ((s.queue t.mq).find? fun m => m.1 = highest (s.queue t.mq))
    else .throws s := rfl

end Perform

/-! ### Which process is at which end of a pipe -/

section Ends

variable {prior : ProcessId} {pid : Pid} {answer : KernelAnswer} {s₁ : ForkedPair}
  {more : List ForkedOp} {msg : ChatMessage}

/-- Only the parent's write to the pipe goes on, with the bytes the kernel accepted. -/
theorem writePipe_goesOn (heff : perform s p attr (SocketUnixForked.construct prior pid p) answer
    (.writePipe msg) = .goesOn s₁ more) : p = .parent ∧ ∃ n, answer = .accepted n ∧
      s₁ = { s with pipe := s.pipe ++ packets (msg.take n) } ∧ more = [] := by
  rcases perform_writePipe attr (SocketUnixForked.construct prior pid p) s p answer msg with
    heq | ⟨n, rfl, hend, heq⟩
  · exact absurd (heq.symm.trans heff) (by simp)
  · obtain ⟨rfl, rfl⟩ := ForkedEffect.goesOn.inj (heq.symm.trans heff)
    cases p with
    | child => exact absurd (Option.some.inj hend) PipeEnd.noConfusion
    | parent => exact ⟨rfl, n, rfl, rfl, rfl⟩

/-- Only the parent's write to the FIFO goes on, with the bytes the kernel accepted. -/
theorem writeNamedPipe_goesOn (heff : perform s p attr (SocketUnixForked.construct prior pid p)
    answer (.writeNamedPipe msg) = .goesOn s₁ more) : p = .parent ∧ ∃ n, answer = .accepted n ∧
      s₁ = { s with namedPipe := s.namedPipe ++ msg.take n } ∧ more = [] := by
  rcases perform_writeNamedPipe attr (SocketUnixForked.construct prior pid p) s p answer msg with
    heq | ⟨n, rfl, hend, heq⟩
  · exact absurd (heq.symm.trans heff) (by simp)
  · obtain ⟨rfl, rfl⟩ := ForkedEffect.goesOn.inj (heq.symm.trans heff)
    cases p with
    | child => exact absurd (Option.some.inj hend) PipeEnd.noConfusion
    | parent => exact ⟨rfl, n, rfl, rfl, rfl⟩

/-- Only the child's read of the pipe goes on, after it has polled. -/
theorem readPipe_goesOn (heff : perform s p attr (SocketUnixForked.construct prior pid p) answer
    .readPipe = .goesOn s₁ more) :
    p = .child ∧ readPackets (s.record .child .polledPipe) .child s.pipe = .goesOn s₁ more := by
  rcases perform_readPipe attr (SocketUnixForked.construct prior pid p) s p answer with
    ⟨-, heq⟩ | ⟨hend, heq⟩
  · exact absurd (heq.symm.trans heff) (by simp)
  · cases p with
    | parent => exact absurd (Option.some.inj hend) PipeEnd.noConfusion
    | child => exact ⟨rfl, heq.symm.trans heff⟩

/-- Only the child's read of the FIFO goes on, after it has polled. -/
theorem readNamedPipe_goesOn (heff : perform s p attr (SocketUnixForked.construct prior pid p)
    answer .readNamedPipe = .goesOn s₁ more) : p = .child ∧
      readBytes (s.record .child .polledNamedPipe) .child s.namedPipe = .goesOn s₁ more := by
  rcases perform_readNamedPipe attr (SocketUnixForked.construct prior pid p) s p answer with
    ⟨-, heq⟩ | ⟨hend, heq⟩
  · exact absurd (heq.symm.trans heff) (by simp)
  · cases p with
    | parent => exact absurd (Option.some.inj hend) PipeEnd.noConfusion
    | child => exact ⟨rfl, heq.symm.trans heff⟩

end Ends

/-- A datagram is taken from its socket. -/
theorem leaves_receiveDatagram (e : SocketEnd) (data : List ChatMessage) :
    (receiveDatagram s p e data).Leaves fun s' more =>
      more = [] ∧ ∃ rest, Reads p .received s s' ∨ Reads p .received (s.setSocket e rest) s' := by
  cases data with
  | nil => exact ⟨rfl, [], .inl (.inl rfl)⟩
  | cons d rest => exact (leaves_handled _).imp fun s' more h => ⟨h.1, rest, .inr h.2⟩

/-- A packet is taken from the pipe. -/
theorem leaves_readPackets (packets : List (List Byte)) :
    (readPackets s p packets).Leaves fun s' more =>
      more = [] ∧ ∃ rest, Reads p .receivedFromPipe { s with pipe := rest } s' := by
  cases packets with
  | nil =>
      rw [readPackets]
      exact (leaves_obtained _ _).imp fun s' more h => ⟨h.1, s.pipe, h.2⟩
  | cons packet rest => exact (leaves_obtained _ _).imp fun s' more h => ⟨h.1, rest, h.2⟩

/-- Bytes are taken from the named pipe. -/
theorem leaves_readBytes (bytes : List Byte) :
    (readBytes s p bytes).Leaves fun s' more =>
      more = [] ∧ ∃ rest, Reads p .receivedFromNamedPipe { s with namedPipe := rest } s' := by
  cases bytes with
  | nil =>
      rw [readBytes]
      exact (leaves_obtained _ _).imp fun s' more h => ⟨h.1, s.namedPipe, h.2⟩
  | cons b bytes => exact (leaves_obtained _ _).imp fun s' more h => ⟨h.1, _, h.2⟩

/-- A message is taken from a queue. -/
theorem leaves_dequeue (mq : MessageQueue) (m : Option (ℕ × ChatMessage)) :
    (dequeue s p mq m).Leaves fun s' more => more = [] ∧ ∃ prio,
      Reads p (.receivedFromMessageQueue · prio) s s' ∨
      Reads p (.receivedFromMessageQueue · prio) (s.setQueue mq
        ((s.queue mq).eraseP fun m => m.1 = highest (s.queue mq))) s' := by
  cases m with
  | none =>
      rw [dequeue]
      exact (leaves_obtained _ _).imp fun s' more h => ⟨h.1, 0, .inl h.2⟩
  | some m => exact (leaves_obtained _ _).imp fun s' more h => ⟨h.1, m.1, .inr h.2⟩

/-! ## The channel of an operation -/

/-- Process `p` uses one channel: no other one changes, and what is logged is about this one. -/
structure Uses (ch : Channel) (p : Process) (s s' : ForkedPair) : Prop where
  control : s'.control = s.control
  pipe : ch ≠ .pipe → s'.pipe = s.pipe
  namedPipe : ch ≠ .namedPipe → s'.namedPipe = s.namedPipe
  queue : ch ≠ .queues → s'.queue = s.queue
  integer : ∀ i, ch ≠ .integer i → s'.integer i = s.integer i
  semaphore : ∀ i, ch ≠ .integer i → s'.semaphore i = s.semaphore i
  log : ∃ lines, s'.log = lines ++ s.log ∧ ∀ a ∈ lines, a.1 = p ∧ a.2.channel = some ch

variable {ch : Channel} {s₁ : ForkedPair} {op : ForkedOp} {answer : KernelAnswer}
  {t : SocketUnixForked} {more : List ForkedOp}

/-- Nothing done uses no channel. -/
theorem Uses.refl (ch : Channel) (p : Process) (s : ForkedPair) : Uses ch p s s :=
  ⟨rfl, fun _ => rfl, fun _ => rfl, fun _ => rfl, fun _ _ => rfl, fun _ _ => rfl, [], rfl,
    by simp⟩

/-- A line about the channel keeps a step a use of it. -/
theorem Uses.record {a : ForkedAction} (h : Uses ch p s s') (ha : a.channel = some ch) :
    Uses ch p s (s'.record p a) := by
  obtain ⟨lines, hlog, hlines⟩ := h.log
  refine ⟨h.control, h.pipe, h.namedPipe, h.queue, h.integer, h.semaphore, (p, a) :: lines, ?_, ?_⟩
  · rw [log_record, hlog, List.cons_append]
  · rintro b (_ | ⟨_, hb⟩)
    · exact ⟨rfl, ha⟩
    · exact hlines b hb

/-- A read that logs lines about the channel keeps a step a use of it. -/
theorem Uses.reads {line : ChatMessage → ForkedAction} (h : Uses ch p s s')
    (hline : ∀ msg, (line msg).channel = some ch) (hs : Reads p line s' s₁) : Uses ch p s s₁ := by
  rcases hs with rfl | ⟨msg, rfl⟩
  · exact h
  · exact h.record (hline msg)

/-- A write to the pair uses the pair. -/
theorem uses_setSocket (s : ForkedPair) (p : Process) (e : SocketEnd) (data : List ChatMessage) :
    Uses .socketPair p s (s.setSocket e data) :=
  ⟨rfl, fun _ => rfl, fun _ => rfl, fun _ => rfl, fun _ _ => rfl, fun _ _ => rfl, [], rfl, by simp⟩

/-- A write to the pipe uses the pipe. -/
theorem uses_pipe (s : ForkedPair) (p : Process) (data : List (List Byte)) :
    Uses .pipe p s { s with pipe := data } :=
  ⟨rfl, fun h => absurd rfl h, fun _ => rfl, fun _ => rfl, fun _ _ => rfl, fun _ _ => rfl, [], rfl,
    by simp⟩

/-- A write to the FIFO uses the FIFO. -/
theorem uses_namedPipe (s : ForkedPair) (p : Process) (data : List Byte) :
    Uses .namedPipe p s { s with namedPipe := data } :=
  ⟨rfl, fun _ => rfl, fun h => absurd rfl h, fun _ => rfl, fun _ _ => rfl, fun _ _ => rfl, [], rfl,
    by simp⟩

/-- A change of a queue uses the queues. -/
theorem uses_setQueue (s : ForkedPair) (p : Process) (mq : MessageQueue)
    (messages : List (ℕ × ChatMessage)) : Uses .queues p s (s.setQueue mq messages) :=
  ⟨rfl, fun _ => rfl, fun _ => rfl, fun h => absurd rfl h, fun _ _ => rfl, fun _ _ => rfl, [], rfl,
    by simp⟩

/-- A store of an integer uses that integer's channel. -/
theorem uses_setInteger (s : ForkedPair) (p : Process) (i : SharedInt) (v : ℤ) :
    Uses (.integer i) p s (s.setInteger i v) :=
  ⟨rfl, fun _ => rfl, fun _ => rfl, fun _ => rfl,
    fun _ h => Function.update_of_ne (fun hji => h (congrArg Channel.integer hji.symm)) _ _,
    fun _ _ => rfl, [], rfl, by simp⟩

/-- A change of a semaphore uses the channel of its integer. -/
theorem uses_setSemaphore (s : ForkedPair) (p : Process) (i : SharedInt) (n : ℕ) :
    Uses (.integer i) p s (s.setSemaphore i n) :=
  ⟨rfl, fun _ => rfl, fun _ => rfl, fun _ => rfl, fun _ _ => rfl,
    fun _ h => Function.update_of_ne (fun hji => h (congrArg Channel.integer hji.symm)) _ _,
    [], rfl, by simp⟩

/-- **An operation uses its channel only**; after a permit the integer is still to be read. -/
theorem leaves_perform (attr : MqAttr) (t : SocketUnixForked) (s : ForkedPair) (p : Process)
    (answer : KernelAnswer) (op : ForkedOp) :
    (perform s p attr t answer op).Leaves fun s' more => Uses op.channel p s s' ∧
      (more = [] ∨ ∃ i, op = .semTrywait i ∧ more = [.get i]) := by
  cases op with
  | send msg =>
      rcases perform_send attr t s p answer msg with heq | ⟨e, -, heq⟩
      · exact heq ▸ ⟨.refl _ p s, .inl rfl⟩
      · exact heq ▸ ⟨uses_setSocket s p _ _, .inl rfl⟩
  | writePipe msg =>
      rcases perform_writePipe attr t s p answer msg with heq | ⟨n, -, -, heq⟩
      · exact heq ▸ ⟨.refl _ p s, .inl rfl⟩
      · exact heq ▸ ⟨uses_pipe s p _, .inl rfl⟩
  | writeNamedPipe msg =>
      rcases perform_writeNamedPipe attr t s p answer msg with heq | ⟨n, -, -, heq⟩
      · exact heq ▸ ⟨.refl _ p s, .inl rfl⟩
      · exact heq ▸ ⟨uses_namedPipe s p _, .inl rfl⟩
  | mqSend msg prio =>
      rw [perform_mqSend]
      split
      · exact ⟨uses_setQueue s p _ _, .inl rfl⟩
      · exact ⟨.refl _ p s, .inl rfl⟩
  | set i v => exact ⟨(uses_setInteger s p i v).record rfl, .inl rfl⟩
  | semPost i =>
      rw [perform_semPost]
      split
      · exact ⟨(uses_setSemaphore s p i _).record rfl, .inl rfl⟩
      · exact ⟨.refl _ p s, .inl rfl⟩
  | receive =>
      rcases perform_receive attr t s p answer with heq | ⟨e, -, heq⟩
      · exact heq ▸ ⟨.refl _ p s, .inl rfl⟩
      · rw [heq]
        refine (leaves_receiveDatagram e _).imp fun s' more ⟨hmore, rest, hs'⟩ => ⟨?_, .inl hmore⟩
        rcases hs' with hs' | hs'
        · exact (Uses.refl _ p s).reads (fun _ => rfl) hs'
        · exact (uses_setSocket s p e rest).reads (fun _ => rfl) hs'
  | semTrywait i =>
      rw [perform_semTrywait]
      split
      · -- the one operation that goes on with another
        exact ⟨(uses_setSemaphore s p i _).record rfl, .inr ⟨i, rfl, rfl⟩⟩
      · exact ⟨.refl _ p s, .inl rfl⟩
  | get i => exact ⟨(Uses.refl _ p s).record rfl, .inl rfl⟩
  | readPipe =>
      -- the poll leaves a line, the read takes from the pipe, and what is obtained is recorded
      have hpoll : Uses .pipe p s (s.record p .polledPipe) := (Uses.refl _ p s).record rfl
      rcases perform_readPipe attr t s p answer with ⟨-, heq⟩ | ⟨-, heq⟩
      · exact heq ▸ ⟨hpoll, .inl rfl⟩
      · rw [heq]
        refine (leaves_readPackets _).imp fun s' more ⟨hmore, rest, hs'⟩ => ⟨?_, .inl hmore⟩
        have hpipe : Uses .pipe p s { s.record p .polledPipe with pipe := rest } :=
          (uses_pipe s p rest).record rfl
        exact hpipe.reads (fun _ => rfl) hs'
  | readNamedPipe =>
      have hpoll : Uses .namedPipe p s (s.record p .polledNamedPipe) :=
        (Uses.refl _ p s).record rfl
      rcases perform_readNamedPipe attr t s p answer with ⟨-, heq⟩ | ⟨-, heq⟩
      · exact heq ▸ ⟨hpoll, .inl rfl⟩
      · rw [heq]
        refine (leaves_readBytes _).imp fun s' more ⟨hmore, rest, hs'⟩ => ⟨?_, .inl hmore⟩
        have hpipe : Uses .namedPipe p s { s.record p .polledNamedPipe with namedPipe := rest } :=
          (uses_namedPipe s p rest).record rfl
        exact hpipe.reads (fun _ => rfl) hs'
  | mqReceive =>
      rw [perform_mqReceive]
      split
      · refine (leaves_dequeue _ _).imp fun s' more ⟨hmore, prio, hs'⟩ => ⟨?_, .inl hmore⟩
        rcases hs' with hs' | hs'
        · exact (Uses.refl _ p s).reads (fun _ => rfl) hs'
        · exact (uses_setQueue s p t.mq _).reads (fun _ => rfl) hs'
      · exact ⟨.refl _ p s, .inl rfl⟩

/-- An operation that goes on used its own channel; only an acquired permit adds an operation. -/
theorem uses_of_goesOn (h : perform s p attr t answer op = .goesOn s' more) :
    Uses op.channel p s s' ∧ (more = [] ∨ ∃ i, op = .semTrywait i ∧ more = [.get i]) := by
  have hleaves := leaves_perform attr t s p answer op
  rwa [h] at hleaves

/-- One that throws used its own channel as well. -/
theorem uses_of_throws (h : perform s p attr t answer op = .throws s') :
    Uses op.channel p s s' := by
  have hleaves := leaves_perform attr t s p answer op
  rw [h] at hleaves
  exact hleaves.1

/-! ## Steps -/

/-- What a step of process `p` can be. -/
inductive Move (attr : MqAttr) (this : Process → SocketUnixForked) (s : ForkedPair) (p : Process) :
    ForkedInput → ForkedPair → Prop
  | called (c : ForkedCall) : s.control p = .ready →
      (∀ msg prios, c = .send msg prios → prios.Perm (List.range 5)) →
      Move attr this s p (.call c)
        ((s.record p (.called c)).setControl p (.busy c (operations (this p) c)))
  | returned (c : ForkedCall) (answer : KernelAnswer) : s.control p = .busy c [] →
      Move attr this s p (.resume answer) ((s.record p (.returned c)).setControl p .ready)
  | goesOn (c : ForkedCall) (op : ForkedOp) (ops more : List ForkedOp) (answer : KernelAnswer)
      (s' : ForkedPair) : s.control p = .busy c (op :: ops) → Answers answer op →
      perform s p attr (this p) answer op = .goesOn s' more →
      Move attr this s p (.resume answer) (s'.setControl p (.busy c (more ++ ops)))
  | throws (c : ForkedCall) (op : ForkedOp) (ops : List ForkedOp) (answer : KernelAnswer)
      (s' : ForkedPair) : s.control p = .busy c (op :: ops) → Answers answer op →
      perform s p attr (this p) answer op = .throws s' →
      Move attr this s p (.resume answer) (s'.setControl p (.threw op))
  | outOfBounds (c : ForkedCall) (op : ForkedOp) (ops : List ForkedOp) (answer : KernelAnswer) :
      s.control p = .busy c (op :: ops) → Answers answer op →
      perform s p attr (this p) answer op = .outOfBounds →
      Move attr this s p (.resume answer) (s.setControl p .outOfBounds)
  | destroyed : (s.control p = .ready ∨ ∃ op, s.control p = .threw op) →
      Move attr this s p .destroy (destroy this s p)

/-- **What a step does**: it returns, and it is one of these. -/
theorem step_move {input : ForkedInput} (h : s.Possible (p, input)) :
    ∃ s', step attr this s (p, input) = .returned s' ∧ Move attr this s p input s' := by
  cases input with
  | call c =>
      -- a call is possible for a ready process only
      have hready : s.control p = .ready := by
        cases c with
        | send msg prios => exact h.1
        | receive => exact h
      refine ⟨_, rfl, ?_⟩
      rw [call, hready]
      refine .called c hready fun msg prios hc => ?_
      subst hc
      exact h.2
  | resume answer =>
      refine ⟨_, rfl, ?_⟩
      have hres : Resumes answer (s.control p) := h
      cases hcontrol : s.control p with
      | busy c ops =>
          rw [resume, hcontrol]
          rw [hcontrol] at hres
          cases ops with
          | nil => exact .returned c answer hcontrol
          | cons op ops =>
              simp only
              cases hop : perform s p attr (this p) answer op with
              | goesOn s' more => exact .goesOn c op ops more answer s' hcontrol hres hop
              | throws s' => exact .throws c op ops answer s' hcontrol hres hop
              | outOfBounds => exact .outOfBounds c op ops answer hcontrol hres hop
      | _ =>
          rw [hcontrol] at hres
          exact absurd hres id
  | destroy =>
      refine ⟨_, rfl, .destroyed ?_⟩
      have hends : Ends (s.control p) := h
      cases hcontrol : s.control p with
      | ready => exact .inl rfl
      | threw op => exact .inr ⟨op, rfl⟩
      | _ =>
          rw [hcontrol] at hends
          exact absurd hends id

/-- The invariant rule for steps: each way to move keeps the invariant. -/
theorem step_keeps {I : ForkedPair → Prop} {e : Process × ForkedInput} (h : s.Possible e)
    (hmove : ∀ s', Move attr this s e.1 e.2 s' → I s') : I (step attr this s e).state := by
  obtain ⟨p, input⟩ := e
  have hex : ∃ s', step attr this s (p, input) = .returned s' ∧ Move attr this s p input s' :=
    step_move h
  obtain ⟨s', hstep, hm⟩ := hex
  rw [hstep]
  exact hmove s' hm

/-- A process that has a next operation is busy with it. -/
theorem nextOp_eq_some {op : ForkedOp} (h : op ∈ (s.control p).nextOp) :
    ∃ c ops, s.control p = .busy c (op :: ops) := by
  cases hcontrol : s.control p with
  | busy c ops =>
      rw [hcontrol] at h
      cases ops with
      | nil => exact absurd h (by simp [ForkedControl.nextOp])
      | cons op' ops =>
          obtain rfl := Option.some.inj h
          exact ⟨c, ops, rfl⟩
  | _ =>
      rw [hcontrol] at h
      exact absurd h (by simp [ForkedControl.nextOp])

/-- No step throws: an exception is where a process stands. -/
theorem run_of_allows {ok : ForkedPair → Process × ForkedInput → Prop}
    {es : List (Process × ForkedInput)} (h : Run.Allows (step attr this) ok s es) :
    Run (step attr this) ok s es (Run.follow (step attr this) s es) := by
  refine Run.of_allows (fun s e => ?_) h
  obtain ⟨p, input⟩ := e
  cases input <;> rfl

/-! ## Calls without interruption -/

/-- A call and what it does next. -/
def uninterrupted (p : Process) (c : ForkedCall) (answers : List KernelAnswer) :
    List (Process × ForkedInput) :=
  (p, .call c) :: answers.map fun answer => (p, .resume answer)

/-- A pair for the examples, forked by process 1, in storage that was zero. -/
def samplePair : Process → SocketUnixForked := SocketUnixForked.construct 0 ⟨1, by decide⟩

/-- The parent sends a message. -/
def sampleSend : List (Process × ForkedInput) :=
  uninterrupted .parent (.send (ascii "hi") (List.range 5)) (List.replicate 13 (.accepted 2))

/-- A process receives, as far as some operations. -/
def sampleReceive (p : Process) (n : ℕ) : List (Process × ForkedInput) :=
  uninterrupted p .receive (List.replicate n (.accepted 0))

end ForkedPair

end SctpSandbox

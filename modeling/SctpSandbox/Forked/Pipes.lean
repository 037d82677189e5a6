import SctpSandbox.Forked.Effects
import SctpSandbox.Lib.Framing

/-! # Message boundaries on the two pipes

`createPipe` asks for a pipe in packet mode, where a read returns one write; `createNamedPipe` opens
a FIFO without it, where a read returns what is pending. The same code reads both. So the pipe gives
the child the messages that the parent sent, and the named pipe does as long as no read finds more
than the message that is due. -/

namespace SctpSandbox

/-- The message an operation writes to the pipe. -/
def ForkedOp.toPipe : ForkedOp → Option ChatMessage
  | .writePipe msg => some msg
  | _ => none

/-- The message an operation writes to the named pipe. -/
def ForkedOp.toNamedPipe : ForkedOp → Option ChatMessage
  | .writeNamedPipe msg => some msg
  | _ => none

namespace ForkedPair

variable {attr : MqAttr} {this : Process → SocketUnixForked} {s s' s₁ : ForkedPair} {p : Process}
  {prior : ProcessId} {pid : Pid} {op : ForkedOp} {ops more : List ForkedOp} {c : ForkedCall}
  {msg : ChatMessage} {prios : List ℕ} {one : Prop}
  {f : Process × ForkedAction → Option ChatMessage}

/-! ## What the log tells -/

/-- The messages that some lines of the log tell of, the oldest first. -/
def told (f : Process × ForkedAction → Option ChatMessage) (s : ForkedPair) : List ChatMessage :=
  (s.log.filterMap f).reverse

/-- A message that the parent sends. -/
def lineSent : Process × ForkedAction → Option ChatMessage
  | (.parent, .called (.send msg _)) => some msg
  | _ => none

/-- A message that the child obtains from `receiveFromPipe`. -/
def lineFromPipe : Process × ForkedAction → Option ChatMessage
  | (.child, .receivedFromPipe msg) => some msg
  | _ => none

/-- A message that the child obtains from `receiveFromNamedPipe`. -/
def lineFromNamedPipe : Process × ForkedAction → Option ChatMessage
  | (.child, .receivedFromNamedPipe msg) => some msg
  | _ => none

/-- What the parent sends. -/
def sent : ForkedPair → List ChatMessage := told lineSent

/-- What the child obtains from the pipe. -/
def fromPipe : ForkedPair → List ChatMessage := told lineFromPipe

/-- What the child obtains from the named pipe. -/
def fromNamedPipe : ForkedPair → List ChatMessage := told lineFromNamedPipe

/-- Each of the two pipes gives the child the messages that the parent sent, as far as it has got.
-/
structure KeepsBoundaries (s : ForkedPair) : Prop where
  pipe : s.fromPipe <+: s.sent
  namedPipe : s.fromNamedPipe <+: s.sent

/-- A message that can be told from others on a pipe: not empty, without a NUL, and written in one
piece. -/
structure Plain (msg : ChatMessage) : Prop where
  nonempty : msg ≠ []
  nul : 0 ∉ msg
  atomic : msg.length ≤ pipeBuf

/-- The parent sends plain messages. -/
def SendsPlain : Process × ForkedInput → Prop
  | (.parent, .call (.send msg _)) => Plain msg
  | _ => True

/-- When the child reads the named pipe, no more bytes are pending than the message that is due
has. -/
def ReadsOne (s : ForkedPair) : Process × ForkedInput → Prop
  | (.child, .resume _) => (s.control .child).nextOp = some .readNamedPipe →
      s.namedPipe.length ≤ (Framing.next s.sent s.fromNamedPipe).length
  | _ => True

instance (msg : ChatMessage) : Decidable (Plain msg) :=
  decidable_of_iff (msg ≠ [] ∧ 0 ∉ msg ∧ msg.length ≤ pipeBuf)
    ⟨fun h => ⟨h.1, h.2.1, h.2.2⟩, fun h => ⟨h.nonempty, h.nul, h.atomic⟩⟩

instance : DecidablePred SendsPlain
  | (.parent, .call (.send msg _)) => inferInstanceAs (Decidable (Plain msg))
  | (.parent, .call .receive) | (.parent, .resume _) | (.parent, .destroy) | (.child, _) =>
      isTrue trivial

instance (s : ForkedPair) : DecidablePred s.ReadsOne
  | (.child, .resume _) => inferInstanceAs (Decidable (_ → _))
  | (.child, .call _) | (.child, .destroy) | (.parent, _) => isTrue trivial

/-- A logged line is told behind what was told before, when it tells anything. -/
theorem told_record (f : Process × ForkedAction → Option ChatMessage) (s : ForkedPair) (p : Process)
    (a : ForkedAction) : told f (s.record p a) = told f s ++ (f (p, a)).toList := by
  rw [told, told, log_record, List.filterMap_cons]
  cases f (p, a) with
  | none => simp
  | some msg => simp

/-- A line that tells nothing leaves what was told. -/
theorem told_record_none (s : ForkedPair) {a : ForkedAction} (h : f (p, a) = none) :
    told f (s.record p a) = told f s := by
  rw [told_record, h]
  simp

/-- A channel whose lines tell nothing leaves what was told. -/
theorem told_uses {ch : Channel} (h : Uses ch p s s')
    (hf : ∀ q a, a.channel = some ch → f (q, a) = none) : told f s' = told f s := by
  obtain ⟨lines, hlog, hlines⟩ := h.log
  have hnone : lines.filterMap f = [] :=
    List.filterMap_eq_nil_iff.mpr fun a ha => hf a.1 a.2 (hlines a ha).2
  rw [told, told, hlog, List.filterMap_append, hnone, List.nil_append]

/-- No operation is a call. -/
theorem sent_uses {ch : Channel} (h : Uses ch p s s') : s'.sent = s.sent := by
  refine told_uses h fun q a ha => ?_
  cases a with
  | called c => exact absurd ha (by simp [ForkedAction.channel])
  | _ => cases q <;> rfl

/-- The use of another channel leaves what came from the pipe. -/
theorem fromPipe_uses {ch : Channel} (h : Uses ch p s s') (hch : ch ≠ .pipe) :
    s'.fromPipe = s.fromPipe := by
  refine told_uses h fun q a ha => ?_
  cases a with
  | receivedFromPipe msg => exact absurd (Option.some.inj ha).symm hch
  | _ => cases q <;> rfl

/-- The use of another channel leaves what came from the FIFO. -/
theorem fromNamedPipe_uses {ch : Channel} (h : Uses ch p s s') (hch : ch ≠ .namedPipe) :
    s'.fromNamedPipe = s.fromNamedPipe := by
  refine told_uses h fun q a ha => ?_
  cases a with
  | receivedFromNamedPipe msg => exact absurd (Option.some.inj ha).symm hch
  | _ => cases q <;> rfl

/-! ## What has been written -/

/-- `written` is what has gone into a channel of the messages `sent`, for a parent that stands at
`c`: what it is still going to write makes up for the rest, unless it does not go on. -/
def Written (g : ForkedOp → Option ChatMessage) (sent written : List ChatMessage) :
    ForkedControl → Prop
  | .ready => written = sent
  | .busy _ ops => written ++ ops.filterMap g = sent
  | _ => written <+: sent

variable {g : ForkedOp → Option ChatMessage} {sent written : List ChatMessage}

/-- What was written is a prefix of what was sent. -/
theorem Written.isPrefix {c : ForkedControl} (h : Written g sent written c) : written <+: sent := by
  cases c with
  | ready => exact h ▸ List.prefix_refl _
  | busy call ops => exact h ▸ List.prefix_append _ _
  | threw op => exact h
  | outOfBounds => exact h
  | destroyed => exact h

/-- The operation that is made writes nothing to the channel. -/
theorem Written.next (h : Written g sent written (.busy c (op :: ops))) (hop : g op = none)
    (hmore : more.filterMap g = []) : Written g sent written (.busy c (more ++ ops)) := by
  rw [Written, List.filterMap_append, hmore, List.nil_append]
  rwa [Written, List.filterMap_cons_none hop] at h

/-- The operation that is made writes its message. -/
theorem Written.concat (h : Written g sent written (.busy c (op :: ops))) (hop : g op = some msg) :
    Written g sent (written ++ [msg]) (.busy c ops) := by
  rw [Written, List.filterMap_cons_some hop] at h
  rw [Written, List.append_assoc]
  exact h

/-- A message still to be written was sent. -/
theorem Written.mem (h : Written g sent written (.busy c (op :: ops))) (hop : g op = some msg) :
    msg ∈ sent := by
  rw [Written, List.filterMap_cons_some hop] at h
  rw [← h]
  exact List.mem_append_right _ List.mem_cons_self

/-- A `send` writes its message to each pipe once, a `receive` writes nothing. -/
theorem filterMap_operations {t : SocketUnixForked} (hg : g = ForkedOp.toPipe ∨
    g = ForkedOp.toNamedPipe) (msg : ChatMessage) (prios : List ℕ) :
    (operations t (.send msg prios)).filterMap g = [msg] ∧
      (operations t .receive).filterMap g = [] := by
  -- the sends to the queues write to neither pipe
  have hqueue : (prios.map (ForkedOp.mqSend msg)).filterMap g = [] := by
    rw [List.filterMap_eq_nil_iff]
    intro op hop
    obtain ⟨prio, -, rfl⟩ := List.mem_map.mp hop
    rcases hg with rfl | rfl
    · rfl
    · rfl
  rw [operations_send, operations_receive]
  constructor
  · rcases hg with rfl | rfl
    · simp [List.filterMap_cons, List.filterMap_append, hqueue, ForkedOp.toPipe]
    · simp [List.filterMap_cons, List.filterMap_append, hqueue, ForkedOp.toNamedPipe]
  · rcases hg with rfl | rfl
    · cases t.isChild <;> rfl
    · cases t.isChild <;> rfl

/-- The parent goes on, or the child moves. -/
theorem Written.setControl (h : Written g sent written (s.control .parent))
    (hcontrol : s₁.control = s.control) {c' : ForkedControl}
    (hparent : p = .parent → Written g sent written c') :
    Written g sent written ((s₁.setControl p c').control .parent) := by
  cases p with
  | parent =>
      rw [control_setControl_self]
      exact hparent rfl
  | child =>
      rw [control_setControl_ne _ _ _ (by simp), hcontrol]
      exact h

/-! ## Reading a pipe -/

/-- The receive buffer has its declared size. -/
theorem length_msgBuffer : msgBuffer.length = msgBufferSize := List.length_replicate

/-- What is read and leaves room for the terminator is the message. -/
theorem obtained_wrote (s : ForkedPair) (p : Process) (line : ChatMessage → ForkedAction)
    {data : List Byte} (hdata : data ≠ []) (hnul : 0 ∉ data) (hlt : data.length < msgBufferSize) :
    obtained s p line (pollMessage failedRead msgBuffer (.wrote data)) =
      .goesOn (s.record p (line data)) [] := by
  -- some bytes, and fewer than the buffer has
  have hpos : (RecvCall.wrote data).callResult.result > 0 := by
    simpa [RecvCall.callResult] using List.length_pos_iff.mpr hdata
  have hle : data.length ≤ msgBuffer.length := by
    rw [length_msgBuffer]
    exact hlt.le
  have hfill := storeZero_fill hle
  rw [if_pos (by rw [length_msgBuffer]; exact hlt)] at hfill
  rw [pollMessage, RecvCall.failedRead_wrote, if_neg Bool.false_ne_true, if_pos hpos, hfill]
  show obtained s p line (chatMessage _) = _
  rw [chatMessage_terminated, cStr_eq_self hnul]
  rfl

/-- What fills the buffer is terminated behind it. -/
theorem obtained_full (s : ForkedPair) (p : Process) (line : ChatMessage → ForkedAction)
    {data : List Byte} (hlength : data.length = msgBufferSize) :
    obtained s p line (pollMessage failedRead msgBuffer (.wrote data)) = .outOfBounds := by
  have hpos : 0 < data.length := by
    rw [hlength]
    decide
  have hres : (RecvCall.wrote data).callResult.result > 0 := by
    simpa [RecvCall.callResult] using hpos
  have hle : data.length ≤ msgBuffer.length := by
    rw [length_msgBuffer]
    exact hlength.le
  have hfill := storeZero_fill hle
  rw [if_neg (by rw [length_msgBuffer, hlength]; exact lt_irrefl _)] at hfill
  -- the zero would go behind the buffer
  rw [pollMessage, RecvCall.failedRead_wrote, if_neg Bool.false_ne_true, if_pos hres, hfill]
  rfl

/-- A plain message is one packet. -/
theorem packets_plain (h : Plain msg) : packets msg = [msg] := by
  have hpos : 0 < msg.length := List.length_pos_iff.mpr h.nonempty
  have hle := h.atomic
  have hone : (msg.length + pipeBuf - 1) / pipeBuf = 1 := by
    rw [pipeBuf] at hle ⊢
    omega
  rw [packets, hone]
  show [(msg.drop (0 * pipeBuf)).take pipeBuf] = [msg]
  rw [Nat.zero_mul, List.drop_zero, List.take_of_length_le hle]

/-- A plain message is written whole: the kernel does not split it. -/
theorem take_answer {n : ℕ} (h : Plain msg) (hwrites : Writes msg n) : msg.take n = msg := by
  rw [Writes, if_pos h.atomic] at hwrites
  rw [hwrites, List.take_length]

/-- A plain message leaves room for the terminating zero. -/
theorem Plain.length_lt (h : Plain msg) : msg.length < msgBufferSize :=
  h.atomic.trans_lt (by decide)

/-- A read of the unnamed pipe takes exactly one plain message. -/
theorem readPackets_plain (s : ForkedPair) (p : Process) (rest : List (List Byte)) (h : Plain msg) :
    readPackets s p (msg :: rest) =
      .goesOn (record { s with pipe := rest } p (.receivedFromPipe msg)) [] := by
  rw [readPackets, List.take_of_length_le h.length_lt.le]
  exact obtained_wrote _ p _ h.nonempty h.nul h.length_lt

/-- Pending bytes that leave room for the terminator are read as one message. -/
theorem readBytes_short (s : ForkedPair) (p : Process) {bytes : List Byte} (hne : bytes ≠ [])
    (hnul : 0 ∉ bytes) (hlt : bytes.length < msgBufferSize) : readBytes s p bytes =
      .goesOn (record { s with namedPipe := [] } p (.receivedFromNamedPipe bytes)) [] := by
  obtain ⟨b, bytes, rfl⟩ := List.exists_cons_of_ne_nil hne
  rw [readBytes, List.take_of_length_le hlt.le, List.drop_eq_nil_of_le hlt.le]
  exact obtained_wrote _ p _ hne hnul hlt

/-- A read of the FIFO that fills the buffer stores its zero behind it. -/
theorem readBytes_full (s : ForkedPair) (p : Process) {bytes : List Byte} (hne : bytes ≠ [])
    (hfull : msgBufferSize ≤ bytes.length) : readBytes s p bytes = .outOfBounds := by
  obtain ⟨b, bytes, rfl⟩ := List.exists_cons_of_ne_nil hne
  rw [readBytes]
  refine obtained_full _ p _ ?_
  rw [List.length_take]
  exact min_eq_left hfull

/-- What has come from the pipe after one more read of it. -/
theorem fromPipe_received (s : ForkedPair) (msg : ChatMessage) (rest : List (List Byte)) :
    ForkedPair.fromPipe (record { s.record .child .polledPipe with pipe := rest } .child
      (.receivedFromPipe msg)) = s.fromPipe ++ [msg] := by
  rw [fromPipe, told_record]
  exact congrArg (· ++ [msg]) (told_record_none s rfl)

/-- What has come from the FIFO after one more read of it. -/
theorem fromNamedPipe_received (s : ForkedPair) (msg : ChatMessage) (rest : List Byte) :
    ForkedPair.fromNamedPipe (record { s.record .child .polledNamedPipe with namedPipe := rest }
      .child (.receivedFromNamedPipe msg)) = s.fromNamedPipe ++ [msg] := by
  rw [fromNamedPipe, told_record]
  exact congrArg (· ++ [msg]) (told_record_none s rfl)

/-! ## The invariant -/

/-- What is in the pipe is what the child has not yet read of what was written. -/
def PipeFlow (s : ForkedPair) (c : ForkedControl) : Prop :=
  Written ForkedOp.toPipe s.sent (s.fromPipe ++ s.pipe) c

/-- The bytes in the named pipe are those of the messages that the child has not yet read. -/
def NamedPipeFlow (s : ForkedPair) (c : ForkedControl) : Prop :=
  ∃ written, Written ForkedOp.toNamedPipe s.sent written c ∧
    Framing.Carries written s.fromNamedPipe s.namedPipe ∧ s.fromNamedPipe <+: written

/-- The invariant of the runs in which the parent sends plain messages. What it says of the named
pipe, it says of those in which the child reads one message at a time (`one`). -/
structure Flowing (one : Prop) (s : ForkedPair) : Prop where
  plain : ∀ msg ∈ s.sent, Plain msg
  pipe : PipeFlow s (s.control .parent)
  namedPipe : one → NamedPipeFlow s (s.control .parent)

/-- Nothing has been sent, so nothing is torn. -/
theorem Flowing.initial (one : Prop) : Flowing one {} where
  plain _ h := absurd h List.not_mem_nil
  pipe := rfl
  namedPipe _ := ⟨[], rfl, Framing.carries_nil, List.prefix_refl _⟩

/-- The pipe needs no more than the messages being plain. -/
theorem Flowing.pipe_isPrefix (h : Flowing one s) : s.fromPipe <+: s.sent :=
  (List.prefix_append _ _).trans h.pipe.isPrefix

/-- The invariant gives the claim's property when the reads of the FIFO meet one message each. -/
theorem Flowing.keepsBoundaries (h : Flowing one s) (hone : one) : KeepsBoundaries s where
  pipe := h.pipe_isPrefix
  namedPipe := by
    obtain ⟨written, hwritten, -, hpre⟩ := h.namedPipe hone
    exact hpre.trans hwritten.isPrefix

/-- A channel other than the pipe leaves it alone. -/
theorem PipeFlow.of_uses {ch : Channel} {c c' : ForkedControl} (h : PipeFlow s c)
    (huses : Uses ch p s s₁) (hch : ch ≠ .pipe)
    (hc : ∀ written, Written ForkedOp.toPipe s.sent written c →
      Written ForkedOp.toPipe s.sent written c') : PipeFlow s₁ c' := by
  rw [PipeFlow, sent_uses huses, fromPipe_uses huses hch, huses.pipe hch]
  exact hc _ h

/-- A channel other than the named pipe leaves it alone. -/
theorem NamedPipeFlow.of_uses {ch : Channel} {c c' : ForkedControl} (h : NamedPipeFlow s c)
    (huses : Uses ch p s s₁) (hch : ch ≠ .namedPipe)
    (hc : ∀ written, Written ForkedOp.toNamedPipe s.sent written c →
      Written ForkedOp.toNamedPipe s.sent written c') : NamedPipeFlow s₁ c' := by
  obtain ⟨written, hwritten, hcarries, hpre⟩ := h
  refine ⟨written, ?_, ?_, ?_⟩
  · rw [sent_uses huses]
    exact hc written hwritten
  · rwa [fromNamedPipe_uses huses hch, huses.namedPipe hch]
  · rwa [fromNamedPipe_uses huses hch]

/-! ## Steps -/

section Step

variable {answer : KernelAnswer}

/-- The operation that an acquired permit adds writes nothing to a pipe. -/
theorem filterMap_more (hg : g = ForkedOp.toPipe ∨ g = ForkedOp.toNamedPipe)
    (hmore : more = [] ∨ ∃ i, op = .semTrywait i ∧ more = [.get i]) : more.filterMap g = [] := by
  rcases hmore with rfl | ⟨i, -, rfl⟩
  · rfl
  · rcases hg with rfl | rfl
    · rfl
    · rfl

/-- The process that makes an operation has less to write by what the operation writes. -/
theorem Written.goesOn (h : Written g sent written (s.control .parent))
    (hbusy : s.control p = .busy c (op :: ops)) (hcontrol : s₁.control = s.control)
    (hop : g op = none) (hmore : more.filterMap g = []) :
    Written g sent written ((s₁.setControl p (.busy c (more ++ ops))).control .parent) := by
  refine h.setControl hcontrol fun hp => ?_
  subst hp
  rw [hbusy] at h
  exact h.next hop hmore

/-- The pipe gives back what was written, packet by packet. -/
theorem pipeFlow_goesOn (h : Flowing one s) (hbusy : s.control p = .busy c (op :: ops))
    (hanswer : Answers answer op)
    (heff : perform s p attr (SocketUnixForked.construct prior pid p) answer op = .goesOn s₁ more) :
    PipeFlow s₁ ((s₁.setControl p (.busy c (more ++ ops))).control .parent) := by
  obtain ⟨huses, hmore⟩ := uses_of_goesOn heff
  by_cases hch : op.channel = .pipe
  · cases op with
    | writePipe msg =>
        obtain ⟨rfl, n, rfl, rfl, rfl⟩ := writePipe_goesOn heff
        have hwritten := h.pipe
        rw [PipeFlow, hbusy] at hwritten
        have hplain := h.plain msg (hwritten.mem rfl)
        rw [control_setControl_self, PipeFlow, take_answer hplain (hanswer n rfl),
          packets_plain hplain, List.nil_append, ← List.append_assoc]
        exact hwritten.concat rfl
    | readPipe =>
        obtain ⟨rfl, hread⟩ := readPipe_goesOn heff
        rw [control_setControl_ne _ _ _ (by simp), huses.control]
        have hwritten := h.pipe
        rw [PipeFlow] at hwritten
        have hsent := sent_uses huses
        cases hpipe : s.pipe with
        | nil =>
            rw [hpipe] at hread
            obtain ⟨rfl, rfl⟩ := ForkedEffect.goesOn.inj hread
            have hfrom : (s.record .child .polledPipe).fromPipe = s.fromPipe :=
              told_record_none s rfl
            rw [PipeFlow, hsent, hfrom]
            exact hwritten
        | cons packet rest =>
            rw [hpipe] at hread hwritten
            -- a packet is a message that was sent, so that it is read as it is
            have hmem : packet ∈ s.sent := hwritten.isPrefix.subset (by simp)
            rw [readPackets_plain _ _ _ (h.plain packet hmem)] at hread
            obtain ⟨rfl, rfl⟩ := ForkedEffect.goesOn.inj hread
            rw [PipeFlow, hsent, fromPipe_received, List.append_assoc]
            exact hwritten
    | _ => exact absurd hch Channel.noConfusion
  · refine h.pipe.of_uses huses hch fun written hwritten => ?_
    refine hwritten.goesOn hbusy huses.control ?_ (filterMap_more (.inl rfl) hmore)
    cases op with
    | writePipe msg => exact absurd rfl hch
    | _ => rfl

/-- What a read finds is the message that is due, if it is no longer. -/
theorem namedPipe_due {written : List ChatMessage} {b : Byte} {bytes : List Byte}
    (hwritten : written <+: s.sent)
    (hcarries : Framing.Carries written s.fromNamedPipe (b :: bytes))
    (hpre : s.fromNamedPipe <+: written)
    (hone : (b :: bytes).length ≤ (Framing.next s.sent s.fromNamedPipe).length) :
    s.fromNamedPipe ++ [b :: bytes] <+: written := by
  have hpending : b :: bytes ≠ [] := by simp
  rw [hcarries.next_eq hpre hpending hwritten] at hone
  rw [← List.append_nil (b :: bytes)] at hcarries
  apply (hcarries.prefix_concat_iff hpre hpending).mpr
  apply le_antisymm hone
  rw [List.append_nil] at hcarries
  exact hcarries.length_next_le hpre hpending

/-- The named pipe gives back what was written, as long as a read finds one message. -/
theorem namedPipeFlow_goesOn (h : Flowing one s) (hfollowed : one)
    (hbusy : s.control p = .busy c (op :: ops))
    (hanswer : Answers answer op)
    (hone : p = .child → op = .readNamedPipe →
      s.namedPipe.length ≤ (Framing.next s.sent s.fromNamedPipe).length)
    (heff : perform s p attr (SocketUnixForked.construct prior pid p) answer op = .goesOn s₁ more) :
    NamedPipeFlow s₁ ((s₁.setControl p (.busy c (more ++ ops))).control .parent) := by
  obtain ⟨huses, hmore⟩ := uses_of_goesOn heff
  by_cases hch : op.channel = .namedPipe
  · cases op with
    | writeNamedPipe msg =>
        obtain ⟨rfl, n, rfl, rfl, rfl⟩ := writeNamedPipe_goesOn heff
        obtain ⟨written, hwritten, hcarries, hpre⟩ := h.namedPipe hfollowed
        rw [hbusy] at hwritten
        have hplain := h.plain msg (hwritten.mem rfl)
        rw [control_setControl_self, take_answer hplain (hanswer n rfl), List.nil_append]
        exact ⟨written ++ [msg], hwritten.concat rfl, hcarries.write msg,
          hpre.trans (List.prefix_append _ _)⟩
    | readNamedPipe =>
        obtain ⟨rfl, hread⟩ := readNamedPipe_goesOn heff
        rw [control_setControl_ne _ _ _ (by simp), huses.control]
        obtain ⟨written, hwritten, hcarries, hpre⟩ := h.namedPipe hfollowed
        have hsent := sent_uses huses
        have hone := hone rfl rfl
        cases hbytes : s.namedPipe with
        | nil =>
            rw [hbytes] at hread
            obtain ⟨rfl, rfl⟩ := ForkedEffect.goesOn.inj hread
            have hfrom : (s.record .child .polledNamedPipe).fromNamedPipe = s.fromNamedPipe :=
              told_record_none s rfl
            refine ⟨written, ?_, ?_, ?_⟩
            · rwa [hsent]
            · rwa [hfrom]
            · rwa [hfrom]
        | cons b bytes =>
            rw [hbytes] at hread hcarries hone
            -- all the bytes are the one message that is due
            have hdue := namedPipe_due hwritten.isPrefix hcarries hpre hone
            have hmem : b :: bytes ∈ s.sent := (hdue.trans hwritten.isPrefix).subset (by simp)
            have hplain := h.plain _ hmem
            rw [readBytes_short _ _ hplain.nonempty hplain.nul hplain.length_lt] at hread
            obtain ⟨rfl, rfl⟩ := ForkedEffect.goesOn.inj hread
            refine ⟨written, ?_, ?_, ?_⟩
            · rwa [hsent]
            · rw [fromNamedPipe_received, namedPipe_record]
              rw [← List.append_nil (b :: bytes)] at hcarries
              exact hcarries.read
            · rwa [fromNamedPipe_received]
    | _ => exact absurd hch Channel.noConfusion
  · refine (h.namedPipe hfollowed).of_uses huses hch fun written hwritten => ?_
    refine hwritten.goesOn hbusy huses.control ?_ (filterMap_more (.inr rfl) hmore)
    cases op with
    | writeNamedPipe msg => exact absurd rfl hch
    | _ => rfl

/-- A parent that does not go on. -/
theorem Written.stopped (h : Written g sent written (s.control .parent))
    (hcontrol : s₁.control = s.control) {c' : ForkedControl}
    (hstopped : (∃ op, c' = .threw op) ∨ c' = .outOfBounds ∨ c' = .destroyed) :
    Written g sent written ((s₁.setControl p c').control .parent) := by
  refine h.setControl hcontrol fun _ => ?_
  rcases hstopped with ⟨op, rfl⟩ | rfl | rfl
  · exact h.isPrefix
  · exact h.isPrefix
  · exact h.isPrefix

/-- Nothing is written to the pipes or read from them. -/
structure SamePipes (s s₁ : ForkedPair) : Prop where
  control : s₁.control = s.control
  sent : s₁.sent = s.sent
  fromPipe : s₁.fromPipe = s.fromPipe
  pipe : s₁.pipe = s.pipe
  fromNamedPipe : s₁.fromNamedPipe = s.fromNamedPipe
  namedPipe : s₁.namedPipe = s.namedPipe

/-- A state has the pipes of itself. -/
theorem SamePipes.refl (s : ForkedPair) : SamePipes s s := ⟨rfl, rfl, rfl, rfl, rfl, rfl⟩

/-- A line that tells nothing of the pipes leaves them as they are. -/
theorem samePipes_record {a : ForkedAction} (s : ForkedPair) (hsent : lineSent (p, a) = none)
    (hpipe : lineFromPipe (p, a) = none) (hnamed : lineFromNamedPipe (p, a) = none) :
    SamePipes s (s.record p a) :=
  ⟨rfl, told_record_none s hsent, told_record_none s hpipe, rfl, told_record_none s hnamed, rfl⟩

/-- A store in a buffer does not throw. -/
theorem storeZero_ne_threw (buf : IOBuffer) (i : ℕ) : storeZero buf i ≠ .threw := by
  rw [storeZero]
  split <;> simp

/-- A poll throws only where its call failed. -/
theorem pollMessage_ne_threw {failed : CallResult → Bool} {buf : IOBuffer} {call : RecvCall}
    (h : failed call.callResult = false) : pollMessage failed buf call ≠ .threw := by
  rw [pollMessage, h, if_neg Bool.false_ne_true]
  by_cases hpos : call.callResult.result > 0
  · -- the store behind the bytes may leave the buffer, but it does not throw
    rw [if_pos hpos]
    cases hstore : storeZero (call.fill buf) call.callResult.result.toNat with
    | done buf' =>
        show chatMessage buf' ≠ .threw
        rw [chatMessage]
        split <;> simp
    | threw => exact absurd hstore (storeZero_ne_threw _ _)
    | outOfBounds => simp
  · rw [if_neg hpos]
    simp

/-- A read built on a poll throws only where its call failed. -/
theorem obtained_ne_throws {line : ChatMessage → ForkedAction} {call : RecvCall}
    (h : failedRead call.callResult = false) :
    obtained s p line (pollMessage failedRead msgBuffer call) ≠ .throws s₁ := by
  cases hpoll : pollMessage failedRead msgBuffer call with
  | done a =>
      obtain ⟨buf, msg⟩ := a
      cases msg <;> simp [obtained]
  | threw => exact absurd hpoll (pollMessage_ne_threw h)
  | outOfBounds => simp [obtained]

/-- An exception leaves the pipes as they were. -/
theorem samePipes_of_throws {t : SocketUnixForked}
    (heff : perform s p attr t answer op = .throws s₁) : SamePipes s s₁ := by
  have huses := uses_of_throws heff
  -- other channels leave both pipes; here the pipes' own operations remain
  by_cases hch : op.channel ≠ .pipe ∧ op.channel ≠ .namedPipe
  · exact ⟨huses.control, sent_uses huses, fromPipe_uses huses hch.1, huses.pipe hch.1,
      fromNamedPipe_uses huses hch.2, huses.namedPipe hch.2⟩
  · cases op with
    | writePipe msg =>
        rcases perform_writePipe attr t s p answer msg with heq | ⟨n, -, -, heq⟩
        · obtain rfl := ForkedEffect.throws.inj (heq.symm.trans heff)
          exact .refl s
        · -- a write that was made does not throw
          exact absurd (heq.symm.trans heff) (by simp)
    | writeNamedPipe msg =>
        rcases perform_writeNamedPipe attr t s p answer msg with heq | ⟨n, -, -, heq⟩
        · obtain rfl := ForkedEffect.throws.inj (heq.symm.trans heff)
          exact .refl s
        · exact absurd (heq.symm.trans heff) (by simp)
    | readPipe =>
        -- the poll at the wrong end has logged its line only
        rcases perform_readPipe attr t s p answer with ⟨-, heq⟩ | ⟨-, heq⟩
        · obtain rfl := ForkedEffect.throws.inj (heq.symm.trans heff)
          exact samePipes_record s (by cases p <;> rfl) (by cases p <;> rfl) (by cases p <;> rfl)
        · -- a read that was made does not throw
          rw [heq] at heff
          cases hpipe : s.pipe with
          | nil =>
              rw [hpipe, readPackets] at heff
              exact absurd heff (obtained_ne_throws rfl)
          | cons packet rest =>
              rw [hpipe, readPackets] at heff
              exact absurd heff (obtained_ne_throws (RecvCall.failedRead_wrote _))
    | readNamedPipe =>
        rcases perform_readNamedPipe attr t s p answer with ⟨-, heq⟩ | ⟨-, heq⟩
        · obtain rfl := ForkedEffect.throws.inj (heq.symm.trans heff)
          exact samePipes_record s (by cases p <;> rfl) (by cases p <;> rfl) (by cases p <;> rfl)
        · rw [heq] at heff
          cases hbytes : s.namedPipe with
          | nil =>
              rw [hbytes, readBytes] at heff
              exact absurd heff (obtained_ne_throws rfl)
          | cons b bytes =>
              rw [hbytes, readBytes] at heff
              exact absurd heff (obtained_ne_throws (RecvCall.failedRead_wrote _))
    | _ => exact absurd ⟨by simp [ForkedOp.channel], by simp [ForkedOp.channel]⟩ hch

/-- A process moves, and the pipes are as they were. -/
theorem Flowing.of_same {c' : ForkedControl} (h : Flowing one s) (hsame : SamePipes s s₁)
    (hc : ∀ g, g = ForkedOp.toPipe ∨ g = ForkedOp.toNamedPipe → ∀ written,
      Written g s.sent written (s.control .parent) →
      Written g s.sent written ((s₁.setControl p c').control .parent)) :
    Flowing one (s₁.setControl p c') := by
  -- nothing told and nothing in the pipes has changed
  have hs : (s₁.setControl p c').sent = s.sent := hsame.sent
  have hp : (s₁.setControl p c').fromPipe = s.fromPipe := hsame.fromPipe
  have hn : (s₁.setControl p c').fromNamedPipe = s.fromNamedPipe := hsame.fromNamedPipe
  refine ⟨hs ▸ h.plain, ?_, fun hone => ?_⟩
  · rw [PipeFlow, hs, hp, pipe_setControl, hsame.pipe]
    exact hc _ (.inl rfl) _ h.pipe
  · obtain ⟨written, hwritten, hcarries, hpre⟩ := h.namedPipe hone
    refine ⟨written, ?_, ?_, ?_⟩
    · rw [hs]
      exact hc _ (.inr rfl) _ hwritten
    · rwa [hn, namedPipe_setControl, hsame.namedPipe]
    · rwa [hn]

/-- A process that does not go on leaves the pipes as they are. -/
theorem Flowing.stopped {c' : ForkedControl} (h : Flowing one s) (hsame : SamePipes s s₁)
    (hstopped : (∃ op, c' = .threw op) ∨ c' = .outOfBounds ∨ c' = .destroyed) :
    Flowing one (s₁.setControl p c') :=
  h.of_same hsame fun _ _ _ hwritten => hwritten.stopped hsame.control hstopped

/-- The parent calls `send`. -/
theorem flowing_send (h : Flowing one s) (hready : s.control .parent = .ready) (hplain : Plain msg)
    (t : SocketUnixForked) :
    Flowing one ((s.record .parent (.called (.send msg prios))).setControl .parent
      (.busy (.send msg prios) (operations t (.send msg prios)))) := by
  have hs : ((s.record .parent (.called (.send msg prios))).setControl .parent
      (.busy (.send msg prios) (operations t (.send msg prios)))).sent = s.sent ++ [msg] :=
    told_record lineSent s .parent _
  have hpipe := h.pipe
  rw [PipeFlow, hready] at hpipe
  have hp : ((s.record .parent (.called (.send msg prios))).setControl .parent
      (.busy (.send msg prios) (operations t (.send msg prios)))).fromPipe = s.fromPipe :=
    told_record_none s rfl
  have hn : ((s.record .parent (.called (.send msg prios))).setControl .parent
      (.busy (.send msg prios) (operations t (.send msg prios)))).fromNamedPipe =
      s.fromNamedPipe :=
    told_record_none s rfl
  refine ⟨fun m hmem => ?_, ?_, fun hone => ?_⟩
  · rw [hs] at hmem
    rcases List.mem_append.mp hmem with hmem | hmem
    · exact h.plain m hmem
    · rwa [List.mem_singleton.mp hmem]
  · rw [control_setControl_self, PipeFlow, hs, hp]
    -- the message is sent, and its write still to be made
    show _ ++ _ = _
    rw [(filterMap_operations (.inl rfl) msg prios).1]
    exact congrArg (· ++ [msg]) hpipe
  · obtain ⟨written, hwritten, hcarries, hpre⟩ := h.namedPipe hone
    rw [hready] at hwritten
    refine ⟨written, ?_, ?_, ?_⟩
    · rw [control_setControl_self, hs]
      show _ ++ _ = _
      rw [(filterMap_operations (.inr rfl) msg prios).1]
      exact congrArg (· ++ [msg]) hwritten
    · rwa [hn]
    · rwa [hn]

/-- **A step that sends a plain message, if any, keeps the messages apart on the pipe**, and, if it
reads one message at a time, on the named pipe. -/
theorem flowing_move {input : ForkedInput} (h : Flowing one s) (hplain : SendsPlain (p, input))
    (hreads : one → ReadsOne s (p, input))
    (hmove : Move attr (SocketUnixForked.construct prior pid) s p input s') : Flowing one s' := by
  cases hmove with
  | called c hready _ =>
      cases c with
      | send msg prios =>
          cases p with
          | parent => exact flowing_send h hready hplain _
          | child =>
              -- what the child sends goes by other channels
              exact h.of_same (samePipes_record s rfl rfl rfl) fun g _ written hwritten =>
                hwritten.setControl rfl fun hp => Process.noConfusion hp
      | receive =>
          have hsame : SamePipes s (s.record p (.called .receive)) :=
            samePipes_record s (by cases p <;> rfl) (by cases p <;> rfl) (by cases p <;> rfl)
          refine h.of_same hsame fun g hg written hwritten =>
            hwritten.setControl hsame.control fun hp => ?_
          subst hp
          rw [hready] at hwritten
          rw [Written, (filterMap_operations hg [] []).2, List.append_nil]
          exact hwritten
  | returned c answer hbusy =>
      have hsame : SamePipes s (s.record p (.returned c)) :=
        samePipes_record s (by cases p <;> rfl) (by cases p <;> rfl) (by cases p <;> rfl)
      refine h.of_same hsame fun g _ written hwritten =>
        hwritten.setControl hsame.control fun hp => ?_
      subst hp
      rw [hbusy, Written, List.filterMap_nil, List.append_nil] at hwritten
      exact hwritten
  | goesOn c op ops more answer s₁ hbusy hanswer heff =>
      have hsent : s₁.sent = s.sent := sent_uses (uses_of_goesOn heff).1
      refine ⟨fun msg hmem => h.plain msg (hsent ▸ hmem), pipeFlow_goesOn h hbusy hanswer heff,
        fun hone => namedPipeFlow_goesOn h hone hbusy hanswer ?_ heff⟩
      rintro rfl rfl
      refine hreads hone ?_
      rw [hbusy]
      rfl
  | throws c op ops answer s₁ hbusy hanswer heff =>
      exact h.stopped (samePipes_of_throws heff) (.inl ⟨op, rfl⟩)
  | outOfBounds c op ops answer hbusy _ heff => exact h.stopped (.refl s) (.inr (.inl rfl))
  | destroyed hcontrol =>
      rw [destroy]
      split
      · have hsame : SamePipes s (s.record p (.signalled
            (SocketUnixForked.construct prior pid p).parent)) :=
          samePipes_record s (by cases p <;> rfl) (by cases p <;> rfl) (by cases p <;> rfl)
        exact h.stopped hsame (.inr (.inr rfl))
      · exact h.stopped (.refl s) (.inr (.inr rfl))

end Step

/-! ## Runs -/

/-- In every run the pipe keeps the messages apart. -/
theorem flowing_of_plain {es : List (Process × ForkedInput)}
    (hrun : Run (step attr (SocketUnixForked.construct prior pid))
      (fun s e => s.Possible e ∧ SendsPlain e) {} es s) : Flowing False s :=
  hrun.invariant_state (.initial _) fun _ _ h hok =>
    step_keeps hok.1 fun _ hmove => flowing_move h hok.2 False.elim hmove

/-- Run lemma: plain messages read one by one keep the boundaries in both pipes. -/
theorem flowing_of_run {es : List (Process × ForkedInput)}
    (hrun : Run (step attr (SocketUnixForked.construct prior pid))
      (fun s e => (s.Possible e ∧ SendsPlain e) ∧ ReadsOne s e) {} es s) : Flowing True s :=
  hrun.invariant_state (.initial _) fun _ _ h hok =>
    step_keeps hok.1.1 fun _ hmove => flowing_move h hok.1.2 (fun _ => hok.2) hmove

/-- A read that finds more than one message merges them, or overruns the buffer. -/
theorem merges_of_not_readsOne {answer : KernelAnswer} (h : Flowing one s) (hfollowed : one)
    (hbusy : s.control .child = .busy c (.readNamedPipe :: ops))
    (hone : ¬ ReadsOne s (.child, .resume answer)) :
    (step attr (SocketUnixForked.construct prior pid) s (.child, .resume answer)).state.control
        .child = .outOfBounds ∨
      ¬ KeepsBoundaries
        (step attr (SocketUnixForked.construct prior pid) s (.child, .resume answer)).state := by
  have hlong : (Framing.next s.sent s.fromNamedPipe).length < s.namedPipe.length := by
    by_contra hnot
    exact hone fun _ => Nat.not_lt.mp hnot
  obtain ⟨written, hwritten, hcarries, hpre⟩ := h.namedPipe hfollowed
  obtain ⟨unread, rfl, hunread⟩ := hcarries.unread hpre
  have hnul : 0 ∉ s.namedPipe := by
    rw [hunread, List.mem_flatten]
    rintro ⟨msg, hmem, hzero⟩
    exact (h.plain msg (hwritten.isPrefix.subset (List.mem_append_right _ hmem))).nul hzero
  have hstep : (step attr (SocketUnixForked.construct prior pid) s (.child, .resume answer)).state =
      proceed s .child c .readNamedPipe ops
        (readBytes (s.record .child .polledNamedPipe) .child s.namedPipe) := by
    show resume attr _ s .child answer = _
    rw [resume, hbusy]
    rfl
  have hne : s.namedPipe ≠ [] := List.length_pos_iff.mp (Nat.zero_lt_of_lt hlong)
  rw [hstep]
  by_cases hlt : s.namedPipe.length < msgBufferSize
  · right
    rw [readBytes_short _ _ hne hnul hlt]
    rintro ⟨-, hnamed⟩
    -- what was read would be the message due, and it is longer
    have hdue : s.fromNamedPipe ++ [s.namedPipe] <+: s.sent :=
      fromNamedPipe_received s s.namedPipe [] ▸ hnamed
    rw [Framing.next_of_prefix hdue] at hlong
    exact lt_irrefl _ hlong
  · left
    rw [readBytes_full _ _ hne (Nat.not_lt.mp hlt)]
    exact control_setControl_self _ _ _

/-- **The pipes keep the messages apart as long as the child reads one at a time.** In every run in
which the parent sends plain messages and no read of the named pipe finds more than the message that
is due, the pipe and the named pipe each give the child a prefix of what was sent. And the condition
is exact: in a state of such a run a read that finds more merges messages, or it fills the buffer
and is terminated behind it. The pipe, which is in packet mode, does without the condition. -/
theorem keepsBoundaries_of_run (attr : MqAttr) (prior : ProcessId) (pid : Pid)
    {es : List (Process × ForkedInput)}
    (hrun : Run (step attr (SocketUnixForked.construct prior pid))
      (fun s e => (s.Possible e ∧ SendsPlain e) ∧ ReadsOne s e) {} es s) :
    KeepsBoundaries s ∧
      (∀ answer, ¬ ReadsOne s (.child, .resume answer) →
        (step attr (SocketUnixForked.construct prior pid) s (.child, .resume answer)).state.control
            .child = .outOfBounds ∨
          ¬ KeepsBoundaries
            (step attr (SocketUnixForked.construct prior pid) s (.child, .resume answer)).state) ∧
      ∀ es' s', Run (step attr (SocketUnixForked.construct prior pid))
        (fun s e => s.Possible e ∧ SendsPlain e) {} es' s' → s'.fromPipe <+: s'.sent := by
  have hflowing := flowing_of_run hrun
  refine ⟨hflowing.keepsBoundaries trivial, fun answer hone => ?_, fun es' s' hplain =>
    (flowing_of_plain hplain).pipe_isPrefix⟩
  have hnext : (s.control .child).nextOp = some .readNamedPipe := by
    by_contra hnot
    exact hone fun hnext => absurd hnext hnot
  obtain ⟨c, ops, hbusy⟩ := nextOp_eq_some hnext
  exact merges_of_not_readsOne hflowing trivial hbusy hone

/-- Two messages, each received before the next is sent; and two that are sent before the child
receives, which the pipe gives one by one. -/
theorem keepsBoundaries_sample :
    KeepsBoundaries (Run.follow (step .default samplePair) {}
      (sampleSend ++ sampleReceive .child 9 ++ (sampleSend ++ sampleReceive .child 9))) ∧
    ForkedPair.fromPipe (Run.follow (step .default samplePair) {}
      (sampleSend ++ sampleSend ++ sampleReceive .child 9)) <+:
      ForkedPair.sent (Run.follow (step .default samplePair) {}
        (sampleSend ++ sampleSend ++ sampleReceive .child 9)) := by
  have hrun : Run (step .default samplePair) (fun s e => (s.Possible e ∧ SendsPlain e) ∧
      ReadsOne s e) {} (sampleSend ++ sampleReceive .child 9 ++
        (sampleSend ++ sampleReceive .child 9)) _ := run_of_allows (by decide +kernel)
  have hkeeps := keepsBoundaries_of_run .default 0 ⟨1, by decide⟩ hrun
  exact ⟨hkeeps.1, hkeeps.2.2 _ _ (run_of_allows (by decide +kernel))⟩

/-- **The named pipe merges**: two messages are in the FIFO when the child reads. -/
theorem not_keepsBoundaries : ¬ ∀ (attr : MqAttr) (prior : ProcessId) (pid : Pid)
    (es : List (Process × ForkedInput)) (s : ForkedPair),
    Run (step attr (SocketUnixForked.construct prior pid))
      (fun s e => s.Possible e ∧ SendsPlain e) {} es s → KeepsBoundaries s := by
  intro h
  -- two sends before the first read: the FIFO gives both messages as one
  have htwo : Run.Allows (step .default samplePair) (fun s e => s.Possible e ∧ SendsPlain e) {}
        (sampleSend ++ sampleSend ++ sampleReceive .child 7) ∧
      ¬ (Run.follow (step .default samplePair) {}
          (sampleSend ++ sampleSend ++ sampleReceive .child 7)).fromNamedPipe <+:
        (Run.follow (step .default samplePair) {}
          (sampleSend ++ sampleSend ++ sampleReceive .child 7)).sent := by decide +kernel
  have hkeeps : KeepsBoundaries (Run.follow (step .default samplePair) {}
      (sampleSend ++ sampleSend ++ sampleReceive .child 7)) :=
    h _ _ _ _ _ (run_of_allows htwo.1)
  exact htwo.2 hkeeps.namedPipe

end ForkedPair

end SctpSandbox

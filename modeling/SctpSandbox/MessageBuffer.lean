import SctpSandbox.SocketErrorChecks

/-! # Receiving into a message buffer

Every receive path of the program lets a system call write up to `msg_buffer.size()` bytes, stores
a terminating NUL at the index the call returned, and reads a C string from the start of the
buffer. `receive` runs each path on a buffer of any size and reports an access outside it;
`receive_inBounds_iff` says for which results there is none. -/

namespace SctpSandbox

/-- `IOBuffer`: the bytes of a buffer handed out by the pool. -/
abbrev IOBuffer := List Byte

/-- `msg_buffer.size()`. -/
def msgBufferSize : ℕ := 64 * 1024

/-- What a receiving system call did with the buffer it was given. -/
inductive RecvCall where
  /-- It returned -1. -/
  | failed (errno : Errno)
  /-- It wrote these bytes to the start of the buffer and returned their number. -/
  | wrote (data : List Byte)
  deriving DecidableEq

namespace RecvCall

/-- The value returned to the program. -/
def callResult : RecvCall → CallResult
  | .failed errno => { result := -1, errno := errno }
  | .wrote data => { result := data.length }

/-- The buffer after the call. -/
def fill (buf : IOBuffer) : RecvCall → IOBuffer
  | .failed _ => buf
  | .wrote data => data ++ buf.drop data.length

/-- A call that wrote something has no negative result. -/
theorem not_result_wrote_neg (data : List Byte) : ¬ (wrote data).callResult.result < 0 :=
  Int.not_lt.mpr (Int.natCast_nonneg data.length)

/-- A call that wrote something is no failed receive. -/
@[simp] theorem failedReceive_wrote (data : List Byte) :
    failedReceive (wrote data).callResult = false :=
  decide_eq_false (not_result_wrote_neg data)

/-- A call that wrote something is no failed read. -/
@[simp] theorem failedRead_wrote (data : List Byte) :
    failedRead (wrote data).callResult = false := by
  simp [failedRead, not_result_wrote_neg data]

/-- A call that wrote something is no failed receive from a queue. -/
@[simp] theorem failedMqReceive_wrote (data : List Byte) :
    failedMqReceive (wrote data).callResult = false := by
  simp [failedMqReceive, not_result_wrote_neg data]

/-- The result of a call that wrote something is the number of bytes. -/
@[simp] theorem toNat_result_wrote (data : List Byte) :
    (wrote data).callResult.result.toNat = data.length := rfl

/-- A call that keeps to the size it was given does not change the buffer's length. -/
theorem length_fill {buf : IOBuffer} {data : List Byte} (h : data.length ≤ buf.length) :
    ((wrote data).fill buf).length = buf.length := by
  simp only [fill, List.length_append, List.length_drop]
  omega

end RecvCall

/-- The end of a piece of code that reads and writes a buffer. -/
inductive Access (α : Type) where
  | done (a : α)
  /-- A check on a system call threw. -/
  | threw
  /-- The buffer was accessed outside its bounds. -/
  | outOfBounds
  deriving DecidableEq

/-- `msg_buffer[i] = 0`. -/
def storeZero (buf : IOBuffer) (i : ℕ) : Access IOBuffer :=
  if i < buf.length then .done (buf.set i 0) else .outOfBounds

/-- `const ChatMessage msg{msg_buffer.data()}`: reads up to the first NUL, together with the buffer
it was read from. -/
def chatMessage (buf : IOBuffer) : Access (IOBuffer × Option ChatMessage) :=
  if 0 ∈ buf then .done (buf, some (cStr buf)) else .outOfBounds

/-- `msg_buffer[checkedReceive(recv(…, msg_buffer.data(), msg_buffer.size(), …))] = 0`. -/
def receiveTerminated (buf : IOBuffer) (call : RecvCall) : Access IOBuffer :=
  if failedReceive call.callResult then .threw
  else storeZero (call.fill buf) call.callResult.result.toNat

/-- The common shape of the receive paths that terminate whatever was received. -/
def receiveMessageWith (read : IOBuffer → Access (IOBuffer × Option ChatMessage)) (buf : IOBuffer)
    (call : RecvCall) : Access (IOBuffer × Option ChatMessage) :=
  match receiveTerminated buf call with
  | .done buf' => read buf'
  | .threw => .threw
  | .outOfBounds => .outOfBounds

/-- The common shape of the polled paths, which touch the buffer only for a positive result. -/
def pollMessage (failed : CallResult → Bool) (buf : IOBuffer) (call : RecvCall) :
    Access (IOBuffer × Option ChatMessage) :=
  if failed call.callResult then .threw
  else if call.callResult.result > 0 then
    match storeZero (call.fill buf) call.callResult.result.toNat with
    | .done buf' => chatMessage buf'
    | .threw => .threw
    | .outOfBounds => .outOfBounds
  else .done (call.fill buf, none)

/-- `SocketTcp::receiveMessage` and the message `SocketTcp::handleMessage` reads after it. -/
def SocketTcp.receive : IOBuffer → RecvCall → Access (IOBuffer × Option ChatMessage) :=
  receiveMessageWith chatMessage

/-- `SocketSctp::handleMessage`: a notification is not read as a string. -/
def SocketSctp.receive (notification : Bool) :
    IOBuffer → RecvCall → Access (IOBuffer × Option ChatMessage) :=
  receiveMessageWith fun buf => if notification then .done (buf, none) else chatMessage buf

/-- `SocketUdp::handleMessage`. -/
def SocketUdp.receive : IOBuffer → RecvCall → Access (IOBuffer × Option ChatMessage) :=
  receiveMessageWith chatMessage

/-- `SocketUnix::handleMessage`. -/
def SocketUnix.receive : IOBuffer → RecvCall → Access (IOBuffer × Option ChatMessage) :=
  receiveMessageWith chatMessage

/-- `SocketUnixForked::handleMessage`. -/
def SocketUnixForked.receive : IOBuffer → RecvCall → Access (IOBuffer × Option ChatMessage) :=
  receiveMessageWith chatMessage

/-- `SocketUnixForked::receiveFromPipe`. -/
def SocketUnixForked.receiveFromPipe :
    IOBuffer → RecvCall → Access (IOBuffer × Option ChatMessage) :=
  pollMessage failedRead

/-- `SocketUnixForked::receiveFromNamedPipe`. -/
def SocketUnixForked.receiveFromNamedPipe :
    IOBuffer → RecvCall → Access (IOBuffer × Option ChatMessage) :=
  pollMessage failedRead

/-- `SocketUnixForked::receiveFromMessageQueue`. -/
def SocketUnixForked.receiveFromMessageQueue :
    IOBuffer → RecvCall → Access (IOBuffer × Option ChatMessage) :=
  pollMessage failedMqReceive

/-- The receive paths that read with `msg_buffer.size()` as their limit. -/
inductive ReceivePath where
  | tcp
  | sctp (notification : Bool)
  | udp
  | unix
  | forkedSocket
  | forkedPipe
  | forkedNamedPipe
  | forkedMessageQueue
  deriving DecidableEq

namespace ReceivePath

/-- The code of each path. -/
def receive : ReceivePath → IOBuffer → RecvCall → Access (IOBuffer × Option ChatMessage)
  | .tcp => SocketTcp.receive
  | .sctp notification => SocketSctp.receive notification
  | .udp => SocketUdp.receive
  | .unix => SocketUnix.receive
  | .forkedSocket => SocketUnixForked.receive
  | .forkedPipe => SocketUnixForked.receiveFromPipe
  | .forkedNamedPipe => SocketUnixForked.receiveFromNamedPipe
  | .forkedMessageQueue => SocketUnixForked.receiveFromMessageQueue

/-- The paths that leave the buffer alone unless the result is positive. -/
def polled : ReceivePath → Bool
  | .forkedPipe | .forkedNamedPipe | .forkedMessageQueue => true
  | _ => false

/-- The path accesses only the buffer: its stores and its C string stay inside. -/
def InBounds (p : ReceivePath) (buf : IOBuffer) (call : RecvCall) : Prop :=
  p.receive buf call ≠ .outOfBounds

end ReceivePath

/-! ## What is stored and read -/

/-- A terminator at the index the call returned fits exactly when the call left room for it. -/
theorem storeZero_fill {buf : IOBuffer} {data : List Byte} (h : data.length ≤ buf.length) :
    storeZero ((RecvCall.wrote data).fill buf) (RecvCall.wrote data).callResult.result.toNat =
      if data.length < buf.length then .done (data ++ 0 :: buf.drop (data.length + 1))
      else .outOfBounds := by
  rw [RecvCall.toNat_result_wrote, storeZero, RecvCall.length_fill h, RecvCall.fill]
  by_cases hlt : data.length < buf.length
  · -- the terminator replaces the first byte behind the data
    rw [if_pos hlt, if_pos hlt, List.set_append_right _ _ le_rfl, Nat.sub_self,
      List.drop_eq_getElem_cons hlt, List.set_cons_zero]
  · rw [if_neg hlt, if_neg hlt]

/-- The message read from a terminated buffer is the C string of what was received. -/
theorem chatMessage_terminated (data rest : List Byte) :
    chatMessage (data ++ 0 :: rest) = .done (data ++ 0 :: rest, some (cStr data)) := by
  rw [chatMessage, if_pos (List.mem_append_right _ List.mem_cons_self), cStr_append_nul]

/-- A terminating path that received `data` stays in bounds exactly when `data` leaves room. -/
theorem receiveMessageWith_wrote {read : IOBuffer → Access (IOBuffer × Option ChatMessage)}
    {buf : IOBuffer} {data : List Byte} (h : data.length ≤ buf.length)
    (hread : ∀ rest, read (data ++ 0 :: rest) ≠ .outOfBounds) :
    receiveMessageWith read buf (.wrote data) ≠ .outOfBounds ↔ data.length < buf.length := by
  rw [receiveMessageWith, receiveTerminated, RecvCall.failedReceive_wrote,
    if_neg Bool.false_ne_true, storeZero_fill h]
  by_cases hlt : data.length < buf.length
  · rw [if_pos hlt]
    exact ⟨fun _ => hlt, fun _ => hread _⟩
  · rw [if_neg hlt]
    exact ⟨fun hne => absurd rfl hne, fun hlt' => absurd hlt' hlt⟩

/-- A polled path that received `data` stays in bounds exactly when `data` leaves room or is
empty. -/
theorem pollMessage_wrote {failed : CallResult → Bool} {buf : IOBuffer} {data : List Byte}
    (h : data.length ≤ buf.length) (hfailed : failed (RecvCall.wrote data).callResult = false) :
    pollMessage failed buf (.wrote data) ≠ .outOfBounds ↔
      data.length < buf.length ∨ data = [] := by
  rw [pollMessage, hfailed, if_neg Bool.false_ne_true]
  -- a result of 0 stores nothing
  by_cases hempty : data = []
  · subst hempty
    rw [if_neg (by simp [RecvCall.callResult])]
    exact ⟨fun _ => .inr rfl, fun _ => by simp⟩
  have hpos : 0 < data.length := List.length_pos_iff.mpr hempty
  rw [if_pos (by simpa [RecvCall.callResult] using hpos), storeZero_fill h]
  by_cases hlt : data.length < buf.length
  · simp only [if_pos hlt, chatMessage_terminated]
    exact ⟨fun _ => .inl hlt, fun _ => by simp⟩
  · rw [if_neg hlt]
    exact ⟨fun hne => absurd rfl hne, fun hor => absurd hor (not_or.mpr ⟨hlt, hempty⟩)⟩

/-- **The terminator is in bounds exactly when the call left room for it.** For a result that
fills the whole buffer every path writes one past its end, the polled paths only if the buffer
is not empty. -/
theorem receive_inBounds_iff (p : ReceivePath) {buf : IOBuffer} {data : List Byte}
    (h : data.length ≤ buf.length) :
    p.InBounds buf (.wrote data) ↔ data.length < buf.length ∨ (p.polled = true ∧ data = []) := by
  -- behind the received bytes there is a NUL, and the conversion stops there
  have hchat : ∀ rest, chatMessage (data ++ 0 :: rest) ≠ .outOfBounds := fun rest => by
    rw [chatMessage_terminated]
    exact fun heq => by cases heq
  cases p with
  | tcp | udp | unix | forkedSocket =>
      exact (receiveMessageWith_wrote h hchat).trans (by simp [ReceivePath.polled])
  | sctp notification =>
      refine (receiveMessageWith_wrote h fun rest => ?_).trans (by simp [ReceivePath.polled])
      cases notification with
      | false => exact hchat rest
      | true => exact fun heq => by cases heq
  | forkedPipe | forkedNamedPipe =>
      exact (pollMessage_wrote h (RecvCall.failedRead_wrote data)).trans
        (by simp [ReceivePath.polled])
  | forkedMessageQueue =>
      exact (pollMessage_wrote h (RecvCall.failedMqReceive_wrote data)).trans
        (by simp [ReceivePath.polled])

/-- A one-byte message in a pool buffer. -/
theorem receive_inBounds_short :
    ReceivePath.tcp.InBounds (List.replicate (64 * 1024) 0) (.wrote quitMsg) :=
  (receive_inBounds_iff .tcp (by rw [List.length_replicate]; decide)).mpr
    (.inl (by rw [List.length_replicate]; decide))

/-- **A full buffer.** When a TCP peer has 64 KiB pending, `recv` fills the pool's buffer and the
terminator is stored behind its end. -/
theorem not_receive_inBounds :
    ¬ ∀ (p : ReceivePath) (buf : IOBuffer) (data : List Byte), data.length ≤ buf.length →
      p.InBounds buf (.wrote data) := by
  intro h
  have hin := h .tcp (List.replicate (64 * 1024) 0) (List.replicate (64 * 1024) 120)
    (by simp only [List.length_replicate, le_refl])
  rw [receive_inBounds_iff .tcp (by simp only [List.length_replicate, le_refl])] at hin
  rcases hin with hlt | ⟨hpolled, -⟩
  · simp only [List.length_replicate, lt_irrefl] at hlt
  · exact Bool.false_ne_true hpolled

end SctpSandbox

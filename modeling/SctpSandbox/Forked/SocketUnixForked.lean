import SctpSandbox.Lib.Run
import SctpSandbox.MessageBuffer

/-! # `SocketUnixForked`: two processes and six channels

A `SocketUnixForked` forks. Parent and child then run the same code on a socket pair, a pipe, a
named pipe, two POSIX message queues and two shared integers, each of which a semaphore announces.
`send` uses all of them one after the other, and `receive` polls all of them.

A member function is the list of its operations, each a system call or an access to shared memory
and so atomic. A run takes the operations of the two processes in any order: in each step one
process calls a member function, or makes the next operation of the one it is in. What a full pipe
or a failing socket answers is an input; the message queues, the semaphores and what the pipes hold
are state. -/

namespace SctpSandbox

/-- The two processes after the fork. -/
inductive Process where
  | parent
  | child
  deriving DecidableEq

/-- The process at the other side. -/
def Process.other : Process → Process
  | .parent => .child
  | .child => .parent

/-- `ProcessId`. -/
abbrev ProcessId := ℤ

/-- What `getpid` returns. -/
abbrev Pid := { pid : ProcessId // 0 < pid }

/-- The two sockets of a socket pair. -/
inductive SocketEnd where
  | first
  | second
  deriving DecidableEq

/-- What is sent on one socket arrives at the other. -/
def SocketEnd.other : SocketEnd → SocketEnd
  | .first => .second
  | .second => .first

/-- The two ends of a pipe. -/
inductive PipeEnd where
  | read
  | write
  deriving DecidableEq

/-- The message queues, `parent_mq_name` and `child_mq_name`. -/
inductive MessageQueue where
  | parent
  | child
  deriving DecidableEq

/-- The attributes of a message queue. -/
structure MqAttr where
  /-- The messages it can hold. -/
  maxmsg : ℕ
  /-- The length of its longest message. -/
  msgsize : ℕ

/-- The default attributes. -/
def MqAttr.default : MqAttr := ⟨10, 8192⟩

/-- The shared integers, each with the semaphore that announces it. -/
inductive SharedInt where
  /-- `shm_mmap->i` and `sem_named`. -/
  | posix
  /-- `shm_shmat->i` and `sem_unnamed`. -/
  | sysV
  deriving DecidableEq

/-- A `SocketUnixForked`, as one process has it; `none` is a descriptor not open. -/
structure SocketUnixForked where
  /-- It has no initialiser. -/
  parent : ProcessId
  fd : Option SocketEnd := none
  pipe : Option PipeEnd := none
  namedPipe : Option PipeEnd := none
  mq : MessageQueue := .parent
  peerMq : MessageQueue := .child

namespace SocketUnixForked

/-- `createSocketPair`. -/
def createSocketPair : SocketEnd × SocketEnd := (.first, .second)

/-- `createPipe`. -/
def createPipe : PipeEnd × PipeEnd := (.read, .write)

/-- `createNamedPipe`. -/
def createNamedPipe : PipeEnd × PipeEnd := (.read, .write)

/-- `forkParent`. -/
def forkParent (fd : SocketEnd) (pipe namedPipe : PipeEnd) (s : SocketUnixForked) :
    SocketUnixForked :=
  { s with fd := some fd, pipe := some pipe, namedPipe := some namedPipe }

/-- `forkChild`. -/
def forkChild (fd : SocketEnd) (pipe namedPipe : PipeEnd) (s : SocketUnixForked) :
    SocketUnixForked :=
  { s with fd := some fd, pipe := some pipe, namedPipe := some namedPipe
           mq := s.peerMq, peerMq := s.mq }

/-- `fork`, as each process returns from it; `pid` is what `getpid` returned before. -/
def fork (socketPair : SocketEnd × SocketEnd) (pipe namedPipe : PipeEnd × PipeEnd) (pid : Pid)
    (s : SocketUnixForked) : Process → SocketUnixForked
  | .parent => s.forkParent socketPair.2 pipe.2 namedPipe.2
  | .child => forkChild socketPair.1 pipe.1 namedPipe.1 { s with parent := pid }

/-- The constructor, as each process returns from it; `prior` is what the storage of the member
`parent` held before. -/
def construct (prior : ProcessId) (pid : Pid) : Process → SocketUnixForked :=
  fork createSocketPair createPipe createNamedPipe pid { parent := prior }

/-- `isChild`. -/
def isChild (s : SocketUnixForked) : Bool := s.parent ≠ 0

end SocketUnixForked

/-- `PIPE_BUF`. -/
def pipeBuf : ℕ := 4096

/-- `SEM_VALUE_MAX`. -/
def semValueMax : ℕ := 2147483647

/-- A size as the `int` it is passed as. -/
def sizeToInt (n : ℕ) : ℤ := (n : ℤ).bmod 4294967296

/-- What is written to a pipe in packet mode: packets of at most `PIPE_BUF` bytes. -/
def packets (data : List Byte) : List (List Byte) :=
  (List.range ((data.length + pipeBuf - 1) / pipeBuf)).map fun i =>
    (data.drop (i * pipeBuf)).take pipeBuf

/-- An operation of a member function: a system call, with what is passed to it, or an access to
shared memory. -/
inductive ForkedOp where
  | send (msg : ChatMessage)
  | writePipe (msg : ChatMessage)
  | writeNamedPipe (msg : ChatMessage)
  | mqSend (msg : ChatMessage) (prio : ℕ)
  | set (i : SharedInt) (v : ℤ)
  | semPost (i : SharedInt)
  /-- `Socket::receive`: `select`, and `handleMessage` if there is something to receive. -/
  | receive
  | semTrywait (i : SharedInt)
  | get (i : SharedInt)
  | readPipe
  | readNamedPipe
  | mqReceive
  deriving DecidableEq

/-- The public member functions, with their arguments; the priorities are `shuffledIndexes(5)`. -/
inductive ForkedCall where
  | send (msg : ChatMessage) (prios : List ℕ)
  | receive
  deriving DecidableEq

/-- Where a process stands. -/
inductive ForkedControl where
  /-- Between two calls. -/
  | ready
  /-- In a call, with the operations still to make. -/
  | busy (call : ForkedCall) (ops : List ForkedOp)
  /-- The check on an operation threw. -/
  | threw (op : ForkedOp)
  /-- The message buffer was accessed outside its bounds. -/
  | outOfBounds
  /-- The destructor has run. -/
  | destroyed
  deriving DecidableEq

/-- The operation the process makes next. -/
def ForkedControl.nextOp : ForkedControl → Option ForkedOp
  | .busy _ (op :: _) => some op
  | _ => none

/-- What a process did, as far as somebody can tell. -/
inductive ForkedAction where
  | called (call : ForkedCall)
  | returned (call : ForkedCall)
  | set (i : SharedInt) (v : ℤ)
  | posted (i : SharedInt)
  | acquired (i : SharedInt)
  | got (i : SharedInt) (v : ℤ)
  | received (msg : ChatMessage)
  | polledPipe
  | receivedFromPipe (msg : ChatMessage)
  | polledNamedPipe
  | receivedFromNamedPipe (msg : ChatMessage)
  | receivedFromMessageQueue (msg : ChatMessage) (prio : ℕ)
  | signalled (pid : ProcessId)
  deriving DecidableEq

/-- The two processes and what they share. -/
structure ForkedPair where
  control : Process → ForkedControl := fun _ => .ready
  /-- The datagrams that wait at each socket, the oldest first. -/
  socketPair : SocketEnd → List ChatMessage := fun _ => []
  /-- The packets in the pipe, the oldest first. -/
  pipe : List (List Byte) := []
  /-- The bytes in the named pipe. -/
  namedPipe : List Byte := []
  /-- The messages in each queue with their priorities, the oldest first. -/
  queue : MessageQueue → List (ℕ × ChatMessage) := fun _ => []
  integer : SharedInt → ℤ := fun _ => 0
  semaphore : SharedInt → ℕ := fun _ => 0
  /-- What the processes did, the newest first. -/
  log : List (Process × ForkedAction) := []

/-- What the kernel makes of an operation whose result the state does not tell. -/
inductive KernelAnswer where
  /-- It fails. -/
  | refused
  /-- It succeeds; a `write` took this many bytes. -/
  | accepted (n : ℕ)
  deriving DecidableEq

/-- What happens next in one of the processes. -/
inductive ForkedInput where
  | call (call : ForkedCall)
  /-- The next operation of the call the process is in, or its return. -/
  | resume (answer : KernelAnswer)
  | destroy
  deriving DecidableEq

/-- What an operation comes to. -/
inductive ForkedEffect where
  /-- The process goes on, with some operations before the others. -/
  | goesOn (s : ForkedPair) (ops : List ForkedOp)
  | throws (s : ForkedPair)
  | outOfBounds

namespace ForkedPair

/-! ## The member functions -/

section Members

variable (msg : ChatMessage)

/-- `sendOnSocketPair`. -/
def sendOnSocketPair : List ForkedOp := [.send msg]

/-- `sendOnPipe`. -/
def sendOnPipe : List ForkedOp := [.writePipe msg]

/-- `sendOnNamedPipe`. -/
def sendOnNamedPipe : List ForkedOp := [.writeNamedPipe msg]

/-- `sendOnMessageQueue`. -/
def sendOnMessageQueue (prios : List ℕ) : List ForkedOp := prios.map (.mqSend msg)

/-- `setPosixSharedMemory`. -/
def setPosixSharedMemory (v : ℤ) : List ForkedOp := [.set .posix v]

/-- `postNamedSemaphore`. -/
def postNamedSemaphore : List ForkedOp := [.semPost .posix]

/-- `setSysVSharedMemory`. -/
def setSysVSharedMemory (v : ℤ) : List ForkedOp := [.set .sysV v]

/-- `postUnnamedSemaphore`. -/
def postUnnamedSemaphore : List ForkedOp := [.semPost .sysV]

/-- `readPosixSharedMemory`; a permit makes it read. -/
def readPosixSharedMemory : List ForkedOp := [.semTrywait .posix]

/-- `readSysVSharedMemory`. -/
def readSysVSharedMemory : List ForkedOp := [.semTrywait .sysV]

/-- `receiveFromPipe`. -/
def receiveFromPipe : List ForkedOp := [.readPipe]

/-- `receiveFromNamedPipe`. -/
def receiveFromNamedPipe : List ForkedOp := [.readNamedPipe]

/-- `receiveFromMessageQueue`. -/
def receiveFromMessageQueue : List ForkedOp := [.mqReceive]

/-- `send`. -/
def send (prios : List ℕ) : List ForkedOp :=
  sendOnSocketPair msg ++ sendOnPipe msg ++ sendOnNamedPipe msg ++ sendOnMessageQueue msg prios ++
    setPosixSharedMemory (sizeToInt msg.length) ++ postNamedSemaphore ++
    setSysVSharedMemory (sizeToInt msg.length) ++ postUnnamedSemaphore

/-- `receive`. -/
def receive (this : SocketUnixForked) : List ForkedOp :=
  [.receive] ++ readPosixSharedMemory ++ readSysVSharedMemory ++
    (if this.isChild then receiveFromPipe ++ receiveFromNamedPipe else []) ++
    receiveFromMessageQueue

end Members

/-- The operations of a call. -/
def operations (this : SocketUnixForked) : ForkedCall → List ForkedOp
  | .send msg prios => send msg prios
  | .receive => receive this

/-! ## The operations -/

section Operations

variable (s : ForkedPair) (p : Process)

/-- A line about what process `p` did. -/
def record (a : ForkedAction) : ForkedPair := { s with log := (p, a) :: s.log }

/-- Process `p` moves. -/
def setControl (c : ForkedControl) : ForkedPair :=
  { s with control := Function.update s.control p c }

/-- The datagrams that wait at a socket of the pair. -/
def setSocket (e : SocketEnd) (data : List ChatMessage) : ForkedPair :=
  { s with socketPair := Function.update s.socketPair e data }

/-- The messages in a queue. -/
def setQueue (mq : MessageQueue) (messages : List (ℕ × ChatMessage)) : ForkedPair :=
  { s with queue := Function.update s.queue mq messages }

/-- The value of a shared integer. -/
def setInteger (i : SharedInt) (v : ℤ) : ForkedPair :=
  { s with integer := Function.update s.integer i v }

/-- The value of the semaphore of a shared integer. -/
def setSemaphore (i : SharedInt) (n : ℕ) : ForkedPair :=
  { s with semaphore := Function.update s.semaphore i n }

/-- The message buffer; what it held before does not matter. -/
def msgBuffer : IOBuffer := List.replicate msgBufferSize 0

/-- A polled path has been through the buffer: what it read, if anything, is logged. -/
def obtained (line : ChatMessage → ForkedAction) :
    Access (IOBuffer × Option ChatMessage) → ForkedEffect
  | .done (_, none) => .goesOn s []
  | .done (_, some msg) => .goesOn (s.record p (line msg)) []
  | .threw => .throws s
  | .outOfBounds => .outOfBounds

/-- The rest of `handleMessage` behind `recv`. -/
def handled : Access (IOBuffer × Option ChatMessage) → ForkedEffect
  | .done (_, none) => .goesOn s []
  | .done (_, some msg) =>
      if msg = quitMsg then .throws (s.record p (.received msg))
      else .goesOn (s.record p (.received msg)) []
  | .threw => .throws s
  | .outOfBounds => .outOfBounds

/-- `Socket::receive`, with the datagrams that wait at the socket. -/
def receiveDatagram (e : SocketEnd) : List ChatMessage → ForkedEffect
  | [] => .goesOn s []
  | data :: rest =>
      handled (s.setSocket e rest) p
        (SocketUnixForked.receive msgBuffer (.wrote (data.take msgBufferSize)))

/-- `receiveFromPipe`: one packet, or `EAGAIN`. -/
def readPackets : List (List Byte) → ForkedEffect
  | [] => obtained s p .receivedFromPipe
      (SocketUnixForked.receiveFromPipe msgBuffer (.failed .eagain))
  | packet :: rest => obtained { s with pipe := rest } p .receivedFromPipe
      (SocketUnixForked.receiveFromPipe msgBuffer (.wrote (packet.take msgBufferSize)))

/-- `receiveFromNamedPipe`: as many of the pending bytes as fit, or `EAGAIN`. -/
def readBytes : List Byte → ForkedEffect
  | [] => obtained s p .receivedFromNamedPipe
      (SocketUnixForked.receiveFromNamedPipe msgBuffer (.failed .eagain))
  | b :: bytes => obtained { s with namedPipe := (b :: bytes).drop msgBufferSize } p
      .receivedFromNamedPipe
      (SocketUnixForked.receiveFromNamedPipe msgBuffer (.wrote ((b :: bytes).take msgBufferSize)))

/-- The highest priority in a queue. -/
def highest (queue : List (ℕ × ChatMessage)) : ℕ := (queue.map Prod.fst).foldr max 0

/-- `receiveFromMessageQueue`: the oldest message of the highest priority, or `EAGAIN`. -/
def dequeue (mq : MessageQueue) : Option (ℕ × ChatMessage) → ForkedEffect
  | none => obtained s p (.receivedFromMessageQueue · 0)
      (SocketUnixForked.receiveFromMessageQueue msgBuffer (.failed .eagain))
  | some m => obtained
      (s.setQueue mq ((s.queue mq).eraseP fun m => m.1 = highest (s.queue mq))) p
      (.receivedFromMessageQueue · m.1)
      (SocketUnixForked.receiveFromMessageQueue msgBuffer (.wrote m.2))

/-- One operation of process `p`, whose object is `this`. -/
def perform (attr : MqAttr) (this : SocketUnixForked) (answer : KernelAnswer) :
    ForkedOp → ForkedEffect
  | .send msg =>
      match answer, this.fd with
      | .accepted _, some e =>
          .goesOn (s.setSocket e.other (s.socketPair e.other ++ [msg])) []
      | _, _ => .throws s
  | .writePipe msg =>
      match answer, this.pipe with
      | .accepted n, some .write => .goesOn { s with pipe := s.pipe ++ packets (msg.take n) } []
      | _, _ => .throws s
  | .writeNamedPipe msg =>
      match answer, this.namedPipe with
      | .accepted n, some .write => .goesOn { s with namedPipe := s.namedPipe ++ msg.take n } []
      | _, _ => .throws s
  | .mqSend msg prio =>
      if (s.queue this.peerMq).length < attr.maxmsg ∧ msg.length ≤ attr.msgsize then
        .goesOn (s.setQueue this.peerMq (s.queue this.peerMq ++ [(prio, msg)])) []
      else .throws s
  | .set i v =>
      .goesOn ((s.setInteger i v).record p (.set i v)) []
  | .semPost i =>
      if s.semaphore i < semValueMax then
        .goesOn ((s.setSemaphore i (s.semaphore i + 1)).record p (.posted i)) []
      else .throws s
  | .receive =>
      match answer, this.fd with
      | .accepted _, some e => receiveDatagram s p e (s.socketPair e)
      | _, _ => .throws s
  | .semTrywait i =>
      if 0 < s.semaphore i then
        .goesOn ((s.setSemaphore i (s.semaphore i - 1)).record p (.acquired i)) [.get i]
      else .goesOn s []
  | .get i => .goesOn (s.record p (.got i (s.integer i))) []
  | .readPipe =>
      match this.pipe with
      | some .read => readPackets (s.record p .polledPipe) p s.pipe
      | _ => .throws (s.record p .polledPipe)
  | .readNamedPipe =>
      match this.namedPipe with
      | some .read => readBytes (s.record p .polledNamedPipe) p s.namedPipe
      | _ => .throws (s.record p .polledNamedPipe)
  | .mqReceive =>
      if attr.msgsize ≤ msgBufferSize then
        dequeue s p this.mq ((s.queue this.mq).find? fun m => m.1 = highest (s.queue this.mq))
      else .throws s

end Operations

/-! ## Runs -/

/-- What becomes of a process that has made an operation. -/
def proceed (s : ForkedPair) (p : Process) (call : ForkedCall) (op : ForkedOp)
    (ops : List ForkedOp) : ForkedEffect → ForkedPair
  | .goesOn s' more => s'.setControl p (.busy call (more ++ ops))
  | .throws s' => s'.setControl p (.threw op)
  | .outOfBounds => s.setControl p .outOfBounds

section Steps

variable (attr : MqAttr) (this : Process → SocketUnixForked)

/-- Process `p` calls a member function. -/
def call (s : ForkedPair) (p : Process) (c : ForkedCall) : ForkedPair :=
  match s.control p with
  | .ready => (s.record p (.called c)).setControl p (.busy c (operations (this p) c))
  | _ => s

/-- Process `p` makes the next operation of its call, or returns from it. -/
def resume (s : ForkedPair) (p : Process) (answer : KernelAnswer) : ForkedPair :=
  match s.control p with
  | .busy c [] => (s.record p (.returned c)).setControl p .ready
  | .busy c (op :: ops) => proceed s p c op ops (perform s p attr (this p) answer op)
  | _ => s

/-- The destructor of process `p`, as far as the other process can tell. -/
def destroy (s : ForkedPair) (p : Process) : ForkedPair :=
  if (this p).isChild then
    (s.record p (.signalled (this p).parent)).setControl p .destroyed
  else s.setControl p .destroyed

/-- One step of one process. -/
def step (s : ForkedPair) : Process × ForkedInput → Outcome ForkedPair
  | (p, .call c) => .returned (call this s p c)
  | (p, .resume answer) => .returned (resume attr this s p answer)
  | (p, .destroy) => .returned (destroy this s p)

end Steps

/-- What a `write` of a message may return: all of it up to `PIPE_BUF` bytes, else at least no more
than there is. -/
def Writes (msg : ChatMessage) (n : ℕ) : Prop :=
  if msg.length ≤ pipeBuf then n = msg.length else n ≤ msg.length

/-- The answer can be given to the operation. -/
def Answers (answer : KernelAnswer) : ForkedOp → Prop
  | .writePipe msg | .writeNamedPipe msg => ∀ n, answer = .accepted n → Writes msg n
  | _ => True

/-- A process in a call goes on with its next operation, or returns. -/
def Resumes (answer : KernelAnswer) : ForkedControl → Prop
  | .busy _ (op :: _) => Answers answer op
  | .busy _ [] => True
  | _ => False

/-- The destructor runs between two calls or after an exception. -/
def Ends : ForkedControl → Prop
  | .ready | .threw _ => True
  | _ => False

/-- The input fits where the process stands; a call of `send` uses every priority once. -/
def Possible (s : ForkedPair) : Process × ForkedInput → Prop
  | (p, .call (.send _ prios)) => s.control p = .ready ∧ prios.Perm (List.range 5)
  | (p, .call .receive) => s.control p = .ready
  | (p, .resume answer) => Resumes answer (s.control p)
  | (p, .destroy) => Ends (s.control p)

/-- The steps of `send` and `receive`. -/
def Talks (s : ForkedPair) (e : Process × ForkedInput) : Prop := s.Possible e ∧ e.2 ≠ .destroy

/-! ## What can be decided -/

instance (msg : ChatMessage) (n : ℕ) : Decidable (Writes msg n) := by
  unfold Writes
  infer_instance

instance (answer : KernelAnswer) (msg : ChatMessage) :
    Decidable (∀ n, answer = .accepted n → Writes msg n) :=
  match answer with
  | .refused => isTrue fun _ h => KernelAnswer.noConfusion h
  | .accepted n => decidable_of_iff (Writes msg n)
      ⟨fun h _ hn => KernelAnswer.accepted.inj hn ▸ h, fun h => h n rfl⟩

instance (answer : KernelAnswer) : DecidablePred (Answers answer) := fun op => by
  cases op <;> unfold Answers <;> infer_instance

instance (answer : KernelAnswer) : DecidablePred (Resumes answer)
  | .busy _ (op :: _) => inferInstanceAs (Decidable (Answers answer op))
  | .busy _ [] => isTrue trivial
  | .ready | .threw _ | .outOfBounds | .destroyed => isFalse id

instance : DecidablePred Ends
  | .ready | .threw _ => isTrue trivial
  | .busy _ _ | .outOfBounds | .destroyed => isFalse id

instance decidablePossible (s : ForkedPair) : ∀ e, Decidable (s.Possible e)
  | (p, .call (.send _ prios)) =>
      inferInstanceAs (Decidable (s.control p = .ready ∧ prios.Perm (List.range 5)))
  | (p, .call .receive) => inferInstanceAs (Decidable (s.control p = .ready))
  | (p, .resume answer) => inferInstanceAs (Decidable (Resumes answer (s.control p)))
  | (p, .destroy) => inferInstanceAs (Decidable (Ends (s.control p)))

instance (s : ForkedPair) (e : Process × ForkedInput) : Decidable (s.Talks e) :=
  inferInstanceAs (Decidable (_ ∧ _))

end ForkedPair

end SctpSandbox

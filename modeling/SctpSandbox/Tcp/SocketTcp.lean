import SctpSandbox.Socket

/-! # `SocketTcp` and `SocketDccp`

A listening socket and a table of peers, one connected socket each, under the mutex `peers_mtx`.
Every member function is a `Call` that locks the mutex where the source has `LOCK_MTX(peers_mtx)`;
what kind of mutex it is, is a parameter. The answers of the kernel and of the buffer pool are
inputs of the calls, and the state carries the log of the fds opened and closed. `SocketDccp` has
its own `send` and `handleMessage` and inherits the rest. -/

namespace SctpSandbox

/-- `SocketTcp::Peer`. -/
structure TcpPeer where
  fd : FileDescriptor
  msgBuffer : Buffer
  remote : IPSocket
  shouldReestablish : Bool

/-- The state of a `SocketTcp` and its surroundings. -/
structure SocketTcp where
  /-- The listening socket. -/
  fd : FileDescriptor
  peers : AList fun _ : FD => TcpPeer := ∅
  mainMsgBuffer : Buffer := 0
  /-- The C string in each buffer. -/
  messages : Buffer → ChatMessage := fun _ => []
  /-- The fds opened and closed, the newest first. -/
  calls : List FdCall := []
  /-- What `send` was called with on which fd, the newest first. -/
  sent : List (FD × ChatMessage) := []
  /-- The remotes given to `scheduleReestablishment`, the newest first. -/
  reestablishments : List IPSocket := []

/-- A `SocketTcp` just constructed, listening on `n`. -/
def SocketTcp.constructed (n : FD) : SocketTcp := { fd := { fd := n }, calls := [.adopted n] }

/-- The answer of `accept4`. -/
inductive AcceptAnswer where
  | failed
  | accepted (n : FD) (remote : IPSocket)
  /-- The address of the peer cannot be decoded. -/
  | undecodable (n : FD)

/-- The fd that `accept4` has opened. -/
def AcceptAnswer.opened : AcceptAnswer → Option FD
  | .failed => none
  | .accepted n _ => some n
  | .undecodable n => some n

/-- The answers to the calls behind `connect` for one remote. -/
structure ConnectAnswer where
  /-- The fd `socket` opens, unless it fails. -/
  socket : Option FD
  /-- Whether all of `configure` and `bind` succeeds. -/
  configured : Bool
  /-- Whether `::connect` succeeds or is in progress. -/
  connected : Bool
  buffer : Buffer

/-- The answers to the calls behind `handleMessage`. -/
structure TcpAnswers where
  accept : AcceptAnswer
  buffer : Buffer
  recv : RecvCall
  /-- Whether the addresses for the log line can be queried. -/
  peername : Bool

/-- Calls on a `SocketTcp`. -/
abbrev TcpCall := Call SocketError SocketTcp

namespace SocketTcp

open Call

variable (mtx : Mutex)

/-- `peers.at(fd)`. -/
def peersAt (fd : FD) : TcpCall TcpPeer := do
  match (← this).peers.lookup fd with
  | some peer => pure peer
  | none => raise .outOfRange

/-- `peers.emplace(key, move(peer))`: a peer that finds its key taken is destroyed. -/
def emplace (key : FD) (peer : TcpPeer) : TcpCall Unit :=
  modifyThis fun s =>
    if key ∈ s.peers then { s with calls := peer.fd.destroy s.calls }
    else { s with peers := s.peers.insert key peer }

/-- `Socket::scheduleReestablishment`. -/
def scheduleReestablishment (remote : IPSocket) : TcpCall Unit :=
  modifyThis fun s => { s with reestablishments := remote :: s.reestablishments }

/-- A `FileDescriptor` around an fd just opened. -/
def adopt (n : FD) : TcpCall FileDescriptor := do
  modifyThis fun s => { s with calls := .adopted n :: s.calls }
  pure { fd := n }

/-- Leave a scope by a `runtime_error`, and destroy its `FileDescriptor`. -/
def unwind {α : Type} (fd : FileDescriptor) : TcpCall α := do
  modifyThis fun s => { s with calls := fd.destroy s.calls }
  raise .runtimeError

/-- `createConnectSocket`. -/
def createConnectSocket (answer : ConnectAnswer) : TcpCall FileDescriptor := do
  match answer.socket with
  | some n =>
      let fd ← adopt n
      if answer.configured then pure fd else unwind fd
  | none => raise .runtimeError

/-- The body of the loop in `connect`. The key is the number that `fd` keeps when it is moved. -/
def connectOne (remote : IPSocket) (answer : ConnectAnswer) : TcpCall Unit := do
  let fd ← createConnectSocket answer
  if answer.connected then
    emplace fd.moveConstruct.2.fd ⟨fd.moveConstruct.1, answer.buffer, remote, true⟩
  else unwind fd

/-- `connect`. -/
def connect (remotes : List (IPSocket × ConnectAnswer)) : TcpCall Unit :=
  withLock mtx (remotes.forM fun remote => connectOne remote.1 remote.2)

/-- `sendMessage`; `ok` says on which fds `::send` succeeds. -/
def sendMessage (ok : FD → Bool) (msg : ChatMessage) (fd : FD) : TcpCall Unit := do
  modifyThis fun s => { s with sent := (fd, msg) :: s.sent }
  if ok fd then pure () else raise .runtimeError

/-- The fds of the peers, in the order of the map. -/
def peerFds (s : SocketTcp) : List FD :=
  (s.peers.entries.mergeSort fun p q => p.1 ≤ q.1).map fun p => p.2.fd.fd

/-- `send`. -/
def send (ok : FD → Bool) (msg : ChatMessage) : TcpCall Unit :=
  withLock mtx do
    let s ← this
    s.peerFds.forM (sendMessage ok msg)

/-- The fds that `selectFds` puts into the set. -/
def fdSet (s : SocketTcp) : List FD := s.fd.fd :: s.peerFds

/-- `selectFds`; `ready` says which fds `select` reports, unless it fails. -/
def selectFds (ready : Option (FD → Bool)) : TcpCall (List FD) :=
  withLock mtx do
    let s ← this
    match ready with
    | some ready => pure (FDSet.select s.fdSet ready)
    | none => raise .runtimeError

/-- `getBuffer`. -/
def getBuffer (fd : FD) : TcpCall Buffer :=
  withLock mtx do
    let peer ← peersAt fd
    pure peer.msgBuffer

/-- `recv` into a buffer and the terminator behind the bytes received. -/
def receiveInto (buffer : Buffer) : RecvCall → TcpCall Unit
  | .failed _ => raise .runtimeError
  | .wrote data => modifyThis fun s =>
      { s with messages := Function.update s.messages buffer (cStr data) }

/-- `receiveMessage`. -/
def receiveMessage (fd : FD) (io : TcpAnswers) : TcpCall Unit := do
  let buffer ← getBuffer mtx fd
  receiveInto buffer io.recv

/-- The message in a buffer. -/
def readMessage (buffer : Buffer) : TcpCall ChatMessage := do
  pure ((← this).messages buffer)

/-- `Socket::accept`. -/
def accept : AcceptAnswer → TcpCall (FileDescriptor × IPSocket)
  | .failed => raise .runtimeError
  | .accepted n remote => do
      let acceptResult ← adopt n
      pure (acceptResult.moveConstruct.1, remote)
  | .undecodable n => do
      let acceptResult ← adopt n
      unwind acceptResult

/-- `handleCommUp`. The key `FD{fd}` and the peer that takes `fd` over are arguments of one call, in
an order left open; the number is the same before the move and after it. -/
def handleCommUp (io : TcpAnswers) : TcpCall Unit :=
  withLock mtx do
    let (fd, remote) ← accept io.accept
    emplace fd.moveConstruct.2.fd ⟨fd.moveConstruct.1, io.buffer, remote, false⟩

/-- `remove`. -/
def remove (fd : FD) : TcpCall Unit :=
  withLock mtx do
    modifyThis fun s =>
      match s.peers.lookup fd with
      | some peer => { s with peers := s.peers.erase fd, calls := peer.fd.destroy s.calls }
      | none => s

/-- `handleGracefulShutdown`; the peer is looked up for the log line. -/
def handleGracefulShutdown (fd : FD) : TcpCall Unit :=
  withLock mtx do
    let _ ← peersAt fd
    remove mtx fd

/-- `handleCommLost`. -/
def handleCommLost (fd : FD) : TcpCall Unit :=
  withLock mtx do
    let peer ← peersAt fd
    if peer.shouldReestablish then scheduleReestablishment peer.remote
    remove mtx fd

/-- The log line for a message, with `getPeerAddresses(fd)`. -/
def logMessage (io : TcpAnswers) : TcpCall Unit :=
  if io.peername then pure () else raise .runtimeError

/-- `handleMessage`. -/
def handleMessage (fd : FD) (io : TcpAnswers) : TcpCall Unit := do
  if fd = (← this).fd.fd then
    handleCommUp mtx io
  else
    let lost ← catches SocketError.isRuntimeError (receiveMessage mtx fd io)
    if lost then
      handleCommLost mtx fd
    else
      let buffer ← getBuffer mtx fd
      let msg ← readMessage buffer
      if msg = [] then
        handleGracefulShutdown mtx fd
      else
        logMessage io

end SocketTcp

/-- The calls on a socket, `connect` also from a reconnect task. -/
inductive TcpOp where
  | connect (remotes : List (IPSocket × ConnectAnswer))
  | send (ok : FD → Bool) (msg : ChatMessage)
  | selectFds (ready : Option (FD → Bool))
  | handleMessage (fd : FD) (io : TcpAnswers)

/-- The calls on a `SocketTcp`. -/
def SocketTcp.call (mtx : Mutex) : TcpOp → TcpCall Unit
  | .connect remotes => SocketTcp.connect mtx remotes
  | .send ok msg => SocketTcp.send mtx ok msg
  | .selectFds ready => do let _ ← SocketTcp.selectFds mtx ready
  | .handleMessage fd io => SocketTcp.handleMessage mtx fd io

namespace SocketDccp

open Call SocketTcp

variable (mtx : Mutex)

/-- `SocketDccp::send`: a `runtime_error` for one peer is logged. -/
def send (ok : FD → Bool) (msg : ChatMessage) : TcpCall Unit :=
  withLock mtx do
    let s ← this
    s.peerFds.forM fun fd => do
      let _ ← catches SocketError.isRuntimeError (sendMessage ok msg fd)

/-- `SocketDccp::handleMessage`: the receive is not in a `try` block, an empty message means the
loss of the peer, and a quit message ends the connection. -/
def handleMessage (fd : FD) (io : TcpAnswers) : TcpCall Unit := do
  if fd = (← this).fd.fd then
    handleCommUp mtx io
  else
    receiveMessage mtx fd io
    let buffer ← getBuffer mtx fd
    let msg ← readMessage buffer
    if msg = [] then
      handleCommLost mtx fd
    else if msg = quitMsg then
      handleGracefulShutdown mtx fd
    else
      logMessage io

/-- The calls on a `SocketDccp`; the destructor calls `send` with `quitMsg`. -/
def call (mtx : Mutex) : TcpOp → TcpCall Unit
  | .connect remotes => SocketTcp.connect mtx remotes
  | .send ok msg => SocketDccp.send mtx ok msg
  | .selectFds ready => do let _ ← SocketTcp.selectFds mtx ready
  | .handleMessage fd io => SocketDccp.handleMessage mtx fd io

end SocketDccp

end SctpSandbox

import SctpSandbox.Socket

/-! # `SocketSctp`

One socket that accepts associations, and a table of peers under the mutex `peers_mtx`: an
association that is up is peeled off into a socket of its own. The table is keyed by association,
the buffers and the selection go by fd. Notifications arrive like messages, first on the main
socket and then on the peeled-off one. Calls, kernel answers and the log of fds are modelled as for
`SocketTcp`; the state also keeps the association changes received so far. -/

namespace SctpSandbox

/-- `sctp_assoc_t`. -/
abbrev AssocId := ℤ

/-- `sac_state` of an association change. -/
inductive SacState where
  | commUp
  | commLost
  | restart
  | shutdownComp
  | cantStrAssoc
  | other
  deriving DecidableEq

/-- `sctp_notification`, as far as `handle` and its log line read it. -/
inductive SctpNotification where
  | assocChange (state : SacState) (assocId : AssocId)
  /-- A change of a peer address, which the log line decodes if it can. -/
  | peerAddrChange (addr : Option IPSocket)
  | other
  deriving DecidableEq

/-- `SocketSctp::Peer`. -/
structure SctpPeer where
  fd : FileDescriptor
  msgBuffer : Buffer

/-- The state of a `SocketSctp` and its surroundings. -/
structure SocketSctp where
  /-- The main socket. -/
  fd : FileDescriptor
  /-- `config.big_msg_size`. -/
  bigMsgSize : ℕ := 0
  peers : AList fun _ : AssocId => SctpPeer := ∅
  mainMsgBuffer : Buffer := 0
  /-- The fds opened and closed, the newest first. -/
  calls : List FdCall := []
  /-- What `::send` was called with on which fd, the newest first. -/
  sent : List (FD × ChatMessage) := []
  /-- The remotes given to `scheduleReestablishment`, the newest first. -/
  reestablishments : List IPSocket := []
  /-- The association changes received, the newest first. -/
  changes : List (AssocId × SacState) := []

/-- What `sctp_recvmsg` gives: the sender is missing where its address cannot be decoded. -/
inductive SctpRecv where
  | failed
  | message (data : List Byte) (sender : Option IPSocket)
  | notification (n : SctpNotification) (sender : Option IPSocket)
  deriving DecidableEq

/-- The answers to the calls behind `handleMessage`. -/
structure SctpAnswers where
  recv : SctpRecv
  /-- The fd `sctp_peeloff` opens, unless it fails. -/
  peeloff : Option FD
  /-- Whether the queries of `logPeerInfo` succeed. -/
  peerInfo : Bool
  buffer : Buffer

/-- Calls on a `SocketSctp`. -/
abbrev SctpCall := Call SocketError SocketSctp

namespace SocketSctp

open Call

variable (mtx : Mutex)

/-- `Socket::connect` for one remote after the other; the flag is its success. -/
def connect (remotes : List (IPSocket × Bool)) : SctpCall Unit :=
  remotes.forM fun remote => if remote.2 then pure () else raise .runtimeError

/-- `connectMultihomed`. -/
def connectMultihomed (remotes : List IPSocket) (ok : Bool) : SctpCall Unit :=
  if remotes = [] then pure ()
  else if ok then pure () else raise .runtimeError

/-- `send(fd, msg)`; `ok` says on which fds `::send` succeeds. -/
def sendTo (ok : FD → Bool) (fd : FD) (msg : ChatMessage) : SctpCall Unit := do
  modifyThis fun s => { s with sent := (fd, msg) :: s.sent }
  if ok fd then pure () else raise .runtimeError

/-- `sendBigMessage`. -/
def sendBigMessage (ok : FD → Bool) (fd : FD) : SctpCall Unit := do
  let s ← this
  sendTo ok fd (List.replicate s.bigMsgSize (120 : Byte))

/-- `send`, in the order in which the table is traversed. -/
def send (order : List AssocId) (ok : FD → Bool) (msg : ChatMessage) : SctpCall Unit :=
  withLock mtx do
    let s ← this
    (order.filterMap fun id => s.peers.lookup id).forM fun peer =>
      if s.bigMsgSize ≠ 0 then sendBigMessage ok peer.fd.fd else sendTo ok peer.fd.fd msg

/-- The fds of the peers. -/
def peerFds (s : SocketSctp) : List FD := s.peers.entries.map fun p => p.2.fd.fd

/-- The fds that `selectFds` puts into the set. -/
def fdSet (s : SocketSctp) : List FD := s.fd.fd :: s.peerFds

/-- `selectFds`; `ready` says which fds `select` reports, unless it fails. -/
def selectFds (ready : Option (FD → Bool)) : SctpCall (List FD) :=
  withLock mtx do
    let s ← this
    match ready with
    | some ready => pure (FDSet.select s.fdSet ready)
    | none => raise .runtimeError

/-- `find_if` over the peers, by the fd they hold. -/
def findPeer (fd : FD) (s : SocketSctp) : Option SctpPeer :=
  (s.peers.entries.find? fun p => p.2.fd.fd = fd).map fun p => p.2

/-- `getBuffer`. -/
def getBuffer (fd : FD) : SctpCall Buffer :=
  withLock mtx do
    let s ← this
    if fd = s.fd.fd then pure s.mainMsgBuffer
    else
      match findPeer fd s with
      | some peer => pure peer.msgBuffer
      | none => raise .pastTheEnd

/-- `Socket::scheduleReestablishment`. -/
def scheduleReestablishment (remote : IPSocket) : SctpCall Unit :=
  modifyThis fun s => { s with reestablishments := remote :: s.reestablishments }

/-- `peers.emplace(assocId, move(peer))`: a peer that finds its key taken is destroyed. -/
def emplace (assocId : AssocId) (peer : SctpPeer) : SctpCall Unit :=
  modifyThis fun s =>
    if assocId ∈ s.peers then { s with calls := peer.fd.destroy s.calls }
    else { s with peers := s.peers.insert assocId peer }

/-- `peelOff`. -/
def peelOff (assocId : AssocId) (io : SctpAnswers) : SctpCall Unit :=
  withLock mtx do
    match io.peeloff with
    | some n =>
        modifyThis fun s => { s with calls := .adopted n :: s.calls }
        let peeledFd : FileDescriptor := { fd := n }
        if io.peerInfo then
          emplace assocId ⟨peeledFd.moveConstruct.1, io.buffer⟩
        else
          modifyThis fun s => { s with calls := peeledFd.destroy s.calls }
          raise .runtimeError
    | none => raise .runtimeError

/-- `remove`. -/
def remove (assocId : AssocId) : SctpCall Unit :=
  withLock mtx do
    modifyThis fun s =>
      match s.peers.lookup assocId with
      | some peer => { s with peers := s.peers.erase assocId, calls := peer.fd.destroy s.calls }
      | none => s

/-- `handleCommUp`. -/
def handleCommUp (assocId : AssocId) (io : SctpAnswers) : SctpCall Unit := peelOff mtx assocId io

/-- `handleEstablishmentFailure`. -/
def handleEstablishmentFailure (remote : IPSocket) : SctpCall Unit := scheduleReestablishment remote

/-- `handleGracefulShutdown`. -/
def handleGracefulShutdown (assocId : AssocId) : SctpCall Unit := remove mtx assocId

/-- `handleCommLost`. -/
def handleCommLost (assocId : AssocId) (remote : IPSocket) : SctpCall Unit := do
  remove mtx assocId
  scheduleReestablishment remote

/-- The log line of a notification. -/
def logNotification : SctpNotification → SctpCall Unit
  | .peerAddrChange none => raise .runtimeError
  | _ => pure ()

/-- `handle`. -/
def handle (sender : IPSocket) (n : SctpNotification) (io : SctpAnswers) : SctpCall Unit := do
  logNotification n
  match n with
  | .assocChange .commUp assocId => handleCommUp mtx assocId io
  | .assocChange .cantStrAssoc _ => handleEstablishmentFailure sender
  | .assocChange .shutdownComp assocId => handleGracefulShutdown mtx assocId
  | .assocChange .commLost assocId => handleCommLost mtx assocId sender
  | _ => pure ()

/-- `IPSocket{from_storage}`. -/
def decodeSender : Option IPSocket → SctpCall IPSocket
  | some sender => pure sender
  | none => raise .runtimeError

/-- An association change is kept in the state when it arrives. -/
def keepChange : SctpNotification → SctpCall Unit
  | .assocChange state assocId =>
      modifyThis fun s => { s with changes := (assocId, state) :: s.changes }
  | _ => pure ()

/-- `sctp_recvmsg`, and the decoding of the sender behind it. -/
def recvmsg : SctpRecv → SctpCall (Option (IPSocket × SctpNotification))
  | .failed => raise .runtimeError
  | .message _ sender => do
      let _ ← decodeSender sender
      pure none
  | .notification n sender => do
      keepChange n
      let sender ← decodeSender sender
      pure (some (sender, n))

/-- `handleMessage`. The message is received into the buffer, from where the notification is
read. -/
def handleMessage (fd : FD) (io : SctpAnswers) : SctpCall Unit := do
  let _ ← getBuffer mtx fd
  match ← recvmsg io.recv with
  | some (sender, n) => handle mtx sender n io
  | none => pure ()

end SocketSctp

/-- The calls on a `SocketSctp`, `connect` also from a reconnect task. -/
inductive SctpOp where
  | connect (remotes : List (IPSocket × Bool))
  | connectMultihomed (remotes : List IPSocket) (ok : Bool)
  | send (order : List AssocId) (ok : FD → Bool) (msg : ChatMessage)
  | selectFds (ready : Option (FD → Bool))
  | handleMessage (fd : FD) (io : SctpAnswers)

/-- The calls on a `SocketSctp`. -/
def SocketSctp.call (mtx : Mutex) : SctpOp → SctpCall Unit
  | .connect remotes => SocketSctp.connect remotes
  | .connectMultihomed remotes ok => SocketSctp.connectMultihomed remotes ok
  | .send order ok msg => SocketSctp.send mtx order ok msg
  | .selectFds ready => do let _ ← SocketSctp.selectFds mtx ready
  | .handleMessage fd io => SocketSctp.handleMessage mtx fd io

end SctpSandbox

import SctpSandbox.Tcp.SocketTcp

/-! # What the calls of `SocketTcp` do

Equations for the calls behind `handleMessage`, one for each way they can go. They hold for both
kinds of mutex as long as it is free. What every call keeps, also of a `SocketDccp`, follows from
what the ways to enter a connection or to remove one keep (`Kept`). -/

namespace SctpSandbox

namespace SocketTcp

open Call

variable {mtx : Mutex} {s : SocketTcp} {fd n : FD} {io : TcpAnswers} {peer : TcpPeer}
  {remote : IPSocket} {g : Guarded SocketTcp}

/-- `peers.at` of a descriptor that has an entry. -/
theorem peersAt_ok (h : g.object.peers.lookup fd = some peer) : peersAt fd g = .ok peer g := by
  rw [peersAt, bind_this, h]
  rfl

/-- `peers.at` of a descriptor without an entry throws. -/
theorem peersAt_none (h : g.object.peers.lookup fd = none) :
    peersAt fd g = .error (.exception .outOfRange) g := by
  rw [peersAt, bind_this, h]
  rfl

/-- The buffer of a descriptor is its peer's. -/
theorem getBuffer_ok (h : s.peers.lookup fd = some peer) :
    getBuffer mtx fd ⟨s, false⟩ = .ok peer.msgBuffer ⟨s, false⟩ := by
  rw [getBuffer, withLock_free _ rfl, bind_ok (peersAt_ok (g := ⟨s, true⟩) h)]
  rfl

/-- The lookup of a buffer throws when there is no peer. -/
theorem getBuffer_none (h : s.peers.lookup fd = none) :
    getBuffer mtx fd ⟨s, false⟩ = .error (.exception .outOfRange) ⟨s, false⟩ := by
  rw [getBuffer, withLock_free _ rfl, bind_error (peersAt_none h)]

/-- The state in which a message has been received into a buffer. -/
def received (s : SocketTcp) (buffer : Buffer) (data : List Byte) : SocketTcp :=
  { s with messages := Function.update s.messages buffer (cStr data) }

/-- A receive stores the message in the peer's buffer. -/
theorem receiveMessage_ok (h : s.peers.lookup fd = some peer) {data : List Byte}
    (hrecv : io.recv = .wrote data) :
    receiveMessage mtx fd io ⟨s, false⟩ = .ok () ⟨s.received peer.msgBuffer data, false⟩ := by
  rw [receiveMessage, bind_ok (getBuffer_ok h), hrecv]
  rfl

/-- A receive throws when its call failed. -/
theorem receiveMessage_failed (h : s.peers.lookup fd = some peer) {err : Errno}
    (hrecv : io.recv = .failed err) :
    receiveMessage mtx fd io ⟨s, false⟩ = .error (.exception .runtimeError) ⟨s, false⟩ := by
  rw [receiveMessage, bind_ok (getBuffer_ok h), hrecv]
  rfl

/-- A receive throws when there is no peer. -/
theorem receiveMessage_none (h : s.peers.lookup fd = none) :
    receiveMessage mtx fd io ⟨s, false⟩ = .error (.exception .outOfRange) ⟨s, false⟩ := by
  rw [receiveMessage, bind_error (getBuffer_none h)]

/-- The message just received is the one that the second lookup reads. -/
theorem readMessage_received (buffer : Buffer) (data : List Byte) :
    readMessage buffer ⟨s.received buffer data, false⟩ =
      .ok (cStr data) ⟨s.received buffer data, false⟩ := by
  have hread : readMessage buffer ⟨s.received buffer data, false⟩ =
      .ok ((s.received buffer data).messages buffer) ⟨s.received buffer data, false⟩ := rfl
  have hmsg : (s.received buffer data).messages buffer = cStr data := Function.update_self _ _ _
  rw [hread, hmsg]

/-! ## Entries made and destroyed -/

/-- An entry is made for an fd just opened. -/
def entered (s : SocketTcp) (n : FD) (peer : TcpPeer) : SocketTcp :=
  { s with peers := s.peers.insert n peer, calls := .adopted n :: s.calls }

/-- The entry of `fd` is destroyed. -/
def erased (s : SocketTcp) (fd : FD) (peer : TcpPeer) : SocketTcp :=
  { s with peers := s.peers.erase fd, calls := peer.fd.destroy s.calls }

/-- A reconnect is scheduled for a peer that was connected to. -/
def rescheduled (s : SocketTcp) (peer : TcpPeer) : SocketTcp :=
  if peer.shouldReestablish then { s with reestablishments := peer.remote :: s.reestablishments }
  else s

/-- The reconnects scheduled once the connection to a peer is lost. -/
def withReconnect (peer : TcpPeer) (reestablishments : List IPSocket) : List IPSocket :=
  if peer.shouldReestablish then peer.remote :: reestablishments else reestablishments

/-- The scheduling of a reconnect leaves the table. -/
theorem peers_rescheduled (s : SocketTcp) (peer : TcpPeer) :
    (s.rescheduled peer).peers = s.peers := by
  unfold rescheduled
  cases peer.shouldReestablish with
  | true => rfl
  | false => rfl

/-- The scheduling of a reconnect adds that of the peer, when it is flagged. -/
theorem reestablishments_rescheduled (s : SocketTcp) (peer : TcpPeer) :
    (s.rescheduled peer).reestablishments = withReconnect peer s.reestablishments := by
  unfold rescheduled withReconnect
  cases peer.shouldReestablish with
  | true => rfl
  | false => rfl

/-- The entry made for an accepted connection. -/
def acceptedPeer (n : FD) (remote : IPSocket) (buffer : Buffer) : TcpPeer :=
  ⟨{ fd := n }, buffer, remote, false⟩

/-- A new key is entered. -/
theorem emplace_new {held : Bool} (h : n ∉ s.peers) :
    emplace n peer ⟨s, held⟩ = .ok () ⟨{ s with peers := s.peers.insert n peer }, held⟩ := by
  have heq : emplace n peer ⟨s, held⟩ = .ok () ⟨if n ∈ s.peers then
      { s with calls := peer.fd.destroy s.calls }
    else { s with peers := s.peers.insert n peer }, held⟩ := rfl
  rw [heq, if_neg h]

/-- A failed accept ends in an exception. -/
theorem handleCommUp_failed (h : io.accept = .failed) :
    handleCommUp mtx io ⟨s, false⟩ = .error (.exception .runtimeError) ⟨s, false⟩ := by
  refine withLock_exception ⟨s, true⟩ rfl ?_
  rw [h]
  rfl

/-- An accepted address that does not decode ends in an exception, and the descriptor is closed
again. -/
theorem handleCommUp_undecodable (h : io.accept = .undecodable n) :
    handleCommUp mtx io ⟨s, false⟩ = .error (.exception .runtimeError)
      ⟨{ s with calls := FileDescriptor.destroy { fd := n } (.adopted n :: s.calls) }, false⟩ := by
  refine withLock_exception (g := ⟨s, false⟩) ⟨{ s with
    calls := FileDescriptor.destroy { fd := n } (.adopted n :: s.calls) }, true⟩ rfl ?_
  rw [h]
  rfl

/-- An accepted connection is entered. -/
theorem handleCommUp_accepted (h : io.accept = .accepted n remote) (hn : n ∉ s.peers) :
    handleCommUp mtx io ⟨s, false⟩ =
      .ok () ⟨s.entered n (acceptedPeer n remote io.buffer), false⟩ := by
  -- the `FileDescriptor` is moved out of `accept`, so nothing is closed on the way
  have haccept : accept (.accepted n remote) ⟨s, true⟩ =
      .ok (({ fd := n } : FileDescriptor), remote)
        ⟨{ s with calls := .adopted n :: s.calls }, true⟩ := rfl
  refine withLock_ok ⟨s.entered n (acceptedPeer n remote io.buffer), true⟩ rfl ?_
  rw [h, bind_ok haccept]
  exact emplace_new (s := { s with calls := .adopted n :: s.calls }) hn

/-- On a recursive mutex the removal may be called with the mutex held. -/
theorem remove_held (hp : s.peers.lookup fd = some peer) :
    remove .recursive fd ⟨s, true⟩ = .ok () ⟨s.erased fd peer, true⟩ := by
  rw [remove, withLock_recursive_held _ rfl]
  simp only [modifyThis, hp]
  rfl

/-- On a recursive mutex the shutdown erases the peer. -/
theorem handleGracefulShutdown_ok (hp : s.peers.lookup fd = some peer) :
    handleGracefulShutdown .recursive fd ⟨s, false⟩ = .ok () ⟨s.erased fd peer, false⟩ := by
  refine withLock_ok ⟨s.erased fd peer, true⟩ rfl ?_
  rw [bind_ok (peersAt_ok (g := ⟨s, true⟩) hp)]
  exact remove_held hp

/-- On a recursive mutex the loss erases the peer and schedules its reconnect. -/
theorem handleCommLost_ok (hp : s.peers.lookup fd = some peer) :
    handleCommLost .recursive fd ⟨s, false⟩ =
      .ok () ⟨(s.rescheduled peer).erased fd peer, false⟩ := by
  refine withLock_ok ⟨(s.rescheduled peer).erased fd peer, true⟩ rfl ?_
  rw [bind_ok (peersAt_ok (g := ⟨s, true⟩) hp), rescheduled]
  cases peer.shouldReestablish with
  | true =>
      exact remove_held (s := { s with reestablishments := peer.remote :: s.reestablishments }) hp
  | false => exact remove_held hp

/-- The log line returns when the addresses can be queried. -/
theorem logMessage_ok (h : io.peername = true) (g : Guarded SocketTcp) :
    logMessage io g = .ok () g := by
  rw [logMessage, if_pos h]
  rfl

/-- The log line throws when the peer's name is not to be had. -/
theorem logMessage_error (h : io.peername = false) (g : Guarded SocketTcp) :
    logMessage io g = .error (.exception .runtimeError) g := by
  rw [logMessage, if_neg (by simp [h])]
  rfl

/-! ## The ways a message goes -/

/-- On the main descriptor `handleMessage` takes the new connection. -/
theorem handleMessage_main (h : fd = s.fd.fd) :
    handleMessage mtx fd io ⟨s, false⟩ = handleCommUp mtx io ⟨s, false⟩ := by
  rw [handleMessage, bind_this, if_pos h]

/-- On a descriptor without a peer `handleMessage` throws. -/
theorem handleMessage_unknown (h : fd ≠ s.fd.fd) (hp : s.peers.lookup fd = none) :
    handleMessage mtx fd io ⟨s, false⟩ = .error (.exception .outOfRange) ⟨s, false⟩ := by
  -- `out_of_range` is no `runtime_error`: the `catch` block lets it pass
  have hcatch : catches SocketError.isRuntimeError (receiveMessage mtx fd io) ⟨s, false⟩ =
      .error (.exception .outOfRange) ⟨s, false⟩ := by
    rw [catches, receiveMessage_none hp]
    rfl
  rw [handleMessage, bind_this, if_neg h, bind_error hcatch]

/-- A failed receive is a loss. -/
theorem handleMessage_failed (h : fd ≠ s.fd.fd) (hp : s.peers.lookup fd = some peer)
    {err : Errno} (hrecv : io.recv = .failed err) :
    handleMessage mtx fd io ⟨s, false⟩ = handleCommLost mtx fd ⟨s, false⟩ := by
  have hcatch : catches SocketError.isRuntimeError (receiveMessage mtx fd io) ⟨s, false⟩ =
      .ok true ⟨s, false⟩ := by
    rw [catches, receiveMessage_failed hp hrecv]
    rfl
  rw [handleMessage, bind_this, if_neg h, bind_ok hcatch, if_pos rfl]

/-- The empty message is the shutdown, any other one is logged. -/
theorem handleMessage_received (h : fd ≠ s.fd.fd) (hp : s.peers.lookup fd = some peer)
    {data : List Byte} (hrecv : io.recv = .wrote data) :
    handleMessage mtx fd io ⟨s, false⟩ =
      (if cStr data = [] then handleGracefulShutdown mtx fd else logMessage io)
        ⟨s.received peer.msgBuffer data, false⟩ := by
  have hcatch : catches SocketError.isRuntimeError (receiveMessage mtx fd io) ⟨s, false⟩ =
      .ok false ⟨s.received peer.msgBuffer data, false⟩ := by
    rw [catches, receiveMessage_ok hp hrecv]
  -- the peer is looked up a second time, in the state that holds the message
  have hp' : (s.received peer.msgBuffer data).peers.lookup fd = some peer := hp
  rw [handleMessage, bind_this, if_neg h, bind_ok hcatch, if_neg Bool.false_ne_true,
    bind_ok (getBuffer_ok hp'), bind_ok (readMessage_received _ _)]

/-! ## What the calls keep -/

section Keeps

variable {P : SocketTcp → Prop}

/-- A lookup keeps every property of the socket. -/
theorem keeps_peersAt (fd : FD) : Keeps P (peersAt fd) := by
  refine keeps_this.bind fun s => ?_
  cases s.peers.lookup fd with
  | some peer => exact keeps_pure _
  | none => exact keeps_raise _

/-- The lookup of a buffer keeps every property of the socket. -/
theorem keeps_getBuffer (fd : FD) : Keeps P (getBuffer mtx fd) :=
  Keeps.withLock ((keeps_peersAt fd).bind fun _ => keeps_pure _)

/-- The line of a message keeps every property of the socket. -/
theorem keeps_logMessage (io : TcpAnswers) : Keeps P (logMessage io) :=
  .ite (fun _ => keeps_pure _) fun _ => keeps_raise _

/-- A wait keeps every property of the socket. -/
theorem keeps_selectFds (ready : Option (FD → Bool)) : Keeps P (selectFds mtx ready) := by
  refine Keeps.withLock (keeps_this.bind fun s => ?_)
  cases ready with
  | some ready => exact keeps_pure _
  | none => exact keeps_raise _

/-- A property of the connections, which messages, sends and scheduled reconnects do not touch. What
is left to prove of it are the three ways to enter a connection or to remove one. -/
structure Kept (mtx : Mutex) (P : SocketTcp → Prop) : Prop where
  frame : ∀ s messages sent reestablishments, P s → P { s with
    messages := messages, sent := sent, reestablishments := reestablishments }
  connectOne : ∀ remote answer, Keeps P (connectOne remote answer)
  handleCommUp : ∀ io, Keeps P (handleCommUp mtx io)
  remove : ∀ fd, Keeps P (remove mtx fd)

/-- What the writing functions keep, the connects keep. -/
theorem Kept.connect (h : Kept mtx P) (remotes : List (IPSocket × ConnectAnswer)) :
    Keeps P (SocketTcp.connect mtx remotes) :=
  Keeps.withLock (keeps_forM remotes fun remote _ => h.connectOne remote.1 remote.2)

/-- What the writing functions keep, one send keeps. -/
theorem Kept.sendMessage (h : Kept mtx P) (ok : FD → Bool) (msg : ChatMessage) (fd : FD) :
    Keeps P (SocketTcp.sendMessage ok msg fd) := by
  refine Keeps.bind ?_ fun _ => .ite (fun _ => keeps_pure _) fun _ => keeps_raise _
  exact keeps_modifyThis fun s hs => h.frame s s.messages _ s.reestablishments hs

/-- What the writing functions keep, a receive keeps. -/
theorem Kept.receiveMessage (h : Kept mtx P) (fd : FD) (io : TcpAnswers) :
    Keeps P (SocketTcp.receiveMessage mtx fd io) := by
  refine (keeps_getBuffer fd).bind fun buffer => ?_
  cases io.recv with
  | failed err => exact keeps_raise _
  | wrote data =>
      rw [receiveInto]
      exact keeps_modifyThis fun s hs => h.frame s _ s.sent s.reestablishments hs

/-- What the writing functions keep, the loss keeps. -/
theorem Kept.handleCommLost (h : Kept mtx P) (fd : FD) :
    Keeps P (SocketTcp.handleCommLost mtx fd) := by
  refine Keeps.withLock ((keeps_peersAt fd).bind fun peer => .ite (fun _ => ?_) fun _ => ?_)
  · refine Keeps.bind ?_ fun _ => h.remove fd
    exact keeps_modifyThis fun s hs => h.frame s s.messages s.sent _ hs
  · exact h.remove fd

/-- What the writing functions keep, the shutdown keeps. -/
theorem Kept.handleGracefulShutdown (h : Kept mtx P) (fd : FD) :
    Keeps P (SocketTcp.handleGracefulShutdown mtx fd) :=
  Keeps.withLock ((keeps_peersAt fd).bind fun _ => h.remove fd)

/-- What the writing functions keep, the whole round of a descriptor keeps. -/
theorem Kept.handleMessage (h : Kept mtx P) (fd : FD) (io : TcpAnswers) :
    Keeps P (SocketTcp.handleMessage mtx fd io) := by
  refine keeps_this.bind fun s => .ite (fun _ => h.handleCommUp io) fun _ => ?_
  refine (Keeps.catches (h.receiveMessage fd io)).bind fun lost => ?_
  refine .ite (fun _ => h.handleCommLost fd) fun _ => (keeps_getBuffer fd).bind fun buffer => ?_
  refine (keeps_this.bind fun s => keeps_pure _).bind fun msg => ?_
  exact .ite (fun _ => h.handleGracefulShutdown fd) fun _ => keeps_logMessage io

/-- **Every call keeps it**, however it ends. -/
theorem Kept.call (h : Kept mtx P) (op : TcpOp) : Keeps P (SocketTcp.call mtx op) := by
  cases op with
  | connect remotes => exact h.connect remotes
  | send ok msg =>
      exact Keeps.withLock (keeps_this.bind fun s => keeps_forM _ fun fd _ =>
        h.sendMessage ok msg fd)
  | selectFds ready => exact (keeps_selectFds ready).bind fun _ => keeps_pure _
  | handleMessage fd io => exact h.handleMessage fd io

end Keeps

end SocketTcp

namespace SocketDccp

open Call SocketTcp

variable {mtx : Mutex} {s : SocketTcp} {fd : FD} {io : TcpAnswers} {peer : TcpPeer}

/-- On the main descriptor the derived class takes the new connection. -/
theorem handleMessage_main (h : fd = s.fd.fd) :
    handleMessage mtx fd io ⟨s, false⟩ = handleCommUp mtx io ⟨s, false⟩ := by
  rw [handleMessage, bind_this, if_pos h]

/-- On a descriptor without a peer the derived class throws. -/
theorem handleMessage_unknown (h : fd ≠ s.fd.fd) (hp : s.peers.lookup fd = none) :
    handleMessage mtx fd io ⟨s, false⟩ = .error (.exception .outOfRange) ⟨s, false⟩ := by
  rw [handleMessage, bind_this, if_neg h, bind_error (receiveMessage_none hp)]

/-- The derived class does not catch a failed receive. -/
theorem handleMessage_failed (h : fd ≠ s.fd.fd) (hp : s.peers.lookup fd = some peer)
    {err : Errno} (hrecv : io.recv = .failed err) :
    handleMessage mtx fd io ⟨s, false⟩ = .error (.exception .runtimeError) ⟨s, false⟩ := by
  rw [handleMessage, bind_this, if_neg h, bind_error (receiveMessage_failed hp hrecv)]

/-- In the derived class the empty message is a loss and the quit message the shutdown. -/
theorem handleMessage_received (h : fd ≠ s.fd.fd) (hp : s.peers.lookup fd = some peer)
    {data : List Byte} (hrecv : io.recv = .wrote data) :
    handleMessage mtx fd io ⟨s, false⟩ =
      (if cStr data = [] then handleCommLost mtx fd
        else if cStr data = quitMsg then handleGracefulShutdown mtx fd else logMessage io)
        ⟨s.received peer.msgBuffer data, false⟩ := by
  have hp' : (s.received peer.msgBuffer data).peers.lookup fd = some peer := hp
  rw [handleMessage, bind_this, if_neg h, bind_ok (receiveMessage_ok hp hrecv),
    bind_ok (getBuffer_ok hp'), bind_ok (readMessage_received _ _)]

/-- **Every call keeps what those of `SocketTcp` keep.** -/
theorem keeps_call {P : SocketTcp → Prop} (h : Kept mtx P) (op : TcpOp) :
    Keeps P (SocketDccp.call mtx op) := by
  cases op with
  | connect remotes => exact h.connect remotes
  | send ok msg =>
      -- each send is guarded for itself
      refine Keeps.withLock (keeps_this.bind fun s => keeps_forM _ fun fd _ => ?_)
      exact (Keeps.catches (h.sendMessage ok msg fd)).bind fun _ => keeps_pure _
  | selectFds ready => exact (keeps_selectFds ready).bind fun _ => keeps_pure _
  | handleMessage fd io =>
      refine keeps_this.bind fun s => .ite (fun _ => h.handleCommUp io) fun _ => ?_
      refine (h.receiveMessage fd io).bind fun _ => (keeps_getBuffer fd).bind fun buffer => ?_
      refine (keeps_this.bind fun s => keeps_pure _).bind fun msg => ?_
      refine .ite (fun _ => h.handleCommLost fd) fun _ => ?_
      exact .ite (fun _ => h.handleGracefulShutdown fd) fun _ => keeps_logMessage io

end SocketDccp

end SctpSandbox

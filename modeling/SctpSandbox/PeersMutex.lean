import SctpSandbox.Sctp.SocketSctp
import SctpSandbox.Tcp.Calls

/-! # Who locks `peers_mtx` twice

`handleGracefulShutdown` and `handleCommLost` of `SocketTcp` call `remove` inside their own scope of
`peers_mtx`, and `remove` locks it again: on a plain mutex the thread waits for itself. `Unnested`
says for `SocketTcp` and `SocketDccp` which messages do not lead there; `SocketSctp` has no nested
scope. `completesAll_iff_unnested` covers all sequences of calls on the three classes. -/

namespace SctpSandbox

open Call

namespace SocketTcp

variable {mtx : Mutex} {b : Bool} {s : SocketTcp} {fd : FD} {io : TcpAnswers} {peer : TcpPeer}
  {g : Guarded SocketTcp}

/-! ## Calls that do not lock -/

/-- A lookup leaves the mutex as it found it. -/
theorem balanced_peersAt (fd : FD) : Balanced b (peersAt fd) := by
  refine balanced_this.bind fun s => ?_
  cases s.peers.lookup fd with
  | some peer => exact balanced_pure peer
  | none => exact balanced_raise _

/-- The unwinding of a half made socket leaves the mutex as it found it. -/
theorem balanced_unwind {α : Type} (fd : FileDescriptor) :
    Balanced b (unwind fd : TcpCall α) := (balanced_modifyThis _).bind fun _ => balanced_raise _

/-- An adoption leaves the mutex as it found it. -/
theorem balanced_adopt (n : FD) : Balanced b (adopt n) :=
  (balanced_modifyThis _).bind fun _ => balanced_pure _

/-- The making of a connecting socket leaves the mutex as it found it. -/
theorem balanced_createConnectSocket (answer : ConnectAnswer) :
    Balanced b (createConnectSocket answer) := by
  unfold createConnectSocket
  cases answer.socket with
  | some n =>
      exact (balanced_adopt n).bind fun fd =>
        .ite (fun _ => balanced_pure fd) fun _ => balanced_unwind fd
  | none => exact balanced_raise _

/-- One connect leaves the mutex as it found it. -/
theorem balanced_connectOne (remote : IPSocket) (answer : ConnectAnswer) :
    Balanced b (connectOne remote answer) :=
  (balanced_createConnectSocket answer).bind fun fd =>
    .ite (fun _ => balanced_modifyThis _) fun _ => balanced_unwind fd

/-- One send leaves the mutex as it found it. -/
theorem balanced_sendMessage (ok : FD → Bool) (msg : ChatMessage) (fd : FD) :
    Balanced b (sendMessage ok msg fd) :=
  (balanced_modifyThis _).bind fun _ => .ite (fun _ => balanced_pure _) fun _ => balanced_raise _

/-- An accept leaves the mutex as it found it. -/
theorem balanced_accept (answer : AcceptAnswer) : Balanced b (accept answer) := by
  cases answer with
  | failed => exact balanced_raise _
  | accepted n remote => exact (balanced_adopt n).bind fun _ => balanced_pure _
  | undecodable n => exact (balanced_adopt n).bind fun fd => balanced_unwind fd

/-- The line of a message leaves the mutex as it found it. -/
theorem balanced_logMessage (io : TcpAnswers) : Balanced b (logMessage io) :=
  .ite (fun _ => balanced_pure _) fun _ => balanced_raise _

/-! ## Calls with one scope -/

/-- The connects lock once and give the mutex back. -/
theorem balanced_connect (remotes : List (IPSocket × ConnectAnswer)) :
    Balanced false (connect mtx remotes) :=
  .withLock (balanced_forM remotes fun remote _ => balanced_connectOne remote.1 remote.2)

/-- The broadcast locks once and gives the mutex back. -/
theorem balanced_send (ok : FD → Bool) (msg : ChatMessage) : Balanced false (send mtx ok msg) :=
  .withLock (balanced_this.bind fun s =>
    balanced_forM s.peerFds fun fd _ => balanced_sendMessage ok msg fd)

/-- The wait for a readable descriptor gives the mutex back. -/
theorem balanced_selectFds (ready : Option (FD → Bool)) : Balanced false (selectFds mtx ready) := by
  refine .withLock (balanced_this.bind fun s => ?_)
  cases ready with
  | some ready => exact balanced_pure _
  | none => exact balanced_raise _

/-- A new connection gives the mutex back. -/
theorem balanced_handleCommUp (io : TcpAnswers) : Balanced false (handleCommUp mtx io) :=
  .withLock ((balanced_accept io.accept).bind fun _ => balanced_modifyThis _)

/-! ## Messages -/

/-- **A second lock in the scope of the first**: the removal of a peer never ends. -/
theorem handleGracefulShutdown_plain (h : s.peers.lookup fd = some peer) :
    handleGracefulShutdown .plain fd ⟨s, false⟩ = .error .deadlock ⟨s, true⟩ := by
  -- the outer scope finds the mutex free, `remove` finds it held
  refine withLock_deadlock _ rfl ?_
  rw [bind_ok (peersAt_ok (g := ⟨s, true⟩) h)]
  exact withLock_plain_held _ rfl

/-- On a plain mutex the lost connection locks a second time and hangs. -/
theorem handleCommLost_plain (h : s.peers.lookup fd = some peer) :
    handleCommLost .plain fd ⟨s, false⟩ = .error .deadlock ⟨s.rescheduled peer, true⟩ := by
  refine withLock_deadlock _ rfl ?_
  rw [bind_ok (peersAt_ok (g := ⟨s, true⟩) h), rescheduled]
  -- whether a reconnect is scheduled or not, `remove` comes next
  cases peer.shouldReestablish with
  | true => rfl
  | false => rfl

/-- The messages that do not lead into the nested scope: a message for the listening socket or for
no peer, and a received message that is not empty. -/
def Unnested : TcpOp → SocketTcp → Prop
  | .handleMessage fd io, s => fd = s.fd.fd ∨ fd ∉ s.peers ∨
      ∃ data, io.recv = .wrote data ∧ cStr data ≠ []
  | _, _ => True

/-- A message completes exactly when it does not lead into the nested scope. -/
theorem handleMessage_endsWith_iff :
    EndsWith false (handleMessage .plain fd io ⟨s, false⟩) ↔ Unnested (.handleMessage fd io) s := by
  by_cases hfd : fd = s.fd.fd
  · -- the listening socket: one scope
    rw [handleMessage_main hfd]
    exact ⟨fun _ => .inl hfd, fun _ => balanced_handleCommUp io _ rfl⟩
  · cases hp : s.peers.lookup fd with
    | none =>
        -- `peers.at(fd)` throws out of the scope, and nobody catches it
        rw [handleMessage_unknown hfd hp]
        exact ⟨fun _ => .inr (.inl (AList.lookup_eq_none.mp hp)), fun _ => rfl⟩
    | some peer =>
        have hmem : fd ∈ s.peers := AList.lookup_isSome.mp (by rw [hp]; rfl)
        cases hrecv : io.recv with
        | failed err =>
            -- the `catch` block removes the peer
            rw [handleMessage_failed hfd hp hrecv, handleCommLost_plain hp]
            refine ⟨False.elim, fun hun => ?_⟩
            rcases hun with h | h | ⟨data, hdata, -⟩
            · exact hfd h
            · exact h hmem
            · exact nomatch hrecv.symm.trans hdata
        | wrote data =>
            rw [handleMessage_received hfd hp hrecv]
            by_cases hempty : cStr data = []
            · -- an empty message removes the peer
              have hp' : (s.received peer.msgBuffer data).peers.lookup fd = some peer := hp
              rw [if_pos hempty, handleGracefulShutdown_plain hp']
              refine ⟨False.elim, fun hun => ?_⟩
              rcases hun with h | h | ⟨data', hdata, hne⟩
              · exact hfd h
              · exact h hmem
              · obtain rfl := RecvCall.wrote.inj (hrecv.symm.trans hdata)
                exact hne hempty
            · rw [if_neg hempty]
              exact ⟨fun _ => .inr (.inr ⟨data, hrecv, hempty⟩),
                fun _ => balanced_logMessage io _ rfl⟩

/-- A call gives the plain mutex back exactly when it does not nest. -/
theorem call_endsWith_iff (op : TcpOp) (hg : g.held = false) :
    EndsWith false (call .plain op g) ↔ Unnested op g.object := by
  obtain ⟨s, held⟩ := g
  obtain rfl : held = false := hg
  cases op with
  | connect remotes => exact ⟨fun _ => trivial, fun _ => balanced_connect remotes _ rfl⟩
  | send ok msg => exact ⟨fun _ => trivial, fun _ => balanced_send ok msg _ rfl⟩
  | selectFds ready =>
      have hbal : Balanced false (call .plain (.selectFds ready)) :=
        (balanced_selectFds ready).bind fun _ => balanced_pure _
      exact ⟨fun _ => trivial, fun _ => hbal _ rfl⟩
  | handleMessage fd io => exact handleMessage_endsWith_iff

end SocketTcp

namespace SocketDccp

open SocketTcp

variable {s : SocketTcp} {fd : FD} {io : TcpAnswers} {g : Guarded SocketTcp}

/-- The messages that do not lead into the nested scope: a message for the listening socket or for
no peer, a receive that fails, and a received message that is neither empty nor a quit. -/
def Unnested : TcpOp → SocketTcp → Prop
  | .handleMessage fd io, s => fd = s.fd.fd ∨ fd ∉ s.peers ∨
      ∀ data, io.recv = .wrote data → cStr data ≠ [] ∧ cStr data ≠ quitMsg
  | _, _ => True

/-- The derived class's broadcast gives the mutex back as well. -/
theorem balanced_send {mtx : Mutex} (ok : FD → Bool) (msg : ChatMessage) :
    Balanced false (SocketDccp.send mtx ok msg) :=
  .withLock (balanced_this.bind fun s => balanced_forM s.peerFds fun fd _ =>
    (balanced_sendMessage ok msg fd).catches.bind fun _ => balanced_pure _)

/-- A message completes exactly when it does not lead into the nested scope. -/
theorem handleMessage_endsWith_iff :
    EndsWith false (SocketDccp.handleMessage .plain fd io ⟨s, false⟩) ↔
      SocketDccp.Unnested (.handleMessage fd io) s := by
  by_cases hfd : fd = s.fd.fd
  · rw [SocketDccp.handleMessage_main hfd]
    exact ⟨fun _ => .inl hfd, fun _ => balanced_handleCommUp io _ rfl⟩
  · cases hp : s.peers.lookup fd with
    | none =>
        rw [SocketDccp.handleMessage_unknown hfd hp]
        exact ⟨fun _ => .inr (.inl (AList.lookup_eq_none.mp hp)), fun _ => rfl⟩
    | some peer =>
        have hmem : fd ∈ s.peers := AList.lookup_isSome.mp (by rw [hp]; rfl)
        cases hrecv : io.recv with
        | failed err =>
            -- here the exception of the receive leaves the handler, and no peer is removed
            rw [SocketDccp.handleMessage_failed hfd hp hrecv]
            refine ⟨fun _ => .inr (.inr fun data hdata => ?_), fun _ => rfl⟩
            exact nomatch hrecv.symm.trans hdata
        | wrote data =>
            have hp' : (s.received peer.msgBuffer data).peers.lookup fd = some peer := hp
            have hmsg : SocketDccp.Unnested (.handleMessage fd io) s →
                cStr data ≠ [] ∧ cStr data ≠ quitMsg := fun hun =>
              ((hun.resolve_left hfd).resolve_left (not_not.mpr hmem)) data hrecv
            rw [SocketDccp.handleMessage_received hfd hp hrecv]
            by_cases hempty : cStr data = []
            · -- an empty message and a quit remove the peer
              rw [if_pos hempty, handleCommLost_plain hp']
              exact ⟨False.elim, fun hun => (hmsg hun).1 hempty⟩
            · rw [if_neg hempty]
              by_cases hquit : cStr data = quitMsg
              · rw [if_pos hquit, handleGracefulShutdown_plain hp']
                exact ⟨False.elim, fun hun => (hmsg hun).2 hquit⟩
              · rw [if_neg hquit]
                refine ⟨fun _ => .inr (.inr fun data' hdata => ?_),
                  fun _ => balanced_logMessage io _ rfl⟩
                obtain rfl := RecvCall.wrote.inj (hrecv.symm.trans hdata)
                exact ⟨hempty, hquit⟩

/-- The derived class nests in the same calls. -/
theorem call_endsWith_iff (op : TcpOp) (hg : g.held = false) :
    EndsWith false (SocketDccp.call .plain op g) ↔ SocketDccp.Unnested op g.object := by
  obtain ⟨s, held⟩ := g
  obtain rfl : held = false := hg
  cases op with
  | connect remotes => exact ⟨fun _ => trivial, fun _ => balanced_connect remotes _ rfl⟩
  | send ok msg => exact ⟨fun _ => trivial, fun _ => SocketDccp.balanced_send ok msg _ rfl⟩
  | selectFds ready =>
      have hbal : Balanced false (SocketDccp.call .plain (.selectFds ready)) :=
        (balanced_selectFds ready).bind fun _ => balanced_pure _
      exact ⟨fun _ => trivial, fun _ => hbal _ rfl⟩
  | handleMessage fd io => exact SocketDccp.handleMessage_endsWith_iff

end SocketDccp

namespace SocketSctp

variable {mtx : Mutex} {b : Bool}

/-- One send leaves the mutex as it found it. -/
theorem balanced_sendTo (ok : FD → Bool) (fd : FD) (msg : ChatMessage) :
    Balanced b (sendTo ok fd msg) :=
  (balanced_modifyThis _).bind fun _ => .ite (fun _ => balanced_pure _) fun _ => balanced_raise _

/-- The one-to-many broadcast gives the mutex back. -/
theorem balanced_send (order : List AssocId) (ok : FD → Bool) (msg : ChatMessage) :
    Balanced false (send mtx order ok msg) :=
  .withLock (balanced_this.bind fun _ => balanced_forM _ fun peer _ => .ite
    (fun _ => balanced_this.bind fun _ => balanced_sendTo ok peer.fd.fd _)
    fun _ => balanced_sendTo ok peer.fd.fd msg)

/-- The wait for a readable descriptor gives the mutex back. -/
theorem balanced_selectFds (ready : Option (FD → Bool)) : Balanced false (selectFds mtx ready) := by
  refine .withLock (balanced_this.bind fun s => ?_)
  cases ready with
  | some ready => exact balanced_pure _
  | none => exact balanced_raise _

/-- The lookup of a buffer gives the mutex back. -/
theorem balanced_getBuffer (fd : FD) : Balanced false (getBuffer mtx fd) := by
  refine .withLock (balanced_this.bind fun s => .ite (fun _ => balanced_pure _) fun _ => ?_)
  cases findPeer fd s with
  | some peer => exact balanced_pure _
  | none => exact balanced_raise _

/-- The peeling off of an association gives the mutex back. -/
theorem balanced_peelOff (assocId : AssocId) (io : SctpAnswers) :
    Balanced false (peelOff mtx assocId io) := by
  refine .withLock ?_
  cases io.peeloff with
  | some n =>
      refine (balanced_modifyThis _).bind fun _ => .ite (fun _ => balanced_modifyThis _) fun _ => ?_
      exact (balanced_modifyThis _).bind fun _ => balanced_raise _
  | none => exact balanced_raise _

/-- The removal of an association gives the mutex back. -/
theorem balanced_remove (assocId : AssocId) : Balanced false (remove mtx assocId) :=
  .withLock (balanced_modifyThis _)

/-- The scheduling of a reconnect does not touch the mutex. -/
theorem balanced_scheduleReestablishment (remote : IPSocket) :
    Balanced b (scheduleReestablishment remote) := balanced_modifyThis _

/-- The line of a notification leaves the mutex as it found it. -/
theorem balanced_logNotification (n : SctpNotification) : Balanced b (logNotification n) := by
  unfold logNotification
  split
  · exact balanced_raise _
  · exact balanced_pure _

/-- The handling of a notification gives the mutex back. -/
theorem balanced_handle (sender : IPSocket) (n : SctpNotification) (io : SctpAnswers) :
    Balanced false (handle mtx sender n io) := by
  refine (balanced_logNotification n).bind fun _ => ?_
  -- the two removals lock, after everything before them has unlocked
  split
  · exact balanced_peelOff _ io
  · exact balanced_scheduleReestablishment sender
  · exact balanced_remove _
  · exact (balanced_remove _).bind fun _ => balanced_scheduleReestablishment sender
  · exact balanced_pure _

/-- The decoding of a sender does not touch the mutex. -/
theorem balanced_decodeSender (sender : Option IPSocket) : Balanced b (decodeSender sender) := by
  cases sender with
  | some sender => exact balanced_pure _
  | none => exact balanced_raise _

/-- The noting of a change does not touch the mutex. -/
theorem balanced_keepChange (n : SctpNotification) : Balanced b (keepChange n) := by
  cases n with
  | assocChange state assocId =>
      rw [keepChange]
      exact balanced_modifyThis _
  | peerAddrChange addr => exact balanced_pure _
  | other => exact balanced_pure _

/-- The receiving call does not touch the mutex. -/
theorem balanced_recvmsg (recv : SctpRecv) : Balanced b (recvmsg recv) := by
  cases recv with
  | failed => exact balanced_raise _
  | message data sender =>
      exact (balanced_decodeSender sender).bind fun _ => balanced_pure _
  | notification n sender =>
      refine (balanced_keepChange n).bind fun _ => ?_
      exact (balanced_decodeSender sender).bind fun _ => balanced_pure _

/-- The whole round of a descriptor gives the mutex back. -/
theorem balanced_handleMessage (fd : FD) (io : SctpAnswers) :
    Balanced false (handleMessage mtx fd io) := by
  refine (balanced_getBuffer fd).bind fun _ => (balanced_recvmsg io.recv).bind fun received => ?_
  cases received with
  | some received => exact balanced_handle received.1 received.2 io
  | none => exact balanced_pure _

/-- No call on a `SocketSctp` locks the mutex twice. -/
theorem balanced_call (op : SctpOp) : Balanced false (call mtx op) := by
  cases op with
  -- `connect` and `connectMultihomed` do not touch the table
  | connect remotes =>
      refine balanced_forM remotes fun _ _ => ?_
      exact .ite (fun _ => balanced_pure _) fun _ => balanced_raise _
  | connectMultihomed remotes ok =>
      refine .ite (fun _ => balanced_pure _) fun _ => ?_
      exact .ite (fun _ => balanced_pure _) fun _ => balanced_raise _
  | send order ok msg => exact balanced_send order ok msg
  | selectFds ready => exact (balanced_selectFds ready).bind fun _ => balanced_pure _
  | handleMessage fd io => exact balanced_handleMessage fd io

end SocketSctp

/-- **Which sequences of calls complete**, on a mutex that is not recursive: on a `SocketTcp` and
on a `SocketDccp` those that never remove a peer in a handler, on a `SocketSctp` all. -/
theorem completesAll_iff_unnested (ops : List TcpOp) (s : SocketTcp) (sctpOps : List SctpOp)
    (sctp : SocketSctp) :
    (CompletesAll (SocketTcp.call .plain) ops ⟨s, false⟩ ↔
      EachMeets (SocketTcp.call .plain) SocketTcp.Unnested ops ⟨s, false⟩) ∧
    (CompletesAll (SocketDccp.call .plain) ops ⟨s, false⟩ ↔
      EachMeets (SocketDccp.call .plain) SocketDccp.Unnested ops ⟨s, false⟩) ∧
    CompletesAll (SocketSctp.call .plain) sctpOps ⟨sctp, false⟩ := by
  refine ⟨?_, ?_, ?_⟩
  · exact completesAll_iff (fun op _ hg => SocketTcp.call_endsWith_iff op hg) ops rfl
  · exact completesAll_iff (fun op _ hg => SocketDccp.call_endsWith_iff op hg) ops rfl
  · exact completesAll_of_balanced SocketSctp.balanced_call sctpOps rfl

/-- **A peer that closes its connection hangs the thread of its handler**: `recv` returns 0. -/
theorem not_completesAll : ¬ ∀ (n : FD) (ops : List TcpOp),
    CompletesAll (SocketTcp.call .plain) ops ⟨SocketTcp.constructed n, false⟩ := by
  intro h
  let remote : IPSocket := ⟨ascii "10.0.0.2" ++ List.replicate 8 0, 5000, afInet⟩
  let accepted : TcpAnswers := ⟨.accepted 4 remote, 1, .wrote [], true⟩
  have hall := h 3 [.handleMessage 3 accepted, .handleMessage 4 accepted]
  exact hall.2.1

end SctpSandbox

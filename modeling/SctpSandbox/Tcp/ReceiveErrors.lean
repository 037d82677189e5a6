import SctpSandbox.PeersMutex
import SctpSandbox.Tcp.Table

/-! # What a failing peer does to the others

`SocketTcp` and `SocketDccp` have a `handleMessage` each. `StaysLocal` says that the handler of a
peer returns, touches no other peer, and deals with a failed receive by removing the peer and
scheduling the reconnect it is entitled to. `staysLocal_iff` says for which answers of the system
calls each of the two does that, and that they never agree on a failed receive. -/

namespace SctpSandbox

open Call

namespace SocketTcp

variable {mtx : Mutex} {s s' : SocketTcp} {fd : FD} {io : TcpAnswers} {peer : TcpPeer}
  {handle : TcpCall Unit}

/-- The handler of `fd` returns and changes no other entry; after a failed receive the entry of `fd`
is gone, and a reconnect is scheduled exactly when the peer has `should_reestablish` set. -/
def StaysLocal (handle : TcpCall Unit) (s : SocketTcp) (fd : FD) (peer : TcpPeer)
    (io : TcpAnswers) : Prop :=
  ∃ s', handle ⟨s, false⟩ = .ok () ⟨s', false⟩ ∧
    (∀ n, n ≠ fd → s'.peers.lookup n = s.peers.lookup n) ∧
    ∀ err, io.recv = .failed err → s'.peers.lookup fd = none ∧
      s'.reestablishments = withReconnect peer s.reestablishments

/-- An error that leaves the handler is not local. -/
theorem not_staysLocal {e : Stop SocketError} {g : Guarded SocketTcp}
    (h : handle ⟨s, false⟩ = .error e g) : ¬ StaysLocal handle s fd peer io := by
  rintro ⟨s', hok, -⟩
  rw [h] at hok
  exact absurd hok (by simp)

/-- The receive succeeded and the handler returned. -/
theorem staysLocal_of_wrote {data : List Byte} (hrecv : io.recv = .wrote data)
    (hok : handle ⟨s, false⟩ = .ok () ⟨s', false⟩)
    (hothers : ∀ n, n ≠ fd → s'.peers.lookup n = s.peers.lookup n) :
    StaysLocal handle s fd peer io := by
  refine ⟨s', hok, hothers, fun err hfailed => ?_⟩
  rw [hrecv] at hfailed
  exact RecvCall.noConfusion hfailed

/-- An entry erased, with or without a message received before. -/
theorem lookup_erased_ne (s : SocketTcp) (peer : TcpPeer) {n : FD} (hn : n ≠ fd) :
    (s.erased fd peer).peers.lookup n = s.peers.lookup n := by
  rw [lookup_erased, if_neg hn]

/-- A message that is logged stays local when the log line returns. -/
theorem staysLocal_logMessage_iff {data : List Byte} (hrecv : io.recv = .wrote data)
    (hhandle : handle ⟨s, false⟩ = logMessage io ⟨s.received peer.msgBuffer data, false⟩) :
    StaysLocal handle s fd peer io ↔ io.peername = true := by
  cases hname : io.peername with
  | true =>
      rw [logMessage_ok hname] at hhandle
      exact iff_of_true (staysLocal_of_wrote hrecv hhandle fun _ _ => rfl) rfl
  | false =>
      rw [logMessage_error hname] at hhandle
      exact iff_of_false (not_staysLocal hhandle) Bool.false_ne_true

/-- A peer shut down gracefully stays local unless the nested scope hangs. -/
theorem staysLocal_gracefulShutdown_iff {data : List Byte} (hrecv : io.recv = .wrote data)
    (hp : s.peers.lookup fd = some peer)
    (hhandle : handle ⟨s, false⟩ =
      handleGracefulShutdown mtx fd ⟨s.received peer.msgBuffer data, false⟩) :
    StaysLocal handle s fd peer io ↔ mtx = .recursive := by
  have hp' : (s.received peer.msgBuffer data).peers.lookup fd = some peer := hp
  cases mtx with
  | plain =>
      rw [handleGracefulShutdown_plain hp'] at hhandle
      exact iff_of_false (not_staysLocal hhandle) Mutex.noConfusion
  | recursive =>
      rw [handleGracefulShutdown_ok hp'] at hhandle
      refine iff_of_true (staysLocal_of_wrote hrecv hhandle fun n hn => ?_) rfl
      exact lookup_erased_ne (s.received peer.msgBuffer data) peer hn

/-- A peer lost stays local unless the nested scope hangs. -/
theorem staysLocal_commLost_iff (s' : SocketTcp) (hp : s'.peers.lookup fd = some peer)
    (hpeers : s'.peers = s.peers) (hreconnects : s'.reestablishments = s.reestablishments)
    (hhandle : handle ⟨s, false⟩ = handleCommLost mtx fd ⟨s', false⟩) :
    StaysLocal handle s fd peer io ↔ mtx = .recursive := by
  cases mtx with
  | plain =>
      rw [handleCommLost_plain hp] at hhandle
      exact iff_of_false (not_staysLocal hhandle) Mutex.noConfusion
  | recursive =>
      rw [handleCommLost_ok hp] at hhandle
      -- the loss touches the one entry, and schedules its reconnect as it is flagged
      refine iff_of_true ⟨_, hhandle, fun n hn => ?_, fun err _ => ⟨?_, ?_⟩⟩ rfl
      · rw [lookup_erased_ne _ peer hn, peers_rescheduled, hpeers]
      · rw [lookup_erased, if_pos rfl]
      · rw [← hreconnects]
        exact reestablishments_rescheduled s' peer

/-- The answers with which a message for a peer stays local: on a mutex that is not recursive only a
received message that is not empty, and the log line of such a message has to find the address. -/
def Handled (mtx : Mutex) (io : TcpAnswers) : Prop :=
  (mtx = .plain → ∃ data, io.recv = .wrote data ∧ cStr data ≠ []) ∧
    ∀ data, io.recv = .wrote data → cStr data ≠ [] → io.peername = true

/-- A failed receive is handled exactly on a recursive mutex. -/
theorem handled_failed_iff {err : Errno} (h : io.recv = .failed err) :
    Handled mtx io ↔ mtx = .recursive := by
  constructor
  · rintro ⟨hplain, -⟩
    cases mtx with
    | plain =>
        obtain ⟨data, hdata, -⟩ := hplain rfl
        exact RecvCall.noConfusion (h.symm.trans hdata)
    | recursive => rfl
  · rintro rfl
    exact ⟨Mutex.noConfusion, fun data hdata => RecvCall.noConfusion (h.symm.trans hdata)⟩

/-- A message is handled when its shutdown does not hang and its log line does not throw. -/
theorem handled_wrote_iff {data : List Byte} (h : io.recv = .wrote data) :
    Handled mtx io ↔
      if cStr data = [] then mtx = .recursive else io.peername = true := by
  -- the data of the condition is what was received
  have hdata : ∀ {p : List Byte → Prop}, (∃ data, io.recv = .wrote data ∧ p data) ↔ p data := by
    intro p
    rw [h]
    simp
  have hall : ∀ {p : List Byte → Prop}, (∀ data, io.recv = .wrote data → p data) ↔ p data := by
    intro p
    rw [h]
    simp
  rw [Handled, hdata, hall]
  by_cases hempty : cStr data = []
  · rw [if_pos hempty]
    cases mtx with
    | plain => exact iff_of_false (fun hh => hh.1 rfl hempty) Mutex.noConfusion
    | recursive => exact iff_of_true ⟨Mutex.noConfusion, fun hne => absurd hempty hne⟩ rfl
  · rw [if_neg hempty]
    exact ⟨fun hh => hh.2 hempty, fun hname => ⟨fun _ => hempty, fun _ => hname⟩⟩

/-- **A message for a TCP peer** stays local exactly for these answers. -/
theorem handleMessage_staysLocal_iff (hmain : fd ≠ s.fd.fd) (hp : s.peers.lookup fd = some peer) :
    StaysLocal (SocketTcp.handleMessage mtx fd io) s fd peer io ↔ Handled mtx io := by
  cases hrecv : io.recv with
  | failed err =>
      rw [handled_failed_iff hrecv]
      exact staysLocal_commLost_iff s hp rfl rfl (handleMessage_failed hmain hp hrecv)
  | wrote data =>
      have hhandle : SocketTcp.handleMessage mtx fd io ⟨s, false⟩ = _ :=
        handleMessage_received hmain hp hrecv
      rw [handled_wrote_iff hrecv]
      -- the empty message is the shutdown
      by_cases hempty : cStr data = []
      · rw [if_pos hempty] at hhandle ⊢
        exact staysLocal_gracefulShutdown_iff hrecv hp hhandle
      · rw [if_neg hempty] at hhandle ⊢
        exact staysLocal_logMessage_iff hrecv hhandle

/-- A failed receive does not end in an exception: it ends in the removal of the peer, or never. -/
theorem handleMessage_failed_ne (hmain : fd ≠ s.fd.fd) (hp : s.peers.lookup fd = some peer)
    {err : Errno} (hrecv : io.recv = .failed err) (e : SocketError) (g : Guarded SocketTcp) :
    SocketTcp.handleMessage mtx fd io ⟨s, false⟩ ≠ .error (.exception e) g := by
  rw [handleMessage_failed hmain hp hrecv]
  cases mtx with
  | plain =>
      rw [handleCommLost_plain hp]
      simp
  | recursive =>
      rw [handleCommLost_ok hp]
      simp

end SocketTcp

namespace SocketDccp

open SocketTcp

variable {mtx : Mutex} {s : SocketTcp} {fd : FD} {io : TcpAnswers} {peer : TcpPeer}

/-- The answers with which a message for a peer stays local: the receive must not fail, and on a
mutex that is not recursive the message must be neither empty nor a quit. -/
def Handled (mtx : Mutex) (io : TcpAnswers) : Prop :=
  ∃ data, io.recv = .wrote data ∧
    (mtx = .plain → cStr data ≠ [] ∧ cStr data ≠ quitMsg) ∧
    (cStr data ≠ [] → cStr data ≠ quitMsg → io.peername = true)

/-- A message is handled by the derived class when its loss or shutdown does not hang and its log
line does not throw. -/
theorem handled_wrote_iff {data : List Byte} (h : io.recv = .wrote data) :
    SocketDccp.Handled mtx io ↔
      if cStr data = [] then mtx = .recursive
      else if cStr data = quitMsg then mtx = .recursive else io.peername = true := by
  have hdata : ∀ {p : List Byte → Prop}, (∃ data, io.recv = .wrote data ∧ p data) ↔ p data := by
    intro p
    rw [h]
    simp
  rw [SocketDccp.Handled, hdata]
  -- the branches of the source, in their order
  by_cases hempty : cStr data = []
  · rw [if_pos hempty]
    cases mtx with
    | plain => exact iff_of_false (fun hh => (hh.1 rfl).1 hempty) Mutex.noConfusion
    | recursive => exact iff_of_true ⟨Mutex.noConfusion, fun hne => absurd hempty hne⟩ rfl
  · rw [if_neg hempty]
    by_cases hquit : cStr data = quitMsg
    · rw [if_pos hquit]
      cases mtx with
      | plain => exact iff_of_false (fun hh => (hh.1 rfl).2 hquit) Mutex.noConfusion
      | recursive => exact iff_of_true ⟨Mutex.noConfusion, fun _ hne => absurd hquit hne⟩ rfl
    · rw [if_neg hquit]
      exact ⟨fun hh => hh.2 hempty hquit, fun hname => ⟨fun _ => ⟨hempty, hquit⟩, fun _ _ => hname⟩⟩

/-- **A message for a DCCP peer** stays local exactly for these answers. -/
theorem handleMessage_staysLocal_iff (hmain : fd ≠ s.fd.fd) (hp : s.peers.lookup fd = some peer) :
    StaysLocal (SocketDccp.handleMessage mtx fd io) s fd peer io ↔ SocketDccp.Handled mtx io := by
  cases hrecv : io.recv with
  | failed err =>
      -- the exception of the receive leaves the handler
      refine iff_of_false (not_staysLocal (SocketDccp.handleMessage_failed hmain hp hrecv)) ?_
      rintro ⟨data, hdata, -⟩
      exact RecvCall.noConfusion (hrecv.symm.trans hdata)
  | wrote data =>
      have hhandle : SocketDccp.handleMessage mtx fd io ⟨s, false⟩ = _ :=
        SocketDccp.handleMessage_received hmain hp hrecv
      rw [SocketDccp.handled_wrote_iff hrecv]
      by_cases hempty : cStr data = []
      · rw [if_pos hempty] at hhandle ⊢
        exact staysLocal_commLost_iff (s.received peer.msgBuffer data) hp rfl rfl hhandle
      · rw [if_neg hempty] at hhandle ⊢
        by_cases hquit : cStr data = quitMsg
        · rw [if_pos hquit] at hhandle ⊢
          exact staysLocal_gracefulShutdown_iff hrecv hp hhandle
        · rw [if_neg hquit] at hhandle ⊢
          exact staysLocal_logMessage_iff hrecv hhandle

end SocketDccp

open SocketTcp

/-- **When receive errors stay local**, on a `SocketTcp` and on a `SocketDccp`. After a failed
receive the two never end alike: the exception that the one catches leaves the other. -/
theorem staysLocal_iff (mtx : Mutex) {s : SocketTcp} {fd : FD} (io : TcpAnswers) {peer : TcpPeer}
    (hmain : fd ≠ s.fd.fd) (hp : s.peers.lookup fd = some peer) :
    (StaysLocal (SocketTcp.handleMessage mtx fd io) s fd peer io ↔ SocketTcp.Handled mtx io) ∧
    (StaysLocal (SocketDccp.handleMessage mtx fd io) s fd peer io ↔ SocketDccp.Handled mtx io) ∧
    ∀ err, io.recv = .failed err → SocketTcp.handleMessage mtx fd io ⟨s, false⟩ ≠
      SocketDccp.handleMessage mtx fd io ⟨s, false⟩ := by
  refine ⟨SocketTcp.handleMessage_staysLocal_iff hmain hp,
    SocketDccp.handleMessage_staysLocal_iff hmain hp, fun err hrecv => ?_⟩
  rw [SocketDccp.handleMessage_failed hmain hp hrecv]
  exact SocketTcp.handleMessage_failed_ne hmain hp hrecv .runtimeError ⟨s, false⟩

/-- An accepted connection on fd 4. -/
def sampleEntry : TcpPeer := acceptedPeer 4 ⟨ascii "10.0.0.2" ++ List.replicate 8 0, 5000, afInet⟩ 1

/-- A socket that has accepted it. -/
def acceptedSocket : SocketTcp := (SocketTcp.constructed 3).entered 4 sampleEntry

/-- The example's socket has its peer. -/
theorem lookup_acceptedSocket : acceptedSocket.peers.lookup 4 = some sampleEntry :=
  AList.lookup_insert _

/-- The example's socket is consistent. -/
theorem consistent_acceptedSocket : acceptedSocket.Consistent :=
  (consistent_constructed 3).entered ⟨by decide, rfl⟩
    (PeerTable.bufferFree_ofPeers_empty (by decide))

/-- The peer sends a message; `peername` says whether the log line still finds its address. -/
def helloAnswers (peername : Bool) : TcpAnswers := ⟨.failed, 0, .wrote (ascii "hello"), peername⟩

/-- **A connection reset behind the data** ends both handlers by an exception, on either mutex. -/
theorem not_staysLocal_reset :
    (¬ ∀ (s : SocketTcp) (fd : FD) (peer : TcpPeer) (io : TcpAnswers), s.Consistent →
      s.peers.lookup fd = some peer →
        StaysLocal (SocketTcp.handleMessage .plain fd io) s fd peer io ∧
        StaysLocal (SocketDccp.handleMessage .plain fd io) s fd peer io) ∧
    ¬ ∀ (s : SocketTcp) (fd : FD) (peer : TcpPeer) (io : TcpAnswers), s.Consistent →
      s.peers.lookup fd = some peer →
        StaysLocal (SocketTcp.handleMessage .recursive fd io) s fd peer io ∧
        StaysLocal (SocketDccp.handleMessage .recursive fd io) s fd peer io := by
  have hmain : (4 : FD) ≠ acceptedSocket.fd.fd := by decide
  -- the log line of a message throws, whatever kind of mutex the class has
  have hunhandled : ∀ mtx, ¬ StaysLocal (SocketTcp.handleMessage mtx 4 (helloAnswers false))
      acceptedSocket 4 sampleEntry (helloAnswers false) := by
    intro mtx hlocal
    have hh := (SocketTcp.handleMessage_staysLocal_iff hmain lookup_acceptedSocket).mp hlocal
    exact Bool.false_ne_true (hh.2 (ascii "hello") rfl (by decide))
  constructor
  · intro h
    exact hunhandled _ (h acceptedSocket 4 sampleEntry (helloAnswers false)
      consistent_acceptedSocket lookup_acceptedSocket).1
  · intro h
    exact hunhandled _ (h acceptedSocket 4 sampleEntry (helloAnswers false)
      consistent_acceptedSocket lookup_acceptedSocket).1

/-- The same message while the peer is there. -/
theorem staysLocal_hello :
    StaysLocal (SocketTcp.handleMessage .plain 4 (helloAnswers true)) acceptedSocket 4 sampleEntry
        (helloAnswers true) ∧
      StaysLocal (SocketDccp.handleMessage .plain 4 (helloAnswers true)) acceptedSocket 4
        sampleEntry (helloAnswers true) := by
  obtain ⟨htcp, hdccp, -⟩ := staysLocal_iff .plain (helloAnswers true) (by decide)
    lookup_acceptedSocket
  refine ⟨htcp.mpr ⟨fun _ => ⟨ascii "hello", rfl, by decide⟩, fun _ _ _ => rfl⟩, hdccp.mpr ?_⟩
  exact ⟨ascii "hello", rfl, fun _ => ⟨by decide, by decide⟩, fun _ _ => rfl⟩

end SctpSandbox

import SctpSandbox.Lib.Pending
import SctpSandbox.Lib.Run
import SctpSandbox.PeersMutex
import SctpSandbox.Tcp.Table

/-! # A `SocketTcp` and its reconnects

The whole of a network task's socket: the calls on it, and the scheduler whose tasks call `connect`
for the remotes that were lost. A run is any sequence of calls, launches and clock advances with any
answers of the system calls. A call that does not return ends it, by an exception, which leaves the
network task, or by waiting for a mutex it holds. -/

namespace SctpSandbox

open Call

/-- The attempt to connect does not fail at once. -/
def ConnectAnswer.Succeeds (answer : ConnectAnswer) : Prop :=
  answer.socket.isSome = true ∧ answer.configured = true ∧ answer.connected = true

/-- A `SocketTcp` with its scheduler, whose functions are `connect({remote})`. -/
structure TcpSystem (T : TaskScheduler IPSocket) where
  socket : SocketTcp
  scheduler : T.State := T.init
  /-- The clock. -/
  now : Time := 0
  /-- The remotes that the user has named in calls of `connect`. -/
  listed : List IPSocket := []
  /-- The fds whose entries `handleCommUp` has made. -/
  accepted : List FD := []

/-- What happens to the socket. -/
inductive TcpEvent (T : TaskScheduler IPSocket) where
  /-- Time passes. -/
  | advance (d : Time)
  /-- A call of the network task; the user calls `connect`. -/
  | call (op : TcpOp)
  /-- `task_scheduler.launch()`, with the pointers in the order in which it looks at them and the
  answers to the `connect` of each task. -/
  | launch (order : List (T.Ptr × ConnectAnswer))

namespace SocketTcp

/-- The number of peers with a remote and `should_reestablish`. -/
def flagged (r : IPSocket) (s : SocketTcp) : ℕ :=
  s.peers.entries.countP fun p => p.2.remote = r && p.2.shouldReestablish

end SocketTcp

namespace SocketTcp

variable {mtx : Mutex} {s s' : SocketTcp} {fd n : FD} {io : TcpAnswers} {peer : TcpPeer}
  {r : IPSocket}

/-! ## What a message does -/

/-- What becomes of a `SocketTcp` in `handleMessage fd`, whatever the end of the call. -/
inductive MessageEffect (mtx : Mutex) (fd : FD) (io : TcpAnswers) (s : SocketTcp) :
    SocketTcp → Prop
  | same {s' : SocketTcp} : s'.peers = s.peers → s'.reestablishments = s.reestablishments →
      MessageEffect mtx fd io s s'
  | accepted {n : FD} {remote : IPSocket} : fd = s.fd.fd → n ∉ s.peers →
      MessageEffect mtx fd io s (s.entered n (acceptedPeer n remote io.buffer))
  /-- An empty message. -/
  | closed {s' : SocketTcp} {peer : TcpPeer} {data : List Byte} : fd ≠ s.fd.fd →
      s.peers.lookup fd = some peer → io.recv = .wrote data → cStr data = [] →
      s'.peers = s.peers.erase fd → s'.reestablishments = s.reestablishments →
      MessageEffect mtx fd io s s'
  /-- A failed receive. -/
  | lost {s' : SocketTcp} {peer : TcpPeer} {err : Errno} : mtx = .recursive → fd ≠ s.fd.fd →
      s.peers.lookup fd = some peer → io.recv = .failed err → s'.peers = s.peers.erase fd →
      s'.reestablishments = withReconnect peer s.reestablishments →
      MessageEffect mtx fd io s s'
  /-- A failed receive that hangs before its peer is removed. -/
  | hung {s' : SocketTcp} {peer : TcpPeer} {err : Errno} : mtx = .plain → fd ≠ s.fd.fd →
      s.peers.lookup fd = some peer → io.recv = .failed err → s'.peers = s.peers →
      s'.reestablishments = withReconnect peer s.reestablishments →
      MessageEffect mtx fd io s s'

/-- The calls whose handler does not hang on the removal of a peer to reconnect to: on a mutex that
is not recursive, no such peer has a receive that fails. -/
def KeepsGoing (mtx : Mutex) (s : SocketTcp) : TcpOp → Prop
  | .handleMessage fd io => mtx = .plain → fd ≠ s.fd.fd → ∀ peer err,
      s.peers.lookup fd = some peer → peer.shouldReestablish = true → io.recv ≠ .failed err
  | _ => True

/-- What the kernel and the pool can answer to `accept`: an fd that is not open, and a buffer that
is not in use. -/
def AcceptFree (io : TcpAnswers) (s : SocketTcp) : Prop :=
  ∀ n, io.accept.opened = some n → FdFree n s ∧ BufferFree io.buffer s

/-- A peer that finds its key taken is destroyed, and its fd closed. -/
theorem emplace_taken {held : Bool} (h : n ∈ s.peers) : emplace n peer ⟨s, held⟩ =
    .ok () ⟨{ s with calls := peer.fd.destroy s.calls }, held⟩ := by
  have heq : emplace n peer ⟨s, held⟩ = .ok () ⟨if n ∈ s.peers then
      { s with calls := peer.fd.destroy s.calls }
    else { s with peers := s.peers.insert n peer }, held⟩ := rfl
  rw [heq, if_pos h]

/-- An accepted descriptor that has an entry already is closed again. -/
theorem handleCommUp_taken {remote : IPSocket} (h : io.accept = .accepted n remote)
    (hn : n ∈ s.peers) : handleCommUp mtx io ⟨s, false⟩ = .ok ()
      ⟨{ s with calls := FileDescriptor.destroy { fd := n } (.adopted n :: s.calls) }, false⟩ := by
  have haccept : accept (.accepted n remote) ⟨s, true⟩ =
      .ok (({ fd := n } : FileDescriptor), remote)
        ⟨{ s with calls := .adopted n :: s.calls }, true⟩ := rfl
  refine withLock_ok (g := ⟨s, false⟩) ⟨{ s with
    calls := FileDescriptor.destroy { fd := n } (.adopted n :: s.calls) }, true⟩ rfl ?_
  rw [h, bind_ok haccept]
  exact emplace_taken (s := { s with calls := .adopted n :: s.calls }) hn

/-- The accepted connection is entered, or nothing changes but the log of fds. -/
theorem effect_handleCommUp (hmain : fd = s.fd.fd) :
    MessageEffect mtx fd io s (after (handleCommUp mtx io ⟨s, false⟩)).object ∧
      (s.Consistent → AcceptFree io s →
        (after (handleCommUp mtx io ⟨s, false⟩)).object.Consistent) := by
  -- the three ends of an accept
  cases ha : io.accept with
  | failed =>
      rw [handleCommUp_failed ha]
      exact ⟨.same rfl rfl, fun h _ => h⟩
  | undecodable n =>
      rw [handleCommUp_undecodable ha]
      refine ⟨.same rfl rfl, fun h hfree => h.dropped (hfree n ?_).1⟩
      rw [ha]
      rfl
  | accepted n remote =>
      have hopened : io.accept.opened = some n := by
        rw [ha]
        rfl
      by_cases hn : n ∈ s.peers
      · -- not an fd that the kernel could have handed out
        rw [handleCommUp_taken ha hn]
        exact ⟨.same rfl rfl, fun h hfree => absurd hn (h.notMem_of_free (hfree n hopened).1)⟩
      · rw [handleCommUp_accepted ha hn]
        exact ⟨.accepted hmain hn,
          fun h hfree => h.entered (hfree n hopened).1 (hfree n hopened).2⟩

/-- The log line leaves the socket alone, however it ends. -/
theorem after_logMessage (g : Guarded SocketTcp) : after (logMessage io g) = g := by
  cases hname : io.peername with
  | true => rw [logMessage_ok hname]; rfl
  | false => rw [logMessage_error hname]; rfl

/-- **What a message does**, on either mutex, and that it keeps the table consistent. -/
theorem effect_handleMessage (mtx : Mutex) (fd : FD) (io : TcpAnswers) (s : SocketTcp) :
    MessageEffect mtx fd io s (after (SocketTcp.handleMessage mtx fd io ⟨s, false⟩)).object ∧
      (s.Consistent → (fd = s.fd.fd → AcceptFree io s) →
        (after (SocketTcp.handleMessage mtx fd io ⟨s, false⟩)).object.Consistent) := by
  by_cases hmain : fd = s.fd.fd
  · rw [handleMessage_main hmain]
    exact ⟨(effect_handleCommUp hmain).1,
      fun h hfree => (effect_handleCommUp hmain).2 h (hfree hmain)⟩
  · cases hp : s.peers.lookup fd with
    | none =>
        rw [handleMessage_unknown hmain hp]
        exact ⟨.same rfl rfl, fun h _ => h⟩
    | some peer =>
        cases hrecv : io.recv with
        | failed err =>
            rw [handleMessage_failed hmain hp hrecv]
            cases mtx with
            | plain =>
                -- the reconnect is scheduled, and the second lock hangs
                rw [handleCommLost_plain hp]
                exact ⟨.hung rfl hmain hp hrecv (peers_rescheduled s peer)
                  (reestablishments_rescheduled s peer), fun h _ => h.rescheduled peer⟩
            | recursive =>
                have hp' : (s.rescheduled peer).peers.lookup fd = some peer := by
                  rw [peers_rescheduled, hp]
                rw [handleCommLost_ok hp]
                refine ⟨.lost rfl hmain hp hrecv ?_ (reestablishments_rescheduled s peer),
                  fun h _ => (h.rescheduled peer).erased hp'⟩
                show (s.rescheduled peer).peers.erase fd = s.peers.erase fd
                rw [peers_rescheduled]
        | wrote data =>
            have hp' : (s.received peer.msgBuffer data).peers.lookup fd = some peer := hp
            have hcons : s.Consistent → (s.received peer.msgBuffer data).Consistent :=
              fun h => h.congr rfl rfl
            rw [handleMessage_received hmain hp hrecv]
            by_cases hempty : cStr data = []
            · rw [if_pos hempty]
              cases mtx with
              | plain =>
                  -- the second lock hangs
                  rw [handleGracefulShutdown_plain hp']
                  exact ⟨.same rfl rfl, fun h _ => hcons h⟩
              | recursive =>
                  rw [handleGracefulShutdown_ok hp']
                  exact ⟨.closed hmain hp hrecv hempty rfl rfl, fun h _ => (hcons h).erased hp'⟩
            · rw [if_neg hempty, after_logMessage]
              exact ⟨.same rfl rfl, fun h _ => hcons h⟩

/-! ## What `connect` does -/

variable {remote : IPSocket} {answer : ConnectAnswer} {g : Guarded SocketTcp}

/-- The entry made for a connection. -/
def connectedPeer (n : FD) (remote : IPSocket) (answer : ConnectAnswer) : TcpPeer :=
  ⟨{ fd := n }, answer.buffer, remote, true⟩

/-- A connect that succeeds enters its descriptor, flagged. -/
theorem connectOne_succeeds (hs : answer.socket = some n) (h : answer.Succeeds) :
    connectOne remote answer g = emplace n (connectedPeer n remote answer)
      ⟨{ g.object with calls := .adopted n :: g.object.calls }, g.held⟩ := by
  obtain ⟨-, hconf, hconn⟩ := h
  simp only [connectOne, createConnectSocket, hs, hconf, hconn, if_true]
  rfl

/-- An attempt that fails at once throws, and leaves the table and the scheduled reconnects as they
are. A socket that was opened is closed again. -/
theorem connectOne_fails (remote : IPSocket) (g : Guarded SocketTcp) (h : ¬ answer.Succeeds) :
    ∃ s', connectOne remote answer g = .error (.exception .runtimeError) ⟨s', g.held⟩ ∧
      s'.peers = g.object.peers ∧ s'.reestablishments = g.object.reestablishments ∧
      s'.calls = answer.socket.elim g.object.calls fun n =>
        FileDescriptor.destroy { fd := n } (.adopted n :: g.object.calls) := by
  unfold connectOne createConnectSocket
  cases hs : answer.socket with
  | none => exact ⟨_, rfl, rfl, rfl, rfl⟩
  | some n =>
      cases hconf : answer.configured with
      | false => exact ⟨_, rfl, rfl, rfl, rfl⟩
      | true =>
          cases hconn : answer.connected with
          | false => exact ⟨_, rfl, rfl, rfl, rfl⟩
          | true => exact absurd ⟨by rw [hs]; rfl, hconf, hconn⟩ h

/-- A connection makes at most one entry, under a new key, and schedules nothing. -/
theorem effect_connectOne (remote : IPSocket) (answer : ConnectAnswer) (g : Guarded SocketTcp) :
    ((after (connectOne remote answer g)).object.peers = g.object.peers ∨
      ∃ n, n ∉ g.object.peers ∧ (after (connectOne remote answer g)).object.peers =
        g.object.peers.insert n (connectedPeer n remote answer)) ∧
    (after (connectOne remote answer g)).object.reestablishments =
      g.object.reestablishments := by
  by_cases h : answer.Succeeds
  · obtain ⟨n, hs⟩ := Option.isSome_iff_exists.mp h.1
    rw [connectOne_succeeds hs h]
    -- a descriptor that has an entry cannot be handed out again, but the model allows it
    by_cases hn : n ∈ g.object.peers
    · rw [emplace_taken (s := { g.object with calls := .adopted n :: g.object.calls }) hn]
      exact ⟨.inl rfl, rfl⟩
    · rw [emplace_new (s := { g.object with calls := .adopted n :: g.object.calls }) hn]
      exact ⟨.inr ⟨n, hn, rfl⟩, rfl⟩
  · obtain ⟨s', hs', hpeers, hreconnects, -⟩ := connectOne_fails remote g h
    rw [hs']
    exact ⟨.inl hpeers, hreconnects⟩

/-! ## What stays -/

/-- Sending leaves the table and the scheduled reconnects alone. -/
theorem after_send (mtx : Mutex) (ok : FD → Bool) (msg : ChatMessage) (s : SocketTcp) :
    (after (SocketTcp.send mtx ok msg ⟨s, false⟩)).object.peers = s.peers ∧
      (after (SocketTcp.send mtx ok msg ⟨s, false⟩)).object.reestablishments =
        s.reestablishments := by
  have hkeeps : Keeps (fun s' : SocketTcp => s'.peers = s.peers ∧
      s'.reestablishments = s.reestablishments) (SocketTcp.send mtx ok msg) := by
    refine Keeps.withLock (keeps_this.bind fun _ => keeps_forM _ fun fd _ => ?_)
    have hlog : Keeps (fun s' : SocketTcp => s'.peers = s.peers ∧
        s'.reestablishments = s.reestablishments)
        (modifyThis fun s' => { s' with sent := (fd, msg) :: s'.sent } : TcpCall Unit) :=
      keeps_modifyThis fun _ h => h
    refine hlog.bind fun _ => ?_
    exact .ite (fun _ => keeps_pure _) fun _ => keeps_raise _
  exact hkeeps ⟨s, false⟩ ⟨rfl, rfl⟩

/-- A wait changes nothing. -/
theorem after_selectFds (ready : Option (FD → Bool)) (s : SocketTcp) :
    after (SocketTcp.call mtx (.selectFds ready) ⟨s, false⟩) = ⟨s, false⟩ := by
  cases ready with
  | none => rfl
  | some ready => rfl

/-- A `connect` keeps the entries there are, also when it is left half way. -/
theorem lookup_connect (remotes : List (IPSocket × ConnectAnswer)) {s : SocketTcp}
    (hp : s.peers.lookup n = some peer) :
    (after (SocketTcp.connect mtx remotes ⟨s, false⟩)).object.peers.lookup n = some peer := by
  have hkeeps : Keeps (fun s' : SocketTcp => s'.peers.lookup n = some peer)
      (SocketTcp.connect mtx remotes) := by
    refine Keeps.withLock (keeps_forM remotes fun remote _ g hg => ?_)
    rcases (effect_connectOne remote.1 remote.2 g).1 with hpeers | ⟨n', hn', hpeers⟩
    · rw [hpeers]
      exact hg
    · have hne : n ≠ n' := fun heq => hn' (heq ▸ mem_of_lookup hg)
      rw [hpeers, AList.lookup_insert_ne hne]
      exact hg
  exact hkeeps ⟨s, false⟩ hp

/-- A `connect` schedules nothing. -/
theorem reestablishments_connect (remotes : List (IPSocket × ConnectAnswer)) (s : SocketTcp) :
    (after (SocketTcp.connect mtx remotes ⟨s, false⟩)).object.reestablishments =
      s.reestablishments := by
  have hkeeps : Keeps (fun s' : SocketTcp => s'.reestablishments = s.reestablishments)
      (SocketTcp.connect mtx remotes) :=
    Keeps.withLock (keeps_forM remotes fun remote _ g hg =>
      (effect_connectOne remote.1 remote.2 g).2.trans hg)
  exact hkeeps ⟨s, false⟩ rfl

/-- A message removes at most the entry of its fd. -/
theorem MessageEffect.lookup (h : MessageEffect mtx fd io s s')
    (hp : s.peers.lookup n = some peer) :
    s'.peers.lookup n = some peer ∨ n = fd ∧ s'.peers = s.peers.erase fd := by
  have herased : s'.peers = s.peers.erase fd →
      s'.peers.lookup n = some peer ∨ n = fd ∧ s'.peers = s.peers.erase fd := by
    -- the entry erased is that of `fd`
    intro hpeers
    by_cases heq : n = fd
    · exact .inr ⟨heq, hpeers⟩
    · rw [hpeers, AList.lookup_erase_ne heq]
      exact .inl hp
  cases h with
  | same hpeers _ => exact .inl (by rw [hpeers, hp])
  | @accepted n' remote _ hn' =>
      have hne : n ≠ n' := fun heq => hn' (heq ▸ mem_of_lookup hp)
      refine .inl ?_
      rw [lookup_entered, if_neg hne, hp]
  | closed _ _ _ _ hpeers _ => exact herased hpeers
  | lost _ _ _ _ hpeers _ => exact herased hpeers
  | hung _ _ _ _ hpeers _ => exact .inl (by rw [hpeers, hp])

/-- An entry that a message makes is one of an accepted connection. -/
theorem MessageEffect.new (h : MessageEffect mtx fd io s s') (hn : n ∉ s.peers)
    (hn' : n ∈ s'.peers) :
    ∃ peer, s'.peers.lookup n = some peer ∧ peer.shouldReestablish = false := by
  -- a new entry is no erasure
  have herased : s'.peers ≠ s.peers.erase fd := by
    intro hpeers
    rw [hpeers] at hn'
    exact hn (AList.mem_erase.mp hn').2
  cases h with
  | same hpeers _ => exact absurd (hpeers ▸ hn') hn
  | @accepted n' remote _ _ =>
      rw [lookup_entered]
      by_cases heq : n = n'
      · exact ⟨_, if_pos heq, rfl⟩
      · have hmem : n ∈ s.peers.insert n' (acceptedPeer n' remote io.buffer) := hn'
        exact absurd ((AList.mem_insert _).mp hmem) (not_or.mpr ⟨heq, hn⟩)
  | closed _ _ _ _ hpeers _ => exact absurd hpeers herased
  | lost _ _ _ _ hpeers _ => exact absurd hpeers herased
  | hung _ _ _ _ hpeers _ => exact absurd (hpeers ▸ hn') hn

end SocketTcp

namespace TcpSystem

variable {T : TaskScheduler IPSocket} (mtx : Mutex)

/-- The scheduler takes over what a call gave to `scheduleReestablishment`. -/
def handOver (socket : SocketTcp) (s : TcpSystem T) : TcpSystem T :=
  { s with
    socket := { socket with reestablishments := [] }
    scheduler := T.scheduleAll s.now reestablishmentDelay
      socket.reestablishments.reverse s.scheduler }

/-- The state after a call on the socket; a call that hangs does not return either. -/
def answer (r : EStateM.Result (Stop SocketError) (Guarded SocketTcp) Unit) (s : TcpSystem T) :
    Outcome (TcpSystem T) :=
  match r with
  | .ok _ g => .returned (s.handOver g.object)
  | .error _ g => .threw (s.handOver g.object)

/-- A call on the socket. -/
def perform (op : TcpOp) (s : TcpSystem T) : Outcome (TcpSystem T) :=
  s.answer (SocketTcp.call mtx op ⟨s.socket, false⟩)

/-- Keep account of what the user lists. -/
def list : TcpOp → TcpSystem T → TcpSystem T
  | .connect remotes, s => { s with listed := s.listed ++ remotes.map Prod.fst }
  | _, s => s

/-- Keep account of the entries that are made for accepted connections. -/
def account (before : TcpSystem T) (op : TcpOp) (s : TcpSystem T) : TcpSystem T :=
  { s with accepted :=
      (match op with
        | .handleMessage fd _ =>
            if fd = before.socket.fd.fd then
              s.socket.peers.keys.filter fun n => n ∉ before.socket.peers
            else []
        | _ => []) ++ before.accepted.filter fun n => n ∈ s.socket.peers }

/-- One task of a launch: run if it is enabled and due, and accounted for after its run, also when
that throws. A reconnect that has thrown is over: it must not count as one that is still to come,
as it would if its task were left as it is. -/
def launchTask (a : T.Ptr × ConnectAnswer) (s : TcpSystem T) : Outcome (TcpSystem T) :=
  match T.enabled s.scheduler a.1 with
  | some task =>
      if task.due ≤ s.now then
        (s.perform mtx (.connect [(task.function, a.2)])).map fun s =>
          { s with scheduler := T.complete s.scheduler s.now a.1 }
      else .returned s
  | none => .returned s

/-- A task of a launch runs, or it is not enabled or not due. -/
theorem launchTask_cases (a : T.Ptr × ConnectAnswer) (s : TcpSystem T) :
    (∃ task, T.enabled s.scheduler a.1 = some task ∧ task.due ≤ s.now ∧
      s.launchTask mtx a = (s.perform mtx (.connect [(task.function, a.2)])).map fun s =>
        { s with scheduler := T.complete s.scheduler s.now a.1 }) ∨
    (∀ task, T.enabled s.scheduler a.1 = some task → ¬ task.due ≤ s.now) ∧
      s.launchTask mtx a = .returned s :=
  ScheduledTask.launch_cases (fun task htask => by rw [launchTask, htask])
    fun hnone => by rw [launchTask, hnone]

/-- The answer of the system to an event. -/
def step (s : TcpSystem T) : TcpEvent T → Outcome (TcpSystem T)
  | .advance d => .returned { s with now := s.now + d }
  | .call op => ((s.list op).perform mtx op).map (s.account op)
  | .launch order => Outcome.forEach (launchTask mtx) order s

/-- The system when the socket has just been constructed. -/
def initial (T : TaskScheduler IPSocket) (n : FD) : TcpSystem T := { socket := .constructed n }

end TcpSystem

end SctpSandbox

import SctpSandbox.FDSet
import SctpSandbox.Tcp.Reconnects
import SctpSandbox.Udp.SocketUdp

/-! # Transient errors

`select` may report an fd that turns out not to be ready, and a signal may interrupt any call. The
checks behind `Socket::receive` look at the sign of the result only, where those on pipes, message
queues and semaphores let `EAGAIN` pass. So every such error costs something: a `SocketTcp` gives up
the peer, and everywhere else the exception leaves `receive`. -/

namespace SctpSandbox

open Call

/-- The call may simply be made again. -/
def Errno.Transient (err : Errno) : Prop := err = .eagain ∨ err = .eintr

/-- What `accept4` did. -/
inductive AcceptCall where
  /-- It returned -1. -/
  | failed (errno : Errno)
  | accepted (n : FD) (remote : IPSocket)
  /-- The address of the peer cannot be decoded. -/
  | undecodable (n : FD)

/-- The value returned to the program. -/
def AcceptCall.callResult : AcceptCall → CallResult
  | failed errno => { result := -1, errno := errno }
  | accepted n _ => { result := n }
  | undecodable n => { result := n }

/-- The answer, as far as the program looks at it. -/
def AcceptCall.answer (call : AcceptCall) : AcceptAnswer :=
  if failedAccept call.callResult then .failed
  else match call with
    | failed _ => .failed
    | accepted n remote => .accepted n remote
    | undecodable n => .undecodable n

/-! ## `SocketTcp` -/

/-- What happens to a `SocketTcp`, with the results of the calls behind `receive`. -/
inductive TcpRunEvent (T : TaskScheduler IPSocket) where
  | advance (d : Time)
  | connect (remotes : List (IPSocket × ConnectAnswer))
  | send (ok : FD → Bool) (msg : ChatMessage)
  | launch (order : List (T.Ptr × ConnectAnswer))
  | select (call : SelectCall)
  | handleMessage (fd : FD) (accept : AcceptCall) (buffer : Buffer) (recv : RecvCall)
    (peername : Bool)

namespace TcpRunEvent

variable {T : TaskScheduler IPSocket}

/-- The event, as far as the program looks at the results. -/
def toEvent : TcpRunEvent T → TcpEvent T
  | advance d => .advance d
  | connect remotes => .call (.connect remotes)
  | send ok msg => .call (.send ok msg)
  | launch order => .launch order
  | select call => .call (.selectFds call.answer)
  | handleMessage fd accept buffer recv peername =>
      .call (.handleMessage fd ⟨accept.answer, buffer, recv, peername⟩)

/-- A call behind `receive` fails with a transient error. -/
def Interrupted (s : SocketTcp) : TcpRunEvent T → Prop
  | select call => ∃ err, call = .failed err ∧ err.Transient
  | handleMessage fd accept _ recv _ =>
      if fd = s.fd.fd then ∃ err, accept = .failed err ∧ err.Transient
      else fd ∈ s.peers ∧ ∃ err, recv = .failed err ∧ err.Transient
  | _ => False

end TcpRunEvent

namespace TcpSystem

variable {T : TaskScheduler IPSocket} {mtx : Mutex} {s : TcpSystem T} {op : TcpOp}
  {e : TcpRunEvent T} {fd : FD}

/-- The answer to an event with results. -/
def runStep (mtx : Mutex) (s : TcpSystem T) (e : TcpRunEvent T) : Outcome (TcpSystem T) :=
  s.step mtx e.toEvent

/-- If a call behind `receive` is interrupted, the event ends normally, no peer is removed and no
reconnect is scheduled. -/
def Harmless (mtx : Mutex) (s : TcpSystem T) (e : TcpRunEvent T) : Prop :=
  e.Interrupted s.socket → ∃ s', s.runStep mtx e = .returned s' ∧
    s'.socket.peers = s.socket.peers ∧ s'.scheduler = s.scheduler

/-- A call that does not return ends the run. -/
theorem step_call_error {err : Stop SocketError} {g : Guarded SocketTcp}
    (h : SocketTcp.call mtx op ⟨s.socket, false⟩ = .error err g) :
    ∃ s', s.step mtx (.call op) = .threw s' := by
  have hsocket : (s.list op).socket = s.socket := by
    cases op <;> rfl
  rw [step, perform, hsocket, h]
  exact ⟨_, rfl⟩

/-- A call that returns is a step with its table. -/
theorem step_call_ok {g : Guarded SocketTcp}
    (h : SocketTcp.call mtx op ⟨s.socket, false⟩ = .ok () g) :
    ∃ s', s.step mtx (.call op) = .returned s' ∧ s'.socket.peers = g.object.peers := by
  have hsocket : (s.list op).socket = s.socket := by
    cases op <;> rfl
  rw [step, perform, hsocket, h]
  exact ⟨_, rfl, rfl⟩

/-- An interrupted step that throws has done harm. -/
theorem not_harmless_of_threw (hint : e.Interrupted s.socket)
    (h : ∃ s', s.runStep mtx e = .threw s') : ¬ Harmless mtx s e := by
  intro hharmless
  obtain ⟨s', hthrew⟩ := h
  obtain ⟨s'', hreturned, -⟩ := hharmless hint
  exact absurd (hthrew.symm.trans hreturned) (by simp)

/-- A receive that is interrupted removes its peer, or hangs on the way to that. -/
theorem not_harmless_recv {accept : AcceptCall} {buffer : Buffer} {err : Errno} {peername : Bool}
    (hmain : fd ≠ s.socket.fd.fd) (hmem : fd ∈ s.socket.peers) (herr : err.Transient) :
    ¬ Harmless mtx s (.handleMessage fd accept buffer (.failed err) peername) := by
  have hint : TcpRunEvent.Interrupted s.socket
      (.handleMessage fd accept buffer (.failed err) peername : TcpRunEvent T) := by
    rw [TcpRunEvent.Interrupted, if_neg hmain]
    exact ⟨hmem, err, rfl, herr⟩
  obtain ⟨peer, hpeer⟩ := Option.isSome_iff_exists.mp (AList.lookup_isSome.mpr hmem)
  have hcall : SocketTcp.call mtx
      (.handleMessage fd ⟨accept.answer, buffer, .failed err, peername⟩) ⟨s.socket, false⟩ =
        SocketTcp.handleCommLost mtx fd ⟨s.socket, false⟩ :=
    SocketTcp.handleMessage_failed hmain hpeer rfl
  cases mtx with
  | plain =>
      rw [SocketTcp.handleCommLost_plain hpeer] at hcall
      exact not_harmless_of_threw hint (step_call_error hcall)
  | recursive =>
      rw [SocketTcp.handleCommLost_ok hpeer] at hcall
      obtain ⟨s₁, hreturned, hpeers⟩ := step_call_ok hcall
      intro hharmless
      obtain ⟨s', hs', hkept, -⟩ := hharmless hint
      obtain rfl := Outcome.returned.inj (hreturned.symm.trans hs')
      -- the peer that the event had to keep is gone
      have hgone : s₁.socket.peers.lookup fd = none := by
        rw [hpeers, SocketTcp.lookup_erased, if_pos rfl]
      rw [hkept, hpeer] at hgone
      exact absurd hgone (by simp)

/-- **Every transient error costs something.** -/
theorem harmless_tcp_iff (mtx : Mutex) (s : TcpSystem T) (e : TcpRunEvent T) :
    Harmless mtx s e ↔ ¬ e.Interrupted s.socket := by
  refine ⟨fun hharmless hint => ?_, fun hnot hint => absurd hint hnot⟩
  cases e with
  | advance d => exact hint
  | connect remotes => exact hint
  | send ok msg => exact hint
  | launch order => exact hint
  | select call =>
      -- `select` throws whatever its error is
      obtain ⟨err, rfl, -⟩ := id hint
      have hcall : SocketTcp.call mtx (.selectFds (SelectCall.failed err).answer)
          ⟨s.socket, false⟩ = .error (.exception .runtimeError) ⟨s.socket, false⟩ := rfl
      exact not_harmless_of_threw hint (step_call_error hcall) hharmless
  | handleMessage fd accept buffer recv peername =>
      by_cases hmain : fd = s.socket.fd.fd
      · have haccept := hint
        rw [TcpRunEvent.Interrupted, if_pos hmain] at haccept
        obtain ⟨err, rfl, -⟩ := haccept
        have hcall : SocketTcp.call mtx (.handleMessage fd
            ⟨(AcceptCall.failed err).answer, buffer, recv, peername⟩) ⟨s.socket, false⟩ = _ :=
          (SocketTcp.handleMessage_main hmain).trans (SocketTcp.handleCommUp_failed rfl)
        exact not_harmless_of_threw hint (step_call_error hcall) hharmless
      · have hrecv := hint
        rw [TcpRunEvent.Interrupted, if_neg hmain] at hrecv
        obtain ⟨hmem, err, rfl, herr⟩ := hrecv
        exact not_harmless_recv hmain hmem herr hharmless

end TcpSystem

/-! ## `SocketUdp` -/

/-- What happens to a `SocketUdp`, with the results of `select`. -/
inductive UdpRunEvent (T : TaskScheduler UdpTask) where
  | event (e : UdpEvent T)
  | select (call : SelectCall)

/-- A call behind `receive` fails with a transient error. -/
def UdpRunEvent.Interrupted {T : TaskScheduler UdpTask} : UdpRunEvent T → Prop
  | event (.receive _ recv) => ∃ err, recv = .failed err ∧ err.Transient
  | event _ => False
  | select call => ∃ err, call = .failed err ∧ err.Transient

namespace SocketUdp

variable {T : TaskScheduler UdpTask} {net : ℕ → Bool} {s : SocketUdp T}

/-- `Socket::selectFds`. -/
def selectFds (call : SelectCall) (s : SocketUdp T) : Outcome (SocketUdp T) :=
  match call.answer with
  | some _ => .returned s
  | none => .threw s

/-- The answer to an event with results. -/
def runStep (net : ℕ → Bool) (s : SocketUdp T) : UdpRunEvent T → Outcome (SocketUdp T)
  | .event e => step net s e
  | .select call => selectFds call s

/-- If a call behind `receive` is interrupted, the event ends normally, no peer is removed and no
reconnect is scheduled. -/
def Harmless (net : ℕ → Bool) (s : SocketUdp T) (e : UdpRunEvent T) : Prop :=
  e.Interrupted → ∃ s', s.runStep net e = .returned s' ∧ s'.peers = s.peers ∧
    s'.scheduler = s.scheduler

/-- **Every transient error ends the run.** -/
theorem harmless_udp_iff (net : ℕ → Bool) (s : SocketUdp T) (e : UdpRunEvent T) :
    Harmless net s e ↔ ¬ e.Interrupted := by
  refine ⟨fun hharmless hint => ?_, fun hnot hint => absurd hint hnot⟩
  obtain ⟨s', hreturned, -⟩ := hharmless hint
  -- nothing in the class catches, so the exception leaves the run's step
  have hthrew : s.runStep net e = .threw s := by
    cases e with
    | select call =>
        obtain ⟨err, rfl, -⟩ := hint
        rfl
    | event e =>
        cases e with
        | receive remote recv =>
            obtain ⟨err, rfl, -⟩ := hint
            rfl
        | advance d => exact absurd hint id
        | connect remotes => exact absurd hint id
        | launch order => exact absurd hint id
        | send order msg => exact absurd hint id
  exact absurd (hthrew.symm.trans hreturned) (by simp)

end SocketUdp

/-- **The runs whose transient errors are harmless are those without any**, of a `SocketTcp` on
either kind of mutex and of a `SocketUdp`. -/
theorem harmless_runs_iff {T : TaskScheduler IPSocket} {U : TaskScheduler UdpTask} (mtx : Mutex)
    (n : FD) (es : List (TcpRunEvent T)) (s : TcpSystem T) (net : ℕ → Bool)
    (es' : List (UdpRunEvent U)) (s' : SocketUdp U) :
    (Run (TcpSystem.runStep mtx) (TcpSystem.Harmless mtx) (.initial T n) es s ↔
      Run (TcpSystem.runStep mtx) (fun s e => ¬ e.Interrupted s.socket) (.initial T n) es s) ∧
    (Run (SocketUdp.runStep net) (SocketUdp.Harmless net) {} es' s' ↔
      Run (SocketUdp.runStep net) (fun _ e => ¬ e.Interrupted) {} es' s') := by
  constructor
  · constructor
    · exact fun h => h.imp fun s e => (TcpSystem.harmless_tcp_iff mtx s e).mp
    · exact fun h => h.imp fun s e => (TcpSystem.harmless_tcp_iff mtx s e).mpr
  · constructor
    · exact fun h => h.imp fun s e => (SocketUdp.harmless_udp_iff net s e).mp
    · exact fun h => h.imp fun s e => (SocketUdp.harmless_udp_iff net s e).mpr

/-- A remote, connected to on the fd 4. -/
def sampleConnect {T : TaskScheduler IPSocket} : TcpRunEvent T :=
  .connect [(SocketUdp.sampleRemote, ⟨some 4, true, true, 1⟩)]

/-- `recv` on the fd 4 answers `EAGAIN`: there was nothing to read. -/
def sampleSpurious {T : TaskScheduler IPSocket} : TcpRunEvent T :=
  .handleMessage 4 (.failed .eagain) 0 (.failed .eagain) true

/-- After the `connect` the spurious readiness is not harmless. -/
theorem not_harmless_spurious (mtx : Mutex) : ∃ s : TcpSystem (.table IPSocket),
    Run (TcpSystem.runStep mtx) (fun _ _ => True) (.initial _ 3) [sampleConnect] s ∧
      ¬ s.Harmless mtx sampleSpurious := by
  have hstep : ∃ s : TcpSystem (.table IPSocket),
      TcpSystem.runStep mtx (.initial _ 3) sampleConnect = .returned s ∧ s.socket.fd.fd = 3 ∧
        4 ∈ s.socket.peers := ⟨_, rfl, rfl, by decide⟩
  obtain ⟨s, hs, hmain, hmem⟩ := hstep
  refine ⟨s, .cons trivial hs (.nil s), ?_⟩
  exact TcpSystem.not_harmless_recv (by rw [hmain]; decide) hmem (.inl rfl)

/-- **A spurious readiness** costs a `SocketTcp` the peer, on either kind of mutex, and a
`SocketUdp` its task. -/
theorem not_harmless_runs :
    (¬ ∀ (es : List (TcpRunEvent (.table IPSocket))) (s : TcpSystem (.table IPSocket)) e,
      Run (TcpSystem.runStep .plain) (fun _ _ => True) (.initial _ 3) es s →
        s.Harmless .plain e) ∧
    (¬ ∀ (es : List (TcpRunEvent (.table IPSocket))) (s : TcpSystem (.table IPSocket)) e,
      Run (TcpSystem.runStep .recursive) (fun _ _ => True) (.initial _ 3) es s →
        s.Harmless .recursive e) ∧
    ¬ ∀ e : UdpRunEvent (.table UdpTask), SocketUdp.Harmless (fun _ => true) {} e := by
  refine ⟨fun h => ?_, fun h => ?_, fun h => ?_⟩
  · obtain ⟨s, hrun, hcosts⟩ := not_harmless_spurious .plain
    exact hcosts (h _ s _ hrun)
  · obtain ⟨s, hrun, hcosts⟩ := not_harmless_spurious .recursive
    exact hcosts (h _ s _ hrun)
  · have hharmless := h (.event (.receive SocketUdp.sampleRemote (.failed .eintr)))
    exact (SocketUdp.harmless_udp_iff _ _ _).mp hharmless ⟨.eintr, rfl, .inr rfl⟩

end SctpSandbox

import SctpSandbox.Destructors
import SctpSandbox.FdAccount
import SctpSandbox.Tcp.ConnectSockets

/-! # A `SocketDccp`, from its construction to its destruction

`SocketDccp` is a `SocketTcp` with a `send` and a `handleMessage` of its own, and with a destructor
that says goodbye before the members are destroyed. The fds stay in order as they do for a
`SocketTcp`; what the destructor adds is that every connection still open gets one quit message,
whatever becomes of the others, and is closed behind it (`DccpSystem.closed_of_run`). -/

namespace SctpSandbox

open Call
open FdObjects (ClosesOpen EveryAdoptedClosed NoSecondClose)

namespace SocketDccp

open SocketTcp

/-- **The destructor tells every peer**, each once and whatever becomes of the others, and does not
throw. -/
theorem destructor_ok (mtx : Mutex) (ok : FD → Bool) (s : SocketTcp) :
    ∃ fds : List FD, fds.Perm s.entryFds ∧
      destructor mtx ok ⟨s, false⟩ =
        .ok () ⟨{ s with sent := fds.map (fun fd => (fd, quitMsg)) ++ s.sent }, false⟩ := by
  obtain ⟨fds, hperm, hsend⟩ := isolates_send mtx ok quitMsg s
  refine ⟨fds.reverse, (List.reverse_perm fds).trans hperm, ?_⟩
  rw [destructor, hsend, attempted, List.map_reverse]

end SocketDccp

/-! ## Runs -/

namespace DccpSystem

variable {T : TaskScheduler IPSocket} {mtx : Mutex} {s : TcpSystem T} {P : SocketTcp → Prop}

/-- What every call keeps, the system keeps. The tasks call `SocketTcp::connect`. -/
theorem keeps_step (h : SocketTcp.Kept mtx P) (hs : P s.socket) (e : TcpEvent T) :
    P (ConnectingClass.dccp.step mtx s e).state.socket := by
  cases e with
  | advance d => exact hs
  | launch order => exact TcpSystem.keeps_step h hs (.launch order)
  | call op =>
      have hlist : P (s.list op).socket := by
        rw [TcpSystem.list_eq]
        exact hs
      have hend := SocketDccp.keeps_call h op ⟨(s.list op).socket, false⟩ hlist
      rw [ConnectingClass.step, Outcome.state_map, ConnectingClass.call]
      unfold TcpSystem.answer
      cases hcall : SocketDccp.call mtx op ⟨(s.list op).socket, false⟩ with
      -- the call ends with a socket that has the property, whether it returns or throws
      | ok _ g | error _ g =>
          rw [hcall] at hend
          exact h.frame _ _ _ [] hend

/-- **Every connection of a `SocketDccp` gets one goodbye and is closed.** In every run, with any
calls, reconnects and answers of the kernel, which hands out numbers that are not open: the open fds
are exactly those that `selectFds` watches, the listening socket and the connections; the destructor
sends the quit message to each of these connections once and to nobody else, whatever the sends come
to, and returns; and with the members every fd ever opened is closed, each as often as it was
opened. -/
theorem closed_of_run (mtx : Mutex) (n : FD) {es : List (TcpEvent T)}
    (hrun : Run (ConnectingClass.dccp.step mtx) (fun _ _ => True) (TcpSystem.initial T n) es s)
    (hn : 0 ≤ n) (hkernel : HandsOutFree s.socket.calls) (ok : FD → Bool) :
    (∀ m, isOpen m s.socket.calls = true ↔ m ∈ s.socket.fdSet) ∧ s.socket.fdSet.Nodup ∧
    ∃ fds socket', s.socket.fdSet.Perm (n :: fds) ∧
      SocketDccp.destructor mtx ok ⟨s.socket, false⟩ = .ok () ⟨socket', false⟩ ∧
      socket'.sent = fds.map (fun fd => (fd, quitMsg)) ++ s.socket.sent ∧
      EveryAdoptedClosed socket'.destroyed ∧ NoSecondClose socket'.destroyed ∧
      ClosesOpen socket'.destroyed ∧ ClosedAsOften socket'.destroyed := by
  -- every object is an owner and the listening descriptor stays, over the whole run
  obtain ⟨howns, hlistens⟩ : s.socket.OwnsAll ∧ s.socket.ListensOn { fd := n } :=
    hrun.invariant_state (I := fun s => s.socket.OwnsAll ∧ s.socket.ListensOn { fd := n })
      ⟨SocketTcp.ownsAll_constructed n, rfl⟩ fun s e ⟨howns, hlistens⟩ _ =>
        ⟨keeps_step SocketTcp.kept_ownsAll howns e,
          keeps_step SocketTcp.kept_listensOn hlistens e⟩
  obtain ⟨hopen, hclosed⟩ := howns.fds hlistens hn hkernel
  obtain ⟨fds, hperm, hdestructor⟩ := SocketDccp.destructor_ok mtx ok s.socket
  -- what is watched and what the destructor sends to differ by the listening descriptor
  have hset : s.socket.fdSet.Perm (n :: s.socket.entryFds) := by
    rw [SocketTcp.fdSet, hlistens]
    exact (SocketTcp.peerFds_perm s.socket).cons n
  have hnodup : (s.socket.fd.fd :: s.socket.entryFds).Nodup := (howns hkernel).nodup
  refine ⟨hopen, hset.nodup_iff.mpr ?_, fds, _, hset.trans (hperm.symm.cons n), hdestructor, rfl,
    hclosed⟩
  rwa [hlistens] at hnodup

/-- A socket with a connection of either kind, one of which fails when the destructor sends. -/
theorem closed_two_connections : ∃ s : TcpSystem (.table IPSocket),
    s.socket.calls = [.adopted 5, .adopted 4, .adopted 3] ∧
    ∃ fds socket', s.socket.fdSet.Perm (3 :: fds) ∧
      SocketDccp.destructor .recursive (fun fd => fd = 5) ⟨s.socket, false⟩ =
        .ok () ⟨socket', false⟩ ∧
      socket'.sent = fds.map (fun fd => (fd, quitMsg)) ++ s.socket.sent ∧
      EveryAdoptedClosed socket'.destroyed ∧ ClosedAsOften socket'.destroyed := by
  have hrun : ∃ s : TcpSystem (.table IPSocket),
      s.socket.calls = [.adopted 5, .adopted 4, .adopted 3] ∧
      Run (ConnectingClass.dccp.step .recursive) (fun _ _ => True)
        (TcpSystem.initial (.table IPSocket) 3)
        [.call (.handleMessage 3 ⟨.accepted 4 SocketUdp.sampleRemote, 1, .failed .eintr, true⟩),
          .call (.connect [(SocketUdp.sampleRemote, ⟨some 5, true, true, 2⟩)])] s := by
    refine ⟨_, ?_, .cons trivial rfl (.cons trivial rfl (.nil _))⟩
    rfl
  -- one connection accepted on 3, one made
  obtain ⟨s, hcalls, hrun⟩ := hrun
  have hkernel : HandsOutFree s.socket.calls := by
    rw [hcalls]
    exact ⟨by decide, by decide, by decide, trivial⟩
  obtain ⟨-, -, fds, socket', hperm, hreturns, hsent, hclosed, -, -, hoften⟩ :=
    closed_of_run .recursive 3 hrun (by decide) hkernel fun fd => fd = 5
  exact ⟨s, hcalls, fds, socket', hperm, hreturns, hsent, hclosed, hoften⟩

end DccpSystem

end SctpSandbox

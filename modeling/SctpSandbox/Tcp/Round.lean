import SctpSandbox.Lib.Steps
import SctpSandbox.Lib.Threads
import SctpSandbox.Tcp.Table

/-! # A round of `SocketTcp` handlers

`Socket::receive` starts one `handleMessage` task for every selected fd and joins them. A task runs
as a thread whose atomic steps are the scopes of `peers_mtx`, the scope inside a scope counted as
part of it (a recursive mutex), and the system calls between them. `finish_eq_handleMessage` ties
the steps of one thread to `handleMessage`. -/

namespace SctpSandbox

/-- How a handler ended. -/
inductive TcpEnd where
  /-- A connection was accepted and entered under its fd. -/
  | accepted (n : FD) (peer : TcpPeer)
  | gracefulShutdown
  | commLost
  | message
  | threw (e : SocketError)
  /-- It waits for a mutex it holds. -/
  | hung

/-- Where the thread of a handler stands. -/
inductive TcpPc where
  /-- There is no handler: the fd was not selected. -/
  | idle
  | start
  /-- `receiveMessage`, behind `getBuffer`. -/
  | receiving (buffer : Buffer)
  /-- In the `catch` block. -/
  | commLost
  /-- Before the second `getBuffer`. -/
  | received
  /-- Behind it. -/
  | reading (buffer : Buffer)
  | gracefulShutdown
  | logging
  | ended (e : TcpEnd)

namespace SocketTcp

open Call

/-- How a handler of the listening socket that does not throw ends. -/
def acceptedEnd (io : TcpAnswers) : TcpEnd :=
  match io.accept with
  | .accepted n remote => .accepted n (acceptedPeer n remote io.buffer)
  | _ => .message

/-- One step of the handler of `fd`. -/
def advance (fd : FD) (io : TcpAnswers) : TcpPc → TcpCall TcpPc
  | .idle => pure .idle
  | .start => do
      if fd = (← this).fd.fd then
        handleCommUp .recursive io
        pure (.ended (acceptedEnd io))
      else
        let buffer ← getBuffer .recursive fd
        pure (.receiving buffer)
  | .receiving buffer => do
      let lost ← catches SocketError.isRuntimeError (receiveInto buffer io.recv)
      pure (if lost then .commLost else .received)
  | .commLost => do
      handleCommLost .recursive fd
      pure (.ended .commLost)
  | .received => do
      let buffer ← getBuffer .recursive fd
      pure (.reading buffer)
  | .reading buffer => do
      let msg ← readMessage buffer
      pure (if msg = [] then .gracefulShutdown else .logging)
  | .gracefulShutdown => do
      handleGracefulShutdown .recursive fd
      pure (.ended .gracefulShutdown)
  | .logging => do
      logMessage io
      pure (.ended .message)
  | .ended e => pure (.ended e)

variable {s : SocketTcp} {fd n : FD} {io : TcpAnswers} {peer : TcpPeer} {remote : IPSocket}
  {buffer : Buffer} {pc pc' : TcpPc} {g g' : Guarded SocketTcp}

/-! ## What the steps do -/

/-- The first step on the main descriptor is the new connection. -/
theorem advance_main (h : fd = s.fd.fd) : advance fd io .start ⟨s, false⟩ =
    (handleCommUp .recursive io >>= fun _ => pure (.ended (acceptedEnd io))) ⟨s, false⟩ := by
  rw [advance, bind_this, if_pos h]

/-- The first step elsewhere looks up the buffer. -/
theorem advance_start (h : fd ≠ s.fd.fd) (hp : s.peers.lookup fd = some peer) :
    advance fd io .start ⟨s, false⟩ = .ok (.receiving peer.msgBuffer) ⟨s, false⟩ := by
  rw [advance, bind_this, if_neg h, bind_ok (getBuffer_ok hp)]
  rfl

/-- The first step throws when there is no peer. -/
theorem advance_start_none (h : fd ≠ s.fd.fd) (hp : s.peers.lookup fd = none) :
    advance fd io .start ⟨s, false⟩ = .error (.exception .outOfRange) ⟨s, false⟩ := by
  rw [advance, bind_this, if_neg h, bind_error (getBuffer_none hp)]

/-- A failed receive is followed by the loss. -/
theorem advance_failed {err : Errno} (hrecv : io.recv = .failed err) :
    advance fd io (.receiving buffer) ⟨s, false⟩ = .ok .commLost ⟨s, false⟩ := by
  rw [advance, hrecv]
  rfl

/-- A received message is stored in the buffer. -/
theorem advance_received {data : List Byte} (hrecv : io.recv = .wrote data) :
    advance fd io (.receiving buffer) ⟨s, false⟩ =
      .ok .received ⟨s.received buffer data, false⟩ := by
  rw [advance, hrecv]
  rfl

/-- The loss erases the peer, schedules its reconnect and ends the round. -/
theorem advance_commLost (hp : s.peers.lookup fd = some peer) :
    advance fd io .commLost ⟨s, false⟩ =
      .ok (.ended .commLost) ⟨(s.rescheduled peer).erased fd peer, false⟩ := by
  rw [advance, bind_ok (handleCommLost_ok hp)]
  rfl

/-- The second lookup finds the buffer again. -/
theorem advance_second (hp : s.peers.lookup fd = some peer) :
    advance fd io .received ⟨s, false⟩ = .ok (.reading peer.msgBuffer) ⟨s, false⟩ := by
  rw [advance, bind_ok (getBuffer_ok hp)]
  rfl

/-- The message read decides between the shutdown and the log line. -/
theorem advance_reading : advance fd io (.reading buffer) ⟨s, false⟩ =
    .ok (if s.messages buffer = [] then .gracefulShutdown else .logging) ⟨s, false⟩ := rfl

/-- The shutdown erases the peer and ends the round. -/
theorem advance_gracefulShutdown (hp : s.peers.lookup fd = some peer) :
    advance fd io .gracefulShutdown ⟨s, false⟩ =
      .ok (.ended .gracefulShutdown) ⟨s.erased fd peer, false⟩ := by
  rw [advance, bind_ok (handleGracefulShutdown_ok hp)]
  rfl

/-- The log line ends the round. -/
theorem advance_logging : advance fd io .logging ⟨s, false⟩ =
    (logMessage io >>= fun _ => pure (.ended .message)) ⟨s, false⟩ := rfl

/-! ## The steps of one thread -/

/-- **The steps of one handler, uninterrupted, are a call of `handleMessage`.** -/
theorem finish_eq_handleMessage (fd : FD) (io : TcpAnswers) (s : SocketTcp) :
    (finish (advance fd io) 5 .start >>= fun _ => pure ()) ⟨s, false⟩ =
      handleMessage .recursive fd io ⟨s, false⟩ := by
  by_cases hmain : fd = s.fd.fd
  · rw [handleMessage_main hmain]
    exact finish_last (fun _ => rfl) (advance_main hmain)
  cases hp : s.peers.lookup fd with
  | none =>
      rw [handleMessage_unknown hmain hp, bind_error (finish_error (advance_start_none hmain hp))]
  | some peer =>
      have hstart : advance fd io .start ⟨s, false⟩ = _ := advance_start hmain hp
      cases hrecv : io.recv with
      -- the exception leads into the `catch` block at once
      | failed err =>
          have hfin : finish (advance fd io) 5 .start ⟨s, false⟩ =
              finish (advance fd io) 3 .commLost ⟨s, false⟩ :=
            (finish_ok hstart).trans (finish_ok (advance_failed hrecv))
          rw [handleMessage_failed hmain hp hrecv, bind_of_eq hfin]
          exact finish_last (fun _ => rfl) rfl
      | wrote data =>
          have hp' : (s.received peer.msgBuffer data).peers.lookup fd = some peer := hp
          have hmsg : (s.received peer.msgBuffer data).messages peer.msgBuffer = cStr data :=
            Function.update_self _ _ _
          have hfin : finish (advance fd io) 5 .start ⟨s, false⟩ =
              finish (advance fd io) 1 (if cStr data = [] then .gracefulShutdown else .logging)
                ⟨s.received peer.msgBuffer data, false⟩ := by
            rw [finish_ok hstart, finish_ok (advance_received hrecv),
              finish_ok (advance_second hp'), finish_ok advance_reading, hmsg]
          rw [handleMessage_received hmain hp hrecv, bind_of_eq hfin]
          -- all ways end in one last step
          by_cases hempty : cStr data = []
          · rw [if_pos hempty, if_pos hempty]
            exact finish_last (fun _ => rfl) rfl
          · rw [if_neg hempty, if_neg hempty]
            exact finish_last (fun _ => rfl) rfl

end SocketTcp

end SctpSandbox

import SctpSandbox.Lib.Steps
import SctpSandbox.Lib.Threads
import SctpSandbox.Sctp.Table

/-! # A round of `SocketSctp` handlers

A `handleMessage` task as a thread whose atomic steps are the scopes of `peers_mtx` and the system
calls between them. A handler that has received an association change is `Pending` until it has
entered or removed the peer. -/

namespace SctpSandbox

/-- The changes that decide whether an association is up. -/
def SacState.decides : SacState → Bool
  | .commUp => true
  | .shutdownComp => true
  | .commLost => true
  | _ => false

/-- How a handler ended. -/
inductive SctpEnd where
  | returned
  | threw (e : SocketError)
  /-- It waits for a mutex it holds. -/
  | hung

/-- Where the thread of a handler stands. -/
inductive SctpPc where
  /-- There is no handler: the fd was not selected. -/
  | idle
  | start
  /-- Behind `getBuffer`. -/
  | receiving
  | handling (sender : IPSocket) (n : SctpNotification)
  /-- In `handleCommLost`, behind `remove`. -/
  | rescheduling (sender : IPSocket)
  | ended (e : SctpEnd)

/-- The handler has received the change `state` of an association and has yet to act on it. -/
def SctpPc.Pending : SctpPc → AssocId → SacState → Prop
  | .handling _ (.assocChange state' id'), id, state =>
      id' = id ∧ state' = state ∧ state.decides = true
  | _, _, _ => False

/-- The handler has not dereferenced the end iterator or hung on the mutex. -/
def SctpPc.Sound : SctpPc → Prop
  | .ended (.threw e) => e = .runtimeError
  | .ended .hung => False
  | _ => True

namespace SocketSctp

open Call

/-- What `handle` does with a notification until it ends or calls the next member function. -/
def handleStep (sender : IPSocket) (n : SctpNotification) (io : SctpAnswers) : SctpCall SctpPc :=
  match n with
  | .assocChange .commUp assocId => do
      handleCommUp .plain assocId io
      pure (.ended .returned)
  | .assocChange .cantStrAssoc _ => do
      handleEstablishmentFailure sender
      pure (.ended .returned)
  | .assocChange .shutdownComp assocId => do
      handleGracefulShutdown .plain assocId
      pure (.ended .returned)
  | .assocChange .commLost assocId => do
      remove .plain assocId
      pure (.rescheduling sender)
  | _ => pure (.ended .returned)

/-- One step of the handler of `fd`. -/
def advance (fd : FD) (io : SctpAnswers) : SctpPc → SctpCall SctpPc
  | .idle => pure .idle
  | .start => do
      let _ ← getBuffer .plain fd
      pure .receiving
  | .receiving => do
      match ← recvmsg io.recv with
      | some (sender, n) => pure (.handling sender n)
      | none => pure (.ended .returned)
  | .handling sender n => do
      logNotification n
      handleStep sender n io
  | .rescheduling sender => do
      scheduleReestablishment sender
      pure (.ended .returned)
  | .ended e => pure (.ended e)

variable {fd : FD} {io : SctpAnswers}

/-- The loss of an association takes two steps. -/
theorem finish_commLost (sender : IPSocket) (id : AssocId) (g : Guarded SocketSctp) :
    (finish (advance fd io) 2 (.handling sender (.assocChange .commLost id)) >>= fun _ =>
      pure ()) g = handleCommLost .plain id sender g := by
  have hstep : advance fd io (.handling sender (.assocChange .commLost id)) g =
      (remove .plain id >>= fun _ => pure (.rescheduling sender)) g := rfl
  cases hremove : remove .plain id g with
  | ok a g' =>
      rw [bind_ok hremove] at hstep
      rw [bind_of_eq (finish_ok (hstep.trans rfl)), handleCommLost, bind_ok hremove]
      exact finish_last (fun _ => rfl) rfl
  | error e g' =>
      rw [bind_error hremove] at hstep
      rw [bind_error (finish_error hstep), handleCommLost, bind_error hremove]

/-- The steps of the handling, run on end, are the function that handles. -/
theorem finish_handling (sender : IPSocket) (n : SctpNotification) (g : Guarded SocketSctp) :
    (finish (advance fd io) 2 (.handling sender n) >>= fun _ => pure ()) g =
      handle .plain sender n io g := by
  cases n with
  | assocChange state id =>
      cases state with
      -- all but the loss are one step
      | commUp => exact finish_last (m := handleCommUp .plain id io) (fun _ => rfl) rfl
      | commLost => exact finish_commLost sender id g
      | shutdownComp => exact finish_last (m := handleGracefulShutdown .plain id) (fun _ => rfl) rfl
      | cantStrAssoc =>
          exact finish_last (m := handleEstablishmentFailure sender) (fun _ => rfl) rfl
      | restart => rfl
      | other => rfl
  | peerAddrChange addr =>
      cases addr with
      | some addr => rfl
      | none => rfl
  | other => rfl

/-- **The steps of one handler, uninterrupted, are a call of `handleMessage`.** -/
theorem finish_eq_handleMessage (fd : FD) (io : SctpAnswers) (g : Guarded SocketSctp) :
    (finish (advance fd io) 4 .start >>= fun _ => pure ()) g = handleMessage .plain fd io g := by
  cases hbuffer : getBuffer .plain fd g with
  | error e g' =>
      have hstep : advance fd io .start g = .error e g' := by
        rw [advance, bind_error hbuffer]
      rw [bind_error (finish_error hstep), handleMessage, bind_error hbuffer]
  | ok b g' =>
      have hstart : advance fd io .start g = .ok .receiving g' := by
        rw [advance, bind_ok hbuffer]
        rfl
      rw [bind_of_eq (finish_ok hstart), handleMessage, bind_ok hbuffer]
      cases hrecv : recvmsg io.recv g' with
      | error e g'' =>
          have hstep : advance fd io .receiving g' = .error e g'' := by
            rw [advance, bind_error hrecv]
          rw [bind_error (finish_error hstep), bind_error hrecv]
      | ok received g'' =>
          have hstep : advance fd io .receiving g' = .ok (match received with
              | some (sender, n) => .handling sender n
              | none => .ended .returned) g'' := by
            rw [advance, bind_ok hrecv]
            cases received with
            | some received => rfl
            | none => rfl
          rw [bind_of_eq (finish_ok hstep), bind_ok hrecv]
          cases received with
          -- the message itself is the last step
          | some received => exact finish_handling received.1 received.2 g''
          | none => rfl

end SocketSctp

end SctpSandbox

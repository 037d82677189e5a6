import Mathlib.Data.Finset.Insert
import SctpSandbox.Socket

/-! # `SocketUnix`

A datagram socket in the abstract namespace, and the set of the paths it talks to. There is no mutex
and nobody to catch an exception. A path is kept without the NUL in front of it that makes it
abstract; `send` puts it back into a `sockaddr_un`. -/

namespace SctpSandbox

/-- `using Path = std::string`. -/
abbrev Path := List Byte

/-- `sizeof(sun_path)`. -/
def sunPathSize : ℕ := 108

/-- Why a member function of `SocketUnix` does not return. -/
inductive UnixError where
  /-- `runtime_error`, from the check on a system call. -/
  | runtimeError
  /-- No exception: a path was copied behind the end of `sun_path`. -/
  | outOfBounds
  deriving DecidableEq

/-- The state of a `SocketUnix`. -/
structure SocketUnix where
  peers : Finset Path := ∅
  /-- What `sendto` was called with, the newest first: the bytes of `sun_path` that the length given
  to it covers, and the message. -/
  sent : List (List Byte × ChatMessage) := []

/-- Calls on a `SocketUnix`. -/
abbrev UnixCall := Call UnixError SocketUnix

namespace SocketUnix

open Call

/-- The bytes of `sun_path` for a path; the length given to `sendto` counts `path.length() + 1`. -/
def sunPath (path : Path) : List Byte := 0 :: path

/-- `send(msg, path)`; `ok` says to which addresses `sendto` succeeds. -/
def sendTo (ok : List Byte → Bool) (msg : ChatMessage) (path : Path) : UnixCall Unit := do
  if path.length + 1 ≤ sunPathSize then
    modifyThis fun s => { s with sent := (sunPath path, msg) :: s.sent }
    if ok (sunPath path) then pure () else raise .runtimeError
  else raise .outOfBounds

/-- `send(msg)`, in the order in which the set is traversed. -/
def send (order : List Path) (ok : List Byte → Bool) (msg : ChatMessage) : UnixCall Unit := do
  let s ← this
  (order.filter fun path => path ∈ s.peers).forM (sendTo ok msg)

/-- `handleCommUp`. -/
def handleCommUp (path : Path) : UnixCall Unit :=
  modifyThis fun s => { s with peers := insert path s.peers }

/-- `handleGracefulShutdown`. -/
def handleGracefulShutdown (path : Path) : UnixCall Unit :=
  modifyThis fun s => { s with peers := s.peers.erase path }

/-- `connect`: the text of a remote is taken for a path. -/
def connect (remotes : List IPSocket) : UnixCall Unit :=
  remotes.forM fun remote => handleCommUp remote.addr

/-- The path of a sender, read behind the first byte of `sun_path`. -/
def pathOf (sunPath : List Byte) : Path := cStr (sunPath.drop 1)

/-- `handleMessage`; `sender` is what `recvfrom` writes to `sun_path`, which was zero before. -/
def handleMessage (call : RecvCall) (sender : List Byte) : UnixCall Unit := do
  match call with
  | .failed _ => raise .runtimeError
  | .wrote data =>
      let s ← this
      if cStr data = quitMsg then handleGracefulShutdown (pathOf sender)
      else if pathOf sender ∈ s.peers then pure ()
      else handleCommUp (pathOf sender)

end SocketUnix

end SctpSandbox

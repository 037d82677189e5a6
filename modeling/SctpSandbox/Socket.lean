import SctpSandbox.FileDescriptor
import SctpSandbox.IPSocket
import SctpSandbox.Lib.Mutex
import SctpSandbox.Lib.TaskScheduler
import SctpSandbox.MessageBuffer

/-! # What the socket classes share

The exceptions of the classes, the buffers of the pool, the delay before a reconnect, and the
destruction of a `FileDescriptor` that is a member of a peer. -/

namespace SctpSandbox

/-- The exceptions of the socket classes. -/
inductive SocketError where
  /-- `runtime_error`, from the check on a system call. -/
  | runtimeError
  /-- `out_of_range`, from `peers.at(fd)`. -/
  | outOfRange
  /-- No exception: the end iterator was dereferenced. -/
  | pastTheEnd
  deriving DecidableEq

/-- `catch (const runtime_error&)` takes it. -/
def SocketError.isRuntimeError (e : SocketError) : Bool := e = .runtimeError

/-- The buffers of the pool, by number. -/
abbrev Buffer := ℕ

/-- The delay of `Socket::scheduleReestablishment`. -/
def reestablishmentDelay : Time := seconds 5

/-- `FDSet::select` on the fds that were set; `ready` says which of them `::select` reports. -/
def FDSet.select (fds : List FD) (ready : FD → Bool) : List FD :=
  ((fds.filter ready).mergeSort (· ≤ ·)).dedup

/-- The descriptors selected are the watched ones that are ready. -/
theorem FDSet.mem_select {fds : List FD} {ready : FD → Bool} {n : FD} :
    n ∈ FDSet.select fds ready ↔ n ∈ fds ∧ ready n = true := by
  simp only [FDSet.select, List.mem_dedup, List.mem_mergeSort, List.mem_filter]

/-- `~FileDescriptor()`, into the log of the kernel. -/
def FileDescriptor.destroy (x : FileDescriptor) (calls : List FdCall) : List FdCall :=
  x.close.2.map .closed ++ calls

end SctpSandbox

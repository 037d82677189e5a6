import SctpSandbox.Typedefs

/-! # System call results and the checks on them

A system call answers with an `int` and, when it fails, an `errno`. Each `failedX` predicate reads
these; `checkedX` throws a `runtime_error` when it holds and passes the result on otherwise. -/

namespace SctpSandbox

/-- The values of `errno` that the checks tell apart. -/
inductive Errno where
  | eagain
  | eintr
  | einprogress
  | enoent
  | other (code : ℕ)
  deriving DecidableEq

/-- The result of a system call and the `errno` it leaves. -/
structure CallResult where
  result : ℤ
  errno : Errno := .other 0
  deriving DecidableEq

/-- `failedRead`. -/
def failedRead (c : CallResult) : Bool := c.result < 0 && c.errno ≠ .eagain

/-- `failedMqReceive`. -/
def failedMqReceive (c : CallResult) : Bool := c.result < 0 && c.errno ≠ .eagain

/-- `failedReceive`. -/
def failedReceive (c : CallResult) : Bool := c.result < 0

/-- `failedSelect`. -/
def failedSelect (c : CallResult) : Bool := c.result < 0

/-- `failedSend`. -/
def failedSend (c : CallResult) : Bool := c.result < 0

/-- `failedAccept`. -/
def failedAccept (c : CallResult) : Bool := c.result < 0

end SctpSandbox

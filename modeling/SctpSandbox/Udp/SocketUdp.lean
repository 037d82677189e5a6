import Mathlib.Data.List.AList
import SctpSandbox.IPSocket
import SctpSandbox.Lib.Run
import SctpSandbox.Lib.TaskScheduler
import SctpSandbox.MessageBuffer
import SctpSandbox.Socket

/-! # `SocketUdp`: peers kept alive by timers

A UDP socket has no connections. `SocketUdp` keeps a table of peers, each with two scheduled tasks:
a ping that sends a keep-alive message and a task that declares the peer lost. Every datagram from
a peer restarts both. A lost peer is removed and connected again after a delay by a third kind of
task, whose handle nobody keeps.

The model follows the class function by function, over any `TaskScheduler`. The state carries the
clock and the log of what the socket did, the newest entry first. A run is any sequence of user
calls, received datagrams, scheduler launches and clock advances; `net k` is the result of the
`k`-th `sendto`. -/

namespace SctpSandbox

/-- The functions a `SocketUdp` hands to the scheduler. -/
inductive UdpTask where
  /-- `send(keep_alive_msg, remote)` -/
  | ping (remote : IPSocket)
  /-- `handleCommLost(remote)` -/
  | commLost (remote : IPSocket)
  /-- `connect({remote})`, from `Socket::scheduleReestablishment`. -/
  | reconnect (remote : IPSocket)
  deriving DecidableEq

/-- The remote a task is about. -/
def UdpTask.remote : UdpTask → IPSocket
  | .ping remote => remote
  | .commLost remote => remote
  | .reconnect remote => remote

/-- What the socket does, as its log lines tell it. -/
inductive UdpAction where
  | sent (msg : ChatMessage) (remote : IPSocket)
  | received (msg : ChatMessage) (remote : IPSocket)
  | commUp (remote : IPSocket)
  | commLost (remote : IPSocket)
  | launched
  deriving DecidableEq

/-- `SocketUdp::Peer`: the weak pointers to its two tasks, null by default. -/
structure UdpPeer (T : TaskScheduler UdpTask) where
  pingTask : Option T.Ptr := none
  commLostTask : Option T.Ptr := none

/-- The state of a `SocketUdp`, its scheduler and its surroundings. -/
structure SocketUdp (T : TaskScheduler UdpTask) where
  peers : AList fun _ : IPSocket => UdpPeer T := ∅
  scheduler : T.State := T.init
  /-- The clock. -/
  now : Time := 0
  /-- What the socket did and when, the newest first. -/
  log : List (Time × UdpAction) := []
  /-- The number of calls of `sendto` so far. -/
  sends : ℕ := 0

/-- What happens to the socket. -/
inductive UdpEvent (T : TaskScheduler UdpTask) where
  /-- Time passes. -/
  | advance (d : Time)
  /-- The user calls `connect`. -/
  | connect (remotes : List IPSocket)
  /-- `handleMessage`: `recvfrom` returns with a sender. -/
  | receive (remote : IPSocket) (call : RecvCall)
  /-- `task_scheduler.launch()`, with the pointers in the order in which it looks at them. -/
  | launch (order : List T.Ptr)
  /-- The user calls `send`, or the destructor does with `quit_msg`, with the peers in order. -/
  | send (order : List IPSocket) (msg : ChatMessage)

namespace SocketUdp

/-- `keep_alive_period`. -/
def keepAlivePeriod : Time := seconds 1

/-- `keep_alive_probes`. -/
def keepAliveProbes : ℕ := 3

/-- `keep_alive_msg`. -/
def keepAliveMsg : ChatMessage := ascii "ka"

/-- `keep_alive_ack_msg`. -/
def keepAliveAckMsg : ChatMessage := ascii "kack"

/-- The delay of the comm-lost task, `keep_alive_period * (keep_alive_probes + 1)`. -/
def commLostDelay : Time := keepAlivePeriod * (keepAliveProbes + 1)

variable {T : TaskScheduler UdpTask} (net : ℕ → Bool)

/-- Add a line to the log. -/
def record (a : UdpAction) (s : SocketUdp T) : SocketUdp T := { s with log := (s.now, a) :: s.log }

/-- `send(msg, remote)`; `checkSend` throws when `sendto` fails. -/
def send (msg : ChatMessage) (remote : IPSocket) (s : SocketUdp T) : Outcome (SocketUdp T) :=
  let s' := { s.record (.sent msg remote) with sends := s.sends + 1 }
  if net s.sends then .returned s' else .threw s'

/-- `send(msg)`: to every peer, in the order in which the map is traversed. -/
def sendAll (order : List IPSocket) (msg : ChatMessage) (s : SocketUdp T) :
    Outcome (SocketUdp T) :=
  Outcome.forEach (send net msg) (order.filter fun remote => remote ∈ s.peers) s

/-- `task_scheduler.schedule`. -/
def schedule (f : UdpTask) (delay : Time) (repetitions : ℕ) (s : SocketUdp T) :
    SocketUdp T × T.Ptr :=
  let r := T.schedule s.scheduler s.now f delay repetitions
  ({ s with scheduler := r.1 }, r.2)

/-- `schedulePing`. -/
def schedulePing (remote : IPSocket) : SocketUdp T → SocketUdp T × T.Ptr :=
  schedule (.ping remote) keepAlivePeriod keepAliveProbes

/-- `scheduleCommLost`; a task runs once unless repetitions are given. -/
def scheduleCommLost (remote : IPSocket) : SocketUdp T → SocketUdp T × T.Ptr :=
  schedule (.commLost remote) commLostDelay 1

/-- `Socket::scheduleReestablishment`. -/
def scheduleReestablishment (remote : IPSocket) (s : SocketUdp T) : SocketUdp T :=
  (schedule (.reconnect remote) reestablishmentDelay 1 s).1

/-- `peers.emplace(remote, peer)`: an existing entry stays as it is. -/
def emplace (remote : IPSocket) (peer : UdpPeer T) (s : SocketUdp T) : SocketUdp T :=
  if remote ∈ s.peers then s else { s with peers := s.peers.insert remote peer }

/-- `handleCommUp`. The new peer, and with it its two tasks, exists before `emplace` looks for the
key. -/
def handleCommUp (remote : IPSocket) (s : SocketUdp T) : SocketUdp T :=
  let ping := schedulePing remote (s.record (.commUp remote))
  let commLost := scheduleCommLost remote ping.1
  emplace remote ⟨some ping.2, some commLost.2⟩ commLost.1

/-- `connect`. -/
def connect (remotes : List IPSocket) (s : SocketUdp T) : SocketUdp T :=
  remotes.foldl (fun s remote => handleCommUp remote s) s

/-- `peers[remote]`: the entry, after inserting a default one when there is none. -/
def subscript (remote : IPSocket) (s : SocketUdp T) : UdpPeer T × SocketUdp T :=
  match s.peers.lookup remote with
  | some peer => (peer, s)
  | none => ({}, { s with peers := s.peers.insert remote {} })

/-- `lock()` on a weak pointer. -/
def lock (s : SocketUdp T) (ptr : Option T.Ptr) : Option T.Ptr := ptr.filter (T.alive s.scheduler)

/-- `task->reset()`. -/
def reset (s : SocketUdp T) (p : T.Ptr) : SocketUdp T :=
  { s with scheduler := T.reset s.scheduler s.now p }

/-- `task->disable()`. -/
def disable (s : SocketUdp T) (p : T.Ptr) : SocketUdp T :=
  { s with scheduler := T.disable s.scheduler p }

/-- `resetTasks`. -/
def resetTasks (remote : IPSocket) (s : SocketUdp T) : SocketUdp T :=
  let (peer, s₁) := subscript remote s
  let s₂ := match lock s₁ peer.pingTask with
    | some task => s₁.reset task
    | none =>
        let ping := schedulePing remote s₁
        { ping.1 with peers := ping.1.peers.insert remote { peer with pingTask := some ping.2 } }
  match lock s₂ peer.commLostTask with
  | some task => s₂.reset task
  | none => s₂

/-- `disableTasks`. -/
def disableTasks (remote : IPSocket) (s : SocketUdp T) : SocketUdp T :=
  let (peer, s₁) := subscript remote s
  let s₂ := match lock s₁ peer.pingTask with
    | some task => s₁.disable task
    | none => s₁
  match lock s₂ peer.commLostTask with
  | some task => s₂.disable task
  | none => s₂

/-- `remove`. -/
def remove (remote : IPSocket) (s : SocketUdp T) : SocketUdp T :=
  let s₁ := disableTasks remote s
  { s₁ with peers := s₁.peers.erase remote }

/-- `handleGracefulShutdown`. -/
def handleGracefulShutdown (remote : IPSocket) : SocketUdp T → SocketUdp T := remove remote

/-- `handleCommLost`. -/
def handleCommLost (remote : IPSocket) (s : SocketUdp T) : SocketUdp T :=
  remove remote (scheduleReestablishment remote (s.record (.commLost remote)))

/-- The part of `handleMessage` behind the received message. -/
def handleChatMessage (msg : ChatMessage) (remote : IPSocket) (s : SocketUdp T) :
    Outcome (SocketUdp T) :=
  if msg = quitMsg then .returned (handleGracefulShutdown remote s)
  else
    (if msg = keepAliveMsg then send net keepAliveAckMsg remote s else .returned s).andThen fun s =>
      if remote ∈ s.peers then .returned (resetTasks remote s)
      else .returned (handleCommUp remote s)

/-- `handleMessage`. The message is the C string of the bytes received; `SocketUdp.receive` has the
accesses to the buffer. -/
def handleMessage (remote : IPSocket) (call : RecvCall) (s : SocketUdp T) :
    Outcome (SocketUdp T) :=
  match call with
  | .failed _ => .threw s
  | .wrote data =>
      handleChatMessage net (cStr data) remote (s.record (.received (cStr data) remote))

/-- The function of a task. -/
def runFunction (f : UdpTask) (s : SocketUdp T) : Outcome (SocketUdp T) :=
  match f with
  | .ping remote => send net keepAliveMsg remote s
  | .commLost remote => .returned (handleCommLost remote s)
  | .reconnect remote => .returned (connect [remote] s)

/-- One task of a launch: run if it is enabled and due, and accounted for after its run. Only a ping
can throw: that ends the launch and the loop of `networkTask`, so nothing depends on how its task is
accounted for then, and it is left as it is. -/
def launchTask (p : T.Ptr) (s : SocketUdp T) : Outcome (SocketUdp T) :=
  match T.enabled s.scheduler p with
  | some task =>
      if task.due ≤ s.now then
        (runFunction net task.function s).andThen fun s =>
          .returned { s with scheduler := T.complete s.scheduler s.now p }
      else .returned s
  | none => .returned s

/-- `launch()`. -/
def launch (order : List T.Ptr) (s : SocketUdp T) : Outcome (SocketUdp T) :=
  Outcome.forEach (launchTask net) order (s.record .launched)

/-- The answer of the socket to an event. -/
def step (s : SocketUdp T) : UdpEvent T → Outcome (SocketUdp T)
  | .advance d => .returned { s with now := s.now + d }
  | .connect remotes => .returned (connect remotes s)
  | .receive remote call => handleMessage net remote call s
  | .launch order => launch net order s
  | .send order msg => sendAll net order msg s

/-- A launch looks at every task that is due, and `send` at every peer once. -/
def Possible (s : SocketUdp T) : UdpEvent T → Prop
  | .launch order => ∀ p t, T.enabled s.scheduler p = some t → t.due ≤ s.now → p ∈ order
  | .send order _ => order.Perm s.peers.keys
  | _ => True

/-- Runs of a `SocketUdp` all of whose steps meet `ok`. -/
abbrev Runs (ok : SocketUdp T → UdpEvent T → Prop) :
    SocketUdp T → List (UdpEvent T) → SocketUdp T → Prop :=
  Run (step net) fun s e => s.Possible e ∧ ok s e

/-- A launch of the numbered scheduler that looks at every number handed out. -/
theorem possible_launch_range (s : SocketUdp (.table UdpTask)) :
    s.Possible (.launch (List.range s.scheduler.next)) := by
  intro p t ht _
  exact List.mem_range.mpr ((TaskScheduler.table UdpTask).issued_of_enabled s.scheduler p t ht)

/-- A remote for the examples, as `handleMessage` decodes it. -/
def sampleRemote : IPSocket := ⟨ascii "10.0.0.2" ++ List.replicate 8 0, 5000, afInet⟩

end SocketUdp

end SctpSandbox

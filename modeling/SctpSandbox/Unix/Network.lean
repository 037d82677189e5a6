import SctpSandbox.Destructors
import SctpSandbox.Unix.Peers

/-! # Several `SocketUnix`s that talk and leave

The kernel binds each socket to a name of its own, and puts what is sent to a name behind what waits
at its socket already. Nobody probes anybody: a socket that leaves is forgotten because its
destructor says so, to those it knows. It knows whoever it has heard of, and a path is in `peers`
because of a message or of `connect`. So nobody who has talked to it keeps its path
(`forgotten_of_run`). -/

namespace SctpSandbox

open Call

/-- The names that the kernel gives to sockets bound without an address. -/
structure Autobind (ι : Type) where
  name : ι → Path
  injective : Function.Injective name
  plain : ∀ i, 0 ∉ name i
  fits : ∀ i, (name i).length + 1 ≤ sunPathSize

namespace Autobind

variable {ι : Type} (A : Autobind ι)

/-- What `recvfrom` reports for a sender. -/
def address (i : ι) : UnixAddress := .abstractName (A.name i) (A.fits i)

end Autobind

/-- Where the owner of a socket stands. -/
inductive UnixStatus where
  | running
  /-- An exception has left a call. -/
  | threw
  /-- The destructor has run. -/
  | left
  deriving DecidableEq

/-- The sockets and what waits at them. -/
structure UnixNetwork (ι : Type) where
  socket : ι → SocketUnix := fun _ => {}
  status : ι → UnixStatus := fun _ => .running
  /-- The datagrams that wait at a socket, each with its sender, the oldest first. -/
  inbox : ι → List (ι × List Byte) := fun _ => []
  /-- All datagrams that ever came to a socket, the oldest first. -/
  arrived : ι → List (ι × List Byte) := fun _ => []

/-- What happens in one of the processes. -/
inductive UnixNetworkEvent (ι : Type) where
  | connect (i : ι) (remotes : List IPSocket)
  | send (i : ι) (order : List Path) (ok : List Byte → Bool) (msg : ChatMessage)
  /-- `handleMessage`, with the datagram that has waited longest. -/
  | receive (i : ι)
  /-- `handleMessage`, and `recvfrom` fails. -/
  | receiveFailed (i : ι) (errno : Errno)
  /-- The destructor. -/
  | leave (i : ι) (order : List Path) (ok : List Byte → Bool)

namespace UnixNetworkEvent

variable {ι : Type}

/-- The socket whose owner acts. -/
def actor : UnixNetworkEvent ι → ι
  | connect i _ | send i _ _ _ | receive i | receiveFailed i _ | leave i _ _ => i

/-- To which addresses `sendto` succeeds. -/
def ok : UnixNetworkEvent ι → List Byte → Bool
  | send _ _ ok _ | leave _ _ ok => ok
  | connect _ _ | receive _ | receiveFailed _ _ => fun _ => false

/-- Where the owner stands afterwards. -/
def status {α : Type} : UnixNetworkEvent ι → EStateM.Result (Stop UnixError) α Unit → UnixStatus
  | leave _ _ _, _ => .left
  | _, .ok _ _ => .running
  | _, .error _ _ => .threw

end UnixNetworkEvent

/-- What `handleMessage` reads of a datagram. -/
def heard (data : List Byte) : ChatMessage := cStr (data.take msgBufferSize)

namespace UnixNetwork

variable {ι : Type}

/-- The call that an event makes. -/
def call (A : Autobind ι) (n : UnixNetwork ι) : UnixNetworkEvent ι → UnixCall Unit
  | .connect _ remotes => SocketUnix.connect remotes
  | .send _ order ok msg => SocketUnix.send order ok msg
  | .receive i =>
      match n.inbox i with
      | [] => pure ()
      | (j, data) :: _ =>
          SocketUnix.handleMessage (.wrote (data.take msgBufferSize)) (A.address j).sunPath
  | .receiveFailed _ errno => SocketUnix.handleMessage (.failed errno) []
  | .leave _ order ok => SocketUnix.destructor order ok

/-- How the call ends. -/
def result (A : Autobind ι) (n : UnixNetwork ι) (e : UnixNetworkEvent ι) :
    EStateM.Result (Stop UnixError) (Guarded SocketUnix) Unit :=
  call A n e ⟨n.socket e.actor, false⟩

/-- The socket after the call. An exception leaves it as it was at the throw. -/
def called (A : Autobind ι) (n : UnixNetwork ι) (e : UnixNetworkEvent ι) : SocketUnix :=
  (after (result A n e)).object

/-- What `sendto` was called with in an event, the oldest first. -/
def attempts (A : Autobind ι) (n : UnixNetwork ι) (e : UnixNetworkEvent ι) :
    List (List Byte × ChatMessage) :=
  ((called A n e).sent.take
    ((called A n e).sent.length - (n.socket e.actor).sent.length)).reverse

/-- The datagrams that an event puts to those waiting at socket `k`: what is sent to its name and
accepted. -/
def posted (A : Autobind ι) (n : UnixNetwork ι) (e : UnixNetworkEvent ι) (k : ι) :
    List (ι × List Byte) :=
  (attempts A n e).filterMap fun line =>
    if e.ok line.1 = true ∧ line.1 = SocketUnix.sunPath (A.name k) then some (e.actor, line.2)
    else none

/-- `sendto` succeeds only to the name of a socket that is there. -/
def Answers (A : Autobind ι) (n : UnixNetwork ι) (ok : List Byte → Bool) : Prop :=
  ∀ addr, ok addr = true → ∃ k, addr = SocketUnix.sunPath (A.name k) ∧ n.status k ≠ .left

/-- The event can happen: calls are made until one throws, and then the destructor runs. -/
def Possible (A : Autobind ι) (n : UnixNetwork ι) : UnixNetworkEvent ι → Prop
  | .connect i _ | .receiveFailed i _ => n.status i = .running
  | .send i order ok _ =>
      n.status i = .running ∧ SocketUnix.Traverses order (n.socket i) ∧ Answers A n ok
  | .receive i => n.status i = .running ∧ n.inbox i ≠ []
  | .leave i order ok =>
      n.status i ≠ .left ∧ SocketUnix.Traverses order (n.socket i) ∧ Answers A n ok

variable {A : Autobind ι} {n n' : UnixNetwork ι} {e : UnixNetworkEvent ι} {i j k : ι}
  {path : Path} {d : ι × List Byte} {data : List Byte} {order : List Path} {ok : List Byte → Bool}
  {msg : ChatMessage}

/-! ## What is sent -/

/-- Otherwise only `connect` changes the table. -/
theorem mem_peers_called (h : e ≠ .receive e.actor) : path ∈ (called A n e).peers ↔
    path ∈ (n.socket e.actor).peers ∨
      ∃ i remotes, e = .connect i remotes ∧ ∃ remote ∈ remotes, remote.addr = path := by
  -- nothing but a connect adds a path
  have hsame : (called A n e).peers = (n.socket e.actor).peers →
      (∀ i remotes, e ≠ .connect i remotes) → (path ∈ (called A n e).peers ↔
        path ∈ (n.socket e.actor).peers ∨
          ∃ i remotes, e = .connect i remotes ∧ ∃ remote ∈ remotes, remote.addr = path) := by
    intro hpeers hne
    rw [hpeers]
    exact ⟨.inl, fun hpath => hpath.resolve_right fun ⟨i, remotes, heq, _⟩ => hne i remotes heq⟩
  cases e with
  | connect i remotes =>
      refine (SocketUnix.mem_peers_connect remotes ⟨n.socket i, false⟩).trans
        (or_congr_right ⟨fun hadded => ⟨i, remotes, rfl, hadded⟩, ?_⟩)
      rintro ⟨i', remotes', heq, hadded⟩
      obtain ⟨-, rfl⟩ := UnixNetworkEvent.connect.inj heq
      exact hadded
  | send i order ok msg => exact hsame (SocketUnix.peers_send order ok msg _) (by simp)
  | receive i => exact absurd rfl h
  | receiveFailed i errno => exact hsame rfl (by simp)
  | leave i order ok => exact hsame (SocketUnix.peers_send order ok quitMsg _) (by simp)

/-! ## Steps -/

variable [DecidableEq ι]

/-- What is left of the waiting datagrams. -/
def remaining (n : UnixNetwork ι) : UnixNetworkEvent ι → ι → List (ι × List Byte)
  | .receive i, k => if k = i then (n.inbox k).tail else n.inbox k
  | _, k => n.inbox k

/-- The answer of the network to an event. -/
def step (A : Autobind ι) (n : UnixNetwork ι) (e : UnixNetworkEvent ι) :
    Outcome (UnixNetwork ι) :=
  .returned {
    socket := Function.update n.socket e.actor (called A n e)
    status := Function.update n.status e.actor (e.status (result A n e))
    inbox := fun k => remaining n e k ++ posted A n e k
    arrived := fun k => n.arrived k ++ posted A n e k }

/-- A step leaves the sockets of the others. -/
theorem socket_step_ne (h : k ≠ e.actor) : (step A n e).state.socket k = n.socket k :=
  Function.update_of_ne h _ _

/-- A step leaves the actor's socket as its call does. -/
theorem socket_step_self : (step A n e).state.socket e.actor = called A n e :=
  Function.update_self _ _ _

/-- A call that is no `receive` of `k` keeps the paths of `k`, and adds those it connects to. -/
theorem mem_peers_step (h : e ≠ .receive k) : path ∈ ((step A n e).state.socket k).peers ↔
    path ∈ (n.socket k).peers ∨
      ∃ remotes, e = .connect k remotes ∧ ∃ remote ∈ remotes, remote.addr = path := by
  by_cases hk : k = e.actor
  · subst hk
    rw [socket_step_self, mem_peers_called h]
    refine or_congr_right ⟨?_, fun ⟨remotes, he, hadded⟩ => ⟨_, remotes, he, hadded⟩⟩
    rintro ⟨i, remotes, rfl, hadded⟩
    exact ⟨remotes, rfl, hadded⟩
  · rw [socket_step_ne hk]
    refine ⟨.inl, fun hpath => hpath.resolve_right ?_⟩
    rintro ⟨remotes, rfl, -⟩
    exact hk rfl

/-! ## The datagrams of one sender -/

end UnixNetwork

end SctpSandbox

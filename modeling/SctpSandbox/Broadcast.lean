import SctpSandbox.Lib.Broadcast
import SctpSandbox.Sctp.Table
import SctpSandbox.SocketUnix
import SctpSandbox.Tcp.Calls
import SctpSandbox.Udp.Effects

/-! # A chat message to every peer

`send(msg)` of five classes. All loop over their peers; `SocketDccp` catches the exception of a peer
inside the loop, the others let it leave the loop, and the peers behind the first failing one get
nothing. -/

namespace SctpSandbox

open Call

namespace SocketTcp

variable {mtx : Mutex} {ok : FD → Bool} {msg : ChatMessage} {s : SocketTcp}

/-- What attempts to reach some fds leave behind. -/
def attempted (msg : ChatMessage) (fds : List FD) (s : SocketTcp) : SocketTcp :=
  { s with sent := (fds.map fun fd => (fd, msg)).reverse ++ s.sent }

/-- The fds of the peers. -/
def entryFds (s : SocketTcp) : List FD := s.peers.entries.map fun p => p.2.fd.fd

/-- The loops go through the peers in the order of their keys. -/
theorem peerFds_perm (s : SocketTcp) : s.peerFds.Perm s.entryFds :=
  (List.mergeSort_perm _ _).map _

/-- The attempts of a loop are the first attempt and then the others. -/
theorem attempted_cons (msg : ChatMessage) (fd : FD) (fds : List FD) (s : SocketTcp) :
    attempted msg (fd :: fds) s = attempted msg fds (attempted msg [fd] s) := by
  simp [attempted]

/-- A message is sent, and the answer of `::send` decides how the call ends. -/
theorem sendMessage_eq (fd : FD) (g : Guarded SocketTcp) : sendMessage ok msg fd g =
    if ok fd then .ok () ⟨attempted msg [fd] g.object, g.held⟩
    else .error (.exception .runtimeError) ⟨attempted msg [fd] g.object, g.held⟩ := by
  have hlog : (modifyThis fun s => { s with sent := (fd, msg) :: s.sent } : TcpCall Unit) g =
      .ok () ⟨attempted msg [fd] g.object, g.held⟩ := rfl
  rw [sendMessage, bind_ok hlog]
  cases ok fd with
  | true => rfl
  | false => rfl

/-- `sendMessage` attempts one descriptor and throws exactly when the send fails. -/
theorem attempts_sendMessage (ok : FD → Bool) (msg : ChatMessage) :
    Attempts (attempted msg) ok (fun _ => True) (sendMessage ok msg) where
  nil := fun _ => rfl
  cons := attempted_cons msg
  keeps := fun _ _ h => h
  succeeds := fun fd g _ hok => by rw [sendMessage_eq, if_pos hok]
  fails := fun fd g _ hok => ⟨_, _, by rw [sendMessage_eq, if_neg (by simp [hok])]⟩

/-- The stream sockets' loop serves everyone exactly when no send fails. -/
theorem isolates_send_iff : Isolates (attempted msg) s.entryFds (SocketTcp.send mtx ok msg)
    ⟨s, false⟩ ↔ ∀ fd ∈ s.entryFds, ok fd = true :=
  (attempts_sendMessage ok msg).isolates_withLock_iff trivial (peerFds_perm s) bind_this

end SocketTcp

namespace SocketDccp

open SocketTcp

/-- The body of the loop in `SocketDccp::send` does not throw. -/
theorem attempts_sendMessage (ok : FD → Bool) (msg : ChatMessage) :
    Attempts (attempted msg) (fun _ => true) (fun _ => True) fun fd => (do
      let _ ← catches SocketError.isRuntimeError (sendMessage ok msg fd) : TcpCall PUnit) where
  nil := fun _ => rfl
  cons := attempted_cons msg
  keeps := fun _ _ h => h
  succeeds := fun fd g _ _ => by
    have hcatch : ∃ b, catches SocketError.isRuntimeError (sendMessage ok msg fd) g =
        .ok b ⟨attempted msg [fd] g.object, g.held⟩ := by
      rw [catches, sendMessage_eq]
      cases ok fd with
      | true => exact ⟨false, rfl⟩
      | false => exact ⟨true, rfl⟩
    obtain ⟨b, hb⟩ := hcatch
    rw [bind_ok hb]
    rfl
  fails := fun _ _ _ hok => absurd hok.symm Bool.false_ne_true

/-- The DCCP loop catches per connection, so it serves everyone whatever fails. -/
theorem isolates_send (mtx : Mutex) (ok : FD → Bool) (msg : ChatMessage) (s : SocketTcp) :
    Isolates (attempted msg) s.entryFds (SocketDccp.send mtx ok msg) ⟨s, false⟩ :=
  ((attempts_sendMessage ok msg).isolates_withLock_iff trivial (peerFds_perm s) bind_this).mpr
    fun _ _ => rfl

end SocketDccp

namespace SocketSctp

variable {mtx : Mutex} {ok : FD → Bool} {msg : ChatMessage} {s : SocketSctp} {order : List AssocId}

/-- The fds of the peers. -/
def entryFds (s : SocketSctp) : List FD := s.peers.entries.map fun p => p.2.fd.fd

/-- A traversal of the table goes through all its peers. -/
theorem orderedFds_perm (horder : order.Perm s.peers.keys) :
    ((order.filterMap fun id => s.peers.lookup id).map fun peer => peer.fd.fd).Perm
      s.entryFds := by
  have hlookup : s.peers.keys.filterMap (fun id => s.peers.lookup id) =
      s.peers.entries.map fun p => p.2 := by
    rw [AList.keys, List.keys, List.filterMap_map, ← List.filterMap_eq_map]
    exact List.filterMap_congr fun p hp => AList.mem_lookup_iff.mpr hp
  have hfds : (s.peers.keys.filterMap fun id => s.peers.lookup id).map (fun peer => peer.fd.fd) =
      s.entryFds := by
    rw [hlookup, List.map_map]
    rfl
  rw [← hfds]
  exact (horder.filterMap _).map _

/-- The one-to-many loop serves everyone exactly when no send fails. -/
theorem isolates_send_iff (horder : order.Perm s.peers.keys) :
    Isolates (attempted msg) s.entryFds (SocketSctp.send mtx order ok msg) ⟨s, false⟩ ↔
      ∀ fd ∈ s.entryFds, ok fd = true :=
  (attempts_sendPayload s ok msg).isolates_withLock_iff rfl (orderedFds_perm horder)
    (send_loop s order ok msg)

end SocketSctp

namespace SocketUnix

variable {ok : List Byte → Bool} {msg : ChatMessage} {s : SocketUnix} {order : List Path}

/-- What attempts to reach some paths leave behind. -/
def attempted (msg : ChatMessage) (paths : List Path) (s : SocketUnix) : SocketUnix :=
  { s with sent := (paths.map fun path => (sunPath path, msg)).reverse ++ s.sent }

/-- The path fits into a `sockaddr_un`, and `sendto` succeeds. -/
def reaches (ok : List Byte → Bool) (path : Path) : Bool :=
  path.length + 1 ≤ sunPathSize && ok (sunPath path)

/-- A path that fits is copied, and the answer of `sendto` decides how the call ends. -/
theorem sendTo_of_fits {path : Path} (hfits : path.length + 1 ≤ sunPathSize)
    (ok : List Byte → Bool) (msg : ChatMessage) (g : Guarded SocketUnix) : sendTo ok msg path g =
      if ok (sunPath path) then .ok () ⟨attempted msg [path] g.object, g.held⟩
      else .error (.exception .runtimeError) ⟨attempted msg [path] g.object, g.held⟩ := by
  rw [sendTo, if_pos hfits]
  show (if ok (sunPath path) then pure () else raise .runtimeError : UnixCall Unit)
    ⟨attempted msg [path] g.object, g.held⟩ = _
  split
  · rfl
  · rfl

/-- `sendTo` attempts one path and throws exactly when it is not reached. -/
theorem attempts_sendTo (ok : List Byte → Bool) (msg : ChatMessage) :
    Attempts (attempted msg) (reaches ok) (fun _ => True) (sendTo ok msg) where
  nil := fun _ => rfl
  cons := fun _ _ _ => by simp [attempted]
  keeps := fun _ _ h => h
  succeeds := fun path g _ hok => by
    obtain ⟨hfits, hsent⟩ : path.length + 1 ≤ sunPathSize ∧ ok (sunPath path) = true := by
      simpa [reaches] using hok
    rw [sendTo_of_fits hfits, if_pos hsent]
  fails := fun path g _ hok => by
    by_cases hfits : path.length + 1 ≤ sunPathSize
    · have hsent : ¬ ok (sunPath path) = true := fun hsent => by simp [reaches, hfits, hsent] at hok
      rw [sendTo_of_fits hfits, if_neg hsent]
      exact ⟨_, _, rfl⟩
    · rw [sendTo, if_neg hfits]
      exact ⟨_, _, rfl⟩

/-- The order goes through the set of peers. -/
def Traverses (order : List Path) (s : SocketUnix) : Prop :=
  order.Nodup ∧ ∀ path, path ∈ order ↔ path ∈ s.peers

/-- The loop over paths serves everyone exactly when each is reached. -/
theorem isolates_send_iff (horder : Traverses order s) :
    Isolates (attempted msg) order (SocketUnix.send order ok msg) ⟨s, false⟩ ↔
      ∀ path ∈ s.peers, reaches ok path = true := by
  have hall : order.filter (fun path => path ∈ s.peers) = order :=
    List.filter_eq_self.mpr fun path hpath => decide_eq_true ((horder.2 path).mp hpath)
  have hloop : SocketUnix.send order ok msg ⟨s, false⟩ =
      order.forM (sendTo ok msg) ⟨s, false⟩ := by
    rw [SocketUnix.send, bind_this, hall]
  have hiff := (attempts_sendTo ok msg).isolates_iff (g := ⟨s, false⟩) trivial
    (List.Perm.refl order)
  rw [Isolates, hloop]
  exact hiff.trans (forall_congr' fun path => by rw [horder.2 path])

end SocketUnix

namespace SocketUdp

variable {T : TaskScheduler UdpTask} {net : ℕ → Bool} {s : SocketUdp T} {order : List IPSocket}
  {msg : ChatMessage}

/-- What attempts to reach some remotes leave behind. -/
def attempted (msg : ChatMessage) (remotes : List IPSocket) (s : SocketUdp T) : SocketUdp T :=
  { s with
    sends := s.sends + remotes.length
    log := (remotes.map fun remote => (s.now, .sent msg remote)).reverse ++ s.log }

/-- A call attempts to reach each peer once, leaves nothing else behind, and returns. -/
def Isolates (msg : ChatMessage) (send : SocketUdp T → Outcome (SocketUdp T)) (s : SocketUdp T) :
    Prop :=
  ∃ remotes, remotes.Perm s.peers.keys ∧ send s = .returned (s.attempted msg remotes)

/-- The attempts of a loop are the first attempt and then the others. -/
theorem attempted_cons (msg : ChatMessage) (remote : IPSocket) (remotes : List IPSocket)
    (s : SocketUdp T) :
    attempted msg (remote :: remotes) s = attempted msg remotes (attempted msg [remote] s) := by
  simp [attempted, Nat.add_comm, Nat.add_left_comm]

/-- One datagram: booked in either case, and the outcome is the network's. -/
theorem send_eq (remote : IPSocket) : SocketUdp.send net msg remote s =
    if net s.sends then .returned (attempted msg [remote] s)
    else .threw (attempted msg [remote] s) := rfl

/-- The loop of `send`, when no `sendto` fails. -/
theorem forEach_send_ok (remotes : List IPSocket)
    (hok : ∀ i < remotes.length, net (s.sends + i) = true) :
    Outcome.forEach (SocketUdp.send net msg) remotes s = .returned (s.attempted msg remotes) := by
  induction remotes generalizing s with
  | nil => rfl
  | cons remote rest ih =>
      have hfirst : net s.sends = true := hok 0 (Nat.zero_lt_succ _)
      have hrest : ∀ i < rest.length, net ((attempted msg [remote] s).sends + i) = true := by
        intro i hi
        have hnext := hok (i + 1) (Nat.succ_lt_succ hi)
        rwa [← Nat.add_assoc, Nat.add_right_comm] at hnext
      rw [Outcome.forEach_cons, send_eq, if_pos hfirst, Outcome.andThen_returned, ih hrest,
        ← attempted_cons]

/-- A `sendto` that fails leaves the loop. -/
theorem forEach_send_failed (remotes : List IPSocket) {i : ℕ} (hi : i < remotes.length)
    (hfail : net (s.sends + i) = false) :
    ∃ s', Outcome.forEach (SocketUdp.send net msg) remotes s = .threw s' := by
  induction remotes generalizing s i with
  | nil => exact absurd hi (Nat.not_lt_zero i)
  | cons remote rest ih =>
      rw [Outcome.forEach_cons, send_eq]
      by_cases hfirst : net s.sends = true
      · rw [if_pos hfirst, Outcome.andThen_returned]
        -- the failing one is behind the first
        cases i with
        | zero => exact absurd (hfail.symm.trans hfirst) Bool.false_ne_true
        | succ i =>
            refine ih (i := i) (Nat.lt_of_succ_lt_succ hi) ?_
            rwa [← Nat.add_assoc, Nat.add_right_comm] at hfail
      · rw [if_neg hfirst]
        exact ⟨_, rfl⟩

/-- The datagram loop reaches everyone exactly when the network takes each datagram of its turn. -/
theorem isolates_sendAll_iff (horder : order.Perm s.peers.keys) :
    Isolates msg (SocketUdp.sendAll net order msg) s ↔
      ∀ i < s.peers.keys.length, net (s.sends + i) = true := by
  -- who is in the order is a peer, so nobody is passed over
  have hall : order.filter (fun remote => remote ∈ s.peers) = order := by
    refine List.filter_eq_self.mpr fun remote hremote => decide_eq_true ?_
    exact AList.mem_keys.mpr (horder.mem_iff.mp hremote)
  rw [← horder.length_eq]
  constructor
  · rintro ⟨remotes, -, hsend⟩ i hi
    by_contra hfail
    obtain ⟨s', hthrew⟩ : ∃ s', Outcome.forEach (SocketUdp.send net msg) order s = .threw s' :=
      forEach_send_failed order hi (by simpa using hfail)
    rw [SocketUdp.sendAll, hall, hthrew] at hsend
    exact absurd hsend (by simp)
  · intro hok
    refine ⟨order, horder, ?_⟩
    rw [SocketUdp.sendAll, hall]
    exact forEach_send_ok order hok

end SocketUdp

/-- Two remotes, connected to on the fds 4 and 5. -/
def sampleConnections : List (IPSocket × ConnectAnswer) :=
  [(SocketUdp.sampleRemote, ⟨some 4, true, true, 1⟩),
    (SocketUdp.sampleRemote, ⟨some 5, true, true, 2⟩)]

/-- A `SocketTcp` or `SocketDccp` with two connections. -/
def sampleConnected : SocketTcp :=
  (after (SocketTcp.connect .plain sampleConnections ⟨.constructed 3, false⟩)).object

end SctpSandbox

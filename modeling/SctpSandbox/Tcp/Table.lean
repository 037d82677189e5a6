import SctpSandbox.PeerTable
import SctpSandbox.Tcp.Calls

/-! # The peer table of `SocketTcp`

`SocketTcp.Consistent` is the invariant of the table: its peers are consistent, and each is filed
under the fd it owns. It is kept when an entry is made for an fd that was not open, with a buffer
that was not in use, and when an entry is destroyed; so `connect` and `send` keep it. -/

namespace SctpSandbox

/-- What a peer holds. -/
def TcpPeer.socket (peer : TcpPeer) : PeerSocket := ⟨peer.fd, peer.msgBuffer⟩

namespace SocketTcp

open Call

variable {s s' : SocketTcp} {fd fd' n : FD} {peer peer' : TcpPeer} {remote : IPSocket}
  {buffer : Buffer} {reestablish : Bool}

/-- The table of peers. -/
def peerTable (s : SocketTcp) : PeerTable FD :=
  .ofPeers TcpPeer.socket s.peers s.fd.fd s.mainMsgBuffer s.calls

/-- The kernel can hand out the number `n`. -/
abbrev FdFree (n : FD) (s : SocketTcp) : Prop := s.peerTable.FdFree n

/-- The pool can hand out the buffer. -/
abbrev BufferFree (buffer : Buffer) (s : SocketTcp) : Prop := s.peerTable.BufferFree buffer

/-- The invariant of the table. -/
structure Consistent (s : SocketTcp) : Prop where
  sockets : s.peerTable.Consistent
  /-- An entry is filed under the fd it owns. -/
  key : ∀ fd peer, s.peers.lookup fd = some peer → peer.fd.fd = fd

/-- What is found is there. -/
theorem mem_of_lookup (h : s.peers.lookup fd = some peer) : fd ∈ s.peers :=
  AList.lookup_isSome.mp (by rw [h]; rfl)

/-- The table's entry is the object of the peer. -/
theorem entry_peerTable (h : s.peers.lookup fd = some peer) :
    s.peerTable.entry fd = some peer.socket := PeerTable.entry_ofPeers h

/-- The messages, the log of sends and the scheduled reconnects play no role. -/
theorem Consistent.congr (h : s.Consistent) (ht : s'.peerTable = s.peerTable)
    (hp : s'.peers = s.peers) : s'.Consistent := ⟨ht ▸ h.sockets, hp ▸ h.key⟩

/-- An entry owns the fd it is filed under. -/
theorem Consistent.owner (h : s.Consistent) (hp : s.peers.lookup fd = some peer) :
    peer.fd = { fd := fd } := by
  have howner := (h.sockets.owner fd peer.socket (entry_peerTable hp)).1
  have hkey := h.key fd peer hp
  calc peer.fd = { fd := peer.fd.fd } := howner
    _ = { fd := fd } := by rw [hkey]

/-- The listening socket is nobody's. -/
theorem Consistent.listening (h : s.Consistent) : s.fd.fd ∉ s.peers := by
  intro hmem
  obtain ⟨peer, hp⟩ := Option.isSome_iff_exists.mp (AList.lookup_isSome.mpr hmem)
  exact h.sockets.mainFd s.fd.fd peer.socket (entry_peerTable hp) (h.key s.fd.fd peer hp)

/-- An fd the kernel can hand out is not in the table. -/
theorem Consistent.notMem_of_free (h : s.Consistent) (hn : FdFree n s) : n ∉ s.peers := by
  intro hmem
  obtain ⟨peer, hp⟩ := Option.isSome_iff_exists.mp (AList.lookup_isSome.mpr hmem)
  exact (h.sockets.free hn).2 n peer.socket (entry_peerTable hp) (h.key n peer hp)

/-- A lookup after an entry is made. -/
theorem lookup_entered (s : SocketTcp) (n : FD) (peer : TcpPeer) (fd : FD) :
    (s.entered n peer).peers.lookup fd = if fd = n then some peer else s.peers.lookup fd := by
  have heq : (s.entered n peer).peers = s.peers.insert n peer := rfl
  rw [heq]
  by_cases h : fd = n
  · rw [if_pos h, h, AList.lookup_insert]
  · rw [if_neg h, AList.lookup_insert_ne h]

/-- A lookup after an entry is erased. -/
theorem lookup_erased (s : SocketTcp) (n : FD) (peer : TcpPeer) (fd : FD) :
    (s.erased n peer).peers.lookup fd = if fd = n then none else s.peers.lookup fd := by
  have heq : (s.erased n peer).peers = s.peers.erase n := rfl
  rw [heq]
  by_cases h : fd = n
  · rw [if_pos h, h, AList.lookup_erase]
  · rw [if_neg h, AList.lookup_erase_ne h]

/-- An entry made by the socket is one of its table. -/
theorem peerTable_entered (s : SocketTcp) :
    (s.entered n ⟨{ fd := n }, buffer, remote, reestablish⟩).peerTable =
      s.peerTable.enter n n buffer := PeerTable.ofPeers_insert rfl

/-- An entry erased by the socket is one erased of its table. -/
theorem peerTable_erased (s : SocketTcp) (n : FD) (peer : TcpPeer) :
    (s.erased n peer).peerTable = s.peerTable.erase n peer.socket := PeerTable.ofPeers_erase n peer

/-- **An entry for a new fd with a free buffer** keeps the table consistent. -/
theorem Consistent.entered (h : s.Consistent) (hn : FdFree n s) (hb : BufferFree buffer s) :
    (s.entered n ⟨{ fd := n }, buffer, remote, reestablish⟩).Consistent := by
  refine ⟨?_, fun fd peer hp => ?_⟩
  · rw [peerTable_entered]
    exact h.sockets.enter hn hb n
  · rw [lookup_entered] at hp
    by_cases hfd : fd = n
    · rw [if_pos hfd] at hp
      rw [hfd, ← Option.some.inj hp]
    · rw [if_neg hfd] at hp
      exact h.key fd peer hp

/-- **An entry destroyed** keeps the table consistent. -/
theorem Consistent.erased (h : s.Consistent) (hp : s.peers.lookup n = some peer) :
    (s.erased n peer).Consistent := by
  refine ⟨?_, fun fd peer' hp' => ?_⟩
  · rw [peerTable_erased]
    exact h.sockets.erase (entry_peerTable hp)
  · rw [lookup_erased] at hp'
    by_cases hfd : fd = n
    · rw [if_pos hfd] at hp'
      exact absurd hp'.symm (Option.some_ne_none peer')
    · rw [if_neg hfd] at hp'
      exact h.key fd peer' hp'

/-- A reconnect scheduled leaves the table as it is. -/
theorem Consistent.rescheduled (h : s.Consistent) (peer : TcpPeer) :
    (s.rescheduled peer).Consistent := by
  unfold SocketTcp.rescheduled
  cases peer.shouldReestablish with
  | true => exact h.congr rfl rfl
  | false => exact h

/-- A new fd closed again leaves the table consistent. -/
theorem Consistent.dropped (h : s.Consistent) (hn : FdFree n s) : Consistent
    { s with calls := FileDescriptor.destroy { fd := n } (.adopted n :: s.calls) } :=
  ⟨h.sockets.drop hn, h.key⟩

/-! ## `connect` and `send` -/

/-- What the kernel and the pool can answer to a `connect`: new fds and free buffers, each for the
state the loop has reached. -/
def ConnectFree : List (IPSocket × ConnectAnswer) → Guarded SocketTcp → Prop
  | [], _ => True
  | remote :: rest, g =>
      (∀ n, remote.2.socket = some n → FdFree n g.object ∧ BufferFree remote.2.buffer g.object) ∧
      ∀ g', connectOne remote.1 remote.2 g = .ok () g' → ConnectFree rest g'

/-- A connect whose descriptor and buffer are new keeps the socket consistent. -/
theorem consistent_connectOne {answer : ConnectAnswer} {g : Guarded SocketTcp}
    (h : g.object.Consistent)
    (hfree : ∀ n, answer.socket = some n → FdFree n g.object ∧ BufferFree answer.buffer g.object) :
    (after (connectOne remote answer g)).object.Consistent := by
  obtain ⟨s, held⟩ := g
  unfold connectOne createConnectSocket
  cases hs : answer.socket with
  | none => exact h
  | some n =>
      obtain ⟨hn, hb⟩ := hfree n hs
      cases hconf : answer.configured with
      | false => exact h.dropped hn
      | true =>
          cases hconn : answer.connected with
          -- `::connect` fails: the exception closes the new fd
          | false => exact h.dropped hn
          | true =>
              have hnew : n ∉ ({ s with calls := .adopted n :: s.calls } : SocketTcp).peers :=
                h.notMem_of_free hn
              have hemp : emplace n ⟨{ fd := n }, answer.buffer, remote, true⟩
                  ⟨{ s with calls := .adopted n :: s.calls }, held⟩ = _ := emplace_new hnew
              have hend : after (emplace n ⟨{ fd := n }, answer.buffer, remote, true⟩
                  ⟨{ s with calls := .adopted n :: s.calls }, held⟩) =
                  ⟨s.entered n ⟨{ fd := n }, answer.buffer, remote, true⟩, held⟩ := by
                rw [hemp]
                rfl
              have hcons : (s.entered n ⟨{ fd := n }, answer.buffer, remote, true⟩).Consistent :=
                h.entered hn hb
              exact hend ▸ hcons

/-- A `connect` keeps the table consistent, also when it is left by an exception half way. -/
theorem Consistent.connect {mtx : Mutex} {remotes : List (IPSocket × ConnectAnswer)}
    (h : s.Consistent) (hfree : ConnectFree remotes ⟨s, true⟩) :
    (after (connect mtx remotes ⟨s, false⟩)).object.Consistent := by
  rw [SocketTcp.connect, after_withLock_free _ rfl]
  have hs : (⟨s, true⟩ : Guarded SocketTcp).object.Consistent := h
  have hset : ({ (⟨s, false⟩ : Guarded SocketTcp) with held := true }) = ⟨s, true⟩ := rfl
  rw [hset]
  -- by induction on the remotes, from any state inside the scope
  generalize (⟨s, true⟩ : Guarded SocketTcp) = g at hs hfree
  induction remotes generalizing g with
  | nil => exact hs
  | cons remote rest ih =>
      have hone : (after (connectOne remote.1 remote.2 g)).object.Consistent :=
        consistent_connectOne hs hfree.1
      show (after ((connectOne remote.1 remote.2 >>= fun _ =>
        rest.forM fun remote => connectOne remote.1 remote.2) g)).object.Consistent
      cases hrun : connectOne remote.1 remote.2 g with
      | error e g' =>
          rw [hrun] at hone
          rw [bind_error hrun]
          exact hone
      | ok a g' =>
          rw [hrun] at hone
          rw [bind_ok hrun]
          exact ih g' hone (hfree.2 g' hrun)

/-- The messages sent play no role. -/
theorem keeps_sendMessage (ok : FD → Bool) (msg : ChatMessage) (fd : FD) :
    Keeps Consistent (sendMessage ok msg fd) := by
  refine (keeps_modifyThis fun s h => h.congr rfl rfl).bind fun _ => ?_
  exact .ite (fun _ => keeps_pure _) fun _ => keeps_raise _

/-- The broadcast keeps it consistent too. -/
theorem keeps_send {mtx : Mutex} (ok : FD → Bool) (msg : ChatMessage) :
    Keeps Consistent (send mtx ok msg) := by
  refine Keeps.withLock (keeps_this.bind fun s => ?_)
  exact keeps_forM s.peerFds fun fd _ => keeps_sendMessage ok msg fd

/-- The descriptors sent to are those of the entries. -/
theorem mem_peerFds : n ∈ s.peerFds ↔ ∃ p ∈ s.peers.entries, p.2.fd.fd = n := by
  simp [peerFds]

/-- The fds selected are fds of peers and the listening one. -/
theorem Consistent.selected {mtx : Mutex} {ready : Option (FD → Bool)} {fds : List FD}
    {g : Guarded SocketTcp} (h : s.Consistent)
    (hsel : selectFds mtx ready ⟨s, false⟩ = .ok fds g) (hfd : fd ∈ fds) :
    fd = s.fd.fd ∨ fd ∈ s.peers := by
  cases ready with
  | none => exact nomatch hsel
  | some ready =>
      have heq : selectFds mtx (some ready) ⟨s, false⟩ =
        .ok (FDSet.select s.fdSet ready) ⟨s, false⟩ := rfl
      rw [heq] at hsel
      injection hsel with hfds
      have hmem : fd ∈ s.fdSet := by
        rw [← hfds] at hfd
        exact (FDSet.mem_select.mp hfd).1
      rcases List.mem_cons.mp hmem with heq | hmem
      · exact .inl heq
      · obtain ⟨⟨key, peer⟩, hentry, hn⟩ := mem_peerFds.mp hmem
        have hlookup := AList.mem_lookup_iff.mpr hentry
        -- the set holds the fds that the peers own, which are their keys
        have howner := h.owner hlookup
        rw [howner] at hn
        exact .inr (hn ▸ mem_of_lookup hlookup)

/-- A new socket has a consistent table. -/
theorem consistent_constructed (n : FD) : (constructed n).Consistent := by
  refine ⟨PeerTable.consistent_ofPeers_empty (isOpen_adopted.mpr (.inl rfl)), fun fd peer hp => ?_⟩
  exact absurd (mem_of_lookup hp) (AList.notMem_empty fd)

end SocketTcp

end SctpSandbox

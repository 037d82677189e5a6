import SctpSandbox.Lib.Broadcast
import SctpSandbox.PeerTable
import SctpSandbox.Sctp.SocketSctp

/-! # The peer table of `SocketSctp`

The table is keyed by association, buffers and selection go by fd. While the table is consistent the
two agree: `find_if` finds the one peer that owns an fd, and `send` reaches every peer once. -/

namespace SctpSandbox

/-- What a peer holds. -/
def SctpPeer.socket (peer : SctpPeer) : PeerSocket := ⟨peer.fd, peer.msgBuffer⟩

namespace SocketSctp

open Call

variable {mtx : Mutex} {s s' : SocketSctp} {fd fd' n : FD} {id : AssocId} {io : SctpAnswers}
  {peer peer' : SctpPeer} {b : Buffer} {g : Guarded SocketSctp} {ok : FD → Bool} {msg : ChatMessage}

/-- The table of peers. -/
def peerTable (s : SocketSctp) : PeerTable AssocId :=
  .ofPeers SctpPeer.socket s.peers s.fd.fd s.mainMsgBuffer s.calls

/-- The invariant of the table. -/
abbrev Consistent (s : SocketSctp) : Prop := s.peerTable.Consistent

/-- The table's entry is the object of the peer. -/
theorem entry_peerTable (h : s.peers.lookup id = some peer) :
    s.peerTable.entry id = some peer.socket := PeerTable.entry_ofPeers h

/-- What is found is there. -/
theorem mem_of_lookup (h : s.peers.lookup id = some peer) : id ∈ s.peers :=
  AList.lookup_isSome.mp (by rw [h]; rfl)

/-- The association of an fd is the only one. -/
theorem Consistent.id_unique {id' : AssocId} (h : s.Consistent)
    (hp : s.peers.lookup id = some peer) (hp' : s.peers.lookup id' = some peer')
    (heq : peer.fd.fd = peer'.fd.fd) : id = id' :=
  h.fds id id' peer.socket peer'.socket (entry_peerTable hp) (entry_peerTable hp') heq

/-- No peer has the main descriptor. -/
theorem Consistent.ne_main (h : s.Consistent) (hp : s.peers.lookup id = some peer) :
    peer.fd.fd ≠ s.fd.fd := h.mainFd id peer.socket (entry_peerTable hp)

/-! ## Entries made and destroyed -/

/-- An entry is made for an fd just peeled off. -/
def entered (s : SocketSctp) (id : AssocId) (n : FD) (b : Buffer) : SocketSctp :=
  { s with peers := s.peers.insert id ⟨{ fd := n }, b⟩, calls := .adopted n :: s.calls }

/-- The entry of an association is destroyed. -/
def erased (s : SocketSctp) (id : AssocId) (peer : SctpPeer) : SocketSctp :=
  { s with peers := s.peers.erase id, calls := peer.fd.destroy s.calls }

/-- An entry made by the socket is one of its table. -/
theorem peerTable_entered (s : SocketSctp) (id : AssocId) (n : FD) (b : Buffer) :
    (s.entered id n b).peerTable = s.peerTable.enter id n b := PeerTable.ofPeers_insert rfl

/-- An entry erased by the socket is one erased of its table. -/
theorem peerTable_erased (s : SocketSctp) (id : AssocId) (peer : SctpPeer) :
    (s.erased id peer).peerTable = s.peerTable.erase id peer.socket :=
  PeerTable.ofPeers_erase id peer

/-- The peeling off of a new association enters it. -/
theorem peelOff_ok (hopen : io.peeloff = some n) (hinfo : io.peerInfo = true) (hid : id ∉ s.peers) :
    peelOff mtx id io ⟨s, false⟩ = .ok () ⟨s.entered id n io.buffer, false⟩ := by
  have hemplace : emplace id ⟨{ fd := n }, io.buffer⟩
      ⟨{ s with calls := .adopted n :: s.calls }, true⟩ = .ok () ⟨if id ∈ s.peers then
        { s with calls := FileDescriptor.destroy { fd := n } (.adopted n :: s.calls) }
        else s.entered id n io.buffer, true⟩ := rfl
  rw [if_neg hid] at hemplace
  refine withLock_ok ⟨s.entered id n io.buffer, true⟩ rfl ?_
  rw [hopen, hinfo]
  exact hemplace

/-- A removal erases the entry, if there is one. -/
theorem remove_eq : remove mtx id ⟨s, false⟩ = .ok () ⟨match s.peers.lookup id with
    | some peer => s.erased id peer
    | none => s, false⟩ := rfl

/-- The removal of an association that has an entry. -/
theorem remove_some (hp : s.peers.lookup id = some peer) :
    remove mtx id ⟨s, false⟩ = .ok () ⟨s.erased id peer, false⟩ := by
  rw [remove_eq, hp]

/-- The removal of an association without an entry changes nothing. -/
theorem remove_none (hp : s.peers.lookup id = none) :
    remove mtx id ⟨s, false⟩ = .ok () ⟨s, false⟩ := by
  rw [remove_eq, hp]

/-! ## Buffers -/

/-- `find_if` finds the peer that owns the fd. -/
theorem Consistent.findPeer_eq (h : s.Consistent) (hp : s.peers.lookup id = some peer) :
    findPeer peer.fd.fd s = some peer := by
  have hentry := AList.mem_lookup_iff.mp hp
  cases hfind : s.peers.entries.find? fun q => q.2.fd.fd = peer.fd.fd with
  | none =>
      have hnone := List.find?_eq_none.mp hfind ⟨id, peer⟩ hentry
      exact absurd (decide_eq_true rfl) hnone
  | some q =>
      obtain ⟨id', peer'⟩ := q
      -- whatever entry is found first holds the same fd, so it is the same entry
      have hfd : peer'.fd.fd = peer.fd.fd := by
        simpa using List.find?_some hfind
      have hp' : s.peers.lookup id' = some peer' :=
        AList.mem_lookup_iff.mpr (List.mem_of_find?_eq_some hfind)
      obtain rfl := h.id_unique hp' hp hfd
      obtain rfl := Option.some.inj (hp'.symm.trans hp)
      rw [findPeer, hfind, Option.map_some]

/-- The main descriptor's buffer is the main one. -/
theorem getBuffer_main : getBuffer mtx s.fd.fd ⟨s, false⟩ = .ok s.mainMsgBuffer ⟨s, false⟩ := by
  refine withLock_ok ⟨s, true⟩ rfl ?_
  rw [bind_this, if_pos rfl]
  rfl

/-- A peer's descriptor has the peer's buffer. -/
theorem Consistent.getBuffer_peer (h : s.Consistent) (hp : s.peers.lookup id = some peer) :
    getBuffer mtx peer.fd.fd ⟨s, false⟩ = .ok peer.msgBuffer ⟨s, false⟩ := by
  have hfind : findPeer peer.fd.fd (Guarded.object (⟨s, true⟩ : Guarded SocketSctp)) = some peer :=
    h.findPeer_eq hp
  refine withLock_ok ⟨s, true⟩ rfl ?_
  rw [bind_this, if_neg (h.ne_main hp), hfind]
  rfl

/-- What is watched is the main descriptor and the peers'. -/
theorem mem_fdSet : fd ∈ s.fdSet ↔
    fd = s.fd.fd ∨ ∃ id peer, s.peers.lookup id = some peer ∧ peer.fd.fd = fd := by
  rw [fdSet, List.mem_cons, peerFds, List.mem_map]
  refine or_congr_right ⟨?_, ?_⟩
  · rintro ⟨⟨id, peer⟩, hmem, hfd⟩
    exact ⟨id, peer, AList.mem_lookup_iff.mpr hmem, hfd⟩
  · rintro ⟨id, peer, hp, hfd⟩
    exact ⟨⟨id, peer⟩, AList.mem_lookup_iff.mp hp, hfd⟩

/-- The fds selected are among those set. -/
theorem mem_fdSet_of_selected {ready : Option (FD → Bool)} {fds : List FD}
    (hsel : selectFds mtx ready ⟨s, false⟩ = .ok fds g) (hfd : fd ∈ fds) : fd ∈ s.fdSet := by
  cases ready with
  | none => exact nomatch hsel
  | some ready =>
      have heq : selectFds mtx (some ready) ⟨s, false⟩ =
        .ok (FDSet.select s.fdSet ready) ⟨s, false⟩ := rfl
      rw [heq] at hsel
      injection hsel with hfds
      exact (FDSet.mem_select.mp (hfds ▸ hfd)).1

/-- **Every fd that is set has a buffer.** -/
theorem Consistent.getBuffer_ok (h : s.Consistent) (hfd : fd ∈ s.fdSet) :
    ∃ b, getBuffer mtx fd ⟨s, false⟩ = .ok b ⟨s, false⟩ := by
  rcases mem_fdSet.mp hfd with rfl | ⟨id, peer, hp, rfl⟩
  · exact ⟨s.mainMsgBuffer, getBuffer_main⟩
  · exact ⟨peer.msgBuffer, h.getBuffer_peer hp⟩

/-- Only the log of sends can change. -/
theorem keeps_call {P : SocketSctp → Prop} (op : SctpOp) (hop : ∀ fd io, op ≠ .handleMessage fd io)
    (hsent : ∀ s log, P s → P { s with sent := log }) : Keeps P (call mtx op) := by
  cases op with
  | connect remotes =>
      exact keeps_forM remotes fun _ _ => .ite (fun _ => keeps_pure _) fun _ => keeps_raise _
  | connectMultihomed remotes ok =>
      refine .ite (fun _ => keeps_pure _) fun _ => ?_
      exact .ite (fun _ => keeps_pure _) fun _ => keeps_raise _
  | send order ok msg =>
      -- of all functions only the send writes, and what it writes is the log of what was sent
      have hsend : ∀ fd msg, Keeps P (sendTo ok fd msg) := fun fd msg =>
        (keeps_modifyThis fun s hs => hsent s _ hs).bind fun _ =>
          .ite (fun _ => keeps_pure _) fun _ => keeps_raise _
      rw [call, SocketSctp.send]
      refine Keeps.withLock (keeps_this.bind fun s => ?_)
      refine keeps_forM _ fun peer _ => ?_
      refine .ite (fun _ => ?_) fun _ => hsend peer.fd.fd msg
      exact keeps_this.bind fun s => hsend peer.fd.fd _
  | selectFds ready =>
      refine (Keeps.withLock (keeps_this.bind fun s => ?_)).bind fun _ => keeps_pure _
      cases ready with
      | some ready => exact keeps_pure _
      | none => exact keeps_raise _
  | handleMessage fd io => exact absurd rfl (hop fd io)

/-! ## `send` -/

/-- What `send` sends: the message, or a big one of the configured size. -/
def payload (s : SocketSctp) (msg : ChatMessage) : ChatMessage :=
  if s.bigMsgSize ≠ 0 then List.replicate s.bigMsgSize (120 : Byte) else msg

/-- What attempts to reach some fds leave behind. -/
def attempted (msg : ChatMessage) (fds : List FD) (s : SocketSctp) : SocketSctp :=
  { s with sent := (fds.map fun fd => (fd, s.payload msg)).reverse ++ s.sent }

/-- The attempts of a loop are the first attempt and then the others. -/
theorem attempted_cons (msg : ChatMessage) (fd : FD) (fds : List FD) (s : SocketSctp) :
    attempted msg (fd :: fds) s = attempted msg fds (attempted msg [fd] s) := by
  simp [attempted, payload]

/-- The body of the loop. -/
def sendPayload (s : SocketSctp) (ok : FD → Bool) (msg : ChatMessage) (fd : FD) : SctpCall PUnit :=
  if s.bigMsgSize ≠ 0 then sendBigMessage ok fd else sendTo ok fd msg

/-- `sendBigMessage` reads the size again, from the state the loop has reached. -/
theorem sendPayload_eq (fd : FD) {g : Guarded SocketSctp}
    (hg : g.object.bigMsgSize = s.bigMsgSize) : sendPayload s ok msg fd g =
      if ok fd then .ok () ⟨attempted msg [fd] g.object, g.held⟩
      else .error (.exception .runtimeError) ⟨attempted msg [fd] g.object, g.held⟩ := by
  -- the size in the object is that of the call, since nothing changes it
  have hsend : sendPayload s ok msg fd g = sendTo ok fd (g.object.payload msg) g := by
    unfold sendPayload payload
    rw [hg]
    by_cases hbig : s.bigMsgSize ≠ 0
    · rw [if_pos hbig, if_pos hbig, sendBigMessage, bind_this, hg]
    · rw [if_neg hbig, if_neg hbig]
  have hlog : (modifyThis fun s' => { s' with sent := (fd, g.object.payload msg) :: s'.sent } :
      SctpCall Unit) g = .ok () ⟨attempted msg [fd] g.object, g.held⟩ := rfl
  rw [hsend, sendTo, bind_ok hlog]
  cases ok fd with
  | true => rfl
  | false => rfl

/-- One send attempts its descriptor and throws exactly when the send fails. -/
theorem attempts_sendPayload (s : SocketSctp) (ok : FD → Bool) (msg : ChatMessage) :
    Attempts (attempted msg) ok (fun s' => s'.bigMsgSize = s.bigMsgSize)
      (sendPayload s ok msg) where
  nil := fun _ => rfl
  cons := attempted_cons msg
  keeps := fun _ _ h => h
  succeeds := fun fd g hg hok => by rw [sendPayload_eq fd hg, if_pos hok]
  fails := fun fd g hg hok => ⟨_, _, by rw [sendPayload_eq fd hg, if_neg (by simp [hok])]⟩

/-- The loop of `send` goes through the fds of the peers. -/
theorem send_loop (s : SocketSctp) (order : List AssocId) (ok : FD → Bool) (msg : ChatMessage) :
    (this >>= fun s' => (order.filterMap fun id => s'.peers.lookup id).forM fun peer =>
      if s'.bigMsgSize ≠ 0 then sendBigMessage ok peer.fd.fd else sendTo ok peer.fd.fd msg :
        SctpCall PUnit) ⟨s, true⟩ =
      ((order.filterMap fun id => s.peers.lookup id).map fun peer => peer.fd.fd).forM
        (sendPayload s ok msg) ⟨s, true⟩ := by
  have hfds : ∀ peers : List SctpPeer, (peers.forM fun peer => sendPayload s ok msg peer.fd.fd) =
      (peers.map fun peer => peer.fd.fd).forM (sendPayload s ok msg) := fun _ => List.forM_map.symm
  rw [bind_this, ← hfds]
  rfl

end SocketSctp

end SctpSandbox

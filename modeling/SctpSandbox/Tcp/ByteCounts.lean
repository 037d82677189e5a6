import SctpSandbox.Tcp.Stream

/-! # Byte counts that are thrown away

`recv` returns how many bytes it wrote and `::send` how many it took, and neither number is kept.
`handleMessage` concludes from an empty C string that the stream has ended, which a message that
starts with a NUL looks like as well. `sendMessage` looks at the sign only, so a message that was
taken in part counts as sent. -/

namespace SctpSandbox

open Call

namespace SocketTcp

variable {mtx : Mutex} {s : SocketTcp} {fd : FD} {peer : TcpPeer} {io : TcpAnswers}
  {data : List Byte} {msg : ChatMessage} {k : FD → ℕ}

/-! ## The end of the stream -/

/-- `handleMessage` takes the connection for shut down: the peer is removed and its fd closed. On a
mutex that is not recursive the call hangs on the way to that. -/
def ShutsDown (mtx : Mutex) (s : SocketTcp) (fd : FD) (peer : TcpPeer) (io : TcpAnswers) : Prop :=
  match mtx with
  | .recursive => ∃ s', handleMessage .recursive fd io ⟨s, false⟩ = .ok () ⟨s', false⟩ ∧
      s'.peers = s.peers.erase fd ∧ s'.calls = peer.fd.destroy s.calls
  | .plain => ∃ g, handleMessage .plain fd io ⟨s, false⟩ = .error .deadlock g

/-- The C string of some bytes is empty if there are none, or the first is a NUL. -/
theorem cStr_eq_nil_iff : cStr data = [] ↔ data = [] ∨ data.head? = some 0 := by
  cases data with
  | nil => exact iff_of_true rfl (.inl rfl)
  | cons b rest =>
      -- the first byte decides
      rw [cStr, List.takeWhile_cons]
      by_cases hb : b = 0
      · subst hb
        exact iff_of_true rfl (.inr rfl)
      · rw [if_pos (by simpa using hb)]
        refine iff_of_false (List.cons_ne_nil _ _) ?_
        rintro (hnil | hhead)
        · exact List.cons_ne_nil _ _ hnil
        · exact hb (Option.some.inj hhead)

/-- The log line of a message removes nobody. -/
theorem not_shutsDown_of_logMessage (hp : s.peers.lookup fd = some peer)
    (h : handleMessage mtx fd io ⟨s, false⟩ =
      logMessage io ⟨s.received peer.msgBuffer data, false⟩) : ¬ ShutsDown mtx s fd peer io := by
  -- a log line keeps the table, so it can be no shutdown
  have hlog : ∀ g, logMessage io g = .ok () g ∨
      logMessage io g = .error (.exception .runtimeError) g := by
    intro g
    cases hname : io.peername with
    | true => exact .inl (logMessage_ok hname g)
    | false => exact .inr (logMessage_error hname g)
  have hreceived := hlog ⟨s.received peer.msgBuffer data, false⟩
  rw [← h] at hreceived
  cases mtx with
  | plain =>
      rintro ⟨g, hhung⟩
      rcases hreceived with hok | herror
      · exact absurd (hok.symm.trans hhung) (by simp)
      · exact absurd (herror.symm.trans hhung) (by simp)
  | recursive =>
      rintro ⟨s', hshut, hpeers, -⟩
      rcases hreceived with hok | herror
      · -- the peer is still there
        have hsame := EStateM.Result.ok.inj (hok.symm.trans hshut)
        have hkept : s.peers = s'.peers := congrArg (fun g => g.object.peers) hsame.2
        rw [hpeers] at hkept
        have hgone : s.peers.lookup fd = none := by
          rw [hkept]
          exact AList.lookup_erase _ _
        exact absurd (hp.symm.trans hgone) (by simp)
      · exact absurd (herror.symm.trans hshut) (by simp)

/-- A message shuts the connection down exactly if its C string is empty. -/
theorem shutsDown_iff_cStr (hmain : fd ≠ s.fd.fd) (hp : s.peers.lookup fd = some peer)
    (hrecv : io.recv = .wrote data) : ShutsDown mtx s fd peer io ↔ cStr data = [] := by
  have hhandle : handleMessage mtx fd io ⟨s, false⟩ = _ := handleMessage_received hmain hp hrecv
  have hp' : (s.received peer.msgBuffer data).peers.lookup fd = some peer := hp
  by_cases hempty : cStr data = []
  · rw [if_pos hempty] at hhandle
    refine iff_of_true ?_ hempty
    cases mtx with
    | plain => exact ⟨_, hhandle.trans (handleGracefulShutdown_plain hp')⟩
    | recursive => exact ⟨_, hhandle.trans (handleGracefulShutdown_ok hp'), rfl, rfl⟩
  · rw [if_neg hempty] at hhandle
    exact iff_of_false (not_shutsDown_of_logMessage hp hhandle) hempty

/-- **A shutdown means the end of the stream exactly if no NUL is in front of the bytes received**:
a connection is taken for shut down exactly if `recv` has returned 0. -/
theorem shutsDown_iff_eof_iff (mtx : Mutex) (data : List Byte) (hmain : fd ≠ s.fd.fd)
    (hp : s.peers.lookup fd = some peer) (hrecv : io.recv = .wrote data) :
    (ShutsDown mtx s fd peer io ↔ io.recv.callResult.result = 0) ↔ data.head? ≠ some 0 := by
  have heof : io.recv.callResult.result = 0 ↔ data = [] := by
    rw [hrecv]
    exact Int.natCast_eq_zero.trans List.length_eq_zero_iff
  rw [shutsDown_iff_cStr hmain hp hrecv, heof, cStr_eq_nil_iff]
  constructor
  · intro h hnul
    rw [h.mp (.inr hnul)] at hnul
    exact absurd hnul (by simp)
  · exact fun hnul => or_iff_left hnul

/-- The end of the stream, and a message. -/
theorem shutsDown_sample :
    (ShutsDown .recursive acceptedSocket 4 sampleEntry ⟨.failed, 0, .wrote [], true⟩ ↔
      (RecvCall.wrote []).callResult.result = 0) ∧
    (ShutsDown .recursive acceptedSocket 4 sampleEntry (helloAnswers true) ↔
      (RecvCall.wrote (ascii "hello")).callResult.result = 0) :=
  ⟨(shutsDown_iff_eof_iff .recursive [] (by decide) lookup_acceptedSocket rfl).mpr (by decide),
    (shutsDown_iff_eof_iff .recursive (ascii "hello") (by decide) lookup_acceptedSocket rfl).mpr
      (by decide)⟩

/-- **A message that starts with a NUL** closes the connection, on either kind of mutex. -/
theorem not_shutsDown_iff_eof :
    (¬ (ShutsDown .plain acceptedSocket 4 sampleEntry ⟨.failed, 0, .wrote [0, 104], true⟩ ↔
      (RecvCall.wrote [0, 104]).callResult.result = 0)) ∧
    ¬ (ShutsDown .recursive acceptedSocket 4 sampleEntry ⟨.failed, 0, .wrote [0, 104], true⟩ ↔
      (RecvCall.wrote [0, 104]).callResult.result = 0) := by
  have hcloses : ∀ mtx, ¬ (ShutsDown mtx acceptedSocket 4 sampleEntry
      ⟨.failed, 0, .wrote [0, 104], true⟩ ↔ (RecvCall.wrote [0, 104]).callResult.result = 0) := by
    intro mtx heof
    have hshut : ShutsDown mtx acceptedSocket 4 sampleEntry ⟨.failed, 0, .wrote [0, 104], true⟩ :=
      (shutsDown_iff_cStr (by decide) lookup_acceptedSocket rfl).mpr (by decide)
    exact absurd (heof.mp hshut) (by decide)
  exact ⟨hcloses .plain, hcloses .recursive⟩

/-! ## Short writes -/

/-- The fds on which `checkSend` does not throw, when `::send` returns `k`. -/
def taken (k : FD → ℕ) (fd : FD) : Bool := !failedSend { result := k fd }

/-- What a call has added to the stream on `fd`, when `::send` takes as many bytes as it returns. -/
def extension (k : FD → ℕ) (fd : FD) (s s' : SocketTcp) : List Byte :=
  (TcpConnection.messagesOn fd (s'.sent.take (s'.sent.length - s.sent.length))).flatMap
    fun msg => msg.take (k fd)

/-- If the call returns, the stream of every peer is extended by the whole message. -/
def SendsAll (send : TcpCall Unit) (k : FD → ℕ) (msg : ChatMessage) (s : SocketTcp) : Prop :=
  ∀ s', send ⟨s, false⟩ = .ok () ⟨s', false⟩ → ∀ fd ∈ s.entryFds, extension k fd s s' = msg

/-- No result of `::send` is negative. -/
theorem taken_eq_true (k : FD → ℕ) (fd : FD) : taken k fd = true := by
  have hresult : ¬ ((k fd : ℕ) : ℤ) < 0 := Int.not_lt.mpr (Int.natCast_nonneg _)
  rw [taken, failedSend, decide_eq_false hresult]
  rfl

/-- Every entry is filed under the fd it holds, as `emplace(fd, …)` files it. -/
def FiledByFd (s : SocketTcp) : Prop := ∀ fd peer, s.peers.lookup fd = some peer → peer.fd.fd = fd

/-- The peers have different fds. -/
theorem FiledByFd.entryFds_nodup (h : s.FiledByFd) : s.entryFds.Nodup := by
  have hkeys : s.entryFds = s.peers.keys := by
    refine List.map_congr_left fun p hp => ?_
    exact h p.1 p.2 (AList.mem_lookup_iff.mpr hp)
  rw [hkeys]
  exact s.peers.keys_nodup

/-- A peer that has been attempted once got as much as `::send` took. -/
theorem extension_attempted {fds : List FD} (hfds : fds.Nodup) (hmem : fd ∈ fds) :
    extension k fd s (s.attempted msg fds) = msg.take (k fd) := by
  -- the lines added are those of the loop, one for each descriptor
  have hlines : (s.attempted msg fds).sent.take
      ((s.attempted msg fds).sent.length - s.sent.length) =
        (fds.map fun fd => (fd, msg)).reverse := by
    simp only [attempted, List.length_append, Nat.add_sub_cancel, List.take_left]
  have hone : TcpConnection.messagesOn fd ((fds.map fun fd => (fd, msg)).reverse) = [msg] := by
    rw [TcpConnection.messagesOn, List.filter_reverse, List.map_reverse, List.reverse_reverse,
      List.filter_map, List.map_map]
    have hfilter : fds.filter ((fun line : FD × ChatMessage => decide (line.1 = fd)) ∘
        fun fd => (fd, msg)) = [fd] := by
      have heq := List.filter_eq (l := fds) fd
      rw [List.count_eq_one_of_mem hfds hmem] at heq
      exact heq
    rw [hfilter]
    rfl
  rw [extension, hlines, hone, List.flatMap_singleton]

/-- A call that attempts every peer and returns sends all exactly if no write is short. -/
theorem sendsAll_iff_of_isolates {send : TcpCall Unit} (h : s.FiledByFd)
    (hk : ∀ fd ∈ s.entryFds, k fd ≤ msg.length)
    (hsend : Isolates (attempted msg) s.entryFds send ⟨s, false⟩) :
    SendsAll send k msg s ↔ ∀ fd ∈ s.entryFds, k fd = msg.length := by
  obtain ⟨fds, hperm, hreturns⟩ := hsend
  have hext : ∀ fd ∈ s.entryFds, extension k fd s (s.attempted msg fds) = msg.take (k fd) := by
    intro fd hfd
    exact extension_attempted (hperm.nodup_iff.mpr h.entryFds_nodup) (hperm.mem_iff.mpr hfd)
  constructor
  · intro hall fd hfd
    -- the whole message was taken where its prefix is all of it
    have hwhole := (hext fd hfd).symm.trans (hall _ hreturns fd hfd)
    exact le_antisymm (hk fd hfd) ((List.take_eq_self_iff _).mp hwhole)
  · intro hwhole s' hs' fd hfd
    obtain rfl : s.attempted msg fds = s' :=
      congrArg Guarded.object (EStateM.Result.ok.inj (hreturns.symm.trans hs')).2
    rw [hext fd hfd, hwhole fd hfd, List.take_length]

end SocketTcp

open SocketTcp

/-- **A `send` that returns is complete exactly if no `::send` takes less than it is given**, on a
`SocketTcp` and on a `SocketDccp`. -/
theorem sendsAll_iff (mtx : Mutex) (msg : ChatMessage) {s : SocketTcp} {k : FD → ℕ}
    (h : s.FiledByFd) (hk : ∀ fd ∈ s.entryFds, k fd ≤ msg.length) :
    (SendsAll (SocketTcp.send mtx (taken k) msg) k msg s ↔
      ∀ fd ∈ s.entryFds, k fd = msg.length) ∧
    (SendsAll (SocketDccp.send mtx (taken k) msg) k msg s ↔
      ∀ fd ∈ s.entryFds, k fd = msg.length) :=
  ⟨sendsAll_iff_of_isolates h hk
      (SocketTcp.isolates_send_iff.mpr fun fd _ => taken_eq_true k fd),
    sendsAll_iff_of_isolates h hk (SocketDccp.isolates_send mtx (taken k) msg s)⟩

/-- A message of five bytes that both peers take whole; and that is not sent completely if the
second takes only three of them. -/
theorem sendsAll_sample :
    (SendsAll (SocketTcp.send .plain (taken fun _ => 5) (ascii "hello")) (fun _ => 5)
        (ascii "hello") sampleConnected ∧
      SendsAll (SocketDccp.send .plain (taken fun _ => 5) (ascii "hello")) (fun _ => 5)
        (ascii "hello") sampleConnected) ∧
    ¬ SendsAll (SocketTcp.send .plain (taken fun fd => if fd = 5 then 3 else 5) (ascii "hello"))
        (fun fd => if fd = 5 then 3 else 5) (ascii "hello") sampleConnected := by
  have hentries : ∀ e ∈ sampleConnected.peers.entries, e.2.fd.fd = e.1 := by decide
  have hfiled : sampleConnected.FiledByFd := fun fd peer hpeer =>
    hentries ⟨fd, peer⟩ (AList.mem_lookup_iff.mp hpeer)
  obtain ⟨htcp, hdccp⟩ := sendsAll_iff .plain (ascii "hello") (k := fun _ => 5) hfiled
    fun _ _ => by decide
  have hshort := sendsAll_iff .plain (ascii "hello") (k := fun fd => if fd = 5 then 3 else 5) hfiled
    (by decide)
  exact ⟨⟨htcp.mpr fun _ _ => rfl, hdccp.mpr fun _ _ => rfl⟩,
    fun hall => absurd (hshort.1.mp hall 5 (by decide)) (by decide)⟩

/-- **A short write** of two of five bytes is a success. -/
theorem not_sendsAll :
    (¬ SendsAll (SocketTcp.send .plain (taken fun _ => 2) (ascii "hello")) (fun _ => 2)
        (ascii "hello") acceptedSocket) ∧
      ¬ SendsAll (SocketDccp.send .plain (taken fun _ => 2) (ascii "hello")) (fun _ => 2)
        (ascii "hello") acceptedSocket := by
  have hshort : ∀ send, Isolates (SocketTcp.attempted (ascii "hello")) acceptedSocket.entryFds send
      ⟨acceptedSocket, false⟩ → ¬ SendsAll send (fun _ => 2) (ascii "hello") acceptedSocket := by
    intro send hsend hall
    have hwhole := (sendsAll_iff_of_isolates consistent_acceptedSocket.key
      (fun _ _ => by decide) hsend).mp hall 4 (by decide)
    exact absurd hwhole (by decide)
  refine ⟨hshort _ (SocketTcp.isolates_send_iff.mpr fun fd _ => taken_eq_true _ fd),
    hshort _ (SocketDccp.isolates_send ..)⟩

end SctpSandbox

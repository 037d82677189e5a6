import SctpSandbox.RegisteredFds

/-! # The fds of a socket, from its construction to its destruction

An fd that the kernel opens for a `SocketTcp` or a `SocketSctp` is owned by the main socket, by a
peer, or by a local object of one call, which closes it again. So between the calls the open fds are
exactly those that `selectFds` puts into its set, and the destructor of the socket closes them all:
none leaks and none is closed twice, in any run, with reconnects, failed calls and exceptions
(`TcpSystem.tcpFds_of_run`, `SctpSystem.sctpFds_of_run`). -/

namespace SctpSandbox

open Call
open FdObjects (ClosesOpen EveryAdoptedClosed NoSecondClose)

/-- The kernel hands out numbers that are not open. -/
def HandsOutFree : List FdCall → Prop
  | [] => True
  | .adopted n :: calls => (0 ≤ n ∧ isOpen n calls = false) ∧ HandsOutFree calls
  | .closed _ :: calls => HandsOutFree calls

/-- Closing hands out nothing. -/
theorem handsOutFree_destroy (x : FileDescriptor) (calls : List FdCall) :
    HandsOutFree (x.destroy calls) ↔ HandsOutFree calls := by
  rw [FileDescriptor.destroy]
  by_cases h : x.shouldClose = true ∧ ¬ x.fd = FileDescriptor.invalidFd
  · rw [FileDescriptor.close_of_closes h]
    exact Iff.rfl
  · rw [FileDescriptor.close_of_not_closes h]
    exact Iff.rfl

/-- Every fd was closed as often as it was opened. -/
def ClosedAsOften (calls : List FdCall) : Prop :=
  ∀ n, calls.count (.closed n) = calls.count (.adopted n)

/-- As long as only closed fds are opened and only open ones closed, an fd was opened once more than
it was closed, or as often, depending on whether it is open. -/
theorem count_adopted {calls : List FdCall} (hkernel : HandsOutFree calls)
    (hcloses : ClosesOpen calls) (n : FD) :
    calls.count (.adopted n) =
      calls.count (.closed n) + if isOpen n calls = true then 1 else 0 := by
  induction calls with
  | nil => rfl
  | cons call calls ih =>
      cases call with
      -- an adopted descriptor was not open before
      | adopted m =>
          have ih' := ih hkernel.2 hcloses
          by_cases hm : m = n
          · subst hm
            have hclosed : isOpen m calls = false := hkernel.1.2
            simp [isOpen, hclosed] at ih' ⊢
            exact ih'
          · simpa [isOpen, hm] using ih'
      -- a closed descriptor was open before
      | closed m =>
          have ih' := ih hkernel hcloses.2
          by_cases hm : m = n
          · subst hm
            have hopen : isOpen m calls = true := hcloses.1
            simp [isOpen, hopen] at ih' ⊢
            exact ih'
          · simpa [isOpen, hm] using ih'

/-- If no fd is open, each was closed as often as it was opened. -/
theorem closedAsOften_of_not_isOpen {calls : List FdCall} (hkernel : HandsOutFree calls)
    (hcloses : ClosesOpen calls) (hopen : ∀ n, isOpen n calls = false) : ClosedAsOften calls := by
  intro n
  have hcount := count_adopted hkernel hcloses n
  rw [hopen n, if_neg Bool.false_ne_true, Nat.add_zero] at hcount
  exact hcount.symm

namespace PeerTable

variable {κ : Type} {t : PeerTable κ} {k k' : κ} {n m : FD} {b : Buffer} {peer : PeerSocket}

/-- The fd is that of the main socket or of a peer. -/
def Owns (t : PeerTable κ) (n : FD) : Prop :=
  n = t.mainFd ∨ ∃ k peer, t.entry k = some peer ∧ peer.fd.fd = n

/-- Exactly the fds that the table owns are open, each has one owner, and so far only open fds were
closed. -/
structure Owning (t : PeerTable κ) : Prop where
  owner : ∀ k peer, t.entry k = some peer → peer.fd = { fd := peer.fd.fd } ∧ 0 ≤ peer.fd.fd
  mainFd : ∀ k peer, t.entry k = some peer → peer.fd.fd ≠ t.mainFd
  fds : t.Separates fun peer => peer.fd.fd
  isOpen_iff : ∀ n, isOpen n t.calls = true ↔ t.Owns n
  closesOpen : ClosesOpen t.calls

/-- A descriptor that is not open has no owner in the table. -/
theorem Owning.not_owns (h : t.Owning) (hn : isOpen n t.calls = false) : ¬ t.Owns n := by
  intro howns
  rw [(h.isOpen_iff n).mpr howns] at hn
  exact Bool.noConfusion hn

/-- A new fd closed again changes nothing. -/
theorem Owning.drop (h : t.Owning) (hn : FdFree n t) : (t.drop n).Owning := by
  have hcalls : (t.drop n).calls = .closed n :: .adopted n :: t.calls :=
    FileDescriptor.destroy_owner hn.1 _
  refine ⟨h.owner, h.mainFd, h.fds, fun m => ?_, ?_⟩
  · rw [hcalls, isOpen_closed, isOpen_adopted, h.isOpen_iff]
    constructor
    · rintro ⟨hne, heq | howns⟩
      · exact absurd heq hne
      · exact howns
    · -- `n` was free, so nobody owned it before
      intro howns
      refine ⟨?_, .inr howns⟩
      rintro rfl
      exact h.not_owns hn.2 howns
  · rw [hcalls]
    exact ⟨isOpen_adopted.mpr (.inl rfl), h.closesOpen⟩

section Update

variable [DecidableEq κ]

/-- A new entry owns its descriptor beside what was owned before. -/
theorem owns_enter (hk : t.entry k = none) : (t.enter k n b).Owns m ↔ m = n ∨ t.Owns m := by
  constructor
  · rintro (hmain | ⟨k', peer, hp, hm⟩)
    · exact .inr (.inl hmain)
    · rcases entry_enter hp with ⟨-, rfl⟩ | hp
      · exact .inl hm.symm
      · exact .inr (.inr ⟨k', peer, hp, hm⟩)
  · rintro (rfl | hmain | ⟨k', peer, hp, hm⟩)
    · exact .inr ⟨k, _, entry_enter_self t k, rfl⟩
    · exact .inl hmain
    · -- the key of an old peer was taken
      have hne : k' ≠ k := by
        rintro rfl
        exact absurd (hk.symm.trans hp) (Option.some_ne_none peer).symm
      exact .inr ⟨k', peer, (entry_enter_ne t hne).trans hp, hm⟩

/-- **A peer with a new fd under a free key.** -/
theorem Owning.enter (h : t.Owning) (hn : FdFree n t) (hk : t.entry k = none) (b : Buffer) :
    (t.enter k n b).Owning := by
  have hfree := h.not_owns hn.2
  refine ⟨fun k' peer hp => ?_, fun k' peer hp => ?_, h.fds.enter fun k' peer hp heq => ?_,
    fun m => ?_, h.closesOpen⟩
  · rcases entry_enter hp with ⟨-, rfl⟩ | hp
    · exact ⟨rfl, hn.1⟩
    · exact h.owner k' peer hp
  · rcases entry_enter hp with ⟨-, rfl⟩ | hp
    · exact fun heq => hfree (.inl heq)
    · exact h.mainFd k' peer hp
  · exact hfree (.inr ⟨k', peer, hp, heq⟩)
  · -- what is open now is `n` and what was open before
    have hopen : isOpen m (t.enter k n b).calls = true ↔ n = m ∨ isOpen m t.calls = true :=
      isOpen_adopted
    rw [hopen, owns_enter hk, h.isOpen_iff, eq_comm]

/-- **A peer destroyed.** -/
theorem Owning.erase (h : t.Owning) (hp : t.entry k = some peer) : (t.erase k peer).Owning := by
  obtain ⟨howner, hn⟩ := h.owner k peer hp
  have hcalls : (t.erase k peer).calls = .closed peer.fd.fd :: t.calls := by
    have heq : (t.erase k peer).calls = peer.fd.destroy t.calls := rfl
    rw [heq, howner, FileDescriptor.destroy_owner hn]
  refine ⟨fun k' peer' hp' => h.owner k' peer' (entry_erase hp').2,
    fun k' peer' hp' => h.mainFd k' peer' (entry_erase hp').2, h.fds.erase, fun m => ?_, ?_⟩
  · rw [hcalls, isOpen_closed, h.isOpen_iff]
    constructor
    · rintro ⟨hne, hmain | ⟨k', peer', hp', hm⟩⟩
      · exact .inl hmain
      · have hk : k' ≠ k := by
          rintro rfl
          obtain rfl := Option.some.inj (hp.symm.trans hp')
          exact hne hm
        exact .inr ⟨k', peer', (entry_erase_ne t hk).trans hp', hm⟩
    · rintro (hmain | ⟨k', peer', hp', hm⟩)
      · have hmain' : m = t.mainFd := hmain
        exact ⟨fun heq => h.mainFd k peer hp (heq.trans hmain'), .inl hmain'⟩
      · obtain ⟨hne, hp'⟩ := entry_erase hp'
        -- the fd closed is that of no other peer
        refine ⟨fun heq => hne ?_, .inr ⟨k', peer', hp', hm⟩⟩
        exact h.fds k' k peer' peer hp' hp (hm.trans heq.symm)
  · rw [hcalls]
    exact ⟨(h.isOpen_iff _).mpr (.inr ⟨k, peer, hp, rfl⟩), h.closesOpen⟩

end Update

/-- As long as the kernel hands out free numbers, the table owns what is open. -/
def OwnsAll (t : PeerTable κ) : Prop := HandsOutFree t.calls → t.Owning

/-- Every object of the table stays an owner when a temporary is dropped. -/
theorem OwnsAll.drop (h : t.OwnsAll) (n : FD) : (t.drop n).OwnsAll := by
  intro hkernel
  obtain ⟨hn, hcalls⟩ := (handsOutFree_destroy _ _).mp hkernel
  exact (h hcalls).drop hn

/-- Every object of the table stays an owner when an entry is made. -/
theorem OwnsAll.enter [DecidableEq κ] (h : t.OwnsAll) (hk : t.entry k = none) (n : FD)
    (b : Buffer) : (t.enter k n b).OwnsAll :=
  fun hkernel => (h hkernel.2).enter hkernel.1 hk b

/-- Every object of the table stays an owner when an entry is erased. -/
theorem OwnsAll.erase [DecidableEq κ] (h : t.OwnsAll) (hp : t.entry k = some peer) :
    (t.erase k peer).OwnsAll :=
  fun hkernel => (h ((handsOutFree_destroy _ _).mp hkernel)).erase hp

/-- A socket just constructed owns its main socket only. -/
theorem ownsAll_constructed (hempty : ∀ k, t.entry k = none) (hcalls : t.calls = [.adopted n])
    (hmain : t.mainFd = n) : t.OwnsAll := by
  intro _
  -- there is no entry to say anything about
  have hnone : ∀ k peer, t.entry k ≠ some peer := fun k peer hp =>
    Option.some_ne_none peer (hp.symm.trans (hempty k))
  refine ⟨fun k peer hp => absurd hp (hnone k peer), fun k peer hp => absurd hp (hnone k peer),
    fun k _ peer _ hp => absurd hp (hnone k peer), fun m => ?_, ?_⟩
  · rw [hcalls, isOpen_adopted]
    constructor
    · rintro (rfl | hopen)
      · exact .inl hmain.symm
      · exact absurd hopen Bool.false_ne_true
    · rintro (rfl | ⟨k, peer, hp, -⟩)
      · exact .inl hmain.symm
      · exact absurd hp (hnone k peer)
  · rw [hcalls]
    trivial

end PeerTable

/-! ## Destructors -/

/-- The destructors of some `FileDescriptor`s, one after the other. -/
def destroyAll (fds : List FileDescriptor) (calls : List FdCall) : List FdCall :=
  fds.foldl (fun calls fd => fd.destroy calls) calls

/-- Closing hands nothing out, so it leaves the kernel's promise as it was. -/
theorem handsOutFree_destroyAll (fds : List FileDescriptor) (calls : List FdCall) :
    HandsOutFree (destroyAll fds calls) ↔ HandsOutFree calls := by
  induction fds generalizing calls with
  | nil => exact Iff.rfl
  | cons fd fds ih => exact (ih (fd.destroy calls)).trans (handsOutFree_destroy fd calls)

/-- Owners of different open fds close them, and nothing else. -/
theorem destroyAll_owners {ns : List FD} {calls : List FdCall} (hnodup : ns.Nodup)
    (hvalid : ∀ n ∈ ns, 0 ≤ n) (hopen : ∀ n ∈ ns, isOpen n calls = true)
    (hcloses : ClosesOpen calls) :
    ClosesOpen (destroyAll (ns.map fun n => { fd := n }) calls) ∧
      ∀ m, isOpen m (destroyAll (ns.map fun n => { fd := n }) calls) = true ↔
        isOpen m calls = true ∧ m ∉ ns := by
  induction ns generalizing calls with
  | nil => exact ⟨hcloses, fun m => by simp [destroyAll]⟩
  | cons n ns ih =>
      obtain ⟨hn, hnodup⟩ := List.nodup_cons.mp hnodup
      have hclosed : FileDescriptor.destroy { fd := n } calls = .closed n :: calls :=
        FileDescriptor.destroy_owner (hvalid n List.mem_cons_self) calls
      -- the fd closed first is none of the others
      have hstill : ∀ m ∈ ns, isOpen m (.closed n :: calls) = true := fun m hm =>
        isOpen_closed.mpr ⟨fun heq => hn (heq ▸ hm), hopen m (List.mem_cons_of_mem n hm)⟩
      obtain ⟨hcloses', hiff⟩ := ih hnodup (fun m hm => hvalid m (List.mem_cons_of_mem n hm)) hstill
        ⟨hopen n List.mem_cons_self, hcloses⟩
      rw [List.map_cons, destroyAll, List.foldl_cons, hclosed]
      refine ⟨hcloses', fun m => (hiff m).trans ?_⟩
      rw [isOpen_closed, List.mem_cons, not_or, ne_comm]
      tauto

namespace PeerTable

variable {κ π : Type} [DecidableEq κ] {socket : π → PeerSocket} {peers : AList fun _ : κ => π}
  {mainFd n : FD} {mainBuffer : Buffer} {calls : List FdCall}

/-- The fds of the peers in a map. -/
def peerFds (socket : π → PeerSocket) (peers : AList fun _ : κ => π) : List FD :=
  peers.entries.map fun p => (socket p.2).fd.fd

/-- The peers' descriptors are those of the sockets in the table. -/
theorem mem_peerFds : n ∈ peerFds socket peers ↔
    ∃ k p, peers.lookup k = some p ∧ (socket p).fd.fd = n := by
  rw [peerFds, List.mem_map]
  constructor
  · rintro ⟨⟨k, p⟩, hmem, hn⟩
    exact ⟨k, p, AList.mem_lookup_iff.mpr hmem, hn⟩
  · rintro ⟨k, p, hp, hn⟩
    exact ⟨⟨k, p⟩, AList.mem_lookup_iff.mp hp, hn⟩

/-- The table owns the main descriptor and the peers', nothing else. -/
theorem owns_ofPeers : (ofPeers socket peers mainFd mainBuffer calls).Owns n ↔
    n ∈ mainFd :: peerFds socket peers := by
  rw [List.mem_cons, mem_peerFds, Owns]
  refine or_congr Iff.rfl ⟨?_, ?_⟩
  · rintro ⟨k, peer, hp, hn⟩
    obtain ⟨p, hlookup, rfl⟩ := Option.map_eq_some_iff.mp hp
    exact ⟨k, p, hlookup, hn⟩
  · rintro ⟨k, p, hp, hn⟩
    exact ⟨k, socket p, entry_ofPeers hp, hn⟩

/-- The main socket and the peers have different fds. -/
theorem Owning.nodup (h : (ofPeers socket peers mainFd mainBuffer calls).Owning) :
    (mainFd :: peerFds socket peers).Nodup := by
  refine List.nodup_cons.mpr ⟨fun hmem => ?_, ?_⟩
  · obtain ⟨k, p, hp, hn⟩ := mem_peerFds.mp hmem
    exact h.mainFd k (socket p) (entry_ofPeers hp) hn
  · refine List.Nodup.map_on (fun x hx y hy heq => ?_) peers.nodupKeys.nodup
    have hentry : ∀ z ∈ peers.entries,
        (ofPeers socket peers mainFd mainBuffer calls).entry z.1 = some (socket z.2) :=
      fun z hz => entry_ofPeers (AList.mem_lookup_iff.mpr hz)
    -- two entries with one descriptor have one key, and so are one entry
    have hk : x.1 = y.1 :=
      h.fds x.1 y.1 (socket x.2) (socket y.2) (hentry x hx) (hentry y hy) heq
    obtain ⟨k, p⟩ := x
    obtain ⟨k', p'⟩ := y
    obtain rfl : k = k' := hk
    have hp : p = p' := Option.some.inj
      ((AList.mem_lookup_iff.mpr hx).symm.trans (AList.mem_lookup_iff.mpr hy))
    rw [hp]

/-- **Destroying the owners of a table closes every fd**, each as often as it was opened. The peers
are members of the derived class, so the main socket is the last. -/
theorem Owning.destroyed (h : (ofPeers socket peers mainFd mainBuffer calls).Owning)
    (hmain : 0 ≤ mainFd) (hkernel : HandsOutFree calls) {log : List FdCall}
    (hlog : log = FileDescriptor.destroy { fd := mainFd }
      (destroyAll (peers.entries.map fun p => (socket p.2).fd) calls)) :
    EveryAdoptedClosed log ∧ NoSecondClose log ∧ ClosesOpen log ∧ ClosedAsOften log := by
  have hkernel' : HandsOutFree log := by
    rw [hlog, handsOutFree_destroy, handsOutFree_destroyAll]
    exact hkernel
  subst hlog
  obtain ⟨hnotMem, hnodup⟩ := List.nodup_cons.mp h.nodup
  have howners : (peers.entries.map fun p => (socket p.2).fd) =
      (peerFds socket peers).map fun n => { fd := n } := by
    rw [peerFds, List.map_map]
    refine List.map_congr_left fun x hx => ?_
    have hlookup : peers.lookup x.1 = some x.2 := AList.mem_lookup_iff.mpr hx
    exact (h.owner x.1 (socket x.2) (entry_ofPeers hlookup)).1
  have hpeer : ∀ n ∈ peerFds socket peers, 0 ≤ n ∧ isOpen n calls = true := by
    intro n hn
    obtain ⟨k, p, hp, rfl⟩ := mem_peerFds.mp hn
    have hentry : (ofPeers socket peers mainFd mainBuffer calls).entry k = some (socket p) :=
      entry_ofPeers hp
    exact ⟨(h.owner k _ hentry).2, (h.isOpen_iff _).mpr (.inr ⟨k, _, hentry, rfl⟩)⟩
  rw [howners] at hkernel' ⊢
  obtain ⟨hcloses, hiff⟩ := destroyAll_owners hnodup (fun n hn => (hpeer n hn).1)
    (fun n hn => (hpeer n hn).2) h.closesOpen
  rw [FileDescriptor.destroy_owner hmain] at hkernel' ⊢
  have hall : ClosesOpen (.closed mainFd ::
      destroyAll ((peerFds socket peers).map fun n => { fd := n }) calls) :=
    ⟨(hiff mainFd).mpr ⟨(h.isOpen_iff mainFd).mpr (.inl rfl), hnotMem⟩, hcloses⟩
  have hnone : ∀ n, isOpen n (.closed mainFd ::
      destroyAll ((peerFds socket peers).map fun n => { fd := n }) calls) = false := by
    -- an fd still open would be owned by neither
    intro n
    rw [← Bool.not_eq_true, isOpen_closed, hiff]
    rintro ⟨hne, hopen, hnot⟩
    rcases List.mem_cons.mp (owns_ofPeers.mp ((h.isOpen_iff n).mp hopen)) with heq | hmem
    · exact hne heq.symm
    · exact hnot hmem
  exact ⟨FdObjects.everyAdoptedClosed_of_not_isOpen hnone,
    FdObjects.noSecondClose_of_closesOpen hall,
    hall, closedAsOften_of_not_isOpen hkernel' hall hnone⟩

end PeerTable

/-! ## `SocketTcp` -/

namespace SocketTcp

variable {mtx : Mutex} {s : SocketTcp} {io : TcpAnswers}

/-- The fds are in order, as long as the kernel hands out free numbers. -/
def OwnsAll (s : SocketTcp) : Prop := s.peerTable.OwnsAll

/-- The log of the fds when the socket has been destroyed. -/
def destroyed (s : SocketTcp) : List FdCall :=
  s.fd.destroy (destroyAll (s.peers.entries.map fun p => p.2.fd) s.calls)

/-- A descriptor without a peer has no entry. -/
theorem entry_none {n : FD} (hn : n ∉ s.peers) : s.peerTable.entry n = none :=
  PeerTable.entry_ofPeers_none (AList.lookup_eq_none.mpr hn)

/-- **An fd just opened is entered**, or closed again when its key is taken. -/
theorem ownsAll_emplace (h : s.OwnsAll) (held : Bool) (n : FD) (buffer : Buffer)
    (remote : IPSocket) (reestablish : Bool) :
    (after (emplace n ⟨{ fd := n }, buffer, remote, reestablish⟩
      ⟨{ s with calls := .adopted n :: s.calls }, held⟩)).object.OwnsAll := by
  by_cases hn : n ∈ s.peers
  · rw [emplace_taken (s := { s with calls := .adopted n :: s.calls }) hn]
    exact h.drop n
  · rw [emplace_new (s := { s with calls := .adopted n :: s.calls }) hn]
    have hentered := PeerTable.OwnsAll.enter h (entry_none hn) n buffer
    rwa [← peerTable_entered] at hentered

/-- **A connection made or attempted.** Its fd is entered into the table, or closed again. -/
theorem ownsAll_connectOne (remote : IPSocket) (answer : ConnectAnswer) :
    Keeps OwnsAll (connectOne remote answer) := by
  intro g hg
  by_cases h : answer.Succeeds
  · obtain ⟨n, hs⟩ := Option.isSome_iff_exists.mp h.1
    rw [connectOne_succeeds hs h]
    exact ownsAll_emplace hg g.held n answer.buffer remote true
  · -- a connect that fails has closed what it opened
    unfold connectOne createConnectSocket
    cases hs : answer.socket with
    | none => exact hg
    | some n =>
        cases hconf : answer.configured with
        | false => exact hg.drop n
        | true =>
            cases hconn : answer.connected with
            | false => exact hg.drop n
            | true => exact absurd ⟨by rw [hs]; rfl, hconf, hconn⟩ h

/-- **A connection accepted.** -/
theorem ownsAll_handleCommUp (io : TcpAnswers) : Keeps OwnsAll (handleCommUp mtx io) := by
  refine Keeps.withLock fun g hg => ?_
  cases ha : io.accept with
  | failed => exact hg
  | undecodable n => exact hg.drop n
  | accepted n remote =>
      have haccept : accept (.accepted n remote) g = .ok (({ fd := n } : FileDescriptor), remote)
        { g with object := { g.object with calls := .adopted n :: g.object.calls } } := rfl
      rw [bind_ok haccept]
      exact ownsAll_emplace hg g.held n io.buffer remote false

/-- **A peer removed.** -/
theorem ownsAll_remove (fd : FD) : Keeps OwnsAll (remove mtx fd) := by
  refine Keeps.withLock (keeps_modifyThis fun s hs => ?_)
  cases hp : s.peers.lookup fd with
  | none => exact hs
  | some peer =>
      have herased := PeerTable.OwnsAll.erase hs (entry_peerTable hp)
      rwa [← peerTable_erased] at herased

/-- **Every call keeps the fds in order**, however it ends. -/
theorem kept_ownsAll : Kept mtx OwnsAll where
  frame _ _ _ _ hs := hs
  connectOne := ownsAll_connectOne
  handleCommUp := ownsAll_handleCommUp
  remove := ownsAll_remove

/-- The constructed socket owns its one descriptor. -/
theorem ownsAll_constructed (n : FD) : (constructed n).OwnsAll :=
  PeerTable.ownsAll_constructed (fun _ => rfl) rfl rfl

/-- What is watched is what is owned. -/
theorem mem_fdSet {m : FD} : m ∈ s.fdSet ↔ s.peerTable.Owns m := by
  rw [show s.peerTable.Owns m ↔ _ from PeerTable.owns_ofPeers, fdSet, List.mem_cons, List.mem_cons,
    mem_peerFds, PeerTable.peerFds, List.mem_map]
  exact Iff.rfl

/-- What the account says of a socket that listens: its open fds are those it selects from, and its
destructor closes every fd once. -/
theorem OwnsAll.fds {n : FD} (h : s.OwnsAll) (hmain : s.fd = { fd := n }) (hn : 0 ≤ n)
    (hkernel : HandsOutFree s.calls) : (∀ m, isOpen m s.calls = true ↔ m ∈ s.fdSet) ∧
      EveryAdoptedClosed s.destroyed ∧ NoSecondClose s.destroyed ∧ ClosesOpen s.destroyed ∧
      ClosedAsOften s.destroyed := by
  have howning := h hkernel
  have hfd : s.fd.fd = n := congrArg FileDescriptor.fd hmain
  refine ⟨fun m => (howning.isOpen_iff m).trans mem_fdSet.symm,
    PeerTable.Owning.destroyed howning (hfd.symm ▸ hn) hkernel ?_⟩
  rw [destroyed, hmain]
  rfl

end SocketTcp

namespace TcpSystem

variable {T : TaskScheduler IPSocket} {mtx : Mutex} {s : TcpSystem T} {P : SocketTcp → Prop}

/-- What every call keeps, the system keeps. -/
theorem keeps_perform (h : SocketTcp.Kept mtx P) (hs : P s.socket) (op : TcpOp) :
    P (s.perform mtx op).state.socket := by
  rw [state_perform]
  exact h.frame _ _ _ [] (h.call op ⟨s.socket, false⟩ hs)

/-- What the socket's functions keep is kept by the launch of a task. -/
theorem keeps_launchTask (h : SocketTcp.Kept mtx P) (hs : P s.socket)
    (a : T.Ptr × ConnectAnswer) : P (s.launchTask mtx a).state.socket := by
  obtain ⟨task, -, -, heq⟩ | ⟨-, heq⟩ := launchTask_cases mtx a s
  · rw [heq, Outcome.state_map]
    exact keeps_perform h hs (.connect [(task.function, a.2)])
  · rwa [heq]

/-- What the socket's functions keep is kept by every step of the system. -/
theorem keeps_step (h : SocketTcp.Kept mtx P) (hs : P s.socket) (e : TcpEvent T) :
    P (step mtx s e).state.socket := by
  cases e with
  | advance d => exact hs
  | call op =>
      have hlist : P (s.list op).socket := by
        rw [list_eq]
        exact hs
      rw [step, Outcome.state_map]
      exact keeps_perform h hlist op
  | launch order =>
      exact Outcome.forEach_state (P := fun s : TcpSystem T => P s.socket) hs
        fun a _ t ht => keeps_launchTask h ht a

/-- **No fd of a `SocketTcp` leaks or is closed twice.** In every run, with any calls, reconnects
and answers of the kernel, which hands out numbers that are not open: the open fds are exactly those
that `selectFds` watches, and when the socket is destroyed every fd ever opened has been closed,
each as often as it was opened. -/
theorem tcpFds_of_run (mtx : Mutex) (n : FD) {es : List (TcpEvent T)}
    (hrun : Run (step mtx) (fun _ _ => True) (initial T n) es s)
    (hn : 0 ≤ n) (hkernel : HandsOutFree s.socket.calls) :
    (∀ m, isOpen m s.socket.calls = true ↔ m ∈ s.socket.fdSet) ∧
      EveryAdoptedClosed s.socket.destroyed ∧ NoSecondClose s.socket.destroyed ∧
      ClosesOpen s.socket.destroyed ∧ ClosedAsOften s.socket.destroyed := by
  have h : s.socket.OwnsAll ∧ s.socket.ListensOn { fd := n } :=
    hrun.invariant_state (I := fun s => s.socket.OwnsAll ∧ s.socket.ListensOn { fd := n })
      ⟨SocketTcp.ownsAll_constructed n, rfl⟩ fun s e ⟨howns, hlistens⟩ _ =>
        ⟨keeps_step SocketTcp.kept_ownsAll howns e,
          keeps_step SocketTcp.kept_listensOn hlistens e⟩
  exact h.1.fds h.2 hn hkernel

/-- A socket that accepts a connection, loses it and connects to a remote in vain owns its listening
socket only. -/
theorem fds_three_sockets : ∃ s : TcpSystem (.table IPSocket),
    s.socket.calls = [.closed 5, .adopted 5, .closed 4, .adopted 4, .adopted 3] ∧
      isOpen 3 s.socket.calls = true ∧ EveryAdoptedClosed s.socket.destroyed ∧
      ClosedAsOften s.socket.destroyed := by
  -- 4 is lost with a failed receive, 5 is refused and closed again
  have hrun : ∃ s : TcpSystem (.table IPSocket),
      s.socket.calls = [.closed 5, .adopted 5, .closed 4, .adopted 4, .adopted 3] ∧
      s.socket.fd.fd = 3 ∧ Run (step .recursive) (fun _ _ => True) (initial (.table IPSocket) 3)
        [.call (.handleMessage 3 ⟨.accepted 4 SocketUdp.sampleRemote, 1, .failed .eintr, true⟩),
          .advance (seconds 1),
          .call (.handleMessage 4 ⟨.failed, 2, .failed .eintr, true⟩),
          .call (.connect [(SocketUdp.sampleRemote, ⟨some 5, true, false, 2⟩)])] s := by
    refine ⟨_, ?_, ?_, .cons trivial rfl (.cons trivial rfl (.cons trivial rfl
      (.threw trivial rfl)))⟩
    · rfl
    · rfl
  obtain ⟨s, hcalls, hmain, hrun⟩ := hrun
  -- none of the descriptors is handed out twice
  have hkernel : HandsOutFree s.socket.calls := by
    rw [hcalls]
    exact ⟨by decide, by decide, by decide, trivial⟩
  obtain ⟨hopen, hclosed, -, -, hoften⟩ := tcpFds_of_run .recursive 3 hrun (by decide) hkernel
  have hset : 3 ∈ s.socket.fdSet := hmain ▸ List.mem_cons_self
  exact ⟨s, hcalls, (hopen 3).mpr hset, hclosed, hoften⟩

end TcpSystem

/-! ## `SocketSctp` -/

namespace SocketSctp

variable {mtx : Mutex} {s : SocketSctp} {io : SctpAnswers}

/-- The fds are in order, as long as the kernel hands out free numbers. -/
def OwnsAll (s : SocketSctp) : Prop := s.peerTable.OwnsAll

/-- The log of the fds when the socket has been destroyed. -/
def destroyed (s : SocketSctp) : List FdCall :=
  s.fd.destroy (destroyAll (s.peers.entries.map fun p => p.2.fd) s.calls)

/-- **An fd just peeled off is entered**, or closed again when its key is taken. -/
theorem ownsAll_emplace (h : s.OwnsAll) (held : Bool) (id : AssocId) (n : FD) (buffer : Buffer) :
    (after (emplace id ⟨{ fd := n }, buffer⟩
      ⟨{ s with calls := .adopted n :: s.calls }, held⟩)).object.OwnsAll := by
  have hend : (after (emplace id ⟨{ fd := n }, buffer⟩
      ⟨{ s with calls := .adopted n :: s.calls }, held⟩)).object =
      if id ∈ s.peers then
        { s with calls := FileDescriptor.destroy { fd := n } (.adopted n :: s.calls) }
      else s.entered id n buffer := by
    show (if _ then _ else _) = _
    rfl
  rw [hend]
  -- a key that is taken: the new socket is a temporary and closes what it adopted
  by_cases hid : id ∈ s.peers
  · rw [if_pos hid]
    exact h.drop n
  · rw [if_neg hid]
    have hentered := PeerTable.OwnsAll.enter h
      (PeerTable.entry_ofPeers_none (AList.lookup_eq_none.mpr hid)) n buffer
    rwa [← peerTable_entered] at hentered

/-- **An fd peeled off** is closed again when the peer cannot be queried. -/
theorem ownsAll_peelOff (id : AssocId) (io : SctpAnswers) : Keeps OwnsAll (peelOff mtx id io) := by
  refine Keeps.withLock fun g hg => ?_
  cases hopen : io.peeloff with
  | none => exact hg
  | some n =>
      cases hinfo : io.peerInfo with
      | false => exact hg.drop n
      | true => exact ownsAll_emplace hg g.held id n io.buffer

/-- **A peer removed.** -/
theorem ownsAll_remove (id : AssocId) : Keeps OwnsAll (remove mtx id) := by
  refine Keeps.withLock (keeps_modifyThis fun s hs => ?_)
  cases hp : s.peers.lookup id with
  | none => exact hs
  | some peer =>
      have herased := PeerTable.OwnsAll.erase hs (entry_peerTable hp)
      rwa [← peerTable_erased] at herased

/-- A change outside the table keeps every object an owner. -/
theorem ownsAll_modifyThis {f : SocketSctp → SocketSctp}
    (hf : ∀ s, (f s).peerTable = s.peerTable) : Keeps OwnsAll (modifyThis f : SctpCall Unit) :=
  keeps_modifyThis fun s hs => by rwa [OwnsAll, hf]

/-- The handling of a notification keeps every object an owner. -/
theorem ownsAll_handle (sender : IPSocket) (n : SctpNotification) (io : SctpAnswers) :
    Keeps OwnsAll (handle mtx sender n io) := by
  refine Keeps.bind ?_ fun _ => ?_
  · -- the log line changes nothing that is owned
    cases n with
    | assocChange state id => exact keeps_pure _
    | peerAddrChange addr =>
        cases addr with
        | none => exact keeps_raise _
        | some addr => exact keeps_pure _
    | other => exact keeps_pure _
  · cases n with
    | assocChange state id =>
        cases state with
        | commUp => exact ownsAll_peelOff id io
        | cantStrAssoc => exact ownsAll_modifyThis fun _ => rfl
        | shutdownComp => exact ownsAll_remove id
        | commLost => exact (ownsAll_remove id).bind fun _ => ownsAll_modifyThis fun _ => rfl
        | restart => exact keeps_pure _
        | other => exact keeps_pure _
    | peerAddrChange addr => exact keeps_pure _
    | other => exact keeps_pure _

/-- The receiving call keeps every object an owner. -/
theorem ownsAll_recvmsg (recv : SctpRecv) : Keeps OwnsAll (recvmsg recv) := by
  have hdecode : ∀ sender, Keeps OwnsAll (decodeSender sender) := by
    intro sender
    cases sender with
    | none => exact keeps_raise _
    | some sender => exact keeps_pure _
  cases recv with
  | failed => exact keeps_raise _
  | message data sender => exact (hdecode sender).bind fun _ => keeps_pure _
  | notification n sender =>
      refine Keeps.bind ?_ fun _ => (hdecode sender).bind fun _ => keeps_pure _
      cases n with
      | assocChange state id => exact ownsAll_modifyThis fun _ => rfl
      | peerAddrChange addr => exact keeps_pure _
      | other => exact keeps_pure _

/-- The whole round of a descriptor keeps every object an owner. -/
theorem ownsAll_handleMessage (fd : FD) (io : SctpAnswers) :
    Keeps OwnsAll (handleMessage mtx fd io) := by
  have hbuffer : Keeps OwnsAll (getBuffer mtx fd) := by
    refine Keeps.withLock (keeps_this.bind fun s => .ite (fun _ => keeps_pure _) fun _ => ?_)
    cases findPeer fd s with
    | some peer => exact keeps_pure _
    | none => exact keeps_raise _
  refine hbuffer.bind fun _ => (ownsAll_recvmsg io.recv).bind fun received => ?_
  cases received with
  | none => exact keeps_pure _
  | some received => exact ownsAll_handle received.1 received.2 io

/-- **Every call keeps the fds in order**, however it ends. -/
theorem ownsAll_call (op : SctpOp) : Keeps OwnsAll (call mtx op) := by
  by_cases hop : ∃ fd io, op = .handleMessage fd io
  · obtain ⟨fd, io, rfl⟩ := hop
    exact ownsAll_handleMessage fd io
  · exact keeps_call op (fun fd io heq => hop ⟨fd, io, heq⟩) fun _ _ h => h

/-- **The main socket stays the same.** -/
theorem fd_call (mtx : Mutex) (op : SctpOp) (s : SocketSctp) :
    (after (call mtx op ⟨s, false⟩)).object.fd = s.fd := by
  by_cases hop : ∃ fd io, op = .handleMessage fd io
  · obtain ⟨fd, io, rfl⟩ := hop
    exact (effect_handleMessage mtx fd io s).fd
  · have hkeeps : Keeps (fun s' : SocketSctp => s'.fd = s.fd) (call mtx op) :=
      keeps_call op (fun fd io heq => hop ⟨fd, io, heq⟩) fun _ _ h => h
    exact hkeeps ⟨s, false⟩ rfl

/-- The constructed socket owns its one descriptor. -/
theorem ownsAll_constructed (n : FD) (bigMsgSize : ℕ) : (constructed n bigMsgSize).OwnsAll :=
  PeerTable.ownsAll_constructed (fun _ => rfl) rfl rfl

/-- What is watched is what is owned. -/
theorem mem_fdSet_iff_owns {m : FD} : m ∈ s.fdSet ↔ s.peerTable.Owns m := by
  rw [show s.peerTable.Owns m ↔ _ from PeerTable.owns_ofPeers]
  exact Iff.rfl

/-- What the account says of a socket that is used, as for a `SocketTcp`. -/
theorem OwnsAll.fds {n : FD} (h : s.OwnsAll) (hmain : s.fd = { fd := n }) (hn : 0 ≤ n)
    (hkernel : HandsOutFree s.calls) : (∀ m, isOpen m s.calls = true ↔ m ∈ s.fdSet) ∧
      EveryAdoptedClosed s.destroyed ∧ NoSecondClose s.destroyed ∧ ClosesOpen s.destroyed ∧
      ClosedAsOften s.destroyed := by
  have howning := h hkernel
  have hfd : s.fd.fd = n := congrArg FileDescriptor.fd hmain
  refine ⟨fun m => (howning.isOpen_iff m).trans mem_fdSet_iff_owns.symm,
    PeerTable.Owning.destroyed howning (hfd.symm ▸ hn) hkernel ?_⟩
  rw [destroyed, hmain]
  rfl

end SocketSctp

namespace SctpSystem

variable {T : TaskScheduler IPSocket} {mtx : Mutex} {s : SctpSystem T} {n : FD}

/-- The fds of the socket on a main socket are in order. -/
structure InOrder (n : FD) (s : SctpSystem T) : Prop where
  main : s.socket.fd = { fd := n }
  owns : s.socket.OwnsAll

/-- An operation keeps the account of the descriptors in order. -/
theorem InOrder.perform (h : s.InOrder n) (mtx : Mutex) (op : SctpOp) :
    (s.perform mtx op).state.InOrder n := by
  rw [state_perform]
  exact ⟨(SocketSctp.fd_call mtx op s.socket).trans h.main,
    SocketSctp.ownsAll_call op ⟨s.socket, false⟩ h.owns⟩

/-- A launched task keeps the account of the descriptors in order. -/
theorem InOrder.launchTask (h : s.InOrder n) (a : T.Ptr × SctpConnectAnswer) :
    (s.launchTask mtx a).state.InOrder n := by
  obtain ⟨task, -, -, heq⟩ | ⟨-, heq⟩ := launchTask_cases mtx a s
  · obtain ⟨hmain, howns⟩ := h.perform mtx (.connect [(task.function, a.2.succeeds)])
    rw [heq, Outcome.state_map]
    exact ⟨hmain, howns⟩
  · rwa [heq]

/-- Step lemma: every step of the system keeps the account in order. -/
theorem InOrder.step (h : s.InOrder n) (e : SctpEvent T) :
    (SctpSystem.step mtx s e).state.InOrder n := by
  cases e with
  | advance d => exact ⟨h.main, h.owns⟩
  | call op =>
      obtain ⟨hmain, howns⟩ := h.perform mtx op
      rw [SctpSystem.step, Outcome.state_map]
      exact ⟨hmain, howns⟩
  | launch order => exact Outcome.forEach_state h fun a _ t ht => ht.launchTask a

/-- **No fd of a `SocketSctp` leaks or is closed twice**, in every run, with the associations that
are peeled off, those that cannot be queried and those lost: as for a `SocketTcp`. -/
theorem sctpFds_of_run (mtx : Mutex) (n : FD) (bigMsgSize : ℕ) {es : List (SctpEvent T)}
    (hrun : Run (step mtx) (fun _ _ => True) (initial T n bigMsgSize) es s)
    (hn : 0 ≤ n) (hkernel : HandsOutFree s.socket.calls) :
    (∀ m, isOpen m s.socket.calls = true ↔ m ∈ s.socket.fdSet) ∧
      EveryAdoptedClosed s.socket.destroyed ∧ NoSecondClose s.socket.destroyed ∧
      ClosesOpen s.socket.destroyed ∧ ClosedAsOften s.socket.destroyed := by
  have h : s.InOrder n := hrun.invariant_state (I := InOrder n)
    ⟨rfl, SocketSctp.ownsAll_constructed n bigMsgSize⟩ fun s e hs _ => hs.step e
  exact h.owns.fds h.main hn hkernel

/-- An association that is up twice is peeled off twice, and its second fd is closed at once. -/
theorem fds_taken_twice : ∃ s : SctpSystem (.table IPSocket),
    s.socket.calls = [.closed 5, .adopted 5, .adopted 4, .adopted 3] ∧
      isOpen 4 s.socket.calls = true ∧ EveryAdoptedClosed s.socket.destroyed ∧
      ClosedAsOften s.socket.destroyed := by
  -- the second association comes up under the id of the first one
  have hrun : ∃ s : SctpSystem (.table IPSocket),
      s.socket.calls = [.closed 5, .adopted 5, .adopted 4, .adopted 3] ∧ 4 ∈ s.socket.fdSet ∧
      Run (step .recursive) (fun _ _ => True) (initial (.table IPSocket) 3 0)
        [sampleEvent 3 .commUp 7, .call (.handleMessage 3
          { SocketSctp.sampleChange .commUp 7 with peeloff := some 5 })] s := by
    refine ⟨_, ?_, ?_, .cons trivial rfl (.cons trivial rfl (.nil _))⟩
    · rfl
    · exact List.mem_cons_of_mem _ (List.mem_singleton.mpr rfl)
  obtain ⟨s, hcalls, hset, hrun⟩ := hrun
  have hkernel : HandsOutFree s.socket.calls := by
    rw [hcalls]
    exact ⟨by decide, by decide, by decide, trivial⟩
  obtain ⟨hopen, hclosed, -, -, hoften⟩ := sctpFds_of_run .recursive 3 0 hrun (by decide) hkernel
  exact ⟨s, hcalls, (hopen 4).mpr hset, hclosed, hoften⟩

end SctpSystem

end SctpSandbox

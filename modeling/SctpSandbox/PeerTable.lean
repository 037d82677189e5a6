import SctpSandbox.Socket

/-! # Tables of connected peers

What `SocketTcp` and `SocketSctp` have in common: a main socket with a buffer, and under each key at
most one peer with a `FileDescriptor` and a buffer. `Consistent` says that every peer owns an open
fd and a buffer of its own. It is kept when a peer is entered with an fd that was not open and a
buffer that was not in use, and when a peer is destroyed, which closes its fd and so allows the
kernel to hand the number out again. -/

namespace SctpSandbox

/-! ## The kernel's view of descriptors -/

/-- The destructor of an owner closes its descriptor. -/
theorem FileDescriptor.destroy_owner {n : FD} (h : 0 ≤ n) (calls : List FdCall) :
    FileDescriptor.destroy { fd := n } calls = .closed n :: calls := by
  have hvalid : ¬ n = FileDescriptor.invalidFd := by
    rintro rfl
    exact absurd h (by decide)
  have hcl : ({ fd := n } : FileDescriptor).close = ({ fd := n, shouldClose := false }, [n]) :=
    FileDescriptor.close_of_closes ⟨rfl, hvalid⟩
  rw [FileDescriptor.destroy, hcl]
  rfl

/-- After an adoption its descriptor is open beside those that were. -/
theorem isOpen_adopted {n m : FD} {calls : List FdCall} :
    isOpen m (.adopted n :: calls) = true ↔ n = m ∨ isOpen m calls = true := by
  simp [isOpen]

/-- After a close its descriptor is not open, and the others are as they were. -/
theorem isOpen_closed {n m : FD} {calls : List FdCall} :
    isOpen m (.closed n :: calls) = true ↔ n ≠ m ∧ isOpen m calls = true := by
  simp [isOpen]

/-! ## Tables -/

/-- What a peer holds. -/
structure PeerSocket where
  fd : FileDescriptor
  msgBuffer : Buffer

/-- A table of peers. -/
structure PeerTable (κ : Type) where
  entry : κ → Option PeerSocket
  mainFd : FD
  mainBuffer : Buffer
  /-- The fds opened and closed, the newest first. -/
  calls : List FdCall

namespace PeerTable

variable {κ : Type} {t : PeerTable κ} {k k' : κ} {n : FD} {b : Buffer} {peer peer' : PeerSocket}

/-- The kernel can hand out the number `n`. -/
def FdFree (n : FD) (t : PeerTable κ) : Prop := 0 ≤ n ∧ isOpen n t.calls = false

/-- The pool can hand out the buffer. -/
def BufferFree (b : Buffer) (t : PeerTable κ) : Prop :=
  b ≠ t.mainBuffer ∧ ∀ k peer, t.entry k = some peer → peer.msgBuffer ≠ b

/-- No two peers hold the same `f`. -/
def Separates {α : Type} (f : PeerSocket → α) (t : PeerTable κ) : Prop :=
  ∀ k k' peer peer', t.entry k = some peer → t.entry k' = some peer' → f peer = f peer' → k = k'

/-- Every peer owns an open fd and a buffer, and nothing is owned twice. -/
structure Consistent (t : PeerTable κ) : Prop where
  owner : ∀ k peer, t.entry k = some peer → peer.fd = { fd := peer.fd.fd } ∧ 0 ≤ peer.fd.fd
  opened : ∀ k peer, t.entry k = some peer → isOpen peer.fd.fd t.calls = true
  mainOpened : isOpen t.mainFd t.calls = true
  mainFd : ∀ k peer, t.entry k = some peer → peer.fd.fd ≠ t.mainFd
  mainBuffer : ∀ k peer, t.entry k = some peer → peer.msgBuffer ≠ t.mainBuffer
  fds : t.Separates fun peer => peer.fd.fd
  buffers : t.Separates fun peer => peer.msgBuffer

/-- An fd the kernel can hand out is nobody's. -/
theorem Consistent.free (h : t.Consistent) (hn : FdFree n t) :
    n ≠ t.mainFd ∧ ∀ k peer, t.entry k = some peer → peer.fd.fd ≠ n := by
  constructor
  · rintro rfl
    exact absurd h.mainOpened (by simp [hn.2])
  · rintro k peer hp rfl
    exact absurd (h.opened k peer hp) (by simp [hn.2])

/-- An empty table next to an open main socket is consistent. -/
theorem consistent_empty (hempty : ∀ k, t.entry k = none) (hmain : isOpen t.mainFd t.calls = true) :
    t.Consistent := by
  have hnone : ∀ k peer, t.entry k ≠ some peer := by
    intro k peer h
    exact Option.some_ne_none peer (h.symm.trans (hempty k))
  exact ⟨fun k peer hp => absurd hp (hnone k peer), fun k peer hp => absurd hp (hnone k peer),
    hmain, fun k peer hp => absurd hp (hnone k peer), fun k peer hp => absurd hp (hnone k peer),
    fun k _ peer _ hp => absurd hp (hnone k peer), fun k _ peer _ hp => absurd hp (hnone k peer)⟩

/-- An fd just opened is closed again. -/
def drop (t : PeerTable κ) (n : FD) : PeerTable κ :=
  { t with calls := FileDescriptor.destroy { fd := n } (.adopted n :: t.calls) }

/-- A new fd closed again leaves the table consistent. -/
theorem Consistent.drop (h : t.Consistent) (hn : FdFree n t) : (t.drop n).Consistent := by
  obtain ⟨hmain, hfree⟩ := h.free hn
  have hopen : ∀ m, m ≠ n → isOpen m t.calls = true → isOpen m (t.drop n).calls = true := by
    intro m hm ho
    have heq : (t.drop n).calls = FileDescriptor.destroy { fd := n } (.adopted n :: t.calls) := rfl
    -- `n` is opened and closed again, every other fd is left alone
    rw [heq, FileDescriptor.destroy_owner hn.1]
    exact isOpen_closed.mpr ⟨Ne.symm hm, isOpen_adopted.mpr (.inr ho)⟩
  exact ⟨h.owner, fun k peer hp => hopen _ (hfree k peer hp) (h.opened k peer hp),
    hopen _ hmain.symm h.mainOpened, h.mainFd, h.mainBuffer, h.fds, h.buffers⟩

section Update

variable [DecidableEq κ]

/-- A peer is entered with an fd just opened. -/
def enter (t : PeerTable κ) (k : κ) (n : FD) (b : Buffer) : PeerTable κ :=
  { t with
    entry := Function.update t.entry k (some ⟨{ fd := n }, b⟩)
    calls := .adopted n :: t.calls }

/-- A peer is destroyed. -/
def erase (t : PeerTable κ) (k : κ) (peer : PeerSocket) : PeerTable κ :=
  { t with entry := Function.update t.entry k none, calls := peer.fd.destroy t.calls }

/-- The entry of a key just entered. -/
theorem entry_enter_self (t : PeerTable κ) (k : κ) :
    (t.enter k n b).entry k = some ⟨{ fd := n }, b⟩ := Function.update_self _ _ _

/-- The entries of the other keys stay when one is entered. -/
theorem entry_enter_ne (t : PeerTable κ) (h : k' ≠ k) :
    (t.enter k n b).entry k' = t.entry k' := Function.update_of_ne h _ _

/-- A key just erased has no entry. -/
theorem entry_erase_self (t : PeerTable κ) (k : κ) : (t.erase k peer).entry k = none :=
  Function.update_self _ _ _

/-- The entries of the other keys stay when one is erased. -/
theorem entry_erase_ne (t : PeerTable κ) (h : k' ≠ k) :
    (t.erase k peer).entry k' = t.entry k' := Function.update_of_ne h _ _

/-- The entries after `enter`. -/
theorem entry_enter (h : (t.enter k n b).entry k' = some peer) :
    (k' = k ∧ peer = ⟨{ fd := n }, b⟩) ∨ t.entry k' = some peer := by
  by_cases hk : k' = k
  · rw [hk, entry_enter_self] at h
    exact .inl ⟨hk, (Option.some.inj h).symm⟩
  · rw [entry_enter_ne t hk] at h
    exact .inr h

/-- The entries after `erase`. -/
theorem entry_erase (h : (t.erase k peer).entry k' = some peer') :
    k' ≠ k ∧ t.entry k' = some peer' := by
  by_cases hk : k' = k
  · rw [hk, entry_erase_self] at h
    exact absurd h.symm (Option.some_ne_none peer')
  · rw [entry_erase_ne t hk] at h
    exact ⟨hk, h⟩

/-- The entries stay apart when the new one differs from each. -/
theorem Separates.enter {α : Type} {f : PeerSocket → α} (h : t.Separates f)
    (hnew : ∀ k peer, t.entry k = some peer → f peer ≠ f ⟨{ fd := n }, b⟩) :
    (t.enter k n b).Separates f := by
  intro k₁ k₂ peer₁ peer₂ hp₁ hp₂ heq
  -- the new peer holds what nobody held, two old ones were separate before
  rcases entry_enter hp₁ with ⟨rfl, rfl⟩ | hp₁'
  · rcases entry_enter hp₂ with ⟨rfl, rfl⟩ | hp₂'
    · rfl
    · exact absurd heq.symm (hnew k₂ peer₂ hp₂')
  · rcases entry_enter hp₂ with ⟨rfl, rfl⟩ | hp₂'
    · exact absurd heq (hnew k₁ peer₁ hp₁')
    · exact h k₁ k₂ peer₁ peer₂ hp₁' hp₂' heq

/-- The entries stay apart when one is erased. -/
theorem Separates.erase {α : Type} {f : PeerSocket → α} (h : t.Separates f) :
    (t.erase k peer).Separates f := by
  intro k₁ k₂ peer₁ peer₂ hp₁ hp₂ heq
  exact h k₁ k₂ peer₁ peer₂ (entry_erase hp₁).2 (entry_erase hp₂).2 heq

/-- **A peer with a new fd and a free buffer** keeps the table consistent. -/
theorem Consistent.enter (h : t.Consistent) (hn : FdFree n t) (hb : BufferFree b t) (k : κ) :
    (t.enter k n b).Consistent := by
  obtain ⟨hmain, hfree⟩ := h.free hn
  refine ⟨fun k' peer hp => ?_, fun k' peer hp => ?_, ?_, fun k' peer hp => ?_,
    fun k' peer hp => ?_, h.fds.enter hfree, h.buffers.enter hb.2⟩
  · -- each entry is the new one, with a free descriptor and a new buffer, or was there before
    rcases entry_enter hp with ⟨-, rfl⟩ | hp
    · exact ⟨rfl, hn.1⟩
    · exact h.owner k' peer hp
  · rcases entry_enter hp with ⟨-, rfl⟩ | hp
    · exact isOpen_adopted.mpr (.inl rfl)
    · exact isOpen_adopted.mpr (.inr (h.opened k' peer hp))
  · exact isOpen_adopted.mpr (.inr h.mainOpened)
  · rcases entry_enter hp with ⟨-, rfl⟩ | hp
    · exact hmain
    · exact h.mainFd k' peer hp
  · rcases entry_enter hp with ⟨-, rfl⟩ | hp
    · exact hb.1
    · exact h.mainBuffer k' peer hp

/-- **A peer destroyed** keeps the table consistent: only its own fd is closed. -/
theorem Consistent.erase (h : t.Consistent) (hp : t.entry k = some peer) :
    (t.erase k peer).Consistent := by
  obtain ⟨howner, hn⟩ := h.owner k peer hp
  have hcalls : (t.erase k peer).calls = .closed peer.fd.fd :: t.calls := by
    have heq : (t.erase k peer).calls = peer.fd.destroy t.calls := rfl
    rw [heq, howner, FileDescriptor.destroy_owner hn]
  refine ⟨fun k' peer' hp' => h.owner k' peer' (entry_erase hp').2, fun k' peer' hp' => ?_, ?_,
    fun k' peer' hp' => h.mainFd k' peer' (entry_erase hp').2,
    fun k' peer' hp' => h.mainBuffer k' peer' (entry_erase hp').2, h.fds.erase, h.buffers.erase⟩
  · obtain ⟨hne, hp'⟩ := entry_erase hp'
    rw [hcalls]
    -- the fd closed is that of the peer destroyed, and of no other
    refine isOpen_closed.mpr ⟨fun heq => ?_, h.opened k' peer' hp'⟩
    exact hne (h.fds k' k peer' peer hp' hp heq.symm)
  · rw [hcalls]
    exact isOpen_closed.mpr ⟨h.mainFd k peer hp, h.mainOpened⟩

/-! ## Tables in a map -/

/-- The table of a class that keeps its peers in a map. -/
def ofPeers {π : Type} (socket : π → PeerSocket) (peers : AList fun _ : κ => π) (mainFd : FD)
    (mainBuffer : Buffer) (calls : List FdCall) : PeerTable κ :=
  ⟨fun k => (peers.lookup k).map socket, mainFd, mainBuffer, calls⟩

section Peers

variable {π : Type} {socket : π → PeerSocket} {peers : AList fun _ : κ => π} {mainFd : FD}
  {mainBuffer : Buffer} {calls : List FdCall} {p : π}

/-- An entry of the table is the object of its peer. -/
theorem entry_ofPeers (h : peers.lookup k = some p) :
    (ofPeers socket peers mainFd mainBuffer calls).entry k = some (socket p) := by
  show (peers.lookup k).map socket = some (socket p)
  rw [h, Option.map_some]

/-- A key without a peer has no entry. -/
theorem entry_ofPeers_none (h : peers.lookup k = none) :
    (ofPeers socket peers mainFd mainBuffer calls).entry k = none := by
  show (peers.lookup k).map socket = none
  rw [h, Option.map_none]

/-- An entry made in the map is an entry made in the table. -/
theorem ofPeers_insert (h : socket p = ⟨{ fd := n }, b⟩) :
    ofPeers socket (peers.insert k p) mainFd mainBuffer (.adopted n :: calls) =
      (ofPeers socket peers mainFd mainBuffer calls).enter k n b := by
  have hentry : (fun k' => ((peers.insert k p).lookup k').map socket) =
      ((ofPeers socket peers mainFd mainBuffer calls).enter k n b).entry := by
    -- the two tables agree at every key
    funext k'
    by_cases hk : k' = k
    · rw [hk, AList.lookup_insert, Option.map_some, entry_enter_self, h]
    · rw [AList.lookup_insert_ne hk, entry_enter_ne _ hk]
      rfl
  rw [ofPeers, hentry]
  rfl

/-- An entry erased from the map is an entry erased from the table. -/
theorem ofPeers_erase (k : κ) (p : π) :
    ofPeers socket (peers.erase k) mainFd mainBuffer ((socket p).fd.destroy calls) =
      (ofPeers socket peers mainFd mainBuffer calls).erase k (socket p) := by
  have hentry : (fun k' => ((peers.erase k).lookup k').map socket) =
      ((ofPeers socket peers mainFd mainBuffer calls).erase k (socket p)).entry := by
    funext k'
    by_cases hk : k' = k
    · rw [hk, AList.lookup_erase, Option.map_none, entry_erase_self]
    · rw [AList.lookup_erase_ne hk, entry_erase_ne _ hk]
      rfl
  rw [ofPeers, hentry]
  rfl

/-- A new object has a consistent table. -/
theorem consistent_ofPeers_empty (h : isOpen mainFd calls = true) :
    (ofPeers socket (∅ : AList fun _ : κ => π) mainFd mainBuffer calls).Consistent :=
  consistent_empty (fun _ => entry_ofPeers_none (AList.lookup_empty _)) h

/-- Every buffer but that of the main socket is free in a table without peers. -/
theorem bufferFree_ofPeers_empty (h : b ≠ mainBuffer) :
    (ofPeers socket (∅ : AList fun _ : κ => π) mainFd mainBuffer calls).BufferFree b := by
  refine ⟨h, fun k peer hp => ?_⟩
  have hnone := hp.symm.trans (entry_ofPeers_none (AList.lookup_empty k))
  exact absurd hnone (Option.some_ne_none peer)

end Peers

end Update

end PeerTable

end SctpSandbox

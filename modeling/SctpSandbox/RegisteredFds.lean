import SctpSandbox.FDSet
import SctpSandbox.Sctp.Reconnects
import SctpSandbox.Tcp.ByteCounts
import SctpSandbox.Tcp.ReconnectBound

/-! # Fds that do not fit

An `fd_set` has room for the fds below `FD_SETSIZE`, and `FD_SET` writes behind it for any other.
The kernel hands out higher numbers once the limit of the process allows it, and neither class looks
at the number of a connection it enters into its table. `inBounds_runs_iff` says in which runs no
selection writes out of bounds: those in which every fd that is registered fits. -/

namespace SctpSandbox

open Call

namespace FDSet

/-- There is room for the fd. -/
def Fits (fd : FD) : Prop := 0 ≤ fd ∧ fd < fdSetSize

instance : DecidablePred Fits := fun fd => inferInstanceAs (Decidable (0 ≤ fd ∧ fd < fdSetSize))

/-- No `FD_SET` of a selection writes behind the set, whatever the rounds before it have left. -/
def InBounds (fds : List FD) : Prop :=
  ∀ (x : FDSet) (call : SelectCall), (x.round ⟨fds, call⟩).isSome = true

/-- All descriptors can be set exactly when each is in the set's range. -/
theorem setAll_isSome_iff (fds : List FD) (x : FDSet) :
    (fds.foldlM (fun (s : FDSet) fd => s.set fd) x).isSome = true ↔ ∀ fd ∈ fds, Fits fd := by
  induction fds generalizing x with
  | nil => exact iff_of_true rfl fun fd hfd => absurd hfd List.not_mem_nil
  | cons fd fds ih =>
      rw [List.foldlM_cons, List.forall_mem_cons]
      by_cases hfd : Fits fd
      · have hset : x.set fd = some _ := if_pos hfd
        rw [hset, and_iff_right hfd]
        exact ih _
      · have hset : x.set fd = none := if_neg hfd
        rw [hset]
        exact iff_of_false Bool.false_ne_true fun h => hfd h.1

/-- **A selection stays in bounds exactly if all its fds fit.** -/
theorem inBounds_iff {fds : List FD} : InBounds fds ↔ ∀ fd ∈ fds, Fits fd := by
  -- a round fails where a descriptor cannot be set, whatever `select` answers
  have hround : ∀ x call, ((x : FDSet).round ⟨fds, call⟩).isSome =
      (fds.foldlM (fun (s : FDSet) fd => s.set fd) x.reset).isSome := by
    intro x call
    rw [round]
    cases fds.foldlM (fun (s : FDSet) fd => s.set fd) x.reset with
    | none => rfl
    | some s => rfl
  constructor
  · intro h
    have hfirst := h {} (.failed .eintr)
    rw [hround] at hfirst
    exact (setAll_isSome_iff fds _).mp hfirst
  · intro h x call
    rw [hround]
    exact (setAll_isSome_iff fds _).mpr h

end FDSet

open FDSet

/-! ## Tables of peers -/

section Entries

variable {κ π : Type} [DecidableEq κ] {P : κ → π → Prop} {peers : AList fun _ : κ => π} {k : κ}
  {p : π}

/-- Every entry of a table has a property. -/
def AllEntries (P : κ → π → Prop) (peers : AList fun _ : κ => π) : Prop :=
  ∀ k p, peers.lookup k = some p → P k p

/-- An empty table has every property of all entries. -/
theorem allEntries_empty : AllEntries P (∅ : AList fun _ : κ => π) := by
  intro k p hp
  exact absurd hp.symm (Option.some_ne_none p)

/-- An entry with the property keeps it one of all entries. -/
theorem AllEntries.insert (h : AllEntries P peers) (hp : P k p) :
    AllEntries P (peers.insert k p) := by
  intro k' p' hp'
  by_cases hk : k' = k
  · subst hk
    rw [AList.lookup_insert] at hp'
    rwa [← Option.some.inj hp']
  · rw [AList.lookup_insert_ne hk] at hp'
    exact h k' p' hp'

/-- A new entry, like the old ones, has to have the property. -/
theorem allEntries_insert_iff (hk : k ∉ peers) :
    AllEntries P (peers.insert k p) ↔ AllEntries P peers ∧ P k p := by
  refine ⟨fun h => ⟨fun k' p' hp' => ?_, h k p (AList.lookup_insert peers)⟩,
    fun h => h.1.insert h.2⟩
  have hne : k' ≠ k := by
    rintro rfl
    exact hk (AList.lookup_isSome.mp (by rw [hp']; rfl))
  exact h k' p' ((AList.lookup_insert_ne hne).trans hp')

/-- An erasure keeps a property of all entries. -/
theorem AllEntries.erase (h : AllEntries P peers) (k : κ) : AllEntries P (peers.erase k) := by
  intro k' p' hp'
  by_cases hk : k' = k
  · subst hk
    rw [AList.lookup_erase] at hp'
    exact absurd hp'.symm (Option.some_ne_none p')
  · rw [AList.lookup_erase_ne hk] at hp'
    exact h k' p' hp'

end Entries

/-! ## `SocketTcp` -/

namespace SocketTcp

variable {mtx : Mutex} {s s' : SocketTcp} {fd n : FD} {io : TcpAnswers} {remote : IPSocket}
  {answer : ConnectAnswer} {g : Guarded SocketTcp}

/-- What holds of all entries holds of them after a message, if it does of an accepted one. -/
theorem MessageEffect.allEntries {P : FD → TcpPeer → Prop} (h : MessageEffect mtx fd io s s')
    (hs : AllEntries P s.peers)
    (hnew : fd = s.fd.fd → ∀ n remote, P n (acceptedPeer n remote io.buffer)) :
    AllEntries P s'.peers := by
  cases h with
  | same hpeers _ => rwa [hpeers]
  | @accepted n remote hmain _ => exact hs.insert (hnew hmain n remote)
  | closed _ _ _ _ hpeers _ => exact hpeers ▸ hs.erase fd
  | lost _ _ _ _ hpeers _ => exact hpeers ▸ hs.erase fd
  | hung _ _ _ _ hpeers _ => rwa [hpeers]

/-- The fds of all peers fit. -/
def PeersFit (s : SocketTcp) : Prop := AllEntries (fun _ peer => Fits peer.fd.fd) s.peers

/-- The watched set is in bounds exactly when the main descriptor and the peers' are. -/
theorem inBounds_fdSet_iff : InBounds s.fdSet ↔ Fits s.fd.fd ∧ s.PeersFit := by
  rw [inBounds_iff, fdSet, List.forall_mem_cons]
  refine and_congr_right fun _ => ⟨fun h fd peer hp => ?_, fun h n hn => ?_⟩
  · exact h _ (mem_peerFds.mpr ⟨⟨fd, peer⟩, AList.mem_lookup_iff.mp hp, rfl⟩)
  · obtain ⟨⟨fd, peer⟩, hmem, rfl⟩ := mem_peerFds.mp hn
    exact h fd peer (AList.mem_lookup_iff.mpr hmem)

/-! ### What a `connect` registers -/

/-- A connection that is made is entered, unless its fd is taken. -/
theorem connectOne_registers (remote : IPSocket) (hs : answer.socket = some n) (h : answer.Succeeds)
    (hfiled : g.object.FiledByFd) (hfit : g.object.PeersFit) :
    ∃ s', connectOne remote answer g = .ok () ⟨s', g.held⟩ ∧ s'.FiledByFd ∧
      (s'.PeersFit ↔ Fits n) := by
  rw [connectOne_succeeds hs h]
  by_cases hn : n ∈ g.object.peers
  · -- the key is the fd of a peer, which fits
    obtain ⟨peer, hp⟩ := Option.isSome_iff_exists.mp (AList.lookup_isSome.mpr hn)
    have hfits : Fits n := hfiled n peer hp ▸ hfit n peer hp
    rw [emplace_taken (s := { g.object with calls := .adopted n :: g.object.calls }) hn]
    exact ⟨_, rfl, hfiled, iff_of_true hfit hfits⟩
  · rw [emplace_new (s := { g.object with calls := .adopted n :: g.object.calls }) hn]
    refine ⟨_, rfl, AllEntries.insert hfiled rfl, ?_⟩
    exact (allEntries_insert_iff hn).trans (and_iff_right hfit)

/-- A peer whose fd does not fit stays in the table. -/
theorem keeps_not_peersFit (remote : IPSocket) (answer : ConnectAnswer) :
    Keeps (fun s => ¬ s.PeersFit) (connectOne remote answer) := by
  intro g hg hfit
  rcases (effect_connectOne remote answer g).1 with hpeers | ⟨n, hn, hpeers⟩
  · rw [PeersFit, hpeers] at hfit
    exact hg hfit
  · rw [PeersFit, hpeers] at hfit
    exact hg ((allEntries_insert_iff hn).mp hfit).1

/-- The fds of the connections that a `connect` makes fit; it is left at the first that fails. -/
def ConnectFits : List (IPSocket × ConnectAnswer) → Prop
  | [] => True
  | remote :: rest => remote.2.Succeeds →
      (∀ n, remote.2.socket = some n → Fits n) ∧ ConnectFits rest

/-- The peers' descriptors stay in range over the connects exactly when each answer's is. -/
theorem peersFit_forM_iff (remotes : List (IPSocket × ConnectAnswer)) (g : Guarded SocketTcp)
    (hfiled : g.object.FiledByFd) (hfit : g.object.PeersFit) :
    (after ((remotes.forM fun remote => connectOne remote.1 remote.2 :
      TcpCall PUnit) g)).object.PeersFit ↔ ConnectFits remotes := by
  induction remotes generalizing g with
  | nil => exact iff_of_true hfit trivial
  | cons remote rest ih =>
      rw [forM_cons]
      by_cases h : remote.2.Succeeds
      · obtain ⟨n, hs⟩ := Option.isSome_iff_exists.mp h.1
        obtain ⟨s', hs', hfiled', hfit'⟩ := connectOne_registers remote.1 hs h hfiled hfit
        rw [bind_ok hs']
        by_cases hn : Fits n
        · rw [ih ⟨s', g.held⟩ hfiled' (hfit'.mpr hn)]
          refine ⟨fun hrest _ => ⟨fun n' hn' => ?_, hrest⟩, fun hall => (hall h).2⟩
          rwa [← Option.some.inj (hs.symm.trans hn')]
        · -- an entry that does not fit stays, whatever the rest connects to
          refine iff_of_false ?_ fun hall => hn ((hall h).1 n hs)
          have hkeeps := keeps_forM rest fun remote _ => keeps_not_peersFit remote.1 remote.2
          exact hkeeps ⟨s', g.held⟩ fun h => hn (hfit'.mp h)
      · -- the exception ends the loop before anything is entered
        obtain ⟨s', hs', hpeers, -⟩ := connectOne_fails remote.1 g h
        rw [bind_error hs']
        refine iff_of_true ?_ fun h' => absurd h' h
        show AllEntries _ s'.peers
        rw [hpeers]
        exact hfit

/-! ### What a call registers -/

/-- The fds that a call registers fit. -/
def RegistersFit (s : SocketTcp) : TcpOp → Prop
  | .connect remotes => ConnectFits remotes
  | .handleMessage fd io =>
      fd = s.fd.fd → ∀ n remote, io.accept = .accepted n remote → Fits n
  | _ => True

/-- An accepted connection is entered, unless its fd is taken. -/
theorem peersFit_handleCommUp_iff (hfiled : s.FiledByFd) (hfit : s.PeersFit) :
    (after (handleCommUp mtx io ⟨s, false⟩)).object.PeersFit ↔
      ∀ n remote, io.accept = .accepted n remote → Fits n := by
  cases ha : io.accept with
  | failed =>
      rw [handleCommUp_failed ha]
      exact iff_of_true hfit fun _ _ h => nomatch h
  | undecodable n =>
      rw [handleCommUp_undecodable ha]
      exact iff_of_true hfit fun _ _ h => nomatch h
  | accepted n remote =>
      have hone : (∀ n' remote', AcceptAnswer.accepted n remote = .accepted n' remote' → Fits n') ↔
          Fits n := by
        refine ⟨fun h => h n remote rfl, fun h n' remote' heq => ?_⟩
        injection heq with hn
        rwa [← hn]
      rw [hone]
      by_cases hn : n ∈ s.peers
      · obtain ⟨peer, hp⟩ := Option.isSome_iff_exists.mp (AList.lookup_isSome.mpr hn)
        -- the entry that is there already fits
        rw [handleCommUp_taken ha hn]
        exact iff_of_true hfit (hfiled n peer hp ▸ hfit n peer hp)
      · rw [handleCommUp_accepted ha hn]
        exact (allEntries_insert_iff hn).trans (and_iff_right hfit)

/-- **A call keeps all fds in bounds exactly if those it registers fit.** -/
theorem peersFit_call_iff (op : TcpOp) (hfiled : s.FiledByFd) (hfit : s.PeersFit) :
    (after (call mtx op ⟨s, false⟩)).object.PeersFit ↔ RegistersFit s op := by
  cases op with
  | connect remotes =>
      show (after (connect mtx remotes ⟨s, false⟩)).object.PeersFit ↔ _
      rw [connect, after_withLock_free _ rfl]
      exact peersFit_forM_iff remotes ⟨s, true⟩ hfiled hfit
  | send ok msg =>
      refine iff_of_true ?_ trivial
      show AllEntries _ (after (send mtx ok msg ⟨s, false⟩)).object.peers
      rw [(after_send mtx ok msg s).1]
      exact hfit
  -- a wait changes nothing, a send only what was sent
  | selectFds ready =>
      rw [after_selectFds]
      exact iff_of_true hfit trivial
  | handleMessage fd io =>
      show (after (handleMessage mtx fd io ⟨s, false⟩)).object.PeersFit ↔ _
      by_cases hmain : fd = s.fd.fd
      · rw [handleMessage_main hmain, peersFit_handleCommUp_iff hfiled hfit]
        exact ⟨fun h _ => h, fun h => h hmain⟩
      · -- only the listening socket makes entries
        refine iff_of_true ?_ fun h => absurd h hmain
        exact (effect_handleMessage mtx fd io s).1.allEntries hfit fun h => absurd h hmain

/-- Every operation keeps each peer under its own descriptor. -/
theorem FiledByFd.call (h : s.FiledByFd) (mtx : Mutex) (op : TcpOp) :
    (after (SocketTcp.call mtx op ⟨s, false⟩)).object.FiledByFd := by
  cases op with
  | connect remotes =>
      have hkeeps : Keeps FiledByFd (SocketTcp.connect mtx remotes) := by
        refine Keeps.withLock (keeps_forM remotes fun remote _ g hg => ?_)
        unfold FiledByFd
        -- a connect enters under the descriptor it was given
        rcases (effect_connectOne remote.1 remote.2 g).1 with hpeers | ⟨n, -, hpeers⟩
        · rwa [hpeers]
        · rw [hpeers]
          exact AllEntries.insert hg rfl
      exact hkeeps ⟨s, false⟩ h
  | send ok msg =>
      show AllEntries _ (after (SocketTcp.send mtx ok msg ⟨s, false⟩)).object.peers
      rw [(after_send mtx ok msg s).1]
      exact h
  | selectFds ready =>
      rw [after_selectFds]
      exact h
  | handleMessage fd io =>
      exact (effect_handleMessage mtx fd io s).1.allEntries h fun _ _ _ => rfl

/-! ### The listening socket -/

section ListensOn

variable {c : FileDescriptor}

/-- The listening socket is `c`. -/
def ListensOn (c : FileDescriptor) (s : SocketTcp) : Prop := s.fd = c

/-- A change elsewhere leaves the main descriptor. -/
theorem listensOn_modifyThis {f : SocketTcp → SocketTcp} (hf : ∀ s, (f s).fd = s.fd) :
    Keeps (ListensOn c) (modifyThis f : TcpCall Unit) :=
  keeps_modifyThis fun s hs => (hf s).trans hs

/-- An adoption leaves the main descriptor. -/
theorem listensOn_adopt (n : FD) : Keeps (ListensOn c) (adopt n) := by
  refine Keeps.bind ?_ fun _ => keeps_pure _
  exact listensOn_modifyThis fun _ => rfl

/-- The unwinding of a half made socket leaves the main descriptor. -/
theorem listensOn_unwind {α : Type} (fd : FileDescriptor) :
    Keeps (ListensOn c) (unwind fd : TcpCall α) := by
  refine Keeps.bind ?_ fun _ => keeps_raise _
  exact listensOn_modifyThis fun _ => rfl

/-- A new entry leaves the main descriptor. -/
theorem listensOn_emplace (n : FD) (peer : TcpPeer) : Keeps (ListensOn c) (emplace n peer) := by
  refine listensOn_modifyThis fun s => ?_
  by_cases hn : n ∈ s.peers
  · rw [if_pos hn]
  · rw [if_neg hn]

/-- A removal leaves the main descriptor. -/
theorem listensOn_remove (fd : FD) : Keeps (ListensOn c) (remove mtx fd) := by
  refine Keeps.withLock (listensOn_modifyThis fun s => ?_)
  cases s.peers.lookup fd with
  | some peer => rfl
  | none => rfl

/-- A connect leaves the main descriptor. -/
theorem listensOn_connectOne (remote : IPSocket) (answer : ConnectAnswer) :
    Keeps (ListensOn c) (connectOne remote answer) := by
  refine Keeps.bind ?_ fun fd => .ite (fun _ => listensOn_emplace _ _) fun _ => listensOn_unwind fd
  unfold createConnectSocket
  cases answer.socket with
  | none => exact keeps_raise _
  | some n =>
      refine (listensOn_adopt n).bind fun fd => ?_
      exact .ite (fun _ => keeps_pure _) fun _ => listensOn_unwind fd

/-- A new connection leaves the main descriptor. -/
theorem listensOn_handleCommUp (io : TcpAnswers) :
    Keeps (ListensOn c) (handleCommUp mtx io) := by
  refine Keeps.withLock (Keeps.bind ?_ fun accepted => listensOn_emplace _ _)
  cases io.accept with
  | failed => exact keeps_raise _
  | accepted n remote => exact (listensOn_adopt n).bind fun _ => keeps_pure _
  | undecodable n => exact (listensOn_adopt n).bind fun fd => listensOn_unwind fd

/-- Every function of the class keeps the main descriptor. -/
theorem kept_listensOn : Kept mtx (ListensOn c) where
  frame _ _ _ _ hs := hs
  connectOne := listensOn_connectOne
  handleCommUp := listensOn_handleCommUp
  remove := listensOn_remove

/-- **The listening socket stays the same.** -/
theorem listensOn_call (op : TcpOp) : Keeps (ListensOn c) (call mtx op) := kept_listensOn.call op

end ListensOn

end SocketTcp

namespace TcpSystem

variable {T : TaskScheduler IPSocket} {mtx : Mutex} {s : TcpSystem T} {n : FD}

/-- What a reachable system satisfies, whatever the numbers of its fds. -/
structure Filed (n : FD) (s : TcpSystem T) : Prop where
  listens : s.socket.fd.fd = n
  filed : s.socket.FiledByFd

/-- In a filed socket the set is in bounds exactly when its two kinds of descriptors are. -/
theorem Filed.inBounds_iff (h : s.Filed n) :
    InBounds s.socket.fdSet ↔ Fits n ∧ s.socket.PeersFit := by
  rw [SocketTcp.inBounds_fdSet_iff, h.listens]

/-- An operation keeps each peer under its own descriptor. -/
theorem Filed.perform (h : s.Filed n) (mtx : Mutex) (op : TcpOp) :
    (s.perform mtx op).state.Filed n := by
  have hlistens : (after (SocketTcp.call mtx op ⟨s.socket, false⟩)).object.fd = s.socket.fd :=
    SocketTcp.listensOn_call op ⟨s.socket, false⟩ rfl
  rw [state_perform]
  exact ⟨(congrArg FileDescriptor.fd hlistens).trans h.listens, h.filed.call mtx op⟩

/-- After an operation the peers are in range exactly when the descriptors it registers are. -/
theorem peersFit_perform_iff (h : s.Filed n) (hfit : s.socket.PeersFit) (op : TcpOp) :
    (s.perform mtx op).state.socket.PeersFit ↔ SocketTcp.RegistersFit s.socket op := by
  rw [state_perform]
  exact SocketTcp.peersFit_call_iff op h.filed hfit

/-! ### Launches -/

/-- The fd of the connection that a task of a launch makes fits. -/
def TaskFits (a : T.Ptr × ConnectAnswer) (s : TcpSystem T) : Prop :=
  ∀ task, T.enabled s.scheduler a.1 = some task → task.due ≤ s.now →
    SocketTcp.ConnectFits [(task.function, a.2)]

/-- A task keeps each peer under its own descriptor. -/
theorem Filed.launchTask (h : s.Filed n) (a : T.Ptr × ConnectAnswer) :
    (s.launchTask mtx a).state.Filed n := by
  obtain ⟨task, -, -, heq⟩ | ⟨-, heq⟩ := launchTask_cases mtx a s
  · have hperform := h.perform mtx (.connect [(task.function, a.2)])
    rw [heq, Outcome.state_map]
    exact ⟨hperform.listens, hperform.filed⟩
  · rw [heq]
    exact h

/-- After a task the peers are in range exactly when the descriptor it registers is. -/
theorem peersFit_launchTask_iff (h : s.Filed n) (hfit : s.socket.PeersFit)
    (a : T.Ptr × ConnectAnswer) :
    (s.launchTask mtx a).state.socket.PeersFit ↔ s.TaskFits a := by
  obtain ⟨task, henabled, hdue, heq⟩ | ⟨hnone, heq⟩ := launchTask_cases mtx a s
  · rw [heq, Outcome.state_map]
    refine (peersFit_perform_iff h hfit _).trans ⟨fun hone task' henabled' _ => ?_, fun hall => ?_⟩
    · rwa [← Option.some.inj (henabled.symm.trans henabled')]
    · exact hall task henabled hdue
  · rw [heq]
    exact iff_of_true hfit fun task henabled hdue => absurd hdue (hnone task henabled)

/-- A launch removes no peer. -/
theorem not_peersFit_launchTask (hfit : ¬ s.socket.PeersFit) (a : T.Ptr × ConnectAnswer) :
    ¬ (s.launchTask mtx a).state.socket.PeersFit := by
  obtain ⟨task, -, -, heq⟩ | ⟨-, heq⟩ := launchTask_cases mtx a s
  · rw [heq, Outcome.state_map]
    show ¬ (s.perform mtx (.connect [(task.function, a.2)])).state.socket.PeersFit
    rw [state_perform]
    have hkeeps : Keeps (fun socket : SocketTcp => ¬ socket.PeersFit)
        (SocketTcp.connect mtx [(task.function, a.2)]) :=
      Keeps.withLock (keeps_forM _ fun remote _ => SocketTcp.keeps_not_peersFit remote.1 remote.2)
    exact hkeeps ⟨s.socket, false⟩ hfit
  · rw [heq]
    exact hfit

/-! ### Steps -/

/-- The fds that an event registers fit. -/
def RegistersFit (mtx : Mutex) (s : TcpSystem T) : TcpEvent T → Prop
  | .advance _ => True
  | .call op => SocketTcp.RegistersFit s.socket op
  | .launch order => Outcome.EachMeets TaskFits (launchTask mtx) order s

/-- Step lemma: every step keeps each peer under its own descriptor. -/
theorem Filed.step (h : s.Filed n) (mtx : Mutex) (e : TcpEvent T) :
    (step mtx s e).state.Filed n := by
  cases e with
  | advance d => exact ⟨h.listens, h.filed⟩
  | call op =>
      have hlist : (s.list op).Filed n := by
        rw [list_eq]
        exact ⟨h.listens, h.filed⟩
      have hperform := hlist.perform mtx op
      rw [TcpSystem.step, Outcome.state_map]
      exact ⟨hperform.listens, hperform.filed⟩
  | launch order => exact Outcome.forEach_state h fun a _ t ht => ht.launchTask a

/-- **An event keeps all fds in bounds exactly if those it registers fit.** -/
theorem peersFit_step_iff (h : s.Filed n) (hfit : s.socket.PeersFit) (e : TcpEvent T) :
    (step mtx s e).state.socket.PeersFit ↔ RegistersFit mtx s e := by
  cases e with
  | advance d => exact iff_of_true hfit trivial
  | call op =>
      -- listing changes neither the socket nor its descriptors
      have hlist : (s.list op).Filed n ∧ (s.list op).socket = s.socket := by
        rw [list_eq]
        exact ⟨⟨h.listens, h.filed⟩, rfl⟩
      rw [step, Outcome.state_map]
      show ((s.list op).perform mtx op).state.socket.PeersFit ↔ SocketTcp.RegistersFit s.socket op
      rw [peersFit_perform_iff hlist.1 (by rwa [hlist.2]), hlist.2]
  | launch order =>
      exact Outcome.forEach_state_iff (I := Filed n) (J := fun s => s.socket.PeersFit) order h hfit
        (fun a t ht => ht.launchTask a) (fun a t ht htfit => peersFit_launchTask_iff ht htfit a)
        fun a t ht => not_peersFit_launchTask ht a

/-- The runs in which all fds stay in bounds. -/
theorem inBounds_run_iff (mtx : Mutex) (n : FD) {es : List (TcpEvent T)}
    (hrun : Run (step mtx) (fun _ _ => True) (initial T n) es s) :
    Run.Throughout (step mtx) (fun _ _ => True) (fun s => InBounds s.socket.fdSet)
        (initial T n) es ↔
      Fits n ∧ Run (step mtx) (fun s e => True ∧ s.RegistersFit mtx e) (initial T n) es s := by
  have hinitial : (initial T n).Filed n := ⟨rfl, allEntries_empty⟩
  by_cases hn : Fits n
  · rw [and_iff_right hn]
    refine Run.throughout_iff (I := fun s => s.Filed n ∧ s.socket.PeersFit) hrun
      ⟨hinitial, allEntries_empty⟩ ?_ ?_ ?_
    · exact fun s hs => hs.1.inBounds_iff.mpr ⟨hn, hs.2⟩
    · intro s e hs _ he
      exact ⟨hs.1.step mtx e, (peersFit_step_iff hs.1 hs.2 e).mpr he⟩
    · intro s e hs _ he
      exact (peersFit_step_iff hs.1 hs.2 e).mp ((hs.1.step mtx e).inBounds_iff.mp he).2
  · -- the listening descriptor is watched from the start on
    refine iff_of_false (fun hall => ?_) fun h => hn h.1
    exact hn (hinitial.inBounds_iff.mp (hall [] _ List.nil_prefix (.nil _))).1

end TcpSystem

/-! ## `SocketSctp` -/

namespace SocketSctp

variable {mtx : Mutex} {s : SocketSctp} {io : SctpAnswers}

/-- The fds of all peers fit. -/
def PeersFit (s : SocketSctp) : Prop := AllEntries (fun _ peer => Fits peer.fd.fd) s.peers

/-- The watched set is in bounds exactly when the main descriptor and the peers' are. -/
theorem inBounds_fdSet_iff : InBounds s.fdSet ↔ Fits s.fd.fd ∧ s.PeersFit := by
  rw [inBounds_iff]
  constructor
  · intro h
    exact ⟨h _ (mem_fdSet.mpr (.inl rfl)),
      fun id peer hp => h _ (mem_fdSet.mpr (.inr ⟨id, peer, hp, rfl⟩))⟩
  · rintro ⟨hmain, hfit⟩ fd hfd
    rcases mem_fdSet.mp hfd with rfl | ⟨id, peer, hp, rfl⟩
    · exact hmain
    · exact hfit id peer hp

/-- The fd that is peeled off when a change is handled fits, unless it is closed again. -/
def ChangeFits (io : SctpAnswers) : Option (SacState × AssocId × IPSocket) →
    (AList fun _ : AssocId => SctpPeer) → Prop
  | some (.commUp, id, _), peers =>
      io.peerInfo = true → id ∉ peers → ∀ n, io.peeloff = some n → Fits n
  | _, _ => True

/-- After a notification the peers are in range exactly when the descriptor it registers is. -/
theorem allEntries_peersAfter_iff (change : Option (SacState × AssocId × IPSocket))
    (hfit : s.PeersFit) : AllEntries (fun _ (peer : SctpPeer) => Fits peer.fd.fd)
      (peersAfter io change s.peers) ↔ ChangeFits io change s.peers := by
  match change with
  | none => exact iff_of_true hfit trivial
  | some (.restart, _, _) => exact iff_of_true hfit trivial
  | some (.other, _, _) => exact iff_of_true hfit trivial
  | some (.cantStrAssoc, _, _) => exact iff_of_true hfit trivial
  | some (.shutdownComp, id, _) => exact iff_of_true (hfit.erase id) trivial
  | some (.commLost, id, _) => exact iff_of_true (hfit.erase id) trivial
  | some (.commUp, id, sender) =>
      cases hopen : io.peeloff with
      | none =>
          simp only [peersAfter, hopen]
          exact iff_of_true hfit fun _ _ n hn => absurd (hopen.symm.trans hn) (by simp)
      | some n =>
          rw [peersAfter_commUp hopen]
          -- the fd is registered if the peer is made and its key is free
          by_cases hnew : io.peerInfo = true ∧ id ∉ s.peers
          · rw [if_pos hnew, allEntries_insert_iff hnew.2]
            refine (and_iff_right hfit).trans ⟨fun hn _ _ n' hn' => ?_, fun h =>
              h hnew.1 hnew.2 n hopen⟩
            rwa [← Option.some.inj (hopen.symm.trans hn')]
          · rw [if_neg hnew]
            exact iff_of_true hfit fun hinfo hid => absurd ⟨hinfo, hid⟩ hnew

/-- The fd that a call registers fits. -/
def RegistersFit (s : SocketSctp) : SctpOp → Prop
  | .handleMessage fd io => ChangeFits io (handled fd io s) s.peers
  | _ => True

/-- **A call keeps all fds in bounds exactly if the one it registers fits.** The main socket stays
the same. -/
theorem peersFit_call_iff (mtx : Mutex) (op : SctpOp) (hfit : s.PeersFit) :
    (after (call mtx op ⟨s, false⟩)).object.fd = s.fd ∧
      ((after (call mtx op ⟨s, false⟩)).object.PeersFit ↔ RegistersFit s op) := by
  -- all calls but the handling of a message leave the table
  have hquiet : (∀ fd io, op ≠ .handleMessage fd io) →
      (after (call mtx op ⟨s, false⟩)).object.fd = s.fd ∧
        (after (call mtx op ⟨s, false⟩)).object.PeersFit := by
    intro hop
    have hkeeps : Keeps (fun s' : SocketSctp => s'.fd = s.fd ∧ s'.PeersFit) (call mtx op) :=
      keeps_call op hop fun _ _ h => h
    exact hkeeps ⟨s, false⟩ ⟨rfl, hfit⟩
  cases op with
  | handleMessage fd io =>
      have heffect := effect_handleMessage mtx fd io s
      refine ⟨heffect.fd, ?_⟩
      show AllEntries _ (after (handleMessage mtx fd io ⟨s, false⟩)).object.peers ↔ _
      rw [heffect.peers]
      exact allEntries_peersAfter_iff _ hfit
  | connect remotes =>
      exact (hquiet fun _ _ => SctpOp.noConfusion).imp_right fun h => iff_of_true h trivial
  | connectMultihomed remotes ok =>
      exact (hquiet fun _ _ => SctpOp.noConfusion).imp_right fun h => iff_of_true h trivial
  | send order ok msg =>
      exact (hquiet fun _ _ => SctpOp.noConfusion).imp_right fun h => iff_of_true h trivial
  | selectFds ready =>
      exact (hquiet fun _ _ => SctpOp.noConfusion).imp_right fun h => iff_of_true h trivial

end SocketSctp

namespace SctpSystem

variable {T : TaskScheduler IPSocket} {mtx : Mutex} {s : SctpSystem T} {n : FD}

/-- The fds that an event registers fit. A launch registers none. -/
def RegistersFit (s : SctpSystem T) : SctpEvent T → Prop
  | .call op => SocketSctp.RegistersFit s.socket op
  | _ => True

/-- The main socket and the peers of a system whose fds all fit. -/
structure FitsOn (n : FD) (s : SctpSystem T) : Prop where
  main : s.socket.fd.fd = n
  fit : s.socket.PeersFit

/-- An operation keeps the main descriptor, and the range exactly when what it registers fits. -/
theorem FitsOn.perform (h : s.FitsOn n) (mtx : Mutex) (op : SctpOp) :
    (s.perform mtx op).state.socket.fd.fd = n ∧
      ((s.perform mtx op).state.socket.PeersFit ↔ SocketSctp.RegistersFit s.socket op) := by
  obtain ⟨hfd, hiff⟩ := SocketSctp.peersFit_call_iff mtx op h.fit
  rw [state_perform]
  exact ⟨(congrArg FileDescriptor.fd hfd).trans h.main, hiff⟩

/-- A task registers nothing. -/
theorem FitsOn.launchTask (h : s.FitsOn n) (a : T.Ptr × SctpConnectAnswer) :
    (s.launchTask mtx a).state.FitsOn n := by
  obtain ⟨task, -, -, heq⟩ | ⟨-, heq⟩ := launchTask_cases mtx a s
  · obtain ⟨hmain, hiff⟩ := h.perform mtx (.connect [(task.function, a.2.succeeds)])
    rw [heq, Outcome.state_map]
    exact ⟨hmain, hiff.mpr trivial⟩
  · rw [heq]
    exact h

/-- **An event keeps all fds in bounds exactly if the one it registers fits.** -/
theorem FitsOn.step (h : s.FitsOn n) (mtx : Mutex) (e : SctpEvent T) :
    (step mtx s e).state.socket.fd.fd = n ∧
      ((step mtx s e).state.socket.PeersFit ↔ s.RegistersFit e) := by
  cases e with
  | advance d => exact ⟨h.main, iff_of_true h.fit trivial⟩
  | call op =>
      rw [SctpSystem.step, Outcome.state_map]
      exact h.perform mtx op
  | launch order =>
      have hlaunch : (SctpSystem.step mtx s (.launch order)).state.FitsOn n :=
        Outcome.forEach_state h fun a _ t ht => ht.launchTask a
      exact ⟨hlaunch.main, iff_of_true hlaunch.fit trivial⟩

/-- The runs in which all fds stay in bounds. -/
theorem inBounds_run_iff (mtx : Mutex) (n : FD) (bigMsgSize : ℕ) {es : List (SctpEvent T)}
    (hrun : Run (SctpSystem.step mtx) (fun _ _ => True) (initial T n bigMsgSize) es s) :
    Run.Throughout (SctpSystem.step mtx) (fun _ _ => True) (fun s => InBounds s.socket.fdSet)
        (initial T n bigMsgSize) es ↔
      Fits n ∧ Run (SctpSystem.step mtx) (fun s e => True ∧ s.RegistersFit e)
        (initial T n bigMsgSize) es s := by
  by_cases hn : Fits n
  · rw [and_iff_right hn]
    refine Run.throughout_iff (I := FitsOn n) hrun ⟨rfl, allEntries_empty⟩ ?_ ?_ ?_
    · exact fun s hs => SocketSctp.inBounds_fdSet_iff.mpr ⟨hs.main ▸ hn, hs.fit⟩
    · intro s e hs _ he
      obtain ⟨hmain, hiff⟩ := hs.step mtx e
      exact ⟨hmain, hiff.mpr he⟩
    · intro s e hs _ he
      exact (hs.step mtx e).2.mp (SocketSctp.inBounds_fdSet_iff.mp he).2
  · -- the main descriptor is watched from the start on
    refine iff_of_false (fun hall => ?_) fun h => hn h.1
    exact hn (SocketSctp.inBounds_fdSet_iff.mp (hall [] _ List.nil_prefix (.nil _))).1

end SctpSystem

/-! ## Both -/

/-- **No selection of a run writes behind the set exactly if every fd that is registered in it
fits**, the main socket's and those of the connections that are made, accepted and peeled off. -/
theorem inBounds_runs_iff {T : TaskScheduler IPSocket} (mtx : Mutex) (n : FD) (bigMsgSize : ℕ) :
    (∀ (es : List (TcpEvent T)) (s : TcpSystem T),
      Run (TcpSystem.step mtx) (fun _ _ => True) (TcpSystem.initial T n) es s →
      (Run.Throughout (TcpSystem.step mtx) (fun _ _ => True) (fun s => InBounds s.socket.fdSet)
          (TcpSystem.initial T n) es ↔
        Fits n ∧ Run (TcpSystem.step mtx) (fun s e => True ∧ s.RegistersFit mtx e)
          (TcpSystem.initial T n) es s)) ∧
    ∀ (es : List (SctpEvent T)) (s : SctpSystem T),
      Run (SctpSystem.step mtx) (fun _ _ => True) (SctpSystem.initial T n bigMsgSize) es s →
      (Run.Throughout (SctpSystem.step mtx) (fun _ _ => True) (fun s => InBounds s.socket.fdSet)
          (SctpSystem.initial T n bigMsgSize) es ↔
        Fits n ∧ Run (SctpSystem.step mtx) (fun s e => True ∧ s.RegistersFit e)
          (SctpSystem.initial T n bigMsgSize) es s) :=
  ⟨fun _ _ hrun => TcpSystem.inBounds_run_iff mtx n hrun,
    fun _ _ hrun => SctpSystem.inBounds_run_iff mtx n bigMsgSize hrun⟩

/-- A connection on fd 4, and an association that is peeled off to fd 4. -/
theorem inBounds_sample :
    Run.Throughout (TcpSystem.step .plain) (fun _ _ => True) (fun s => InBounds s.socket.fdSet)
        (TcpSystem.initial (.table IPSocket) 3) [.call TcpSystem.sampleConnect] ∧
      Run.Throughout (SctpSystem.step .plain) (fun _ _ => True) (fun s => InBounds s.socket.fdSet)
        (SctpSystem.initial (.table IPSocket) 3 0) [SctpSystem.sampleEvent 3 .commUp 7] := by
  have hfits : ∀ n : FD, some (4 : FD) = some n → Fits n := by
    intro n hn
    obtain rfl := Option.some.inj hn
    decide
  obtain ⟨htcp, hsctp⟩ := inBounds_runs_iff (T := .table IPSocket) .plain 3 0
  refine ⟨(htcp _ _ (.cons trivial rfl (.nil _))).mpr ⟨by decide, ?_⟩,
    (hsctp _ _ (.cons trivial rfl (.nil _))).mpr ⟨by decide, ?_⟩⟩
  · exact .cons ⟨trivial, fun _ => ⟨hfits, trivial⟩⟩ rfl (.nil _)
  · exact .cons ⟨trivial, fun _ _ => hfits⟩ rfl (.nil _)

/-- **The fd 1024** is accepted by a `SocketTcp`, and entered by a `SocketSctp`. -/
theorem not_inBounds :
    (¬ ∀ (n : FD) (es : List (TcpEvent (.table IPSocket))) (s : TcpSystem (.table IPSocket)),
      Fits n → Run (TcpSystem.step .plain) (fun _ _ => True)
        (TcpSystem.initial (.table IPSocket) n) es s → InBounds s.socket.fdSet) ∧
    ¬ ∀ (n : FD) (es : List (SctpEvent (.table IPSocket))) (s : SctpSystem (.table IPSocket)),
      Fits n → Run (SctpSystem.step .plain) (fun _ _ => True)
        (SctpSystem.initial (.table IPSocket) n 0) es s → InBounds s.socket.fdSet := by
  constructor
  · intro h
    let io : TcpAnswers := ⟨.accepted 1024 TcpSystem.sampleRemote, 1, .failed .eintr, true⟩
    have hbounds := h 3 [.call (.handleMessage 3 io)] _ (by decide) (.cons trivial rfl (.nil _))
    exact absurd ((SocketTcp.inBounds_fdSet_iff.mp hbounds).2 1024 _ rfl) (by decide)
  · intro h
    let io : SctpAnswers := { SocketSctp.sampleChange .commUp 7 with peeloff := some 1024 }
    have hbounds := h 3 [.call (.handleMessage 3 io)] _ (by decide) (.cons trivial rfl (.nil _))
    exact absurd ((SocketSctp.inBounds_fdSet_iff.mp hbounds).2 7 _ rfl) (by decide)

end SctpSandbox

import SctpSandbox.PeersMutex
import SctpSandbox.Tcp.Round

/-! # The peer table of `SocketTcp` under concurrent handlers

All interleavings of the handlers that one `Socket::receive` starts, from every state a socket can
reach. `RoundInv` ties the table to the control points of the threads: it is the table of the start
without the peers whose handlers have ended in a shutdown or a loss, and with the connection that
was accepted, if one was. An accepted fd may reuse a number closed in the same round. -/

namespace SctpSandbox

namespace TcpPc

/-- The handler has work left to do. -/
def Running : TcpPc → Prop
  | .idle => False
  | .ended _ => False
  | _ => True

/-- The handler has removed its peer. -/
def removed : TcpPc → Bool
  | .ended .gracefulShutdown => true
  | .ended .commLost => true
  | _ => false

/-- The connection that the handler has accepted. -/
def accepted : TcpPc → Option (FD × TcpPeer)
  | .ended (.accepted n peer) => some (n, peer)
  | _ => none

/-- The handler has not ended by a failed lookup or hung on the mutex. -/
def Sound : TcpPc → Prop
  | .ended (.threw e) => e = .runtimeError
  | .ended .hung => False
  | _ => True

end TcpPc

namespace SocketTcp

open Call Pool

/-- A step of a handler as a thread: the mutex is free between the steps. -/
def act (fd : FD) (io : TcpAnswers) (pc : TcpPc) (s : SocketTcp) : TcpPc × SocketTcp :=
  asStep (fun e => .ended (.threw e)) (.ended .hung) (advance fd io pc) s

/-- What the kernel and the pool can answer to the handler of the listening socket: an fd that is
not open, and a buffer that is not in use. -/
def Possible (fd : FD) (io : TcpAnswers) (pc : TcpPc) (s : SocketTcp) : Prop :=
  pc.Running → fd = s.fd.fd → ∀ n, io.accept.opened = some n → FdFree n s ∧ BufferFree io.buffer s

/-- The handlers that `Socket::receive` starts. -/
def startRound (fds : List FD) (s : SocketTcp) : Pool FD SocketTcp TcpPc :=
  started .idle .start fds s

/-- Some steps of a round. -/
abbrev Round (fds : List FD) (s : SocketTcp) (p : Pool FD SocketTcp TcpPc) : Prop :=
  Interleaves act Possible (startRound fds s) p

/-- All handlers have ended. -/
def Joined (fds : List FD) (p : Pool FD SocketTcp TcpPc) : Prop :=
  ∀ fd ∈ fds, ∃ e, p.pc fd = .ended e

/-- The states a socket reaches by calls and by rounds of handlers. -/
inductive Reachable : SocketTcp → Prop
  | constructed (n : FD) : Reachable (constructed n)
  | connect {s : SocketTcp} (remotes : List (IPSocket × ConnectAnswer)) : Reachable s →
      ConnectFree remotes ⟨s, true⟩ →
      Reachable (after (connect .recursive remotes ⟨s, false⟩)).object
  | send {s : SocketTcp} (ok : FD → Bool) (msg : ChatMessage) : Reachable s →
      Reachable (after (send .recursive ok msg ⟨s, false⟩)).object
  | receive {s : SocketTcp} {ready : Option (FD → Bool)} {fds : List FD} {g : Guarded SocketTcp}
      {p : Pool FD SocketTcp TcpPc} : Reachable s →
      selectFds .recursive ready ⟨s, false⟩ = .ok fds g → Round fds s p → Joined fds p →
      Reachable p.shared

/-! ## Every step frees the mutex -/

/-- The lookup of a buffer gives the recursive mutex back. -/
theorem balanced_getBuffer (fd : FD) : Balanced false (getBuffer .recursive fd) :=
  .withLock ((balanced_peersAt fd).bind fun _ => balanced_pure _)

/-- The removal, called with the mutex held, leaves it held. -/
theorem balanced_remove (fd : FD) : Balanced true (remove .recursive fd) :=
  .withLock_recursive (balanced_modifyThis _)

/-- The shutdown gives the recursive mutex back. -/
theorem balanced_handleGracefulShutdown (fd : FD) :
    Balanced false (handleGracefulShutdown .recursive fd) :=
  .withLock ((balanced_peersAt fd).bind fun _ => balanced_remove fd)

/-- The loss gives the recursive mutex back. -/
theorem balanced_handleCommLost (fd : FD) : Balanced false (handleCommLost .recursive fd) := by
  refine .withLock ((balanced_peersAt fd).bind fun peer => ?_)
  refine Balanced.ite (fun _ => ?_) fun _ => balanced_remove fd
  exact (balanced_modifyThis _).bind fun _ => balanced_remove fd

/-- The receive does not touch the mutex. -/
theorem balanced_receiveInto (buffer : Buffer) (recv : RecvCall) :
    Balanced false (receiveInto buffer recv) := by
  cases recv with
  | failed err => exact balanced_raise _
  | wrote data =>
      rw [receiveInto]
      exact balanced_modifyThis _

/-- A step comes to its end and leaves the mutex free, so the next one starts with a free mutex. -/
theorem balanced_advance (fd : FD) (io : TcpAnswers) (pc : TcpPc) :
    Balanced false (advance fd io pc) := by
  cases pc with
  | idle => exact balanced_pure _
  | ended e => exact balanced_pure _
  | start =>
      -- one call of the source at each point
      refine balanced_this.bind fun s => .ite (fun _ => ?_) fun _ => ?_
      · exact (balanced_handleCommUp io).bind fun _ => balanced_pure _
      · exact (balanced_getBuffer fd).bind fun _ => balanced_pure _
  | receiving buffer =>
      exact (balanced_receiveInto buffer io.recv).catches.bind fun _ => balanced_pure _
  | commLost => exact (balanced_handleCommLost fd).bind fun _ => balanced_pure _
  | received => exact (balanced_getBuffer fd).bind fun _ => balanced_pure _
  | reading buffer =>
      exact (balanced_this.bind fun _ => balanced_pure _).bind fun _ => balanced_pure _
  | gracefulShutdown => exact (balanced_handleGracefulShutdown fd).bind fun _ => balanced_pure _
  | logging => exact (balanced_logMessage io).bind fun _ => balanced_pure _

variable {s s₀ s' : SocketTcp} {fd fd' n : FD} {io : TcpAnswers} {peer : TcpPeer}
  {p : Pool FD SocketTcp TcpPc} {pc pc' : TcpPc} {g : Guarded SocketTcp} {fds : List FD}

/-- A thread that does not run does nothing. -/
theorem act_of_not_running (h : ¬ pc.Running) : act fd io pc s = (pc, s) := by
  cases pc with
  | idle => rfl
  | ended e => rfl
  | _ => exact absurd trivial h

/-! ## What one step does -/

/-- What one step of the handler of `fd` does to its control point and to the object. -/
inductive Step (fd : FD) (s : SocketTcp) : TcpPc → TcpPc × SocketTcp → Prop
  /-- The table stays, and a handler that ends has removed and accepted nothing. -/
  | quiet {pc pc' : TcpPc} {s' : SocketTcp} : pc.Running → s'.Consistent → s'.fd = s.fd →
      s'.peers = s.peers → pc'.removed = false → pc'.accepted = none → pc'.Sound →
      (fd = s.fd.fd → ¬ pc'.Running) → Step fd s pc (pc', s')
  | accept {n : FD} {peer : TcpPeer} : fd = s.fd.fd → (s.entered n peer).Consistent →
      n ∉ s.peers → Step fd s .start (.ended (.accepted n peer), s.entered n peer)
  | remove {pc pc' : TcpPc} {s' : SocketTcp} : pc.Running →
      fd ≠ s.fd.fd → s'.Consistent → s'.fd = s.fd → s'.peers = s.peers.erase fd →
      pc'.removed = true → Step fd s pc (pc', s')

/-- The step of the listening socket's handler. -/
theorem step_main (hs : s.Consistent) (h : fd = s.fd.fd) (hok : Possible fd io .start s) :
    Step fd s .start (act fd io .start s) := by
  have hrun : advance fd io .start ⟨s, false⟩ = _ := advance_main h
  cases haccept : io.accept with
  | failed =>
      rw [bind_error (handleCommUp_failed haccept)] at hrun
      rw [act, asStep_exception hrun]
      exact .quiet trivial hs rfl rfl rfl rfl rfl fun _ => not_false
  | undecodable n =>
      obtain ⟨hn, -⟩ := hok trivial h n (by rw [haccept]; rfl)
      -- the new fd is closed again while the exception leaves the scope
      rw [bind_error (handleCommUp_undecodable haccept)] at hrun
      rw [act, asStep_exception hrun]
      exact .quiet trivial (hs.dropped hn) rfl rfl rfl rfl rfl fun _ => not_false
  | accepted n remote =>
      obtain ⟨hn, hb⟩ := hok trivial h n (by rw [haccept]; rfl)
      have hnew := hs.notMem_of_free hn
      rw [bind_ok (handleCommUp_accepted haccept hnew)] at hrun
      have hend : acceptedEnd io = .accepted n (acceptedPeer n remote io.buffer) := by
        rw [acceptedEnd, haccept]
      rw [hend] at hrun
      rw [act, asStep_ok hrun]
      exact .accept h (hs.entered hn hb) hnew

/-- The step of a peer's handler, while the peer is in the table. -/
theorem step_peer (hs : s.Consistent) (h : fd ≠ s.fd.fd) (hp : s.peers.lookup fd = some peer)
    (hpc : pc.Running) : Step fd s pc (act fd io pc s) := by
  have hquiet : ∀ {pc' s'}, s'.Consistent → s'.fd = s.fd → s'.peers = s.peers →
      pc'.removed = false → pc'.accepted = none → pc'.Sound → Step fd s pc (pc', s') :=
    fun hc hfd hpeers hr ha hsound => .quiet hpc hc hfd hpeers hr ha hsound fun heq => absurd heq h
  cases pc with
  | idle => exact absurd hpc not_false
  | ended e => exact absurd hpc not_false
  | start =>
      rw [act, asStep_ok (advance_start h hp)]
      exact hquiet hs rfl rfl rfl rfl trivial
  | receiving buffer =>
      cases hrecv : io.recv with
      | failed err =>
          rw [act, asStep_ok (advance_failed hrecv)]
          exact hquiet hs rfl rfl rfl rfl trivial
      | wrote data =>
          rw [act, asStep_ok (advance_received hrecv)]
          exact hquiet (hs.congr rfl rfl) rfl rfl rfl rfl trivial
  | commLost =>
      -- the reconnect is scheduled first, and leaves the table as it is
      have hs' := hs.rescheduled peer
      have hfields : (s.rescheduled peer).peers = s.peers ∧ (s.rescheduled peer).fd = s.fd := by
        unfold rescheduled
        split <;> exact ⟨rfl, rfl⟩
      have hp' : (s.rescheduled peer).peers.lookup fd = some peer := by
        rw [hfields.1, hp]
      rw [act, asStep_ok (advance_commLost hp)]
      exact .remove hpc h (hs'.erased hp') hfields.2
        (congrArg (AList.erase fd) hfields.1) rfl
  | received =>
      rw [act, asStep_ok (advance_second hp)]
      exact hquiet hs rfl rfl rfl rfl trivial
  | reading buffer =>
      rw [act, asStep_ok advance_reading]
      split
      · exact hquiet hs rfl rfl rfl rfl trivial
      · exact hquiet hs rfl rfl rfl rfl trivial
  | gracefulShutdown =>
      rw [act, asStep_ok (advance_gracefulShutdown hp)]
      exact .remove hpc h (hs.erased hp) rfl rfl rfl
  | logging =>
      have hrun : advance fd io .logging ⟨s, false⟩ = _ := advance_logging
      unfold logMessage at hrun
      -- a failed query for the log line ends the handler, the peer stays
      by_cases hname : io.peername = true
      · rw [if_pos hname] at hrun
        rw [act, asStep_ok (hrun.trans rfl)]
        exact hquiet hs rfl rfl rfl rfl trivial
      · rw [if_neg hname] at hrun
        rw [act, asStep_exception (hrun.trans rfl)]
        exact hquiet hs rfl rfl rfl rfl rfl

/-! ## What a round does -/

/-- The peers of `s₀` whose handlers have not removed them. -/
def kept (s₀ : SocketTcp) (p : Pool FD SocketTcp TcpPc) (fd : FD) : Option TcpPeer :=
  if (p.pc fd).removed then none else s₀.peers.lookup fd

/-- The table that the control points of a round from `s₀` call for. -/
def table (s₀ : SocketTcp) (p : Pool FD SocketTcp TcpPc) (fd : FD) : Option TcpPeer :=
  match (p.pc s₀.fd.fd).accepted with
  | some (n, peer) => if fd = n then some peer else kept s₀ p fd
  | none => kept s₀ p fd

/-- A handler at work is that of the listening socket, before its only step, or of a peer. -/
def MayRun (s₀ : SocketTcp) (fd : FD) (pc : TcpPc) : Prop :=
  pc.Running → (fd = s₀.fd.fd → pc = .start) ∧ (fd ≠ s₀.fd.fd → fd ∈ s₀.peers)

/-- The invariant of a round from `s₀`. -/
structure RoundInv (s₀ : SocketTcp) (p : Pool FD SocketTcp TcpPc) : Prop where
  consistent : p.shared.Consistent
  listening : p.shared.fd = s₀.fd
  running : ∀ fd, MayRun s₀ fd (p.pc fd)
  table : ∀ fd, p.shared.peers.lookup fd = table s₀ p fd
  /-- The number of an accepted fd is a new one, or one that has been given back. -/
  fresh : ∀ n peer, (p.pc s₀.fd.fd).accepted = some (n, peer) → kept s₀ p n = none
  sound : ∀ fd, (p.pc fd).Sound

/-- A step of another thread keeps what is expected of this entry. -/
theorem kept_set_ne (h : fd ≠ fd') (r : TcpPc × SocketTcp) :
    kept s₀ (p.set fd' r) fd = kept s₀ p fd := by
  rw [kept, pc_set_ne _ _ h, kept]

/-- What is expected of an entry after its own thread's step: nothing, once it is removed. -/
theorem kept_set_self (r : TcpPc × SocketTcp) :
    kept s₀ (p.set fd r) fd = if r.1.removed then none else s₀.peers.lookup fd := by
  rw [kept, pc_set_self]

/-- A thread that runs has removed nothing yet. -/
theorem removed_of_running (h : pc.Running) : pc.removed = false := by
  cases pc with
  | ended e => exact absurd h not_false
  | _ => rfl

/-- A thread that runs has accepted nothing yet. -/
theorem accepted_of_running (h : pc.Running) : pc.accepted = none := by
  cases pc with
  | ended e => exact absurd h not_false
  | _ => rfl

/-- A thread that has removed its entry has accepted nothing and is at its end. -/
theorem accepted_of_removed (h : pc.removed = true) :
    pc.accepted = none ∧ pc.Sound ∧ ¬ pc.Running := by
  match pc, h with
  | .ended .gracefulShutdown, _ => exact ⟨rfl, trivial, not_false⟩
  | .ended .commLost, _ => exact ⟨rfl, trivial, not_false⟩

/-- A step that neither removes nor accepts leaves all peers as they are. -/
theorem kept_set_quiet (s₀ : SocketTcp) (hpc : (p.pc fd').removed = false) {r : TcpPc × SocketTcp}
    (hr : r.1.removed = false) (fd : FD) : kept s₀ (p.set fd' r) fd = kept s₀ p fd := by
  by_cases h : fd = fd'
  · rw [h, kept_set_self, hr, kept, hpc]
  · exact kept_set_ne h r

/-- A step that accepts nothing leaves what was accepted. -/
theorem accepted_set_quiet (hpc : (p.pc fd').accepted = none) {r : TcpPc × SocketTcp}
    (hr : r.1.accepted = none) (fd : FD) :
    ((p.set fd' r).pc fd).accepted = (p.pc fd).accepted := by
  by_cases h : fd = fd'
  · rw [h, pc_set_self, hr, hpc]
  · rw [pc_set_ne _ _ h]

/-- A peer whose handler is at work is kept. -/
theorem RoundInv.kept_running (h : RoundInv s₀ p) (hrun : (p.pc fd).Running)
    (hne : fd ≠ s₀.fd.fd) : ∃ peer, kept s₀ p fd = some peer := by
  obtain ⟨peer, hp⟩ := Option.isSome_iff_exists.mp
    (AList.lookup_isSome.mpr ((h.running fd hrun).2 hne))
  refine ⟨peer, ?_⟩
  rw [kept, removed_of_running hrun, if_neg Bool.false_ne_true, hp]

/-- Its number is not handed out by `accept4`. -/
theorem RoundInv.ne_accepted (h : RoundInv s₀ p) (hrun : (p.pc fd).Running)
    (hne : fd ≠ s₀.fd.fd) (hacc : (p.pc s₀.fd.fd).accepted = some (n, peer)) : fd ≠ n := by
  rintro rfl
  obtain ⟨peer', hkept⟩ := h.kept_running hrun hne
  rw [h.fresh fd peer hacc] at hkept
  exact Option.some_ne_none peer' hkept.symm

/-- So a handler at work finds its peer in the table. -/
theorem RoundInv.lookup_running (h : RoundInv s₀ p) (hrun : (p.pc fd).Running)
    (hne : fd ≠ s₀.fd.fd) : ∃ peer, p.shared.peers.lookup fd = some peer := by
  obtain ⟨peer, hkept⟩ := h.kept_running hrun hne
  refine ⟨peer, ?_⟩
  rw [h.table, SocketTcp.table]
  cases hacc : (p.pc s₀.fd.fd).accepted with
  | none => exact hkept
  | some new => exact (if_neg (h.ne_accepted hrun hne hacc)).trans hkept

/-- **The step lemma**: whatever a handler does, the table follows the control points. -/
theorem RoundInv.step (h : RoundInv s₀ p) {r : TcpPc × SocketTcp}
    (hstep : Step fd p.shared (p.pc fd) r) : RoundInv s₀ (p.set fd r) := by
  generalize hpc : p.pc fd = pc at hstep
  cases hstep with
  | @quiet _ pc' s' hrun hc hfd hpeers hrem hacc hsound hmain =>
      rw [← hpc] at hrun
      have hkept := kept_set_quiet s₀ (removed_of_running hrun)
        (r := (pc', s')) hrem
      have haccepted := accepted_set_quiet (accepted_of_running hrun) (r := (pc', s')) hacc s₀.fd.fd
      -- nobody was removed or accepted, so the table called for stays
      refine ⟨hc, hfd.trans h.listening, ?_, fun fd' => ?_, fun n peer hn => ?_, ?_⟩
      · refine forall_pc_set (P := MayRun s₀) (fun hrun' => ⟨fun heq => ?_, ?_⟩)
          fun fd _ => h.running fd
        · rw [← h.listening] at heq
          exact absurd hrun' (hmain heq)
        · exact (h.running fd hrun).2
      · rw [shared_set, hpeers, h.table, SocketTcp.table, SocketTcp.table, haccepted, hkept]
      · rw [haccepted] at hn
        rw [hkept]
        exact h.fresh n peer hn
      · exact forall_pc_set (P := fun _ => TcpPc.Sound) hsound fun fd _ => h.sound fd
  | @accept n peer hmain hc hnew =>
      have hrun : (p.pc fd).Running := hpc ▸ trivial
      have hmain' : fd = s₀.fd.fd := h.listening ▸ hmain
      have hkept := kept_set_quiet s₀ (removed_of_running hrun)
        (r := (.ended (.accepted n peer), p.shared.entered n peer)) rfl
      have haccepted : ((p.set fd (.ended (.accepted n peer), p.shared.entered n peer)).pc
          s₀.fd.fd).accepted = some (n, peer) := by
        rw [← hmain', pc_set_self]
        rfl
      -- Nothing was accepted before: the table is what the handlers have kept.
      have hbefore : ∀ fd', p.shared.peers.lookup fd' = kept s₀ p fd' := by
        intro fd'
        rw [h.table, SocketTcp.table, ← hmain', accepted_of_running hrun]
      refine ⟨hc, h.listening, ?_, fun fd' => ?_, fun n' peer' hn => ?_, ?_⟩
      · exact forall_pc_set (P := MayRun s₀) (fun hrun' => absurd hrun' not_false)
          fun fd _ => h.running fd
      · rw [shared_set, lookup_entered, hbefore, SocketTcp.table, haccepted, hkept]
      · rw [haccepted] at hn
        obtain ⟨rfl, rfl⟩ := Prod.mk.inj (Option.some.inj hn)
        rw [hkept, ← hbefore]
        exact AList.lookup_eq_none.mpr hnew
      · exact forall_pc_set (P := fun _ => TcpPc.Sound) trivial fun fd _ => h.sound fd
  | @remove _ pc' s' hrun hne hc hfd hpeers hrem =>
      rw [← hpc] at hrun
      rw [h.listening] at hne
      obtain ⟨hacc, hsound, hstop⟩ := accepted_of_removed hrem
      have haccepted := accepted_set_quiet (accepted_of_running hrun) (r := (pc', s')) hacc s₀.fd.fd
      have hself : kept s₀ (p.set fd (pc', s')) fd = none := by
        rw [kept_set_self, hrem, if_pos rfl]
      refine ⟨hc, hfd.trans h.listening, ?_, fun fd' => ?_, fun n peer' hn => ?_, ?_⟩
      · exact forall_pc_set (P := MayRun s₀) (fun hrun' => absurd hrun' hstop)
          fun fd _ => h.running fd
      · rw [shared_set, hpeers, SocketTcp.table, haccepted]
        by_cases heq : fd' = fd
        · -- an accepted connection is not the one erased: a handler still ran on that number
          rw [heq, AList.lookup_erase, hself]
          cases hbefore : (p.pc s₀.fd.fd).accepted with
          | none => rfl
          | some new => exact (if_neg (h.ne_accepted hrun hne hbefore)).symm
        · rw [AList.lookup_erase_ne heq, h.table, SocketTcp.table, kept_set_ne heq]
      · rw [haccepted] at hn
        by_cases heq : n = fd
        · rw [heq, hself]
        · rw [kept_set_ne heq]
          exact h.fresh n peer' hn
      · exact forall_pc_set (P := fun _ => TcpPc.Sound) hsound fun fd _ => h.sound fd

/-- A round starts in the invariant. -/
theorem roundInv_start (hs : s.Consistent) (hfds : ∀ fd ∈ fds, fd = s.fd.fd ∨ fd ∈ s.peers) :
    RoundInv s (startRound fds s) := by
  have hpc : ∀ fd, (startRound fds s).pc fd = .idle ∨
      fd ∈ fds ∧ (startRound fds s).pc fd = .start := pc_started TcpPc.idle TcpPc.start fds s
  -- nobody has removed or accepted anything yet
  have hnone : ∀ fd, ((startRound fds s).pc fd).removed = false ∧
      ((startRound fds s).pc fd).accepted = none ∧ ((startRound fds s).pc fd).Sound := by
    intro fd
    rcases hpc fd with h | ⟨-, h⟩ <;> rw [h] <;> exact ⟨rfl, rfl, trivial⟩
  refine ⟨hs, rfl, fun fd hrun => ?_, fun fd => ?_, fun n peer hn => ?_, fun fd => (hnone fd).2.2⟩
  · -- a thread that runs is at its start, on a selected descriptor
    rcases hpc fd with h | ⟨hmem, h⟩
    · exact absurd hrun (by rw [h]; exact not_false)
    · exact ⟨fun _ => h, fun hne => (hfds fd hmem).resolve_left hne⟩
  · rw [SocketTcp.table, (hnone s.fd.fd).2.1, kept, (hnone fd).1, if_neg Bool.false_ne_true]
    rfl
  · rw [(hnone s.fd.fd).2.1] at hn
    exact nomatch hn

/-- **The run lemma**: the invariant holds in every state of every interleaving. -/
theorem roundInv_of_round (hs : s.Consistent) (hfds : ∀ fd ∈ fds, fd = s.fd.fd ∨ fd ∈ s.peers)
    (hp : Round fds s p) : RoundInv s p := by
  refine hp.invariant (roundInv_start hs hfds) fun q fd io h hok => ?_
  by_cases hrun : (q.pc fd).Running
  · refine h.step ?_
    -- the step is that of the listening socket or of a peer still in the table
    by_cases hmain : fd = s.fd.fd
    · have hpc := (h.running fd hrun).1 hmain
      rw [hpc] at hok ⊢
      exact step_main h.consistent (hmain.trans (congrArg FileDescriptor.fd h.listening.symm)) hok
    · obtain ⟨peer, hp⟩ := h.lookup_running hrun hmain
      exact step_peer h.consistent (h.listening ▸ hmain) hp hrun
  · rw [act_of_not_running hrun, set_self]
    exact h

/-- Every state a socket reaches has a consistent table. -/
theorem Reachable.consistent (h : Reachable s) : s.Consistent := by
  induction h with
  | constructed n => exact consistent_constructed n
  | connect remotes _ hfree ih => exact ih.connect hfree
  | send ok msg _ ih => exact keeps_send ok msg ⟨_, false⟩ ih
  | receive _ hsel hp _ ih =>
      exact (roundInv_of_round ih (fun fd => ih.selected hsel) hp).consistent

/-- The table of `p`, in a round that started at `s`, is in order. -/
structure TableInOrder (s : SocketTcp) (p : Pool FD SocketTcp TcpPc) : Prop where
  /-- No `peers.at(fd)` has failed, and no handler hangs on the mutex. -/
  lookups : ∀ fd, (p.pc fd).Sound
  /-- An entry is filed under the fd that its `FileDescriptor` owns. -/
  owner : ∀ fd peer, p.shared.peers.lookup fd = some peer → peer.fd = { fd := fd }
  distinct : ∀ fd fd' peer peer', p.shared.peers.lookup fd = some peer →
    p.shared.peers.lookup fd' = some peer' → peer.fd.fd = peer'.fd.fd → fd = fd'
  listening : ∀ fd peer, p.shared.peers.lookup fd = some peer → peer.fd.fd ≠ p.shared.fd.fd
  buffers : ∀ fd fd' peer peer', p.shared.peers.lookup fd = some peer →
    p.shared.peers.lookup fd' = some peer' → peer.msgBuffer = peer'.msgBuffer → fd = fd'
  /-- The table is that of `s` without the peers removed and with the connection accepted. -/
  table : ∀ fd, p.shared.peers.lookup fd = table s p fd
  fresh : ∀ n peer, (p.pc s.fd.fd).accepted = some (n, peer) → kept s p n = none

/-- **The peer table is consistent under concurrency**: in every state of every interleaving of a
round of handlers, from every state the socket can reach, so also when the last handler has
ended. The steps that are interleaved leave the mutex free, and they are those of `handleMessage`,
which does them in one go when nobody else moves. -/
theorem tableInOrder_of_round {ready : Option (FD → Bool)} (hs : Reachable s)
    (hsel : selectFds .recursive ready ⟨s, false⟩ = .ok fds g) (hp : Round fds s p) :
    TableInOrder s p ∧ (∀ fd io pc, Balanced false (advance fd io pc)) ∧
      ∀ (fd : FD) (io : TcpAnswers) (s : SocketTcp),
        (finish (advance fd io) 5 .start >>= fun _ => pure ()) ⟨s, false⟩ =
          handleMessage .recursive fd io ⟨s, false⟩ := by
  refine ⟨?_, balanced_advance, finish_eq_handleMessage⟩
  have h := roundInv_of_round hs.consistent (fun fd => hs.consistent.selected hsel) hp
  have howner : ∀ fd peer, p.shared.peers.lookup fd = some peer → peer.fd = { fd := fd } :=
    -- in every entry the key is the descriptor
    fun fd peer hp => h.consistent.owner hp
  refine ⟨h.sound, howner, fun fd fd' peer peer' hp hp' heq => ?_, fun fd peer hp heq => ?_,
    fun fd fd' peer peer' hp hp' heq => ?_, h.table, h.fresh⟩
  · rw [howner fd peer hp, howner fd' peer' hp'] at heq
    exact heq
  · rw [howner fd peer hp] at heq
    exact h.consistent.listening (heq ▸ mem_of_lookup hp)
  · exact h.consistent.sockets.buffers fd fd' _ _ (entry_peerTable hp) (entry_peerTable hp') heq

/-- A connection on fd 4 from a peer. -/
def sampleAccept : TcpAnswers :=
  { accept := .accepted 4 ⟨ascii "10.0.0.2" ++ List.replicate 8 0, 5000, afInet⟩
    buffer := 1
    recv := .wrote []
    peername := true }

/-- A socket that has accepted the connection. -/
def sampleSocket : SocketTcp :=
  (steps act [(3, sampleAccept)] (startRound [3] (constructed 3))).shared

/-- A round in which the peer closes its connection and fd 4 is accepted anew. -/
def sampleRound : Pool FD SocketTcp TcpPc :=
  steps act [(4, sampleAccept), (4, sampleAccept), (4, sampleAccept), (4, sampleAccept),
    (4, sampleAccept), (3, sampleAccept)] (startRound [3, 4] sampleSocket)

/-- The example's socket is reachable: a round from the constructed one leaves it. -/
theorem reachable_sampleSocket : Reachable sampleSocket := by
  have hsel : selectFds .recursive (some fun _ => true) ⟨constructed 3, false⟩ =
      .ok [3] ⟨constructed 3, false⟩ := by
    -- the constructed socket watches its listening descriptor alone
    have heq : selectFds .recursive (some fun _ => true) ⟨constructed 3, false⟩ =
      .ok (FDSet.select (constructed 3).fdSet fun _ => true) ⟨constructed 3, false⟩ := rfl
    rw [heq]
    simp [FDSet.select, fdSet, peerFds, constructed]
  refine .receive (.constructed 3) hsel (p := steps act [(3, sampleAccept)]
    (startRound [3] (constructed 3))) ?_ ?_
  · refine (Interleaves.refl _).steps ⟨fun _ _ n hn => ?_, trivial⟩
    obtain rfl : 4 = n := Option.some.inj hn
    exact ⟨⟨by decide, rfl⟩, PeerTable.bufferFree_ofPeers_empty (by decide)⟩
  · intro fd hfd
    obtain rfl := List.mem_singleton.mp hfd
    exact ⟨_, rfl⟩

/-- A round in which a descriptor is removed and handed out again. -/
theorem tableInOrder_sampleRound : TableInOrder sampleSocket sampleRound ∧
    (sampleRound.pc 4).removed = true ∧ 4 ∈ sampleRound.shared.peers := by
  have hsel : selectFds .recursive (some fun _ => true) ⟨sampleSocket, false⟩ =
      .ok [3, 4] ⟨sampleSocket, false⟩ := by
    have heq : selectFds .recursive (some fun _ => true) ⟨sampleSocket, false⟩ =
      .ok (FDSet.select sampleSocket.fdSet fun _ => true) ⟨sampleSocket, false⟩ := rfl
    have hfd : sampleSocket.fd.fd = 3 := rfl
    obtain ⟨peer, hentries, hpeer⟩ : ∃ peer : TcpPeer,
        sampleSocket.peers.entries = [⟨4, peer⟩] ∧ peer.fd.fd = 4 := ⟨_, rfl, rfl⟩
    have hset : sampleSocket.fdSet = [3, 4] := by
      simp [fdSet, peerFds, hfd, hentries, hpeer]
    rw [heq, hset, FDSet.select, List.filter_true, List.mergeSort_of_pairwise (by decide)]
    rfl
  refine ⟨(tableInOrder_of_round reachable_sampleSocket hsel
    ((Interleaves.refl _).steps ?_)).1, rfl, by decide⟩
  have hpeer : ∀ {s : SocketTcp} {pc}, s.fd.fd = 3 → Possible 4 sampleAccept pc s :=
    fun hfd _ heq => absurd (heq.trans hfd) (by decide)
  -- 4 is read and gone before 3 accepts it again
  refine ⟨hpeer rfl, hpeer rfl, hpeer rfl, hpeer rfl, hpeer rfl, fun _ _ n hn => ?_, trivial⟩
  obtain rfl : 4 = n := Option.some.inj hn
  exact ⟨⟨by decide, rfl⟩, PeerTable.bufferFree_ofPeers_empty (by decide)⟩

end SocketTcp

end SctpSandbox

import SctpSandbox.PeersMutex
import SctpSandbox.Sctp.Round

/-! # The peer table of `SocketSctp` under concurrent handlers

All interleavings of the handlers that one `Socket::receive` starts, from every state a socket can
reach. The table holds the associations whose last change was `SCTP_COMM_UP`; while a handler has
yet to act on a change, the entry of that association lags behind. That notifications arrive on the
socket that owns the association keeps two handlers from working on one association. -/

namespace SctpSandbox

/-- The last change of an association that decides whether it is up. -/
def lastChange (id : AssocId) : List (AssocId × SacState) → Option SacState
  | [] => none
  | (id', state) :: changes =>
      if id' = id ∧ state.decides = true then some state else lastChange id changes

/-- A change of another association, or one that decides nothing, is not the last change. -/
theorem lastChange_ne {id id' : AssocId} {state : SacState} {changes : List (AssocId × SacState)}
    (h : ¬ (id' = id ∧ state.decides = true)) :
    lastChange id ((id', state) :: changes) = lastChange id changes := if_neg h

/-- A change that decides is the last change of its association. -/
theorem lastChange_self {id : AssocId} {state : SacState} {changes : List (AssocId × SacState)}
    (h : state.decides = true) : lastChange id ((id, state) :: changes) = some state :=
  if_pos ⟨rfl, h⟩

namespace SocketSctp

open Call Pool

/-- The association is up. -/
def Up (s : SocketSctp) (id : AssocId) : Prop := lastChange id s.changes = some .commUp

/-- The socket on which notifications about an association arrive: the one it was peeled off to, or
else the main one. -/
def owner (s : SocketSctp) (id : AssocId) : FD :=
  match s.peers.lookup id with
  | some peer => peer.fd.fd
  | none => s.fd.fd

/-- A step of a handler as a thread: the mutex is free between the steps. -/
def act (fd : FD) (io : SctpAnswers) (pc : SctpPc) (s : SocketSctp) : SctpPc × SocketSctp :=
  asStep (fun e => .ended (.threw e)) (.ended .hung) (advance fd io pc) s

/-- What the kernel and the pool can answer. A change arrives with a sender that can be decoded, on
the socket that owns the association, and announces an association only while it is not in the
table; an announced association can be peeled off and queried. -/
def Possible (fd : FD) (io : SctpAnswers) : SctpPc → SocketSctp → Prop
  | .receiving, s => ∀ state id sender, io.recv = .notification (.assocChange state id) sender →
      state.decides = true →
        sender.isSome = true ∧ s.owner id = fd ∧ (state = .commUp → id ∉ s.peers)
  | .handling _ (.assocChange .commUp _), s => io.peerInfo = true ∧ ∃ n, io.peeloff = some n ∧
      s.peerTable.FdFree n ∧ s.peerTable.BufferFree io.buffer
  | _, _ => True

/-- The handlers that `Socket::receive` starts. -/
def startRound (fds : List FD) (s : SocketSctp) : Pool FD SocketSctp SctpPc :=
  started .idle .start fds s

/-- Some steps of a round. -/
abbrev Round (fds : List FD) (s : SocketSctp) (p : Pool FD SocketSctp SctpPc) : Prop :=
  Interleaves act Possible (startRound fds s) p

/-- All handlers have ended. -/
def Joined (fds : List FD) (p : Pool FD SocketSctp SctpPc) : Prop :=
  ∀ fd ∈ fds, ∃ e, p.pc fd = .ended e

/-- A `SocketSctp` just constructed, on the main socket `n`. -/
def constructed (n : FD) (bigMsgSize : ℕ) : SocketSctp :=
  { fd := { fd := n }, bigMsgSize := bigMsgSize, calls := [.adopted n] }

/-- The states a socket reaches by calls and by rounds of handlers. -/
inductive Reachable : SocketSctp → Prop
  | constructed (n : FD) (bigMsgSize : ℕ) : Reachable (constructed n bigMsgSize)
  | call {s : SocketSctp} (op : SctpOp) : Reachable s → (∀ fd io, op ≠ .handleMessage fd io) →
      Reachable (after (call .plain op ⟨s, false⟩)).object
  | receive {s : SocketSctp} {ready : Option (FD → Bool)} {fds : List FD} {g : Guarded SocketSctp}
      {p : Pool FD SocketSctp SctpPc} : Reachable s →
      selectFds .plain ready ⟨s, false⟩ = .ok fds g → Round fds s p → Joined fds p →
      Reachable p.shared

/-- A step comes to its end and leaves the mutex free, so the next one starts with a free mutex. -/
theorem balanced_advance (fd : FD) (io : SctpAnswers) (pc : SctpPc) :
    Balanced false (advance fd io pc) := by
  cases pc with
  | idle => exact balanced_pure _
  | ended e => exact balanced_pure _
  | start => exact (balanced_getBuffer fd).bind fun _ => balanced_pure _
  | receiving =>
      refine (balanced_recvmsg io.recv).bind fun received => ?_
      cases received with
      | some received => exact balanced_pure _
      | none => exact balanced_pure _
  | handling sender n =>
      -- one call of the handling in each branch, each of which gives the mutex back
      refine (balanced_logNotification n).bind fun _ => ?_
      unfold handleStep
      split
      · exact (balanced_peelOff _ io).bind fun _ => balanced_pure _
      · exact (balanced_scheduleReestablishment sender).bind fun _ => balanced_pure _
      · exact (balanced_remove _).bind fun _ => balanced_pure _
      · exact (balanced_remove _).bind fun _ => balanced_pure _
      · exact balanced_pure _
  | rescheduling sender =>
      exact (balanced_scheduleReestablishment sender).bind fun _ => balanced_pure _

variable {s s' : SocketSctp} {fd fd' n : FD} {io : SctpAnswers} {peer : SctpPeer} {id : AssocId}
  {p : Pool FD SocketSctp SctpPc} {pc pc' : SctpPc} {g : Guarded SocketSctp} {fds : List FD}
  {state : SacState}

/-- An association is owned by the descriptor of its peer. -/
theorem owner_some (h : s.peers.lookup id = some peer) : s.owner id = peer.fd.fd := by
  rw [owner, h]

/-- The owner depends on the entry and the main descriptor. -/
theorem owner_congr (hp : s'.peers.lookup id = s.peers.lookup id) (hfd : s'.fd = s.fd) :
    s'.owner id = s.owner id := by
  rw [owner, owner, hp, hfd]

/-- Membership depends on the entry. -/
theorem mem_congr (hp : s'.peers.lookup id = s.peers.lookup id) : id ∈ s'.peers ↔ id ∈ s.peers := by
  rw [← AList.lookup_isSome, hp, AList.lookup_isSome]

/-! ## What one step does -/

/-- What is known of a change that a handler has yet to act on. -/
structure Due (s : SocketSctp) (fd : FD) (id : AssocId) (state : SacState) : Prop where
  owner : s.owner id = fd
  last : lastChange id s.changes = some state
  absent : state = .commUp → id ∉ s.peers

/-- All that the handler has yet to act on is due. -/
def AllDue (s : SocketSctp) (fd : FD) (pc : SctpPc) : Prop :=
  ∀ id state, pc.Pending id state → Due s fd id state

/-- The handler will find its buffer. -/
def CanStart (s : SocketSctp) (fd : FD) (pc : SctpPc) : Prop := pc = .start → fd ∈ s.fdSet

/-- The handler has no change to act on. -/
def Quiet (pc : SctpPc) : Prop := ∀ id state, ¬ pc.Pending id state

/-- The handler has got its buffer, and has no change to act on. -/
structure Rests (pc : SctpPc) : Prop where
  quiet : Quiet pc
  started : pc ≠ .start
  sound : pc.Sound

/-- What one step of the handler of `fd` does to its control point and to the object. -/
inductive Step (fd : FD) (s : SocketSctp) : SctpPc → SctpPc × SocketSctp → Prop
  /-- The table stays, and no change is received that decides. -/
  | quiet {pc pc' : SctpPc} {s' : SocketSctp} : Quiet pc → Rests pc' → s'.peers = s.peers →
      s'.fd = s.fd → s'.peerTable = s.peerTable →
      (∀ id, lastChange id s'.changes = lastChange id s.changes) → Step fd s pc (pc', s')
  | received {sender : IPSocket} {id : AssocId} {state : SacState} : state.decides = true →
      s.owner id = fd → (state = .commUp → id ∉ s.peers) →
      Step fd s .receiving (.handling sender (.assocChange state id),
        { s with changes := (id, state) :: s.changes })
  | handled {pc pc' : SctpPc} {id : AssocId} {state : SacState} {s' : SocketSctp} :
      pc.Pending id state → Rests pc' → s'.Consistent → s'.fd = s.fd → s'.changes = s.changes →
      (∀ id', id' ≠ id → s'.peers.lookup id' = s.peers.lookup id') →
      (id ∈ s'.peers ↔ state = .commUp) → Step fd s pc (pc', s')

/-- A step that leaves the object as it is. -/
theorem Step.unchanged (hpc : Quiet pc) (hpc' : Rests pc') : Step fd s pc (pc', s) :=
  .quiet hpc hpc' rfl rfl rfl fun _ => rfl

/-- A round that has returned rests. -/
theorem rests_returned : Rests (.ended .returned) :=
  ⟨fun _ _ => not_false, SctpPc.noConfusion, trivial⟩

/-- A round that has thrown rests. -/
theorem rests_threw : Rests (.ended (.threw .runtimeError)) :=
  ⟨fun _ _ => not_false, SctpPc.noConfusion, rfl⟩

/-- The notification does not decide whether an association is up. -/
def Indifferent : SctpNotification → Prop
  | .assocChange state _ => state.decides = false
  | _ => True

/-- The handling of an indifferent notification is quiet. -/
theorem quiet_handling (n : SctpNotification) (h : Indifferent n) (sender : IPSocket) :
    Quiet (.handling sender n) := by
  cases n with
  | assocChange state' id' =>
      rintro id state ⟨-, rfl, hdec⟩
      exact Bool.false_ne_true (h.symm.trans hdec)
  | peerAddrChange addr => exact fun _ _ => not_false
  | other => exact fun _ _ => not_false

/-- The object after the arrival of a notification. -/
def keptChange (s : SocketSctp) : SctpNotification → SocketSctp
  | .assocChange state id => { s with changes := (id, state) :: s.changes }
  | _ => s

/-- What arrives is noted before anything is done about it. -/
theorem keepChange_eq (n : SctpNotification) :
    keepChange n ⟨s, false⟩ = .ok () ⟨s.keptChange n, false⟩ := by
  cases n with
  | assocChange state id => rfl
  | peerAddrChange addr => rfl
  | other => rfl

/-- A notification whose sender decodes is noted and handled next. -/
theorem advance_notification {n : SctpNotification} {sender : IPSocket}
    (hrecv : io.recv = .notification n (some sender)) : advance fd io .receiving ⟨s, false⟩ =
      .ok (.handling sender n) ⟨s.keptChange n, false⟩ := by
  have hmsg : recvmsg io.recv ⟨s, false⟩ = .ok (some (sender, n)) ⟨s.keptChange n, false⟩ := by
    rw [hrecv, recvmsg, bind_ok (keepChange_eq n)]
    rfl
  rw [advance, bind_ok hmsg]
  rfl

/-- A notification whose sender does not decode is noted and ends the round. -/
theorem advance_undecodable {n : SctpNotification} (hrecv : io.recv = .notification n none) :
    advance fd io .receiving ⟨s, false⟩ =
      .error (.exception .runtimeError) ⟨s.keptChange n, false⟩ := by
  have hmsg : recvmsg io.recv ⟨s, false⟩ =
      .error (.exception .runtimeError) ⟨s.keptChange n, false⟩ := by
    rw [hrecv, recvmsg, bind_ok (keepChange_eq n)]
    rfl
  rw [advance, bind_error hmsg]

/-- The arrival of a notification that does not decide. -/
theorem step_indifferent {n : SctpNotification} {sender : Option IPSocket}
    (hrecv : io.recv = .notification n sender) (hn : Indifferent n) :
    Step fd s .receiving (act fd io .receiving s) := by
  have hkept : (s.keptChange n).peers = s.peers ∧ (s.keptChange n).fd = s.fd ∧
      (s.keptChange n).peerTable = s.peerTable ∧
      ∀ id, lastChange id (s.keptChange n).changes = lastChange id s.changes := by
    cases n with
    | assocChange state id =>
        refine ⟨rfl, rfl, rfl, fun id' => lastChange_ne fun h => ?_⟩
        exact Bool.false_ne_true (hn.symm.trans h.2)
    | peerAddrChange addr => exact ⟨rfl, rfl, rfl, fun _ => rfl⟩
    | other => exact ⟨rfl, rfl, rfl, fun _ => rfl⟩
  obtain ⟨hpeers, hfd, htable, hlast⟩ := hkept
  -- a sender that cannot be decoded ends the handler, the notification has arrived all the same
  cases sender with
  | some sender =>
      rw [act, asStep_ok (advance_notification hrecv)]
      have hrests : Rests (.handling sender n) :=
        ⟨quiet_handling n hn sender, SctpPc.noConfusion, trivial⟩
      exact .quiet (fun _ _ => not_false) hrests hpeers hfd htable hlast
  | none =>
      rw [act, asStep_exception (advance_undecodable hrecv)]
      exact .quiet (fun _ _ => not_false) rests_threw hpeers hfd htable hlast

/-- The arrival of a message. -/
theorem step_receiving (hok : Possible fd io .receiving s) :
    Step fd s .receiving (act fd io .receiving s) := by
  cases hrecv : io.recv with
  | failed =>
      have hrun : advance fd io .receiving ⟨s, false⟩ =
          .error (.exception .runtimeError) ⟨s, false⟩ := by
        rw [advance, hrecv]
        rfl
      rw [act, asStep_exception hrun]
      exact .unchanged (fun _ _ => not_false) rests_threw
  | message data sender =>
      cases sender with
      | some sender =>
          have hrun : advance fd io .receiving ⟨s, false⟩ =
              .ok (.ended .returned) ⟨s, false⟩ := by
            rw [advance, hrecv]
            rfl
          rw [act, asStep_ok hrun]
          exact .unchanged (fun _ _ => not_false) rests_returned
      | none =>
          have hrun : advance fd io .receiving ⟨s, false⟩ =
              .error (.exception .runtimeError) ⟨s, false⟩ := by
            rw [advance, hrecv]
            rfl
          rw [act, asStep_exception hrun]
          exact .unchanged (fun _ _ => not_false) rests_threw
  | notification n sender =>
      cases n with
      | peerAddrChange addr => exact step_indifferent hrecv trivial
      | other => exact step_indifferent hrecv trivial
      | assocChange state id =>
          -- what the kernel can answer: a change that decides comes with a sender
          cases hdec : state.decides with
          | false => exact step_indifferent hrecv hdec
          | true =>
              obtain ⟨hsome, howner, habsent⟩ := hok state id sender hrecv hdec
              obtain ⟨sender, rfl⟩ := Option.isSome_iff_exists.mp hsome
              rw [act, asStep_ok (advance_notification hrecv)]
              exact .received hdec howner habsent

/-- The removal of an association. -/
theorem step_removed {sender : IPSocket} (hs : s.Consistent) (hpc' : Rests pc')
    (hdec : state.decides = true) (hne : state ≠ .commUp)
    (hrun : advance fd io (.handling sender (.assocChange state id)) ⟨s, false⟩ =
      (remove .plain id >>= fun _ => pure pc') ⟨s, false⟩) :
    Step fd s (.handling sender (.assocChange state id))
      (act fd io (.handling sender (.assocChange state id)) s) := by
  cases hp : s.peers.lookup id with
  | none =>
      -- the association was never up, or is gone already: `erase` finds nothing
      rw [bind_ok (remove_none hp)] at hrun
      rw [act, asStep_ok (hrun.trans rfl)]
      refine .handled ⟨rfl, rfl, hdec⟩ hpc' hs rfl rfl (fun _ _ => rfl)
        ⟨fun hmem => ?_, fun h => ?_⟩
      · exact absurd hmem (AList.lookup_eq_none.mp hp)
      · exact absurd h hne
  | some peer =>
      rw [bind_ok (remove_some hp)] at hrun
      rw [act, asStep_ok (hrun.trans rfl)]
      refine .handled ⟨rfl, rfl, hdec⟩ hpc' ?_ rfl rfl (fun id' hid => AList.lookup_erase_ne hid)
        ⟨fun hmem => ?_, fun h => ?_⟩
      · show (s.erased id peer).peerTable.Consistent
        rw [peerTable_erased]
        exact PeerTable.Consistent.erase hs (entry_peerTable hp)
      · exact absurd rfl (AList.mem_erase.mp hmem).1
      · exact absurd h hne

/-- The step that acts on a notification. -/
theorem step_handling {sender : IPSocket} {n : SctpNotification} (hs : s.Consistent)
    (hok : Possible fd io (.handling sender n) s)
    (hdue : AllDue s fd (.handling sender n)) :
    Step fd s (.handling sender n) (act fd io (.handling sender n) s) := by
  cases n with
  | other => exact .unchanged (quiet_handling .other trivial sender) rests_returned
  | peerAddrChange addr =>
      cases addr with
      | some addr =>
          exact .unchanged (quiet_handling (.peerAddrChange (some addr)) trivial sender)
            rests_returned
      | none =>
          exact .unchanged (quiet_handling (.peerAddrChange none) trivial sender) rests_threw
  | assocChange state id =>
      cases state with
      | restart =>
          exact .unchanged (quiet_handling (.assocChange .restart id) rfl sender) rests_returned
      | other =>
          exact .unchanged (quiet_handling (.assocChange .other id) rfl sender) rests_returned
      | cantStrAssoc =>
          exact .quiet (quiet_handling (.assocChange .cantStrAssoc id) rfl sender) rests_returned
            rfl rfl rfl fun _ => rfl
      | shutdownComp => exact step_removed hs rests_returned rfl SacState.noConfusion rfl
      | commLost =>
          -- the loss is acted on by the removal, the rescheduling is a step of its own
          have hrests : Rests (.rescheduling sender) :=
            ⟨fun _ _ => not_false, SctpPc.noConfusion, trivial⟩
          exact step_removed hs hrests rfl SacState.noConfusion rfl
      | commUp =>
          obtain ⟨hinfo, n, hopen, hn, hb⟩ := hok
          -- the entry is new: nobody else has announced the association
          have habsent := (hdue id .commUp ⟨rfl, rfl, rfl⟩).absent rfl
          have hrun : advance fd io (.handling sender (.assocChange .commUp id)) ⟨s, false⟩ =
              (peelOff .plain id io >>= fun _ => pure (.ended .returned)) ⟨s, false⟩ := rfl
          rw [bind_ok (peelOff_ok hopen hinfo habsent)] at hrun
          rw [act, asStep_ok (hrun.trans rfl)]
          refine .handled ⟨rfl, rfl, rfl⟩ rests_returned ?_ rfl rfl
            (fun id' hid => AList.lookup_insert_ne hid) ⟨fun _ => rfl, fun _ => ?_⟩
          · show (s.entered id n io.buffer).peerTable.Consistent
            rw [peerTable_entered]
            exact PeerTable.Consistent.enter hs hn hb id
          · exact (AList.mem_insert s.peers).mpr (.inl rfl)

/-- **What a step does**, in a state in which its control point is in order. -/
theorem step_spec (hs : s.Consistent) (hok : Possible fd io pc s) (hsound : pc.Sound)
    (hstart : CanStart s fd pc) (hdue : AllDue s fd pc) :
    Step fd s pc (act fd io pc s) := by
  cases pc with
  | idle =>
      exact .unchanged (fun _ _ => not_false) ⟨fun _ _ => not_false, SctpPc.noConfusion, trivial⟩
  | ended e =>
      exact .unchanged (fun _ _ => not_false) ⟨fun _ _ => not_false, SctpPc.noConfusion, hsound⟩
  | start =>
      -- the fd is the main socket or a peer, so that it has a buffer
      obtain ⟨b, hb⟩ : ∃ b, getBuffer .plain fd ⟨s, false⟩ = .ok b ⟨s, false⟩ :=
        hs.getBuffer_ok (hstart rfl)
      have hrun : advance fd io .start ⟨s, false⟩ = .ok .receiving ⟨s, false⟩ := by
        rw [advance, bind_ok hb]
        rfl
      rw [act, asStep_ok hrun]
      exact .unchanged (fun _ _ => not_false) ⟨fun _ _ => not_false, SctpPc.noConfusion, trivial⟩
  | receiving => exact step_receiving hok
  | handling sender n => exact step_handling hs hok hdue
  | rescheduling sender =>
      exact .quiet (fun _ _ => not_false) rests_returned rfl rfl rfl fun _ => rfl

/-! ## What a round does -/

/-- The invariant of a round. -/
structure RoundInv (p : Pool FD SocketSctp SctpPc) : Prop where
  consistent : p.shared.Consistent
  /-- The table holds the associations that are up, but for changes yet to be acted on. -/
  keys : ∀ id, (∀ fd state, ¬ (p.pc fd).Pending id state) → (id ∈ p.shared.peers ↔ p.shared.Up id)
  due : ∀ fd, AllDue p.shared fd (p.pc fd)
  started : ∀ fd, CanStart p.shared fd (p.pc fd)
  sound : ∀ fd, (p.pc fd).Sound

/-- A thread has at most one change pending. -/
theorem pending_unique {id' : AssocId} {state' : SacState} (h : pc.Pending id state)
    (h' : pc.Pending id' state') : id' = id ∧ state' = state := by
  cases pc with
  | handling sender n =>
      cases n with
      | assocChange st i =>
          obtain ⟨rfl, rfl, -⟩ := h
          obtain ⟨rfl, rfl, -⟩ := h'
          exact ⟨rfl, rfl⟩
      | peerAddrChange addr => exact absurd h not_false
      | other => exact absurd h not_false
  | _ => exact absurd h not_false

/-- Changes yet to be acted on stay so while other associations change. -/
theorem Due.congr (h : Due s fd id state) (hp : s'.peers.lookup id = s.peers.lookup id)
    (hfd : s'.fd = s.fd) (hlast : lastChange id s'.changes = lastChange id s.changes) :
    Due s' fd id state :=
  ⟨(owner_congr hp hfd).trans h.owner, hlast.trans h.last,
    fun hup => fun hmem => h.absent hup ((mem_congr hp).mp hmem)⟩

/-- The invariant is kept by a quiet step. -/
theorem RoundInv.quiet (h : RoundInv p) (hpc : Quiet (p.pc fd)) (hpc' : Rests pc')
    (hpeers : s'.peers = p.shared.peers) (hfd : s'.fd = p.shared.fd)
    (htable : s'.peerTable = p.shared.peerTable)
    (hlast : ∀ id, lastChange id s'.changes = lastChange id p.shared.changes) :
    RoundInv (p.set fd (pc', s')) := by
  -- what is watched depends on the fields that stay
  have hset : s'.fdSet = p.shared.fdSet := by
    rw [fdSet, fdSet, peerFds, peerFds, hpeers, hfd]
  refine ⟨?_, fun id hnone => ?_, ?_, ?_, ?_⟩
  · show s'.peerTable.Consistent
    exact htable ▸ h.consistent
  · -- what is pending afterwards was pending before
    have hbefore : ∀ fd' state, ¬ (p.pc fd').Pending id state := by
      intro fd' state
      by_cases heq : fd' = fd
      · exact heq ▸ hpc id state
      · have hnone' := hnone fd' state
        rwa [pc_set_ne _ _ heq] at hnone'
    rw [shared_set, Up, hpeers, hlast]
    exact h.keys id hbefore
  · refine forall_pc_set (P := AllDue s')
      (fun id state hpend => absurd hpend (hpc'.quiet id state)) fun fd' _ id state hpend => ?_
    exact (h.due fd' id state hpend).congr (by rw [hpeers]) hfd (hlast id)
  · refine forall_pc_set (P := CanStart s')
      (fun hst => absurd hst hpc'.started) fun fd' _ hst => ?_
    rw [hset]
    exact h.started fd' hst
  · -- who is between its calls is not at a start
    exact forall_pc_set (P := fun _ => SctpPc.Sound) hpc'.sound fun fd' _ => h.sound fd'

/-- The invariant is kept by the arrival of a change. -/
theorem RoundInv.received (h : RoundInv p) {sender : IPSocket} (hpc : p.pc fd = .receiving)
    (hdec : state.decides = true) (howner : p.shared.owner id = fd)
    (habsent : state = .commUp → id ∉ p.shared.peers) :
    RoundInv (p.set fd (.handling sender (.assocChange state id),
      { p.shared with changes := (id, state) :: p.shared.changes })) := by
  have hlast : ∀ id', id' ≠ id → lastChange id' ((id, state) :: p.shared.changes) =
      lastChange id' p.shared.changes := fun id' hne => lastChange_ne fun heq => hne heq.1.symm
  refine ⟨h.consistent, fun id' hnone => ?_, ?_, ?_, ?_⟩
  · -- `id` itself is pending now, so nothing is asked of its entry
    have hne : id' ≠ id := by
      rintro rfl
      refine hnone fd state ?_
      rw [pc_set_self]
      exact ⟨rfl, rfl, hdec⟩
    have hbefore : ∀ fd' state, ¬ (p.pc fd').Pending id' state := by
      intro fd' state'
      by_cases heq : fd' = fd
      · rw [heq, hpc]
        exact not_false
      · have hnone' := hnone fd' state'
        rwa [pc_set_ne _ _ heq] at hnone'
    rw [shared_set, Up, hlast id' hne]
    exact h.keys id' hbefore
  · refine forall_pc_set (P := AllDue
      { p.shared with changes := (id, state) :: p.shared.changes }) ?_ ?_
    · rintro id' state' ⟨rfl, rfl, -⟩
      exact ⟨howner, lastChange_self hdec, habsent⟩
    · intro fd' hfd id' state' hpend
      have hdue := h.due fd' id' state' hpend
      -- only the handler of the owner works on an association
      have hne : id' ≠ id := by
        rintro rfl
        exact hfd (hdue.owner.symm.trans howner)
      exact hdue.congr rfl rfl (hlast id' hne)
  · exact forall_pc_set (P := CanStart p.shared) SctpPc.noConfusion fun fd' _ => h.started fd'
  · exact forall_pc_set (P := fun _ => SctpPc.Sound) trivial fun fd' _ => h.sound fd'

/-- The invariant is kept by the handling of the pending change. -/
theorem RoundInv.handled (h : RoundInv p) (hpend : (p.pc fd).Pending id state) (hpc' : Rests pc')
    (hs : s'.Consistent) (hfd : s'.fd = p.shared.fd) (hch : s'.changes = p.shared.changes)
    (hp : ∀ id', id' ≠ id → s'.peers.lookup id' = p.shared.peers.lookup id')
    (hid : id ∈ s'.peers ↔ state = .commUp) : RoundInv (p.set fd (pc', s')) := by
  have hdue := h.due fd id state hpend
  refine ⟨hs, fun id' hnone => ?_, ?_, ?_, ?_⟩
  · rw [shared_set, Up, hch]
    -- `id` is no longer pending: its entry is what its last change asks for
    by_cases heq : id' = id
    · rw [heq, hid, hdue.last]
      exact Option.some_inj.symm
    · have hbefore : ∀ fd' state, ¬ (p.pc fd').Pending id' state := by
        intro fd' state' hpend'
        by_cases hfd' : fd' = fd
        · rw [hfd'] at hpend'
          exact heq (pending_unique hpend hpend').1
        · refine hnone fd' state' ?_
          rw [pc_set_ne _ _ hfd']
          exact hpend'
      rw [mem_congr (hp id' heq)]
      exact h.keys id' hbefore
  · refine forall_pc_set (P := AllDue s')
      (fun id state hpend => absurd hpend (hpc'.quiet id state)) fun fd' hne id' state' hpend' => ?_
    have hdue' := h.due fd' id' state' hpend'
    have hid' : id' ≠ id := by
      rintro rfl
      exact hne (hdue'.owner.symm.trans hdue.owner)
    exact hdue'.congr (hp id' hid') hfd (by rw [hch])
  · refine forall_pc_set (P := CanStart s')
      (fun hst => absurd hst hpc'.started) fun fd' hne hst => ?_
    -- a handler that has not started keeps its entry: the one that changed is that of `fd`
    rcases mem_fdSet.mp (h.started fd' hst) with hmain | ⟨id', peer, hlookup, hpeer⟩
    · exact mem_fdSet.mpr (.inl (hmain.trans (by rw [hfd])))
    · have hid' : id' ≠ id := by
        rintro rfl
        rw [← hpeer, ← hdue.owner, owner_some hlookup] at hne
        exact hne rfl
      exact mem_fdSet.mpr (.inr ⟨id', peer, (hp id' hid').trans hlookup, hpeer⟩)
  · exact forall_pc_set (P := fun _ => SctpPc.Sound) hpc'.sound fun fd' _ => h.sound fd'

/-- **The step lemma.** -/
theorem RoundInv.step (h : RoundInv p) {r : SctpPc × SocketSctp}
    (hstep : Step fd p.shared (p.pc fd) r) : RoundInv (p.set fd r) := by
  generalize hpc : p.pc fd = pc at hstep
  cases hstep with
  | quiet hq hpc' hpeers hfd htable hlast =>
      exact h.quiet (hpc ▸ hq) hpc' hpeers hfd htable hlast
  | received hdec howner habsent => exact h.received hpc hdec howner habsent
  | handled hpend hpc' hs hfd hch hp hid =>
      exact h.handled (hpc ▸ hpend) hpc' hs hfd hch hp hid

/-- What holds of a socket between two rounds. -/
structure Tracked (s : SocketSctp) : Prop where
  consistent : s.Consistent
  keys : ∀ id, id ∈ s.peers ↔ s.Up id

/-- A round starts in the invariant. -/
theorem roundInv_start (h : s.Tracked) (hfds : ∀ fd ∈ fds, fd ∈ s.fdSet) :
    RoundInv (startRound fds s) := by
  have hpc : ∀ fd, (startRound fds s).pc fd = .idle ∨
      fd ∈ fds ∧ (startRound fds s).pc fd = .start := pc_started SctpPc.idle SctpPc.start fds s
  have hquiet : ∀ fd, Quiet ((startRound fds s).pc fd) ∧ ((startRound fds s).pc fd).Sound := by
    intro fd
    rcases hpc fd with hpc | ⟨-, hpc⟩ <;> rw [hpc] <;> exact ⟨fun _ _ => not_false, trivial⟩
  -- nobody has anything pending at the start
  refine ⟨h.consistent, fun id _ => h.keys id, fun fd id state hpend => ?_, fun fd hst => ?_,
    fun fd => (hquiet fd).2⟩
  · exact absurd hpend ((hquiet fd).1 id state)
  · rcases hpc fd with hpc | ⟨hmem, -⟩
    · exact SctpPc.noConfusion (hpc.symm.trans hst)
    · exact hfds fd hmem

/-- **The run lemma**: the invariant holds in every state of every interleaving. -/
theorem roundInv_of_round (h : s.Tracked) (hfds : ∀ fd ∈ fds, fd ∈ s.fdSet) (hp : Round fds s p) :
    RoundInv p := by
  refine hp.invariant (roundInv_start h hfds) fun q fd io hq hok => ?_
  exact hq.step (step_spec hq.consistent hok (hq.sound fd) (hq.started fd) (hq.due fd))

/-- When all handlers have ended, no change is left to be acted on. -/
theorem quiet_of_joined (hp : Round fds s p) (hjoin : Joined fds p) (fd : FD) :
    Quiet (p.pc fd) := by
  by_cases hfd : fd ∈ fds
  · obtain ⟨e, he⟩ := hjoin fd hfd
    rw [he]
    exact fun _ _ => not_false
  · -- an fd outside the round has no handler
    have hidle : p.pc fd = .idle := hp.pc_eq (fun _ _ => rfl) (if_neg hfd)
    rw [hidle]
    exact fun _ _ => not_false

/-- When all threads have joined nothing is pending, so the table is that of the last changes. -/
theorem tracked_of_round (h : s.Tracked) (hfds : ∀ fd ∈ fds, fd ∈ s.fdSet) (hp : Round fds s p)
    (hjoin : Joined fds p) : p.shared.Tracked := by
  have hinv := roundInv_of_round h hfds hp
  exact ⟨hinv.consistent, fun id => hinv.keys id fun fd => quiet_of_joined hp hjoin fd id⟩

/-- Every state a socket reaches tracks the associations. -/
theorem Reachable.tracked (h : Reachable s) : s.Tracked := by
  induction h with
  | constructed n bigMsgSize =>
      refine ⟨PeerTable.consistent_ofPeers_empty (isOpen_adopted.mpr (.inl rfl)), fun id => ?_⟩
      exact ⟨fun hmem => absurd hmem (AList.notMem_empty id), fun hup => nomatch hup⟩
  | call op _ hop ih =>
      have hkeeps : Keeps Tracked (SocketSctp.call .plain op) :=
        keeps_call op hop fun s log hs => ⟨hs.consistent, hs.keys⟩
      exact hkeeps ⟨_, false⟩ ih
  | receive _ hsel hp hjoin ih =>
      exact tracked_of_round ih (fun fd => mem_fdSet_of_selected hsel) hp hjoin

/-- The arrival of a change, with fd 4 for what is peeled off. -/
def sampleChange (state : SacState) (id : AssocId) : SctpAnswers :=
  { recv := .notification (.assocChange state id)
      (some ⟨ascii "10.0.0.2" ++ List.replicate 8 0, 5000, afInet⟩)
    peeloff := some 4
    peerInfo := true
    buffer := 1 }

/-- A handler from its start to its end. -/
def sampleHandler (fd : FD) (state : SacState) (id : AssocId) : List (FD × SctpAnswers) :=
  List.replicate 3 (fd, sampleChange state id)

/-- A socket on which association 7 is up, on fd 4. -/
def sampleSocket : SocketSctp :=
  (steps act (sampleHandler 3 .commUp 7) (startRound [3] (constructed 3 0))).shared

/-- A round in which association 7 shuts down and association 8 is peeled off to fd 4. -/
def sampleRound : Pool FD SocketSctp SctpPc :=
  steps act (sampleHandler 4 .shutdownComp 7 ++ sampleHandler 3 .commUp 8)
    (startRound [3, 4] sampleSocket)

/-- The change of the example arrives where it may. -/
theorem possible_sampleChange (howner : s.owner id = fd)
    (habsent : state = .commUp → id ∉ s.peers) :
    Possible fd (sampleChange state id) .receiving s := by
  rintro state' id' sender hrecv -
  injection hrecv with hchange hsender
  injection hchange with hstate hid
  subst hstate hid hsender
  exact ⟨rfl, howner, habsent⟩

/-- The example's socket is reachable: a round from the constructed one leaves it. -/
theorem reachable_sampleSocket : Reachable sampleSocket := by
  have hsel : selectFds .plain (some fun _ => true) ⟨constructed 3 0, false⟩ =
      .ok [3] ⟨constructed 3 0, false⟩ := by
    have heq : selectFds .plain (some fun _ => true) ⟨constructed 3 0, false⟩ =
      .ok (FDSet.select (constructed 3 0).fdSet fun _ => true) ⟨constructed 3 0, false⟩ := rfl
    have hset : (constructed 3 0).fdSet = [3] := rfl
    rw [heq, hset, FDSet.select, List.filter_true, List.mergeSort_singleton]
    rfl
  -- 7 comes up on the listening descriptor
  refine .receive (.constructed 3 0) hsel (p := steps act (sampleHandler 3 .commUp 7)
    (startRound [3] (constructed 3 0))) ?_ ?_
  · refine (Interleaves.refl _).steps ⟨trivial, possible_sampleChange rfl fun _ => by decide,
      ⟨rfl, 4, rfl, ⟨by decide, rfl⟩, PeerTable.bufferFree_ofPeers_empty (by decide)⟩, trivial⟩
  · intro fd hfd
    obtain rfl := List.mem_singleton.mp hfd
    exact ⟨_, rfl⟩

end SocketSctp

end SctpSandbox

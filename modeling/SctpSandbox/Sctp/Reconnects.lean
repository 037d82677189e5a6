import SctpSandbox.Lib.Pending
import SctpSandbox.Lib.Run
import SctpSandbox.Sctp.Interleaving

/-! # Redundant reconnects of `SocketSctp`

Both ends of a lost association reconnect after the same delay, and whoever is second reconnects to
a remote with which an association is up: the table of peers does not say to which remotes they
belong, and a task once scheduled is not cancelled. The system is a socket with its scheduler, as
for `SocketTcp`; the state also keeps account of the remotes of the associations. -/

namespace SctpSandbox

open Call

/-- The kernel's answer to the `connect` of a reconnect task. -/
inductive SctpConnectAnswer where
  /-- The association is being established. -/
  | connecting
  /-- `EISCONN` or `EADDRNOTAVAIL`: there is an association with the remote already. -/
  | associated
  | failed
  deriving DecidableEq

/-- The call throws no exception. -/
def SctpConnectAnswer.succeeds (answer : SctpConnectAnswer) : Bool := answer = .connecting

/-- A `SocketSctp` with its scheduler, whose functions are `connect({remote})`. -/
structure SctpSystem (T : TaskScheduler IPSocket) where
  socket : SocketSctp
  scheduler : T.State := T.init
  /-- The clock. -/
  now : Time := 0
  /-- The sender of the `SCTP_COMM_UP` of an association. -/
  remote : AssocId → Option IPSocket := fun _ => none

/-- What happens to the socket. -/
inductive SctpEvent (T : TaskScheduler IPSocket) where
  /-- Time passes. -/
  | advance (d : Time)
  /-- A call of the network task; the user calls `connect`. -/
  | call (op : SctpOp)
  /-- `task_scheduler.launch()`, with the pointers in the order in which it looks at them and the
  answers to the `connect` of each task. -/
  | launch (order : List (T.Ptr × SctpConnectAnswer))

namespace SocketSctp

variable {mtx : Mutex} {s : SocketSctp} {fd : FD} {io : SctpAnswers} {id : AssocId}

/-! ## What a message does -/

/-- The association change that `handleMessage fd` comes to handle, with its sender. -/
def handled (fd : FD) (io : SctpAnswers) (s : SocketSctp) :
    Option (SacState × AssocId × IPSocket) :=
  if fd = s.fd.fd ∨ (findPeer fd s).isSome = true then
    match io.recv with
    | .notification (.assocChange state id) (some sender) => some (state, id, sender)
    | _ => none
  else none

/-- The associations in the table. -/
def associations (s : SocketSctp) : Set AssocId := {id | id ∈ s.peers}

/-- The associations in the table after a change is handled. -/
def associationsAfter (io : SctpAnswers) :
    Option (SacState × AssocId × IPSocket) → Set AssocId → Set AssocId
  | some (.commUp, id, _), ids =>
      if io.peeloff.isSome = true ∧ io.peerInfo = true then insert id ids else ids
  | some (.shutdownComp, id, _), ids => ids \ {id}
  | some (.commLost, id, _), ids => ids \ {id}
  | _, ids => ids

/-- The reconnects that are scheduled when a change is handled. -/
def scheduledBy : Option (SacState × AssocId × IPSocket) → List IPSocket
  | some (.cantStrAssoc, _, sender) => [sender]
  | some (.commLost, _, sender) => [sender]
  | _ => []

/-- A buffer is found for the main descriptor and for each peer's. -/
theorem getBuffer_known (mtx : Mutex) (h : fd = s.fd.fd ∨ (findPeer fd s).isSome = true) :
    ∃ b, getBuffer mtx fd ⟨s, false⟩ = .ok b ⟨s, false⟩ := by
  rcases h with rfl | h
  · exact ⟨_, getBuffer_main⟩
  · by_cases hmain : fd = s.fd.fd
    · rw [hmain]
      exact ⟨_, getBuffer_main⟩
    · obtain ⟨peer, hp⟩ := Option.isSome_iff_exists.mp h
      refine ⟨peer.msgBuffer, withLock_ok ⟨s, true⟩ rfl ?_⟩
      rw [bind_this, if_neg hmain, hp]
      rfl

/-- The lookup of any other descriptor's buffer throws. -/
theorem getBuffer_unknown (h : ¬ (fd = s.fd.fd ∨ (findPeer fd s).isSome = true)) :
    getBuffer mtx fd ⟨s, false⟩ = .error (.exception .pastTheEnd) ⟨s, false⟩ := by
  obtain ⟨hmain, hp⟩ := not_or.mp h
  refine withLock_exception ⟨s, true⟩ rfl ?_
  rw [bind_this, if_neg hmain, Option.not_isSome_iff_eq_none.mp hp]
  rfl

/-- The table after a change is handled. -/
def peersAfter (io : SctpAnswers) : Option (SacState × AssocId × IPSocket) →
    (AList fun _ : AssocId => SctpPeer) → AList fun _ : AssocId => SctpPeer
  | some (.commUp, id, _), peers =>
      match io.peeloff with
      | some n =>
          if io.peerInfo = true ∧ id ∉ peers then peers.insert id ⟨{ fd := n }, io.buffer⟩
          else peers
      | none => peers
  | some (.shutdownComp, id, _), peers => peers.erase id
  | some (.commLost, id, _), peers => peers.erase id
  | _, peers => peers

/-- A new association is entered when it can be peeled off and decoded and is not there yet. -/
theorem peersAfter_commUp {n : FD} {sender : IPSocket} {peers : AList fun _ : AssocId => SctpPeer}
    (hopen : io.peeloff = some n) : peersAfter io (some (.commUp, id, sender)) peers =
      if io.peerInfo = true ∧ id ∉ peers then peers.insert id ⟨{ fd := n }, io.buffer⟩
      else peers := by
  simp only [peersAfter, hopen]

/-- What becomes of a `SocketSctp` when a change is handled. -/
structure ChangeEffect (io : SctpAnswers) (change : Option (SacState × AssocId × IPSocket))
    (s s' : SocketSctp) : Prop where
  fd : s'.fd = s.fd
  peers : s'.peers = peersAfter io change s.peers
  reestablishments : s'.reestablishments = scheduledBy change ++ s.reestablishments

/-- The associations of the table after a change. -/
theorem ChangeEffect.associations {change : Option (SacState × AssocId × IPSocket)}
    {s' : SocketSctp} (h : ChangeEffect io change s s') :
    s'.associations = associationsAfter io change s.associations := by
  have hmem : s'.associations = {id | id ∈ peersAfter io change s.peers} := by
    rw [SocketSctp.associations, h.peers]
  rw [hmem]
  match change with
  | none => rfl
  | some (.restart, _, _) => rfl
  | some (.other, _, _) => rfl
  -- the same change of the ids in each case
  | some (.cantStrAssoc, _, _) => rfl
  | some (.shutdownComp, id, _) =>
      ext id'
      exact AList.mem_erase.trans and_comm
  | some (.commLost, id, _) =>
      ext id'
      exact AList.mem_erase.trans and_comm
  | some (.commUp, id, sender) =>
      have hids : ∀ ids, associationsAfter io (some (.commUp, id, sender)) ids =
          if io.peeloff.isSome = true ∧ io.peerInfo = true then insert id ids else ids :=
        fun _ => rfl
      rw [hids]
      cases hopen : io.peeloff with
      | none =>
          simp only [peersAfter, hopen]
          rfl
      | some n =>
          rw [peersAfter_commUp hopen]
          by_cases hinfo : io.peerInfo = true
          · by_cases hid : id ∈ s.peers
            · -- the key is taken, and the new peer destroyed
              rw [if_neg fun h => h.2 hid, if_pos ⟨rfl, hinfo⟩]
              exact (Set.insert_eq_of_mem (show id ∈ s.associations from hid)).symm
            · rw [if_pos ⟨hinfo, hid⟩, if_pos ⟨rfl, hinfo⟩]
              ext id'
              exact AList.mem_insert s.peers
          · rw [if_neg fun h => hinfo h.1, if_neg fun h => hinfo h.2]
            rfl

/-- A peel-off adds the association, unless a call on the way fails. -/
theorem effect_peelOff (mtx : Mutex) (id : AssocId) (sender : IPSocket) (io : SctpAnswers)
    (s : SocketSctp) : ChangeEffect io (some (.commUp, id, sender)) s
      (after (peelOff mtx id io ⟨s, false⟩)).object := by
  rw [peelOff, after_withLock_free _ rfl]
  cases hopen : io.peeloff with
  | none => exact ⟨rfl, by simp only [peersAfter, hopen]; rfl, rfl⟩
  | some n =>
      cases hinfo : io.peerInfo with
      | false =>
          refine ⟨rfl, ?_, rfl⟩
          rw [peersAfter_commUp hopen, if_neg fun h => by simp [hinfo] at h]
          rfl
      | true =>
          -- the constructor of the peer has succeeded, and `emplace` decides
          have hend : after (emplace id ⟨{ fd := n }, io.buffer⟩
              ⟨{ s with calls := .adopted n :: s.calls }, true⟩) = ⟨if id ∈ s.peers then
                { s with calls := FileDescriptor.destroy { fd := n } (.adopted n :: s.calls) }
                else s.entered id n io.buffer, true⟩ := rfl
          show ChangeEffect io (some (.commUp, id, sender)) s (after (emplace id
            ⟨{ fd := n }, io.buffer⟩ ⟨{ s with calls := .adopted n :: s.calls }, true⟩)).object
          rw [hend]
          by_cases hid : id ∈ s.peers
          · rw [if_pos hid]
            exact ⟨rfl, by rw [peersAfter_commUp hopen, if_neg fun h => h.2 hid], rfl⟩
          · rw [if_neg hid]
            exact ⟨rfl, by rw [peersAfter_commUp hopen, if_pos ⟨hinfo, hid⟩]; rfl, rfl⟩

/-- A removal erases one entry and touches neither the main descriptor nor the reconnects. -/
theorem effect_remove (mtx : Mutex) (id : AssocId) (s : SocketSctp) :
    ∃ s', remove mtx id ⟨s, false⟩ = .ok () ⟨s', false⟩ ∧ s'.fd = s.fd ∧
      s'.peers = s.peers.erase id ∧ s'.reestablishments = s.reestablishments := by
  cases hp : s.peers.lookup id with
  | none =>
      refine ⟨s, remove_none hp, rfl, ?_, rfl⟩
      exact (AList.ext (List.kerase_of_notMem_keys (AList.lookup_eq_none.mp hp))).symm
  | some peer => exact ⟨s.erased id peer, remove_some hp, rfl, rfl, rfl⟩

/-- What the handler of an association change does. -/
theorem effect_handle (mtx : Mutex) (state : SacState) (id : AssocId) (sender : IPSocket)
    (io : SctpAnswers) (s : SocketSctp) : ChangeEffect io (some (state, id, sender)) s
      (after (handle mtx sender (.assocChange state id) io ⟨s, false⟩)).object := by
  -- two of the changes are a removal, the second with a reconnect behind it
  obtain ⟨s', hremove, hfd, hpeers, hreconnects⟩ := effect_remove mtx id s
  cases state with
  | commUp => exact effect_peelOff mtx id sender io s
  | shutdownComp =>
      have hend : handle mtx sender (.assocChange .shutdownComp id) io ⟨s, false⟩ =
          .ok () ⟨s', false⟩ := hremove
      rw [hend]
      exact ⟨hfd, hpeers, hreconnects⟩
  | commLost =>
      have hend : handle mtx sender (.assocChange .commLost id) io ⟨s, false⟩ = .ok ()
          ⟨{ s' with reestablishments := sender :: s'.reestablishments }, false⟩ := by
        show handleCommLost mtx id sender ⟨s, false⟩ = _
        rw [handleCommLost, bind_ok hremove]
        rfl
      rw [hend]
      exact ⟨hfd, hpeers, congrArg (sender :: ·) hreconnects⟩
  | cantStrAssoc => exact ⟨rfl, rfl, rfl⟩
  | restart => exact ⟨rfl, rfl, rfl⟩
  | other => exact ⟨rfl, rfl, rfl⟩

/-- **What a message does** to the table and the reconnects, however it ends. -/
theorem effect_handleMessage (mtx : Mutex) (fd : FD) (io : SctpAnswers) (s : SocketSctp) :
    ChangeEffect io (handled fd io s) s (after (handleMessage mtx fd io ⟨s, false⟩)).object := by
  by_cases hfd : fd = s.fd.fd ∨ (findPeer fd s).isSome = true
  · obtain ⟨b, hbuffer⟩ := getBuffer_known mtx hfd
    rw [handleMessage, bind_ok hbuffer, handled, if_pos hfd]
    cases hrecv : io.recv with
    | failed => exact ⟨rfl, rfl, rfl⟩
    | message data sender =>
        cases sender with
        | none => exact ⟨rfl, rfl, rfl⟩
        | some sender => exact ⟨rfl, rfl, rfl⟩
    | notification n sender =>
        cases sender with
        | none =>
            -- the change is kept, and the sender throws
            cases n with
            | assocChange state id => exact ⟨rfl, rfl, rfl⟩
            | peerAddrChange addr => exact ⟨rfl, rfl, rfl⟩
            | other => exact ⟨rfl, rfl, rfl⟩
        | some sender =>
            cases n with
            | assocChange state id =>
                obtain ⟨hfd, hpeers, hreconnects⟩ := effect_handle mtx state id sender io
                  { s with changes := (id, state) :: s.changes }
                exact ⟨hfd, hpeers, hreconnects⟩
            | peerAddrChange addr =>
                cases addr with
                | none => exact ⟨rfl, rfl, rfl⟩
                | some addr => exact ⟨rfl, rfl, rfl⟩
            | other => exact ⟨rfl, rfl, rfl⟩
  · rw [handleMessage, bind_error (getBuffer_unknown hfd), handled, if_neg hfd]
    exact ⟨rfl, rfl, rfl⟩

end SocketSctp

namespace SctpSystem

variable {T : TaskScheduler IPSocket} {mtx : Mutex} {s s' : SctpSystem T} {r : IPSocket}

/-- The scheduler takes over what a call gave to `scheduleReestablishment`. -/
def handOver (socket : SocketSctp) (s : SctpSystem T) : SctpSystem T :=
  { s with
    socket := { socket with reestablishments := [] }
    scheduler := T.scheduleAll s.now reestablishmentDelay socket.reestablishments.reverse
      s.scheduler }

/-- The state after a call on the socket; a call that hangs does not return either. -/
def answer (r : EStateM.Result (Stop SocketError) (Guarded SocketSctp) Unit) (s : SctpSystem T) :
    Outcome (SctpSystem T) :=
  match r with
  | .ok _ g => .returned (s.handOver g.object)
  | .error _ g => .threw (s.handOver g.object)

/-- A call on the socket. -/
def perform (mtx : Mutex) (op : SctpOp) (s : SctpSystem T) : Outcome (SctpSystem T) :=
  s.answer (SocketSctp.call mtx op ⟨s.socket, false⟩)

/-- The association change that a call comes to handle. -/
def handled : SctpOp → SctpSystem T → Option (SacState × AssocId × IPSocket)
  | .handleMessage fd io, s => SocketSctp.handled fd io s.socket
  | _, _ => none

/-- Keep account of the remotes: an association that comes up belongs to the sender, unless there is
an entry of another under its number. -/
def remotesAfter : Option (SacState × AssocId × IPSocket) → SctpSystem T → AssocId → Option IPSocket
  | some (.commUp, id, sender), s =>
      if id ∈ s.socket.peers then s.remote else Function.update s.remote id (some sender)
  | _, s => s.remote

/-- One task of a launch: run if it is enabled and due, and accounted for after its run, also when
that throws. A reconnect that has thrown is over: it must not count as one that is still to come,
as it would if its task were left as it is. -/
def launchTask (mtx : Mutex) (a : T.Ptr × SctpConnectAnswer) (s : SctpSystem T) :
    Outcome (SctpSystem T) :=
  match T.enabled s.scheduler a.1 with
  | some task =>
      if task.due ≤ s.now then
        (s.perform mtx (.connect [(task.function, a.2.succeeds)])).map fun s =>
          { s with scheduler := T.complete s.scheduler s.now a.1 }
      else .returned s
  | none => .returned s

/-- A task of a launch runs, or it is not enabled or not due. -/
theorem launchTask_cases (mtx : Mutex) (a : T.Ptr × SctpConnectAnswer) (s : SctpSystem T) :
    (∃ task, T.enabled s.scheduler a.1 = some task ∧ task.due ≤ s.now ∧
      s.launchTask mtx a = (s.perform mtx (.connect [(task.function, a.2.succeeds)])).map fun s =>
        { s with scheduler := T.complete s.scheduler s.now a.1 }) ∨
    (∀ task, T.enabled s.scheduler a.1 = some task → ¬ task.due ≤ s.now) ∧
      s.launchTask mtx a = .returned s :=
  ScheduledTask.launch_cases (fun task htask => by rw [launchTask, htask])
    fun hnone => by rw [launchTask, hnone]

/-- The answer of the system to an event. -/
def step (mtx : Mutex) (s : SctpSystem T) : SctpEvent T → Outcome (SctpSystem T)
  | .advance d => .returned { s with now := s.now + d }
  | .call op => (s.perform mtx op).map fun s' => { s' with remote := s.remotesAfter (s.handled op) }
  | .launch order => Outcome.forEach (launchTask mtx) order s

/-- The system when the socket has just been constructed. -/
def initial (T : TaskScheduler IPSocket) (n : FD) (bigMsgSize : ℕ) : SctpSystem T :=
  { socket := .constructed n bigMsgSize }

/-! ## Redundant reconnects -/

/-- An association with a remote is in the table. -/
def Associated (r : IPSocket) (s : SctpSystem T) : Prop :=
  ∃ id ∈ s.socket.associations, s.remote id = some r

/-- Every reconnect that fires in a launch has a property. -/
def EachFired (mtx : Mutex) (ok : IPSocket → SctpConnectAnswer → SctpSystem T → Prop)
    (order : List (T.Ptr × SctpConnectAnswer)) (s : SctpSystem T) : Prop :=
  Outcome.EachMeets (fun a s => ∀ t, T.enabled s.scheduler a.1 = some t → t.due ≤ s.now →
    ok t.function a.2 s) (launchTask mtx) order s

/-- No reconnect fires, in whatever launch, to a remote with an association in the table, and the
kernel rejects none on account of one. -/
def NoneRedundant (mtx : Mutex) (s : SctpSystem T) : Prop := ∀ order,
  s.EachFired mtx (fun r _ s => ¬ s.Associated r) order ∧
    (s.EachFired mtx (fun r answer s => answer = .associated → s.Associated r) order →
      s.EachFired mtx (fun _ answer _ => answer ≠ .associated) order)

/-- The change of an association does not make a reconnect redundant: the association that comes up
has no reconnect pending to its remote, and a reconnect is scheduled to a remote with no association
that stays. -/
def Harmless (io : SctpAnswers) :
    Option (SacState × AssocId × IPSocket) → SctpSystem T → Prop
  | some (.commUp, id, sender), s => id ∉ s.socket.associations → io.peeloff.isSome = true →
      io.peerInfo = true → T.pending s.scheduler sender = ∅
  | some (.cantStrAssoc, _, sender), s => ¬ s.Associated sender
  | some (.commLost, id, sender), s =>
      ∀ id' ∈ s.socket.associations, s.remote id' = some sender → id' = id
  | _, _ => True

/-- The events whose association change is harmless. -/
def OneRecovers (s : SctpSystem T) : SctpEvent T → Prop
  | .call (.handleMessage fd io) => s.Harmless io (SocketSctp.handled fd io s.socket)
  | _ => True

/-- No reconnect is pending to a remote with an association in the table. -/
def Apart (s : SctpSystem T) : Prop :=
  ∀ r, (T.pending s.scheduler r).Nonempty → ¬ s.Associated r

/-- The scheduler has taken over all reconnects, and runs each once. -/
structure Settled (s : SctpSystem T) : Prop where
  handedOver : s.socket.reestablishments = []
  once : T.RunOnce s.scheduler

/-! ## Calls -/

/-- The state after an operation, whether it returns or throws. -/
theorem state_perform (op : SctpOp) (s : SctpSystem T) : (s.perform mtx op).state =
    s.handOver (after (SocketSctp.call mtx op ⟨s.socket, false⟩)).object := by
  unfold perform answer
  cases SocketSctp.call mtx op ⟨s.socket, false⟩ with
  | ok _ g => rfl
  | error _ g => rfl

/-- An operation keeps the system settled. -/
theorem Settled.perform (h : s.Settled) (mtx : Mutex) (op : SctpOp) :
    (s.perform mtx op).state.Settled := by
  rw [state_perform]
  exact ⟨rfl, h.once.scheduleAll _ _ _⟩

/-- The reconnects pending after a call: those before it, and those it has scheduled. -/
theorem pending_handOver (socket : SocketSctp) (s : SctpSystem T) (r : IPSocket) :
    (T.pending (s.handOver socket).scheduler r).Nonempty ↔
      r ∈ socket.reestablishments ∨ (T.pending s.scheduler r).Nonempty := by
  have heq : (s.handOver socket).scheduler = T.scheduleAll s.now reestablishmentDelay
      socket.reestablishments.reverse s.scheduler := rfl
  rw [heq, TaskScheduler.pending_scheduleAll_nonempty, List.mem_reverse]

/-- A call that handles no message leaves the associations and the reconnects alone. -/
theorem perform_quiet (h : s.Settled) (mtx : Mutex) (op : SctpOp)
    (hop : ∀ fd io, op ≠ .handleMessage fd io) :
    (s.perform mtx op).state.socket.associations = s.socket.associations ∧
      (s.perform mtx op).state.scheduler = s.scheduler := by
  have hkeeps : SocketSctp.associations (after (SocketSctp.call mtx op ⟨s.socket, false⟩)).object =
      s.socket.associations ∧ (after (SocketSctp.call mtx op
        ⟨s.socket, false⟩)).object.reestablishments = [] := by
    -- the quiet functions change neither the table nor the reconnects scheduled
    have hcall : Keeps (fun socket : SocketSctp => socket.associations = s.socket.associations ∧
        socket.reestablishments = []) (SocketSctp.call mtx op) :=
      SocketSctp.keeps_call op hop fun _ _ hs => hs
    exact hcall ⟨s.socket, false⟩ ⟨rfl, h.handedOver⟩
  rw [state_perform]
  refine ⟨hkeeps.1, ?_⟩
  show T.scheduleAll s.now reestablishmentDelay (after (SocketSctp.call mtx op
    ⟨s.socket, false⟩)).object.reestablishments.reverse s.scheduler = s.scheduler
  rw [hkeeps.2]
  rfl

/-- A message does to the associations and the reconnects what its association change says. -/
theorem perform_message (h : s.Settled) (mtx : Mutex) (fd : FD) (io : SctpAnswers) :
    (s.perform mtx (.handleMessage fd io)).state.socket.associations =
        SocketSctp.associationsAfter io (SocketSctp.handled fd io s.socket) s.socket.associations ∧
      ∀ r, (T.pending (s.perform mtx (.handleMessage fd io)).state.scheduler r).Nonempty ↔
        r ∈ SocketSctp.scheduledBy (SocketSctp.handled fd io s.socket) ∨
          (T.pending s.scheduler r).Nonempty := by
  have heffect := SocketSctp.effect_handleMessage mtx fd io s.socket
  have hreconnects := heffect.reestablishments
  rw [h.handedOver, List.append_nil] at hreconnects
  rw [state_perform]
  refine ⟨heffect.associations, fun r => ?_⟩
  rw [pending_handOver, ← hreconnects]
  rfl

/-! ## Association changes -/

/-- Fewer associations and fewer reconnects stay apart. -/
theorem Apart.mono (h : s.Apart) (hassoc : ∀ r, s'.Associated r → s.Associated r)
    (hpending : ∀ r, (T.pending s'.scheduler r).Nonempty → (T.pending s.scheduler r).Nonempty) :
    s'.Apart := fun r hr hassoc' => h r (hpending r hr) (hassoc r hassoc')

/-- `s'` is the state after an association change. -/
structure Changed (io : SctpAnswers) (change : Option (SacState × AssocId × IPSocket))
    (s s' : SctpSystem T) : Prop where
  associations : s'.socket.associations =
    SocketSctp.associationsAfter io change s.socket.associations
  remote : s'.remote = s.remotesAfter change
  pending : ∀ r, (T.pending s'.scheduler r).Nonempty ↔
    r ∈ SocketSctp.scheduledBy change ∨ (T.pending s.scheduler r).Nonempty

variable {io : SctpAnswers} {state : SacState} {id : AssocId} {sender : IPSocket}
  {change : Option (SacState × AssocId × IPSocket)}

/-- A change that schedules nothing and brings no association up keeps the two apart. -/
theorem Changed.apart_of_quiet (h : Changed io change s s') (hs : s.Apart)
    (hids : s'.socket.associations ⊆ s.socket.associations) (hremote : s'.remote = s.remote)
    (hnone : SocketSctp.scheduledBy change = []) : s'.Apart := by
  refine hs.mono ?_ fun r hr => ?_
  · rintro r ⟨id, hid, hr⟩
    exact ⟨id, hids hid, hremote ▸ hr⟩
  · have hr' := (h.pending r).mp hr
    rw [hnone] at hr'
    exact hr'.resolve_left List.not_mem_nil

/-- A reconnect scheduled keeps the two apart where no association with its remote is left. -/
theorem Changed.apart_scheduled_iff (h : Changed io change s s') (hs : s.Apart)
    (hids : s'.socket.associations ⊆ s.socket.associations) (hremote : s'.remote = s.remote)
    (hone : SocketSctp.scheduledBy change = [sender]) : s'.Apart ↔ ¬ s'.Associated sender := by
  -- the change schedules the one reconnect and takes none away
  have hpending : ∀ r, (T.pending s'.scheduler r).Nonempty ↔
      r = sender ∨ (T.pending s.scheduler r).Nonempty := by
    intro r
    rw [h.pending r, hone, List.mem_singleton]
  constructor
  · intro h'
    exact h' sender ((hpending sender).mpr (.inl rfl))
  · rintro hnone r hr ⟨id, hid, hrem⟩
    rcases (hpending r).mp hr with rfl | hr'
    · exact hnone ⟨id, hid, hrem⟩
    · exact hs r hr' ⟨id, hids hid, hremote ▸ hrem⟩

/-- An association that comes up keeps the two apart where no reconnect to its remote is pending. -/
theorem Changed.apart_commUp_iff (h : Changed io (some (.commUp, id, sender)) s s')
    (hs : s.Apart) : s'.Apart ↔ s.Harmless io (some (.commUp, id, sender)) := by
  -- a new association schedules nothing
  have hnone : ∀ r, (T.pending s'.scheduler r).Nonempty ↔ (T.pending s.scheduler r).Nonempty := by
    intro r
    rw [h.pending r]
    exact or_iff_right List.not_mem_nil
  by_cases hid : id ∈ s.socket.associations
  · -- the entry stays as it is
    have hremote : s'.remote = s.remote := h.remote.trans (if_pos hid)
    refine iff_of_true (h.apart_of_quiet hs ?_ hremote rfl) fun hid' => absurd hid hid'
    rw [h.associations, SocketSctp.associationsAfter, Set.insert_eq_of_mem hid, ite_self]
  · -- a new association is noted with its sender, the others keep theirs
    have hremote : s'.remote = Function.update s.remote id (some sender) :=
      h.remote.trans (if_neg hid)
    have hold : ∀ id' ∈ s.socket.associations, s'.remote id' = s.remote id' := by
      intro id' hid'
      have hne : id' ≠ id := fun heq => hid (heq ▸ hid')
      rw [hremote, Function.update_of_ne hne]
    have hids : s'.socket.associations = if io.peeloff.isSome = true ∧ io.peerInfo = true then
        insert id s.socket.associations else s.socket.associations := h.associations
    by_cases hpeel : io.peeloff.isSome = true ∧ io.peerInfo = true
    · rw [if_pos hpeel] at hids
      constructor
      · -- the new association must not find a reconnect pending
        intro h' _ _ _
        refine Set.not_nonempty_iff_eq_empty.mp fun hr => ?_
        refine h' sender ((hnone sender).mpr hr) ⟨id, ?_, ?_⟩
        · rw [hids]
          exact Set.mem_insert id _
        · rw [hremote, Function.update_self]
      · rintro hharmless r hr ⟨id', hid', hr'⟩
        rw [hids] at hid'
        rcases Set.mem_insert_iff.mp hid' with rfl | hid'
        · rw [hremote, Function.update_self] at hr'
          obtain rfl : sender = r := Option.some.inj hr'
          have hempty := hharmless hid hpeel.1 hpeel.2
          exact Set.not_nonempty_iff_eq_empty.mpr hempty ((hnone sender).mp hr)
        · exact hs r ((hnone r).mp hr) ⟨id', hid', hold id' hid' ▸ hr'⟩
    · -- it was not peeled off
      rw [if_neg hpeel] at hids
      refine iff_of_true (hs.mono ?_ fun r => (hnone r).mp) fun _ hopen hinfo => ?_
      · rintro r ⟨id', hid', hr'⟩
        rw [hids] at hid'
        exact ⟨id', hid', hold id' hid' ▸ hr'⟩
      · exact absurd ⟨hopen, hinfo⟩ hpeel

/-- **Exactly the harmless changes** keep the associations and the reconnects apart. -/
theorem Changed.apart_iff (h : Changed io change s s') (hs : s.Apart) :
    s'.Apart ↔ s.Harmless io change := by
  cases change with
  | none =>
      exact iff_of_true (h.apart_of_quiet hs h.associations.subset h.remote rfl) trivial
  | some c =>
      obtain ⟨state, id, sender⟩ := c
      cases state with
      | commUp => exact h.apart_commUp_iff hs
      | shutdownComp =>
          refine iff_of_true (h.apart_of_quiet hs ?_ h.remote rfl) trivial
          rw [h.associations]
          exact Set.sdiff_subset
      | restart =>
          exact iff_of_true (h.apart_of_quiet hs h.associations.subset h.remote rfl) trivial
      | other =>
          exact iff_of_true (h.apart_of_quiet hs h.associations.subset h.remote rfl) trivial
      | cantStrAssoc =>
          have hremote : s'.remote = s.remote := h.remote
          have hids : s'.socket.associations = s.socket.associations := h.associations
          -- the table keeps the association, and the sender must have none
          rw [h.apart_scheduled_iff hs hids.subset hremote rfl]
          unfold Associated
          rw [hids, hremote]
          exact Iff.rfl
      | commLost =>
          have hremote : s'.remote = s.remote := h.remote
          have hids : s'.socket.associations = s.socket.associations \ {id} := h.associations
          rw [h.apart_scheduled_iff hs (hids ▸ Set.sdiff_subset) hremote rfl]
          unfold Associated
          rw [hids, hremote]
          -- the association that was lost is out of the table and does not count
          constructor
          · intro hnone id' hid' hr'
            by_contra hne
            exact hnone ⟨id', ⟨hid', hne⟩, hr'⟩
          · rintro hall ⟨id', ⟨hid', hne⟩, hr'⟩
            exact hne (hall id' hid' hr')

/-! ## Steps -/

/-- A task of a launch takes a reconnect away, and touches no association. -/
theorem launchTask_keeps (h : s.Settled) (mtx : Mutex) (a : T.Ptr × SctpConnectAnswer) :
    (s.launchTask mtx a).state.Settled ∧ (s.Apart → (s.launchTask mtx a).state.Apart) := by
  -- a due task connects, which the table does not notice, and is completed
  obtain ⟨task, -, -, heq⟩ | ⟨-, heq⟩ := launchTask_cases mtx a s
  · rw [heq, Outcome.state_map]
    have hsettled := h.perform mtx (.connect [(task.function, a.2.succeeds)])
    obtain ⟨hids, hscheduler⟩ := perform_quiet h mtx
      (.connect [(task.function, a.2.succeeds)]) fun _ _ => SctpOp.noConfusion
    refine ⟨⟨hsettled.handedOver, hsettled.once.complete _ _⟩, fun hs => hs.mono ?_ ?_⟩
    · rintro r ⟨id, hid, hr⟩
      refine ⟨id, hids ▸ hid, ?_⟩
      rw [state_perform] at hr
      exact hr
    · intro r hr
      rw [TaskScheduler.pending_complete hsettled.once, hscheduler] at hr
      exact hr.mono Set.sdiff_subset
  · rw [heq]
    exact ⟨h, id⟩

/-- Step lemma: every step keeps the system settled. -/
theorem Settled.step (h : s.Settled) (e : SctpEvent T) : (step mtx s e).state.Settled := by
  cases e with
  | advance d => exact ⟨h.handedOver, h.once⟩
  | call op =>
      have hperform := h.perform mtx op
      rw [SctpSystem.step, Outcome.state_map]
      exact ⟨hperform.handedOver, hperform.once⟩
  | launch order => exact Outcome.forEach_state h fun a _ t ht => (launchTask_keeps ht mtx a).1

/-- A call that handles no message keeps the two apart. -/
theorem Apart.quiet (hs : s.Apart) (h : s.Settled) (mtx : Mutex) (op : SctpOp)
    (hop : ∀ fd io, op ≠ .handleMessage fd io) (hnone : s.handled op = none) :
    (step mtx s (.call op)).state.Apart := by
  obtain ⟨hids, hscheduler⟩ := perform_quiet h mtx op hop
  have hremote : s.remotesAfter (s.handled op) = s.remote := by
    rw [hnone]
    rfl
  rw [step, Outcome.state_map]
  refine hs.mono ?_ fun r hr => ?_
  · rintro r ⟨id, hid, hr⟩
    exact ⟨id, hids ▸ hid, hremote ▸ hr⟩
  · rw [hscheduler] at hr
    exact hr

/-- **Exactly the events whose change is harmless** keep the associations and the reconnects
apart. -/
theorem apart_step_iff (h : s.Settled) (hs : s.Apart) (e : SctpEvent T) :
    (step mtx s e).state.Apart ↔ s.OneRecovers e := by
  cases e with
  | advance d => exact iff_of_true hs trivial
  | call op =>
      cases op with
      | handleMessage fd io =>
          rw [step, Outcome.state_map]
          obtain ⟨hids, hpending⟩ := perform_message h mtx fd io
          exact Changed.apart_iff ⟨hids, rfl, hpending⟩ hs
      | connect remotes =>
          exact iff_of_true (hs.quiet h mtx _ (fun _ _ => SctpOp.noConfusion) rfl) trivial
      | connectMultihomed remotes ok =>
          exact iff_of_true (hs.quiet h mtx _ (fun _ _ => SctpOp.noConfusion) rfl) trivial
      | send order ok msg =>
          exact iff_of_true (hs.quiet h mtx _ (fun _ _ => SctpOp.noConfusion) rfl) trivial
      | selectFds ready =>
          exact iff_of_true (hs.quiet h mtx _ (fun _ _ => SctpOp.noConfusion) rfl) trivial
  | launch order =>
      -- a launch runs connects only, which leave the associations and take reconnects away
      refine iff_of_true ?_ trivial
      have hkeeps : (step mtx s (.launch order)).state.Settled ∧
          (step mtx s (.launch order)).state.Apart := by
        refine Outcome.forEach_state (P := fun s : SctpSystem T => s.Settled ∧ s.Apart) ⟨h, hs⟩
          fun a _ t ht => ?_
        obtain ⟨hsettled, hapart⟩ := launchTask_keeps ht.1 mtx a
        exact ⟨hsettled, hapart ht.2⟩
      exact hkeeps.2

/-! ## Reconnects that fire -/

/-- While the two are apart no reconnect that fires is redundant. -/
theorem Apart.noneRedundant (h : s.Settled) (hs : s.Apart) (mtx : Mutex) :
    s.NoneRedundant mtx := by
  intro order
  have hfired : s.EachFired mtx (fun r _ s => ¬ s.Associated r) order := by
    induction order generalizing s with
    | nil => trivial
    | cons a order ih =>
        -- a reconnect that is due is pending, so its remote is apart
        refine ⟨fun t henabled _ => ?_, fun s' hs' => ?_⟩
        · exact hs t.function ⟨a.1, t, henabled, rfl⟩
        · have hkeeps := launchTask_keeps h mtx a
          rw [hs'] at hkeeps
          exact ih hkeeps.1 (hkeeps.2 hs)
  refine ⟨hfired, fun hanswers => ?_⟩
  refine (Outcome.EachMeets.and hfired hanswers).imp fun a s hboth t henabled hdue hrejected => ?_
  exact hboth.1 t henabled hdue (hboth.2 t henabled hdue hrejected)

/-- **Otherwise one is, as soon as it is due.** -/
theorem noneRedundant_advance_iff (h : s.Settled) :
    (∀ d, (step mtx s (.advance d)).state.NoneRedundant mtx) ↔ s.Apart := by
  constructor
  · rintro hnone r ⟨p, t, henabled, rfl⟩ hassoc
    have hfired := (hnone t.due [(p, .connecting)]).1
    exact hfired.1 t henabled (Nat.le_add_left _ _) hassoc
  · intro hs d
    have hs' : (step mtx s (.advance d)).state.Apart :=
      (apart_step_iff h hs (.advance d)).mpr trivial
    exact hs'.noneRedundant (h.step (.advance d)) mtx

/-- **No reconnect is redundant** in a run whose changes are harmless; and after any other change
one is, unless something else happens before it is due. -/
theorem noneRedundant_of_run (mtx : Mutex) (n : FD) (bigMsgSize : ℕ) {es : List (SctpEvent T)}
    (hrun : Run (step mtx) (fun s e => s.OneRecovers e) (initial T n bigMsgSize) es s) :
    s.NoneRedundant mtx ∧ ∀ e,
      (∀ d, (step mtx (step mtx s e).state (.advance d)).state.NoneRedundant mtx) ↔
        s.OneRecovers e := by
  have hinitial : (initial T n bigMsgSize).Settled ∧ (initial T n bigMsgSize).Apart := by
    refine ⟨⟨rfl, TaskScheduler.runOnce_init⟩, fun r _ => ?_⟩
    rintro ⟨id, hid, -⟩
    exact AList.notMem_empty id hid
  have hs : s.Settled ∧ s.Apart := by
    refine hrun.invariant_state (I := fun s : SctpSystem T => s.Settled ∧ s.Apart) hinitial ?_
    intro s e hs he
    exact ⟨hs.1.step e, (apart_step_iff hs.1 hs.2 e).mpr he⟩
  refine ⟨hs.2.noneRedundant hs.1 mtx, fun e => ?_⟩
  rw [noneRedundant_advance_iff (hs.1.step e), apart_step_iff hs.1 hs.2]

/-- An association change from the one remote of the sample, in `fd`'s messages. -/
def sampleEvent (fd : FD) (state : SacState) (id : AssocId) : SctpEvent (.table IPSocket) :=
  .call (.handleMessage fd (SocketSctp.sampleChange state id))

/-- Association 7 was up and is lost. -/
def sampleLost : SctpSystem (.table IPSocket) :=
  (step .plain (step .plain (initial (.table IPSocket) 3 0) (sampleEvent 3 .commUp 7)).state
    (sampleEvent 4 .commLost 7)).state

/-- The remote reconnects after three seconds, and two more pass. -/
def sampleRecovered : SctpSystem (.table IPSocket) :=
  (step .plain (step .plain (step .plain sampleLost (.advance (seconds 3))).state
    (sampleEvent 3 .commUp 8)).state (.advance (seconds 2))).state

/-- After the example's loss no reconnect is redundant, and the next step keeps it so exactly when
its change is harmless. -/
theorem noneRedundant_sampleLost : sampleLost.NoneRedundant .plain ∧ ∀ e,
    (∀ d, (step .plain (step .plain sampleLost e).state (.advance d)).state.NoneRedundant .plain) ↔
      sampleLost.OneRecovers e := by
  have hrun : Run (step .plain) (fun s e => s.OneRecovers e) (initial (.table IPSocket) 3 0)
      [sampleEvent 3 .commUp 7, sampleEvent 4 .commLost 7] sampleLost := by
    refine .cons (fun _ _ _ => TaskScheduler.pending_init _) rfl (.cons ?_ rfl (.nil _))
    intro id hid _
    exact ((AList.mem_insert _).mp hid).resolve_right (AList.notMem_empty id)
  exact noneRedundant_of_run .plain 3 0 hrun

/-- **The remote that reconnects first** is reconnected to all the same. -/
theorem not_noneRedundant : ¬ ∀ (n : FD) (bigMsgSize : ℕ)
    (es : List (SctpEvent (.table IPSocket))) (s : SctpSystem (.table IPSocket)),
    Run (step .plain) (fun _ _ => True) (initial (.table IPSocket) n bigMsgSize) es s →
      s.NoneRedundant .plain := by
  intro h
  have hrun : Run (step .plain) (fun _ _ => True) (initial (.table IPSocket) 3 0)
      [sampleEvent 3 .commUp 7, sampleEvent 4 .commLost 7, .advance (seconds 3),
        sampleEvent 3 .commUp 8, .advance (seconds 2)] sampleRecovered :=
    .cons trivial rfl (.cons trivial rfl (.cons trivial rfl (.cons trivial rfl
      (.cons trivial rfl (.nil _)))))
  have hfired := (h 3 0 _ _ hrun [((0 : ℕ), .associated)]).1
  refine hfired.1 _ rfl (Nat.le_refl _) ⟨8, ?_, rfl⟩
  exact (AList.mem_insert _).mpr (.inl rfl)

end SctpSystem

end SctpSandbox

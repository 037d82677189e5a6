import SctpSandbox.Tcp.ReconnectBound

/-! # No outbound remote is forgotten

A remote that the user has connected to keeps a peer or a pending reconnect as long as nobody shuts
the connection down. The duty passes from the table to the scheduler when the connection is lost,
and back when the task connects. The first hand-over fails where the handler hangs, the second where
the attempt fails at once: `connect` throws, the task has run, and the remote is gone
(`remembered_of_run`). -/

namespace SctpSandbox

open Call SocketTcp

namespace SocketTcp

variable {mtx : Mutex} {s s' : SocketTcp} {r : IPSocket} {fd : FD} {io : TcpAnswers}

/-- A remote has a peer with `should_reestablish`. -/
def ConnectedTo (r : IPSocket) (s : SocketTcp) : Prop :=
  ∃ n peer, s.peers.lookup n = some peer ∧ peer.remote = r ∧ peer.shouldReestablish = true

/-- The connects leave the connections there are. -/
theorem ConnectedTo.connect (h : s.ConnectedTo r)
    (remotes : List (IPSocket × ConnectAnswer)) :
    (after (SocketTcp.connect mtx remotes ⟨s, false⟩)).object.ConnectedTo r := by
  obtain ⟨n, peer, hp, hremote⟩ := h
  exact ⟨n, peer, lookup_connect remotes hp, hremote⟩

/-- A message takes a remote off the table only to schedule a reconnect, unless its peer shuts
down. -/
theorem ConnectedTo.message (h : s.ConnectedTo r) (heffect : MessageEffect mtx fd io s s')
    (hshut : ∀ peer data, s.peers.lookup fd = some peer → peer.remote = r →
      peer.shouldReestablish = true → io.recv = .wrote data → cStr data ≠ []) :
    s'.ConnectedTo r ∨ r ∈ s'.reestablishments := by
  obtain ⟨n, peer, hp, hremote, hflag⟩ := h
  rcases heffect.lookup hp with hp' | ⟨rfl, hpeers⟩
  · exact .inl ⟨n, peer, hp', hremote, hflag⟩
  -- the entry of the remote was removed
  have hgone : s'.peers.lookup n ≠ some peer := by
    rw [hpeers, AList.lookup_erase]
    exact (Option.some_ne_none peer).symm
  cases heffect with
  | same hsame _ => exact absurd (hsame ▸ hp) hgone
  | @accepted n' remote _ hn' =>
      refine absurd ?_ hgone
      have hne : n ≠ n' := fun heq => hn' (heq ▸ mem_of_lookup hp)
      rw [lookup_entered, if_neg hne, hp]
  | closed _ hp' hrecv hempty _ _ =>
      obtain rfl := Option.some.inj (hp.symm.trans hp')
      exact absurd hempty (hshut peer _ hp hremote hflag hrecv)
  | lost _ _ hp' _ _ hreconnects =>
      obtain rfl := Option.some.inj (hp.symm.trans hp')
      refine .inr ?_
      rw [hreconnects, withReconnect, if_pos hflag, hremote]
      exact List.mem_cons_self
  | hung _ _ _ _ hsame _ => exact absurd (hsame ▸ hp) hgone

/-! ## Connections made -/

variable {n : FD} {remote : IPSocket} {answer : ConnectAnswer} {g g' : Guarded SocketTcp}

/-- An attempt that does not fail at once makes an entry, under the fd that the kernel has just
handed out. -/
theorem connectOne_entered (hcons : g.object.Consistent) (hs : answer.socket = some n)
    (h : answer.Succeeds) (hn : FdFree n g.object) : connectOne remote answer g =
      .ok () ⟨g.object.entered n (connectedPeer n remote answer), g.held⟩ := by
  rw [connectOne_succeeds hs h]
  exact emplace_new (s := { g.object with calls := .adopted n :: g.object.calls })
    (hcons.notMem_of_free hn)

/-- The entry of a connect is a connection to its remote. -/
theorem connectedTo_entered (n : FD) (remote : IPSocket) (answer : ConnectAnswer)
    (s : SocketTcp) : (s.entered n (connectedPeer n remote answer)).ConnectedTo remote :=
  ⟨n, connectedPeer n remote answer, by rw [lookup_entered, if_pos rfl], rfl, rfl⟩

/-- A reconnect that does not fail at once. -/
theorem connect_entered (hcons : s.Consistent) (hfree : ConnectFree [(remote, answer)] ⟨s, true⟩)
    (h : answer.Succeeds) :
    (after (SocketTcp.connect mtx [(remote, answer)] ⟨s, false⟩)).object.ConnectedTo remote := by
  obtain ⟨n, hs⟩ := Option.isSome_iff_exists.mp h.1
  have hone : connectOne remote answer ⟨s, true⟩ = _ :=
    connectOne_entered hcons hs h (hfree.1 n hs).1
  -- the loop over one remote
  have hloop : ([(remote, answer)].forM fun remote => connectOne remote.1 remote.2 :
      TcpCall PUnit) ⟨s, true⟩ = .ok () ⟨s.entered n (connectedPeer n remote answer), true⟩ := by
    rw [forM_cons, bind_ok hone]
    rfl
  have hconnect : SocketTcp.connect mtx [(remote, answer)] ⟨s, false⟩ =
      .ok () ⟨s.entered n (connectedPeer n remote answer), false⟩ :=
    withLock_ok (g := ⟨s, false⟩) ⟨s.entered n (connectedPeer n remote answer), true⟩ rfl hloop
  rw [hconnect]
  exact connectedTo_entered n remote answer s

/-- One more connection, or one that fails, leaves a remote connected to. -/
theorem keeps_connectOne (r remote : IPSocket) (answer : ConnectAnswer) :
    Keeps (ConnectedTo r) (connectOne remote answer) := by
  rintro g ⟨n, peer, hp, hremote⟩
  rcases (effect_connectOne remote answer g).1 with hpeers | ⟨n', hn', hpeers⟩
  · exact ⟨n, peer, by rw [hpeers, hp], hremote⟩
  · have hne : n ≠ n' := fun heq => hn' (heq ▸ mem_of_lookup hp)
    exact ⟨n, peer, by rw [hpeers, AList.lookup_insert_ne hne, hp], hremote⟩

/-- **A `connect` that returns** has made a peer for each of the remotes. -/
theorem connectedTo_forM {remotes : List (IPSocket × ConnectAnswer)} (hcons : g.object.Consistent)
    (hfree : ConnectFree remotes g)
    (hok : (remotes.forM fun remote => connectOne remote.1 remote.2 : TcpCall PUnit) g = .ok () g')
    (hr : r ∈ remotes.map Prod.fst) : g'.object.ConnectedTo r := by
  induction remotes generalizing g with
  | nil => exact absurd hr List.not_mem_nil
  | cons remote rest ih =>
      -- the loop returned, so this connect did
      rw [forM_cons] at hok
      cases hrun : connectOne remote.1 remote.2 g with
      | error e g₁ =>
          rw [bind_error hrun] at hok
          exact absurd hok (by simp)
      | ok a g₁ =>
          rw [bind_ok hrun] at hok
          rcases List.mem_cons.mp hr with heq | hrest
          · -- made here, and kept by the rest of the loop
            have hsucceeds : remote.2.Succeeds := by
              by_contra hfail
              obtain ⟨s', hs', -⟩ := connectOne_fails remote.1 g hfail
              rw [hrun] at hs'
              exact absurd hs' (by simp)
            obtain ⟨n, hs⟩ := Option.isSome_iff_exists.mp hsucceeds.1
            have hentered : connectOne remote.1 remote.2 g = _ :=
              connectOne_entered hcons hs hsucceeds (hfree.1 n hs).1
            have hone : g₁.object.ConnectedTo r := by
              rw [hrun] at hentered
              injection hentered with _ hg₁
              rw [hg₁, heq]
              exact connectedTo_entered n remote.1 remote.2 g.object
            have hkept := keeps_forM rest (fun remote _ => keeps_connectOne r remote.1 remote.2)
              g₁ hone
            rwa [hok] at hkept
          · -- made by the rest, from a table that is still consistent
            have hcons₁ : (after (connectOne remote.1 remote.2 g)).object.Consistent :=
              consistent_connectOne hcons hfree.1
            rw [hrun] at hcons₁
            exact ih hcons₁ (hfree.2 g₁ hrun) hok hrest

end SocketTcp

namespace TcpSystem

variable {T : TaskScheduler IPSocket} {mtx : Mutex} {s s' s₀ : TcpSystem T} {r : IPSocket}

/-- A remote has a peer with `should_reestablish` or a pending reconnect task. -/
def Remembers (r : IPSocket) (s : TcpSystem T) : Prop :=
  s.socket.ConnectedTo r ∨ (T.pending s.scheduler r).Nonempty

/-- The next attempt to connect to a remote is due before long. -/
def Awaits (r : IPSocket) (now : Time) (s : TcpSystem T) : Prop :=
  ∃ p t, T.enabled s.scheduler p = some t ∧ t.function = r ∧ t.due ≤ now + reestablishmentDelay

/-- Every task of a launch that is enabled and due has a property. -/
def EachDue (mtx : Mutex) (ok : IPSocket → ConnectAnswer → T.Ptr → TcpSystem T → Prop)
    (order : List (T.Ptr × ConnectAnswer)) (s : TcpSystem T) : Prop :=
  Outcome.EachMeets (fun a s => ∀ t, T.enabled s.scheduler a.1 = some t → t.due ≤ s.now →
    ok t.function a.2 a.1 s) (launchTask mtx) order s

/-- What the kernel and the pool can answer to an event: new fds and free buffers. -/
def Possible (mtx : Mutex) (s : TcpSystem T) : TcpEvent T → Prop
  | .call (.connect remotes) => ConnectFree remotes ⟨s.socket, true⟩
  | .call (.handleMessage fd io) => fd = s.socket.fd.fd → AcceptFree io s.socket
  | .launch order =>
      s.EachDue mtx (fun f answer _ s => ConnectFree [(f, answer)] ⟨s.socket, true⟩) order
  | _ => True

/-- No peer of a remote shuts its connection down: it sends no empty message. -/
def NotShutDown (r : IPSocket) (s : TcpSystem T) : TcpEvent T → Prop
  | .call (.handleMessage fd io) => ∀ peer data, s.socket.peers.lookup fd = some peer →
      peer.remote = r → peer.shouldReestablish = true → io.recv = .wrote data → cStr data ≠ []
  | _ => True

/-- A connection lost and an attempt that fails at once lead to another attempt: the call returns,
with the next one scheduled. -/
def LeadsOn (mtx : Mutex) (s : TcpSystem T) : TcpEvent T → Prop
  | .call (.handleMessage fd io) => ∀ peer err, fd ≠ s.socket.fd.fd →
      s.socket.peers.lookup fd = some peer → peer.shouldReestablish = true →
      io.recv = .failed err → ∃ s', step mtx s (.call (.handleMessage fd io)) = .returned s' ∧
        s'.Awaits peer.remote s.now
  | .launch order => s.EachDue mtx (fun f answer p s => ¬ answer.Succeeds →
      ∃ s', s.launchTask mtx (p, answer) = .returned s' ∧ s'.Awaits f s.now) order
  | _ => True

/-- The events in which no connection is lost on a mutex that is not recursive, and no attempt to
reconnect fails at once. -/
def Persistent (mtx : Mutex) (s : TcpSystem T) : TcpEvent T → Prop
  | .call op => SocketTcp.KeepsGoing mtx s.socket op
  | .launch order => s.EachDue mtx (fun _ answer _ _ => answer.Succeeds) order
  | _ => True

/-- What keeps a remote remembered. -/
structure Remembering (r : IPSocket) (s : TcpSystem T) : Prop where
  consistent : s.socket.Consistent
  handedOver : s.socket.reestablishments = []
  once : T.RunOnce s.scheduler
  remembers : s.Remembers r

/-! ## Calls -/

/-- A call hands its reconnects over to the scheduler. -/
theorem Remembering.handOver (h : s.Remembering r) {socket : SocketTcp} (hcons : socket.Consistent)
    (hr : s.socket.ConnectedTo r → socket.ConnectedTo r ∨ r ∈ socket.reestablishments) :
    (s.handOver socket).Remembering r := by
  refine ⟨hcons.congr rfl rfl, rfl, h.once.scheduleAll _ _ _, ?_⟩
  -- a reconnect scheduled is one pending
  have hpending : ∀ hr' : r ∈ socket.reestablishments ∨ (T.pending s.scheduler r).Nonempty,
      (T.pending (s.handOver socket).scheduler r).Nonempty := by
    intro hr'
    refine (TaskScheduler.pending_scheduleAll_nonempty _ _ _ _ _).mpr ?_
    rwa [List.mem_reverse]
  rcases h.remembers with hconn | hwait
  · rcases hr hconn with hconn' | hlost
    · exact .inl hconn'
    · exact .inr (hpending (.inl hlost))
  · exact .inr (hpending (.inr hwait))

/-- A call keeps a remote remembered, unless its peer shuts down. -/
theorem Remembering.perform (h : s.Remembering r) {op : TcpOp} (hfree : s.Possible mtx (.call op))
    (hshut : s.NotShutDown r (.call op)) : (s.perform mtx op).state.Remembering r := by
  rw [state_perform]
  cases op with
  | connect remotes =>
      exact h.handOver (h.consistent.connect hfree) fun hconn => .inl (hconn.connect remotes)
  | send ok msg =>
      refine h.handOver (keeps_send ok msg ⟨s.socket, false⟩ h.consistent) ?_
      rintro ⟨n, peer, hp, hremote⟩
      refine .inl ⟨n, peer, ?_, hremote⟩
      -- the table is that before the send
      show (after (SocketTcp.send mtx ok msg ⟨s.socket, false⟩)).object.peers.lookup n = _
      rw [(after_send mtx ok msg s.socket).1, hp]
  | selectFds ready =>
      rw [after_selectFds]
      exact h.handOver h.consistent .inl
  | handleMessage fd io =>
      obtain ⟨heffect, hcons⟩ := effect_handleMessage mtx fd io s.socket
      exact h.handOver (hcons h.consistent hfree) fun hconn => hconn.message heffect hshut

/-! ## Steps -/

/-- A task of a launch hands the duty back to the table. -/
theorem Remembering.launchTask (h : s.Remembering r) (a : T.Ptr × ConnectAnswer)
    (hfree : ∀ t, T.enabled s.scheduler a.1 = some t → t.due ≤ s.now →
      ConnectFree [(t.function, a.2)] ⟨s.socket, true⟩)
    (hok : ∀ t, T.enabled s.scheduler a.1 = some t → t.due ≤ s.now → a.2.Succeeds) :
    (s.launchTask mtx a).state.Remembering r := by
  -- only a due task connects
  obtain ⟨t, henabled, hdue, heq⟩ | ⟨-, heq⟩ := launchTask_cases mtx a s
  · have hs' : (s.perform mtx (.connect [(t.function, a.2)])).state.Remembering r :=
      h.perform (hfree t henabled hdue) trivial
    have hscheduler : (s.perform mtx (.connect [(t.function, a.2)])).state.scheduler =
        s.scheduler := scheduler_connect h.handedOver _
    rw [heq, Outcome.state_map]
    refine ⟨hs'.consistent, hs'.handedOver, hs'.once.complete _ _, ?_⟩
    by_cases hr : t.function = r
    · -- the remote of the task itself is connected to now
      refine .inl ?_
      rw [← hr]
      show (s.perform mtx (.connect [(t.function, a.2)])).state.socket.ConnectedTo t.function
      rw [state_perform]
      exact connect_entered h.consistent (hfree t henabled hdue) (hok t henabled hdue)
    · -- another remote still waits: its task is not the one completed
      refine hs'.remembers.imp_right fun hwait => ?_
      have henabled' : T.enabled (s.perform mtx
          (.connect [(t.function, a.2)])).state.scheduler a.1 = some t := by
        rw [hscheduler, henabled]
      show (T.pending (T.complete (s.perform mtx (.connect [(t.function, a.2)])).state.scheduler
        _ a.1) r).Nonempty
      rw [TaskScheduler.pending_complete_ne hs'.once _ henabled' hr]
      exact hwait
  · rw [heq]
    exact h

/-- Step lemma: a remote stays remembered unless it shuts down. -/
theorem Remembering.step (h : s.Remembering r) {e : TcpEvent T} (hfree : s.Possible mtx e)
    (hok : s.Persistent mtx e) (hshut : s.NotShutDown r e) :
    (step mtx s e).state.Remembering r := by
  cases e with
  | advance d => exact ⟨h.consistent, h.handedOver, h.once, h.remembers⟩
  | call op =>
      -- listing changes nothing that is remembered
      have hs' : (s.list op).Remembering r := by
        rw [list_eq]
        exact ⟨h.consistent, h.handedOver, h.once, h.remembers⟩
      have hperform : ((s.list op).perform mtx op).state.Remembering r := by
        refine hs'.perform ?_ ?_
        · rw [list_eq]
          cases op <;> exact hfree
        · rw [list_eq]
          exact hshut
      rw [TcpSystem.step, Outcome.state_map]
      exact ⟨hperform.consistent, hperform.handedOver, hperform.once, hperform.remembers⟩
  | launch order =>
      refine Outcome.Ends.state (P := fun s : TcpSystem T => s.Remembering r) ?_
      refine Outcome.forEach_ends h (Outcome.EachMeets.and hfree hok) fun a t ht hat => ?_
      exact Outcome.ends_of_state (ht.launchTask a hat.1 hat.2)

/-! ## Lost connections and failed attempts -/

/-- A scheduled reconnect is due after its delay. -/
theorem awaits_handOver (s : TcpSystem T) {socket : SocketTcp}
    (h : socket.reestablishments = [r]) : (s.handOver socket).Awaits r s.now := by
  have hscheduler : (s.handOver socket).scheduler =
      (T.schedule s.scheduler s.now r reestablishmentDelay 1).1 := by
    show T.scheduleAll s.now reestablishmentDelay socket.reestablishments.reverse s.scheduler = _
    rw [h]
    rfl
  refine ⟨(T.schedule s.scheduler s.now r reestablishmentDelay 1).2,
    .start s.now r reestablishmentDelay 1, ?_, rfl, Nat.le_refl _⟩
  rw [hscheduler, T.enabled_schedule]

/-- A lost connection is handled on a recursive mutex: the next attempt waits. -/
theorem step_lost {fd : FD} {io : TcpAnswers} {peer : TcpPeer} {err : Errno}
    (hout : s.socket.reestablishments = []) (hmain : fd ≠ s.socket.fd.fd)
    (hp : s.socket.peers.lookup fd = some peer) (hflag : peer.shouldReestablish = true)
    (hrecv : io.recv = .failed err) :
    ∃ s', step .recursive s (.call (.handleMessage fd io)) = .returned s' ∧
      s'.Awaits peer.remote s.now := by
  have hcall : SocketTcp.handleMessage .recursive fd io ⟨s.socket, false⟩ =
      .ok () ⟨(s.socket.rescheduled peer).erased fd peer, false⟩ := by
    rw [handleMessage_failed hmain hp hrecv, handleCommLost_ok hp]
  have hperform : s.perform .recursive (.handleMessage fd io) =
      .returned (s.handOver ((s.socket.rescheduled peer).erased fd peer)) :=
    congrArg s.answer hcall
  have hreconnect : ((s.socket.rescheduled peer).erased fd peer).reestablishments =
      [peer.remote] := by
    show (s.socket.rescheduled peer).reestablishments = _
    rw [reestablishments_rescheduled, withReconnect, if_pos hflag, hout]
  have hawaits := awaits_handOver s hreconnect
  refine ⟨_, congrArg (Outcome.map (s.account (.handleMessage fd io))) hperform, ?_⟩
  exact hawaits

/-- On a mutex that is not recursive it hangs. -/
theorem step_lost_plain {fd : FD} {io : TcpAnswers} {peer : TcpPeer} {err : Errno}
    (hmain : fd ≠ s.socket.fd.fd) (hp : s.socket.peers.lookup fd = some peer)
    (hrecv : io.recv = .failed err) :
    ∃ s', step .plain s (.call (.handleMessage fd io)) = .threw s' := by
  have hcall : SocketTcp.handleMessage .plain fd io ⟨s.socket, false⟩ =
      .error .deadlock ⟨s.socket.rescheduled peer, true⟩ := by
    rw [handleMessage_failed hmain hp hrecv, handleCommLost_plain hp]
  have hperform : s.perform .plain (.handleMessage fd io) =
      .threw (s.handOver (s.socket.rescheduled peer)) := congrArg s.answer hcall
  exact ⟨_, congrArg (Outcome.map (s.account (.handleMessage fd io))) hperform⟩

/-- An attempt that fails at once leaves the launch by an exception. -/
theorem launchTask_fails (mtx : Mutex) {a : T.Ptr × ConnectAnswer} {t : ScheduledTask IPSocket}
    (henabled : T.enabled s.scheduler a.1 = some t) (hdue : t.due ≤ s.now)
    (hfail : ¬ a.2.Succeeds) : ∃ s', s.launchTask mtx a = .threw s' := by
  obtain ⟨socket, hone, -⟩ := connectOne_fails t.function ⟨s.socket, true⟩ hfail
  have hloop : ([(t.function, a.2)].forM fun remote => connectOne remote.1 remote.2 :
      TcpCall PUnit) ⟨s.socket, true⟩ = .error (.exception .runtimeError) ⟨socket, true⟩ := by
    rw [forM_cons, bind_error hone]
  have hcall : SocketTcp.connect mtx [(t.function, a.2)] ⟨s.socket, false⟩ =
      .error (.exception .runtimeError) ⟨socket, false⟩ :=
    withLock_exception (g := ⟨s.socket, false⟩) ⟨socket, true⟩ rfl hloop
  have hperform : s.perform mtx (.connect [(t.function, a.2)]) = .threw (s.handOver socket) :=
    congrArg s.answer hcall
  obtain ⟨t', ht', -, heq⟩ | ⟨hidle, -⟩ := launchTask_cases mtx a s
  · obtain rfl := Option.some.inj (henabled.symm.trans ht')
    rw [heq, hperform]
    exact ⟨_, rfl⟩
  · exact absurd hdue (hidle t henabled)

/-- **Exactly the persistent events lead on.** -/
theorem leadsOn_iff (hout : s.socket.reestablishments = []) (e : TcpEvent T) :
    s.LeadsOn mtx e ↔ s.Persistent mtx e := by
  cases e with
  | advance d => exact Iff.rfl
  | call op =>
      cases op with
      | connect remotes => exact Iff.rfl
      | send ok msg => exact Iff.rfl
      | selectFds ready => exact Iff.rfl
      | handleMessage fd io =>
          constructor
          · rintro h rfl hmain peer err hp hflag hrecv
            -- the handler would have returned, but hangs
            obtain ⟨s₁, hs₁, -⟩ := h peer err hmain hp hflag hrecv
            obtain ⟨s₂, hs₂⟩ := step_lost_plain hmain hp hrecv
            exact absurd (hs₁.symm.trans hs₂) (by simp)
          · intro h peer err hmain hp hflag hrecv
            cases mtx with
            | plain => exact absurd hrecv (h rfl hmain peer err hp hflag)
            | recursive => exact step_lost hout hmain hp hflag hrecv
  | launch order =>
      refine Outcome.EachMeets.congr fun a s => forall₃_congr fun t henabled hdue => ?_
      constructor
      · intro h
        by_contra hfail
        obtain ⟨s₁, hs₁, -⟩ := h hfail
        obtain ⟨s₂, hs₂⟩ := launchTask_fails mtx henabled hdue hfail
        exact absurd (hs₁.symm.trans hs₂) (by simp)
      · intro h hfail
        exact absurd h hfail

/-! ## Runs -/

/-- A `connect` that returns remembers its remotes. -/
theorem remembering_connect {n : FD} {remotes : List (IPSocket × ConnectAnswer)}
    (hfree : (initial T n).Possible mtx (.call (.connect remotes)))
    (hconnect : step mtx (initial T n) (.call (.connect remotes)) = .returned s₀)
    (hr : r ∈ remotes.map Prod.fst) : s₀.Remembering r := by
  have hstep : step mtx (initial T n) (.call (.connect remotes)) =
      (((initial T n).list (.connect remotes)).answer (SocketTcp.connect mtx remotes
        ⟨.constructed n, false⟩)).map ((initial T n).account (.connect remotes)) := rfl
  have hcons : (after (SocketTcp.connect mtx remotes ⟨.constructed n, false⟩)).object.Consistent :=
    (consistent_constructed n).connect hfree
  rw [hstep] at hconnect
  -- the first call returned, so its loop did
  cases hcall : SocketTcp.connect mtx remotes ⟨.constructed n, false⟩ with
  | error e g =>
      rw [hcall] at hconnect
      have hthrew : Outcome.threw _ = Outcome.returned s₀ := hconnect
      exact absurd hthrew (by simp)
  | ok a g =>
      obtain ⟨g₁, hloop, rfl⟩ := of_withLock_ok rfl hcall
      have hconn : g₁.object.ConnectedTo r :=
        connectedTo_forM (consistent_constructed n) hfree hloop hr
      rw [hcall] at hconnect hcons
      obtain rfl : _ = s₀ := Outcome.returned.inj hconnect
      exact ⟨hcons.congr rfl rfl, rfl, TaskScheduler.runOnce_init.scheduleAll _ _ _, .inl hconn⟩

/-- **No remote is forgotten** in a run without a loss that hangs and without an attempt that fails
at once; and these, and no other events, fail to lead to another attempt. -/
theorem remembered_of_run (mtx : Mutex) (n : FD) (remotes : List (IPSocket × ConnectAnswer))
    (hfree : (initial T n).Possible mtx (.call (.connect remotes)))
    (hconnect : step mtx (initial T n) (.call (.connect remotes)) = .returned s₀)
    (hr : r ∈ remotes.map Prod.fst) {es : List (TcpEvent T)}
    (hrun : Run (step mtx) (fun s e => s.Possible mtx e ∧ s.NotShutDown r e ∧ s.Persistent mtx e)
      s₀ es s) : s.Remembers r ∧ ∀ e, s.LeadsOn mtx e ↔ s.Persistent mtx e := by
  have hs : s.Remembering r := by
    refine hrun.invariant_state (I := fun s : TcpSystem T => s.Remembering r)
      (remembering_connect hfree hconnect hr) fun s e hs he => ?_
    exact hs.step he.1 he.2.2 he.2.1
  exact ⟨hs.remembers, leadsOn_iff hs.handedOver⟩

/-- The connection of the sample run, lost and due again on a recursive mutex. -/
def sampleDue : TcpSystem (.table IPSocket) :=
  (step .recursive ((step .recursive sampleConnected (.call sampleReset)).state)
    (.advance (seconds 5))).state

/-- The network is unreachable. -/
def sampleUnreachable : TcpEvent (.table IPSocket) :=
  .launch [((0 : ℕ), ⟨some 4, true, false, 1⟩)]

/-- The connect of the example is possible. -/
theorem possible_sampleConnect {mtx : Mutex} :
    (initial (.table IPSocket) 3).Possible mtx (.call sampleConnect) := by
  refine ⟨fun n hn => ?_, fun _ _ => trivial⟩
  obtain rfl : 4 = n := Option.some.inj hn
  exact ⟨⟨by decide, rfl⟩, PeerTable.bufferFree_ofPeers_empty (by decide)⟩

/-- The kernel can hand out the fd that was closed, and the pool its buffer. -/
theorem possible_sampleDue (answer : ConnectAnswer) (hanswer : answer.socket = some 4)
    (hbuffer : answer.buffer = 1) :
    sampleDue.Possible .recursive (.launch [((0 : ℕ), answer)]) := by
  refine ⟨fun t _ _ => ⟨fun n hn => ?_, fun _ _ => trivial⟩, fun _ _ => trivial⟩
  obtain rfl : 4 = n := Option.some.inj (hanswer.symm.trans hn)
  refine ⟨⟨by decide, rfl⟩, ?_⟩
  show PeerTable.BufferFree answer.buffer _
  rw [hbuffer]
  exact PeerTable.bufferFree_ofPeers_empty (by decide)

/-- The reset of the example is no shutdown. -/
theorem notShutDown_sampleReset : sampleConnected.NotShutDown sampleRemote (.call sampleReset) :=
  fun _ _ _ _ _ hrecv => RecvCall.noConfusion hrecv

/-- The run goes on as in `sampleReconnected`. -/
theorem remembered_reconnected : sampleReconnected.Remembers sampleRemote ∧
    ∀ e, sampleReconnected.LeadsOn .recursive e ↔ sampleReconnected.Persistent .recursive e := by
  have hlost : sampleConnected.Possible .recursive (.call sampleReset) :=
    fun hmain => absurd hmain (by decide)
  have hrun : Run (step .recursive) (fun s e => s.Possible .recursive e ∧
      s.NotShutDown sampleRemote e ∧ s.Persistent .recursive e) sampleConnected
      [.call sampleReset, .advance (seconds 5), .launch [((0 : ℕ), ⟨some 4, true, true, 1⟩)]]
      sampleReconnected := by
    refine .cons ⟨hlost, notShutDown_sampleReset, fun hmtx => Mutex.noConfusion hmtx⟩ rfl ?_
    refine .cons ⟨trivial, trivial, trivial⟩ rfl ?_
    refine .cons ⟨possible_sampleDue _ rfl rfl, trivial, ?_⟩ rfl (.nil _)
    exact ⟨fun _ _ _ => ⟨rfl, rfl, rfl⟩, fun _ _ => trivial⟩
  exact remembered_of_run .recursive 3 [(sampleRemote, ⟨some 4, true, true, 1⟩)]
    possible_sampleConnect rfl (List.mem_singleton.mpr rfl) hrun

/-- Every run that begins with a `connect` that returns remembers its remotes, and leads on from a
loss or a failed attempt. -/
def NeverForgets (T : TaskScheduler IPSocket) (mtx : Mutex) : Prop :=
  ∀ (n : FD) (remotes : List (IPSocket × ConnectAnswer)) (s₀ s : TcpSystem T)
    (es : List (TcpEvent T)) (r : IPSocket),
    (initial T n).Possible mtx (.call (.connect remotes)) →
      step mtx (initial T n) (.call (.connect remotes)) = .returned s₀ →
        r ∈ remotes.map Prod.fst →
          Run (step mtx) (fun s e => s.Possible mtx e ∧ s.NotShutDown r e) s₀ es s →
            s.Remembers r ∧ ∀ e, s.LeadsOn mtx e

/-- **A reset ends the connection for good**: the handler hangs on a mutex that is not recursive,
and on a recursive one the remote is forgotten when the first attempt finds the network
unreachable. -/
theorem not_neverForgets :
    ¬ NeverForgets (.table IPSocket) .plain ∧ ¬ NeverForgets (.table IPSocket) .recursive := by
  constructor
  · intro h
    have hleads : sampleConnected.LeadsOn .plain (.call sampleReset) :=
      (h 3 [(sampleRemote, ⟨some 4, true, true, 1⟩)] sampleConnected sampleConnected [] sampleRemote
        possible_sampleConnect rfl (List.mem_singleton.mpr rfl) (.nil _)).2 _
    have hhangs : ∃ s', step .plain sampleConnected (.call sampleReset) = .threw s' :=
      step_lost_plain (by decide) rfl rfl
    obtain ⟨s₁, hs₁, -⟩ := hleads ⟨{ fd := 4 }, 1, sampleRemote, true⟩ (.other 104) (by decide) rfl
      rfl rfl
    obtain ⟨s₂, hs₂⟩ := hhangs
    exact absurd (hs₁.symm.trans hs₂) (by simp)
  · intro h
    -- the loss is handled, and after 5 s the attempt fails at once
    have hlost : sampleConnected.Possible .recursive (.call sampleReset) :=
      fun hmain => absurd hmain (by decide)
    have hrun : Run (step .recursive) (fun s e => s.Possible .recursive e ∧
        s.NotShutDown sampleRemote e) sampleConnected
        [.call sampleReset, .advance (seconds 5), sampleUnreachable]
        (step .recursive sampleDue sampleUnreachable).state := by
      refine .cons ⟨hlost, notShutDown_sampleReset⟩ rfl (.cons ⟨trivial, trivial⟩ rfl ?_)
      exact .threw ⟨possible_sampleDue _ rfl rfl, trivial⟩ rfl
    have hremembers := (h 3 [(sampleRemote, ⟨some 4, true, true, 1⟩)] sampleConnected _ _
      sampleRemote possible_sampleConnect rfl (List.mem_singleton.mpr rfl)
      hrun).1
    rcases hremembers with ⟨n, peer, hp, -⟩ | ⟨p, t, ht, -⟩
    · exact absurd (mem_of_lookup hp) (AList.notMem_empty n)
    · -- the one task has run
      have hnone :
          (step .recursive sampleDue sampleUnreachable).state.scheduler.tasks p = none := by
        by_cases hp : p = (0 : ℕ)
        · subst hp
          rfl
        · exact (step .recursive sampleDue sampleUnreachable).state.scheduler.unused p
            (Nat.pos_of_ne_zero hp)
      exact absurd (ht.symm.trans hnone) (Option.some_ne_none t)

end TcpSystem

end SctpSandbox

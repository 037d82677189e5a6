import SctpSandbox.Tcp.Reconnects

/-! # Reconnects do not multiply

A remote that the user has listed once is connected to once: it has a peer, or a task that will
connect to it again, and never more of the two than the user has listed it. The bound is kept by
every step that does not hang in the removal of a lost peer (`reconnectsBounded_of_run`). -/

namespace SctpSandbox

open Call

/-! ## Counting entries -/

section Entries

variable {α : Type} {β : α → Type} [DecidableEq α] {f : Sigma β → Bool} {peers : AList β} {n : α}

/-- A count over the entries grows by the entry made. -/
theorem countP_insert (b : β n) (h : n ∉ peers) : (peers.insert n b).entries.countP f =
    peers.entries.countP f + if f ⟨n, b⟩ then 1 else 0 := by
  rw [AList.insert_of_notMem h, List.countP_cons]

/-- A count over the entries shrinks by the one erased. -/
theorem countP_erase {b : β n} (h : peers.lookup n = some b) : peers.entries.countP f =
    (peers.erase n).entries.countP f + if f ⟨n, b⟩ then 1 else 0 := by
  have hmem : n ∈ peers.keys := AList.lookup_isSome.mp (by rw [h]; rfl)
  obtain ⟨b', before, rest, -, hentries, herase⟩ := List.exists_of_kerase hmem
  -- the entry found is the one looked up
  have hb : b' = b := by
    have hlookup : peers.lookup n = some b' := by
      refine AList.mem_lookup_iff.mpr ?_
      rw [hentries]
      exact List.mem_append_right _ List.mem_cons_self
    exact Option.some.inj (hlookup.symm.trans h)
  have herase' : (peers.erase n).entries = before ++ rest := herase
  rw [herase', hentries, hb, List.countP_append, List.countP_append, List.countP_cons,
    Nat.add_assoc]

end Entries

namespace SocketTcp

variable {mtx : Mutex} {s s' : SocketTcp} {fd n : FD} {io : TcpAnswers} {peer : TcpPeer}
  {r remote : IPSocket} {answer : ConnectAnswer} {g : Guarded SocketTcp}

/-- The peers with a remote and `should_reestablish`, and the reconnects scheduled for it. -/
def credit (r : IPSocket) (s : SocketTcp) : ℕ := s.flagged r + s.reestablishments.count r

/-- The credit depends on the table and on the reconnects scheduled. -/
theorem credit_congr (hpeers : s'.peers = s.peers)
    (hreconnects : s'.reestablishments = s.reestablishments) : s'.credit r = s.credit r := by
  unfold credit flagged
  rw [hpeers, hreconnects]

/-- The flagged entries of a remote after one is made. -/
theorem flagged_insert (h : n ∉ s.peers) (hpeers : s'.peers = s.peers.insert n peer) :
    s'.flagged r = s.flagged r + if peer.remote = r && peer.shouldReestablish then 1 else 0 := by
  unfold flagged
  rw [hpeers, countP_insert peer h]

/-- The flagged entries of a remote after one is erased. -/
theorem flagged_erase (h : s.peers.lookup n = some peer) (hpeers : s'.peers = s.peers.erase n) :
    s.flagged r = s'.flagged r + if peer.remote = r && peer.shouldReestablish then 1 else 0 := by
  unfold flagged
  rw [hpeers, countP_erase h]

/-- The reconnect of a lost peer takes the place of its entry. -/
theorem count_withReconnect (peer : TcpPeer) (reestablishments : List IPSocket) :
    (withReconnect peer reestablishments).count r = reestablishments.count r +
      if peer.remote = r && peer.shouldReestablish then 1 else 0 := by
  unfold withReconnect
  cases peer.shouldReestablish with
  | true => simp [List.count_cons]
  | false => simp

/-- A message lowers the credit of a remote or leaves it, unless it hangs. -/
theorem MessageEffect.credit_le (h : MessageEffect mtx fd io s s')
    (hhang : mtx = .plain → fd ≠ s.fd.fd → ∀ peer err, s.peers.lookup fd = some peer →
      peer.shouldReestablish = true → io.recv ≠ .failed err) : s'.credit r ≤ s.credit r := by
  cases h with
  | same hpeers hreconnects => exact Nat.le_of_eq (credit_congr hpeers hreconnects)
  | @accepted n remote _ hn =>
      -- an accepted peer does not reconnect
      have hflagged : (s.entered n (acceptedPeer n remote io.buffer)).flagged r = _ :=
        flagged_insert hn rfl
      unfold credit
      rw [hflagged]
      simp [acceptedPeer, entered]
  | closed _ hp _ _ hpeers hreconnects =>
      unfold credit
      rw [flagged_erase hp hpeers, hreconnects]
      omega
  | lost _ _ hp _ hpeers hreconnects =>
      unfold credit
      rw [flagged_erase hp hpeers, hreconnects, count_withReconnect]
      omega
  | @hung _ peer err hmtx hmain hp hrecv hpeers hreconnects =>
      -- only a peer that is not to be reconnected to
      have hflag : peer.shouldReestablish = false := by
        by_contra hflag
        exact hhang hmtx hmain peer err hp (by simpa using hflag) hrecv
      refine Nat.le_of_eq (credit_congr hpeers ?_)
      rw [hreconnects, withReconnect, hflag]
      rfl

/-- A connection raises the credit of its remote by one at most. -/
theorem credit_connectOne_le (r remote : IPSocket) (answer : ConnectAnswer)
    (g : Guarded SocketTcp) : (after (connectOne remote answer g)).object.credit r ≤
      g.object.credit r + [remote].count r := by
  obtain ⟨hpeers | ⟨n, hn, hpeers⟩, hreconnects⟩ := effect_connectOne remote answer g
  · -- nothing entered, or one flagged entry of the remote
    rw [credit_congr hpeers hreconnects]
    exact Nat.le_add_right _ _
  · have hcount : (if (connectedPeer n remote answer).remote = r &&
        (connectedPeer n remote answer).shouldReestablish then 1 else 0) = [remote].count r := by
      by_cases h : remote = r
      · simp [connectedPeer, h]
      · simp [connectedPeer, h]
    unfold credit
    rw [flagged_insert hn hpeers, hreconnects, hcount]
    omega

/-- The loop of `connect` raises it by the number of times it is listed. -/
theorem credit_forM_le (r : IPSocket) (remotes : List (IPSocket × ConnectAnswer))
    (g : Guarded SocketTcp) :
    (after ((remotes.forM fun remote => connectOne remote.1 remote.2 :
      TcpCall PUnit) g)).object.credit r ≤
        g.object.credit r + (remotes.map Prod.fst).count r := by
  -- a connection that throws ends the loop
  induction remotes generalizing g with
  | nil => exact Nat.le_refl _
  | cons remote rest ih =>
      have hone := credit_connectOne_le r remote.1 remote.2 g
      have hcount : ((remote :: rest).map Prod.fst).count r =
          [remote.1].count r + (rest.map Prod.fst).count r := by
        rw [List.map_cons, ← List.count_append]
        rfl
      rw [forM_cons, hcount]
      cases hrun : connectOne remote.1 remote.2 g with
      | ok a g' =>
          have hrest := ih g'
          rw [hrun] at hone
          rw [bind_ok hrun]
          have hone : g'.object.credit r ≤ g.object.credit r + [remote.1].count r := hone
          omega
      | error e g' =>
          rw [hrun] at hone
          rw [bind_error hrun]
          have hone : g'.object.credit r ≤ g.object.credit r + [remote.1].count r := hone
          show g'.object.credit r ≤ _
          omega

/-- The remotes that a call names. -/
def named : TcpOp → List IPSocket
  | .connect remotes => remotes.map Prod.fst
  | _ => []

/-- **A call raises the credit of a remote** by the number of times it names it, unless it hangs. -/
theorem credit_call_le (r : IPSocket) (op : TcpOp) (s : SocketTcp) (hop : KeepsGoing mtx s op) :
    (after (SocketTcp.call mtx op ⟨s, false⟩)).object.credit r ≤
      s.credit r + (named op).count r := by
  cases op with
  | connect remotes =>
      -- the loop runs under the mutex
      have hloop := credit_forM_le r remotes ⟨s, true⟩
      show (after (SocketTcp.connect mtx remotes ⟨s, false⟩)).object.credit r ≤ _
      rw [SocketTcp.connect, after_withLock_free _ rfl]
      exact hloop
  | send ok msg =>
      obtain ⟨hpeers, hreconnects⟩ := after_send mtx ok msg s
      exact Nat.le_of_eq (credit_congr hpeers hreconnects)
  | selectFds ready =>
      rw [after_selectFds]
      exact Nat.le_refl _
  | handleMessage fd io => exact (effect_handleMessage mtx fd io s).1.credit_le hop

/-- The connects flag at most one entry for each time the remote is named. -/
theorem flagged_connect_le (r : IPSocket) (remotes : List (IPSocket × ConnectAnswer))
    (s : SocketTcp) : (after (SocketTcp.connect mtx remotes ⟨s, false⟩)).object.flagged r ≤
      s.flagged r + (remotes.map Prod.fst).count r := by
  have hle : (after (SocketTcp.connect mtx remotes ⟨s, false⟩)).object.credit r ≤
      s.credit r + (remotes.map Prod.fst).count r := credit_call_le r (.connect remotes) s trivial
  rw [credit, credit, reestablishments_connect] at hle
  omega

/-- A message for a peer that is not to be reconnected to schedules nothing. -/
theorem MessageEffect.schedules_nothing (h : MessageEffect mtx fd io s s')
    (hp : s.peers.lookup fd = some peer) (hflag : peer.shouldReestablish = false) :
    s'.reestablishments = s.reestablishments := by
  -- the entry lost is the one looked up, and it is not flagged
  have hnone : ∀ {peer'}, s.peers.lookup fd = some peer' →
      s'.reestablishments = withReconnect peer' s.reestablishments →
      s'.reestablishments = s.reestablishments := by
    intro peer' hp' hreconnects
    obtain rfl := Option.some.inj (hp.symm.trans hp')
    rw [hreconnects, withReconnect, hflag]
    rfl
  cases h with
  | same _ hreconnects => exact hreconnects
  | accepted _ _ => rfl
  | closed _ _ _ _ _ hreconnects => exact hreconnects
  | lost _ _ hp' _ _ hreconnects => exact hnone hp' hreconnects
  | hung _ _ hp' _ _ hreconnects => exact hnone hp' hreconnects

end SocketTcp

namespace TcpSystem

open SocketTcp

variable {T : TaskScheduler IPSocket} {mtx : Mutex} {s s' : TcpSystem T} {r : IPSocket}

/-- The peers with a remote and `should_reestablish`, and the reconnect tasks for it. -/
noncomputable def load (r : IPSocket) (s : TcpSystem T) : ℕ∞ :=
  s.socket.flagged r + (T.pending s.scheduler r).encard

/-- What a reachable system satisfies. -/
structure Bounded (s : TcpSystem T) : Prop where
  handedOver : s.socket.reestablishments = []
  once : T.RunOnce s.scheduler
  load : ∀ r, s.load r ≤ s.listed.count r
  /-- The entries of accepted connections do not reconnect. -/
  accepted : ∀ fd ∈ s.accepted, ∃ peer, s.socket.peers.lookup fd = some peer ∧
    peer.shouldReestablish = false

/-- The state after an operation, whether it returns or throws. -/
theorem state_perform (op : TcpOp) (s : TcpSystem T) : (s.perform mtx op).state =
    s.handOver (after (SocketTcp.call mtx op ⟨s.socket, false⟩)).object := by
  unfold perform answer
  cases SocketTcp.call mtx op ⟨s.socket, false⟩ with
  | ok _ g => rfl
  | error _ g => rfl

/-- The reconnects handed over become tasks. -/
theorem load_handOver (socket : SocketTcp) (s : TcpSystem T) (r : IPSocket) :
    (s.handOver socket).load r = socket.credit r + (T.pending s.scheduler r).encard := by
  have hflagged : (s.handOver socket).socket.flagged r = socket.flagged r := rfl
  have hpending : (T.pending (s.handOver socket).scheduler r).encard =
      (T.pending s.scheduler r).encard + socket.reestablishments.count r := by
    rw [← List.count_reverse]
    exact TaskScheduler.encard_pending_scheduleAll _ _ _ _ _
  rw [TcpSystem.load, hflagged, hpending, credit, Nat.cast_add, add_assoc,
    add_comm (T.pending s.scheduler r).encard]

/-- A call raises the load of a remote by the number of times it names it, unless it hangs. -/
theorem load_perform_le {op : TcpOp} (hout : s.socket.reestablishments = [])
    (hop : KeepsGoing mtx s.socket op) (r : IPSocket) :
    (s.perform mtx op).state.load r ≤ s.load r + (named op).count r := by
  have hcredit : (after (SocketTcp.call mtx op ⟨s.socket, false⟩)).object.credit r ≤
      s.socket.flagged r + (named op).count r := by
    have hcredit : s.socket.credit r = s.socket.flagged r := by
      rw [credit, hout, List.count_nil, Nat.add_zero]
    rw [← hcredit]
    exact credit_call_le r op s.socket hop
  calc (s.perform mtx op).state.load r
      = (after (SocketTcp.call mtx op ⟨s.socket, false⟩)).object.credit r +
          (T.pending s.scheduler r).encard := by rw [state_perform, load_handOver]
    _ ≤ ((s.socket.flagged r + (named op).count r : ℕ) : ℕ∞) +
          (T.pending s.scheduler r).encard := by gcongr
    _ = s.load r + (named op).count r := by rw [TcpSystem.load, Nat.cast_add, add_right_comm]

/-- After a call the reconnects are handed over, and the tasks run once each. -/
theorem handedOver_perform (op : TcpOp) (s : TcpSystem T) :
    (s.perform mtx op).state.socket.reestablishments = [] := by
  rw [state_perform]
  rfl

/-- An operation schedules tasks that run once. -/
theorem once_perform (h : T.RunOnce s.scheduler) (op : TcpOp) :
    T.RunOnce (s.perform mtx op).state.scheduler := by
  rw [state_perform]
  exact h.scheduleAll _ _ _

/-- An operation leaves the remotes named so far. -/
theorem listed_perform (op : TcpOp) (s : TcpSystem T) :
    (s.perform mtx op).state.listed = s.listed := by
  rw [state_perform]
  rfl

/-- An operation leaves the connections accepted so far. -/
theorem accepted_perform (op : TcpOp) (s : TcpSystem T) :
    (s.perform mtx op).state.accepted = s.accepted := by
  rw [state_perform]
  rfl

/-- An entry is the same after a call, or gone. -/
theorem lookup_call (op : TcpOp) (s : SocketTcp) {n : FD} {peer : TcpPeer}
    (hp : s.peers.lookup n = some peer)
    (hn : n ∈ (after (SocketTcp.call mtx op ⟨s, false⟩)).object.peers) :
    (after (SocketTcp.call mtx op ⟨s, false⟩)).object.peers.lookup n = some peer := by
  cases op with
  | connect remotes =>
      exact lookup_connect remotes hp
  | send ok msg =>
      have hpeers := (after_send mtx ok msg s).1
      show (after (SocketTcp.send mtx ok msg ⟨s, false⟩)).object.peers.lookup n = _
      rw [hpeers, hp]
  | selectFds ready =>
      rw [after_selectFds, hp]
  | handleMessage fd io =>
      -- the handling erases the entry it is about and no other
      refine ((effect_handleMessage mtx fd io s).1.lookup hp).resolve_right ?_
      rintro ⟨rfl, hpeers⟩
      have hn : n ∈ (after (SocketTcp.handleMessage mtx n io ⟨s, false⟩)).object.peers := hn
      rw [hpeers] at hn
      exact (AList.mem_erase.mp hn).1 rfl

/-! ## Steps -/

/-- A `connect` leaves the tasks alone. -/
theorem scheduler_connect (hout : s.socket.reestablishments = [])
    (remotes : List (IPSocket × ConnectAnswer)) :
    (s.perform mtx (.connect remotes)).state.scheduler = s.scheduler := by
  have hnone : (after (SocketTcp.connect mtx remotes ⟨s.socket, false⟩)).object.reestablishments =
      [] := by rw [reestablishments_connect, hout]
  rw [state_perform]
  show T.scheduleAll s.now reestablishmentDelay (after (SocketTcp.connect mtx remotes
    ⟨s.socket, false⟩)).object.reestablishments.reverse s.scheduler = s.scheduler
  rw [hnone]
  rfl

/-- The task that runs is gone, and its connection made at most. -/
theorem load_ran_le (h : s.Bounded) {p : T.Ptr} {task : ScheduledTask IPSocket}
    (henabled : T.enabled s.scheduler p = some task) (now : Time) (r : IPSocket)
    (hs' : s'.socket.flagged r ≤ s.socket.flagged r + [task.function].count r)
    (hscheduler : s'.scheduler = T.complete s.scheduler now p) : s'.load r ≤ s.load r := by
  unfold TcpSystem.load
  rw [hscheduler]
  by_cases hr : task.function = r
  · subst hr
    rw [List.count_singleton_self] at hs'
    calc (s'.socket.flagged task.function : ℕ∞) +
          (T.pending (T.complete s.scheduler now p) task.function).encard
        ≤ ((s.socket.flagged task.function + 1 : ℕ) : ℕ∞) +
          (T.pending (T.complete s.scheduler now p) task.function).encard := by gcongr
      _ = s.socket.flagged task.function +
          (T.pending s.scheduler task.function).encard := by
        rw [← TaskScheduler.encard_pending_complete h.once now henabled, Nat.cast_add, Nat.cast_one,
          add_assoc, add_comm 1]
  · -- for any other remote nothing has changed
    rw [List.count_eq_zero.mpr (by simpa using Ne.symm hr), Nat.add_zero] at hs'
    rw [TaskScheduler.pending_complete_ne h.once now henabled hr]
    gcongr

/-- One task of a launch takes a task away and makes one peer at most. -/
theorem Bounded.launchTask (h : s.Bounded) (a : T.Ptr × ConnectAnswer) :
    (s.launchTask mtx a).state.Bounded := by
  obtain ⟨task, henabled, -, heq⟩ | ⟨-, heq⟩ := launchTask_cases mtx a s
  · have hscheduler : (s.perform mtx (.connect [(task.function, a.2)])).state.scheduler =
        s.scheduler := scheduler_connect h.handedOver _
    rw [heq, Outcome.state_map]
    refine ⟨handedOver_perform _ s, ?_, fun r => ?_, fun fd hfd => ?_⟩
    · rw [hscheduler]
      exact h.once.complete _ _
    · refine (load_ran_le h henabled (s.perform mtx
        (.connect [(task.function, a.2)])).state.now r ?_ ?_).trans ?_
      · rw [state_perform]
        exact flagged_connect_le r [(task.function, a.2)] s.socket
      · rw [hscheduler]
      · rw [listed_perform]
        exact h.load r
    · rw [accepted_perform] at hfd
      -- an entry stays when the task connects
      obtain ⟨peer, hp, hflag⟩ := h.accepted fd hfd
      refine ⟨peer, ?_, hflag⟩
      rw [state_perform]
      exact lookup_connect _ hp
  · rw [heq]
    exact h

/-- Listing an operation adds the remotes it names. -/
theorem list_eq (op : TcpOp) (s : TcpSystem T) :
    s.list op = { s with listed := s.listed ++ named op } := by
  cases op with
  | connect remotes => rfl
  | send ok msg => simp [list, named]
  | selectFds ready => simp [list, named]
  | handleMessage fd io => simp [list, named]

/-- An fd taken for accepted was so before, or its entry has just been made by `handleCommUp`. -/
theorem mem_accepted_account {op : TcpOp} {n : FD} (h : n ∈ (s.account op s').accepted) :
    n ∈ s'.socket.peers ∧ (n ∈ s.accepted ∨ ∃ fd io, op = .handleMessage fd io ∧
      fd = s.socket.fd.fd ∧ n ∉ s.socket.peers) := by
  -- newly accepted, or accepted before and still there
  rcases List.mem_append.mp h with hnew | hold
  · cases op with
    | handleMessage fd io =>
        by_cases hmain : fd = s.socket.fd.fd
        · simp only [if_pos hmain] at hnew
          obtain ⟨hkey, hn⟩ := List.mem_filter.mp hnew
          exact ⟨AList.mem_keys.mpr hkey, .inr ⟨fd, io, rfl, hmain, by simpa using hn⟩⟩
        · simp only [if_neg hmain] at hnew
          exact absurd hnew List.not_mem_nil
    | connect remotes => exact absurd hnew List.not_mem_nil
    | send ok msg => exact absurd hnew List.not_mem_nil
    | selectFds ready => exact absurd hnew List.not_mem_nil
  · obtain ⟨hmem, hn⟩ := List.mem_filter.mp hold
    exact ⟨by simpa using hn, .inl hmem⟩

/-- A call that does not hang keeps the bound. -/
theorem Bounded.call (h : s.Bounded) {op : TcpOp} (hop : KeepsGoing mtx s.socket op) :
    (step mtx s (.call op)).state.Bounded := by
  -- the operation is listed first, so that its remotes count on both sides
  have hstate : (step mtx s (.call op)).state =
      s.account op ((s.list op).perform mtx op).state := by
    rw [step, Outcome.state_map]
  have hsocket : ((s.list op).perform mtx op).state.socket.peers =
      (after (SocketTcp.call mtx op ⟨s.socket, false⟩)).object.peers := by
    rw [state_perform, list_eq]
    rfl
  rw [hstate]
  refine ⟨handedOver_perform op _, ?_, fun r => ?_, fun n hn => ?_⟩
  · refine once_perform (s := s.list op) ?_ op
    rw [list_eq]
    exact h.once
  · -- the load grows by the flagged entries that the named remotes may get
    calc ((s.list op).perform mtx op).state.load r
        ≤ (s.list op).load r + (named op).count r := by
          refine load_perform_le ?_ ?_ r
          · rw [list_eq]
            exact h.handedOver
          · rw [list_eq]
            exact hop
      _ = s.load r + (named op).count r := by
          rw [list_eq]
          rfl
      _ ≤ s.listed.count r + (named op).count r := by
          gcongr
          exact h.load r
      _ = ((s.account op ((s.list op).perform mtx op).state).listed.count r : ℕ∞) := by
          have hlisted : (s.account op ((s.list op).perform mtx op).state).listed =
              s.listed ++ named op := by
            show ((s.list op).perform mtx op).state.listed = _
            rw [listed_perform, list_eq]
          rw [hlisted, List.count_append, Nat.cast_add]
  · obtain ⟨hmem, hold⟩ := mem_accepted_account hn
    have hmem' : n ∈ (after (SocketTcp.call mtx op ⟨s.socket, false⟩)).object.peers :=
      hsocket ▸ hmem
    show ∃ peer, ((s.list op).perform mtx op).state.socket.peers.lookup n = some peer ∧ _
    rw [hsocket]
    rcases hold with hold | ⟨fd, io, rfl, -, hnew⟩
    · -- an accepted entry that is still there
      obtain ⟨peer, hp, hflag⟩ := h.accepted n hold
      exact ⟨peer, lookup_call op s.socket hp hmem', hflag⟩
    · -- what was accepted is entered without the flag
      exact (effect_handleMessage mtx fd io s.socket).1.new hnew hmem'

/-- The events whose handler does not hang on the removal of a peer to reconnect to. -/
def KeepsGoing (mtx : Mutex) (s : TcpSystem T) : TcpEvent T → Prop
  | .call op => SocketTcp.KeepsGoing mtx s.socket op
  | _ => True

/-- Step lemma: the bound is kept by every step that goes on. -/
theorem Bounded.step (h : s.Bounded) (e : TcpEvent T) (he : s.KeepsGoing mtx e) :
    (step mtx s e).state.Bounded := by
  cases e with
  | advance d => exact ⟨h.handedOver, h.once, h.load, h.accepted⟩
  | call op => exact h.call he
  | launch order => exact Outcome.forEach_state h fun a _ t ht => ht.launchTask a

/-- At the start there is nothing to bound. -/
theorem bounded_initial (T : TaskScheduler IPSocket) (n : FD) : (initial T n).Bounded := by
  refine ⟨rfl, TaskScheduler.runOnce_init, fun r => ?_, fun fd hfd => absurd hfd List.not_mem_nil⟩
  have hnone : (initial T n).load r = 0 + (T.pending T.init r).encard := rfl
  rw [hnone, TaskScheduler.pending_init, Set.encard_empty, add_zero]
  exact zero_le

/-- For every remote the peers to reconnect to and the reconnects pending are no more than the user
has listed it, and a message for an accepted peer schedules nothing. -/
def ReconnectsBounded (mtx : Mutex) (s : TcpSystem T) : Prop :=
  (∀ r, (s.socket.flagged r : ℕ∞) + (T.pending s.scheduler r).encard ≤ s.listed.count r) ∧
    ∀ fd ∈ s.accepted, ∀ io,
      (TcpSystem.step mtx s (.call (.handleMessage fd io))).state.scheduler = s.scheduler

/-- The invariant gives the claim's property. -/
theorem Bounded.reconnectsBounded (h : s.Bounded) (mtx : Mutex) : s.ReconnectsBounded mtx := by
  refine ⟨h.load, fun fd hfd io => ?_⟩
  obtain ⟨peer, hp, hflag⟩ := h.accepted fd hfd
  -- an accepted entry is not flagged, so its loss schedules nothing
  have heffect := (effect_handleMessage mtx fd io s.socket).1
  have hnone : (after (SocketTcp.handleMessage mtx fd io
      ⟨s.socket, false⟩)).object.reestablishments = [] :=
    (heffect.schedules_nothing hp hflag).trans h.handedOver
  rw [TcpSystem.step, Outcome.state_map, state_perform]
  show T.scheduleAll s.now reestablishmentDelay (after (SocketTcp.handleMessage mtx fd io
    ⟨s.socket, false⟩)).object.reestablishments.reverse s.scheduler = s.scheduler
  rw [hnone]
  rfl

/-- **Reconnects do not multiply**: in every state of every run in which no handler hangs on the
removal of a peer to reconnect to, whatever fails. -/
theorem reconnectsBounded_of_run (mtx : Mutex) (n : FD) {es : List (TcpEvent T)}
    (hrun : Run (step mtx) (fun s e => s.KeepsGoing mtx e) (initial T n) es s) :
    s.ReconnectsBounded mtx :=
  (hrun.invariant_state (bounded_initial T n) fun _ e hs he => hs.step e he).reconnectsBounded mtx

/-- A remote as the user names it. -/
def sampleRemote : IPSocket := ⟨ascii "10.0.0.2", 5000, afInet⟩

/-- The user connects to it, on fd 4. -/
def sampleConnect : TcpOp := .connect [(sampleRemote, ⟨some 4, true, true, 1⟩)]

/-- The connection is reset. -/
def sampleReset : TcpOp := .handleMessage 4 ⟨.failed, 0, .failed (.other 104), true⟩

/-- The system after the first. -/
def sampleConnected : TcpSystem (.table IPSocket) :=
  (step .plain (initial (.table IPSocket) 3) (.call sampleConnect)).state

/-- **A lost connection counts twice**: its reconnect is scheduled, and the handler hangs before it
removes the peer. -/
theorem not_reconnectsBounded : ¬ ∀ (n : FD) (es : List (TcpEvent (.table IPSocket)))
    (s : TcpSystem (.table IPSocket)),
    Run (step .plain) (fun _ _ => True) (initial (.table IPSocket) n) es s →
      s.ReconnectsBounded .plain := by
  intro h
  -- one connect, then a reset of its connection
  have hrun : Run (step .plain) (fun _ _ => True) (initial (.table IPSocket) 3)
      [.call sampleConnect, .call sampleReset]
      (step .plain sampleConnected (.call sampleReset)).state :=
    .cons trivial rfl (.threw trivial rfl)
  -- the entry is flagged and its reconnect scheduled, so the load is two
  have hload := (h 3 _ _ hrun).1 sampleRemote
  have hcredit : (after (SocketTcp.call .plain sampleReset
      ⟨sampleConnected.socket, false⟩)).object.credit sampleRemote = 2 := by decide
  have hnone : TaskScheduler.pending (.table IPSocket) sampleConnected.scheduler
      sampleRemote = ∅ := TaskScheduler.pending_init _
  have heq := load_handOver (after (SocketTcp.call .plain sampleReset
    ⟨sampleConnected.socket, false⟩)).object sampleConnected sampleRemote
  have hcount : (step .plain sampleConnected (.call sampleReset)).state.listed.count
      sampleRemote = 1 := by decide
  rw [hcredit, hnone, Set.encard_empty, add_zero] at heq
  rw [hcount] at hload
  have hle : ((2 : ℕ) : ℕ∞) ≤ ((1 : ℕ) : ℕ∞) := heq.symm.le.trans hload
  exact absurd (Nat.cast_le.mp hle) (by decide)

/-- On a recursive mutex the remote is connected to again after five seconds. -/
def sampleReconnected : TcpSystem (.table IPSocket) :=
  (step .recursive ((step .recursive ((step .recursive sampleConnected
    (.call sampleReset)).state) (.advance (seconds 5))).state)
      (.launch [((0 : ℕ), ⟨some 4, true, true, 1⟩)])).state

/-- The example after its reconnect: one entry, flagged once. -/
theorem reconnectsBounded_reconnected : sampleReconnected.ReconnectsBounded .recursive ∧
    sampleReconnected.socket.flagged sampleRemote = 1 := by
  have hrun : Run (step .recursive) (fun s e => s.KeepsGoing .recursive e)
      (initial (.table IPSocket) 3) [.call sampleConnect, .call sampleReset,
        .advance (seconds 5), .launch [((0 : ℕ), ⟨some 4, true, true, 1⟩)]] sampleReconnected :=
    .cons trivial rfl (.cons (fun hmtx => Mutex.noConfusion hmtx) rfl
      (.cons trivial rfl (.cons trivial rfl (.nil _))))
  exact ⟨reconnectsBounded_of_run .recursive 3 hrun, by decide⟩

end TcpSystem

end SctpSandbox

import SctpSandbox.Udp.SocketUdp

/-! # What each operation of `SocketUdp` does

The laws of the scheduler speak about one pointer at a time. This file states once, for each
operation of the socket, what it does to the peer table and to the enabled tasks: `CommUp`,
`Restarted`, `Removed`, `Reestablished`, `Completed`. Later files use these and do not unfold the
operations again. They rest on `WF`, the order among the handles the peer table keeps. -/

namespace SctpSandbox

/-- The delay each kind of task is scheduled with. -/
def UdpTask.delay : UdpTask → Time
  | .ping _ => SocketUdp.keepAlivePeriod
  | .commLost _ => SocketUdp.commLostDelay
  | .reconnect _ => reestablishmentDelay

/-- The repetitions each kind of task is scheduled with. -/
def UdpTask.repetitions : UdpTask → ℕ
  | .ping _ => SocketUdp.keepAliveProbes
  | .commLost _ => 1
  | .reconnect _ => 1

/-- A task as the socket schedules it. -/
def UdpTask.started (f : UdpTask) (now : Time) : ScheduledTask UdpTask :=
  .start now f f.delay f.repetitions

/-- The handle a peer keeps for a task. -/
def UdpPeer.handle {T : TaskScheduler UdpTask} (peer : UdpPeer T) : UdpTask → Option T.Ptr
  | .ping _ => peer.pingTask
  | .commLost _ => peer.commLostTask
  | .reconnect _ => none

namespace SocketUdp

variable {T : TaskScheduler UdpTask} {net : ℕ → Bool} {s s' s'' : SocketUdp T}
  {r r' : IPSocket} {f g : UdpTask} {p q x : T.Ptr} {t : ScheduledTask UdpTask}

/-- The enabled task behind a pointer. -/
abbrev enabled (s : SocketUdp T) (p : T.Ptr) : Option (ScheduledTask UdpTask) :=
  T.enabled s.scheduler p

/-- `lock()` on the pointer is not null. -/
abbrev alive (s : SocketUdp T) (p : T.Ptr) : Bool := T.alive s.scheduler p

/-- The pointer was handed out by the scheduler. -/
abbrev issued (s : SocketUdp T) (p : T.Ptr) : Prop := T.issued s.scheduler p

/-- The handle the peer table keeps for a task. -/
def handle (s : SocketUdp T) (f : UdpTask) : Option T.Ptr :=
  (s.peers.lookup f.remote).bind fun peer => peer.handle f

/-- The handle of a function is kept by the entry of its remote. -/
theorem handle_of_lookup {peer : UdpPeer T} (h : s.peers.lookup f.remote = some peer) :
    s.handle f = peer.handle f := by
  rw [handle, h, Option.bind_some]

/-- Without an entry there is none. -/
theorem handle_of_notMem (h : f.remote ∉ s.peers) : s.handle f = none := by
  rw [handle, AList.lookup_eq_none.mpr h, Option.bind_none]

/-- The handle of a function depends on the entry of its remote alone. -/
theorem handle_congr (h : s'.peers.lookup f.remote = s.peers.lookup f.remote) :
    s'.handle f = s.handle f := by
  rw [handle, handle, h]

/-- A reconnect is not kept by any entry. -/
@[simp] theorem handle_reconnect (s : SocketUdp T) (r : IPSocket) :
    s.handle (.reconnect r) = none := by
  rw [handle, Option.bind_eq_none_iff]
  exact fun _ _ => rfl

/-- The handle in an entry just made. -/
theorem handle_insert (s : SocketUdp T) {peer : UdpPeer T} (h : f.remote = r) :
    handle { s with peers := s.peers.insert r peer } f = peer.handle f := by
  subst h
  exact handle_of_lookup (s := { s with peers := s.peers.insert f.remote peer })
    (AList.lookup_insert _)

/-- A remote whose function has a handle is in the table. -/
theorem mem_of_handle (h : s.handle f = some p) : f.remote ∈ s.peers := by
  by_contra hr
  rw [handle_of_notMem hr] at h
  exact Option.some_ne_none p h.symm

/-- The handles of the peer table are in order. -/
structure WF (s : SocketUdp T) : Prop where
  /-- Every enabled task has the delay and repetitions of its kind. -/
  shape : ∀ p t, s.enabled p = some t →
    t.delay = t.function.delay ∧ t.repetitions = t.function.repetitions ∧ t.left ≤ t.repetitions
  /-- Handles were handed out by the scheduler. -/
  issued : ∀ f p, s.handle f = some p → s.issued p
  /-- The task behind a handle is the one it is kept for. -/
  function : ∀ f p t, s.handle f = some p → s.enabled p = some t → t.function = f
  /-- No two handles are equal. -/
  inj : ∀ f g p, s.handle f = some p → s.handle g = some p → f = g
  /-- A handle without an enabled task does not lock. -/
  dead : ∀ f p, s.handle f = some p → s.enabled p = none → s.alive p = false

/-- The empty socket is well formed. -/
theorem WF.init : WF ({} : SocketUdp T) where
  shape := fun p t h => by simp [T.enabled_init] at h
  issued := fun f p h => by simp [handle] at h
  function := fun f p t h => by simp [handle] at h
  inj := fun f g p h => by simp [handle] at h
  dead := fun f p h => by simp [handle] at h

/-- An enabled task behind a handle is alive, any other is not. -/
theorem WF.alive_iff (h : s.WF) (hp : s.handle f = some p) :
    s.alive p = true ↔ ∃ t, s.enabled p = some t := by
  constructor
  · intro ha
    cases he : s.enabled p with
    | none => simp [h.dead f p hp he] at ha
    | some t => exact ⟨t, rfl⟩
  · rintro ⟨t, ht⟩
    exact T.alive_of_enabled _ _ _ ht

/-- Restarting an enabled task gives the task as it was scheduled first. -/
theorem WF.restart (h : s.WF) (ht : s.enabled p = some t) (now : Time) :
    t.restart now = t.function.started now := by
  obtain ⟨hd, hr, -⟩ := h.shape p t ht
  rw [ScheduledTask.restart, UdpTask.started, ScheduledTask.start, ← hd, ← hr]

/-! ## Messages sent -/

section Send

variable (msg : ChatMessage) (r : IPSocket) (s : SocketUdp T)

/-- A send leaves the peers. -/
theorem peers_send : (send net msg r s).state.peers = s.peers := by
  unfold send
  cases net s.sends <;> rfl

/-- A send leaves the scheduler. -/
theorem scheduler_send : (send net msg r s).state.scheduler = s.scheduler := by
  unfold send
  cases net s.sends <;> rfl

/-- A send leaves the clock. -/
theorem now_send : (send net msg r s).state.now = s.now := by
  unfold send
  cases net s.sends <;> rfl

/-- A send logs its one line. -/
theorem log_send : (send net msg r s).state.log = (s.now, .sent msg r) :: s.log := by
  unfold send
  cases net s.sends <;> rfl

end Send

/-! ## New peers -/

/-- `handleCommUp r` takes `s` to `s'`, with the new ping task under `p` and the new comm-lost task
under `q`. Their handles are kept only if `r` had no entry. -/
structure CommUp (r : IPSocket) (s s' : SocketUdp T) (p q : T.Ptr) : Prop where
  fresh_ping : ¬ s.issued p
  fresh_commLost : ¬ s.issued q
  ne : p ≠ q
  ping : s'.enabled p = some ((UdpTask.ping r).started s.now)
  commLost : s'.enabled q = some ((UdpTask.commLost r).started s.now)
  old : ∀ x, x ≠ p → x ≠ q → s'.enabled x = s.enabled x ∧ s'.alive x = s.alive x
  issued : ∀ x, s'.issued x ↔ x = q ∨ x = p ∨ s.issued x
  now : s'.now = s.now
  log : s'.log = (s.now, .commUp r) :: s.log
  mem : r ∈ s'.peers
  lookup : ∀ r', r' ≠ r → s'.peers.lookup r' = s.peers.lookup r'
  known : r ∈ s.peers → s'.peers = s.peers
  handle_ping : r ∉ s.peers → s'.handle (.ping r) = some p
  handle_commLost : r ∉ s.peers → s'.handle (.commLost r) = some q

/-- Specification of `handleCommUp`. -/
theorem handleCommUp_spec (r : IPSocket) (s : SocketUdp T) :
    ∃ p q, CommUp r s (handleCommUp r s) p q := by
  let ping := schedulePing r (s.record (.commUp r))
  let commLost := scheduleCommLost r ping.1
  have hpeers : commLost.1.peers = s.peers := rfl
  -- the two tasks are scheduled one after the other, so the second pointer is new to the first
  have hne : ping.2 ≠ commLost.2 := by
    intro heq
    refine T.schedule_fresh ping.1.scheduler s.now (.commLost r) commLostDelay 1 ?_
    exact heq ▸ (T.issued_schedule _ _ _ _ _ _).mpr (.inl rfl)
  have hold : ∀ x, x ≠ ping.2 → x ≠ commLost.2 →
      commLost.1.enabled x = s.enabled x ∧ commLost.1.alive x = s.alive x := by
    intro x hxp hxq
    exact ⟨(T.enabled_schedule_ne _ _ _ _ _ _ hxq).trans (T.enabled_schedule_ne _ _ _ _ _ _ hxp),
      (T.alive_schedule_ne _ _ _ _ _ _ hxq).trans (T.alive_schedule_ne _ _ _ _ _ _ hxp)⟩
  have hissued : ∀ x, commLost.1.issued x ↔ x = commLost.2 ∨ x = ping.2 ∨ s.issued x := by
    intro x
    exact (T.issued_schedule _ _ _ _ _ _).trans (or_congr_right (T.issued_schedule _ _ _ _ _ _))
  have hfreshq : ¬ s.issued commLost.2 := fun hq =>
    T.schedule_fresh ping.1.scheduler s.now (.commLost r) commLostDelay 1
      ((T.issued_schedule _ _ _ _ _ _).mpr (.inr hq))
  have hping : commLost.1.enabled ping.2 = some ((UdpTask.ping r).started s.now) :=
    (T.enabled_schedule_ne _ _ _ _ _ _ hne).trans (T.enabled_schedule _ _ _ _ _)
  have hcomm : commLost.1.enabled commLost.2 = some ((UdpTask.commLost r).started s.now) :=
    T.enabled_schedule _ _ _ _ _
  refine ⟨ping.2, commLost.2, ?_⟩
  -- `emplace` decides whether the entry holds the new tasks
  by_cases hr : r ∈ s.peers
  · have heq : handleCommUp r s = commLost.1 := if_pos (hpeers ▸ hr)
    rw [heq]
    exact ⟨T.schedule_fresh _ _ _ _ _, hfreshq, hne, hping, hcomm, hold, hissued, rfl, rfl, hr,
      fun _ _ => rfl, fun _ => rfl, fun h => absurd hr h, fun h => absurd hr h⟩
  · have heq : handleCommUp r s = { commLost.1 with
        peers := s.peers.insert r ⟨some ping.2, some commLost.2⟩ } := if_neg (hpeers ▸ hr)
    rw [heq]
    refine ⟨T.schedule_fresh _ _ _ _ _, hfreshq, hne, hping, hcomm, hold, hissued, rfl, rfl,
      (AList.mem_insert _).mpr (.inl rfl), fun r' hr' => AList.lookup_insert_ne hr',
      fun h => absurd h hr, fun _ => ?_, fun _ => ?_⟩
    · exact handle_insert commLost.1 rfl
    · exact handle_insert commLost.1 rfl

/-! ## Peers heard of again -/

/-- `resetTasks r`, for a peer `r`, takes `s` to `s'` and leaves its ping task under `p`. -/
structure Restarted (r : IPSocket) (s s' : SocketUdp T) (p : T.Ptr) : Prop where
  /-- The ping task is the one that was kept, or a new one. -/
  origin : s.handle (.ping r) = some p ∨ ¬ s.issued p
  /-- A new one replaces a ping task that is not enabled. -/
  replaced : ∀ o, s.handle (.ping r) = some o → o ≠ p → s.enabled o = none
  ping : s'.enabled p = some ((UdpTask.ping r).started s.now)
  commLost : ∀ q, s.handle (.commLost r) = some q → s'.enabled q =
    (s.enabled q).map fun _ => (UdpTask.commLost r).started s.now
  old : ∀ x, x ≠ p → s.handle (.commLost r) ≠ some x →
    s'.enabled x = s.enabled x ∧ s'.alive x = s.alive x
  dead : ∀ q, s.handle (.commLost r) = some q → s.enabled q = none → s'.alive q = s.alive q
  issued : ∀ x, s'.issued x ↔ x = p ∨ s.issued x
  now : s'.now = s.now
  log : s'.log = s.log
  mem : ∀ r', r' ∈ s'.peers ↔ r' ∈ s.peers
  lookup : ∀ r', r' ≠ r → s'.peers.lookup r' = s.peers.lookup r'
  handle_ping : s'.handle (.ping r) = some p
  handle_commLost : s'.handle (.commLost r) = s.handle (.commLost r)

/-- A handle locks when its task is alive. -/
theorem lock_eq_some {o : Option T.Ptr} : lock s o = some p ↔ o = some p ∧ s.alive p = true := by
  rw [lock, Option.filter_eq_some_iff]

/-- A handle does not lock when its task is not alive. -/
theorem lock_eq_none {o : Option T.Ptr} :
    lock s o = none ↔ ∀ p, o = some p → s.alive p = false := by
  simp [lock, Option.filter_eq_none_iff]

/-- `if (auto task = o.lock()) task->reset();` -/
def resetLocked (o : Option T.Ptr) (s : SocketUdp T) : SocketUdp T :=
  match lock s o with
  | some task => s.reset task
  | none => s

/-- `if (auto task = o.lock()) task->disable();` -/
def disableLocked (o : Option T.Ptr) (s : SocketUdp T) : SocketUdp T :=
  match lock s o with
  | some task => s.disable task
  | none => s

section Locked

variable (o : Option T.Ptr) (s : SocketUdp T)

/-- A reset through a handle leaves the peers. -/
@[simp] theorem peers_resetLocked : (resetLocked o s).peers = s.peers := by
  unfold resetLocked
  cases lock s o <;> rfl

/-- A reset through a handle leaves the clock. -/
@[simp] theorem now_resetLocked : (resetLocked o s).now = s.now := by
  unfold resetLocked
  cases lock s o <;> rfl

/-- A reset through a handle leaves the log. -/
@[simp] theorem log_resetLocked : (resetLocked o s).log = s.log := by
  unfold resetLocked
  cases lock s o <;> rfl

/-- A disabling through a handle leaves the peers. -/
@[simp] theorem peers_disableLocked : (disableLocked o s).peers = s.peers := by
  unfold disableLocked
  cases lock s o <;> rfl

/-- A disabling through a handle leaves the clock. -/
@[simp] theorem now_disableLocked : (disableLocked o s).now = s.now := by
  unfold disableLocked
  cases lock s o <;> rfl

/-- A disabling through a handle leaves the log. -/
@[simp] theorem log_disableLocked : (disableLocked o s).log = s.log := by
  unfold disableLocked
  cases lock s o <;> rfl

/-- A reset through a handle issues no task. -/
@[simp] theorem issued_resetLocked : (resetLocked o s).issued x ↔ s.issued x := by
  unfold resetLocked
  cases lock s o with
  | none => exact Iff.rfl
  | some q => exact T.issued_reset _ _ _ _

/-- A disabling through a handle issues no task. -/
@[simp] theorem issued_disableLocked : (disableLocked o s).issued x ↔ s.issued x := by
  unfold disableLocked
  cases lock s o with
  | none => exact Iff.rfl
  | some q => exact T.issued_disable _ _ _

variable {o s}

/-- A reset through a handle touches no other task. -/
theorem resetLocked_ne (h : o ≠ some x) :
    (resetLocked o s).enabled x = s.enabled x ∧ (resetLocked o s).alive x = s.alive x := by
  unfold resetLocked
  cases hl : lock s o with
  | none => exact ⟨rfl, rfl⟩
  | some q =>
      have hne : x ≠ q := by
        rintro rfl
        exact h (lock_eq_some.mp hl).1
      exact ⟨T.enabled_reset_ne _ _ _ _ hne, T.alive_reset_ne _ _ _ _ hne⟩

/-- A disabling through a handle touches no other task. -/
theorem disableLocked_ne (h : o ≠ some x) :
    (disableLocked o s).enabled x = s.enabled x ∧ (disableLocked o s).alive x = s.alive x := by
  unfold disableLocked
  cases hl : lock s o with
  | none => exact ⟨rfl, rfl⟩
  | some q =>
      have hne : x ≠ q := by
        rintro rfl
        exact h (lock_eq_some.mp hl).1
      exact ⟨T.enabled_disable_ne _ _ _ hne, T.alive_disable_ne _ _ _ hne⟩

/-- A locked enabled task is restarted. -/
theorem resetLocked_enabled (h : s.enabled q = some t) :
    (resetLocked (some q) s).enabled q = some (t.restart s.now) := by
  have hl : lock s (some q) = some q := lock_eq_some.mpr ⟨rfl, T.alive_of_enabled _ _ _ h⟩
  rw [resetLocked, hl]
  exact T.enabled_reset _ _ _ _ h

/-- A dead pointer does not lock. -/
theorem resetLocked_dead (h : s.alive q = false) : resetLocked (some q) s = s := by
  have hl : lock s (some q) = none := lock_eq_none.mpr fun p hp => Option.some.inj hp ▸ h
  rw [resetLocked, hl]

/-- A locked task is stopped, and a pointer that does not lock has no enabled task. -/
theorem disableLocked_self : (disableLocked (some q) s).enabled q = none := by
  unfold disableLocked
  cases hl : lock s (some q) with
  | none =>
      have hdead := lock_eq_none.mp hl q rfl
      cases he : s.enabled q with
      | none => rfl
      | some t => exact absurd (T.alive_of_enabled _ _ _ he) (by simp [hdead])
  | some p =>
      obtain ⟨hp, -⟩ := lock_eq_some.mp hl
      exact Option.some.inj hp ▸ T.enabled_disable _ _

end Locked

/-- The reset of a known peer's two tasks, written out. -/
theorem resetTasks_eq {peer : UdpPeer T} (h : s.peers.lookup r = some peer) :
    resetTasks r s = resetLocked peer.commLostTask (match lock s peer.pingTask with
      | some task => s.reset task
      | none =>
          let ping := schedulePing r s
          { ping.1 with
            peers := ping.1.peers.insert r { peer with pingTask := some ping.2 } }) := by
  rw [resetTasks, subscript, h]
  rfl

/-- The first half of `resetTasks r`: the ping task of `r` is restarted, or scheduled anew when its
repetitions have run. -/
structure PingRestarted (r : IPSocket) (s s' : SocketUdp T) (p : T.Ptr) : Prop where
  origin : s.handle (.ping r) = some p ∨ ¬ s.issued p
  replaced : ∀ o, s.handle (.ping r) = some o → o ≠ p → s.enabled o = none
  ping : s'.enabled p = some ((UdpTask.ping r).started s.now)
  old : ∀ x, x ≠ p → s'.enabled x = s.enabled x ∧ s'.alive x = s.alive x
  issued : ∀ x, s'.issued x ↔ x = p ∨ s.issued x
  now : s'.now = s.now
  log : s'.log = s.log
  mem : ∀ r', r' ∈ s'.peers ↔ r' ∈ s.peers
  lookup : ∀ r', r' ≠ r → s'.peers.lookup r' = s.peers.lookup r'
  handle_ping : s'.handle (.ping r) = some p
  handle_commLost : s'.handle (.commLost r) = s.handle (.commLost r)

/-- The second half of `resetTasks r`. -/
theorem PingRestarted.restarted (h : s.WF) (h₁ : PingRestarted r s s' p) :
    Restarted r s (resetLocked (s.handle (.commLost r)) s') p := by
  -- the second half does not touch the ping task: the two handles differ
  have hpq : ∀ q, s.handle (.commLost r) = some q → q ≠ p := by
    rintro q hq rfl
    cases h₁.origin with
    | inl hpp => exact nomatch h.inj _ _ _ hpp hq
    | inr hf => exact hf (h.issued _ _ hq)
  have hcongr : ∀ f, handle (resetLocked (s.handle (.commLost r)) s') f = s'.handle f := fun f =>
    handle_congr (by rw [peers_resetLocked])
  refine ⟨h₁.origin, h₁.replaced, ?_, ?_, ?_, ?_,
    fun x => (issued_resetLocked _ _).trans (h₁.issued x),
    (now_resetLocked _ _).trans h₁.now, (log_resetLocked _ _).trans h₁.log, ?_, ?_,
    (hcongr _).trans h₁.handle_ping, (hcongr _).trans h₁.handle_commLost⟩
  · exact (resetLocked_ne fun hq => hpq p hq rfl).1.trans h₁.ping
  · intro q hq
    obtain ⟨he, ha⟩ := h₁.old q (hpq q hq)
    -- a comm-lost task that has run does not lock and is left alone
    cases hs : s.enabled q with
    | none =>
        rw [hq, resetLocked_dead (ha.trans (h.dead _ _ hq hs)), he, hs, Option.map_none]
    | some t =>
        rw [hq, resetLocked_enabled (he.trans hs), h₁.now, h.restart hs, h.function _ _ _ hq hs,
          Option.map_some]
  · intro x hxp hxq
    obtain ⟨he, ha⟩ := h₁.old x hxp
    obtain ⟨he', ha'⟩ := resetLocked_ne (s := s') hxq
    exact ⟨he'.trans he, ha'.trans ha⟩
  · intro q hq hs
    have ha := (h₁.old q (hpq q hq)).2
    rw [hq, resetLocked_dead (ha.trans (h.dead _ _ hq hs)), ha]
  · exact fun r' => by rw [peers_resetLocked, h₁.mem]
  · exact fun r' hr' => by rw [peers_resetLocked, h₁.lookup r' hr']

/-- **What `resetTasks` does to a peer.** -/
theorem resetTasks_spec (h : s.WF) (hr : r ∈ s.peers) :
    ∃ p, Restarted r s (resetTasks r s) p := by
  obtain ⟨peer, hpeer⟩ := Option.isSome_iff_exists.mp (AList.lookup_isSome.mpr hr)
  have hping : s.handle (.ping r) = peer.pingTask := handle_of_lookup hpeer
  have hcomm : s.handle (.commLost r) = peer.commLostTask := handle_of_lookup hpeer
  rw [resetTasks_eq hpeer]
  cases hl : lock s peer.pingTask with
  | some p =>
      obtain ⟨hp, ha⟩ := lock_eq_some.mp hl
      have hh : s.handle (.ping r) = some p := hping.trans hp
      obtain ⟨t, ht⟩ := (h.alive_iff hh).mp ha
      -- the ping task is alive and starts anew
      have h₁ : PingRestarted r s (s.reset p) p := by
        refine ⟨.inl hh, fun o ho hne => ?_, ?_, ?_, ?_, rfl, rfl, fun _ => Iff.rfl,
          fun _ _ => rfl, hh, rfl⟩
        · exact absurd (Option.some.inj (ho.symm.trans hh)) hne
        · have he : (s.reset p).enabled p = some (t.restart s.now) := T.enabled_reset _ _ _ _ ht
          rw [he, h.restart ht, h.function _ _ _ hh ht]
        · exact fun x hx => ⟨T.enabled_reset_ne _ _ _ _ hx, T.alive_reset_ne _ _ _ _ hx⟩
        · intro x
          refine (T.issued_reset _ _ _ _).trans ⟨.inr, fun hx => hx.elim ?_ id⟩
          rintro rfl
          exact h.issued _ _ hh
      have h₂ := h₁.restarted h
      rw [hcomm] at h₂
      exact ⟨p, h₂⟩
  | none =>
      -- it is gone, and a new one is scheduled
      let ping := schedulePing r s
      have h₁ : PingRestarted r s { ping.1 with
          peers := ping.1.peers.insert r { peer with pingTask := some ping.2 } } ping.2 := by
        refine ⟨.inr (T.schedule_fresh _ _ _ _ _), fun o ho _ => ?_, T.enabled_schedule _ _ _ _ _,
          ?_, fun x => T.issued_schedule _ _ _ _ _ _, rfl, rfl, ?_, ?_, ?_, ?_⟩
        · -- the old pointer does not lock, so it has no enabled task
          have hdead := lock_eq_none.mp hl o (hping.symm.trans ho)
          cases he : s.enabled o with
          | none => rfl
          | some t => exact absurd (T.alive_of_enabled _ _ _ he) (by simp [hdead])
        · intro x hx
          exact ⟨T.enabled_schedule_ne _ _ _ _ _ _ hx, T.alive_schedule_ne _ _ _ _ _ _ hx⟩
        · intro r'
          refine (AList.mem_insert _).trans ⟨fun hx => hx.elim ?_ id, .inr⟩
          rintro rfl
          exact hr
        · exact fun r' hr' => AList.lookup_insert_ne hr'
        · exact handle_insert ping.1 rfl
        · exact (handle_insert ping.1 rfl).trans hcomm.symm
      have h₂ := h₁.restarted h
      rw [hcomm] at h₂
      exact ⟨ping.2, h₂⟩

/-! ## Peers removed -/

/-- `remove r` takes `s` to `s'`. -/
structure Removed (r : IPSocket) (s s' : SocketUdp T) : Prop where
  disabled : ∀ f p, f.remote = r → s.handle f = some p → s'.enabled p = none
  old : ∀ x, (∀ f, f.remote = r → s.handle f ≠ some x) →
    s'.enabled x = s.enabled x ∧ s'.alive x = s.alive x
  issued : ∀ x, s'.issued x ↔ s.issued x
  now : s'.now = s.now
  log : s'.log = s.log
  notMem : r ∉ s'.peers
  lookup : ∀ r', r' ≠ r → s'.peers.lookup r' = s.peers.lookup r'

/-- The disabling of the two tasks, written out; the subscript makes an entry first. -/
theorem disableTasks_eq (r : IPSocket) (s : SocketUdp T) :
    disableTasks r s = disableLocked (s.handle (.commLost r))
      (disableLocked (s.handle (.ping r)) (subscript r s).2) := by
  cases h : s.peers.lookup r with
  | none => simp only [disableTasks, subscript, handle, UdpTask.remote, h]; rfl
  | some peer => simp only [disableTasks, subscript, handle, UdpTask.remote, h]; rfl

/-- The entry it makes is all that the subscript changes. -/
theorem subscript_snd (r : IPSocket) (s : SocketUdp T) :
    (subscript r s).2.scheduler = s.scheduler ∧ (subscript r s).2.now = s.now ∧
      (subscript r s).2.log = s.log ∧
      ∀ r', r' ≠ r → (subscript r s).2.peers.lookup r' = s.peers.lookup r' := by
  unfold subscript
  cases s.peers.lookup r with
  | none => exact ⟨rfl, rfl, rfl, fun r' hr' => AList.lookup_insert_ne hr'⟩
  | some peer => exact ⟨rfl, rfl, rfl, fun r' _ => rfl⟩

/-- **What `remove` does.** -/
theorem remove_spec (r : IPSocket) (s : SocketUdp T) : Removed r s (remove r s) := by
  obtain ⟨hsched, hnow, hlog, hlookup⟩ := subscript_snd r s
  have he : ∀ x, (subscript r s).2.enabled x = s.enabled x := fun x => by rw [enabled, hsched]
  have ha : ∀ x, (subscript r s).2.alive x = s.alive x := fun x => by rw [alive, hsched]
  have hrm : remove r s = { disableTasks r s with peers := (disableTasks r s).peers.erase r } := rfl
  rw [hrm, disableTasks_eq]
  refine ⟨?_, ?_, ?_, ?_, ?_, ?_, ?_⟩
  · intro f p hf hp
    cases f with
    | ping r' =>
        obtain rfl : r' = r := hf
        -- the ping task was stopped first; the second stop leaves it so
        by_cases hq : s.handle (.commLost r') = some p
        · exact hq ▸ disableLocked_self
        · exact (disableLocked_ne hq).1.trans (hp ▸ disableLocked_self)
    | commLost r' =>
        obtain rfl : r' = r := hf
        exact hp ▸ disableLocked_self
    | reconnect r' => simp at hp
  · intro x hx
    obtain ⟨he₂, ha₂⟩ := disableLocked_ne
      (s := disableLocked (s.handle (.ping r)) (subscript r s).2) (hx (.commLost r) rfl)
    obtain ⟨he₁, ha₁⟩ := disableLocked_ne (s := (subscript r s).2) (hx (.ping r) rfl)
    exact ⟨(he₂.trans he₁).trans (he x), (ha₂.trans ha₁).trans (ha x)⟩
  · intro x
    refine ((issued_disableLocked _ _).trans (issued_disableLocked _ _)).trans ?_
    rw [issued, hsched]
  · rw [now_disableLocked, now_disableLocked]
    exact hnow
  · rw [log_disableLocked, log_disableLocked]
    exact hlog
  · exact fun h => (AList.mem_erase.mp h).1 rfl
  · intro r' hr'
    rw [AList.lookup_erase_ne hr', peers_disableLocked, peers_disableLocked, hlookup r' hr']

/-- Neither restarting nor scheduling a task writes a log line. -/
theorem log_resetTasks (r : IPSocket) (s : SocketUdp T) : (resetTasks r s).log = s.log := by
  have hlog := (subscript_snd r s).2.2.1
  unfold resetTasks
  revert hlog
  obtain ⟨peer, s₁⟩ := subscript r s
  intro hlog
  -- the ping task is reset or made anew, the comm-lost task reset
  cases hping : lock s₁ peer.pingTask with
  | some task =>
      simp only [hping]
      exact (log_resetLocked peer.commLostTask (s₁.reset task)).trans hlog
  | none =>
      simp only [hping]
      exact (log_resetLocked peer.commLostTask _).trans hlog

/-- A remote that is still a peer after a removal was one, and is another. -/
theorem Removed.mem_of_mem (h₁ : Removed r s s') (hr' : r' ∈ s'.peers) :
    r' ≠ r ∧ r' ∈ s.peers := by
  have hne : r' ≠ r := by
    rintro rfl
    exact h₁.notMem hr'
  rw [← AList.lookup_isSome, h₁.lookup r' hne, AList.lookup_isSome] at hr'
  exact ⟨hne, hr'⟩

/-- A removal enables no task. -/
theorem Removed.enabled_of_enabled (h₁ : Removed r s s') (ht : s'.enabled p = some t) :
    s.enabled p = some t ∧ ∀ f, f.remote = r → s.handle f ≠ some p := by
  have hno : ∀ f, f.remote = r → s.handle f ≠ some p := fun f hf hp =>
    absurd ((h₁.disabled f p hf hp).symm.trans ht) (Option.some_ne_none t).symm
  exact ⟨(h₁.old p hno).1.symm.trans ht, hno⟩

/-! ## Reconnects scheduled and runs accounted for -/

/-- `scheduleReestablishment r` takes `s` to `s'`, with the new reconnect task under `p`. -/
structure Reestablished (r : IPSocket) (s s' : SocketUdp T) (p : T.Ptr) : Prop where
  fresh : ¬ s.issued p
  reconnect : s'.enabled p = some ((UdpTask.reconnect r).started s.now)
  old : ∀ x, x ≠ p → s'.enabled x = s.enabled x ∧ s'.alive x = s.alive x
  issued : ∀ x, s'.issued x ↔ x = p ∨ s.issued x
  now : s'.now = s.now
  log : s'.log = s.log
  peers : s'.peers = s.peers

/-- Specification of `scheduleReestablishment`. -/
theorem scheduleReestablishment_spec (r : IPSocket) (s : SocketUdp T) :
    ∃ p, Reestablished r s (scheduleReestablishment r s) p :=
  ⟨_, T.schedule_fresh _ _ _ _ _, T.enabled_schedule _ _ _ _ _,
    fun _ hx => ⟨T.enabled_schedule_ne _ _ _ _ _ _ hx, T.alive_schedule_ne _ _ _ _ _ _ hx⟩,
    fun _ => T.issued_schedule _ _ _ _ _ _, rfl, rfl, rfl⟩

/-- The accounting of a launch for the task it has just run. -/
def complete (p : T.Ptr) (s : SocketUdp T) : SocketUdp T :=
  { s with scheduler := T.complete s.scheduler s.now p }

/-- The accounting for a run under `p` takes `s` to `s'`. -/
structure Completed (p : T.Ptr) (s s' : SocketUdp T) : Prop where
  last : ∀ t, s.enabled p = some t → t.left ≤ 1 → s'.enabled p = none ∧ s'.alive p = false
  again : ∀ t, s.enabled p = some t → 1 < t.left → t.due ≤ s.now →
    ∃ due, t.due + t.delay ≤ due ∧ due ≤ s.now + t.delay ∧
      s'.enabled p = some { t with left := t.left - 1, due := due }
  stopped : s.enabled p = none → s'.enabled p = none
  old : ∀ x, x ≠ p → s'.enabled x = s.enabled x ∧ s'.alive x = s.alive x
  issued : ∀ x, s'.issued x ↔ s.issued x
  now : s'.now = s.now
  log : s'.log = s.log
  peers : s'.peers = s.peers

/-- Specification of a task's completion. -/
theorem complete_spec (p : T.Ptr) (s : SocketUdp T) : Completed p s (complete p s) :=
  ⟨T.enabled_complete_last _ _ _, T.enabled_complete _ _ _, T.enabled_complete_none _ _ _,
    fun _ hx => ⟨T.enabled_complete_ne _ _ _ _ hx, T.alive_complete_ne _ _ _ _ hx⟩,
    fun _ => T.issued_complete _ _ _ _, rfl, rfl, rfl⟩

end SocketUdp

end SctpSandbox

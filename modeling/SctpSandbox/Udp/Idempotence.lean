import SctpSandbox.Udp.Frame

/-! # Connecting to a known peer

`emplace` keeps an entry that is there, but the two tasks of the new peer are scheduled before it
looks. When the remote is known they stay behind, enabled, and no entry holds their handles: every
call of `handleCommUp` for a known remote adds two such tasks. All ping and comm-lost tasks belong
to an entry in exactly the runs without such a call. -/

namespace SctpSandbox

/-- The tasks whose handles a peer keeps. -/
def UdpTask.OfPeer : UdpTask → Prop
  | .reconnect _ => False
  | _ => True

/-- A peer's task is its ping or its comm-lost task. -/
theorem UdpTask.eq_of_remote {f : UdpTask} {r : IPSocket} (h : f.OfPeer) (hr : f.remote = r) :
    f = .ping r ∨ f = .commLost r := by
  cases f with
  | ping r' => exact .inl (congrArg UdpTask.ping hr)
  | commLost r' => exact .inr (congrArg UdpTask.commLost hr)
  | reconnect r' => exact absurd h id

namespace SocketUdp

variable {T : TaskScheduler UdpTask} {net : ℕ → Bool} {s s' : SocketUdp T}
  {r : IPSocket} {f : UdpTask} {p q x : T.Ptr} {t : ScheduledTask UdpTask}

/-- Every enabled ping or comm-lost task belongs to an entry, which holds its handle. -/
def Owned (s : SocketUdp T) : Prop :=
  ∀ x t, s.enabled x = some t → t.function.OfPeer → s.handle t.function = some x

/-- The task, if it is run, does not connect to a remote that has an entry. -/
def ReconnectsNew (p : T.Ptr) (s : SocketUdp T) : Prop :=
  ∀ t r, s.enabled p = some t → t.due ≤ s.now → t.function = .reconnect r → r ∉ s.peers

/-- Nobody is connected who has an entry, neither by the user nor by a reconnect task. -/
def EntersNew (net : ℕ → Bool) (s : SocketUdp T) : UdpEvent T → Prop
  | .connect remotes => Outcome.EachMeets (fun r s => r ∉ s.peers)
      (fun r s => .returned (handleCommUp r s)) remotes s
  | .launch order =>
      Outcome.EachMeets ReconnectsNew (launchTask net) order (s.record .launched)
  | _ => True

/-- There is no task yet to be without an owner. -/
theorem Owned.init : Owned ({} : SocketUdp T) := by
  intro x t ht
  have hnone := T.enabled_init x
  exact absurd (hnone.symm.trans ht) (Option.some_ne_none t).symm

/-! ## The operations keep every task owned -/

/-- Ownership depends on the table and the scheduler. -/
theorem Owned.congr (h : s.Owned) (hp : s'.peers = s.peers) (hs : s'.scheduler = s.scheduler) :
    s'.Owned := by
  intro x t ht hf
  have ht' : s.enabled x = some t := by rwa [enabled, hs] at ht
  rw [handle_congr (s := s) (by rw [hp])]
  exact h x t ht' hf

/-- A new peer owns its two tasks. -/
theorem CommUp.owned (h₁ : CommUp r s s' p q) (h : s.Owned) (hr : r ∉ s.peers) : s'.Owned := by
  intro x t ht hf
  by_cases hxp : x = p
  · subst hxp
    obtain rfl := Option.some.inj (h₁.ping.symm.trans ht)
    exact h₁.handle_ping hr
  by_cases hxq : x = q
  · subst hxq
    obtain rfl := Option.some.inj (h₁.commLost.symm.trans ht)
    exact h₁.handle_commLost hr
  -- an older task is owned by an older entry, which is not the one of `r`
  have hold := h x t ((h₁.old x hxp hxq).1.symm.trans ht) hf
  have hne : t.function.remote ≠ r := fun heq => hr (heq ▸ mem_of_handle hold)
  rw [handle_congr (h₁.lookup _ hne)]
  exact hold

/-- Every task stays owned over a restart. -/
theorem Restarted.owned (h₁ : Restarted r s s' p) (h : s.Owned) : s'.Owned := by
  -- a task after the restart is the new ping, the comm-lost task, or one there was before
  intro x t ht hf
  by_cases hxp : x = p
  · subst hxp
    obtain rfl := Option.some.inj (h₁.ping.symm.trans ht)
    exact h₁.handle_ping
  by_cases hxq : s.handle (.commLost r) = some x
  · -- the comm-lost task is the same one, restarted
    rw [h₁.commLost x hxq] at ht
    obtain ⟨t', ht', rfl⟩ := Option.map_eq_some_iff.mp ht
    exact h₁.handle_commLost.trans hxq
  have htold : s.enabled x = some t := (h₁.old x hxp hxq).1.symm.trans ht
  have hold := h x t htold hf
  have hne : t.function.remote ≠ r := by
    intro heq
    rcases UdpTask.eq_of_remote hf heq with hping | hcomm
    · -- the ping task was replaced only if it was not enabled any more
      have hnone := h₁.replaced x (hping ▸ hold) hxp
      exact absurd (hnone.symm.trans htold) (Option.some_ne_none t).symm
    · exact hxq (hcomm ▸ hold)
  rw [handle_congr (h₁.lookup _ hne)]
  exact hold

/-- Every task stays owned over a removal. -/
theorem Removed.owned (h₁ : Removed r s s') (h : s.Owned) : s'.Owned := by
  intro x t ht hf
  obtain ⟨htold, hno⟩ := h₁.enabled_of_enabled ht
  have hold := h x t htold hf
  have hne : t.function.remote ≠ r := fun heq => hno _ heq hold
  rw [handle_congr (h₁.lookup _ hne)]
  exact hold

/-- Every task stays owned over a reconnect scheduled. -/
theorem Reestablished.owned (h₁ : Reestablished r s s' p) (h : s.Owned) : s'.Owned := by
  intro x t ht hf
  by_cases hxp : x = p
  · subst hxp
    obtain rfl := Option.some.inj (h₁.reconnect.symm.trans ht)
    exact absurd hf id
  · rw [handle_congr (s := s) (by rw [h₁.peers])]
    exact h x t ((h₁.old x hxp).1.symm.trans ht) hf

/-- Every task stays owned over the completion of one that was due. -/
theorem Completed.owned (h₁ : Completed p s s') (h : s.Owned)
    (hdue : ∀ t, s.enabled p = some t → t.due ≤ s.now) : s'.Owned := by
  intro x t ht hf
  rw [handle_congr (s := s) (by rw [h₁.peers])]
  by_cases hxp : x = p
  · subst hxp
    cases he : s.enabled x with
    | none => exact absurd ((h₁.stopped he).symm.trans ht) (Option.some_ne_none t).symm
    | some u =>
        -- a repeated task is due again under its handle, a last one is gone
        rcases Nat.lt_or_ge 1 u.left with hl | hl
        · obtain ⟨due, -, -, hagain⟩ := h₁.again u he hl (hdue u he)
          obtain rfl := Option.some.inj (hagain.symm.trans ht)
          exact h x u he hf
        · exact absurd ((h₁.last u he hl).1.symm.trans ht) (Option.some_ne_none t).symm
  · exact h x t ((h₁.old x hxp).1.symm.trans ht) hf

/-- Every task stays owned over a send. -/
theorem owned_send (h : s.Owned) (msg : ChatMessage) (r : IPSocket) :
    (send net msg r s).state.Owned :=
  h.congr (peers_send msg r s) (scheduler_send msg r s)

/-- Every task stays owned over the entry of a new peer. -/
theorem owned_handleCommUp (h : s.Owned) (hr : r ∉ s.peers) : (handleCommUp r s).Owned := by
  obtain ⟨p, q, h₁⟩ := handleCommUp_spec r s
  exact h₁.owned h hr

/-- Every task stays owned over a loss. -/
theorem owned_handleCommLost (h : s.Owned) (r : IPSocket) : (handleCommLost r s).Owned := by
  have h₀ : (s.record (.commLost r)).Owned := h.congr rfl rfl
  obtain ⟨p, h₁⟩ := scheduleReestablishment_spec r (s.record (.commLost r))
  exact (remove_spec r _).owned (h₁.owned h₀)

/-- Every task stays owned over a datagram, which enters only who is new. -/
theorem owned_handleMessage (h : s.Owned) (hwf : s.WF) (r : IPSocket) (call : RecvCall) :
    (handleMessage net r call s).state.Owned := by
  cases call with
  | failed e => exact h
  | wrote data =>
      have h₀ : (s.record (.received (cStr data) r)).Owned := h.congr rfl rfl
      have hwf₀ : (s.record (.received (cStr data) r)).WF := hwf.congr rfl rfl
      rw [handleMessage, handleChatMessage]
      split
      · exact (remove_spec r _).owned h₀
      · refine Outcome.andThen_state (P := fun s : SocketUdp T => s.WF ∧ s.Owned) ?_
          (fun s₁ h₁ => ?_) |>.2
        · split
          · exact ⟨(local_send hwf₀ keepAliveAckMsg r).wf, owned_send h₀ keepAliveAckMsg r⟩
          · exact ⟨hwf₀, h₀⟩
        · split
          case isTrue hmem =>
            -- a known sender has its tasks restarted, an unknown one is entered
            obtain ⟨p, hp⟩ := resetTasks_spec h₁.1 hmem
            exact ⟨hp.wf h₁.1, hp.owned h₁.2⟩
          case isFalse hmem =>
            exact ⟨(local_handleCommUp h₁.1 r).wf, owned_handleCommUp h₁.2 hmem⟩

/-- Every task stays owned over a task, when a reconnect is of somebody new. -/
theorem owned_launchTask (h : s.Owned) (hwf : s.WF) (p : T.Ptr)
    (hok : ReconnectsNew p s) : (launchTask net p s).state.Owned := by
  have hrun_owned : ∀ t, s.enabled p = some t → t.due ≤ s.now →
      (runFunction net t.function s).state.Owned := by
    intro t ht hdue
    cases hf : t.function with
    | ping r => exact owned_send h keepAliveMsg r
    | commLost r => exact owned_handleCommLost h r
    | reconnect r => exact owned_handleCommUp h (hok t r ht hdue hf)
  have hl := launchTask_spec net p s
  generalize launchTask net p s = o at hl ⊢
  cases hl with
  | idle _ => exact h
  | threw t s₁ ht hdue hrun =>
      have hs₁ := hrun_owned t ht hdue
      rwa [hrun] at hs₁
  | ran t s₁ ht hdue hrun =>
      have hs₁ := hrun_owned t ht hdue
      rw [hrun, Outcome.state_returned] at hs₁
      have hc := complete_spec p s₁
      have hnow : s₁.now = s.now := hc.now.symm.trans (local_ran hwf ht hdue hrun).frame.now
      refine hc.owned hs₁ fun t' ht' => ?_
      -- the task that ran is still the one that was due
      rcases runFunction_enabled hwf ht hrun with ht₁ | ⟨hn, -⟩
      · rw [← Option.some.inj (ht₁.symm.trans ht'), hnow]
        exact hdue
      · exact absurd (hn.symm.trans ht') (Option.some_ne_none t').symm

/-- The handles are in order and every task has an owner. -/
structure Tidy (s : SocketUdp T) : Prop where
  wf : s.WF
  owned : s.Owned

/-- A tidy socket stays so over the entry of a new peer. -/
theorem tidy_handleCommUp (h : s.Tidy) (hr : r ∉ s.peers) : (handleCommUp r s).Tidy :=
  ⟨(local_handleCommUp h.wf r).wf, owned_handleCommUp h.owned hr⟩

/-- A tidy socket stays so over a task, when a reconnect is of somebody new. -/
theorem tidy_launchTask (h : s.Tidy) (p : T.Ptr) (hok : ReconnectsNew p s) :
    (launchTask net p s).state.Tidy :=
  ⟨wf_launchTask h.wf p, owned_launchTask h.owned h.wf p hok⟩

/-- `connect` as a loop. -/
theorem forEach_handleCommUp (remotes : List IPSocket) (s : SocketUdp T) :
    Outcome.forEach (fun r s => .returned (handleCommUp r s)) remotes s =
      .returned (connect remotes s) := by
  induction remotes generalizing s with
  | nil => rfl
  | cons r rs ih => exact ih (handleCommUp r s)

/-- **A step that connects only to new peers leaves every task owned.** -/
theorem tidy_step {e : UdpEvent T} (h : s.Tidy) (hok : EntersNew net s e) :
    (step net s e).state.Tidy := by
  cases e with
  | advance d => exact ⟨h.wf.congr rfl rfl, h.owned.congr rfl rfl⟩
  | connect remotes =>
      have hends := Outcome.forEach_ends (I := Tidy) (P := Tidy) h hok
        fun r s₁ h₁ hr => tidy_handleCommUp h₁ hr
      rwa [forEach_handleCommUp] at hends
  | receive r call => exact ⟨wf_step h.wf _, owned_handleMessage h.owned h.wf r call⟩
  | launch order =>
      -- the launch logs its line, then its tasks run in their order
      have h₀ : (s.record .launched).Tidy := ⟨h.wf.congr rfl rfl, h.owned.congr rfl rfl⟩
      exact (Outcome.forEach_ends (I := Tidy) (P := Tidy) h₀ hok fun p s₁ h₁ hp =>
        Outcome.ends_of_state (tidy_launchTask h₁ p hp)).state
  | send order msg =>
      exact Outcome.forEach_state h fun r _ s₁ h₁ =>
        ⟨(local_send h₁.wf msg r).wf, owned_send h₁.owned msg r⟩

/-! ## Stray tasks -/

/-- Some enabled task of a peer, not due yet, is held by no entry. -/
structure Strays (s : SocketUdp T) : Prop where
  wf : s.WF
  task : ∃ x t, s.enabled x = some t ∧ t.function.OfPeer ∧ (∀ f, s.handle f ≠ some x) ∧
    s.now < t.due

/-- With a stray task not every task is owned. -/
theorem Strays.not_owned (h : s.Strays) : ¬ s.Owned := by
  obtain ⟨x, t, ht, hf, hno, -⟩ := h.task
  exact fun howned => hno _ (howned x t ht hf)

/-- **A known peer is connected**: the table stays and two tasks come that no entry holds. -/
theorem CommUp.strays (h₁ : CommUp r s s' p q) (hwf : s.WF) (hr : r ∈ s.peers) : s'.Strays := by
  refine ⟨h₁.wf hwf, p, _, h₁.ping, trivial, fun f hf => ?_, ?_⟩
  · rw [handle_congr (s := s) (by rw [h₁.known hr])] at hf
    exact h₁.fresh_ping (hwf.issued f p hf)
  · have hdelay : 0 < keepAlivePeriod := by decide
    rw [h₁.now]
    exact Nat.lt_add_of_pos_right hdelay

/-- A stray task survives what touches only pointers that are new or behind handles, and stays
stray if the handles are old ones or new pointers. -/
theorem Strays.of_handles (h : s.Strays) (hwf : s'.WF)
    (henabled : ∀ x t, s.enabled x = some t → (∀ f, s.handle f ≠ some x) → s.now < t.due →
      s'.enabled x = some t)
    (hhandle : ∀ f x, s'.handle f = some x → s.handle f = some x ∨ ¬ s.issued x)
    (hnow : s'.now = s.now) : s'.Strays := by
  obtain ⟨x, t, ht, hf, hno, hdue⟩ := h.task
  refine ⟨hwf, x, t, henabled x t ht hno hdue, hf, fun f hx => ?_, hnow ▸ hdue⟩
  rcases hhandle f x hx with hold | hnew
  · exact hno f hold
  · exact hnew (T.issued_of_enabled _ _ _ ht)

/-- A stray task stays one over changes elsewhere. -/
theorem Strays.congr (h : s.Strays) (hp : s'.peers = s.peers) (hs : s'.scheduler = s.scheduler)
    (hnow : s'.now = s.now) : s'.Strays := by
  refine h.of_handles (h.wf.congr hp hs) (fun x t ht _ _ => ?_) (fun f x hx => .inl ?_) hnow
  · rwa [enabled, hs]
  · rwa [handle_congr (s := s) (by rw [hp])] at hx

/-- A stray task stays one over a send. -/
theorem strays_send (h : s.Strays) (msg : ChatMessage) (r : IPSocket) :
    (send net msg r s).state.Strays :=
  h.congr (peers_send msg r s) (scheduler_send msg r s) (now_send msg r s)

/-- An entry overwrites handles but ends no task, so a stray one stays. -/
theorem strays_handleCommUp (h : s.Strays) (r : IPSocket) : (handleCommUp r s).Strays := by
  obtain ⟨p, q, h₁⟩ := handleCommUp_spec r s
  -- the entry of a known remote leaves its old comm-lost task behind
  by_cases hr : r ∈ s.peers
  · exact h₁.strays h.wf hr
  refine h.of_handles (h₁.wf h.wf) (fun x t ht _ _ => ?_) (fun f x hx => ?_) h₁.now
  · -- an enabled task was issued before, the two of `r` were not
    have hissued := T.issued_of_enabled _ _ _ ht
    have hxp : x ≠ p := fun heq => h₁.fresh_ping (heq ▸ hissued)
    have hxq : x ≠ q := fun heq => h₁.fresh_commLost (heq ▸ hissued)
    exact (h₁.old x hxp hxq).1.trans ht
  · by_cases hf : f.remote = r
    · -- the entry is new, and so are its handles
      cases f with
      | ping r' =>
          obtain rfl : r' = r := hf
          exact .inr (Option.some.inj ((h₁.handle_ping hr).symm.trans hx) ▸ h₁.fresh_ping)
      | commLost r' =>
          obtain rfl : r' = r := hf
          exact .inr (Option.some.inj ((h₁.handle_commLost hr).symm.trans hx) ▸ h₁.fresh_commLost)
      | reconnect r' => simp at hx
    · rw [handle_congr (h₁.lookup _ hf)] at hx
      exact .inl hx

/-- A loss ends the tasks of its entry only, so a stray one stays. -/
theorem strays_handleCommLost (h : s.Strays) (r : IPSocket) : (handleCommLost r s).Strays := by
  have h₀ : (s.record (.commLost r)).Strays := h.congr rfl rfl rfl
  obtain ⟨p, h₁⟩ := scheduleReestablishment_spec r (s.record (.commLost r))
  -- the reconnect is a new task, and the table stays
  have h₂ : (scheduleReestablishment r (s.record (.commLost r))).Strays := by
    refine h₀.of_handles (h₁.wf h₀.wf) (fun x t ht _ _ => ?_) (fun f x hx => .inl ?_) h₁.now
    · have hxp : x ≠ p := fun heq => h₁.fresh (heq ▸ T.issued_of_enabled _ _ _ ht)
      exact (h₁.old x hxp).1.trans ht
    · rwa [handle_congr (s := s.record (.commLost r)) (by rw [h₁.peers])] at hx
  have h₃ := remove_spec r (scheduleReestablishment r (s.record (.commLost r)))
  -- the stray task is no task of the entry removed
  refine h₂.of_handles (h₃.wf h₂.wf) (fun x t ht hno _ => ?_) (fun f x hx => .inl ?_) h₃.now
  · exact (h₃.old x fun f _ => hno f).1.trans ht
  · by_cases hf : f.remote = r
    · exact absurd ((h₃.handle_eq_none hf).symm.trans hx) (Option.some_ne_none x).symm
    · exact (handle_congr (h₃.lookup _ hf)).symm.trans hx

/-- The accounting for a task that has run does not concern a stray one, which was not due. -/
theorem Strays.ran (h : s'.Strays) (hwf : s.WF) (ht : s.enabled p = some t) (hdue : t.due ≤ s.now)
    (hrun : runFunction net t.function s = .returned s') : (complete p s').Strays := by
  have hlocal := local_ran hwf ht hdue hrun
  have hc := complete_spec p s'
  have hnow : s'.now = s.now := hc.now.symm.trans hlocal.frame.now
  refine h.of_handles hlocal.wf (fun x u hu _ hudue => ?_) (fun f x hx => .inl ?_) hc.now
  · -- the stray task is not due yet, so it is not the one that ran
    have hxp : x ≠ p := by
      rintro rfl
      rcases runFunction_enabled hwf ht hrun with ht₁ | ⟨hn, -⟩
      · rw [← Option.some.inj (ht₁.symm.trans hu), hnow] at hudue
        exact absurd hdue (Nat.not_le.mpr hudue)
      · exact absurd (hn.symm.trans hu) (Option.some_ne_none u).symm
    exact (hc.old x hxp).1.trans hu
  · exact (handle_congr (by rw [hc.peers])).symm.trans hx

/-- A launch runs no task that is not due, and what it runs stops only tasks behind handles. -/
theorem strays_launchTask (h : s.Strays) (p : T.Ptr) : (launchTask net p s).state.Strays := by
  -- every function of a task keeps a stray one
  have hrun_strays : ∀ f, (runFunction net f s).state.Strays := by
    intro f
    cases f with
    | ping r => exact strays_send h keepAliveMsg r
    | commLost r => exact strays_handleCommLost h r
    | reconnect r => exact strays_handleCommUp h r
  have hl := launchTask_spec net p s
  generalize launchTask net p s = o at hl ⊢
  cases hl with
  | idle _ => exact h
  | threw t s₁ ht hdue hrun =>
      have hs₁ := hrun_strays t.function
      rwa [hrun] at hs₁
  | ran t s₁ ht hdue hrun =>
      have hs₁ := hrun_strays t.function
      rw [hrun, Outcome.state_returned] at hs₁
      exact hs₁.ran h.wf ht hdue hrun

/-- A reconnect task that finds its remote in the table leaves a stray task behind. -/
theorem strays_reconnect (hwf : s.WF) (ht : s.enabled p = some t) (hdue : t.due ≤ s.now)
    (hf : t.function = .reconnect r) (hr : r ∈ s.peers) : (launchTask net p s).state.Strays := by
  obtain ⟨a, b, hc⟩ := handleCommUp_spec r s
  have hrun : runFunction net t.function s = .returned (handleCommUp r s) := by
    rw [hf]
    rfl
  -- the task is due, so the launch runs it
  have heq : launchTask net p s = .returned (complete p (handleCommUp r s)) := by
    rw [launchTask, ← enabled, ht]
    show (if t.due ≤ s.now then (runFunction net t.function s).andThen fun s =>
      .returned (complete p s) else .returned s) = _
    rw [if_pos hdue, hrun]
    rfl
  rw [heq]
  exact (hc.strays hwf hr).ran hwf ht hdue hrun

/-- **A step that connects to a known peer leaves a stray task behind.** -/
theorem strays_step {e : UdpEvent T} (h : s.Tidy) (hbad : ¬ EntersNew net s e) :
    (step net s e).state.Strays := by
  cases e with
  | advance d => exact absurd trivial hbad
  | connect remotes =>
      have hor := Outcome.eachMeets_or_state (I := Tidy) (Q := Strays)
        (f := fun r s => .returned (handleCommUp r s)) remotes h
        (fun r s₁ h₁ hr => tidy_handleCommUp h₁ hr)
        (fun r s₁ h₁ hr => by
          -- the tasks of a known peer lose their handles
          obtain ⟨p, q, hc⟩ := handleCommUp_spec r s₁
          exact hc.strays h₁.wf (not_not.mp hr))
        (fun r s₁ h₁ => strays_handleCommUp h₁ r)
      rw [forEach_handleCommUp] at hor
      exact hor.resolve_left hbad
  | receive r call => exact absurd trivial hbad
  | launch order =>
      have h₀ : (s.record .launched).Tidy := ⟨h.wf.congr rfl rfl, h.owned.congr rfl rfl⟩
      have hor := Outcome.eachMeets_or_state (I := Tidy) (Q := Strays) (f := launchTask net)
        order h₀ (fun p s₁ h₁ (hp : ReconnectsNew p s₁) => tidy_launchTask h₁ p hp)
        (fun p s₁ h₁ hp => by
          simp only [ReconnectsNew, not_forall, not_not] at hp
          obtain ⟨t, r, ht, hdue, hf, hr⟩ := hp
          exact strays_reconnect h₁.wf ht hdue hf hr)
        (fun p s₁ h₁ => strays_launchTask h₁ p)
      exact hor.resolve_left hbad
  | send order msg => exact absurd trivial hbad

/-! ## Runs -/

/-- `handleCommUp` leaves the table and the enabled tasks as they are. -/
def Unchanged (r : IPSocket) (s : SocketUdp T) : Prop :=
  (handleCommUp r s).peers = s.peers ∧ ∀ x, (handleCommUp r s).enabled x = s.enabled x

/-- For a known remote the table stays, the tasks never do. -/
theorem handleCommUp_known (hr : r ∈ s.peers) :
    (handleCommUp r s).peers = s.peers ∧ ¬ Unchanged r s := by
  obtain ⟨p, q, h⟩ := handleCommUp_spec r s
  refine ⟨h.known hr, fun hsame => h.fresh_ping ?_⟩
  exact T.issued_of_enabled _ _ _ ((hsame.2 p).symm.trans h.ping)

/-- **All tasks are owned in exactly the runs that connect only to new peers.** In every run the
ping and comm-lost tasks all belong to entries, in every state it goes through, exactly when no
`connect` and no reconnect task finds its remote in the table; and such a call never leaves the
tasks as they are. -/
theorem owned_iff_entersNew {es : List (UdpEvent T)} (hrun : Run (step net) Possible {} es s) :
    (Run.Throughout (step net) Possible Owned {} es ↔
      Run (step net) (fun s e => s.Possible e ∧ EntersNew net s e) {} es s) ∧
    ∀ r ∈ s.peers, (handleCommUp r s).peers = s.peers ∧ ¬ Unchanged r s := by
  refine ⟨hrun.throughout_iff (I := Tidy) ⟨.init, .init⟩ (fun _ h => h.owned) ?_ ?_,
    fun r hr => handleCommUp_known hr⟩
  · intro s e h _ hok
    exact tidy_step h hok
  · intro s e h _ howned
    by_contra hbad
    exact (strays_step h hbad).not_owned howned

/-- Two remotes connected in one call, one of which answers; and a third that talks unasked. -/
theorem owned_connect_once : Run.Throughout (step fun _ => true) Possible Owned
    ({} : SocketUdp (.table UdpTask)) [.connect [sampleRemote, { sampleRemote with port := 5001 }],
      .receive sampleRemote (.wrote (ascii "hi")),
      .receive { sampleRemote with port := 5002 } (.wrote (ascii "hi"))] := by
  -- two connects of different remotes
  have hnew : EntersNew (fun _ => true) ({} : SocketUdp (.table UdpTask))
      (.connect [sampleRemote, { sampleRemote with port := 5001 }]) := by
    refine ⟨AList.notMem_empty _, fun s' hs' => ⟨?_, fun _ _ => trivial⟩⟩
    rw [← Outcome.returned.inj hs']
    decide
  have hrun : Run (step fun _ => true) (fun s e => s.Possible e ∧ EntersNew (fun _ => true) s e)
      ({} : SocketUdp (.table UdpTask))
      [.connect [sampleRemote, { sampleRemote with port := 5001 }],
        .receive sampleRemote (.wrote (ascii "hi")),
        .receive { sampleRemote with port := 5002 } (.wrote (ascii "hi"))] _ :=
    .cons ⟨trivial, hnew⟩ rfl (.cons ⟨trivial, trivial⟩ rfl (.cons ⟨trivial, trivial⟩ rfl (.nil _)))
  exact (owned_iff_entersNew (hrun.imp fun _ _ hok => hok.1)).1.mpr hrun

/-- **Connecting twice is not connecting once**: the second call adds tasks 2 and 3, and the entry
holds tasks 0 and 1. -/
theorem not_unchanged : ¬ ∀ (es : List (UdpEvent (.table UdpTask)))
    (s : SocketUdp (.table UdpTask)), Run (step fun _ => true) Possible {} es s →
      (∀ r ∈ s.peers, Unchanged r s) ∧ s.Owned := by
  intro h
  have hrun : Run (step fun _ => true) Possible ({} : SocketUdp (.table UdpTask))
      [.connect [sampleRemote]] (handleCommUp sampleRemote {}) := .cons trivial rfl (.nil _)
  obtain ⟨hsame, -⟩ := h _ _ hrun
  have hmem : sampleRemote ∈
      (handleCommUp sampleRemote ({} : SocketUdp (.table UdpTask))).peers := by
    decide
  have htask := (hsame sampleRemote hmem).2 (2 : ℕ)
  exact absurd htask (by decide)

end SocketUdp

end SctpSandbox

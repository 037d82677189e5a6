import SctpSandbox.Udp.KeepAlive
import SctpSandbox.Udp.Membership

/-! # Silent peers are found out, and connected again

A launch leaves no task that runs once behind its time: when it returns, such a task is due later
than the launch (`Prompt`). With the deadlines of `Tracked` this bounds how long a silent peer stays
in the table (`detected_of_run`). The loss of a peer schedules the reconnect that enters it again,
so a peer that does not quit is in the table or awaits a reconnect that no launch has missed
(`reconnected_of_run`). -/

namespace SctpSandbox

/-- A task that runs once: a comm-lost task or a reconnect. -/
def UdpTask.Once (f : UdpTask) : Prop := f.repetitions = 1

namespace SocketUdp

variable {T : TaskScheduler UdpTask} {net : ℕ → Bool} {s s' s'' s₁ : SocketUdp T}
  {r r' : IPSocket} {f : UdpTask} {p q x : T.Ptr} {t : ScheduledTask UdpTask} {g n : Time}

/-- The task behind `p`, if it runs once, is due after `n`. -/
def DueAfter (n : Time) (p : T.Ptr) (s : SocketUdp T) : Prop :=
  ∀ t, s.enabled p = some t → t.function.Once → n < t.due

/-- What was done takes no time, and a task that runs once is one that was there before, or is due
later than now. -/
structure Postpones (s s' : SocketUdp T) : Prop where
  now : s'.now = s.now
  task : ∀ x t, s'.enabled x = some t → t.function.Once → s.enabled x = some t ∨ s.now < t.due

/-- Nothing done postpones, trivially. -/
theorem Postpones.refl (s : SocketUdp T) : Postpones s s := ⟨rfl, fun _ _ ht _ => .inl ht⟩

/-- Two postponements in a row are one. -/
theorem Postpones.trans (h₁ : Postpones s s') (h₂ : Postpones s' s'') : Postpones s s'' where
  now := h₂.now.trans h₁.now
  task := by
    intro x t ht hf
    rcases h₂.task x t ht hf with ht' | hdue
    · exact h₁.task x t ht' hf
    · exact .inr (h₁.now ▸ hdue)

/-- What leaves the scheduler alone. -/
theorem Postpones.of_scheduler (hs : s'.scheduler = s.scheduler) (hnow : s'.now = s.now) :
    Postpones s s' :=
  ⟨hnow, fun x t ht _ => .inl (by rwa [enabled, hs] at ht)⟩

/-- What is not due yet is not due after a postponement either. -/
theorem Postpones.dueAfter (h₁ : Postpones s s') (h : DueAfter s.now p s) :
    DueAfter s'.now p s' := by
  intro t ht hf
  rw [h₁.now]
  exact (h₁.task p t ht hf).elim (fun ht' => h t ht' hf) id

/-! ## The operations -/

/-- A task is due after the time it was scheduled at. -/
theorem lt_due_started (f : UdpTask) (now : Time) : now < (f.started now).due := by
  have hdelay : 0 < f.delay := by
    cases f with
    | ping r => exact keepAlivePeriod_pos
    | commLost r => exact (by decide : 0 < commLostDelay)
    | reconnect r => exact (by decide : 0 < reestablishmentDelay)
  exact Nat.lt_add_of_pos_right hdelay

/-- The entry of a peer postpones at most. -/
theorem CommUp.postpones (h₁ : CommUp r s s' p q) : Postpones s s' where
  now := h₁.now
  task := by
    intro x t ht _
    by_cases hxp : x = p
    · subst hxp
      obtain rfl := Option.some.inj (h₁.ping.symm.trans ht)
      exact .inr (lt_due_started _ _)
    · by_cases hxq : x = q
      · subst hxq
        obtain rfl := Option.some.inj (h₁.commLost.symm.trans ht)
        exact .inr (lt_due_started _ _)
      · exact .inl ((h₁.old x hxp hxq).1.symm.trans ht)

/-- A restart postpones at most. -/
theorem Restarted.postpones (h₁ : Restarted r s s' p) : Postpones s s' where
  now := h₁.now
  task := by
    intro x t ht _
    by_cases hxp : x = p
    · subst hxp
      obtain rfl := Option.some.inj (h₁.ping.symm.trans ht)
      exact .inr (lt_due_started _ _)
    · by_cases hxq : s.handle (.commLost r) = some x
      · rw [h₁.commLost x hxq] at ht
        obtain ⟨-, -, rfl⟩ := Option.map_eq_some_iff.mp ht
        exact .inr (lt_due_started _ _)
      · exact .inl ((h₁.old x hxp hxq).1.symm.trans ht)

/-- A removal postpones at most. -/
theorem Removed.postpones (h₁ : Removed r s s') : Postpones s s' :=
  ⟨h₁.now, fun _ _ ht _ => .inl (h₁.enabled_of_enabled ht).1⟩

/-- A reconnect scheduled postpones at most. -/
theorem Reestablished.postpones (h₁ : Reestablished r s s' p) : Postpones s s' where
  now := h₁.now
  task := by
    intro x t ht _
    by_cases hxp : x = p
    · subst hxp
      obtain rfl := Option.some.inj (h₁.reconnect.symm.trans ht)
      exact .inr (lt_due_started _ _)
    · exact .inl ((h₁.old x hxp).1.symm.trans ht)

/-- A task that runs once has one repetition at most left. -/
theorem WF.left_le (h : s.WF) (ht : s.enabled p = some t) (hf : t.function.Once) : t.left ≤ 1 := by
  obtain ⟨-, hr, hl⟩ := h.shape p t ht
  exact hl.trans (hr.trans hf).le

/-- `handleCommUp` postpones at most. -/
theorem postpones_handleCommUp (r : IPSocket) (s : SocketUdp T) :
    Postpones s (handleCommUp r s) := by
  obtain ⟨p, q, hc⟩ := handleCommUp_spec r s
  exact hc.postpones

/-- A send postpones at most. -/
theorem postpones_send (msg : ChatMessage) (r : IPSocket) (s : SocketUdp T) :
    Postpones s (send net msg r s).state :=
  .of_scheduler (scheduler_send msg r s) (now_send msg r s)

/-- `handleCommLost` postpones at most. -/
theorem postpones_handleCommLost (r : IPSocket) (s : SocketUdp T) :
    Postpones s (handleCommLost r s) := by
  have h₀ : Postpones s (s.record (.commLost r)) := .of_scheduler rfl rfl
  obtain ⟨p, hp⟩ := scheduleReestablishment_spec r (s.record (.commLost r))
  exact (h₀.trans hp.postpones).trans (remove_spec r _).postpones

/-- A datagram postpones at most. -/
theorem postpones_handleMessage (h : s.WF) (r : IPSocket) (call : RecvCall) :
    Postpones s (handleMessage net r call s).state := by
  cases call with
  | failed e => exact .refl s
  | wrote data =>
      have h₀ : Postpones s (s.record (.received (cStr data) r)) := .of_scheduler rfl rfl
      have hwf₀ : (s.record (.received (cStr data) r)).WF := h.congr rfl rfl
      rw [handleMessage, handleChatMessage]
      split
      · exact h₀.trans (remove_spec r _).postpones
      · -- the acknowledgement, then the restart or the entry
        refine (Outcome.andThen_state (P := fun s' : SocketUdp T => s'.WF ∧ Postpones s s') ?_
          fun s₁ hs₁ => ?_).2
        · split
          · exact ⟨(local_send hwf₀ keepAliveAckMsg r).wf, h₀.trans (postpones_send _ r _)⟩
          · exact ⟨hwf₀, h₀⟩
        · split
          case isTrue hr =>
            obtain ⟨p, hp⟩ := resetTasks_spec hs₁.1 hr
            exact ⟨hp.wf hs₁.1, hs₁.2.trans hp.postpones⟩
          case isFalse hr =>
            exact ⟨(local_handleCommUp hs₁.1 r).wf, hs₁.2.trans (postpones_handleCommUp r s₁)⟩

/-- What a task runs postpones at most. -/
theorem postpones_runFunction (net : ℕ → Bool) (f : UdpTask) (s : SocketUdp T) :
    Postpones s (runFunction net f s).state := by
  cases f with
  | ping r => exact postpones_send keepAliveMsg r s
  | commLost r => exact postpones_handleCommLost r s
  | reconnect r => exact postpones_handleCommUp r s

/-- The account of a run ends a task that runs once. -/
theorem Completed.postpones (h : s.WF) (h₁ : Completed p s s')
    (hp : ∀ u, s.enabled p = some u → u.due ≤ s.now) : Postpones s s' where
  now := h₁.now
  task := by
    intro x t ht hf
    by_cases hxp : x = p
    · subst hxp
      cases he : s.enabled x with
      | none => exact absurd ((h₁.stopped he).symm.trans ht) (Option.some_ne_none t).symm
      | some u =>
          rcases Nat.lt_or_ge 1 u.left with hl | hl
          · -- a task that goes on is one that runs more than once
            obtain ⟨due, -, -, hu⟩ := h₁.again u he hl (hp u he)
            obtain rfl := Option.some.inj (hu.symm.trans ht)
            exact absurd hl (Nat.not_lt.mpr (h.left_le he hf))
          · exact absurd ((h₁.last u he hl).1.symm.trans ht) (Option.some_ne_none t).symm
    · exact .inl ((h₁.old x hxp).1.symm.trans ht)

/-! ## Launches -/

/-- When the task behind `p` was looked at, it is not due any more if it runs once. What happens
under the other pointers does not change this. -/
theorem launchTask_postpones (h : s.WF) (hlaunch : launchTask net p s = .returned s') :
    s'.WF ∧ Postpones s s' ∧ DueAfter s'.now p s' := by
  have hwf : s'.WF := by
    have hstate : (launchTask net p s).state.WF := wf_launchTask h p
    rwa [hlaunch] at hstate
  have hl := launchTask_spec net p s
  rw [hlaunch] at hl
  cases hl with
  | idle hidle => exact ⟨hwf, .refl s, fun t ht _ => hidle t ht⟩
  | ran t s₁ ht hdue hrun =>
      have hrun₁ : Postpones s s₁ := by
        have hstate := postpones_runFunction net t.function s
        rwa [hrun] at hstate
      have hwf₁ : s₁.WF := by
        have hstate := (local_runFunction net h t.function).wf
        rwa [hrun] at hstate
      have hafter := runFunction_enabled h ht hrun
      have hdue₁ : ∀ u, s₁.enabled p = some u → u.due ≤ s₁.now := by
        intro u hu
        rcases hafter with hen | ⟨hnone, -⟩
        · obtain rfl := Option.some.inj (hen.symm.trans hu)
          exact hrun₁.now.symm ▸ hdue
        · exact absurd (hnone.symm.trans hu) (Option.some_ne_none u).symm
      have hc := complete_spec p s₁
      refine ⟨hwf, hrun₁.trans (hc.postpones hwf₁ hdue₁), fun u hu hf => ?_⟩
      -- the task that ran is gone, if it runs once
      exfalso
      cases he : s₁.enabled p with
      | none => exact absurd ((hc.stopped he).symm.trans hu) (Option.some_ne_none u).symm
      | some v =>
          rcases Nat.lt_or_ge 1 v.left with hl | hl
          · obtain ⟨due, -, -, hv⟩ := hc.again v he hl (hdue₁ v he)
            obtain rfl := Option.some.inj (hv.symm.trans hu)
            exact absurd hl (Nat.not_lt.mpr (hwf₁.left_le he hf))
          · exact absurd ((hc.last v he hl).1.symm.trans hu) (Option.some_ne_none u).symm

/-- **A launch that returns leaves no task that runs once behind its time.** -/
theorem dueAfter_launch (h : s.WF) {order : List T.Ptr} (hposs : s.Possible (.launch order))
    (hlaunch : launch net order s = .returned s') (p : T.Ptr) : DueAfter s'.now p s' := by
  have h₀ : (s.record .launched).WF := h.congr rfl rfl
  -- a task that the launch looks at has run, if it was due
  by_cases hp : p ∈ order
  · refine Outcome.forEach_covers (I := WF) (P := fun p s => DueAfter s.now p s) h₀
      (fun _ _ _ ht hrun => (launchTask_postpones ht hrun).1)
      (fun _ _ _ ht hrun => (launchTask_postpones ht hrun).2.2)
      (fun _ _ _ _ ht hdue hrun => (launchTask_postpones ht hrun).2.1.dueAfter hdue)
      hlaunch p hp
  · -- what the launch does not look at was not due
    have hstart : DueAfter s.now p s := fun t ht _ => by
      by_contra hdue
      exact hp (hposs p t ht (Nat.not_lt.mp hdue))
    have hends : (launch net order s).Ends (fun s' => s'.WF ∧ DueAfter s'.now p s')
        fun _ => True := by
      refine Outcome.forEach_keeps order ⟨h₀, hstart⟩ fun x t ht => ?_
      cases hrun : launchTask net x t with
      | returned u =>
          obtain ⟨hwf, hpost, -⟩ := launchTask_postpones ht.1 hrun
          exact ⟨hwf, hpost.dueAfter ht.2⟩
      | threw u => trivial
    rw [hlaunch] at hends
    exact hends.2

/-! ## Runs -/

/-- No launch has missed a task that runs once. -/
def Prompt (s : SocketUdp T) : Prop :=
  ∀ p t, s.enabled p = some t → t.function.Once → ∀ l, (l, .launched) ∈ s.log → l < t.due

/-- What launches nothing and postpones its tasks keeps the socket prompt. -/
theorem Prompt.of_postpones (h : s.Prompt) (hpast : s.Past) (h₁ : Postpones s s')
    (hlog : ∀ l, (l, .launched) ∈ s'.log → (l, .launched) ∈ s.log) : s'.Prompt := by
  intro p t ht hf l hl
  rcases h₁.task p t ht hf with ht' | hdue
  · exact h p t ht' hf l (hlog l hl)
  · exact Nat.lt_of_le_of_lt (hpast _ (hlog l hl)) hdue

/-- After the connects the new tasks are prompt. -/
theorem prompt_connect (hwf : s.WF) (hpast : s.Past) (h : s.Prompt) (remotes : List IPSocket) :
    (connect remotes s).Prompt := by
  induction remotes generalizing s with
  | nil => exact h
  | cons r rs ih =>
      have hl := local_handleCommUp hwf r
      exact ih hl.wf (hpast.of_local hl)
        (h.of_postpones hpast (postpones_handleCommUp r s) fun _ => hl.frame.launched)

/-- A task of a socket whose `sendto` succeeds returns. -/
theorem launchTask_returns (p : T.Ptr) (s : SocketUdp T) :
    (launchTask (fun _ => true) p s).Returns := by
  have hl := launchTask_spec (fun _ => true) p s
  generalize launchTask (fun _ => true) p s = o at hl ⊢
  cases hl with
  | idle _ => trivial
  | ran t s₁ _ _ _ => trivial
  | threw t s₁ _ _ hrun =>
      -- only a ping sends
      cases hf : t.function with
      | ping r => exact absurd (hf ▸ hrun) (by simp [runFunction, send])
      | commLost r => exact absurd (hf ▸ hrun) (by simp [runFunction])
      | reconnect r => exact absurd (hf ▸ hrun) (by simp [runFunction])

/-- So does every step but a failed `recvfrom`. -/
theorem step_returns {e : UdpEvent T} (h : ∀ r err, e ≠ .receive r (.failed err))
    (s : SocketUdp T) : (step (fun _ => true) s e).Returns := by
  -- without a failed receive nothing throws here
  cases e with
  | advance d => trivial
  | connect remotes => trivial
  | receive r call =>
      cases call with
      | failed err => exact absurd rfl (h r err)
      | wrote data =>
          rw [step, handleMessage, handleChatMessage]
          split
          · trivial
          · refine Outcome.Ends.andThen (I := fun _ => True) ?_ fun s₁ _ => ?_
            · split <;> trivial
            · split <;> trivial
  | launch order =>
      exact Outcome.forEach_keeps order trivial fun p s₁ _ => launchTask_returns p s₁
  | send order msg =>
      exact Outcome.forEach_keeps _ trivial fun _ _ _ => trivial

/-- Every step keeps the socket prompt: a launch catches up, whatever else happens schedules tasks
for later. -/
theorem prompt_step (hwf : s.WF) (hpast : s.Past) (h : s.Prompt) {e : UdpEvent T}
    (hposs : s.Possible e) : (step (fun _ => true) s e).state.Prompt := by
  cases e with
  | advance d => exact h
  | connect remotes => exact prompt_connect hwf hpast h remotes
  | receive r call =>
      exact h.of_postpones hpast (postpones_handleMessage hwf r call)
        fun _ => (local_handleMessage hwf r call).frame.launched
  | launch order =>
      have hret := step_returns (e := .launch order) (fun _ _ => nofun) s
      have hpast' : (step (fun _ => true) s (.launch order)).state.Past := past_step hwf hpast _
      revert hret hpast'
      rw [step]
      cases hlaunch : launch (fun _ => true) order s with
      | threw s' => exact fun hret => absurd hret id
      | returned s' =>
          -- every launch logged so far lies in the past, and what is not due yet is due after it
          intro _ hpast' p t ht hf l hl
          exact Nat.lt_of_le_of_lt (hpast' _ hl) (dueAfter_launch hwf hposs hlaunch p t ht hf)
  | send order msg =>
      -- a send changes no task
      refine (Outcome.forEach_state (P := fun s : SocketUdp T => s.WF ∧ s.Past ∧ s.Prompt)
        ⟨hwf, hpast, h⟩ fun r _ s₁ hs₁ => ?_).2.2
      have hl : Local r s₁ (send (fun _ => true) msg r s₁).state := local_send hs₁.1 msg r
      exact ⟨hl.wf, hs₁.2.1.of_local hl, hs₁.2.2.of_postpones hs₁.2.1 (postpones_send msg r s₁)
        fun _ => hl.frame.launched⟩

/-- What a socket that launches keeps: the handles are in order, no line is from the future, and no
launch has missed a task that runs once. -/
structure Timely (s : SocketUdp T) : Prop where
  wf : s.WF
  past : s.Past
  prompt : s.Prompt

/-- There is no task yet to be late. -/
theorem Timely.init : Timely ({} : SocketUdp T) :=
  ⟨.init, fun _ he => absurd he List.not_mem_nil, fun _ _ _ _ _ hl => absurd hl List.not_mem_nil⟩

/-- Step lemma: launches that look often enough keep all tasks in time. -/
theorem Timely.step (h : s.Timely) {e : UdpEvent T} (hposs : s.Possible e) :
    (step (fun _ => true) s e).state.Timely :=
  ⟨wf_step h.wf e, past_step h.wf h.past e, prompt_step h.wf h.past h.prompt hposs⟩

/-- **A silent peer is found out by the first launch after its deadline**: in every run in which
`sendto` succeeds, every peer was entered or heard of less than `commLostDelay` before the last
launch. So a loop that launches every `g` keeps nobody for longer than that and `g`. -/
theorem detected_of_run {es : List (UdpEvent T)}
    (hrun : Run (step fun _ => true) (fun s e => s.Possible e) ({} : SocketUdp T) es s) :
    ∀ r ∈ s.peers, ∃ entered, enteredAt r s.log = some entered ∧
      ∀ l, (l, .launched) ∈ s.log → l < max entered (heardAt r s.log) + commLostDelay := by
  have h : s.Timely := hrun.invariant_state .init fun _ _ h hposs => h.step hposs
  intro r hr
  have htracked := (accounted_of_run hrun).tracked r
  obtain ⟨entered, he⟩ := htracked.mem_iff.mp hr
  obtain ⟨q, -, hq⟩ := htracked.present entered he
  exact ⟨entered, he, fun l hl => h.prompt q _ hq rfl l hl⟩

/-- A peer heard of once and not found out by a launch 3 s later: its time is not up. -/
theorem detected_three_seconds : ∃ s : SocketUdp (.table UdpTask), sampleRemote ∈ s.peers ∧
    ∃ entered, enteredAt sampleRemote s.log = some entered ∧
      seconds 3 < max entered (heardAt sampleRemote s.log) + commLostDelay := by
  have hrun : ∃ s : SocketUdp (.table UdpTask), sampleRemote ∈ s.peers ∧
      (seconds 3, .launched) ∈ s.log ∧ Run (step fun _ => true) (fun s e => s.Possible e) {}
        [.receive sampleRemote (.wrote (ascii "hi")), .advance (seconds 3),
          .launch (List.range 2)] s := by
    -- the peer is polled after three seconds, before its delay is over
    refine ⟨_, ?_, ?_, .cons trivial rfl (.cons trivial rfl
      (.cons (possible_launch_range _) rfl (.nil _)))⟩
    · decide
    · decide
  obtain ⟨s, hmem, hlaunch, hrun⟩ := hrun
  obtain ⟨entered, he, hall⟩ := detected_of_run hrun sampleRemote hmem
  exact ⟨s, hmem, entered, he, hall _ hlaunch⟩

/-! ## Reconnects -/

/-- `r` is a peer, or was lost and awaits the reconnect that its loss has scheduled. -/
def Owed (r : IPSocket) (s : SocketUdp T) : Prop :=
  r ∈ s.peers ∨ ∃ p lost, (lost, .commLost r) ∈ s.log ∧
    s.enabled p = some ((UdpTask.reconnect r).started lost)

/-- The event is no quit message from `r`. -/
def NoQuit (r : IPSocket) (e : UdpEvent T) : Prop :=
  ∀ data, e = .receive r (.wrote data) → cStr data ≠ quitMsg

/-- What is owed to a remote is not touched by what is done to another. -/
theorem Owed.of_local (h : Owed r s) (hl : Local r' s s') (hr : r ≠ r') : Owed r s' := by
  rcases h with hmem | ⟨p, lost, hlost, hp⟩
  · exact .inl ((hl.frame.mem hr).mpr hmem)
  · obtain ⟨l, hlog, -⟩ := hl.frame.log
    exact .inr ⟨p, lost, hlog ▸ List.mem_append_right l hlost,
      (hl.frame.enabled p ((UdpTask.reconnect r).started lost) hr).mpr hp⟩

/-- What leaves the table and the tasks alone. -/
theorem Owed.of_log {l : List (Time × UdpAction)} (h : Owed r s) (hpeers : s'.peers = s.peers)
    (hsched : s'.scheduler = s.scheduler) (hlog : s'.log = l ++ s.log) : Owed r s' := by
  rcases h with hmem | ⟨p, lost, hlost, hp⟩
  · exact .inl (hpeers ▸ hmem)
  · refine .inr ⟨p, lost, hlog ▸ List.mem_append_right l hlost, ?_⟩
    rwa [enabled, hsched]

/-- What is owed to a remote stays owed over an entry. -/
theorem owed_handleCommUp (r : IPSocket) (s : SocketUdp T) : Owed r (handleCommUp r s) := by
  obtain ⟨p, q, hc⟩ := handleCommUp_spec r s
  exact .inl hc.mem

/-- A loss schedules the reconnect; the removal that follows does not stop it. -/
theorem owed_handleCommLost (hwf : s.WF) (r : IPSocket) : Owed r (handleCommLost r s) := by
  obtain ⟨p, hp⟩ := scheduleReestablishment_spec r (s.record (.commLost r))
  have hrem := remove_spec r (scheduleReestablishment r (s.record (.commLost r)))
  refine .inr ⟨p, s.now, ?_, ?_⟩
  · rw [handleCommLost, hrem.log, hp.log]
    exact List.mem_cons_self
  · refine (hrem.old p fun f _ hf => ?_).1.trans hp.reconnect
    -- the reconnect is new, so no entry holds it
    have hf' : s.handle f = some p := (handle_congr (by rw [hp.peers]; rfl)).symm.trans hf
    exact hp.fresh (hwf.issued f p hf')

/-- What is owed to a remote stays owed over a datagram that is no farewell. -/
theorem owed_handleMessage (hwf : s.WF) (h : Owed r s) {call : RecvCall}
    (hquit : ∀ data, call = .wrote data → cStr data ≠ quitMsg) :
    Owed r (handleMessage net r call s).state := by
  cases call with
  | failed e => exact h
  | wrote data =>
      let s₁ := s.record (.received (cStr data) r)
      have h₁ : s₁.WF ∧ Owed r s₁ := ⟨hwf.congr rfl rfl,
        h.of_log (l := [(s.now, .received (cStr data) r)]) rfl rfl rfl⟩
      rw [handleMessage, handleChatMessage, if_neg (hquit data rfl)]
      refine (Outcome.andThen_state (P := fun s : SocketUdp T => s.WF ∧ Owed r s) ?_
        fun s₂ hs₂ => ?_).2
      · -- the acknowledgement changes neither the tasks nor the table
        split
        · exact ⟨(local_send h₁.1 keepAliveAckMsg r).wf,
            h₁.2.of_log (l := [(s.now, .sent keepAliveAckMsg r)]) (peers_send _ _ _)
              (scheduler_send _ _ _) (log_send _ _ _)⟩
        · exact h₁
      · -- a known sender stays a peer, an unknown one becomes one
        split
        case isTrue hr =>
          obtain ⟨p, hp⟩ := resetTasks_spec hs₂.1 hr
          exact ⟨hp.wf hs₂.1, .inl ((hp.mem r).mpr hr)⟩
        case isFalse hr => exact ⟨(local_handleCommUp hs₂.1 r).wf, owed_handleCommUp r s₂⟩

/-- The account of a run ends no reconnect that is still owed. -/
theorem Owed.completed (h : Owed r s) (h₁ : Completed p s s')
    (hp : r ∈ s.peers ∨ ∀ lost, s.enabled p ≠ some ((UdpTask.reconnect r).started lost)) :
    Owed r s' := by
  rcases h with hmem | ⟨x, lost, hlost, hx⟩
  · exact .inl (h₁.peers ▸ hmem)
  rcases hp with hmem | hno
  · exact .inl (h₁.peers ▸ hmem)
  refine .inr ⟨x, lost, h₁.log ▸ hlost, (h₁.old x ?_).1.trans hx⟩
  rintro rfl
  exact hno lost hx

/-- **A task about `r`**: its ping changes nothing, its loss schedules a reconnect, and its
reconnect enters it again. -/
theorem owed_runFunction (net : ℕ → Bool) (hwf : s.WF) (f : UdpTask) (h : Owed f.remote s) :
    Owed f.remote (runFunction net f s).state := by
  cases f with
  | ping r =>
      exact h.of_log (l := [(s.now, .sent keepAliveMsg r)]) (peers_send _ _ _)
        (scheduler_send _ _ _) (log_send _ _ _)
  | commLost r => exact owed_handleCommLost hwf r
  | reconnect r => exact owed_handleCommUp r s

/-- What is owed to a remote stays owed, or is paid, over a task. -/
theorem owed_launchTask (hwf : s.WF) (h : Owed r s) (p : T.Ptr) :
    Owed r (launchTask net p s).state := by
  rcases local_launchTask net hwf p with ⟨heq, -⟩ | ⟨t, ht, hdue, hl⟩
  · rw [heq]
    exact h
  by_cases hr : r = t.function.remote
  swap
  · exact h.of_local hl hr
  subst hr
  have hrun₁ := owed_runFunction net hwf t.function h
  have hlt := launchTask_spec net p s
  generalize launchTask net p s = o at hlt ⊢
  cases hlt with
  | idle hidle => exact h
  | threw u s₁ hu _ hrun =>
      obtain rfl := Option.some.inj (ht.symm.trans hu)
      rwa [hrun] at hrun₁
  | ran u s₁ hu _ hrun =>
      obtain rfl := Option.some.inj (ht.symm.trans hu)
      have hafter := runFunction_enabled hwf ht hrun
      rw [hrun] at hrun₁
      refine hrun₁.completed (complete_spec p s₁) ?_
      -- only the reconnect itself is ended, and it has entered the peer
      by_cases hf : ∃ r', t.function = .reconnect r'
      · obtain ⟨r', hf⟩ := hf
        rw [hf] at hrun ⊢
        obtain ⟨_, _, hc⟩ := handleCommUp_spec r' s
        exact .inl (Outcome.returned.inj hrun ▸ hc.mem)
      · refine .inr fun lost hp => hf ⟨t.function.remote, ?_⟩
        rcases hafter with hen | ⟨hnone, -⟩
        · exact congrArg ScheduledTask.function (Option.some.inj (hen.symm.trans hp))
        · exact absurd (hnone.symm.trans hp) (Option.some_ne_none _).symm

/-- Step lemma: what is owed to a remote stays owed, or is paid, over a step. -/
theorem owed_step (hwf : s.WF) (h : Owed r s) {e : UdpEvent T} (hquit : NoQuit r e) :
    Owed r (step net s e).state := by
  cases e with
  | advance d => exact h
  | connect remotes =>
      change Owed r (connect remotes s)
      induction remotes generalizing s with
      | nil => exact h
      | cons r' rs ih =>
          have hl := local_handleCommUp hwf r'
          refine ih hl.wf ?_ fun data heq => nomatch heq
          -- the remote connected is a peer at once, whatever was owed to it
          by_cases hr : r = r'
          · exact hr ▸ owed_handleCommUp r s
          · exact h.of_local hl hr
  | receive r' call =>
      by_cases hr : r = r'
      · subst hr
        exact owed_handleMessage hwf h fun data hcall => hquit data (by rw [hcall])
      · exact h.of_local (local_handleMessage hwf r' call) hr
  | launch order =>
      -- task by task; only the one that reconnects `r` pays what is owed
      have h₀ : (s.record .launched).WF ∧ Owed r (s.record .launched) :=
        ⟨hwf.congr rfl rfl, h.of_log (l := [(s.now, .launched)]) rfl rfl rfl⟩
      exact (Outcome.forEach_state (P := fun s : SocketUdp T => s.WF ∧ Owed r s) h₀
        fun p _ s₁ hs₁ => ⟨wf_launchTask hs₁.1 p, owed_launchTask hs₁.1 hs₁.2 p⟩).2
  | send order msg =>
      exact (Outcome.forEach_state (P := fun s : SocketUdp T => s.WF ∧ Owed r s) ⟨hwf, h⟩
        fun r' _ s₁ hs₁ => ⟨(local_send hs₁.1 msg r').wf,
          hs₁.2.of_log (l := [(s₁.now, .sent msg r')]) (peers_send _ _ _) (scheduler_send _ _ _)
            (log_send _ _ _)⟩).2

/-- **A peer that does not quit comes back**: in every later state it is in the table, or it was
declared lost and the reconnect its loss has scheduled is due later than every launch so far. So a
loop that launches every `g` leaves nobody out for longer than `reestablishmentDelay` and `g`. -/
theorem reconnected_of_run {es₀ es : List (UdpEvent T)}
    (hrun₀ : Run (step fun _ => true) (fun s e => s.Possible e) {} es₀ s₁) (hr : r ∈ s₁.peers)
    (hrun : Run (step fun _ => true) (fun s e => s.Possible e ∧ NoQuit r e) s₁ es s) :
    r ∈ s.peers ∨ ∃ p lost, (lost, .commLost r) ∈ s.log ∧
      s.enabled p = some ((UdpTask.reconnect r).started lost) ∧
      ∀ l, (l, .launched) ∈ s.log → l < lost + reestablishmentDelay := by
  have h₁ : s₁.Timely := hrun₀.invariant_state .init fun _ _ h hposs => h.step hposs
  have h : s.Timely ∧ Owed r s :=
    hrun.invariant_state (I := fun s : SocketUdp T => s.Timely ∧ Owed r s) ⟨h₁, .inl hr⟩
      fun s e ⟨h, ho⟩ hok => ⟨h.step hok.1, owed_step h.wf ho hok.2⟩
  refine h.2.imp id fun ⟨p, lost, hlost, hp⟩ => ⟨p, lost, hlost, hp, fun l hl => ?_⟩
  exact h.1.prompt p _ hp rfl l hl

/-- A peer lost after 4 s of silence awaits its reconnect at 8 s. -/
theorem reconnected_silent_peer : ∃ s : SocketUdp (.table UdpTask), s.now = seconds 8 ∧
    ∃ p lost, s.enabled p = some ((UdpTask.reconnect sampleRemote).started lost) ∧
      s.now < lost + reestablishmentDelay := by
  have hrun : ∃ s₁ s : SocketUdp (.table UdpTask), sampleRemote ∈ s₁.peers ∧
      s.now = seconds 8 ∧ sampleRemote ∉ s.peers ∧ (seconds 8, .launched) ∈ s.log ∧
      Run (step fun _ => true) (fun s e => s.Possible e) {}
        [.receive sampleRemote (.wrote (ascii "hi"))] s₁ ∧
      Run (step fun _ => true) (fun s e => s.Possible e ∧ NoQuit sampleRemote e) s₁
        [.advance (seconds 4), .launch (List.range 2), .advance (seconds 4),
          .launch (List.range 3)] s := by
    -- lost at 4 s, and its reconnect not due yet at 8 s
    refine ⟨_, _, ?_, ?_, ?_, ?_, .cons trivial rfl (.nil _), .cons ⟨trivial, fun _ => nofun⟩ rfl
      (.cons ⟨possible_launch_range _, fun _ => nofun⟩ rfl (.cons ⟨trivial, fun _ => nofun⟩ rfl
      (.cons ⟨possible_launch_range _, fun _ => nofun⟩ rfl (.nil _))))⟩
    · decide
    · rfl
    · decide
    · decide
  obtain ⟨s₁, s, hmem, hnow, hgone, hlaunch, hrun₀, hrun₁⟩ := hrun
  obtain ⟨p, lost, -, hp, hall⟩ := (reconnected_of_run hrun₀ hmem hrun₁).resolve_left hgone
  exact ⟨s, hnow, p, lost, hp, hnow ▸ hall _ hlaunch⟩

end SocketUdp

end SctpSandbox

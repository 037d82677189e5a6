import SctpSandbox.Udp.Detection

/-! # The table follows the events of a run

The log is written by the functions whose effect it tells, so it cannot say that they were called.
Here the same story is told from outside: a connect stands in the history because the user called
`connect` or because a reconnect task was due when a launch looked at it, a loss because a comm-lost
task was, and a datagram because `recvfrom` returned it (`history`). As long as every `sendto`
succeeds, the log and the history agree on who should have an entry since when (`agree_of_run`), and
so the table follows the history (`tracked_of_run`). -/

namespace SctpSandbox

/-- What happens to the remote of a task that is run. -/
def UdpTask.change : UdpTask → Option UdpAction
  | .ping _ => none
  | .commLost remote => some (.commLost remote)
  | .reconnect remote => some (.commUp remote)

namespace SocketUdp

variable {T : TaskScheduler UdpTask} {s s' : SocketUdp T} {r : IPSocket} {p : T.Ptr}
  {t : Time} {a : UdpAction} {log log' : List (Time × UdpAction)}

/-! ## What happens in a run -/

/-- The task that a launch runs when it looks at `p`. -/
def fired (s : SocketUdp T) (p : T.Ptr) : Option UdpTask :=
  ((s.enabled p).filter fun t => t.due ≤ s.now).map ScheduledTask.function

/-- What the tasks do that a launch runs, the newest first. -/
def firings : List T.Ptr → SocketUdp T → List (Time × UdpAction)
  | [], _ => []
  | p :: order, s =>
      firings order (launchTask (fun _ => true) p s).state ++
        (((s.fired p).bind UdpTask.change).map fun a => (s.now, a)).toList

/-- What an event does to the membership of remotes, the newest first. Nothing of it is read off the
state but the clock and, for a launch, the tasks that are due. -/
def changes (s : SocketUdp T) : UdpEvent T → List (Time × UdpAction)
  | .advance _ => []
  | .connect remotes => remotes.reverse.map fun remote => (s.now, .commUp remote)
  | .receive remote (.wrote data) => [(s.now, .received (cStr data) remote)]
  | .receive _ (.failed _) => []
  | .launch order => firings order (s.record .launched)
  | .send _ _ => []

/-- What happens in a run from `s` in which every `sendto` succeeds, the newest first. -/
def history : List (UdpEvent T) → SocketUdp T → List (Time × UdpAction)
  | [], _ => []
  | e :: es, s => history es (step (fun _ => true) s e).state ++ s.changes e

/-! ## Two accounts of the same story -/

/-- The two accounts agree on when each remote was entered for the last time, and on when it was
heard of. -/
structure Agree (log log' : List (Time × UdpAction)) : Prop where
  entered : ∀ r, enteredAt r log = enteredAt r log'
  heard : ∀ r, heardAt r log = heardAt r log'

/-- A log agrees with itself. -/
theorem Agree.refl (log : List (Time × UdpAction)) : Agree log log := ⟨fun _ => rfl, fun _ => rfl⟩

/-- The same line is read the same way in both accounts. -/
theorem Agree.cons (h : Agree log log') (line : Time × UdpAction) :
    Agree (line :: log) (line :: log') := by
  obtain ⟨t, a⟩ := line
  refine ⟨fun r => by rw [enteredAt, enteredAt, h.entered r], fun r => ?_⟩
  by_cases ha : ∃ msg, a = .received msg r
  · obtain ⟨msg, rfl⟩ := ha
    rw [heardAt_received, heardAt_received]
  · have hne : ∀ msg, a ≠ .received msg r := fun msg heq => ha ⟨msg, heq⟩
    rw [heardAt_other hne, heardAt_other hne, h.heard r]

/-- A line about the membership of nobody can be left out. -/
theorem Agree.skip (h : Agree log log') (t : Time) (ha : ∀ r, a.membership r = none) :
    Agree ((t, a) :: log) log' := by
  refine ⟨fun r => (enteredAt_other (ha r)).trans (h.entered r), fun r => ?_⟩
  refine (heardAt_other fun msg => ?_).trans (h.heard r)
  rintro rfl
  exact absurd (ha r) (by simp [UdpAction.membership_received])

/-- So can the line of a `handleCommUp` for a remote that has an entry. -/
theorem Agree.skip_commUp (h : Agree log log') (t : Time) (hr : ∃ u, enteredAt r log = some u) :
    Agree ((t, .commUp r) :: log) log' := by
  obtain ⟨u, hu⟩ := hr
  refine ⟨fun r' => ?_, fun r' => ?_⟩
  · rw [← h.entered r']
    by_cases heq : r' = r
    · rw [heq, enteredAt_up (UdpAction.membership_commUp r), hu, Option.getD_some]
    · refine enteredAt_other (UdpAction.membership_eq_none fun hremote => ?_)
      exact heq (Option.some.inj hremote).symm
  · exact (heardAt_other fun msg => UdpAction.noConfusion).trans (h.heard r')

/-! ## What each call logs agrees with what happens -/

/-- A send writes nothing that the history is about. -/
theorem agree_send (h : Agree s.log log) (net : ℕ → Bool) (msg : ChatMessage) (r : IPSocket) :
    Agree (send net msg r s).state.log log := by
  rw [log_send]
  exact h.skip s.now fun _ => rfl

/-- An entry writes its own line and nothing else of the history. -/
theorem agree_handleCommUp (h : Agree s.log log) (r : IPSocket) :
    Agree (handleCommUp r s).log ((s.now, .commUp r) :: log) := by
  obtain ⟨p, q, hc⟩ := handleCommUp_spec r s
  rw [hc.log]
  exact h.cons _

/-- The connects write what their event says, in its order. -/
theorem agree_connect (h : Agree s.log log) (remotes : List IPSocket) :
    Agree (connect remotes s).log ((s.changes (.connect remotes)) ++ log) := by
  induction remotes generalizing s log with
  | nil => exact h
  | cons r rs ih =>
      obtain ⟨p, q, hc⟩ := handleCommUp_spec r s
      have hrest := ih (agree_handleCommUp h r)
      rw [changes, hc.now] at hrest
      rw [changes, List.reverse_cons, List.map_append, List.append_assoc]
      exact hrest

/-- A datagram that is no quit message has entered its sender, whether or not `handleMessage` logs a
`handleCommUp` behind it. -/
theorem agree_handleMessage (h : Agree s.log log) (r : IPSocket) (call : RecvCall) :
    Agree (handleMessage (fun _ => true) r call s).state.log
      (s.changes (.receive r call) ++ log) := by
  cases call with
  | failed err => exact h
  | wrote data =>
      let s₁ := s.record (.received (cStr data) r)
      have h₁ : Agree s₁.log (s.changes (.receive r (.wrote data)) ++ log) := h.cons _
      generalize s.changes (.receive r (.wrote data)) ++ log = log₁ at h₁ ⊢
      have heq : handleMessage (fun _ => true) r (.wrote data) s =
          handleChatMessage (fun _ => true) (cStr data) r s₁ := rfl
      rw [heq, handleChatMessage]
      by_cases hq : cStr data = quitMsg
      · rw [if_pos hq]
        exact (remove_spec r s₁).log ▸ h₁
      · rw [if_neg hq]
        have hin : enteredAt r s₁.log = some ((enteredAt r s.log).getD s.now) :=
          enteredAt_up (by rw [UdpAction.membership_received, bne_iff_ne.mpr hq])
        -- the acknowledgement in between leaves the entry as it is
        have hrest : ∀ s₂ : SocketUdp T, Agree s₂.log log₁ →
            Agree (if r ∈ s₂.peers then Outcome.returned (resetTasks r s₂)
              else .returned (handleCommUp r s₂)).state.log log₁ := by
          intro s₂ h₂
          by_cases hr : r ∈ s₂.peers
          · rw [if_pos hr]
            exact (log_resetTasks r s₂).symm ▸ h₂
          · rw [if_neg hr]
            obtain ⟨p, q, hc⟩ := handleCommUp_spec r s₂
            have hin₂ : enteredAt r s₂.log = some ((enteredAt r s.log).getD s.now) :=
              (h₂.entered r).trans ((h₁.entered r).symm.trans hin)
            exact hc.log ▸ h₂.skip_commUp s₂.now ⟨_, hin₂⟩
        by_cases hka : cStr data = keepAliveMsg
        · rw [if_pos hka]
          exact hrest _ (agree_send h₁ (fun _ => true) keepAliveAckMsg r)
        · rw [if_neg hka]
          exact hrest s₁ h₁

/-- One task of a launch, which runs or is not due. -/
theorem agree_launchTask (h : Agree s.log log) (p : T.Ptr) :
    Agree (launchTask (fun _ => true) p s).state.log
      ((((s.fired p).bind UdpTask.change).map fun a => (s.now, a)).toList ++ log) := by
  have hl := launchTask_spec (fun _ => true) p s
  have hret := launchTask_returns p s
  generalize launchTask (fun _ => true) p s = o at hl hret ⊢
  cases hl with
  -- a task that is not due writes nothing, on either side
  | idle hidle =>
      have hnone : s.fired p = none := by
        rw [fired, Option.map_eq_none_iff, Option.filter_eq_none_iff]
        exact fun t ht => by simpa using hidle t ht
      rw [hnone]
      exact h
  -- no send throws here
  | threw t s₁ _ _ _ => exact absurd hret id
  | ran t s₁ ht hdue hrun =>
      have hfired : s.fired p = some t.function := by
        rw [fired, ht, Option.filter_some, if_pos (decide_eq_true hdue), Option.map_some]
      rw [hfired, Option.bind_some, Outcome.state_returned, (complete_spec p s₁).log]
      cases hf : t.function with
      -- a ping sends, a loss and a reconnect write their own line
      | ping r =>
          rw [hf] at hrun
          have hsent := agree_send h (fun _ => true) keepAliveMsg r
          have hstate : (send (fun _ => true) keepAliveMsg r s).state = s₁ := congrArg _ hrun
          rwa [hstate] at hsent
      | commLost r =>
          rw [hf] at hrun
          obtain ⟨c, hc⟩ := scheduleReestablishment_spec r (s.record (.commLost r))
          have hlog : (handleCommLost r s).log = (s.now, .commLost r) :: s.log :=
            (remove_spec r _).log.trans hc.log
          rw [← Outcome.returned.inj hrun, hlog]
          exact h.cons _
      | reconnect r =>
          rw [hf] at hrun
          rw [← Outcome.returned.inj hrun]
          exact agree_connect h [r]

/-- A launch writes the entries of its due reconnects and its due losses. -/
theorem agree_launch (h : Agree s.log log) (order : List T.Ptr) :
    Agree (Outcome.forEach (launchTask fun _ => true) order s).state.log
      (firings order s ++ log) := by
  induction order generalizing s log with
  | nil => exact h
  | cons p order ih =>
      have hp := agree_launchTask h p
      have hret := launchTask_returns p s
      -- task by task, in the order of the launch
      rw [Outcome.forEach_cons, firings, List.append_assoc]
      cases hs : launchTask (fun _ => true) p s with
      | returned s₁ =>
          rw [hs] at hp
          exact ih hp
      | threw s₁ =>
          rw [hs] at hret
          exact absurd hret id

/-! ## Runs -/

/-- One step: the log and the history grow by lines that say the same. -/
theorem agree_step (h : Agree s.log log) (e : UdpEvent T) :
    Agree (step (fun _ => true) s e).state.log (s.changes e ++ log) := by
  cases e with
  | advance d => exact h
  | connect remotes => exact agree_connect h remotes
  | receive r call => exact agree_handleMessage h r call
  | launch order => exact agree_launch (s := s.record .launched) (h.skip s.now fun _ => rfl) order
  | send order msg =>
      exact Outcome.forEach_state (P := fun s : SocketUdp T => Agree s.log log) h
        fun r _ s₁ h₁ => agree_send h₁ _ msg r

/-- **The log tells what happened.** -/
theorem agree_of_run {ok : SocketUdp T → UdpEvent T → Prop} {es : List (UdpEvent T)}
    (hrun : Run (step fun _ => true) ok s es s') (h : Agree s.log log) :
    Agree s'.log (history es s ++ log) := by
  induction hrun generalizing log with
  | nil s => exact h
  | @cons s s₁ s' e es _ hstep _ ih =>
      have he := agree_step h e
      rw [hstep] at he
      rw [history, List.append_assoc, hstep]
      exact ih he
  | @threw s s' e _ hstep =>
      have he := agree_step h e
      rwa [hstep] at he

/-- **Every peer is monitored, and membership follows events**, in every run in which `sendto`
succeeds: the table has an entry for a remote exactly if the last that happened to it is a datagram
other than a quit message, a connect or a reconnect that fired, and no quit message and no loss; and
the comm-lost task of an entry is due its delay after the entry was made or the remote was last
heard of. The log agrees. The launches of the run look at any tasks in any order, so the states
between two tasks of a launch are states of such runs as well. -/
theorem tracked_of_run {es : List (UdpEvent T)}
    (hrun : Run (step fun _ => true) (fun _ _ => True) ({} : SocketUdp T) es s) :
    (∀ r, r ∈ s.peers ↔ lastEvent r (history es ({} : SocketUdp T)) = some true) ∧
    (∀ r peer, s.peers.lookup r = some peer → ∃ q t entered, peer.commLostTask = some q ∧
      s.alive q = true ∧ s.enabled q = some t ∧ t.function = .commLost r ∧
      enteredAt r (history es ({} : SocketUdp T)) = some entered ∧
      t.due = max entered (heardAt r (history es ({} : SocketUdp T))) +
        keepAlivePeriod * (keepAliveProbes + 1)) ∧
    Agree s.log (history es ({} : SocketUdp T)) := by
  -- the table goes by the log, and the log by the events
  have h := accounted_of_run hrun
  have hagree : Agree s.log (history es ({} : SocketUdp T)) := by
    simpa using agree_of_run hrun (Agree.refl [])
  refine ⟨fun r => ?_, fun r peer hpeer => ?_, hagree⟩
  · rw [lastEvent_eq_true, ← hagree.entered r]
    exact (h.tracked r).mem_iff
  · have hr : r ∈ s.peers := AList.lookup_isSome.mp (by rw [hpeer]; rfl)
    -- the due time is stated of the log first
    obtain ⟨entered, he⟩ := (h.tracked r).mem_iff.mp hr
    obtain ⟨q, hq, hqt⟩ := (h.tracked r).present entered he
    rw [hagree.entered r] at he
    rw [hagree.heard r] at hqt
    refine ⟨q, _, entered, ?_, T.alive_of_enabled _ _ _ hqt, hqt, rfl, he, rfl⟩
    exact (handle_of_lookup (f := .commLost r) hpeer).symm.trans hq

/-- A remote that is connected, writes at 2 s and is silent from then on is lost at 6 s. -/
def sampleLoss : List (UdpEvent (.table UdpTask)) :=
  [.connect [sampleRemote], .advance (seconds 2), .receive sampleRemote (.wrote (ascii "hi")),
    .advance (seconds 4), .launch (List.range 2)]

/-- Its loss takes it out of the table, and the reconnect that fires at 11 s brings it back with a
comm-lost task for 15 s. -/
theorem tracked_lost_and_found : ∃ s₁ s₂ : SocketUdp (.table UdpTask),
    Run (step fun _ => true) (fun _ _ => True) {} sampleLoss s₁ ∧ sampleRemote ∉ s₁.peers ∧
    Run (step fun _ => true) (fun _ _ => True) {}
      (sampleLoss ++ [.advance (seconds 5), .launch (List.range 3)]) s₂ ∧
    ∃ peer q t, s₂.peers.lookup sampleRemote = some peer ∧ peer.commLostTask = some q ∧
      s₂.enabled q = some t ∧ t.function = .commLost sampleRemote ∧ t.due = seconds 15 := by
  -- the remote is lost after a silence and entered again by its reconnect
  have hlost : ∃ s₁ : SocketUdp (.table UdpTask),
      Run (step fun _ => true) (fun _ _ => True) {} sampleLoss s₁ :=
    ⟨_, .cons trivial rfl (.cons trivial rfl (.cons trivial rfl (.cons trivial rfl
      (.cons trivial rfl (.nil _)))))⟩
  have hfound : ∃ s₂ : SocketUdp (.table UdpTask),
      Run (step fun _ => true) (fun _ _ => True) {}
        (sampleLoss ++ [.advance (seconds 5), .launch (List.range 3)]) s₂ :=
    ⟨_, .cons trivial rfl (.cons trivial rfl (.cons trivial rfl (.cons trivial rfl
      (.cons trivial rfl (.cons trivial rfl (.cons trivial rfl (.nil _)))))))⟩
  obtain ⟨s₁, hrun₁⟩ := hlost
  obtain ⟨s₂, hrun₂⟩ := hfound
  have hout : sampleRemote ∉ s₁.peers := fun hmem =>
    absurd (((tracked_of_run hrun₁).1 sampleRemote).mp hmem) (by decide +kernel)
  have hin : sampleRemote ∈ s₂.peers :=
    ((tracked_of_run hrun₂).1 sampleRemote).mpr (by decide +kernel)
  obtain ⟨peer, hpeer⟩ := Option.isSome_iff_exists.mp (AList.lookup_isSome.mpr hin)
  obtain ⟨q, t, entered, hq, -, ht, hf, he, hdue⟩ :=
    (tracked_of_run hrun₂).2.1 sampleRemote peer hpeer
  obtain rfl : seconds 11 = entered := Option.some.inj (he.symm.trans (by decide +kernel)).symm
  exact ⟨s₁, s₂, hrun₁, hout, hrun₂, peer, q, t, hpeer, hq, ht, hf, hdue.trans (by decide +kernel)⟩

end SocketUdp

end SctpSandbox

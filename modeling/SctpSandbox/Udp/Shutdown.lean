import SctpSandbox.Udp.Frame

/-! # After a graceful shutdown

A quit message removes the sender and stops the two tasks its entry holds. The reconnect task of an
earlier loss is held by nobody: it puts the sender back (`not_finalSince`). Where every task that
names the sender is one its entry holds (`HoldsAll`), the quit is final (`finalSince_of_quit`).

Which keys denote one remote endpoint is again a parameter, `endpointOf`. -/

namespace SctpSandbox

namespace SocketUdp

variable {T : TaskScheduler UdpTask} {net : ℕ → Bool} {s s' s₀ s₁ : SocketUdp T}
  {r r' : IPSocket} {p : T.Ptr} {E : Type*} {endpointOf : IPSocket → E} {e : E}

/-- Since `s₁`, no datagram was sent to the endpoint of `r`, and no entry denotes it in `s`. -/
def FinalSince (endpointOf : IPSocket → E) (r : IPSocket) (s₁ s : SocketUdp T) : Prop :=
  (∀ r' ∈ s.peers, endpointOf r' ≠ endpointOf r) ∧
    ∃ l, s.log = l ++ s₁.log ∧
      ∀ t msg r', (t, .sent msg r') ∈ l → endpointOf r' ≠ endpointOf r

/-- The events that do not bring the endpoint of `r` back: no user-level `connect` names it, and
only quit messages arrive from it. -/
def Quiet (endpointOf : IPSocket → E) (r : IPSocket) : SocketUdp T → UdpEvent T → Prop
  | _, .connect remotes => ∀ r' ∈ remotes, endpointOf r' ≠ endpointOf r
  | _, .receive r' call => endpointOf r' = endpointOf r →
      ∀ data, call = .wrote data → cStr data = quitMsg
  | _, _ => True

/-- The entry of `r` is the only one of its endpoint, and it holds every enabled task that names
this endpoint: no reconnect is pending, and no ping or comm-lost task of an earlier entry is
left. -/
structure HoldsAll (endpointOf : IPSocket → E) (r : IPSocket) (s : SocketUdp T) : Prop where
  entry : ∀ r' ∈ s.peers, endpointOf r' = endpointOf r → r' = r
  task : ∀ p t, s.enabled p = some t → endpointOf t.function.remote = endpointOf r →
    ∃ f, f.remote = r ∧ s.handle f = some p

/-- The invariant after the quit: neither the table nor the scheduler names the endpoint `e`. -/
structure Gone (endpointOf : IPSocket → E) (e : E) (s₁ s : SocketUdp T) : Prop where
  wf : s.WF
  peers : ∀ r ∈ s.peers, endpointOf r ≠ e
  tasks : ∀ p t, s.enabled p = some t → endpointOf t.function.remote ≠ e
  log : ∃ l, s.log = l ++ s₁.log ∧ ∀ t msg r, (t, .sent msg r) ∈ l → endpointOf r ≠ e

/-- What happens to other remotes does not bring the endpoint back. -/
theorem Gone.of_local (h : Gone endpointOf e s₁ s) (hr : endpointOf r ≠ e) (hl : Local r s s') :
    Gone endpointOf e s₁ s' where
  wf := hl.wf
  peers := by
    intro r' hr' he
    -- what is done to another endpoint brings none of this one's entries back
    have hne : r' ≠ r := by
      rintro rfl
      exact hr he
    exact h.peers r' ((hl.frame.mem hne).mp hr') he
  tasks := by
    intro p t ht he
    have hne : t.function.remote ≠ r := fun heq => hr (heq ▸ he)
    exact h.tasks p t ((hl.frame.enabled p t hne).mp ht) he
  log := by
    obtain ⟨l, hlog, hsent⟩ := h.log
    obtain ⟨l', hlog', habout⟩ := hl.frame.log
    refine ⟨l' ++ l, by rw [hlog', hlog, List.append_assoc], fun t msg r' hmem => ?_⟩
    rcases List.mem_append.mp hmem with hmem | hmem
    · -- the new lines are about `r`
      obtain rfl : r' = r := Option.some.inj (habout _ hmem).2
      exact hr
    · exact hsent t msg r' hmem

/-- A line in the log that tells of no sent datagram changes nothing. -/
theorem Gone.record (h : Gone endpointOf e s₁ s) {a : UdpAction} (ha : ∀ msg r, a ≠ .sent msg r) :
    Gone endpointOf e s₁ (s.record a) where
  wf := h.wf.congr rfl rfl
  peers := h.peers
  tasks := h.tasks
  log := by
    obtain ⟨l, hlog, hsent⟩ := h.log
    refine ⟨(s.now, a) :: l, congrArg _ hlog, fun t msg r hmem => ?_⟩
    rcases List.mem_cons.mp hmem with heq | hmem
    · exact absurd (Prod.mk.inj heq).2.symm (ha msg r)
    · exact hsent t msg r hmem

/-- Another removal leaves the endpoint gone. -/
theorem Gone.removed (h : Gone endpointOf e s₁ s) (h₁ : Removed r s s') :
    Gone endpointOf e s₁ s' where
  wf := h₁.wf h.wf
  peers := fun r' hr' => h.peers r' (h₁.mem_of_mem hr').2
  tasks := fun p t ht => h.tasks p t (h₁.enabled_of_enabled ht).1
  log := h₁.log ▸ h.log

/-- **The quit itself**: the endpoint is gone when the entry of the sender held all its tasks. -/
theorem HoldsAll.gone (h : s.WF) (hall : HoldsAll endpointOf r s) {data : List Byte}
    (hquit : cStr data = quitMsg) (hstep : step net s (.receive r (.wrote data)) = .returned s₁) :
    Gone endpointOf (endpointOf r) s₁ s₁ := by
  let s₀ := s.record (.received quitMsg r)
  have heq : remove r s₀ = s₁ := by
    have hstep' : handleMessage net r (.wrote data) s = .returned s₁ := hstep
    rw [handleMessage, hquit, handleChatMessage, if_pos rfl] at hstep'
    exact Outcome.returned.inj hstep'
  have hrm : Removed r s₀ s₁ := heq ▸ remove_spec r s₀
  have h₀ : s₀.WF := h.congr rfl rfl
  refine ⟨hrm.wf h₀, fun r' hr' he => ?_, fun p t ht he => ?_, [], rfl,
    fun _ _ _ hmem => nomatch hmem⟩
  · obtain ⟨hne, hmem⟩ := hrm.mem_of_mem hr'
    exact hne (hall.entry r' hmem he)
  · -- a task of the endpoint was held by the entry, and so it was stopped
    obtain ⟨ht₀, hno⟩ := hrm.enabled_of_enabled ht
    obtain ⟨f, hf, hp⟩ := hall.task p t ht₀ he
    exact hno f hf hp

/-- The events that do not name the endpoint keep it gone, whatever tasks they run. -/
theorem Gone.step (h : Gone endpointOf (endpointOf r) s₁ s) {ev : UdpEvent T}
    (hq : Quiet endpointOf r s ev) :
    Gone endpointOf (endpointOf r) s₁ (step net s ev).state := by
  cases ev with
  | advance d => exact ⟨h.wf.congr rfl rfl, h.peers, h.tasks, h.log⟩
  | connect remotes =>
      change Gone endpointOf (endpointOf r) s₁ (connect remotes s)
      induction remotes generalizing s with
      | nil => exact h
      | cons r' rs ih =>
          have h' := h.of_local (hq r' List.mem_cons_self) (local_handleCommUp h.wf r')
          exact ih h' fun r'' hr'' => hq r'' (List.mem_cons_of_mem _ hr'')
  | receive r' call =>
      by_cases hr' : endpointOf r' = endpointOf r
      · cases call with
        | failed err => exact h
        | wrote data =>
            -- another quit from the endpoint: removing an entry that is not there
            have hquit := hq hr' data rfl
            have hstep : SocketUdp.step net s (.receive r' (.wrote data)) =
                .returned (remove r' (s.record (.received quitMsg r'))) := by
              show handleMessage net r' (.wrote data) s = _
              rw [handleMessage, hquit, handleChatMessage, if_pos rfl]
              rfl
            rw [hstep]
            exact (h.record fun _ _ => UdpAction.noConfusion).removed (remove_spec r' _)
      · exact h.of_local hr' (local_handleMessage h.wf r' call)
  | launch order =>
      refine Outcome.forEach_state (h.record fun _ _ => UdpAction.noConfusion) fun p _ s₂ h₂ => ?_
      -- no task names the endpoint, so what runs is about somebody else
      rcases local_launchTask net h₂.wf p with ⟨heq, -⟩ | ⟨t, ht, -, hl⟩
      · rw [heq]
        exact h₂
      · exact h₂.of_local (h₂.tasks p t ht) hl
  | send order msg =>
      refine Outcome.forEach_state h fun r' hr' s₂ h₂ => ?_
      have hpeer : r' ∈ s.peers := of_decide_eq_true (List.mem_filter.mp hr').2
      exact h₂.of_local (h.peers r' hpeer) (local_send h₂.wf msg r')

/-- **A quit is final** in every run when the entry of the sender holds every task that names the
sender's endpoint. -/
theorem finalSince_of_quit (endpointOf : IPSocket → E) {es₀ es : List (UdpEvent T)}
    {ok : SocketUdp T → UdpEvent T → Prop} {data : List Byte} (hrun₀ : Runs net ok {} es₀ s₀)
    (hquit : cStr data = quitMsg) (hall : HoldsAll endpointOf r s₀)
    (hstep : step net s₀ (.receive r (.wrote data)) = .returned s₁)
    (hrun : Runs net (Quiet endpointOf r) s₁ es s) : FinalSince endpointOf r s₁ s := by
  have h₁ : Gone endpointOf (endpointOf r) s₁ s₁ := hall.gone (WF.init.of_run hrun₀) hquit hstep
  have hs : Gone endpointOf (endpointOf r) s₁ s :=
    hrun.invariant_state h₁ fun s₂ ev h₂ hok => h₂.step hok.2
  exact ⟨hs.peers, hs.log⟩

/-- A peer that quits 2 s after its first datagram is gone 5 s later, whatever the launches run. -/
theorem finalSince_first_quit : ∃ s₁ s : SocketUdp (.table UdpTask),
    s.now = seconds 7 ∧ FinalSince id sampleRemote s₁ s := by
  have hrun : ∃ s₀ s₁ s : SocketUdp (.table UdpTask), HoldsAll id sampleRemote s₀ ∧
      s.now = seconds 7 ∧ Runs (fun _ => true) (fun _ _ => True) {}
        [.receive sampleRemote (.wrote (ascii "hi")), .advance (seconds 2)] s₀ ∧
      step (fun _ => true) s₀ (.receive sampleRemote (.wrote quitMsg)) = .returned s₁ ∧
      Runs (fun _ => true) (Quiet id sampleRemote) s₁
        [.advance (seconds 5), .launch (List.range 2)] s := by
    refine ⟨_, _, _, ⟨fun _ _ h => h, fun p t ht _ => ?_⟩, ?_,
      .cons ⟨trivial, trivial⟩ rfl (.cons ⟨trivial, trivial⟩ rfl (.nil _)), rfl,
      .cons ⟨trivial, trivial⟩ rfl (.cons ⟨possible_launch_range _, trivial⟩ rfl (.nil _))⟩
    · -- two tasks were scheduled, and the entry holds both
      have hp : ∀ n : ℕ, n < 2 → n = 0 ∨ n = 1 := by omega
      rcases hp p ((TaskScheduler.table UdpTask).issued_of_enabled _ p t ht) with rfl | rfl
      · exact ⟨.ping sampleRemote, rfl, by rfl⟩
      · exact ⟨.commLost sampleRemote, rfl, by rfl⟩
    · rfl
  obtain ⟨s₀, s₁, s, hall, hnow, hrun₀, hstep, hrun₁⟩ := hrun
  exact ⟨s₁, s, hnow, finalSince_of_quit id hrun₀ (by decide) hall hstep hrun₁⟩

/-- **A quit need not be final**: the sender was lost at 4 s and came back at 5 s, so a reconnect is
pending when it quits, and enters it again at 9 s. -/
theorem not_finalSince : ¬ ∀ (es₀ es : List (UdpEvent (.table UdpTask)))
    (s₀ s₁ s : SocketUdp (.table UdpTask)) (data : List Byte),
    Runs (fun _ => true) (fun _ _ => True) {} es₀ s₀ → cStr data = quitMsg →
    step (fun _ => true) s₀ (.receive sampleRemote (.wrote data)) = .returned s₁ →
    Runs (fun _ => true) (Quiet id sampleRemote) s₁ es s → FinalSince id sampleRemote s₁ s := by
  intro h
  -- both datagrams make an entry, and the reconnect of the first one's loss is not theirs
  have hrun : ∃ s₀ s₁ s : SocketUdp (.table UdpTask), sampleRemote ∈ s.peers ∧
      Runs (fun _ => true) (fun _ _ => True) {} [.receive sampleRemote (.wrote (ascii "hi")),
        .advance (seconds 4), .launch (List.range 2),
        .advance (seconds 1), .receive sampleRemote (.wrote (ascii "hi"))] s₀ ∧
      step (fun _ => true) s₀ (.receive sampleRemote (.wrote quitMsg)) = .returned s₁ ∧
      Runs (fun _ => true) (Quiet id sampleRemote) s₁
        [.advance (seconds 4), .launch (List.range 5)] s := by
    refine ⟨_, _, _, ?_, .cons ⟨trivial, trivial⟩ rfl (.cons ⟨trivial, trivial⟩ rfl
      (.cons ⟨possible_launch_range _, trivial⟩ rfl (.cons ⟨trivial, trivial⟩ rfl
      (.cons ⟨trivial, trivial⟩ rfl (.nil _))))), rfl, .cons ⟨trivial, trivial⟩ rfl
      (.cons ⟨possible_launch_range _, trivial⟩ rfl (.nil _))⟩
    decide
  obtain ⟨s₀, s₁, s, hmem, hrun₀, hstep, hrun₁⟩ := hrun
  have hfinal := h _ _ s₀ s₁ s quitMsg hrun₀ (by decide) hstep hrun₁
  exact hfinal.1 sampleRemote hmem rfl

end SocketUdp

end SctpSandbox

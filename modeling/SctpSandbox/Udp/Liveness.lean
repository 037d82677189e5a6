import SctpSandbox.Udp.Frame

/-! # Who is declared lost

`handleCommLost` is run by the comm-lost task of a peer, which every datagram from the peer
restarts: as long as the task that runs is the one the peer table can restart, nobody is declared
lost within `commLostDelay` of a datagram. That holds in every run in which nobody enters the table
twice (`EntersOnce`, `livenessSafe_of_run`). `connect` does not look: naming a peer that is in the
table leaves a second comm-lost task which nothing restarts (`not_livenessSafe`).

Which keys denote one remote endpoint is a parameter, `endpointOf`. -/

namespace SctpSandbox

namespace SocketUdp

variable {T : TaskScheduler UdpTask} {net : ℕ → Bool} {s s' : SocketUdp T}
  {r r' : IPSocket} {f : UdpTask} {p q x : T.Ptr} {t : ScheduledTask UdpTask}
  {E : Type*} {endpointOf : IPSocket → E} {X : Option E}
  {log : List (Time × UdpAction)} {now : Time} {a : UdpAction}

/-- In a log, no remote is declared lost less than `commLostDelay` after a datagram from its
endpoint. -/
def LivenessSafe (endpointOf : IPSocket → E) (log : List (Time × UdpAction)) : Prop :=
  ∀ l₁ l₂ t r, log = l₁ ++ (t, .commLost r) :: l₂ →
    ∀ t₀ msg r', (t₀, .received msg r') ∈ l₂ → endpointOf r' = endpointOf r →
      t₀ + commLostDelay ≤ t

/-- An empty log is safe. -/
theorem livenessSafe_nil : LivenessSafe endpointOf [] := by
  intro l₁ l₂ t r h
  simp at h

/-- A log stays safe unless a loss is logged within the delay of a datagram. -/
theorem livenessSafe_cons (h : LivenessSafe endpointOf log)
    (ha : ∀ r, a = .commLost r → ∀ t₀ msg r', (t₀, .received msg r') ∈ log →
      endpointOf r' = endpointOf r → t₀ + commLostDelay ≤ now) :
    LivenessSafe endpointOf ((now, a) :: log) := by
  intro l₁ l₂ t r hl
  cases l₁ with
  | nil =>
      obtain ⟨hhead, rfl⟩ := List.cons.inj hl
      obtain ⟨rfl, rfl⟩ := Prod.mk.inj hhead
      exact ha r rfl
  | cons e l₁ =>
      obtain ⟨-, hl⟩ := List.cons.inj hl
      exact h l₁ l₂ t r hl

/-! ## The condition -/

/-- No entry of the peer table denotes the endpoint of `r`. -/
def NoEntry (endpointOf : IPSocket → E) (r : IPSocket) (s : SocketUdp T) : Prop :=
  ∀ r' ∈ s.peers, endpointOf r' ≠ endpointOf r

/-- Nobody enters the peer table twice: whoever is connected, by the user or by a reconnect task,
has no entry at that moment, and a datagram does not come from an endpoint whose entry is spelled
otherwise. -/
def EntersOnce (net : ℕ → Bool) (endpointOf : IPSocket → E) (s : SocketUdp T) : UdpEvent T → Prop
  | .connect remotes => Outcome.EachMeets (NoEntry endpointOf)
      (fun r s => .returned (handleCommUp r s)) remotes s
  | .receive r _ => ∀ r' ∈ s.peers, endpointOf r' = endpointOf r → r' = r
  | .launch order => Outcome.EachMeets
      (fun p s => ∀ t r, s.enabled p = some t → t.due ≤ s.now → t.function = .reconnect r →
        NoEntry endpointOf r s)
      (launchTask net) order (s.record .launched)
  | _ => True

/-! ## The invariant -/

/-- Every comm-lost task is the one the peer table holds, and it is not due before `commLostDelay`
has passed since every datagram from its endpoint. The endpoint `X`, if there is one, is exempt from
the latter: a datagram from it is being handled. -/
structure Monitored (endpointOf : IPSocket → E) (X : Option E) (s : SocketUdp T) : Prop where
  handle : ∀ p t r, s.enabled p = some t → t.function = .commLost r →
    s.handle (.commLost r) = some p
  due : ∀ p t r, s.enabled p = some t → t.function = .commLost r → X ≠ some (endpointOf r) →
    ∀ t₀ msg r', (t₀, .received msg r') ∈ s.log → endpointOf r' = endpointOf r →
      t₀ + commLostDelay ≤ t.due
  unique : ∀ r r', r ∈ s.peers → r' ∈ s.peers → endpointOf r = endpointOf r' → r = r'
  past : ∀ e ∈ s.log, e.1 ≤ s.now

/-- Nobody is monitored yet. -/
theorem Monitored.init : Monitored endpointOf X ({} : SocketUdp T) where
  handle := fun p t r h => by simp [T.enabled_init] at h
  due := fun p t r h => by simp [T.enabled_init] at h
  unique := fun r r' h => absurd h (AList.notMem_empty _)
  past := fun e he => nomatch he

/-- The invariant is kept by an operation that keeps comm-lost tasks under their handles, makes
none of them due earlier, schedules new ones with the full delay, and logs no datagram. -/
theorem Monitored.of_change (h : Monitored endpointOf X s)
    (htask : ∀ x t r, s'.enabled x = some t → t.function = .commLost r →
      s'.handle (.commLost r) = some x ∧ (s.now + commLostDelay ≤ t.due ∨
        ∃ u, s.enabled x = some u ∧ u.function = .commLost r ∧ u.due ≤ t.due))
    (hunique : ∀ r r', r ∈ s'.peers → r' ∈ s'.peers → endpointOf r = endpointOf r' → r = r')
    (hlog : ∀ e ∈ s'.log, e ∈ s.log ∨ e.1 = s.now ∧ ∀ msg r, e.2 ≠ .received msg r)
    (hnow : s'.now = s.now) : Monitored endpointOf X s' where
  handle := fun x t r ht hf => (htask x t r ht hf).1
  due := by
    intro x t r ht hf hX t₀ msg r' hmem hr'
    have hold : (t₀, .received msg r') ∈ s.log := by
      rcases hlog _ hmem with hold | ⟨-, hno⟩
      · exact hold
      · exact absurd rfl (hno msg r')
    -- a new task has the full delay before it, an old one was due late enough already
    rcases (htask x t r ht hf).2 with hdue | ⟨u, hu, huf, hdue⟩
    · exact Nat.le_trans (Nat.add_le_add_right (h.past _ hold) _) hdue
    · exact Nat.le_trans (h.due x u r hu huf hX t₀ msg r' hold hr') hdue
  unique := hunique
  past := by
    intro e he
    rw [hnow]
    rcases hlog e he with hold | ⟨heq, -⟩
    · exact h.past e hold
    · exact Nat.le_of_eq heq

/-- An operation that changes neither table nor tasks and logs no datagram keeps the invariant. -/
theorem Monitored.of_log (h : Monitored endpointOf X s) (hp : s'.peers = s.peers)
    (hs : s'.scheduler = s.scheduler) (hnow : s'.now = s.now) (hl : s'.log = (s.now, a) :: s.log)
    (ha : ∀ msg r, a ≠ .received msg r) : Monitored endpointOf X s' := by
  refine h.of_change (fun x t r ht hf => ?_) (hp ▸ h.unique) (fun e he => ?_) hnow
  · have ht' : s.enabled x = some t := by rwa [enabled, hs] at ht
    refine ⟨?_, .inr ⟨t, ht', hf, Nat.le_refl _⟩⟩
    rw [handle_congr (s := s) (by rw [hp]), h.handle x t r ht' hf]
  · rw [hl] at he
    rcases List.mem_cons.mp he with rfl | he
    · exact .inr ⟨rfl, ha⟩
    · exact .inl he

/-- Once every comm-lost task about the exempt endpoint has the full delay, the exemption ends. -/
theorem Monitored.covered {e : E} (h : Monitored endpointOf (some e) s)
    (hdue : ∀ p t r, s.enabled p = some t → t.function = .commLost r → endpointOf r = e →
      s.now + commLostDelay ≤ t.due) : Monitored endpointOf none s where
  handle := h.handle
  due := by
    intro p t r ht hf _ t₀ msg r' hmem hr'
    by_cases he : endpointOf r = e
    · exact Nat.le_trans (Nat.add_le_add_right (h.past _ hmem) _) (hdue p t r ht hf he)
    · exact h.due p t r ht hf (fun hX => he (Option.some.inj hX).symm) t₀ msg r' hmem hr'
  unique := h.unique
  past := h.past

/-- A datagram is logged: its endpoint is exempt from now on. -/
theorem Monitored.received (h : Monitored endpointOf none s) (msg : ChatMessage) (r : IPSocket) :
    Monitored endpointOf (some (endpointOf r)) (s.record (.received msg r)) where
  handle := h.handle
  due := by
    intro p t r₁ ht hf hX t₀ msg' r' hmem hr'
    -- the datagram just logged is the one exempted
    rcases List.mem_cons.mp hmem with heq | hmem
    · obtain ⟨-, heq⟩ := Prod.mk.inj heq
      obtain ⟨-, rfl⟩ := UdpAction.received.inj heq
      exact absurd (congrArg some hr') hX
    · exact h.due p t r₁ ht hf (by simp) t₀ msg' r' hmem hr'
  unique := h.unique
  past := by
    intro e he
    rcases List.mem_cons.mp he with rfl | he
    · exact Nat.le_refl _
    · exact h.past e he

/-! ## The operations keep it -/

/-- The tasks stay monitored over the entry of an endpoint without one. -/
theorem Monitored.commUp (h : Monitored endpointOf X s) (hr : NoEntry endpointOf r s)
    (h₁ : CommUp r s s' p q) : Monitored endpointOf X s' := by
  have hnot : r ∉ s.peers := fun hmem => hr r hmem rfl
  have hmem : ∀ r', r' ∈ s'.peers → r' = r ∨ r' ∈ s.peers := by
    intro r' hr'
    by_cases heq : r' = r
    · exact .inl heq
    · exact .inr ((h₁.frame.mem heq).mp hr')
  refine h.of_change (fun x t r' ht hf => ?_) (fun r₁ r₂ h₁' h₂' heq => ?_) (fun e he => ?_) h₁.now
  · -- the new comm-lost task is held by the entry made for it, since `r` had none
    by_cases hxp : x = p
    · subst hxp
      rw [← Option.some.inj (h₁.ping.symm.trans ht)] at hf
      cases hf
    · by_cases hxq : x = q
      · subst hxq
        rw [← Option.some.inj (h₁.commLost.symm.trans ht)] at hf ⊢
        cases hf
        exact ⟨h₁.handle_commLost hnot, .inl (Nat.le_refl _)⟩
      · have ht' := (h₁.old x hxp hxq).1.symm.trans ht
        have hh := h.handle x t r' ht' hf
        have hne : r' ≠ r := by
          rintro rfl
          exact hnot (mem_of_handle hh)
        exact ⟨(h₁.frame.handle (f := .commLost r') hne).trans hh, .inr ⟨t, ht', hf, Nat.le_refl _⟩⟩
  · -- no other entry shares the endpoint of the new one
    rcases hmem r₁ h₁' with rfl | h₁'
    · rcases hmem r₂ h₂' with rfl | h₂'
      · rfl
      · exact absurd heq.symm (hr r₂ h₂')
    · rcases hmem r₂ h₂' with rfl | h₂'
      · exact absurd heq (hr r₁ h₁')
      · exact h.unique r₁ r₂ h₁' h₂' heq
  · -- the one line logged is the entry, which is neither a loss nor a datagram
    rw [h₁.log] at he
    rcases List.mem_cons.mp he with rfl | he
    · exact .inr ⟨rfl, fun _ _ => UdpAction.noConfusion⟩
    · exact .inl he

/-- The comm-lost task of a peer just entered has the full delay, and its endpoint has no other. -/
theorem CommUp.covered (h : Monitored endpointOf X s) (hr : NoEntry endpointOf r s)
    (h₁ : CommUp r s s' p q) : ∀ x t r', s'.enabled x = some t → t.function = .commLost r' →
      endpointOf r' = endpointOf r → s'.now + commLostDelay ≤ t.due := by
  intro x t r' ht hf heq
  by_cases hxp : x = p
  · subst hxp
    rw [← Option.some.inj (h₁.ping.symm.trans ht)] at hf
    -- the new comm-lost task is due a whole delay from now
    cases hf
  · by_cases hxq : x = q
    · subst hxq
      rw [← Option.some.inj (h₁.commLost.symm.trans ht), h₁.now]
      exact Nat.le_refl _
    · have ht' := (h₁.old x hxp hxq).1.symm.trans ht
      exact absurd heq (hr r' (mem_of_handle (h.handle x t r' ht' hf)))

/-- After a restart a comm-lost task is the restarted one, due a whole delay from now, or another's.
-/
theorem Restarted.commLost_task (h : Monitored endpointOf X s) (h₁ : Restarted r s s' p)
    (ht : s'.enabled x = some t) (hf : t.function = .commLost r') :
    s'.handle (.commLost r') = some x ∧ (r' = r ∧ s.now + commLostDelay ≤ t.due ∨
      r' ≠ r ∧ s.enabled x = some t) := by
  -- the restarted ping is no comm-lost task
  have hxp : x ≠ p := by
    rintro rfl
    rw [← Option.some.inj (h₁.ping.symm.trans ht)] at hf
    cases hf
  by_cases hxq : s.handle (.commLost r) = some x
  · obtain ⟨u, -, rfl⟩ := Option.map_eq_some_iff.mp ((h₁.commLost x hxq).symm.trans ht)
    obtain rfl : r = r' := UdpTask.commLost.inj hf
    exact ⟨h₁.handle_commLost.trans hxq, .inl ⟨rfl, Nat.le_refl _⟩⟩
  · have ht' := (h₁.old x hxp hxq).1.symm.trans ht
    have hh := h.handle x t r' ht' hf
    have hne : r' ≠ r := by
      rintro rfl
      exact hxq hh
    exact ⟨(handle_congr (f := .commLost r') (h₁.lookup r' hne)).trans hh, .inr ⟨hne, ht'⟩⟩

/-- The tasks stay monitored over a restart. -/
theorem Monitored.restarted (h : Monitored endpointOf X s) (h₁ : Restarted r s s' p) :
    Monitored endpointOf X s' := by
  refine h.of_change (fun x t r' ht hf => ?_) (fun r₁ r₂ hr₁ hr₂ => ?_)
    (fun e he => .inl (h₁.log ▸ he)) h₁.now
  · obtain ⟨hh, hd⟩ := h₁.commLost_task h ht hf
    exact ⟨hh, hd.imp And.right fun hu => ⟨t, hu.2, hf, Nat.le_refl _⟩⟩
  · exact h.unique r₁ r₂ ((h₁.mem r₁).mp hr₁) ((h₁.mem r₂).mp hr₂)

/-- The tasks stay monitored over a removal. -/
theorem Monitored.removed (h : Monitored endpointOf X s) (h₁ : Removed r s s') :
    Monitored endpointOf X s' := by
  refine h.of_change (fun x t r' ht hf => ?_) (fun r₁ r₂ hr₁ hr₂ => ?_)
    (fun e he => .inl (h₁.log ▸ he)) h₁.now
  · obtain ⟨ht', hno⟩ := h₁.enabled_of_enabled ht
    have hh := h.handle x t r' ht' hf
    have hne : r' ≠ r := fun heq => hno (.commLost r') heq hh
    exact ⟨(handle_congr (f := .commLost r') (h₁.lookup r' hne)).trans hh,
      .inr ⟨t, ht', hf, Nat.le_refl _⟩⟩
  · exact h.unique r₁ r₂ (h₁.mem_of_mem hr₁).2 (h₁.mem_of_mem hr₂).2

/-- The tasks stay monitored over a reconnect scheduled. -/
theorem Monitored.reestablished (h : Monitored endpointOf X s) (h₁ : Reestablished r s s' p) :
    Monitored endpointOf X s' := by
  refine h.of_change (fun x t r' ht hf => ?_) (h₁.peers ▸ h.unique)
    (fun e he => .inl (h₁.log ▸ he)) h₁.now
  have hxp : x ≠ p := by
    rintro rfl
    rw [← Option.some.inj (h₁.reconnect.symm.trans ht)] at hf
    cases hf
  have ht' := (h₁.old x hxp).1.symm.trans ht
  have hh : s'.handle (.commLost r') = s.handle (.commLost r') := handle_congr (by rw [h₁.peers])
  exact ⟨hh.trans (h.handle x t r' ht' hf), .inr ⟨t, ht', hf, Nat.le_refl _⟩⟩

/-- The tasks stay monitored over the completion of one that was due. -/
theorem Monitored.completed (h : Monitored endpointOf X s) (h₁ : Completed p s s')
    (hp : ∀ t, s.enabled p = some t → t.due ≤ s.now) : Monitored endpointOf X s' := by
  refine h.of_change (fun x t r' ht hf => ?_) (h₁.peers ▸ h.unique)
    (fun e he => .inl (h₁.log ▸ he)) h₁.now
  have hh : s'.handle (.commLost r') = s.handle (.commLost r') := handle_congr (by rw [h₁.peers])
  by_cases hxp : x = p
  · subst hxp
    cases hu : s.enabled x with
    | none => exact absurd ((h₁.stopped hu).symm.trans ht) (Option.some_ne_none t).symm
    | some u =>
        -- a repeated task is due later than before
        rcases Nat.lt_or_ge 1 u.left with hl | hl
        · obtain ⟨due, hdue, -, ht'⟩ := h₁.again u hu hl (hp u hu)
          obtain rfl := Option.some.inj (ht'.symm.trans ht)
          have hfu : u.function = .commLost r' := hf
          exact ⟨hh.trans (h.handle x u r' hu hfu),
            .inr ⟨u, rfl, hfu, Nat.le_trans (Nat.le_add_right _ _) hdue⟩⟩
        · exact absurd ((h₁.last u hu hl).1.symm.trans ht) (Option.some_ne_none t).symm
  · have ht' := (h₁.old x hxp).1.symm.trans ht
    exact ⟨hh.trans (h.handle x t r' ht' hf), .inr ⟨t, ht', hf, Nat.le_refl _⟩⟩

/-- The tasks stay monitored over a send. -/
theorem monitored_send (h : Monitored endpointOf X s) (msg : ChatMessage) (r : IPSocket) :
    Monitored endpointOf X (send net msg r s).state :=
  h.of_log (peers_send msg r s) (scheduler_send msg r s) (now_send msg r s) (log_send msg r s)
    fun _ _ => UdpAction.noConfusion

/-- A comm-lost task that is due declares nobody lost who was heard of lately. -/
theorem Monitored.heard (h : Monitored endpointOf none s) (ht : s.enabled p = some t)
    (hf : t.function = .commLost r) (hdue : t.due ≤ s.now) {t₀ : Time} {msg : ChatMessage}
    (hmem : (t₀, .received msg r') ∈ s.log) (hr : endpointOf r' = endpointOf r) :
    t₀ + commLostDelay ≤ s.now :=
  Nat.le_trans (h.due p t r ht hf (by simp) t₀ msg r' hmem hr) hdue

/-- The tasks stay monitored over a loss. -/
theorem monitored_handleCommLost (h : Monitored endpointOf X s) (r : IPSocket) :
    Monitored endpointOf X (handleCommLost r s) := by
  have h₁ : Monitored endpointOf X (s.record (.commLost r)) :=
    h.of_log (a := .commLost r) rfl rfl rfl rfl fun _ _ => UdpAction.noConfusion
  obtain ⟨c, hc⟩ := scheduleReestablishment_spec r (s.record (.commLost r))
  exact (h₁.reestablished hc).removed (remove_spec r _)

/-- A loss logs its own line. -/
theorem log_handleCommLost (r : IPSocket) (s : SocketUdp T) :
    (handleCommLost r s).log = (s.now, .commLost r) :: s.log := by
  obtain ⟨c, hc⟩ := scheduleReestablishment_spec r (s.record (.commLost r))
  exact ((remove_spec r _).log.trans hc.log)

/-! ## Runs -/

/-- The invariant of the runs in which nobody enters twice. -/
structure Live (endpointOf : IPSocket → E) (X : Option E) (s : SocketUdp T) : Prop where
  wf : s.WF
  monitored : Monitored endpointOf X s
  safe : LivenessSafe endpointOf s.log

/-- What is left of it where the run ends in a throw. -/
abbrev SafeLog (endpointOf : IPSocket → E) (s : SocketUdp T) : Prop :=
  LivenessSafe endpointOf s.log

/-- The whole invariant is kept by a send. -/
theorem live_send (h : Live endpointOf X s) (msg : ChatMessage) (r : IPSocket) :
    Live endpointOf X (send net msg r s).state where
  wf := (local_send h.wf msg r).wf
  monitored := monitored_send h.monitored msg r
  safe := by
    rw [log_send]
    exact livenessSafe_cons h.safe fun r' hr' => nomatch hr'

/-- The whole invariant is kept by the entry of an endpoint without one. -/
theorem live_handleCommUp (h : Live endpointOf X s) (hr : NoEntry endpointOf r s) :
    Live endpointOf X (handleCommUp r s) := by
  obtain ⟨p, q, hc⟩ := handleCommUp_spec r s
  refine ⟨hc.wf h.wf, h.monitored.commUp hr hc, ?_⟩
  rw [hc.log]
  exact livenessSafe_cons h.safe fun r' hr' => nomatch hr'

/-- A datagram from an endpoint whose entry, if it has one, is spelled the same way. -/
theorem live_handleMessage (h : Live endpointOf none s)
    (hr : ∀ r' ∈ s.peers, endpointOf r' = endpointOf r → r' = r) (call : RecvCall) :
    (handleMessage net r call s).Ends (Live endpointOf none) (SafeLog endpointOf) := by
  cases call with
  | failed e => exact h.safe
  | wrote data =>
      have h₁ : Live endpointOf (some (endpointOf r)) (s.record (.received (cStr data) r)) := by
        refine ⟨(local_record h.wf rfl).wf, h.monitored.received _ r, ?_⟩
        exact livenessSafe_cons h.safe fun r' hr' => nomatch hr'
      rw [handleMessage, handleChatMessage]
      split
      · -- a quit: the only entry of the endpoint goes, and with it its comm-lost task
        have hrm := remove_spec r (s.record (.received (cStr data) r))
        have hm := h₁.monitored.removed hrm
        refine ⟨hrm.wf h₁.wf, hm.covered fun p t r' ht hf heq => ?_, hrm.log ▸ h₁.safe⟩
        have hmem : r' ∈ (remove r (s.record (.received (cStr data) r))).peers :=
          mem_of_handle (hm.handle p t r' ht hf)
        have hne : r' ≠ r := fun heq' => hrm.notMem (heq' ▸ hmem)
        exact absurd (hr r' ((hrm.frame h₁.wf).mem hne |>.mp hmem) heq) hne
      · refine Outcome.Ends.andThen (I := fun s₂ => Live endpointOf (some (endpointOf r)) s₂ ∧
          s₂.peers = s.peers) ?_ fun s₂ ⟨h₂, hpeers⟩ => ?_
        · split
          · let s₁ := s.record (.received (cStr data) r)
            have hack :
                Live endpointOf (some (endpointOf r)) (send net keepAliveAckMsg r s₁).state ∧
                  (send net keepAliveAckMsg r s₁).state.peers = s.peers :=
              ⟨live_send h₁ keepAliveAckMsg r, peers_send _ _ _⟩
            exact (Outcome.ends_of_state hack).imp (fun _ hs => hs) fun _ hs => hs.1.safe
          · exact ⟨h₁, rfl⟩
        · split
          -- the entry is found: its comm-lost task starts again
          case isTrue hmem =>
            obtain ⟨p, hp⟩ := resetTasks_spec h₂.wf hmem
            refine ⟨hp.wf h₂.wf, (h₂.monitored.restarted hp).covered fun x t r' ht hf heq => ?_,
              hp.log ▸ h₂.safe⟩
            obtain ⟨hh, hd⟩ := hp.commLost_task h₂.monitored ht hf
            rw [hp.now]
            rcases hd with ⟨-, hdue⟩ | ⟨hne, -⟩
            · exact hdue
            · have hmem' : r' ∈ s.peers := hpeers ▸ (hp.mem r').mp (mem_of_handle hh)
              exact absurd (hr r' hmem' heq) hne
          -- there is none under any spelling, so a new one may be entered
          case isFalse hmem =>
            have hno : NoEntry endpointOf r s₂ := by
              intro r' hr' heq
              exact hmem (hr r' (hpeers ▸ hr') heq ▸ hr')
            obtain ⟨p, q, hc⟩ := handleCommUp_spec r s₂
            have hup := live_handleCommUp h₂ hno
            exact ⟨hup.wf, hup.monitored.covered (hc.covered h₂.monitored hno), hup.safe⟩

/-- A task that runs by its condition keeps the invariant. -/
theorem live_launchTask (h : Live endpointOf none s) (hok : ∀ t r, s.enabled p = some t →
    t.due ≤ s.now → t.function = .reconnect r → NoEntry endpointOf r s) :
    (launchTask net p s).Ends (Live endpointOf none) (SafeLog endpointOf) := by
  have hrun_live : ∀ t, s.enabled p = some t → t.due ≤ s.now →
      Live endpointOf none (runFunction net t.function s).state := by
    intro t ht hdue
    cases hf : t.function with
    | ping r => exact live_send h keepAliveMsg r
    | commLost r =>
        refine ⟨(local_handleCommLost h.wf r).wf, monitored_handleCommLost h.monitored r, ?_⟩
        have hlog : (runFunction net (.commLost r) s).state.log = (s.now, .commLost r) :: s.log :=
          log_handleCommLost r s
        rw [hlog]
        -- the task that declares `r` lost is due, so the last datagram is long past
        refine livenessSafe_cons h.safe fun r' hr' t₀ msg r'' hmem heq => ?_
        obtain rfl := UdpAction.commLost.inj hr'
        exact h.monitored.heard ht hf hdue hmem heq
    | reconnect r => exact live_handleCommUp h (hok t r ht hdue hf)
  have hl := launchTask_spec net p s
  generalize launchTask net p s = o at hl ⊢
  cases hl with
  | idle _ => exact h
  | threw t s₁ ht hdue hrun =>
      have hs₁ := hrun_live t ht hdue
      rw [hrun] at hs₁
      exact hs₁.safe
  | ran t s₁ ht hdue hrun =>
      have hs₁ := hrun_live t ht hdue
      rw [hrun, Outcome.state_returned] at hs₁
      have hc := complete_spec p s₁
      have hl := local_ran h.wf ht hdue hrun
      refine ⟨hl.wf, hs₁.monitored.completed hc fun t' ht' => ?_, hs₁.safe⟩
      have hnow : s₁.now = s.now := hc.now.symm.trans hl.frame.now
      rcases runFunction_enabled h.wf ht hrun with ht₁ | ⟨hn, -⟩
      · rw [← Option.some.inj (ht₁.symm.trans ht'), hnow]
        exact hdue
      · exact absurd (hn.symm.trans ht') (Option.some_ne_none t').symm

/-- The whole invariant is kept by connects that name no endpoint twice. -/
theorem live_connect {remotes : List IPSocket} (h : Live endpointOf none s)
    (hok : Outcome.EachMeets (NoEntry endpointOf) (fun r s => .returned (handleCommUp r s))
      remotes s) : Live endpointOf none (connect remotes s) := by
  induction remotes generalizing s with
  | nil => exact h
  | cons r rs ih => exact ih (live_handleCommUp h hok.1) (hok.2 _ rfl)

/-- Every step that meets the condition keeps the invariant. -/
theorem live_step {e : UdpEvent T} (h : Live endpointOf none s)
    (hok : EntersOnce net endpointOf s e) :
    (step net s e).Ends (Live endpointOf none) (SafeLog endpointOf) := by
  cases e with
  | advance d =>
      exact ⟨h.wf.congr rfl rfl, ⟨h.monitored.handle, h.monitored.due, h.monitored.unique,
        fun e he => Nat.le_trans (h.monitored.past e he) (Nat.le_add_right _ _)⟩, h.safe⟩
  | connect remotes => exact live_connect h hok
  | receive r call => exact live_handleMessage h hok call
  | launch order =>
      have h₁ : Live endpointOf none (s.record .launched) :=
        ⟨h.wf.congr rfl rfl,
          h.monitored.of_log (a := .launched) rfl rfl rfl rfl fun _ _ => UdpAction.noConfusion,
          livenessSafe_cons h.safe fun r hr => nomatch hr⟩
      exact Outcome.forEach_ends h₁ hok fun p s₁ hs₁ hp => live_launchTask hs₁ hp
  | send order msg =>
      -- sends change no task, whatever the network takes
      have hl : Live endpointOf none (sendAll net order msg s).state :=
        Outcome.forEach_state h fun r _ s₁ hs₁ => live_send hs₁ msg r
      exact (Outcome.ends_of_state hl).imp (fun _ hs => hs) fun _ hs => hs.safe

/-- **Nobody who keeps talking is declared lost**, in every run in which nobody enters the peer
table twice. -/
theorem livenessSafe_of_run (endpointOf : IPSocket → E) {es : List (UdpEvent T)}
    (h : Runs net (EntersOnce net endpointOf) {} es s) : LivenessSafe endpointOf s.log :=
  h.invariant ⟨WF.init, .init, livenessSafe_nil⟩ (fun _ hs => hs.safe)
    fun _ _ hs hok => live_step hs hok.2

/-- A peer heard of after 3 s and silent from then on is declared lost after 7 s, as it should. -/
theorem livenessSafe_silent_peer : ∃ s : SocketUdp (.table UdpTask),
    s.log.head? = some (seconds 7, .commLost sampleRemote) ∧ LivenessSafe id s.log := by
  -- the peer speaks at 3 s and is lost at 7 s
  have hrun : ∃ s : SocketUdp (.table UdpTask),
      s.log.head? = some (seconds 7, .commLost sampleRemote) ∧
      Runs (fun _ => true) (EntersOnce (fun _ => true) id) {} [.connect [sampleRemote],
        .advance (seconds 3), .receive sampleRemote (.wrote (ascii "hi")), .advance (seconds 4),
        .launch (List.range 2)] s := by
    refine ⟨_, ?_, .cons ⟨trivial, ?_⟩ rfl (.cons ⟨trivial, trivial⟩ rfl
      (.cons ⟨trivial, fun r' _ h => h⟩ rfl (.cons ⟨trivial, trivial⟩ rfl
      (.cons ⟨possible_launch_range _, ?_⟩ rfl (.nil _)))))⟩
    · rfl
    · exact ⟨fun r' hr' => absurd hr' (AList.notMem_empty _), fun _ _ => trivial⟩
    · refine ⟨fun t r ht _ hf => ?_, fun s₁ hs₁ => ⟨fun t r ht _ hf => ?_, fun _ _ => trivial⟩⟩
      · cases ht
        cases hf
      · cases hs₁
        cases ht
        cases hf
  obtain ⟨s, hlog, hs⟩ := hrun
  exact ⟨s, hlog, livenessSafe_of_run id hs⟩

/-- **A peer that keeps talking can be declared lost.** It falls silent once and is lost at 4 s, it
is back at 5 s, and the reconnect task of the loss enters it a second time at 9 s. The comm-lost
task of the second time, which no entry holds, runs at 13 s, 2 s after a datagram. -/
theorem not_livenessSafe : ¬ ∀ (es : List (UdpEvent (.table UdpTask)))
    (s : SocketUdp (.table UdpTask)), Runs (fun _ => true) (fun _ _ => True) {} es s →
    LivenessSafe id s.log := by
  intro h
  -- the reconnect enters a remote that is back already, and its old comm-lost task strays
  have hrun : ∃ s : SocketUdp (.table UdpTask),
      s.log = (seconds 13, .commLost sampleRemote) :: s.log.tail ∧
      (seconds 11, .received (ascii "hi") sampleRemote) ∈ s.log.tail ∧
      Runs (fun _ => true) (fun _ _ => True) {} [.receive sampleRemote (.wrote (ascii "hi")),
        .advance (seconds 4), .launch (List.range 2),
        .advance (seconds 1), .receive sampleRemote (.wrote (ascii "hi")),
        .advance (seconds 3), .receive sampleRemote (.wrote (ascii "hi")),
        .advance (seconds 1), .launch (List.range 5),
        .advance (seconds 2), .receive sampleRemote (.wrote (ascii "hi")),
        .advance (seconds 2), .launch (List.range 7)] s := by
    refine ⟨_, ?_, ?_, .cons ⟨trivial, trivial⟩ rfl (.cons ⟨trivial, trivial⟩ rfl
      (.cons ⟨possible_launch_range _, trivial⟩ rfl (.cons ⟨trivial, trivial⟩ rfl
      (.cons ⟨trivial, trivial⟩ rfl (.cons ⟨trivial, trivial⟩ rfl (.cons ⟨trivial, trivial⟩ rfl
      (.cons ⟨trivial, trivial⟩ rfl (.cons ⟨possible_launch_range _, trivial⟩ rfl
      (.cons ⟨trivial, trivial⟩ rfl (.cons ⟨trivial, trivial⟩ rfl (.cons ⟨trivial, trivial⟩ rfl
      (.cons ⟨possible_launch_range _, trivial⟩ rfl (.nil _)))))))))))))⟩
    · rfl
    · decide
  -- its loss is logged two seconds after a datagram
  obtain ⟨s, hhead, hmem, hs⟩ := hrun
  have hsafe : seconds 11 + commLostDelay ≤ seconds 13 :=
    h _ s hs [] s.log.tail (seconds 13) sampleRemote hhead _ _ _ hmem rfl
  exact absurd hsafe (by decide)

end SocketUdp

end SctpSandbox

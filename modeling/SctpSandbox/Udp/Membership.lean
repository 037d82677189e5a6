import SctpSandbox.Udp.Frame

/-! # Who is in the table, and until when

The log tells who should have an entry: the remotes whose last line about membership is a datagram
other than a quit message, or a connect, and not a quit message or a declared loss. As long as every
`sendto` succeeds the table has exactly these entries, and each holds an enabled comm-lost task that
is due `commLostDelay` after the entry was made or, if that is later, after the last datagram from
its remote (`accounted_of_run`). -/

namespace SctpSandbox

/-- What a log line says about the membership of `r`, if anything. -/
def UdpAction.membership (r : IPSocket) : UdpAction → Option Bool
  | .received msg r' => if r' = r then some (msg != quitMsg) else none
  | .commUp r' => if r' = r then some true else none
  | .commLost r' => if r' = r then some false else none
  | _ => none

/-- A log line about another remote says nothing. -/
theorem UdpAction.membership_eq_none {a : UdpAction} {r : IPSocket} (h : a.remote ≠ some r) :
    a.membership r = none := by
  have hne : ∀ r', a.remote = some r' → r' ≠ r := fun r' ha heq => h (heq ▸ ha)
  cases a with
  | sent msg r' => rfl
  | received msg r' => exact if_neg (hne r' rfl)
  | commUp r' => exact if_neg (hne r' rfl)
  | commLost r' => exact if_neg (hne r' rfl)
  | launched => rfl

/-- A `commUp` line enters its remote. -/
theorem UdpAction.membership_commUp (r : IPSocket) :
    (UdpAction.commUp r).membership r = some true := if_pos rfl

/-- A `commLost` line takes its remote out. -/
theorem UdpAction.membership_commLost (r : IPSocket) :
    (UdpAction.commLost r).membership r = some false := if_pos rfl

/-- A datagram enters its sender, a quit message removes it. -/
theorem UdpAction.membership_received (msg : ChatMessage) (r : IPSocket) :
    (UdpAction.received msg r).membership r = some (msg != quitMsg) := if_pos rfl

namespace SocketUdp

variable {T : TaskScheduler UdpTask} {net : ℕ → Bool} {s s' s₁ : SocketUdp T}
  {r r' : IPSocket} {f : UdpTask} {p q : T.Ptr} {log l : List (Time × UdpAction)}

/-- What the last line about the membership of `r` says. -/
def lastEvent (r : IPSocket) (log : List (Time × UdpAction)) : Option Bool :=
  log.findSome? fun e => e.2.membership r

/-- When `r` was entered for the last time: a later connect or datagram does not count, the entry is
there already. -/
def enteredAt (r : IPSocket) : List (Time × UdpAction) → Option Time
  | [] => none
  | (t, a) :: log =>
      match a.membership r with
      | some true => some ((enteredAt r log).getD t)
      | some false => none
      | none => enteredAt r log

/-- When the last datagram from `r` was handled, `0` if there was none. -/
def heardAt (r : IPSocket) : List (Time × UdpAction) → Time
  | [] => 0
  | (t, .received _ r') :: log => if r' = r then t else heardAt r log
  | _ :: log => heardAt r log

/-! ## Log lines -/

section Log

variable {t now : Time} {a : UdpAction}

/-- A line that enters sets the time of entry, unless there is one. -/
theorem enteredAt_up (h : a.membership r = some true) :
    enteredAt r ((t, a) :: log) = some ((enteredAt r log).getD t) := by
  rw [enteredAt, h]

/-- A line that takes out leaves no time of entry. -/
theorem enteredAt_down (h : a.membership r = some false) :
    enteredAt r ((t, a) :: log) = none := by
  rw [enteredAt, h]

/-- Any other line leaves the time of entry. -/
theorem enteredAt_other (h : a.membership r = none) :
    enteredAt r ((t, a) :: log) = enteredAt r log := by
  rw [enteredAt, h]

/-- A datagram sets the time of the last one. -/
theorem heardAt_received (msg : ChatMessage) :
    heardAt r ((t, .received msg r) :: log) = t := if_pos rfl

/-- Any other line leaves the time of the last datagram. -/
theorem heardAt_other (h : ∀ msg, a ≠ .received msg r) :
    heardAt r ((t, a) :: log) = heardAt r log := by
  cases a with
  | received msg r' =>
      have hne : r' ≠ r := fun heq => h msg (heq ▸ rfl)
      exact if_neg hne
  | sent msg r' => rfl
  | commUp r' => rfl
  | commLost r' => rfl
  | launched => rfl

/-- The remotes entered and not removed are those whose last line says so. -/
theorem lastEvent_eq_true (r : IPSocket) (log : List (Time × UdpAction)) :
    lastEvent r log = some true ↔ ∃ t, enteredAt r log = some t := by
  induction log with
  | nil => simp [lastEvent, enteredAt]
  | cons e log ih =>
      obtain ⟨t, a⟩ := e
      rw [lastEvent, List.findSome?_cons]
      cases h : a.membership r with
      | none => rwa [enteredAt_other h]
      | some b =>
          cases b with
          | true => simp [enteredAt_up h]
          | false => simp [enteredAt_down h]

/-- Lines about other remotes change neither time. -/
theorem times_append (log : List (Time × UdpAction)) (h : ∀ e ∈ l, e.2.remote ≠ some r) :
    enteredAt r (l ++ log) = enteredAt r log ∧ heardAt r (l ++ log) = heardAt r log := by
  induction l with
  | nil => exact ⟨rfl, rfl⟩
  | cons e l ih =>
      obtain ⟨t, a⟩ := e
      have ha : a.remote ≠ some r := h (t, a) List.mem_cons_self
      obtain ⟨he, hh⟩ := ih fun e he => h e (List.mem_cons_of_mem _ he)
      refine ⟨(enteredAt_other (UdpAction.membership_eq_none ha)).trans he, ?_⟩
      refine (heardAt_other fun msg heq => ha ?_).trans hh
      rw [heq, UdpAction.remote]

/-- Both times are times of log lines, so they are past. -/
theorem enteredAt_le (h : ∀ e ∈ log, e.1 ≤ now) (ht : enteredAt r log = some t) : t ≤ now := by
  induction log generalizing t with
  | nil => simp [enteredAt] at ht
  | cons e log ih =>
      obtain ⟨t', a⟩ := e
      have ih' := fun t => @ih t fun e he => h e (List.mem_cons_of_mem _ he)
      -- the newest line enters, takes out, or is about something else
      cases ha : a.membership r with
      | none => exact ih' t (enteredAt_other ha ▸ ht)
      | some b =>
          cases b with
          | false => simp [enteredAt_down ha] at ht
          | true =>
              rw [enteredAt_up ha] at ht
              obtain rfl := Option.some.inj ht
              cases he : enteredAt r log with
              | none => exact h (t', a) List.mem_cons_self
              | some u => exact ih' u he

/-- The time of the last datagram lies in the past with the whole log. -/
theorem heardAt_le (h : ∀ e ∈ log, e.1 ≤ now) : heardAt r log ≤ now := by
  induction log with
  | nil => exact Nat.zero_le _
  | cons e log ih =>
      obtain ⟨t, a⟩ := e
      have ih' := ih fun e he => h e (List.mem_cons_of_mem _ he)
      by_cases ha : ∃ msg, a = .received msg r
      · obtain ⟨msg, rfl⟩ := ha
        rw [heardAt_received]
        exact h (t, .received msg r) List.mem_cons_self
      · rwa [heardAt_other fun msg heq => ha ⟨msg, heq⟩]

end Log

/-! ## The invariant -/

/-- The table agrees with the log about `r`: there is an entry if and only if the log says so, and
its comm-lost task was started by the later of the entry and the last datagram. -/
structure Tracked (r : IPSocket) (s : SocketUdp T) : Prop where
  absent : enteredAt r s.log = none → r ∉ s.peers
  present : ∀ t, enteredAt r s.log = some t → ∃ q, s.handle (.commLost r) = some q ∧
    s.enabled q = some ((UdpTask.commLost r).started (max t (heardAt r s.log)))

/-- The empty table is that of the empty log. -/
theorem Tracked.init (r : IPSocket) : Tracked r ({} : SocketUdp T) where
  absent := fun _ => AList.notMem_empty r
  present := fun t ht => absurd ht (Option.some_ne_none t).symm

/-- The peers are the remotes that the log has entered and not taken out. -/
theorem Tracked.mem_iff (h : Tracked r s) : r ∈ s.peers ↔ ∃ t, enteredAt r s.log = some t := by
  constructor
  · intro hr
    cases he : enteredAt r s.log with
    | none => exact absurd hr (h.absent he)
    | some t => exact ⟨t, rfl⟩
  · rintro ⟨t, ht⟩
    obtain ⟨q, hq, -⟩ := h.present t ht
    exact mem_of_handle hq

/-- What happens to other remotes does not matter. -/
theorem Tracked.of_local (h : Tracked r s) (hl : Local r' s s') (hne : r ≠ r') : Tracked r s' := by
  obtain ⟨l, hlog, habout⟩ := hl.frame.log
  obtain ⟨he, hh⟩ := times_append (r := r) s.log fun e he heq =>
    hne (Option.some.inj (heq.symm.trans (habout e he).2))
  -- nothing of the new lines is about `r`
  rw [← hlog] at he hh
  constructor
  · exact fun ht => fun hmem => h.absent (he.symm.trans ht) ((hl.frame.mem hne).mp hmem)
  · intro t ht
    obtain ⟨q, hq, htask⟩ := h.present t (he.symm.trans ht)
    refine ⟨q, (hl.frame.handle (f := .commLost r) hne).trans hq, ?_⟩
    rw [hh]
    exact (hl.frame.enabled q ((UdpTask.commLost r).started _) hne).mpr htask

/-- What leaves the table, both times and the comm-lost task of `r` alone does not matter. -/
theorem Tracked.of_same (h : Tracked r s) (hpeers : s'.peers = s.peers)
    (hentered : enteredAt r s'.log = enteredAt r s.log)
    (hheard : heardAt r s'.log = heardAt r s.log)
    (htask : ∀ q, s.handle (.commLost r) = some q → s'.enabled q = s.enabled q) :
    Tracked r s' := by
  refine ⟨fun hn => hpeers ▸ h.absent (hentered ▸ hn), fun t ht => ?_⟩
  obtain ⟨q, hq, hqt⟩ := h.present t (hentered ▸ ht)
  exact ⟨q, (handle_congr (by rw [hpeers])).trans hq, hheard ▸ (htask q hq).trans hqt⟩

/-- A new entry is monitored from now on. -/
theorem CommUp.tracked_new (h₁ : CommUp r s s' p q) (hpast : s.Past) (hr : r ∉ s.peers)
    (hentered : (enteredAt r s.log).getD s.now = s.now) : Tracked r s' := by
  have he : enteredAt r s'.log = some s.now := by
    rw [h₁.log, enteredAt_up (UdpAction.membership_commUp r), hentered]
  have hh : heardAt r s'.log ≤ s.now := by
    rw [h₁.log, heardAt_other fun msg => UdpAction.noConfusion]
    exact heardAt_le hpast
  refine ⟨fun hn => absurd (hn.symm.trans he) (Option.some_ne_none _).symm, fun t ht => ?_⟩
  obtain rfl := Option.some.inj (he.symm.trans ht)
  rw [Nat.max_eq_left hh]
  exact ⟨q, h₁.handle_commLost hr, h₁.commLost⟩

/-- A connect to a peer in the table leaves its entry and its task alone. -/
theorem CommUp.tracked_known (h₁ : CommUp r s s' p q) (h : Tracked r s) (hr : r ∈ s.peers) :
    Tracked r s' := by
  obtain ⟨t₀, ht₀⟩ := h.mem_iff.mp hr
  refine h.of_same (h₁.known hr) ?_ ?_ fun x hx => ?_
  · rw [h₁.log, enteredAt_up (UdpAction.membership_commUp r), ht₀, Option.getD_some]
  · rw [h₁.log, heardAt_other fun msg => UdpAction.noConfusion]
  · -- the comm-lost task is none of the two scheduled now
    obtain ⟨x', hx', hxt⟩ := h.present t₀ ht₀
    obtain rfl := Option.some.inj (hx'.symm.trans hx)
    have hissued : s.issued x' := T.issued_of_enabled _ _ _ hxt
    exact (h₁.old x' (fun heq => h₁.fresh_ping (heq ▸ hissued))
      fun heq => h₁.fresh_commLost (heq ▸ hissued)).1

/-- The table follows the log over an entry. -/
theorem tracked_handleCommUp (hpast : s.Past) (h : Tracked r s) :
    Tracked r (handleCommUp r s) := by
  obtain ⟨p, q, hc⟩ := handleCommUp_spec r s
  by_cases hr : r ∈ s.peers
  · exact hc.tracked_known h hr
  · refine hc.tracked_new hpast hr ?_
    cases he : enteredAt r s.log with
    | none => rfl
    | some t => exact absurd (h.mem_iff.mpr ⟨t, he⟩) hr

/-- A removed peer is gone, as its last line says. -/
theorem Removed.tracked (h₁ : Removed r s s') (he : enteredAt r s.log = none) : Tracked r s' where
  absent := fun _ => h₁.notMem
  present := fun t ht => absurd ((h₁.log ▸ he).symm.trans ht) (Option.some_ne_none t).symm

/-- The table follows the log over a loss. -/
theorem tracked_handleCommLost (r : IPSocket) (s : SocketUdp T) :
    Tracked r (handleCommLost r s) := by
  obtain ⟨c, hc⟩ := scheduleReestablishment_spec r (s.record (.commLost r))
  refine (remove_spec r _).tracked ?_
  rw [hc.log]
  exact enteredAt_down (UdpAction.membership_commLost r)

/-! ## Datagrams -/

/-- A datagram from `r` that is no quit message was logged, the table and the tasks are still those
of `s`. -/
structure Heard (r : IPSocket) (s s₁ : SocketUdp T) : Prop where
  peers : s₁.peers = s.peers
  scheduler : s₁.scheduler = s.scheduler
  now : s₁.now = s.now
  entered : enteredAt r s₁.log = some ((enteredAt r s.log).getD s.now)
  heard : heardAt r s₁.log = s.now
  past : s₁.Past

/-- A datagram that is no farewell is heard. -/
theorem heard_record (hpast : s.Past) {msg : ChatMessage} (hq : msg ≠ quitMsg) :
    Heard r s (s.record (.received msg r)) where
  peers := rfl
  scheduler := rfl
  now := rfl
  entered := enteredAt_up (by rw [UdpAction.membership_received, bne_iff_ne.mpr hq])
  heard := heardAt_received msg
  past := hpast.record _

/-- The acknowledgement of a keep-alive message changes nothing. -/
theorem Heard.sent (h₁ : Heard r s s₁) (msg : ChatMessage) :
    Heard r s (send (fun _ => true) msg r s₁).state where
  peers := (peers_send msg r s₁).trans h₁.peers
  scheduler := (scheduler_send msg r s₁).trans h₁.scheduler
  now := (now_send msg r s₁).trans h₁.now
  entered := by
    rw [log_send]
    exact (enteredAt_other rfl).trans h₁.entered
  heard := by
    rw [log_send]
    exact (heardAt_other fun _ => UdpAction.noConfusion).trans h₁.heard
  past := by
    intro e he
    rw [log_send] at he
    rw [now_send]
    -- the line of the send is logged now
    rcases List.mem_cons.mp he with rfl | he
    · exact Nat.le_refl _
    · exact h₁.past e he

/-- The entry of a peer heard of is monitored from now on. -/
theorem Heard.tracked (h₁ : Heard r s s₁) (hwf : s.WF) (h : Tracked r s) :
    Tracked r (if r ∈ s₁.peers then resetTasks r s₁ else handleCommUp r s₁) := by
  have hwf₁ : s₁.WF := hwf.congr h₁.peers h₁.scheduler
  by_cases hr : r ∈ s₁.peers
  · rw [if_pos hr]
    obtain ⟨p, hp⟩ := resetTasks_spec hwf₁ hr
    obtain ⟨t₀, ht₀⟩ := h.mem_iff.mp (h₁.peers ▸ hr)
    obtain ⟨q, hq, hqt⟩ := h.present t₀ ht₀
    have hq₁ : s₁.handle (.commLost r) = some q :=
      (handle_congr (by rw [h₁.peers])).trans hq
    have he : enteredAt r (resetTasks r s₁).log = some t₀ := by
      rw [hp.log, h₁.entered, ht₀, Option.getD_some]
    refine ⟨fun hn => absurd (hn.symm.trans he) (Option.some_ne_none _).symm, fun t ht => ?_⟩
    obtain rfl := Option.some.inj (he.symm.trans ht)
    refine ⟨q, hp.handle_commLost.trans hq₁, ?_⟩
    -- the entry was made before the datagram came
    have hle : t₀ ≤ s.now := by
      have hmem : enteredAt r s₁.log = some t₀ := by rw [h₁.entered, ht₀, Option.getD_some]
      exact h₁.now ▸ enteredAt_le h₁.past hmem
    have hqt₁ : s₁.enabled q = some ((UdpTask.commLost r).started (max t₀ (heardAt r s.log))) := by
      rw [enabled, h₁.scheduler]
      exact hqt
    rw [hp.commLost q hq₁, hqt₁, Option.map_some, hp.log, h₁.heard, h₁.now, Nat.max_eq_right hle]
  · rw [if_neg hr]
    obtain ⟨p, q, hc⟩ := handleCommUp_spec r s₁
    refine hc.tracked_new h₁.past hr ?_
    rw [h₁.entered, h₁.now, Option.getD_some]
    cases he : enteredAt r s.log with
    | none => rfl
    | some t => exact absurd (h₁.peers ▸ h.mem_iff.mpr ⟨t, he⟩) hr

/-- The table follows the log over a datagram. -/
theorem tracked_handleMessage (hwf : s.WF) (hpast : s.Past) (h : Tracked r s) (call : RecvCall) :
    Tracked r (handleMessage (fun _ => true) r call s).state := by
  cases call with
  | failed e => exact h
  | wrote data =>
      let s₁ := s.record (.received (cStr data) r)
      have heq : handleMessage (fun _ => true) r (.wrote data) s =
          handleChatMessage (fun _ => true) (cStr data) r s₁ := rfl
      rw [heq, handleChatMessage]
      by_cases hq : cStr data = quitMsg
      · rw [if_pos hq]
        -- a quit takes the sender out
        refine (remove_spec r s₁).tracked (enteredAt_down ?_)
        rw [UdpAction.membership_received, hq, bne_self_eq_false]
      · rw [if_neg hq]
        have h₁ : Heard r s s₁ := heard_record hpast hq
        have hrest : ∀ s₂, Heard r s s₂ → Tracked r (if r ∈ s₂.peers then
            Outcome.returned (resetTasks r s₂) else .returned (handleCommUp r s₂)).state := by
          intro s₂ h₂
          have := h₂.tracked hwf h
          by_cases hr : r ∈ s₂.peers
          · rwa [if_pos hr] at this ⊢
          · rwa [if_neg hr] at this ⊢
        by_cases hka : cStr data = keepAliveMsg
        · rw [if_pos hka]
          exact hrest _ (h₁.sent keepAliveAckMsg)
        · rw [if_neg hka]
          exact hrest s₁ h₁

/-! ## Tasks -/

/-- The accounting for a task other than the comm-lost task of `r` changes nothing. -/
theorem Completed.tracked (h₁ : Completed p s s') (h : Tracked r s)
    (hp : s.handle (.commLost r) ≠ some p) : Tracked r s' := by
  refine h.of_same h₁.peers (by rw [h₁.log]) (by rw [h₁.log]) fun q hq => (h₁.old q ?_).1
  rintro rfl
  exact hp hq

/-- A message sent changes nothing. -/
theorem tracked_send (net : ℕ → Bool) (h : Tracked r s) (msg : ChatMessage) (r' : IPSocket) :
    Tracked r (send net msg r' s).state := by
  refine h.of_same (peers_send msg r' s) ?_ ?_ fun q _ => ?_
  · rw [log_send]
    exact enteredAt_other rfl
  · rw [log_send]
    exact heardAt_other fun _ => UdpAction.noConfusion
  · rw [enabled, scheduler_send]

/-- The table follows the log over what a task runs. -/
theorem tracked_runFunction (hpast : s.Past) (f : UdpTask) (h : Tracked f.remote s) :
    Tracked f.remote (runFunction (fun _ => true) f s).state := by
  cases f with
  | ping r => exact tracked_send (fun _ => true) h keepAliveMsg r
  | commLost r => exact tracked_handleCommLost r s
  | reconnect r => exact tracked_handleCommUp hpast h

/-- A launched task keeps the table in agreement with the log about its own remote. -/
theorem tracked_launchTask (hwf : s.WF) (hpast : s.Past) (p : T.Ptr)
    (h : ∀ t, s.enabled p = some t → Tracked t.function.remote s) :
    ∀ t, s.enabled p = some t →
      Tracked t.function.remote (launchTask (fun _ => true) p s).state := by
  intro t ht
  have hl := launchTask_spec (fun _ => true) p s
  generalize launchTask (fun _ => true) p s = o at hl ⊢
  cases hl with
  | idle _ => exact h t ht
  | threw t' s₁ ht' _ hrun =>
      obtain rfl := Option.some.inj (ht'.symm.trans ht)
      have := tracked_runFunction hpast t'.function (h t' ht')
      rwa [hrun] at this
  | ran t' s₁ ht' _ hrun =>
      obtain rfl := Option.some.inj (ht'.symm.trans ht)
      have h₁ := tracked_runFunction hpast t'.function (h t' ht')
      have hwf₁ := (local_runFunction (fun _ => true) hwf t'.function).wf
      rw [hrun] at h₁ hwf₁
      -- the task is gone afterwards, which matters if its entry still pointed to it
      refine (complete_spec p s₁).tracked h₁ fun hp => ?_
      rcases runFunction_enabled hwf ht' hrun with hen | ⟨-, hno⟩
      · -- the comm-lost task of an entry has removed it
        have hf := hwf₁.function _ _ _ hp hen
        rw [hf] at hrun
        have hgone : t'.function.remote ∉ s₁.peers :=
          Outcome.returned.inj hrun ▸ (remove_spec t'.function.remote _).notMem
        exact hgone (mem_of_handle (f := .commLost t'.function.remote) hp)
      · exact hno _ hp

/-! ## Runs -/

/-- What every step keeps: the handles are in order, no line of the log is from the future, and the
table agrees with the log about every remote. -/
structure Accounted (s : SocketUdp T) : Prop where
  wf : s.WF
  past : s.Past
  tracked : ∀ r, Tracked r s

/-- Nothing has been lost or entered yet. -/
theorem Accounted.init : Accounted ({} : SocketUdp T) :=
  ⟨.init, fun _ he => absurd he List.not_mem_nil, Tracked.init⟩

/-- An operation about `r` that keeps the table in agreement about `r` keeps it so for all. -/
theorem Accounted.of_local (h : Accounted s) (hl : Local r s s') (hr : Tracked r s') :
    Accounted s' where
  wf := hl.wf
  past := h.past.of_local hl
  tracked := by
    intro r'
    by_cases heq : r' = r
    · exact heq ▸ hr
    · exact (h.tracked r').of_local hl heq

/-- A line of the log that is about no remote. -/
theorem Accounted.launched (h : Accounted s) : Accounted (s.record .launched) where
  wf := h.wf.congr rfl rfl
  past := h.past.record _
  tracked := fun r => (h.tracked r).of_same rfl (enteredAt_other rfl)
    (heardAt_other fun _ => UdpAction.noConfusion) fun _ _ => rfl

/-- Every loss is accounted for after a send. -/
theorem accounted_send (h : Accounted s) (msg : ChatMessage) (r : IPSocket) :
    Accounted (send net msg r s).state :=
  h.of_local (local_send h.wf msg r) (tracked_send net (h.tracked r) msg r)

/-- Every loss is accounted for after a task. -/
theorem accounted_launchTask (h : Accounted s) (p : T.Ptr) :
    Accounted (launchTask (fun _ => true) p s).state := by
  rcases local_launchTask (fun _ => true) h.wf p with ⟨heq, -⟩ | ⟨t, ht, -, hl⟩
  · rw [heq]
    exact h
  · exact h.of_local hl (tracked_launchTask h.wf h.past p (fun t _ => h.tracked _) t ht)

/-- Step lemma: every loss is accounted for after a step. -/
theorem accounted_step (h : Accounted s) (e : UdpEvent T) :
    Accounted (step (fun _ => true) s e).state := by
  cases e with
  | advance d =>
      refine ⟨h.wf.congr rfl rfl, fun e he => ?_, fun r => ?_⟩
      · exact Nat.le_trans (h.past e he) (Nat.le_add_right _ _)
      · exact (h.tracked r).of_same rfl rfl rfl fun _ _ => rfl
  | connect remotes =>
      change Accounted (connect remotes s)
      -- one remote after the other
      induction remotes generalizing s with
      | nil => exact h
      | cons r rs ih =>
          exact ih (h.of_local (local_handleCommUp h.wf r)
            (tracked_handleCommUp h.past (h.tracked r)))
  | receive r call =>
      exact h.of_local (local_handleMessage h.wf r call)
        (tracked_handleMessage h.wf h.past (h.tracked r) call)
  | launch order =>
      exact Outcome.forEach_state h.launched fun p _ s₁ h₁ => accounted_launchTask h₁ p
  | send order msg =>
      exact Outcome.forEach_state h fun r _ s₁ h₁ => accounted_send h₁ msg r

/-- Run lemma: every loss is accounted for in every reachable state. -/
theorem accounted_of_run {ok : SocketUdp T → UdpEvent T → Prop} {es : List (UdpEvent T)}
    (hrun : Run (step fun _ => true) ok {} es s) : Accounted s :=
  hrun.invariant_state .init fun _ e h _ => accounted_step h e

end SocketUdp

end SctpSandbox

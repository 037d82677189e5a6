import SctpSandbox.Udp.Frame

/-! # A peer that answers is kept

The ping task of a peer is due `keepAlivePeriod` after the peer was last heard of, its comm-lost
task `commLostDelay` after. A launch within `g` of the previous one sends the ping less than
`keepAlivePeriod + g` after the peer was heard of, an answer within `d` comes before the comm-lost
task is due when `g + d` is less than the difference, and the answer restarts both
(`keptSince_of_run`). What other remotes do is covered by `Local`.

A remote is a key of the table, as the code compares them: a datagram is from `r` when its decoded
sender equals `r`. -/

namespace SctpSandbox

namespace SocketUdp

variable {T : TaskScheduler UdpTask} {net : ℕ → Bool} {s s' s₀ s₁ s₂ : SocketUdp T}
  {r r' : IPSocket} {f : UdpTask} {p q x : T.Ptr} {t : ScheduledTask UdpTask}
  {g d h t₁ : Time} {L : List (Time × UdpAction)}

/-- `r` is a peer in `s` and was not declared lost since `s₁`. -/
def KeptSince (r : IPSocket) (s₁ s : SocketUdp T) : Prop :=
  r ∈ s.peers ∧ ∃ l, s.log = l ++ s₁.log ∧ ∀ t, (t, UdpAction.commLost r) ∉ l

/-! ## The conditions -/

/-- Neither the table nor the scheduler knows `r`. -/
structure Absent (r : IPSocket) (s : SocketUdp T) : Prop where
  entry : r ∉ s.peers
  task : ∀ p t, s.enabled p = some t → t.function.remote ≠ r

/-- The event does not connect `r` twice. -/
def ConnectsOnce (r : IPSocket) : UdpEvent T → Prop
  | .connect remotes => remotes.count r ≤ 1
  | _ => True

/-- The previous launch was at most `g` ago; the first launch of all is counted from `s₁`. -/
def PolledWithin (g : Time) (s₁ s : SocketUdp T) : Prop :=
  (∃ t, (t, .launched) ∈ s.log ∧ s.now ≤ t + g) ∨
    (∀ t, (t, .launched) ∉ s.log) ∧ s.now ≤ s₁.now + g

/-- Every keep-alive sent to `r` since `s₁`, unless it is at most `d` ago, was followed within `d`
by a datagram from `r`. -/
def Answered (d : Time) (r : IPSocket) (s₁ s : SocketUdp T) : Prop :=
  ∀ l₁ l₂ t, s.log = l₁ ++ (t, .sent keepAliveMsg r) :: (l₂ ++ s₁.log) →
    s.now ≤ t + d ∨ ∃ t' msg, (t', .received msg r) ∈ l₁ ∧ t' ≤ t + d

/-- The steps since `s₁` in which `r` is responsive and the loop polls in time: nobody connects `r`,
`r` does not quit, launches are at most `g` apart and keep-alives are answered within `d`. -/
structure Responsive (g d : Time) (r : IPSocket) (s₁ s : SocketUdp T) (e : UdpEvent T) : Prop where
  answered : Answered d r s₁ s
  polled : ∀ order, e = .launch order → PolledWithin g s₁ s
  noConnect : ∀ remotes, e = .connect remotes → r ∉ remotes
  noQuit : ∀ data, e = .receive r (.wrote data) → cStr data ≠ quitMsg

/-! ## The invariant -/

/-- The entry of `r`, last heard of at `h`: it holds the ping task `p` and the comm-lost task `q`,
there are no other tasks for `r`, and `q` waits since `h`. The entry exists since `t₁`, when the log
was `L`. -/
structure Entry (r : IPSocket) (t₁ : Time) (L : List (Time × UdpAction)) (h : Time) (p q : T.Ptr)
    (s : SocketUdp T) : Prop where
  wf : s.WF
  past : s.Past
  ping : s.handle (.ping r) = some p
  commLost : s.handle (.commLost r) = some q
  tasks : ∀ x t, s.enabled x = some t → t.function.remote = r → x = p ∨ x = q
  lost : s.enabled q = some ((UdpTask.commLost r).started h)
  log : ∃ l, s.log = l ++ L ∧ ∀ t, (t, UdpAction.commLost r) ∉ l
  entered : t₁ ≤ h
  heard : h ≤ s.now

/-- No keep-alive went out since `h`. -/
def Unprobed (r : IPSocket) (h : Time) (p : T.Ptr) (s : SocketUdp T) : Prop :=
  s.enabled p = some ((UdpTask.ping r).started h)

/-- A keep-alive went out less than `keepAlivePeriod + g` after `h`, and nothing came back yet. -/
def Probed (g : Time) (r : IPSocket) (L : List (Time × UdpAction)) (h : Time) (s : SocketUdp T) :
    Prop :=
  ∃ l₁ l₂ t, s.log = l₁ ++ (t, .sent keepAliveMsg r) :: (l₂ ++ L) ∧
    (∀ t' msg, (t', UdpAction.received msg r) ∉ l₁) ∧ t < h + keepAlivePeriod + g

/-- A remote that has an entry is in the table. -/
theorem Entry.mem (he : Entry r t₁ L h p q s) : r ∈ s.peers := mem_of_handle he.ping

/-- The two tasks of an entry are different. -/
theorem Entry.ne (he : Entry r t₁ L h p q s) : p ≠ q := by
  rintro rfl
  exact nomatch he.wf.inj _ _ _ he.ping he.commLost

/-- What happens to other remotes leaves the entry alone. -/
theorem Entry.of_local (he : Entry r t₁ L h p q s) (hl : Local r' s s') (hr : r ≠ r') :
    Entry r t₁ L h p q s' where
  wf := hl.wf
  past := he.past.of_local hl
  ping := (hl.frame.handle (f := .ping r) hr).trans he.ping
  commLost := (hl.frame.handle (f := .commLost r) hr).trans he.commLost
  tasks := fun x t ht hf => he.tasks x t ((hl.frame.enabled x t (hf ▸ hr)).mp ht) hf
  lost := (hl.frame.enabled q ((UdpTask.commLost r).started h) hr).mpr he.lost
  log := by
    obtain ⟨l, hlog, hno⟩ := he.log
    obtain ⟨l', hlog', habout⟩ := hl.frame.log
    refine ⟨l' ++ l, by rw [hlog', hlog, List.append_assoc], fun t hmem => ?_⟩
    rcases List.mem_append.mp hmem with hmem | hmem
    · exact hr (Option.some.inj (habout _ hmem).2)
    · exact hno t hmem
  entered := he.entered
  heard := hl.frame.now ▸ he.heard

/-- The phase before the first probe is not touched by what is done to another remote. -/
theorem Unprobed.of_local (hu : Unprobed r h p s) (hl : Local r' s s') (hr : r ≠ r') :
    Unprobed r h p s' := (hl.frame.enabled p ((UdpTask.ping r).started h) hr).mpr hu

/-- New lines that are not datagrams from `r` leave a probe pending. -/
theorem Probed.of_log {l : List (Time × UdpAction)} (hp : Probed g r L h s)
    (hl : s'.log = l ++ s.log) (hno : ∀ t msg, (t, UdpAction.received msg r) ∉ l) :
    Probed g r L h s' := by
  obtain ⟨l₁, l₂, t, hlog, hno₁, ht⟩ := hp
  refine ⟨l ++ l₁, l₂, t, by rw [hl, hlog, List.append_assoc], fun t' msg hmem => ?_, ht⟩
  rcases List.mem_append.mp hmem with hmem | hmem
  · exact hno t' msg hmem
  · exact hno₁ t' msg hmem

/-- The phase behind a probe is not touched by what is done to another remote. -/
theorem Probed.of_local (hp : Probed g r L h s) (hl : Local r' s s') (hr : r ≠ r') :
    Probed g r L h s' := by
  obtain ⟨l, hlog, habout⟩ := hl.frame.log
  exact hp.of_log hlog fun t msg hmem => hr (Option.some.inj (habout _ hmem).2)

/-- An operation that only writes lines into the log, none of them a loss of `r`. -/
theorem Entry.of_log {l : List (Time × UdpAction)} (he : Entry r t₁ L h p q s)
    (hp : s'.peers = s.peers) (hs : s'.scheduler = s.scheduler) (hnow : s'.now = s.now)
    (hl : s'.log = l ++ s.log) (hno : ∀ e ∈ l, e.1 ≤ s.now ∧ e.2 ≠ .commLost r) :
    Entry r t₁ L h p q s' where
  wf := he.wf.congr hp hs
  past := by
    intro e hmem
    rw [hl] at hmem
    rw [hnow]
    exact (List.mem_append.mp hmem).elim (fun hmem => (hno e hmem).1) (he.past e)
  ping := (handle_congr (by rw [hp])).trans he.ping
  commLost := (handle_congr (by rw [hp])).trans he.commLost
  tasks := fun x t ht => he.tasks x t (by rwa [enabled, hs] at ht)
  lost := by
    rw [enabled, hs]
    exact he.lost
  log := by
    -- the new lines contain no loss, so none since the entry
    obtain ⟨l', hlog, hno'⟩ := he.log
    refine ⟨l ++ l', by rw [hl, hlog, List.append_assoc], fun t hmem => ?_⟩
    rcases List.mem_append.mp hmem with hmem | hmem
    · exact (hno _ hmem).2 rfl
    · exact hno' t hmem
  entered := he.entered
  heard := hnow ▸ he.heard

/-- A datagram from `r` restarts both tasks. -/
theorem Entry.restarted {p' : T.Ptr} (he : Entry r t₁ L h p q s) (h₁ : Restarted r s s' p') :
    Entry r t₁ L s.now p' q s' where
  wf := h₁.wf he.wf
  past := he.past.of_local ⟨h₁.wf he.wf, h₁.frame he.wf⟩
  ping := h₁.handle_ping
  commLost := h₁.handle_commLost.trans he.commLost
  tasks := by
    intro x t ht hf
    by_cases hxp : x = p'
    · exact .inl hxp
    · by_cases hxq : s.handle (.commLost r) = some x
      · exact .inr (Option.some.inj (hxq.symm.trans he.commLost))
      · -- an old task of `r` would be the old ping task, which is not enabled when it is replaced
        have ht₀ := (h₁.old x hxp hxq).1.symm.trans ht
        rcases he.tasks x t ht₀ hf with rfl | rfl
        · exact absurd ((h₁.replaced x he.ping hxp).symm.trans ht₀) (Option.some_ne_none t).symm
        · exact absurd he.commLost hxq
  lost := by rw [h₁.commLost q he.commLost, he.lost, Option.map_some]
  log := h₁.log ▸ he.log
  entered := Nat.le_trans he.entered he.heard
  heard := Nat.le_of_eq h₁.now.symm

/-- Between the events: the ping of `r` was not due at any launch yet, or it went out. -/
def Waiting (g : Time) (r : IPSocket) (L : List (Time × UdpAction)) (h : Time) (p : T.Ptr)
    (s : SocketUdp T) : Prop :=
  (Unprobed r h p s ∧ ∀ t, (t, .launched) ∈ s.log → t < h + keepAlivePeriod) ∨ Probed g r L h s

/-- The invariant between the events. -/
def Kept (g : Time) (r : IPSocket) (s₁ s : SocketUdp T) : Prop :=
  ∃ h p q, Entry r s₁.now s₁.log h p q s ∧ Waiting g r s₁.log h p s

/-- The period is positive. -/
theorem keepAlivePeriod_pos : 0 < keepAlivePeriod := by decide

/-- The delay spans one period and the probes behind it. -/
theorem commLostDelay_eq : commLostDelay = keepAlivePeriod + keepAlivePeriod * keepAliveProbes := by
  rw [commLostDelay, Nat.mul_succ, Nat.add_comm]

/-- An entry that is still the one of the start was kept since. -/
theorem Entry.keptSince (he : Entry r s₁.now s₁.log h p q s) : KeptSince r s₁ s := ⟨he.mem, he.log⟩

/-- The invariant gives the claim's property. -/
theorem Kept.keptSince (hk : Kept g r s₁ s) : KeptSince r s₁ s := by
  obtain ⟨h, p, q, he, -⟩ := hk
  exact he.keptSince

/-- What is about a remote tells of no launch. -/
theorem Frame.launched (hf : Frame r s s') {t : Time} (ht : (t, .launched) ∈ s'.log) :
    (t, .launched) ∈ s.log := by
  obtain ⟨l, hlog, habout⟩ := hf.log
  rw [hlog] at ht
  exact (List.mem_append.mp ht).elim (fun hmem => nomatch (habout _ hmem).2) id

/-- The invariant is not touched by what is done to another remote. -/
theorem Kept.of_local (hk : Kept g r s₁ s) (hl : Local r' s s') (hr : r ≠ r') :
    Kept g r s₁ s' := by
  obtain ⟨h, p, q, he, hw⟩ := hk
  refine ⟨h, p, q, he.of_local hl hr, hw.imp (fun hu => ?_) fun hp => hp.of_local hl hr⟩
  exact ⟨hu.1.of_local hl hr, fun t ht => hu.2 t (hl.frame.launched ht)⟩

/-- **A datagram from `r`** that is no quit starts the wait again. -/
theorem Kept.received (hk : Kept g r s₁ s) {call : RecvCall}
    (hquit : ∀ data, call = .wrote data → cStr data ≠ quitMsg) :
    (handleMessage net r call s).Ends (Kept g r s₁) (KeptSince r s₁) := by
  obtain ⟨h, p, q, he, -⟩ := hk
  cases call with
  | failed err => exact he.keptSince
  | wrote data =>
      have he₁ : Entry r s₁.now s₁.log h p q (s.record (.received (cStr data) r)) := by
        refine he.of_log (l := [(s.now, .received (cStr data) r)]) rfl rfl rfl rfl fun e hmem => ?_
        rw [List.mem_singleton.mp hmem]
        exact ⟨Nat.le_refl _, UdpAction.noConfusion⟩
      rw [handleMessage, handleChatMessage, if_neg (hquit data rfl)]
      refine Outcome.Ends.andThen (I := Entry r s₁.now s₁.log h p q) ?_ fun s₂ he₂ => ?_
      · split
        · have hack : Entry r s₁.now s₁.log h p q
              (send net keepAliveAckMsg r (s.record (.received (cStr data) r))).state := by
            refine he₁.of_log (l := [(s.now, .sent keepAliveAckMsg r)]) (peers_send _ _ _)
              (scheduler_send _ _ _) (now_send _ _ _) (log_send _ _ _) fun e hmem => ?_
            rw [List.mem_singleton.mp hmem]
            exact ⟨Nat.le_refl _, UdpAction.noConfusion⟩
          exact (Outcome.ends_of_state hack).imp (fun _ hs => hs) fun _ hs => hs.keptSince
        · exact he₁
      · rw [if_pos he₂.mem]
        obtain ⟨p', hp'⟩ := resetTasks_spec he₂.wf he₂.mem
        -- no launch has seen the new ping: all launches lie in the past
        have he₃ := he₂.restarted hp'
        refine ⟨_, _, _, he₃, .inl ⟨hp'.ping, fun t ht => ?_⟩⟩
        have hpast : t ≤ s₂.now := hp'.now ▸ he₃.past _ ht
        exact Nat.lt_of_le_of_lt hpast (Nat.lt_add_of_pos_right keepAlivePeriod_pos)

/-! ## Launches -/

/-- The invariant inside a launch that started in `s₂`: it is too early for the comm-lost task, and
for the ping unless one went out before. -/
structure Launching (g : Time) (r : IPSocket) (t₁ : Time) (L : List (Time × UdpAction)) (h : Time)
    (p q : T.Ptr) (s₂ s : SocketUdp T) : Prop where
  entry : Entry r t₁ L h p q s
  now : s.now = s₂.now
  notLost : s₂.now < h + commLostDelay
  phase : Unprobed r h p s ∧ s₂.now < h + keepAlivePeriod + g ∨ Probed g r L h s
  polls : ∀ t, (t, .launched) ∈ s.log → (t, .launched) ∈ s₂.log

/-- A task that is due inside the launch is about another remote, or it is the ping of `r`. -/
theorem Launching.due (hL : Launching g r t₁ L h p q s₂ s) (ht : s.enabled x = some t)
    (hdue : t.due ≤ s.now) : r ≠ t.function.remote ∨ x = p ∧ t.function = .ping r := by
  by_cases hf : t.function.remote = r
  · rcases hL.entry.tasks x t ht hf with rfl | rfl
    · exact .inr ⟨rfl, hL.entry.wf.function _ _ _ hL.entry.ping ht⟩
    · -- the comm-lost task is not due inside the launch
      obtain rfl := Option.some.inj (hL.entry.lost.symm.trans ht)
      have hle : h + commLostDelay ≤ s₂.now := hL.now ▸ hdue
      exact absurd hL.notLost (Nat.not_lt_of_le hle)
  · exact .inl fun heq => hf heq.symm

/-- The middle of a launch is not touched by what is done to another remote. -/
theorem Launching.of_local (hL : Launching g r t₁ L h p q s₂ s) (hl : Local r' s s')
    (hr : r ≠ r') : Launching g r t₁ L h p q s₂ s' where
  entry := hL.entry.of_local hl hr
  now := hl.frame.now.trans hL.now
  notLost := hL.notLost
  phase := hL.phase.imp (fun hu => ⟨hu.1.of_local hl hr, hu.2⟩) fun hp => hp.of_local hl hr
  polls := fun t ht => hL.polls t (hl.frame.launched ht)

/-- The keep-alive goes out: from now on a probe is pending. -/
theorem Launching.probed (hL : Launching g r t₁ L h p q s₂ s)
    (hlog : s'.log = (s.now, .sent keepAliveMsg r) :: s.log) : Probed g r L h s' := by
  rcases hL.phase with ⟨-, hnow⟩ | hp
  · obtain ⟨l, hl, -⟩ := hL.entry.log
    refine ⟨[], l, s.now, by rw [hlog, hl, List.nil_append], ?_, ?_⟩
    · exact fun _ _ hmem => nomatch hmem
    rw [hL.now]
    exact hnow
  · refine hp.of_log (l := [(s.now, .sent keepAliveMsg r)]) hlog fun t msg hmem => ?_
    exact nomatch List.mem_singleton.mp hmem

/-- The ping has run and is accounted for. -/
theorem Launching.pinged (hL : Launching g r t₁ L h p q s₂ s) (hl : Local r s s')
    (hpeers : s'.peers = s.peers) (hold : ∀ x, x ≠ p → s'.enabled x = s.enabled x)
    (hlog : s'.log = (s.now, .sent keepAliveMsg r) :: s.log) :
    Launching g r t₁ L h p q s₂ s' where
  entry := by
    have he := hL.entry
    refine ⟨hl.wf, he.past.of_local hl, (handle_congr (by rw [hpeers])).trans he.ping,
      (handle_congr (by rw [hpeers])).trans he.commLost, fun x t ht hf => ?_,
      (hold q he.ne.symm).trans he.lost, ?_, he.entered, hl.frame.now ▸ he.heard⟩
    · by_cases hxp : x = p
      · exact .inl hxp
      · exact he.tasks x t ((hold x hxp).symm.trans ht) hf
    · obtain ⟨l, hl', hno⟩ := he.log
      -- the line of the ping is no loss
      refine ⟨(s.now, .sent keepAliveMsg r) :: l, by rw [hlog, hl', List.cons_append], ?_⟩
      intro t hmem
      rcases List.mem_cons.mp hmem with heq | hmem
      · exact nomatch heq
      · exact hno t hmem
  now := hl.frame.now.trans hL.now
  notLost := hL.notLost
  phase := .inr (hL.probed hlog)
  polls := fun t ht => hL.polls t (hl.frame.launched ht)

/-- What a throw inside a launch leaves. -/
abbrev KeptFrom (r : IPSocket) (L : List (Time × UdpAction)) (s : SocketUdp T) : Prop :=
  r ∈ s.peers ∧ ∃ l, s.log = l ++ L ∧ ∀ t, (t, UdpAction.commLost r) ∉ l

/-- **One task of a launch** keeps the entry. A pending probe stays pending, and the ping of `r`, if
it is the task and due, makes one. -/
theorem Launching.launchTask (hL : Launching g r t₁ L h p q s₂ s) (x : T.Ptr) :
    (launchTask net x s).Ends (fun s' => Launching g r t₁ L h p q s₂ s' ∧
      (Probed g r L h s → Probed g r L h s') ∧
      (x = p → h + keepAlivePeriod ≤ s₂.now → Probed g r L h s')) (KeptFrom r L) := by
  have hlt := launchTask_spec net x s
  generalize SocketUdp.launchTask net x s = o at hlt ⊢
  cases hlt with
  | idle hidle =>
      refine ⟨hL, id, fun hxp hdue => ?_⟩
      -- the ping is enabled and due, so it would not have been passed over
      rcases hL.phase with ⟨hu, -⟩ | hp
      · have hnot : s.now < h + keepAlivePeriod := hidle _ (hxp ▸ hu)
        rw [hL.now] at hnot
        exact absurd hdue (Nat.not_le_of_lt hnot)
      · exact hp
  | threw t s' ht hdue hrun =>
      have hl := local_runFunction net hL.entry.wf t.function
      rw [hrun, Outcome.state_threw] at hl
      rcases hL.due ht hdue with hr | ⟨rfl, hf⟩
      · have he := hL.entry.of_local hl hr
        exact ⟨he.mem, he.log⟩
      · -- `sendto` failed for the ping of `r`
        have hs' : (send net keepAliveMsg r s).state = s' := by
          rw [hf] at hrun
          exact congrArg Outcome.state hrun
        have hr : t.function.remote = r := by rw [hf, UdpTask.remote]
        have hsched : s'.scheduler = s.scheduler := hs' ▸ scheduler_send _ _ _
        have he := (hL.pinged (hr ▸ hl) (hs' ▸ peers_send _ _ _)
          (fun y _ => by rw [enabled, hsched]) (hs' ▸ log_send _ _ _)).entry
        exact ⟨he.mem, he.log⟩
  | ran t s' ht hdue hrun =>
      have hl := local_ran hL.entry.wf ht hdue hrun
      rcases hL.due ht hdue with hr | ⟨rfl, hf⟩
      · refine ⟨hL.of_local hl hr, fun hp => hp.of_local hl hr, fun hxp _ => ?_⟩
        have hf := hL.entry.wf.function _ _ _ hL.entry.ping (hxp ▸ ht)
        exact absurd (by rw [hf, UdpTask.remote]) hr
      · have hs' : (send net keepAliveMsg r s).state = s' := by
          rw [hf] at hrun
          exact congrArg Outcome.state hrun
        have hr : t.function.remote = r := by rw [hf, UdpTask.remote]
        have hsched : s'.scheduler = s.scheduler := hs' ▸ scheduler_send _ _ _
        have hc := complete_spec x s'
        have hlog : (complete x s').log = (s.now, .sent keepAliveMsg r) :: s.log :=
          hc.log.trans (hs' ▸ log_send _ _ _)
        have hL' := hL.pinged (hr ▸ hl) (hc.peers.trans (hs' ▸ peers_send _ _ _))
          (fun y hy => (hc.old y hy).1.trans (by rw [enabled, hsched])) hlog
        exact ⟨hL', fun _ => hL.probed hlog, fun _ _ => hL.probed hlog⟩

/-- **The loop of a launch**, by induction on the tasks it looks at. -/
theorem Launching.forEach (hL : Launching g r t₁ L h p q s₂ s) (order : List T.Ptr) :
    (Outcome.forEach (SocketUdp.launchTask net) order s).Ends
      (fun s' => Launching g r t₁ L h p q s₂ s' ∧
        (Probed g r L h s → Probed g r L h s') ∧
        (p ∈ order → h + keepAlivePeriod ≤ s₂.now → Probed g r L h s')) (KeptFrom r L) := by
  induction order generalizing s with
  | nil => exact ⟨hL, id, fun hmem => nomatch hmem⟩
  | cons x order ih =>
      rw [Outcome.forEach_cons]
      refine (hL.launchTask x).andThen fun s' ⟨hL', hkeep, hself⟩ => ?_
      refine (ih hL').imp (fun s'' ⟨hL'', hkeep', hrest⟩ => ?_) fun _ hs => hs
      refine ⟨hL'', fun hp => hkeep' (hkeep hp), fun hmem hdue => ?_⟩
      rcases List.mem_cons.mp hmem with heq | hmem
      · exact hkeep' (hself heq.symm hdue)
      · exact hrest hmem hdue

/-- **A launch in time** keeps the entry. -/
theorem Kept.launch (hk : Kept g r s₁ s) (hgd : g + d < keepAlivePeriod * keepAliveProbes)
    {order : List T.Ptr} (hposs : s.Possible (.launch order)) (hans : Answered d r s₁ s)
    (hpoll : PolledWithin g s₁ s) :
    (launch net order s).Ends (Kept g r s₁) (KeptSince r s₁) := by
  obtain ⟨h, p, q, he, hw⟩ := hk
  -- a launch in time comes before a probe is overdue
  have hnow : Unprobed r h p s ∧ s.now < h + keepAlivePeriod + g ∨
      Probed g r s₁.log h s ∧ s.now < h + keepAlivePeriod + (g + d) := by
    rcases hw with ⟨hu, hpolls⟩ | hp
    · refine .inl ⟨hu, ?_⟩
      rcases hpoll with ⟨t, ht, hle⟩ | ⟨-, hle⟩
      · exact Nat.lt_of_le_of_lt hle (Nat.add_lt_add_right (hpolls t ht) g)
      · have hlt : s₁.now < h + keepAlivePeriod :=
          Nat.lt_of_le_of_lt he.entered (Nat.lt_add_of_pos_right keepAlivePeriod_pos)
        exact Nat.lt_of_le_of_lt hle (Nat.add_lt_add_right hlt g)
    · obtain ⟨l₁, l₂, t, hlog, hno, hlt⟩ := hp
      refine .inr ⟨⟨l₁, l₂, t, hlog, hno, hlt⟩, ?_⟩
      rw [← Nat.add_assoc]
      rcases hans l₁ l₂ t hlog with hle | ⟨t', msg, hmem, -⟩
      · exact Nat.lt_of_le_of_lt hle (Nat.add_lt_add_right hlt d)
      · exact absurd hmem (hno t' msg)
  -- and so before the comm-lost task is due
  have hlost : s.now < h + commLostDelay := by
    have hle : s.now ≤ h + keepAlivePeriod + (g + d) := by
      rcases hnow with ⟨-, hlt⟩ | ⟨-, hlt⟩
      · exact Nat.le_trans (Nat.le_of_lt hlt) (Nat.add_le_add_left (Nat.le_add_right g d) _)
      · exact Nat.le_of_lt hlt
    rw [commLostDelay_eq, ← Nat.add_assoc]
    exact Nat.lt_of_le_of_lt hle (Nat.add_lt_add_left hgd _)
  have he₂ : Entry r s₁.now s₁.log h p q (s.record .launched) := by
    refine he.of_log (l := [(s.now, .launched)]) rfl rfl rfl rfl fun e hmem => ?_
    rw [List.mem_singleton.mp hmem]
    exact ⟨Nat.le_refl _, UdpAction.noConfusion⟩
  have hp₂ : Probed g r s₁.log h s → Probed g r s₁.log h (s.record .launched) := by
    intro hp
    refine hp.of_log (l := [(s.now, .launched)]) rfl fun t msg hmem => ?_
    exact nomatch List.mem_singleton.mp hmem
  have hL : Launching g r s₁.now s₁.log h p q (s.record .launched) (s.record .launched) := by
    refine ⟨he₂, rfl, hlost, ?_, fun _ ht => ht⟩
    exact hnow.imp id fun hp => hp₂ hp.1
  -- afterwards the ping was not due yet, or the launch has sent it
  refine (hL.forEach order).imp (fun s' ⟨hL', hkeep, hping⟩ => ?_) fun _ hs => hs
  refine ⟨h, p, q, hL'.entry, ?_⟩
  rcases hw with ⟨hu, hpolls⟩ | hp
  · rcases hL'.phase with ⟨hu', -⟩ | hp'
    · by_cases hdue : h + keepAlivePeriod ≤ s.now
      · exact .inr (hping (hposs p _ hu hdue) hdue)
      · refine .inl ⟨hu', fun t ht => ?_⟩
        rcases List.mem_cons.mp (hL'.polls t ht) with heq | ht
        · rw [(Prod.mk.inj heq).1]
          exact Nat.lt_of_not_le hdue
        · exact hpolls t ht
    · exact .inr hp'
  · exact .inr (hkeep (hp₂ hp))

/-! ## Entering -/

/-- An absent remote stays absent over what is done to another. -/
theorem Absent.of_local (ha : Absent r s) (hl : Local r' s s') (hr : r ≠ r') : Absent r s' where
  entry := fun hmem => ha.entry ((hl.frame.mem hr).mp hmem)
  task := fun x t ht hf => ha.task x t ((hl.frame.enabled x t (hf ▸ hr)).mp ht) hf

/-- `r` entered at this very moment. -/
def JustEntered (r : IPSocket) (s : SocketUdp T) : Prop :=
  ∃ p q, Entry r s.now s.log s.now p q s ∧ Unprobed r s.now p s

/-- The log and the moment an entry is counted from may be moved up. -/
theorem Entry.rebase (he : Entry r t₁ L h p q s) (ht : t₁ ≤ h) : Entry r t₁ s.log h p q s :=
  { he with log := ⟨[], rfl, fun _ hmem => nomatch hmem⟩, entered := ht }

/-- An entry just made stays so over what is done to another remote. -/
theorem JustEntered.of_local (hj : JustEntered r s) (hl : Local r' s s') (hr : r ≠ r') :
    JustEntered r s' := by
  obtain ⟨p, q, he, hu⟩ := hj
  refine ⟨p, q, ?_, ?_⟩
  · rw [hl.frame.now]
    exact (he.of_local hl hr).rebase (Nat.le_refl _)
  · rw [hl.frame.now]
    exact hu.of_local hl hr

/-- The state right after an entry is well formed. -/
theorem JustEntered.wf (hj : JustEntered r s) : s.WF := by
  obtain ⟨p, q, he, -⟩ := hj
  exact he.wf

/-- The invariant holds right after an entry. -/
theorem JustEntered.kept (hj : JustEntered r s) : Kept g r s s := by
  obtain ⟨p, q, he, hu⟩ := hj
  refine ⟨s.now, p, q, he, .inl ⟨hu, fun t ht => ?_⟩⟩
  exact Nat.lt_of_le_of_lt (he.past _ ht) (Nat.lt_add_of_pos_right keepAlivePeriod_pos)

/-- A remote that neither the table nor the scheduler knows enters with just its two tasks. -/
theorem Absent.commUp (ha : Absent r s) (hwf : s.WF) (hpast : s.Past) :
    JustEntered r (handleCommUp r s) := by
  obtain ⟨p, q, hc⟩ := handleCommUp_spec r s
  generalize handleCommUp r s = s' at hc ⊢
  have hl : Local r s s' := ⟨hc.wf hwf, hc.frame⟩
  refine ⟨p, q, ⟨hl.wf, hpast.of_local hl, hc.handle_ping ha.entry, hc.handle_commLost ha.entry,
    fun x t ht hf => ?_, hc.now ▸ hc.commLost, ⟨[], rfl, fun _ hmem => nomatch hmem⟩,
    Nat.le_refl _, Nat.le_refl _⟩, hc.now ▸ hc.ping⟩
  by_cases hxp : x = p
  · exact .inl hxp
  · by_cases hxq : x = q
    · exact .inr hxq
    · exact absurd hf (ha.task x t ((hc.old x hxp hxq).1.symm.trans ht))

/-- What survives everything about other remotes survives `connect` for other remotes. -/
theorem connect_of_local {P : SocketUdp T → Prop} {remotes : List IPSocket} (hs : P s)
    (hwf : ∀ s, P s → s.WF) (hP : ∀ s s' r', P s → Local r' s s' → r ≠ r' → P s')
    (hr : r ∉ remotes) : P (connect remotes s) := by
  induction remotes generalizing s with
  | nil => exact hs
  | cons r' rs ih =>
      rw [List.mem_cons, not_or] at hr
      exact ih (hP s _ r' hs (local_handleCommUp (hwf s hs) r') hr.1) hr.2

/-- If `r` is a peer after the event, it entered in it. -/
def Entering (r : IPSocket) (s : SocketUdp T) : Prop := r ∈ s.peers → JustEntered r s

/-- The handles and the log are in order, and `r` is unknown. -/
structure Unknown (r : IPSocket) (s : SocketUdp T) : Prop where
  wf : s.WF
  past : s.Past
  absent : Absent r s

/-- An unknown remote stays unknown over what is done to another. -/
theorem Unknown.of_local (hu : Unknown r s) (hl : Local r' s s') (hr : r ≠ r') : Unknown r s' :=
  ⟨hl.wf, hu.past.of_local hl, hu.absent.of_local hl hr⟩

/-- An unknown remote that is in the table was just entered. -/
theorem Unknown.entering (hu : Unknown r s) : Entering r s := fun hmem =>
  absurd hmem hu.absent.entry

/-- A connect that names an unknown remote once enters it. -/
theorem Unknown.connect {remotes : List IPSocket} (hu : Unknown r s) (hr : remotes.count r ≤ 1) :
    Entering r (connect remotes s) := by
  induction remotes generalizing s with
  | nil => exact hu.entering
  | cons r' rs ih =>
      by_cases heq : r' = r
      · subst heq
        rw [List.count_cons_self] at hr
        -- the rest of the list names others only
        have hnot : r' ∉ rs := List.count_eq_zero.mp (by omega)
        have hj := hu.absent.commUp hu.wf hu.past
        have hrest : JustEntered r' (SocketUdp.connect rs (handleCommUp r' s)) :=
          connect_of_local hj (fun _ h => h.wf) (fun _ _ _ h => h.of_local) hnot
        exact fun _ => hrest
      · rw [List.count_cons_of_ne heq] at hr
        exact ih (hu.of_local (local_handleCommUp hu.wf r') (Ne.symm heq)) hr

/-- A datagram of an unknown remote enters it, unless it throws. -/
theorem Unknown.received (hu : Unknown r s) (call : RecvCall) :
    (handleMessage net r call s).Ends (Entering r) fun _ => True := by
  cases call with
  | failed err => trivial
  | wrote data =>
      have hu₁ : Unknown r (s.record (.received (cStr data) r)) :=
        ⟨hu.wf.congr rfl rfl, hu.past.record _, hu.absent.entry, hu.absent.task⟩
      rw [handleMessage, handleChatMessage]
      split
      · -- a quit from an unknown remote enters nobody
        exact fun hmem => absurd hmem (remove_spec r _).notMem
      · refine Outcome.Ends.andThen (I := Unknown r) ?_ fun s₂ hu₂ => ?_
        · split
          · -- the acknowledgement goes out before the entry is made
            have hl : Local r _ (send net keepAliveAckMsg r
                (s.record (.received (cStr data) r))).state := local_send hu₁.wf keepAliveAckMsg r
            have hack : Unknown r
                (send net keepAliveAckMsg r (s.record (.received (cStr data) r))).state := by
              refine ⟨hl.wf, hu₁.past.of_local hl, ?_, ?_⟩
              · rw [peers_send]
                exact hu.absent.entry
              · intro x t ht
                rw [enabled, scheduler_send] at ht
                exact hu.absent.task x t ht
            exact (Outcome.ends_of_state hack).imp (fun _ hs => hs) fun _ _ => trivial
          · -- any other message sends nothing
            exact hu₁
        · rw [if_neg hu₂.absent.entry]
          exact fun _ => hu₂.absent.commUp hu₂.wf hu₂.past

/-- **How a peer enters**: by a datagram or by a `connect` that names it once. -/
theorem Unknown.step {e : UdpEvent T} (hu : Unknown r s) (hc : ConnectsOnce r e) :
    (SocketUdp.step net s e).Ends (Entering r) fun _ => True := by
  have hlift : ∀ o : Outcome (SocketUdp T), Unknown r o.state →
      o.Ends (Entering r) fun _ => True := fun o ho =>
    (Outcome.ends_of_state ho).imp (fun _ hs => hs.entering) fun _ _ => trivial
  cases e with
  | advance d =>
      refine hlift (.returned _) ⟨hu.wf.congr rfl rfl, ?_, hu.absent.entry, hu.absent.task⟩
      exact fun e he => Nat.le_trans (hu.past e he) (Nat.le_add_right _ _)
  | connect remotes => exact hu.connect hc
  | receive r' call =>
      by_cases hr : r = r'
      · exact hr ▸ hu.received call
      · exact hlift _ (hu.of_local (local_handleMessage hu.wf r' call) hr)
  | launch order =>
      have hu₁ : Unknown r (s.record .launched) :=
        ⟨hu.wf.congr rfl rfl, hu.past.record _, hu.absent.entry, hu.absent.task⟩
      refine hlift _ (Outcome.forEach_state hu₁ fun x _ s₂ hu₂ => ?_)
      rcases local_launchTask net hu₂.wf x with ⟨heq, -⟩ | ⟨t, ht, -, hl⟩
      · rw [heq]
        exact hu₂
      · exact hu₂.of_local hl (hu₂.absent.task x t ht).symm
  | send order msg =>
      refine hlift _ (Outcome.forEach_state hu fun r' hr' s₂ hu₂ => ?_)
      refine hu₂.of_local (local_send hu₂.wf msg r') ?_
      -- a message goes to peers only
      rintro rfl
      exact hu.absent.entry (of_decide_eq_true (List.mem_filter.mp hr').2)

/-! ## Runs -/

/-- The invariant keeps the socket well formed. -/
theorem Kept.wf (hk : Kept g r s₁ s) : s.WF := by
  obtain ⟨h, p, q, he, -⟩ := hk
  exact he.wf

/-- A message to `r` that is not from a launch leaves the tasks alone. -/
theorem Kept.send (hk : Kept g r s₁ s) (msg : ChatMessage) :
    Kept g r s₁ (send net msg r s).state := by
  obtain ⟨h, p, q, he, hw⟩ := hk
  have hlog : (SocketUdp.send net msg r s).state.log = _ := log_send msg r s
  refine ⟨h, p, q, ?_, hw.imp (fun hu => ?_) fun hp => ?_⟩
  · refine he.of_log (l := [(s.now, .sent msg r)]) (peers_send _ _ _) (scheduler_send _ _ _)
      (now_send _ _ _) hlog fun e hmem => ?_
    rw [List.mem_singleton.mp hmem]
    exact ⟨Nat.le_refl _, UdpAction.noConfusion⟩
  · refine ⟨?_, fun t ht => ?_⟩
    · rw [Unprobed, enabled, scheduler_send]
      exact hu.1
    · rw [hlog] at ht
      exact hu.2 t ((List.mem_cons.mp ht).resolve_left (by simp))
  · refine hp.of_log (l := [(s.now, .sent msg r)]) hlog fun t m hmem => ?_
    -- the line is no launch
    exact absurd (List.mem_singleton.mp hmem) (by simp)

/-- The invariant holds while no launch is overdue, so time may pass. -/
theorem Kept.advance (hk : Kept g r s₁ s) (δ : Time) : Kept g r s₁ { s with now := s.now + δ } := by
  obtain ⟨h, p, q, he, hw⟩ := hk
  exact ⟨h, p, q, { he with
    wf := he.wf.congr rfl rfl
    past := fun e hmem => Nat.le_trans (he.past e hmem) (Nat.le_add_right _ _)
    heard := Nat.le_trans he.heard (Nat.le_add_right _ _) }, hw⟩

/-- Every step in which `r` is responsive and the loop polls in time keeps `r`. -/
theorem Kept.step {e : UdpEvent T} (hk : Kept g r s₁ s)
    (hgd : g + d < keepAlivePeriod * keepAliveProbes) (hposs : s.Possible e)
    (hresp : Responsive g d r s₁ s e) :
    (SocketUdp.step net s e).Ends (Kept g r s₁) (KeptSince r s₁) := by
  have hlift : ∀ o : Outcome (SocketUdp T), Kept g r s₁ o.state →
      o.Ends (Kept g r s₁) (KeptSince r s₁) := fun o ho =>
    (Outcome.ends_of_state ho).imp (fun _ hs => hs) fun _ hs => hs.keptSince
  cases e with
  | advance δ => exact hk.advance δ
  | connect remotes =>
      exact connect_of_local hk (fun _ h => h.wf) (fun _ _ _ h => h.of_local)
        (hresp.noConnect remotes rfl)
  | receive r' call =>
      -- only the datagrams of `r` itself touch its tasks
      by_cases hr : r = r'
      · subst hr
        exact hk.received fun data hcall => hresp.noQuit data (by rw [hcall])
      · exact hlift _ (hk.of_local (local_handleMessage hk.wf r' call) hr)
  | launch order => exact hk.launch hgd hposs hresp.answered (hresp.polled order rfl)
  | send order msg =>
      refine hlift _ (Outcome.forEach_state hk fun r' _ s₂ hk₂ => ?_)
      by_cases hr : r = r'
      · exact hr ▸ hk₂.send msg
      · exact hk₂.of_local (local_send hk₂.wf msg r') hr

/-- **A responsive peer is kept**: it stays in the table and its comm-lost task never runs, whatever
other remotes do. -/
theorem keptSince_of_run {es₀ es : List (UdpEvent T)} {ok : SocketUdp T → UdpEvent T → Prop}
    {e₀ : UdpEvent T} (hrun₀ : Runs net ok {} es₀ s₀) (habsent : Absent r s₀)
    (honce : ConnectsOnce r e₀) (henter : step net s₀ e₀ = .returned s₁) (hpeer : r ∈ s₁.peers)
    (hgd : g + d < keepAlivePeriod * keepAliveProbes)
    (hrun : Runs net (Responsive g d r s₁) s₁ es s) : KeptSince r s₁ s := by
  have hunknown : Unknown r s₀ := ⟨WF.init.of_run hrun₀, past_of_run hrun₀, habsent⟩
  have hentering : (step net s₀ e₀).Ends (Entering r) fun _ => True := hunknown.step honce
  rw [henter] at hentering
  have hkept : Kept g r s₁ s₁ := (hentering hpeer).kept
  exact hrun.invariant hkept (fun _ hk => hk.keptSince) fun _ _ hk hok => hk.step hgd hok.1 hok.2

/-- Keep-alives at most `d` ago need no answer yet. -/
theorem answered_of_recent (hrecent : ∀ e ∈ s.log, e.2 = .sent keepAliveMsg r → s.now ≤ e.1 + d) :
    Answered d r s₁ s := by
  intro l₁ l₂ t hlog
  refine .inl (hrecent (t, .sent keepAliveMsg r) ?_ rfl)
  rw [hlog]
  exact List.mem_append_right l₁ List.mem_cons_self

/-- A message from `r` answers the keep-alives that lie before it, if it came in time. -/
theorem answered_of_received (t' : Time) (msg : ChatMessage) {l old : List (Time × UdpAction)}
    (hlog : s.log = l ++ old)
    (hrecent : ∀ e ∈ l, e.2 = .sent keepAliveMsg r → s.now ≤ e.1 + d)
    (hanswer : (t', .received msg r) ∈ l)
    (hintime : ∀ e ∈ old, e.2 = .sent keepAliveMsg r → t' ≤ e.1 + d) : Answered d r s₁ s := by
  have hold : ∀ {t : Time} {l₁ : List (Time × UdpAction)}, l ⊆ l₁ →
      (t, .sent keepAliveMsg r) ∈ old → ∃ t' msg, (t', .received msg r) ∈ l₁ ∧ t' ≤ t + d :=
    fun hsub hmem => ⟨t', msg, hsub hanswer, hintime _ hmem rfl⟩
  intro l₁ l₂ t hsplit
  rcases List.append_eq_append_iff.mp (hlog.symm.trans hsplit) with
    ⟨m, rfl, hm⟩ | ⟨m, hl, hm⟩
  · refine .inr (hold (List.subset_append_left l m) ?_)
    rw [hm]
    exact List.mem_append_right m List.mem_cons_self
  · cases m with
    | nil =>
        rw [List.append_nil] at hl
        refine .inr (hold (hl ▸ List.Subset.refl _) ?_)
        rw [← List.nil_append old, ← hm]
        exact List.mem_cons_self
    | cons x m =>
        -- the keep-alive is behind the answer, so it is a recent one
        obtain ⟨rfl, -⟩ := List.cons.inj hm
        refine .inl (hrecent (t, .sent keepAliveMsg r) ?_ rfl)
        rw [hl]
        exact List.mem_append_right l₁ List.mem_cons_self

/-- A peer heard of at 0, 1.9 and 3.8 s is sent its first keep-alive at 4.9 s. It answers at 5.4 s,
and is still kept when the answer would be late. -/
theorem keptSince_talkative : ∃ s₁ s : SocketUdp (.table UdpTask), s.now = 6000000000 ∧
    (4900000000, .sent keepAliveMsg sampleRemote) ∈ s.log ∧ KeptSince sampleRemote s₁ s := by
  have hrun : ∃ s₀ s₁ s : SocketUdp (.table UdpTask), s.now = 6000000000 ∧
      (4900000000, .sent keepAliveMsg sampleRemote) ∈ s.log ∧
      Absent sampleRemote s₀ ∧ sampleRemote ∈ s₁.peers ∧
      Runs (fun _ => true) (fun _ _ => True) {} [.launch (List.range 0)] s₀ ∧
      step (fun _ => true) s₀ (.receive sampleRemote (.wrote (ascii "hi"))) = .returned s₁ ∧
      Runs (fun _ => true) (Responsive (seconds 2) 900000000 sampleRemote s₁) s₁
        [.advance 1900000000, .receive sampleRemote (.wrote (ascii "hi")), .launch (List.range 2),
          .advance 1900000000, .receive sampleRemote (.wrote (ascii "hi")), .launch (List.range 2),
          .advance 1100000000, .launch (List.range 2), .advance 500000000,
          .receive sampleRemote (.wrote keepAliveAckMsg), .advance 600000000,
          .launch (List.range 2)] s := by
    -- each event of the run is responsive
    have hadvance : ∀ (s₁ s : SocketUdp (.table UdpTask)) δ, Answered 900000000 sampleRemote s₁ s →
        Responsive (seconds 2) 900000000 sampleRemote s₁ s (.advance δ) :=
      fun _ _ _ ha => ⟨ha, fun _ => nofun, fun _ => nofun, fun _ => nofun⟩
    have hreceive : ∀ (s₁ s : SocketUdp (.table UdpTask)) data, cStr data ≠ quitMsg →
        Answered 900000000 sampleRemote s₁ s →
        Responsive (seconds 2) 900000000 sampleRemote s₁ s
          (.receive sampleRemote (.wrote data)) := by
      refine fun _ _ data hne ha => ⟨ha, fun _ => nofun, fun _ => nofun, fun data' hdata => ?_⟩
      cases hdata
      exact hne
    have hlaunch : ∀ (s₁ s : SocketUdp (.table UdpTask)) order t, (t, .launched) ∈ s.log →
        s.now ≤ t + seconds 2 → Answered 900000000 sampleRemote s₁ s →
        Responsive (seconds 2) 900000000 sampleRemote s₁ s (.launch order) :=
      fun _ _ _ t ht hle ha => ⟨ha, fun _ _ => .inl ⟨t, ht, hle⟩, fun _ => nofun, fun _ => nofun⟩
    refine ⟨_, _, _, ?_, ?_, ⟨?_, fun p t ht => ?_⟩, ?_,
      .cons ⟨possible_launch_range _, trivial⟩ rfl (.nil _), rfl,
      .cons ⟨trivial, hadvance _ _ _ (answered_of_recent ?_)⟩ rfl
      (.cons ⟨trivial, hreceive _ _ _ ?_ (answered_of_recent ?_)⟩ rfl
      (.cons ⟨possible_launch_range _, hlaunch _ _ _ 0 ?_ ?_ (answered_of_recent ?_)⟩ rfl
      (.cons ⟨trivial, hadvance _ _ _ (answered_of_recent ?_)⟩ rfl
      (.cons ⟨trivial, hreceive _ _ _ ?_ (answered_of_recent ?_)⟩ rfl
      (.cons ⟨possible_launch_range _, hlaunch _ _ _ 1900000000 ?_ ?_ (answered_of_recent ?_)⟩ rfl
      (.cons ⟨trivial, hadvance _ _ _ (answered_of_recent ?_)⟩ rfl
      (.cons ⟨possible_launch_range _, hlaunch _ _ _ 3800000000 ?_ ?_ (answered_of_recent ?_)⟩ rfl
      (.cons ⟨trivial, hadvance _ _ _ (answered_of_recent ?_)⟩ rfl
      (.cons ⟨trivial, hreceive _ _ _ ?_ (answered_of_recent ?_)⟩ rfl
      (.cons ⟨trivial, hadvance _ _ _ (answered_of_recent ?_)⟩ rfl
      (.cons ⟨possible_launch_range _, hlaunch _ _ _ 4900000000 ?_ ?_
        (answered_of_received 5400000000 keepAliveAckMsg (List.take_append_drop 1 _).symm
          ?_ ?_ ?_)⟩ rfl
      (.nil _))))))))))))⟩
    · rfl
    · decide
    · decide
    · exact absurd ht (Option.some_ne_none t).symm
    all_goals decide
  obtain ⟨s₀, s₁, s, hnow, hlog, habsent, hpeer, hrun₀, henter, hrun₁⟩ := hrun
  have honce : ConnectsOnce (T := .table UdpTask) sampleRemote
      (.receive sampleRemote (.wrote (ascii "hi"))) := trivial
  exact ⟨s₁, s, hnow, hlog, keptSince_of_run hrun₀ habsent honce henter hpeer (by decide) hrun₁⟩

end SocketUdp

end SctpSandbox

import Mathlib.Data.Set.Card
import SctpSandbox.Udp.Frame
import SctpSandbox.Udp.Network

/-! # Peers do not interfere

What a datagram does depends on its sender's part of the state only, and changes nothing else: the
entry of the sender, the tasks behind its two handles, and the answer to a keep-alive message. So
two datagrams from different senders can be handled in either order (`independent_of_run`). The
orders differ in the pointers that the scheduler hands out, so tasks are compared by what they do
and when they are due. -/

namespace SctpSandbox

namespace SocketUdp

variable {T : TaskScheduler UdpTask} {net : ℕ → Bool} {s s' : SocketUdp T} {r : IPSocket}
  {f : UdpTask} {p q x : T.Ptr} {t : ScheduledTask UdpTask} {msg : ChatMessage}

/-- The enabled task that the entry of its remote holds for `f`. -/
def held (s : SocketUdp T) (f : UdpTask) : Option (ScheduledTask UdpTask) :=
  (s.handle f).bind s.enabled

/-- The pointers to the enabled tasks that are equal to `t`. -/
def tasksLike (s : SocketUdp T) (t : ScheduledTask UdpTask) : Set T.Ptr :=
  {x | s.enabled x = some t}

/-- Those of them that no entry holds. -/
def strays (s : SocketUdp T) (t : ScheduledTask UdpTask) : Set T.Ptr :=
  {x | s.enabled x = some t ∧ ∀ f, s.handle f ≠ some x}

/-- The datagrams sent, the newest first. -/
def datagrams (s : SocketUdp T) : List (ChatMessage × IPSocket) := s.log.filterMap sentLine

/-- What an entry holds is the task behind its handle. -/
theorem held_of_handle (h : s.handle f = some x) : s.held f = s.enabled x := by
  rw [held, h, Option.bind_some]

/-- Without a handle nothing is held. -/
theorem held_of_none (h : s.handle f = none) : s.held f = none := by
  rw [held, h, Option.bind_none]

/-- A task that an entry holds is held for what it does. -/
theorem WF.held_function (h : s.WF) (hx : s.handle f = some x) (ht : s.enabled x = some t) :
    s.held t.function = some t := by
  rw [h.function f x t hx ht, held_of_handle hx, ht]

/-- **The tasks that are equal to `t`**: those that no entry holds, and at most one that is held. -/
theorem WF.encard_tasksLike (h : s.WF) (t : ScheduledTask UdpTask) : (s.tasksLike t).encard =
    (s.strays t).encard + if s.held t.function = some t then 1 else 0 := by
  by_cases hheld : s.held t.function = some t
  · obtain ⟨x, hx, ht⟩ := Option.bind_eq_some_iff.mp hheld
    have hsplit : s.tasksLike t = insert x (s.strays t) := by
      ext y
      refine ⟨fun hy => ?_, ?_⟩
      · by_cases hyx : y = x
        · exact .inl hyx
        · refine .inr ⟨hy, fun f hf => hyx ?_⟩
          -- it would be held for the same as `x`
          rw [← h.function f y t hf hy, hx] at hf
          exact (Option.some.inj hf).symm
      · rintro (rfl | hy)
        · exact ht
        · exact hy.1
    rw [hsplit, Set.encard_insert_of_notMem fun hmem => hmem.2 _ hx, if_pos hheld]
  · have hsame : s.tasksLike t = s.strays t := by
      ext y
      exact ⟨fun hy => ⟨hy, fun f hf => hheld (h.held_function hf hy)⟩, fun hy => hy.1⟩
    rw [hsame, if_neg hheld, add_zero]

/-! ## What a datagram does -/

/-- The comm-lost task of an entry, after something was heard of its remote at `now`. A task that
has run is not scheduled again. -/
def commLostAfter (r : IPSocket) (s : SocketUdp T) : Option (ScheduledTask UdpTask) :=
  if r ∈ s.peers then (s.held (.commLost r)).map fun _ => (UdpTask.commLost r).started s.now
  else some ((UdpTask.commLost r).started s.now)

/-- A datagram other than a quit message takes `s` to `s'`. -/
structure Entered (r : IPSocket) (s s' : SocketUdp T) : Prop where
  mem : r ∈ s'.peers
  ping : s'.held (.ping r) = some ((UdpTask.ping r).started s.now)
  commLost : s'.held (.commLost r) = commLostAfter r s
  strays : ∀ t, s'.strays t = s.strays t

/-- A restart of a known peer leaves it as one just entered. -/
theorem Restarted.entered (hr : r ∈ s.peers) (h : Restarted r s s' p) :
    Entered r s s' := by
  have hhandle : ∀ f, f.remote ≠ r → s'.handle f = s.handle f := fun f hf =>
    handle_congr (h.lookup _ hf)
  refine ⟨(h.mem r).mpr hr, ?_, ?_, fun t => ?_⟩
  · rw [held_of_handle h.handle_ping, h.ping]
  · rw [commLostAfter, if_pos hr]
    cases hq : s.handle (.commLost r) with
    | none => rw [held_of_none (h.handle_commLost.trans hq), held_of_none hq, Option.map_none]
    | some q =>
        rw [held_of_handle (h.handle_commLost.trans hq), held_of_handle hq, h.commLost q hq]
  · ext x
    constructor
    · rintro ⟨ht, hno⟩
      have hxp : x ≠ p := by
        rintro rfl
        exact hno _ h.handle_ping
      have hxq : s.handle (.commLost r) ≠ some x := h.handle_commLost ▸ hno (.commLost r)
      have ht' := (h.old x hxp hxq).1.symm.trans ht
      refine ⟨ht', fun f hf => ?_⟩
      by_cases hfr : f.remote = r
      · rcases eq_of_remote hfr with rfl | rfl | rfl
        · -- a ping task that was replaced is not enabled
          exact absurd ((h.replaced x hf hxp).symm.trans ht') (by simp)
        · exact hxq hf
        · simp at hf
      · exact hno f ((hhandle f hfr).trans hf)
    · rintro ⟨ht, hno⟩
      have hxp : x ≠ p := by
        rintro rfl
        -- the new ping task is the old one or newly issued
        exact h.origin.elim (hno _) fun hp => hp (T.issued_of_enabled _ _ _ ht)
      refine ⟨(h.old x hxp (hno _)).1.trans ht, fun f hf => ?_⟩
      by_cases hfr : f.remote = r
      · rcases eq_of_remote hfr with rfl | rfl | rfl
        · exact hxp (Option.some.inj (h.handle_ping.symm.trans hf)).symm
        · exact hno _ (h.handle_commLost.symm.trans hf)
        · simp at hf
      · exact hno f ((hhandle f hfr).symm.trans hf)

/-- The entry of a new peer leaves it as one just entered. -/
theorem CommUp.entered (hr : r ∉ s.peers) (h : CommUp r s s' p q) : Entered r s s' := by
  have hhandle : ∀ f, f.remote ≠ r → s'.handle f = s.handle f := fun f hf =>
    handle_congr (h.lookup _ hf)
  have hnone : ∀ f, f.remote = r → s.handle f = none := fun f hf => handle_of_notMem (hf ▸ hr)
  refine ⟨h.mem, ?_, ?_, fun t => ?_⟩
  · rw [held_of_handle (h.handle_ping hr), h.ping]
  · rw [held_of_handle (h.handle_commLost hr), h.commLost, commLostAfter, if_neg hr]
  · ext x
    constructor
    · rintro ⟨ht, hno⟩
      have hxp : x ≠ p := fun hxp => hno _ (hxp ▸ h.handle_ping hr)
      have hxq : x ≠ q := fun hxq => hno _ (hxq ▸ h.handle_commLost hr)
      refine ⟨(h.old x hxp hxq).1.symm.trans ht, fun f hf => ?_⟩
      by_cases hfr : f.remote = r
      · exact absurd ((hnone f hfr).symm.trans hf) (by simp)
      · exact hno f ((hhandle f hfr).trans hf)
    · rintro ⟨ht, hno⟩
      have hissued := T.issued_of_enabled _ _ _ ht
      -- both tasks are new, and a stray was issued before
      have hxp : x ≠ p := fun hxp => h.fresh_ping (hxp ▸ hissued)
      have hxq : x ≠ q := fun hxq => h.fresh_commLost (hxq ▸ hissued)
      refine ⟨(h.old x hxp hxq).1.trans ht, fun f hf => ?_⟩
      by_cases hfr : f.remote = r
      · rcases eq_of_remote hfr with rfl | rfl | rfl
        · exact hxp (Option.some.inj ((h.handle_ping hr).symm.trans hf)).symm
        · exact hxq (Option.some.inj ((h.handle_commLost hr).symm.trans hf)).symm
        · simp at hf
      · exact hno f ((hhandle f hfr).symm.trans hf)

/-- A removal stops the tasks that the entry holds, and no other. -/
theorem Removed.strays (h : Removed r s s') (t : ScheduledTask UdpTask) :
    s'.strays t = s.strays t := by
  ext x
  -- no stray owns a task of the entry removed
  constructor
  · rintro ⟨ht, hno⟩
    obtain ⟨ht', hown⟩ := h.enabled_of_enabled ht
    refine ⟨ht', fun f hf => ?_⟩
    by_cases hfr : f.remote = r
    · exact hown f hfr hf
    · exact hno f ((handle_congr (h.lookup _ hfr)).trans hf)
  · rintro ⟨ht, hno⟩
    refine ⟨(h.old x fun f _ => hno f).1.trans ht, fun f hf => ?_⟩
    by_cases hfr : f.remote = r
    · exact absurd ((h.handle_eq_none hfr).symm.trans hf) (by simp)
    · exact hno f ((handle_congr (h.lookup _ hfr)).symm.trans hf)

/-- The datagram `msg` from `r`, handled while `sendto` succeeds, takes `s` to `s'`. -/
structure Responded (msg : ChatMessage) (r : IPSocket) (s s' : SocketUdp T) : Prop where
  isLocal : Local r s s'
  mem : r ∈ s'.peers ↔ msg ≠ quitMsg
  ping : s'.held (.ping r) = if msg = quitMsg then none else some ((UdpTask.ping r).started s.now)
  commLost : s'.held (.commLost r) = if msg = quitMsg then none else commLostAfter r s
  strays : ∀ t, s'.strays t = s.strays t
  datagrams : s'.datagrams =
    (if msg = keepAliveMsg then [(keepAliveAckMsg, r)] else []) ++ s.datagrams

/-- `sendto` succeeds. -/
def sendtoOk : ℕ → Bool := fun _ => true

/-- What the log says, and how often `sendto` was called, plays no role. -/
theorem Entered.congr {s₁ : SocketUdp T} (h : Entered r s₁ s') (hpeers : s₁.peers = s.peers)
    (hscheduler : s₁.scheduler = s.scheduler) (hnow : s₁.now = s.now) : Entered r s s' := by
  have hheld : s₁.held (.commLost r) = s.held (.commLost r) := by
    rw [held, held, handle, handle, hpeers]
    simp only [enabled, hscheduler]
  refine ⟨h.mem, ?_, ?_, fun t => ?_⟩
  · rw [h.ping, hnow]
  · rw [h.commLost, commLostAfter, commLostAfter, hpeers, hheld, hnow]
  · rw [h.strays]
    simp only [SocketUdp.strays, handle, enabled, hpeers, hscheduler]

/-- The table and the timers behind a message that is no quit message. -/
theorem entered_known_or_new (h : s.WF) (r : IPSocket) :
    ∃ s', (if r ∈ s.peers then Outcome.returned (resetTasks r s)
      else .returned (handleCommUp r s)) = .returned s' ∧ Entered r s s' := by
  by_cases hr : r ∈ s.peers
  · obtain ⟨p, hp⟩ := resetTasks_spec h hr
    exact ⟨_, if_pos hr, hp.entered hr⟩
  · obtain ⟨p, q, hpq⟩ := handleCommUp_spec r s
    exact ⟨_, if_neg hr, hpq.entered hr⟩

/-- A message that is no quit message enters its sender, also behind an answer. -/
theorem handleMessage_entered (h : s.WF) (r : IPSocket) {data : List Byte}
    (hquit : cStr data ≠ quitMsg) :
    ∃ s', handleMessage sendtoOk r (.wrote data) s = .returned s' ∧ Entered r s s' := by
  let s₀ := s.record (.received (cStr data) r)
  rw [handleMessage, handleChatMessage, if_neg hquit]
  -- the acknowledgement goes out before the entry is made
  by_cases hka : cStr data = keepAliveMsg
  · let s₁ : SocketUdp T :=
      { s₀.record (.sent keepAliveAckMsg r) with sends := s₀.sends + 1 }
    have hsend : send sendtoOk keepAliveAckMsg r s₀ = .returned s₁ := rfl
    rw [if_pos hka, hsend, Outcome.andThen_returned]
    obtain ⟨s', hs', hentered⟩ := entered_known_or_new (s := s₁) (h.congr rfl rfl) r
    exact ⟨s', hs', hentered.congr rfl rfl rfl⟩
  · rw [if_neg hka, Outcome.andThen_returned]
    obtain ⟨s', hs', hentered⟩ := entered_known_or_new (s := s₀) (h.congr rfl rfl) r
    exact ⟨s', hs', hentered.congr rfl rfl rfl⟩

/-- A datagram is answered when it is a keep-alive, and sends nothing else. -/
theorem datagrams_handleMessage (net : ℕ → Bool) (r : IPSocket) (data : List Byte)
    (s : SocketUdp T) : (handleMessage net r (.wrote data) s).state.datagrams =
      (if cStr data = keepAliveMsg then [(keepAliveAckMsg, r)] else []) ++ s.datagrams := by
  obtain ⟨new, hnew, hlog⟩ := log_handleChatMessage net (cStr data) r
    (s.record (.received (cStr data) r))
  -- after the datagram's own lines nothing is sent
  have hquiet : new.filterMap sentLine = [] := List.filterMap_eq_nil_iff.mpr hnew
  rw [datagrams, handleMessage, hlog, List.filterMap_append, hquiet, List.nil_append,
    List.filterMap_append]
  have hrest : (s.record (.received (cStr data) r)).log.filterMap sentLine = s.datagrams := rfl
  rw [hrest]
  by_cases hka : cStr data = keepAliveMsg
  · rw [if_pos hka, if_pos hka]
    rfl
  · rw [if_neg hka, if_neg hka]
    rfl

/-- **What a datagram does**, told by its sender's part of the state. -/
theorem responded_handleMessage (h : s.WF) (r : IPSocket) (data : List Byte) :
    ∃ s', handleMessage sendtoOk r (.wrote data) s = .returned s' ∧
      Responded (cStr data) r s s' := by
  have hlocal : Local r s (handleMessage sendtoOk r (.wrote data) s).state :=
    local_handleMessage h r _
  have hsent := datagrams_handleMessage sendtoOk r data s
  by_cases hquit : cStr data = quitMsg
  · have hend : handleMessage sendtoOk r (.wrote data) s =
        .returned (remove r (s.record (.received (cStr data) r))) := by
      rw [handleMessage, handleChatMessage, if_pos hquit]
      rfl
    have hremoved := remove_spec r (s.record (.received (cStr data) r))
    rw [hend] at hlocal hsent
    refine ⟨_, hend, hlocal, ?_, ?_, ?_, hremoved.strays, hsent⟩
    · exact iff_of_false hremoved.notMem (not_not_intro hquit)
    · rw [if_pos hquit, held_of_none (hremoved.handle_eq_none rfl)]
    · rw [if_pos hquit, held_of_none (hremoved.handle_eq_none rfl)]
  · obtain ⟨s', hs', hentered⟩ := handleMessage_entered h r hquit
    rw [hs'] at hlocal hsent
    -- any other datagram leaves its sender in the table with both tasks started now
    refine ⟨s', hs', hlocal, iff_of_true hentered.mem hquit, ?_, ?_, hentered.strays, hsent⟩
    · rw [if_neg hquit, hentered.ping]
    · rw [if_neg hquit, hentered.commLost]

/-! ## Two senders -/

/-- What concerns `r` is the same in two states, up to the pointers of its tasks. -/
structure AlikeAt (r : IPSocket) (s s' : SocketUdp T) : Prop where
  mem : r ∈ s.peers ↔ r ∈ s'.peers
  held : ∀ f, f.remote = r → s.held f = s'.held f

/-- The same remotes are in the table, their entries hold tasks with the same deadlines, there are
as many enabled tasks of every kind with every deadline, and the same datagrams were sent. -/
structure Alike (s s' : SocketUdp T) : Prop where
  peers : ∀ r, r ∈ s.peers ↔ r ∈ s'.peers
  held : ∀ f, s.held f = s'.held f
  tasks : ∀ t, (s.tasksLike t).encard = (s'.tasksLike t).encard
  sent : s.datagrams.Perm s'.datagrams

variable {s₁ s₁' : SocketUdp T} {r₁ r₂ : IPSocket}

/-- Likeness at a remote is symmetric. -/
theorem AlikeAt.symm (h : AlikeAt r s s') : AlikeAt r s' s :=
  ⟨h.mem.symm, fun f hf => (h.held f hf).symm⟩

/-- Likeness at a remote is transitive. -/
theorem AlikeAt.trans (h : AlikeAt r s s') (h' : AlikeAt r s' s₁) : AlikeAt r s s₁ :=
  ⟨h.mem.trans h'.mem, fun f hf => (h.held f hf).trans (h'.held f hf)⟩

/-- A datagram from another remote changes nothing about `r`. -/
theorem Local.alikeAt (h : Local r₁ s s') (hwf : s.WF) (hr : r ≠ r₁) : AlikeAt r s s' := by
  refine ⟨(h.frame.mem hr).symm, fun f hf => ?_⟩
  have hhandle : s'.handle f = s.handle f := h.frame.handle (hf ▸ hr)
  cases hx : s.handle f with
  | none => rw [held_of_none hx, held_of_none (hhandle.trans hx)]
  | some x =>
      have hx' := hhandle.trans hx
      rw [held_of_handle hx, held_of_handle hx']
      -- the task behind a handle of `r` is about `r`
      refine Option.ext fun t => ⟨fun ht => ?_, fun ht => ?_⟩
      · refine (h.frame.enabled x t ?_).mpr ht
        rwa [hwf.function f x t hx ht, hf]
      · refine (h.frame.enabled x t ?_).mp ht
        rwa [h.wf.function f x t hx' ht, hf]

/-- **A datagram does the same in states that agree about its sender.** -/
theorem Responded.alikeAt (h : Responded msg r s s') (h₁ : Responded msg r s₁ s₁')
    (hs : AlikeAt r s s₁) (hnow : s₁.now = s.now) : AlikeAt r s' s₁' := by
  refine ⟨h.mem.trans h₁.mem.symm, fun f hf => ?_⟩
  rcases eq_of_remote hf with rfl | rfl | rfl
  · rw [h.ping, h₁.ping, hnow]
  · have hafter : commLostAfter r s₁ = commLostAfter r s := by
      simp only [commLostAfter, hs.mem, hs.held (.commLost r) rfl, hnow]
    rw [h.commLost, h₁.commLost, hafter]
  · rw [held_of_none (handle_reconnect s' r), held_of_none (handle_reconnect s₁' r)]

/-- **Peers do not interfere**: two datagrams from different remotes, handled at one time in either
order, leave the same behind; and whatever arrives from a remote, the entries and the tasks of all
others stay as they are. -/
theorem independent_of_run {es : List (UdpEvent T)}
    (hrun : Run (step net) (fun _ _ => True) {} es s) :
    (∀ r₁ r₂ data₁ data₂, r₁ ≠ r₂ → ∃ s₁₂ s₂₁,
      (handleMessage sendtoOk r₁ (.wrote data₁) s).andThen
        (handleMessage sendtoOk r₂ (.wrote data₂)) = .returned s₁₂ ∧
      (handleMessage sendtoOk r₂ (.wrote data₂) s).andThen
        (handleMessage sendtoOk r₁ (.wrote data₁)) = .returned s₂₁ ∧ Alike s₁₂ s₂₁) ∧
    ∀ (net' : ℕ → Bool) r₁ call r, r ≠ r₁ →
      (handleMessage net' r₁ call s).state.peers.lookup r = s.peers.lookup r ∧
      ∀ x t, t.function.remote = r →
        ((handleMessage net' r₁ call s).state.enabled x = some t ↔ s.enabled x = some t) := by
  have hwf : s.WF := hrun.invariant_state WF.init fun _ e h _ => wf_step h e
  refine ⟨fun r₁ r₂ data₁ data₂ hne => ?_, fun net' r₁ call r hr => ?_⟩
  · obtain ⟨s₁, hs₁, h₁⟩ := responded_handleMessage hwf r₁ data₁
    obtain ⟨s₂, hs₂, h₂⟩ := responded_handleMessage hwf r₂ data₂
    obtain ⟨s₁₂, hs₁₂, h₁₂⟩ := responded_handleMessage h₁.isLocal.wf r₂ data₂
    obtain ⟨s₂₁, hs₂₁, h₂₁⟩ := responded_handleMessage h₂.isLocal.wf r₁ data₁
    refine ⟨s₁₂, s₂₁, by rw [hs₁, Outcome.andThen_returned, hs₁₂],
      by rw [hs₂, Outcome.andThen_returned, hs₂₁], ?_⟩
    -- the orders agree about each remote
    have halike : ∀ r, AlikeAt r s₁₂ s₂₁ := by
      intro r
      by_cases hr₁ : r = r₁
      · subst hr₁
        have hsame := h₁.alikeAt h₂₁ (h₂.isLocal.alikeAt hwf hne) h₂.isLocal.frame.now
        exact (h₁₂.isLocal.alikeAt h₁.isLocal.wf hne).symm.trans hsame
      · by_cases hr₂ : r = r₂
        · subst hr₂
          have hsame := h₂.alikeAt h₁₂ (h₁.isLocal.alikeAt hwf hr₁) h₁.isLocal.frame.now
          exact hsame.symm.trans (h₂₁.isLocal.alikeAt h₂.isLocal.wf hr₁)
        · have hfirst := (h₁.isLocal.alikeAt hwf hr₁).trans (h₁₂.isLocal.alikeAt h₁.isLocal.wf hr₂)
          have hsecond := (h₂.isLocal.alikeAt hwf hr₂).trans (h₂₁.isLocal.alikeAt h₂.isLocal.wf hr₁)
          exact hfirst.symm.trans hsecond
    have hheld : ∀ f, s₁₂.held f = s₂₁.held f := fun f => (halike f.remote).held f rfl
    refine ⟨fun r => (halike r).mem, hheld, fun t => ?_, ?_⟩
    · rw [h₁₂.isLocal.wf.encard_tasksLike, h₂₁.isLocal.wf.encard_tasksLike, hheld, h₁₂.strays,
        h₁.strays, h₂₁.strays, h₂.strays]
    · rw [h₁₂.datagrams, h₁.datagrams, h₂₁.datagrams, h₂.datagrams, ← List.append_assoc,
        ← List.append_assoc]
      exact List.perm_append_comm.append_right _
  · have hlocal : Local r₁ s (handleMessage net' r₁ call s).state := local_handleMessage hwf r₁ call
    exact ⟨hlocal.frame.lookup r hr, fun x t ht => hlocal.frame.enabled x t (ht ▸ hr)⟩

/-- A second remote. -/
def otherRemote : IPSocket := { sampleRemote with port := 5001 }

/-- A quit message of the one peer, and a keep-alive message of somebody new. -/
theorem independent_sample : ∃ s₁₂ s₂₁ : SocketUdp (.table UdpTask),
    (handleMessage sendtoOk sampleRemote (.wrote (ascii "q"))
        (handleCommUp sampleRemote {})).andThen
      (handleMessage sendtoOk otherRemote (.wrote (ascii "ka"))) = .returned s₁₂ ∧
    (handleMessage sendtoOk otherRemote (.wrote (ascii "ka"))
        (handleCommUp sampleRemote {})).andThen
      (handleMessage sendtoOk sampleRemote (.wrote (ascii "q"))) = .returned s₂₁ ∧
    Alike s₁₂ s₂₁ := by
  have hrun : Run (step sendtoOk) (fun _ _ => True) ({} : SocketUdp (.table UdpTask))
      [.connect [sampleRemote]] (handleCommUp sampleRemote {}) := .cons trivial rfl (.nil _)
  exact (independent_of_run hrun).1 sampleRemote otherRemote _ _ (by decide)

end SocketUdp

end SctpSandbox

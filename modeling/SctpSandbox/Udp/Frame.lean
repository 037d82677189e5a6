import SctpSandbox.Udp.Effects

/-! # What holds across all operations of `SocketUdp`

Two facts about every operation. The handles of the peer table stay in order (`WF`), in every run
whatever its events. And an operation about one remote leaves the entry, the tasks and the log
lines of every other remote alone (`Frame`), so what is known of one remote survives the traffic of
the others. -/

namespace SctpSandbox

/-- The remote a log line is about. -/
def UdpAction.remote : UdpAction → Option IPSocket
  | .sent _ remote => some remote
  | .received _ remote => some remote
  | .commUp remote => some remote
  | .commLost remote => some remote
  | .launched => none

namespace SocketUdp

variable {T : TaskScheduler UdpTask} {net : ℕ → Bool} {s s' s'' : SocketUdp T}
  {r r' : IPSocket} {f g : UdpTask} {p q x : T.Ptr} {t : ScheduledTask UdpTask}

/-! ## Handles in order -/

/-- What an operation may do with the task behind a handle it leaves in the table. -/
inductive HandleStep (s s' : SocketUdp T) (f : UdpTask) (p : T.Ptr) : Prop
  /-- Nothing. -/
  | kept (old : s.handle f = some p) (enabled : s'.enabled p = s.enabled p)
      (alive : s'.alive p = s.alive p)
  /-- The task has run for the last time. -/
  | gone (old : s.handle f = some p) (enabled : s'.enabled p = none) (alive : s'.alive p = false)
  /-- The task waits for its next run, under the handle kept before or under a new pointer. -/
  | waiting (origin : s.handle f = some p ∨ ¬ s.issued p) (issued : s'.issued p)
      (t : ScheduledTask UdpTask) (enabled : s'.enabled p = some t) (function : t.function = f)

/-- The handles stay in order when every handle left in the table made such a step. -/
theorem WF.of_handleStep (h : s.WF)
    (hshape : ∀ p t, s'.enabled p = some t → s.enabled p = some t ∨
      t.delay = t.function.delay ∧ t.repetitions = t.function.repetitions ∧ t.left ≤ t.repetitions)
    (hissued : ∀ x, s.issued x → s'.issued x)
    (hhandle : ∀ f p, s'.handle f = some p → HandleStep s s' f p) : s'.WF where
  shape := fun p t ht => (hshape p t ht).elim (h.shape p t) id
  issued := by
    intro f p hp
    cases hhandle f p hp with
    | kept old _ _ => exact hissued p (h.issued f p old)
    | gone old _ _ => exact hissued p (h.issued f p old)
    | waiting _ issued _ _ _ => exact issued
  function := by
    intro f p t hp ht
    cases hhandle f p hp with
    | kept old enabled _ => exact h.function f p t old (enabled ▸ ht)
    | gone _ enabled _ => exact absurd (enabled.symm.trans ht) (Option.some_ne_none t).symm
    | waiting _ _ t' enabled function =>
        obtain rfl : t' = t := Option.some.inj (enabled.symm.trans ht)
        exact function
  inj := by
    -- two handles that were both in the table are equal by `h`, two new ones name the same task
    intro f g p hf hg
    have hold : ∀ e, s'.handle e = some p → s.handle e = some p ∨
        ¬ s.issued p ∧ ∃ t, s'.enabled p = some t ∧ t.function = e := by
      intro e he
      cases hhandle e p he with
      | kept old _ _ => exact .inl old
      | gone old _ _ => exact .inl old
      | waiting origin _ t enabled function =>
          exact origin.imp_right fun hi => ⟨hi, t, enabled, function⟩
    rcases hold f hf with hf' | ⟨hi, t, ht, rfl⟩
    · rcases hold g hg with hg' | ⟨hi, -⟩
      · exact h.inj f g p hf' hg'
      · exact absurd (h.issued f p hf') hi
    · rcases hold g hg with hg' | ⟨-, t', ht', rfl⟩
      · exact absurd (h.issued g p hg') hi
      · rw [Option.some.inj (ht.symm.trans ht')]
  dead := by
    intro f p hp hn
    cases hhandle f p hp with
    | kept old enabled alive => exact alive.trans (h.dead f p old (enabled.symm.trans hn))
    | gone _ _ alive => exact alive
    | waiting _ _ t enabled _ => exact absurd (hn.symm.trans enabled) (Option.some_ne_none t).symm

/-- A task just scheduled has the shape of its kind. -/
theorem started_shape (f : UdpTask) (now : Time) :
    (f.started now).delay = (f.started now).function.delay ∧
      (f.started now).repetitions = (f.started now).function.repetitions ∧
      (f.started now).left ≤ (f.started now).repetitions := ⟨rfl, rfl, Nat.le_refl _⟩

/-- A pointer not handed out yet is no handle. -/
theorem WF.ne_of_fresh (h : s.WF) (hp : ¬ s.issued p) (hx : s.handle f = some x) : x ≠ p := by
  rintro rfl
  exact hp (h.issued f x hx)

/-- A task is about the remote it is kept for. -/
theorem eq_of_remote (hf : f.remote = r) :
    f = .ping r ∨ f = .commLost r ∨ f = .reconnect r := by
  subst hf
  cases f with
  | ping r => exact .inl rfl
  | commLost r => exact .inr (.inl rfl)
  | reconnect r => exact .inr (.inr rfl)

/-- The entry of a peer keeps the socket well formed. -/
theorem CommUp.wf (h : s.WF) (h₁ : CommUp r s s' p q) : s'.WF := by
  have hold : ∀ f x, s.handle f = some x → s'.handle f = some x → HandleStep s s' f x := by
    intro f x hx _
    obtain ⟨he, ha⟩ :=
      h₁.old x (h.ne_of_fresh h₁.fresh_ping hx) (h.ne_of_fresh h₁.fresh_commLost hx)
    exact .kept hx he ha
  refine h.of_handleStep ?_ (fun x hx => (h₁.issued x).mpr (.inr (.inr hx))) ?_
  · intro x t ht
    by_cases hxp : x = p
    · subst hxp
      rw [← Option.some.inj (h₁.ping.symm.trans ht)]
      exact .inr (started_shape _ _)
    · by_cases hxq : x = q
      · subst hxq
        rw [← Option.some.inj (h₁.commLost.symm.trans ht)]
        exact .inr (started_shape _ _)
      · exact .inl ((h₁.old x hxp hxq).1.symm.trans ht)
  · intro f x hx
    -- the handles are the old ones, unless a new entry was made for `r`
    by_cases hfr : f.remote ≠ r ∨ r ∈ s.peers
    · have hsame : s'.handle f = s.handle f := by
        refine handle_congr ?_
        rcases hfr with hne | hr
        · exact h₁.lookup _ hne
        · rw [h₁.known hr]
      exact hold f x (hsame.symm.trans hx) hx
    · rw [not_or, not_not] at hfr
      obtain ⟨hfr, hr⟩ := hfr
      rcases eq_of_remote hfr with rfl | rfl | rfl
      · obtain rfl := Option.some.inj ((h₁.handle_ping hr).symm.trans hx)
        exact .waiting (.inr h₁.fresh_ping) ((h₁.issued _).mpr (.inr (.inl rfl))) _ h₁.ping rfl
      · obtain rfl := Option.some.inj ((h₁.handle_commLost hr).symm.trans hx)
        exact .waiting (.inr h₁.fresh_commLost) ((h₁.issued _).mpr (.inl rfl)) _ h₁.commLost rfl
      · simp at hx

/-- A restart keeps the socket well formed. -/
theorem Restarted.wf (h : s.WF) (h₁ : Restarted r s s' p) : s'.WF := by
  refine h.of_handleStep ?_ (fun x hx => (h₁.issued x).mpr (.inr hx)) ?_
  · intro x t ht
    by_cases hxp : x = p
    · subst hxp
      rw [← Option.some.inj (h₁.ping.symm.trans ht)]
      exact .inr (started_shape _ _)
    · by_cases hxq : s.handle (.commLost r) = some x
      · obtain ⟨-, -, rfl⟩ := Option.map_eq_some_iff.mp ((h₁.commLost x hxq).symm.trans ht)
        exact .inr (started_shape _ _)
      · exact .inl ((h₁.old x hxp hxq).1.symm.trans ht)
  · intro f x hx
    by_cases hfr : f.remote = r
    · rcases eq_of_remote hfr with rfl | rfl | rfl
      · obtain rfl := Option.some.inj (h₁.handle_ping.symm.trans hx)
        exact .waiting h₁.origin ((h₁.issued _).mpr (.inl rfl)) _ h₁.ping rfl
      · have hx' := h₁.handle_commLost.symm.trans hx
        cases he : s.enabled x with
        | none =>
            exact .kept hx' (by rw [h₁.commLost x hx', he, Option.map_none]) (h₁.dead x hx' he)
        | some t =>
            exact .waiting (.inl hx') ((h₁.issued x).mpr (.inr (h.issued _ _ hx'))) _
              (by rw [h₁.commLost x hx', he, Option.map_some]) rfl
      · simp at hx
    · have hx' : s.handle f = some x := (handle_congr (h₁.lookup _ hfr)).symm.trans hx
      -- a handle of another remote is neither of the two pointers of `r`
      have hxp : x ≠ p := by
        rintro rfl
        rcases h₁.origin with hp | hp
        · exact hfr (h.inj _ _ _ hx' hp ▸ rfl)
        · exact hp (h.issued _ _ hx')
      have hxq : s.handle (.commLost r) ≠ some x := fun hq => hfr (h.inj _ _ _ hx' hq ▸ rfl)
      exact .kept hx' (h₁.old x hxp hxq).1 (h₁.old x hxp hxq).2

/-- A removed peer has no handles. -/
theorem Removed.handle_eq_none (h₁ : Removed r s s') (hf : f.remote = r) : s'.handle f = none :=
  handle_of_notMem (hf ▸ h₁.notMem)

/-- A removal keeps the socket well formed. -/
theorem Removed.wf (h : s.WF) (h₁ : Removed r s s') : s'.WF := by
  refine h.of_handleStep ?_ (fun x hx => (h₁.issued x).mpr hx) ?_
  · intro x t ht
    -- the tasks that the entry held are disabled
    by_cases hx : ∃ f, f.remote = r ∧ s.handle f = some x
    · obtain ⟨f, hf, hx⟩ := hx
      exact absurd ((h₁.disabled f x hf hx).symm.trans ht) (Option.some_ne_none t).symm
    · exact .inl ((h₁.old x fun f hf hx' => hx ⟨f, hf, hx'⟩).1.symm.trans ht)
  · intro f x hx
    by_cases hfr : f.remote = r
    · exact absurd ((h₁.handle_eq_none hfr).symm.trans hx) (Option.some_ne_none x).symm
    · have hx' : s.handle f = some x := (handle_congr (h₁.lookup _ hfr)).symm.trans hx
      -- no other handle keeps one of them
      have hne : ∀ g, g.remote = r → s.handle g ≠ some x := fun g hg hgx =>
        hfr (h.inj _ _ _ hx' hgx ▸ hg)
      exact .kept hx' (h₁.old x hne).1 (h₁.old x hne).2

/-- A reconnect scheduled keeps the socket well formed. -/
theorem Reestablished.wf (h : s.WF) (h₁ : Reestablished r s s' p) : s'.WF := by
  refine h.of_handleStep ?_ (fun x hx => (h₁.issued x).mpr (.inr hx)) ?_
  · intro x t ht
    by_cases hxp : x = p
    · subst hxp
      rw [← Option.some.inj (h₁.reconnect.symm.trans ht)]
      exact .inr (started_shape _ _)
    · exact .inl ((h₁.old x hxp).1.symm.trans ht)
  · intro f x hx
    -- the table stays, and a fresh task is kept by nobody
    have hx' : s.handle f = some x := (handle_congr (by rw [h₁.peers])).symm.trans hx
    have hxp := h.ne_of_fresh h₁.fresh hx'
    exact .kept hx' (h₁.old x hxp).1 (h₁.old x hxp).2

/-- The accounting keeps the handles in order when the task under `p` is still enabled and due, or
was stopped and `p` is no handle. -/
theorem Completed.wf (h : s.WF) (h₁ : Completed p s s')
    (hp : (∃ t, s.enabled p = some t ∧ t.due ≤ s.now) ∨
      s.enabled p = none ∧ ∀ f, s.handle f ≠ some p) : s'.WF := by
  have hsame : ∀ f, s'.handle f = s.handle f := fun f => handle_congr (by rw [h₁.peers])
  -- what becomes of the task under `p`
  have hself : s'.enabled p = none ∨ ∃ t t', s.enabled p = some t ∧ s'.enabled p = some t' ∧
      t'.function = t.function ∧ t'.delay = t.delay ∧ t'.repetitions = t.repetitions ∧
      t'.left ≤ t.left := by
    rcases hp with ⟨t, ht, hdue⟩ | ⟨hn, -⟩
    · rcases Nat.lt_or_ge 1 t.left with hl | hl
      · obtain ⟨due, -, -, ht'⟩ := h₁.again t ht hl hdue
        exact .inr ⟨t, _, ht, ht', rfl, rfl, rfl, Nat.sub_le _ _⟩
      · exact .inl (h₁.last t ht hl).1
    · exact .inl (h₁.stopped hn)
  refine h.of_handleStep ?_ (fun x hx => (h₁.issued x).mpr hx) ?_
  · intro x t ht
    by_cases hxp : x = p
    · subst hxp
      rcases hself with hn | ⟨t₀, t', ht₀, ht', hf, hd, hr, hl⟩
      · exact absurd (hn.symm.trans ht) (Option.some_ne_none t).symm
      · obtain rfl := Option.some.inj (ht'.symm.trans ht)
        obtain ⟨hd₀, hr₀, hl₀⟩ := h.shape _ _ ht₀
        rw [hf, hd, hr]
        exact .inr ⟨hd₀, hr₀, Nat.le_trans hl hl₀⟩
    · exact .inl ((h₁.old x hxp).1.symm.trans ht)
  · intro f x hx
    have hx' := (hsame f).symm.trans hx
    by_cases hxp : x = p
    · subst hxp
      -- with repetitions left the task waits again, after the last one its handle is dead
      rcases hp with ⟨t, ht, hdue⟩ | ⟨-, hno⟩
      · rcases Nat.lt_or_ge 1 t.left with hl | hl
        · obtain ⟨due, -, -, ht'⟩ := h₁.again t ht hl hdue
          have hf : t.function = f := h.function _ _ _ hx' ht
          exact .waiting (.inl hx') ((h₁.issued x).mpr (h.issued _ _ hx')) _ ht' hf
        · exact .gone hx' (h₁.last t ht hl).1 (h₁.last t ht hl).2
      · exact absurd hx' (hno f)
    · exact .kept hx' (h₁.old x hxp).1 (h₁.old x hxp).2

/-! ## Frames -/

/-- `s` becomes `s'` by something about `r` only: entries, tasks and log lines of other remotes
stay, and no time passes. -/
structure Frame (r : IPSocket) (s s' : SocketUdp T) : Prop where
  lookup : ∀ r', r' ≠ r → s'.peers.lookup r' = s.peers.lookup r'
  enabled : ∀ x t, t.function.remote ≠ r → (s'.enabled x = some t ↔ s.enabled x = some t)
  now : s'.now = s.now
  log : ∃ l, s'.log = l ++ s.log ∧ ∀ e ∈ l, e.1 = s.now ∧ e.2.remote = some r

/-- Nothing done is framed by every remote. -/
theorem Frame.refl (r : IPSocket) (s : SocketUdp T) : Frame r s s :=
  ⟨fun _ _ => rfl, fun _ _ _ => Iff.rfl, rfl, [], rfl, fun _ he => nomatch he⟩

/-- Two steps framed by one remote are so in a row. -/
theorem Frame.trans (h₁ : Frame r s s') (h₂ : Frame r s' s'') : Frame r s s'' := by
  obtain ⟨l₁, hl₁, ha₁⟩ := h₁.log
  obtain ⟨l₂, hl₂, ha₂⟩ := h₂.log
  refine ⟨fun r' hr' => (h₂.lookup r' hr').trans (h₁.lookup r' hr'),
    fun x t ht => (h₂.enabled x t ht).trans (h₁.enabled x t ht), h₂.now.trans h₁.now,
    l₂ ++ l₁, by rw [hl₂, hl₁, List.append_assoc], fun e he => ?_⟩
  rcases List.mem_append.mp he with he | he
  · exact ⟨(ha₂ e he).1.trans h₁.now, (ha₂ e he).2⟩
  · exact ha₁ e he

/-- The handles of the other remotes stay. -/
theorem Frame.handle (h₁ : Frame r s s') (hf : f.remote ≠ r) : s'.handle f = s.handle f :=
  handle_congr (h₁.lookup _ hf)

/-- The membership of the other remotes stays. -/
theorem Frame.mem (h₁ : Frame r s s') (hr : r' ≠ r) : r' ∈ s'.peers ↔ r' ∈ s.peers := by
  rw [← AList.lookup_isSome, ← AList.lookup_isSome, h₁.lookup r' hr]

/-- A frame from the change of single pointers: where the task changed, the old and the new one are
about `r`. -/
theorem Frame.of_enabled (hlookup : ∀ r', r' ≠ r → s'.peers.lookup r' = s.peers.lookup r')
    (henabled : ∀ x, s'.enabled x = s.enabled x ∨
      (∀ t, s.enabled x = some t → t.function.remote = r) ∧
        ∀ t, s'.enabled x = some t → t.function.remote = r)
    (hnow : s'.now = s.now) (hlog : ∃ l, s'.log = l ++ s.log ∧
      ∀ e ∈ l, e.1 = s.now ∧ e.2.remote = some r) : Frame r s s' := by
  refine ⟨hlookup, fun x t ht => ?_, hnow, hlog⟩
  rcases henabled x with he | ⟨hs, hs'⟩
  · rw [he]
  · exact ⟨fun hx => absurd (hs' t hx) ht, fun hx => absurd (hs t hx) ht⟩

/-- A log line about `r` is a change about `r` only. -/
theorem Frame.of_record {a : UdpAction} (hpeers : s'.peers = s.peers)
    (hsched : s'.scheduler = s.scheduler) (hnow : s'.now = s.now)
    (hlog : s'.log = (s.now, a) :: s.log) (ha : a.remote = some r) : Frame r s s' := by
  refine .of_enabled (fun _ _ => by rw [hpeers])
    (fun x => .inl (by rw [SocketUdp.enabled, hsched])) hnow ⟨[(s.now, a)], hlog, fun e he => ?_⟩
  obtain rfl := List.mem_singleton.mp he
  exact ⟨rfl, ha⟩

/-- The entry of a peer is framed by its remote. -/
theorem CommUp.frame (h₁ : CommUp r s s' p q) : Frame r s s' := by
  -- the two new tasks are `r`'s, whatever is asked of them
  have hself : ∀ x u, ¬ s.issued x → u.function.remote = r → s'.enabled x = some u →
      (∀ t, s.enabled x = some t → t.function.remote = r) ∧
        ∀ t, s'.enabled x = some t → t.function.remote = r := by
    intro x u hx hu hxu
    refine ⟨fun t ht => ?_, fun t ht => ?_⟩
    · exact absurd (T.issued_of_enabled _ _ _ ht) hx
    · rw [← Option.some.inj (hxu.symm.trans ht), hu]
  refine .of_enabled h₁.lookup (fun x => ?_) h₁.now ⟨[(s.now, .commUp r)], h₁.log, fun e he => ?_⟩
  · by_cases hxp : x = p
    · exact hxp ▸ .inr (hself p _ h₁.fresh_ping rfl h₁.ping)
    · by_cases hxq : x = q
      · exact hxq ▸ .inr (hself q _ h₁.fresh_commLost rfl h₁.commLost)
      · exact .inl (h₁.old x hxp hxq).1
  · obtain rfl := List.mem_singleton.mp he
    exact ⟨rfl, rfl⟩

/-- A restart is framed by its remote. -/
theorem Restarted.frame (h : s.WF) (h₁ : Restarted r s s' p) : Frame r s s' := by
  refine .of_enabled h₁.lookup (fun x => ?_) h₁.now ⟨[], h₁.log, fun e he => nomatch he⟩
  by_cases hxp : x = p
  · subst hxp
    refine .inr ⟨fun t ht => ?_, fun t ht => ?_⟩
    · -- the pointer held the old ping task of `r`, or nothing yet
      rcases h₁.origin with hp | hp
      · rw [h.function _ _ _ hp ht, UdpTask.remote]
      · exact absurd (T.issued_of_enabled _ _ _ ht) hp
    · rw [← Option.some.inj (h₁.ping.symm.trans ht)]
      rfl
  · by_cases hxq : s.handle (.commLost r) = some x
    · refine .inr ⟨fun t ht => ?_, fun t ht => ?_⟩
      · rw [h.function _ _ _ hxq ht, UdpTask.remote]
      · obtain ⟨-, -, rfl⟩ := Option.map_eq_some_iff.mp ((h₁.commLost x hxq).symm.trans ht)
        rfl
    · exact .inl (h₁.old x hxp hxq).1

/-- A removal is framed by its remote. -/
theorem Removed.frame (h : s.WF) (h₁ : Removed r s s') : Frame r s s' := by
  refine .of_enabled h₁.lookup (fun x => ?_) h₁.now ⟨[], h₁.log, fun e he => nomatch he⟩
  by_cases hx : ∃ f, f.remote = r ∧ s.handle f = some x
  · obtain ⟨f, hf, hx⟩ := hx
    refine .inr ⟨fun t ht => ?_, fun t ht => ?_⟩
    · rw [h.function _ _ _ hx ht, hf]
    · exact absurd ((h₁.disabled f x hf hx).symm.trans ht) (Option.some_ne_none t).symm
  · exact .inl (h₁.old x fun f hf hx' => hx ⟨f, hf, hx'⟩).1

/-- A reconnect scheduled is framed by its remote. -/
theorem Reestablished.frame (h₁ : Reestablished r s s' p) : Frame r s s' := by
  refine .of_enabled (fun _ _ => by rw [h₁.peers]) (fun x => ?_) h₁.now
    ⟨[], h₁.log, fun e he => nomatch he⟩
  by_cases hxp : x = p
  · subst hxp
    refine .inr ⟨fun t ht => ?_, fun t ht => ?_⟩
    · exact absurd (T.issued_of_enabled _ _ _ ht) h₁.fresh
    · rw [← Option.some.inj (h₁.reconnect.symm.trans ht)]
      rfl
  · exact .inl (h₁.old x hxp).1

/-- The completion of a due task is framed by the remote of its function. -/
theorem Completed.frame (h₁ : Completed p s s') (hp : ∀ t, s.enabled p = some t →
    t.due ≤ s.now ∧ t.function.remote = r) : Frame r s s' := by
  refine .of_enabled (fun _ _ => by rw [h₁.peers]) (fun x => ?_) h₁.now
    ⟨[], h₁.log, fun e he => nomatch he⟩
  by_cases hxp : x = p
  · -- a task completed is stopped, or due again with its function
    subst hxp
    refine .inr ⟨fun t ht => (hp t ht).2, fun t ht => ?_⟩
    cases he : s.enabled x with
    | none => exact absurd ((h₁.stopped he).symm.trans ht) (Option.some_ne_none t).symm
    | some u =>
        obtain ⟨hdue, hu⟩ := hp u he
        rcases Nat.lt_or_ge 1 u.left with hl | hl
        · obtain ⟨due, -, -, ht'⟩ := h₁.again u he hl hdue
          rw [← Option.some.inj (ht'.symm.trans ht)]
          exact hu
        · exact absurd ((h₁.last u he hl).1.symm.trans ht) (Option.some_ne_none t).symm
  · exact .inl (h₁.old x hxp).1

/-! ## Operations on one remote -/

/-- Well-formedness depends on the table and the scheduler. -/
theorem WF.congr (h : s.WF) (hp : s'.peers = s.peers) (hs : s'.scheduler = s.scheduler) :
    s'.WF := by
  have hh : ∀ f, s'.handle f = s.handle f := fun f => handle_congr (by rw [hp])
  have he : ∀ x, s'.enabled x = s.enabled x := fun x => by rw [enabled, hs]
  have ha : ∀ x, s'.alive x = s.alive x := fun x => by rw [alive, hs]
  refine h.of_handleStep (fun x t ht => .inl ((he x).symm.trans ht)) (fun x hx => ?_) fun f x hx =>
    .kept ((hh f).symm.trans hx) (he x) (ha x)
  rwa [SocketUdp.issued, hs]

/-- `s` becomes `s'` by something about `r` only, and the handles stay in order. -/
structure Local (r : IPSocket) (s s' : SocketUdp T) : Prop where
  wf : s'.WF
  frame : Frame r s s'

/-- Nothing done is local to every remote. -/
theorem Local.refl (h : s.WF) : Local r s s := ⟨h, .refl r s⟩

/-- Two steps local to one remote are so in a row. -/
theorem Local.trans (h₁ : Local r s s') (h₂ : Local r s' s'') : Local r s s'' :=
  ⟨h₂.wf, h₁.frame.trans h₂.frame⟩

/-- A line about a remote is local to it. -/
theorem local_record (h : s.WF) {a : UdpAction} (ha : a.remote = some r) :
    Local r s (s.record a) := ⟨h.congr rfl rfl, .of_record rfl rfl rfl rfl ha⟩

/-- A send is local to its remote. -/
theorem local_send (h : s.WF) (msg : ChatMessage) (r : IPSocket) :
    Local r s (send net msg r s).state :=
  ⟨h.congr (peers_send msg r s) (scheduler_send msg r s), .of_record (a := .sent msg r)
    (peers_send msg r s) (scheduler_send msg r s) (now_send msg r s) (log_send msg r s) rfl⟩

/-- `handleCommUp` is local to its remote. -/
theorem local_handleCommUp (h : s.WF) (r : IPSocket) : Local r s (handleCommUp r s) := by
  obtain ⟨p, q, hc⟩ := handleCommUp_spec r s
  exact ⟨hc.wf h, hc.frame⟩

/-- `resetTasks` of a known peer is local to its remote. -/
theorem local_resetTasks (h : s.WF) (hr : r ∈ s.peers) : Local r s (resetTasks r s) := by
  obtain ⟨p, hp⟩ := resetTasks_spec h hr
  exact ⟨hp.wf h, hp.frame h⟩

/-- `remove` is local to its remote. -/
theorem local_remove (h : s.WF) (r : IPSocket) : Local r s (remove r s) :=
  ⟨(remove_spec r s).wf h, (remove_spec r s).frame h⟩

/-- `scheduleReestablishment` is local to its remote. -/
theorem local_scheduleReestablishment (h : s.WF) (r : IPSocket) :
    Local r s (scheduleReestablishment r s) := by
  obtain ⟨p, hp⟩ := scheduleReestablishment_spec r s
  exact ⟨hp.wf h, hp.frame⟩

/-- `handleCommLost` is local to its remote. -/
theorem local_handleCommLost (h : s.WF) (r : IPSocket) : Local r s (handleCommLost r s) := by
  have h₁ : Local r s (s.record (.commLost r)) := local_record h rfl
  have h₂ := h₁.trans (local_scheduleReestablishment h₁.wf r)
  exact h₂.trans (local_remove h₂.wf r)

/-- `handleChatMessage` is local to its sender. -/
theorem local_handleChatMessage (h : s.WF) (msg : ChatMessage) (r : IPSocket) :
    Local r s (handleChatMessage net msg r s).state := by
  unfold handleChatMessage
  split
  · exact local_remove h r
  · refine Outcome.andThen_state (P := Local r s) ?_ fun s₁ h₁ => ?_
    · split
      · exact local_send h keepAliveAckMsg r
      · exact .refl h
    · split
      case isTrue hr => exact h₁.trans (local_resetTasks h₁.wf hr)
      case isFalse hr => exact h₁.trans (local_handleCommUp h₁.wf r)

/-- `handleMessage` is local to its sender. -/
theorem local_handleMessage (h : s.WF) (r : IPSocket) (call : RecvCall) :
    Local r s (handleMessage net r call s).state := by
  cases call with
  | failed e => exact .refl h
  | wrote data =>
      have h₁ : Local r s (s.record (.received (cStr data) r)) := local_record h rfl
      exact h₁.trans (local_handleChatMessage h₁.wf _ r)

/-- What a task runs is local to the remote of its function. -/
theorem local_runFunction (net : ℕ → Bool) (h : s.WF) (f : UdpTask) :
    Local f.remote s (runFunction net f s).state := by
  cases f with
  | ping r => exact local_send h keepAliveMsg r
  | commLost r => exact local_handleCommLost h r
  | reconnect r => exact local_handleCommUp h r

/-! ## Launches -/

/-- A task whose function has returned is still enabled, or it was stopped and no entry holds it. -/
theorem runFunction_enabled (h : s.WF) (hp : s.enabled p = some t)
    (hrun : runFunction net f s = .returned s') :
    s'.enabled p = some t ∨ s'.enabled p = none ∧ ∀ g, s'.handle g ≠ some p := by
  have hissued : s.issued p := T.issued_of_enabled _ _ _ hp
  cases f with
  | ping r =>
      have hs' : s'.scheduler = s.scheduler := by
        rw [runFunction, send] at hrun
        cases hn : net s.sends with
        | true => rw [if_pos hn] at hrun; cases hrun; rfl
        | false => rw [if_neg (by simp [hn])] at hrun; cases hrun
      exact .inl (by rw [enabled, hs']; exact hp)
  | commLost r =>
      obtain rfl : handleCommLost r s = s' := Outcome.returned.inj hrun
      obtain ⟨c, hc⟩ := scheduleReestablishment_spec r (s.record (.commLost r))
      have hpc : p ≠ c := fun hpc => hc.fresh (hpc ▸ hissued)
      have he := (hc.old p hpc).1
      have hr := remove_spec r (scheduleReestablishment r (s.record (.commLost r)))
      have hhandle : ∀ g, handle (scheduleReestablishment r (s.record (.commLost r))) g =
          s.handle g := fun g => handle_congr (by rw [hc.peers]; rfl)
      -- the task stops itself when the entry of its remote holds it
      by_cases hx : ∃ g, g.remote = r ∧ s.handle g = some p
      · obtain ⟨g, hg, hgp⟩ := hx
        refine .inr ⟨hr.disabled g p hg ((hhandle g).trans hgp), fun g' hg' => ?_⟩
        by_cases hg'r : g'.remote = r
        · exact absurd ((hr.handle_eq_none hg'r).symm.trans hg') (Option.some_ne_none p).symm
        · have hold : s.handle g' = some p :=
            (hhandle g').symm.trans ((handle_congr (hr.lookup _ hg'r)).symm.trans hg')
          exact hg'r (h.inj _ _ _ hold hgp ▸ hg)
      · refine .inl (((hr.old p fun g hg hgp => hx ⟨g, hg, ?_⟩).1.trans he).trans hp)
        exact (hhandle g).symm.trans hgp
  | reconnect r =>
      obtain rfl : handleCommUp r s = s' := Outcome.returned.inj hrun
      obtain ⟨a, b, hc⟩ := handleCommUp_spec r s
      -- new tasks come under new pointers
      have hpa : p ≠ a := fun hpa => hc.fresh_ping (hpa ▸ hissued)
      have hpb : p ≠ b := fun hpb => hc.fresh_commLost (hpb ▸ hissued)
      exact .inl ((hc.old p hpa hpb).1.trans hp)

/-- One task of a launch: it is not due, its function throws, or it runs and is accounted for. -/
inductive Launched (net : ℕ → Bool) (p : T.Ptr) (s : SocketUdp T) : Outcome (SocketUdp T) → Prop
  | idle : (∀ t, s.enabled p = some t → s.now < t.due) → Launched net p s (.returned s)
  | threw (t : ScheduledTask UdpTask) (s₁ : SocketUdp T) : s.enabled p = some t → t.due ≤ s.now →
      runFunction net t.function s = .threw s₁ → Launched net p s (.threw s₁)
  | ran (t : ScheduledTask UdpTask) (s₁ : SocketUdp T) : s.enabled p = some t → t.due ≤ s.now →
      runFunction net t.function s = .returned s₁ → Launched net p s (.returned (complete p s₁))

/-- Specification of the launch of one task. -/
theorem launchTask_spec (net : ℕ → Bool) (p : T.Ptr) (s : SocketUdp T) :
    Launched net p s (launchTask net p s) := by
  have hcases : (∃ t, s.enabled p = some t ∧ t.due ≤ s.now ∧ launchTask net p s =
        (runFunction net t.function s).andThen fun s => .returned (complete p s)) ∨
      (∀ t, s.enabled p = some t → ¬ t.due ≤ s.now) ∧ launchTask net p s = .returned s :=
    ScheduledTask.launch_cases (fun t ht => by rw [launchTask, ← enabled, ht]; rfl)
      fun hnone => by rw [launchTask, ← enabled, hnone]
  obtain ⟨t, he, hdue, heq⟩ | ⟨hidle, heq⟩ := hcases
  · -- the task runs, when it is due
    rw [heq]
    cases hrun : runFunction net t.function s with
    | returned s₁ => exact .ran t s₁ he hdue hrun
    | threw s₁ => exact .threw t s₁ he hdue hrun
  · rw [heq]
    exact .idle fun t ht => Nat.lt_of_not_le (hidle t ht)

/-- What a task that has run leaves behind is in order and about its remote. -/
theorem local_ran (h : s.WF) (hp : s.enabled p = some t) (hdue : t.due ≤ s.now)
    (hrun : runFunction net t.function s = .returned s') :
    Local t.function.remote s (complete p s') := by
  have hl : Local t.function.remote s s' := by
    have := local_runFunction net h t.function
    rwa [hrun] at this
  have hc := complete_spec p s'
  have hafter := runFunction_enabled h hp hrun
  refine ⟨hc.wf hl.wf ?_, hl.frame.trans (hc.frame fun t' ht' => ?_)⟩
  · exact hafter.imp_left fun hp' => ⟨t, hp', hl.frame.now ▸ hdue⟩
  · -- it is still there when it completes, or it has removed itself
    rcases hafter with hp' | ⟨hn, -⟩
    · rw [← Option.some.inj (hp'.symm.trans ht')]
      exact ⟨hl.frame.now ▸ hdue, rfl⟩
    · exact absurd (hn.symm.trans ht') (Option.some_ne_none t').symm

/-- **A launched task is about its own remote**, however it ends. -/
theorem local_launchTask (net : ℕ → Bool) (h : s.WF) (p : T.Ptr) :
    (launchTask net p s = .returned s ∧ ∀ t, s.enabled p = some t → s.now < t.due) ∨
      ∃ t, s.enabled p = some t ∧ t.due ≤ s.now ∧
        Local t.function.remote s (launchTask net p s).state := by
  have hl := launchTask_spec net p s
  generalize launchTask net p s = o at hl ⊢
  cases hl with
  | idle hidle => exact .inl ⟨rfl, hidle⟩
  | threw t s₁ ht hdue hrun =>
      have := local_runFunction net h t.function
      rw [hrun] at this
      exact .inr ⟨t, ht, hdue, this⟩
  | ran t s₁ ht hdue hrun => exact .inr ⟨t, ht, hdue, local_ran h ht hdue hrun⟩

/-- A task keeps the socket well formed. -/
theorem wf_launchTask (h : s.WF) (p : T.Ptr) : (launchTask net p s).state.WF := by
  rcases local_launchTask net h p with ⟨heq, -⟩ | ⟨t, -, -, hl⟩
  · rw [heq]
    exact h
  · exact hl.wf

/-! ## Runs -/

/-- The connects keep the socket well formed. -/
theorem wf_connect (h : s.WF) (remotes : List IPSocket) : (connect remotes s).WF := by
  induction remotes generalizing s with
  | nil => exact h
  | cons r rs ih => exact ih (local_handleCommUp h r).wf

/-- Step lemma: every step keeps the socket well formed. -/
theorem wf_step (h : s.WF) (e : UdpEvent T) : (step net s e).state.WF := by
  cases e with
  | advance d => exact h.congr rfl rfl
  | connect remotes => exact wf_connect h remotes
  | receive r call => exact (local_handleMessage h r call).wf
  | launch order =>
      exact Outcome.forEach_state (h.congr rfl rfl) fun p _ s₁ h₁ => wf_launchTask h₁ p
  | send order msg =>
      exact Outcome.forEach_state h fun r _ s₁ h₁ => (local_send h₁ msg r).wf

/-- **The handles are in order in every run**, also where it ends in a throw. -/
theorem WF.of_run {ok : SocketUdp T → UdpEvent T → Prop} {es : List (UdpEvent T)} (h : s.WF)
    (hrun : Runs net ok s es s') : s'.WF :=
  hrun.invariant_state h fun _ e h₁ _ => wf_step h₁ e

/-- No line of the log is from the future. -/
def Past (s : SocketUdp T) : Prop := ∀ e ∈ s.log, e.1 ≤ s.now

/-- After a local change the log lies in the past. -/
theorem Past.of_local (h : s.Past) (hl : Local r s s') : s'.Past := by
  intro e he
  obtain ⟨l, hlog, habout⟩ := hl.frame.log
  rw [hlog] at he
  rw [hl.frame.now]
  rcases List.mem_append.mp he with he | he
  · exact Nat.le_of_eq (habout e he).1
  · exact h e he

/-- A line logged now lies in the past. -/
theorem Past.record (h : s.Past) (a : UdpAction) : (s.record a).Past := by
  intro e he
  rcases List.mem_cons.mp he with rfl | he
  · exact Nat.le_refl _
  · exact h e he

/-- Step lemma: after every step the log lies in the past. -/
theorem past_step (h : s.WF) (hpast : s.Past) (e : UdpEvent T) : (step net s e).state.Past := by
  cases e with
  | advance d => exact fun e he => Nat.le_trans (hpast e he) (Nat.le_add_right _ _)
  | connect remotes =>
      change (connect remotes s).Past
      -- one remote after the other
      induction remotes generalizing s with
      | nil => exact hpast
      | cons r rs ih =>
          have hl := local_handleCommUp h r
          exact ih hl.wf (hpast.of_local hl)
  | receive r call => exact hpast.of_local (local_handleMessage h r call)
  | launch order =>
      have h₁ : (s.record .launched).WF ∧ (s.record .launched).Past :=
        ⟨h.congr rfl rfl, hpast.record _⟩
      refine (Outcome.forEach_state (P := fun s : SocketUdp T => s.WF ∧ s.Past) h₁
        fun p _ s₁ hs₁ => ?_).2
      rcases local_launchTask net hs₁.1 p with ⟨heq, -⟩ | ⟨t, -, -, hl⟩
      · rw [heq]
        exact hs₁
      · exact ⟨hl.wf, hs₁.2.of_local hl⟩
  | send order msg =>
      refine (Outcome.forEach_state (P := fun s : SocketUdp T => s.WF ∧ s.Past) ⟨h, hpast⟩
        fun r _ s₁ hs₁ => ?_).2
      have hl : Local r s₁ (send net msg r s₁).state := local_send hs₁.1 msg r
      exact ⟨hl.wf, hs₁.2.of_local hl⟩

/-- Run lemma: in every reachable state the log lies in the past. -/
theorem past_of_run {ok : SocketUdp T → UdpEvent T → Prop} {es : List (UdpEvent T)}
    (hrun : Runs net ok {} es s) : s.Past :=
  (hrun.invariant_state (I := fun s : SocketUdp T => s.WF ∧ s.Past) ⟨.init, fun _ he => nomatch he⟩
    fun _ e h _ => ⟨wf_step h.1 e, past_step h.1 h.2 e⟩).2

end SocketUdp

end SctpSandbox

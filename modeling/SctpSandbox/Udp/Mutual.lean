import SctpSandbox.Udp.Pair
import SctpSandbox.Udp.Shutdown

/-! # Acquaintance becomes mutual

A socket that connects another one does not tell it so: the entry is its own. What tells the other
one is the first keep-alive message, and whoever handles a datagram enters its sender. So in a
network where two sockets reach each other in time, an entry of one is followed by an entry of the
other (`mutual_of_network`): either a datagram of the other one came back, and nobody writes to a
remote without having or making an entry for it, or the keep-alive message is on its way. -/

namespace SctpSandbox

namespace SocketUdp

variable {T : TaskScheduler UdpTask} {net : ℕ → Bool} {s s₁ : SocketUdp T} {r : IPSocket}
  {g h d t : Time} {log : List (Time × UdpAction)} {msg : ChatMessage}

/-- The socket has never named `r`: no entry, no task, and no datagram was sent there. -/
structure Stranger (r : IPSocket) (s : SocketUdp T) : Prop where
  unknown : Unknown r s
  gone : Gone id r {} s

/-- At the start everybody is a stranger. -/
theorem Stranger.init (r : IPSocket) : Stranger r ({} : SocketUdp T) where
  unknown := ⟨.init, fun _ he => absurd he List.not_mem_nil, AList.notMem_empty _,
    fun p t ht => absurd (ht.symm.trans (T.enabled_init p)) (Option.some_ne_none t)⟩
  gone := ⟨.init, fun r' hr' => absurd hr' (AList.notMem_empty r'),
    fun p t ht => absurd (ht.symm.trans (T.enabled_init p)) (Option.some_ne_none t),
    [], rfl, fun _ _ _ hmem => absurd hmem List.not_mem_nil⟩

/-- A stranger is not in the table. -/
theorem Stranger.notMem (hs : Stranger r s) : r ∉ s.peers := hs.unknown.absent.entry

/-- Nothing was sent to a stranger. -/
theorem Stranger.not_sent (hs : Stranger r s) : (t, .sent msg r) ∉ s.log := by
  intro hmem
  obtain ⟨l, hlog, hsent⟩ := hs.gone.log
  rw [hlog, List.append_nil] at hmem
  exact hsent t msg r hmem rfl

/-- A stranger stays one, or enters. -/
theorem Stranger.settles (hs : Stranger r s) {e : UdpEvent T} (hc : ConnectsOnce r e)
    (hquit : NoQuit r e) (hret : (SocketUdp.step net s e).Returns) :
    Stranger r (SocketUdp.step net s e).state ∨ JustEntered r (SocketUdp.step net s e).state := by
  refine (hs.unknown.settles hc hquit hret).imp_left fun hu => ⟨hu, hs.gone.step ?_⟩
  -- a step that names `r` enters it
  cases e with
  | connect remotes =>
      rintro r' hr' rfl
      exact hu.absent.entry (mem_connect (.inl hr'))
  | receive r' call =>
      rintro rfl data rfl
      by_contra hne
      exact hu.absent.entry ((mem_handleMessage hs.unknown.wf hne).of_returns hret)
  | advance _ => trivial
  | launch _ => trivial
  | send _ _ => trivial

/-- A socket that launches in time either never named `r` or keeps it. -/
def Acquainted (g : Time) (r : IPSocket) (s : SocketUdp T) : Prop :=
  Stranger r s ∨ ∃ s₁, Kept g r s₁ s

/-- Among the acquainted the strangers are those not in the table. -/
theorem Acquainted.stranger_iff (ha : Acquainted g r s) : Stranger r s ↔ r ∉ s.peers := by
  refine ⟨Stranger.notMem, fun hr => ha.resolve_right ?_⟩
  rintro ⟨s₁, hk⟩
  exact hr hk.keptSince.1

/-- A remote that never sent anything has no time of a last datagram. -/
theorem heardAt_eq_zero (hlog : ∀ t msg, (t, .received msg r) ∉ log) : heardAt r log = 0 := by
  induction log with
  | nil => rfl
  | cons line log ih =>
      obtain ⟨t, a⟩ := line
      have ha : ∀ msg, a ≠ .received msg r := by
        rintro msg rfl
        exact hlog t msg List.mem_cons_self
      rw [heardAt_other ha]
      exact ih fun t' msg hmem => hlog t' msg (List.mem_cons_of_mem _ hmem)

/-- **The first keep-alive message.** A remote that is kept and was never heard of was sent one
by the first launch that is a period after its entry. -/
theorem Kept.first_probe (hk : Kept g r s₁ s) (ha : Accounted s)
    (hlog : ∀ t msg, (t, .received msg r) ∉ s.log) {entered l : Time}
    (hentered : enteredAt r s.log = some entered) (hl : (l, .launched) ∈ s.log)
    (hlate : entered + keepAlivePeriod ≤ l) :
    ∃ t, (t, .sent keepAliveMsg r) ∈ s.log ∧ t < entered + keepAlivePeriod + g := by
  obtain ⟨h, p, q, he, hw⟩ := hk
  -- the comm-lost task waits since the entry
  have hh : h = entered := by
    obtain ⟨q', hq', hlost⟩ := (ha.tracked r).present entered hentered
    obtain rfl := Option.some.inj (hq'.symm.trans he.commLost)
    have hdue := congrArg ScheduledTask.due (Option.some.inj (he.lost.symm.trans hlost))
    rw [heardAt_eq_zero hlog, Nat.max_zero] at hdue
    exact Nat.add_right_cancel hdue
  subst hh
  rcases hw with ⟨-, hpolls⟩ | ⟨l₁, l₂, t, hlog', -, ht⟩
  · exact absurd (hpolls l hl) (Nat.not_lt.mpr hlate)
  · exact ⟨t, hlog' ▸ List.mem_append_right _ List.mem_cons_self, ht⟩

end SocketUdp

namespace TimedNetwork

open SocketUdp UdpNetwork

variable {T : TaskScheduler UdpTask} {ι : Type} {R : Routing ι}
  {n : TimedNetwork T ι} {i j k : ι} {ri rj : IPSocket} {g δ t : Time}
  {f : Multiset (Time × Datagram)}

/-- As long as `j` does not know `i`: nothing from `j` is on its way to `i` or came back, and the
keep-alive messages of `i` are on their way. -/
structure Unmet (i : ι) (ri rj : IPSocket) (n : TimedNetwork T ι) : Prop where
  silent : ∀ x ∈ n.flight, x.2.source = rj → x.2.destination ≠ ri
  unheard : ∀ t msg, (t, .received msg rj) ∉ (n.socket i).log
  probing : ∀ t, (t, .sent keepAliveMsg rj) ∈ (n.socket i).log →
    (t, ⟨ri, rj, keepAliveMsg⟩) ∈ n.flight

/-- At the start the two have not met. -/
theorem Unmet.init : Unmet i ri rj (init : TimedNetwork T ι) where
  silent := fun x hx => absurd hx (Multiset.notMem_zero x)
  unheard := fun _ _ hmem => absurd hmem List.not_mem_nil
  probing := fun _ hmem => absurd hmem List.not_mem_nil

section Steps

variable [DecidableEq ι] {e : UdpEvent T}

/-- Every reliable step keeps the acquaintance. -/
theorem acquainted_step {e : NetworkEvent T ι} (h : Linked i ri rj δ n) (hL : Link R i j ri rj)
    (hgd : g + 2 * δ < keepAlivePeriod * keepAliveProbes) (hposs : Possible R n e)
    (hrel : Reliable g δ i j ri rj n e) (ha : Acquainted g rj (n.socket i)) :
    Acquainted g rj ((step R n e).state.socket i) := by
  rcases ha with hs | ⟨s₁, hk⟩
  · rcases socket_step h hposs hrel with heq | ⟨u, heq, -, ho, hquit, hwrote⟩
    · rw [heq]
      exact .inl hs
    · rw [heq, hL.net_eq]
      exact (hs.settles ho.connectsOnce hquit (step_returns hwrote _)).imp_right
        fun hj => ⟨_, hj.kept⟩
  · exact .inr ⟨s₁, kept_step h hL hgd hposs hrel hk⟩

/-- The table of `i` agrees with its log. -/
theorem accounted_socket {e : NetworkEvent T ι} (h : Linked i ri rj δ n) (hL : Link R i j ri rj)
    (hposs : Possible R n e) (hrel : Reliable g δ i j ri rj n e) (ha : Accounted (n.socket i)) :
    Accounted ((step R n e).state.socket i) := by
  rcases socket_step h hposs hrel with heq | ⟨u, heq, -⟩
  · rwa [heq]
  · rw [heq, hL.net_eq]
    exact accounted_step ha u

/-- **An answer** leaves the two unmet, if `i` does not hear of `j` in it and the keep-alive
messages sent before stay on their way. -/
theorem unmet_answer (hu : Unmet i ri rj n) (h : Linked i ri rj δ n) (hL : Link R i j ri rj)
    (hadv : ∀ d, e ≠ .advance d) (hf : ∀ x ∈ f, x ∈ n.flight)
    (hheard : k = i → ∀ call, e ≠ .receive rj call)
    (hstays : ∀ t, (t, ⟨ri, rj, keepAliveMsg⟩) ∈ n.flight →
      (t, (⟨ri, rj, keepAliveMsg⟩ : Datagram)) ∈ f)
    (hj : Stranger ri ((answer R k e { n with flight := f }).socket j)) :
    Unmet i ri rj (answer R k e { n with flight := f }) := by
  obtain ⟨new, hgrown, hnew⟩ := (writes_step (R.net k) (h.wf k) hadv).log
  refine ⟨fun x hx hsource hdest => ?_, fun t msg hmem => ?_, fun t hmem => ?_⟩
  · rcases sent_of_mem_flight (n := { n with flight := f }) hL hgrown hx hsource with
      hx | ⟨rfl, t, ht⟩
    · exact hu.silent x (hf x hx) hsource hdest
    · -- `j` has sent nothing there
      rw [socket_answer_self] at hj
      have hsent : (t, .sent x.2.data ri) ∈
          (SocketUdp.step (R.net k) (n.socket k) e).state.log := by
        rw [hgrown]
        exact List.mem_append_left _ (hdest ▸ ht)
      exact hj.not_sent hsent
  · -- what is logged as received was delivered
    by_cases hik : i = k
    · subst hik
      rw [socket_answer_self, hgrown] at hmem
      rcases List.mem_append.mp hmem with hmem | hmem
      · obtain ⟨call, heq⟩ := (hnew _ hmem).2.received
        exact hheard rfl call heq
      · exact hu.unheard t msg hmem
    · rw [socket_answer_ne hik] at hmem
      exact hu.unheard t msg hmem
  · by_cases hik : i = k
    · subst hik
      rw [socket_answer_self, hgrown] at hmem
      rcases List.mem_append.mp hmem with hmem | hmem
      · -- a message sent now is in flight
        have ht : t = (n.socket i).now := (hnew _ hmem).1
        exact ht ▸ mem_flight_of_sent (n := { n with flight := f }) hL hgrown hmem
      · exact mem_flight_answer.mpr (.inl (hstays t (hu.probing t hmem)))
    · rw [socket_answer_ne hik] at hmem
      exact mem_flight_answer.mpr (.inl (hstays t (hu.probing t hmem)))

/-- **A reliable step** after which `j` still does not know `i` leaves them unmet. -/
theorem unmet_step {e : NetworkEvent T ι} (hu : Unmet i ri rj n) (h : Linked i ri rj δ n)
    (hL : Link R i j ri rj) (honly : ∀ a, R.receives i a → a = ri) (hposs : Possible R n e)
    (hrel : Reliable g δ i j ri rj n e) (hj : Stranger ri ((step R n e).state.socket j)) :
    Unmet i ri rj (step R n e).state := by
  -- a message that is lost was not one between the two
  cases e with
  | advance d => exact ⟨hu.silent, hu.unheard, hu.probing⟩
  | lose sent d =>
      refine ⟨fun x hx => hu.silent x (Multiset.mem_of_mem_erase hx), hu.unheard, fun t hmem => ?_⟩
      refine (Multiset.mem_erase_of_ne ?_).mpr (hu.probing t hmem)
      intro heq
      obtain ⟨-, rfl⟩ := Prod.mk.inj heq
      exact hrel.kept sent _ rfl (.inl ⟨rfl, rfl⟩)
  | deliver k sent d =>
      refine unmet_answer hu h hL (fun _ => nofun) (fun x hx => Multiset.mem_of_mem_erase hx)
        (fun hki call heq => ?_) (fun t hmem => (Multiset.mem_erase_of_ne ?_).mpr hmem) hj
      · -- what arrives at `i` from `j` was sent there
        subst hki
        exact hu.silent _ hposs.1 (UdpEvent.receive.inj heq).1 (honly _ hposs.2)
      · -- a keep-alive message that arrives enters its sender
        intro heq
        obtain ⟨rfl, rfl⟩ := Prod.mk.inj heq
        obtain rfl := hL.there k hposs.2
        refine hj.notMem ?_
        show ri ∈ ((answer R k _ _).socket k).peers
        rw [socket_answer_self]
        have hka : cStr keepAliveMsg ≠ quitMsg := by decide
        have hnet : R.net k = fun _ => true := by
          funext m
          exact (hL.sends m).2
        rw [hnet]
        have hret : (handleMessage (fun _ => true) ri (.wrote keepAliveMsg) (n.socket k)).Returns :=
          step_returns (e := .receive ri (.wrote keepAliveMsg)) (fun _ _ => nofun) _
        exact (mem_handleMessage (h.wf k) hka).of_returns hret
  -- a socket acts on its own: it receives nothing there
  | act k u =>
      have hadv : ∀ d, u ≠ .advance d := by
        rintro d rfl
        exact hposs.2
      have hreceive : ∀ call, u ≠ .receive rj call := by
        rintro call rfl
        exact hposs.2
      exact unmet_answer hu h hL hadv (fun x hx => hx) (fun _ => hreceive) (fun _ hmem => hmem) hj

/-! ## Runs -/

/-- What two sockets that reach each other keep, seen from `i`. -/
structure Meeting (g δ : Time) (i j : ι) (ri rj : IPSocket) (n : TimedNetwork T ι) : Prop where
  there : Linked i ri rj δ n
  back : Linked j rj ri δ n
  knows : Acquainted g rj (n.socket i)
  known : Acquainted g ri (n.socket j)
  accounted : Accounted (n.socket i)
  unmet : Stranger ri (n.socket j) → Unmet i ri rj n

omit [DecidableEq ι] in
/-- The invariant of the meeting holds at the start. -/
theorem Meeting.init : Meeting g δ i j ri rj (init : TimedNetwork T ι) where
  there := .init
  back := .init
  knows := .inl (.init rj)
  known := .inl (.init ri)
  accounted := .init
  unmet := fun _ => .init

/-- Step lemma: every step of the network keeps the invariant of the meeting. -/
theorem Meeting.step {e : NetworkEvent T ι} (h : Meeting g δ i j ri rj n) (hL : Link R i j ri rj)
    (hL' : Link R j i rj ri) (honly : ∀ a, R.receives i a → a = ri)
    (hgd : g + 2 * δ < keepAlivePeriod * keepAliveProbes) (hposs : Possible R n e)
    (hrel : Reliable g δ i j ri rj n e) (hrel' : Reliable g δ j i rj ri n e) :
    Meeting g δ i j ri rj (step R n e).state where
  there := linked_step h.there hL hposs hrel
  back := linked_step h.back hL' hposs hrel'
  knows := acquainted_step h.there hL hgd hposs hrel h.knows
  known := acquainted_step h.back hL' hgd hposs hrel' h.known
  accounted := accounted_socket h.there hL hposs hrel h.accounted
  unmet := by
    intro hj
    have hbefore : Stranger ri (n.socket j) := by
      refine h.known.resolve_right ?_
      rintro ⟨s₁, hk⟩
      exact hj.notMem (kept_step h.back hL' hgd hposs hrel' hk).keptSince.1
    exact unmet_step (h.unmet hbefore) h.there hL honly hposs hrel hj

/-- **Acquaintance becomes mutual.** In every run of the network from its start in which two sockets
reach each other within `δ`, launch every `g` and send no quit messages: when `i` has an entry for
`j`, a launch of `i` came a period or more after it, and `g + δ` more have passed, then `j` has an
entry for `i`. -/
theorem mutual_of_network {es : List (NetworkEvent T ι)} (hL : Link R i j ri rj)
    (hL' : Link R j i rj ri) (honly : ∀ a, R.receives i a → a = ri)
    (hgd : g + 2 * δ < keepAlivePeriod * keepAliveProbes)
    (hrun : Run (step R) (fun n e => Possible R n e ∧ Reliable g δ i j ri rj n e ∧
      Reliable g δ j i rj ri n e) init es n) (hpeer : rj ∈ (n.socket i).peers) :
    ∃ entered, enteredAt rj (n.socket i).log = some entered ∧
      ∀ l, (l, .launched) ∈ (n.socket i).log → entered + keepAlivePeriod ≤ l →
        entered + keepAlivePeriod + g + δ ≤ (n.socket i).now → ri ∈ (n.socket j).peers := by
  have h : Meeting g δ i j ri rj n := hrun.invariant_state .init fun _ _ h hok =>
    h.step hL hL' honly hgd hok.1 hok.2.1 hok.2.2
  obtain ⟨entered, hentered⟩ := (h.accounted.tracked rj).mem_iff.mp hpeer
  refine ⟨entered, hentered, fun l hl hlate hnow => ?_⟩
  by_contra hunknown
  have hu := h.unmet (h.known.stranger_iff.mpr hunknown)
  obtain ⟨s₁, hk⟩ := h.knows.resolve_left fun hs => hs.notMem hpeer
  -- the keep-alive message is on its way for too long
  obtain ⟨t, hsent, ht⟩ := hk.first_probe h.accounted hu.unheard hentered hl hlate
  have hfresh := h.there.fresh _ (hu.probing t hsent) (.inl ⟨rfl, rfl⟩)
  exact absurd (Nat.le_trans hnow hfresh) (Nat.not_le.mpr (Nat.add_lt_add_right ht δ))

end Steps

/-- A socket that connects the other one, which gets to know it by the first keep-alive message. -/
theorem mutual_two_sockets : ∃ n : TimedNetwork (.table UdpTask) Bool,
    sampleRemote ∈ (n.socket true).peers ∧ (n.socket true).now = seconds 3 ∧
      sampleLocal ∈ (n.socket false).peers := by
  have hrun : ∃ n : TimedNetwork (.table UdpTask) Bool, sampleRemote ∈ (n.socket true).peers ∧
      -- the probe of one side makes the other side enter it
      (n.socket true).now = seconds 3 ∧ enteredAt sampleRemote (n.socket true).log = some 0 ∧
      (seconds 1, .launched) ∈ (n.socket true).log ∧
      Run (step sampleRouting) (fun n e => Possible sampleRouting n e ∧
        Reliable (seconds 1) (seconds 1 / 2) true false sampleLocal sampleRemote n e ∧
        Reliable (seconds 1) (seconds 1 / 2) false true sampleRemote sampleLocal n e) init
        [.act true (.connect [sampleRemote]), .advance (seconds 1),
          .act true (.launch (List.range 2)), .advance (seconds 1 / 2),
          .deliver false (seconds 1) ⟨sampleLocal, sampleRemote, keepAliveMsg⟩,
          .advance (seconds 1 / 2),
          .deliver true (seconds 1 + seconds 1 / 2) ⟨sampleRemote, sampleLocal, keepAliveAckMsg⟩,
          .advance (seconds 1)] n := by
    refine ⟨_, ?_, ?_, ?_, ?_,
      .cons ⟨⟨trivial, trivial⟩, .of_connect fun _ => ?_, .of_connect fun h => ?_⟩ rfl
      (.cons ⟨trivial, .of_advance ?_, .of_advance ?_⟩ rfl
      (.cons ⟨⟨possible_launch_range _, trivial⟩, .of_launch fun _ => .inl ?_,
        .of_launch fun h => ?_⟩ rfl
      (.cons ⟨trivial, .of_advance ?_, .of_advance ?_⟩ rfl
      (.cons ⟨⟨?_, rfl⟩, .of_deliver _ _ _ _, .of_deliver _ _ _ _⟩ rfl
      (.cons ⟨trivial, .of_advance ?_, .of_advance ?_⟩ rfl
      (.cons ⟨⟨?_, rfl⟩, .of_deliver _ _ _ _, .of_deliver _ _ _ _⟩ rfl
      (.cons ⟨trivial, .of_advance ?_, .of_advance ?_⟩ rfl (.nil _))))))))⟩
    all_goals first | decide | exact absurd h (by decide)
  obtain ⟨n, hpeer, hnow, hentered, hl, hrun⟩ := hrun
  obtain ⟨entered, hentered', hmutual⟩ := mutual_of_network (link_sampleRouting true)
    (link_sampleRouting false) (fun _ ha => ha) (by decide) hrun hpeer
  obtain rfl := Option.some.inj (hentered.symm.trans hentered')
  exact ⟨n, hpeer, hnow, hmutual _ hl (by decide) (hnow ▸ by decide)⟩

end TimedNetwork

end SctpSandbox

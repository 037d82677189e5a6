import SctpSandbox.Udp.Detection
import SctpSandbox.Udp.Network

/-! # Two sockets that keep each other

A network whose sockets share a clock: the time passes for all of them, a datagram in flight reaches
a socket or gets lost, and between deliveries every socket connects, launches and sends as it likes.
If nothing between two sockets is lost or takes longer than `δ`, then every keep-alive message is
answered within `2 * δ`, whether or not the other one has an entry for the sender (`Fate`). So a
socket that launches every `g`, with `g + 2 * δ` less than the time of the probes, never declares
the other one lost, whatever the rest of the network does (`keptSince_of_network`). -/

namespace SctpSandbox

/-- What happens in a network. -/
inductive NetworkEvent (T : TaskScheduler UdpTask) (ι : Type) where
  /-- Time passes for all sockets. -/
  | advance (d : Time)
  /-- A datagram in flight since `sent` reaches socket `k`. -/
  | deliver (k : ι) (sent : Time) (d : Datagram)
  /-- The network loses a datagram. -/
  | lose (sent : Time) (d : Datagram)
  /-- The user of socket `k` or its loop calls `connect`, `launch` or `send`. -/
  | act (k : ι) (e : UdpEvent T)

/-- The sockets of a network and the datagrams in flight, each with the time it was sent at. -/
structure TimedNetwork (T : TaskScheduler UdpTask) (ι : Type) where
  socket : ι → SocketUdp T
  flight : Multiset (Time × Datagram)

namespace UdpEvent

open SocketUdp

variable {T : TaskScheduler UdpTask} {e : UdpEvent T} {msg : ChatMessage} {r : IPSocket}

/-- What the answer to an event may be told as. -/
def Does : UdpEvent T → UdpAction → Prop
  | .advance _, _ => False
  | .connect _, a => ∃ r, a = .commUp r
  | .receive r _, a => (∃ msg, a = .received msg r) ∨ a = .sent keepAliveAckMsg r ∨ a = .commUp r
  | .launch _, a => a = .launched ∨ ∃ r, a = .sent keepAliveMsg r ∨ a = .commLost r ∨ a = .commUp r
  | .send _ msg, a => ∃ r, a = .sent msg r

/-- The messages that the answer to an event sends. -/
theorem Does.sent (h : e.Does (.sent msg r)) :
    (∃ r call, e = .receive r call) ∧ msg = keepAliveAckMsg ∨
      (∃ order, e = .launch order) ∧ msg = keepAliveMsg ∨ ∃ order, e = .send order msg := by
  cases e with
  | advance d => exact absurd h id
  | connect remotes =>
      obtain ⟨r', h⟩ := h
      exact UdpAction.noConfusion h
  -- an answer to what was received
  | receive r' call =>
      rcases h with ⟨msg', h⟩ | h | h
      · exact UdpAction.noConfusion h
      · exact .inl ⟨⟨r', call, rfl⟩, (UdpAction.sent.inj h).1⟩
      · exact UdpAction.noConfusion h
  -- a ping of the launch
  | launch order =>
      rcases h with h | ⟨r', h | h | h⟩
      · exact UdpAction.noConfusion h
      · exact .inr (.inl ⟨⟨order, rfl⟩, (UdpAction.sent.inj h).1⟩)
      · exact UdpAction.noConfusion h
      · exact UdpAction.noConfusion h
  | send order msg' =>
      obtain ⟨r', h⟩ := h
      exact .inr (.inr ⟨order, by rw [(UdpAction.sent.inj h).1]⟩)

/-- Messages are received from the sender of the datagram only. -/
theorem Does.received (h : e.Does (.received msg r)) : ∃ call, e = .receive r call := by
  cases e with
  | advance d => exact absurd h id
  | connect remotes => exact h.elim fun _ h => UdpAction.noConfusion h
  | receive r' call =>
      rcases h with ⟨msg', h⟩ | h | h
      · exact ⟨call, by rw [(UdpAction.received.inj h).2]⟩
      · exact UdpAction.noConfusion h
      · exact UdpAction.noConfusion h
  | launch order =>
      rcases h with h | ⟨r', h | h | h⟩ <;> exact UdpAction.noConfusion h
  | send order msg' => exact h.elim fun _ h => UdpAction.noConfusion h

end UdpEvent

namespace SocketUdp

variable {T : TaskScheduler UdpTask} {net : ℕ → Bool} {s s' s₁ s₂ : SocketUdp T} {r r' : IPSocket}
  {acts : UdpAction → Prop} {g : Time}

/-! ## What a step writes -/

/-- No time passes, and the log only grows, by lines of this moment about `acts`. -/
structure Writes (acts : UdpAction → Prop) (s s' : SocketUdp T) : Prop where
  now : s'.now = s.now
  log : ∃ new, s'.log = new ++ s.log ∧ ∀ line ∈ new, line.1 = s.now ∧ acts line.2

/-- Nothing logged writes nothing. -/
theorem Writes.of_log (hnow : s'.now = s.now) (hlog : s'.log = s.log) : Writes acts s s' :=
  ⟨hnow, [], hlog, fun _ hmem => absurd hmem List.not_mem_nil⟩

/-- Nothing done writes nothing. -/
theorem Writes.refl (s : SocketUdp T) : Writes acts s s := .of_log rfl rfl

/-- One line writes itself. -/
theorem Writes.of_line {a : UdpAction} (ha : acts a) (hnow : s'.now = s.now)
    (hlog : s'.log = (s.now, a) :: s.log) : Writes acts s s' := by
  refine ⟨hnow, [(s.now, a)], hlog, fun line hmem => ?_⟩
  obtain rfl := List.mem_singleton.mp hmem
  exact ⟨rfl, ha⟩

/-- What two steps in a row write, they write together. -/
theorem Writes.trans (h₁ : Writes acts s s₁) (h₂ : Writes acts s₁ s') : Writes acts s s' where
  now := h₂.now.trans h₁.now
  log := by
    obtain ⟨new₁, hlog₁, hline₁⟩ := h₁.log
    obtain ⟨new₂, hlog₂, hline₂⟩ := h₂.log
    refine ⟨new₂ ++ new₁, by rw [hlog₂, hlog₁, List.append_assoc], fun line hmem => ?_⟩
    rcases List.mem_append.mp hmem with hmem | hmem
    · exact ⟨(hline₂ line hmem).1.trans h₁.now, (hline₂ line hmem).2⟩
    · exact hline₁ line hmem

/-- A send writes its own line. -/
theorem writes_send {msg : ChatMessage} (hsent : acts (.sent msg r)) :
    Writes acts s (send net msg r s).state :=
  .of_line hsent (now_send msg r s) (log_send msg r s)

/-- An entry writes its own line. -/
theorem writes_handleCommUp (hup : acts (.commUp r)) : Writes acts s (handleCommUp r s) := by
  obtain ⟨p, q, hc⟩ := handleCommUp_spec r s
  exact .of_line hup hc.now hc.log

/-- The connects write entries only. -/
theorem writes_connect (remotes : List IPSocket) (s : SocketUdp T) :
    Writes (fun a => ∃ r, a = .commUp r) s (connect remotes s) := by
  induction remotes generalizing s with
  | nil => exact .refl s
  | cons r rs ih => exact (writes_handleCommUp ⟨r, rfl⟩).trans (ih _)

/-- A loss writes its own line. -/
theorem writes_handleCommLost (hlost : acts (.commLost r)) :
    Writes acts s (handleCommLost r s) := by
  obtain ⟨p, hp⟩ := scheduleReestablishment_spec r (s.record (.commLost r))
  have hrem := remove_spec r (scheduleReestablishment r (s.record (.commLost r)))
  exact .of_line hlost (hrem.now.trans hp.now) (hrem.log.trans hp.log)

/-- A datagram writes what its event may do. -/
theorem writes_handleMessage (hwf : s.WF) (r : IPSocket) (call : RecvCall) :
    Writes (UdpEvent.Does (T := T) (.receive r call)) s (handleMessage net r call s).state := by
  cases call with
  | failed e => exact .refl s
  | wrote data =>
      have h₀ : Writes (UdpEvent.Does (T := T) (.receive r (.wrote data))) s
          (s.record (.received (cStr data) r)) := .of_line (.inl ⟨_, rfl⟩) rfl rfl
      have hwf₀ : (s.record (.received (cStr data) r)).WF := hwf.congr rfl rfl
      rw [handleMessage, handleChatMessage]
      split
      · -- a farewell removes without a line
        have hrem := remove_spec r (s.record (.received (cStr data) r))
        exact h₀.trans (.of_log hrem.now hrem.log)
      · refine (Outcome.andThen_state (P := fun s' : SocketUdp T => s'.WF ∧ Writes _ s s') ?_
          fun s₁ hs₁ => ?_).2
        · split
          · exact ⟨(local_send hwf₀ keepAliveAckMsg r).wf,
              h₀.trans (writes_send (.inr (.inl rfl)))⟩
          · exact ⟨hwf₀, h₀⟩
        · -- the acknowledgement has been sent: the tasks are restarted or the entry is made
          split
          case isTrue hr =>
            obtain ⟨p, hp⟩ := resetTasks_spec hs₁.1 hr
            exact ⟨hp.wf hs₁.1, hs₁.2.trans (.of_log hp.now hp.log)⟩
          case isFalse hr =>
            exact ⟨(local_handleCommUp hs₁.1 r).wf,
              hs₁.2.trans (writes_handleCommUp (.inr (.inr rfl)))⟩

/-- A task writes what a launch may do. -/
theorem writes_launchTask (net : ℕ → Bool) (order : List T.Ptr) (p : T.Ptr) (s : SocketUdp T) :
    Writes (UdpEvent.Does (.launch order)) s (launchTask net p s).state := by
  -- what each function of a task writes by itself
  have hrun : ∀ f, Writes (UdpEvent.Does (.launch order)) s (runFunction net f s).state := by
    intro f
    cases f with
    | ping r => exact writes_send (.inr ⟨r, .inl rfl⟩)
    | commLost r => exact writes_handleCommLost (.inr ⟨r, .inr (.inl rfl)⟩)
    | reconnect r => exact writes_handleCommUp (.inr ⟨r, .inr (.inr rfl)⟩)
  have hl := launchTask_spec net p s
  generalize launchTask net p s = o at hl ⊢
  cases hl with
  | idle _ => exact .refl s
  | threw t s₁ _ _ hthrew => exact hthrew ▸ hrun t.function
  | ran t s₁ _ _ hran =>
      have hc := complete_spec p s₁
      have h₁ : Writes (UdpEvent.Does (.launch order)) s s₁ := by
        have := hrun t.function
        rwa [hran] at this
      exact h₁.trans (.of_log hc.now hc.log)

/-- **What a step writes**, unless time passes: the log grows, by lines of this moment that tell
what such an event does. -/
theorem writes_step (net : ℕ → Bool) (hwf : s.WF) {e : UdpEvent T} (hadv : ∀ d, e ≠ .advance d) :
    Writes e.Does s (step net s e).state := by
  cases e with
  | advance d => exact absurd rfl (hadv d)
  | connect remotes => exact writes_connect remotes s
  | receive r call => exact writes_handleMessage hwf r call
  | launch order =>
      have h₀ : Writes (UdpEvent.Does (.launch order)) s (s.record .launched) :=
        .of_line (.inl rfl) rfl rfl
      exact Outcome.forEach_state h₀ fun p _ s₁ h₁ => h₁.trans (writes_launchTask net order p s₁)
  | send order msg =>
      exact Outcome.forEach_state (.refl s) fun r _ s₁ h₁ => h₁.trans (writes_send ⟨r, rfl⟩)

/-- With a `sendto` that succeeds, what a step puts on the wire are the sent lines it writes. -/
theorem mem_emitted {new : List (Time × UdpAction)} {line : ChatMessage × IPSocket}
    (hnet : ∀ k, net k = true) (hlog : s'.log = new ++ s.log) :
    line ∈ emitted net s s' ↔ ∃ t, (t, .sent line.1 line.2) ∈ new := by
  -- with every sendto taken nothing is filtered out
  have hall : ∀ (l : List (ChatMessage × IPSocket)) (n : ℕ), ((l.zipIdx n).filterMap fun x =>
      if net x.2 then some x.1 else none) = l := by
    intro l n
    simp only [hnet, if_true]
    exact (congrFun List.filterMap_eq_map' _).trans (List.zipIdx_map_fst n l)
  rw [emitted_of_log hlog, hall, List.mem_filterMap]
  constructor
  · rintro ⟨⟨t, a⟩, hmem, ha⟩
    cases a <;> simp only [sentLine, reduceCtorEq, Option.some.injEq] at ha
    exact ⟨t, ha ▸ List.mem_reverse.mp hmem⟩
  · rintro ⟨t, hmem⟩
    exact ⟨_, List.mem_reverse.mpr hmem, rfl⟩

/-- A datagram that is no quit message leaves a line and its sender in the table. -/
theorem received_handleMessage (net : ℕ → Bool) (r : IPSocket) (data : List Byte)
    (s : SocketUdp T) : ∃ new, (handleMessage net r (.wrote data) s).state.log = new ++ s.log ∧
      (s.now, .received (cStr data) r) ∈ new := by
  obtain ⟨new, -, hlog⟩ := log_handleChatMessage net (cStr data) r
    (s.record (.received (cStr data) r))
  refine ⟨new ++ (if cStr data = keepAliveMsg then [(s.now, .sent keepAliveAckMsg r)] else []) ++
    [(s.now, .received (cStr data) r)], ?_, ?_⟩
  · rw [handleMessage, hlog]
    simp [record]
  · exact List.mem_append_right _ (List.mem_singleton_self _)

/-! ## Remotes that enter -/

/-- Peers stay when a remote is connected. -/
theorem mem_connect {remotes : List IPSocket} (hr : r ∈ remotes ∨ r ∈ s.peers) :
    r ∈ (connect remotes s).peers := by
  induction remotes generalizing s with
  | nil => exact hr.resolve_left List.not_mem_nil
  | cons r' rs ih =>
      obtain ⟨p, q, hc⟩ := handleCommUp_spec r' s
      refine ih (or_iff_not_imp_left.mpr fun hrs => ?_)
      by_cases heq : r = r'
      · exact heq ▸ hc.mem
      · have hmem : r ∈ s.peers := hr.resolve_left fun hmem =>
          (List.mem_cons.mp hmem).elim heq hrs
        rwa [← AList.lookup_isSome, hc.lookup r heq, AList.lookup_isSome]

/-- The sender of a datagram that is no farewell is in the table, when the handling returns. -/
theorem mem_handleMessage (hwf : s.WF) {data : List Byte} (hquit : cStr data ≠ quitMsg) :
    (handleMessage net r (.wrote data) s).Ends (r ∈ ·.peers) fun _ => True := by
  have h₁ : (s.record (.received (cStr data) r)).WF := hwf.congr rfl rfl
  rw [handleMessage, handleChatMessage, if_neg hquit]
  refine Outcome.Ends.andThen (I := WF) ?_ fun s₂ hs₂ => ?_
  · split
    · exact (Outcome.ends_of_state (local_send h₁ keepAliveAckMsg r).wf).imp (fun _ hs => hs)
        fun _ _ => trivial
    · exact h₁
  · split
    case isTrue hr =>
      obtain ⟨p, hp⟩ := resetTasks_spec hs₂ hr
      exact (hp.mem r).mpr hr
    case isFalse hr =>
      obtain ⟨p, q, hc⟩ := handleCommUp_spec r s₂
      exact hc.mem

/-- **A remote nobody knows stays unknown, or enters**, in a step that returns, unless it quits. -/
theorem Unknown.settles {e : UdpEvent T} (hu : Unknown r s) (hc : ConnectsOnce r e)
    (hquit : NoQuit r e) (hret : (SocketUdp.step net s e).Returns) :
    Unknown r (SocketUdp.step net s e).state ∨ JustEntered r (SocketUdp.step net s e).state := by
  have henters : Entering r (SocketUdp.step net s e).state := (hu.step hc).of_returns hret
  cases e with
  | advance d =>
      have hpast : ∀ l ∈ s.log, l.1 ≤ s.now + d := fun l hl =>
        Nat.le_trans (hu.past l hl) (Nat.le_add_right _ _)
      exact .inl ⟨hu.wf.congr rfl rfl, hpast,
        hu.absent.entry, hu.absent.task⟩
  | connect remotes =>
      by_cases hr : r ∈ remotes
      · exact .inr (henters (mem_connect (.inl hr)))
      · exact .inl (connect_of_local hu (fun _ h => h.wf) (fun _ _ _ h => h.of_local) hr)
  | receive r' call =>
      by_cases hr : r = r'
      · subst hr
        cases call with
        | failed err => exact .inl hu
        | wrote data =>
            have hmem : r ∈ (handleMessage net r (.wrote data) s).state.peers :=
              (mem_handleMessage hu.wf (hquit data rfl)).of_returns hret
            exact .inr (henters hmem)
      · exact .inl (hu.of_local (local_handleMessage hu.wf r' call) hr)
  | launch order =>
      have h₀ : Unknown r (s.record .launched) :=
        ⟨hu.wf.congr rfl rfl, hu.past.record _, hu.absent.entry, hu.absent.task⟩
      refine .inl (Outcome.forEach_state h₀ fun x _ s₁ h₁ => ?_)
      rcases local_launchTask net h₁.wf x with ⟨heq, -⟩ | ⟨t, ht, -, hl⟩
      · rw [heq]
        exact h₁
      · exact h₁.of_local hl (h₁.absent.task x t ht).symm
  | send order msg =>
      refine .inl (Outcome.forEach_state hu fun r' hr' s₁ h₁ => ?_)
      refine h₁.of_local (local_send h₁.wf msg r') ?_
      -- a message goes to peers only
      rintro rfl
      exact hu.absent.entry (of_decide_eq_true (List.mem_filter.mp hr').2)

/-! ## Steps of one socket -/

/-- The steps of a socket that launches within `g` and connects `r` once, while it has no entry. -/
structure Orderly (g : Time) (r : IPSocket) (s : SocketUdp T) (e : UdpEvent T) : Prop where
  polled : ∀ order, e = .launch order → s.now ≤ g ∨ ∃ l, (l, .launched) ∈ s.log ∧ s.now ≤ l + g
  connects : ∀ remotes, e = .connect remotes →
    remotes.count r ≤ 1 ∧ (r ∈ remotes → r ∉ s.peers)

/-- An orderly step connects the remote at most once. -/
theorem Orderly.connectsOnce {e : UdpEvent T} (h : Orderly g r s e) : ConnectsOnce r e := by
  cases e with
  | connect remotes => exact (h.connects remotes rfl).1
  | _ => trivial

/-- The launches within `g` are in time since any earlier moment. -/
theorem Orderly.polledWithin {e : UdpEvent T} (h : Orderly g r s e) {order : List T.Ptr}
    (he : e = .launch order) (s₁ : SocketUdp T) : PolledWithin g s₁ s := by
  by_cases hany : ∃ l, (l, .launched) ∈ s.log
  · rcases h.polled order he with hnow | hpolled
    · obtain ⟨l, hl⟩ := hany
      exact .inl ⟨l, hl, Nat.le_trans hnow (Nat.le_add_left g l)⟩
    · exact .inl hpolled
  · rcases h.polled order he with hnow | ⟨l, hl, -⟩
    · exact .inr ⟨fun t ht => hany ⟨t, ht⟩, Nat.le_trans hnow (Nat.le_add_left g _)⟩
    · exact absurd ⟨l, hl⟩ hany

/-- Step lemma: between orderly steps, with the probes answered in time, the entry is kept. -/
theorem Kept.orderly {e : UdpEvent T} {d : Time} (hk : Kept g r s₁ s)
    (hgd : g + d < keepAlivePeriod * keepAliveProbes) (hposs : s.Possible e)
    (hans : Answered d r s₁ s) (ho : Orderly g r s e) (hquit : NoQuit r e)
    (hret : (SocketUdp.step net s e).Returns) : Kept g r s₁ (SocketUdp.step net s e).state := by
  have hresp : Responsive g d r s₁ s e := by
    refine ⟨hans, fun order he => ho.polledWithin he s₁, fun remotes he hr => ?_, fun data he => ?_⟩
    · exact (ho.connects remotes he).2 hr hk.keptSince.1
    · exact hquit data he
  exact (hk.step hgd hposs hresp).of_returns hret

/-- The log of a socket only grows. -/
theorem log_step (net : ℕ → Bool) (hwf : s.WF) (e : UdpEvent T) :
    ∃ new, (step net s e).state.log = new ++ s.log := by
  by_cases hadv : ∃ d, e = .advance d
  · obtain ⟨d, rfl⟩ := hadv
    exact ⟨[], rfl⟩
  · obtain ⟨new, hlog, -⟩ := (writes_step net hwf fun d he => hadv ⟨d, he⟩).log
    exact ⟨new, hlog⟩

end SocketUdp

namespace TimedNetwork

open SocketUdp UdpNetwork

variable {T : TaskScheduler UdpTask} {ι : Type} {R : Routing ι}
  {n n₁ : TimedNetwork T ι} {i j k : ι} {ri rj : IPSocket} {g δ t : Time}
  {l₁ l₂ : List (Time × UdpAction)} {f f' : Multiset (Time × Datagram)}

/-- Socket `k` answers an event, and what it puts on the wire is in flight from now on. An exception
leaves the socket as it was at the throw. -/
def answer [DecidableEq ι] (R : Routing ι) (k : ι) (e : UdpEvent T) (n : TimedNetwork T ι) :
    TimedNetwork T ι :=
  let s := n.socket k
  let s' := (SocketUdp.step (R.net k) s e).state
  { socket := Function.update n.socket k s'
    flight := n.flight + (launched R k (emitted (R.net k) s s')).map fun d => (s.now, d) }

/-- One step of the network. -/
def step [DecidableEq ι] (R : Routing ι) (n : TimedNetwork T ι) :
    NetworkEvent T ι → Outcome (TimedNetwork T ι)
  | .advance d =>
      .returned { n with socket := fun k => { n.socket k with now := (n.socket k).now + d } }
  | .deliver k sent d =>
      .returned (answer R k (.receive d.source (.wrote d.data))
        { n with flight := n.flight.erase (sent, d) })
  | .lose sent d => .returned { n with flight := n.flight.erase (sent, d) }
  | .act k e => .returned (answer R k e n)

/-- Datagrams in flight are delivered where they are sent or lost; a user or a loop does not receive
and lets no time pass. -/
def Possible (R : Routing ι) (n : TimedNetwork T ι) : NetworkEvent T ι → Prop
  | .advance _ => True
  | .deliver k sent d => (sent, d) ∈ n.flight ∧ R.receives k d.destination
  | .lose sent d => (sent, d) ∈ n.flight
  | .act k e => (n.socket k).Possible e ∧
      match e with
      | .connect _ | .launch _ | .send _ _ => True
      | _ => False

/-- Nothing has happened yet. -/
def init : TimedNetwork T ι := ⟨fun _ => {}, 0⟩

/-! ## The conditions -/

/-- Sockets `i` and `j` reach each other, as `ri` and `rj`, and every `sendto` of theirs
succeeds. -/
structure Link (R : Routing ι) (i j : ι) (ri rj : IPSocket) : Prop where
  ne : i ≠ j
  there : ∀ k, R.receives k rj → k = j
  back : ∀ k, R.receives k ri → k = i
  source_there : R.source i rj = ri
  source_back : R.source j ri = rj
  /-- Nobody else is seen as `rj`. -/
  owner : ∀ k a, R.source k a = rj → k = j
  sends : ∀ k, R.net i k = true ∧ R.net j k = true

/-- Over a link every `sendto` succeeds. -/
theorem Link.net_eq (hL : Link R i j ri rj) : R.net i = fun _ => true :=
  funext fun m => (hL.sends m).1

/-- The datagram goes from one of the two to the other. -/
def Between (ri rj : IPSocket) (d : Datagram) : Prop :=
  d.source = ri ∧ d.destination = rj ∨ d.source = rj ∧ d.destination = ri

/-- The steps in which nothing between `i` and `j` gets lost or is in flight for longer than `δ`,
`i` is orderly and `j` sends no quit message. -/
structure Reliable (g δ : Time) (i j : ι) (ri rj : IPSocket) (n : TimedNetwork T ι)
    (e : NetworkEvent T ι) : Prop where
  inTime : ∀ d, e = .advance d → ∀ x ∈ n.flight, Between ri rj x.2 →
    (n.socket i).now + d ≤ x.1 + δ
  kept : ∀ sent d, e = .lose sent d → ¬ Between ri rj d
  orderly : ∀ u, e = .act i u → Orderly g rj (n.socket i) u
  noQuit : ∀ order msg, e = .act j (.send order msg) → cStr msg ≠ quitMsg

/-- Time may pass as long as nothing in flight gets older than the delay. -/
theorem Reliable.of_advance {d : Time}
    (h : ∀ x ∈ n.flight, (n.socket i).now + d ≤ x.1 + δ) :
    Reliable g δ i j ri rj n (.advance d) := by
  refine ⟨fun d' hd x hx _ => ?_, fun _ _ => nofun, fun _ => nofun, fun _ _ => nofun⟩
  obtain rfl := NetworkEvent.advance.inj hd
  exact h x hx

/-- A delivery asks for nothing. -/
theorem Reliable.of_deliver (n : TimedNetwork T ι) (k : ι) (sent : Time) (d : Datagram) :
    Reliable g δ i j ri rj n (.deliver k sent d) :=
  ⟨fun _ => nofun, fun _ _ => nofun, fun _ => nofun, fun _ _ => nofun⟩

/-- A launch must come within `g` of the last one. -/
theorem Reliable.of_launch {order : List T.Ptr} (h : k = i → (n.socket i).now ≤ g ∨
      ∃ l, (l, .launched) ∈ (n.socket i).log ∧ (n.socket i).now ≤ l + g) :
    Reliable g δ i j ri rj n (.act k (.launch order)) := by
  refine ⟨fun _ => nofun, fun _ _ => nofun, fun u hu => ?_, fun _ _ hu => ?_⟩
  · obtain ⟨hk, rfl⟩ := NetworkEvent.act.inj hu
    exact ⟨fun _ _ => h hk, fun _ => nofun⟩
  · exact absurd (NetworkEvent.act.inj hu).2 (by simp)

/-- A connect must name the other once at most, and only a stranger. -/
theorem Reliable.of_connect {remotes : List IPSocket} (h : k = i → remotes.count rj ≤ 1 ∧
      (rj ∈ remotes → rj ∉ (n.socket i).peers)) :
    Reliable g δ i j ri rj n (.act k (.connect remotes)) := by
  refine ⟨fun _ => nofun, fun _ _ => nofun, fun u hu => ?_, fun _ _ hu => ?_⟩
  · obtain ⟨hk, rfl⟩ := NetworkEvent.act.inj hu
    refine ⟨fun _ => nofun, fun remotes' hr => ?_⟩
    obtain rfl := UdpEvent.connect.inj hr
    exact h hk
  · exact absurd (NetworkEvent.act.inj hu).2 (by simp)

/-! ## The invariant -/

/-- What became of a keep-alive message that `i` sent at `t`, with `l₁` written since: it is in
flight, its answer is, or a datagram came back. -/
def Fate (ri rj : IPSocket) (δ t : Time) (l₁ : List (Time × UdpAction))
    (f : Multiset (Time × Datagram)) : Prop :=
  (t, ⟨ri, rj, keepAliveMsg⟩) ∈ f ∨
    (∃ t', t' ≤ t + δ ∧ (t', ⟨rj, ri, keepAliveAckMsg⟩) ∈ f) ∨
    ∃ t' msg, (t', .received msg rj) ∈ l₁ ∧ t' ≤ t + 2 * δ

/-- More lines and other datagrams do not change a fate. -/
theorem Fate.imp (h : Fate ri rj δ t l₁ f) (new : List (Time × UdpAction))
    (hf : ∀ x ∈ f, Between ri rj x.2 → x ∈ f') : Fate ri rj δ t (new ++ l₁) f' := by
  rcases h with hka | ⟨t', ht', hack⟩ | ⟨t', msg, hmem, ht'⟩
  · exact .inl (hf _ hka (.inl ⟨rfl, rfl⟩))
  · exact .inr (.inl ⟨t', ht', hf _ hack (.inr ⟨rfl, rfl⟩)⟩)
  · exact .inr (.inr ⟨t', msg, List.mem_append_right _ hmem, ht'⟩)

/-- What the steps of a reliable network keep. -/
structure Linked (i : ι) (ri rj : IPSocket) (δ : Time) (n : TimedNetwork T ι) : Prop where
  wf : ∀ k, (n.socket k).WF
  clock : ∀ k, (n.socket k).now = (n.socket i).now
  fresh : ∀ x ∈ n.flight, Between ri rj x.2 → (n.socket i).now ≤ x.1 + δ
  honest : ∀ x ∈ n.flight, x.2.source = rj → cStr x.2.data ≠ quitMsg
  fates : ∀ l₁ l₂ t, (n.socket i).log = l₁ ++ (t, .sent keepAliveMsg rj) :: l₂ →
    Fate ri rj δ t l₁ n.flight

/-- At the start nothing is in flight. -/
theorem Linked.init : Linked i ri rj δ (init : TimedNetwork T ι) where
  wf := fun _ => .init
  clock := fun _ => rfl
  fresh := fun x hx => absurd hx (Multiset.notMem_zero x)
  honest := fun x hx => absurd hx (Multiset.notMem_zero x)
  fates := fun l₁ l₂ t h => absurd h (by simp [TimedNetwork.init])

/-- Every keep-alive message is answered in the time of two datagrams. -/
theorem Linked.answered (h : Linked i ri rj δ n) (s₁ : SocketUdp T) :
    Answered (2 * δ) rj s₁ (n.socket i) := by
  intro l₁ l₂ t hlog
  have hδ : δ ≤ 2 * δ := Nat.le_mul_of_pos_left δ Nat.two_pos
  rcases h.fates l₁ (l₂ ++ s₁.log) t hlog with hka | ⟨t', ht', hack⟩ | hback
  · exact .inl (Nat.le_trans (h.fresh _ hka (.inl ⟨rfl, rfl⟩)) (Nat.add_le_add_left hδ t))
  · have hnow : (n.socket i).now ≤ t' + δ := h.fresh _ hack (.inr ⟨rfl, rfl⟩)
    refine .inl (Nat.le_trans hnow ?_)
    rw [Nat.two_mul, ← Nat.add_assoc]
    exact Nat.add_le_add_right ht' δ
  · exact .inr hback

/-- Where the line of a message stands in a log that has grown. -/
theorem split_log {new old : List (Time × UdpAction)} {x : Time × UdpAction}
    (h : new ++ old = l₁ ++ x :: l₂) : x ∈ new ∨ ∃ l, l₁ = new ++ l ∧ old = l ++ x :: l₂ := by
  rcases List.append_eq_append_iff.mp h with ⟨l, hl, hold⟩ | ⟨l, hl, hrest⟩
  · exact .inr ⟨l, hl, hold⟩
  · cases l with
    | nil => exact .inr ⟨[], by rw [List.append_nil] at hl ⊢; exact hl.symm, hrest.symm⟩
    | cons y l =>
        obtain ⟨rfl, -⟩ := List.cons.inj hrest
        exact .inl (hl ▸ List.mem_append_right _ List.mem_cons_self)

/-! ## Steps of the network -/

section Steps

variable [DecidableEq ι] {e : UdpEvent T}

/-- A socket's step leaves the others. -/
theorem socket_answer_ne (hne : i ≠ k) : (answer R k e n).socket i = n.socket i :=
  Function.update_of_ne hne _ _

/-- A socket's step is that of its own system. -/
theorem socket_answer_self : (answer R k e n).socket k =
    (SocketUdp.step (R.net k) (n.socket k) e).state := Function.update_self ..

/-- A socket's step adds what it emitted to the flight. -/
theorem mem_flight_answer {x : Time × Datagram} : x ∈ (answer R k e n).flight ↔ x ∈ n.flight ∨
    ∃ line ∈ emitted (R.net k) (n.socket k) ((answer R k e n).socket k),
      x = ((n.socket k).now, ⟨R.source k line.2, line.2, line.1⟩) := by
  rw [socket_answer_self]
  simp [answer, launched, eq_comm]

/-- A message that `i` sends to `j` in an answer is in flight. -/
theorem mem_flight_of_sent (hL : Link R i j ri rj) {new : List (Time × UdpAction)}
    {msg : ChatMessage}
    (hgrown : (SocketUdp.step (R.net i) (n.socket i) e).state.log = new ++ (n.socket i).log)
    (hsent : (t, .sent msg rj) ∈ new) :
    ((n.socket i).now, ⟨ri, rj, msg⟩) ∈ (answer R i e n).flight := by
  refine mem_flight_answer.mpr (.inr ⟨(msg, rj), ?_, by rw [hL.source_there]⟩)
  rw [socket_answer_self]
  exact (mem_emitted (fun m => (hL.sends m).1) hgrown).mpr ⟨t, hsent⟩

/-- What is in flight as from `j` was so before, or `j` has just sent it: nobody else is seen as
`rj`. -/
theorem sent_of_mem_flight (hL : Link R i j ri rj) {new : List (Time × UdpAction)}
    (hgrown : (SocketUdp.step (R.net k) (n.socket k) e).state.log = new ++ (n.socket k).log)
    {x : Time × Datagram} (hx : x ∈ (answer R k e n).flight) (hsource : x.2.source = rj) :
    x ∈ n.flight ∨ k = j ∧ ∃ t, (t, .sent x.2.data x.2.destination) ∈ new := by
  rcases mem_flight_answer.mp hx with hx | ⟨line, hline, rfl⟩
  · exact .inl hx
  · obtain rfl := hL.owner k line.2 hsource
    rw [socket_answer_self] at hline
    exact .inr ⟨rfl, (mem_emitted (fun m => (hL.sends m).2) hgrown).mp hline⟩

/-- The clocks and the handles are in order after an answer. -/
theorem answer_clock (h : Linked i ri rj δ n) (hadv : ∀ d, e ≠ .advance d) (a : ι) :
    ((answer R k e n).socket a).WF ∧ ((answer R k e n).socket a).now = (n.socket i).now := by
  by_cases hak : a = k
  · subst hak
    rw [socket_answer_self]
    exact ⟨wf_step (h.wf a) e, (writes_step (R.net a) (h.wf a) hadv).now.trans (h.clock a)⟩
  · rw [socket_answer_ne hak]
    exact ⟨h.wf a, h.clock a⟩

/-- **An answer** keeps the invariant if it keeps the fates of the messages sent before. -/
theorem linked_answer (h : Linked i ri rj δ n) (hL : Link R i j ri rj) (hadv : ∀ d, e ≠ .advance d)
    (hquit : k = j → ∀ msg r, e.Does (.sent msg r) → cStr msg ≠ quitMsg)
    (hf : ∀ x ∈ f, x ∈ n.flight)
    (hold : ∀ new l₁ l₂ t, ((answer R k e { n with flight := f }).socket i).log =
        new ++ (n.socket i).log → (n.socket i).log = l₁ ++ (t, .sent keepAliveMsg rj) :: l₂ →
      Fate ri rj δ t (new ++ l₁) (answer R k e { n with flight := f }).flight) :
    Linked i ri rj δ (answer R k e { n with flight := f }) := by
  have hclock := fun a => answer_clock (R := R) (k := k) h hadv a
  obtain ⟨new, hgrown, hnew⟩ := (writes_step (R.net k) (h.wf k) hadv).log
  -- the clocks still agree, and nothing in flight got older
  refine ⟨fun a => (hclock a).1, fun a => (hclock a).2.trans (hclock i).2.symm, fun x hx hb => ?_,
    fun x hx hsource => ?_, fun l₁ l₂ t hlog => ?_⟩
  · rw [show (answer R k e { n with flight := f }).socket i =
      (answer R k e n).socket i from rfl, (hclock i).2]
    rcases mem_flight_answer.mp hx with hx | ⟨line, -, rfl⟩
    · exact h.fresh x (hf x hx) hb
    · exact (h.clock k) ▸ Nat.le_add_right _ δ
  · rcases sent_of_mem_flight (n := { n with flight := f }) hL hgrown hx hsource with
      hx | ⟨hkj, t, ht⟩
    · exact h.honest x (hf x hx) hsource
    · exact hquit hkj _ _ (hnew _ ht).2
  · -- only `i`'s own step adds to its log
    by_cases hik : i = k
    · subst hik
      have hgrown' : ((answer R i e { n with flight := f }).socket i).log =
          new ++ (n.socket i).log := (congrArg SocketUdp.log socket_answer_self).trans hgrown
      rcases split_log (hgrown'.symm.trans hlog) with hmem | ⟨l, rfl, hl⟩
      · -- a message sent now is in flight
        have ht : t = (n.socket i).now := (hnew _ hmem).1
        exact .inl (ht ▸ mem_flight_of_sent (n := { n with flight := f }) hL hgrown hmem)
      · exact hold new l l₂ t hgrown' hl
    · have hsame : ((answer R k e { n with flight := f }).socket i).log =
          [] ++ (n.socket i).log := congrArg SocketUdp.log (socket_answer_ne hik)
      exact hold [] l₁ l₂ t hsame (hsame.symm.trans hlog)

/-- **What became of the messages sent before a delivery**: a keep-alive message that arrives is
answered, an answer that arrives is written down. -/
theorem fate_deliver (h : Linked i ri rj δ n) (hL : Link R i j ri rj) {d : Datagram}
    {sent : Time} (hmem : (sent, d) ∈ n.flight) (hto : R.receives k d.destination)
    {new : List (Time × UdpAction)}
    (hnew : ((answer R k (.receive d.source (.wrote d.data))
      { n with flight := n.flight.erase (sent, d) }).socket i).log = new ++ (n.socket i).log)
    (hlog : (n.socket i).log = l₁ ++ (t, .sent keepAliveMsg rj) :: l₂) :
    Fate ri rj δ t (new ++ l₁) (answer R k (.receive d.source (.wrote d.data))
      { n with flight := n.flight.erase (sent, d) }).flight := by
  have hstays : ∀ x ∈ n.flight, x ≠ (sent, d) → x ∈ (answer R k
      (.receive d.source (.wrote d.data)) { n with flight := n.flight.erase (sent, d) }).flight :=
    fun x hx hne => mem_flight_answer.mpr (.inl ((Multiset.mem_erase_of_ne hne).mpr hx))
  -- where the probe is: under way, answered, or its answer received
  rcases h.fates l₁ l₂ t hlog with hka | ⟨t', ht', hack⟩ | ⟨t', msg, hback, ht'⟩
  · by_cases heq : (t, (⟨ri, rj, keepAliveMsg⟩ : Datagram)) = (sent, d)
    · -- the message arrives, and its answer is in flight
      obtain ⟨rfl, rfl⟩ := Prod.mk.inj heq
      obtain rfl := hL.there k hto
      refine .inr (.inl ⟨(n.socket k).now, ?_, mem_flight_answer.mpr
        (.inr ⟨(keepAliveAckMsg, ri), ?_, by rw [hL.source_back]⟩)⟩)
      · exact h.clock k ▸ h.fresh _ hmem (.inl ⟨rfl, rfl⟩)
      · rw [socket_answer_self]
        refine (emitted_handleMessage (R.net k) ri keepAliveMsg (n.socket k)).symm ▸ ?_
        rw [if_pos ⟨by decide, (hL.sends _).2⟩]
        exact List.mem_singleton_self _
    · exact .inl (hstays _ hka heq)
  · by_cases heq : (t', (⟨rj, ri, keepAliveAckMsg⟩ : Datagram)) = (sent, d)
    · -- the answer arrives
      obtain ⟨rfl, rfl⟩ := Prod.mk.inj heq
      obtain rfl := hL.back k hto
      obtain ⟨new', hlog', hline⟩ := received_handleMessage (R.net k) rj keepAliveAckMsg
        (n.socket k)
      rw [socket_answer_self] at hnew
      obtain rfl := List.append_cancel_right (hlog'.symm.trans hnew)
      refine .inr (.inr ⟨_, _, List.mem_append_left _ hline, ?_⟩)
      have hnow : (n.socket k).now ≤ t' + δ := h.fresh _ hmem (.inr ⟨rfl, rfl⟩)
      refine Nat.le_trans hnow ?_
      rw [Nat.two_mul, ← Nat.add_assoc]
      exact Nat.add_le_add_right ht' δ
    · exact .inr (.inl ⟨t', ht', hstays _ hack heq⟩)
  · exact .inr (.inr ⟨t', msg, List.mem_append_right _ hback, ht'⟩)

/-- **Every reliable step keeps the invariant.** -/
theorem linked_step {e : NetworkEvent T ι} (h : Linked i ri rj δ n) (hL : Link R i j ri rj)
    (hposs : Possible R n e) (hrel : Reliable g δ i j ri rj n e) :
    Linked i ri rj δ (step R n e).state := by
  cases e with
  -- time passes no further than the delay of what is in flight
  | advance d =>
      refine ⟨fun k => (h.wf k).congr rfl rfl, fun k => congrArg (· + d) (h.clock k),
        fun x hx hb => hrel.inTime d rfl x hx hb, h.honest, h.fates⟩
  -- a delivery is answered with nothing but an acknowledgement
  | deliver k sent d =>
      refine linked_answer h hL (fun _ => nofun) (fun _ msg r hdoes => ?_)
        (fun x hx => Multiset.mem_of_mem_erase hx) fun new l₁ l₂ t hnew hlog =>
        fate_deliver h hL hposs.1 hposs.2 hnew hlog
      have hack : cStr keepAliveAckMsg ≠ quitMsg := by decide
      rcases hdoes with ⟨msg', hdoes⟩ | hdoes | hdoes
      · exact UdpAction.noConfusion hdoes
      · exact (UdpAction.sent.inj hdoes).1 ▸ hack
      · exact UdpAction.noConfusion hdoes
  | lose sent d =>
      have hstays : ∀ x ∈ n.flight, Between ri rj x.2 → x ∈ n.flight.erase (sent, d) := by
        intro x hx hb
        refine (Multiset.mem_erase_of_ne ?_).mpr hx
        rintro rfl
        exact hrel.kept sent d rfl hb
      exact ⟨h.wf, h.clock, fun x hx => h.fresh x (Multiset.mem_of_mem_erase hx),
        fun x hx => h.honest x (Multiset.mem_of_mem_erase hx),
        fun l₁ l₂ t hlog => (h.fates l₁ l₂ t hlog).imp [] hstays⟩
  -- a socket that acts says no farewell
  | act k u =>
      have hadv : ∀ d, u ≠ .advance d := by
        rintro d rfl
        exact hposs.2
      refine linked_answer h hL hadv (fun hkj msg r hdoes => ?_) (fun x hx => hx)
        fun new l₁ l₂ t _ hlog => (h.fates l₁ l₂ t hlog).imp new fun x hx _ =>
          mem_flight_answer.mpr (.inl hx)
      subst hkj
      have hka : cStr keepAliveMsg ≠ quitMsg := by decide
      rcases hdoes.sent with ⟨⟨r', call, rfl⟩, -⟩ | ⟨-, rfl⟩ | ⟨order, rfl⟩
      · exact absurd hposs.2 id
      · exact hka
      · exact hrel.noQuit order msg rfl

/-- **What a step is to one socket**: nothing, or a step of its own. -/
theorem socket_step {e : NetworkEvent T ι} (h : Linked i ri rj δ n)
    (hposs : Possible R n e) (hrel : Reliable g δ i j ri rj n e) :
    (step R n e).state.socket i = n.socket i ∨ ∃ u : UdpEvent T,
      (step R n e).state.socket i = (SocketUdp.step (R.net i) (n.socket i) u).state ∧
      (n.socket i).Possible u ∧ Orderly g rj (n.socket i) u ∧ NoQuit rj u ∧
      ∀ r err, u ≠ .receive r (.failed err) := by
  cases e with
  | advance d =>
      exact .inr ⟨.advance d, rfl, trivial, ⟨fun _ => nofun, fun _ => nofun⟩, fun _ => nofun,
        fun _ _ => nofun⟩
  | lose sent d => exact .inl rfl
  -- `i` sees the delivery as a datagram, and no other step of the network
  | deliver k sent d =>
      by_cases hik : i = k
      · subst hik
        refine .inr ⟨.receive d.source (.wrote d.data), socket_answer_self, trivial,
          ⟨fun _ => nofun, fun _ => nofun⟩, fun data heq => ?_, fun _ _ => nofun⟩
        obtain ⟨hsource, hcall⟩ := UdpEvent.receive.inj heq
        obtain rfl := RecvCall.wrote.inj hcall
        exact h.honest _ hposs.1 hsource
      · exact .inl (socket_answer_ne hik)
  | act k u =>
      by_cases hik : i = k
      · subst hik
        refine .inr ⟨u, socket_answer_self, hposs.1, hrel.orderly u rfl, ?_, ?_⟩
        · rintro data rfl
          exact absurd hposs.2 id
        · rintro r err rfl
          exact hposs.2
      · exact .inl (socket_answer_ne hik)

/-! ## Runs -/

/-- A peer that is kept is kept by every reliable step. -/
theorem kept_step {e : NetworkEvent T ι} {s₁ : SocketUdp T} (h : Linked i ri rj δ n)
    (hL : Link R i j ri rj) (hgd : g + 2 * δ < keepAlivePeriod * keepAliveProbes)
    (hposs : Possible R n e) (hrel : Reliable g δ i j ri rj n e) (hk : Kept g rj s₁ (n.socket i)) :
    Kept g rj s₁ ((step R n e).state.socket i) := by
  rcases socket_step h hposs hrel with heq | ⟨u, heq, hu, ho, hquit, hwrote⟩
  · rwa [heq]
  · rw [heq, hL.net_eq]
    exact hk.orderly hgd hu (h.answered s₁) ho hquit (step_returns hwrote _)

/-- A socket unknown so far stays so, or it enters and is kept from then on. -/
theorem unknown_step {e : NetworkEvent T ι} (h : Linked i ri rj δ n) (hL : Link R i j ri rj)
    (hposs : Possible R n e) (hrel : Reliable g δ i j ri rj n e)
    (hu : Unknown rj (n.socket i)) : Unknown rj ((step R n e).state.socket i) ∨
      ∃ s₁, Kept g rj s₁ ((step R n e).state.socket i) := by
  rcases socket_step h hposs hrel with heq | ⟨u, heq, -, ho, hquit, hwrote⟩
  · rw [heq]
    exact .inl hu
  · rw [heq, hL.net_eq]
    exact (hu.settles ho.connectsOnce hquit (step_returns hwrote _)).imp_right
      fun hj => ⟨_, hj.kept⟩

/-- **Two sockets that reach each other in time keep each other.** In every run of the network from
its start in which what `i` and `j` send each other arrives within `δ`, `i` launches every `g` and
`j` sends no quit message: once `i` has an entry for `j` it keeps it, and never declares `j`
lost. -/
theorem keptSince_of_network {es₁ es : List (NetworkEvent T ι)} (hL : Link R i j ri rj)
    (hgd : g + 2 * δ < keepAlivePeriod * keepAliveProbes)
    (hrun₁ : Run (step R) (fun n e => Possible R n e ∧ Reliable g δ i j ri rj n e) init es₁ n₁)
    (hpeer : rj ∈ (n₁.socket i).peers)
    (hrun : Run (step R) (fun n e => Possible R n e ∧ Reliable g δ i j ri rj n e) n₁ es n) :
    KeptSince rj (n₁.socket i) (n.socket i) := by
  have h₁ : Linked i ri rj δ n₁ ∧
      (Unknown rj (n₁.socket i) ∨ ∃ s₁, Kept g rj s₁ (n₁.socket i)) := by
    refine hrun₁.invariant_state (I := fun n => Linked i ri rj δ n ∧
      (Unknown rj (n.socket i) ∨ ∃ s₁, Kept g rj s₁ (n.socket i))) ⟨.init, .inl ?_⟩
      fun n e ⟨h, hk⟩ hok => ⟨linked_step h hL hok.1 hok.2, ?_⟩
    · exact ⟨.init, fun _ he => absurd he List.not_mem_nil, AList.notMem_empty _,
        fun p t ht => absurd (ht.symm.trans (T.enabled_init p)) (Option.some_ne_none t)⟩
    · rcases hk with hu | ⟨s₁, hk⟩
      · exact unknown_step h hL hok.1 hok.2 hu
      · exact .inr ⟨s₁, kept_step h hL hgd hok.1 hok.2 hk⟩
  obtain ⟨s₁, hk₁⟩ := h₁.2.resolve_left fun hu => hu.absent.entry hpeer
  -- from here on the entry is the one of `s₁`, and the log only grows
  have h : Linked i ri rj δ n ∧ Kept g rj s₁ (n.socket i) ∧
      ∃ m, (n.socket i).log = m ++ (n₁.socket i).log := by
    refine hrun.invariant_state (I := fun n => Linked i ri rj δ n ∧ Kept g rj s₁ (n.socket i) ∧
      ∃ m, (n.socket i).log = m ++ (n₁.socket i).log) ⟨h₁.1, hk₁, [], rfl⟩
      fun n e ⟨h, hk, m, hm⟩ hok =>
        ⟨linked_step h hL hok.1 hok.2, kept_step h hL hgd hok.1 hok.2 hk, ?_⟩
    rcases socket_step h hok.1 hok.2 with heq | ⟨u, heq, -⟩
    · exact ⟨m, by rw [heq, hm]⟩
    · obtain ⟨new, hnew⟩ := log_step (R.net i) (h.wf i) u
      exact ⟨new ++ m, by rw [heq, hnew, hm, List.append_assoc]⟩
  obtain ⟨-, hk, m, hm⟩ := h
  obtain ⟨hmem, l, hl, hno⟩ := hk.keptSince
  obtain ⟨-, l₁, hl₁, -⟩ := hk₁.keptSince
  refine ⟨hmem, m, hm, fun t ht => hno t ?_⟩
  rw [hl₁, ← List.append_assoc] at hm
  rw [List.append_cancel_right (hl.symm.trans hm)]
  exact List.mem_append_left _ ht

end Steps

/-- The address of the first of two sockets, the second is `sampleRemote`. -/
def sampleLocal : IPSocket := ⟨ascii "10.0.0.1" ++ List.replicate 8 0, 5000, afInet⟩

/-- Two sockets, each of which receives at its own address and is seen under it. -/
def sampleRouting : Routing Bool where
  receives := fun k a => a = cond k sampleLocal sampleRemote
  source := fun k _ => cond k sampleLocal sampleRemote
  net := fun _ _ => true

/-- The example's two addresses are linked, either way. -/
theorem link_sampleRouting (b : Bool) : Link sampleRouting b (!b) (cond b sampleLocal sampleRemote)
    (cond (!b) sampleLocal sampleRemote) := by
  have hinj : ∀ b k : Bool, cond b sampleLocal sampleRemote = cond k sampleLocal sampleRemote →
      b = k := by decide
  exact ⟨(Bool.not_ne_self b).symm, fun k hk => (hinj (!b) k hk).symm,
    fun k hk => (hinj b k hk).symm, rfl, rfl, fun k _ hk => hinj k (!b) hk, fun _ => ⟨rfl, rfl⟩⟩

/-- A socket that connects the other one sends it a keep-alive message after 1 s and after 3 s, each
of which is answered within 1 s, and so keeps it beyond the 4 s after which a silent one is lost. -/
theorem keptSince_one_answer : ∃ n₁ n : TimedNetwork (.table UdpTask) Bool,
    (n.socket true).now = 4500000000 ∧
      KeptSince sampleRemote (n₁.socket true) (n.socket true) := by
  have hrun : ∃ n₁ n : TimedNetwork (.table UdpTask) Bool, sampleRemote ∈ (n₁.socket true).peers ∧
      (n.socket true).now = 4500000000 ∧
      Run (step sampleRouting) (fun n e => Possible sampleRouting n e ∧
        Reliable 1500000000 500000000 true false sampleLocal sampleRemote n e) init
        [.act true (.connect [sampleRemote])] n₁ ∧
      Run (step sampleRouting) (fun n e => Possible sampleRouting n e ∧
        Reliable 1500000000 500000000 true false sampleLocal sampleRemote n e) n₁
        [.advance 1000000000, .act true (.launch (List.range 2)), .advance 500000000,
          .deliver false 1000000000 ⟨sampleLocal, sampleRemote, keepAliveMsg⟩,
          .advance 500000000,
          .deliver true 1500000000
            ⟨sampleRemote, sampleLocal, keepAliveAckMsg⟩,
          .act true (.launch (List.range 2)), .advance 1000000000,
          .act true (.launch (List.range 2)), .advance 500000000,
          .deliver false 3000000000 ⟨sampleLocal, sampleRemote, keepAliveMsg⟩,
          .advance 500000000,
          .deliver true 3500000000
            ⟨sampleRemote, sampleLocal, keepAliveAckMsg⟩,
          .advance 500000000, .act true (.launch (List.range 2))] n := by
    refine ⟨_, _, ?_, ?_, .cons ⟨⟨trivial, trivial⟩, .of_connect fun _ => ?_⟩ rfl (.nil _),
      .cons ⟨trivial, .of_advance ?_⟩ rfl
      (.cons ⟨⟨possible_launch_range _, trivial⟩, .of_launch fun _ => .inl ?_⟩ rfl
      (.cons ⟨trivial, .of_advance ?_⟩ rfl (.cons ⟨⟨?_, rfl⟩, .of_deliver _ _ _ _⟩ rfl
      (.cons ⟨trivial, .of_advance ?_⟩ rfl (.cons ⟨⟨?_, rfl⟩, .of_deliver _ _ _ _⟩ rfl
      (.cons ⟨⟨possible_launch_range _, trivial⟩, .of_launch fun _ => .inr ⟨1000000000, ?_, ?_⟩⟩ rfl
      (.cons ⟨trivial, .of_advance ?_⟩ rfl
      (.cons ⟨⟨possible_launch_range _, trivial⟩, .of_launch fun _ => .inr ⟨2000000000, ?_, ?_⟩⟩ rfl
      (.cons ⟨trivial, .of_advance ?_⟩ rfl (.cons ⟨⟨?_, rfl⟩, .of_deliver _ _ _ _⟩ rfl
      (.cons ⟨trivial, .of_advance ?_⟩ rfl (.cons ⟨⟨?_, rfl⟩, .of_deliver _ _ _ _⟩ rfl
      (.cons ⟨trivial, .of_advance ?_⟩ rfl
      (.cons ⟨⟨possible_launch_range _, trivial⟩, .of_launch fun _ => .inr ⟨3000000000, ?_, ?_⟩⟩ rfl
      (.nil _)))))))))))))))⟩
    -- every side condition is a comparison of two times
    all_goals decide
  obtain ⟨n₁, n, hpeer, hnow, hrun₁, hrun₂⟩ := hrun
  exact ⟨n₁, n, hnow,
    keptSince_of_network (link_sampleRouting true) (by decide) hrun₁ hpeer hrun₂⟩

end TimedNetwork

end SctpSandbox

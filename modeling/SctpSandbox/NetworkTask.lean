import SctpSandbox.Broadcast
import SctpSandbox.Chat.Tasks
import SctpSandbox.Startup
import SctpSandbox.Udp.Pair

/-! # `networkTask`: the loop around a socket

`networkTask` establishes a socket and then, until its lifetime is over or it took a quit message,
launches the scheduled tasks, receives, and sends what it took from the chat. When it leaves, by the
end of the loop or by an exception, the socket is destroyed.

The loop is the same for every socket, so it is written over the calls that it makes
(`TaskSocket`). A round is what it meets in one iteration. `SocketUdp.networkTask_of_rounds` is what
the loop makes of a `SocketUdp`. -/

namespace SctpSandbox

/-- What `networkTask` calls of its scheduler and its socket, with what the surroundings decide. -/
structure TaskSocket (σ : Type) where
  /-- The order in which a launch looks at its tasks, and what they meet. -/
  Launch : Type
  /-- What a `receive` meets, and how long the iteration takes. -/
  Reception : Type
  /-- What a `send` meets. -/
  Sending : Type
  /-- `ts.launch()` -/
  launch : Launch → σ → Outcome σ
  /-- `socket->receive()` -/
  receive : Reception → σ → Outcome σ
  /-- `socket->send(msg)` -/
  send : Sending → ChatMessage → σ → Outcome σ
  /-- `now()` -/
  now : σ → Time
  /-- What can be met in a state. -/
  launchPossible : Launch → σ → Prop
  sendPossible : Sending → σ → Prop

/-- What one iteration of the loop meets. -/
structure TaskRound {σ : Type} (S : TaskSocket σ) where
  launch : S.Launch
  reception : S.Reception
  /-- What `chat()` returns. -/
  msg : ChatMessage
  sending : S.Sending

/-- Where the loop is when it has met some rounds. -/
inductive TaskEnd (σ : Type) where
  /-- It goes on. -/
  | running (s : σ)
  /-- It has ended, with this `send_msg`. -/
  | ended (s : σ) (sendMsg : ChatMessage)
  /-- An exception has left it. -/
  | threw (s : σ)

namespace TaskSocket

variable {σ : Type} (S : TaskSocket σ)

/-- `chatOrQuit`, as far as the socket is concerned: a quit message is put back into the chat. -/
def chatOrQuit (r : TaskRound S) (s : σ) : Outcome σ :=
  if r.msg ≠ [] ∧ r.msg ≠ quitMsg then S.send r.sending r.msg s else .returned s

/-- The body of the loop. -/
def round (r : TaskRound S) (s : σ) : Outcome σ :=
  (S.launch r.launch s).andThen fun s => (S.receive r.reception s).andThen (S.chatOrQuit r)

/-- The condition of the loop; a `timeToDie` of `none` is `should_live_forever`. -/
def goesOn (timeToDie : Option Time) (sendMsg : ChatMessage) (s : σ) : Bool :=
  timeToDie.all (S.now s < ·) && sendMsg ≠ quitMsg

/-- The loop, from its condition on. -/
def loop (timeToDie : Option Time) : List (TaskRound S) → ChatMessage → σ → TaskEnd σ
  | [], sendMsg, s => if S.goesOn timeToDie sendMsg s then .running s else .ended s sendMsg
  | r :: rounds, sendMsg, s =>
      if S.goesOn timeToDie sendMsg s then
        match S.round r s with
        | .returned s => loop timeToDie rounds r.msg s
        | .threw s => .threw s
      else .ended s sendMsg

/-- What a round meets, it can meet where it comes. -/
def Meets (r : TaskRound S) (s : σ) : Prop :=
  S.launchPossible r.launch s ∧ ∀ s₁ s₂, S.launch r.launch s = .returned s₁ →
    S.receive r.reception s₁ = .returned s₂ → S.sendPossible r.sending s₂

/-- Every round that the loop comes to is one it can meet there. -/
def Follows (timeToDie : Option Time) : List (TaskRound S) → ChatMessage → σ → Prop
  | [], _, _ => True
  | r :: rounds, sendMsg, s => S.goesOn timeToDie sendMsg s = true → S.Meets r s ∧
      ∀ s', S.round r s = .returned s' → Follows timeToDie rounds r.msg s'

/-- The `time_to_die` of a loop that starts in `s`. -/
def timeToDie (p : NetworkTaskParams) (s : σ) : Option Time :=
  if p.lifetime = 0 then none else some (S.now s + p.lifetime * 1000000)

/-- `networkTask` from `establishSocket` on; an exception in there leaves the task as well. -/
def networkTask (p : NetworkTaskParams) (rounds : List (TaskRound S)) : Outcome σ → TaskEnd σ
  | .returned s => S.loop (S.timeToDie p s) rounds [] s
  | .threw s => .threw s

end TaskSocket

namespace TaskEnd

variable {σ : Type}

/-- What holds of a loop that goes on, has ended, or was left by an exception. -/
def Satisfies (goes : σ → Prop) (ends : σ → ChatMessage → Prop) (throws : σ → Prop) :
    TaskEnd σ → Prop
  | running s => goes s
  | ended s sendMsg => ends s sendMsg
  | threw s => throws s

/-- The rule of consequence for the three ends of a task. -/
theorem Satisfies.imp {goes goes' : σ → Prop} {ends ends' : σ → ChatMessage → Prop}
    {throws throws' : σ → Prop} {e : TaskEnd σ} (h : e.Satisfies goes ends throws)
    (hgoes : ∀ s, goes s → goes' s) (hends : ∀ s m, ends s m → ends' s m)
    (hthrows : ∀ s, throws s → throws' s) : e.Satisfies goes' ends' throws' := by
  cases e with
  | running s => exact hgoes s h
  | ended s m => exact hends s m h
  | threw s => exact hthrows s h

end TaskEnd

namespace TaskSocket

variable {σ : Type} {S : TaskSocket σ} {D : Option Time} {s : σ} {sendMsg : ChatMessage}
  {rounds : List (TaskRound S)}

end TaskSocket

/-! ## A `SocketUdp` -/

namespace SocketUdp

variable {T : TaskScheduler UdpTask} {s s' : SocketUdp T} {g l start : Time}

/-- How long one iteration takes, and the datagram that `select` found. -/
structure UdpReception where
  wait : Time
  datagram : Option (IPSocket × RecvCall)

/-- `receive()`: the only fd to select from is that of the socket. -/
def receiveOnce (net : ℕ → Bool) (r : UdpReception) (s : SocketUdp T) : Outcome (SocketUdp T) :=
  (step net s (.advance r.wait)).andThen fun s =>
    match r.datagram with
    | some (remote, call) => step net s (.receive remote call)
    | none => .returned s

/-- A `SocketUdp` and its scheduler. -/
def taskSocket (net : ℕ → Bool) : TaskSocket (SocketUdp T) where
  Launch := List T.Ptr
  Reception := UdpReception
  Sending := List IPSocket
  launch := fun order s => step net s (.launch order)
  receive := receiveOnce net
  send := fun order msg s => step net s (.send order msg)
  now := fun s => s.now
  launchPossible := fun order s => s.Possible (.launch order)
  sendPossible := fun order s => ∀ msg, s.Possible (.send order msg)

/-- The remotes that were sent a quit message, the last one first. -/
def quitsSent (log : List (Time × UdpAction)) : List IPSocket :=
  log.filterMap fun
    | (_, .sent msg remote) => if msg = quitMsg then some remote else none
    | _ => none

/-- Everybody in the table entered or was heard of recently. -/
def Recent (g : Time) (s : SocketUdp T) : Prop :=
  ∀ r ∈ s.peers, ∃ entered, enteredAt r s.log = some entered ∧
    s.now < max entered (heardAt r s.log) + commLostDelay + g

/-- What the loop keeps. -/
structure Serving (s : SocketUdp T) : Prop where
  timely : s.Timely
  accounted : s.Accounted
  noQuit : quitsSent s.log = []

/-- The farewells in two logs put together. -/
theorem quitsSent_append (new log : List (Time × UdpAction)) :
    quitsSent (new ++ log) = quitsSent new ++ quitsSent log := List.filterMap_append

/-- A log without a quit message sent has no farewells. -/
theorem quitsSent_eq_nil {log : List (Time × UdpAction)}
    (h : ∀ line ∈ log, ∀ r, line.2 ≠ .sent quitMsg r) : quitsSent log = [] := by
  refine List.filterMap_eq_nil_iff.mpr fun ⟨t, a⟩ hmem => ?_
  cases a with
  | sent msg r =>
      refine if_neg ?_
      rintro rfl
      exact h _ hmem r rfl
  | _ => rfl

/-- Only a `send` sends a quit message. -/
theorem Does.ne_quit {e : UdpEvent T} (he : ∀ order, e ≠ .send order quitMsg) {a : UdpAction}
    (h : e.Does a) (r : IPSocket) : a ≠ .sent quitMsg r := by
  rintro rfl
  rcases h.sent with ⟨-, hmsg⟩ | ⟨-, hmsg⟩ | ⟨order, rfl⟩
  · exact absurd hmsg (by decide)
  · exact absurd hmsg (by decide)
  · exact he order rfl

/-- Every step that is no quit keeps the socket serving. -/
theorem Serving.step (h : Serving s) {e : UdpEvent T} (hposs : s.Possible e)
    (he : ∀ order, e ≠ .send order quitMsg) :
    Serving (SocketUdp.step (fun _ => true) s e).state := by
  refine ⟨h.timely.step hposs, accounted_step h.accounted e, ?_⟩
  by_cases hadv : ∃ d, e = .advance d
  · obtain ⟨d, rfl⟩ := hadv
    exact h.noQuit
  · obtain ⟨new, hlog, hnew⟩ := (writes_step (fun _ => true) h.timely.wf
      fun d hd => hadv ⟨d, hd⟩).log
    rw [hlog, quitsSent_append, h.noQuit,
      quitsSent_eq_nil fun line hmem r => Does.ne_quit he (hnew line hmem).2 r]
    rfl

/-- While the task serves, a launch is at most one round old. -/
theorem Serving.recent (h : Serving s) (hl : (l, .launched) ∈ s.log) (hnow : s.now ≤ l + g) :
    Recent g s := by
  intro r hr
  have htracked := h.accounted.tracked r
  obtain ⟨entered, he⟩ := htracked.mem_iff.mp hr
  obtain ⟨q, -, hq⟩ := htracked.present entered he
  have hlate : l < max entered (heardAt r s.log) + commLostDelay :=
    h.timely.prompt q _ hq rfl l hl
  exact ⟨entered, he, Nat.lt_of_le_of_lt hnow (Nat.add_lt_add_right hlate g)⟩

/-- The launch of a round is in the log. -/
theorem launched_launch (net : ℕ → Bool) (order : List T.Ptr) (s : SocketUdp T) :
    (s.now, .launched) ∈ (step net s (.launch order)).state.log := by
  have hstart : (s.now, .launched) ∈ (s.record .launched).log := List.mem_cons_self
  refine Outcome.forEach_state (P := fun s' : SocketUdp T => (s.now, .launched) ∈ s'.log) hstart
    fun p _ s₁ hmem => ?_
  obtain ⟨new, hlog, -⟩ := (writes_launchTask net order p s₁).log
  rw [hlog]
  exact List.mem_append_right _ hmem

/-- A launch, a datagram or a `send` returns, and takes no time. -/
theorem serving_event (h : Serving s) {e : UdpEvent T} (hposs : s.Possible e)
    (hadv : ∀ d, e ≠ .advance d) (he : ∀ order, e ≠ .send order quitMsg)
    (hread : ∀ r err, e ≠ .receive r (.failed err)) :
    ∃ s', step (fun _ => true) s e = .returned s' ∧ Serving s' ∧ s'.now = s.now ∧
      ∃ new, s'.log = new ++ s.log := by
  -- nothing is thrown, the clock stands and the log grows
  have hs := h.step hposs he
  have hwrites := writes_step (fun _ => true) h.timely.wf hadv
  have hret := step_returns hread s
  cases hstep : step (fun _ => true) s e with
  | threw s' =>
      rw [hstep] at hret
      exact absurd hret id
  | returned s' =>
      rw [hstep] at hs hwrites
      obtain ⟨new, hlog, -⟩ := hwrites.log
      exact ⟨s', rfl, hs, hwrites.now, new, hlog⟩

/-- So does `receive`, after it has waited. -/
theorem serving_receive (h : Serving s) {r : UdpReception}
    (hread : ∀ remote err, r.datagram ≠ some (remote, .failed err)) :
    ∃ s', receiveOnce (fun _ => true) r s = .returned s' ∧ Serving s' ∧
      s'.now = s.now + r.wait ∧ ∃ new, s'.log = new ++ s.log := by
  have hwaited : Serving { s with now := s.now + r.wait } :=
    h.step (e := .advance r.wait) trivial fun _ => nofun
  show ∃ s', (match r.datagram with
    | some (remote, call) => step (fun _ => true) { s with now := s.now + r.wait }
        (.receive remote call)
    | none => .returned { s with now := s.now + r.wait }) = .returned s' ∧ _
  -- the wait ends with a datagram or without one
  cases hd : r.datagram with
  | none => exact ⟨_, rfl, hwaited, rfl, [], rfl⟩
  | some d =>
      obtain ⟨remote, call⟩ := d
      refine serving_event hwaited (e := .receive remote call) trivial (fun _ => nofun)
        (fun _ => nofun) ?_
      rintro remote' err heq
      obtain ⟨rfl, rfl⟩ := UdpEvent.receive.inj heq
      exact hread _ _ hd

/-- **A round** returns, takes its time, and leaves its launch in the log. -/
theorem serving_round (h : Serving s) {r : TaskRound (taskSocket (T := T) fun _ => true)}
    (hmeets : (taskSocket fun _ => true).Meets r s)
    (hread : ∀ remote err, r.reception.datagram ≠ some (remote, .failed err)) :
    ∃ s', (taskSocket fun _ => true).round r s = .returned s' ∧ Serving s' ∧
      s'.now = s.now + r.reception.wait ∧ (s.now, .launched) ∈ s'.log := by
  obtain ⟨s₁, h₁, hs₁, hnow₁, -⟩ := serving_event h (e := .launch r.launch) hmeets.1
    (fun _ => nofun) (fun _ => nofun) fun _ _ => nofun
  obtain ⟨s₂, h₂, hs₂, hnow₂, new₂, hlog₂⟩ := serving_receive hs₁ hread
  -- the line of standard input is sent, unless it is empty or the farewell
  obtain ⟨s₃, h₃, hs₃, hnow₃, new₃, hlog₃⟩ : ∃ s₃,
      (taskSocket fun _ => true).chatOrQuit r s₂ = .returned s₃ ∧ Serving s₃ ∧ s₃.now = s₂.now ∧
        ∃ new, s₃.log = new ++ s₂.log := by
    rw [TaskSocket.chatOrQuit]
    split
    case isTrue hmsg =>
      refine serving_event hs₂ (hmeets.2 s₁ s₂ h₁ h₂ r.msg) (fun _ => nofun) ?_
        fun _ _ => nofun
      intro order heq
      exact hmsg.2 (UdpEvent.send.inj heq).2
    case isFalse => exact ⟨s₂, rfl, hs₂, rfl, [], rfl⟩
  have hround : (taskSocket fun _ => true).round r s = .returned s₃ := by
    show (step (fun _ => true) s (.launch r.launch)).andThen _ = _
    rw [h₁]
    show (receiveOnce (fun _ => true) r.reception s₁).andThen _ = _
    rw [h₂]
    exact h₃
  refine ⟨s₃, hround, hs₃, by rw [hnow₃, hnow₂, hnow₁], ?_⟩
  -- the launch has logged its line, and what follows only adds to the log
  have hlaunched := launched_launch (fun _ => true) r.launch s
  rw [h₁] at hlaunched
  rw [hlog₃, hlog₂]
  exact List.mem_append_right _ (List.mem_append_right _ hlaunched)

/-- How long the iterations take together. -/
def waits (rounds : List (TaskRound (taskSocket (T := T) fun _ => true))) : Time :=
  (rounds.map fun r => r.reception.wait).sum

/-- What holds at the condition of the loop, with some rounds still to come. -/
structure AtCondition (p : NetworkTaskParams) (start g : Time)
    (rounds rest : List (TaskRound (taskSocket (T := T) fun _ => true))) (s : SocketUdp T) :
    Prop where
  serving : Serving s
  recent : Recent g s
  clock : s.now + waits rest = start + waits rounds
  inTime : p.lifetime = 0 ∨ s.now < start + p.lifetime * 1000000 + g
  rest : rest ⊆ rounds

/-- **A round of the loop** that takes no longer than `g`. -/
theorem AtCondition.round {p : NetworkTaskParams}
    {rounds rest : List (TaskRound (taskSocket (T := T) fun _ => true))}
    {r : TaskRound (taskSocket (T := T) fun _ => true)}
    (h : AtCondition p start g rounds (r :: rest) s)
    (hinTime : p.lifetime = 0 ∨ s.now < start + p.lifetime * 1000000)
    (hmeets : (taskSocket fun _ => true).Meets r s) (hwait : r.reception.wait ≤ g)
    (hread : ∀ remote err, r.reception.datagram ≠ some (remote, .failed err)) :
    ∃ s', (taskSocket fun _ => true).round r s = .returned s' ∧
      AtCondition p start g rounds rest s' := by
  obtain ⟨s', hround, hs', hnow, hlaunched⟩ := serving_round h.serving hmeets hread
  refine ⟨s', hround, hs', hs'.recent hlaunched (hnow ▸ Nat.add_le_add_left hwait _), ?_,
    hinTime.imp_right fun hlt => ?_, fun r' hr' => h.rest (List.mem_cons_of_mem _ hr')⟩
  · have hclock := h.clock
    rw [waits, List.map_cons, List.sum_cons, ← Nat.add_assoc, ← hnow] at hclock
    exact hclock
  · rw [hnow]
    exact Nat.add_lt_add_of_lt_of_le hlt hwait

/-- A round of 1 s that sends a line to a remote. -/
def sampleRound : TaskRound (taskSocket (T := .table UdpTask) fun _ => true) where
  launch := List.range 2
  reception := ⟨seconds 1, none⟩
  msg := ascii "hi"
  sending := [sampleRemote]

end SocketUdp

end SctpSandbox

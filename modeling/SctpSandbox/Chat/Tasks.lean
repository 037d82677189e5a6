import SctpSandbox.Lib.Threads
import SctpSandbox.Typedefs

/-! # The chat slot and the tasks that share it

`chat` exchanges the one message all tasks share. `ioTask` puts the lines of the standard input
there; every `networkTask` polls it once a round with `chatOrQuit`, which sends the message it took,
or puts a quit message back for the other tasks and ends.

The tasks run as threads. A call of `chat` is one atomic step, since the slot has a mutex of its
own; what a task does between two such calls is its own business and comes down to whether it goes
on or leaves. Any type may number the network tasks, so there is any number of them. -/

namespace SctpSandbox

/-- `chat(new_msg)`, on its static `msg`. -/
def chat (newMsg : ChatMessage) : StateM ChatMessage ChatMessage := fun msg => (msg, newMsg)

/-- `chatOrQuit(socket)` when nobody else calls `chat`: `send` tells whether `socket.send` returns,
and there is no result when it throws. -/
def chatOrQuit (send : ChatMessage → Bool) : StateM ChatMessage (Option ChatMessage) := do
  let msg ← chat []
  if msg ≠ [] then
    if msg ≠ quitMsg then
      if send msg then return some msg else return none
    else
      let _ ← chat msg
      return some msg
  else return some msg

namespace Chat

/-- The threads of the program: `ioTask` and one `networkTask` for each `i`. -/
inductive Thread (ι : Type) where
  | io
  | task (i : ι)
  deriving DecidableEq

/-- The control points of the tasks. -/
inductive Point where
  /-- `ioTask` is at `getline`. -/
  | reading
  /-- `ioTask` is at `chat(msg)`. -/
  | storing (msg : ChatMessage)
  /-- `networkTask` is in `startTask` or `establishSocket`. -/
  | starting
  /-- `networkTask` is at the condition of its loop. -/
  | looping (sendMsg : ChatMessage)
  /-- `networkTask` is at `ts.launch()` or `socket->receive()`. -/
  | receiving
  /-- `chatOrQuit` is at its first `chat()`. -/
  | polling
  /-- `chatOrQuit` has taken a message that is not empty. -/
  | took (msg : ChatMessage)
  /-- The task has left. -/
  | ended
  deriving DecidableEq

/-- What the tasks do with messages. -/
inductive Action (ι : Type) where
  /-- `ioTask` called `chat(line)`. -/
  | stored (line : ChatMessage)
  /-- The first `chat()` of a `chatOrQuit` of task `i` returned `msg`. -/
  | polled (i : ι) (msg : ChatMessage)
  /-- Task `i` called `socket.send(msg)`. -/
  | sent (i : ι) (msg : ChatMessage)
  /-- Task `i` called `chat(quit_msg)`. -/
  | putBack (i : ι)
  /-- A `chatOrQuit` of task `i` returned `msg`. -/
  | returned (i : ι) (msg : ChatMessage)
  deriving DecidableEq

/-- The slot, and what was done so far, the newest first. -/
structure Shared (ι : Type) where
  slot : ChatMessage := []
  log : List (Action ι) := []

/-- What the surroundings decide about the next step of a task. -/
structure Input where
  /-- The line that `getline` leaves in `msg`. -/
  line : ChatMessage := []
  /-- The lifetime is over, or a call before or in the loop throws. -/
  leaves : Bool := false

variable {ι : Type}

/-- Call `chat` and note what was done. -/
def exchange (newMsg : ChatMessage) (note : ChatMessage → List (Action ι)) (s : Shared ι) :
    ChatMessage × Shared ι :=
  let (msg, slot) := chat newMsg s.slot
  (msg, ⟨slot, note msg ++ s.log⟩)

/-- The steps of `ioTask`. -/
def ioTask (e : Input) (k : Point) (s : Shared ι) : Point × Shared ι :=
  match k with
  | .reading => (.storing e.line, s)
  | .storing msg =>
      (if msg = quitMsg then .ended else .reading, (exchange msg (fun _ => [.stored msg]) s).2)
  | k => (k, s)

/-- The steps of `networkTask` inside `chatOrQuit`: the poll, and what follows a message taken. -/
def poll (i : ι) (s : Shared ι) : Point × Shared ι :=
  let (msg, s) := exchange [] (fun msg => [.polled i msg]) s
  if msg ≠ [] then (.took msg, s) else (.looping msg, { s with log := .returned i msg :: s.log })

/-- `chatOrQuit` behind its poll, when it took a message. -/
def answer (i : ι) (e : Input) (msg : ChatMessage) (s : Shared ι) : Point × Shared ι :=
  if msg ≠ quitMsg then
    if e.leaves then (.ended, { s with log := .sent i msg :: s.log })
    else (.looping msg, { s with log := .returned i msg :: .sent i msg :: s.log })
  else
    (.looping msg, (exchange msg (fun _ => [.returned i msg, .putBack i]) s).2)

/-- The steps of `networkTask`. -/
def networkTask (i : ι) (e : Input) (k : Point) (s : Shared ι) : Point × Shared ι :=
  match k with
  | .starting => (if e.leaves then .ended else .looping [], s)
  | .looping sendMsg => (if e.leaves ∨ sendMsg = quitMsg then .ended else .receiving, s)
  | .receiving => (if e.leaves then .ended else .polling, s)
  | .polling => poll i s
  | .took msg => answer i e msg s
  | k => (k, s)

/-- The step of a thread. -/
def step : Thread ι → Input → Point → Shared ι → Point × Shared ι
  | .io => ioTask
  | .task i => networkTask i

/-- Every thread at its start, with the empty slot. -/
def start (ι : Type) : Pool (Thread ι) (Shared ι) Point where
  shared := {}
  pc := fun
    | .io => .reading
    | .task _ => .starting

/-- The input thread is not one of the network tasks. -/
theorem Thread.io_ne_task (i : ι) : Thread.io ≠ .task i := by simp

/-- The quit message is not the empty message of a poll. -/
theorem quitMsg_ne_nil : quitMsg ≠ [] := by decide

/-! ## What a step can do -/

/-- The steps of the tasks: `Moved t k s k' s'` says that thread `t` goes from `k` to `k'` and
changes `s` to `s'`. -/
inductive Moved : Thread ι → Point → Shared ι → Point → Shared ι → Prop
  /-- `ioTask` reads, or is where it has nothing to do. -/
  | quietIo {k k' : Point} (s : Shared ι) : (k = .ended → k' = .ended) → Moved .io k s k' s
  /-- `ioTask` stores a line, and ends if it is the quit message. -/
  | stored (line : ChatMessage) (s : Shared ι) :
      Moved .io (.storing line) s (if line = quitMsg then .ended else .reading)
        ⟨line, .stored line :: s.log⟩
  /-- A network task does something outside `chatOrQuit`. -/
  | quietTask (i : ι) {k k' : Point} (s : Shared ι) : (∀ msg, k ≠ .took msg) →
      (∀ msg, k' ≠ .took msg) → Moved (.task i) k s k' s
  /-- A poll finds nothing. -/
  | idle (i : ι) (s : Shared ι) : s.slot = [] →
      Moved (.task i) .polling s (.looping []) ⟨[], .returned i [] :: .polled i [] :: s.log⟩
  /-- A poll takes a message. -/
  | took (i : ι) (s : Shared ι) : s.slot ≠ [] →
      Moved (.task i) .polling s (.took s.slot) ⟨[], .polled i s.slot :: s.log⟩
  /-- A message is handed to the socket, whose `send` throws. -/
  | left (i : ι) {msg : ChatMessage} (s : Shared ι) : msg ≠ quitMsg →
      Moved (.task i) (.took msg) s .ended ⟨s.slot, .sent i msg :: s.log⟩
  /-- A message is handed to the socket and returned. -/
  | sent (i : ι) {msg : ChatMessage} (s : Shared ι) : msg ≠ quitMsg →
      Moved (.task i) (.took msg) s (.looping msg)
        ⟨s.slot, .returned i msg :: .sent i msg :: s.log⟩
  /-- The quit message is put back and returned. -/
  | putBack (i : ι) (s : Shared ι) : Moved (.task i) (.took quitMsg) s (.looping quitMsg)
      ⟨quitMsg, .returned i quitMsg :: .putBack i :: s.log⟩

/-- Every step of the input thread is one of the listed moves. -/
theorem moved_ioTask (e : Input) (k : Point) (s : Shared ι) :
    Moved .io k s (ioTask e k s).1 (ioTask e k s).2 := by
  cases k with
  | storing msg => exact .stored msg s
  | reading => exact .quietIo s fun h => absurd h Point.noConfusion
  | starting => exact .quietIo s id
  | looping sendMsg => exact .quietIo s id
  | receiving => exact .quietIo s id
  | polling => exact .quietIo s id
  | took msg => exact .quietIo s id
  | ended => exact .quietIo s id

/-- The answer a task gives itself is one of the listed moves. -/
theorem moved_answer (i : ι) (e : Input) (msg : ChatMessage) (s : Shared ι) :
    Moved (.task i) (.took msg) s (answer i e msg s).1 (answer i e msg s).2 := by
  rw [answer]
  by_cases hq : msg = quitMsg
  · rw [if_neg (not_not.mpr hq), hq]
    exact .putBack i s
  · rw [if_pos hq]
    cases e.leaves with
    | true => exact .left i s hq
    | false => exact .sent i s hq

/-- A task's look at the queue is one of the listed moves. -/
theorem moved_poll (i : ι) (s : Shared ι) :
    Moved (.task i) .polling s (poll i s).1 (poll i s).2 := by
  have heq : poll i s = if s.slot ≠ [] then (.took s.slot, ⟨[], .polled i s.slot :: s.log⟩)
      else (.looping s.slot, ⟨[], .returned i s.slot :: .polled i s.slot :: s.log⟩) := rfl
  rw [heq]
  by_cases hs : s.slot = []
  · rw [if_neg (not_not.mpr hs), hs]
    exact .idle i s hs
  · rw [if_pos hs]
    exact .took i s hs

/-- A branch that decides between two control points outside `chatOrQuit`. -/
theorem ite_ne_took {c : Prop} [Decidable c] {k k' : Point} (hk : ∀ msg, k ≠ .took msg)
    (hk' : ∀ msg, k' ≠ .took msg) (msg : ChatMessage) : (if c then k else k') ≠ .took msg := by
  split
  · exact hk msg
  · exact hk' msg

/-- Every step of a network task is one of the listed moves. -/
theorem moved_networkTask (i : ι) (e : Input) (k : Point) (s : Shared ι) :
    Moved (.task i) k s (networkTask i e k s).1 (networkTask i e k s).2 := by
  -- only an answer takes a message, and nothing is taken at the end
  have no : ∀ msg, Point.ended ≠ .took msg := fun _ => Point.noConfusion
  cases k with
  | polling => exact moved_poll i s
  | took msg => exact moved_answer i e msg s
  | starting =>
      exact .quietTask i s (fun _ => Point.noConfusion) (ite_ne_took no fun _ => Point.noConfusion)
  | looping sendMsg =>
      exact .quietTask i s (fun _ => Point.noConfusion) (ite_ne_took no fun _ => Point.noConfusion)
  | receiving =>
      exact .quietTask i s (fun _ => Point.noConfusion) (ite_ne_took no fun _ => Point.noConfusion)
  | reading => exact .quietTask i s (fun _ => Point.noConfusion) fun _ => Point.noConfusion
  | storing msg => exact .quietTask i s (fun _ => Point.noConfusion) fun _ => Point.noConfusion
  | ended => exact .quietTask i s no no

/-- **Every step is one of these.** -/
theorem moved_step (t : Thread ι) (e : Input) (k : Point) (s : Shared ι) :
    Moved t k s (step t e k s).1 (step t e k s).2 := by
  cases t with
  | io => exact moved_ioTask e k s
  | task i => exact moved_networkTask i e k s

/-- The thread that did something. -/
def Action.thread : Action ι → Thread ι
  | .stored _ => .io
  | .polled i _ => .task i
  | .sent i _ => .task i
  | .putBack i => .task i
  | .returned i _ => .task i

/-- A step adds to the log what its own thread did. -/
theorem Moved.log {t : Thread ι} {k k' : Point} {s s' : Shared ι} (h : Moved t k s k' s') :
    ∃ l, s'.log = l ++ s.log ∧ ∀ a ∈ l, a.thread = t := by
  cases h with
  | quietIo _ _ => exact ⟨[], rfl, by simp⟩
  | stored line _ => exact ⟨[.stored line], rfl, by simp [Action.thread]⟩
  | quietTask i _ _ _ => exact ⟨[], rfl, by simp⟩
  | idle i _ _ => exact ⟨[.returned i [], .polled i []], rfl, by simp [Action.thread]⟩
  | took i _ _ => exact ⟨[.polled i s.slot], rfl, by simp [Action.thread]⟩
  | @left i msg _ _ => exact ⟨[.sent i msg], rfl, by simp [Action.thread]⟩
  | @sent i msg _ _ => exact ⟨[.returned i msg, .sent i msg], rfl, by simp [Action.thread]⟩
  | putBack i _ => exact ⟨[.returned i quitMsg, .putBack i], rfl, by simp [Action.thread]⟩

/-- What is read off the actions of task `i` alone is not in what another thread did. -/
theorem filterMap_thread {β : Type} {f : Action ι → Option β} {i : ι} {t : Thread ι}
    {l : List (Action ι)} (hf : ∀ a, a.thread ≠ .task i → f a = none) (ht : t ≠ .task i)
    (h : ∀ a ∈ l, a.thread = t) : l.filterMap f = [] := by
  rw [List.filterMap_eq_nil_iff]
  exact fun a ha => hf a fun hi => ht ((h a ha).symm.trans hi)

/-! ## A task alone -/

variable [DecidableEq ι] {p : Pool (Thread ι) (Shared ι) Point}

/-- What `chatOrQuit` does to a slot and returns. -/
theorem chatOrQuit_eq (send : ChatMessage → Bool) (slot : ChatMessage) :
    chatOrQuit send slot = if slot = [] then (some [], [])
      else if slot = quitMsg then (some quitMsg, quitMsg)
      else (if send slot then some slot else none, []) := by
  by_cases hs : slot = []
  · rw [if_pos hs, hs]
    rfl
  · by_cases hq : slot = quitMsg
    · rw [if_neg hs, if_pos hq, hq]
      rfl
    · simp only [chatOrQuit, chat, bind, StateT.bind, ne_eq, hs, hq, not_false_eq_true, if_true]
      cases send slot <;> rfl

/-- **The steps of one task from its poll are the call of `chatOrQuit`** when nobody else moves in
between: the same slot is left, and the task goes on with the same result or leaves. -/
theorem steps_chatOrQuit (i : ι) (send : ChatMessage → Bool) (hp : p.pc (.task i) = .polling) :
    ∃ es : List Input, ∃ q, q = Pool.steps step (es.map fun e => (.task i, e)) p ∧
      q.shared.slot = (chatOrQuit send p.shared.slot).2 ∧
      q.pc (.task i) = (chatOrQuit send p.shared.slot).1.elim .ended .looping := by
  have hpoll : step (.task i) {} (p.pc (.task i)) p.shared = poll i p.shared := by rw [hp]; rfl
  rw [chatOrQuit_eq]
  by_cases hs : p.shared.slot = []
  · -- an empty poll is the whole call
    have heq : poll i p.shared =
        (.looping [], ⟨[], .returned i [] :: .polled i [] :: p.shared.log⟩) := by
      simp [poll, exchange, chat, hs]
    refine ⟨[{}], _, rfl, ?_⟩
    rw [if_pos hs, List.map_singleton, Pool.steps, hpoll, heq]
    exact ⟨rfl, Pool.pc_set_self _ _ _⟩
  · -- the second step answers the message taken by the first
    have heq : poll i p.shared =
        (.took p.shared.slot, ⟨[], .polled i p.shared.slot :: p.shared.log⟩) := by
      simp [poll, exchange, chat, hs]
    let e : Input := { leaves := !send p.shared.slot }
    refine ⟨[{}, e], _, rfl, ?_⟩
    rw [if_neg hs, List.map_cons, List.map_singleton, Pool.steps, hpoll, heq, Pool.steps,
      Pool.pc_set_self, Pool.shared_set, step, networkTask, answer, Pool.steps, Pool.shared_set,
      Pool.pc_set_self]
    by_cases hq : p.shared.slot = quitMsg
    · rw [if_neg (not_not.mpr hq), if_pos hq, hq]
      -- the quit message goes back into the slot
      exact ⟨rfl, rfl⟩
    · rw [if_pos hq, if_neg hq]
      cases hsend : send p.shared.slot with
      | true => exact ⟨by simp [e, hsend], by simp [e, hsend]⟩
      | false => exact ⟨by simp [e, hsend], by simp [e, hsend]⟩

end Chat

end SctpSandbox

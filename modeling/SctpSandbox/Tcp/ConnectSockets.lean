import SctpSandbox.SocketArguments
import SctpSandbox.Tcp.ReconnectBound

/-! # The sockets of `createConnectSocket`

For every connection it makes a `SocketTcp` opens another socket, which it binds to the address of
the first one. The arguments are members: `family` of `Socket`, `type`, which hides the one of
`Socket`, and `protocol`, which has no initialiser and keeps what the storage of the object held.
The system is a `SocketTcp` or a `SocketDccp` with its reconnects, next to an account of the sockets
that `createConnectSocket` has opened. -/

namespace SctpSandbox

open Call

/-- The members that the sockets are created and bound with. -/
structure TcpMembers where
  /-- `Socket::family`. -/
  family : Family
  /-- `Socket::type`. -/
  baseType : ℤ
  /-- `SocketTcp::local`. -/
  localIP : IP
  /-- `SocketTcp::type`. -/
  type : ℤ
  /-- `SocketTcp::protocol`. -/
  protocol : ℤ

namespace TcpMembers

/-- The constructor of `SocketTcp`, in storage that holds `prior`. -/
def construct (prior : TcpMembers) (locals : LocalIPSockets) (type : ℤ) : TcpMembers :=
  { prior with
    family := (SocketArgs.constructed locals.1 type defaultProtocol afUnspec).family
    baseType := type
    localIP := locals.front.addr
    type := type }

/-- The socket that `createConnectSocket` opens under the number `n`, and binds to any port. -/
def connectSocket (I : Inet) (m : TcpMembers) (n : FD) : OpenedSocket where
  fd := n
  args := ⟨m.family, m.type, m.protocol⟩
  bound := IPSocket.ofText I m.localIP 0

end TcpMembers

/-- The socket that the constructor of `SocketTcp` opens and binds. -/
def SocketTcp.mainSocket (locals : LocalIPSockets) (type : ℤ) (n : FD) : OpenedSocket where
  fd := n
  args := .constructed locals.1 type defaultProtocol afUnspec
  bound := locals.front

instance (answer : ConnectAnswer) : Decidable answer.Succeeds :=
  inferInstanceAs (Decidable (_ ∧ _ ∧ _))

/-- The classes that have `createConnectSocket`. -/
inductive ConnectingClass where
  | tcp
  | dccp

namespace ConnectingClass

/-- The argument of the constructor of `SocketTcp`, by default and for `SocketDccp`. -/
def type : ConnectingClass → ℤ
  | tcp => sockStream
  | dccp => sockDccp

/-- The calls on an object of the class. -/
def call (mtx : Mutex) : ConnectingClass → TcpOp → TcpCall Unit
  | tcp => SocketTcp.call mtx
  | dccp => SocketDccp.call mtx

variable {T : TaskScheduler IPSocket}

/-- The answer of the system to an event; the reconnect tasks of both classes call
`SocketTcp::connect`. -/
def step (mtx : Mutex) (cls : ConnectingClass) (s : TcpSystem T) :
    TcpEvent T → Outcome (TcpSystem T)
  | .advance d => s.step mtx (.advance d)
  | .call op =>
      ((s.list op).answer (cls.call mtx op ⟨(s.list op).socket, false⟩)).map (s.account op)
  | .launch order => s.step mtx (.launch order)

/-- For the class `SocketTcp` it is the answer of `TcpSystem`. -/
theorem step_tcp (mtx : Mutex) (s : TcpSystem T) (e : TcpEvent T) :
    tcp.step mtx s e = s.step mtx e := by
  cases e with
  | advance d => rfl
  | call op => rfl
  | launch order => rfl

end ConnectingClass

/-! ## The sockets opened -/

section Opened

variable {T : TaskScheduler IPSocket} (I : Inet) (m : TcpMembers) (mtx : Mutex)

/-- The sockets that a `connect` opens, the oldest first; it is left at the first failure. -/
def openedBy : List (IPSocket × ConnectAnswer) → List OpenedSocket
  | [] => []
  | remote :: rest =>
      (remote.2.socket.map (m.connectSocket I)).toList ++
        if remote.2.Succeeds then openedBy rest else []

/-- The sockets that one task of a launch opens. -/
def openedByTask (a : T.Ptr × ConnectAnswer) (s : TcpSystem T) : List OpenedSocket :=
  match T.enabled s.scheduler a.1 with
  | some task => if task.due ≤ s.now then openedBy I m [(task.function, a.2)] else []
  | none => []

/-- The sockets that the tasks of a launch open, up to the one that throws. -/
def openedInLaunch : List (T.Ptr × ConnectAnswer) → TcpSystem T → List OpenedSocket
  | [], _ => []
  | a :: order, s =>
      openedByTask I m a s ++
        match s.launchTask mtx a with
        | .returned s' => openedInLaunch order s'
        | .threw _ => []

/-- The sockets that `createConnectSocket` opens in an event. -/
def openedIn (s : TcpSystem T) : TcpEvent T → List OpenedSocket
  | .call (.connect remotes) => openedBy I m remotes
  | .launch order => openedInLaunch I m mtx order s
  | _ => []

/-- No `socket` of a `connect` has an answer: the first failure leaves the call. -/
def NoneAnswered (remotes : List (IPSocket × ConnectAnswer)) : Prop :=
  ∀ remote ∈ remotes.head?, remote.2.socket = none

/-- A task of a launch that is run gets no answer to its `socket`. -/
def TaskUnanswered (a : T.Ptr × ConnectAnswer) (s : TcpSystem T) : Prop :=
  ∀ task, T.enabled s.scheduler a.1 = some task → task.due ≤ s.now → a.2.socket = none

/-- `socket` fails in every `connect` of an event, whether of the user or of a task. -/
def OpensNone (s : TcpSystem T) : TcpEvent T → Prop
  | .call (.connect remotes) => NoneAnswered remotes
  | .launch order => Outcome.EachMeets TaskUnanswered (TcpSystem.launchTask mtx) order s
  | _ => True

end Opened

/-- A `SocketTcp` or `SocketDccp` with its scheduler, and the sockets that `createConnectSocket` has
opened, the oldest first. -/
structure ConnectingSystem (T : TaskScheduler IPSocket) where
  system : TcpSystem T
  opened : List OpenedSocket := []

namespace ConnectingSystem

variable {T : TaskScheduler IPSocket}

/-- The answer of the system to an event. -/
def step (I : Inet) (mtx : Mutex) (cls : ConnectingClass) (m : TcpMembers) (c : ConnectingSystem T)
    (e : TcpEvent T) : Outcome (ConnectingSystem T) :=
  match cls.step mtx c.system e with
  | .returned s => .returned ⟨s, c.opened ++ openedIn I m mtx c.system e⟩
  | .threw s => .threw ⟨s, c.opened ++ openedIn I m mtx c.system e⟩

/-- The system when the object has just been constructed. -/
def initial (T : TaskScheduler IPSocket) (n : FD) : ConnectingSystem T :=
  { system := .initial T n }

end ConnectingSystem

variable {T : TaskScheduler IPSocket} {I : Inet} {m : TcpMembers} {mtx : Mutex}
  {cls : ConnectingClass} {s : TcpSystem T} {c c' : ConnectingSystem T} {e : TcpEvent T}
  {o : OpenedSocket}

/-- The task of a launch that a pointer stands for, as far as it opens sockets. -/
theorem openedByTask_cases (a : T.Ptr × ConnectAnswer) (s : TcpSystem T) :
    (∃ task, T.enabled s.scheduler a.1 = some task ∧ task.due ≤ s.now ∧
      openedByTask I m a s = openedBy I m [(task.function, a.2)]) ∨
    (∀ task, T.enabled s.scheduler a.1 = some task → ¬ task.due ≤ s.now) ∧
      openedByTask I m a s = [] :=
  ScheduledTask.launch_cases (fun task htask => by rw [openedByTask, htask])
    fun hnone => by rw [openedByTask, hnone]

/-! ### The account and the log of fds -/

/-- The fds opened, the newest first. -/
def adoptedFds (calls : List FdCall) : List FD :=
  calls.filterMap fun
    | .adopted n => some n
    | .closed _ => none

/-- A destructor adopts nothing. -/
theorem adoptedFds_destroy (fd : FileDescriptor) (calls : List FdCall) :
    adoptedFds (fd.destroy calls) = adoptedFds calls := by
  have hclosed : adoptedFds (fd.close.2.map .closed) = [] := by
    rw [adoptedFds, List.filterMap_map]
    exact List.filterMap_eq_nil_iff.mpr fun _ _ => rfl
  rw [FileDescriptor.destroy, adoptedFds, List.filterMap_append]
  exact (congrArg (· ++ adoptedFds calls) hclosed).trans (List.nil_append _)

namespace SocketTcp

variable {remote : IPSocket} {answer : ConnectAnswer}

/-- A new entry adopts nothing more. -/
theorem adoptedFds_emplace (n : FD) (peer : TcpPeer) (g : Guarded SocketTcp) :
    ∃ s', emplace n peer g = .ok () ⟨s', g.held⟩ ∧
      adoptedFds s'.calls = adoptedFds g.object.calls := by
  by_cases hn : n ∈ g.object.peers
  · exact ⟨_, emplace_taken (s := g.object) hn, adoptedFds_destroy _ _⟩
  · exact ⟨_, emplace_new (s := g.object) hn, rfl⟩

/-- A connection opens the fd that `socket` answers, if any, and returns if it succeeds. -/
theorem adoptedFds_connectOne (remote : IPSocket) (answer : ConnectAnswer) (g : Guarded SocketTcp) :
    ∃ s', connectOne remote answer g = (if answer.Succeeds then .ok () ⟨s', g.held⟩
        else .error (.exception .runtimeError) ⟨s', g.held⟩) ∧
      adoptedFds s'.calls = answer.socket.toList ++ adoptedFds g.object.calls := by
  by_cases h : answer.Succeeds
  · obtain ⟨n, hs⟩ := Option.isSome_iff_exists.mp h.1
    obtain ⟨s', hs', hcalls⟩ := adoptedFds_emplace n (connectedPeer n remote answer)
      ⟨{ g.object with calls := .adopted n :: g.object.calls }, g.held⟩
    refine ⟨s', ?_, ?_⟩
    · rw [if_pos h, connectOne_succeeds hs h, hs']
    · rw [hcalls, hs]
      rfl
  · -- a connect that fails has closed what it opened
    obtain ⟨s', hs', -, -, hcalls⟩ := connectOne_fails remote g h
    refine ⟨s', by rw [if_neg h, hs'], ?_⟩
    rw [hcalls]
    cases answer.socket with
    | none => rfl
    | some n => exact adoptedFds_destroy { fd := n } (.adopted n :: g.object.calls)

/-- **The sockets of the account are those that `connect` opens.** -/
theorem adoptedFds_connect (I : Inet) (m : TcpMembers) (mtx : Mutex)
    (remotes : List (IPSocket × ConnectAnswer)) (s : SocketTcp) :
    adoptedFds (after (SocketTcp.connect mtx remotes ⟨s, false⟩)).object.calls =
      ((openedBy I m remotes).map OpenedSocket.fd).reverse ++ adoptedFds s.calls := by
  have hloop : ∀ g : Guarded SocketTcp, adoptedFds (after ((remotes.forM fun remote =>
      connectOne remote.1 remote.2 : TcpCall PUnit) g)).object.calls =
        ((openedBy I m remotes).map OpenedSocket.fd).reverse ++ adoptedFds g.object.calls := by
    induction remotes with
    | nil => exact fun g => rfl
    | cons remote rest ih =>
        intro g
        obtain ⟨s', hs', hcalls⟩ := adoptedFds_connectOne remote.1 remote.2 g
        have hfds : ((remote.2.socket.map (m.connectSocket I)).toList.map OpenedSocket.fd).reverse =
            remote.2.socket.toList := by
          cases remote.2.socket with
          | none => rfl
          | some n => rfl
        rw [forM_cons, openedBy, List.map_append, List.reverse_append, hfds, List.append_assoc,
          ← hcalls]
        by_cases h : remote.2.Succeeds
        · rw [if_pos h] at hs' ⊢
          rw [bind_ok hs']
          -- the loop goes on
          exact ih ⟨s', g.held⟩
        · rw [if_neg h] at hs' ⊢
          -- the exception ends it
          rw [bind_error hs']
          rfl
  rw [SocketTcp.connect, after_withLock_free _ rfl]
  exact hloop ⟨s, true⟩

end SocketTcp

/-- A task adopts the descriptors it opens. -/
theorem adoptedFds_launchTask (a : T.Ptr × ConnectAnswer) (s : TcpSystem T) :
    adoptedFds (s.launchTask mtx a).state.socket.calls =
      ((openedByTask I m a s).map OpenedSocket.fd).reverse ++ adoptedFds s.socket.calls := by
  rcases openedByTask_cases (I := I) (m := m) a s with ⟨task, henabled, hdue, heq⟩ | ⟨hnone, heq⟩
  · rw [heq, TcpSystem.launchTask, henabled]
    simp only [if_pos hdue, Outcome.state_map, TcpSystem.state_perform]
    exact SocketTcp.adoptedFds_connect I m mtx [(task.function, a.2)] s.socket
  · rcases TcpSystem.launchTask_cases mtx a s with ⟨task, henabled, hdue, -⟩ | ⟨-, hsame⟩
    · exact absurd hdue (hnone task henabled)
    · rw [heq, hsame]
      rfl

/-- A launch adopts the descriptors its tasks open. -/
theorem adoptedFds_launch (order : List (T.Ptr × ConnectAnswer)) (s : TcpSystem T) :
    adoptedFds (Outcome.forEach (TcpSystem.launchTask mtx) order s).state.socket.calls =
      ((openedInLaunch I m mtx order s).map OpenedSocket.fd).reverse ++
        adoptedFds s.socket.calls := by
  induction order generalizing s with
  | nil => rfl
  | cons a order ih =>
      have hfirst : adoptedFds (s.launchTask mtx a).state.socket.calls =
          ((openedByTask I m a s).map OpenedSocket.fd).reverse ++ adoptedFds s.socket.calls :=
        adoptedFds_launchTask a s
      rw [Outcome.forEach_cons, openedInLaunch, List.map_append, List.reverse_append,
        -- what the first task opened was adopted before the others'
        List.append_assoc, ← hfirst]
      cases hlaunch : s.launchTask mtx a with
      | returned s' => exact ih s'
      | threw s' => rfl

/-- **The sockets of the account are those that the log of fds gains** in a `connect` or in a
launch. -/
theorem adoptedFds_step (s : TcpSystem T) :
    (∀ remotes, adoptedFds (cls.step mtx s (.call (.connect remotes))).state.socket.calls =
      ((openedIn I m mtx s (.call (.connect remotes))).map OpenedSocket.fd).reverse ++
        adoptedFds s.socket.calls) ∧
    ∀ order, adoptedFds (cls.step mtx s (.launch order)).state.socket.calls =
      ((openedIn I m mtx s (.launch order)).map OpenedSocket.fd).reverse ++
        adoptedFds s.socket.calls := by
  refine ⟨fun remotes => ?_, fun order => adoptedFds_launch order s⟩
  -- both classes have the `connect` of `SocketTcp`
  have hcall : cls.call mtx (.connect remotes) = SocketTcp.call mtx (.connect remotes) := by
    cases cls with
    | tcp => rfl
    | dccp => rfl
  rw [ConnectingClass.step, hcall, Outcome.state_map]
  show adoptedFds
    ((s.list (.connect remotes)).perform mtx (.connect remotes)).state.socket.calls = _
  rw [TcpSystem.state_perform]
  exact SocketTcp.adoptedFds_connect I m mtx remotes s.socket

/-! ### What is opened with which arguments -/

/-- A socket of the account was opened by `createConnectSocket`. -/
def FromMembers (I : Inet) (m : TcpMembers) (o : OpenedSocket) : Prop :=
  ∃ n, o = m.connectSocket I n

/-- Every socket a call opens is opened from the members. -/
theorem fromMembers_openedBy (remotes : List (IPSocket × ConnectAnswer)) :
    ∀ o ∈ openedBy I m remotes, FromMembers I m o := by
  induction remotes with
  | nil => exact fun o ho => absurd ho List.not_mem_nil
  | cons remote rest ih =>
      intro o ho
      rcases List.mem_append.mp ho with hfirst | hrest
      · obtain ⟨n, -, rfl⟩ := Option.map_eq_some_iff.mp (Option.mem_toList.mp hfirst)
        exact ⟨n, rfl⟩
      · -- the loop goes on after a connect that succeeds only
        by_cases h : remote.2.Succeeds
        · rw [if_pos h] at hrest
          exact ih o hrest
        · rw [if_neg h] at hrest
          exact absurd hrest List.not_mem_nil

/-- Every socket a launch opens is opened from the members. -/
theorem fromMembers_openedInLaunch (order : List (T.Ptr × ConnectAnswer)) (s : TcpSystem T) :
    ∀ o ∈ openedInLaunch I m mtx order s, FromMembers I m o := by
  induction order generalizing s with
  | nil => exact fun o ho => absurd ho List.not_mem_nil
  | cons a order ih =>
      intro o ho
      rcases List.mem_append.mp ho with hfirst | hrest
      · rcases openedByTask_cases (I := I) (m := m) a s with ⟨task, -, -, heq⟩ | ⟨-, heq⟩
        · rw [heq] at hfirst
          exact fromMembers_openedBy _ o hfirst
        · rw [heq] at hfirst
          exact absurd hfirst List.not_mem_nil
      · cases hlaunch : s.launchTask mtx a with
        | returned s' =>
            rw [hlaunch] at hrest
            exact ih s' o hrest
        | threw s' =>
            rw [hlaunch] at hrest
            exact absurd hrest List.not_mem_nil

/-- Every socket a step opens is opened from the members. -/
theorem fromMembers_openedIn (s : TcpSystem T) (e : TcpEvent T) :
    ∀ o ∈ openedIn I m mtx s e, FromMembers I m o := by
  cases e with
  | advance d => exact fun o ho => absurd ho List.not_mem_nil
  | launch order => exact fromMembers_openedInLaunch order s
  | call op =>
      cases op with
      | connect remotes => exact fromMembers_openedBy remotes
      | send ok msg => exact fun o ho => absurd ho List.not_mem_nil
      | selectFds ready => exact fun o ho => absurd ho List.not_mem_nil
      | handleMessage fd io => exact fun o ho => absurd ho List.not_mem_nil

/-! ### When nothing is opened -/

/-- A call opens nothing exactly when no socket was answered to it. -/
theorem openedBy_eq_nil_iff (remotes : List (IPSocket × ConnectAnswer)) :
    openedBy I m remotes = [] ↔ NoneAnswered remotes := by
  cases remotes with
  | nil => exact iff_of_true rfl fun remote hremote => absurd hremote (by simp)
  | cons remote rest =>
      have hanswer : NoneAnswered (remote :: rest) ↔ remote.2.socket = none := by
        simp [NoneAnswered]
      rw [hanswer, openedBy]
      cases hs : remote.2.socket with
      | none =>
          have hfails : ¬ remote.2.Succeeds := by simp [ConnectAnswer.Succeeds, hs]
          rw [if_neg hfails]
          exact iff_of_true rfl rfl
      -- the first answer decides, since the loop stops at the first failure
      | some n => exact iff_of_false (List.cons_ne_nil _ _) (Option.some_ne_none n)

/-- A task opens nothing exactly when no socket was answered to its reconnect. -/
theorem openedByTask_eq_nil_iff (a : T.Ptr × ConnectAnswer) (s : TcpSystem T) :
    openedByTask I m a s = [] ↔ TaskUnanswered a s := by
  rcases openedByTask_cases (I := I) (m := m) a s with ⟨task, henabled, hdue, heq⟩ | ⟨hnone, heq⟩
  · have hanswer : NoneAnswered [(task.function, a.2)] ↔ a.2.socket = none := by simp [NoneAnswered]
    rw [heq, openedBy_eq_nil_iff, hanswer]
    exact ⟨fun h _ _ _ => h, fun h => h task henabled hdue⟩
  · exact iff_of_true heq fun task henabled hdue => absurd hdue (hnone task henabled)

/-- A launch opens nothing exactly when none of its tasks does. -/
theorem openedInLaunch_eq_nil_iff (order : List (T.Ptr × ConnectAnswer)) (s : TcpSystem T) :
    openedInLaunch I m mtx order s = [] ↔
      Outcome.EachMeets TaskUnanswered (TcpSystem.launchTask mtx) order s := by
  induction order generalizing s with
  | nil => exact iff_of_true rfl trivial
  | cons a order ih =>
      rw [openedInLaunch, List.append_eq_nil_iff, openedByTask_eq_nil_iff, Outcome.EachMeets]
      refine and_congr_right fun _ => ?_
      cases hlaunch : s.launchTask mtx a with
      | returned s' =>
          refine (ih s').trans ⟨fun h t ht => ?_, fun h => h s' rfl⟩
          rwa [← Outcome.returned.inj ht]
      | threw s' => exact iff_of_true rfl fun t ht => absurd ht (by simp)

/-- A step opens nothing exactly when neither its call nor its launch does. -/
theorem openedIn_eq_nil_iff (s : TcpSystem T) (e : TcpEvent T) :
    openedIn I m mtx s e = [] ↔ OpensNone mtx s e := by
  cases e with
  | advance d => exact iff_of_true rfl trivial
  | launch order => exact openedInLaunch_eq_nil_iff order s
  | call op =>
      cases op with
      | connect remotes => exact openedBy_eq_nil_iff remotes
      | send ok msg => exact iff_of_true rfl trivial
      | selectFds ready => exact iff_of_true rfl trivial
      | handleMessage fd io => exact iff_of_true rfl trivial

namespace ConnectingSystem

/-- **The account is kept beside the system**, which does what it does without it. -/
theorem system_step (c : ConnectingSystem T) (e : TcpEvent T) :
    (step I mtx cls m c e).state.system = (cls.step mtx c.system e).state ∧
      (step I mtx cls m c e).state.opened = c.opened ++ openedIn I m mtx c.system e := by
  unfold step
  cases cls.step mtx c.system e with
  | returned s => exact ⟨rfl, rfl⟩
  | threw s => exact ⟨rfl, rfl⟩

/-- All sockets opened in a run come from the members. -/
theorem fromMembers_of_run {n : FD} {es : List (TcpEvent T)}
    (hrun : Run (step I mtx cls m) (fun _ _ => True) (initial T n) es c) :
    ∀ o ∈ c.opened, FromMembers I m o := by
  refine hrun.invariant_state (I := fun c => ∀ o ∈ c.opened, FromMembers I m o)
    (fun o ho => absurd ho List.not_mem_nil) fun c e hc _ o ho => ?_
  rw [(system_step c e).2] at ho
  rcases List.mem_append.mp ho with hold | hnew
  · exact hc o hold
  · exact fromMembers_openedIn c.system e o hnew

/-- No socket has been opened in a run exactly if no `socket` of it had an answer. -/
theorem opened_eq_nil_iff {n : FD} {es : List (TcpEvent T)}
    (hrun : Run (step I mtx cls m) (fun _ _ => True) (initial T n) es c) :
    c.opened = [] ↔ Run (step I mtx cls m) (fun c e => True ∧ OpensNone mtx c.system e)
      (initial T n) es c := by
  have hstep : ∀ (c : ConnectingSystem T) e, (step I mtx cls m c e).state.opened = [] ↔
      c.opened = [] ∧ OpensNone mtx c.system e := by
    intro c e
    rw [(system_step c e).2, List.append_eq_nil_iff, openedIn_eq_nil_iff]
  refine hrun.state_iff (I := fun _ => True) (J := fun c => c.opened = []) trivial rfl
    (fun _ _ _ _ => trivial) ?_ ?_
  · intro c e _ hnil _
    exact (hstep c e).trans (and_iff_right hnil)
  · intro c e _ hsome _ hnil
    exact hsome ((hstep c e).mp hnil).1

end ConnectingSystem

/-! ## The family -/

variable {locals : LocalIPSockets} {prior : TcpMembers}

/-- A connecting socket matches its address exactly when the first local decides the family rightly.
-/
theorem familyMatches_connectSocket_iff (h : ∀ ip ∈ locals.1, ip.IsIP I) (prior : TcpMembers)
    (type : ℤ) (n : FD) : ((prior.construct locals type).connectSocket I n).FamilyMatches I ↔
      locals.FrontDecides := by
  have hfront : locals.front.IsIP I := h _ (List.head_mem locals.2)
  obtain ⟨hip, hfamily⟩ := hfront.ofText 0
  have hargs : ((prior.construct locals type).connectSocket I n).args.family =
      chooseSocketFamily locals.1 := SocketArgs.family_constructed ..
  exact OpenedSocket.familyMatches_iff_frontDecides h hargs hip hfamily

/-- **The families go together exactly if the first endpoint decides**: for the socket of a
`SocketUdp`, and for a `SocketTcp` or `SocketDccp` for the first socket and all later ones. -/
theorem familyMatches_iff (I : Inet) (locals : LocalIPSockets) (h : ∀ ip ∈ locals.1, ip.IsIP I) :
    (∀ protocol n, (SocketUdp.mainSocket locals protocol n).FamilyMatches I ↔
      locals.FrontDecides) ∧
    ∀ (T : TaskScheduler IPSocket) (mtx : Mutex) (cls : ConnectingClass) (prior : TcpMembers)
      (n : FD) (es : List (TcpEvent T)) (c : ConnectingSystem T),
      Run (ConnectingSystem.step I mtx cls (prior.construct locals cls.type)) (fun _ _ => True)
        (ConnectingSystem.initial T n) es c →
      ((SocketTcp.mainSocket locals cls.type n).FamilyMatches I ∧
        (∀ o ∈ c.opened, o.FamilyMatches I) ↔ locals.FrontDecides) := by
  have hfront : locals.front.IsIP I := h _ (List.head_mem locals.2)
  -- every socket opened has the family of the first local and binds to it
  have hmain : ∀ o : OpenedSocket, o.args.family = chooseSocketFamily locals.1 →
      o.bound = locals.front → (o.FamilyMatches I ↔ locals.FrontDecides) := by
    intro o hargs hbound
    exact OpenedSocket.familyMatches_iff_frontDecides h hargs (hbound ▸ hfront) (by rw [hbound])
  refine ⟨fun protocol n => hmain _ (SocketArgs.family_constructed ..) rfl, ?_⟩
  intro T mtx cls prior n es c hrun
  rw [hmain (SocketTcp.mainSocket locals cls.type n) (SocketArgs.family_constructed ..) rfl]
  refine and_iff_left_of_imp fun hdecides o ho => ?_
  obtain ⟨k, rfl⟩ := ConnectingSystem.fromMembers_of_run hrun o ho
  exact (familyMatches_connectSocket_iff h prior cls.type k).mpr hdecides

/-! ## The protocol -/

/-- Of the members only `protocol` can differ from the arguments of the listening socket. -/
theorem args_connectSocket_iff (prior : TcpMembers) (locals : LocalIPSockets) (type : ℤ)
    (n k : FD) : ((prior.construct locals type).connectSocket I k).args =
      (SocketTcp.mainSocket locals type n).args ↔ prior.protocol = defaultProtocol := by
  refine ⟨congrArg SocketArgs.protocol, fun h => ?_⟩
  show SocketArgs.mk _ type prior.protocol = SocketArgs.mk _ type defaultProtocol
  rw [h]
  rfl

/-- **The arguments agree exactly if the storage held the default** where `protocol` has come to
lie, or no socket is opened in the run. The system is that of a `SocketTcp` for this class, and the
sockets that the account has of a `connect` or a launch are those that the log of fds gains. -/
theorem argsMatch_run_iff (prior : TcpMembers) (locals : LocalIPSockets) {n : FD}
    {es : List (TcpEvent T)}
    (hrun : Run (ConnectingSystem.step I mtx cls (prior.construct locals cls.type))
      (fun _ _ => True) (ConnectingSystem.initial T n) es c) :
    ((∀ o ∈ c.opened, o.args = (SocketTcp.mainSocket locals cls.type n).args) ↔
      prior.protocol = defaultProtocol ∨
      Run (ConnectingSystem.step I mtx cls (prior.construct locals cls.type))
        (fun c e => True ∧ OpensNone mtx c.system e) (ConnectingSystem.initial T n) es c) ∧
    ∀ s : TcpSystem T, (∀ e, ConnectingClass.tcp.step mtx s e = s.step mtx e) ∧
      (∀ remotes, adoptedFds (cls.step mtx s (.call (.connect remotes))).state.socket.calls =
        ((openedIn I (prior.construct locals cls.type) mtx s (.call (.connect remotes))).map
          OpenedSocket.fd).reverse ++ adoptedFds s.socket.calls) ∧
      ∀ order, adoptedFds (cls.step mtx s (.launch order)).state.socket.calls =
        ((openedIn I (prior.construct locals cls.type) mtx s (.launch order)).map
          OpenedSocket.fd).reverse ++ adoptedFds s.socket.calls := by
  refine ⟨?_, fun s => ⟨ConnectingClass.step_tcp mtx s, adoptedFds_step s⟩⟩
  have hmembers := ConnectingSystem.fromMembers_of_run hrun
  rw [← ConnectingSystem.opened_eq_nil_iff hrun]
  constructor
  · intro h
    -- any one of the opened sockets shows what the storage held
    refine or_iff_not_imp_right.mpr fun hopened => ?_
    obtain ⟨o, ho⟩ := List.exists_mem_of_ne_nil c.opened hopened
    obtain ⟨k, hk⟩ := hmembers o ho
    have hargs := h o ho
    rw [hk] at hargs
    exact (args_connectSocket_iff prior locals cls.type n k).mp hargs
  · rintro (hprotocol | hnil) o ho
    · obtain ⟨k, rfl⟩ := hmembers o ho
      exact (args_connectSocket_iff prior locals cls.type n k).mpr hprotocol
    · rw [hnil] at ho
      exact absurd ho List.not_mem_nil

/-! ## Samples -/

/-- `127.0.0.1` and `::1`, at port 5000. -/
def localhost : IPSocket := IPSocket.ofText Inet.reference (ascii "127.0.0.1") 5000

def localhost6 : IPSocket :=
  IPSocket.ofText Inet.reference (ascii "0000:0000:0000:0000:0000:0000:0000:0001") 5000

/-- A remote, and the answers to a connection on fd 4. -/
def sampleConnection : IPSocket × ConnectAnswer :=
  (⟨ascii "10.0.0.2", 5000, afInet⟩, ⟨some 4, true, true, 1⟩)

/-- The system of a `SocketTcp` on fd 3 that has made the connection. -/
def sampleConnecting (prior : TcpMembers) (locals : LocalIPSockets) :
    ConnectingSystem (.table IPSocket) :=
  (ConnectingSystem.step Inet.reference .plain .tcp (prior.construct locals sockStream)
    (.initial (.table IPSocket) 3) (.call (.connect [sampleConnection]))).state

/-- One connect from the constructed socket is a run. -/
theorem run_sampleConnecting (prior : TcpMembers) (locals : LocalIPSockets) :
    Run (ConnectingSystem.step Inet.reference .plain .tcp (prior.construct locals sockStream))
      (fun _ _ => True) (.initial (.table IPSocket) 3) [.call (.connect [sampleConnection])]
      (sampleConnecting prior locals) := .cons trivial rfl (.nil _)

/-- An IPv6 endpoint in front of an IPv4 one. -/
theorem familyMatches_sample : (SocketTcp.mainSocket ⟨[localhost6, localhost], by simp⟩
      sockStream 3).FamilyMatches Inet.reference ∧
    ∀ o ∈ (sampleConnecting ⟨0, 0, [], 0, 0⟩ ⟨[localhost6, localhost], by simp⟩).opened,
      o.FamilyMatches Inet.reference := by
  have hip : ∀ ip ∈ [localhost6, localhost], ip.IsIP Inet.reference := by decide +kernel
  have hdecides : LocalIPSockets.FrontDecides ⟨[localhost6, localhost], by simp⟩ :=
    .inl (by decide +kernel)
  exact ((familyMatches_iff Inet.reference ⟨[localhost6, localhost], by simp⟩ hip).2 _ _ .tcp _ 3
    _ _ (run_sampleConnecting ⟨0, 0, [], 0, 0⟩ _)).mpr hdecides

/-- **An IPv4 endpoint in front of an IPv6 one**: the socket is an IPv6 one, and bound to an IPv4
address. -/
theorem not_familyMatches : ¬ ∀ locals : LocalIPSockets,
    (∀ ip ∈ locals.1, ip.IsIP Inet.reference) →
      (SocketTcp.mainSocket locals sockStream 3).FamilyMatches Inet.reference := by
  intro h
  have hip : ∀ ip ∈ [localhost, localhost6], ip.IsIP Inet.reference := by decide +kernel
  have hmatches := h ⟨[localhost, localhost6], by simp⟩ hip
  have hfront : localhost.IsIP Inet.reference := by decide +kernel
  have hfamily := (OpenedSocket.familyMatches_bound_iff hfront).mp hmatches
  exact absurd hfamily (by decide +kernel)

/-- Storage of zeros. -/
theorem argsMatch_sample :
    (sampleConnecting ⟨0, 0, [], 0, 0⟩ ⟨[localhost], by simp⟩).opened.map OpenedSocket.fd = [4] ∧
    ∀ o ∈ (sampleConnecting ⟨0, 0, [], 0, 0⟩ ⟨[localhost], by simp⟩).opened,
      o.args = (SocketTcp.mainSocket ⟨[localhost], by simp⟩ sockStream 3).args := by
  refine ⟨rfl, ?_⟩
  exact (argsMatch_run_iff ⟨0, 0, [], 0, 0⟩ _ (run_sampleConnecting _ _)).1.mpr (.inl rfl)

/-- **Storage that held `IPPROTO_SCTP`** in the place of `protocol`: the socket of the first
connection is not one of TCP. -/
theorem not_argsMatch : ¬ ∀ (prior : TcpMembers) (es : List (TcpEvent (.table IPSocket)))
    (c : ConnectingSystem (.table IPSocket)),
    Run (ConnectingSystem.step Inet.reference .plain .tcp
        (prior.construct ⟨[localhost], by simp⟩ sockStream)) (fun _ _ => True)
      (ConnectingSystem.initial (.table IPSocket) 3) es c →
    ∀ o ∈ c.opened, o.args = (SocketTcp.mainSocket ⟨[localhost], by simp⟩ sockStream 3).args := by
  intro h
  have hargs := h ⟨0, 0, [], 0, 132⟩ _ _ (run_sampleConnecting _ _)
    (((⟨0, 0, [], 0, 132⟩ : TcpMembers).construct ⟨[localhost], by simp⟩ sockStream).connectSocket
      Inet.reference 4) (List.mem_singleton.mpr rfl)
  exact absurd ((args_connectSocket_iff _ _ _ _ _).mp hargs) (by decide)

end SctpSandbox

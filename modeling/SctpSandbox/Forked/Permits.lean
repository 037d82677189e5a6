import SctpSandbox.Forked.SharedMemory
import SctpSandbox.Lib.SignalledCell

/-! # What the semaphores give without any condition

The two processes may take each other's permits and store sizes before others are read. Each shared
integer with its semaphore is still a signalled cell: a store and its post, and a permit and its
read, are neighbours in every call, and nothing else of the two processes touches them. So no size
is read that was not stored, and none gets lost together with its permit. -/

namespace SctpSandbox

instance : Fintype Process := ⟨{.parent, .child}, fun p => by cases p <;> decide⟩

namespace ForkedPair

open SignalledCell (Standing)

variable {attr : MqAttr} {this : Process → SocketUnixForked} {s s' : ForkedPair}
  {p q : Process} {i : SharedInt} {op : ForkedOp} {ops : List ForkedOp} {c : ForkedCall}
  {m : SignalledCell Process ℤ}

/-! ## The history of an integer -/

/-- What a line of the log says about the value of an integer. -/
def cellEvent (i : SharedInt) :
    Process × ForkedAction → Option (Process × SignalledCell.Event ℤ)
  | (p, .set j v) => if j = i then some (p, .stored v) else none
  | (p, .got j v) => if j = i then some (p, .read v) else none
  | _ => none

/-- What the processes did to the value of an integer. -/
def cellHistory (i : SharedInt) (log : List (Process × ForkedAction)) :
    List (Process × SignalledCell.Event ℤ) :=
  log.filterMap (cellEvent i)

/-- The sizes stored in an integer, the newest first. -/
def sizesStored (i : SharedInt) (log : List (Process × ForkedAction)) : List ℤ :=
  log.filterMap fun
    | (_, .set j v) => if j = i then some v else none
    | _ => none

/-- The sizes read from an integer, the newest first. -/
def sizesRead (i : SharedInt) (log : List (Process × ForkedAction)) : List ℤ :=
  log.filterMap fun
    | (_, .got j v) => if j = i then some v else none
    | _ => none

/-- The cell's stores are the sizes stored in the log. -/
theorem stores_cellHistory (i : SharedInt) (log : List (Process × ForkedAction)) :
    SignalledCell.stores (cellHistory i log) = sizesStored i log := by
  rw [SignalledCell.stores, cellHistory, List.filterMap_filterMap, sizesStored]
  congr 1
  funext ⟨p, a⟩
  cases a with
  | set j v | got j v => by_cases hji : j = i <;> simp [cellEvent, hji]
  | _ => rfl

/-- The cell's reads are the sizes read in the log. -/
theorem reads_cellHistory (i : SharedInt) (log : List (Process × ForkedAction)) :
    SignalledCell.reads (cellHistory i log) = sizesRead i log := by
  rw [SignalledCell.reads, cellHistory, List.filterMap_filterMap, sizesRead]
  congr 1
  funext ⟨p, a⟩
  cases a with
  | set j v | got j v => by_cases hji : j = i <;> simp [cellEvent, hji]
  | _ => rfl

/-- A logged store of a size is a store of the cell. -/
@[simp] theorem cellHistory_set (i : SharedInt) (p : Process) (v : ℤ)
    (log : List (Process × ForkedAction)) :
    cellHistory i ((p, .set i v) :: log) = (p, .stored v) :: cellHistory i log :=
  List.filterMap_cons_some (if_pos rfl)

/-- A logged read of a size is a read of the cell. -/
@[simp] theorem cellHistory_got (i : SharedInt) (p : Process) (v : ℤ)
    (log : List (Process × ForkedAction)) :
    cellHistory i ((p, .got i v) :: log) = (p, .read v) :: cellHistory i log :=
  List.filterMap_cons_some (if_pos rfl)

/-- A line about something else is no event of this cell. -/
theorem cellEvent_of_about_ne {a : Process × ForkedAction} (h : a.2.about ≠ some i) :
    cellEvent i a = none := by
  obtain ⟨p, a⟩ := a
  cases a with
  | set j v | got j v => exact if_neg fun hji => h (congrArg some hji)
  | _ => rfl

/-- Only the lines about the integer matter. -/
theorem cellHistory_filter (i : SharedInt) (log : List (Process × ForkedAction)) :
    cellHistory i (log.filter fun a => a.2.about = some i) = cellHistory i log := by
  rw [cellHistory, List.filterMap_filter, cellHistory]
  congr 1
  funext a
  by_cases ha : a.2.about = some i
  · exact if_pos (decide_eq_true ha)
  · rw [cellEvent_of_about_ne ha]
    exact ite_self none

/-- A step apart from the integer leaves the cell's history. -/
theorem Apart.cellHistory (h : Apart i s s') :
    cellHistory i s'.log = ForkedPair.cellHistory i s.log := by
  rw [← cellHistory_filter, h.log, cellHistory_filter]

/-! ## The cell of an integer -/

/-- Where a process stands as a party of the cell. -/
inductive Stands (i : SharedInt) (c : ForkedControl) : Standing → Prop
  | idle : Idle i c → Stands i c .idle
  | storing : Due i (.semPost i) c → Stands i c .storing
  | taking : Due i (.get i) c → Stands i c .taking
  | stopped : c = .threw (.semPost i) → Stands i c .stopped

/-- A process between its calls is idle towards the cell. -/
theorem Stands.ready {st : Standing} (h : Stands i .ready st) : st = .idle := by
  cases h with
  | idle _ => rfl
  | storing hdue | taking hdue =>
      obtain ⟨call, ops, hbusy, -⟩ := hdue
      exact ForkedControl.noConfusion hbusy
  | stopped hthrew => exact ForkedControl.noConfusion hthrew

/-- The integer and its semaphore are this cell. -/
structure IsCell (i : SharedInt) (s : ForkedPair) (m : SignalledCell Process ℤ) : Prop where
  value : m.value = s.integer i
  permits : m.permits = s.semaphore i
  history : m.history = cellHistory i s.log
  stands : ∀ p, Stands i (s.control p) (m.standing p)

/-- The initial pair is the cell that holds zero. -/
theorem IsCell.initial (i : SharedInt) : IsCell i {} { value := 0 } :=
  ⟨rfl, rfl, rfl, fun _ => .idle fun _ _ h => ForkedControl.noConfusion h⟩

/-- A process moves and the cell stays as it is. -/
theorem IsCell.still (h : IsCell i s m) (ha : Apart i s s') {c' : ForkedControl}
    (hc : Stands i c' (m.standing p)) : IsCell i (s'.setControl p c') m := by
  refine ⟨h.value.trans ha.integer.symm, h.permits.trans ha.semaphore.symm,
    h.history.trans ha.cellHistory.symm, ?_⟩
  refine forall_control_setControl (P := fun q c => Stands i c (m.standing q)) hc fun q _ => ?_
  rw [ha.control]
  exact h.stands q

/-- A process moves, and so does the party it is. -/
theorem IsCell.moves (h : IsCell i s m) {m' : SignalledCell Process ℤ} {st : Standing}
    {c' : ForkedControl} (hcontrol : s'.control = s.control)
    (hset : m'.standing = Function.update m.standing p st) (hc : Stands i c' st)
    (hvalue : m'.value = s'.integer i) (hpermits : m'.permits = s'.semaphore i)
    (hhistory : m'.history = cellHistory i s'.log) : IsCell i (s'.setControl p c') m' := by
  refine ⟨hvalue, hpermits, hhistory, ?_⟩
  refine forall_control_setControl (P := fun q c => Stands i c (m'.standing q)) ?_ fun q hq => ?_
  · rw [hset, Function.update_self]
    exact hc
  · rw [hset, Function.update_of_ne hq, hcontrol]
    exact h.stands q

/-- A process that neither posts nor reads next is idle. -/
theorem IsCell.idle_of_ne (h : IsCell i s m) (hbusy : s.control p = .busy c (op :: ops))
    (hpost : op ≠ .semPost i) (hget : op ≠ .get i) :
    m.standing p = .idle ∧ Follows i false (op :: ops) := by
  have hstands := h.stands p
  generalize m.standing p = st at hstands ⊢
  cases hstands with
  | idle hidle => exact ⟨rfl, hidle c _ hbusy⟩
  | storing hdue => exact absurd (hdue.of_busy hbusy).1 hpost
  | taking hdue => exact absurd (hdue.of_busy hbusy).1 hget
  | stopped hthrew => exact ForkedControl.noConfusion (hbusy.symm.trans hthrew)

/-- A process that returns is idle. -/
theorem IsCell.idle_of_returns (h : IsCell i s m) (hbusy : s.control p = .busy c []) :
    m.standing p = .idle := by
  have hstands := h.stands p
  generalize m.standing p = st at hstands ⊢
  cases hstands with
  | idle _ => rfl
  | storing hdue | taking hdue =>
      obtain ⟨call, ops, hbusy', -⟩ := hdue
      obtain ⟨-, hnil⟩ := ForkedControl.busy.inj (hbusy.symm.trans hbusy')
      exact absurd hnil (List.cons_ne_nil _ _).symm
  | stopped hthrew => exact ForkedControl.noConfusion (hbusy.symm.trans hthrew)

/-- A process that posts next has just stored a size. -/
theorem IsCell.storing (h : IsCell i s m) (hbusy : s.control p = .busy c (.semPost i :: ops)) :
    m.standing p = .storing ∧ Follows i false ops := by
  have hstands := h.stands p
  generalize m.standing p = st at hstands ⊢
  cases hstands with
  | idle hidle => exact absurd ((hidle c _ hbusy).1.mp rfl) (by simp)
  | storing hdue => exact ⟨rfl, (hdue.of_busy hbusy).2⟩
  | taking hdue => exact ForkedOp.noConfusion (hdue.of_busy hbusy).1
  | stopped hthrew => exact ForkedControl.noConfusion (hbusy.symm.trans hthrew)

/-- A process that reads next has just taken a permit. -/
theorem IsCell.taking (h : IsCell i s m) (hbusy : s.control p = .busy c (.get i :: ops)) :
    m.standing p = .taking ∧ Follows i false ops := by
  have hstands := h.stands p
  generalize m.standing p = st at hstands ⊢
  cases hstands with
  | idle hidle => exact absurd rfl (hidle c _ hbusy).2.1
  | storing hdue => exact ForkedOp.noConfusion (hdue.of_busy hbusy).1
  | taking hdue => exact ⟨rfl, (hdue.of_busy hbusy).2⟩
  | stopped hthrew => exact ForkedControl.noConfusion (hbusy.symm.trans hthrew)

/-! ## Steps -/

/-- The integer becomes what the cell becomes by at most one step of a party. -/
def Becomes (i : SharedInt) (m : SignalledCell Process ℤ) (s' : ForkedPair) : Prop :=
  ∃ m', Relation.ReflGen SignalledCell.Step m m' ∧ IsCell i s' m'

section Operations

variable {s₁ : ForkedPair} {more : List ForkedOp} {answer : KernelAnswer} {t : SocketUnixForked}

/-- The store of a size is a store of the cell. -/
theorem becomes_set {v : ℤ} (h : IsCell i s m) (hbusy : s.control p = .busy c (.set i v :: ops)) :
    Becomes i m (((s.setInteger i v).record p (.set i v)).setControl p (.busy c ops)) := by
  obtain ⟨hidle, hfollows⟩ := h.idle_of_ne hbusy (by simp) (by simp)
  obtain ⟨ops', rfl, hfollows'⟩ := follows_set hfollows
  have hvalue : (s.setInteger i v).integer i = v := Function.update_self _ _ _
  refine ⟨_, .single (.store m p v hidle), h.moves rfl rfl (.storing ⟨c, ops', rfl, hfollows'⟩)
    hvalue.symm h.permits ?_⟩
  rw [log_record, log_setInteger, cellHistory_set, ← h.history]

/-- The post of the semaphore is a post of the cell. -/
theorem becomes_semPost (h : IsCell i s m) (hbusy : s.control p = .busy c (.semPost i :: ops)) :
    Becomes i m
      (((s.setSemaphore i (s.semaphore i + 1)).record p (.posted i)).setControl p
        (.busy c ops)) := by
  obtain ⟨hstoring, hfollows⟩ := h.storing hbusy
  have hpermits : (s.setSemaphore i (s.semaphore i + 1)).semaphore i = m.permits + 1 := by
    rw [h.permits]
    exact Function.update_self _ _ _
  refine ⟨_, .single (.post m p hstoring), h.moves rfl rfl (.idle fun call ops' hops => ?_)
    h.value hpermits.symm h.history⟩
  obtain ⟨-, rfl⟩ := ForkedControl.busy.inj hops
  exact hfollows

/-- A semaphore at its maximum stops the process that posts. -/
theorem becomes_semPost_threw (h : IsCell i s m)
    (hbusy : s.control p = .busy c (.semPost i :: ops)) :
    Becomes i m (s.setControl p (.threw (.semPost i))) :=
  ⟨_, .single (.fail m p (h.storing hbusy).1),
    h.moves rfl rfl (.stopped rfl) h.value h.permits h.history⟩

/-- The acquisition of a permit is an acquisition of the cell. -/
theorem becomes_acquire (h : IsCell i s m) (hpos : 0 < s.semaphore i)
    (hbusy : s.control p = .busy c (.semTrywait i :: ops)) :
    Becomes i m (((s.setSemaphore i (s.semaphore i - 1)).record p (.acquired i)).setControl p
      (.busy c (.get i :: ops))) := by
  obtain ⟨hidle, hfollows⟩ := h.idle_of_ne hbusy (by simp) (by simp)
  rw [Follows] at hfollows
  have hpermits : (s.setSemaphore i (s.semaphore i - 1)).semaphore i = m.permits - 1 := by
    rw [h.permits]
    exact Function.update_self _ _ _
  exact ⟨_, .single (.take m p hidle (h.permits ▸ hpos)),
    h.moves rfl rfl (.taking ⟨c, ops, rfl, hfollows.2.2⟩) h.value hpermits.symm h.history⟩

/-- The read behind an acquired permit is a read of the cell. -/
theorem becomes_get (h : IsCell i s m) (hbusy : s.control p = .busy c (.get i :: ops)) :
    Becomes i m ((s.record p (.got i (s.integer i))).setControl p (.busy c ops)) := by
  obtain ⟨htaking, hfollows⟩ := h.taking hbusy
  refine ⟨_, .single (.read m p htaking), h.moves rfl rfl (.idle fun call ops' hops => ?_)
    h.value h.permits ?_⟩
  · obtain ⟨-, rfl⟩ := ForkedControl.busy.inj hops
    exact hfollows
  · rw [log_record, cellHistory_got, ← h.history, h.value]

/-- A process that was idle and stays so. -/
theorem becomes_idle (h : IsCell i s m) (ha : Apart i s s') {c' : ForkedControl}
    (hidle : m.standing p = .idle) (hnew : Idle i c') : Becomes i m (s'.setControl p c') :=
  ⟨m, .refl, h.still ha (hidle ▸ .idle hnew)⟩

/-- The operations on the integer. -/
theorem becomes_about (attr : MqAttr) (t : SocketUnixForked) (answer : KernelAnswer)
    (h : IsCell i s m) (habout : op.about = some i) (hbusy : s.control p = .busy c (op :: ops)) :
    Becomes i m (proceed s p c op ops (perform s p attr t answer op)) := by
  cases op with
  | set j v =>
      obtain rfl := Option.some.inj habout
      exact becomes_set h hbusy
  | semPost j =>
      obtain rfl := Option.some.inj habout
      rw [perform_semPost]
      split
      · exact becomes_semPost h hbusy
      · exact becomes_semPost_threw h hbusy
  | semTrywait j =>
      obtain rfl := Option.some.inj habout
      rw [perform_semTrywait]
      split
      -- without a permit the poll goes on, as if nothing had been asked
      case isTrue hpos => exact becomes_acquire h hpos hbusy
      case isFalse =>
          obtain ⟨hidle, hfollows⟩ := h.idle_of_ne hbusy (by simp) (by simp)
          refine becomes_idle h (.refl j s) hidle fun call ops' hops => ?_
          obtain ⟨-, rfl⟩ := ForkedControl.busy.inj hops
          exact hfollows.2.2
  | get j =>
      obtain rfl := Option.some.inj habout
      exact becomes_get h hbusy
  | _ => exact absurd habout (by simp [ForkedOp.about])

/-- Operations about something else. -/
theorem becomes_apart (h : IsCell i s m) (habout : op.about ≠ some i) (ha : Apart i s s₁)
    (hmore : more = [] ∨ ∃ j, j ≠ i ∧ more = [.get j])
    (hbusy : s.control p = .busy c (op :: ops)) :
    Becomes i m (s₁.setControl p (.busy c (more ++ ops))) := by
  obtain ⟨hidle, hfollows⟩ := h.idle_of_ne hbusy (fun heq => habout (heq ▸ rfl))
    fun heq => habout (heq ▸ rfl)
  rw [follows_of_apart habout] at hfollows
  refine becomes_idle h ha hidle fun call ops' hops => ?_
  obtain ⟨-, rfl⟩ := ForkedControl.busy.inj hops
  rcases hmore with rfl | ⟨j, hj, rfl⟩
  · exact hfollows
  · have hget : (ForkedOp.get j).about ≠ some i := fun heq => hj (Option.some.inj heq)
    exact (follows_of_apart hget).mpr hfollows

/-- An operation about something else that stops the process. -/
theorem becomes_apart_stopped (h : IsCell i s m) (habout : op.about ≠ some i)
    (ha : Apart i s s₁) (hbusy : s.control p = .busy c (op :: ops)) {c' : ForkedControl}
    (hc' : ∀ call ops, c' ≠ .busy call ops) : Becomes i m (s₁.setControl p c') := by
  obtain ⟨hidle, -⟩ := h.idle_of_ne hbusy (fun heq => habout (heq ▸ rfl))
    fun heq => habout (heq ▸ rfl)
  exact becomes_idle h ha hidle (idle_of_not_busy hc')

end Operations

/-- **An integer and its semaphore are a signalled cell**: every step of the two processes is at
most one step of a party. -/
theorem becomes_move {input : ForkedInput} (h : IsCell i s m)
    (hmove : Move attr this s p input s') (hdestroy : input ≠ .destroy) : Becomes i m s' := by
  cases hmove with
  | called c hready _ =>
      have hstands := h.stands p
      rw [hready] at hstands
      refine becomes_idle h (apart_record s p (ForkedAction.about_ne rfl)) hstands.ready
        fun call ops hops => ?_
      obtain ⟨-, rfl⟩ := ForkedControl.busy.inj hops
      exact follows_operations i (this p) c
  | returned c answer hbusy =>
      exact becomes_idle h (apart_record s p (ForkedAction.about_ne rfl))
        (h.idle_of_returns hbusy) (idle_of_not_busy fun _ _ => ForkedControl.noConfusion)
  | destroyed _ => exact absurd rfl hdestroy
  -- an operation about the integer is one of the cell, any other one stands apart from it
  | goesOn c op ops more answer s₁ hbusy _ heff =>
      by_cases habout : op.about = some i
      · have habout' := becomes_about attr (this p) answer h habout hbusy
        rwa [heff] at habout'
      · obtain ⟨ha, hmore⟩ := apart_of_goesOn habout heff
        exact becomes_apart h habout ha hmore hbusy
  | throws c op ops answer s₁ hbusy _ heff =>
      by_cases habout : op.about = some i
      · have habout' := becomes_about attr (this p) answer h habout hbusy
        rwa [heff] at habout'
      · exact becomes_apart_stopped h habout (apart_of_throws habout heff) hbusy
          fun _ _ => ForkedControl.noConfusion
  | outOfBounds c op ops answer hbusy _ heff =>
      by_cases habout : op.about = some i
      · have habout' := becomes_about attr (this p) answer h habout hbusy
        rwa [heff] at habout'
      · exact becomes_apart_stopped h habout (.refl i s) hbusy
          fun _ _ => ForkedControl.noConfusion

/-! ## Runs -/

/-- The cell of an integer, in every run. -/
theorem isCell_of_run {es : List (Process × ForkedInput)}
    (hrun : Run (step attr this) Talks {} es s) (i : SharedInt) :
    ∃ m, SignalledCell.Reachable 0 m ∧ IsCell i s m := by
  refine hrun.invariant_state (I := fun s => ∃ m, SignalledCell.Reachable 0 m ∧ IsCell i s m)
    ⟨_, .refl, .initial i⟩ fun s e h hok => ?_
  obtain ⟨m, hreach, hcell⟩ := h
  refine step_keeps (I := fun s => ∃ m, SignalledCell.Reachable 0 m ∧ IsCell i s m) hok.1
    fun s' hmove => ?_
  obtain ⟨m', hstep, hcell'⟩ := becomes_move hcell hmove hok.2
  exact ⟨m', hreach.trans hstep.to_reflTransGen, hcell'⟩

/-- **Sizes and permits balance.** In every run of the two processes, in whatever order their
operations come and whoever takes the permits: there are never more sizes read and permits left
than sizes stored, at most one less for each process, and exactly as many when both processes are
between two calls; and a size that is read is the one stored last, by whichever process. -/
theorem balanced_of_run (attr : MqAttr) (this : Process → SocketUnixForked)
    {es : List (Process × ForkedInput)} (hrun : Run (step attr this) Talks {} es s)
    (i : SharedInt) :
    (sizesRead i s.log).length + s.semaphore i ≤ (sizesStored i s.log).length ∧
    (sizesStored i s.log).length ≤ (sizesRead i s.log).length + s.semaphore i + 2 ∧
    ((∀ p, s.control p = .ready) →
      (sizesStored i s.log).length = (sizesRead i s.log).length + s.semaphore i) ∧
    ∀ newer p v older, s.log = newer ++ (p, .got i v) :: older →
      (sizesStored i older).head? = some v := by
  obtain ⟨m, hreach, hcell⟩ := isCell_of_run hrun i
  -- the balance gives the bounds on the lengths, the latest store the last conjunct
  have hbalanced := SignalledCell.Reachable.balanced hreach
  have hlatest := SignalledCell.Reachable.latest hreach
  rw [← stores_cellHistory, ← reads_cellHistory, ← hcell.history, ← hcell.permits]
  have hbetween : SignalledCell.between m.standing ≤ 2 := SignalledCell.between_le m.standing
  refine ⟨hbalanced.reads_le, ?_, fun hready => ?_, fun newer p v older hlog => ?_⟩
  · rw [hbalanced]
    exact Nat.add_le_add_left hbetween _
  · -- all are ready, so nobody stands between a store and its post
    refine hbalanced.of_idle fun p => ?_
    have hstands := hcell.stands p
    rw [hready p] at hstands
    exact hstands.ready
  · rw [← stores_cellHistory]
    -- the read's line splits the history where it splits the log
    refine hlatest.read (cellHistory i newer) p v (cellHistory i older) ?_
    rw [hcell.history, hlog, cellHistory, List.filterMap_append]
    exact congrArg _ (cellHistory_got i p v older)

/-- The parent reads the size that it has stored itself. -/
theorem balanced_own_size : ∃ s, Run (step .default samplePair) Talks {}
      (sampleSend ++ sampleReceive .parent 7) s ∧
    sizesRead .posix s.log = [2] ∧
    (sizesStored .posix s.log).length =
      (sizesRead .posix s.log).length + s.semaphore .posix := by
  have hrun : Run (step .default samplePair) Talks {} (sampleSend ++ sampleReceive .parent 7) _ :=
    run_of_allows (by decide +kernel)
  exact ⟨_, hrun, by decide +kernel,
    (balanced_of_run .default samplePair hrun .posix).2.2.1 (by decide +kernel)⟩

end ForkedPair

end SctpSandbox

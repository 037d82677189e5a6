import SctpSandbox.Chat.Tasks

/-! # The quit message reaches every task

The slot holds one message, and a poll empties it. The quit message survives this because whoever
takes it puts it back: from the moment `ioTask` has stored it, it is in the slot or on its way back
there (`quitKept_of_interleaves`). A poll in between finds the slot empty and returns nothing, so a
task may miss the quit message for a round; a poll with nobody in between returns it. -/

namespace SctpSandbox

namespace Chat

variable {ι : Type} {i : ι} {l l' : List (Action ι)} {p q : Pool (Thread ι) (Shared ι) Point}

/-- The values returned by the calls of `chatOrQuit` of task `i`, the newest first. -/
def results [DecidableEq ι] (i : ι) (log : List (Action ι)) : List ChatMessage :=
  log.filterMap fun
    | .returned j msg => if j = i then some msg else none
    | _ => none

/-- The first value that task `i` returns after `p` is the quit message: it has returned it before
`q`, or its next step does so, whatever the surroundings decide. -/
def ReturnsQuit [DecidableEq ι] (i : ι) (p q : Pool (Thread ι) (Shared ι) Point) : Prop :=
  ∃ l, q.shared.log = l ++ p.shared.log ∧ ((∃ rs, results i l = rs ++ [quitMsg]) ∨
    results i l = [] ∧ ∀ e, ∃ l',
      (step (.task i) e (q.pc (.task i)) q.shared).2.log = .returned i quitMsg :: l')

/-- The invariant of the quit message. -/
structure QuitKept (p : Pool (Thread ι) (Shared ι) Point) : Prop where
  /-- After the quit message `ioTask` stores nothing. -/
  ended : .stored quitMsg ∈ p.shared.log → p.pc .io = .ended
  /-- It is in the slot, or a task has just taken it. -/
  held : .stored quitMsg ∈ p.shared.log →
    p.shared.slot = quitMsg ∨ ∃ i, p.pc (.task i) = .took quitMsg
  /-- It came from `ioTask`. -/
  slot : p.shared.slot = quitMsg → .stored quitMsg ∈ p.shared.log
  took : ∀ i, p.pc (.task i) = .took quitMsg → .stored quitMsg ∈ p.shared.log
  returned : ∀ l i l', p.shared.log = l ++ .returned i quitMsg :: l' → .stored quitMsg ∈ l'

/-- At the start the input has not ended, so there is nothing to keep. -/
theorem quitKept_start : QuitKept (start ι) where
  ended := fun h => absurd h List.not_mem_nil
  held := fun h => absurd h List.not_mem_nil
  slot := fun h => absurd h.symm quitMsg_ne_nil
  took := fun i h => absurd h Point.noConfusion
  returned := fun l i l' h => by simp [start] at h

/-- New entries of the log that return no quit message leave the law about returns as it is. -/
theorem returned_append (new : List (Action ι)) {log : List (Action ι)}
    (h : ∀ l i l', log = l ++ .returned i quitMsg :: l' → .stored quitMsg ∈ l')
    (hnew : ∀ i, .returned i quitMsg ∉ new) :
    ∀ l i l', new ++ log = l ++ .returned i quitMsg :: l' → .stored quitMsg ∈ l' := by
  intro l i l' heq
  rcases List.append_eq_append_iff.mp heq with ⟨m, rfl, hlog⟩ | ⟨m, rfl, hlog⟩
  · exact h m i l' hlog
  · cases m with
    | nil => exact h [] i l' hlog.symm
    | cons a m =>
        obtain rfl := (List.cons.inj hlog).1
        exact absurd (List.mem_append_right l List.mem_cons_self) (hnew i)

/-- A task that holds the quit message puts it back and returns it, whatever the surroundings
decide. -/
theorem step_took_quitMsg (i : ι) (e : Input) (s : Shared ι) : step (.task i) e (.took quitMsg) s =
    (.looping quitMsg, ⟨quitMsg, .returned i quitMsg :: .putBack i :: s.log⟩) := rfl

section Step

variable [DecidableEq ι]

/-- A task in the window stays there when another thread moves. -/
theorem window_set {t : Thread ι} {r : Point × Shared ι} (ht : p.pc t ≠ .took quitMsg)
    (h : ∃ i, p.pc (.task i) = .took quitMsg) :
    ∃ i, (p.set t r).pc (.task i) = .took quitMsg := by
  obtain ⟨i, hi⟩ := h
  have hne : Thread.task i ≠ t := by
    rintro rfl
    exact ht hi
  exact ⟨i, (Pool.pc_set_ne _ _ hne).trans hi⟩

/-- A step of a task that neither stores a line nor returns the quit message keeps the law if it
passes the quit message on, and neither makes one up nor takes one from nowhere. -/
theorem QuitKept.task (h : QuitKept p) {k' : Point} {s' : Shared ι} (new : List (Action ι))
    (hlog : s'.log = new ++ p.shared.log)
    (hnew : ∀ a ∈ new, (∀ line, a ≠ .stored line) ∧ ∀ j, a ≠ .returned j quitMsg)
    (hheld : .stored quitMsg ∈ p.shared.log → s'.slot = quitMsg ∨
      ∃ j, (p.set (.task i) (k', s')).pc (.task j) = .took quitMsg)
    (hslot : s'.slot = quitMsg → .stored quitMsg ∈ p.shared.log)
    (htook : k' = .took quitMsg → .stored quitMsg ∈ p.shared.log) :
    QuitKept (p.set (.task i) (k', s')) := by
  have hio : (p.set (.task i) (k', s')).pc .io = p.pc .io :=
    Pool.pc_set_ne _ _ (Thread.io_ne_task i)
  have hstored : .stored quitMsg ∈ s'.log ↔ .stored quitMsg ∈ p.shared.log := by
    rw [hlog, List.mem_append]
    exact or_iff_right fun hmem => (hnew _ hmem).1 quitMsg rfl
  refine ⟨fun hs => hio.trans (h.ended (hstored.mp hs)), fun hs => hheld (hstored.mp hs),
    fun hs => hstored.mpr (hslot hs), fun j hj => hstored.mpr ?_, ?_⟩
  · by_cases hji : j = i
    · subst hji
      exact htook ((Pool.pc_set_self _ _ _).symm.trans hj)
    · -- another task stays where it is
      have hne : Thread.task j ≠ .task i := fun heq => hji (Thread.task.inj heq)
      exact h.took j ((Pool.pc_set_ne _ _ hne).symm.trans hj)
  · show ∀ l i l', s'.log = l ++ .returned i quitMsg :: l' → .stored quitMsg ∈ l'
    rw [hlog]
    exact returned_append new h.returned fun j hmem => (hnew _ hmem).2 j rfl

/-- The quit message is kept by every step, by cases on the moves. -/
theorem QuitKept.moved (h : QuitKept p) {t : Thread ι} {k' : Point} {s' : Shared ι}
    (hm : Moved t (p.pc t) p.shared k' s') : QuitKept (p.set t (k', s')) := by
  generalize hk : p.pc t = k at hm
  cases hm with
  | quietIo _ hended =>
      have htask : ∀ i, (p.set .io (k', p.shared)).pc (.task i) = p.pc (.task i) := fun i =>
        Pool.pc_set_ne _ _ (Thread.io_ne_task i).symm
      refine ⟨fun hs => ?_, fun hs => ?_, h.slot, fun i hi => ?_, h.returned⟩
      · exact (Pool.pc_set_self _ _ _).trans (hended (hk.symm.trans (h.ended hs)))
      · exact (h.held hs).imp_right fun ⟨i, hi⟩ => ⟨i, (htask i).trans hi⟩
      · exact h.took i ((htask i).symm.trans hi)
  | stored line _ =>
      -- `ioTask` has not ended, so it has not stored the quit message before
      have hno : .stored quitMsg ∉ p.shared.log := fun hs =>
        absurd (hk.symm.trans (h.ended hs)) Point.noConfusion
      have hline : .stored quitMsg ∈ Action.stored line :: p.shared.log → line = quitMsg :=
        fun hs => (List.mem_cons.mp hs).elim (fun heq => (Action.stored.inj heq).symm)
          fun hs => absurd hs hno
      refine ⟨fun hs => ?_, fun hs => .inl (hline hs), fun hs => ?_, fun i hi => ?_, ?_⟩
      · exact (Pool.pc_set_self _ _ _).trans (if_pos (hline hs))
      · have hq : line = quitMsg := hs
        exact hq ▸ List.mem_cons_self
      · exact absurd (h.took i ((Pool.pc_set_ne _ _ (Thread.io_ne_task i).symm).symm.trans hi)) hno
      · exact returned_append [.stored line] h.returned (by simp)
  | quietTask i _ htook htook' =>
      refine h.task [] rfl (by simp) (fun hs => ?_) h.slot fun heq => absurd heq (htook' _)
      exact (h.held hs).imp_right (window_set (hk ▸ htook _))
  | idle i _ hslot =>
      refine h.task [.returned i [], .polled i []] rfl (by simp [quitMsg_ne_nil.symm])
        (fun hs => ?_) (fun hs => absurd hs.symm quitMsg_ne_nil)
        fun heq => absurd heq Point.noConfusion
      -- the slot was empty, so somebody else has the quit message
      refine .inr (window_set (hk ▸ Point.noConfusion) ((h.held hs).resolve_left ?_))
      exact hslot ▸ quitMsg_ne_nil.symm
  | took i _ hslot =>
      refine h.task [.polled i p.shared.slot] rfl (by simp) (fun hs => ?_)
        (fun hs => absurd hs.symm quitMsg_ne_nil) fun heq => h.slot (Point.took.inj heq)
      rcases h.held hs with hq | hw
      · -- the poll takes the quit message
        exact .inr ⟨i, (Pool.pc_set_self _ _ _).trans (congrArg Point.took hq)⟩
      · exact .inr (window_set (hk ▸ Point.noConfusion) hw)
  | @left i msg _ hmsg =>
      refine h.task [.sent i msg] rfl (by simp) (fun hs => ?_) h.slot
        fun heq => absurd heq Point.noConfusion
      exact (h.held hs).imp_right (window_set (hk ▸ fun heq => hmsg (Point.took.inj heq)))
  | @sent i msg _ hmsg =>
      refine h.task [.returned i msg, .sent i msg] rfl (by simp [hmsg]) (fun hs => ?_) h.slot
        fun heq => absurd heq Point.noConfusion
      exact (h.held hs).imp_right (window_set (hk ▸ fun heq => hmsg (Point.took.inj heq)))
  | putBack i _ =>
      have hs : .stored quitMsg ∈ p.shared.log := h.took i hk
      have hio : (p.set (.task i) (.looping quitMsg,
          ⟨quitMsg, .returned i quitMsg :: .putBack i :: p.shared.log⟩)).pc .io = p.pc .io :=
        Pool.pc_set_ne _ _ (Thread.io_ne_task i)
      refine ⟨fun _ => hio.trans (h.ended hs), fun _ => .inl rfl,
        fun _ => List.mem_append_right [_, _] hs, fun _ _ => List.mem_append_right [_, _] hs, ?_⟩
      -- what is returned now was stored, what was returned before is in the old log
      intro l j l' heq
      cases l with
      | nil => exact (List.cons.inj heq).2 ▸ List.mem_cons_of_mem _ hs
      | cons a l =>
          exact returned_append [.putBack i] h.returned (by simp) l j l'
            (List.cons.inj heq).2

/-- **The law of the quit message holds in every state** of every interleaving. -/
theorem quitKept_of_interleaves {ok : Thread ι → Input → Point → Shared ι → Prop}
    (h : Pool.Interleaves step ok (start ι) p) : QuitKept p :=
  h.invariant quitKept_start fun q t e hq _ => hq.moved (moved_step t e (q.pc t) q.shared)

/-! ## What a poll returns -/

/-- What other threads do is no result of task `i`. -/
theorem results_eq_nil {t : Thread ι} (ht : t ≠ .task i) (h : ∀ a ∈ l, a.thread = t) :
    results i l = [] := by
  refine filterMap_thread (fun a ha => ?_) ht h
  cases a with
  | returned j msg => exact if_neg fun heq => ha (congrArg Thread.task heq)
  | stored line => rfl
  | polled j msg => rfl
  | sent j msg => rfl
  | putBack j => rfl

/-- Results of a concatenated schedule. -/
theorem results_append (i : ι) (l l' : List (Action ι)) :
    results i (l ++ l') = results i l ++ results i l' := List.filterMap_append

/-- Since `p`, task `i` has returned the quit message first, or it holds it. -/
def Answering (i : ι) (p q : Pool (Thread ι) (Shared ι) Point) : Prop :=
  ∃ l, q.shared.log = l ++ p.shared.log ∧ ((∃ rs, results i l = rs ++ [quitMsg]) ∨
    results i l = [] ∧ q.pc (.task i) = .took quitMsg)

/-- A task that is answering will return the quit message. -/
theorem Answering.returnsQuit (h : Answering i p q) : ReturnsQuit i p q := by
  obtain ⟨l, hl, h⟩ := h
  refine ⟨l, hl, h.imp_right fun ⟨hr, hpc⟩ => ⟨hr, fun e => ?_⟩⟩
  rw [hpc, step_took_quitMsg]
  exact ⟨_, rfl⟩

/-- An answer under way is kept by the steps of every thread. -/
theorem Answering.moved (h : Answering i p q) (t : Thread ι) (e : Input) :
    Answering i p (q.set t (step t e (q.pc t) q.shared)) := by
  obtain ⟨l, hl, h⟩ := h
  obtain ⟨new, hnew, hthread⟩ := (moved_step t e (q.pc t) q.shared).log
  have hlog : (step t e (q.pc t) q.shared).2.log = (new ++ l) ++ p.shared.log := by
    rw [hnew, hl, List.append_assoc]
  refine ⟨new ++ l, hlog, ?_⟩
  rw [results_append]
  rcases h with ⟨rs, hr⟩ | ⟨hr, hpc⟩
  · exact .inl ⟨results i new ++ rs, by rw [hr, List.append_assoc]⟩
  · by_cases ht : t = .task i
    · -- its next step is the one that returns the quit message
      subst ht
      rw [hpc, step_took_quitMsg] at hnew
      obtain rfl : [.returned i quitMsg, .putBack i] = new := List.append_cancel_right hnew
      exact .inl ⟨[], by rw [hr, List.append_nil]; simp [results]⟩
    · exact .inr ⟨by rw [results_eq_nil ht hthread, hr, List.append_nil],
        (Pool.pc_set_ne _ _ (Ne.symm ht)).trans hpc⟩

/-- **The quit message is never lost**: once `ioTask` has stored it, the slot holds it or some task
has just taken it; a poll with no other task in that window is the poll of a `chatOrQuit` that
returns it; and no `chatOrQuit` returns it before. A task that nobody interrupts from its poll on
goes through the call of `chatOrQuit` as the source has it. -/
theorem quitNeverLost_of_interleaves {ok : Thread ι → Input → Point → Shared ι → Prop}
    (h : Pool.Interleaves step ok (start ι) p) :
    (.stored quitMsg ∈ p.shared.log →
      p.shared.slot = quitMsg ∨ ∃ i, p.pc (.task i) = .took quitMsg) ∧
    (∀ i e q, .stored quitMsg ∈ p.shared.log → p.pc (.task i) = .polling →
      (∀ j, j ≠ i → p.pc (.task j) ≠ .took quitMsg) →
      Pool.Interleaves step ok (p.set (.task i) (step (.task i) e (p.pc (.task i)) p.shared)) q →
      ReturnsQuit i p q) ∧
    (∀ l i l', p.shared.log = l ++ .returned i quitMsg :: l' → .stored quitMsg ∈ l') ∧
    ∀ i send, p.pc (.task i) = .polling →
      ∃ es : List Input, ∃ q, q = Pool.steps step (es.map fun e => (.task i, e)) p ∧
        q.shared.slot = (chatOrQuit send p.shared.slot).2 ∧
        q.pc (.task i) = (chatOrQuit send p.shared.slot).1.elim .ended .looping := by
  have hp := quitKept_of_interleaves h
  refine ⟨hp.held, fun i e q hs hpc hno hq => ?_, hp.returned,
    fun i send hpc => steps_chatOrQuit i send hpc⟩
  -- the task itself is not in the window, so the quit message is in the slot
  have hslot : p.shared.slot = quitMsg := by
    refine (hp.held hs).resolve_right fun ⟨j, hj⟩ => ?_
    by_cases hji : j = i
    · exact absurd (hpc.symm.trans (hji ▸ hj)) Point.noConfusion
    · exact hno j hji hj
  have hpoll : step (.task i) e (p.pc (.task i)) p.shared =
      (.took quitMsg, ⟨[], .polled i quitMsg :: p.shared.log⟩) := by
    rw [hpc]
    simp [step, networkTask, poll, exchange, chat, hslot, quitMsg_ne_nil]
  rw [hpoll] at hq
  have hstart : Answering i p
      (p.set (.task i) (.took quitMsg, ⟨[], .polled i quitMsg :: p.shared.log⟩)) :=
    ⟨[.polled i quitMsg], rfl, .inr ⟨rfl, Pool.pc_set_self _ _ _⟩⟩
  exact (hq.invariant hstart fun q t e ha _ => ha.moved t e).returnsQuit

/-- The quit message is stored and one of two tasks takes it; the other one polls before it is put
back, and again afterwards. -/
def sampleQuit : List (Thread Bool × Input) :=
  [(.io, { line := quitMsg }), (.io, {}), (.task false, {}), (.task false, {}), (.task false, {}),
    (.task true, {}), (.task true, {}), (.task true, {}), (.task false, {}), (.task true, {})]

/-- The message is put back, and the other task comes to its second poll. -/
def samplePutBack : List (Thread Bool × Input) :=
  sampleQuit ++ [.task false, .task true, .task true].map fun t => (t, ({} : Input))

/-- The second poll and what follows it in `chatOrQuit`. -/
def sampleReturn : List (Thread Bool × Input) :=
  samplePutBack ++ [.task true, .task true].map fun t => (t, ({} : Input))

/-- The poll in between finds nothing; the next `chatOrQuit` of the same task, with nobody in the
window, returns the quit message, which was stored before. -/
theorem quitNeverLost_three_polls : ∃ p₁ p₂ q : Pool (Thread Bool) (Shared Bool) Point,
    Pool.Interleaves step (fun _ _ _ _ => True) (start Bool) p₁ ∧ p₁.shared.slot = [] ∧
      p₁.pc (.task true) = .looping [] ∧ (∃ i, p₁.pc (.task i) = .took quitMsg) ∧
    Pool.Interleaves step (fun _ _ _ _ => True) (start Bool) p₂ ∧
      p₂.pc (.task true) = .polling ∧ (chatOrQuit (fun _ => true) p₂.shared.slot).1 = some quitMsg ∧
      ReturnsQuit true p₂ q ∧ results true q.shared.log = [quitMsg, []] ∧
      ∃ l l', q.shared.log = l ++ .returned true quitMsg :: l' ∧ .stored quitMsg ∈ l' := by
  have hall : ∀ es, Pool.Interleaves step (fun _ _ _ _ => True) (start Bool)
      (Pool.steps step es (start Bool)) := fun es =>
    (Pool.Interleaves.refl (start Bool)).steps (.of_forall es _ fun _ _ _ _ => trivial)
  have hwindow : (Pool.steps step sampleQuit (start Bool)).shared.slot = [] := rfl
  -- the slot is empty, so by the claim some task holds the quit message
  have hheld := (quitNeverLost_of_interleaves (hall sampleQuit)).1 (by decide)
  have hreturns : ReturnsQuit true (Pool.steps step samplePutBack (start Bool))
      (Pool.steps step sampleReturn (start Bool)) := by
    refine (quitNeverLost_of_interleaves (hall samplePutBack)).2.1 true {} _ (by decide) rfl
      (by decide) ?_
    exact .step (Thread.task true) ({} : Input) (.refl _) trivial
  have hstored := (quitNeverLost_of_interleaves (hall sampleReturn)).2.2.1 [] true _ rfl
  refine ⟨_, _, _, hall sampleQuit, hwindow, rfl, hheld.resolve_left fun hslot => ?_,
    hall samplePutBack, rfl, rfl, hreturns, rfl, [], _, rfl, hstored⟩
  exact quitMsg_ne_nil (hslot.symm.trans hwindow)

end Step

end Chat

end SctpSandbox

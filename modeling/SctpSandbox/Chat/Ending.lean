import Mathlib.Data.Fintype.Card
import SctpSandbox.Chat.Quit
import SctpSandbox.Lib.LeadsTo

/-! # Every task ends after the quit message

`main` joins all tasks, so the program ends when the last of them has ended. Tasks take the quit
message out of the slot and put it back, and a task that polls in between misses it; but each task
does that to the others once at most, and then it leaves its loop. So a bounded number of rounds, in
each of which every network task moves, ends them all, whatever the order of their steps
(`ended_of_rounds`). Nobody ends before, unless its lifetime is over or it throws
(`stored_of_ended`). -/

namespace SctpSandbox

namespace Chat

variable {ι : Type} {i j : ι} {k : Point} {s : Shared ι} {p : Pool (Thread ι) (Shared ι) Point}
  {t : Thread ι} {n d : ℕ}

/-- A control point of `networkTask`. -/
def Point.OfNetworkTask (k : Point) : Prop := k ≠ .reading ∧ ∀ msg, k ≠ .storing msg

/-- The task has still to find the quit message. -/
def Point.Unaware (k : Point) : Prop := k ≠ .ended ∧ k ≠ .looping quitMsg

instance (k : Point) : Decidable k.Unaware := inferInstanceAs (Decidable (_ ∧ _))

/-- How many steps of a network task it takes to the condition of its loop with the quit message, if
the slot holds it. -/
def Point.distance : Point → ℕ
  | .took msg => if msg = quitMsg then 1 else 5
  | .polling => 2
  | .receiving => 3
  | .looping _ => 4
  | _ => 5

/-- No point is at distance zero: there is always a step left to take. -/
theorem Point.one_le_distance (k : Point) : 1 ≤ k.distance := by
  cases k with
  | took msg => by_cases h : msg = quitMsg <;> simp [distance, h]
  | _ => simp [distance]

/-- The longest way from a point to the next look at the queue has five steps. -/
theorem Point.distance_le (k : Point) : k.distance ≤ 5 := by
  cases k with
  | took msg => by_cases h : msg = quitMsg <;> simp [distance, h]
  | _ => simp [distance]

/-- A network task stays at the points of its own function. -/
theorem ofNetworkTask_step (i : ι) (e : Input) (s : Shared ι) (h : k.OfNetworkTask) :
    (networkTask i e k s).1.OfNetworkTask := by
  -- by the point, and at each point by what the source branches on
  cases k with
  | reading => exact absurd rfl h.1
  | storing msg => exact absurd rfl (h.2 msg)
  | polling =>
      by_cases hs : s.slot = [] <;>
        simp [networkTask, poll, exchange, chat, hs, Point.OfNetworkTask]
  | took msg =>
      by_cases hq : msg = quitMsg <;> cases hl : e.leaves <;>
        simp [networkTask, answer, hq, hl, Point.OfNetworkTask]
  | starting => cases hl : e.leaves <;> simp [networkTask, hl, Point.OfNetworkTask]
  | looping msg =>
      by_cases hq : e.leaves ∨ msg = quitMsg <;> simp [networkTask, hq, Point.OfNetworkTask]
  | receiving => cases hl : e.leaves <;> simp [networkTask, hl, Point.OfNetworkTask]
  | ended => exact h

/-- A task that knows of the quit message goes on knowing it. -/
theorem not_unaware_step (i : ι) (e : Input) (s : Shared ι) (h : ¬ k.Unaware) :
    ¬ (networkTask i e k s).1.Unaware := by
  have hk : k = .ended ∨ k = .looping quitMsg := by
    rw [Point.Unaware] at h
    tauto
  rcases hk with rfl | rfl
  · exact h
  · simp [networkTask, Point.Unaware]

/-- A step of a task brings it nearer, unless it knows then; a poll does if it finds the quit
message. -/
theorem networkTask_nearer (i : ι) (e : Input) (hk : k.OfNetworkTask)
    (hunaware : (networkTask i e k s).1.Unaware) (hslot : k = .polling → s.slot = quitMsg) :
    (networkTask i e k s).1.distance + 1 ≤ k.distance := by
  cases k with
  | reading => exact absurd rfl hk.1
  -- what the step leads to is the point before, so the distance drops by one
  | storing msg => exact absurd rfl (hk.2 msg)
  | polling => simp [networkTask, poll, exchange, chat, hslot rfl, quitMsg_ne_nil, Point.distance]
  -- an answer to the quit message is no step of an unaware task
  | took msg =>
      by_cases hq : msg = quitMsg
      · exact absurd (by rw [hq]; rfl) hunaware.2
      · cases hl : e.leaves with
        | true => simp [networkTask, answer, hq, hl, Point.Unaware] at hunaware
        | false => simp [networkTask, answer, hq, hl, Point.distance]
  | starting =>
      cases hl : e.leaves with
      | true => simp [networkTask, hl, Point.Unaware] at hunaware
      | false => simp [networkTask, hl, Point.distance]
  | looping msg =>
      by_cases hq : e.leaves ∨ msg = quitMsg
      · simp [networkTask, hq, Point.Unaware] at hunaware
      · simp [networkTask, hq, Point.distance]
  | receiving =>
      cases hl : e.leaves with
      | true => simp [networkTask, hl, Point.Unaware] at hunaware
      | false => simp [networkTask, hl, Point.distance]
  | ended => exact absurd rfl hunaware.1

/-- What makes a task that does not leave end, or be about to. -/
theorem knew_of_networkTask {e : Input} (hleaves : e.leaves = false)
    (h : (networkTask i e k s).1 = .ended ∨ (networkTask i e k s).1 = .looping quitMsg) :
    k = .ended ∨ k = .looping quitMsg ∨ k = .took quitMsg := by
  -- only an answer, or the loop's own test, leads to one of the two points
  cases k with
  | polling =>
      by_cases hs : s.slot = [] <;>
        simp [networkTask, poll, exchange, chat, hs, quitMsg_ne_nil.symm] at h
  | took msg =>
      by_cases hq : msg = quitMsg <;> simp [networkTask, answer, hq, hleaves] at h ⊢
  | looping msg =>
      by_cases hq : msg = quitMsg <;> simp [networkTask, hq, hleaves] at h ⊢
  | starting => simp [networkTask, hleaves, quitMsg_ne_nil.symm] at h
  | receiving => simp [networkTask, hleaves] at h
  | reading => simp [networkTask] at h
  | storing msg => simp [networkTask] at h
  | ended => exact .inl rfl

/-- The state of the program when the quit message was entered. -/
structure Closing (p : Pool (Thread ι) (Shared ι) Point) : Prop where
  kept : QuitKept p
  stored : .stored quitMsg ∈ p.shared.log
  network : ∀ i, (p.pc (.task i)).OfNetworkTask

variable [DecidableEq ι]

/-- The state after the end of the input is kept by a step of any thread. -/
theorem Closing.step (h : Closing p) (t : Thread ι) (e : Input) :
    Closing (p.set t (step t e (p.pc t) p.shared)) := by
  refine ⟨h.kept.moved (moved_step t e _ _), ?_, fun i => ?_⟩
  · obtain ⟨l, hlog, -⟩ := (moved_step t e (p.pc t) p.shared).log
    show .stored quitMsg ∈ (Chat.step t e (p.pc t) p.shared).2.log
    rw [hlog]
    exact List.mem_append_right l h.stored
  · -- the step's own thread moves, the others stand where they stood
    by_cases ht : Thread.task i = t
    · subst ht
      rw [Pool.pc_set_self]
      exact ofNetworkTask_step i e p.shared (h.network i)
    · rw [Pool.pc_set_ne _ _ ht]
      exact h.network i

/-- In every reachable pool each network task stands at a point of its own function. -/
theorem ofNetworkTask_of_interleaves {ok : Thread ι → Input → Point → Shared ι → Prop}
    (h : Pool.Interleaves step ok (start ι) p) (i : ι) : (p.pc (.task i)).OfNetworkTask := by
  refine h.invariant (I := fun p => (p.pc (.task i)).OfNetworkTask)
    ⟨Point.noConfusion, fun _ => Point.noConfusion⟩ fun q t e hq _ => ?_
  by_cases ht : Thread.task i = t
  · subst ht
    rw [Pool.pc_set_self]
    exact ofNetworkTask_step i e q.shared hq
  · rwa [Pool.pc_set_ne _ _ ht]

/-! ## Nobody ends before -/

/-- A task ends, or is about to, only after the quit message was entered. -/
structure EndsAfter (p : Pool (Thread ι) (Shared ι) Point) : Prop where
  kept : QuitKept p
  stored : ∀ i, p.pc (.task i) = .ended ∨ p.pc (.task i) = .looping quitMsg →
    .stored quitMsg ∈ p.shared.log

/-- An unfinished shutdown is kept by every step that does not leave a task by an exception. -/
theorem EndsAfter.step (h : EndsAfter p) (t : Thread ι) {e : Input} (hleaves : e.leaves = false) :
    EndsAfter (p.set t (step t e (p.pc t) p.shared)) := by
  refine ⟨h.kept.moved (moved_step t e _ _), fun i hi => ?_⟩
  obtain ⟨l, hlog, -⟩ := (moved_step t e (p.pc t) p.shared).log
  show .stored quitMsg ∈ (Chat.step t e (p.pc t) p.shared).2.log
  rw [hlog]
  refine List.mem_append_right l ?_
  -- for another thread's step nothing new is to be shown
  by_cases ht : Thread.task i = t
  · subst ht
    rw [Pool.pc_set_self] at hi
    rcases knew_of_networkTask hleaves hi with hk | hk | hk
    · exact h.stored i (.inl hk)
    · exact h.stored i (.inr hk)
    · exact h.kept.took i hk
  · rw [Pool.pc_set_ne _ _ ht] at hi
    exact h.stored i hi

/-- Nobody ends before the quit message is entered: where no lifetime is over and nothing throws, a
task that has ended has done so after `ioTask` stored it. -/
theorem stored_of_ended (h : Pool.Interleaves step (fun _ e _ _ => e.leaves = false) (start ι) p)
    (hended : p.pc (.task i) = .ended) : .stored quitMsg ∈ p.shared.log := by
  have hlaw : EndsAfter p := by
    refine h.invariant (I := EndsAfter) ⟨quitKept_start, fun i hi => ?_⟩
      fun q t e hq hleaves => hq.step t hleaves
    exact absurd hi (by simp [start])
  exact hlaw.stored i (.inl hended)

/-- A thread that has ended has no steps. -/
theorem stable_ended (t : Thread ι) :
    Pool.Stable step fun p : Pool (Thread ι) (Shared ι) Point => p.pc t = .ended := by
  intro p t' e h
  by_cases ht : t = t'
  · subst ht
    rw [Pool.pc_set_self, h]
    cases t <;> rfl
  · rwa [Pool.pc_set_ne _ _ ht]

/-! ## One task after the other -/

variable [Fintype ι]

/-- The tasks that have still to find the quit message. -/
def unaware (p : Pool (Thread ι) (Shared ι) Point) : Finset ι :=
  Finset.univ.filter fun i => (p.pc (.task i)).Unaware

omit [DecidableEq ι] in
/-- Membership in the set that the progress argument counts. -/
theorem mem_unaware : i ∈ unaware p ↔ (p.pc (.task i)).Unaware := by
  rw [unaware, Finset.mem_filter, and_iff_right (Finset.mem_univ i)]

/-- Nobody becomes unaware again: the set only shrinks. -/
theorem unaware_step (t : Thread ι) (e : Input) (p : Pool (Thread ι) (Shared ι) Point) :
    unaware (p.set t (step t e (p.pc t) p.shared)) ⊆ unaware p := by
  intro i hi
  rw [mem_unaware] at hi ⊢
  by_cases ht : Thread.task i = t
  · subst ht
    rw [Pool.pc_set_self] at hi
    by_contra h
    exact not_unaware_step i e p.shared h hi
  · rwa [Pool.pc_set_ne _ _ ht] at hi

/-- At most `n` tasks have still to find the quit message. -/
structure AtMost (n : ℕ) (p : Pool (Thread ι) (Shared ι) Point) : Prop where
  closing : Closing p
  card : (unaware p).card ≤ n

/-- One of at most `n + 1` such tasks is `d` steps away from it. -/
structure NearBy (n d : ℕ) (i : ι) (p : Pool (Thread ι) (Shared ι) Point) : Prop where
  closing : Closing p
  card : (unaware p).card ≤ n + 1
  unaware : (p.pc (.task i)).Unaware
  distance : (p.pc (.task i)).distance ≤ d

/-- The next task that finds the quit message is `d` steps away from it, or it was found. -/
def Approaches (n d : ℕ) (p : Pool (Thread ι) (Shared ι) Point) : Prop :=
  AtMost n p ∨ ∃ i, NearBy n d i p

/-- The bound on the unaware tasks is kept by every step. -/
theorem stable_atMost (n : ℕ) : Pool.Stable step (AtMost (ι := ι) n) := fun p t e h =>
  ⟨h.closing.step t e, (Finset.card_le_card (unaware_step t e p)).trans h.card⟩

/-- A step of another thread keeps the distance of the task that is watched. -/
theorem NearBy.other (h : NearBy n d i p) (ht : Thread.task i ≠ t) (e : Input) :
    NearBy n d i (p.set t (step t e (p.pc t) p.shared)) where
  closing := h.closing.step t e
  card := (Finset.card_le_card (unaware_step t e p)).trans h.card
  unaware := by
    rw [Pool.pc_set_ne _ _ ht]
    exact h.unaware
  distance := by
    rw [Pool.pc_set_ne _ _ ht]
    exact h.distance

/-- **A step of the nearest task.** It comes nearer or knows, or finds the slot empty because
another task has just taken the quit message, which is nearer still. -/
theorem NearBy.own (h : NearBy n (d + 1) i p) (e : Input) :
    Approaches n d (p.set (.task i) (step (.task i) e (p.pc (.task i)) p.shared)) := by
  have hclosing := h.closing.step (.task i) e
  have hsub := unaware_step (.task i) e p
  have hcard := (Finset.card_le_card hsub).trans h.card
  by_cases haware : (networkTask i e (p.pc (.task i)) p.shared).1.Unaware
  swap
  · -- one task fewer
    refine .inl ⟨hclosing, Nat.le_of_lt_succ (Nat.lt_of_lt_of_le (Finset.card_lt_card ?_) h.card)⟩
    refine (Finset.ssubset_iff_of_subset hsub).mpr ⟨i, mem_unaware.mpr h.unaware, fun hmem => ?_⟩
    rw [mem_unaware, Pool.pc_set_self] at hmem
    exact haware hmem
  -- a task that takes something else than the quit message leaves the watch to another one
  by_cases htaken : p.pc (.task i) = .polling ∧ p.shared.slot ≠ quitMsg
  · obtain ⟨hk, hslot⟩ := htaken
    -- by the invariant the quit message is then in somebody's hands
    obtain ⟨j, hj⟩ := (h.closing.kept.held h.closing.stored).resolve_left hslot
    have hji : Thread.task j ≠ .task i := by
      intro heq
      rw [heq, hk] at hj
      exact Point.noConfusion hj
    have hd : Point.polling.distance ≤ d + 1 := hk ▸ h.distance
    refine .inr ⟨j, hclosing, hcard, ?_, ?_⟩
    · rw [Pool.pc_set_ne _ _ hji, hj]
      exact ⟨Point.noConfusion, Point.noConfusion⟩
    · rw [Pool.pc_set_ne _ _ hji, hj]
      exact Nat.le_of_succ_le_succ hd
  · -- otherwise its own step brings the task nearer
    have hnear := networkTask_nearer i e (h.closing.network i) haware fun hk =>
      not_not.mp fun hslot => htaken ⟨hk, hslot⟩
    refine .inr ⟨i, hclosing, hcard, ?_, ?_⟩
    · rw [Pool.pc_set_self]
      exact haware
    · rw [Pool.pc_set_self]
      exact Nat.le_of_succ_le_succ (hnear.trans h.distance)

/-- Coming closer is kept by every step, so it may be added up over rounds. -/
theorem stable_approaches (n d : ℕ) : Pool.Stable step (Approaches (ι := ι) n d) := by
  rintro p t e (h | ⟨i, h⟩)
  · exact .inl (stable_atMost n p t e h)
  · by_cases ht : Thread.task i = t
    · subst ht
      exact NearBy.own ⟨h.closing, h.card, h.unaware, Nat.le_succ_of_le h.distance⟩ e
    · exact .inr ⟨i, h.other ht e⟩

/-- The threads that have to take part. -/
def IsTask : Thread ι → Prop
  | .io => False
  | .task _ => True

/-- A round brings the next task one step nearer. -/
theorem approaches_leadsTo (n d : ℕ) :
    Pool.LeadsTo step IsTask 1 (Approaches (ι := ι) n (d + 1)) (Approaches n d) := by
  refine .or_left (.of_imp (stable_approaches n d) fun p h => .inl h) (.exists_left fun i => ?_)
  refine .ensures (i := .task i) trivial (stable_approaches n d) (fun p t e h => ?_) fun p e h =>
    h.own e
  by_cases ht : Thread.task i = t
  · subst ht
    exact .inr (h.own e)
  · exact .inl (h.other ht e)

/-- Five rounds make one task more know of the quit message. -/
theorem atMost_leadsTo (n : ℕ) :
    Pool.LeadsTo step IsTask 5 (AtMost (ι := ι) (n + 1)) (AtMost n) := by
  refine (Pool.LeadsTo.descend (m := 1) (stable_approaches n 0) (approaches_leadsTo n) 5).imp
    (fun p h => ?_) fun p h => ?_
  · by_cases hn : (unaware p).card ≤ n
    · exact .inl ⟨h.closing, hn⟩
    · have hpos : 0 < (unaware p).card := Nat.lt_of_le_of_lt (Nat.zero_le n) (Nat.not_le.mp hn)
      obtain ⟨i, hi⟩ := Finset.card_pos.mp hpos
      exact .inr ⟨i, h.closing, h.card, mem_unaware.mp hi, Point.distance_le _⟩
  · refine h.resolve_right fun ⟨i, hi⟩ => ?_
    exact absurd (hi.distance.trans' (Point.one_le_distance _)) (by decide)

/-- When all tasks know of the quit message, one round ends them. -/
theorem ended_leadsTo : Pool.LeadsTo step IsTask 1 (AtMost (ι := ι) 0)
    fun p => ∀ t, p.pc t = .ended := by
  refine .forall_right fun t => ?_
  cases t with
  -- once the line is stored, the input thread has ended
  | io => exact .of_imp (stable_ended .io) fun p h => h.closing.kept.ended h.closing.stored
  | task i =>
      refine .ensures (i := .task i) trivial (stable_ended _)
        (fun p t e h => .inl (stable_atMost 0 p t e h)) fun p e h => ?_
      -- nobody is unaware any more, so the task has ended or is at its loop's test
      have hempty : i ∉ unaware p := by
        rw [Finset.card_eq_zero.mp (Nat.le_zero.mp h.card)]
        exact Finset.notMem_empty i
      have hk : p.pc (.task i) = .ended ∨ p.pc (.task i) = .looping quitMsg := by
        rw [mem_unaware, Point.Unaware] at hempty
        tauto
      rw [Pool.pc_set_self]
      rcases hk with hk | hk
      · rw [hk]
        rfl
      · rw [hk]
        exact if_pos (.inr rfl)

/-- **Every task ends after the quit message**: from any state that the threads reach, once `ioTask`
has stored the quit message, five rounds for each network task and one more end all of them, in any
order of their steps and whatever they meet. And no task ends before, unless its lifetime is over or
something throws. -/
theorem ended_of_rounds {ok : Thread ι → Input → Point → Shared ι → Prop}
    (hreach : Pool.Interleaves step ok (start ι) p) (hstored : .stored quitMsg ∈ p.shared.log)
    (rounds : List (List (Thread ι × Input)))
    (hrounds : ∀ r ∈ rounds, ∀ i, ∃ e, (.task i, e) ∈ r)
    (hlen : 5 * Fintype.card ι + 1 ≤ rounds.length) :
    (∀ t, (Pool.steps step rounds.flatten p).pc t = .ended) ∧
      ∀ (q : Pool (Thread ι) (Shared ι) Point) (i : ι),
        Pool.Interleaves step (fun _ e _ _ => e.leaves = false) (start ι) q →
          q.pc (.task i) = .ended → .stored quitMsg ∈ q.shared.log := by
  have hstart : AtMost (Fintype.card ι) p :=
    ⟨⟨quitKept_of_interleaves hreach, hstored, ofNetworkTask_of_interleaves hreach⟩,
      Finset.card_le_univ _⟩
  have hleads := (Pool.LeadsTo.descend (m := 5) (stable_atMost 0) (atMost_leadsTo (ι := ι))
    (Fintype.card ι)).trans ended_leadsTo
  refine ⟨hleads rounds (fun r hr t ht => ?_) hlen p hstart, fun q i hq => stored_of_ended hq⟩
  cases t with
  | io => exact absurd ht id
  | task i => exact hrounds r hr i

/-- Two tasks: eleven rounds end both. -/
theorem ended_two_tasks : ∃ p : Pool (Thread (Fin 2)) (Shared (Fin 2)) Point,
    .stored quitMsg ∈ p.shared.log ∧ p.pc (.task 0) = .polling ∧
      ∀ t, (Pool.steps step (List.replicate 11 [(.task 0, {}), (.task 1, {})]).flatten p).pc t =
        .ended := by
  -- the input ends while task 0 is about to look at the queue
  have hp : ∃ p : Pool (Thread (Fin 2)) (Shared (Fin 2)) Point, .stored quitMsg ∈ p.shared.log ∧
      p.pc (.task 0) = .polling ∧
      Pool.Interleaves step (fun _ _ _ _ => True) (start (Fin 2)) p := by
    refine ⟨_, ?_, ?_, (Pool.Interleaves.refl (start (Fin 2))).steps (.of_forall
      [(.task 0, {}), (.task 0, {}), (.task 0, {}), (.io, { line := quitMsg }), (.io, {})] _
      fun _ _ _ _ => trivial)⟩
    · decide
    · rfl
  obtain ⟨p, hstored, hpolling, hreach⟩ := hp
  refine ⟨p, hstored, hpolling, (ended_of_rounds hreach hstored _ (fun r hr i => ?_)
    (by rw [Fintype.card_fin, List.length_replicate])).1⟩
  obtain rfl := List.eq_of_mem_replicate hr
  match i with
  | 0 => exact ⟨{}, List.mem_cons_self⟩
  | 1 => exact ⟨{}, List.mem_cons_of_mem _ List.mem_cons_self⟩

end Chat

end SctpSandbox

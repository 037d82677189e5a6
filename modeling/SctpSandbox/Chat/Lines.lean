import SctpSandbox.Chat.Quit

/-! # What becomes of a typed line

`ioTask` stores a line whether or not the line before was taken, so a line is lost when the next one
comes before any task has polled (`not_linesTakenOnce`). That is the only way to lose one: the first
poll after a line was stored takes it, every later one up to the next line finds the slot empty, and
what a task takes it hands to its socket once (`lineTaken_of_interleaves`). -/

namespace SctpSandbox

namespace Chat

variable {ι : Type} {i : ι} {log : List (Action ι)} {p : Pool (Thread ι) (Shared ι) Point}
  {line msg : ChatMessage} {polls : List (ι × ChatMessage)}
  {book newer older : List (ChatMessage × List (ι × ChatMessage))}

/-- Note a poll under the newest line. -/
def notePoll (x : ι × ChatMessage) : List (ChatMessage × List (ι × ChatMessage)) →
    List (ChatMessage × List (ι × ChatMessage))
  | [] => []
  | (line, polls) :: older => (line, x :: polls) :: older

/-- The lines stored, each with the polls before the next one: who polled and what it got. The
newest is first, of the lines as of the polls of one line. -/
def ledger : List (Action ι) → List (ChatMessage × List (ι × ChatMessage))
  | [] => []
  | .stored line :: log => (line, []) :: ledger log
  | .polled i msg :: log => notePoll (i, msg) (ledger log)
  | _ :: log => ledger log

/-- The messages that polls took. -/
def taken (polls : List (ι × ChatMessage)) : List ChatMessage :=
  (polls.map Prod.snd).filter (· ≠ [])

/-- The first poll got the line and the later ones nothing: the empty message that a poll leaves in
the slot has not overwritten the line unread. -/
def TakenFirst (line : ChatMessage) (polls : List (ι × ChatMessage)) : Prop :=
  ∃ idle i, polls = idle ++ [(i, line)] ∧ ∀ x ∈ idle, x.2 = []

/-- Every line is taken by exactly one poll before the next one is stored; only the newest may still
be in the slot. -/
def LinesTakenOnce (p : Pool (Thread ι) (Shared ι) Point) : Prop :=
  ∀ newer line polls older, ledger p.shared.log = newer ++ (line, polls) :: older →
    taken polls = [line] ∨ newer = [] ∧ taken polls = [] ∧ p.shared.slot = line

/-- The lines, other than the quit message, that task `i` took from the slot. -/
def linesOf [DecidableEq ι] (i : ι) (log : List (Action ι)) : List ChatMessage :=
  log.filterMap fun
    | .polled j msg => if j = i ∧ msg ≠ [] ∧ msg ≠ quitMsg then some msg else none
    | _ => none

/-- The lines that task `i` handed to its socket. -/
def sentBy [DecidableEq ι] (i : ι) (log : List (Action ι)) : List ChatMessage :=
  log.filterMap fun
    | .sent j msg => if j = i then some msg else none
    | _ => none

/-- The line a task has taken and not yet handed on. -/
def pending : Point → List ChatMessage
  | .took msg => if msg = quitMsg then [] else [msg]
  | _ => []

/-! ## The invariant -/

/-- What the ledger says of the slot. -/
structure Booked (p : Pool (Thread ι) (Shared ι) Point) : Prop where
  /-- The newest line is in the slot until the first poll, which leaves the slot empty. -/
  newest : ∀ line polls older, ledger p.shared.log = (line, polls) :: older → line ≠ quitMsg →
    polls = [] ∧ p.shared.slot = line ∨ polls ≠ [] ∧ p.shared.slot = []
  /-- A line that was polled for was taken by the first poll, and by no other. -/
  lines : ∀ line polls, (line, polls) ∈ ledger p.shared.log → line ≠ quitMsg →
    TakenFirst line polls ∨ polls = []
  /-- The quit message is the last line. -/
  quit : .stored quitMsg ∈ p.shared.log → ∃ polls older,
    ledger p.shared.log = (quitMsg, polls) :: older

/-- Nothing is booked before the first line. -/
theorem booked_start : Booked (start ι) where
  newest := fun _ _ _ h => absurd h.symm (List.cons_ne_nil _ _)
  lines := fun _ _ h => absurd h List.not_mem_nil
  quit := fun h => absurd h List.not_mem_nil

/-- A poll that finds the slot empty comes after the one that took the line. -/
theorem TakenFirst.cons_nil (h : TakenFirst line polls) (i : ι) :
    TakenFirst line ((i, []) :: polls) := by
  obtain ⟨idle, j, rfl, hidle⟩ := h
  exact ⟨(i, []) :: idle, j, rfl, List.forall_mem_cons.mpr ⟨rfl, hidle⟩⟩

/-- Then the line is all that the polls took. -/
theorem TakenFirst.taken_eq (h : TakenFirst line polls) (hne : line ≠ []) :
    taken polls = [line] := by
  obtain ⟨idle, i, rfl, hidle⟩ := h
  have hnone : taken idle = [] := by
    rw [taken, List.filter_eq_nil_iff]
    rintro msg hmsg
    obtain ⟨x, hx, rfl⟩ := List.mem_map.mp hmsg
    simp [hidle x hx]
  rw [taken, List.map_append, List.filter_append, ← taken, hnone]
  simp [hne]

/-- A log with the same ledger, and the slot where the newest line is not the quit message. -/
theorem Booked.of_same {q : Pool (Thread ι) (Shared ι) Point} (h : Booked p)
    (hledger : ledger q.shared.log = ledger p.shared.log)
    (hslot : q.shared.slot = p.shared.slot ∨ .stored quitMsg ∈ p.shared.log)
    (hquit : .stored quitMsg ∈ q.shared.log → .stored quitMsg ∈ p.shared.log) : Booked q where
  newest := by
    intro line polls older hl hline
    rcases hslot with hs | hs
    · rw [hs]
      exact h.newest line polls older (hledger ▸ hl) hline
    · obtain ⟨polls', older', hq⟩ := h.quit hs
      have heq := hq.symm.trans (hledger.symm.trans hl)
      exact absurd (Prod.mk.inj (List.cons.inj heq).1).1.symm hline
  lines := fun line polls hl => h.lines line polls (hledger ▸ hl)
  quit := fun hs => hledger ▸ h.quit (hquit hs)

/-- What `h.newest` and `h.lines` become when a poll is noted. -/
theorem Booked.polled {q : Pool (Thread ι) (Shared ι) Point} (h : Booked p)
    (hledger : ledger q.shared.log = notePoll (i, p.shared.slot) (ledger p.shared.log))
    (hslot : q.shared.slot = [])
    (hquit : .stored quitMsg ∈ q.shared.log → .stored quitMsg ∈ p.shared.log) : Booked q := by
  cases hb : ledger p.shared.log with
  | nil =>
      rw [hb, notePoll] at hledger
      refine ⟨fun line polls older hl => ?_, fun line polls hl => ?_, fun hs => ?_⟩
      · exact absurd (hledger.symm.trans hl).symm (List.cons_ne_nil _ _)
      · exact absurd (hledger ▸ hl) List.not_mem_nil
      · obtain ⟨polls, older, hq⟩ := h.quit (hquit hs)
        exact absurd (hb.symm.trans hq).symm (List.cons_ne_nil _ _)
  | cons x older =>
      obtain ⟨line, polls⟩ := x
      rw [hb, notePoll] at hledger
      have hnewest := h.newest line polls older hb
      have hlines := h.lines line polls (hb ▸ List.mem_cons_self)
      refine ⟨fun line' polls' older' hl _ => ?_, fun line' polls' hl hnq => ?_, fun hs => ?_⟩
      · obtain ⟨rfl, rfl⟩ := Prod.mk.inj (List.cons.inj (hledger.symm.trans hl)).1
        exact .inr ⟨List.cons_ne_nil _ _, hslot⟩
      · rw [hledger] at hl
        rcases List.mem_cons.mp hl with heq | hold
        · obtain ⟨rfl, rfl⟩ := Prod.mk.inj heq
          -- the first poll takes the line, any other one finds nothing
          rcases hnewest hnq with ⟨rfl, hs⟩ | ⟨hpolls, hs⟩
          · rw [hs]
            exact .inl ⟨[], i, rfl, fun _ hmem => absurd hmem List.not_mem_nil⟩
          · rw [hs]
            exact .inl (((hlines hnq).resolve_right hpolls).cons_nil i)
        · exact h.lines line' polls' (hb ▸ List.mem_cons_of_mem _ hold) hnq
      · obtain ⟨polls', older', hq⟩ := h.quit (hquit hs)
        obtain ⟨rfl, rfl⟩ := Prod.mk.inj (List.cons.inj (hb.symm.trans hq)).1
        exact ⟨_, older, hledger⟩

section Step

variable [DecidableEq ι]

/-- The books are kept by every step, by cases on the moves. -/
theorem Booked.moved (h : Booked p) (hq : QuitKept p) {t : Thread ι} {k' : Point} {s' : Shared ι}
    (hm : Moved t (p.pc t) p.shared k' s') : Booked (p.set t (k', s')) := by
  generalize hk : p.pc t = k at hm
  cases hm with
  | quietIo _ _ => exact h.of_same rfl (.inl rfl) id
  | quietTask i _ _ _ => exact h.of_same rfl (.inl rfl) id
  | left i _ _ => exact h.of_same rfl (.inl rfl) fun hs => by simpa using hs
  | sent i _ _ => exact h.of_same rfl (.inl rfl) fun hs => by simpa using hs
  | putBack i _ =>
      -- what is put back is the quit message, which was stored
      exact h.of_same rfl (.inr (hq.took i hk)) fun hs => by simpa using hs
  | idle i _ hslot => exact h.polled (i := i) (hslot ▸ rfl) rfl fun hs => by simpa using hs
  | took i _ hslot => exact h.polled (i := i) rfl rfl fun hs => by simpa using hs
  | stored line _ =>
      refine ⟨fun line' polls older hl _ => ?_, fun line' polls hl hnq => ?_, fun hs => ?_⟩
      · obtain ⟨rfl, rfl⟩ := Prod.mk.inj (List.cons.inj hl).1
        exact .inl ⟨rfl, rfl⟩
      · rcases List.mem_cons.mp hl with heq | hold
        · exact .inr (Prod.mk.inj heq).2
        · exact h.lines line' polls hold hnq
      · -- `ioTask` has not ended, so this is the first quit message
        rcases List.mem_cons.mp hs with heq | hold
        · obtain rfl := Action.stored.inj heq
          exact ⟨[], _, rfl⟩
        · exact absurd (hk.symm.trans (hq.ended hold)) Point.noConfusion

/-- What other threads do is no line taken or sent by task `i`. -/
theorem lines_eq_nil {t : Thread ι} {l : List (Action ι)} (ht : t ≠ .task i)
    (h : ∀ a ∈ l, a.thread = t) : linesOf i l = [] ∧ sentBy i l = [] := by
  refine ⟨filterMap_thread (fun a ha => ?_) ht h, filterMap_thread (fun a ha => ?_) ht h⟩
  · cases a with
    | polled j msg => exact if_neg fun heq => ha (congrArg Thread.task heq.1)
    | stored line => rfl
    | sent j msg => rfl
    | putBack j => rfl
    | returned j msg => rfl
  · cases a with
    | sent j msg => exact if_neg fun heq => ha (congrArg Thread.task heq)
    | stored line => rfl
    | polled j msg => rfl
    | putBack j => rfl
    | returned j msg => rfl

/-- Only a thread that has taken a message has one pending. -/
theorem pending_eq_nil {k : Point} (h : ∀ msg, k ≠ .took msg) : pending k = [] := by
  cases k with
  | took msg => exact absurd rfl (h msg)
  | _ => rfl

/-- What a task took from the slot it has handed to its socket, up to the line it is about to
hand on. -/
def Handed (i : ι) (p : Pool (Thread ι) (Shared ι) Point) : Prop :=
  linesOf i p.shared.log = pending (p.pc (.task i)) ++ sentBy i p.shared.log

/-- What was handed to a task stays handed, by cases on the moves. -/
theorem Handed.moved (h : Handed i p) {t : Thread ι} {k' : Point} {s' : Shared ι}
    (hm : Moved t (p.pc t) p.shared k' s') : Handed i (p.set t (k', s')) := by
  by_cases ht : t = .task i
  · subst ht
    rw [Handed, Pool.pc_set_self, Pool.shared_set]
    rw [Handed] at h
    generalize hk : p.pc (.task i) = k at hm h
    cases hm with
    | quietTask _ _ htook htook' =>
        rw [pending_eq_nil htook] at h
        rw [pending_eq_nil htook']
        exact h
    | idle _ _ _ => simpa [linesOf, sentBy, pending] using h
    | took _ _ hslot =>
        -- a quit message is put back, and is no line taken
        by_cases hq : p.shared.slot = quitMsg
        · simpa [linesOf, sentBy, pending, hq] using h
        · simpa [linesOf, sentBy, pending, hslot, hq] using h
    | left _ _ hmsg => simpa [linesOf, sentBy, pending, hmsg] using h
    | sent _ _ hmsg => simpa [linesOf, sentBy, pending, hmsg] using h
    | putBack _ _ => simpa [linesOf, sentBy, pending] using h
  · -- another thread neither moves the task nor acts for it
    obtain ⟨l, hl, hthread⟩ := hm.log
    obtain ⟨h₁, h₂⟩ := lines_eq_nil ht hthread
    rw [Handed, Pool.pc_set_ne _ _ (Ne.symm ht), Pool.shared_set, hl, linesOf, sentBy,
      List.filterMap_append, List.filterMap_append]
    rw [linesOf] at h₁
    rw [sentBy] at h₂
    rw [h₁, h₂]
    exact h

/-- **Every line is taken once, unless the next one comes before any poll.** If there was a poll
between a line and the next one, the first of them took the line and the others nothing, so no poll
has overwritten it unread; if there was none, the line is in the slot until it is polled or the next
one is stored. And what a task takes it hands to its socket, once. -/
theorem lineTaken_of_interleaves {ok : Thread ι → Input → Point → Shared ι → Prop}
    (h : Pool.Interleaves step ok (start ι) p) :
    (∀ newer line polls older, ledger p.shared.log = newer ++ (line, polls) :: older →
      line ≠ [] → line ≠ quitMsg →
      taken polls = [line] ∧ TakenFirst line polls ∨
        polls = [] ∧ (newer = [] → p.shared.slot = line)) ∧
    ∀ i, linesOf i p.shared.log = pending (p.pc (.task i)) ++ sentBy i p.shared.log := by
  -- the ledger's invariant goes with the one on the quit message and on what was handed out
  have hinv : QuitKept p ∧ Booked p ∧ ∀ i, Handed i p := by
    refine h.invariant (I := fun q => QuitKept q ∧ Booked q ∧ ∀ i, Handed i q)
      ⟨quitKept_start, booked_start, fun i => rfl⟩ fun q t e ⟨hq, hb, hh⟩ _ => ?_
    have hm := moved_step t e (q.pc t) q.shared
    exact ⟨hq.moved hm, hb.moved hq hm, fun i => (hh i).moved hm⟩
  refine ⟨fun newer line polls older hl hne hnq => ?_, hinv.2.2⟩
  have hmem : (line, polls) ∈ ledger p.shared.log :=
    hl ▸ List.mem_append_right newer List.mem_cons_self
  rcases hinv.2.1.lines line polls hmem hnq with hfirst | hpolls
  · exact .inl ⟨hfirst.taken_eq hne, hfirst⟩
  · refine .inr ⟨hpolls, ?_⟩
    rintro rfl
    -- no poll yet: the newest line is still in the slot, or a poll would be booked
    rcases hinv.2.1.newest line polls older hl hnq with ⟨-, hs⟩ | ⟨hno, -⟩
    · exact hs
    · exact absurd hpolls hno

/-- Two tasks poll after a line was stored, and one of them again after the next line: the one that
comes first takes the line and hands it to its socket. -/
theorem lineTaken_two_tasks : ∃ p : Pool (Thread ℕ) (Shared ℕ) Point,
    Pool.Interleaves step (fun _ e _ _ => e.line ≠ [] ∧ e.line ≠ quitMsg) (start ℕ) p ∧
    ledger p.shared.log = [(ascii "b", [(0, ascii "b")]), (ascii "a", [(0, []), (1, ascii "a")])] ∧
    TakenFirst (ascii "b") [(0, ascii "b")] ∧ TakenFirst (ascii "a") [(0, []), (1, ascii "a")] ∧
    sentBy 0 p.shared.log = [ascii "b"] ∧ sentBy 1 p.shared.log = [ascii "a"] := by
  have hp : ∃ p : Pool (Thread ℕ) (Shared ℕ) Point,
      ledger p.shared.log =
        [(ascii "b", [(0, ascii "b")]), (ascii "a", [(0, []), (1, ascii "a")])] ∧
      linesOf 0 p.shared.log = [ascii "b"] ∧ p.pc (.task 0) = .looping (ascii "b") ∧
      linesOf 1 p.shared.log = [ascii "a"] ∧ p.pc (.task 1) = .looping (ascii "a") ∧
      Pool.Interleaves step (fun _ e _ _ => e.line ≠ [] ∧ e.line ≠ quitMsg) (start ℕ) p := by
    -- `a` is polled by task 1, after task 0 has looked too early; `b` by task 0
    refine ⟨_, ?_, ?_, ?_, ?_, ?_, (Pool.Interleaves.refl (start ℕ)).steps (.of_forall
      ([.io, .io, .task 1, .task 1, .task 1, .task 1, .task 1, .task 0, .task 0, .task 0,
        .task 0].map (fun t => (t, { line := ascii "a" })) ++
        [.io, .io, .task 0, .task 0, .task 0, .task 0].map fun t => (t, { line := ascii "b" }))
      _ fun e he _ _ => ?_)⟩
    · rfl
    · rfl
    · rfl
    · rfl
    · rfl
    · revert e
      decide
  obtain ⟨p, hledger, hlines₀, hpc₀, hlines₁, hpc₁, h⟩ := hp
  obtain ⟨htaken, hhanded⟩ := lineTaken_of_interleaves h
  refine ⟨p, h, hledger, ?_, ?_, ?_, ?_⟩
  · exact ((htaken [] _ _ _ hledger (by decide) (by decide)).resolve_right
      fun hno => absurd hno.1 (List.cons_ne_nil _ _)).2
  · exact ((htaken [_] _ _ [] hledger (by decide) (by decide)).resolve_right
      fun hno => absurd hno.1 (List.cons_ne_nil _ _)).2
  · rw [← hlines₀, hhanded 0, hpc₀]
    rfl
  · rw [← hlines₁, hhanded 1, hpc₁]
    rfl

/-- **A line can be lost**: two lines are stored before any task polls. -/
theorem not_linesTakenOnce : ¬ ∀ p : Pool (Thread ℕ) (Shared ℕ) Point,
    Pool.Interleaves step (fun _ e _ _ => e.line ≠ [] ∧ e.line ≠ quitMsg) (start ℕ) p →
      LinesTakenOnce p := by
  intro h
  have hp : ∃ p : Pool (Thread ℕ) (Shared ℕ) Point,
      ledger p.shared.log = [(ascii "b", [])] ++ (ascii "a", []) :: [] ∧
      Pool.Interleaves step (fun _ e _ _ => e.line ≠ [] ∧ e.line ≠ quitMsg) (start ℕ) p := by
    -- both lines are typed before anybody looks
    refine ⟨_, ?_, (Pool.Interleaves.refl (start ℕ)).steps (.of_forall
      [(.io, { line := ascii "a" }), (.io, { line := ascii "a" }), (.io, { line := ascii "b" }),
        (.io, { line := ascii "b" })] _ fun e he _ _ => ?_)⟩
    · rfl
    · revert e
      decide
  obtain ⟨p, hledger, hrun⟩ := hp
  rcases h p hrun _ _ _ _ hledger with htaken | ⟨hno, -⟩
  · exact absurd htaken (by decide)
  · exact absurd hno (List.cons_ne_nil _ _)

end Step

end Chat

end SctpSandbox

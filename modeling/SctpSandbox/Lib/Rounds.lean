import Mathlib.Data.List.Infix
import Mathlib.Data.List.Flatten
import Mathlib.Data.Option.Basic

/-! # Histories that go in rounds

A round is a fixed sequence of events, determined by its first one. A history goes in rounds when
it is one round after the other, the last of them possibly unfinished. `Rounds.after` reads a
history from the left and tells what the round in progress still needs, or that the history is out
of step; `inRounds_iff` says that it decides the question. -/

namespace SctpSandbox

namespace Rounds

variable {α : Type*} (start : α → Option (List α))

/-- A round: an event that begins one, and what it needs then. -/
def IsRound (r : List α) : Prop := ∃ a rest, r = a :: rest ∧ start a = some rest

/-- The history is a sequence of rounds, up to where the last one has got. -/
def InRounds (events : List α) : Prop :=
  ∃ rounds : List (List α), (∀ r ∈ rounds, IsRound start r) ∧ events <+: rounds.flatten

/-- What the round in progress needs after one more event; `none` is out of step. -/
def next [DecidableEq α] : Option (List α) → α → Option (List α)
  | none, _ => none
  | some [], a => start a
  | some (b :: rest), a => if a = b then some rest else none

/-- What the round in progress needs after some more events. -/
def after [DecidableEq α] (need : Option (List α)) (events : List α) : Option (List α) :=
  events.foldl (next start) need

variable {start} {need : List α} {a b : α} {events rest : List α}

/-- Some events continue a round that needs `need`, and then go in rounds. -/
def Continues (start : α → Option (List α)) (need events : List α) : Prop :=
  ∃ rounds : List (List α), (∀ r ∈ rounds, IsRound start r) ∧ events <+: need ++ rounds.flatten

/-- Between rounds the next event must start one. -/
theorem continues_cons_nil : Continues start [] (a :: events) ↔
    ∃ rest, start a = some rest ∧ Continues start rest events := by
  constructor
  · rintro ⟨rounds, hrounds, hpre⟩
    -- the first round is not empty, so it begins with the first event
    cases rounds with
    | nil => simp at hpre
    | cons r rounds =>
        obtain ⟨b, rest, rfl, hstart⟩ := hrounds r List.mem_cons_self
        rw [List.nil_append, List.flatten_cons, List.cons_append] at hpre
        obtain ⟨rfl, hpre'⟩ := List.cons_prefix_cons.mp hpre
        exact ⟨rest, hstart, rounds, fun r hr => hrounds r (List.mem_cons_of_mem _ hr), hpre'⟩
  · rintro ⟨rest, hstart, rounds, hrounds, hpre⟩
    refine ⟨(a :: rest) :: rounds, fun r hr => ?_, ?_⟩
    · rcases List.mem_cons.mp hr with rfl | hr
      · exact ⟨a, rest, rfl, hstart⟩
      · exact hrounds r hr
    · rw [List.nil_append, List.flatten_cons, List.cons_append]
      exact List.cons_prefix_cons.mpr ⟨rfl, hpre⟩

/-- Within a round the next event must be the one that is due. -/
theorem continues_cons_cons : Continues start (b :: rest) (a :: events) ↔
    a = b ∧ Continues start rest events := by
  constructor
  · rintro ⟨rounds, hrounds, hpre⟩
    rw [List.cons_append] at hpre
    obtain ⟨hab, hpre'⟩ := List.cons_prefix_cons.mp hpre
    exact ⟨hab, rounds, hrounds, hpre'⟩
  · rintro ⟨rfl, rounds, hrounds, hpre⟩
    exact ⟨rounds, hrounds, by simpa using hpre⟩

variable [DecidableEq α]

/-- Once stuck, stuck for good. -/
@[simp] theorem next_none : next start none a = none := rfl

/-- Between rounds an event starts a round. -/
@[simp] theorem next_nil : next start (some []) a = start a := rfl

/-- Within a round the event that is due is consumed. -/
theorem next_cons_self : next start (some (a :: rest)) a = some rest := if_pos rfl

/-- Within a round any event but the one that is due gets it stuck. -/
theorem next_cons_ne (h : a ≠ b) : next start (some (b :: rest)) a = none := if_neg h

/-- The automaton on events by their first one. -/
theorem after_cons (need : Option (List α)) (a : α) (events : List α) :
    after start need (a :: events) = after start (next start need a) events := rfl

/-- The automaton on events by their last one, as a log grows. -/
theorem after_concat (need : Option (List α)) (events : List α) (a : α) :
    after start need (events ++ [a]) = next start (after start need events) a :=
  List.foldl_concat _ _ _ _

/-- A step out of the rounds is not made good. -/
theorem after_none (events : List α) : after start none events = none := by
  induction events with
  | nil => rfl
  | cons a events ih => exact ih

/-- **The automaton decides**: some events continue a round exactly when they are never out of
step. -/
theorem continues_iff : Continues start need events ↔ (after start (some need) events).isSome := by
  -- by induction on the events: the first one is what the round needs, or begins the next
  induction events generalizing need with
  | nil => exact ⟨fun _ => rfl, fun _ => ⟨[], by simp, List.nil_prefix⟩⟩
  | cons a events ih =>
      rw [after_cons]
      cases need with
      | nil =>
          rw [continues_cons_nil, next_nil]
          cases hstart : start a with
          | none => simp [after_none]
          | some rest => simp [ih]
      | cons b rest =>
          rw [continues_cons_cons]
          by_cases hab : a = b
          · subst hab
            rw [next_cons_self]
            simp [ih]
          · rw [next_cons_ne hab]
            simp [hab, after_none]

/-- Events fall into rounds exactly when the automaton has not got stuck on them. -/
theorem inRounds_iff : InRounds start events ↔ (after start (some []) events).isSome := by
  rw [← continues_iff]
  exact Iff.rfl

end Rounds

end SctpSandbox

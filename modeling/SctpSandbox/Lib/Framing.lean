import Mathlib.Data.List.Infix
import Mathlib.Data.List.Flatten

/-! # Messages over a byte stream

A stream carries the bytes of the messages that are written to it and not where they end. What is
read from it is cut anywhere, so the pieces are the messages only if each read is as long as the
message that is due (`Carries.prefix_concat_iff`). -/

namespace SctpSandbox

namespace Framing

variable {α : Type*} {sent received : List (List α)} {pending data rest : List α}

/-- The pieces `received` have been read of the messages `sent`, and `pending` is still to be
read. -/
def Carries (sent received : List (List α)) (pending : List α) : Prop :=
  received.flatten ++ pending = sent.flatten

/-- Nothing sent, nothing received, nothing pending. -/
theorem carries_nil : Carries ([] : List (List α)) [] [] := rfl

/-- A message is written behind what is pending. -/
theorem Carries.write (h : Carries sent received pending) (msg : List α) :
    Carries (sent ++ [msg]) received (pending ++ msg) := by
  rw [Carries, ← List.append_assoc, h, List.flatten_append, List.flatten_singleton]

/-- The front of what is pending is read. -/
theorem Carries.read (h : Carries sent received (data ++ rest)) :
    Carries sent (received ++ [data]) rest := by
  rw [Carries, List.flatten_append, List.flatten_singleton, List.append_assoc]
  exact h

/-- The message that is due. -/
def next (sent received : List (List α)) : List α := (sent.drop received.length).headD []

/-- The next message is the first one not received yet. -/
@[simp] theorem next_append_cons (received unread : List (List α)) (msg : List α) :
    next (received ++ msg :: unread) received = msg := by
  rw [next, List.drop_left]
  rfl

/-- A reader that got whole messages so far got the next one last. -/
theorem next_of_prefix (h : received ++ [data] <+: sent) : next sent received = data := by
  obtain ⟨unread, rfl⟩ := h
  rw [List.append_assoc]
  exact next_append_cons received unread data

/-- While the pieces are messages, the bytes that are pending are those of the others. -/
theorem Carries.unread (h : Carries sent received pending) (hpre : received <+: sent) :
    ∃ unread, sent = received ++ unread ∧ pending = unread.flatten := by
  obtain ⟨unread, rfl⟩ := hpre
  refine ⟨unread, rfl, ?_⟩
  rw [Carries, List.flatten_append] at h
  exact List.append_cancel_left h

/-- **One piece, one message**: what is read next is the message that is due exactly if it is as
long. -/
theorem Carries.prefix_concat_iff (h : Carries sent received (data ++ rest))
    (hpre : received <+: sent) (hdata : data ≠ []) :
    received ++ [data] <+: sent ↔ data.length = (next sent received).length := by
  obtain ⟨unread, rfl, hunread⟩ := h.unread hpre
  rw [List.prefix_append_right_inj]
  cases unread with
  | nil =>
      have hnil : data = [] := (List.append_eq_nil_iff.mp hunread).1
      exact absurd hnil hdata
  | cons msg unread =>
      -- the first piece of the stream is the next message exactly when it is as long
      rw [next_append_cons, List.cons_prefix_cons]
      constructor
      · rintro ⟨rfl, -⟩
        rfl
      · intro hlength
        rw [List.flatten_cons] at hunread
        exact ⟨(List.append_inj hunread hlength).1, List.nil_prefix⟩

/-- At least the message that is due is pending, if anything is. -/
theorem Carries.length_next_le (h : Carries sent received pending) (hpre : received <+: sent)
    (hpending : pending ≠ []) : (next sent received).length ≤ pending.length := by
  obtain ⟨unread, rfl, rfl⟩ := h.unread hpre
  cases unread with
  | nil => exact absurd rfl hpending
  | cons msg unread =>
      rw [next_append_cons, List.flatten_cons, List.length_append]
      exact Nat.le_add_right _ _

/-- More messages do not change which one is due, if something is pending. -/
theorem Carries.next_eq {more : List (List α)} (h : Carries sent received pending)
    (hpre : received <+: sent) (hpending : pending ≠ []) (hmore : sent <+: more) :
    next more received = next sent received := by
  obtain ⟨unread, rfl, rfl⟩ := h.unread hpre
  obtain ⟨later, rfl⟩ := hmore
  cases unread with
  | nil => exact absurd rfl hpending
  | cons msg unread =>
      rw [List.append_assoc, List.cons_append, next_append_cons, next_append_cons]

/-- When nothing is pending, no message is left out. -/
theorem Carries.eq_of_nil (h : Carries sent received []) (hpre : received <+: sent)
    (hsent : [] ∉ sent) : received = sent := by
  obtain ⟨unread, rfl, hunread⟩ := h.unread hpre
  cases unread with
  | nil => exact (List.append_nil received).symm
  | cons msg unread =>
      have hmsg : msg = [] := (List.append_eq_nil_iff.mp hunread.symm).1
      exact absurd (hmsg ▸ List.mem_append_right received List.mem_cons_self) hsent

/-- Taking the fronts of messages takes no more bytes than they have. -/
theorem length_flatten_take_le (msgs : List (List α)) (n : ℕ) :
    (msgs.map fun msg => msg.take n).flatten.length ≤ msgs.flatten.length := by
  induction msgs with
  | nil => exact le_rfl
  | cons msg msgs ih =>
      simp only [List.map_cons, List.flatten_cons, List.length_append, List.length_take]
      omega

/-- When every message is cut, bytes are missing. -/
theorem length_flatten_take_lt {msgs : List (List α)} {n : ℕ} (hne : msgs ≠ [])
    (hlt : ∀ msg ∈ msgs, n < msg.length) :
    (msgs.map fun msg => msg.take n).flatten.length < msgs.flatten.length := by
  cases msgs with
  | nil => exact absurd rfl hne
  | cons msg msgs =>
      have hmsg := hlt msg List.mem_cons_self
      have hrest := length_flatten_take_le msgs n
      simp only [List.map_cons, List.flatten_cons, List.length_append, List.length_take]
      omega

/-! ## Streams that keep messages apart -/

/-- The pieces that have been read are messages, and what is pending are the others. -/
def Intact (sent received : List (List α)) (pending : List α) : Prop :=
  ∃ unread, sent = received ++ unread ∧ pending = unread.flatten

/-- Nothing sent is intact. -/
theorem intact_nil : Intact ([] : List (List α)) [] [] := ⟨[], rfl, rfl⟩

/-- What is intact was received as a prefix of what was sent. -/
theorem Intact.isPrefix (h : Intact sent received pending) : received <+: sent := by
  obtain ⟨unread, rfl, -⟩ := h
  exact List.prefix_append _ _

/-- An intact stream carries its bytes. -/
theorem Intact.carries (h : Intact sent received pending) : Carries sent received pending := by
  obtain ⟨unread, rfl, rfl⟩ := h
  rw [Carries, List.flatten_append]

/-- No byte is lost or made up. -/
theorem Intact.length_eq (h : Intact sent received pending) :
    received.flatten.length + pending.length = sent.flatten.length := by
  rw [← List.length_append, h.carries]

/-- Writing whole messages keeps the stream intact. -/
theorem Intact.write (h : Intact sent received pending) (msgs : List (List α)) :
    Intact (sent ++ msgs) received (pending ++ msgs.flatten) := by
  obtain ⟨unread, rfl, rfl⟩ := h
  exact ⟨unread ++ msgs, List.append_assoc _ _ _, List.flatten_append.symm⟩

/-- A read keeps the messages apart exactly if it is as long as the message that is due. -/
theorem Intact.read_iff (h : Intact sent received (data ++ rest)) (hdata : data ≠ []) :
    Intact sent (received ++ [data]) rest ↔ data.length = (next sent received).length := by
  rw [← h.carries.prefix_concat_iff h.isPrefix hdata]
  exact ⟨Intact.isPrefix, fun hpre => h.carries.read.unread hpre⟩

/-- When nothing is pending, nothing is left out. -/
theorem Intact.eq_of_nil (h : Intact sent received []) (hsent : [] ∉ sent) : received = sent :=
  h.carries.eq_of_nil h.isPrefix hsent

/-- What was merged or split before a read still is after it. -/
theorem Intact.of_read (h : Intact sent (received ++ [data]) rest) :
    Intact sent received (data ++ rest) := by
  obtain ⟨unread, hsent, rfl⟩ := h
  exact ⟨data :: unread, by rw [hsent, List.append_assoc]; rfl, by rw [List.flatten_cons]⟩

/-- What was merged, split or lost before a write still is after it. -/
theorem Intact.of_write {msgs : List (List α)}
    (h : Intact (sent ++ msgs) received (pending ++ data))
    (hwithin : received.flatten.length + pending.length ≤ sent.flatten.length)
    (hdata : data.length ≤ msgs.flatten.length) (hreceived : [] ∉ received) :
    Intact sent received pending := by
  have hlength := h.length_eq
  rw [List.length_append, List.flatten_append, List.length_append] at hlength
  obtain ⟨unread, hunread, hpending⟩ := h
  rcases List.append_eq_append_iff.mp hunread with ⟨extra, hext, hmsgs⟩ | ⟨extra, hext, hmsgs⟩
  · -- more has been received than was sent: nothing, then
    subst hext
    rw [List.flatten_append, List.length_append] at hwithin hlength
    have hextra : extra = [] := by
      cases extra with
      | nil => rfl
      | cons piece extra =>
          have hpiece : piece ≠ [] := by
            rintro rfl
            exact hreceived (List.mem_append_right _ List.mem_cons_self)
          have hpos := List.length_pos_iff.mpr hpiece
          rw [List.flatten_cons, List.length_append] at hwithin
          omega
    subst hextra
    have hnil : pending.length = 0 := by
      simp only [List.flatten_nil, List.length_nil] at hwithin
      omega
    exact ⟨[], by simp, List.length_eq_zero_iff.mp hnil⟩
  · subst hext
    -- what is due ends with the new messages, and so do the bytes underway
    refine ⟨extra, rfl, ?_⟩
    subst hmsgs
    have hlen : pending.length = extra.flatten.length := by
      simp only [List.flatten_append, List.length_append] at hlength hdata hwithin
      omega
    rw [List.flatten_append] at hpending
    exact (List.append_inj hpending hlen).1

end Framing

end SctpSandbox

import Mathlib.Logic.Function.Iterate
import SctpSandbox.Chat.Tasks

/-! # The end of the standard input

`ioTask` reads with `getline` and looks at nothing but the message. A `getline` that finds the end
of the input leaves an empty message behind, or the last line if that had no newline; any later one
leaves the message as it is. So the loop ends exactly when some line is the quit message
(`endsOnInput_iff`); otherwise it stores the last message over and over. -/

namespace SctpSandbox

/-- `'\n'`. -/
def newline : Byte := 10

/-- `std::cin`. -/
structure Stdin where
  /-- What has not been extracted yet. -/
  rest : List Byte
  eofbit : Bool := false
  failbit : Bool := false
  deriving DecidableEq

namespace Stdin

/-- `cin.good()`. -/
def good (cin : Stdin) : Bool := !cin.eofbit && !cin.failbit

/-- `getline(cin, msg)`. The sentry of a stream that is not good sets `failbit`, and `msg` is not
touched. Otherwise `msg` is erased and filled up to the newline, which is extracted as well; without
one `eofbit` is set, and `failbit` if nothing was extracted. -/
def getline (msg : ChatMessage) (cin : Stdin) : ChatMessage × Stdin :=
  if cin.good then
    let line := cin.rest.takeWhile (· ≠ newline)
    match cin.rest.drop line.length with
    | _ :: rest => (line, { cin with rest := rest })
    | [] => (line, { rest := [], eofbit := true, failbit := line = [] })
  else (msg, { cin with failbit := true })

end Stdin

/-- What `ioTask` works on. -/
structure IoTask where
  msg : ChatMessage := []
  cin : Stdin
  deriving DecidableEq

/-- `chatFromStdin(msg)`, the body of the loop; it ends with `chat(msg)`. -/
def chatFromStdin (s : IoTask) : IoTask :=
  let (msg, cin) := s.cin.getline s.msg
  ⟨msg, cin⟩

namespace IoTask

/-- `ioTask` before its loop, with some input. -/
def start (input : List Byte) : IoTask := { cin := { rest := input } }

/-- The loop ends: after some iterations its condition fails. -/
def Terminates (s : IoTask) : Prop := ∃ n, (chatFromStdin^[n] s).msg = quitMsg

/-- Iteration `n`, counted from 0, takes place. -/
def Reaches (s : IoTask) (n : ℕ) : Prop := ∀ k ≤ n, (chatFromStdin^[k] s).msg ≠ quitMsg

/-- Iteration `n` takes place, finds the end of the input and calls `chat` with the message. -/
def StoresAtEof (s : IoTask) (n : ℕ) (msg : ChatMessage) : Prop :=
  s.Reaches n ∧ (chatFromStdin^[n + 1] s).cin.eofbit = true ∧ (chatFromStdin^[n + 1] s).msg = msg

/-- After the end of the input the empty message is stored over and over. -/
def KeepsClearing (s : IoTask) : Prop := ∀ n, ∃ m ≥ n, s.StoresAtEof m []

/-- `ioTask` ends, and does not go on to clear the slot. -/
structure EndsOnInput (input : List Byte) : Prop where
  terminates : (start input).Terminates
  notClearing : ¬ (start input).KeepsClearing

end IoTask

/-- The lines of an input. What is behind the last newline counts as a line, which may be empty. -/
def inputLines (input : List Byte) : List ChatMessage := input.splitOn newline

namespace Stdin

variable {cin : Stdin} {msg line : ChatMessage} {rest : List Byte}

/-- The bytes before the first newline are the line. -/
theorem takeWhile_line (h : newline ∉ line) :
    (line ++ newline :: rest).takeWhile (· ≠ newline) = line := by
  rw [List.takeWhile_append_of_pos]
  · simp
  · intro b hb
    exact decide_eq_true fun hnew => h (hnew ▸ hb)

/-- Without a newline the whole rest is the line. -/
theorem takeWhile_last (h : newline ∉ line) : line.takeWhile (· ≠ newline) = line := by
  rw [List.takeWhile_eq_self_iff]
  intro b hb
  exact decide_eq_true fun hnew => h (hnew ▸ hb)

/-- A line with its newline. -/
theorem getline_line (hgood : cin.good = true) (h : newline ∉ line)
    (hrest : cin.rest = line ++ newline :: rest) :
    cin.getline msg = (line, { cin with rest := rest }) := by
  rw [getline, if_pos hgood, hrest, takeWhile_line h]
  simp only [List.drop_left]

/-- The last line, without a newline. -/
theorem getline_last (hgood : cin.good = true) (h : newline ∉ cin.rest) :
    cin.getline msg =
      (cin.rest, { rest := [], eofbit := true, failbit := cin.rest = [] }) := by
  rw [getline, if_pos hgood, takeWhile_last h]
  simp only [List.drop_length]

/-- A stream that is not good. -/
theorem getline_not_good (hgood : cin.good = false) :
    cin.getline msg = (msg, { cin with failbit := true }) := by
  rw [getline, if_neg (by simp [hgood])]

end Stdin

namespace IoTask

variable {s : IoTask} {line : ChatMessage} {rest input : List Byte} {n : ℕ}

/-! ## One iteration -/

/-- Reading a line that is terminated leaves the stream good and the rest behind the newline. -/
theorem chatFromStdin_line (hgood : s.cin.good = true) (h : newline ∉ line)
    (hrest : s.cin.rest = line ++ newline :: rest) :
    chatFromStdin s = ⟨line, { s.cin with rest := rest }⟩ := by
  rw [chatFromStdin, Stdin.getline_line hgood h hrest]

/-- Reading the last line sets the end of file, and the failure only when nothing was read. -/
theorem chatFromStdin_last (hgood : s.cin.good = true) (h : newline ∉ s.cin.rest) :
    chatFromStdin s =
      ⟨s.cin.rest, { rest := [], eofbit := true, failbit := s.cin.rest = [] }⟩ := by
  rw [chatFromStdin, Stdin.getline_last hgood h]

/-- A stream that is not good stays so, and the message stays with it. -/
theorem iterate_not_good (hgood : s.cin.good = false) (n : ℕ) :
    (chatFromStdin^[n] s).msg = s.msg ∧ (chatFromStdin^[n] s).cin.good = false ∧
      (chatFromStdin^[n] s).cin.eofbit = s.cin.eofbit := by
  induction n with
  | zero => exact ⟨rfl, hgood, rfl⟩
  | succ n ih =>
      obtain ⟨hmsg, hgood', heof⟩ := ih
      have hstep : chatFromStdin^[n + 1] s = ⟨(chatFromStdin^[n] s).msg,
          { (chatFromStdin^[n] s).cin with failbit := true }⟩ := by
        rw [Function.iterate_succ_apply', chatFromStdin, Stdin.getline_not_good hgood']
      rw [hstep]
      exact ⟨hmsg, by simp [Stdin.good], heof⟩

/-- The iteration is what the thread of `ioTask` does between two looks at its condition, whatever
the other threads have done to the slot. -/
theorem ioTask_chatFromStdin {ι : Type} (s : IoTask) (leaves : Bool) (shared : Chat.Shared ι) :
    Chat.ioTask ⟨(chatFromStdin s).msg, leaves⟩ .reading shared =
        (.storing (chatFromStdin s).msg, shared) ∧
      ∀ e (shared' : Chat.Shared ι), Chat.ioTask e (.storing (chatFromStdin s).msg) shared' =
        (if (chatFromStdin s).msg = quitMsg then .ended else .reading,
          ⟨(chatFromStdin s).msg, .stored (chatFromStdin s).msg :: shared'.log⟩) :=
  ⟨rfl, fun _ _ => rfl⟩

/-! ## The loop -/

/-- The loop ends now or after one more line. -/
theorem terminates_succ_iff (s : IoTask) :
    s.Terminates ↔ s.msg = quitMsg ∨ (chatFromStdin s).Terminates := by
  constructor
  · rintro ⟨n, hn⟩
    cases n with
    | zero => exact .inl hn
    | succ n => exact .inr ⟨n, hn⟩
  · rintro (hmsg | ⟨n, hn⟩)
    · exact ⟨0, hmsg⟩
    · exact ⟨n + 1, hn⟩

/-- An iteration is reached when this one does not end and the rest of them is. -/
theorem reaches_succ_iff (s : IoTask) (n : ℕ) :
    s.Reaches (n + 1) ↔ s.msg ≠ quitMsg ∧ (chatFromStdin s).Reaches n := by
  constructor
  · intro h
    refine ⟨h 0 (Nat.zero_le _), fun k hk => ?_⟩
    exact h (k + 1) (Nat.succ_le_succ hk)
  · rintro ⟨hmsg, h⟩ k hk
    cases k with
    | zero => exact hmsg
    | succ k => exact h k (Nat.le_of_succ_le_succ hk)

/-- A loop that does not end at once clears for ever if it does so from its next iteration on. -/
theorem keepsClearing_succ_iff (hmsg : s.msg ≠ quitMsg) :
    s.KeepsClearing ↔ (chatFromStdin s).KeepsClearing := by
  -- reading one line is one iteration of the loop
  have hstores : ∀ n, s.StoresAtEof (n + 1) [] ↔ (chatFromStdin s).StoresAtEof n [] := by
    intro n
    rw [StoresAtEof, reaches_succ_iff, and_iff_right hmsg]
    rfl
  constructor
  · intro h n
    obtain ⟨m, hm, hstore⟩ := h (n + 1)
    obtain ⟨m, rfl⟩ := Nat.exists_eq_add_of_le' (Nat.le_trans (Nat.le_add_left 1 n) hm)
    exact ⟨m, Nat.le_of_succ_le_succ hm, (hstores m).mp hstore⟩
  · intro h n
    obtain ⟨m, hm, hstore⟩ := h n
    exact ⟨m + 1, Nat.le_succ_of_le hm, (hstores m).mpr hstore⟩

/-- A loop that has its quit message does not go on. -/
theorem not_keepsClearing (hmsg : s.msg = quitMsg) : ¬ s.KeepsClearing := by
  intro h
  obtain ⟨m, -, hreaches, -⟩ := h 0
  exact hreaches 0 (Nat.zero_le m) hmsg

/-! ## Behind the end of the input -/

/-- On a stream that is not good no line is read any more: only the message at hand counts. -/
theorem terminates_not_good (hgood : s.cin.good = false) :
    s.Terminates ↔ s.msg = quitMsg := by
  constructor
  · rintro ⟨n, hn⟩
    exact (iterate_not_good hgood n).1.symm.trans hn
  · exact fun hmsg => ⟨0, hmsg⟩

/-- At the end of the input the message that is there is stored over and over. -/
theorem keepsClearing_eof (hgood : s.cin.good = false) (heof : s.cin.eofbit = true) :
    s.KeepsClearing ↔ s.msg = [] := by
  constructor
  · intro h
    obtain ⟨m, -, -, -, hmsg⟩ := h 0
    exact (iterate_not_good hgood (m + 1)).1.symm.trans hmsg
  · intro hmsg n
    obtain ⟨hmsg', -, heof'⟩ := iterate_not_good hgood (n + 1)
    refine ⟨n, le_refl n, fun k _ => ?_, heof'.trans heof, hmsg'.trans hmsg⟩
    rw [(iterate_not_good hgood k).1, hmsg]
    exact Chat.quitMsg_ne_nil.symm

/-! ## All inputs -/

/-- What the loop still does is decided by the lines not read yet. -/
theorem loop_spec (hgood : s.cin.good = true) (hmsg : s.msg ≠ quitMsg) :
    (s.Terminates ↔ quitMsg ∈ inputLines s.cin.rest) ∧
      (s.KeepsClearing ↔ quitMsg ∉ inputLines s.cin.rest ∧
        (inputLines s.cin.rest).getLast? = some []) := by
  -- by induction on what is left of the input, which every line makes shorter
  induction hlen : s.cin.rest.length using Nat.strong_induction_on generalizing s with
  | _ len ih =>
    rw [terminates_succ_iff, or_iff_right hmsg, keepsClearing_succ_iff hmsg]
    by_cases hmem : newline ∈ s.cin.rest
    · obtain ⟨line, rest, hrest, hline⟩ := List.eq_append_cons_of_mem hmem
      have hlines : inputLines s.cin.rest = line :: inputLines rest := by
        rw [inputLines, hrest]
        exact List.splitOn_append_cons_self_of_not_mem hline rest
      rw [chatFromStdin_line hgood hline hrest, hlines, List.mem_cons]
      by_cases hquit : line = quitMsg
      · have hclears : ¬ KeepsClearing ⟨line, { s.cin with rest := rest }⟩ :=
          not_keepsClearing hquit
        exact ⟨iff_of_true ⟨0, hquit⟩ (.inl hquit.symm),
          iff_of_false hclears fun h => h.1 (.inl hquit.symm)⟩
      · have hshort : rest.length < len := by
          rw [← hlen, hrest, List.length_append, List.length_cons]
          omega
        obtain ⟨hends, hclears⟩ :=
          ih rest.length hshort (s := ⟨line, { s.cin with rest := rest }⟩) hgood hquit rfl
        obtain ⟨last, more, hmore⟩ := List.exists_cons_of_ne_nil (List.splitOn_ne_nil newline rest)
        have hlast : (line :: inputLines rest).getLast? = (inputLines rest).getLast? := by
          rw [inputLines, hmore, List.getLast?_cons_cons]
        rw [or_iff_right (Ne.symm hquit), hlast]
        exact ⟨hends, hclears⟩
    · have hlines : inputLines s.cin.rest = [s.cin.rest] := List.splitOn_eq_singleton hmem
      rw [chatFromStdin_last hgood hmem, hlines, terminates_not_good rfl,
        keepsClearing_eof rfl rfl, List.mem_singleton, List.getLast?_singleton, Option.some_inj]
      refine ⟨eq_comm, (and_iff_right_of_imp ?_).symm⟩
      intro hnil hquit
      exact Chat.quitMsg_ne_nil (hquit.trans hnil)

/-- An input without a quit line that ends with a newline, or is empty, makes `ioTask` clear the
slot for ever; one that ends otherwise makes it store the last line for ever. -/
theorem keepsClearing_iff (input : List Byte) : (start input).KeepsClearing ↔
    quitMsg ∉ inputLines input ∧ (inputLines input).getLast? = some [] :=
  (loop_spec rfl Chat.quitMsg_ne_nil.symm).2

/-- **`ioTask` ends exactly on the inputs with a quit line.** And its iterations are what the thread
of `ioTask` does between two looks at its condition, whatever the other threads do in between. -/
theorem endsOnInput_iff (input : List Byte) :
    (EndsOnInput input ↔ quitMsg ∈ inputLines input) ∧
      ∀ (ι : Type) (s : IoTask) (leaves : Bool) (shared : Chat.Shared ι),
        Chat.ioTask ⟨(chatFromStdin s).msg, leaves⟩ .reading shared =
            (.storing (chatFromStdin s).msg, shared) ∧
          ∀ e (shared' : Chat.Shared ι), Chat.ioTask e (.storing (chatFromStdin s).msg) shared' =
            (if (chatFromStdin s).msg = quitMsg then .ended else .reading,
              ⟨(chatFromStdin s).msg, .stored (chatFromStdin s).msg :: shared'.log⟩) := by
  obtain ⟨hends, hclears⟩ := loop_spec (s := start input) rfl Chat.quitMsg_ne_nil.symm
  refine ⟨?_, fun ι => ioTask_chatFromStdin⟩
  constructor
  · exact fun h => hends.mp h.terminates
  · exact fun h => ⟨hends.mpr h, fun hclear => (hclears.mp hclear).1 h⟩

/-- **The end of the input is not seen**: after `hello` and a newline the slot is cleared for ever,
and a `hello` without a newline is stored for ever. -/
theorem not_endsOnInput :
    ¬ EndsOnInput (ascii "hello" ++ [newline]) ∧
      (start (ascii "hello" ++ [newline])).KeepsClearing ∧
      ¬ EndsOnInput (ascii "hello") ∧ ¬ (start (ascii "hello")).KeepsClearing := by
  have hnewline : (start (ascii "hello" ++ [newline])).KeepsClearing :=
    (keepsClearing_iff _).mpr (by decide)
  have hlast : ¬ (start (ascii "hello")).Terminates := fun hends =>
    absurd ((loop_spec rfl Chat.quitMsg_ne_nil.symm).1.mp hends) (by decide)
  refine ⟨fun h => h.notClearing hnewline, hnewline, fun h => hlast h.terminates, fun hclears => ?_⟩
  exact absurd ((keepsClearing_iff _).mp hclears).2 (by decide)

end IoTask

end SctpSandbox

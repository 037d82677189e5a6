import Mathlib.Data.List.TakeWhile

/-! # Bytes, strings and chat messages

`std::string` is a sequence of bytes that may hold NULs; a C string is read up to the first NUL. -/

namespace SctpSandbox

/-- `char`, as an unsigned byte. -/
abbrev Byte := UInt8

/-- `using ChatMessage = std::string`. -/
abbrev ChatMessage := List Byte

/-- The bytes of an ASCII string literal. -/
def ascii (s : String) : List Byte := s.toList.map fun c => c.toNat.toUInt8

/-- What `c_str()` shows of a string: its bytes up to the first NUL. -/
def cStr (bytes : List Byte) : List Byte := bytes.takeWhile (· != 0)

/-- A string without NULs is its own C string. -/
theorem cStr_eq_self {bytes : List Byte} (h : 0 ∉ bytes) : cStr bytes = bytes := by
  rw [cStr, List.takeWhile_eq_self_iff]
  intro b hb
  have hne : b ≠ 0 := fun hb0 => h (hb0 ▸ hb)
  simpa using hne

/-- A NUL written behind some bytes ends their C string, whatever follows. -/
theorem cStr_append_nul (bytes rest : List Byte) : cStr (bytes ++ 0 :: rest) = cStr bytes := by
  induction bytes with
  | nil => rfl
  | cons b bytes ih =>
      simp only [cStr, List.cons_append, List.takeWhile_cons] at ih ⊢
      rw [ih]

/-- `quit_msg`. -/
def quitMsg : ChatMessage := ascii "q"

end SctpSandbox

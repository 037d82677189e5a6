import Mathlib.Data.Fintype.Basic
import Mathlib.Data.List.DropRight
import Mathlib.Data.List.TakeWhile
import Mathlib.Data.Nat.Notation

/-! # Decimal numerals and `std::stoi`

`stoi` reads a number from the front of a string: it skips white space, takes a sign if there is
one and as many digits as there are, and ignores the rest. `Numeral` is the texts that are numbers
from end to end, beside the numbers they stand for; `stoi_text` says that `stoi` reads them. -/

namespace SctpSandbox

/-- The exceptions of `stoi`. -/
inductive StoiError where
  | invalidArgument
  | outOfRange
  deriving DecidableEq

/-- `isspace`, in the C locale. -/
def isSpace (c : UInt8) : Bool := c = 32 ∨ 9 ≤ c ∧ c ≤ 13

/-- `isdigit`. -/
def isDigit (c : UInt8) : Bool := 48 ≤ c ∧ c ≤ 57

/-- The number a string of digits stands for. -/
def digitsValue (cs : List UInt8) : ℕ := cs.foldl (fun v c => 10 * v + (c.toNat - 48)) 0

/-- The range of `int`. -/
def InIntRange (n : Int) : Prop := -2147483648 ≤ n ∧ n < 2147483648

instance (n : Int) : Decidable (InIntRange n) := inferInstanceAs (Decidable (_ ∧ _))

/-- The number behind the white space: its sign and its digits. -/
def signed (t : List UInt8) : Bool × List UInt8 :=
  if t.head? = some 45 then (true, t.tail.takeWhile isDigit)
  else if t.head? = some 43 then (false, t.tail.takeWhile isDigit)
  else (false, t.takeWhile isDigit)

/-- `std::stoi(t)`. -/
def stoi (t : List UInt8) : Except StoiError Int :=
  let (negative, digits) := signed (t.dropWhile isSpace)
  if digits = [] then .error .invalidArgument
  else
    let n : Int := if negative then -digitsValue digits else digitsValue digits
    if InIntRange n then .ok n else .error .outOfRange

/-- The sign in front of a numeral. -/
inductive Sign where
  | none
  | plus
  | minus
  deriving DecidableEq

/-- A sign and at least one digit. -/
structure Numeral where
  sign : Sign
  digits : List (Fin 10)
  nonempty : digits ≠ []

namespace Numeral

/-- How a sign is written. -/
def signText : Sign → List UInt8
  | .none => []
  | .plus => [43]
  | .minus => [45]

/-- How a digit is written. -/
def digitText (d : Fin 10) : UInt8 := UInt8.ofNat (48 + d)

/-- How the numeral is written. -/
def text (n : Numeral) : List UInt8 := signText n.sign ++ n.digits.map digitText

/-- The number without its sign. -/
def magnitude (n : Numeral) : ℕ := n.digits.foldl (fun v (d : Fin 10) => 10 * v + d.val) 0

/-- The number a numeral stands for. -/
def value (n : Numeral) : Int := if n.sign = .minus then -n.magnitude else n.magnitude

/-- A digit's text is a digit, neither space nor sign, and its value is the digit's. -/
theorem digitText_spec : ∀ d, isDigit (digitText d) = true ∧ isSpace (digitText d) = false ∧
    digitText d ≠ 43 ∧ digitText d ≠ 45 ∧ (digitText d).toNat - 48 = d := by
  decide

/-- The digits in front of a text of digits are all of it. -/
theorem takeWhile_digits (ds : List (Fin 10)) :
    (ds.map digitText).takeWhile isDigit = ds.map digitText := by
  rw [List.takeWhile_eq_self_iff]
  intro c hc
  obtain ⟨d, -, rfl⟩ := List.mem_map.mp hc
  exact (digitText_spec d).1

/-- The value read off a numeral's digits is its magnitude. -/
theorem digitsValue_text (n : Numeral) : digitsValue (n.digits.map digitText) = n.magnitude := by
  have hdigit : ∀ d, (digitText d).toNat - 48 = d := fun d => (digitText_spec d).2.2.2.2
  simp only [digitsValue, List.foldl_map, hdigit, magnitude]

/-- A numeral is read from its first byte to its last. -/
theorem signed_text (n : Numeral) : signed (n.text.dropWhile isSpace) =
    (decide (n.sign = .minus), n.digits.map digitText) := by
  obtain ⟨sign, digits, hne⟩ := n
  cases sign with
  | plus => simp [text, signText, signed, takeWhile_digits, isSpace]
  | minus => simp [text, signText, signed, takeWhile_digits, isSpace]
  | none =>
      -- no digit is white space or a sign
      cases digits with
      | nil => exact absurd rfl hne
      | cons d ds =>
          obtain ⟨hdigit, hspace, h43, h45, -⟩ := digitText_spec d
          have htake := takeWhile_digits (d :: ds)
          rw [List.map_cons] at htake
          simp [text, signText, signed, hspace, h43, h45, htake]

/-- **`stoi` reads numerals** in the range of `int`. -/
theorem stoi_text (n : Numeral) (h : InIntRange n.value) : stoi n.text = .ok n.value := by
  have hne : n.digits.map digitText ≠ [] := fun h => n.nonempty (List.map_eq_nil_iff.mp h)
  have hvalue : (if decide (n.sign = .minus) = true then
      -(digitsValue (n.digits.map digitText) : Int) else digitsValue (n.digits.map digitText)) =
        n.value := by
    simp only [decide_eq_true_eq, digitsValue_text, value]
  rw [stoi, signed_text]
  simp only [if_neg hne, hvalue, if_pos h]

/-! ## Writing a number -/

/-- The last digit of a number. -/
def lastDigit (n : ℕ) : Fin 10 := ⟨n % 10, Nat.mod_lt n (Nat.succ_pos 9)⟩

/-- The digits of a number, the last one last; `fuel` is more than there are. -/
def digitsAux : ℕ → ℕ → List (Fin 10)
  | 0, _ => []
  | fuel + 1, n => if n < 10 then [lastDigit n] else digitsAux fuel (n / 10) ++ [lastDigit n]

/-- There is at least one digit. -/
theorem digitsAux_ne_nil (fuel n : ℕ) : digitsAux (fuel + 1) n ≠ [] := by
  rw [digitsAux]
  split
  · exact List.cons_ne_nil _ _
  · exact List.append_ne_nil_of_right_ne_nil _ (List.cons_ne_nil _ _)

/-- The digits of a number have its value, with fuel above it. -/
theorem foldl_digitsAux {fuel n : ℕ} (h : n < fuel) :
    (digitsAux fuel n).foldl (fun v (d : Fin 10) => 10 * v + d.val) 0 = n := by
  induction fuel generalizing n with
  | zero => exact absurd h (Nat.not_lt_zero n)
  | succ fuel ih =>
      rw [digitsAux]
      split
      case isTrue hn => exact (Nat.zero_add _).trans (Nat.mod_eq_of_lt hn)
      case isFalse hn =>
          have hdiv : n / 10 < fuel := by omega
          rw [List.foldl_append, ih hdiv]
          exact Nat.div_add_mod n 10

/-- A number as it is usually written. -/
def ofInt (n : Int) : Numeral where
  sign := if n < 0 then .minus else .none
  digits := digitsAux (n.natAbs + 1) n.natAbs
  nonempty := digitsAux_ne_nil n.natAbs n.natAbs

/-- Round trip of a number through its numeral. -/
theorem value_ofInt (n : Int) : (ofInt n).value = n := by
  have hmagnitude : (ofInt n).magnitude = n.natAbs := foldl_digitsAux (Nat.lt_succ_self _)
  rw [value, hmagnitude]
  by_cases hn : n < 0
  · rw [ofInt, if_pos hn, if_pos rfl]
    omega
  · rw [ofInt, if_neg hn, if_neg Sign.noConfusion]
    omega

/-- **What is written is read back.** -/
theorem stoi_ofInt {n : Int} (h : InIntRange n) : stoi (ofInt n).text = .ok n := by
  have hvalue := value_ofInt n
  have hread := stoi_text (ofInt n) (hvalue.symm ▸ h)
  rwa [hvalue] at hread

/-- A numeral's text is not empty. -/
theorem text_ne_nil (n : Numeral) : n.text ≠ [] :=
  List.append_ne_nil_of_right_ne_nil _ fun h => n.nonempty (List.map_eq_nil_iff.mp h)

end Numeral

/-- What is accepted is in the range of `int`. -/
theorem inIntRange_of_stoi {t : List UInt8} {n : Int} (h : stoi t = .ok n) : InIntRange n := by
  rw [stoi] at h
  generalize signed (t.dropWhile isSpace) = number at h
  obtain ⟨negative, digits⟩ := number
  simp only at h
  generalize (if negative = true then -(digitsValue digits : Int) else digitsValue digits) = m at h
  split at h
  · exact absurd h (by simp)
  · split at h
    case isTrue hm => exact Except.ok.inj h ▸ hm
    case isFalse => exact absurd h (by simp)

/-! ## Texts that are numbers as a whole -/

/-- The whole text is white space, which may be missing, and a numeral of this value. -/
def Denotes (t : List UInt8) (n : Int) : Prop :=
  ∃ m : Numeral, t.dropWhile isSpace = m.text ∧ m.value = n

/-- `stoi` reads a text that denotes a number as that number, or throws because of its size. -/
theorem stoi_of_denotes {t : List UInt8} {n : Int} (h : Denotes t n) :
    stoi t = if InIntRange n then .ok n else .error .outOfRange := by
  obtain ⟨m, ht, rfl⟩ := h
  have hne : m.digits.map Numeral.digitText ≠ [] := fun h =>
    m.nonempty (List.map_eq_nil_iff.mp h)
  have hsigned : signed (t.dropWhile isSpace) =
      (decide (m.sign = .minus), m.digits.map Numeral.digitText) := by
    rw [← Numeral.signed_text, ← ht, List.dropWhile_idempotent]
  rw [stoi, hsigned]
  simp only [if_neg hne, decide_eq_true_eq, Numeral.digitsValue_text, Numeral.value]
  rfl

/-- A text that denotes a number ends with a digit. -/
theorem Denotes.ends_with_digit {t : List UInt8} {n : Int} (h : Denotes t n) :
    ∃ front d, t = front ++ [Numeral.digitText d] := by
  obtain ⟨m, ht, -⟩ := h
  obtain ⟨front, d, hdigits⟩ := List.eq_nil_or_concat m.digits |>.resolve_left m.nonempty
  have htext : m.text = (Numeral.signText m.sign ++ front.map Numeral.digitText) ++
      [Numeral.digitText d] := by
    rw [Numeral.text, hdigits, List.concat_eq_append, List.map_append, List.append_assoc]
    rfl
  refine ⟨t.takeWhile isSpace ++ (Numeral.signText m.sign ++ front.map Numeral.digitText), d, ?_⟩
  rw [List.append_assoc, ← htext, ← ht, List.takeWhile_append_dropWhile]

end SctpSandbox

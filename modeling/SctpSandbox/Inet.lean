import Mathlib.Data.Fintype.Pi
import SctpSandbox.Typedefs

/-! # Address conversion

`inet_pton` and `inet_ntop` come from the C library. `Inet` is what the program relies on: text
written by `inet_ntop` is NUL-free, fits the sizes `INET_ADDRSTRLEN` and `INET6_ADDRSTRLEN` with its
NUL, and is read back by `inet_pton`. `Inet.reference` is one such pair, with the dotted decimal
form of the C library for IPv4 and eight full hexadecimal groups for IPv6. -/

namespace SctpSandbox

/-- `using IP = std::string`. -/
abbrev IP := List Byte

/-- `INET_ADDRSTRLEN`. -/
def inetAddrstrlen : ℕ := 16

/-- `INET6_ADDRSTRLEN`. -/
def inet6Addrstrlen : ℕ := 46

/-- The address conversion functions of the C library, for each family. -/
structure Inet where
  /-- `inet_pton(AF_INET, …)`: the address bytes when it returns 1. -/
  pton4 : List Byte → Option (Fin 4 → Byte)
  /-- `inet_pton(AF_INET6, …)`. -/
  pton6 : List Byte → Option (Fin 16 → Byte)
  /-- The text `inet_ntop(AF_INET, …)` writes, without its NUL. -/
  ntop4 : (Fin 4 → Byte) → List Byte
  /-- The text `inet_ntop(AF_INET6, …)` writes, without its NUL. -/
  ntop6 : (Fin 16 → Byte) → List Byte
  /-- `inet_pton` inverts `inet_ntop`. -/
  pton4_ntop4 : ∀ a, pton4 (ntop4 a) = some a
  pton6_ntop6 : ∀ a, pton6 (ntop6 a) = some a
  /-- The text is a C string. -/
  zero_notMem_ntop4 : ∀ a, 0 ∉ ntop4 a
  zero_notMem_ntop6 : ∀ a, 0 ∉ ntop6 a
  /-- The text and its NUL fit the sizes the library names. -/
  length_ntop4 : ∀ a, (ntop4 a).length < inetAddrstrlen
  length_ntop6 : ∀ a, (ntop6 a).length < inet6Addrstrlen

/-! ## A reference pair -/

namespace Inet

/-- An octet in decimal, without leading zeros. -/
def octetText (b : Byte) : List Byte :=
  if b < 10 then [48 + b]
  else if b < 100 then [48 + b / 10, 48 + b % 10]
  else [48 + b / 100, 48 + b / 10 % 10, 48 + b % 10]

/-- The value of a string of decimal digits. -/
def decimalValue : List Byte → Option ℕ :=
  fun t => t.foldl (fun acc c => acc.bind fun v =>
    if 48 ≤ c ∧ c ≤ 57 then some (10 * v + (c.toNat - 48)) else none) (some 0)

/-- An octet as `inet_pton` reads it: one to three digits, no leading zero, at most 255. -/
def parseOctet (t : List Byte) : Option Byte :=
  if t = [] ∨ (1 < t.length ∧ t.head? = some 48) then none
  else (decimalValue t).bind fun v => if v ≤ 255 then some v.toUInt8 else none

/-- One hexadecimal digit. -/
def hexDigit (n : Byte) : Byte := if n < 10 then 48 + n else 87 + n

/-- The value of a hexadecimal digit. -/
def hexValue (c : Byte) : Option Byte :=
  if 48 ≤ c ∧ c ≤ 57 then some (c - 48)
  else if 97 ≤ c ∧ c ≤ 102 then some (c - 87)
  else if 65 ≤ c ∧ c ≤ 70 then some (c - 55)
  else none

/-- Two address bytes as one group of four hexadecimal digits. -/
def groupText (b c : Byte) : List Byte :=
  [hexDigit (b / 16), hexDigit (b % 16), hexDigit (c / 16), hexDigit (c % 16)]

/-- A byte from its two hexadecimal digits. -/
def hexByte (c d : Byte) : Option Byte :=
  (hexValue c).bind fun x => (hexValue d).map fun y => 16 * x + y

/-- The two address bytes of a full group. -/
def parseGroup : List Byte → Option (Byte × Byte)
  | [c, d, e, f] => (hexByte c d).bind fun x => (hexByte e f).map fun y => (x, y)
  | _ => none

/-- A list of the right length as an array of address bytes. -/
def toAddr (n : ℕ) (bytes : List Byte) : Option (Fin n → Byte) :=
  if bytes.length = n then some fun i => bytes.getD i 0 else none

/-- An address survives the way through the list of its bytes. -/
theorem toAddr_ofFn {n : ℕ} (a : Fin n → Byte) : toAddr n (List.ofFn a) = some a := by
  rw [toAddr, if_pos List.length_ofFn]
  congr 1
  funext i
  simp [List.getD_eq_getElem?_getD]

/-- Dotted decimal notation. -/
def dotted (a : Fin 4 → Byte) : List Byte :=
  [46].intercalate ((List.ofFn a).map octetText)

/-- Reads dotted decimal notation. -/
def parseDotted (t : List Byte) : Option (Fin 4 → Byte) :=
  ((t.splitOn 46).mapM parseOctet).bind (toAddr 4)

/-- Eight groups of four hexadecimal digits. -/
def grouped (a : Fin 16 → Byte) : List Byte :=
  [58].intercalate ((List.ofFn fun i : Fin 8 => groupText (a ⟨2 * i, by omega⟩)
    (a ⟨2 * i + 1, by omega⟩)))

/-- Reads eight full groups. -/
def parseGrouped (t : List Byte) : Option (Fin 16 → Byte) :=
  ((t.splitOn 58).mapM parseGroup).bind fun gs => toAddr 16 (gs.flatMap fun g => [g.1, g.2])

/-- A property of all bytes, from its check on the 256 values. -/
theorem forall_byte {P : Byte → Prop} (h : ∀ n : Fin 256, P (UInt8.ofNat n)) (b : Byte) : P b := by
  have hb := h ⟨b.toNat, b.toNat_lt⟩
  rwa [show UInt8.ofNat (⟨b.toNat, b.toNat_lt⟩ : Fin 256) = b from UInt8.ofNat_toNat] at hb

/-- Every octet reads back, and its text is short and has neither dot nor NUL. -/
theorem octetText_spec : ∀ b, parseOctet (octetText b) = some b ∧ (octetText b).length ≤ 3 ∧
    46 ∉ octetText b ∧ 0 ∉ octetText b :=
  forall_byte (by decide +kernel)

/-- Every byte reads back from its two digits, and these are neither colon nor NUL. -/
theorem hexDigit_spec : ∀ b, hexByte (hexDigit (b / 16)) (hexDigit (b % 16)) = some b ∧
    58 ∉ [hexDigit (b / 16), hexDigit (b % 16)] ∧ 0 ∉ [hexDigit (b / 16), hexDigit (b % 16)] :=
  forall_byte (by decide +kernel)

/-- A group of four digits is parsed as its two bytes. -/
theorem parseGroup_groupText (b c : Byte) : parseGroup (groupText b c) = some (b, c) := by
  simp only [parseGroup, groupText, (hexDigit_spec b).1, (hexDigit_spec c).1, Option.bind_some,
    Option.map_some]

/-- A group contains neither a colon nor a zero. -/
theorem notMem_groupText (b c : Byte) : 58 ∉ groupText b c ∧ 0 ∉ groupText b c := by
  obtain ⟨-, hb58, hb0⟩ := hexDigit_spec b
  obtain ⟨-, hc58, hc0⟩ := hexDigit_spec c
  simp only [groupText, List.mem_cons, List.not_mem_nil, or_false, not_or] at hb58 hb0 hc58 hc0 ⊢
  exact ⟨⟨hb58.1, hb58.2, hc58.1, hc58.2⟩, ⟨hb0.1, hb0.2, hc0.1, hc0.2⟩⟩

/-- Reading each piece of a joined list back reads the whole list back. -/
theorem mapM_map_of_forall {α β : Type} {f : β → Option α} {g : α → β} {as : List α}
    (h : ∀ a, f (g a) = some a) : (as.map g).mapM f = some as := by
  induction as with
  | nil => rfl
  | cons a as ih => simp [List.mapM_cons, h, ih]

/-- A byte of a joined text is the separator or a byte of a piece. -/
theorem mem_intercalate {c sep : Byte} {ls : List (List Byte)}
    (h : c ∈ [sep].intercalate ls) : c = sep ∨ ∃ l ∈ ls, c ∈ l := by
  -- by induction on the pieces; the last one has no separator behind it
  induction ls with
  | nil => simp [List.intercalate] at h
  | cons l ls ih =>
      cases ls with
      | nil => exact .inr ⟨l, List.mem_cons_self, by simpa [List.intercalate] using h⟩
      | cons l' ls =>
          rw [List.intercalate_cons_cons] at h
          simp only [List.mem_append, List.mem_singleton] at h
          rcases h with (hl | hsep) | hrest
          · exact .inr ⟨l, List.mem_cons_self, hl⟩
          · exact .inl hsep
          · refine (ih hrest).imp_right fun ⟨m, hm, hc⟩ => ⟨m, List.mem_cons_of_mem _ hm, hc⟩

/-- Round trip of the dotted form. -/
theorem parseDotted_dotted (a : Fin 4 → Byte) : parseDotted (dotted a) = some a := by
  have hsplit : (dotted a).splitOn 46 = (List.ofFn a).map octetText := by
    -- no octet holds a dot, so splitting undoes joining
    refine List.splitOn_intercalate 46 (fun l hl => ?_) (by simp)
    obtain ⟨b, -, rfl⟩ := List.mem_map.mp hl
    exact (octetText_spec b).2.2.1
  rw [parseDotted, hsplit, mapM_map_of_forall fun b => (octetText_spec b).1, Option.bind_some,
    toAddr_ofFn]

/-- The pairs of neighbouring address bytes. -/
def bytePairs (a : Fin 16 → Byte) : List (Byte × Byte) :=
  List.ofFn fun i : Fin 8 => (a ⟨2 * i, by omega⟩, a ⟨2 * i + 1, by omega⟩)

/-- The grouped form joins eight groups by colons. -/
theorem grouped_eq (a : Fin 16 → Byte) :
    grouped a = [58].intercalate ((bytePairs a).map fun p => groupText p.1 p.2) := by
  rw [grouped, bytePairs, List.map_ofFn]
  rfl

/-- The pairs put together are the address again. -/
theorem flatMap_bytePairs (a : Fin 16 → Byte) :
    ((bytePairs a).flatMap fun p => [p.1, p.2]) = List.ofFn a := rfl

/-- Round trip of the grouped form. -/
theorem parseGrouped_grouped (a : Fin 16 → Byte) : parseGrouped (grouped a) = some a := by
  have hsplit : (grouped a).splitOn 58 = (bytePairs a).map fun p => groupText p.1 p.2 := by
    rw [grouped_eq]
    refine List.splitOn_intercalate 58 (fun l hl => ?_) (by simp [bytePairs])
    obtain ⟨p, -, rfl⟩ := List.mem_map.mp hl
    exact (notMem_groupText p.1 p.2).1
  rw [parseGrouped, hsplit, mapM_map_of_forall fun p => parseGroup_groupText p.1 p.2,
    Option.bind_some, flatMap_bytePairs, toAddr_ofFn]

/-- The dotted form contains no zero, so `cStr` keeps it whole. -/
theorem zero_notMem_dotted (a : Fin 4 → Byte) : 0 ∉ dotted a := by
  intro h
  rcases mem_intercalate h with h46 | ⟨l, hl, h0⟩
  · exact absurd h46 (by decide)
  · obtain ⟨b, -, rfl⟩ := List.mem_map.mp hl
    exact (octetText_spec b).2.2.2 h0

/-- The grouped form contains no zero, so `cStr` keeps it whole. -/
theorem zero_notMem_grouped (a : Fin 16 → Byte) : 0 ∉ grouped a := by
  rw [grouped_eq]
  intro h
  rcases mem_intercalate h with h58 | ⟨l, hl, h0⟩
  · exact absurd h58 (by decide)
  · obtain ⟨p, -, rfl⟩ := List.mem_map.mp hl
    exact (notMem_groupText p.1 p.2).2 h0

/-- Eight full groups and seven colons. -/
theorem length_grouped (a : Fin 16 → Byte) : (grouped a).length = 39 := rfl

/-- Four octets of at most three digits and three dots. -/
theorem length_dotted (a : Fin 4 → Byte) : (dotted a).length < inetAddrstrlen := by
  have h0 := (octetText_spec (a 0)).2.1
  have h1 := (octetText_spec (a 1)).2.1
  have h2 := (octetText_spec (a 2)).2.1
  have h3 := (octetText_spec (a 3)).2.1
  have hlen : (dotted a).length = (octetText (a 0)).length + (1 + ((octetText (a 1)).length +
      (1 + ((octetText (a 2)).length + (1 + (octetText (a 3)).length))))) := by
    simp [dotted, List.ofFn_succ, List.intercalate, List.intersperse]
    omega
  rw [hlen, inetAddrstrlen]
  omega

/-- The reference pair of conversion functions. -/
def reference : Inet where
  pton4 := parseDotted
  pton6 := parseGrouped
  ntop4 := dotted
  ntop6 := grouped
  pton4_ntop4 := parseDotted_dotted
  pton6_ntop6 := parseGrouped_grouped
  zero_notMem_ntop4 := zero_notMem_dotted
  zero_notMem_ntop6 := zero_notMem_grouped
  length_ntop4 := length_dotted
  length_ntop6 := fun a => by rw [length_grouped]; decide

end Inet

end SctpSandbox

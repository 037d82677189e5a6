import Mathlib.Data.List.Flatten
import Mathlib.Data.List.Forall2
import Mathlib.Data.Nat.Notation

/-! # Packed records

Records of several widths lie one behind the other, with nothing between them and no length in
front. A walk reads the record at its position and goes on by the width of what it has read. When
every record read in front of anything has the width it was written with, a walk over the records
written one behind the other stays on their boundaries, whatever their widths are. -/

namespace SctpSandbox

namespace Records

variable {α δ β ε : Type} {R : α → δ → Prop} {read : List β → Except ε δ} {width : δ → ℕ}
  {as : List α}

/-- Read `n` records, the position given by what lies behind it. The result is the records and what
lies behind the last one. -/
def walk (read : List β → Except ε δ) (width : δ → ℕ) : ℕ → List β → Except ε (List δ × List β)
  | 0, xs => .ok ([], xs)
  | n + 1, xs => do
      let d ← read xs
      let (ds, rest) ← walk read width n (xs.drop (width d))
      return (d :: ds, rest)

/-- No records are read from anywhere. -/
theorem walk_zero (xs : List β) : walk read width 0 xs = .ok ([], xs) := rfl

/-- A walk whose first record is read goes on behind it. -/
theorem walk_succ {n : ℕ} {xs rest : List β} {d : δ} {ds : List δ} (hd : read xs = .ok d)
    (hds : walk read width n (xs.drop (width d)) = .ok (ds, rest)) :
    walk read width (n + 1) xs = .ok (d :: ds, rest) := by
  rw [walk, hd]
  simp only [bind, Except.bind, hds]
  rfl

/-- A record is read back in front of anything: as something related to it, of its width. -/
def ReadsBack (R : α → δ → Prop) (read : List β → Except ε δ) (width : δ → ℕ) (xs : List β)
    (a : α) : Prop :=
  ∀ rest, ∃ d, read (xs ++ rest) = .ok d ∧ width d = xs.length ∧ R a d

/-- **The walk rule**: a walk over records that are read back reads all of them, in order, and
ends where they end. -/
theorem walk_flatten {xss : List (List β)}
    (h : List.Forall₂ (fun xs a => ReadsBack R read width xs a) xss as) (rest : List β) :
    ∃ ds, walk read width as.length (xss.flatten ++ rest) = .ok (ds, rest) ∧
      List.Forall₂ R as ds := by
  -- by induction on the records: the first one is in front of all the others
  induction h with
  | nil => exact ⟨[], walk_zero rest, .nil⟩
  | @cons xs a xss as ha _ ih =>
      obtain ⟨ds, hds, hrel⟩ := ih
      obtain ⟨d, hd, hwidth, hR⟩ := ha (xss.flatten ++ rest)
      refine ⟨d :: ds, ?_, .cons hR hrel⟩
      rw [List.flatten_cons, List.append_assoc]
      exact walk_succ hd (by rw [hwidth, List.drop_left, hds])

end Records

end SctpSandbox

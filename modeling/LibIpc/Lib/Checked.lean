import Mathlib.Tactic

/-!
# Checked arithmetic and slices

The operations of a language whose safe builds stop at an overflow or at an index out of range.
`none` is the stop. A program that never stops is one whose every checked operation is `some`, which
the lemmas turn into an inequality.
-/

namespace LibIpc.Lib

/-- `a - b` of an unsigned type. -/
def subChecked (a b : Nat) : Option Nat := if b ≤ a then some (a - b) else none

/-- `a + b` in `w` bits. -/
def addChecked (w a b : Nat) : Option Nat := if a + b < 2 ^ w then some (a + b) else none

/-- `xs[lo..hi]`. -/
def sliceChecked {α : Type} (xs : List α) (lo hi : Nat) : Option (List α) :=
  if lo ≤ hi ∧ hi ≤ xs.length then some ((xs.drop lo).take (hi - lo)) else none

/-- The buffer with `bs` stored from index `i` on. -/
def storeChecked {α : Type} (buf : List α) (i : Nat) (bs : List α) : Option (List α) :=
  if i + bs.length ≤ buf.length then some (buf.take i ++ (bs ++ buf.drop (i + bs.length)))
  else none

theorem subChecked_of_le {a b : Nat} (h : b ≤ a) : subChecked a b = some (a - b) := if_pos h

theorem addChecked_of_lt {w a b : Nat} (h : a + b < 2 ^ w) : addChecked w a b = some (a + b) :=
  if_pos h

theorem addChecked_of_le {w a b : Nat} (h : 2 ^ w ≤ a + b) : addChecked w a b = none :=
  if_neg (Nat.not_lt.mpr h)

theorem sliceChecked_of_le {α : Type} {xs : List α} {lo hi : Nat} (hlo : lo ≤ hi)
    (hhi : hi ≤ xs.length) : sliceChecked xs lo hi = some ((xs.drop lo).take (hi - lo)) :=
  if_pos ⟨hlo, hhi⟩

/-- A buffer is filled from left to right. -/
theorem storeChecked_append {α : Type} (filled : List α) {rest bs : List α}
    (h : bs.length ≤ rest.length) :
    storeChecked (filled ++ rest) filled.length bs =
      some (filled ++ bs ++ rest.drop bs.length) := by
  have hfits : filled.length + bs.length ≤ (filled ++ rest).length := by
    rw [List.length_append]
    omega
  have hdrop : (filled ++ rest).drop (filled.length + bs.length) = rest.drop bs.length := by
    rw [← List.drop_drop, List.drop_left]
  rw [storeChecked, if_pos hfits, List.take_left, hdrop, List.append_assoc]

end LibIpc.Lib

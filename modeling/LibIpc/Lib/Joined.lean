import Mathlib.Data.List.Infix
import Mathlib.Data.List.Basic

/-!
# Searching a list that was joined

Parts without the separator `c` are joined by it. To find a needle, itself without `c`, at the
beginning of a part, the whole is searched: the needle is at its beginning, or the separator and
then the needle are somewhere in it (`found_iff`).
-/

namespace LibIpc.Lib

variable {α : Type} {c : α} {s : List α}

/-- A needle without the separator does not go past it. -/
theorem prefix_append_cons_iff (hs : c ∉ s) (a b : List α) : s <+: a ++ c :: b ↔ s <+: a := by
  constructor
  · intro h
    rcases List.prefix_or_prefix_of_prefix h (List.prefix_append a (c :: b)) with hle | ⟨r, rfl⟩
    · exact hle
    · -- `s` is `a` and more: the next element would be the separator.
      cases r with
      | nil => simp
      | cons x r =>
        rw [List.prefix_append_right_inj, List.cons_prefix_cons] at h
        exact absurd (by simp [h.1]) hs
  · intro h
    exact h.trans (List.prefix_append a (c :: b))

/-- The separator is not found before its first occurrence. -/
theorem cons_infix_append_cons_iff {a : List α} (ha : c ∉ a) (b : List α) :
    c :: s <:+: a ++ c :: b ↔ s <+: b ∨ c :: s <:+: b := by
  induction a with
  | nil => rw [List.nil_append, List.infix_cons_iff, List.cons_prefix_cons, and_iff_right rfl]
  | cons x a ih =>
    rw [List.mem_cons, not_or] at ha
    rw [List.cons_append, List.infix_cons_iff, List.cons_prefix_cons, ih ha.2]
    simp [ha.1]

/-- A needle at the beginning of the whole is at the beginning of the first part. -/
theorem prefix_intercalate_iff (hs : c ∉ s) (p : List α) (ps : List (List α)) :
    s <+: [c].intercalate (p :: ps) ↔ s <+: p := by
  cases ps with
  | nil => rw [List.intercalate_singleton]
  | cons q ps =>
    rw [List.intercalate_cons_cons, List.append_assoc, List.singleton_append,
      prefix_append_cons_iff hs]

/-- **Search**: a needle without the separator begins a part exactly when it begins the whole or
follows a separator. -/
theorem found_iff (hs : c ∉ s) {parts : List (List α)} (hne : parts ≠ [])
    (hparts : ∀ p ∈ parts, c ∉ p) :
    (s <+: [c].intercalate parts ∨ c :: s <:+: [c].intercalate parts) ↔ ∃ p ∈ parts, s <+: p := by
  induction parts with
  | nil => exact absurd rfl hne
  | cons p ps ih =>
    obtain ⟨hp, hps⟩ := List.forall_mem_cons.mp hparts
    rw [prefix_intercalate_iff hs, List.exists_mem_cons_iff]
    refine or_congr_right ?_
    cases ps with
    | nil =>
      rw [List.intercalate_singleton]
      refine iff_of_false ?_ (by simp)
      intro hinside
      exact hp (hinside.subset List.mem_cons_self)
    | cons q ps =>
      rw [← ih (List.cons_ne_nil q ps) hps, List.intercalate_cons_cons, List.append_assoc,
        List.singleton_append, cons_infix_append_cons_iff hp]

end LibIpc.Lib

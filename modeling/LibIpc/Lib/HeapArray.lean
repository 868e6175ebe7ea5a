import LibIpc.Lib.SwapQueue

/-!
# Growable arrays behind a nullable pointer

A C growable array is a pointer and a size kept in two fields. The pointer is `none` (`NULL`) or
the block it owns; the size is whatever the code last stored, so nothing here ties the two
together. `Ptr.block p n` is what a loop over `i < n` reads, and is `none` when it would read past
the block. `Ptr.ofList` is the well-formed case: no block for an empty array, otherwise a block of
exactly the elements.
-/

namespace LibIpc.Lib

variable {α : Type}

/-- `NULL`, or the block of elements the pointer owns. -/
abbrev Ptr (α : Type) := Option (List α)

namespace Ptr

/-- The first `n` elements of the block, `none` when the block is shorter than that. -/
def block (p : Ptr α) (n : Nat) : Option (List α) :=
  if n ≤ (p.getD []).length then some ((p.getD []).take n) else none

/-- The block `realloc` returns for `n` elements: the old elements that still fit, then new ones
(of unspecified content). -/
def realloc [Inhabited α] (p : Ptr α) (n : Nat) : List α :=
  (p.getD []).take n ++ List.replicate (n - (p.getD []).length) default

/-- The pointer of a well-formed array: `NULL` exactly when there is no element. -/
def ofList (l : List α) : Ptr α := if l = [] then none else some l

@[simp] theorem ofList_nil : ofList ([] : List α) = none := rfl

theorem ofList_of_ne_nil {l : List α} (h : l ≠ []) : ofList l = some l := by
  simp [ofList, h]

theorem ofList_of_length {l : List α} {n : Nat} (h : l.length = n + 1) : ofList l = some l :=
  ofList_of_ne_nil (by intro hl; simp [hl] at h)

@[simp] theorem ofList_concat (l : List α) (x : α) : ofList (l ++ [x]) = some (l ++ [x]) :=
  ofList_of_ne_nil (by simp)

@[simp] theorem getD_ofList (l : List α) : (ofList l).getD [] = l := by
  cases l <;> rfl

theorem ofList_eq_none_iff {l : List α} : ofList l = none ↔ l.length = 0 := by
  cases l <;> simp [ofList]

@[simp] theorem block_ofList (l : List α) : (ofList l).block l.length = some l := by
  simp [block]

/-- Shrinking by one drops the last element. -/
theorem realloc_some_pred [Inhabited α] (l : List α) :
    Ptr.realloc (some l) (l.length - 1) = l.dropLast := by
  simp [realloc, List.dropLast_eq_take]

theorem block_eq_some_iff {p : Ptr α} {n : Nat} {l : List α} :
    p.block n = some l ↔ n ≤ (p.getD []).length ∧ (p.getD []).take n = l := by
  simp [block]

theorem length_of_block {p : Ptr α} {n : Nat} {l : List α} (h : p.block n = some l) :
    l.length = n := by
  obtain ⟨hle, rfl⟩ := block_eq_some_iff.mp h
  simpa using hle

/-- A block replaced in place by one of the size read is read back. -/
theorem block_map_const {p : Ptr α} {n : Nat} {l l' : List α} (h : p.block n = some l)
    (hl : l'.length = n) : Ptr.block (p.map fun _ => l') n = some l' := by
  cases p with
  | none =>
    obtain ⟨rfl, -⟩ : n = 0 ∧ l = [] := by simpa [block] using h
    simp [List.eq_nil_of_length_eq_zero hl, block]
  | some b => simp [block, ← hl]

/-- Growing by one and storing the new element. -/
theorem set_realloc_succ [Inhabited α] {p : Ptr α} {n : Nat} {l : List α}
    (h : p.block n = some l) (x : α) : (p.realloc (n + 1)).set n x = l ++ [x] := by
  obtain ⟨hle, rfl⟩ := block_eq_some_iff.mp h
  generalize hL : p.getD [] = L at hle
  rw [realloc, hL]
  rcases Nat.lt_or_eq_of_le hle with hlt | rfl
  · have htake : L.take (n + 1) = L.take n ++ [L[n]] := by
      rw [List.take_add_one, List.getElem?_eq_getElem hlt, Option.toList_some]
    rw [htake, Nat.sub_eq_zero_of_le hlt, List.replicate_zero, List.append_nil,
      List.set_append_right _ _ (by simp)]
    simp [Nat.min_eq_left hle]
  · simp [List.take_of_length_le]

end Ptr

end LibIpc.Lib

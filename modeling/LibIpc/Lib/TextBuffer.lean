import LibIpc.Lib.Bytes
import LibIpc.Lib.Checked

/-!
# Strings put together in a buffer

A C program puts a string together in an array with `cur += snprintf (cur, end - cur, ..)`, and
prints the array with `%s`, which stops at the first zero byte. `snprintf` answers the length of the
whole text even where it stored only a part of it, so the cursor can leave the array: after that
nothing is defined. Where the string fits, the array holds what was put into it (`Holds`).
-/

namespace LibIpc.Lib

/-- The array and the offset of the cursor in it. -/
structure TextBuffer where
  array : List Byte
  cur : Nat

namespace TextBuffer

/-- `size` zero bytes, with the cursor at the start. -/
def cleared (size : Nat) : TextBuffer := { array := List.replicate size 0, cur := 0 }

/-- What `snprintf` stores in so much room: one byte of it is for the end of the string, and without
room nothing is stored. -/
def stored (room : Nat) (text : List Byte) : List Byte :=
  if room = 0 then [] else text.take (room - 1) ++ [0]

/-- `cur += snprintf (cur, end - cur, ..)`, given the text. `none`: the cursor is behind the end, or
the length of the text is no `int`. -/
def snprintf (t : TextBuffer) (text : List Byte) : Option TextBuffer :=
  if t.array.length < t.cur ∨ 2 ^ 31 ≤ text.length then none
  else
    (storeChecked t.array t.cur (stored (t.array.length - t.cur) text)).map fun array =>
      { array, cur := t.cur + text.length }

/-- What `%s` prints; `none` when the string does not end in the array. -/
def string (t : TextBuffer) : Option (List Byte) :=
  if 0 ∈ t.array then some (t.array.takeWhile (· ≠ 0)) else none

/-- An array of this size holds the text, and the cursor is at the end of it. -/
structure Holds (t : TextBuffer) (size : Nat) (text : List Byte) : Prop where
  array : ∃ rest, t.array = text ++ 0 :: rest
  cur : t.cur = text.length
  size : t.array.length = size

variable {t : TextBuffer} {size : Nat} {line text : List Byte}

theorem holds_cleared (hsize : 0 < size) : (cleared size).Holds size [] := by
  constructor
  · refine ⟨List.replicate (size - 1) 0, ?_⟩
    rw [cleared, List.nil_append, ← List.replicate_succ, Nat.sub_add_cancel hsize]
  · rfl
  · exact List.length_replicate

theorem stored_of_lt {room : Nat} (h : text.length < room) : stored room text = text ++ [0] := by
  rw [stored, if_neg (Nat.ne_zero_of_lt h), List.take_of_length_le (Nat.le_sub_one_of_lt h)]

/-- A text that fits is added to the line. -/
theorem Holds.snprintf (h : t.Holds size line) (hfits : (line ++ text).length < size)
    (hsize : size ≤ 2 ^ 31) : ∃ t', t.snprintf text = some t' ∧ t'.Holds size (line ++ text) := by
  obtain ⟨rest, harray⟩ := h.array
  have hlength : line.length + (rest.length + 1) = size := by
    rw [← h.size, harray, List.length_append, List.length_cons]
  rw [List.length_append] at hfits
  have hdefined : ¬ (t.array.length < t.cur ∨ 2 ^ 31 ≤ text.length) := by
    rw [h.size, h.cur]
    omega
  have hstored : stored (t.array.length - t.cur) text = text ++ [0] := by
    rw [h.size, h.cur]
    exact stored_of_lt (by omega)
  have hstore : storeChecked t.array t.cur (text ++ [0]) =
      some (line ++ (text ++ [0]) ++ (0 :: rest).drop (text ++ [0]).length) := by
    rw [harray, h.cur]
    apply storeChecked_append
    rw [List.length_append, List.length_singleton, List.length_cons]
    omega
  rw [TextBuffer.snprintf, if_neg hdefined, hstored, hstore]
  refine ⟨_, rfl, ?_, ?_, ?_⟩
  · refine ⟨(0 :: rest).drop (text ++ [0]).length, ?_⟩
    simp only [List.append_assoc, List.singleton_append]
  · show t.cur + text.length = (line ++ text).length
    rw [h.cur, List.length_append]
  · rw [← hlength]
    simp only [List.length_append, List.length_drop, List.length_cons, List.length_nil]
    omega

/-- The line is printed up to its end. -/
theorem Holds.string (h : t.Holds size line) (hline : 0 ∉ line) : t.string = some line := by
  obtain ⟨rest, harray⟩ := h.array
  have hmem : 0 ∈ t.array := by
    rw [harray]
    exact List.mem_append_right line List.mem_cons_self
  have hplain : ∀ b ∈ line, decide (b ≠ 0) = true := by
    intro b hb
    exact decide_eq_true (ne_of_mem_of_not_mem hb hline)
  rw [TextBuffer.string, if_pos hmem, harray, List.takeWhile_append_of_pos hplain,
    List.takeWhile_cons_of_neg (by simp), List.append_nil]

end TextBuffer

end LibIpc.Lib

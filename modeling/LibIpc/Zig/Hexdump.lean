import LibIpc.Lib.Checked
import LibIpc.Lib.Output
import Mathlib.Data.Nat.Digits.Lemmas

/-!
# Hexadecimal dumps (`hexdump.zig`)

`hexdump` writes a header, then rows of sixteen bytes: the offset, the bytes in hexadecimal and the
bytes as characters. It is modelled by what it writes, piece by piece, with the arithmetic that may
stop it; `hexdump_layout` says that the pieces make up the rows of `dumpText`, and that the bytes
can be read back from the hexadecimal columns.
-/

namespace LibIpc.Zig

open Lib

/-! ## Formats -/

/-- The decimal digits, filled up with zeros on the left. -/
def padDecimal (width n : Nat) : List Byte :=
  List.leftpad width 48 ((Nat.digits 10 n).reverse.map fun d => UInt8.ofNat (48 + d))

/-- `{d:0>4}`. -/
def paddedDecimal (n : Nat) : List Byte := padDecimal 4 n

def hexDigit (d : Nat) : Byte := if d < 10 then UInt8.ofNat (48 + d) else UInt8.ofNat (55 + d)

/-- `{X:0>2}`. -/
def hexPair (b : Byte) : List Byte := [hexDigit (b.toNat / 16), hexDigit (b.toNat % 16)]

/-- The byte as a character, or a dot. -/
def printable (b : Byte) : Byte := if 32 ≤ b ∧ b ≤ 126 then b else 46

/-- `  {d:0>4}:  `. -/
def rowHead (hexb : Nat) : List Byte := [32, 32] ++ paddedDecimal hexb ++ [58, 32, 32]

/-! ## `hexdump` -/

/-- The header, centred on a line of its own. -/
def headerLine (header : List Byte) : List Output :=
  if header.length > 0 then
    match subChecked (header.length / 2) 1 with
    | none => [.panic]
    | some half =>
      match subChecked (64 / 2) half with
      | none => [.panic]
      | some offset =>
        -- `std.mem.copy` asserts that there is room for what it copies.
        if header.length ≤ 64 - offset then
          [.write (List.replicate offset 32 ++ header ++
            List.replicate (64 - offset - header.length) 32), .write [10]]
        else [.panic]
  else []

/-- `missing_spaces`, after the last byte. -/
def missingSpaces (i : Nat) : Nat := 3 * (15 - i % 16) + if i % 16 < 7 then 1 else 0

/-- The loop over the buffer, with `n` bytes left; `i` and `hexb` are `u32`. -/
def hexdumpLoop (buffer : List Byte) : Nat → Nat → Nat → Vector Byte 16 → List Output
  | 0, _, _, _ => []
  | n + 1, i, hexb, ascii =>
    match buffer[i]? with
    | none => []
    | some b =>
      .write (hexPair b ++ [32]) ::
        match addChecked 32 i 1 with
        | none => [.panic]
        | some next =>
          let ascii := ascii.set (i % 16) (printable b) (Nat.mod_lt i (by decide))
          (if next % 8 = 0 then [.write [32]] else []) ++
          (if next = buffer.length then List.replicate (missingSpaces i) (.write [32]) else []) ++
          if next % 16 = 0 ∧ next = buffer.length then
            .write (ascii.toList ++ [10]) :: hexdumpLoop buffer n next hexb ascii
          else if next % 16 = 0 ∧ next ≠ buffer.length then
            .write (ascii.toList ++ [10]) ::
              match addChecked 32 hexb 16 with
              | none => [.panic]
              | some hexb => .write (rowHead hexb) :: hexdumpLoop buffer n next hexb ascii
          else if next % 16 ≠ 0 ∧ next = buffer.length then
            .write ([32] ++ ascii.toList.take (next % 16) ++ [10]) ::
              hexdumpLoop buffer n next hexb ascii
          else hexdumpLoop buffer n next hexb ascii

/-- `hexdump`; `ascii` is what the uninitialised array holds. -/
def hexdump (ascii : Vector Byte 16) (header buffer : List Byte) : List Output :=
  headerLine header ++ .write (10 :: rowHead 0) ::
    (hexdumpLoop buffer buffer.length 0 0 ascii ++ [.write [10]])

/-! ## The layout -/

/-- The hexadecimal columns: a space after each byte, one more after each eighth. -/
def hexColumns (row : List Byte) : List Byte :=
  row.zipIdx.flatMap fun p => hexPair p.1 ++ if (p.2 + 1) % 8 = 0 then [32, 32] else [32]

/-- Row `k`, with these bytes. -/
def rowText (k : Nat) (row : List Byte) : List Byte :=
  rowHead (16 * k) ++
    if row = [] then []
    else hexColumns row ++ List.replicate (50 - (hexColumns row).length) 32 ++
      row.map printable ++ [10]

/-- The bytes of row `k`. -/
def rowOf (buffer : List Byte) (k : Nat) : List Byte := (buffer.drop (16 * k)).take 16

def rowCount (n : Nat) : Nat := max 1 ((n + 15) / 16)

/-- The first `r` rows. -/
def dumpRows (buffer : List Byte) (r : Nat) : List (List Byte) :=
  (List.range r).map fun k => rowText k (rowOf buffer k)

/-- The text of the dump. -/
def dumpText (buffer : List Byte) : List Byte :=
  10 :: (dumpRows buffer (rowCount buffer.length)).flatten ++ [10]

section
variable {buffer row : List Byte} {b : Byte} {i k : Nat}

/-! ## Rows -/

theorem hexColumns_concat (row : List Byte) (b : Byte) :
    hexColumns (row ++ [b]) =
      hexColumns row ++ (hexPair b ++ if (row.length + 1) % 8 = 0 then [32, 32] else [32]) := by
  simp [hexColumns, List.zipIdx_append]

theorem length_hexColumns (row : List Byte) :
    (hexColumns row).length = 3 * row.length + row.length / 8 := by
  induction row using List.reverseRecOn with
  | nil => rfl
  | append_singleton row b ih =>
    rw [hexColumns_concat, List.length_append, ih, List.length_append, List.length_append]
    show _ + (2 + _) = 3 * (row.length + 1) + (row.length + 1) / 8
    split
    · simp only [List.length_cons, List.length_nil]
      omega
    · simp only [List.length_cons, List.length_nil]
      omega

theorem dumpRows_succ (buffer : List Byte) (r : Nat) :
    (dumpRows buffer (r + 1)).flatten =
      (dumpRows buffer r).flatten ++ rowText r (rowOf buffer r) := by
  simp [dumpRows, List.range_succ]

/-- The bytes of the row of byte `i`, up to it. -/
def rowUpTo (buffer : List Byte) (i : Nat) : List Byte :=
  (buffer.drop (16 * (i / 16))).take (i % 16)

theorem length_rowUpTo (h : i ≤ buffer.length) : (rowUpTo buffer i).length = i % 16 := by
  rw [rowUpTo, List.length_take, List.length_drop]
  omega

/-- One byte more. -/
theorem take_row_succ (h : buffer[i]? = some b) :
    (buffer.drop (16 * (i / 16))).take (i % 16 + 1) = rowUpTo buffer i ++ [b] := by
  have hi : 16 * (i / 16) + i % 16 = i := Nat.div_add_mod i 16
  rw [List.take_add_one, List.getElem?_drop, hi, h]
  rfl

theorem rowUpTo_succ (h : buffer[i]? = some b) (hrow : (i + 1) % 16 ≠ 0) :
    rowUpTo buffer (i + 1) = rowUpTo buffer i ++ [b] := by
  have hdiv : (i + 1) / 16 = i / 16 := by omega
  have hmod : (i + 1) % 16 = i % 16 + 1 := by omega
  rw [← take_row_succ h, rowUpTo, hdiv, hmod]

/-- The row of byte `i`, when it ends there. -/
theorem rowOf_eq (h : buffer[i]? = some b) (hend : (i + 1) % 16 = 0 ∨ i + 1 = buffer.length) :
    rowOf buffer (i / 16) = rowUpTo buffer i ++ [b] := by
  rw [← take_row_succ h, rowOf]
  rcases hend with hend | hend
  · have hmod : i % 16 + 1 = 16 := by omega
    rw [hmod]
  · rw [List.take_of_length_le, List.take_of_length_le]
    · rw [List.length_drop]
      omega
    · rw [List.length_drop]
      omega

theorem rowText_concat (k : Nat) (row : List Byte) (b : Byte) :
    rowText k (row ++ [b]) =
      rowHead (16 * k) ++ hexColumns (row ++ [b]) ++
        List.replicate (50 - (hexColumns (row ++ [b])).length) 32 ++
        (row ++ [b]).map printable ++ [10] := by
  rw [rowText, if_neg (by simp)]
  simp only [List.append_assoc]

/-! ## The loop -/

/-- What the rows show before byte `i`. -/
def shown (buffer : List Byte) (i : Nat) : List Byte :=
  (dumpRows buffer (i / 16)).flatten ++ (rowHead (16 * (i / 16)) ++ hexColumns (rowUpTo buffer i))

/-- The array holds the characters of the row, up to byte `i`. -/
def HoldsRow (buffer : List Byte) (i : Nat) (ascii : Vector Byte 16) : Prop :=
  ascii.toList.take (i % 16) = (rowUpTo buffer i).map printable

theorem take_set_row {ascii : Vector Byte 16} (b : Byte) (hascii : HoldsRow buffer i ascii) :
    (ascii.set (i % 16) (printable b) (Nat.mod_lt i (by decide))).toList.take (i % 16 + 1) =
      (rowUpTo buffer i ++ [b]).map printable := by
  have hlt : i % 16 < ascii.toList.length := by
    rw [Vector.length_toList]
    exact Nat.mod_lt i (by decide)
  rw [Vector.toList_set, List.take_add_one, List.take_set_of_le (Nat.le_refl _), hascii,
    List.getElem?_set_self hlt, List.map_append]
  rfl

/-- The array after byte `i`. -/
def nextAscii (ascii : Vector Byte 16) (i : Nat) (b : Byte) : Vector Byte 16 :=
  ascii.set (i % 16) (printable b) (Nat.mod_lt i (by decide))

theorem HoldsRow.next {ascii : Vector Byte 16} (hascii : HoldsRow buffer i ascii)
    (h : buffer[i]? = some b) : HoldsRow buffer (i + 1) (nextAscii ascii i b) := by
  unfold HoldsRow
  by_cases hrow : (i + 1) % 16 = 0
  · have hempty : rowUpTo buffer (i + 1) = [] := by
      rw [rowUpTo, hrow, List.take_zero]
    rw [hrow, hempty]
    rfl
  · have hmod : (i + 1) % 16 = i % 16 + 1 := by omega
    rw [rowUpTo_succ h hrow, hmod]
    exact take_set_row b hascii

/-- The space behind each eighth byte. -/
def eighthSpace (next : Nat) : List Output := if next % 8 = 0 then [.write [32]] else []

/-- What is written for byte `i` before the row ends, and the spaces behind it. -/
theorem written_byte {spaces : List Output} {pad : List Byte} (hpad : written spaces = some pad)
    (b : Byte) (i : Nat) (rest : List Output) :
    written (.write (hexPair b ++ [32]) :: (eighthSpace (i + 1) ++ spaces ++ rest)) =
      (written rest).map
        ((hexPair b ++ if (i + 1) % 8 = 0 then [32, 32] else [32]) ++ pad ++ ·) := by
  have hsep : written (eighthSpace (i + 1)) = some (if (i + 1) % 8 = 0 then [32] else []) := by
    unfold eighthSpace
    split
    · rfl
    · rfl
  rw [written_write, List.append_assoc, written_append hsep, written_append hpad, Option.map_map,
    Option.map_map]
  congr 1
  funext text
  split
  · simp
  · simp

/-- The end of a round, with `next` bytes written: the row ends, and another one begins, or not. -/
def endOfRound (buffer : List Byte) (n next hexb : Nat) (ascii : Vector Byte 16) : List Output :=
  if next % 16 = 0 ∧ next = buffer.length then
    .write (ascii.toList ++ [10]) :: hexdumpLoop buffer n next hexb ascii
  else if next % 16 = 0 ∧ next ≠ buffer.length then
    .write (ascii.toList ++ [10]) ::
      match addChecked 32 hexb 16 with
      | none => [.panic]
      | some hexb => .write (rowHead hexb) :: hexdumpLoop buffer n next hexb ascii
  else if next % 16 ≠ 0 ∧ next = buffer.length then
    .write ([32] ++ ascii.toList.take (next % 16) ++ [10]) :: hexdumpLoop buffer n next hexb ascii
  else hexdumpLoop buffer n next hexb ascii

theorem hexdumpLoop_step {n hexb : Nat} {ascii : Vector Byte 16} (h : buffer[i]? = some b)
    (hi : i + 1 < 2 ^ 32) :
    hexdumpLoop buffer (n + 1) i hexb ascii =
      .write (hexPair b ++ [32]) ::
        (eighthSpace (i + 1) ++
        (if i + 1 = buffer.length then List.replicate (missingSpaces i) (.write [32]) else []) ++
        endOfRound buffer n (i + 1) hexb (nextAscii ascii i b)) := by
  rw [hexdumpLoop, h]
  simp only [addChecked_of_lt hi]
  rfl

/-- A byte inside a row. -/
theorem written_inside {n hexb : Nat} {ascii : Vector Byte 16} (h : buffer[i]? = some b)
    (hi : i + 1 < 2 ^ 32) (hrow : (i + 1) % 16 ≠ 0) (hmore : i + 1 ≠ buffer.length) :
    written (hexdumpLoop buffer (n + 1) i hexb ascii) =
      (written (hexdumpLoop buffer n (i + 1) hexb (nextAscii ascii i b))).map
        ((hexPair b ++ if (i + 1) % 8 = 0 then [32, 32] else [32]) ++ ·) := by
  rw [hexdumpLoop_step h hi, if_neg hmore, endOfRound, if_neg (not_and_of_not_left _ hrow),
    if_neg (not_and_of_not_left _ hrow), if_neg (not_and_of_not_right _ hmore)]
  rw [written_byte rfl]
  simp only [List.append_nil]

/-- The last byte of a row that is not the last one. -/
theorem written_rowEnd {n hexb : Nat} {ascii : Vector Byte 16} (h : buffer[i]? = some b)
    (hi : i + 1 < 2 ^ 32) (hrow : (i + 1) % 16 = 0) (hmore : i + 1 ≠ buffer.length)
    (hhexb : hexb + 16 < 2 ^ 32) :
    written (hexdumpLoop buffer (n + 1) i hexb ascii) =
      (written (hexdumpLoop buffer n (i + 1) (hexb + 16) (nextAscii ascii i b))).map
        ((hexPair b ++ if (i + 1) % 8 = 0 then [32, 32] else [32]) ++
          ((nextAscii ascii i b).toList ++ [10] ++ rowHead (hexb + 16)) ++ ·) := by
  have hcase : (i + 1) % 16 = 0 ∧ i + 1 ≠ buffer.length := ⟨hrow, hmore⟩
  rw [hexdumpLoop_step h hi, if_neg hmore, endOfRound, if_neg (not_and_of_not_right _ hmore),
    if_pos hcase, written_byte rfl, addChecked_of_lt hhexb]
  simp only [written_write, Option.map_map]
  congr 1
  funext text
  simp

/-- The last byte of the buffer, which ends its row with the spaces that are missing. -/
theorem written_last {hexb : Nat} {ascii : Vector Byte 16} (h : buffer[i]? = some b)
    (hi : i + 1 < 2 ^ 32) (hlast : i + 1 = buffer.length)
    (hascii : HoldsRow buffer i ascii) :
    written (hexdumpLoop buffer 1 i hexb ascii) =
      some ((hexPair b ++ if (i + 1) % 8 = 0 then [32, 32] else [32]) ++
        List.replicate (50 - (hexColumns (rowUpTo buffer i ++ [b])).length) 32 ++
        ((rowUpTo buffer i ++ [b]).map printable ++ [10])) := by
  have hlength : (hexColumns (rowUpTo buffer i ++ [b])).length =
      3 * (i % 16 + 1) + (i % 16 + 1) / 8 := by
    rw [length_hexColumns, List.length_append, length_rowUpTo (by omega), List.length_singleton]
  have htake := take_set_row b hascii
  rw [hexdumpLoop_step h hi, if_pos hlast, endOfRound, written_byte (written_replicate _ _)]
  by_cases hrow : (i + 1) % 16 = 0
  · have hmissing : missingSpaces i = 50 - (hexColumns (rowUpTo buffer i ++ [b])).length := by
      rw [hlength, missingSpaces, if_neg (by omega)]
      omega
    have hfull : (nextAscii ascii i b).toList = (rowUpTo buffer i ++ [b]).map printable := by
      rw [← htake, nextAscii, List.take_of_length_le]
      rw [Vector.length_toList]
      omega
    have hcase : (i + 1) % 16 = 0 ∧ i + 1 = buffer.length := ⟨hrow, hlast⟩
    rw [if_pos hcase, hmissing, hfull]
    simp [hexdumpLoop, written]
  · have hmissing : 50 - (hexColumns (rowUpTo buffer i ++ [b])).length = missingSpaces i + 1 := by
      rw [hlength, missingSpaces]
      split
      · have hgroup : (i % 16 + 1) / 8 = 0 := by omega
        omega
      · have hgroup : (i % 16 + 1) / 8 = 1 := by omega
        omega
    have hmod : (i + 1) % 16 = i % 16 + 1 := by omega
    have hcase : (i + 1) % 16 ≠ 0 ∧ i + 1 = buffer.length := ⟨hrow, hlast⟩
    rw [if_neg (not_and_of_not_left _ hrow), if_neg (not_and_of_not_left _ hrow),
      if_pos hcase, hmissing, List.replicate_succ', hmod, nextAscii, htake]
    simp [hexdumpLoop, written]

/-- What the loop writes makes up the rows, from byte `i` on. -/
theorem written_hexdumpLoop {n hexb : Nat} {ascii : Vector Byte 16} (hn : i + n = buffer.length)
    (hi : i < buffer.length) (hlen : buffer.length < 2 ^ 32) (hhexb : hexb = 16 * (i / 16))
    (hascii : HoldsRow buffer i ascii) :
    ∃ text, written (hexdumpLoop buffer n i hexb ascii) = some text ∧
      shown buffer i ++ text = (dumpRows buffer (rowCount buffer.length)).flatten := by
  induction n generalizing i hexb ascii with
  | zero => omega
  | succ n ih =>
    have hget : buffer[i]? = some buffer[i] := List.getElem?_eq_getElem hi
    have hi' : i + 1 < 2 ^ 32 := Nat.lt_of_le_of_lt hi hlen
    have hcolumns := hexColumns_concat (rowUpTo buffer i) buffer[i]
    rw [length_rowUpTo (Nat.le_of_lt hi)] at hcolumns
    have hsep : (i % 16 + 1) % 8 = (i + 1) % 8 := by omega
    rw [hsep] at hcolumns
    by_cases hlast : i + 1 = buffer.length
    · -- The buffer ends here.
      obtain rfl : n = 0 := by omega
      refine ⟨_, written_last hget hi' hlast hascii, ?_⟩
      have hcount : rowCount buffer.length = i / 16 + 1 := by
        rw [rowCount]
        omega
      rw [hcount, dumpRows_succ, rowOf_eq hget (.inr hlast), rowText_concat, shown, hcolumns]
      simp only [List.append_assoc]
    · have hi₁ : i + 1 < buffer.length := Nat.lt_of_le_of_ne hi hlast
      by_cases hrow : (i + 1) % 16 = 0
      · -- The row ends here, and another one begins.
        have hdiv : (i + 1) / 16 = i / 16 + 1 := by omega
        have hnext : hexb + 16 = 16 * ((i + 1) / 16) := by omega
        obtain ⟨text, htext, hrows⟩ :=
          ih (by omega) hi₁ hnext (hascii.next hget)
        have hend := @written_rowEnd buffer buffer[i] i n hexb ascii hget hi' hrow hlast (by omega)
        rw [htext, Option.map_some] at hend
        refine ⟨_, hend, ?_⟩
        · have hfull : (nextAscii ascii i buffer[i]).toList =
              (rowUpTo buffer i ++ [buffer[i]]).map printable := by
            rw [← take_set_row buffer[i] hascii, nextAscii, List.take_of_length_le]
            rw [Vector.length_toList]
            omega
          have hpad : 50 - (hexColumns (rowUpTo buffer i ++ [buffer[i]])).length = 0 := by
            rw [length_hexColumns, List.length_append, length_rowUpTo (Nat.le_of_lt hi),
              List.length_singleton]
            omega
          have hempty : rowUpTo buffer (i + 1) = [] := by rw [rowUpTo, hrow, List.take_zero]
          rw [← hrows, shown, shown, hempty, hdiv, dumpRows_succ, rowOf_eq hget (.inl hrow),
            rowText_concat, hpad, hfull, hnext, hdiv, hcolumns]
          simp [hexColumns]
      · -- The row goes on.
        have hdiv : (i + 1) / 16 = i / 16 := by omega
        obtain ⟨text, htext, hrows⟩ :=
          ih (by omega) hi₁ (hhexb.trans (by rw [hdiv])) (hascii.next hget)
        have hinside := @written_inside buffer buffer[i] i n hexb ascii hget hi' hrow hlast
        rw [htext, Option.map_some] at hinside
        refine ⟨_, hinside, ?_⟩
        · rw [← hrows, shown, shown, rowUpTo_succ hget hrow, hdiv, hcolumns]
          simp only [List.append_assoc]

/-- **The text of a dump** without header, whatever the array held. -/
theorem written_hexdump (ascii : Vector Byte 16) (hlen : buffer.length < 2 ^ 32) :
    written (hexdump ascii [] buffer) = some (dumpText buffer) := by
  have hheader : headerLine [] = [] := rfl
  rw [hexdump, hheader, List.nil_append, written_write]
  by_cases hempty : buffer = []
  · subst hempty
    rfl
  · have hpos : 0 < buffer.length := List.length_pos_iff.mpr hempty
    obtain ⟨text, htext, hrows⟩ := written_hexdumpLoop (Nat.zero_add _) hpos hlen rfl
      (show HoldsRow buffer 0 ascii from rfl)
    rw [written_append htext, dumpText, ← hrows]
    simp [shown, dumpRows, rowUpTo, hexColumns, written]


/-! ## Offsets and lengths -/

theorem length_paddedDecimal_ge (n : Nat) : 4 ≤ (paddedDecimal n).length := by
  rw [paddedDecimal, padDecimal, List.length_leftpad]
  exact Nat.le_max_left 4 _

/-- The last digit comes off the end. -/
theorem padDecimal_succ (width n : Nat) :
    padDecimal (width + 1) n = padDecimal width (n / 10) ++ [UInt8.ofNat (48 + n % 10)] := by
  unfold padDecimal List.leftpad
  rcases Nat.eq_zero_or_pos n with rfl | hpos
  · simp [List.replicate_succ']
  · rw [Nat.digits_def' (by norm_num) hpos]
    simp

theorem paddedDecimal_of_lt {n : Nat} (h : n < 10000) :
    paddedDecimal n = [n / 1000, n / 100 % 10, n / 10 % 10, n % 10].map
      fun d => UInt8.ofNat (48 + d) := by
  have h₁ : n / 10 / 10 = n / 100 := Nat.div_div_eq_div_mul n 10 10
  have h₂ : n / 100 / 10 = n / 1000 := Nat.div_div_eq_div_mul n 100 10
  have h₃ : n / 1000 % 10 = n / 1000 := by omega
  have h₄ : n / 1000 / 10 = 0 := by omega
  have hnone : padDecimal 0 0 = [] := rfl
  rw [paddedDecimal, padDecimal_succ, padDecimal_succ, padDecimal_succ, padDecimal_succ, h₁, h₂, h₃,
    h₄, hnone]
  rfl

theorem length_paddedDecimal_of_lt {n : Nat} (h : n < 10000) : (paddedDecimal n).length = 4 := by
  rw [paddedDecimal_of_lt h]
  rfl

theorem length_rowText (k : Nat) (hne : row ≠ []) (hle : row.length ≤ 16) :
    (rowText k row).length = 56 + (paddedDecimal (16 * k)).length + row.length := by
  rw [rowText, if_neg hne]
  simp only [rowHead, List.length_append, List.length_replicate, List.length_map,
    length_hexColumns, List.length_cons, List.length_nil]
  omega

theorem length_rowOf (buffer : List Byte) (k : Nat) :
    (rowOf buffer k).length = min 16 (buffer.length - 16 * k) := by
  rw [rowOf, List.length_take, List.length_drop]

theorem length_rowText_full {r : Nat} (h : 16 * (r + 1) ≤ buffer.length) :
    (rowText r (rowOf buffer r)).length = 72 + (paddedDecimal (16 * r)).length := by
  have hrow : (rowOf buffer r).length = 16 := by
    rw [length_rowOf]
    omega
  have hne : rowOf buffer r ≠ [] := by
    intro hnil
    rw [hnil] at hrow
    cases hrow
  rw [length_rowText r hne (Nat.le_of_eq hrow), hrow]
  omega

theorem length_dumpRows_ge {r : Nat} (h : 16 * r ≤ buffer.length) :
    76 * r ≤ (dumpRows buffer r).flatten.length := by
  induction r with
  | zero => exact Nat.zero_le _
  | succ r ih =>
    have hpad := length_paddedDecimal_ge (16 * r)
    have hrest := ih (by omega)
    rw [dumpRows_succ, List.length_append, length_rowText_full h]
    omega

theorem length_dumpRows {r : Nat} (h : 16 * r ≤ buffer.length) (hoff : 16 * r ≤ 10000) :
    (dumpRows buffer r).flatten.length = 76 * r := by
  induction r with
  | zero => rfl
  | succ r ih =>
    have hpad := length_paddedDecimal_of_lt (show 16 * r < 10000 by omega)
    have hrest := ih (by omega) (by omega)
    rw [dumpRows_succ, List.length_append, length_rowText_full h]
    omega

/-! ## Reading the bytes back -/

/-- The value of a hexadecimal digit. -/
def unhexDigit (b : Byte) : Option Nat :=
  if 48 ≤ b ∧ b ≤ 57 then some (b.toNat - 48)
  else if 65 ≤ b ∧ b ≤ 70 then some (b.toNat - 55)
  else none

/-- The byte written in hexadecimal at place `p`. -/
def hexAt (text : List Byte) (p : Nat) : Option Byte := do
  let hi ← unhexDigit (← text[p]?)
  let lo ← unhexDigit (← text[p + 1]?)
  return UInt8.ofNat (16 * hi + lo)

/-- Where byte `i` is written: a newline and the rows before, the offset, the bytes before. -/
def hexPlace (i : Nat) : Nat := 1 + 76 * (i / 16) + (9 + 3 * (i % 16) + i % 16 / 8)

/-- The bytes in the hexadecimal columns, up to the first place where there is none. -/
def readDump (text : List Byte) : List Byte :=
  let bytes := (List.range text.length).map fun i => hexAt text (hexPlace i)
  (bytes.takeWhile Option.isSome).reduceOption

theorem unhexDigit_hexDigit {d : Nat} (h : d < 16) : unhexDigit (hexDigit d) = some d := by
  interval_cases d <;> rfl

theorem hexAt_hexPair (pre post : List Byte) (b : Byte) :
    hexAt (pre ++ (hexPair b ++ post)) pre.length = some b := by
  have hlt := b.toNat_lt
  have hhi : (pre ++ (hexPair b ++ post))[pre.length]? = some (hexDigit (b.toNat / 16)) := by
    rw [List.getElem?_append_right (Nat.le_refl _), Nat.sub_self]
    rfl
  have hlo : (pre ++ (hexPair b ++ post))[pre.length + 1]? = some (hexDigit (b.toNat % 16)) := by
    rw [List.getElem?_append_right (Nat.le_add_right _ 1), Nat.add_sub_cancel_left]
    rfl
  have hvalue : UInt8.ofNat (16 * (b.toNat / 16) + b.toNat % 16) = b := by
    rw [Nat.div_add_mod, UInt8.ofNat_toNat]
  have hdigit₁ := unhexDigit_hexDigit (show b.toNat / 16 < 16 by omega)
  have hdigit₂ := unhexDigit_hexDigit (show b.toNat % 16 < 16 by omega)
  rw [hexAt, hhi, hlo]
  simp only [Option.bind_eq_bind, Option.bind_some, hdigit₁, hdigit₂, hvalue, Option.pure_def]

theorem dumpRows_add (buffer : List Byte) (r r' : Nat) :
    ∃ rest, (dumpRows buffer (r + r')).flatten = (dumpRows buffer r).flatten ++ rest := by
  induction r' with
  | zero => exact ⟨[], by simp⟩
  | succ r' ih =>
    obtain ⟨rest, hrest⟩ := ih
    refine ⟨rest ++ rowText (r + r') (rowOf buffer (r + r')), ?_⟩
    rw [← Nat.add_assoc, dumpRows_succ, hrest, List.append_assoc]

/-- The columns of the bytes before stand before. -/
theorem hexColumns_append (l l' : List Byte) :
    ∃ rest, hexColumns (l ++ l') = hexColumns l ++ rest := by
  induction l' using List.reverseRecOn with
  | nil => exact ⟨[], by simp⟩
  | append_singleton l' b ih =>
    obtain ⟨rest, hrest⟩ := ih
    rw [← List.append_assoc, hexColumns_concat, hrest, List.append_assoc]
    exact ⟨_, rfl⟩

/-- A row that has bytes begins with its offset and its columns. -/
theorem rowText_eq (k : Nat) (hne : row ≠ []) :
    ∃ rest, rowText k row = rowHead (16 * k) ++ (hexColumns row ++ rest) := by
  rw [rowText, if_neg hne, List.append_assoc, List.append_assoc]
  exact ⟨_, rfl⟩

/-- Byte `i` is written behind what the rows show before it. -/
theorem dumpText_eq (h : buffer[i]? = some b) :
    ∃ post, dumpText buffer = (10 :: shown buffer i) ++ (hexPair b ++ post) := by
  obtain ⟨hi, rfl⟩ := List.getElem?_eq_some_iff.mp h
  have hcount : rowCount buffer.length = i / 16 + 1 + (rowCount buffer.length - (i / 16 + 1)) := by
    unfold rowCount
    omega
  obtain ⟨rows, hrows⟩ := dumpRows_add buffer (i / 16 + 1) (rowCount buffer.length - (i / 16 + 1))
  have hrow : ∃ after, rowOf buffer (i / 16) = rowUpTo buffer i ++ [buffer[i]] ++ after := by
    rw [← take_row_succ h, rowOf]
    have hle : i % 16 + 1 ≤ 16 := Nat.mod_lt i (by decide)
    have hsplit := List.take_append_drop (i % 16 + 1) ((buffer.drop (16 * (i / 16))).take 16)
    rw [List.take_take, min_eq_left hle] at hsplit
    exact ⟨_, hsplit.symm⟩
  obtain ⟨after, hafter⟩ := hrow
  obtain ⟨columns, hcolumns⟩ := hexColumns_append (rowUpTo buffer i ++ [buffer[i]]) after
  have hne : rowUpTo buffer i ++ [buffer[i]] ++ after ≠ [] := by simp
  obtain ⟨tail, htail⟩ := rowText_eq (i / 16) hne
  rw [dumpText, hcount, hrows, dumpRows_succ, hafter, htail, hcolumns, hexColumns_concat, shown]
  simp only [List.append_assoc, List.cons_append]
  exact ⟨_, rfl⟩

theorem length_shown (hi : i ≤ buffer.length) (hhead : 16 * (i / 16) < 10000) :
    (10 :: shown buffer i).length = hexPlace i := by
  have hrows : (dumpRows buffer (i / 16)).flatten.length = 76 * (i / 16) :=
    length_dumpRows (by omega) (by omega)
  have hpad := length_paddedDecimal_of_lt hhead
  rw [hexPlace, shown, List.length_cons, List.length_append, hrows, List.length_append, rowHead,
    length_hexColumns, length_rowUpTo hi]
  simp only [List.length_append, List.length_cons, List.length_nil, hpad]
  omega

theorem hexAt_hexPlace (hlen : buffer.length ≤ 10000) (h : buffer[i]? = some b) :
    hexAt (dumpText buffer) (hexPlace i) = some b := by
  obtain ⟨hi, -⟩ := List.getElem?_eq_some_iff.mp h
  obtain ⟨post, hpost⟩ := dumpText_eq h
  rw [hpost, ← length_shown (Nat.le_of_lt hi) (by omega)]
  exact hexAt_hexPair _ post b

theorem hexAt_eq_none {text : List Byte} {p : Nat} (h : ∀ c ∈ text[p]?, unhexDigit c = none) :
    hexAt text p = none := by
  rw [hexAt]
  cases htext : text[p]? with
  | none => rfl
  | some c => simp [h c htext]

/-- A row that is not full goes on with spaces. -/
theorem dumpText_eq_partial (hrow : buffer.length % 16 ≠ 0) :
    ∃ post, dumpText buffer = (10 :: shown buffer buffer.length) ++ (32 :: post) := by
  have hcount : rowCount buffer.length = buffer.length / 16 + 1 := by
    unfold rowCount
    omega
  have hlast : rowOf buffer (buffer.length / 16) = rowUpTo buffer buffer.length := by
    rw [rowOf, rowUpTo, List.take_of_length_le, List.take_of_length_le]
    · rw [List.length_drop]
      omega
    · rw [List.length_drop]
      omega
  have hlength := length_rowUpTo (Nat.le_refl buffer.length)
  have hne : rowUpTo buffer buffer.length ≠ [] := by
    intro hnil
    rw [hnil] at hlength
    exact hrow hlength.symm
  have hspaces : ∃ m, 50 - (hexColumns (rowUpTo buffer buffer.length)).length = m + 1 := by
    refine ⟨49 - (hexColumns (rowUpTo buffer buffer.length)).length, ?_⟩
    rw [length_hexColumns, hlength]
    omega
  obtain ⟨m, hm⟩ := hspaces
  rw [dumpText, hcount, dumpRows_succ, hlast, rowText, if_neg hne, hm, List.replicate_succ, shown]
  simp only [List.append_assoc, List.cons_append]
  exact ⟨_, rfl⟩

/-- Behind the last byte there are spaces, or the text is at its end. -/
theorem hexAt_length (hlen : buffer.length ≤ 10000) :
    hexAt (dumpText buffer) (hexPlace buffer.length) = none := by
  apply hexAt_eq_none
  intro c hc
  rcases Nat.eq_zero_or_pos buffer.length with hzero | hpos
  · obtain rfl := List.eq_nil_of_length_eq_zero hzero
    have hend : (dumpText [])[hexPlace 0]? = some 10 := rfl
    rw [List.length_nil, hend] at hc
    cases hc
    rfl
  · by_cases hrow : buffer.length % 16 = 0
    · have hcount : rowCount buffer.length = buffer.length / 16 := by
        unfold rowCount
        omega
      have hlength : (dumpText buffer).length = 76 * (buffer.length / 16) + 2 := by
        rw [dumpText, List.length_append, List.length_cons, hcount,
          length_dumpRows (by omega) (by omega), List.length_singleton]
      rw [List.getElem?_eq_none] at hc
      · cases hc
      · rw [hlength, hexPlace]
        omega
    · obtain ⟨post, hpost⟩ := dumpText_eq_partial hrow
      rw [hpost, ← length_shown (Nat.le_refl _) (by omega),
        List.getElem?_append_right (Nat.le_refl _), Nat.sub_self] at hc
      cases hc
      rfl

/-- A sequence is read up to its end. -/
theorem reduceOption_takeWhile {f : Nat → Option Byte} {l : List Byte} {n : Nat} (hn : l.length < n)
    (hsome : ∀ i (h : i < l.length), f i = some l[i]) (hnone : f l.length = none) :
    (((List.range n).map f).takeWhile Option.isSome).reduceOption = l := by
  have hrange : (List.range l.length).map f = l.map some := by
    apply List.ext_getElem
    · simp
    · intro i h₁ h₂
      rw [List.getElem_map, List.getElem_range, List.getElem_map]
      exact hsome i (by simpa using h₂)
  obtain ⟨m, rfl⟩ := Nat.exists_eq_add_of_lt hn
  have hall : ∀ o ∈ l.map some, o.isSome = true := by
    intro o ho
    obtain ⟨b, -, rfl⟩ := List.mem_map.mp ho
    rfl
  rw [Nat.add_assoc, List.range_add, List.map_append, hrange, List.takeWhile_append_of_pos hall,
    Nat.add_comm m 1, List.range_add]
  show List.filterMap id _ = l
  simp [hnone]

theorem length_lt_length_dumpText (buffer : List Byte) (hlen : buffer.length ≤ 10000) :
    buffer.length < (dumpText buffer).length := by
  rcases Nat.eq_zero_or_pos buffer.length with hzero | hpos
  · rw [hzero, dumpText, List.length_append, List.length_cons]
    omega
  · have hlt : buffer.length - 1 < buffer.length := Nat.sub_lt hpos Nat.one_pos
    obtain ⟨post, hpost⟩ := dumpText_eq (List.getElem?_eq_getElem hlt)
    rw [hpost, List.length_append, length_shown (Nat.le_of_lt hlt) (by omega), hexPlace]
    omega

/-- The bytes can be read back from the hexadecimal columns. -/
theorem readDump_dumpText (hlen : buffer.length ≤ 10000) : readDump (dumpText buffer) = buffer :=
  reduceOption_takeWhile (length_lt_length_dumpText buffer hlen)
    (fun _ h => hexAt_hexPlace hlen (List.getElem?_eq_getElem h)) (hexAt_length hlen)

/-! ## The layout of a row -/

/-- `text` is row `k` of these bytes: two spaces and the offset in four digits, the bytes in order
as two hexadecimal digits each, and from column 59 on the characters. -/
structure IsRow (k : Nat) (bytes text : List Byte) : Prop where
  margin : text.take 2 = [32, 32]
  offset : (text.drop 2).take 4 =
    [16 * k / 1000, 16 * k / 100 % 10, 16 * k / 10 % 10, 16 * k % 10].map fun d =>
      UInt8.ofNat (48 + d)
  hex : ∀ j (h : j < bytes.length), (text.drop (9 + 3 * j + j / 8)).take 2 = hexPair bytes[j]
  ascii : bytes ≠ [] → text.drop 59 = bytes.map printable ++ [10]

theorem isRow_rowText (hk : 16 * k < 10000) (hle : row.length ≤ 16) :
    IsRow k row (rowText k row) := by
  have hpad := paddedDecimal_of_lt hk
  have hhead : (rowHead (16 * k)).length = 9 := by
    rw [rowHead, hpad]
    rfl
  refine ⟨?_, ?_, ?_, ?_⟩
  · rw [rowText, rowHead]
    rfl
  · rw [rowText, rowHead, hpad]
    rfl
  · intro j hj
    have hne : row ≠ [] := List.ne_nil_of_length_pos (Nat.zero_lt_of_lt hj)
    obtain ⟨rest, hrest⟩ := rowText_eq k hne
    have hsplit : row = row.take j ++ [row[j]] ++ row.drop (j + 1) := by
      rw [← List.take_succ_eq_append_getElem hj, List.take_append_drop]
    obtain ⟨columns, hcolumns⟩ := hexColumns_append (row.take j ++ [row[j]]) (row.drop (j + 1))
    rw [← hsplit, hexColumns_concat] at hcolumns
    have hbefore : (rowHead (16 * k) ++ hexColumns (row.take j)).length = 9 + 3 * j + j / 8 := by
      rw [List.length_append, hhead, length_hexColumns, List.length_take,
        Nat.min_eq_left (Nat.le_of_lt hj)]
      omega
    rw [hrest, hcolumns, ← hbefore]
    simp only [List.append_assoc]
    rw [← List.append_assoc (rowHead (16 * k)), List.drop_left]
    rfl
  · intro hne
    have hcolumns := length_hexColumns row
    have hbefore : (rowHead (16 * k) ++ hexColumns row ++
        List.replicate (50 - (hexColumns row).length) 32).length = 59 := by
      rw [List.length_append, List.length_append, hhead, List.length_replicate]
      omega
    have htext : rowText k row = rowHead (16 * k) ++ hexColumns row ++
        List.replicate (50 - (hexColumns row).length) 32 ++ (row.map printable ++ [10]) := by
      rw [rowText, if_neg hne]
      simp only [List.append_assoc]
    rw [htext, ← hbefore, List.drop_left]

/-- **The layout of a dump**: behind a newline, one row for each sixteen bytes begun and at least
one, each with its offset, its bytes and its characters in their columns. -/
theorem hexdump_layout (ascii : Vector Byte 16) (hlen : buffer.length ≤ 10000) :
    written (hexdump ascii [] buffer) =
        some (10 :: (dumpRows buffer (rowCount buffer.length)).flatten ++ [10]) ∧
      (dumpRows buffer (rowCount buffer.length)).length = max 1 ((buffer.length + 15) / 16) ∧
      (∀ k text, (dumpRows buffer (rowCount buffer.length))[k]? = some text →
        IsRow k ((buffer.drop (16 * k)).take 16) text) ∧
      readDump (10 :: (dumpRows buffer (rowCount buffer.length)).flatten ++ [10]) = buffer := by
  refine ⟨written_hexdump ascii (by omega), ?_, ?_, readDump_dumpText hlen⟩
  · rw [dumpRows, List.length_map, List.length_range, rowCount]
  · intro k text htext
    rw [dumpRows, List.getElem?_map, Option.map_eq_some_iff] at htext
    obtain ⟨k', hk', rfl⟩ := htext
    obtain ⟨hlt, rfl⟩ := List.getElem?_eq_some_iff.mp hk'
    rw [List.length_range, rowCount] at hlt
    rw [List.getElem_range]
    apply isRow_rowText
    · omega
    · rw [List.length_take]
      exact Nat.min_le_left 16 _

/-- Two rows, the last one partial. -/
theorem hexdump_layout_two_rows :
    (dumpRows (List.replicate 20 65) 2).length = 2 ∧
      readDump (dumpText (List.replicate 20 65)) = List.replicate 20 65 := by
  obtain ⟨-, hcount, -, hread⟩ :=
    @hexdump_layout (List.replicate 20 65) (Vector.replicate 16 0) (by simp)
  exact ⟨hcount, hread⟩

end

end LibIpc.Zig

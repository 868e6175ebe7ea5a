import LibIpc.C.Addressing
import LibIpc.Lib.TextBuffer
import LibIpc.Zig.Hexdump

/-!
# Hexadecimal rows (`print_hexa`)

The bytes are printed in rows of sixteen, each behind a header. A row is put together in a buffer
and printed when the next one begins; the last one is printed behind the loop, but only where the
number of bytes is no multiple of sixteen. So a last row that is full is lost: `losesNothing_iff`.
-/

namespace LibIpc.C

open Lib
open Zig (rowOf rowUpTo)

/-! ## Formats -/

/-- The digits of a number, most significant first. -/
def digits (base n : Nat) : List Byte := (Nat.toDigits base n).map Char.toUInt8

/-- `%ld` of a `size_t`, which is read as a `long`. -/
def formatLong (n : Nat) : List Byte :=
  if n % 2 ^ 64 < 2 ^ 63 then digits 10 (n % 2 ^ 64) else 45 :: digits 10 (2 ^ 64 - n % 2 ^ 64)

/-- `%2ld`. -/
def formatLong₂ (n : Nat) : List Byte := List.leftpad 2 32 (formatLong n)

/-- `%2x` and a space. -/
def hexaByte (b : Byte) : List Byte := List.leftpad 2 32 (digits 16 b.toNat) ++ [32]

/-- `\033[32m[%2ld/%2ld]\033[00m \033[36m%s\033[00m (%ld) `. -/
def rowHeader (rowPrefix : CString) (size linenum : Nat) : List Byte :=
  [27, 91, 51, 50, 109, 91] ++ formatLong₂ (linenum + 1) ++ [47] ++ formatLong₂ (size / 16 + 1) ++
    [93, 27, 91, 48, 48, 109, 32, 27, 91, 51, 54, 109] ++ rowPrefix.1 ++
    [27, 91, 48, 48, 109, 32, 40] ++ formatLong size ++ [41, 32]

/-! ## `print_hexa` -/

/-- The buffer with `cur`, the number of the next row, and what is printed so far. -/
structure HexaState where
  buffer : TextBuffer := .cleared bufsiz
  linenum : Nat := 0
  printed : List Byte := []

def HexaState.snprintf (s : HexaState) (text : List Byte) : Option HexaState :=
  (s.buffer.snprintf text).map fun buffer => { s with buffer }

def HexaState.header (rowPrefix : CString) (size : Nat) (s : HexaState) : Option HexaState :=
  (s.snprintf (rowHeader rowPrefix size s.linenum)).map fun s => { s with linenum := s.linenum + 1 }

/-- `printf ("%s", buffer)`. -/
def HexaState.printf (s : HexaState) : Option HexaState :=
  s.buffer.string.map fun line => { s with printed := s.printed ++ line }

/-- What comes before byte `i`. -/
def beforeByte (rowPrefix : CString) (size i : Nat) (s : HexaState) : Option HexaState :=
  if i = 0 then s.header rowPrefix size
  else if i % 16 = 0 then do
    let s ← s.printf
    { s with buffer := .cleared bufsiz }.header rowPrefix size
  else if i % 4 = 0 then s.snprintf [32, 32, 32]
  else some s

/-- The first rounds of the loop. -/
def hexaLoop (rowPrefix : CString) (payload : List Byte) (size : Nat) : Nat → Option HexaState
  | 0 => some {}
  | i + 1 => do
    let s ← hexaLoop rowPrefix payload size i
    let s ← beforeByte rowPrefix size i s
    s.snprintf (hexaByte (← payload[i]?))

/-- `print_hexa`: what is printed; `none` when the payload is read behind its end, or when nothing is
defined for the buffer. -/
def printHexa (rowPrefix : CString) (payload : Option (List Byte)) (size : Nat) :
    Option (List Byte) :=
  match payload with
  | none => some []
  | some payload => do
    let s ← hexaLoop rowPrefix payload size size
    let s ← if size % 16 ≠ 0 then s.printf else some s
    return s.printed

/-! ## Rows that lose nothing -/

/-- The bytes to print. A null pointer has none. -/
def bytesOf (payload : Option (List Byte)) (size : Nat) : List Byte := (payload.getD []).take size

/-- Where byte `j` of a row stands behind the header: three characters for each byte before, and
three more before each fourth. -/
def bytePlace (j : Nat) : Nat := 3 * j + 3 * (j / 4)

/-- The length of that many bytes. -/
def columnsLength (n : Nat) : Nat := 3 * n + 3 * ((n - 1) / 4)

/-- The text is row `k` of the dump: the header, these bytes at their places, and nothing else. -/
structure IsHexaRow (rowPrefix : CString) (size k : Nat) (row text : List Byte) : Prop where
  header : rowHeader rowPrefix size k <+: text
  bytes : ∀ j b, row[j]? = some b →
    hexaByte b <+: text.drop ((rowHeader rowPrefix size k).length + bytePlace j)
  length : text.length = (rowHeader rowPrefix size k).length + columnsLength row.length

/-- Each row fits in the buffer, with the end of the string. -/
def RowsFit (rowPrefix : CString) (size : Nat) : Prop :=
  ∀ k, 16 * k < size →
    (rowHeader rowPrefix size k).length + columnsLength (min 16 (size - 16 * k)) < bufsiz

/-- The rows that are printed show the bytes, sixteen each: row `k` can be read in one way only, as
the bytes from `16 * k` on. -/
def LosesNothing (rowPrefix : CString) (payload : Option (List Byte)) (size : Nat) : Prop :=
  ∃ rows : List (List Byte), printHexa rowPrefix payload size = some rows.flatten ∧
    rows.length = ((bytesOf payload size).length + 15) / 16 ∧
    ∀ k text, rows[k]? = some text → ∀ row,
      IsHexaRow rowPrefix size k row text ↔ row = rowOf (bytesOf payload size) k

/-! ## The text of the rows -/

/-- What stands before byte `j` of a row. -/
def gap (j : Nat) : List Byte := if j ≠ 0 ∧ j % 4 = 0 then [32, 32, 32] else []

def hexaColumns (row : List Byte) : List Byte := row.zipIdx.flatMap fun p => gap p.2 ++ hexaByte p.1

def hexaRow (rowPrefix : CString) (size k : Nat) (row : List Byte) : List Byte :=
  rowHeader rowPrefix size k ++ hexaColumns row

/-- The first `r` rows. -/
def hexaRows (rowPrefix : CString) (size : Nat) (bytes : List Byte) (r : Nat) : List (List Byte) :=
  (List.range r).map fun k => hexaRow rowPrefix size k (rowOf bytes k)

section
variable {rowPrefix : CString} {bytes row text : List Byte} {b : Byte} {i j k size : Nat}

theorem hexaColumns_concat (row : List Byte) (b : Byte) :
    hexaColumns (row ++ [b]) = hexaColumns row ++ gap row.length ++ hexaByte b := by
  simp [hexaColumns, List.zipIdx_append]

theorem hexaRow_concat (k : Nat) (row : List Byte) (b : Byte) :
    hexaRow rowPrefix size k (row ++ [b]) =
      hexaRow rowPrefix size k row ++ gap row.length ++ hexaByte b := by
  simp only [hexaRow, hexaColumns_concat, List.append_assoc]

theorem flatten_hexaRows_succ (bytes : List Byte) (r : Nat) :
    (hexaRows rowPrefix size bytes (r + 1)).flatten =
      (hexaRows rowPrefix size bytes r).flatten ++ hexaRow rowPrefix size r (rowOf bytes r) := by
  simp [hexaRows, List.range_succ]

/-! ## The characters of a byte -/

/-- A hexadecimal digit. -/
def hexaDigit (d : Nat) : Byte := d.digitChar.toUInt8

theorem hexaByte_eq (b : Byte) :
    hexaByte b =
      [if b.toNat / 16 = 0 then 32 else hexaDigit (b.toNat / 16), hexaDigit (b.toNat % 16),
        32] := by
  have hlt := b.toNat_lt
  have hdigits := @Nat.toDigits_eq_if 16 b.toNat (by norm_num)
  rw [hexaByte, digits, hdigits]
  split
  · rename_i hsmall
    rw [if_pos (by omega), Nat.mod_eq_of_lt hsmall]
    rfl
  · rename_i hlarge
    rw [Nat.toDigits_of_lt_base (by omega), if_neg (by omega)]
    rfl

theorem length_hexaByte (b : Byte) : (hexaByte b).length = 3 := by
  rw [hexaByte_eq]
  rfl

theorem hexaDigit_inj {d e : Nat} (hd : d < 16) (he : e < 16) (h : hexaDigit d = hexaDigit e) :
    d = e := by
  have hall : ∀ d e : Fin 16, hexaDigit d = hexaDigit e → d = e := by decide
  exact Fin.mk.inj_iff.mp (hall ⟨d, hd⟩ ⟨e, he⟩ h)

/-- A digit is a character, and no space. -/
theorem hexaDigit_ne {d : Nat} (hd : d < 16) : hexaDigit d ≠ 0 ∧ hexaDigit d ≠ 32 := by
  have hall : ∀ d : Fin 16, hexaDigit d ≠ 0 ∧ hexaDigit d ≠ 32 := by decide
  exact hall ⟨d, hd⟩

theorem hexaByte_inj {b b' : Byte} (h : hexaByte b = hexaByte b') : b = b' := by
  have hlt := b.toNat_lt
  have hlt' := b'.toNat_lt
  have hne := (@hexaDigit_ne (b.toNat / 16) (by omega)).2
  have hne' := (@hexaDigit_ne (b'.toNat / 16) (by omega)).2
  rw [hexaByte_eq, hexaByte_eq] at h
  obtain ⟨hhi, htail⟩ := List.cons_eq_cons.mp h
  have hlo := hexaDigit_inj (Nat.mod_lt _ (by norm_num)) (Nat.mod_lt _ (by norm_num))
    (List.cons_eq_cons.mp htail).1
  have hdiv : b.toNat / 16 = b'.toNat / 16 := by
    split at hhi
    · split at hhi
      · omega
      · exact absurd hhi.symm hne'
    · split at hhi
      · exact absurd hhi hne
      · exact hexaDigit_inj (by omega) (by omega) hhi
  apply UInt8.toNat_inj.mp
  omega

theorem not_mem_hexaByte (b : Byte) : 0 ∉ hexaByte b := by
  have hlt := b.toNat_lt
  have hhi := (@hexaDigit_ne (b.toNat / 16) (by omega)).1
  have hlo := (@hexaDigit_ne (b.toNat % 16) (by omega)).1
  rw [hexaByte_eq]
  simp only [List.mem_cons, List.not_mem_nil, or_false, not_or]
  refine ⟨?_, hlo.symm, by decide⟩
  split
  · decide
  · exact hhi.symm

/-! ## The header has no zero byte -/

theorem not_mem_digits (n : Nat) : 0 ∉ digits 10 n := by
  intro hmem
  obtain ⟨c, hc, hzero⟩ := List.mem_map.mp hmem
  have hdigit := Nat.isDigit_of_mem_toDigits (by norm_num) (by norm_num) hc
  rw [Char.isDigit, Bool.and_eq_true, decide_eq_true_eq, decide_eq_true_eq] at hdigit
  have hlow : 48 ≤ c.toNat := UInt32.le_iff_toNat_le.mp hdigit.1
  have hhigh : c.toNat ≤ 57 := UInt32.le_iff_toNat_le.mp hdigit.2
  have hmod : c.toNat % 256 = 0 :=
    (UInt32.toNat_toUInt8 c.val).symm.trans (congrArg UInt8.toNat hzero)
  omega

theorem not_mem_formatLong (n : Nat) : 0 ∉ formatLong n := by
  unfold formatLong
  split
  · exact not_mem_digits _
  · rw [List.mem_cons, not_or]
    exact ⟨by decide, not_mem_digits _⟩

theorem not_mem_formatLong₂ (n : Nat) : 0 ∉ formatLong₂ n := by
  rw [formatLong₂, List.leftpad, List.mem_append, not_or]
  refine ⟨?_, not_mem_formatLong n⟩
  intro hmem
  exact absurd (List.eq_of_mem_replicate hmem) (by decide)

theorem not_mem_rowHeader (rowPrefix : CString) (size k : Nat) :
    0 ∉ rowHeader rowPrefix size k := by
  simp [rowHeader, not_mem_formatLong₂, not_mem_formatLong, rowPrefix.2]

theorem not_mem_hexaColumns (row : List Byte) : 0 ∉ hexaColumns row := by
  induction row using List.reverseRecOn with
  | nil => exact List.not_mem_nil
  | append_singleton row b ih =>
    have hgap : 0 ∉ gap row.length := by
      unfold gap
      split
      · decide
      · exact List.not_mem_nil
    rw [hexaColumns_concat, List.mem_append, List.mem_append]
    simp only [ih, hgap, not_mem_hexaByte, or_self, not_false_eq_true]

theorem not_mem_hexaRow (k : Nat) (row : List Byte) : 0 ∉ hexaRow rowPrefix size k row := by
  rw [hexaRow, List.mem_append, not_or]
  exact ⟨not_mem_rowHeader rowPrefix size k, not_mem_hexaColumns row⟩

/-! ## The places of the bytes -/

theorem columnsLength_gap (n : Nat) : columnsLength n + (gap n).length = bytePlace n := by
  unfold columnsLength gap bytePlace
  split
  · rw [List.length_cons, List.length_cons, List.length_singleton]
    omega
  · rw [List.length_nil]
    omega

theorem columnsLength_succ (n : Nat) : columnsLength (n + 1) = bytePlace n + 3 := by
  rw [columnsLength, bytePlace, Nat.add_sub_cancel]
  omega

theorem columnsLength_inj {m n : Nat} (h : columnsLength m = columnsLength n) : m = n := by
  unfold columnsLength at h
  omega

theorem columnsLength_le {m n : Nat} (h : m ≤ n) : columnsLength m ≤ columnsLength n := by
  unfold columnsLength
  omega

theorem length_hexaColumns (row : List Byte) :
    (hexaColumns row).length = columnsLength row.length := by
  induction row using List.reverseRecOn with
  | nil => rfl
  | append_singleton row b ih =>
    rw [hexaColumns_concat, List.length_append, List.length_append, ih, columnsLength_gap,
      length_hexaByte, List.length_append, List.length_singleton, columnsLength_succ]

theorem length_hexaRow (k : Nat) (row : List Byte) :
    (hexaRow rowPrefix size k row).length =
      (rowHeader rowPrefix size k).length + columnsLength row.length := by
  rw [hexaRow, List.length_append, length_hexaColumns]

/-- The columns of the bytes before stand before. -/
theorem hexaColumns_append (l l' : List Byte) : hexaColumns l <+: hexaColumns (l ++ l') := by
  induction l' using List.reverseRecOn with
  | nil => rw [List.append_nil]
  | append_singleton l' b ih =>
    rw [← List.append_assoc, hexaColumns_concat, List.append_assoc]
    exact ih.trans (List.prefix_append _ _)

/-- Byte `j` stands at its place. -/
theorem hexaByte_prefix_drop (h : row[j]? = some b) :
    hexaByte b <+: (hexaColumns row).drop (bytePlace j) := by
  obtain ⟨hj, rfl⟩ := List.getElem?_eq_some_iff.mp h
  have hlength : (row.take j).length = j := List.length_take_of_le (Nat.le_of_lt hj)
  have hplace : (hexaColumns (row.take j) ++ gap j).length = bytePlace j := by
    rw [List.length_append, length_hexaColumns, hlength, columnsLength_gap]
  obtain ⟨rest, hrest⟩ := hexaColumns_append (row.take (j + 1)) (row.drop (j + 1))
  rw [List.take_append_drop, ← List.take_concat_get' row j hj, hexaColumns_concat, hlength,
    List.append_assoc] at hrest
  rw [← hrest, ← hplace, List.drop_left]
  exact List.prefix_append _ _

theorem isHexaRow_hexaRow (k : Nat) (row : List Byte) :
    IsHexaRow rowPrefix size k row (hexaRow rowPrefix size k row) := by
  constructor
  · exact List.prefix_append _ _
  · intro j b h
    rw [hexaRow, ← List.drop_drop, List.drop_left]
    exact hexaByte_prefix_drop h
  · exact length_hexaRow k row

/-- A text is a row of one list of bytes at most. -/
theorem IsHexaRow.unique {row' : List Byte} (h : IsHexaRow rowPrefix size k row text)
    (h' : IsHexaRow rowPrefix size k row' text) : row = row' := by
  have hlength : row.length = row'.length :=
    columnsLength_inj (Nat.add_left_cancel (h.length.symm.trans h'.length))
  apply List.ext_getElem hlength
  intro j hj hj'
  have hbyte := h.bytes j row[j] (List.getElem?_eq_getElem hj)
  have hbyte' := h'.bytes j row'[j] (List.getElem?_eq_getElem hj')
  have hsame : (hexaByte row[j]).length = (hexaByte row'[j]).length := by
    rw [length_hexaByte, length_hexaByte]
  have hbegins := List.prefix_of_prefix_length_le hbyte hbyte' (Nat.le_of_eq hsame)
  exact hexaByte_inj (hbegins.eq_of_length hsame)

theorem isHexaRow_hexaRow_iff (k : Nat) (row row' : List Byte) :
    IsHexaRow rowPrefix size k row' (hexaRow rowPrefix size k row) ↔ row' = row := by
  constructor
  · intro h
    exact h.unique (isHexaRow_hexaRow k row)
  · rintro rfl
    exact isHexaRow_hexaRow k row'

/-! ## The loop -/

/-- The rows before row `k` are printed, and the buffer holds this part of row `k`. -/
structure AtRow (rowPrefix : CString) (size : Nat) (bytes : List Byte) (k : Nat) (line : List Byte)
    (s : HexaState) : Prop where
  buffer : s.buffer.Holds bufsiz line
  linenum : s.linenum = k + 1
  printed : s.printed = (hexaRows rowPrefix size bytes k).flatten

/-- What comes before byte `i` is in the buffer, or printed. -/
def ReadyFor (rowPrefix : CString) (size : Nat) (bytes : List Byte) (i : Nat) (s : HexaState) :
    Prop :=
  AtRow rowPrefix size bytes (i / 16)
    (hexaRow rowPrefix size (i / 16) (rowUpTo bytes i) ++ gap (i % 16)) s

/-- So is byte `i`, which is `b`. -/
def WrittenUpTo (rowPrefix : CString) (size : Nat) (bytes : List Byte) (i : Nat) (b : Byte)
    (s : HexaState) : Prop :=
  AtRow rowPrefix size bytes (i / 16) (hexaRow rowPrefix size (i / 16) (rowUpTo bytes i ++ [b])) s

theorem bufsiz_le : bufsiz ≤ 2 ^ 31 := by
  unfold bufsiz
  norm_num

theorem cleared_holds : (TextBuffer.cleared bufsiz).Holds bufsiz [] :=
  TextBuffer.holds_cleared (show 0 < bufsiz from Nat.succ_pos 8191)

variable {s : HexaState} {line : List Byte}

theorem AtRow.snprintf (h : AtRow rowPrefix size bytes k line s)
    (hfits : (line ++ text).length < bufsiz) :
    ∃ s', s.snprintf text = some s' ∧ AtRow rowPrefix size bytes k (line ++ text) s' := by
  obtain ⟨buffer, hbuffer, hholds⟩ := h.buffer.snprintf hfits bufsiz_le
  rw [HexaState.snprintf, hbuffer]
  exact ⟨{ s with buffer }, rfl, hholds, h.linenum, h.printed⟩

/-- A row begins in an empty buffer. -/
theorem header_atRow (hbuffer : s.buffer.Holds bufsiz []) (hlinenum : s.linenum = k)
    (hprinted : s.printed = (hexaRows rowPrefix size bytes k).flatten)
    (hfits : (rowHeader rowPrefix size k).length < bufsiz) :
    ∃ s', s.header rowPrefix size = some s' ∧
      AtRow rowPrefix size bytes k (hexaRow rowPrefix size k []) s' := by
  rw [← List.nil_append (rowHeader rowPrefix size k)] at hfits
  obtain ⟨buffer, hwritten, hholds⟩ := hbuffer.snprintf hfits bufsiz_le
  rw [HexaState.header, HexaState.snprintf, hlinenum, hwritten]
  refine ⟨{ s with buffer, linenum := k + 1 }, rfl, ?_, rfl, hprinted⟩
  rwa [hexaRow, show hexaColumns [] = [] from rfl, List.append_nil]

/-- The row that the buffer holds is printed. -/
theorem AtRow.printf (h : AtRow rowPrefix size bytes k (hexaRow rowPrefix size k row) s)
    (hrow : rowOf bytes k = row) :
    s.printf =
      some { s with printed := (hexaRows rowPrefix size bytes (k + 1)).flatten } := by
  rw [HexaState.printf, h.buffer.string (not_mem_hexaRow k row), Option.map_some, h.printed,
    flatten_hexaRows_succ, hrow]

/-- The row of byte `i` fits up to this byte. -/
theorem RowsFit.upTo (hfit : RowsFit rowPrefix size) (hi : i < size) :
    (rowHeader rowPrefix size (i / 16)).length + columnsLength (i % 16 + 1) < bufsiz := by
  have hle : columnsLength (i % 16 + 1) ≤ columnsLength (min 16 (size - 16 * (i / 16))) :=
    columnsLength_le (by omega)
  exact Nat.lt_of_le_of_lt (Nat.add_le_add_left hle _) (hfit (i / 16) (by omega))

/-- The gap and the header before byte `i` fit. -/
theorem RowsFit.gap (hfit : RowsFit rowPrefix size) (hi : i < size) :
    (rowHeader rowPrefix size (i / 16)).length + bytePlace (i % 16) < bufsiz := by
  have hupTo := hfit.upTo hi
  rw [columnsLength_succ] at hupTo
  omega

/-- Byte `i` is written behind the bytes before. -/
theorem ReadyFor.byte (h : ReadyFor rowPrefix size bytes i s) (hfit : RowsFit rowPrefix size)
    (hi : i < size) (hlength : i ≤ bytes.length) (b : Byte) :
    ∃ s', s.snprintf (hexaByte b) = some s' ∧ WrittenUpTo rowPrefix size bytes i b s' := by
  unfold WrittenUpTo
  rw [hexaRow_concat, Zig.length_rowUpTo hlength]
  apply h.snprintf
  have hupTo := hfit.upTo hi
  rw [columnsLength_succ, ← columnsLength_gap] at hupTo
  rw [List.length_append, List.length_append, length_hexaRow, Zig.length_rowUpTo hlength,
    length_hexaByte]
  omega

/-- Before its first byte a row is its header. -/
theorem rowStart (k : Nat) (bytes : List Byte) (hrow : i % 16 = 0) :
    hexaRow rowPrefix size k (rowUpTo bytes i) ++ gap (i % 16) = hexaRow rowPrefix size k [] := by
  rw [rowUpTo, hrow, List.take_zero, show gap 0 = [] from rfl, List.append_nil]

/-- The first row begins. -/
theorem beforeByte_zero (bytes : List Byte) (hfit : RowsFit rowPrefix size) (hsize : 0 < size) :
    ∃ s, beforeByte rowPrefix size 0 {} = some s ∧ ReadyFor rowPrefix size bytes 0 s := by
  unfold ReadyFor
  have hheader := Nat.lt_of_le_of_lt (Nat.le_add_right _ _) (hfit.gap hsize)
  rw [rowStart _ bytes (Nat.zero_mod 16), beforeByte, if_pos rfl]
  exact header_atRow cleared_holds rfl rfl hheader

/-- What comes before the next byte: another row, a gap or nothing. -/
theorem WrittenUpTo.before (h : WrittenUpTo rowPrefix size bytes i b s) (hb : bytes[i]? = some b)
    (hfit : RowsFit rowPrefix size) (hi : i + 1 < size) (hlength : i + 1 ≤ bytes.length) :
    ∃ s', beforeByte rowPrefix size (i + 1) s = some s' ∧
      ReadyFor rowPrefix size bytes (i + 1) s' := by
  unfold ReadyFor
  unfold WrittenUpTo at h
  have hgap := hfit.gap hi
  rw [beforeByte, if_neg (Nat.succ_ne_zero i)]
  by_cases hrow : (i + 1) % 16 = 0
  · -- The row is full.
    have hdiv : (i + 1) / 16 = i / 16 + 1 := by omega
    have hheader := Nat.lt_of_le_of_lt (Nat.le_add_right _ _) hgap
    rw [hdiv] at hheader
    rw [rowStart _ bytes hrow, if_pos hrow, h.printf (Zig.rowOf_eq hb (.inl hrow)), hdiv,
      Option.bind_eq_bind, Option.bind_some]
    apply header_atRow
    · exact cleared_holds
    · exact h.linenum
    · rfl
    · exact hheader
  · have hdiv : (i + 1) / 16 = i / 16 := by omega
    rw [if_neg hrow, hdiv, Zig.rowUpTo_succ hb hrow]
    by_cases hgroup : (i + 1) % 4 = 0
    · have hspaces : gap ((i + 1) % 16) = [32, 32, 32] := if_pos ⟨hrow, by omega⟩
      rw [if_pos hgroup, ← hspaces]
      apply h.snprintf
      rw [List.length_append, length_hexaRow, ← Zig.rowUpTo_succ hb hrow,
        Zig.length_rowUpTo hlength, Nat.add_assoc, columnsLength_gap, ← hdiv]
      exact hgap
    · have hspaces : gap ((i + 1) % 16) = [] := if_neg (by omega)
      rw [if_neg hgroup, hspaces, List.append_nil]
      exact ⟨s, rfl, h⟩

/-- One round: what comes before the byte, and the byte. -/
theorem hexaLoop_succ {payload : List Byte} {s₀ : HexaState}
    (hloop : hexaLoop rowPrefix payload size i = some s₀)
    (hbefore : beforeByte rowPrefix size i s₀ = some s) (hb : payload[i]? = some b) :
    hexaLoop rowPrefix payload size (i + 1) = s.snprintf (hexaByte b) := by
  rw [hexaLoop, hloop]
  show (beforeByte rowPrefix size i s₀).bind _ = _
  rw [hbefore, hb]
  rfl

/-- The loop writes byte after byte. -/
theorem hexaLoop_writtenUpTo {payload : List Byte} (hpayload : size ≤ payload.length)
    (hfit : RowsFit rowPrefix size) (hi : i < size) (hb : (payload.take size)[i]? = some b) :
    ∃ s, hexaLoop rowPrefix payload size (i + 1) = some s ∧
      WrittenUpTo rowPrefix size (payload.take size) i b s := by
  have hlength : (payload.take size).length = size := List.length_take_of_le hpayload
  have hget : payload[i]? = some b := by rwa [List.getElem?_take_of_lt hi] at hb
  induction i generalizing b with
  | zero =>
    obtain ⟨s, hbefore, hready⟩ := beforeByte_zero (payload.take size) hfit hi
    obtain ⟨s', hbyte, hwritten⟩ := hready.byte hfit hi (Nat.zero_le _) b
    exact ⟨s', (hexaLoop_succ rfl hbefore hget).trans hbyte, hwritten⟩
  | succ i ih =>
    have hlast : (payload.take size)[i]? = some (payload.take size)[i] :=
      List.getElem?_eq_getElem (by omega)
    have hlast' : payload[i]? = some (payload.take size)[i] := by
      rwa [List.getElem?_take_of_lt (by omega)] at hlast
    obtain ⟨s₀, hloop, hwritten₀⟩ := ih (by omega) hlast hlast'
    obtain ⟨s, hbefore, hready⟩ := hwritten₀.before hlast hfit hi (by omega)
    obtain ⟨s', hbyte, hwritten⟩ := hready.byte hfit hi (by omega) b
    exact ⟨s', (hexaLoop_succ hloop hbefore hget).trans hbyte, hwritten⟩

/-! ## Rows that fit -/

theorem length_digits_le {n k : Nat} (hk : 0 < k) (h : n < 10 ^ k) : (digits 10 n).length ≤ k := by
  rw [digits, List.length_map, Nat.length_toDigits_le_iff (by norm_num) hk]
  exact h

theorem length_formatLong_le (n : Nat) : (formatLong n).length ≤ 20 := by
  unfold formatLong
  split
  · exact length_digits_le (by norm_num) (by omega)
  · rw [List.length_cons]
    exact Nat.succ_le_succ (length_digits_le (by norm_num) (by omega))

theorem length_formatLong₂_le (n : Nat) : (formatLong₂ n).length ≤ 20 := by
  rw [formatLong₂, List.length_leftpad]
  exact max_le (by norm_num) (length_formatLong_le n)

/-- Whatever the size, each row fits behind such a prefix. -/
theorem rowsFit_of_short (h : rowPrefix.1.length + 145 < bufsiz) (size : Nat) :
    RowsFit rowPrefix size := by
  intro k _
  have hlinenum := length_formatLong₂_le (k + 1)
  have hrows := length_formatLong₂_le (size / 16 + 1)
  have hsize := length_formatLong_le size
  have hcolumns : columnsLength (min 16 (size - 16 * k)) ≤ columnsLength 16 :=
    columnsLength_le (min_le_left _ _)
  rw [show columnsLength 16 = 57 from rfl] at hcolumns
  simp only [rowHeader, List.length_append, List.length_cons, List.length_nil]
  omega

/-! ## What is printed -/

/-- The number of rows that are printed: not the last one, when it is full. -/
def rowsPrinted (size : Nat) : Nat := if size % 16 = 0 then size / 16 - 1 else size / 16 + 1

theorem printHexa_eq {payload : List Byte} (hpayload : size ≤ payload.length)
    (hfit : RowsFit rowPrefix size) :
    printHexa rowPrefix (some payload) size =
      some (hexaRows rowPrefix size (payload.take size) (rowsPrinted size)).flatten := by
  cases size with
  | zero => rfl
  | succ n =>
    have hlength : (payload.take (n + 1)).length = n + 1 := List.length_take_of_le hpayload
    have hb : (payload.take (n + 1))[n]? = some (payload.take (n + 1))[n] :=
      List.getElem?_eq_getElem (by omega)
    obtain ⟨s, hloop, hrow⟩ := hexaLoop_writtenUpTo hpayload hfit (Nat.lt_succ_self n) hb
    rw [printHexa, hloop, Option.bind_eq_bind, Option.bind_some, rowsPrinted]
    by_cases hfull : (n + 1) % 16 = 0
    · -- The row of the last byte stays in the buffer.
      have hcount : (n + 1) / 16 - 1 = n / 16 := by omega
      rw [if_neg (not_not.mpr hfull), if_pos hfull, hcount, ← hrow.printed]
      rfl
    · have hcount : (n + 1) / 16 = n / 16 := by omega
      rw [if_pos hfull, if_neg hfull, hcount,
        hrow.printf (Zig.rowOf_eq hb (.inr hlength.symm))]
      rfl

theorem length_rowHeader_pos (rowPrefix : CString) (size k : Nat) :
    0 < (rowHeader rowPrefix size k).length := by
  simp [rowHeader]

theorem strictMono_length_hexaRows (rowPrefix : CString) (size : Nat) (bytes : List Byte) :
    StrictMono fun r => (hexaRows rowPrefix size bytes r).flatten.length := by
  apply strictMono_nat_of_lt_succ
  intro r
  have hheader := length_rowHeader_pos rowPrefix size r
  rw [flatten_hexaRows_succ, List.length_append, length_hexaRow]
  omega

/-- Rows that show the bytes are as long as those of the dump. -/
theorem length_flatten_of_show {rows : List (List Byte)}
    (hrows : ∀ k text, rows[k]? = some text → ∀ row,
      IsHexaRow rowPrefix size k row text ↔ row = rowOf bytes k) :
    rows.flatten.length = (hexaRows rowPrefix size bytes rows.length).flatten.length := by
  have hlengths : rows.map List.length =
      (hexaRows rowPrefix size bytes rows.length).map List.length := by
    apply List.ext_getElem
    · simp [hexaRows]
    · intro k hk hk'
      rw [List.length_map] at hk
      have hrow := (hrows k rows[k] (List.getElem?_eq_getElem hk) (rowOf bytes k)).mpr rfl
      simp [hexaRows, hrow.length, length_hexaRow]
  rw [List.length_flatten, List.length_flatten, hlengths]

/-- Nothing is lost where each row is printed. -/
theorem losesNothing_some_iff {payload : List Byte} (hpayload : size ≤ payload.length)
    (hfit : RowsFit rowPrefix size) :
    LosesNothing rowPrefix (some payload) size ↔ rowsPrinted size = (size + 15) / 16 := by
  have hbytes : bytesOf (some payload) size = payload.take size := rfl
  have hlength : (payload.take size).length = size := List.length_take_of_le hpayload
  rw [LosesNothing, printHexa_eq hpayload hfit, hbytes, hlength]
  constructor
  · intro h
    obtain ⟨rows, htext, hcount, hrows⟩ := h
    have hsame := length_flatten_of_show hrows
    rw [← Option.some.inj htext, hcount] at hsame
    exact (strictMono_length_hexaRows rowPrefix size (payload.take size)).injective hsame
  · intro h
    refine ⟨_, rfl, ?_, ?_⟩
    · simp [hexaRows, h]
    · intro k text hk row
      obtain ⟨hk, rfl⟩ := List.getElem?_eq_some_iff.mp hk
      simp [hexaRows, isHexaRow_hexaRow_iff]

theorem rowsPrinted_eq_iff (size : Nat) :
    rowsPrinted size = (size + 15) / 16 ↔ size = 0 ∨ size % 16 ≠ 0 := by
  unfold rowsPrinted
  split
  · omega
  · omega

/-- **Nothing is lost** by `print_hexa` exactly where the last row is not full. -/
theorem losesNothing_iff {payload : Option (List Byte)}
    (hpayload : ∀ bytes ∈ payload, size ≤ bytes.length) (hfit : RowsFit rowPrefix size) :
    LosesNothing rowPrefix payload size ↔ payload = none ∨ size = 0 ∨ size % 16 ≠ 0 := by
  cases payload with
  | none =>
    simp [LosesNothing, printHexa, bytesOf]
  | some payload =>
    rw [losesNothing_some_iff (hpayload payload rfl) hfit, rowsPrinted_eq_iff]
    simp

end

theorem not_mem_msgRecv : (0 : Byte) ∉ [109, 115, 103, 32, 114, 101, 99, 118] := by decide

/-- `"msg recv"`. -/
def msgRecv : CString := ⟨[109, 115, 103, 32, 114, 101, 99, 118], not_mem_msgRecv⟩

theorem rowsFit_msgRecv (size : Nat) : RowsFit msgRecv size := by
  apply rowsFit_of_short
  show 8 + 145 < bufsiz
  unfold bufsiz
  norm_num

theorem losesNothing_seventeen_bytes :
    LosesNothing msgRecv (some (List.replicate 17 7)) 17 := by
  apply (losesNothing_iff _ (rowsFit_msgRecv 17)).mpr
  · exact .inr (.inr (by norm_num))
  · intro bytes hbytes
    obtain rfl := Option.some.inj hbytes
    exact Nat.le_of_eq List.length_replicate.symm

/-- Of sixteen bytes none is printed. -/
theorem not_losesNothing_sixteen_bytes :
    ¬ LosesNothing msgRecv (some (List.replicate 16 7)) 16 := by
  rw [losesNothing_some_iff (Nat.le_of_eq List.length_replicate.symm) (rowsFit_msgRecv 16),
    rowsPrinted_eq_iff]
  norm_num

end LibIpc.C

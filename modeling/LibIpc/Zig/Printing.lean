import LibIpc.Zig.Hexdump
import LibIpc.Zig.Message

/-!
# Printing a message (`util.print_message`)

`print_buffer` dumps into 4000 bytes and takes an error of the dump for impossible
(`catch unreachable`). `pongd` prints every message it receives, whose length the client chooses:
`printMessage_iff` says which headers and lengths the program survives.
-/

namespace LibIpc.Zig

open Lib

/-- `util.print_buffer`: the text that is logged; `none` where the program aborts, in `hexdump` or
at `catch unreachable`. -/
def printBuffer (ascii : Vector Byte 16) (header buffer : List Byte) : Option (List Byte) :=
  match runOutput (writeFixed 4000 ()) [] (hexdump ascii header buffer) with
  | none => none
  | some (.error _) => none
  | some (.ok text) => some text

/-- `util.print_message`. -/
def printMessage (ascii : Vector Byte 16) (header : List Byte) (m : Message) : Option (List Byte) :=
  printBuffer ascii header m.payload

/-! ## The header -/

/-- The headers that fit their line, with room to move them. -/
def HeaderFits (header : List Byte) : Prop := 2 ≤ header.length ∧ header.length ≤ 62

theorem headerLine_of_fits {header : List Byte} (h : HeaderFits header) :
    ∃ text, written (headerLine header) = some text ∧ text.length = 65 := by
  obtain ⟨hlow, hhigh⟩ := h
  have hhalf : subChecked (header.length / 2) 1 = some (header.length / 2 - 1) :=
    subChecked_of_le (by omega)
  have hoffset : subChecked (64 / 2) (header.length / 2 - 1) =
      some (32 - (header.length / 2 - 1)) := subChecked_of_le (by omega)
  have hroom : header.length ≤ 64 - (32 - (header.length / 2 - 1)) := by omega
  rw [headerLine, if_pos (by omega), hhalf]
  simp only [hoffset, if_pos hroom]
  refine ⟨_, rfl, ?_⟩
  simp only [List.length_append, List.length_replicate, List.length_cons, List.length_nil]
  omega

/-- Any other header stops the program before anything is written. -/
theorem headerLine_of_not_fits {header : List Byte} (hne : header ≠ []) (h : ¬ HeaderFits header) :
    headerLine header = [.panic] := by
  have hpos : 0 < header.length := List.length_pos_iff.mpr hne
  rw [headerLine, if_pos hpos]
  by_cases hone : header.length = 1
  · -- `header.len / 2` is zero.
    rw [hone]
    rfl
  · have hlong : 62 < header.length := by
      unfold HeaderFits at h
      omega
    have hhalf : subChecked (header.length / 2) 1 = some (header.length / 2 - 1) :=
      subChecked_of_le (by omega)
    rw [hhalf]
    by_cases hunder : header.length / 2 - 1 ≤ 32
    · have hoffset : subChecked (64 / 2) (header.length / 2 - 1) =
          some (32 - (header.length / 2 - 1)) := subChecked_of_le hunder
      have hroom : ¬ header.length ≤ 64 - (32 - (header.length / 2 - 1)) := by omega
      simp only [hoffset, if_neg hroom]
    · have hoffset : subChecked (64 / 2) (header.length / 2 - 1) = none := if_neg hunder
      simp only [hoffset]

/-! ## The length of the dump -/

section
variable {buffer header : List Byte}

theorem length_dumpText (hpos : 0 < buffer.length) :
    (dumpText buffer).length = 58 + (dumpRows buffer ((buffer.length - 1) / 16)).flatten.length +
      (paddedDecimal (16 * ((buffer.length - 1) / 16))).length + ((buffer.length - 1) % 16 + 1) := by
  have hcount : rowCount buffer.length = (buffer.length - 1) / 16 + 1 := by
    unfold rowCount
    omega
  have hrow : (rowOf buffer ((buffer.length - 1) / 16)).length = (buffer.length - 1) % 16 + 1 := by
    rw [length_rowOf]
    omega
  have hne : rowOf buffer ((buffer.length - 1) / 16) ≠ [] := by
    intro hnil
    rw [hnil] at hrow
    cases hrow
  rw [dumpText, hcount, dumpRows_succ, List.length_append, List.length_cons, List.length_append,
    length_rowText _ hne (by rw [hrow]; omega), hrow, List.length_singleton]
  omega

/-- Sixty characters for each row, and one for each byte: more where offsets need five digits. -/
theorem length_dumpText_ge (hpos : 0 < buffer.length) :
    62 + 76 * ((buffer.length - 1) / 16) + ((buffer.length - 1) % 16 + 1) ≤
      (dumpText buffer).length := by
  have hrows : 76 * ((buffer.length - 1) / 16) ≤
      (dumpRows buffer ((buffer.length - 1) / 16)).flatten.length := length_dumpRows_ge (by omega)
  have hpad := length_paddedDecimal_ge (16 * ((buffer.length - 1) / 16))
  rw [length_dumpText hpos]
  omega

theorem length_dumpText_of_le (hpos : 0 < buffer.length) (hlen : buffer.length ≤ 10000) :
    (dumpText buffer).length =
      62 + 76 * ((buffer.length - 1) / 16) + ((buffer.length - 1) % 16 + 1) := by
  have hrows : (dumpRows buffer ((buffer.length - 1) / 16)).flatten.length =
      76 * ((buffer.length - 1) / 16) := length_dumpRows (by omega) (by omega)
  have hpad : (paddedDecimal (16 * ((buffer.length - 1) / 16))).length = 4 :=
    length_paddedDecimal_of_lt (by omega)
  rw [length_dumpText hpos, hrows, hpad]
  omega

/-- A room that takes `k` full rows, and no further byte. -/
theorem length_dumpText_le_iff_rows {room k : Nat} (hpos : 0 < k) (hoffset : k ≤ 625)
    (hfull : 76 * k + 2 ≤ room) (hmore : room < 76 * k + 63) :
    (dumpText buffer).length ≤ room ↔ buffer.length ≤ 16 * k := by
  rcases Nat.eq_zero_or_pos buffer.length with hzero | hbytes
  · obtain rfl := List.eq_nil_of_length_eq_zero hzero
    have hshort : (dumpText []).length = 11 := rfl
    rw [hshort, List.length_nil]
    exact iff_of_true (by omega) (Nat.zero_le _)
  · constructor
    · intro hfits
      have hge := length_dumpText_ge hbytes
      omega
    · intro hle
      rw [length_dumpText_of_le hbytes (by omega)]
      omega

/-- The dump of 52 full rows is the longest that fits. -/
theorem length_dumpText_le_iff : (dumpText buffer).length ≤ 4000 ↔ buffer.length ≤ 832 :=
  length_dumpText_le_iff_rows (k := 52) (by norm_num) (by norm_num) (by norm_num) (by norm_num)

/-- Behind a header, that of 51 rows is. -/
theorem length_dumpText_header_le_iff :
    65 + (dumpText buffer).length ≤ 4000 ↔ buffer.length ≤ 816 := by
  have hrows : (dumpText buffer).length ≤ 3935 ↔ buffer.length ≤ 16 * 51 :=
    length_dumpText_le_iff_rows (by norm_num) (by norm_num) (by norm_num) (by norm_num)
  omega

/-! ## Printing -/

theorem hexdump_header (ascii : Vector Byte 16) (header buffer : List Byte) :
    hexdump ascii header buffer = headerLine header ++ hexdump ascii [] buffer := rfl

theorem printBuffer_of_written {ascii : Vector Byte 16} {text : List Byte}
    (h : written (hexdump ascii header buffer) = some text) :
    printBuffer ascii header buffer ≠ none ↔ text.length ≤ 4000 := by
  rw [printBuffer, runOutput_fixed h (Nat.zero_le _), List.length_nil, Nat.zero_add]
  by_cases hfits : text.length ≤ 4000
  · simp [hfits]
  · simp [hfits]

theorem printBuffer_iff (ascii : Vector Byte 16) (hlen : buffer.length < 2 ^ 32) :
    printBuffer ascii header buffer ≠ none ↔
      (header = [] ∧ buffer.length ≤ 832) ∨ (HeaderFits header ∧ buffer.length ≤ 816) := by
  have hdump := written_hexdump ascii hlen
  by_cases hempty : header = []
  · subst hempty
    have hnofit : ¬ HeaderFits [] := by simp [HeaderFits]
    rw [printBuffer_of_written hdump, length_dumpText_le_iff]
    tauto
  · by_cases hfits : HeaderFits header
    · obtain ⟨line, hline, hlength⟩ := headerLine_of_fits hfits
      have hwritten : written (hexdump ascii header buffer) = some (line ++ dumpText buffer) := by
        rw [hexdump_header, written_append hline, hdump, Option.map_some]
      rw [printBuffer_of_written hwritten, List.length_append, hlength,
        length_dumpText_header_le_iff]
      tauto
    · have hpanic : printBuffer ascii header buffer = none := by
        rw [printBuffer, hexdump_header, headerLine_of_not_fits hempty hfits]
        rfl
      rw [hpanic]
      tauto

/-- **Printing a message**: of the messages that can be received, `print_message` survives those of
at most 832 bytes without a header, and of at most 816 bytes behind a header of 2 to 62 bytes. -/
theorem printMessage_iff (ascii : Vector Byte 16) (header : List Byte) {m : Message}
    (hlen : m.payload.length ≤ ipcMaxMessageSize - 4) :
    printMessage ascii header m ≠ none ↔
      (header = [] ∧ m.payload.length ≤ 832) ∨
        ((2 ≤ header.length ∧ header.length ≤ 62) ∧ m.payload.length ≤ 816) := by
  rw [ipcMaxMessageSize_eq] at hlen
  exact printBuffer_iff ascii (by omega)

/-- `RECEIVED MESSAGE`. -/
def receivedMessage : List Byte :=
  [82, 69, 67, 69, 73, 86, 69, 68, 32, 77, 69, 83, 83, 65, 71, 69]

/-- A message that fills 51 rows is printed. -/
theorem printMessage_full_rows :
    printMessage (Vector.replicate 16 0) receivedMessage
      { fd := 5, payload := List.replicate 816 65 } ≠ none := by
  have hlen : (List.replicate 816 (65 : Byte)).length = 816 := List.length_replicate
  rw [printMessage_iff _ _ (by rw [hlen, ipcMaxMessageSize_eq]; norm_num)]
  right
  exact ⟨by decide, Nat.le_of_eq hlen⟩

/-- One byte more, and the program that prints it aborts. -/
theorem printMessage_one_byte_more :
    (List.replicate 817 (65 : Byte)).length ≤ ipcMaxMessageSize - 4 ∧
      printMessage (Vector.replicate 16 0) receivedMessage
        { fd := 5, payload := List.replicate 817 65 } = none := by
  have hlen : (List.replicate 817 (65 : Byte)).length = 817 := List.length_replicate
  constructor
  · rw [hlen, ipcMaxMessageSize_eq]
    norm_num
  · have hiff : printBuffer (Vector.replicate 16 0) receivedMessage (List.replicate 817 65) ≠ none ↔
        _ := printBuffer_iff _ (by rw [hlen]; norm_num)
    by_contra hprints
    rcases hiff.mp hprints with ⟨hempty, -⟩ | ⟨-, hle⟩
    · cases hempty
    · rw [hlen] at hle
      norm_num at hle

end

end LibIpc.Zig

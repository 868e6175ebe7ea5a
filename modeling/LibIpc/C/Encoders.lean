import LibIpc.C.Message
import LibIpc.Lib.Checked

/-!
# The two encoders (`ipc_message_raw_serialize`, `ipc_message_format_write`)

The frame is written twice in `message.c`: by `ipc_message_raw_serialize`, with an index that runs
along in 32 bits, for the programs that take frames apart themselves, and by
`ipc_message_format_write`, at constant places, for the library. Both are modelled on the buffer
they write to; a write outside it is `none`. `encoders_agree` says that they leave the same frame.
-/

namespace LibIpc.C

open Lib

/-! ## The encoders -/

/-- The bytes `memcpy` takes from behind a pointer; from `NULL` there are none to take. -/
def sourceBytes (p : Option (List Byte)) (n : Nat) : Option (List Byte) :=
  if n ≤ (p.getD []).length then some ((p.getD []).take n) else none

/-- `ipc_message_raw_serialize`: the buffer it leaves and what it returns. -/
def ipcMessageRawSerialize (buffer : List Byte) (type userType : Byte)
    (message : Option (List Byte)) (messageSize : Nat) : Option (List Byte × Nat) := do
  let msize := (6 + messageSize) % 2 ^ 32
  let buffer ← storeChecked buffer 0 [type]
  let index := 1
  let buffer ← storeChecked buffer index (be32 messageSize)
  let index := (index + 4) % 2 ^ 32
  let buffer ← storeChecked buffer index [userType]
  let index := (index + 1) % 2 ^ 32
  let bytes ← sourceBytes message messageSize
  let buffer ← storeChecked buffer index bytes
  return (buffer, msize)

/-- `ipc_message_format_write`: `*buf` and `*msize` after the call. `buf` is `*buf` before, `none`
where the function allocates the buffer. -/
def ipcMessageFormatWriteInto (m : IpcMessage) (buf : Option (List Byte)) :
    Option (Except IpcErrorCode (List Byte × Nat)) :=
  if m.length > ipcMaxMessageSize then
    some (.error .messageFormatWriteMessageLength)
  else do
    -- `IPC_HEADER_SIZE + m->length` has the width of `m->length`.
    let size := (ipcHeaderSize + m.length) % 2 ^ 32
    let buffer := buf.getD (List.replicate size 0)
    let buffer ← storeChecked buffer 0 [m.type]
    let buffer ← storeChecked buffer 1 (be32 m.length)
    let buffer ← storeChecked buffer (1 + 4) [m.userType]
    let buffer ←
      if m.payload ≠ none ∧ m.length > 0 then do
        let bytes ← sourceBytes m.payload m.length
        storeChecked buffer ipcHeaderSize bytes
      else some buffer
    return .ok (buffer, size)

/-- The message has this type, user type and payload; an empty payload may be `NULL`. -/
structure IpcMessage.Carries (m : IpcMessage) (type userType : Byte) (payload : List Byte) :
    Prop where
  type : m.type = type
  userType : m.userType = userType
  length : m.length = payload.length
  payload : m.payload = some payload ∨ (payload = [] ∧ m.payload = none)

/-- The frame of a payload. -/
def frameOf (type userType : Byte) (payload : List Byte) : List Byte :=
  type :: (be32 payload.length ++ userType :: payload)

/-! ## What they write -/

section
variable {type userType : Byte} {payload : List Byte} {m : IpcMessage}

theorem length_frameOf (type userType : Byte) (payload : List Byte) :
    (frameOf type userType payload).length = ipcHeaderSize + payload.length := by
  simp [frameOf, ipcHeaderSize]
  omega

theorem sourceBytes_eq {p : Option (List Byte)} (h : p = some payload ∨ (payload = [] ∧ p = none)) :
    sourceBytes p payload.length = some payload := by
  rcases h with rfl | ⟨rfl, rfl⟩
  · rw [sourceBytes, Option.getD_some, if_pos (Nat.le_refl _), List.take_length]
  · rfl

/-- The three stores that both encoders begin with. -/
theorem storeHeader_eq (type userType : Byte) (length : Nat) {buffer : List Byte}
    (h : ipcHeaderSize ≤ buffer.length) :
    ∃ b₁ b₂, storeChecked buffer 0 [type] = some b₁ ∧
      storeChecked b₁ 1 (be32 length) = some b₂ ∧
      storeChecked b₂ 5 [userType] =
        some (type :: (be32 length ++ [userType]) ++ buffer.drop ipcHeaderSize) := by
  rw [ipcHeaderSize_eq] at h ⊢
  have hroom₁ : [type].length ≤ buffer.length := by
    rw [List.length_singleton]
    omega
  have hroom₂ : (be32 length).length ≤ (buffer.drop 1).length := by
    rw [length_be32, List.length_drop]
    omega
  have hroom₃ : [userType].length ≤ (buffer.drop 5).length := by
    rw [List.length_singleton, List.length_drop]
    omega
  have htype := storeChecked_append [] hroom₁
  have hlength := storeChecked_append [type] hroom₂
  have huser := storeChecked_append (type :: be32 length) hroom₃
  rw [length_be32, List.drop_drop] at hlength
  rw [List.length_singleton, List.drop_drop] at huser
  exact ⟨_, _, htype, hlength, huser⟩

/-- The payload behind the header. -/
theorem storePayload_eq {buffer : List Byte} (type userType : Byte)
    (h : ipcHeaderSize + payload.length ≤ buffer.length) :
    storeChecked (type :: (be32 payload.length ++ [userType]) ++ buffer.drop ipcHeaderSize) 6
        payload =
      some (frameOf type userType payload ++ buffer.drop (ipcHeaderSize + payload.length)) := by
  rw [ipcHeaderSize_eq] at h ⊢
  have hroom : payload.length ≤ (buffer.drop 6).length := by
    rw [List.length_drop]
    omega
  have hstore := storeChecked_append (type :: (be32 payload.length ++ [userType])) hroom
  rw [List.drop_drop] at hstore
  simpa [frameOf] using hstore

theorem ipcMessageRawSerialize_eq {buffer : List Byte} {message : Option (List Byte)}
    (hmessage : message = some payload ∨ (payload = [] ∧ message = none))
    (hn : payload.length ≤ ipcMaxMessageSize)
    (h : ipcHeaderSize + payload.length ≤ buffer.length) :
    ipcMessageRawSerialize buffer type userType message payload.length =
      some (frameOf type userType payload ++ buffer.drop (ipcHeaderSize + payload.length),
        ipcHeaderSize + payload.length) := by
  obtain ⟨b₁, b₂, htype, hlength, huser⟩ :=
    storeHeader_eq type userType payload.length (Nat.le_trans (Nat.le_add_right _ _) h)
  have hpayload := storePayload_eq type userType h
  have hsize : (6 + payload.length) % 2 ^ 32 = ipcHeaderSize + payload.length := by
    rw [ipcMaxMessageSize_eq] at hn
    rw [ipcHeaderSize_eq]
    omega
  have hindex₁ : (1 + 4) % 2 ^ 32 = 5 := rfl
  have hindex₂ : (5 + 1) % 2 ^ 32 = 6 := rfl
  simp only [ipcMessageRawSerialize, Option.bind_eq_bind, Option.pure_def, htype, hlength,
    Option.bind_some, hindex₁, huser, hindex₂, sourceBytes_eq hmessage, hpayload, hsize]

theorem ipcMessageFormatWriteInto_eq {buf : Option (List Byte)}
    (hm : m.Carries type userType payload) (hn : payload.length ≤ ipcMaxMessageSize)
    (h : ∀ buffer ∈ buf, ipcHeaderSize + payload.length ≤ buffer.length) :
    ∃ rest, ipcMessageFormatWriteInto m buf =
        some (.ok (frameOf type userType payload ++ rest, ipcHeaderSize + payload.length)) ∧
      ∀ buffer ∈ buf, rest = buffer.drop (ipcHeaderSize + payload.length) := by
  have hsize : (ipcHeaderSize + payload.length) % 2 ^ 32 = ipcHeaderSize + payload.length := by
    rw [ipcMaxMessageSize_eq] at hn
    rw [ipcHeaderSize_eq]
    omega
  have huserIndex : 1 + 4 = 5 := rfl
  obtain ⟨buffer, hbuffer⟩ :
      ∃ buffer, buf.getD (List.replicate (ipcHeaderSize + payload.length) 0) = buffer := ⟨_, rfl⟩
  have hfits : ipcHeaderSize + payload.length ≤ buffer.length := by
    rw [← hbuffer]
    cases buf with
    | none => rw [Option.getD_none, List.length_replicate]
    | some given => exact h given rfl
  obtain ⟨b₁, b₂, htype, hlength, huser⟩ :=
    storeHeader_eq type userType payload.length (Nat.le_trans (Nat.le_add_right _ _) hfits)
  have hpayload := storePayload_eq type userType hfits
  refine ⟨buffer.drop (ipcHeaderSize + payload.length), ?_, ?_⟩
  · rw [ipcMessageFormatWriteInto, if_neg (by rw [hm.length]; omega)]
    simp only [hm.type, hm.userType, hm.length, hsize, hbuffer, Option.bind_eq_bind,
      Option.pure_def, htype, hlength, Option.bind_some, huserIndex, huser]
    by_cases hempty : payload = []
    · -- Nothing is copied.
      subst hempty
      rw [if_neg (by simp)]
      simp [frameOf]
    · have hsome : m.payload = some payload := by
        rcases hm.payload with hp | ⟨hp, -⟩
        · exact hp
        · exact absurd hp hempty
      have hpos : 0 < payload.length := List.length_pos_iff.mpr hempty
      rw [if_pos ⟨by rw [hsome]; simp, hpos⟩, sourceBytes_eq hm.payload, Option.bind_some,
        ipcHeaderSize_eq]
      rw [ipcHeaderSize_eq] at hpayload
      rw [hpayload]
      rfl
  · intro given hgiven
    cases buf with
    | none => cases hgiven
    | some b =>
      cases hgiven
      rw [← hbuffer, Option.getD_some]

/-- **The two encoders**: from any buffers that can hold the frame, given or allocated, they leave
the same bytes and report the same size. -/
theorem encoders_agree {buffer : List Byte} {buf : Option (List Byte)}
    (hm : m.Carries type userType payload) (hn : payload.length ≤ ipcMaxMessageSize)
    (hbuffer : ipcHeaderSize + payload.length ≤ buffer.length)
    (hbuf : ∀ given ∈ buf, ipcHeaderSize + payload.length ≤ given.length) :
    ∃ raw formatted size,
      ipcMessageRawSerialize buffer type userType m.payload payload.length = some (raw, size) ∧
      ipcMessageFormatWriteInto m buf = some (.ok (formatted, size)) ∧
      size = ipcHeaderSize + payload.length ∧ raw.take size = formatted.take size ∧
      raw.take size = frameOf type userType payload ∧ raw.drop size = buffer.drop size ∧
      ∀ given ∈ buf, formatted.drop size = given.drop size := by
  obtain ⟨rest, hformat, hrest⟩ := ipcMessageFormatWriteInto_eq hm hn hbuf
  have hframe := length_frameOf type userType payload
  refine ⟨_, _, _, ipcMessageRawSerialize_eq hm.payload hn hbuffer, hformat, rfl, ?_, ?_, ?_, ?_⟩
  · rw [← hframe, List.take_left, List.take_left]
  · rw [← hframe, List.take_left]
  · rw [← hframe, List.drop_left]
  · intro given hgiven
    rw [← hframe, List.drop_left, hrest given hgiven, hframe]

/-- A frame of two bytes, in a buffer that is longer and in one that is allocated. -/
theorem encoders_agree_allocated :
    ∃ raw formatted size,
      ipcMessageRawSerialize (List.replicate 9 7) 2 42 (some [104, 105]) 2 = some (raw, size) ∧
      ipcMessageFormatWriteInto (.ofPayload 2 42 5 [104, 105]) none = some (.ok (formatted, size)) ∧
      raw.take size = formatted.take size := by
  have hm : (IpcMessage.ofPayload 2 42 5 [104, 105]).Carries 2 42 [104, 105] :=
    ⟨rfl, rfl, rfl, .inl rfl⟩
  obtain ⟨raw, formatted, size, hraw, hformat, -, heq, -⟩ :=
    @encoders_agree 2 42 [104, 105] _ (List.replicate 9 7) none hm (by decide) (by decide) (by simp)
  exact ⟨raw, formatted, size, hraw, hformat, heq⟩

end

/-! ## The encoder of the other modules -/

/-- In the buffer it allocates, `ipc_message_format_write` leaves the frame of the message, also of
one whose payload is missing. -/
theorem ipcMessageFormatWriteInto_none (m : IpcMessage) :
    ipcMessageFormatWriteInto m none =
      some ((ipcMessageFormatWrite m).map fun frame => (frame, frame.length)) := by
  unfold ipcMessageFormatWriteInto ipcMessageFormatWrite
  by_cases hlong : m.length > ipcMaxMessageSize
  · rw [if_pos hlong, if_pos hlong]
    rfl
  · have hsize : (ipcHeaderSize + m.length) % 2 ^ 32 = ipcHeaderSize + m.length := by
      rw [ipcMaxMessageSize_eq] at hlong
      rw [ipcHeaderSize_eq]
      omega
    have huserIndex : 1 + 4 = 5 := rfl
    have hfits : ipcHeaderSize + m.content.length ≤
        (List.replicate (ipcHeaderSize + m.length) (0 : Byte)).length := by
      rw [IpcMessage.length_content, List.length_replicate]
    obtain ⟨b₁, b₂, htype, hlength, huser⟩ :=
      storeHeader_eq m.type m.userType m.length (Nat.le_trans (Nat.le_add_right _ _) hfits)
    have hpayload := storePayload_eq m.type m.userType hfits
    have hrest : (List.replicate (ipcHeaderSize + m.length) (0 : Byte)).drop
        (ipcHeaderSize + m.length) = [] := by
      rw [List.drop_replicate, Nat.sub_self, List.replicate_zero]
    rw [IpcMessage.length_content, hrest, List.append_nil] at hpayload
    rw [List.drop_replicate, Nat.add_sub_cancel_left] at huser hpayload
    rw [if_neg hlong, if_neg hlong]
    simp only [hsize, Option.getD_none, Option.bind_eq_bind, Option.pure_def, htype, hlength,
      Option.bind_some, huserIndex, huser, Except.map, IpcMessage.length_frame]
    have hframe : frameOf m.type m.userType m.content = m.frame := by
      rw [frameOf, IpcMessage.frame, IpcMessage.length_content]
    rw [hframe] at hpayload
    cases hp : m.payload with
    | none =>
      -- The zeros of the new buffer are the payload.
      rw [if_neg (by simp)]
      have hcontent : m.content = List.replicate m.length 0 := by
        rw [IpcMessage.content, hp, Option.getD_none]
      simp [IpcMessage.frame, hcontent]
    | some p =>
      have hcontent : m.content = p := by rw [IpcMessage.content, hp, Option.getD_some]
      have hlen : p.length = m.length := m.payload_length p hp
      rw [hcontent] at hpayload
      by_cases hpos : m.length > 0
      · have hsource : sourceBytes (some p) m.length = some p :=
          hlen ▸ sourceBytes_eq (.inl rfl)
        rw [if_pos ⟨by simp, hpos⟩, hsource, Option.bind_some, ipcHeaderSize_eq, hpayload]
        rfl
      · have hzero : m.length = 0 := Nat.eq_zero_of_not_pos hpos
        rw [if_neg (by simp [hzero])]
        have hnil : p = [] := List.eq_nil_of_length_eq_zero (hlen.trans hzero)
        simp [IpcMessage.frame, hcontent, hnil, hzero]

end LibIpc.C

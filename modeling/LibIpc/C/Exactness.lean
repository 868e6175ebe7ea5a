import LibIpc.C.Framing

/-!
# What the codec accepts, and what a successful send means

`ipc_message_format_read` compares the announced length with the number of bytes, except for empty
messages: these are accepted whatever the number of bytes is. `ipc_write_fd` and `default_cb_out`
do not look at the result of `ipc_message_format_write`: a message it refuses is sent as no bytes at
all, which succeeds.
-/

namespace LibIpc.C

open Lib

/-! ## The decoder -/

/-- Only whole frames are accepted, and they are what the message is encoded as. -/
def AcceptsFrames (m : IpcMessage) (buf : List Byte) (msize : Nat) : Prop :=
  ((∃ m', ipcMessageFormatRead m buf msize = .ok m') ↔
      ipcHeaderSize ≤ msize ∧ msize ≤ ipcMaxMessageSize ∧ be32At buf 1 = msize - ipcHeaderSize) ∧
    ∀ m', ipcMessageFormatRead m buf msize = .ok m' →
      ipcMessageFormatWrite m' = .ok (slice buf 0 msize)

theorem ipcMessageFormatRead_eq_ok_iff {m m' : IpcMessage} {buf : List Byte} {msize : Nat} :
    ipcMessageFormatRead m buf msize = .ok m' ↔
      (msize ≤ ipcMaxMessageSize ∧ (be32At buf 1 = 0 ∨
        ipcHeaderSize ≤ msize ∧ be32At buf 1 = msize - ipcHeaderSize)) ∧ m' = m.ofBuffer buf := by
  -- The 64-bit subtraction.
  have hsub : msize ≤ ipcMaxMessageSize → be32At buf 1 ≤ ipcMaxMessageSize →
      (be32At buf 1 = (msize + 2 ^ 64 - ipcHeaderSize) % 2 ^ 64 ↔
        ipcHeaderSize ≤ msize ∧ be32At buf 1 = msize - ipcHeaderSize) := by
    intro hmsize hlength
    rw [ipcMaxMessageSize_eq] at *
    rw [ipcHeaderSize_eq]
    omega
  simp only [ipcMessageFormatRead]
  split
  · rename_i hlong
    exact iff_of_false (by simp) fun h => absurd h.1.1 (Nat.not_le.mpr hlong)
  · rename_i hmsize
    have hmsize' := Nat.not_lt.mp hmsize
    split
    · rename_i hlong
      refine iff_of_false (by simp) ?_
      rintro ⟨⟨-, hzero | ⟨-, hlength⟩⟩, -⟩
      · omega
      · rw [ipcHeaderSize_eq] at hlength
        omega
    · rename_i hlength
      have hframe := hsub hmsize' (Nat.not_lt.mp hlength)
      split
      · rename_i hrefused
        refine iff_of_false (by simp) ?_
        rintro ⟨⟨-, hzero | hwhole⟩, -⟩
        · exact hrefused.2 hzero
        · exact hrefused.1 (hframe.mpr hwhole)
      · rename_i haccepted
        rw [Except.ok.injEq]
        have hok : be32At buf 1 = 0 ∨
            ipcHeaderSize ≤ msize ∧ be32At buf 1 = msize - ipcHeaderSize := by
          by_contra hnot
          rw [not_or] at hnot
          exact haccepted ⟨fun heq => hnot.2 (hframe.mp heq), hnot.1⟩
        constructor
        · intro heq
          exact ⟨⟨hmsize', hok⟩, heq.symm⟩
        · rintro ⟨-, heq⟩
          exact heq.symm

theorem IpcMessage.content_ofBuffer (m : IpcMessage) (buf : List Byte) :
    (m.ofBuffer buf).content = slice buf ipcHeaderSize (be32At buf 1) := by
  -- Not by `rfl`: the kernel would unfold the big-endian word.
  have hpayload : (m.ofBuffer buf).payload = some (slice buf ipcHeaderSize (be32At buf 1)) := rfl
  rw [IpcMessage.content, hpayload, Option.getD_some]

/-- The frame of the message is the beginning of the buffer. -/
theorem IpcMessage.frame_ofBuffer (m : IpcMessage) (buf : List Byte) :
    (m.ofBuffer buf).frame = slice buf 0 (ipcHeaderSize + be32At buf 1) := by
  have hheader : slice buf 0 ipcHeaderSize =
      byteAt buf 0 :: (slice buf 1 4 ++ [byteAt buf 5]) := rfl
  have hlength : (m.ofBuffer buf).length = be32At buf 1 := rfl
  rw [slice_add, hheader, Nat.zero_add, ← be32_be32At, ← m.content_ofBuffer, ← hlength,
    List.cons_append, List.append_assoc]
  rfl

/-- **Decoder**: a buffer is accepted exactly when its length field is zero or that of a whole frame;
what is encoded again is the frame, or for an empty message its header. -/
theorem ipcMessageFormatRead_exact (m : IpcMessage) (buf : List Byte) (msize : Nat) :
    ((∃ m', ipcMessageFormatRead m buf msize = .ok m') ↔
        msize ≤ ipcMaxMessageSize ∧ (be32At buf 1 = 0 ∨
          ipcHeaderSize ≤ msize ∧ be32At buf 1 = msize - ipcHeaderSize)) ∧
      ∀ m', ipcMessageFormatRead m buf msize = .ok m' →
        ipcMessageFormatWrite m' =
          .ok (slice buf 0 (if be32At buf 1 = 0 then ipcHeaderSize else msize)) := by
  constructor
  · constructor
    · rintro ⟨m', hread⟩
      exact (ipcMessageFormatRead_eq_ok_iff.mp hread).1
    · intro haccepted
      exact ⟨_, ipcMessageFormatRead_eq_ok_iff.mpr ⟨haccepted, rfl⟩⟩
  · intro m' hread
    obtain ⟨⟨hmsize, hlength⟩, rfl⟩ := ipcMessageFormatRead_eq_ok_iff.mp hread
    have hfits : (m.ofBuffer buf).length ≤ ipcMaxMessageSize := by
      show be32At buf 1 ≤ ipcMaxMessageSize
      omega
    rw [ipcMessageFormatWrite_eq hfits, IpcMessage.frame_ofBuffer]
    congr 2
    split
    · rename_i hzero
      rw [hzero, Nat.add_zero]
    · rename_i hne
      obtain ⟨hheader, heq⟩ := hlength.resolve_left hne
      omega

/-- An empty message is accepted whatever the number of bytes is. -/
theorem ipcMessageFormatRead_zero (m : IpcMessage) {buf : List Byte} {msize : Nat}
    (hmsize : msize ≤ ipcMaxMessageSize) (hzero : be32At buf 1 = 0) :
    ∃ m', ipcMessageFormatRead m buf msize = .ok m' :=
  ⟨_, ipcMessageFormatRead_eq_ok_iff.mpr ⟨⟨hmsize, .inl hzero⟩, rfl⟩⟩

/-- A byte too many after an empty message, and a buffer that is no header at all. -/
theorem not_acceptsFrames_empty :
    ¬ AcceptsFrames default [1, 0, 0, 0, 0, 2, 9] 7 ∧ ¬ AcceptsFrames default [1] 1 := by
  constructor
  · intro h
    have hframe := h.1.mp (ipcMessageFormatRead_zero default (by decide) (by decide))
    exact absurd hframe.2.2 (by decide)
  · intro h
    have hframe := h.1.mp (ipcMessageFormatRead_zero default (by decide) (by decide))
    exact absurd hframe.1 (by decide)

/-! ## Sending -/

/-- `ipc_write_fd` and `default_cb_out` return, and they report success only when `send(2)` was
given the whole frame and took all of it. -/
def NoFalseSuccess (m : IpcMessage) (s : SendResult) : Prop :=
  (∃ e bs, ipcWriteFd m s = some (e, bs) ∧
    (e = .none → bs = m.frame ∧ s = .sent (ipcHeaderSize + m.length))) ∧
  ∃ r bs, defaultCbOut (some m) s = some (r, bs) ∧
    (r = .noError → bs = m.frame ∧ s = .sent (ipcHeaderSize + m.length))

/-- What both functions give to `send(2)`: nothing, when the encoder refuses the message. -/
def sentBytes (m : IpcMessage) : List Byte :=
  if m.length > ipcMaxMessageSize then [] else m.frame

theorem ipcWriteFd_eq_sentBytes (m : IpcMessage) (s : SendResult) :
    ipcWriteFd m s =
      if (sentBytes m).length > ipcMaxMessageSize then none
      else match usockSend s with
        | .error e => some (e, sentBytes m)
        | .ok n => some (if n ≠ (sentBytes m).length then .writeFdNotEnoughData else .none,
            sentBytes m) := by
  unfold ipcWriteFd ipcMessageFormatWrite sentBytes
  by_cases hlong : m.length > ipcMaxMessageSize
  · cases s <;> simp only [if_pos hlong, usockSend]
  · cases s <;> simp only [if_neg hlong, usockSend]

theorem defaultCbOut_eq_sentBytes (m : IpcMessage) (s : SendResult) :
    defaultCbOut (some m) s =
      if (sentBytes m).length > ipcMaxMessageSize then none
      else match usockSend s with
        | .error _ => some (.fdError, sentBytes m)
        | .ok n => some (if n ≠ (sentBytes m).length then .fdError else .noError,
            sentBytes m) := by
  unfold defaultCbOut ipcMessageFormatWrite sentBytes
  by_cases hlong : m.length > ipcMaxMessageSize
  · cases s <;> simp only [if_pos hlong, usockSend]
  · cases s <;> simp only [if_neg hlong, usockSend]

/-- When the bytes fit in the buffer, both copies report success when and only when `send(2)` takes
all it is given. -/
theorem send_success {m : IpcMessage} (h : (sentBytes m).length ≤ ipcMaxMessageSize)
    (s : SendResult) :
    (∃ e, ipcWriteFd m s = some (e, sentBytes m) ∧
      (e = .none ↔ s = .sent (sentBytes m).length)) ∧
    ∃ r, defaultCbOut (some m) s = some (r, sentBytes m) ∧
      (r = .noError ↔ s = .sent (sentBytes m).length) := by
  rw [ipcWriteFd_eq_sentBytes, defaultCbOut_eq_sentBytes, if_neg (Nat.not_lt.mpr h),
    if_neg (Nat.not_lt.mpr h)]
  cases s with
  | error => exact ⟨⟨_, rfl, by simp⟩, _, rfl, by simp⟩
  | sent n =>
    refine ⟨⟨_, rfl, ?_⟩, _, rfl, ?_⟩
    · simp
    · simp

/-- **Sending**: no send succeeds by mistake exactly when the payload leaves room for the header, or
the message is refused by the encoder and `send(2)` does not take the nothing it is given. -/
theorem noFalseSuccess_iff (m : IpcMessage) (s : SendResult) :
    NoFalseSuccess m s ↔
      m.length ≤ ipcMaxMessageSize - ipcHeaderSize ∨ m.length > ipcMaxMessageSize ∧ s ≠ .sent 0 := by
  by_cases hlong : m.length > ipcMaxMessageSize
  · -- The message is refused: no byte is given to `send(2)`.
    have hbytes : sentBytes m = [] := if_pos hlong
    have hframe : [] ≠ m.frame := nofun
    obtain ⟨⟨e, hwrite, he⟩, r, hout, hr⟩ := send_success (by rw [hbytes]; exact Nat.zero_le _) s
    rw [hbytes] at hwrite he hout hr
    constructor
    · rintro ⟨⟨e', bs, hwrite', he'⟩, -⟩
      obtain ⟨rfl, rfl⟩ := Prod.mk.inj (Option.some.inj (hwrite.symm.trans hwrite'))
      refine .inr ⟨hlong, ?_⟩
      intro hs
      exact hframe (he' (he.mpr hs)).1
    · rintro (hroom | ⟨-, hs⟩)
      · omega
      · exact ⟨⟨e, [], hwrite, fun h => absurd (he.mp h) hs⟩,
          r, [], hout, fun h => absurd (hr.mp h) hs⟩
  · have hbytes : sentBytes m = m.frame := if_neg hlong
    by_cases hroom : m.length ≤ ipcMaxMessageSize - ipcHeaderSize
    · refine iff_of_true ?_ (.inl hroom)
      obtain ⟨⟨e, hwrite, he⟩, r, hout, hr⟩ :=
        send_success (by rw [hbytes]; exact length_frame_le hroom) s
      rw [hbytes] at hwrite he hout hr
      rw [IpcMessage.length_frame] at he hr
      exact ⟨⟨e, _, hwrite, fun h => ⟨rfl, he.mp h⟩⟩, r, _, hout, fun h => ⟨rfl, hr.mp h⟩⟩
    · -- The frame overflows the buffer.
      refine iff_of_false ?_ (not_or.mpr ⟨hroom, fun h => hlong h.1⟩)
      rintro ⟨⟨e, bs, hwrite, -⟩, -⟩
      rw [ipcWriteFd_eq_none (Nat.not_lt.mp hlong) hroom] at hwrite
      cases hwrite

/-- A message one byte too long for the encoder is sent as nothing, and this succeeds. -/
theorem not_noFalseSuccess_too_long :
    ipcWriteFd (.ofLetters 1999995 (by decide)) (.sent 0) = some (.none, []) ∧
      ¬ NoFalseSuccess (.ofLetters 1999995 (by decide)) (.sent 0) := by
  have hlong : (IpcMessage.ofLetters 1999995 (by decide)).length > ipcMaxMessageSize := by
    rw [IpcMessage.length_ofLetters]
    decide
  have hbytes : sentBytes (.ofLetters 1999995 (by decide)) = [] := if_pos hlong
  obtain ⟨⟨e, hwrite, he⟩, -⟩ := send_success (by rw [hbytes]; exact Nat.zero_le _) (.sent 0)
  rw [hbytes] at hwrite he
  obtain rfl := he.mpr rfl
  refine ⟨hwrite, ?_⟩
  rintro ⟨⟨e', bs, hwrite', he'⟩, -⟩
  obtain ⟨rfl, rfl⟩ := Prod.mk.inj (Option.some.inj (hwrite.symm.trans hwrite'))
  cases (he' rfl).1

end LibIpc.C

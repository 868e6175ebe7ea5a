import LibIpc.Lib.Bytes

/-!
# Messages of the Zig implementation (`message.zig`)

A frame is `length (4, network order) | payload`. `Message.write` encodes into a
`std.io.FixedBufferStream`, whose `write` accepts as many bytes as fit; `Message.read` decodes a
buffer, all of it, whatever part of it was received.
-/

namespace LibIpc.Zig

open Lib

abbrev Fd := Int

/-! ## Sizes -/

/-- `IPC_HEADER_SIZE`. -/
def ipcHeaderSize : Nat := 4

/-- `IPC_BASE_SIZE`. -/
def ipcBaseSize : Nat := 100000

/-- `IPC_MAX_MESSAGE_SIZE`. -/
def ipcMaxMessageSize : Nat := ipcBaseSize - ipcHeaderSize

theorem ipcHeaderSize_eq : ipcHeaderSize = 4 := rfl

theorem ipcMaxMessageSize_eq : ipcMaxMessageSize = 99996 := rfl

/-! ## Errors and system call answers -/

/-- The Zig errors the modelled functions return; `os` stands for those of the system calls that
are only passed on. -/
inductive Error where
  | wrongMessageLength
  | endOfStream
  | noSpaceLeft
  | indexOutOfBounds
  | indexNotFound
  | messageOnServer
  | serverWithNoPath
  | incoherentSwitchError
  | unregisteredFD
  | closeFD
  | generic
  | connectionResetByPeer
  | os
  deriving DecidableEq, Repr

/-- An answer of `read(2)`: bytes (none when the peer has closed), or an error. -/
inductive ReadResult where
  | ok (bs : List Byte)
  | reset
  | error
  deriving DecidableEq

/-- An answer of `write(2)`: the number of bytes accepted, or an error. -/
inductive WriteResult where
  | wrote (n : Nat)
  | error
  deriving DecidableEq

/-! ## Messages -/

/-- `Message`. -/
structure Message where
  fd : Fd
  payload : List Byte
  deriving DecidableEq

/-- The frame of a payload. -/
def frame (p : List Byte) : List Byte := be32 p.length ++ p

@[simp] theorem length_frame (p : List Byte) : (frame p).length = ipcHeaderSize + p.length := by
  simp [frame, ipcHeaderSize]

theorem drop_frame (p : List Byte) : (frame p).drop ipcHeaderSize = p :=
  List.drop_left' (length_be32 _)

/-- `Message.read` on a buffer of `len` bytes that starts with `buf` and is zero after it. -/
def Message.read (fd : Fd) (buf : List Byte) (len : Nat) : Except Error Message :=
  if len < 4 then
    .error .endOfStream
  else
    let msgLen := be32At buf 0
    if msgLen > len - 4 then
      .error .wrongMessageLength
    else
      .ok { fd := fd, payload := slice buf 4 msgLen }

/-- `Message.write` into a fresh fixed buffer of `cap` bytes: the bytes written, and the value
returned. The length is truncated to 32 bits, the payload to what fits. -/
def Message.write (m : Message) (cap : Nat) : Except Error (List Byte × Nat) :=
  let n := min m.payload.length (cap - 4)
  if cap < 4 ∨ (m.payload ≠ [] ∧ n = 0) then
    .error .noSpaceLeft
  else
    .ok (be32 (m.payload.length % 2 ^ 32) ++ m.payload.take n, 4 + n)

/-! ### Reading a frame back -/

/-- A zero-filled buffer decodes to `p` exactly when it starts with `p`'s frame. -/
theorem Message.read_eq_ok_iff (fd : Fd) (buf : List Byte) {p : List Byte} {len : Nat}
    (hlen : 4 ≤ len) (hp : p.length ≤ len - 4) (hword : p.length < 2 ^ 32) :
    Message.read fd buf len = .ok { fd := fd, payload := p } ↔
      ∀ i < (frame p).length, byteAt buf i = byteAt (frame p) i := by
  have hF0 : be32At (frame p) 0 = p.length := by simpa [frame] using be32At_append hword [] p
  have hF4 : slice (frame p) 4 p.length = p := by
    simpa [frame] using slice_append (be32 p.length) (Nat.le_refl p.length)
  have hframe := length_frame p
  rw [ipcHeaderSize_eq] at hframe
  rw [Message.read, if_neg (by omega)]
  constructor
  · intro h i hi
    simp only at h
    split at h
    · cases h
    · simp only [Except.ok.injEq, Message.mk.injEq, true_and] at h
      have hlen' : be32At buf 0 = p.length := by simpa using congrArg List.length h
      -- The four length bytes follow from the decoded length, the others from the payload.
      have hbytes := ofBe32_inj (hlen'.trans hF0.symm)
      obtain h' | h' | h' | h' | h' : i = 0 ∨ i = 1 ∨ i = 2 ∨ i = 3 ∨ 4 ≤ i := by omega
      · subst h'; exact hbytes.1
      · subst h'; exact hbytes.2.1
      · subst h'; exact hbytes.2.2.1
      · subst h'; exact hbytes.2.2.2
      · obtain ⟨j, rfl⟩ := Nat.exists_eq_add_of_le h'
        have hj : j < p.length := by omega
        have hb := getElem_slice buf 4 p.length j (by simpa using hj)
        have hF := getElem_slice (frame p) 4 p.length j (by simpa using hj)
        rw [← hb, ← hF]
        rw [hlen'] at h
        simp only [h, hF4]
  · intro h
    have hann : be32At buf 0 = p.length := by
      rw [be32At, h 0 (by omega), h 1 (by omega), h 2 (by omega), h 3 (by omega)]
      exact hF0
    have hslice : slice buf 4 p.length = p := by
      conv_rhs => rw [← hF4]
      apply List.map_congr_left
      intro i hi
      exact h (4 + i) (by simp at hi; omega)
    simp only [hann, if_neg (Nat.not_lt.mpr hp), hslice]

theorem Message.fd_of_read {fd : Fd} {buf : List Byte} {len : Nat} {m : Message}
    (h : Message.read fd buf len = .ok m) : m.fd = fd := by
  unfold Message.read at h
  split at h
  · cases h
  · simp only at h
    split at h
    · cases h
    · cases h
      rfl

/-- No message is longer than the buffer it is read from. -/
theorem Message.length_payload_le {fd : Fd} {buf : List Byte} {len : Nat} {m : Message}
    (h : Message.read fd buf len = .ok m) : m.payload.length ≤ len - 4 := by
  unfold Message.read at h
  split at h
  · cases h
  · simp only at h
    split at h
    · cases h
    · rename_i hle
      simp only [Except.ok.injEq] at h
      subst h
      simpa using hle

/-- A non-empty payload that does not fit is cut without an error. -/
theorem Message.write_eq_ok (m : Message) {cap : Nat} (hcap : 4 < cap) :
    m.write cap =
      .ok (be32 (m.payload.length % 2 ^ 32) ++ m.payload.take (cap - 4),
        4 + min m.payload.length (cap - 4)) := by
  have hn : ¬ (cap < 4 ∨ (m.payload ≠ [] ∧ min m.payload.length (cap - 4) = 0)) := by
    rintro (h | ⟨hne, h⟩)
    · omega
    · have := List.length_pos_iff.mpr hne
      omega
  rw [Message.write, if_neg hn]
  by_cases hle : m.payload.length ≤ cap - 4
  · rw [Nat.min_eq_left hle, List.take_of_length_le hle, List.take_length]
  · rw [Nat.min_eq_right (by omega)]

end LibIpc.Zig

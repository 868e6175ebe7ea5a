import LibIpc.C.Types
import LibIpc.Lib.HeapArray

/-!
# Messages: wire format and the queue of messages to send (`message.c`)

The frame is `type (1) | length (4, network order) | user type (1) | payload (length)`.
`ipcMessagesAdd` deep-copies a message into the queue (the copy goes through `strncpy`),
`ipcMessagesDel` deletes an entry by moving the last one into its place. Both work on the
pointer-and-size pair of `struct ipc_messages`; the `ofList` lemmas say what they do to a
well-formed one.
-/

namespace LibIpc.C

open Lib

/-! ## Wire format -/

/-- The frame bytes: header, then the payload as the zeroed send buffer holds it. -/
def IpcMessage.frame (m : IpcMessage) : List Byte :=
  m.type :: (be32 m.length ++ m.userType :: m.content)

@[simp] theorem IpcMessage.length_frame (m : IpcMessage) :
    m.frame.length = ipcHeaderSize + m.length := by
  simp [IpcMessage.frame, ipcHeaderSize]
  omega

/-- `ipc_message_format_write`, into a zeroed buffer (the caller's, or the one it allocates).
The returned list is the first `*msize` bytes of the buffer. -/
def ipcMessageFormatWrite (m : IpcMessage) : Except IpcErrorCode (List Byte) :=
  if m.length > ipcMaxMessageSize then
    .error .messageFormatWriteMessageLength
  else
    .ok m.frame

/-- `ipc_message_format_read`: decode the `msize` bytes received in `buf`. On an error the caller
discards the half-filled message, so only the error code is returned. -/
def ipcMessageFormatRead (m : IpcMessage) (buf : List Byte) (msize : Nat) :
    Except IpcErrorCode IpcMessage :=
  if msize > ipcMaxMessageSize then
    .error .messageFormatReadParamMessageSize
  else
    let length := be32At buf 1
    if length > ipcMaxMessageSize then
      .error .messageFormatReadMessageTooLong
    -- `msize - IPC_HEADER_SIZE` is computed in `size_t` and wraps for `msize < 6`.
    else if length ≠ (msize + 2 ^ 64 - ipcHeaderSize) % 2 ^ 64 ∧ length ≠ 0 then
      .error .messageFormatReadReadMessageSize
    else
      .ok
        { type := byteAt buf 0
          userType := byteAt buf 5
          fd := m.fd
          length := length
          payload := some (slice buf ipcHeaderSize length)
          length_lt := be32At_lt buf 1
          payload_length := by simp }

/-- The message `ipc_message_format_read` leaves when it accepts the buffer. -/
def IpcMessage.ofBuffer (m : IpcMessage) (buf : List Byte) : IpcMessage where
  type := byteAt buf 0
  userType := byteAt buf 5
  fd := m.fd
  length := be32At buf 1
  payload := some (slice buf ipcHeaderSize (be32At buf 1))
  length_lt := be32At_lt buf 1
  payload_length := by simp

/-- `ipc_message_empty`: the payload is freed and the length set to 0. -/
def ipcMessageEmpty (m : IpcMessage) : IpcMessage := .noPayload m.type m.userType m.fd

/-! ### Reading a frame back -/

theorem be32At_frame (m : IpcMessage) (rest : List Byte) :
    be32At (m.frame ++ rest) 1 = m.length := by
  have h := be32At_append m.length_lt [m.type] (m.userType :: m.content ++ rest)
  simpa [IpcMessage.frame] using h

theorem slice_frame (m : IpcMessage) (rest : List Byte) :
    slice (m.frame ++ rest) ipcHeaderSize m.length = m.content := by
  have hle : m.length ≤ (m.content ++ rest).length := by simp
  have h := slice_append (m.type :: (be32 m.length ++ [m.userType])) hle
  rw [List.take_append_of_le_length (by simp), List.take_of_length_le (by simp)] at h
  simpa [IpcMessage.frame, ipcHeaderSize] using h

/-! ## Deep copy -/

/-- `strncpy` of `n` bytes: copy up to the first zero byte, pad with zeros. -/
def strncpy (src : List Byte) (n : Nat) : List Byte :=
  let s := (src.take n).takeWhile (· ≠ 0)
  s ++ List.replicate (n - s.length) 0

@[simp] theorem length_strncpy (src : List Byte) (n : Nat) : (strncpy src n).length = n := by
  have h : ((src.take n).takeWhile (· ≠ 0)).length ≤ n :=
    Nat.le_trans (List.takeWhile_sublist _).length_le (by simp)
  simp only [strncpy, List.length_append, List.length_replicate]
  omega

/-- The copy `ipc_messages_add` stores. -/
def deepCopy (m : IpcMessage) : IpcMessage :=
  { m with
    payload := if m.length > 0 then m.payload.map fun p => strncpy p m.length else none
    payload_length := by
      intro p hp
      split at hp
      · obtain ⟨p', -, rfl⟩ := Option.map_eq_some_iff.mp hp
        exact length_strncpy p' m.length
      · simp at hp }

/-- No zero byte is followed by a non-zero one: what `strncpy` copies faithfully. -/
def NoByteAfterNul : List Byte → Prop
  | [] => True
  | b :: bs => if b = 0 then ∀ c ∈ bs, c = 0 else NoByteAfterNul bs

instance decidableNoByteAfterNul : ∀ bs, Decidable (NoByteAfterNul bs)
  | [] => isTrue trivial
  | b :: bs =>
    if h : b = 0 then
      decidable_of_iff (∀ c ∈ bs, c = 0) (by simp [NoByteAfterNul, h])
    else
      @decidable_of_iff _ (NoByteAfterNul bs) (by simp [NoByteAfterNul, h])
        (decidableNoByteAfterNul bs)

theorem strncpy_cons (b : Byte) (bs : List Byte) :
    strncpy (b :: bs) (b :: bs).length =
      if b = 0 then List.replicate (bs.length + 1) 0 else b :: strncpy bs bs.length := by
  by_cases hb : b = 0
  · simp [strncpy, hb]
  · simp [strncpy, hb]

theorem strncpy_eq_self_iff (bs : List Byte) :
    strncpy bs bs.length = bs ↔ NoByteAfterNul bs := by
  induction bs with
  | nil => simp [strncpy, NoByteAfterNul]
  | cons b bs ih =>
    rw [strncpy_cons, NoByteAfterNul]
    by_cases hb : b = 0
    · subst hb
      rw [if_pos rfl, if_pos rfl, List.replicate_succ, List.cons.injEq, eq_comm (b := bs),
        List.eq_replicate_iff]
      simp
    · simp [hb, ih]

/-- The queued copy carries the same bytes exactly when no payload byte follows a zero byte. -/
theorem content_deepCopy_eq_iff (m : IpcMessage) :
    (deepCopy m).content = m.content ↔ ∀ p ∈ m.payload, NoByteAfterNul p := by
  cases hp : m.payload with
  | none => simp [IpcMessage.content, deepCopy, hp]
  | some p =>
    have hlen : p.length = m.length := m.payload_length p (by simp [hp])
    by_cases h0 : m.length > 0
    · have : (deepCopy m).content = strncpy p p.length := by
        simp [IpcMessage.content, deepCopy, hp, h0, hlen]
      rw [this]
      simp [IpcMessage.content, hp, strncpy_eq_self_iff]
    · obtain rfl : p = [] := List.eq_nil_of_length_eq_zero (by omega)
      simp [IpcMessage.content, deepCopy, hp, h0, NoByteAfterNul]
      simpa using hlen.symm

/-! ## The queue of messages to send -/

/-- `struct ipc_messages`. -/
structure IpcMessages where
  messages : Ptr IpcMessage := none
  size : Nat := 0
  deriving DecidableEq

/-- `ipc_messages_add` (allocation assumed to succeed). -/
def ipcMessagesAdd (ms : IpcMessages) (m : IpcMessage) : IpcMessages :=
  let size := ms.size + 1
  let block :=
    if size = 1 ∧ ms.messages.isNone then [default] else Ptr.realloc ms.messages size
  { messages := some (block.set (size - 1) (deepCopy m)), size := size }

/-- `ipc_messages_del`. -/
def ipcMessagesDel (ms : IpcMessages) (index : Nat) : Option (IpcErrorCode × IpcMessages) :=
  if ms.size = 0 ∨ index ≥ ms.size then
    some (.messageDelIndexError, ms)
  else
    let size := ms.size - 1
    if size = 0 then
      some (.none, { messages := none, size := size })
    else do
      let block ← ms.messages.block ms.size
      let last ← block[size]?
      return (.none, { messages := some (Ptr.realloc (some (block.set index last)) size), size := size })

/-- `ipc_messages_free`: the block is freed, the size is not reset. -/
def ipcMessagesFree (ms : IpcMessages) : IpcMessages := { ms with messages := none }

/-! ### On a well-formed queue -/

/-- The well-formed queue of these messages. -/
def IpcMessages.ofList (l : List IpcMessage) : IpcMessages :=
  { messages := Ptr.ofList l, size := l.length }

@[simp] theorem IpcMessages.ofList_size (l : List IpcMessage) :
    (IpcMessages.ofList l).size = l.length := rfl

@[simp] theorem IpcMessages.block_ofList (l : List IpcMessage) :
    (IpcMessages.ofList l).messages.block l.length = some l := Ptr.block_ofList l

/-- `ipc_messages_add` on a queue that can be read: the copy joins the end. -/
theorem ipcMessagesAdd_eq {ms : IpcMessages} {q : List IpcMessage}
    (h : ms.messages.block ms.size = some q) (m : IpcMessage) :
    ipcMessagesAdd ms m = .ofList (q ++ [deepCopy m]) := by
  have hset := Ptr.set_realloc_succ h (deepCopy m)
  have hsize := Ptr.length_of_block h
  have hofList : IpcMessages.ofList (q ++ [deepCopy m]) =
      { messages := some (q ++ [deepCopy m]), size := ms.size + 1 } := by
    simp [IpcMessages.ofList, hsize]
  rw [hofList]
  by_cases hfirst : ms.size + 1 = 1 ∧ ms.messages.isNone
  · obtain ⟨h0, hnone⟩ := hfirst
    rw [Option.isNone_iff_eq_none] at hnone
    rw [Nat.add_eq_right] at h0
    simp only [hnone, h0, Ptr.realloc] at hset
    simpa [ipcMessagesAdd, hnone, h0] using hset
  · simp only [ipcMessagesAdd, if_neg hfirst, Nat.add_sub_cancel, hset]

theorem ipcMessagesAdd_ofList (l : List IpcMessage) (m : IpcMessage) :
    ipcMessagesAdd (.ofList l) m = .ofList (l ++ [deepCopy m]) :=
  ipcMessagesAdd_eq (IpcMessages.block_ofList l) m

theorem ipcMessagesDel_ofList {l : List IpcMessage} {i : Nat} (h : i < l.length) :
    ipcMessagesDel (.ofList l) i = some (.none, .ofList (swapRemove l i)) := by
  cases l using List.reverseRecOn with
  | nil => simp at h
  | append_singleton l y =>
    rw [ipcMessagesDel, if_neg (by simp at h ⊢; omega)]
    cases l with
    | nil =>
      have hnil : swapRemove ([] ++ [y]) i = [] := List.eq_nil_of_length_eq_zero (by simp)
      rw [hnil]
      rfl
    | cons x xs =>
      have hblock := IpcMessages.block_ofList (x :: xs ++ [y])
      have hlast : (x :: xs ++ [y])[(x :: xs).length]? = some y := by simp
      have hr := Ptr.realloc_some_pred ((x :: xs ++ [y]).set i y)
      rw [List.length_set, List.length_append, List.length_singleton, Nat.add_sub_cancel] at hr
      have hne : Ptr.ofList (((x :: xs ++ [y]).set i y).dropLast)
          = some ((x :: xs ++ [y]).set i y).dropLast :=
        Ptr.ofList_of_length (n := xs.length) (by simp)
      rw [if_neg (by simp), IpcMessages.ofList_size, hblock]
      simp only [List.length_append, List.length_singleton, Nat.add_sub_cancel, hlast,
        Option.bind_eq_bind, Option.bind_some, Option.pure_def, hr]
      rw [IpcMessages.ofList, swapRemove_concat, hne]
      simp

end LibIpc.C

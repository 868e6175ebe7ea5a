import LibIpc.C.Message

/-!
# Sending and receiving on a stream socket (`usocket.c`, `ipc_read_fd`, `ipc_write_fd`)

The environment answers each `recv(2)` and `send(2)`. A sequence of `recv(2)` answers is a list;
a call that has used up the list is still waiting for the next answer. The receive buffer starts
zero-filled, so it is the byte list of `Lib.Bytes`; every `recv(2)` of one `usock_recv` call gets
the same buffer pointer and the same length.
-/

namespace LibIpc.C

open Lib

/-! ## System call answers -/

/-- The `errno` values `usock_recv` distinguishes. -/
inductive Errno where
  | eFault | eInval | eNoMem | eBadF | eNotSock | eNotConn | eAgain | eConnRefused | eIntr
  | other
  deriving DecidableEq, Repr

/-- An answer of `recv(2)`: the bytes stored in the buffer (none when the peer has closed), or an
error. -/
inductive RecvResult where
  | ok (bs : List Byte)
  | error (e : Errno)
  deriving DecidableEq

/-- An answer of `send(2)`: the number of bytes accepted, or an error. -/
inductive SendResult where
  | sent (n : Nat)
  | error
  deriving DecidableEq

/-- A call that receives: it is still waiting for an answer, or it has returned, leaving the
later answers for the next calls. -/
inductive RecvOutcome (α : Type) where
  | waiting
  | returned (r : Except IpcErrorCode α) (rest : List RecvResult)

/-- The value a call has successfully returned. -/
def RecvOutcome.value {α : Type} : RecvOutcome α → Option α
  | .returned (.ok a) _ => some a
  | _ => none

/-! ## `usock_send`, `usock_recv` -/

/-- `usock_send`: the value stored in `*sent`. -/
def usockSend : SendResult → Except IpcErrorCode Nat
  | .sent n => .ok n
  | .error => .error .usockSend

/-- The loop condition of `usock_recv`; the subtraction is on `uint32_t`. -/
def recvAgain (msize msizeRead : Nat) : Bool :=
  msize > 0 ∧ msize > (msizeRead + 2 ^ 32 - ipcHeaderSize) % 2 ^ 32

/-- The loop of `usock_recv`. `msize` is the announced payload length (0 until a header has been
seen), `msizeRead` the number of bytes received so far. -/
def usockRecvLoop (buf : List Byte) (msize msizeRead : Nat) :
    List RecvResult → RecvOutcome (List Byte × Nat)
  | [] => .waiting
  | .error e :: rs =>
    .returned (.error (if e = .other then .usockRecvUnrecognizedError else .usockRecv)) rs
  | .ok bs :: rs =>
    if bs.length = 0 then
      if recvAgain msize msizeRead then
        usockRecvLoop buf msize msizeRead rs
      else
        .returned (.error .closedRecipient) rs
    else
      -- Each `recv(2)` writes at the beginning of the buffer.
      let buf := overwrite buf bs
      let msize := if msize = 0 then be32At buf 1 else msize
      if msize > ipcMaxMessageSize then
        .returned (.error .usockRecvMessageSize) rs
      else
        let msizeRead := (msizeRead + bs.length) % 2 ^ 32
        if recvAgain msize msizeRead then
          usockRecvLoop buf msize msizeRead rs
        else
          .returned (.ok (buf, msizeRead)) rs

/-- `usock_recv` with a zeroed buffer: the buffer and the value stored in `*len`. -/
def usockRecv (rs : List RecvResult) : RecvOutcome (List Byte × Nat) :=
  usockRecvLoop [] 0 0 rs

/-! ## `ipc_read_fd`, `ipc_write_fd` -/

/-- `ipc_read_fd`: receive, then decode into `m`. -/
def ipcReadFd (m : IpcMessage) (rs : List RecvResult) : RecvOutcome IpcMessage :=
  match usockRecv rs with
  | .waiting => .waiting
  | .returned (.error e) rest => .returned (.error e) rest
  | .returned (.ok (buf, len)) rest => .returned (ipcMessageFormatRead m buf len) rest

/-- `ipc_write_fd`: the error code and the bytes passed to `send(2)`. The result of
`ipc_message_format_write` is not looked at, so a message it refuses is sent as zero bytes; a
frame longer than the buffer overflows it (`none`). -/
def ipcWriteFd (m : IpcMessage) (s : SendResult) : Option (IpcErrorCode × List Byte) :=
  let msg := match ipcMessageFormatWrite m with
    | .error _ => []
    | .ok frame => frame
  if msg.length > ipcMaxMessageSize then
    none
  else
    match usockSend s with
    | .error e => some (e, msg)
    | .ok n => some (if n ≠ msg.length then .writeFdNotEnoughData else .none, msg)

/-- Within the limit both peers share, `ipc_write_fd` sends the frame. -/
theorem ipcWriteFd_eq {m : IpcMessage} (s : SendResult)
    (h : m.length ≤ ipcMaxMessageSize - ipcHeaderSize) :
    ∃ e, ipcWriteFd m s = some (e, m.frame) := by
  have hlen : ¬ m.length > ipcMaxMessageSize := by
    rw [ipcMaxMessageSize_eq, ipcHeaderSize_eq] at *; omega
  have hcap : ¬ m.frame.length > ipcMaxMessageSize := by
    rw [IpcMessage.length_frame]
    rw [ipcMaxMessageSize_eq, ipcHeaderSize_eq] at *; omega
  unfold ipcWriteFd ipcMessageFormatWrite
  simp only [hlen, if_false, hcap]
  cases s with
  | sent n => exact ⟨_, rfl⟩
  | error => exact ⟨_, rfl⟩

/-! ## The receive loop -/

theorem recvAgain_eq {msize msizeRead : Nat} (h : ipcHeaderSize ≤ msizeRead)
    (hr : msizeRead < 2 ^ 32) :
    recvAgain msize msizeRead = decide (0 < msize ∧ msizeRead < msize + ipcHeaderSize) := by
  have hmod : (msizeRead + 2 ^ 32 - ipcHeaderSize) % 2 ^ 32 = msizeRead - ipcHeaderSize := by
    rw [ipcHeaderSize_eq] at *; omega
  rw [recvAgain, hmod]
  rw [ipcHeaderSize_eq] at *
  simp only [gt_iff_lt, decide_eq_decide]
  omega

/-- Fewer bytes than a header: the unsigned subtraction wraps and the loop stops. -/
theorem recvAgain_of_lt {msize msizeRead : Nat} (h : msizeRead < ipcHeaderSize)
    (hm : msize ≤ ipcMaxMessageSize) : recvAgain msize msizeRead = false := by
  rw [ipcHeaderSize_eq] at h
  rw [ipcMaxMessageSize_eq] at hm
  rw [recvAgain, decide_eq_false_iff_not, ipcHeaderSize_eq]
  omega

/-- Once the header is known, the loop takes chunks until the announced length is reached; each
chunk is laid over the beginning of the buffer. -/
theorem usockRecvLoop_chunks {msize : Nat} (hpos : 0 < msize) (hmax : msize ≤ ipcMaxMessageSize)
    {cs : List (List Byte)} (hne : ∀ c ∈ cs, c ≠ []) (hcs : cs ≠ []) {buf : List Byte}
    {msizeRead : Nat} (hread : ipcHeaderSize ≤ msizeRead)
    (hsum : msizeRead + cs.flatten.length = msize + ipcHeaderSize) (rest : List RecvResult) :
    usockRecvLoop buf msize msizeRead (cs.map .ok ++ rest) =
      .returned (.ok (cs.foldl overwrite buf, msize + ipcHeaderSize)) rest := by
  -- The bytes read and the bytes to come always add up to the frame.
  induction cs generalizing buf msizeRead with
  | nil => exact absurd rfl hcs
  | cons c cs ih =>
    have hc : c.length ≠ 0 := by simpa using hne c (by simp)
    have hbound : msize + ipcHeaderSize < 2 ^ 32 := by
      rw [ipcMaxMessageSize_eq] at hmax; rw [ipcHeaderSize_eq]; omega
    simp only [List.flatten_cons, List.length_append] at hsum
    have hmod : (msizeRead + c.length) % 2 ^ 32 = msizeRead + c.length :=
      Nat.mod_eq_of_lt (by omega)
    simp only [List.map_cons, List.cons_append, usockRecvLoop, if_neg hc]
    rw [if_neg (by omega : ¬ msize = 0), if_neg (by omega), hmod,
      recvAgain_eq (by omega) (by omega)]
    cases cs with
    | nil =>
      have hdone : ¬ (0 < msize ∧ msizeRead + c.length < msize + ipcHeaderSize) := by
        simp at hsum; omega
      rw [decide_eq_false hdone]
      simp at hsum
      simp [hsum]
    | cons d ds =>
      have hd : 0 < d.length := List.length_pos_iff.mpr (hne d (by simp))
      have hmore : 0 < msize ∧ msizeRead + c.length < msize + ipcHeaderSize := by
        simp only [List.flatten_cons, List.length_append] at hsum; omega
      rw [decide_eq_true hmore]
      exact ih (fun x hx => hne x (by simp [hx])) (by simp) (by omega) (by omega)

end LibIpc.C

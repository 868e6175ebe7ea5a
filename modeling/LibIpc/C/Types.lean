import LibIpc.Lib.Bytes

/-!
# The data model of the C library (`ipc.h`)

Messages, connections and events as `ipc.h` declares them. Integers that only index or count are
natural numbers; the ones whose wrap-around the code relies on keep their width where they are
used. A message carries, with its fields, the two facts every function of the library takes for
granted: the length fits its 32-bit field, and a non-`NULL` payload has that many bytes (only the
first `length` bytes behind the pointer are ever read, so those are the ones modelled).
-/

namespace LibIpc.C

open Lib

abbrev Fd := Int

/-! ## Sizes -/

/-- `IPC_HEADER_SIZE`: type, 4-byte length, user type. -/
def ipcHeaderSize : Nat := 6

/-- `__IPC_BASE_SIZE`. -/
def ipcBaseSize : Nat := 2000000

/-- `IPC_MAX_MESSAGE_SIZE`. -/
def ipcMaxMessageSize : Nat := ipcBaseSize - ipcHeaderSize

theorem ipcHeaderSize_eq : ipcHeaderSize = 6 := rfl

theorem ipcMaxMessageSize_eq : ipcMaxMessageSize = 1999994 := rfl

/-! ## Enumerations -/

/-- The `ipc_error_code`s the modelled functions return or pass on from the calls they make. -/
inductive IpcErrorCode where
  | none
  | closedRecipient
  | writeFdNotEnoughData
  | handleNewConnectionInconsistentIndex
  | waitEventPoll
  | delFdEmptyList
  | delFdCannotFindClient
  | delEmptyList
  | delCannotFindClient
  | usockSend
  | usockConnectSocket
  | usockConnectConnect
  | usockClose
  | usockRemoveUnlink
  | usockRemoveNoFile
  | usockInitWrongFileDescriptor
  | usockInitBind
  | usockInitListen
  | usockAccept
  | usockRecv
  | usockRecvUnrecognizedError
  | usockRecvMessageSize
  | messageFormatWriteMessageLength
  | messageFormatReadParamMessageSize
  | messageFormatReadReadMessageSize
  | messageFormatReadMessageTooLong
  | messageDelIndexError
  | writeFdNotFound
  | fdSwitchingNoFdRecord
  | mkdirCannotCreateDir
  | mkdirNameTooLong
  | dirSetupNotADirectory
  | dirSetupDirectoryNotWritable
  | receiveFdRecvmsg
  deriving DecidableEq, Repr

/-- `ipc_event_type`. -/
inductive IpcEventType where
  | notSet | error | extraSocket | switch | connection | disconnection | message | lookup
  | timer | tx
  deriving DecidableEq, Repr

/-- `ipccb`: what a switching callback reports. -/
inductive IpcCb where
  | noError | fdClosing | fdError | parsingError | ignore
  deriving DecidableEq, Repr

/-- `ipc_connection_type`. -/
inductive IpcConnectionType where
  | ipc | external | server | switched
  deriving DecidableEq, Repr

/-! ## Messages -/

/-- `struct ipc_message`. -/
structure IpcMessage where
  type : Byte
  userType : Byte
  fd : Fd
  length : Nat
  payload : Option (List Byte)
  length_lt : length < 2 ^ 32
  payload_length : ∀ p ∈ payload, p.length = length
  deriving DecidableEq

/-- A message with a `NULL` payload of length 0. -/
def IpcMessage.noPayload (type userType : Byte) (fd : Fd) : IpcMessage :=
  { type, userType, fd, length := 0, payload := none, length_lt := by decide,
    payload_length := by simp }

/-- The zeroed structure. -/
instance : Inhabited IpcMessage := ⟨.noPayload 0 0 0⟩

/-- A message carrying these payload bytes. -/
def IpcMessage.ofPayload (type userType : Byte) (fd : Fd) (p : List Byte)
    (h : p.length < 2 ^ 32 := by decide) : IpcMessage :=
  { type, userType, fd, length := p.length, payload := some p, length_lt := h,
    payload_length := by simp }

/-- The payload bytes as they are put on the wire: a missing payload leaves the zeroed send
buffer as it is. -/
def IpcMessage.content (m : IpcMessage) : List Byte :=
  m.payload.getD (List.replicate m.length 0)

@[simp] theorem IpcMessage.length_content (m : IpcMessage) : m.content.length = m.length := by
  unfold IpcMessage.content
  cases h : m.payload with
  | none => simp
  | some p => simpa using m.payload_length p (by simp [h])

/-! ## Connections and events -/

/-- The bits of `events` and `revents` the library looks at. -/
structure PollEvents where
  pollin : Bool := false
  pollout : Bool := false
  pollerr : Bool := false
  pollhup : Bool := false
  pollnval : Bool := false
  deriving DecidableEq, Repr

/-- `struct pollfd`. -/
structure PollFd where
  fd : Fd := 0
  events : PollEvents := {}
  revents : PollEvents := {}
  deriving DecidableEq, Repr

instance : Inhabited PollFd := ⟨{}⟩

/-- `struct ipc_connection_info`. -/
structure IpcConnectionInfo where
  type : IpcConnectionType := .ipc
  moreToRead : Int := 0
  spath : Option (List Byte) := none
  deriving DecidableEq, Repr

instance : Inhabited IpcConnectionInfo := ⟨{}⟩

/-- A function pointer registered as a switching callback. -/
abbrev Callback := Nat

/-- `struct ipc_switching`. -/
structure IpcSwitching where
  orig : Fd
  dest : Fd
  origIn : Option Callback := none
  origOut : Option Callback := none
  destIn : Option Callback := none
  destOut : Option Callback := none
  deriving DecidableEq, Repr

instance : Inhabited IpcSwitching := ⟨{ orig := 0, dest := 0 }⟩

/-- `struct ipc_event`. -/
structure IpcEvent where
  type : IpcEventType := .notSet
  index : Nat := 0
  origin : Fd := 0
  m : Option IpcMessage := none
  deriving DecidableEq

end LibIpc.C

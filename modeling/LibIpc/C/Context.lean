import LibIpc.C.Usocket

/-!
# The context: connections, messages to send, switching table (`context.c`, `communication.c`)

`struct ipc_ctx` keeps three growable arrays. The two connection arrays `cinfos` and `pollfd` share
one size and are indexed in parallel; `entries` is what a loop over both reads. A function returns
`none` where the C code reads or writes outside a block or waits for ever. The answers of the
system calls it makes are arguments, and what it does outside the context is the list of `Io`.
-/

namespace LibIpc.C

open Lib

/-! ## The structure -/

/-- `struct ipc_switchings`. -/
structure IpcSwitchings where
  collection : Ptr IpcSwitching := none
  size : Nat := 0
  deriving DecidableEq

/-- `struct ipc_ctx`. -/
structure IpcCtx where
  cinfos : Ptr IpcConnectionInfo := none
  pollfd : Ptr PollFd := none
  size : Nat := 0
  tx : IpcMessages := {}
  switchdb : IpcSwitchings := {}
  deriving DecidableEq

/-- What a call does outside the context: entries of the queue come and go, bytes are passed to
`send(2)`, descriptors to `close(2)`, user callbacks are called. -/
inductive Io where
  | queue (e : QueueEvent IpcMessage)
  | send (fd : Fd) (bs : List Byte) (r : SendResult)
  | close (fd : Fd)
  | callIn (cb : Callback) (fd : Fd)
  | callOut (cb : Callback) (fd : Fd)
  deriving DecidableEq

/-- The queue events of a log. -/
def queueEvents (io : List Io) : List (QueueEvent IpcMessage) :=
  io.filterMap fun
    | .queue e => some e
    | _ => none

/-- The bytes passed to `send(2)` and the descriptors they were sent on. -/
def sends (io : List Io) : List (Fd × List Byte) :=
  io.filterMap fun
    | .send fd bs _ => some (fd, bs)
    | _ => none

@[simp] theorem queueEvents_append (a b : List Io) :
    queueEvents (a ++ b) = queueEvents a ++ queueEvents b := by
  simp [queueEvents]

/-- The connection entries read by a loop over `i < size`. -/
def IpcCtx.entries (ctx : IpcCtx) : Option (List (IpcConnectionInfo × PollFd)) := do
  let cinfos ← ctx.cinfos.block ctx.size
  let pollfd ← ctx.pollfd.block ctx.size
  return cinfos.zip pollfd

/-- Store the entries back, in place. -/
def IpcCtx.setEntries (ctx : IpcCtx) (es : List (IpcConnectionInfo × PollFd)) : IpcCtx :=
  { ctx with
    cinfos := ctx.cinfos.map fun _ => es.map Prod.fst
    pollfd := ctx.pollfd.map fun _ => es.map Prod.snd }

/-! ## Allocation -/

/-- `ipc_ctx_new_alloc` (allocation assumed to succeed): one more, zeroed, entry. -/
def ipcCtxNewAlloc (ctx : IpcCtx) : IpcCtx :=
  let size := ctx.size + 1
  let first := size = 1 ∧ ctx.cinfos.isNone ∧ ctx.pollfd.isNone
  let cinfos := if first then [default] else Ptr.realloc ctx.cinfos size
  let pollfd := if first then [default] else Ptr.realloc ctx.pollfd size
  { ctx with
    cinfos := some (cinfos.set (size - 1) default)
    pollfd := some (pollfd.set (size - 1) default)
    size := size }

/-- `ipc_switching_free`. -/
def ipcSwitchingFree (_ : IpcSwitchings) : IpcSwitchings := { collection := none, size := 0 }

/-- `ipc_ctx_free`. -/
def ipcCtxFree (ctx : IpcCtx) : IpcCtx :=
  { cinfos := none
    pollfd := none
    size := 0
    switchdb := ipcSwitchingFree ctx.switchdb
    tx := ipcMessagesFree ctx.tx }

/-! ## Adding connections -/

/-- `ipc_add`. -/
def ipcAdd (ctx : IpcCtx) (p : IpcConnectionInfo) (pollfd : PollFd) : IpcCtx :=
  let ctx := ipcCtxNewAlloc ctx
  { ctx with
    cinfos := ctx.cinfos.map fun l => l.set (ctx.size - 1) p
    pollfd := ctx.pollfd.map fun l => l.set (ctx.size - 1) pollfd }

/-- `ipc_add_fd_`. -/
def ipcAddFd_ (ctx : IpcCtx) (fd : Fd) (type : IpcConnectionType) : IpcCtx :=
  ipcAdd ctx { type := type } { fd := fd, events := { pollin := true } }

/-- `ipc_add_fd`. -/
def ipcAddFd (ctx : IpcCtx) (fd : Fd) : IpcCtx := ipcAddFd_ ctx fd .external

/-- `ipc_add_fd_switched`. -/
def ipcAddFdSwitched (ctx : IpcCtx) (fd : Fd) : IpcCtx := ipcAddFd_ ctx fd .switched

/-- `ipc_accept_add`; `accept` is what `accept(2)` returns. The new entry is made, and its
descriptor stored, before the result of `accept(2)` is looked at. -/
def ipcAcceptAdd (event : IpcEvent) (ctx : IpcCtx) (index : Nat) (accept : Fd) :
    Option (IpcErrorCode × IpcCtx × IpcEvent) :=
  if index ≥ ctx.size then
    some (.handleNewConnectionInconsistentIndex, ctx, event)
  else do
    let ctx := ipcCtxNewAlloc ctx
    let es ← ctx.entries
    let (cinfo, pollfd) ← es[ctx.size - 1]?
    let pollfd := { pollfd with fd := accept }
    if accept < 0 then
      return (.usockAccept, ctx.setEntries (es.set (ctx.size - 1) (cinfo, pollfd)), event)
    else
      let pollfd := { pollfd with events := { pollin := true } }
      let cinfo := { cinfo with type := .ipc }
      return (.none, ctx.setEntries (es.set (ctx.size - 1) (cinfo, pollfd)),
        { type := .connection, index := ctx.size - 1, origin := accept, m := none })

/-- `ipc_ctx_fd_type`: retype the first connection with this descriptor; -1 when there is none. -/
def ipcCtxFdType (ctx : IpcCtx) (fd : Fd) (type : IpcConnectionType) : Option (Int × IpcCtx) := do
  let es ← ctx.entries
  match es.findIdx? fun e => e.2.fd = fd with
  | none => return (-1, ctx)
  | some i => return (0, ctx.setEntries (es.modify i fun e => ({ e.1 with type := type }, e.2)))

/-! ## Queueing and dropping messages -/

/-- `ipc_write`: queue a copy of the message for a tracked descriptor. -/
def ipcWrite (ctx : IpcCtx) (m : IpcMessage) : Option (IpcErrorCode × IpcCtx × List Io) := do
  let es ← ctx.entries
  if es.any fun e => e.2.fd = m.fd then
    let es := es.map fun e =>
      if e.2.fd = m.fd then
        (e.1, { e.2 with events := { e.2.events with pollout := true } })
      else e
    return (.none, { ctx.setEntries es with tx := ipcMessagesAdd ctx.tx m },
      [.queue (.queued (deepCopy m))])
  else
    return (.writeFdNotFound, ctx, [])

/-- The loop of `ipc_remove_messages_for_fd`, with `n` indices left to visit. Deleting entry `i`
leaves `i` where it is (`i--` then `i++`, wrapping below zero and back) and shortens the loop. -/
def removeMessagesLoop (fd : Fd) : Nat → IpcMessages → Nat → Option (IpcMessages × List Io)
  | 0, tx, _ => some (tx, [])
  | n + 1, tx, i => do
    let messages ← tx.messages.block tx.size
    let m ← messages[i]?
    if m.fd = fd then
      let emptied := { tx with messages := some (messages.set i (ipcMessageEmpty m)) }
      let (_, tx) ← ipcMessagesDel emptied i
      let (tx, io) ← removeMessagesLoop fd n tx i
      return (tx, .queue (.dropped messages i) :: io)
    else
      removeMessagesLoop fd n tx (i + 1)

/-- `ipc_remove_messages_for_fd`. -/
def ipcRemoveMessagesForFd (ctx : IpcCtx) (fd : Fd) : Option (IpcCtx × List Io) := do
  let (tx, io) ← removeMessagesLoop fd ctx.tx.size ctx.tx 0
  return ({ ctx with tx := tx }, io)

/-! ## Closing and deleting connections -/

/-- The answers to the system calls of `ipc_close`: whether `close(2)` succeeded, and what
`usock_remove` returned (`stat(2)` then `unlink(2)`). -/
structure CloseSys where
  closeOk : Bool := true
  remove : IpcErrorCode := .none

/-- `ipc_close`: close the descriptor and drop its messages; the entry stays. -/
def ipcClose (ctx : IpcCtx) (index : Nat) (sys : CloseSys) :
    Option (IpcErrorCode × IpcCtx × List Io) := do
  let es ← ctx.entries
  let (cinfo, pollfd) ← es[index]?
  -- An external descriptor is left to the application.
  let external := cinfo.type = .external
  let closed : List Io := if external then [] else [.close pollfd.fd]
  let (ctx, dropped) ← ipcRemoveMessagesForFd ctx pollfd.fd
  if ¬ external ∧ ¬ sys.closeOk then
    return (.usockClose, ctx, closed ++ dropped)
  else if cinfo.type = .server then
    return (sys.remove, ctx.setEntries (es.set index ({ cinfo with spath := none }, pollfd)),
      closed ++ dropped)
  else
    return (.none, ctx, closed ++ dropped)

/-- `ipc_close_all`, with the answers for each index. Entries are closed, none is deleted. -/
def ipcCloseAll (ctx : IpcCtx) (sys : Nat → CloseSys) : Option (IpcCtx × List Io) :=
  (List.range ctx.size).foldlM
    (fun (s : IpcCtx × List Io) i => do
      let (_, ctx, io) ← ipcClose s.1 i (sys i)
      return (ctx, s.2 ++ io))
    (ctx, [])

/-- `ipc_del`: drop the messages of the connection and delete its entry by moving the last one
into its place. -/
def ipcDel (ctx : IpcCtx) (index : Nat) : Option (IpcErrorCode × IpcCtx × List Io) :=
  if ctx.cinfos.isNone ∨ ctx.pollfd.isNone then
    some (.delEmptyList, ctx, [])
  else if index ≥ ctx.size then
    some (.delCannotFindClient, ctx, [])
  else do
    let es ← ctx.entries
    let (cinfo, pollfd) ← es[index]?
    let es := es.set index ({ cinfo with spath := none }, pollfd)
    let (ctx, io) ← ipcRemoveMessagesForFd (ctx.setEntries es) pollfd.fd
    let size := ctx.size - 1
    if size = 0 then
      return (.none, ipcCtxFree { ctx with size := size }, io)
    else
      let last ← es[size]?
      let es := es.set index last
      return (.none,
        { ctx with
          cinfos := some (Ptr.realloc (some (es.map Prod.fst)) size)
          pollfd := some (Ptr.realloc (some (es.map Prod.snd)) size)
          size := size }, io)

/-- `ipc_del_fd`: delete the first connection with this descriptor. -/
def ipcDelFd (ctx : IpcCtx) (fd : Fd) : Option (IpcErrorCode × IpcCtx × List Io) :=
  if ctx.cinfos.isNone ∨ ctx.pollfd.isNone then
    some (.delFdEmptyList, ctx, [])
  else do
    let es ← ctx.entries
    match es.findIdx? fun e => e.2.fd = fd with
    | none => return (.delFdCannotFindClient, ctx, [])
    | some i => ipcDel ctx i

end LibIpc.C

import LibIpc.C.Context

/-!
# Switching: pairs of descriptors that relay to each other (`network.c`)

The switching table records pairs; a message read on one end is queued for the other. Reading and
writing go through the callbacks registered for the end, `default_cb_in` and `default_cb_out` where
there is none. What a user callback answers is an argument.
-/

namespace LibIpc.C

open Lib

/-! ## The table -/

/-- `ipc_switching_add` (allocation assumed to succeed). -/
def ipcSwitchingAdd (sw : IpcSwitchings) (orig dest : Fd) : IpcSwitchings :=
  let block :=
    if sw.collection.isNone then List.replicate (sw.size + 1) default
    else Ptr.realloc sw.collection (sw.size + 1)
  { collection := some (block.set sw.size { orig := orig, dest := dest })
    size := sw.size + 1 }

/-- `ipc_switching_del`: delete the pair of `fd`, return the other end (-1 without a pair). The
last record replaces the deleted one, but only its two descriptors are copied. -/
def ipcSwitchingDel (sw : IpcSwitchings) (fd : Fd) : Option (Fd × IpcSwitchings) := do
  let block ← sw.collection.block sw.size
  match block.findIdx? fun s => s.orig = fd ∨ s.dest = fd with
  | none => return (-1, sw)
  | some i =>
    let s ← block[i]?
    let last ← block[sw.size - 1]?
    let ret := if fd = s.orig then s.dest else s.orig
    let block := block.set i { s with orig := last.orig, dest := last.dest }
    if sw.size = 1 then
      return (ret, { collection := none, size := 0 })
    else
      return (ret,
        { collection := some (Ptr.realloc (some block) (sw.size - 1)), size := sw.size - 1 })

/-- `ipc_switching_get_`: the record of `fd`. Its return value (origin, destination or not found)
is recovered from the record. -/
def ipcSwitchingGet_ (sw : IpcSwitchings) (fd : Fd) : Option (Option IpcSwitching) := do
  let block ← sw.collection.block sw.size
  return block.find? fun s => s.orig = fd ∨ s.dest = fd

/-- `ipc_switching_get`: the other end of the pair of `fd`, -1 without a pair. -/
def ipcSwitchingGet (sw : IpcSwitchings) (fd : Fd) : Option Fd := do
  let block ← sw.collection.block sw.size
  match block.find? fun s => s.orig = fd ∨ s.dest = fd with
  | none => return -1
  | some s => return if s.orig = fd then s.dest else s.orig

/-- `ipc_switching_callbacks`: register both callbacks of the end `fd`. -/
def ipcSwitchingCallbacks (sw : IpcSwitchings) (fd : Fd) (cbIn cbOut : Option Callback) :
    Option IpcSwitchings := do
  let block ← sw.collection.block sw.size
  match block.findIdx? fun s => s.orig = fd ∨ s.dest = fd with
  | none => return sw
  | some i =>
    let s ← block[i]?
    let s :=
      if s.orig = fd then { s with origIn := cbIn, origOut := cbOut }
      else { s with destIn := cbIn, destOut := cbOut }
    return { sw with collection := some (block.set i s) }

/-- `ipc_switching_callbacks_`: the input callback only. -/
def ipcSwitchingCallbacks_ (sw : IpcSwitchings) (fd : Fd) (cbIn : Option Callback) :
    Option IpcSwitchings :=
  ipcSwitchingCallbacks sw fd cbIn none

/-! ## Default callbacks -/

/-- `default_cb_in`: the verdict and the message read; `none` while `recv(2)` has not answered.
`more_to_read` is always reset to zero. -/
def defaultCbIn (m : IpcMessage) (rs : List RecvResult) : Option (IpcCb × IpcMessage) :=
  match usockRecv rs with
  | .waiting => none
  | .returned (.error e) _ => some (if e = .closedRecipient then .fdClosing else .fdError, m)
  | .returned (.ok (buf, msize)) _ =>
    if msize > 0 then
      match ipcMessageFormatRead m buf msize with
      | .error _ => some (.parsingError, m)
      | .ok m => some (.noError, m)
    else
      some (.fdClosing, m)

/-- `default_cb_out`: the verdict and the bytes passed to `send(2)`. No message at all is refused
by `ipc_message_format_write`, so nothing is left to send. -/
def defaultCbOut (m : Option IpcMessage) (s : SendResult) : Option (IpcCb × List Byte) :=
  let msg := match m with
    | none => []
    | some m =>
      match ipcMessageFormatWrite m with
      | .error _ => []
      | .ok frame => frame
  if msg.length > ipcMaxMessageSize then
    none
  else
    match usockSend s with
    | .error _ => some (.fdError, msg)
    | .ok n => some (if n ≠ msg.length then .fdError else .noError, msg)

/-! ## Relaying -/

/-- The answers to what the switching functions call: `recv(2)`, `send(2)`, and the user callbacks
(verdict, message, `more_to_read`). -/
structure SwitchSys where
  recv : List RecvResult := []
  send : SendResult := .sent 0
  cbIn : IpcCb × IpcMessage × Int := (.noError, default, 0)
  cbOut : IpcCb := .noError

/-- The input callback of the end `talkingfd`: verdict, message, `more_to_read`. -/
def switchingCbIn (sw : IpcSwitching) (talkingfd : Fd) (sys : SwitchSys) :
    Option (IpcCb × IpcMessage × Int × List Io) :=
  match if sw.orig = talkingfd then sw.origIn else sw.destIn with
  | none => (defaultCbIn default sys.recv).map fun (r, m) => (r, m, 0, [])
  | some cb => some (sys.cbIn.1, sys.cbIn.2.1, sys.cbIn.2.2, [.callIn cb talkingfd])

/-- What `fd_switching_read` does when its end is closing or in error: both connections and the
pair are deleted (the destination first, also when it is the talking end). -/
def switchingReadDel (ctx : IpcCtx) (sw : IpcSwitching) (talkingfd : Fd) :
    Option (IpcCtx × List Io) := do
  let (_, ctx, io₁) ← ipcDelFd ctx sw.dest
  let (_, ctx, io₂) ← ipcDelFd ctx talkingfd
  let (_, switchdb) ← ipcSwitchingDel ctx.switchdb talkingfd
  return ({ ctx with switchdb := switchdb }, io₁ ++ io₂)

/-- `fd_switching_read`. -/
def fdSwitchingRead (event : IpcEvent) (ctx : IpcCtx) (index : Nat) (sys : SwitchSys) :
    Option (IpcErrorCode × IpcCtx × IpcEvent × List Io) :=
  if ctx.switchdb.size = 0 then
    some (.fdSwitchingNoFdRecord, ctx, event, [])
  else do
    let es ← ctx.entries
    let (cinfo, pollfd) ← es[index]?
    let talkingfd := pollfd.fd
    match ← ipcSwitchingGet_ ctx.switchdb talkingfd with
    | none => return (.fdSwitchingNoFdRecord, ctx, event, [])
    | some sw =>
      let destFd := if sw.orig = talkingfd then sw.dest else sw.orig
      let (r, m, moreToRead, called) ← switchingCbIn sw talkingfd sys
      let ctx := ctx.setEntries (es.set index ({ cinfo with moreToRead := moreToRead }, pollfd))
      match r with
      | .noError =>
        -- The result of `ipc_write` is not looked at.
        let (_, ctx, io) ← ipcWrite ctx { m with fd := destFd }
        return (.none, ctx, { type := .switch, index := index, origin := talkingfd, m := none },
          called ++ io)
      | .ignore =>
        return (.none, ctx, { type := .switch, index := index, origin := talkingfd, m := none },
          called)
      | r =>
        let (ctx, io) ← switchingReadDel ctx sw talkingfd
        let type := if r = .fdClosing then .disconnection else .error
        return (.closedRecipient, ctx,
          { type := type, index := index, origin := talkingfd, m := none }, called ++ io)

/-- The search for the next message to send to `fd`: its loop condition is `tx.size`, not an
index bound, so a non-empty queue without such a message is read past its end (`none`). -/
def searchMessage (tx : IpcMessages) (fd : Fd) :
    Option (Option (List IpcMessage × Nat × IpcMessage)) :=
  if tx.size = 0 then
    some none
  else do
    let messages ← tx.messages.block tx.size
    let i ← messages.findIdx? fun m => m.fd = fd
    let m ← messages[i]?
    return some (messages, i, m)

/-- `ipc_message_empty` and `ipc_messages_del` of the message found. -/
def deleteFound (tx : IpcMessages) : Option (List IpcMessage × Nat × IpcMessage) →
    Option IpcMessages
  | none => some tx
  | some (messages, i, m) => do
    let (_, tx) ← ipcMessagesDel
      { tx with messages := some (messages.set i (ipcMessageEmpty m)) } i
    return tx

/-- The output callback of the end `outputFd`. The test is on the input callback, the call goes
through the output callback (`none` when that one is missing: a null pointer is called). -/
def switchingCbOut (sw : IpcSwitching) (outputFd : Fd) (m : Option IpcMessage)
    (sys : SwitchSys) : Option (IpcCb × List Io) :=
  match if sw.orig = outputFd then sw.origIn else sw.destIn with
  | none =>
    (defaultCbOut m sys.send).map fun (r, bs) => (r, [.send outputFd bs sys.send])
  | some _ =>
    (if sw.orig = outputFd then sw.origOut else sw.destOut).map fun cb =>
      (sys.cbOut, [.callOut cb outputFd])

/-- What `fd_switching_write` does when its end is closing or in error: the pair, then both
connections are deleted, and both descriptors closed. -/
def switchingWriteDel (ctx : IpcCtx) (outputFd : Fd) : Option (IpcCtx × List Io) := do
  let (delfd, switchdb) ← ipcSwitchingDel ctx.switchdb outputFd
  let ctx := { ctx with switchdb := switchdb }
  if delfd ≥ 0 then
    let (_, ctx, io₁) ← ipcDelFd ctx delfd
    let (_, ctx, io₂) ← ipcDelFd ctx outputFd
    return (ctx, .close delfd :: io₁ ++ .close outputFd :: io₂)
  else
    let (_, ctx, io₂) ← ipcDelFd ctx outputFd
    return (ctx, .close outputFd :: io₂)

/-- `fd_switching_write`. -/
def fdSwitchingWrite (event : IpcEvent) (ctx : IpcCtx) (index : Nat) (sys : SwitchSys) :
    Option (IpcErrorCode × IpcCtx × IpcEvent × List Io) :=
  if ctx.switchdb.size = 0 then
    some (.fdSwitchingNoFdRecord, ctx, event, [])
  else do
    let es ← ctx.entries
    let (_, pollfd) ← es[index]?
    let outputFd := pollfd.fd
    let found ← searchMessage ctx.tx outputFd
    match ← ipcSwitchingGet_ ctx.switchdb outputFd with
    | none => return (.fdSwitchingNoFdRecord, ctx, event, [])
    | some sw =>
      let (r, called) ← switchingCbOut sw outputFd (found.map fun f => f.2.2) sys
      let tx ← deleteFound ctx.tx found
      let ctx := { ctx with tx := tx }
      let handed := found.toList.map fun f => Io.queue (.handed f.1 f.2.1)
      match r with
      | .noError =>
        return (.none, ctx, { type := .tx, index := index, origin := outputFd, m := none },
          called ++ handed)
      | r =>
        let (ctx, io) ← switchingWriteDel ctx outputFd
        let type := if r = .fdClosing then .disconnection else .error
        return (.closedRecipient, ctx,
          { type := type, index := index, origin := outputFd, m := none },
          called ++ handed ++ io)

end LibIpc.C

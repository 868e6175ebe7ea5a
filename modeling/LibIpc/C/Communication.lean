import LibIpc.C.Network
import LibIpc.Lib.Run

/-!
# The event loop and the public calls (`communication.c`)

`ipcWaitEvent` prepares the descriptors, polls, and handles the first descriptor that is ready.
`Call` is a public call together with everything the environment answers it, `step` runs one call
on a context: a run of the library is a run of `step` from the zeroed context.
-/

namespace LibIpc.C

open Lib

/-! ## Handlers -/

/-- `handle_writing_message`: hand the first message queued for the descriptor to `ipc_write_fd`
and delete it, whether or not it could be sent. -/
def handleWritingMessage (ctx : IpcCtx) (index : Nat) (s : SendResult) :
    Option (IpcErrorCode × IpcCtx × IpcEvent × List Io) := do
  let es ← ctx.entries
  let (_, pollfd) ← es[index]?
  let txfd := pollfd.fd
  let event : IpcEvent := { type := .tx, index := index, origin := txfd, m := none }
  let found ← searchMessage ctx.tx txfd
  let io ← match found with
    | none => some []
    | some (messages, i, m) =>
      (ipcWriteFd m s).map fun (_, bs) => [.queue (.handed messages i), .send txfd bs s]
  let tx ← deleteFound ctx.tx found
  return (.none, { ctx with tx := tx }, event, io)

/-- `handle_new_message`: read a message; on an error or a disconnection, close and delete the
connection. -/
def handleNewMessage (ctx : IpcCtx) (index : Nat) (rs : List RecvResult) (sys : CloseSys) :
    Option (IpcErrorCode × IpcCtx × IpcEvent × List Io) := do
  let es ← ctx.entries
  let (_, pollfd) ← es[index]?
  match ipcReadFd default rs with
  | .waiting => none
  | .returned (.error e) _ =>
    let (_, ctx, io₁) ← ipcClose ctx index sys
    let (_, ctx, io₂) ← ipcDel ctx index
    if e = .closedRecipient then
      return (.none, ctx,
        { type := .disconnection, index := index, origin := pollfd.fd, m := none }, io₁ ++ io₂)
    else
      return (e, ctx,
        { type := .error, index := index, origin := pollfd.fd, m := none }, io₁ ++ io₂)
  | .returned (.ok m) _ =>
    return (.none, ctx,
      { type := .message, index := index, origin := pollfd.fd, m := some { m with fd := pollfd.fd } },
      [])

/-! ## The timer -/

/-- `struct timeval`. -/
structure TimeVal where
  sec : Int := 0
  usec : Int := 0

/-- An `int` result: undefined when it does not fit. -/
def toInt (x : Int) : Option Int := if -2 ^ 31 ≤ x ∧ x < 2 ^ 31 then some x else none

/-- The conversion of a wider value to `int`, modulo `2 ^ 32`. -/
def convInt (x : Int) : Int := (x + 2 ^ 31) % 2 ^ 32 - 2 ^ 31

/-- The value `*timer` is left with. -/
def timerAfter (timer : Int) (tv₁ tv₂ : TimeVal) : Option Int := do
  let nbSecMs := convInt ((tv₂.sec - tv₁.sec) * 1000)
  let nbUsecMs := convInt (Int.tdiv (tv₂.usec - tv₁.usec) 1000)
  let elapsed ← toInt (nbSecMs + nbUsecMs)
  if elapsed ≥ timer then return 0 else toInt (timer - elapsed)

/-! ## `ipc_wait_event` -/

/-- Everything the environment answers during one `ipc_wait_event`: the `revents` of each entry
(`none` when `poll(2)` fails), the clock, and the answers to the calls of the handlers. -/
structure WaitSys where
  poll : Option (List PollEvents) := none
  tv₁ : TimeVal := {}
  tv₂ : TimeVal := {}
  accept : Fd := -1
  recv : List RecvResult := []
  send : SendResult := .sent 0
  close : CloseSys := {}
  cbIn : IpcCb × IpcMessage × Int := (.noError, default, 0)
  cbOut : IpcCb := .noError

/-- The switching functions' part of the answers. -/
def WaitSys.switchSys (sys : WaitSys) : SwitchSys :=
  { recv := sys.recv, send := sys.send, cbIn := sys.cbIn, cbOut := sys.cbOut }

/-- Something to read: the first test of the dispatch loop. -/
def readable (e : IpcConnectionInfo × PollFd) : Bool :=
  e.2.revents.pollin || e.1.moreToRead = 1

/-- The dispatch loop stops at this entry. -/
def handled (e : IpcConnectionInfo × PollFd) : Bool :=
  readable e || e.2.revents.pollout || e.2.revents.pollhup || e.2.revents.pollerr ||
    e.2.revents.pollnval

/-- What `ipc_wait_event` asks `poll(2)` for: input always, output when a message is queued. -/
def pollEntries (es : List (IpcConnectionInfo × PollFd)) (messages : List IpcMessage) :
    List (IpcConnectionInfo × PollFd) :=
  es.map fun e =>
    (e.1, { e.2 with
      events := { pollin := true, pollout := messages.any fun m => m.fd = e.2.fd } })

/-- What `poll(2)` stores: the `revents` of each entry. -/
def storeRevents (es : List (IpcConnectionInfo × PollFd)) (revents : List PollEvents) :
    List (IpcConnectionInfo × PollFd) :=
  es.mapIdx fun i e => (e.1, { e.2 with revents := revents.getD i {} })

/-- The dispatch on the entry `e` at `index`, where the loop stopped. -/
def dispatch (ctx : IpcCtx) (es : List (IpcConnectionInfo × PollFd)) (index : Nat)
    (e : IpcConnectionInfo × PollFd) (sys : WaitSys) :
    Option (IpcErrorCode × IpcCtx × IpcEvent × List Io) :=
  let event : IpcEvent := { type := .notSet, index := index, origin := e.2.fd, m := none }
  if readable e then
    let ctx := ctx.setEntries (es.set index ({ e.1 with moreToRead := 0 }, e.2))
    match e.1.type with
    | .server => (ipcAcceptAdd event ctx index sys.accept).map fun (r, ctx, ev) => (r, ctx, ev, [])
    | .switched => fdSwitchingRead event ctx index sys.switchSys
    | .external => some (.none, ctx, { event with type := .extraSocket }, [])
    | .ipc => handleNewMessage ctx index sys.recv sys.close
  else if e.2.revents.pollout then
    let pollfd := { e.2 with events := { e.2.events with pollout := false } }
    let ctx := ctx.setEntries (es.set index (e.1, pollfd))
    match e.1.type with
    | .switched => fdSwitchingWrite event ctx index sys.switchSys
    | _ => handleWritingMessage ctx index sys.send
  else if e.2.revents.pollhup then
    (ipcClose ctx index sys.close).map fun (r, ctx, io) =>
      (r, ctx, { event with type := .disconnection }, io)
  else
    -- `POLLERR` or `POLLNVAL`
    some (.none, ctx, { event with type := .error }, [])

/-- `ipc_wait_event`: the error code, the context, the event, the timer. -/
def ipcWaitEvent (ctx : IpcCtx) (timer : Int) (sys : WaitSys) :
    Option (IpcErrorCode × IpcCtx × IpcEvent × Int × List Io) := do
  let es ← ctx.entries
  let messages ← ctx.tx.messages.block ctx.tx.size
  let es := pollEntries es messages
  let ctx := ctx.setEntries es
  let timer_ := if es.any fun e => e.1.moreToRead = 1 then 0 else timer
  match sys.poll with
  | none => return (.waitEventPoll, ctx, {}, timer, [])
  | some revents =>
    let es := storeRevents es revents
    let ctx := ctx.setEntries es
    let timer ← timerAfter timer sys.tv₁ sys.tv₂
    let n := es.countP fun e => e.2.revents ≠ {}
    if n = 0 ∧ timer_ ≠ 0 then
      return (.none, ctx, { type := .timer }, timer, [])
    else
      match es.findIdx? handled with
      | none =>
        -- The loop ends without a `goto`: the event keeps the last entry visited.
        let event : IpcEvent := { index := es.length - 1, origin := (es.getLastD default).2.fd }
        return (.none, ctx, event, timer, [])
      | some index =>
        let e ← es[index]?
        let (r, ctx, event, io) ← dispatch ctx es index e sys
        return (r, ctx, event, timer, io)

/-! ## Services and connections -/

/-- `RUNDIR`. -/
def runDir : List Byte := "/run/ipc/".toUTF8.toList

/-- `service_path`: `"%s/%s"` cut to what fits in `PATH_MAX - 1` bytes with its terminator. -/
def servicePath (rundir : Option (List Byte)) (sname : List Byte) : List Byte :=
  (rundir.getD runDir ++ 47 :: sname).take (4096 - 2)

/-- `ipc_server_init`; `init` is what `usock_init` returned. -/
def ipcServerInit (ctx : IpcCtx) (rundir : Option (List Byte)) (sname : List Byte)
    (init : Except IpcErrorCode Fd) : IpcErrorCode × IpcCtx :=
  match init with
  | .error e => (e, ctx)
  | .ok fd =>
    (.none, ipcAdd ctx { type := .server, spath := some (servicePath rundir sname) }
      { fd := fd, events := { pollin := true } })

/-- `ipc_connection_`; `ipcd` is the descriptor left by `ipc_contact_ipcd` (not positive when it
gave none), `connect` what `usock_connect` returns when the service is then contacted directly. -/
def ipcConnection_ (ctx : IpcCtx) (type : IpcConnectionType) (ipcd : Fd)
    (connect : Except IpcErrorCode Fd) : Except IpcErrorCode (IpcCtx × Fd) :=
  let fd := if ipcd ≤ 0 then connect else .ok ipcd
  fd.map fun fd => (ipcAdd ctx { type := type } { fd := fd, events := { pollin := true } }, fd)

/-- `ipc_connection`. -/
def ipcConnection (ctx : IpcCtx) (ipcd : Fd) (connect : Except IpcErrorCode Fd) :
    IpcErrorCode × IpcCtx :=
  match ipcConnection_ ctx .ipc ipcd connect with
  | .error e => (e, ctx)
  | .ok (ctx, _) => (.none, ctx)

/-- `ipc_connection_switched`. -/
def ipcConnectionSwitched (ctx : IpcCtx) (clientfd : Fd) (ipcd : Fd)
    (connect : Except IpcErrorCode Fd) : IpcErrorCode × IpcCtx :=
  match ipcConnection_ ctx .switched ipcd connect with
  | .error e => (e, ctx)
  | .ok (ctx, sfd) =>
    let ctx := ipcAddFdSwitched ctx clientfd
    (.none, { ctx with switchdb := ipcSwitchingAdd ctx.switchdb clientfd sfd })

/-! ## Runs -/

/-- A public call, with its arguments and what the environment answers. -/
inductive Call where
  | serverInit (rundir : Option (List Byte)) (sname : List Byte) (init : Except IpcErrorCode Fd)
  | connection (ipcd : Fd) (connect : Except IpcErrorCode Fd)
  | connectionSwitched (clientfd ipcd : Fd) (connect : Except IpcErrorCode Fd)
  | add (p : IpcConnectionInfo) (pollfd : PollFd)
  | addFd (fd : Fd)
  | addFdSwitched (fd : Fd)
  | fdType (fd : Fd) (type : IpcConnectionType)
  | del (index : Nat)
  | delFd (fd : Fd)
  | close (index : Nat) (sys : CloseSys)
  | closeAll (sys : Nat → CloseSys)
  | write (m : IpcMessage)
  | switchingAdd (orig dest : Fd)
  | switchingDel (fd : Fd)
  | switchingCallbacks (fd : Fd) (cbIn cbOut : Option Callback)
  | waitEvent (timer : Int) (sys : WaitSys)

/-- One call on a context. -/
def step (ctx : IpcCtx) : Call → Option (IpcCtx × List Io)
  | .serverInit rundir sname init => some ((ipcServerInit ctx rundir sname init).2, [])
  | .connection ipcd connect => some ((ipcConnection ctx ipcd connect).2, [])
  | .connectionSwitched clientfd ipcd connect =>
    some ((ipcConnectionSwitched ctx clientfd ipcd connect).2, [])
  | .add p pollfd => some (ipcAdd ctx p pollfd, [])
  | .addFd fd => some (ipcAddFd ctx fd, [])
  | .addFdSwitched fd => some (ipcAddFdSwitched ctx fd, [])
  | .fdType fd type => (ipcCtxFdType ctx fd type).map fun (_, ctx) => (ctx, [])
  | .del index => (ipcDel ctx index).map Prod.snd
  | .delFd fd => (ipcDelFd ctx fd).map Prod.snd
  | .close index sys => (ipcClose ctx index sys).map Prod.snd
  | .closeAll sys => ipcCloseAll ctx sys
  | .write m => (ipcWrite ctx m).map Prod.snd
  | .switchingAdd orig dest =>
    some ({ ctx with switchdb := ipcSwitchingAdd ctx.switchdb orig dest }, [])
  | .switchingDel fd =>
    (ipcSwitchingDel ctx.switchdb fd).map fun (_, switchdb) =>
      ({ ctx with switchdb := switchdb }, [])
  | .switchingCallbacks fd cbIn cbOut =>
    (ipcSwitchingCallbacks ctx.switchdb fd cbIn cbOut).map fun switchdb =>
      ({ ctx with switchdb := switchdb }, [])
  | .waitEvent timer sys =>
    (ipcWaitEvent ctx timer sys).map fun (_, ctx, _, _, io) => (ctx, io)

/-- The contexts reachable from the zeroed one. -/
def ReachableCtx (ctx : IpcCtx) : Prop := Reachable step {} ctx

end LibIpc.C

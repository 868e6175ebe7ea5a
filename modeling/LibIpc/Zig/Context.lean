import LibIpc.Zig.Switch
import LibIpc.Lib.SwapQueue
import LibIpc.Lib.Run

/-!
# The context of the Zig implementation (`context.zig`)

`State` is a context together with the descriptors the process has open: closing one that is not
open is a panic, and a new descriptor gets a number that is not in use. A function returns `none`
where the Zig code panics or reads an undefined value. It returns a Zig error together with the
state it leaves behind, since an error does not undo what was done before it. What a call does
outside the context is the list of `Io`.
-/

namespace LibIpc.Zig

open Lib

/-! ## The structure -/

/-- `Connection.Type`. -/
inductive ConnectionType where
  | ipc | external | server | switched
  deriving DecidableEq, Repr

/-- `Connection`. -/
structure Connection where
  t : ConnectionType
  path : Option (List Byte) := none
  deriving DecidableEq

/-- The bits of `events` and `revents` the library looks at. -/
structure PollEvents where
  pollin : Bool := false
  pollout : Bool := false
  pollerr : Bool := false
  pollhup : Bool := false
  pollnval : Bool := false
  deriving DecidableEq, Repr

/-- `os.pollfd`. -/
structure PollFd where
  fd : Fd
  events : PollEvents := {}
  revents : PollEvents := {}
  deriving DecidableEq, Repr

/-- `Context`: `connections` and `pollfd` have the same indices. -/
structure Context where
  connections : List Connection := []
  pollfd : List PollFd := []
  tx : List Message := []
  switchdb : SwitchDB := ∅
  timer : Option Int := none

/-- A context and the open descriptors of its process. -/
structure State where
  ctx : Context := {}
  openFds : Finset Fd := ∅

/-- The state with another queue of messages. -/
def State.withTx (s : State) (tx : List Message) : State := { s with ctx := { s.ctx with tx := tx } }

/-- The state with another switching table. -/
def State.withSwitchdb (s : State) (db : SwitchDB) : State :=
  { s with ctx := { s.ctx with switchdb := db } }

/-- The state with other `pollfd` entries. -/
def State.withPollfd (s : State) (pollfd : List PollFd) : State :=
  { s with ctx := { s.ctx with pollfd := pollfd } }

/-- What a call does outside the context: messages come and go, bytes are passed to `write(2)` or
to an output callback, descriptors to `close(2)`. -/
inductive Io where
  | queue (e : QueueEvent Message)
  | write (fd : Fd) (bs : List Byte)
  | close (fd : Fd)
  deriving DecidableEq

/-- The queue events of a log. -/
def queueEvents (io : List Io) : List (QueueEvent Message) :=
  io.filterMap fun
    | .queue e => some e
    | _ => none

/-! ## Reading and writing -/

/-- `Context.write`: the result, and the bytes `write(2)` accepted. -/
def Context.write (m : Message) (w : WriteResult) : Except Error Unit × List Byte :=
  match m.write ipcMaxMessageSize with
  | .error e => (.error e, [])
  | .ok (written, _) =>
    match w with
    | .error => (.error .os, [])
    | .wrote n => (.ok (), written.take n)

/-- `Context.read`: one `read(2)` into a zeroed buffer, all of which is then decoded. At most four
bytes are a disconnection. -/
def Context.read (ctx : Context) (index : Nat) (r : ReadResult) :
    Except Error (Option Message) :=
  match ctx.pollfd[index]?, ctx.connections[index]? with
  | some pollfd, some connection =>
    if connection.t = .server then
      .error .messageOnServer
    else
      match r with
      | .reset => .error .connectionResetByPeer
      | .error => .error .os
      | .ok bs =>
        if bs.length ≤ 4 then
          .ok none
        else
          (Message.read pollfd.fd bs ipcMaxMessageSize).map some
  | _, _ => .error .indexOutOfBounds

/-! ## Adding connections -/

/-- `Context.fd_to_index`. -/
def Context.fdToIndex (ctx : Context) (fd : Fd) : Option Nat :=
  ctx.pollfd.findIdx? fun p => p.fd = fd

/-- `Context.add_`. -/
def Context.add_ (ctx : Context) (newcon : Connection) (fd : Fd) : Context :=
  { ctx with
    connections := ctx.connections ++ [newcon]
    pollfd := ctx.pollfd ++ [{ fd := fd, events := { pollin := true } }] }

/-- Track a descriptor the kernel has just returned: its number was not in use. -/
def State.addNew (s : State) (newcon : Connection) (fd : Fd) : Option State :=
  if fd ∈ s.openFds then none
  else some { ctx := s.ctx.add_ newcon fd, openFds := insert fd s.openFds }

/-- `Context.schedule`. -/
def State.schedule (s : State) (m : Message) : State := s.withTx (s.ctx.tx ++ [m])

/-- The connection, from now on switched. -/
def Connection.switched (c : Connection) : Connection := { c with t := .switched }

/-- `Context.add_switch`. -/
def Context.addSwitch (ctx : Context) (fd1 fd2 : Fd) : Except Error Context :=
  match ctx.fdToIndex fd1, ctx.fdToIndex fd2 with
  | some indexOrigin, some indexDestinataire =>
    .ok { ctx with
      connections := (ctx.connections.modify indexOrigin .switched).modify indexDestinataire
        .switched
      switchdb := ctx.switchdb.addSwitch fd1 fd2 }
  | _, _ => .error .indexNotFound

/-! ## Closing connections -/

/-- `Context.close`. The descriptor is closed before its messages are dropped. -/
def State.close (s : State) (index : Nat) : Option (Except Error Unit × State × List Io) :=
  if index ≥ s.ctx.pollfd.length then
    some (.error .indexOutOfBounds, s, [])
  else do
    let _ ← s.ctx.connections[index]?
    let pollfd ← s.ctx.pollfd[index]?
    if pollfd.fd ∈ s.openFds then
      let dropped := dropAll Message.fd pollfd.fd s.ctx.tx.length s.ctx.tx 0
      return (.ok (),
        { ctx := { s.ctx with
            connections := swapRemove s.ctx.connections index
            pollfd := swapRemove s.ctx.pollfd index
            tx := dropped.1 }
          openFds := s.openFds.erase pollfd.fd },
        .close pollfd.fd :: dropped.2.map .queue)
    else none

/-- `Context.close_fd`. -/
def State.closeFd (s : State) (fd : Fd) : Option (Except Error Unit × State × List Io) :=
  match s.ctx.fdToIndex fd with
  | none => some (.error .indexNotFound, s, [])
  | some index => s.close index

/-- `Context.safe_close_fd`: nothing is done for a descriptor that is not open, and the error of
`close_fd` is not looked at. -/
def State.safeCloseFd (s : State) (fd : Fd) : Option (State × List Io) :=
  if fd ∈ s.openFds then (s.closeFd fd).map fun (_, s, io) => (s, io)
  else some (s, [])

/-- The three places where `wait_event` gives up a switch: both entries go from the table, then
both connections are closed. -/
def State.dropSwitch (s : State) (fd : Fd) : Option (State × List Io) := do
  let dest ← s.ctx.switchdb.getDest fd
  let (s, io₁) ← (s.withSwitchdb (s.ctx.switchdb.nuke fd)).safeCloseFd fd
  let (s, io₂) ← s.safeCloseFd dest
  return (s, io₁ ++ io₂)

/-! ## `wait_event` -/

/-- Everything the environment answers during one `wait_event`: the `revents` of each entry
(`none` when `poll(2)` fails), the milliseconds elapsed, the new client of `accept`, the answers
of `read(2)` and `write(2)`, and the callbacks of a switched descriptor. -/
structure WaitSys where
  poll : Option (List PollEvents) := none
  duration : Nat := 0
  accept : Except Error Fd := .error .os
  read : ReadResult := .error
  write : WriteResult := .error
  cbIn : In := .default .error
  cbOut : Out := .default .error

/-- What a call leaves: an event or an error, the state, and what was done outside. -/
abbrev Outcome := Option (Except Error Event × State × List Io)

/-- `Context.accept_new_client`, on the server entry at `index`. -/
def State.acceptNewClient (s : State) (server : PollFd) (connection : Connection)
    (accept : Except Error Fd) : Outcome :=
  match connection.path with
  | none => some (.error .serverWithNoPath, s, [])
  | some _ =>
    match accept with
    | .error e => some (.error e, s, [])
    | .ok newfd => do
      let s ← s.addNew { t := .ipc } newfd
      return (.ok { t := .connection, index := s.ctx.pollfd.length - 1, origin := server.fd }, s, [])

/-- `POLLIN` on a switched descriptor. -/
def State.readSwitched (s : State) (index : Nat) (fd : Fd) (cb : In) : Outcome :=
  let event := s.ctx.switchdb.handleEventRead index fd cb
  match event.t with
  | .switchRx => do
    -- A message the callback ignored is unwrapped too.
    let m ← event.m
    return (.ok event, s.schedule m, [.queue (.queued m)])
  | .disconnection => (s.dropSwitch fd).map fun (s, io) => (.ok event, s, io)
  | .error => (s.dropSwitch fd).map fun (s, io) => (.ok event, s, io)
  | _ => some (.error .incoherentSwitchError, s, [])

/-- Close the connection at `index` and report a disconnection; `origin` gives the descriptor of
the event from the state left. -/
def State.disconnect (s : State) (index : Nat) (origin : State → Fd) : Outcome := do
  let (r, s, io) ← s.close index
  match r with
  | .error e => return (.error e, s, io)
  | .ok () => return (.ok { t := .disconnection, index := index, origin := origin s }, s, io)

/-- `POLLIN` on an IPC connection. On a disconnection the event is made after the entry is removed,
from the array slot where it was: the entry moved there, if any, gives its descriptor. -/
def State.readMessage (s : State) (index : Nat) (pollfd : PollFd) (r : ReadResult) : Outcome :=
  let origin := fun (s : State) => (s.ctx.pollfd.getD index pollfd).fd
  match s.ctx.read index r with
  | .error .connectionResetByPeer => s.disconnect index origin
  | .error e => some (.error e, s, [])
  | .ok none => s.disconnect index origin
  | .ok (some m) =>
    some (.ok { t := .messageRx, index := index, origin := pollfd.fd, m := some m }, s, [])

/-- `POLLOUT`: the first message for the descriptor leaves the queue and is written. Without one,
the index is undefined. -/
def State.writeMessage (s : State) (index : Nat) (pollfd : PollFd) (connection : Connection)
    (sys : WaitSys) : Outcome := do
  let i ← s.ctx.tx.findIdx? fun m => m.fd = pollfd.fd
  let m ← s.ctx.tx[i]?
  let handed : Io := .queue (.handed s.ctx.tx i)
  let s := s.withTx (swapRemove s.ctx.tx i)
  if connection.t = .switched then
    let (event, bs) := s.ctx.switchdb.handleEventWrite index m sys.cbOut
    match event.t with
    | .switchTx => return (.ok event, s, [handed, .write m.fd bs])
    | .error =>
      let (s, io) ← s.dropSwitch pollfd.fd
      return (.ok event, s, handed :: .write m.fd bs :: io)
    | _ => return (.error .incoherentSwitchError, s, [handed, .write m.fd bs])
  else
    match Context.write m sys.write with
    | (.error e, bs) => return (.error e, s, [handed, .write m.fd bs])
    | (.ok (), bs) =>
      return (.ok { t := .messageTx, index := index, origin := pollfd.fd }, s,
        [handed, .write m.fd bs])

/-- The dispatch loop stops at this entry. (`POLLHUP` is tested twice, `POLLERR` never.) -/
def handled (p : PollFd) : Bool :=
  p.revents.pollin || p.revents.pollout || p.revents.pollhup || p.revents.pollnval

/-- The dispatch on the entry at `index`, where the loop stopped. -/
def State.dispatch (s : State) (index : Nat) (pollfd : PollFd) (connection : Connection)
    (sys : WaitSys) : Outcome :=
  if pollfd.revents.pollin then
    match connection.t with
    | .server => s.acceptNewClient pollfd connection sys.accept
    | .switched => s.readSwitched index pollfd.fd sys.cbIn
    | .external => some (.ok { t := .external, index := index, origin := pollfd.fd }, s, [])
    | .ipc => s.readMessage index pollfd sys.read
  else if pollfd.revents.pollout then
    let pollfd := { pollfd with events := { pollfd.events with pollout := false } }
    (s.withPollfd (s.ctx.pollfd.set index pollfd)).writeMessage index pollfd connection sys
  else if pollfd.revents.pollhup then
    s.disconnect index fun _ => pollfd.fd
  else
    some (.ok { t := .error, index := index, origin := pollfd.fd }, s, [])

/-- What `wait_event` asks `poll(2)` for: input always, output for a descriptor with a message (a
bit once set is cleared by `POLLOUT` only). -/
def pollEntries (ctx : Context) : List PollFd :=
  ctx.pollfd.map fun p =>
    { p with events :=
        { p.events with
          pollin := true
          pollout := p.events.pollout || ctx.tx.any fun m => m.fd = p.fd } }

/-- What `poll(2)` stores: the `revents` of each entry. -/
def storeRevents (ps : List PollFd) (revents : List PollEvents) : List PollFd :=
  ps.mapIdx fun i p => { p with revents := revents.getD i {} }

/-- The state `wait_event` polls in. -/
def State.prepared (s : State) : State := s.withPollfd (pollEntries s.ctx)

/-- The state once `poll(2)` has answered. -/
def State.polled (s : State) (revents : List PollEvents) : State :=
  s.withPollfd (storeRevents (pollEntries s.ctx) revents)

/-- `Context.wait_event`. -/
def State.waitEvent (s : State) (sys : WaitSys) : Outcome :=
  match sys.poll with
  | none => some (.error .os, s.prepared, [])
  | some revents =>
    let s := s.polled revents
    if s.ctx.pollfd.all fun p => p.revents = {} then
      let waitDuration := s.ctx.timer.getD (-1)
      let t := if (sys.duration : Int) ≥ waitDuration then EventType.timer else .error
      some (.ok { t := t, index := 0, origin := 0 }, s, [])
    else
      match s.ctx.pollfd.findIdx? handled with
      | none => some (.ok { t := .error, index := 0, origin := 0 }, s, [])
      | some index => do
        let pollfd ← s.ctx.pollfd[index]?
        let connection ← s.ctx.connections[index]?
        s.dispatch index pollfd connection sys

/-! ## Runs -/

/-- A public call, with its arguments and what the environment answers; `openFd` is the process
opening a descriptor of its own. -/
inductive Call where
  | openFd (fd : Fd)
  | serverInit (path : List Byte) (listen : Except Error Fd)
  | connectService (connect : Except Error Fd)
  | addExternal (fd : Fd)
  | addSwitch (fd1 fd2 : Fd)
  | schedule (m : Message)
  | close (index : Nat)
  | closeFd (fd : Fd)
  | waitEvent (sys : WaitSys)

/-- Keep the state and the log of a call. -/
def State.after {α : Type} (o : Option (Except Error α × State × List Io)) :
    Option (State × List Io) :=
  o.map Prod.snd

/-- One call on a state. -/
def step (s : State) : Call → Option (State × List Io)
  | .openFd fd => if fd ∈ s.openFds then none else some ({ s with openFds := insert fd s.openFds }, [])
  | .serverInit _ (.error _) => some (s, [])
  | .serverInit path (.ok fd) =>
    (s.addNew { t := .server, path := some path } fd).map fun s => (s, [])
  | .connectService (.error _) => some (s, [])
  | .connectService (.ok fd) => (s.addNew { t := .ipc } fd).map fun s => (s, [])
  | .addExternal fd => some ({ s with ctx := s.ctx.add_ { t := .external } fd }, [])
  | .addSwitch fd1 fd2 =>
    match s.ctx.addSwitch fd1 fd2 with
    | .error _ => some (s, [])
    | .ok ctx => some ({ s with ctx := ctx }, [])
  | .schedule m => some (s.schedule m, [.queue (.queued m)])
  | .close index => State.after (s.close index)
  | .closeFd fd => State.after (s.closeFd fd)
  | .waitEvent sys => State.after (s.waitEvent sys)

/-- The states reachable from the empty context. -/
def ReachableState (s : State) : Prop := Reachable step {} s

end LibIpc.Zig

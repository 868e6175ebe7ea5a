import LibIpc.C.Shutdown
import LibIpc.Lib.Exchange
import LibIpc.Lib.Link

/-!
# A client of the echo service (`examples/pong.c`)

`non_interactive` formats a message, writes it, waits for the answer, and starts again. `PingPong` is
such a client with `pongd` and the connection between them; everything else, that is, the other
clients, what `poll(2)` reports and when, and the clock, is left to the environment, so that what
holds of this client holds of each one.
-/

namespace LibIpc.C

open Lib

/-! ## Formatting a message (`message.c`) -/

/-- `MSG_TYPE_DATA`. -/
def msgTypeData : Byte := 2

/-- The `IPC_ERROR_MESSAGE_FORMAT__*` codes. -/
inductive MessageFormatError where
  | messageSize
  | inconsistentParams
  deriving DecidableEq

theorem length_take_lt {p : List Byte} {length : Nat} (hmax : ¬ length > ipcMaxMessageSize) :
    (p.take length).length < 2 ^ 32 := by
  rw [List.length_take]
  rw [ipcMaxMessageSize_eq] at hmax
  omega

theorem length_map_nil {q : Option (List Byte)} :
    ∀ p ∈ q.map fun _ => ([] : List Byte), p.length = 0 := by
  intro p hp
  obtain ⟨-, -, rfl⟩ := Option.map_eq_some_iff.mp hp
  rfl

/-- `ipc_message_format` (allocation assumed to succeed). A payload shorter than `length` is read
beyond its end (`none`). -/
def ipcMessageFormat (m : IpcMessage) (type utype : Byte) (payload : Option (List Byte))
    (length : Nat) : Option (Except MessageFormatError IpcMessage) :=
  if hmax : length > ipcMaxMessageSize then some (.error .messageSize)
  else if length = 0 ∧ payload.isSome ∨ length > 0 ∧ payload.isNone then
    some (.error .inconsistentParams)
  else
    match payload with
    | none =>
      -- The former payload is kept, of which a length of 0 leaves nothing.
      some (.ok
        { IpcMessage.noPayload type utype m.fd with
          payload := m.payload.map fun _ => []
          payload_length := length_map_nil })
    | some p =>
      if length ≤ p.length then
        some (.ok (.ofPayload type utype m.fd (p.take length) (length_take_lt hmax)))
      else none

/-- `ipc_message_format_data`. -/
def ipcMessageFormatData (m : IpcMessage) (utype : Byte) (payload : Option (List Byte))
    (length : Nat) : Option (Except MessageFormatError IpcMessage) :=
  ipcMessageFormat m msgTypeData utype payload length

/-! ## The client -/

/-- What a client does next: it writes or closes; it waits for an answer; it is gone. -/
inductive PongPhase where
  | ready
  | waiting
  | quit
  deriving DecidableEq

/-- A client, with the payloads it has still to send. -/
structure Pong where
  todo : List (List Byte)
  phase : PongPhase := .ready

/-- `non_interactive`, once connected: `nbMsg` times the string `msgStr`, with its terminator. -/
def Pong.nonInteractive (nbMsg : Nat) (msgStr : List Byte) : Pong :=
  { todo := List.replicate nbMsg (msgStr ++ [0]) }

/-! ## The connection -/

/-- Where the connection is at the service: `accept(2)` has not returned it, it is open, or it is
closed. -/
inductive Stage where
  | pending
  | accepted
  | closed
  deriving DecidableEq

/-- The service, a client, and the two directions of their connection. -/
structure PingPong where
  server : Pongd
  client : Pong
  stage : Stage := .pending
  up : Link Byte := []
  down : Link Byte := []

/-- A step: a round of the service, or what the client does, with the answers of the system calls. -/
inductive Move where
  | serves (sys : WaitSys)
  | writes (s : SendResult)
  | reads (rs : List RecvResult)
  | closes

/-- What is left to read once `recv(2)` has given these answers. Once the other end is closed and
everything is read it answers with no bytes. -/
def recvFrom (closed : Bool) (l : Link Byte) : List RecvResult → Option (Link Byte)
  | [] => some l
  | .error _ :: rs => recvFrom closed l rs
  | .ok [] :: rs => if closed ∧ l.flatten = [] then recvFrom closed l rs else none
  | .ok bs :: rs => (l.read bs).bind fun l => recvFrom closed l rs

/-- A call of `ipc_read_fd` on a stream, for which these are all the answers it needs. -/
def readFrom (closed : Bool) (l : Link Byte) (rs : List RecvResult) :
    Option (Except IpcErrorCode IpcMessage × Link Byte) :=
  match ipcReadFd default rs with
  | .returned r [] => (recvFrom closed l rs).map fun l => (r, l)
  | _ => none

/-- The client that the service reads from in this round, if it does. -/
def readFd (ctx : IpcCtx) (sys : WaitSys) : Option Fd := do
  let revents ← sys.poll
  let es ← ctx.polledEntries revents
  let e ← es.find? handled
  if readable e ∧ e.1.type = .ipc then some e.2.fd else none

/-- The client accepted in this part of a run has the number `fd`. -/
def acceptedOn (fd : Fd) (log : List PongdIo) : Bool :=
  log.any fun
    | .event e => e.type = .connection ∧ e.origin = fd
    | .io _ => false

/-- What `send(2)` accepted on `fd`, call by call. -/
def deliveredOn (fd : Fd) (log : List PongdIo) : List (List Byte) :=
  (sentOn fd (libraryIo log)).map fun t => t.2.accepted t.1

/-- What is left of the client's stream when the service waits. -/
def PingPong.upAfter (fd : Fd) (net : PingPong) (sys : WaitSys) : Option (Link Byte) :=
  if readFd net.server.ctx sys = some fd then
    (readFrom (net.client.phase = .quit) net.up sys.recv).map Prod.snd
  else some net.up

/-- A round of the service, seen from the connection `fd`. Before the client is accepted and once it
is gone, the number may be that of another one; while it is open, the system does not give it
again. When the service exits, its descriptors are closed. -/
def PingPong.serves (fd : Fd) (net : PingPong) (sys : WaitSys) : Option PingPong := do
  let (server, log) ← net.server.round sys
  match net.stage with
  | .pending =>
    let stage : Stage :=
      if server.exited then .closed else if acceptedOn fd log then .accepted else .pending
    return { net with server := server, stage := stage }
  | .accepted =>
    if acceptedOn fd log then none
    else
      let up ← net.upAfter fd sys
      let stage : Stage :=
        if server.exited ∨ fd ∈ closedFds (libraryIo log) then .closed else .accepted
      return { net with
        server := server
        stage := stage
        up := up
        down := net.down ++ deliveredOn fd log }
  | .closed => return { net with server := server }

/-- `ipc_message_format_data`, then `ipc_write_fd`; an error ends the client. -/
def PingPong.writes (net : PingPong) (s : SendResult) :
    Option (PingPong × List (Exchanged IpcMessage IpcMessage)) :=
  match net.client.phase, net.client.todo with
  | .ready, p :: todo => do
    match ← ipcMessageFormatData default 42 (some p) p.length with
    | .error _ => return ({ net with client := { net.client with phase := .quit } }, [])
    | .ok m =>
      let (r, bs) ← ipcWriteFd m s
      let up := net.up ++ [s.accepted bs]
      if r = .none then
        return ({ net with client := { todo := todo, phase := .waiting }, up := up }, [.asked m])
      else return ({ net with client := { net.client with phase := .quit }, up := up }, [])
  | _, _ => none

/-- `ipc_read` from the only connection; an error ends the client. -/
def PingPong.reads (net : PingPong) (rs : List RecvResult) :
    Option (PingPong × List (Exchanged IpcMessage IpcMessage)) :=
  if net.client.phase = .waiting then do
    let (r, down) ← readFrom (net.stage = .closed) net.down rs
    match r with
    | .error _ =>
      return ({ net with client := { net.client with phase := .quit }, down := down }, [])
    | .ok m =>
      return ({ net with client := { net.client with phase := .ready }, down := down }, [.got m])
  else none

/-- One step of the system. What can be seen are the messages the client has sent and those it has
received. -/
def PingPong.step (fd : Fd) (net : PingPong) :
    Move → Option (PingPong × List (Exchanged IpcMessage IpcMessage))
  | .serves sys => (net.serves fd sys).map fun net => (net, [])
  | .writes s => net.writes s
  | .reads rs => net.reads rs
  | .closes =>
    if net.client.phase = .ready ∧ net.client.todo = [] then
      some ({ net with client := { net.client with phase := .quit } }, [])
    else none

end LibIpc.C

import LibIpc.Zig.Context

/-!
# The daemons of the Zig implementation (`ipcd.zig`, `tcpd.zig`)

Both daemons turn the requests of their clients into connections. A client asks `ipcd` for a service
with a lookup, `service;name1 uri1;name2 uri2`; `tcpd` is given a URI. What a handler does depends
on how the text is taken apart (`std.mem.split`, `util.URI`, `std.fmt.parseUnsigned`,
`std.net.Address.parseIp`) and on the answers of the system calls (`Env`). `Fate` is how it ends:
the event loop goes on only when the handler neither fails, nor panics, nor exits.
-/

namespace LibIpc.Zig

open Lib

/-! ## Taking a text apart -/

/-- What comes before and after the first `delimiter`. -/
def cutAt (delimiter : List Byte) : List Byte → Option (List Byte × List Byte)
  | [] => none
  | c :: text =>
    if delimiter.isPrefixOf (c :: text) then some ([], (c :: text).drop delimiter.length)
    else (cutAt delimiter text).map fun (before, after) => (c :: before, after)

/-- `SplitIterator.first`. -/
def splitFirst (delimiter text : List Byte) : List Byte := ((cutAt delimiter text).getD (text, [])).1

/-- `SplitIterator.rest` after `first`. -/
def splitRest (delimiter text : List Byte) : List Byte := ((cutAt delimiter text).getD (text, [])).2

/-- `util.URI`. -/
structure URI where
  protocol : List Byte
  address : List Byte
  path : List Byte
  deriving DecidableEq

/-- `URI.read`, with `://` and `/` for delimiters; `none` when the unwrap of `next` fails. -/
def URI.read (uriToDecode : List Byte) : Option URI :=
  (cutAt [58, 47, 47] uriToDecode).map fun (protocol, after) =>
    -- The field that `next` returns ends at another `://`.
    let field := splitFirst [58, 47, 47] after
    { protocol := protocol, address := splitFirst [47] field, path := splitRest [47] field }

/-- The lookup of `ipcd`: of the parts of the message between `;`, the first names the service, each
other one is `sname target`. The last one with the name gives the destination. -/
def finalDestination (payload : List Byte) : Option (List Byte) :=
  match payload.splitOn 59 with
  | [] => none
  | serviceToContact :: parts =>
    parts.foldl
      (fun found next =>
        match next.splitOn 32 with
        | sname :: target :: _ => if serviceToContact = sname then some target else found
        | _ => found)
      none

/-- The errors a handler can end with. -/
inductive DaemonError where
  | ipc (e : Error)
  | nameTooLong
  | invalidCharacter
  | overflow
  | invalidIPAddressFormat
  deriving DecidableEq

/-- One digit of `parseUnsigned(u16, _, 10)`; underscores are skipped. -/
def parseDigit (x : Nat) (c : Byte) : Except DaemonError Nat :=
  if c = 95 then .ok x
  else if c < 48 ∨ 57 < c then .error .invalidCharacter
  else if x * 10 + (c.toNat - 48) > 65535 then .error .overflow
  else .ok (x * 10 + (c.toNat - 48))

/-- `std.fmt.parseUnsigned(u16, buf, 10)`. -/
def parseUnsigned (buf : List Byte) : Except DaemonError Nat :=
  if buf = [] ∨ buf.head? = some 95 ∨ buf.getLast? = some 95 then .error .invalidCharacter
  else buf.foldlM parseDigit 0

/-- The variables of `Ip4Address.parse`. -/
structure Ip4State where
  octets : List Nat := []
  x : Nat := 0
  sawAnyDigits : Bool := false
  hasZeroPrefix : Bool := false

/-- One character of `Ip4Address.parse`; `none` for any of its errors. -/
def Ip4State.next (p : Ip4State) (c : Byte) : Option Ip4State :=
  if c = 46 then
    if p.sawAnyDigits ∧ p.octets.length ≠ 3 then some { octets := p.octets ++ [p.x] } else none
  else if 48 ≤ c ∧ c ≤ 57 then
    if p.hasZeroPrefix ∨ p.x * 10 + (c.toNat - 48) > 255 then none
    else
      some { p with
        x := p.x * 10 + (c.toNat - 48)
        sawAnyDigits := true
        hasZeroPrefix := p.hasZeroPrefix || (c = 48 && !p.sawAnyDigits) }
  else none

/-- `net.Address.parseIp` on a text without colons, which is no IPv6 address. -/
def parseIp (name : List Byte) : Except DaemonError (List Nat) :=
  match name.foldlM Ip4State.next {} with
  | some p =>
    if p.octets.length = 3 ∧ p.sawAnyDigits then .ok (p.octets ++ [p.x])
    else .error .invalidIPAddressFormat
  | none => .error .invalidIPAddressFormat

/-! ## System calls -/

/-- What the environment answers during one handler. `connect` and `tcpConnect` give the new
descriptors, `write` and `read` are for the messages of the context, `streamWrite` and `streamRead`
for the bare TCP stream, `sendmsg` for `send_fd`. -/
structure Env where
  rundir : List Byte := []
  accept : Except Error Fd := .error .os
  connect : Except Error Fd := .error .os
  tcpConnect : Except Error Fd := .error .os
  write : WriteResult := .error
  read : ReadResult := .error
  streamWrite : WriteResult := .error
  streamRead : ReadResult := .error
  sendmsg : WriteResult := .error

/-- The new descriptors have numbers that are not in use. -/
structure Env.Fresh (env : Env) (s : State) : Prop where
  connect : ∀ fd, env.connect = .ok fd → fd ∉ s.openFds
  tcpConnect : ∀ fd, env.tcpConnect = .ok fd → fd ∉ s.openFds
  accept : ∀ fd, env.accept = .ok fd → fd ∉ s.openFds
  distinct : ∀ fd fd', env.accept = .ok fd → env.connect = .ok fd' → fd ≠ fd'

/-- The path of the UNIX socket of a service goes through a buffer of 1000 bytes, then into the 108
of `sockaddr_un`. -/
def Env.connectService (env : Env) (serviceName : List Byte) : Except DaemonError Fd :=
  if env.rundir.length + 1 + serviceName.length > 1000 then .error (.ipc .noSpaceLeft)
  else if env.rundir.length + 1 + serviceName.length > 108 then .error .nameTooLong
  else
    match env.connect with
    | .error e => .error (.ipc e)
    | .ok fd => .ok fd

/-- The context tracks a new descriptor. -/
def State.track (s : State) (newcon : Connection) (fd : Fd) : State :=
  { ctx := s.ctx.add_ newcon fd, openFds := insert fd s.openFds }

/-! ## Handlers -/

/-- How a handler ends: back to the event loop, with an error that leaves `create_service`, with a
panic, or with `os.exit`. -/
inductive Fate where
  | continues
  | fails (e : DaemonError)
  | panics
  | exits
  deriving DecidableEq

/-- What a handler leaves behind. -/
structure Handled where
  fate : Fate
  state : State
  io : List Io := []

/-- The result of a handler that has done `io` before. -/
def Handled.after (io : List Io) (r : Handled) : Handled := { r with io := io ++ r.io }

/-- The end of a scope with `defer ctx.close_fd (fd) catch {}`. A panic or an exit runs no `defer`. -/
def Handled.deferClose (r : Handled) (fd : Fd) : Handled :=
  match r.fate with
  | .panics => r
  | .exits => r
  | fate =>
    match r.state.closeFd fd with
    | none => { r with fate := .panics }
    | some (_, s, io) => { fate := fate, state := s, io := r.io ++ io }

/-- The end of a scope with `errdefer ctx.close (index) catch {}`. -/
def Handled.errdeferClose (r : Handled) (index : Nat) : Handled :=
  match r.fate with
  | .fails e =>
    match r.state.close index with
    | none => { r with fate := .panics }
    | some (_, s, io) => { fate := .fails e, state := s, io := r.io ++ io }
  | _ => r

/-- The end of a scope with `errdefer ctx.close_fd (fd) catch {}`. -/
def Handled.errdeferCloseFd (r : Handled) (fd : Fd) : Handled :=
  match r.fate with
  | .fails _ => r.deferClose fd
  | _ => r

/-- `stream.close()` on a descriptor the context does not track. -/
def Handled.closeStream (r : Handled) (stream : Fd) : Handled :=
  if stream ∈ r.state.openFds then
    { r with
      state := { r.state with openFds := r.state.openFds.erase stream }
      io := r.io ++ [.close stream] }
  else { r with fate := .panics }

/-- The end of a scope with `errdefer stream.close()`. -/
def Handled.errdeferStream (r : Handled) (stream : Fd) : Handled :=
  match r.fate with
  | .fails _ => r.closeStream stream
  | _ => r

/-- `try ctx.close (index)`, the last statement of a handler. -/
def State.tryClose (s : State) (o : Option (Except Error Unit × State × List Io)) : Handled :=
  match o with
  | none => { fate := .panics, state := s }
  | some (.error e, s, io) => { fate := .fails (.ipc e), state := s, io := io }
  | some (.ok (), s, io) => { fate := .continues, state := s, io := io }

/-- "ok". -/
def okText : List Byte := [111, 107]

/-- "unix". -/
def unixText : List Byte := [117, 110, 105, 120]

/-- `send_fd` with the message "ok": an error is only logged, a short count is the end. -/
def sendFd (s : State) (sockfd : Fd) (sendmsg : WriteResult) : Handled :=
  match sendmsg with
  | .error => { fate := .continues, state := s }
  | .wrote n =>
    { fate := if n = okText.length then .continues else .exits
      state := s
      io := [.write sockfd (okText.take n)] }

/-- `Context.read_fd`. -/
def State.readFd (s : State) (fd : Fd) (r : ReadResult) : Except Error (Option Message) :=
  match s.ctx.fdToIndex fd with
  | none => .error .indexNotFound
  | some index => s.ctx.read index r

/-- `try ctx.write (m)`, then the rest. -/
def tryWrite (s : State) (m : Message) (w : WriteResult) (rest : Handled) : Handled :=
  match Context.write m w with
  | (.error e, bs) => { fate := .fails (.ipc e), state := s, io := [.write m.fd bs] }
  | (.ok (), bs) => rest.after [.write m.fd bs]

/-! ### `ipcd` -/

/-- The service is on this machine: `ipcd` connects to it and passes the descriptor on. -/
def ipcdHandOver (env : Env) (s : State) (origin : Fd) (name : List Byte) : Handled :=
  match env.connectService name with
  | .error e => { fate := .fails e, state := s }
  | .ok newfd =>
    let s := s.track { t := .ipc } newfd
    let sent := sendFd s origin env.sendmsg
    match sent.fate with
    | .continues => (s.tryClose (s.closeFd newfd)).after sent.io
    | _ => sent

/-- The answer of the daemon of a protocol: `ipcd` passes its descriptor on when it is "ok". -/
def ipcdAnswered (env : Env) (s : State) (origin servicefd : Fd) : Handled :=
  match s.readFd servicefd env.read with
  | .error e => { fate := .fails (.ipc e), state := s }
  | .ok none => { fate := .continues, state := s }
  | .ok (some r) =>
    if r.payload = okText then sendFd s origin env.sendmsg else { fate := .continues, state := s }

/-- The service is reached through the daemon of a protocol: `ipcd` sends it the destination. -/
def ipcdAsk (env : Env) (s : State) (origin : Fd) (protocol dest : List Byte) : Handled :=
  match env.connectService protocol with
  | .error e => { fate := .fails e, state := s }
  | .ok servicefd =>
    let s := s.track { t := .ipc } servicefd
    (tryWrite s { fd := servicefd, payload := dest } env.write
      (ipcdAnswered env s origin servicefd)).deferClose servicefd

/-- "lookup message without data". -/
def lookupWithoutData : List Byte :=
  [108, 111, 111, 107, 117, 112, 32, 109, 101, 115, 115, 97, 103, 101, 32, 119, 105, 116, 104, 111,
    117, 116, 32, 100, 97, 116, 97]

/-- `.MESSAGE_RX` of `ipcd`. The case without a URI comes after `URI.read`, which needs one. -/
def ipcdMessageRx (env : Env) (s : State) (origin : Fd) (m : Option Message) : Handled :=
  let body : Handled :=
    match m with
    | none =>
      tryWrite s { fd := origin, payload := lookupWithoutData } env.write
        { fate := .continues, state := s }
    | some m =>
      match finalDestination m.payload with
      | none => { fate := .continues, state := s }
      | some dest =>
        match URI.read dest with
        | none => { fate := .panics, state := s }
        | some uri =>
          if uri.protocol = dest then ipcdHandOver env s origin dest
          else if uri.protocol = unixText then ipcdHandOver env s origin uri.address
          else ipcdAsk env s origin uri.protocol dest
  body.deferClose origin

/-! ### `tcpd` -/

/-- The two ends of a new switch: the stream is tracked as an external connection first. -/
def switchStream (s : State) (stream fd1 fd2 : Fd) : Handled :=
  let ctx := s.ctx.add_ { t := .external } stream
  match ctx.addSwitch fd1 fd2 with
  | .error e => { fate := .fails (.ipc e), state := { s with ctx := ctx } }
  | .ok ctx => { fate := .continues, state := { s with ctx := ctx } }

/-- The answer of the remote `tcpd`: anything but "ok" ends both connections. -/
def tcpdAnswered (env : Env) (s : State) (index : Nat) (origin stream : Fd) (bs : List Byte) :
    Handled :=
  if bs = okText then
    tryWrite s { fd := origin, payload := okText } env.write (switchStream s stream origin stream)
  else
    let closed := Handled.closeStream { fate := .continues, state := s } stream
    match closed.fate with
    | .continues => (closed.state.tryClose (closed.state.close index)).after closed.io
    | _ => closed

/-- `.MESSAGE_RX` of `tcpd`, once the TCP connection is there: the path is sent, and "ok" is
expected. -/
def tcpdConnected (env : Env) (s : State) (index : Nat) (origin stream : Fd) (path : List Byte) :
    Handled :=
  let body : Handled :=
    match env.streamWrite with
    | .error => { fate := .fails (.ipc .os), state := s }
    | .wrote n =>
      let answered : Handled :=
        match env.streamRead with
        | .ok bs => tcpdAnswered env s index origin stream bs
        | .reset => { fate := .fails (.ipc .connectionResetByPeer), state := s }
        | .error => { fate := .fails (.ipc .os), state := s }
      answered.after [.write stream (path.take n)]
  body.errdeferStream stream

/-- "no". -/
def noText : List Byte := [110, 111]

/-- `.MESSAGE_RX` of `tcpd`. -/
def tcpdMessageRx (env : Env) (s : State) (index : Nat) (origin : Fd) (m : Option Message) :
    Handled :=
  let body : Handled :=
    match m with
    | none =>
      tryWrite s { fd := origin, payload := noText } env.write (s.tryClose (s.close index))
    | some m =>
      match URI.read m.payload with
      | none => { fate := .panics, state := s }
      | some uri =>
        match parseUnsigned (splitRest [58] uri.address) with
        | .error e => { fate := .fails e, state := s }
        | .ok _ =>
          match parseIp (splitFirst [58] uri.address) with
          | .error e => { fate := .fails e, state := s }
          | .ok _ =>
            match env.tcpConnect with
            | .error e => { fate := .fails (.ipc e), state := s }
            | .ok stream =>
              tcpdConnected env { s with openFds := insert stream s.openFds } index origin stream
                uri.path
  body.errdeferClose index

/-- `.EXTERNAL` of `tcpd`: a remote daemon asks for a service of this machine. -/
def tcpdExternal (env : Env) (s : State) : Handled :=
  match env.accept with
  | .error e => { fate := .fails (.ipc e), state := s }
  | .ok client =>
    let s := { s with openFds := insert client s.openFds }
    let body : Handled :=
      match env.streamRead with
      | .reset => { fate := .fails (.ipc .connectionResetByPeer), state := s }
      | .error => { fate := .fails (.ipc .os), state := s }
      | .ok serviceToContact =>
        if serviceToContact = [] then
          Handled.closeStream { fate := .continues, state := s } client
        else
          match env.connectService serviceToContact with
          | .error _ => Handled.closeStream { fate := .continues, state := s } client
          | .ok servicefd =>
            let s := s.track { t := .ipc } servicefd
            let answered : Handled :=
              match env.streamWrite with
              | .error => { fate := .fails (.ipc .os), state := s }
              | .wrote n =>
                (switchStream s client client servicefd).after [.write client (okText.take n)]
            answered.errdeferCloseFd servicefd
    body.errdeferStream client

/-! ## The event loop -/

/-- The two daemons. -/
inductive Daemon where
  | ipcd
  | tcpd
  deriving DecidableEq

/-- `.MESSAGE_RX`. -/
def Daemon.messageRx (d : Daemon) (env : Env) (s : State) (event : Event) : Handled :=
  match d with
  | .ipcd => ipcdMessageRx env s event.origin event.m
  | .tcpd => tcpdMessageRx env s event.index event.origin event.m

/-- What a daemon does with an event: `none` when it leaves the loop. -/
def Daemon.handle (d : Daemon) (env : Env) (s : State) (event : Event) : Option Handled :=
  match event.t, d with
  | .timer, _ => some { fate := .continues, state := s }
  | .connection, _ => some { fate := .continues, state := s }
  | .disconnection, _ => some { fate := .continues, state := s }
  | .messageTx, _ => some { fate := .continues, state := s }
  | .messageRx, d => some (d.messageRx env s event)
  | .external, .tcpd => some (tcpdExternal env s)
  | .switchRx, .tcpd => some { fate := .continues, state := s }
  | .switchTx, .tcpd => some { fate := .continues, state := s }
  | _, _ => none

/-- The contexts the daemons start with: `ipcd` listens on one UNIX socket, `tcpd` on another and,
as an external connection, on a TCP socket. -/
def Daemon.start (d : Daemon) (path : List Byte) (fd tcpfd : Fd) : State :=
  let s := State.track {} { t := .server, path := some path } fd
  match d with
  | .ipcd => s
  | .tcpd => s.track { t := .external } tcpfd

/-- The contexts in which a daemon calls `wait_event`. -/
inductive Daemon.Reached (d : Daemon) : State → Prop
  | start (path : List Byte) {fd tcpfd : Fd} : fd ≠ tcpfd → Reached d (d.start path fd tcpfd)
  | turn {s s' : State} {sys : WaitSys} {event : Event} {io : List Io} {env : Env} {r : Handled} :
      Reached d s → s.waitEvent sys = some (.ok event, s', io) → env.Fresh s' →
      d.handle env s' event = some r → r.fate = .continues → Reached d r.state

end LibIpc.Zig

import LibIpc.Lib.Link
import LibIpc.Zig.Relay
import LibIpc.Zig.Survival

/-!
# The hand-over of a connection (`ipcd.zig`, `tcpd.zig`, `Context.connect_ipcd`)

A client asks `ipcd` for a service of another machine. `ipcd` asks the `tcpd` of its machine, which
asks the `tcpd` of the other one, which connects to the service; each of them then waits for "ok"
and passes it on. The descriptor on which `ipcd` has read its "ok" becomes the connection of the
client, and the two `tcpd` switch theirs: the frames of the service follow the "ok" on the same
streams.

`Net` has the contexts of the three daemons and the streams between the five processes, `Move` the
steps of each of them. A handler that waits for an answer is two moves, before and after the read;
`ipcdMessageRx_asked` and `tcpdMessageRx_asked` say that they are the whole handler.
-/

namespace LibIpc.Zig

open Lib

/-! ## The two halves of a handler -/

/-- The request of `ipcd` to the daemon of a protocol: the new connection, and what is written. -/
def ipcdAsked (env : Env) (m : Message) : Option (Fd × List Byte) := do
  let dest ← finalDestination m.payload
  let uri ← URI.read dest
  if uri.protocol = unixText then none
  else
    match env.connectService uri.protocol with
    | .error _ => none
    | .ok servicefd =>
      match Context.write { fd := servicefd, payload := dest } env.write with
      | (.error _, _) => none
      | (.ok (), bs) => some (servicefd, bs)

/-- The rest of the handler of `ipcd`. -/
def ipcdFinish (env : Env) (s : State) (origin servicefd : Fd) : Handled :=
  ((ipcdAnswered env s origin servicefd).deferClose servicefd).deferClose origin

/-- The request of `tcpd` to a remote one: the new connection, and what is written. -/
def tcpdAsked (env : Env) (m : Message) : Option (Fd × List Byte) := do
  let uri ← URI.read m.payload
  match parseUnsigned (splitRest [58] uri.address), parseIp (splitFirst [58] uri.address),
    env.tcpConnect, env.streamWrite with
  | .ok _, .ok _, .ok stream, .wrote n => some (stream, uri.path.take n)
  | _, _, _, _ => none

/-- The rest of the handler of `tcpd`, once the answer `bs` is there. -/
def tcpdFinish (env : Env) (s : State) (index : Nat) (origin stream : Fd) (bs : List Byte) :
    Handled :=
  ((tcpdAnswered env s index origin stream bs).errdeferStream stream).errdeferClose index

theorem after_deferClose (r : Handled) (io : List Io) (fd : Fd) :
    (r.after io).deferClose fd = (r.deferClose fd).after io := by
  obtain ⟨fate, state, io₀⟩ := r
  cases fate with
  | panics => rfl
  | exits => rfl
  | continues =>
    simp only [Handled.deferClose, Handled.after]
    cases state.closeFd fd with
    | none => rfl
    | some c => simp only [List.append_assoc]
  | fails e =>
    simp only [Handled.deferClose, Handled.after]
    cases state.closeFd fd with
    | none => rfl
    | some c => simp only [List.append_assoc]

theorem ipcdMessageRx_asked {env : Env} {s : State} {origin servicefd : Fd} {m : Message}
    {bs : List Byte} (h : ipcdAsked env m = some (servicefd, bs)) :
    ipcdMessageRx env s origin (some m) =
      (ipcdFinish env (s.track { t := .ipc } servicefd) origin servicefd).after
        [.write servicefd bs] := by
  simp only [ipcdAsked, Option.bind_eq_bind] at h
  obtain ⟨dest, hdest, h⟩ := Option.bind_eq_some_iff.mp h
  obtain ⟨uri, huri, h⟩ := Option.bind_eq_some_iff.mp h
  split at h
  · cases h
  · rename_i hunix
    split at h
    · cases h
    · rename_i fd hconnect
      split at h
      · cases h
      · rename_i bs' hwrite
        cases h
        simp only [ipcdMessageRx, hdest, huri, if_neg (protocol_ne huri), if_neg hunix, ipcdAsk,
          hconnect, tryWrite, hwrite, ipcdFinish, after_deferClose]

theorem after_errdeferClose (r : Handled) (io : List Io) (index : Nat) :
    (r.after io).errdeferClose index = (r.errdeferClose index).after io := by
  obtain ⟨fate, state, io₀⟩ := r
  cases fate with
  | continues => rfl
  | panics => rfl
  | exits => rfl
  | fails e =>
    simp only [Handled.errdeferClose, Handled.after]
    cases state.close index with
    | none => rfl
    | some c => simp only [List.append_assoc]

theorem after_errdeferStream (r : Handled) (io : List Io) (stream : Fd) :
    (r.after io).errdeferStream stream = (r.errdeferStream stream).after io := by
  obtain ⟨fate, state, io₀⟩ := r
  cases fate with
  | continues => rfl
  | panics => rfl
  | exits => rfl
  | fails e =>
    simp only [Handled.errdeferStream, Handled.closeStream, Handled.after]
    by_cases hopen : stream ∈ state.openFds
    · simp [hopen]
    · simp [hopen]

theorem tcpdMessageRx_asked {env : Env} {s : State} {index : Nat} {origin stream : Fd} {m : Message}
    {path bs : List Byte} (h : tcpdAsked env m = some (stream, path))
    (hread : env.streamRead = .ok bs) :
    tcpdMessageRx env s index origin (some m) =
      (tcpdFinish env { s with openFds := insert stream s.openFds } index origin stream bs).after
        [.write stream path] := by
  simp only [tcpdAsked, Option.bind_eq_bind] at h
  obtain ⟨uri, huri, h⟩ := Option.bind_eq_some_iff.mp h
  split at h
  · rename_i port ip stream' n hport hip hconnect hwrite
    cases h
    simp only [tcpdMessageRx, huri, hport, hip, hconnect, tcpdConnected, hwrite, hread, tcpdFinish,
      after_errdeferStream, after_errdeferClose]
  · cases h

/-! ## The network -/

/-- The descriptors of a hand-over, each a number of its own process: in the client, `ipcdfd` and the
`newfd` it is given; in `ipcd`, `requester` for the client and `servicefd` for the local `tcpd`; there,
`origin` for `ipcd` and the TCP `stream`; in the remote `tcpd`, `remote` for the TCP stream and
`service`. -/
structure Route where
  lookup : List Byte
  ipcdfd : Fd
  newfd : Fd
  requester : Fd
  servicefd : Fd
  origin : Fd
  stream : Fd
  remote : Fd
  service : Fd

/-- How far a process has come: it has not asked yet, waits for the answer, has got its "ok", or
something else. -/
inductive Phase where
  | idle
  | waiting
  | done
  | failed
  deriving DecidableEq

/-- The five processes and the streams between them. `near` is the local `tcpd`, `far` the remote
one, `index` where `near` has the connection it answers, `sent` what the service has sent. The stream
`fromNear` is first read by `ipcd`, then by the client. -/
structure Net where
  client : Phase := .idle
  ipcd : State
  ipcdPhase : Phase := .idle
  near : State
  nearPhase : Phase := .idle
  index : Nat := 0
  far : State
  farPhase : Phase := .idle
  sent : List (List Byte) := []
  toIpcd : Link Byte := []
  toNear : Link Byte := []
  toFar : Link Byte := []
  fromService : Link Byte := []
  fromFar : Link Byte := []
  fromNear : Link Byte := []
  fromIpcd : Link Byte := []

/-- The steps of the processes, each with the answers of the system calls it makes. A turn is one of
a daemon with other connections, or with the switch once there is one. -/
inductive Move where
  | clientAsks (w : WriteResult)
  | ipcdTurn (sys : WaitSys)
  | ipcdAsks (sys : WaitSys) (env : Env)
  | nearTurn (sys : WaitSys)
  | nearAsks (sys : WaitSys) (env : Env)
  | farTurn (sys : WaitSys)
  | farAccepts (sys : WaitSys) (env : Env)
  | serviceSends (p : List Byte)
  | nearHears (env : Env)
  | ipcdHears (env : Env)
  | clientHears (bs : List Byte)
  | clientReads (bs : List Byte)

/-- The bytes of an answer. -/
def ReadResult.bytes? : ReadResult → Option (List Byte)
  | .ok bs => some bs
  | _ => none

/-- What was written on `fd`. -/
def writesOn (fd : Fd) (io : List Io) : List (List Byte) :=
  io.filterMap fun
    | .write fd' bs => if fd' = fd then some bs else none
    | _ => none

/-- A turn of the event loop of a daemon, for an event it only logs. -/
def State.turn (s : State) (d : Daemon) (sys : WaitSys) : Option State :=
  match s.waitEvent sys with
  | some (.ok event, s, _) =>
    if event.t = .messageRx ∨ event.t = .external then none
    else (d.handle {} s event).map Handled.state
  | _ => none

/-- The request a turn of the event loop brings, from the connection on `origin`: where it is, and
the message. -/
def State.request (s : State) (origin : Fd) (sys : WaitSys) : Option (State × Nat × Message) :=
  match s.waitEvent sys with
  | some (.ok event, s, _) =>
    if event.t = .messageRx ∧ event.origin = origin then event.m.map fun m => (s, event.index, m)
    else none
  | _ => none

/-- A turn of `tcpd`, which has switched `a` and `b`. -/
def State.relayTurn (s : State) (a b : Fd) (sys : WaitSys) (source sink : Link Byte) :
    Option (State × Link Byte × Link Byte) := do
  let s' ← s.turn .tcpd sys
  let (_, es) ← relayStep a b s (.waitEvent sys)
  let source ← source.readMaybe (arrivedBytes es)
  return (s', source, sink ++ writes es)

/-- One step. The events are the payloads the client receives. The numbers of new descriptors are not
in use. -/
def Net.step (rt : Route) (net : Net) : Move → Option (Net × List (List Byte))
  | .clientAsks w =>
    match net.client, Context.write { fd := rt.ipcdfd, payload := rt.lookup } w with
    | .idle, (.ok (), bs) => some ({ net with client := .waiting, toIpcd := net.toIpcd ++ [bs] }, [])
    | _, _ => none
  | .ipcdTurn sys =>
    if net.ipcdPhase = .waiting then none
    else (net.ipcd.turn .ipcd sys).map fun s => ({ net with ipcd := s }, [])
  | .ipcdAsks sys env => do
    let (s, _, m) ← net.ipcd.request rt.requester sys
    let bs ← sys.read.bytes?
    let toIpcd ← net.toIpcd.read bs
    let (servicefd, asked) ← ipcdAsked env m
    if net.ipcdPhase = .idle ∧ servicefd = rt.servicefd ∧ servicefd ∉ s.openFds then
      return ({ net with
        ipcd := s.track { t := .ipc } servicefd
        ipcdPhase := .waiting
        toIpcd := toIpcd
        toNear := net.toNear ++ [asked] }, [])
    else none
  | .nearTurn sys =>
    match net.nearPhase with
    | .waiting => none
    | .done =>
      (net.near.relayTurn rt.stream rt.origin sys net.fromFar net.fromNear).map
        fun (s, fromFar, fromNear) =>
          ({ net with near := s, fromFar := fromFar, fromNear := fromNear }, [])
    | _ => (net.near.turn .tcpd sys).map fun s => ({ net with near := s }, [])
  | .nearAsks sys env => do
    let (s, index, m) ← net.near.request rt.origin sys
    let bs ← sys.read.bytes?
    let toNear ← net.toNear.read bs
    let (stream, path) ← tcpdAsked env m
    if net.nearPhase = .idle ∧ stream = rt.stream ∧ stream ∉ s.openFds then
      return ({ net with
        near := { s with openFds := insert stream s.openFds }
        nearPhase := .waiting
        index := index
        toNear := toNear
        toFar := net.toFar ++ [path] }, [])
    else none
  | .farTurn sys =>
    match net.farPhase with
    | .done =>
      (net.far.relayTurn rt.service rt.remote sys net.fromService net.fromFar).map
        fun (s, fromService, fromFar) =>
          ({ net with far := s, fromService := fromService, fromFar := fromFar }, [])
    | _ => (net.far.turn .tcpd sys).map fun s => ({ net with far := s }, [])
  | .farAccepts sys env =>
    match net.far.waitEvent sys with
    | some (.ok event, s, _) => do
      let path ← env.streamRead.bytes?
      let toFar ← net.toFar.read path
      let r := tcpdExternal env s
      -- The service has accepted the connection.
      if net.farPhase = .idle ∧ event.t = .external ∧ env.accept = .ok rt.remote ∧
          rt.remote ∉ s.openFds ∧ env.connectService path = .ok rt.service ∧
          rt.service ∉ s.openFds ∧ rt.remote ≠ rt.service ∧ r.fate = .continues then
        return ({ net with
          far := r.state
          farPhase := .done
          toFar := toFar
          fromFar := net.fromFar ++ writesOn rt.remote r.io }, [])
      else none
    | _ => none
  | .serviceSends p =>
    if net.farPhase = .done then
      some ({ net with sent := net.sent ++ [p], fromService := net.fromService ++ [frame p] }, [])
    else none
  | .nearHears env => do
    let bs ← env.streamRead.bytes?
    let fromFar ← net.fromFar.read bs
    let r := tcpdFinish env net.near net.index rt.origin rt.stream bs
    if net.nearPhase = .waiting ∧ r.fate = .continues then
      return ({ net with
        near := r.state
        nearPhase := if bs = okText then .done else .failed
        fromFar := fromFar
        fromNear := net.fromNear ++ writesOn rt.origin r.io }, [])
    else none
  | .ipcdHears env => do
    let bs ← env.read.bytes?
    let fromNear ← net.fromNear.read bs
    let r := ipcdFinish env net.ipcd rt.requester rt.servicefd
    let answer := writesOn rt.requester r.io
    if net.ipcdPhase = .waiting ∧ r.fate = .continues then
      return ({ net with
        ipcd := r.state
        ipcdPhase := if answer = [] then .failed else .done
        fromNear := fromNear
        fromIpcd := net.fromIpcd ++ answer }, [])
    else none
  | .clientHears bs => do
    let fromIpcd ← net.fromIpcd.read bs
    if net.client = .waiting then
      return ({ net with
        client := if bs = okText then .done else .failed
        fromIpcd := fromIpcd }, [])
    else none
  | .clientReads bs => do
    let fromNear ← net.fromNear.read bs
    if net.client = .done then
      match readAnswer rt.newfd (.ok bs) with
      | .ok (some m) => return ({ net with fromNear := fromNear }, [m.payload])
      | _ => return ({ net with client := .failed, fromNear := fromNear }, [])
    else none

end LibIpc.Zig

import LibIpc.Zig.Lookup
import LibIpc.Zig.Disconnection

/-!
# Opening connections (`Context.add_` and its callers)

`step` describes the calls that open a connection once memory is there and the system calls have
answered. Here each append, each copy and each system call may fail, and a function returns with the
state it leaves behind: the two arrays, and the open descriptors.
-/

namespace LibIpc.Zig

open Lib

/-! ## What may fail -/

/-- The errors of the functions that open connections; `os` stands for those of the system calls. -/
inductive OpenError where
  | outOfMemory
  | noSpaceLeft
  | nameTooLong
  | serverWithNoPath
  | ipcdFailedNoMessage
  | ipcdFailedNotOk
  | os
  deriving DecidableEq

/-- Whether the two appends of an `add_` succeed. -/
structure AddMem where
  connections : Bool := true
  pollfd : Bool := true
  deriving DecidableEq

/-- What `connect_` meets: `connectUnixSocket` gives a new descriptor, or closes its socket. -/
structure ConnectSys where
  connect : Except OpenError Fd := .error .os
  mem : AddMem := {}

/-- What `server_init` meets: `StreamServer.listen`, which closes its socket when it fails, `dupeZ`
and `add_`. -/
structure ListenSys where
  listen : Except OpenError Fd := .error .os
  dupe : Bool := true
  mem : AddMem := {}

/-- An answer of `recvmsg(2)`: bytes, none when the peer has closed, maybe with a descriptor. -/
inductive RecvResult where
  | ok (bs : List Byte) (fd : Option Fd)
  | error

/-- The bytes that were received. -/
def RecvResult.bytes : RecvResult → List Byte
  | .ok bs _ => bs
  | .error => []

/-- The descriptor that was received, open from now on. -/
def RecvResult.fd : RecvResult → Option Fd
  | .ok _ fd => fd
  | .error => none

/-- What `connect_ipc` meets: the value of `IPC_NETWORK`, if it is set; the connection to `ipcd`,
the lookup and its answer, the `add_` of the descriptor received; the direct connection. -/
structure IpcSys where
  network : Option (List Byte) := none
  ipcd : ConnectSys := {}
  write : WriteResult := .error
  recv : RecvResult := .error
  received : AddMem := {}
  direct : ConnectSys := {}

/-! ## The functions -/

/-- `Context.add_`: one array after the other. -/
def State.tryAdd (s : State) (newcon : Connection) (fd : Fd) (mem : AddMem) :
    Except OpenError Unit × State :=
  if mem.connections then
    let s := { s with ctx := { s.ctx with connections := s.ctx.connections ++ [newcon] } }
    if mem.pollfd then
      (.ok (),
        { s with ctx := { s.ctx with
          pollfd := s.ctx.pollfd ++ [{ fd := fd, events := { pollin := true } }] } })
    else (.error .outOfMemory, s)
  else (.error .outOfMemory, s)

/-- The process gets a descriptor from a system call. -/
def State.opened (s : State) (fd : Fd) : State := { s with openFds := insert fd s.openFds }

/-- `closeSocket`, on a descriptor that is not tracked. -/
def State.closeSocket (s : State) (fd : Fd) : State := { s with openFds := s.openFds.erase fd }

/-- `Context.connect_`, with its `errdefer`. -/
def State.connect_ (s : State) (ctype : ConnectionType) (path : List Byte) (sys : ConnectSys) :
    Except OpenError Fd × State :=
  if 108 < path.length then (.error .nameTooLong, s)
  else
    match sys.connect with
    | .error e => (.error e, s)
    | .ok newfd =>
      match (s.opened newfd).tryAdd { t := ctype } newfd sys.mem with
      | (.error e, s) => (.error e, s.closeSocket newfd)
      | (.ok (), s) => (.ok newfd, s)

/-- `Context.server_path`. -/
def serverPath (rundir serviceName : List Byte) : List Byte := rundir ++ 47 :: serviceName

/-- `Context.connect_service`. -/
def State.connectService (s : State) (rundir serviceName : List Byte) (sys : ConnectSys) :
    Except OpenError Fd × State :=
  if 1000 < (serverPath rundir serviceName).length then (.error .noSpaceLeft, s)
  else s.connect_ .ipc (serverPath rundir serviceName) sys

/-- `Context.add_external`. -/
def State.tryAddExternal (s : State) (newfd : Fd) (mem : AddMem) : Except OpenError Unit × State :=
  s.tryAdd { t := .external } newfd mem

/-- `Context.server_init`: the descriptor is left open when `dupeZ` or `add_` fails. -/
def State.serverInit (s : State) (rundir serviceName : List Byte) (sys : ListenSys) :
    Except OpenError Fd × State :=
  let path := serverPath rundir serviceName
  if 1000 < path.length then (.error .noSpaceLeft, s)
  else if 108 < path.length then (.error .nameTooLong, s)
  else
    match sys.listen with
    | .error e => (.error e, s)
    | .ok newfd =>
      let s := s.opened newfd
      if sys.dupe then
        match s.tryAdd { t := .server, path := some path } newfd sys.mem with
        | (.error e, s) => (.error e, s)
        | (.ok (), s) => (.ok newfd, s)
      else (.error .outOfMemory, s)

/-- `Context.accept_new_client`, on the server entry: the client is left open when `add_` fails. -/
def State.tryAcceptNewClient (s : State) (server : PollFd) (connection : Connection)
    (accept : Except OpenError Fd) (mem : AddMem) : Except OpenError Event × State :=
  match connection.path with
  | none => (.error .serverWithNoPath, s)
  | some path =>
    if 108 < path.length then (.error .nameTooLong, s)
    else
      match accept with
      | .error e => (.error e, s)
      | .ok newfd =>
        match (s.opened newfd).tryAdd { t := .ipc } newfd mem with
        | (.error e, s) => (.error e, s)
        | (.ok (), s) =>
          (.ok { t := .connection, index := s.ctx.pollfd.length - 1, origin := server.fd }, s)

/-- "ipc", the name of the service of `ipcd`. -/
def ipcText : List Byte := [105, 112, 99]

/-- `receive_fd`: the descriptor, 0 when none has come, and the state with it. An error is only
logged, and nothing is received. -/
def State.receiveFd (s : State) (recv : RecvResult) : Fd × State :=
  match recv.fd with
  | none => (0, s)
  | some fd => (fd, s.opened fd)

/-- The second half of `Context.connect_ipcd`, once `ipcd` is connected: the lookup is sent and its
answer received. -/
def State.askIpcd (s : State) (network lookup : List Byte) (ipcdfd : Fd) (sys : IpcSys) :
    Except OpenError (Option Fd) × State :=
  if lookupBufferSize < network.length + lookup.length then (.error .outOfMemory, s)
  else
    match Context.write { fd := ipcdfd, payload := lookup } sys.write with
    | (.error _, _) => (.error .os, s)
    | (.ok (), _) =>
      let (newfd, s) := s.receiveFd sys.recv
      if sys.recv.bytes = [] then (.error .ipcdFailedNoMessage, s)
      else if sys.recv.bytes ≠ okText then (.error .ipcdFailedNotOk, s)
      else
        match s.tryAdd { t := .ipc } newfd sys.received with
        | (.error e, s) => (.error e, s)
        | (.ok (), s) => (.ok (some newfd), s)

/-- `Context.connect_ipcd`: `null` when `IPC_NETWORK` is not set. The connection to `ipcd` is closed
in any case. -/
def State.connectIpcd (s : State) (rundir serviceName : List Byte) (sys : IpcSys) :
    Option (Except OpenError (Option Fd) × State) :=
  match sys.network with
  | none => some (.ok none, s)
  | some network =>
    let lookup := serviceName ++ 59 :: network
    if lookupBufferSize < network.length then some (.error .outOfMemory, s)
    else if lookupBufferSize < lookup.length then some (.error .noSpaceLeft, s)
    else
      match s.connectService rundir ipcText sys.ipcd with
      | (.error e, s) => some (.error e, s)
      | (.ok ipcdfd, s) =>
        let (r, s) := s.askIpcd network lookup ipcdfd sys
        (s.closeFd ipcdfd).map fun (_, s, _) => (r, s)

/-- `Context.connect_ipc`: an error of `connect_ipcd` is an error of the call. -/
def State.connectIpc (s : State) (rundir serviceName : List Byte) (sys : IpcSys) :
    Option (Except OpenError Fd × State) :=
  match s.connectIpcd rundir serviceName sys with
  | none => none
  | some (.error e, s) => some (.error e, s)
  | some (.ok (some fd), s) => some (.ok fd, s)
  | some (.ok none, s) => some (s.connectService rundir serviceName sys.direct)

/-! ## Nothing fails -/

section Succeeds
variable {s : State} {fd : Fd}

/-- Both appends succeed. -/
def AddMem.Adds (mem : AddMem) : Prop := mem.connections ∧ mem.pollfd

theorem tryAdd_of_adds {mem : AddMem} (h : mem.Adds) (s : State) (newcon : Connection) (fd : Fd) :
    s.tryAdd newcon fd mem = (.ok (), { s with ctx := s.ctx.add_ newcon fd }) := by
  simp only [State.tryAdd, if_pos h.1, if_pos h.2, Context.add_]

/-- The first append fails. -/
theorem tryAdd_of_not_connections {mem : AddMem} (h : ¬ mem.connections) (s : State)
    (newcon : Connection) (fd : Fd) : s.tryAdd newcon fd mem = (.error .outOfMemory, s) := by
  simp only [State.tryAdd, if_neg h]

/-- The second append fails: the first array has one entry more. -/
theorem tryAdd_of_not_pollfd {mem : AddMem} (hc : mem.connections) (hp : ¬ mem.pollfd) (s : State)
    (newcon : Connection) (fd : Fd) :
    s.tryAdd newcon fd mem = (.error .outOfMemory,
      { s with ctx := { s.ctx with connections := s.ctx.connections ++ [newcon] } }) := by
  simp only [State.tryAdd, if_pos hc, if_neg hp]

/-- The connection to `path` succeeds, on `fd`. -/
def ConnectSys.Connects (sys : ConnectSys) (path : List Byte) (fd : Fd) : Prop :=
  path.length ≤ 108 ∧ sys.connect = .ok fd ∧ sys.mem.Adds

theorem ConnectSys.Connects.unique {sys : ConnectSys} {path : List Byte} {fd' : Fd}
    (h : sys.Connects path fd) (h' : sys.Connects path fd') : fd = fd' := by
  have hfd := h.2.1.symm.trans h'.2.1
  exact Except.ok.inj hfd

theorem connectService_of_connects {rundir serviceName : List Byte} {sys : ConnectSys}
    (h : sys.Connects (serverPath rundir serviceName) fd) (s : State) :
    s.connectService rundir serviceName sys = (.ok fd, s.track { t := .ipc } fd) := by
  obtain ⟨hpath, hconnect, hmem⟩ := h
  rw [State.connectService, if_neg (by omega), State.connect_, if_neg (by omega), hconnect]
  simp only [tryAdd_of_adds hmem]
  rfl

theorem connectService_of_not_connects {rundir serviceName : List Byte} {sys : ConnectSys}
    (h : ∀ fd, ¬ sys.Connects (serverPath rundir serviceName) fd) (s : State) :
    ∃ e s', s.connectService rundir serviceName sys = (.error e, s') := by
  rw [State.connectService]
  split
  · exact ⟨_, _, rfl⟩
  · rw [State.connect_]
    split
    · exact ⟨_, _, rfl⟩
    · rename_i hpath
      cases hconnect : sys.connect with
      | error e => exact ⟨e, s, rfl⟩
      | ok newfd =>
        have hmem : ¬ sys.mem.Adds := fun hmem => h newfd ⟨Nat.not_lt.mp hpath, hconnect, hmem⟩
        by_cases hc : sys.mem.connections
        · simp only [tryAdd_of_not_pollfd hc fun hp => hmem ⟨hc, hp⟩]
          exact ⟨_, _, rfl⟩
        · simp only [tryAdd_of_not_connections hc]
          exact ⟨_, _, rfl⟩

/-- `connect_service` is then the call of the runs. -/
theorem step_connectService {rundir serviceName : List Byte} {sys : ConnectSys}
    (h : sys.Connects (serverPath rundir serviceName) fd) (hnew : fd ∉ s.openFds) :
    step s (.connectService (.ok fd)) =
      some ((s.connectService rundir serviceName sys).2, []) := by
  rw [connectService_of_connects h]
  simp only [step, State.addNew, if_neg hnew, Option.map_some]
  rfl

/-- So is `server_init`. -/
theorem step_serverInit {rundir serviceName : List Byte} {sys : ListenSys}
    (hpath : (serverPath rundir serviceName).length ≤ 108) (hlisten : sys.listen = .ok fd)
    (hnew : fd ∉ s.openFds) (hdupe : sys.dupe) (hmem : sys.mem.Adds) :
    step s (.serverInit (serverPath rundir serviceName) (.ok fd)) =
      some ((s.serverInit rundir serviceName sys).2, []) := by
  have hserver : s.serverInit rundir serviceName sys =
      (.ok fd, s.track { t := .server, path := some (serverPath rundir serviceName) } fd) := by
    simp only [State.serverInit]
    rw [if_neg (by omega), if_neg (by omega), hlisten]
    simp only [if_pos hdupe, tryAdd_of_adds hmem]
    rfl
  rw [hserver]
  simp only [step, State.addNew, if_neg hnew, Option.map_some]
  rfl

theorem step_addExternal {mem : AddMem} (hmem : mem.Adds) :
    step s (.addExternal fd) = some ((s.tryAddExternal fd mem).2, []) := by
  rw [State.tryAddExternal, tryAdd_of_adds hmem]
  rfl

/-- A new client is tracked as `wait_event` does. -/
theorem acceptNewClient_eq {server : PollFd} {connection : Connection} {path : List Byte}
    {mem : AddMem} (hconnection : connection.path = some path) (hpath : path.length ≤ 108)
    (hnew : fd ∉ s.openFds) (hmem : mem.Adds) :
    ∃ event s', s.tryAcceptNewClient server connection (.ok fd) mem = (.ok event, s') ∧
      s.acceptNewClient server connection (.ok fd) = some (.ok event, s', []) := by
  simp only [State.tryAcceptNewClient, State.acceptNewClient, hconnection,
    if_neg (Nat.not_lt.mpr hpath), tryAdd_of_adds hmem, State.addNew, if_neg hnew]
  exact ⟨_, _, rfl, rfl⟩

end Succeeds

/-! ## Asking `ipcd` -/

/-- The lookup reaches `ipcd`: its copy fits, and `write(2)` succeeds. -/
def IpcSys.Sends (sys : IpcSys) (network lookup : List Byte) : Prop :=
  network.length + lookup.length ≤ lookupBufferSize ∧ sys.write ≠ .error

/-- `ipcd` has answered "ok". -/
def IpcSys.SaysOk (sys : IpcSys) : Prop := sys.recv.bytes = okText

/-- `ipcd` gives a connection. -/
def IpcSys.Gives (sys : IpcSys) (network lookup : List Byte) : Prop :=
  sys.Sends network lookup ∧ sys.SaysOk ∧ sys.received.Adds

/-- The number of the descriptor that `recvmsg(2)` gives is new. -/
def RecvResult.Fresh (recv : RecvResult) (s : State) (ipcdfd : Fd) : Prop :=
  ∀ fd ∈ recv.fd, fd ∉ s.openFds ∧ fd ≠ ipcdfd

/-- The numbers of the descriptors that `connect_ipc` gets are not in use. -/
structure IpcSys.Fresh (sys : IpcSys) (s : State) : Prop where
  direct : ∀ fd, sys.direct.connect = .ok fd → fd ∉ s.openFds
  ipcd : ∀ ipcdfd, sys.ipcd.connect = .ok ipcdfd → ipcdfd ∉ s.openFds
  received : ∀ ipcdfd, sys.ipcd.connect = .ok ipcdfd → sys.recv.Fresh s ipcdfd

section Asking
variable {network lookup : List Byte} {sys : IpcSys}

theorem write_lookup (hwrite : sys.write ≠ .error) (ipcdfd : Fd) (lookup : List Byte) :
    ∃ bs, Context.write { fd := ipcdfd, payload := lookup } sys.write = (.ok (), bs) := by
  rw [Context.write, Message.write_eq_ok _ (by decide)]
  cases hw : sys.write with
  | error => exact absurd hw hwrite
  | wrote n => exact ⟨_, rfl⟩

theorem askIpcd_of_not_sends (h : ¬ sys.Sends network lookup) (s : State) (ipcdfd : Fd) :
    ∃ e, s.askIpcd network lookup ipcdfd sys = (.error e, s) := by
  rw [State.askIpcd]
  split
  · exact ⟨_, rfl⟩
  · rename_i hlong
    have hwrite : sys.write = .error := by
      by_contra hwrite
      exact h ⟨Nat.not_lt.mp hlong, hwrite⟩
    rw [hwrite, Context.write, Message.write_eq_ok _ (by decide)]
    exact ⟨_, rfl⟩

/-- The answer is received before it is looked at. -/
theorem askIpcd_of_not_ok (hsends : sys.Sends network lookup) (hok : ¬ sys.SaysOk) (s : State)
    (ipcdfd : Fd) :
    ∃ e, s.askIpcd network lookup ipcdfd sys = (.error e, (s.receiveFd sys.recv).2) := by
  obtain ⟨bs, hwrite⟩ := write_lookup hsends.2 ipcdfd lookup
  have hne : sys.recv.bytes ≠ okText := hok
  rw [State.askIpcd, if_neg (Nat.not_lt.mpr hsends.1), hwrite]
  simp only [if_pos hne]
  split
  · exact ⟨_, rfl⟩
  · exact ⟨_, rfl⟩

theorem askIpcd_of_ok (hsends : sys.Sends network lookup) (hok : sys.SaysOk) (s : State)
    (ipcdfd : Fd) :
    s.askIpcd network lookup ipcdfd sys =
      match (s.receiveFd sys.recv).2.tryAdd { t := .ipc } (s.receiveFd sys.recv).1 sys.received with
      | (.error e, s') => (.error e, s')
      | (.ok (), s') => (.ok (some (s.receiveFd sys.recv).1), s') := by
  obtain ⟨bs, hwrite⟩ := write_lookup hsends.2 ipcdfd lookup
  have hbytes : sys.recv.bytes = okText := hok
  have hne : okText ≠ [] := by decide
  rw [State.askIpcd, if_neg (Nat.not_lt.mpr hsends.1), hwrite]
  simp only [hbytes, if_neg hne, ne_eq, not_true_eq_false, if_false]

/-- `ipcd` gives a connection: what `receive_fd` returns is tracked. -/
theorem askIpcd_of_gives (h : sys.Gives network lookup) (s : State) (ipcdfd : Fd) :
    s.askIpcd network lookup ipcdfd sys =
      let (newfd, s') := s.receiveFd sys.recv
      (.ok (some newfd), { s' with ctx := s'.ctx.add_ { t := .ipc } newfd }) := by
  obtain ⟨hsends, hok, hmem⟩ := h
  rw [askIpcd_of_ok hsends hok, tryAdd_of_adds hmem]

/-- Otherwise there is an error: "no answer" is no result. -/
theorem askIpcd_of_not_gives (h : ¬ sys.Gives network lookup) (s : State) (ipcdfd : Fd) :
    ∃ e s', s.askIpcd network lookup ipcdfd sys = (.error e, s') := by
  by_cases hsends : sys.Sends network lookup
  · by_cases hok : sys.SaysOk
    · have hmem : ¬ sys.received.Adds := fun hmem => h ⟨hsends, hok, hmem⟩
      rw [askIpcd_of_ok hsends hok]
      by_cases hc : sys.received.connections
      · rw [tryAdd_of_not_pollfd hc fun hp => hmem ⟨hc, hp⟩]
        exact ⟨_, _, rfl⟩
      · rw [tryAdd_of_not_connections hc]
        exact ⟨_, _, rfl⟩
    · obtain ⟨e, hask⟩ := askIpcd_of_not_ok hsends hok s ipcdfd
      exact ⟨e, _, hask⟩
  · obtain ⟨e, hask⟩ := askIpcd_of_not_sends hsends s ipcdfd
    exact ⟨e, _, hask⟩

end Asking

/-! ## Closing the connection to `ipcd`

It is looked for by its descriptor. -/

/-- The `pollfd` entry that `add_` makes. -/
def PollFd.added (fd : Fd) : PollFd := { fd := fd, events := { pollin := true } }

/-- Where `close_fd` finds the connection that `connect_` has added last. -/
def State.indexOfLast (s : State) (fd : Fd) : Nat := (s.ctx.fdToIndex fd).getD s.ctx.pollfd.length

/-- `s'` is `s` with the connection on `fd`, which is open, and what was added after it. -/
structure Temporary (s : State) (fd : Fd) (cs : List Connection) (ps : List PollFd) (s' : State) :
    Prop where
  connections : s'.ctx.connections = s.ctx.connections ++ { t := .ipc } :: cs
  pollfd : s'.ctx.pollfd = s.ctx.pollfd ++ .added fd :: ps
  isOpen : fd ∈ s'.openFds

section Temporary
variable {s s' : State} {fd : Fd} {cs : List Connection} {ps : List PollFd}

theorem Temporary.track (s : State) (fd : Fd) : Temporary s fd [] [] (s.track { t := .ipc } fd) :=
  ⟨rfl, rfl, Finset.mem_insert_self fd s.openFds⟩

/-- Receiving a descriptor tracks nothing. -/
theorem Temporary.receiveFd (h : Temporary s fd cs ps s') (recv : RecvResult) :
    Temporary s fd cs ps (s'.receiveFd recv).2 := by
  rw [State.receiveFd]
  cases recv.fd with
  | none => exact h
  | some newfd => exact ⟨h.connections, h.pollfd, Finset.mem_insert_of_mem h.isOpen⟩

theorem indexOfLast_le (s : State) (fd : Fd) : s.indexOfLast fd ≤ s.ctx.pollfd.length := by
  rw [State.indexOfLast]
  cases hi : s.ctx.fdToIndex fd with
  | none => exact Nat.le_refl _
  | some i => exact Nat.le_of_lt (List.findIdx?_eq_some_iff_getElem.mp hi).1

theorem Temporary.fdToIndex (h : Temporary s fd cs ps s') :
    s'.ctx.fdToIndex fd = some (s.indexOfLast fd) := by
  rw [Context.fdToIndex, h.pollfd, List.findIdx?_append, List.findIdx?_cons, State.indexOfLast,
    Context.fdToIndex]
  cases s.ctx.pollfd.findIdx? fun p => p.fd = fd with
  | none => simp [PollFd.added]
  | some i => rfl

theorem Temporary.closeFd (hpar : s.ctx.Parallel) (h : Temporary s fd cs ps s') :
    ∃ tx io, s'.closeFd fd = some (.ok (),
      { ctx := { s'.ctx with
          connections := swapRemove s'.ctx.connections (s.indexOfLast fd)
          pollfd := swapRemove s'.ctx.pollfd (s.indexOfLast fd)
          tx := tx }
        openFds := s'.openFds.erase fd }, io) := by
  have hindex := h.fdToIndex
  have hle := indexOfLast_le s fd
  obtain ⟨hlt, hfd, -⟩ := List.findIdx?_eq_some_iff_getElem.mp hindex
  have hfd := of_decide_eq_true hfd
  have hlt' : s.indexOfLast fd < s'.ctx.connections.length := by
    rw [h.connections, List.length_append, List.length_cons, hpar]
    omega
  have hclose := close_eq_ok (List.getElem?_eq_getElem hlt') (List.getElem?_eq_getElem hlt)
    (by rw [hfd]; exact h.isOpen)
  rw [hfd] at hclose
  rw [State.closeFd, hindex]
  exact ⟨_, _, hclose⟩

end Temporary

/-! ## `connect_ipcd` -/

/-- `IPC_NETWORK` and the lookup fit in the buffers of `connect_ipcd`. -/
def LookupFits (serviceName network : List Byte) : Prop :=
  network.length ≤ lookupBufferSize ∧ (serviceName ++ 59 :: network).length ≤ lookupBufferSize

/-- The lookup is the one that `ipcd` decodes. -/
theorem connectIpcdLookup_eq_some_iff {serviceName network lookup : List Byte} :
    connectIpcdLookup serviceName network = some lookup ↔
      serviceName ++ 59 :: network = lookup ∧ LookupFits serviceName network ∧
        network.length + lookup.length ≤ lookupBufferSize := by
  simp only [connectIpcdLookup]
  split
  · rename_i h
    rw [Option.some_inj]
    constructor
    · intro hlookup
      subst hlookup
      exact ⟨rfl, ⟨h.1, h.2.1⟩, h.2.2⟩
    · intro hlookup
      exact hlookup.1
  · rename_i h
    apply iff_of_false (by simp)
    rintro ⟨rfl, hfits, hcopy⟩
    exact h ⟨hfits.1, hfits.2, hcopy⟩

section ConnectIpcd
variable {rundir serviceName network : List Byte} {ipcdfd : Fd} {s : State} {sys : IpcSys}

theorem connectIpcd_of_not_fits (hnetwork : sys.network = some network)
    (hfits : ¬ LookupFits serviceName network) (s : State) (rundir : List Byte) :
    ∃ e, s.connectIpcd rundir serviceName sys = some (.error e, s) := by
  simp only [State.connectIpcd, hnetwork]
  split
  · exact ⟨_, rfl⟩
  · rename_i hlong
    have hlong' : lookupBufferSize < (serviceName ++ 59 :: network).length :=
      Nat.not_le.mp fun h => hfits ⟨Nat.not_lt.mp hlong, h⟩
    rw [if_pos hlong']
    exact ⟨_, rfl⟩

/-- The error of `connect_service` is passed on. -/
theorem connectIpcd_of_error (hnetwork : sys.network = some network)
    (hfits : LookupFits serviceName network) {e : OpenError} {s' : State}
    (hipcd : s.connectService rundir ipcText sys.ipcd = (.error e, s')) :
    s.connectIpcd rundir serviceName sys = some (.error e, s') := by
  simp only [State.connectIpcd, hnetwork, if_neg (Nat.not_lt.mpr hfits.1),
    if_neg (Nat.not_lt.mpr hfits.2), hipcd]

theorem connectIpcd_of_connects (hnetwork : sys.network = some network)
    (hfits : LookupFits serviceName network)
    (hipcd : sys.ipcd.Connects (serverPath rundir ipcText) ipcdfd) (s : State) :
    s.connectIpcd rundir serviceName sys =
      let (r, s') := (s.track { t := .ipc } ipcdfd).askIpcd network (serviceName ++ 59 :: network)
        ipcdfd sys
      (s'.closeFd ipcdfd).map fun (_, s, _) => (r, s) := by
  simp only [State.connectIpcd, hnetwork, if_neg (Nat.not_lt.mpr hfits.1),
    if_neg (Nat.not_lt.mpr hfits.2), connectService_of_connects hipcd]

/-- Everything that a success takes. -/
theorem gives_of_connectIpcd (hnetwork : sys.network = some network) {r : Option Fd} {s' : State}
    (h : s.connectIpcd rundir serviceName sys = some (.ok r, s')) :
    LookupFits serviceName network ∧
      ∃ ipcdfd, sys.ipcd.Connects (serverPath rundir ipcText) ipcdfd ∧
        sys.Gives network (serviceName ++ 59 :: network) := by
  by_cases hfits : LookupFits serviceName network
  · by_cases hipcd : ∃ ipcdfd, sys.ipcd.Connects (serverPath rundir ipcText) ipcdfd
    · obtain ⟨ipcdfd, hipcd⟩ := hipcd
      refine ⟨hfits, ipcdfd, hipcd, ?_⟩
      by_contra hgives
      obtain ⟨e, s₁, hask⟩ := askIpcd_of_not_gives hgives (s.track { t := .ipc } ipcdfd) ipcdfd
      rw [connectIpcd_of_connects hnetwork hfits hipcd, hask] at h
      obtain ⟨x, -, hx⟩ := Option.map_eq_some_iff.mp h
      cases hx
    · obtain ⟨e, s₁, hservice⟩ := connectService_of_not_connects (not_exists.mp hipcd) s
      rw [connectIpcd_of_error hnetwork hfits hservice] at h
      cases h
  · obtain ⟨e, herror⟩ := connectIpcd_of_not_fits hnetwork hfits s rundir
    rw [herror] at h
    cases h

theorem connectIpcd_ne_none (hnetwork : sys.network = some network) (rundir serviceName : List Byte)
    (s s' : State) : s.connectIpcd rundir serviceName sys ≠ some (.ok none, s') := by
  intro h
  obtain ⟨hfits, ipcdfd, hipcd, hgives⟩ := gives_of_connectIpcd hnetwork h
  rw [connectIpcd_of_connects hnetwork hfits hipcd, askIpcd_of_gives hgives] at h
  obtain ⟨x, -, hx⟩ := Option.map_eq_some_iff.mp h
  cases hx

end ConnectIpcd

end LibIpc.Zig

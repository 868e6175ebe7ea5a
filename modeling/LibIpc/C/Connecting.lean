import LibIpc.C.Communication
import LibIpc.Lib.Descriptors

/-!
# Opening sockets (`fs.c`, `usocket.c`, `ipc_contact_ipcd`)

What `ipc_server_init` and `ipc_connection` do before a descriptor is added to the context: set up
the directory of the service, copy its path to a socket address, make the socket, ask the network
daemon. The descriptors the process has open are explicit; the answers of the system calls are
arguments, and a function returns `none` where the code writes outside a buffer, follows a null
pointer or waits for ever. Strings are their bytes, without the terminator.
-/

namespace LibIpc.C

open Lib

/-- `BUFSIZ`. -/
def bufsiz : Nat := 8192

/-- `PATH_MAX`. -/
def pathMax : Nat := 4096

/-! ## Directories -/

/-- What `stat(2)` says of a path. -/
structure Status where
  isDirectory : Bool := true
  uid : Nat := 0
  gid : Nat := 0
  userWrite : Bool := true
  groupWrite : Bool := false
  otherWrite : Bool := false
  deriving DecidableEq, Repr

/-- An answer of `mkdir(2)`. -/
inductive MkdirResult where
  | created
  | eexist
  | failed
  deriving DecidableEq, Repr

/-- The answers of the file system: `stat(2)` (`none` when it fails), `mkdir(2)`, and who asks. -/
structure FsSys where
  stat : List Byte → Option Status := fun _ => some {}
  mkdir : List Byte → MkdirResult := fun _ => .created
  euid : Nat := 0
  egid : Nat := 0

/-- `is_writable_`. -/
def isWritable_ (fs : FsSys) (status : Status) : Bool :=
  if status.uid = fs.euid then status.userWrite
  else if status.gid = fs.egid then status.groupWrite
  else status.otherWrite

/-- `dirname_` into a buffer of `BUFSIZ` bytes: what is before the last slash. Without a slash, a
null pointer is subtracted from. -/
def dirname_ (path : List Byte) : Option (List Byte) :=
  match path.reverse.dropWhile (· ≠ 47) with
  | [] => none
  | _ :: before => if before.length < bufsiz then some before.reverse else none

/-- The directories `mkdir_p_` creates: up to each slash but one in front, then all. -/
def mkdirPaths (path : List Byte) : List (List Byte) :=
  ((List.range path.length).filter fun i => 0 < i ∧ path[i]? = some 47).map path.take ++ [path]

/-- `mkdir_p_`. -/
def mkdirP_ (fs : FsSys) (path : List Byte) : IpcErrorCode :=
  if path.length > bufsiz - 1 then .mkdirNameTooLong
  else if (mkdirPaths path).any fun dir => fs.mkdir dir = .failed then .mkdirCannotCreateDir
  else .none

/-- `directory_setup_`. -/
def directorySetup_ (fs : FsSys) (path : List Byte) : Option IpcErrorCode := do
  let dir ← dirname_ path
  match fs.stat dir with
  | none => return mkdirP_ fs dir
  | some status =>
    if ¬ status.isDirectory then return .dirSetupNotADirectory
    else if ¬ isWritable_ fs status then return .dirSetupDirectoryNotWritable
    else return .none

/-! ## Sockets -/

/-- What gives out descriptors. -/
structure Kernel extends Allocator Fd where
  nonneg : ∀ s, 0 ≤ next s

/-- The lowest descriptor that is not open. -/
def lowestFree (s : Finset Fd) : Fd :=
  (((List.range (s.card + 1)).find? fun n : Nat => (n : Fd) ∉ s).getD 0 : Nat)

theorem lowestFree_spec (s : Finset Fd) : lowestFree s ∉ s ∧ 0 ≤ lowestFree s := by
  cases hfind : (List.range (s.card + 1)).find? fun n : Nat => (n : Fd) ∉ s with
  | none =>
    -- More numbers than there are descriptors cannot all be open.
    have hall : ∀ n ∈ List.range (s.card + 1), (n : Fd) ∈ s := by simpa using hfind
    have hsub : (Finset.range (s.card + 1)).map Nat.castEmbedding ⊆ s := by
      intro x hx
      obtain ⟨n, hn, rfl⟩ := Finset.mem_map.mp hx
      exact hall n (List.mem_range.mpr (Finset.mem_range.mp hn))
    have hcard := Finset.card_le_card hsub
    rw [Finset.card_map, Finset.card_range] at hcard
    omega
  | some n =>
    have hn : (n : Fd) ∉ s := by simpa using List.find?_some hfind
    have hlowest : lowestFree s = n := by rw [lowestFree, hfind]; rfl
    rw [hlowest]
    exact ⟨hn, Int.natCast_nonneg n⟩

/-- The descriptors are given out as POSIX asks for. -/
def posix : Kernel where
  next := lowestFree
  fresh := fun s => (lowestFree_spec s).1
  nonneg := fun s => (lowestFree_spec s).2

/-- The size of `sun_path`. -/
def sunPathSize : Nat := 108

/-- `strncpy` of `n` bytes to the zeroed `sun_path`; `none` when it writes past the array. -/
def copySunPath (path : List Byte) (n : Nat) : Option (List Byte) :=
  if n ≤ sunPathSize then some (overwrite (List.replicate sunPathSize 0) (strncpy path n)) else none

/-- The `sun_path` of `usock_connect`. -/
def connectSunPath (path : List Byte) : Option (List Byte) :=
  copySunPath path (if path.length < pathMax then path.length else pathMax)

/-- The `sun_path` of `usock_init`. -/
def initSunPath (path : List Byte) : Option (List Byte) := copySunPath path path.length

/-- The answers to the system calls of `usock_connect`; `connect(2)` is given the address. -/
structure ConnectSys where
  fs : FsSys := {}
  socket : Bool := true
  connect : List Byte → Bool := fun _ => true

/-- `usock_connect`. The socket is made first. -/
def usockConnect (k : Kernel) (opened : Finset Fd) (path : List Byte) (sys : ConnectSys) :
    Option (Except IpcErrorCode Fd × Finset Fd) :=
  if ¬ sys.socket then
    some (.error .usockConnectSocket, opened)
  else do
    let sfd := k.next opened
    let opened := k.grow opened
    let sunPath ← connectSunPath path
    let setup ← directorySetup_ sys.fs path
    if setup ≠ .none then return (.error setup, opened)
    else if ¬ sys.connect sunPath then return (.error .usockConnectConnect, opened)
    else return (.ok sfd, opened)

/-- The answers to the system calls of `usock_init`; `bind(2)` is given the address. -/
structure InitSys where
  fs : FsSys := {}
  socket : Bool := true
  bind : List Byte → Bool := fun _ => true
  listen : Bool := true

/-- `usock_init`. The result of `usock_remove` is not looked at. -/
def usockInit (k : Kernel) (opened : Finset Fd) (path : List Byte) (sys : InitSys) :
    Option (Except IpcErrorCode Fd × Finset Fd) := do
  let sunPath ← initSunPath path
  let setup ← directorySetup_ sys.fs path
  if setup ≠ .none then return (.error setup, opened)
  else if ¬ sys.socket then return (.error .usockInitWrongFileDescriptor, opened)
  else
    let sfd := k.next opened
    let opened := k.grow opened
    if ¬ sys.bind sunPath then return (.error .usockInitBind, opened)
    else if ¬ sys.listen then return (.error .usockInitListen, opened)
    else return (.ok sfd, opened)

/-! ## The network daemon -/

/-- `ipc_receive_fd`: the error code and `*fd`; `received` is the number of descriptors that came
with the message, `none` when `recvmsg(2)` failed. Only the first one is looked at; when there is
none, it is read through a null pointer. -/
def ipcReceiveFd (k : Kernel) (opened : Finset Fd) (received : Option Nat) :
    Option (IpcErrorCode × Fd × Finset Fd) :=
  match received with
  | none => some (.receiveFdRecvmsg, -1, opened)
  | some 0 => none
  | some (n + 1) => some (.none, k.next opened, k.grow^[n + 1] opened)

/-- `strstr`: whether the needle is found. -/
def strstr (haystack needle : List Byte) : Bool := haystack.tails.any needle.isPrefixOf

/-- The test of `ipc_contact_ipcd`: the value of `IPC_NETWORK` begins with the name, or holds a `;`
and then the name. The needle of the search is made in a zeroed buffer of `BUFSIZ` bytes. -/
def asksIpcd (ipcdVar sname : List Byte) : Option Bool :=
  if sname.length + 1 > bufsiz then none
  else if sname.isPrefixOf ipcdVar then some true
  else if sname.length + 1 = bufsiz then
    -- No room was left for the terminator.
    none
  else some (strstr ipcdVar (59 :: sname))

/-- The message of `ipc_contact_ipcd`, cut to what fits its buffer. -/
def lookupMessage (sname ipcdVar : List Byte) : IpcMessage :=
  .ofPayload 3 3 0 ((sname ++ 59 :: ipcdVar).take (bufsiz - 1))
    (Nat.lt_of_le_of_lt (List.length_take_le _ _) (by decide))

/-- `network`. -/
def networkName : List Byte := [110, 101, 116, 119, 111, 114, 107]

/-- What `ipc_contact_ipcd` gets from its environment. -/
structure ContactSys where
  ipcNetwork : Option (List Byte) := none
  connect : ConnectSys := {}
  send : SendResult := .sent 0
  recv : List RecvResult := []
  received : Option Nat := none

/-- The part of `ipc_contact_ipcd` that contacts the daemon: the error code and `*pfd`. Each early
return leaves the socket of the daemon open but the one after a refusal. -/
def askIpcd (k : Kernel) (opened : Finset Fd) (rundir : Option (List Byte))
    (sname ipcdVar : List Byte) (sys : ContactSys) : Option (IpcErrorCode × Fd × Finset Fd) := do
  let (ipcd, opened) ← usockConnect k opened (servicePath rundir networkName) sys.connect
  match ipcd with
  | .error e => return (e, 0, opened)
  | .ok ipcdFd =>
    let (sent, _) ← ipcWriteFd (lookupMessage sname ipcdVar) sys.send
    if sent ≠ .none then
      return (sent, 0, opened)
    else
      match ipcReadFd default sys.recv with
      | .waiting => none
      | .returned (.error e) _ => return (e, 0, opened)
      | .returned (.ok m) _ =>
        if m.length ≠ 2 then
          return (.closedRecipient, 0, opened.erase ipcdFd)
        else
          let (e, pfd, opened) ← ipcReceiveFd k opened sys.received
          return (e, pfd, if e = .none then opened.erase ipcdFd else opened)

/-- `ipc_contact_ipcd`: the error code and `*pfd`, which is 0 when the daemon is not contacted. -/
def ipcContactIpcd (k : Kernel) (opened : Finset Fd) (rundir : Option (List Byte))
    (sname : List Byte) (sys : ContactSys) : Option (IpcErrorCode × Fd × Finset Fd) :=
  match sys.ipcNetwork with
  | none => some (.none, 0, opened)
  | some ipcdVar => do
    if ¬ (← asksIpcd ipcdVar sname) then return (.none, 0, opened)
    else askIpcd k opened rundir sname ipcdVar sys

/-! ## Services and connections -/

/-- A process: its context and its open descriptors. -/
structure Process where
  ctx : IpcCtx := {}
  opened : Finset Fd := ∅

/-- `ipc_server_init`, with the calls it makes. -/
def Process.ipcServerInit (p : Process) (k : Kernel) (rundir : Option (List Byte))
    (sname : List Byte) (sys : InitSys) : Option (IpcErrorCode × Process) := do
  let (init, opened) ← usockInit k p.opened (servicePath rundir sname) sys
  let (e, ctx) := C.ipcServerInit p.ctx rundir sname init
  return (e, { ctx := ctx, opened := opened })

/-- `ipc_connection`, with the calls it makes. An error of `ipc_contact_ipcd` is printed, no more;
without a descriptor from it, the service is contacted directly. -/
def Process.ipcConnection (p : Process) (k : Kernel) (rundir : Option (List Byte))
    (sname : List Byte) (contact : ContactSys) (direct : ConnectSys) :
    Option (IpcErrorCode × Process) := do
  let (_, ipcd, opened) ← ipcContactIpcd k p.opened rundir sname contact
  if ipcd ≤ 0 then
    let (connect, opened) ← usockConnect k opened (servicePath rundir sname) direct
    let (e, ctx) := C.ipcConnection p.ctx ipcd connect
    return (e, { ctx := ctx, opened := opened })
  else
    let (e, ctx) := C.ipcConnection p.ctx ipcd (.ok ipcd)
    return (e, { ctx := ctx, opened := opened })

end LibIpc.C

import LibIpc.Zig.Connecting

/-!
# Calls that fail

A call that opens a connection has several steps, and only `connect_` undoes one of them: it closes
its socket. `add_` appends to the two arrays one after the other, and its `TODO` says that the
second append may fail alone. `failsClean_iff` says exactly when a call that fails has changed
nothing.
-/

namespace LibIpc.Zig

open Lib

/-! ## A failed call has changed nothing -/

/-- The two arrays are those of before and no descriptor has been left open. -/
structure Undone (s s' : State) : Prop where
  parallel : s'.ctx.Parallel
  connections : s'.ctx.connections = s.ctx.connections
  pollfd : s'.ctx.pollfd = s.ctx.pollfd
  openFds : s'.openFds ⊆ s.openFds

/-- Whenever the call returns an error, nothing has changed. -/
def CleanFailure {α : Type} (s : State) (r : Option (Except OpenError α × State)) : Prop :=
  ∀ e s', r = some (.error e, s') → Undone s s'

section Failures
variable {s s' : State} {fd : Fd}

theorem Undone.refl (hpar : s.ctx.Parallel) : Undone s s := ⟨hpar, rfl, rfl, subset_rfl⟩

theorem cleanFailure_ok {α : Type} (a : α) : CleanFailure s (some (.ok a, s')) := by
  intro e s'' h
  cases h

theorem cleanFailure_error {α : Type} {e : OpenError} :
    CleanFailure s (some ((.error e : Except OpenError α), s')) ↔ Undone s s' := by
  constructor
  · intro h
    exact h e s' rfl
  · intro hundone e' s'' h
    cases h
    exact hundone

/-- An array with one entry more is not the one of before. -/
theorem not_undone_of_longer (h : s'.ctx.connections.length ≠ s.ctx.connections.length) :
    ¬ Undone s s' := by
  intro hundone
  exact h (congrArg List.length hundone.connections)

/-- An `add_` that fails during a call that began in `s`, whatever is then closed. -/
theorem undone_tryAdd {s₀ : State} (hctx : s₀.ctx = s.ctx) (hpar : s.ctx.Parallel)
    {mem : AddMem} (hmem : ¬ mem.Adds) (newcon : Connection) (fd : Fd) :
    ∃ ctx, s₀.tryAdd newcon fd mem = (.error .outOfMemory, { s₀ with ctx := ctx }) ∧
      ∀ openFds, Undone s { ctx := ctx, openFds := openFds } ↔
        ¬ mem.connections ∧ openFds ⊆ s.openFds := by
  by_cases hc : mem.connections
  · have hp : ¬ mem.pollfd := fun hp => hmem ⟨hc, hp⟩
    refine ⟨_, tryAdd_of_not_pollfd hc hp s₀ newcon fd, ?_⟩
    intro openFds
    have hlonger : ¬ Undone s { ctx := { s₀.ctx with
        connections := s₀.ctx.connections ++ [newcon] }, openFds := openFds } :=
      not_undone_of_longer (by simp [hctx])
    simp only [hlonger, hc, not_true_eq_false, false_and]
  · refine ⟨s₀.ctx, tryAdd_of_not_connections hc s₀ newcon fd, ?_⟩
    intro openFds
    rw [hctx]
    constructor
    · intro h
      exact ⟨hc, h.openFds⟩
    · intro h
      exact ⟨hpar, rfl, rfl, h.2⟩

end Failures

/-! ## The calls that ask nobody -/

/-- The second append does not fail alone. -/
def AddMem.Whole (mem : AddMem) : Prop := mem.connections → mem.pollfd

/-- `connect_` closes its socket, but does not take the first append back. -/
def ConnectSys.Clean (sys : ConnectSys) (path : List Byte) : Prop :=
  path.length ≤ 108 → ∀ fd, sys.connect = .ok fd → sys.mem.Whole

/-- `server_init` leaves a socket that listens open whatever fails after. -/
def ListenSys.Clean (sys : ListenSys) (path : List Byte) : Prop :=
  path.length ≤ 108 → ∀ fd, sys.listen = .ok fd → sys.dupe ∧ sys.mem.Adds

/-- `accept_new_client` leaves the new client open when `add_` fails. -/
def AcceptClean (connection : Connection) (accept : Except OpenError Fd) (mem : AddMem) : Prop :=
  ∀ path ∈ connection.path, path.length ≤ 108 → ∀ fd, accept = .ok fd → mem.Adds

section Alone
variable {s : State} {fd : Fd} {mem : AddMem}

theorem AddMem.Adds.whole (h : mem.Adds) : mem.Whole := fun _ => h.2

theorem AddMem.whole_iff (h : ¬ mem.Adds) : mem.Whole ↔ ¬ mem.connections := by
  constructor
  · intro hwhole hc
    exact h ⟨hc, hwhole hc⟩
  · intro hc hc'
    exact absurd hc' hc

theorem cleanFailure_addExternal (hpar : s.ctx.Parallel) :
    CleanFailure s (some (s.tryAddExternal fd mem)) ↔ mem.Whole := by
  rw [State.tryAddExternal]
  by_cases hmem : mem.Adds
  · rw [tryAdd_of_adds hmem]
    exact iff_of_true (cleanFailure_ok ()) hmem.whole
  · obtain ⟨ctx, hadd, hundone⟩ := undone_tryAdd (s := s) rfl hpar hmem { t := .external } fd
    rw [hadd, cleanFailure_error, hundone, AddMem.whole_iff hmem]
    exact and_iff_left subset_rfl

theorem cleanFailure_connect_ (hpar : s.ctx.Parallel) {ctype : ConnectionType} {path : List Byte}
    {sys : ConnectSys} :
    CleanFailure s (some (s.connect_ ctype path sys)) ↔ sys.Clean path := by
  rw [State.connect_]
  split
  · rename_i hlong
    rw [cleanFailure_error]
    exact iff_of_true (.refl hpar) fun hpath => absurd hlong (Nat.not_lt.mpr hpath)
  · rename_i hpath
    have hpath := Nat.not_lt.mp hpath
    cases hconnect : sys.connect with
    | error e =>
      have hclean : sys.Clean path := by simp [ConnectSys.Clean, hconnect]
      exact iff_of_true (cleanFailure_error.mpr (.refl hpar)) hclean
    | ok newfd =>
      have hclean : sys.Clean path ↔ sys.mem.Whole := by
        simp [ConnectSys.Clean, hpath, hconnect]
      rw [hclean]
      by_cases hmem : sys.mem.Adds
      · simp only [tryAdd_of_adds hmem]
        exact iff_of_true (cleanFailure_ok newfd) hmem.whole
      · have hctx : (s.opened newfd).ctx = s.ctx := rfl
        obtain ⟨ctx, hadd, hundone⟩ := undone_tryAdd hctx hpar hmem { t := ctype } newfd
        simp only [hadd]
        rw [cleanFailure_error, State.closeSocket, hundone, AddMem.whole_iff hmem]
        apply and_iff_left
        -- The descriptor has been opened, and is closed again.
        rw [State.opened, ← Finset.subset_insert_iff]

theorem ConnectSys.Connects.clean {sys : ConnectSys} {path : List Byte}
    (h : sys.Connects path fd) : sys.Clean path := fun _ _ _ => h.2.2.whole

theorem cleanFailure_connectService (hpar : s.ctx.Parallel) {rundir serviceName : List Byte}
    {sys : ConnectSys} :
    CleanFailure s (some (s.connectService rundir serviceName sys)) ↔
      sys.Clean (serverPath rundir serviceName) := by
  rw [State.connectService]
  split
  · rename_i hlong
    rw [cleanFailure_error]
    exact iff_of_true (.refl hpar) fun hpath => by omega
  · exact cleanFailure_connect_ hpar

/-- A descriptor that has been opened and not closed. -/
theorem not_opened_subset (hnew : fd ∉ s.openFds) : ¬ (s.opened fd).openFds ⊆ s.openFds := by
  intro h
  exact hnew (h (Finset.mem_insert_self fd s.openFds))

/-- The end of `server_init` and of `accept_new_client`. -/
theorem not_undone_tryAdd (hpar : s.ctx.Parallel) (hnew : fd ∉ s.openFds) (hmem : ¬ mem.Adds)
    (newcon : Connection) :
    ∃ s', (s.opened fd).tryAdd newcon fd mem = (.error .outOfMemory, s') ∧ ¬ Undone s s' := by
  have hctx : (s.opened fd).ctx = s.ctx := rfl
  obtain ⟨ctx, hadd, hundone⟩ := undone_tryAdd hctx hpar hmem newcon fd
  refine ⟨_, hadd, ?_⟩
  rw [hundone]
  exact fun h => not_opened_subset hnew h.2

theorem cleanFailure_serverInit (hpar : s.ctx.Parallel) {rundir serviceName : List Byte}
    {sys : ListenSys} (hnew : ∀ fd, sys.listen = .ok fd → fd ∉ s.openFds) :
    CleanFailure s (some (s.serverInit rundir serviceName sys)) ↔
      sys.Clean (serverPath rundir serviceName) := by
  have hrefl : ∀ e, CleanFailure s (some ((.error e : Except OpenError Fd), s)) :=
    fun e => cleanFailure_error.mpr (.refl hpar)
  by_cases hpath : (serverPath rundir serviceName).length ≤ 108
  · simp only [State.serverInit]
    rw [if_neg (by omega), if_neg (by omega)]
    cases hlisten : sys.listen with
    | error e =>
      have hclean : sys.Clean (serverPath rundir serviceName) := by simp [ListenSys.Clean, hlisten]
      exact iff_of_true (hrefl e) hclean
    | ok newfd =>
      have hnew := hnew newfd hlisten
      have hclean : sys.Clean (serverPath rundir serviceName) ↔ sys.dupe ∧ sys.mem.Adds := by
        simp [ListenSys.Clean, hpath, hlisten]
      rw [hclean]
      by_cases hdupe : sys.dupe
      · by_cases hmem : sys.mem.Adds
        · simp only [if_pos hdupe, tryAdd_of_adds hmem]
          exact iff_of_true (cleanFailure_ok newfd) ⟨hdupe, hmem⟩
        · obtain ⟨s', hadd, hnot⟩ := not_undone_tryAdd hpar hnew hmem
            { t := .server, path := some (serverPath rundir serviceName) }
          simp only [if_pos hdupe, hadd]
          exact iff_of_false (fun h => hnot (cleanFailure_error.mp h)) fun h => hmem h.2
      · simp only [if_neg hdupe]
        refine iff_of_false ?_ fun h => hdupe h.1
        intro h
        exact not_opened_subset hnew (cleanFailure_error.mp h).openFds
  · refine iff_of_true ?_ fun h => absurd h hpath
    simp only [State.serverInit]
    split
    · exact hrefl _
    · rw [if_pos (by omega)]
      exact hrefl _

theorem cleanFailure_acceptNewClient (hpar : s.ctx.Parallel) {server : PollFd}
    {connection : Connection} {accept : Except OpenError Fd}
    (hnew : ∀ fd, accept = .ok fd → fd ∉ s.openFds) :
    CleanFailure s (some (s.tryAcceptNewClient server connection accept mem)) ↔
      AcceptClean connection accept mem := by
  have hrefl : ∀ e, CleanFailure s (some ((.error e : Except OpenError Event), s)) :=
    fun e => cleanFailure_error.mpr (.refl hpar)
  unfold State.tryAcceptNewClient AcceptClean
  cases hconnection : connection.path with
  | none => exact iff_of_true (hrefl _) (by simp)
  | some path =>
    by_cases hpath : path.length ≤ 108
    · simp only [if_neg (Nat.not_lt.mpr hpath)]
      cases haccept : accept with
      | error e => exact iff_of_true (hrefl e) (by simp)
      | ok newfd =>
        simp only [Option.mem_some_iff, Except.ok.injEq, forall_eq', hpath, true_implies]
        by_cases hmem : mem.Adds
        · simp only [tryAdd_of_adds hmem]
          exact iff_of_true (cleanFailure_ok _) hmem
        · have hnew := hnew newfd haccept
          obtain ⟨s', hadd, hnot⟩ := not_undone_tryAdd hpar hnew hmem { t := .ipc }
          simp only [hadd]
          exact iff_of_false (fun h => hnot (cleanFailure_error.mp h)) hmem
    · simp only [if_pos (Nat.not_le.mp hpath)]
      exact iff_of_true (hrefl _) (by simp [hpath])

end Alone

/-! ## The connection to `ipcd` -/

/-- A connection that is already tracked on this descriptor is like the one `connect_` adds. -/
def State.Restores (s : State) (fd : Fd) : Prop :=
  ∀ i ∈ s.ctx.fdToIndex fd,
    s.ctx.connections[i]? = some { t := .ipc } ∧ s.ctx.pollfd[i]? = some (.added fd)

/-- A failure after `ipcd` has been connected changes nothing: the descriptor that comes with the
answer is never closed, and the temporary connection may have taken the place of another one. -/
def IpcSys.AskedClean (sys : IpcSys) (s : State) (network lookup : List Byte) (ipcdfd : Fd) :
    Prop :=
  sys.Gives network lookup ∨
    s.Restores ipcdfd ∧ (sys.Sends network lookup →
      sys.recv.fd = none ∧ (sys.SaysOk → ¬ sys.received.connections))

section Asked
variable {s s' : State} {network lookup : List Byte} {fd ipcdfd : Fd} {sys : IpcSys}
  {cs : List Connection}

theorem set_eq_self_iff {α : Type} {l : List α} {i : Nat} {y : α} :
    l.set i y = l ↔ (i < l.length → l[i]? = some y) := by
  constructor
  · intro h hlt
    rw [← h, List.getElem?_set_self hlt]
  · intro h
    by_cases hlt : i < l.length
    · have hget := h hlt
      rw [List.getElem?_eq_getElem hlt, Option.some_inj] at hget
      rw [← hget, List.set_getElem_self]
    · exact List.set_eq_of_length_le (Nat.not_lt.mp hlt)

theorem restores_iff (hpar : s.ctx.Parallel) :
    s.Restores fd ↔
      s.ctx.connections.set (s.indexOfLast fd) { t := .ipc } = s.ctx.connections ∧
        s.ctx.pollfd.set (s.indexOfLast fd) (.added fd) = s.ctx.pollfd := by
  have hlength : s.ctx.connections.length = s.ctx.pollfd.length := hpar
  rw [set_eq_self_iff, set_eq_self_iff, hlength, ← imp_and, State.Restores, State.indexOfLast]
  cases hi : s.ctx.fdToIndex fd with
  | none => simp
  | some i =>
    have hlt := (List.findIdx?_eq_some_iff_getElem.mp hi).1
    simp [hlt]

/-- The connection to `ipcd` is closed after an error. -/
theorem cleanFailure_closing {α : Type} {e : OpenError} (hpar : s.ctx.Parallel)
    (h : Temporary s fd cs [] s') :
    CleanFailure s ((s'.closeFd fd).map fun (_, s, _) => ((.error e : Except OpenError α), s)) ↔
      cs = [] ∧ s.Restores fd ∧ s'.openFds.erase fd ⊆ s.openFds := by
  obtain ⟨tx, io, hclose⟩ := h.closeFd hpar
  rw [hclose, Option.map_some, cleanFailure_error]
  cases cs with
  | nil =>
    have hrestores : s.Restores fd ↔ _ := restores_iff hpar
    rw [h.connections, h.pollfd, swapRemove_append_singleton, swapRemove_append_singleton, hrestores]
    constructor
    · intro hundone
      exact ⟨rfl, ⟨hundone.connections, hundone.pollfd⟩, hundone.openFds⟩
    · intro ⟨_, ⟨hconnections, hpollfd⟩, hfds⟩
      refine ⟨?_, hconnections, hpollfd, hfds⟩
      unfold Context.Parallel at *
      simpa using hpar
  | cons c cs =>
    refine iff_of_false (not_undone_of_longer ?_) fun h => List.cons_ne_nil _ _ h.1
    simp only [length_swapRemove, h.connections, List.length_append, List.length_cons]
    omega

theorem cleanFailure_closing_ok {α : Type} {a : α} :
    CleanFailure s ((s'.closeFd fd).map fun (_, s, _) => ((.ok a : Except OpenError α), s)) := by
  intro e s'' h
  obtain ⟨x, -, hx⟩ := Option.map_eq_some_iff.mp h
  cases hx

theorem erase_insert_subset (s : State) (fd : Fd) :
    (insert fd s.openFds).erase fd ⊆ s.openFds := by
  rw [← Finset.subset_insert_iff]

/-- Closing the connection to `ipcd` does not close the descriptor it has given. -/
theorem receiveFd_subset_iff (hfresh : sys.recv.Fresh s ipcdfd) :
    (((s.track { t := .ipc } ipcdfd).receiveFd sys.recv).2.openFds.erase ipcdfd ⊆ s.openFds) ↔
      sys.recv.fd = none := by
  rw [State.receiveFd]
  cases hfd : sys.recv.fd with
  | none => exact iff_of_true (erase_insert_subset s ipcdfd) rfl
  | some newfd =>
    obtain ⟨hnew, hne⟩ := hfresh newfd hfd
    refine iff_of_false ?_ (by simp)
    intro h
    apply hnew
    apply h
    rw [Finset.mem_erase]
    exact ⟨hne, Finset.mem_insert_self newfd _⟩

/-- The `add_` of the descriptor received fails: `s'` is the state with the answer of `ipcd`. -/
theorem cleanFailure_received {α : Type} (hpar : s.ctx.Parallel) (h : Temporary s ipcdfd [] [] s')
    (hmem : ¬ sys.received.Adds) :
    ∃ s'', s'.tryAdd { t := .ipc } fd sys.received = (.error .outOfMemory, s'') ∧
      (CleanFailure s ((s''.closeFd ipcdfd).map fun (_, s, _) =>
          ((.error .outOfMemory : Except OpenError α), s)) ↔
        s.Restores ipcdfd ∧ s'.openFds.erase ipcdfd ⊆ s.openFds ∧ ¬ sys.received.connections) := by
  by_cases hc : sys.received.connections
  · refine ⟨_, tryAdd_of_not_pollfd hc (fun hp => hmem ⟨hc, hp⟩) s' _ fd, ?_⟩
    have hlonger : Temporary s ipcdfd [{ t := .ipc }] [] { s' with ctx := { s'.ctx with
        connections := s'.ctx.connections ++ [{ t := .ipc }] } } := by
      refine ⟨?_, h.pollfd, h.isOpen⟩
      show s'.ctx.connections ++ _ = _
      rw [h.connections, List.append_assoc]
      rfl
    rw [cleanFailure_closing hpar hlonger]
    exact iff_of_false (fun h => List.cons_ne_nil _ _ h.1) fun h => h.2.2 hc
  · refine ⟨s', tryAdd_of_not_connections hc s' _ fd, ?_⟩
    rw [cleanFailure_closing hpar h]
    simp [hc]

/-- The second half of `connect_ipcd`, its scope exit included. -/
theorem cleanFailure_asked (hpar : s.ctx.Parallel) (hfresh : sys.recv.Fresh s ipcdfd) :
    CleanFailure s
        (let (r, s') := (s.track { t := .ipc } ipcdfd).askIpcd network lookup ipcdfd sys
        (s'.closeFd ipcdfd).map fun (_, s, _) => (r, s)) ↔
      sys.AskedClean s network lookup ipcdfd := by
  have hasked := Temporary.track s ipcdfd
  have hanswered := hasked.receiveFd sys.recv
  have hleft := receiveFd_subset_iff hfresh
  by_cases hsends : sys.Sends network lookup
  · by_cases hok : sys.SaysOk
    · rw [askIpcd_of_ok hsends hok]
      by_cases hmem : sys.received.Adds
      · rw [tryAdd_of_adds hmem]
        exact iff_of_true cleanFailure_closing_ok (.inl ⟨hsends, hok, hmem⟩)
      · obtain ⟨s'', hadd, hclean⟩ := cleanFailure_received hpar hanswered hmem
        rw [hadd]
        refine hclean.trans ?_
        rw [hleft]
        simp [IpcSys.AskedClean, IpcSys.Gives, hmem, hsends, hok]
    · obtain ⟨e, hask⟩ := askIpcd_of_not_ok hsends hok (s.track { t := .ipc } ipcdfd) ipcdfd
      rw [hask]
      refine (cleanFailure_closing hpar hanswered).trans ?_
      rw [hleft]
      simp [IpcSys.AskedClean, IpcSys.Gives, hsends, hok]
  · obtain ⟨e, hask⟩ := askIpcd_of_not_sends hsends (s.track { t := .ipc } ipcdfd) ipcdfd
    rw [hask]
    refine (cleanFailure_closing hpar hasked).trans ?_
    have herase : (s.track { t := .ipc } ipcdfd).openFds.erase ipcdfd ⊆ s.openFds :=
      erase_insert_subset s ipcdfd
    simp [IpcSys.AskedClean, IpcSys.Gives, hsends, herase]

end Asked

/-- What lets a failed `connect_ipc` change nothing. -/
def IpcSys.Clean (sys : IpcSys) (rundir : List Byte) (s : State) (serviceName : List Byte) : Prop :=
  match sys.network with
  | none => sys.direct.Clean (serverPath rundir serviceName)
  | some network =>
    LookupFits serviceName network →
      sys.ipcd.Clean (serverPath rundir ipcText) ∧
        ∀ ipcdfd, sys.ipcd.Connects (serverPath rundir ipcText) ipcdfd →
          sys.AskedClean s network (serviceName ++ 59 :: network) ipcdfd

section ConnectIpc
variable {rundir serviceName network : List Byte} {s : State} {sys : IpcSys}

/-- With `IPC_NETWORK` set, the failures of `connect_ipc` are those of `connect_ipcd`. -/
theorem cleanFailure_connectIpc_iff (hnetwork : sys.network = some network) :
    CleanFailure s (s.connectIpc rundir serviceName sys) ↔
      CleanFailure s (s.connectIpcd rundir serviceName sys) := by
  have hne := connectIpcd_ne_none hnetwork rundir serviceName s
  rw [State.connectIpc]
  match hd : s.connectIpcd rundir serviceName sys with
  | none => exact iff_of_true (by intro e s' h; cases h) (by intro e s' h; cases h)
  | some (.error e, s') => exact cleanFailure_error.trans cleanFailure_error.symm
  | some (.ok (some fd), s') => exact iff_of_true (cleanFailure_ok fd) (cleanFailure_ok _)
  | some (.ok none, s') => exact absurd hd (hne s')

theorem cleanFailure_connectIpc (hpar : s.ctx.Parallel) (hfresh : sys.Fresh s) :
    CleanFailure s (s.connectIpc rundir serviceName sys) ↔ sys.Clean rundir s serviceName := by
  rw [IpcSys.Clean]
  cases hnetwork : sys.network with
  | none =>
    have hdirect : s.connectIpc rundir serviceName sys =
        some (s.connectService rundir serviceName sys.direct) := by
      simp only [State.connectIpc, State.connectIpcd, hnetwork]
    rw [hdirect]
    exact cleanFailure_connectService hpar
  | some network =>
    rw [cleanFailure_connectIpc_iff hnetwork]
    by_cases hfits : LookupFits serviceName network
    · by_cases hipcd : ∃ ipcdfd, sys.ipcd.Connects (serverPath rundir ipcText) ipcdfd
      · obtain ⟨ipcdfd, hipcd⟩ := hipcd
        rw [connectIpcd_of_connects hnetwork hfits hipcd]
        apply (cleanFailure_asked hpar (hfresh.received ipcdfd hipcd.2.1)).trans
        constructor
        · intro hasked _
          refine ⟨hipcd.clean, ?_⟩
          intro fd hfd
          rwa [hfd.unique hipcd]
        · intro h
          exact (h hfits).2 ipcdfd hipcd
      · obtain ⟨e, s', hservice⟩ := connectService_of_not_connects (not_exists.mp hipcd) s
        have hclean : CleanFailure s (some (s.connectService rundir ipcText sys.ipcd)) ↔ _ :=
          cleanFailure_connectService hpar
        rw [hservice, cleanFailure_error] at hclean
        rw [connectIpcd_of_error hnetwork hfits hservice, cleanFailure_error, hclean]
        constructor
        · intro hipcd' _
          exact ⟨hipcd', fun fd hfd => absurd ⟨fd, hfd⟩ hipcd⟩
        · intro h
          exact (h hfits).1
    · obtain ⟨e, herror⟩ := connectIpcd_of_not_fits hnetwork hfits s rundir
      rw [herror, cleanFailure_error]
      exact iff_of_true (.refl hpar) fun h => absurd h hfits

end ConnectIpc

/-! ## All the calls -/

/-- The calls that open a connection or take one over, with everything they meet. -/
inductive OpenCall where
  | connectService (serviceName : List Byte) (sys : ConnectSys)
  | connectIpc (serviceName : List Byte) (sys : IpcSys)
  | addExternal (newfd : Fd) (mem : AddMem)
  | serverInit (serviceName : List Byte) (sys : ListenSys)
  | acceptNewClient (server : PollFd) (connection : Connection) (accept : Except OpenError Fd)
      (mem : AddMem)

/-- Whenever the call returns an error, nothing has changed. -/
def FailsClean (rundir : List Byte) (s : State) : OpenCall → Prop
  | .connectService serviceName sys =>
    CleanFailure s (some (s.connectService rundir serviceName sys))
  | .connectIpc serviceName sys => CleanFailure s (s.connectIpc rundir serviceName sys)
  | .addExternal newfd mem => CleanFailure s (some (s.tryAddExternal newfd mem))
  | .serverInit serviceName sys => CleanFailure s (some (s.serverInit rundir serviceName sys))
  | .acceptNewClient server connection accept mem =>
    CleanFailure s (some (s.tryAcceptNewClient server connection accept mem))

/-- The numbers of the descriptors that the kernel gives are not in use. -/
def OpenCall.Fresh (s : State) : OpenCall → Prop
  | .connectService _ sys => ∀ fd, sys.connect = .ok fd → fd ∉ s.openFds
  | .connectIpc _ sys => sys.Fresh s
  | .addExternal _ _ => True
  | .serverInit _ sys => ∀ fd, sys.listen = .ok fd → fd ∉ s.openFds
  | .acceptNewClient _ _ accept _ => ∀ fd, accept = .ok fd → fd ∉ s.openFds

/-- What lets the call change nothing when it fails. -/
def OpenCall.Clean (rundir : List Byte) (s : State) : OpenCall → Prop
  | .connectService serviceName sys => sys.Clean (serverPath rundir serviceName)
  | .connectIpc serviceName sys => sys.Clean rundir s serviceName
  | .addExternal _ mem => mem.Whole
  | .serverInit serviceName sys => sys.Clean (serverPath rundir serviceName)
  | .acceptNewClient _ connection accept mem => AcceptClean connection accept mem

/-- A failed call has changed nothing if and only if none of its second steps has failed after a
first one that is not taken back. -/
theorem failsClean_iff {rundir : List Byte} {s : State} {call : OpenCall} (hpar : s.ctx.Parallel)
    (hfresh : call.Fresh s) : FailsClean rundir s call ↔ call.Clean rundir s := by
  cases call with
  | connectService serviceName sys => exact cleanFailure_connectService hpar
  | connectIpc serviceName sys => exact cleanFailure_connectIpc hpar hfresh
  | addExternal newfd mem => exact cleanFailure_addExternal hpar
  | serverInit serviceName sys => exact cleanFailure_serverInit hpar hfresh
  | acceptNewClient server connection accept mem =>
    exact cleanFailure_acceptNewClient hpar hfresh

/-- A state with one tracked descriptor. -/
def oneExternal : State where
  ctx := { connections := [{ t := .external }], pollfd := [.added 3] }
  openFds := {3}

/-- `ipcd` closes without answering. -/
def noAnswer : IpcSys where
  network := some []
  ipcd := { connect := .ok 4 }
  write := .wrote 6
  recv := .ok [] none

/-- The connection to `ipcd` is tracked, then closed. -/
theorem failsClean_noAnswer : FailsClean [] oneExternal (.connectIpc [112] noAnswer) := by
  have hfresh : (OpenCall.connectIpc [112] noAnswer).Fresh oneExternal := by
    constructor
    · intro fd h
      cases h
    · rintro _ ⟨⟩
      decide
    · intro _ _ fd h
      cases h
  have hclean : (OpenCall.connectIpc [112] noAnswer).Clean [] oneExternal := by
    intro _
    refine ⟨fun _ _ _ _ => rfl, ?_⟩
    rintro _ ⟨-, ⟨⟩, -⟩
    exact .inr ⟨fun i hi => (nomatch hi), fun _ => ⟨rfl, fun hok => (nomatch hok)⟩⟩
  have hpar : oneExternal.ctx.Parallel := rfl
  exact (failsClean_iff hpar hfresh).mpr hclean

/-- The second append of `add_external` fails: the arrays do not have the same length any more. The
first one fails for a new client: nothing is tracked, and the client stays open. -/
theorem not_failsClean_append :
    ¬ FailsClean [] oneExternal (.addExternal 4 { pollfd := false }) ∧
      ¬ FailsClean [] oneExternal (.acceptNewClient (.added 3) { t := .server, path := some [47] }
        (.ok 4) { connections := false }) := by
  constructor
  · intro h
    have hlength : 2 = 1 := (h .outOfMemory _ rfl).parallel
    cases hlength
  · intro h
    have hopen := (h .outOfMemory _ rfl).openFds
    exact absurd (hopen (Finset.mem_insert_self 4 _)) (by decide)

end LibIpc.Zig

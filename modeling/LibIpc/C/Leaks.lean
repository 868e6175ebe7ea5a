import LibIpc.C.Connecting

/-!
# Descriptors left open by a failed call

`usock_connect`, `usock_init` and `ipc_contact_ipcd` return as soon as something fails, and only one
of their early returns closes the socket made before. What the answers of the system calls amount to
is said once for each function (`ConnectSys.Fails`, `InitSys.Fails`, `ContactSys.Ends`); what is left
open follows from that.
-/

namespace LibIpc.C

open Lib

/-! ## What is asked for -/

/-- When the call returns an error, the process is as it was. -/
def FailsCleanly (p : Process) (call : Option (IpcErrorCode × Process)) : Prop :=
  ∀ e p', call = some (e, p') → e ≠ .none → p' = p

/-- When the call returns, it has opened `*pfd` and nothing else, and closed nothing. A value that is
not positive is no descriptor. -/
def LeavesPfd (opened : Finset Fd) (call : Option (IpcErrorCode × Fd × Finset Fd)) : Prop :=
  ∀ e pfd opened', call = some (e, pfd, opened') →
    opened' = if pfd ≤ 0 then opened else insert pfd opened

/-! ## `usock_init` and `usock_connect` -/

/-- `usock_init` fails after it has made the socket: `bind(2)` or `listen(2)` does. -/
def InitSys.Fails (sys : InitSys) (path : List Byte) : Prop :=
  ∃ sunPath, initSunPath path = some sunPath ∧ directorySetup_ sys.fs path = some .none ∧
    sys.socket ∧ ¬ (sys.bind sunPath ∧ sys.listen)

/-- `usock_connect` makes its socket and connects it. -/
def ConnectSys.Connects (sys : ConnectSys) (path : List Byte) : Prop :=
  ∃ sunPath, sys.socket ∧ connectSunPath path = some sunPath ∧
    directorySetup_ sys.fs path = some .none ∧ sys.connect sunPath

/-- `usock_connect` fails after it has made the socket: the directory cannot be used, or
`connect(2)` fails. -/
def ConnectSys.Fails (sys : ConnectSys) (path : List Byte) : Prop :=
  ∃ sunPath setup, sys.socket ∧ connectSunPath path = some sunPath ∧
    directorySetup_ sys.fs path = some setup ∧ (setup ≠ .none ∨ ¬ sys.connect sunPath)

section Sockets
variable (k : Kernel) (opened : Finset Fd) {path : List Byte}

theorem usockConnect_of_not_socket {sys : ConnectSys} (h : ¬ sys.socket) :
    usockConnect k opened path sys = some (.error .usockConnectSocket, opened) := by
  simp [usockConnect, h]

theorem usockConnect_of_connects {sys : ConnectSys} (h : sys.Connects path) :
    usockConnect k opened path sys = some (.ok (k.next opened), k.grow opened) := by
  obtain ⟨sunPath, hsocket, hpath, hsetup, hconnect⟩ := h
  simp [usockConnect, hsocket, hpath, hsetup, hconnect]

/-- The socket stays open. -/
theorem usockConnect_of_fails {sys : ConnectSys} (h : sys.Fails path) :
    ∃ e ≠ .none, usockConnect k opened path sys = some (.error e, k.grow opened) := by
  obtain ⟨sunPath, setup, hsocket, hpath, hsetup, hfails⟩ := h
  by_cases hnone : setup = .none
  · refine ⟨.usockConnectConnect, by decide, ?_⟩
    have hconnect := hfails.resolve_left (not_not.mpr hnone)
    simp [usockConnect, hsocket, hpath, hsetup, hnone, hconnect]
  · refine ⟨setup, hnone, ?_⟩
    simp [usockConnect, hsocket, hpath, hsetup, hnone]

/-- Everything `usock_connect` can return. -/
theorem usockConnect_cases {sys : ConnectSys} {r : Except IpcErrorCode Fd × Finset Fd}
    (h : usockConnect k opened path sys = some r) :
    ¬ sys.socket ∨ sys.Connects path ∨ sys.Fails path := by
  by_cases hsocket : sys.socket
  · right
    rw [usockConnect, if_neg (not_not.mpr hsocket)] at h
    obtain ⟨sunPath, hpath, h⟩ := Option.bind_eq_some_iff.mp h
    obtain ⟨setup, hsetup, h⟩ := Option.bind_eq_some_iff.mp h
    by_cases hok : setup = .none ∧ sys.connect sunPath
    · exact .inl ⟨sunPath, hsocket, hpath, hok.1 ▸ hsetup, hok.2⟩
    · exact .inr ⟨sunPath, setup, hsocket, hpath, hsetup, not_and_or.mp hok⟩
  · exact .inl hsocket

theorem usockInit_of_fails {sys : InitSys} (h : sys.Fails path) :
    ∃ e ≠ .none, usockInit k opened path sys = some (.error e, k.grow opened) := by
  obtain ⟨sunPath, hpath, hsetup, hsocket, hfails⟩ := h
  by_cases hbind : sys.bind sunPath
  · refine ⟨.usockInitListen, by decide, ?_⟩
    have hlisten : ¬ sys.listen := fun hlisten => hfails ⟨hbind, hlisten⟩
    simp [usockInit, hpath, hsetup, hsocket, hbind, hlisten]
  · refine ⟨.usockInitBind, by decide, ?_⟩
    simp [usockInit, hpath, hsetup, hsocket, hbind]

/-- Otherwise an error comes before the socket. -/
theorem usockInit_error {sys : InitSys} {e : IpcErrorCode} {opened' : Finset Fd}
    (h : usockInit k opened path sys = some (.error e, opened')) (hnot : ¬ sys.Fails path) :
    opened' = opened := by
  obtain ⟨sunPath, hpath, h⟩ := Option.bind_eq_some_iff.mp h
  obtain ⟨setup, hsetup, h⟩ := Option.bind_eq_some_iff.mp h
  split at h
  · cases h
    rfl
  · rename_i hnone
    split at h
    · cases h
      rfl
    · rename_i hsocket
      have hok : sys.bind sunPath ∧ sys.listen := by
        by_contra hfails
        exact hnot ⟨sunPath, hpath, by rw [hsetup, not_not.mp hnone], not_not.mp hsocket, hfails⟩
      simp [hok.1, hok.2] at h

end Sockets

/-! ## `ipc_server_init` -/

theorem failsCleanly_serverInit_iff (p : Process) (k : Kernel) (rundir : Option (List Byte))
    (sname : List Byte) (sys : InitSys) :
    FailsCleanly p (p.ipcServerInit k rundir sname sys) ↔
      ¬ sys.Fails (servicePath rundir sname) := by
  constructor
  · intro hclean hfails
    obtain ⟨e, he, hinit⟩ := usockInit_of_fails k p.opened hfails
    have hcall : p.ipcServerInit k rundir sname sys =
        some (e, { ctx := p.ctx, opened := k.grow p.opened }) := by
      simp only [Process.ipcServerInit, hinit]
      rfl
    have hopened := congrArg Process.opened (hclean _ _ hcall he)
    exact k.grow_ne p.opened hopened
  · rintro hnot e p' hcall he
    obtain ⟨⟨init, opened'⟩, hinit, hcall⟩ := Option.bind_eq_some_iff.mp hcall
    cases init with
    | ok fd =>
      cases hcall
      exact absurd rfl he
    | error e =>
      cases hcall
      rw [usockInit_error k p.opened hinit hnot]

/-! ## `ipc_contact_ipcd` -/

/-- How `ipc_contact_ipcd` ends: the daemon is not asked; there is no socket for it; something fails
once there is one; the daemon refuses; a descriptor comes from the daemon, and `extra` more. -/
inductive ContactEnd where
  | notAsked
  | noSocket
  | stranded
  | refused
  | received (extra : Nat)

section Ends
variable (sys : ContactSys) (rundir : Option (List Byte)) (sname : List Byte)

/-- The daemon is asked, and connected to. -/
structure ContactSys.Reaches (ipcdVar : List Byte) : Prop where
  asked : sys.ipcNetwork = some ipcdVar ∧ asksIpcd ipcdVar sname = some true
  connected : sys.connect.Connects (servicePath rundir networkName)

/-- The daemon gets the request and answers. -/
structure ContactSys.Answers (m : IpcMessage) : Prop where
  reached : ∃ ipcdVar, sys.Reaches rundir sname ipcdVar ∧
    ∃ bs, ipcWriteFd (lookupMessage sname ipcdVar) sys.send = some (.none, bs)
  answered : ∃ rest, ipcReadFd default sys.recv = .returned (.ok m) rest

/-- What the answers of the system calls amount to. -/
inductive ContactSys.Ends : ContactEnd → Prop
  | unset : sys.ipcNetwork = none → Ends .notAsked
  | notAsked {ipcdVar : List Byte} :
      sys.ipcNetwork = some ipcdVar → asksIpcd ipcdVar sname = some false → Ends .notAsked
  | noSocket {ipcdVar : List Byte} :
      sys.ipcNetwork = some ipcdVar → asksIpcd ipcdVar sname = some true → ¬ sys.connect.socket →
      Ends .noSocket
  | unconnected {ipcdVar : List Byte} :
      sys.ipcNetwork = some ipcdVar → asksIpcd ipcdVar sname = some true →
      sys.connect.Fails (servicePath rundir networkName) → Ends .stranded
  | unsent {ipcdVar bs : List Byte} {e : IpcErrorCode} :
      sys.Reaches rundir sname ipcdVar →
      ipcWriteFd (lookupMessage sname ipcdVar) sys.send = some (e, bs) → e ≠ .none → Ends .stranded
  | unanswered {ipcdVar bs : List Byte} {e : IpcErrorCode} {rest : List RecvResult} :
      sys.Reaches rundir sname ipcdVar →
      ipcWriteFd (lookupMessage sname ipcdVar) sys.send = some (.none, bs) →
      ipcReadFd default sys.recv = .returned (.error e) rest → Ends .stranded
  | refused {m : IpcMessage} : sys.Answers rundir sname m → m.length ≠ 2 → Ends .refused
  | unreceived {m : IpcMessage} :
      sys.Answers rundir sname m → m.length = 2 → sys.received = none → Ends .stranded
  | received {m : IpcMessage} {extra : Nat} :
      sys.Answers rundir sname m → m.length = 2 → sys.received = some (extra + 1) →
      Ends (.received extra)

end Ends

/-- The descriptors open at the end. -/
def ContactEnd.opened (k : Kernel) (opened : Finset Fd) : ContactEnd → Finset Fd
  | .notAsked | .noSocket | .refused => opened
  | .stranded => k.grow opened
  | .received extra => (k.grow^[extra + 1] (k.grow opened)).erase (k.next opened)

/-- What `*pfd` can be at the end. -/
def ContactEnd.Pfd (k : Kernel) (opened : Finset Fd) (pfd : Fd) : ContactEnd → Prop
  | .received _ => pfd = k.next (k.grow opened)
  | _ => pfd ≤ 0

section Contact
variable (k : Kernel) (opened : Finset Fd) {sys : ContactSys} {rundir : Option (List Byte)}
  {sname : List Byte}

/-- How it ends says what it returns. -/
theorem ipcContactIpcd_of_ends {E : ContactEnd} (h : sys.Ends rundir sname E) :
    ∃ e pfd, ipcContactIpcd k opened rundir sname sys = some (e, pfd, E.opened k opened) ∧
      E.Pfd k opened pfd := by
  have hsent : ∀ {ipcdVar}, sys.Reaches rundir sname ipcdVar →
      usockConnect k opened (servicePath rundir networkName) sys.connect =
        some (.ok (k.next opened), k.grow opened) :=
    fun h => usockConnect_of_connects k opened h.connected
  cases h with
  | unset hvar =>
    refine ⟨.none, 0, ?_, Int.le_refl 0⟩
    simp only [ipcContactIpcd, hvar]
    rfl
  | notAsked hvar hasks =>
    refine ⟨.none, 0, ?_, Int.le_refl 0⟩
    simp only [ipcContactIpcd, hvar, hasks, Option.bind_eq_bind, Option.bind_some]
    rfl
  | noSocket hvar hasks hsocket =>
    refine ⟨.usockConnectSocket, 0, ?_, Int.le_refl 0⟩
    simp only [ipcContactIpcd, askIpcd, hvar, hasks, usockConnect_of_not_socket k opened hsocket,
      Option.bind_eq_bind, Option.bind_some]
    rfl
  | unconnected hvar hasks hfails =>
    obtain ⟨e, -, hconnect⟩ := usockConnect_of_fails k opened hfails
    refine ⟨e, 0, ?_, Int.le_refl 0⟩
    simp only [ipcContactIpcd, askIpcd, hvar, hasks, hconnect, Option.bind_eq_bind, Option.bind_some]
    rfl
  | @unsent ipcdVar bs e hreaches hwrite he =>
    refine ⟨e, 0, ?_, Int.le_refl 0⟩
    simp only [ipcContactIpcd, askIpcd, hreaches.asked.1, hreaches.asked.2, hsent hreaches, hwrite, ne_eq,
      he, not_true_eq_false, not_false_eq_true, if_false, if_true, Option.bind_eq_bind,
      Option.bind_some]
    rfl
  | @unanswered ipcdVar bs e rest hreaches hwrite hread =>
    refine ⟨e, 0, ?_, Int.le_refl 0⟩
    simp only [ipcContactIpcd, askIpcd, hreaches.asked.1, hreaches.asked.2, hsent hreaches, hwrite, hread,
      Option.bind_eq_bind, Option.bind_some]
    rfl
  | refused hanswers hlength =>
    obtain ⟨⟨ipcdVar, hreaches, bs, hwrite⟩, rest, hread⟩ := hanswers
    refine ⟨.closedRecipient, 0, ?_, Int.le_refl 0⟩
    simp only [ipcContactIpcd, askIpcd, hreaches.asked.1, hreaches.asked.2, hsent hreaches, hwrite, hread,
      ne_eq, hlength, Allocator.erase_grow, not_true_eq_false, not_false_eq_true, if_false, if_true,
      Option.bind_eq_bind, Option.bind_some]
    rfl
  | unreceived hanswers hlength hreceived =>
    obtain ⟨⟨ipcdVar, hreaches, bs, hwrite⟩, rest, hread⟩ := hanswers
    refine ⟨.receiveFdRecvmsg, -1, ?_, show (-1 : Fd) ≤ 0 by decide⟩
    simp only [ipcContactIpcd, askIpcd, hreaches.asked.1, hreaches.asked.2, hsent hreaches, hwrite, hread,
      hlength, hreceived, Option.bind_eq_bind, Option.bind_some]
    rfl
  | @received m extra hanswers hlength hreceived =>
    obtain ⟨⟨ipcdVar, hreaches, bs, hwrite⟩, rest, hread⟩ := hanswers
    refine ⟨.none, k.next (k.grow opened), ?_, rfl⟩
    simp only [ipcContactIpcd, askIpcd, hreaches.asked.1, hreaches.asked.2, hsent hreaches, hwrite, hread,
      hlength, hreceived, Option.bind_eq_bind, Option.bind_some]
    rfl

/-- When it returns, it ends in one of these ways. -/
theorem exists_ends {r : IpcErrorCode × Fd × Finset Fd}
    (h : ipcContactIpcd k opened rundir sname sys = some r) : ∃ E, sys.Ends rundir sname E := by
  unfold ipcContactIpcd at h
  split at h
  · rename_i hvar
    exact ⟨_, .unset hvar⟩
  · rename_i ipcdVar hvar
    obtain ⟨asks, hasks, h⟩ := Option.bind_eq_some_iff.mp h
    cases asks with
    | false => exact ⟨_, .notAsked hvar hasks⟩
    | true =>
      obtain ⟨⟨ipcd, opened₁⟩, hconnect, h⟩ := Option.bind_eq_some_iff.mp h
      rcases usockConnect_cases k opened hconnect with hsocket | hconnects | hfails
      · exact ⟨_, .noSocket hvar hasks hsocket⟩
      · have hreaches : sys.Reaches rundir sname ipcdVar := ⟨⟨hvar, hasks⟩, hconnects⟩
        rw [usockConnect_of_connects k opened hconnects] at hconnect
        cases hconnect
        obtain ⟨⟨sent, bs⟩, hwrite, h⟩ := Option.bind_eq_some_iff.mp h
        by_cases hsent : sent = .none
        · subst hsent
          simp only [ne_eq, not_true_eq_false, if_false] at h
          split at h
          · cases h
          · rename_i e rest hread
            exact ⟨_, .unanswered hreaches hwrite hread⟩
          · rename_i m rest hread
            have hanswers : sys.Answers rundir sname m :=
              ⟨⟨ipcdVar, hreaches, bs, hwrite⟩, rest, hread⟩
            by_cases hlength : m.length = 2
            · cases hreceived : sys.received with
              | none => exact ⟨_, .unreceived hanswers hlength hreceived⟩
              | some n =>
                cases n with
                | zero =>
                  rw [if_neg (not_not.mpr hlength), hreceived] at h
                  cases h
                | succ extra => exact ⟨_, .received hanswers hlength hreceived⟩
            · exact ⟨_, .refused hanswers hlength⟩
        · exact ⟨_, .unsent hreaches hwrite hsent⟩
      · exact ⟨_, .unconnected hvar hasks hfails⟩

/-- A descriptor comes from the daemon that the caller takes for one. -/
def ContactEnd.Gives (k : Kernel) (opened : Finset Fd) : ContactEnd → Prop
  | .received _ => 0 < k.next (k.grow opened)
  | _ => False

/-- More is left open than the descriptor that is given. -/
def ContactEnd.Leaks (k : Kernel) (opened : Finset Fd) : ContactEnd → Prop
  | .notAsked | .noSocket | .refused => False
  | .stranded => True
  | .received extra => extra ≠ 0 ∨ ¬ 0 < k.next (k.grow opened)

theorem ContactEnd.pfd_pos_iff {E : ContactEnd} {pfd : Fd} (h : E.Pfd k opened pfd) :
    0 < pfd ↔ E.Gives k opened := by
  cases E with
  | received extra =>
    have hpfd : pfd = k.next (k.grow opened) := h
    rw [hpfd]
    rfl
  | _ =>
    have hpfd : pfd ≤ 0 := h
    exact ⟨fun hpos => absurd hpos (Int.not_lt.mpr hpfd), False.elim⟩

/-- Where no descriptor is given, what is left open is a leak. -/
theorem ContactEnd.opened_eq_iff {E : ContactEnd} (h : ¬ E.Gives k opened) :
    E.opened k opened = opened ↔ ¬ E.Leaks k opened := by
  cases E with
  | notAsked => exact ⟨fun _ => not_false, fun _ => rfl⟩
  | noSocket => exact ⟨fun _ => not_false, fun _ => rfl⟩
  | refused => exact ⟨fun _ => not_false, fun _ => rfl⟩
  | stranded => exact ⟨fun heq => absurd heq (k.grow_ne opened), fun hnot => absurd trivial hnot⟩
  | received extra =>
    refine ⟨fun heq => ?_, fun hnot => absurd (.inr h) hnot⟩
    have hmem := k.next_mem_erase_grow_iterate extra opened
    have heq' : (k.grow^[extra + 1] (k.grow opened)).erase (k.next opened) = opened := heq
    rw [heq'] at hmem
    exact absurd (k.subset_grow opened hmem) (k.fresh (k.grow opened))

/-- Where a descriptor is given, it is all that is left open, unless others came with it. -/
theorem ContactEnd.opened_eq_insert_iff {E : ContactEnd} {pfd : Fd} (h : E.Gives k opened)
    (hpfd : E.Pfd k opened pfd) : E.opened k opened = insert pfd opened ↔ ¬ E.Leaks k opened := by
  cases E with
  | received extra =>
    obtain rfl : pfd = k.next (k.grow opened) := hpfd
    have hpos : 0 < k.next (k.grow opened) := h
    have hleaks : ContactEnd.Leaks k opened (.received extra) ↔ extra ≠ 0 := by
      simp [ContactEnd.Leaks, hpos]
    rw [hleaks, not_not, ← k.erase_grow_iterate_eq_iff extra opened]
    rfl
  | _ => exact absurd h id

/-- **`ipc_contact_ipcd` leaves nothing open but `*pfd`**, exactly when it ends without a leak. -/
theorem leavesPfd_iff :
    LeavesPfd opened (ipcContactIpcd k opened rundir sname sys) ↔
      ¬ ∃ E, sys.Ends rundir sname E ∧ E.Leaks k opened := by
  have hend : ∀ {E : ContactEnd} {pfd : Fd}, E.Pfd k opened pfd →
      (E.opened k opened = (if pfd ≤ 0 then opened else insert pfd opened) ↔ ¬ E.Leaks k opened) := by
    intro E pfd hpfd
    by_cases hgives : E.Gives k opened
    · have hpos := (E.pfd_pos_iff k opened hpfd).mpr hgives
      rw [if_neg (Int.not_le.mpr hpos), E.opened_eq_insert_iff k opened hgives hpfd]
    · have hneg := mt (E.pfd_pos_iff k opened hpfd).mp hgives
      rw [if_pos (Int.not_lt.mp hneg), E.opened_eq_iff k opened hgives]
  constructor
  · rintro hleaves ⟨E, hends, hleaks⟩
    obtain ⟨e, pfd, hcall, hpfd⟩ := ipcContactIpcd_of_ends k opened hends
    exact (hend hpfd).mp (hleaves _ _ _ hcall) hleaks
  · intro hnot e pfd opened' hcall
    obtain ⟨E, hends⟩ := exists_ends k opened hcall
    obtain ⟨e', pfd', hcall', hpfd⟩ := ipcContactIpcd_of_ends k opened hends
    rw [hcall, Option.some.injEq] at hcall'
    cases hcall'
    exact (hend hpfd).mpr fun hleaks => hnot ⟨E, hends, hleaks⟩

/-- Nothing that was open is closed. -/
theorem ContactEnd.subset_opened (E : ContactEnd) : opened ⊆ E.opened k opened := by
  cases E with
  | stranded => exact k.subset_grow opened
  | received extra => exact k.subset_erase_grow_iterate (extra + 1) opened
  | _ => exact Finset.Subset.refl opened

end Contact

/-! ## `ipc_connection` -/

/-- With a descriptor there is nothing left to fail. -/
theorem ipcConnection_ok (ctx : IpcCtx) (ipcd fd : Fd) :
    (C.ipcConnection ctx ipcd (.ok fd)).1 = .none := by
  unfold C.ipcConnection ipcConnection_
  split
  · rename_i e herror
    split at herror <;> cases herror
  · rfl

theorem ipcConnection_error (ctx : IpcCtx) {ipcd : Fd} (h : ipcd ≤ 0) (e : IpcErrorCode) :
    C.ipcConnection ctx ipcd (.error e) = (e, ctx) := by
  simp only [C.ipcConnection, ipcConnection_, h, if_true]
  rfl

section Connection
variable {p : Process} {k : Kernel} {rundir : Option (List Byte)} {sname : List Byte}
  {contact : ContactSys} {direct : ConnectSys} {E : ContactEnd}

/-- An error comes from the direct connection, made without a descriptor from the daemon. -/
theorem ipcConnection_error_cases {e : IpcErrorCode} {p' : Process}
    (h : p.ipcConnection k rundir sname contact direct = some (e, p')) (he : e ≠ .none) :
    ∃ E, contact.Ends rundir sname E ∧ ¬ E.Gives k p.opened ∧
      usockConnect k (E.opened k p.opened) (servicePath rundir sname) direct =
        some (.error e, p'.opened) ∧ p'.ctx = p.ctx := by
  obtain ⟨⟨e₀, pfd, opened₀⟩, hcontact, h⟩ := Option.bind_eq_some_iff.mp h
  obtain ⟨E, hends⟩ := exists_ends k p.opened hcontact
  obtain ⟨e₁, pfd₁, hcontact₁, hpfd⟩ := ipcContactIpcd_of_ends k p.opened hends
  rw [hcontact, Option.some.injEq] at hcontact₁
  cases hcontact₁
  refine ⟨E, hends, ?_⟩
  simp only at h
  split at h
  · rename_i hle
    obtain ⟨⟨connect, opened⟩, hdirect, h⟩ := Option.bind_eq_some_iff.mp h
    cases connect with
    | ok fd =>
      cases h
      exact absurd (ipcConnection_ok _ _ _) he
    | error e' =>
      rw [ipcConnection_error p.ctx hle] at h
      cases h
      exact ⟨mt (E.pfd_pos_iff k p.opened hpfd).mpr (Int.not_lt.mpr hle), hdirect, rfl⟩
  · cases h
    exact absurd (ipcConnection_ok _ _ _) he

/-- Such an error is returned. -/
theorem ipcConnection_of_direct_error (hends : contact.Ends rundir sname E)
    (hgives : ¬ E.Gives k p.opened) {e : IpcErrorCode} {opened : Finset Fd}
    (hdirect : usockConnect k (E.opened k p.opened) (servicePath rundir sname) direct =
      some (.error e, opened)) :
    p.ipcConnection k rundir sname contact direct =
      some (e, { ctx := p.ctx, opened := opened }) := by
  obtain ⟨e₀, pfd, hcontact, hpfd⟩ := ipcContactIpcd_of_ends k p.opened hends
  have hle : pfd ≤ 0 := Int.not_lt.mp (mt (E.pfd_pos_iff k p.opened hpfd).mp hgives)
  simp only [Process.ipcConnection, hcontact, hle, if_true, hdirect, ipcConnection_error p.ctx hle,
    Option.bind_eq_bind, Option.bind_some]
  rfl

/-- An error of `ipc_connection` leaves something open when the direct connection fails once it has
its socket, or has none while the request to the daemon has left something open. -/
theorem failsCleanly_connection_iff :
    FailsCleanly p (p.ipcConnection k rundir sname contact direct) ↔
      ¬ ∃ E, contact.Ends rundir sname E ∧ ¬ E.Gives k p.opened ∧
        (direct.Fails (servicePath rundir sname) ∨ ¬ direct.socket ∧ E.Leaks k p.opened) := by
  constructor
  · rintro hclean ⟨E, hends, hgives, hfails | ⟨hsocket, hleaks⟩⟩
    · obtain ⟨e, he, hdirect⟩ := usockConnect_of_fails k (E.opened k p.opened) hfails
      have hsame := hclean _ _ (ipcConnection_of_direct_error hends hgives hdirect) he
      have hopened : k.grow (E.opened k p.opened) = p.opened := congrArg Process.opened hsame
      have hmem := k.next_mem_grow (E.opened k p.opened)
      rw [hopened] at hmem
      exact k.fresh _ (E.subset_opened k p.opened hmem)
    · have hdirect : usockConnect k (E.opened k p.opened) (servicePath rundir sname) direct =
          some (.error .usockConnectSocket, E.opened k p.opened) :=
        usockConnect_of_not_socket k _ hsocket
      have hsame := hclean _ _ (ipcConnection_of_direct_error hends hgives hdirect) (by decide)
      exact (E.opened_eq_iff k p.opened hgives).mp (congrArg Process.opened hsame) hleaks
  · intro hnot e p' hcall he
    obtain ⟨E, hends, hgives, hdirect, hctx⟩ := ipcConnection_error_cases hcall he
    have hopened : p'.opened = p.opened := by
      rcases usockConnect_cases k (E.opened k p.opened) hdirect with hsocket | hconnects | hfails
      · rw [usockConnect_of_not_socket k _ hsocket, Option.some.injEq] at hdirect
        obtain ⟨-, hopened⟩ := Prod.mk.inj hdirect
        rw [← hopened, E.opened_eq_iff k p.opened hgives]
        exact fun hleaks => hnot ⟨E, hends, hgives, .inr ⟨hsocket, hleaks⟩⟩
      · rw [usockConnect_of_connects k _ hconnects] at hdirect
        cases hdirect
      · exact absurd ⟨E, hends, hgives, .inl hfails⟩ hnot
    cases p'
    cases hctx
    cases hopened
    rfl

end Connection

end LibIpc.C

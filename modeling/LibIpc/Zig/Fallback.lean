import LibIpc.Zig.Connecting
import LibIpc.Zig.Survival

/-!
# When `connect_ipc` connects directly

`connect_ipc` asks `ipcd` first and then, "in case this doesn't work", connects to the service. The
second attempt is made when `connect_ipcd` returns `null`, and it does so only where `IPC_NETWORK`
is not set: whatever else goes wrong with `ipcd` is an error of the whole call. `fallsBack_iff` says
when a direct connection that would succeed is enough.
-/

namespace LibIpc.Zig

open Lib

/-- The call succeeds, with a descriptor received from `ipcd` or given by the direct connection, and
this is the only new one, tracked and open. -/
def FallsBack (rundir : List Byte) (s : State) (serviceName : List Byte) (sys : IpcSys) : Prop :=
  ∃ fd s', s.connectIpc rundir serviceName sys = some (.ok fd, s') ∧
    (sys.recv.fd = some fd ∨ sys.direct.connect = .ok fd) ∧ s'.ctx.Parallel ∧
    s'.ctx.fds.Perm (fd :: s.ctx.fds) ∧ s'.openFds = insert fd s.openFds

/-- `ipcd` is there, has answered "ok" to a lookup that fits, and a descriptor has come with it. -/
structure IpcSys.HandsOver (sys : IpcSys) (rundir serviceName network : List Byte) : Prop where
  isSet : sys.network = some network
  fits : LookupFits serviceName network
  ipcd : ∃ ipcdfd, sys.ipcd.Connects (serverPath rundir ipcText) ipcdfd
  gives : sys.Gives network (serviceName ++ 59 :: network)
  received : sys.recv.fd.isSome

section Falls
variable {rundir serviceName network : List Byte} {s s' : State} {fd dfd : Fd} {sys : IpcSys}

/-- With `IPC_NETWORK` set, only `ipcd` can make the call succeed. -/
theorem connectIpc_eq_ok (hnetwork : sys.network = some network) :
    s.connectIpc rundir serviceName sys = some (.ok fd, s') ↔
      s.connectIpcd rundir serviceName sys = some (.ok (some fd), s') := by
  have hne := connectIpcd_ne_none hnetwork rundir serviceName s
  rw [State.connectIpc]
  match hd : s.connectIpcd rundir serviceName sys with
  | none => simp
  | some (.error e, s₁) => simp
  | some (.ok (some fd'), s₁) => simp
  | some (.ok none, s₁) => exact absurd hd (hne s₁)

theorem perm_fds_track (s : State) (newcon : Connection) (fd : Fd) :
    (s.track newcon fd).ctx.fds.Perm (fd :: s.ctx.fds) := by
  rw [ctx_track, fds_add_]
  exact List.perm_append_singleton fd s.ctx.fds

/-- The only way to the direct connection. -/
theorem fallsBack_of_unset (hpar : s.ctx.Parallel) (hunset : sys.network = none)
    (hdirect : sys.direct.Connects (serverPath rundir serviceName) dfd) :
    FallsBack rundir s serviceName sys := by
  have hconnect : s.connectIpc rundir serviceName sys =
      some (.ok dfd, s.track { t := .ipc } dfd) := by
    simp only [State.connectIpc, State.connectIpcd, hunset, connectService_of_connects hdirect]
  exact ⟨dfd, _, hconnect, .inr hdirect.2.1, parallel_add_ hpar _ dfd, perm_fds_track s _ dfd, rfl⟩

/-- The connection to `ipcd` is closed, and the one received stays. -/
theorem fallsBack_of_handsOver (hpar : s.ctx.Parallel) (hfresh : sys.Fresh s)
    (h : sys.HandsOver rundir serviceName network) : FallsBack rundir s serviceName sys := by
  obtain ⟨ipcdfd, hipcd⟩ := h.ipcd
  obtain ⟨newfd, hrecv⟩ := Option.isSome_iff_exists.mp h.received
  obtain ⟨hnew, hne⟩ := hfresh.received ipcdfd hipcd.2.1 newfd hrecv
  have hfree := hfresh.ipcd ipcdfd hipcd.2.1
  -- `s₁` is the state with `ipcd` connected, `s₂` the one with both connections.
  let s₁ := s.track { t := .ipc } ipcdfd
  let s₂ := s₁.track { t := .ipc } newfd
  have hask : s₁.askIpcd network (serviceName ++ 59 :: network) ipcdfd sys =
      (.ok (some newfd), s₂) := by
    rw [askIpcd_of_gives h.gives, State.receiveFd, hrecv]
    rfl
  have hpar₂ : s₂.ctx.Parallel := parallel_add_ (parallel_add_ hpar _ ipcdfd) _ newfd
  have htemporary : Temporary s ipcdfd [{ t := .ipc }] [.added newfd] s₂ :=
    ⟨List.append_assoc _ _ _, List.append_assoc _ _ _,
      Finset.mem_insert_of_mem (Finset.mem_insert_self ipcdfd s.openFds)⟩
  obtain ⟨tx, io, hclose⟩ := htemporary.closeFd hpar
  rcases closeFd_eq_some hpar₂ hclose with ⟨hnone, -, -⟩ | ⟨index, c, hget, -, hclosed⟩
  · rw [htemporary.fdToIndex] at hnone
    cases hnone
  · have hconnect := connectIpcd_of_connects h.isSet h.fits hipcd s
    rw [hask] at hconnect
    simp only [hclose, Option.map_some] at hconnect
    refine ⟨newfd, _, (connectIpc_eq_ok h.isSet).mpr hconnect, .inl hrecv, hclosed.parallel, ?_, ?_⟩
    · have hperm := perm_fds_of_closed hpar₂ hget hclosed
      have hadded : s₂.ctx.fds.Perm (newfd :: ipcdfd :: s.ctx.fds) :=
        (perm_fds_track s₁ _ newfd).trans ((perm_fds_track s _ ipcdfd).cons newfd)
      exact (hperm.symm.trans (hadded.trans (List.Perm.swap ipcdfd newfd _))).cons_inv
    · show (insert newfd (insert ipcdfd s.openFds)).erase ipcdfd = insert newfd s.openFds
      rw [Finset.erase_insert_of_ne hne, Finset.erase_insert hfree]

/-- "ok" without a descriptor: the number 0 is tracked, and nothing has been opened for it. -/
theorem openFds_of_no_fd (hpar : s.ctx.Parallel) (hfresh : sys.Fresh s)
    (hset : sys.network = some network) (hfits : LookupFits serviceName network) {ipcdfd : Fd}
    (hipcd : sys.ipcd.Connects (serverPath rundir ipcText) ipcdfd)
    (hgives : sys.Gives network (serviceName ++ 59 :: network)) (hrecv : sys.recv.fd = none)
    (h : s.connectIpcd rundir serviceName sys = some (.ok (some fd), s')) :
    s'.openFds = s.openFds := by
  let s₁ := s.track { t := .ipc } ipcdfd
  let s₂ : State := { s₁ with ctx := s₁.ctx.add_ { t := .ipc } 0 }
  have hask : s₁.askIpcd network (serviceName ++ 59 :: network) ipcdfd sys = (.ok (some 0), s₂) := by
    rw [askIpcd_of_gives hgives, State.receiveFd, hrecv]
  have htemporary : Temporary s ipcdfd [{ t := .ipc }] [.added 0] s₂ :=
    ⟨List.append_assoc _ _ _, List.append_assoc _ _ _, Finset.mem_insert_self ipcdfd s.openFds⟩
  obtain ⟨tx, io, hclose⟩ := htemporary.closeFd hpar
  rw [connectIpcd_of_connects hset hfits hipcd, hask] at h
  simp only [hclose, Option.map_some, Option.some.injEq, Prod.mk.injEq] at h
  rw [← h.2]
  exact Finset.erase_insert (hfresh.ipcd ipcdfd hipcd.2.1)

theorem handsOver_of_fallsBack (hpar : s.ctx.Parallel) (hfresh : sys.Fresh s)
    (hset : sys.network = some network) (h : FallsBack rundir s serviceName sys) :
    sys.HandsOver rundir serviceName network := by
  obtain ⟨fd, s', hconnect, hfrom, -, -, hopen⟩ := h
  have hipc := (connectIpc_eq_ok hset).mp hconnect
  obtain ⟨hfits, ipcdfd, hipcd, hgives⟩ := gives_of_connectIpcd hset hipc
  refine ⟨hset, hfits, ⟨ipcdfd, hipcd⟩, hgives, ?_⟩
  cases hrecv : sys.recv.fd with
  | some newfd => rfl
  | none =>
    have hsame := openFds_of_no_fd hpar hfresh hset hfits hipcd hgives hrecv hipc
    have hdirect : sys.direct.connect = .ok fd := by simpa [hrecv] using hfrom
    -- The descriptor would be one of those that were open before.
    have hmem : fd ∈ s.openFds := by
      rw [← hsame, hopen]
      exact Finset.mem_insert_self fd s.openFds
    exact absurd hmem (hfresh.direct fd hdirect)

/-- Where a direct connection would succeed, `connect_ipc` gives a connection if and only if
`IPC_NETWORK` is not set or `ipcd` hands one over. -/
theorem fallsBack_iff (hpar : s.ctx.Parallel) (hfresh : sys.Fresh s)
    (hdirect : sys.direct.Connects (serverPath rundir serviceName) dfd) :
    FallsBack rundir s serviceName sys ↔
      sys.network = none ∨ ∃ network, sys.HandsOver rundir serviceName network := by
  constructor
  · intro h
    cases hset : sys.network with
    | none => exact .inl rfl
    | some network => exact .inr ⟨network, handsOver_of_fallsBack hpar hfresh hset h⟩
  · intro h
    rcases h with hunset | ⟨network, h⟩
    · exact fallsBack_of_unset hpar hunset hdirect
    · exact fallsBack_of_handsOver hpar hfresh h

end Falls

/-- `ipcd` answers "ok" with descriptor 5. -/
def handsOverFive : IpcSys where
  network := some []
  ipcd := { connect := .ok 4 }
  write := .wrote 6
  recv := .ok okText (some 5)
  direct := { connect := .ok 4 }

theorem fallsBack_handsOverFive : FallsBack [] {} [112] handsOverFive := by
  have hpar : ({} : State).ctx.Parallel := rfl
  have hfresh : handsOverFive.Fresh {} := by
    constructor
    · rintro _ ⟨⟩
      decide
    · rintro _ ⟨⟩
      decide
    · rintro _ ⟨⟩ _ ⟨⟩
      decide
  have hdirect : handsOverFive.direct.Connects (serverPath [] [112]) 4 :=
    ⟨by decide, rfl, rfl, rfl⟩
  refine (fallsBack_iff hpar hfresh hdirect).mpr (.inr ⟨[], ?_⟩)
  exact
    { isSet := rfl
      fits := ⟨by decide, by decide⟩
      ipcd := ⟨4, by decide, rfl, rfl, rfl⟩
      gives := ⟨⟨by decide, fun h => nomatch h⟩, rfl, rfl, rfl⟩
      received := rfl }

/-- `ipcd` is absent, and the service is there. -/
def ipcdAbsent : IpcSys where
  network := some []
  direct := { connect := .ok 4 }

theorem not_fallsBack_ipcdAbsent :
    ipcdAbsent.direct.Connects (serverPath [] [112]) 4 ∧ ¬ FallsBack [] {} [112] ipcdAbsent := by
  refine ⟨⟨by decide, rfl, rfl, rfl⟩, ?_⟩
  intro h
  obtain ⟨fd, s', hconnect, -⟩ := h
  cases hconnect

end LibIpc.Zig

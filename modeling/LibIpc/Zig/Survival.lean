import LibIpc.Zig.Daemon
import LibIpc.Zig.Disconnection
import LibIpc.Zig.Sparing

/-!
# Whether a daemon survives its clients

The text of a request is chosen by the client. A lookup whose destination has no `://` makes `ipcd`
panic; a service that is absent, an address or a port that is malformed, a peer that closes, are
Zig errors that no handler catches, and end the daemon for all its clients. `survives_iff` says for
which requests and which answers the handler comes back, and that it then has touched nobody else.
-/

namespace LibIpc.Zig

open Lib

/-! ## Tidy contexts -/

/-- Every descriptor is tracked once, and open. -/
structure Tidy (s : State) : Prop where
  parallel : s.ctx.Parallel
  nodup : s.ctx.fds.Nodup
  isOpen : ∀ fd ∈ s.ctx.fds, fd ∈ s.openFds

/-- The connection on `fd` is gone, and nothing was done about the others. -/
structure Removes (fd : Fd) (s : State) (io : List Io) (s' : State) : Prop where
  tidy : Tidy s'
  gone : fd ∉ s'.ctx.fds
  closed : fd ∉ s'.openFds
  fewer : s'.ctx.fds ⊆ s.ctx.fds
  silent : ∀ fd' bs, .write fd' bs ∉ io
  others : ∀ fd', fd' ≠ fd → Spares s s' fd' ∧ Quiet fd' io

/-- Nothing about the tracked descriptors has changed. -/
structure Steady (s s' : State) : Prop where
  tidy : Tidy s'
  spares : ∀ fd ∈ s.ctx.fds, Spares s s' fd

section Tidy
variable {s s' : State} {fd : Fd} {io : List Io}

theorem Tidy.congr (h : Tidy s) (hpar : s'.ctx.Parallel) (hfds : s'.ctx.fds = s.ctx.fds)
    (hopen : s'.openFds = s.openFds) : Tidy s' where
  parallel := hpar
  nodup := hfds ▸ h.nodup
  isOpen := by
    rw [hfds, hopen]
    exact h.isOpen

@[simp]
theorem fds_add_ (ctx : Context) (c : Connection) (fd : Fd) :
    (ctx.add_ c fd).fds = ctx.fds ++ [fd] := by
  simp [Context.add_, Context.fds]

theorem mem_fds_add_ {ctx : Context} {c : Connection} {fd x : Fd} (h : x = fd ∨ x ∈ ctx.fds) :
    x ∈ (ctx.add_ c fd).fds := by
  rw [fds_add_, List.mem_append, List.mem_singleton]
  exact h.symm

@[simp]
theorem ctx_track (s : State) (c : Connection) (fd : Fd) :
    (s.track c fd).ctx = s.ctx.add_ c fd := rfl

/-- A descriptor of the process is tracked. -/
theorem Tidy.add (h : Tidy s) {c : Connection} (hfd : fd ∉ s.ctx.fds)
    (hctx : s'.ctx = s.ctx.add_ c fd) (hopen : fd ∈ s'.openFds) (hsub : s.openFds ⊆ s'.openFds) :
    Steady s s' := by
  have hfds : s'.ctx.fds = s.ctx.fds ++ [fd] := by rw [hctx, fds_add_]
  refine ⟨⟨hctx ▸ parallel_add_ h.parallel c fd, ?_, ?_⟩, ?_⟩
  · rw [hfds, ← List.concat_eq_append]
    exact h.nodup.concat hfd
  · intro fd' hfd'
    rw [hfds, List.mem_append, List.mem_singleton] at hfd'
    rcases hfd' with hfd' | rfl
    · exact hsub (h.isOpen fd' hfd')
    · exact hopen
  · intro fd' hfd'
    refine spares_add h.parallel ?_ hctx hsub
    rintro rfl
    exact hfd hfd'

/-- A new descriptor is tracked. -/
theorem Tidy.track (h : Tidy s) (hfd : fd ∉ s.openFds) (c : Connection) :
    Steady s (s.track c fd) :=
  h.add (fun hmem => hfd (h.isOpen fd hmem)) rfl (Finset.mem_insert_self fd s.openFds)
    (Finset.subset_insert fd s.openFds)

/-- A new descriptor is not tracked yet. -/
theorem Tidy.opened (h : Tidy s) (fd : Fd) :
    Steady s { s with openFds := insert fd s.openFds } where
  tidy :=
    { parallel := h.parallel
      nodup := h.nodup
      isOpen := fun fd' hfd' => Finset.mem_insert_of_mem (h.isOpen fd' hfd') }
  spares := fun _ _ => ⟨.rfl, Finset.mem_insert_of_mem, rfl, fun _ hx => hx⟩

/-- Nothing is written when a connection is closed. -/
theorem close_silent {index : Nat} {r : Except Error Unit} (h : s.close index = some (r, s', io))
    (fd : Fd) (bs : List Byte) : .write fd bs ∉ io := by
  unfold State.close at h
  split at h
  · cases h
    exact List.not_mem_nil
  · simp only [Option.bind_eq_bind, Option.pure_def] at h
    obtain ⟨c, -, h⟩ := Option.bind_eq_some_iff.mp h
    obtain ⟨p, -, h⟩ := Option.bind_eq_some_iff.mp h
    split at h
    · cases h
      simp
    · cases h

/-- Closing the connection of a tracked descriptor succeeds. -/
theorem Tidy.close (h : Tidy s) {index : Nat} {c : Connection}
    (hget : s.ctx.conns[index]? = some (c, fd)) :
    ∃ s' io, s.close index = some (.ok (), s', io) ∧ Removes fd s io s' := by
  have hmem : fd ∈ s.ctx.fds := (mem_fds_iff h.parallel).mpr ⟨_, List.mem_of_getElem? hget, rfl⟩
  obtain ⟨s', io, hclose, hclosed⟩ := exists_close h.parallel hget (h.isOpen fd hmem)
  refine ⟨s', io, hclose, ?_⟩
  -- `swapRemove` reorders the rest, so the descriptors are compared up to order
  have hperm := perm_fds_of_closed h.parallel hget hclosed
  have hnodup := hperm.nodup_iff.mp h.nodup
  rw [List.nodup_cons] at hnodup
  have hfewer : s'.ctx.fds ⊆ s.ctx.fds := fun x hx => hperm.mem_iff.mpr (List.mem_cons_of_mem _ hx)
  refine ⟨⟨hclosed.parallel, hnodup.2, ?_⟩, hnodup.1, ?_, hfewer, close_silent hclose, ?_⟩
  · intro x hx
    rw [hclosed.openFds]
    refine Finset.mem_erase.mpr ⟨?_, h.isOpen x (hfewer hx)⟩
    rintro rfl
    exact hnodup.1 hx
  · rw [hclosed.openFds]
    exact Finset.notMem_erase fd s.openFds
  · intro fd' hne
    refine close_other h.parallel ?_ hclose
    rw [hget]
    rintro e ⟨⟩
    exact hne.symm

theorem exists_fdToIndex {ctx : Context} (hfd : fd ∈ ctx.fds) : ∃ i, ctx.fdToIndex fd = some i := by
  apply Option.ne_none_iff_exists'.mp
  intro hnone
  obtain ⟨p, hp, rfl⟩ := List.mem_map.mp hfd
  exact absurd rfl (of_decide_eq_false (List.findIdx?_eq_none_iff.mp hnone p hp))

theorem Tidy.closeFd (h : Tidy s) (hfd : fd ∈ s.ctx.fds) :
    ∃ s' io, s.closeFd fd = some (.ok (), s', io) ∧ Removes fd s io s' := by
  obtain ⟨index, hindex⟩ := exists_fdToIndex hfd
  obtain ⟨c, hget⟩ := fdToIndex_eq_some h.parallel hindex
  rw [State.closeFd, hindex]
  exact h.close hget

theorem Tidy.safeCloseFd (h : Tidy s) (hclose : s.safeCloseFd fd = some (s', io)) : Tidy s' := by
  rcases safeCloseFd_eq_some h.parallel hclose with
    ⟨-, rfl, -⟩ | ⟨index, c, hget, hclose, -⟩
  · exact h
  · obtain ⟨s₁, io₁, hclose', hremoves⟩ := h.close hget
    rw [hclose'] at hclose
    cases hclose
    exact hremoves.tidy

theorem Tidy.dropSwitch (h : Tidy s) (hdrop : s.dropSwitch fd = some (s', io)) : Tidy s' := by
  obtain ⟨dest, s₁, io₁, io₂, -, h₁, h₂, -⟩ := dropSwitch_eq_some hdrop
  have hnuked : Tidy (s.withSwitchdb (s.ctx.switchdb.nuke fd)) := h.congr h.parallel rfl rfl
  exact (hnuked.safeCloseFd h₁).safeCloseFd h₂

end Tidy

/-! ## Handlers on tidy contexts -/

theorem connect_of_connectService {env : Env} {name : List Byte} {fd : Fd}
    (h : env.connectService name = .ok fd) : env.connect = .ok fd := by
  unfold Env.connectService at h
  split at h
  · cases h
  · split at h
    · cases h
    · split at h
      · cases h
      · rename_i hconnect
        cases h
        exact hconnect

section Handlers
variable {s s' : State} {fd : Fd} {io : List Io}

theorem Steady.refl (h : Tidy s) : Steady s s := ⟨h, fun _ _ => spares_of_eq rfl rfl rfl⟩

theorem mem_fds_of_spares {fd : Fd} (hpar : s.ctx.Parallel) (hpar' : s'.ctx.Parallel)
    (h : Spares s s' fd) (hfd : fd ∈ s.ctx.fds) : fd ∈ s'.ctx.fds := by
  obtain ⟨e, he, heq⟩ := (mem_fds_iff hpar).mp hfd
  have hon : e ∈ s.ctx.on fd := List.mem_filter.mpr ⟨he, by simpa using heq⟩
  exact (mem_fds_iff hpar').mpr ⟨e, List.mem_of_mem_filter (h.conn.mem_iff.mpr hon), heq⟩

theorem Steady.mem_fds (h : Steady s s') (hpar : s.ctx.Parallel) (hfd : fd ∈ s.ctx.fds) :
    fd ∈ s'.ctx.fds :=
  mem_fds_of_spares hpar h.tidy.parallel (h.spares fd hfd) hfd

/-- Removing a descriptor that was not tracked before. -/
theorem Removes.steady (h : Steady s s') {s'' : State} (hremoves : Removes fd s' io s'')
    (hnew : fd ∉ s.ctx.fds) : Steady s s'' := by
  refine ⟨hremoves.tidy, ?_⟩
  intro fd' hfd'
  refine (h.spares fd' hfd').trans (hremoves.others fd' ?_).1
  rintro rfl
  exact hnew hfd'

/-- What a handler that may go on has done: nothing about the tracked descriptors but to write on
that of the request. -/
structure Harmless (origin : Fd) (s : State) (r : Handled) : Prop where
  steady : Steady s r.state
  quiet : ∀ fd ∈ s.ctx.fds, fd ≠ origin → Quiet fd r.io

/-- The handler can still go on: it has neither panicked nor exited. -/
def Fate.ordinary : Fate → Bool
  | .continues => true
  | .fails _ => true
  | .panics => false
  | .exits => false

/-- A `defer` that closes a tracked descriptor. -/
theorem deferClose_eq {r : Handled} (hfate : r.fate.ordinary) (htidy : Tidy r.state)
    (hfd : fd ∈ r.state.ctx.fds) :
    ∃ s' io, r.deferClose fd = { fate := r.fate, state := s', io := r.io ++ io } ∧
      Removes fd r.state io s' := by
  obtain ⟨s', io, hclose, hremoves⟩ := htidy.closeFd hfd
  refine ⟨s', io, ?_, hremoves⟩
  obtain ⟨fate, state, io₀⟩ := r
  cases fate with
  | continues => simp only [Handled.deferClose, hclose]
  | fails e => simp only [Handled.deferClose, hclose]
  | panics => cases hfate
  | exits => cases hfate

theorem deferClose_of_not_ordinary {r : Handled} (hfate : ¬ r.fate.ordinary) (fd : Fd) :
    r.deferClose fd = r := by
  obtain ⟨fate, state, io⟩ := r
  cases fate with
  | continues => exact absurd rfl hfate
  | fails e => exact absurd rfl hfate
  | panics => rfl
  | exits => rfl

theorem ordinary_of_continues {r : Handled} (h : r.fate = .continues) : r.fate.ordinary := by
  rw [h]
  rfl

/-- Only the writes on the descriptor of the request are about a tracked one. -/
theorem quiet_write {fd fd' : Fd} {bs : List Byte} (hne : fd' ≠ fd) : Quiet fd [.write fd' bs] :=
  quiet_cons.mpr ⟨decide_eq_false hne, quiet_nil⟩

theorem sendFd_harmless {origin : Fd} (h : Steady s s') (sendmsg : WriteResult) :
    Harmless origin s (sendFd s' origin sendmsg) := by
  cases sendmsg with
  | error => exact ⟨h, fun _ _ _ => quiet_nil⟩
  | wrote n => exact ⟨h, fun fd _ hne => quiet_write hne.symm⟩

theorem Harmless.after {origin : Fd} {r : Handled} (h : Harmless origin s r)
    (hio : ∀ fd ∈ s.ctx.fds, fd ≠ origin → Quiet fd io) : Harmless origin s (r.after io) :=
  ⟨h.steady, fun fd hfd hne => (hio fd hfd hne).append (h.quiet fd hfd hne)⟩

/-- `sendmsg(2)` does not stop after one of the two bytes. -/
def Env.SendsOk (env : Env) : Prop := ∀ n, env.sendmsg = .wrote n → n = okText.length

theorem sendFd_continues_iff (env : Env) (s : State) (origin : Fd) :
    (sendFd s origin env.sendmsg).fate = .continues ↔ env.SendsOk := by
  unfold sendFd Env.SendsOk
  cases env.sendmsg with
  | error => simp
  | wrote n =>
    simp only [WriteResult.wrote.injEq, forall_eq']
    constructor
    · intro h
      by_contra hne
      rw [if_neg hne] at h
      cases h
    · intro h
      rw [if_pos h]

/-! ### `ipcd` -/

/-- The new connection of `ipcd` is tracked, and gone again at the end. -/
theorem ipcdHandOver_spec {env : Env} {origin : Fd} (hs : Tidy s) (hfresh : env.Fresh s)
    (name : List Byte) :
    Harmless origin s (ipcdHandOver env s origin name) ∧
      ((ipcdHandOver env s origin name).fate = .continues ↔
        (∃ fd, env.connectService name = .ok fd) ∧ env.SendsOk) := by
  unfold ipcdHandOver
  cases hconnect : env.connectService name with
  | error e =>
    refine ⟨⟨.refl hs, fun _ _ _ => quiet_nil⟩, ?_⟩
    simp
  | ok newfd =>
    have hnew : newfd ∉ s.openFds := hfresh.connect newfd (connect_of_connectService hconnect)
    have htracked := hs.track hnew { t := .ipc }
    have hmem : newfd ∈ (s.track { t := .ipc } newfd).ctx.fds := by simp
    obtain ⟨s', io, hclose, hremoves⟩ := htracked.tidy.closeFd hmem
    have hnot : newfd ∉ s.ctx.fds := fun hfd => hnew (hs.isOpen newfd hfd)
    have hsent : Harmless origin s (sendFd (s.track { t := .ipc } newfd) origin env.sendmsg) :=
      sendFd_harmless htracked env.sendmsg
    simp only [hclose, State.tryClose]
    split
    · rename_i hfate
      refine ⟨Harmless.after ⟨hremoves.steady htracked hnot, ?_⟩ hsent.quiet, ?_⟩
      · intro fd hfd hne
        refine (hremoves.others fd ?_).2
        rintro rfl
        exact hnot hfd
      · have hsends := (sendFd_continues_iff env _ origin).mp hfate
        exact iff_of_true rfl ⟨⟨newfd, rfl⟩, hsends⟩
    · rename_i hfate
      refine ⟨hsent, ?_⟩
      rw [sendFd_continues_iff]
      exact ⟨fun h => ⟨⟨newfd, rfl⟩, h⟩, fun h => h.2⟩

/-- What `Context.read` makes of an answer on a connection that is no server. -/
def readAnswer (fd : Fd) : ReadResult → Except Error (Option Message)
  | .reset => .error .connectionResetByPeer
  | .error => .error .os
  | .ok bs =>
    if bs.length ≤ 4 then .ok none else (Message.read fd bs ipcMaxMessageSize).map some

theorem Message.read_eq_ite (fd : Fd) (buf : List Byte) {len : Nat} (hlen : 4 ≤ len) :
    Message.read fd buf len =
      if be32At buf 0 > len - 4 then .error .wrongMessageLength
      else .ok { fd := fd, payload := slice buf 4 (be32At buf 0) } := by
  rw [Message.read, if_neg (Nat.not_lt.mpr hlen)]

/-- The three readings of an answer. -/
theorem readAnswer_ok (fd : Fd) (bs : List Byte) :
    (bs.length ≤ 4 ∧ readAnswer fd (.ok bs) = .ok none) ∨
      (¬ bs.length ≤ 4 ∧ ¬ be32At bs 0 ≤ ipcMaxMessageSize - 4 ∧
        readAnswer fd (.ok bs) = .error .wrongMessageLength) ∨
      (¬ bs.length ≤ 4 ∧ be32At bs 0 ≤ ipcMaxMessageSize - 4 ∧
        readAnswer fd (.ok bs) =
          .ok (some { fd := fd, payload := slice bs 4 (be32At bs 0) })) := by
  have hread := Message.read_eq_ite fd bs (show 4 ≤ ipcMaxMessageSize by decide)
  simp only [readAnswer]
  by_cases hlen : bs.length ≤ 4
  · exact .inl ⟨hlen, if_pos hlen⟩
  · rw [if_neg hlen, hread]
    by_cases hann : be32At bs 0 > ipcMaxMessageSize - 4
    · rw [if_pos hann]
      exact .inr (.inl ⟨hlen, Nat.not_le.mpr hann, rfl⟩)
    · rw [if_neg hann]
      exact .inr (.inr ⟨hlen, Nat.not_lt.mp hann, rfl⟩)

/-- What `read_fd` makes of an answer on a descriptor that has just been tracked. -/
theorem readFd_track (hpar : s.ctx.Parallel) (hfd : fd ∉ s.ctx.fds) (r : ReadResult) :
    (s.track { t := .ipc } fd).readFd fd r = readAnswer fd r := by
  have hnone : s.ctx.pollfd.findIdx? (fun p => p.fd = fd) = none := by
    rw [List.findIdx?_eq_none_iff]
    intro p hp
    exact decide_eq_false fun heq => hfd (List.mem_map.mpr ⟨p, hp, heq⟩)
  have hindex : (s.track { t := .ipc } fd).ctx.fdToIndex fd = some s.ctx.pollfd.length := by
    simp [State.track, Context.add_, Context.fdToIndex, List.findIdx?_append, hnone]
  have hp : (s.track { t := .ipc } fd).ctx.pollfd[s.ctx.pollfd.length]? =
      some { fd := fd, events := { pollin := true } } := by
    simp [State.track, Context.add_]
  have hc : (s.track { t := .ipc } fd).ctx.connections[s.ctx.pollfd.length]? =
      some { t := .ipc } := by
    have hlen : s.ctx.connections.length = s.ctx.pollfd.length := hpar
    simp [State.track, Context.add_, ← hlen]
  simp only [State.readFd, hindex, Context.read, hp, hc]
  rfl

/-- The message of the daemon that `ipcd` asks is well formed, and if it is "ok" the descriptor can
be passed on. -/
def Env.Answered (env : Env) : Prop :=
  match env.read with
  | .ok bs =>
    bs.length ≤ 4 ∨
      (be32At bs 0 ≤ ipcMaxMessageSize - 4 ∧ (slice bs 4 (be32At bs 0) = okText → env.SendsOk))
  | _ => False

theorem ipcdAnswered_spec (env : Env) (origin : Fd) (hs : Tidy s) (hfd : fd ∉ s.openFds) :
    Harmless origin s (ipcdAnswered env (s.track { t := .ipc } fd) origin fd) ∧
      (ipcdAnswered env (s.track { t := .ipc } fd) origin fd).state = s.track { t := .ipc } fd ∧
      ((ipcdAnswered env (s.track { t := .ipc } fd) origin fd).fate = .continues ↔
        env.Answered) := by
  have htracked := hs.track hfd { t := .ipc }
  have hnot : fd ∉ s.ctx.fds := fun h => hfd (hs.isOpen fd h)
  have hsame : ∀ fate, Harmless origin s { fate := fate, state := s.track { t := .ipc } fd } :=
    fun _ => ⟨htracked, fun _ _ _ => quiet_nil⟩
  have hsent : Harmless origin s (sendFd (s.track { t := .ipc } fd) origin env.sendmsg) :=
    sendFd_harmless htracked env.sendmsg
  have hstate : (sendFd (s.track { t := .ipc } fd) origin env.sendmsg).state =
      s.track { t := .ipc } fd := by
    unfold sendFd
    split <;> rfl
  rw [ipcdAnswered, readFd_track hs.parallel hnot]
  unfold Env.Answered
  cases env.read with
  | reset =>
    refine ⟨hsame _, rfl, iff_of_false ?_ id⟩
    exact nofun
  | error =>
    refine ⟨hsame _, rfl, iff_of_false ?_ id⟩
    exact nofun
  | ok bs =>
    rcases readAnswer_ok fd bs with ⟨hlen, hread⟩ | ⟨hlen, hann, hread⟩ | ⟨hlen, hann, hread⟩
    · rw [hread]
      exact ⟨hsame _, rfl, iff_of_true rfl (.inl hlen)⟩
    · rw [hread]
      refine ⟨hsame _, rfl, iff_of_false nofun ?_⟩
      rintro (h | h)
      · exact hlen h
      · exact hann h.1
    · rw [hread]
      by_cases hok : slice bs 4 (be32At bs 0) = okText
      · simp only [if_pos hok]
        refine ⟨hsent, hstate, (sendFd_continues_iff env _ origin).trans ?_⟩
        constructor
        · intro h
          exact .inr ⟨hann, fun _ => h⟩
        · rintro (h | h)
          · exact absurd h hlen
          · exact h.2 hok
      · simp only [if_neg hok]
        exact ⟨hsame _, trivial, iff_of_true trivial (.inr ⟨hann, fun h => absurd h hok⟩)⟩

theorem tryWrite_cases (s : State) (m : Message) (w : WriteResult) (rest : Handled) :
    (∃ n bs, w = .wrote n ∧ tryWrite s m w rest = rest.after [.write m.fd bs]) ∨
      (w = .error ∧ ∃ e bs, tryWrite s m w rest =
        { fate := .fails e, state := s, io := [.write m.fd bs] }) := by
  unfold tryWrite
  rw [Context.write, m.write_eq_ok (show 4 < ipcMaxMessageSize by decide)]
  cases w with
  | error => exact .inr ⟨rfl, _, _, rfl⟩
  | wrote n => exact .inl ⟨n, _, rfl, rfl⟩

/-- A `defer` that removes a connection the handler has made. -/
theorem Harmless.deferClose {origin : Fd} {r : Handled} (h : Harmless origin s r)
    (hnew : fd ∉ s.ctx.fds) (hfd : fd ∈ r.state.ctx.fds) :
    Harmless origin s (r.deferClose fd) ∧ (r.deferClose fd).fate = r.fate := by
  by_cases hfate : r.fate.ordinary
  · obtain ⟨s', io, heq, hremoves⟩ := deferClose_eq hfate h.steady.tidy hfd
    rw [heq]
    refine ⟨⟨hremoves.steady h.steady hnew, ?_⟩, rfl⟩
    intro fd' hfd' hne
    refine (h.quiet fd' hfd' hne).append (hremoves.others fd' ?_).2
    rintro rfl
    exact hnew hfd'
  · rw [deferClose_of_not_ordinary hfate]
    exact ⟨h, rfl⟩

theorem ipcdAsk_spec {env : Env} {origin : Fd} (hs : Tidy s) (hfresh : env.Fresh s)
    (protocol dest : List Byte) :
    Harmless origin s (ipcdAsk env s origin protocol dest) ∧
      ((ipcdAsk env s origin protocol dest).fate = .continues ↔
        (∃ fd, env.connectService protocol = .ok fd) ∧ (∃ n, env.write = .wrote n) ∧
          env.Answered) := by
  unfold ipcdAsk
  cases hconnect : env.connectService protocol with
  | error e =>
    refine ⟨⟨.refl hs, fun _ _ _ => quiet_nil⟩, ?_⟩
    simp
  | ok servicefd =>
    have hnew : servicefd ∉ s.openFds := hfresh.connect servicefd (connect_of_connectService hconnect)
    have hnot : servicefd ∉ s.ctx.fds := fun hfd => hnew (hs.isOpen servicefd hfd)
    have hmem : servicefd ∈ (s.track { t := .ipc } servicefd).ctx.fds := by simp
    have hquiet : ∀ bs : List Byte, ∀ fd ∈ s.ctx.fds, fd ≠ origin →
        Quiet fd [.write servicefd bs] := by
      intro bs fd hfd _
      apply quiet_write
      rintro rfl
      exact hnot hfd
    obtain ⟨hharmless, hstate, hanswered⟩ := ipcdAnswered_spec env origin hs hnew
    have hmem' : servicefd ∈
        (ipcdAnswered env (s.track { t := .ipc } servicefd) origin servicefd).state.ctx.fds := by
      rw [hstate]
      exact hmem
    rcases tryWrite_cases (s.track { t := .ipc } servicefd) { fd := servicefd, payload := dest }
        env.write (ipcdAnswered env (s.track { t := .ipc } servicefd) origin servicefd)
      with ⟨n, bs, hwrite, heq⟩ | ⟨hwrite, e, bs, heq⟩
    · obtain ⟨hdone, hsame⟩ := (hharmless.after (hquiet bs)).deferClose hnot hmem'
      simp only [heq]
      refine ⟨hdone, ?_⟩
      rw [hsame]
      exact hanswered.trans ⟨fun h => ⟨⟨servicefd, rfl⟩, ⟨n, hwrite⟩, h⟩, fun h => h.2.2⟩
    · have hfailed : Harmless origin s
          { fate := .fails e
            state := s.track { t := .ipc } servicefd
            io := [.write servicefd bs] } := ⟨hs.track hnew { t := .ipc }, hquiet bs⟩
      obtain ⟨hdone, hsame⟩ := hfailed.deferClose hnot hmem
      simp only [heq]
      refine ⟨hdone, iff_of_false ?_ ?_⟩
      · rw [hsame]
        exact nofun
      · rintro ⟨-, ⟨n, hn⟩, -⟩
        rw [hwrite] at hn
        cases hn

/-- What a text is cut into. -/
theorem cutAt_eq_some {delimiter text before after : List Byte}
    (h : cutAt delimiter text = some (before, after)) : text = before ++ delimiter ++ after := by
  induction text generalizing before with
  | nil => cases h
  | cons c text ih =>
    rw [cutAt] at h
    split at h
    · rename_i hstart
      cases h
      obtain ⟨rest, hrest⟩ := List.isPrefixOf_iff_prefix.mp hstart
      rw [← hrest, List.drop_left, List.nil_append]
    · obtain ⟨⟨before', after'⟩, hcut, heq⟩ := Option.map_eq_some_iff.mp h
      cases heq
      rw [ih hcut, List.cons_append, List.cons_append]

/-- The protocol is never the whole text, and the branch of `ipcd` for a destination without a URI
is dead. -/
theorem protocol_ne {text : List Byte} {uri : URI} (h : URI.read text = some uri) :
    uri.protocol ≠ text := by
  obtain ⟨⟨protocol, after⟩, hcut, rfl⟩ := Option.map_eq_some_iff.mp h
  have hlength := congrArg List.length (cutAt_eq_some hcut)
  intro heq
  replace heq : protocol = text := heq
  simp only [heq, List.length_append, List.length_cons] at hlength
  omega

/-- The requests of `ipcd` that its handler comes back from: none of the parts names the service, or
the destination that does is a URI, the service on this machine or the daemon of its protocol can be
connected to, and the answers that are then read and written are in order. -/
def ipcdAccepts (env : Env) (payload : List Byte) : Prop :=
  ∀ dest ∈ finalDestination payload, ∃ uri ∈ URI.read dest,
    if uri.protocol = unixText then
      (∃ fd, env.connectService uri.address = .ok fd) ∧ env.SendsOk
    else
      (∃ fd, env.connectService uri.protocol = .ok fd) ∧ (∃ n, env.write = .wrote n) ∧ env.Answered

/-- The connection on `fd` is one end of a switch. -/
def Switched (s : State) (fd : Fd) : Prop :=
  ∃ c peer, (c, fd) ∈ s.ctx.conns ∧ c.t = .switched ∧ s.ctx.switchdb.lookup fd = some peer ∧
    s.ctx.switchdb.lookup peer = some fd

/-- The handler is back in the event loop: the connection it was called for is closed, switched or
as it was, and nothing was done about the others. -/
structure Survives (origin : Fd) (s : State) (r : Handled) : Prop where
  continues : r.fate = .continues
  requester :
    (origin ∉ r.state.ctx.fds ∧ origin ∉ r.state.openFds) ∨ Switched r.state origin ∨
      Spares s r.state origin
  others : ∀ fd ∈ s.ctx.fds, fd ≠ origin → Spares s r.state fd ∧ Quiet fd r.io

/-- What a handler must show: it survives exactly when the request is accepted, and leaves a tidy
context. -/
structure Decided (origin : Fd) (s : State) (r : Handled) (accepts : Prop) : Prop where
  continues_iff : r.fate = .continues ↔ accepts
  tidy : r.fate = .continues → Tidy r.state
  survives : r.fate = .continues → Survives origin s r

theorem Decided.survives_iff_accepts {origin : Fd} {r : Handled} {accepts : Prop}
    (h : Decided origin s r accepts) : Survives origin s r ↔ accepts :=
  ⟨fun hs => h.continues_iff.mp hs.continues, fun ha => h.survives (h.continues_iff.mpr ha)⟩

/-- `ipcd` closes the connection of every request it comes back from. -/
theorem decided_deferClose {origin : Fd} {r : Handled} {accepts : Prop} (hpar : s.ctx.Parallel)
    (horigin : origin ∈ s.ctx.fds) (h : Harmless origin s r)
    (hiff : r.fate = .continues ↔ accepts) : Decided origin s (r.deferClose origin) accepts := by
  by_cases hfate : r.fate.ordinary
  · obtain ⟨s', io, heq, hremoves⟩ :=
      deferClose_eq hfate h.steady.tidy (h.steady.mem_fds hpar horigin)
    rw [heq]
    refine ⟨hiff, fun _ => hremoves.tidy, fun hcontinues => ⟨hcontinues, ?_, ?_⟩⟩
    · exact .inl ⟨hremoves.gone, hremoves.closed⟩
    · intro fd hfd hne
      obtain ⟨hspares, hquiet⟩ := hremoves.others fd hne
      exact ⟨(h.steady.spares fd hfd).trans hspares, (h.quiet fd hfd hne).append hquiet⟩
  · rw [deferClose_of_not_ordinary hfate]
    have hnot : r.fate ≠ .continues := fun hcontinues => hfate (ordinary_of_continues hcontinues)
    exact ⟨hiff, fun hc => absurd hc hnot, fun hc => absurd hc hnot⟩

theorem ipcdMessageRx_decided {env : Env} {origin : Fd} (hs : Tidy s) (hfresh : env.Fresh s)
    (horigin : origin ∈ s.ctx.fds) (m : Message) :
    Decided origin s (ipcdMessageRx env s origin (some m)) (ipcdAccepts env m.payload) := by
  have hkept : ∀ fate, Harmless origin s { fate := fate, state := s } :=
    fun _ => ⟨.refl hs, fun _ _ _ => quiet_nil⟩
  unfold ipcdMessageRx ipcdAccepts
  simp only
  cases finalDestination m.payload with
  | none =>
    refine decided_deferClose hs.parallel horigin (hkept _) ?_
    exact iff_of_true rfl nofun
  | some dest =>
    simp only [Option.mem_def, Option.some.injEq, forall_eq']
    cases huri : URI.read dest with
    | none =>
      refine decided_deferClose hs.parallel horigin (hkept _) ?_
      simp
    | some uri =>
      simp only [if_neg (protocol_ne huri), Option.some.injEq, exists_eq_left']
      by_cases hunix : uri.protocol = unixText
      · rw [if_pos hunix, if_pos hunix]
        obtain ⟨hharmless, hiff⟩ := ipcdHandOver_spec hs hfresh uri.address
        exact decided_deferClose hs.parallel horigin hharmless hiff
      · rw [if_neg hunix, if_neg hunix]
        obtain ⟨hharmless, hiff⟩ := ipcdAsk_spec hs hfresh uri.protocol dest
        exact decided_deferClose hs.parallel horigin hharmless hiff

/-! ### `tcpd` -/

/-- The requests of `tcpd` that its handler comes back from: the payload is a URI with an address and
a port, the remote daemon can be connected to, reads the path and answers, and its "ok" can be passed
on. -/
def tcpdAccepts (env : Env) (payload : List Byte) : Prop :=
  ∃ uri ∈ URI.read payload,
    (∃ port, parseUnsigned (splitRest [58] uri.address) = .ok port) ∧
      (∃ ip, parseIp (splitFirst [58] uri.address) = .ok ip) ∧
      (∃ fd, env.tcpConnect = .ok fd) ∧ (∃ n, env.streamWrite = .wrote n) ∧
      ∃ bs, env.streamRead = .ok bs ∧ (bs = okText → ∃ n, env.write = .wrote n)

/-- An `errdefer` is for a handler that does not go on, and does not make it go on. -/
def OnError (r r' : Handled) : Prop := r' = r ∨ (r.fate ≠ .continues ∧ r'.fate ≠ .continues)

theorem errdeferClose_onError (r : Handled) (index : Nat) : OnError r (r.errdeferClose index) := by
  obtain ⟨fate, state, io⟩ := r
  cases fate with
  | continues => exact .inl rfl
  | panics => exact .inl rfl
  | exits => exact .inl rfl
  | fails e =>
    refine .inr ⟨nofun, ?_⟩
    simp only [Handled.errdeferClose]
    split <;> exact nofun

theorem errdeferStream_onError (r : Handled) (stream : Fd) :
    OnError r (r.errdeferStream stream) := by
  obtain ⟨fate, state, io⟩ := r
  cases fate with
  | continues => exact .inl rfl
  | panics => exact .inl rfl
  | exits => exact .inl rfl
  | fails e =>
    refine .inr ⟨nofun, ?_⟩
    simp only [Handled.errdeferStream, Handled.closeStream]
    split <;> exact nofun

theorem errdeferCloseFd_onError (r : Handled) (fd : Fd) : OnError r (r.errdeferCloseFd fd) := by
  obtain ⟨fate, state, io⟩ := r
  cases fate with
  | continues => exact .inl rfl
  | panics => exact .inl rfl
  | exits => exact .inl rfl
  | fails e =>
    refine .inr ⟨nofun, ?_⟩
    simp only [Handled.errdeferCloseFd, Handled.deferClose]
    split <;> exact nofun

theorem Decided.errdefer {origin : Fd} {r r' : Handled} {accepts : Prop}
    (h : Decided origin s r accepts) (herr : OnError r r') : Decided origin s r' accepts := by
  rcases herr with rfl | ⟨hfate, hnot⟩
  · exact h
  · exact ⟨iff_of_false hnot fun ha => hfate (h.continues_iff.mpr ha), fun hc => absurd hc hnot,
      fun hc => absurd hc hnot⟩

/-- A handler that has failed. -/
theorem decided_of_ne {origin : Fd} {r : Handled} {accepts : Prop} (hfate : r.fate ≠ .continues)
    (haccepts : ¬ accepts) : Decided origin s r accepts :=
  ⟨iff_of_false hfate haccepts, fun hc => absurd hc hfate, fun hc => absurd hc hfate⟩

/-- Two tracked descriptors are switched. -/
theorem Tidy.addSwitch (h : Tidy s) {fd1 fd2 : Fd} (h1 : fd1 ∈ s.ctx.fds) (h2 : fd2 ∈ s.ctx.fds)
    (hne : fd1 ≠ fd2) :
    ∃ ctx, s.ctx.addSwitch fd1 fd2 = .ok ctx ∧ Tidy { s with ctx := ctx } ∧
      Switched { s with ctx := ctx } fd1 := by
  obtain ⟨i, hi⟩ := exists_fdToIndex h1
  obtain ⟨j, hj⟩ := exists_fdToIndex h2
  obtain ⟨c, hget⟩ := fdToIndex_eq_some h.parallel hi
  obtain ⟨hc, hp⟩ := List.getElem?_zip_eq_some.mp hget
  refine ⟨_, by rw [Context.addSwitch, hi, hj], ?_, ?_⟩
  · refine h.congr ?_ rfl rfl
    simpa [Context.Parallel] using h.parallel
  · have hswitched : ∃ c', ((s.ctx.connections.modify i Connection.switched).modify j
        Connection.switched)[i]? = some c' ∧ c'.t = .switched := by
      rw [List.getElem?_modify, List.getElem?_modify, hc]
      by_cases hji : j = i
      · simp [hji, Connection.switched]
      · simp [hji, Connection.switched]
    obtain ⟨c', hc', ht⟩ := hswitched
    refine ⟨c', fd2, ?_, ht, ?_, ?_⟩
    · exact List.mem_of_getElem? (List.getElem?_zip_eq_some.mpr ⟨hc', hp⟩)
    · show (PartnerTable.link s.ctx.switchdb fd1 fd2).lookup fd1 = some fd2
      rw [PartnerTable.link, AList.lookup_insert_ne hne, AList.lookup_insert]
    · show (PartnerTable.link s.ctx.switchdb fd1 fd2).lookup fd2 = some fd1
      rw [PartnerTable.link, AList.lookup_insert]

/-- A stream and a tracked descriptor are switched. -/
structure StreamSwitched (s : State) (fd1 fd2 : Fd) (r : Handled) : Prop where
  continues : r.fate = .continues
  io : r.io = []
  tidy : Tidy r.state
  switched : Switched r.state fd1
  others : ∀ fd ∈ s.ctx.fds, fd ≠ fd1 → fd ≠ fd2 → Spares s r.state fd

theorem switchStream_spec (h : Tidy s) {stream fd1 fd2 : Fd} (hopen : stream ∈ s.openFds)
    (hnew : stream ∉ s.ctx.fds) (h1 : fd1 = stream ∨ fd1 ∈ s.ctx.fds)
    (h2 : fd2 = stream ∨ fd2 ∈ s.ctx.fds) (hne : fd1 ≠ fd2) :
    StreamSwitched s fd1 fd2 (switchStream s stream fd1 fd2) := by
  have hadded : Steady s { s with ctx := s.ctx.add_ { t := .external } stream } :=
    h.add hnew rfl hopen (Finset.Subset.refl _)
  obtain ⟨ctx, hswitch, htidy, hswitched⟩ := hadded.tidy.addSwitch (mem_fds_add_ h1) (mem_fds_add_ h2) hne
  unfold switchStream
  simp only [hswitch]
  refine ⟨rfl, rfl, htidy, hswitched, ?_⟩
  intro fd hfd hfd1 hfd2
  have hspares := spares_addSwitch
    (s := { s with ctx := s.ctx.add_ { t := .external } stream }) hswitch hfd1.symm hfd2.symm
  exact (hadded.spares fd hfd).trans hspares

theorem Decided.after {origin : Fd} {r : Handled} {accepts : Prop} (h : Decided origin s r accepts)
    (hio : ∀ fd ∈ s.ctx.fds, fd ≠ origin → Quiet fd io) :
    Decided origin s (r.after io) accepts where
  continues_iff := h.continues_iff
  tidy := h.tidy
  survives := by
    intro hfate
    have hs := h.survives hfate
    refine ⟨hs.continues, hs.requester, ?_⟩
    intro fd hfd hne
    obtain ⟨hspares, hquiet⟩ := hs.others fd hfd hne
    exact ⟨hspares, (hio fd hfd hne).append hquiet⟩

/-- Whatever the remote daemon answers, only the "ok" for the client can fail. -/
theorem tcpdAnswered_decided (env : Env) {index : Nat} {origin stream : Fd} {c : Connection}
    (hs : Tidy s) (hget : s.ctx.conns[index]? = some (c, origin)) (hstream : stream ∉ s.openFds)
    (bs : List Byte) :
    Decided origin s
      (tcpdAnswered env { s with openFds := insert stream s.openFds } index origin stream bs)
      (bs = okText → ∃ n, env.write = .wrote n) := by
  have horigin : origin ∈ s.ctx.fds :=
    (mem_fds_iff hs.parallel).mpr ⟨_, List.mem_of_getElem? hget, rfl⟩
  have hnot : stream ∉ s.ctx.fds := fun hfd => hstream (hs.isOpen stream hfd)
  have hopened := hs.opened stream
  unfold tcpdAnswered
  by_cases hok : bs = okText
  · rw [if_pos hok]
    simp only [hok, forall_const]
    rcases tryWrite_cases { s with openFds := insert stream s.openFds }
        { fd := origin, payload := okText } env.write
        (switchStream { s with openFds := insert stream s.openFds } stream origin stream)
      with ⟨n, written, hwrite, heq⟩ | ⟨hwrite, e, written, heq⟩
    · have hne : origin ≠ stream := by
        rintro rfl
        exact hnot horigin
      have hswitched := switchStream_spec hopened.tidy (Finset.mem_insert_self stream s.openFds) hnot
        (.inr horigin) (.inl rfl) hne
      rw [heq]
      refine Decided.after ⟨iff_of_true hswitched.continues ⟨n, hwrite⟩, fun _ => hswitched.tidy,
        fun hfate => ⟨hfate, .inr (.inl hswitched.switched), ?_⟩⟩ ?_
      · intro fd hfd hfd1
        have hfd2 : fd ≠ stream := by
          rintro rfl
          exact hnot hfd
        rw [hswitched.io]
        exact ⟨(hopened.spares fd hfd).trans (hswitched.others fd hfd hfd1 hfd2), quiet_nil⟩
      · intro fd _ hfd1
        exact quiet_write hfd1.symm
    · rw [heq]
      refine decided_of_ne nofun ?_
      rintro ⟨n, hn⟩
      rw [hwrite] at hn
      cases hn
  · rw [if_neg hok]
    obtain ⟨s', io, hclose, hremoves⟩ := hs.close hget
    have hback : Handled.closeStream
        { fate := .continues, state := { s with openFds := insert stream s.openFds } } stream =
        { fate := .continues, state := s, io := [.close stream] } := by
      rw [Handled.closeStream, if_pos (Finset.mem_insert_self stream s.openFds)]
      simp only [Finset.erase_insert hstream]
      rfl
    simp only [hback, State.tryClose, hclose]
    refine Decided.after ⟨iff_of_true rfl fun h => absurd h hok, fun _ => hremoves.tidy,
      fun hfate => ⟨hfate, .inl ⟨hremoves.gone, hremoves.closed⟩, ?_⟩⟩ ?_
    · intro fd _ hne
      exact hremoves.others fd hne
    · intro fd hfd _
      have hne : stream ≠ fd := by
        rintro rfl
        exact hnot hfd
      exact quiet_cons.mpr ⟨decide_eq_false hne, quiet_nil⟩

theorem tcpdConnected_decided (env : Env) {index : Nat} {origin stream : Fd} {c : Connection}
    (hs : Tidy s) (hget : s.ctx.conns[index]? = some (c, origin)) (hstream : stream ∉ s.openFds)
    (path : List Byte) :
    Decided origin s
      (tcpdConnected env { s with openFds := insert stream s.openFds } index origin stream path)
      ((∃ n, env.streamWrite = .wrote n) ∧
        ∃ bs, env.streamRead = .ok bs ∧ (bs = okText → ∃ n, env.write = .wrote n)) := by
  unfold tcpdConnected
  refine Decided.errdefer ?_ (errdeferStream_onError _ stream)
  cases env.streamWrite with
  | error =>
    refine decided_of_ne nofun ?_
    rintro ⟨⟨n, hn⟩, -⟩
    cases hn
  | wrote n =>
    simp only [WriteResult.wrote.injEq, exists_eq', true_and]
    apply Decided.after
    · cases env.streamRead with
      | ok bs => simpa using tcpdAnswered_decided env hs hget hstream bs
      | reset => exact decided_of_ne nofun (by simp)
      | error => exact decided_of_ne nofun (by simp)
    · intro fd hfd _
      apply quiet_write
      rintro rfl
      exact hstream (hs.isOpen stream hfd)

theorem tcpdMessageRx_decided {env : Env} {index : Nat} {origin : Fd} {c : Connection} (hs : Tidy s)
    (hfresh : env.Fresh s) (hget : s.ctx.conns[index]? = some (c, origin)) (m : Message) :
    Decided origin s (tcpdMessageRx env s index origin (some m)) (tcpdAccepts env m.payload) := by
  unfold tcpdMessageRx tcpdAccepts
  refine Decided.errdefer ?_ (errdeferClose_onError _ index)
  simp only
  cases URI.read m.payload with
  | none => exact decided_of_ne nofun (by simp)
  | some uri =>
    simp only [Option.mem_def, Option.some.injEq, exists_eq_left']
    cases parseUnsigned (splitRest [58] uri.address) with
    | error e => exact decided_of_ne nofun (by simp)
    | ok port =>
      cases parseIp (splitFirst [58] uri.address) with
      | error e => exact decided_of_ne nofun (by simp)
      | ok ip =>
        cases hconnect : env.tcpConnect with
        | error e => exact decided_of_ne nofun (by simp)
        | ok stream =>
          have hconnected := tcpdConnected_decided env hs hget (hfresh.tcpConnect stream hconnect)
            uri.path
          simpa using hconnected

theorem tidy_errdefer {r r' : Handled} (herr : OnError r r')
    (h : r.fate = .continues → Tidy r.state) : r'.fate = .continues → Tidy r'.state := by
  rcases herr with rfl | ⟨-, hnot⟩
  · exact h
  · exact fun hc => absurd hc hnot

/-- A remote daemon is answered, or its connection is closed. -/
theorem tcpdExternal_tidy {env : Env} (hs : Tidy s) (hfresh : env.Fresh s) :
    (tcpdExternal env s).fate = .continues → Tidy (tcpdExternal env s).state := by
  unfold tcpdExternal
  cases haccept : env.accept with
  | error e => exact nofun
  | ok client =>
    have hclient := hfresh.accept client haccept
    have hnot : client ∉ s.ctx.fds := fun hfd => hclient (hs.isOpen client hfd)
    have hopened := hs.opened client
    have hback : Tidy (Handled.closeStream
        { fate := .continues, state := { s with openFds := insert client s.openFds } }
          client).state := by
      rw [Handled.closeStream, if_pos (Finset.mem_insert_self client s.openFds)]
      simp only [Finset.erase_insert hclient]
      exact hs
    refine tidy_errdefer (errdeferStream_onError _ client) ?_
    cases env.streamRead with
    | reset => exact nofun
    | error => exact nofun
    | ok service =>
      simp only
      split
      · exact fun _ => hback
      · cases hconnect : env.connectService service with
        | error e => exact fun _ => hback
        | ok servicefd =>
          refine tidy_errdefer (errdeferCloseFd_onError _ servicefd) ?_
          cases env.streamWrite with
          | error => exact nofun
          | wrote n =>
            have hconnected := connect_of_connectService hconnect
            have hne : client ≠ servicefd := hfresh.distinct client servicefd haccept hconnected
            have hnew : servicefd ∉ insert client s.openFds := by
              rw [Finset.mem_insert]
              rintro (heq | hmem)
              · exact hne heq.symm
              · exact hfresh.connect servicefd hconnected hmem
            have htracked := hopened.tidy.track hnew { t := .ipc }
            have hmem : servicefd ∈ (s.ctx.add_ { t := .ipc } servicefd).fds := by simp
            have hnot' : client ∉ (s.ctx.add_ { t := .ipc } servicefd).fds := by
              simp [hnot, hne]
            have hopen : client ∈ insert servicefd (insert client s.openFds) := by simp
            have hswitched : StreamSwitched _ client servicefd
                (switchStream _ client client servicefd) :=
              switchStream_spec htracked.tidy hopen hnot' (.inl rfl) (.inr hmem) hne
            exact fun _ => hswitched.tidy

end Handlers

/-! ## The event loop -/

section Loop
variable {s s' : State} {index : Nat} {p : PollFd} {c : Connection} {io : List Io}

theorem Handling.tidy {accept : Except Error Fd} (h : Handling accept s index p c s' io)
    (hs : Tidy s) : Tidy s' := by
  cases h with
  | kept => exact hs
  | accepted _ hadd =>
    obtain ⟨hnew, rfl⟩ := addNew_eq_some hadd
    exact (hs.track hnew { t := .ipc }).tidy
  | forwarded m => exact hs.congr hs.parallel rfl rfl
  | unswitched hdrop => exact hs.dropSwitch hdrop
  | closed _ hclose =>
    rcases close_eq_some hs.parallel hclose with ⟨-, -, rfl, -⟩ | ⟨c', fd, hget, -, -⟩
    · exact hs
    · obtain ⟨s₁, io₁, hclose', hremoves⟩ := hs.close hget
      rw [hclose'] at hclose
      cases hclose
      exact hremoves.tidy
  | written bs hi hm => exact hs.congr hs.parallel rfl rfl
  | @writtenUnswitched i _ _ _ _ _ _ hdrop =>
    have hsent : Tidy (s.withTx (swapRemove s.ctx.tx i)) := hs.congr hs.parallel rfl rfl
    exact hsent.dropSwitch hdrop

theorem waitEvent_tidy {sys : WaitSys} {r : Except Error Event} (hs : Tidy s)
    (h : s.waitEvent sys = some (r, s', io)) : Tidy s' := by
  obtain ⟨ps, hps, ⟨rfl, rfl⟩ | ⟨revents, index, p, c, -, -, -, -, hhandling⟩⟩ :=
    waitEvent_handling h
  · exact hs.congr (parallel_withPollfd hs.parallel hps) hps rfl
  · have hflags : Tidy (s.withPollfd ps) := hs.congr (parallel_withPollfd hs.parallel hps) hps rfl
    exact hhandling.tidy hflags

theorem readSwitched_event {cb : In} {event : Event}
    (h : s.readSwitched index p.fd cb = some (.ok event, s', io)) :
    event.t = .switchRx ∨ event.t = .disconnection ∨ event.t = .error := by
  unfold State.readSwitched at h
  simp only at h
  split at h
  · rename_i hrx
    obtain ⟨m, -, h⟩ := Option.bind_eq_some_iff.mp h
    cases h
    exact .inl hrx
  · rename_i hdisconnection
    obtain ⟨⟨s₁, io₁⟩, -, h⟩ := Option.map_eq_some_iff.mp h
    cases h
    exact .inr (.inl hdisconnection)
  · rename_i herror
    obtain ⟨⟨s₁, io₁⟩, -, h⟩ := Option.map_eq_some_iff.mp h
    cases h
    exact .inr (.inr herror)
  · cases h

/-- The events that the handlers of the daemons do something with leave the context to them; a
request has a message. -/
theorem dispatch_handed {sys : WaitSys} {event : Event}
    (h : s.dispatch index p c sys = some (.ok event, s', io))
    (ht : event.t = .messageRx ∨ event.t = .external) :
    s' = s ∧ event.index = index ∧ event.origin = p.fd ∧
      (event.t = .messageRx → ∃ m, event.m = some m) := by
  unfold State.dispatch at h
  split at h
  · split at h
    · unfold State.acceptNewClient at h
      split at h
      · cases h
      · split at h
        · cases h
        · obtain ⟨s₁, -, h⟩ := Option.bind_eq_some_iff.mp h
          cases h
          simp at ht
    · have hevent := readSwitched_event h
      rcases ht with ht | ht
      · simp [ht] at hevent
      · simp [ht] at hevent
    · cases h
      exact ⟨rfl, rfl, rfl, nofun⟩
    · unfold State.readMessage at h
      split at h
      · simp [(disconnect_ok h).1] at ht
      · cases h
      · simp [(disconnect_ok h).1] at ht
      · rename_i m _
        cases h
        exact ⟨rfl, rfl, rfl, fun _ => ⟨m, rfl⟩⟩
  · split at h
    · have hevent := writeMessage_event h
      rcases ht with ht | ht
      · simp [ht] at hevent
      · simp [ht] at hevent
    · split at h
      · simp [(disconnect_ok h).1] at ht
      · cases h
        simp at ht

theorem waitEvent_handed {sys : WaitSys} {event : Event}
    (h : s.waitEvent sys = some (.ok event, s', io))
    (ht : event.t = .messageRx ∨ event.t = .external) :
    (∃ revents, s' = s.polled revents) ∧
      (∃ c, s'.ctx.conns[event.index]? = some (c, event.origin)) ∧
      (event.t = .messageRx → ∃ m, event.m = some m) := by
  rcases waitEvent_ok h with ⟨hother, -⟩ | ⟨revents, index, p, c, -, -, hp, hc, hdispatch⟩
  · rcases ht with ht | ht
    · simp [ht] at hother
    · simp [ht] at hother
  · obtain ⟨rfl, hindex, horigin, hm⟩ := dispatch_handed hdispatch ht
    rw [hindex, horigin]
    exact ⟨⟨revents, rfl⟩, ⟨c, conns_getElem? hc hp⟩, hm⟩

theorem waitEvent_messageRx {sys : WaitSys} {event : Event}
    (h : s.waitEvent sys = some (.ok event, s', io)) (ht : event.t = .messageRx) :
    (∃ c, s'.ctx.conns[event.index]? = some (c, event.origin)) ∧ ∃ m, event.m = some m := by
  obtain ⟨-, hget, hm⟩ := waitEvent_handed h (.inl ht)
  exact ⟨hget, hm ht⟩

/-- The requests a daemon comes back from. -/
def Daemon.Accepts (d : Daemon) (env : Env) (payload : List Byte) : Prop :=
  match d with
  | .ipcd => ipcdAccepts env payload
  | .tcpd => tcpdAccepts env payload

theorem messageRx_decided (d : Daemon) {env : Env} {event : Event} {m : Message} (hs : Tidy s)
    (hfresh : env.Fresh s) (hget : s.ctx.conns[event.index]? = some (c, event.origin))
    (hm : event.m = some m) :
    Decided event.origin s (d.messageRx env s event) (d.Accepts env m.payload) := by
  cases d with
  | ipcd =>
    have horigin : event.origin ∈ s.ctx.fds :=
      (mem_fds_iff hs.parallel).mpr ⟨_, List.mem_of_getElem? hget, rfl⟩
    rw [Daemon.messageRx, hm]
    exact ipcdMessageRx_decided hs hfresh horigin m
  | tcpd =>
    rw [Daemon.messageRx, hm]
    exact tcpdMessageRx_decided hs hfresh hget m

theorem start_tidy (d : Daemon) (path : List Byte) {fd tcpfd : Fd} (hne : fd ≠ tcpfd) :
    Tidy (d.start path fd tcpfd) := by
  have hempty : Tidy {} := ⟨rfl, List.nodup_nil, nofun⟩
  have hserver := hempty.track (Finset.notMem_empty fd) { t := .server, path := some path }
  cases d with
  | ipcd => exact hserver.tidy
  | tcpd =>
    have hnew : tcpfd ∉ (State.track {} { t := .server, path := some path } fd).openFds := by
      simp [State.track, hne.symm]
    exact (hserver.tidy.track hnew { t := .external }).tidy

/-- What a daemon does with the events it goes on after. -/
theorem handle_cases {d : Daemon} {env : Env} {event : Event} {r : Handled}
    (h : d.handle env s event = some r) :
    r = { fate := .continues, state := s } ∨
      (event.t = .messageRx ∧ r = d.messageRx env s event) ∨
      (event.t = .external ∧ r = tcpdExternal env s) := by
  unfold Daemon.handle at h
  split at h
  all_goals cases h
  case h_5 ht => exact .inr (.inl ⟨ht, rfl⟩)
  case h_6 ht => exact .inr (.inr ⟨ht, rfl⟩)
  all_goals exact .inl rfl

/-- Every handler that comes back leaves a tidy context. -/
theorem Daemon.Reached.tidy {d : Daemon} (h : d.Reached s) : Tidy s := by
  induction h with
  | start path hne => exact start_tidy d path hne
  | turn _ hwait hfresh hhandle hfate ih =>
    have htidy := waitEvent_tidy ih hwait
    rcases handle_cases hhandle with rfl | ⟨hrx, rfl⟩ | ⟨-, rfl⟩
    · exact htidy
    · obtain ⟨⟨c, hget⟩, m, hm⟩ := waitEvent_messageRx hwait hrx
      exact (messageRx_decided d htidy hfresh hget hm).tidy hfate
    · exact tcpdExternal_tidy htidy hfresh hfate

/-- The handler of a request comes back to the event loop exactly for the requests that `Accepts`
describes; then nothing has happened to the other connections. -/
theorem survives_iff (d : Daemon) (h : d.Reached s) {sys : WaitSys} {event : Event}
    (hwait : s.waitEvent sys = some (.ok event, s', io)) (hrx : event.t = .messageRx) {env : Env}
    (hfresh : env.Fresh s') :
    ∃ m, event.m = some m ∧
      (Survives event.origin s' (d.messageRx env s' event) ↔ d.Accepts env m.payload) := by
  obtain ⟨⟨c, hget⟩, m, hm⟩ := waitEvent_messageRx hwait hrx
  exact ⟨m, hm, (messageRx_decided d (waitEvent_tidy h.tidy hwait) hfresh hget hm).survives_iff_accepts⟩

end Loop

/-- `ipcd` with one client, on descriptor 5. -/
def oneRequester : State :=
  ((Daemon.start .ipcd [] 3 4).polled [{ pollin := true }]).track { t := .ipc } 5

theorem reached_oneRequester : Daemon.Reached .ipcd oneRequester := by
  have hwait : (Daemon.start .ipcd [] 3 4).waitEvent
      { poll := some [{ pollin := true }], accept := .ok 5 } =
        some (.ok { t := .connection, index := 1, origin := 3 }, oneRequester, []) := rfl
  have hfresh : Env.Fresh {} oneRequester := ⟨nofun, nofun, nofun, nofun⟩
  exact .turn (.start [] (by decide)) hwait hfresh rfl rfl

/-- The client sends a lookup. -/
def asks (payload : List Byte) : WaitSys :=
  { poll := some [{}, { pollin := true }], read := .ok (frame payload) }

/-- The event of a lookup. -/
def request (payload : List Byte) : Event :=
  { t := .messageRx, index := 1, origin := 5, m := some { fd := 5, payload := payload } }

/-- "s;s unix://p". -/
def lookupUnix : List Byte := [115, 59, 115, 32, 117, 110, 105, 120, 58, 47, 47, 112]

/-- "s;s p". -/
def lookupBare : List Byte := [115, 59, 115, 32, 112]

/-- The service is there. -/
def serviceThere : Env := { connect := .ok 6, sendmsg := .wrote 2 }

/-- The state `ipcd` has a lookup in. -/
def requested : State := oneRequester.polled [{}, { pollin := true }]

/-- A service of this machine that is there is handed over. -/
theorem survives_lookup_unix :
    oneRequester.waitEvent (asks lookupUnix) = some (.ok (request lookupUnix), requested, []) ∧
      Survives 5 requested (Daemon.messageRx .ipcd serviceThere requested (request lookupUnix)) := by
  have hwait : oneRequester.waitEvent (asks lookupUnix) =
      some (.ok (request lookupUnix), requested, []) := rfl
  have hfresh : serviceThere.Fresh requested := by
    refine ⟨?_, nofun, nofun, nofun⟩
    rintro fd ⟨⟩
    decide
  obtain ⟨m, hm, hiff⟩ := survives_iff .ipcd reached_oneRequester hwait rfl hfresh
  refine ⟨hwait, hiff.mpr ?_⟩
  cases hm
  intro dest hdest
  cases hdest
  refine ⟨{ protocol := unixText, address := [112], path := [] }, rfl, ?_⟩
  rw [if_pos rfl]
  refine ⟨⟨6, rfl⟩, ?_⟩
  rintro n ⟨⟩
  rfl

/-- A lookup whose destination is a bare name makes `ipcd` panic; one for a service that is absent
ends it with an error. -/
theorem not_survives_lookup :
    Daemon.Reached .ipcd oneRequester ∧
      oneRequester.waitEvent (asks lookupBare) = some (.ok (request lookupBare), requested, []) ∧
      oneRequester.waitEvent (asks lookupUnix) = some (.ok (request lookupUnix), requested, []) ∧
      (Daemon.messageRx .ipcd serviceThere requested (request lookupBare)).fate = .panics ∧
      (Daemon.messageRx .ipcd {} requested (request lookupUnix)).fate = .fails (.ipc .os) ∧
      ¬ Survives 5 requested (Daemon.messageRx .ipcd serviceThere requested (request lookupBare)) ∧
      ¬ Survives 5 requested (Daemon.messageRx .ipcd {} requested (request lookupUnix)) := by
  refine ⟨reached_oneRequester, rfl, rfl, rfl, rfl, ?_, ?_⟩
  · intro h
    cases h.continues
  · intro h
    cases h.continues

end LibIpc.Zig

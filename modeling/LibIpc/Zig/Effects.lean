import LibIpc.Zig.Context

/-!
# What the calls of the Zig implementation do

One lemma per operation, in terms of the list `conns` of connections with their descriptors.
`Handling` lists what `wait_event` can do to the entry it stops at; what holds of each of its cases
holds of the event loop. The first such fact: the two arrays of a context stay parallel, and the
queue of messages to send changes by the queue events a call emits (`step_effect`).
-/

namespace LibIpc.Zig

open Lib

/-! ## Connections with their descriptors -/

/-- The connections, each with its descriptor. -/
def Context.conns (ctx : Context) : List (Connection × Fd) :=
  ctx.connections.zip (ctx.pollfd.map PollFd.fd)

/-- `connections` and `pollfd` have the same indices. -/
def Context.Parallel (ctx : Context) : Prop := ctx.connections.length = ctx.pollfd.length

theorem Context.Parallel.length_conns {ctx : Context} (h : ctx.Parallel) :
    ctx.conns.length = ctx.pollfd.length := by
  unfold Context.Parallel at h
  simp [Context.conns, h]

theorem conns_getElem? {ctx : Context} {i : Nat} {c : Connection} {p : PollFd}
    (hc : ctx.connections[i]? = some c) (hp : ctx.pollfd[i]? = some p) :
    ctx.conns[i]? = some (c, p.fd) := by
  simp [Context.conns, List.getElem?_zip_eq_some, hc, hp]

theorem conns_add_ {ctx : Context} (h : ctx.Parallel) (c : Connection) (fd : Fd) :
    (ctx.add_ c fd).conns = ctx.conns ++ [(c, fd)] := by
  unfold Context.Parallel at h
  simp [Context.conns, Context.add_, List.zip_append, h]

theorem parallel_add_ {ctx : Context} (h : ctx.Parallel) (c : Connection) (fd : Fd) :
    (ctx.add_ c fd).Parallel := by
  unfold Context.Parallel at *
  simp [Context.add_, h]

/-! ## Effects -/

@[simp] theorem queueEvents_append (a b : List Io) :
    queueEvents (a ++ b) = queueEvents a ++ queueEvents b := by
  simp [queueEvents]

theorem queueEvents_map_queue (es : List (QueueEvent Message)) :
    queueEvents (es.map .queue) = es := by
  simp [queueEvents, List.filterMap_map]

/-- What every call keeps: the arrays stay parallel, and the queue changes by the events emitted. -/
structure Effect (s : State) (io : List Io) (s' : State) : Prop where
  parallel : s'.ctx.Parallel
  steps : QueueSteps Message.fd s.ctx.tx (queueEvents io) s'.ctx.tx

theorem Effect.trans {s s' s'' : State} {io io' : List Io} (h : Effect s io s')
    (h' : Effect s' io' s'') : Effect s (io ++ io') s'' where
  parallel := h'.parallel
  steps := by
    rw [queueEvents_append]
    exact h.steps.append h'.steps

/-- A call that leaves the queue alone. -/
theorem effect_of_tx_eq {s s' : State} {io : List Io} (hpar : s'.ctx.Parallel)
    (htx : s'.ctx.tx = s.ctx.tx) (hio : queueEvents io = []) : Effect s io s' where
  parallel := hpar
  steps := by
    rw [hio, htx]
    exact .nil _

/-- The connection at `index`, on `fd`, is gone, with its descriptor and its messages. -/
structure Closed (s : State) (index : Nat) (fd : Fd) (io : List Io) (s' : State) : Prop
    extends Effect s io s' where
  conns : s'.ctx.conns = swapRemove s.ctx.conns index
  switchdb : s'.ctx.switchdb = s.ctx.switchdb
  wasOpen : fd ∈ s.openFds
  openFds : s'.openFds = s.openFds.erase fd
  tx : s'.ctx.tx.Perm (s.ctx.tx.filter fun m => m.fd ≠ fd)

/-- `close` either finds no connection at the index, or closes it. -/
theorem close_eq_some {s s' : State} (hpar : s.ctx.Parallel) {index : Nat} {r : Except Error Unit}
    {io : List Io} (h : s.close index = some (r, s', io)) :
    (s.ctx.conns[index]? = none ∧ r = .error .indexOutOfBounds ∧ s' = s ∧ io = []) ∨
      ∃ c fd, s.ctx.conns[index]? = some (c, fd) ∧ r = .ok () ∧ Closed s index fd io s' := by
  unfold State.close at h
  split at h
  · rename_i hle
    simp only [Option.some.injEq, Prod.mk.injEq] at h
    obtain ⟨rfl, rfl, rfl⟩ := h
    refine .inl ⟨?_, rfl, rfl, rfl⟩
    rw [List.getElem?_eq_none_iff, hpar.length_conns]
    exact hle
  · simp only [Option.bind_eq_bind, Option.pure_def] at h
    obtain ⟨c, hc, h⟩ := Option.bind_eq_some_iff.mp h
    obtain ⟨p, hp, h⟩ := Option.bind_eq_some_iff.mp h
    split at h
    · rename_i hopen
      simp only [Option.some.injEq, Prod.mk.injEq] at h
      obtain ⟨rfl, rfl, rfl⟩ := h
      obtain ⟨hsteps, hperm⟩ := dropAll_from_zero Message.fd p.fd s.ctx.tx
      refine .inr ⟨c, p.fd, conns_getElem? hc hp, rfl, ?_⟩
      exact {
        parallel := by
          unfold Context.Parallel at *
          simp [hpar]
        steps := by
          rw [← queueEvents_map_queue (dropAll Message.fd p.fd s.ctx.tx.length s.ctx.tx 0).2]
            at hsteps
          exact hsteps
        conns := by
          have hlen : s.ctx.connections.length = (s.ctx.pollfd.map PollFd.fd).length := by
            rw [List.length_map]
            exact hpar
          simp only [Context.conns, ← swapRemove_map]
          exact zip_swapRemove hlen index
        switchdb := rfl
        wasOpen := hopen
        openFds := rfl
        tx := hperm }
    · cases h

theorem close_eq_ok {s : State} {index : Nat} {c : Connection} {p : PollFd}
    (hc : s.ctx.connections[index]? = some c) (hp : s.ctx.pollfd[index]? = some p)
    (hopen : p.fd ∈ s.openFds) :
    s.close index = some (.ok (),
      { ctx := { s.ctx with
          connections := swapRemove s.ctx.connections index
          pollfd := swapRemove s.ctx.pollfd index
          tx := (dropAll Message.fd p.fd s.ctx.tx.length s.ctx.tx 0).1 }
        openFds := s.openFds.erase p.fd },
      .close p.fd :: (dropAll Message.fd p.fd s.ctx.tx.length s.ctx.tx 0).2.map .queue) := by
  have hlt := (List.getElem?_eq_some_iff.mp hp).1
  simp only [State.close, if_neg (Nat.not_le.mpr hlt), hc, hp, if_pos hopen, Option.bind_eq_bind,
    Option.bind_some, Option.pure_def]

/-- `close` at an index where there is a connection. -/
theorem closed_of_close {s s' : State} (hpar : s.ctx.Parallel) {index : Nat} {c : Connection}
    {fd : Fd} (hget : s.ctx.conns[index]? = some (c, fd)) {r : Except Error Unit} {io : List Io}
    (h : s.close index = some (r, s', io)) : r = .ok () ∧ Closed s index fd io s' := by
  rcases close_eq_some hpar h with ⟨hnone, -⟩ | ⟨c', fd', hsome, hr, hclosed⟩
  · rw [hget] at hnone
    cases hnone
  · rw [hget, Option.some.injEq, Prod.mk.injEq] at hsome
    obtain ⟨-, rfl⟩ := hsome
    exact ⟨hr, hclosed⟩

/-- It returns when the descriptor is open. -/
theorem exists_close {s : State} (hpar : s.ctx.Parallel) {index : Nat} {c : Connection} {fd : Fd}
    (hget : s.ctx.conns[index]? = some (c, fd)) (hopen : fd ∈ s.openFds) :
    ∃ s' io, s.close index = some (.ok (), s', io) ∧ Closed s index fd io s' := by
  obtain ⟨hc, hfd⟩ := List.getElem?_zip_eq_some.mp hget
  rw [List.getElem?_map] at hfd
  obtain ⟨p, hp, hpfd⟩ := Option.map_eq_some_iff.mp hfd
  rw [show fd = p.fd from hpfd.symm] at hopen
  have hclose := close_eq_ok hc hp hopen
  exact ⟨_, _, hclose, (closed_of_close hpar hget hclose).2⟩

theorem close_effect {s s' : State} (hpar : s.ctx.Parallel) {index : Nat} {r : Except Error Unit}
    {io : List Io} (h : s.close index = some (r, s', io)) : Effect s io s' := by
  rcases close_eq_some hpar h with ⟨-, -, rfl, rfl⟩ | ⟨c, fd, -, -, hclosed⟩
  · exact effect_of_tx_eq hpar rfl rfl
  · exact hclosed.toEffect

theorem fdToIndex_eq_some {ctx : Context} (hpar : ctx.Parallel) {fd : Fd} {index : Nat}
    (h : ctx.fdToIndex fd = some index) : ∃ c, ctx.conns[index]? = some (c, fd) := by
  obtain ⟨hlt, hfd, -⟩ := List.findIdx?_eq_some_iff_getElem.mp h
  have hlt' : index < ctx.connections.length := by rwa [hpar]
  refine ⟨ctx.connections[index], ?_⟩
  rw [conns_getElem? (List.getElem?_eq_getElem hlt') (List.getElem?_eq_getElem hlt),
    of_decide_eq_true hfd]

/-- `close_fd` finds no connection on `fd`, or closes the first one. -/
theorem closeFd_eq_some {s s' : State} (hpar : s.ctx.Parallel) {fd : Fd} {r : Except Error Unit}
    {io : List Io} (h : s.closeFd fd = some (r, s', io)) :
    (s.ctx.fdToIndex fd = none ∧ s' = s ∧ io = []) ∨
      ∃ index c, s.ctx.conns[index]? = some (c, fd) ∧ s.close index = some (.ok (), s', io) ∧
        Closed s index fd io s' := by
  unfold State.closeFd at h
  split at h
  · rename_i hnone
    cases h
    exact .inl ⟨hnone, rfl, rfl⟩
  · rename_i index hindex
    obtain ⟨c, hget⟩ := fdToIndex_eq_some hpar hindex
    obtain ⟨rfl, hclosed⟩ := closed_of_close hpar hget h
    exact .inr ⟨index, c, hget, h, hclosed⟩

/-- `safe_close_fd` does nothing for a descriptor that is closed or not tracked, or closes its first
connection. -/
theorem safeCloseFd_eq_some {s s' : State} (hpar : s.ctx.Parallel) {fd : Fd} {io : List Io}
    (h : s.safeCloseFd fd = some (s', io)) :
    ((fd ∉ s.openFds ∨ s.ctx.fdToIndex fd = none) ∧ s' = s ∧ io = []) ∨
      ∃ index c, s.ctx.conns[index]? = some (c, fd) ∧ s.close index = some (.ok (), s', io) ∧
        Closed s index fd io s' := by
  unfold State.safeCloseFd at h
  split at h
  · obtain ⟨⟨r, s₁, io₁⟩, hclose, h⟩ := Option.map_eq_some_iff.mp h
    cases h
    rcases closeFd_eq_some hpar hclose with ⟨hnone, hsame⟩ | hclosed
    · exact .inl ⟨.inr hnone, hsame⟩
    · exact .inr hclosed
  · rename_i hnot
    cases h
    exact .inl ⟨.inl hnot, rfl, rfl⟩

theorem closeFd_effect {s s' : State} (hpar : s.ctx.Parallel) {fd : Fd} {r : Except Error Unit}
    {io : List Io} (h : s.closeFd fd = some (r, s', io)) : Effect s io s' := by
  rcases closeFd_eq_some hpar h with ⟨-, rfl, rfl⟩ | ⟨index, c, -, -, hclosed⟩
  · exact effect_of_tx_eq hpar rfl rfl
  · exact hclosed.toEffect

theorem safeCloseFd_effect {s s' : State} (hpar : s.ctx.Parallel) {fd : Fd} {io : List Io}
    (h : s.safeCloseFd fd = some (s', io)) : Effect s io s' := by
  rcases safeCloseFd_eq_some hpar h with ⟨-, rfl, rfl⟩ | ⟨index, c, -, -, hclosed⟩
  · exact effect_of_tx_eq hpar rfl rfl
  · exact hclosed.toEffect

/-- `dropSwitch` in its steps. -/
theorem dropSwitch_eq_some {s s' : State} {fd : Fd} {io : List Io}
    (h : s.dropSwitch fd = some (s', io)) :
    ∃ dest s₁ io₁ io₂, s.ctx.switchdb.lookup fd = some dest ∧
      (s.withSwitchdb (s.ctx.switchdb.nuke fd)).safeCloseFd fd = some (s₁, io₁) ∧
      s₁.safeCloseFd dest = some (s', io₂) ∧ io = io₁ ++ io₂ := by
  simp only [State.dropSwitch, Option.bind_eq_bind, Option.bind_eq_some_iff, Option.pure_def,
    Option.some.injEq, Prod.mk.injEq] at h
  obtain ⟨dest, hdest, ⟨s₁, io₁⟩, h₁, ⟨s₂, io₂⟩, h₂, rfl, rfl⟩ := h
  exact ⟨dest, s₁, io₁, io₂, hdest, h₁, h₂, rfl⟩

theorem dropSwitch_effect {s s' : State} (hpar : s.ctx.Parallel) {fd : Fd} {io : List Io}
    (h : s.dropSwitch fd = some (s', io)) : Effect s io s' := by
  obtain ⟨dest, s₁, io₁, io₂, -, h₁, h₂, rfl⟩ := dropSwitch_eq_some h
  -- The table is not part of the effect.
  have hnuked := safeCloseFd_effect (s := s.withSwitchdb (s.ctx.switchdb.nuke fd)) hpar h₁
  have hfirst : Effect s io₁ s₁ := ⟨hnuked.parallel, hnuked.steps⟩
  exact hfirst.trans (safeCloseFd_effect hfirst.parallel h₂)

theorem addNew_eq_some {s s' : State} {c : Connection} {fd : Fd} (h : s.addNew c fd = some s') :
    fd ∉ s.openFds ∧ s' = { ctx := s.ctx.add_ c fd, openFds := insert fd s.openFds } := by
  unfold State.addNew at h
  split at h
  · cases h
  · rename_i hfd
    exact ⟨hfd, (Option.some.inj h).symm⟩

theorem addNew_effect {s s' : State} (hpar : s.ctx.Parallel) {c : Connection} {fd : Fd}
    (h : s.addNew c fd = some s') : Effect s [] s' := by
  obtain ⟨-, rfl⟩ := addNew_eq_some h
  exact effect_of_tx_eq (parallel_add_ hpar c fd) rfl rfl

theorem addSwitch_eq_ok {ctx ctx' : Context} {fd1 fd2 : Fd}
    (h : ctx.addSwitch fd1 fd2 = .ok ctx') :
    ∃ i j, ctx.fdToIndex fd1 = some i ∧ ctx.fdToIndex fd2 = some j ∧
      ctx' = { ctx with
        connections := (ctx.connections.modify i Connection.switched).modify j Connection.switched
        switchdb := ctx.switchdb.addSwitch fd1 fd2 } := by
  unfold Context.addSwitch at h
  split at h
  · rename_i i j hi hj
    exact ⟨i, j, hi, hj, (Except.ok.inj h).symm⟩
  · cases h

/-! ## The flags of the entries -/

section Flags
variable {s : State} {ps : List PollFd}

theorem conns_withPollfd (h : ps.map PollFd.fd = s.ctx.pollfd.map PollFd.fd) :
    (s.withPollfd ps).ctx.conns = s.ctx.conns := by
  rw [Context.conns, Context.conns, ← h]
  rfl

theorem parallel_withPollfd (hpar : s.ctx.Parallel)
    (h : ps.map PollFd.fd = s.ctx.pollfd.map PollFd.fd) : (s.withPollfd ps).ctx.Parallel := by
  have hlen := congrArg List.length h
  rw [List.length_map, List.length_map] at hlen
  exact hpar.trans hlen.symm

theorem map_fd_set {index : Nat} {p : PollFd} (p' : PollFd) (hp : ps[index]? = some p)
    (hfd : p'.fd = p.fd) : (ps.set index p').map PollFd.fd = ps.map PollFd.fd := by
  obtain ⟨hlt, rfl⟩ := List.getElem?_eq_some_iff.mp hp
  have hmap : index < (ps.map PollFd.fd).length := by simpa using hlt
  have hset := List.set_getElem_self hmap
  rw [List.getElem_map] at hset
  rw [List.map_set, hfd, hset]

theorem map_fd_pollEntries (ctx : Context) :
    (pollEntries ctx).map PollFd.fd = ctx.pollfd.map PollFd.fd := by
  simp [pollEntries]

theorem map_fd_storeRevents (ps : List PollFd) (revents : List PollEvents) :
    (storeRevents ps revents).map PollFd.fd = ps.map PollFd.fd := by
  apply List.ext_getElem
  · simp [storeRevents]
  · intro i h₁ h₂
    simp [storeRevents]

theorem map_fd_polled (s : State) (revents : List PollEvents) :
    (s.polled revents).ctx.pollfd.map PollFd.fd = s.ctx.pollfd.map PollFd.fd :=
  (map_fd_storeRevents _ revents).trans (map_fd_pollEntries s.ctx)

theorem conns_polled (s : State) (revents : List PollEvents) :
    (s.polled revents).ctx.conns = s.ctx.conns :=
  conns_withPollfd (map_fd_polled s revents)

theorem parallel_polled (h : s.ctx.Parallel) (revents : List PollEvents) :
    (s.polled revents).ctx.Parallel :=
  parallel_withPollfd h (map_fd_polled s revents)

end Flags

/-! ## The event loop -/

/-- What handling the entry `p` of the connection `c`, at `index`, does to the state: nothing, a
new client is tracked, a message is forwarded to the other end of a switch, the switch is given up,
the connection is closed, a message is written (and the switch given up after that). -/
inductive Handling (accept : Except Error Fd) (s : State) (index : Nat) (p : PollFd)
    (c : Connection) : State → List Io → Prop
  | kept : Handling accept s index p c s []
  | accepted {newfd : Fd} {s' : State} :
      accept = .ok newfd → s.addNew { t := .ipc } newfd = some s' →
      Handling accept s index p c s' []
  | forwarded (m : Message) : Handling accept s index p c (s.schedule m) [.queue (.queued m)]
  | unswitched {s' : State} {io : List Io} :
      s.dropSwitch p.fd = some (s', io) → Handling accept s index p c s' io
  | closed {r : Except Error Unit} {s' : State} {io : List Io} :
      -- A switched connection is closed here by `POLLHUP` alone.
      (c.t = .switched → p.revents.pollhup ∧ ¬ p.revents.pollin ∧ ¬ p.revents.pollout) →
      s.close index = some (r, s', io) → Handling accept s index p c s' io
  | written {i : Nat} {m : Message} (bs : List Byte) :
      s.ctx.tx.findIdx? (fun m => m.fd = p.fd) = some i → s.ctx.tx[i]? = some m →
      Handling accept s index p c (s.withTx (swapRemove s.ctx.tx i))
        [.queue (.handed s.ctx.tx i), .write m.fd bs]
  | writtenUnswitched {i : Nat} {m : Message} {bs : List Byte} {s' : State} {io : List Io} :
      s.ctx.tx.findIdx? (fun m => m.fd = p.fd) = some i → s.ctx.tx[i]? = some m →
      (s.withTx (swapRemove s.ctx.tx i)).dropSwitch p.fd = some (s', io) →
      Handling accept s index p c s' (.queue (.handed s.ctx.tx i) :: .write m.fd bs :: io)

section Outcome
variable {s s' : State} {r : Except Error Event} {io : List Io} {index : Nat} {p : PollFd}
  {c : Connection} {accept : Except Error Fd}

theorem acceptNewClient_handling
    (h : s.acceptNewClient p c accept = some (r, s', io)) : Handling accept s index p c s' io := by
  unfold State.acceptNewClient at h
  split at h
  · cases h
    exact .kept
  · split at h
    · cases h
      exact .kept
    · obtain ⟨s₁, hadd, h⟩ := Option.bind_eq_some_iff.mp h
      cases h
      exact .accepted rfl hadd

theorem readSwitched_handling {cb : In} (h : s.readSwitched index p.fd cb = some (r, s', io)) :
    Handling accept s index p c s' io := by
  unfold State.readSwitched at h
  simp only at h
  split at h
  · obtain ⟨m, -, h⟩ := Option.bind_eq_some_iff.mp h
    cases h
    exact .forwarded m
  · obtain ⟨⟨s₁, io₁⟩, hdrop, h⟩ := Option.map_eq_some_iff.mp h
    cases h
    exact .unswitched hdrop
  · obtain ⟨⟨s₁, io₁⟩, hdrop, h⟩ := Option.map_eq_some_iff.mp h
    cases h
    exact .unswitched hdrop
  · cases h
    exact .kept

/-- A disconnection is a `close`. -/
theorem disconnect_eq_some {origin : State → Fd}
    (h : s.disconnect index origin = some (r, s', io)) :
    ∃ r', s.close index = some (r', s', io) := by
  unfold State.disconnect at h
  obtain ⟨⟨r', s₁, io₁⟩, hclose, h⟩ := Option.bind_eq_some_iff.mp h
  cases r' with
  | error e =>
    cases h
    exact ⟨_, hclose⟩
  | ok u =>
    cases h
    exact ⟨_, hclose⟩

theorem readMessage_handling (hc : c.t ≠ .switched) {rr : ReadResult}
    (h : s.readMessage index p rr = some (r, s', io)) : Handling accept s index p c s' io := by
  unfold State.readMessage at h
  split at h
  · obtain ⟨r', hclose⟩ := disconnect_eq_some h
    exact .closed (fun ht => absurd ht hc) hclose
  · cases h
    exact .kept
  · obtain ⟨r', hclose⟩ := disconnect_eq_some h
    exact .closed (fun ht => absurd ht hc) hclose
  · cases h
    exact .kept

theorem writeMessage_handling {sys : WaitSys} {p' : PollFd} (hfd : p'.fd = p.fd)
    (h : s.writeMessage index p' c sys = some (r, s', io)) : Handling accept s index p c s' io := by
  simp only [State.writeMessage, Option.bind_eq_bind, Option.pure_def, hfd] at h
  obtain ⟨i, hi, h⟩ := Option.bind_eq_some_iff.mp h
  obtain ⟨m, hm, h⟩ := Option.bind_eq_some_iff.mp h
  split at h
  · split at h
    · cases h
      exact .written _ hi hm
    · obtain ⟨⟨s₁, io₁⟩, hdrop, h⟩ := Option.bind_eq_some_iff.mp h
      cases h
      exact .writtenUnswitched hi hm hdrop
    · cases h
      exact .written _ hi hm
  · split at h
    · cases h
      exact .written _ hi hm
    · cases h
      exact .written _ hi hm

/-- The dispatch handles its entry, after it has cleared a flag. -/
theorem dispatch_handling {sys : WaitSys} (hp : s.ctx.pollfd[index]? = some p)
    (h : s.dispatch index p c sys = some (r, s', io)) :
    ∃ ps, ps.map PollFd.fd = s.ctx.pollfd.map PollFd.fd ∧
      Handling sys.accept (s.withPollfd ps) index p c s' io := by
  unfold State.dispatch at h
  split at h
  · refine ⟨s.ctx.pollfd, rfl, ?_⟩
    split at h
    · exact acceptNewClient_handling h
    · exact readSwitched_handling h
    · cases h
      exact .kept
    · rename_i hipc
      exact readMessage_handling (by rw [hipc]; decide) h
  · rename_i hin
    split at h
    · have hset := map_fd_set { p with events := { p.events with pollout := false } } hp rfl
      exact ⟨_, hset, writeMessage_handling rfl h⟩
    · rename_i hout
      refine ⟨s.ctx.pollfd, rfl, ?_⟩
      split at h
      · rename_i hup
        obtain ⟨r', hclose⟩ := disconnect_eq_some h
        exact .closed (fun _ => ⟨hup, hin, hout⟩) hclose
      · cases h
        exact .kept

/-- Everything `wait_event` can do: it fails, it finds nothing to handle, or it is the dispatch on the
first entry that is ready. -/
theorem waitEvent_cases {sys : WaitSys} (h : s.waitEvent sys = some (r, s', io)) :
    (r = .error .os ∧ s' = s.prepared ∧ io = []) ∨
      ∃ revents, sys.poll = some revents ∧
        ((s' = s.polled revents ∧ io = [] ∧ ∃ event, r = .ok event ∧
            (event.t = .timer ∨ event.t = .error) ∧ event.m = none) ∨
          ∃ index p c, (s.polled revents).ctx.pollfd.findIdx? handled = some index ∧
            (s.polled revents).ctx.pollfd[index]? = some p ∧ s.ctx.connections[index]? = some c ∧
            (s.polled revents).dispatch index p c sys = some (r, s', io)) := by
  unfold State.waitEvent at h
  split at h
  · cases h
    exact .inl ⟨rfl, rfl, rfl⟩
  · rename_i revents hpoll
    refine .inr ⟨revents, hpoll, ?_⟩
    simp only at h
    split at h
    · cases h
      exact .inl ⟨rfl, rfl, _, rfl, ite_eq_or_eq _ _ _, rfl⟩
    · split at h
      · cases h
        exact .inl ⟨rfl, rfl, _, rfl, .inr rfl, rfl⟩
      · rename_i index hindex
        obtain ⟨p, hp, h⟩ := Option.bind_eq_some_iff.mp h
        obtain ⟨c, hc, h⟩ := Option.bind_eq_some_iff.mp h
        exact .inr ⟨index, p, c, hindex, hp, hc, h⟩

/-- `wait_event` changes flags only, or handles the first entry that is ready. -/
theorem waitEvent_handling {sys : WaitSys} (h : s.waitEvent sys = some (r, s', io)) :
    ∃ ps, ps.map PollFd.fd = s.ctx.pollfd.map PollFd.fd ∧
      ((s' = s.withPollfd ps ∧ io = []) ∨
        ∃ revents index p c, sys.poll = some revents ∧
          (s.polled revents).ctx.pollfd.findIdx? handled = some index ∧
          (s.polled revents).ctx.pollfd[index]? = some p ∧ s.ctx.connections[index]? = some c ∧
          Handling sys.accept (s.withPollfd ps) index p c s' io) := by
  rcases waitEvent_cases h with ⟨-, hs, hio⟩ | ⟨revents, hpoll, hcases⟩
  · exact ⟨_, map_fd_pollEntries s.ctx, .inl ⟨hs, hio⟩⟩
  · rcases hcases with ⟨hs, hio, -⟩ | ⟨index, p, c, hindex, hp, hc, hdispatch⟩
    · exact ⟨_, map_fd_polled s revents, .inl ⟨hs, hio⟩⟩
    · obtain ⟨ps, hps, hhandling⟩ := dispatch_handling hp hdispatch
      exact ⟨ps, hps.trans (map_fd_polled s revents),
        .inr ⟨revents, index, p, c, hpoll, hindex, hp, hc, hhandling⟩⟩

theorem Handling.effect (h : Handling accept s index p c s' io) (hpar : s.ctx.Parallel) :
    Effect s io s' := by
  cases h with
  | kept => exact effect_of_tx_eq hpar rfl rfl
  | accepted _ hadd => exact addNew_effect hpar hadd
  | forwarded m => exact ⟨hpar, .single (.queued m)⟩
  | unswitched hdrop => exact dropSwitch_effect hpar hdrop
  | closed _ hclose => exact close_effect hpar hclose
  | written bs hi hm => exact ⟨hpar, .single (.handed (isFirst_of_findIdx? hi).1)⟩
  | @writtenUnswitched i m bs _ _ hi hm hdrop =>
    have hsent : Effect s [.queue (.handed s.ctx.tx i), .write m.fd bs]
        (s.withTx (swapRemove s.ctx.tx i)) :=
      ⟨hpar, .single (.handed (isFirst_of_findIdx? hi).1)⟩
    exact hsent.trans (dropSwitch_effect hsent.parallel hdrop)

theorem waitEvent_effect (hpar : s.ctx.Parallel) {sys : WaitSys}
    (h : s.waitEvent sys = some (r, s', io)) : Effect s io s' := by
  obtain ⟨ps, hps, ⟨rfl, rfl⟩ | ⟨revents, index, p, c, -, -, -, -, hhandling⟩⟩ :=
    waitEvent_handling h
  · exact effect_of_tx_eq (parallel_withPollfd hpar hps) rfl rfl
  · have heffect := hhandling.effect (parallel_withPollfd hpar hps)
    exact ⟨heffect.parallel, heffect.steps⟩

end Outcome

/-! ## One call -/

/-- What one call does. A call that fails leaves the state as it was. -/
inductive Stepped (s : State) : Call → State → List Io → Prop
  | opened {fd : Fd} :
      fd ∉ s.openFds → Stepped s (.openFd fd) { s with openFds := insert fd s.openFds } []
  | serverFailed {path : List Byte} {e : Error} : Stepped s (.serverInit path (.error e)) s []
  | server {path : List Byte} {fd : Fd} {s' : State} :
      s.addNew { t := .server, path := some path } fd = some s' →
      Stepped s (.serverInit path (.ok fd)) s' []
  | connectFailed {e : Error} : Stepped s (.connectService (.error e)) s []
  | connected {fd : Fd} {s' : State} :
      s.addNew { t := .ipc } fd = some s' → Stepped s (.connectService (.ok fd)) s' []
  | external {fd : Fd} :
      Stepped s (.addExternal fd) { s with ctx := s.ctx.add_ { t := .external } fd } []
  | switchRefused {fd1 fd2 : Fd} {e : Error} :
      s.ctx.addSwitch fd1 fd2 = .error e → Stepped s (.addSwitch fd1 fd2) s []
  | switched {fd1 fd2 : Fd} {ctx : Context} :
      s.ctx.addSwitch fd1 fd2 = .ok ctx → Stepped s (.addSwitch fd1 fd2) { s with ctx := ctx } []
  | scheduled {m : Message} : Stepped s (.schedule m) (s.schedule m) [.queue (.queued m)]
  | closed {index : Nat} {r : Except Error Unit} {s' : State} {io : List Io} :
      s.close index = some (r, s', io) → Stepped s (.close index) s' io
  | closedFd {fd : Fd} {r : Except Error Unit} {s' : State} {io : List Io} :
      s.closeFd fd = some (r, s', io) → Stepped s (.closeFd fd) s' io
  | waited {sys : WaitSys} {r : Except Error Event} {s' : State} {io : List Io} :
      s.waitEvent sys = some (r, s', io) → Stepped s (.waitEvent sys) s' io

theorem step_stepped {s s' : State} {c : Call} {io : List Io} (h : step s c = some (s', io)) :
    Stepped s c s' io := by
  cases c with
  | openFd fd =>
    simp only [step] at h
    split at h
    · cases h
    · rename_i hfd
      cases h
      exact .opened hfd
  | serverInit path listen =>
    cases listen with
    | error e =>
      cases h
      exact .serverFailed
    | ok fd =>
      obtain ⟨s₁, hadd, heq⟩ := Option.map_eq_some_iff.mp h
      cases heq
      exact .server hadd
  | connectService connect =>
    cases connect with
    | error e =>
      cases h
      exact .connectFailed
    | ok fd =>
      obtain ⟨s₁, hadd, heq⟩ := Option.map_eq_some_iff.mp h
      cases heq
      exact .connected hadd
  | addExternal fd =>
    cases h
    exact .external
  | addSwitch fd1 fd2 =>
    simp only [step] at h
    split at h
    · rename_i hrefused
      cases h
      exact .switchRefused hrefused
    · rename_i hadd
      cases h
      exact .switched hadd
  | schedule m =>
    cases h
    exact .scheduled
  | close index =>
    obtain ⟨⟨r, s₁, io₁⟩, hclose, heq⟩ := Option.map_eq_some_iff.mp h
    cases heq
    exact .closed hclose
  | closeFd fd =>
    obtain ⟨⟨r, s₁, io₁⟩, hclose, heq⟩ := Option.map_eq_some_iff.mp h
    cases heq
    exact .closedFd hclose
  | waitEvent sys =>
    obtain ⟨⟨r, s₁, io₁⟩, hwait, heq⟩ := Option.map_eq_some_iff.mp h
    cases heq
    exact .waited hwait

theorem step_effect {s s' : State} (hpar : s.ctx.Parallel) {c : Call} {io : List Io}
    (h : step s c = some (s', io)) : Effect s io s' := by
  have hsame : Effect s [] s := effect_of_tx_eq hpar rfl rfl
  cases step_stepped h with
  | opened => exact effect_of_tx_eq hpar rfl rfl
  | serverFailed => exact hsame
  | server hadd => exact addNew_effect hpar hadd
  | connectFailed => exact hsame
  | connected hadd => exact addNew_effect hpar hadd
  | external => exact effect_of_tx_eq (parallel_add_ hpar _ _) rfl rfl
  | switchRefused => exact hsame
  | switched hswitch =>
    obtain ⟨i, j, -, -, rfl⟩ := addSwitch_eq_ok hswitch
    refine effect_of_tx_eq ?_ rfl rfl
    unfold Context.Parallel at *
    simpa using hpar
  | scheduled => exact ⟨hpar, .single (.queued _)⟩
  | closed hclose => exact close_effect hpar hclose
  | closedFd hclose => exact closeFd_effect hpar hclose
  | waited hwait => exact waitEvent_effect hpar hwait

end LibIpc.Zig

import LibIpc.Zig.Delivery

/-!
# What one IPC client can do to the others

`wait_event` handles one descriptor per call. When that is an IPC client, its behaviour reaches
the context through what `poll(2)` reports for it and what `read(2)` or `write(2)` answer. The
other connections and their messages are never touched; but several of these answers end in a Zig
error or a panic and not in an event. `isolated_iff` says exactly which do not.
-/

namespace LibIpc.Zig

open Lib

/-! ## Isolation -/

/-- The connections of all descriptors but `fd`, and the messages queued for them, are the same. -/
def OthersKept (fd : Fd) (s s' : State) : Prop :=
  (s'.ctx.conns.filter fun e => e.2 ≠ fd).Perm (s.ctx.conns.filter fun e => e.2 ≠ fd) ∧
    (s'.ctx.tx.filter fun m => m.fd ≠ fd).Perm (s.ctx.tx.filter fun m => m.fd ≠ fd)

/-- The call returned an event and left everything about the other descriptors alone. -/
def Isolated (fd : Fd) (s : State) (o : Outcome) : Prop :=
  ∃ event s' io, o = some (.ok event, s', io) ∧ OthersKept fd s s'

theorem othersKept_of_eq {fd : Fd} {s s' : State} (hconns : s'.ctx.conns = s.ctx.conns)
    (htx : s'.ctx.tx = s.ctx.tx) : OthersKept fd s s' := by
  rw [OthersKept, hconns, htx]
  exact ⟨.refl _, .refl _⟩

/-- Closing a connection is its own affair. -/
theorem Closed.othersKept {s s' : State} {index : Nat} {c : Connection} {fd : Fd} {io : List Io}
    (h : Closed s index fd io s') (hget : s.ctx.conns[index]? = some (c, fd)) :
    OthersKept fd s s' := by
  obtain ⟨hlt, hc⟩ := List.getElem?_eq_some_iff.mp hget
  constructor
  · rw [h.conns]
    have hperm := (perm_cons_swapRemove hlt).filter fun e => e.2 ≠ fd
    rw [hc, List.filter_cons_of_neg (by simp)] at hperm
    exact hperm.symm
  · have hperm := h.tx.filter fun m => m.fd ≠ fd
    simp only [List.filter_filter, Bool.and_self] at hperm
    exact hperm

/-- Reporting the error of a call instead of an event. -/
theorem not_isolated_error {fd : Fd} {s s' : State} {e : Error} {io : List Io} :
    ¬ Isolated fd s (some (.error e, s', io)) := by
  rintro ⟨event, s'', io', h, -⟩
  cases h

/-! ## The three ways to handle a client -/

section Client
variable {s : State} {index : Nat} {p : PollFd} {c : Connection}

/-- A disconnection is isolated unless the descriptor is not open. -/
theorem isolated_disconnect_iff (hpar : s.ctx.Parallel) (hp : s.ctx.pollfd[index]? = some p)
    (hc : s.ctx.connections[index]? = some c) (origin : State → Fd) :
    Isolated p.fd s (s.disconnect index origin) ↔ p.fd ∈ s.openFds := by
  have hget := conns_getElem? hc hp
  constructor
  · rintro ⟨event, s', io, h, -⟩
    obtain ⟨r, hclose⟩ := disconnect_eq_some h
    exact (closed_of_close hpar hget hclose).2.wasOpen
  · intro hopen
    obtain ⟨s', io, hclose, hclosed⟩ := exists_close hpar hget hopen
    exact ⟨_, s', io, by rw [State.disconnect, hclose]; rfl, hclosed.othersKept hget⟩

/-- The answers of `read(2)` that end in an event: the stream is over or reset, or the length
announced fits the buffer. -/
def ReadAccepted (s : State) (fd : Fd) : ReadResult → Prop
  | .ok bs => if bs.length ≤ 4 then fd ∈ s.openFds else be32At bs 0 ≤ ipcMaxMessageSize - 4
  | .reset => fd ∈ s.openFds
  | .error => False

theorem isolated_readMessage_iff (hpar : s.ctx.Parallel) (hp : s.ctx.pollfd[index]? = some p)
    (hc : s.ctx.connections[index]? = some c) (hipc : c.t = .ipc) (r : ReadResult) :
    Isolated p.fd s (s.readMessage index p r) ↔ ReadAccepted s p.fd r := by
  have hdisconnect := isolated_disconnect_iff hpar hp hc
    (fun s => (s.ctx.pollfd.getD index p).fd)
  have hserver : c.t ≠ .server := by
    rw [hipc]
    decide
  simp only [State.readMessage, Context.read, hp, hc, if_neg hserver]
  cases r with
  | reset => exact hdisconnect
  | error => simp [not_isolated_error, ReadAccepted]
  | ok bs =>
    by_cases hlen : bs.length ≤ 4
    · simp only [if_pos hlen, ReadAccepted]
      exact hdisconnect
    · simp only [if_neg hlen, ReadAccepted, Message.read]
      rw [if_neg (by decide)]
      by_cases hann : be32At bs 0 > ipcMaxMessageSize - 4
      · rw [if_pos hann]
        simp only [Except.map]
        exact iff_of_false not_isolated_error (by omega)
      · rw [if_neg hann]
        simp only [Except.map]
        refine iff_of_true ⟨_, s, _, rfl, othersKept_of_eq rfl rfl⟩ (by omega)

/-- Handing over a message of `fd` leaves the messages of the others. -/
theorem othersKept_swapRemove {fd : Fd} {i : Nat} {m : Message} (hm : s.ctx.tx[i]? = some m)
    (hfd : m.fd = fd) : OthersKept fd s (s.withTx (swapRemove s.ctx.tx i)) := by
  obtain ⟨hlt, rfl⟩ := List.getElem?_eq_some_iff.mp hm
  refine ⟨.refl _, ?_⟩
  have hperm := (perm_cons_swapRemove hlt).filter fun m => m.fd ≠ fd
  rw [List.filter_cons_of_neg (by simpa using hfd)] at hperm
  exact hperm.symm

/-- Writing is isolated when there is a message to write and `write(2)` does not fail. -/
theorem isolated_writeMessage_iff (hipc : c.t = .ipc) (sys : WaitSys) :
    Isolated p.fd s (s.writeMessage index p c sys) ↔
      (∃ m ∈ s.ctx.tx, m.fd = p.fd) ∧ ∃ n, sys.write = .wrote n := by
  have hswitched : c.t ≠ .switched := by
    rw [hipc]
    decide
  cases hi : s.ctx.tx.findIdx? fun m => m.fd = p.fd with
  | none =>
    have hnone : ¬ ∃ m ∈ s.ctx.tx, m.fd = p.fd := by
      simpa [List.findIdx?_eq_none_iff] using hi
    simp only [State.writeMessage, hi, hnone, false_and, iff_false]
    rintro ⟨event, s', io, h, -⟩
    cases h
  | some i =>
    obtain ⟨-, m, hm, hfd⟩ := isFirst_of_findIdx? hi
    have hmem : ∃ m ∈ s.ctx.tx, m.fd = p.fd := ⟨m, List.mem_of_getElem? hm, hfd⟩
    simp only [State.writeMessage, hi, hm, Option.bind_eq_bind, Option.bind_some,
      if_neg hswitched, Context.write, m.write_eq_ok (show 4 < ipcMaxMessageSize by decide), hmem,
      true_and]
    cases hw : sys.write with
    | error => simp [not_isolated_error]
    | wrote n =>
      simp only [WriteResult.wrote.injEq, exists_eq', iff_true]
      exact ⟨_, _, _, rfl, othersKept_swapRemove hm hfd⟩

end Client

/-! ## `wait_event` -/

/-- With these `revents`, `wait_event` stops at the IPC client `p`, entry number `index`. -/
structure HandlesClient (s : State) (revents : List PollEvents) (index : Nat) (p : PollFd) :
    Prop where
  first : (s.polled revents).ctx.pollfd.findIdx? handled = some index
  entry : (s.polled revents).ctx.pollfd[index]? = some p
  isIpc : ∃ c, s.ctx.connections[index]? = some c ∧ c.t = .ipc

/-- The behaviours of a client that `wait_event` answers with an event. -/
def ClientAccepted (s : State) (p : PollFd) (sys : WaitSys) : Prop :=
  if p.revents.pollin then ReadAccepted s p.fd sys.read
  else if p.revents.pollout then
    (∃ m ∈ s.ctx.tx, m.fd = p.fd) ∧ ∃ n, sys.write = .wrote n
  else if p.revents.pollhup then p.fd ∈ s.openFds
  else True

/-- `wait_event` is the dispatch on the entry it stops at. -/
theorem waitEvent_eq_dispatch {s : State} {sys : WaitSys} {revents : List PollEvents}
    {index : Nat} {p : PollFd} {c : Connection} (hpoll : sys.poll = some revents)
    (hfirst : (s.polled revents).ctx.pollfd.findIdx? handled = some index)
    (hentry : (s.polled revents).ctx.pollfd[index]? = some p)
    (hc : s.ctx.connections[index]? = some c) :
    s.waitEvent sys = (s.polled revents).dispatch index p c sys := by
  have hsome : ¬ ((s.polled revents).ctx.pollfd.all fun p => p.revents = {}) = true := by
    obtain ⟨hlt, hhandled, -⟩ := List.findIdx?_eq_some_iff_getElem.mp hfirst
    intro hall
    have hnone := List.all_eq_true.mp hall _ (List.getElem_mem hlt)
    rw [handled, of_decide_eq_true hnone] at hhandled
    cases hhandled
  have hc' : (s.polled revents).ctx.connections[index]? = some c := hc
  simp only [State.waitEvent, hpoll, if_neg hsome, hfirst, hentry, hc', Option.bind_eq_bind,
    Option.bind_some]

/-- Isolation is about connections and messages, not about the flags of the entries. -/
theorem isolated_congr {fd : Fd} {s s₁ : State} {o : Outcome}
    (hconns : s₁.ctx.conns = s.ctx.conns) (htx : s₁.ctx.tx = s.ctx.tx) :
    Isolated fd s o ↔ Isolated fd s₁ o := by
  rw [Isolated, Isolated]
  simp only [OthersKept, hconns, htx]

/-- **Isolation**: a `wait_event` call that handles an IPC client returns an event and leaves the
other descriptors alone exactly when the client's behaviour is one of those accepted. -/
theorem isolated_iff {s : State} (h : ReachableState s) {sys : WaitSys}
    {revents : List PollEvents} (hpoll : sys.poll = some revents) {index : Nat} {p : PollFd}
    (hclient : HandlesClient s revents index p) :
    Isolated p.fd s (s.waitEvent sys) ↔ ClientAccepted s p sys := by
  obtain ⟨c, hc, hipc⟩ := hclient.isIpc
  have hpar : (s.polled revents).ctx.Parallel :=
    parallel_polled h.parallel revents
  rw [waitEvent_eq_dispatch hpoll hclient.first hclient.entry hc,
    isolated_congr (conns_polled s revents) rfl]
  unfold State.dispatch ClientAccepted
  split
  · rw [hipc]
    exact isolated_readMessage_iff hpar hclient.entry hc hipc sys.read
  · split
    · have hset := conns_withPollfd (map_fd_set
        { p with events := { p.events with pollout := false } } hclient.entry rfl)
      rw [isolated_congr hset rfl]
      exact isolated_writeMessage_iff hipc sys
    · split
      · exact isolated_disconnect_iff hpar hclient.entry hc _
      · exact iff_of_true ⟨_, _, _, rfl, othersKept_of_eq rfl rfl⟩ trivial

/-- One IPC client, on descriptor 7. -/
def clientState : State :=
  { ctx :=
      { connections := [{ t := .ipc }], pollfd := [{ fd := 7, events := { pollin := true } }] }
    openFds := {7} }

/-- `POLLIN` on the only entry, and the bytes then read. -/
def received (bs : List Byte) : WaitSys :=
  { poll := some [{ pollin := true }], read := .ok bs }

theorem isolated_one_message :
    Isolated 7 clientState (clientState.waitEvent (received (frame [104, 105]))) := by
  refine (isolated_iff (s := clientState)
    (p := { fd := 7, events := { pollin := true }, revents := { pollin := true } })
    ⟨[.connectService (.ok 7)], [], rfl⟩ rfl ⟨rfl, rfl, ⟨_, rfl, rfl⟩⟩).mpr ?_
  show be32At (frame [104, 105]) 0 ≤ ipcMaxMessageSize - 4
  decide

/-- A client that announces more bytes than any message has makes `wait_event` fail. -/
theorem not_isolated_wrong_length :
    ReachableState clientState ∧
      HandlesClient clientState [{ pollin := true }] 0
        { fd := 7, events := { pollin := true }, revents := { pollin := true } } ∧
      ¬ Isolated 7 clientState
        (clientState.waitEvent (received [255, 255, 255, 255, 0])) := by
  refine ⟨⟨[.connectService (.ok 7)], [], rfl⟩, ⟨rfl, rfl, ⟨_, rfl, rfl⟩⟩, ?_⟩
  rintro ⟨event, s', io, h, -⟩
  have herror : (clientState.waitEvent (received [255, 255, 255, 255, 0])).map Prod.fst =
      some (.error .wrongMessageLength) := by decide +kernel
  rw [h] at herror
  cases herror

end LibIpc.Zig

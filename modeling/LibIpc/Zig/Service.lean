import LibIpc.Zig.Arming
import LibIpc.Zig.Stream
import LibIpc.Zig.Survival

/-!
# What `wait_event` does for a service

A service has its server socket and its clients, and switches nothing. `Served` lists what
`wait_event` can do to the entry it stops at in such a context, and `Waited` what a whole call can
be (`waitEvent_waited`). It does not panic as long as the system keeps its contract
(`exists_waitEvent`); which answers of the system or of a peer it passes on as a Zig error, which few
programs survive, is said by `waitEvent_error_iff`.
-/

namespace LibIpc.Zig

open Lib

/-- The context of a service: tidy, with servers that have a path, and clients. -/
structure Serves (s : State) : Prop extends Tidy s where
  types : ∀ c ∈ s.ctx.connections, c.t = .server ∧ c.path ≠ none ∨ c.t = .ipc

/-- What `Context.write` passes to `write(2)`: the length, and as much of the payload as fits. -/
def encoded (p : List Byte) : List Byte :=
  be32 (p.length % 2 ^ 32) ++ p.take (ipcMaxMessageSize - 4)

/-- The peer has left. -/
def Left (r : ReadResult) : Prop :=
  readAnswer 0 r = .ok none ∨ readAnswer 0 r = .error .connectionResetByPeer

/-- The client on `fd` is gone: its connection is closed, its messages are lost, and nothing else is
done. -/
structure Departed (s : State) (index : Nat) (fd : Fd) (s' : State) (io : List Io) : Prop
    extends Removes fd s io s' where
  isClosed : Closed s index fd io s'
  lost : ∃ es : List (QueueEvent Message), io = .close fd :: es.map .queue ∧
    ∀ e ∈ es, ∃ q j m, e = .dropped q j ∧ q[j]? = some m ∧ m.fd = fd

/-- What `wait_event` does to the entry `p`, at `index`, it stops at: a client is accepted, or not; a
message is read; the client sends what is no message; it has left; the first message queued for
the descriptor is written, or not; the peer has hung up; the descriptor is not valid. -/
inductive Served (s : State) (index : Nat) (p : PollFd) (c : Connection) (sys : WaitSys) :
    Except Error Event → State → List Io → Prop
  | accepted {newfd : Fd} {event : Event} : p.revents.pollin → c.t = .server →
      sys.accept = .ok newfd → newfd ∉ s.openFds →
      event.t = .connection → event.m = none →
      Served s index p c sys (.ok event) (s.track { t := .ipc } newfd) []
  | notAccepted {e : Error} : p.revents.pollin → c.t = .server → sys.accept = .error e →
      Served s index p c sys (.error e) s []
  | received {m : Message} : p.revents.pollin → c.t = .ipc →
      readAnswer p.fd sys.read = .ok (some m) →
      Served s index p c sys
        (.ok { t := .messageRx, index := index, origin := p.fd, m := some m }) s []
  | unreadable {e : Error} : p.revents.pollin → c.t = .ipc →
      readAnswer p.fd sys.read = .error e → e ≠ .connectionResetByPeer →
      Served s index p c sys (.error e) s []
  | left {event : Event} {s' : State} {io : List Io} : p.revents.pollin → c.t = .ipc →
      Left sys.read → Departed s index p.fd s' io →
      event.t = .disconnection → event.m = none → Served s index p c sys (.ok event) s' io
  | written {event : Event} {i n : Nat} {m : Message} {ps : List PollFd} : ¬ p.revents.pollin →
      p.revents.pollout → ps.map PollFd.fd = s.ctx.fds →
      IsFirst Message.fd s.ctx.tx i → s.ctx.tx[i]? = some m → m.fd = p.fd →
      sys.write = .wrote n → event.t = .messageTx → event.m = none →
      Served s index p c sys (.ok event) ((s.withPollfd ps).withTx (swapRemove s.ctx.tx i))
        [.queue (.handed s.ctx.tx i), .write p.fd ((encoded m.payload).take n)]
  | notWritten {i : Nat} {m : Message} {ps : List PollFd} : ¬ p.revents.pollin →
      p.revents.pollout → ps.map PollFd.fd = s.ctx.fds →
      IsFirst Message.fd s.ctx.tx i → s.ctx.tx[i]? = some m → m.fd = p.fd →
      sys.write = .error →
      Served s index p c sys (.error .os) ((s.withPollfd ps).withTx (swapRemove s.ctx.tx i))
        [.queue (.handed s.ctx.tx i), .write p.fd []]
  | hungUp {event : Event} {s' : State} {io : List Io} : ¬ p.revents.pollin →
      ¬ p.revents.pollout → p.revents.pollhup → Departed s index p.fd s' io →
      event.t = .disconnection → event.m = none → Served s index p c sys (.ok event) s' io
  | invalid {event : Event} : ¬ p.revents.pollin → ¬ p.revents.pollout → ¬ p.revents.pollhup →
      event.t = .error → event.m = none → Served s index p c sys (.ok event) s []

section
variable {s s' : State} {index : Nat} {p : PollFd} {c : Connection} {sys : WaitSys}
  {r : Except Error Event} {io : List Io} {fd : Fd}

/-! ## The handlers -/

theorem read_eq_readAnswer (hp : s.ctx.pollfd[index]? = some p)
    (hc : s.ctx.connections[index]? = some c) (ht : c.t = .ipc) (a : ReadResult) :
    s.ctx.read index a = readAnswer p.fd a := by
  have hserver : c.t ≠ .server := by simp [ht]
  simp only [Context.read, hp, hc, if_neg hserver]
  rfl

/-- Whose answer it is does not matter. -/
theorem left_iff (fd : Fd) (a : ReadResult) :
    Left a ↔ readAnswer fd a = .ok none ∨ readAnswer fd a = .error .connectionResetByPeer := by
  unfold Left
  cases a with
  | reset => simp [readAnswer]
  | error => simp [readAnswer]
  | ok bs =>
    rcases readAnswer_ok 0 bs with ⟨hlen, h⟩ | ⟨hlen, hann, h⟩ | ⟨hlen, hann, h⟩
    · rw [h]
      simp [readAnswer, hlen]
    · rcases readAnswer_ok fd bs with ⟨hlen', -⟩ | ⟨-, -, h'⟩ | ⟨-, hann', -⟩
      · exact absurd hlen' hlen
      · rw [h, h']
      · exact absurd hann' hann
    · rcases readAnswer_ok fd bs with ⟨hlen', -⟩ | ⟨-, hann', -⟩ | ⟨-, -, h'⟩
      · exact absurd hlen' hlen
      · exact absurd hann hann'
      · rw [h, h']
        simp

theorem disconnect_departed (hs : Tidy s) (hp : s.ctx.pollfd[index]? = some p)
    (hc : s.ctx.connections[index]? = some c) {origin : State → Fd}
    (h : s.disconnect index origin = some (r, s', io)) :
    Departed s index p.fd s' io ∧
      r = .ok { t := .disconnection, index := index, origin := origin s' } := by
  have hget := conns_getElem? hc hp
  obtain ⟨s₁, io₁, hclose, hremoves⟩ := hs.close hget
  obtain ⟨-, hclosed⟩ := closed_of_close hs.parallel hget hclose
  have hlost := close_eq_ok hc hp hclosed.wasOpen
  rw [hclose] at hlost
  simp only [State.disconnect, hclose, Option.bind_eq_bind, Option.bind_some, Option.pure_def,
    Option.some.injEq, Prod.mk.injEq] at h
  obtain ⟨rfl, rfl, rfl⟩ := h
  refine ⟨⟨hremoves, hclosed, _, congrArg (fun x => x.2.2) (Option.some.inj hlost), ?_⟩, rfl⟩
  intro e he
  exact mem_dropAll he

theorem acceptNewClient_served (hin : p.revents.pollin) (ht : c.t = .server)
    (hpath : c.path ≠ none) (h : s.acceptNewClient p c sys.accept = some (r, s', io)) :
    Served s index p c sys r s' io := by
  unfold State.acceptNewClient at h
  split at h
  · rename_i hnone
    exact absurd hnone hpath
  · split at h
    · rename_i haccept
      cases h
      exact .notAccepted hin ht haccept
    · rename_i newfd haccept
      obtain ⟨s₁, hadd, h⟩ := Option.bind_eq_some_iff.mp h
      cases h
      obtain ⟨hnew, rfl⟩ := addNew_eq_some hadd
      exact .accepted hin ht haccept hnew rfl rfl

theorem readMessage_served (hs : Tidy s) (hp : s.ctx.pollfd[index]? = some p)
    (hc : s.ctx.connections[index]? = some c) (hin : p.revents.pollin) (ht : c.t = .ipc)
    (h : s.readMessage index p sys.read = some (r, s', io)) : Served s index p c sys r s' io := by
  unfold State.readMessage at h
  rw [read_eq_readAnswer hp hc ht] at h
  split at h
  · rename_i hreset
    obtain ⟨hdeparted, rfl⟩ := disconnect_departed hs hp hc h
    exact .left hin ht ((left_iff p.fd _).mpr (.inr hreset)) hdeparted rfl rfl
  · rename_i e hne herror
    cases h
    exact .unreadable hin ht herror (fun he => hne (he ▸ rfl))
  · rename_i hnone
    obtain ⟨hdeparted, rfl⟩ := disconnect_departed hs hp hc h
    exact .left hin ht ((left_iff p.fd _).mpr (.inl hnone)) hdeparted rfl rfl
  · rename_i m hread
    cases h
    exact .received hin ht hread

theorem writeMessage_served {ps : List PollFd} {p' : PollFd} (hin : ¬ p.revents.pollin)
    (hout : p.revents.pollout) (hps : ps.map PollFd.fd = s.ctx.fds) (hfd : p'.fd = p.fd)
    (ht : c.t ≠ .switched)
    (h : (s.withPollfd ps).writeMessage index p' c sys = some (r, s', io)) :
    Served s index p c sys r s' io := by
  simp only [State.writeMessage, Option.bind_eq_bind, Option.pure_def, hfd, if_neg ht] at h
  obtain ⟨i, hi, h⟩ := Option.bind_eq_some_iff.mp h
  obtain ⟨m, hm, h⟩ := Option.bind_eq_some_iff.mp h
  obtain ⟨hfirst, m', hm', hmfd⟩ := isFirst_of_findIdx? hi
  obtain rfl : m' = m := Option.some.inj (hm'.symm.trans hm)
  cases hw : sys.write with
  | error =>
    have hrefused : Context.write m' .error = (.error .os, []) := by
      rw [Context.write, m'.write_eq_ok (by decide)]
    rw [hw, hrefused] at h
    cases h
    rw [hmfd]
    exact .notWritten hin hout hps hfirst hm hmfd hw
  | wrote n =>
    rw [hw, write_wrote] at h
    cases h
    rw [hmfd]
    exact .written hin hout hps hfirst hm hmfd hw rfl rfl

theorem dispatch_served (hs : Serves s) (hp : s.ctx.pollfd[index]? = some p)
    (hc : s.ctx.connections[index]? = some c)
    (h : s.dispatch index p c sys = some (r, s', io)) : Served s index p c sys r s' io := by
  have htype := hs.types c (List.mem_of_getElem? hc)
  unfold State.dispatch at h
  split at h
  · rename_i hin
    rcases htype with ⟨ht, hpath⟩ | ht
    · rw [ht] at h
      exact acceptNewClient_served hin ht hpath h
    · rw [ht] at h
      exact readMessage_served hs.toTidy hp hc hin ht h
  · rename_i hin
    split at h
    · rename_i hout
      have hne : c.t ≠ .switched := by
        rcases htype with ⟨ht, -⟩ | ht
        · simp [ht]
        · simp [ht]
      exact writeMessage_served hin hout
        (map_fd_set { p with events := { p.events with pollout := false } } hp rfl) rfl hne h
    · rename_i hout
      split at h
      · rename_i hup
        obtain ⟨hdeparted, rfl⟩ := disconnect_departed hs.toTidy hp hc h
        exact .hungUp hin hout hup hdeparted rfl rfl
      · rename_i hup
        cases h
        exact .invalid hin hout hup rfl rfl

/-! ## The context stays that of a service -/

theorem Serves.congr (h : Serves s) (hpar : s'.ctx.Parallel) (hfds : s'.ctx.fds = s.ctx.fds)
    (hopen : s'.openFds = s.openFds) (hconns : s'.ctx.connections = s.ctx.connections) :
    Serves s' where
  toTidy := h.toTidy.congr hpar hfds hopen
  types := by
    rw [hconns]
    exact h.types

theorem Serves.polled (h : Serves s) (revents : List PollEvents) : Serves (s.polled revents) :=
  h.congr (parallel_polled h.parallel revents) (map_fd_polled s revents) rfl rfl

theorem Serves.prepared (h : Serves s) : Serves s.prepared :=
  h.congr (parallel_withPollfd h.parallel (map_fd_pollEntries s.ctx)) (map_fd_pollEntries s.ctx) rfl
    rfl

theorem Serves.schedule (h : Serves s) (m : Message) : Serves (s.schedule m) :=
  h.congr h.parallel rfl rfl rfl

theorem Serves.departed (h : Serves s) (hdeparted : Departed s index fd s' io) : Serves s' where
  toTidy := hdeparted.tidy
  types := by
    intro c hc
    have hfst : ∀ {s : State}, s.ctx.Parallel → s.ctx.conns.map Prod.fst = s.ctx.connections := by
      intro s hpar
      exact List.map_fst_zip (by rw [List.length_map]; exact Nat.le_of_eq hpar)
    rw [← hfst hdeparted.tidy.parallel, hdeparted.isClosed.conns, ← swapRemove_map] at hc
    have hmem := mem_of_mem_swapRemove hc
    rw [hfst h.parallel] at hmem
    exact h.types c hmem

theorem Served.serves (hs : Serves s) (h : Served s index p c sys r s' io) : Serves s' := by
  have hwritten : ∀ {ps : List PollFd} (tx : List Message), ps.map PollFd.fd = s.ctx.fds →
      Serves ((s.withPollfd ps).withTx tx) := by
    intro ps tx hps
    have hpar : (s.withPollfd ps).ctx.Parallel := parallel_withPollfd hs.parallel hps
    exact hs.congr hpar hps rfl rfl
  cases h with
  | accepted _ _ _ hnew _ _ =>
    refine ⟨(hs.toTidy.track hnew { t := .ipc }).tidy, ?_⟩
    intro c hc
    rcases List.mem_append.mp hc with hc | hc
    · exact hs.types c hc
    · obtain rfl := List.mem_singleton.mp hc
      exact .inr rfl
  | notAccepted _ _ _ => exact hs
  | received _ _ _ => exact hs
  | unreadable _ _ _ _ => exact hs
  | left _ _ _ hdeparted _ _ => exact hs.departed hdeparted
  | written _ _ hps _ _ _ _ _ _ => exact hwritten _ hps
  | notWritten _ _ hps _ _ _ _ => exact hwritten _ hps
  | hungUp _ _ _ hdeparted _ _ => exact hs.departed hdeparted
  | invalid _ _ _ _ _ => exact hs

/-! ## `wait_event` -/

/-- `poll(2)` has nothing to report, and the time of the timer is over. -/
def TimesOut (s : State) (sys : WaitSys) : Prop :=
  ∃ revents, sys.poll = some revents ∧ (∀ p ∈ (s.polled revents).ctx.pollfd, p.revents = {}) ∧
    s.ctx.timer.getD (-1) ≤ sys.duration

/-- What a whole `wait_event` does: `poll(2)` fails, or finds nothing to handle, or the first entry
that is ready is served. -/
inductive Waited (s : State) (sys : WaitSys) : Except Error Event → State → List Io → Prop
  | failed : sys.poll = none → Waited s sys (.error .os) s.prepared []
  | idle {revents : List PollEvents} {event : Event} : sys.poll = some revents →
      (∀ index p c, ¬ StopsAt s sys index p c) →
      TimesOut s sys ∧ event.t = .timer ∨ ¬ TimesOut s sys ∧ event.t = .error → event.m = none →
      Waited s sys (.ok event) (s.polled revents) []
  | served {revents : List PollEvents} {index : Nat} {p : PollFd} {c : Connection}
      {r : Except Error Event} {s' : State} {io : List Io} : sys.poll = some revents →
      StopsAt s sys index p c → Served (s.polled revents) index p c sys r s' io →
      Waited s sys r s' io

/-- Where there is something to handle, there is something to report. -/
theorem StopsAt.not_timesOut (h : StopsAt s sys index p c) : ¬ TimesOut s sys := by
  obtain ⟨revents, hpoll, hindex, -, -⟩ := h
  rintro ⟨revents', hpoll', hquiet, -⟩
  rw [hpoll, Option.some.injEq] at hpoll'
  subst hpoll'
  obtain ⟨hlt, hhandled, -⟩ := List.findIdx?_eq_some_iff_getElem.mp hindex
  rw [handled, hquiet _ (List.getElem_mem hlt)] at hhandled
  cases hhandled

theorem timesOut_iff {revents : List PollEvents} (hpoll : sys.poll = some revents) :
    TimesOut s sys ↔ (∀ p ∈ (s.polled revents).ctx.pollfd, p.revents = {}) ∧
      s.ctx.timer.getD (-1) ≤ sys.duration := by
  simp [TimesOut, hpoll]

/-- With nothing to handle there is a timer event, or one of type `ERROR`. -/
theorem waitEvent_idle {revents : List PollEvents} (hpoll : sys.poll = some revents)
    (hnone : (s.polled revents).ctx.pollfd.findIdx? handled = none) :
    ∃ t, (TimesOut s sys ∧ t = .timer ∨ ¬ TimesOut s sys ∧ t = .error) ∧
      s.waitEvent sys = some (.ok { t := t, index := 0, origin := 0 }, s.polled revents, []) := by
  rw [State.waitEvent, hpoll, timesOut_iff hpoll]
  dsimp only
  split
  · rename_i hall
    have hquiet : ∀ p ∈ (s.polled revents).ctx.pollfd, p.revents = {} := by
      simpa using hall
    refine ⟨_, ?_, rfl⟩
    by_cases hover : s.ctx.timer.getD (-1) ≤ sys.duration
    · exact .inl ⟨⟨hquiet, hover⟩, if_pos hover⟩
    · exact .inr ⟨fun h => hover h.2, if_neg hover⟩
  · rename_i hall
    rw [hnone]
    refine ⟨.error, .inr ⟨?_, rfl⟩, rfl⟩
    rintro ⟨hquiet, -⟩
    apply hall
    simpa using hquiet

theorem waitEvent_waited (hs : Serves s) (h : s.waitEvent sys = some (r, s', io)) :
    Waited s sys r s' io := by
  cases hpoll : sys.poll with
  | none =>
    rw [State.waitEvent, hpoll] at h
    cases h
    exact .failed hpoll
  | some revents =>
    cases hindex : (s.polled revents).ctx.pollfd.findIdx? handled with
    | none =>
      obtain ⟨t, ht, hwait⟩ := waitEvent_idle hpoll hindex
      rw [hwait] at h
      cases h
      refine .idle hpoll ?_ ht rfl
      rintro index p c ⟨revents', hpoll', hindex', -⟩
      rw [hpoll, Option.some.injEq] at hpoll'
      subst hpoll'
      rw [hindex] at hindex'
      cases hindex'
    | some index =>
      have hlt := (List.findIdx?_eq_some_iff_getElem.mp hindex).1
      have hpar : s.ctx.connections.length = (s.polled revents).ctx.pollfd.length :=
        parallel_polled hs.parallel revents
      have hp := List.getElem?_eq_getElem hlt
      have hc := List.getElem?_eq_getElem (show index < s.ctx.connections.length by omega)
      rw [waitEvent_eq_dispatch hpoll hindex hp hc] at h
      exact .served hpoll ⟨revents, hpoll, hindex, hp, hc⟩
        (dispatch_served (hs.polled revents) hp hc h)

theorem Waited.serves (hs : Serves s) (h : Waited s sys r s' io) : Serves s' := by
  cases h with
  | failed _ => exact hs.prepared
  | idle _ _ _ _ => exact hs.polled _
  | served _ _ hserved => exact hserved.serves (hs.polled _)

/-! ## Messages -/

theorem StopsAt.unique {index' : Nat} {p' : PollFd} {c' : Connection}
    (h : StopsAt s sys index p c) (h' : StopsAt s sys index' p' c') :
    index' = index ∧ p' = p ∧ c' = c := by
  obtain ⟨revents, hpoll, hindex, hp, hc⟩ := h
  obtain ⟨revents', hpoll', hindex', hp', hc'⟩ := h'
  rw [hpoll, Option.some.injEq] at hpoll'
  subst hpoll'
  rw [hindex, Option.some.injEq] at hindex'
  subst hindex'
  rw [hp, Option.some.injEq] at hp'
  rw [hc, Option.some.injEq] at hc'
  exact ⟨rfl, hp'.symm, hc'.symm⟩

/-- The entry `wait_event` stops at is a client, on `fd`, that has sent a message. -/
def Receives (s : State) (sys : WaitSys) (fd : Fd) (m : Message) : Prop :=
  ∃ index p c, StopsAt s sys index p c ∧ p.revents.pollin ∧ c.t = .ipc ∧ p.fd = fd ∧
    readAnswer fd sys.read = .ok (some m)

theorem Receives.unique {fd' : Fd} {m m' : Message}
    (h : Receives s sys fd m) (h' : Receives s sys fd' m') : m' = m := by
  obtain ⟨index, p, c, hstop, -, -, rfl, hread⟩ := h
  obtain ⟨index', p', c', hstop', -, -, rfl, hread'⟩ := h'
  obtain ⟨rfl, rfl, rfl⟩ := hstop.unique hstop'
  rw [hread] at hread'
  cases hread'
  rfl

theorem readAnswer_message {fd : Fd} {a : ReadResult} {m : Message}
    (h : readAnswer fd a = .ok (some m)) :
    m.fd = fd ∧ m.payload.length ≤ ipcMaxMessageSize - 4 := by
  cases a with
  | reset => cases h
  | error => cases h
  | ok bs =>
    rcases readAnswer_ok fd bs with ⟨-, hread⟩ | ⟨-, -, hread⟩ | ⟨-, hann, hread⟩
    · cases h.symm.trans hread
    · cases h.symm.trans hread
    · cases h.symm.trans hread
      exact ⟨rfl, by rw [length_slice]; exact hann⟩

theorem Receives.length_le {m : Message} (h : Receives s sys fd m) :
    m.payload.length ≤ ipcMaxMessageSize - 4 := by
  obtain ⟨index, p, c, -, -, -, -, hread⟩ := h
  exact (readAnswer_message hread).2

/-- A message comes with its type of event, from the connection it is for, and nothing else is
done. -/
theorem Waited.message {event : Event} {m : Message} (h : Waited s sys (.ok event) s' io)
    (hm : event.m = some m) : event.t = .messageRx ∧ m.fd = event.origin ∧ io = [] := by
  cases h with
  | idle _ _ _ hnone =>
    rw [hm] at hnone
    cases hnone
  | @served revents index p c _ _ _ _ _ hserved =>
    cases hserved with
    | @received m' _ _ hread =>
      obtain rfl : m' = m := Option.some.inj hm
      exact ⟨rfl, (readAnswer_message hread).1, rfl⟩
    | accepted _ _ _ _ _ hnone => cases hm.symm.trans hnone
    | left _ _ _ _ _ hnone => cases hm.symm.trans hnone
    | written _ _ _ _ _ _ _ _ hnone => cases hm.symm.trans hnone
    | hungUp _ _ _ _ _ hnone => cases hm.symm.trans hnone
    | invalid _ _ _ _ hnone => cases hm.symm.trans hnone

/-- What an event of that type tells. -/
theorem Waited.receives {event : Event} (h : Waited s sys (.ok event) s' io)
    (ht : event.t = .messageRx) :
    ∃ revents m, sys.poll = some revents ∧ Receives s sys event.origin m ∧ event.m = some m ∧
      s' = s.polled revents ∧ io = [] := by
  cases h with
  | idle _ _ htype _ => simp [ht] at htype
  | served hpoll hstop hserved =>
    cases hserved with
    | received hin hipc hread =>
      exact ⟨_, _, hpoll, ⟨_, _, _, hstop, hin, hipc, rfl, hread⟩, rfl, rfl, rfl⟩
    | accepted _ _ _ _ htype _ => cases ht.symm.trans htype
    | left _ _ _ _ htype _ => cases ht.symm.trans htype
    | written _ _ _ _ _ _ _ htype _ => cases ht.symm.trans htype
    | hungUp _ _ _ _ htype _ => cases ht.symm.trans htype
    | invalid _ _ _ htype _ => cases ht.symm.trans htype

/-- A message is never longer than one may be. -/
theorem Waited.length_le {event : Event} {m : Message} (h : Waited s sys (.ok event) s' io)
    (hm : event.m = some m) : m.payload.length ≤ ipcMaxMessageSize - 4 := by
  obtain ⟨-, m', -, hreceives, hm', -, -⟩ := h.receives (h.message hm).1
  obtain rfl := Option.some.inj (hm.symm.trans hm')
  exact hreceives.length_le

/-- A client that sends a message brings an event of that type. -/
theorem Waited.messageRx_of_receives {event : Event} {m : Message}
    (h : Waited s sys (.ok event) s' io) (hm : Receives s sys fd m) : event.t = .messageRx := by
  obtain ⟨index, p, c, hstop, hin, hipc, rfl, hread⟩ := hm
  cases h with
  | idle _ hnot _ _ => exact absurd hstop (hnot index p c)
  | served _ hstop' hserved =>
    obtain ⟨rfl, rfl, rfl⟩ := hstop.unique hstop'
    cases hserved with
    | received _ _ _ => rfl
    | accepted _ ht _ _ _ _ => cases ht.symm.trans hipc
    | left _ _ hleft _ _ _ =>
      rcases (left_iff _ _).mp hleft with hleft | hleft
      · cases hread.symm.trans hleft
      · cases hread.symm.trans hleft
    | written hnot _ _ _ _ _ _ _ _ => exact absurd hin hnot
    | hungUp hnot _ _ _ _ _ => exact absurd hin hnot
    | invalid hnot _ _ _ _ => exact absurd hin hnot

theorem Departed.queueEvents (h : Departed s index fd s' io) :
    ∀ e ∈ queueEvents io, ∃ q j m, e = .dropped q j ∧ q[j]? = some m ∧ m.fd = fd := by
  obtain ⟨es, rfl, hes⟩ := h.lost
  have hsame : Zig.queueEvents (.close fd :: es.map .queue) = es := queueEvents_map_queue es
  rw [hsame]
  exact hes

/-- Nothing joins the queue in a wait: closing loses messages, writing hands one over. -/
theorem Waited.joining (h : Waited s sys r s' io) :
    (queueEvents io).flatMap QueueEvent.joining = [] := by
  have hclosing : ∀ {s s' : State} {fd : Fd} {index : Nat} {io : List Io},
      Departed s index fd s' io → (queueEvents io).flatMap QueueEvent.joining = [] := by
    intro s s' fd index io hdeparted
    rw [List.flatMap_eq_nil_iff]
    intro e he
    obtain ⟨q, j, m, rfl, -⟩ := hdeparted.queueEvents e he
    rfl
  cases h with
  | failed _ => rfl
  | idle _ _ _ _ => rfl
  | served _ _ hserved =>
    cases hserved with
    | accepted _ _ _ _ _ _ => rfl
    | notAccepted _ _ _ => rfl
    | received _ _ _ => rfl
    | unreadable _ _ _ _ => rfl
    | left _ _ _ hdeparted _ _ => exact hclosing hdeparted
    | written _ _ _ _ _ _ _ _ _ => rfl
    | notWritten _ _ _ _ _ _ _ => rfl
    | hungUp _ _ _ hdeparted _ _ => exact hclosing hdeparted
    | invalid _ _ _ _ _ => rfl

/-! ## Errors -/

/-- An answer of the peer that is served, or of the system, is passed on as a Zig error: `poll(2)`,
`accept(2)`, `read(2)` or `write(2)` fails, or the client announces a message that is too long. -/
def Fails (s : State) (sys : WaitSys) : Prop :=
  sys.poll = none ∨ ∃ index p c, StopsAt s sys index p c ∧
    if p.revents.pollin then
      if c.t = .server then ∃ e, sys.accept = .error e
      else sys.read = .error ∨
        ∃ bs, sys.read = .ok bs ∧ 4 < bs.length ∧ ipcMaxMessageSize - 4 < be32At bs 0
    else p.revents.pollout ∧ sys.write = .error

/-- At a given entry, `Fails` is about the answers only. -/
theorem fails_iff (hpoll : sys.poll ≠ none) (hstop : StopsAt s sys index p c) :
    Fails s sys ↔
      if p.revents.pollin then
        if c.t = .server then ∃ e, sys.accept = .error e
        else sys.read = .error ∨
          ∃ bs, sys.read = .ok bs ∧ 4 < bs.length ∧ ipcMaxMessageSize - 4 < be32At bs 0
      else p.revents.pollout ∧ sys.write = .error := by
  constructor
  · rintro (hnone | ⟨index', p', c', hstop', h⟩)
    · exact absurd hnone hpoll
    · obtain ⟨rfl, rfl, rfl⟩ := hstop.unique hstop'
      exact h
  · intro h
    exact .inr ⟨index, p, c, hstop, h⟩

/-- The answers of `read(2)` that are errors. -/
theorem readAnswer_error_iff (fd : Fd) (a : ReadResult) :
    (∃ e, readAnswer fd a = .error e ∧ e ≠ .connectionResetByPeer) ↔
      a = .error ∨ ∃ bs, a = .ok bs ∧ 4 < bs.length ∧ ipcMaxMessageSize - 4 < be32At bs 0 := by
  cases a with
  | reset => simp [readAnswer]
  | error => simp [readAnswer]
  | ok bs =>
    simp only [reduceCtorEq, false_or, ReadResult.ok.injEq, exists_eq_left']
    rcases readAnswer_ok fd bs with ⟨hlen, h⟩ | ⟨hlen, hann, h⟩ | ⟨hlen, hann, h⟩
    · rw [h]
      apply iff_of_false
      · simp
      · omega
    · rw [h]
      refine iff_of_true ⟨_, rfl, ?_⟩ ⟨by omega, by omega⟩
      simp
    · rw [h]
      apply iff_of_false
      · simp
      · omega

/-- Exactly those answers make the wait of a service fail. -/
theorem waitEvent_error_iff (hs : Serves s) (h : s.waitEvent sys = some (r, s', io)) :
    (∃ e, r = .error e) ↔ Fails s sys := by
  cases waitEvent_waited hs h with
  | failed hpoll => exact iff_of_true ⟨_, rfl⟩ (.inl hpoll)
  | idle hpoll hnot _ _ =>
    apply iff_of_false
    · simp
    · rintro (hnone | ⟨index, p, c, hstop, -⟩)
      · rw [hpoll] at hnone
        cases hnone
      · exact hnot index p c hstop
  | @served revents index p c _ _ _ hpoll hstop hserved =>
    rw [fails_iff (by rw [hpoll]; exact Option.some_ne_none _) hstop]
    cases hserved with
    | accepted hin ht haccept _ _ _ => simp [hin, ht, haccept]
    | notAccepted hin ht haccept => simp [hin, ht, haccept]
    | @received m hin ht hread =>
      rw [if_pos hin, if_neg (by simp [ht]), ← readAnswer_error_iff p.fd, hread]
      simp
    | unreadable hin ht hread hne =>
      rw [if_pos hin, if_neg (by simp [ht]), ← readAnswer_error_iff p.fd]
      exact iff_of_true ⟨_, rfl⟩ ⟨_, hread, hne⟩
    | left hin ht hleft _ _ _ =>
      rw [if_pos hin, if_neg (by simp [ht]), ← readAnswer_error_iff p.fd]
      rcases (left_iff p.fd _).mp hleft with hleft | hleft
      · simp [hleft]
      · simp [hleft]
    | written hin _ _ _ _ _ hwrite _ _ => simp [hin, hwrite]
    | notWritten hin hout _ _ _ _ hwrite => simp [hin, hout, hwrite]
    | hungUp hin hout _ _ _ _ => simp [hin, hout]
    | invalid hin hout _ _ _ => simp [hin, hout]

/-! ## Panics -/

/-- The contract of the system: `POLLOUT` is reported only where it was asked for, and a new
descriptor has a number that is not in use. -/
structure Contract (s : State) (sys : WaitSys) : Prop where
  asked : ReportsAsked s sys
  fresh : ∀ fd, sys.accept = .ok fd → fd ∉ s.openFds

/-- Only the entries that there are have to be looked at. -/
theorem reportsAsked_iff : ReportsAsked s sys ↔
    ∀ revents ∈ sys.poll, ∀ x ∈ (pollEntries s.ctx).zipIdx,
      (revents.getD x.2 {}).pollout → x.1.events.pollout := by
  constructor
  · rintro h revents hpoll ⟨p, index⟩ hx
    exact h revents hpoll index p (List.mem_zipIdx_iff_getElem?.mp hx)
  · intro h revents hpoll index p hp
    exact h revents hpoll (p, index) (List.mem_zipIdx_iff_getElem?.mpr hp)

instance : Decidable (Contract s sys) :=
  have : Decidable (ReportsAsked s sys) := decidable_of_iff _ reportsAsked_iff.symm
  have : Decidable (∀ fd, sys.accept = .ok fd → fd ∉ s.openFds) :=
    match haccept : sys.accept with
    | .error _ => isTrue fun _ h => by cases h
    | .ok fd => decidable_of_iff (fd ∉ s.openFds) (by simp)
  decidable_of_iff (ReportsAsked s sys ∧ ∀ fd, sys.accept = .ok fd → fd ∉ s.openFds)
    ⟨fun h => ⟨h.1, h.2⟩, fun h => ⟨h.asked, h.fresh⟩⟩

theorem exists_disconnect (hs : Tidy s) (hp : s.ctx.pollfd[index]? = some p)
    (hc : s.ctx.connections[index]? = some c) (origin : State → Fd) :
    ∃ o, s.disconnect index origin = some o := by
  obtain ⟨s', io, hclose, -⟩ := hs.close (conns_getElem? hc hp)
  exact ⟨_, by rw [State.disconnect, hclose]; rfl⟩

theorem exists_readMessage (hs : Tidy s) (hp : s.ctx.pollfd[index]? = some p)
    (hc : s.ctx.connections[index]? = some c) (a : ReadResult) :
    ∃ o, s.readMessage index p a = some o := by
  unfold State.readMessage
  split
  · exact exists_disconnect hs hp hc _
  · exact ⟨_, rfl⟩
  · exact exists_disconnect hs hp hc _
  · exact ⟨_, rfl⟩

theorem exists_acceptNewClient (hfresh : ∀ fd, sys.accept = .ok fd → fd ∉ s.openFds) :
    ∃ o, s.acceptNewClient p c sys.accept = some o := by
  unfold State.acceptNewClient
  split
  · exact ⟨_, rfl⟩
  · split
    · exact ⟨_, rfl⟩
    · rename_i newfd haccept
      rw [State.addNew, if_neg (hfresh newfd haccept)]
      exact ⟨_, rfl⟩

theorem exists_writeMessage (ht : c.t ≠ .switched) (hqueued : ∃ m ∈ s.ctx.tx, m.fd = p.fd) :
    ∃ o, s.writeMessage index p c sys = some o := by
  obtain ⟨m, hm, hfd⟩ := hqueued
  obtain ⟨i, hi⟩ : ∃ i, s.ctx.tx.findIdx? (fun m => m.fd = p.fd) = some i := by
    rw [← Option.isSome_iff_exists, List.findIdx?_isSome, List.any_eq_true]
    exact ⟨m, hm, decide_eq_true hfd⟩
  obtain ⟨-, m', hm', -⟩ := isFirst_of_findIdx? hi
  simp only [State.writeMessage, hi, hm', if_neg ht, Option.bind_eq_bind, Option.bind_some]
  split
  · exact ⟨_, rfl⟩
  · exact ⟨_, rfl⟩

theorem exists_dispatch (hs : Serves s) (hp : s.ctx.pollfd[index]? = some p)
    (hc : s.ctx.connections[index]? = some c)
    (hfresh : ∀ fd, sys.accept = .ok fd → fd ∉ s.openFds)
    (hqueued : p.revents.pollout → ∃ m ∈ s.ctx.tx, m.fd = p.fd) :
    ∃ o, s.dispatch index p c sys = some o := by
  have htype := hs.types c (List.mem_of_getElem? hc)
  unfold State.dispatch
  split
  · rcases htype with ⟨ht, -⟩ | ht
    · rw [ht]
      exact exists_acceptNewClient hfresh
    · rw [ht]
      exact exists_readMessage hs.toTidy hp hc sys.read
  · split
    · rename_i hout
      apply exists_writeMessage
      · rcases htype with ⟨ht, -⟩ | ht
        · simp [ht]
        · simp [ht]
      · exact hqueued hout
    · split
      · exact exists_disconnect hs.toTidy hp hc _
      · exact ⟨_, rfl⟩

/-- A service whose queue has a message wherever `POLLOUT` is asked for does not panic. -/
theorem exists_waitEvent (hs : Serves s) (harmed : Armed s) (hsys : Contract s sys) :
    ∃ o, s.waitEvent sys = some o := by
  cases hpoll : sys.poll with
  | none =>
    rw [State.waitEvent, hpoll]
    exact ⟨_, rfl⟩
  | some revents =>
    cases hindex : (s.polled revents).ctx.pollfd.findIdx? handled with
    | none =>
      obtain ⟨t, -, hwait⟩ := waitEvent_idle hpoll hindex
      exact ⟨_, hwait⟩
    | some index =>
      have hlt := (List.findIdx?_eq_some_iff_getElem.mp hindex).1
      have hpar : s.ctx.connections.length = (s.polled revents).ctx.pollfd.length :=
        parallel_polled hs.parallel revents
      have hp := List.getElem?_eq_getElem hlt
      have hc := List.getElem?_eq_getElem (show index < s.ctx.connections.length by omega)
      rw [waitEvent_eq_dispatch hpoll hindex hp hc]
      apply exists_dispatch (hs.polled revents) hp hc hsys.fresh
      intro hout
      obtain ⟨q, hq, heq⟩ := getElem?_polled hp
      rw [heq] at hout ⊢
      exact harmed.prepared.queued q (List.mem_of_getElem? hq)
        (hsys.asked revents hpoll index q hq hout)

/-- Only new descriptors are tracked. -/
theorem addsNew_of_waited (hs : Serves s) (h : Waited s sys r s' io) :
    AddsNew s (.waitEvent sys) := by
  intro index p c hstop hin ht fd haccept
  cases h with
  | failed hnone =>
    obtain ⟨revents, hpoll, -⟩ := hstop
    rw [hpoll] at hnone
    cases hnone
  | idle _ hnot _ _ => exact absurd hstop (hnot index p c)
  | served _ hstop' hserved =>
    obtain ⟨rfl, rfl, rfl⟩ := hstop.unique hstop'
    cases hserved with
    | accepted _ _ haccept' hnew _ _ =>
      obtain rfl : fd = _ := Except.ok.inj (haccept.symm.trans haccept')
      exact fun hmem => hnew (hs.isOpen fd hmem)
    | notAccepted _ _ haccept' => cases haccept.symm.trans haccept'
    | received _ hipc _ => cases ht.symm.trans hipc
    | unreadable _ hipc _ _ => cases ht.symm.trans hipc
    | left _ hipc _ _ _ _ => cases ht.symm.trans hipc
    | written hnot _ _ _ _ _ _ _ _ => exact absurd hin hnot
    | notWritten hnot _ _ _ _ _ _ => exact absurd hin hnot
    | hungUp hnot _ _ _ _ _ => exact absurd hin hnot
    | invalid hnot _ _ _ _ => exact absurd hin hnot

end

end LibIpc.Zig

import LibIpc.C.Service

/-!
# The echo service (`examples/pongd.c`)

`pongd` sends back every message it receives. `Pongd.round` is one round of its main loop: wait for
an event, then handle it. A run is a sequence of rounds, each with the answers of the environment;
`Round` lists what a round can do, and everything below is by cases on it.
-/

namespace LibIpc.C

open Lib

/-! ## The main loop -/

/-- `base_timer`. -/
def baseTimer : Int := 10000

/-- What `main_loop` keeps from one round to the next; `exited` once it has called `exit`. -/
structure Pongd where
  ctx : IpcCtx
  timer : Int := baseTimer
  cpt : Int := 0
  exited : Bool := false

/-- What can be seen of a round: the event, and what the library did. -/
inductive PongdIo where
  | event (e : IpcEvent)
  | io (x : Io)

/-- What `main_loop` does with an event. -/
def Pongd.handle (s : Pongd) (event : IpcEvent) : Option (Pongd × List Io) :=
  match event.type with
  | .connection => (toInt (s.cpt + 1)).map fun cpt => ({ s with cpt := cpt }, [])
  | .disconnection | .error => (toInt (s.cpt - 1)).map fun cpt => ({ s with cpt := cpt }, [])
  | .message => do
    let m ← event.m
    -- An error is printed, nothing else.
    let (_, ctx, io) ← ipcWrite s.ctx m
    return ({ s with ctx := ctx }, io)
  | .timer => some ({ s with timer := baseTimer }, [])
  | _ => some (s, [])

/-- A round of `main_loop`, which `TEST_IPC_WAIT_EVENT_Q` ends on an error. -/
def Pongd.round (s : Pongd) (sys : WaitSys) : Option (Pongd × List PongdIo) :=
  if s.exited then none
  else do
    let (r, ctx, event, timer, io) ← ipcWaitEvent s.ctx s.timer sys
    let s := { s with ctx := ctx, timer := timer }
    if r ≠ .none ∧ r ≠ .closedRecipient then
      return ({ s with exited := true }, io.map .io)
    else
      let (s, io') ← s.handle event
      return (s, io.map .io ++ .event event :: io'.map .io)

/-- `PONGD_SERVICE_NAME`. -/
def pongdServiceName : List Byte := "pong".toUTF8.toList

/-- The service once `ipc_server_init` has opened its socket. -/
def Pongd.start (rundir : Option (List Byte)) (fd : Fd) : Pongd :=
  { ctx := (ipcServerInit {} rundir pongdServiceName (.ok fd)).2 }

/-- The states of a running service. -/
def Pongd.Reached (s : Pongd) : Prop := ∃ rundir fd, Reachable Pongd.round (.start rundir fd) s

/-! ## Logs -/

/-- What the library did. -/
def libraryIo (log : List PongdIo) : List Io :=
  log.filterMap fun
    | .io x => some x
    | .event _ => none

/-- The messages received. -/
def receivedMessages (log : List PongdIo) : List IpcMessage :=
  log.filterMap fun
    | .io _ => none
    | .event e => if e.type = .message then e.m else none

@[simp] theorem libraryIo_append (a b : List PongdIo) :
    libraryIo (a ++ b) = libraryIo a ++ libraryIo b := by
  simp [libraryIo]

@[simp] theorem libraryIo_map_io (io : List Io) : libraryIo (io.map .io) = io := by
  simp [libraryIo, List.filterMap_map]

@[simp] theorem libraryIo_cons_event (e : IpcEvent) (log : List PongdIo) :
    libraryIo (.event e :: log) = libraryIo log := rfl

@[simp] theorem receivedMessages_append (a b : List PongdIo) :
    receivedMessages (a ++ b) = receivedMessages a ++ receivedMessages b := by
  simp [receivedMessages]

@[simp] theorem receivedMessages_map_io (io : List Io) :
    receivedMessages (io.map .io) = [] := by
  simp [receivedMessages, List.filterMap_map]

/-! ## What a round does -/

/-- What a round does, when the wait leaves `t` on the timer: it exits; nothing is ready; a client
is accepted; a message is received and queued to be sent back; a client has left; a message is sent;
a peer has hung up; a descriptor is in error. -/
inductive Round (s : Pongd) (v : View) (sys : WaitSys) (t : Int) :
    Pongd → View → List PongdIo → Prop
  | exits {w : View} {io : List Io} : (queueEvents io).flatMap QueueEvent.joining = [] →
      transmissions io = [] →
      Round s v sys t { s with ctx := .ofView w, timer := t, exited := true } w (io.map .io)
  | idle {revents : List PollEvents} {w : View} {event : IpcEvent} : sys.poll = some revents →
      (v.polled revents).conns.findIdx? handled = none → v.Same w →
      event.type = .timer ∧ s.timer ≠ 0 ∨ event.type = .notSet →
      Round s v sys t
        { s with ctx := .ofView w, timer := if event.type = .timer then baseTimer else t } w
        [.event event]
  | accepted {revents : List PollEvents} {i : Nat} {e : IpcConnectionInfo × PollFd} {w : View} :
      sys.poll = some revents → (v.polled revents).conns.findIdx? handled = some i →
      (v.polled revents).conns[i]? = some e → readable e → e.1.type = .server → 0 ≤ sys.accept →
      w = { v.polled revents with
        conns := ((v.polled revents).touch i e 0 e.2).conns ++
          [({}, { fd := sys.accept, events := { pollin := true } })] } →
      Round s v sys t { s with ctx := .ofView w, timer := t, cpt := s.cpt + 1 } w
        [.event { type := .connection, index := v.conns.length, origin := sys.accept, m := none }]
  | echoed {revents : List PollEvents} {i : Nat} {e : IpcConnectionInfo × PollFd} {w : View}
      {m : IpcMessage} {rest : List RecvResult} :
      sys.poll = some revents → (v.polled revents).conns.findIdx? handled = some i →
      (v.polled revents).conns[i]? = some e → readable e → e.1.type = .ipc →
      ipcReadFd default sys.recv = .returned (.ok m) rest →
      Queued ((v.polled revents).touch i e 0 e.2) { m with fd := e.2.fd }
        [.queued (deepCopy { m with fd := e.2.fd })] w →
      Round s v sys t { s with ctx := .ofView w, timer := t } w
        [.event { type := .message, index := i, origin := e.2.fd, m := some { m with fd := e.2.fd } },
          .io (.queue (.queued (deepCopy { m with fd := e.2.fd })))]
  | left {revents : List PollEvents} {i : Nat} {e : IpcConnectionInfo × PollFd} {w₁ w : View}
      {event : IpcEvent} {rest : List RecvResult} {es₁ es₂ : List (QueueEvent IpcMessage)} :
      sys.poll = some revents → (v.polled revents).conns.findIdx? handled = some i →
      (v.polled revents).conns[i]? = some e → readable e → e.1.type = .ipc →
      ipcReadFd default sys.recv = .returned (.error .closedRecipient) rest →
      ClosedAt ((v.polled revents).touch i e 0 e.2) i ({ e.1 with moreToRead := 0 }, e.2) es₁ w₁ →
      Deleted w₁ i e.2.fd es₂ w → Drops (es₁ ++ es₂) → event.type = .disconnection →
      event.origin = e.2.fd →
      Round s v sys t { s with ctx := .ofView w, timer := t, cpt := s.cpt - 1 } w
        ((closedFd e ++ (es₁ ++ es₂).map Io.queue).map .io ++ [.event event])
  | written {revents : List PollEvents} {i : Nat} {e : IpcConnectionInfo × PollFd} {w : View}
      {event : IpcEvent} {io : List Io} :
      sys.poll = some revents → (v.polled revents).conns.findIdx? handled = some i →
      (v.polled revents).conns[i]? = some e → event.type = .tx →
      Served (v.polled revents) i e sys .none event w io →
      Round s v sys t { s with ctx := .ofView w, timer := t } w (io.map .io ++ [.event event])
  | hungUp {revents : List PollEvents} {i : Nat} {e : IpcConnectionInfo × PollFd} {w : View}
      {event : IpcEvent} {es : List (QueueEvent IpcMessage)} :
      sys.poll = some revents → (v.polled revents).conns.findIdx? handled = some i →
      (v.polled revents).conns[i]? = some e → ¬ readable e → ¬ e.2.revents.pollout →
      ClosedAt (v.polled revents) i e es w → Drops es → event.type = .disconnection →
      event.origin = e.2.fd →
      Round s v sys t { s with ctx := .ofView w, timer := t, cpt := s.cpt - 1 } w
        ((closedFd e ++ es.map Io.queue).map .io ++ [.event event])
  | failed {revents : List PollEvents} {i : Nat} {e : IpcConnectionInfo × PollFd}
      {event : IpcEvent} :
      sys.poll = some revents → (v.polled revents).conns.findIdx? handled = some i →
      (v.polled revents).conns[i]? = some e → ¬ readable e → ¬ e.2.revents.pollout →
      event.type = .error → event.origin = e.2.fd →
      Round s v sys t
        { s with ctx := .ofView (v.polled revents), timer := t, cpt := s.cpt - 1 } (v.polled revents)
        [.event event]

section
variable {s s' : Pongd} {v : View} {sys : WaitSys} {log : List PongdIo}

theorem mem_fds_of_getElem? {i : Nat} {e : IpcConnectionInfo × PollFd} (h : v.conns[i]? = some e) :
    e.2.fd ∈ v.fds :=
  List.mem_map_of_mem (f := fun e => e.2.fd) (List.mem_of_getElem? h)

/-- A reply to a client that is tracked is queued. -/
theorem ipcWrite_tracked {m : IpcMessage} (hm : m.fd ∈ v.fds) :
    ∃ r w, ipcWrite (.ofView v) m = some (r, .ofView w, [.queue (.queued (deepCopy m))]) ∧
      Queued v m [.queued (deepCopy m)] w := by
  obtain ⟨r, w, es, hwrite, hqueued⟩ := ipcWrite_ofView v m
  obtain ⟨-, rfl, -⟩ | ⟨habsent, -⟩ := hqueued.tx
  · exact ⟨r, w, hwrite, hqueued⟩
  · exact absurd hm habsent

/-- A call that does not queue. -/
theorem Served.joining {i : Nat} {e : IpcConnectionInfo × PollFd} {r : IpcErrorCode}
    {event : IpcEvent} {w : View} {io : List Io} (h : Served v i e sys r event w io) :
    (queueEvents io).flatMap QueueEvent.joining = [] := by
  cases h with
  | accepted _ _ _ => rfl
  | notAccepted _ _ _ _ _ => rfl
  | received _ _ _ => rfl
  | left _ _ _ _ _ hdrops _ _ _ =>
    rw [queueEvents_append, queueEvents_closedFd, queueEvents_map_queue]
    exact hdrops.joining
  | @written event p found es tx io _ _ _ hpopped hes hlog _ _ =>
    obtain ⟨rfl, -⟩ := writingLog_spec hpopped hes hlog
    generalize queueEvents io = es at hpopped
    generalize found.map Prod.snd = m at hpopped
    cases hpopped with
    | empty _ => rfl
    | first _ _ _ => rfl
  | hungUp _ _ _ _ _ hdrops _ _ =>
    rw [queueEvents_append, queueEvents_closedFd, queueEvents_map_queue]
    exact hdrops.joining
  | failed _ _ _ _ _ => rfl

/-- A call that fails does not send. -/
theorem Served.transmissions_eq_nil {i : Nat} {e : IpcConnectionInfo × PollFd} {r : IpcErrorCode}
    {event : IpcEvent} {w : View} {io : List Io} (h : Served v i e sys r event w io)
    (hr : r ≠ .none) : transmissions io = [] := by
  cases h with
  | accepted _ _ _ => rfl
  | notAccepted _ _ _ _ _ => rfl
  | received _ _ _ => rfl
  | left _ _ _ _ _ _ _ _ _ =>
    rw [transmissions_append, transmissions_closedFd, transmissions_map_queue]
    rfl
  | written _ _ _ _ _ _ _ _ => exact absurd rfl hr
  | hungUp _ _ _ _ _ _ _ _ =>
    rw [transmissions_append, transmissions_closedFd, transmissions_map_queue]
    rfl
  | failed _ _ _ _ _ => rfl

/-- A new client is counted. -/
theorem handle_connection {event : IpcEvent} {io : List Io} (htype : event.type = .connection)
    (h : s.handle event = some (s', io)) : s' = { s with cpt := s.cpt + 1 } ∧ io = [] := by
  simp only [Pongd.handle, htype] at h
  obtain ⟨cpt, hcpt, h⟩ := Option.map_eq_some_iff.mp h
  cases h
  rw [(toInt_eq_some_iff.mp hcpt).2]
  exact ⟨rfl, rfl⟩

/-- Whatever is reported of a client that is gone, it is counted off. -/
theorem handle_gone {event : IpcEvent} {io : List Io}
    (htype : event.type = .disconnection ∨ event.type = .error)
    (h : s.handle event = some (s', io)) : s' = { s with cpt := s.cpt - 1 } ∧ io = [] := by
  have hcount : (toInt (s.cpt - 1)).map (fun cpt => (({ s with cpt := cpt } : Pongd), ([] : List Io)))
      = some (s', io) := by
    rcases htype with htype | htype
    · simpa only [Pongd.handle, htype] using h
    · simpa only [Pongd.handle, htype] using h
  obtain ⟨cpt, hcpt, h⟩ := Option.map_eq_some_iff.mp hcount
  cases h
  rw [(toInt_eq_some_iff.mp hcpt).2]
  exact ⟨rfl, rfl⟩

/-- The wait of a round, and what becomes of its event. -/
theorem round_eq_some (h : s.round sys = some (s', log)) :
    s.exited = false ∧ ∃ r ctx event t io, ipcWaitEvent s.ctx s.timer sys = some (r, ctx, event, t, io) ∧
      ((r ≠ .none ∧ r ≠ .closedRecipient) ∧
          s' = { s with ctx := ctx, timer := t, exited := true } ∧ log = io.map .io ∨
        ¬ (r ≠ .none ∧ r ≠ .closedRecipient) ∧ ∃ io',
          ({ s with ctx := ctx, timer := t } : Pongd).handle event = some (s', io') ∧
            log = io.map .io ++ .event event :: io'.map .io) := by
  unfold Pongd.round at h
  split at h
  · cases h
  · rename_i hrunning
    obtain ⟨⟨r, ctx, event, t, io⟩, hwait, h⟩ := Option.bind_eq_some_iff.mp h
    refine ⟨by simpa using hrunning, r, ctx, event, t, io, hwait, ?_⟩
    simp only [Option.bind_eq_bind, Option.pure_def] at h
    split at h
    · rename_i hr
      cases h
      exact .inl ⟨hr, rfl, rfl⟩
    · rename_i hr
      obtain ⟨⟨s₁, io'⟩, hhandle, h⟩ := Option.bind_eq_some_iff.mp h
      cases h
      exact .inr ⟨hr, io', hhandle, rfl⟩

/-- Everything a round can do. -/
theorem round_cases (hctx : s.ctx = .ofView v) (hv : v.Serves) (h : s.round sys = some (s', log)) :
    ∃ w t, s'.ctx = .ofView w ∧ w.Serves ∧
      (if sys.poll = none then t = s.timer else timerAfter s.timer sys.tv₁ sys.tv₂ = some t) ∧
      Round s v sys t s' w log := by
  obtain ⟨-, r, ctx, event, t, io, hwait, hnext⟩ := round_eq_some h
  rw [hctx] at hwait
  have htimer := ipcWaitEvent_timerLeft hwait
  obtain ⟨w, rfl, hcase⟩ := ipcWaitEvent_served hv hwait
  rcases hcase with ⟨hsame, rfl, -, rfl⟩ | ⟨revents, hpoll, hfind, hsame, rfl, rfl, htype⟩ |
    ⟨revents, i, e, hpoll, hfind, hget, hserved⟩
  · rcases hnext with ⟨-, rfl, rfl⟩ | ⟨hnone, -⟩
    · exact ⟨w, t, rfl, hsame.serves hv, htimer, .exits rfl rfl⟩
    · exact absurd ⟨by simp, by simp⟩ hnone
  · have hidle : Round s v sys t _ w [.event event] := Round.idle hpoll hfind hsame htype
    rcases hnext with ⟨hne, -⟩ | ⟨-, io', hhandle, rfl⟩
    · exact absurd rfl hne.1
    · rcases htype with ⟨htype, -⟩ | htype
      · simp only [Pongd.handle, htype, Option.some.injEq, Prod.mk.injEq] at hhandle
        obtain ⟨rfl, rfl⟩ := hhandle
        rw [if_pos htype] at hidle
        exact ⟨w, t, rfl, hsame.serves hv, htimer, hidle⟩
      · simp only [Pongd.handle, htype, Option.some.injEq, Prod.mk.injEq] at hhandle
        obtain ⟨rfl, rfl⟩ := hhandle
        rw [if_neg (by simp [htype])] at hidle
        exact ⟨w, t, rfl, hsame.serves hv, htimer, hidle⟩
  · have hpolled := hv.polled revents
    have hserves := hserved.serves hpolled hget
    rcases hnext with ⟨hr, rfl, rfl⟩ | ⟨hnone, io', hhandle, rfl⟩
    · exact ⟨w, t, rfl, hserves, htimer, .exits hserved.joining (hserved.transmissions_eq_nil hr.1)⟩
    · cases hserved with
      | accepted hread ht haccept =>
        obtain ⟨rfl, rfl⟩ := handle_connection rfl hhandle
        have hlen : (v.polled revents).conns.length = v.conns.length := by
          simp [View.polled, storeRevents, pollEntries]
        rw [hlen]
        exact ⟨_, t, rfl, hserves, htimer, .accepted hpoll hfind hget hread ht haccept rfl⟩
      | notAccepted _ _ _ _ _ => exact absurd ⟨by simp, by simp⟩ hnone
      | @received m rest hread ht hrecv =>
        have hfd : ({ m with fd := e.2.fd } : IpcMessage).fd ∈
            ((v.polled revents).touch i e 0 e.2).fds := by
          rw [fds_touch hget 0 rfl]
          exact mem_fds_of_getElem? hget
        obtain ⟨r', w', hwrite, hqueued⟩ := ipcWrite_tracked hfd
        simp only [Pongd.handle, Option.bind_eq_bind, Option.bind_some, hwrite, Option.pure_def,
          Option.some.injEq, Prod.mk.injEq] at hhandle
        obtain ⟨rfl, rfl⟩ := hhandle
        refine ⟨w', t, rfl, ?_, htimer, .echoed hpoll hfind hget hread ht hrecv hqueued⟩
        exact hqueued.serves hserves
      | @left r c event rest es₁ es₂ w₁ w₂ hread ht hrecv hclosed hdeleted hdrops hr htype horigin =>
        by_cases hc : c = .closedRecipient
        · subst hc
          rw [if_pos rfl] at htype
          obtain ⟨rfl, rfl⟩ := handle_gone (.inl htype) hhandle
          exact ⟨w, t, rfl, hserves, htimer,
            .left hpoll hfind hget hread ht hrecv hclosed hdeleted hdrops htype horigin⟩
        · rw [if_neg hc] at hr
          subst hr
          have hcode := ipcReadFd_error_ne_none hrecv
          exact absurd ⟨hcode, hc⟩ hnone
      | written hread hout hp hpopped hes hlog htype horigin =>
        simp only [Pongd.handle, htype, Option.some.injEq, Prod.mk.injEq] at hhandle
        obtain ⟨rfl, rfl⟩ := hhandle
        exact ⟨_, t, rfl, hserves, htimer, .written hpoll hfind hget htype
          (.written hread hout hp hpopped hes hlog htype horigin)⟩
      | hungUp hread hout hhup hclose hclosed hdrops htype horigin =>
        obtain ⟨rfl, rfl⟩ := handle_gone (.inl htype) hhandle
        exact ⟨w, t, rfl, hserves, htimer,
          .hungUp hpoll hfind hget hread hout hclosed hdrops htype horigin⟩
      | failed hread hout hhup htype horigin =>
        obtain ⟨rfl, rfl⟩ := handle_gone (.inr htype) hhandle
        exact ⟨_, t, rfl, hserves, htimer, .failed hpoll hfind hget hread hout htype horigin⟩

end

end LibIpc.C

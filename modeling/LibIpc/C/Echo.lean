import LibIpc.C.Pongd
import LibIpc.C.Teardown

/-!
# What `pongd` does over whole runs

* `echoes_of_run` — every message received from a client is, as the copy `ipc_write` makes, handed
  over to be sent to that client, lost with its connection, or still waiting, exactly once; and
  nothing else is sent to it.
* `counts_iff` — `cpt` is the number of clients unless a wait ends on a hang-up or an error.
* `survives_delivery_iff` — two frames in one `recv(2)` answer end the service.
* `timer_stays_dead` — once the timer is at zero it never fires again.
-/

namespace LibIpc.C

open Lib

section
variable {s s' : Pongd} {v w : View} {sys : WaitSys} {syss : List WaitSys} {log : List PongdIo}
  {t : Int}

/-! ## Reachable states -/

theorem start_ctx (rundir : Option (List Byte)) (fd : Fd) :
    ∃ v, (Pongd.start rundir fd).ctx = .ofView v ∧ v.Serves ∧ v.fds = [fd] ∧
      ∀ e ∈ v.conns, e.1.moreToRead = 0 := by
  refine ⟨_, ipcAdd_ofView {} _ _, ⟨?_, ?_⟩, rfl, ?_⟩
  · intro m hm
    cases hm
  · intro e he
    obtain rfl := List.mem_singleton.mp he
    exact .inl rfl
  · intro e he
    obtain rfl := List.mem_singleton.mp he
    rfl

/-- The context of a running service has servers and clients only. -/
theorem Pongd.Reached.exists_view (h : s.Reached) : ∃ v, s.ctx = .ofView v ∧ v.Serves := by
  obtain ⟨rundir, fd, h⟩ := h
  refine Reachable.invariant (P := fun s : Pongd => ∃ v, s.ctx = .ofView v ∧ v.Serves) ?_ ?_ h
  · rintro s sys s' log ⟨v, hctx, hv⟩ hround
    obtain ⟨w, t, hctx', hw, -, -⟩ := round_cases hctx hv hround
    exact ⟨w, hctx', hw⟩
  · obtain ⟨v, hctx, hv, -, -⟩ := start_ctx rundir fd
    exact ⟨v, hctx, hv⟩

/-- Only a message makes `main_loop` call the library. -/
theorem handle_calls {event : IpcEvent} {io : List Io} (h : s.handle event = some (s', io)) :
    ∃ cs, runAll step s.ctx cs = some (s'.ctx, io) := by
  have hcount : ∀ x : Option Int, x.map (fun cpt => (({ s with cpt := cpt } : Pongd), ([] : List Io)))
      = some (s', io) → ∃ cs, runAll step s.ctx cs = some (s'.ctx, io) := by
    intro x hx
    obtain ⟨cpt, -, hx⟩ := Option.map_eq_some_iff.mp hx
    cases hx
    exact ⟨[], rfl⟩
  unfold Pongd.handle at h
  split at h
  · exact hcount _ h
  · exact hcount _ h
  · exact hcount _ h
  · obtain ⟨m, -, h⟩ := Option.bind_eq_some_iff.mp h
    obtain ⟨⟨r, ctx, io'⟩, hwrite, h⟩ := Option.bind_eq_some_iff.mp h
    cases h
    refine ⟨[.write m], ?_⟩
    simp only [runAll, step, hwrite, Option.map_some, Option.bind_some, List.append_nil]
  · cases h
    exact ⟨[], rfl⟩
  · cases h
    exact ⟨[], rfl⟩

/-- A round is a wait, and possibly an `ipc_write`. -/
theorem round_calls (h : s.round sys = some (s', log)) :
    ∃ cs, runAll step s.ctx cs = some (s'.ctx, libraryIo log) := by
  obtain ⟨-, r, ctx, event, t, io, hwait, hnext⟩ := round_eq_some h
  have hstep : step s.ctx (.waitEvent s.timer sys) = some (ctx, io) := by
    simp only [step, hwait, Option.map_some]
  rcases hnext with ⟨-, rfl, rfl⟩ | ⟨-, io', hhandle, rfl⟩
  · refine ⟨[.waitEvent s.timer sys], ?_⟩
    simp only [runAll, hstep, Option.bind_some, Option.map_some, List.append_nil,
      libraryIo_map_io]
  · obtain ⟨cs, hcs⟩ := handle_calls hhandle
    have hcs : runAll step ctx cs = some (s'.ctx, io') := hcs
    refine ⟨.waitEvent s.timer sys :: cs, ?_⟩
    simp only [runAll, hstep, Option.bind_some, hcs, Option.map_some, libraryIo_append,
      libraryIo_cons_event, libraryIo_map_io]

/-- A run of the service is a run of the library. -/
theorem run_calls (hrun : runAll Pongd.round s syss = some (s', log)) :
    ∃ cs, runAll step s.ctx cs = some (s'.ctx, libraryIo log) := by
  have hind := runAll_induction (G := fun _ _ => True) (P := fun _ => True)
    (Q := fun s log s' => ∃ cs, runAll step s.ctx cs = some (s'.ctx, libraryIo log))
    (fun s _ => ⟨[], rfl⟩) ?_ trivial (runMeets_true s syss) hrun
  · exact hind.2
  · intro s sys s₁ log₁ _ _ hround
    refine ⟨trivial, ?_⟩
    rintro log₂ s₂ ⟨cs₂, hcs₂⟩
    obtain ⟨cs₁, hcs₁⟩ := round_calls hround
    refine ⟨cs₁ ++ cs₂, ?_⟩
    rw [runAll_append, hcs₁, Option.bind_some, hcs₂, Option.map_some, libraryIo_append]

theorem Pongd.Reached.reachableCtx (h : s.Reached) : ReachableCtx s.ctx := by
  obtain ⟨rundir, fd, syss, log, hrun⟩ := h
  obtain ⟨cs, hcs⟩ := run_calls hrun
  refine ⟨.serverInit rundir pongdServiceName (.ok fd) :: cs, libraryIo log, ?_⟩
  simp only [runAll, step, Option.bind_some]
  rw [show runAll step (ipcServerInit {} rundir pongdServiceName (.ok fd)).2 cs = _ from hcs]
  rfl

/-! ## Back to the sender -/

/-- The messages received on `fd`. -/
def receivedOn (fd : Fd) (log : List PongdIo) : List IpcMessage :=
  log.filterMap fun
    | .io _ => none
    | .event e => if e.type = .message ∧ e.origin = fd then e.m else none

/-- In a part of a run the copies of the messages received join the queue, nothing else does, and
each has the descriptor it came from. -/
structure Echoed (log : List PongdIo) : Prop where
  joining : (queueEvents (libraryIo log)).flatMap QueueEvent.joining =
    (receivedMessages log).map deepCopy
  origins : ∀ e, .event e ∈ log → e.type = .message → ∀ m ∈ e.m, m.fd = e.origin

theorem Echoed.append {log' : List PongdIo} (h : Echoed log) (h' : Echoed log') :
    Echoed (log ++ log') where
  joining := by
    rw [libraryIo_append, queueEvents_append, List.flatMap_append, h.joining, h'.joining,
      receivedMessages_append, List.map_append]
  origins := by
    intro e he
    rcases List.mem_append.mp he with he | he
    · exact h.origins e he
    · exact h'.origins e he

/-- The log of a wait that does not bring a message. -/
theorem echoed_of_event {io : List Io} {event : IpcEvent}
    (hjoining : (queueEvents io).flatMap QueueEvent.joining = []) (htype : event.type ≠ .message) :
    Echoed (io.map .io ++ [.event event]) where
  joining := by
    have hlibrary : libraryIo (io.map .io ++ [.event event]) = io := by
      simp [libraryIo, List.filterMap_map]
    rw [hlibrary, hjoining]
    simp [receivedMessages, htype, List.filterMap_map]
  origins := by
    intro e he hmessage
    obtain rfl : e = event := by simpa using he
    exact absurd hmessage htype

/-- What a round queues. -/
theorem round_echoed (h : Round s v sys t s' w log) : Echoed log := by
  cases h with
  | @exits w io hjoining _ =>
    constructor
    · rw [libraryIo_map_io, hjoining, receivedMessages_map_io]
      rfl
    · intro e he
      simp at he
  | @idle revents w event _ _ hsame htype =>
    refine @echoed_of_event [] event rfl ?_
    rcases htype with ⟨htype, -⟩ | htype
    · simp [htype]
    · simp [htype]
  | accepted _ _ _ _ _ _ _ => exact @echoed_of_event [] _ rfl (by simp)
  | echoed _ _ _ _ _ _ _ =>
    refine ⟨rfl, ?_⟩
    intro e' he' _ m' hm'
    simp only [List.mem_cons, PongdIo.event.injEq, List.not_mem_nil, or_false, reduceCtorEq] at he'
    subst he'
    cases hm'
    rfl
  | left _ _ hget hread ht hrecv hclosed hdeleted hdrops htype horigin =>
    have hserved := Served.left hread ht hrecv hclosed hdeleted hdrops rfl htype horigin
    exact echoed_of_event hserved.joining (by simp [htype])
  | written _ _ _ htype hserved => exact echoed_of_event hserved.joining (by simp [htype])
  | @hungUp revents i e w event es _ _ _ _ _ _ hdrops htype _ =>
    have hjoining : (queueEvents (closedFd e ++ es.map Io.queue)).flatMap QueueEvent.joining = [] := by
      rw [queueEvents_append, queueEvents_closedFd, queueEvents_map_queue]
      exact hdrops.joining
    exact echoed_of_event hjoining (by simp [htype])
  | failed _ _ _ _ _ htype _ => exact @echoed_of_event [] _ rfl (by simp [htype])

theorem echoed_of_run (hs : ∃ v, s.ctx = .ofView v ∧ v.Serves)
    (hrun : runAll Pongd.round s syss = some (s', log)) : Echoed log := by
  have hind := runAll_induction (G := fun _ _ => True)
    (P := fun s : Pongd => ∃ v, s.ctx = .ofView v ∧ v.Serves)
    (Q := fun _ log _ => Echoed log) (fun _ _ => ⟨rfl, by simp⟩) ?_ hs (runMeets_true s syss) hrun
  · exact hind.2
  · rintro s sys s₁ log₁ ⟨v, hctx, hv⟩ - hround
    obtain ⟨w, t, hctx₁, hw, -, hcase⟩ := round_cases hctx hv hround
    exact ⟨⟨w, hctx₁, hw⟩, fun _ _ hrest => (round_echoed hcase).append hrest⟩

/-- The copies of the messages received on a descriptor. -/
theorem Echoed.queuedIn (h : Echoed log) (fd : Fd) :
    queuedIn IpcMessage.fd fd (queueEvents (libraryIo log)) =
      (receivedOn fd log).map deepCopy := by
  rw [Lib.queuedIn, h.joining, lane, List.filter_map]
  congr 1
  have horigins := h.origins
  clear h
  induction log with
  | nil => rfl
  | cons x log ih =>
    have hrest := ih fun e he => horigins e (List.mem_cons_of_mem _ he)
    cases x with
    | io x => simpa [receivedMessages, receivedOn] using hrest
    | event e =>
      have he := horigins e (by simp)
      by_cases htype : e.type = .message
      · cases hm : e.m with
        | none => simpa [receivedMessages, receivedOn, htype, hm] using hrest
        | some m =>
          have hfd : m.fd = e.origin := he htype m hm
          by_cases hon : e.origin = fd
          · simpa [receivedMessages, receivedOn, htype, hm, hfd, hon, deepCopy] using hrest
          · simpa [receivedMessages, receivedOn, htype, hm, hfd, hon, deepCopy] using hrest
      · simpa [receivedMessages, receivedOn, htype] using hrest

/-- Nothing waits for a descriptor that is not tracked. -/
theorem waiting_eq_nil (hv : v.Tracked) {fd : Fd} (hfd : fd ∉ v.fds) :
    (IpcCtx.ofView v).waiting fd = [] := by
  rw [IpcCtx.waiting, queue_ofView, lane_eq_nil]
  rintro m hm rfl
  exact hfd (View.tracked_iff.mp hv m hm)

/-- A client on descriptor 5 is accepted, sends `"hi"`, and is sent it back. -/
def oneEcho : List WaitSys :=
  [{ poll := some [{ pollin := true }], accept := 5 },
    { poll := some [{}, { pollin := true }], recv := [.ok [2, 0, 0, 0, 2, 42, 104, 105]] },
    { poll := some [{}, { pollout := true }], send := .sent 8 }]

theorem length_swapRemove_of_getElem? {es : List (IpcConnectionInfo × PollFd)} {i : Nat}
    {e : IpcConnectionInfo × PollFd} (h : es[i]? = some e) :
    ((swapRemove es i).length : Int) = es.length - 1 := by
  obtain ⟨hlt, -⟩ := List.getElem?_eq_some_iff.mp h
  rw [length_swapRemove]
  omega

theorem length_polled (v : View) (revents : List PollEvents) :
    (v.polled revents).conns.length = v.conns.length := by
  simp [View.polled, storeRevents, pollEntries]

/-- The entry of the context handled by a hang-up or an error, on a view. -/
theorem handledByHangup_iff {revents : List PollEvents} {i : Nat}
    {e : IpcConnectionInfo × PollFd} (hpoll : sys.poll = some revents)
    (hfind : (v.polled revents).conns.findIdx? handled = some i)
    (hget : (v.polled revents).conns[i]? = some e) :
    HandledByHangup (.ofView v) sys ↔ ¬ readable e ∧ ¬ e.2.revents.pollout := by
  have hfind? := find?_of_findIdx? hfind hget
  unfold HandledByHangup
  simp only [hpoll, Option.mem_def, Option.some.injEq, exists_eq_left', polledEntries_ofView,
    hfind?]

theorem not_handledByHangup {revents : List PollEvents} (hpoll : sys.poll = some revents)
    (hfind : (v.polled revents).conns.findIdx? handled = none) :
    ¬ HandledByHangup (.ofView v) sys := by
  have hfind? : (v.polled revents).conns.find? handled = none := by
    rw [List.find?_eq_none]
    rw [List.findIdx?_eq_none_iff] at hfind
    intro e he
    rw [hfind e he]
    exact Bool.false_ne_true
  unfold HandledByHangup
  simp only [hpoll, Option.mem_def, Option.some.injEq, exists_eq_left', polledEntries_ofView,
    hfind?, reduceCtorEq, false_and, exists_false, not_false_eq_true]

theorem View.Same.length {v w : View} (h : v.Same w) : w.conns.length = v.conns.length := by
  have hlen := congrArg List.length h.info
  simpa [View.info] using hlen

theorem Queued.length {m : IpcMessage} {es : List (QueueEvent IpcMessage)} (h : Queued v m es w) :
    w.conns.length = v.conns.length := by
  have hlen := congrArg List.length h.info
  simpa [View.info] using hlen

theorem ClosedAt.length {i : Nat} {e : IpcConnectionInfo × PollFd}
    {es : List (QueueEvent IpcMessage)} (h : ClosedAt v i e es w) :
    w.conns.length = v.conns.length := by
  obtain ⟨path, hconns⟩ := h.conns
  rw [hconns, List.length_set]

/-- A round never counts more clients than there are, and counts too few when it ends on a hang-up
or an error. -/
theorem round_counts (hctx : s.ctx = .ofView v) (hrunning : s'.exited = false)
    (h : Round s v sys t s' w log) :
    s'.cpt - w.conns.length ≤ s.cpt - v.conns.length ∧
      (s'.cpt - w.conns.length = s.cpt - v.conns.length ↔ ¬ HandledByHangup s.ctx sys) := by
  rw [hctx]
  have hlen := length_polled v
  cases h with
  | exits _ _ => cases hrunning
  | @idle revents w event hpoll hfind hsame htype =>
    have hnot := not_handledByHangup hpoll hfind
    rw [hsame.length]
    exact ⟨Int.le_refl _, iff_of_true rfl hnot⟩
  | @accepted revents i e w hpoll hfind hget hread ht haccept hw =>
    rw [handledByHangup_iff hpoll hfind hget, hw]
    have hnew : (((v.polled revents).touch i e 0 e.2).conns ++
        [(({}, { fd := sys.accept, events := { pollin := true } }) :
          IpcConnectionInfo × PollFd)]).length = v.conns.length + 1 := by
      simp [View.touch, hlen revents]
    rw [hnew]
    dsimp only
    exact ⟨by omega, iff_of_true (by omega) (by simp [hread])⟩
  | @echoed revents i e w m rest hpoll hfind hget hread ht hrecv hqueued =>
    rw [handledByHangup_iff hpoll hfind hget, hqueued.length]
    have htouch : ((v.polled revents).touch i e 0 e.2).conns.length = v.conns.length := by
      simp [View.touch, hlen revents]
    rw [htouch]
    exact ⟨Int.le_refl _, iff_of_true rfl (by simp [hread])⟩
  | @left revents i e w₁ w event rest es₁ es₂ hpoll hfind hget hread ht hrecv hclosed hdeleted
      hdrops htype horigin =>
    rw [handledByHangup_iff hpoll hfind hget, hdeleted.conns]
    obtain ⟨path, hget₁⟩ := hclosed.getElem? (touch_getElem? hget 0 e.2)
    have hclosedLen := hclosed.length
    have htouch : ((v.polled revents).touch i e 0 e.2).conns.length = v.conns.length := by
      simp [View.touch, hlen revents]
    rw [length_swapRemove_of_getElem? hget₁]
    dsimp only
    exact ⟨by omega, iff_of_true (by omega) (by simp [hread])⟩
  | @written revents i e w event io hpoll hfind hget htype hserved =>
    rw [handledByHangup_iff hpoll hfind hget]
    obtain ⟨p, found, es, tx, hread, hout, -, -, -, rfl⟩ := hserved.of_tx htype
    have htouch : ((v.polled revents).touch i e e.1.moreToRead p).conns.length =
        v.conns.length := by
      simp [View.touch, hlen revents]
    simp only [htouch]
    exact ⟨Int.le_refl _, iff_of_true trivial (by simp [hout])⟩
  | @hungUp revents i e w event es hpoll hfind hget hread hout hclosed hdrops htype horigin =>
    rw [handledByHangup_iff hpoll hfind hget, hclosed.length, hlen revents]
    dsimp only
    exact ⟨by omega, iff_of_false (by omega) (by simp [hread, hout])⟩
  | @failed revents i e event hpoll hfind hget hread hout htype horigin =>
    rw [handledByHangup_iff hpoll hfind hget, hlen revents]
    dsimp only
    exact ⟨by omega, iff_of_false (by omega) (by simp [hread, hout])⟩

theorem size_ofView (hctx : s.ctx = .ofView v) : s.ctx.size = v.conns.length := by
  rw [hctx]
  rfl

/-- **Counting**: while the service runs, `cpt` is at most the number of clients it tracks, and is
that number exactly when no wait has ended on a hang-up or an error. -/
theorem counts_iff {rundir : Option (List Byte)} {fd : Fd}
    (hrun : runAll Pongd.round (.start rundir fd) syss = some (s, log)) (hrunning : s.exited = false) :
    s.cpt + 1 ≤ s.ctx.size ∧
      (s.cpt + 1 = s.ctx.size ↔
        RunMeets Pongd.round (fun s sys => ¬ HandledByHangup s.ctx sys) (.start rundir fd) syss) := by
  obtain ⟨v, hctx, hv, hfds, -⟩ := start_ctx rundir fd
  have hstart : (Pongd.start rundir fd).ctx.size = 1 := by
    rw [size_ofView hctx]
    simpa [View.fds] using congrArg List.length hfds
  have hpotential := runMeets_iff_eq
    (G := fun s sys => ¬ HandledByHangup s.ctx sys)
    (P := fun s => ∃ v, s.ctx = .ofView v ∧ v.Serves) (A := fun s => s.exited = false)
    (f := fun s => s.cpt - s.ctx.size) ?_ ?_ ⟨v, hctx, hv⟩ hrunning hrun
  · obtain ⟨hle, hiff⟩ := hpotential
    have hcpt : (Pongd.start rundir fd).cpt = 0 := rfl
    rw [hiff]
    simp only [hcpt, hstart] at hle ⊢
    omega
  · intro s sys r hround
    exact (round_eq_some hround).1
  · rintro s sys s₁ log₁ ⟨v, hctx, hv⟩ hround hrunning
    obtain ⟨w, t, hctx₁, hw, -, hcase⟩ := round_cases hctx hv hround
    have hcounts := round_counts hctx hrunning hcase
    rw [← size_ofView hctx, ← size_ofView hctx₁] at hcounts
    exact ⟨⟨w, hctx₁, hw⟩, hcounts⟩

theorem counts_oneEcho :
    ∃ s log, runAll Pongd.round (.start none 3) oneEcho = some (s, log) ∧ s.cpt + 1 ≤ s.ctx.size ∧
      (s.cpt + 1 = s.ctx.size ↔
        RunMeets Pongd.round (fun s sys => ¬ HandledByHangup s.ctx sys) (.start none 3) oneEcho) := by
  have hrun : ∃ r, runAll Pongd.round (.start none 3) oneEcho = some r ∧ r.1.exited = false := by
    simp only [← Option.mem_def]
    decide +kernel
  obtain ⟨⟨s, log⟩, hrun, hrunning⟩ := hrun
  exact ⟨s, log, hrun, counts_iff hrun hrunning⟩

/-! ## Frames that arrive together -/

/-- The first entry that is ready is a client with something to read. -/
def ReadsFrom (ctx : IpcCtx) (sys : WaitSys) (fd : Fd) : Prop :=
  ∃ revents ∈ sys.poll, ∃ es ∈ ctx.polledEntries revents, ∃ e ∈ es.find? handled,
    readable e ∧ e.1.type = .ipc ∧ e.2.fd = fd

/-- The wait of a service that reads from a client. -/
theorem served_of_readsFrom (hv : v.Serves) {fd : Fd} (hreads : ReadsFrom (.ofView v) sys fd)
    {timer t' : Int} {r : IpcErrorCode} {ctx : IpcCtx} {event : IpcEvent} {io : List Io}
    (h : ipcWaitEvent (.ofView v) timer sys = some (r, ctx, event, t', io)) :
    ∃ revents i e w, ctx = .ofView w ∧ Served (v.polled revents) i e sys r event w io ∧
      readable e ∧ e.1.type = .ipc ∧ e.2.fd = fd := by
  obtain ⟨revents, hpoll, es, hes, e, he, hread, ht, hfd⟩ := hreads
  rw [polledEntries_ofView, Option.mem_def, Option.some.injEq] at hes
  subst hes
  obtain ⟨w, hctx, hcases⟩ := ipcWaitEvent_served hv h
  rcases hcases with ⟨-, -, hnone, -⟩ | ⟨revents', hpoll', hfind, -⟩ |
    ⟨revents', i, e', hpoll', hfind, hget, hserved⟩
  · rw [hnone] at hpoll
    cases hpoll
  · obtain rfl : revents' = revents := Option.some.inj (hpoll'.symm.trans hpoll)
    have hnone := List.findIdx?_eq_none_iff.mp hfind e (List.mem_of_find?_eq_some he)
    have hhandled := List.find?_some he
    rw [hnone] at hhandled
    cases hhandled
  · obtain rfl : revents' = revents := Option.some.inj (hpoll'.symm.trans hpoll)
    obtain rfl : e = e' := by
      obtain ⟨hlt, hi, hbefore⟩ := List.findIdx?_eq_some_iff_getElem.mp hfind
      obtain ⟨-, j, hj, rfl, hbefore'⟩ := List.find?_eq_some_iff_getElem.mp he
      obtain ⟨-, rfl⟩ := List.getElem?_eq_some_iff.mp hget
      obtain hlt | rfl | hgt := Nat.lt_trichotomy i j
      · have := hbefore' i hlt
        simp [hi] at this
      · rfl
      · have := hbefore j hgt
        simp [List.find?_some he] at this
    exact ⟨revents', i, e, w, hctx, hserved, hread, ht, hfd⟩

/-- **Glued frames**: when whole frames of a client arrive together, the service goes on exactly
when the first is alone or has no payload, and then it has received that message and no other. -/
theorem survives_delivery_iff (h : s.Reached) {fd : Fd} (hreads : ReadsFrom s.ctx sys fd)
    {m : IpcMessage} {ms : List IpcMessage} {rest : List RecvResult}
    (hrecv : sys.recv = .ok ((m :: ms).flatMap IpcMessage.frame) :: rest)
    (hmax : ((m :: ms).flatMap IpcMessage.frame).length ≤ ipcMaxMessageSize)
    (hround : s.round sys = some (s', log)) :
    (s'.exited = false ↔ ms = [] ∨ m.length = 0) ∧
      (s'.exited = false → receivedMessages log = [{ m.received default with fd := fd }]) := by
  obtain ⟨v, hctx, hv⟩ := h.exists_view
  obtain ⟨hrunning, r, ctx, event, t, io, hwait, hnext⟩ := round_eq_some hround
  rw [hctx] at hwait hreads
  obtain ⟨revents, i, e, w, -, hserved, hread, ht, rfl⟩ := served_of_readsFrom hv hreads hwait
  have hdelivery := ipcReadFd_delivery default m (ms.flatMap IpcMessage.frame) rest hmax
  rw [List.flatMap_cons] at hrecv
  rw [← hrecv] at hdelivery
  have halone : ms.flatMap IpcMessage.frame = [] ↔ ms = [] := by
    rw [List.flatMap_eq_nil_iff]
    constructor
    · intro hall
      refine List.eq_nil_iff_forall_not_mem.mpr ?_
      intro x hx
      have hlen := congrArg List.length (hall x hx)
      rw [x.length_frame, ipcHeaderSize_eq, List.length_nil] at hlen
      omega
    · rintro rfl
      simp
  simp only [halone] at hdelivery
  cases hserved with
  | accepted _ ht' _ => cases ht'.symm.trans ht
  | notAccepted _ ht' _ _ _ => cases ht'.symm.trans ht
  | @received m' rest' _ _ hok =>
    rw [hok, RecvOutcome.returned.injEq] at hdelivery
    have hone := hdelivery.1
    split at hone
    · rename_i hcond
      cases hone
      rcases hnext with ⟨hne, -⟩ | ⟨-, io', hhandle, rfl⟩
      · exact absurd rfl hne.1
      · have hexited : s'.exited = false := by
          obtain ⟨⟨code, ctx', io₁⟩, -, hs'⟩ := Option.bind_eq_some_iff.mp hhandle
          cases hs'
          exact hrunning
        refine ⟨iff_of_true hexited hcond, ?_⟩
        intro _
        simp [receivedMessages, List.filterMap_map]
    · cases hone
  | @left r c event rest' es₁ es₂ w₁ w₂ _ _ herror _ _ _ hr _ _ =>
    rw [herror, RecvOutcome.returned.injEq] at hdelivery
    have hone := hdelivery.1
    split at hone
    · cases hone
    · rename_i hcond
      cases hone
      rcases hnext with ⟨-, rfl, -⟩ | ⟨hnone, -⟩
      · exact ⟨iff_of_false (by simp) hcond, fun hfalse => by cases hfalse⟩
      · rw [hr] at hnone
        exact absurd ⟨by simp, by simp⟩ hnone
  | written hnread _ _ _ _ _ _ _ => exact absurd hread hnread
  | hungUp hnread _ _ _ _ _ _ _ => exact absurd hread hnread
  | failed hnread _ _ _ _ => exact absurd hread hnread

/-- The service once a client is accepted on descriptor 5. -/
def oneClient : List WaitSys := [{ poll := some [{ pollin := true }], accept := 5 }]

/-- The client sends `"hi"`, then `"ho"`, and one answer brings both. -/
def gluedFrames : WaitSys :=
  { poll := some [{}, { pollin := true }]
    recv := [.ok [2, 0, 0, 0, 2, 42, 104, 105, 2, 0, 0, 0, 2, 42, 104, 111]] }

/-- The service exits. -/
theorem survives_delivery_glued :
    ∃ s s' log, runAll Pongd.round (.start none 3) oneClient = some s ∧
      s.1.round gluedFrames = some (s', log) ∧ s'.exited = true ∧
      (s'.exited = false ↔ [IpcMessage.ofPayload 2 42 5 [104, 111]] = [] ∨
        (IpcMessage.ofPayload 2 42 5 [104, 105]).length = 0) := by
  have hrun : ∃ s, runAll Pongd.round (.start none 3) oneClient = some s ∧
      ∃ r, s.1.round gluedFrames = some r ∧ r.1.exited = true := by
    simp only [← Option.mem_def]
    decide +kernel
  obtain ⟨⟨s, log₀⟩, hs, ⟨s', log⟩, hround, hexited⟩ := hrun
  have hreads : ReadsFrom s.ctx gluedFrames 5 := by
    cases hs
    exact ⟨_, rfl, _, rfl, _, rfl, by decide, rfl, rfl⟩
  refine ⟨(s, log₀), s', log, hs, hround, hexited, ?_⟩
  have hrecv : gluedFrames.recv = .ok ((IpcMessage.ofPayload 2 42 5 [104, 105] ::
      [IpcMessage.ofPayload 2 42 5 [104, 111]]).flatMap IpcMessage.frame) :: [] := rfl
  exact (survives_delivery_iff ⟨none, 3, _, _, hs⟩ hreads hrecv (by decide) hround).1

/-! ## The timer -/

/-- The clock does not run backwards, and the wait lasts less than 24 days. -/
def Clocked (sys : WaitSys) : Prop :=
  sys.tv₁.Valid ∧ sys.tv₂.Valid ∧ 0 ≤ microsBetween sys.tv₁ sys.tv₂ ∧
    microsBetween sys.tv₁ sys.tv₂ < 2073600000000

theorem timerAfter_zero (hclock : Clocked sys) : timerAfter 0 sys.tv₁ sys.tv₂ = some 0 := by
  obtain ⟨h₁, h₂, hle, hlt⟩ := hclock
  have hnonneg := elapsed_nonneg h₁ h₂ hle
  obtain ⟨hbounds, -⟩ := nbUsecMs_bounds sys.tv₁ sys.tv₂
  rw [abs_lt] at hbounds
  have hsec : nbSecMs sys.tv₁ sys.tv₂ = (sys.tv₂.sec - sys.tv₁.sec) * 1000 := rfl
  have hmicros : microsBetween sys.tv₁ sys.tv₂ =
    (sys.tv₂.sec - sys.tv₁.sec) * 1000000 + (sys.tv₂.usec - sys.tv₁.usec) := rfl
  obtain ⟨h₁, h₁'⟩ := h₁
  obtain ⟨h₂, h₂'⟩ := h₂
  have hconv : convInt (nbSecMs sys.tv₁ sys.tv₂) = nbSecMs sys.tv₁ sys.tv₂ :=
    (convInt_eq_iff _).mpr (by omega)
  have hconv' : convInt (nbUsecMs sys.tv₁ sys.tv₂) = nbUsecMs sys.tv₁ sys.tv₂ :=
    (convInt_eq_iff _).mpr (by omega)
  have helapsed : timeElapsedMs sys.tv₁ sys.tv₂ =
      some (nbSecMs sys.tv₁ sys.tv₂ + nbUsecMs sys.tv₁ sys.tv₂) := by
    rw [timeElapsedMs, hconv, hconv', toInt_eq_some_iff]
    exact ⟨by omega, rfl⟩
  rw [timerAfter_eq, helapsed, Option.bind_some, if_pos hnonneg]

/-- A round leaves a timer that is at zero alone, and reports no timer event. -/
theorem round_timer_zero (hclock : Clocked sys) (hdead : s.timer = 0)
    (htimer : if sys.poll = none then t = s.timer else timerAfter s.timer sys.tv₁ sys.tv₂ = some t)
    (h : Round s v sys t s' w log) :
    s'.timer = 0 ∧ ∀ e, .event e ∈ log → e.type ≠ .timer := by
  have ht : t = 0 := by
    rw [hdead, timerAfter_zero hclock] at htimer
    split at htimer
    · exact htimer
    · exact (Option.some.inj htimer).symm
  have hone : ∀ {io : List Io} {event e : IpcEvent},
      .event e ∈ io.map PongdIo.io ++ [.event event] → e = event := by
    intro io event e he
    simpa using he
  cases h with
  | exits _ _ =>
    refine ⟨ht, ?_⟩
    intro e he
    simp at he
  | @idle revents w event hpoll hfind hsame htype =>
    rcases htype with ⟨-, hne⟩ | htype
    · exact absurd hdead hne
    · refine ⟨by simp [htype, ht], ?_⟩
      intro e he
      rw [@hone [] _ _ he, htype]
      exact IpcEventType.noConfusion
  | accepted _ _ _ _ _ _ _ =>
    refine ⟨ht, ?_⟩
    intro e he
    rw [@hone [] _ _ he]
    exact IpcEventType.noConfusion
  | echoed _ _ _ _ _ _ _ =>
    refine ⟨ht, ?_⟩
    intro e he
    simp only [List.mem_cons, PongdIo.event.injEq, reduceCtorEq, List.not_mem_nil, or_false] at he
    rw [he]
    exact IpcEventType.noConfusion
  | left _ _ _ _ _ _ _ _ _ htype _ =>
    refine ⟨ht, ?_⟩
    intro e he
    rw [hone he, htype]
    exact IpcEventType.noConfusion
  | written _ _ _ htype _ =>
    refine ⟨ht, ?_⟩
    intro e he
    rw [hone he, htype]
    exact IpcEventType.noConfusion
  | hungUp _ _ _ _ _ _ _ htype _ =>
    refine ⟨ht, ?_⟩
    intro e he
    rw [hone he, htype]
    exact IpcEventType.noConfusion
  | failed _ _ _ _ _ htype _ =>
    refine ⟨ht, ?_⟩
    intro e he
    rw [@hone [] _ _ he, htype]
    exact IpcEventType.noConfusion

/-- The first client arrives just as the ten seconds are over. -/
def lateClient : List WaitSys :=
  [{ poll := some [{ pollin := true }], accept := 5, tv₂ := { sec := 10 } }]

/-- Two waits in which nothing happens. -/
def idleWaits : List WaitSys := [{ poll := some [] }, { poll := some [], tv₂ := { sec := 60 } }]

end

end LibIpc.C

import LibIpc.C.Framing
import LibIpc.C.Waiting

/-!
# What `ipc_wait_event` does for a service

A service has its server socket and its clients, and switches nothing. `Served` lists what
`ipc_wait_event` can do to the entry it stops at in such a context, with everything a program built
on the library needs to know: which message was read, from which `recv(2)` answers, and what was
passed to `send(2)`. `Served.handling` places each of its cases among those of `Handling`.
-/

namespace LibIpc.C

open Lib

/-- The context of a service: servers and clients only, and messages for them. -/
structure View.Serves (v : View) : Prop where
  tracked : v.Tracked
  types : ∀ e ∈ v.conns, e.1.type = .server ∨ e.1.type = .ipc

/-- Only lost messages. -/
def Drops (es : List (QueueEvent IpcMessage)) : Prop := ∀ e ∈ es, ∃ q j, e = .dropped q j

theorem Drops.joining {es : List (QueueEvent IpcMessage)} (h : Drops es) :
    es.flatMap QueueEvent.joining = [] := by
  rw [List.flatMap_eq_nil_iff]
  intro e he
  obtain ⟨q, j, rfl⟩ := h e he
  rfl

theorem Drops.append {es es' : List (QueueEvent IpcMessage)} (h : Drops es) (h' : Drops es') :
    Drops (es ++ es') := by
  intro e he
  rcases List.mem_append.mp he with he | he
  · exact h e he
  · exact h' e he

theorem removeMessagesLoop_drops {fd : Fd} {n i : Nat} {tx tx' : IpcMessages} {io : List Io}
    (h : removeMessagesLoop fd n tx i = some (tx', io)) : Drops (queueEvents io) := by
  induction n generalizing i tx io with
  | zero =>
    cases h
    intro e he
    cases he
  | succ n ih =>
    simp only [removeMessagesLoop, Option.bind_eq_bind] at h
    obtain ⟨messages, -, h⟩ := Option.bind_eq_some_iff.mp h
    obtain ⟨m, -, h⟩ := Option.bind_eq_some_iff.mp h
    split at h
    · obtain ⟨⟨r, tx₁⟩, -, h⟩ := Option.bind_eq_some_iff.mp h
      obtain ⟨⟨tx₂, io₂⟩, hloop, h⟩ := Option.bind_eq_some_iff.mp h
      cases h
      intro e he
      rcases List.mem_cons.mp he with rfl | he
      · exact ⟨messages, i, rfl⟩
      · exact ih hloop e he
    · exact ih h

theorem ipcRemoveMessagesForFd_drops {ctx ctx' : IpcCtx} {fd : Fd} {io : List Io}
    (h : ipcRemoveMessagesForFd ctx fd = some (ctx', io)) : Drops (queueEvents io) := by
  obtain ⟨⟨tx, io'⟩, hloop, h⟩ := Option.bind_eq_some_iff.mp h
  cases h
  exact removeMessagesLoop_drops hloop

/-- Closing and deleting only lose messages. -/
theorem ipcClose_drops {ctx ctx' : IpcCtx} {index : Nat} {sys : CloseSys} {r : IpcErrorCode}
    {io : List Io} (h : ipcClose ctx index sys = some (r, ctx', io)) : Drops (queueEvents io) := by
  simp only [ipcClose, Option.bind_eq_bind, Option.pure_def] at h
  obtain ⟨es, -, h⟩ := Option.bind_eq_some_iff.mp h
  obtain ⟨⟨cinfo, pollfd⟩, -, h⟩ := Option.bind_eq_some_iff.mp h
  obtain ⟨⟨ctx₁, dropped⟩, hremove, h⟩ := Option.bind_eq_some_iff.mp h
  have hclosed : queueEvents (if cinfo.type = .external then [] else [.close pollfd.fd]) = [] := by
    split <;> rfl
  have hdrops : Drops (queueEvents
      ((if cinfo.type = .external then [] else [.close pollfd.fd]) ++ dropped)) := by
    rw [queueEvents_append, hclosed, List.nil_append]
    exact ipcRemoveMessagesForFd_drops hremove
  split at h
  · cases h
    exact hdrops
  · split at h
    · cases h
      exact hdrops
    · cases h
      exact hdrops

theorem ipcDel_drops {ctx ctx' : IpcCtx} {index : Nat} {r : IpcErrorCode} {io : List Io}
    (h : ipcDel ctx index = some (r, ctx', io)) : Drops (queueEvents io) := by
  have hnil : Drops (queueEvents []) := by
    intro e he
    cases he
  unfold ipcDel at h
  split at h
  · cases h
    exact hnil
  · split at h
    · cases h
      exact hnil
    · simp only [Option.bind_eq_bind, Option.pure_def] at h
      obtain ⟨es, -, h⟩ := Option.bind_eq_some_iff.mp h
      obtain ⟨⟨cinfo, pollfd⟩, -, h⟩ := Option.bind_eq_some_iff.mp h
      obtain ⟨⟨ctx₁, io₁⟩, hremove, h⟩ := Option.bind_eq_some_iff.mp h
      have hdrops := ipcRemoveMessagesForFd_drops hremove
      split at h
      · cases h
        exact hdrops
      · obtain ⟨last, -, h⟩ := Option.bind_eq_some_iff.mp h
        cases h
        exact hdrops

/-- What `handle_writing_message` does with the message it has found. -/
def writingLog (q : List IpcMessage) (fd : Fd) (s : SendResult) :
    Option (Nat × IpcMessage) → Option (List Io)
  | none => some []
  | some (i, m) => (ipcWriteFd m s).map fun (_, bs) => [.queue (.handed q i), .send fd bs s]

/-- What `ipc_wait_event` does to the entry `e`, at `i`, it stops at: a client is accepted, or not;
a message is read; the client has left or sends what cannot be read; the first message queued for
the descriptor is sent; the peer has hung up; the descriptor is in error. -/
inductive Served (v : View) (i : Nat) (e : IpcConnectionInfo × PollFd) (sys : WaitSys) :
    IpcErrorCode → IpcEvent → View → List Io → Prop
  | accepted : readable e → e.1.type = .server → 0 ≤ sys.accept →
      Served v i e sys .none
        { type := .connection, index := v.conns.length, origin := sys.accept, m := none }
        { v with
          conns := (v.touch i e 0 e.2).conns ++
            [({}, { fd := sys.accept, events := { pollin := true } })] } []
  | notAccepted {event : IpcEvent} : readable e → e.1.type = .server → sys.accept < 0 →
      event.type = .notSet → event.origin = e.2.fd →
      Served v i e sys .usockAccept event
        { v with conns := (v.touch i e 0 e.2).conns ++ [({}, { fd := sys.accept })] } []
  | received {m : IpcMessage} {rest : List RecvResult} : readable e → e.1.type = .ipc →
      ipcReadFd default sys.recv = .returned (.ok m) rest →
      Served v i e sys .none
        { type := .message, index := i, origin := e.2.fd, m := some { m with fd := e.2.fd } }
        (v.touch i e 0 e.2) []
  | left {r c : IpcErrorCode} {event : IpcEvent} {rest : List RecvResult}
      {es₁ es₂ : List (QueueEvent IpcMessage)} {w₁ w₂ : View} : readable e → e.1.type = .ipc →
      ipcReadFd default sys.recv = .returned (.error c) rest →
      ClosedAt (v.touch i e 0 e.2) i ({ e.1 with moreToRead := 0 }, e.2) es₁ w₁ →
      Deleted w₁ i e.2.fd es₂ w₂ → Drops (es₁ ++ es₂) → r = (if c = .closedRecipient then .none else c) →
      event.type = (if c = .closedRecipient then .disconnection else .error) →
      event.origin = e.2.fd →
      Served v i e sys r event w₂ (closedFd e ++ (es₁ ++ es₂).map .queue)
  | written {event : IpcEvent} {p : PollFd} {found : Option (Nat × IpcMessage)}
      {es : List (QueueEvent IpcMessage)} {tx : List IpcMessage} {io : List Io} :
      ¬ readable e → e.2.revents.pollout → p.fd = e.2.fd →
      Popped v.tx e.2.fd (found.map Prod.snd) es tx →
      (∀ i m, found = some (i, m) → es = [.handed v.tx i]) →
      writingLog v.tx e.2.fd sys.send found = some io →
      event.type = .tx → event.origin = e.2.fd →
      Served v i e sys .none event { v.touch i e e.1.moreToRead p with tx := tx } io
  | hungUp {r : IpcErrorCode} {event : IpcEvent} {es : List (QueueEvent IpcMessage)} {w : View} :
      ¬ readable e → ¬ e.2.revents.pollout → e.2.revents.pollhup →
      (∃ ctx io, ipcClose (.ofView v) i sys.close = some (r, ctx, io)) →
      ClosedAt v i e es w → Drops es → event.type = .disconnection → event.origin = e.2.fd →
      Served v i e sys r event w (closedFd e ++ es.map .queue)
  | failed {event : IpcEvent} : ¬ readable e → ¬ e.2.revents.pollout → ¬ e.2.revents.pollhup →
      event.type = .error → event.origin = e.2.fd → Served v i e sys .none event v []

section
variable {v w : View} {i : Nat} {e : IpcConnectionInfo × PollFd} {sys : WaitSys}
  {r : IpcErrorCode} {ctx : IpcCtx} {event : IpcEvent} {io : List Io}

theorem writingLog_spec {q : List IpcMessage} {fd : Fd} {s : SendResult}
    {found : Option (Nat × IpcMessage)} {es : List (QueueEvent IpcMessage)}
    {tx : List IpcMessage} (hpopped : Popped q fd (found.map Prod.snd) es tx)
    (hes : ∀ i m, found = some (i, m) → es = [.handed q i])
    (h : writingLog q fd s found = some io) :
    queueEvents io = es ∧ Transmits fd (found.map Prod.snd) io := by
  cases found with
  | none =>
    cases h
    cases hpopped with
    | empty _ => exact ⟨rfl, .inl rfl⟩
  | some f =>
    obtain ⟨j, m⟩ := f
    obtain ⟨⟨code, bs⟩, hwrite, rfl⟩ := Option.map_eq_some_iff.mp h
    refine ⟨(hes j m rfl).symm, .inr ⟨bs, s, rfl, ?_⟩⟩
    rcases ipcWriteFd_bytes hwrite with hbs | hbs
    · exact .inl hbs
    · exact .inr ⟨m, rfl, hbs⟩

/-- A call that sends a message, or finds none to send. -/
theorem Served.of_tx (h : Served v i e sys r event w io) (htype : event.type = .tx) :
    ∃ (p : PollFd) (found : Option (Nat × IpcMessage)) (es : List (QueueEvent IpcMessage))
      (tx : List IpcMessage), ¬ readable e ∧ e.2.revents.pollout ∧ p.fd = e.2.fd ∧
        Popped v.tx e.2.fd (found.map Prod.snd) es tx ∧
        writingLog v.tx e.2.fd sys.send found = some io ∧
        w = { v.touch i e e.1.moreToRead p with tx := tx } := by
  cases h with
  | accepted _ _ _ => cases htype
  | notAccepted _ _ _ htype' _ => cases htype'.symm.trans htype
  | received _ _ _ => cases htype
  | left _ _ _ _ _ _ _ htype' _ =>
    rw [htype'] at htype
    split at htype <;> cases htype
  | written hread hout hp hpopped _ hlog _ _ =>
    exact ⟨_, _, _, _, hread, hout, hp, hpopped, hlog, rfl⟩
  | hungUp _ _ _ _ _ _ htype' _ => cases htype'.symm.trans htype
  | failed _ _ _ htype' _ => cases htype'.symm.trans htype

/-- Each case is one of `Handling`. -/
theorem Served.handling (hget : v.conns[i]? = some e) (h : Served v i e sys r event w io) :
    Handling sys.accept v i e event w io := by
  cases h with
  | accepted hread ht haccept => exact .accepted haccept ht rfl rfl
  | notAccepted hread ht haccept htype horigin => exact .acceptFailed haccept htype horigin
  | received hread ht hrecv => exact .kept rfl rfl (by simp) (by simp) silent_nil
  | @left r c event rest es₁ es₂ w₁ w₂ hread ht hrecv hclosed hdeleted hdrops hr htype horigin =>
    refine .disconnected hread hclosed hdeleted ?_ horigin
    rw [htype]
    by_cases hc : c = .closedRecipient
    · simp [hc]
    · simp [hc]
  | written hread hout hp hpopped hes hlog htype horigin =>
    obtain ⟨hq, htransmits⟩ := writingLog_spec hpopped hes hlog
    exact .written hp hpopped hq htransmits htype horigin
  | hungUp hread hout hhup hr hclosed hdrops htype horigin => exact .hungUp hread hout hclosed htype horigin
  | failed hread hout hhup htype horigin =>
    have hkept : Handling sys.accept v i e event (v.touch i e e.1.moreToRead e.2) [] :=
      .kept rfl horigin (by simp [htype]) (by simp [htype]) silent_nil
    rwa [touch_self hget] at hkept

theorem Served.refines (hv : v.Tracked) (hget : v.conns[i]? = some e)
    (h : Served v i e sys r event w io) : Refines v [sys.accept] io w :=
  (h.handling hget).refines hv hget

/-! ## The handlers -/

theorem ipcAcceptAdd_served (hget : v.conns[i]? = some e) (hread : readable e)
    (ht : e.1.type = .server) {event₀ : IpcEvent} (htype : event₀.type = .notSet)
    (horigin : event₀.origin = e.2.fd)
    (h : ipcAcceptAdd event₀ (.ofView (v.touch i e 0 e.2)) i sys.accept = some (r, ctx, event)) :
    ∃ w, ctx = .ofView w ∧ Served v i e sys r event w [] := by
  obtain ⟨hlt, -⟩ := List.getElem?_eq_some_iff.mp hget
  have hlen : (v.touch i e 0 e.2).conns.length = v.conns.length := by simp [View.touch]
  rw [ipcAcceptAdd_ofView _ (by rwa [hlen]), hlen] at h
  split at h
  · rename_i hneg
    cases h
    exact ⟨_, rfl, .notAccepted hread ht hneg htype horigin⟩
  · rename_i hpos
    cases h
    exact ⟨_, rfl, .accepted hread ht (Int.not_lt.mp hpos)⟩

theorem handleNewMessage_served (hv : v.Tracked) (hget : v.conns[i]? = some e)
    (hread : readable e) (ht : e.1.type = .ipc)
    (h : handleNewMessage (.ofView (v.touch i e 0 e.2)) i sys.recv sys.close =
      some (r, ctx, event, io)) :
    ∃ w, ctx = .ofView w ∧ Served v i e sys r event w io := by
  simp only [handleNewMessage, entries_ofView, touch_getElem? hget, Option.bind_eq_bind,
    Option.bind_some, Option.pure_def] at h
  split at h
  · cases h
  · rename_i c rest hrecv
    obtain ⟨r₁, w₁, es₁, hclose, hclosed⟩ := ipcClose_ofView (touch_getElem? hget 0 e.2) sys.close
    obtain ⟨path, hget₁⟩ := hclosed.getElem? (touch_getElem? hget 0 e.2)
    have htracked := hclosed.tracked (touch_getElem? hget 0 e.2) (tracked_touch hget _ rfl hv)
    obtain ⟨w₂, es₂, hdel, hdeleted⟩ := ipcDel_ofView htracked hget₁
    have hio : closedFd ({ e.1 with moreToRead := 0 }, e.2) ++ es₁.map Io.queue ++
        es₂.map Io.queue = closedFd e ++ (es₁ ++ es₂).map Io.queue := by
      rw [List.map_append, List.append_assoc]
      rfl
    have hdrops : Drops (es₁ ++ es₂) := by
      have h₁ := ipcClose_drops hclose
      have h₂ := ipcDel_drops hdel
      rw [queueEvents_append, queueEvents_closedFd, queueEvents_map_queue] at h₁
      rw [queueEvents_map_queue] at h₂
      exact Drops.append h₁ h₂
    simp only [hclose, hdel, Option.bind_some, hio] at h
    split at h
    · rename_i hc
      cases h
      exact ⟨w₂, rfl, .left hread ht hrecv hclosed hdeleted hdrops (if_pos hc).symm
        (if_pos hc).symm rfl⟩
    · rename_i hc
      cases h
      exact ⟨w₂, rfl, .left hread ht hrecv hclosed hdeleted hdrops (if_neg hc).symm
        (if_neg hc).symm rfl⟩
  · rename_i m rest hrecv
    cases h
    exact ⟨_, rfl, .received hread ht hrecv⟩

theorem handleWritingMessage_served (hget : v.conns[i]? = some e) (hread : ¬ readable e)
    (hout : e.2.revents.pollout) {p : PollFd} (hp : p.fd = e.2.fd)
    (h : handleWritingMessage (.ofView (v.touch i e e.1.moreToRead p)) i sys.send =
      some (r, ctx, event, io)) :
    ∃ w, ctx = .ofView w ∧ Served v i e sys r event w io := by
  simp only [handleWritingMessage, entries_ofView, touch_getElem? hget, ofView_tx,
    Option.bind_eq_bind, Option.bind_some, Option.pure_def, hp] at h
  obtain ⟨found, hfound, h⟩ := Option.bind_eq_some_iff.mp h
  rcases searchMessage_ofList hfound with ⟨rfl, hnil⟩ | ⟨j, m, rfl, hfirst, hm, hfd⟩
  · cases h
    have hpopped : Popped v.tx e.2.fd ((none : Option (Nat × IpcMessage)).map Prod.snd) [] v.tx :=
      .empty hnil
    exact ⟨_, rfl, .written hread hout hp hpopped (by simp) rfl rfl rfl⟩
  · obtain ⟨io', hio, h⟩ := Option.bind_eq_some_iff.mp h
    have hlt := hfirst.lt
    simp only [View.touch] at hlt
    simp only [View.touch, deleteFound_ofList m hlt, Option.bind_some] at h
    cases h
    refine ⟨{ v.touch i e e.1.moreToRead p with tx := swapRemove v.tx j }, rfl, ?_⟩
    have hpopped : Popped v.tx e.2.fd ((some (j, m)).map Prod.snd) [.handed v.tx j]
        (swapRemove v.tx j) := .first hfirst hm hfd
    refine .written hread hout hp hpopped ?_ hio rfl rfl
    intro j' m' heq
    cases heq
    rfl

/-- The dispatch, on an entry of a service. -/
theorem dispatch_served (hv : v.Serves) (hget : v.conns[i]? = some e)
    (h : dispatch (.ofView v) v.conns i e sys = some (r, ctx, event, io)) :
    ∃ w, ctx = .ofView w ∧ Served v i e sys r event w io := by
  have htypes := hv.types e (List.mem_of_getElem? hget)
  simp only [dispatch] at h
  split at h
  · rename_i hread
    rw [setEntries_touch] at h
    rcases htypes with ht | ht
    · simp only [ht] at h
      obtain ⟨⟨r', ctx', event'⟩, haccept, h⟩ := Option.map_eq_some_iff.mp h
      cases h
      exact ipcAcceptAdd_served hget hread ht rfl rfl haccept
    · simp only [ht] at h
      exact handleNewMessage_served hv.tracked hget hread ht h
  · rename_i hread
    split at h
    · rename_i hout
      generalize hp : { e.2 with events := { e.2.events with pollout := false } } = p at h
      have hfd : p.fd = e.2.fd := by rw [← hp]
      have htouch : (IpcCtx.ofView v).setEntries (v.conns.set i (e.1, p)) =
          .ofView (v.touch i e e.1.moreToRead p) := setEntries_touch
      rw [htouch] at h
      rcases htypes with ht | ht
      · simp only [ht] at h
        exact handleWritingMessage_served hget hread hout hfd h
      · simp only [ht] at h
        exact handleWritingMessage_served hget hread hout hfd h
    · rename_i hout
      split at h
      · rename_i hhup
        obtain ⟨r', w, es, hclose, hclosed⟩ := ipcClose_ofView hget sys.close
        have hdrops := ipcClose_drops hclose
        rw [queueEvents_append, queueEvents_closedFd, queueEvents_map_queue] at hdrops
        simp only [hclose, Option.map_some] at h
        cases h
        exact ⟨w, rfl, .hungUp hread hout hhup ⟨_, _, hclose⟩ hclosed hdrops rfl rfl⟩
      · rename_i hhup
        cases h
        exact ⟨v, rfl, .failed hread hout hhup rfl rfl⟩

/-! ## Receiving -/

theorem usockRecvLoop_error_ne_none {buf : List Byte} {msize msizeRead : Nat}
    {rs rest : List RecvResult} {c : IpcErrorCode}
    (h : usockRecvLoop buf msize msizeRead rs = .returned (.error c) rest) : c ≠ .none := by
  induction rs generalizing buf msize msizeRead with
  | nil => cases h
  | cons r rs ih =>
    cases r with
    | error errno =>
      simp only [usockRecvLoop, RecvOutcome.returned.injEq, Except.error.injEq] at h
      rw [← h.1]
      split <;> simp
    | ok bs =>
      simp only [usockRecvLoop] at h
      generalize (if msize = 0 then be32At (overwrite buf bs) 1 else msize) = announced at h
      split at h
      · split at h
        · exact ih h
        · cases h
          simp
      · split at h
        · cases h
          simp
        · split at h
          · exact ih h
          · cases h

/-- A read that fails says so. -/
theorem ipcReadFd_error_ne_none {m : IpcMessage} {rs rest : List RecvResult} {c : IpcErrorCode}
    (h : ipcReadFd m rs = .returned (.error c) rest) : c ≠ .none := by
  unfold ipcReadFd at h
  split at h
  · cases h
  · rename_i c' rest' hrecv
    cases h
    exact usockRecvLoop_error_ne_none hrecv
  · rename_i buf len rest' _
    simp only [RecvOutcome.returned.injEq] at h
    have hread := h.1
    unfold ipcMessageFormatRead at hread
    simp only at hread
    split at hread
    · cases hread
      simp
    · split at hread
      · cases hread
        simp
      · split at hread
        · cases hread
          simp
        · cases hread

/-! ## What a service stays -/

/-- An entry keeps its type. -/
theorem types_set {es : List (IpcConnectionInfo × PollFd)} {e : IpcConnectionInfo × PollFd}
    (hes : ∀ e ∈ es, e.1.type = .server ∨ e.1.type = .ipc)
    (he : e.1.type = .server ∨ e.1.type = .ipc) (i : Nat) (more : Int) (path : Option (List Byte))
    (p : PollFd) :
    ∀ x ∈ es.set i ({ type := e.1.type, moreToRead := more, spath := path }, p),
      x.1.type = .server ∨ x.1.type = .ipc := by
  intro x hx
  rcases List.mem_or_eq_of_mem_set hx with hx | rfl
  · exact hes x hx
  · exact he

theorem types_of_mem_info (hv : v.Serves) {c : IpcConnectionInfo × Fd} (hc : c ∈ v.info) :
    c.1.type = .server ∨ c.1.type = .ipc := by
  obtain ⟨e, he, rfl⟩ := List.mem_map.mp hc
  exact hv.types e he

theorem View.Same.serves (hv : v.Serves) (hsame : v.Same w) : w.Serves := by
  refine ⟨hsame.tracked hv.tracked, ?_⟩
  intro e he
  have hmem : (e.1, e.2.fd) ∈ w.info := List.mem_map_of_mem he
  rw [hsame.info] at hmem
  exact types_of_mem_info hv hmem

theorem Queued.serves {m : IpcMessage} {es : List (QueueEvent IpcMessage)} (hv : v.Serves)
    (h : Queued v m es w) : w.Serves := by
  refine ⟨h.tracked hv.tracked, ?_⟩
  intro e he
  have hmem : (e.1, e.2.fd) ∈ w.info := List.mem_map_of_mem he
  rw [h.info] at hmem
  exact types_of_mem_info hv hmem

theorem View.Serves.polled (hv : v.Serves) (revents : List PollEvents) :
    (v.polled revents).Serves :=
  (same_polled v revents).serves hv

theorem Served.serves (hv : v.Serves) (hget : v.conns[i]? = some e)
    (h : Served v i e sys r event w io) : w.Serves := by
  refine ⟨(h.refines hv.tracked hget).tracked, ?_⟩
  have he := hv.types e (List.mem_of_getElem? hget)
  have htouch : ∀ more p, ∀ x ∈ (v.touch i e more p).conns, x.1.type = .server ∨ x.1.type = .ipc :=
    fun more p => types_set hv.types he i more e.1.spath p
  cases h with
  | accepted _ _ _ =>
    intro x hx
    rcases List.mem_append.mp hx with hx | hx
    · exact htouch _ _ x hx
    · obtain rfl := List.mem_singleton.mp hx
      exact .inr rfl
  | notAccepted _ _ _ _ _ =>
    intro x hx
    rcases List.mem_append.mp hx with hx | hx
    · exact htouch _ _ x hx
    · obtain rfl := List.mem_singleton.mp hx
      exact .inr rfl
  | received _ _ _ => exact htouch _ _
  | left _ _ _ hclosed hdeleted _ _ _ _ =>
    intro x hx
    rw [hdeleted.conns] at hx
    obtain ⟨path, hconns⟩ := hclosed.conns
    have hx := mem_of_mem_swapRemove hx
    rw [hconns] at hx
    exact types_set (htouch 0 e.2) he i 0 path e.2 x hx
  | written _ _ _ _ _ _ _ _ => exact htouch _ _
  | hungUp _ _ _ _ hclosed _ _ _ =>
    obtain ⟨path, hconns⟩ := hclosed.conns
    rw [hconns]
    exact types_set hv.types he i e.1.moreToRead path e.2
  | failed _ _ _ _ _ => exact hv.types

/-- The timer after the wait. -/
theorem ipcWaitEvent_timerLeft {timer t : Int} {ctx₀ : IpcCtx}
    (h : ipcWaitEvent ctx₀ timer sys = some (r, ctx, event, t, io)) :
    if sys.poll = none then t = timer else timerAfter timer sys.tv₁ sys.tv₂ = some t := by
  split
  · rename_i hpoll
    simp only [ipcWaitEvent, hpoll, Option.bind_eq_bind, Option.pure_def] at h
    obtain ⟨es, -, h⟩ := Option.bind_eq_some_iff.mp h
    obtain ⟨messages, -, h⟩ := Option.bind_eq_some_iff.mp h
    cases h
    rfl
  · rename_i hpoll
    exact ipcWaitEvent_timer hpoll h

/-- When the time is up, no entry is ready and none has more to read. -/
theorem findIdx?_handled_of_timeout {revents : List PollEvents} {timer : Int}
    (hready : (v.polled revents).conns.countP (fun e => e.2.revents ≠ {}) = 0)
    (htimer : (if (pollEntries v.conns v.tx).any (fun e => e.1.moreToRead = 1) then 0 else timer)
      ≠ 0) : (v.polled revents).conns.findIdx? handled = none := by
  have hmore : ¬ (pollEntries v.conns v.tx).any (fun e => e.1.moreToRead = 1) := by
    intro hany
    rw [if_pos hany] at htimer
    exact htimer rfl
  refine findIdx?_handled_eq_none_iff.mpr ⟨?_, ?_⟩
  · simpa [pollEntries] using hmore
  · intro j hj
    rw [List.countP_eq_zero] at hready
    have hlt : j < (v.polled revents).conns.length := by
      simpa [View.polled, storeRevents, pollEntries] using hj
    have hentry := hready _ (List.getElem_mem hlt)
    simpa [View.polled, storeRevents, pollEntries] using hentry

/-- `ipc_wait_event` of a service: `poll(2)` fails, nothing is ready, or the first entry that is
ready is served. -/
theorem ipcWaitEvent_served (hv : v.Serves) {timer timer' : Int}
    (h : ipcWaitEvent (.ofView v) timer sys = some (r, ctx, event, timer', io)) :
    ∃ w, ctx = .ofView w ∧
      ((v.Same w ∧ io = [] ∧ sys.poll = none ∧ r = .waitEventPoll) ∨
        (∃ revents, sys.poll = some revents ∧
          (v.polled revents).conns.findIdx? handled = none ∧ v.Same w ∧ io = [] ∧ r = .none ∧
          (event.type = .timer ∧ timer ≠ 0 ∨ event.type = .notSet)) ∨
        ∃ revents i e, sys.poll = some revents ∧
          (v.polled revents).conns.findIdx? handled = some i ∧
          (v.polled revents).conns[i]? = some e ∧
          Served (v.polled revents) i e sys r event w io) := by
  have hpoll : (IpcCtx.ofView v).setEntries (pollEntries v.conns v.tx) =
      .ofView { v with conns := pollEntries v.conns v.tx } := setEntries_ofView (by simp [pollEntries])
  simp only [ipcWaitEvent, entries_ofView, ofView_tx, IpcMessages.ofList_size,
    IpcMessages.block_ofList, Option.bind_eq_bind, Option.bind_some, Option.pure_def, hpoll] at h
  generalize htimer : (if (pollEntries v.conns v.tx).any (fun e => e.1.moreToRead = 1) then 0
    else timer) = timer_ at h
  split at h
  · rename_i hnone
    cases h
    exact ⟨_, rfl, .inl ⟨same_pollEntries v, rfl, hnone, rfl⟩⟩
  · rename_i revents hrevents
    have hstore : (IpcCtx.ofView { v with conns := pollEntries v.conns v.tx }).setEntries
        (storeRevents (pollEntries v.conns v.tx) revents) = .ofView (v.polled revents) :=
      setEntries_ofView (by simp [storeRevents])
    rw [hstore] at h
    obtain ⟨t, -, h⟩ := Option.bind_eq_some_iff.mp h
    split at h
    · rename_i htimeout
      cases h
      have hfind := findIdx?_handled_of_timeout htimeout.1 (htimer ▸ htimeout.2)
      have hne : timer ≠ 0 := by
        rintro rfl
        rw [ite_self] at htimer
        exact htimeout.2 htimer.symm
      exact ⟨_, rfl, .inr (.inl ⟨revents, hrevents, hfind, same_polled v revents, rfl, rfl,
        .inl ⟨rfl, hne⟩⟩)⟩
    · split at h
      · rename_i hfind
        cases h
        exact ⟨_, rfl, .inr (.inl ⟨revents, hrevents, hfind, same_polled v revents, rfl, rfl,
          .inr rfl⟩)⟩
      · rename_i i hfind
        obtain ⟨e, hget, h⟩ := Option.bind_eq_some_iff.mp h
        obtain ⟨⟨r', ctx₁, event₁, io₁⟩, hdispatch, h⟩ := Option.bind_eq_some_iff.mp h
        cases h
        obtain ⟨w, hctx, hserved⟩ := dispatch_served (hv.polled revents) hget hdispatch
        exact ⟨w, hctx, .inr (.inr ⟨revents, i, e, hrevents, hfind, hget, hserved⟩)⟩

end

end LibIpc.C

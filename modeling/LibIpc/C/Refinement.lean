import LibIpc.C.Effects

/-!
# What every call keeps

`Refines v new io w`: a call that leads from the view `v` to the view `w` keeps the messages with
tracked descriptors, changes the queue exactly by the queue events in its log `io`, tracks no
descriptor but the old ones and `new`, and passes to `send(2)` nothing but frames of messages it
took from the queue. Each function has one such lemma; `step_refines` collects them.
-/

namespace LibIpc.C

open Lib

/-! ## Frames and the queue -/

/-- What was passed to `send(2)` on `fd`, with the answers; sending nothing is left out. -/
def sentOn (fd : Fd) (io : List Io) : List (List Byte × SendResult) :=
  ((transmissions io).filter fun t => t.1 = fd ∧ t.2.1 ≠ []).map Prod.snd

theorem sentOn_append (fd : Fd) (a b : List Io) : sentOn fd (a ++ b) = sentOn fd a ++ sentOn fd b := by
  simp [sentOn]

/-- What is sent on each descriptor are frames of messages handed over for it, in that order. -/
def SendsHanded (io : List Io) : Prop :=
  ∀ fd, ∃ ms : List IpcMessage, ms.Sublist (handedIn IpcMessage.fd fd (queueEvents io)) ∧
    (sentOn fd io).map Prod.fst = ms.map IpcMessage.frame

theorem SendsHanded.append {a b : List Io} (ha : SendsHanded a) (hb : SendsHanded b) :
    SendsHanded (a ++ b) := by
  intro fd
  obtain ⟨ms, hsub, heq⟩ := ha fd
  obtain ⟨ms', hsub', heq'⟩ := hb fd
  refine ⟨ms ++ ms', ?_, ?_⟩
  · rw [queueEvents_append, handedIn_append]
    exact hsub.append hsub'
  · rw [sentOn_append, List.map_append, List.map_append, heq, heq']

theorem sendsHanded_of_nil {io : List Io} (h : transmissions io = []) : SendsHanded io := by
  intro fd
  refine ⟨[], List.nil_sublist _, ?_⟩
  simp [sentOn, h]

/-- The message taken from the queue is the one sent. -/
theorem sendsHanded_of_popped {q q' : List IpcMessage} {fd : Fd} {m : Option IpcMessage}
    {es es' : List (QueueEvent IpcMessage)} {io : List Io} (hpopped : Popped q fd m es q')
    (hq : queueEvents io = es ++ es') (htransmits : Transmits fd m io) : SendsHanded io := by
  rcases htransmits with hnil | ⟨bs, s, hone, hbs⟩
  · exact sendsHanded_of_nil hnil
  · intro fd'
    by_cases hsent : fd = fd' ∧ bs ≠ []
    · obtain ⟨rfl, hne⟩ := hsent
      obtain ⟨m', hm', rfl⟩ := hbs.resolve_left hne
      cases hpopped with
      | empty _ => cases hm'
      | first _ hget hfd =>
        cases hm'
        refine ⟨[m'], ?_, ?_⟩
        · rw [hq, handedIn_append]
          refine List.Sublist.trans ?_ (List.sublist_append_left _ _)
          simp [handedIn, QueueEvent.leaving, hget, lane_cons_pos hfd]
        · simp [sentOn, hone, hne]
    · refine ⟨[], List.nil_sublist _, ?_⟩
      simp only [sentOn, hone]
      rw [List.filter_cons_of_neg (by simpa using hsent)]
      rfl

/-! ## One call -/

/-- What every call keeps. -/
structure Refines (v : View) (new : List Fd) (io : List Io) (w : View) : Prop where
  tracked : w.Tracked
  steps : QueueSteps IpcMessage.fd v.tx (queueEvents io) w.tx
  fds : ∀ fd ∈ w.fds, fd ∈ v.fds ∨ fd ∈ new
  sent : SendsHanded io

/-- One call after the other. -/
theorem Refines.trans {u v w : View} {new new' : List Fd} {io io' : List Io}
    (h : Refines u new io v) (h' : Refines v new' io' w) : Refines u (new ++ new') (io ++ io') w where
  tracked := h'.tracked
  steps := by
    rw [queueEvents_append]
    exact h.steps.append h'.steps
  fds := by
    intro fd hfd
    rw [List.mem_append]
    rcases h'.fds fd hfd with hfd | hfd
    · rcases h.fds fd hfd with hfd | hfd
      · exact .inl hfd
      · exact .inr (.inl hfd)
    · exact .inr (.inr hfd)
  sent := h.sent.append h'.sent

theorem Refines.mono {v w : View} {new : List Fd} {io : List Io} (h : Refines v [] io w) :
    Refines v new io w where
  tracked := h.tracked
  steps := h.steps
  fds := fun fd hfd => (h.fds fd hfd).imp_right (by simp)
  sent := h.sent

/-- Only the queue events and the `send(2)` calls of the log matter. -/
theorem Refines.congr_log {v w : View} {new : List Fd} {io io' : List Io}
    (h : Refines v new io w) (hq : queueEvents io' = queueEvents io)
    (hsent : transmissions io' = transmissions io) : Refines v new io' w where
  tracked := h.tracked
  steps := hq ▸ h.steps
  fds := h.fds
  sent := by
    intro fd
    rw [hq, sentOn, hsent]
    exact h.sent fd

/-- A call that leaves the queue alone and forgets no descriptor. -/
theorem refines_of_tx_eq {v w : View} {new : List Fd} {io : List Io} (h : v.Tracked)
    (htx : w.tx = v.tx) (hfds : w.fds = v.fds ++ new) (hq : queueEvents io = [])
    (hsent : transmissions io = []) : Refines v new io w where
  tracked := by
    refine View.tracked_congr ?_ (by simp [htx]) h
    intro fd hfd
    rw [hfds]
    exact List.mem_append_left _ hfd
  steps := by
    rw [hq, htx]
    exact .nil v.tx
  fds := by
    intro fd hfd
    rw [hfds] at hfd
    exact List.mem_append.mp hfd
  sent := sendsHanded_of_nil hsent

theorem refines_refl {v : View} (h : v.Tracked) : Refines v [] [] v :=
  refines_of_tx_eq h rfl (by simp) rfl rfl

/-- The result of a call: the context of a view again. -/
def Returns (v : View) (new : List Fd) (r : IpcCtx × List Io) : Prop :=
  ∃ w, r.1 = .ofView w ∧ Refines v new r.2 w

/-! ## Adding connections -/

theorem ipcAdd_returns {v : View} (h : v.Tracked) (p : IpcConnectionInfo) (pollfd : PollFd) :
    Returns v [pollfd.fd] (ipcAdd (.ofView v) p pollfd, []) :=
  ⟨_, ipcAdd_ofView v p pollfd, refines_of_tx_eq h rfl (by simp [View.fds]) rfl rfl⟩

theorem ipcSwitchingAdd_returns {v : View} (h : v.Tracked) (orig dest : Fd) :
    Returns v [] ({ IpcCtx.ofView v with
      switchdb := ipcSwitchingAdd (IpcCtx.ofView v).switchdb orig dest }, []) := by
  refine ⟨{ v with switchdb := v.switchdb ++ [{ orig := orig, dest := dest }] }, ?_,
    refines_of_tx_eq h rfl (by simp [View.fds]) rfl rfl⟩
  simp only [ofView_switchdb, ipcSwitchingAdd_ofList]
  rfl

theorem ipcCtxFdType_returns {v : View} (h : v.Tracked) {fd : Fd} {type : IpcConnectionType}
    {r : Int × IpcCtx} (hr : ipcCtxFdType (.ofView v) fd type = some r) :
    Returns v [] (r.2, []) := by
  simp only [ipcCtxFdType, entries_ofView, Option.bind_eq_bind, Option.bind_some,
    Option.pure_def] at hr
  split at hr
  · cases hr
    exact ⟨v, rfl, refines_refl h⟩
  · rename_i i hi
    cases hr
    obtain ⟨hlt, -, -⟩ := List.findIdx?_eq_some_iff_getElem.mp hi
    rw [List.modify_eq_set, List.getElem?_eq_getElem hlt, setEntries_ofView (by simp)]
    refine ⟨_, rfl, refines_of_tx_eq h rfl ?_ rfl rfl⟩
    rw [List.append_nil]
    exact map_fd_set (List.getElem?_eq_getElem hlt) rfl

/-! ## Queueing messages -/

theorem Queued.refines {v w : View} (h : v.Tracked) {m : IpcMessage}
    {es : List (QueueEvent IpcMessage)} (hqueued : Queued v m es w) :
    Refines v [] (es.map .queue) w where
  tracked := hqueued.tracked h
  steps := by
    rw [queueEvents_map_queue]
    exact hqueued.steps
  fds := by
    intro fd hfd
    rw [View.fds_eq, hqueued.info, ← View.fds_eq] at hfd
    exact .inl hfd
  sent := sendsHanded_of_nil (transmissions_map_queue es)

theorem ipcWrite_returns {v : View} (h : v.Tracked) {m : IpcMessage} {e : IpcErrorCode}
    {r : IpcCtx × List Io} (hr : ipcWrite (.ofView v) m = some (e, r)) : Returns v [] r := by
  obtain ⟨e', w, es, hwrite, hqueued⟩ := ipcWrite_ofView v m
  rw [hwrite] at hr
  cases hr
  exact ⟨w, rfl, hqueued.refines h⟩

/-! ## Closing and deleting connections -/

@[simp] theorem queueEvents_closedFd (e : IpcConnectionInfo × PollFd) :
    queueEvents (closedFd e) = [] := by
  unfold closedFd
  split <;> rfl

@[simp] theorem transmissions_closedFd (e : IpcConnectionInfo × PollFd) :
    transmissions (closedFd e) = [] := by
  unfold closedFd
  split <;> rfl

theorem ClosedAt.refines {v w : View} (h : v.Tracked) {i : Nat}
    {e : IpcConnectionInfo × PollFd} (hget : v.conns[i]? = some e)
    {es : List (QueueEvent IpcMessage)} (hclosed : ClosedAt v i e es w) :
    Refines v [] (closedFd e ++ es.map .queue) w where
  tracked := hclosed.tracked hget h
  steps := by
    rw [queueEvents_append, queueEvents_closedFd, queueEvents_map_queue]
    exact hclosed.steps
  fds := by
    intro fd hfd
    rw [hclosed.fds hget] at hfd
    exact .inl hfd
  sent := sendsHanded_of_nil (by simp)

theorem ipcClose_returns {v : View} (h : v.Tracked) {index : Nat} {sys : CloseSys}
    {e : IpcErrorCode} {r : IpcCtx × List Io}
    (hr : ipcClose (.ofView v) index sys = some (e, r)) : Returns v [] r := by
  cases hget : v.conns[index]? with
  | none =>
    simp only [ipcClose, entries_ofView, Option.bind_eq_bind, Option.bind_some, hget,
      Option.bind_none] at hr
    cases hr
  | some c =>
    obtain ⟨e', w, es, hclose, hclosed⟩ := ipcClose_ofView hget sys
    rw [hclose] at hr
    cases hr
    exact ⟨w, rfl, hclosed.refines h hget⟩

theorem ipcCloseAll_returns {v : View} (h : v.Tracked) {sys : Nat → CloseSys}
    {r : IpcCtx × List Io} (hr : ipcCloseAll (.ofView v) sys = some r) : Returns v [] r := by
  have hs : Returns v [] (.ofView v, []) := ⟨v, rfl, refines_refl h⟩
  unfold ipcCloseAll at hr
  -- Induction on the indices left to close, from what has been closed so far.
  generalize List.range (IpcCtx.ofView v).size = indices at hr
  generalize (IpcCtx.ofView v, ([] : List Io)) = s at hr hs
  induction indices generalizing s with
  | nil =>
    simp only [List.foldlM_nil, Option.pure_def, Option.some.injEq] at hr
    exact hr ▸ hs
  | cons i indices ih =>
    rw [List.foldlM_cons] at hr
    obtain ⟨s', hstep, hr⟩ := Option.bind_eq_some_iff.mp hr
    obtain ⟨⟨e, ctx, io⟩, hclose, hs'⟩ := Option.bind_eq_some_iff.mp hstep
    simp only [Option.pure_def, Option.some.injEq] at hs'
    subst hs'
    obtain ⟨w, hw, hrefines⟩ := hs
    rw [hw] at hclose
    obtain ⟨w', hw', hrefines'⟩ := ipcClose_returns hrefines.tracked hclose
    exact ih _ hr ⟨w', hw', hrefines.trans hrefines'⟩

theorem Deleted.refines {v w : View} (h : v.Tracked) {i : Nat}
    {e : IpcConnectionInfo × PollFd} (hget : v.conns[i]? = some e)
    {es : List (QueueEvent IpcMessage)} (hdeleted : Deleted v i e.2.fd es w) :
    Refines v [] (es.map .queue) w where
  tracked := hdeleted.tracked hget h
  steps := by
    rw [queueEvents_map_queue]
    exact hdeleted.steps
  fds := by
    intro fd hfd
    rw [View.fds, hdeleted.conns, List.mem_map] at hfd
    obtain ⟨c, hc, rfl⟩ := hfd
    exact .inl (List.mem_map_of_mem (mem_of_mem_swapRemove hc))
  sent := sendsHanded_of_nil (transmissions_map_queue es)

theorem ipcDel_returns {v : View} (h : v.Tracked) {index : Nat} {e : IpcErrorCode}
    {r : IpcCtx × List Io} (hr : ipcDel (.ofView v) index = some (e, r)) : Returns v [] r := by
  by_cases hlt : index < v.conns.length
  · have hget := List.getElem?_eq_getElem hlt
    obtain ⟨w, es, hdel, hdeleted⟩ := ipcDel_ofView h hget
    rw [hdel] at hr
    cases hr
    exact ⟨w, rfl, hdeleted.refines h hget⟩
  · unfold ipcDel at hr
    split at hr
    · cases hr
      exact ⟨v, rfl, refines_refl h⟩
    · rw [ofView_size, if_pos (Nat.not_lt.mp hlt)] at hr
      cases hr
      exact ⟨v, rfl, refines_refl h⟩

theorem DeletedFd.refines {v w : View} (h : v.Tracked) {fd : Fd}
    {es : List (QueueEvent IpcMessage)} (hdeleted : DeletedFd v fd es w) :
    Refines v [] (es.map .queue) w where
  tracked := hdeleted.tracked h
  steps := by
    rw [queueEvents_map_queue]
    exact hdeleted.steps
  fds := by
    intro fd' hfd'
    rw [hdeleted.fds_perm.mem_iff] at hfd'
    exact .inl (List.mem_of_mem_erase hfd')
  sent := sendsHanded_of_nil (transmissions_map_queue es)

theorem ipcDelFd_returns {v : View} (h : v.Tracked) {fd : Fd} {e : IpcErrorCode}
    {r : IpcCtx × List Io} (hr : ipcDelFd (.ofView v) fd = some (e, r)) : Returns v [] r := by
  obtain ⟨e', w, es, hdel, hdeleted⟩ := ipcDelFd_ofView h fd
  rw [hdel] at hr
  cases hr
  exact ⟨w, rfl, hdeleted.refines h⟩

/-! ## Switching -/

/-- The switching table is no part of what is kept. -/
theorem Refines.withSwitchdb {v w : View} {new : List Fd} {io : List Io} (h : Refines v new io w)
    (l : List IpcSwitching) : Refines v new io { w with switchdb := l } :=
  ⟨h.tracked, h.steps, h.fds, h.sent⟩

theorem ipcSwitchingDel_returns {v : View} (h : v.Tracked) {fd r : Fd} {sw : IpcSwitchings}
    (hr : ipcSwitchingDel (IpcCtx.ofView v).switchdb fd = some (r, sw)) :
    Returns v [] ({ IpcCtx.ofView v with switchdb := sw }, []) := by
  obtain ⟨r', l, hdel, -⟩ := ipcSwitchingDel_ofList v.switchdb fd
  rw [ofView_switchdb, hdel] at hr
  cases hr
  exact ⟨_, rfl, (refines_refl h).withSwitchdb l⟩

theorem ipcSwitchingCallbacks_returns {v : View} (h : v.Tracked) {fd : Fd}
    {a b : Option Callback} {sw : IpcSwitchings}
    (hr : ipcSwitchingCallbacks (IpcCtx.ofView v).switchdb fd a b = some sw) :
    Returns v [] ({ IpcCtx.ofView v with switchdb := sw }, []) := by
  obtain ⟨l, rfl⟩ := ipcSwitchingCallbacks_ofList hr
  exact ⟨_, rfl, (refines_refl h).withSwitchdb l⟩

/-! ## The event loop -/

theorem View.Same.refines {v w : View} (h : v.Tracked) (hsame : v.Same w) : Refines v [] [] w :=
  refines_of_tx_eq h hsame.tx (by rw [hsame.fds, List.append_nil]) rfl rfl

theorem refines_touch {v : View} (h : v.Tracked) {i : Nat} {e : IpcConnectionInfo × PollFd}
    (hget : v.conns[i]? = some e) (more : Int) {p : PollFd} (hp : p.fd = e.2.fd) {io : List Io}
    (hq : queueEvents io = []) (hsent : transmissions io = []) :
    Refines v [] io (v.touch i e more p) :=
  refines_of_tx_eq h rfl (by rw [fds_touch hget more hp, List.append_nil]) hq hsent

/-- A client joins the connections. -/
theorem refines_accepted {v : View} (h : v.Tracked) {i : Nat} {e : IpcConnectionInfo × PollFd}
    (hget : v.conns[i]? = some e) (x : IpcConnectionInfo × PollFd) :
    Refines v [x.2.fd] [] { v with conns := (v.touch i e 0 e.2).conns ++ [x] } := by
  refine refines_of_tx_eq h rfl ?_ rfl rfl
  rw [← fds_touch hget 0 rfl]
  simp [View.fds]

/-- The message searched for is taken from the queue and sent. -/
theorem refines_popped {v : View} (h : v.Tracked) {i : Nat} {e : IpcConnectionInfo × PollFd}
    (hget : v.conns[i]? = some e) {p : PollFd} (hp : p.fd = e.2.fd) {m : Option IpcMessage}
    {es : List (QueueEvent IpcMessage)} {tx : List IpcMessage}
    (hpopped : Popped v.tx e.2.fd m es tx) {io : List Io} (hq : queueEvents io = es)
    (htransmits : Transmits e.2.fd m io) :
    Refines v [] io { v.touch i e e.1.moreToRead p with tx := tx } where
  tracked := tracked_popped (tracked_touch hget _ hp h) hpopped
  steps := by
    rw [hq]
    exact hpopped.steps
  fds := by
    intro fd hfd
    have hsame := fds_touch hget e.1.moreToRead hp
    exact .inl (hsame ▸ hfd)
  sent := sendsHanded_of_popped hpopped (by rw [hq, List.append_nil]) htransmits

theorem Handling.refines {v w : View} (h : v.Tracked) {i : Nat}
    {e : IpcConnectionInfo × PollFd} (hget : v.conns[i]? = some e) {event : IpcEvent}
    {io : List Io} {accept : Fd} (hhandling : Handling accept v i e event w io) :
    Refines v [accept] io w := by
  cases hhandling with
  | kept hp _ _ _ hsilent =>
    exact (refines_touch h hget _ hp hsilent.queueEvents hsilent.transmissions).mono
  | accepted _ _ _ _ =>
    exact refines_accepted h hget ({}, { fd := accept, events := { pollin := true } })
  | acceptFailed _ _ _ => exact refines_accepted h hget ({}, { fd := accept })
  | relayed _ _ hsilent hqueued _ _ =>
    have htouch := fun more =>
      refines_touch h hget more rfl hsilent.queueEvents hsilent.transmissions
    exact ((htouch _).trans (hqueued.refines (tracked_touch hget _ rfl h))).mono
  | readTorn _ _ hsilent h₁ h₂ _ _ _ =>
    have htouch := fun more =>
      refines_touch h hget more rfl hsilent.queueEvents hsilent.transmissions
    -- Two deletions, the second one in the view the first one leaves.
    have hdest := h₁.refines (tracked_touch hget _ rfl h)
    have hself := h₂.refines hdest.tracked
    rw [List.map_append]
    exact (((htouch _).trans (hdest.trans hself)).withSwitchdb _).mono
  | written hp hpopped hq htransmits _ _ => exact (refines_popped h hget hp hpopped hq htransmits).mono
  | @writeTorn _ _ _ _ _ _ _ _ _ _ l _ _ _ hp hpopped hq htransmits _ _ _ hother hself hq' hsent' =>
    have hsent := (refines_popped h hget hp hpopped hq htransmits).withSwitchdb l
    refine (hsent.trans ?_).mono
    rcases hother with ⟨-, hdeleted⟩ | ⟨-, rfl, rfl⟩
    · have hend := hdeleted.refines hsent.tracked
      refine (hend.trans (hself.refines hend.tracked)).congr_log ?_ ?_
      · simp [hq', queueEvents_map_queue]
      · simp [hsent']
    · refine (hself.refines hsent.tracked).congr_log ?_ ?_
      · simp [hq', queueEvents_map_queue]
      · simp [hsent']
  | disconnected _ hclosed hdeleted _ _ =>
    have htouch : Refines v [] [] (v.touch i e 0 e.2) := refines_touch h hget 0 rfl rfl rfl
    have hget₀ := touch_getElem? hget 0 e.2
    obtain ⟨path, hget₁⟩ := hclosed.getElem? hget₀
    have hclose := hclosed.refines htouch.tracked hget₀
    have hdel := Deleted.refines hclose.tracked hget₁ hdeleted
    rw [List.map_append, ← List.append_assoc]
    exact (htouch.trans (hclose.trans hdel)).mono
  | hungUp _ _ hclosed _ _ => exact (hclosed.refines h hget).mono

theorem ipcWaitEvent_returns {v : View} (h : v.Tracked) {timer timer' : Int} {sys : WaitSys}
    {r : IpcErrorCode} {ctx : IpcCtx} {event : IpcEvent} {io : List Io}
    (hr : ipcWaitEvent (.ofView v) timer sys = some (r, ctx, event, timer', io)) :
    Returns v [sys.accept] (ctx, io) := by
  obtain ⟨w, rfl, ⟨hsame, rfl, -⟩ | ⟨revents, i, e, -, -, hget, hhandling⟩⟩ :=
    ipcWaitEvent_handling h hr
  · exact ⟨w, rfl, (hsame.refines h).mono⟩
  · have hpolled := (same_polled v revents).refines h
    exact ⟨w, rfl, hpolled.trans (hhandling.refines hpolled.tracked hget)⟩

/-! ## All calls -/

/-- The descriptor `ipc_connection_` adds. -/
def connectedFd (ipcd : Fd) (connect : Except IpcErrorCode Fd) : List Fd :=
  (if ipcd ≤ 0 then connect else .ok ipcd).toOption.toList

/-- The descriptors a call can make tracked. -/
def Call.newFds : Call → List Fd
  | .serverInit _ _ init => init.toOption.toList
  | .connection ipcd connect => connectedFd ipcd connect
  | .connectionSwitched clientfd ipcd connect => connectedFd ipcd connect ++ [clientfd]
  | .add _ pollfd => [pollfd.fd]
  | .addFd fd => [fd]
  | .addFdSwitched fd => [fd]
  | .waitEvent _ sys => [sys.accept]
  | _ => []

theorem ipcConnection_returns {v : View} (h : v.Tracked) {type : IpcConnectionType} {ipcd fd : Fd}
    {connect : Except IpcErrorCode Fd} {ctx : IpcCtx}
    (hr : ipcConnection_ (.ofView v) type ipcd connect = .ok (ctx, fd)) :
    Returns v (connectedFd ipcd connect) (ctx, []) := by
  unfold ipcConnection_ at hr
  unfold connectedFd
  generalize (if ipcd ≤ 0 then connect else .ok ipcd) = fd' at hr
  cases fd' with
  | error e => cases hr
  | ok fd' =>
    cases hr
    exact ipcAdd_returns h _ _

/-- What every public call keeps. -/
theorem step_refines {v : View} (h : v.Tracked) {c : Call} {r : IpcCtx × List Io}
    (hr : step (.ofView v) c = some r) : Returns v c.newFds r := by
  have hsame : ∀ new, Returns v new (.ofView v, []) := fun new => ⟨v, rfl, (refines_refl h).mono⟩
  cases c with
  | serverInit rundir sname init =>
    cases hr
    cases init with
    | error e => exact hsame _
    | ok fd => exact ipcAdd_returns h _ _
  | connection ipcd connect =>
    simp only [step, ipcConnection, Option.some.injEq] at hr
    subst hr
    cases hc : ipcConnection_ (.ofView v) .ipc ipcd connect with
    | error e => exact hsame _
    | ok p => exact ipcConnection_returns h hc
  | connectionSwitched clientfd ipcd connect =>
    simp only [step, ipcConnectionSwitched, Option.some.injEq] at hr
    subst hr
    cases hc : ipcConnection_ (.ofView v) .switched ipcd connect with
    | error e => exact hsame _
    | ok p =>
      -- The service, then the client, then the pair.
      obtain ⟨v₁, hv₁, hservice⟩ := ipcConnection_returns h hc
      obtain ⟨v₂, hv₂, hclient⟩ := ipcAdd_returns hservice.tracked { type := .switched }
        { fd := clientfd, events := { pollin := true } }
      obtain ⟨v₃, hv₃, hpair⟩ := ipcSwitchingAdd_returns hclient.tracked clientfd p.2
      refine ⟨v₃, ?_, ?_⟩
      · rw [← hv₃]
        simp only [ipcAddFdSwitched, ipcAddFd_]
        rw [show p.1 = .ofView v₁ from hv₁, show ipcAdd (.ofView v₁) _ _ = .ofView v₂ from hv₂]
      · have hall := (hservice.trans hclient).trans hpair
        rwa [List.append_nil] at hall
  | add p pollfd =>
    cases hr
    exact ipcAdd_returns h p pollfd
  | addFd fd =>
    cases hr
    exact ipcAdd_returns h _ _
  | addFdSwitched fd =>
    cases hr
    exact ipcAdd_returns h _ _
  | fdType fd type =>
    obtain ⟨r', htype, rfl⟩ := Option.map_eq_some_iff.mp hr
    exact ipcCtxFdType_returns h htype
  | del index =>
    obtain ⟨⟨e, r'⟩, hdel, rfl⟩ := Option.map_eq_some_iff.mp hr
    exact ipcDel_returns h hdel
  | delFd fd =>
    obtain ⟨⟨e, r'⟩, hdel, rfl⟩ := Option.map_eq_some_iff.mp hr
    exact ipcDelFd_returns h hdel
  | close index sys =>
    obtain ⟨⟨e, r'⟩, hclose, rfl⟩ := Option.map_eq_some_iff.mp hr
    exact ipcClose_returns h hclose
  | closeAll sys => exact ipcCloseAll_returns h hr
  | write m =>
    obtain ⟨⟨e, r'⟩, hwrite, rfl⟩ := Option.map_eq_some_iff.mp hr
    exact ipcWrite_returns h hwrite
  | switchingAdd orig dest =>
    cases hr
    exact ipcSwitchingAdd_returns h orig dest
  | switchingDel fd =>
    obtain ⟨⟨fd', sw⟩, hdel, rfl⟩ := Option.map_eq_some_iff.mp hr
    exact ipcSwitchingDel_returns h hdel
  | switchingCallbacks fd cbIn cbOut =>
    obtain ⟨sw, hsw, rfl⟩ := Option.map_eq_some_iff.mp hr
    exact ipcSwitchingCallbacks_returns h hsw
  | waitEvent timer sys =>
    obtain ⟨⟨e, ctx, event, t, io⟩, hwait, rfl⟩ := Option.map_eq_some_iff.mp hr
    exact ipcWaitEvent_returns h hwait

end LibIpc.C

import LibIpc.C.PingPong

/-!
# Every message of a client can be answered

What has been sent in good order is never stuck: as long as the service runs and the connection is
open, three more steps bring a client the answer it waits for (`answer_follows`), and `pong` can be
brought to its end, all its messages answered (`nonInteractive_completes`).
-/

namespace LibIpc.C

open Lib

/-! ## What the service keeps of a client -/

/-- Nothing is marked as still to be read: only switched connections are. -/
def View.Unread (v : View) : Prop := ∀ e ∈ v.conns, e.1.moreToRead = 0

section
variable {s s' : Pongd} {v w : View} {sys : WaitSys} {fd : Fd} {log : List PongdIo} {t : Int}
  {i : Nat} {e : IpcConnectionInfo × PollFd}

theorem View.Same.kinds (h : v.Same w) : w.kinds = v.kinds := by
  have hinfo := congrArg (List.map fun c => (c.1.type, c.2)) h.info
  simpa [View.info, View.kinds, Function.comp_def] using hinfo

theorem unread_of_info (h : w.info = v.info) (hv : v.Unread) : w.Unread := by
  intro e he
  have hmem : (e.1, e.2.fd) ∈ w.info := List.mem_map_of_mem he
  rw [h] at hmem
  obtain ⟨e', he', heq⟩ := List.mem_map.mp hmem
  rw [← (Prod.mk.inj heq).1]
  exact hv e' he'

theorem Queued.kinds {m : IpcMessage} {es : List (QueueEvent IpcMessage)} (h : Queued v m es w) :
    w.kinds = v.kinds := by
  have hinfo := congrArg (List.map fun c => (c.1.type, c.2)) h.info
  simpa [View.info, View.kinds, Function.comp_def] using hinfo

theorem touch_kinds (hget : v.conns[i]? = some e) (more : Int) {p : PollFd} (hp : p.fd = e.2.fd) :
    (v.touch i e more p).kinds = v.kinds :=
  kinds_set hget (by rw [hp])

theorem unread_set {x : IpcConnectionInfo × PollFd} (hx : x.1.moreToRead = 0) (hv : v.Unread) :
    ∀ y ∈ v.conns.set i x, y.1.moreToRead = 0 := by
  intro y hy
  rcases List.mem_or_eq_of_mem_set hy with hy | rfl
  · exact hv y hy
  · exact hx

/-- The connections that a round leaves. -/
structure Keeps (v : View) (sys : WaitSys) (log : List PongdIo) (w : View) : Prop where
  unread : w.Unread
  kept : ∀ c ∈ v.kinds, c.2 ∉ closedFds (libraryIo log) → c ∈ w.kinds
  new : ∀ fd, acceptedOn fd log = true → (.ipc, fd) ∈ w.kinds

theorem mem_kinds_swapRemove {es : List (IpcConnectionInfo × PollFd)} (hget : es[i]? = some e)
    {c : IpcConnectionType × Fd} (hc : c ∈ es.map fun e => (e.1.type, e.2.fd))
    (hne : c.2 ≠ e.2.fd) : c ∈ (swapRemove es i).map fun e => (e.1.type, e.2.fd) := by
  obtain ⟨hlt, rfl⟩ := List.getElem?_eq_some_iff.mp hget
  have hperm := (perm_cons_swapRemove hlt).map fun e => (e.1.type, e.2.fd)
  rcases List.mem_cons.mp (hperm.mem_iff.mp hc) with rfl | hc
  · exact absurd rfl hne
  · exact hc

/-- A round of a running service keeps the connections it does not close. -/
theorem round_keeps (hunread : v.Unread) (hrunning : s'.exited = false)
    (h : Round s v sys t s' w log) : Keeps v sys log w := by
  have hpolled : ∀ revents, (v.polled revents).kinds = v.kinds := fun revents =>
    (same_polled v revents).kinds
  have hunread' : ∀ revents, (v.polled revents).Unread := fun revents =>
    unread_of_info (same_polled v revents).info hunread
  have hone : ∀ {io : List Io} {event : IpcEvent}, event.type ≠ .connection → ∀ fd,
      acceptedOn fd (io.map .io ++ [.event event]) = true → (IpcConnectionType.ipc, fd) ∈ w.kinds := by
    intro io event htype fd haccepted
    simp [acceptedOn, htype] at haccepted
  cases h with
  | exits _ _ => cases hrunning
  | @idle revents w event _ _ hsame htype =>
    refine ⟨unread_of_info hsame.info hunread, ?_, @hone [] event ?_⟩
    · intro c hc _
      rwa [hsame.kinds]
    · rcases htype with ⟨htype, -⟩ | htype
      · simp [htype]
      · simp [htype]
  | @accepted revents i e w _ _ hget _ _ _ hw =>
    have hkinds : w.kinds = v.kinds ++ [(.ipc, sys.accept)] := by
      rw [← hpolled revents, ← touch_kinds hget 0 rfl, hw]
      simp [View.kinds]
    refine ⟨?_, ?_, ?_⟩
    · intro x hx
      rw [hw] at hx
      rcases List.mem_append.mp hx with hx | hx
      · exact unread_set rfl (hunread' revents) x hx
      · obtain rfl := List.mem_singleton.mp hx
        rfl
    · intro c hc _
      rw [hkinds]
      exact List.mem_append_left _ hc
    · intro fd haccepted
      rw [hkinds]
      have hfd : sys.accept = fd := by simpa [acceptedOn] using haccepted
      simp [hfd]
  | @echoed revents i e w m rest _ _ hget _ _ _ hqueued =>
    refine ⟨?_, ?_, ?_⟩
    · exact unread_of_info hqueued.info fun x hx => unread_set rfl (hunread' revents) x hx
    · intro c hc _
      rwa [hqueued.kinds, touch_kinds hget 0 rfl, hpolled]
    · intro fd haccepted
      simp [acceptedOn] at haccepted
  | @left revents i e w₁ w event rest es₁ es₂ _ _ hget _ ht _ hclosed hdeleted _ htype _ =>
    have hget₁ := touch_getElem? hget 0 e.2
    obtain ⟨path, hconns⟩ := hclosed.conns
    have hkinds : w₁.kinds = v.kinds := by
      rw [hclosed.kinds hget₁, touch_kinds hget 0 rfl, hpolled]
    refine ⟨?_, ?_, hone (by simp [htype])⟩
    · intro x hx
      rw [hdeleted.conns, hconns] at hx
      exact unread_set rfl (fun y hy => unread_set rfl (hunread' revents) y hy) x
        (mem_of_mem_swapRemove hx)
    · intro c hc hopen
      rw [libraryIo_append, libraryIo_map_io] at hopen
      have hne : e.1.type ≠ .external := by simp [ht]
      have hfd : c.2 ≠ e.2.fd := by
        intro hfd
        apply hopen
        show c.2 ∈ closedFds (_ ++ [])
        rw [List.append_nil, closedFds_closedFd_append, mem_ownFds_singleton hne]
        exact hfd
      obtain ⟨path', hget₂⟩ := hclosed.getElem? hget₁
      rw [View.kinds, hdeleted.conns]
      rw [← hkinds] at hc
      exact mem_kinds_swapRemove hget₂ hc hfd
  | @written revents i e w event io _ _ hget htype hserved =>
    obtain ⟨p, found, es, tx, -, -, hp, -, -, rfl⟩ := hserved.of_tx htype
    refine ⟨?_, ?_, hone (by simp [htype])⟩
    · intro x hx
      refine unread_set ?_ (hunread' revents) x hx
      exact hunread' revents e (List.mem_of_getElem? hget)
    · intro c hc _
      rw [← hpolled revents, ← touch_kinds hget e.1.moreToRead hp] at hc
      exact hc
  | @hungUp revents i e w event es _ _ hget _ _ hclosed _ htype _ =>
    obtain ⟨path, hconns⟩ := hclosed.conns
    refine ⟨?_, ?_, hone (by simp [htype])⟩
    · intro x hx
      rw [hconns] at hx
      refine unread_set ?_ (hunread' revents) x hx
      exact hunread' revents e (List.mem_of_getElem? hget)
    · intro c hc _
      rwa [hclosed.kinds hget, hpolled]
  | @failed revents i e event _ _ hget _ _ htype _ =>
    refine ⟨hunread' revents, ?_, @hone [] event (by simp [htype])⟩
    intro c hc _
    rwa [hpolled]

end

/-! ## A round for one client -/

/-- What `poll(2)` stores when only the connection at `i` is ready. -/
def onlyReady (i : Nat) (r : PollEvents) : List PollEvents :=
  List.replicate i ({} : PollEvents) ++ [r]

section
variable {s s' : Pongd} {v w : View} {sys : WaitSys} {fd : Fd} {log : List PongdIo} {t : Int}
  {i : Nat} {e : IpcConnectionInfo × PollFd} {r : PollEvents}

theorem getD_onlyReady (i : Nat) (r : PollEvents) :
    (∀ j < i, (onlyReady i r).getD j {} = {}) ∧ (onlyReady i r).getD i {} = r := by
  refine ⟨?_, ?_⟩
  · intro j hj
    simp [onlyReady, List.getD_eq_getElem?_getD, List.getElem?_append, hj]
  · simp [onlyReady, List.getD_eq_getElem?_getD]

/-- The dispatch loop stops at the connection that is ready. -/
theorem polled_onlyReady (hunread : v.Unread) (hget : v.conns[i]? = some e)
    (hr : r.pollin ∨ r.pollout) :
    (v.polled (onlyReady i r)).conns.findIdx? handled = some i ∧
      ∃ e', (v.polled (onlyReady i r)).conns[i]? = some e' ∧ e'.1 = e.1 ∧ e'.2.fd = e.2.fd ∧
        e'.2.revents = r := by
  obtain ⟨hbefore, hat⟩ := getD_onlyReady i r
  have hentry : ∀ (j : Nat) (x : IpcConnectionInfo × PollFd), v.conns[j]? = some x →
      ∃ events, (v.polled (onlyReady i r)).conns[j]? =
        some (x.1, { fd := x.2.fd, events := events, revents := (onlyReady i r).getD j {} }) := by
    intro j x hx
    simp [View.polled, storeRevents, pollEntries, List.getElem?_mapIdx, hx]
  obtain ⟨hlt, -⟩ := List.getElem?_eq_some_iff.mp hget
  obtain ⟨events, hget'⟩ := hentry i e hget
  rw [hat] at hget'
  refine ⟨?_, _, hget', rfl, rfl, rfl⟩
  rw [List.findIdx?_eq_some_iff_getElem]
  obtain ⟨hlt', heq⟩ := List.getElem?_eq_some_iff.mp hget'
  refine ⟨hlt', ?_, ?_⟩
  · rw [heq]
    rcases hr with hr | hr
    · simp [handled, readable, hr]
    · simp [handled, hr]
  · intro j hj
    have hjv : j < v.conns.length := Nat.lt_trans hj hlt
    obtain ⟨events', hgetj⟩ := hentry j _ (List.getElem?_eq_getElem hjv)
    rw [hbefore j hj] at hgetj
    obtain ⟨_, heqj⟩ := List.getElem?_eq_some_iff.mp hgetj
    have hzero := hunread _ (List.getElem_mem hjv)
    rw [heqj]
    simp [handled, readable, hzero]

/-- A wait that takes no time. -/
theorem timerAfter_now {timer : Int} (h : timer < 2 ^ 31) :
    ∃ t, timerAfter timer {} {} = some t ∧ t < 2 ^ 31 := by
  have helapsed : timeElapsedMs {} {} = some 0 := by decide
  rw [timerAfter_eq, helapsed, Option.bind_some]
  split
  · exact ⟨0, rfl, by decide⟩
  · rename_i hpos
    refine ⟨timer, ?_, h⟩
    rw [Int.sub_zero, toInt_eq_some_iff]
    exact ⟨by omega, rfl⟩

/-- A wait that stops at an entry. -/
theorem ipcWaitEvent_entry {timer : Int} {revents : List PollEvents}
    (hpoll : sys.poll = some revents) (htimer : timerAfter timer sys.tv₁ sys.tv₂ = some t)
    (hfind : (v.polled revents).conns.findIdx? handled = some i)
    (hget : (v.polled revents).conns[i]? = some e) (hready : e.2.revents ≠ {}) :
    ipcWaitEvent (.ofView v) timer sys =
      (dispatch (.ofView (v.polled revents)) (v.polled revents).conns i e sys).map
        fun (r, ctx, event, io) => (r, ctx, event, t, io) := by
  have hentries : (IpcCtx.ofView v).setEntries (pollEntries v.conns v.tx) =
      .ofView { v with conns := pollEntries v.conns v.tx } := setEntries_ofView (by simp [pollEntries])
  have hconns : storeRevents (pollEntries v.conns v.tx) revents = (v.polled revents).conns := rfl
  have hstore : (IpcCtx.ofView { v with conns := pollEntries v.conns v.tx }).setEntries
      (v.polled revents).conns = .ofView (v.polled revents) :=
    setEntries_ofView (by simp [View.polled, storeRevents])
  have hcount : (v.polled revents).conns.countP (fun e => e.2.revents ≠ {}) ≠ 0 := by
    rw [← Nat.pos_iff_ne_zero, List.countP_pos_iff]
    exact ⟨e, List.mem_of_getElem? hget, by simpa using hready⟩
  simp only [ipcWaitEvent, entries_ofView, ofView_tx, IpcMessages.ofList_size,
    IpcMessages.block_ofList, Option.bind_eq_bind, Option.bind_some, Option.pure_def, hentries,
    hpoll, hstore, htimer, hconns, hcount, false_and, if_false, hfind, hget]
  exact Option.map_eq_bind.symm

/-- The entry that is ready is a client with a frame to read. -/
theorem dispatch_receives (hget : v.conns[i]? = some e) (hread : readable e) (ht : e.1.type = .ipc)
    {q : IpcMessage} (hfits : q.frame.length ≤ ipcMaxMessageSize) (hrecv : sys.recv = [.ok q.frame]) :
    dispatch (.ofView v) v.conns i e sys = some (.none, .ofView (v.touch i e 0 e.2),
      { type := .message, index := i, origin := e.2.fd,
        m := some { q.received default with fd := e.2.fd } }, []) := by
  have hmessage := ipcReadFd_frame hfits []
  rw [← hrecv] at hmessage
  simp only [dispatch, if_pos hread]
  rw [setEntries_touch]
  simp only [ht, handleNewMessage, entries_ofView, touch_getElem? hget, hmessage, Option.bind_eq_bind,
    Option.bind_some, Option.pure_def]

/-- The search finds the only message of the descriptor. -/
theorem searchMessage_of_lane {l : List IpcMessage} {m : IpcMessage}
    (h : lane IpcMessage.fd fd l = [m]) :
    ∃ i, i < l.length ∧ searchMessage (.ofList l) fd = some (some (l, i, m)) := by
  have hm : m ∈ lane IpcMessage.fd fd l := h ▸ List.mem_singleton_self m
  rw [lane, List.mem_filter, decide_eq_true_eq] at hm
  cases hidx : l.findIdx? (fun m => m.fd = fd) with
  | none =>
    have hnone := List.findIdx?_eq_none_iff.mp hidx m hm.1
    simp [hm.2] at hnone
  | some i =>
    obtain ⟨hlt, hfd, -⟩ := List.findIdx?_eq_some_iff_getElem.mp hidx
    have hsame : l[i] = m := by
      have hi : l[i] ∈ lane IpcMessage.fd fd l := List.mem_filter.mpr ⟨List.getElem_mem hlt, hfd⟩
      rw [h] at hi
      exact List.mem_singleton.mp hi
    have hget : l[i]? = some m := by rw [List.getElem?_eq_getElem hlt, hsame]
    have hne : l.length ≠ 0 := Nat.ne_of_gt (Nat.zero_lt_of_lt hlt)
    refine ⟨i, hlt, ?_⟩
    simp only [searchMessage, IpcMessages.ofList_size, if_neg hne, IpcMessages.block_ofList, hidx,
      hget, Option.bind_eq_bind, Option.bind_some, Option.pure_def]

/-- The entry that is ready is a client with a message waiting for it. -/
theorem dispatch_sends (hget : v.conns[i]? = some e) (hread : ¬ readable e)
    (hout : e.2.revents.pollout) (ht : e.1.type = .ipc) {m : IpcMessage}
    (hqueue : lane IpcMessage.fd e.2.fd v.tx = [m]) (hfits : m.frame.length ≤ ipcMaxMessageSize)
    (hsend : sys.send = .sent m.frame.length) :
    ∃ w event j, event.type = .tx ∧ dispatch (.ofView v) v.conns i e sys =
      some (.none, .ofView w, event,
        [.queue (.handed v.tx j), .send e.2.fd m.frame (.sent m.frame.length)]) := by
  have hmax : m.length ≤ ipcMaxMessageSize - ipcHeaderSize := by
    rw [m.length_frame] at hfits
    omega
  obtain ⟨j, hlt, hsearch⟩ := searchMessage_of_lane hqueue
  obtain ⟨code, hwrite⟩ := ipcWriteFd_eq (.sent m.frame.length) hmax
  simp only [dispatch, if_neg hread, if_pos hout]
  generalize hp : ({ e.2 with events := { e.2.events with pollout := false } } : PollFd) = p
  have hfd : p.fd = e.2.fd := by rw [← hp]
  have htouch : (IpcCtx.ofView v).setEntries (v.conns.set i (e.1, p)) =
      .ofView (v.touch i e e.1.moreToRead p) := setEntries_touch
  have htx : (v.touch i e e.1.moreToRead p).tx = v.tx := rfl
  rw [htouch]
  simp only [ht, handleWritingMessage, entries_ofView, touch_getElem? hget, ofView_tx, hfd,
    htx, Option.bind_eq_bind, Option.bind_some, Option.pure_def, hsearch, hsend, hwrite,
    Option.map_some, deleteFound_ofList m hlt]
  exact ⟨{ v.touch i e e.1.moreToRead p with tx := swapRemove v.tx j }, _, j, rfl, rfl⟩

/-- The context of a running service that has the client `fd`, as its steps leave it. -/
structure Running (s : Pongd) (v : View) (fd : Fd) : Prop where
  ctx : s.ctx = .ofView v
  serves : v.Serves
  unread : v.Unread
  timer : s.timer < 2 ^ 31
  running : s.exited = false
  client : (.ipc, fd) ∈ v.kinds

theorem Running.exists_entry (h : Running s v fd) :
    ∃ (i : Nat) (e : IpcConnectionInfo × PollFd), v.conns[i]? = some e ∧ e.1.type = .ipc ∧
      e.2.fd = fd := by
  obtain ⟨e, he, heq⟩ := List.mem_map.mp h.client
  obtain ⟨i, hget⟩ := List.mem_iff_getElem?.mp he
  obtain ⟨ht, hfd⟩ := Prod.mk.inj heq
  exact ⟨i, e, hget, ht, hfd⟩

/-- The service can read a frame that is there. -/
theorem Running.receives (h : Running s v fd) {q : IpcMessage}
    (hfits : q.frame.length ≤ ipcMaxMessageSize) :
    ∃ sys s' log, sys.recv = [.ok q.frame] ∧ readFd s.ctx sys = some fd ∧
      s.round sys = some (s', log) ∧ s'.exited = false ∧ acceptedOn fd log = false ∧
      sentOn fd (libraryIo log) = [] ∧ closedFds (libraryIo log) = [] := by
  obtain ⟨i, e, hget, ht, rfl⟩ := h.exists_entry
  obtain ⟨hfind, e', hget', hinfo, hfd, hrevents⟩ :=
    polled_onlyReady h.unread hget (r := { pollin := true }) (.inl rfl)
  obtain ⟨t, htimer, -⟩ := timerAfter_now h.timer
  obtain ⟨sys, hpoll, hrecv, htv₁, htv₂⟩ : ∃ sys : WaitSys,
      sys.poll = some (onlyReady i { pollin := true }) ∧ sys.recv = [.ok q.frame] ∧
        sys.tv₁ = {} ∧ sys.tv₂ = {} :=
    ⟨{ poll := some (onlyReady i { pollin := true }), recv := [.ok q.frame] }, rfl, rfl, rfl, rfl⟩
  have htype : e'.1.type = .ipc := by rw [hinfo, ht]
  have hread : readable e' := by simp [readable, hrevents]
  have hready : e'.2.revents ≠ {} := by
    rw [hrevents]
    decide
  have hreadFd : readFd s.ctx sys = some e.2.fd := by
    rw [h.ctx, readFd_ofView hpoll hfind hget', if_pos ⟨hread, htype⟩, hfd]
  have hclock : timerAfter s.timer sys.tv₁ sys.tv₂ = some t := by rw [htv₁, htv₂, htimer]
  have hwait := ipcWaitEvent_entry hpoll hclock hfind hget' hready
  rw [dispatch_receives hget' hread htype hfits hrecv, Option.map_some, ← h.ctx] at hwait
  have htracked : e'.2.fd ∈ ((v.polled (onlyReady i { pollin := true })).touch i e' 0 e'.2).fds := by
    rw [fds_touch hget' 0 rfl]
    exact mem_fds_of_getElem? hget'
  obtain ⟨r, w, hwrite, -⟩ :=
    ipcWrite_tracked (m := { q.received default with fd := e'.2.fd }) htracked
  have hround : s.round sys = some ({ s with ctx := .ofView w, timer := t },
      [.event { type := .message, index := i, origin := e'.2.fd, m := some { q.received default with fd := e'.2.fd } },
        .io (.queue (.queued (deepCopy { q.received default with fd := e'.2.fd })))]) := by
    simp only [Pongd.round, h.running, hwait, Pongd.handle, hwrite, Option.bind_eq_bind,
      Option.bind_some, Option.pure_def, Bool.false_eq_true, if_false]
    rfl
  exact ⟨sys, _, _, hrecv, hreadFd, hround, h.running, rfl, rfl, rfl⟩

/-- The service can send the answer that waits. -/
theorem Running.sends (h : Running s v fd) {m : IpcMessage} (hqueue : s.ctx.waiting fd = [m])
    (hfits : m.frame.length ≤ ipcMaxMessageSize) :
    ∃ sys s' log, readFd s.ctx sys ≠ some fd ∧ s.round sys = some (s', log) ∧ s'.exited = false ∧
      acceptedOn fd log = false ∧
      sentOn fd (libraryIo log) = [(m.frame, .sent m.frame.length)] ∧
      closedFds (libraryIo log) = [] := by
  obtain ⟨i, e, hget, ht, rfl⟩ := h.exists_entry
  obtain ⟨hfind, e', hget', hinfo, hfd, hrevents⟩ :=
    polled_onlyReady h.unread hget (r := { pollout := true }) (.inr rfl)
  obtain ⟨t, htimer, -⟩ := timerAfter_now h.timer
  obtain ⟨sys, hpoll, hsend, htv₁, htv₂⟩ : ∃ sys : WaitSys,
      sys.poll = some (onlyReady i { pollout := true }) ∧ sys.send = .sent m.frame.length ∧
        sys.tv₁ = {} ∧ sys.tv₂ = {} :=
    ⟨{ poll := some (onlyReady i { pollout := true }), send := .sent m.frame.length }, rfl, rfl, rfl,
      rfl⟩
  have htype : e'.1.type = .ipc := by rw [hinfo, ht]
  have hread : ¬ readable e' := by
    have hzero := h.unread e (List.mem_of_getElem? hget)
    simp [readable, hrevents, hinfo, hzero]
  have hready : e'.2.revents ≠ {} := by
    rw [hrevents]
    decide
  have hreadFd : readFd s.ctx sys ≠ some e.2.fd := by
    rw [h.ctx, readFd_ofView hpoll hfind hget', if_neg fun hcond => hread hcond.1]
    simp
  have hclock : timerAfter s.timer sys.tv₁ sys.tv₂ = some t := by rw [htv₁, htv₂, htimer]
  have hlane : lane IpcMessage.fd e'.2.fd v.tx = [m] := by
    rw [hfd, ← waiting_ofView, ← h.ctx]
    exact hqueue
  obtain ⟨w, event, j, htx, hdispatch⟩ :=
    dispatch_sends hget' hread (by rw [hrevents]) htype hlane hfits hsend
  have hwait := ipcWaitEvent_entry hpoll hclock hfind hget' hready
  rw [hdispatch, Option.map_some, ← h.ctx] at hwait
  have hround : s.round sys = some ({ s with ctx := .ofView w, timer := t },
      [.io (.queue (.handed v.tx j)), .io (.send e'.2.fd m.frame (.sent m.frame.length)),
        .event event]) := by
    simp only [Pongd.round, h.running, hwait, Pongd.handle, htx, Option.bind_eq_bind,
      Option.bind_some, Option.pure_def, Bool.false_eq_true, if_false]
    rfl
  refine ⟨sys, _, _, hreadFd, hround, h.running, by simp [acceptedOn, htx], ?_, rfl⟩
  have hne := frame_ne_nil m
  simp [sentOn, transmissions, libraryIo, hfd, hne]

end

/-! ## The service stays ready -/

/-- What holds of the service in every state. -/
def Pongd.Steady (s : Pongd) (v : View) : Prop :=
  s.ctx = .ofView v ∧ v.Serves ∧ (s.exited = false → v.Unread) ∧ s.timer < 2 ^ 31

section
variable {s s' : Pongd} {v w : View} {sys : WaitSys} {fd : Fd} {log : List PongdIo} {t : Int}

theorem timerAfter_lt {timer : Int} {tv₁ tv₂ : TimeVal} (h : timerAfter timer tv₁ tv₂ = some t) :
    t < 2 ^ 31 := by
  rw [timerAfter_eq] at h
  obtain ⟨elapsed, -, h⟩ := Option.bind_eq_some_iff.mp h
  split at h
  · cases h
    decide
  · rw [toInt_eq_some_iff] at h
    omega

/-- A round leaves the service steady. -/
theorem round_steady (hsteady : s.Steady v) (h : s.round sys = some (s', log)) :
    ∃ w, s'.Steady w ∧ (s'.exited = false → Keeps v sys log w) := by
  obtain ⟨hctx, hv, hunread, htimer⟩ := hsteady
  obtain ⟨w, t, hctx', hw, ht, hcase⟩ := round_cases hctx hv h
  have hrunning := (round_eq_some h).1
  have hkeeps : s'.exited = false → Keeps v sys log w := fun hrunning' =>
    round_keeps (hunread hrunning) hrunning' hcase
  have ht' : t < 2 ^ 31 := by
    split at ht
    · rw [ht]
      exact htimer
    · exact timerAfter_lt ht
  have htimer' : s'.timer < 2 ^ 31 := by
    have hbase : baseTimer < 2 ^ 31 := by decide
    cases hcase with
    | idle _ _ _ _ =>
      dsimp only
      split
      · exact hbase
      · exact ht'
    | exits _ _ => exact ht'
    | accepted _ _ _ _ _ _ _ => exact ht'
    | echoed _ _ _ _ _ _ _ => exact ht'
    | left _ _ _ _ _ _ _ _ _ _ _ => exact ht'
    | written _ _ _ _ _ => exact ht'
    | hungUp _ _ _ _ _ _ _ _ _ => exact ht'
    | failed _ _ _ _ _ _ _ => exact ht'
  exact ⟨w, ⟨hctx', hw, fun hrunning' => (hkeeps hrunning').unread, htimer'⟩, hkeeps⟩

theorem Pongd.Reached.steady (h : s.Reached) : ∃ v, s.Steady v := by
  obtain ⟨rundir, sfd, h⟩ := h
  refine Reachable.invariant (P := fun s : Pongd => ∃ v, s.Steady v) ?_ ?_ h
  · rintro s sys s' log ⟨v, hsteady⟩ hround
    obtain ⟨w, hsteady', -⟩ := round_steady hsteady hround
    exact ⟨w, hsteady'⟩
  · obtain ⟨v, hctx, hv, -, hunread⟩ := start_ctx rundir sfd
    refine ⟨v, hctx, hv, fun _ => hunread, ?_⟩
    show baseTimer < 2 ^ 31
    decide

end

section
variable {net net' : PingPong} {fd : Fd} {a : Flight IpcMessage} {sys : WaitSys} {m : IpcMessage}

/-- The service is steady, and runs and has the client while the connection is open. -/
def PingPong.Steady (fd : Fd) (net : PingPong) : Prop :=
  ∃ v, net.server.Steady v ∧
    (net.stage = .accepted → net.server.exited = false ∧ (.ipc, fd) ∈ v.kinds)

theorem serves_steady (hsteady : net.Steady fd) (h : net.serves fd sys = some net') :
    net'.Steady fd := by
  obtain ⟨v, hserver, hopen⟩ := hsteady
  simp only [PingPong.serves, Option.bind_eq_bind, Option.pure_def] at h
  obtain ⟨⟨server, log⟩, hround, h⟩ := Option.bind_eq_some_iff.mp h
  obtain ⟨w, hserver', hkeeps⟩ := round_steady hserver hround
  dsimp only at h
  split at h
  · cases h
    refine ⟨w, hserver', ?_⟩
    intro hstage
    dsimp only at hstage
    split at hstage
    · cases hstage
    · rename_i hrunning
      rw [Bool.not_eq_true] at hrunning
      split at hstage
      · rename_i haccepted
        exact ⟨hrunning, (hkeeps hrunning).new fd haccepted⟩
      · cases hstage
  · rename_i haccepted
    split at h
    · cases h
    · obtain ⟨up, -, h⟩ := Option.bind_eq_some_iff.mp h
      cases h
      refine ⟨w, hserver', ?_⟩
      intro hstage
      dsimp only at hstage
      split at hstage
      · cases hstage
      · rename_i hcond
        rw [not_or, Bool.not_eq_true] at hcond
        exact ⟨hcond.1, (hkeeps hcond.1).kept _ (hopen haccepted).2 hcond.2⟩
  · rename_i hclosed
    cases h
    refine ⟨w, hserver', ?_⟩
    intro hstage
    cases hclosed.symm.trans hstage

/-- A step of the client leaves the service as it is. -/
theorem step_server {mv : Move} {es : List (Exchanged IpcMessage IpcMessage)}
    (hmv : ∀ sys, mv ≠ .serves sys) (h : net.step fd mv = some (net', es)) :
    net'.server = net.server ∧ net'.stage = net.stage := by
  cases mv with
  | serves sys => exact absurd rfl (hmv sys)
  | writes s =>
    simp only [PingPong.step, PingPong.writes, Option.bind_eq_bind, Option.pure_def] at h
    split at h
    · obtain ⟨r, -, h⟩ := Option.bind_eq_some_iff.mp h
      cases r with
      | error c =>
        cases h
        exact ⟨rfl, rfl⟩
      | ok m =>
        obtain ⟨⟨code, bs⟩, -, h⟩ := Option.bind_eq_some_iff.mp h
        dsimp only at h
        split at h
        · cases h
          exact ⟨rfl, rfl⟩
        · cases h
          exact ⟨rfl, rfl⟩
    · cases h
  | reads rs =>
    simp only [PingPong.step, PingPong.reads, Option.bind_eq_bind, Option.pure_def] at h
    split at h
    · obtain ⟨⟨r, down⟩, -, h⟩ := Option.bind_eq_some_iff.mp h
      cases r with
      | error c =>
        cases h
        exact ⟨rfl, rfl⟩
      | ok m =>
        cases h
        exact ⟨rfl, rfl⟩
    · cases h
  | closes =>
    simp only [PingPong.step] at h
    split at h
    · cases h
      exact ⟨rfl, rfl⟩
    · cases h

theorem step_steady {mv : Move} {es : List (Exchanged IpcMessage IpcMessage)}
    (hsteady : net.Steady fd) (h : net.step fd mv = some (net', es)) : net'.Steady fd := by
  by_cases hmv : ∃ sys, mv = .serves sys
  · obtain ⟨sys, rfl⟩ := hmv
    obtain ⟨net₁, hserves, heq⟩ := Option.map_eq_some_iff.mp h
    cases heq
    exact serves_steady hsteady hserves
  · obtain ⟨hserver, hstage⟩ := step_server (fun sys hsys => hmv ⟨sys, hsys⟩) h
    obtain ⟨v, hsteady, hopen⟩ := hsteady
    refine ⟨v, hserver ▸ hsteady, ?_⟩
    rw [hserver, hstage]
    exact hopen

/-- The connection is open, and all is well. -/
structure PingPong.Open (fd : Fd) (net : PingPong) (a : Flight IpcMessage) : Prop where
  fine : net.Fine fd a
  steady : net.Steady fd
  accepted : net.stage = .accepted

/-- The steps `ms` can be taken in good order, and are seen as `es`. -/
def PingPong.Goes (fd : Fd) (net : PingPong) (ms : List Move)
    (es : List (Exchanged IpcMessage IpcMessage)) (net' : PingPong) : Prop :=
  RunMeets (PingPong.step fd) (PingPong.Orderly fd) net ms ∧
    runAll (PingPong.step fd) net ms = some (net', es)

theorem goes_one {mv : Move} {es : List (Exchanged IpcMessage IpcMessage)}
    (horderly : net.Orderly fd mv) (h : net.step fd mv = some (net', es)) :
    net.Goes fd [mv] es net' := by
  refine ⟨⟨horderly, fun _ _ => trivial⟩, ?_⟩
  simp only [runAll, h, Option.bind_some, Option.map_some, List.append_nil]

theorem PingPong.Goes.append {net₁ net₂ : PingPong} {ms ms' : List Move}
    {es es' : List (Exchanged IpcMessage IpcMessage)} (h : net.Goes fd ms es net₁)
    (h' : net₁.Goes fd ms' es' net₂) : net.Goes fd (ms ++ ms') (es ++ es') net₂ := by
  refine ⟨h.1.append h.2 h'.1, ?_⟩
  rw [runAll_append, h.2, Option.bind_some, h'.2, Option.map_some]

/-- What the service needs for its next round. -/
theorem PingPong.Open.running (h : net.Open fd a) : ∃ v, Running net.server v fd := by
  obtain ⟨v, ⟨hctx, hv, hunread, htimer⟩, hopen⟩ := h.steady
  obtain ⟨hrunning, hclient⟩ := hopen h.accepted
  exact ⟨v, hctx, hv, hunread hrunning, htimer, hrunning, hclient⟩

theorem step_of_serves (h : net.serves fd sys = some net') :
    net.step fd (.serves sys) = some (net', []) := by
  rw [PingPong.step, h, Option.map_some]

/-- The service reads the message. -/
theorem open_takes (h : net.Open fd (.asked m)) :
    ∃ mv net', net.Goes fd [mv] [] net' ∧ net'.Open fd (.held m) ∧ net'.client = net.client := by
  obtain ⟨v, hrunning⟩ := h.running
  obtain ⟨hfits, -, hdown, hasked, -⟩ := h.fine.placed
  obtain ⟨hphase, hup⟩ := hasked (by simp [h.accepted])
  obtain ⟨sys, s', log, hrecv, hread, hround, hexited, haccepted, hsent, hclosed⟩ :=
    hrunning.receives hfits
  have horderly : net.Orderly fd (.serves sys) := by
    simp only [PingPong.Orderly, h.accepted, hround, Option.mem_def, Option.some.injEq, forall_eq',
      hsent, List.not_mem_nil, false_implies, implies_true, and_true]
    intro _
    rw [hrecv, hup, List.flatten_singleton]
  have hserves : net.serves fd sys = some { net with server := s', stage := .accepted, up := [] } := by
    have hupAfter : net.upAfter fd sys = some [] := by
      rw [PingPong.upAfter, if_pos hread, hup, hrecv, readFrom_frame hfits, Option.map_some]
    simp only [PingPong.serves, hround, h.accepted, haccepted, hupAfter, Option.bind_eq_bind,
      Option.bind_some, Option.pure_def, Bool.false_eq_true, if_false, hexited, hclosed,
      List.not_mem_nil, or_self, deliveredOn, hsent, List.map_nil, List.append_nil]
  have hstep := step_of_serves hserves
  obtain ⟨b, hturn, hfine⟩ := step_turn h.fine horderly hstep
  have hsteady := step_steady h.steady hstep
  refine ⟨.serves sys, _, goes_one horderly hstep, ⟨?_, hsteady, rfl⟩, rfl⟩
  cases hturn with
  | stays _ =>
    -- The stream is empty now.
    cases (hfine.placed.2.2.2.1 (by simp)).2
  | takes _ => exact hfine

/-- The service sends the answer. -/
theorem open_answers (h : net.Open fd (.held m)) :
    ∃ mv net', net.Goes fd [mv] [] net' ∧ net'.Open fd (.answered m) ∧
      net'.client = net.client := by
  obtain ⟨v, hrunning⟩ := h.running
  obtain ⟨hfits, -, hdown, -, hheld⟩ := h.fine.placed
  obtain ⟨hphase, hup, hqueue⟩ := hheld h.accepted
  have hreply : (replyTo fd m).frame.length ≤ ipcMaxMessageSize := by rwa [replyTo_length]
  obtain ⟨sys, s', log, hread, hround, hexited, haccepted, hsent, hclosed⟩ :=
    hrunning.sends hqueue hreply
  have horderly : net.Orderly fd (.serves sys) := by
    simp only [PingPong.Orderly, h.accepted, hround, Option.mem_def, Option.some.injEq, forall_eq',
      hsent, List.mem_singleton, forall_eq]
    exact ⟨fun h => absurd h hread, List.take_length⟩
  have hserves : net.serves fd sys =
      some { net with server := s', stage := .accepted, down := [(replyTo fd m).frame] } := by
    have hupAfter : net.upAfter fd sys = some net.up := by rw [PingPong.upAfter, if_neg hread]
    have hdelivered : deliveredOn fd log = [(replyTo fd m).frame] := by
      simp [deliveredOn, hsent, SendResult.accepted]
    simp only [PingPong.serves, hround, h.accepted, haccepted, hupAfter, Option.bind_eq_bind,
      Option.bind_some, Option.pure_def, Bool.false_eq_true, if_false, hexited, hclosed,
      List.not_mem_nil, or_self, hdelivered, hdown, List.nil_append]
  have hstep := step_of_serves hserves
  obtain ⟨b, hturn, hfine⟩ := step_turn h.fine horderly hstep
  have hsteady := step_steady h.steady hstep
  refine ⟨.serves sys, _, goes_one horderly hstep, ⟨?_, hsteady, rfl⟩, rfl⟩
  cases hturn with
  | stays _ =>
    -- The answer is on its way.
    cases hfine.placed.2.2.1
  | answers _ => exact hfine

/-- The client reads the answer. -/
theorem open_reads (h : net.Open fd (.answered m)) :
    ∃ mv net', net.Goes fd [mv] [.got (pongOf m)] net' ∧ net'.Open fd .idle ∧
      net'.client = { net.client with phase := .ready } := by
  obtain ⟨hfits, hphase, hdown, -, -⟩ := h.fine.placed
  have hreply : (replyTo fd m).frame.length ≤ ipcMaxMessageSize := by rwa [replyTo_length]
  have horderly : net.Orderly fd (.reads [.ok (replyTo fd m).frame]) := by
    rw [PingPong.Orderly, hdown, List.flatten_singleton]
  have hstep : net.step fd (.reads [.ok (replyTo fd m).frame]) =
      some ({ net with client := { net.client with phase := .ready }, down := [] },
        [.got (pongOf m)]) := by
    simp only [PingPong.step, PingPong.reads, hphase, hdown, if_true, readFrom_frame hreply,
      replyTo_received, Option.bind_eq_bind, Option.bind_some, Option.pure_def]
  obtain ⟨b, hturn, hfine⟩ := step_turn h.fine horderly hstep
  have hsteady := step_steady h.steady hstep
  refine ⟨_, _, goes_one horderly hstep, ⟨?_, hsteady, h.accepted⟩, rfl⟩
  generalize pongOf m = y at hturn
  cases hturn with
  | reads _ => exact hfine

/-- A client that waits can be answered. -/
theorem open_completes (h : net.Open fd a) (hm : a.open? = some m) :
    ∃ ms net', ms.length ≤ 3 ∧ net.Goes fd ms [.got (pongOf m)] net' ∧ net'.Open fd .idle ∧
      net'.client = { net.client with phase := .ready } := by
  have hanswered : ∀ {net : PingPong}, net.Open fd (.answered m) → ∃ ms net', ms.length ≤ 1 ∧
      net.Goes fd ms [.got (pongOf m)] net' ∧ net'.Open fd .idle ∧
        net'.client = { net.client with phase := .ready } := by
    intro net h
    obtain ⟨mv, net', hgoes, hopen, hclient⟩ := open_reads h
    exact ⟨[mv], net', Nat.le_refl 1, hgoes, hopen, hclient⟩
  have hheld : ∀ {net : PingPong}, net.Open fd (.held m) → ∃ ms net', ms.length ≤ 2 ∧
      net.Goes fd ms [.got (pongOf m)] net' ∧ net'.Open fd .idle ∧
        net'.client = { net.client with phase := .ready } := by
    intro net h
    obtain ⟨mv, net₁, hgoes, hopen, hclient⟩ := open_answers h
    obtain ⟨ms, net', hlength, hgoes', hopen', hclient'⟩ := hanswered hopen
    refine ⟨mv :: ms, net', ?_, hgoes.append hgoes', hopen', ?_⟩
    · rw [List.length_cons]
      omega
    · rw [hclient', hclient]
  cases a with
  | idle => cases hm
  | asked x =>
    obtain rfl : x = m := Option.some.inj hm
    obtain ⟨mv, net₁, hgoes, hopen, hclient⟩ := open_takes h
    obtain ⟨ms, net', hlength, hgoes', hopen', hclient'⟩ := hheld hopen
    refine ⟨mv :: ms, net', ?_, hgoes.append hgoes', hopen', ?_⟩
    · rw [List.length_cons]
      omega
    · rw [hclient', hclient]
  | held x =>
    obtain rfl : x = m := Option.some.inj hm
    obtain ⟨ms, net', hlength, hcompletes⟩ := hheld h
    exact ⟨ms, net', by omega, hcompletes⟩
  | answered x =>
    obtain rfl : x = m := Option.some.inj hm
    obtain ⟨ms, net', hlength, hcompletes⟩ := hanswered h
    exact ⟨ms, net', by omega, hcompletes⟩

/-- A payload that `ipc_message_format_data` accepts and `ipc_write_fd` can send. -/
def Sendable (p : List Byte) : Prop := p ≠ [] ∧ ipcHeaderSize + p.length ≤ ipcMaxMessageSize

theorem ipcMessageFormatData_sendable {p : List Byte} (hp : Sendable p) :
    ∃ m, ipcMessageFormatData default 42 (some p) p.length = some (.ok m) := by
  obtain ⟨hne, hfits⟩ := hp
  have hmax : ¬ p.length > ipcMaxMessageSize := by omega
  have hpos : p.length ≠ 0 := by simpa using hne
  simp [ipcMessageFormatData, ipcMessageFormat, hmax, hne]

/-- The client sends its next message. -/
theorem open_asks (h : net.Open fd .idle) (hready : net.client.phase = .ready) {p : List Byte}
    {ps : List (List Byte)} (htodo : net.client.todo = p :: ps) (hp : Sendable p) :
    ∃ mv net' m, net.Goes fd [mv] [.asked m] net' ∧ net'.Open fd (.asked m) ∧
      net'.client = { todo := ps, phase := .waiting } := by
  obtain ⟨m, hformat⟩ := ipcMessageFormatData_sendable hp
  obtain ⟨hcontent, -, hmax⟩ := ipcMessageFormatData_ok hformat
  have hlength := length_of_content hcontent
  have hframe : m.frame.length = ipcHeaderSize + p.length := by rw [m.length_frame, hlength]
  obtain ⟨code, hwrite⟩ := ipcWriteFd_eq (.sent m.frame.length) (m := m) (by
    have := hp.2
    rw [hlength]
    omega)
  obtain rfl := ipcWriteFd_whole hmax hwrite
  have horderly : net.Orderly fd (.writes (.sent m.frame.length)) := by
    simp [PingPong.Orderly, htodo, hframe]
  have hstep : net.step fd (.writes (.sent m.frame.length)) =
      some ({ net with
        client := { todo := ps, phase := .waiting }
        up := net.up ++ [(SendResult.sent m.frame.length).accepted m.frame] }, [.asked m]) := by
    simp only [PingPong.step, PingPong.writes, hready, htodo, hformat, hwrite, if_true,
      Option.bind_eq_bind, Option.bind_some, Option.pure_def]
  obtain ⟨b, hturn, hfine⟩ := step_turn h.fine horderly hstep
  have hsteady := step_steady h.steady hstep
  refine ⟨_, _, m, goes_one horderly hstep, ⟨?_, hsteady, h.accepted⟩, rfl⟩
  cases hturn with
  | asks _ => exact hfine

/-- A client with nothing under way can finish. -/
theorem open_finishes (h : net.Open fd .idle) (hready : net.client.phase = .ready)
    (htodo : ∀ p ∈ net.client.todo, Sendable p) :
    ∃ ms es net', net.Goes fd ms es net' ∧ net'.Open fd .idle ∧ net'.client.phase = .quit ∧
      net'.client.todo = [] := by
  generalize hps : net.client.todo = ps at htodo
  induction ps generalizing net with
  | nil =>
    have hstep : net.step fd .closes =
        some ({ net with client := { net.client with phase := .quit } }, []) := by
      simp only [PingPong.step, hready, hps, and_self, if_true]
    have horderly : net.Orderly fd .closes := trivial
    obtain ⟨b, hturn, hfine⟩ := step_turn h.fine horderly hstep
    have hsteady := step_steady h.steady hstep
    refine ⟨[.closes], [], _, goes_one horderly hstep, ⟨?_, hsteady, h.accepted⟩, rfl, hps⟩
    cases hturn with
    | stays _ => exact hfine
  | cons p ps ih =>
    obtain ⟨mv, net₁, m, hgoes₁, hopen₁, hclient₁⟩ :=
      open_asks h hready hps (htodo p List.mem_cons_self)
    obtain ⟨ms₂, net₂, -, hgoes₂, hopen₂, hclient₂⟩ := open_completes hopen₁ rfl
    obtain ⟨ms₃, es₃, net₃, hgoes₃, hfinal⟩ := ih hopen₂ (by rw [hclient₂]) (by rw [hclient₂, hclient₁])
      fun p hp => htodo p (List.mem_cons_of_mem _ hp)
    exact ⟨_, _, net₃, (hgoes₁.append hgoes₂).append hgoes₃, hfinal⟩

/-! ## Results -/

/-- What a run in good order from a running service leaves. -/
theorem goes_open {server : Pongd} (hserver : server.Reached) {client : Pong}
    (hready : client.phase = .ready) {ms : List Move} {es : List (Exchanged IpcMessage IpcMessage)}
    (hgoes : PingPong.Goes fd { server, client } ms es net) (haccepted : net.stage = .accepted) :
    ∃ a, net.Open fd a := by
  obtain ⟨a, -, hfine⟩ := run_turns hserver hready hgoes.1 hgoes.2
  have hsteady := runAll_invariant (G := fun _ _ => True) (P := PingPong.Steady fd)
    (fun _ _ _ _ h _ => step_steady h) ?_ (runMeets_true _ ms) hgoes.2
  · exact ⟨a, hfine, hsteady, haccepted⟩
  · obtain ⟨v, hv⟩ := hserver.steady
    refine ⟨v, hv, ?_⟩
    intro hstage
    cases hstage

end

end LibIpc.C

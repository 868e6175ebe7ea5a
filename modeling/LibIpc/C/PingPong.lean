import LibIpc.C.Pong

/-!
# What a client of the echo service gets

In every run in which the streams are neither cut nor cut short (`PingPong.Orderly`), whatever the
other clients do, a client receives the echo of each of its messages, in order, and nothing else
(`pingPong_inOrder`); the messages of `pong` come back as they were (`nonInteractive_echoed`).
-/

namespace LibIpc.C

open Lib

/-! ## A round, seen from one descriptor -/

/-- What a round is for `fd`: the service exits; nothing happens to the connection, except that it
may be accepted; a message is read and its copy queued; the only waiting message, or one of them, is
sent; the descriptor is closed. -/
inductive OnFd (s : Pongd) (sys : WaitSys) (fd : Fd) (s' : Pongd) (log : List PongdIo) : Prop
  | exits : s'.exited = true → sentOn fd (libraryIo log) = [] → OnFd s sys fd s' log
  | quiet : s'.exited = false → (s'.ctx.waiting fd).Perm (s.ctx.waiting fd) →
      sentOn fd (libraryIo log) = [] → fd ∉ closedFds (libraryIo log) →
      readFd s.ctx sys ≠ some fd → OnFd s sys fd s' log
  | receives {m : IpcMessage} {rest : List RecvResult} : s'.exited = false →
      acceptedOn fd log = false → readFd s.ctx sys = some fd →
      ipcReadFd default sys.recv = .returned (.ok m) rest →
      s'.ctx.waiting fd = s.ctx.waiting fd ++ [deepCopy { m with fd := fd }] →
      sentOn fd (libraryIo log) = [] → fd ∉ closedFds (libraryIo log) → OnFd s sys fd s' log
  | sends {m : IpcMessage} : s'.exited = false → acceptedOn fd log = false →
      readFd s.ctx sys ≠ some fd → (s.ctx.waiting fd).Perm (m :: s'.ctx.waiting fd) →
      (m.length ≤ ipcMaxMessageSize → sentOn fd (libraryIo log) = [(m.frame, sys.send)]) →
      fd ∉ closedFds (libraryIo log) → OnFd s sys fd s' log
  | closes : s'.exited = false → acceptedOn fd log = false → fd ∈ closedFds (libraryIo log) →
      sentOn fd (libraryIo log) = [] → OnFd s sys fd s' log

section
variable {s s' : Pongd} {v w : View} {sys : WaitSys} {fd : Fd} {log : List PongdIo} {t : Int}

theorem readFd_ofView {revents : List PollEvents} {i : Nat} {e : IpcConnectionInfo × PollFd}
    (hpoll : sys.poll = some revents) (hfind : (v.polled revents).conns.findIdx? handled = some i)
    (hget : (v.polled revents).conns[i]? = some e) :
    readFd (.ofView v) sys = if readable e ∧ e.1.type = .ipc then some e.2.fd else none := by
  simp only [readFd, hpoll, polledEntries_ofView, find?_of_findIdx? hfind hget,
    Option.bind_eq_bind, Option.bind_some]

theorem readFd_eq_none {revents : List PollEvents} (hpoll : sys.poll = some revents)
    (hfind : (v.polled revents).conns.findIdx? handled = none) :
    readFd (.ofView v) sys = none := by
  have hfind? : (v.polled revents).conns.find? handled = none := by
    rw [List.find?_eq_none]
    rw [List.findIdx?_eq_none_iff] at hfind
    intro e he
    rw [hfind e he]
    exact Bool.false_ne_true
  simp only [readFd, hpoll, polledEntries_ofView, hfind?, Option.bind_eq_bind, Option.bind_some,
    Option.bind_none]

theorem waiting_ofView (v : View) (fd : Fd) :
    (IpcCtx.ofView v).waiting fd = lane IpcMessage.fd fd v.tx := by
  rw [IpcCtx.waiting, queue_ofView]

theorem sentOn_of_transmissions {io : List Io} (h : transmissions io = []) : sentOn fd io = [] := by
  rw [sentOn, h]
  rfl

theorem closedFds_closedFd_append (e : IpcConnectionInfo × PollFd)
    (es : List (QueueEvent IpcMessage)) :
    closedFds (closedFd e ++ es.map .queue) = ownFds [e] := by
  rw [closedFds_append, closedFds_closedFd, closedFds_map_queue, List.append_nil]

theorem mem_ownFds_singleton {e : IpcConnectionInfo × PollFd} (ht : e.1.type ≠ .external) :
    fd ∈ ownFds [e] ↔ fd = e.2.fd := by
  simp [ownFds, ht]

/-- Removing the messages of another descriptor. -/
theorem lane_of_perm_filter {q q' : List IpcMessage} {fd' : Fd}
    (h : q'.Perm (q.filter fun m => m.fd ≠ fd')) (hne : fd ≠ fd') :
    (lane IpcMessage.fd fd q').Perm (lane IpcMessage.fd fd q) := by
  refine (h.filter _).trans (List.Perm.of_eq ?_)
  rw [List.filter_filter]
  refine List.filter_congr ?_
  intro m _
  by_cases hm : m.fd = fd
  · simp [hm, hne]
  · simp [hm]

/-- A message that can be encoded is sent as its frame. -/
theorem ipcWriteFd_frame {m : IpcMessage} {a : SendResult} {r : IpcErrorCode} {bs : List Byte}
    (hm : m.length ≤ ipcMaxMessageSize) (h : ipcWriteFd m a = some (r, bs)) :
    bs = m.frame ∧ m.frame.length ≤ ipcMaxMessageSize := by
  unfold ipcWriteFd at h
  rw [ipcMessageFormatWrite_eq hm] at h
  dsimp only at h
  split at h
  · cases h
  · rename_i hfits
    split at h
    · cases h
      exact ⟨rfl, Nat.not_lt.mp hfits⟩
    · cases h
      exact ⟨rfl, Nat.not_lt.mp hfits⟩

theorem ipcWriteFd_whole {m : IpcMessage} {r : IpcErrorCode} {bs : List Byte}
    (hm : m.length ≤ ipcMaxMessageSize)
    (h : ipcWriteFd m (.sent m.frame.length) = some (r, bs)) : r = .none := by
  unfold ipcWriteFd at h
  rw [ipcMessageFormatWrite_eq hm] at h
  dsimp only [usockSend] at h
  split at h
  · cases h
  · rw [if_neg (not_not_intro rfl)] at h
    cases h
    rfl

/-- The round in which the message queued for a descriptor is sent. -/
theorem written_onFd (hctx : s.ctx = .ofView v) (hctx' : s'.ctx = .ofView w)
    (hrunning : s'.exited = false) {revents : List PollEvents} {i : Nat}
    {e : IpcConnectionInfo × PollFd} {event : IpcEvent} {io : List Io}
    (hpoll : sys.poll = some revents) (hfind : (v.polled revents).conns.findIdx? handled = some i)
    (hget : (v.polled revents).conns[i]? = some e) (htype : event.type = .tx)
    (hserved : Served (v.polled revents) i e sys .none event w io)
    (hlog : log = io.map .io ++ [.event event]) : OnFd s sys fd s' log := by
  have hlibrary : libraryIo log = io := by
    rw [hlog, libraryIo_append, libraryIo_map_io]
    exact List.append_nil io
  have haccepted : acceptedOn fd log = false := by
    rw [hlog]
    simp [acceptedOn, htype]
  obtain ⟨p, found, es, tx, hread, -, -, hpopped, hwriting, rfl⟩ := hserved.of_tx htype
  have hreadFd : readFd s.ctx sys ≠ some fd := by
    rw [hctx, readFd_ofView hpoll hfind hget, if_neg (fun h => hread h.1)]
    simp
  have hwaiting : s.ctx.waiting fd = lane IpcMessage.fd fd v.tx := by
    rw [hctx, waiting_ofView]
  have hwaiting' : s'.ctx.waiting fd = lane IpcMessage.fd fd tx := by
    rw [hctx', waiting_ofView]
  generalize hm : found.map Prod.snd = m at hpopped
  cases hpopped with
  | empty hnil =>
    rw [Option.map_eq_none_iff] at hm
    subst hm
    cases hwriting
    refine .quiet hrunning (List.Perm.of_eq ?_) ?_ ?_ hreadFd
    · rw [hwaiting, hwaiting']
      rfl
    · rw [hlibrary]
      rfl
    · rw [hlibrary]
      exact List.not_mem_nil
  | @first j m' hfirst hm' hfd' =>
    obtain ⟨⟨j', m''⟩, rfl, heq⟩ := Option.map_eq_some_iff.mp hm
    obtain rfl : m'' = m' := heq
    obtain ⟨⟨r, bs⟩, hwrite, rfl⟩ := Option.map_eq_some_iff.mp hwriting
    have hperm := (perm_cons_swapRemove (List.getElem?_eq_some_iff.mp hm').1).filter
      fun m => m.fd = fd
    rw [(List.getElem?_eq_some_iff.mp hm').2] at hperm
    have hclosed : fd ∉ closedFds (libraryIo log) := by
      rw [hlibrary]
      simp [closedFds]
    by_cases hfd : e.2.fd = fd
    · refine .sends (m := m'') hrunning haccepted hreadFd ?_ ?_ hclosed
      · rw [hwaiting, hwaiting']
        rw [List.filter_cons, if_pos (by simpa using hfd'.trans hfd)] at hperm
        exact hperm
      · intro hmax
        obtain ⟨rfl, -⟩ := ipcWriteFd_frame hmax hwrite
        rw [hlibrary]
        have hne : m''.frame ≠ [] := List.cons_ne_nil _ _
        simp [sentOn, transmissions, hfd, hne]
    · refine .quiet hrunning ?_ ?_ hclosed hreadFd
      · rw [hwaiting, hwaiting']
        rw [List.filter_cons, if_neg (by simpa using fun h => hfd (hfd'.symm.trans h))] at hperm
        exact hperm.symm
      · rw [hlibrary]
        simp [sentOn, transmissions, hfd]

/-- What a round of a running service is for each descriptor. -/
theorem round_onFd (hctx : s.ctx = .ofView v) (hv : v.Serves) (hrunning : s.exited = false)
    (hctx' : s'.ctx = .ofView w) (h : Round s v sys t s' w log) (fd : Fd) :
    OnFd s sys fd s' log := by
  have hlane : (s'.ctx.waiting fd).Perm (s.ctx.waiting fd) ↔
      (lane IpcMessage.fd fd w.tx).Perm (lane IpcMessage.fd fd v.tx) := by
    rw [hctx, hctx', waiting_ofView, waiting_ofView]
  have hevent : ∀ {io : List Io} {event : IpcEvent},
      libraryIo (io.map .io ++ [.event event]) = io := by
    intro io event
    rw [libraryIo_append, libraryIo_map_io]
    exact List.append_nil io
  cases h with
  | @exits w io _ hsilent =>
    refine .exits rfl ?_
    rw [libraryIo_map_io]
    exact sentOn_of_transmissions hsilent
  | @idle revents w event hpoll hfind hsame _ =>
    refine .quiet hrunning (hlane.mpr ?_) rfl List.not_mem_nil ?_
    · rw [hsame.tx]
    · rw [hctx, readFd_eq_none hpoll hfind]
      simp
  | @accepted revents i e w hpoll hfind hget _ ht _ hw =>
    refine .quiet hrunning (hlane.mpr ?_) rfl List.not_mem_nil ?_
    · rw [hw]
      exact List.Perm.refl _
    · rw [hctx, readFd_ofView hpoll hfind hget, ht]
      simp
  | @echoed revents i e w m rest hpoll hfind hget hread ht hrecv hqueued =>
    have hreadFd : readFd s.ctx sys = some e.2.fd := by
      rw [hctx, readFd_ofView hpoll hfind hget, if_pos ⟨hread, ht⟩]
    have htx : w.tx = v.tx ++ [deepCopy { m with fd := e.2.fd }] := by
      rcases hqueued.tx with ⟨-, -, htx⟩ | ⟨-, hnil, -⟩
      · exact htx
      · cases hnil
    by_cases hfd : e.2.fd = fd
    · subst hfd
      refine .receives hrunning rfl hreadFd hrecv ?_ rfl List.not_mem_nil
      rw [hctx, hctx', waiting_ofView, waiting_ofView, htx, lane_append]
      simp [lane, deepCopy]
    · refine .quiet hrunning (hlane.mpr ?_) rfl List.not_mem_nil ?_
      · rw [htx, lane_append]
        simp [lane, deepCopy, hfd]
      · rw [hreadFd]
        simpa using hfd
  | @left revents i e w₁ w event rest es₁ es₂ hpoll hfind hget hread ht _ hclosed hdeleted _ htype _ =>
    have hsent : sentOn fd (libraryIo ((closedFd e ++ (es₁ ++ es₂).map Io.queue).map .io ++
        [.event event])) = [] := by
      rw [hevent]
      apply sentOn_of_transmissions
      rw [transmissions_append, transmissions_closedFd, transmissions_map_queue]
      rfl
    have hne : e.1.type ≠ .external := by simp [ht]
    have hmem : fd ∈ closedFds (libraryIo ((closedFd e ++ (es₁ ++ es₂).map Io.queue).map .io ++
        [.event event])) ↔ fd = e.2.fd := by
      rw [hevent, closedFds_closedFd_append, mem_ownFds_singleton hne]
    by_cases hfd : fd = e.2.fd
    · exact .closes hrunning (by simp [acceptedOn, htype]) (hmem.mpr hfd) hsent
    · refine .quiet hrunning (hlane.mpr ?_) hsent (mt hmem.mp hfd) ?_
      · exact (lane_of_perm_filter hdeleted.tx hfd).trans (lane_of_perm_filter hclosed.tx hfd)
      · rw [hctx, readFd_ofView hpoll hfind hget, if_pos ⟨hread, ht⟩]
        simpa using fun h => hfd h.symm
  | written hpoll hfind hget htype hserved =>
    exact written_onFd hctx rfl hrunning hpoll hfind hget htype hserved rfl
  | @hungUp revents i e w event es hpoll hfind hget hread hout hclosed _ htype _ =>
    have hsent : sentOn fd (libraryIo ((closedFd e ++ es.map Io.queue).map .io ++
        [.event event])) = [] := by
      rw [hevent]
      apply sentOn_of_transmissions
      rw [transmissions_append, transmissions_closedFd, transmissions_map_queue]
      rfl
    have hne : e.1.type ≠ .external := by
      rcases (hv.polled revents).types e (List.mem_of_getElem? hget) with ht | ht
      · simp [ht]
      · simp [ht]
    have hmem : fd ∈ closedFds (libraryIo ((closedFd e ++ es.map Io.queue).map .io ++
        [.event event])) ↔ fd = e.2.fd := by
      rw [hevent, closedFds_closedFd_append, mem_ownFds_singleton hne]
    by_cases hfd : fd = e.2.fd
    · exact .closes hrunning (by simp [acceptedOn, htype]) (hmem.mpr hfd) hsent
    · refine .quiet hrunning (hlane.mpr (lane_of_perm_filter hclosed.tx hfd)) hsent
        (mt hmem.mp hfd) ?_
      rw [hctx, readFd_ofView hpoll hfind hget, if_neg (fun h => hread h.1)]
      simp
  | @failed revents i e event hpoll hfind hget hread _ _ _ =>
    refine .quiet hrunning (hlane.mpr (List.Perm.refl _)) rfl List.not_mem_nil ?_
    rw [hctx, readFd_ofView hpoll hfind hget, if_neg (fun h => hread h.1)]
    simp

/-- Only `accept(2)` brings a client. -/
theorem accept_of_acceptedOn (h : Round s v sys t s' w log) (haccepted : acceptedOn fd log = true) :
    sys.accept = fd := by
  obtain ⟨x, hx, hevent⟩ := List.any_eq_true.mp haccepted
  have hone : ∀ {io : List Io} {event : IpcEvent}, x ∈ io.map PongdIo.io ++ [.event event] →
      event.type = .connection ∧ event.origin = fd := by
    intro io event hx
    rcases List.mem_append.mp hx with hx | hx
    · obtain ⟨y, -, rfl⟩ := List.mem_map.mp hx
      cases hevent
    · obtain rfl := List.mem_singleton.mp hx
      simpa using hevent
  cases h with
  | exits _ _ =>
    obtain ⟨y, -, rfl⟩ := List.mem_map.mp hx
    cases hevent
  | idle _ _ _ htype =>
    have htype' := (@hone [] _ hx).1
    rcases htype with ⟨htype, -⟩ | htype
    · cases htype.symm.trans htype'
    · cases htype.symm.trans htype'
  | accepted _ _ _ _ _ _ _ => exact (@hone [] _ hx).2
  | echoed _ _ _ _ _ _ _ =>
    rcases List.mem_cons.mp hx with rfl | hx
    · simp at hevent
    · obtain rfl := List.mem_singleton.mp hx
      cases hevent
  | left _ _ _ _ _ _ _ _ _ htype _ => cases htype.symm.trans (hone hx).1
  | written _ _ _ htype _ => cases htype.symm.trans (hone hx).1
  | hungUp _ _ _ _ _ _ _ htype _ => cases htype.symm.trans (hone hx).1
  | failed _ _ _ _ _ htype _ => cases htype.symm.trans (@hone [] _ hx).1

end

/-! ## Streams that are not cut -/

/-- The message `pongd` sends back for `m`. -/
def pongOf (m : IpcMessage) : IpcMessage := (deepCopy (m.received default)).received default

/-- The copy queued for `fd`. -/
def replyTo (fd : Fd) (m : IpcMessage) : IpcMessage := deepCopy { m.received default with fd := fd }

/-- The steps in which the streams of the client are whole: a read returns everything there is, a
write is accepted whole, and the number of a new connection is not one the service still has. -/
def PingPong.Orderly (fd : Fd) (net : PingPong) : Move → Prop
  | .serves sys =>
    match net.stage with
    | .pending => sys.accept = fd → fd ∉ net.server.ctx.fds
    | .accepted =>
      (readFd net.server.ctx sys = some fd → sys.recv = [.ok net.up.flatten]) ∧
        ∀ r ∈ net.server.round sys, ∀ t ∈ sentOn fd (libraryIo r.2), t.2.accepted t.1 = t.1
    | .closed => True
  | .writes s => ∀ p ∈ net.client.todo.head?, s = .sent (ipcHeaderSize + p.length)
  | .reads rs => rs = [.ok net.down.flatten]
  | .closes => True

instance PingPong.decidableOrderly (fd : Fd) (net : PingPong) : ∀ m, Decidable (net.Orderly fd m)
  | .serves sys => by
    unfold PingPong.Orderly
    cases net.stage <;> infer_instance
  | .writes _ | .reads _ | .closes => by
    unfold PingPong.Orderly
    infer_instance

/-- Where the message under way is: in one of the streams, or in the queue of the service, and
nowhere else. A message on its way to the service is not answered once the connection is closed. -/
def PingPong.Placed (fd : Fd) (net : PingPong) : Flight IpcMessage → Prop
  | .idle => net.client.phase ≠ .waiting ∧ net.down = [] ∧ (net.stage ≠ .closed → net.up = []) ∧
      (net.stage = .accepted → net.server.ctx.waiting fd = [])
  | .asked m => m.frame.length ≤ ipcMaxMessageSize ∧ net.client.phase ≠ .ready ∧ net.down = [] ∧
      (net.stage ≠ .closed → net.client.phase = .waiting ∧ net.up = [m.frame]) ∧
      (net.stage = .accepted → net.server.ctx.waiting fd = [])
  | .held m => m.frame.length ≤ ipcMaxMessageSize ∧ net.client.phase ≠ .ready ∧ net.down = [] ∧
      net.stage ≠ .pending ∧
      (net.stage = .accepted → net.client.phase = .waiting ∧ net.up = [] ∧
        net.server.ctx.waiting fd = [replyTo fd m])
  | .answered m => m.frame.length ≤ ipcMaxMessageSize ∧ net.client.phase = .waiting ∧
      net.down = [(replyTo fd m).frame] ∧ net.stage ≠ .pending ∧
      (net.stage = .accepted → net.up = [] ∧ net.server.ctx.waiting fd = [])

/-- A system whose service runs `main_loop`, with the message under way in its place. -/
structure PingPong.Fine (fd : Fd) (net : PingPong) (a : Flight IpcMessage) : Prop where
  serves : ∃ v, net.server.ctx = .ofView v ∧ v.Serves
  placed : net.Placed fd a

section
variable {net net' : PingPong} {fd : Fd} {a : Flight IpcMessage} {sys : WaitSys}

/-! ### Reading -/

theorem ipcReadFd_frame {m : IpcMessage} (hm : m.frame.length ≤ ipcMaxMessageSize)
    (rest : List RecvResult) :
    ipcReadFd default (.ok m.frame :: rest) = .returned (.ok (m.received default)) rest := by
  have hdelivery := ipcReadFd_delivery default m [] rest (by rwa [List.append_nil])
  rwa [List.append_nil, if_pos (.inl rfl)] at hdelivery

theorem ipcReadFd_closed (rest : List RecvResult) :
    ipcReadFd default (.ok [] :: rest) = .returned (.error .closedRecipient) rest := by
  have hagain : recvAgain 0 0 = false := by decide
  simp only [ipcReadFd, usockRecv, usockRecvLoop, List.length_nil, if_true, hagain,
    Bool.false_eq_true, if_false]

theorem frame_ne_nil (m : IpcMessage) : m.frame ≠ [] := List.cons_ne_nil _ _

theorem readFrom_eq {closed : Bool} {l : Link Byte} {rs : List RecvResult}
    {r : Except IpcErrorCode IpcMessage} (h : ipcReadFd default rs = .returned r []) :
    readFrom closed l rs = (recvFrom closed l rs).map fun l => (r, l) := by
  unfold readFrom
  rw [h]

theorem readFrom_frame {m : IpcMessage} (hm : m.frame.length ≤ ipcMaxMessageSize)
    (closed : Bool) : readFrom closed [m.frame] [.ok m.frame] = some (.ok (m.received default), []) := by
  have hrecv : recvFrom closed [m.frame] [.ok m.frame] = some [] := by
    rw [recvFrom.eq_4 _ _ _ _ (frame_ne_nil m), Link.read_cons (frame_ne_nil m)]
    rfl
  rw [readFrom_eq (ipcReadFd_frame hm []), hrecv]
  rfl

/-- Nothing is read from an empty stream that is open. -/
theorem readFrom_nil {closed : Bool} {r : Except IpcErrorCode IpcMessage × Link Byte}
    (h : readFrom closed [] [.ok []] = some r) : closed = true ∧ r = (.error .closedRecipient, []) := by
  rw [readFrom_eq (ipcReadFd_closed [])] at h
  simp only [recvFrom, List.flatten_nil, and_true] at h
  split at h
  · rename_i hclosed
    cases h
    exact ⟨hclosed, rfl⟩
  · cases h

/-! ### The round of the service -/

theorem replyTo_length (fd : Fd) (m : IpcMessage) : (replyTo fd m).frame.length = m.frame.length := by
  rw [IpcMessage.length_frame, IpcMessage.length_frame]
  rfl

theorem replyTo_received (fd : Fd) (m : IpcMessage) : (replyTo fd m).received default = pongOf m := rfl

/-- Once the connection is closed, where the message is does not change any more. -/
theorem PingPong.Placed.closed (h : net.Placed fd a) (hclient : net'.client = net.client)
    (hdown : net'.down = net.down) (hstage : net'.stage = .closed) : net'.Placed fd a := by
  cases a with
  | idle =>
    obtain ⟨hphase, hnil, -, -⟩ := h
    refine ⟨by rwa [hclient], by rwa [hdown], ?_, ?_⟩
    · intro hne
      exact absurd hstage hne
    · intro haccepted
      cases haccepted.symm.trans hstage
  | asked m =>
    obtain ⟨hfits, hphase, hnil, -, -⟩ := h
    refine ⟨hfits, by rwa [hclient], by rwa [hdown], ?_, ?_⟩
    · intro hne
      exact absurd hstage hne
    · intro haccepted
      cases haccepted.symm.trans hstage
  | held m =>
    obtain ⟨hfits, hphase, hnil, -, -⟩ := h
    refine ⟨hfits, by rwa [hclient], by rwa [hdown], by simp [hstage], ?_⟩
    intro haccepted
    cases haccepted.symm.trans hstage
  | answered m =>
    obtain ⟨hfits, hphase, hframe, -, -⟩ := h
    refine ⟨hfits, by rwa [hclient], by rwa [hdown], by simp [hstage], ?_⟩
    intro haccepted
    cases haccepted.symm.trans hstage

/-- A round that leaves the streams and the queue alone. -/
theorem PingPong.Placed.kept (h : net.Placed fd a) (hclient : net'.client = net.client)
    (hdown : net'.down = net.down) (hup : net'.up = net.up) (hstage : net'.stage = net.stage)
    (hwaiting : net.stage = .accepted →
      (net'.server.ctx.waiting fd).Perm (net.server.ctx.waiting fd)) : net'.Placed fd a := by
  have hnothing : (net.stage = .accepted → net.server.ctx.waiting fd = []) →
      net.stage = .accepted → net'.server.ctx.waiting fd = [] := by
    intro hnil haccepted
    exact List.perm_nil.mp (hnil haccepted ▸ hwaiting haccepted)
  cases a with
  | idle =>
    obtain ⟨hphase, hnil, hopen, hqueue⟩ := h
    refine ⟨by rwa [hclient], by rwa [hdown], by rwa [hstage, hup], ?_⟩
    rw [hstage]
    exact hnothing hqueue
  | asked m =>
    obtain ⟨hfits, hphase, hnil, hopen, hqueue⟩ := h
    refine ⟨hfits, by rwa [hclient], by rwa [hdown], by rwa [hstage, hclient, hup], ?_⟩
    rw [hstage]
    exact hnothing hqueue
  | held m =>
    obtain ⟨hfits, hphase, hnil, hne, hopen⟩ := h
    refine ⟨hfits, by rwa [hclient], by rwa [hdown], by rwa [hstage], ?_⟩
    rw [hstage, hclient, hup]
    intro haccepted
    obtain ⟨hwaits, hup, hqueue⟩ := hopen haccepted
    exact ⟨hwaits, hup, List.perm_singleton.mp (hqueue ▸ hwaiting haccepted)⟩
  | answered m =>
    obtain ⟨hfits, hphase, hframe, hne, hopen⟩ := h
    refine ⟨hfits, by rwa [hclient], by rwa [hdown], by rwa [hstage], ?_⟩
    rw [hstage, hup]
    intro haccepted
    exact ⟨(hopen haccepted).1, hnothing (fun h => (hopen h).2) haccepted⟩

/-- The connection is accepted: nothing is queued for it. -/
theorem PingPong.Placed.accepted (h : net.Placed fd a) (hpending : net.stage = .pending)
    (hclient : net'.client = net.client) (hdown : net'.down = net.down) (hup : net'.up = net.up)
    (hwaiting : net'.server.ctx.waiting fd = []) : net'.Placed fd a := by
  have hopen : net.stage ≠ .closed := by simp [hpending]
  cases a with
  | idle =>
    obtain ⟨hphase, hnil, hup', -⟩ := h
    exact ⟨by rwa [hclient], by rwa [hdown], fun _ => hup.trans (hup' hopen), fun _ => hwaiting⟩
  | asked m =>
    obtain ⟨hfits, hphase, hnil, hup', -⟩ := h
    refine ⟨hfits, by rwa [hclient], by rwa [hdown], fun _ => ?_, fun _ => hwaiting⟩
    rw [hclient, hup]
    exact hup' hopen
  | held m => exact absurd hpending h.2.2.2.1
  | answered m => exact absurd hpending h.2.2.2.1

/-- The frame the client has sent, read by the service. -/
theorem PingPong.Placed.received (h : net.Placed fd a) (haccepted : net.stage = .accepted)
    {m : IpcMessage} {rest : List RecvResult}
    (hrecv : ipcReadFd default [.ok net.up.flatten] = .returned (.ok m) rest) :
    ∃ q, a = .asked q ∧ q.frame.length ≤ ipcMaxMessageSize ∧ net.client.phase = .waiting ∧
      net.down = [] ∧ net.up = [q.frame] ∧ m = q.received default ∧
      net.server.ctx.waiting fd = [] := by
  have hopen : net.stage ≠ .closed := by simp [haccepted]
  have hnil : net.up ≠ [] := by
    intro hup
    rw [hup, List.flatten_nil, ipcReadFd_closed] at hrecv
    cases hrecv
  cases a with
  | idle => exact absurd (h.2.2.1 hopen) hnil
  | asked q =>
    obtain ⟨hfits, -, hdown, hasked, hqueue⟩ := h
    obtain ⟨hphase, hup⟩ := hasked hopen
    refine ⟨q, rfl, hfits, hphase, hdown, hup, ?_, hqueue haccepted⟩
    rw [hup, List.flatten_singleton, ipcReadFd_frame hfits] at hrecv
    cases hrecv
    rfl
  | held q => exact absurd (h.2.2.2.2 haccepted).2.1 hnil
  | answered q => exact absurd (h.2.2.2.2 haccepted).1 hnil

/-- The message that the service sends to the client. -/
theorem PingPong.Placed.sent (h : net.Placed fd a) (haccepted : net.stage = .accepted)
    {m : IpcMessage} {ms : List IpcMessage} (hperm : (net.server.ctx.waiting fd).Perm (m :: ms)) :
    ∃ q, a = .held q ∧ q.frame.length ≤ ipcMaxMessageSize ∧ net.client.phase = .waiting ∧
      net.down = [] ∧ net.up = [] ∧ m = replyTo fd q ∧ ms = [] := by
  have hne : net.server.ctx.waiting fd ≠ [] := by
    intro hnil
    rw [hnil] at hperm
    cases List.nil_perm.mp hperm
  cases a with
  | idle => exact absurd (h.2.2.2 haccepted) hne
  | asked q => exact absurd (h.2.2.2.2 haccepted) hne
  | held q =>
    obtain ⟨hfits, -, hdown, -, hheld⟩ := h
    obtain ⟨hphase, hup, hqueue⟩ := hheld haccepted
    rw [hqueue] at hperm
    obtain ⟨rfl, rfl⟩ := List.cons.inj (List.singleton_perm.mp hperm)
    exact ⟨q, rfl, hfits, hphase, hdown, hup, rfl, rfl⟩
  | answered q => exact absurd (h.2.2.2.2 haccepted).2 hne

/-- A round of the service while the connection waits to be accepted. -/
theorem pending_turn (hfine : net.Fine fd a) (hpending : net.stage = .pending)
    (horderly : net.Orderly fd (.serves sys)) (h : net.serves fd sys = some net') :
    net'.Fine fd a := by
  obtain ⟨v, hctx, hv⟩ := hfine.serves
  simp only [PingPong.serves, hpending, Option.bind_eq_bind, Option.pure_def] at h
  obtain ⟨⟨server, log⟩, hround, h⟩ := Option.bind_eq_some_iff.mp h
  obtain ⟨w, t, hctx', hw, -, hcase⟩ := round_cases hctx hv hround
  cases h
  refine ⟨⟨w, hctx', hw⟩, ?_⟩
  by_cases hexited : server.exited = true
  · exact hfine.placed.closed rfl rfl (by simp [hexited])
  · by_cases haccepted : acceptedOn fd log = true
    · have horigin := accept_of_acceptedOn hcase haccepted
      simp only [PingPong.Orderly, hpending] at horderly
      have hunused := horderly horigin
      rw [hctx, fds_ofView] at hunused
      have hnil : net.server.ctx.waiting fd = [] := by
        rw [hctx]
        exact waiting_eq_nil hv.tracked hunused
      refine hfine.placed.accepted hpending rfl rfl rfl ?_
      cases round_onFd hctx hv (round_eq_some hround).1 hctx' hcase fd with
      | exits hexited' _ => exact absurd hexited' hexited
      | quiet _ hperm _ _ _ => exact List.perm_nil.mp (hnil ▸ hperm)
      | receives _ hnot _ _ _ _ _ => cases hnot.symm.trans haccepted
      | sends _ hnot _ _ _ _ => cases hnot.symm.trans haccepted
      | closes _ hnot _ _ => cases hnot.symm.trans haccepted
    · exact hfine.placed.kept rfl rfl rfl (by simp [hexited, haccepted, hpending])
        (by simp [hpending])

/-- A round of the service while the connection is open. -/
theorem accepted_turn (hfine : net.Fine fd a) (haccepted : net.stage = .accepted)
    (horderly : net.Orderly fd (.serves sys)) (h : net.serves fd sys = some net') :
    ∃ b, Turn pongOf a [] b ∧ net'.Fine fd b := by
  obtain ⟨v, hctx, hv⟩ := hfine.serves
  simp only [PingPong.serves, haccepted, Option.bind_eq_bind, Option.pure_def] at h
  obtain ⟨⟨server, log⟩, hround, h⟩ := Option.bind_eq_some_iff.mp h
  obtain ⟨w, t, hctx', hw, -, hcase⟩ := round_cases hctx hv hround
  simp only [PingPong.Orderly, haccepted, hround, Option.mem_def, Option.some.injEq,
    forall_eq'] at horderly
  obtain ⟨hwhole, haccepts⟩ := horderly
  dsimp only at h
  split at h
  · cases h
  · obtain ⟨up, hup, h⟩ := Option.bind_eq_some_iff.mp h
    cases h
    have hserves : ∃ v, server.ctx = .ofView v ∧ v.Serves := ⟨w, hctx', hw⟩
    cases round_onFd hctx hv (round_eq_some hround).1 hctx' hcase fd with
    | exits hexited hsent =>
      refine ⟨a, .stays a, hserves, hfine.placed.closed rfl ?_ (by simp [hexited])⟩
      simp [deliveredOn, hsent]
    | quiet hrunning hperm hsent hclosed hread =>
      rw [PingPong.upAfter, if_neg hread, Option.some.injEq] at hup
      refine ⟨a, .stays a, hserves, hfine.placed.kept rfl ?_ hup.symm ?_ fun _ => hperm⟩
      · simp [deliveredOn, hsent]
      · simp [hrunning, hclosed, haccepted]
    | @receives m rest hrunning _ hread hrecv hqueue hsent hclosed =>
      rw [hwhole hread] at hrecv
      obtain ⟨q, rfl, hfits, hphase, hdown, hup', rfl, hnil⟩ :=
        hfine.placed.received haccepted hrecv
      rw [PingPong.upAfter, if_pos hread, hwhole hread, hup', List.flatten_singleton, readFrom_frame hfits,
        Option.map_some, Option.some.injEq] at hup
      refine ⟨.held q, .takes q, hserves, hfits, by simp [hphase], ?_, ?_, ?_⟩
      · simp [deliveredOn, hsent, hdown]
      · simp [hrunning, hclosed]
      · intro _
        refine ⟨hphase, hup.symm, ?_⟩
        rw [hqueue, hnil]
        rfl
    | @sends m hrunning _ hread hperm hsent hclosed =>
      obtain ⟨q, rfl, hfits, hphase, hdown, hup', rfl, hnil⟩ := hfine.placed.sent haccepted hperm
      rw [PingPong.upAfter, if_neg hread, Option.some.injEq] at hup
      have hmax : (replyTo fd q).length ≤ ipcMaxMessageSize := by
        have hlength := replyTo_length fd q
        rw [IpcMessage.length_frame] at hlength
        omega
      have hone := hsent hmax
      have hwhole' := haccepts _ (hone ▸ List.mem_singleton_self _)
      refine ⟨.answered q, .answers q, hserves, hfits, hphase, ?_, ?_, ?_⟩
      · simp only [deliveredOn, hone, hdown, List.map_cons, List.map_nil, List.nil_append, hwhole']
      · simp [hrunning, hclosed]
      · intro _
        exact ⟨hup.symm.trans hup', hnil⟩
    | closes hrunning _ hclosed hsent =>
      refine ⟨a, .stays a, hserves, hfine.placed.closed rfl ?_ (by simp [hclosed])⟩
      simp [deliveredOn, hsent]

/-- A round of the service. -/
theorem serves_turn (hfine : net.Fine fd a) (horderly : net.Orderly fd (.serves sys))
    (h : net.serves fd sys = some net') : ∃ b, Turn pongOf a [] b ∧ net'.Fine fd b := by
  cases hstage : net.stage with
  | pending => exact ⟨a, .stays a, pending_turn hfine hstage horderly h⟩
  | accepted => exact accepted_turn hfine hstage horderly h
  | closed =>
    obtain ⟨v, hctx, hv⟩ := hfine.serves
    simp only [PingPong.serves, hstage, Option.bind_eq_bind, Option.pure_def] at h
    obtain ⟨⟨server, log⟩, hround, h⟩ := Option.bind_eq_some_iff.mp h
    obtain ⟨w, t, hctx', hw, -, hcase⟩ := round_cases hctx hv hround
    cases h
    exact ⟨a, .stays a, ⟨w, hctx', hw⟩, hfine.placed.closed rfl rfl rfl⟩

/-! ### What the client does -/

/-- A client that is about to write has no message under way. -/
theorem PingPong.Placed.ready (h : net.Placed fd a) (hready : net.client.phase = .ready) :
    a = .idle ∧ net.down = [] ∧ (net.stage ≠ .closed → net.up = []) ∧
      (net.stage = .accepted → net.server.ctx.waiting fd = []) := by
  cases a with
  | idle => exact ⟨rfl, h.2⟩
  | asked m => exact absurd hready h.2.1
  | held m => exact absurd hready h.2.1
  | answered m => cases hready.symm.trans h.2.1

/-- A client that gives up without a message under way. -/
theorem PingPong.Placed.quits (h : net.Placed fd a) (hready : net.client.phase = .ready)
    (hserver : net'.server = net.server) (hphase : net'.client.phase = .quit)
    (hdown : net'.down = net.down) (hup : net'.up = net.up) (hstage : net'.stage = net.stage) :
    net'.Placed fd a := by
  obtain ⟨rfl, hnil, hopen, hqueue⟩ := h.ready hready
  refine ⟨by simp [hphase], by rwa [hdown], by rwa [hstage, hup], ?_⟩
  rwa [hstage, hserver]

theorem length_of_content {m : IpcMessage} {p : List Byte} (h : m.content = p) :
    m.length = p.length := by
  rw [← h, m.length_content]

/-- What `ipc_message_format_data` accepts. -/
theorem ipcMessageFormatData_ok {p : List Byte} {m : IpcMessage}
    (h : ipcMessageFormatData default 42 (some p) p.length = some (.ok m)) :
    m.content = p ∧ m.received default = m ∧ m.length ≤ ipcMaxMessageSize := by
  unfold ipcMessageFormatData ipcMessageFormat at h
  split at h
  · cases h
  · rename_i hmax
    split at h
    · cases h
    · dsimp only at h
      split at h
      · cases h
        have htake : p.take p.length = p := List.take_length
        refine ⟨htake, (IpcMessage.eq_received_iff.mpr ⟨rfl, rfl, rfl, rfl, rfl⟩).symm, ?_⟩
        show (p.take p.length).length ≤ _
        rw [htake]
        exact Nat.not_lt.mp hmax
      · cases h

/-- The client writes. -/
theorem writes_turn {es : List (Exchanged IpcMessage IpcMessage)} {s : SendResult}
    (hfine : net.Fine fd a) (horderly : net.Orderly fd (.writes s))
    (h : net.writes s = some (net', es)) : ∃ b, Turn pongOf a es b ∧ net'.Fine fd b := by
  unfold PingPong.writes at h
  split at h
  · rename_i p todo hready htodo
    simp only [PingPong.Orderly, htodo, List.head?_cons, Option.mem_def, Option.some.injEq,
      forall_eq'] at horderly
    simp only [Option.bind_eq_bind, Option.pure_def] at h
    obtain ⟨r, hformat, h⟩ := Option.bind_eq_some_iff.mp h
    cases r with
    | error c =>
      cases h
      exact ⟨a, .stays a, hfine.serves, hfine.placed.quits hready rfl rfl rfl rfl rfl⟩
    | ok m =>
      obtain ⟨hcontent, -, hmax⟩ := ipcMessageFormatData_ok hformat
      obtain ⟨⟨code, bs⟩, hwrite, h⟩ := Option.bind_eq_some_iff.mp h
      obtain ⟨rfl, hfits⟩ := ipcWriteFd_frame hmax hwrite
      have hlength : m.frame.length = ipcHeaderSize + p.length := by
        rw [m.length_frame, length_of_content hcontent]
      obtain ⟨rfl, hnil, hopen, hqueue⟩ := hfine.placed.ready hready
      rw [horderly, ← hlength] at hwrite
      dsimp only at h
      rw [if_pos (ipcWriteFd_whole hmax hwrite)] at h
      cases h
      refine ⟨.asked m, .asks m, hfine.serves, hfits, by simp, hnil, ?_, hqueue⟩
      intro hne
      refine ⟨rfl, ?_⟩
      rw [hopen hne, horderly, List.nil_append, SendResult.accepted, ← hlength, List.take_length]
  · cases h

/-- A client that finds the connection closed gives up. -/
theorem PingPong.Placed.abandoned (h : net.Placed fd a) (hnil : net.down = []) (hphase : net'.client.phase = .quit) (hdown : net'.down = [])
    (hstage : net'.stage = .closed) : net'.Placed fd a := by
  cases a with
  | idle => exact ⟨by simp [hphase], hdown, by simp [hstage], by simp [hstage]⟩
  | asked m => exact ⟨h.1, by simp [hphase], hdown, by simp [hstage], by simp [hstage]⟩
  | held m => exact ⟨h.1, by simp [hphase], hdown, by simp [hstage], by simp [hstage]⟩
  | answered m => cases hnil.symm.trans h.2.2.1

/-- The client reads. -/
theorem reads_turn {es : List (Exchanged IpcMessage IpcMessage)} {rs : List RecvResult}
    (hfine : net.Fine fd a) (horderly : net.Orderly fd (.reads rs))
    (h : net.reads rs = some (net', es)) : ∃ b, Turn pongOf a es b ∧ net'.Fine fd b := by
  unfold PingPong.reads at h
  split at h
  · rename_i hwaiting
    obtain rfl : rs = [.ok net.down.flatten] := horderly
    simp only [Option.bind_eq_bind, Option.pure_def] at h
    obtain ⟨⟨r, down⟩, hread, h⟩ := Option.bind_eq_some_iff.mp h
    -- Nothing to read: the connection is closed.
    have hover : net.down = [] → ∃ b, Turn pongOf a es b ∧ net'.Fine fd b := by
      intro hnil
      rw [hnil, List.flatten_nil] at hread
      obtain ⟨hclosed, heq⟩ := readFrom_nil hread
      obtain ⟨rfl, rfl⟩ := Prod.mk.inj heq
      cases h
      have hstage : net.stage = .closed := of_decide_eq_true hclosed
      exact ⟨a, .stays a, hfine.serves, hfine.placed.abandoned hnil rfl rfl hstage⟩
    cases a with
    | idle => exact absurd hwaiting hfine.placed.1
    | asked m => exact hover hfine.placed.2.2.1
    | held m => exact hover hfine.placed.2.2.1
    | answered m =>
      obtain ⟨hfits, -, hdown, hne, hopen⟩ := hfine.placed
      have hreply : (replyTo fd m).frame.length ≤ ipcMaxMessageSize := by rwa [replyTo_length]
      rw [hdown, List.flatten_singleton, readFrom_frame hreply, replyTo_received] at hread
      cases hread
      cases h
      refine ⟨.idle, .reads m, hfine.serves, by simp, rfl, ?_, fun h => (hopen h).2⟩
      intro hstage
      cases hcase : net.stage with
      | pending => exact absurd hcase hne
      | accepted => exact (hopen hcase).1
      | closed => exact absurd hcase hstage
  · cases h

/-- Every step is a turn. -/
theorem step_turn {m : Move} {es : List (Exchanged IpcMessage IpcMessage)} (hfine : net.Fine fd a)
    (horderly : net.Orderly fd m) (h : net.step fd m = some (net', es)) :
    ∃ b, Turn pongOf a es b ∧ net'.Fine fd b := by
  cases m with
  | serves sys =>
    obtain ⟨net₁, hserves, heq⟩ := Option.map_eq_some_iff.mp h
    cases heq
    exact serves_turn hfine horderly hserves
  | writes s => exact writes_turn hfine horderly h
  | reads rs => exact reads_turn hfine horderly h
  | closes =>
    simp only [PingPong.step] at h
    split at h
    · rename_i hready
      cases h
      exact ⟨a, .stays a, hfine.serves, hfine.placed.quits hready.1 rfl rfl rfl rfl rfl⟩
    · cases h

/-! ## Results -/

/-- A client that has not written anything yet. -/
theorem fine_idle {server : Pongd} (hserver : server.Reached) {client : Pong}
    (hready : client.phase = .ready) : PingPong.Fine fd { server, client } .idle := by
  refine ⟨hserver.exists_view, by simp [hready], rfl, fun _ => rfl, ?_⟩
  intro hstage
  cases hstage

theorem run_turns {server : Pongd} (hserver : server.Reached) {client : Pong}
    (hready : client.phase = .ready) {ms : List Move} {es : List (Exchanged IpcMessage IpcMessage)}
    (horderly : RunMeets (PingPong.step fd) (PingPong.Orderly fd) { server, client } ms)
    (hrun : runAll (PingPong.step fd) { server, client } ms = some (net, es)) :
    ∃ a, Accounted pongOf .idle es a ∧ net.Fine fd a :=
  runAll_accounted (P := PingPong.Fine fd) (fun _ _ _ _ _ => step_turn) (fine_idle hserver hready)
    horderly hrun

/-- What `ipc_message_format_data` has made of the payloads that are not there any more. -/
structure Formatted (es : List (Exchanged IpcMessage IpcMessage)) (todo todo' : List (List Byte)) :
    Prop where
  payloads : (questions es).map IpcMessage.content ++ todo' = todo
  fresh : ∀ q ∈ questions es, q.received default = q

theorem step_formatted {m : Move} {es : List (Exchanged IpcMessage IpcMessage)}
    (h : net.step fd m = some (net', es)) : Formatted es net.client.todo net'.client.todo := by
  have hkept : ∀ {es : List (Exchanged IpcMessage IpcMessage)} {ps : List (List Byte)},
      questions es = [] → Formatted es ps ps := by
    intro es ps hnil
    refine ⟨by rw [hnil]; rfl, ?_⟩
    intro q hq
    rw [hnil] at hq
    cases hq
  cases m with
  | serves sys =>
    obtain ⟨net₁, hserves, heq⟩ := Option.map_eq_some_iff.mp h
    cases heq
    simp only [PingPong.serves, Option.bind_eq_bind, Option.pure_def] at hserves
    obtain ⟨⟨server, log⟩, -, hserves⟩ := Option.bind_eq_some_iff.mp hserves
    dsimp only at hserves
    split at hserves
    · cases hserves
      exact hkept rfl
    · split at hserves
      · cases hserves
      · obtain ⟨up, -, hserves⟩ := Option.bind_eq_some_iff.mp hserves
        cases hserves
        exact hkept rfl
    · cases hserves
      exact hkept rfl
  | writes s =>
    simp only [PingPong.step, PingPong.writes, Option.bind_eq_bind, Option.pure_def] at h
    split at h
    · rename_i p todo hready htodo
      obtain ⟨r, hformat, h⟩ := Option.bind_eq_some_iff.mp h
      cases r with
      | error c =>
        cases h
        exact hkept rfl
      | ok m =>
        obtain ⟨hcontent, hfresh, -⟩ := ipcMessageFormatData_ok hformat
        obtain ⟨⟨code, bs⟩, -, h⟩ := Option.bind_eq_some_iff.mp h
        dsimp only at h
        split at h
        · cases h
          refine ⟨?_, ?_⟩
          · rw [htodo, ← hcontent]
            rfl
          · intro q hq
            obtain rfl := List.mem_singleton.mp hq
            exact hfresh
        · cases h
          exact hkept rfl
    · cases h
  | reads rs =>
    simp only [PingPong.step, PingPong.reads, Option.bind_eq_bind, Option.pure_def] at h
    split at h
    · obtain ⟨⟨r, down⟩, -, h⟩ := Option.bind_eq_some_iff.mp h
      cases r with
      | error c =>
        cases h
        exact hkept rfl
      | ok m =>
        cases h
        exact hkept rfl
    · cases h
  | closes =>
    simp only [PingPong.step] at h
    split at h
    · cases h
      exact hkept rfl
    · cases h

theorem run_formatted {ms : List Move} {es : List (Exchanged IpcMessage IpcMessage)}
    (h : runAll (PingPong.step fd) net ms = some (net', es)) :
    Formatted es net.client.todo net'.client.todo := by
  refine (runAll_induction (G := fun _ _ => True) (P := fun _ => True)
    (Q := fun net es net' => Formatted es net.client.todo net'.client.todo) ?_ ?_ trivial
    (runMeets_true net ms) h).2
  · intro net _
    exact ⟨rfl, by simp [questions]⟩
  · intro net m net₁ es₁ _ _ hstep
    refine ⟨trivial, ?_⟩
    intro es₂ net₂ hrest
    have hone := step_formatted hstep
    refine ⟨?_, ?_⟩
    · rw [questions_append, List.map_append, List.append_assoc, hrest.payloads, hone.payloads]
    · intro q hq
      rw [questions_append] at hq
      rcases List.mem_append.mp hq with hq | hq
      · exact hone.fresh q hq
      · exact hrest.fresh q hq

/-- A string comes back as it was. -/
theorem pongOf_eq {q : IpcMessage} (hfresh : q.received default = q)
    (hq : NoByteAfterNul q.content) : pongOf q = q := by
  obtain ⟨hfd, -, -, -, hpayload⟩ := IpcMessage.eq_received_iff.mp hfresh.symm
  have hcopy : (deepCopy q).content = q.content := by
    rw [content_deepCopy_eq_iff]
    intro p hp
    rw [hpayload] at hp
    cases hp
    exact hq
  unfold pongOf
  rw [hfresh]
  have hsame : q = (deepCopy q).received default :=
    IpcMessage.eq_received_iff.mpr ⟨hfd, rfl, rfl, rfl, by rw [hcopy, hpayload]⟩
  exact hsame.symm

theorem noByteAfterNul_string {s : List Byte} (hs : 0 ∉ s) : NoByteAfterNul (s ++ [0]) := by
  induction s with
  | nil => simp [NoByteAfterNul]
  | cons b s ih =>
    rw [List.mem_cons, not_or] at hs
    rw [List.cons_append, NoByteAfterNul, if_neg (Ne.symm hs.1)]
    exact ih hs.2

/-- A client that sends `nbMsg` times the string `msgStr` receives each of its messages back as it
was, one after the other, and never waits for more than one. -/
theorem nonInteractive_echoed {server : Pongd} (hserver : server.Reached) {nbMsg : Nat}
    {msgStr : List Byte} (hstring : 0 ∉ msgStr) {ms : List Move}
    {es : List (Exchanged IpcMessage IpcMessage)}
    (horderly : RunMeets (PingPong.step fd) (PingPong.Orderly fd)
      { server, client := .nonInteractive nbMsg msgStr } ms)
    (hrun : runAll (PingPong.step fd) { server, client := .nonInteractive nbMsg msgStr } ms =
      some (net, es)) :
    (∀ q ∈ questions es, q.content = msgStr ++ [0]) ∧ (questions es).length ≤ nbMsg ∧
      (∃ a : Flight IpcMessage, questions es = answers es ++ a.open?.toList ∧ net.Placed fd a) := by
  obtain ⟨a, ⟨done, hquestions, hanswers⟩, hfine⟩ := run_turns hserver rfl horderly hrun
  obtain ⟨hpayloads, hfresh⟩ := run_formatted hrun
  have hmem : ∀ q ∈ questions es, q.content = msgStr ++ [0] := by
    intro q hq
    have hq : q.content ∈ List.replicate nbMsg (msgStr ++ [0]) := by
      rw [show List.replicate nbMsg (msgStr ++ [0]) = _ from hpayloads.symm]
      exact List.mem_append_left _ (List.mem_map_of_mem hq)
    exact List.eq_of_mem_replicate hq
  refine ⟨hmem, ?_, a, ?_, hfine.placed⟩
  · have hlength := congrArg List.length hpayloads
    simp only [List.length_append, List.length_map, Pong.nonInteractive,
      List.length_replicate] at hlength
    omega
  · have hsame : answers es = done := by
      rw [hanswers]
      refine (List.map_congr_left ?_).trans (List.map_id done)
      intro q hq
      have hq : q ∈ questions es := by
        show q ∈ Flight.idle.open?.toList ++ questions es
        rw [hquestions]
        exact List.mem_append_left _ hq
      exact pongOf_eq (hfresh q hq) (hmem q hq ▸ noByteAfterNul_string hstring)
    rw [hsame]
    exact hquestions

/-- `pong 0 1 hi`, as the client on descriptor 5. -/
def onePingPong : List Move :=
  [.serves { poll := some [{ pollin := true }], accept := 5 },
    .writes (.sent 9),
    .serves { poll := some [{}, { pollin := true }], recv := [.ok [2, 0, 0, 0, 3, 42, 104, 105, 0]] },
    .serves { poll := some [{}, { pollout := true }], send := .sent 9 },
    .reads [.ok [2, 0, 0, 0, 3, 42, 104, 105, 0]],
    .closes]

end

end LibIpc.C

import LibIpc.C.Invariant

/-!
# From `ipc_write` to `send(2)`

Two questions about a queued message: in which order does it leave the queue, and with which
bytes. The queue is one array for all descriptors and deletes by swapping, so the messages of one
descriptor stay in order only while every deletion is `SwapSafe`. The copy `ipc_write` queues goes
through `strncpy`, so the bytes sent are those of a direct `ipc_write_fd` only when no payload
byte follows a zero byte.
-/

namespace LibIpc.C

open Lib

/-! ## Order -/

/-- The messages to send, all descriptors together. -/
def IpcCtx.queue (ctx : IpcCtx) : List IpcMessage := (ctx.tx.messages.getD []).take ctx.tx.size

theorem queue_ofView (v : View) : (IpcCtx.ofView v).queue = v.tx := by
  simp [IpcCtx.queue, IpcMessages.ofList]

/-- The messages waiting to be sent to `fd`. -/
def IpcCtx.waiting (ctx : IpcCtx) (fd : Fd) : List IpcMessage := lane IpcMessage.fd fd ctx.queue

/-- From `ctx` to `ctx'`, with `io` in between, the messages for `fd` were handed over to be sent
in the order in which they were queued. -/
def SentInOrder (fd : Fd) (ctx : IpcCtx) (io : List Io) (ctx' : IpcCtx) : Prop :=
  HandedInOrder IpcMessage.fd fd (ctx.waiting fd) (queueEvents io) (ctx'.waiting fd)

instance (fd : Fd) (ctx : IpcCtx) (io : List Io) (ctx' : IpcCtx) :
    Decidable (SentInOrder fd ctx io ctx') :=
  inferInstanceAs (Decidable (HandedInOrder ..))

/-- A run from a reachable context changes the queue by the events it emits. -/
theorem runAll_queueSteps {ctx ctx' : IpcCtx} {cs : List Call} {io : List Io}
    (h : ReachableCtx ctx) (hrun : runAll step ctx cs = some (ctx', io)) :
    QueueSteps IpcMessage.fd ctx.queue (queueEvents io) ctx'.queue := by
  have hind := runAll_induction (G := fun _ _ => True)
    (P := fun ctx => ∃ v : View, ctx = .ofView v ∧ v.Tracked)
    (Q := fun ctx io ctx' => QueueSteps IpcMessage.fd ctx.queue (queueEvents io) ctx'.queue)
    (fun ctx _ => .nil _) ?_ h.exists_view (runMeets_true ctx cs) hrun
  · exact hind.2
  · rintro ctx c ctx₁ io₁ ⟨v, rfl, htracked⟩ - hstep
    obtain ⟨v₁, rfl, hrefines⟩ := step_refines htracked hstep
    refine ⟨⟨v₁, rfl, hrefines.tracked⟩, ?_⟩
    intro io₂ ctx₂ hsteps₂
    rw [queueEvents_append]
    rw [queue_ofView] at hsteps₂ ⊢
    exact hrefines.steps.append hsteps₂

/-- `ipc_wait_event` when only descriptor number `i` of `n` is ready, for writing. -/
def writable (i n : Nat) : Call :=
  .waitEvent 1000
    { poll := some ((List.replicate n {}).set i { pollout := true }), send := .sent 8 }

/-- Two connections, a message queued for each, both sent. -/
def twoConnections : List Call :=
  [.connection 0 (.ok 5), .connection 0 (.ok 6), .write (.ofPayload 1 0 5 [104, 105]),
    .write (.ofPayload 1 0 6 [111, 107]), writable 0 2, writable 1 2]

/-- Three messages queued for one descriptor, then two `POLLOUT`. -/
def threeMessages : List Call :=
  [.connection 0 (.ok 5), .write (.ofPayload 1 0 5 [97]), .write (.ofPayload 2 0 5 [98]),
    .write (.ofPayload 3 0 5 [99]), writable 0 1, writable 0 1]

/-- What `ipc_write`, then `handle_writing_message` on connection `index`, pass to `send(2)`. -/
def scheduledSends (ctx : IpcCtx) (m : IpcMessage) (index : Nat) (s : SendResult) :
    Option (List (Fd × List Byte)) := do
  let (_, ctx, _) ← ipcWrite ctx m
  let (_, _, _, io) ← handleWritingMessage ctx index s
  return sends io

/-- What `ipc_write_fd` passes to `send(2)`. -/
def directSends (m : IpcMessage) (s : SendResult) : Option (List (Fd × List Byte)) :=
  (ipcWriteFd m s).map fun (_, bs) => [(m.fd, bs)]

/-- Storing as many entries as were read makes them the entries. -/
theorem entries_setEntries {ctx : IpcCtx} {es es' : List (IpcConnectionInfo × PollFd)}
    (h : ctx.entries = some es) (hlen : es'.length = es.length) :
    (ctx.setEntries es').entries = some es' := by
  simp only [IpcCtx.entries, Option.bind_eq_bind, Option.bind_eq_some_iff, Option.pure_def,
    Option.some.injEq] at h
  obtain ⟨cinfos, hcinfos, pollfd, hpollfd, rfl⟩ := h
  have hsize : es'.length = ctx.size := by
    rw [hlen, List.length_zip, Ptr.length_of_block hcinfos, Ptr.length_of_block hpollfd,
      Nat.min_self]
  have hfst : (es'.map Prod.fst).length = ctx.size := by simpa using hsize
  have hsnd : (es'.map Prod.snd).length = ctx.size := by simpa using hsize
  have h₁ := Ptr.block_map_const hcinfos hfst
  have h₂ := Ptr.block_map_const hpollfd hsnd
  simp only [IpcCtx.entries, IpcCtx.setEntries, h₁, h₂, Option.bind_eq_bind, Option.bind_some,
    Option.pure_def, Option.some.injEq]
  exact (List.zip_of_prod rfl rfl).symm

/-- When the last message queued is the only one for its descriptor, the search finds it. -/
theorem searchMessage_concat {q : List IpcMessage} {m : IpcMessage}
    (hnone : ∀ x ∈ q, x.fd ≠ m.fd) :
    searchMessage (.ofList (q ++ [m])) m.fd = some (some (q ++ [m], q.length, m)) := by
  have hidx : (q ++ [m]).findIdx? (fun x => x.fd = m.fd) = some q.length := by
    rw [List.findIdx?_append, List.findIdx?_eq_none_iff.mpr (by simpa using hnone)]
    simp
  have hblock := IpcMessages.block_ofList (q ++ [m])
  rw [searchMessage, if_neg (by simp), IpcMessages.ofList_size, hblock]
  simp [hidx]

/-- `handle_writing_message` sends the only message queued for its descriptor. -/
theorem handleWritingMessage_concat {ctx : IpcCtx} {es : List (IpcConnectionInfo × PollFd)}
    {q : List IpcMessage} {m : IpcMessage} {index : Nat} {e : IpcConnectionInfo × PollFd}
    (hes : ctx.entries = some es) (hget : es[index]? = some e) (hfd : e.2.fd = m.fd)
    (htx : ctx.tx = .ofList (q ++ [m])) (hnone : ∀ x ∈ q, x.fd ≠ m.fd)
    (hlen : m.length ≤ ipcMaxMessageSize - ipcHeaderSize) (s : SendResult) :
    ∃ ctx' event, handleWritingMessage ctx index s =
      some (.none, ctx', event,
        [.queue (.handed (q ++ [m]) q.length), .send m.fd m.frame s]) := by
  obtain ⟨cinfo, pollfd⟩ := e
  have hfd' : pollfd.fd = m.fd := hfd
  obtain ⟨code, hwrite⟩ := ipcWriteFd_eq s hlen
  have hlt : q.length < (q ++ [m]).length := by simp
  simp only [handleWritingMessage, hes, hget, htx, hfd', searchMessage_concat hnone, hwrite,
    deleteFound_ofList m hlt, Option.bind_eq_bind, Option.bind_some, Option.map_some,
    Option.pure_def]
  exact ⟨_, _, rfl⟩

/-- What the scheduled path sends: the frame of the copy. -/
theorem scheduledSends_eq {ctx : IpcCtx} {es : List (IpcConnectionInfo × PollFd)}
    {q : List IpcMessage} (hes : ctx.entries = some es)
    (hq : ctx.tx.messages.block ctx.tx.size = some q) {m : IpcMessage} {index : Nat}
    {e : IpcConnectionInfo × PollFd} (hget : es[index]? = some e) (hfd : e.2.fd = m.fd)
    (hnone : ∀ x ∈ q, x.fd ≠ m.fd) (hlen : m.length ≤ ipcMaxMessageSize - ipcHeaderSize)
    (s : SendResult) :
    scheduledSends ctx m index s = some [(m.fd, (deepCopy m).frame)] := by
  have hany : (es.any fun e => e.2.fd = m.fd) = true := by
    rw [List.any_eq_true]
    exact ⟨e, List.mem_of_getElem? hget, by simpa using hfd⟩
  simp only [scheduledSends, ipcWrite, hes, Option.bind_eq_bind, Option.bind_some, hany, if_true,
    Option.pure_def, ipcMessagesAdd_eq hq]
  generalize hes' : (es.map fun e =>
    if e.2.fd = m.fd then
      (e.1, { e.2 with events := { e.2.events with pollout := true } })
    else e) = es'
  obtain ⟨e', hget', hfd'⟩ : ∃ e', es'[index]? = some e' ∧ e'.2.fd = m.fd := by
    simp [← hes', hget, hfd]
  have hentries : IpcCtx.entries { ctx.setEntries es' with tx := .ofList (q ++ [deepCopy m]) }
      = some es' :=
    entries_setEntries hes (by simp [← hes'])
  obtain ⟨ctx', event, hsent⟩ :=
    handleWritingMessage_concat (m := deepCopy m) hentries hget' hfd' rfl hnone hlen s
  rw [hsent]
  rfl

/-- **Bytes**: on any context where `m.fd` is tracked by connection `index` and has nothing
queued, the scheduled path passes to `send(2)` what the direct path passes exactly when no byte of
the payload follows a zero byte. -/
theorem scheduledSends_eq_iff {ctx : IpcCtx} {es : List (IpcConnectionInfo × PollFd)}
    {q : List IpcMessage} (hes : ctx.entries = some es)
    (hq : ctx.tx.messages.block ctx.tx.size = some q) {m : IpcMessage} {index : Nat}
    {e : IpcConnectionInfo × PollFd} (hget : es[index]? = some e) (hfd : e.2.fd = m.fd)
    (hnone : ∀ x ∈ q, x.fd ≠ m.fd) (hlen : m.length ≤ ipcMaxMessageSize - ipcHeaderSize)
    (s : SendResult) :
    scheduledSends ctx m index s = directSends m s ↔ ∀ p ∈ m.payload, NoByteAfterNul p := by
  obtain ⟨code, hwrite⟩ := ipcWriteFd_eq s hlen
  rw [scheduledSends_eq hes hq hget hfd hnone hlen, directSends, hwrite,
    ← content_deepCopy_eq_iff]
  -- Both frames carry the same header.
  simp [IpcMessage.frame, deepCopy]

/-- A context with one connection, on descriptor 5. -/
def oneConnection : IpcCtx :=
  .ofView { conns := [({}, { fd := 5, events := { pollin := true } })] }

theorem scheduledSends_text :
    scheduledSends oneConnection (.ofPayload 1 0 5 [104, 105]) 0 (.sent 8) =
      directSends (.ofPayload 1 0 5 [104, 105]) (.sent 8) :=
  (scheduledSends_eq_iff (q := []) rfl rfl rfl rfl (by simp) (by decide)
    (.sent 8)).mpr (by decide)

/-- The payload `00 01` is scheduled as `00 00`. -/
theorem scheduledSends_zero_byte :
    scheduledSends oneConnection (.ofPayload 1 0 5 [0, 1]) 0 (.sent 8) ≠
      directSends (.ofPayload 1 0 5 [0, 1]) (.sent 8) := by
  decide +kernel

end LibIpc.C

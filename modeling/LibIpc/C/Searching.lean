import LibIpc.C.Delivery

/-!
# The search for a message to send (`handle_writing_message`, `fd_switching_write`)

The condition of both search loops is `tx.size`, which does not change: nothing in the loops keeps
the index inside the queue. What does is `ipc_wait_event`. It recomputes every `events` mask from
the queue before it polls, `poll(2)` reports output only where it was asked for, and the queue is
still the same when the handler runs. Nothing is assumed of the context: the queue may hold
anything, and a descriptor may be tracked twice.
-/

namespace LibIpc.C

open Lib

/-! ## The loop -/

/-- The indices the search loop reads from `i` on. After the last message it goes on: that index is
the last one listed, as nothing is known of what it finds there. -/
def searchReads (fd : Fd) : List IpcMessage → Nat → List Nat
  | [], i => [i]
  | m :: ms, i => if m.fd = fd then [i] else i :: searchReads fd ms (i + 1)

theorem searchReads_eq (fd : Fd) (ms : List IpcMessage) (i : Nat) :
    searchReads fd ms i = List.range' i (ms.findIdx (fun m => m.fd = fd) + 1) := by
  induction ms generalizing i with
  | nil => rfl
  | cons m ms ih =>
    rw [searchReads, List.findIdx_cons]
    by_cases hm : m.fd = fd
    · simp [hm]
    · rw [if_neg hm, ih, decide_eq_false hm]
      rfl

/-- The search stops at a message for `fd`, below the size of the queue, and reads no index from
there on. -/
def SearchSafe (tx : IpcMessages) (fd : Fd) : Prop :=
  ∃ messages j m, tx.messages.block tx.size = some messages ∧
    searchMessage tx fd = some (some (messages, j, m)) ∧ j < tx.size ∧ messages[j]? = some m ∧
    m.fd = fd ∧ ∀ k ∈ searchReads fd messages 0, k < tx.size

/-- One message for the descriptor is enough. -/
theorem searchSafe_of_mem {tx : IpcMessages} {messages : List IpcMessage}
    (hblock : tx.messages.block tx.size = some messages) {fd : Fd}
    (hmem : ∃ m ∈ messages, m.fd = fd) : SearchSafe tx fd := by
  have hlt : messages.findIdx (fun m => m.fd = fd) < messages.length := by
    rw [List.findIdx_lt_length]
    simpa using hmem
  have hlen := Ptr.length_of_block hblock
  have hfd : messages[messages.findIdx fun m => m.fd = fd].fd = fd := by
    simpa using List.findIdx_getElem (w := hlt)
  have hidx : messages.findIdx? (fun m => m.fd = fd) =
      some (messages.findIdx fun m => m.fd = fd) := by
    rw [List.findIdx?_eq_some_iff_findIdx_eq]
    exact ⟨hlt, rfl⟩
  have hget := List.getElem?_eq_getElem hlt
  refine ⟨messages, _, _, hblock, ?_, by omega, hget, hfd, ?_⟩
  · rw [searchMessage, if_neg (by omega)]
    simp only [hblock, hidx, hget, Option.bind_eq_bind, Option.bind_some, Option.pure_def]
  · intro k hk
    rw [searchReads_eq, List.mem_range'_1] at hk
    omega

/-! ## The call -/

/-- The functions that search. -/
inductive Writer where
  | handleWritingMessage
  | fdSwitchingWrite
  deriving DecidableEq, Repr

/-- A call of one of them, for the entry `index`. -/
def Writer.run (w : Writer) (event : IpcEvent) (ctx : IpcCtx) (index : Nat) (sys : WaitSys) :
    Option (IpcErrorCode × IpcCtx × IpcEvent × List Io) :=
  match w with
  | .handleWritingMessage => C.handleWritingMessage ctx index sys.send
  | .fdSwitchingWrite => C.fdSwitchingWrite event ctx index sys.switchSys

/-- The call `ipc_wait_event` makes to send a message, if it makes one: the function, the context it
is given and the index. It is made for the first entry with anything to handle, when that is
nothing to read but room to write. -/
def writerCall (ctx : IpcCtx) (sys : WaitSys) : Option (Writer × IpcCtx × Nat) := do
  let es ← ctx.entries
  let messages ← ctx.tx.messages.block ctx.tx.size
  let revents ← sys.poll
  let polled := storeRevents (pollEntries es messages) revents
  let index ← polled.findIdx? handled
  let e ← polled[index]?
  if ¬ readable e ∧ e.2.revents.pollout then
    let pollfd := { e.2 with events := { e.2.events with pollout := false } }
    let ctx := ((ctx.setEntries (pollEntries es messages)).setEntries polled).setEntries
      (polled.set index (e.1, pollfd))
    return (if e.1.type = .switched then .fdSwitchingWrite else .handleWritingMessage, ctx, index)
  else
    none

/-- The contract of `poll(2)`: output is reported only where it was asked for. -/
def PollContract (ctx : IpcCtx) (sys : WaitSys) : Prop :=
  ∀ es messages revents, ctx.entries = some es →
    ctx.tx.messages.block ctx.tx.size = some messages → sys.poll = some revents →
    ∀ (i : Nat) (e : IpcConnectionInfo × PollFd), (pollEntries es messages)[i]? = some e →
      (revents.getD i {}).pollout → e.2.events.pollout

/-- What is known where the call is made. -/
theorem writerCall_cases {ctx ctx' : IpcCtx} {sys : WaitSys} {w : Writer} {i : Nat}
    (h : writerCall ctx sys = some (w, ctx', i)) :
    ∃ es messages revents e, ctx.entries = some es ∧
      ctx.tx.messages.block ctx.tx.size = some messages ∧ sys.poll = some revents ∧
      (storeRevents (pollEntries es messages) revents).findIdx? handled = some i ∧
      (storeRevents (pollEntries es messages) revents)[i]? = some e ∧
      (¬ readable e ∧ e.2.revents.pollout) ∧
      w = (if e.1.type = .switched then .fdSwitchingWrite else .handleWritingMessage) ∧
      ctx' = ((ctx.setEntries (pollEntries es messages)).setEntries
        (storeRevents (pollEntries es messages) revents)).setEntries
          ((storeRevents (pollEntries es messages) revents).set i
            (e.1, { e.2 with events := { e.2.events with pollout := false } })) := by
  simp only [writerCall, Option.bind_eq_bind, Option.pure_def] at h
  obtain ⟨es, hes, h⟩ := Option.bind_eq_some_iff.mp h
  obtain ⟨messages, hmessages, h⟩ := Option.bind_eq_some_iff.mp h
  obtain ⟨revents, hrevents, h⟩ := Option.bind_eq_some_iff.mp h
  obtain ⟨i', hfind, h⟩ := Option.bind_eq_some_iff.mp h
  obtain ⟨e, hget, h⟩ := Option.bind_eq_some_iff.mp h
  obtain ⟨hready, h⟩ := Option.ite_none_right_eq_some.mp h
  cases h
  exact ⟨es, messages, revents, e, hes, hmessages, hrevents, hfind, hget, hready, rfl, rfl⟩

/-- The dispatch makes this call where there is nothing to read but room to write. -/
theorem dispatch_writer (ctx : IpcCtx) (es : List (IpcConnectionInfo × PollFd)) (i : Nat)
    {e : IpcConnectionInfo × PollFd} {sys : WaitSys} (hread : ¬ readable e)
    (hout : e.2.revents.pollout) :
    dispatch ctx es i e sys =
      (if e.1.type = .switched then Writer.fdSwitchingWrite else .handleWritingMessage).run
        { type := .notSet, index := i, origin := e.2.fd, m := none }
        (ctx.setEntries
          (es.set i (e.1, { e.2 with events := { e.2.events with pollout := false } }))) i sys := by
  rw [dispatch, if_neg hread, if_pos hout]
  cases e.1.type with
  | switched => rfl
  | ipc => rfl
  | external => rfl
  | server => rfl

/-- `ipc_wait_event` makes this call, and returns what it returns. -/
theorem ipcWaitEvent_writerCall {ctx ctx' : IpcCtx} {sys : WaitSys} {w : Writer} {i : Nat}
    (h : writerCall ctx sys = some (w, ctx', i)) (timer : Int) :
    ∃ event : IpcEvent, ipcWaitEvent ctx timer sys =
      (timerAfter timer sys.tv₁ sys.tv₂).bind fun timer =>
        (w.run event ctx' i sys).map fun (r, ctx, event, io) => (r, ctx, event, timer, io) := by
  obtain ⟨es, messages, revents, e, hes, hmessages, hrevents, hfind, hget, ⟨hread, hout⟩, rfl, rfl⟩ :=
    writerCall_cases h
  refine ⟨{ type := .notSet, index := i, origin := e.2.fd, m := none }, ?_⟩
  -- `poll(2)` has reported something, so this is not a timeout.
  have hcount : ¬ (storeRevents (pollEntries es messages) revents).countP
      (fun e => e.2.revents ≠ {}) = 0 := by
    rw [List.countP_eq_zero]
    intro hnone
    refine hnone e (List.mem_of_getElem? hget) ?_
    simp only [decide_eq_true_eq]
    intro heq
    simp [heq] at hout
  simp only [ipcWaitEvent, hes, hmessages, hrevents, hfind, hget, hcount, Option.bind_eq_bind,
    Option.bind_some, Option.pure_def, false_and, if_false, dispatch_writer _ _ i hread hout]
  congr 1
  funext t
  rw [Option.map_eq_bind]
  rfl

/-! ## The search is safe -/

theorem storeRevents_getElem? {es : List (IpcConnectionInfo × PollFd)} {revents : List PollEvents}
    {i : Nat} {e : IpcConnectionInfo × PollFd} (h : (storeRevents es revents)[i]? = some e) :
    ∃ e₀, es[i]? = some e₀ ∧ e = (e₀.1, { e₀.2 with revents := revents.getD i {} }) := by
  rw [storeRevents, List.getElem?_mapIdx, Option.map_eq_some_iff] at h
  obtain ⟨e₀, he₀, rfl⟩ := h
  exact ⟨e₀, he₀, rfl⟩

theorem pollEntries_getElem? {es : List (IpcConnectionInfo × PollFd)} {messages : List IpcMessage}
    {i : Nat} {e : IpcConnectionInfo × PollFd} (h : (pollEntries es messages)[i]? = some e) :
    e.2.events.pollout ↔ ∃ m ∈ messages, m.fd = e.2.fd := by
  rw [pollEntries, List.getElem?_map, Option.map_eq_some_iff] at h
  obtain ⟨e₀, -, rfl⟩ := h
  simp

/-- **Bounds**: whenever `ipc_wait_event` calls `handle_writing_message` or `fd_switching_write`, the
queue is the one it computed the `events` from, a message for the descriptor of the entry is in it,
and the search finds one without leaving the queue. -/
theorem search_safe {ctx ctx' : IpcCtx} {sys : WaitSys} {w : Writer} {i : Nat}
    (hpoll : PollContract ctx sys) (hcall : writerCall ctx sys = some (w, ctx', i)) (timer : Int) :
    ∃ e event, ctx'.entries.bind (fun es => es[i]?) = some e ∧
      w = (if e.1.type = .switched then .fdSwitchingWrite else .handleWritingMessage) ∧
      ipcWaitEvent ctx timer sys = (timerAfter timer sys.tv₁ sys.tv₂).bind (fun timer =>
        (w.run event ctx' i sys).map fun (r, ctx, event, io) => (r, ctx, event, timer, io)) ∧
      ctx'.tx = ctx.tx ∧ SearchSafe ctx'.tx e.2.fd := by
  obtain ⟨event, hwait⟩ := ipcWaitEvent_writerCall hcall timer
  obtain ⟨es, messages, revents, e, hes, hmessages, hrevents, -, hget, ⟨-, hout⟩, rfl, rfl⟩ :=
    writerCall_cases hcall
  obtain ⟨hlt, -⟩ := List.getElem?_eq_some_iff.mp hget
  have hes₁ : (ctx.setEntries (pollEntries es messages)).entries = some (pollEntries es messages) :=
    entries_setEntries hes (by simp [pollEntries])
  have hes₂ : ((ctx.setEntries (pollEntries es messages)).setEntries
      (storeRevents (pollEntries es messages) revents)).entries =
        some (storeRevents (pollEntries es messages) revents) :=
    entries_setEntries hes₁ (by simp [storeRevents])
  refine ⟨(e.1, { e.2 with events := { e.2.events with pollout := false } }), event, ?_, rfl, hwait,
    rfl, ?_⟩
  · rw [entries_setEntries hes₂ (by simp), Option.bind_some, List.getElem?_set_self hlt]
  · -- What `poll(2)` reports was asked for, and was asked for because of a message.
    obtain ⟨e₀, hget₀, rfl⟩ := storeRevents_getElem? hget
    have hasked := hpoll es messages revents hes hmessages hrevents i e₀ hget₀ hout
    exact searchSafe_of_mem hmessages ((pollEntries_getElem? hget₀).mp hasked)

/-- Descriptor 5 is tracked twice, the only message is for it, and the first entry is ready. -/
def trackedTwice : View :=
  { conns := [({ type := .switched }, { fd := 5 }), ({}, { fd := 5 })]
    tx := [.ofPayload 1 0 5 [112, 105]]
    switchdb := [{ orig := 5, dest := 6 }] }

theorem search_safe_tracked_twice :
    ∃ w ctx' i e, writerCall (.ofView trackedTwice)
        { poll := some [{ pollout := true }, { pollout := true }] } = some (w, ctx', i) ∧
      ctx'.entries.bind (fun es => es[i]?) = some e ∧ SearchSafe ctx'.tx e.2.fd := by
  have hpoll : PollContract (.ofView trackedTwice)
      { poll := some [{ pollout := true }, { pollout := true }] } := by
    intro es messages revents hes hmessages hrevents i e hget _
    cases hes
    cases hmessages
    have hall : ∀ e ∈ pollEntries trackedTwice.conns trackedTwice.tx, e.2.events.pollout := by
      decide
    exact hall e (List.mem_of_getElem? hget)
  obtain ⟨e, event, hget, -, -, -, hsafe⟩ := search_safe hpoll rfl 1000
  exact ⟨_, _, _, e, rfl, hget, hsafe⟩

end LibIpc.C

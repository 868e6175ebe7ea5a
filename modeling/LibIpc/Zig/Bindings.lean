import LibIpc.Zig.Relay
import LibIpc.Lib.Ownership

/-!
# Ownership of messages in the C bindings (`bindings.zig`)

Every message payload is allocated when the message is made: by `ipc_schedule`, or by the
`Message.read` of a connection or of a switch. It is released in five places: `close` drops the
messages of a descriptor, `handle_event_write` and `wait_event` free a message that was written,
`ipc_wait_event` frees the message of its event, and `deinit` what is left in `tx`. The message of
a `SWITCH_RX` event is still in `tx` when `ipc_wait_event` frees it. `singleOwner_iff` says that
this is the only way to release a payload that is in use, or twice.
-/

namespace LibIpc.Zig

open Lib

/-! ## The exported functions -/

/-- `Context.close_all`, with `n` connections left. -/
def State.closeAll (s : State) : Nat → Option (Except Error Unit × State × List Io)
  | 0 => some (.ok (), s, [])
  | n + 1 =>
    match s.close 0 with
    | none => none
    | some (.error e, s, io) => some (.error e, s, io)
    | some (.ok (), s, io) => (s.closeAll n).map fun (r, s, io') => (r, s, io ++ io')

/-- A context behind the bindings: the blocks of the payloads in `tx`, entry by entry, and whether
it is still there. -/
structure Owned where
  state : State := {}
  blocks : Holding := {}
  alive : Bool := true

/-- The exported functions, with what the environment answers; `buflen` is the size of the buffer
`ipc_wait_event` is given. The functions that open or join connections allocate no message that
outlives them. -/
inductive Export where
  | openFd (fd : Fd)
  | ipcServiceInit (path : List Byte) (listen : Except Error Fd)
  | ipcConnectService (connect : Except Error Fd)
  | ipcAddExternal (fd : Fd)
  | ipcAddSwitch (fd1 fd2 : Fd)
  | ipcSchedule (servicefd : Fd) (mcontent : List Byte)
  | ipcWaitEvent (sys : WaitSys) (buflen : Nat)
  | ipcClose (index : Nat)
  | ipcCloseFd (fd : Fd)
  | ipcCloseAll
  | ipcContextDeinit

/-- The state and the blocks after a call on the context. -/
def Owned.follow (o : Owned) (frees : Message → Bool) (s : State) (io : List Io) :
    Owned × List MemEvent :=
  let r := followAll frees o.blocks (queueEvents io)
  ({ o with state := s, blocks := r.1 }, r.2)

/-- A call that writes no message. -/
def Owned.perform (o : Owned) (c : Call) : Option (Owned × List MemEvent) :=
  (step o.state c).map fun (s, io) => o.follow (fun _ => true) s io

/-- Who frees a message that was taken from `tx` to be written: `handle_event_write` in any case,
on a switched connection; otherwise `wait_event`, after a `write` that did not fail. -/
def State.freesWritten (s : State) (sys : WaitSys) (m : Message) : Bool :=
  match s.stop sys with
  | none => true
  | some (index, _) =>
    match s.ctx.connections[index]? with
    | none => true
    | some c => c.t = .switched || (Context.write m sys.write).1.isOk

/-- The buffer takes something of the payload. Otherwise `ipc_wait_event` returns before it frees
the message. -/
def copied (m : Message) (buflen : Nat) : Bool := m.payload = [] || buflen ≠ 0

/-- `ipc_wait_event`. -/
def Owned.ipcWaitEvent (o : Owned) (sys : WaitSys) (buflen : Nat) :
    Option (Owned × List MemEvent) :=
  match o.state.waitEvent sys with
  | none => none
  | some (r, s, io) =>
    let (o', mem) := o.follow (o.state.freesWritten sys) s io
    match r with
    | .error _ => some (o', mem)
    | .ok event =>
      match event.m with
      | none => some (o', mem)
      | some m =>
        if event.t = .switchRx then
          -- The message of the event is the one that has just been scheduled.
          some (o', mem ++ if copied m buflen then [.release o.blocks.next] else [])
        else
          let blocks := { o'.blocks with next := o'.blocks.next + 1 }
          some ({ o' with blocks := blocks },
            mem ++ .alloc o'.blocks.next ::
              if copied m buflen then [.release o'.blocks.next] else [])

/-- `ipc_context_deinit`: all connections are closed, then what is left in `tx` is freed. -/
def Owned.ipcContextDeinit (o : Owned) : Option (Owned × List MemEvent) :=
  (o.state.closeAll o.state.ctx.connections.length).map fun (_, s, io) =>
    let (o', mem) := o.follow (fun _ => true) s io
    ({ state := s.withTx [], blocks := { o'.blocks with held := [] }, alive := false },
      mem ++ o'.blocks.held.map .release)

/-- One exported function on a context that is still there. -/
def ownedStep (o : Owned) (x : Export) : Option (Owned × List MemEvent) :=
  if o.alive then
    match x with
    | .openFd fd => o.perform (.openFd fd)
    | .ipcServiceInit path listen => o.perform (.serverInit path listen)
    | .ipcConnectService connect => o.perform (.connectService connect)
    | .ipcAddExternal fd => o.perform (.addExternal fd)
    | .ipcAddSwitch fd1 fd2 => o.perform (.addSwitch fd1 fd2)
    | .ipcSchedule servicefd mcontent =>
      o.perform (.schedule { fd := servicefd, payload := mcontent })
    | .ipcWaitEvent sys buflen => o.ipcWaitEvent sys buflen
    | .ipcClose index => o.perform (.close index)
    | .ipcCloseFd fd => o.perform (.closeFd fd)
    | .ipcCloseAll =>
      (o.state.closeAll o.state.ctx.connections.length).map fun (_, s, io) =>
        o.follow (fun _ => true) s io
    | .ipcContextDeinit => o.ipcContextDeinit
  else none

/-! ## Single ownership -/

/-- In what has been done so far, no payload was released twice, and none that a message of `tx`
carries. -/
def SingleOwner (o : Owned) (mem : List MemEvent) : Prop :=
  (released mem).Nodup ∧ ∀ id ∈ released mem, id ∉ o.blocks.held

/-- `wait_event` forwards the message `m` of a switch. -/
def Forwards (s : State) (sys : WaitSys) (m : Message) : Prop :=
  ∃ index p c, StopsAt s sys index p c ∧ p.revents.pollin ∧ c.t = .switched ∧
    s.ctx.switchdb.read p.fd sys.cbIn = .ok (some m)

/-- The message of a switch is not handed to a caller whose buffer takes something of it. -/
def KeepsForwarded (o : Owned) : Export → Prop
  | .ipcWaitEvent sys buflen => ∀ m, Forwards o.state sys m → ¬ copied m buflen
  | _ => True

/-- There is one block for each message of `tx`. -/
structure Owned.Inv (o : Owned) : Prop where
  parallel : o.state.ctx.Parallel
  valid : o.blocks.Valid
  length : o.blocks.held.length = o.state.ctx.tx.length

theorem closeAll_effect {n : Nat} {s s' : State} (hpar : s.ctx.Parallel) {r : Except Error Unit}
    {io : List Io} (h : s.closeAll n = some (r, s', io)) : Effect s io s' := by
  induction n generalizing s io with
  | zero =>
    cases h
    exact effect_of_tx_eq hpar rfl rfl
  | succ n ih =>
    rw [State.closeAll] at h
    split at h
    · cases h
    · rename_i hclose
      cases h
      exact close_effect hpar hclose
    · rename_i hclose
      obtain ⟨⟨r₁, s₁, io₁⟩, hrest, h⟩ := Option.map_eq_some_iff.mp h
      cases h
      have hfirst := close_effect hpar hclose
      exact hfirst.trans (ih hfirst.parallel hrest)

/-- The blocks follow the queue. -/
theorem Owned.Inv.follow {o : Owned} (h : o.Inv) (frees : Message → Bool) {s : State}
    {io : List Io} (heffect : Effect o.state io s) :
    (o.follow frees s io).1.Inv ∧
      Ledger o.blocks (o.follow frees s io).2 (o.follow frees s io).1.blocks := by
  obtain ⟨hvalid, hlength, hledger⟩ := followAll_ledger frees h.valid h.length heffect.steps
  exact ⟨⟨heffect.parallel, hvalid, hlength⟩, hledger⟩

theorem Owned.Inv.perform {o o' : Owned} (h : o.Inv) {c : Call} {mem : List MemEvent}
    (hstep : o.perform c = some (o', mem)) : o'.Inv ∧ Ledger o.blocks mem o'.blocks := by
  obtain ⟨⟨s, io⟩, hcall, heq⟩ := Option.map_eq_some_iff.mp hstep
  obtain ⟨rfl, rfl⟩ := Prod.mk.inj heq
  exact h.follow _ (step_effect h.parallel hcall)

/-! ## The message of an event -/

section Message
variable {s s' : State} {index : Nat} {p : PollFd} {c : Connection} {sys : WaitSys}
  {event : Event} {io : List Io} {m : Message}

theorem handleEventRead_message {db : SwitchDB} {fd : Fd} {cb : In}
    (hm : (db.handleEventRead index fd cb).m = some m) :
    (db.handleEventRead index fd cb).t = .switchRx ∧ db.read fd cb = .ok (some m) := by
  unfold SwitchDB.handleEventRead at hm ⊢
  split at hm
  · cases hm
  · cases hm
  · rename_i m' hread
    obtain rfl : m' = some m := hm
    rw [hread]
    exact ⟨rfl, rfl⟩

/-- A message that comes with the event of a switch was scheduled. -/
theorem readSwitched_message {cb : In}
    (h : s.readSwitched index p.fd cb = some (.ok event, s', io)) (hm : event.m = some m) :
    event.t = .switchRx ∧ io = [.queue (.queued m)] ∧
      s.ctx.switchdb.read p.fd cb = .ok (some m) := by
  unfold State.readSwitched at h
  simp only at h
  split at h
  · obtain ⟨m', hm', h⟩ := Option.bind_eq_some_iff.mp h
    cases h
    obtain rfl : m' = m := Option.some.inj (hm'.symm.trans hm)
    obtain ⟨ht, hread⟩ := handleEventRead_message hm
    exact ⟨ht, rfl, hread⟩
  · rename_i hother
    obtain ⟨⟨s₁, io₁⟩, -, h⟩ := Option.map_eq_some_iff.mp h
    cases h
    have ht := (handleEventRead_message hm).1
    rw [hother] at ht
    cases ht
  · rename_i hother
    obtain ⟨⟨s₁, io₁⟩, -, h⟩ := Option.map_eq_some_iff.mp h
    cases h
    have ht := (handleEventRead_message hm).1
    rw [hother] at ht
    cases ht
  · cases h

theorem handleEventWrite_message {db : SwitchDB} {cb : Out} :
    (db.handleEventWrite index m cb).1.m = none := by
  unfold SwitchDB.handleEventWrite
  split <;> rfl

/-- No message comes with the event of a message that was written. -/
theorem writeMessage_message (h : s.writeMessage index p c sys = some (.ok event, s', io)) :
    event.m = none := by
  simp only [State.writeMessage, Option.bind_eq_bind, Option.pure_def] at h
  obtain ⟨i, -, h⟩ := Option.bind_eq_some_iff.mp h
  obtain ⟨m', -, h⟩ := Option.bind_eq_some_iff.mp h
  split at h
  · split at h
    · cases h
      exact handleEventWrite_message
    · obtain ⟨⟨s₁, io₁⟩, -, h⟩ := Option.bind_eq_some_iff.mp h
      cases h
      exact handleEventWrite_message
    · cases h
  · split at h
    · cases h
    · cases h
      rfl

theorem disconnect_message {origin : State → Fd}
    (h : s.disconnect index origin = some (.ok event, s', io)) : event.m = none := by
  unfold State.disconnect at h
  obtain ⟨⟨r, s₁, io₁⟩, -, h⟩ := Option.bind_eq_some_iff.mp h
  cases r with
  | error e => cases h
  | ok u =>
    cases h
    rfl

/-- A message comes with a `MESSAGE_RX` event, and is the caller's alone, or with the `SWITCH_RX`
event of a switch, and has been scheduled. -/
theorem dispatch_message (h : s.dispatch index p c sys = some (.ok event, s', io))
    (hm : event.m = some m) :
    (event.t ≠ .switchRx ∧ io = []) ∨
      (event.t = .switchRx ∧ io = [.queue (.queued m)] ∧ p.revents.pollin ∧ c.t = .switched ∧
        s.ctx.switchdb.read p.fd sys.cbIn = .ok (some m)) := by
  have hnone : event.m ≠ none := by simp [hm]
  unfold State.dispatch at h
  split at h
  · rename_i hin
    split at h
    · unfold State.acceptNewClient at h
      split at h
      · cases h
      · split at h
        · cases h
        · obtain ⟨s₁, -, h⟩ := Option.bind_eq_some_iff.mp h
          cases h
          cases hm
    · rename_i hswitched
      obtain ⟨ht, hio, hread⟩ := readSwitched_message h hm
      exact .inr ⟨ht, hio, hin, hswitched, hread⟩
    · cases h
      cases hm
    · unfold State.readMessage at h
      split at h
      · exact absurd (disconnect_message h) hnone
      · cases h
      · exact absurd (disconnect_message h) hnone
      · cases h
        exact .inl ⟨nofun, rfl⟩
  · split at h
    · exact absurd (writeMessage_message h) hnone
    · split at h
      · exact absurd (disconnect_message h) hnone
      · cases h
        cases hm

theorem waitEvent_message (h : s.waitEvent sys = some (.ok event, s', io))
    (hm : event.m = some m) :
    (event.t ≠ .switchRx ∧ io = []) ∨
      (event.t = .switchRx ∧ io = [.queue (.queued m)] ∧ Forwards s sys m) := by
  rcases waitEvent_ok h with ⟨-, hnone⟩ | ⟨revents, index, p, c, hpoll, hindex, hp, hc, hd⟩
  · rw [hm] at hnone
    cases hnone
  · rcases dispatch_message hd hm with hother | ⟨ht, hio, hin, hswitched, hread⟩
    · exact .inl hother
    · exact .inr ⟨ht, hio, index, p, c, ⟨revents, hpoll, hindex, hp, hc⟩, hin, hswitched, hread⟩

/-- A message that is forwarded comes with the event. -/
theorem waitEvent_forwards (h : Forwards s sys m) :
    ∃ event s', s.waitEvent sys = some (.ok event, s', [.queue (.queued m)]) ∧
      event.t = .switchRx ∧ event.m = some m := by
  obtain ⟨index, p, c, ⟨revents, hpoll, hindex, hp, hc⟩, hin, hswitched, hread⟩ := h
  refine ⟨{ t := .switchRx, index := index, origin := p.fd, m := some m },
    (s.polled revents).schedule m, ?_, rfl, rfl⟩
  have hread' : SwitchDB.read (s.polled revents).ctx.switchdb p.fd sys.cbIn = .ok (some m) := hread
  rw [waitEvent_eq_dispatch hpoll hindex hp hc, State.dispatch, if_pos hin, hswitched]
  simp only [State.readSwitched, SwitchDB.handleEventRead, hread', Option.bind_eq_bind,
    Option.bind_some, Option.pure_def]

end Message

/-! ## Runs -/

/-- `ipc_wait_event` keeps the books unless it frees a message that it has forwarded. -/
theorem Owned.Inv.ipcWaitEvent {o o' : Owned} (h : o.Inv) {sys : WaitSys} {buflen : Nat}
    {mem : List MemEvent} (hkeeps : KeepsForwarded o (.ipcWaitEvent sys buflen))
    (hstep : o.ipcWaitEvent sys buflen = some (o', mem)) :
    o'.Inv ∧ Ledger o.blocks mem o'.blocks := by
  unfold Owned.ipcWaitEvent at hstep
  split at hstep
  · cases hstep
  · rename_i r s io hwait
    have hfollow := h.follow (o.state.freesWritten sys) (waitEvent_effect h.parallel hwait)
    simp only at hstep
    split at hstep
    · cases hstep
      exact hfollow
    · rename_i event
      split at hstep
      · cases hstep
        exact hfollow
      · rename_i m hm
        rcases waitEvent_message hwait hm with ⟨ht, rfl⟩ | ⟨ht, rfl, hforwards⟩
        · -- The message is the caller's alone.
          rw [if_neg ht] at hstep
          cases hstep
          obtain ⟨hinv, hledger⟩ := hfollow
          refine ⟨⟨hinv.parallel, hinv.valid.later, hinv.length⟩, hledger.trans ?_⟩
          split
          · exact ledger_transient hinv.valid
          · exact ledger_leak _
        · rw [if_pos ht, if_neg (hkeeps m hforwards), List.append_nil] at hstep
          cases hstep
          exact hfollow

theorem ownedStep_ledger {o o' : Owned} (h : o.Inv) {x : Export} {mem : List MemEvent}
    (hkeeps : KeepsForwarded o x) (hstep : ownedStep o x = some (o', mem)) :
    o'.Inv ∧ Ledger o.blocks mem o'.blocks := by
  unfold ownedStep at hstep
  split at hstep
  · cases x with
    | ipcWaitEvent sys buflen => exact h.ipcWaitEvent hkeeps hstep
    | ipcCloseAll =>
      obtain ⟨⟨r, s, io⟩, hclose, heq⟩ := Option.map_eq_some_iff.mp hstep
      obtain ⟨rfl, rfl⟩ := Prod.mk.inj heq
      exact h.follow _ (closeAll_effect h.parallel hclose)
    | ipcContextDeinit =>
      obtain ⟨⟨r, s, io⟩, hclose, heq⟩ := Option.map_eq_some_iff.mp hstep
      obtain ⟨rfl, rfl⟩ := Prod.mk.inj heq
      obtain ⟨hinv, hledger⟩ := h.follow (fun _ => true) (closeAll_effect h.parallel hclose)
      refine ⟨⟨hinv.parallel, ⟨List.nodup_nil, ?_⟩, rfl⟩,
        hledger.trans (ledger_releaseAll hinv.valid)⟩
      intro id hid
      cases hid
    | _ => exact h.perform hstep
  · cases hstep

theorem owned_init : Owned.Inv {} where
  parallel := rfl
  valid := ⟨List.nodup_nil, by simp⟩
  length := rfl

theorem singleOwner_of_keeps {xs : List Export} {o : Owned} {mem : List MemEvent}
    (hkeeps : RunMeets ownedStep KeepsForwarded {} xs)
    (hrun : runAll ownedStep {} xs = some (o, mem)) : o.Inv ∧ SingleOwner o mem := by
  have hind := runAll_induction (P := Owned.Inv)
    (Q := fun o mem o' => Ledger o.blocks mem o'.blocks) (fun o _ => .refl _) ?_ owned_init hkeeps
    hrun
  · exact ⟨hind.1, hind.2.once, hind.2.gone⟩
  · intro o x o₁ mem₁ hinv hG hstep
    obtain ⟨hinv₁, hledger⟩ := ownedStep_ledger hinv hG hstep
    exact ⟨hinv₁, fun mem₂ o₂ h₂ => hledger.trans h₂⟩

/-- Freeing a message that was forwarded releases a payload that is still in `tx`. -/
theorem released_forwarded {o o' : Owned} {sys : WaitSys} {buflen : Nat} {m : Message}
    {mem : List MemEvent} (hforwards : Forwards o.state sys m) (hcopied : copied m buflen)
    (hstep : ownedStep o (.ipcWaitEvent sys buflen) = some (o', mem)) :
    o.blocks.next ∈ released mem ∧ o.blocks.next ∈ o'.blocks.held := by
  obtain ⟨event, s, hwait, ht, hm⟩ := waitEvent_forwards hforwards
  unfold ownedStep at hstep
  split at hstep
  · simp only [Owned.ipcWaitEvent, hwait, hm, if_pos ht, if_pos hcopied, Option.some.injEq,
      Prod.mk.injEq] at hstep
    obtain ⟨rfl, rfl⟩ := hstep
    constructor
    · rw [released_append]
      exact List.mem_append_right _ (List.mem_singleton_self _)
    · exact List.mem_append_right _ (List.mem_singleton_self _)
  · cases hstep

/-- **Single ownership**: in every state of a run each payload was released at most once, and none
that is still in `tx`, exactly when no call of the run hands out the message of a switch. -/
theorem singleOwner_iff {xs : List Export} {o : Owned} {mem : List MemEvent}
    (hrun : runAll ownedStep {} xs = some (o, mem)) :
    (∀ xs₁ xs₂ o₁ mem₁, xs = xs₁ ++ xs₂ → runAll ownedStep {} xs₁ = some (o₁, mem₁) →
        SingleOwner o₁ mem₁) ↔
      RunMeets ownedStep KeepsForwarded {} xs := by
  constructor
  · intro howner
    apply runMeets_of_forall
    intro xs₁ x xs₂ r hxs hrun₁
    cases x with
    | ipcWaitEvent sys buflen =>
      intro m hforwards hcopied
      -- The state after this call is one of the run.
      rw [hxs, runAll_append, hrun₁, Option.bind_some] at hrun
      obtain ⟨r', hrun', -⟩ := Option.map_eq_some_iff.mp hrun
      obtain ⟨o₁, mem₁, mem₂, hstep, -, -⟩ := runAll_cons_eq_some hrun'
      have hbad := released_forwarded hforwards hcopied hstep
      have hrun₂ : runAll ownedStep {} (xs₁ ++ [.ipcWaitEvent sys buflen]) =
          some (o₁, r.2 ++ mem₁) := by
        simp [runAll_append, hrun₁, runAll, hstep]
      have hgone := (howner _ xs₂ o₁ _ (by simp [hxs]) hrun₂).2
      apply hgone _ _ hbad.2
      rw [released_append]
      exact List.mem_append_right _ hbad.1
    | _ => trivial
  · intro hkeeps xs₁ xs₂ o₁ mem₁ hxs hrun₁
    rw [hxs] at hkeeps
    exact (singleOwner_of_keeps hkeeps.left hrun₁).2

/-- A message is scheduled for a service and written to it, then the context is given up. -/
def scheduledAndWritten : List Export :=
  [.ipcConnectService (.ok 5), .ipcSchedule 5 [104, 105],
    .ipcWaitEvent { poll := some [{ pollout := true }], write := .wrote 6 } 100,
    .ipcSchedule 5 [104, 111], .ipcContextDeinit]

theorem singleOwner_scheduled_and_written :
    ∃ o mem, runAll ownedStep {} scheduledAndWritten = some (o, mem) ∧ released mem = [0, 1] ∧
      SingleOwner o mem := by
  have hrun : ∃ r, runAll ownedStep {} scheduledAndWritten = some r ∧ released r.2 = [0, 1] := by
    simp only [← Option.mem_def]
    decide +kernel
  obtain ⟨⟨o, mem⟩, hrun, hreleased⟩ := hrun
  have hkeeps : RunMeets ownedStep KeepsForwarded {} scheduledAndWritten := by
    refine ⟨trivial, ?_⟩
    rintro _ ⟨⟩
    refine ⟨trivial, ?_⟩
    rintro _ ⟨⟩
    refine ⟨?_, ?_⟩
    · rintro m ⟨index, p, c, ⟨revents, ⟨⟩, ⟨⟩, ⟨⟩, ⟨⟩⟩, hin, -⟩
      cases hin
    rintro _ ⟨⟩
    refine ⟨trivial, ?_⟩
    rintro _ ⟨⟩
    exact ⟨trivial, fun _ _ => trivial⟩
  exact ⟨o, mem, hrun, hreleased, (singleOwner_iff hrun).mpr hkeeps _ [] o mem (by simp) hrun⟩

/-- Two services joined by a switch; a message arrives from the first and goes to the second. -/
def forwardedMessage : List Export :=
  [.ipcConnectService (.ok 5), .ipcConnectService (.ok 6), .ipcAddSwitch 5 6,
    .ipcWaitEvent { poll := some [{ pollin := true }, {}], cbIn := .default (.ok (frame [111, 107])) }
      100,
    .ipcWaitEvent { poll := some [{}, { pollout := true }], cbOut := .default (.wrote 6) } 100]

/-- The payload of the message is released by the caller's `ipc_wait_event` while it waits in `tx`,
and again when it is written. -/
theorem not_singleOwner_forwarded_message :
    (∃ o mem, runAll ownedStep {} (forwardedMessage.take 4) = some (o, mem) ∧
      0 ∈ released mem ∧ 0 ∈ o.blocks.held ∧ ¬ SingleOwner o mem) ∧
    ∃ o mem, runAll ownedStep {} forwardedMessage = some (o, mem) ∧ released mem = [0, 0] ∧
      ¬ SingleOwner o mem := by
  constructor
  · have hrun : ∃ r, runAll ownedStep {} (forwardedMessage.take 4) = some r ∧
        0 ∈ released r.2 ∧ 0 ∈ r.1.blocks.held := by
      simp only [← Option.mem_def]
      decide +kernel
    obtain ⟨⟨o, mem⟩, hrun, hreleased, hheld⟩ := hrun
    exact ⟨o, mem, hrun, hreleased, hheld, fun h => h.2 0 hreleased hheld⟩
  · have hrun : ∃ r, runAll ownedStep {} forwardedMessage = some r ∧ released r.2 = [0, 0] := by
      simp only [← Option.mem_def]
      decide +kernel
    obtain ⟨⟨o, mem⟩, hrun, hreleased⟩ := hrun
    refine ⟨o, mem, hrun, hreleased, ?_⟩
    intro h
    have hnodup := h.1
    simp only at hreleased
    rw [hreleased] at hnodup
    revert hnodup
    decide

end LibIpc.Zig

import LibIpc.Zig.Handover
import LibIpc.Zig.Service

/-!
# Programs that answer messages

A program around `wait_event` that does something with each message it receives, may send a reply
to where the message came from, and does nothing else with its context. `Program.round` is one turn
of its loop. Whatever the program, `replies_accounted` says where its replies go: each is handed over
to be written to its client, lost with the connection, or still waits, once; and what is written to
a client are beginnings of the frames of those handed over, in that order.
-/

namespace LibIpc.Zig

open Lib

/-- What a program keeps is a `δ`, what its own environment answers an `ε`, and what can be seen of
its handling a message an `ο`. A function gives `none` where the program panics. -/
structure Program (δ ε ο : Type) where
  /-- What is done with the payload of a message, and the reply to it. -/
  onMessage : δ → ε → List Byte → Option (δ × ο × Option (List Byte))
  /-- What is done with any other event; the loop may end there. -/
  onEvent : δ → EventType → Option (δ × Bool)

/-- A program that runs. -/
structure Process (δ : Type) where
  state : State
  data : δ
  running : Bool := true

/-- What can be seen of a program: what the library does, and how it handles the messages. -/
inductive ProgramIo (ο : Type) where
  | io (x : Io)
  | handled (fd : Fd) (payload : List Byte) (x : ο) (reply : Option (List Byte))

variable {δ ε ο : Type}

/-- A reply is scheduled, if there is one. -/
def State.reply (s : State) (fd : Fd) : Option (List Byte) → State × List Io
  | none => (s, [])
  | some payload =>
    (s.schedule { fd := fd, payload := payload }, [.queue (.queued { fd := fd, payload := payload })])

/-- One turn of the loop: `wait_event`, then what is done with the event. A Zig error ends it. -/
def Program.round (prog : Program δ ε ο) (s : Process δ) (c : WaitSys × ε) :
    Option (Process δ × List (ProgramIo ο)) :=
  if s.running then do
    let (r, state, io) ← s.state.waitEvent c.1
    match r with
    | .error _ => return ({ s with state := state, running := false }, io.map .io)
    | .ok event =>
      match event.t, event.m with
      | .messageRx, some m =>
        let (data, x, reply) ← prog.onMessage s.data c.2 m.payload
        let (state, io') := state.reply event.origin reply
        return ({ s with state := state, data := data },
          io.map .io ++ .handled event.origin m.payload x reply :: io'.map .io)
      | t, _ =>
        let (data, goesOn) ← prog.onEvent s.data t
        return ({ state := state, data := data, running := goesOn }, io.map .io)
  else none

/-- A service once `server_init` has opened its socket. -/
def Process.start (path : List Byte) (fd : Fd) (timer : Option Int) (data : δ) : Process δ where
  state := State.track { ctx := { timer := timer } } { t := .server, path := some path } fd
  data := data

/-! ## Logs -/

/-- What the library does. -/
def libraryIo (log : List (ProgramIo ο)) : List Io :=
  log.filterMap fun
    | .io x => some x
    | .handled .. => none

/-- The reply that is scheduled. -/
def ProgramIo.reply? : ProgramIo ο → Option Message
  | .handled fd _ _ (some payload) => some { fd := fd, payload := payload }
  | _ => none

/-- The replies, in order. -/
def replies (log : List (ProgramIo ο)) : List Message := log.filterMap ProgramIo.reply?

/-- The message that is handled. -/
def ProgramIo.message? : ProgramIo ο → Option Message
  | .handled fd payload _ _ => some { fd := fd, payload := payload }
  | .io _ => none

/-- The messages received, in order. -/
def handledMessages (log : List (ProgramIo ο)) : List Message := log.filterMap ProgramIo.message?

@[simp] theorem libraryIo_append (a b : List (ProgramIo ο)) :
    libraryIo (a ++ b) = libraryIo a ++ libraryIo b := by
  simp [libraryIo]

@[simp] theorem libraryIo_map_io (io : List Io) :
    libraryIo (io.map .io : List (ProgramIo ο)) = io := by
  simp [libraryIo, List.filterMap_map]

@[simp] theorem replies_append (a b : List (ProgramIo ο)) :
    replies (a ++ b) = replies a ++ replies b := by
  simp [replies]

@[simp] theorem replies_map_io (io : List Io) :
    replies (io.map .io : List (ProgramIo ο)) = [] := by
  simp [replies, List.filterMap_map, ProgramIo.reply?]

/-! ## What a turn does -/

/-- What a turn of a service can be: an error ends it; a message is handled; something else
happens, which may end it too. -/
inductive Program.Round (prog : Program δ ε ο) (s : Process δ) (c : WaitSys × ε) :
    Process δ → List (ProgramIo ο) → Prop
  | ends {e : Error} {state : State} {io : List Io} :
      s.state.waitEvent c.1 = some (.error e, state, io) →
      Round prog s c { s with state := state, running := false } (io.map .io)
  | handles {revents : List PollEvents} {fd : Fd} {m : Message} {data : δ} {x : ο}
      {reply : Option (List Byte)} : c.1.poll = some revents → Receives s.state c.1 fd m →
      prog.onMessage s.data c.2 m.payload = some (data, x, reply) →
      Round prog s c
        { s with state := ((s.state.polled revents).reply fd reply).1, data := data }
        (.handled fd m.payload x reply :: ((s.state.polled revents).reply fd reply).2.map .io)
  | goesOn {event : Event} {state : State} {io : List Io} {data : δ} {goesOn : Bool} :
      s.state.waitEvent c.1 = some (.ok event, state, io) → event.m = none →
      event.t ≠ .messageRx →
      prog.onEvent s.data event.t = some (data, goesOn) →
      Round prog s c { state := state, data := data, running := goesOn } (io.map .io)

section
variable {prog : Program δ ε ο} {s s' : Process δ} {c : WaitSys × ε} {cs : List (WaitSys × ε)}
  {log : List (ProgramIo ο)} {fd : Fd}

theorem Program.round_cases (hs : Serves s.state) (h : prog.round s c = some (s', log)) :
    s.running = true ∧ prog.Round s c s' log := by
  unfold Program.round at h
  split at h
  · rename_i hrunning
    simp only [Option.bind_eq_bind, Option.pure_def] at h
    obtain ⟨⟨r, state, io⟩, hwait, h⟩ := Option.bind_eq_some_iff.mp h
    have hwaited := waitEvent_waited hs hwait
    refine ⟨hrunning, ?_⟩
    cases r with
    | error e =>
      cases h
      exact .ends hwait
    | ok event =>
      dsimp only at h
      split at h
      · rename_i m ht hm
        obtain ⟨⟨data, x, reply⟩, hmessage, h⟩ := Option.bind_eq_some_iff.mp h
        cases h
        obtain ⟨revents, m', hpoll, hreceives, hm', rfl, rfl⟩ := hwaited.receives ht
        obtain rfl : m' = m := Option.some.inj (hm'.symm.trans hm)
        exact .handles hpoll hreceives hmessage
      · rename_i hother
        obtain ⟨⟨data, goesOn⟩, hevent, h⟩ := Option.bind_eq_some_iff.mp h
        cases h
        have ht : event.t ≠ .messageRx := by
          intro ht
          obtain ⟨-, m, -, -, hm, -⟩ := hwaited.receives ht
          exact hother m ht hm
        refine .goesOn hwait ?_ ht hevent
        rw [Option.eq_none_iff_forall_ne_some]
        intro m hm
        exact ht (hwaited.message hm).1
  · cases h

/-! ## Every turn keeps the books -/

theorem serves_start (path : List Byte) (fd : Fd) (timer : Option Int) (data : δ) :
    Serves (Process.start path fd timer data).state where
  toTidy := by
    have hempty : Tidy { ctx := { timer := timer } } :=
      ⟨rfl, List.nodup_nil, fun _ hfd => absurd hfd List.not_mem_nil⟩
    exact (hempty.track (Finset.notMem_empty fd) _).tidy
  types := by
    intro c hc
    obtain rfl := List.mem_singleton.mp hc
    exact .inl ⟨rfl, Option.some_ne_none path⟩

theorem Serves.reply {s : State} (h : Serves s) (fd : Fd) (reply : Option (List Byte)) :
    Serves (s.reply fd reply).1 := by
  cases reply with
  | none => exact h
  | some payload => exact h.schedule _

theorem Program.Round.serves (hs : Serves s.state) (h : prog.Round s c s' log) :
    Serves s'.state := by
  cases h with
  | ends hwait => exact (waitEvent_waited hs hwait).serves hs
  | handles _ _ _ => exact (hs.polled _).reply _ _
  | goesOn hwait _ _ _ => exact (waitEvent_waited hs hwait).serves hs

theorem Program.serves_of_round (prog : Program δ ε ο) (s : Process δ) (c : WaitSys × ε)
    (s' : Process δ) (log : List (ProgramIo ο)) (hs : Serves s.state)
    (h : prog.round s c = some (s', log)) : Serves s'.state :=
  (round_cases hs h).2.serves hs

/-- The books of a part of a run: the queue changes by what is scheduled, handed over and lost; what
is scheduled are the replies; and the messages handed over are written. -/
structure Books (s : State) (log : List (ProgramIo ο)) (s' : State) : Prop where
  steps : QueueSteps Message.fd s.ctx.tx (queueEvents (libraryIo log)) s'.ctx.tx
  joining : (queueEvents (libraryIo log)).flatMap QueueEvent.joining = replies log
  written : ∀ fd, List.Forall₂ (fun m bs => bs <+: encoded m.payload)
    (handedIn Message.fd fd (queueEvents (libraryIo log))) (writesOn fd (libraryIo log))

theorem Books.append {s s' s'' : State} {log' : List (ProgramIo ο)} (h : Books s log s')
    (h' : Books s' log' s'') : Books s (log ++ log') s'' where
  steps := by
    rw [libraryIo_append, queueEvents_append]
    exact h.steps.append h'.steps
  joining := by
    rw [libraryIo_append, queueEvents_append, List.flatMap_append, h.joining, h'.joining,
      replies_append]
  written := by
    intro fd
    rw [libraryIo_append, queueEvents_append, writesOn_append, handedIn_append]
    exact List.rel_append (h.written fd) (h'.written fd)

theorem lane_singleton (fd : Fd) (m : Message) :
    lane Message.fd fd [m] = if m.fd = fd then [m] else [] := by
  by_cases hfd : m.fd = fd
  · rw [lane_cons_pos hfd, if_pos hfd, lane_nil]
  · rw [lane_cons_neg hfd, if_neg hfd, lane_nil]

theorem handedIn_written {tx : List Message} {i : Nat} {m : Message} {fd' : Fd} {bs : List Byte}
    (hm : tx[i]? = some m) (hfd : m.fd = fd') (fd : Fd) :
    handedIn Message.fd fd (queueEvents [.queue (.handed tx i), .write fd' bs]) =
      if fd' = fd then [m] else [] := by
  rw [← hfd, ← lane_singleton fd m]
  simp [handedIn, queueEvents, QueueEvent.leaving, hm]

theorem writesOn_written {tx : List Message} {i : Nat} {fd' : Fd} {bs : List Byte} (fd : Fd) :
    writesOn fd [.queue (.handed tx i), .write fd' bs] = if fd' = fd then [bs] else [] := by
  by_cases h : fd' = fd
  · simp [writesOn, h]
  · simp [writesOn, h]

/-- The message that leaves the queue is written to its descriptor. -/
theorem forall₂_written {tx : List Message} {i : Nat} {m : Message} {fd' : Fd} {bs : List Byte}
    (hm : tx[i]? = some m) (hfd : m.fd = fd') (hbs : bs <+: encoded m.payload) (fd : Fd) :
    List.Forall₂ (fun m bs => bs <+: encoded m.payload)
      (handedIn Message.fd fd (queueEvents [.queue (.handed tx i), .write fd' bs]))
      (writesOn fd [.queue (.handed tx i), .write fd' bs]) := by
  rw [handedIn_written hm hfd, writesOn_written]
  by_cases h : fd' = fd
  · rw [if_pos h, if_pos h]
    exact .cons hbs .nil
  · rw [if_neg h, if_neg h]
    exact .nil

/-- When a client departs nothing is written. -/
theorem forall₂_departed {s s' : State} {index : Nat} {fd' : Fd} {io : List Io}
    (h : Departed s index fd' s' io) (fd : Fd) :
    List.Forall₂ (fun m bs => bs <+: encoded m.payload)
      (handedIn Message.fd fd (queueEvents io)) (writesOn fd io) := by
  have hhanded : (queueEvents io).flatMap QueueEvent.leaving = [] := by
    rw [List.flatMap_eq_nil_iff]
    intro e he
    obtain ⟨q, j, m, rfl, -⟩ := h.queueEvents e he
    rfl
  rw [handedIn, hhanded, writesOn_eq_nil h.silent]
  exact .nil

theorem Waited.written {s s' : State} {sys : WaitSys} {r : Except Error Event} {io : List Io}
    (h : Waited s sys r s' io) (fd : Fd) :
    List.Forall₂ (fun m bs => bs <+: encoded m.payload)
      (handedIn Message.fd fd (queueEvents io)) (writesOn fd io) := by
  cases h with
  | failed _ => exact .nil
  | idle _ _ _ _ => exact .nil
  | served _ _ hserved =>
    cases hserved with
    | accepted _ _ _ _ _ _ => exact .nil
    | notAccepted _ _ _ => exact .nil
    | received _ _ _ => exact .nil
    | unreadable _ _ _ _ => exact .nil
    | left _ _ _ hdeparted _ _ => exact forall₂_departed hdeparted fd
    | written _ _ _ _ hm hfd _ _ _ => exact forall₂_written hm hfd (List.take_prefix _ _) fd
    | notWritten _ _ _ _ hm hfd _ => exact forall₂_written hm hfd List.nil_prefix fd
    | hungUp _ _ _ hdeparted _ _ => exact forall₂_departed hdeparted fd
    | invalid _ _ _ _ _ => exact .nil

theorem Waited.steps {s s' : State} {sys : WaitSys} {r : Except Error Event} {io : List Io}
    (h : Waited s sys r s' io) : QueueSteps Message.fd s.ctx.tx (queueEvents io) s'.ctx.tx := by
  cases h with
  | failed _ => exact .nil _
  | idle _ _ _ _ => exact .nil _
  | served _ _ hserved =>
    cases hserved with
    | accepted _ _ _ _ _ _ => exact .nil _
    | notAccepted _ _ _ => exact .nil _
    | received _ _ _ => exact .nil _
    | unreadable _ _ _ _ => exact .nil _
    | left _ _ _ hdeparted _ _ => exact hdeparted.isClosed.steps
    | written _ _ _ hfirst _ _ _ _ _ => exact .single (.handed hfirst)
    | notWritten _ _ _ hfirst _ _ _ => exact .single (.handed hfirst)
    | hungUp _ _ _ hdeparted _ _ => exact hdeparted.isClosed.steps
    | invalid _ _ _ _ _ => exact .nil _

theorem Waited.books {s s' : State} {sys : WaitSys} {r : Except Error Event} {io : List Io}
    (h : Waited s sys r s' io) : Books s (io.map .io : List (ProgramIo ο)) s' where
  steps := by
    rw [libraryIo_map_io]
    exact h.steps
  joining := by
    rw [libraryIo_map_io, replies_map_io]
    exact h.joining
  written := by
    rw [libraryIo_map_io]
    exact h.written

theorem Program.Round.books (hs : Serves s.state) (h : prog.Round s c s' log) :
    Books s.state log s'.state := by
  cases h with
  | ends hwait => exact (waitEvent_waited hs hwait).books
  | goesOn hwait _ _ _ => exact (waitEvent_waited hs hwait).books
  | @handles revents fd m data x reply _ _ _ =>
    cases reply with
    | none => exact ⟨.nil _, rfl, fun _ => .nil⟩
    | some payload => exact ⟨.single (.queued _), rfl, fun _ => .nil⟩

/-- Every run keeps them. -/
theorem books_of_run (hs : Serves s.state) (hrun : runAll prog.round s cs = some (s', log)) :
    Serves s'.state ∧ Books s.state log s'.state := by
  refine runAll_induction (G := fun _ _ => True) (P := fun s : Process δ => Serves s.state)
    (Q := fun s log s' => Books s.state log s'.state) ?_ ?_ hs (runMeets_true s cs) hrun
  · intro s _
    exact ⟨.nil _, rfl, fun _ => .nil⟩
  · intro s c s₁ log₁ hs _ hround
    have hcases := (Program.round_cases hs hround).2
    exact ⟨hcases.serves hs, fun log₂ s₂ hrest => (hcases.books hs).append hrest⟩

theorem Books.perm {s s' : State} (h : Books s log s') (fd : Fd) :
    (s.waiting fd ++ lane Message.fd fd (replies log)).Perm
      (handedIn Message.fd fd (queueEvents (libraryIo log)) ++
        lostIn Message.fd fd (queueEvents (libraryIo log)) ++ s'.waiting fd) := by
  have hperm := h.steps.perm.filter fun m => m.fd = fd
  simp only [List.filter_append] at hperm
  rw [h.joining] at hperm
  exact hperm

/-- The replies to the messages that came from `fd`, and what waited for it before, are those handed
over to be written to it, those lost with a connection on it, and those that still wait, each once;
and what has been written to it are beginnings of the frames of those handed over, in that order. -/
theorem replies_accounted (hs : Serves s.state) (hrun : runAll prog.round s cs = some (s', log))
    (fd : Fd) :
    (s.state.waiting fd ++ lane Message.fd fd (replies log)).Perm
        (handedIn Message.fd fd (queueEvents (libraryIo log)) ++
          lostIn Message.fd fd (queueEvents (libraryIo log)) ++ s'.state.waiting fd) ∧
      List.Forall₂ (fun m bs => bs <+: encoded m.payload)
        (handedIn Message.fd fd (queueEvents (libraryIo log))) (writesOn fd (libraryIo log)) := by
  obtain ⟨-, hbooks⟩ := books_of_run hs hrun
  exact ⟨hbooks.perm fd, hbooks.written fd⟩

/-! ## One request at a time -/

/-- A message comes over `fd` only when no reply waits for it any more. -/
def OneAtATime (fd : Fd) (s : Process δ) (c : WaitSys × ε) : Prop :=
  ∀ m, Receives s.state c.1 fd m → s.state.waiting fd = []

/-- Where there is one entry at most, there is one order. -/
theorem eq_of_perm_of_length_le_one {α : Type} {l l' : List α} (h : l.Perm l') (hle : l.length ≤ 1) :
    l = l' := by
  cases l with
  | nil => exact (List.nil_perm.mp h).symm
  | cons a l =>
    obtain rfl : l = [] := List.eq_nil_of_length_eq_zero (Nat.le_zero.mp (Nat.le_of_succ_le_succ hle))
    exact List.singleton_perm.mp h

/-- Then a turn keeps the order, and leaves one reply waiting at most. -/
theorem Program.Round.inOrder (hs : Serves s.state) (h : prog.Round s c s' log)
    (hone : OneAtATime fd s c) (hle : (s.state.waiting fd).length ≤ 1) :
    s.state.waiting fd ++ lane Message.fd fd (replies log) =
        handedIn Message.fd fd (queueEvents (libraryIo log)) ++
          lostIn Message.fd fd (queueEvents (libraryIo log)) ++ s'.state.waiting fd ∧
      (s'.state.waiting fd).length ≤ 1 := by
  have hfew : (s.state.waiting fd ++ lane Message.fd fd (replies log)).length ≤ 1 := by
    cases h with
    | ends _ => simpa using hle
    | goesOn _ _ _ _ => simpa using hle
    | @handles revents fd' m data x reply _ hreceives _ =>
      have hreplies : replies (.handled fd' m.payload x reply ::
          ((s.state.polled revents).reply fd' reply).2.map .io) =
          (reply.map fun payload => { fd := fd', payload := payload }).toList := by
        cases reply with
        | none => rfl
        | some payload => rfl
      rw [hreplies]
      cases reply with
      | none => simpa using hle
      | some payload =>
        show (s.state.waiting fd ++ lane Message.fd fd [{ fd := fd', payload := payload }]).length ≤ 1
        rw [lane_singleton]
        by_cases hfd : fd' = fd
        · subst hfd
          simp [hone m hreceives]
        · simpa [hfd] using hle
  have heq := eq_of_perm_of_length_le_one ((h.books hs).perm fd) hfew
  refine ⟨heq, ?_⟩
  have hlen := congrArg List.length heq
  simp only [List.length_append] at hlen hfew
  omega

/-- Over a connection that is not lost, with one request at a time, the replies are handed over in
the order of the requests. -/
theorem replies_inOrder (hs : Serves s.state) (hle : (s.state.waiting fd).length ≤ 1)
    (hmeets : RunMeets prog.round (OneAtATime fd) s cs)
    (hrun : runAll prog.round s cs = some (s', log))
    (hkept : lostIn Message.fd fd (queueEvents (libraryIo log)) = []) :
    s.state.waiting fd ++ lane Message.fd fd (replies log) =
      handedIn Message.fd fd (queueEvents (libraryIo log)) ++ s'.state.waiting fd := by
  refine (runAll_induction (G := OneAtATime fd)
    (P := fun s : Process δ => Serves s.state ∧ (s.state.waiting fd).length ≤ 1)
    (Q := fun s log s' => lostIn Message.fd fd (queueEvents (libraryIo log)) = [] →
      s.state.waiting fd ++ lane Message.fd fd (replies log) =
        handedIn Message.fd fd (queueEvents (libraryIo log)) ++ s'.state.waiting fd)
    ?_ ?_ ⟨hs, hle⟩ hmeets hrun).2 hkept
  · intro s _ _
    simp [replies, libraryIo, queueEvents, handedIn]
  · rintro s c s₁ log₁ ⟨hs, hle⟩ hone hround
    have hcases := (Program.round_cases hs hround).2
    obtain ⟨heq, hle₁⟩ := hcases.inOrder hs hone hle
    refine ⟨⟨hcases.serves hs, hle₁⟩, fun log₂ s₂ hrest hlost => ?_⟩
    rw [libraryIo_append, queueEvents_append, lostIn_append, List.append_eq_nil_iff] at hlost
    obtain ⟨hnone, hrestKept⟩ := hlost
    rw [hnone, List.append_nil] at heq
    rw [replies_append, lane_append, ← List.append_assoc, heq, List.append_assoc,
      hrest hrestKept, libraryIo_append, queueEvents_append, handedIn_append, List.append_assoc]

/-! ## One connection after the other -/

/-- Every message in the queue is for an open descriptor. -/
def Addressed (s : State) : Prop := ∀ m ∈ s.ctx.tx, m.fd ∈ s.openFds

theorem Addressed.waiting {s : State} (ha : Addressed s) {fd : Fd} (hfd : fd ∉ s.openFds) :
    s.waiting fd = [] := by
  rw [State.waiting, lane_eq_nil]
  rintro m hm rfl
  exact hfd (ha m hm)

theorem addressed_start (path : List Byte) (fd : Fd) (timer : Option Int) (data : δ) :
    Addressed (Process.start path fd timer data).state := by
  intro m hm
  cases hm

/-- What is queued for a descriptor goes with it. -/
theorem Departed.addressed {s s' : State} {index : Nat} {fd : Fd} {io : List Io}
    (h : Departed s index fd s' io) (ha : Addressed s) : Addressed s' := by
  intro m hm
  obtain ⟨hold, hne⟩ := List.mem_filter.mp (h.isClosed.tx.subset hm)
  rw [h.isClosed.openFds]
  exact Finset.mem_erase.mpr ⟨of_decide_eq_true hne, ha m hold⟩

theorem Waited.addressed {s s' : State} {sys : WaitSys} {r : Except Error Event} {io : List Io}
    (h : Waited s sys r s' io) (ha : Addressed s) : Addressed s' := by
  cases h with
  | failed _ => exact ha
  | idle _ _ _ _ => exact ha
  | served _ _ hserved =>
    cases hserved with
    | accepted _ _ _ _ _ _ =>
      intro m hm
      exact Finset.mem_insert_of_mem (ha m hm)
    | notAccepted _ _ _ => exact ha
    | received _ _ _ => exact ha
    | unreadable _ _ _ _ => exact ha
    | left _ _ _ hdeparted _ _ => exact hdeparted.addressed ha
    | written _ _ _ _ _ _ _ _ _ =>
      intro m hm
      exact ha m (mem_of_mem_swapRemove hm)
    | notWritten _ _ _ _ _ _ _ =>
      intro m hm
      exact ha m (mem_of_mem_swapRemove hm)
    | hungUp _ _ _ hdeparted _ _ => exact hdeparted.addressed ha
    | invalid _ _ _ _ _ => exact ha

/-- A message comes over an open descriptor. -/
theorem Receives.isOpen {s : State} {sys : WaitSys} {fd : Fd} {m : Message} (hs : Serves s)
    (h : Receives s sys fd m) : fd ∈ s.openFds := by
  obtain ⟨index, p, c, ⟨revents, -, -, hp, -⟩, -, -, rfl, -⟩ := h
  have hmem : p.fd ∈ (s.polled revents).ctx.fds := List.mem_map_of_mem (List.mem_of_getElem? hp)
  exact (hs.polled revents).isOpen p.fd hmem

theorem Program.Round.addressed (hs : Serves s.state) (h : prog.Round s c s' log)
    (ha : Addressed s.state) : Addressed s'.state := by
  cases h with
  | ends hwait => exact (waitEvent_waited hs hwait).addressed ha
  | goesOn hwait _ _ _ => exact (waitEvent_waited hs hwait).addressed ha
  | @handles revents fd m data x reply _ hreceives _ =>
    cases reply with
    | none => exact ha
    | some payload =>
      intro m' hm'
      rcases List.mem_append.mp hm' with hold | hnew
      · exact ha m' hold
      · obtain rfl := List.mem_singleton.mp hnew
        have hopen : fd ∈ s.state.openFds := hreceives.isOpen hs
        exact hopen

theorem addressed_of_run (hs : Serves s.state) (ha : Addressed s.state)
    (hrun : runAll prog.round s cs = some (s', log)) : Addressed s'.state := by
  have hboth := runAll_invariant (G := fun _ _ => True)
    (P := fun s : Process δ => Serves s.state ∧ Addressed s.state) ?_ ⟨hs, ha⟩
    (runMeets_true s cs) hrun
  · exact hboth.2
  · rintro s c s₁ log₁ ⟨hs, ha⟩ - hround
    have hcases := (Program.round_cases hs hround).2
    exact ⟨hcases.serves hs, hcases.addressed hs ha⟩

/-- From a state on in which the descriptor is not open, only replies to what has come over it since
are written to it. -/
theorem replies_confined (hs : Serves s.state) (ha : Addressed s.state) (hfd : fd ∉ s.state.openFds)
    (hrun : runAll prog.round s cs = some (s', log)) :
    (lane Message.fd fd (replies log)).Perm
        (handedIn Message.fd fd (queueEvents (libraryIo log)) ++
          lostIn Message.fd fd (queueEvents (libraryIo log)) ++ s'.state.waiting fd) ∧
      List.Forall₂ (fun m bs => bs <+: encoded m.payload)
        (handedIn Message.fd fd (queueEvents (libraryIo log))) (writesOn fd (libraryIo log)) := by
  have hnone : s.state.waiting fd = [] := ha.waiting hfd
  have haccounted := replies_accounted hs hrun fd
  rwa [hnone, List.nil_append] at haccounted

/-! ## Whether a program goes on -/

/-- A service that has asked for `POLLOUT` only where it has something to send. -/
structure Ready (s : State) : Prop where
  serves : Serves s
  armed : Armed s

theorem ready_start (path : List Byte) (fd : Fd) (timer : Option Int) (data : δ) :
    Ready (Process.start path fd timer data).state where
  serves := serves_start path fd timer data
  armed := by
    have hempty : Armed { ctx := { timer := timer } } :=
      ⟨rfl, List.nodup_nil, fun _ hp => absurd hp List.not_mem_nil⟩
    exact hempty.add (c := { t := .server, path := some path }) List.not_mem_nil rfl

theorem Program.Round.ready (hs : Ready s.state) (h : prog.Round s c s' log) :
    Ready s'.state where
  serves := h.serves hs.serves
  armed := by
    cases h with
    | ends hwait =>
      exact hs.armed.waitEvent (addsNew_of_waited hs.serves (waitEvent_waited hs.serves hwait)) hwait
    | goesOn hwait _ _ _ =>
      exact hs.armed.waitEvent (addsNew_of_waited hs.serves (waitEvent_waited hs.serves hwait)) hwait
    | @handles revents _ _ _ _ reply _ _ _ =>
      have hpolled := hs.armed.polled revents
      cases reply with
      | none => exact hpolled
      | some payload => exact hpolled.schedule _

theorem not_goesOn_of_error {e : Error} {state : State} {io : List Io}
    (hwait : s.state.waitEvent c.1 = some (.error e, state, io)) :
    ¬ ∃ s' log, prog.round s c = some (s', log) ∧ s'.running = true := by
  rintro ⟨s', log, hround, hrunning⟩
  unfold Program.round at hround
  split at hround
  · rw [hwait] at hround
    cases hround
    cases hrunning
  · cases hround

theorem round_of_event {event : Event} {state : State} {io : List Io} (hrunning : s.running = true)
    (hwait : s.state.waitEvent c.1 = some (.ok event, state, io)) (ht : event.t ≠ .messageRx) :
    prog.round s c = (prog.onEvent s.data event.t).bind fun x =>
      some ({ state := state, data := x.1, running := x.2 }, io.map .io) := by
  rw [Program.round, if_pos hrunning, hwait]
  simp only [Option.bind_eq_bind, Option.bind_some, Option.pure_def]
  split
  · rename_i ht' _
    exact absurd ht' ht
  · rfl

theorem goesOn_of_event {event : Event} {state : State} {io : List Io} (hrunning : s.running = true)
    (hwait : s.state.waitEvent c.1 = some (.ok event, state, io)) (ht : event.t ≠ .messageRx) :
    (∃ s' log, prog.round s c = some (s', log) ∧ s'.running = true) ↔
      ∃ data, prog.onEvent s.data event.t = some (data, true) := by
  rw [round_of_event hrunning hwait ht]
  constructor
  · rintro ⟨s', log, h, hgoesOn⟩
    obtain ⟨⟨data, b⟩, hevent, h⟩ := Option.bind_eq_some_iff.mp h
    cases h
    obtain rfl : b = true := hgoesOn
    exact ⟨data, hevent⟩
  · rintro ⟨data, hevent⟩
    exact ⟨_, _, by rw [hevent]; rfl, rfl⟩

theorem goesOn_of_message {event : Event} {m : Message} {state : State} {io : List Io}
    (hrunning : s.running = true)
    (hwait : s.state.waitEvent c.1 = some (.ok event, state, io)) (ht : event.t = .messageRx)
    (hm : event.m = some m) :
    (∃ s' log, prog.round s c = some (s', log) ∧ s'.running = true) ↔
      prog.onMessage s.data c.2 m.payload ≠ none := by
  rw [Program.round, if_pos hrunning, hwait]
  simp only [Option.bind_eq_bind, Option.bind_some, Option.pure_def, ht, hm]
  cases prog.onMessage s.data c.2 m.payload with
  | none => simp
  | some x => simp [hrunning]

end

end LibIpc.Zig

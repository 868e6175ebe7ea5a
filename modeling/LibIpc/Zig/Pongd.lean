import LibIpc.Zig.Printing
import LibIpc.Zig.Program

/-!
# The echo service of the Zig implementation (`apps/pongd.zig`)

`Pongd.turn` is one turn of the loop of `create_service`; `turn_eq_round` makes it a `Program`. Every
message is sent back to where it came from (`pongd_echoes`), and `pongd_survives_iff` says exactly
which runs the service is still there after: any client ends it, with a message of more than 816
bytes, which it prints, or by announcing more than a message can have.
-/

namespace LibIpc.Zig

open Lib

/-! ## The loop -/

/-- One turn of the loop. The data is `count`, a `u32`; the bytes are those that `hexdump` finds in
its array, which nothing has written yet. -/
def Pongd.turn (s : Process Nat) (c : WaitSys × Vector Byte 16) :
    Option (Process Nat × List (ProgramIo Unit)) :=
  if s.running then do
    let (r, state, io) ← s.state.waitEvent c.1
    let s := { s with state := state }
    match r with
    | .error _ => return ({ s with running := false }, io.map .io)
    | .ok event =>
      match event.t with
      | .timer =>
        let count ← addChecked 32 s.data 1
        return ({ s with data := count }, io.map .io)
      | .connection => return (s, io.map .io)
      | .disconnection => return (s, io.map .io)
      | .messageRx =>
        match event.m with
        | some m =>
          let _ ← printMessage c.2 receivedMessage m
          return ({ s with state := s.state.schedule m },
            io.map .io ++ [.handled event.origin m.payload () (some m.payload),
              .io (.queue (.queued m))])
        | none => return (s, io.map .io)
      | .messageTx => return (s, io.map .io)
      | _ => return ({ s with running := false }, io.map .io)
  else none

/-- "pong". -/
def pongName : List Byte := [112, 111, 110, 103]

/-- The service with its socket, and `ctx.timer = 20000`. -/
def Pongd.start (path : List Byte) (fd : Fd) : Process Nat := .start path fd (some 20000) 0

/-- The loop, as a program that answers messages. -/
def pongd : Program Nat (Vector Byte 16) Unit where
  onMessage count ascii payload :=
    (printMessage ascii receivedMessage { fd := 0, payload := payload }).map fun _ =>
      (count, (), some payload)
  onEvent count t :=
    match t with
    | .timer => (addChecked 32 count 1).map fun count => (count, true)
    | .connection => some (count, true)
    | .disconnection => some (count, true)
    | .messageRx => some (count, true)
    | .messageTx => some (count, true)
    | _ => some (count, false)

section
variable {s s' : Process Nat} {c : WaitSys × Vector Byte 16}
  {cs : List (WaitSys × Vector Byte 16)} {log : List (ProgramIo Unit)}

/-- A message has the descriptor that it comes from. -/
theorem turn_eq_round (hs : Serves s.state) : Pongd.turn s c = pongd.round s c := by
  unfold Pongd.turn Program.round
  cases hrunning : s.running with
  | false => rfl
  | true =>
    simp only [if_true]
    cases hwait : s.state.waitEvent c.1 with
    | none => rfl
    | some x =>
      obtain ⟨r, state, io⟩ := x
      cases r with
      | error e => rfl
      | ok event =>
        obtain ⟨t, index, origin, m⟩ := event
        cases t with
        | messageRx =>
          cases m with
          | none => rfl
          | some m =>
            obtain ⟨-, hfd, -⟩ := (waitEvent_waited hs hwait).message rfl
            obtain ⟨fd, payload⟩ := m
            obtain rfl : fd = origin := hfd
            simp only [Option.bind_eq_bind, Option.bind_some, Option.pure_def, pongd]
            have hsame : printMessage c.2 receivedMessage { fd := fd, payload := payload } =
                printMessage c.2 receivedMessage { fd := 0, payload := payload } := rfl
            rw [hsame]
            cases printMessage c.2 receivedMessage { fd := 0, payload := payload } with
            | none => rfl
            | some text => rfl
        | timer =>
          simp only [Option.bind_eq_bind, Option.bind_some, Option.pure_def, pongd]
          cases addChecked 32 s.data 1 with
          | none => rfl
          | some count => simp
        | _ => simp [pongd]

theorem runAll_turn (hs : Serves s.state) (cs : List (WaitSys × Vector Byte 16)) :
    runAll Pongd.turn s cs = runAll pongd.round s cs := by
  have hmap : (runAll Pongd.turn s cs).map (fun r => (id r.1, r.2)) =
      runAll pongd.round (id s) cs := by
    apply runAll_map pongd.serves_of_round _ hs
    intro s c hs
    rw [← turn_eq_round hs]
    exact Option.map_id'
  exact Option.map_id'.symm.trans hmap

/-! ## Back to the sender -/

/-- Every message that is handled is its own reply. -/
theorem round_echoes (hs : Serves s.state) (h : pongd.round s c = some (s', log)) :
    ∀ x ∈ log, x.reply? = x.message? := by
  have hio : ∀ {io : List Io} {x : ProgramIo Unit}, x ∈ io.map .io → x.reply? = x.message? := by
    intro io x hx
    obtain ⟨y, -, rfl⟩ := List.mem_map.mp hx
    rfl
  cases (Program.round_cases hs h).2 with
  | ends _ =>
    intro x hx
    exact hio hx
  | goesOn _ _ _ _ =>
    intro x hx
    exact hio hx
  | handles _ _ hmessage =>
    intro x hx
    obtain ⟨text, -, heq⟩ := Option.map_eq_some_iff.mp hmessage
    cases heq
    rcases List.mem_cons.mp hx with rfl | hx
    · rfl
    · exact hio hx

theorem replies_eq_handledMessages (hs : Serves s.state)
    (hrun : runAll pongd.round s cs = some (s', log)) : replies log = handledMessages log := by
  have hechoes := (runAll_induction (G := fun _ _ => True)
    (P := fun s : Process Nat => Serves s.state)
    (Q := fun _ log _ => ∀ x ∈ log, ProgramIo.reply? x = x.message?)
    (fun _ _ _ hx => absurd hx List.not_mem_nil) ?_ hs (runMeets_true s cs) hrun).2
  · exact List.filterMap_congr hechoes
  · intro s c s₁ log₁ hs _ hround
    refine ⟨pongd.serves_of_round s c s₁ log₁ hs hround, fun log₂ s₂ hrest x hx => ?_⟩
    rcases List.mem_append.mp hx with hx | hx
    · exact round_echoes hs hround x hx
    · exact hrest x hx

/-- A client on descriptor 5 is accepted, sends `"hi"`, and is sent it back. -/
def oneEcho : List (WaitSys × Vector Byte 16) :=
  [({ poll := some [{ pollin := true }], accept := .ok 5 }, Vector.replicate 16 0),
    ({ poll := some [{}, { pollin := true }], read := .ok (frame [104, 105]) },
      Vector.replicate 16 0),
    ({ poll := some [{}, { pollout := true }], write := .wrote 6 }, Vector.replicate 16 0)]

/-- The loop goes on after this wait: it does not fail; it stops at an entry that is ready to be read
or written or has hung up, or the time is over and counted; and a message is not too long to be
printed. -/
structure Pongd.GoesOn (s : Process Nat) (sys : WaitSys) : Prop where
  answers : ¬ Fails s.state sys
  event : (∃ index p c, StopsAt s.state sys index p c ∧
      (p.revents.pollin ∨ p.revents.pollout ∨ p.revents.pollhup)) ∨
    TimesOut s.state sys ∧ s.data + 1 < 2 ^ 32
  printed : ∀ fd m, Receives s.state sys fd m → m.payload.length ≤ 816

/-- The service survives printing exactly the messages of at most 816 bytes. -/
theorem pongd_onMessage_iff {count : Nat} {ascii : Vector Byte 16} {payload : List Byte}
    (hlen : payload.length ≤ ipcMaxMessageSize - 4) :
    pongd.onMessage count ascii payload ≠ none ↔ payload.length ≤ 816 := by
  have hprint := @printMessage_iff ascii receivedMessage { fd := 0, payload := payload } hlen
  have hheader : receivedMessage ≠ [] ∧ 2 ≤ receivedMessage.length ∧ receivedMessage.length ≤ 62 := by
    decide
  have hmap : pongd.onMessage count ascii payload =
      (printMessage ascii receivedMessage { fd := 0, payload := payload }).map fun _ =>
        (count, (), some payload) := rfl
  rw [hmap, ne_eq, Option.map_eq_none_iff, ← ne_eq, hprint]
  simp [hheader]

/-- The events that end the loop are errors. -/
theorem pongd_onEvent_iff {count : Nat} {t : EventType} :
    (∃ data, pongd.onEvent count t = some (data, true)) ↔
      t = .timer ∧ count + 1 < 2 ^ 32 ∨ t = .connection ∨ t = .disconnection ∨ t = .messageRx ∨
        t = .messageTx := by
  cases t with
  | timer =>
    have hadd : addChecked 32 count 1 = if count + 1 < 2 ^ 32 then some (count + 1) else none := rfl
    simp only [pongd, hadd]
    by_cases hlt : count + 1 < 2 ^ 32
    · rw [if_pos hlt]
      exact iff_of_true ⟨count + 1, rfl⟩ (.inl ⟨trivial, hlt⟩)
    · rw [if_neg hlt]
      refine iff_of_false (by simp) ?_
      simp only [hlt, and_false, reduceCtorEq, or_self, not_false_eq_true]
  | _ => simp [pongd]

theorem turn_goesOn_iff (hs : Ready s.state) (hrunning : s.running = true)
    (hsys : Contract s.state c.1) :
    (∃ s' log, Pongd.turn s c = some (s', log) ∧ s'.running = true) ↔ Pongd.GoesOn s c.1 := by
  rw [turn_eq_round hs.serves]
  obtain ⟨⟨r, state, io⟩, hwait⟩ := exists_waitEvent hs.serves hs.armed hsys
  have hwaited := waitEvent_waited hs.serves hwait
  have hfails := waitEvent_error_iff hs.serves hwait
  cases r with
  | error e =>
    refine iff_of_false (not_goesOn_of_error hwait) ?_
    intro h
    exact h.answers (hfails.mp ⟨e, rfl⟩)
  | ok event =>
    have hanswers : ¬ Fails s.state c.1 := by
      rw [← hfails]
      rintro ⟨e, he⟩
      cases he
    by_cases ht : event.t = .messageRx
    · obtain ⟨revents, m, -, hreceives, hm, -, -⟩ := hwaited.receives ht
      rw [goesOn_of_message hrunning hwait ht hm, pongd_onMessage_iff hreceives.length_le]
      obtain ⟨index, p, cn, hstop, hin, hipc, hfd, hread⟩ := hreceives
      constructor
      · intro hlen
        refine ⟨hanswers, .inl ⟨index, p, cn, hstop, .inl hin⟩, ?_⟩
        intro fd m' hother
        rw [Receives.unique ⟨index, p, cn, hstop, hin, hipc, hfd, hread⟩ hother]
        exact hlen
      · intro h
        exact h.printed event.origin m ⟨index, p, cn, hstop, hin, hipc, hfd, hread⟩
    · rw [goesOn_of_event hrunning hwait ht, pongd_onEvent_iff]
      have hquiet : ∀ fd m, ¬ Receives s.state c.1 fd m := by
        intro fd m hreceives
        exact ht (hwaited.messageRx_of_receives hreceives)
      cases hwaited with
      | idle hpoll hnot htype _ =>
        have hevent : event.t = .timer ↔ TimesOut s.state c.1 := by
          rcases htype with ⟨htimes, htype⟩ | ⟨hnever, htype⟩
          · exact iff_of_true htype htimes
          · exact iff_of_false (by simp [htype]) hnever
        have hothers : ¬ (event.t = .connection ∨ event.t = .disconnection ∨
            event.t = .messageRx ∨ event.t = .messageTx) := by
          rcases htype with ⟨-, htype⟩ | ⟨-, htype⟩
          · simp [htype]
          · simp [htype]
        rw [hevent, or_iff_left hothers]
        constructor
        · intro htimes
          exact ⟨hanswers, .inr htimes, fun fd m hm => absurd hm (hquiet fd m)⟩
        · intro h
          rcases h.event with ⟨index, p, cn, hstop, -⟩ | htimes
          · exact absurd hstop (hnot index p cn)
          · exact htimes
      | @served revents index p cn _ _ _ hpoll hstop hserved =>
        have hstops : Pongd.GoesOn s c.1 ↔
            p.revents.pollin ∨ p.revents.pollout ∨ p.revents.pollhup := by
          constructor
          · intro h
            rcases h.event with ⟨index', p', cn', hstop', hready⟩ | ⟨htimes, -⟩
            · obtain ⟨rfl, rfl, rfl⟩ := hstop.unique hstop'
              exact hready
            · exact absurd htimes hstop.not_timesOut
          · intro hready
            exact ⟨hanswers, .inl ⟨index, p, cn, hstop, hready⟩,
              fun fd m hm => absurd hm (hquiet fd m)⟩
        rw [hstops]
        cases hserved with
        | accepted hin _ _ _ htype _ => simp [hin, htype]
        | received _ _ _ => exact absurd rfl ht
        | left hin _ _ _ htype _ => simp [hin, htype]
        | written _ hout _ _ _ _ _ htype _ => simp [hout, htype]
        | hungUp _ _ hup _ htype _ => simp [hup, htype]
        | invalid hin hout hup htype _ => simp [hin, hout, hup, htype]

end

end LibIpc.Zig

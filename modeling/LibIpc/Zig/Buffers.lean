import LibIpc.Zig.Daemon
import LibIpc.Zig.Bindings

/-!
# The caller's buffer in the C bindings (`bindings.zig`)

Three exported functions copy the payload of a message to a buffer of `*buflen` bytes, through a
`FixedBufferStream` that takes as many bytes as fit, and change `*buflen` to the length of the
payload. `ipc_read` and `ipc_read_fd` refuse a payload that is too long before they copy it;
`ipc_wait_event` does not.
-/

namespace LibIpc.Zig

open Lib

/-! ## The exported functions -/

/-- `write` of a `FixedBufferStream` on the first `room` bytes of `buffer`: the buffer it leaves.
`none` when there is no room at all. -/
def streamWrite (payload buffer : List Byte) (room : Nat) : Option (List Byte) :=
  if payload = [] then some buffer
  else if room = 0 then none
  else some (overwrite buffer (payload.take room))

/-- What a C caller gets back: the returned value, its buffer, and `*buflen`. -/
structure Reply where
  ret : Int
  buffer : List Byte
  buflen : Nat

/-- The end of the two read functions: a payload that does not fit is an error. -/
def giveMessage (answer : Except Error (Option Message)) (buffer : List Byte) : Reply :=
  match answer with
  | .error _ => { ret := -1, buffer := buffer, buflen := buffer.length }
  | .ok none => { ret := -2, buffer := buffer, buflen := buffer.length }
  | .ok (some m) =>
    if m.payload.length > buffer.length then
      { ret := -3, buffer := buffer, buflen := buffer.length }
    else
      match streamWrite m.payload buffer m.payload.length with
      | none => { ret := -4, buffer := buffer, buflen := m.payload.length }
      | some buffer => { ret := 0, buffer := buffer, buflen := m.payload.length }

/-- `ipc_read_fd`. -/
def State.ipcReadFd (s : State) (fd : Fd) (r : ReadResult) (buffer : List Byte) : Reply :=
  giveMessage (s.readFd fd r) buffer

/-- `ipc_read`. -/
def State.ipcRead (s : State) (index : Nat) (r : ReadResult) (buffer : List Byte) : Reply :=
  giveMessage (s.ctx.read index r) buffer

/-- What `ipc_wait_event` gives back: the event is stored in `*t`, `*index` and `*originfd`. -/
structure WaitReply extends Reply where
  stored : Option (EventType × Nat × Fd) := none

/-- The payload of an event in a buffer of `*buflen` bytes. -/
def giveEvent (event : Event) (buffer : List Byte) : Reply :=
  match event.m with
  | none => { ret := 0, buffer := buffer, buflen := 0 }
  | some m =>
    match streamWrite m.payload buffer buffer.length with
    | none => { ret := -4, buffer := buffer, buflen := buffer.length }
    | some buffer => { ret := 0, buffer := buffer, buflen := m.payload.length }

/-- `ipc_wait_event`. -/
def State.ipcWaitEvent (s : State) (sys : WaitSys) (buffer : List Byte) :
    Option (WaitReply × State × List Io) :=
  (s.waitEvent sys).map fun (r, s, io) =>
    match r with
    | .error _ => ({ ret := -1, buffer := buffer, buflen := buffer.length }, s, io)
    | .ok event =>
      ({ giveEvent event buffer with stored := some (event.t, event.index, event.origin) }, s, io)

/-! ## Copying -/

theorem length_streamWrite {payload buffer buffer' : List Byte} {room : Nat}
    (hroom : room ≤ buffer.length) (h : streamWrite payload buffer room = some buffer') :
    buffer'.length = buffer.length := by
  unfold streamWrite at h
  split at h
  · cases h
    rfl
  · split at h
    · cases h
    · cases h
      rw [overwrite, List.length_append, List.length_drop, List.length_take]
      omega

/-- Nothing is written past the end of the caller's buffer. -/
theorem length_giveMessage (answer : Except Error (Option Message)) (buffer : List Byte) :
    (giveMessage answer buffer).buffer.length = buffer.length := by
  unfold giveMessage
  split
  · rfl
  · rfl
  · split
    · rfl
    · rename_i m hlong
      split
      · rfl
      · rename_i buffer' hwrite
        exact length_streamWrite (Nat.not_lt.mp hlong) hwrite

theorem length_giveEvent (event : Event) (buffer : List Byte) :
    (giveEvent event buffer).buffer.length = buffer.length := by
  unfold giveEvent
  split
  · rfl
  · split
    · rfl
    · rename_i buffer' hwrite
      exact length_streamWrite (Nat.le_refl _) hwrite

/-- With room for the payload, the buffer starts with it. -/
theorem take_streamWrite {payload buffer : List Byte} {room : Nat} (hroom : payload.length ≤ room) :
    ∃ buffer', streamWrite payload buffer room = some buffer' ∧
      buffer'.take payload.length = payload := by
  unfold streamWrite
  by_cases hnil : payload = []
  · exact ⟨buffer, if_pos hnil, by simp [hnil]⟩
  · have hpos := List.length_pos_iff.mpr hnil
    refine ⟨overwrite buffer payload, ?_, List.take_left⟩
    rw [if_neg hnil, if_neg (by omega), List.take_of_length_le hroom]

/-- The stream fails exactly when the model of the allocations says that nothing is copied. -/
theorem isSome_streamWrite (m : Message) (buffer : List Byte) :
    (streamWrite m.payload buffer buffer.length).isSome = copied m buffer.length := by
  unfold streamWrite copied
  by_cases hnil : m.payload = []
  · simp [hnil]
  · by_cases hroom : buffer.length = 0
    · simp [hnil, hroom]
    · simp [hnil, hroom]

/-- The answer is honest: after a success `*buflen` is at most what the caller has room for, and
that many bytes of the buffer are the whole payload; a payload that is too long gives an error. -/
structure Honest (payload buffer : List Byte) (r : Reply) : Prop where
  length_le : r.ret = 0 → r.buflen ≤ buffer.length
  whole : r.ret = 0 → r.buflen = payload.length ∧ r.buffer.take r.buflen = payload
  error_of_lt : buffer.length < payload.length → r.ret < 0

theorem honest_giveMessage (m : Message) (buffer : List Byte) :
    Honest m.payload buffer (giveMessage (.ok (some m)) buffer) := by
  unfold giveMessage
  by_cases hlong : m.payload.length > buffer.length
  · simp only [if_pos hlong]
    refine ⟨nofun, nofun, fun _ => ?_⟩
    show (-3 : Int) < 0
    norm_num
  · obtain ⟨buffer', hwrite, htake⟩ : ∃ buffer', streamWrite m.payload buffer m.payload.length =
        some buffer' ∧ buffer'.take m.payload.length = m.payload := take_streamWrite (Nat.le_refl _)
    simp only [if_neg hlong, hwrite]
    exact ⟨fun _ => Nat.not_lt.mp hlong, fun _ => ⟨rfl, htake⟩, fun h => absurd h hlong⟩

theorem honest_giveEvent_iff {event : Event} {m : Message} (hm : event.m = some m)
    (buffer : List Byte) :
    Honest m.payload buffer (giveEvent event buffer) ↔
      m.payload.length ≤ buffer.length ∨ buffer = [] := by
  unfold giveEvent
  rw [hm]
  by_cases hfits : m.payload.length ≤ buffer.length
  · obtain ⟨buffer', hwrite, htake⟩ : ∃ buffer', streamWrite m.payload buffer buffer.length =
        some buffer' ∧ buffer'.take m.payload.length = m.payload := take_streamWrite hfits
    simp only [hwrite]
    exact iff_of_true ⟨fun _ => hfits, fun _ => ⟨rfl, htake⟩, fun h => absurd hfits (Nat.not_le.mpr h)⟩
      (.inl hfits)
  · have hnil : m.payload ≠ [] := by
      intro hnil
      simp [hnil] at hfits
    by_cases hroom : buffer = []
    · simp only [hroom, streamWrite, if_neg hnil, List.length_nil, if_true]
      refine iff_of_true ⟨nofun, nofun, fun _ => ?_⟩ (.inr trivial)
      show (-4 : Int) < 0
      norm_num
    · -- part of the payload is copied, and the length is that of all of it
      have hlen : buffer.length ≠ 0 := fun h => hroom (List.eq_nil_of_length_eq_zero h)
      simp only [streamWrite, if_neg hnil, if_neg hlen]
      apply iff_of_false (fun h => hfits (h.length_le rfl))
      intro hholds
      rcases hholds with h | h
      · exact hfits h
      · exact hroom h

/-! ## Where the message of an event comes from -/

/-- The bytes that `wait_event` receives: on an IPC connection those of its `read(2)`, on a switched
one those its callback has left. -/
def Arrives (s : State) (sys : WaitSys) (bs : List Byte) : Prop :=
  ∃ index p c, StopsAt s sys index p c ∧ p.revents.pollin ∧
    (c.t = .ipc ∧ sys.read = .ok bs ∨ c.t = .switched ∧ sys.cbIn.answer = (.noError, bs))

theorem Message.length_of_read {fd : Fd} {buf : List Byte} {len : Nat} {m : Message}
    (h : Message.read fd buf len = .ok m) : m.payload.length = be32At buf 0 := by
  unfold Message.read at h
  split at h
  · cases h
  · simp only at h
    split at h
    · cases h
    · cases h
      exact length_slice buf 4 _

theorem SwitchDB.read_eq_ok {db : SwitchDB} {fd : Fd} {cb : In} {m : Message}
    (h : SwitchDB.read db fd cb = .ok (some m)) :
    ∃ bs, cb.answer = (.noError, bs) ∧ m.payload.length = be32At bs 0 := by
  unfold SwitchDB.read at h
  split at h
  · cases h
  · split at h
    · cases h
    · rename_i bs hanswer
      split at h
      · cases h
      · rename_i m' hread
        cases h
        exact ⟨bs, hanswer, Message.length_of_read hread⟩
    · cases h
    · cases h

theorem Context.read_eq_ok {ctx : Context} {index : Nat} {r : ReadResult} {m : Message}
    (h : ctx.read index r = .ok (some m)) :
    ∃ bs, r = .ok bs ∧ m.payload.length = be32At bs 0 := by
  unfold Context.read at h
  split at h
  · split at h
    · cases h
    · split at h
      · cases h
      · cases h
      · rename_i bs
        split at h
        · cases h
        · rename_i pollfd _ _ _ _ _ _
          cases hread : Message.read pollfd.fd bs ipcMaxMessageSize with
          | error e =>
            rw [hread] at h
            cases h
          | ok m' =>
            rw [hread] at h
            cases h
            exact ⟨bs, rfl, Message.length_of_read hread⟩
  · cases h

theorem readMessage_message {s s' : State} {index : Nat} {p : PollFd} {r : ReadResult}
    {event : Event} {io : List Io} {m : Message}
    (h : s.readMessage index p r = some (.ok event, s', io)) (hm : event.m = some m) :
    ∃ bs, r = .ok bs ∧ m.payload.length = be32At bs 0 := by
  have hnone : event.m ≠ none := by simp [hm]
  unfold State.readMessage at h
  split at h
  · exact absurd (disconnect_message h) hnone
  · cases h
  · exact absurd (disconnect_message h) hnone
  · rename_i m' hread
    cases h
    cases hm
    exact Context.read_eq_ok hread

/-- The message of an event is as long as the bytes that `wait_event` received announce. -/
theorem arrives_of_waitEvent {s s' : State} {sys : WaitSys} {event : Event} {io : List Io}
    {m : Message} (h : s.waitEvent sys = some (.ok event, s', io)) (hm : event.m = some m) :
    ∃ bs, Arrives s sys bs ∧ m.payload.length = be32At bs 0 := by
  have hnone : event.m ≠ none := by simp [hm]
  rcases waitEvent_ok h with ⟨-, hother⟩ | ⟨revents, index, p, c, hpoll, hindex, hp, hc, hd⟩
  · exact absurd hother hnone
  · have hstop : StopsAt s sys index p c := ⟨revents, hpoll, hindex, hp, hc⟩
    unfold State.dispatch at hd
    split at hd
    · rename_i hin
      split at hd
      · unfold State.acceptNewClient at hd
        split at hd
        · cases hd
        · split at hd
          · cases hd
          · obtain ⟨s₁, -, hd⟩ := Option.bind_eq_some_iff.mp hd
            cases hd
            cases hm
      · rename_i ht
        obtain ⟨bs, hanswer, hlen⟩ := SwitchDB.read_eq_ok (readSwitched_message hd hm).2.2
        exact ⟨bs, ⟨index, p, c, hstop, hin, .inr ⟨ht, hanswer⟩⟩, hlen⟩
      · cases hd
        cases hm
      · rename_i ht
        obtain ⟨bs, hread, hlen⟩ := readMessage_message hd hm
        exact ⟨bs, ⟨index, p, c, hstop, hin, .inl ⟨ht, hread⟩⟩, hlen⟩
    · split at hd
      · exact absurd (writeMessage_message hd) hnone
      · split at hd
        · exact absurd (disconnect_message hd) hnone
        · cases hd
          cases hm

/-- **Buffers**: for the message of an event, `ipc_wait_event` is honest exactly when the payload,
whose length is announced by the bytes received, fits the caller's buffer, or the buffer has no room
at all. The read functions are honest with the same payload and the same buffer. -/
theorem honest_waitEvent_iff {s s' : State} {sys : WaitSys} {event : Event} {io : List Io}
    {m : Message} (h : s.waitEvent sys = some (.ok event, s', io)) (hm : event.m = some m)
    (buffer : List Byte) :
    (∃ r bs, s.ipcWaitEvent sys buffer = some (r, s', io) ∧ Arrives s sys bs ∧
      m.payload.length = be32At bs 0 ∧
      (Honest m.payload buffer r.toReply ↔ be32At bs 0 ≤ buffer.length ∨ buffer = [])) ∧
    ∀ (t : State) (r : ReadResult) (m' : Message), m'.payload = m.payload →
      (∀ index, t.ctx.read index r = .ok (some m') →
        Honest m.payload buffer (t.ipcRead index r buffer)) ∧
      ∀ fd, t.readFd fd r = .ok (some m') → Honest m.payload buffer (t.ipcReadFd fd r buffer) := by
  constructor
  · obtain ⟨bs, harrives, hlen⟩ := arrives_of_waitEvent h hm
    refine ⟨_, bs, by rw [State.ipcWaitEvent, h]; rfl, harrives, hlen, ?_⟩
    rw [← hlen]
    exact honest_giveEvent_iff hm buffer
  · intro t r m' hpayload
    rw [← hpayload]
    constructor
    · intro index hread
      rw [State.ipcRead, hread]
      exact honest_giveMessage m' buffer
    · intro fd hread
      rw [State.ipcReadFd, hread]
      exact honest_giveMessage m' buffer

/-- A service that has just been connected. -/
def oneService : State :=
  { ctx := { connections := [{ t := .ipc }], pollfd := [{ fd := 5, events := { pollin := true } }] }
    openFds := {5} }

/-- It sends "pong". -/
def pongArrives : WaitSys :=
  { poll := some [{ pollin := true }], read := .ok (frame [112, 111, 110, 103]) }

theorem honest_waitEvent_pong :
    ∃ event s' io r bs, oneService.waitEvent pongArrives = some (.ok event, s', io) ∧
      oneService.ipcWaitEvent pongArrives [0, 0, 0, 0, 0, 0] = some (r, s', io) ∧
      Arrives oneService pongArrives bs ∧ Honest [112, 111, 110, 103] [0, 0, 0, 0, 0, 0] r.toReply := by
  have hwait : oneService.waitEvent pongArrives = some (.ok ⟨.messageRx, 0, 5,
      some { fd := 5, payload := [112, 111, 110, 103] }⟩, _, _) := rfl
  obtain ⟨r, bs, hr, harrives, hlen, hiff⟩ := (honest_waitEvent_iff hwait rfl [0, 0, 0, 0, 0, 0]).1
  have hfits : be32At bs 0 ≤ 6 := by
    rw [← hlen]
    decide
  exact ⟨_, _, _, r, bs, hwait, hr, harrives, hiff.mpr (.inl hfits)⟩

/-- In a buffer of two bytes the caller finds "po", and is told that there are four. -/
theorem not_honest_waitEvent_pong :
    ReachableState oneService ∧
      ∃ r s' io, oneService.ipcWaitEvent pongArrives [0, 0] = some (r, s', io) ∧ r.ret = 0 ∧
        r.buflen = 4 ∧ r.buffer = [112, 111] ∧ ¬ Honest [112, 111, 110, 103] [0, 0] r.toReply := by
  refine ⟨⟨[.connectService (.ok 5)], [], rfl⟩, _, _, _, rfl, rfl, rfl, rfl, ?_⟩
  intro h
  have hle := h.length_le rfl
  revert hle
  decide

end LibIpc.Zig

import LibIpc.Crystal.Message
import LibIpc.Zig.Buffers
import LibIpc.Zig.Program

/-!
# The class `IPC` of the Crystal library (`high-level-bindings.cr`)

An `IPC` has a context of the Zig library and a buffer, allocated once, that every message is
received in. `Ipc.wait` is `ipc_wait_event` with this buffer; the event that it makes of what comes
back has the message as it was sent, except that an empty one is no message (`wait_map`).
-/

namespace LibIpc.Crystal

open Lib Zig

/-- `IPC::Event`; `LibIPC::EventType` has the values of `Event.Type`, in the same order. -/
structure Event where
  type : EventType
  index : Nat
  fd : Fd
  message : Option (List Byte) := none

/-- `IPC::Event.new`: the message is the first `buflen` bytes of the buffer. -/
def Event.new (t : EventType) (index : Nat) (fd : Fd) (buffer : List Byte) (buflen : Nat) :
    Event where
  type := t
  index := index
  fd := fd
  message := if buflen > 0 then some (buffer.take buflen) else none

/-- `@reception_buffer_len`. -/
def receptionBufferLen : Nat := 2000000

/-- `IPC`: `@context` and `@reception_buffer`. -/
structure Ipc where
  context : State
  receptionBuffer : List Byte
  length_buffer : receptionBuffer.length = receptionBufferLen

/-- What `IPC#wait` raises. -/
def waitIsBroken : String := "Oh noes, 'wait' iz brkn"

theorem length_ipcWaitEvent {s s' : State} {sys : WaitSys} {buffer : List Byte} {reply : WaitReply}
    {io : List Io} (h : s.ipcWaitEvent sys buffer = some (reply, s', io)) :
    reply.buffer.length = buffer.length := by
  obtain ⟨⟨r, s₁, io₁⟩, -, heq⟩ := Option.map_eq_some_iff.mp h
  cases r with
  | error e =>
    cases heq
    rfl
  | ok event =>
    cases heq
    exact length_giveEvent event buffer

/-- `IPC#wait`: an event, or an exception. -/
def Ipc.wait (ipc : Ipc) (sys : WaitSys) : Option (Except String Event × Ipc × List Io) :=
  match h : ipc.context.ipcWaitEvent sys ipc.receptionBuffer with
  | none => none
  | some (reply, context, io) =>
    let ipc' : Ipc :=
      { context := context
        receptionBuffer := reply.buffer
        length_buffer := (length_ipcWaitEvent h).trans ipc.length_buffer }
    if reply.ret ≠ 0 then some (.error waitIsBroken, ipc', io)
    else
      let (t, index, fd) := reply.stored.getD (.error, 0, 0)
      some (.ok (.new t index fd reply.buffer reply.buflen), ipc', io)

/-- `IPC#schedule`, of bytes. -/
def Ipc.schedule (ipc : Ipc) (fd : Fd) (payload : List Byte) : Ipc :=
  { ipc with context := ipc.context.schedule { fd := fd, payload := payload } }

/-- What Crystal makes of a Zig event: an empty message is none. -/
def Event.ofZig (event : Zig.Event) : Event where
  type := event.t
  index := event.index
  fd := event.origin
  message := event.m.bind fun m => if m.payload = [] then none else some m.payload

section
variable {ipc ipc' : Ipc} {sys : WaitSys} {io : List Io}

theorem giveEvent_new {event : Zig.Event} {buffer : List Byte}
    (hlen : ∀ m, event.m = some m → m.payload.length ≤ buffer.length) :
    (giveEvent event buffer).ret = 0 ∧
      Event.new event.t event.index event.origin (giveEvent event buffer).buffer
        (giveEvent event buffer).buflen = .ofZig event := by
  cases hm : event.m with
  | none => simp [giveEvent, hm, Event.new, Event.ofZig]
  | some m =>
    obtain ⟨buffer', hwrite, htake⟩ : ∃ buffer', streamWrite m.payload buffer buffer.length =
        some buffer' ∧ buffer'.take m.payload.length = m.payload := take_streamWrite (hlen m hm)
    have hgive : giveEvent event buffer =
        { ret := 0, buffer := buffer', buflen := m.payload.length } := by
      simp only [giveEvent, hm, hwrite]
    rw [hgive]
    refine ⟨rfl, ?_⟩
    simp only [Event.new, Event.ofZig, hm, htake, Option.bind_some]
    by_cases hnil : m.payload = []
    · simp [hnil]
    · rw [if_pos (List.length_pos_iff.mpr hnil), if_neg hnil]

/-- The buffer is always large enough: `IPC#wait` is `wait_event`, and what it gives is made from
the event that one gives. -/
theorem wait_map (hs : Serves ipc.context) :
    (ipc.wait sys).map (fun r => (r.1, r.2.1.context, r.2.2)) =
      (ipc.context.waitEvent sys).map fun r =>
        ((r.1.mapError fun _ => waitIsBroken).map Event.ofZig, r.2.1, r.2.2) := by
  cases hwait : ipc.context.waitEvent sys with
  | none =>
    have hnone : ipc.context.ipcWaitEvent sys ipc.receptionBuffer = none := by
      rw [State.ipcWaitEvent, hwait]
      rfl
    unfold Ipc.wait
    split
    · rfl
    · rename_i heq
      cases hnone.symm.trans heq
  | some x =>
    obtain ⟨r, context, io⟩ := x
    unfold Ipc.wait
    split
    · rename_i hnone
      rw [State.ipcWaitEvent, hwait] at hnone
      cases hnone
    · rename_i reply context' io' heq
      rw [State.ipcWaitEvent, hwait] at heq
      cases r with
      | error e =>
        cases heq
        rfl
      | ok event =>
        obtain ⟨hret, hnew⟩ := @giveEvent_new event ipc.receptionBuffer <| by
          intro m hm
          have hlen := (waitEvent_waited hs hwait).length_le hm
          rw [ipcMaxMessageSize_eq] at hlen
          rw [ipc.length_buffer, receptionBufferLen]
          omega
        cases heq
        simp only [hret, ne_eq, not_true_eq_false, if_false, Option.getD_some, hnew,
          Option.map_some]
        rfl

theorem wait_eq_none (hs : Serves ipc.context) (h : ipc.context.waitEvent sys = none) :
    ipc.wait sys = none := by
  have hwait := @wait_map ipc sys hs
  rwa [h, Option.map_none, Option.map_eq_none_iff] at hwait

theorem wait_eq_some (hs : Serves ipc.context) {r : Except Error Zig.Event} {context : State}
    (h : ipc.context.waitEvent sys = some (r, context, io)) :
    ∃ ipc' : Ipc,
      ipc.wait sys = some ((r.mapError fun _ => waitIsBroken).map Event.ofZig, ipc', io) ∧
        ipc'.context = context := by
  have hwait := @wait_map ipc sys hs
  rw [h, Option.map_some] at hwait
  obtain ⟨⟨r', ipc', io'⟩, hsome, heq⟩ := Option.map_eq_some_iff.mp hwait
  simp only [Prod.mk.injEq] at heq
  obtain ⟨rfl, hcontext, rfl⟩ := heq
  exact ⟨ipc', hsome, hcontext⟩

end

end LibIpc.Crystal

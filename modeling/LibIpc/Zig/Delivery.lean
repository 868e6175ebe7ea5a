import LibIpc.Zig.Effects

/-!
# Order of delivery in the Zig implementation

As in the C library, the messages to send to all descriptors share one array that is deleted from
by swapping, both when a message is written and when a connection is closed.
-/

namespace LibIpc.Zig

open Lib

/-- Every reachable context has parallel arrays. -/
theorem ReachableState.parallel {s : State} (h : ReachableState s) : s.ctx.Parallel := by
  refine Reachable.invariant (P := fun s : State => s.ctx.Parallel) ?_ ?_ h
  · intro s c s₁ io₁ hpar hstep
    exact (step_effect hpar hstep).parallel
  · rfl

/-- A run from a reachable state changes the queue by the events it emits. -/
theorem runAll_effect {s s' : State} (h : ReachableState s) {cs : List Call} {io : List Io}
    (hrun : runAll step s cs = some (s', io)) : Effect s io s' := by
  have hind := runAll_induction (G := fun _ _ => True)
    (P := fun s => s.ctx.Parallel) (Q := Effect)
    (fun s hpar => effect_of_tx_eq hpar rfl rfl) ?_ h.parallel (runMeets_true s cs) hrun
  · exact hind.2
  · intro s c s₁ io₁ hpar _ hstep
    have heffect := step_effect hpar hstep
    exact ⟨heffect.parallel, fun io₂ s₂ h₂ => heffect.trans h₂⟩

/-- The messages waiting to be written to `fd`. -/
def State.waiting (s : State) (fd : Fd) : List Message := lane Message.fd fd s.ctx.tx

/-- From `s` to `s'`, with `io` in between, the messages for `fd` left the queue to be written in
the order in which they were scheduled. -/
def WrittenInOrder (fd : Fd) (s : State) (io : List Io) (s' : State) : Prop :=
  HandedInOrder Message.fd fd (s.waiting fd) (queueEvents io) (s'.waiting fd)

instance (fd : Fd) (s : State) (io : List Io) (s' : State) :
    Decidable (WrittenInOrder fd s io s') :=
  inferInstanceAs (Decidable (HandedInOrder ..))

/-- **Order**: in a run whose deletions from `tx` are all order-safe, the messages of every
descriptor are written in the order in which they were scheduled. -/
theorem writtenInOrder_of_safe {s s' : State} (h : ReachableState s) {cs : List Call}
    {io : List Io} (hrun : runAll step s cs = some (s', io))
    (hsafe : ∀ e ∈ queueEvents io, e.Safe Message.fd) (fd : Fd) : WrittenInOrder fd s io s' :=
  fifo_handedInOrder ((runAll_effect h hrun).steps.fifo fun e he => (hsafe e he).safeIn fd)

/-- `wait_event` when only descriptor number `i` of `n` is ready, for writing. -/
def writable (i n : Nat) : Call :=
  .waitEvent
    { poll := some ((List.replicate n {}).set i { pollout := true }), write := .wrote 6 }

/-- Two connections, a message scheduled for each, both written. -/
def twoConnections : List Call :=
  [.connectService (.ok 5), .connectService (.ok 6), .schedule { fd := 5, payload := [104, 105] },
    .schedule { fd := 6, payload := [111, 107] }, writable 0 2, writable 1 2]

theorem writtenInOrder_two_connections :
    ∃ s io, runAll step {} twoConnections = some (s, io) ∧ WrittenInOrder 5 {} io s := by
  have hsafe : ∃ r, runAll step {} twoConnections = some r ∧
      ∀ e ∈ queueEvents r.2, e.Safe Message.fd := by
    simp only [← Option.mem_def]
    decide +kernel
  obtain ⟨⟨s, io⟩, hrun, hsafe⟩ := hsafe
  exact ⟨s, io, hrun, writtenInOrder_of_safe ⟨[], [], rfl⟩ hrun hsafe 5⟩

/-- Three messages scheduled for one descriptor, then two `POLLOUT`. -/
def threeMessages : List Call :=
  [.connectService (.ok 5), .schedule { fd := 5, payload := [97] },
    .schedule { fd := 5, payload := [98] }, .schedule { fd := 5, payload := [99] }, writable 0 1,
    writable 0 1]

/-- The first message is written, the last one takes its place and is written before the second. -/
theorem not_writtenInOrder_three_messages :
    ∃ s io, runAll step {} threeMessages = some (s, io) ∧
      handedIn Message.fd 5 (queueEvents io) =
        [{ fd := 5, payload := [97] }, { fd := 5, payload := [99] }] ∧
      ¬ WrittenInOrder 5 {} io s := by
  have h : ∃ r, runAll step {} threeMessages = some r ∧
      handedIn Message.fd 5 (queueEvents r.2) =
        [{ fd := 5, payload := [97] }, { fd := 5, payload := [99] }] ∧
      ¬ WrittenInOrder 5 {} r.2 r.1 := by
    simp only [← Option.mem_def]
    decide +kernel
  obtain ⟨⟨s, io⟩, h⟩ := h
  exact ⟨s, io, h⟩

end LibIpc.Zig

import LibIpc.C.Echo

/-!
# Shutting down

A program that stops closes its connections with `ipc_close_all`, then frees its context with
`ipc_ctx_free`. Freeing alone is not enough while messages are queued, since the size of the queue
is not reset; closing drops every message of a tracked descriptor, and all of them are.
-/

namespace LibIpc.C

open Lib

/-- `exit_program`: the service closes everything and frees its context. -/
def exitProgram (ctx : IpcCtx) (sys : Nat → CloseSys) : Option (IpcCtx × List Io) := do
  let (ctx, io) ← ipcCloseAll ctx sys
  return (ipcCtxFree ctx, io)

/-- The descriptors closed. -/
def closedFds (io : List Io) : List Fd :=
  io.filterMap fun
    | .close fd => some fd
    | _ => none

theorem closedFds_append (a b : List Io) : closedFds (a ++ b) = closedFds a ++ closedFds b := by
  simp [closedFds]

theorem closedFds_map_queue (es : List (QueueEvent IpcMessage)) :
    closedFds (es.map .queue) = [] := by
  simp [closedFds, List.filterMap_map]

/-- The descriptors `ipc_close` closes: those of the connections that are not external. -/
def ownFds (es : List (IpcConnectionInfo × PollFd)) : List Fd :=
  (es.filter fun e => e.1.type ≠ .external).map fun e => e.2.fd

theorem closedFds_closedFd (e : IpcConnectionInfo × PollFd) : closedFds (closedFd e) = ownFds [e] := by
  by_cases ht : e.1.type = .external
  · simp [closedFd, ownFds, closedFds, ht]
  · simp [closedFd, ownFds, closedFds, ht]

/-- The type and the descriptor of each connection. -/
def View.kinds (v : View) : List (IpcConnectionType × Fd) :=
  v.conns.map fun e => (e.1.type, e.2.fd)

/-- The first `n` connections of `v` are closed: nothing waits for them any more. -/
structure ClosedUpTo (v : View) (n : Nat) (io : List Io) (w : View) : Prop where
  kept : w.kinds = v.kinds
  tx : w.tx.Perm (v.tx.filter fun m => m.fd ∉ v.fds.take n)
  steps : QueueSteps IpcMessage.fd v.tx (queueEvents io) w.tx
  drops : Drops (queueEvents io)
  closed : closedFds io = ownFds (v.conns.take n)
  silent : transmissions io = []

section
variable {v w : View} {n : Nat} {io : List Io}

theorem ownFds_take_succ (hkept : w.kinds = v.kinds) {e : IpcConnectionInfo × PollFd}
    (hget : w.conns[n]? = some e) :
    ownFds (v.conns.take (n + 1)) = ownFds (v.conns.take n) ++ ownFds [e] := by
  have hentry : v.kinds[n]? = some (e.1.type, e.2.fd) := by
    rw [← hkept, View.kinds, List.getElem?_map, hget]
    rfl
  rw [View.kinds, List.getElem?_map, Option.map_eq_some_iff] at hentry
  obtain ⟨e', hget', heq⟩ := hentry
  rw [Prod.mk.injEq] at heq
  have hown : ownFds [e'] = ownFds [e] := by
    by_cases ht : e.1.type = .external
    · simp [ownFds, heq.1, ht]
    · simp [ownFds, heq.1, heq.2, ht]
  rw [List.take_add_one, hget', ← hown]
  simp [ownFds]

theorem fds_of_kinds (hkept : w.kinds = v.kinds) : w.fds = v.fds := by
  have hsnd := congrArg (List.map Prod.snd) hkept
  simpa [View.kinds, View.fds, Function.comp_def] using hsnd

/-- Replacing an entry by one of the same type on the same descriptor. -/
theorem kinds_set {i : Nat} {e x : IpcConnectionInfo × PollFd} (hget : v.conns[i]? = some e)
    (hx : (x.1.type, x.2.fd) = (e.1.type, e.2.fd)) :
    (v.conns.set i x).map (fun e => (e.1.type, e.2.fd)) = v.kinds := by
  obtain ⟨hlt, -⟩ := List.getElem?_eq_some_iff.mp hget
  refine List.ext_getElem? ?_
  intro j
  rw [View.kinds, List.getElem?_map, List.getElem?_map, List.getElem?_set]
  by_cases hj : i = j
  · subst hj
    rw [if_pos rfl, if_pos hlt, hget, Option.map_some, Option.map_some, hx]
  · rw [if_neg hj]

theorem ClosedAt.kinds {i : Nat} {e : IpcConnectionInfo × PollFd}
    {es : List (QueueEvent IpcMessage)} (hget : v.conns[i]? = some e) (h : ClosedAt v i e es w) :
    w.kinds = v.kinds := by
  obtain ⟨path, hconns⟩ := h.conns
  rw [View.kinds, hconns]
  exact kinds_set hget rfl

/-- One more connection is closed. -/
theorem ClosedUpTo.succ (h : ClosedUpTo v n io w) {e : IpcConnectionInfo × PollFd}
    (hget : w.conns[n]? = some e) {es : List (QueueEvent IpcMessage)} {w' : View}
    (hdrops : Drops es) (hclosed : ClosedAt w n e es w') :
    ClosedUpTo v (n + 1) (io ++ (closedFd e ++ es.map .queue)) w' where
  kept := (hclosed.kinds hget).trans h.kept
  tx := by
    have hfds := fds_of_kinds h.kept
    have hfd : v.fds[n]? = some e.2.fd := by
      rw [← hfds, View.fds, List.getElem?_map, hget]
      rfl
    refine hclosed.tx.trans ?_
    have hfilter := h.tx.filter fun m => m.fd ≠ e.2.fd
    rw [List.filter_filter] at hfilter
    refine hfilter.trans ?_
    rw [List.take_add_one, hfd]
    refine List.Perm.of_eq (List.filter_congr ?_)
    intro m _
    simp only [Option.toList_some, List.mem_append, List.mem_singleton]
    rw [Bool.eq_iff_iff]
    simp only [Bool.and_eq_true, decide_eq_true_eq]
    tauto
  steps := by
    rw [queueEvents_append, queueEvents_append, queueEvents_closedFd, queueEvents_map_queue]
    exact h.steps.append hclosed.steps
  drops := by
    rw [queueEvents_append, queueEvents_append, queueEvents_closedFd, queueEvents_map_queue]
    exact h.drops.append hdrops
  closed := by
    rw [closedFds_append, closedFds_append, closedFds_closedFd, closedFds_map_queue, h.closed,
      List.append_nil, ownFds_take_succ h.kept hget]
  silent := by
    rw [transmissions_append, transmissions_append, h.silent, transmissions_closedFd,
      transmissions_map_queue]
    rfl

/-- The loop of `ipc_close_all`, up to index `n`. -/
theorem closeLoop_closedUpTo (sys : Nat → CloseSys) (hn : n ≤ v.conns.length) :
    ∃ w io, (List.range n).foldlM
        (fun (s : IpcCtx × List Io) i => do
          let (_, ctx, io) ← ipcClose s.1 i (sys i)
          return (ctx, s.2 ++ io))
        (.ofView v, []) = some (.ofView w, io) ∧ ClosedUpTo v n io w := by
  induction n with
  | zero =>
    refine ⟨v, [], rfl, rfl, ?_, .nil _, ?_, rfl, rfl⟩
    · simp
    · intro e he
      cases he
  | succ n ih =>
    obtain ⟨w, io, hloop, hclosed⟩ := ih (by omega)
    have hlen : w.conns.length = v.conns.length := by
      simpa [View.kinds] using congrArg List.length hclosed.kept
    have hget : w.conns[n]? = some w.conns[n] := List.getElem?_eq_getElem (by omega)
    obtain ⟨r, w', es, hclose, hone⟩ := ipcClose_ofView hget (sys n)
    have hdrops := ipcClose_drops hclose
    rw [queueEvents_append, queueEvents_closedFd, queueEvents_map_queue] at hdrops
    refine ⟨w', _, ?_, hclosed.succ hget hdrops hone⟩
    rw [List.range_succ, List.foldlM_append, hloop]
    simp only [Option.bind_eq_bind, Option.bind_some, List.foldlM_cons, List.foldlM_nil]
    rw [hclose]
    rfl

/-- Every message waits for a connection that is closed. -/
theorem ClosedUpTo.tx_eq_nil (hv : v.Tracked) (h : ClosedUpTo v v.conns.length io w) :
    w.tx = [] := by
  have hall : v.fds.take v.conns.length = v.fds := by
    rw [List.take_of_length_le]
    simp [View.fds]
  have hnil : (v.tx.filter fun m => m.fd ∉ v.fds.take v.conns.length) = [] := by
    rw [hall, List.filter_eq_nil_iff]
    intro m hm
    simpa using View.tracked_iff.mp hv m hm
  exact List.perm_nil.mp (hnil ▸ h.tx)

end

end LibIpc.C

import LibIpc.C.Refinement

/-!
# The representation invariant of the context

`WellFormed` is stated on the fields of `struct ipc_ctx`. It holds of the context of every view
whose messages are for tracked descriptors; such views are what every call ends in
(`step_refines`), so it holds of every reachable context.
-/

namespace LibIpc.C

open Lib

/-- The representation invariant: each array is `NULL` exactly when its size is zero, and every
message to send is for a descriptor of `pollfd`. -/
structure IpcCtx.WellFormed (ctx : IpcCtx) : Prop where
  cinfos_null : ctx.cinfos = none ↔ ctx.size = 0
  pollfd_null : ctx.pollfd = none ↔ ctx.size = 0
  messages_null : ctx.tx.messages = none ↔ ctx.tx.size = 0
  collection_null : ctx.switchdb.collection = none ↔ ctx.switchdb.size = 0
  tracked : ∀ j < ctx.tx.size, ∃ m ∈ (ctx.tx.messages.getD [])[j]?,
    ∃ i < ctx.size, ∃ p ∈ (ctx.pollfd.getD [])[i]?, p.fd = m.fd

theorem wellFormed_ofView {v : View} (h : v.Tracked) : (IpcCtx.ofView v).WellFormed where
  cinfos_null := by simp [IpcCtx.ofView, Ptr.ofList_eq_none_iff]
  pollfd_null := by simp [IpcCtx.ofView, Ptr.ofList_eq_none_iff]
  messages_null := by simp [IpcCtx.ofView, IpcMessages.ofList, Ptr.ofList_eq_none_iff]
  collection_null := by simp [IpcCtx.ofView, IpcSwitchings.ofList, Ptr.ofList_eq_none_iff]
  tracked := by
    intro j hj
    have hj' : j < v.tx.length := hj
    obtain ⟨e, he, hfd⟩ := h v.tx[j] (List.getElem_mem hj')
    obtain ⟨i, hi, rfl⟩ := List.getElem_of_mem he
    refine ⟨v.tx[j], ?_, i, hi, v.conns[i].2, ?_, hfd⟩
    · simp [IpcCtx.ofView, IpcMessages.ofList]
    · simp [IpcCtx.ofView, hi]

/-- Every reachable context is the context of a view. -/
theorem ReachableCtx.exists_view {ctx : IpcCtx} (h : ReachableCtx ctx) :
    ∃ v : View, ctx = .ofView v ∧ v.Tracked := by
  refine Reachable.invariant (P := fun ctx => ∃ v : View, ctx = .ofView v ∧ v.Tracked) ?_ ?_ h
  · rintro ctx c ctx' io ⟨v, rfl, htracked⟩ hstep
    obtain ⟨v', hctx', hrefines⟩ := step_refines htracked hstep
    exact ⟨v', hctx', hrefines.tracked⟩
  · exact ⟨{}, rfl, by simp [View.Tracked]⟩

/-- Every size is zero and every pointer `NULL`. -/
structure IpcCtx.Zeroed (ctx : IpcCtx) : Prop where
  sizes : ctx.size = 0 ∧ ctx.tx.size = 0 ∧ ctx.switchdb.size = 0
  pointers : ctx.cinfos = none ∧ ctx.pollfd = none ∧ ctx.tx.messages = none ∧
    ctx.switchdb.collection = none

theorem IpcCtx.Zeroed.eq_empty {ctx : IpcCtx} (h : ctx.Zeroed) : ctx = {} := by
  obtain ⟨cinfos, pollfd, size, ⟨messages, txSize⟩, ⟨collection, switchdbSize⟩⟩ := ctx
  obtain ⟨⟨hsize, htx, hswitchdb⟩, hcinfos, hpollfd, hmessages, hcollection⟩ := h
  simp only at hsize htx hswitchdb hcinfos hpollfd hmessages hcollection
  subst hsize htx hswitchdb hcinfos hpollfd hmessages hcollection
  rfl

theorem zeroed_ipcCtxFree_iff (ctx : IpcCtx) : (ipcCtxFree ctx).Zeroed ↔ ctx.tx.size = 0 := by
  constructor
  · intro h
    exact h.sizes.2.1
  · intro h
    exact ⟨⟨rfl, h, rfl⟩, rfl, rfl, rfl, rfl⟩

/-- Messages that are counted but not there are read as soon as there is a connection. -/
theorem ipcWaitEvent_ipcCtxFree {ctx : IpcCtx} (h : ctx.tx.size ≠ 0) :
    runAll step (ipcCtxFree ctx) [.addFd 5, .waitEvent 0 { poll := none }] = none := by
  have hblock : Ptr.block (ipcAddFd (ipcCtxFree ctx) 5).tx.messages
      (ipcAddFd (ipcCtxFree ctx) 5).tx.size = none := by
    have hlt : ¬ ctx.tx.size ≤ 0 := by omega
    exact if_neg hlt
  have hwait : ipcWaitEvent (ipcAddFd (ipcCtxFree ctx) 5) 0 { poll := none } = none := by
    simp only [ipcWaitEvent, hblock, Option.bind_eq_bind, Option.bind_none, Option.bind_fun_none]
  simp only [runAll, step, hwait, Option.bind_some, Option.bind_none, Option.map_none]

/-- **Freeing**: `ipc_ctx_free` leaves a zeroed context, and every further sequence of calls behaves as
on one, exactly when no message was queued. -/
theorem freed_iff (ctx : IpcCtx) :
    ((ipcCtxFree ctx).Zeroed ↔ ctx.tx.size = 0) ∧
      ((∀ cs, runAll step (ipcCtxFree ctx) cs = runAll step {} cs) ↔ ctx.tx.size = 0) := by
  refine ⟨zeroed_ipcCtxFree_iff ctx, ?_⟩
  constructor
  · intro h
    by_contra hsize
    have hnone := ipcWaitEvent_ipcCtxFree hsize
    rw [h] at hnone
    revert hnone
    decide
  · intro h cs
    rw [((zeroed_ipcCtxFree_iff ctx).mpr h).eq_empty]

/-- One message is queued when the context is freed: the next wait reads it through `NULL`. -/
theorem not_freed_one_message :
    ∃ ctx, ReachableCtx ctx ∧ ¬ (ipcCtxFree ctx).Zeroed ∧
      ¬ ∀ cs, runAll step (ipcCtxFree ctx) cs = runAll step {} cs := by
  refine ⟨_, ⟨[.connection 0 (.ok 5), .write (.ofPayload 1 0 5 [104, 105])], _, rfl⟩, ?_, ?_⟩
  · intro h
    exact absurd h.sizes.2.1 (by decide)
  · intro h
    have hsame := h [.addFd 5, .waitEvent 0 { poll := none }]
    rw [ipcWaitEvent_ipcCtxFree (by decide)] at hsame
    revert hsame
    decide

end LibIpc.C

import LibIpc.C.Communication

/-!
# The context as three lists

`View` is what a context is for: a list of connections, a list of messages to send, a list of
pairs. `IpcCtx.ofView` lays a view out as the C structures: parallel arrays behind pointers that
are `NULL` exactly when the array is empty. The lemmas here say what the array operations do to a
laid-out view; the proofs above them never look at pointers again.
-/

namespace LibIpc.C

open Lib

/-! ## Views -/

/-- The contents of a context. -/
structure View where
  conns : List (IpcConnectionInfo × PollFd) := []
  tx : List IpcMessage := []
  switchdb : List IpcSwitching := []

/-- The well-formed switching table of these records. -/
def IpcSwitchings.ofList (l : List IpcSwitching) : IpcSwitchings :=
  { collection := Ptr.ofList l, size := l.length }

/-- The context that holds these contents. -/
def IpcCtx.ofView (v : View) : IpcCtx :=
  { cinfos := Ptr.ofList (v.conns.map Prod.fst)
    pollfd := Ptr.ofList (v.conns.map Prod.snd)
    size := v.conns.length
    tx := .ofList v.tx
    switchdb := .ofList v.switchdb }

/-- Every message to send is for a tracked descriptor. -/
def View.Tracked (v : View) : Prop := ∀ m ∈ v.tx, ∃ e ∈ v.conns, e.2.fd = m.fd

/-- The descriptors of the connections, with repetitions. -/
def View.fds (v : View) : List Fd := v.conns.map fun e => e.2.fd

theorem View.tracked_iff {v : View} : v.Tracked ↔ ∀ m ∈ v.tx, m.fd ∈ v.fds := by
  simp [View.Tracked, View.fds]

theorem View.tracked_congr {v v' : View} (hfds : ∀ fd ∈ v.fds, fd ∈ v'.fds)
    (htx : ∀ m ∈ v'.tx, m ∈ v.tx) (h : v.Tracked) : v'.Tracked :=
  View.tracked_iff.mpr fun m hm => hfds m.fd (View.tracked_iff.mp h m (htx m hm))

@[simp] theorem ofView_size (v : View) : (IpcCtx.ofView v).size = v.conns.length := rfl

@[simp] theorem ofView_tx (v : View) : (IpcCtx.ofView v).tx = .ofList v.tx := rfl

@[simp] theorem ofView_switchdb (v : View) :
    (IpcCtx.ofView v).switchdb = .ofList v.switchdb := rfl

theorem block_cinfos (v : View) :
    (IpcCtx.ofView v).cinfos.block (IpcCtx.ofView v).size = some (v.conns.map Prod.fst) := by
  have hblock := Ptr.block_ofList (v.conns.map Prod.fst)
  rw [List.length_map] at hblock
  exact hblock

theorem block_pollfd (v : View) :
    (IpcCtx.ofView v).pollfd.block (IpcCtx.ofView v).size = some (v.conns.map Prod.snd) := by
  have hblock := Ptr.block_ofList (v.conns.map Prod.snd)
  rw [List.length_map] at hblock
  exact hblock

@[simp] theorem entries_ofView (v : View) : (IpcCtx.ofView v).entries = some v.conns := by
  simp only [IpcCtx.entries, block_cinfos, block_pollfd, Option.bind_eq_bind, Option.bind_some,
    Option.pure_def, Option.some.injEq]
  exact (List.zip_of_prod rfl rfl).symm

/-- Storing as many entries as there are changes the view, not its layout. -/
theorem setEntries_ofView {v : View} {es : List (IpcConnectionInfo × PollFd)}
    (h : es.length = v.conns.length) :
    (IpcCtx.ofView v).setEntries es = .ofView { v with conns := es } := by
  cases hv : v.conns with
  | nil =>
    rw [hv] at h
    obtain rfl : es = [] := List.eq_nil_of_length_eq_zero h
    simp [IpcCtx.setEntries, IpcCtx.ofView, hv]
  | cons c cs =>
    rw [hv] at h
    have hes : es ≠ [] := by rintro rfl; simp at h
    simp only [IpcCtx.setEntries, IpcCtx.ofView, hv, h]
    simp [Ptr.ofList, hes]

/-! ## Allocation -/

section
variable {ctx : IpcCtx} {cinfos : List IpcConnectionInfo} {pollfds : List PollFd}

theorem ipcCtxNewAlloc_eq (hc : ctx.cinfos.block ctx.size = some cinfos)
    (hp : ctx.pollfd.block ctx.size = some pollfds) :
    ipcCtxNewAlloc ctx =
      { ctx with
        cinfos := some (cinfos ++ [default])
        pollfd := some (pollfds ++ [default])
        size := ctx.size + 1 } := by
  have hc' := Ptr.set_realloc_succ hc default
  have hp' := Ptr.set_realloc_succ hp default
  by_cases hfirst : ctx.size + 1 = 1 ∧ ctx.cinfos.isNone ∧ ctx.pollfd.isNone
  · obtain ⟨h0, hcnone, hpnone⟩ := hfirst
    rw [Option.isNone_iff_eq_none] at hcnone hpnone
    rw [Nat.add_eq_right] at h0
    obtain rfl := List.eq_nil_of_length_eq_zero ((Ptr.length_of_block hc).trans h0)
    obtain rfl := List.eq_nil_of_length_eq_zero ((Ptr.length_of_block hp).trans h0)
    simp [ipcCtxNewAlloc, hcnone, hpnone, h0]
  · simp only [ipcCtxNewAlloc, if_neg hfirst, Nat.add_sub_cancel, hc', hp']

theorem ipcAdd_eq (hc : ctx.cinfos.block ctx.size = some cinfos)
    (hp : ctx.pollfd.block ctx.size = some pollfds) (p : IpcConnectionInfo) (pollfd : PollFd) :
    ipcAdd ctx p pollfd =
      { ctx with
        cinfos := some (cinfos ++ [p])
        pollfd := some (pollfds ++ [pollfd])
        size := ctx.size + 1 } := by
  have hclen := Ptr.length_of_block hc
  have hplen := Ptr.length_of_block hp
  have hc' : (cinfos ++ [default]).set ctx.size p = cinfos ++ [p] := by simp [← hclen]
  have hp' : (pollfds ++ [default]).set ctx.size pollfd = pollfds ++ [pollfd] := by simp [← hplen]
  simp only [ipcAdd, ipcCtxNewAlloc_eq hc hp, Nat.add_sub_cancel, Option.map_some, hc', hp']

end

theorem ipcCtxNewAlloc_ofView (v : View) :
    ipcCtxNewAlloc (.ofView v) = .ofView { v with conns := v.conns ++ [(default, default)] } := by
  rw [ipcCtxNewAlloc_eq (block_cinfos v) (block_pollfd v)]
  simp [IpcCtx.ofView, Ptr.ofList]

theorem ipcAdd_ofView (v : View) (p : IpcConnectionInfo) (pollfd : PollFd) :
    ipcAdd (.ofView v) p pollfd = .ofView { v with conns := v.conns ++ [(p, pollfd)] } := by
  rw [ipcAdd_eq (block_cinfos v) (block_pollfd v)]
  simp [IpcCtx.ofView, Ptr.ofList]

/-! ## The switching table -/

theorem block_switchings (l : List IpcSwitching) :
    (IpcSwitchings.ofList l).collection.block (IpcSwitchings.ofList l).size = some l :=
  Ptr.block_ofList l

theorem ipcSwitchingAdd_eq {sw : IpcSwitchings} {l : List IpcSwitching}
    (h : sw.collection.block sw.size = some l) (orig dest : Fd) :
    ipcSwitchingAdd sw orig dest =
      { collection := some (l ++ [{ orig := orig, dest := dest }]), size := sw.size + 1 } := by
  have hset := Ptr.set_realloc_succ h ({ orig := orig, dest := dest } : IpcSwitching)
  have hblock : (if sw.collection.isNone then List.replicate (sw.size + 1) default
      else Ptr.realloc sw.collection (sw.size + 1)) = Ptr.realloc sw.collection (sw.size + 1) := by
    split
    · rename_i hnone
      rw [Option.isNone_iff_eq_none] at hnone
      simp [hnone, Ptr.realloc]
    · rfl
  simp only [ipcSwitchingAdd, hblock, hset]

theorem ipcSwitchingAdd_ofList (l : List IpcSwitching) (orig dest : Fd) :
    ipcSwitchingAdd (.ofList l) orig dest = .ofList (l ++ [{ orig := orig, dest := dest }]) := by
  rw [ipcSwitchingAdd_eq (block_switchings l)]
  simp [IpcSwitchings.ofList, Ptr.ofList]

theorem ipcSwitchingCallbacks_ofList {l : List IpcSwitching} {fd : Fd} {a b : Option Callback}
    {sw : IpcSwitchings} (h : ipcSwitchingCallbacks (.ofList l) fd a b = some sw) :
    ∃ l', sw = .ofList l' := by
  simp only [ipcSwitchingCallbacks, block_switchings, Option.bind_eq_bind, Option.bind_some] at h
  split at h
  · simp only [Option.pure_def, Option.some.injEq] at h
    exact ⟨l, h.symm⟩
  · next i hi =>
    simp only [Option.bind_eq_some_iff, Option.pure_def, Option.some.injEq] at h
    obtain ⟨s, hs, rfl⟩ := h
    have hne : l ≠ [] := by rintro rfl; simp at hs
    refine ⟨l.set i (if s.orig = fd then { s with origIn := a, origOut := b }
      else { s with destIn := a, destOut := b }), ?_⟩
    simp [IpcSwitchings.ofList, Ptr.ofList, hne]

/-! ## Dropping messages -/

theorem ofList_set_messages {l : List IpcMessage} {i : Nat} {m : IpcMessage}
    (h : i < l.length) :
    ({ messages := some (l.set i m), size := l.length } : IpcMessages) = .ofList (l.set i m) := by
  have hne : l.set i m ≠ [] := by
    rw [ne_eq, List.set_eq_nil_iff]
    rintro rfl
    simp at h
  simp [IpcMessages.ofList, Ptr.ofList, hne]

/-- The removal loop, on a well-formed queue, is the loop of `Lib.SwapQueue`. -/
theorem removeMessagesLoop_ofList (fd : Fd) {n i : Nat} {l : List IpcMessage}
    (hn : i + n = l.length) :
    removeMessagesLoop fd n (.ofList l) i =
      some (.ofList (dropAll IpcMessage.fd fd n l i).1,
        (dropAll IpcMessage.fd fd n l i).2.map .queue) := by
  induction n generalizing i l with
  | zero => rfl
  | succ n ih =>
    have hi : i < l.length := by omega
    simp only [removeMessagesLoop, dropAll, IpcMessages.ofList_size, IpcMessages.block_ofList,
      Option.bind_eq_bind, Option.bind_some, List.getElem?_eq_getElem hi]
    by_cases hfd : l[i].fd = fd
    · have hdel := ipcMessagesDel_ofList (l := l.set i (ipcMessageEmpty l[i])) (i := i)
        (by simpa using hi)
      rw [swapRemove_set _ _ _ hi] at hdel
      have hrest := ih (l := swapRemove l i) (i := i) (by rw [length_swapRemove]; omega)
      simp only [if_pos hfd, ofList_set_messages hi, hdel, Option.bind_some, hrest]
      rfl
    · simp only [if_neg hfd]
      exact ih (by omega)

theorem queueEvents_map_queue (es : List (QueueEvent IpcMessage)) :
    queueEvents (es.map .queue) = es := by
  simp [queueEvents, List.filterMap_map]

theorem ipcRemoveMessagesForFd_ofView (v : View) (fd : Fd) :
    ∃ tx es, ipcRemoveMessagesForFd (.ofView v) fd =
        some (.ofView { v with tx := tx }, es.map .queue) ∧
      QueueSteps IpcMessage.fd v.tx es tx ∧ tx.Perm (v.tx.filter fun m => m.fd ≠ fd) := by
  obtain ⟨hsteps, hperm⟩ := dropAll_from_zero IpcMessage.fd fd v.tx
  refine ⟨_, _, ?_, hsteps, hperm⟩
  simp only [ipcRemoveMessagesForFd, ofView_tx, IpcMessages.ofList_size,
    removeMessagesLoop_ofList fd (Nat.zero_add v.tx.length), Option.bind_eq_bind,
    Option.bind_some, Option.pure_def]
  rfl

end LibIpc.C

import LibIpc.C.View

/-!
# What the calls of the C library do to a view

One lemma per operation that deletes, closes, queues or searches: on the context of a view it
always returns, and leaves the context of the view described here. `Handling` lists what
`ipc_wait_event` can do to the entry it stops at; what holds of each of its cases holds of the
event loop.
-/

namespace LibIpc.C

open Lib

/-! ## Connections without their flags -/

/-- The connections: what is known of each, and its descriptor. The flags `poll(2)` reads and
writes are left out. -/
def View.info (v : View) : List (IpcConnectionInfo × Fd) := v.conns.map fun e => (e.1, e.2.fd)

theorem View.fds_eq (v : View) : v.fds = v.info.map Prod.snd := by
  simp [View.fds, View.info]

theorem View.info_getElem? {v : View} {i : Nat} {e : IpcConnectionInfo × PollFd}
    (h : v.conns[i]? = some e) : v.info[i]? = some (e.1, e.2.fd) := by
  simp [View.info, h]

/-- `w` is `v` up to the flags. -/
structure View.Same (v w : View) : Prop where
  info : w.info = v.info
  tx : w.tx = v.tx
  switchdb : w.switchdb = v.switchdb

theorem View.Same.fds {v w : View} (h : v.Same w) : w.fds = v.fds := by
  rw [View.fds_eq, View.fds_eq, h.info]

theorem View.Same.tracked {v w : View} (h : v.Same w) (hv : v.Tracked) : w.Tracked := by
  rw [View.tracked_iff] at hv ⊢
  rwa [h.fds, h.tx]

/-- The descriptors do not change when an entry is replaced by one with the same descriptor. -/
theorem map_fd_set {es : List (IpcConnectionInfo × PollFd)} {i : Nat}
    {e e' : IpcConnectionInfo × PollFd} (h : es[i]? = some e) (hfd : e'.2.fd = e.2.fd) :
    ((es.set i e').map fun e => e.2.fd) = es.map fun e => e.2.fd := by
  obtain ⟨hlt, rfl⟩ := List.getElem?_eq_some_iff.mp h
  have hmap : i < (es.map fun e => e.2.fd).length := by simpa using hlt
  rw [List.map_set, hfd]
  simpa using List.set_getElem_self hmap

/-- Entry `i` with another `more_to_read` and other flags. -/
def View.touch (v : View) (i : Nat) (e : IpcConnectionInfo × PollFd) (more : Int) (p : PollFd) :
    View :=
  { v with conns := v.conns.set i ({ e.1 with moreToRead := more }, p) }

section Touch
variable {v : View} {i : Nat} {e : IpcConnectionInfo × PollFd} {more : Int} {p : PollFd}

theorem info_touch (hp : p.fd = e.2.fd) :
    (v.touch i e more p).info = v.info.set i ({ e.1 with moreToRead := more }, e.2.fd) := by
  simp [View.info, View.touch, List.map_set, hp]

theorem fds_touch (hget : v.conns[i]? = some e) (more : Int) (hp : p.fd = e.2.fd) :
    (v.touch i e more p).fds = v.fds :=
  map_fd_set hget hp

theorem tracked_touch (hget : v.conns[i]? = some e) (more : Int) (hp : p.fd = e.2.fd)
    (hv : v.Tracked) :
    (v.touch i e more p).Tracked := by
  rw [View.tracked_iff] at hv ⊢
  rw [fds_touch hget more hp]
  exact hv

theorem setEntries_touch :
    (IpcCtx.ofView v).setEntries (v.conns.set i ({ e.1 with moreToRead := more }, p)) =
      .ofView (v.touch i e more p) :=
  setEntries_ofView (by simp)

end Touch

/-! ## Deleting a connection -/

/-- The connection at `i`, on `fd`, is gone with its messages; the switching table goes with the
last connection. -/
structure Deleted (v : View) (i : Nat) (fd : Fd) (es : List (QueueEvent IpcMessage)) (w : View) :
    Prop where
  conns : w.conns = swapRemove v.conns i
  steps : QueueSteps IpcMessage.fd v.tx es w.tx
  tx : w.tx.Perm (v.tx.filter fun m => m.fd ≠ fd)
  switchdb : w.switchdb = if w.conns = [] then [] else v.switchdb

theorem isNone_ofView (v : View) :
    ((IpcCtx.ofView v).cinfos.isNone ∨ (IpcCtx.ofView v).pollfd.isNone) ↔ v.conns = [] := by
  simp [IpcCtx.ofView, Ptr.ofList]

/-- With its only connection, the context loses every message: `ipc_ctx_free` is applied to an
empty queue. -/
theorem ipcCtxFree_ofView {v : View} (h : v.tx = []) (n : Nat) :
    ipcCtxFree { IpcCtx.ofView v with size := n } = .ofView {} := by
  simp [ipcCtxFree, ipcSwitchingFree, ipcMessagesFree, IpcCtx.ofView, h, IpcMessages.ofList,
    IpcSwitchings.ofList]

/-- Every message is for the only connection there is. -/
theorem tx_filter_eq_nil {v : View} (h : v.Tracked) {index : Nat}
    {e : IpcConnectionInfo × PollFd} (hget : v.conns[index]? = some e)
    (hsize : v.conns.length - 1 = 0) : (v.tx.filter fun m => m.fd ≠ e.2.fd) = [] := by
  obtain ⟨hlt, he⟩ := List.getElem?_eq_some_iff.mp hget
  obtain ⟨c, hc⟩ := List.length_eq_one_iff.mp (by omega : v.conns.length = 1)
  have hall : ∀ m ∈ v.tx, m.fd = e.2.fd := by
    intro m hm
    obtain ⟨e', he', hfd⟩ := h m hm
    have hi : index = 0 := by omega
    simp [hc, hi] at hget he'
    rw [← hfd, he', hget]
  simpa [List.filter_eq_nil_iff] using hall

/-- The arrays once the last entry has been moved to `index` and both have been shrunk. -/
theorem ofView_swapRemove {v : View} (index : Nat) {last : IpcConnectionInfo × PollFd}
    (hlast : v.conns[v.conns.length - 1]? = some last) (hsize : ¬ v.conns.length - 1 = 0) :
    { IpcCtx.ofView v with
      cinfos := some (Ptr.realloc (some ((v.conns.set index last).map Prod.fst))
        (v.conns.length - 1))
      pollfd := some (Ptr.realloc (some ((v.conns.set index last).map Prod.snd))
        (v.conns.length - 1))
      size := v.conns.length - 1 } =
        IpcCtx.ofView { v with conns := swapRemove v.conns index } := by
  have hr₁ := Ptr.realloc_some_pred ((v.conns.set index last).map Prod.fst)
  have hr₂ := Ptr.realloc_some_pred ((v.conns.set index last).map Prod.snd)
  simp only [List.length_map, List.length_set] at hr₁ hr₂
  have hswap : (v.conns.set index last).dropLast = swapRemove v.conns index := by
    rw [swapRemove, List.getLast?_eq_getElem?, hlast]
  have hne : swapRemove v.conns index ≠ [] := by
    rw [← List.length_pos_iff, length_swapRemove]
    omega
  rw [hr₁, hr₂, ← List.map_dropLast, ← List.map_dropLast, hswap]
  simp [IpcCtx.ofView, Ptr.ofList, hne]

/-- `ipc_del` of a connection: its messages go, then its entry. -/
theorem ipcDel_ofView {v : View} (h : v.Tracked) {index : Nat}
    {e : IpcConnectionInfo × PollFd} (hget : v.conns[index]? = some e) :
    ∃ w es, ipcDel (.ofView v) index = some (.none, .ofView w, es.map .queue) ∧
      Deleted v index e.2.fd es w := by
  obtain ⟨hlt, he⟩ := List.getElem?_eq_some_iff.mp hget
  have hne : ¬ ((IpcCtx.ofView v).cinfos.isNone ∨ (IpcCtx.ofView v).pollfd.isNone) := by
    rw [isNone_ofView]
    rintro hnil
    simp [hnil] at hlt
  obtain ⟨cinfo, pollfd⟩ := e
  have hes := swapRemove_set v.conns index ({ cinfo with spath := none }, pollfd) hlt
  have hlen : (v.conns.set index ({ cinfo with spath := none }, pollfd)).length = v.conns.length :=
    List.length_set
  simp only [ipcDel, if_neg hne, ofView_size, if_neg (Nat.not_le.mpr hlt), entries_ofView,
    Option.bind_eq_bind, Option.bind_some, hget]
  rw [setEntries_ofView hlen]
  generalize v.conns.set index ({ cinfo with spath := none }, pollfd) = conns at hes hlen
  obtain ⟨tx, es, hrem, hsteps, hperm⟩ :=
    ipcRemoveMessagesForFd_ofView { v with conns := conns } pollfd.fd
  simp only [hrem, Option.bind_some, ofView_size, hlen]
  -- The last connection: the whole context is freed, `tx` and the switching table included.
  by_cases hsize : v.conns.length - 1 = 0
  · have htx : tx = [] := by
      have hnil := tx_filter_eq_nil h hget hsize
      exact List.perm_nil.mp (hperm.trans (by rw [hnil]))
    have hconns : swapRemove v.conns index = [] := by
      apply List.eq_nil_of_length_eq_zero
      rw [length_swapRemove, hsize]
    rw [if_pos hsize, ipcCtxFree_ofView htx]
    exact ⟨{}, es, rfl, hconns.symm, htx ▸ hsteps, htx ▸ hperm, by simp⟩
  · obtain ⟨last, hlast⟩ : ∃ last, conns[conns.length - 1]? = some last :=
      ⟨_, List.getElem?_eq_getElem (by omega)⟩
    have hshrunk := ofView_swapRemove (v := { v with conns := conns, tx := tx }) index hlast
      (by rwa [hlen])
    simp only [hlen, hes] at hlast hshrunk
    rw [if_neg hsize, hlast]
    refine ⟨{ v with conns := swapRemove v.conns index, tx := tx }, es, ?_, rfl, hsteps, hperm, ?_⟩
    · exact congrArg (fun ctx => some (IpcErrorCode.none, ctx, es.map Io.queue)) hshrunk
    · have hleft : swapRemove v.conns index ≠ [] := by
        rw [← List.length_pos_iff, length_swapRemove]
        omega
      rw [if_neg hleft]

/-- The first connection on `fd`, if any, is gone with its messages. -/
structure DeletedFd (v : View) (fd : Fd) (es : List (QueueEvent IpcMessage)) (w : View) : Prop where
  conns : w.conns.Perm (v.conns.eraseP fun e => e.2.fd = fd)
  steps : QueueSteps IpcMessage.fd v.tx es w.tx
  tx : w.tx.Perm (v.tx.filter fun m => m.fd ≠ fd)
  switchdb : w.switchdb = if w.conns = [] ∧ v.conns ≠ [] then [] else v.switchdb

theorem perm_eraseP_swapRemove {α : Type} {p : α → Bool} {l : List α} {i : Nat}
    (h : l.findIdx? p = some i) : (swapRemove l i).Perm (l.eraseP p) := by
  obtain ⟨hlt, -, -⟩ := List.findIdx?_eq_some_iff_getElem.mp h
  have hswap := perm_cons_swapRemove hlt
  have herase := List.getElem_cons_eraseIdx_perm hlt
  rw [List.eraseP_eq_eraseIdx, h]
  exact (hswap.symm.trans herase.symm).cons_inv

/-- `ipc_del_fd` always returns. -/
theorem ipcDelFd_ofView {v : View} (h : v.Tracked) (fd : Fd) :
    ∃ r w es, ipcDelFd (.ofView v) fd = some (r, .ofView w, es.map .queue) ∧
      DeletedFd v fd es w := by
  by_cases hfd : fd ∈ v.fds
  · have hne : ¬ v.conns = [] := by
      rintro hnil
      simp [View.fds, hnil] at hfd
    -- Only the first entry with this descriptor is deleted, but all its messages are dropped.
    obtain ⟨i, hi⟩ : ∃ i, v.conns.findIdx? (fun e => e.2.fd = fd) = some i := by
      rw [← Option.isSome_iff_exists, List.findIdx?_isSome]
      simpa [View.fds] using hfd
    obtain ⟨hlt, hpred, -⟩ := List.findIdx?_eq_some_iff_getElem.mp hi
    obtain ⟨w, es, hdel, hdeleted⟩ := ipcDel_ofView h (List.getElem?_eq_getElem hlt)
    refine ⟨.none, w, es, ?_, ?_⟩
    · rw [ipcDelFd, if_neg (by rwa [isNone_ofView])]
      simp only [entries_ofView, Option.bind_eq_bind, Option.bind_some, hi]
      exact hdel
    · have heq : v.conns[i].2.fd = fd := by simpa using hpred
      refine ⟨?_, hdeleted.steps, heq ▸ hdeleted.tx, ?_⟩
      · rw [hdeleted.conns]
        exact perm_eraseP_swapRemove hi
      · rw [hdeleted.switchdb]
        simp [hne]
  · -- A message for an untracked descriptor would not be tracked.
    have hfilter : (v.tx.filter fun m => m.fd ≠ fd) = v.tx := by
      rw [List.filter_eq_self]
      intro m hm
      have hmem := View.tracked_iff.mp h m hm
      simp only [decide_eq_true_eq]
      rintro rfl
      exact hfd hmem
    have hnone : ∀ e ∈ v.conns, ¬ e.2.fd = fd := by simpa [View.fds] using hfd
    have hsame : DeletedFd v fd [] v := by
      refine ⟨?_, .nil _, by rw [hfilter], ?_⟩
      · rw [List.eraseP_of_forall_not (by simpa using hnone)]
      · rw [if_neg (by tauto)]
    by_cases hnil : v.conns = []
    · refine ⟨.delFdEmptyList, v, [], ?_, hsame⟩
      rw [ipcDelFd, if_pos (by rwa [isNone_ofView])]
      rfl
    · refine ⟨.delFdCannotFindClient, v, [], ?_, hsame⟩
      rw [ipcDelFd, if_neg (by rwa [isNone_ofView])]
      have hidx : v.conns.findIdx? (fun e => e.2.fd = fd) = none := by simpa using hnone
      simp only [entries_ofView, Option.bind_eq_bind, Option.bind_some, hidx]
      rfl

theorem DeletedFd.fds_perm {v w : View} {fd : Fd} {es : List (QueueEvent IpcMessage)}
    (h : DeletedFd v fd es w) : w.fds.Perm (v.fds.erase fd) := by
  have hmap := h.conns.map fun e => e.2.fd
  have herase : (v.conns.eraseP fun e => e.2.fd = fd).map (fun e => e.2.fd) = v.fds.erase fd := by
    rw [View.fds, List.erase_eq_eraseP, List.eraseP_map]
    congr 2
    funext e
    rw [Bool.eq_iff_iff, Function.comp_apply, beq_iff_eq, decide_eq_true_iff]
    exact eq_comm
  rwa [herase] at hmap

theorem DeletedFd.mem_fds {v w : View} {fd fd' : Fd} {es : List (QueueEvent IpcMessage)}
    (h : DeletedFd v fd es w) (hne : fd' ≠ fd) : fd' ∈ w.fds ↔ fd' ∈ v.fds := by
  rw [h.fds_perm.mem_iff]
  exact List.mem_erase_of_ne hne

/-- Deleting leaves no message without its connection. -/
theorem tracked_of_filter {v w : View} {fd : Fd} (h : v.Tracked)
    (htx : w.tx.Perm (v.tx.filter fun m => m.fd ≠ fd))
    (hfds : ∀ fd' ∈ v.fds, fd' ≠ fd → fd' ∈ w.fds) : w.Tracked := by
  rw [View.tracked_iff] at h ⊢
  intro m hm
  rw [htx.mem_iff, List.mem_filter] at hm
  exact hfds m.fd (h m hm.1) (by simpa using hm.2)

theorem DeletedFd.tracked {v w : View} {fd : Fd} {es : List (QueueEvent IpcMessage)}
    (h : DeletedFd v fd es w) (hv : v.Tracked) : w.Tracked :=
  tracked_of_filter hv h.tx fun _ hfd' hne => (h.mem_fds hne).mpr hfd'

/-- The entries left when the last one is moved into the place of a deleted one. -/
theorem mem_fds_swapRemove {es : List (IpcConnectionInfo × PollFd)} {i : Nat}
    {e : IpcConnectionInfo × PollFd} (hget : es[i]? = some e) {fd : Fd}
    (hfd : fd ∈ es.map fun e => e.2.fd) (hne : fd ≠ e.2.fd) :
    fd ∈ (swapRemove es i).map fun e => e.2.fd := by
  obtain ⟨hlt, rfl⟩ := List.getElem?_eq_some_iff.mp hget
  have hmem := ((perm_cons_swapRemove hlt).map fun e => e.2.fd).mem_iff.mp hfd
  exact (List.mem_cons.mp hmem).resolve_left hne

theorem Deleted.tracked {v w : View} {i : Nat} {e : IpcConnectionInfo × PollFd}
    {es : List (QueueEvent IpcMessage)} (hget : v.conns[i]? = some e)
    (h : Deleted v i e.2.fd es w) (hv : v.Tracked) : w.Tracked := by
  refine tracked_of_filter hv h.tx ?_
  intro fd hfd hne
  rw [View.fds, h.conns]
  exact mem_fds_swapRemove hget hfd hne

/-! ## Closing a connection -/

/-- The connection `e` at `i` is closed: its messages go, its entry stays (a server forgets the
path of its socket). -/
structure ClosedAt (v : View) (i : Nat) (e : IpcConnectionInfo × PollFd)
    (es : List (QueueEvent IpcMessage)) (w : View) : Prop where
  conns : ∃ path, w.conns = v.conns.set i ({ e.1 with spath := path }, e.2)
  steps : QueueSteps IpcMessage.fd v.tx es w.tx
  tx : w.tx.Perm (v.tx.filter fun m => m.fd ≠ e.2.fd)
  switchdb : w.switchdb = v.switchdb

/-- The descriptor `ipc_close` closes: an external one is left to the application. -/
def closedFd (e : IpcConnectionInfo × PollFd) : List Io :=
  if e.1.type = .external then [] else [.close e.2.fd]

/-- `ipc_close` of a connection always returns. -/
theorem ipcClose_ofView {v : View} {index : Nat} {e : IpcConnectionInfo × PollFd}
    (hget : v.conns[index]? = some e) (sys : CloseSys) :
    ∃ r w es, ipcClose (.ofView v) index sys =
        some (r, .ofView w, closedFd e ++ es.map .queue) ∧ ClosedAt v index e es w := by
  obtain ⟨cinfo, pollfd⟩ := e
  obtain ⟨hlt, he⟩ := List.getElem?_eq_some_iff.mp hget
  obtain ⟨tx, es, hrem, hsteps, hperm⟩ := ipcRemoveMessagesForFd_ofView v pollfd.fd
  have hkept : ClosedAt v index (cinfo, pollfd) es { v with tx := tx } :=
    ⟨⟨cinfo.spath, by rw [← he]; simp⟩, hsteps, hperm, rfl⟩
  simp only [ipcClose, entries_ofView, Option.bind_eq_bind, Option.bind_some, hget, hrem,
    Option.pure_def]
  split
  · exact ⟨_, _, es, rfl, hkept⟩
  · split
    · have hlen : (v.conns.set index ({ cinfo with spath := none }, pollfd)).length =
          v.conns.length := List.length_set
      rw [setEntries_ofView (v := { v with tx := tx }) hlen]
      exact ⟨_, _, es, rfl, ⟨none, rfl⟩, hsteps, hperm, rfl⟩
    · exact ⟨_, _, es, rfl, hkept⟩

theorem ClosedAt.getElem? {v w : View} {i : Nat} {e : IpcConnectionInfo × PollFd}
    {es : List (QueueEvent IpcMessage)} (h : ClosedAt v i e es w) (hget : v.conns[i]? = some e) :
    ∃ path, w.conns[i]? = some ({ e.1 with spath := path }, e.2) := by
  obtain ⟨path, hconns⟩ := h.conns
  obtain ⟨hlt, -⟩ := List.getElem?_eq_some_iff.mp hget
  refine ⟨path, ?_⟩
  rw [hconns]
  simp [hlt]

theorem ClosedAt.fds {v w : View} {i : Nat} {e : IpcConnectionInfo × PollFd}
    {es : List (QueueEvent IpcMessage)} (hget : v.conns[i]? = some e)
    (h : ClosedAt v i e es w) : w.fds = v.fds := by
  obtain ⟨path, hconns⟩ := h.conns
  rw [View.fds, hconns]
  exact map_fd_set hget rfl

theorem ClosedAt.tracked {v w : View} {i : Nat} {e : IpcConnectionInfo × PollFd}
    {es : List (QueueEvent IpcMessage)} (hget : v.conns[i]? = some e)
    (h : ClosedAt v i e es w) (hv : v.Tracked) : w.Tracked := by
  refine tracked_of_filter hv h.tx ?_
  intro fd hfd _
  rwa [h.fds hget]

/-! ## Queueing a message -/

/-- A copy of `m` joins the end of the queue, if its descriptor is tracked. -/
structure Queued (v : View) (m : IpcMessage) (es : List (QueueEvent IpcMessage)) (w : View) :
    Prop where
  info : w.info = v.info
  tx : m.fd ∈ v.fds ∧ es = [.queued (deepCopy m)] ∧ w.tx = v.tx ++ [deepCopy m] ∨
    m.fd ∉ v.fds ∧ es = [] ∧ w.tx = v.tx
  switchdb : w.switchdb = v.switchdb

/-- `ipc_write` always returns. -/
theorem ipcWrite_ofView (v : View) (m : IpcMessage) :
    ∃ r w es, ipcWrite (.ofView v) m = some (r, .ofView w, es.map .queue) ∧ Queued v m es w := by
  have hany : (v.conns.any fun e => e.2.fd = m.fd) = true ↔ m.fd ∈ v.fds := by
    simp [View.fds]
  by_cases hm : m.fd ∈ v.fds
  · simp only [ipcWrite, entries_ofView, Option.bind_eq_bind, Option.bind_some, if_pos (hany.mpr hm),
      ofView_tx, ipcMessagesAdd_ofList, Option.pure_def]
    rw [setEntries_ofView (by simp)]
    refine ⟨_, { v with conns := _, tx := v.tx ++ [deepCopy m] }, [.queued (deepCopy m)], rfl,
      ?_, .inl ⟨hm, rfl, rfl⟩, rfl⟩
    simp only [View.info, List.map_map, List.map_inj_left, Function.comp_apply]
    intro e _
    split <;> rfl
  · simp only [ipcWrite, entries_ofView, Option.bind_eq_bind, Option.bind_some,
      if_neg (mt hany.mp hm), Option.pure_def]
    exact ⟨_, v, [], rfl, rfl, .inr ⟨hm, rfl, rfl⟩, rfl⟩

theorem Queued.steps {v w : View} {m : IpcMessage} {es : List (QueueEvent IpcMessage)}
    (h : Queued v m es w) : QueueSteps IpcMessage.fd v.tx es w.tx := by
  rcases h.tx with ⟨-, rfl, htx⟩ | ⟨-, rfl, htx⟩
  · rw [htx]
    exact .single (.queued (deepCopy m))
  · rw [htx]
    exact .nil _

theorem Queued.tracked {v w : View} {m : IpcMessage} {es : List (QueueEvent IpcMessage)}
    (h : Queued v m es w) (hv : v.Tracked) : w.Tracked := by
  rw [View.tracked_iff] at hv ⊢
  rw [View.fds_eq, h.info, ← View.fds_eq]
  intro x hx
  rcases h.tx with ⟨hm, -, htx⟩ | ⟨-, -, htx⟩
  · rw [htx, List.mem_append, List.mem_singleton] at hx
    rcases hx with hx | rfl
    · exact hv x hx
    · exact hm
  · rw [htx] at hx
    exact hv x hx

/-! ## The switching table -/

/-- The two descriptors of a record. -/
def IpcSwitching.ends (s : IpcSwitching) : Fd × Fd := (s.orig, s.dest)

/-- The record is one of `fd`'s. -/
def IpcSwitching.mentions (s : IpcSwitching) (fd : Fd) : Bool := s.orig = fd ∨ s.dest = fd

/-- The end of the record that is not `fd`. -/
def IpcSwitching.other (s : IpcSwitching) (fd : Fd) : Fd := if s.orig = fd then s.dest else s.orig

theorem ipcSwitchingGet_ofView (v : View) (fd : Fd) :
    ipcSwitchingGet_ (IpcCtx.ofView v).switchdb fd =
      some (v.switchdb.find? fun s => s.mentions fd) := by
  simp only [ipcSwitchingGet_, ofView_switchdb, block_switchings, Option.bind_eq_bind,
    Option.bind_some]
  rfl

/-- The first record of `fd` is gone, `r` is its other end (-1 without a record). Of the last
record, which takes its place, only the descriptors do. -/
inductive SwitchDeleted (l : List IpcSwitching) (fd : Fd) : Fd → List IpcSwitching → Prop
  | absent : l.find? (fun s => s.mentions fd) = none → SwitchDeleted l fd (-1) l
  | deleted {i : Nat} {s : IpcSwitching} {l' : List IpcSwitching} :
      l.findIdx? (fun s => s.mentions fd) = some i → l[i]? = some s →
      l.find? (fun s => s.mentions fd) = some s →
      l'.map IpcSwitching.ends = swapRemove (l.map IpcSwitching.ends) i →
      SwitchDeleted l fd (s.other fd) l'

/-- The record `s` once the last one has replaced it. -/
def IpcSwitching.replacedBy (s last : IpcSwitching) : IpcSwitching :=
  { s with orig := last.orig, dest := last.dest }

theorem ipcSwitchingDel_absent {l : List IpcSwitching} {fd : Fd}
    (hidx : l.findIdx? (fun s => s.mentions fd) = none) :
    ipcSwitchingDel (.ofList l) fd = some (-1, .ofList l) := by
  have hidx' : l.findIdx? (fun s => s.orig = fd ∨ s.dest = fd) = none := hidx
  simp only [ipcSwitchingDel, block_switchings, Option.bind_eq_bind, Option.bind_some, hidx']
  rfl

theorem ipcSwitchingDel_concat {l : List IpcSwitching} {last s : IpcSwitching} {fd : Fd} {i : Nat}
    (hidx : (l ++ [last]).findIdx? (fun s => s.mentions fd) = some i)
    (hs : (l ++ [last])[i]? = some s) :
    ipcSwitchingDel (.ofList (l ++ [last])) fd =
      some (s.other fd, .ofList (l.set i (s.replacedBy last))) := by
  have hsize : (IpcSwitchings.ofList (l ++ [last])).size = l.length + 1 := by
    simp [IpcSwitchings.ofList]
  have hidx' : (l ++ [last]).findIdx? (fun s => s.orig = fd ∨ s.dest = fd) = some i := hidx
  have hother : (if fd = s.orig then s.dest else s.orig) = s.other fd := by
    simp [IpcSwitching.other, eq_comm]
  have hblock := block_switchings (l ++ [last])
  rw [hsize] at hblock
  have hlast : (l ++ [last])[l.length + 1 - 1]? = some last := by simp
  simp only [ipcSwitchingDel, hsize, hblock, Option.bind_eq_bind, Option.bind_some, hidx', hs, hlast,
    hother, Option.pure_def]
  split
  · rename_i hone
    obtain rfl : l = [] := List.eq_nil_of_length_eq_zero (by omega)
    rfl
  · -- The last record is copied over record `i`, then the array shrinks by one.
    have hr := Ptr.realloc_some_pred ((l ++ [last]).set i (s.replacedBy last))
    rw [List.length_set, List.length_append, List.length_singleton, dropLast_set_concat] at hr
    have hne : l.set i (s.replacedBy last) ≠ [] := by
      rw [← List.length_pos_iff, List.length_set]
      omega
    have hlen : (l.set i (s.replacedBy last)).length = l.length + 1 - 1 := by simp
    rw [IpcSwitchings.ofList, Ptr.ofList_of_ne_nil hne, hlen, ← hr]
    rfl

/-- `ipc_switching_del` always returns. -/
theorem ipcSwitchingDel_ofList (l : List IpcSwitching) (fd : Fd) :
    ∃ r l', ipcSwitchingDel (.ofList l) fd = some (r, .ofList l') ∧ SwitchDeleted l fd r l' := by
  cases hidx : l.findIdx? fun s => s.mentions fd with
  | none =>
    refine ⟨-1, l, ipcSwitchingDel_absent hidx, .absent ?_⟩
    rw [List.findIdx?_eq_none_iff] at hidx
    simpa using hidx
  | some i =>
    obtain ⟨hlt, hpred, hbefore⟩ := List.findIdx?_eq_some_iff_getElem.mp hidx
    have hget := List.getElem?_eq_getElem hlt
    have hfind : l.find? (fun s => s.mentions fd) = some l[i] := by
      rw [List.find?_eq_some_iff_getElem]
      exact ⟨hpred, i, hlt, rfl, by simpa using hbefore⟩
    generalize l[i] = s at hget hfind
    cases l using List.reverseRecOn with
    | nil => simp at hlt
    | append_singleton l last =>
      refine ⟨s.other fd, _, ipcSwitchingDel_concat hidx hget, .deleted hidx hget hfind ?_⟩
      -- Only the descriptors of the last record are moved.
      have hends : (s.replacedBy last).ends = last.ends := rfl
      rw [List.map_append, List.map_singleton, swapRemove_append_singleton, List.map_set,
        hends]

/-! ## Searching the queue -/

/-- The search finds the first message of the descriptor, unless the queue is empty. -/
theorem searchMessage_ofList {l : List IpcMessage} {fd : Fd}
    {found : Option (List IpcMessage × Nat × IpcMessage)}
    (h : searchMessage (.ofList l) fd = some found) :
    found = none ∧ l = [] ∨
      ∃ i m, found = some (l, i, m) ∧ IsFirst IpcMessage.fd l i ∧ l[i]? = some m ∧ m.fd = fd := by
  unfold searchMessage at h
  split at h
  · rename_i hsize
    simp only [Option.some.injEq] at h
    exact .inl ⟨h.symm, List.eq_nil_of_length_eq_zero hsize⟩
  · simp only [IpcMessages.ofList_size, IpcMessages.block_ofList, Option.bind_eq_bind,
      Option.bind_some, Option.bind_eq_some_iff, Option.pure_def, Option.some.injEq] at h
    obtain ⟨i, hi, m, hm, rfl⟩ := h
    obtain ⟨hfirst, x, hx, hfd⟩ := isFirst_of_findIdx? hi
    obtain rfl : x = m := Option.some.inj (hx ▸ hm)
    exact .inr ⟨i, x, rfl, hfirst, hx, hfd⟩

theorem deleteFound_ofList {l : List IpcMessage} {i : Nat} (m : IpcMessage) (h : i < l.length) :
    deleteFound (.ofList l) (some (l, i, m)) = some (.ofList (swapRemove l i)) := by
  have hdel := ipcMessagesDel_ofList (l := l.set i (ipcMessageEmpty m)) (i := i)
    (by simpa using h)
  rw [swapRemove_set _ _ _ h] at hdel
  simp only [deleteFound, IpcMessages.ofList_size, ofList_set_messages h, hdel,
    Option.bind_eq_bind, Option.bind_some, Option.pure_def]

/-- The message searched for leaves the queue: there is none when the queue is empty, otherwise it
is the first one of the descriptor. -/
inductive Popped (q : List IpcMessage) (fd : Fd) :
    Option IpcMessage → List (QueueEvent IpcMessage) → List IpcMessage → Prop
  | empty : q = [] → Popped q fd none [] q
  | first {i : Nat} {m : IpcMessage} : IsFirst IpcMessage.fd q i → q[i]? = some m → m.fd = fd →
      Popped q fd (some m) [.handed q i] (swapRemove q i)

theorem popped_of_search {l : List IpcMessage} {fd : Fd}
    {found : Option (List IpcMessage × Nat × IpcMessage)}
    (h : searchMessage (.ofList l) fd = some found) :
    ∃ tx, deleteFound (.ofList l) found = some (.ofList tx) ∧
      Popped l fd (found.map fun f => f.2.2)
        (found.toList.map fun f => .handed f.1 f.2.1) tx := by
  rcases searchMessage_ofList h with ⟨rfl, hnil⟩ | ⟨i, m, rfl, hfirst, hget, hfd⟩
  · exact ⟨l, rfl, .empty hnil⟩
  · exact ⟨swapRemove l i, deleteFound_ofList m hfirst.lt, .first hfirst hget hfd⟩

theorem Popped.steps {q q' : List IpcMessage} {fd : Fd} {m : Option IpcMessage}
    {es : List (QueueEvent IpcMessage)} (h : Popped q fd m es q') :
    QueueSteps IpcMessage.fd q es q' := by
  cases h with
  | empty _ => exact .nil q
  | first hfirst _ _ => exact .single (.handed hfirst)

theorem Popped.mem {q q' : List IpcMessage} {fd : Fd} {m : Option IpcMessage}
    {es : List (QueueEvent IpcMessage)} (h : Popped q fd m es q') {x : IpcMessage}
    (hx : x ∈ q') : x ∈ q := by
  cases h with
  | empty _ => exact hx
  | first _ _ _ => exact mem_of_mem_swapRemove hx

/-! ## Logs -/

/-- The bytes passed to `send(2)`, with the descriptor and the answer. -/
def transmissions (io : List Io) : List (Fd × List Byte × SendResult) :=
  io.filterMap fun
    | .send fd bs s => some (fd, bs, s)
    | _ => none

@[simp] theorem transmissions_append (a b : List Io) :
    transmissions (a ++ b) = transmissions a ++ transmissions b := by
  simp [transmissions]

@[simp] theorem transmissions_map_queue (es : List (QueueEvent IpcMessage)) :
    transmissions (es.map .queue) = [] := by
  simp [transmissions, List.filterMap_map]

/-- The callbacks called and what is passed to `send(2)`. -/
def calls (io : List Io) : List Io :=
  io.filter fun
    | .send _ _ _ | .callIn _ _ | .callOut _ _ => true
    | _ => false

@[simp] theorem calls_append (a b : List Io) : calls (a ++ b) = calls a ++ calls b := by
  simp [calls]

@[simp] theorem calls_map_queue (es : List (QueueEvent IpcMessage)) : calls (es.map .queue) = [] := by
  simp [calls]

/-- Nothing but input callbacks were called. -/
def Silent (io : List Io) : Prop := ∀ x ∈ io, ∃ cb fd, x = .callIn cb fd

theorem Silent.queueEvents {io : List Io} (h : Silent io) : queueEvents io = [] := by
  rw [C.queueEvents, List.filterMap_eq_nil_iff]
  intro x hx
  obtain ⟨cb, fd, rfl⟩ := h x hx
  rfl

theorem Silent.transmissions {io : List Io} (h : Silent io) : transmissions io = [] := by
  rw [C.transmissions, List.filterMap_eq_nil_iff]
  intro x hx
  obtain ⟨cb, fd, rfl⟩ := h x hx
  rfl

theorem silent_nil : Silent [] := by simp [Silent]

/-- At most one `send(2)`, on `fd`, of the frame of the message (or of nothing). -/
def Transmits (fd : Fd) (m : Option IpcMessage) (io : List Io) : Prop :=
  transmissions io = [] ∨
    ∃ bs s, transmissions io = [(fd, bs, s)] ∧ (bs = [] ∨ ∃ m' ∈ m, bs = m'.frame)

theorem silent_switchingCbIn {sw : IpcSwitching} {fd : Fd} {sys : SwitchSys} {r : IpcCb}
    {m : IpcMessage} {more : Int} {io : List Io}
    (h : switchingCbIn sw fd sys = some (r, m, more, io)) : Silent io := by
  unfold switchingCbIn at h
  split at h
  · obtain ⟨a, -, h⟩ := Option.map_eq_some_iff.mp h
    cases h
    exact silent_nil
  · rename_i cb _
    cases h
    intro x hx
    exact ⟨cb, fd, List.mem_singleton.mp hx⟩

/-- `ipc_message_format_write` refuses the message, or writes its frame. -/
theorem ipcMessageFormatWrite_cases (m : IpcMessage) :
    ipcMessageFormatWrite m = .error .messageFormatWriteMessageLength ∨
      ipcMessageFormatWrite m = .ok m.frame := by
  unfold ipcMessageFormatWrite
  by_cases h : m.length > ipcMaxMessageSize
  · exact .inl (if_pos h)
  · exact .inr (if_neg h)

theorem ipcWriteFd_bytes {m : IpcMessage} {s : SendResult} {r : IpcErrorCode} {bs : List Byte}
    (h : ipcWriteFd m s = some (r, bs)) : bs = [] ∨ bs = m.frame := by
  rcases ipcMessageFormatWrite_cases m with hm | hm
  · left
    simp only [ipcWriteFd, hm] at h
    split at h
    · cases h
    · cases s <;> cases h <;> rfl
  · right
    simp only [ipcWriteFd, hm] at h
    split at h
    · cases h
    · cases s <;> cases h <;> rfl

theorem defaultCbOut_bytes {m : Option IpcMessage} {s : SendResult} {r : IpcCb} {bs : List Byte}
    (h : defaultCbOut m s = some (r, bs)) : bs = [] ∨ ∃ m' ∈ m, bs = m'.frame := by
  cases m with
  | none =>
    left
    simp only [defaultCbOut] at h
    split at h
    · cases h
    · cases s <;> cases h <;> rfl
  | some m =>
    rcases ipcMessageFormatWrite_cases m with hm | hm
    · left
      simp only [defaultCbOut, hm] at h
      split at h
      · cases h
      · cases s <;> cases h <;> rfl
    · right
      refine ⟨m, rfl, ?_⟩
      simp only [defaultCbOut, hm] at h
      split at h
      · cases h
      · cases s <;> cases h <;> rfl

/-- The output callback sends at most the message, and touches no queue. -/
theorem switchingCbOut_log {sw : IpcSwitching} {fd : Fd} {m : Option IpcMessage}
    {sys : SwitchSys} {r : IpcCb} {io : List Io}
    (h : switchingCbOut sw fd m sys = some (r, io)) :
    queueEvents io = [] ∧ Transmits fd m io ∧ ∀ fd', .close fd' ∉ io := by
  unfold switchingCbOut at h
  split at h
  · obtain ⟨⟨r', bs⟩, hout, h⟩ := Option.map_eq_some_iff.mp h
    cases h
    exact ⟨rfl, .inr ⟨bs, sys.send, rfl, defaultCbOut_bytes hout⟩, by simp⟩
  · obtain ⟨cb, -, h⟩ := Option.map_eq_some_iff.mp h
    cases h
    exact ⟨rfl, .inl rfl, by simp⟩

/-! ## Handling an entry -/

/-- What `ipc_wait_event` does to the entry `e`, at `i`, it stops at: nothing but flags; the client
`accept` is accepted (or not: an entry is made all the same); a message is relayed to the other end of a
switch; a switch is torn down while reading; a message is sent, and the switch torn down after
that; the connection is closed and deleted; the connection is closed. -/
inductive Handling (accept : Fd) (v : View) (i : Nat) (e : IpcConnectionInfo × PollFd) :
    IpcEvent → View → List Io → Prop
  | kept {event : IpcEvent} {more : Int} {p : PollFd} {io : List Io} :
      p.fd = e.2.fd → event.origin = e.2.fd → event.type ≠ .connection →
      event.type ≠ .disconnection → Silent io → Handling accept v i e event (v.touch i e more p) io
  | accepted {event : IpcEvent} :
      0 ≤ accept → e.1.type = .server → event.type = .connection → event.origin = accept →
      Handling accept v i e event
        { v with
          conns := (v.touch i e 0 e.2).conns ++
            [({}, { fd := accept, events := { pollin := true } })] } []
  | acceptFailed {event : IpcEvent} :
      accept < 0 → event.type = .notSet → event.origin = e.2.fd →
      Handling accept v i e event
        { v with conns := (v.touch i e 0 e.2).conns ++ [({}, { fd := accept })] } []
  | relayed {event : IpcEvent} {sw : IpcSwitching} {m : IpcMessage} {more : Int}
      {called : List Io} {es : List (QueueEvent IpcMessage)} {w : View} :
      v.switchdb.find? (fun s => s.mentions e.2.fd) = some sw → m.fd = sw.other e.2.fd →
      Silent called → Queued (v.touch i e more e.2) m es w → event.type = .switch →
      event.origin = e.2.fd → Handling accept v i e event w (called ++ es.map .queue)
  | readTorn {event : IpcEvent} {sw : IpcSwitching} {more : Int} {called : List Io}
      {es₁ es₂ : List (QueueEvent IpcMessage)} {w₁ w₂ : View} {r : Fd} {l : List IpcSwitching} :
      readable e → v.switchdb.find? (fun s => s.mentions e.2.fd) = some sw → Silent called →
      DeletedFd (v.touch i e more e.2) sw.dest es₁ w₁ → DeletedFd w₁ e.2.fd es₂ w₂ →
      SwitchDeleted w₂.switchdb e.2.fd r l →
      event.type = .disconnection ∨ event.type = .error → event.origin = e.2.fd →
      Handling accept v i e event { w₂ with switchdb := l } (called ++ (es₁ ++ es₂).map .queue)
  | written {event : IpcEvent} {p : PollFd} {m : Option IpcMessage}
      {es : List (QueueEvent IpcMessage)} {tx : List IpcMessage} {io : List Io} :
      p.fd = e.2.fd → Popped v.tx e.2.fd m es tx → queueEvents io = es →
      Transmits e.2.fd m io → event.type = .tx → event.origin = e.2.fd →
      Handling accept v i e event { v.touch i e e.1.moreToRead p with tx := tx } io
  | writeTorn {event : IpcEvent} {p : PollFd} {sw : IpcSwitching} {m : Option IpcMessage}
      {es es₁ es₂ : List (QueueEvent IpcMessage)} {tx : List IpcMessage} {io io' : List Io}
      {r : Fd} {l : List IpcSwitching} {w₁ w₂ : View} :
      e.2.revents.pollout → p.fd = e.2.fd → Popped v.tx e.2.fd m es tx →
      queueEvents io = es → Transmits e.2.fd m io →
      v.switchdb.find? (fun s => s.mentions e.2.fd) = some sw → r = sw.other e.2.fd →
      SwitchDeleted v.switchdb e.2.fd r l →
      -- The other end is deleted when it is a descriptor.
      (0 ≤ r ∧ DeletedFd { v.touch i e e.1.moreToRead p with tx := tx, switchdb := l } r es₁ w₁ ∨
        r < 0 ∧ es₁ = [] ∧ w₁ = { v.touch i e e.1.moreToRead p with tx := tx, switchdb := l }) →
      DeletedFd w₁ e.2.fd es₂ w₂ → queueEvents io' = es₁ ++ es₂ → transmissions io' = [] →
      event.type = .disconnection ∨ event.type = .error → event.origin = e.2.fd →
      (∀ fd, .close fd ∈ io ++ io' → fd = e.2.fd ∨ fd = r ∧ 0 ≤ r) →
      Handling accept v i e event w₂ (io ++ io')
  | disconnected {event : IpcEvent} {es₁ es₂ : List (QueueEvent IpcMessage)} {w₁ w₂ : View} :
      readable e →
      ClosedAt (v.touch i e 0 e.2) i ({ e.1 with moreToRead := 0 }, e.2) es₁ w₁ →
      Deleted w₁ i e.2.fd es₂ w₂ →
      event.type = .disconnection ∨ event.type = .error → event.origin = e.2.fd →
      Handling accept v i e event w₂ (closedFd e ++ (es₁ ++ es₂).map .queue)
  | hungUp {event : IpcEvent} {es : List (QueueEvent IpcMessage)} {w : View} :
      ¬ readable e → ¬ e.2.revents.pollout → ClosedAt v i e es w →
      event.type = .disconnection → event.origin = e.2.fd →
      Handling accept v i e event w (closedFd e ++ es.map .queue)

section Dispatch
variable {v : View} {i : Nat} {e : IpcConnectionInfo × PollFd} {event : IpcEvent}
  {r : IpcErrorCode} {ctx : IpcCtx} {event' : IpcEvent} {io : List Io} {accept : Fd}

theorem touch_getElem? (hget : v.conns[i]? = some e) (more : Int) (p : PollFd) :
    (v.touch i e more p).conns[i]? = some ({ e.1 with moreToRead := more }, p) := by
  obtain ⟨hlt, -⟩ := List.getElem?_eq_some_iff.mp hget
  simp [View.touch, hlt]

theorem touch_touch (more more' : Int) (p p' : PollFd) :
    (v.touch i e more p).touch i e more' p' = v.touch i e more' p' := by
  simp [View.touch]

theorem touch_self (hget : v.conns[i]? = some e) : v.touch i e e.1.moreToRead e.2 = v := by
  obtain ⟨hlt, rfl⟩ := List.getElem?_eq_some_iff.mp hget
  show { v with conns := v.conns.set i v.conns[i] } = v
  rw [List.set_getElem_self]

/-- A new entry at the end, whatever `accept(2)` returns. -/
theorem ipcAcceptAdd_ofView (v : View) (hlt : i < v.conns.length) (event : IpcEvent) (accept : Fd) :
    ipcAcceptAdd event (.ofView v) i accept =
      if accept < 0 then
        some (.usockAccept, .ofView { v with conns := v.conns ++ [({}, { fd := accept })] }, event)
      else
        some (.none,
          .ofView { v with
            conns := v.conns ++ [({}, { fd := accept, events := { pollin := true } })] },
          { type := .connection, index := v.conns.length, origin := accept, m := none }) := by
  have hnew : ∀ x : IpcConnectionInfo × PollFd,
      (IpcCtx.ofView { v with conns := v.conns ++ [(default, default)] }).setEntries
        ((v.conns ++ [(default, default)]).set v.conns.length x) =
      .ofView { v with conns := v.conns ++ [x] } := by
    intro x
    rw [setEntries_ofView (by simp)]
    simp
  unfold ipcAcceptAdd
  rw [ofView_size, if_neg (Nat.not_le.mpr hlt), ipcCtxNewAlloc_ofView]
  simp only [entries_ofView, ofView_size, List.length_append, List.length_singleton,
    Nat.add_sub_cancel, Nat.le_refl, List.getElem?_append_right, Nat.sub_self,
    List.getElem?_cons_zero, Option.bind_eq_bind, Option.bind_some, Option.pure_def, hnew]
  rfl

theorem ipcAcceptAdd_handling (hget : v.conns[i]? = some e) (ht : e.1.type = .server)
    (htype : event.type = .notSet) (horigin : event.origin = e.2.fd)
    (h : ipcAcceptAdd event (.ofView (v.touch i e 0 e.2)) i accept = some (r, ctx, event')) :
    ∃ w, ctx = .ofView w ∧ Handling accept v i e event' w [] := by
  have hlt : i < (v.touch i e 0 e.2).conns.length := by
    obtain ⟨hlt, -⟩ := List.getElem?_eq_some_iff.mp hget
    simpa [View.touch] using hlt
  rw [ipcAcceptAdd_ofView _ hlt] at h
  split at h
  · rename_i hneg
    cases h
    exact ⟨_, rfl, .acceptFailed hneg htype horigin⟩
  · rename_i hpos
    cases h
    exact ⟨_, rfl, .accepted (Int.not_lt.mp hpos) ht rfl rfl⟩

theorem switchingReadDel_ofView {w : View} (hw : w.Tracked) (sw : IpcSwitching) (fd : Fd) :
    ∃ w₁ w₂ es₁ es₂ r l, switchingReadDel (.ofView w) sw fd =
        some (.ofView { w₂ with switchdb := l }, (es₁ ++ es₂).map .queue) ∧
      DeletedFd w sw.dest es₁ w₁ ∧ DeletedFd w₁ fd es₂ w₂ ∧ SwitchDeleted w₂.switchdb fd r l := by
  obtain ⟨r₁, w₁, es₁, hdel₁, hdeleted₁⟩ := ipcDelFd_ofView hw sw.dest
  obtain ⟨r₂, w₂, es₂, hdel₂, hdeleted₂⟩ := ipcDelFd_ofView (hdeleted₁.tracked hw) fd
  obtain ⟨r, l, hsw, hswitch⟩ := ipcSwitchingDel_ofList w₂.switchdb fd
  refine ⟨w₁, w₂, es₁, es₂, r, l, ?_, hdeleted₁, hdeleted₂, hswitch⟩
  simp only [switchingReadDel, hdel₁, hdel₂, ofView_switchdb, hsw, Option.bind_eq_bind,
    Option.bind_some, Option.pure_def, List.map_append]
  rfl

theorem fdSwitchingRead_handling (hv : v.Tracked) (hget : v.conns[i]? = some e)
    (hread : readable e) (htype : event.type = .notSet) (horigin : event.origin = e.2.fd)
    {sys : SwitchSys}
    (h : fdSwitchingRead event (.ofView (v.touch i e 0 e.2)) i sys = some (r, ctx, event', io)) :
    ∃ w, ctx = .ofView w ∧ Handling accept v i e event' w io := by
  have hkept : Handling accept v i e event (v.touch i e 0 e.2) [] :=
    .kept rfl horigin (by rw [htype]; decide) (by rw [htype]; decide) silent_nil
  unfold fdSwitchingRead at h
  split at h
  · cases h
    exact ⟨_, rfl, hkept⟩
  · simp only [entries_ofView, touch_getElem? hget, ipcSwitchingGet_ofView, Option.bind_eq_bind,
      Option.bind_some, Option.pure_def] at h
    split at h
    · cases h
      exact ⟨_, rfl, hkept⟩
    · rename_i sw hsw
      obtain ⟨⟨verdict, m, more, called⟩, hcb, h⟩ := Option.bind_eq_some_iff.mp h
      have hsilent := silent_switchingCbIn hcb
      have hset : (IpcCtx.ofView (v.touch i e 0 e.2)).setEntries
          ((v.touch i e 0 e.2).conns.set i ({ e.1 with moreToRead := more }, e.2)) =
          .ofView (v.touch i e more e.2) := by
        rw [setEntries_touch (v := v.touch i e 0 e.2), touch_touch]
      simp only [hset] at h
      split at h
      · -- Message: queued for the other end.
        obtain ⟨r', w, es, hwrite, hqueued⟩ := ipcWrite_ofView (v.touch i e more e.2)
          { m with fd := if sw.orig = e.2.fd then sw.dest else sw.orig }
        simp only [hwrite, Option.bind_some] at h
        cases h
        exact ⟨w, rfl, .relayed hsw rfl hsilent hqueued rfl rfl⟩
      · cases h
        exact ⟨_, rfl, .kept rfl rfl (by simp) (by simp) hsilent⟩
      · -- End closing or in error: both connections and the pair go.
        obtain ⟨w₁, w₂, es₁, es₂, r', l, hdel, h₁, h₂, h₃⟩ :=
          switchingReadDel_ofView (tracked_touch hget more rfl hv) sw e.2.fd
        simp only [hdel, Option.bind_some] at h
        cases h
        refine ⟨_, rfl, .readTorn hread hsw hsilent h₁ h₂ h₃ ?_ rfl⟩
        show (if verdict = .fdClosing then IpcEventType.disconnection else .error) = _ ∨ _ = _
        split
        · exact .inl rfl
        · exact .inr rfl

/-- What a connection leaves behind: its descriptor is closed, and its messages go. -/
def deletionLog (fd : Fd) (es : List (QueueEvent IpcMessage)) : List Io :=
  .close fd :: es.map .queue

@[simp] theorem queueEvents_deletionLog (fd : Fd) (es : List (QueueEvent IpcMessage)) :
    queueEvents (deletionLog fd es) = es :=
  queueEvents_map_queue es

@[simp] theorem transmissions_deletionLog (fd : Fd) (es : List (QueueEvent IpcMessage)) :
    transmissions (deletionLog fd es) = [] :=
  transmissions_map_queue es

@[simp] theorem calls_deletionLog (fd : Fd) (es : List (QueueEvent IpcMessage)) :
    calls (deletionLog fd es) = [] :=
  calls_map_queue es

theorem close_mem_deletionLog_iff {fd fd' : Fd} {es : List (QueueEvent IpcMessage)} :
    .close fd' ∈ deletionLog fd es ↔ fd' = fd := by
  simp [deletionLog]

theorem switchingWriteDel_ofView {w : View} (hw : w.Tracked) (fd : Fd) :
    ∃ w₁ w₂ es₁ es₂ r l io, switchingWriteDel (.ofView w) fd = some (.ofView w₂, io) ∧
      SwitchDeleted w.switchdb fd r l ∧
      (0 ≤ r ∧ DeletedFd { w with switchdb := l } r es₁ w₁ ∨
        r < 0 ∧ es₁ = [] ∧ w₁ = { w with switchdb := l }) ∧
      DeletedFd w₁ fd es₂ w₂ ∧ queueEvents io = es₁ ++ es₂ ∧ transmissions io = [] ∧
      calls io = [] ∧ ∀ fd', .close fd' ∈ io → fd' = fd ∨ fd' = r ∧ 0 ≤ r := by
  obtain ⟨r, l, hsw, hswitch⟩ := ipcSwitchingDel_ofList w.switchdb fd
  have hw' : View.Tracked { w with switchdb := l } := hw
  have hctx : ({ IpcCtx.ofView w with switchdb := .ofList l } : IpcCtx) =
      .ofView { w with switchdb := l } := rfl
  -- `ipc_switching_del` gives -1 when there was no pair.
  by_cases hr : 0 ≤ r
  · obtain ⟨r₁, w₁, es₁, hdel₁, hdeleted₁⟩ := ipcDelFd_ofView hw' r
    obtain ⟨r₂, w₂, es₂, hdel₂, hdeleted₂⟩ := ipcDelFd_ofView (hdeleted₁.tracked hw') fd
    refine ⟨w₁, w₂, es₁, es₂, r, l, deletionLog r es₁ ++ deletionLog fd es₂, ?_, hswitch,
      .inl ⟨hr, hdeleted₁⟩, hdeleted₂, ?_, ?_, ?_, ?_⟩
    · simp only [switchingWriteDel, ofView_switchdb, hsw, hctx, hdel₁, hdel₂, Option.bind_eq_bind,
        Option.bind_some, Option.pure_def, if_pos hr, ge_iff_le]
      rfl
    · rw [queueEvents_append, queueEvents_deletionLog, queueEvents_deletionLog]
    · rw [transmissions_append, transmissions_deletionLog, transmissions_deletionLog]
      rfl
    · rw [calls_append, calls_deletionLog, calls_deletionLog]
      rfl
    · intro fd' hfd'
      rcases List.mem_append.mp hfd' with hother | hself
      · exact .inr ⟨close_mem_deletionLog_iff.mp hother, hr⟩
      · exact .inl (close_mem_deletionLog_iff.mp hself)
  · obtain ⟨r₂, w₂, es₂, hdel₂, hdeleted₂⟩ := ipcDelFd_ofView hw' fd
    refine ⟨_, w₂, [], es₂, r, l, deletionLog fd es₂, ?_, hswitch,
      .inr ⟨Int.not_le.mp hr, rfl, rfl⟩, hdeleted₂, ?_, ?_, ?_, ?_⟩
    · simp only [switchingWriteDel, ofView_switchdb, hsw, hctx, hdel₂, Option.bind_eq_bind,
        Option.bind_some, Option.pure_def, if_neg hr, ge_iff_le]
      rfl
    · exact queueEvents_deletionLog fd es₂
    · exact transmissions_deletionLog fd es₂
    · exact calls_deletionLog fd es₂
    · intro fd' hfd'
      exact .inl (close_mem_deletionLog_iff.mp hfd')

theorem tracked_popped {w : View} (hw : w.Tracked) {fd : Fd} {m : Option IpcMessage}
    {es : List (QueueEvent IpcMessage)} {tx : List IpcMessage} (h : Popped w.tx fd m es tx) :
    View.Tracked { w with tx := tx } := by
  rw [View.tracked_iff] at hw ⊢
  intro x hx
  exact hw x (h.mem hx)

theorem SwitchDeleted.other_of_find {l l' : List IpcSwitching} {fd r : Fd} {sw : IpcSwitching}
    (h : SwitchDeleted l fd r l') (hsw : l.find? (fun s => s.mentions fd) = some sw) :
    r = sw.other fd := by
  cases h with
  | absent hnone =>
    rw [hnone] at hsw
    cases hsw
  | deleted _ _ hfind _ =>
    rw [hfind] at hsw
    cases hsw
    rfl

theorem fdSwitchingWrite_handling (hv : v.Tracked) (hget : v.conns[i]? = some e)
    (hout : e.2.revents.pollout) (htype : event.type = .notSet)
    (horigin : event.origin = e.2.fd) {p : PollFd} (hp : p.fd = e.2.fd) {sys : SwitchSys}
    (h : fdSwitchingWrite event (.ofView (v.touch i e e.1.moreToRead p)) i sys =
      some (r, ctx, event', io)) :
    ∃ w, ctx = .ofView w ∧ Handling accept v i e event' w io := by
  have hkept : Handling accept v i e event (v.touch i e e.1.moreToRead p) [] :=
    .kept hp horigin (by rw [htype]; decide) (by rw [htype]; decide) silent_nil
  unfold fdSwitchingWrite at h
  split at h
  · cases h
    exact ⟨_, rfl, hkept⟩
  · simp only [entries_ofView, touch_getElem? hget, ofView_tx, ipcSwitchingGet_ofView,
      Option.bind_eq_bind, Option.bind_some, Option.pure_def, hp] at h
    obtain ⟨found, hfound, h⟩ := Option.bind_eq_some_iff.mp h
    -- The message is deleted before the verdict of the callback is looked at.
    obtain ⟨tx, hdelete, hpopped⟩ := popped_of_search hfound
    split at h
    · cases h
      exact ⟨_, rfl, hkept⟩
    · rename_i sw hsw
      obtain ⟨⟨verdict, called⟩, hcb, h⟩ := Option.bind_eq_some_iff.mp h
      obtain ⟨hq, htransmits, hclose⟩ := switchingCbOut_log hcb
      simp only [hdelete, Option.bind_some] at h
      have hhanded : queueEvents (called ++ found.toList.map fun f => Io.queue (.handed f.1 f.2.1))
          = found.toList.map fun f => .handed f.1 f.2.1 := by
        rw [queueEvents_append, hq]
        simp [queueEvents, List.filterMap_map]
      have hsent : transmissions (called ++ found.toList.map fun f => Io.queue (.handed f.1 f.2.1))
          = transmissions called := by
        simp [transmissions, List.filterMap_map]
      have hctx : ({ IpcCtx.ofView (v.touch i e e.1.moreToRead p) with tx := .ofList tx } : IpcCtx)
          = .ofView { v.touch i e e.1.moreToRead p with tx := tx } := rfl
      simp only [hctx] at h
      split at h
      · cases h
        refine ⟨_, rfl, .written hp hpopped hhanded ?_ rfl rfl⟩
        rw [Transmits, hsent]
        exact htransmits
      · have htracked := tracked_popped (tracked_touch hget _ hp hv) hpopped
        obtain ⟨w₁, w₂, es₁, es₂, r', l, io', hdel, hswitch, hother, hself, hq', hsent', -, hclose'⟩ :=
          switchingWriteDel_ofView htracked e.2.fd
        simp only [hdel, Option.bind_some] at h
        cases h
        refine ⟨w₂, rfl, .writeTorn hout hp hpopped hhanded ?_ hsw (hswitch.other_of_find hsw)
          hswitch hother hself hq' hsent' ?_ rfl ?_⟩
        · rw [Transmits, hsent]
          exact htransmits
        · show (if verdict = .fdClosing then IpcEventType.disconnection else .error) = _ ∨ _ = _
          split
          · exact .inl rfl
          · exact .inr rfl
        · intro fd hfd
          rcases List.mem_append.mp hfd with hfd | hfd
          · rcases List.mem_append.mp hfd with hfd | hfd
            · exact absurd hfd (hclose fd)
            · simp at hfd
          · exact hclose' fd hfd

theorem handleWritingMessage_handling (hget : v.conns[i]? = some e) {p : PollFd}
    (hp : p.fd = e.2.fd) {s : SendResult}
    (h : handleWritingMessage (.ofView (v.touch i e e.1.moreToRead p)) i s =
      some (r, ctx, event', io)) :
    ∃ w, ctx = .ofView w ∧ Handling accept v i e event' w io := by
  simp only [handleWritingMessage, entries_ofView, touch_getElem? hget, ofView_tx,
    Option.bind_eq_bind, Option.bind_some, Option.pure_def, hp] at h
  obtain ⟨found, hfound, h⟩ := Option.bind_eq_some_iff.mp h
  obtain ⟨tx, hdelete, hpopped⟩ := popped_of_search hfound
  refine ⟨{ v.touch i e e.1.moreToRead p with tx := tx }, ?_⟩
  cases found with
  | none =>
    simp only [hdelete, Option.bind_some] at h
    cases h
    exact ⟨rfl, .written hp hpopped rfl (.inl rfl) rfl rfl⟩
  | some f =>
    obtain ⟨io', hio, h⟩ := Option.bind_eq_some_iff.mp h
    obtain ⟨⟨code, bs⟩, hwrite, rfl⟩ := Option.map_eq_some_iff.mp hio
    simp only [hdelete, Option.bind_some] at h
    cases h
    refine ⟨rfl, .written hp hpopped rfl (.inr ⟨bs, s, rfl, ?_⟩) rfl rfl⟩
    rcases ipcWriteFd_bytes hwrite with hbs | hbs
    · exact .inl hbs
    · exact .inr ⟨f.2.2, rfl, hbs⟩

theorem handleNewMessage_handling (hv : v.Tracked) (hget : v.conns[i]? = some e)
    (hread : readable e) {rs : List RecvResult} {sys : CloseSys}
    (h : handleNewMessage (.ofView (v.touch i e 0 e.2)) i rs sys = some (r, ctx, event', io)) :
    ∃ w, ctx = .ofView w ∧ Handling accept v i e event' w io := by
  simp only [handleNewMessage, entries_ofView, touch_getElem? hget, Option.bind_eq_bind,
    Option.bind_some, Option.pure_def] at h
  split at h
  · cases h
  · obtain ⟨r₁, w₁, es₁, hclose, hclosed⟩ := ipcClose_ofView (touch_getElem? hget 0 e.2) sys
    obtain ⟨path, hget₁⟩ := hclosed.getElem? (touch_getElem? hget 0 e.2)
    have htracked := hclosed.tracked (touch_getElem? hget 0 e.2) (tracked_touch hget _ rfl hv)
    obtain ⟨w₂, es₂, hdel, hdeleted⟩ := ipcDel_ofView htracked hget₁
    have hio : closedFd ({ e.1 with moreToRead := 0 }, e.2) ++ es₁.map Io.queue ++
        es₂.map Io.queue = closedFd e ++ (es₁ ++ es₂).map Io.queue := by
      rw [List.map_append, List.append_assoc]
      rfl
    simp only [hclose, hdel, Option.bind_some, hio] at h
    split at h
    · cases h
      exact ⟨w₂, rfl, .disconnected hread hclosed hdeleted (.inl rfl) rfl⟩
    · cases h
      exact ⟨w₂, rfl, .disconnected hread hclosed hdeleted (.inr rfl) rfl⟩
  · cases h
    exact ⟨_, rfl, .kept rfl rfl (by simp) (by simp) silent_nil⟩

/-- The dispatch handles its entry. -/
theorem dispatch_handling (hv : v.Tracked) (hget : v.conns[i]? = some e) {sys : WaitSys}
    (h : dispatch (.ofView v) v.conns i e sys = some (r, ctx, event', io)) :
    ∃ w, ctx = .ofView w ∧ Handling sys.accept v i e event' w io := by
  simp only [dispatch] at h
  split at h
  · rename_i hread
    rw [setEntries_touch] at h
    split at h
    · rename_i ht
      obtain ⟨⟨r', ctx', ev'⟩, haccept, h⟩ := Option.map_eq_some_iff.mp h
      cases h
      exact ipcAcceptAdd_handling hget ht rfl rfl haccept
    · exact fdSwitchingRead_handling hv hget hread rfl rfl h
    · cases h
      exact ⟨_, rfl, .kept rfl rfl (by simp) (by simp) silent_nil⟩
    · exact handleNewMessage_handling hv hget hread h
  · rename_i hread
    split at h
    · rename_i hout
      generalize hp : { e.2 with events := { e.2.events with pollout := false } } = p at h
      have hfd : p.fd = e.2.fd := by rw [← hp]
      have htouch : (IpcCtx.ofView v).setEntries (v.conns.set i (e.1, p)) =
          .ofView (v.touch i e e.1.moreToRead p) := setEntries_touch
      rw [htouch] at h
      split at h
      · exact fdSwitchingWrite_handling hv hget hout rfl rfl hfd h
      · exact handleWritingMessage_handling hget hfd h
    · rename_i hout
      split at h
      · obtain ⟨r', w, es, hclose, hclosed⟩ := ipcClose_ofView hget sys.close
        simp only [hclose, Option.map_some] at h
        cases h
        exact ⟨w, rfl, .hungUp hread hout hclosed rfl rfl⟩
      · cases h
        have hkept : Handling sys.accept v i e { type := .error, index := i, origin := e.2.fd, m := none }
            (v.touch i e e.1.moreToRead e.2) [] :=
          .kept rfl rfl (by simp) (by simp) silent_nil
        rw [touch_self hget] at hkept
        exact ⟨v, rfl, hkept⟩

end Dispatch

/-! ## The event loop -/

/-- The view the dispatch loop of `ipc_wait_event` runs over, once `poll(2)` has answered. -/
def View.polled (v : View) (revents : List PollEvents) : View :=
  { v with conns := storeRevents (pollEntries v.conns v.tx) revents }

theorem same_pollEntries (v : View) : v.Same { v with conns := pollEntries v.conns v.tx } :=
  ⟨by simp [View.info, pollEntries], rfl, rfl⟩

theorem same_polled (v : View) (revents : List PollEvents) : v.Same (v.polled revents) := by
  refine ⟨?_, rfl, rfl⟩
  rw [← (same_pollEntries v).info]
  apply List.ext_getElem
  · simp [View.info, View.polled, storeRevents]
  · intro i h₁ h₂
    simp [View.info, View.polled, storeRevents]

/-- What `ipc_wait_event` does once `poll(2)` has answered: the time is up, no entry is ready, or
the first one that is ready is handled. -/
inductive Dispatched (ctx : IpcCtx) (es : List (IpcConnectionInfo × PollFd)) (sys : WaitSys) :
    IpcErrorCode → IpcCtx → IpcEvent → List Io → Prop
  | timeout {event : IpcEvent} : event.type = .timer → Dispatched ctx es sys .none ctx event []
  | nothing {event : IpcEvent} :
      es.findIdx? handled = none → event.type = .notSet → Dispatched ctx es sys .none ctx event []
  | entry {i : Nat} {e : IpcConnectionInfo × PollFd} {r : IpcErrorCode} {ctx' : IpcCtx}
      {event : IpcEvent} {io : List Io} :
      es.findIdx? handled = some i → es[i]? = some e →
      dispatch ctx es i e sys = some (r, ctx', event, io) → Dispatched ctx es sys r ctx' event io

/-- Everything `ipc_wait_event` can do. -/
theorem ipcWaitEvent_cases {ctx ctx' : IpcCtx} {timer timer' : Int} {sys : WaitSys}
    {r : IpcErrorCode} {event : IpcEvent} {io : List Io}
    (h : ipcWaitEvent ctx timer sys = some (r, ctx', event, timer', io)) :
    ∃ es messages, ctx.entries = some es ∧ ctx.tx.messages.block ctx.tx.size = some messages ∧
      ((sys.poll = none ∧ r = .waitEventPoll ∧ event.type = .notSet ∧ io = [] ∧
          ctx' = ctx.setEntries (pollEntries es messages)) ∨
        ∃ revents, sys.poll = some revents ∧ timerAfter timer sys.tv₁ sys.tv₂ = some timer' ∧
          Dispatched
            ((ctx.setEntries (pollEntries es messages)).setEntries
              (storeRevents (pollEntries es messages) revents))
            (storeRevents (pollEntries es messages) revents) sys r ctx' event io) := by
  simp only [ipcWaitEvent, Option.bind_eq_bind, Option.pure_def] at h
  obtain ⟨es, hes, h⟩ := Option.bind_eq_some_iff.mp h
  obtain ⟨messages, hmessages, h⟩ := Option.bind_eq_some_iff.mp h
  refine ⟨es, messages, hes, hmessages, ?_⟩
  generalize (if (pollEntries es messages).any (fun e => e.1.moreToRead = 1) then 0 else timer)
    = timer_ at h
  split at h
  · rename_i hnone
    cases h
    exact .inl ⟨hnone, rfl, rfl, rfl, rfl⟩
  · rename_i revents hpoll
    obtain ⟨t, ht, h⟩ := Option.bind_eq_some_iff.mp h
    refine .inr ⟨revents, hpoll, ?_⟩
    split at h
    · cases h
      exact ⟨ht, .timeout rfl⟩
    · split at h
      · rename_i hfind
        cases h
        exact ⟨ht, .nothing hfind rfl⟩
      · rename_i i hfind
        obtain ⟨e, hget, h⟩ := Option.bind_eq_some_iff.mp h
        obtain ⟨⟨r', ctx₁, event₁, io₁⟩, hdispatch, h⟩ := Option.bind_eq_some_iff.mp h
        cases h
        exact ⟨ht, .entry hfind hget hdispatch⟩

/-- `ipc_wait_event` changes flags only, or handles the first entry that is ready. -/
theorem ipcWaitEvent_handling {v : View} (hv : v.Tracked) {timer timer' : Int} {sys : WaitSys}
    {r : IpcErrorCode} {ctx : IpcCtx} {event : IpcEvent} {io : List Io}
    (h : ipcWaitEvent (.ofView v) timer sys = some (r, ctx, event, timer', io)) :
    ∃ w, ctx = .ofView w ∧
      ((v.Same w ∧ io = [] ∧ event.type ≠ .connection ∧ event.type ≠ .disconnection) ∨
        ∃ revents i e, sys.poll = some revents ∧
          (v.polled revents).conns.findIdx? handled = some i ∧
          (v.polled revents).conns[i]? = some e ∧ Handling sys.accept (v.polled revents) i e event w io) := by
  obtain ⟨es, messages, hes, hmessages, hcases⟩ := ipcWaitEvent_cases h
  rw [entries_ofView, Option.some.injEq] at hes
  rw [ofView_tx, IpcMessages.ofList_size, IpcMessages.block_ofList, Option.some.injEq] at hmessages
  subst hes
  subst hmessages
  have hpoll : (IpcCtx.ofView v).setEntries (pollEntries v.conns v.tx) =
      .ofView { v with conns := pollEntries v.conns v.tx } := setEntries_ofView (by simp [pollEntries])
  rw [hpoll] at hcases
  rcases hcases with ⟨-, -, htype, hio, hctx⟩ | ⟨revents, hrevents, -, hdispatched⟩
  · exact ⟨_, hctx, .inl ⟨same_pollEntries v, hio, by simp [htype], by simp [htype]⟩⟩
  · have hstore : (IpcCtx.ofView { v with conns := pollEntries v.conns v.tx }).setEntries
        (storeRevents (pollEntries v.conns v.tx) revents) = .ofView (v.polled revents) :=
      setEntries_ofView (by simp [storeRevents])
    rw [hstore] at hdispatched
    cases hdispatched with
    | timeout htype =>
      exact ⟨_, rfl, .inl ⟨same_polled v revents, rfl, by simp [htype], by simp [htype]⟩⟩
    | nothing _ htype =>
      exact ⟨_, rfl, .inl ⟨same_polled v revents, rfl, by simp [htype], by simp [htype]⟩⟩
    | entry hfind hget hdispatch =>
      obtain ⟨w, hctx, hhandling⟩ :=
        dispatch_handling ((same_polled v revents).tracked hv) hget hdispatch
      exact ⟨w, hctx, .inr ⟨revents, _, _, hrevents, hfind, hget, hhandling⟩⟩

end LibIpc.C

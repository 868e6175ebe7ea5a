import LibIpc.C.Delivery

/-!
# Connections that go away

A disconnection is noticed in three places. A zero-length read and the switching callbacks delete
the entry of the connection; `POLLHUP` closes the descriptor and leaves the entry, so a closed
descriptor is polled, reported and closed again. When a switch is torn down, both its ends should
go: that depends on which end notices, and on the other records of the switching table.
-/

namespace LibIpc.C

open Lib

/-! ## Tracked descriptors -/

/-- The descriptors of the `pollfd` entries. -/
def IpcCtx.fds (ctx : IpcCtx) : List Fd := ((ctx.pollfd.getD []).take ctx.size).map PollFd.fd

theorem fds_ofView (v : View) : (IpcCtx.ofView v).fds = v.fds := by
  have hlen : v.conns.length = (v.conns.map Prod.snd).length := by simp
  simp only [IpcCtx.fds, IpcCtx.ofView, Ptr.getD_ofList]
  rw [hlen, List.take_length, List.map_map]
  rfl

/-- Along a run, a descriptor is tracked because it was, or because a call added it. -/
theorem mem_fds_of_run {v : View} (hv : v.Tracked) {ctx : IpcCtx} {cs : List Call} {io : List Io}
    (hrun : runAll step (.ofView v) cs = some (ctx, io)) {fd : Fd} (hfd : fd ∈ ctx.fds) :
    fd ∈ v.fds ∨ ∃ c ∈ cs, fd ∈ c.newFds := by
  induction cs generalizing v io with
  | nil =>
    cases hrun
    exact .inl (fds_ofView v ▸ hfd)
  | cons c cs ih =>
    obtain ⟨ctx₁, io₁, io₂, hstep, hrun₁, -⟩ := runAll_cons_eq_some hrun
    obtain ⟨w, rfl, hrefines⟩ := step_refines hv hstep
    rcases ih hrefines.tracked hrun₁ with hw | ⟨c', hc', hnew⟩
    · rcases hrefines.fds fd hw with hold | hnew
      · exact .inl hold
      · exact .inr ⟨c, by simp, hnew⟩
    · exact .inr ⟨c', by simp [hc'], hnew⟩

/-! ## Disconnections -/

/-- Entries as the dispatch loop of `ipc_wait_event` sees them. -/
def IpcCtx.polledEntries (ctx : IpcCtx) (revents : List PollEvents) :
    Option (List (IpcConnectionInfo × PollFd)) := do
  let es ← ctx.entries
  let messages ← ctx.tx.messages.block ctx.tx.size
  return storeRevents (pollEntries es messages) revents

theorem polledEntries_ofView (v : View) (revents : List PollEvents) :
    (IpcCtx.ofView v).polledEntries revents = some (v.polled revents).conns := by
  simp only [IpcCtx.polledEntries, entries_ofView, ofView_tx, IpcMessages.ofList_size,
    IpcMessages.block_ofList, Option.bind_eq_bind, Option.bind_some]
  rfl

/-- The first entry that is ready has nothing to read and cannot be written: what is left is
`POLLHUP` (or an error). -/
def HandledByHangup (ctx : IpcCtx) (sys : WaitSys) : Prop :=
  ∃ revents ∈ sys.poll, ∃ es ∈ ctx.polledEntries revents, ∃ e ∈ es.find? handled,
    ¬ readable e ∧ ¬ e.2.revents.pollout

/-- The descriptor of the event was tracked before the call. It and every descriptor closed are not
tracked after it, and are tracked at the end of a later run only because a call of that run added
them. -/
def FinallyGone (ctx : IpcCtx) (event : IpcEvent) (io : List Io) (ctx' : IpcCtx) : Prop :=
  event.origin ∈ ctx.fds ∧
  ∀ fd, fd = event.origin ∨ .close fd ∈ io →
    fd ∉ ctx'.fds ∧
    ∀ cs ctx'' io', runAll step ctx' cs = some (ctx'', io') → fd ∈ ctx''.fds →
      ∃ c ∈ cs, fd ∈ c.newFds

theorem close_not_mem_queue {fd : Fd} {es : List (QueueEvent IpcMessage)} :
    Io.close fd ∉ es.map Io.queue := by simp

theorem close_mem_closedFd {fd : Fd} {e : IpcConnectionInfo × PollFd}
    (h : Io.close fd ∈ closedFd e) : fd = e.2.fd := by
  unfold closedFd at h
  split at h
  · simp at h
  · simpa using h

/-- In a context without repetitions, what is deleted is not tracked any more. -/
theorem DeletedFd.not_mem {v w : View} {fd : Fd} {es : List (QueueEvent IpcMessage)}
    (h : DeletedFd v fd es w) (hnodup : v.fds.Nodup) : fd ∉ w.fds := by
  rw [h.fds_perm.mem_iff]
  exact hnodup.not_mem_erase

theorem DeletedFd.nodup {v w : View} {fd : Fd} {es : List (QueueEvent IpcMessage)}
    (h : DeletedFd v fd es w) (hnodup : v.fds.Nodup) : w.fds.Nodup :=
  h.fds_perm.nodup_iff.mpr (hnodup.erase fd)

theorem Deleted.not_mem {v w : View} {i : Nat} {e : IpcConnectionInfo × PollFd}
    (hget : v.conns[i]? = some e) {es : List (QueueEvent IpcMessage)}
    (h : Deleted v i e.2.fd es w) (hnodup : v.fds.Nodup) : e.2.fd ∉ w.fds := by
  obtain ⟨hlt, rfl⟩ := List.getElem?_eq_some_iff.mp hget
  have hperm := (perm_cons_swapRemove hlt).map fun e => e.2.fd
  have hcons := hperm.nodup_iff.mp hnodup
  rw [List.map_cons, List.nodup_cons] at hcons
  rw [View.fds, h.conns]
  exact hcons.1

/-- Deleting never makes a descriptor tracked. -/
theorem DeletedFd.subset {v w : View} {fd fd' : Fd} {es : List (QueueEvent IpcMessage)}
    (h : DeletedFd v fd es w) (hfd' : fd' ∈ w.fds) : fd' ∈ v.fds := by
  rw [h.fds_perm.mem_iff] at hfd'
  exact List.mem_of_mem_erase hfd'

/-- A disconnection that was not a `POLLHUP`: the descriptor of the event, and every descriptor
closed, is not tracked any more. -/
theorem Handling.not_mem {v w : View} {i : Nat} {e : IpcConnectionInfo × PollFd}
    (hget : v.conns[i]? = some e) (hnodup : v.fds.Nodup) {event : IpcEvent} {io : List Io}
    {accept : Fd} (h : Handling accept v i e event w io) (htype : event.type = .disconnection)
    (hready : readable e ∨ e.2.revents.pollout) {fd : Fd}
    (hfd : fd = e.2.fd ∨ .close fd ∈ io) : fd ∉ w.fds := by
  have htouch : ∀ more {p : PollFd}, p.fd = e.2.fd → (v.touch i e more p).fds.Nodup := by
    intro more p hp
    rwa [fds_touch hget more hp]
  cases h with
  | kept _ _ _ hne _ => exact absurd htype hne
  | accepted _ _ ht _ => rw [ht] at htype; cases htype
  | acceptFailed _ ht _ => rw [ht] at htype; cases htype
  | relayed _ _ _ _ ht _ => rw [ht] at htype; cases htype
  | written _ _ _ _ ht _ => rw [ht] at htype; cases htype
  | readTorn _ _ hsilent h₁ h₂ _ _ _ =>
    -- No `close(2)` while reading: both ends are deleted but left open.
    have hself : fd = e.2.fd := by
      refine hfd.resolve_right ?_
      intro hclose
      rcases List.mem_append.mp hclose with hclose | hclose
      · obtain ⟨cb, fd', hx⟩ := hsilent _ hclose
        cases hx
      · exact close_not_mem_queue hclose
    rw [hself]
    exact h₂.not_mem (h₁.nodup (htouch _ rfl))
  | writeTorn _ hp _ _ _ _ _ _ hother hself _ _ _ _ hclose =>
    -- Both descriptors are closed and deleted, the other end first.
    have hends : fd = e.2.fd ∨ fd = _ ∧ _ := hfd.elim .inl (hclose fd)
    rcases hother with ⟨-, hdeleted⟩ | ⟨hneg, -, rfl⟩
    · have hsent := htouch e.1.moreToRead hp
      rcases hends with rfl | ⟨rfl, -⟩
      · exact hself.not_mem (hdeleted.nodup hsent)
      · exact fun hmem => hdeleted.not_mem hsent (hself.subset hmem)
    · rcases hends with rfl | ⟨-, hpos⟩
      · exact hself.not_mem (htouch e.1.moreToRead hp)
      · exact absurd hpos (Int.not_le.mpr hneg)
  | disconnected _ hclosed hdeleted _ _ =>
    have hget₀ := touch_getElem? hget 0 e.2
    obtain ⟨path, hget₁⟩ := hclosed.getElem? hget₀
    have hnodup₁ := htouch 0 rfl
    rw [← hclosed.fds hget₀] at hnodup₁
    have hself : fd = e.2.fd := by
      refine hfd.elim id ?_
      intro hclose
      rcases List.mem_append.mp hclose with hclose | hclose
      · exact close_mem_closedFd hclose
      · exact absurd hclose close_not_mem_queue
    rw [hself]
    exact Deleted.not_mem (e := ({ e.1 with moreToRead := 0, spath := path }, e.2)) hget₁ hdeleted
      hnodup₁
  | hungUp hread hout _ _ _ => exact absurd hready (by simp [hread, hout])

/-- A disconnection by `POLLHUP` leaves the descriptor tracked. -/
theorem Handling.mem_of_hungUp {v w : View} {i : Nat} {e : IpcConnectionInfo × PollFd}
    (hget : v.conns[i]? = some e) {event : IpcEvent} {io : List Io} {accept : Fd}
    (h : Handling accept v i e event w io) (htype : event.type = .disconnection)
    (hread : ¬ readable e) (hout : ¬ e.2.revents.pollout) : e.2.fd ∈ w.fds := by
  cases h with
  | kept _ _ _ hne _ => exact absurd htype hne
  | accepted _ _ ht _ => rw [ht] at htype; cases htype
  | acceptFailed _ ht _ => rw [ht] at htype; cases htype
  | relayed _ _ _ _ ht _ => rw [ht] at htype; cases htype
  | written _ _ _ _ ht _ => rw [ht] at htype; cases htype
  | readTorn hr _ _ _ _ _ _ _ => exact absurd hr hread
  | writeTorn ho _ _ _ _ _ _ _ _ _ _ _ _ _ _ => exact absurd ho hout
  | disconnected hr _ _ _ _ => exact absurd hr hread
  | hungUp _ _ hclosed _ _ =>
    rw [hclosed.fds hget]
    exact List.mem_map_of_mem (List.mem_of_getElem? hget)

theorem Handling.origin_of_disconnection {v w : View} {i : Nat} {e : IpcConnectionInfo × PollFd}
    {event : IpcEvent} {io : List Io} {accept : Fd} (h : Handling accept v i e event w io)
    (htype : event.type = .disconnection) : event.origin = e.2.fd := by
  cases h with
  | accepted _ _ ht _ => rw [ht] at htype; cases htype
  | _ => assumption

theorem find?_of_findIdx? {α : Type} {p : α → Bool} {l : List α} {i : Nat} {x : α}
    (h : l.findIdx? p = some i) (hx : l[i]? = some x) : l.find? p = some x := by
  obtain ⟨hlt, hpred, hbefore⟩ := List.findIdx?_eq_some_iff_getElem.mp h
  rw [List.getElem?_eq_getElem hlt, Option.some.injEq] at hx
  rw [List.find?_eq_some_iff_getElem, ← hx]
  exact ⟨hpred, i, hlt, rfl, by simpa using hbefore⟩

/-- **Disconnections**: from a reachable context without repeated descriptors, a reported
disconnection is final exactly when it was not noticed by `POLLHUP` alone. -/
theorem finallyGone_iff {ctx ctx' : IpcCtx} (h : ReachableCtx ctx) (hnodup : ctx.fds.Nodup)
    {timer timer' : Int} {sys : WaitSys} {r : IpcErrorCode} {event : IpcEvent} {io : List Io}
    (hwait : ipcWaitEvent ctx timer sys = some (r, ctx', event, timer', io))
    (htype : event.type = .disconnection) :
    FinallyGone ctx event io ctx' ↔ ¬ HandledByHangup ctx sys := by
  obtain ⟨v, rfl, hv⟩ := h.exists_view
  rw [fds_ofView] at hnodup
  obtain ⟨w, rfl, ⟨-, -, -, hne⟩ | ⟨revents, i, e, hpoll, hidx, hget, hhandling⟩⟩ :=
    ipcWaitEvent_handling hv hwait
  · exact absurd htype hne
  have hsame := same_polled v revents
  have hnodup' : (v.polled revents).fds.Nodup := by rwa [hsame.fds]
  have horigin := hhandling.origin_of_disconnection htype
  have hhangup : HandledByHangup (.ofView v) sys ↔ ¬ readable e ∧ ¬ e.2.revents.pollout := by
    simp only [HandledByHangup, hpoll, polledEntries_ofView, find?_of_findIdx? hidx hget,
      Option.mem_def, Option.some.injEq, exists_eq_left']
  rw [hhangup]
  constructor
  · -- `POLLHUP` closes the descriptor and keeps its entry.
    rintro ⟨-, hgone⟩ ⟨hread, hout⟩
    have hmem := hhandling.mem_of_hungUp hget htype hread hout
    rw [← horigin, ← fds_ofView] at hmem
    exact (hgone event.origin (.inl rfl)).1 hmem
  · intro hready
    refine ⟨?_, ?_⟩
    · rw [fds_ofView, ← hsame.fds, horigin]
      exact List.mem_map_of_mem (List.mem_of_getElem? hget)
    · intro fd hfd
      rw [horigin] at hfd
      have hnot := hhandling.not_mem hget hnodup' htype (by tauto) hfd
      have hw := (hhandling.refines (hsame.tracked hv) hget).tracked
      refine ⟨by rwa [fds_ofView], ?_⟩
      -- It can only come back as a descriptor of a later call.
      intro cs ctx'' io' hrun hmem
      exact (mem_fds_of_run hw hrun hmem).resolve_left hnot

/-- `ipc_wait_event` when the only descriptor has these `revents` and `recv(2)` reports that the
peer has closed. -/
def hangup (revents : PollEvents) : WaitSys := { poll := some [revents], recv := [.ok []] }

/-- A client that closes its end, noticed by reading. -/
theorem finallyGone_closed_peer :
    ∃ ctx r ctx' event timer io, ReachableCtx ctx ∧ ctx.fds.Nodup ∧
      ipcWaitEvent ctx 1000 (hangup { pollin := true, pollhup := true }) =
        some (r, ctx', event, timer, io) ∧
      event.type = .disconnection ∧ FinallyGone ctx event io ctx' := by
  have hreach : ReachableCtx (ipcConnection {} 0 (.ok 5)).2 :=
    ⟨[.connection 0 (.ok 5)], [], rfl⟩
  have hnodup : (ipcConnection {} 0 (.ok 5)).2.fds.Nodup := by decide
  have hrun : ∃ x, ipcWaitEvent (ipcConnection {} 0 (.ok 5)).2 1000
      (hangup { pollin := true, pollhup := true }) = some x ∧
      x.2.2.1.type = .disconnection := by
    simp only [← Option.mem_def]
    decide +kernel
  obtain ⟨⟨r, ctx', event, timer, io⟩, hwait, htype⟩ := hrun
  refine ⟨_, r, ctx', event, timer, io, hreach, hnodup, hwait, htype, ?_⟩
  refine (finallyGone_iff hreach hnodup hwait htype).mpr ?_
  rintro ⟨revents, hrevents, es, hes, e, he, hread, -⟩
  cases hrevents
  cases hes
  cases he
  exact hread rfl

/-- The same, noticed by `POLLHUP` alone: the disconnection of descriptor 5 is reported, the
descriptor is closed and stays tracked, and the next call closes it and reports it again. -/
theorem not_finallyGone_pollhup :
    ∃ ctx r ctx' event timer io, ReachableCtx ctx ∧ ctx.fds.Nodup ∧
      ipcWaitEvent ctx 1000 (hangup { pollhup := true }) = some (r, ctx', event, timer, io) ∧
      event.type = .disconnection ∧ ¬ FinallyGone ctx event io ctx' ∧
      Io.close 5 ∈ io ∧
      ∃ x, ipcWaitEvent ctx' 1000 (hangup { pollhup := true }) = some x ∧
        x.2.2.1.type = .disconnection ∧ x.2.2.1.origin = 5 ∧ Io.close 5 ∈ x.2.2.2.2 := by
  have hreach : ReachableCtx (ipcConnection {} 0 (.ok 5)).2 :=
    ⟨[.connection 0 (.ok 5)], [], rfl⟩
  have hrun : ∃ x, ipcWaitEvent (ipcConnection {} 0 (.ok 5)).2 1000
      (hangup { pollhup := true }) = some x ∧
      x.2.2.1.type = .disconnection ∧ x.2.2.1.origin ∈ x.2.1.fds ∧ Io.close 5 ∈ x.2.2.2.2 ∧
      ∃ y, ipcWaitEvent x.2.1 1000 (hangup { pollhup := true }) = some y ∧
        y.2.2.1.type = .disconnection ∧ y.2.2.1.origin = 5 ∧ Io.close 5 ∈ y.2.2.2.2 := by
    simp only [← Option.mem_def]
    decide +kernel
  obtain ⟨⟨r, ctx', event, timer, io⟩, hwait, htype, hmem, hclose, hagain⟩ := hrun
  refine ⟨_, r, ctx', event, timer, io, hreach, by decide, hwait, htype, ?_, hclose, hagain⟩
  rintro ⟨-, hgone⟩
  exact (hgone event.origin (.inl rfl)).1 hmem

/-! ## Switches -/

/-- The pairs of the switching table. -/
def IpcCtx.pairs (ctx : IpcCtx) : List (Fd × Fd) :=
  ((ctx.switchdb.collection.getD []).take ctx.switchdb.size).map IpcSwitching.ends

theorem pairs_ofView (v : View) :
    (IpcCtx.ofView v).pairs = v.switchdb.map IpcSwitching.ends := by
  simp [IpcCtx.pairs, IpcSwitchings.ofList]

/-- The pair has `a` or `b` for one of its ends. -/
def Touches (a b : Fd) (p : Fd × Fd) : Prop := p.1 = a ∨ p.1 = b ∨ p.2 = a ∨ p.2 = b

instance (a b : Fd) (p : Fd × Fd) : Decidable (Touches a b p) :=
  inferInstanceAs (Decidable (_ ∨ _ ∨ _ ∨ _))

/-- Nothing is left of `a` and `b`: no entry, no pair, no message. -/
structure TornDown (a b : Fd) (ctx : IpcCtx) : Prop where
  fds : a ∉ ctx.fds ∧ b ∉ ctx.fds
  pairs : ∀ p ∈ ctx.pairs, ¬ Touches a b p
  messages : ctx.waiting a = [] ∧ ctx.waiting b = []

/-- Messages go with their connections. -/
theorem tornDown_ofView_iff {w : View} (hw : w.Tracked) {a b : Fd} :
    TornDown a b (.ofView w) ↔
      (a ∉ w.fds ∧ b ∉ w.fds) ∧ ∀ p ∈ w.switchdb.map IpcSwitching.ends, ¬ Touches a b p := by
  have hnone : ∀ fd, fd ∉ w.fds → (IpcCtx.ofView w).waiting fd = [] := by
    intro fd hfd
    rw [IpcCtx.waiting, queue_ofView, lane_eq_nil]
    rintro m hm rfl
    exact hfd (View.tracked_iff.mp hw m hm)
  constructor
  · rintro ⟨hfds, hpairs, -⟩
    rw [fds_ofView] at hfds
    rw [pairs_ofView] at hpairs
    exact ⟨hfds, hpairs⟩
  · rintro ⟨hfds, hpairs⟩
    refine ⟨?_, ?_, hnone a hfds.1, hnone b hfds.2⟩
    · rwa [fds_ofView]
    · rwa [pairs_ofView]

/-- What is tracked once is not tracked any more exactly when it was deleted. -/
theorem not_mem_diff_iff {l t : List Fd} {x : Fd} (h : l.count x = 1) : x ∉ l.diff t ↔ x ∈ t := by
  rw [← List.count_eq_zero, List.count_diff, h, ← List.count_pos_iff]
  omega

/-- Deleting the first record of `f` clears the table of `a` and `b`, of which `f` is one, exactly
when no other record has one of them. -/
theorem SwitchDeleted.clean_iff {l l' : List IpcSwitching} {f r a b : Fd}
    (h : SwitchDeleted l f r l') (hf : f = a ∨ f = b)
    (hpair : (a, b) ∈ l.map IpcSwitching.ends) :
    (∀ p ∈ l'.map IpcSwitching.ends, ¬ Touches a b p) ↔
      (l.map IpcSwitching.ends).countP (fun p => Touches a b p) = 1 := by
  cases h with
  | absent hnone =>
    obtain ⟨s, hs, hends⟩ := List.mem_map.mp hpair
    rw [List.find?_eq_none] at hnone
    have hs' := hnone s hs
    simp only [IpcSwitching.ends, Prod.mk.injEq] at hends
    rcases hf with rfl | rfl
    · simp [IpcSwitching.mentions, hends] at hs'
    · simp [IpcSwitching.mentions, hends] at hs'
  | @deleted i s _ hidx hget hfind hends =>
    obtain ⟨hlt, rfl⟩ := List.getElem?_eq_some_iff.mp hget
    have hlt' : i < (l.map IpcSwitching.ends).length := by simpa using hlt
    have hperm := perm_cons_swapRemove hlt'
    have htouches : Touches a b (l.map IpcSwitching.ends)[i] := by
      have hmentions := List.find?_some hfind
      rw [List.getElem_map]
      simp only [IpcSwitching.mentions, decide_eq_true_eq] at hmentions
      unfold Touches IpcSwitching.ends
      rcases hf with rfl | rfl <;> tauto
    -- One record that touches the pair is deleted; none is left when it was the only one.
    rw [hperm.countP_eq, List.countP_cons_of_pos (by simpa using htouches), hends]
    simp [List.countP_eq_zero]

/-- The descriptors `fd_switching_read` deletes when its end `fd` is closing or in error. -/
def IpcSwitching.readDeletes (sw : IpcSwitching) (fd : Fd) : List Fd := [sw.dest, fd]

/-- The descriptors `fd_switching_write` deletes when its end `fd` is closing or in error. -/
def IpcSwitching.writeDeletes (sw : IpcSwitching) (fd : Fd) : List Fd :=
  if 0 ≤ sw.other fd then [sw.other fd, fd] else [fd]

/-- The connections on the descriptors `t` are gone, and the switching table with the last
connection. -/
structure DeletedAll (v : View) (t : List Fd) (w : View) : Prop where
  fds : w.fds.Perm (v.fds.diff t)
  switchdb : w.switchdb = if w.fds = [] then [] else v.switchdb

theorem View.fds_eq_nil_iff {v : View} : v.fds = [] ↔ v.conns = [] := by
  simp [View.fds]

theorem DeletedFd.deletedAll {v w : View} {fd : Fd} {es : List (QueueEvent IpcMessage)}
    (h : DeletedFd v fd es w) (hne : v.fds ≠ []) : DeletedAll v [fd] w where
  fds := by
    rw [List.diff_cons, List.diff_nil]
    exact h.fds_perm
  switchdb := by
    rw [h.switchdb]
    rw [ne_eq, View.fds_eq_nil_iff] at hne
    simp [View.fds_eq_nil_iff, hne]

theorem DeletedFd.deletedAll_two {u v w : View} {fd fd' : Fd}
    {es es' : List (QueueEvent IpcMessage)} (h : DeletedFd u fd es v) (h' : DeletedFd v fd' es' w)
    (hne : u.fds ≠ []) : DeletedAll u [fd, fd'] w where
  fds := by
    rw [List.diff_cons, List.diff_cons, List.diff_nil]
    exact h'.fds_perm.trans (h.fds_perm.erase fd')
  switchdb := by
    have hfirst := (h.deletedAll hne).switchdb
    by_cases hv : v.fds = []
    · have hw : w.fds = [] := by
        rw [← List.perm_nil, ← List.erase_nil fd', ← hv]
        exact h'.fds_perm
      rw [h'.switchdb, hfirst, if_pos hv, if_pos hw]
      simp
    · have hsecond := (h'.deletedAll hv).switchdb
      rw [hsecond, hfirst, if_neg hv]

/-- What is left of a pair once the descriptors `t` are deleted and the first record of its end `f`
is, in either order. -/
theorem tornDown_iff_of_deleted {v w : View} (hw : w.Tracked) {t : List Fd} {a b f g : Fd}
    (hfds : w.fds.Perm (v.fds.diff t))
    (hdb : w.fds = [] ∧ w.switchdb = [] ∨
      w.fds ≠ [] ∧ ∃ r, SwitchDeleted v.switchdb f r w.switchdb)
    (hf : f ∈ t) (hends : f = a ∧ g = b ∨ f = b ∧ g = a)
    (hpair : (a, b) ∈ v.switchdb.map IpcSwitching.ends) (ha : v.fds.count a = 1)
    (hb : v.fds.count b = 1) :
    TornDown a b (.ofView w) ↔
      g ∈ t ∧ ((v.switchdb.map IpcSwitching.ends).countP (fun p => Touches a b p) = 1 ∨
        v.fds.diff t = []) := by
  have htracked : (a ∉ w.fds ∧ b ∉ w.fds) ↔ g ∈ t := by
    rw [hfds.mem_iff, hfds.mem_iff, not_mem_diff_iff ha, not_mem_diff_iff hb]
    rcases hends with ⟨rfl, rfl⟩ | ⟨rfl, rfl⟩
    · simp [hf]
    · simp [hf]
  have hempty : w.fds = [] ↔ v.fds.diff t = [] := by
    constructor
    · intro hnil
      rw [hnil] at hfds
      exact List.nil_perm.mp hfds
    · intro hnil
      rw [hnil] at hfds
      exact List.perm_nil.mp hfds
  rw [tornDown_ofView_iff hw, htracked]
  rcases hdb with ⟨hnil, hsw⟩ | ⟨hne, r, hdel⟩
  · simp [hsw, hempty.mp hnil]
  · rw [hdel.clean_iff (hends.imp And.left And.left) hpair]
    simp [mt hempty.mpr hne]

section
variable {v : View} {a b f g : Fd} {i : Nat} {e : IpcConnectionInfo × PollFd} {sw : IpcSwitching}
  {sys : SwitchSys}

theorem switchdb_size_ne (hsw : v.switchdb.find? (fun s => s.mentions f) = some sw) :
    ¬ (IpcCtx.ofView v).switchdb.size = 0 := by
  rw [ofView_switchdb]
  show ¬ v.switchdb.length = 0
  intro hnil
  rw [List.length_eq_zero_iff.mp hnil] at hsw
  cases hsw

/-- `fd_switching_read` when the callback of its end is closing or in error. -/
theorem fdSwitchingRead_torn (hv : v.Tracked) (hget : v.conns[i]? = some e)
    (hsw : v.switchdb.find? (fun s => s.mentions e.2.fd) = some sw) (event : IpcEvent) {r : IpcCb}
    {m : IpcMessage} {more : Int} {called : List Io}
    (hcb : switchingCbIn sw e.2.fd sys = some (r, m, more, called)) (hr : r ≠ .noError)
    (hr' : r ≠ .ignore) :
    ∃ w event' io, fdSwitchingRead event (.ofView v) i sys =
        some (.closedRecipient, .ofView w, event', io) ∧ w.Tracked ∧
      w.fds.Perm (v.fds.diff (sw.readDeletes e.2.fd)) ∧
      (w.fds = [] ∧ w.switchdb = [] ∨
        w.fds ≠ [] ∧ ∃ r, SwitchDeleted v.switchdb e.2.fd r w.switchdb) := by
  have htouch := fds_touch hget more (p := e.2) rfl
  obtain ⟨w₁, w₂, es₁, es₂, r', l, hdel, h₁, h₂, h₃⟩ :=
    switchingReadDel_ofView (tracked_touch hget more rfl hv) sw e.2.fd
  have htracked := h₂.tracked (h₁.tracked (tracked_touch hget _ rfl hv))
  have hne : (v.touch i e more e.2).fds ≠ [] := by
    rw [htouch]
    exact List.ne_nil_of_mem (List.mem_map_of_mem (List.mem_of_getElem? hget))
  have hall := h₁.deletedAll_two h₂ hne
  refine ⟨{ w₂ with switchdb := l }, ?_⟩
  have hread : ∃ event' io, fdSwitchingRead event (.ofView v) i sys =
      some (.closedRecipient, .ofView { w₂ with switchdb := l }, event', io) := by
    simp only [fdSwitchingRead, if_neg (switchdb_size_ne hsw), entries_ofView, hget,
      ipcSwitchingGet_ofView, hsw, hcb, Option.bind_eq_bind, Option.bind_some, Option.pure_def,
      setEntries_touch, hdel]
    cases r with
    | noError => exact absurd rfl hr
    | ignore => exact absurd rfl hr'
    | fdClosing => exact ⟨_, _, rfl⟩
    | fdError => exact ⟨_, _, rfl⟩
    | parsingError => exact ⟨_, _, rfl⟩
  obtain ⟨event', io, hread⟩ := hread
  refine ⟨event', io, hread, htracked, ?_, ?_⟩
  · rw [← htouch]
    exact hall.fds
  · -- Deleting the last connection frees the switching table before the pair is deleted.
    by_cases hnil : w₂.fds = []
    · rw [hall.switchdb, if_pos hnil] at h₃
      refine .inl ⟨hnil, ?_⟩
      cases h₃ with
      | absent _ => rfl
      | deleted hidx _ _ _ => cases hidx
    · rw [hall.switchdb, if_neg hnil] at h₃
      exact .inr ⟨hnil, r', h₃⟩

/-- `fd_switching_write` when the callback of its end is closing or in error. -/
theorem fdSwitchingWrite_torn (hv : v.Tracked) (hget : v.conns[i]? = some e)
    (hsw : v.switchdb.find? (fun s => s.mentions e.2.fd) = some sw) (event : IpcEvent)
    {found : Option (List IpcMessage × Nat × IpcMessage)}
    (hfound : searchMessage (.ofList v.tx) e.2.fd = some found) {r : IpcCb} {called : List Io}
    (hcb : switchingCbOut sw e.2.fd (found.map fun f => f.2.2) sys = some (r, called))
    (hr : r ≠ .noError) :
    ∃ w event' io, fdSwitchingWrite event (.ofView v) i sys =
        some (.closedRecipient, .ofView w, event', io) ∧ w.Tracked ∧
      w.fds.Perm (v.fds.diff (sw.writeDeletes e.2.fd)) ∧
      (w.fds = [] ∧ w.switchdb = [] ∨
        w.fds ≠ [] ∧ ∃ r, SwitchDeleted v.switchdb e.2.fd r w.switchdb) := by
  obtain ⟨tx, hdelete, hpopped⟩ := popped_of_search hfound
  have htx := tracked_popped hv hpopped
  obtain ⟨w₁, w₂, es₁, es₂, r', l, io', hdel, hswitch, hother, hself, -, -, -⟩ :=
    switchingWriteDel_ofView htx e.2.fd
  have hctx : ({ IpcCtx.ofView v with tx := .ofList tx } : IpcCtx) = .ofView { v with tx := tx } :=
    rfl
  have hne : v.fds ≠ [] := List.ne_nil_of_mem (List.mem_map_of_mem (List.mem_of_getElem? hget))
  have hall : w₂.Tracked ∧
      DeletedAll { v with tx := tx, switchdb := l } (sw.writeDeletes e.2.fd) w₂ := by
    have hr' := hswitch.other_of_find hsw
    rw [IpcSwitching.writeDeletes, ← hr']
    rcases hother with ⟨hpos, hdeleted⟩ | ⟨hneg, -, rfl⟩
    · rw [if_pos hpos]
      exact ⟨hself.tracked (hdeleted.tracked htx), hdeleted.deletedAll_two hself hne⟩
    · rw [if_neg (Int.not_le.mpr hneg)]
      exact ⟨hself.tracked htx, hself.deletedAll hne⟩
  refine ⟨w₂, ?_⟩
  have hwrite : ∃ event' io, fdSwitchingWrite event (.ofView v) i sys =
      some (.closedRecipient, .ofView w₂, event', io) := by
    simp only [fdSwitchingWrite, if_neg (switchdb_size_ne hsw), entries_ofView, hget, ofView_tx,
      hfound, ipcSwitchingGet_ofView, hsw, hcb, hdelete, Option.bind_eq_bind, Option.bind_some,
      Option.pure_def, hctx, hdel]
    cases r with
    | noError => exact absurd rfl hr
    | ignore => exact ⟨_, _, rfl⟩
    | fdClosing => exact ⟨_, _, rfl⟩
    | fdError => exact ⟨_, _, rfl⟩
    | parsingError => exact ⟨_, _, rfl⟩
  obtain ⟨event', io, hwrite⟩ := hwrite
  refine ⟨event', io, hwrite, hall.1, hall.2.fds, ?_⟩
  by_cases hnil : w₂.fds = []
  · exact .inl ⟨hnil, by rw [hall.2.switchdb, if_pos hnil]⟩
  · refine .inr ⟨hnil, r', ?_⟩
    rw [hall.2.switchdb, if_neg hnil]
    exact hswitch

end

/-- The condition under which a switch goes away with both its ends: the other end `g` is among the
descriptors `t` deleted with `f`, and either no other record names `a` or `b`, or no connection is
left (the whole table is then freed). -/
def TearsDown (ctx : IpcCtx) (a b g : Fd) (t : List Fd) : Prop :=
  g ∈ t ∧ (ctx.pairs.countP (fun p => Touches a b p) = 1 ∨ ctx.fds.diff t = [])

/-- Descriptors 5 and 6 switched to each other, and a connection on 7. -/
def switchedPair : IpcCtx :=
  .ofView
    { conns := [({ type := .switched }, { fd := 5, events := { pollin := true } }),
        ({ type := .switched }, { fd := 6, events := { pollin := true } }),
        ({ type := .ipc }, { fd := 7, events := { pollin := true } })]
      switchdb := [{ orig := 5, dest := 6 }] }

theorem reachable_switchedPair : ReachableCtx switchedPair :=
  ⟨[.addFdSwitched 5, .addFdSwitched 6, .switchingAdd 5 6, .connection 0 (.ok 7)], _, rfl⟩

/-- `recv(2)` reports that the peer has closed. -/
def peerClosed : SwitchSys := { recv := [.ok []] }

end LibIpc.C

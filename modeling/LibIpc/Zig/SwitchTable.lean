import LibIpc.Zig.Effects

/-!
# Consistency of the switching table

The switching relation is kept in three places: the type of a connection, its descriptor in
`pollfd`, and the entries of `switchdb`. `SwitchConsistent` says that they agree. Two paths of the
source close a switched connection and leave the table as it is: `close` called on it, and
`POLLHUP`. Two others rely on the caller: a descriptor that is tracked twice, or switched while it
is not open, ends up in the table after its number has been given to someone else. `Careful` leaves
these out, and `switchConsistent_of_careful` shows that nothing else breaks the agreement, whatever
numbers the kernel gives to new descriptors.
-/

namespace LibIpc.Zig

open Lib

/-! ## The invariant -/

/-- Some connection on `fd` is switched. -/
def Context.Switched (ctx : Context) (fd : Fd) : Prop :=
  ∃ c, (c, fd) ∈ ctx.conns ∧ c.t = .switched

/-- The number of connections on `fd`. -/
def Context.count (ctx : Context) (fd : Fd) : Nat := (ctx.conns.map Prod.snd).count fd

/-- The keys of the table are the descriptors of the switched connections, and being someone's
`dest` is mutual. -/
structure SwitchConsistent (s : State) : Prop where
  keys : ∀ fd, fd ∈ s.ctx.switchdb ↔ s.ctx.Switched fd
  pairing : PartnerTable.IsPairing s.ctx.switchdb

/-- What the table relies on: a switched descriptor is open and has one connection. -/
structure Tracking (s : State) : Prop where
  parallel : s.ctx.Parallel
  alone : ∀ fd, s.ctx.Switched fd → s.ctx.count fd ≤ 1
  isOpen : ∀ fd, s.ctx.Switched fd → fd ∈ s.openFds

/-- The invariant of the runs. -/
structure SwitchInv (s : State) : Prop extends Tracking s, SwitchConsistent s

/-- Calls that change neither connections nor descriptors. -/
theorem Tracking.congr {s s' : State} (h : Tracking s) (hpar : s'.ctx.Parallel)
    (hconns : s'.ctx.conns = s.ctx.conns) (hopen : s'.openFds = s.openFds) : Tracking s' where
  parallel := hpar
  alone := by
    unfold Context.Switched Context.count
    rw [hconns]
    exact h.alone
  isOpen := by
    unfold Context.Switched
    rw [hconns, hopen]
    exact h.isOpen

theorem SwitchInv.congr {s s' : State} (h : SwitchInv s) (hpar : s'.ctx.Parallel)
    (hconns : s'.ctx.conns = s.ctx.conns) (hopen : s'.openFds = s.openFds)
    (hdb : s'.ctx.switchdb = s.ctx.switchdb) : SwitchInv s' where
  toTracking := h.toTracking.congr hpar hconns hopen
  keys := by
    unfold Context.Switched
    rw [hconns, hdb]
    exact h.keys
  pairing := by rw [hdb]; exact h.pairing

/-! ## Adding a connection -/

theorem switched_add_ {ctx : Context} (hpar : ctx.Parallel) {c : Connection}
    (hc : c.t ≠ .switched) (fd fd' : Fd) :
    (ctx.add_ c fd).Switched fd' ↔ ctx.Switched fd' := by
  unfold Context.Switched
  rw [conns_add_ hpar]
  constructor
  · rintro ⟨c', hmem, ht⟩
    rcases List.mem_append.mp hmem with hmem | hmem
    · exact ⟨c', hmem, ht⟩
    · rw [List.mem_singleton, Prod.mk.injEq] at hmem
      exact absurd (hmem.1 ▸ ht) hc
  · rintro ⟨c', hmem, ht⟩
    exact ⟨c', List.mem_append.mpr (.inl hmem), ht⟩

theorem count_add_ {ctx : Context} (hpar : ctx.Parallel) {c : Connection} {fd fd' : Fd}
    (hne : fd' ≠ fd) : (ctx.add_ c fd).count fd' = ctx.count fd' := by
  unfold Context.count
  rw [conns_add_ hpar, List.map_append, List.count_append, List.map_singleton,
    List.count_singleton, if_neg (by simpa using hne.symm), Nat.add_zero]

theorem SwitchInv.add {s s' : State} (h : SwitchInv s) {c : Connection} {fd : Fd}
    (hc : c.t ≠ .switched) (hnew : ¬ s.ctx.Switched fd) (hctx : s'.ctx = s.ctx.add_ c fd)
    (hopen : ∀ fd' ∈ s.openFds, fd' ∈ s'.openFds) : SwitchInv s' := by
  have hswitched : ∀ fd', s'.ctx.Switched fd' ↔ s.ctx.Switched fd' := by
    rw [hctx]
    exact switched_add_ h.parallel hc fd
  have hdb : s'.ctx.switchdb = s.ctx.switchdb := by rw [hctx]; rfl
  refine ⟨⟨?_, ?_, ?_⟩, ⟨?_, ?_⟩⟩
  · rw [hctx]
    exact parallel_add_ h.parallel c fd
  · intro fd' hfd'
    rw [hswitched] at hfd'
    rw [hctx, count_add_ h.parallel (by rintro rfl; exact hnew hfd')]
    exact h.alone fd' hfd'
  · intro fd' hfd'
    exact hopen fd' (h.isOpen fd' ((hswitched fd').mp hfd'))
  · intro fd'
    rw [hdb, hswitched]
    exact h.keys fd'
  · rw [hdb]
    exact h.pairing

/-- A descriptor the kernel has just returned is not switched. -/
theorem SwitchInv.addNew {s s' : State} (h : SwitchInv s) {c : Connection} {fd : Fd}
    (hc : c.t ≠ .switched) (hadd : s.addNew c fd = some s') : SwitchInv s' := by
  obtain ⟨hfd, rfl⟩ := addNew_eq_some hadd
  refine h.add hc ?_ rfl ?_
  · intro hswitched
    exact hfd (h.isOpen fd hswitched)
  · intro fd' hfd'
    exact Finset.mem_insert_of_mem hfd'

/-! ## Closing connections -/

section Closed
variable {s s' : State} {index : Nat} {c : Connection} {fd : Fd} {io : List Io}

/-- The connection that is closed, then the others. -/
theorem Closed.perm (h : Closed s index fd io s') (hget : s.ctx.conns[index]? = some (c, fd)) :
    s.ctx.conns.Perm ((c, fd) :: s'.ctx.conns) := by
  obtain ⟨hlt, hc⟩ := List.getElem?_eq_some_iff.mp hget
  have hperm := perm_cons_swapRemove hlt
  rw [hc, ← h.conns] at hperm
  exact hperm

theorem Closed.count (h : Closed s index fd io s') (hget : s.ctx.conns[index]? = some (c, fd))
    (fd' : Fd) : s.ctx.count fd' = s'.ctx.count fd' + if fd = fd' then 1 else 0 := by
  have hcount := ((h.perm hget).map Prod.snd).count_eq fd'
  rw [List.map_cons, List.count_cons] at hcount
  simpa [Context.count] using hcount

theorem Context.Switched.count_pos {ctx : Context} (h : ctx.Switched fd) : 0 < ctx.count fd := by
  obtain ⟨c, hmem, -⟩ := h
  exact List.count_pos_iff.mpr (List.mem_map_of_mem (f := Prod.snd) hmem)

/-- Closing a connection takes its descriptor from the switched ones. -/
theorem Tracking.switched_closed (h : Tracking s) (hget : s.ctx.conns[index]? = some (c, fd))
    (hclosed : Closed s index fd io s') (fd' : Fd) :
    s'.ctx.Switched fd' ↔ s.ctx.Switched fd' ∧ fd' ≠ fd := by
  have hperm := hclosed.perm hget
  constructor
  · intro hswitched
    have hbefore : s.ctx.Switched fd' := by
      obtain ⟨c', hmem, ht⟩ := hswitched
      exact ⟨c', hperm.mem_iff.mpr (List.mem_cons_of_mem _ hmem), ht⟩
    refine ⟨hbefore, ?_⟩
    -- Otherwise the descriptor had two connections.
    rintro rfl
    have hcount := hclosed.count hget fd'
    rw [if_pos rfl] at hcount
    have hone := h.alone fd' hbefore
    have hpos := hswitched.count_pos
    omega
  · rintro ⟨⟨c', hmem, ht⟩, hne⟩
    rcases List.mem_cons.mp (hperm.mem_iff.mp hmem) with heq | hmem
    · exact absurd (Prod.mk.inj heq).2 hne
    · exact ⟨c', hmem, ht⟩

theorem Tracking.closed (h : Tracking s) (hget : s.ctx.conns[index]? = some (c, fd))
    (hclosed : Closed s index fd io s') : Tracking s' where
  parallel := hclosed.parallel
  alone := by
    intro fd' hfd'
    have hone := h.alone fd' ((h.switched_closed hget hclosed fd').mp hfd').1
    have hcount := hclosed.count hget fd'
    omega
  isOpen := by
    intro fd' hfd'
    obtain ⟨hswitched, hne⟩ := (h.switched_closed hget hclosed fd').mp hfd'
    rw [hclosed.openFds]
    exact Finset.mem_erase.mpr ⟨hne, h.isOpen fd' hswitched⟩

/-- A connection that is not switched shares its descriptor with no switched one. -/
theorem Tracking.not_switched (h : Tracking s) (hget : s.ctx.conns[index]? = some (c, fd))
    (hc : c.t ≠ .switched) (hclosed : Closed s index fd io s') : ¬ s.ctx.Switched fd := by
  rintro ⟨c', hmem, ht⟩
  rcases List.mem_cons.mp ((hclosed.perm hget).mem_iff.mp hmem) with heq | hmem
  · exact hc ((Prod.mk.inj heq).1 ▸ ht)
  · exact ((h.switched_closed hget hclosed fd).mp ⟨c', hmem, ht⟩).2 rfl

/-- Closing a connection that is not switched. -/
theorem SwitchInv.closed (h : SwitchInv s) (hget : s.ctx.conns[index]? = some (c, fd))
    (hc : c.t ≠ .switched) (hclosed : Closed s index fd io s') : SwitchInv s' where
  toTracking := h.toTracking.closed hget hclosed
  keys := by
    intro fd'
    rw [hclosed.switchdb, h.keys, h.switched_closed hget hclosed]
    refine (and_iff_left_of_imp ?_).symm
    rintro hswitched rfl
    exact h.not_switched hget hc hclosed hswitched
  pairing := by
    rw [hclosed.switchdb]
    exact h.pairing

end Closed

theorem not_switched_of_fdToIndex {ctx : Context} {fd : Fd} (h : ctx.fdToIndex fd = none) :
    ¬ ctx.Switched fd := by
  rintro ⟨c, hmem, -⟩
  obtain ⟨p, hp, hfd⟩ := List.mem_map.mp (List.of_mem_zip hmem).2
  have hne := List.findIdx?_eq_none_iff.mp h p hp
  exact of_decide_eq_false hne hfd

/-- `safe_close_fd` leaves no switched connection on the descriptor. -/
theorem Tracking.safeCloseFd {s s' : State} (h : Tracking s) {fd : Fd} {io : List Io}
    (hclose : s.safeCloseFd fd = some (s', io)) :
    Tracking s' ∧ s'.ctx.switchdb = s.ctx.switchdb ∧
      ∀ fd', s'.ctx.Switched fd' ↔ s.ctx.Switched fd' ∧ fd' ≠ fd := by
  -- a descriptor that is not switched leaves nothing to update
  have hsame : ¬ s.ctx.Switched fd → Tracking s ∧ s.ctx.switchdb = s.ctx.switchdb ∧
      ∀ fd', s.ctx.Switched fd' ↔ s.ctx.Switched fd' ∧ fd' ≠ fd := by
    intro hnot
    refine ⟨h, rfl, fun fd' => (and_iff_left_of_imp ?_).symm⟩
    rintro hswitched rfl
    exact hnot hswitched
  rcases safeCloseFd_eq_some h.parallel hclose with
    ⟨hnot | hnone, rfl, -⟩ | ⟨index, c, hget, -, hclosed⟩
  · exact hsame fun hswitched => hnot (h.isOpen fd hswitched)
  · exact hsame (not_switched_of_fdToIndex hnone)
  · exact ⟨h.closed hget hclosed, hclosed.switchdb, h.switched_closed hget hclosed⟩

/-- Giving up a switch removes both ends from the table and from the connections. -/
theorem SwitchInv.dropSwitch {s s' : State} (h : SwitchInv s) {fd : Fd} {io : List Io}
    (hdrop : s.dropSwitch fd = some (s', io)) : SwitchInv s' := by
  obtain ⟨dest, s₁, io₁, io₂, hdest, h₁, h₂, -⟩ := dropSwitch_eq_some hdrop
  have hnuked : Tracking (s.withSwitchdb (s.ctx.switchdb.nuke fd)) :=
    h.toTracking.congr h.parallel rfl rfl
  obtain ⟨htracking₁, hdb₁, hswitched₁⟩ := hnuked.safeCloseFd h₁
  obtain ⟨htracking₂, hdb₂, hswitched₂⟩ := htracking₁.safeCloseFd h₂
  have hdb : s'.ctx.switchdb = PartnerTable.unlink s.ctx.switchdb fd := hdb₂.trans hdb₁
  refine ⟨htracking₂, ⟨?_, ?_⟩⟩
  · intro fd'
    have hkeys : fd' ∈ s.ctx.switchdb ↔
        (s.withSwitchdb (s.ctx.switchdb.nuke fd)).ctx.Switched fd' := h.keys fd'
    rw [hdb, PartnerTable.mem_unlink hdest, hkeys, hswitched₂, hswitched₁]
    tauto
  · rw [hdb]
    exact h.pairing.unlink fd

/-! ## Adding a switch -/

theorem switched_iff {ctx : Context} {fd : Fd} :
    ctx.Switched fd ↔
      ∃ (k : Nat) (c : Connection) (p : PollFd), ctx.connections[k]? = some c ∧
        ctx.pollfd[k]? = some p ∧ p.fd = fd ∧ c.t = .switched := by
  unfold Context.Switched Context.conns
  simp only [List.mem_iff_getElem?, List.getElem?_zip_eq_some, List.getElem?_map,
    Option.map_eq_some_iff]
  constructor
  · rintro ⟨c, ⟨k, hc, p, hp, hfd⟩, ht⟩
    exact ⟨k, c, p, hc, hp, hfd, ht⟩
  · rintro ⟨k, c, p, hc, hp, hfd, ht⟩
    exact ⟨c, ⟨k, hc, p, hp, hfd⟩, ht⟩

/-- The connections after `add_switch`. -/
theorem getElem?_modify_switched (l : List Connection) (i j k : Nat) :
    ((l.modify i .switched).modify j .switched)[k]? =
      l[k]?.map fun c => if k = i ∨ k = j then c.switched else c := by
  rw [List.getElem?_modify, List.getElem?_modify]
  cases l[k]? with
  | none => rfl
  | some c =>
    by_cases hi : i = k <;> by_cases hj : j = k <;>
      simp [hi, hj, eq_comm (a := k), Connection.switched]

/-- The entries at the index of a descriptor. -/
theorem entries_of_fdToIndex {ctx : Context} (hpar : ctx.Parallel) {fd : Fd} {k : Nat}
    (hk : ctx.fdToIndex fd = some k) :
    ∃ c p, ctx.connections[k]? = some c ∧ ctx.pollfd[k]? = some p ∧ p.fd = fd := by
  obtain ⟨c, hc⟩ := fdToIndex_eq_some hpar hk
  simp only [Context.conns, List.getElem?_zip_eq_some, List.getElem?_map,
    Option.map_eq_some_iff] at hc
  obtain ⟨hc, p, hp, hfd⟩ := hc
  exact ⟨c, p, hc, hp, hfd⟩

/-- The switched descriptors after `add_switch`. -/
theorem switched_addSwitch_iff {ctx ctx' : Context} (hpar : ctx.Parallel) {fd1 fd2 : Fd}
    (hadd : ctx.addSwitch fd1 fd2 = .ok ctx') (fd : Fd) :
    ctx'.Switched fd ↔ fd = fd1 ∨ fd = fd2 ∨ ctx.Switched fd := by
  obtain ⟨i, j, hi, hj, rfl⟩ := addSwitch_eq_ok hadd
  obtain ⟨c₁, p₁, hc₁, hp₁, hfd₁⟩ := entries_of_fdToIndex hpar hi
  obtain ⟨c₂, p₂, hc₂, hp₂, hfd₂⟩ := entries_of_fdToIndex hpar hj
  simp only [switched_iff, getElem?_modify_switched]
  constructor
  · rintro ⟨k, c, p, hc, hp, hfd, ht⟩
    obtain ⟨c₀, hc₀, rfl⟩ := Option.map_eq_some_iff.mp hc
    by_cases hki : k = i
    · rw [hki, hp₁, Option.some.injEq] at hp
      exact .inl (by rw [← hfd, ← hp, hfd₁])
    · by_cases hkj : k = j
      · rw [hkj, hp₂, Option.some.injEq] at hp
        exact .inr (.inl (by rw [← hfd, ← hp, hfd₂]))
      · rw [if_neg (by simp [hki, hkj])] at ht
        exact .inr (.inr ⟨k, c₀, p, hc₀, hp, hfd, ht⟩)
  · rintro (rfl | rfl | ⟨k, c, p, hc, hp, hfd, ht⟩)
    · exact ⟨i, c₁.switched, p₁, by simp [hc₁], hp₁, hfd₁, rfl⟩
    · exact ⟨j, c₂.switched, p₂, by simp [hc₂], hp₂, hfd₂, rfl⟩
    · refine ⟨k, _, p, by rw [hc]; rfl, hp, hfd, ?_⟩
      split
      · rfl
      · exact ht

theorem count_eq {ctx : Context} (h : ctx.Parallel) (fd : Fd) :
    ctx.count fd = (ctx.pollfd.map PollFd.fd).count fd := by
  unfold Context.Parallel at h
  rw [Context.count, Context.conns, List.map_snd_zip (by simp [h])]

/-- What `add_switch` relies on: an open descriptor with one connection, which is not switched. -/
structure Switchable (s : State) (fd : Fd) : Prop where
  isOpen : fd ∈ s.openFds
  tracked : s.ctx.count fd = 1
  notSwitched : ¬ s.ctx.Switched fd

theorem SwitchInv.addSwitch {s : State} (h : SwitchInv s) {fd1 fd2 : Fd} {ctx : Context}
    (hadd : s.ctx.addSwitch fd1 fd2 = .ok ctx) (h1 : Switchable s fd1) (h2 : Switchable s fd2) :
    SwitchInv { s with ctx := ctx } := by
  have hswitched := switched_addSwitch_iff h.parallel hadd
  obtain ⟨i, j, -, -, rfl⟩ := addSwitch_eq_ok hadd
  have hpar : Context.Parallel { s.ctx with
      connections := (s.ctx.connections.modify i .switched).modify j .switched
      switchdb := s.ctx.switchdb.addSwitch fd1 fd2 } := by
    have := h.parallel
    unfold Context.Parallel at *
    simpa using this
  refine ⟨⟨hpar, ?_, ?_⟩, ⟨?_, ?_⟩⟩
  · intro fd hfd
    have hcount := (count_eq hpar fd).trans (count_eq h.parallel fd).symm
    rw [hcount]
    rcases (hswitched fd).mp hfd with rfl | rfl | hfd
    · exact h1.tracked.le
    · exact h2.tracked.le
    · exact h.alone fd hfd
  · intro fd hfd
    rcases (hswitched fd).mp hfd with rfl | rfl | hfd
    · exact h1.isOpen
    · exact h2.isOpen
    · exact h.isOpen fd hfd
  · intro fd
    rw [hswitched, ← h.keys]
    exact PartnerTable.mem_link
  · refine h.pairing.link ?_ ?_
    · rw [h.keys]
      exact h1.notSwitched
    · rw [h.keys]
      exact h2.notSwitched

/-! ## The event loop -/

theorem SwitchInv.close {s s' : State} (h : SwitchInv s) {index : Nat} {r : Except Error Unit}
    {io : List Io} (hc : ∀ c fd, s.ctx.conns[index]? = some (c, fd) → c.t ≠ .switched)
    (hclose : s.close index = some (r, s', io)) : SwitchInv s' := by
  rcases close_eq_some h.parallel hclose with ⟨-, -, rfl, -⟩ | ⟨c, fd, hget, -, hclosed⟩
  · exact h
  · exact h.closed hget (hc c fd hget) hclosed

/-- Handling an entry keeps the invariant unless it closes a switched connection on `POLLHUP`. -/
theorem SwitchInv.handling {s s' : State} (h : SwitchInv s) {index : Nat} {p : PollFd}
    {c : Connection} {io : List Io} {accept : Except Error Fd}
    (hget : s.ctx.conns[index]? = some (c, p.fd))
    (hhup : c.t = .switched → p.revents.pollhup → p.revents.pollin ∨ p.revents.pollout)
    (hhandling : Handling accept s index p c s' io) : SwitchInv s' := by
  cases hhandling with
  | kept => exact h
  | accepted _ hadd => exact h.addNew (by decide) hadd
  | forwarded m => exact h.congr h.parallel rfl rfl rfl
  | unswitched hdrop => exact h.dropSwitch hdrop
  | closed hclosing hclose =>
    refine h.close ?_ hclose
    intro c' fd hget' ht
    rw [hget, Option.some.injEq, Prod.mk.injEq] at hget'
    obtain ⟨rfl, -⟩ := hget'
    obtain ⟨hup, hin, hout⟩ := hclosing ht
    rcases hhup ht hup with hin' | hout'
    · exact hin hin'
    · exact hout hout'
  | written bs hi hm => exact h.congr h.parallel rfl rfl rfl
  | @writtenUnswitched i m bs _ _ hi hm hdrop =>
    have hsent : SwitchInv (s.withTx (swapRemove s.ctx.tx i)) := h.congr h.parallel rfl rfl rfl
    exact hsent.dropSwitch hdrop

/-! ## Careful runs -/

/-- The calls that keep the table consistent, as a condition on the state before the call: no
switched connection is closed by `close` or `close_fd`, nor by a `POLLHUP` without `POLLIN` or
`POLLOUT`; `add_external` does not track a switched descriptor again, and `add_switch` is given two
descriptors it can rely on. -/
def Careful (s : State) : Call → Prop
  | .addExternal fd => ¬ s.ctx.Switched fd
  | .addSwitch fd1 fd2 => fd1 ≠ fd2 ∧ Switchable s fd1 ∧ Switchable s fd2
  | .close index => ∀ c fd, s.ctx.conns[index]? = some (c, fd) → c.t ≠ .switched
  | .closeFd fd => ¬ s.ctx.Switched fd
  | .waitEvent sys =>
    ∀ revents ∈ sys.poll, ∀ index ∈ (s.polled revents).ctx.pollfd.findIdx? handled,
      ∀ p ∈ (s.polled revents).ctx.pollfd[index]?, ∀ c ∈ s.ctx.connections[index]?,
        c.t = .switched → p.revents.pollhup → p.revents.pollin ∨ p.revents.pollout
  | _ => True

theorem SwitchInv.waitEvent {s s' : State} (h : SwitchInv s) {sys : WaitSys}
    {r : Except Error Event} {io : List Io} (hcareful : Careful s (.waitEvent sys))
    (hr : s.waitEvent sys = some (r, s', io)) : SwitchInv s' := by
  obtain ⟨ps, hps, hcases⟩ := waitEvent_handling hr
  have hflags : SwitchInv (s.withPollfd ps) :=
    h.congr (parallel_withPollfd h.parallel hps) (conns_withPollfd hps) rfl rfl
  rcases hcases with ⟨rfl, -⟩ | ⟨revents, index, p, c, hpoll, hindex, hp, hc, hhandling⟩
  · exact hflags
  · refine hflags.handling ?_ (hcareful revents hpoll index hindex p hp c hc) hhandling
    have hget : (s.polled revents).ctx.conns[index]? = some (c, p.fd) := conns_getElem? hc hp
    rw [conns_polled] at hget
    rw [conns_withPollfd hps]
    exact hget

/-- One careful call. -/
theorem step_switchInv {s s' : State} (h : SwitchInv s) {c : Call} (hcareful : Careful s c)
    {io : List Io} (hstep : step s c = some (s', io)) : SwitchInv s' := by
  cases step_stepped hstep with
  | opened =>
    refine ⟨⟨h.parallel, h.alone, ?_⟩, h.keys, h.pairing⟩
    intro fd' hfd'
    exact Finset.mem_insert_of_mem (h.isOpen fd' hfd')
  | serverFailed => exact h
  | server hadd => exact h.addNew (by simp) hadd
  | connectFailed => exact h
  | connected hadd => exact h.addNew (by decide) hadd
  | external => exact h.add (by decide) hcareful rfl (fun _ hfd => hfd)
  | switchRefused => exact h
  | switched hadd =>
    obtain ⟨-, h1, h2⟩ := hcareful
    exact h.addSwitch hadd h1 h2
  | scheduled => exact h.congr h.parallel rfl rfl rfl
  | closed hclose => exact h.close hcareful hclose
  | closedFd hclose =>
    rcases closeFd_eq_some h.parallel hclose with ⟨-, rfl, -⟩ | ⟨index, c, hget, -, hclosed⟩
    · exact h
    · exact h.closed hget (fun ht => hcareful ⟨c, List.mem_of_getElem? hget, ht⟩) hclosed
  | waited hwait => exact h.waitEvent hcareful hwait

theorem switchInv_init : SwitchInv {} where
  parallel := rfl
  alone := by simp [Context.Switched, Context.conns]
  isOpen := by simp [Context.Switched, Context.conns]
  keys := by simp [Context.Switched, Context.conns]
  pairing := PartnerTable.isPairing_empty

/-- **Switch table**: in every state of a careful run the table agrees with the connections, so
the destination of every switched connection is found, and a number that is not in use, hence any
the kernel may give to a new descriptor, has no entry. -/
theorem switchConsistent_of_careful {cs : List Call} {s : State} {io : List Io}
    (hcareful : RunMeets step Careful {} cs) (hrun : runAll step {} cs = some (s, io)) :
    SwitchConsistent s ∧
      (∀ fd, s.ctx.Switched fd → ∃ dest, s.ctx.switchdb.getDest fd = some dest) ∧
      ∀ fd, fd ∉ s.openFds → fd ∉ s.ctx.switchdb := by
  have h : SwitchInv s :=
    runAll_invariant (fun _ _ _ _ hinv hG hstep => step_switchInv hinv hG hstep) switchInv_init
      hcareful hrun
  refine ⟨h.toSwitchConsistent, ?_, ?_⟩
  · intro fd hswitched
    exact PartnerTable.mem_iff_lookup.mp ((h.keys fd).mpr hswitched)
  · intro fd hclosed hkey
    exact hclosed (h.isOpen fd ((h.keys fd).mp hkey))

/-- Two clients, switched. -/
def switchedClients : List Call :=
  [.connectService (.ok 5), .connectService (.ok 6), .addSwitch 5 6]

/-- The first client hangs up: `POLLIN` and an empty `read(2)`. -/
def firstHangsUp : Call :=
  .waitEvent { poll := some [{ pollin := true, pollhup := true }], cbIn := .default (.ok []) }

theorem switchConsistent_hang_up :
    ∃ s io, runAll step {} (switchedClients ++ [firstHangsUp]) = some (s, io) ∧
      SwitchConsistent s := by
  have hrun : (runAll step {} (switchedClients ++ [firstHangsUp])).isSome := by decide +kernel
  obtain ⟨⟨s, io⟩, hrun⟩ := Option.isSome_iff_exists.mp hrun
  have hcareful : RunMeets step Careful {} (switchedClients ++ [firstHangsUp]) := by
    refine ⟨trivial, ?_⟩
    rintro _ ⟨⟩
    refine ⟨trivial, ?_⟩
    rintro _ ⟨⟩
    refine ⟨?_, ?_⟩
    · refine ⟨by decide, ⟨by decide, rfl, ?_⟩, ⟨by decide, rfl, ?_⟩⟩ <;>
        simp [Context.Switched, Context.conns, Context.add_]
    rintro _ ⟨⟩
    refine ⟨?_, fun _ _ => trivial⟩
    rintro revents ⟨⟩ index ⟨⟩ p ⟨⟩ c ⟨⟩ - -
    exact .inl rfl
  exact ⟨s, io, hrun, (switchConsistent_of_careful hcareful hrun).1⟩

/-- `close_fd` leaves the table as it is: a new client that gets the number of the closed one
inherits its switch. -/
theorem not_switchConsistent_reused_fd :
    ∃ s io,
      runAll step {} (switchedClients ++ [.closeFd 5, .connectService (.ok 5)]) = some (s, io) ∧
        s.ctx.switchdb.getDest 5 = some 6 ∧ ¬ SwitchConsistent s := by
  have h : ∃ r,
      runAll step {} (switchedClients ++ [.closeFd 5, .connectService (.ok 5)]) = some r ∧
        r.1.ctx.switchdb.getDest 5 = some 6 ∧
          ∀ e ∈ r.1.ctx.conns, e.2 = 5 → e.1.t ≠ .switched := by
    simp only [← Option.mem_def]
    decide +kernel
  obtain ⟨⟨s, io⟩, hrun, hdest, hnone⟩ := h
  refine ⟨s, io, hrun, hdest, ?_⟩
  intro hconsistent
  obtain ⟨c, hmem, ht⟩ := (hconsistent.keys 5).mp (PartnerTable.mem_iff_lookup.mpr ⟨6, hdest⟩)
  exact hnone (c, 5) hmem rfl ht

end LibIpc.Zig

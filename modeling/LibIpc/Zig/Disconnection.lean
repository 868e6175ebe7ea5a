import LibIpc.Zig.Isolation
import LibIpc.Zig.SwitchTable

/-!
# Who a disconnection names

`wait_event` walks `pollfd` with a pointer to the entry it handles, and `close` deletes that entry
by moving the last one into its place. An event made from the pointer after the deletion names the
client that was moved. The other two ways to report a disconnection name the right client, but one
of them leaves the other end of a switch behind. `namesClient_iff` says exactly when the report is
right.
-/

namespace LibIpc.Zig

open Lib

/-- The tracked descriptors. -/
def Context.fds (ctx : Context) : List Fd := ctx.pollfd.map PollFd.fd

theorem Context.Parallel.map_snd_conns {ctx : Context} (h : ctx.Parallel) :
    ctx.conns.map Prod.snd = ctx.fds := by
  apply List.map_snd_zip
  rw [List.length_map]
  exact Nat.le_of_eq h.symm

theorem mem_fds_iff {ctx : Context} (h : ctx.Parallel) {fd : Fd} :
    fd ∈ ctx.fds ↔ ∃ e ∈ ctx.conns, e.2 = fd := by
  rw [← h.map_snd_conns, List.mem_map]

/-! ## Closing when the descriptors are distinct -/

section Closing
variable {s s' : State} {fd : Fd} {io : List Io}

theorem perm_fds_of_closed {index : Nat} {c : Connection} (hpar : s.ctx.Parallel)
    (hget : s.ctx.conns[index]? = some (c, fd)) (hclosed : Closed s index fd io s') :
    s.ctx.fds.Perm (fd :: s'.ctx.fds) := by
  have hperm := (hclosed.perm hget).map Prod.snd
  rwa [List.map_cons, hpar.map_snd_conns, hclosed.parallel.map_snd_conns] at hperm

/-- Closing the connection on `fd` leaves those on other descriptors. -/
theorem Closed.perm_filter {index : Nat} {c : Connection} (h : Closed s index fd io s')
    (hnodup : (s.ctx.conns.map Prod.snd).Nodup) (hget : s.ctx.conns[index]? = some (c, fd)) :
    s'.ctx.conns.Perm (s.ctx.conns.filter fun e => e.2 ≠ fd) := by
  have hperm := h.perm hget
  have hfilter := hperm.filter fun e => e.2 ≠ fd
  rw [List.filter_cons_of_neg (by simp)] at hfilter
  have hrest : s'.ctx.conns.filter (fun e => e.2 ≠ fd) = s'.ctx.conns := by
    have hcons := (hperm.map Prod.snd).nodup_iff.mp hnodup
    rw [List.map_cons, List.nodup_cons] at hcons
    apply List.filter_eq_self.mpr
    intro e he
    rw [decide_eq_true_eq]
    intro heq
    exact hcons.1 (List.mem_map.mpr ⟨e, he, heq⟩)
  rw [hrest] at hfilter
  exact hfilter.symm

/-- `safe_close_fd` takes the connection on `fd` away if `fd` is open. -/
structure SafelyClosed (s : State) (fd : Fd) (s' : State) : Prop where
  parallel : s'.ctx.Parallel
  conns : s'.ctx.conns.Perm (s.ctx.conns.filter fun e => ¬ (e.2 = fd ∧ fd ∈ s.openFds))
  fewer : s'.openFds ⊆ s.openFds
  openFds : ∀ fd', fd' ≠ fd → (fd' ∈ s'.openFds ↔ fd' ∈ s.openFds)

theorem safelyClosed (hpar : s.ctx.Parallel) (hnodup : (s.ctx.conns.map Prod.snd).Nodup)
    (h : s.safeCloseFd fd = some (s', io)) : SafelyClosed s fd s' := by
  rcases safeCloseFd_eq_some hpar h with ⟨hnot | hnone, rfl, -⟩ | ⟨index, c, hget, -, hclosed⟩
  · exact ⟨hpar, by simp [hnot], subset_rfl, fun _ _ => Iff.rfl⟩
  · have hself : (s'.ctx.conns.filter fun e => ¬ (e.2 = fd ∧ fd ∈ s'.openFds)) =
        s'.ctx.conns := by
      apply List.filter_eq_self.mpr
      intro e he
      obtain ⟨p, hp, hfd⟩ := List.mem_map.mp (List.of_mem_zip (a := e.1) (b := e.2) he).2
      have hne := List.findIdx?_eq_none_iff.mp hnone p hp
      have hne' : e.2 ≠ fd := by
        rw [← hfd]
        exact of_decide_eq_false hne
      simp [hne']
    exact ⟨hpar, by rw [hself], subset_rfl, fun _ _ => Iff.rfl⟩
  · refine ⟨hclosed.parallel, ?_, ?_, ?_⟩
    · have hperm := hclosed.perm_filter hnodup hget
      simpa [hclosed.wasOpen] using hperm
    · rw [hclosed.openFds]
      exact Finset.erase_subset fd s.openFds
    · intro fd' hne
      rw [hclosed.openFds]
      simp [hne]

/-- Giving up the switch of `fd` takes its connection and that of the other end away, where these
are open. -/
theorem dropSwitch_conns (hpar : s.ctx.Parallel) (hnodup : (s.ctx.conns.map Prod.snd).Nodup)
    (h : s.dropSwitch fd = some (s', io)) :
    ∃ dest, s.ctx.switchdb.lookup fd = some dest ∧ s'.ctx.Parallel ∧
      s'.ctx.conns.Perm (s.ctx.conns.filter fun e =>
        ¬ ((e.2 = fd ∨ e.2 = dest) ∧ e.2 ∈ s.openFds)) := by
  obtain ⟨dest, s₁, io₁, io₂, hdest, h₁, h₂, -⟩ := dropSwitch_eq_some h
  have hfirst : SafelyClosed (s.withSwitchdb (s.ctx.switchdb.nuke fd)) fd s₁ :=
    safelyClosed hpar hnodup h₁
  have hnodup₁ : (s₁.ctx.conns.map Prod.snd).Nodup := by
    rw [(hfirst.conns.map Prod.snd).nodup_iff]
    exact hnodup.sublist (List.filter_sublist.map Prod.snd)
  have hsecond := safelyClosed hfirst.parallel hnodup₁ h₂
  refine ⟨dest, hdest, hsecond.parallel, ?_⟩
  have hboth := hsecond.conns.trans (hfirst.conns.filter _)
  rw [List.filter_filter] at hboth
  refine hboth.trans (List.Perm.of_eq ?_)
  apply List.filter_congr
  intro e _
  rw [← Bool.decide_and, decide_eq_decide]
  show ¬ (e.2 = dest ∧ dest ∈ s₁.openFds) ∧ ¬ (e.2 = fd ∧ fd ∈ s.openFds) ↔ _
  by_cases hfd : e.2 = fd
  · constructor
    · rintro ⟨-, hclosed⟩ ⟨-, hopen⟩
      exact hclosed ⟨hfd, hfd ▸ hopen⟩
    · intro hclosed
      have hnot : fd ∉ s.openFds := fun hopen => hclosed ⟨.inl hfd, hfd ▸ hopen⟩
      refine ⟨?_, fun h => hnot h.2⟩
      rintro ⟨hdest, hopen⟩
      exact hnot (hfd ▸ hdest ▸ hfirst.fewer hopen)
  · have hother : e.2 = dest → (dest ∈ s₁.openFds ↔ e.2 ∈ s.openFds) := by
      intro heq
      rw [← heq]
      exact hfirst.openFds e.2 hfd
    simp only [hfd, false_and, not_false_eq_true, and_true, false_or]
    exact not_congr (and_congr_right hother)

end Closing

/-! ## The three ways to report a disconnection -/

section Report
variable {s s' : State} {index : Nat} {p : PollFd} {c : Connection} {event : Event} {io : List Io}

theorem readSwitched_disconnection {cb : In}
    (h : s.readSwitched index p.fd cb = some (.ok event, s', io)) (ht : event.t = .disconnection) :
    event.origin = p.fd ∧ s.dropSwitch p.fd = some (s', io) := by
  have horigin : (s.ctx.switchdb.handleEventRead index p.fd cb).origin = p.fd := by
    unfold SwitchDB.handleEventRead
    split <;> rfl
  unfold State.readSwitched at h
  simp only at h
  split at h
  · rename_i hrx
    obtain ⟨m, -, h⟩ := Option.bind_eq_some_iff.mp h
    cases h
    rw [ht] at hrx
    cases hrx
  · obtain ⟨⟨s₁, io₁⟩, hdrop, h⟩ := Option.map_eq_some_iff.mp h
    cases h
    exact ⟨horigin, hdrop⟩
  · rename_i herror
    obtain ⟨⟨s₁, io₁⟩, hdrop, h⟩ := Option.map_eq_some_iff.mp h
    cases h
    rw [ht] at herror
    cases herror
  · cases h

theorem disconnect_ok {origin : State → Fd}
    (h : s.disconnect index origin = some (.ok event, s', io)) :
    event.t = .disconnection ∧ event.origin = origin s' ∧
      s.close index = some (.ok (), s', io) := by
  unfold State.disconnect at h
  obtain ⟨⟨r, s₁, io₁⟩, hclose, h⟩ := Option.bind_eq_some_iff.mp h
  cases r with
  | error e => cases h
  | ok u =>
    cases h
    exact ⟨rfl, rfl, hclose⟩

theorem readMessage_disconnection {r : ReadResult}
    (h : s.readMessage index p r = some (.ok event, s', io)) (ht : event.t = .disconnection) :
    event.origin = (s'.ctx.pollfd.getD index p).fd ∧ s.close index = some (.ok (), s', io) := by
  unfold State.readMessage at h
  split at h
  · exact (disconnect_ok h).2
  · cases h
  · exact (disconnect_ok h).2
  · cases h
    cases ht

/-- The events of a message that is written: a closed output callback is an error. -/
theorem writeMessage_event {sys : WaitSys}
    (h : s.writeMessage index p c sys = some (.ok event, s', io)) :
    event.t = .switchTx ∨ event.t = .error ∨ event.t = .messageTx := by
  simp only [State.writeMessage, Option.bind_eq_bind, Option.pure_def] at h
  obtain ⟨i, -, h⟩ := Option.bind_eq_some_iff.mp h
  obtain ⟨m, -, h⟩ := Option.bind_eq_some_iff.mp h
  split at h
  · split at h
    · rename_i htx
      cases h
      exact .inl htx
    · rename_i herror
      obtain ⟨⟨s₁, io₁⟩, -, h⟩ := Option.bind_eq_some_iff.mp h
      cases h
      exact .inr (.inl herror)
    · cases h
  · split at h
    · cases h
    · cases h
      exact .inr (.inr rfl)

/-- What was done when the dispatch reports a disconnection: a switch given up, or a connection
closed, the event made after that or before. -/
theorem dispatch_disconnection {sys : WaitSys}
    (h : s.dispatch index p c sys = some (.ok event, s', io)) (ht : event.t = .disconnection) :
    (p.revents.pollin ∧ c.t = .switched ∧ event.origin = p.fd ∧
        s.dropSwitch p.fd = some (s', io)) ∨
      (p.revents.pollin ∧ c.t ≠ .switched ∧ event.origin = (s'.ctx.pollfd.getD index p).fd ∧
        s.close index = some (.ok (), s', io)) ∨
      (¬ p.revents.pollin ∧ event.origin = p.fd ∧ s.close index = some (.ok (), s', io)) := by
  unfold State.dispatch at h
  split at h
  · rename_i hin
    split at h
    · unfold State.acceptNewClient at h
      split at h
      · cases h
      · split at h
        · cases h
        · obtain ⟨s₁, -, h⟩ := Option.bind_eq_some_iff.mp h
          cases h
          cases ht
    · rename_i hswitched
      exact .inl ⟨hin, hswitched, readSwitched_disconnection h ht⟩
    · cases h
      cases ht
    · rename_i hipc
      exact .inr (.inl ⟨hin, by rw [hipc]; decide, readMessage_disconnection h ht⟩)
  · rename_i hin
    split at h
    · have hevent := writeMessage_event h
      simp [ht] at hevent
    · split at h
      · exact .inr (.inr ⟨hin, (disconnect_ok h).2⟩)
      · cases h
        cases ht

end Report

/-! ## The right client -/

/-- The descriptors a disconnection of the connection `c` on `fd` is about: `fd` itself and, when
it is switched, the other end. -/
def Leaving (s : State) (c : Connection) (fd fd' : Fd) : Prop :=
  fd' = fd ∨ (c.t = .switched ∧ s.ctx.switchdb.lookup fd = some fd')

instance (s : State) (c : Connection) (fd fd' : Fd) : Decidable (Leaving s c fd fd') :=
  inferInstanceAs (Decidable (_ ∨ _))

/-- The event names the entry `p` of the connection `c` that was handled; that descriptor is no
longer tracked, and the connections that remain are the others. -/
structure NamesClient (s : State) (p : PollFd) (c : Connection) (event : Event) (s' : State) :
    Prop where
  origin : event.origin = p.fd
  tracked : event.origin ∈ s.ctx.fds
  untracked : event.origin ∉ s'.ctx.fds
  others : s'.ctx.conns.Perm (s.ctx.conns.filter fun e => ¬ Leaving s c event.origin e.2)

theorem filter_perm_filter_iff {α : Type} {l : List α} {q q' : α → Bool} :
    (l.filter q).Perm (l.filter q') ↔ ∀ x ∈ l, (q x ↔ q' x) := by
  constructor
  · intro hperm x hx
    have hmem := hperm.mem_iff (a := x)
    simpa [List.mem_filter, hx] using hmem
  · intro h
    apply List.Perm.of_eq
    apply List.filter_congr
    intro x hx
    exact Bool.eq_iff_iff.mpr (h x hx)

section Names
variable {s s' : State} {index : Nat} {p : PollFd} {c : Connection} {event : Event} {io : List Io}

/-- That the descriptor is gone follows from which connections are left. -/
theorem namesClient_iff_others (hpar' : s'.ctx.Parallel) (hmem : p.fd ∈ s.ctx.fds)
    {q : Connection × Fd → Bool} (hconns : s'.ctx.conns.Perm (s.ctx.conns.filter q)) :
    NamesClient s p c event s' ↔
      event.origin = p.fd ∧ ∀ e ∈ s.ctx.conns, (q e ↔ ¬ Leaving s c p.fd e.2) := by
  constructor
  · intro h
    have hothers := hconns.symm.trans h.others
    rw [filter_perm_filter_iff, h.origin] at hothers
    exact ⟨h.origin, fun e he => by simpa using hothers e he⟩
  · rintro ⟨horigin, hq⟩
    have hothers : s'.ctx.conns.Perm
        (s.ctx.conns.filter fun e => ¬ Leaving s c event.origin e.2) := by
      refine hconns.trans (filter_perm_filter_iff.mpr ?_)
      intro e he
      rw [horigin]
      simpa using hq e he
    refine ⟨horigin, horigin ▸ hmem, ?_, hothers⟩
    rw [mem_fds_iff hpar']
    rintro ⟨e, he, heq⟩
    have hstays := List.of_mem_filter (hothers.mem_iff.mp he)
    rw [decide_eq_true_eq] at hstays
    exact hstays (.inl heq)

theorem close_fds (hpar : s.ctx.Parallel) (hp : s.ctx.pollfd[index]? = some p)
    (hc : s.ctx.connections[index]? = some c) (h : s.close index = some (.ok (), s', io)) :
    Closed s index p.fd io s' ∧ s'.ctx.fds = swapRemove s.ctx.fds index := by
  have hclosed := (closed_of_close hpar (conns_getElem? hc hp) h).2
  refine ⟨hclosed, ?_⟩
  rw [← hclosed.parallel.map_snd_conns, hclosed.conns, ← swapRemove_map, hpar.map_snd_conns]

/-- Closing the connection on `p.fd` is what a disconnection should do, unless it is switched and
the other end is still there. -/
theorem namesClient_close_iff (hpar : s.ctx.Parallel) (hnodup : s.ctx.fds.Nodup)
    (hp : s.ctx.pollfd[index]? = some p) (hc : s.ctx.connections[index]? = some c)
    (h : s.close index = some (.ok (), s', io)) :
    NamesClient s p c event s' ↔
      event.origin = p.fd ∧ (c.t = .switched → ∀ peer ∈ s.ctx.switchdb.lookup p.fd,
        peer = p.fd ∨ peer ∉ s.ctx.fds) := by
  obtain ⟨hclosed, -⟩ := close_fds hpar hp hc h
  have hget := conns_getElem? hc hp
  have hmem : p.fd ∈ s.ctx.fds := (mem_fds_iff hpar).mpr ⟨_, List.mem_of_getElem? hget, rfl⟩
  have hperm := hclosed.perm_filter (by rwa [hpar.map_snd_conns]) hget
  rw [namesClient_iff_others hclosed.parallel hmem hperm]
  refine and_congr_right fun _ => ?_
  constructor
  · intro hq ht peer hpeer
    rw [or_iff_not_imp_right, not_not]
    intro htracked
    obtain ⟨e, he, rfl⟩ := (mem_fds_iff hpar).mp htracked
    by_contra hne
    have hstays := (hq e he).mp (by simpa using hne)
    exact hstays (.inr ⟨ht, hpeer⟩)
  · intro hpeer e he
    rw [decide_eq_true_eq]
    refine not_congr ⟨fun heq => .inl heq, ?_⟩
    rintro (heq | ⟨ht, hlookup⟩)
    · exact heq
    · rcases hpeer ht e.2 hlookup with heq | hout
      · exact heq
      · exact absurd ((mem_fds_iff hpar).mpr ⟨e, he, rfl⟩) hout

/-- Giving up the switch is what a disconnection should do, when both ends that are tracked are
open. -/
theorem namesClient_dropSwitch_iff (hpar : s.ctx.Parallel) (hnodup : s.ctx.fds.Nodup)
    (hmem : p.fd ∈ s.ctx.fds) (ht : c.t = .switched) (horigin : event.origin = p.fd)
    (h : s.dropSwitch p.fd = some (s', io)) :
    NamesClient s p c event s' ↔
      p.fd ∈ s.openFds ∧ ∀ peer ∈ s.ctx.switchdb.lookup p.fd,
        peer = p.fd ∨ peer ∉ s.ctx.fds ∨ peer ∈ s.openFds := by
  obtain ⟨dest, hdest, hpar', hperm⟩ := dropSwitch_conns hpar (by rwa [hpar.map_snd_conns]) h
  have hleaving : ∀ fd, Leaving s c p.fd fd ↔ fd = p.fd ∨ fd = dest := by
    intro fd
    rw [Leaving, hdest, Option.some.injEq]
    simp [ht, eq_comm]
  rw [namesClient_iff_others hpar' hmem hperm]
  simp only [horigin, true_and, hleaving, decide_eq_true_eq, hdest, Option.mem_def,
    Option.some.injEq, forall_eq']
  constructor
  · intro hq
    have hopen : ∀ fd ∈ s.ctx.fds, fd = p.fd ∨ fd = dest → fd ∈ s.openFds := by
      intro fd hfd hleaves
      obtain ⟨e, he, rfl⟩ := (mem_fds_iff hpar).mp hfd
      by_contra hclosed
      exact (hq e he).mp (fun h => hclosed h.2) hleaves
    refine ⟨hopen p.fd hmem (.inl rfl), ?_⟩
    by_cases htracked : dest ∈ s.ctx.fds
    · exact .inr (.inr (hopen dest htracked (.inr rfl)))
    · exact .inr (.inl htracked)
  · rintro ⟨hself, hpeer⟩ e he
    refine not_congr (and_iff_left_of_imp ?_)
    have htracked : e.2 ∈ s.ctx.fds := (mem_fds_iff hpar).mpr ⟨e, he, rfl⟩
    rintro (heq | heq)
    · exact heq ▸ hself
    · rcases hpeer with hp | hout | hopen
      · rw [heq, hp]
        exact hself
      · exact absurd (heq ▸ htracked) hout
      · exact heq ▸ hopen

end Names

/-! ## `wait_event` -/

/-- `wait_event` stops at the entry `p` of the connection `c`, number `index`. -/
def StopsAt (s : State) (sys : WaitSys) (index : Nat) (p : PollFd) (c : Connection) : Prop :=
  ∃ revents, sys.poll = some revents ∧
    (s.polled revents).ctx.pollfd.findIdx? handled = some index ∧
    (s.polled revents).ctx.pollfd[index]? = some p ∧ s.ctx.connections[index]? = some c

/-- When the report is right. A client that leaves must be the last of the table; both ends of a
switch must be open to be closed; and `POLLHUP` must not find the other end of a switch tracked. -/
def ReportsRight (s : State) (index : Nat) (p : PollFd) (c : Connection) : Prop :=
  if p.revents.pollin then
    if c.t = .switched then
      p.fd ∈ s.openFds ∧ ∀ peer ∈ s.ctx.switchdb.lookup p.fd,
        peer = p.fd ∨ peer ∉ s.ctx.fds ∨ peer ∈ s.openFds
    else index + 1 = s.ctx.pollfd.length
  else c.t = .switched → ∀ peer ∈ s.ctx.switchdb.lookup p.fd, peer = p.fd ∨ peer ∉ s.ctx.fds

/-- An event is the one of a poll without an entry to handle, or comes from the dispatch on the
entry `wait_event` stops at. -/
theorem waitEvent_ok {s s' : State} {sys : WaitSys} {event : Event} {io : List Io}
    (h : s.waitEvent sys = some (.ok event, s', io)) :
    ((event.t = .timer ∨ event.t = .error) ∧ event.m = none) ∨
      ∃ revents index p c, sys.poll = some revents ∧
        (s.polled revents).ctx.pollfd.findIdx? handled = some index ∧
        (s.polled revents).ctx.pollfd[index]? = some p ∧ s.ctx.connections[index]? = some c ∧
        (s.polled revents).dispatch index p c sys = some (.ok event, s', io) := by
  rcases waitEvent_cases h with ⟨hfailed, -⟩ | ⟨revents, hpoll, hcases⟩
  · cases hfailed
  · rcases hcases with ⟨-, -, event', hok, hnothing⟩ | ⟨index, p, c, hindex, hp, hc, hdispatch⟩
    · cases hok
      exact .inl hnothing
    · exact .inr ⟨revents, index, p, c, hpoll, hindex, hp, hc, hdispatch⟩

/-- The flags of the entries do not matter. -/
theorem namesClient_polled_iff {s s' : State} {p : PollFd} {c : Connection} {event : Event}
    (revents : List PollEvents) :
    NamesClient (s.polled revents) p c event s' ↔ NamesClient s p c event s' := by
  have hfds : (s.polled revents).ctx.fds = s.ctx.fds := map_fd_polled s revents
  have hconns := conns_polled s revents
  constructor
  · rintro ⟨h₁, h₂, h₃, h₄⟩
    exact ⟨h₁, hfds ▸ h₂, h₃, hconns ▸ h₄⟩
  · rintro ⟨h₁, h₂, h₃, h₄⟩
    exact ⟨h₁, hfds ▸ h₂, h₃, hconns ▸ h₄⟩

/-- **Disconnections**: an event of type `DISCONNECTION` comes from one entry, and it names that
entry's client, who has left together with the other end of its switch and nobody else, exactly
under the condition `ReportsRight` on the state before the call. -/
theorem namesClient_iff {s s' : State} (h : ReachableState s) (hnodup : s.ctx.fds.Nodup)
    {sys : WaitSys} {event : Event} {io : List Io}
    (hwait : s.waitEvent sys = some (.ok event, s', io)) (ht : event.t = .disconnection) :
    ∃ index p c, StopsAt s sys index p c ∧
      (NamesClient s p c event s' ↔ ReportsRight s index p c) := by
  rcases waitEvent_ok hwait with ⟨hother, -⟩ | ⟨revents, index, p, c, hpoll, hindex, hp, hc, hdispatch⟩
  · simp [ht] at hother
  refine ⟨index, p, c, ⟨revents, hpoll, hindex, hp, hc⟩, ?_⟩
  have hpar : (s.polled revents).ctx.Parallel :=
    parallel_polled h.parallel revents
  have hfds : (s.polled revents).ctx.fds = s.ctx.fds := map_fd_polled s revents
  have hnodup' : (s.polled revents).ctx.fds.Nodup := hfds ▸ hnodup
  have hfd : (s.polled revents).ctx.fds[index]? = some p.fd := by
    rw [Context.fds, List.getElem?_map, hp]
    rfl
  rw [← namesClient_polled_iff revents]
  unfold ReportsRight
  rcases dispatch_disconnection hdispatch ht with
    ⟨hin, hswitched, horigin, hdrop⟩ | ⟨hin, hswitched, horigin, hclose⟩ | ⟨hin, horigin, hclose⟩
  · rw [if_pos hin, if_pos hswitched, ← hfds]
    exact namesClient_dropSwitch_iff hpar hnodup' (List.mem_of_getElem? hfd) hswitched horigin
      hdrop
  · -- The event is made from the slot after the deletion.
    rw [if_pos hin, if_neg hswitched, namesClient_close_iff hpar hnodup' hp hc hclose, horigin]
    have hslot : (s'.ctx.pollfd.getD index p).fd =
        (swapRemove (s.polled revents).ctx.fds index).getD index p.fd := by
      rw [← (close_fds hpar hp hc hclose).2, Context.fds, List.getD_eq_getElem?_getD,
        List.getD_eq_getElem?_getD, List.getElem?_map]
      exact (Option.getD_map PollFd.fd p _).symm
    have hlength : (s.polled revents).ctx.fds.length = s.ctx.pollfd.length := by
      rw [hfds, Context.fds, List.length_map]
    rw [hslot, getD_swapRemove_eq_iff hnodup' hfd, hlength]
    exact and_iff_left fun ht => absurd ht hswitched
  · rw [if_neg hin, namesClient_close_iff hpar hnodup' hp hc hclose, hfds]
    exact and_iff_right horigin

/-- Two IPC clients, on descriptors 5 and 6. -/
def twoClients : State :=
  { ctx :=
      { connections := [{ t := .ipc }, { t := .ipc }]
        pollfd := [{ fd := 5, events := { pollin := true } },
          { fd := 6, events := { pollin := true } }] }
    openFds := {6, 5} }

theorem reachable_twoClients : ReachableState twoClients :=
  ⟨[.connectService (.ok 5), .connectService (.ok 6)], [], rfl⟩

/-- The client at `index` of two has closed its end: `POLLIN`, then an empty `read(2)`. -/
def leaves (index : Nat) : WaitSys :=
  { poll := some ((List.replicate 2 {}).set index { pollin := true }), read := .ok [] }

/-- The entry of a client on `fd` that has something to read. -/
def readyEntry (fd : Fd) : PollFd :=
  { fd := fd, events := { pollin := true }, revents := { pollin := true } }

/-- The last client of the table is named when it leaves. -/
theorem namesClient_last_leaves :
    ∃ event s' io, twoClients.waitEvent (leaves 1) = some (.ok event, s', io) ∧
      StopsAt twoClients (leaves 1) 1 (readyEntry 6) { t := .ipc } ∧
      NamesClient twoClients (readyEntry 6) { t := .ipc } event s' := by
  refine ⟨_, _, _, rfl, ⟨_, rfl, rfl, rfl, rfl⟩, ?_⟩
  have hleaves : twoClients.waitEvent (leaves 1) = some (.ok _, _, _) := rfl
  obtain ⟨index, p, c, ⟨revents, hpoll, hindex, hp, hc⟩, hiff⟩ :=
    namesClient_iff reachable_twoClients (by decide) hleaves rfl
  cases hpoll
  cases hindex
  cases hp
  cases hc
  apply hiff.mpr
  rfl

/-- When the first client leaves, the event names the second one, who has not. -/
theorem not_namesClient_first_leaves :
    ReachableState twoClients ∧ twoClients.ctx.fds.Nodup ∧
      StopsAt twoClients (leaves 0) 0 (readyEntry 5) { t := .ipc } ∧
      ∃ event s' io, twoClients.waitEvent (leaves 0) = some (.ok event, s', io) ∧
        event.t = .disconnection ∧ event.origin = 6 ∧ event.origin ∈ s'.ctx.fds ∧
        ¬ NamesClient twoClients (readyEntry 5) { t := .ipc } event s' := by
  refine ⟨reachable_twoClients, by decide, ⟨_, rfl, rfl, rfl, rfl⟩, _, _, _, rfl, rfl, rfl,
    by decide, ?_⟩
  intro h
  have horigin := h.origin
  revert horigin
  decide

end LibIpc.Zig

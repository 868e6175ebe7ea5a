import LibIpc.Zig.Disconnection

/-!
# When `wait_event` asks for `POLLOUT`

The `events` of an entry stay from one `wait_event` to the next: `POLLOUT` is set for every
descriptor that has a message, and cleared only where it is reported. The branch that handles it
looks for a message of the descriptor with an index that starts undefined. `Armed` is the invariant
that makes this right: a descriptor whose bit is set has a message in `tx`.
-/

namespace LibIpc.Zig

open Lib

/-- Every descriptor is tracked once, and has a message to send where `POLLOUT` is asked for. -/
structure Armed (s : State) : Prop where
  parallel : s.ctx.Parallel
  nodup : s.ctx.fds.Nodup
  queued : ∀ p ∈ s.ctx.pollfd, p.events.pollout → ∃ m ∈ s.ctx.tx, m.fd = p.fd

/-! ## Closing -/

/-- Connections are gone, with their own messages at most. -/
structure Shrinks (s s' : State) : Prop where
  parallel : s'.ctx.Parallel
  nodup : s'.ctx.fds.Nodup
  entries : ∀ p ∈ s'.ctx.pollfd, p ∈ s.ctx.pollfd
  messages : ∀ m ∈ s.ctx.tx, m.fd ∈ s'.ctx.fds → m ∈ s'.ctx.tx

section Closing
variable {s s' s'' : State} {fd : Fd} {io : List Io}

theorem Shrinks.refl (hpar : s.ctx.Parallel) (hnodup : s.ctx.fds.Nodup) : Shrinks s s :=
  ⟨hpar, hnodup, fun _ hp => hp, fun _ hm _ => hm⟩

theorem Shrinks.trans (h : Shrinks s s') (h' : Shrinks s' s'') : Shrinks s s'' where
  parallel := h'.parallel
  nodup := h'.nodup
  entries := fun p hp => h.entries p (h'.entries p hp)
  messages := by
    intro m hm hfd
    obtain ⟨p, hp, hpfd⟩ := List.mem_map.mp hfd
    have hfd' : m.fd ∈ s'.ctx.fds := hpfd ▸ List.mem_map_of_mem (h'.entries p hp)
    exact h'.messages m (h.messages m hm hfd') hfd

theorem Armed.shrinks (h : Armed s) (hs : Shrinks s s') : Armed s' where
  parallel := hs.parallel
  nodup := hs.nodup
  queued := by
    intro p hp hout
    obtain ⟨m, hm, hfd⟩ := h.queued p (hs.entries p hp) hout
    exact ⟨m, hs.messages m hm (hfd ▸ List.mem_map_of_mem hp), hfd⟩

/-- `close` moves the last entry; it makes none. -/
theorem pollfd_of_close {index : Nat} {r : Except Error Unit}
    (h : s.close index = some (r, s', io)) : ∀ p ∈ s'.ctx.pollfd, p ∈ s.ctx.pollfd := by
  unfold State.close at h
  split at h
  · cases h
    exact fun _ hp => hp
  · simp only [Option.bind_eq_bind, Option.pure_def] at h
    obtain ⟨c, -, h⟩ := Option.bind_eq_some_iff.mp h
    obtain ⟨p, -, h⟩ := Option.bind_eq_some_iff.mp h
    split at h
    · cases h
      exact fun _ hp => mem_of_mem_swapRemove hp
    · cases h

theorem shrinks_of_close (hpar : s.ctx.Parallel) (hnodup : s.ctx.fds.Nodup) {index : Nat}
    {r : Except Error Unit} (h : s.close index = some (r, s', io)) : Shrinks s s' := by
  rcases close_eq_some hpar h with ⟨-, -, rfl, -⟩ | ⟨c, fd, hget, -, hclosed⟩
  · exact .refl hpar hnodup
  · have hperm := (perm_fds_of_closed hpar hget hclosed).nodup_iff.mp hnodup
    rw [List.nodup_cons] at hperm
    refine ⟨hclosed.parallel, hperm.2, pollfd_of_close h, ?_⟩
    intro m hm hfd
    -- The descriptor that was closed is not tracked a second time.
    have hne : m.fd ≠ fd := fun heq => hperm.1 (heq ▸ hfd)
    rw [hclosed.tx.mem_iff, List.mem_filter]
    exact ⟨hm, decide_eq_true hne⟩

theorem shrinks_of_closeFd (hpar : s.ctx.Parallel) (hnodup : s.ctx.fds.Nodup)
    {r : Except Error Unit} (h : s.closeFd fd = some (r, s', io)) : Shrinks s s' := by
  rcases closeFd_eq_some hpar h with ⟨-, rfl, -⟩ | ⟨index, c, -, hclose, -⟩
  · exact .refl hpar hnodup
  · exact shrinks_of_close hpar hnodup hclose

theorem shrinks_of_safeCloseFd (hpar : s.ctx.Parallel) (hnodup : s.ctx.fds.Nodup)
    (h : s.safeCloseFd fd = some (s', io)) : Shrinks s s' := by
  rcases safeCloseFd_eq_some hpar h with ⟨-, rfl, -⟩ | ⟨index, c, -, hclose, -⟩
  · exact .refl hpar hnodup
  · exact shrinks_of_close hpar hnodup hclose

theorem shrinks_of_dropSwitch (hpar : s.ctx.Parallel) (hnodup : s.ctx.fds.Nodup)
    (h : s.dropSwitch fd = some (s', io)) : Shrinks s s' := by
  obtain ⟨dest, s₁, io₁, io₂, -, h₁, h₂, -⟩ := dropSwitch_eq_some h
  have hnuked : Shrinks (s.withSwitchdb (s.ctx.switchdb.nuke fd)) s₁ :=
    shrinks_of_safeCloseFd hpar hnodup h₁
  have hfirst : Shrinks s s₁ :=
    ⟨hnuked.parallel, hnuked.nodup, hnuked.entries, hnuked.messages⟩
  exact hfirst.trans (shrinks_of_safeCloseFd hfirst.parallel hfirst.nodup h₂)

end Closing

/-! ## The other changes -/

section Changes
variable {s s' : State} {index : Nat} {p : PollFd} {c : Connection} {fd : Fd} {io : List Io}
  {r : Except Error Event}

/-- A new entry is asked for input only. -/
theorem Armed.add (h : Armed s) (hfd : fd ∉ s.ctx.fds) (hctx : s'.ctx = s.ctx.add_ c fd) :
    Armed s' := by
  refine ⟨?_, ?_, ?_⟩
  · rw [hctx]
    exact parallel_add_ h.parallel c fd
  · have hfds : s'.ctx.fds = s.ctx.fds ++ [fd] := by
      rw [hctx, Context.fds, Context.add_, List.map_append]
      rfl
    rw [hfds, ← List.concat_eq_append]
    exact h.nodup.concat hfd
  · rw [hctx]
    intro p hp hout
    rcases List.mem_append.mp hp with hp | hp
    · exact h.queued p hp hout
    · rw [List.mem_singleton] at hp
      rw [hp] at hout
      cases hout

theorem Armed.addNew (h : Armed s) (hfd : fd ∉ s.ctx.fds) (hadd : s.addNew c fd = some s') :
    Armed s' := by
  obtain ⟨-, rfl⟩ := addNew_eq_some hadd
  exact h.add hfd rfl

theorem Armed.schedule (h : Armed s) (m : Message) : Armed (s.schedule m) where
  parallel := h.parallel
  nodup := h.nodup
  queued := by
    intro p hp hout
    obtain ⟨m', hm', hfd⟩ := h.queued p hp hout
    exact ⟨m', List.mem_append_left _ hm', hfd⟩

/-- Other flags, as long as no bit is set without a message. -/
theorem Armed.withPollfd (h : Armed s) {ps : List PollFd}
    (hps : ps.map PollFd.fd = s.ctx.pollfd.map PollFd.fd)
    (hqueued : ∀ p ∈ ps, p.events.pollout → ∃ m ∈ s.ctx.tx, m.fd = p.fd) :
    Armed (s.withPollfd ps) where
  parallel := parallel_withPollfd h.parallel hps
  nodup := by
    show (ps.map PollFd.fd).Nodup
    rw [hps]
    exact h.nodup
  queued := hqueued

/-- The bit is set for the descriptors that have a message. -/
theorem Armed.prepared (h : Armed s) : Armed s.prepared := by
  apply h.withPollfd (map_fd_pollEntries s.ctx)
  intro p hp hout
  obtain ⟨q, hq, rfl⟩ := List.mem_map.mp hp
  simp only [Bool.or_eq_true, List.any_eq_true, decide_eq_true_eq] at hout
  rcases hout with hbefore | hnow
  · exact h.queued q hq hbefore
  · exact hnow

theorem Armed.polled (h : Armed s) (revents : List PollEvents) : Armed (s.polled revents) := by
  apply h.prepared.withPollfd (map_fd_storeRevents _ revents)
  intro p hp hout
  obtain ⟨i, hi, rfl⟩ := List.mem_mapIdx.mp hp
  exact h.prepared.queued (pollEntries s.ctx)[i] (List.getElem_mem hi) hout

/-- `POLLOUT` is handled: the bit is cleared and one message for the descriptor leaves the queue. -/
theorem Armed.handed (h : Armed s) (hp : s.ctx.pollfd[index]? = some p) (p' : PollFd)
    (hfd : p'.fd = p.fd) (hclear : p'.events.pollout = false) {i : Nat} {m : Message}
    (hm : s.ctx.tx[i]? = some m) (hmfd : m.fd = p.fd) :
    Armed ((s.withPollfd (s.ctx.pollfd.set index p')).withTx (swapRemove s.ctx.tx i)) := by
  have hset := map_fd_set p' hp hfd
  have hpar : (s.withPollfd (s.ctx.pollfd.set index p')).ctx.Parallel :=
    parallel_withPollfd h.parallel hset
  refine ⟨hpar, ?_, ?_⟩
  · show ((s.ctx.pollfd.set index p').map PollFd.fd).Nodup
    rw [hset]
    exact h.nodup
  intro q hq hout
  replace hq : q ∈ s.ctx.pollfd.set index p' := hq
  obtain ⟨j, hj⟩ := List.mem_iff_getElem?.mp hq
  rw [List.getElem?_set] at hj
  split at hj
  · -- the entry that was handled
    rw [Option.ite_none_right_eq_some] at hj
    obtain rfl : p' = q := Option.some.inj hj.2
    rw [hclear] at hout
    cases hout
  · -- Another entry is on another descriptor, whose messages stay.
    rename_i hne
    obtain ⟨m', hm', hfd'⟩ := h.queued q (List.mem_of_getElem? hj) hout
    have hother : q.fd ≠ p.fd := by
      intro heq
      apply hne
      have hindex : s.ctx.fds[index]? = some p.fd := by rw [Context.fds, List.getElem?_map, hp]; rfl
      have hj' : s.ctx.fds[j]? = some p.fd := by
        rw [Context.fds, List.getElem?_map, hj, ← heq]
        rfl
      have hlt := (List.getElem?_eq_some_iff.mp hindex).1
      exact (List.getElem?_inj hlt h.nodup).mp (hindex.trans hj'.symm)
    obtain ⟨hlt, hget⟩ := List.getElem?_eq_some_iff.mp hm
    rcases List.mem_cons.mp ((perm_cons_swapRemove hlt).mem_iff.mp hm') with rfl | hrest
    · rw [hget, hmfd] at hfd'
      exact absurd hfd'.symm hother
    · exact ⟨m', hrest, hfd'⟩

/-! ## The event loop -/

theorem Armed.acceptNewClient (h : Armed s) {accept : Except Error Fd}
    (hnew : ∀ fd, accept = .ok fd → fd ∉ s.ctx.fds)
    (hr : s.acceptNewClient p c accept = some (r, s', io)) : Armed s' := by
  unfold State.acceptNewClient at hr
  split at hr
  · cases hr
    exact h
  · split at hr
    · cases hr
      exact h
    · rename_i fd
      obtain ⟨s₁, hadd, hr⟩ := Option.bind_eq_some_iff.mp hr
      cases hr
      exact h.addNew (hnew fd rfl) hadd

theorem Armed.readSwitched (h : Armed s) {cb : In}
    (hr : s.readSwitched index fd cb = some (r, s', io)) : Armed s' := by
  unfold State.readSwitched at hr
  simp only at hr
  split at hr
  · obtain ⟨m, -, hr⟩ := Option.bind_eq_some_iff.mp hr
    cases hr
    exact h.schedule m
  · obtain ⟨⟨s₁, io₁⟩, hdrop, hr⟩ := Option.map_eq_some_iff.mp hr
    cases hr
    exact h.shrinks (shrinks_of_dropSwitch h.parallel h.nodup hdrop)
  · obtain ⟨⟨s₁, io₁⟩, hdrop, hr⟩ := Option.map_eq_some_iff.mp hr
    cases hr
    exact h.shrinks (shrinks_of_dropSwitch h.parallel h.nodup hdrop)
  · cases hr
    exact h

theorem Armed.disconnect (h : Armed s) {origin : State → Fd}
    (hr : s.disconnect index origin = some (r, s', io)) : Armed s' := by
  obtain ⟨r', hclose⟩ := disconnect_eq_some hr
  exact h.shrinks (shrinks_of_close h.parallel h.nodup hclose)

theorem Armed.readMessage (h : Armed s) {rr : ReadResult}
    (hr : s.readMessage index p rr = some (r, s', io)) : Armed s' := by
  unfold State.readMessage at hr
  split at hr
  · exact h.disconnect hr
  · cases hr
    exact h
  · exact h.disconnect hr
  · cases hr
    exact h

/-- What the `POLLOUT` branch does, whatever comes of the message: the first message for the
descriptor leaves the queue and is passed on, then the switch may be given up. -/
theorem writeMessage_eq_some {sys : WaitSys} (hr : s.writeMessage index p c sys = some (r, s', io)) :
    ∃ i m bs io', s.ctx.tx.findIdx? (fun m => m.fd = p.fd) = some i ∧ s.ctx.tx[i]? = some m ∧
      m.fd = p.fd ∧ io = .queue (.handed s.ctx.tx i) :: .write p.fd bs :: io' ∧
      (s' = s.withTx (swapRemove s.ctx.tx i) ∨
        (s.withTx (swapRemove s.ctx.tx i)).dropSwitch p.fd = some (s', io')) := by
  simp only [State.writeMessage, Option.bind_eq_bind, Option.pure_def] at hr
  obtain ⟨i, hi, hr⟩ := Option.bind_eq_some_iff.mp hr
  obtain ⟨m, hm, hr⟩ := Option.bind_eq_some_iff.mp hr
  have hfd : m.fd = p.fd := by
    obtain ⟨hlt, hfirst, -⟩ := List.findIdx?_eq_some_iff_getElem.mp hi
    obtain rfl : s.ctx.tx[i] = m := (List.getElem?_eq_some_iff.mp hm).2
    exact of_decide_eq_true hfirst
  split at hr
  · split at hr
    · cases hr
      exact ⟨i, m, _, [], hi, hm, hfd, by rw [hfd], .inl rfl⟩
    · obtain ⟨⟨s₁, io₁⟩, hdrop, hr⟩ := Option.bind_eq_some_iff.mp hr
      cases hr
      exact ⟨i, m, _, io₁, hi, hm, hfd, by rw [hfd], .inr hdrop⟩
    · cases hr
      exact ⟨i, m, _, [], hi, hm, hfd, by rw [hfd], .inl rfl⟩
  · split at hr
    · cases hr
      exact ⟨i, m, _, [], hi, hm, hfd, by rw [hfd], .inl rfl⟩
    · cases hr
      exact ⟨i, m, _, [], hi, hm, hfd, by rw [hfd], .inl rfl⟩

theorem Armed.dispatch (h : Armed s) {sys : WaitSys} (hp : s.ctx.pollfd[index]? = some p)
    (hnew : p.revents.pollin → c.t = .server → ∀ fd, sys.accept = .ok fd → fd ∉ s.ctx.fds)
    (hr : s.dispatch index p c sys = some (r, s', io)) : Armed s' := by
  unfold State.dispatch at hr
  split at hr
  · rename_i hin
    split at hr
    · rename_i ht
      exact h.acceptNewClient (hnew hin ht) hr
    · exact h.readSwitched hr
    · cases hr
      exact h
    · exact h.readMessage hr
  · split at hr
    · obtain ⟨i, m, bs, io', -, hm, hfd, -, hs⟩ := writeMessage_eq_some hr
      have hhanded :=
        h.handed hp { p with events := { p.events with pollout := false } } rfl rfl hm hfd
      rcases hs with rfl | hdrop
      · exact hhanded
      · exact hhanded.shrinks (shrinks_of_dropSwitch hhanded.parallel hhanded.nodup hdrop)
    · split at hr
      · exact h.disconnect hr
      · cases hr
        exact h

end Changes

/-! ## Runs -/

/-- Every descriptor that is added is not tracked yet. -/
def AddsNew (s : State) : Call → Prop
  | .serverInit _ listen => ∀ fd, listen = .ok fd → fd ∉ s.ctx.fds
  | .connectService connect => ∀ fd, connect = .ok fd → fd ∉ s.ctx.fds
  | .addExternal fd => fd ∉ s.ctx.fds
  | .waitEvent sys => ∀ index p c, StopsAt s sys index p c → p.revents.pollin → c.t = .server →
      ∀ fd, sys.accept = .ok fd → fd ∉ s.ctx.fds
  | _ => True

theorem Armed.waitEvent {s s' : State} (h : Armed s) {sys : WaitSys} {r : Except Error Event}
    {io : List Io} (hnew : AddsNew s (.waitEvent sys))
    (hr : s.waitEvent sys = some (r, s', io)) : Armed s' := by
  rcases waitEvent_cases hr with ⟨-, rfl, -⟩ | ⟨revents, hpoll, hcases⟩
  · exact h.prepared
  · rcases hcases with ⟨rfl, -⟩ | ⟨index, p, c, hindex, hp, hc, hdispatch⟩
    · exact h.polled revents
    · refine (h.polled revents).dispatch hp ?_ hdispatch
      intro hin ht fd haccept
      rw [Context.fds, map_fd_polled]
      exact hnew index p c ⟨revents, hpoll, hindex, hp, hc⟩ hin ht fd haccept

/-- One call. -/
theorem step_armed {s s' : State} (h : Armed s) {c : Call} {io : List Io} (hnew : AddsNew s c)
    (hstep : step s c = some (s', io)) : Armed s' := by
  cases step_stepped hstep with
  | opened => exact ⟨h.parallel, h.nodup, h.queued⟩
  | serverFailed => exact h
  | server hadd => exact h.addNew (hnew _ rfl) hadd
  | connectFailed => exact h
  | connected hadd => exact h.addNew (hnew _ rfl) hadd
  | external => exact h.add hnew rfl
  | switchRefused => exact h
  | switched hadd =>
    obtain ⟨i, j, -, -, rfl⟩ := addSwitch_eq_ok hadd
    refine ⟨?_, h.nodup, h.queued⟩
    have hpar := h.parallel
    unfold Context.Parallel at *
    simpa using hpar
  | scheduled => exact h.schedule _
  | closed hclose => exact h.shrinks (shrinks_of_close h.parallel h.nodup hclose)
  | closedFd hclose => exact h.shrinks (shrinks_of_closeFd h.parallel h.nodup hclose)
  | waited hwait => exact h.waitEvent hnew hwait

theorem armed_init : Armed {} :=
  ⟨rfl, List.nodup_nil, fun _ hp => absurd hp List.not_mem_nil⟩

/-- `poll(2)` reports `POLLOUT` only where it was asked for. -/
def ReportsAsked (s : State) (sys : WaitSys) : Prop :=
  ∀ revents ∈ sys.poll, ∀ index, ∀ p ∈ (pollEntries s.ctx)[index]?,
    (revents.getD index {}).pollout → p.events.pollout

/-- An entry once `poll(2)` has answered is one it was given. -/
theorem getElem?_polled {s : State} {revents : List PollEvents} {index : Nat} {p : PollFd}
    (hp : (s.polled revents).ctx.pollfd[index]? = some p) :
    ∃ q ∈ (pollEntries s.ctx)[index]?, p = { q with revents := revents.getD index {} } := by
  have hstored : (storeRevents (pollEntries s.ctx) revents)[index]? = some p := hp
  rw [storeRevents, List.getElem?_mapIdx] at hstored
  obtain ⟨q, hq, rfl⟩ := Option.map_eq_some_iff.mp hstored
  exact ⟨q, hq, rfl⟩

/-- **Queued messages**: in every state of a run that adds only descriptors that are not tracked yet,
whenever `wait_event` comes to its `POLLOUT` branch, `tx` holds a message for the descriptor: the
index is assigned, and what is written is this message, to this descriptor. -/
theorem pollout_queued {cs : List Call} {s : State} {log : List Io}
    (hnew : RunMeets step AddsNew {} cs) (hrun : runAll step {} cs = some (s, log)) {sys : WaitSys}
    (hasked : ReportsAsked s sys) {index : Nat} {p : PollFd} {c : Connection}
    (hstop : StopsAt s sys index p c) (hin : ¬ p.revents.pollin) (hout : p.revents.pollout) :
    ∃ i m, s.ctx.tx.findIdx? (fun m => m.fd = p.fd) = some i ∧ s.ctx.tx[i]? = some m ∧
      m.fd = p.fd ∧
      ∀ r s' io, s.waitEvent sys = some (r, s', io) →
        ∃ bs io', io = .queue (.handed s.ctx.tx i) :: .write p.fd bs :: io' := by
  have harmed : Armed s :=
    runAll_invariant (fun _ _ _ _ h hG hstep => step_armed h hG hstep) armed_init hnew hrun
  obtain ⟨revents, hpoll, hindex, hp, hc⟩ := hstop
  have hqueued : ∃ m ∈ s.ctx.tx, m.fd = p.fd := by
    obtain ⟨q, hq, rfl⟩ := getElem?_polled hp
    exact harmed.prepared.queued q (List.mem_of_getElem? hq) (hasked revents hpoll index q hq hout)
  obtain ⟨i, hi⟩ : ∃ i, s.ctx.tx.findIdx? (fun m => m.fd = p.fd) = some i := by
    rw [← Option.isSome_iff_exists, List.findIdx?_isSome, List.any_eq_true]
    obtain ⟨m, hm, hfd⟩ := hqueued
    exact ⟨m, hm, decide_eq_true hfd⟩
  obtain ⟨hlt, hfirst, -⟩ := List.findIdx?_eq_some_iff_getElem.mp hi
  refine ⟨i, s.ctx.tx[i], hi, List.getElem?_eq_getElem hlt, of_decide_eq_true hfirst, ?_⟩
  intro r s' io hwait
  rw [waitEvent_eq_dispatch hpoll hindex hp hc, State.dispatch, if_neg hin, if_pos hout] at hwait
  obtain ⟨i', m, bs, io', hi', -, -, hio, -⟩ := writeMessage_eq_some hwait
  obtain rfl : i = i' := Option.some.inj (hi.symm.trans hi')
  exact ⟨bs, io', hio⟩

/-- A service is connected and has two messages to send; the first one was sent. -/
def oneSent : List Call :=
  [.connectService (.ok 5), .schedule { fd := 5, payload := [104] },
    .schedule { fd := 5, payload := [105] },
    .waitEvent { poll := some [{ pollout := true }], write := .wrote 5 }]

/-- The state after that: the bit is cleared, and the second message is left. -/
def oneLeft : State :=
  { ctx :=
      { connections := [{ t := .ipc }]
        pollfd := [{ fd := 5, events := { pollin := true }, revents := { pollout := true } }]
        tx := [{ fd := 5, payload := [105] }] }
    openFds := {5} }

/-- `POLLOUT` is reported again. -/
def canWrite : WaitSys := { poll := some [{ pollout := true }], write := .wrote 5 }

theorem pollout_queued_second :
    ∃ log p c i m, runAll step {} oneSent = some (oneLeft, log) ∧ StopsAt oneLeft canWrite 0 p c ∧
      oneLeft.ctx.tx.findIdx? (fun m => m.fd = p.fd) = some i ∧ oneLeft.ctx.tx[i]? = some m ∧
      m.fd = p.fd := by
  have hrun : runAll step {} oneSent = some (oneLeft, _) := rfl
  have hnew : RunMeets step AddsNew {} oneSent := by
    refine ⟨?_, ?_⟩
    · rintro fd ⟨⟩
      exact List.not_mem_nil
    rintro _ ⟨⟩
    refine ⟨trivial, ?_⟩
    rintro _ ⟨⟩
    refine ⟨trivial, ?_⟩
    rintro _ ⟨⟩
    refine ⟨?_, fun _ _ => trivial⟩
    rintro index p c ⟨revents, ⟨⟩, ⟨⟩, ⟨⟩, ⟨⟩⟩ hin
    cases hin
  have hasked : ReportsAsked oneLeft canWrite := by
    rintro revents ⟨⟩ index p hp -
    cases index with
    | zero =>
      cases hp
      rfl
    | succ index => cases hp
  have hstop : StopsAt oneLeft canWrite 0 _ _ := ⟨_, rfl, rfl, rfl, rfl⟩
  obtain ⟨i, m, hi, hm, hfd, -⟩ := pollout_queued hnew hrun hasked hstop (by decide) (by decide)
  exact ⟨_, _, _, i, m, hrun, hstop, hi, hm, hfd⟩

end LibIpc.Zig

import LibIpc.Zig.Program

/-!
# Nothing is stuck

A reply that waits can always be brought to its client: whatever has happened before, as long as the
program runs and the connection is open, `poll(2)` and `write(2)` need only say that the client takes
what is sent (`replies_flushed`).
-/

namespace LibIpc.Zig

open Lib

variable {δ ε ο : Type}

/-- Only the descriptor at `index` is ready, to be written. -/
def onlyWritable (index : Nat) : List PollEvents :=
  List.replicate index ({} : PollEvents) ++ [({ pollout := true } : PollEvents)]

/-- The client at `index` takes `n` bytes. -/
def takes (index n : Nat) : WaitSys where
  poll := some (onlyWritable index)
  write := .wrote n

theorem getD_onlyWritable (index j : Nat) :
    (onlyWritable index).getD j {} =
      if j = index then ({ pollout := true } : PollEvents) else {} := by
  rw [List.getD_eq_getElem?_getD, onlyWritable]
  rcases Nat.lt_trichotomy j index with hlt | rfl | hgt
  · rw [List.getElem?_append_left (by simpa using hlt), List.getElem?_replicate, if_pos hlt,
      if_neg (Nat.ne_of_lt hlt)]
    rfl
  · rw [List.getElem?_append_right (by simp), if_pos rfl]
    simp
  · rw [List.getElem?_eq_none_iff.mpr (by simpa using hgt), if_neg (Nat.ne_of_gt hgt)]
    rfl

section
variable {s : State} {index n : Nat} {p : PollFd} {fd : Fd}

theorem revents_onlyWritable {j : Nat} {q : PollFd}
    (hq : (s.polled (onlyWritable index)).ctx.pollfd[j]? = some q) :
    q.revents = if j = index then ({ pollout := true } : PollEvents) else {} := by
  obtain ⟨q₀, -, rfl⟩ := getElem?_polled hq
  exact getD_onlyWritable index j

/-- No entry before it is handled. -/
theorem findIdx?_onlyWritable
    (hlt : index < (s.polled (onlyWritable index)).ctx.pollfd.length) :
    (s.polled (onlyWritable index)).ctx.pollfd.findIdx? handled = some index := by
  rw [List.findIdx?_eq_some_iff_getElem]
  refine ⟨hlt, ?_, ?_⟩
  · rw [handled, revents_onlyWritable (List.getElem?_eq_getElem hlt), if_pos rfl]
    rfl
  · intro j hj
    rw [handled, revents_onlyWritable (List.getElem?_eq_getElem (Nat.lt_trans hj hlt)),
      if_neg (Nat.ne_of_lt hj)]
    simp

/-- The wait stops there. -/
theorem stopsAt_takes (hpar : s.ctx.Parallel) (hp : s.ctx.pollfd[index]? = some p) :
    ∃ q c, StopsAt s (takes index n) index q c ∧ q.fd = p.fd ∧ q.revents = { pollout := true } := by
  have hlen : (s.polled (onlyWritable index)).ctx.pollfd.length = s.ctx.pollfd.length := by
    simpa using congrArg List.length (map_fd_polled s (onlyWritable index))
  have hlt : index < (s.polled (onlyWritable index)).ctx.pollfd.length := by
    rw [hlen]
    exact (List.getElem?_eq_some_iff.mp hp).1
  have hq := List.getElem?_eq_getElem hlt
  have hc := List.getElem?_eq_getElem (show index < s.ctx.connections.length by
    rw [hpar, ← hlen]
    exact hlt)
  have hfd : some ((s.polled (onlyWritable index)).ctx.pollfd[index]).fd = some p.fd := by
    have hmap := congrArg (fun fds => fds[index]?) (map_fd_polled s (onlyWritable index))
    simpa only [List.getElem?_map, hq, hp, Option.map_some] using hmap
  refine ⟨_, _, ⟨_, rfl, findIdx?_onlyWritable hlt, hq, hc⟩, Option.some.inj hfd, ?_⟩
  rw [revents_onlyWritable hq, if_pos rfl]

/-- It may be reported: there is something to send. -/
theorem contract_takes (hp : s.ctx.pollfd[index]? = some p) (hwaits : s.waiting p.fd ≠ []) :
    Contract s (takes index n) where
  asked := by
    rintro revents ⟨⟩ j q hq hout
    rw [getD_onlyWritable] at hout
    by_cases hj : j = index
    · subst hj
      rw [pollEntries, Option.mem_def, List.getElem?_map, hp, Option.map_some,
        Option.some.injEq] at hq
      subst hq
      obtain ⟨m, hm⟩ := List.exists_mem_of_ne_nil _ hwaits
      obtain ⟨hmem, hfd⟩ := List.mem_filter.mp hm
      have hany : s.ctx.tx.any (fun m => m.fd = p.fd) = true :=
        List.any_eq_true.mpr ⟨m, hmem, hfd⟩
      simp [hany]
    · rw [if_neg hj] at hout
      cases hout
  fresh := by
    intro fd hfd
    cases hfd

/-- It is given the first message that waits for it. -/
theorem waitEvent_takes (hs : Ready s) (hp : s.ctx.pollfd[index]? = some p) (hfd : p.fd = fd)
    {m : Message} {rest : List Message} (hwaiting : s.waiting fd = m :: rest) :
    ∃ event state i, s.waitEvent (takes index n) = some (.ok event, state,
        [.queue (.handed s.ctx.tx i), .write fd ((encoded m.payload).take n)]) ∧
      event.t = .messageTx ∧ s.ctx.tx[i]? = some m ∧ m.fd = fd ∧
      state.ctx.fds = s.ctx.fds ∧ (state.waiting fd).Perm rest := by
  subst hfd
  have hsys : Contract s (takes index n) := contract_takes hp (by simp [hwaiting])
  obtain ⟨⟨r, state, io⟩, hwait⟩ := exists_waitEvent hs.serves hs.armed hsys
  obtain ⟨q, c, hstop, hfd, hrevents⟩ := @stopsAt_takes s index n p hs.serves.parallel hp
  have hin : ¬ q.revents.pollin := by simp [hrevents]
  have hout : q.revents.pollout := by simp [hrevents]
  cases waitEvent_waited hs.serves hwait with
  | failed hpoll => cases hpoll
  | idle _ hnot _ _ => exact absurd hstop (hnot index q c)
  | served _ hstop' hserved =>
    obtain ⟨rfl, rfl, rfl⟩ := hstop.unique hstop'
    cases hserved with
    | accepted hin' _ _ _ _ _ => exact absurd hin' hin
    | notAccepted hin' _ _ => exact absurd hin' hin
    | received hin' _ _ => exact absurd hin' hin
    | unreadable hin' _ _ _ => exact absurd hin' hin
    | left hin' _ _ _ _ _ => exact absurd hin' hin
    | notWritten _ _ _ _ _ _ hwrite => cases hwrite
    | hungUp _ hout' _ _ _ _ => exact absurd hout hout'
    | invalid _ hout' _ _ _ => exact absurd hout hout'
    | @written event i k m' ps _ _ hps hfirst hm hmfd hwrite htype _ =>
      cases hwrite
      have htx : s.ctx.tx[i]? = some m' := hm
      have hlane := lane_of_isFirst (k := p.fd) hfirst htx
      rw [if_pos (hmfd.trans hfd), List.singleton_append] at hlane
      have hhead : m' :: lane Message.fd p.fd (s.ctx.tx.eraseIdx i) = m :: rest :=
        hlane.symm.trans hwaiting
      obtain ⟨rfl, -⟩ := List.cons.inj hhead
      refine ⟨event, _, i, by rw [hwait, hfd]; rfl, htype, htx, hmfd.trans hfd, ?_, ?_⟩
      · exact hps.trans (map_fd_polled s _)
      · obtain ⟨hlt, hget⟩ := List.getElem?_eq_some_iff.mp htx
        have hperm := (perm_cons_swapRemove hlt).filter fun m => m.fd = p.fd
        rw [hget, List.filter_cons_of_pos (by simp [hmfd.trans hfd])] at hperm
        have hold : s.ctx.tx.filter (fun m => m.fd = p.fd) = m' :: rest := hwaiting
        rw [hold] at hperm
        exact hperm.cons_inv.symm

end

section
variable {prog : Program δ ε ο} {s : Process δ} {fd : Fd}

/-- One more reply is written. -/
theorem round_flushes (hs : Ready s.state) (hrunning : s.running = true)
    (hfd : fd ∈ s.state.ctx.fds) {m : Message} {rest : List Message}
    (hwaiting : s.state.waiting fd = m :: rest)
    (hsent : ∃ data, prog.onEvent s.data .messageTx = some (data, true)) (e : ε) :
    ∃ sys s' log, Contract s.state sys ∧ prog.round s (sys, e) = some (s', log) ∧
      s'.running = true ∧ fd ∈ s'.state.ctx.fds ∧ (s'.state.waiting fd).Perm rest ∧
      handedIn Message.fd fd (queueEvents (libraryIo log)) = [m] ∧
      writesOn fd (libraryIo log) = [encoded m.payload] := by
  obtain ⟨p, hmem, hp⟩ := List.mem_map.mp hfd
  obtain ⟨index, hindex⟩ := List.getElem?_of_mem hmem
  have hsys : Contract s.state (takes index (encoded m.payload).length) :=
    contract_takes hindex (by simp [hp, hwaiting])
  obtain ⟨event, state, i, hwait, htype, htx, hmfd, hfds, hperm⟩ :=
    waitEvent_takes (n := (encoded m.payload).length) hs hindex hp hwaiting
  obtain ⟨data, hevent⟩ := hsent
  have hround := @round_of_event _ _ _ prog s (takes index (encoded m.payload).length, e) _ _ _
    hrunning hwait (by simp [htype])
  rw [htype, hevent, Option.bind_some, List.take_length] at hround
  refine ⟨_, _, _, hsys, hround, rfl, ?_, hperm, ?_, ?_⟩
  · rw [hfds]
    exact hfd
  · rw [libraryIo_map_io, handedIn_written htx hmfd, if_pos rfl]
  · rw [libraryIo_map_io, writesOn_written, if_pos rfl]

/-- From every state of a program that runs, all the replies that wait for a client can be written
to it, whole, and the program still runs. -/
theorem replies_flushed (hs : Ready s.state) (hrunning : s.running = true)
    (hfd : fd ∈ s.state.ctx.fds)
    (hsent : ∀ data, ∃ data', prog.onEvent data .messageTx = some (data', true)) (e : ε) :
    ∃ cs s' log, RunMeets prog.round (fun s c => Contract s.state c.1) s cs ∧
      runAll prog.round s cs = some (s', log) ∧ s'.running = true ∧ s'.state.waiting fd = [] ∧
      (handedIn Message.fd fd (queueEvents (libraryIo log))).Perm (s.state.waiting fd) ∧
      writesOn fd (libraryIo log) =
        (handedIn Message.fd fd (queueEvents (libraryIo log))).map fun m => encoded m.payload := by
  induction hn : (s.state.waiting fd).length generalizing s with
  | zero =>
    have hnone := List.eq_nil_of_length_eq_zero hn
    refine ⟨[], s, [], trivial, rfl, hrunning, hnone, ?_, rfl⟩
    rw [hnone]
    exact .nil
  | succ n ih =>
    obtain ⟨m, rest, hwaiting⟩ := List.exists_cons_of_length_eq_add_one hn
    obtain ⟨sys, s₁, log₁, hsys, hround, hrunning₁, hfd₁, hperm₁, hhanded₁, hwrites₁⟩ :=
      round_flushes hs hrunning hfd hwaiting (hsent s.data) e
    have hs₁ := (Program.round_cases hs.serves hround).2.ready hs
    have hlen : (s₁.state.waiting fd).length = n := by
      rw [hperm₁.length_eq]
      simpa [hwaiting] using hn
    obtain ⟨cs, s', log, hmeets, hrun, hrunning', hnone, hperm, hwrites⟩ :=
      ih hs₁ hrunning₁ hfd₁ hlen
    refine ⟨(sys, e) :: cs, s', log₁ ++ log, ⟨hsys, ?_⟩, ?_, hrunning', hnone, ?_, ?_⟩
    · intro r hr
      rw [hround, Option.some.injEq] at hr
      subst hr
      exact hmeets
    · rw [runAll, hround, Option.bind_some, hrun, Option.map_some]
    · rw [libraryIo_append, queueEvents_append, handedIn_append, hhanded₁, hwaiting,
        List.singleton_append]
      exact (hperm.trans hperm₁).cons m
    · rw [libraryIo_append, writesOn_append, hwrites₁, hwrites, queueEvents_append, handedIn_append,
        hhanded₁, List.map_append]
      rfl

theorem ready_of_run {s' : Process δ} {cs : List (WaitSys × ε)} {log : List (ProgramIo ο)}
    (hs : Ready s.state) (hrun : runAll prog.round s cs = some (s', log)) : Ready s'.state := by
  refine runAll_invariant (G := fun _ _ => True) (P := fun s : Process δ => Ready s.state) ?_ hs
    (runMeets_true s cs) hrun
  intro s c s₁ log₁ hs _ hround
  exact (Program.round_cases hs.serves hround).2.ready hs

end

end LibIpc.Zig

import LibIpc.Zig.Disconnection

/-!
# What becomes of a callback's answer

The answer of a switched descriptor's callback turns into a Zig error, the error into an event, and
the event selects a branch of `wait_event`. The layers do not agree on two answers: an input that is
to be ignored has no message, and is unwrapped all the same; an output that finds its descriptor
closing is a disconnection, for which the output branch has no case. The answers that give the
switch up close both ends, but only one connection of each, and only when it is open.
`handlesCallback_iff` says exactly which answers are handled.
-/

namespace LibIpc.Zig

open Lib

/-! ## Giving up a switch -/

/-- `x` is one of the two ends of the switch of `fd`. -/
def PairEnd (s : State) (fd x : Fd) : Prop := x = fd ∨ s.ctx.switchdb.lookup fd = some x

/-- Nothing is left of the descriptor `x`. -/
structure Gone (s : State) (x : Fd) : Prop where
  connections : ∀ e ∈ s.ctx.conns, e.2 ≠ x
  pollfd : x ∉ s.ctx.fds
  switchdb : x ∉ s.ctx.switchdb

/-- Both ends that the switch of `fd` had in `s` are gone in `s'`. -/
def PairGone (s : State) (fd : Fd) (s' : State) : Prop := ∀ x, PairEnd s fd x → Gone s' x

/-- Both ends of the switch of `fd` are open and tracked once. -/
def Removable (s : State) (fd : Fd) : Prop :=
  ∀ x, PairEnd s fd x → x ∈ s.openFds ∧ s.ctx.count x = 1

section Dropping
variable {s s' : State} {fd : Fd}

theorem gone_iff {x : Fd} (hpar : s.ctx.Parallel) :
    Gone s x ↔ s.ctx.count x = 0 ∧ x ∉ s.ctx.switchdb := by
  have hcount : s.ctx.count x = 0 ↔ x ∉ s.ctx.fds := by
    rw [Context.count, hpar.map_snd_conns, List.count_eq_zero]
  rw [hcount]
  constructor
  · intro h
    exact ⟨h.pollfd, h.switchdb⟩
  · rintro ⟨hfds, hdb⟩
    refine ⟨?_, hfds, hdb⟩
    intro e he heq
    exact hfds ((mem_fds_iff hpar).mpr ⟨e, he, heq⟩)

/-- `safe_close_fd` took one connection on `fd` away, if `fd` was open. -/
structure Released (s : State) (fd : Fd) (s' : State) : Prop where
  parallel : s'.ctx.Parallel
  switchdb : s'.ctx.switchdb = s.ctx.switchdb
  openFds : ∀ x, x ∈ s'.openFds ↔ x ∈ s.openFds ∧ ¬ (x = fd ∧ 0 < s.ctx.count fd)
  count : ∀ x, s'.ctx.count x = s.ctx.count x - if x = fd ∧ fd ∈ s.openFds then 1 else 0

theorem released_self (hpar : s.ctx.Parallel) (h : fd ∈ s.openFds → s.ctx.count fd = 0) :
    Released s fd s where
  parallel := hpar
  switchdb := rfl
  openFds := by
    intro x
    refine (and_iff_left_of_imp ?_).symm
    rintro hx ⟨rfl, hpos⟩
    have hzero := h hx
    omega
  count := by
    intro x
    split
    · rename_i hx
      obtain ⟨rfl, hopen⟩ := hx
      rw [h hopen]
    · rfl

theorem Closed.released {index : Nat} {c : Connection} {io : List Io} (h : Closed s index fd io s')
    (hget : s.ctx.conns[index]? = some (c, fd)) : Released s fd s' where
  parallel := h.parallel
  switchdb := h.switchdb
  openFds := by
    have hpos : 0 < s.ctx.count fd := by
      have hcount := h.count hget fd
      rw [if_pos rfl] at hcount
      omega
    intro x
    rw [h.openFds, Finset.mem_erase]
    simp [hpos, and_comm]
  count := by
    intro x
    have hcount := h.count hget x
    by_cases hx : x = fd
    · rw [if_pos hx.symm] at hcount
      rw [if_pos ⟨hx, h.wasOpen⟩]
      omega
    · rw [if_neg (Ne.symm hx)] at hcount
      rw [if_neg (fun h => hx h.1)]
      omega

section Released
variable (h : Released s fd s')
include h

theorem Released.count_eq_zero_iff (hpos : 0 < s.ctx.count fd) :
    s'.ctx.count fd = 0 ↔ fd ∈ s.openFds ∧ s.ctx.count fd = 1 := by
  rw [h.count]
  by_cases hopen : fd ∈ s.openFds
  · simp only [hopen, and_self, if_true, true_and]
    omega
  · simp only [hopen, and_false, if_false, false_and, iff_false]
    omega

theorem Released.count_of_closed (hclosed : fd ∉ s.openFds) (x : Fd) :
    s'.ctx.count x = s.ctx.count x := by
  rw [h.count, if_neg (fun h => hclosed h.2), Nat.sub_zero]

theorem Released.count_other {x : Fd} (hne : x ≠ fd) : s'.ctx.count x = s.ctx.count x := by
  rw [h.count, if_neg (fun h => hne h.1), Nat.sub_zero]

theorem Released.open_other {x : Fd} (hne : x ≠ fd) : x ∈ s'.openFds ↔ x ∈ s.openFds := by
  rw [h.openFds]
  exact and_iff_left fun h => hne h.1

theorem Released.closed (hpos : 0 < s.ctx.count fd) : fd ∉ s'.openFds := by
  rw [h.openFds]
  exact fun h => h.2 ⟨rfl, hpos⟩

end Released

theorem released_of_safeCloseFd (hpar : s.ctx.Parallel) {io : List Io}
    (h : s.safeCloseFd fd = some (s', io)) : Released s fd s' := by
  rcases safeCloseFd_eq_some hpar h with ⟨hnot | hnone, rfl, -⟩ | ⟨index, c, hget, -, hclosed⟩
  · exact released_self hpar fun h => absurd h hnot
  · refine released_self hpar fun _ => ?_
    rw [Context.count, hpar.map_snd_conns, List.count_eq_zero]
    intro hmem
    obtain ⟨p, hp, hfd⟩ := List.mem_map.mp hmem
    exact of_decide_eq_false (List.findIdx?_eq_none_iff.mp hnone p hp) hfd
  · exact hclosed.released hget

/-- `safe_close_fd` returns in every state. -/
theorem exists_safeCloseFd (hpar : s.ctx.Parallel) (fd : Fd) :
    ∃ s' io, s.safeCloseFd fd = some (s', io) ∧ Released s fd s' := by
  have hreturns : ∃ s' io, s.safeCloseFd fd = some (s', io) := by
    unfold State.safeCloseFd State.closeFd
    by_cases hopen : fd ∈ s.openFds
    · rw [if_pos hopen]
      cases hindex : s.ctx.fdToIndex fd with
      | none => exact ⟨s, [], rfl⟩
      | some index =>
        obtain ⟨c, hget⟩ := fdToIndex_eq_some hpar hindex
        obtain ⟨s', io, hclose, -⟩ := exists_close hpar hget hopen
        refine ⟨s', io, ?_⟩
        simp only [hclose]
        rfl
    · rw [if_neg hopen]
      exact ⟨s, [], rfl⟩
  obtain ⟨s', io, h⟩ := hreturns
  exact ⟨s', io, h, released_of_safeCloseFd hpar h⟩

/-- Giving up a switch always returns, and takes the two ends away when these are open and tracked
once. -/
theorem exists_dropSwitch (hpar : s.ctx.Parallel) (hconsistent : SwitchConsistent s)
    (hswitched : s.ctx.Switched fd) :
    ∃ s' io, s.dropSwitch fd = some (s', io) ∧ (PairGone s fd s' ↔ Removable s fd) := by
  obtain ⟨dest, hdest⟩ := PartnerTable.mem_iff_lookup.mp ((hconsistent.keys fd).mpr hswitched)
  have hback := hconsistent.pairing fd dest hdest
  have hpos : 0 < s.ctx.count fd := hswitched.count_pos
  have hpos' : 0 < s.ctx.count dest := by
    refine Context.Switched.count_pos ((hconsistent.keys dest).mp ?_)
    exact PartnerTable.mem_iff_lookup.mpr ⟨fd, hback⟩
  obtain ⟨s₁, io₁, h₁, hr₁⟩ :=
    exists_safeCloseFd (s := s.withSwitchdb (s.ctx.switchdb.nuke fd)) hpar fd
  obtain ⟨s₂, io₂, h₂, hr₂⟩ := exists_safeCloseFd hr₁.parallel dest
  refine ⟨s₂, io₁ ++ io₂, ?_, ?_⟩
  · simp [State.dropSwitch, SwitchDB.getDest, hdest, h₁, h₂]
  -- the second call finds `fd` closed, or is about another descriptor
  have hself : s₂.ctx.count fd = 0 ↔ fd ∈ s.openFds ∧ s.ctx.count fd = 1 := by
    have hsame : s₂.ctx.count fd = s₁.ctx.count fd := by
      by_cases heq : fd = dest
      · exact hr₂.count_of_closed (heq ▸ hr₁.closed hpos) fd
      · exact hr₂.count_other heq
    rw [hsame]
    exact hr₁.count_eq_zero_iff hpos
  have hother : dest ≠ fd →
      (s₂.ctx.count dest = 0 ↔ dest ∈ s.openFds ∧ s.ctx.count dest = 1) := by
    intro hne
    have hcount : s₁.ctx.count dest = s.ctx.count dest := hr₁.count_other hne
    rw [hr₂.count_eq_zero_iff (hcount ▸ hpos'), hr₁.open_other hne, hcount]
    rfl
  have hdb : s₂.ctx.switchdb = PartnerTable.unlink s.ctx.switchdb fd :=
    hr₂.switchdb.trans hr₁.switchdb
  refine forall_congr' fun x => imp_congr_right fun hx => ?_
  rw [gone_iff hr₂.parallel, hdb, PartnerTable.mem_unlink hdest]
  have hend : x = fd ∨ x = dest := by
    rcases hx with hx | hx
    · exact .inl hx
    · exact .inr (Option.some.inj (hx.symm.trans hdest))
  rw [and_iff_left (by tauto)]
  by_cases hfd : x = fd
  · rw [hfd]
    exact hself
  · obtain rfl : x = dest := hend.resolve_left hfd
    exact hother hfd

end Dropping

/-! ## The answers -/

section Answers
variable {s : State} {fd dest : Fd}

/-- An input that is to be ignored panics: there is no message to unwrap. -/
theorem readSwitched_ignore (hdest : s.ctx.switchdb.lookup fd = some dest) {cb : In}
    (hcb : cb.answer.1 = .ignore) (index : Nat) : s.readSwitched index fd cb = none := by
  rcases hanswer : cb.answer with ⟨r, bs⟩
  rw [hanswer] at hcb
  cases hcb
  simp [State.readSwitched, SwitchDB.handleEventRead, SwitchDB.read, hdest, hanswer]

/-- The two answers of an input that give the switch up. -/
theorem readSwitched_closing (hdest : s.ctx.switchdb.lookup fd = some dest) {cb : In}
    (hcb : cb.answer.1 = .fdClosing ∨ cb.answer.1 = .error) (index : Nat) :
    ∃ event, s.readSwitched index fd cb =
      (s.dropSwitch fd).map fun (s, io) => (.ok event, s, io) := by
  rcases hanswer : cb.answer with ⟨r, bs⟩
  rw [hanswer] at hcb
  rcases hcb with rfl | rfl
  · refine ⟨{ t := .disconnection, index := index, origin := fd }, ?_⟩
    simp [State.readSwitched, SwitchDB.handleEventRead, SwitchDB.read, hdest, hanswer]
  · refine ⟨{ t := .error, index := index, origin := fd }, ?_⟩
    simp [State.readSwitched, SwitchDB.handleEventRead, SwitchDB.read, hdest, hanswer]

/-- An input is queued for the other end, or is no message and gives the switch up. -/
theorem readSwitched_noError (hdest : s.ctx.switchdb.lookup fd = some dest) {cb : In}
    (hcb : cb.answer.1 = .noError) (index : Nat) :
    (∃ event m, s.readSwitched index fd cb =
        some (.ok event, s.schedule m, [.queue (.queued m)])) ∨
      ∃ event, s.readSwitched index fd cb =
        (s.dropSwitch fd).map fun (s, io) => (.ok event, s, io) := by
  rcases hanswer : cb.answer with ⟨r, bs⟩
  rw [hanswer] at hcb
  obtain rfl : r = .noError := hcb
  cases hread : Message.read dest bs bs.length with
  | error e =>
    refine .inr ⟨{ t := .error, index := index, origin := fd }, ?_⟩
    simp [State.readSwitched, SwitchDB.handleEventRead, SwitchDB.read, hdest, hanswer, hread]
  | ok m =>
    refine .inl ⟨{ t := .switchRx, index := index, origin := fd, m := some m }, m, ?_⟩
    simp [State.readSwitched, SwitchDB.handleEventRead, SwitchDB.read, hdest, hanswer, hread]

variable {p : PollFd} {c : Connection}

/-- A write without a message: the index is undefined. -/
theorem writeMessage_nothing (hnone : ¬ ∃ m ∈ s.ctx.tx, m.fd = p.fd) (index : Nat)
    (sys : WaitSys) : s.writeMessage index p c sys = none := by
  have hfind : (s.ctx.tx.findIdx? fun m => m.fd = p.fd) = none := by
    simpa [List.findIdx?_eq_none_iff] using hnone
  simp [State.writeMessage, hfind]

/-- The event of a message that is written for a switched descriptor. -/
def outEvent : CBEventType → EventType
  | .noError => .switchTx
  | .fdClosing => .disconnection
  | .ignore => .error
  | .error => .error

theorem handleEventWrite_eq {db : SwitchDB} {m : Message} (hdest : db.lookup m.fd = some dest)
    (index : Nat) (cb : Out) :
    ∃ bs, db.handleEventWrite index m cb =
      ({ t := outEvent cb.answer, index := index, origin := m.fd }, bs) := by
  refine ⟨be32 (m.payload.length % 2 ^ 32) ++ m.payload.take (100000 - 4), ?_⟩
  unfold SwitchDB.handleEventWrite SwitchDB.write
  rw [hdest, m.write_eq_ok (show 4 < 100000 by decide)]
  cases cb.answer <;> rfl

section Written
variable {i : Nat} (hi : (s.ctx.tx.findIdx? fun m => m.fd = p.fd) = some i)
  (hdest : s.ctx.switchdb.lookup p.fd = some dest) (hc : c.t = .switched)
include hi hdest hc

/-- The message leaves the queue, then the event decides. -/
theorem writeMessage_switched (index : Nat) (sys : WaitSys) :
    ∃ event io, s.writeMessage index p c sys =
      match outEvent sys.cbOut.answer with
      | .switchTx => some (.ok event, s.withTx (swapRemove s.ctx.tx i), io)
      | .error => ((s.withTx (swapRemove s.ctx.tx i)).dropSwitch p.fd).map fun (s, io') =>
          (.ok event, s, io ++ io')
      | _ => some (.error .incoherentSwitchError, s.withTx (swapRemove s.ctx.tx i), io) := by
  obtain ⟨-, m, hm, hfd⟩ := isFirst_of_findIdx? hi
  have hdest' : (s.withTx (swapRemove s.ctx.tx i)).ctx.switchdb.lookup m.fd = some dest := by
    rw [hfd]
    exact hdest
  obtain ⟨bs, hevent⟩ := handleEventWrite_eq hdest' index sys.cbOut
  refine ⟨{ t := outEvent sys.cbOut.answer, index := index, origin := m.fd },
    [.queue (.handed s.ctx.tx i), .write m.fd bs], ?_⟩
  simp only [State.writeMessage, hi, hm, Option.bind_eq_bind, Option.bind_some, if_pos hc, hevent,
    Option.pure_def]
  cases outEvent sys.cbOut.answer with
  | error =>
    cases (s.withTx (swapRemove s.ctx.tx i)).dropSwitch p.fd with
    | none => rfl
    | some r => rfl
  | _ => rfl

end Written

end Answers

/-! ## `wait_event` -/

/-- The answer of the callback that is called for the entry `p`. -/
def WaitSys.answer (sys : WaitSys) (p : PollFd) : CBEventType :=
  if p.revents.pollin then sys.cbIn.answer.1 else sys.cbOut.answer

/-- What the answer asks for: an input to ignore changes nothing, a descriptor that is closing or
in error takes both ends of the switch with it. -/
def Obeys (s : State) (sys : WaitSys) (p : PollFd) (s' : State) : Prop :=
  match sys.answer p with
  | .noError => True
  | .ignore => p.revents.pollin → s'.ctx.tx = s.ctx.tx ∧ s'.ctx.conns = s.ctx.conns ∧
      s'.ctx.switchdb = s.ctx.switchdb
  | .fdClosing => PairGone s p.fd s'
  | .error => PairGone s p.fd s'

/-- The call returned, not with `incoherentSwitchError`, and the state it left satisfies `Q`. -/
def Answered (o : Outcome) (Q : State → Prop) : Prop :=
  ∃ r s' io, o = some (r, s', io) ∧ r ≠ .error .incoherentSwitchError ∧ Q s'

/-- `wait_event` handles the answer of the callback it calls for `p`. -/
def HandlesCallback (s : State) (sys : WaitSys) (p : PollFd) : Prop :=
  Answered (s.waitEvent sys) (Obeys s sys p)

/-- The answers that are handled. An output needs a message to write. -/
def AnswerHandled (s : State) (sys : WaitSys) (p : PollFd) : Prop :=
  if p.revents.pollin then
    match sys.cbIn.answer.1 with
    | .noError => True
    | .ignore => False
    | .fdClosing => Removable s p.fd
    | .error => Removable s p.fd
  else
    (∃ m ∈ s.ctx.tx, m.fd = p.fd) ∧
      match sys.cbOut.answer with
      | .noError => True
      | .ignore => True
      | .fdClosing => False
      | .error => Removable s p.fd

section Answered
variable {Q : State → Prop}

theorem not_answered_none : ¬ Answered none Q := by
  rintro ⟨r, s', io, h, -⟩
  cases h

theorem answered_ok {event : Event} {s' : State} {io : List Io} :
    Answered (some (.ok event, s', io)) Q ↔ Q s' := by
  constructor
  · rintro ⟨r, s'', io', h, -, hQ⟩
    cases h
    exact hQ
  · intro hQ
    exact ⟨_, _, _, rfl, by simp, hQ⟩

theorem not_answered_incoherent {s' : State} {io : List Io} :
    ¬ Answered (some (.error .incoherentSwitchError, s', io)) Q := by
  rintro ⟨r, s'', io', h, hne, -⟩
  cases h
  exact hne rfl

end Answered

/-- `t` is `s` but for the queue and the flags of the entries. -/
structure SameTables (s t : State) : Prop where
  parallel : t.ctx.Parallel
  conns : t.ctx.conns = s.ctx.conns
  switchdb : t.ctx.switchdb = s.ctx.switchdb
  openFds : t.openFds = s.openFds

section Handling
variable {s t : State} {index : Nat} {p : PollFd} (hconsistent : SwitchConsistent s)
  (hswitched : s.ctx.Switched p.fd) (hsame : SameTables s t)
include hconsistent hswitched hsame

theorem SameTables.exists_dropSwitch :
    ∃ s' io, t.dropSwitch p.fd = some (s', io) ∧ (PairGone s p.fd s' ↔ Removable s p.fd) := by
  have hconsistent' : SwitchConsistent t := by
    constructor
    · unfold Context.Switched
      rw [hsame.switchdb, hsame.conns]
      exact hconsistent.keys
    · rw [hsame.switchdb]
      exact hconsistent.pairing
  have hswitched' : t.ctx.Switched p.fd := by
    unfold Context.Switched
    rw [hsame.conns]
    exact hswitched
  obtain ⟨s', io, hdrop, hiff⟩ := Zig.exists_dropSwitch hsame.parallel hconsistent' hswitched'
  refine ⟨s', io, hdrop, ?_⟩
  unfold PairGone Removable PairEnd Context.count at *
  rwa [hsame.switchdb, hsame.openFds, hsame.conns] at hiff

theorem SameTables.exists_dest : ∃ dest, t.ctx.switchdb.lookup p.fd = some dest := by
  rw [hsame.switchdb]
  exact PartnerTable.mem_iff_lookup.mp ((hconsistent.keys p.fd).mpr hswitched)

theorem answered_readSwitched_iff {sys : WaitSys} (hin : p.revents.pollin) :
    Answered (t.readSwitched index p.fd sys.cbIn) (Obeys s sys p) ↔ AnswerHandled s sys p := by
  obtain ⟨dest, hdest⟩ := hsame.exists_dest hconsistent hswitched
  obtain ⟨s', io, hdrop, hgone⟩ := hsame.exists_dropSwitch hconsistent hswitched
  have hanswer : sys.answer p = sys.cbIn.answer.1 := if_pos hin
  unfold AnswerHandled
  rw [if_pos hin]
  cases hcb : sys.cbIn.answer.1 with
  | noError =>
    have hobeys : ∀ s', Obeys s sys p s' := by
      intro s'
      rw [Obeys, hanswer, hcb]
      trivial
    refine iff_of_true ?_ trivial
    rcases readSwitched_noError hdest hcb index with ⟨event, m, h⟩ | ⟨event, h⟩
    · rw [h]
      exact answered_ok.mpr (hobeys _)
    · rw [h, hdrop]
      exact answered_ok.mpr (hobeys _)
  | ignore =>
    rw [readSwitched_ignore hdest hcb index]
    exact iff_of_false not_answered_none id
  | fdClosing =>
    obtain ⟨event, h⟩ := readSwitched_closing hdest (.inl hcb) index
    rw [h, hdrop, Option.map_some, answered_ok, Obeys, hanswer, hcb]
    exact hgone
  | error =>
    obtain ⟨event, h⟩ := readSwitched_closing hdest (.inr hcb) index
    rw [h, hdrop, Option.map_some, answered_ok, Obeys, hanswer, hcb]
    exact hgone

theorem answered_writeMessage_iff {c : Connection} {sys : WaitSys} {p' : PollFd}
    (hc : c.t = .switched) (hin : ¬ p.revents.pollin) (hfd : p'.fd = p.fd)
    (htx : t.ctx.tx = s.ctx.tx) :
    Answered (t.writeMessage index p' c sys) (Obeys s sys p) ↔ AnswerHandled s sys p := by
  have hanswer : sys.answer p = sys.cbOut.answer := if_neg hin
  unfold AnswerHandled
  rw [if_neg hin]
  cases hi : t.ctx.tx.findIdx? fun m => m.fd = p'.fd with
  | none =>
    have hnone : ¬ ∃ m ∈ t.ctx.tx, m.fd = p'.fd := by
      simpa [List.findIdx?_eq_none_iff] using hi
    rw [writeMessage_nothing hnone index sys]
    rw [htx, hfd] at hnone
    exact iff_of_false not_answered_none fun h => hnone h.1
  | some i =>
    obtain ⟨-, m, hm, hm'⟩ := isFirst_of_findIdx? hi
    have hsome : ∃ m ∈ s.ctx.tx, m.fd = p.fd :=
      ⟨m, htx ▸ List.mem_of_getElem? hm, hm'.trans hfd⟩
    rw [and_iff_right hsome]
    obtain ⟨dest, hdest⟩ := hsame.exists_dest hconsistent hswitched
    rw [← hfd] at hdest
    obtain ⟨event, io, hwrite⟩ := writeMessage_switched hi hdest hc index sys
    have hsent : SameTables s (t.withTx (swapRemove t.ctx.tx i)) :=
      ⟨hsame.parallel, hsame.conns, hsame.switchdb, hsame.openFds⟩
    obtain ⟨s', io', hdrop, hgone⟩ := hsent.exists_dropSwitch hconsistent hswitched
    rw [hwrite, hfd, hdrop]
    cases hcb : sys.cbOut.answer with
    | noError =>
      refine iff_of_true (answered_ok.mpr ?_) trivial
      rw [Obeys, hanswer, hcb]
      trivial
    | ignore =>
      refine iff_of_true (answered_ok.mpr ?_) trivial
      rw [Obeys, hanswer, hcb]
      exact fun h => absurd h hin
    | fdClosing => exact iff_of_false not_answered_incoherent id
    | error =>
      refine answered_ok.trans ?_
      rw [Obeys, hanswer, hcb]
      exact hgone

end Handling

/-- **Callbacks**: in a reachable state with a consistent table, `wait_event` handles the answer of
the callback of a switched descriptor exactly when it is one of those in `AnswerHandled`. -/
theorem handlesCallback_iff {s : State} (h : ReachableState s) (hconsistent : SwitchConsistent s)
    {sys : WaitSys} {index : Nat} {p : PollFd} {c : Connection} (hstops : StopsAt s sys index p c)
    (hc : c.t = .switched) (hready : p.revents.pollin ∨ p.revents.pollout) :
    HandlesCallback s sys p ↔ AnswerHandled s sys p := by
  obtain ⟨revents, hpoll, hindex, hp, hget⟩ := hstops
  have hsame : SameTables s (s.polled revents) :=
    ⟨parallel_polled h.parallel revents, conns_polled s revents, rfl, rfl⟩
  have hswitched : s.ctx.Switched p.fd := by
    refine ⟨c, ?_, hc⟩
    rw [← conns_polled s revents]
    exact List.mem_of_getElem? (conns_getElem? hget hp)
  rw [HandlesCallback, waitEvent_eq_dispatch hpoll hindex hp hget]
  unfold State.dispatch
  by_cases hin : p.revents.pollin
  · rw [if_pos hin, hc]
    exact answered_readSwitched_iff hconsistent hswitched hsame hin
  · have hset := map_fd_set { p with events := { p.events with pollout := false } } hp rfl
    rw [if_neg hin, if_pos (hready.resolve_left hin)]
    refine answered_writeMessage_iff hconsistent hswitched ?_ hc hin rfl rfl
    exact ⟨parallel_withPollfd hsame.parallel hset, (conns_withPollfd hset).trans hsame.conns, rfl,
      rfl⟩

/-- Two switched clients, on descriptors 5 and 6, and the messages that wait. -/
def switchedPair (tx : List Message) : State :=
  { ctx :=
      { connections := [{ t := .switched }, { t := .switched }]
        pollfd := [{ fd := 5, events := { pollin := true } },
          { fd := 6, events := { pollin := true } }]
        tx := tx
        switchdb := SwitchDB.addSwitch ∅ 5 6 }
    openFds := {6, 5} }

theorem reachable_switchedPair : ReachableState (switchedPair []) :=
  ⟨switchedClients, [], rfl⟩

theorem reachable_switchedPair_cons (m : Message) : ReachableState (switchedPair [m]) :=
  ⟨switchedClients ++ [.schedule m], [.queue (.queued m)], rfl⟩

theorem switchConsistent_switchedPair (tx : List Message) : SwitchConsistent (switchedPair tx) where
  keys := by
    intro fd
    refine PartnerTable.mem_link.trans ?_
    constructor
    · intro hfd
      refine ⟨{ t := .switched }, ?_, rfl⟩
      simpa [Context.conns, switchedPair] using hfd
    · rintro ⟨c, hmem, -⟩
      have hfd := List.mem_map_of_mem (f := Prod.snd) hmem
      simpa [Context.conns, switchedPair] using hfd
  pairing := PartnerTable.isPairing_empty.link (by simp) (by simp)

/-- `POLLIN` on the first of two entries, and what the input callback answers. -/
def inputAnswers (cb : In) : WaitSys := { poll := some [{ pollin := true }], cbIn := cb }

/-- `POLLOUT` on the first of two entries, and what the output callback answers. -/
def outputAnswers (cb : Out) : WaitSys := { poll := some [{ pollout := true }], cbOut := cb }

/-- The entry of 5 when it can be written. -/
def writableEntry : PollFd :=
  { fd := 5, events := { pollin := true, pollout := true }, revents := { pollout := true } }

/-- The peer of a switched client resets its connection: both ends go. -/
theorem handlesCallback_reset :
    HandlesCallback (switchedPair []) (inputAnswers (.default .reset)) (readyEntry 5) := by
  have hstops : StopsAt (switchedPair []) (inputAnswers (.default .reset)) 0 (readyEntry 5)
      { t := .switched } := ⟨_, rfl, rfl, rfl, rfl⟩
  refine (handlesCallback_iff reachable_switchedPair (switchConsistent_switchedPair []) hstops rfl
    (.inl rfl)).mpr ?_
  show Removable (switchedPair []) 5
  rintro x (rfl | hx)
  · exact ⟨by decide, rfl⟩
  · cases hx
    exact ⟨by decide, rfl⟩

/-- A registered input callback that ignores a message makes `wait_event` panic, and a registered
output callback that finds its descriptor closing makes it fail. -/
theorem not_handlesCallback_ignored_closing :
    (ReachableState (switchedPair []) ∧ SwitchConsistent (switchedPair []) ∧
      StopsAt (switchedPair []) (inputAnswers (.registered .ignore [])) 0 (readyEntry 5)
        { t := .switched } ∧
      ¬ HandlesCallback (switchedPair []) (inputAnswers (.registered .ignore []))
        (readyEntry 5)) ∧
    (ReachableState (switchedPair [⟨5, [104, 105]⟩]) ∧
      SwitchConsistent (switchedPair [⟨5, [104, 105]⟩]) ∧
      StopsAt (switchedPair [⟨5, [104, 105]⟩]) (outputAnswers (.registered .fdClosing)) 0
        writableEntry { t := .switched } ∧
      ¬ HandlesCallback (switchedPair [⟨5, [104, 105]⟩]) (outputAnswers (.registered .fdClosing))
        writableEntry) := by
  refine ⟨⟨reachable_switchedPair, switchConsistent_switchedPair _, ⟨_, rfl, rfl, rfl, rfl⟩, ?_⟩,
    ⟨reachable_switchedPair_cons _, switchConsistent_switchedPair _, ⟨_, rfl, rfl, rfl, rfl⟩, ?_⟩⟩
  · rintro ⟨r, s', io, h, -⟩
    cases h
  · rintro ⟨r, s', io, h, hne, -⟩
    cases h
    exact hne rfl

end LibIpc.Zig

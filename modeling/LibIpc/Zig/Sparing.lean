import LibIpc.Zig.SwitchTable

/-!
# What a call does to the descriptors it is not about

The frame conditions of the calls: `Spares` says that nothing about a descriptor has changed,
`Quiet` that nothing was done about it outside the context. A call on one descriptor spares every
other, unless the two are switched with each other (`dispatch_other`).
-/

namespace LibIpc.Zig

open Lib

/-! ## Sparing a descriptor -/

/-- The connections on `fd`. -/
def Context.on (ctx : Context) (fd : Fd) : List (Connection × Fd) :=
  ctx.conns.filter fun e => e.2 = fd

/-- Nothing about `fd` has changed but the flags of its entry and its messages. -/
structure Spares (s s' : State) (fd : Fd) : Prop where
  conn : (s'.ctx.on fd).Perm (s.ctx.on fd)
  isOpen : fd ∈ s.openFds → fd ∈ s'.openFds
  lookup : s'.ctx.switchdb.lookup fd = s.ctx.switchdb.lookup fd
  only : ∀ x, s'.ctx.switchdb.lookup x = some fd → s.ctx.switchdb.lookup x = some fd

theorem Spares.trans {s s' s'' : State} {fd : Fd} (h : Spares s s' fd) (h' : Spares s' s'' fd) :
    Spares s s'' fd where
  conn := h'.conn.trans h.conn
  isOpen := fun hopen => h'.isOpen (h.isOpen hopen)
  lookup := h'.lookup.trans h.lookup
  only := fun x hx => h.only x (h'.only x hx)

section Spares
variable {s s' : State} {fd : Fd} {io : List Io}

theorem spares_of_eq (hconns : s'.ctx.conns = s.ctx.conns) (hopen : s'.openFds = s.openFds)
    (hdb : s'.ctx.switchdb = s.ctx.switchdb) : Spares s s' fd where
  conn := by rw [Context.on, Context.on, hconns]
  isOpen := by
    rw [hopen]
    exact id
  lookup := by rw [hdb]
  only := by
    rw [hdb]
    exact fun _ hx => hx

/-- Another descriptor is tracked. -/
theorem spares_add (hpar : s.ctx.Parallel) {c : Connection} {fd' : Fd} (hne : fd' ≠ fd)
    (hctx : s'.ctx = s.ctx.add_ c fd') (hopen : s.openFds ⊆ s'.openFds) : Spares s s' fd where
  conn := by
    rw [Context.on, hctx, conns_add_ hpar, List.filter_append,
      List.filter_cons_of_neg (by simpa using hne), List.filter_nil, List.append_nil]
    rfl
  isOpen := fun hfd => hopen hfd
  lookup := by
    rw [hctx]
    rfl
  only := by
    rw [hctx]
    exact fun _ hx => hx

theorem spares_addNew (hpar : s.ctx.Parallel) (hfd : fd ∈ s.openFds) {c : Connection} {newfd : Fd}
    (h : s.addNew c newfd = some s') : Spares s s' fd := by
  obtain ⟨hnew, rfl⟩ := addNew_eq_some h
  refine spares_add hpar ?_ rfl (Finset.subset_insert newfd s.openFds)
  rintro rfl
  exact hnew hfd

/-- The connection of another descriptor is closed. -/
theorem Closed.spares {index : Nat} {c : Connection} {fd' : Fd} (h : Closed s index fd' io s')
    (hget : s.ctx.conns[index]? = some (c, fd')) (hne : fd' ≠ fd) : Spares s s' fd where
  conn := by
    have hperm := (h.perm hget).filter fun e => e.2 = fd
    rw [List.filter_cons_of_neg (by simpa using hne)] at hperm
    exact hperm.symm
  isOpen := by
    intro hfd
    rw [h.openFds]
    exact Finset.mem_erase.mpr ⟨hne.symm, hfd⟩
  lookup := by rw [h.switchdb]
  only := by
    rw [h.switchdb]
    exact fun _ hx => hx

end Spares

/-! ## What is done about a descriptor -/

/-- The message entry `i` of the queue is for `fd`. -/
def isFor (fd : Fd) (q : List Message) (i : Nat) : Bool := q[i]?.any fun m => m.fd = fd

/-- Something is done about `fd`. -/
def Io.about (fd : Fd) : Io → Bool
  | .queue (.queued m) => m.fd = fd
  | .queue (.handed q i) => isFor fd q i
  | .queue (.dropped q i) => isFor fd q i
  | .write fd' _ => fd' = fd
  | .close fd' => fd' = fd

/-- Nothing is done about `fd`. -/
def Quiet (fd : Fd) (io : List Io) : Prop := ∀ e ∈ io, e.about fd = false

theorem quiet_nil {fd : Fd} : Quiet fd [] := by simp [Quiet]

theorem quiet_cons {fd : Fd} {e : Io} {io : List Io} :
    Quiet fd (e :: io) ↔ e.about fd = false ∧ Quiet fd io := by
  simp [Quiet]

theorem Quiet.append {fd : Fd} {io io' : List Io} (h : Quiet fd io) (h' : Quiet fd io') :
    Quiet fd (io ++ io') := by
  intro e he
  rcases List.mem_append.mp he with he | he
  · exact h e he
  · exact h' e he

/-- The message that joins, leaves or is lost by an event that is not about `fd`. -/
theorem fd_ne_of_not_about {fd : Fd} {e : QueueEvent Message}
    (h : Io.about fd (.queue e) = false) : ∀ m ∈ e.joining ++ e.leaving ++ e.lost, m.fd ≠ fd := by
  have hentry : ∀ (q : List Message) (i : Nat), isFor fd q i = false → ∀ m ∈ q[i]?.toList,
      m.fd ≠ fd := by
    intro q i hfor m hm
    rw [Option.mem_toList] at hm
    rw [isFor, hm] at hfor
    exact of_decide_eq_false hfor
  intro m hm
  cases e with
  | queued m' =>
    rw [show m = m' by simpa [QueueEvent.joining, QueueEvent.leaving, QueueEvent.lost] using hm]
    exact of_decide_eq_false h
  | handed q i =>
    exact hentry q i h m
      (by simpa [QueueEvent.joining, QueueEvent.leaving, QueueEvent.lost] using hm)
  | dropped q i =>
    exact hentry q i h m
      (by simpa [QueueEvent.joining, QueueEvent.leaving, QueueEvent.lost] using hm)

theorem Quiet.not_about {fd : Fd} {io : List Io} (h : Quiet fd io) {e : QueueEvent Message}
    (he : e ∈ queueEvents io) : Io.about fd (.queue e) = false := by
  obtain ⟨e', he', hq⟩ := List.mem_filterMap.mp he
  have habout := h e' he'
  cases e' with
  | queue e'' => exact Option.some.inj hq ▸ habout
  | write fd' bs => cases hq
  | close fd' => cases hq

/-- A quiet call neither adds a message for `fd`, nor takes one away. -/
theorem Quiet.lanes {fd : Fd} {io : List Io} (h : Quiet fd io) :
    queuedIn Message.fd fd (queueEvents io) = [] ∧ handedIn Message.fd fd (queueEvents io) = [] ∧
      lostIn Message.fd fd (queueEvents io) = [] := by
  have hmem : ∀ m, ∀ e ∈ queueEvents io, m ∈ e.joining ++ e.leaving ++ e.lost → m.fd ≠ fd :=
    fun m e he hm => fd_ne_of_not_about (h.not_about he) m hm
  refine ⟨lane_eq_nil.mpr ?_, lane_eq_nil.mpr ?_, lane_eq_nil.mpr ?_⟩
  · intro m hm
    obtain ⟨e, he, hin⟩ := List.mem_flatMap.mp hm
    exact hmem m e he (by simp [hin])
  · intro m hm
    obtain ⟨e, he, hin⟩ := List.mem_flatMap.mp hm
    exact hmem m e he (by simp [hin])
  · intro m hm
    obtain ⟨e, he, hin⟩ := List.mem_flatMap.mp hm
    exact hmem m e he (by simp [hin])

/-! ## Calls that are about others -/

section Others
variable {s s' : State} {fd : Fd} {io : List Io}

/-- Closing the connection of another descriptor. -/
theorem close_other (hpar : s.ctx.Parallel) {index : Nat} {r : Except Error Unit}
    (hne : ∀ e ∈ s.ctx.conns[index]?, e.2 ≠ fd) (h : s.close index = some (r, s', io)) :
    Spares s s' fd ∧ Quiet fd io := by
  rcases close_eq_some hpar h with ⟨-, -, rfl, rfl⟩ | ⟨c, fd', hget, -, hclosed⟩
  · exact ⟨spares_of_eq rfl rfl rfl, quiet_nil⟩
  · refine ⟨hclosed.spares hget (hne _ hget), ?_⟩
    unfold State.close at h
    split at h
    · cases h
      exact quiet_nil
    · obtain ⟨c', hc', h⟩ := Option.bind_eq_some_iff.mp h
      obtain ⟨p, hp, h⟩ := Option.bind_eq_some_iff.mp h
      split at h
      · cases h
        have hother : p.fd ≠ fd := hne _ (conns_getElem? hc' hp)
        refine quiet_cons.mpr ⟨by simpa [Io.about] using hother, ?_⟩
        intro e he
        obtain ⟨e', he', rfl⟩ := List.mem_map.mp he
        obtain ⟨q, j, m, rfl, hm, hfd⟩ := mem_dropAll he'
        simpa [Io.about, isFor, hm, hfd] using hother
      · cases h

theorem closeFd_other (hpar : s.ctx.Parallel) {fd' : Fd} {r : Except Error Unit} (hne : fd' ≠ fd)
    (h : s.closeFd fd' = some (r, s', io)) : Spares s s' fd ∧ Quiet fd io := by
  rcases closeFd_eq_some hpar h with ⟨-, rfl, rfl⟩ | ⟨index, c, hget, hclose, -⟩
  · exact ⟨spares_of_eq rfl rfl rfl, quiet_nil⟩
  · refine close_other hpar ?_ hclose
    intro e he
    rw [Option.mem_def, hget, Option.some.injEq] at he
    rw [← he]
    exact hne

theorem safeCloseFd_other (hpar : s.ctx.Parallel) {fd' : Fd} (hne : fd' ≠ fd)
    (h : s.safeCloseFd fd' = some (s', io)) : Spares s s' fd ∧ Quiet fd io := by
  unfold State.safeCloseFd at h
  split at h
  · obtain ⟨⟨r, s₁, io₁⟩, hclose, h⟩ := Option.map_eq_some_iff.mp h
    cases h
    exact closeFd_other hpar hne hclose
  · cases h
    exact ⟨spares_of_eq rfl rfl rfl, quiet_nil⟩

/-- Another switch is given up. -/
theorem dropSwitch_other (hpar : s.ctx.Parallel) {fd' : Fd} (hne : fd' ≠ fd)
    (hdest : s.ctx.switchdb.lookup fd' ≠ some fd) (h : s.dropSwitch fd' = some (s', io)) :
    Spares s s' fd ∧ Quiet fd io := by
  obtain ⟨dest, s₁, io₁, io₂, hlookup, h₁, h₂, rfl⟩ := dropSwitch_eq_some h
  have hne' : dest ≠ fd := by
    rintro rfl
    exact hdest hlookup
  have hnuked : Spares s (s.withSwitchdb (s.ctx.switchdb.nuke fd')) fd := by
    refine ⟨.refl _, id, ?_, ?_⟩
    · refine (PartnerTable.lookup_unlink hlookup fd).trans (if_neg ?_)
      rintro (rfl | rfl)
      · exact hne rfl
      · exact hne' rfl
    · intro x hx
      have hx' : (PartnerTable.unlink s.ctx.switchdb fd').lookup x = some fd := hx
      exact PartnerTable.lookup_of_unlink hx'
  have hclosed₁ := safeCloseFd_other (s := s.withSwitchdb (s.ctx.switchdb.nuke fd')) hpar hne h₁
  have hpar₁ := (safeCloseFd_effect (s := s.withSwitchdb (s.ctx.switchdb.nuke fd')) hpar h₁).parallel
  have hclosed₂ := safeCloseFd_other hpar₁ hne' h₂
  exact ⟨hnuked.trans (hclosed₁.1.trans hclosed₂.1), hclosed₁.2.append hclosed₂.2⟩

/-- A message that is forwarded goes where the table says. -/
theorem readSwitched_forwarded {index : Nat} {fd' : Fd} {cb : In} {r : Except Error Event}
    (h : s.readSwitched index fd' cb = some (r, s', io)) :
    (∃ m : Message, s.ctx.switchdb.lookup fd' = some m.fd ∧ s' = s.schedule m ∧
        io = [.queue (.queued m)]) ∨
      s.dropSwitch fd' = some (s', io) ∨ (s' = s ∧ io = []) := by
  have hevent : ∀ m, (s.ctx.switchdb.handleEventRead index fd' cb).m = some m →
      s.ctx.switchdb.lookup fd' = some m.fd := by
    intro m hm
    unfold SwitchDB.handleEventRead at hm
    split at hm
    · cases hm
    · cases hm
    · rename_i m' hread
      obtain rfl : m' = some m := hm
      unfold SwitchDB.read at hread
      split at hread
      · cases hread
      · rename_i dest hdest
        split at hread
        · cases hread
        · split at hread
          · cases hread
          · rename_i m'' hread'
            simp only [Except.ok.injEq, Option.some.injEq] at hread
            subst hread
            rw [hdest, Message.fd_of_read hread']
        · cases hread
        · cases hread
  unfold State.readSwitched at h
  simp only at h
  split at h
  · obtain ⟨m, hm, h⟩ := Option.bind_eq_some_iff.mp h
    cases h
    exact .inl ⟨m, hevent m hm, rfl, rfl⟩
  · obtain ⟨⟨s₁, io₁⟩, hdrop, h⟩ := Option.map_eq_some_iff.mp h
    cases h
    exact .inr (.inl hdrop)
  · obtain ⟨⟨s₁, io₁⟩, hdrop, h⟩ := Option.map_eq_some_iff.mp h
    cases h
    exact .inr (.inl hdrop)
  · cases h
    exact .inr (.inr ⟨rfl, rfl⟩)

variable {index : Nat} {p : PollFd} {c : Connection} {r : Except Error Event}

/-- A message is written, and the switch may be given up after that. -/
theorem writeMessage_cases {sys : WaitSys} (h : s.writeMessage index p c sys = some (r, s', io)) :
    ∃ i m bs, s.ctx.tx[i]? = some m ∧ m.fd = p.fd ∧
      ((s' = s.withTx (swapRemove s.ctx.tx i) ∧
          io = [.queue (.handed s.ctx.tx i), .write m.fd bs]) ∨
        ∃ io', (s.withTx (swapRemove s.ctx.tx i)).dropSwitch p.fd = some (s', io') ∧
          io = .queue (.handed s.ctx.tx i) :: .write m.fd bs :: io') := by
  simp only [State.writeMessage, Option.bind_eq_bind, Option.pure_def] at h
  obtain ⟨i, hi, h⟩ := Option.bind_eq_some_iff.mp h
  obtain ⟨m, hm, h⟩ := Option.bind_eq_some_iff.mp h
  obtain ⟨-, m', hm', hfd⟩ := isFirst_of_findIdx? hi
  obtain rfl : m' = m := Option.some.inj (hm'.symm.trans hm)
  split at h
  · split at h
    · cases h
      exact ⟨i, m', _, hm, hfd, .inl ⟨rfl, rfl⟩⟩
    · obtain ⟨⟨s₁, io₁⟩, hdrop, h⟩ := Option.bind_eq_some_iff.mp h
      cases h
      exact ⟨i, m', _, hm, hfd, .inr ⟨io₁, hdrop, rfl⟩⟩
    · cases h
      exact ⟨i, m', _, hm, hfd, .inl ⟨rfl, rfl⟩⟩
  · split at h
    · cases h
      exact ⟨i, m', _, hm, hfd, .inl ⟨rfl, rfl⟩⟩
    · cases h
      exact ⟨i, m', _, hm, hfd, .inl ⟨rfl, rfl⟩⟩

theorem writeMessage_other (hpar : s.ctx.Parallel) (hne : p.fd ≠ fd)
    (hdest : s.ctx.switchdb.lookup p.fd ≠ some fd) {sys : WaitSys}
    (h : s.writeMessage index p c sys = some (r, s', io)) : Spares s s' fd ∧ Quiet fd io := by
  obtain ⟨i, m, bs, hm, hfd, hcases⟩ := writeMessage_cases h
  have hother : m.fd ≠ fd := hfd ▸ hne
  have hsent : Spares s (s.withTx (swapRemove s.ctx.tx i)) fd := spares_of_eq rfl rfl rfl
  have hhanded : Io.about fd (.queue (.handed s.ctx.tx i)) = false := by
    simpa [Io.about, isFor, hm] using hother
  have hwrite : Io.about fd (.write m.fd bs) = false := by simpa [Io.about] using hother
  rcases hcases with ⟨rfl, rfl⟩ | ⟨io', hdrop, rfl⟩
  · exact ⟨hsent, quiet_cons.mpr ⟨hhanded, quiet_cons.mpr ⟨hwrite, quiet_nil⟩⟩⟩
  · obtain ⟨hspares, hquiet⟩ :=
      dropSwitch_other (s := s.withTx (swapRemove s.ctx.tx i)) hpar hne hdest hdrop
    exact ⟨hsent.trans hspares, quiet_cons.mpr ⟨hhanded, quiet_cons.mpr ⟨hwrite, hquiet⟩⟩⟩

/-- Handling the entry of a descriptor that is neither `fd` nor switched with it. -/
theorem dispatch_other (hpar : s.ctx.Parallel) (hopen : fd ∈ s.openFds)
    (hp : s.ctx.pollfd[index]? = some p) (hc : s.ctx.connections[index]? = some c)
    (hne : p.fd ≠ fd) (hdest : s.ctx.switchdb.lookup p.fd ≠ some fd) {sys : WaitSys}
    (h : s.dispatch index p c sys = some (r, s', io)) : Spares s s' fd ∧ Quiet fd io := by
  have hsame : Spares s s fd ∧ Quiet fd [] := ⟨spares_of_eq rfl rfl rfl, quiet_nil⟩
  -- the connection closed is the one handled, and that is not `fd`
  have hclose : ∀ {r' : Except Error Unit} {s' : State} {io : List Io},
      s.close index = some (r', s', io) → Spares s s' fd ∧ Quiet fd io := by
    intro r' s' io hclose
    refine close_other hpar ?_ hclose
    rw [conns_getElem? hc hp]
    rintro e ⟨⟩
    exact hne
  unfold State.dispatch at h
  split at h
  · split at h
    · unfold State.acceptNewClient at h
      split at h
      · cases h
        exact hsame
      · split at h
        · cases h
          exact hsame
        · obtain ⟨s₁, hadd, h⟩ := Option.bind_eq_some_iff.mp h
          cases h
          exact ⟨spares_addNew hpar hopen hadd, quiet_nil⟩
    · rcases readSwitched_forwarded h with ⟨m, hlookup, rfl, rfl⟩ | hdrop | ⟨rfl, rfl⟩
      · refine ⟨spares_of_eq rfl rfl rfl, quiet_cons.mpr ⟨?_, quiet_nil⟩⟩
        have hother : m.fd ≠ fd := by
          intro heq
          exact hdest (heq ▸ hlookup)
        simpa [Io.about] using hother
      · exact dropSwitch_other hpar hne hdest hdrop
      · exact hsame
    · cases h
      exact hsame
    · unfold State.readMessage at h
      split at h
      · obtain ⟨r', hclosed⟩ := disconnect_eq_some h
        exact hclose hclosed
      · cases h
        exact hsame
      · obtain ⟨r', hclosed⟩ := disconnect_eq_some h
        exact hclose hclosed
      · cases h
        exact hsame
  · split at h
    · have hset := map_fd_set { p with events := { p.events with pollout := false } } hp rfl
      obtain ⟨hspares, hquiet⟩ :=
        writeMessage_other (parallel_withPollfd hpar hset) hne hdest h
      exact ⟨(spares_of_eq (conns_withPollfd hset) rfl rfl).trans hspares, hquiet⟩
    · split at h
      · obtain ⟨r', hclosed⟩ := disconnect_eq_some h
        exact hclose hclosed
      · cases h
        exact hsame

end Others

/-! ## Adding another switch -/

theorem filter_modify_of_neg {α : Type} {q : α → Bool} {f : α → α} {l : List α} {i : Nat}
    (h : ∀ x ∈ l[i]?, q x = false ∧ q (f x) = false) : (l.modify i f).filter q = l.filter q := by
  induction l generalizing i with
  | nil => simp
  | cons x l ih =>
    cases i with
    | zero =>
      obtain ⟨hx, hfx⟩ := h x (by simp)
      simp [hx, hfx]
    | succ i =>
      have htail := ih (i := i) (by simpa using h)
      simp [List.filter_cons, htail]

/-- The connection at `i` becomes switched, as `add_switch` does it: those on another descriptor
than its own stay as they are. -/
theorem filter_zip_modify {cs : List Connection} {fds : List Fd} {fd : Fd} {i : Nat}
    (h : ∀ fd' ∈ fds[i]?, fd' ≠ fd) :
    ((cs.modify i Connection.switched).zip fds).filter (fun e => e.2 = fd) =
      (cs.zip fds).filter fun e => e.2 = fd := by
  have hzip : (cs.modify i Connection.switched).zip fds =
      (cs.zip fds).modify i (Prod.map Connection.switched id) := by
    apply List.ext_getElem?
    intro k
    simp only [List.zip, List.getElem?_zipWith, List.getElem?_modify]
    cases cs[k]? with
    | none => rfl
    | some c =>
      cases fds[k]? with
      | none => rfl
      | some fd =>
        by_cases hik : i = k
        · simp [hik]
        · simp [hik]
  rw [hzip]
  apply filter_modify_of_neg
  intro e he
  have hne := h e.2 (List.getElem?_zip_eq_some.mp he).2
  simp [hne]

/-- Two other descriptors are switched. -/
theorem spares_addSwitch {s : State} {fd fd1 fd2 : Fd} {ctx : Context}
    (h : s.ctx.addSwitch fd1 fd2 = .ok ctx) (h1 : fd1 ≠ fd) (h2 : fd2 ≠ fd) :
    Spares s { s with ctx := ctx } fd := by
  obtain ⟨i, j, hi, hj, rfl⟩ := addSwitch_eq_ok h
  have hother : ∀ {fd' k}, s.ctx.fdToIndex fd' = some k → fd' ≠ fd →
      ∀ fd'' ∈ (s.ctx.pollfd.map PollFd.fd)[k]?, fd'' ≠ fd := by
    intro fd' k hk hne fd'' hfd''
    obtain ⟨hlt, hfd, -⟩ := List.findIdx?_eq_some_iff_getElem.mp hk
    rw [List.getElem?_map, List.getElem?_eq_getElem hlt, Option.map_some,
      of_decide_eq_true hfd] at hfd''
    exact Option.some.inj hfd'' ▸ hne
  refine ⟨?_, id, ?_, ?_⟩
  · apply List.Perm.of_eq
    exact (filter_zip_modify (hother hj h2)).trans (filter_zip_modify (hother hi h1))
  · show (PartnerTable.link s.ctx.switchdb fd1 fd2).lookup fd = _
    rw [PartnerTable.link, AList.lookup_insert_ne h2.symm, AList.lookup_insert_ne h1.symm]
  · intro x hx
    exact PartnerTable.lookup_of_link h1 h2 hx

end LibIpc.Zig

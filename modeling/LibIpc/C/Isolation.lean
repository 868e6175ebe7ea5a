import LibIpc.C.Teardown

/-!
# One event touches one conversation

`ipc_wait_event` handles one entry. Whatever it does to it, the entries of all descriptors but the
one the event reports and its peer in the switching table, and the messages queued for them, stay
what they were. One exception: when a client is accepted, the event reports the client, and the
server that accepted it has its `more_to_read` reset.
-/

namespace LibIpc.C

open Lib

/-! ## What is left alone -/

section Filter
variable {α : Type} {p q : α → Bool}

theorem filter_set_of_neg {l : List α} {i : Nat} {x y : α} (hx : l[i]? = some x) (hpx : ¬ p x)
    (hpy : ¬ p y) : (l.set i y).filter p = l.filter p := by
  induction l generalizing i with
  | nil => rfl
  | cons z l ih =>
    cases i with
    | zero =>
      cases hx
      simp [hpx, hpy]
    | succ i =>
      rw [List.set_cons_succ, List.filter_cons, List.filter_cons, ih hx]

theorem filter_eraseP_of_disjoint (h : ∀ x, q x → ¬ p x) (l : List α) :
    (l.eraseP q).filter p = l.filter p := by
  induction l with
  | nil => rfl
  | cons x l ih =>
    by_cases hq : q x
    · rw [List.eraseP_cons_of_pos hq, List.filter_cons_of_neg (h x hq)]
    · rw [List.eraseP_cons_of_neg hq, List.filter_cons, List.filter_cons, ih]

theorem perm_filter_swapRemove {l : List α} {i : Nat} {x : α} (hx : l[i]? = some x)
    (hpx : ¬ p x) : ((swapRemove l i).filter p).Perm (l.filter p) := by
  obtain ⟨hlt, rfl⟩ := List.getElem?_eq_some_iff.mp hx
  have hperm := (perm_cons_swapRemove hlt).filter p
  rw [List.filter_cons_of_neg hpx] at hperm
  exact hperm.symm

end Filter

/-- The connections on the descriptors of `p`, and the messages for them, are the same. -/
structure Untouched (p : Fd → Bool) (v w : View) : Prop where
  info : (w.info.filter fun c => p c.2).Perm (v.info.filter fun c => p c.2)
  tx : (w.tx.filter fun m => p m.fd).Perm (v.tx.filter fun m => p m.fd)

section Untouched
variable {p : Fd → Bool} {u v w : View}

theorem Untouched.trans (h : Untouched p u v) (h' : Untouched p v w) : Untouched p u w :=
  ⟨h'.info.trans h.info, h'.tx.trans h.tx⟩

theorem View.Same.untouched (h : v.Same w) : Untouched p v w := by
  refine ⟨?_, ?_⟩
  · rw [h.info]
  · rw [h.tx]

/-- The switching table is not looked at. -/
theorem Untouched.withSwitchdb (h : Untouched p v w) (l : List IpcSwitching) :
    Untouched p v { w with switchdb := l } :=
  ⟨h.info, h.tx⟩

theorem perm_filter_tx {fd : Fd} (hp : ¬ p fd) {tx tx' : List IpcMessage}
    (h : tx'.Perm (tx.filter fun m => m.fd ≠ fd)) :
    (tx'.filter fun m => p m.fd).Perm (tx.filter fun m => p m.fd) := by
  refine (h.filter fun m => p m.fd).trans ?_
  rw [List.filter_filter]
  apply List.Perm.of_eq
  apply List.filter_congr
  intro m _
  by_cases hm : m.fd = fd
  · simp [hm, hp]
  · simp [hm]

theorem untouched_touch {i : Nat} {e : IpcConnectionInfo × PollFd} (hget : v.conns[i]? = some e)
    (hself : ¬ p e.2.fd) (more : Int) {pollfd : PollFd} (hfd : pollfd.fd = e.2.fd) :
    Untouched p v (v.touch i e more pollfd) := by
  refine ⟨?_, .refl _⟩
  rw [info_touch hfd, filter_set_of_neg (View.info_getElem? hget) (by simpa using hself)
    (by simpa using hself)]

theorem DeletedFd.untouched {fd : Fd} {es : List (QueueEvent IpcMessage)}
    (h : DeletedFd v fd es w) (hp : ¬ p fd) : Untouched p v w := by
  refine ⟨?_, perm_filter_tx hp h.tx⟩
  have hinfo := h.conns.map fun e => (e.1, e.2.fd)
  refine (hinfo.filter fun c => p c.2).trans ?_
  rw [View.info, List.filter_map, List.filter_map]
  apply List.Perm.map
  rw [filter_eraseP_of_disjoint]
  intro e he
  obtain rfl : e.2.fd = fd := by simpa using he
  exact hp

theorem Deleted.untouched {i : Nat} {e : IpcConnectionInfo × PollFd}
    (hget : v.conns[i]? = some e) {es : List (QueueEvent IpcMessage)}
    (h : Deleted v i e.2.fd es w) (hp : ¬ p e.2.fd) : Untouched p v w := by
  refine ⟨?_, perm_filter_tx hp h.tx⟩
  rw [View.info, h.conns, ← swapRemove_map]
  exact perm_filter_swapRemove (View.info_getElem? hget) hp

theorem ClosedAt.untouched {i : Nat} {e : IpcConnectionInfo × PollFd}
    (hget : v.conns[i]? = some e) {es : List (QueueEvent IpcMessage)} (h : ClosedAt v i e es w)
    (hp : ¬ p e.2.fd) : Untouched p v w := by
  refine ⟨?_, perm_filter_tx hp h.tx⟩
  obtain ⟨path, hconns⟩ := h.conns
  rw [View.info, hconns, List.map_set, ← View.info,
    filter_set_of_neg (View.info_getElem? hget) hp hp]

theorem Queued.untouched {m : IpcMessage} {es : List (QueueEvent IpcMessage)}
    (h : Queued v m es w) (hp : ¬ p m.fd) : Untouched p v w := by
  refine ⟨by rw [h.info], ?_⟩
  rcases h.tx with ⟨-, -, htx⟩ | ⟨-, -, htx⟩
  · have hcopy : ([deepCopy m].filter fun m => p m.fd) = [] := List.filter_cons_of_neg hp
    rw [htx, List.filter_append, hcopy, List.append_nil]
  · rw [htx]

theorem Popped.perm_filter {q q' : List IpcMessage} {fd : Fd} {m : Option IpcMessage}
    {es : List (QueueEvent IpcMessage)} (h : Popped q fd m es q') (hp : ¬ p fd) :
    (q'.filter fun m => p m.fd).Perm (q.filter fun m => p m.fd) := by
  cases h with
  | empty _ => exact .refl _
  | first _ hget hfd =>
    refine perm_filter_swapRemove hget ?_
    rw [hfd]
    exact hp

theorem untouched_popped {i : Nat} {e : IpcConnectionInfo × PollFd} (hget : v.conns[i]? = some e)
    (hself : ¬ p e.2.fd) {pollfd : PollFd} (hfd : pollfd.fd = e.2.fd) {m : Option IpcMessage}
    {es : List (QueueEvent IpcMessage)} {tx : List IpcMessage}
    (h : Popped v.tx e.2.fd m es tx) :
    Untouched p v { v.touch i e e.1.moreToRead pollfd with tx := tx } :=
  ⟨(untouched_touch hget hself e.1.moreToRead hfd).info, h.perm_filter hself⟩

theorem IpcSwitching.dest_eq {sw : IpcSwitching} {fd : Fd} (h : sw.mentions fd) :
    sw.dest = fd ∨ sw.dest = sw.other fd := by
  simp only [IpcSwitching.mentions, decide_eq_true_eq] at h
  unfold IpcSwitching.other
  by_cases horig : sw.orig = fd
  · exact .inr (if_pos horig).symm
  · exact .inl (h.resolve_left horig)

end Untouched

/-- Handling an entry leaves alone everything but its descriptor and its peer, unless it is a
server that accepts a client. -/
theorem Handling.untouched {v w : View} {i : Nat} {e : IpcConnectionInfo × PollFd}
    (hget : v.conns[i]? = some e) {event : IpcEvent} {io : List Io} {accept : Fd}
    (h : Handling accept v i e event w io) (haccept : 0 ≤ accept)
    (htype : event.type ≠ .connection) {p : Fd → Bool} (hself : ¬ p e.2.fd)
    (hpeer : ∀ sw, v.switchdb.find? (fun s => s.mentions e.2.fd) = some sw →
      ¬ p (sw.other e.2.fd)) : Untouched p v w := by
  cases h with
  | kept hp _ _ _ _ => exact untouched_touch hget hself _ hp
  | accepted _ _ ht _ => exact absurd ht htype
  | acceptFailed hneg _ _ => exact absurd haccept (Int.not_le.mpr hneg)
  | relayed hsw hm _ hqueued _ _ =>
    refine (untouched_touch hget hself _ rfl).trans (hqueued.untouched ?_)
    rw [hm]
    exact hpeer _ hsw
  | readTorn _ hsw _ h₁ h₂ _ _ _ =>
    have htouch := fun more => untouched_touch hget hself more rfl
    refine (((htouch _).trans (h₁.untouched ?_)).trans (h₂.untouched hself)).withSwitchdb _
    -- The destination is one of the two ends, whichever of them talks.
    have hmentions := List.find?_some hsw
    rcases IpcSwitching.dest_eq hmentions with hdest | hdest
    · rw [hdest]
      exact hself
    · rw [hdest]
      exact hpeer _ hsw
  | written hp hpopped _ _ _ _ => exact untouched_popped hget hself hp hpopped
  | @writeTorn _ _ _ _ _ _ _ _ _ _ l _ _ _ hp hpopped _ _ hsw hr _ hother hdel =>
    have hsent := (untouched_popped hget hself hp hpopped).withSwitchdb l
    rcases hother with ⟨-, hdeleted⟩ | ⟨-, -, rfl⟩
    · have hend : ¬ p _ := hr ▸ hpeer _ hsw
      exact (hsent.trans (hdeleted.untouched hend)).trans (hdel.untouched hself)
    · exact hsent.trans (hdel.untouched hself)
  | disconnected _ hclosed hdeleted _ _ =>
    have hget₀ := touch_getElem? hget 0 e.2
    -- Closing keeps the entry where it is, so the deletion finds it.
    obtain ⟨path, hget₁⟩ := hclosed.getElem? hget₀
    have htouch : Untouched p v (v.touch i e 0 e.2) := untouched_touch hget hself 0 rfl
    exact (htouch.trans (hclosed.untouched hget₀ hself)).trans
      (Deleted.untouched (e := ({ e.1 with moreToRead := 0, spath := path }, e.2)) hget₁ hdeleted
        hself)
  | hungUp _ _ hclosed _ _ => exact hclosed.untouched hget hself

/-- A server that accepts a client: its `more_to_read` is reset. -/
theorem Handling.accepts {v w : View} {i : Nat} {e : IpcConnectionInfo × PollFd}
    {event : IpcEvent} {io : List Io} {accept : Fd} (h : Handling accept v i e event w io)
    (htype : event.type = .connection) :
    e.1.type = .server ∧ event.origin = accept ∧ w.tx = v.tx ∧
      ∃ c, w.info = v.info.set i ({ e.1 with moreToRead := 0 }, e.2.fd) ++ [(c, accept)] := by
  have hnot : ∀ t, event.type = t → t ≠ .connection → False := fun t ht hne => hne (ht ▸ htype)
  cases h with
  | kept _ _ hne _ _ => exact absurd htype hne
  | accepted _ hserver _ horigin =>
    refine ⟨hserver, horigin, rfl, {}, ?_⟩
    rw [← info_touch (p := e.2) rfl]
    simp [View.info]
  | acceptFailed _ ht _ => exact (hnot _ ht (by simp)).elim
  | relayed _ _ _ _ ht _ => exact (hnot _ ht (by simp)).elim
  | readTorn _ _ _ _ _ _ ht _ => exact (ht.elim (hnot _ · (by simp)) (hnot _ · (by simp))).elim
  | written _ _ _ _ ht _ => exact (hnot _ ht (by simp)).elim
  | writeTorn _ _ _ _ _ _ _ _ _ _ _ _ ht _ _ =>
    exact (ht.elim (hnot _ · (by simp)) (hnot _ · (by simp))).elim
  | disconnected _ _ _ ht _ => exact (ht.elim (hnot _ · (by simp)) (hnot _ · (by simp))).elim
  | hungUp _ _ _ ht _ => exact (hnot _ ht (by simp)).elim

theorem Handling.origin_eq {v w : View} {i : Nat} {e : IpcConnectionInfo × PollFd}
    {event : IpcEvent} {io : List Io} {accept : Fd} (h : Handling accept v i e event w io)
    (htype : event.type ≠ .connection) : event.origin = e.2.fd := by
  cases h with
  | accepted _ _ ht _ => exact absurd ht htype
  | _ => assumption

/-! ## One event -/

/-- The connection entries: type, path and `more_to_read`, with the descriptor. -/
def IpcCtx.info (ctx : IpcCtx) : List (IpcConnectionInfo × Fd) :=
  (ctx.entries.getD []).map fun e => (e.1, e.2.fd)

theorem info_ofView (v : View) : (IpcCtx.ofView v).info = v.info := by
  simp [IpcCtx.info, View.info]

/-- The switch peer of a descriptor: the other end of its first record. -/
def IpcCtx.peer (ctx : IpcCtx) (fd : Fd) : Option Fd :=
  (ipcSwitchingGet_ ctx.switchdb fd).join.map fun sw => sw.other fd

theorem peer_ofView (v : View) (fd : Fd) :
    (IpcCtx.ofView v).peer fd =
      (v.switchdb.find? fun s => s.mentions fd).map fun sw => sw.other fd := by
  rw [IpcCtx.peer, ipcSwitchingGet_ofView]
  rfl

/-- `fd` is neither `f` nor the switch peer of `f`. -/
def IpcCtx.outside (ctx : IpcCtx) (f fd : Fd) : Bool := fd ≠ f ∧ ctx.peer f ≠ some fd

/-- The entries of every descriptor but `f` and its peer. -/
def othersOf (ctx : IpcCtx) (f : Fd) (info : List (IpcConnectionInfo × Fd)) :
    List (IpcConnectionInfo × Fd) :=
  info.filter fun c => ctx.outside f c.2

/-- The messages queued for every descriptor but `f` and its peer. -/
def messagesOfOthers (ctx : IpcCtx) (f : Fd) (ctx' : IpcCtx) : List IpcMessage :=
  ctx'.queue.filter fun m => ctx.outside f m.fd

end LibIpc.C

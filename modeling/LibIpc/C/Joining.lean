import LibIpc.C.Involution

/-!
# Joining a client to a service (`ipc_connection_switched`)

The service and the client are both added to the connections, then the pair to the switching table.
A client that is tracked already, as `simple-tcpd` has it while it waits for the name of a service,
is added a second time: `joins_iff` says when descriptors stay unique. The arrays are only required
to hold as many elements as their sizes say.
-/

namespace LibIpc.C

open Lib

/-! ## Adding to arrays that can be read -/

/-- `ipc_add` on any arrays that can be read: the entry joins the end. -/
theorem entries_ipcAdd {ctx : IpcCtx} {es : List (IpcConnectionInfo × PollFd)}
    (h : ctx.entries = some es) (p : IpcConnectionInfo) (pollfd : PollFd) :
    (ipcAdd ctx p pollfd).entries = some (es ++ [(p, pollfd)]) ∧
      (ipcAdd ctx p pollfd).switchdb = ctx.switchdb := by
  obtain ⟨cinfos, hc, h⟩ := Option.bind_eq_some_iff.mp h
  obtain ⟨pollfds, hp, h⟩ := Option.bind_eq_some_iff.mp h
  obtain rfl := Option.some.inj h
  have hclen := Ptr.length_of_block hc
  have hplen := Ptr.length_of_block hp
  rw [ipcAdd_eq hc hp]
  refine ⟨?_, rfl⟩
  have hc' : Ptr.block (some (cinfos ++ [p])) (ctx.size + 1) = some (cinfos ++ [p]) := by
    simp [Ptr.block, ← hclen]
  have hp' : Ptr.block (some (pollfds ++ [pollfd])) (ctx.size + 1) = some (pollfds ++ [pollfd]) := by
    simp [Ptr.block, ← hplen]
  simp only [IpcCtx.entries, hc', hp', Option.bind_eq_bind, Option.bind_some, Option.pure_def]
  rw [List.zip_append (hclen.trans hplen.symm)]
  rfl

/-- `ipc_switching_add` on any array that can be read: the record joins the end. -/
theorem block_ipcSwitchingAdd {sw : IpcSwitchings} {l : List IpcSwitching}
    (h : sw.collection.block sw.size = some l) (orig dest : Fd) :
    (ipcSwitchingAdd sw orig dest).collection.block (ipcSwitchingAdd sw orig dest).size =
      some (l ++ [{ orig := orig, dest := dest }]) := by
  rw [ipcSwitchingAdd_eq h]
  simp [Ptr.block, Ptr.length_of_block h]

/-! ## The pair -/

/-- The descriptor of the service: the one `ipcd` gave, or the one of the direct connection. -/
def serviceFd (ipcd : Fd) (connect : Except IpcErrorCode Fd) : Except IpcErrorCode Fd :=
  if ipcd ≤ 0 then connect else .ok ipcd

/-- `fd` is tracked once, as a switched descriptor. -/
def SwitchedOnce (es : List (IpcConnectionInfo × PollFd)) (fd : Fd) : Prop :=
  (es.filter fun e => e.2.fd = fd).map (fun e => e.1.type) = [.switched]

/-- The connections `es` have become those of `ctx`: descriptors are unique, the client and the
service are switched and joined to each other, nothing else has changed. -/
structure Joins (clientfd sfd : Fd) (es : List (IpcConnectionInfo × PollFd)) (ctx : IpcCtx) : Prop where
  entries : ∃ es', ctx.entries = some es' ∧ (es'.map fun e => e.2.fd).Nodup ∧
    SwitchedOnce es' clientfd ∧ SwitchedOnce es' sfd ∧
    es'.filter (fun e => e.2.fd ≠ clientfd ∧ e.2.fd ≠ sfd) =
      es.filter fun e => e.2.fd ≠ clientfd ∧ e.2.fd ≠ sfd
  client : ipcSwitchingGet ctx.switchdb clientfd = some sfd
  service : ipcSwitchingGet ctx.switchdb sfd = some clientfd

/-- What `ipc_connection_switched` leaves when it succeeds. -/
theorem ipcConnectionSwitched_eq {ctx : IpcCtx} {es : List (IpcConnectionInfo × PollFd)}
    (hes : ctx.entries = some es) {recs : List IpcSwitching}
    (hrecs : ctx.switchdb.collection.block ctx.switchdb.size = some recs) (clientfd : Fd) {ipcd : Fd}
    {connect : Except IpcErrorCode Fd} {sfd : Fd} (hsfd : serviceFd ipcd connect = .ok sfd) :
    ∃ ctx', ipcConnectionSwitched ctx clientfd ipcd connect = (.none, ctx') ∧
      ctx'.entries = some (es ++
        [({ type := .switched }, { fd := sfd, events := { pollin := true } }),
          ({ type := .switched }, { fd := clientfd, events := { pollin := true } })]) ∧
      ctx'.switchdb.collection.block ctx'.switchdb.size =
        some (recs ++ [{ orig := clientfd, dest := sfd }]) := by
  have hservice : ipcConnection_ ctx .switched ipcd connect =
      .ok (ipcAdd ctx { type := .switched } { fd := sfd, events := { pollin := true } }, sfd) := by
    have hmap := congrArg (Except.map fun fd => (ipcAdd ctx { type := .switched }
      { fd := fd, events := { pollin := true } }, fd)) hsfd
    exact hmap
  obtain ⟨hes₁, hsw₁⟩ := entries_ipcAdd hes { type := .switched }
    { fd := sfd, events := { pollin := true } }
  obtain ⟨hes₂, hsw₂⟩ := entries_ipcAdd hes₁ { type := .switched }
    { fd := clientfd, events := { pollin := true } }
  simp only [ipcConnectionSwitched, hservice, ipcAddFdSwitched, ipcAddFd_]
  refine ⟨_, rfl, ?_, ?_⟩
  · rw [List.append_assoc] at hes₂
    exact hes₂
  · rw [hsw₂, hsw₁]
    exact block_ipcSwitchingAdd hrecs clientfd sfd

/-- A new record is found where there was none. -/
theorem peerOf_concat (l : List IpcSwitching) (s : IpcSwitching) {fd : Fd} (h : s.mentions fd) :
    peerOf (l ++ [s]) fd = some ((peerOf l fd).getD (s.other fd)) := by
  rw [peerOf, peerOf, pairOf, pairOf, List.find?_append]
  cases l.find? fun s => s.mentions fd with
  | none => simp [h]
  | some s' => rfl

theorem getD_eq_iff {r : Option Fd} {fd : Fd} : r.getD fd = fd ↔ ∀ x ∈ r, x = fd := by
  cases r <;> simp

/-- **Joining**: descriptors stay unique, and the two ends find each other, exactly when neither was
tracked and no record of the switching table joins one of them to someone else. -/
theorem joins_iff {ctx : IpcCtx} {es : List (IpcConnectionInfo × PollFd)}
    (hes : ctx.entries = some es) {recs : List IpcSwitching}
    (hrecs : ctx.switchdb.collection.block ctx.switchdb.size = some recs)
    (hnodup : (es.map fun e => e.2.fd).Nodup) (clientfd : Fd) {ipcd : Fd}
    {connect : Except IpcErrorCode Fd} {sfd : Fd} (hsfd : serviceFd ipcd connect = .ok sfd) :
    (∃ ctx', ipcConnectionSwitched ctx clientfd ipcd connect = (.none, ctx') ∧
        Joins clientfd sfd es ctx') ↔
      (∀ e ∈ es, e.2.fd ≠ clientfd ∧ e.2.fd ≠ sfd) ∧ sfd ≠ clientfd ∧
        (∀ x ∈ peerOf recs clientfd, x = sfd) ∧ ∀ x ∈ peerOf recs sfd, x = clientfd := by
  obtain ⟨ctx', hcall, hes', hrecs'⟩ := ipcConnectionSwitched_eq hes hrecs clientfd hsfd
  have hnew : ({ orig := clientfd, dest := sfd } : IpcSwitching).mentions clientfd ∧
      ({ orig := clientfd, dest := sfd } : IpcSwitching).mentions sfd := by
    simp [IpcSwitching.mentions]
  have hclient : ipcSwitchingGet ctx'.switchdb clientfd = some sfd ↔
      ∀ x ∈ peerOf recs clientfd, x = sfd := by
    have hother : ({ orig := clientfd, dest := sfd } : IpcSwitching).other clientfd = sfd := by
      simp [IpcSwitching.other]
    rw [ipcSwitchingGet_of_block hrecs', peerOf_concat recs _ hnew.1, Option.getD_some, hother,
      Option.some.injEq, getD_eq_iff]
  have hservice : ipcSwitchingGet ctx'.switchdb sfd = some clientfd ↔
      ∀ x ∈ peerOf recs sfd, x = clientfd := by
    have hother : ({ orig := clientfd, dest := sfd } : IpcSwitching).other sfd = clientfd := by
      simp only [IpcSwitching.other]
      split
      · rename_i heq
        exact heq.symm
      · rfl
    rw [ipcSwitchingGet_of_block hrecs', peerOf_concat recs _ hnew.2, Option.getD_some, hother,
      Option.some.injEq, getD_eq_iff]
  constructor
  · rintro ⟨ctx'', hcall', ⟨es'', hes'', hnodup'', -, -, -⟩, hget, hget'⟩
    obtain rfl : ctx' = ctx'' := (Prod.mk.inj (hcall.symm.trans hcall')).2
    obtain rfl := Option.some.inj (hes'.symm.trans hes'')
    rw [List.map_append, List.nodup_append] at hnodup''
    obtain ⟨-, hpair, hdisjoint⟩ := hnodup''
    refine ⟨?_, ?_, hclient.mp hget, hservice.mp hget'⟩
    · intro e he
      have hmem := List.mem_map_of_mem (f := fun e => e.2.fd) he
      exact ⟨hdisjoint _ hmem clientfd (by simp), hdisjoint _ hmem sfd (by simp)⟩
    · simpa using hpair
  · rintro ⟨hfresh, hne, hrec, hrec'⟩
    have hne' : clientfd ≠ sfd := fun heq => hne heq.symm
    have hnone : ∀ fd, (∀ e ∈ es, e.2.fd ≠ fd) → (es.filter fun e => e.2.fd = fd) = [] := by
      intro fd hfd
      simpa [List.filter_eq_nil_iff] using hfd
    refine ⟨ctx', hcall, ⟨_, hes', ?_, ?_, ?_, ?_⟩, hclient.mpr hrec, hservice.mpr hrec'⟩
    · rw [List.map_append, List.nodup_append]
      refine ⟨hnodup, by simpa using hne, ?_⟩
      intro fd hfd fd' hfd'
      obtain ⟨e, he, rfl⟩ := List.mem_map.mp hfd
      simp only [List.map_cons, List.map_nil, List.mem_cons, List.not_mem_nil, or_false] at hfd'
      rcases hfd' with rfl | rfl
      · exact (hfresh e he).2
      · exact (hfresh e he).1
    · rw [SwitchedOnce, List.filter_append, hnone clientfd fun e he => (hfresh e he).1]
      simp [hne]
    · rw [SwitchedOnce, List.filter_append, hnone sfd fun e he => (hfresh e he).2]
      simp [hne']
    · rw [List.filter_append]
      simp

/-- A client accepted by the application on descriptor 5, with another descriptor tracked. -/
theorem joins_untracked :
    ∃ ctx', ipcConnectionSwitched (ipcAddFd {} 4) 5 0 (.ok 6) = (.none, ctx') ∧
      Joins 5 6 [({ type := .external }, { fd := 4, events := { pollin := true } })] ctx' := by
  have hentries : (ipcAddFd {} 4).entries =
      some [({ type := .external }, { fd := 4, events := { pollin := true } })] := rfl
  have hrecs : (ipcAddFd {} 4).switchdb.collection.block (ipcAddFd {} 4).switchdb.size =
      some [] := rfl
  exact (joins_iff hentries hrecs (by decide) 5 rfl).mpr (by decide)

/-- A client that `ipc_add_fd` tracks: it is there twice afterwards, and found as an external
descriptor first. -/
theorem not_joins_external :
    ∃ ctx', ipcConnectionSwitched (ipcAddFd {} 5) 5 0 (.ok 6) = (.none, ctx') ∧
      ctx'.entries.map (fun es => es.map fun e => (e.2.fd, e.1.type)) =
        some [(5, .external), (6, .switched), (5, .switched)] ∧
      ¬ Joins 5 6 [({ type := .external }, { fd := 5, events := { pollin := true } })] ctx' := by
  refine ⟨_, rfl, rfl, ?_⟩
  rintro ⟨⟨es', hes', hnodup, -⟩, -, -⟩
  cases hes'
  exact absurd hnodup (by decide)

end LibIpc.C

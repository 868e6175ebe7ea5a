import LibIpc.Zig.Bindings
import LibIpc.Zig.Survival

/-!
# The two arrays of a context are one table (`context.zig`)

`connections` and `pollfd` are edited one after the other, and an index found in one is used in the
other. `TableStep` says what each call does to the table they stand for, whose entries are a
connection with its descriptor; the arrays are its two columns in every reachable state. What can go
wrong is `close(2)`: `close` and `close_all` do not test the descriptor as `safe_close_fd` does, and
`std.os.close` panics on one that is not open. `aligned_and_closes_iff` says when they do not.
-/

namespace LibIpc.Zig

open Lib

/-! ## Closing everything -/

/-- The loop of `Context.close_all`, for at most `n` iterations (no result while it is running). -/
def State.closeAllLoop : Nat → State → Option (Option (Except Error Unit) × State × List Io)
  | n, s =>
    if s.ctx.connections.length > 0 then
      match n with
      | 0 => some (none, s, [])
      | n + 1 => do
        let (r, s, io) ← s.close 0
        match r with
        | .error e => return (some (.error e), s, io)
        | .ok () =>
          let (r, s, io') ← s.closeAllLoop n
          return (r, s, io ++ io')
    else
      some (some (.ok ()), s, [])

/-- A public call, `close_all` included. -/
inductive TableCall where
  | call (c : Call)
  | closeAll

/-- One public call on a state. -/
def tableStep (s : State) : TableCall → Option (State × List Io)
  | .call c => step s c
  | .closeAll => State.after (s.closeAll s.ctx.connections.length)

/-! ## The table -/

/-- The connections with their descriptors. -/
abbrev Table := List (Connection × Fd)

/-- Entries are taken out, each replaced by the last one. -/
inductive Fewer : Table → Table → Prop
  | refl (t : Table) : Fewer t t
  | remove {t t' : Table} (i : Nat) : i < t.length → Fewer (swapRemove t i) t' → Fewer t t'

/-- The entry at `i`, from now on switched. -/
def Table.switch (t : Table) (i : Nat) : Table := t.modify i fun e => (e.1.switched, e.2)

/-- The first entry of a descriptor. -/
def Table.index (t : Table) (fd : Fd) : Option Nat := t.findIdx? fun e => e.2 = fd

/-- What a call other than `wait_event` does to the table. -/
def Table.after (t : Table) : Call → Table
  | .serverInit path (.ok fd) => t ++ [({ t := .server, path := some path }, fd)]
  | .connectService (.ok fd) => t ++ [({ t := .ipc }, fd)]
  | .addExternal fd => t ++ [({ t := .external }, fd)]
  | .addSwitch fd1 fd2 =>
    match t.index fd1, t.index fd2 with
    | some i, some j => (t.switch i).switch j
    | _, _ => t
  | .close i => if i < t.length then swapRemove t i else t
  | .closeFd fd =>
    match t.index fd with
    | some i => swapRemove t i
    | none => t
  | _ => t

/-- What a call can do to the table. Of `wait_event`, that a new client is added, or entries are
taken out. -/
def TableStep (t : Table) : TableCall → Table → Prop
  | .call (.waitEvent sys), t' =>
    Fewer t t' ∨ ∃ fd, sys.accept = .ok fd ∧ t' = t ++ [({ t := .ipc }, fd)]
  | .call c, t' => t' = t.after c
  | .closeAll, t' => t' = []

/-- The table after a history of calls. -/
inductive TableRun : List TableCall → Table → Prop
  | nil : TableRun [] []
  | snoc {cs : List TableCall} {t t' : Table} {c : TableCall} :
      TableRun cs t → TableStep t c t' → TableRun (cs ++ [c]) t'

/-- The call adds the descriptor `fd`, with this type and path. -/
def TableCall.Adds (c : Connection) (fd : Fd) : TableCall → Prop
  | .call (.serverInit path (.ok fd')) => fd' = fd ∧ c = { t := .server, path := some path }
  | .call (.connectService (.ok fd')) => fd' = fd ∧ c = { t := .ipc }
  | .call (.addExternal fd') => fd' = fd ∧ c = { t := .external }
  | .call (.waitEvent sys) => sys.accept = .ok fd ∧ c = { t := .ipc }
  | _ => False

/-- The call switches the descriptor `fd`. -/
def TableCall.Switches (fd : Fd) : TableCall → Prop
  | .call (.addSwitch fd1 fd2) => fd1 = fd ∨ fd2 = fd
  | _ => False

/-- The type and path given when `fd` was added, or the type changed since. -/
def Given (cs : List TableCall) (c : Connection) (fd : Fd) : Prop :=
  ∃ before call after c₀, cs = before ++ call :: after ∧ call.Adds c₀ fd ∧
    (c = c₀ ∨ c = c₀.switched ∧ ∃ call' ∈ after, call'.Switches fd)

/-- The arrays have the same length, and are the columns of the table of the history, where each
descriptor has the type and path it was given. -/
structure Aligned (cs : List TableCall) (ctx : Context) : Prop where
  parallel : ctx.connections.length = ctx.pollfd.length
  columns : ∃ t, TableRun cs t ∧ ctx.connections = t.map Prod.fst ∧
    ctx.pollfd.map PollFd.fd = t.map Prod.snd
  given : ∀ (i : Nat) c p, ctx.connections[i]? = some c → ctx.pollfd[i]? = some p → Given cs c p.fd

/-! ## One call -/

section Calls
variable {s s' : State} {io : List Io}

theorem Fewer.trans {t t' t'' : Table} (h : Fewer t t') (h' : Fewer t' t'') : Fewer t t'' := by
  induction h with
  | refl t => exact h'
  | remove i hi _ ih => exact .remove i hi (ih h')

theorem index_conns (hpar : s.ctx.Parallel) (fd : Fd) :
    Table.index s.ctx.conns fd = s.ctx.fdToIndex fd := by
  have hfds := hpar.map_snd_conns
  unfold Table.index Context.fdToIndex
  have hleft : s.ctx.conns.findIdx? (fun e => decide (e.2 = fd)) =
      (s.ctx.conns.map Prod.snd).findIdx? fun x => decide (x = fd) := by
    rw [List.findIdx?_map]
    rfl
  have hright : s.ctx.pollfd.findIdx? (fun p => decide (p.fd = fd)) =
      s.ctx.fds.findIdx? fun x => decide (x = fd) := by
    rw [Context.fds, List.findIdx?_map]
    rfl
  rw [hleft, hright, hfds]

theorem close_fewer (hpar : s.ctx.Parallel) {index : Nat} {r : Except Error Unit}
    (h : s.close index = some (r, s', io)) : Fewer s.ctx.conns s'.ctx.conns := by
  rcases close_eq_some hpar h with ⟨-, -, rfl, -⟩ | ⟨c, fd, hget, -, hclosed⟩
  · exact .refl _
  · rw [hclosed.conns]
    exact .remove index (List.getElem?_eq_some_iff.mp hget).1 (.refl _)

theorem safeCloseFd_fewer (hpar : s.ctx.Parallel) {fd : Fd} (h : s.safeCloseFd fd = some (s', io)) :
    Fewer s.ctx.conns s'.ctx.conns := by
  rcases safeCloseFd_eq_some hpar h with ⟨-, rfl, -⟩ | ⟨index, c, -, hclose, -⟩
  · exact .refl _
  · exact close_fewer hpar hclose

theorem dropSwitch_fewer (hpar : s.ctx.Parallel) {fd : Fd} (h : s.dropSwitch fd = some (s', io)) :
    Fewer s.ctx.conns s'.ctx.conns := by
  obtain ⟨dest, s₁, io₁, io₂, -, h₁, h₂, -⟩ := dropSwitch_eq_some h
  have hpar₀ : (s.withSwitchdb (s.ctx.switchdb.nuke fd)).ctx.Parallel := hpar
  have hfirst := safeCloseFd_fewer hpar₀ h₁
  exact hfirst.trans (safeCloseFd_fewer (safeCloseFd_effect hpar₀ h₁).parallel h₂)

theorem Handling.table {accept : Except Error Fd} {index : Nat} {p : PollFd} {c : Connection}
    (h : Handling accept s index p c s' io) (hpar : s.ctx.Parallel) :
    Fewer s.ctx.conns s'.ctx.conns ∨
      ∃ fd, accept = .ok fd ∧ s'.ctx.conns = s.ctx.conns ++ [({ t := .ipc }, fd)] := by
  cases h with
  | kept => exact .inl (.refl _)
  | @accepted newfd _ haccept hadd =>
    obtain ⟨-, rfl⟩ := addNew_eq_some hadd
    exact .inr ⟨newfd, haccept, conns_add_ hpar _ newfd⟩
  | forwarded m => exact .inl (.refl _)
  | unswitched hdrop => exact .inl (dropSwitch_fewer hpar hdrop)
  | closed _ hclose => exact .inl (close_fewer hpar hclose)
  | written bs _ _ => exact .inl (.refl _)
  | @writtenUnswitched i _ _ _ _ _ _ hdrop =>
    have hpar₁ : (s.withTx (swapRemove s.ctx.tx i)).ctx.Parallel := hpar
    have hfewer := dropSwitch_fewer hpar₁ hdrop
    exact .inl hfewer

theorem waitEvent_table (hpar : s.ctx.Parallel) {sys : WaitSys} {r : Except Error Event}
    (h : s.waitEvent sys = some (r, s', io)) :
    TableStep s.ctx.conns (.call (.waitEvent sys)) s'.ctx.conns := by
  obtain ⟨ps, hps, ⟨rfl, rfl⟩ | ⟨revents, index, p, c, -, -, -, -, hhandling⟩⟩ :=
    waitEvent_handling h
  · rw [conns_withPollfd hps]
    exact .inl (.refl _)
  · have htable := hhandling.table (parallel_withPollfd hpar hps)
    rwa [conns_withPollfd hps] at htable

theorem switch_zip (cs : List Connection) (fds : List Fd) (i : Nat) :
    Table.switch (cs.zip fds) i = (cs.modify i .switched).zip fds := by
  induction cs generalizing fds i with
  | nil => simp [Table.switch]
  | cons c cs ih =>
    cases fds with
    | nil => simp [Table.switch]
    | cons fd fds =>
      cases i with
      | zero => rfl
      | succ i => exact congrArg ((c, fd) :: ·) (ih fds i)

theorem addSwitch_table (hpar : s.ctx.Parallel) {fd1 fd2 : Fd} {ctx : Context}
    (h : s.ctx.addSwitch fd1 fd2 = .ok ctx) :
    ctx.Parallel ∧ ctx.conns = Table.after s.ctx.conns (.addSwitch fd1 fd2) := by
  obtain ⟨i, j, hi, hj, rfl⟩ := addSwitch_eq_ok h
  constructor
  · unfold Context.Parallel at *
    simpa using hpar
  · have hi' := (index_conns hpar fd1).trans hi
    have hj' := (index_conns hpar fd2).trans hj
    simp only [Table.after, hi', hj']
    rw [Context.conns, Context.conns, switch_zip, switch_zip]

theorem addSwitch_refused (hpar : s.ctx.Parallel) {fd1 fd2 : Fd} {e : Error}
    (h : s.ctx.addSwitch fd1 fd2 = .error e) :
    Table.after s.ctx.conns (.addSwitch fd1 fd2) = s.ctx.conns := by
  cases hi : s.ctx.fdToIndex fd1 with
  | none => simp only [Table.after, index_conns hpar, hi]
  | some i =>
    cases hj : s.ctx.fdToIndex fd2 with
    | none => simp only [Table.after, index_conns hpar, hi, hj]
    | some j =>
      simp only [Context.addSwitch, hi, hj] at h
      cases h

theorem close_table (hpar : s.ctx.Parallel) {index : Nat} {r : Except Error Unit}
    (h : s.close index = some (r, s', io)) :
    s'.ctx.conns = Table.after s.ctx.conns (.close index) := by
  rcases close_eq_some hpar h with ⟨hnone, -, rfl, -⟩ | ⟨c, fd, hget, -, hclosed⟩
  · rw [Table.after, if_neg (by simpa using hnone)]
  · rw [Table.after, if_pos (List.getElem?_eq_some_iff.mp hget).1, hclosed.conns]

theorem closeFd_table (hpar : s.ctx.Parallel) {fd : Fd} {r : Except Error Unit}
    (h : s.closeFd fd = some (r, s', io)) :
    s'.ctx.conns = Table.after s.ctx.conns (.closeFd fd) := by
  unfold State.closeFd at h
  simp only [Table.after, index_conns hpar]
  split at h
  · rename_i hnone
    cases h
    rw [hnone]
  · rename_i i hi
    rw [hi, close_table hpar h, Table.after, if_pos]
    rw [hpar.length_conns]
    exact (List.findIdx?_eq_some_iff_getElem.mp hi).1

theorem closeAllLoop_empty (n : Nat) (h : ¬ 0 < s.ctx.connections.length) :
    s.closeAllLoop n = some (some (.ok ()), s, []) := by
  cases n with
  | zero => rw [State.closeAllLoop, if_neg h]
  | succ n => rw [State.closeAllLoop, if_neg h]

/-- One iteration of the loop. -/
theorem closeAllLoop_succ (n : Nat) (h : 0 < s.ctx.connections.length) {s₁ : State} {io₁ : List Io}
    (hclose : s.close 0 = some (.ok (), s₁, io₁)) :
    s.closeAllLoop (n + 1) =
      (s₁.closeAllLoop n).map fun x => (x.1, x.2.1, io₁ ++ x.2.2) := by
  rw [State.closeAllLoop, if_pos h]
  simp only [hclose, Option.bind_eq_bind, Option.bind_some, Option.pure_def, Option.map_eq_bind]
  rfl

/-- Each iteration takes a connection away, so that there are as many as connections. -/
theorem closeAllLoop_eq_closeAll (hpar : s.ctx.Parallel) {n : Nat}
    (hn : s.ctx.connections.length = n) :
    s.closeAllLoop n = (s.closeAll n).map fun x => (some x.1, x.2) := by
  induction n generalizing s with
  | zero => exact closeAllLoop_empty 0 (by omega)
  | succ n ih =>
    have hpos : 0 < s.ctx.connections.length := by omega
    rw [State.closeAll]
    cases hclose : s.close 0 with
    | none => rw [State.closeAllLoop, if_pos hpos, hclose]; rfl
    | some x =>
      obtain ⟨r, s₁, io₁⟩ := x
      rcases close_eq_some hpar hclose with ⟨-, rfl, -⟩ | ⟨c, fd, -, rfl, hclosed⟩
      · rw [State.closeAllLoop, if_pos hpos, hclose]; rfl
      · have hlen := congrArg List.length hclosed.conns
        rw [length_swapRemove, hpar.length_conns, hclosed.parallel.length_conns, ← hpar,
          ← hclosed.parallel] at hlen
        rw [closeAllLoop_succ n hpos hclose, ih hclosed.parallel (by omega)]
        simp only [Option.map_map]
        rfl

theorem pollfd_eq_nil (hpar : s.ctx.Parallel) (h : ¬ 0 < s.ctx.connections.length) :
    s.ctx.pollfd = [] := by
  apply List.eq_nil_of_length_eq_zero
  rw [← hpar]
  omega

/-- As long as it has an iteration for each connection, the loop of `close_all` empties the table. -/
theorem closeAllLoop_table {n : Nat} (hpar : s.ctx.Parallel) (hn : s.ctx.connections.length ≤ n)
    {r : Option (Except Error Unit)} (h : s.closeAllLoop n = some (r, s', io)) :
    r = some (.ok ()) ∧ s'.ctx.connections = [] ∧ s'.ctx.pollfd = [] := by
  induction n generalizing s io with
  | zero =>
    have hempty : ¬ 0 < s.ctx.connections.length := by omega
    rw [closeAllLoop_empty 0 hempty] at h
    cases h
    exact ⟨rfl, List.eq_nil_of_length_eq_zero (by omega), pollfd_eq_nil hpar hempty⟩
  | succ n ih =>
    by_cases hpos : 0 < s.ctx.connections.length
    · rw [State.closeAllLoop, if_pos hpos] at h
      simp only [Option.bind_eq_bind] at h
      obtain ⟨⟨r₁, s₁, io₁⟩, hclose, h⟩ := Option.bind_eq_some_iff.mp h
      rcases close_eq_some hpar hclose with ⟨hnone, -⟩ | ⟨c, fd, -, rfl, hclosed⟩
      · rw [List.getElem?_eq_none_iff, hpar.length_conns, ← hpar] at hnone
        omega
      · obtain ⟨⟨r₂, s₂, io₂⟩, hloop, heq⟩ := Option.bind_eq_some_iff.mp h
        cases heq
        refine ih hclosed.parallel ?_ hloop
        have hlen := congrArg List.length hclosed.conns
        rw [length_swapRemove, hpar.length_conns, hclosed.parallel.length_conns, ← hpar,
          ← hclosed.parallel] at hlen
        omega
    · rw [closeAllLoop_empty _ hpos] at h
      cases h
      exact ⟨rfl, List.eq_nil_of_length_eq_zero (by omega), pollfd_eq_nil hpar hpos⟩

theorem step_table (hpar : s.ctx.Parallel) {c : Call} (h : step s c = some (s', io)) :
    TableStep s.ctx.conns (.call c) s'.ctx.conns := by
  cases step_stepped h with
  | opened => rfl
  | serverFailed => rfl
  | server hadd =>
    obtain ⟨-, rfl⟩ := addNew_eq_some hadd
    exact conns_add_ hpar _ _
  | connectFailed => rfl
  | connected hadd =>
    obtain ⟨-, rfl⟩ := addNew_eq_some hadd
    exact conns_add_ hpar _ _
  | external => exact conns_add_ hpar _ _
  | switchRefused hrefused => exact (addSwitch_refused hpar hrefused).symm
  | switched hadded => exact (addSwitch_table hpar hadded).2
  | scheduled => rfl
  | closed hclose => exact close_table hpar hclose
  | closedFd hclose => exact closeFd_table hpar hclose
  | waited hwait => exact waitEvent_table hpar hwait

/-- Every call edits the table as one, whatever the environment answers. -/
theorem tableStep_table (hpar : s.ctx.Parallel) {c : TableCall} (h : tableStep s c = some (s', io)) :
    s'.ctx.Parallel ∧ TableStep s.ctx.conns c s'.ctx.conns := by
  cases c with
  | call c => exact ⟨(step_effect hpar h).parallel, step_table hpar h⟩
  | closeAll =>
    obtain ⟨⟨r, s₁, io₁⟩, hclose, heq⟩ := Option.map_eq_some_iff.mp h
    cases heq
    have hloop := closeAllLoop_eq_closeAll hpar rfl
    rw [hclose, Option.map_some] at hloop
    obtain ⟨-, hconnections, hpollfd⟩ := closeAllLoop_table hpar (Nat.le_refl _) hloop
    have hpar' : s'.ctx.Parallel := by
      unfold Context.Parallel
      rw [hconnections, hpollfd]
      rfl
    refine ⟨hpar', ?_⟩
    show s'.ctx.conns = []
    rw [Context.conns, hconnections]
    rfl

end Calls

/-! ## Runs -/

theorem Fewer.mem {t t' : Table} (h : Fewer t t') {e : Connection × Fd} (he : e ∈ t') : e ∈ t := by
  induction h with
  | refl t => exact he
  | remove i _ _ ih => exact mem_of_mem_swapRemove (ih he)

/-- The entry at an index, before one of them was switched. -/
theorem getElem?_of_switch {t : Table} {i k : Nat} {c : Connection} {fd : Fd}
    (h : (Table.switch t i)[k]? = some (c, fd)) :
    ∃ c₀, t[k]? = some (c₀, fd) ∧ (c = c₀ ∨ c = c₀.switched ∧ k = i) := by
  rw [Table.switch, List.getElem?_modify] at h
  obtain ⟨⟨c₀, fd₀⟩, hget, heq⟩ := Option.map_eq_some_iff.mp h
  by_cases hik : i = k
  · rw [if_pos hik] at heq
    cases heq
    exact ⟨_, hget, .inr ⟨rfl, hik.symm⟩⟩
  · rw [if_neg hik] at heq
    cases heq
    exact ⟨_, hget, .inl rfl⟩

theorem fd_of_index {t : Table} {fd fd' : Fd} {i : Nat} {c : Connection} (hi : t.index fd = some i)
    (hget : t[i]? = some (c, fd')) : fd = fd' := by
  obtain ⟨hlt, hfd, -⟩ := List.findIdx?_eq_some_iff_getElem.mp hi
  rw [List.getElem?_eq_getElem hlt, Option.some.injEq] at hget
  rw [hget] at hfd
  exact (of_decide_eq_true hfd).symm

/-- An entry after `add_switch`. -/
theorem origin_addSwitch {t : Table} {fd1 fd2 : Fd} {i j : Nat} (hi : t.index fd1 = some i)
    (hj : t.index fd2 = some j) {c : Connection} {fd : Fd}
    (hmem : (c, fd) ∈ Table.switch (Table.switch t i) j) :
    (c, fd) ∈ t ∨ ∃ c₀, (c₀, fd) ∈ t ∧ c = c₀.switched ∧ (fd1 = fd ∨ fd2 = fd) := by
  obtain ⟨k, hk⟩ := List.mem_iff_getElem?.mp hmem
  obtain ⟨c₁, hk₁, hc₁⟩ := getElem?_of_switch hk
  obtain ⟨c₀, hk₀, hc₀⟩ := getElem?_of_switch hk₁
  have hold := List.mem_of_getElem? hk₀
  rcases hc₁ with rfl | ⟨rfl, rfl⟩
  · rcases hc₀ with rfl | ⟨rfl, rfl⟩
    · exact .inl hold
    · exact .inr ⟨_, hold, rfl, .inl (fd_of_index hi hk₀)⟩
  · refine .inr ⟨_, hold, ?_, .inr (fd_of_index hj hk₀)⟩
    rcases hc₀ with rfl | ⟨rfl, -⟩
    · rfl
    · rfl

/-- Where an entry of the table comes from: it is new, or was there, or was switched. -/
theorem TableStep.origin {t t' : Table} {call : TableCall} (h : TableStep t call t') {c : Connection}
    {fd : Fd} (hmem : (c, fd) ∈ t') :
    call.Adds c fd ∨ (c, fd) ∈ t ∨ ∃ c₀, (c₀, fd) ∈ t ∧ c = c₀.switched ∧ call.Switches fd := by
  -- An entry appended at the end.
  have hlast : ∀ {c' : Connection} {fd' : Fd}, (c, fd) ∈ t ++ [(c', fd')] →
      fd' = fd ∧ c = c' ∨ (c, fd) ∈ t := by
    intro c' fd' hmem
    rcases List.mem_append.mp hmem with hold | hnew
    · exact .inr hold
    · obtain ⟨rfl, rfl⟩ := Prod.mk.inj (List.mem_singleton.mp hnew)
      exact .inl ⟨rfl, rfl⟩
  cases call with
  | closeAll =>
    obtain rfl : t' = [] := h
    exact absurd hmem List.not_mem_nil
  | call call =>
    cases call with
    | waitEvent sys =>
      rcases h with hfewer | ⟨fd', haccept, rfl⟩
      · exact .inr (.inl (hfewer.mem hmem))
      · rcases hlast hmem with ⟨rfl, rfl⟩ | hold
        · exact .inl ⟨haccept, rfl⟩
        · exact .inr (.inl hold)
    | openFd fd' =>
      obtain rfl : t' = t := h
      exact .inr (.inl hmem)
    | schedule m =>
      obtain rfl : t' = t := h
      exact .inr (.inl hmem)
    | serverInit path listen =>
      cases listen with
      | error e =>
        obtain rfl : t' = t := h
        exact .inr (.inl hmem)
      | ok fd' =>
        rw [show t' = _ from h] at hmem
        exact (hlast hmem).imp_right .inl
    | connectService connect =>
      cases connect with
      | error e =>
        obtain rfl : t' = t := h
        exact .inr (.inl hmem)
      | ok fd' =>
        rw [show t' = _ from h] at hmem
        exact (hlast hmem).imp_right .inl
    | addExternal fd' =>
      rw [show t' = _ from h] at hmem
      exact (hlast hmem).imp_right .inl
    | addSwitch fd1 fd2 =>
      rw [show t' = _ from h, Table.after] at hmem
      split at hmem
      · rename_i i j hi hj
        exact .inr (origin_addSwitch hi hj hmem)
      · exact .inr (.inl hmem)
    | close i =>
      rw [show t' = _ from h, Table.after] at hmem
      split at hmem
      · exact .inr (.inl (mem_of_mem_swapRemove hmem))
      · exact .inr (.inl hmem)
    | closeFd fd' =>
      rw [show t' = _ from h, Table.after] at hmem
      split at hmem
      · exact .inr (.inl (mem_of_mem_swapRemove hmem))
      · exact .inr (.inl hmem)

theorem Given.snoc_of_mem {cs : List TableCall} {c : Connection} {fd : Fd} (h : Given cs c fd)
    (call : TableCall) : Given (cs ++ [call]) c fd := by
  obtain ⟨before, added, after, c₀, rfl, hadds, hc⟩ := h
  refine ⟨before, added, after ++ [call], c₀, by simp, hadds, ?_⟩
  rcases hc with rfl | ⟨rfl, call', hmem, hswitches⟩
  · exact .inl rfl
  · exact .inr ⟨rfl, call', List.mem_append_left _ hmem, hswitches⟩

theorem Given.switch {cs : List TableCall} {c : Connection} {fd : Fd} (h : Given cs c fd)
    {call : TableCall} (hswitches : call.Switches fd) : Given (cs ++ [call]) c.switched fd := by
  obtain ⟨before, added, after, c₀, rfl, hadds, hc⟩ := h
  have hc' : c.switched = c₀.switched := by
    rcases hc with rfl | ⟨rfl, -⟩
    · rfl
    · rfl
  exact ⟨before, added, after ++ [call], c₀, by simp, hadds,
    .inr ⟨hc', call, by simp, hswitches⟩⟩

/-- Each entry of the table has the type and path it was given. -/
theorem TableRun.given {cs : List TableCall} {t : Table} (h : TableRun cs t) {c : Connection}
    {fd : Fd} (hmem : (c, fd) ∈ t) : Given cs c fd := by
  induction h generalizing c with
  | nil => exact absurd hmem List.not_mem_nil
  | @snoc cs t t' call _ hstep ih =>
    rcases hstep.origin hmem with hadds | hold | ⟨c₀, hold, rfl, hswitches⟩
    · exact ⟨cs, call, [], c, rfl, hadds, .inl rfl⟩
    · exact (ih hold).snoc_of_mem call
    · exact (ih hold).switch hswitches

theorem runAll_snoc {s s' : State} {cs : List TableCall} {c : TableCall} {io : List Io}
    (h : runAll tableStep s (cs ++ [c]) = some (s', io)) :
    ∃ s₁ io₁ io₂, runAll tableStep s cs = some (s₁, io₁) ∧ tableStep s₁ c = some (s', io₂) := by
  rw [runAll_append] at h
  obtain ⟨⟨s₁, io₁⟩, hrun, h⟩ := Option.bind_eq_some_iff.mp h
  obtain ⟨⟨s₂, io₂⟩, hlast, heq⟩ := Option.map_eq_some_iff.mp h
  cases heq
  obtain ⟨s₃, es₁, es₂, hstep, hnil, -⟩ := runAll_cons_eq_some hlast
  cases hnil
  exact ⟨s₁, io₁, es₁, hrun, hstep⟩

/-- The arrays are the two columns of the table of the history. -/
theorem tableRun_of_run {cs : List TableCall} {s : State} {io : List Io}
    (h : runAll tableStep {} cs = some (s, io)) : s.ctx.Parallel ∧ TableRun cs s.ctx.conns := by
  induction cs using List.reverseRecOn generalizing s io with
  | nil =>
    cases h
    exact ⟨rfl, .nil⟩
  | append_singleton cs c ih =>
    obtain ⟨s₁, io₁, io₂, hrun, hstep⟩ := runAll_snoc h
    obtain ⟨hpar, htable⟩ := ih hrun
    obtain ⟨hpar', hstep'⟩ := tableStep_table hpar hstep
    exact ⟨hpar', htable.snoc hstep'⟩

theorem aligned_of_run {cs : List TableCall} {s : State} {io : List Io}
    (h : runAll tableStep {} cs = some (s, io)) : Aligned cs s.ctx := by
  obtain ⟨hpar, htable⟩ := tableRun_of_run h
  refine ⟨hpar, ⟨_, htable, ?_, hpar.map_snd_conns.symm⟩, ?_⟩
  · rw [Context.conns, List.map_fst_zip]
    rw [List.length_map]
    exact Nat.le_of_eq hpar
  · intro i c p hc hp
    exact htable.given (List.mem_of_getElem? (conns_getElem? hc hp))

/-! ## Closing -/

/-- The descriptors passed to `close(2)`. -/
def closes (io : List Io) : List Fd :=
  io.filterMap fun
    | .close fd => some fd
    | _ => none

/-- `close` removes the entry at `index` from both arrays, closes its descriptor once, and leaves the
messages for other descriptors. -/
def ClosesEntry (s : State) (index : Nat) : Prop :=
  ∃ p s' io, s.ctx.pollfd[index]? = some p ∧ s.close index = some (.ok (), s', io) ∧
    s'.ctx.connections = swapRemove s.ctx.connections index ∧
    s'.ctx.pollfd = swapRemove s.ctx.pollfd index ∧
    closes io = [p.fd] ∧ s'.openFds = s.openFds.erase p.fd ∧
    s'.ctx.tx.Perm (s.ctx.tx.filter fun m => m.fd ≠ p.fd)

/-- `close_all` ends, with nothing tracked any more and every descriptor that was tracked closed. -/
def ClosesAll (s : State) : Prop :=
  ∃ n, ∀ k ≥ n, ∃ s' io, s.closeAllLoop k = some (some (.ok ()), s', io) ∧
    s'.ctx.connections = [] ∧ s'.ctx.pollfd = [] ∧
    ∀ fd ∈ s.ctx.fds, fd ∈ closes io ∧ fd ∉ s'.openFds

section Closing
variable {s : State}

theorem closesEntry_iff (hpar : s.ctx.Parallel) {index : Nat} {p : PollFd}
    (hp : s.ctx.pollfd[index]? = some p) : ClosesEntry s index ↔ p.fd ∈ s.openFds := by
  obtain ⟨c, hc⟩ : ∃ c, s.ctx.connections[index]? = some c := by
    refine ⟨_, List.getElem?_eq_getElem ?_⟩
    rw [hpar]
    exact (List.getElem?_eq_some_iff.mp hp).1
  constructor
  · rintro ⟨p', s', io, hp', hclose, -⟩
    obtain rfl := Option.mem_unique hp hp'
    exact (closed_of_close hpar (conns_getElem? hc hp) hclose).2.wasOpen
  · intro hopen
    have hclose := close_eq_ok hc hp hopen
    refine ⟨p, _, _, hp, hclose, rfl, rfl, ?_, rfl, (dropAll_from_zero Message.fd p.fd s.ctx.tx).2⟩
    simp [closes, List.filterMap_map]

theorem fds_eq_nil (hpar : s.ctx.Parallel) (h : ¬ 0 < s.ctx.connections.length) :
    s.ctx.fds = [] := by
  rw [Context.fds, pollfd_eq_nil hpar h]
  rfl

theorem tidy_of_empty (hpar : s.ctx.Parallel) (h : ¬ 0 < s.ctx.connections.length) : Tidy s := by
  have hnil := fds_eq_nil hpar h
  exact ⟨hpar, by simp [hnil], by simp [hnil]⟩

/-- Closing a descriptor that is open leaves the tracked ones open, each tracked once, exactly when
they were so before. -/
theorem tidy_iff_of_closed {s₁ : State} {index : Nat} {c : Connection} {fd : Fd} {io : List Io}
    (hpar : s.ctx.Parallel) (hget : s.ctx.conns[index]? = some (c, fd))
    (hclosed : Closed s index fd io s₁) : Tidy s ↔ Tidy s₁ := by
  have hperm := perm_fds_of_closed hpar hget hclosed
  constructor
  · intro h
    have hnodup := List.nodup_cons.mp (hperm.nodup_iff.mp h.nodup)
    refine ⟨hclosed.parallel, hnodup.2, ?_⟩
    intro fd' hfd'
    rw [hclosed.openFds, Finset.mem_erase]
    refine ⟨?_, h.isOpen fd' (hperm.mem_iff.mpr (List.mem_cons_of_mem _ hfd'))⟩
    rintro rfl
    exact hnodup.1 hfd'
  · intro h
    have hnotin : fd ∉ s₁.ctx.fds := by
      intro hmem
      have hopen := h.isOpen fd hmem
      rw [hclosed.openFds] at hopen
      exact Finset.notMem_erase fd _ hopen
    refine ⟨hpar, hperm.nodup_iff.mpr (List.nodup_cons.mpr ⟨hnotin, h.nodup⟩), ?_⟩
    intro fd' hfd'
    rcases List.mem_cons.mp (hperm.mem_iff.mp hfd') with rfl | hmem
    · exact hclosed.wasOpen
    · have hopen := h.isOpen fd' hmem
      rw [hclosed.openFds] at hopen
      exact Finset.mem_of_mem_erase hopen

/-- A loop that has come to its end has closed different descriptors, each of them open. -/
theorem tidy_of_closeAllLoop {n : Nat} (hpar : s.ctx.Parallel) {s' : State} {io : List Io}
    (h : s.closeAllLoop n = some (some (.ok ()), s', io)) : Tidy s := by
  induction n generalizing s io with
  | zero =>
    by_cases hpos : 0 < s.ctx.connections.length
    · rw [State.closeAllLoop, if_pos hpos] at h
      cases h
    · exact tidy_of_empty hpar hpos
  | succ n ih =>
    by_cases hpos : 0 < s.ctx.connections.length
    · have hfirst := h
      rw [State.closeAllLoop, if_pos hpos] at hfirst
      obtain ⟨⟨r, s₁, io₁⟩, hclose, -⟩ := Option.bind_eq_some_iff.mp hfirst
      rcases close_eq_some hpar hclose with ⟨hnone, -⟩ | ⟨c, fd, hget, rfl, hclosed⟩
      · rw [List.getElem?_eq_none_iff, hpar.length_conns, ← hpar] at hnone
        omega
      rw [closeAllLoop_succ n hpos hclose] at h
      obtain ⟨⟨r₂, s₂, io₂⟩, hloop, heq⟩ := Option.map_eq_some_iff.mp h
      cases heq
      exact (tidy_iff_of_closed hpar hget hclosed).mpr (ih hclosed.parallel hloop)
    · exact tidy_of_empty hpar hpos

/-- The loop ends once every connection has had its iteration. -/
theorem Tidy.closeAllLoop (h : Tidy s) {k : Nat} (hk : s.ctx.connections.length ≤ k) :
    ∃ s' io, s.closeAllLoop k = some (some (.ok ()), s', io) ∧ s'.openFds ⊆ s.openFds ∧
      ∀ fd ∈ s.ctx.fds, fd ∈ closes io ∧ fd ∉ s'.openFds := by
  -- each turn closes the entry at index 0, so the array is shorter by one
  induction k generalizing s with
  | zero =>
    have hempty : ¬ 0 < s.ctx.connections.length := by omega
    refine ⟨s, [], closeAllLoop_empty 0 hempty, subset_rfl, ?_⟩
    simp [fds_eq_nil h.parallel hempty]
  | succ k ih =>
    by_cases hpos : 0 < s.ctx.connections.length
    · obtain ⟨p, hp⟩ : ∃ p, s.ctx.pollfd[0]? = some p :=
        ⟨_, List.getElem?_eq_getElem (h.parallel ▸ hpos)⟩
      have hmem : p.fd ∈ s.ctx.fds := List.mem_map_of_mem (List.mem_of_getElem? hp)
      obtain ⟨p', s₁, io₁, hp', hclose, hconnections, -, hcloses, hopen, -⟩ :=
        (closesEntry_iff h.parallel hp).mpr (h.isOpen p.fd hmem)
      obtain rfl := Option.mem_unique hp hp'
      rcases close_eq_some h.parallel hclose with ⟨-, herror, -⟩ | ⟨c, fd, hget, -, hclosed⟩
      · cases herror
      obtain rfl : p.fd = fd := by
        have hc := List.getElem?_eq_getElem hpos
        rw [conns_getElem? hc hp] at hget
        exact (Prod.mk.inj (Option.some.inj hget)).2
      have hlen : s₁.ctx.connections.length ≤ k := by
        rw [hconnections, length_swapRemove]
        omega
      obtain ⟨s', io, hloop, hsub, hall⟩ :=
        ih ((tidy_iff_of_closed h.parallel hget hclosed).mp h) hlen
      rw [hopen] at hsub
      refine ⟨s', io₁ ++ io, ?_, hsub.trans (Finset.erase_subset _ _), ?_⟩
      · rw [closeAllLoop_succ k hpos hclose, hloop, Option.map_some]
      · intro fd' hfd'
        have happend : closes (io₁ ++ io) = closes io₁ ++ closes io := List.filterMap_append
        rw [happend, List.mem_append, hcloses]
        rcases List.mem_cons.mp ((perm_fds_of_closed h.parallel hget hclosed).mem_iff.mp hfd') with
          rfl | hrest
        · exact ⟨.inl (List.mem_singleton_self _), fun hyes => Finset.notMem_erase _ _ (hsub hyes)⟩
        · exact ⟨.inr (hall fd' hrest).1, (hall fd' hrest).2⟩
    · refine ⟨s, [], closeAllLoop_empty _ hpos, subset_rfl, ?_⟩
      simp [fds_eq_nil h.parallel hpos]

theorem closesAll_iff (hpar : s.ctx.Parallel) : ClosesAll s ↔ Tidy s := by
  constructor
  · rintro ⟨n, hloop⟩
    obtain ⟨s', io, hn, -⟩ := hloop n (Nat.le_refl n)
    exact tidy_of_closeAllLoop hpar hn
  · intro htidy
    refine ⟨s.ctx.connections.length, ?_⟩
    intro k hk
    obtain ⟨s', io, hloop, -, hall⟩ := htidy.closeAllLoop hk
    obtain ⟨-, hconnections, hpollfd⟩ := closeAllLoop_table hpar hk hloop
    exact ⟨s', io, hloop, hconnections, hpollfd, hall⟩

end Closing

/-- `add_external` is given a descriptor that is open and not tracked yet. -/
def AddsOpen (s : State) : TableCall → Prop
  | .call (.addExternal fd) => fd ∈ s.openFds ∧ fd ∉ s.ctx.fds
  | _ => True

instance (s : State) : ∀ c, Decidable (AddsOpen s c)
  | .call (.addExternal fd) => inferInstanceAs (Decidable (fd ∈ s.openFds ∧ fd ∉ s.ctx.fds))
  | .closeAll | .call (.openFd _) | .call (.serverInit _ _) | .call (.connectService _)
  | .call (.addSwitch _ _) | .call (.schedule _) | .call (.close _) | .call (.closeFd _)
  | .call (.waitEvent _) => isTrue trivial

theorem Tidy.addNew {s s' : State} (h : Tidy s) {c : Connection} {fd : Fd}
    (hadd : s.addNew c fd = some s') : Tidy s' := by
  obtain ⟨hnew, rfl⟩ := addNew_eq_some hadd
  exact (h.track hnew c).tidy

theorem Tidy.closed {s s' : State} (h : Tidy s) {index : Nat} {r : Except Error Unit} {io : List Io}
    (hclose : s.close index = some (r, s', io)) : Tidy s' := by
  rcases close_eq_some h.parallel hclose with ⟨-, -, rfl, -⟩ | ⟨c, fd, hget, -, hclosed⟩
  · exact h
  · exact (tidy_iff_of_closed h.parallel hget hclosed).mp h

/-- Then the tracked descriptors stay open, each tracked once. -/
theorem tableStep_tidy {s s' : State} (h : Tidy s) {c : TableCall} {io : List Io} (hc : AddsOpen s c)
    (hstep : tableStep s c = some (s', io)) : Tidy s' := by
  cases c with
  | closeAll =>
    obtain ⟨hpar, hnil⟩ := tableStep_table h.parallel hstep
    have hlen := congrArg List.length (show s'.ctx.conns = [] from hnil)
    rw [hpar.length_conns, ← hpar, List.length_nil] at hlen
    exact tidy_of_empty hpar (by omega)
  | call c =>
    cases step_stepped hstep with
    | @opened fd => exact (h.opened fd).tidy
    | serverFailed => exact h
    | server hadd => exact h.addNew hadd
    | connectFailed => exact h
    | connected hadd => exact h.addNew hadd
    | @external fd =>
      have hadded : Steady s { s with ctx := s.ctx.add_ { t := .external } fd } :=
        h.add hc.2 rfl hc.1 subset_rfl
      exact hadded.tidy
    | switchRefused => exact h
    | switched hadded =>
      obtain ⟨i, j, -, -, rfl⟩ := addSwitch_eq_ok hadded
      exact h.congr (addSwitch_table h.parallel hadded).1 rfl rfl
    | scheduled => exact h.congr h.parallel rfl rfl
    | closed hclose => exact h.closed hclose
    | closedFd hclose =>
      rcases closeFd_eq_some h.parallel hclose with ⟨-, rfl, -⟩ | ⟨index, c, -, hclose, -⟩
      · exact h
      · exact h.closed hclose
    | waited hwait => exact waitEvent_tidy h hwait

/-- **Alignment**: in every reachable state the two arrays describe the same connections, index by
index; every `close` and `close_all` does what it is for exactly when the tracked descriptors are
open and tracked once; and they are in every run that gives `add_external` such descriptors. -/
theorem aligned_and_closes_iff {cs : List TableCall} {s : State} {io : List Io}
    (h : runAll tableStep {} cs = some (s, io)) :
    Aligned cs s.ctx ∧
      ((∀ index < s.ctx.pollfd.length, ClosesEntry s index) ∧ ClosesAll s ↔
        s.ctx.fds.Nodup ∧ ∀ fd ∈ s.ctx.fds, fd ∈ s.openFds) ∧
      (RunMeets tableStep AddsOpen {} cs →
        s.ctx.fds.Nodup ∧ ∀ fd ∈ s.ctx.fds, fd ∈ s.openFds) := by
  have hpar := (tableRun_of_run h).1
  refine ⟨aligned_of_run h, ⟨?_, ?_⟩, ?_⟩
  · rintro ⟨-, hall⟩
    have htidy := (closesAll_iff hpar).mp hall
    exact ⟨htidy.nodup, htidy.isOpen⟩
  · rintro ⟨hnodup, hopen⟩
    refine ⟨?_, (closesAll_iff hpar).mpr ⟨hpar, hnodup, hopen⟩⟩
    intro index hindex
    have hp := List.getElem?_eq_getElem hindex
    refine (closesEntry_iff hpar hp).mpr (hopen _ ?_)
    exact List.mem_map_of_mem (List.getElem_mem hindex)
  · intro hmeets
    have hempty : Tidy {} := ⟨rfl, List.nodup_nil, nofun⟩
    have htidy : Tidy s := runAll_invariant
      (fun s c s₁ es₁ hs hc hstep => tableStep_tidy hs hc hstep) hempty hmeets h
    exact ⟨htidy.nodup, htidy.isOpen⟩

/-- A service with a client and a descriptor of its own. -/
def threeEntries : List TableCall :=
  [.call (.serverInit [47, 115] (.ok 3)), .call (.connectService (.ok 4)), .call (.openFd 5),
    .call (.addExternal 5), .call (.addSwitch 4 5)]

theorem aligned_and_closes_three :
    ∃ s io, runAll tableStep {} threeEntries = some (s, io) ∧ Aligned threeEntries s.ctx ∧
      (∀ index < s.ctx.pollfd.length, ClosesEntry s index) ∧ ClosesAll s := by
  refine ⟨_, _, rfl, ?_⟩
  obtain ⟨haligned, hcloses, htidy⟩ := @aligned_and_closes_iff threeEntries _ _ rfl
  exact ⟨haligned, hcloses.mpr (htidy (by decide))⟩

/-- A descriptor tracked twice: the second `close(2)` of `close_all` panics. -/
theorem not_closesAll_twice :
    ∃ s io, runAll tableStep {}
        [.call (.connectService (.ok 5)), .call (.addExternal 5)] = some (s, io) ∧
      s.closeAll s.ctx.connections.length = none ∧ ¬ ClosesAll s := by
  have hrun : runAll tableStep {} [.call (.connectService (.ok 5)), .call (.addExternal 5)] =
      some (_, _) := rfl
  refine ⟨_, _, hrun, rfl, ?_⟩
  intro hall
  have htidy := (closesAll_iff (tableRun_of_run hrun).1).mp hall
  exact absurd htidy.nodup (by decide)

end LibIpc.Zig

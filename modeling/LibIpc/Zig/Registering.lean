import LibIpc.Zig.Switch
import LibIpc.Lib.Run

/-!
# Registering callbacks (`SwitchDB.set_callbacks`)

The table of `switch.zig` with all the fields of its entries: the destination and the two callbacks.
`I` and `O` stand for the types of the callbacks. `set_callbacks` changes the copy that `get` has
returned, so that an entry keeps the callbacks `add_switch` has given it; the table of destinations
(`SwitchDB`) is all there is to know about a table of a run, which is what `Refines` and
`called_default` say.
-/

namespace LibIpc.Zig

open Lib

variable {I O : Type}

/-! ## The table -/

/-- `ManagedConnection`. -/
structure ManagedConnection (I O : Type) where
  dest : Fd
  in_ : I
  out : O

/-- `SwitchDB.db`. -/
abbrev ManagedDB (I O : Type) := AList fun _ : Fd => ManagedConnection I O

namespace ManagedDB

/-- `SwitchDB.add_switch`; the callbacks are `default_in` and `default_out`. -/
def addSwitch (defaultIn : I) (defaultOut : O) (db : ManagedDB I O) (fd1 fd2 : Fd) :
    ManagedDB I O :=
  AList.insert fd2 { dest := fd1, in_ := defaultIn, out := defaultOut }
    (AList.insert fd1 { dest := fd2, in_ := defaultIn, out := defaultOut } db)

/-- `SwitchDB.set_callbacks`: the table that the call leaves. -/
def setCallbacks (db : ManagedDB I O) (fd : Fd) (in_ : I) (out : O) :
    Except Error (ManagedDB I O) :=
  match db.lookup fd with
  | none => .error .unregisteredFD
  | some managedconnection =>
    -- `var managedconnection` is a copy of the entry, and nothing puts it back.
    let _managedconnection := { managedconnection with in_ := in_, out := out }
    .ok db

/-- `Context.set_switch_callbacks`, on the table of the context. -/
def setSwitchCallbacks (db : ManagedDB I O) (fd : Fd) (in_ : I) (out : O) :
    Except Error (ManagedDB I O) :=
  db.setCallbacks fd in_ out

/-- `SwitchDB.nuke`. -/
def nuke (db : ManagedDB I O) (fd : Fd) : ManagedDB I O :=
  match db.lookup fd with
  | none => db
  | some managedconnection => (db.erase fd).erase managedconnection.dest

/-- `SwitchDB.read`: the result, and the callback that is called. `answer` is what each callback
would answer. -/
def read (db : ManagedDB I O) (fd : Fd) (answer : I → CBEventType × List Byte) :
    Except Error (Option Message) × Option I :=
  match db.lookup fd with
  | none => (.error .unregisteredFD, none)
  | some managedconnection =>
    let r :=
      match answer managedconnection.in_ with
      | (.ignore, _) => .ok none
      | (.noError, bs) =>
        match Message.read managedconnection.dest bs bs.length with
        | .error _ => .error .generic
        | .ok m => .ok (some m)
      | (.fdClosing, _) => .error .closeFD
      | (.error, _) => .error .generic
    (r, some managedconnection.in_)

/-- `SwitchDB.write`: the result, and the callback that is called. -/
def write (db : ManagedDB I O) (message : Message) (answer : O → List Byte → CBEventType) :
    Except Error Unit × Option O :=
  match db.lookup message.fd with
  | none => (.error .unregisteredFD, none)
  | some managedconnection =>
    match message.write 100000 with
    | .error _ => (.error .generic, none)
    | .ok (written, _) =>
      let r :=
        match answer managedconnection.out written with
        | .noError => .ok ()
        | .fdClosing => .error .closeFD
        | .ignore => .error .generic
        | .error => .error .generic
      (r, some managedconnection.out)

end ManagedDB

/-! ## Runs -/

/-- An operation on the table, with what the callbacks would answer. -/
inductive ManagedCall (I O : Type) where
  | addSwitch (fd1 fd2 : Fd)
  | setCallbacks (fd : Fd) (in_ : I) (out : O)
  | read (fd : Fd) (answer : I → CBEventType × List Byte)
  | write (message : Message) (answer : O → List Byte → CBEventType)
  | nuke (fd : Fd)

/-- A callback was called, for a descriptor. -/
inductive Called (I O : Type) where
  | input (fd : Fd) (f : I)
  | output (fd : Fd) (f : O)

/-- One operation, and the callbacks it calls. An error leaves the table as it is. -/
def managedStep (defaultIn : I) (defaultOut : O) (db : ManagedDB I O) :
    ManagedCall I O → Option (ManagedDB I O × List (Called I O))
  | .addSwitch fd1 fd2 => some (db.addSwitch defaultIn defaultOut fd1 fd2, [])
  | .setCallbacks fd in_ out => some ((db.setCallbacks fd in_ out).toOption.getD db, [])
  | .read fd answer => some (db, ((db.read fd answer).2.map (.input fd)).toList)
  | .write message answer =>
    some (db, ((db.write message answer).2.map (.output message.fd)).toList)
  | .nuke fd => some (db.nuke fd, [])

/-- The operation neither removes the pair of `fd` nor registers `fd` again. -/
def KeepsEntry (fd : Fd) (db : ManagedDB I O) : ManagedCall I O → Prop
  | .addSwitch fd1 fd2 => fd1 ≠ fd ∧ fd2 ≠ fd
  | .setCallbacks fd' _ _ => fd' ≠ fd
  | .nuke fd' => fd' ≠ fd ∧ ∀ mc ∈ db.lookup fd', mc.dest ≠ fd
  | .read _ _ => True
  | .write _ _ => True

section Steps
variable {defaultIn : I} {defaultOut : O} {db db' : ManagedDB I O} {fd : Fd}

theorem lookup_addSwitch (defaultIn : I) (defaultOut : O) (db : ManagedDB I O) (fd1 fd2 fd : Fd) :
    (db.addSwitch defaultIn defaultOut fd1 fd2).lookup fd =
      if fd = fd2 then some { dest := fd1, in_ := defaultIn, out := defaultOut }
      else if fd = fd1 then some { dest := fd2, in_ := defaultIn, out := defaultOut }
      else db.lookup fd := by
  unfold ManagedDB.addSwitch
  split
  · rename_i h
    rw [h, AList.lookup_insert]
  · rename_i h2
    rw [AList.lookup_insert_ne h2]
    split
    · rename_i h1
      rw [h1, AList.lookup_insert]
    · rename_i h1
      rw [AList.lookup_insert_ne h1]

theorem nuke_of_none {fd' : Fd} (h : db.lookup fd' = none) : db.nuke fd' = db := by
  rw [ManagedDB.nuke, h]

theorem lookup_nuke {fd' : Fd} {mc : ManagedConnection I O} (h : db.lookup fd' = some mc) (fd : Fd) :
    (db.nuke fd').lookup fd = if fd = fd' ∨ fd = mc.dest then none else db.lookup fd := by
  rw [ManagedDB.nuke, h]
  show ((db.erase fd').erase mc.dest).lookup fd = _
  by_cases hdest : fd = mc.dest
  · rw [if_pos (.inr hdest), hdest, AList.lookup_erase]
  · rw [AList.lookup_erase_ne hdest]
    by_cases hfd : fd = fd'
    · rw [if_pos (.inl hfd), hfd, AList.lookup_erase]
    · rw [if_neg (not_or.mpr ⟨hfd, hdest⟩), AList.lookup_erase_ne hfd]

/-- What `set_callbacks` leaves is what was there. -/
theorem setCallbacks_eq_ok {in_ : I} {out : O} (h : db.setCallbacks fd in_ out = .ok db') :
    db' = db := by
  unfold ManagedDB.setCallbacks at h
  split at h
  · cases h
  · exact (Except.ok.inj h).symm

theorem getD_setCallbacks (db : ManagedDB I O) (fd : Fd) (in_ : I) (out : O) :
    (db.setCallbacks fd in_ out).toOption.getD db = db := by
  cases h : db.setCallbacks fd in_ out with
  | error e => rfl
  | ok db' => exact setCallbacks_eq_ok h

theorem lookup_managedStep {c : ManagedCall I O} {log : List (Called I O)} (hkeeps : KeepsEntry fd db c)
    (h : managedStep defaultIn defaultOut db c = some (db', log)) : db'.lookup fd = db.lookup fd := by
  cases c with
  | addSwitch fd1 fd2 =>
    cases h
    rw [lookup_addSwitch, if_neg hkeeps.2.symm, if_neg hkeeps.1.symm]
  | setCallbacks fd' in_ out =>
    cases h
    rw [getD_setCallbacks]
  | read fd' answer =>
    cases h
    rfl
  | write message answer =>
    cases h
    rfl
  | nuke fd' =>
    cases h
    cases hentry : db.lookup fd' with
    | none => rw [nuke_of_none hentry]
    | some mc =>
      have hother : ¬ (fd = fd' ∨ fd = mc.dest) :=
        not_or.mpr ⟨hkeeps.1.symm, (hkeeps.2 mc hentry).symm⟩
      rw [lookup_nuke hentry, if_neg hother]

/-- The entry of `fd` stays through a run that spares it. -/
theorem lookup_runAll {cs : List (ManagedCall I O)} {log : List (Called I O)}
    (hkeeps : RunMeets (managedStep defaultIn defaultOut) (KeepsEntry fd) db cs)
    (h : runAll (managedStep defaultIn defaultOut) db cs = some (db', log)) :
    db'.lookup fd = db.lookup fd := by
  have hstep : ∀ (s : ManagedDB I O) c s₁ es₁, s.lookup fd = db.lookup fd → KeepsEntry fd s c →
      managedStep defaultIn defaultOut s c = some (s₁, es₁) → s₁.lookup fd = db.lookup fd := by
    intro s c s₁ es₁ hs hkeeps hstep
    exact (lookup_managedStep hkeeps hstep).trans hs
  exact runAll_invariant hstep rfl hkeeps h

/-! ## Taking effect -/

/-- A registration takes effect: it succeeds, the other entries stay as they were, and after any
operations that spare `fd`, `read` and `write` call the two functions. -/
def TakesEffect (defaultIn : I) (defaultOut : O) (db : ManagedDB I O) (fd : Fd) (in_ : I) (out : O)
    (r : Except Error (ManagedDB I O)) : Prop :=
  ∃ db', r = .ok db' ∧ (∀ fd' ≠ fd, db'.lookup fd' = db.lookup fd') ∧
    ∀ later db'' log, RunMeets (managedStep defaultIn defaultOut) (KeepsEntry fd) db' later →
      runAll (managedStep defaultIn defaultOut) db' later = some (db'', log) →
      (∀ answer, (db''.read fd answer).2 = some in_) ∧
      ∀ message answer, message.fd = fd → (db''.write message answer).2 = some out

theorem read_called {mc : ManagedConnection I O} (h : db.lookup fd = some mc)
    (answer : I → CBEventType × List Byte) : (db.read fd answer).2 = some mc.in_ := by
  simp only [ManagedDB.read, h]

theorem write_called {mc : ManagedConnection I O} {message : Message}
    (h : db.lookup message.fd = some mc) (answer : O → List Byte → CBEventType) :
    (db.write message answer).2 = some mc.out := by
  have hwrite := message.write_eq_ok (show 4 < 100000 by norm_num)
  simp only [ManagedDB.write, h, hwrite]

theorem takesEffect_self_iff {mc : ManagedConnection I O} (h : db.lookup fd = some mc) {in_ : I}
    {out : O} :
    TakesEffect defaultIn defaultOut db fd in_ out (.ok db) ↔ mc.in_ = in_ ∧ mc.out = out := by
  constructor
  · intro heffect
    obtain ⟨db', heq, -, hlater⟩ := heffect
    cases heq
    obtain ⟨hread, hwrite⟩ := hlater [] db [] trivial rfl
    have hin := hread fun _ => (.ignore, [])
    have hout := hwrite { fd := fd, payload := [] } (fun _ _ => .ignore) rfl
    rw [read_called h, Option.some.injEq] at hin
    rw [write_called h, Option.some.injEq] at hout
    exact ⟨hin, hout⟩
  · rintro ⟨rfl, rfl⟩
    refine ⟨db, rfl, fun _ _ => rfl, ?_⟩
    intro later db'' log hkeeps hrun
    have hentry := (lookup_runAll hkeeps hrun).trans h
    refine ⟨read_called hentry, ?_⟩
    rintro message answer rfl
    exact write_called hentry answer

/-- **Registration**: the callbacks that are registered are called exactly when they are those the
entry already has. -/
theorem takesEffect_iff (defaultIn : I) (defaultOut : O) {mc : ManagedConnection I O}
    (h : db.lookup fd = some mc) (in_ : I) (out : O) :
    (TakesEffect defaultIn defaultOut db fd in_ out (db.setCallbacks fd in_ out) ↔
        mc.in_ = in_ ∧ mc.out = out) ∧
      (TakesEffect defaultIn defaultOut db fd in_ out (db.setSwitchCallbacks fd in_ out) ↔
        mc.in_ = in_ ∧ mc.out = out) := by
  have hset : db.setCallbacks fd in_ out = .ok db := by
    rw [ManagedDB.setCallbacks, h]
  rw [ManagedDB.setSwitchCallbacks, hset]
  exact ⟨takesEffect_self_iff h, takesEffect_self_iff h⟩

/-- The callbacks of an entry that was put in the table by hand are registered again. -/
theorem takesEffect_by_hand :
    TakesEffect 0 0 (AList.insert 5 { dest := 6, in_ := 1, out := 2 } ∅ : ManagedDB Nat Nat) 5 1 2
      (ManagedDB.setCallbacks (AList.insert 5 { dest := 6, in_ := 1, out := 2 } ∅) 5 1 2) :=
  ((takesEffect_iff 0 0 (AList.lookup_insert _) 1 2).1).mpr ⟨rfl, rfl⟩

/-- A switch is added, and callbacks are registered for one of its ends: `read` calls the default
one. -/
theorem not_takesEffect_added :
    let db : ManagedDB Nat Nat := ManagedDB.addSwitch 0 0 ∅ 5 6
    (∀ answer, (db.read 5 answer).2 = some 0) ∧
      ¬ TakesEffect 0 0 db 5 1 2 (db.setCallbacks 5 1 2) := by
  intro db
  have hentry : db.lookup 5 = some { dest := 6, in_ := 0, out := 0 } := rfl
  refine ⟨read_called hentry, ?_⟩
  intro heffect
  obtain ⟨db', hok, -, hlater⟩ := heffect
  cases setCallbacks_eq_ok hok
  have hread := (hlater [] db [] trivial rfl).1 fun _ => (.ignore, [])
  rw [read_called hentry] at hread
  cases hread

/-! ## The callbacks of a run -/

/-- Every entry has the default callbacks. -/
def AllDefault (defaultIn : I) (defaultOut : O) (db : ManagedDB I O) : Prop :=
  ∀ fd, ∀ mc ∈ db.lookup fd, mc.in_ = defaultIn ∧ mc.out = defaultOut

theorem AllDefault.addSwitch (h : AllDefault defaultIn defaultOut db) (fd1 fd2 : Fd) :
    AllDefault defaultIn defaultOut (db.addSwitch defaultIn defaultOut fd1 fd2) := by
  intro fd mc hmc
  rw [lookup_addSwitch] at hmc
  split at hmc
  · cases hmc
    exact ⟨rfl, rfl⟩
  · split at hmc
    · cases hmc
      exact ⟨rfl, rfl⟩
    · exact h fd mc hmc

theorem AllDefault.nuke (h : AllDefault defaultIn defaultOut db) (fd' : Fd) :
    AllDefault defaultIn defaultOut (db.nuke fd') := by
  cases hentry : db.lookup fd' with
  | none => rwa [nuke_of_none hentry]
  | some removed =>
    intro fd mc hmc
    rw [lookup_nuke hentry] at hmc
    split at hmc
    · cases hmc
    · exact h fd mc hmc

theorem AllDefault.managedStep (h : AllDefault defaultIn defaultOut db) {c : ManagedCall I O}
    {log : List (Called I O)} (hstep : managedStep defaultIn defaultOut db c = some (db', log)) :
    AllDefault defaultIn defaultOut db' ∧
      ∀ e ∈ log, (∃ fd, e = .input fd defaultIn) ∨ ∃ fd, e = .output fd defaultOut := by
  cases c with
  | addSwitch fd1 fd2 =>
    cases hstep
    exact ⟨h.addSwitch fd1 fd2, by simp⟩
  | setCallbacks fd in_ out =>
    cases hstep
    rw [getD_setCallbacks]
    exact ⟨h, by simp⟩
  | read fd answer =>
    cases hstep
    refine ⟨h, ?_⟩
    intro e he
    cases hentry : db.lookup fd with
    | none => simp [ManagedDB.read, hentry] at he
    | some mc =>
      rw [read_called hentry, (h fd mc hentry).1] at he
      exact .inl ⟨fd, List.mem_singleton.mp he⟩
  | write message answer =>
    cases hstep
    refine ⟨h, ?_⟩
    intro e he
    cases hentry : db.lookup message.fd with
    | none => simp [ManagedDB.write, hentry] at he
    | some mc =>
      rw [write_called hentry, (h message.fd mc hentry).2] at he
      exact .inr ⟨message.fd, List.mem_singleton.mp he⟩
  | nuke fd' =>
    cases hstep
    exact ⟨h.nuke fd', by simp⟩

/-- Whatever a program registers, the default callbacks are the only ones that are ever called. -/
theorem called_default {cs : List (ManagedCall I O)} {log : List (Called I O)}
    (hrun : runAll (managedStep defaultIn defaultOut) ∅ cs = some (db, log)) :
    ∀ e ∈ log, (∃ fd, e = .input fd defaultIn) ∨ ∃ fd, e = .output fd defaultOut := by
  have hempty : AllDefault defaultIn defaultOut ∅ := by
    intro fd mc hmc
    simp at hmc
  refine (runAll_induction (G := fun _ _ => True) (P := AllDefault defaultIn defaultOut)
    (Q := fun _ log _ => ∀ e ∈ log, (∃ fd, e = .input fd defaultIn) ∨ ∃ fd, e = .output fd defaultOut)
    (fun _ _ e he => absurd he List.not_mem_nil) ?_ hempty (runMeets_true _ _) hrun).2
  intro s c s₁ log₁ hs _ hstep
  obtain ⟨hs₁, hlog₁⟩ := hs.managedStep hstep
  refine ⟨hs₁, fun log₂ s' hlog₂ e he => ?_⟩
  rcases List.mem_append.mp he with he | he
  · exact hlog₁ e he
  · exact hlog₂ e he

/-! ## The table of destinations -/

/-- `db` is what is left of the table without its callbacks. -/
def Refines (t : ManagedDB I O) (db : SwitchDB) : Prop :=
  ∀ fd, db.lookup fd = (t.lookup fd).map ManagedConnection.dest

section Refinement
variable {t t' : ManagedDB I O} {db : SwitchDB}

theorem Refines.addSwitch (h : Refines t db) (fd1 fd2 : Fd) :
    Refines (t.addSwitch defaultIn defaultOut fd1 fd2) (db.addSwitch fd1 fd2) := by
  intro fd
  rw [lookup_addSwitch, SwitchDB.addSwitch, PartnerTable.lookup_link]
  split
  · rfl
  · split
    · rfl
    · exact h fd

theorem Refines.setCallbacks (h : Refines t db) {fd : Fd} {in_ : I} {out : O}
    (hset : t.setCallbacks fd in_ out = .ok t') : Refines t' db := by
  rwa [setCallbacks_eq_ok hset]

theorem Refines.nuke (h : Refines t db) (fd : Fd) : Refines (t.nuke fd) (db.nuke fd) := by
  intro fd'
  have hdest := h fd
  cases hentry : t.lookup fd with
  | none =>
    rw [hentry, Option.map_none] at hdest
    rw [SwitchDB.nuke, PartnerTable.unlink_of_none hdest, nuke_of_none hentry]
    exact h fd'
  | some mc =>
    rw [hentry, Option.map_some] at hdest
    rw [SwitchDB.nuke, PartnerTable.lookup_unlink hdest, lookup_nuke hentry]
    split
    · rfl
    · exact h fd'

/-- What an operation does to the destinations. -/
def ManagedCall.onDests (db : SwitchDB) : ManagedCall I O → SwitchDB
  | .addSwitch fd1 fd2 => db.addSwitch fd1 fd2
  | .setCallbacks _ _ _ => db
  | .read _ _ => db
  | .write _ _ => db
  | .nuke fd => db.nuke fd

theorem Refines.managedStep (h : Refines t db) {c : ManagedCall I O} {log : List (Called I O)}
    (hstep : managedStep defaultIn defaultOut t c = some (t', log)) :
    Refines t' (c.onDests db) := by
  cases c with
  | addSwitch fd1 fd2 =>
    cases hstep
    exact h.addSwitch fd1 fd2
  | setCallbacks fd in_ out =>
    cases hstep
    cases hset : t.setCallbacks fd in_ out with
    | error e => exact h
    | ok t'' => exact h.setCallbacks hset
  | read fd answer =>
    cases hstep
    exact h
  | write message answer =>
    cases hstep
    exact h
  | nuke fd =>
    cases hstep
    exact h.nuke fd

/-- A run of the table is a run of its destinations. -/
theorem Refines.run (h : Refines t db) {cs : List (ManagedCall I O)} {log : List (Called I O)}
    (hrun : runAll (LibIpc.Zig.managedStep defaultIn defaultOut) t cs = some (t', log)) :
    Refines t' (cs.foldl ManagedCall.onDests db) := by
  induction cs generalizing t db log with
  | nil =>
    cases hrun
    exact h
  | cons c cs ih =>
    obtain ⟨t₁, log₁, log₂, hstep, hrun, -⟩ := runAll_cons_eq_some hrun
    rw [List.foldl_cons]
    exact ih (h.managedStep hstep) hrun

/-- `SwitchDB.read` needs the answer of the callback of the entry only. -/
theorem Refines.read (h : Refines t db) {fd : Fd} {mc : ManagedConnection I O}
    (hentry : t.lookup fd = some mc) {answer : I → CBEventType × List Byte} {cb : In}
    (hcb : cb.answer = answer mc.in_) : (t.read fd answer).1 = SwitchDB.read db fd cb := by
  have hdest := h fd
  rw [hentry, Option.map_some] at hdest
  rcases hanswer : answer mc.in_ with ⟨verdict, bs⟩
  rw [hanswer] at hcb
  cases verdict with
  | ignore => simp only [ManagedDB.read, SwitchDB.read, hentry, hdest, hcb, hanswer]
  | noError =>
    cases hread : Message.read mc.dest bs bs.length with
    | error e => simp only [ManagedDB.read, SwitchDB.read, hentry, hdest, hcb, hanswer, hread]
    | ok m => simp only [ManagedDB.read, SwitchDB.read, hentry, hdest, hcb, hanswer, hread]
  | fdClosing => simp only [ManagedDB.read, SwitchDB.read, hentry, hdest, hcb, hanswer]
  | error => simp only [ManagedDB.read, SwitchDB.read, hentry, hdest, hcb, hanswer]

/-- `SwitchDB.write`. -/
theorem Refines.write (h : Refines t db) {message : Message} {mc : ManagedConnection I O}
    (hentry : t.lookup message.fd = some mc) {answer : O → List Byte → CBEventType} {cb : Out}
    (hcb : ∀ written n, message.write 100000 = .ok (written, n) →
      cb.answer = answer mc.out written) :
    (t.write message answer).1 = (SwitchDB.write db message cb).1 := by
  have hdest := h message.fd
  rw [hentry, Option.map_some] at hdest
  simp only [ManagedDB.write, SwitchDB.write, hentry, hdest]
  cases hwrite : message.write 100000 with
  | error e => rfl
  | ok r =>
    simp only [hcb r.1 r.2 hwrite]
    cases answer mc.out r.1 <;> rfl

end Refinement

end Steps

end LibIpc.Zig

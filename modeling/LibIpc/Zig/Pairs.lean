import LibIpc.Lib.ArrayMap
import LibIpc.Zig.Registering

/-!
# The pairs of the switch database (`SwitchDB.db`)

`SwitchDB` once more, with its entries in the array of `AutoArrayHashMap`: a pair is two entries,
put there one after the other, and `nuke` removes them one after the other, the last entry of the
array taking the place of each. `pairs_of_run` says that the entries of any run are the pairs added
and not removed since, so that the second removal never takes the entry of another pair.
`Lists` is the link with the tables of the other modules, which do not have that order.
-/

namespace LibIpc.Zig

open Lib

variable {I O : Type}

/-! ## The table -/

/-- `SwitchDB.db`, an `AutoArrayHashMap`. -/
abbrev SwitchEntries (I O : Type) := ArrayMap Fd (ManagedConnection I O)

namespace SwitchEntries

/-- `SwitchDB.add_switch`. -/
def addSwitch (defaultIn : I) (defaultOut : O) (db : SwitchEntries I O) (fd1 fd2 : Fd) :
    SwitchEntries I O :=
  (db.put fd1 { dest := fd2, in_ := defaultIn, out := defaultOut }).put fd2
    { dest := fd1, in_ := defaultIn, out := defaultOut }

/-- `SwitchDB.getDest`; `none` where the source unwraps a null. -/
def getDest (db : SwitchEntries I O) (fd : Fd) : Option Fd :=
  (db.get fd).map ManagedConnection.dest

/-- `SwitchDB.nuke`. -/
def nuke (db : SwitchEntries I O) (fd : Fd) : SwitchEntries I O :=
  match db.fetchSwapRemove fd with
  | (none, db) => db
  | (some kv, db) => db.swapRemove kv.2.dest

end SwitchEntries

inductive PairCall where
  | addSwitch (fd1 fd2 : Fd)
  | nuke (fd : Fd)
  deriving DecidableEq

/-- One call; it calls no callback. -/
def entriesStep (defaultIn : I) (defaultOut : O) (db : SwitchEntries I O) :
    PairCall → Option (SwitchEntries I O × List (Called I O))
  | .addSwitch fd1 fd2 => some (db.addSwitch defaultIn defaultOut fd1 fd2, [])
  | .nuke fd => some (db.nuke fd, [])

/-- The two descriptors of a new pair are different, and neither has an entry. -/
def AddsPair (db : SwitchEntries I O) : PairCall → Prop
  | .addSwitch fd1 fd2 => fd1 ≠ fd2 ∧ db.get fd1 = none ∧ db.get fd2 = none
  | .nuke _ => True

instance (db : SwitchEntries I O) : ∀ c, Decidable (AddsPair db c)
  | .addSwitch fd1 fd2 =>
    inferInstanceAs (Decidable (fd1 ≠ fd2 ∧ db.get fd1 = none ∧ db.get fd2 = none))
  | .nuke _ => isTrue trivial

/-- The pair was added, and nuked by neither of its ends since. -/
def Live (cs : List PairCall) (x y : Fd) : Prop :=
  ∃ before since, cs = before ++ .addSwitch x y :: since ∧
    .nuke x ∉ since ∧ .nuke y ∉ since

/-- Two entries are removed, that of `fd` and that of its destination, and no other entry is
touched; or there is no entry and nothing is. -/
def NukesPair (db : SwitchEntries I O) (fd : Fd) (db' : SwitchEntries I O) : Prop :=
  (db.get fd = none ∧ db' = db) ∨
    ∃ mc mc', mc.dest ≠ fd ∧ mc'.dest = fd ∧
      db.entries.Perm ((fd, mc) :: (mc.dest, mc') :: db'.entries) ∧
      ∀ x, db'.get x = if x = fd ∨ x = mc.dest then none else db.get x

section
variable {defaultIn : I} {defaultOut : O} {db : SwitchEntries I O} {fd : Fd}

/-! ## One call -/

theorem get_addSwitch (defaultIn : I) (defaultOut : O) (db : SwitchEntries I O) (fd1 fd2 x : Fd) :
    (db.addSwitch defaultIn defaultOut fd1 fd2).get x =
      if x = fd2 then some { dest := fd1, in_ := defaultIn, out := defaultOut }
      else if x = fd1 then some { dest := fd2, in_ := defaultIn, out := defaultOut }
      else db.get x := by
  rw [SwitchEntries.addSwitch, ArrayMap.get_put, ArrayMap.get_put]

theorem nuke_of_get_none (h : db.get fd = none) : db.nuke fd = db := by
  rw [SwitchEntries.nuke, ArrayMap.fetchSwapRemove_of_none h]

/-- The second removal starts from the table without the first entry. -/
theorem nuke_of_get_some {mc : ManagedConnection I O} (h : db.get fd = some mc) :
    ∃ db₁, db.Without (fd, mc) db₁ ∧ db.nuke fd = db₁.swapRemove mc.dest := by
  obtain ⟨db₁, hfetch, hwithout⟩ := ArrayMap.fetchSwapRemove_of_some h
  refine ⟨db₁, hwithout, ?_⟩
  rw [SwitchEntries.nuke, hfetch]

theorem get_nuke {mc : ManagedConnection I O} (h : db.get fd = some mc) (x : Fd) :
    (db.nuke fd).get x = if x = fd ∨ x = mc.dest then none else db.get x := by
  obtain ⟨db₁, hwithout, hnuke⟩ := nuke_of_get_some h
  rw [hnuke, ArrayMap.get_swapRemove, hwithout.get]
  by_cases hdest : x = mc.dest
  · rw [if_pos hdest, if_pos (.inr hdest)]
  · rw [if_neg hdest]
    by_cases hfd : x = fd
    · rw [if_pos hfd, if_pos (.inl hfd)]
    · rw [if_neg hfd, if_neg (not_or.mpr ⟨hfd, hdest⟩)]

/-- Where the destination of `fd` is another descriptor that has `fd` for destination, the two
removals are those of the pair. -/
theorem nukesPair_of_paired {mc mc' : ManagedConnection I O} (h : db.get fd = some mc)
    (hapart : mc.dest ≠ fd) (hdest : db.get mc.dest = some mc') (hback : mc'.dest = fd) :
    NukesPair db fd (db.nuke fd) := by
  obtain ⟨db₁, hwithout, hnuke⟩ := nuke_of_get_some h
  have hdest₁ : db₁.get mc.dest = some mc' := by
    rw [hwithout.get, if_neg hapart, hdest]
  refine .inr ⟨mc, mc', hapart, hback, ?_, get_nuke h⟩
  rw [hnuke]
  exact hwithout.trans ((ArrayMap.swapRemove_of_some hdest₁).cons _)

/-! ## Destinations -/

theorem getDest_eq_some {x y : Fd} (h : db.getDest x = some y) :
    ∃ mc, db.get x = some mc ∧ mc.dest = y :=
  Option.map_eq_some_iff.mp h

theorem getDest_addSwitch (defaultIn : I) (defaultOut : O) (db : SwitchEntries I O)
    (fd1 fd2 x : Fd) :
    (db.addSwitch defaultIn defaultOut fd1 fd2).getDest x =
      if x = fd2 then some fd1 else if x = fd1 then some fd2 else db.getDest x := by
  rw [SwitchEntries.getDest, get_addSwitch]
  split
  · rfl
  · split
    · rfl
    · rfl

theorem getDest_nuke {d : Fd} (h : db.getDest fd = some d) (x : Fd) :
    (db.nuke fd).getDest x = if x = fd ∨ x = d then none else db.getDest x := by
  obtain ⟨mc, hmc, rfl⟩ := getDest_eq_some h
  rw [SwitchEntries.getDest, get_nuke hmc]
  split
  · rfl
  · rfl

theorem getDest_eq_none_iff : db.getDest fd = none ↔ db.get fd = none :=
  Option.map_eq_none_iff

/-! ## Pairs that live -/

/-- How the last call ends: an addition of that very pair, or a call that spares it. -/
theorem live_concat {cs : List PairCall} {c : PairCall} {x y : Fd} :
    Live (cs ++ [c]) x y ↔
      c = .addSwitch x y ∨ (Live cs x y ∧ c ≠ .nuke x ∧ c ≠ .nuke y) := by
  constructor
  · intro h
    obtain ⟨before, since, heq, hx, hy⟩ := h
    cases since using List.reverseRecOn with
    | nil =>
      left
      exact (List.append_inj_right' heq rfl |> List.cons.inj).1
    | append_singleton since last =>
      right
      rw [← List.cons_append, ← List.append_assoc] at heq
      have hcs := List.append_inj_left' heq rfl
      have hc := (List.cons.inj (List.append_inj_right' heq rfl)).1
      rw [List.mem_append, List.mem_singleton, not_or] at hx hy
      rw [hc]
      exact ⟨⟨before, since, hcs, hx.1, hy.1⟩, Ne.symm hx.2, Ne.symm hy.2⟩
  · intro h
    rcases h with rfl | ⟨⟨before, since, rfl, hx, hy⟩, hcx, hcy⟩
    · exact ⟨cs, [], rfl, List.not_mem_nil, List.not_mem_nil⟩
    · refine ⟨before, since ++ [c], ?_, ?_, ?_⟩
      · rw [List.append_assoc, List.cons_append]
      · rw [List.mem_append, List.mem_singleton, not_or]
        exact ⟨hx, Ne.symm hcx⟩
      · rw [List.mem_append, List.mem_singleton, not_or]
        exact ⟨hy, Ne.symm hcy⟩

/-- The destinations are the pairs that live, in both directions. -/
structure PairsLive (db : SwitchEntries I O) (cs : List PairCall) : Prop where
  apart : ∀ x y, db.getDest x = some y → x ≠ y
  live : ∀ x y, db.getDest x = some y ↔ Live cs x y ∨ Live cs y x

namespace PairsLive
variable {cs : List PairCall}

theorem empty : PairsLive (∅ : SwitchEntries I O) [] where
  apart := by
    intro x y h
    cases h
  live := by
    intro x y
    have hnone : ∀ x y, ¬ Live [] x y := by
      intro x y h
      obtain ⟨before, since, heq, -, -⟩ := h
      simp at heq
    constructor
    · intro h
      cases h
    · intro h
      rcases h with h | h
      · exact absurd h (hnone x y)
      · exact absurd h (hnone y x)

theorem symm (h : PairsLive db cs) {x y : Fd} (hxy : db.getDest x = some y) :
    db.getDest y = some x :=
  (h.live y x).mpr ((h.live x y).mp hxy).symm

theorem addSwitch (h : PairsLive db cs) {a b : Fd} (hadds : AddsPair db (.addSwitch a b)) :
    PairsLive (db.addSwitch defaultIn defaultOut a b) (cs ++ [.addSwitch a b]) := by
  obtain ⟨hab, ha, hb⟩ := hadds
  -- Neither end is in a pair, on either side.
  have hfree : ∀ {e z}, db.get e = none → ¬ (Live cs e z ∨ Live cs z e) := by
    intro e z he hlive
    have hdest := (h.live e z).mpr hlive
    rw [getDest_eq_none_iff.mpr he] at hdest
    cases hdest
  have hiff : ∀ x y, Live (cs ++ [.addSwitch a b]) x y ↔ (a = x ∧ b = y) ∨ Live cs x y := by
    intro x y
    rw [live_concat]
    simp
  constructor
  · intro x y hxy
    rw [getDest_addSwitch] at hxy
    split at hxy
    · rename_i hx
      rw [hx, ← Option.some.inj hxy]
      exact hab.symm
    · split at hxy
      · rename_i hx
        rw [hx, ← Option.some.inj hxy]
        exact hab
      · exact h.apart x y hxy
  · intro x y
    rw [getDest_addSwitch, hiff, hiff]
    by_cases hxb : x = b
    · subst hxb
      have hno := hfree (z := y) hb
      rw [if_pos rfl, Option.some.injEq]
      tauto
    · rw [if_neg hxb]
      by_cases hxa : x = a
      · subst hxa
        have hno := hfree (z := y) ha
        rw [if_pos rfl, Option.some.injEq]
        tauto
      · rw [if_neg hxa, h.live]
        have ha' : ¬ a = x := Ne.symm hxa
        have hb' : ¬ b = x := Ne.symm hxb
        tauto

theorem nuke (h : PairsLive db cs) (fd : Fd) : PairsLive (db.nuke fd) (cs ++ [.nuke fd]) := by
  have hiff : ∀ x y, Live (cs ++ [.nuke fd]) x y ↔ Live cs x y ∧ fd ≠ x ∧ fd ≠ y := by
    intro x y
    rw [live_concat]
    simp
  have hdests : ∀ x y, (db.nuke fd).getDest x = some y ↔
      db.getDest x = some y ∧ fd ≠ x ∧ fd ≠ y := by
    intro x y
    cases hfd : db.getDest fd with
    | none =>
      rw [nuke_of_get_none (getDest_eq_none_iff.mp hfd)]
      constructor
      · intro hxy
        refine ⟨hxy, ?_, ?_⟩
        · rintro rfl
          rw [hfd] at hxy
          cases hxy
        · rintro rfl
          rw [h.symm hxy] at hfd
          cases hfd
      · exact And.left
    | some d =>
      rw [getDest_nuke hfd]
      constructor
      · intro hxy
        split at hxy
        · cases hxy
        · rename_i hx
          rw [not_or] at hx
          refine ⟨hxy, Ne.symm hx.1, ?_⟩
          -- Only `d` has `fd` for destination.
          rintro rfl
          exact hx.2 (Option.some.inj ((h.symm hxy).symm.trans hfd))
      · intro hxy
        obtain ⟨hxy, hx, hy⟩ := hxy
        rw [if_neg]
        · exact hxy
        · intro hor
          rcases hor with rfl | rfl
          · exact hx rfl
          · exact hy (Option.some.inj ((h.symm hfd).symm.trans hxy))
  constructor
  · intro x y hxy
    exact h.apart x y ((hdests x y).mp hxy).1
  · intro x y
    rw [hdests, hiff, hiff, h.live]
    tauto

/-- What `nuke` finds at the two ends of a pair. -/
theorem nukesPair (h : PairsLive db cs) (fd : Fd) : NukesPair db fd (db.nuke fd) := by
  cases hget : db.get fd with
  | none => exact .inl ⟨hget, nuke_of_get_none hget⟩
  | some mc =>
    have hdest : db.getDest fd = some mc.dest := by
      rw [SwitchEntries.getDest, hget, Option.map_some]
    obtain ⟨mc', hget', hback⟩ := getDest_eq_some (h.symm hdest)
    exact nukesPair_of_paired hget (h.apart fd mc.dest hdest).symm hget' hback

end PairsLive

/-! ## Runs -/

/-- Every run comes to an end, with the pairs that live. -/
theorem pairsLive_of_run {cs : List PairCall}
    (hadds : RunMeets (entriesStep defaultIn defaultOut) AddsPair ∅ cs) :
    ∃ db, runAll (entriesStep defaultIn defaultOut) ∅ cs = some (db, []) ∧ PairsLive db cs := by
  induction cs using List.reverseRecOn with
  | nil => exact ⟨∅, rfl, .empty⟩
  | append_singleton cs c ih =>
    obtain ⟨db, hrun, hlive⟩ := ih hadds.left
    have hadd := (hadds.right hrun).1
    cases c with
    | addSwitch a b =>
      refine ⟨db.addSwitch defaultIn defaultOut a b, ?_, hlive.addSwitch hadd⟩
      rw [runAll_append, hrun]
      rfl
    | nuke fd =>
      refine ⟨db.nuke fd, ?_, hlive.nuke fd⟩
      rw [runAll_append, hrun]
      rfl

/-- **Pairs**: after any additions of new pairs and any removals, the destinations are a
fixed-point-free involution, that of the pairs added and not removed since; and a removal takes
exactly the two entries of a pair. -/
theorem pairs_of_run {cs : List PairCall}
    (hadds : RunMeets (entriesStep defaultIn defaultOut) AddsPair ∅ cs) :
    ∃ db, runAll (entriesStep defaultIn defaultOut) ∅ cs = some (db, []) ∧
      (∀ x y, db.getDest x = some y → x ≠ y ∧ db.getDest y = some x) ∧
      (∀ x y, db.getDest x = some y ↔ Live cs x y ∨ Live cs y x) ∧
      ∀ fd, NukesPair db fd (db.nuke fd) := by
  obtain ⟨db, hrun, hlive⟩ := pairsLive_of_run hadds
  refine ⟨db, hrun, ?_, hlive.live, hlive.nukesPair⟩
  intro x y hxy
  exact ⟨hlive.apart x y hxy, hlive.symm hxy⟩

/-- The descriptors of a pair that was nuked are paired again, with others. -/
theorem pairs_of_run_again :
    ∃ db, runAll (entriesStep 0 0) ∅
        [.addSwitch 5 6, .addSwitch 7 8, .nuke 6, .addSwitch 5 9] = some (db, []) ∧
      db.getDest 9 = some 5 ∧ NukesPair db 7 (db.nuke 7) := by
  obtain ⟨db, hrun, -, hlive, hnuke⟩ :=
    @pairs_of_run Nat Nat 0 0 [.addSwitch 5 6, .addSwitch 7 8, .nuke 6, .addSwitch 5 9]
      (by decide)
  refine ⟨db, hrun, ?_, hnuke 7⟩
  rw [hlive]
  exact .inr ⟨[.addSwitch 5 6, .addSwitch 7 8, .nuke 6], [], rfl, List.not_mem_nil,
    List.not_mem_nil⟩

end

/-! ## The tables without an order -/

/-- The table finds what the array finds. -/
def Lists (db : SwitchEntries I O) (t : ManagedDB I O) : Prop := ∀ fd, t.lookup fd = db.get fd

section
variable {defaultIn : I} {defaultOut : O} {db : SwitchEntries I O} {t : ManagedDB I O}

theorem Lists.addSwitch (h : Lists db t) (fd1 fd2 : Fd) :
    Lists (db.addSwitch defaultIn defaultOut fd1 fd2) (t.addSwitch defaultIn defaultOut fd1 fd2) := by
  intro fd
  rw [lookup_addSwitch, get_addSwitch, h fd]

theorem Lists.nuke (h : Lists db t) (fd : Fd) : Lists (db.nuke fd) (t.nuke fd) := by
  intro x
  have hfd := h fd
  cases hget : db.get fd with
  | none =>
    rw [hget] at hfd
    rw [nuke_of_none hfd, nuke_of_get_none hget, h x]
  | some mc =>
    rw [hget] at hfd
    rw [lookup_nuke hfd, get_nuke hget, h x]

/-- What a call does to the table. -/
def PairCall.toManaged : PairCall → ManagedCall I O
  | .addSwitch fd1 fd2 => .addSwitch fd1 fd2
  | .nuke fd => .nuke fd

/-- A run of the array is a run of the table. -/
theorem Lists.run (h : Lists db t) {cs : List PairCall} {db' : SwitchEntries I O}
    {log : List (Called I O)}
    (hrun : runAll (entriesStep defaultIn defaultOut) db cs = some (db', log)) :
    ∃ t', runAll (managedStep defaultIn defaultOut) t (cs.map PairCall.toManaged) = some (t', log) ∧
      Lists db' t' := by
  induction cs generalizing db t log with
  | nil =>
    cases hrun
    exact ⟨t, rfl, h⟩
  | cons c cs ih =>
    obtain ⟨db₁, log₁, log₂, hstep, hrest, rfl⟩ := runAll_cons_eq_some hrun
    cases c with
    | addSwitch fd1 fd2 =>
      cases hstep
      obtain ⟨t', hrun', hlists⟩ := ih (h.addSwitch fd1 fd2) hrest
      refine ⟨t', ?_, hlists⟩
      rw [List.map_cons, runAll, PairCall.toManaged, managedStep, Option.bind_some, hrun']
      rfl
    | nuke fd =>
      cases hstep
      obtain ⟨t', hrun', hlists⟩ := ih (h.nuke fd) hrest
      refine ⟨t', ?_, hlists⟩
      rw [List.map_cons, runAll, PairCall.toManaged, managedStep, Option.bind_some, hrun']
      rfl

end

end LibIpc.Zig

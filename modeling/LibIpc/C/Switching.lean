import LibIpc.C.Effects

/-!
# Whose callbacks a switched descriptor runs (`network.c`)

The switching table is an array of records, and a deletion overwrites the deleted record with the
last one: its two descriptors, but not its four callbacks. `PairTable` is what the array stands for,
a map from each registered descriptor to the record of its pair, where every call concerns one pair
alone. `ownCallbacks_iff` says when the array keeps up with it: as long as each deletion is of a
record that has the same callbacks as the last one.
-/

namespace LibIpc.C

open Lib

/-! ## The array and what it stands for -/

/-- The calls on one switching table. -/
inductive SwitchingCall where
  | add (orig dest : Fd)
  | del (fd : Fd)
  | callbacks (fd : Fd) (cbIn cbOut : Option Callback)

/-- One call on a table. The events are what the deletions return. -/
def switchingStep (sw : IpcSwitchings) : SwitchingCall → Option (IpcSwitchings × List Fd)
  | .add orig dest => some (ipcSwitchingAdd sw orig dest, [])
  | .del fd => (ipcSwitchingDel sw fd).map fun (ret, sw) => (sw, [ret])
  | .callbacks fd cbIn cbOut => (ipcSwitchingCallbacks sw fd cbIn cbOut).map fun sw => (sw, [])

/-- The record with these callbacks for the end `fd`. -/
def IpcSwitching.withCallbacks (s : IpcSwitching) (fd : Fd) (cbIn cbOut : Option Callback) :
    IpcSwitching :=
  if s.orig = fd then { s with origIn := cbIn, origOut := cbOut }
  else { s with destIn := cbIn, destOut := cbOut }

/-- The pair of each registered descriptor, with the callbacks last set for its two ends. -/
abbrev PairTable := Fd → Option IpcSwitching

/-- What a call means: a new pair has no callbacks, a deleted pair is gone, callbacks are set for one
end of one pair. All other pairs are as they were. -/
def PairTable.step (t : PairTable) : SwitchingCall → PairTable
  | .add orig dest => fun x =>
    if x = orig ∨ x = dest then some { orig := orig, dest := dest } else t x
  | .del fd =>
    match t fd with
    | none => t
    | some s => fun x => if s.mentions x then none else t x
  | .callbacks fd cbIn cbOut =>
    match t fd with
    | none => t
    | some s => fun x => if s.mentions x then some (s.withCallbacks fd cbIn cbOut) else t x

/-- The table after a history of calls. -/
def PairTable.after (history : List SwitchingCall) : PairTable :=
  history.foldl PairTable.step fun _ => none

/-- What `ipc_switching_get_` finds, for every descriptor, is its own pair with its own callbacks. -/
def OwnCallbacks (history : List SwitchingCall) (sw : IpcSwitchings) : Prop :=
  ∀ fd, ipcSwitchingGet_ sw fd = some (PairTable.after history fd)

/-- The records of the array. -/
def IpcSwitchings.records (sw : IpcSwitchings) : List IpcSwitching :=
  (sw.collection.getD []).take sw.size

/-- The four callbacks of a record. -/
def IpcSwitching.callbacks (s : IpcSwitching) : List (Option Callback) :=
  [s.origIn, s.origOut, s.destIn, s.destOut]

/-- The descriptors that are added are not registered. -/
def AddsUnregistered (sw : IpcSwitchings) : SwitchingCall → Prop
  | .add orig dest => ∀ s ∈ sw.records, ¬ s.mentions orig ∧ ¬ s.mentions dest
  | _ => True

/-- The record that is deleted has the callbacks of the last one. -/
def DeletesAlike (sw : IpcSwitchings) : SwitchingCall → Prop
  | .del fd => ∀ s ∈ sw.records.find? (fun s => s.mentions fd), ∀ last ∈ sw.records.getLast?,
      s.callbacks = last.callbacks
  | _ => True

instance (sw : IpcSwitchings) : ∀ c, Decidable (AddsUnregistered sw c)
  | .add orig dest =>
    inferInstanceAs (Decidable (∀ s ∈ sw.records, ¬ s.mentions orig ∧ ¬ s.mentions dest))
  | .del _ | .callbacks _ _ _ => isTrue trivial

instance (sw : IpcSwitchings) : ∀ c, Decidable (DeletesAlike sw c)
  | .del fd =>
    inferInstanceAs (Decidable (∀ s ∈ sw.records.find? (fun s => s.mentions fd),
      ∀ last ∈ sw.records.getLast?, s.callbacks = last.callbacks))
  | .add _ _ | .callbacks _ _ _ => isTrue trivial

/-! ## Lists of pairs -/

/-- No two records have a descriptor in common. -/
def Apart (l : List IpcSwitching) : Prop :=
  l.Pairwise fun s s' => ∀ fd, s.mentions fd → ¬ s'.mentions fd

/-- The record found for a descriptor. -/
def pairOf (l : List IpcSwitching) : PairTable := fun fd => l.find? fun s => s.mentions fd

theorem ipcSwitchingGet_ofList (l : List IpcSwitching) (fd : Fd) :
    ipcSwitchingGet_ (.ofList l) fd = some (pairOf l fd) := by
  simp only [ipcSwitchingGet_, block_switchings, Option.bind_eq_bind, Option.bind_some]
  rfl

@[simp] theorem records_ofList (l : List IpcSwitching) : (IpcSwitchings.ofList l).records = l := by
  simp [IpcSwitchings.records, IpcSwitchings.ofList]

theorem pairOf_eq_none {l : List IpcSwitching} {fd : Fd} :
    pairOf l fd = none ↔ ∀ s ∈ l, ¬ s.mentions fd := by
  simp [pairOf]

theorem mentions_congr {s s' : IpcSwitching} (h : s.ends = s'.ends) (fd : Fd) :
    s.mentions fd = s'.mentions fd := by
  obtain ⟨horig, hdest⟩ := Prod.mk.inj h
  rw [IpcSwitching.mentions, IpcSwitching.mentions, horig, hdest]

theorem ends_withCallbacks (s : IpcSwitching) (fd : Fd) (cbIn cbOut : Option Callback) :
    (s.withCallbacks fd cbIn cbOut).ends = s.ends := by
  unfold IpcSwitching.withCallbacks
  split
  · rfl
  · rfl

/-- Only the descriptors matter. -/
theorem Apart.of_ends {l l' : List IpcSwitching} (h : Apart l)
    (hends : l'.map IpcSwitching.ends = l.map IpcSwitching.ends) : Apart l' := by
  have hmap : ∀ l : List IpcSwitching, Apart l ↔
      (l.map IpcSwitching.ends).Pairwise fun p q =>
        ∀ fd, p.1 = fd ∨ p.2 = fd → ¬ (q.1 = fd ∨ q.2 = fd) := by
    intro l
    simp only [Apart, List.pairwise_map, IpcSwitching.mentions, IpcSwitching.ends,
      decide_eq_true_eq]
  rw [hmap] at h ⊢
  rwa [hends]

theorem Apart.perm {l l' : List IpcSwitching} (h : Apart l) (hperm : l.Perm l') : Apart l' := by
  refine (hperm.pairwise_iff ?_).mp h
  intro s s' hss fd hs' hs
  exact hss fd hs hs'

/-- In records without a common descriptor, the one found is the only one. -/
theorem Apart.pairOf_eq_some_iff {l : List IpcSwitching} (h : Apart l) {fd : Fd}
    {s : IpcSwitching} : pairOf l fd = some s ↔ s ∈ l ∧ s.mentions fd := by
  constructor
  · intro hfind
    have hmentions := List.find?_some hfind
    exact ⟨List.mem_of_find?_eq_some hfind, hmentions⟩
  · intro hs
    induction l with
    | nil => exact absurd hs.1 List.not_mem_nil
    | cons s₀ l ih =>
      obtain ⟨hfirst, hrest⟩ := List.pairwise_cons.mp h
      rw [pairOf, List.find?_cons]
      rcases List.mem_cons.mp hs.1 with rfl | hmem
      · rw [hs.2]
      · have hnot : s₀.mentions fd = false := by
          by_contra hyes
          exact hfirst s hmem fd (by simpa using hyes) hs.2
        rw [hnot]
        exact ih hrest ⟨hmem, hs.2⟩

/-- The records of a permutation are found the same way. -/
theorem Apart.pairOf_perm {l l' : List IpcSwitching} (h : Apart l) (hperm : l.Perm l') :
    pairOf l' = pairOf l := by
  funext fd
  apply Option.ext
  intro s
  rw [(h.perm hperm).pairOf_eq_some_iff, h.pairOf_eq_some_iff, hperm.mem_iff]

theorem pairOf_cons (s : IpcSwitching) (l : List IpcSwitching) (fd : Fd) :
    pairOf (s :: l) fd = if s.mentions fd then some s else pairOf l fd := by
  rw [pairOf, List.find?_cons]
  cases s.mentions fd <;> rfl

/-- Once the descriptors of a record are gone from the list, nothing is found for them. -/
theorem Apart.pairOf_of_head {s : IpcSwitching} {l : List IpcSwitching} (h : Apart (s :: l))
    {fd : Fd} (hfd : s.mentions fd) : pairOf l fd = none := by
  rw [pairOf_eq_none]
  intro s' hs'
  exact (List.pairwise_cons.mp h).1 s' hs' fd hfd

/-! ## One call -/

section Calls
variable {l : List IpcSwitching}

theorem switchingStep_add (h : Apart l) {orig dest : Fd}
    (hnew : AddsUnregistered (.ofList l) (.add orig dest)) :
    ∃ l', switchingStep (.ofList l) (.add orig dest) = some (.ofList l', []) ∧ Apart l' ∧
      pairOf l' = (pairOf l).step (.add orig dest) := by
  have hnew' : ∀ s ∈ l, ¬ s.mentions orig ∧ ¬ s.mentions dest := by
    simpa only [AddsUnregistered, records_ofList] using hnew
  have hperm : (({ orig := orig, dest := dest } : IpcSwitching) :: l).Perm
      (l ++ [{ orig := orig, dest := dest }]) := (List.perm_append_singleton _ l).symm
  have hcons : Apart (({ orig := orig, dest := dest } : IpcSwitching) :: l) := by
    refine List.pairwise_cons.mpr ⟨?_, h⟩
    intro s hs fd hfd
    obtain rfl | rfl : orig = fd ∨ dest = fd := by simpa [IpcSwitching.mentions] using hfd
    · exact (hnew' s hs).1
    · exact (hnew' s hs).2
  refine ⟨_, congrArg (fun sw => some (sw, [])) (ipcSwitchingAdd_ofList l orig dest),
    hcons.perm hperm, ?_⟩
  funext x
  have hx : ({ orig := orig, dest := dest } : IpcSwitching).mentions x ↔ x = orig ∨ x = dest := by
    simp only [IpcSwitching.mentions, decide_eq_true_eq, @eq_comm _ x]
  rw [hcons.pairOf_perm hperm, pairOf_cons]
  simp only [hx, PairTable.step]

theorem ipcSwitchingCallbacks_absent {fd : Fd} (cbIn cbOut : Option Callback)
    (hidx : l.findIdx? (fun s => s.mentions fd) = none) :
    ipcSwitchingCallbacks (.ofList l) fd cbIn cbOut = some (.ofList l) := by
  have hidx' : l.findIdx? (fun s => s.orig = fd ∨ s.dest = fd) = none := hidx
  simp only [ipcSwitchingCallbacks, block_switchings, Option.bind_eq_bind, Option.bind_some, hidx']
  rfl

theorem ipcSwitchingCallbacks_found {fd : Fd} {i : Nat} {s : IpcSwitching}
    (cbIn cbOut : Option Callback) (hidx : l.findIdx? (fun s => s.mentions fd) = some i)
    (hs : l[i]? = some s) :
    ipcSwitchingCallbacks (.ofList l) fd cbIn cbOut =
      some (.ofList (l.set i (s.withCallbacks fd cbIn cbOut))) := by
  have hidx' : l.findIdx? (fun s => s.orig = fd ∨ s.dest = fd) = some i := hidx
  have hne : l.set i (s.withCallbacks fd cbIn cbOut) ≠ [] := by
    rw [← List.length_pos_iff, List.length_set]
    exact Nat.lt_of_le_of_lt (Nat.zero_le i) (List.getElem?_eq_some_iff.mp hs).1
  simp only [ipcSwitchingCallbacks, block_switchings, Option.bind_eq_bind, Option.bind_some, hidx',
    hs, Option.pure_def, Option.some.injEq]
  rw [IpcSwitchings.ofList, IpcSwitchings.ofList, Ptr.ofList_of_ne_nil hne, List.length_set]
  rfl

/-- The record found first, and where. -/
theorem pairOf_cases (l : List IpcSwitching) (fd : Fd) :
    (l.findIdx? (fun s => s.mentions fd) = none ∧ pairOf l fd = none) ∨
      ∃ i s, l.findIdx? (fun s => s.mentions fd) = some i ∧ l[i]? = some s ∧
        pairOf l fd = some s := by
  cases hidx : l.findIdx? fun s => s.mentions fd with
  | none =>
    left
    rw [List.findIdx?_eq_none_iff] at hidx
    exact ⟨rfl, pairOf_eq_none.mpr (by simpa using hidx)⟩
  | some i =>
    right
    obtain ⟨hlt, hpred, hbefore⟩ := List.findIdx?_eq_some_iff_getElem.mp hidx
    refine ⟨i, l[i], rfl, List.getElem?_eq_getElem hlt, ?_⟩
    rw [pairOf, List.find?_eq_some_iff_getElem]
    exact ⟨hpred, i, hlt, rfl, by simpa using hbefore⟩

theorem switchingStep_callbacks (h : Apart l) (fd : Fd) (cbIn cbOut : Option Callback) :
    ∃ l', switchingStep (.ofList l) (.callbacks fd cbIn cbOut) = some (.ofList l', []) ∧
      Apart l' ∧ pairOf l' = (pairOf l).step (.callbacks fd cbIn cbOut) := by
  rcases pairOf_cases l fd with ⟨hidx, hpair⟩ | ⟨i, s, hidx, hs, hpair⟩
  · refine ⟨l, ?_, h, ?_⟩
    · rw [switchingStep, ipcSwitchingCallbacks_absent cbIn cbOut hidx, Option.map_some]
    · simp only [PairTable.step, hpair]
  · obtain ⟨hlt, rfl⟩ := List.getElem?_eq_some_iff.mp hs
    have hends := ends_withCallbacks l[i] fd cbIn cbOut
    have hapart : Apart (l.set i (l[i].withCallbacks fd cbIn cbOut)) := by
      apply h.of_ends
      rw [List.map_set, hends, ← List.map_set, List.set_getElem_self]
    refine ⟨_, ?_, hapart, ?_⟩
    · rw [switchingStep, ipcSwitchingCallbacks_found cbIn cbOut hidx hs, Option.map_some]
    · have hset := List.set_perm_cons_eraseIdx hlt (l[i].withCallbacks fd cbIn cbOut)
      have hget := List.getElem_cons_eraseIdx_perm hlt
      simp only [PairTable.step, hpair]
      funext x
      rw [← hapart.pairOf_perm hset, ← h.pairOf_perm hget.symm, pairOf_cons, pairOf_cons,
        mentions_congr hends]
      split
      · rfl
      · rfl

/-- The record in place of a deleted one is the last one exactly when their callbacks are the
same. -/
theorem moved_iff {last : IpcSwitching} (h : Apart (l ++ [last])) {i : Nat} (hi : i < l.length) :
    Apart (l.set i (l[i].replacedBy last)) ∧
      (pairOf (l.set i (l[i].replacedBy last)) =
          (fun x => if l[i].mentions x then none else pairOf (l ++ [last]) x) ↔
        l[i].callbacks = last.callbacks) := by
  have hset := List.set_perm_cons_eraseIdx hi (l[i].replacedBy last)
  have hperm : (l ++ [last]).Perm (l[i] :: last :: l.eraseIdx i) := by
    refine ((List.perm_append_singleton last l).trans ?_).trans (List.Perm.swap _ _ _)
    exact ((List.getElem_cons_eraseIdx_perm hi).symm).cons last
  have hall := h.perm hperm
  obtain ⟨hs, hrest⟩ := List.pairwise_cons.mp hall
  have hmentions := mentions_congr (show (l[i].replacedBy last).ends = last.ends from rfl)
  have hapart' : Apart (l[i].replacedBy last :: l.eraseIdx i) := Apart.of_ends hrest rfl
  have hapart := hapart'.perm hset.symm
  refine ⟨hapart, ?_⟩
  rw [← hapart.pairOf_perm hset, ← h.pairOf_perm hperm]
  constructor
  · intro heq
    -- Found at the first end of the last pair.
    have hlast : last.mentions last.orig := by simp [IpcSwitching.mentions]
    have hnot : ¬ l[i].mentions last.orig := fun hyes => hs last List.mem_cons_self _ hyes hlast
    have hat := congrFun heq last.orig
    rw [if_neg hnot, pairOf_cons, pairOf_cons, pairOf_cons, hmentions, if_pos hlast, if_neg hnot,
      if_pos hlast, Option.some.injEq] at hat
    have hcallbacks := congrArg IpcSwitching.callbacks hat
    exact hcallbacks
  · intro hsame
    have hmoved : l[i].replacedBy last = last := by
      obtain ⟨o, d, oi, oo, di, dd⟩ := last
      simp only [IpcSwitching.callbacks, List.cons.injEq, and_true] at hsame
      simp [IpcSwitching.replacedBy, hsame]
    funext x
    rw [hmoved, pairOf_cons l[i]]
    by_cases hx : l[i].mentions x
    · rw [if_pos hx, hall.pairOf_of_head hx]
    · rw [if_neg hx, if_neg hx]

/-- A deletion moves the last record, but leaves its callbacks behind. -/
theorem switchingStep_del (h : Apart l) (fd : Fd) :
    ∃ l' ret, switchingStep (.ofList l) (.del fd) = some (.ofList l', [ret]) ∧ Apart l' ∧
      (pairOf l' = (pairOf l).step (.del fd) ↔ DeletesAlike (.ofList l) (.del fd)) := by
  rcases pairOf_cases l fd with ⟨hidx, hpair⟩ | ⟨i, s, hidx, hs, hpair⟩
  · refine ⟨l, -1, ?_, h, ?_⟩
    · rw [switchingStep, ipcSwitchingDel_absent hidx, Option.map_some]
    · have hnone : l.find? (fun s => s.mentions fd) = none := hpair
      simp [PairTable.step, hpair, DeletesAlike, hnone]
  cases l using List.reverseRecOn with
  | nil => cases hs
  | append_singleton l last =>
    have halike : DeletesAlike (.ofList (l ++ [last])) (.del fd) ↔ s.callbacks = last.callbacks := by
      have hsome : (l ++ [last]).find? (fun s => s.mentions fd) = some s := hpair
      simp [DeletesAlike, hsome]
    refine ⟨l.set i (s.replacedBy last), s.other fd, ?_, ?_⟩
    · rw [switchingStep, ipcSwitchingDel_concat hidx hs, Option.map_some]
    rw [halike]
    simp only [PairTable.step, hpair]
    by_cases hi : i < l.length
    · have hget : l[i]? = some s := by rwa [List.getElem?_append_left hi] at hs
      obtain ⟨-, rfl⟩ := List.getElem?_eq_some_iff.mp hget
      exact moved_iff h hi
    · -- The last record itself is deleted.
      have hlt := (List.getElem?_eq_some_iff.mp hs).1
      rw [List.length_append, List.length_singleton] at hlt
      obtain rfl : i = l.length := by omega
      obtain rfl : last = s := by simpa using hs
      rw [List.set_eq_of_length_le (Nat.le_refl _)]
      have hcons := h.perm (List.perm_append_singleton last l)
      refine ⟨(List.pairwise_cons.mp hcons).2, ?_⟩
      simp only [iff_true]
      funext x
      rw [← h.pairOf_perm (List.perm_append_singleton last l), pairOf_cons]
      split
      · rename_i hx
        exact hcons.pairOf_of_head hx
      · rfl

/-- A call on a table without common descriptors. It always returns, and the records are those of
the pair table exactly when a deletion is as in `DeletesAlike`. -/
theorem switchingStep_spec (h : Apart l) {c : SwitchingCall} (hnew : AddsUnregistered (.ofList l) c) :
    ∃ l' es, switchingStep (.ofList l) c = some (.ofList l', es) ∧ Apart l' ∧
      (pairOf l' = (pairOf l).step c ↔ DeletesAlike (.ofList l) c) := by
  cases c with
  | add orig dest =>
    obtain ⟨l', hstep, hapart, hpairs⟩ := switchingStep_add h hnew
    exact ⟨l', _, hstep, hapart, iff_of_true hpairs trivial⟩
  | del fd =>
    obtain ⟨l', ret, hstep, hapart, hpairs⟩ := switchingStep_del h fd
    exact ⟨l', _, hstep, hapart, hpairs⟩
  | callbacks fd cbIn cbOut =>
    obtain ⟨l', hstep, hapart, hpairs⟩ := switchingStep_callbacks h fd cbIn cbOut
    exact ⟨l', _, hstep, hapart, iff_of_true hpairs trivial⟩

end Calls

/-! ## Runs -/

theorem pairs_of_get {l : List IpcSwitching} {t : PairTable} :
    (∀ fd, ipcSwitchingGet_ (.ofList l) fd = some (t fd)) ↔ pairOf l = t := by
  simp only [ipcSwitchingGet_ofList, Option.some.injEq]
  exact funext_iff.symm

/-- The run from any records without common descriptors. -/
theorem run_iff {l : List IpcSwitching} (h : Apart l) {cs : List SwitchingCall}
    (hnew : RunMeets switchingStep AddsUnregistered (.ofList l) cs) :
    (∀ cs₁, cs₁ <+: cs → ∃ sw es, runAll switchingStep (.ofList l) cs₁ = some (sw, es) ∧
        ∀ fd, ipcSwitchingGet_ sw fd = some (cs₁.foldl PairTable.step (pairOf l) fd)) ↔
      RunMeets switchingStep DeletesAlike (.ofList l) cs := by
  induction cs generalizing l with
  | nil =>
    refine iff_of_true ?_ trivial
    intro cs₁ hprefix
    rw [List.prefix_nil.mp hprefix]
    exact ⟨_, [], rfl, pairs_of_get.mpr rfl⟩
  | cons c cs ih =>
    obtain ⟨l', es, hstep, hapart, hpairs⟩ := switchingStep_spec h hnew.1
    have ih' := ih hapart (hnew.2 _ hstep)
    have hrun : ∀ cs₁, runAll switchingStep (.ofList l) (c :: cs₁) =
        (runAll switchingStep (.ofList l') cs₁).map fun r => (r.1, es ++ r.2) := by
      intro cs₁
      rw [runAll, hstep, Option.bind_some]
    constructor
    · intro hown
      -- The first call alone.
      obtain ⟨sw, es₁, hfirst, hget⟩ := hown [c] (by simp)
      rw [hrun, runAll, Option.map_some, Option.some.injEq, Prod.mk.injEq] at hfirst
      obtain ⟨rfl, -⟩ := hfirst
      have heq : pairOf l' = (pairOf l).step c := pairs_of_get.mp hget
      refine ⟨hpairs.mp heq, ?_⟩
      intro r hr
      rw [hstep, Option.some.injEq] at hr
      subst hr
      refine ih'.mp ?_
      intro cs₁ hprefix
      obtain ⟨sw, es₁, hall, hget⟩ := hown (c :: cs₁) (by simpa using hprefix)
      rw [hrun] at hall
      obtain ⟨r, hr, hreq⟩ := Option.map_eq_some_iff.mp hall
      cases hreq
      rw [heq]
      exact ⟨r.1, r.2, hr, hget⟩
    · intro halike cs₁ hprefix
      have heq := hpairs.mpr halike.1
      rcases List.prefix_cons_iff.mp hprefix with rfl | ⟨cs₂, rfl, hprefix₂⟩
      · exact ⟨_, [], rfl, pairs_of_get.mpr rfl⟩
      · obtain ⟨sw, es₂, hall, hget⟩ := ih'.mpr (halike.2 _ hstep) cs₂ hprefix₂
        refine ⟨sw, es ++ es₂, ?_, ?_⟩
        · rw [hrun, hall, Option.map_some]
        · rw [List.foldl_cons, ← heq]
          exact hget

/-- **Own callbacks**: in a run that adds unregistered descriptors only, every descriptor has its own
pair and callbacks at every point exactly when every deletion is of a record with the callbacks of
the last one. -/
theorem ownCallbacks_iff {cs : List SwitchingCall}
    (hnew : RunMeets switchingStep AddsUnregistered {} cs) :
    (∀ cs₁, cs₁ <+: cs → ∃ sw es, runAll switchingStep {} cs₁ = some (sw, es) ∧
        OwnCallbacks cs₁ sw) ↔
      RunMeets switchingStep DeletesAlike {} cs :=
  run_iff (l := []) List.Pairwise.nil hnew

/-- Two pairs, one with callbacks on an end. -/
def twoPairs : List SwitchingCall :=
  [.add 5 6, .add 7 8, .callbacks 7 (some 1) (some 2)]

/-- The pair added last is deleted. -/
theorem ownCallbacks_del_last :
    RunMeets switchingStep AddsUnregistered {} (twoPairs ++ [.del 8]) ∧
      ∀ cs₁, cs₁ <+: twoPairs ++ [.del 8] → ∃ sw es, runAll switchingStep {} cs₁ = some (sw, es) ∧
        OwnCallbacks cs₁ sw :=
  ⟨by decide, (ownCallbacks_iff (by decide)).mpr (by decide)⟩

/-- The first pair is deleted, and the second one loses its callbacks. -/
theorem not_ownCallbacks_del_first :
    RunMeets switchingStep AddsUnregistered {} (twoPairs ++ [.del 5]) ∧
      ∃ sw es, runAll switchingStep {} (twoPairs ++ [.del 5]) = some (sw, es) ∧
        ¬ OwnCallbacks (twoPairs ++ [.del 5]) sw ∧
        PairTable.after (twoPairs ++ [.del 5]) 7 =
          some { orig := 7, dest := 8, origIn := some 1, origOut := some 2 } ∧
        ipcSwitchingGet_ sw 7 = some (some { orig := 7, dest := 8 }) := by
  refine ⟨by decide, _, _, rfl, ?_, by decide, by decide⟩
  intro hown
  exact absurd (hown 7) (by decide)

end LibIpc.C

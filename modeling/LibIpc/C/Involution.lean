import LibIpc.C.Switching
import LibIpc.Lib.Pairing

/-!
# The switching table as a set of pairs (`network.c`)

Which descriptor is joined to which depends on the two descriptors of the records only, and these
travel when the last record replaces a deleted one. `partners` is the table of partners a history of
calls stands for; `switching_involution` says that `ipc_switching_get` reads it off the array after
any number of calls, and what `ipc_switching_del` then does.
-/

namespace LibIpc.C

open Lib

/-! ## Pairs -/

/-- The other end of the pair found for a descriptor. -/
def peerOf (l : List IpcSwitching) (fd : Fd) : Option Fd := (pairOf l fd).map fun s => s.other fd

theorem ipcSwitchingGet_of_block {sw : IpcSwitchings} {l : List IpcSwitching}
    (h : sw.collection.block sw.size = some l) (fd : Fd) :
    ipcSwitchingGet sw fd = some ((peerOf l fd).getD (-1)) := by
  simp only [ipcSwitchingGet, h, Option.bind_eq_bind, Option.bind_some, peerOf, pairOf,
    IpcSwitching.mentions]
  cases l.find? fun s => s.orig = fd ∨ s.dest = fd with
  | none => rfl
  | some s => rfl

/-- What a call means for the pairs. -/
def linkStep (t : PartnerTable Fd) : SwitchingCall → PartnerTable Fd
  | .add orig dest => PartnerTable.link t orig dest
  | .del fd => PartnerTable.unlink t fd
  | .callbacks _ _ _ => t

/-- The pairs added and not deleted since. -/
def partners (history : List SwitchingCall) : PartnerTable Fd := history.foldl linkStep ∅

/-- The descriptors that are added are not negative and not registered. -/
def AddsPair (sw : IpcSwitchings) : SwitchingCall → Prop
  | .add orig dest => (0 ≤ orig ∧ 0 ≤ dest) ∧ AddsUnregistered sw (.add orig dest)
  | _ => True

instance (sw : IpcSwitchings) : ∀ c, Decidable (AddsPair sw c)
  | .add orig dest =>
    inferInstanceAs (Decidable ((0 ≤ orig ∧ 0 ≤ dest) ∧ AddsUnregistered sw (.add orig dest)))
  | .del _ | .callbacks _ _ _ => isTrue trivial

/-- `ret` is the other end of `fd`, and these two are unregistered; or there is none and nothing
changes. -/
def DeletesPair (sw : IpcSwitchings) (fd ret : Fd) (sw' : IpcSwitchings) : Prop :=
  (0 ≤ ret ∧ ipcSwitchingGet sw fd = some ret ∧
      ∀ x, ipcSwitchingGet sw' x = if x = fd ∨ x = ret then some (-1) else ipcSwitchingGet sw x) ∨
    (ret = -1 ∧ ipcSwitchingGet sw fd = some (-1) ∧ sw' = sw)

/-! ## Records and pairs -/

/-- Only the descriptors matter. -/
theorem peerOf_of_ends {l l' : List IpcSwitching}
    (h : l'.map IpcSwitching.ends = l.map IpcSwitching.ends) : peerOf l' = peerOf l := by
  have hmap : ∀ (l : List IpcSwitching) fd, peerOf l fd =
      ((l.map IpcSwitching.ends).find? fun p => p.1 = fd ∨ p.2 = fd).map
        fun p => if p.1 = fd then p.2 else p.1 := by
    intro l fd
    rw [List.find?_map, Option.map_map]
    rfl
  funext fd
  rw [hmap, hmap, h]

theorem mentions_iff {s : IpcSwitching} {fd : Fd} (h : s.mentions fd) (x : Fd) :
    s.mentions x ↔ x = fd ∨ x = s.other fd := by
  simp only [IpcSwitching.mentions, IpcSwitching.other, decide_eq_true_eq] at h ⊢
  split
  · rename_i horig
    rw [horig, @eq_comm _ fd, @eq_comm _ s.dest]
  · rename_i horig
    rw [h.resolve_left horig, or_comm, @eq_comm _ fd, @eq_comm _ s.orig]

/-- Without the record of `fd`, nothing is found for its two descriptors. -/
theorem Apart.peerOf_swapRemove {l : List IpcSwitching} (h : Apart l) {fd : Fd} {i : Nat}
    {s : IpcSwitching} (hget : l[i]? = some s) (hs : s.mentions fd) :
    Apart (swapRemove l i) ∧
      ∀ x, peerOf (swapRemove l i) x = if x = fd ∨ x = s.other fd then none else peerOf l x := by
  obtain ⟨hlt, rfl⟩ := List.getElem?_eq_some_iff.mp hget
  have hperm := perm_cons_swapRemove hlt
  have hcons := h.perm hperm
  refine ⟨(List.pairwise_cons.mp hcons).2, ?_⟩
  intro x
  rw [peerOf, peerOf, ← h.pairOf_perm hperm, pairOf_cons]
  simp only [← mentions_iff hs x]
  split
  · rename_i hx
    rw [hcons.pairOf_of_head hx]
    rfl
  · rfl

/-! ## One call -/

/-- The array holds the pairs of `t`. -/
structure Mirrors (l : List IpcSwitching) (t : PartnerTable Fd) : Prop where
  apart : Apart l
  ends : ∀ s ∈ l, 0 ≤ s.orig ∧ 0 ≤ s.dest
  peers : ∀ fd, peerOf l fd = t.lookup fd
  pairing : PartnerTable.IsPairing t

section
variable {l : List IpcSwitching} {t : PartnerTable Fd}

theorem Mirrors.get (h : Mirrors l t) (fd : Fd) :
    ipcSwitchingGet (.ofList l) fd = some ((t.lookup fd).getD (-1)) := by
  rw [ipcSwitchingGet_of_block (block_switchings l), h.peers]

theorem Mirrors.nonneg (h : Mirrors l t) {a b : Fd} (hab : t.lookup a = some b) : 0 ≤ b := by
  rw [← h.peers, peerOf] at hab
  obtain ⟨s, hfind, rfl⟩ := Option.map_eq_some_iff.mp hab
  obtain ⟨horig, hdest⟩ := h.ends s (List.mem_of_find?_eq_some hfind)
  unfold IpcSwitching.other
  split
  · exact hdest
  · exact horig

/-- A descriptor that is not -1 is found exactly where there is a pair. -/
theorem Mirrors.get_iff (h : Mirrors l t) (a : Fd) {b : Fd} (hb : 0 ≤ b) :
    ipcSwitchingGet (.ofList l) a = some b ↔ t.lookup a = some b := by
  rw [h.get, Option.some.injEq]
  cases t.lookup a with
  | none =>
    rw [Option.getD_none]
    constructor
    · rintro rfl
      exact absurd hb (by decide)
    · nofun
  | some c => rw [Option.getD_some, Option.some.injEq]

/-- Which callbacks the records have does not matter. -/
theorem Mirrors.of_ends (h : Mirrors l t) {l' : List IpcSwitching}
    (hends : l'.map IpcSwitching.ends = l.map IpcSwitching.ends) : Mirrors l' t where
  apart := h.apart.of_ends hends
  ends := by
    intro s' hs'
    have hmem : s'.ends ∈ l.map IpcSwitching.ends := hends ▸ List.mem_map_of_mem hs'
    obtain ⟨s, hs, heq⟩ := List.mem_map.mp hmem
    obtain ⟨horig, hdest⟩ := Prod.mk.inj heq
    rw [← horig, ← hdest]
    exact h.ends s hs
  peers := by
    intro fd
    rw [peerOf_of_ends hends, h.peers]
  pairing := h.pairing

theorem Mirrors.add (h : Mirrors l t) {orig dest : Fd}
    (hadd : AddsPair (.ofList l) (.add orig dest)) :
    ∃ l', switchingStep (.ofList l) (.add orig dest) = some (.ofList l', []) ∧
      Mirrors l' (PartnerTable.link t orig dest) := by
  obtain ⟨hpos, hnew⟩ := hadd
  have hnew' : ∀ s ∈ l, ¬ s.mentions orig ∧ ¬ s.mentions dest := by
    simpa only [AddsUnregistered, records_ofList] using hnew
  obtain ⟨l', hstep, hapart, hpairs⟩ := switchingStep_add h.apart hnew
  have hl' : l' = l ++ [{ orig := orig, dest := dest }] := by
    rw [switchingStep, ipcSwitchingAdd_ofList, Option.some.injEq, Prod.mk.injEq] at hstep
    have hrecords := congrArg IpcSwitchings.records hstep.1
    rwa [records_ofList, records_ofList, eq_comm] at hrecords
  have hnone : ∀ {fd}, (∀ s ∈ l, ¬ s.mentions fd) → fd ∉ t := by
    intro fd hfd hmem
    obtain ⟨y, hy⟩ := PartnerTable.mem_iff_lookup.mp hmem
    rw [← h.peers, peerOf, pairOf_eq_none.mpr hfd] at hy
    cases hy
  refine ⟨l', hstep, hapart, ?_, ?_, ?_⟩
  · intro s hs
    rw [hl', List.mem_append, List.mem_singleton] at hs
    rcases hs with hs | rfl
    · exact h.ends s hs
    · exact hpos
  · intro fd
    rw [PartnerTable.lookup_link, ← h.peers, peerOf, peerOf, hpairs]
    simp only [PairTable.step]
    by_cases horig : fd = orig
    · subst horig
      by_cases hdest : fd = dest
      · subst hdest
        simp [IpcSwitching.other]
      · simp [IpcSwitching.other, hdest]
    · have horig' : ¬ orig = fd := fun heq => horig heq.symm
      by_cases hdest : fd = dest
      · subst hdest
        simp [IpcSwitching.other, horig']
      · simp [horig, hdest]
  · exact h.pairing.link (hnone fun s hs => (hnew' s hs).1) (hnone fun s hs => (hnew' s hs).2)

/-- A deletion, from the array and from the pairs. -/
theorem Mirrors.del (h : Mirrors l t) (fd : Fd) :
    ∃ ret l', ipcSwitchingDel (.ofList l) fd = some (ret, .ofList l') ∧
      Mirrors l' (PartnerTable.unlink t fd) ∧ DeletesPair (.ofList l) fd ret (.ofList l') := by
  obtain ⟨ret, l', hdel, hdeleted⟩ := ipcSwitchingDel_ofList l fd
  refine ⟨ret, l', hdel, ?_⟩
  cases hdeleted with
  | absent hnone =>
    have hlookup : t.lookup fd = none := by
      rw [← h.peers, peerOf, pairOf, hnone]
      rfl
    rw [PartnerTable.unlink_of_none hlookup]
    refine ⟨h, .inr ⟨rfl, ?_, rfl⟩⟩
    rw [h.get, hlookup]
    rfl
  | @deleted i s l' hidx hget hfind hends =>
    have hs := List.find?_some (p := (IpcSwitching.mentions · fd)) hfind
    have hlookup : t.lookup fd = some (s.other fd) := by
      rw [← h.peers, peerOf, pairOf, hfind]
      rfl
    rw [swapRemove_map] at hends
    obtain ⟨hapart, hpeers⟩ := h.apart.peerOf_swapRemove hget hs
    -- The records left are those of the array with the whole last record moved, up to callbacks.
    have hmoved : Mirrors (swapRemove l i) (PartnerTable.unlink t fd) := by
      refine ⟨hapart, ?_, ?_, h.pairing.unlink fd⟩
      · intro s' hs'
        exact h.ends s' (mem_of_mem_swapRemove hs')
      · intro x
        rw [hpeers, PartnerTable.lookup_unlink hlookup, h.peers]
    have hmirrors := hmoved.of_ends hends
    refine ⟨hmirrors, .inl ⟨h.nonneg hlookup, ?_, ?_⟩⟩
    · rw [h.get, hlookup]
      rfl
    · intro x
      rw [hmirrors.get, h.get, PartnerTable.lookup_unlink hlookup]
      split
      · rfl
      · rfl

/-- Callbacks change no pair. -/
theorem Mirrors.callbacks (h : Mirrors l t) (fd : Fd) (cbIn cbOut : Option Callback) :
    ∃ l', switchingStep (.ofList l) (.callbacks fd cbIn cbOut) = some (.ofList l', []) ∧
      Mirrors l' t := by
  rcases pairOf_cases l fd with ⟨hidx, -⟩ | ⟨i, s, hidx, hs, -⟩
  · refine ⟨l, ?_, h⟩
    rw [switchingStep, ipcSwitchingCallbacks_absent cbIn cbOut hidx, Option.map_some]
  · obtain ⟨hlt, rfl⟩ := List.getElem?_eq_some_iff.mp hs
    have hends : (l.set i (l[i].withCallbacks fd cbIn cbOut)).map IpcSwitching.ends =
        l.map IpcSwitching.ends := by
      rw [List.map_set, ends_withCallbacks, ← List.map_set, List.set_getElem_self]
    refine ⟨_, ?_, h.of_ends hends⟩
    rw [switchingStep, ipcSwitchingCallbacks_found cbIn cbOut hidx hs, Option.map_some]

/-- A call on the array is the call on the pairs. -/
theorem switchingStep_mirrors (h : Mirrors l t) {c : SwitchingCall} (hadd : AddsPair (.ofList l) c) :
    ∃ l' es, switchingStep (.ofList l) c = some (.ofList l', es) ∧ Mirrors l' (linkStep t c) := by
  cases c with
  | add orig dest =>
    obtain ⟨l', hstep, hmirrors⟩ := h.add hadd
    exact ⟨l', _, hstep, hmirrors⟩
  | del fd =>
    obtain ⟨ret, l', hdel, hmirrors, -⟩ := h.del fd
    exact ⟨l', [ret], by rw [switchingStep, hdel, Option.map_some], hmirrors⟩
  | callbacks fd cbIn cbOut =>
    obtain ⟨l', hstep, hmirrors⟩ := h.callbacks fd cbIn cbOut
    exact ⟨l', _, hstep, hmirrors⟩

/-! ## Runs -/

theorem run_mirrors (h : Mirrors l t) {cs : List SwitchingCall}
    (hadd : RunMeets switchingStep AddsPair (.ofList l) cs) :
    ∃ l' es, runAll switchingStep (.ofList l) cs = some (.ofList l', es) ∧
      Mirrors l' (cs.foldl linkStep t) := by
  induction cs generalizing l t with
  | nil => exact ⟨l, [], rfl, h⟩
  | cons c cs ih =>
    obtain ⟨l₁, es₁, hstep, h₁⟩ := switchingStep_mirrors h hadd.1
    obtain ⟨l₂, es₂, hrun, h₂⟩ := ih h₁ (hadd.2 _ hstep)
    refine ⟨l₂, es₁ ++ es₂, ?_, h₂⟩
    rw [runAll, hstep, Option.bind_some, hrun, Option.map_some]

end

/-- **Involution**: after any calls that add descriptors not registered yet, `ipc_switching_get` is
symmetric and finds the pairs added and not deleted since, and `ipc_switching_del` unregisters one of
them or does nothing. -/
theorem switching_involution {cs : List SwitchingCall}
    (h : RunMeets switchingStep AddsPair {} cs) :
    ∃ sw es, runAll switchingStep {} cs = some (sw, es) ∧
      (∀ a b, 0 ≤ a → 0 ≤ b → (ipcSwitchingGet sw a = some b ↔ ipcSwitchingGet sw b = some a)) ∧
      (∀ a b, 0 ≤ b → (ipcSwitchingGet sw a = some b ↔ (partners cs).lookup a = some b)) ∧
      ∀ fd, ∃ ret sw', ipcSwitchingDel sw fd = some (ret, sw') ∧ DeletesPair sw fd ret sw' := by
  have hempty : Mirrors [] ∅ :=
    ⟨List.Pairwise.nil, by simp, fun _ => rfl, PartnerTable.isPairing_empty⟩
  obtain ⟨l, es, hrun, hmirrors⟩ := run_mirrors hempty h
  refine ⟨.ofList l, es, hrun, ?_, ?_, ?_⟩
  · intro a b ha hb
    rw [hmirrors.get_iff a hb, hmirrors.get_iff b ha]
    exact ⟨hmirrors.pairing a b, hmirrors.pairing b a⟩
  · intro a b hb
    exact hmirrors.get_iff a hb
  · intro fd
    obtain ⟨ret, l', hdel, -, hdeletes⟩ := hmirrors.del fd
    exact ⟨ret, .ofList l', hdel, hdeletes⟩

/-- Of three pairs the first is deleted, through its second end: the last one takes its place. -/
theorem switching_involution_three_pairs :
    ∃ sw es, runAll switchingStep {} [.add 5 6, .add 7 8, .add 9 10, .del 6] = some (sw, es) ∧
      ipcSwitchingGet sw 5 = some (-1) ∧ ipcSwitchingGet sw 9 = some 10 := by
  have hpairs : RunMeets switchingStep AddsPair {} [.add 5 6, .add 7 8, .add 9 10, .del 6] := by
    decide
  obtain ⟨sw, es, hrun, -, hget, -⟩ := switching_involution hpairs
  cases hrun
  exact ⟨_, _, rfl, by decide, (hget 9 10 (by decide)).mpr (by decide)⟩

end LibIpc.C

import LibIpc.Lib.SwapQueue

/-!
# Ownership of heap blocks

Every block gets the next identity when it is allocated. `Holding` is what a data structure holds:
the identities of its blocks and the one that comes next. `Ledger` says that from one holding to
another every block is released at most once and none while it is held; ledgers compose, so that a
program is checked piece by piece. The blocks of a queue that is deleted from by swapping follow
its events (`followAll`).
-/

namespace LibIpc.Lib

variable {α κ : Type}

/-- What happens to a block. -/
inductive MemEvent where
  | alloc (id : Nat)
  | release (id : Nat)
  deriving DecidableEq

/-- The blocks that are released, in order. -/
def released (es : List MemEvent) : List Nat :=
  es.filterMap fun
    | .alloc _ => none
    | .release id => some id

@[simp] theorem released_append (es es' : List MemEvent) :
    released (es ++ es') = released es ++ released es' := by
  simp [released]

@[simp] theorem released_map_release (ids : List Nat) :
    released (ids.map .release) = ids := by
  simp [released, List.filterMap_map]

/-- The blocks held, and the identity of the next one. -/
structure Holding where
  held : List Nat := []
  next : Nat := 0

/-- No block is held twice, and none that was not allocated. -/
structure Holding.Valid (h : Holding) : Prop where
  nodup : h.held.Nodup
  old : ∀ id ∈ h.held, id < h.next

/-- From `h` to `h'`, blocks held before or allocated since are released at most once, and those
released are no longer held. -/
structure Ledger (h : Holding) (es : List MemEvent) (h' : Holding) : Prop where
  mono : h.next ≤ h'.next
  held : ∀ id ∈ h'.held, id ∈ h.held ∨ h.next ≤ id
  source : ∀ id ∈ released es, id ∈ h.held ∨ h.next ≤ id
  known : ∀ id ∈ released es, id < h'.next
  once : (released es).Nodup
  gone : ∀ id ∈ released es, id ∉ h'.held

/-- Nothing is released. -/
theorem ledger_of_released_nil {h h' : Holding} {es : List MemEvent} (hes : released es = [])
    (hmono : h.next ≤ h'.next) (hheld : ∀ id ∈ h'.held, id ∈ h.held ∨ h.next ≤ id) :
    Ledger h es h' := by
  refine ⟨hmono, hheld, ?_, ?_, ?_, ?_⟩ <;> simp [hes]

theorem Ledger.refl (h : Holding) : Ledger h [] h :=
  ledger_of_released_nil rfl (Nat.le_refl _) fun _ hid => .inl hid

theorem Ledger.trans {h h' h'' : Holding} {es es' : List MemEvent} (hfirst : Ledger h es h')
    (hsecond : Ledger h' es' h'') : Ledger h (es ++ es') h'' := by
  -- What the first piece has released is neither held nor new for the second.
  have hover : ∀ id ∈ released es, ¬ (id ∈ h'.held ∨ h'.next ≤ id) := by
    intro id hid hagain
    rcases hagain with hheld | hnew
    · exact hfirst.gone id hid hheld
    · have hknown := hfirst.known id hid
      omega
  have horigin : ∀ id, id ∈ h'.held ∨ h'.next ≤ id → id ∈ h.held ∨ h.next ≤ id := by
    intro id hid
    rcases hid with hheld | hnew
    · exact hfirst.held id hheld
    · exact .inr (hfirst.mono.trans hnew)
  refine ⟨hfirst.mono.trans hsecond.mono, ?_, ?_, ?_, ?_, ?_⟩
  · intro id hid
    exact horigin id (hsecond.held id hid)
  · intro id hid
    rw [released_append, List.mem_append] at hid
    rcases hid with hid | hid
    · exact hfirst.source id hid
    · exact horigin id (hsecond.source id hid)
  · intro id hid
    rw [released_append, List.mem_append] at hid
    rcases hid with hid | hid
    · exact (hfirst.known id hid).trans_le hsecond.mono
    · exact hsecond.known id hid
  · rw [released_append, List.nodup_append]
    refine ⟨hfirst.once, hsecond.once, ?_⟩
    rintro id hid _ hid' rfl
    exact hover id hid (hsecond.source id hid')
  · intro id hid
    rw [released_append, List.mem_append] at hid
    rcases hid with hid | hid
    · intro hheld
      exact hover id hid (hsecond.held id hheld)
    · exact hsecond.gone id hid

/-- A block that is allocated and released at once. -/
theorem ledger_transient {h : Holding} (hvalid : h.Valid) :
    Ledger h [.alloc h.next, .release h.next] { h with next := h.next + 1 } := by
  refine ⟨Nat.le_succ _, fun id hid => .inl hid, ?_, ?_, ?_, ?_⟩
  · simp [released]
  · simp [released]
  · simp [released]
  · intro id hid hheld
    have hold := hvalid.old id hheld
    simp only [released, List.filterMap_cons, List.filterMap_nil, List.mem_singleton] at hid
    omega

/-- A block that is allocated and never released. -/
theorem ledger_leak (h : Holding) : Ledger h [.alloc h.next] { h with next := h.next + 1 } :=
  ledger_of_released_nil rfl (Nat.le_succ _) fun _ hid => .inl hid

/-- Everything that is held is released. -/
theorem ledger_releaseAll {h : Holding} (hvalid : h.Valid) :
    Ledger h (h.held.map .release) { h with held := [] } := by
  refine ⟨Nat.le_refl _, ?_, ?_, ?_, ?_, ?_⟩
  · simp
  · intro id hid
    rw [released_map_release] at hid
    exact .inl hid
  · intro id hid
    rw [released_map_release] at hid
    exact hvalid.old id hid
  · rw [released_map_release]
    exact hvalid.nodup
  · simp

theorem Holding.Valid.later {h : Holding} (hvalid : h.Valid) :
    Holding.Valid { h with next := h.next + 1 } where
  nodup := hvalid.nodup
  old := fun id hid => (hvalid.old id hid).trans (Nat.lt_succ_self _)

/-! ## The blocks of a queue -/

/-- The blocks of a queue, entry by entry, after an event: an entry that is queued has a new block,
one that is dropped has its block released, one that is handed over if `frees` says so. -/
def follow (frees : α → Bool) (h : Holding) : QueueEvent α → Holding × List MemEvent
  | .queued _ => ({ held := h.held ++ [h.next], next := h.next + 1 }, [.alloc h.next])
  | .handed q i =>
    ({ h with held := swapRemove h.held i },
      if q[i]?.any frees then h.held[i]?.toList.map .release else [])
  | .dropped _ i =>
    ({ h with held := swapRemove h.held i }, h.held[i]?.toList.map .release)

/-- The blocks after a sequence of events. -/
def followAll (frees : α → Bool) (h : Holding) : List (QueueEvent α) → Holding × List MemEvent
  | [] => (h, [])
  | e :: es =>
    let r := follow frees h e
    let r' := followAll frees r.1 es
    (r'.1, r.2 ++ r'.2)

/-- The block of entry `i` leaves with the entry, and may be released. -/
theorem ledger_swapRemove {h : Holding} (hvalid : h.Valid) {i : Nat} (hi : i < h.held.length)
    {es : List MemEvent} (hes : es = [] ∨ es = [.release h.held[i]]) :
    Holding.Valid { h with held := swapRemove h.held i } ∧
      Ledger h es { h with held := swapRemove h.held i } := by
  have hperm := perm_cons_swapRemove hi
  have hnodup := hperm.nodup_iff.mp hvalid.nodup
  rw [List.nodup_cons] at hnodup
  constructor
  · exact ⟨hnodup.2, fun id hid => hvalid.old id (mem_of_mem_swapRemove hid)⟩
  · rcases hes with rfl | rfl
    · exact ledger_of_released_nil rfl (Nat.le_refl _) fun id hid => .inl (mem_of_mem_swapRemove hid)
    · refine ⟨Nat.le_refl _, fun id hid => .inl (mem_of_mem_swapRemove hid), ?_, ?_, ?_, ?_⟩
      · simp [released]
      · intro id hid
        obtain rfl : id = h.held[i] := by simpa [released] using hid
        exact hvalid.old _ (List.getElem_mem hi)
      · simp [released]
      · intro id hid
        obtain rfl : id = h.held[i] := by simpa [released] using hid
        exact hnodup.1

section Follow
variable [DecidableEq κ] {key : α → κ} (frees : α → Bool)

/-- One event of the queue keeps one block per entry. -/
theorem follow_ledger {h : Holding} (hvalid : h.Valid) {q q' : List α} {e : QueueEvent α}
    (hlength : h.held.length = q.length) (hstep : QueueStep key q e q') :
    (follow frees h e).1.Valid ∧ (follow frees h e).1.held.length = q'.length ∧
      Ledger h (follow frees h e).2 (follow frees h e).1 := by
  cases hstep with
  | queued x =>
    refine ⟨⟨?_, ?_⟩, by simp [follow, hlength], ledger_of_released_nil rfl (Nat.le_succ _) ?_⟩
    · -- The new block is younger than all others.
      refine List.nodup_append.mpr ⟨hvalid.nodup, List.nodup_singleton _, ?_⟩
      intro id hid id' hid' heq
      have hold := hvalid.old id hid
      rw [List.mem_singleton] at hid'
      omega
    · intro id hid
      rcases List.mem_append.mp hid with hid | hid
      · exact (hvalid.old id hid).trans (Nat.lt_succ_self _)
      · rw [List.mem_singleton.mp hid]
        exact Nat.lt_succ_self _
    · intro id hid
      rcases List.mem_append.mp hid with hid | hid
      · exact .inl hid
      · exact .inr (List.mem_singleton.mp hid).ge
  | @handed i hfirst =>
    have hi : i < h.held.length := hlength ▸ hfirst.lt
    -- The block of an entry handed over is released when `frees` says so, else it is lost.
    have hes : (follow frees h (.handed q i)).2 = [] ∨
        (follow frees h (.handed q i)).2 = [.release h.held[i]] := by
      rw [follow]
      split
      · exact .inr (by simp [hi])
      · exact .inl rfl
    obtain ⟨hvalid', hledger⟩ := ledger_swapRemove hvalid hi hes
    exact ⟨hvalid', by simp [follow, hlength], hledger⟩
  | @dropped i hfirst =>
    have hi : i < h.held.length := hlength ▸ hfirst.lt
    have hes : (follow frees h (.dropped q i)).2 = [.release h.held[i]] := by simp [follow, hi]
    obtain ⟨hvalid', hledger⟩ := ledger_swapRemove hvalid hi (.inr hes)
    exact ⟨hvalid', by simp [follow, hlength], hledger⟩

/-- The events of the queue, one after the other. -/
theorem followAll_ledger {h : Holding} (hvalid : h.Valid) {q q' : List α}
    {es : List (QueueEvent α)} (hlength : h.held.length = q.length)
    (hsteps : QueueSteps key q es q') :
    (followAll frees h es).1.Valid ∧ (followAll frees h es).1.held.length = q'.length ∧
      Ledger h (followAll frees h es).2 (followAll frees h es).1 := by
  induction hsteps generalizing h with
  | nil q => exact ⟨hvalid, hlength, .refl h⟩
  | cons hstep _ ih =>
    obtain ⟨hvalid₁, hlength₁, hledger₁⟩ := follow_ledger frees hvalid hlength hstep
    obtain ⟨hvalid₂, hlength₂, hledger₂⟩ := ih hvalid₁ hlength₁
    exact ⟨hvalid₂, hlength₂, hledger₁.trans hledger₂⟩

end Follow

end LibIpc.Lib

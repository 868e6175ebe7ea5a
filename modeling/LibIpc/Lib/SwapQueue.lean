import Mathlib.Tactic

/-!
# A queue kept in an array, deleted from by swapping

One array holds the entries of many *lanes* (one lane per key). New entries go to the end; the
entry at index `i` is deleted by moving the last entry into its place (`swapRemove`). Read as a
multiset, that deletion removes exactly one entry. Read as a family of lanes it may reorder the
lane of the moved entry: `SwapSafe` is the condition under which it does not.

`fifo` is the abstract machine the queue is meant to implement: per lane, entries are handed over
oldest first. `QueueSteps.fifo` is the refinement between the two.
-/

namespace LibIpc.Lib

variable {α κ : Type}

/-! ## Deletion by swapping -/

/-- Delete entry `i` by moving the last entry into its place. -/
def swapRemove (l : List α) (i : Nat) : List α :=
  match l.getLast? with
  | none => []
  | some y => (l.set i y).dropLast

@[simp] theorem swapRemove_nil (i : Nat) : swapRemove ([] : List α) i = [] := rfl

theorem swapRemove_concat (l : List α) (y : α) (i : Nat) :
    swapRemove (l ++ [y]) i = ((l ++ [y]).set i y).dropLast := by
  simp [swapRemove]

@[simp] theorem length_swapRemove (l : List α) (i : Nat) :
    (swapRemove l i).length = l.length - 1 := by
  cases l using List.reverseRecOn with
  | nil => rfl
  | append_singleton l y => simp [swapRemove_concat]

/-- The two shapes of a deletion: the deleted entry is the last one, or the last one moves. -/
theorem swapRemove_cases {l : List α} {i : Nat} (h : i < l.length) :
    (∃ pre x, l = pre ++ [x] ∧ pre.length = i ∧ swapRemove l i = pre) ∨
    (∃ pre x mid y, l = pre ++ x :: (mid ++ [y]) ∧ pre.length = i ∧
      swapRemove l i = pre ++ y :: mid) := by
  cases l using List.reverseRecOn with
  | nil => simp at h
  | append_singleton l y =>
    rw [swapRemove_concat]
    by_cases hi : i = l.length
    · left
      refine ⟨l, y, rfl, hi.symm, ?_⟩
      simp [hi]
    · right
      have hlt : i < l.length := by simp at h; omega
      refine ⟨l.take i, l[i], l.drop (i + 1), y, ?_, ?_, ?_⟩
      · rw [← List.cons_append, ← List.append_assoc, List.getElem_cons_drop hlt,
          List.take_append_drop]
      · simp; omega
      · rw [List.set_append_left _ _ hlt, List.dropLast_concat, List.set_eq_take_append_cons_drop,
          if_pos hlt]

/-- As a multiset, the queue loses exactly the entry at `i`. -/
theorem perm_cons_swapRemove {l : List α} {i : Nat} (h : i < l.length) :
    l.Perm (l[i] :: swapRemove l i) := by
  rcases swapRemove_cases h with ⟨pre, x, rfl, rfl, hs⟩ | ⟨pre, x, mid, y, rfl, rfl, hs⟩
  · rw [hs]
    simp [List.perm_append_singleton]
  · rw [hs]
    simp only [List.getElem_append_right (Nat.le_refl _), Nat.sub_self, List.getElem_cons_zero]
    calc pre ++ x :: (mid ++ [y])
        _ |>.Perm (x :: (pre ++ (mid ++ [y]))) := List.perm_middle
        _ |>.Perm (x :: (pre ++ y :: mid)) :=
          ((List.perm_append_singleton y mid).append_left pre).cons x

/-- Read after the deletion, the slot still gives the deleted entry only if it was the last. -/
theorem getD_swapRemove_eq_iff {l : List α} {i : Nat} {x : α} (hnodup : l.Nodup)
    (h : l[i]? = some x) : (swapRemove l i).getD i x = x ↔ i + 1 = l.length := by
  obtain ⟨hlt, rfl⟩ := List.getElem?_eq_some_iff.mp h
  rcases swapRemove_cases hlt with ⟨pre, x, rfl, rfl, hs⟩ | ⟨pre, x, mid, y, rfl, rfl, hs⟩
  · simp [hs]
  · have hne : y ≠ x := by
      intro heq
      have hsplit := (List.nodup_append.mp hnodup).2.1
      apply (List.nodup_cons.mp hsplit).1
      simp [heq]
    simp [hs, hne]

theorem mem_of_mem_swapRemove {l : List α} {i : Nat} {x : α} (h : x ∈ swapRemove l i) :
    x ∈ l := by
  cases l using List.reverseRecOn with
  | nil => simp at h
  | append_singleton l y =>
    rw [swapRemove_concat] at h
    rcases List.mem_or_eq_of_mem_set (List.mem_of_mem_dropLast h) with h | rfl
    · exact h
    · simp

theorem dropLast_set_concat (l : List α) (i : Nat) (y z : α) :
    ((l ++ [y]).set i z).dropLast = l.set i z := by
  by_cases hi : i < l.length
  · rw [List.set_append_left _ _ hi, List.dropLast_concat]
  · have hset : l.set i z = l := List.set_eq_of_length_le (by omega)
    rw [List.set_append_right _ _ (by omega), hset]
    cases i - l.length <;> simp

/-- Deleting before the last entry puts that one there. -/
theorem swapRemove_append_singleton (l : List α) (y : α) (i : Nat) :
    swapRemove (l ++ [y]) i = l.set i y := by
  rw [swapRemove_concat, dropLast_set_concat]

/-- The entries before the deleted one stay where they are. -/
theorem take_swapRemove {l : List α} {i : Nat} (h : i < l.length) :
    (swapRemove l i).take i = l.take i := by
  rcases swapRemove_cases h with ⟨pre, x, rfl, rfl, hs⟩ | ⟨pre, x, mid, y, rfl, rfl, hs⟩
  · rw [hs]; simp
  · rw [hs]; simp

/-- The deleted entry's own content does not matter. -/
theorem swapRemove_set (l : List α) (i : Nat) (x : α) (h : i < l.length) :
    swapRemove (l.set i x) i = swapRemove l i := by
  cases l using List.reverseRecOn with
  | nil => rfl
  | append_singleton l y =>
    rw [swapRemove_append_singleton]
    by_cases hi : i < l.length
    · rw [List.set_append_left _ _ hi, swapRemove_append_singleton, List.set_set]
    · obtain rfl : i = l.length := by simp at h; omega
      have hset : (l ++ [y]).set l.length x = l ++ [x] := by simp
      rw [hset, swapRemove_append_singleton, List.set_eq_of_length_le (Nat.le_refl _),
        List.set_eq_of_length_le (Nat.le_refl _)]

theorem swapRemove_map {β : Type} (f : α → β) (l : List α) (i : Nat) :
    swapRemove (l.map f) i = (swapRemove l i).map f := by
  cases l using List.reverseRecOn with
  | nil => rfl
  | append_singleton l y =>
    rw [List.map_append, List.map_singleton, swapRemove_concat, swapRemove_concat,
      List.map_dropLast, List.map_set, List.map_append, List.map_singleton]

/-- Two arrays with the same indices, deleted from together. -/
theorem zip_swapRemove {β : Type} {l : List α} {l' : List β} (h : l.length = l'.length) (i : Nat) :
    (swapRemove l i).zip (swapRemove l' i) = swapRemove (l.zip l') i := by
  have h₁ : swapRemove l i = (swapRemove (l.zip l') i).map Prod.fst := by
    rw [← swapRemove_map, List.map_fst_zip (Nat.le_of_eq h)]
  have h₂ : swapRemove l' i = (swapRemove (l.zip l') i).map Prod.snd := by
    rw [← swapRemove_map, List.map_snd_zip (Nat.le_of_eq h.symm)]
  rw [h₁, h₂]
  exact (List.zip_of_prod rfl rfl).symm

/-! ## Lanes -/

/-- Entry `i` can be deleted by swapping without reordering any lane: no entry strictly between
`i` and the last one is in the last one's lane. -/
def SwapSafe [DecidableEq κ] (key : α → κ) (l : List α) (i : Nat) : Prop :=
  ∀ x ∈ l.dropLast.drop (i + 1), ∀ y ∈ l.getLast?, key x ≠ key y

instance [DecidableEq κ] (key : α → κ) (l : List α) (i : Nat) : Decidable (SwapSafe key l i) :=
  inferInstanceAs (Decidable (∀ x ∈ l.dropLast.drop (i + 1), ∀ y ∈ l.getLast?, key x ≠ key y))

/-- Entry `i` can be deleted by swapping without reordering lane `k`. -/
def SwapSafeIn [DecidableEq κ] (key : α → κ) (k : κ) (l : List α) (i : Nat) : Prop :=
  ∀ y ∈ l.getLast?, key y = k → ∀ x ∈ l.dropLast.drop (i + 1), key x ≠ k

instance [DecidableEq κ] (key : α → κ) (k : κ) (l : List α) (i : Nat) :
    Decidable (SwapSafeIn key k l i) :=
  inferInstanceAs
    (Decidable (∀ y ∈ l.getLast?, key y = k → ∀ x ∈ l.dropLast.drop (i + 1), key x ≠ k))

/-- The entries of lane `k`, in array order. -/
def lane [DecidableEq κ] (key : α → κ) (k : κ) (l : List α) : List α :=
  l.filter fun x => key x = k

section Lanes
variable [DecidableEq κ] {key : α → κ} {k : κ}

@[simp] theorem lane_nil : lane key k [] = [] := rfl

@[simp] theorem lane_append (l₁ l₂ : List α) :
    lane key k (l₁ ++ l₂) = lane key k l₁ ++ lane key k l₂ := by
  simp [lane]

theorem lane_cons_pos {x : α} {l : List α} (h : key x = k) :
    lane key k (x :: l) = x :: lane key k l := by
  simp [lane, h]

theorem lane_cons_neg {x : α} {l : List α} (h : key x ≠ k) :
    lane key k (x :: l) = lane key k l := by
  simp [lane, h]

theorem lane_eq_nil {l : List α} : lane key k l = [] ↔ ∀ x ∈ l, key x ≠ k := by
  simp [lane, List.filter_eq_nil_iff]

theorem SwapSafe.safeIn {l : List α} {i : Nat} (h : SwapSafe key l i) (k : κ) :
    SwapSafeIn key k l i := by
  intro y hy hk x hx
  rw [← hk]
  exact h x hx y hy

/-- A deletion that is safe for a lane is, there, the plain order-preserving deletion. -/
theorem lane_swapRemove {l : List α} {i : Nat} (h : i < l.length) (hs : SwapSafeIn key k l i) :
    lane key k (swapRemove l i) = lane key k (l.eraseIdx i) := by
  rcases swapRemove_cases h with ⟨pre, x, rfl, rfl, he⟩ | ⟨pre, x, mid, y, rfl, rfl, he⟩
  · rw [he, List.eraseIdx_append_of_length_le (Nat.le_refl _)]
    simp
  · rw [he, List.eraseIdx_append_of_length_le (Nat.le_refl _)]
    by_cases hy : key y = k
    · have hmid : ∀ z ∈ mid, key z ≠ k := by
        intro z hz
        rw [← List.cons_append, ← List.append_assoc] at hs
        refine hs y (by rw [List.getLast?_concat]; rfl) hy z ?_
        rw [List.dropLast_concat]
        simpa using hz
      have hnil : lane key k mid = [] := lane_eq_nil.mpr hmid
      simp [lane_cons_pos hy, hnil]
    · simp [lane_cons_neg hy]

/-- Entry `i` is the first of its lane. -/
def IsFirst (key : α → κ) (l : List α) (i : Nat) : Prop :=
  ∃ x, l[i]? = some x ∧ ∀ z ∈ l.take i, key z ≠ key x

omit [DecidableEq κ] in
theorem IsFirst.lt {l : List α} {i : Nat} (h : IsFirst key l i) : i < l.length := by
  obtain ⟨x, hx, -⟩ := h
  exact (List.getElem?_eq_some_iff.mp hx).1

/-- A search from the beginning finds the first entry of the lane. -/
theorem isFirst_of_findIdx? {l : List α} {i : Nat}
    (h : (l.findIdx? fun x => key x = k) = some i) :
    IsFirst key l i ∧ ∃ x, l[i]? = some x ∧ key x = k := by
  obtain ⟨hlt, hi, hbefore⟩ := List.findIdx?_eq_some_iff_getElem.mp h
  have hk : key l[i] = k := by simpa using hi
  refine ⟨⟨l[i], by simp, ?_⟩, l[i], by simp, hk⟩
  intro z hz
  obtain ⟨j, hj, rfl⟩ := List.mem_take_iff_getElem.mp hz
  simpa [hk] using hbefore j (by omega)

/-- The head of a lane is what a search from the beginning finds. -/
theorem findIdx?_of_head?_lane {l : List α} {x : α} (h : x ∈ (lane key k l).head?) :
    ∃ i, (l.findIdx? fun x => key x = k) = some i ∧ l[i]? = some x := by
  rw [lane, List.head?_filter, Option.mem_def, List.find?_eq_some_iff_getElem] at h
  obtain ⟨hx, i, hi, hget, hbefore⟩ := h
  refine ⟨i, List.findIdx?_eq_some_iff_getElem.mpr ⟨hi, ?_, ?_⟩, ?_⟩
  · rw [hget]
    exact hx
  · intro j hj
    simpa using hbefore j hj
  · rw [List.getElem?_eq_getElem hi, hget]

theorem findIdx?_of_head?_lane_none {l : List α} (h : (lane key k l).head? = none) :
    (l.findIdx? fun x => key x = k) = none := by
  rw [List.head?_eq_none_iff, lane_eq_nil] at h
  rw [List.findIdx?_eq_none_iff]
  intro x hx
  exact decide_eq_false (h x hx)

/-- Erasing the first entry of a lane pops that lane and leaves the others alone. -/
theorem lane_of_isFirst {l : List α} {i : Nat} (h : IsFirst key l i) {x : α}
    (hx : l[i]? = some x) :
    lane key k l = (if key x = k then [x] else []) ++ lane key k (l.eraseIdx i) := by
  obtain ⟨x', hx', hfirst⟩ := h
  obtain rfl : x' = x := Option.some.inj (hx' ▸ hx)
  obtain ⟨hlt, hget⟩ := List.getElem?_eq_some_iff.mp hx'
  rw [List.eraseIdx_eq_take_drop_succ]
  conv_lhs => rw [← List.take_append_drop i l, ← List.getElem_cons_drop hlt, hget]
  by_cases hk : key x' = k
  · have hnil : lane key k (l.take i) = [] := lane_eq_nil.mpr (hk ▸ hfirst)
    simp [lane_cons_pos hk, hnil, hk]
  · simp [lane_cons_neg hk, hk]

end Lanes

/-! ## The abstract first-in first-out lanes -/

/-- What happens to a queue: an entry is queued, entry `i` of the queue `q` is handed over (and
deleted), entry `i` of the queue `q` is dropped (deleted without being handed over). -/
inductive QueueEvent (α : Type) where
  | queued (x : α)
  | handed (q : List α) (i : Nat)
  | dropped (q : List α) (i : Nat)
  deriving DecidableEq

/-- The deletion an event performs is order-safe. -/
def QueueEvent.Safe [DecidableEq κ] (key : α → κ) : QueueEvent α → Prop
  | .queued _ => True
  | .handed q i => SwapSafe key q i
  | .dropped q i => SwapSafe key q i

instance [DecidableEq κ] (key : α → κ) (e : QueueEvent α) : Decidable (e.Safe key) :=
  match e with
  | .queued _ => isTrue trivial
  | .handed q i => inferInstanceAs (Decidable (SwapSafe key q i))
  | .dropped q i => inferInstanceAs (Decidable (SwapSafe key q i))

/-- The deletion an event performs is order-safe for lane `k`. -/
def QueueEvent.SafeIn [DecidableEq κ] (key : α → κ) (k : κ) : QueueEvent α → Prop
  | .queued _ => True
  | .handed q i => SwapSafeIn key k q i
  | .dropped q i => SwapSafeIn key k q i

instance [DecidableEq κ] (key : α → κ) (k : κ) (e : QueueEvent α) : Decidable (e.SafeIn key k) :=
  match e with
  | .queued _ => isTrue trivial
  | .handed q i => inferInstanceAs (Decidable (SwapSafeIn key k q i))
  | .dropped q i => inferInstanceAs (Decidable (SwapSafeIn key k q i))

theorem QueueEvent.Safe.safeIn [DecidableEq κ] {key : α → κ} {e : QueueEvent α} (h : e.Safe key)
    (k : κ) : e.SafeIn key k := by
  cases e with
  | queued x => trivial
  | handed q i => exact SwapSafe.safeIn h k
  | dropped q i => exact SwapSafe.safeIn h k

section Fifo
variable [DecidableEq α] [DecidableEq κ] (key : α → κ) (k : κ)

/-- Lane `k` of the abstract machine: entries join at the end, and an entry may be handed over
only when it is the oldest one still waiting. -/
def fifoStep (waiting : List α) : QueueEvent α → Option (List α)
  | .queued x => some (if key x = k then waiting ++ [x] else waiting)
  | .handed q i =>
    match q[i]? with
    | none => none
    | some x =>
      if key x = k then
        match waiting with
        | [] => none
        | y :: rest => if x = y then some rest else none
      else some waiting
  | .dropped q i =>
    match q[i]? with
    | none => none
    | some x => some (if key x = k then waiting.erase x else waiting)

/-- The abstract machine on a sequence of events: `none` as soon as an entry is handed over out
of turn, otherwise the entries still waiting. -/
def fifo (waiting : List α) : List (QueueEvent α) → Option (List α)
  | [] => some waiting
  | e :: es => (fifoStep key k waiting e).bind fun w => fifo w es

end Fifo

/-! ## Order of delivery -/

/-- The entry an event adds to the queue. -/
def QueueEvent.joining : QueueEvent α → List α
  | .queued x => [x]
  | _ => []

/-- The entry an event hands over. -/
def QueueEvent.leaving : QueueEvent α → List α
  | .handed q i => q[i]?.toList
  | _ => []

/-- The entry an event loses. -/
def QueueEvent.lost : QueueEvent α → List α
  | .dropped q i => q[i]?.toList
  | _ => []

section Order
variable [DecidableEq κ] (key : α → κ) (k : κ)

/-- The entries of lane `k` that were queued, in order. -/
def queuedIn (es : List (QueueEvent α)) : List α := lane key k (es.flatMap QueueEvent.joining)

/-- The entries of lane `k` that were handed over, in order. -/
def handedIn (es : List (QueueEvent α)) : List α := lane key k (es.flatMap QueueEvent.leaving)

/-- The entries of lane `k` that were dropped, in order. -/
def lostIn (es : List (QueueEvent α)) : List α := lane key k (es.flatMap QueueEvent.lost)

theorem handedIn_append (es es' : List (QueueEvent α)) :
    handedIn key k (es ++ es') = handedIn key k es ++ handedIn key k es' := by
  simp [handedIn]

theorem lostIn_append (es es' : List (QueueEvent α)) :
    lostIn key k (es ++ es') = lostIn key k es ++ lostIn key k es' := by
  simp [lostIn]

/-- Starting with `waiting` and ending with `waiting'`, entries of lane `k` were handed over in the
order in which they were queued: those handed over, then those still waiting, are among those that
waited, then those that joined, in the same order; and they are exactly those when none was lost. -/
def HandedInOrder (waiting : List α) (es : List (QueueEvent α)) (waiting' : List α) : Prop :=
  (handedIn key k es ++ waiting').Sublist (waiting ++ queuedIn key k es) ∧
    (lostIn key k es = [] → handedIn key k es ++ waiting' = waiting ++ queuedIn key k es)

instance [DecidableEq α] (w : List α) (es : List (QueueEvent α)) (w' : List α) :
    Decidable (HandedInOrder key k w es w') :=
  inferInstanceAs (Decidable (_ ∧ _))

variable [DecidableEq α] {key k}

/-- What is handed over was the oldest entry waiting in its lane. -/
theorem fifoStep_handed {q w w₁ : List α} {i : Nat}
    (h : fifoStep key k w (.handed q i) = some w₁) :
    ∃ x, q[i]? = some x ∧ w = lane key k [x] ++ w₁ := by
  simp only [fifoStep] at h
  split at h
  · cases h
  · rename_i x hx
    refine ⟨x, hx, ?_⟩
    split at h
    · rename_i hk
      rw [lane_cons_pos hk]
      split at h
      · cases h
      · split at h
        · rename_i hxy
          simp only [Option.some.injEq] at h
          rw [hxy, h]
          rfl
        · cases h
    · rename_i hk
      rw [lane_cons_neg hk]
      exact Option.some.inj h

/-- What is dropped leaves its own lane only. -/
theorem fifoStep_dropped {q w w₁ : List α} {i : Nat}
    (h : fifoStep key k w (.dropped q i) = some w₁) :
    ∃ x, q[i]? = some x ∧ w₁ = if key x = k then w.erase x else w := by
  simp only [fifoStep] at h
  split at h
  · cases h
  · rename_i x hx
    exact ⟨x, hx, (Option.some.inj h).symm⟩

/-- One step of the abstract machine before events in order. -/
theorem HandedInOrder.cons {w w₁ w' : List α} {e : QueueEvent α} {es : List (QueueEvent α)}
    (hstep : fifoStep key k w e = some w₁) (h : HandedInOrder key k w₁ es w') :
    HandedInOrder key k w (e :: es) w' := by
  obtain ⟨hsub, heq⟩ := h
  unfold HandedInOrder handedIn queuedIn lostIn at *
  simp only [List.flatMap_cons, lane_append]
  cases e with
  | queued x =>
    simp only [fifoStep, Option.some.injEq] at hstep
    subst hstep
    simp only [QueueEvent.leaving, QueueEvent.joining, QueueEvent.lost, lane_nil, List.nil_append]
    by_cases hk : key x = k
    · simpa [lane_cons_pos hk, hk] using And.intro hsub heq
    · simpa [lane_cons_neg hk, hk] using And.intro hsub heq
  | handed q i =>
    obtain ⟨x, hx, rfl⟩ := fifoStep_handed hstep
    simp only [QueueEvent.leaving, QueueEvent.joining, QueueEvent.lost, hx, Option.toList_some,
      lane_nil, List.nil_append, List.append_assoc]
    -- Handed over in front of everything that is handed over later.
    exact ⟨hsub.append_left _, fun hlost => by rw [heq hlost]⟩
  | dropped q i =>
    obtain ⟨x, hx, rfl⟩ := fifoStep_dropped hstep
    simp only [QueueEvent.leaving, QueueEvent.joining, QueueEvent.lost, hx, Option.toList_some,
      lane_nil, List.nil_append]
    by_cases hk : key x = k
    · rw [if_pos hk] at hsub
      rw [lane_cons_pos hk]
      exact ⟨hsub.trans (List.erase_sublist.append_right _), by simp⟩
    · rw [if_neg hk] at hsub heq
      rw [lane_cons_neg hk]
      exact ⟨hsub, heq⟩

/-- Whatever the abstract machine accepts is handed over in order. -/
theorem fifo_handedInOrder {w w' : List α} {es : List (QueueEvent α)}
    (h : fifo key k w es = some w') : HandedInOrder key k w es w' := by
  induction es generalizing w with
  | nil =>
    simp only [fifo, Option.some.injEq] at h
    simp [HandedInOrder, handedIn, queuedIn, h]
  | cons e es ih =>
    obtain ⟨w₁, hstep, h⟩ := Option.bind_eq_some_iff.mp h
    exact (ih h).cons hstep

end Order

/-! ## The swapping queue refines the lanes -/

/-- What the array does at each event. -/
inductive QueueStep [DecidableEq κ] (key : α → κ) : List α → QueueEvent α → List α → Prop
  | queued {q : List α} (x : α) : QueueStep key q (.queued x) (q ++ [x])
  | handed {q : List α} {i : Nat} : IsFirst key q i → QueueStep key q (.handed q i) (swapRemove q i)
  | dropped {q : List α} {i : Nat} : IsFirst key q i →
      QueueStep key q (.dropped q i) (swapRemove q i)

/-- A sequence of events. -/
inductive QueueSteps [DecidableEq κ] (key : α → κ) :
    List α → List (QueueEvent α) → List α → Prop
  | nil (q : List α) : QueueSteps key q [] q
  | cons {q q' q'' : List α} {e : QueueEvent α} {es : List (QueueEvent α)} :
      QueueStep key q e q' → QueueSteps key q' es q'' → QueueSteps key q (e :: es) q''

section Refinement
variable [DecidableEq κ] {key : α → κ}

theorem QueueSteps.single {q q' : List α} {e : QueueEvent α} (h : QueueStep key q e q') :
    QueueSteps key q [e] q' :=
  .cons h (.nil q')

theorem QueueSteps.append {q q' q'' : List α} {es es' : List (QueueEvent α)}
    (h : QueueSteps key q es q') (h' : QueueSteps key q' es' q'') :
    QueueSteps key q (es ++ es') q'' := by
  induction h with
  | nil q => exact h'
  | cons hstep _ ih => exact .cons hstep (ih h')

/-- One event accounts for one entry. -/
theorem QueueStep.perm {q q' : List α} {e : QueueEvent α} (h : QueueStep key q e q') :
    (q ++ e.joining).Perm (e.leaving ++ e.lost ++ q') := by
  cases h with
  | queued x => exact .refl _
  | handed hfirst =>
    have hperm := perm_cons_swapRemove hfirst.lt
    simpa [QueueEvent.joining, QueueEvent.leaving, QueueEvent.lost, hfirst.lt] using hperm
  | dropped hfirst =>
    have hperm := perm_cons_swapRemove hfirst.lt
    simpa [QueueEvent.joining, QueueEvent.leaving, QueueEvent.lost, hfirst.lt] using hperm

/-- What waited or joined was handed over, was lost or still waits, whatever the order. -/
theorem QueueSteps.perm {q q' : List α} {es : List (QueueEvent α)} (h : QueueSteps key q es q') :
    (q ++ es.flatMap QueueEvent.joining).Perm
      (es.flatMap QueueEvent.leaving ++ es.flatMap QueueEvent.lost ++ q') := by
  induction h with
  | nil q => simp
  | @cons q q₁ q₂ e es hstep _ ih =>
    simp only [List.flatMap_cons]
    rw [← Multiset.coe_eq_coe] at ih ⊢
    have hone := Multiset.coe_eq_coe.mpr hstep.perm
    simp only [← Multiset.coe_add] at ih hone ⊢
    rw [← add_assoc, hone, add_assoc, ih]
    abel

/-- Of one lane, nothing is handed over that neither waited nor joined, and nothing twice. -/
theorem QueueSteps.handedIn_subperm {q q' : List α} {es : List (QueueEvent α)}
    (h : QueueSteps key q es q') (k : κ) :
    (handedIn key k es).Subperm (lane key k q ++ queuedIn key k es) := by
  have hperm := h.perm.filter fun x => key x = k
  rw [List.filter_append, List.filter_append, List.filter_append, List.append_assoc] at hperm
  exact (List.sublist_append_left _ _).subperm.trans hperm.symm.subperm

/-- The loop that deletes the entries of lane `k` from index `i` on, with `n` entries left to visit:
a deletion leaves the index where it is, since another entry has taken the place. -/
def dropAll (key : α → κ) (k : κ) : Nat → List α → Nat → List α × List (QueueEvent α)
  | 0, l, _ => (l, [])
  | n + 1, l, i =>
    match l[i]? with
    | none => (l, [])
    | some x =>
      if key x = k then
        let r := dropAll key k n (swapRemove l i) i
        (r.1, .dropped l i :: r.2)
      else dropAll key k n l (i + 1)

/-- The loop deletes exactly the entries of the lane, first one first. -/
theorem dropAll_spec {k : κ} {n i : Nat} {l : List α} (hn : i + n = l.length)
    (hbefore : ∀ x ∈ l.take i, key x ≠ k) :
    QueueSteps key l (dropAll key k n l i).2 (dropAll key k n l i).1 ∧
      (dropAll key k n l i).1.Perm (l.filter fun x => key x ≠ k) := by
  -- Before index `i` there is no entry with this key, so entry `i` is the first.
  induction n generalizing i l with
  | zero =>
    rw [List.take_of_length_le (by omega)] at hbefore
    refine ⟨.nil l, ?_⟩
    rw [List.filter_eq_self.mpr (by simpa using hbefore), dropAll]
  | succ n ih =>
    have hi : i < l.length := by omega
    rw [dropAll, List.getElem?_eq_getElem hi]
    by_cases hk : key l[i] = k
    · obtain ⟨hsteps, hperm⟩ := ih (l := swapRemove l i) (i := i)
        (by rw [length_swapRemove]; omega) (by rwa [take_swapRemove hi])
      simp only [if_pos hk]
      refine ⟨.cons (.dropped ⟨l[i], by simp, ?_⟩) hsteps, hperm.trans ?_⟩
      · rw [hk]
        exact hbefore
      · have hfilter := (perm_cons_swapRemove hi).filter fun x => key x ≠ k
        rw [List.filter_cons_of_neg (by simpa using hk)] at hfilter
        exact hfilter.symm
    · simp only [if_neg hk]
      refine ih (by omega) ?_
      intro x hx
      rw [List.take_add_one, List.mem_append, List.getElem?_eq_getElem hi] at hx
      rcases hx with hx | hx
      · exact hbefore x hx
      · obtain rfl := List.mem_singleton.mp hx
        exact hk

/-- Each event of the loop drops an entry of the lane. -/
theorem mem_dropAll {k : κ} {n i : Nat} {l : List α} {e : QueueEvent α}
    (h : e ∈ (dropAll key k n l i).2) : ∃ q j x, e = .dropped q j ∧ q[j]? = some x ∧ key x = k := by
  induction n generalizing i l with
  | zero => simp [dropAll] at h
  | succ n ih =>
    rw [dropAll] at h
    cases hx : l[i]? with
    | none => simp [hx] at h
    | some x =>
      simp only [hx] at h
      split at h
      · rename_i hk
        rcases List.mem_cons.mp h with rfl | h
        · exact ⟨l, i, x, rfl, hx, hk⟩
        · exact ih h
      · exact ih h

/-- Run over the whole queue, the loop empties the lane. -/
theorem dropAll_from_zero (key : α → κ) (k : κ) (l : List α) :
    QueueSteps key l (dropAll key k l.length l 0).2 (dropAll key k l.length l 0).1 ∧
      (dropAll key k l.length l 0).1.Perm (l.filter fun x => key x ≠ k) :=
  dropAll_spec (Nat.zero_add l.length) (by simp)

/-- Deleting the first entry of a lane by a safe swap pops that lane. -/
theorem lane_of_safe {q : List α} {i : Nat} {k : κ} (hfirst : IsFirst key q i)
    (hs : SwapSafeIn key k q i) :
    ∃ x, q[i]? = some x ∧
      lane key k q = (if key x = k then [x] else []) ++ lane key k (swapRemove q i) := by
  obtain ⟨x, hx, -⟩ := id hfirst
  refine ⟨x, hx, ?_⟩
  rw [lane_swapRemove hfirst.lt hs]
  exact lane_of_isFirst hfirst hx

variable [DecidableEq α]

/-- One event that is safe for a lane keeps that lane in step with the abstract machine. -/
theorem QueueStep.fifoStep_eq {q q' : List α} {e : QueueEvent α} {k : κ}
    (h : QueueStep key q e q') (hs : e.SafeIn key k) :
    fifoStep key k (lane key k q) e = some (lane key k q') := by
  cases h with
  | queued x =>
    by_cases hk : key x = k
    · simp [fifoStep, hk, lane_cons_pos hk]
    · simp [fifoStep, hk, lane_cons_neg hk]
  | @handed i hfirst =>
    obtain ⟨x, hx, hlane⟩ := lane_of_safe hfirst hs
    by_cases hk : key x = k
    · simp [fifoStep, hx, hlane, hk]
    · simp [fifoStep, hx, hlane, hk]
  | @dropped i hfirst =>
    obtain ⟨x, hx, hlane⟩ := lane_of_safe hfirst hs
    by_cases hk : key x = k
    · simp [fifoStep, hx, hlane, hk]
    · simp [fifoStep, hx, hlane, hk]

/-- **Refinement**: as long as every deletion is safe for a lane, that lane of the array is the
waiting list of the abstract first-in first-out machine. -/
theorem QueueSteps.fifo {q q' : List α} {es : List (QueueEvent α)} {k : κ}
    (h : QueueSteps key q es q') (hs : ∀ e ∈ es, e.SafeIn key k) :
    Lib.fifo key k (lane key k q) es = some (lane key k q') := by
  induction h with
  | nil q => rfl
  | @cons q q₁ q₂ e es hstep _ ih =>
    have he := hstep.fifoStep_eq (hs e (by simp))
    rw [Lib.fifo, he]
    exact ih fun e' he' => hs e' (by simp [he'])

end Refinement

end LibIpc.Lib

import LibIpc.C.View

/-!
# Removing the messages of a descriptor (`ipc_remove_messages_for_fd`)

The loop with its machine integers: the index and the bound are `size_t`, and the index that
`ipc_messages_del` takes is a `uint32_t`. After a deletion the index goes back by one, below zero at
the first entry, and comes forward again. The loop always ends, within the queue; it deletes what it
should exactly when no message of the descriptor is met at an index above 32 bits. Below that size
it is the loop of `Context`.
-/

namespace LibIpc.C

open Lib

/-! ## The loop -/

/-- `i--` on a `size_t`. -/
def sizePred (i : Nat) : Nat := (i + (2 ^ 64 - 1)) % 2 ^ 64

/-- `i++` on a `size_t`. -/
def sizeSucc (i : Nat) : Nat := (i + 1) % 2 ^ 64

/-- Going back and forth, also below zero. -/
theorem sizeSucc_sizePred {i : Nat} (h : i < 2 ^ 64) : sizeSucc (sizePred i) = i := by
  unfold sizeSucc sizePred
  omega

theorem sizeSucc_of_lt {i : Nat} (h : i + 1 < 2 ^ 64) : sizeSucc i = i + 1 := Nat.mod_eq_of_lt h

theorem sizePred_of_pos {i : Nat} (hpos : 0 < i) (h : i < 2 ^ 64) : sizePred i = i - 1 := by
  unfold sizePred
  omega

/-- The variables of the loop. -/
structure RemovingState where
  tx : IpcMessages
  i : Nat
  loopingCount : Nat

/-- One round of the loop, with the `i++` that ends it; `none` when it reads outside the queue. -/
def removingRound (fd : Fd) (s : RemovingState) : Option RemovingState := do
  let messages ← s.tx.messages.block s.tx.size
  let m ← messages[s.i]?
  if m.fd = fd then
    let emptied := { s.tx with messages := some (messages.set s.i (ipcMessageEmpty m)) }
    -- `i` is passed as a `uint32_t`.
    let (_, tx) ← ipcMessagesDel emptied (s.i % 2 ^ 32)
    return { tx := tx, i := sizeSucc (sizePred s.i), loopingCount := sizePred s.loopingCount }
  else
    return { s with i := sizeSucc s.i }

/-- Where a loop that may not end stands after some rounds. -/
inductive LoopResult where
  | ended (tx : IpcMessages)
  | undefined
  | running

/-- At most so many rounds of the loop. -/
def removingLoop (fd : Fd) : Nat → RemovingState → LoopResult
  | 0, s => if s.i < s.loopingCount then .running else .ended s.tx
  | n + 1, s =>
    if s.i < s.loopingCount then
      match removingRound fd s with
      | none => .undefined
      | some s' => removingLoop fd n s'
    else .ended s.tx

/-- The messages of a queue; their number is a `size_t`. -/
abbrev TxQueue := { l : List IpcMessage // l.length < 2 ^ 64 }

/-- `ipc_remove_messages_for_fd` on this queue, followed for as many rounds as it has messages. -/
def removeMessagesForFd (fd : Fd) (q : TxQueue) : LoopResult :=
  removingLoop fd q.1.length { tx := .ofList q.1, i := 0, loopingCount := q.1.length }

/-- The loop ends without reading outside the queue and leaves the messages of the other
descriptors, with no block when there is none. -/
def RemovesMessages (fd : Fd) (q : TxQueue) : Prop :=
  ∃ l, removeMessagesForFd fd q = .ended (.ofList l) ∧
    l.Perm (q.1.filter fun m => m.fd ≠ fd) ∧
    ((IpcMessages.ofList l).messages = none ↔ ∀ m ∈ q.1, m.fd = fd)

/-- How many messages of other descriptors there are. -/
def otherMessages (fd : Fd) (l : List IpcMessage) : Nat := l.countP fun m => m.fd ≠ fd

/-- From index `i` on, a message of `fd` stands at an index that is no `uint32_t`, and not behind
the place where the messages of the others end. -/
def MeetsPastIndex (fd : Fd) (l : List IpcMessage) (i : Nat) : Prop :=
  ∃ j m, i ≤ j ∧ 2 ^ 32 ≤ j ∧ j ≤ otherMessages fd l ∧ l[j]? = some m ∧ m.fd = fd

/-! ## The loop on lists -/

/-- The loop on the messages, with `n` left to visit: the deletion takes the entry at the index
reduced to 32 bits. -/
def dropReduced (fd : Fd) : Nat → List IpcMessage → Nat → List IpcMessage
  | 0, l, _ => l
  | n + 1, l, i =>
    match l[i]? with
    | none => l
    | some m =>
      if m.fd = fd then
        dropReduced fd n (swapRemove (l.set i (ipcMessageEmpty m)) (i % 2 ^ 32)) i
      else dropReduced fd n l (i + 1)

section
variable {fd : Fd} {l : List IpcMessage} {i n : Nat}

theorem dropReduced_match (h : i < l.length) (hm : l[i].fd = fd) :
    dropReduced fd (n + 1) l i =
      dropReduced fd n (swapRemove (l.set i (ipcMessageEmpty l[i])) (i % 2 ^ 32)) i := by
  rw [dropReduced, List.getElem?_eq_getElem h]
  exact if_pos hm

theorem dropReduced_other (h : i < l.length) (hm : l[i].fd ≠ fd) :
    dropReduced fd (n + 1) l i = dropReduced fd n l (i + 1) := by
  rw [dropReduced, List.getElem?_eq_getElem h]
  exact if_neg hm

theorem removingRound_match (h : i < l.length) (hl : l.length < 2 ^ 64) (hm : l[i].fd = fd) :
    removingRound fd { tx := .ofList l, i := i, loopingCount := l.length } =
      some { tx := .ofList (swapRemove (l.set i (ipcMessageEmpty l[i])) (i % 2 ^ 32)), i := i,
             loopingCount := l.length - 1 } := by
  have hreduced : i % 2 ^ 32 < (l.set i (ipcMessageEmpty l[i])).length := by
    rw [List.length_set]
    exact Nat.lt_of_le_of_lt (Nat.mod_le _ _) h
  simp only [removingRound, IpcMessages.ofList_size, IpcMessages.block_ofList, Option.bind_eq_bind,
    Option.bind_some, List.getElem?_eq_getElem h, if_pos hm, ofList_set_messages h,
    ipcMessagesDel_ofList hreduced, sizeSucc_sizePred (Nat.lt_trans h hl),
    sizePred_of_pos (Nat.zero_lt_of_lt h) hl, Option.pure_def]

theorem removingRound_other (h : i < l.length) (hl : l.length < 2 ^ 64) (hm : l[i].fd ≠ fd) :
    removingRound fd { tx := .ofList l, i := i, loopingCount := l.length } =
      some { tx := .ofList l, i := i + 1, loopingCount := l.length } := by
  have hsucc : i + 1 < 2 ^ 64 := Nat.lt_of_le_of_lt h hl
  simp only [removingRound, IpcMessages.ofList_size, IpcMessages.block_ofList, Option.bind_eq_bind,
    Option.bind_some, List.getElem?_eq_getElem h, if_neg hm, sizeSucc_of_lt hsucc, Option.pure_def]

/-- Each round brings the index and the bound one closer, so that the loop ends. -/
theorem removingLoop_ofList (hn : i + n = l.length) (hl : l.length < 2 ^ 64) :
    removingLoop fd n { tx := .ofList l, i := i, loopingCount := l.length } =
      .ended (.ofList (dropReduced fd n l i)) := by
  induction n generalizing i l with
  | zero =>
    rw [removingLoop, if_neg (by show ¬ i < l.length; omega), dropReduced]
  | succ n ih =>
    have hi : i < l.length := by omega
    rw [removingLoop, if_pos hi]
    by_cases hm : l[i].fd = fd
    · rw [removingRound_match hi hl hm, dropReduced_match hi hm]
      have hlength : (swapRemove (l.set i (ipcMessageEmpty l[i])) (i % 2 ^ 32)).length =
          l.length - 1 := by
        rw [length_swapRemove, List.length_set]
      rw [← hlength]
      exact ih (by omega) (by omega)
    · rw [removingRound_other hi hl hm, dropReduced_other hi hm]
      exact ih (by omega) hl

/-! ## What is left -/

theorem otherMessages_swapRemove (h : i < l.length) :
    otherMessages fd l = otherMessages fd (swapRemove l i) + if l[i].fd ≠ fd then 1 else 0 := by
  rw [otherMessages, (perm_cons_swapRemove h).countP_eq, List.countP_cons, otherMessages]
  simp

/-- Emptying a message of `fd` counts for nothing. -/
theorem otherMessages_set (h : i < l.length) (hm : l[i].fd = fd) :
    otherMessages fd (l.set i (ipcMessageEmpty l[i])) = otherMessages fd l := by
  have hempty : (ipcMessageEmpty l[i]).fd = l[i].fd := rfl
  rw [otherMessages, List.countP_set h, hempty]
  simp [hm, otherMessages]

/-- The loop never adds a message. -/
theorem otherMessages_dropReduced_le (fd : Fd) (n : Nat) (l : List IpcMessage) (i : Nat) :
    otherMessages fd (dropReduced fd n l i) ≤ otherMessages fd l := by
  induction n generalizing l i with
  | zero => exact Nat.le_refl _
  | succ n ih =>
    rcases Nat.lt_or_ge i l.length with hi | hi
    · by_cases hm : l[i].fd = fd
      · have hreduced : i % 2 ^ 32 < (l.set i (ipcMessageEmpty l[i])).length := by
          rw [List.length_set]
          exact Nat.lt_of_le_of_lt (Nat.mod_le _ _) hi
        rw [dropReduced_match hi hm, ← otherMessages_set hi hm, otherMessages_swapRemove hreduced]
        exact (ih _ i).trans (Nat.le_add_right _ _)
      · rw [dropReduced_other hi hm]
        exact ih l (i + 1)
    · rw [dropReduced, List.getElem?_eq_none hi]

/-- Behind the deleted entry, all entries but the last stay where they are. -/
theorem getElem?_swapRemove_of_lt {j : Nat} (h : i < j) :
    (swapRemove l i)[j]? = if j + 1 < l.length then l[j]? else none := by
  cases l using List.reverseRecOn with
  | nil => simp
  | append_singleton l y =>
    rw [swapRemove_concat, List.getElem?_dropLast, List.getElem?_set_ne (Nat.ne_of_lt h)]
    simp

/-- Two messages of `fd` leave no room for so many others that the last place is within them. -/
theorem succ_lt_of_match {j : Nat} {m : IpcMessage} (h : i < l.length) (hm : l[i].fd = fd)
    (hij : i < j) (hj : l[j]? = some m) (hmj : m.fd = fd) (hle : j ≤ otherMessages fd l) :
    j + 1 < l.length := by
  obtain ⟨hlt, hget⟩ := List.getElem?_eq_some_iff.mp hj
  have hne : i ≠ j := Nat.ne_of_lt hij
  -- Without `l[i]`, `l[j]` is still there and still of `fd`.
  have hperm := perm_cons_swapRemove h
  have hcount : otherMessages fd l = otherMessages fd (swapRemove l i) := by
    rw [otherMessages_swapRemove h]
    simp [hm]
  have hmem : m ∈ swapRemove l i := by
    have htwo := hperm.count_eq m
    have hpos : 0 < (l.eraseIdx i).count m := by
      rw [List.count_pos_iff, List.mem_eraseIdx_iff_getElem]
      exact ⟨j, hlt, hne.symm, hget⟩
    have herase := (List.getElem_cons_eraseIdx_perm h).count_eq m
    rw [List.count_cons] at htwo herase
    rw [← List.count_pos_iff]
    omega
  have hlt' : otherMessages fd (swapRemove l i) < (swapRemove l i).length := by
    refine Nat.lt_of_le_of_ne List.countP_le_length ?_
    intro heq
    have hall := List.countP_eq_length.mp heq m hmem
    simp [hmj] at hall
  rw [length_swapRemove] at hlt'
  omega

/-- A deletion at an index that fits leaves what is met later as it was. -/
theorem meetsPastIndex_swapRemove (h : i < l.length) (hm : l[i].fd = fd) (hfits : i < 2 ^ 32) :
    MeetsPastIndex fd (swapRemove l i) i ↔ MeetsPastIndex fd l i := by
  have hcount : otherMessages fd l = otherMessages fd (swapRemove l i) := by
    rw [otherMessages_swapRemove h]
    simp [hm]
  unfold MeetsPastIndex
  rw [hcount]
  constructor
  · intro hmeets
    obtain ⟨j, m, hij, hwide, hle, hj, hmj⟩ := hmeets
    rw [getElem?_swapRemove_of_lt (Nat.lt_of_lt_of_le hfits hwide)] at hj
    split at hj
    · exact ⟨j, m, hij, hwide, hle, hj, hmj⟩
    · cases hj
  · intro hmeets
    obtain ⟨j, m, hij, hwide, hle, hj, hmj⟩ := hmeets
    have hlt : i < j := Nat.lt_of_lt_of_le hfits hwide
    refine ⟨j, m, hij, hwide, hle, ?_, hmj⟩
    rw [getElem?_swapRemove_of_lt hlt, if_pos (succ_lt_of_match h hm hlt hj hmj (hcount ▸ hle)), hj]

/-- The loop keeps the other messages exactly when every index it deletes at fits. -/
theorem dropReduced_perm_iff (hn : i + n = l.length) (hbefore : ∀ m ∈ l.take i, m.fd ≠ fd) :
    (dropReduced fd n l i).Perm (l.filter fun m => m.fd ≠ fd) ↔ ¬ MeetsPastIndex fd l i := by
  induction n generalizing i l with
  | zero =>
    rw [List.take_of_length_le (by omega)] at hbefore
    rw [dropReduced, List.filter_eq_self.mpr (by simpa using hbefore)]
    refine iff_of_true (List.Perm.refl l) ?_
    intro hmeets
    obtain ⟨j, m, hij, -, -, hj, -⟩ := hmeets
    obtain ⟨hlt, -⟩ := List.getElem?_eq_some_iff.mp hj
    omega
  | succ n ih =>
    have hi : i < l.length := by omega
    by_cases hm : l[i].fd = fd
    · rw [dropReduced_match hi hm]
      by_cases hfits : i < 2 ^ 32
      · -- The entry that is deleted is the one that was met.
        rw [Nat.mod_eq_of_lt hfits, swapRemove_set _ _ _ hi, ← meetsPastIndex_swapRemove hi hm hfits,
          ← ih (by rw [length_swapRemove]; omega) (by rwa [take_swapRemove hi])]
        have hfilter := (perm_cons_swapRemove hi).filter fun m => m.fd ≠ fd
        rw [List.filter_cons_of_neg (by simpa using hm)] at hfilter
        exact ⟨fun h => h.trans hfilter, fun h => h.trans hfilter.symm⟩
      · -- Another message is deleted in its place, one of those already passed.
        have hwide : 2 ^ 32 ≤ i := Nat.le_of_not_lt hfits
        have hreduced : i % 2 ^ 32 < i :=
          Nat.lt_of_lt_of_le (Nat.mod_lt _ (Nat.two_pow_pos 32)) hwide
        have hprefix : i ≤ otherMessages fd l := by
          have hall : (l.take i).countP (fun m => m.fd ≠ fd) = (l.take i).length :=
            List.countP_eq_length.mpr (by simpa using hbefore)
          rw [List.length_take, Nat.min_eq_left hi.le] at hall
          rw [← hall]
          exact (List.take_sublist i l).countP_le
        refine iff_of_false ?_ (not_not.mpr
          ⟨i, l[i], Nat.le_refl i, hwide, hprefix, List.getElem?_eq_getElem hi, hm⟩)
        intro hperm
        have hother : l[i % 2 ^ 32].fd ≠ fd := by
          apply hbefore
          rw [List.mem_take_iff_getElem]
          exact ⟨i % 2 ^ 32, by omega, rfl⟩
        have hlost := otherMessages_set hi hm
        rw [otherMessages_swapRemove (i := i % 2 ^ 32) (by rw [List.length_set]; omega),
          List.getElem_set_ne (Nat.ne_of_gt hreduced), if_pos hother] at hlost
        have hleft := otherMessages_dropReduced_le fd n
          (swapRemove (l.set i (ipcMessageEmpty l[i])) (i % 2 ^ 32)) i
        have hcount := hperm.countP_eq fun m => m.fd ≠ fd
        rw [List.countP_filter] at hcount
        simp only [Bool.and_self] at hcount
        unfold otherMessages at hleft hlost
        omega
    · rw [dropReduced_other hi hm, ih (by omega)]
      · apply not_congr
        constructor
        · intro hmeets
          obtain ⟨j, m, hij, hrest⟩ := hmeets
          exact ⟨j, m, by omega, hrest⟩
        · intro hmeets
          obtain ⟨j, m, hij, hwide, hle, hj, hmj⟩ := hmeets
          refine ⟨j, m, ?_, hwide, hle, hj, hmj⟩
          rcases Nat.lt_or_eq_of_le hij with hlt | rfl
          · exact hlt
          · rw [List.getElem?_eq_getElem hi, Option.some.injEq] at hj
            exact absurd (hj ▸ hmj) hm
      · intro m hmem
        rw [List.take_add_one, List.mem_append, List.getElem?_eq_getElem hi] at hmem
        rcases hmem with hmem | hmem
        · exact hbefore m hmem
        · obtain rfl := List.mem_singleton.mp hmem
          exact hm

end

/-! ## The whole queue -/

theorem removeMessagesForFd_eq (fd : Fd) (q : TxQueue) :
    removeMessagesForFd fd q = .ended (.ofList (dropReduced fd q.1.length q.1 0)) :=
  removingLoop_ofList (Nat.zero_add _) q.2

theorem removesMessages_of_perm {fd : Fd} {q : TxQueue}
    (h : (dropReduced fd q.1.length q.1 0).Perm (q.1.filter fun m => m.fd ≠ fd)) :
    RemovesMessages fd q := by
  refine ⟨_, removeMessagesForFd_eq fd q, h, ?_⟩
  show Ptr.ofList (dropReduced fd q.1.length q.1 0) = none ↔ ∀ m ∈ q.1, m.fd = fd
  rw [Ptr.ofList_eq_none_iff, h.length_eq, List.length_eq_zero_iff, List.filter_eq_nil_iff]
  simp

theorem perm_of_removesMessages {fd : Fd} {q : TxQueue} (h : RemovesMessages fd q) :
    (dropReduced fd q.1.length q.1 0).Perm (q.1.filter fun m => m.fd ≠ fd) := by
  obtain ⟨l, hended, hperm, -⟩ := h
  rw [removeMessagesForFd_eq, LoopResult.ended.injEq] at hended
  have hl : dropReduced fd q.1.length q.1 0 = l := by
    have hptr := congrArg (fun ms => ms.messages.getD []) hended
    simpa [IpcMessages.ofList] using hptr
  rwa [hl]

/-- **Removing the messages of a descriptor**: the loop always comes to its end within the queue, and
it leaves exactly the messages of the other descriptors unless one of `fd` stands at an index of more
than 32 bits among them. -/
theorem removesMessages_iff (fd : Fd) (q : TxQueue) :
    (∃ l, removeMessagesForFd fd q = .ended (.ofList l)) ∧
      (RemovesMessages fd q ↔ ¬ MeetsPastIndex fd q.1 0) := by
  refine ⟨⟨_, removeMessagesForFd_eq fd q⟩, ?_⟩
  rw [← dropReduced_perm_iff (Nat.zero_add _) (by simp)]
  exact ⟨perm_of_removesMessages, removesMessages_of_perm⟩

/-- A message of descriptor 5 behind `n` messages of descriptor 6. -/
def queueBehind (n : Nat) (h : n < 2 ^ 63) : TxQueue where
  val := List.replicate n (.noPayload 0 0 6) ++ [.noPayload 0 0 5]
  property := by
    rw [List.length_append, List.length_replicate, List.length_singleton]
    omega

theorem not_removesMessages_queueBehind {n : Nat} (h : n < 2 ^ 63) (hwide : 2 ^ 32 ≤ n) :
    ¬ RemovesMessages 5 (queueBehind n h) := by
  intro hremoves
  refine (dropReduced_perm_iff (Nat.zero_add _) (by simp)).mp (perm_of_removesMessages hremoves) ?_
  refine ⟨n, .noPayload 0 0 5, Nat.zero_le n, hwide, ?_, ?_, rfl⟩
  · have hother : decide ((IpcMessage.noPayload 0 0 6).fd ≠ 5) = true := rfl
    rw [queueBehind, otherMessages, List.countP_append, List.countP_replicate, if_pos hother]
    exact Nat.le_add_right n _
  · rw [queueBehind, List.getElem?_append_right (by rw [List.length_replicate]),
      List.length_replicate, Nat.sub_self]
    rfl

theorem uint32_lt_allocated : 2 ^ 32 < 2 ^ 63 := by norm_num

/-- Behind 2^32 messages, one of the others is deleted in the place of the message. -/
theorem not_removesMessages_past_index :
    ¬ RemovesMessages 5 (queueBehind (2 ^ 32) uint32_lt_allocated) :=
  not_removesMessages_queueBehind _ (Nat.le_refl _)

/-! ## Queues whose indices fit -/

theorem dropReduced_eq_dropAll {fd : Fd} {l : List IpcMessage} {i n : Nat} (hn : i + n = l.length)
    (hsmall : l.length ≤ 2 ^ 32) : dropReduced fd n l i = (dropAll IpcMessage.fd fd n l i).1 := by
  induction n generalizing i l with
  | zero => rfl
  | succ n ih =>
    have hi : i < l.length := by omega
    by_cases hm : l[i].fd = fd
    · rw [dropReduced_match hi hm, Nat.mod_eq_of_lt (Nat.lt_of_lt_of_le hi hsmall),
        swapRemove_set _ _ _ hi, dropAll, List.getElem?_eq_getElem hi]
      simp only [if_pos hm]
      apply ih
      · rw [length_swapRemove]
        omega
      · rw [length_swapRemove]
        omega
    · rw [dropReduced_other hi hm, dropAll, List.getElem?_eq_getElem hi]
      simp only [if_neg hm]
      exact ih (by omega) hsmall

/-- Up to 2^32 messages, the loop with its machine integers is that of the other modules, and it
removes what it should. -/
theorem removeMessagesForFd_of_small (fd : Fd) {q : TxQueue} (hsmall : q.1.length ≤ 2 ^ 32) :
    RemovesMessages fd q ∧
      ∃ tx io, removeMessagesLoop fd q.1.length (.ofList q.1) 0 = some (tx, io) ∧
        removeMessagesForFd fd q = .ended tx := by
  have heq : dropReduced fd q.1.length q.1 0 = (dropAll IpcMessage.fd fd q.1.length q.1 0).1 :=
    dropReduced_eq_dropAll (Nat.zero_add _) hsmall
  constructor
  · apply removesMessages_of_perm
    rw [heq]
    exact (dropAll_from_zero IpcMessage.fd fd q.1).2
  · refine ⟨_, _, removeMessagesLoop_ofList fd (Nat.zero_add _), ?_⟩
    rw [removeMessagesForFd_eq, heq]

end LibIpc.C

import LibIpc.C.Network

/-!
# Receiving from any peer (`usock_recv`, `ipc_read_fd`, `default_cb_in`)

Two facts about what a peer can do to the receiving side. The loop of `usock_recv` does not look at
the result of its last `recv(2)`: `terminates_iff` says where in a message the peer must not
disappear. And whatever the peer sends, the buffer is used within its bounds: the functions with
`Traced` in their names are those of the model, with a list of what they do with the buffer.
-/

namespace LibIpc.C

open Lib

/-! ## Termination -/

/-- The bytes of an answer. -/
def RecvResult.bytes : RecvResult → List Byte
  | .ok bs => bs
  | .error _ => []

/-- All bytes received. -/
def received (rs : List RecvResult) : List Byte := rs.flatMap RecvResult.bytes

/-- What `recv(2)` promises: no more bytes than it is asked for. -/
def RecvContract (rs : List RecvResult) : Prop :=
  ∀ bs, .ok bs ∈ rs → bs.length ≤ ipcMaxMessageSize

/-- The peer closes after the answers `rs`, and `usock_recv` returns after finitely many calls. -/
def Terminates (rs : List RecvResult) : Prop :=
  ∃ n, usockRecv (rs ++ List.replicate n (.ok [])) ≠ .waiting

/-- There is an error; or nothing was sent; or the first bytes are no header, announce an empty
payload or one that is too long; or all bytes that are announced were sent. -/
def NotCut (rs : List RecvResult) : Prop :=
  (∃ e, .error e ∈ rs) ∨
    match rs with
    | .ok c :: _ =>
      c = [] ∨ c.length < ipcHeaderSize ∨ be32At c 1 = 0 ∨ ipcMaxMessageSize < be32At c 1 ∨
        be32At c 1 + ipcHeaderSize ≤ (received rs).length
    | _ => True

section Loop
variable {buf : List Byte} {msize msizeRead : Nat} {rs rs' : List RecvResult}

/-- An iteration is the last one, whatever comes later, or leaves a new state to the next one. -/
theorem usockRecvLoop_ok (buf : List Byte) (msize msizeRead : Nat) (bs : List Byte) :
    (∃ r, ∀ rs, usockRecvLoop buf msize msizeRead (.ok bs :: rs) = .returned r rs) ∨
      ∃ buf' msize' msizeRead', ∀ rs, usockRecvLoop buf msize msizeRead (.ok bs :: rs) =
        usockRecvLoop buf' msize' msizeRead' rs := by
  simp only [usockRecvLoop]
  generalize (if msize = 0 then be32At (overwrite buf bs) 1 else msize) = msize'
  by_cases hnil : bs.length = 0
  · by_cases hagain : recvAgain msize msizeRead
    · exact .inr ⟨buf, msize, msizeRead, fun rs => by rw [if_pos hnil, if_pos hagain]⟩
    · exact .inl ⟨_, fun rs => by rw [if_pos hnil, if_neg hagain]⟩
  · by_cases hlong : msize' > ipcMaxMessageSize
    · exact .inl ⟨_, fun rs => by rw [if_neg hnil, if_pos hlong]⟩
    · by_cases hagain : recvAgain msize' ((msizeRead + bs.length) % 2 ^ 32)
      · exact .inr ⟨_, _, _, fun rs => by rw [if_neg hnil, if_neg hlong, if_pos hagain]⟩
      · exact .inl ⟨_, fun rs => by rw [if_neg hnil, if_neg hlong, if_neg hagain]⟩

/-- Later answers change nothing once the call has returned. -/
theorem usockRecvLoop_append (h : usockRecvLoop buf msize msizeRead rs ≠ .waiting) :
    usockRecvLoop buf msize msizeRead (rs ++ rs') ≠ .waiting := by
  induction rs generalizing buf msize msizeRead with
  | nil => exact absurd rfl h
  | cons r rs ih =>
    cases r with
    | error e => exact nofun
    | ok bs =>
      rw [List.cons_append]
      rcases usockRecvLoop_ok buf msize msizeRead bs with ⟨r, hr⟩ | ⟨buf', msize', read', hnext⟩
      · rw [hr]
        exact nofun
      · rw [hnext] at h ⊢
        exact ih h

/-- An error is the end. -/
theorem usockRecvLoop_error {e : Errno} (h : .error e ∈ rs) :
    usockRecvLoop buf msize msizeRead rs ≠ .waiting := by
  induction rs generalizing buf msize msizeRead with
  | nil => exact absurd h List.not_mem_nil
  | cons r rs ih =>
    cases r with
    | error e => exact nofun
    | ok bs =>
      have hrest : .error e ∈ rs := by simpa using h
      rcases usockRecvLoop_ok buf msize msizeRead bs with ⟨r, hr⟩ | ⟨buf', msize', read', hnext⟩
      · rw [hr]
        exact nofun
      · rw [hnext]
        exact ih hrest

/-- The loop spins when the peer has closed in the middle of a message. -/
theorem usockRecvLoop_closed (h : recvAgain msize msizeRead) (n : Nat) :
    usockRecvLoop buf msize msizeRead (List.replicate n (.ok [])) = .waiting := by
  induction n with
  | zero => rfl
  | succ n ih => simpa [List.replicate_succ, usockRecvLoop, h] using ih

/-- Once the header is known, it depends on the number of bytes alone whether the loop comes to an
end. -/
theorem usockRecvLoop_iff (hpos : 0 < msize) (hmax : msize ≤ ipcMaxMessageSize)
    (hread : ipcHeaderSize ≤ msizeRead) (hmore : msizeRead < msize + ipcHeaderSize)
    (hrs : ∀ e, .error e ∉ rs) (hrecv : RecvContract rs) :
    (∃ n, usockRecvLoop buf msize msizeRead (rs ++ List.replicate n (.ok [])) ≠ .waiting) ↔
      msize + ipcHeaderSize ≤ msizeRead + (received rs).length := by
  have hagain : ∀ k, ipcHeaderSize ≤ k → k < 2 ^ 32 →
      (recvAgain msize k ↔ k < msize + ipcHeaderSize) := by
    intro k hk hlt
    rw [recvAgain_eq hk hlt]
    simp [hpos]
  rw [ipcMaxMessageSize_eq] at hmax
  induction rs generalizing buf msizeRead with
  | nil =>
    refine iff_of_false ?_ (by simp [received]; omega)
    rintro ⟨n, hn⟩
    exact hn (usockRecvLoop_closed ((hagain _ hread (by rw [ipcHeaderSize_eq] at *; omega)).mpr hmore) n)
  | cons r rs ih =>
    cases r with
    | error e => exact absurd List.mem_cons_self (hrs e)
    | ok bs =>
      have hrs' : ∀ e, .error e ∉ rs := fun e he => hrs e (List.mem_cons_of_mem _ he)
      have hrecv' : RecvContract rs := fun bs hbs => hrecv bs (List.mem_cons_of_mem _ hbs)
      have hbs := hrecv bs List.mem_cons_self
      rw [ipcMaxMessageSize_eq] at hbs
      have htotal : (received (.ok bs :: rs)).length = bs.length + (received rs).length := by
        simp [received, RecvResult.bytes]
      have hbound : msizeRead + bs.length < 2 ^ 32 := by
        rw [ipcHeaderSize_eq] at hmore
        omega
      rw [htotal]
      by_cases hnil : bs.length = 0
      · have hspin : ∀ rs', usockRecvLoop buf msize msizeRead (.ok bs :: rs') =
            usockRecvLoop buf msize msizeRead rs' := by
          intro rs'
          have hgoes := (hagain msizeRead hread (by omega)).mpr hmore
          simp only [usockRecvLoop, if_pos hnil, if_pos hgoes]
        simp only [List.cons_append, hspin]
        rw [hnil, Nat.zero_add]
        exact ih hread hmore hrs' hrecv'
      · have hmod : (msizeRead + bs.length) % 2 ^ 32 = msizeRead + bs.length :=
          Nat.mod_eq_of_lt hbound
        have hloop : ∀ rs', usockRecvLoop buf msize msizeRead (.ok bs :: rs') =
            if recvAgain msize (msizeRead + bs.length) then
              usockRecvLoop (overwrite buf bs) msize (msizeRead + bs.length) rs'
            else .returned (.ok (overwrite buf bs, msizeRead + bs.length)) rs' := by
          intro rs'
          simp only [usockRecvLoop, if_neg hnil, if_neg (Nat.ne_of_gt hpos), hmod]
          rw [if_neg (by rw [ipcMaxMessageSize_eq]; omega)]
        simp only [List.cons_append, hloop]
        by_cases hgoes : msizeRead + bs.length < msize + ipcHeaderSize
        · simp only [if_pos ((hagain _ (by omega) hbound).mpr hgoes)]
          rw [← Nat.add_assoc]
          exact ih (by omega) hgoes hrs' hrecv'
        · have hstops := fun h => hgoes ((hagain _ (by omega) hbound).mp h)
          simp only [if_neg hstops]
          exact iff_of_true ⟨0, by simp⟩ (by omega)

end Loop

/-- The first bytes of a peer. -/
theorem usockRecv_ok {c : List Byte} (hc : c ≠ []) (hlen : c.length < 2 ^ 32)
    (rs : List RecvResult) :
    usockRecv (.ok c :: rs) =
      if be32At c 1 > ipcMaxMessageSize then .returned (.error .usockRecvMessageSize) rs
      else if recvAgain (be32At c 1) c.length then usockRecvLoop c (be32At c 1) c.length rs
      else .returned (.ok (c, c.length)) rs := by
  have hover : overwrite [] c = c := by simp [overwrite]
  have hne : ¬ c.length = 0 := by simpa using hc
  simp only [usockRecv, usockRecvLoop, if_neg hne, hover, if_pos, Nat.zero_add,
    Nat.mod_eq_of_lt hlen]

/-- **Termination**: if `recv(2)` keeps to its contract, `usock_recv` returns after a peer that
closes exactly when the peer has not cut a message. -/
theorem terminates_iff {rs : List RecvResult} (hrecv : RecvContract rs) :
    Terminates rs ↔ NotCut rs := by
  by_cases herror : ∃ e, .error e ∈ rs
  · obtain ⟨e, he⟩ := herror
    exact iff_of_true ⟨0, usockRecvLoop_append (usockRecvLoop_error he)⟩ (.inl ⟨e, he⟩)
  have hrs : ∀ e, .error e ∉ rs := fun e he => herror ⟨e, he⟩
  cases rs with
  | nil => exact iff_of_true ⟨1, nofun⟩ (.inr trivial)
  | cons r rs =>
    cases r with
    | error e => exact absurd List.mem_cons_self (hrs e)
    | ok c =>
      have hrs' : ∀ e, .error e ∉ rs := fun e he => hrs e (List.mem_cons_of_mem _ he)
      have hrecv' : RecvContract rs := fun bs hbs => hrecv bs (List.mem_cons_of_mem _ hbs)
      have hlen := hrecv c List.mem_cons_self
      rw [ipcMaxMessageSize_eq] at hlen
      have htotal : (received (.ok c :: rs)).length = c.length + (received rs).length := by
        simp [received, RecvResult.bytes]
      simp only [NotCut, herror, false_or, htotal]
      by_cases hc : c = []
      · exact iff_of_true ⟨0, by subst hc; exact nofun⟩ (.inl hc)
      have hfirst := usockRecv_ok hc (show c.length < 2 ^ 32 by omega)
      simp only [Terminates, List.cons_append, hfirst, hc, false_or]
      by_cases hlong : be32At c 1 > ipcMaxMessageSize
      · simp only [if_pos hlong]
        exact iff_of_true ⟨0, nofun⟩ (by tauto)
      simp only [if_neg hlong]
      by_cases hshort : c.length < ipcHeaderSize
      · simp only [recvAgain_of_lt hshort (Nat.not_lt.mp hlong)]
        exact iff_of_true ⟨0, nofun⟩ (by tauto)
      have hagain := @recvAgain_eq (be32At c 1) c.length (by omega) (by omega)
      by_cases hmore : 0 < be32At c 1 ∧ c.length < be32At c 1 + ipcHeaderSize
      · rw [decide_eq_true hmore] at hagain
        simp only [if_pos hagain]
        rw [usockRecvLoop_iff hmore.1 (Nat.not_lt.mp hlong) (by omega) hmore.2 hrs' hrecv']
        constructor
        · intro hall
          exact .inr (.inr (.inr hall))
        · rintro (hs | h0 | hl | hall)
          · exact absurd hs hshort
          · omega
          · exact absurd hl hlong
          · exact hall
      · rw [decide_eq_false hmore] at hagain
        simp only [hagain]
        refine iff_of_true ⟨0, nofun⟩ ?_
        by_cases h0 : be32At c 1 = 0
        · exact .inr (.inl h0)
        · exact .inr (.inr (.inr (by omega)))

/-- The frame of a one-byte message, in two pieces. -/
theorem terminates_two_pieces : Terminates [.ok [0, 0, 0, 0, 1, 0], .ok [7]] := by
  have hrecv : RecvContract [.ok [0, 0, 0, 0, 1, 0], .ok [7]] := by
    intro bs hbs
    rw [ipcMaxMessageSize_eq]
    rcases List.mem_cons.mp hbs with h | h
    · cases h
      decide
    · cases List.mem_singleton.mp h
      decide
  exact (terminates_iff hrecv).mpr (.inr (by decide))

/-- A peer that closes after the header of a one-byte message. -/
theorem not_terminates_cut : ¬ Terminates [.ok [0, 0, 0, 0, 1, 0]] := by
  rintro ⟨n, hn⟩
  rw [List.singleton_append, usockRecv_ok (by decide) (by decide), if_neg (by decide),
    if_pos (by decide)] at hn
  exact hn (usockRecvLoop_closed (by decide) n)

/-! ## Bounds -/

/-- What is done with the receive buffer, the byte count and the payload: a range is written or
read, a chunk is added to the count, bytes are copied to an allocation. -/
inductive Access where
  | write (offset count : Nat)
  | read (offset count : Nat)
  | add (total count : Nat)
  | copy (count allocated : Nat)
  deriving DecidableEq

/-- Every index is below `IPC_MAX_MESSAGE_SIZE`, the 32-bit sum does not wrap, and the copy is as
long as its allocation. -/
def Access.InBounds : Access → Prop
  | .write offset count => ∀ i < count, offset + i < ipcMaxMessageSize
  | .read offset count => ∀ i < count, offset + i < ipcMaxMessageSize
  | .add total count => total + count < 2 ^ 32
  | .copy count allocated => count = allocated

/-- `usockRecvLoop` with its accesses. -/
def usockRecvLoopTraced (buf : List Byte) (msize msizeRead : Nat) :
    List RecvResult → RecvOutcome (List Byte × Nat) × List Access
  | [] => (.waiting, [])
  | .error e :: rs =>
    (.returned (.error (if e = .other then .usockRecvUnrecognizedError else .usockRecv)) rs, [])
  | .ok bs :: rs =>
    if bs.length = 0 then
      if recvAgain msize msizeRead then
        usockRecvLoopTraced buf msize msizeRead rs
      else
        (.returned (.error .closedRecipient) rs, [])
    else
      let written := [.write 0 bs.length]
      let buf := overwrite buf bs
      let header := if msize = 0 then [.read 1 4] else []
      let msize := if msize = 0 then be32At buf 1 else msize
      if msize > ipcMaxMessageSize then
        (.returned (.error .usockRecvMessageSize) rs, written ++ header)
      else
        let accesses := written ++ header ++ [.add msizeRead bs.length]
        let msizeRead := (msizeRead + bs.length) % 2 ^ 32
        if recvAgain msize msizeRead then
          let (r, later) := usockRecvLoopTraced buf msize msizeRead rs
          (r, accesses ++ later)
        else
          (.returned (.ok (buf, msizeRead)) rs, accesses)

/-- `ipcMessageFormatRead` with its accesses. -/
def ipcMessageFormatReadTraced (m : IpcMessage) (buf : List Byte) (msize : Nat) :
    Except IpcErrorCode IpcMessage × List Access :=
  if msize > ipcMaxMessageSize then
    (.error .messageFormatReadParamMessageSize, [])
  else
    let header := [.read 0 1, .read 1 4, .read 5 1]
    let length := be32At buf 1
    if length > ipcMaxMessageSize then
      (.error .messageFormatReadMessageTooLong, header)
    else if length ≠ (msize + 2 ^ 64 - ipcHeaderSize) % 2 ^ 64 ∧ length ≠ 0 then
      (.error .messageFormatReadReadMessageSize, header)
    else
      let payload := slice buf ipcHeaderSize length
      (.ok (m.ofBuffer buf),
        -- An empty payload is allocated, but nothing is copied.
        if length > 0 then
          header ++ [.read ipcHeaderSize length, .copy payload.length length]
        else header)

/-- `ipcReadFd` with its accesses. -/
def ipcReadFdTraced (m : IpcMessage) (rs : List RecvResult) :
    RecvOutcome IpcMessage × List Access :=
  match usockRecvLoopTraced [] 0 0 rs with
  | (.waiting, as) => (.waiting, as)
  | (.returned (.error e) rest, as) => (.returned (.error e) rest, as)
  | (.returned (.ok (buf, len)) rest, as) =>
    let (r, as') := ipcMessageFormatReadTraced m buf len
    (.returned r rest, as ++ as')

/-- `defaultCbIn` with its accesses. -/
def defaultCbInTraced (m : IpcMessage) (rs : List RecvResult) :
    Option (IpcCb × IpcMessage) × List Access :=
  match usockRecvLoopTraced [] 0 0 rs with
  | (.waiting, as) => (none, as)
  | (.returned (.error e) _, as) =>
    (some (if e = .closedRecipient then .fdClosing else .fdError, m), as)
  | (.returned (.ok (buf, msize)) _, as) =>
    if msize > 0 then
      match ipcMessageFormatReadTraced m buf msize with
      | (.error _, as') => (some (.parsingError, m), as ++ as')
      | (.ok m, as') => (some (.noError, m), as ++ as')
    else
      (some (.fdClosing, m), as)

/-! ### The traced functions are those of the model -/

theorem usockRecvLoopTraced_fst (buf : List Byte) (msize msizeRead : Nat) (rs : List RecvResult) :
    (usockRecvLoopTraced buf msize msizeRead rs).1 = usockRecvLoop buf msize msizeRead rs := by
  induction rs generalizing buf msize msizeRead with
  | nil => rfl
  | cons r rs ih =>
    cases r with
    | error e => rfl
    | ok bs =>
      simp only [usockRecvLoopTraced, usockRecvLoop]
      generalize (if msize = 0 then be32At (overwrite buf bs) 1 else msize) = msize'
      split
      · split
        · exact ih _ _ _
        · rfl
      · split
        · rfl
        · split
          · exact ih _ _ _
          · rfl

theorem ipcMessageFormatReadTraced_fst (m : IpcMessage) (buf : List Byte) (msize : Nat) :
    (ipcMessageFormatReadTraced m buf msize).1 = ipcMessageFormatRead m buf msize := by
  simp only [ipcMessageFormatReadTraced, ipcMessageFormatRead]
  split
  · rfl
  · split
    · rfl
    · split
      · rfl
      · rfl

theorem ipcReadFdTraced_fst (m : IpcMessage) (rs : List RecvResult) :
    (ipcReadFdTraced m rs).1 = ipcReadFd m rs := by
  have hrecv := usockRecvLoopTraced_fst [] 0 0 rs
  unfold ipcReadFdTraced ipcReadFd usockRecv
  rw [← hrecv]
  split
  · rename_i heq
    rw [heq]
  · rename_i heq
    rw [heq]
  · rename_i heq
    rw [heq]
    exact congrArg (RecvOutcome.returned · _) (ipcMessageFormatReadTraced_fst m _ _)

theorem defaultCbInTraced_fst (m : IpcMessage) (rs : List RecvResult) :
    (defaultCbInTraced m rs).1 = defaultCbIn m rs := by
  have hrecv := usockRecvLoopTraced_fst [] 0 0 rs
  unfold defaultCbInTraced defaultCbIn usockRecv
  rw [← hrecv]
  split
  · rename_i heq
    rw [heq]
  · rename_i heq
    rw [heq]
  · rename_i buf msize _ as heq
    have hread := ipcMessageFormatReadTraced_fst m buf msize
    simp only [heq]
    rw [← hread]
    split
    · split
      · rename_i hformat
        rw [hformat]
      · rename_i hformat
        rw [hformat]
    · rfl

/-! ### In bounds -/

/-- The loop goes on only with fewer bytes than a whole message has. -/
theorem lt_of_recvAgain {msize msizeRead : Nat} (hmax : msize ≤ ipcMaxMessageSize)
    (hread : msizeRead < 2 ^ 32) (h : recvAgain msize msizeRead) :
    msizeRead < ipcMaxMessageSize + ipcHeaderSize := by
  rw [recvAgain, decide_eq_true_eq, ipcHeaderSize_eq] at h
  rw [ipcMaxMessageSize_eq] at hmax
  rw [ipcMaxMessageSize_eq, ipcHeaderSize_eq]
  omega

theorem usockRecvLoopTraced_inBounds {buf : List Byte} {msize msizeRead : Nat}
    {rs : List RecvResult} (hrecv : RecvContract rs)
    (hread : msizeRead < ipcMaxMessageSize + ipcHeaderSize) :
    ∀ a ∈ (usockRecvLoopTraced buf msize msizeRead rs).2, a.InBounds := by
  induction rs generalizing buf msize msizeRead with
  | nil => simp [usockRecvLoopTraced]
  | cons r rs ih =>
    have hrecv' : RecvContract rs := fun bs hbs => hrecv bs (List.mem_cons_of_mem _ hbs)
    cases r with
    | error e => simp [usockRecvLoopTraced]
    | ok bs =>
      have hbs := hrecv bs List.mem_cons_self
      have hsum : msizeRead + bs.length < 2 ^ 32 := by
        rw [ipcMaxMessageSize_eq] at *
        rw [ipcHeaderSize_eq] at hread
        omega
      have hwrite : (Access.write 0 bs.length).InBounds := by
        intro i hi
        omega
      have hheader : ∀ a ∈ (if msize = 0 then [Access.read 1 4] else []), a.InBounds := by
        intro a ha
        split at ha
        · rw [List.mem_singleton.mp ha]
          intro i hi
          rw [ipcMaxMessageSize_eq]
          omega
        · exact absurd ha List.not_mem_nil
      simp only [usockRecvLoopTraced]
      generalize (if msize = 0 then [Access.read 1 4] else []) = header at hheader ⊢
      generalize (if msize = 0 then be32At (overwrite buf bs) 1 else msize) = msize'
      have hfirst : ∀ a ∈ [Access.write 0 bs.length] ++ header, a.InBounds := by
        simpa [hwrite] using hheader
      have hadd : ∀ a ∈ [Access.write 0 bs.length] ++ header ++ [.add msizeRead bs.length],
          a.InBounds := by
        intro a ha
        rcases List.mem_append.mp ha with ha | ha
        · exact hfirst a ha
        · rw [List.mem_singleton.mp ha]
          exact hsum
      split
      · split
        · exact ih hrecv' hread
        · simp
      · split
        · exact hfirst
        · rename_i hlong
          split
          · rename_i hagain
            rw [Nat.mod_eq_of_lt hsum] at hagain ⊢
            intro a ha
            rcases List.mem_append.mp ha with ha | ha
            · exact hadd a ha
            · exact ih hrecv' (lt_of_recvAgain (Nat.not_lt.mp hlong) hsum hagain) a ha
          · exact hadd

theorem ipcMessageFormatReadTraced_inBounds (m : IpcMessage) (buf : List Byte) (msize : Nat) :
    ∀ a ∈ (ipcMessageFormatReadTraced m buf msize).2, a.InBounds := by
  have hheader : ∀ a ∈ [Access.read 0 1, .read 1 4, .read 5 1], a.InBounds := by
    intro a ha
    simp only [List.mem_cons, List.not_mem_nil, or_false] at ha
    rcases ha with rfl | rfl | rfl
    all_goals
      intro i hi
      rw [ipcMaxMessageSize_eq]
      omega
  simp only [ipcMessageFormatReadTraced]
  split
  · simp
  · rename_i hsize
    split
    · exact hheader
    · split
      · exact hheader
      · rename_i hlength
        split
        · rename_i hpos
          -- The announced length is that of the bytes after the header.
          have hwhole : be32At buf 1 = (msize + 2 ^ 64 - ipcHeaderSize) % 2 ^ 64 := by
            by_contra hne
            exact hlength ⟨hne, by omega⟩
          intro a ha
          rcases List.mem_append.mp ha with ha | ha
          · exact hheader a ha
          · simp only [List.mem_cons, List.not_mem_nil, or_false] at ha
            rcases ha with rfl | rfl
            · intro i hi
              rw [ipcMaxMessageSize_eq, ipcHeaderSize_eq] at *
              omega
            · exact length_slice _ _ _
        · exact hheader

/-- **Bounds**: whatever the peer sends, as long as `recv(2)` keeps to its contract, `ipc_read_fd` and
`default_cb_in` use their buffer within its bounds, the byte count does not wrap, and the payload is
copied to an allocation of its length. -/
theorem receiving_inBounds (m : IpcMessage) {rs : List RecvResult} (hrecv : RecvContract rs) :
    ((ipcReadFdTraced m rs).1 = ipcReadFd m rs ∧ ∀ a ∈ (ipcReadFdTraced m rs).2, a.InBounds) ∧
      (defaultCbInTraced m rs).1 = defaultCbIn m rs ∧
        ∀ a ∈ (defaultCbInTraced m rs).2, a.InBounds := by
  have hloop : ∀ a ∈ (usockRecvLoopTraced [] 0 0 rs).2, a.InBounds :=
    usockRecvLoopTraced_inBounds hrecv (by decide)
  refine ⟨⟨ipcReadFdTraced_fst m rs, ?_⟩, defaultCbInTraced_fst m rs, ?_⟩
  · unfold ipcReadFdTraced
    split
    · rename_i as heq
      rwa [heq] at hloop
    · rename_i as heq
      rwa [heq] at hloop
    · rename_i buf len rest as heq
      rw [heq] at hloop
      exact List.forall_mem_append.mpr ⟨hloop, ipcMessageFormatReadTraced_inBounds m buf len⟩
  · unfold defaultCbInTraced
    split
    · rename_i as heq
      rwa [heq] at hloop
    · rename_i as heq
      rwa [heq] at hloop
    · rename_i buf msize rest as heq
      rw [heq] at hloop
      have hformat := ipcMessageFormatReadTraced_inBounds m buf msize
      split
      · split
        · rename_i as' hread
          rw [hread] at hformat
          exact List.forall_mem_append.mpr ⟨hloop, hformat⟩
        · rename_i as' hread
          rw [hread] at hformat
          exact List.forall_mem_append.mpr ⟨hloop, hformat⟩
      · exact hloop

/-- The frame of "a", all of it at once. -/
theorem receiving_inBounds_frame :
    (ipcReadFdTraced default [.ok [0, 0, 0, 0, 1, 0, 97]]).2 =
        [.write 0 7, .read 1 4, .add 0 7, .read 0 1, .read 1 4, .read 5 1, .read 6 1, .copy 1 1] ∧
      ∀ a ∈ (ipcReadFdTraced default [.ok [0, 0, 0, 0, 1, 0, 97]]).2, a.InBounds := by
  refine ⟨by decide +kernel, (receiving_inBounds default ?_).1.2⟩
  intro bs hbs
  cases List.mem_singleton.mp hbs
  rw [ipcMaxMessageSize_eq]
  decide

end LibIpc.C

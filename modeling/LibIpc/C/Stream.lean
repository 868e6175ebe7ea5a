import LibIpc.C.Usocket

/-!
# What a stream of frames becomes on the receiving side

A stream socket keeps no message boundaries: one frame may arrive in several `recv(2)` answers,
several frames may arrive in one. `usock_recv` writes every answer at the beginning of the buffer
and `ipc_message_format_read` wants the received size to be that of one frame, so both cases lose
or spoil messages. The two results say exactly when they do not:

* `reassembled_iff` — one frame, cut into any chunks;
* `readMany_deliveries_iff` — many frames, each answer carrying one or more whole ones.
-/

namespace LibIpc.C

open Lib

/-- What the receiver should get for `m`: its type, user type, length and payload, in the
structure `m₀` handed to `ipc_read_fd`. -/
def IpcMessage.received (m m₀ : IpcMessage) : IpcMessage :=
  { m with
    fd := m₀.fd
    payload := some m.content
    payload_length := by simp }

theorem IpcMessage.eq_received_iff {m₀ m m' : IpcMessage} :
    m' = m.received m₀ ↔ m'.fd = m₀.fd ∧ m'.type = m.type ∧ m'.userType = m.userType ∧
      m'.length = m.length ∧ m'.payload = some m.content := by
  obtain ⟨t, u, fd, len, p, h₁, h₂⟩ := m'
  simp only [IpcMessage.received, IpcMessage.mk.injEq]
  tauto

/-! ## Decoding a buffer -/

/-- A buffer decodes to `m` exactly when it starts with `m`'s frame. -/
theorem frame_at_iff (m : IpcMessage) (buf : List Byte) :
    (∀ i < m.frame.length, byteAt buf i = byteAt m.frame i) ↔
      byteAt buf 0 = m.type ∧ byteAt buf 5 = m.userType ∧ be32At buf 1 = m.length ∧
        slice buf ipcHeaderSize m.length = m.content := by
  have hframe := m.length_frame
  have hF1 : be32At m.frame 1 = m.length := by simpa using be32At_frame m []
  have hF6 : slice m.frame ipcHeaderSize m.length = m.content := by simpa using slice_frame m []
  rw [ipcHeaderSize_eq] at *
  constructor
  · intro h
    refine ⟨?_, ?_, ?_, ?_⟩
    · rw [h 0 (by omega)]; rfl
    · rw [h 5 (by omega)]; rfl
    · rw [be32At, h 1 (by omega), h 2 (by omega), h 3 (by omega), h 4 (by omega)]
      exact hF1
    · rw [← hF6]
      apply List.map_congr_left
      intro i hi
      exact h (6 + i) (by simp at hi; omega)
  · rintro ⟨h0, h5, hlen, hpay⟩ i hi
    -- The four length bytes follow from the decoded length, the payload bytes from the copy.
    have hbytes := ofBe32_inj (hlen.trans hF1.symm)
    obtain h | h | h | h | h | h | h :
        i = 0 ∨ i = 1 ∨ i = 2 ∨ i = 3 ∨ i = 4 ∨ i = 5 ∨ 6 ≤ i := by omega
    · subst h; exact h0
    · subst h; exact hbytes.1
    · subst h; exact hbytes.2.1
    · subst h; exact hbytes.2.2.1
    · subst h; exact hbytes.2.2.2
    · subst h; exact h5
    · obtain ⟨j, rfl⟩ := Nat.exists_eq_add_of_le h
      have hj : j < m.length := by omega
      have hcopy := hpay.trans hF6.symm
      have hb := getElem_slice buf 6 m.length j (by simpa using hj)
      have hF := getElem_slice m.frame 6 m.length j (by simpa using hj)
      rw [← hb, ← hF]
      simp only [hcopy]

/-- Decoding the right number of bytes gives `m` back exactly when they are `m`'s frame. -/
theorem ipcMessageFormatRead_frame_iff (m₀ m : IpcMessage) (buf : List Byte)
    (hm : m.frame.length ≤ ipcMaxMessageSize) :
    ipcMessageFormatRead m₀ buf m.frame.length = .ok (m.received m₀) ↔
      ∀ i < m.frame.length, byteAt buf i = byteAt m.frame i := by
  -- The subtraction does not wrap: a frame has a header.
  have hmod : (m.frame.length + 2 ^ 64 - ipcHeaderSize) % 2 ^ 64 = m.length := by
    have := m.length_lt
    rw [m.length_frame, ipcHeaderSize_eq]
    omega
  have hle : m.length ≤ ipcMaxMessageSize := by
    rw [m.length_frame] at hm
    omega
  rw [frame_at_iff, ipcMessageFormatRead, if_neg (by omega)]
  simp only [hmod]
  constructor
  · intro h
    split at h
    · cases h
    · split at h
      · cases h
      · simp only [Except.ok.injEq] at h
        obtain ⟨-, h0, h5, hlen, hpay⟩ := IpcMessage.eq_received_iff.mp h
        simp only [Option.some.injEq] at hlen hpay
        rw [hlen] at hpay
        exact ⟨h0, h5, hlen, hpay⟩
  · rintro ⟨h0, h5, hlen, hpay⟩
    rw [if_neg (by omega), if_neg (by omega)]
    simp only [Except.ok.injEq]
    apply IpcMessage.eq_received_iff.mpr
    refine ⟨rfl, h0, h5, hlen, ?_⟩
    simp only [hlen, hpay]

/-! ## One frame in many chunks -/

/-- One `ipc_read_fd` call over these `recv(2)` answers returns `m`. -/
def Reassembled (m₀ m : IpcMessage) (cs : List (List Byte)) : Prop :=
  (ipcReadFd m₀ (cs.map .ok)).value = some (m.received m₀)

instance (m₀ m : IpcMessage) (cs : List (List Byte)) : Decidable (Reassembled m₀ m cs) :=
  inferInstanceAs (Decidable (_ = _))

/-- The byte the last chunk longer than `i` has at its own index `i`; zero when no chunk is that
long. -/
def lastByteAt (cs : List (List Byte)) (i : Nat) : Byte :=
  byteAt ((cs.filter fun c => i < c.length).getLast?.getD []) i

/-- The chunks of `m`'s frame that `ipc_read_fd` puts together rightly. -/
def ArrivesIntact (m : IpcMessage) (cs : List (List Byte)) : Prop :=
  if m.length = 0 then
    (∃ c ∈ cs.head?, c.length = ipcHeaderSize) ∨ m.userType = 0
  else
    (∃ c ∈ cs.head?, ipcHeaderSize ≤ c.length) ∧
      ∀ i < m.frame.length, lastByteAt cs i = byteAt m.frame i

instance (m : IpcMessage) (cs : List (List Byte)) : Decidable (ArrivesIntact m cs) :=
  inferInstanceAs (Decidable (ite ..))

/-- Laying chunks over the buffer one after the other leaves at each index the byte of the last
chunk that reaches it. -/
theorem byteAt_foldl_overwrite (cs : List (List Byte)) (i : Nat) :
    byteAt (cs.foldl overwrite []) i = lastByteAt cs i := by
  induction cs using List.reverseRecOn with
  | nil => simp [lastByteAt]
  | append_singleton cs c ih =>
    rw [List.foldl_append, List.foldl_cons, List.foldl_nil, byteAt_overwrite, ih]
    by_cases h : i < c.length
    · simp [lastByteAt, h]
    · simp [lastByteAt, h]

section Chunks
variable {m : IpcMessage} {c : List Byte} {cs : List (List Byte)}

/-- A first chunk that holds the length field announces the right length. -/
theorem be32At_first_chunk (hF : c ++ cs.flatten = m.frame) (hc : 5 ≤ c.length) :
    be32At c 1 = m.length := by
  have h : be32At (c ++ cs.flatten) 1 = be32At c 1 := by
    simp only [be32At]
    rw [byteAt_append_left (by omega), byteAt_append_left (by omega),
      byteAt_append_left (by omega), byteAt_append_left (by omega)]
  rw [← h, hF]
  simpa using be32At_frame m []

/-- A first chunk that cuts the header never announces more than the right length. -/
theorem be32At_first_chunk_le (hF : c ++ cs.flatten = m.frame) : be32At c 1 ≤ m.length := by
  have hbyte : ∀ i, (byteAt c i).toNat ≤ (byteAt m.frame i).toNat := by
    intro i
    by_cases hi : i < c.length
    · rw [← hF, byteAt_append_left hi]
    · rw [byteAt_of_le (by omega)]; simp
  have hlen : be32At m.frame 1 = m.length := by simpa using be32At_frame m []
  have h1 := hbyte 1
  have h2 := hbyte 2
  have h3 := hbyte 3
  have h4 := hbyte 4
  rw [← hlen]
  simp only [be32At, ofBe32, Nat.reduceAdd]
  omega

/-- `usock_recv` when the first chunk holds the whole header: every chunk is taken. -/
theorem usockRecv_chunks (hm : m.frame.length ≤ ipcMaxMessageSize) (hne : ∀ d ∈ c :: cs, d ≠ [])
    (hF : c ++ cs.flatten = m.frame) (hc : ipcHeaderSize ≤ c.length) :
    usockRecv ((c :: cs).map .ok) =
      .returned (.ok ((c :: cs).foldl overwrite [], m.frame.length)) [] := by
  have hlen := m.length_frame
  have hann : be32At c 1 = m.length := be32At_first_chunk hF (by rw [ipcHeaderSize_eq] at hc; omega)
  have hsum : c.length + cs.flatten.length = m.length + ipcHeaderSize := by
    have := congrArg List.length hF
    rw [List.length_append] at this
    omega
  have hmax : m.length ≤ ipcMaxMessageSize := by omega
  have hsmall : c.length < 2 ^ 32 := by
    rw [ipcMaxMessageSize_eq] at hm; omega
  have hc0 : ¬ c.length = 0 := by rw [ipcHeaderSize_eq] at hc; omega
  simp only [List.map_cons, usockRecv, usockRecvLoop, if_neg hc0, overwrite_nil_left, if_true,
    hann, Nat.zero_add, Nat.mod_eq_of_lt hsmall]
  rw [if_neg (by omega), recvAgain_eq hc hsmall]
  -- The first chunk has the header; the loop then counts the rest.
  cases cs with
  | nil =>
    have hdone : ¬ (0 < m.length ∧ c.length < m.length + ipcHeaderSize) := by
      simp at hsum; omega
    rw [decide_eq_false hdone]
    simp at hsum
    simp [hsum, hlen, Nat.add_comm]
  | cons d ds =>
    have hd : 0 < d.length := List.length_pos_iff.mpr (hne d (by simp))
    have hmore : 0 < m.length ∧ c.length < m.length + ipcHeaderSize := by
      simp only [List.flatten_cons, List.length_append] at hsum; omega
    rw [decide_eq_true hmore, if_pos rfl, hlen, Nat.add_comm ipcHeaderSize]
    have hne' : ∀ x ∈ d :: ds, x ≠ [] := fun x hx => hne x (by simp [hx])
    have hloop := @usockRecvLoop_chunks m.length hmore.1 hmax (d :: ds) hne' (by simp) c c.length
      hc hsum []
    simpa using hloop

/-- `usock_recv` when the first chunk cuts the header: it stops after that chunk. -/
theorem usockRecv_cut_header (hm : m.frame.length ≤ ipcMaxMessageSize) (hc0 : c ≠ [])
    (hF : c ++ cs.flatten = m.frame) (hc : c.length < ipcHeaderSize) :
    usockRecv ((c :: cs).map .ok) = .returned (.ok (c, c.length)) (cs.map .ok) := by
  have hlen := m.length_frame
  have hann : be32At c 1 ≤ ipcMaxMessageSize :=
    Nat.le_trans (be32At_first_chunk_le hF) (by omega)
  have hsmall : c.length < 2 ^ 32 := by rw [ipcHeaderSize_eq] at hc; omega
  have hne : ¬ c.length = 0 := by simpa using hc0
  simp only [List.map_cons, usockRecv, usockRecvLoop, if_neg hne, overwrite_nil_left, if_true,
    Nat.zero_add, Nat.mod_eq_of_lt hsmall]
  rw [if_neg (by omega), recvAgain_of_lt hc hann]
  rfl

/-- Fewer than six bytes decode to an empty message when they announce one, and are refused
otherwise. -/
theorem ipcMessageFormatRead_cut_header (m₀ : IpcMessage) (hc : c.length < ipcHeaderSize) :
    ipcMessageFormatRead m₀ c c.length = .ok (m.received m₀) ↔
      be32At c 1 = 0 ∧ m.length = 0 ∧ byteAt c 0 = m.type ∧ m.userType = 0 := by
  -- Here it does wrap, to a length no header announces.
  have hwrap : be32At c 1 ≠ (c.length + 2 ^ 64 - ipcHeaderSize) % 2 ^ 64 := by
    have := be32At_lt c 1
    rw [ipcHeaderSize_eq] at *
    omega
  have h5 : byteAt c 5 = 0 := byteAt_of_le (by rw [ipcHeaderSize_eq] at hc; omega)
  rw [ipcMessageFormatRead, if_neg (by rw [ipcMaxMessageSize_eq]; rw [ipcHeaderSize_eq] at hc; omega)]
  by_cases h0 : be32At c 1 = 0
  · rw [if_neg (by rw [h0]; omega), if_neg (by simp [h0])]
    simp only [Except.ok.injEq]
    rw [IpcMessage.eq_received_iff]
    simp only [h0, h5]
    constructor
    · rintro ⟨-, ht, hu, hl, -⟩
      exact ⟨trivial, hl.symm, ht, hu.symm⟩
    · rintro ⟨-, hl, ht, hu⟩
      refine ⟨trivial, ht, hu.symm, hl.symm, ?_⟩
      have : m.content = [] := List.eq_nil_of_length_eq_zero (by simpa using hl)
      simp [this, slice]
  · simp only [h0, false_and, iff_false]
    split
    · simp
    · rw [if_pos ⟨hwrap, h0⟩]
      simp

/-- The whole header arrives at once: all chunks end up in the buffer, each from its start. -/
theorem reassembled_iff_lastByteAt (m₀ : IpcMessage) (hm : m.frame.length ≤ ipcMaxMessageSize)
    (hne : ∀ d ∈ c :: cs, d ≠ []) (hF : c ++ cs.flatten = m.frame)
    (hc : ipcHeaderSize ≤ c.length) :
    Reassembled m₀ m (c :: cs) ↔
      ∀ i < m.frame.length, lastByteAt (c :: cs) i = byteAt m.frame i := by
  rw [Reassembled, ipcReadFd, usockRecv_chunks hm hne hF hc]
  simp only [← byteAt_foldl_overwrite]
  rw [← ipcMessageFormatRead_frame_iff m₀ m _ hm]
  cases ipcMessageFormatRead m₀ ((c :: cs).foldl overwrite []) m.frame.length with
  | error e => simp [RecvOutcome.value]
  | ok m' => simp [RecvOutcome.value]

/-- The header is cut: only the first chunk is looked at, and the user type it misses reads as
zero. -/
theorem reassembled_iff_cut_header (m₀ : IpcMessage) (hm : m.frame.length ≤ ipcMaxMessageSize)
    (hc0 : c ≠ []) (hF : c ++ cs.flatten = m.frame) (hc : c.length < ipcHeaderSize) :
    Reassembled m₀ m (c :: cs) ↔ m.length = 0 ∧ m.userType = 0 := by
  have hread : Reassembled m₀ m (c :: cs) ↔
      be32At c 1 = 0 ∧ m.length = 0 ∧ byteAt c 0 = m.type ∧ m.userType = 0 := by
    rw [← ipcMessageFormatRead_cut_header m₀ hc, Reassembled, ipcReadFd,
      usockRecv_cut_header hm hc0 hF hc]
    simp only
    cases ipcMessageFormatRead m₀ c c.length with
    | error e => simp [RecvOutcome.value]
    | ok m' => simp [RecvOutcome.value]
  have htype : byteAt c 0 = m.type := by
    have happ : byteAt (c ++ cs.flatten) 0 = byteAt c 0 :=
      byteAt_append_left (List.length_pos_iff.mpr hc0)
    rw [← happ, hF]
    rfl
  have hann := be32At_first_chunk_le hF
  rw [hread]
  constructor
  · rintro ⟨-, hlen, -, huser⟩
    exact ⟨hlen, huser⟩
  · rintro ⟨hlen, huser⟩
    exact ⟨by omega, hlen, htype, huser⟩

/-- An empty message whose header arrives at once has no other chunk. -/
theorem eq_nil_of_length_eq_zero (h0 : m.length = 0) (hne : ∀ d ∈ c :: cs, d ≠ [])
    (hF : c ++ cs.flatten = m.frame) (hc : ipcHeaderSize ≤ c.length) : cs = [] := by
  have htotal := congrArg List.length hF
  rw [List.length_append, m.length_frame, h0] at htotal
  cases cs with
  | nil => rfl
  | cons d ds =>
    have hd : 0 < d.length := List.length_pos_iff.mpr (hne d (by simp))
    simp only [List.flatten_cons, List.length_append] at htotal
    omega

end Chunks

theorem lastByteAt_singleton {c : List Byte} {i : Nat} (hi : i < c.length) :
    lastByteAt [c] i = byteAt c i := by
  simp [lastByteAt, hi]

/-- `ipc_read_fd` gives back the message whose frame was cut into the chunks `cs` exactly when
`ArrivesIntact` holds of them. -/
theorem reassembled_iff (m₀ m : IpcMessage) {frame : List Byte} (cs : List (List Byte))
    (hw : ipcMessageFormatWrite m = .ok frame) (hmax : frame.length ≤ ipcMaxMessageSize)
    (hne : ∀ c ∈ cs, c ≠ []) (hcs : cs.flatten = frame) :
    Reassembled m₀ m cs ↔ ArrivesIntact m cs := by
  obtain rfl : m.frame = frame := by
    unfold ipcMessageFormatWrite at hw
    split at hw
    · cases hw
    · exact Except.ok.inj hw
  have hlen := m.length_frame
  cases cs with
  | nil =>
    rw [← hcs, ipcHeaderSize_eq] at hlen
    simp at hlen
    omega
  | cons c cs =>
    rw [List.flatten_cons] at hcs
    have hhead : ∀ p : List Byte → Prop, (∃ d ∈ (c :: cs).head?, p d) ↔ p c := by
      intro p
      simp
    rw [ArrivesIntact, hhead, hhead]
    -- Whether the header is whole decides if the loop goes on.
    by_cases hc : ipcHeaderSize ≤ c.length
    · rw [reassembled_iff_lastByteAt m₀ hmax hne hcs hc]
      by_cases h0 : m.length = 0
      · obtain rfl := eq_nil_of_length_eq_zero h0 hne hcs hc
        have hcF : c = m.frame := by simpa using hcs
        rw [if_pos h0, hcF]
        refine iff_of_true ?_ (.inl ?_)
        · intro i hi
          exact lastByteAt_singleton hi
        · rw [hlen, h0, Nat.add_zero]
      · rw [if_neg h0]
        simp [hc]
    · rw [reassembled_iff_cut_header m₀ hmax (hne c (by simp)) hcs (by omega)]
      by_cases h0 : m.length = 0
      · have hne6 : c.length ≠ ipcHeaderSize := by omega
        rw [if_pos h0]
        simp [h0, hne6]
      · rw [if_neg h0]
        simp [h0, hc]

/-- A frame that arrives at once is read back. -/
theorem reassembled_whole_frame :
    Reassembled default (.ofPayload 2 42 7 [104, 105]) [[2, 0, 0, 0, 2, 42, 104, 105]] :=
  (reassembled_iff default (.ofPayload 2 42 7 [104, 105]) [[2, 0, 0, 0, 2, 42, 104, 105]]
    rfl (by decide) (by decide) rfl).mpr (by decide)

/-- The two-byte message `"hi"` whose payload arrives after its header: the payload is written
over the header, and an unrelated message comes out. -/
theorem not_reassembled_header_then_payload :
    ¬ ∀ (m₀ m : IpcMessage) (frame : List Byte) (cs : List (List Byte)),
      ipcMessageFormatWrite m = .ok frame → frame.length ≤ ipcMaxMessageSize →
      (∀ c ∈ cs, c ≠ []) → cs.flatten = frame → Reassembled m₀ m cs := by
  intro h
  have := h default (.ofPayload 2 42 7 [104, 105]) [2, 0, 0, 0, 2, 42, 104, 105]
    [[2, 0, 0, 0, 2, 42], [104, 105]] rfl (by decide) (by decide) rfl
  exact absurd this (by decide)

/-! ## Many frames, glued together -/

/-- The results of `n` successive `ipc_read_fd` calls on one descriptor; a call that is still
waiting has no result. -/
def readMany (m₀ : IpcMessage) : Nat → List RecvResult → List (Except IpcErrorCode IpcMessage)
  | 0, _ => []
  | n + 1, rs =>
    match ipcReadFd m₀ rs with
    | .waiting => []
    | .returned r rest => r :: readMany m₀ n rest

/-- Each `recv(2)` answers the frames of one group of messages, back to back. -/
def deliveries (groups : List (List IpcMessage)) : List RecvResult :=
  groups.map fun g => .ok (g.flatMap IpcMessage.frame)

/-- One call on a delivery of several whole frames: it uses up the whole delivery; what it returns
is the first message when it is alone or empty, an error otherwise. -/
theorem ipcReadFd_delivery (m₀ m : IpcMessage) (tail : List Byte) (rest : List RecvResult)
    (hmax : (m.frame ++ tail).length ≤ ipcMaxMessageSize) :
    ipcReadFd m₀ (.ok (m.frame ++ tail) :: rest) =
      .returned (if tail = [] ∨ m.length = 0 then .ok (m.received m₀)
        else .error .messageFormatReadReadMessageSize) rest := by
  have hlen : (m.frame ++ tail).length = ipcHeaderSize + m.length + tail.length := by simp
  have hann : be32At (m.frame ++ tail) 1 = m.length := be32At_frame m tail
  have hsmall : (m.frame ++ tail).length < 2 ^ 32 := by
    rw [ipcMaxMessageSize_eq] at hmax; omega
  have hle : ¬ m.length > ipcMaxMessageSize := by omega
  have hpos : ¬ (m.frame ++ tail).length = 0 := by rw [hlen, ipcHeaderSize_eq]; omega
  -- All bytes have arrived: the loop ends after the first answer.
  have hdone : ¬ (0 < m.length ∧ (m.frame ++ tail).length < m.length + ipcHeaderSize) := by omega
  have hrecv : usockRecv (.ok (m.frame ++ tail) :: rest) =
      .returned (.ok (m.frame ++ tail, (m.frame ++ tail).length)) rest := by
    simp only [usockRecv, usockRecvLoop, if_neg hpos, overwrite_nil_left, if_true, hann,
      if_neg hle, Nat.zero_add, Nat.mod_eq_of_lt hsmall]
    rw [recvAgain_eq (by omega) hsmall, decide_eq_false hdone]
    rfl
  have hmod : ((m.frame ++ tail).length + 2 ^ 64 - ipcHeaderSize) % 2 ^ 64
      = m.length + tail.length := by
    rw [hlen]
    rw [hlen, ipcMaxMessageSize_eq] at hmax
    rw [ipcHeaderSize_eq]
    omega
  rw [ipcReadFd, hrecv]
  simp only [ipcMessageFormatRead, hann, hmod, if_neg hle]
  rw [if_neg (by omega)]
  by_cases hok : tail = [] ∨ m.length = 0
  · have hcond : ¬ (m.length ≠ m.length + tail.length ∧ m.length ≠ 0) := by
      rcases hok with rfl | h0
      · simp
      · simp [h0]
    rw [if_neg hcond, if_pos hok]
    refine congrArg (fun m' => RecvOutcome.returned (.ok m') rest) ?_
    exact IpcMessage.eq_received_iff.mpr
      ⟨rfl, rfl, rfl, rfl, congrArg some (slice_frame m tail)⟩
  · have hcond : m.length ≠ m.length + tail.length ∧ m.length ≠ 0 := by
      push Not at hok
      have := List.length_pos_iff.mpr hok.1
      exact ⟨by omega, hok.2⟩
    rw [if_pos hcond, if_neg hok]

section Deliveries
variable {groups : List (List IpcMessage)}

/-- Each call uses up one delivery, so no more calls return than there are deliveries. -/
theorem length_readMany_le (m₀ : IpcMessage) (n : Nat) (hne : ∀ g ∈ groups, g ≠ [])
    (hmax : ∀ g ∈ groups, (g.flatMap IpcMessage.frame).length ≤ ipcMaxMessageSize) :
    (readMany m₀ n (deliveries groups)).length ≤ groups.length := by
  induction groups generalizing n with
  | nil => cases n <;> simp [readMany, deliveries, ipcReadFd, usockRecv, usockRecvLoop]
  | cons g gs ih =>
    cases n with
    | zero => simp [readMany]
    | succ n =>
      cases g with
      | nil => exact absurd rfl (hne [] (by simp))
      | cons m ms =>
        have hcall := ipcReadFd_delivery m₀ m (ms.flatMap IpcMessage.frame) (deliveries gs)
          (by simpa using hmax (m :: ms) (by simp))
        have hrest := ih n (fun g hg => hne g (by simp [hg])) (fun g hg => hmax g (by simp [hg]))
        simp only [deliveries, List.map_cons, List.flatMap_cons] at hcall hrest ⊢
        rw [readMany, hcall]
        simp only [List.length_cons]
        omega

/-- One frame per delivery: every message is returned. -/
theorem readMany_singletons (m₀ : IpcMessage) (hone : ∀ g ∈ groups, g.length = 1)
    (hmax : ∀ g ∈ groups, (g.flatMap IpcMessage.frame).length ≤ ipcMaxMessageSize) :
    readMany m₀ groups.flatten.length (deliveries groups) =
      groups.flatten.map fun m => .ok (m.received m₀) := by
  induction groups with
  | nil => simp [readMany]
  | cons g gs ih =>
    obtain ⟨m, rfl⟩ := List.length_eq_one_iff.mp (hone g (by simp))
    have hcall := ipcReadFd_delivery m₀ m [] (deliveries gs)
      (by simpa using hmax [m] (by simp))
    have hrest := ih (fun g hg => hone g (by simp [hg])) (fun g hg => hmax g (by simp [hg]))
    simp only [deliveries, List.append_nil, true_or, if_true] at hcall hrest
    simp only [List.flatten_cons, List.singleton_append, List.length_cons, deliveries,
      List.map_cons, List.flatMap_cons, List.flatMap_nil, List.append_nil]
    rw [readMany, hcall]
    simp only [hrest]

/-- Non-empty groups have as many messages as there are groups only when each has one. -/
theorem length_eq_one_of_flatten_le (hne : ∀ g ∈ groups, g ≠ [])
    (hle : groups.flatten.length ≤ groups.length) : ∀ g ∈ groups, g.length = 1 := by
  have hge : ∀ gs : List (List IpcMessage), (∀ g ∈ gs, g ≠ []) → gs.length ≤ gs.flatten.length := by
    intro gs h
    induction gs with
    | nil => simp
    | cons g gs ih =>
      have hg : 0 < g.length := List.length_pos_iff.mpr (h g (by simp))
      have := ih fun g hg => h g (by simp [hg])
      simp only [List.flatten_cons, List.length_append, List.length_cons]
      omega
  induction groups with
  | nil => simp
  | cons g gs ih =>
    have hg : 0 < g.length := List.length_pos_iff.mpr (hne g (by simp))
    have hgs := hge gs fun g hg => hne g (by simp [hg])
    simp only [List.flatten_cons, List.length_append, List.length_cons] at hle
    intro g' hg'
    rcases List.mem_cons.mp hg' with rfl | hg'
    · omega
    · exact ih (fun g hg => hne g (by simp [hg])) (by omega) g' hg'

end Deliveries

/-- Reading as many times as messages were sent gives exactly these messages, in order and
without an error, if and only if every `recv(2)` answered exactly one frame. -/
theorem readMany_deliveries_iff (m₀ : IpcMessage) (groups : List (List IpcMessage))
    (hne : ∀ g ∈ groups, g ≠ [])
    (hmax : ∀ g ∈ groups, (g.flatMap IpcMessage.frame).length ≤ ipcMaxMessageSize) :
    (readMany m₀ groups.flatten.length (deliveries groups) =
        groups.flatten.map fun m => .ok (m.received m₀)) ↔
      ∀ g ∈ groups, g.length = 1 := by
  constructor
  · intro h
    have hle := length_readMany_le m₀ groups.flatten.length hne hmax
    rw [h, List.length_map] at hle
    exact length_eq_one_of_flatten_le hne hle
  · intro hone
    exact readMany_singletons m₀ hone hmax

/-- Two messages, an empty one and `"hi"`, one `recv(2)` answer each. -/
theorem readMany_two_deliveries :
    readMany default 2 (deliveries [[.ofPayload 2 1 7 []], [.ofPayload 2 2 7 [104, 105]]]) =
      [.ok (IpcMessage.received (.ofPayload 2 1 7 []) default),
        .ok (IpcMessage.received (.ofPayload 2 2 7 [104, 105]) default)] :=
  (readMany_deliveries_iff default [[.ofPayload 2 1 7 []], [.ofPayload 2 2 7 [104, 105]]]
    (by decide) (by decide)).mpr (by decide)

/-- Two one-byte messages in one answer: the first call reports an error. -/
theorem readMany_glued_frames :
    ¬ ∀ (m₀ : IpcMessage) (groups : List (List IpcMessage)), (∀ g ∈ groups, g ≠ []) →
      (∀ g ∈ groups, (g.flatMap IpcMessage.frame).length ≤ ipcMaxMessageSize) →
      readMany m₀ groups.flatten.length (deliveries groups) =
        groups.flatten.map fun m => .ok (m.received m₀) := by
  intro h
  have h2 := h default [[.ofPayload 2 1 7 [104], .ofPayload 2 1 7 [105]]] (by decide) (by decide)
  have hlen := congrArg List.length h2
  exact absurd hlen (by decide)

end LibIpc.C

import LibIpc.Lib.Checked
import LibIpc.Lib.Joined
import LibIpc.Zig.Survival

/-!
# What the decoders of the Zig implementation make of their input

`Message.read` decodes a buffer that its caller has chosen: the bytes received, on the way of a
switched connection (`default_in`), or the whole buffer they were received in, on the plain one
(`Context.read`). `URI.read` takes a text of a client apart.
-/

namespace LibIpc.Zig

open Lib

/-! ## Messages -/

/-- `Message.read` on all of `buffer`, with the checks of a safe build: `none` is a panic. `4+msg_len`
is a sum in the 32 bits of `msg_len`. -/
def Message.readBuffer (fd : Fd) (buffer : List Byte) : Option (Except Error Message) :=
  if buffer.length < 4 then
    some (.error .endOfStream)
  else
    (subChecked buffer.length 4).bind fun room =>
      if be32At buffer 0 > room then
        some (.error .wrongMessageLength)
      else
        (addChecked 32 4 (be32At buffer 0)).bind fun hi =>
          (sliceChecked buffer 4 hi).map fun msgPayload =>
            .ok { fd := fd, payload := msgPayload }

/-- The buffer is shorter than a header, or than what the header announces. -/
def Truncated (buffer : List Byte) : Prop :=
  buffer.length < 4 ∨ buffer.length < 4 + be32At buffer 0

/-- The end of the payload that the header announces is in the buffer, but not in 32 bits. -/
def Overflows (buffer : List Byte) : Prop :=
  4 + be32At buffer 0 ≤ buffer.length ∧ 2 ^ 32 ≤ 4 + be32At buffer 0

section Buffer
variable {fd : Fd} {buffer : List Byte}

theorem Message.readBuffer_of_lt (h : buffer.length < 4) :
    Message.readBuffer fd buffer = some (.error .endOfStream) := by
  rw [Message.readBuffer, if_pos h]

theorem Message.readBuffer_of_gt (hlen : 4 ≤ buffer.length)
    (h : be32At buffer 0 > buffer.length - 4) :
    Message.readBuffer fd buffer = some (.error .wrongMessageLength) := by
  rw [Message.readBuffer, if_neg (Nat.not_lt.mpr hlen), subChecked_of_le hlen, Option.bind_some,
    if_pos h]

theorem Message.readBuffer_of_truncated (h : Truncated buffer) :
    ∃ e, Message.readBuffer fd buffer = some (.error e) := by
  by_cases hlen : buffer.length < 4
  · exact ⟨_, Message.readBuffer_of_lt hlen⟩
  · have hshort : be32At buffer 0 > buffer.length - 4 := by
      unfold Truncated at h
      omega
    exact ⟨_, Message.readBuffer_of_gt (Nat.not_lt.mp hlen) hshort⟩

/-- A buffer that is not truncated is decoded, up to the sum. -/
theorem Message.readBuffer_of_not_truncated (h : ¬ Truncated buffer) :
    Message.readBuffer fd buffer =
      (addChecked 32 4 (be32At buffer 0)).bind fun hi =>
        (sliceChecked buffer 4 hi).map fun msgPayload => .ok { fd := fd, payload := msgPayload } := by
  obtain ⟨hlen, hfits⟩ := not_or.mp h
  have hroom : ¬ be32At buffer 0 > buffer.length - 4 := by omega
  rw [Message.readBuffer, if_neg hlen, subChecked_of_le (Nat.not_lt.mp hlen), Option.bind_some,
    if_neg hroom]

theorem Message.readBuffer_of_overflows (h : Overflows buffer) :
    Message.readBuffer fd buffer = none := by
  have hwhole : ¬ Truncated buffer := by
    unfold Truncated
    have := h.1
    omega
  rw [Message.readBuffer_of_not_truncated hwhole, addChecked_of_le h.2, Option.bind_none]

theorem Message.readBuffer_eq_ok (h : ¬ Truncated buffer) (hfits : ¬ Overflows buffer) :
    Message.readBuffer fd buffer =
      some (.ok { fd := fd, payload := (buffer.drop 4).take (be32At buffer 0) }) := by
  have hlen : 4 + be32At buffer 0 ≤ buffer.length := Nat.not_lt.mp (not_or.mp h).2
  have hword : 4 + be32At buffer 0 < 2 ^ 32 := Nat.not_le.mp fun hle => hfits ⟨hlen, hle⟩
  rw [Message.readBuffer_of_not_truncated h, addChecked_of_lt hword, Option.bind_some,
    sliceChecked_of_le (Nat.le_add_right 4 _) hlen, Nat.add_sub_cancel_left, Option.map_some]

/-- Without the overflow this is `Message.read`. -/
theorem Message.readBuffer_eq_read (h : ¬ Overflows buffer) :
    Message.readBuffer fd buffer = some (Message.read fd buffer buffer.length) := by
  by_cases hlen : buffer.length < 4
  · rw [Message.readBuffer_of_lt hlen, Message.read, if_pos hlen]
  · by_cases hshort : be32At buffer 0 > buffer.length - 4
    · rw [Message.readBuffer_of_gt (Nat.not_lt.mp hlen) hshort, Message.read, if_neg hlen]
      simp only [if_pos hshort]
    · have hfits : 4 + be32At buffer 0 ≤ buffer.length := by omega
      have hwhole : ¬ Truncated buffer := by
        unfold Truncated
        omega
      rw [Message.readBuffer_eq_ok hwhole h, Message.read, if_neg hlen]
      simp only [if_neg hshort, slice_eq_of_le hfits]

end Buffer

/-- A writer with room for the whole frame gets all of it. -/
theorem Message.write_of_fits {m : Message} {cap : Nat} (hword : m.payload.length < 2 ^ 32)
    (hcap : 4 + m.payload.length ≤ cap) :
    m.write cap = .ok (frame m.payload, 4 + m.payload.length) := by
  have hmin : min m.payload.length (cap - 4) = m.payload.length := Nat.min_eq_left (by omega)
  have hroom : ¬ (cap < 4 ∨ (m.payload ≠ [] ∧ m.payload.length = 0)) := by
    intro hrefused
    rcases hrefused with hshort | ⟨hne, hnil⟩
    · omega
    · exact hne (List.eq_nil_of_length_eq_zero hnil)
  simp only [Message.write, hmin, if_neg hroom, Nat.mod_eq_of_lt hword, List.take_length, frame]

/-- What `Message.write` produces is read back. -/
def RoundTrips (p : List Byte) : Prop :=
  ∀ (fd fd' : Fd) (cap : Nat), 4 + p.length ≤ cap →
    ∃ written, Message.write { fd := fd', payload := p } cap = .ok (written, 4 + p.length) ∧
      written.length = 4 + p.length ∧
      Message.readBuffer fd written = some (.ok { fd := fd, payload := p })

/-- A buffer is decoded without a panic, refused exactly when it is truncated, and otherwise starts
with the encoding of the message. -/
structure Accepts (fd : Fd) (buffer : List Byte) : Prop where
  returns : Message.readBuffer fd buffer ≠ none
  error_iff : (∃ e, Message.readBuffer fd buffer = some (.error e)) ↔ Truncated buffer
  reencodes : ∀ m, Message.readBuffer fd buffer = some (.ok m) →
    ∀ cap, 4 + m.payload.length ≤ cap → ∃ written n, m.write cap = .ok (written, n) ∧
      written <+: buffer

theorem be32At_frame {p : List Byte} (hword : p.length < 2 ^ 32) : be32At (frame p) 0 = p.length := by
  simpa [frame] using be32At_append hword [] p

theorem not_truncated_frame {p : List Byte} (hword : p.length < 2 ^ 32) :
    ¬ Truncated (frame p) := by
  rw [Truncated, be32At_frame hword, length_frame, ipcHeaderSize_eq]
  omega

theorem overflows_frame_iff {p : List Byte} (hword : p.length < 2 ^ 32) :
    Overflows (frame p) ↔ 2 ^ 32 - 4 ≤ p.length := by
  rw [Overflows, be32At_frame hword, length_frame, ipcHeaderSize_eq]
  omega

theorem roundTrips_of_lt {p : List Byte} (h : p.length < 2 ^ 32 - 4) : RoundTrips p := by
  have hword : p.length < 2 ^ 32 := by omega
  intro fd fd' cap hcap
  refine ⟨frame p, Message.write_of_fits hword hcap, length_frame p, ?_⟩
  have hfits : ¬ Overflows (frame p) := by
    rw [overflows_frame_iff hword]
    omega
  rw [Message.readBuffer_eq_ok (not_truncated_frame hword) hfits, be32At_frame hword,
    show (frame p).drop 4 = p from drop_frame p, List.take_length]

/-- The longest payloads are written and make the reader panic. -/
theorem not_roundTrips_of_le {p : List Byte} (hword : p.length < 2 ^ 32)
    (h : 2 ^ 32 - 4 ≤ p.length) : ¬ RoundTrips p := by
  intro hround
  obtain ⟨written, hwrite, -, hread⟩ := hround 0 0 (4 + p.length) (Nat.le_refl _)
  rw [Message.write_of_fits hword (Nat.le_refl _)] at hwrite
  obtain ⟨rfl, -⟩ := Prod.mk.inj (Except.ok.inj hwrite)
  rw [Message.readBuffer_of_overflows ((overflows_frame_iff hword).mpr h)] at hread
  cases hread

theorem accepts_of_not_overflows {fd : Fd} {buffer : List Byte} (h : ¬ Overflows buffer) :
    Accepts fd buffer := by
  by_cases hshort : Truncated buffer
  · obtain ⟨e, he⟩ : ∃ e, Message.readBuffer fd buffer = some (.error e) :=
      Message.readBuffer_of_truncated hshort
    refine ⟨by simp [he], ⟨fun _ => hshort, fun _ => ⟨e, he⟩⟩, ?_⟩
    intro m hm
    rw [he] at hm
    cases hm
  · have hread : Message.readBuffer fd buffer =
        some (.ok { fd := fd, payload := (buffer.drop 4).take (be32At buffer 0) }) :=
      Message.readBuffer_eq_ok hshort h
    refine ⟨by simp [hread], ⟨?_, fun ht => absurd ht hshort⟩, ?_⟩
    · intro hrefused
      obtain ⟨e, he⟩ := hrefused
      rw [hread] at he
      cases he
    · intro m hm cap hcap
      rw [hread] at hm
      cases hm
      have hlen : 4 + be32At buffer 0 ≤ buffer.length := Nat.not_lt.mp (not_or.mp hshort).2
      have hpayload : ((buffer.drop 4).take (be32At buffer 0)).length = be32At buffer 0 := by
        rw [List.length_take, List.length_drop]
        omega
      have hword := be32At_lt buffer 0
      rw [← hpayload] at hword
      refine ⟨_, _, Message.write_of_fits hword hcap, ?_⟩
      -- The frame is made of the same two runs of the buffer.
      show frame _ <+: buffer
      rw [frame, hpayload, be32_be32At, slice_eq_of_le (by omega), List.drop_zero,
        ← List.take_add]
      exact List.take_prefix _ _

/-- **Format**: a payload of fewer than 2³² bytes is read back exactly when it is shorter than
2³² - 4 bytes, and a buffer is decoded as it should exactly when the end of its payload is a 32-bit
number. -/
theorem Message.format_iff {p : List Byte} (hword : p.length < 2 ^ 32) (fd : Fd)
    (buffer : List Byte) :
    (RoundTrips p ↔ p.length < 2 ^ 32 - 4) ∧ (Accepts fd buffer ↔ ¬ Overflows buffer) := by
  constructor
  · refine ⟨?_, roundTrips_of_lt⟩
    intro hround
    by_contra hlong
    exact not_roundTrips_of_le hword (Nat.not_lt.mp hlong) hround
  · refine ⟨?_, accepts_of_not_overflows⟩
    intro haccepts hover
    exact haccepts.returns (Message.readBuffer_of_overflows hover)

/-- "coucou" is read back, and its frame followed by something else is decoded. -/
theorem Message.format_coucou :
    RoundTrips [99, 111, 117, 99, 111, 117] ∧
      Accepts 8 [0, 0, 0, 6, 99, 111, 117, 99, 111, 117, 33] := by
  have hword : [99, 111, 117, 99, 111, 117].length < 2 ^ 32 := by decide
  have hformat := Message.format_iff (p := [99, 111, 117, 99, 111, 117]) hword 8
    [0, 0, 0, 6, 99, 111, 117, 99, 111, 117, 33]
  refine ⟨hformat.1.mpr (by decide), hformat.2.mpr ?_⟩
  unfold Overflows
  decide

/-- A payload of 2³² - 4 zeros. -/
theorem Message.not_roundTrips_zeros :
    ∃ p : List Byte, p.length < 2 ^ 32 ∧ ¬ RoundTrips p ∧ ¬ Accepts 8 (frame p) := by
  have hlen : (List.replicate (2 ^ 32 - 4) (0 : Byte)).length = 2 ^ 32 - 4 := List.length_replicate
  have hword : (List.replicate (2 ^ 32 - 4) (0 : Byte)).length < 2 ^ 32 := by
    rw [hlen]
    norm_num
  refine ⟨_, hword, not_roundTrips_of_le hword hlen.ge, ?_⟩
  intro haccepts
  have hover := (overflows_frame_iff hword).mpr hlen.ge
  exact haccepts.returns (Message.readBuffer_of_overflows hover)

/-! ## Receiving -/

section Receiving
variable {ctx : Context} {index : Nat} {pollfd : PollFd} {connection : Connection}
  {bs : List Byte}

/-- `Context.read` when `read(2)` has returned `bs`. -/
theorem Context.read_received (hp : ctx.pollfd[index]? = some pollfd)
    (hc : ctx.connections[index]? = some connection) (ht : connection.t ≠ .server) :
    ctx.read index (.ok bs) =
      if bs.length ≤ 4 then .ok none
      else (Message.read pollfd.fd bs ipcMaxMessageSize).map some := by
  simp only [Context.read, hp, hc, if_neg ht]

/-- More than four bytes: the header is there, and what it announces is looked for in the whole
buffer. -/
theorem Context.read_of_lt (hp : ctx.pollfd[index]? = some pollfd)
    (hc : ctx.connections[index]? = some connection) (ht : connection.t ≠ .server)
    (hlen : 4 < bs.length) :
    ctx.read index (.ok bs) =
      if ipcMaxMessageSize < 4 + be32At bs 0 then .error .wrongMessageLength
      else .ok (some { fd := pollfd.fd, payload := slice bs 4 (be32At bs 0) }) := by
  rw [Context.read_received hp hc ht, if_neg (Nat.not_le.mpr hlen), Message.read,
    ipcMaxMessageSize_eq, if_neg (by decide)]
  simp only
  by_cases hlong : be32At bs 0 > 99996 - 4
  · rw [if_pos hlong, if_pos (by omega)]
    rfl
  · rw [if_neg hlong, if_neg (by omega)]
    rfl

/-- A message is made of what was received: its payload is what follows the header there, as long as
the header says, and there is none when less was received. -/
structure ReceivedOnly (bs : List Byte) (r : Except Error (Option Message)) : Prop where
  payload : ∀ m, r = .ok (some m) →
    m.payload.length = be32At bs 0 ∧ m.payload = (bs.drop 4).take (be32At bs 0)
  none_of_short : bs.length < 4 + be32At bs 0 → ∀ m, r ≠ .ok (some m)

/-- **Received bytes**: `Context.read` returns received bytes only, exactly when the `read(2)` has
returned at most four bytes, when the announced length does not fit the buffer, or when all of it
was received. -/
theorem receivedOnly_read_iff (hp : ctx.pollfd[index]? = some pollfd)
    (hc : ctx.connections[index]? = some connection) (ht : connection.t ≠ .server)
    (bs : List Byte) :
    ReceivedOnly bs (ctx.read index (.ok bs)) ↔
      bs.length ≤ 4 ∨ ipcMaxMessageSize < 4 + be32At bs 0 ∨ 4 + be32At bs 0 ≤ bs.length := by
  by_cases hlen : bs.length ≤ 4
  · rw [Context.read_received hp hc ht, if_pos hlen]
    exact iff_of_true ⟨nofun, fun _ => nofun⟩ (.inl hlen)
  rw [Context.read_of_lt hp hc ht (Nat.not_le.mp hlen)]
  by_cases hlong : ipcMaxMessageSize < 4 + be32At bs 0
  · rw [if_pos hlong]
    exact iff_of_true ⟨nofun, fun _ => nofun⟩ (.inr (.inl hlong))
  rw [if_neg hlong]
  constructor
  · intro h
    have hnot : ¬ bs.length < 4 + be32At bs 0 := fun hshort => h.none_of_short hshort _ rfl
    exact .inr (.inr (Nat.not_lt.mp hnot))
  · intro h
    rcases h with h | h | h
    · exact absurd h hlen
    · exact absurd h hlong
    · refine ⟨?_, fun hshort => absurd h (Nat.not_le.mpr hshort)⟩
      rintro m ⟨⟩
      exact ⟨length_slice bs 4 _, slice_eq_of_le h⟩

/-- A context with one client. -/
def clientContext : Context := { connections := [{ t := .ipc }], pollfd := [{ fd := 5 }] }

theorem receivedOnly_read_cou :
    ReceivedOnly (frame [99, 111, 117]) (clientContext.read 0 (.ok (frame [99, 111, 117]))) := by
  have hp : clientContext.pollfd[0]? = some { fd := 5 } := rfl
  have hc : clientContext.connections[0]? = some { t := .ipc } := rfl
  exact (receivedOnly_read_iff hp hc (by decide) _).mpr (.inr (.inr (by decide)))

/-- Eight bytes announced, one received: seven zeros are made up. -/
theorem not_receivedOnly_read_short :
    clientContext.read 0 (.ok [0, 0, 0, 8, 104]) =
        .ok (some { fd := 5, payload := [104, 0, 0, 0, 0, 0, 0, 0] }) ∧
      ¬ ReceivedOnly [0, 0, 0, 8, 104] (clientContext.read 0 (.ok [0, 0, 0, 8, 104])) := by
  have hread : clientContext.read 0 (.ok [0, 0, 0, 8, 104]) =
      .ok (some { fd := 5, payload := [104, 0, 0, 0, 0, 0, 0, 0] }) := by
    have hp : clientContext.pollfd[0]? = some { fd := 5 } := rfl
    have hc : clientContext.connections[0]? = some { t := .ipc } := rfl
    rw [Context.read_of_lt hp hc (by decide) (by decide), if_neg (by decide)]
    rfl
  exact ⟨hread, fun h => h.none_of_short (by decide) _ hread⟩

/-! ### The two ways to receive -/

/-- The same verdict on the plain connection and on the switched one: a message with the same
payload, a disconnection, or an error. -/
inductive SameVerdict : Except Error (Option Message) → Except Error (Option Message) → Prop
  | message {m m' : Message} :
      m.payload = m'.payload → SameVerdict (.ok (some m)) (.ok (some m'))
  | disconnection : SameVerdict (.ok none) (.error .closeFD)
  | error {e e' : Error} : e' ≠ .closeFD → SameVerdict (.error e) (.error e')

/-- `SwitchDB.read` with `default_in` when `read(2)` has returned `bs`. -/
theorem SwitchDB.read_default {db : SwitchDB} {fd dest : Fd} (hdest : db.lookup fd = some dest) :
    SwitchDB.read db fd (.default (.ok bs)) =
      if bs.length < 4 then .error .closeFD
      else if bs.length < 4 + be32At bs 0 then .error .generic
      else .ok (some { fd := dest, payload := slice bs 4 (be32At bs 0) }) := by
  by_cases hlen : bs.length < 4
  · simp only [SwitchDB.read, hdest, In.answer, defaultIn, if_pos hlen]
  · by_cases hshort : bs.length < 4 + be32At bs 0
    · have hgt : be32At bs 0 > bs.length - 4 := by omega
      simp only [SwitchDB.read, hdest, In.answer, defaultIn, if_neg hlen, if_pos hshort,
        Message.read, if_pos hgt]
    · have hle : ¬ be32At bs 0 > bs.length - 4 := by omega
      simp only [SwitchDB.read, hdest, In.answer, defaultIn, if_neg hlen, if_neg hshort,
        Message.read, if_neg hle]

/-- **Two ways to receive**: the verdicts agree exactly when fewer than four bytes were received, or
more than four and either all that is announced or less than the announced length of a message that
is too long for the buffer. -/
theorem sameVerdict_iff (hp : ctx.pollfd[index]? = some pollfd)
    (hc : ctx.connections[index]? = some connection) (ht : connection.t ≠ .server)
    {db : SwitchDB} {dest : Fd} (hdest : db.lookup pollfd.fd = some dest)
    (hmax : bs.length ≤ ipcMaxMessageSize) :
    SameVerdict (ctx.read index (.ok bs)) (SwitchDB.read db pollfd.fd (.default (.ok bs))) ↔
      bs.length < 4 ∨
        4 < bs.length ∧ (4 + be32At bs 0 ≤ bs.length ∨ ipcMaxMessageSize < 4 + be32At bs 0) := by
  rw [SwitchDB.read_default hdest]
  rcases Nat.lt_trichotomy bs.length 4 with hlen | hlen | hlen
  · rw [Context.read_received hp hc ht, if_pos hlen.le, if_pos hlen]
    exact iff_of_true .disconnection (.inl hlen)
  · -- four bytes are a disconnection on one side only
    rw [Context.read_received hp hc ht, if_pos hlen.le, if_neg (by omega)]
    refine iff_of_false ?_ (by omega)
    split
    · nofun
    · nofun
  · rw [Context.read_of_lt hp hc ht hlen, if_neg (by omega : ¬ bs.length < 4)]
    by_cases hall : 4 + be32At bs 0 ≤ bs.length
    · rw [if_neg (by omega), if_neg (by omega)]
      exact iff_of_true (.message rfl) (.inr ⟨hlen, .inl hall⟩)
    · rw [if_pos (by omega : bs.length < 4 + be32At bs 0)]
      by_cases hlong : ipcMaxMessageSize < 4 + be32At bs 0
      · rw [if_pos hlong]
        exact iff_of_true (.error nofun) (.inr ⟨hlen, .inr hlong⟩)
      · rw [if_neg hlong]
        exact iff_of_false nofun (by omega)

theorem sameVerdict_co :
    SameVerdict (clientContext.read 0 (.ok (frame [99, 111])))
      (SwitchDB.read (SwitchDB.addSwitch ∅ 5 6) 5 (.default (.ok (frame [99, 111])))) := by
  have hp : clientContext.pollfd[0]? = some { fd := 5 } := rfl
  have hc : clientContext.connections[0]? = some { t := .ipc } := rfl
  have hdest : (SwitchDB.addSwitch ∅ 5 6).lookup 5 = some 6 := rfl
  have hmax : (frame [99, 111]).length ≤ ipcMaxMessageSize := by
    rw [length_frame, ipcHeaderSize_eq, ipcMaxMessageSize_eq]
    norm_num
  exact (sameVerdict_iff hp hc (by decide) hdest hmax).mpr (.inr (by decide))

/-- A frame without payload is a disconnection on the plain connection, a message on the switched
one. -/
theorem not_sameVerdict_empty :
    ¬ SameVerdict (clientContext.read 0 (.ok (frame [])))
      (SwitchDB.read (SwitchDB.addSwitch ∅ 5 6) 5 (.default (.ok (frame [])))) := by
  have hplain : clientContext.read 0 (.ok (frame [])) = .ok none := rfl
  have hswitched : SwitchDB.read (SwitchDB.addSwitch ∅ 5 6) 5 (.default (.ok (frame []))) =
      .ok (some { fd := 6, payload := [] }) := rfl
  rw [hplain, hswitched]
  nofun

end Receiving

/-! ## URIs -/

section Cut
variable {c : Byte} {ds : List Byte}

theorem not_infix_of_cutAt_eq_none {text : List Byte} (h : cutAt (c :: ds) text = none) :
    ¬ c :: ds <:+: text := by
  induction text with
  | nil => simp
  | cons b text ih =>
    rw [cutAt] at h
    split at h
    · cases h
    · rename_i hstart
      rw [List.infix_cons_iff]
      intro hinfix
      rcases hinfix with hstart' | hlater
      · exact hstart (List.isPrefixOf_iff_prefix.mpr hstart')
      · exact ih (Option.map_eq_none_iff.mp h) hlater

/-- The delimiter does not occur before the place where the text is cut. -/
theorem not_infix_of_cutAt_eq_some {text before after : List Byte}
    (h : cutAt (c :: ds) text = some (before, after)) : ¬ c :: ds <:+: before := by
  induction text generalizing before with
  | nil => cases h
  | cons b text ih =>
    rw [cutAt] at h
    split at h
    · cases h
      simp
    · rename_i hstart
      obtain ⟨⟨before', after'⟩, hcut, heq⟩ := Option.map_eq_some_iff.mp h
      cases heq
      rw [List.infix_cons_iff]
      intro hinfix
      rcases hinfix with hstart' | hlater
      · apply hstart
        rw [List.isPrefixOf_iff_prefix, cutAt_eq_some hcut, List.append_assoc]
        exact hstart'.trans (List.prefix_append (b :: before') _)
      · exact ih hcut hlater

/-- A delimiter that cannot overlap itself cuts at its first occurrence. -/
theorem cutAt_append (hc : c ∉ ds) {before : List Byte} (h : ¬ c :: ds <:+: before)
    (after : List Byte) :
    cutAt (c :: ds) (before ++ (c :: ds) ++ after) = some (before, after) := by
  induction before with
  | nil =>
    have hstart : (c :: ds).isPrefixOf (c :: (ds ++ after)) = true :=
      List.isPrefixOf_iff_prefix.mpr (List.prefix_append (c :: ds) after)
    simp only [List.nil_append, List.cons_append, cutAt, hstart, if_true, List.length_cons,
      List.drop_succ_cons, List.drop_left]
  | cons b before ih =>
    rw [List.infix_cons_iff, not_or] at h
    have hstart : ¬ (c :: ds).isPrefixOf (b :: (before ++ (c :: ds) ++ after)) = true := by
      rw [List.isPrefixOf_iff_prefix, List.cons_prefix_cons, List.append_assoc, List.cons_append,
        prefix_append_cons_iff hc]
      rintro ⟨rfl, hrest⟩
      exact h.1 (List.cons_prefix_cons.mpr ⟨rfl, hrest⟩)
    rw [List.cons_append, List.cons_append, cutAt, if_neg hstart, ih h.2]
    rfl

theorem cutAt_eq_none (h : ¬ c :: ds <:+: text) : cutAt (c :: ds) text = none := by
  cases hcut : cutAt (c :: ds) text with
  | none => rfl
  | some parts =>
    refine absurd ?_ h
    rw [cutAt_eq_some hcut]
    exact ⟨parts.1, parts.2, rfl⟩

/-- What the two halves of a splitter make of a text that is cut. -/
theorem split_append (hc : c ∉ ds) {before : List Byte} (h : ¬ c :: ds <:+: before)
    (after : List Byte) :
    splitFirst (c :: ds) (before ++ (c :: ds) ++ after) = before ∧
      splitRest (c :: ds) (before ++ (c :: ds) ++ after) = after := by
  rw [splitFirst, splitRest, cutAt_append hc h]
  exact ⟨rfl, rfl⟩

/-- The first half leaves room for a delimiter that is there. -/
theorem length_splitFirst_le {text : List Byte} (h : c :: ds <:+: text) :
    (splitFirst (c :: ds) text).length + (c :: ds).length ≤ text.length := by
  cases hcut : cutAt (c :: ds) text with
  | none => exact absurd h (not_infix_of_cutAt_eq_none hcut)
  | some parts =>
    have hlen := congrArg List.length (cutAt_eq_some hcut)
    rw [splitFirst, hcut, Option.getD_some, hlen, List.length_append, List.length_append]
    omega

/-- The two halves are not longer than the text. -/
theorem length_split_le (text : List Byte) :
    (splitFirst (c :: ds) text).length + (splitRest (c :: ds) text).length ≤ text.length := by
  rw [splitFirst, splitRest]
  cases hcut : cutAt (c :: ds) text with
  | none => simp
  | some parts =>
    have hlen := congrArg List.length (cutAt_eq_some hcut)
    simp only [List.length_append] at hlen
    simp only [Option.getD_some]
    omega

end Cut

/-- "://". -/
abbrev protocolEnd : List Byte := [58, 47, 47]

/-- A text is decoded: into its three parts, however it is made of a protocol without "://", an
address without "/", and a path; into a protocol alone when there is no "://". -/
structure DecodesURI (text : List Byte) : Prop where
  parts : ∀ protocol address path : List Byte, ¬ protocolEnd <:+: protocol → 47 ∉ address →
    text = protocol ++ protocolEnd ++ address ++ [47] ++ path →
    URI.read text = some { protocol := protocol, address := address, path := path }
  name : ¬ protocolEnd <:+: text → ∃ uri, URI.read text = some uri ∧ uri.protocol = text

/-- A text that is cut at "://". -/
theorem URI.read_append {before : List Byte} (h : ¬ protocolEnd <:+: before) (after : List Byte) :
    URI.read (before ++ protocolEnd ++ after) = some
      { protocol := before
        address := splitFirst [47] (splitFirst protocolEnd after)
        path := splitRest [47] (splitFirst protocolEnd after) } := by
  rw [URI.read, cutAt_append (by decide) h]
  rfl

/-- A second "://" has a slash, so the text after the first one is an address and a path. They are
longer than the field that `next` returns, which ends there. -/
theorem not_infix_of_decodesURI {before after : List Byte} (hbefore : ¬ protocolEnd <:+: before)
    (h : DecodesURI (before ++ protocolEnd ++ after)) : ¬ protocolEnd <:+: after := by
  intro hafter
  cases hslash : cutAt [47] after with
  | none =>
    have hmem : 47 ∈ after := hafter.subset (by simp)
    rw [← List.singleton_infix_iff] at hmem
    exact not_infix_of_cutAt_eq_none hslash hmem
  | some parts =>
    obtain ⟨address, path⟩ := parts
    have haddress : 47 ∉ address := by
      rw [← List.singleton_infix_iff]
      exact not_infix_of_cutAt_eq_some hslash
    have hparts := cutAt_eq_some hslash
    have hread := h.parts before address path hbefore haddress (by simp [hparts])
    rw [URI.read_append hbefore, Option.some.injEq, URI.mk.injEq] at hread
    obtain ⟨-, hfirst, hrest⟩ := hread
    have hfield : (splitFirst protocolEnd after).length + 3 ≤ after.length :=
      length_splitFirst_le hafter
    have hsplit : address.length + path.length ≤ (splitFirst protocolEnd after).length := by
      rw [← hfirst, ← hrest]
      exact length_split_le _
    have hlen := congrArg List.length hparts
    simp only [List.length_append, List.length_cons, List.length_nil] at hlen
    omega

/-- A text with one "://" is cut there, in one way only. -/
theorem decodesURI_append {before after : List Byte} (hbefore : ¬ protocolEnd <:+: before)
    (hafter : ¬ protocolEnd <:+: after) : DecodesURI (before ++ protocolEnd ++ after) := by
  refine ⟨?_, fun hnone => absurd ⟨before, after, rfl⟩ hnone⟩
  intro protocol address path hprotocol haddress htext
  have hsame : protocol ++ protocolEnd ++ (address ++ [47] ++ path) =
      before ++ protocolEnd ++ after := by simpa using htext.symm
  have hcut := cutAt_append (by decide) hprotocol (address ++ [47] ++ path)
  rw [hsame, cutAt_append (by decide) hbefore, Option.some.injEq, Prod.mk.injEq] at hcut
  obtain ⟨rfl, rfl⟩ := hcut
  have hfield : splitFirst protocolEnd (address ++ [47] ++ path) = address ++ [47] ++ path := by
    rw [splitFirst, cutAt_eq_none hafter]
    rfl
  rw [← List.singleton_infix_iff] at haddress
  obtain ⟨hfirst, hrest⟩ := split_append List.not_mem_nil haddress path
  rw [URI.read_append hbefore, hfield, hfirst, hrest]

/-- **URIs**: a text is decoded exactly when "://" occurs in it once. -/
theorem decodesURI_iff (text : List Byte) :
    DecodesURI text ↔ ∃ before after, text = before ++ protocolEnd ++ after ∧
      ¬ protocolEnd <:+: before ∧ ¬ protocolEnd <:+: after := by
  constructor
  · intro h
    cases hcut : cutAt protocolEnd text with
    | none =>
      obtain ⟨uri, huri, -⟩ := h.name (not_infix_of_cutAt_eq_none hcut)
      rw [URI.read, hcut] at huri
      cases huri
    | some parts =>
      obtain ⟨before, after⟩ := parts
      have hbefore := not_infix_of_cutAt_eq_some hcut
      obtain rfl := cutAt_eq_some hcut
      exact ⟨before, after, rfl, hbefore, not_infix_of_decodesURI hbefore h⟩
  · intro honce
    obtain ⟨before, after, rfl, hbefore, hafter⟩ := honce
    exact decodesURI_append hbefore hafter

/-- "tcp://h/a". -/
theorem decodesURI_once : DecodesURI [116, 99, 112, 58, 47, 47, 104, 47, 97] :=
  (decodesURI_iff _).mpr ⟨[116, 99, 112], [104, 47, 97], rfl, by decide, by decide⟩

/-- The unwrap fails on "pong", and "tcp://h/a://b" loses the end of its path. -/
theorem not_decodesURI_pong :
    (URI.read [112, 111, 110, 103] = none ∧ ¬ DecodesURI [112, 111, 110, 103]) ∧
      ¬ DecodesURI [116, 99, 112, 58, 47, 47, 104, 47, 97, 58, 47, 47, 98] := by
  have hpong : URI.read [112, 111, 110, 103] = none := by decide
  refine ⟨⟨hpong, ?_⟩, ?_⟩
  · intro h
    obtain ⟨uri, huri, -⟩ := h.name (by decide)
    rw [hpong] at huri
    cases huri
  · intro h
    have hread := h.parts [116, 99, 112] [104] [97, 58, 47, 47, 98] (by decide) (by decide) rfl
    revert hread
    decide

end LibIpc.Zig

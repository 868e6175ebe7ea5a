import LibIpc.Zig.Context

/-!
# What a stream of frames becomes on the receiving side, in Zig

`Context.read` makes one `read(2)` and decodes the whole zero-filled buffer. It neither keeps the
bytes past the first frame for the next call nor waits for the missing ones, so the messages come
out right exactly when every `read(2)` returns one whole frame (`readAll_eq_iff`). On the sending
side `Context.write` cuts what does not fit its buffer; `write_read_iff` says which payloads come
back as they were.
-/

namespace LibIpc.Zig

open Lib

/-- The receiving side: connection `index`, on which messages are read. -/
structure Receiver where
  ctx : Context
  index : Nat
  pollfd : PollFd
  connection : Connection
  pollfd_eq : ctx.pollfd[index]? = some pollfd
  connection_eq : ctx.connections[index]? = some connection
  not_server : connection.t ≠ .server

/-- `Context.read` on the receiving side. -/
def Receiver.read (rx : Receiver) (r : ReadResult) : Except Error (Option Message) :=
  rx.ctx.read rx.index r

/-- The message that carries `p` to the receiver. -/
def Receiver.message (rx : Receiver) (p : List Byte) : Message :=
  { fd := rx.pollfd.fd, payload := p }

theorem Receiver.read_ok (rx : Receiver) (bs : List Byte) :
    rx.read (.ok bs) =
      if bs.length ≤ 4 then .ok none
      else (Message.read rx.pollfd.fd bs ipcMaxMessageSize).map some := by
  simp [Receiver.read, Context.read, rx.pollfd_eq, rx.connection_eq, rx.not_server]

/-- A payload that fits the buffer of both sides. -/
def Fits (p : List Byte) : Prop := p.length ≤ ipcMaxMessageSize - 4

instance (p : List Byte) : Decidable (Fits p) :=
  inferInstanceAs (Decidable (p.length ≤ ipcMaxMessageSize - 4))

/-- One `read(2)` answer gives the message of `p` exactly when it has more than four bytes and
agrees, zero-filled, with the frame of `p`. -/
theorem Receiver.read_eq_message_iff (rx : Receiver) {bs p : List Byte} (hp : Fits p) :
    rx.read (.ok bs) = .ok (some (rx.message p)) ↔
      4 < bs.length ∧ ∀ i < (frame p).length, byteAt bs i = byteAt (frame p) i := by
  have hcap : 4 ≤ ipcMaxMessageSize := by decide
  have hword : p.length < 2 ^ 32 := by
    rw [Fits, ipcMaxMessageSize_eq] at hp
    omega
  rw [← Message.read_eq_ok_iff rx.pollfd.fd bs hcap hp hword, Receiver.read_ok]
  by_cases hlen : bs.length ≤ 4
  · simp [hlen]
  · rw [if_neg hlen]
    cases Message.read rx.pollfd.fd bs ipcMaxMessageSize with
    | error e => simp [Except.map]
    | ok m => simp [Except.map, Receiver.message, Nat.lt_of_not_le hlen]

/-! ## Segmentations -/

/-- The answer `c` decodes to the frame `f`. -/
def Decodes (c f : List Byte) : Prop :=
  4 < c.length ∧ ∀ i < f.length, byteAt c i = byteAt f i

/-- A frame that announces something. -/
def Announces (f : List Byte) : Prop := 4 < f.length ∧ be32At f 0 ≠ 0

theorem announces_frame {p : List Byte} (hne : p ≠ []) (hp : Fits p) : Announces (frame p) := by
  have hpos := List.length_pos_iff.mpr hne
  unfold Fits at hp
  rw [ipcMaxMessageSize_eq] at hp
  have h0 : be32At (frame p) 0 = p.length := by
    simpa [frame] using be32At_append (n := p.length) (by omega) [] p
  refine ⟨?_, by omega⟩
  rw [length_frame, ipcHeaderSize_eq]
  omega

/-- The four length bytes of a frame are not all zero. -/
theorem Announces.exists_ne_zero {f : List Byte} (h : Announces f) :
    ∃ i < 4, byteAt f i ≠ 0 := by
  by_contra hzero
  push Not at hzero
  refine h.2 ?_
  rw [be32At, hzero 0 (by omega), hzero 1 (by omega), hzero 2 (by omega), hzero 3 (by omega)]
  rfl

/-- A stream that is behind, by the zero bytes that end the previous frame, cannot catch up. -/
theorem not_behind {z : List Byte} (hz : ∀ i, byteAt z i = 0) (hne : z ≠ [])
    {cs fs : List (List Byte)} (hdec : List.Forall₂ Decodes cs fs)
    (hann : ∀ f ∈ fs, Announces f) : cs.flatten ≠ z ++ fs.flatten := by
  intro heq
  have hzpos := List.length_pos_iff.mpr hne
  cases hdec with
  | nil =>
    have := congrArg List.length heq
    simp at this
    omega
  | @cons c f cs fs hcf hrest =>
    obtain ⟨hc, hbytes⟩ := hcf
    have hf := hann f (by simp)
    -- Byte `i` of the frame is byte `i` of the answer, a zero or a byte before it in the frame.
    have hzero : ∀ i < 4, byteAt f i = 0 := by
      intro i
      induction i using Nat.strong_induction_on with
      | _ i ih =>
        intro hi
        have hf4 := hf.1
        rw [← hbytes i (by omega)]
        have hci : byteAt c i = byteAt (z ++ (f :: fs).flatten) i := by
          rw [← heq, List.flatten_cons, byteAt_append_left (by omega)]
        rw [hci]
        by_cases hiz : i < z.length
        · rw [byteAt_append_left hiz, hz]
        · rw [byteAt_append_right (by omega), List.flatten_cons, byteAt_append_left (by omega)]
          exact ih (i - z.length) (by omega) (by omega)
    obtain ⟨i, hi, hne⟩ := hf.exists_ne_zero
    exact hne (hzero i hi)

/-- What an answer shorter than the frame leaves out of it is zero. -/
theorem Decodes.rest_zero {c f a b : List Byte} (h : Decodes c f) (hf : f = a ++ b)
    (hle : c.length ≤ a.length) : ∀ i, byteAt b i = 0 := by
  intro i
  by_cases hi : i < b.length
  · have hb := h.2 (a.length + i) (by rw [hf, List.length_append]; omega)
    rw [byteAt_of_le (by omega), hf, byteAt_append_right (by omega), Nat.add_sub_cancel_left] at hb
    exact hb.symm
  · exact byteAt_of_le (by omega)

/-- A frame that ends in the answer it is decoded from, and starts with something more, is zero
throughout: each byte equals one further on, until the end. -/
theorem not_shifted {t c f : List Byte} (ht : t ≠ []) (hf : f = t ++ c) (hdec : Decodes c f)
    (hann : Announces f) : False := by
  have htpos := List.length_pos_iff.mpr ht
  have hlen : f.length = t.length + c.length := by rw [hf, List.length_append]
  have hshift : ∀ i < f.length, byteAt f i = byteAt f (i + t.length) := by
    intro i hi
    rw [← hdec.2 i hi]
    conv_rhs => rw [hf, byteAt_append_right (by omega), Nat.add_sub_cancel]
  have hzero : ∀ n i, f.length - i ≤ n → byteAt f i = 0 := by
    intro n
    induction n with
    | zero => intro i hi; exact byteAt_of_le (by omega)
    | succ n ih =>
      intro i hi
      by_cases hif : i < f.length
      · rw [hshift i hif]
        exact ih (i + t.length) (by omega)
      · exact byteAt_of_le (by omega)
  obtain ⟨i, -, hne⟩ := hann.exists_ne_zero
  exact hne (hzero (f.length - i) i (Nat.le_refl _))

/-- A stream that is ahead, by the bytes `t` of the next frame, cannot come back in step. -/
theorem not_ahead {cs fs : List (List Byte)} (hdec : List.Forall₂ Decodes cs fs)
    (hann : ∀ f ∈ fs, Announces f) {t : List Byte} (ht : t ≠ []) :
    t ++ cs.flatten ≠ fs.flatten := by
  induction hdec generalizing t with
  | nil => simpa using ht
  | @cons c f cs fs hcf hrest ih =>
    intro heq
    have hann' : ∀ f ∈ fs, Announces f := fun f hf => hann f (by simp [hf])
    have htpos := List.length_pos_iff.mpr ht
    rw [List.flatten_cons, List.flatten_cons, ← List.append_assoc] at heq
    rcases List.append_eq_append_iff.mp heq with ⟨r, hf, hcs⟩ | ⟨t', htc, hfs⟩
    · by_cases hr : r = []
      · subst hr
        rw [List.append_nil] at hf
        exact not_shifted ht hf hcf (hann f (by simp))
      · have hz := hcf.rest_zero hf (by simp)
        exact not_behind hz hr hrest hann' hcs
    · by_cases ht' : t' = []
      · subst ht'
        rw [List.append_nil] at htc
        exact not_shifted ht htc.symm hcf (hann f (by simp))
      · exact ih hann' ht' hfs.symm

/-- Answers that decode to the frames they are a segmentation of are these frames. -/
theorem eq_of_decodes {cs fs : List (List Byte)} (hdec : List.Forall₂ Decodes cs fs)
    (hann : ∀ f ∈ fs, Announces f) (heq : cs.flatten = fs.flatten) : cs = fs := by
  induction hdec with
  | nil => rfl
  | @cons c f cs fs hcf hrest ih =>
    have hann' : ∀ f ∈ fs, Announces f := fun f hf => hann f (by simp [hf])
    rw [List.flatten_cons, List.flatten_cons] at heq
    rcases List.append_eq_append_iff.mp heq with ⟨r, hf, hcs⟩ | ⟨t, hc, hfs⟩
    · by_cases hr : r = []
      · subst hr
        rw [List.append_nil] at hf
        rw [hf, ih hann' hcs]
      · exact absurd hcs (not_behind (hcf.rest_zero hf (Nat.le_refl _)) hr hrest hann')
    · by_cases ht : t = []
      · subst ht
        rw [List.append_nil] at hc
        rw [← hc, ih hann' hfs.symm]
      · exact absurd hfs.symm (not_ahead hrest hann' ht)

/-- Reads that give the messages of `ps` decode their frames. -/
theorem forall₂_decodes (rx : Receiver) {ps cs : List (List Byte)} (hps : ∀ p ∈ ps, Fits p)
    (h : (cs.map fun c => rx.read (.ok c)) = ps.map fun p => .ok (some (rx.message p))) :
    List.Forall₂ Decodes cs (ps.map frame) := by
  rw [← List.forall₂_eq_eq_eq, List.forall₂_map_left_iff, List.forall₂_map_right_iff] at h
  rw [List.forall₂_map_right_iff]
  induction h with
  | nil => exact .nil
  | cons hc _ ih =>
    refine .cons ((rx.read_eq_message_iff (hps _ (by simp))).mp hc) (ih ?_)
    intro p hp
    exact hps p (by simp [hp])

/-- **Streams**: successive reads of a segmentation of frames give the messages, in order and
nothing else, if and only if every `read(2)` returned exactly one frame. -/
theorem readAll_eq_iff (rx : Receiver) (ps cs : List (List Byte))
    (hps : ∀ p ∈ ps, p ≠ [] ∧ Fits p) (hcs : cs.flatten = (ps.map frame).flatten) :
    (cs.map fun c => rx.read (.ok c)) = (ps.map fun p => .ok (some (rx.message p))) ↔
      cs = ps.map frame := by
  have hann : ∀ f ∈ ps.map frame, Announces f := by
    intro f hf
    obtain ⟨p, hp, rfl⟩ := List.mem_map.mp hf
    exact announces_frame (hps p hp).1 (hps p hp).2
  constructor
  · intro h
    exact eq_of_decodes (forall₂_decodes rx (fun p hp => (hps p hp).2) h) hann hcs
  · rintro rfl
    rw [List.map_map, List.map_inj_left]
    intro p hp
    rw [Function.comp_apply, rx.read_eq_message_iff (hps p hp).2]
    exact ⟨(hann (frame p) (List.mem_map_of_mem hp)).1, fun i _ => rfl⟩

/-- A context with one connection, on descriptor 7. -/
def oneClient : Receiver :=
  { ctx := { connections := [{ t := .ipc }], pollfd := [{ fd := 7 }] }
    index := 0
    pollfd := { fd := 7 }
    connection := { t := .ipc }
    pollfd_eq := rfl
    connection_eq := rfl
    not_server := by decide }

/-- `"hi"` and `"ok"`, one `read(2)` answer each. -/
theorem readAll_two_frames :
    ([frame [104, 105], frame [111, 107]].map fun c => oneClient.read (.ok c)) =
      [.ok (some (oneClient.message [104, 105])), .ok (some (oneClient.message [111, 107]))] :=
  (readAll_eq_iff oneClient [[104, 105], [111, 107]] [frame [104, 105], frame [111, 107]]
    (by decide) rfl).mpr rfl

/-- Both frames in one answer: the second message is lost. -/
theorem readAll_glued_frames :
    ¬ ∀ (rx : Receiver) (ps cs : List (List Byte)), (∀ p ∈ ps, p ≠ [] ∧ Fits p) →
      cs.flatten = (ps.map frame).flatten →
      (∀ c ∈ cs, c ≠ [] ∧ c.length ≤ ipcMaxMessageSize) →
      (cs.map fun c => rx.read (.ok c)) = ps.map fun p => .ok (some (rx.message p)) := by
  intro h
  have hlen := congrArg List.length
    (h oneClient [[104, 105], [111, 107]] [frame [104, 105] ++ frame [111, 107]] (by decide) rfl
      (by decide))
  simp at hlen

/-! ## Writing and reading back -/

/-- `Context.write` returns an error and nothing is sent. -/
def Refused (m : Message) (w : WriteResult) : Prop :=
  (∃ e, (Context.write m w).1 = .error e) ∧ (Context.write m w).2 = []

/-- `Context.write` succeeds, and the peer that reads exactly the bytes sent gets the payload. -/
def ReadBack (rx : Receiver) (m : Message) (w : WriteResult) : Prop :=
  (Context.write m w).1 = .ok () ∧
    rx.read (.ok (Context.write m w).2) = .ok (some (rx.message m.payload))

/-- What `Context.write` sends. -/
theorem write_wrote (m : Message) (n : Nat) :
    Context.write m (.wrote n) =
      (.ok (), (be32 (m.payload.length % 2 ^ 32) ++
        m.payload.take (ipcMaxMessageSize - 4)).take n) := by
  rw [Context.write, m.write_eq_ok (by decide)]

theorem write_wrote_of_fits {m : Message} (h : Fits m.payload) (n : Nat) :
    Context.write m (.wrote n) = (.ok (), (frame m.payload).take n) := by
  have hword : m.payload.length < 2 ^ 32 := by
    rw [Fits, ipcMaxMessageSize_eq] at h
    omega
  rw [write_wrote, Nat.mod_eq_of_lt hword, List.take_of_length_le h, frame]

theorem byteAt_frame_add (p : List Byte) (i : Nat) : byteAt (frame p) (4 + i) = byteAt p i := by
  rw [frame, byteAt_append_right (by simp), length_be32, Nat.add_sub_cancel_left]

/-- The zero-filled beginning of a frame is the frame when nothing but zeros is cut off. -/
theorem byteAt_take_frame_iff {p : List Byte} {n : Nat} (hn : 4 < n) :
    (∀ i < (frame p).length, byteAt ((frame p).take n) i = byteAt (frame p) i) ↔
      ∀ b ∈ p.drop (n - 4), b = 0 := by
  have hlen := length_frame p
  rw [ipcHeaderSize_eq] at hlen
  constructor
  · intro h b hb
    obtain ⟨j, hj, rfl⟩ := List.getElem_of_mem hb
    rw [List.length_drop] at hj
    have hcut := h (4 + (n - 4 + j)) (by omega)
    rw [byteAt_take, if_neg (by omega), byteAt_frame_add, byteAt_of_lt (by omega)] at hcut
    rw [List.getElem_drop]
    exact hcut.symm
  · intro h i hi
    rw [byteAt_take]
    split
    · rfl
    · obtain ⟨j, rfl⟩ : ∃ j, i = 4 + j := Nat.exists_eq_add_of_le (by omega)
      rw [byteAt_frame_add, byteAt_of_lt (by omega)]
      refine (h p[j] ?_).symm
      rw [List.mem_drop_iff_getElem]
      exact ⟨j - (n - 4), by omega, by congr 1; omega⟩

/-- No message longer than the buffer is ever read. -/
theorem Receiver.read_ne_of_not_fits (rx : Receiver) {p : List Byte} (hp : ¬ Fits p)
    (bs : List Byte) : rx.read (.ok bs) ≠ .ok (some (rx.message p)) := by
  intro hread
  rw [Receiver.read_ok] at hread
  split at hread
  · cases hread
  · cases hm : Message.read rx.pollfd.fd bs ipcMaxMessageSize with
    | error e =>
      rw [hm] at hread
      cases hread
    | ok m =>
      rw [hm] at hread
      simp only [Except.map, Except.ok.injEq, Option.some.injEq] at hread
      have hle := Message.length_payload_le hm
      rw [hread] at hle
      exact hp hle

/-- **Inverse**: the law holds exactly when `write(2)` fails, or the payload is not empty and fits
the buffer, and `write(2)` accepts it but for trailing zeros. -/
theorem refused_or_readBack_iff (rx : Receiver) (m : Message) (w : WriteResult) :
    Refused m w ∨ ReadBack rx m w ↔
      w = .error ∨ ∃ n, w = .wrote n ∧ m.payload ≠ [] ∧ Fits m.payload ∧ 4 < n ∧
        ∀ b ∈ m.payload.drop (n - 4), b = 0 := by
  cases w with
  | error =>
    have hrefused : Refused m .error := by
      rw [Refused, Context.write, m.write_eq_ok (by decide)]
      exact ⟨⟨.os, rfl⟩, rfl⟩
    simp [hrefused]
  | wrote n =>
    have hnot : ¬ Refused m (.wrote n) := by
      rw [Refused, write_wrote]
      simp
    rw [or_iff_right hnot]
    simp only [reduceCtorEq, false_or, WriteResult.wrote.injEq, exists_eq_left']
    by_cases hfits : Fits m.payload
    · rw [ReadBack, write_wrote_of_fits hfits, rx.read_eq_message_iff hfits]
      by_cases hn : 4 < n
      · rw [byteAt_take_frame_iff hn]
        simp [hfits, hn, ipcHeaderSize_eq, List.length_pos_iff]
      · simp [hn]
    · simp only [hfits, false_and, and_false, iff_false]
      rintro ⟨-, hread⟩
      exact rx.read_ne_of_not_fits hfits _ hread

/-- An empty payload is sent as four bytes, which the peer takes for a disconnection. -/
theorem not_readBack_empty :
    ¬ (Refused { fd := 5, payload := [] } (.wrote 4) ∨
      ReadBack oneClient { fd := 5, payload := [] } (.wrote 4)) := by
  have hwrite : Context.write { fd := 5, payload := [] } (.wrote 4) = (.ok (), [0, 0, 0, 0]) := rfl
  have hread : oneClient.read (.ok [0, 0, 0, 0]) = .ok none := rfl
  rw [Refused, ReadBack, hwrite, hread]
  simp

end LibIpc.Zig

import LibIpc.C.Stream
import LibIpc.C.Delivery

/-!
# Frames on their way out

The encoder accepts a payload of `IPC_MAX_MESSAGE_SIZE` bytes; the send buffers and the decoder
count the header in. The two agree on the payloads that leave room for the header.

`send(2)` may accept only the first bytes of a frame. The rest is never sent: the message leaves the
queue all the same, and the next message is sent as if nothing had happened. So the stream on a
descriptor stays a sequence of frames only while a cut frame is the last thing accepted.
-/

namespace LibIpc.C

open Lib

/-! ## The size limits -/

/-- `m` can be sent from the buffers of `ipc_write_fd` and `default_cb_out`, and its frame is
decoded, into a message that held `m₀`, as a message with the same fields. -/
def EncodesAndDecodes (m₀ m : IpcMessage) : Prop :=
  (∀ s, (ipcWriteFd m s).isSome ∧ (defaultCbOut (some m) s).isSome) ∧
  ∀ frame, ipcMessageFormatWrite m = .ok frame →
    ∃ m', ipcMessageFormatRead m₀ frame frame.length = .ok m' ∧ m'.type = m.type ∧
      m'.userType = m.userType ∧ m'.length = m.length ∧ m'.payload = some m.content

theorem ipcMessageFormatWrite_eq {m : IpcMessage} (h : m.length ≤ ipcMaxMessageSize) :
    ipcMessageFormatWrite m = .ok m.frame := by
  rw [ipcMessageFormatWrite, if_neg (Nat.not_lt.mpr h)]

/-- A payload that leaves no room for the header overflows the buffer of `ipc_write_fd`. -/
theorem ipcWriteFd_eq_none {m : IpcMessage} (h : m.length ≤ ipcMaxMessageSize)
    (hroom : ¬ m.length ≤ ipcMaxMessageSize - ipcHeaderSize) (s : SendResult) :
    ipcWriteFd m s = none := by
  have hlong : m.frame.length > ipcMaxMessageSize := by
    rw [IpcMessage.length_frame]
    omega
  simp only [ipcWriteFd, ipcMessageFormatWrite_eq h, if_pos hlong]

theorem length_frame_le {m : IpcMessage} (h : m.length ≤ ipcMaxMessageSize - ipcHeaderSize) :
    m.frame.length ≤ ipcMaxMessageSize := by
  rw [IpcMessage.length_frame]
  rw [ipcMaxMessageSize_eq, ipcHeaderSize_eq] at *
  omega

/-- Within the limit both peers share, `default_cb_out` sends the frame. -/
theorem defaultCbOut_eq {m : IpcMessage} (s : SendResult)
    (h : m.length ≤ ipcMaxMessageSize - ipcHeaderSize) :
    ∃ r, defaultCbOut (some m) s = some (r, m.frame) := by
  have hfits : ¬ m.frame.length > ipcMaxMessageSize := Nat.not_lt.mpr (length_frame_le h)
  have hle : m.length ≤ ipcMaxMessageSize := Nat.le_trans h (Nat.sub_le _ _)
  simp only [defaultCbOut, ipcMessageFormatWrite_eq hle, if_neg hfits]
  cases s with
  | sent n => exact ⟨_, rfl⟩
  | error => exact ⟨_, rfl⟩

/-- **Limits**: a message the encoder accepts can be sent and is decoded as itself exactly when
its payload leaves room for the header. -/
theorem encodesAndDecodes_iff (m₀ : IpcMessage) {m : IpcMessage}
    (h : m.length ≤ ipcMaxMessageSize) :
    EncodesAndDecodes m₀ m ↔ m.length ≤ ipcMaxMessageSize - ipcHeaderSize := by
  constructor
  · intro hm
    by_contra hroom
    have hsend := (hm.1 .error).1
    rw [ipcWriteFd_eq_none h hroom] at hsend
    cases hsend
  · intro hroom
    refine ⟨?_, ?_⟩
    · intro s
      obtain ⟨e, hwrite⟩ := ipcWriteFd_eq s hroom
      obtain ⟨r, hout⟩ := defaultCbOut_eq s hroom
      rw [hwrite, hout]
      exact ⟨rfl, rfl⟩
    · intro frame hframe
      rw [ipcMessageFormatWrite_eq h, Except.ok.injEq] at hframe
      subst hframe
      have hread := (ipcMessageFormatRead_frame_iff m₀ m m.frame (length_frame_le hroom)).mpr
        (fun _ _ => rfl)
      exact ⟨m.received m₀, hread, rfl, rfl, rfl, rfl⟩

/-- A message whose payload is `n` times the letter `a`. -/
def IpcMessage.ofLetters (n : Nat) (h : n < 2 ^ 32) : IpcMessage :=
  .ofPayload 2 1 5 (List.replicate n 97) (by rwa [List.length_replicate])

theorem IpcMessage.length_ofLetters (n : Nat) (h : n < 2 ^ 32) :
    (IpcMessage.ofLetters n h).length = n := List.length_replicate

/-- The largest message that goes through. -/
theorem encodesAndDecodes_largest :
    EncodesAndDecodes default (.ofLetters 1999988 (by decide)) :=
  (encodesAndDecodes_iff default (by rw [IpcMessage.length_ofLetters]; decide)).mpr
    (by rw [IpcMessage.length_ofLetters]; decide)

/-- One byte more: five bytes short of what the encoder accepts, and already too long for the
buffer it is encoded into. -/
theorem not_encodesAndDecodes_one_more :
    (IpcMessage.ofLetters 1999989 (by decide)).length ≤ ipcMaxMessageSize ∧
      ¬ EncodesAndDecodes default (.ofLetters 1999989 (by decide)) := by
  have hle : (IpcMessage.ofLetters 1999989 (by decide)).length ≤ ipcMaxMessageSize := by
    rw [IpcMessage.length_ofLetters]
    decide
  refine ⟨hle, ?_⟩
  intro h
  have hsend := (h.1 .error).1
  rw [ipcWriteFd_eq_none hle (by rw [IpcMessage.length_ofLetters]; decide)] at hsend
  cases hsend

/-! ## The outgoing stream -/

/-- The bytes of `bs` that `send(2)` accepted. -/
def SendResult.accepted (s : SendResult) (bs : List Byte) : List Byte :=
  match s with
  | .sent n => bs.take n
  | .error => []

/-- The bytes emitted on `fd`. -/
def emitted (fd : Fd) (io : List Io) : List Byte :=
  ((transmissions io).filter fun t => t.1 = fd).flatMap fun t => t.2.2.accepted t.2.1

/-- Of these calls of `send(2)`, none accepts a byte after one that cut its frame. -/
def OnlyLastCut : List (List Byte × SendResult) → Prop
  | [] => True
  | (bs, s) :: ts =>
    (s.accepted bs = [] ∨ s.accepted bs = bs ∨ ∀ t ∈ ts, t.2.accepted t.1 = []) ∧ OnlyLastCut ts

instance decidableOnlyLastCut : ∀ ts, Decidable (OnlyLastCut ts)
  | [] => isTrue trivial
  | _ :: ts =>
    have := decidableOnlyLastCut ts
    inferInstanceAs (Decidable ((_ ∨ _ ∨ _) ∧ OnlyLastCut ts))

/-- Whole frames of some of the messages `ms`, each at most once, then possibly the beginning of
the frame of one more. -/
def Framed (ms : List IpcMessage) (bs : List Byte) : Prop :=
  ∃ (whole : List IpcMessage) (part : List Byte),
    bs = whole.flatMap IpcMessage.frame ++ part ∧
    (part = [] ∧ whole.Sublist ms ∨
      ∃ m, (whole ++ [m]).Sublist ms ∧ part <+: m.frame ∧ part ≠ m.frame)

theorem Framed.cons {ms : List IpcMessage} {bs : List Byte} (h : Framed ms bs) (m : IpcMessage) :
    Framed (m :: ms) (m.frame ++ bs) := by
  obtain ⟨whole, part, rfl, ⟨rfl, hsub⟩ | ⟨m', hsub, hpart⟩⟩ := h
  · exact ⟨m :: whole, [], by simp, .inl ⟨rfl, hsub.cons_cons m⟩⟩
  · exact ⟨m :: whole, part, by simp, .inr ⟨m', hsub.cons_cons m, hpart⟩⟩

theorem Framed.skip {ms : List IpcMessage} {bs : List Byte} (h : Framed ms bs) (m : IpcMessage) :
    Framed (m :: ms) bs := by
  obtain ⟨whole, part, hbs, ⟨rfl, hsub⟩ | ⟨m', hsub, hpart⟩⟩ := h
  · exact ⟨whole, [], hbs, .inl ⟨rfl, hsub.cons m⟩⟩
  · exact ⟨whole, part, hbs, .inr ⟨m', hsub.cons m, hpart⟩⟩

/-- What `send(2)` accepts of the frames of `ms`, when only the last one is cut. -/
theorem framed_of_onlyLastCut {ms : List IpcMessage} {ts : List (List Byte × SendResult)}
    (hts : ts.map Prod.fst = ms.map IpcMessage.frame) (hcut : OnlyLastCut ts) :
    Framed ms (ts.flatMap fun t => t.2.accepted t.1) := by
  induction ts generalizing ms with
  | nil =>
    rw [List.map_nil, eq_comm, List.map_eq_nil_iff] at hts
    subst hts
    exact ⟨[], [], rfl, .inl ⟨rfl, .refl _⟩⟩
  | cons t ts ih =>
    obtain ⟨bs, s⟩ := t
    cases ms with
    | nil => cases hts
    | cons m ms =>
      rw [List.map_cons, List.map_cons, List.cons.injEq] at hts
      obtain ⟨rfl, hts⟩ := hts
      obtain ⟨hfirst, hrest⟩ := hcut
      rw [List.flatMap_cons]
      by_cases hnone : s.accepted m.frame = []
      · simp only [hnone, List.nil_append]
        exact (ih hts hrest).skip m
      · by_cases hall : s.accepted m.frame = m.frame
        · simp only [hall]
          exact (ih hts hrest).cons m
        · -- The frame is cut: nothing is accepted after it.
          have hlast := (hfirst.resolve_left hnone).resolve_left hall
          have hnil : (ts.flatMap fun t => t.2.accepted t.1) = [] := by
            simpa [List.flatMap_eq_nil_iff] using hlast
          rw [hnil, List.append_nil]
          refine ⟨[], s.accepted m.frame, rfl, .inr ⟨m, ?_, ?_, hall⟩⟩
          · exact List.singleton_sublist.mpr (by simp)
          · cases s with
            | sent n => exact List.take_prefix n m.frame
            | error => exact List.nil_prefix

/-- Sending nothing emits nothing. -/
theorem emitted_eq (fd : Fd) (io : List Io) :
    emitted fd io = (sentOn fd io).flatMap fun t => t.2.accepted t.1 := by
  unfold emitted sentOn
  induction transmissions io with
  | nil => rfl
  | cons t ts ih =>
    obtain ⟨fd', bs, s⟩ := t
    by_cases hfd : fd' = fd
    · by_cases hbs : bs = []
      · have hnil : s.accepted [] = [] := by cases s <;> simp [SendResult.accepted]
        simpa [List.filter_cons, hfd, hbs, hnil] using ih
      · simpa [List.filter_cons, hfd, hbs] using ih
    · simpa [List.filter_cons, hfd] using ih

/-- Along a run, what is sent on each descriptor are frames of messages handed over. -/
theorem runAll_sendsHanded {ctx ctx' : IpcCtx} (h : ReachableCtx ctx) {cs : List Call}
    {io : List Io} (hrun : runAll step ctx cs = some (ctx', io)) : SendsHanded io := by
  have hind := runAll_induction (G := fun _ _ => True)
    (P := fun ctx => ∃ v : View, ctx = .ofView v ∧ v.Tracked)
    (Q := fun _ io _ => SendsHanded io)
    (fun _ _ => sendsHanded_of_nil rfl) ?_ h.exists_view (runMeets_true ctx cs) hrun
  · exact hind.2
  · rintro ctx c ctx₁ io₁ ⟨v, rfl, htracked⟩ - hstep
    obtain ⟨v₁, rfl, hrefines⟩ := step_refines htracked hstep
    exact ⟨⟨v₁, rfl, hrefines.tracked⟩, fun _ _ hsent => hrefines.sent.append hsent⟩

/-- The bytes emitted on `fd` between two contexts, with `io` in between, are frames of messages
that waited for `fd` or were queued for it, each sent at most once. -/
def StreamFramed (fd : Fd) (ctx : IpcCtx) (io : List Io) : Prop :=
  ∃ ms : List IpcMessage,
    ms.Subperm (ctx.waiting fd ++ queuedIn IpcMessage.fd fd (queueEvents io)) ∧
    Framed ms (emitted fd io)

/-- One connection, on descriptor 5, and two messages for it; `send(2)` accepts `n` bytes of the
first frame and `k` of the second (eight bytes each). -/
def twoSends (n k : Nat) : List Call :=
  [.connection 0 (.ok 5), .write (.ofPayload 1 0 5 [97, 98]), .write (.ofPayload 2 0 5 [99, 100]),
    .waitEvent 1000 { poll := some [{ pollout := true }], send := .sent n },
    .waitEvent 1000 { poll := some [{ pollout := true }], send := .sent k }]

/-- A framed stream starts with a frame, or is the beginning of one. -/
theorem Framed.starts {ms : List IpcMessage} {bs : List Byte} (h : Framed ms bs) (hbs : bs ≠ []) :
    ∃ m ∈ ms, m.frame <+: bs ∨ bs <+: m.frame := by
  obtain ⟨whole, part, rfl, hpart⟩ := h
  cases whole with
  | nil =>
    rcases hpart with ⟨rfl, -⟩ | ⟨m, hsub, hbegin, -⟩
    · exact absurd rfl hbs
    · exact ⟨m, hsub.subset (by simp), .inr hbegin⟩
  | cons m whole =>
    have hframe : m.frame <+: (m :: whole).flatMap IpcMessage.frame ++ part := by
      rw [List.flatMap_cons, List.append_assoc]
      exact List.prefix_append _ _
    rcases hpart with ⟨-, hsub⟩ | ⟨m', hsub, -⟩
    · exact ⟨m, hsub.subset (by simp), .inl hframe⟩
    · exact ⟨m, hsub.subset (by simp), .inl hframe⟩

end LibIpc.C

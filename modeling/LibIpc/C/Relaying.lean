import LibIpc.C.Involution
import LibIpc.C.Invariant
import LibIpc.C.Delivery

/-!
# Callbacks and messages of a switch (`fd_switching_read`, `fd_switching_write`)

Both functions call one callback of the end they handle and go by its verdict. `fd_switching_write`
looks at the input callback to decide whether the output callback is called: `rightCallbacks_iff`
says when that is the right one, whatever was registered and in which order. `fd_switching_read`
does not look at the result of `ipc_write`: `notDropped_iff` says when the message it announces has
been queued.
-/

namespace LibIpc.C

open Lib

/-! ## Registrations -/

/-- A call of `ipc_switching_callbacks` or of `ipc_switching_callbacks_`. -/
inductive Registration where
  | both (fd : Fd) (cbIn cbOut : Option Callback)
  | inputOnly (fd : Fd) (cbIn : Option Callback)

/-- The end the callbacks are for. -/
def Registration.fd : Registration → Fd
  | .both fd _ _ => fd
  | .inputOnly fd _ => fd

/-- The input and the output callback. -/
def Registration.callbacks : Registration → Option Callback × Option Callback
  | .both _ cbIn cbOut => (cbIn, cbOut)
  | .inputOnly _ cbIn => (cbIn, none)

/-- One registration. -/
def register (sw : IpcSwitchings) : Registration → Option IpcSwitchings
  | .both fd cbIn cbOut => ipcSwitchingCallbacks sw fd cbIn cbOut
  | .inputOnly fd cbIn => ipcSwitchingCallbacks_ sw fd cbIn

/-- The input and the output callback of the end `fd` of a record. -/
def IpcSwitching.callbacksAt (s : IpcSwitching) (fd : Fd) : Option Callback × Option Callback :=
  if s.orig = fd then (s.origIn, s.origOut) else (s.destIn, s.destOut)

/-- The callbacks of a descriptor in a table. -/
def callbacksOf (l : List IpcSwitching) (fd : Fd) : Option Callback × Option Callback :=
  ((pairOf l fd).map fun s => s.callbacksAt fd).getD (none, none)

/-- The callbacks registered for a descriptor: the last ones, or those the table had before. -/
def registered (l : List IpcSwitching) (regs : List Registration) (fd : Fd) :
    Option Callback × Option Callback :=
  regs.foldl (fun cbs r => if r.fd = fd then r.callbacks else cbs) (callbacksOf l fd)

/-- The same record is found first when the descriptors are the same. -/
theorem findIdx?_of_ends {l l' : List IpcSwitching}
    (h : l'.map IpcSwitching.ends = l.map IpcSwitching.ends) (fd : Fd) :
    l'.findIdx? (fun s => s.mentions fd) = l.findIdx? fun s => s.mentions fd := by
  have hmap : ∀ l : List IpcSwitching, l.findIdx? (fun s => s.mentions fd) =
      (l.map IpcSwitching.ends).findIdx? fun p => p.1 = fd ∨ p.2 = fd := by
    intro l
    rw [List.findIdx?_map]
    rfl
  rw [hmap, hmap, h]

theorem callbacksAt_withCallbacks (s : IpcSwitching) (fd : Fd) (cbIn cbOut : Option Callback) :
    (s.withCallbacks fd cbIn cbOut).callbacksAt fd = (cbIn, cbOut) := by
  unfold IpcSwitching.withCallbacks IpcSwitching.callbacksAt
  by_cases h : s.orig = fd
  · simp [h]
  · simp [h]

/-- The other end of the record keeps its callbacks. -/
theorem callbacksAt_withCallbacks_ne {s : IpcSwitching} {fd x : Fd} (hs : s.mentions fd)
    (hx : s.mentions x) (hne : fd ≠ x) (cbIn cbOut : Option Callback) :
    (s.withCallbacks fd cbIn cbOut).callbacksAt x = s.callbacksAt x := by
  simp only [IpcSwitching.mentions, decide_eq_true_eq] at hs hx
  unfold IpcSwitching.withCallbacks IpcSwitching.callbacksAt
  by_cases h : s.orig = fd
  · simp [h, hne]
  · have hdest := hs.resolve_left h
    have horig : s.orig = x := hx.resolve_right (hdest ▸ hne)
    rw [if_neg h, if_pos horig, if_pos horig]

theorem callbacksOf_set {l : List IpcSwitching} {fd : Fd} {i : Nat} {s : IpcSwitching}
    (hidx : l.findIdx? (fun s => s.mentions fd) = some i) (hs : l[i]? = some s) {x : Fd}
    (hx : ∃ s ∈ l, s.mentions x) (cbIn cbOut : Option Callback) :
    callbacksOf (l.set i (s.withCallbacks fd cbIn cbOut)) x =
      if fd = x then (cbIn, cbOut) else callbacksOf l x := by
  obtain ⟨hlt, rfl⟩ := List.getElem?_eq_some_iff.mp hs
  have hmentions : l[i].mentions fd := (List.findIdx?_eq_some_iff_getElem.mp hidx).2.1
  have hends : (l.set i (l[i].withCallbacks fd cbIn cbOut)).map IpcSwitching.ends =
      l.map IpcSwitching.ends := by
    rw [List.map_set, ends_withCallbacks, ← List.map_set, List.set_getElem_self]
  obtain ⟨j, t, hj, ht, hpair⟩ := (pairOf_cases l x).resolve_left (by
    rintro ⟨-, hnone⟩
    obtain ⟨s', hs', hx'⟩ := hx
    exact pairOf_eq_none.mp hnone s' hs' hx')
  obtain ⟨j', t', hj', ht', hpair'⟩ :=
    (pairOf_cases (l.set i (l[i].withCallbacks fd cbIn cbOut)) x).resolve_left (by
      rintro ⟨hnone, -⟩
      rw [findIdx?_of_ends hends, hj] at hnone
      cases hnone)
  rw [findIdx?_of_ends hends, hj, Option.some.injEq] at hj'
  subst hj'
  have htx : t.mentions x := by
    have hfind : l.find? (fun s => s.mentions x) = some t := hpair
    exact List.find?_some (p := (IpcSwitching.mentions · x)) hfind
  rw [callbacksOf, callbacksOf, hpair, hpair', Option.map_some, Option.map_some, Option.getD_some,
    Option.getD_some]
  by_cases hij : i = j
  · subst hij
    rw [List.getElem?_set_self hlt, Option.some.injEq] at ht'
    rw [hs, Option.some.injEq] at ht
    subst ht
    subst ht'
    by_cases hfd : fd = x
    · rw [if_pos hfd, ← hfd, callbacksAt_withCallbacks]
    · rw [if_neg hfd, callbacksAt_withCallbacks_ne hmentions htx hfd]
  · rw [List.getElem?_set_ne hij, ht, Option.some.injEq] at ht'
    subst ht'
    -- Another record comes first for `x`, so `x` is not the end that was registered.
    have hfd : ¬ fd = x := by
      rintro rfl
      exact hij (Option.some.inj (hidx.symm.trans hj))
    rw [if_neg hfd]

theorem register_ofList (l : List IpcSwitching) (r : Registration) :
    ∃ l', register (.ofList l) r = some (.ofList l') ∧
      l'.map IpcSwitching.ends = l.map IpcSwitching.ends ∧
      ∀ x, (∃ s ∈ l, s.mentions x) →
        callbacksOf l' x = if r.fd = x then r.callbacks else callbacksOf l x := by
  have hregister : register (.ofList l) r =
      ipcSwitchingCallbacks (.ofList l) r.fd r.callbacks.1 r.callbacks.2 := by
    cases r <;> rfl
  rw [hregister]
  rcases pairOf_cases l r.fd with ⟨hidx, hpair⟩ | ⟨i, s, hidx, hs, -⟩
  · refine ⟨l, ipcSwitchingCallbacks_absent _ _ hidx, rfl, ?_⟩
    rintro x ⟨s, hs, hx⟩
    have hne : ¬ r.fd = x := by
      rintro rfl
      exact pairOf_eq_none.mp hpair s hs hx
    rw [if_neg hne]
  · refine ⟨_, ipcSwitchingCallbacks_found _ _ hidx hs, ?_, ?_⟩
    · obtain ⟨hlt, rfl⟩ := List.getElem?_eq_some_iff.mp hs
      rw [List.map_set, ends_withCallbacks, ← List.map_set, List.set_getElem_self]
    · intro x hx
      rw [callbacksOf_set hidx hs hx]

theorem mentions_of_ends {l l' : List IpcSwitching}
    (h : l'.map IpcSwitching.ends = l.map IpcSwitching.ends) {fd : Fd}
    (hl : ∃ s ∈ l, s.mentions fd) : ∃ s ∈ l', s.mentions fd := by
  obtain ⟨s, hs, hfd⟩ := hl
  have hmem : s.ends ∈ l'.map IpcSwitching.ends := h ▸ List.mem_map_of_mem hs
  obtain ⟨s', hs', heq⟩ := List.mem_map.mp hmem
  exact ⟨s', hs', by rwa [mentions_congr heq]⟩

/-- Any registrations: every end has the callbacks registered for it last. -/
theorem registerAll_ofList (l : List IpcSwitching) (regs : List Registration) :
    ∃ l', regs.foldlM register (.ofList l) = some (.ofList l') ∧
      ∀ x, (∃ s ∈ l, s.mentions x) →
        (∃ s ∈ l', s.mentions x) ∧ callbacksOf l' x = registered l regs x := by
  induction regs generalizing l with
  | nil => exact ⟨l, rfl, fun x hx => ⟨hx, rfl⟩⟩
  | cons r regs ih =>
    obtain ⟨l₁, hregister, hends, hcallbacks⟩ := register_ofList l r
    obtain ⟨l₂, hrest, hall⟩ := ih l₁
    refine ⟨l₂, ?_, ?_⟩
    · rw [List.foldlM_cons, hregister]
      exact hrest
    · intro x hx
      obtain ⟨hx₂, heq⟩ := hall x (mentions_of_ends hends hx)
      refine ⟨hx₂, ?_⟩
      rw [heq, registered, registered, List.foldl_cons, hcallbacks x hx]

/-! ## The callback that is called -/

/-- Reading through the input callback `cb`, `default_cb_in` when it is `NULL`: the verdict, and
what was called. -/
def throughIn (cb : Option Callback) (fd : Fd) (sys : SwitchSys) : Option (IpcCb × List Io) :=
  match cb with
  | none => (defaultCbIn default sys.recv).map fun (r, _) => (r, [])
  | some cb => some (sys.cbIn.1, [.callIn cb fd])

/-- Sending through the output callback `cb`, `default_cb_out` when it is `NULL`. -/
def throughOut (cb : Option Callback) (fd : Fd) (m : Option IpcMessage) (sys : SwitchSys) :
    Option (IpcCb × List Io) :=
  match cb with
  | none => (defaultCbOut m sys.send).map fun (r, bs) => (r, [.send fd bs sys.send])
  | some cb => some (sys.cbOut, [.callOut cb fd])

/-- The event announced after reading with this verdict. -/
def readEvent : IpcCb → IpcEventType
  | .noError | .ignore => .switch
  | .fdClosing => .disconnection
  | .fdError | .parsingError => .error

/-- The event announced after sending with this verdict. -/
def writeEvent : IpcCb → IpcEventType
  | .noError => .tx
  | .fdClosing => .disconnection
  | .fdError | .parsingError | .ignore => .error

/-- The call makes these calls and no others, and announces their verdict; it does not return when
they do not. -/
def Through (call : Option (IpcErrorCode × IpcCtx × IpcEvent × List Io))
    (announced : IpcCb → IpcEventType) : Option (IpcCb × List Io) → Prop
  | none => call = none
  | some (verdict, called) => ∃ r ctx event io, call = some (r, ctx, event, io) ∧
      event.type = announced verdict ∧ calls io = called

/-- With the table `l`, whatever else the context holds, reading on `fd` goes through the first of
these callbacks and sending on it through the second. -/
def RightCallbacks (l : List IpcSwitching) (fd : Fd) (cbs : Option Callback × Option Callback) :
    Prop :=
  ∀ (v : View) (i : Nat) (e : IpcConnectionInfo × PollFd), v.switchdb = l → v.Tracked →
    v.conns[i]? = some e → e.2.fd = fd → ∀ (event : IpcEvent) (sys : SwitchSys),
      Through (fdSwitchingRead event (.ofView v) i sys) readEvent (throughIn cbs.1 fd sys) ∧
        ∀ found, searchMessage (.ofList v.tx) fd = some found →
          Through (fdSwitchingWrite event (.ofView v) i sys) writeEvent
            (throughOut cbs.2 fd (found.map fun f => f.2.2) sys)

/-- A call goes through one thing only. -/
theorem Through.called_eq {call : Option (IpcErrorCode × IpcCtx × IpcEvent × List Io)}
    {announced : IpcCb → IpcEventType} {x y : Option (IpcCb × List Io)}
    (hx : Through call announced x) (hy : Through call announced y) :
    x.map Prod.snd = y.map Prod.snd := by
  cases x with
  | none =>
    cases y with
    | none => rfl
    | some y =>
      obtain ⟨r, ctx, event, io, hcall, -⟩ := hy
      exact absurd (hx.symm.trans hcall) (by simp)
  | some x =>
    obtain ⟨r, ctx, event, io, hcall, -, hcalled⟩ := hx
    cases y with
    | none => exact absurd (hy.symm.trans hcall) (by simp)
    | some y =>
      obtain ⟨r', ctx', event', io', hcall', -, hcalled'⟩ := hy
      rw [hcall, Option.some.injEq] at hcall'
      cases hcall'
      simp [← hcalled, ← hcalled']

theorem callbacksAt_fst (s : IpcSwitching) (fd : Fd) :
    (if s.orig = fd then s.origIn else s.destIn) = (s.callbacksAt fd).1 := by
  unfold IpcSwitching.callbacksAt
  split <;> rfl

theorem callbacksAt_snd (s : IpcSwitching) (fd : Fd) :
    (if s.orig = fd then s.origOut else s.destOut) = (s.callbacksAt fd).2 := by
  unfold IpcSwitching.callbacksAt
  split <;> rfl

theorem switchingCbIn_through (s : IpcSwitching) (fd : Fd) (sys : SwitchSys) :
    (switchingCbIn s fd sys).map (fun (r, _, _, called) => (r, called)) =
      throughIn (s.callbacksAt fd).1 fd sys := by
  rw [switchingCbIn, callbacksAt_fst]
  cases (s.callbacksAt fd).1 with
  | none =>
    simp only [throughIn, Option.map_map]
    rfl
  | some cb => rfl

theorem calls_switchingCbIn {s : IpcSwitching} {fd : Fd} {sys : SwitchSys} {r : IpcCb}
    {m : IpcMessage} {more : Int} {called : List Io}
    (h : switchingCbIn s fd sys = some (r, m, more, called)) : calls called = called := by
  rw [calls, List.filter_eq_self]
  intro x hx
  obtain ⟨cb, fd', rfl⟩ := silent_switchingCbIn h x hx
  rfl

theorem calls_switchingCbOut {s : IpcSwitching} {fd : Fd} {m : Option IpcMessage}
    {sys : SwitchSys} {r : IpcCb} {called : List Io}
    (h : switchingCbOut s fd m sys = some (r, called)) : calls called = called := by
  unfold switchingCbOut at h
  split at h
  · obtain ⟨⟨r', bs⟩, -, h⟩ := Option.map_eq_some_iff.mp h
    cases h
    rfl
  · obtain ⟨cb, -, h⟩ := Option.map_eq_some_iff.mp h
    cases h
    rfl

/-- The input callback decides whether the output callback is called. -/
theorem switchingCbOut_eq (s : IpcSwitching) (fd : Fd) (m : Option IpcMessage) (sys : SwitchSys) :
    switchingCbOut s fd m sys =
      if (s.callbacksAt fd).1 = none then throughOut none fd m sys
      else (s.callbacksAt fd).2.map fun cb => (sys.cbOut, [.callOut cb fd]) := by
  rw [switchingCbOut, callbacksAt_fst, callbacksAt_snd]
  cases (s.callbacksAt fd).1 with
  | none => rfl
  | some cb => rfl

/-- The right callback is called where both are registered, or none: the log tells. -/
theorem switchingCbOut_called_iff {s : IpcSwitching} {fd : Fd} {m : Option IpcMessage}
    {sys : SwitchSys} (hm : (defaultCbOut m sys.send).isSome) :
    (throughOut (s.callbacksAt fd).2 fd m sys).map Prod.snd =
        (switchingCbOut s fd m sys).map Prod.snd ↔
      ((s.callbacksAt fd).1 = none ↔ (s.callbacksAt fd).2 = none) := by
  obtain ⟨⟨r, bs⟩, hdefault⟩ := Option.isSome_iff_exists.mp hm
  rw [switchingCbOut_eq]
  cases (s.callbacksAt fd).1 with
  | none =>
    cases (s.callbacksAt fd).2 with
    | none => simp
    | some cb => simp [throughOut, hdefault]
  | some cb' =>
    cases (s.callbacksAt fd).2 with
    | none => simp [throughOut, hdefault]
    | some cb => simp [throughOut]

theorem switchingCbOut_through {s : IpcSwitching} {fd : Fd}
    (h : (s.callbacksAt fd).1 = none ↔ (s.callbacksAt fd).2 = none) (m : Option IpcMessage)
    (sys : SwitchSys) :
    switchingCbOut s fd m sys = throughOut (s.callbacksAt fd).2 fd m sys := by
  rw [switchingCbOut_eq]
  cases hout : (s.callbacksAt fd).2 with
  | none => rw [if_pos (h.mpr hout)]
  | some cb =>
    rw [if_neg (mt h.mp (by simp [hout]))]
    rfl

section Calls
variable {v : View} {i : Nat} {e : IpcConnectionInfo × PollFd} {s : IpcSwitching}

theorem switchdb_size_ne_zero (hs : pairOf v.switchdb e.2.fd = some s) :
    ¬ (IpcCtx.ofView v).switchdb.size = 0 := by
  intro hsize
  have hnil : v.switchdb = [] := List.eq_nil_of_length_eq_zero hsize
  rw [hnil] at hs
  cases hs

/-- A message read is queued for the other end, where the other end is tracked. -/
theorem fdSwitchingRead_noError (hget : v.conns[i]? = some e)
    (hs : pairOf v.switchdb e.2.fd = some s) (event : IpcEvent) {sys : SwitchSys}
    {m : IpcMessage} {more : Int} {called : List Io}
    (hcb : switchingCbIn s e.2.fd sys = some (.noError, m, more, called)) :
    ∃ w es, fdSwitchingRead event (.ofView v) i sys =
        some (.none, .ofView w, { type := .switch, index := i, origin := e.2.fd, m := none },
          called ++ es.map .queue) ∧
      Queued (v.touch i e more e.2) { m with fd := s.other e.2.fd } es w := by
  obtain ⟨r, w, es, hwrite, hqueued⟩ := ipcWrite_ofView (v.touch i e more e.2)
    { m with fd := s.other e.2.fd }
  refine ⟨w, es, ?_, hqueued⟩
  have hget_ : ipcSwitchingGet_ (.ofList v.switchdb) e.2.fd = some (some s) := by
    rw [ipcSwitchingGet_ofList, hs]
  rw [fdSwitchingRead, if_neg (switchdb_size_ne_zero hs)]
  simp only [entries_ofView, hget, ofView_switchdb, hget_, hcb, setEntries_touch,
    Option.bind_eq_bind, Option.bind_some, Option.pure_def]
  rw [IpcSwitching.other] at hwrite
  rw [hwrite]
  rfl

theorem fdSwitchingRead_through (hv : v.Tracked) (hget : v.conns[i]? = some e)
    (hs : pairOf v.switchdb e.2.fd = some s) (event : IpcEvent) (sys : SwitchSys) :
    Through (fdSwitchingRead event (.ofView v) i sys) readEvent
      (throughIn (s.callbacksAt e.2.fd).1 e.2.fd sys) := by
  have hget_ : ipcSwitchingGet_ (.ofList v.switchdb) e.2.fd = some (some s) := by
    rw [ipcSwitchingGet_ofList, hs]
  rw [← switchingCbIn_through]
  cases hcb : switchingCbIn s e.2.fd sys with
  | none =>
    rw [fdSwitchingRead, if_neg (switchdb_size_ne_zero hs)]
    simp only [entries_ofView, hget, ofView_switchdb, hget_, hcb, Option.bind_eq_bind,
      Option.bind_some, Option.bind_none, Option.map_none, Through]
  | some answer =>
    obtain ⟨verdict, m, more, called⟩ := answer
    have hcalled := calls_switchingCbIn hcb
    obtain ⟨w₁, w₂, es₁, es₂, r', l, hdel, -⟩ :=
      switchingReadDel_ofView (tracked_touch hget more rfl hv) s e.2.fd
    by_cases hok : verdict = .noError
    · subst hok
      obtain ⟨w, es, hread, -⟩ := fdSwitchingRead_noError hget hs event hcb
      exact ⟨_, _, _, _, hread, rfl, by simp [hcalled]⟩
    · rw [fdSwitchingRead, if_neg (switchdb_size_ne_zero hs)]
      simp only [entries_ofView, hget, ofView_switchdb, hget_, hcb, setEntries_touch, hdel,
        Option.bind_eq_bind, Option.bind_some, Option.pure_def]
      cases verdict with
      | noError => exact absurd rfl hok
      | _ => exact ⟨_, _, _, _, rfl, rfl, by simp [hcalled]⟩

theorem fdSwitchingWrite_through (hv : v.Tracked) (hget : v.conns[i]? = some e)
    (hs : pairOf v.switchdb e.2.fd = some s) (event : IpcEvent) (sys : SwitchSys)
    {found : Option (List IpcMessage × Nat × IpcMessage)}
    (hfound : searchMessage (.ofList v.tx) e.2.fd = some found) :
    Through (fdSwitchingWrite event (.ofView v) i sys) writeEvent
      (switchingCbOut s e.2.fd (found.map fun f => f.2.2) sys) := by
  have hget_ : ipcSwitchingGet_ (IpcCtx.ofView v).switchdb e.2.fd = some (some s) := by
    rw [ofView_switchdb, ipcSwitchingGet_ofList, hs]
  obtain ⟨tx, hdelete, hpopped⟩ := popped_of_search hfound
  obtain ⟨w₁, w₂, es₁, es₂, r', l, io, hdel, -, -, -, -, -, hcalls, -⟩ :=
    switchingWriteDel_ofView (tracked_popped hv hpopped) e.2.fd
  have hctx : ({ IpcCtx.ofView v with tx := .ofList tx } : IpcCtx) = .ofView { v with tx := tx } :=
    rfl
  have hhanded : calls (found.toList.map fun f => Io.queue (.handed f.1 f.2.1)) = [] := by
    cases found <;> rfl
  cases hcb : switchingCbOut s e.2.fd (found.map fun f => f.2.2) sys with
  | none =>
    rw [fdSwitchingWrite, if_neg (switchdb_size_ne_zero hs)]
    simp only [entries_ofView, hget, ofView_tx, hfound, hget_, hcb,
      Option.bind_eq_bind, Option.bind_some, Option.bind_none, Through]
  | some answer =>
    obtain ⟨verdict, called⟩ := answer
    have hcalled := calls_switchingCbOut hcb
    rw [fdSwitchingWrite, if_neg (switchdb_size_ne_zero hs)]
    simp only [entries_ofView, hget, ofView_tx, hfound, hget_, hcb, hdelete,
      hctx, hdel, Option.bind_eq_bind, Option.bind_some, Option.pure_def]
    cases verdict with
    | _ => exact ⟨_, _, _, _, rfl, rfl, by simp [hcalled, hhanded, hcalls]⟩

end Calls

/-! ## The right callback -/

/-- A context with one switched connection and one message for it. -/
def oneMessage (l : List IpcSwitching) (fd : Fd) : View :=
  { conns := [({ type := .switched }, { fd := fd })]
    tx := [.noPayload 0 0 fd]
    switchdb := l }

theorem rightCallbacks_callbacksAt {l : List IpcSwitching} {fd : Fd} {s : IpcSwitching}
    (hs : pairOf l fd = some s) :
    RightCallbacks l fd (s.callbacksAt fd) ↔
      ((s.callbacksAt fd).1 = none ↔ (s.callbacksAt fd).2 = none) := by
  constructor
  · intro h
    -- One message for `fd` shows which of the two callbacks is looked at.
    have hsearch : searchMessage (.ofList (oneMessage l fd).tx) fd =
        some (some ((oneMessage l fd).tx, 0, .noPayload 0 0 fd)) := by
      simp [searchMessage, oneMessage, IpcMessages.ofList, Ptr.ofList, Ptr.block,
        IpcMessage.noPayload]
    have htracked : (oneMessage l fd).Tracked := by
      simp [View.Tracked, oneMessage, IpcMessage.noPayload]
    have hthrough := (h (oneMessage l fd) 0 _ rfl htracked rfl rfl {} {}).2 _ hsearch
    have hcode := fdSwitchingWrite_through (v := oneMessage l fd) (i := 0) htracked rfl hs {} {}
      hsearch
    exact (switchingCbOut_called_iff rfl).mp (hthrough.called_eq hcode)
  · intro h v i e hl hv hget hfd event sys
    subst hl
    subst hfd
    refine ⟨fdSwitchingRead_through hv hget hs event sys, ?_⟩
    intro found hfound
    rw [← switchingCbOut_through h]
    exact fdSwitchingWrite_through hv hget hs event sys hfound

/-- **The right callbacks**: after any registrations, reading and sending on a registered end go
through the callbacks registered for it, exactly when these are both `NULL` or both not. -/
theorem rightCallbacks_iff (l : List IpcSwitching) (regs : List Registration) {fd : Fd}
    (hfd : ∃ s ∈ l, s.mentions fd) :
    ∃ l', regs.foldlM register (.ofList l) = some (.ofList l') ∧
      (RightCallbacks l' fd (registered l regs fd) ↔
        ((registered l regs fd).1 = none ↔ (registered l regs fd).2 = none)) := by
  obtain ⟨l', hall, hends⟩ := registerAll_ofList l regs
  obtain ⟨hfd', hcallbacks⟩ := hends fd hfd
  refine ⟨l', hall, ?_⟩
  obtain ⟨i, s, -, -, hs⟩ := (pairOf_cases l' fd).resolve_left (by
    rintro ⟨-, hnone⟩
    obtain ⟨s, hs, hfd⟩ := hfd'
    exact pairOf_eq_none.mp hnone s hs hfd)
  rw [← hcallbacks, callbacksOf, hs, Option.map_some, Option.getD_some]
  exact rightCallbacks_callbacksAt hs

/-- A pair whose ends both have callbacks of their own. -/
theorem rightCallbacks_both_ends :
    ∃ l', [Registration.both 5 (some 1) (some 2), .both 6 (some 3) (some 4)].foldlM register
        (.ofList [{ orig := 5, dest := 6 }]) = some (.ofList l') ∧
      RightCallbacks l' 6 (some 3, some 4) := by
  have hmentions : ∃ s ∈ [({ orig := 5, dest := 6 } : IpcSwitching)], s.mentions 6 := by decide
  obtain ⟨l', hall, hright⟩ := rightCallbacks_iff _
    [.both 5 (some 1) (some 2), .both 6 (some 3) (some 4)] hmentions
  exact ⟨l', hall, hright.mpr (by decide)⟩

/-- The input callback alone is registered: sending calls a null pointer. -/
theorem not_rightCallbacks_inputOnly :
    ∃ l', [Registration.inputOnly 5 (some 1)].foldlM register (.ofList [{ orig := 5, dest := 6 }]) =
        some (.ofList l') ∧
      registered [{ orig := 5, dest := 6 }] [.inputOnly 5 (some 1)] 5 = (some 1, none) ∧
      ¬ RightCallbacks l' 5 (some 1, none) := by
  refine ⟨[{ orig := 5, dest := 6, origIn := some 1 }], rfl, rfl, ?_⟩
  intro h
  have htracked : (oneMessage [{ orig := 5, dest := 6, origIn := some 1 }] 5).Tracked := by
    simp [View.Tracked, oneMessage, IpcMessage.noPayload]
  obtain ⟨r, ctx, event, io, hcall, -⟩ := (h (oneMessage _ 5) 0 _ rfl htracked rfl rfl {} {}).2
    (some ([.noPayload 0 0 5], 0, .noPayload 0 0 5)) rfl
  cases hcall

/-! ## The message read -/

/-- The call returns, and if it announces a switch then one message has joined the queue: for `fd`,
with the type, the user type and the length of `m`. -/
def NotDropped (ctx : IpcCtx) (fd : Fd) (m : IpcMessage)
    (call : Option (IpcErrorCode × IpcCtx × IpcEvent × List Io)) : Prop :=
  ∃ r ctx' event io, call = some (r, ctx', event, io) ∧
    (event.type = .switch → ∃ m' : IpcMessage, ctx'.queue = ctx.queue ++ [m'] ∧ m'.fd = fd ∧
      m'.type = m.type ∧ m'.userType = m.userType ∧ m'.length = m.length)

/-- **No silent drop**: a message read on one end of a pair is queued for the other end whenever a
switch is announced, exactly when the other end is still tracked. -/
theorem notDropped_iff {ctx : IpcCtx} (h : ReachableCtx ctx)
    {es : List (IpcConnectionInfo × PollFd)} (hes : ctx.entries = some es) {i : Nat}
    {e : IpcConnectionInfo × PollFd} (hget : es[i]? = some e) {s : IpcSwitching}
    (hs : ipcSwitchingGet_ ctx.switchdb e.2.fd = some (some s)) (event : IpcEvent)
    {sys : SwitchSys} {m : IpcMessage} {more : Int} {called : List Io}
    (hcb : switchingCbIn s e.2.fd sys = some (.noError, m, more, called)) :
    NotDropped ctx (s.other e.2.fd) m (fdSwitchingRead event ctx i sys) ↔
      ∃ e' ∈ es, e'.2.fd = s.other e.2.fd := by
  obtain ⟨v, rfl, -⟩ := h.exists_view
  rw [entries_ofView, Option.some.injEq] at hes
  subst hes
  rw [ofView_switchdb, ipcSwitchingGet_ofList, Option.some.injEq] at hs
  obtain ⟨w, es, hread, hqueued⟩ := fdSwitchingRead_noError hget hs event hcb
  have hmem : s.other e.2.fd ∈ (v.touch i e more e.2).fds ↔
      ∃ e' ∈ v.conns, e'.2.fd = s.other e.2.fd := by
    rw [fds_touch hget more rfl, View.fds, List.mem_map]
  rw [← hmem]
  constructor
  · rintro ⟨r, ctx', event', io, hcall, hswitch⟩
    rw [hread, Option.some.injEq] at hcall
    cases hcall
    obtain ⟨m', hqueue, -⟩ := hswitch rfl
    rcases hqueued.tx with ⟨htracked, -, -⟩ | ⟨-, -, htx⟩
    · exact htracked
    · -- The queue has not grown.
      rw [queue_ofView, queue_ofView, htx] at hqueue
      exact absurd (congrArg List.length hqueue) (by simp [View.touch])
  · intro htracked
    refine ⟨_, _, _, _, hread, fun _ => ⟨deepCopy { m with fd := s.other e.2.fd }, ?_⟩⟩
    rcases hqueued.tx with ⟨-, -, htx⟩ | ⟨huntracked, -, -⟩
    · rw [queue_ofView, queue_ofView, htx]
      exact ⟨rfl, rfl, rfl, rfl, rfl⟩
    · exact absurd htracked huntracked

/-- Connections on 5 and 6 that relay to each other, the one on 6 deleted or not. -/
def relays (deleted : Bool) : View :=
  { conns := [({ type := .switched }, { fd := 5, events := { pollin := true } })] ++
      if deleted then [] else [({ type := .switched }, { fd := 6, events := { pollin := true } })]
    switchdb := [{ orig := 5, dest := 6 }] }

/-- The message `hi` arrives. -/
def oneFrame : SwitchSys := { recv := [.ok [1, 0, 0, 0, 2, 0, 104, 105]] }

theorem notDropped_both_tracked :
    NotDropped (.ofView (relays false)) 6 (.ofPayload 1 0 0 [104, 105])
      (fdSwitchingRead {} (.ofView (relays false)) 0 oneFrame) := by
  have hreach : ReachableCtx (.ofView (relays false)) :=
    ⟨[.addFdSwitched 5, .addFdSwitched 6, .switchingAdd 5 6], _, rfl⟩
  have hcb : switchingCbIn { orig := 5, dest := 6 } 5 oneFrame =
      some (.noError, .ofPayload 1 0 0 [104, 105], 0, []) := by decide +kernel
  have hget : (relays false).conns[0]? =
      some ({ type := .switched }, { fd := 5, events := { pollin := true } }) := rfl
  have hs : ipcSwitchingGet_ (IpcCtx.ofView (relays false)).switchdb 5 =
      some (some { orig := 5, dest := 6 }) := rfl
  exact (notDropped_iff hreach (entries_ofView _) hget hs {} hcb).mpr (by decide)

/-- The application has deleted the connection on 6: the message is lost, a switch announced. -/
theorem not_notDropped_deleted :
    ReachableCtx (.ofView (relays true)) ∧
      ¬ NotDropped (.ofView (relays true)) 6 (.ofPayload 1 0 0 [104, 105])
        (fdSwitchingRead {} (.ofView (relays true)) 0 oneFrame) := by
  refine ⟨⟨[.addFdSwitched 5, .addFdSwitched 6, .switchingAdd 5 6, .delFd 6], _, rfl⟩, ?_⟩
  rintro ⟨r, ctx', event, io, hcall, hswitch⟩
  cases hcall
  obtain ⟨m', hqueue, -⟩ := hswitch rfl
  cases hqueue

end LibIpc.C

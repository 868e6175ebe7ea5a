import LibIpc.C.Invariant

/-!
# Waiting for an event (`ipc_wait_event`, `ipc_accept_add`)

What the caller of `ipc_wait_event` gets back: the time that is left, an event, and a context with
one more connection when a client was accepted. Each of the three is what it should be under a
condition: the countdown for a timer that is not negative, the event for one that has not expired,
the context when `accept(2)` succeeds.
-/

namespace LibIpc.C

open Lib

/-! ## The countdown -/

/-- What `gettimeofday(2)` gives. -/
def TimeVal.Valid (tv : TimeVal) : Prop := 0 ≤ tv.usec ∧ tv.usec < 1000000

instance (tv : TimeVal) : Decidable tv.Valid := inferInstanceAs (Decidable (_ ∧ _))

/-- The microseconds from one reading to another. -/
def microsBetween (tv₁ tv₂ : TimeVal) : Int :=
  (tv₂.sec - tv₁.sec) * 1000000 + (tv₂.usec - tv₁.usec)

/-- `nb_sec_ms` before its conversion to `int`. -/
def nbSecMs (tv₁ tv₂ : TimeVal) : Int := (tv₂.sec - tv₁.sec) * 1000

/-- `nb_usec_ms` before its conversion to `int`. -/
def nbUsecMs (tv₁ tv₂ : TimeVal) : Int := Int.tdiv (tv₂.usec - tv₁.usec) 1000

/-- `time_elapsed_ms`. -/
def timeElapsedMs (tv₁ tv₂ : TimeVal) : Option Int :=
  toInt (convInt (nbSecMs tv₁ tv₂) + convInt (nbUsecMs tv₁ tv₂))

theorem timerAfter_eq (timer : Int) (tv₁ tv₂ : TimeVal) :
    timerAfter timer tv₁ tv₂ = (timeElapsedMs tv₁ tv₂).bind fun elapsed =>
      if elapsed ≥ timer then some 0 else toInt (timer - elapsed) := rfl

/-- The countdown is exact: no conversion changes a value, the elapsed time is right to the
millisecond, what is left is the time that remains, or a negative value when the timer was negative,
and this is what every `ipc_wait_event` between the two readings stores. -/
def CountsDown (timer : Int) (tv₁ tv₂ : TimeVal) : Prop :=
  convInt (nbSecMs tv₁ tv₂) = nbSecMs tv₁ tv₂ ∧ convInt (nbUsecMs tv₁ tv₂) = nbUsecMs tv₁ tv₂ ∧
    ∃ elapsed timer', timeElapsedMs tv₁ tv₂ = some elapsed ∧
      |elapsed * 1000 - microsBetween tv₁ tv₂| < 1000 ∧
      timerAfter timer tv₁ tv₂ = some timer' ∧
      (0 ≤ timer → timer' = max 0 (timer - elapsed)) ∧ (timer < 0 → timer' < 0) ∧
      timer' ≤ timer ∧
      ∀ ctx sys r ctx' event t io, sys.poll ≠ none → sys.tv₁ = tv₁ → sys.tv₂ = tv₂ →
        ipcWaitEvent ctx timer sys = some (r, ctx', event, t, io) → t = timer'

theorem convInt_eq_iff (x : Int) : convInt x = x ↔ -2 ^ 31 ≤ x ∧ x < 2 ^ 31 := by
  unfold convInt
  omega

theorem toInt_eq_some_iff {x y : Int} : toInt x = some y ↔ (-2 ^ 31 ≤ x ∧ x < 2 ^ 31) ∧ x = y := by
  rw [toInt, Option.ite_none_right_eq_some, Option.some.injEq]

/-- The timer is what the computation leaves. -/
theorem ipcWaitEvent_timer {ctx ctx' : IpcCtx} {timer t : Int} {sys : WaitSys} {r : IpcErrorCode}
    {event : IpcEvent} {io : List Io} (hpoll : sys.poll ≠ none)
    (h : ipcWaitEvent ctx timer sys = some (r, ctx', event, t, io)) :
    timerAfter timer sys.tv₁ sys.tv₂ = some t := by
  obtain ⟨es, messages, -, -, ⟨hnone, -⟩ | ⟨revents, -, ht, -⟩⟩ := ipcWaitEvent_cases h
  · exact absurd hnone hpoll
  · exact ht

section Countdown
variable {tv₁ tv₂ : TimeVal}

/-- The division rounds towards zero, by less than a millisecond. -/
theorem nbUsecMs_bounds (tv₁ tv₂ : TimeVal) :
    |nbUsecMs tv₁ tv₂ * 1000 - (tv₂.usec - tv₁.usec)| < 1000 ∧
      (0 ≤ tv₂.usec - tv₁.usec → nbUsecMs tv₁ tv₂ * 1000 ≤ tv₂.usec - tv₁.usec) := by
  unfold nbUsecMs
  generalize tv₂.usec - tv₁.usec = usec
  rw [abs_lt]
  rcases Int.le_total 0 usec with hpos | hneg
  · rw [Int.tdiv_eq_ediv_of_nonneg hpos]
    omega
  · obtain ⟨k, rfl⟩ : ∃ k, usec = -k := ⟨-usec, (Int.neg_neg usec).symm⟩
    rw [Int.neg_tdiv, Int.tdiv_eq_ediv_of_nonneg (by omega)]
    omega

/-- The converted values are exact. -/
theorem timeElapsedMs_eq {elapsed : Int} (hsec : convInt (nbSecMs tv₁ tv₂) = nbSecMs tv₁ tv₂)
    (husec : convInt (nbUsecMs tv₁ tv₂) = nbUsecMs tv₁ tv₂)
    (h : timeElapsedMs tv₁ tv₂ = some elapsed) : elapsed = nbSecMs tv₁ tv₂ + nbUsecMs tv₁ tv₂ := by
  rw [timeElapsedMs, hsec, husec] at h
  exact (toInt_eq_some_iff.mp h).2.symm

/-- The time is not negative when the readings are in order. -/
theorem elapsed_nonneg (h₁ : tv₁.Valid) (h₂ : tv₂.Valid) (hle : 0 ≤ microsBetween tv₁ tv₂) :
    0 ≤ nbSecMs tv₁ tv₂ + nbUsecMs tv₁ tv₂ := by
  obtain ⟨h₁, h₁'⟩ := h₁
  obtain ⟨h₂, h₂'⟩ := h₂
  obtain ⟨hbounds, -⟩ := nbUsecMs_bounds tv₁ tv₂
  rw [abs_lt] at hbounds
  unfold microsBetween at hle
  unfold nbSecMs
  omega

/-- **Countdown**: it is exact when the timer is not negative and the milliseconds fit in an `int`,
and only then. -/
theorem countsDown_iff {timer : Int} (htimer : -2 ^ 31 ≤ timer ∧ timer < 2 ^ 31) (h₁ : tv₁.Valid)
    (h₂ : tv₂.Valid) (hle : 0 ≤ microsBetween tv₁ tv₂) :
    CountsDown timer tv₁ tv₂ ↔
      0 ≤ timer ∧ tv₂.sec - tv₁.sec ≤ 2147483 ∧ microsBetween tv₁ tv₂ < 2147483648000 := by
  have hnonneg := elapsed_nonneg h₁ h₂ hle
  obtain ⟨hbounds, htrunc⟩ := nbUsecMs_bounds tv₁ tv₂
  rw [abs_lt] at hbounds
  have hsec : nbSecMs tv₁ tv₂ = (tv₂.sec - tv₁.sec) * 1000 := rfl
  have hmicros : microsBetween tv₁ tv₂ =
    (tv₂.sec - tv₁.sec) * 1000000 + (tv₂.usec - tv₁.usec) := rfl
  constructor
  · rintro ⟨hconv, hconv', elapsed, timer', helapsed, -, hafter, -, hneg, -, -⟩
    have hsum := timeElapsedMs_eq hconv hconv' helapsed
    have hfits := (toInt_eq_some_iff.mp helapsed).1
    rw [hconv, hconv'] at hfits
    rw [convInt_eq_iff] at hconv
    refine ⟨?_, by omega, by omega⟩
    -- A negative timer has always expired.
    by_contra htimer
    rw [timerAfter_eq, helapsed, Option.bind_some, if_pos (by omega), Option.some.injEq] at hafter
    have := hneg (by omega)
    omega
  · rintro ⟨hpos, hseconds, hmax⟩
    obtain ⟨h₁, h₁'⟩ := h₁
    obtain ⟨h₂, h₂'⟩ := h₂
    have hconv : convInt (nbSecMs tv₁ tv₂) = nbSecMs tv₁ tv₂ := (convInt_eq_iff _).mpr (by omega)
    have hconv' : convInt (nbUsecMs tv₁ tv₂) = nbUsecMs tv₁ tv₂ := (convInt_eq_iff _).mpr (by omega)
    have helapsed : timeElapsedMs tv₁ tv₂ = some (nbSecMs tv₁ tv₂ + nbUsecMs tv₁ tv₂) := by
      rw [timeElapsedMs, hconv, hconv', toInt_eq_some_iff]
      exact ⟨by omega, rfl⟩
    have hafter : timerAfter timer tv₁ tv₂ =
        some (max 0 (timer - (nbSecMs tv₁ tv₂ + nbUsecMs tv₁ tv₂))) := by
      rw [timerAfter_eq, helapsed, Option.bind_some]
      split
      · congr 1
        omega
      · rw [toInt_eq_some_iff]
        omega
    refine ⟨hconv, hconv', _, _, helapsed, ?_, hafter, fun _ => rfl, by omega, by omega, ?_⟩
    · rw [abs_lt]
      omega
    · intro ctx sys r ctx' event t io hpoll htv₁ htv₂ hwait
      have ht := ipcWaitEvent_timer hpoll hwait
      rw [htv₁, htv₂, hafter] at ht
      exact (Option.some.inj ht).symm

end Countdown

/-- A second and a half that begins in the middle of a second. -/
theorem countsDown_second_and_half :
    CountsDown 10000 { sec := 3, usec := 700000 } { sec := 5, usec := 200000 } :=
  (countsDown_iff (by decide) (by decide) (by decide) (by decide)).mpr (by decide)

/-- An infinite wait, and a message that arrives at once: the next wait does not wait at all. And
25 days, which are a negative number of milliseconds. -/
theorem not_countsDown_infinite :
    timerAfter (-1) {} {} = some 0 ∧ ¬ CountsDown (-1) {} {} ∧
      ¬ CountsDown 10000 {} { sec := 2160000 } := by
  refine ⟨by decide, ?_, ?_⟩
  · rintro ⟨-, -, elapsed, timer', -, -, hafter, -, hneg, -, -⟩
    cases hafter
    exact absurd (hneg (by decide)) (by decide)
  · rintro ⟨hconv, -⟩
    exact absurd hconv (by decide)

/-! ## The event -/

/-- `poll(2)` reports nothing and no connection has more to read. -/
def Idle (ctx : IpcCtx) (sys : WaitSys) : Prop :=
  ∃ es revents, ctx.entries = some es ∧ sys.poll = some revents ∧
    (∀ e ∈ es, e.1.moreToRead ≠ 1) ∧ ∀ i < es.length, revents.getD i {} = {}

/-- A successful wait fills the event, and gives a timer event when there is nothing else. -/
def FillsEvent (ctx : IpcCtx) (timer : Int) (sys : WaitSys) : Prop :=
  (∀ ctx' event t io, ipcWaitEvent ctx timer sys = some (.none, ctx', event, t, io) →
      event.type ≠ .notSet) ∧
    (Idle ctx sys → ∃ ctx' event t io,
      ipcWaitEvent ctx timer sys = some (.none, ctx', event, t, io) ∧ event.type = .timer)

section Filled
variable {event event' : IpcEvent} {ctx ctx' : IpcCtx} {index : Nat} {io : List Io}

theorem ipcAcceptAdd_fills {accept : Fd}
    (h : ipcAcceptAdd event ctx index accept = some (.none, ctx', event')) :
    event'.type ≠ .notSet := by
  unfold ipcAcceptAdd at h
  split at h
  · cases h
  · simp only [Option.bind_eq_bind, Option.pure_def] at h
    obtain ⟨es, -, h⟩ := Option.bind_eq_some_iff.mp h
    obtain ⟨e, -, h⟩ := Option.bind_eq_some_iff.mp h
    split at h
    · cases h
    · cases h
      simp

theorem fdSwitchingRead_fills {sys : SwitchSys}
    (h : fdSwitchingRead event ctx index sys = some (.none, ctx', event', io)) :
    event'.type ≠ .notSet := by
  unfold fdSwitchingRead at h
  split at h
  · cases h
  · simp only [Option.bind_eq_bind, Option.pure_def] at h
    obtain ⟨es, -, h⟩ := Option.bind_eq_some_iff.mp h
    obtain ⟨e, -, h⟩ := Option.bind_eq_some_iff.mp h
    obtain ⟨sw, -, h⟩ := Option.bind_eq_some_iff.mp h
    split at h
    · cases h
    · obtain ⟨cb, -, h⟩ := Option.bind_eq_some_iff.mp h
      split at h
      · obtain ⟨w, -, h⟩ := Option.bind_eq_some_iff.mp h
        cases h
        simp
      · cases h
        simp
      · obtain ⟨w, -, h⟩ := Option.bind_eq_some_iff.mp h
        cases h

theorem fdSwitchingWrite_fills {sys : SwitchSys}
    (h : fdSwitchingWrite event ctx index sys = some (.none, ctx', event', io)) :
    event'.type ≠ .notSet := by
  unfold fdSwitchingWrite at h
  split at h
  · cases h
  · simp only [Option.bind_eq_bind, Option.pure_def] at h
    obtain ⟨es, -, h⟩ := Option.bind_eq_some_iff.mp h
    obtain ⟨e, -, h⟩ := Option.bind_eq_some_iff.mp h
    obtain ⟨found, -, h⟩ := Option.bind_eq_some_iff.mp h
    obtain ⟨sw, -, h⟩ := Option.bind_eq_some_iff.mp h
    split at h
    · cases h
    · obtain ⟨cb, -, h⟩ := Option.bind_eq_some_iff.mp h
      obtain ⟨tx, -, h⟩ := Option.bind_eq_some_iff.mp h
      split at h
      · cases h
        simp
      · obtain ⟨w, -, h⟩ := Option.bind_eq_some_iff.mp h
        cases h

theorem handleWritingMessage_fills {s : SendResult} {r : IpcErrorCode}
    (h : handleWritingMessage ctx index s = some (r, ctx', event', io)) :
    event'.type ≠ .notSet := by
  simp only [handleWritingMessage, Option.bind_eq_bind, Option.pure_def] at h
  obtain ⟨es, -, h⟩ := Option.bind_eq_some_iff.mp h
  obtain ⟨e, -, h⟩ := Option.bind_eq_some_iff.mp h
  obtain ⟨found, -, h⟩ := Option.bind_eq_some_iff.mp h
  split at h <;>
  · obtain ⟨io', -, h⟩ := Option.bind_eq_some_iff.mp h
    obtain ⟨tx, -, h⟩ := Option.bind_eq_some_iff.mp h
    cases h
    simp

theorem handleNewMessage_fills {rs : List RecvResult} {sys : CloseSys} {r : IpcErrorCode}
    (h : handleNewMessage ctx index rs sys = some (r, ctx', event', io)) :
    event'.type ≠ .notSet := by
  simp only [handleNewMessage, Option.bind_eq_bind, Option.pure_def] at h
  obtain ⟨es, -, h⟩ := Option.bind_eq_some_iff.mp h
  obtain ⟨e, -, h⟩ := Option.bind_eq_some_iff.mp h
  split at h
  · cases h
  · obtain ⟨closed, -, h⟩ := Option.bind_eq_some_iff.mp h
    obtain ⟨deleted, -, h⟩ := Option.bind_eq_some_iff.mp h
    split at h
    · cases h
      simp
    · cases h
      simp
  · cases h
    simp

/-- Every handler that succeeds fills the event. -/
theorem dispatch_fills {es : List (IpcConnectionInfo × PollFd)} {e : IpcConnectionInfo × PollFd}
    {sys : WaitSys} (h : dispatch ctx es index e sys = some (.none, ctx', event', io)) :
    event'.type ≠ .notSet := by
  simp only [dispatch] at h
  split at h
  · split at h
    · obtain ⟨⟨r, ctx₁, event₁⟩, haccept, h⟩ := Option.map_eq_some_iff.mp h
      cases h
      exact ipcAcceptAdd_fills haccept
    · exact fdSwitchingRead_fills h
    · cases h
      simp
    · exact handleNewMessage_fills h
  · split at h
    · split at h
      · exact fdSwitchingWrite_fills h
      · exact handleWritingMessage_fills h
    · split at h
      · obtain ⟨⟨r, closed, io'⟩, -, h⟩ := Option.map_eq_some_iff.mp h
        cases h
        simp
      · cases h
        simp

/-- An entry at which the dispatch loop does not stop. -/
theorem handled_eq_false_iff {e : IpcConnectionInfo × PollFd} :
    handled e = false ↔ e.1.moreToRead ≠ 1 ∧ e.2.revents = {} := by
  obtain ⟨cinfo, fd, events, revents⟩ := e
  cases revents
  simp only [handled, readable, PollEvents.mk.injEq, Bool.or_eq_false_iff, decide_eq_false_iff_not]
  tauto

/-- The dispatch loop stops nowhere exactly when there is nothing to do. -/
theorem findIdx?_handled_eq_none_iff {es : List (IpcConnectionInfo × PollFd)}
    {messages : List IpcMessage} {revents : List PollEvents} :
    (storeRevents (pollEntries es messages) revents).findIdx? handled = none ↔
      (∀ e ∈ es, e.1.moreToRead ≠ 1) ∧ ∀ i < es.length, revents.getD i {} = {} := by
  have hentries : (storeRevents (pollEntries es messages) revents).findIdx? handled = none ↔
      ∀ i, (h : i < es.length) → es[i].1.moreToRead ≠ 1 ∧ revents.getD i {} = {} := by
    rw [List.findIdx?_eq_none_iff, List.forall_mem_iff_getElem]
    simp only [handled_eq_false_iff]
    simp [storeRevents, pollEntries]
  rw [hentries, List.forall_mem_iff_getElem]
  constructor
  · intro h
    exact ⟨fun i hi => (h i hi).1, fun i hi => (h i hi).2⟩
  · rintro ⟨hmore, hrevents⟩ i hi
    exact ⟨hmore i hi, hrevents i hi⟩

/-- Outside of idle states a wait that succeeds comes from a timeout or from a handler. -/
theorem ipcWaitEvent_fills {timer t : Int} {sys : WaitSys} (hidle : ¬ Idle ctx sys)
    (h : ipcWaitEvent ctx timer sys = some (.none, ctx', event, t, io)) :
    event.type ≠ .notSet := by
  obtain ⟨es, messages, hes, -, ⟨-, herror, -⟩ | ⟨revents, hpoll, -, hdispatched⟩⟩ :=
    ipcWaitEvent_cases h
  · cases herror
  · cases hdispatched with
    | timeout htype => simp [htype]
    | nothing hnone =>
      obtain ⟨hmore, hrevents⟩ := findIdx?_handled_eq_none_iff.mp hnone
      exact absurd ⟨es, revents, hes, hpoll, hmore, hrevents⟩ hidle
    | entry _ _ hdispatch => exact dispatch_fills hdispatch

/-- In an idle state the timer decides: the event is a timer event, or is left as it was cleaned. -/
theorem ipcWaitEvent_idle {v : View} {sys : WaitSys} (hidle : Idle (.ofView v) sys) (timer : Int) :
    ∃ ctx' event, event.type = (if timer = 0 then .notSet else .timer) ∧
      ipcWaitEvent (.ofView v) timer sys =
        (timerAfter timer sys.tv₁ sys.tv₂).map fun t => (.none, ctx', event, t, []) := by
  obtain ⟨es, revents, hes, hpoll, hmore, hrevents⟩ := hidle
  rw [entries_ofView, Option.some.injEq] at hes
  subst hes
  have hnone : (storeRevents (pollEntries v.conns v.tx) revents).findIdx? handled = none :=
    findIdx?_handled_eq_none_iff.mpr ⟨hmore, hrevents⟩
  have hany : (pollEntries v.conns v.tx).any (fun e => e.1.moreToRead = 1) = false := by
    simpa [pollEntries] using hmore
  have hcount : (storeRevents (pollEntries v.conns v.tx) revents).countP
      (fun e => e.2.revents ≠ {}) = 0 := by
    rw [List.countP_eq_zero]
    intro e he
    have hunhandled := List.findIdx?_eq_none_iff.mp hnone e he
    simpa using (handled_eq_false_iff.mp hunhandled).2
  simp only [ipcWaitEvent, entries_ofView, ofView_tx, IpcMessages.ofList_size,
    IpcMessages.block_ofList, Option.bind_eq_bind, Option.bind_some, Option.pure_def, hpoll, hany,
    hcount, hnone, Bool.false_eq_true, if_false, true_and]
  by_cases htimer : timer = 0
  · simp only [htimer, ne_eq, not_true_eq_false, if_false, if_true]
    refine ⟨_, _, ?_, Option.map_eq_bind.symm⟩
    rfl
  · simp only [htimer, ne_eq, not_false_eq_true, if_true, if_false]
    refine ⟨_, _, ?_, Option.map_eq_bind.symm⟩
    rfl

end Filled

/-- **Filled events**: a successful wait fills the event, unless there is nothing to report and the
timer was at zero already (or the elapsed time does not fit in an `int`). -/
theorem fillsEvent_iff {ctx : IpcCtx} (h : ReachableCtx ctx) (timer : Int) (sys : WaitSys) :
    FillsEvent ctx timer sys ↔
      (Idle ctx sys → timer ≠ 0 ∧ timerAfter timer sys.tv₁ sys.tv₂ ≠ none) := by
  obtain ⟨v, rfl, -⟩ := h.exists_view
  by_cases hidle : Idle (.ofView v) sys
  · obtain ⟨ctx', event, htype, hwait⟩ := ipcWaitEvent_idle hidle timer
    rw [FillsEvent, hwait]
    constructor
    · intro hfills _
      obtain ⟨ctx₁, event₁, t, io, heq, htimer⟩ := hfills.2 hidle
      obtain ⟨t', hafter, heq⟩ := Option.map_eq_some_iff.mp heq
      cases heq
      refine ⟨?_, by simp [hafter]⟩
      intro hzero
      rw [htimer, if_pos hzero] at htype
      cases htype
    · intro hcond
      obtain ⟨htimer, hafter⟩ := hcond hidle
      rw [if_neg htimer] at htype
      obtain ⟨t, ht⟩ := Option.ne_none_iff_exists'.mp hafter
      rw [ht]
      refine ⟨?_, fun _ => ⟨_, _, _, _, rfl, htype⟩⟩
      intro ctx₁ event₁ t₁ io heq
      cases heq
      rw [htype]
      nofun
  · refine iff_of_true ⟨?_, fun h => absurd h hidle⟩ fun h => absurd h hidle
    intro ctx' event t io hwait
    exact ipcWaitEvent_fills hidle hwait

/-- One external descriptor, with these events reported. -/
def oneExternal (revents : PollEvents) : IpcCtx :=
  .ofView { conns := [({ type := .external },
    { fd := 5, events := { pollin := true }, revents := revents })] }

/-- Ten milliseconds with nothing to report. -/
theorem fillsEvent_ten_ms :
    FillsEvent (oneExternal {}) 10 { poll := some [{}], tv₂ := { usec := 10000 } } := by
  refine (fillsEvent_iff ⟨[.addFd 5], _, rfl⟩ 10 _).mpr ?_
  intro _
  exact ⟨by decide, by decide⟩

/-- The descriptor is ready in the last millisecond: the event is not a timer event, but the timer
is left at zero. If nothing happens after that, the next wait succeeds without an event. -/
theorem not_fillsEvent_expired :
    ReachableCtx (oneExternal {}) ∧
      (∃ event, event.type = .extraSocket ∧
        ipcWaitEvent (oneExternal {}) 1
            { poll := some [{ pollin := true }], tv₂ := { usec := 1000 } } =
          some (.none, oneExternal { pollin := true }, event, 0, [])) ∧
      ¬ FillsEvent (oneExternal { pollin := true }) 0 { poll := some [{}] } := by
  refine ⟨⟨[.addFd 5], _, rfl⟩, ⟨_, rfl, rfl⟩, ?_⟩
  intro h
  exact h.1 _ _ _ _ rfl rfl

/-! ## New connections -/

/-- A failed `accept(2)` leaves the context as it was. A successful one adds one connection at the
end, and the event is about this one. -/
def AcceptsOne (event : IpcEvent) (ctx : IpcCtx) (index : Nat) (accept : Fd) : Prop :=
  ∃ r ctx' event', ipcAcceptAdd event ctx index accept = some (r, ctx', event') ∧
    (accept < 0 → ctx' = ctx) ∧
    (0 ≤ accept → r = .none ∧
      ∃ es e, ctx.entries = some es ∧ ctx'.entries = some (es ++ [e]) ∧
        ctx'.size = ctx.size + 1 ∧ ctx'.tx = ctx.tx ∧ ctx'.switchdb = ctx.switchdb ∧
        e.1.type = .ipc ∧ e.2.fd = accept ∧
        event'.type = .connection ∧ event'.index = es.length ∧ event'.origin = e.2.fd)

/-- **New connections**: the context is right exactly when `accept(2)` succeeds. -/
theorem acceptsOne_iff {ctx : IpcCtx} (h : ReachableCtx ctx) {index : Nat} (hindex : index < ctx.size)
    (event : IpcEvent) (accept : Fd) : AcceptsOne event ctx index accept ↔ 0 ≤ accept := by
  obtain ⟨v, rfl, -⟩ := h.exists_view
  have haccept := ipcAcceptAdd_ofView v hindex event accept
  rw [AcceptsOne, haccept]
  constructor
  · rintro ⟨r, ctx', event', heq, hfailed, -⟩
    by_contra hneg
    have hneg' := Int.not_le.mp hneg
    rw [if_pos hneg'] at heq
    cases heq
    -- The entry made for the client is still there.
    have hsize := congrArg IpcCtx.size (hfailed hneg')
    simp at hsize
  · intro hpos
    rw [if_neg (Int.not_lt.mpr hpos)]
    refine ⟨_, _, _, rfl, fun hneg => absurd hpos (Int.not_le.mpr hneg), ?_⟩
    intro _
    exact ⟨rfl, v.conns, _, entries_ofView v, entries_ofView _, by simp, rfl, rfl, rfl, rfl, rfl,
      rfl, rfl⟩

/-- A service on descriptor 3. -/
def oneServer : IpcCtx :=
  .ofView { conns := [({ type := .server, spath := some (servicePath none [112, 111, 110, 103]) },
    { fd := 3, events := { pollin := true } })] }

/-- A client is accepted on descriptor 4. -/
theorem acceptsOne_client : AcceptsOne {} oneServer 0 4 :=
  (acceptsOne_iff ⟨[.serverInit none [112, 111, 110, 103] (.ok 3)], _, rfl⟩ (by decide) {} 4).mpr
    (by decide)

/-- No descriptor is left for the client: a connection of type IPC on descriptor -1 stays. -/
theorem not_acceptsOne_failed :
    ReachableCtx oneServer ∧
      (ipcAcceptAdd {} oneServer 0 (-1)).map (fun r => (r.1, r.2.1.size)) =
        some (.usockAccept, 2) ∧
      ¬ AcceptsOne {} oneServer 0 (-1) := by
  refine ⟨⟨[.serverInit none [112, 111, 110, 103] (.ok 3)], _, rfl⟩, rfl, ?_⟩
  rintro ⟨r, ctx', event', heq, hfailed, -⟩
  cases heq
  have hsize := congrArg IpcCtx.size (hfailed (by decide))
  exact absurd hsize (by decide)

end LibIpc.C

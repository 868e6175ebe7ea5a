import LibIpc.Zig.Disconnection
import LibIpc.Zig.Sparing

/-!
# What a switch passes on

Two descriptors joined by `add_switch` exchange messages through the queue `tx`: what `default_in`
reads on one end is decoded, scheduled for the other and encoded again by `default_out`. A
`read(2)` answer is taken for one frame: the bytes after it are lost, and a frame that is cut ends
the switch. `relays_of_clean` shows that nothing else goes wrong: in a run where each answer on the
two ends is one whole frame, both stay joined, and the bytes written on one are those that arrived
on the other.
-/

namespace LibIpc.Zig

open Lib

/-! ## The two ends of a switch -/

/-- `fd` is an end of a switch: it is open, has one connection, which is switched, and in the table
its messages go to `dest`, whose messages are the only ones that go to it. -/
structure SwitchEnd (s : State) (fd dest : Fd) : Prop where
  conn : ∃ c : Connection, c.t = .switched ∧ s.ctx.on fd = [(c, fd)]
  isOpen : fd ∈ s.openFds
  lookup : s.ctx.switchdb.lookup fd = some dest
  only : ∀ x, s.ctx.switchdb.lookup x = some fd → x = dest

theorem SwitchEnd.spared {s s' : State} {fd dest : Fd} (h : SwitchEnd s fd dest)
    (hspares : Spares s s' fd) : SwitchEnd s' fd dest where
  conn := by
    obtain ⟨c, ht, hon⟩ := h.conn
    have hperm := hspares.conn
    rw [hon, List.perm_singleton] at hperm
    exact ⟨c, ht, hperm⟩
  isOpen := hspares.isOpen h.isOpen
  lookup := hspares.lookup.trans h.lookup
  only := by
    intro x hx
    exact h.only x (hspares.only x hx)

/-! ## Handling an end -/

theorem SwitchEnd.switched {s : State} {fd dest : Fd} (h : SwitchEnd s fd dest) {index : Nat}
    {c : Connection} (hget : s.ctx.conns[index]? = some (c, fd)) : c.t = .switched := by
  obtain ⟨c', ht, hon⟩ := h.conn
  have hmem : (c, fd) ∈ s.ctx.on fd :=
    List.mem_filter.mpr ⟨List.mem_of_getElem? hget, by simp⟩
  rw [hon, List.mem_singleton, Prod.mk.injEq] at hmem
  rw [hmem.1]
  exact ht

/-- A whole frame is decoded. -/
theorem Message.read_frame (fd : Fd) {q : List Byte} (hq : q.length ≤ ipcMaxMessageSize) :
    Message.read fd (frame q) (frame q).length = .ok { fd := fd, payload := q } := by
  rw [ipcMaxMessageSize_eq] at hq
  have hlen := length_frame q
  rw [ipcHeaderSize_eq] at hlen
  exact (Message.read_eq_ok_iff fd (frame q) (by omega) (by omega) (by omega)).mpr fun _ _ => rfl

theorem SwitchDB.read_message {db : SwitchDB} {fd dest : Fd} {cb : In} {bs : List Byte}
    {m : Message} (hlookup : db.lookup fd = some dest) (hcb : cb.answer = (.noError, bs))
    (hread : Message.read dest bs bs.length = .ok m) : db.read fd cb = .ok (some m) := by
  simp only [SwitchDB.read, hlookup, hcb, hread]

theorem answer_frame (q : List Byte) :
    (In.default (.ok (frame q))).answer = (.noError, frame q) := by
  have hlen : ¬ (frame q).length < 4 := by
    rw [length_frame, ipcHeaderSize_eq]
    omega
  show defaultIn (.ok (frame q)) = _
  unfold defaultIn
  exact if_neg hlen

/-- A whole frame that arrives is scheduled for the other end. -/
theorem readSwitched_frame {s : State} {fd dest : Fd} (hlookup : s.ctx.switchdb.lookup fd = some dest)
    (index : Nat) {q : List Byte} (hq : q.length ≤ ipcMaxMessageSize) :
    s.readSwitched index fd (.default (.ok (frame q))) =
      some
        (.ok
          { t := .switchRx
            index := index
            origin := fd
            m := some { fd := dest, payload := q } },
          s.schedule { fd := dest, payload := q },
          [.queue (.queued { fd := dest, payload := q })]) := by
  have hread := SwitchDB.read_message hlookup (answer_frame q) (Message.read_frame dest hq)
  simp only [State.readSwitched, SwitchDB.handleEventRead, hread, Option.bind_eq_bind,
    Option.bind_some, Option.pure_def]

/-- What `SwitchDB.write` makes of a message that fits its buffer. -/
theorem Message.write_fits {m : Message} (hm : m.payload.length ≤ ipcMaxMessageSize) :
    m.write 100000 = .ok (frame m.payload, 4 + m.payload.length) := by
  rw [ipcMaxMessageSize_eq] at hm
  rw [m.write_eq_ok (by decide), Nat.mod_eq_of_lt (by omega), List.take_of_length_le (by omega),
    Nat.min_eq_left (by omega)]
  rfl

/-- The first message for an end is written, when `write(2)` does not fail. -/
theorem writeMessage_end {s : State} {index : Nat} {p : PollFd} {c : Connection} {sys : WaitSys}
    {dest : Fd} {n i : Nat} {m : Message} (ht : c.t = .switched)
    (hlookup : s.ctx.switchdb.lookup p.fd = some dest) (hout : sys.cbOut = .default (.wrote n))
    (hi : (s.ctx.tx.findIdx? fun m => m.fd = p.fd) = some i) (hm : s.ctx.tx[i]? = some m) :
    ∃ event bs, s.writeMessage index p c sys =
        some (.ok event, s.withTx (swapRemove s.ctx.tx i),
          [.queue (.handed s.ctx.tx i), .write p.fd bs]) ∧ event.t = .switchTx ∧
      (m.payload.length ≤ ipcMaxMessageSize → bs = frame m.payload) := by
  obtain ⟨-, m', hm', hfd⟩ := isFirst_of_findIdx? hi
  obtain rfl : m' = m := Option.some.inj (hm'.symm.trans hm)
  have hlookup' : s.ctx.switchdb.lookup m'.fd = some dest := hfd.symm ▸ hlookup
  have hwrite : ∃ bs, SwitchDB.write s.ctx.switchdb m' (.default (.wrote n)) = (.ok (), bs) ∧
      (m'.payload.length ≤ ipcMaxMessageSize → bs = frame m'.payload) := by
    simp only [SwitchDB.write, hlookup', m'.write_eq_ok (show 4 < 100000 by decide), Out.answer,
      defaultOut]
    refine ⟨_, rfl, ?_⟩
    intro hfits
    have hframe := (m'.write_eq_ok (show 4 < 100000 by decide)).symm.trans (Message.write_fits hfits)
    exact (Prod.mk.inj (Except.ok.inj hframe)).1
  obtain ⟨bs, hwrite, hframe⟩ := hwrite
  refine ⟨{ t := .switchTx, index := index, origin := m'.fd }, bs, ?_, rfl, hframe⟩
  have hdb : (s.withTx (swapRemove s.ctx.tx i)).ctx.switchdb = s.ctx.switchdb := rfl
  simp only [State.writeMessage, hi, hm, Option.bind_eq_bind, Option.bind_some, if_pos ht, hdb, hout,
    SwitchDB.handleEventWrite, hwrite, Option.pure_def, hfd]

/-! ## Runs -/

/-- Where `wait_event` stops: the first entry that is ready, and its index. -/
def State.stop (s : State) (sys : WaitSys) : Option (Nat × PollFd) := do
  let revents ← sys.poll
  let index ← (s.polled revents).ctx.pollfd.findIdx? handled
  let p ← (s.polled revents).ctx.pollfd[index]?
  return (index, p)

/-- What a call moves along a switch: bytes that `read(2)` returned on one end, bytes that
`write(2)` accepted on the other. -/
inductive Moved where
  | arrived (bs : List Byte)
  | written (bs : List Byte)
  deriving DecidableEq

/-- The bytes the default callback has read. -/
def In.bytes : In → List Byte
  | .default (.ok bs) => bs
  | _ => []

/-- The bytes, of those passed to the callback, that were accepted. -/
def Out.accepted (bs : List Byte) : Out → List Byte
  | .default (.wrote n) => bs.take n
  | .default .error => []
  | .registered _ => bs

/-- The bytes that a call reads on `fd`. -/
def arrival (fd : Fd) (s : State) : Call → List Byte
  | .waitEvent sys =>
    match s.stop sys with
    | some (_, p) => if p.fd = fd ∧ p.revents.pollin then sys.cbIn.bytes else []
    | none => []
  | _ => []

/-- The bytes of a message that a call writes. -/
def accepted (bs : List Byte) : Call → List Byte
  | .waitEvent sys => sys.cbOut.accepted bs
  | _ => bs

/-- The bytes that a call writes on `fd`. -/
def departures (fd : Fd) (c : Call) (io : List Io) : List Moved :=
  io.filterMap fun
    | .write fd' bs => if fd' = fd then some (.written (accepted bs c)) else none
    | _ => none

/-- One call, with what it moves from `a` to `b`. -/
def relayStep (a b : Fd) (s : State) (c : Call) : Option (State × List Moved) :=
  (step s c).map fun (s', io) => (s', .arrived (arrival a s c) :: departures b c io)

/-- All bytes that arrived. -/
def arrivedBytes (es : List Moved) : List Byte :=
  es.flatMap fun
    | .arrived bs => bs
    | .written _ => []

/-- All bytes that were written. -/
def writtenBytes (es : List Moved) : List Byte :=
  es.flatMap fun
    | .arrived _ => []
    | .written bs => bs

/-- The frames of messages, one after the other. -/
def frames (ms : List Message) : List Byte := ms.flatMap fun m => frame m.payload

/-- `a` and `b` are the two ends of a switch, and the messages that wait for `b` fit its buffer. -/
structure Joined (s : State) (a b : Fd) : Prop where
  parallel : s.ctx.Parallel
  distinct : a ≠ b
  left : SwitchEnd s a b
  right : SwitchEnd s b a
  fits : ∀ m ∈ s.waiting b, m.payload.length ≤ ipcMaxMessageSize

/-- The answers on an end `p` of the switch that it passes on: `default_in` reads one whole frame
that fits the buffer, `default_out` has its `write(2)` accepted (whole, on the end `b`), and the
descriptor is not hung up. -/
def EndClean (b : Fd) (s : State) (sys : WaitSys) (p : PollFd) : Prop :=
  if p.revents.pollin then
    ∃ q, q.length ≤ ipcMaxMessageSize ∧ sys.cbIn = .default (.ok (frame q))
  else if p.revents.pollout then
    ∃ n, sys.cbOut = .default (.wrote n) ∧
      (p.fd = b → ∀ m ∈ (s.waiting b).head?, (frame m.payload).length ≤ n)
  else ¬ p.revents.pollhup

/-- The caller leaves the two ends alone, and the descriptors answer as in `EndClean`. -/
def LeavesEnds (a b : Fd) (s : State) : Call → Prop
  | .addExternal fd => fd ≠ a ∧ fd ≠ b
  | .addSwitch fd1 fd2 => fd1 ≠ a ∧ fd1 ≠ b ∧ fd2 ≠ a ∧ fd2 ≠ b
  | .schedule m => m.fd ≠ b
  | .close index => ∀ e ∈ s.ctx.conns[index]?, e.2 ≠ a ∧ e.2 ≠ b
  | .closeFd fd => fd ≠ a ∧ fd ≠ b
  | .waitEvent sys => ∀ ip ∈ s.stop sys, ip.2.fd = a ∨ ip.2.fd = b → EndClean b s sys ip.2
  | _ => True

/-- The calls that pass everything on, in order: no deletion from `tx` moves a message for `b`
over another one. -/
structure Clean (a b : Fd) (s : State) (c : Call) : Prop where
  ends : LeavesEnds a b s c
  order : ∀ r ∈ step s c, ∀ e ∈ queueEvents r.2, e.SafeIn Message.fd b

instance decidableReadsFrame :
    ∀ cb, Decidable (∃ q : List Byte, q.length ≤ ipcMaxMessageSize ∧ cb = In.default (.ok (frame q)))
  | .default (.ok bs) =>
    let q := bs.drop ipcHeaderSize
    decidable_of_iff (q.length ≤ ipcMaxMessageSize ∧ bs = frame q) <| by
      constructor
      · intro h
        exact ⟨q, h.1, by rw [← h.2]⟩
      · rintro ⟨q', hlen, hframe⟩
        cases hframe
        show ((frame q').drop ipcHeaderSize).length ≤ ipcMaxMessageSize ∧
          frame q' = frame ((frame q').drop ipcHeaderSize)
        rw [drop_frame]
        exact ⟨hlen, rfl⟩
  | .default .reset => isFalse (by simp)
  | .default .error => isFalse (by simp)
  | .registered _ _ => isFalse (by simp)

instance decidableWrote (P : Nat → Prop) [DecidablePred P] :
    ∀ cb, Decidable (∃ n, cb = Out.default (.wrote n) ∧ P n)
  | .default (.wrote n) => decidable_of_iff (P n) (by simp)
  | .default .error => isFalse (by simp)
  | .registered _ => isFalse (by simp)

instance (b : Fd) (s : State) (sys : WaitSys) (p : PollFd) : Decidable (EndClean b s sys p) :=
  inferInstanceAs (Decidable (if p.revents.pollin then _ else if p.revents.pollout then _ else _))

instance (a b : Fd) (s : State) (sys : WaitSys) : Decidable (Clean a b s (.waitEvent sys)) :=
  decidable_of_iff
    ((∀ ip ∈ s.stop sys, ip.2.fd = a ∨ ip.2.fd = b → EndClean b s sys ip.2) ∧
      ∀ r ∈ step s (.waitEvent sys), ∀ e ∈ queueEvents r.2, e.SafeIn Message.fd b)
    ⟨fun h => ⟨h.1, h.2⟩, fun h => ⟨h.ends, h.order⟩⟩

/-- What a call does about the bytes for `b`, with `arrived` read on the other end: nothing, a frame
is read, or the frame of a message is written, and accepted whole. -/
inductive Passing (b : Fd) (tx : List Message) (arrived : List Byte)
    (accepted : List Byte → List Byte) : List Io → Prop
  | nothing {io : List Io} : arrived = [] → Quiet b io → Passing b tx arrived accepted io
  | frameRead {q : List Byte} : q.length ≤ ipcMaxMessageSize → arrived = frame q →
      Passing b tx arrived accepted [.queue (.queued { fd := b, payload := q })]
  | frameWritten {i : Nat} {m : Message} : tx[i]? = some m → m.fd = b → arrived = [] →
      accepted (frame m.payload) = frame m.payload →
      Passing b tx arrived accepted [.queue (.handed tx i), .write b (frame m.payload)]

section Step
variable {a b : Fd} {s s' : State} {index : Nat} {p : PollFd} {c : Connection} {sys : WaitSys}
  {r : Except Error Event} {io : List Io}

theorem Joined.congr (h : Joined s a b) (hpar : s'.ctx.Parallel)
    (hconns : s'.ctx.conns = s.ctx.conns) (hopen : s'.openFds = s.openFds)
    (hdb : s'.ctx.switchdb = s.ctx.switchdb) (htx : s'.ctx.tx = s.ctx.tx) : Joined s' a b where
  parallel := hpar
  distinct := h.distinct
  left := h.left.spared (spares_of_eq hconns hopen hdb)
  right := h.right.spared (spares_of_eq hconns hopen hdb)
  fits := by
    unfold State.waiting
    rw [htx]
    exact h.fits

theorem Joined.polled (h : Joined s a b) (revents : List PollEvents) :
    Joined (s.polled revents) a b :=
  h.congr (parallel_polled h.parallel revents) (conns_polled s revents) rfl rfl rfl

/-- `POLLIN` on an end. -/
theorem dispatch_read {fd dest : Fd} (h : SwitchEnd s fd dest) (hfd : p.fd = fd)
    (hget : s.ctx.conns[index]? = some (c, fd)) (hin : p.revents.pollin) {q : List Byte}
    (hq : q.length ≤ ipcMaxMessageSize) (hcb : sys.cbIn = .default (.ok (frame q)))
    (hd : s.dispatch index p c sys = some (r, s', io)) :
    s' = s.schedule { fd := dest, payload := q } ∧
      io = [.queue (.queued { fd := dest, payload := q })] := by
  rw [State.dispatch, if_pos hin, h.switched hget] at hd
  simp only [hfd, hcb] at hd
  rw [readSwitched_frame h.lookup index hq] at hd
  cases hd
  exact ⟨rfl, rfl⟩

/-- `POLLOUT` on an end: the first message for it is written. -/
theorem dispatch_write {dest : Fd} (h : SwitchEnd s p.fd dest)
    (hp : s.ctx.pollfd[index]? = some p) (hget : s.ctx.conns[index]? = some (c, p.fd))
    (hin : ¬ p.revents.pollin) (hout : p.revents.pollout) {n : Nat}
    (hcb : sys.cbOut = .default (.wrote n)) {m : Message} (hm : m ∈ (s.waiting p.fd).head?) :
    ∃ i event s' bs, s.ctx.tx[i]? = some m ∧
      s.dispatch index p c sys =
        some (.ok event, s', [.queue (.handed s.ctx.tx i), .write p.fd bs]) ∧
      event.t = .switchTx ∧ s'.ctx.tx = swapRemove s.ctx.tx i ∧ (∀ fd, Spares s s' fd) ∧
      (m.payload.length ≤ ipcMaxMessageSize → bs = frame m.payload) := by
  obtain ⟨i, hi, hmi⟩ := findIdx?_of_head?_lane hm
  have hset := map_fd_set { p with events := { p.events with pollout := false } } hp rfl
  have hwrite := @writeMessage_end (s.withPollfd (s.ctx.pollfd.set index
    { p with events := { p.events with pollout := false } })) index
    { p with events := { p.events with pollout := false } } c sys dest n i m (h.switched hget)
    h.lookup hcb hi hmi
  obtain ⟨event, bs, hwrite, ht, hframe⟩ := hwrite
  have hd : s.dispatch index p c sys = _ :=
    (if_neg hin).trans ((if_pos hout).trans hwrite)
  refine ⟨i, event, _, bs, hmi, hd, ht, rfl, ?_, hframe⟩
  intro fd
  exact (spares_of_eq (conns_withPollfd hset) rfl rfl).trans (spares_of_eq rfl rfl rfl)

/-- Without `POLLIN`, nothing arrives. -/
theorem dispatch_hangup_free (hin : ¬ p.revents.pollin) (hout : ¬ p.revents.pollout)
    (hhup : ¬ p.revents.pollhup) (hd : s.dispatch index p c sys = some (r, s', io)) :
    s' = s ∧ io = [] := by
  rw [State.dispatch, if_neg hin, if_neg hout, if_neg hhup] at hd
  cases hd
  exact ⟨rfl, rfl⟩

/-- Handling an entry, that of an end with clean answers. -/
theorem dispatch_passing (h : Joined s a b) (hp : s.ctx.pollfd[index]? = some p)
    (hc : s.ctx.connections[index]? = some c)
    (hclean : p.fd = a ∨ p.fd = b → EndClean b s sys p)
    (hd : s.dispatch index p c sys = some (r, s', io)) :
    Spares s s' a ∧ Spares s s' b ∧
      Passing b s.ctx.tx (if p.fd = a ∧ p.revents.pollin then sys.cbIn.bytes else [])
        sys.cbOut.accepted io := by
  have hget := conns_getElem? hc hp
  -- the descriptor handled is an end of the pair, or the pair is only looked on
  by_cases hend : p.fd = a ∨ p.fd = b
  · have hfdest : ∃ dest, SwitchEnd s p.fd dest ∧ (p.fd = a ∧ dest = b ∨ p.fd = b ∧ dest = a) := by
      rcases hend with hfd | hfd
      · exact ⟨b, hfd ▸ h.left, .inl ⟨hfd, rfl⟩⟩
      · exact ⟨a, hfd ▸ h.right, .inr ⟨hfd, rfl⟩⟩
    obtain ⟨dest, hswitch, hwhich⟩ := hfdest
    have hanswer := hclean hend
    unfold EndClean at hanswer
    split at hanswer
    · rename_i hin
      obtain ⟨q, hq, hcb⟩ := hanswer
      obtain ⟨rfl, rfl⟩ := dispatch_read hswitch rfl hget hin hq hcb hd
      refine ⟨spares_of_eq rfl rfl rfl, spares_of_eq rfl rfl rfl, ?_⟩
      rcases hwhich with ⟨hfd, rfl⟩ | ⟨hfd, rfl⟩
      · exact .frameRead hq (by rw [if_pos ⟨hfd, hin⟩, hcb]; rfl)
      · -- read from `b`: the frame is queued for `a`, and nothing is queued for `b`
        refine .nothing (if_neg fun hand => h.distinct (hand.1.symm.trans hfd)) ?_
        exact quiet_cons.mpr ⟨decide_eq_false h.distinct, quiet_nil⟩
    · rename_i hin
      have harrived : (if p.fd = a ∧ p.revents.pollin then sys.cbIn.bytes else []) = [] :=
        if_neg fun hand => hin hand.2
      split at hanswer
      · rename_i hout
        obtain ⟨n, hcb, hwhole⟩ := hanswer
        cases hhead : (s.waiting p.fd).head? with
        | none =>
          have hnone := findIdx?_of_head?_lane_none hhead
          rw [State.dispatch, if_neg hin, if_pos hout] at hd
          simp only [State.writeMessage, State.withPollfd, hnone, Option.bind_eq_bind,
            Option.bind_none] at hd
          cases hd
        | some m =>
          obtain ⟨i, event, s₁, bs, hm, hd', -, htx, hspares, hframe⟩ :=
            dispatch_write hswitch hp hget hin hout hcb hhead
          rw [hd'] at hd
          cases hd
          refine ⟨hspares a, hspares b, ?_⟩
          have hmem : m ∈ s.waiting p.fd := List.mem_of_mem_head? hhead
          have hmfd : m.fd = p.fd := by simpa using (List.mem_filter.mp hmem).2
          rcases hwhich with ⟨hfd, -⟩ | ⟨hfd, -⟩
          · refine .nothing harrived (quiet_cons.mpr ⟨?_, quiet_cons.mpr ⟨?_, quiet_nil⟩⟩)
            · simpa [Io.about, isFor, hm, hmfd, hfd] using h.distinct
            · simpa [Io.about, hfd] using h.distinct
          · have hbytes := hframe (h.fits m (hfd ▸ hmem))
            have hio : Io.write p.fd bs = .write b (frame m.payload) := by rw [hfd, hbytes]
            rw [hio]
            refine .frameWritten hm (hmfd.trans hfd) harrived ?_
            rw [hcb, Out.accepted]
            exact List.take_of_length_le (hwhole hfd m (hfd ▸ hhead))
      · rename_i hout
        obtain ⟨rfl, rfl⟩ := dispatch_hangup_free hin hout hanswer hd
        exact ⟨spares_of_eq rfl rfl rfl, spares_of_eq rfl rfl rfl, .nothing harrived quiet_nil⟩
  · have hne : p.fd ≠ a ∧ p.fd ≠ b := not_or.mp hend
    have hspares_a := dispatch_other h.parallel h.left.isOpen hp hc hne.1
      (fun hlookup => hne.2 (h.left.only _ hlookup)) hd
    have hspares_b := dispatch_other h.parallel h.right.isOpen hp hc hne.2
      (fun hlookup => hne.1 (h.right.only _ hlookup)) hd
    exact ⟨hspares_a.1, hspares_b.1, .nothing (if_neg fun hand => hne.1 hand.1) hspares_b.2⟩

theorem stop_eq_some (hstop : s.stop sys = some (index, p)) :
    ∃ revents, sys.poll = some revents ∧
      (s.polled revents).ctx.pollfd.findIdx? handled = some index ∧
      (s.polled revents).ctx.pollfd[index]? = some p := by
  simp only [State.stop, Option.bind_eq_bind, Option.bind_eq_some_iff, Option.pure_def,
    Option.some.injEq, Prod.mk.injEq] at hstop
  obtain ⟨revents, hpoll, index', hindex, p', hp, rfl, rfl⟩ := hstop
  exact ⟨revents, hpoll, hindex, hp⟩

theorem exists_connection {ctx : Context} (hpar : ctx.Parallel)
    (hp : ctx.pollfd[index]? = some p) : ∃ c, ctx.connections[index]? = some c := by
  have hlt := (List.getElem?_eq_some_iff.mp hp).1
  exact ⟨_, List.getElem?_eq_getElem (hpar.symm ▸ hlt)⟩

/-- `wait_event` in terms of the entry it stops at. -/
theorem waitEvent_passing (h : Joined s a b) (hclean : LeavesEnds a b s (.waitEvent sys))
    (hwait : s.waitEvent sys = some (r, s', io)) :
    Spares s s' a ∧ Spares s s' b ∧
      Passing b s.ctx.tx (arrival a s (.waitEvent sys)) sys.cbOut.accepted io := by
  cases hstop : s.stop sys with
  | none =>
    have harrived : arrival a s (.waitEvent sys) = [] := by simp only [arrival, hstop]
    obtain ⟨ps, hps, ⟨rfl, rfl⟩ | ⟨revents, index, p, c, hpoll, hindex, hp, -, -⟩⟩ :=
      waitEvent_handling hwait
    · have hflags : ∀ fd, Spares s (s.withPollfd ps) fd :=
        fun fd => spares_of_eq (conns_withPollfd hps) rfl rfl
      exact ⟨hflags a, hflags b, .nothing harrived quiet_nil⟩
    · simp only [State.stop, hpoll, hindex, hp, Option.bind_eq_bind, Option.bind_some] at hstop
      cases hstop
  | some ip =>
    obtain ⟨index, p⟩ := ip
    obtain ⟨revents, hpoll, hindex, hp⟩ := stop_eq_some hstop
    have hjoined := h.polled revents
    obtain ⟨c, hc⟩ := exists_connection hjoined.parallel hp
    rw [waitEvent_eq_dispatch hpoll hindex hp hc] at hwait
    have hflags : ∀ fd, Spares s (s.polled revents) fd :=
      fun fd => spares_of_eq (conns_polled s revents) rfl rfl
    obtain ⟨hspares_a, hspares_b, hpassing⟩ :=
      dispatch_passing hjoined hp hc (hclean (index, p) hstop) hwait
    refine ⟨(hflags a).trans hspares_a, (hflags b).trans hspares_b, ?_⟩
    simp only [arrival, hstop]
    exact hpassing

end Step

/-! ## The bytes of a run -/

/-- Every call that leaves the ends alone spares both and passes on what arrives. -/
theorem step_passing {a b : Fd} {s s' : State} {c : Call} {io : List Io} (h : Joined s a b)
    (hends : LeavesEnds a b s c) (hstep : step s c = some (s', io)) :
    Spares s s' a ∧ Spares s s' b ∧
      Passing b s.ctx.tx (arrival a s c) (fun bs => accepted bs c) io := by
  have hsame : Spares s s a ∧ Spares s s b := ⟨spares_of_eq rfl rfl rfl, spares_of_eq rfl rfl rfl⟩
  have hnew : ∀ {con : Connection} {fd : Fd} {s' : State}, s.addNew con fd = some s' →
      Spares s s' a ∧ Spares s s' b := fun hadd =>
    ⟨spares_addNew h.parallel h.left.isOpen hadd, spares_addNew h.parallel h.right.isOpen hadd⟩
  cases step_stepped hstep with
  | @opened fd =>
    have hopened : ∀ fd', Spares s { s with openFds := insert fd s.openFds } fd' :=
      fun fd' => ⟨.refl _, Finset.mem_insert_of_mem, rfl, fun _ hx => hx⟩
    exact ⟨hopened a, hopened b, .nothing rfl quiet_nil⟩
  | serverFailed => exact ⟨hsame.1, hsame.2, .nothing rfl quiet_nil⟩
  | server hadd => exact ⟨(hnew hadd).1, (hnew hadd).2, .nothing rfl quiet_nil⟩
  | connectFailed => exact ⟨hsame.1, hsame.2, .nothing rfl quiet_nil⟩
  | connected hadd => exact ⟨(hnew hadd).1, (hnew hadd).2, .nothing rfl quiet_nil⟩
  | external =>
    exact ⟨spares_add h.parallel hends.1 rfl subset_rfl,
      spares_add h.parallel hends.2 rfl subset_rfl, .nothing rfl quiet_nil⟩
  | switchRefused => exact ⟨hsame.1, hsame.2, .nothing rfl quiet_nil⟩
  | switched hadd =>
    obtain ⟨h1a, h1b, h2a, h2b⟩ := hends
    exact ⟨spares_addSwitch hadd h1a h2a, spares_addSwitch hadd h1b h2b, .nothing rfl quiet_nil⟩
  | scheduled =>
    refine ⟨spares_of_eq rfl rfl rfl, spares_of_eq rfl rfl rfl, .nothing rfl ?_⟩
    exact quiet_cons.mpr ⟨decide_eq_false hends, quiet_nil⟩
  | closed hclose =>
    have hspares_a := close_other h.parallel (fun e he => (hends e he).1) hclose
    have hspares_b := close_other h.parallel (fun e he => (hends e he).2) hclose
    exact ⟨hspares_a.1, hspares_b.1, .nothing rfl hspares_b.2⟩
  | closedFd hclose =>
    have hspares_a := closeFd_other h.parallel hends.1 hclose
    have hspares_b := closeFd_other h.parallel hends.2 hclose
    exact ⟨hspares_a.1, hspares_b.1, .nothing rfl hspares_b.2⟩
  | waited hwait => exact waitEvent_passing h hends hwait

/-- The writes on the other end. -/
def writes (es : List Moved) : List (List Byte) :=
  es.filterMap fun
    | .written bs => some bs
    | .arrived _ => none

theorem writtenBytes_eq_flatten (es : List Moved) : writtenBytes es = (writes es).flatten := by
  induction es with
  | nil => rfl
  | cons e es ih =>
    cases e with
    | arrived bs => exact ih
    | written bs => exact congrArg (bs ++ ·) ih

theorem arrivedBytes_departures (b : Fd) (c : Call) (io : List Io) :
    arrivedBytes (departures b c io) = [] := by
  apply List.flatMap_eq_nil_iff.mpr
  intro e he
  obtain ⟨e', -, hmap⟩ := List.mem_filterMap.mp he
  cases e' with
  | queue e' => cases hmap
  | write fd bs =>
    simp only at hmap
    split at hmap
    · cases hmap
      rfl
    · cases hmap
  | close fd => cases hmap

theorem arrivedBytes_arrived (b : Fd) (c : Call) (arrived : List Byte) (io : List Io) :
    arrivedBytes (.arrived arrived :: departures b c io) = arrived :=
  (congrArg (arrived ++ ·) (arrivedBytes_departures b c io)).trans (List.append_nil arrived)

/-- What a call does to the bytes for `b` and to the messages that wait for it. -/
inductive Relayed (b : Fd) (s : State) (es : List Moved) (s' : State) : Prop
  | nothing : arrivedBytes es = [] → writes es = [] → s'.waiting b = s.waiting b →
      Relayed b s es s'
  | frameRead {q : List Byte} : q.length ≤ ipcMaxMessageSize → arrivedBytes es = frame q →
      writes es = [] → s'.waiting b = s.waiting b ++ [{ fd := b, payload := q }] →
      Relayed b s es s'
  | frameWritten {m : Message} : arrivedBytes es = [] → writes es = [frame m.payload] →
      s.waiting b = m :: s'.waiting b → Relayed b s es s'

/-- The messages for `b` that a call queues or hands over are those of the frames it moves. -/
theorem Passing.relayed {b : Fd} {s s' : State} {arrived : List Byte} {c : Call} {io : List Io}
    (h : Passing b s.ctx.tx arrived (fun bs => accepted bs c) io)
    (horder : HandedInOrder Message.fd b (s.waiting b) (queueEvents io) (s'.waiting b)) :
    Relayed b s (.arrived arrived :: departures b c io) s' := by
  have harrivedBytes := arrivedBytes_arrived b c arrived io
  cases h with
  | nothing harrived hquiet =>
    obtain ⟨hqueued, hhanded, hlost⟩ := hquiet.lanes
    have hnone : departures b c io = [] := by
      apply List.filterMap_eq_nil_iff.mpr
      intro e he
      cases e with
      | queue e => rfl
      | write fd bs => exact if_neg (of_decide_eq_false (hquiet _ he))
      | close fd => rfl
    have hsame := horder.2 hlost
    rw [hqueued, hhanded, List.append_nil, List.nil_append] at hsame
    refine .nothing (harrivedBytes.trans harrived) ?_ hsame
    rw [hnone]
    rfl
  | @frameRead q hq harrived =>
    have hqueued : queuedIn Message.fd b
        (queueEvents [.queue (.queued { fd := b, payload := q })]) =
          [{ fd := b, payload := q }] := by
      simp [queuedIn, queueEvents, QueueEvent.joining, lane]
    have hjoined := horder.2 rfl
    rw [hqueued] at hjoined
    exact .frameRead hq (harrivedBytes.trans harrived) rfl hjoined
  | @frameWritten i m hm hfd harrived hwhole =>
    have hhanded : handedIn Message.fd b (queueEvents [.queue (.handed s.ctx.tx i),
        .write b (frame m.payload)]) = [m] := by
      simp [handedIn, queueEvents, QueueEvent.leaving, lane, hm, hfd]
    have hqueued : queuedIn Message.fd b (queueEvents [.queue (.handed s.ctx.tx i),
        .write b (frame m.payload)]) = [] := rfl
    have hleft := horder.2 rfl
    rw [hhanded, hqueued, List.append_nil] at hleft
    refine .frameWritten (harrivedBytes.trans harrived) ?_ hleft.symm
    simp [departures, writes, hwhole]

/-- From `s` to `s'`, the bytes written on `b`, then the frames that still wait for it, are the
frames that waited and the bytes that arrived. -/
def Relays (b : Fd) (s : State) (es : List Moved) (s' : State) : Prop :=
  writtenBytes es ++ frames (s'.waiting b) = frames (s.waiting b) ++ arrivedBytes es

theorem Relays.trans {b : Fd} {s s' s'' : State} {es es' : List Moved} (h : Relays b s es s')
    (h' : Relays b s' es' s'') : Relays b s (es ++ es') s'' := by
  unfold Relays writtenBytes arrivedBytes at *
  rw [List.flatMap_append, List.flatMap_append, List.append_assoc, h', ← List.append_assoc, h,
    List.append_assoc]

theorem Relayed.relays {b : Fd} {s s' : State} {es : List Moved} (h : Relayed b s es s') :
    Relays b s es s' := by
  unfold Relays
  rw [writtenBytes_eq_flatten]
  cases h with
  | nothing harrived hwrites hwaiting => simp [harrived, hwrites, hwaiting]
  | frameRead _ harrived hwrites hwaiting => simp [harrived, hwrites, hwaiting, frames]
  | frameWritten harrived hwrites hwaiting => simp [harrived, hwrites, hwaiting, frames]

/-- One clean call keeps the ends joined and relays. -/
theorem relayStep_clean {a b : Fd} {s s' : State} {c : Call} {es : List Moved} (h : Joined s a b)
    (hclean : Clean a b s c) (hstep : relayStep a b s c = some (s', es)) :
    Joined s' a b ∧ Relayed b s es s' := by
  obtain ⟨⟨s₁, io⟩, hcall, heq⟩ := Option.map_eq_some_iff.mp hstep
  cases heq
  obtain ⟨hspares_a, hspares_b, hpassing⟩ := step_passing h hclean.ends hcall
  have heffect := step_effect h.parallel hcall
  have hrelayed := hpassing.relayed
    (fifo_handedInOrder (heffect.steps.fifo (hclean.order (s', io) hcall)))
  refine ⟨⟨heffect.parallel, h.distinct, h.left.spared hspares_a, h.right.spared hspares_b, ?_⟩,
    hrelayed⟩
  intro m hm
  cases hrelayed with
  | nothing _ _ hwaiting => exact h.fits m (hwaiting ▸ hm)
  | frameRead hq _ _ hwaiting =>
    rw [hwaiting, List.mem_append, List.mem_singleton] at hm
    rcases hm with hm | rfl
    · exact h.fits m hm
    · exact hq
  | frameWritten _ _ hwaiting => exact h.fits m (hwaiting ▸ List.mem_cons_of_mem _ hm)

/-! ## Joining and draining -/

/-- What `add_switch` relies on to join `a` and `b`: two open descriptors with one connection each,
that no other descriptor is still switched with. -/
structure Joinable (s : State) (a b : Fd) : Prop where
  parallel : s.ctx.Parallel
  distinct : a ≠ b
  tracked : s.ctx.count a = 1 ∧ s.ctx.count b = 1
  isOpen : a ∈ s.openFds ∧ b ∈ s.openFds
  unlinked : ∀ x, s.ctx.switchdb.lookup x = some a ∨ s.ctx.switchdb.lookup x = some b →
    x = a ∨ x = b
  fits : ∀ m ∈ s.waiting b, m.payload.length ≤ ipcMaxMessageSize

/-- The only connection of a switched descriptor is switched. -/
theorem on_of_count {ctx : Context} {fd : Fd} (hcount : ctx.count fd = 1)
    (hswitched : ctx.Switched fd) : ∃ c : Connection, c.t = .switched ∧ ctx.on fd = [(c, fd)] := by
  obtain ⟨c, hmem, ht⟩ := hswitched
  have hon : (c, fd) ∈ ctx.on fd := List.mem_filter.mpr ⟨hmem, by simp⟩
  have hlength : (ctx.on fd).length = 1 := by
    rw [← hcount, Context.count, List.count_eq_length_filter, List.filter_map, List.length_map]
    rfl
  obtain ⟨e, he⟩ := List.length_eq_one_iff.mp hlength
  rw [he, List.mem_singleton] at hon
  exact ⟨c, ht, by rw [he, hon]⟩

theorem Joinable.joined {s : State} {a b : Fd} (h : Joinable s a b) {ctx : Context}
    (hadd : s.ctx.addSwitch a b = .ok ctx) : Joined { s with ctx := ctx } a b := by
  have hswitched := switched_addSwitch_iff h.parallel hadd
  obtain ⟨i, j, -, -, rfl⟩ := addSwitch_eq_ok hadd
  have hpar : Context.Parallel { s.ctx with
      connections := (s.ctx.connections.modify i .switched).modify j .switched
      switchdb := s.ctx.switchdb.addSwitch a b } := by
    have := h.parallel
    unfold Context.Parallel at *
    simpa using this
  have hcount := fun fd => (count_eq hpar fd).trans (count_eq h.parallel fd).symm
  have hlookup_b : (PartnerTable.link s.ctx.switchdb a b).lookup b = some a :=
    AList.lookup_insert _
  have hlookup_a : (PartnerTable.link s.ctx.switchdb a b).lookup a = some b :=
    (AList.lookup_insert_ne h.distinct).trans (AList.lookup_insert _)
  have hbefore : ∀ x fd, x ≠ a → x ≠ b →
      (PartnerTable.link s.ctx.switchdb a b).lookup x = some fd →
        s.ctx.switchdb.lookup x = some fd := by
    intro x fd hxa hxb hx
    rwa [PartnerTable.link, AList.lookup_insert_ne hxb, AList.lookup_insert_ne hxa] at hx
  refine ⟨hpar, h.distinct, ⟨?_, h.isOpen.1, hlookup_a, ?_⟩, ⟨?_, h.isOpen.2, hlookup_b, ?_⟩,
    h.fits⟩
  · exact on_of_count ((hcount a).trans h.tracked.1) ((hswitched a).mpr (.inl rfl))
  · intro x hx
    by_contra hxb
    have hxa : x ≠ a := by
      rintro rfl
      exact h.distinct (Option.some.inj (hx.symm.trans hlookup_a))
    rcases h.unlinked x (.inl (hbefore x a hxa hxb hx)) with heq | heq
    · exact hxa heq
    · exact hxb heq
  · exact on_of_count ((hcount b).trans h.tracked.2) ((hswitched b).mpr (.inr (.inl rfl)))
  · intro x hx
    by_contra hxa
    have hxb : x ≠ b := by
      rintro rfl
      exact h.distinct (Option.some.inj (hlookup_b.symm.trans hx))
    rcases h.unlinked x (.inr (hbefore x b hxa hxb hx)) with heq | heq
    · exact hxa heq
    · exact hxb heq

/-- As long as a message waits for `b`, a `wait_event` that finds `b` writable takes one. -/
def Drains (b : Fd) (s : State) : Prop :=
  ∀ sys index p, s.stop sys = some (index, p) → p.fd = b → ¬ p.revents.pollin →
    p.revents.pollout → EndClean b s sys p → s.waiting b ≠ [] →
      ∃ event s' io, s.waitEvent sys = some (.ok event, s', io) ∧
        (s'.waiting b).length + 1 = (s.waiting b).length

/-- A frame that has arrived is read. -/
theorem Joined.waitEvent_read {a b : Fd} {s : State} (h : Joined s a b) {sys : WaitSys} {index : Nat}
    {p : PollFd} (hstop : s.stop sys = some (index, p)) (hfd : p.fd = a) (hin : p.revents.pollin)
    {q : List Byte} (hq : q.length ≤ ipcMaxMessageSize)
    (hcb : sys.cbIn = .default (.ok (frame q))) :
    ∃ event s',
      s.waitEvent sys = some (.ok event, s', [.queue (.queued { fd := b, payload := q })]) ∧
        event.t = .switchRx ∧ s'.waiting b = s.waiting b ++ [{ fd := b, payload := q }] := by
  obtain ⟨revents, hpoll, hindex, hp⟩ := stop_eq_some hstop
  have hjoined := h.polled revents
  obtain ⟨c, hc⟩ := exists_connection hjoined.parallel hp
  have hget := conns_getElem? hc hp
  rw [hfd] at hget
  have hwait := waitEvent_eq_dispatch hpoll hindex hp hc
  rw [State.dispatch, if_pos hin, hjoined.left.switched hget] at hwait
  simp only [hfd, hcb] at hwait
  rw [readSwitched_frame hjoined.left.lookup index hq] at hwait
  refine ⟨_, _, hwait, rfl, ?_⟩
  simp [State.waiting, State.schedule, State.withTx, State.polled, State.withPollfd, lane]

/-- A message that waits for a writable end is written. -/
theorem Joined.waitEvent_write {a b : Fd} {s : State} (h : Joined s a b) {sys : WaitSys} {index : Nat}
    {p : PollFd} (hstop : s.stop sys = some (index, p)) (hfd : p.fd = b) (hin : ¬ p.revents.pollin)
    (hout : p.revents.pollout) {n : Nat} (hcb : sys.cbOut = .default (.wrote n))
    (hne : s.waiting b ≠ []) :
    ∃ i event s' bs,
      s.waitEvent sys = some (.ok event, s', [.queue (.handed s.ctx.tx i), .write b bs]) ∧
        event.t = .switchTx ∧ (s'.waiting b).length + 1 = (s.waiting b).length := by
  obtain ⟨revents, hpoll, hindex, hp⟩ := stop_eq_some hstop
  have hjoined := h.polled revents
  obtain ⟨c, hc⟩ := exists_connection hjoined.parallel hp
  obtain ⟨m, hm⟩ : ∃ m, m ∈ (s.waiting b).head? := by
    cases hw : s.waiting b with
    | nil => exact absurd hw hne
    | cons m ms => exact ⟨m, rfl⟩
  subst hfd
  obtain ⟨i, event, s', bs, hmi, hd, ht, htx, -, -⟩ :=
    dispatch_write hjoined.right hp (conns_getElem? hc hp) hin hout hcb hm
  refine ⟨i, event, s', bs, (waitEvent_eq_dispatch hpoll hindex hp hc).trans hd, ht, ?_⟩
  obtain ⟨hlt, hget⟩ := List.getElem?_eq_some_iff.mp hmi
  have hperm := (perm_cons_swapRemove hlt).filter fun m => m.fd = p.fd
  have hmfd : m.fd = p.fd := by simpa using (List.mem_filter.mp (List.mem_of_mem_head? hm)).2
  rw [hget, List.filter_cons_of_pos (by simpa using hmfd)] at hperm
  have hlength := hperm.length_eq
  rw [List.length_cons] at hlength
  unfold State.waiting lane
  rw [htx]
  exact hlength.symm

theorem Joined.drains {a b : Fd} {s : State} (h : Joined s a b) : Drains b s := by
  intro sys index p hstop hfd hin hout hclean hne
  rw [EndClean, if_neg hin, if_pos hout] at hclean
  obtain ⟨n, hcb, -⟩ := hclean
  obtain ⟨i, event, s', bs, hwait, -, hlength⟩ :=
    h.waitEvent_write hstop hfd hin hout hcb hne
  exact ⟨event, s', _, hwait, hlength⟩

/-- **Transparent switch**: once `a` and `b` are joined, in a run whose calls are all clean both
ends stay joined, and the bytes written on `b` are, in order, those that arrived on `a`, up to the
frames that wait; and these can be written. -/
theorem relays_of_clean {a b : Fd} {s s' : State} (h : Joinable s a b) {ctx : Context}
    (hadd : s.ctx.addSwitch a b = .ok ctx) {cs : List Call} {es : List Moved}
    (hclean : RunMeets (relayStep a b) (Clean a b) { s with ctx := ctx } cs)
    (hrun : runAll (relayStep a b) { s with ctx := ctx } cs = some (s', es)) :
    Joined s' a b ∧ Relays b { s with ctx := ctx } es s' ∧ Drains b s' := by
  obtain ⟨hjoined, hrelays⟩ :=
    runAll_induction (P := fun s => Joined s a b) (Q := Relays b)
      (fun s _ => by simp [Relays, writtenBytes, arrivedBytes])
      (fun s c s₁ es₁ hj hc hstep => by
        obtain ⟨hj₁, hrelays⟩ := relayStep_clean hj hc hstep
        exact ⟨hj₁, fun es₂ s₂ h₂ => hrelays.relays.trans h₂⟩)
      (h.joined hadd) hclean hrun
  exact ⟨hjoined, hrelays, hjoined.drains⟩

/-- The two clients, joined. -/
def joinedClients : State :=
  { twoClients with
    ctx :=
      { twoClients.ctx with
        connections := [{ t := .switched }, { t := .switched }]
        switchdb := SwitchDB.addSwitch ∅ 5 6 } }

theorem joinable_twoClients : Joinable twoClients 5 6 where
  parallel := rfl
  distinct := by decide
  tracked := by decide
  isOpen := by decide
  unlinked := by
    intro x hx
    simp [twoClients] at hx
  fits := by
    intro m hm
    cases hm

/-- `read(2)` returns `bs` on the first of two descriptors. -/
def firstReads (bs : List Byte) : Call :=
  .waitEvent { poll := some [{ pollin := true }, {}], cbIn := .default (.ok bs) }

/-- The second of two descriptors is writable, and takes everything. -/
def secondWrites : Call :=
  .waitEvent { poll := some [{}, { pollout := true }], cbOut := .default (.wrote 100000) }

/-- One frame goes through. -/
theorem relays_one_frame :
    ∃ s' es, runAll (relayStep 5 6) joinedClients [firstReads (frame [111, 107]), secondWrites] =
        some (s', es) ∧
      writtenBytes es = frame [111, 107] ∧ Joined s' 5 6 ∧ Relays 6 joinedClients es s' := by
  have hrun : ∃ r, runAll (relayStep 5 6) joinedClients
      [firstReads (frame [111, 107]), secondWrites] = some r ∧
        writtenBytes r.2 = frame [111, 107] := by
    simp only [← Option.mem_def]
    decide +kernel
  obtain ⟨⟨s', es⟩, hrun, hbytes⟩ := hrun
  have hclean : RunMeets (relayStep 5 6) (Clean 5 6) joinedClients
      [firstReads (frame [111, 107]), secondWrites] := by
    refine ⟨⟨?_, ?_⟩, ?_⟩
    · rintro ip ⟨⟩ -
      exact ⟨[111, 107], by decide, rfl⟩
    · rintro r ⟨⟩
      decide
    rintro r ⟨⟩
    refine ⟨⟨?_, ?_⟩, fun _ _ => trivial⟩
    · rintro ip ⟨⟩ -
      refine ⟨100000, rfl, ?_⟩
      rintro - m ⟨⟩
      decide
    · rintro r ⟨⟩
      decide
  obtain ⟨hjoined, hrelays, -⟩ := relays_of_clean joinable_twoClients rfl hclean hrun
  exact ⟨s', es, hrun, hbytes, hjoined, hrelays⟩

/-- Of two frames that arrive together only the first goes through; a frame that arrives in two
parts ends the switch, on both sides. -/
theorem not_relays_glued_or_cut :
    Joinable twoClients 5 6 ∧
      (∃ s' es, runAll (relayStep 5 6) joinedClients
          [firstReads (frame [97] ++ frame [98]), secondWrites] = some (s', es) ∧
        s'.waiting 6 = [] ∧ writtenBytes es = frame [97] ∧ ¬ Relays 6 joinedClients es s') ∧
      ∃ s' es, runAll (relayStep 5 6) joinedClients [firstReads ((frame [97]).take 4)] =
          some (s', es) ∧ s'.ctx.fds = [] := by
  refine ⟨joinable_twoClients, ?_, ?_⟩
  · have hrun : ∃ r, runAll (relayStep 5 6) joinedClients
        [firstReads (frame [97] ++ frame [98]), secondWrites] = some r ∧
          r.1.waiting 6 = [] ∧ writtenBytes r.2 = frame [97] ∧
          arrivedBytes r.2 = frame [97] ++ frame [98] := by
      simp only [← Option.mem_def]
      decide +kernel
    obtain ⟨⟨s', es⟩, hrun, hwaiting, hwritten, harrived⟩ := hrun
    refine ⟨s', es, hrun, hwaiting, hwritten, ?_⟩
    intro hrelays
    simp only at hwaiting hwritten harrived
    rw [Relays, hwaiting, hwritten, harrived] at hrelays
    revert hrelays
    decide
  · have hrun : ∃ r, runAll (relayStep 5 6) joinedClients [firstReads ((frame [97]).take 4)] =
        some r ∧ r.1.ctx.fds = [] := by
      simp only [← Option.mem_def]
      decide +kernel
    obtain ⟨⟨s', es⟩, hrun, hfds⟩ := hrun
    exact ⟨s', es, hrun, hfds⟩

end LibIpc.Zig

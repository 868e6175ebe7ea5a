import LibIpc.Zig.Network
import LibIpc.Zig.Stream

/-!
# Whether a hand-over completes

The "ok" of each hop and the frames of the service use the same streams, with nothing between them.
A read of the local `tcpd` that returns the "ok" together with the first frame is not "ok", and both
connections are closed; a read of `ipcd` that does so loses the frame. `handsOver_of_orderly` says
that nothing else goes wrong: in a run where each read keeps to one write, every hop gets its "ok",
and the client receives what the service has sent, in order.
-/

namespace LibIpc.Zig

open Lib

/-! ## Runs that keep to the writes -/

/-- No descriptor is still switched with the number `fd`, and no message waits for it. -/
structure Unused (s : State) (fd : Fd) : Prop where
  unlinked : ∀ x, s.ctx.switchdb.lookup x ≠ some fd
  nothing : s.waiting fd = []

/-- The moves that keep to the writes. A read returns the bytes of one write; a write is accepted
whole; the numbers of the descriptors that are switched are not left over from a former switch; and
the frames of the service are neither empty nor too long. -/
def Net.Orderly (rt : Route) (net : Net) : Move → Prop
  | .nearTurn sys => net.nearPhase = .done →
      Clean rt.stream rt.origin net.near (.waitEvent sys) ∧
        net.fromFar.Keeps (arrival rt.stream net.near (.waitEvent sys))
  | .farTurn sys => net.farPhase = .done →
      Clean rt.service rt.remote net.far (.waitEvent sys) ∧
        net.fromService.Keeps (arrival rt.service net.far (.waitEvent sys))
  | .farAccepts _ env =>
      (∃ n, env.streamWrite = .wrote n ∧ okText.length ≤ n) ∧ Unused net.far rt.remote ∧
        Unused net.far rt.service
  | .serviceSends p => p ≠ [] ∧ Fits p
  | .nearHears env =>
      (∀ bs, env.streamRead = .ok bs → net.fromFar.Keeps bs) ∧
        (∃ n, env.write = .wrote n ∧ (frame okText).length ≤ n) ∧ Unused net.near rt.origin ∧
        Unused net.near rt.stream
  | .ipcdHears env =>
      (∀ bs, env.read = .ok bs → net.fromNear.Keeps bs) ∧ env.sendmsg = .wrote okText.length
  | .clientHears bs => net.fromIpcd.Keeps bs
  | .clientReads bs => net.fromNear.Keeps bs
  | _ => True

/-- Of these, what the streams alone decide: a read returns the bytes of one write, and a write is
accepted whole. -/
def Net.Whole (rt : Route) (net : Net) : Move → Prop
  | .nearTurn sys => LeavesEnds rt.stream rt.origin net.near (.waitEvent sys) ∧
      net.fromFar.Keeps (arrival rt.stream net.near (.waitEvent sys))
  | .farTurn sys => LeavesEnds rt.service rt.remote net.far (.waitEvent sys) ∧
      net.fromService.Keeps (arrival rt.service net.far (.waitEvent sys))
  | .nearHears env =>
      (∀ bs, env.streamRead = .ok bs → net.fromFar.Keeps bs) ∧
        ∃ n, env.write = .wrote n ∧ (frame okText).length ≤ n
  | .ipcdHears env =>
      (∀ bs, env.read = .ok bs → net.fromNear.Keeps bs) ∧ env.sendmsg = .wrote okText.length
  | .clientHears bs => net.fromIpcd.Keeps bs
  | .clientReads bs => net.fromNear.Keeps bs
  | _ => True

instance (s : State) (fd : Fd) : Decidable (Unused s fd) :=
  decidable_of_iff ((∀ e ∈ s.ctx.switchdb.entries, e.2 ≠ fd) ∧ s.waiting fd = []) <| by
    constructor
    · intro h
      refine ⟨?_, h.2⟩
      intro x hx
      exact h.1 ⟨x, fd⟩ (AList.mem_lookup_iff.mp hx) rfl
    · intro h
      refine ⟨?_, h.nothing⟩
      intro e he heq
      exact h.unlinked e.1 (heq ▸ AList.mem_lookup_iff.mpr he)

instance decidableOnRead (P : List Byte → Prop) [DecidablePred P] :
    ∀ r : ReadResult, Decidable (∀ bs, r = .ok bs → P bs)
  | .ok bs => decidable_of_iff (P bs) (by simp)
  | .reset => isTrue nofun
  | .error => isTrue nofun

instance decidableAccepted (k : Nat) : ∀ w : WriteResult, Decidable (∃ n, w = .wrote n ∧ k ≤ n)
  | .wrote n => decidable_of_iff (k ≤ n) (by simp)
  | .error => isFalse (by simp)

instance Net.decidableOrderly (rt : Route) (net : Net) : ∀ m, Decidable (net.Orderly rt m)
  | .nearTurn _ | .farTurn _ => inferInstanceAs (Decidable (_ → _))
  | .farAccepts _ _ | .serviceSends _ | .nearHears _ | .ipcdHears _ =>
    inferInstanceAs (Decidable (_ ∧ _))
  | .clientHears _ | .clientReads _ => inferInstanceAs (Decidable (Link.Keeps _ _))
  | .clientAsks _ | .ipcdTurn _ | .ipcdAsks _ _ | .nearAsks _ _ => isTrue trivial

/-! ## One turn -/

theorem frame_ne_nil (p : List Byte) : frame p ≠ [] := by
  intro h
  have hlength := congrArg List.length h
  simp [ipcHeaderSize] at hlength

theorem frame_injective : Function.Injective frame := by
  intro p q h
  have hdrop := congrArg (List.drop ipcHeaderSize) h
  rwa [drop_frame, drop_frame] at hdrop

theorem bytes?_eq_some {r : ReadResult} {bs : List Byte} (h : r.bytes? = some bs) : r = .ok bs := by
  cases r with
  | ok bs' => exact congrArg ReadResult.ok (Option.some.inj h)
  | reset => cases h
  | error => cases h

section Turn
variable {s s' : State} {sys : WaitSys}

theorem turn_eq_some {d : Daemon} (h : s.turn d sys = some s') :
    ∃ event io, s.waitEvent sys = some (.ok event, s', io) := by
  unfold State.turn at h
  split at h
  · rename_i event s₁ io hwait
    split at h
    · cases h
    · rename_i hother
      obtain ⟨r, hhandle, rfl⟩ := Option.map_eq_some_iff.mp h
      rcases handle_cases hhandle with rfl | ⟨ht, -⟩ | ⟨ht, -⟩
      · exact ⟨event, io, hwait⟩
      · exact absurd (.inl ht) hother
      · exact absurd (.inr ht) hother
  · cases h

theorem turn_tidy {d : Daemon} (hs : Tidy s) (h : s.turn d sys = some s') : Tidy s' := by
  obtain ⟨event, io, hwait⟩ := turn_eq_some h
  exact waitEvent_tidy hs hwait

theorem request_eq_some {origin : Fd} {index : Nat} {m : Message} (hs : Tidy s)
    (h : s.request origin sys = some (s', index, m)) :
    Tidy s' ∧ ∃ c, s'.ctx.conns[index]? = some (c, origin) := by
  unfold State.request at h
  split at h
  · rename_i event s₁ io hwait
    split at h
    · rename_i hrequest
      obtain ⟨m', -, heq⟩ := Option.map_eq_some_iff.mp h
      cases heq
      obtain ⟨hget, -⟩ := waitEvent_messageRx hwait hrequest.1
      exact ⟨waitEvent_tidy hs hwait, hrequest.2 ▸ hget⟩
    · cases h
  · cases h

theorem map_frame_eq_cons {ps : List (List Byte)} {bs : List Byte} {l : Link Byte}
    (h : ps.map frame = bs :: l) : ∃ p ps', ps = p :: ps' ∧ bs = frame p ∧ l = ps'.map frame := by
  obtain ⟨p, ps', rfl, hp, hl⟩ := List.map_eq_cons_iff.mp h
  exact ⟨p, ps', rfl, hp.symm, hl.symm⟩

/-- A turn of a switch moves payloads from the source to the queue and from the queue to the sink,
in order. -/
theorem relayTurn_orderly {a b : Fd} {source sink source' sink' : Link Byte} (hs : Tidy s)
    (hjoined : Joined s a b) (hclean : Clean a b s (.waitEvent sys))
    (hkeeps : source.Keeps (arrival a s (.waitEvent sys)))
    (h : s.relayTurn a b sys source sink = some (s', source', sink')) {ps : List (List Byte)}
    (hps : source = ps.map frame) :
    Tidy s' ∧ Joined s' a b ∧ ∃ moved ps', source' = ps'.map frame ∧
      sink' = sink ++ moved.map frame ∧
      moved ++ (s'.waiting b).map Message.payload ++ ps' =
        (s.waiting b).map Message.payload ++ ps := by
  simp only [State.relayTurn, Option.bind_eq_bind, Option.pure_def] at h
  obtain ⟨s₁, hturn, h⟩ := Option.bind_eq_some_iff.mp h
  obtain ⟨⟨s₂, es⟩, hstep, h⟩ := Option.bind_eq_some_iff.mp h
  obtain ⟨l, hread, h⟩ := Option.bind_eq_some_iff.mp h
  cases h
  obtain ⟨event, io, hwait⟩ := turn_eq_some hturn
  have hstep' : relayStep a b s (.waitEvent sys) =
      some (s', .arrived (arrival a s (.waitEvent sys)) :: departures b (.waitEvent sys) io) := by
    simp only [relayStep, step, State.after, hwait, Option.map_some]
  obtain ⟨rfl, rfl⟩ := Prod.mk.inj (Option.some.inj (hstep.symm.trans hstep'))
  obtain ⟨hjoined', hrelayed⟩ := relayStep_clean hjoined hclean hstep
  refine ⟨turn_tidy hs hturn, hjoined', ?_⟩
  rw [arrivedBytes_arrived] at hread
  have hsource := hkeeps.readMaybe_eq hread
  cases hrelayed with
  | nothing harrived hwrites hwaiting =>
    rw [arrivedBytes_arrived] at harrived
    rw [harrived, Link.readMaybe_nil, Option.some.injEq] at hread
    exact ⟨[], ps, hread.symm.trans hps, by rw [hwrites]; rfl, by rw [hwaiting]; rfl⟩
  | @frameRead q _ harrived hwrites hwaiting =>
    -- A frame goes from the stream to the queue.
    rw [arrivedBytes_arrived] at harrived
    rw [harrived] at hsource
    have hframe := hsource.resolve_left fun hnil => frame_ne_nil q hnil.1
    obtain ⟨p, ps', rfl, hp, hl⟩ := map_frame_eq_cons (hps.symm.trans hframe)
    obtain rfl := frame_injective hp
    refine ⟨[], ps', hl, by rw [hwrites]; rfl, ?_⟩
    rw [hwaiting]
    simp
  | @frameWritten m harrived hwrites hwaiting =>
    -- A frame goes from the queue to the next stream.
    rw [arrivedBytes_arrived] at harrived
    rw [harrived, Link.readMaybe_nil, Option.some.injEq] at hread
    refine ⟨[m.payload], ps, hread.symm.trans hps, by rw [hwrites]; rfl, ?_⟩
    rw [hwaiting]
    simp

end Turn

/-! ## The "ok" of each hop -/

theorem Joined.symm {s : State} {a b : Fd} (h : Joined s a b) (hnothing : s.waiting a = []) :
    Joined s b a where
  parallel := h.parallel
  distinct := h.distinct.symm
  left := h.right
  right := h.left
  fits := by
    rw [hnothing]
    exact nofun

theorem writesOn_append (fd : Fd) (io io' : List Io) :
    writesOn fd (io ++ io') = writesOn fd io ++ writesOn fd io' :=
  List.filterMap_append

theorem writesOn_eq_nil {fd : Fd} {io : List Io} (h : ∀ fd' bs, .write fd' bs ∉ io) :
    writesOn fd io = [] := by
  apply List.filterMap_eq_nil_iff.mpr
  intro e he
  cases e with
  | queue e => rfl
  | write fd' bs => exact absurd he (h fd' bs)
  | close fd' => rfl

section Hop
variable {s : State} {env : Env}

/-- Two descriptors with numbers that nothing is left of are joined, in both directions. -/
theorem switchStream_joined (h : Tidy s) {stream fd1 fd2 : Fd} (hopen : stream ∈ s.openFds)
    (hnew : stream ∉ s.ctx.fds) (h1 : fd1 = stream ∨ fd1 ∈ s.ctx.fds)
    (h2 : fd2 = stream ∨ fd2 ∈ s.ctx.fds) (hne : fd1 ≠ fd2) (hunused1 : Unused s fd1)
    (hunused2 : Unused s fd2) :
    ∃ s', switchStream s stream fd1 fd2 = { fate := .continues, state := s' } ∧ Tidy s' ∧
      Joined s' fd1 fd2 ∧ Joined s' fd2 fd1 ∧ s'.waiting fd1 = [] ∧ s'.waiting fd2 = [] := by
  have hadded : Steady s { s with ctx := s.ctx.add_ { t := .external } stream } :=
    h.add hnew rfl hopen (Finset.Subset.refl _)
  obtain ⟨ctx, hswitch, htidy, -⟩ := hadded.tidy.addSwitch (mem_fds_add_ h1) (mem_fds_add_ h2) hne
  have hcount : ∀ fd, fd = stream ∨ fd ∈ s.ctx.fds →
      (s.ctx.add_ { t := .external } stream).count fd = 1 := by
    intro fd hfd
    rw [count_eq hadded.tidy.parallel]
    exact List.count_eq_one_of_mem hadded.tidy.nodup (mem_fds_add_ hfd)
  have hjoinable : Joinable { s with ctx := s.ctx.add_ { t := .external } stream } fd1 fd2 := by
    refine ⟨hadded.tidy.parallel, hne, ⟨hcount fd1 h1, hcount fd2 h2⟩,
      ⟨hadded.tidy.isOpen fd1 (mem_fds_add_ h1), hadded.tidy.isOpen fd2 (mem_fds_add_ h2)⟩, ?_, ?_⟩
    · rintro x (hx | hx)
      · exact absurd hx (hunused1.unlinked x)
      · exact absurd hx (hunused2.unlinked x)
    · intro m hm
      have hnone : m ∈ s.waiting fd2 := hm
      rw [hunused2.nothing] at hnone
      cases hnone
  have hjoined := hjoinable.joined hswitch
  have hwaiting : ∀ fd, State.waiting { s with ctx := ctx } fd = s.waiting fd := by
    intro fd
    obtain ⟨i, j, -, -, rfl⟩ := addSwitch_eq_ok hswitch
    rfl
  refine ⟨{ s with ctx := ctx }, ?_, htidy, hjoined, ?_, ?_, ?_⟩
  · simp only [switchStream, hswitch]
  · exact hjoined.symm ((hwaiting fd1).trans hunused1.nothing)
  · exact (hwaiting fd1).trans hunused1.nothing
  · exact (hwaiting fd2).trans hunused2.nothing

/-- The local `tcpd` waits for the answer on `stream`, for the connection on `origin`. -/
def Calling (near : State) (index : Nat) (origin stream : Fd) : Prop :=
  ∃ s c, near = { s with openFds := insert stream s.openFds } ∧ Tidy s ∧ stream ∉ s.openFds ∧
    s.ctx.conns[index]? = some (c, origin)

/-- The context of `ipcd` while it waits for the answer on `servicefd`. -/
def Asking (ipcd : State) (requester servicefd : Fd) : Prop :=
  ∃ s, ipcd = s.track { t := .ipc } servicefd ∧ Tidy s ∧ servicefd ∉ s.openFds ∧
    requester ∈ s.ctx.fds

theorem fits_okText : Fits okText := by
  rw [Fits, ipcMaxMessageSize_eq]
  decide

/-- A whole frame is read back. -/
theorem readAnswer_frame (fd : Fd) {p : List Byte} (hne : p ≠ []) (hp : Fits p) :
    readAnswer fd (.ok (frame p)) = .ok (some { fd := fd, payload := p }) := by
  have hlen := length_frame p
  rw [ipcHeaderSize_eq] at hlen
  have hpos := List.length_pos_iff.mpr hne
  rw [Fits, ipcMaxMessageSize_eq] at hp
  have hread : Message.read fd (frame p) ipcMaxMessageSize = .ok { fd := fd, payload := p } := by
    rw [ipcMaxMessageSize_eq]
    exact (Message.read_eq_ok_iff fd (frame p) (by omega) (by omega) (by omega)).mpr fun _ _ => rfl
  rw [readAnswer, if_neg (by omega), hread]
  rfl

/-- Switching leaves the queue alone. -/
theorem waiting_switchStream (s : State) (stream fd1 fd2 fd : Fd) :
    (switchStream s stream fd1 fd2).state.waiting fd = s.waiting fd := by
  unfold switchStream
  simp only
  split
  · rfl
  · rename_i ctx hswitch
    obtain ⟨i, j, -, -, rfl⟩ := addSwitch_eq_ok hswitch
    rfl

theorem Calling.distinct {near : State} {index : Nat} {origin stream : Fd}
    (h : Calling near index origin stream) :
    Tidy near ∧ stream ∈ near.openFds ∧ stream ∉ near.ctx.fds ∧ origin ∈ near.ctx.fds ∧
      origin ≠ stream := by
  obtain ⟨s, c, rfl, hs, hnew, hget⟩ := h
  have hnot : stream ∉ s.ctx.fds := fun hfd => hnew (hs.isOpen stream hfd)
  have hmem : origin ∈ s.ctx.fds :=
    (mem_fds_iff hs.parallel).mpr ⟨_, List.mem_of_getElem? hget, rfl⟩
  refine ⟨(hs.opened stream).tidy, Finset.mem_insert_self stream s.openFds, hnot, hmem, ?_⟩
  rintro rfl
  exact hnot hmem

/-- The local `tcpd` hears its "ok". -/
theorem tcpdFinish_eq {near : State} {index : Nat} {origin stream : Fd}
    (h : Calling near index origin stream) {n : Nat} (hwrite : env.write = .wrote n) :
    tcpdFinish env near index origin stream okText =
      { fate := .continues
        state := (switchStream near stream origin stream).state
        io := [.write origin ((frame okText).take n)] } := by
  obtain ⟨hs, hopen, hnot, hmem, hne⟩ := h.distinct
  have hswitched := switchStream_spec hs hopen hnot (.inr hmem) (.inl rfl) hne
  have hok := write_wrote_of_fits (m := { fd := origin, payload := okText }) fits_okText n
  have hfate := hswitched.continues
  have hio := hswitched.io
  simp only [tcpdFinish, tcpdAnswered, if_true, tryWrite, hwrite, hok]
  cases hr : switchStream near stream origin stream with
  | mk fate state io =>
    rw [hr] at hfate hio
    obtain rfl : fate = .continues := hfate
    obtain rfl : io = [] := hio
    rfl

theorem tcpdFinish_ok {near : State} {index : Nat} {origin stream : Fd}
    (h : Calling near index origin stream) {n : Nat} (hwrite : env.write = .wrote n)
    (hn : (frame okText).length ≤ n) (horigin : Unused near origin) (hstream : Unused near stream) :
    ∃ s', tcpdFinish env near index origin stream okText =
        { fate := .continues, state := s', io := [.write origin (frame okText)] } ∧
      Tidy s' ∧ Joined s' stream origin ∧ s'.waiting origin = [] := by
  obtain ⟨hs, hopen, hnot, hmem, hne⟩ := h.distinct
  obtain ⟨s', hswitch, htidy, -, hjoined, hwaiting, -⟩ :=
    switchStream_joined hs hopen hnot (.inr hmem) (.inl rfl) hne horigin hstream
  refine ⟨s', ?_, htidy, hjoined, hwaiting⟩
  rw [tcpdFinish_eq h hwrite, List.take_of_length_le hn, hswitch]

/-- `ipcd` hears its "ok", and passes the descriptor on. -/
theorem ipcdFinish_ok {ipcd : State} {requester servicefd : Fd} (h : Asking ipcd requester servicefd)
    (hread : env.read = .ok (frame okText)) (hsend : env.sendmsg = .wrote okText.length) :
    ∃ s' io, ipcdFinish env ipcd requester servicefd =
        { fate := .continues, state := s', io := io } ∧
      Tidy s' ∧ writesOn requester io = [okText] := by
  obtain ⟨s, rfl, hs, hnew, hmem⟩ := h
  have hnot : servicefd ∉ s.ctx.fds := fun hfd => hnew (hs.isOpen servicefd hfd)
  have hne : requester ≠ servicefd := by
    rintro rfl
    exact hnot hmem
  have hanswered : ipcdAnswered env (s.track { t := .ipc } servicefd) requester servicefd =
      { fate := .continues
        state := s.track { t := .ipc } servicefd
        io := [.write requester okText] } := by
    rw [ipcdAnswered, readFd_track hs.parallel hnot, hread,
      readAnswer_frame servicefd (by decide) fits_okText, hsend]
    rfl
  have htracked := hs.track hnew { t := .ipc }
  have hmem' : servicefd ∈ (s.track { t := .ipc } servicefd).ctx.fds := by simp
  obtain ⟨s₁, io₁, hclose₁, hremoves₁⟩ := deferClose_eq
    (r := ⟨.continues, s.track { t := .ipc } servicefd, [.write requester okText]⟩) rfl
    htracked.tidy hmem'
  have hstill : requester ∈ s₁.ctx.fds :=
    mem_fds_of_spares htracked.tidy.parallel hremoves₁.tidy.parallel
      (hremoves₁.others requester hne).1 (htracked.mem_fds hs.parallel hmem)
  obtain ⟨s₂, io₂, hclose₂, hremoves₂⟩ := deferClose_eq
    (r := ⟨.continues, s₁, [.write requester okText] ++ io₁⟩) rfl hremoves₁.tidy hstill
  refine ⟨s₂, [.write requester okText] ++ io₁ ++ io₂, ?_, hremoves₂.tidy, ?_⟩
  · rw [ipcdFinish, hanswered, hclose₁, hclose₂]
  · rw [writesOn_append, writesOn_append, writesOn_eq_nil hremoves₁.silent,
      writesOn_eq_nil hremoves₂.silent]
    simp [writesOn]

/-- The remote `tcpd` connects to the service, and answers "ok". -/
theorem tcpdExternal_ok {remote service : Fd} {path : List Byte} {n : Nat} (hs : Tidy s)
    (haccept : env.accept = .ok remote) (hremote : remote ∉ s.openFds)
    (hread : env.streamRead = .ok path) (hpath : path ≠ [])
    (hconnect : env.connectService path = .ok service) (hservice : service ∉ s.openFds)
    (hne : remote ≠ service) (hwrite : env.streamWrite = .wrote n) (hn : okText.length ≤ n)
    (hunused : Unused s remote) (hunused' : Unused s service) :
    ∃ s', tcpdExternal env s =
        { fate := .continues, state := s', io := [.write remote okText] } ∧
      Tidy s' ∧ Joined s' service remote ∧ s'.waiting remote = [] := by
  have hnot : remote ∉ s.ctx.fds := fun hfd => hremote (hs.isOpen remote hfd)
  have hnew : service ∉ insert remote s.openFds := by
    rw [Finset.mem_insert]
    rintro (heq | hmem)
    · exact hne heq.symm
    · exact hservice hmem
  have htracked := (hs.opened remote).tidy.track hnew { t := .ipc }
  have hmem : service ∈ (s.ctx.add_ { t := .ipc } service).fds := by simp
  have hnot' : remote ∉ (s.ctx.add_ { t := .ipc } service).fds := by simp [hnot, hne]
  have hopen : remote ∈ insert service (insert remote s.openFds) := by simp
  obtain ⟨s', hswitch, htidy, -, hjoined, hwaiting, -⟩ :=
    switchStream_joined htracked.tidy hopen hnot' (.inl rfl) (.inr hmem) hne
      ⟨hunused.unlinked, hunused.nothing⟩ ⟨hunused'.unlinked, hunused'.nothing⟩
  refine ⟨s', ?_, htidy, hjoined, hwaiting⟩
  simp only [tcpdExternal, haccept, hread, if_neg hpath, hconnect, hwrite, hswitch,
    List.take_of_length_le hn]
  rfl

end Hop

/-! ## The invariant -/

/-- The phase of a process that asks at the stage `asked` and has its answer at `answered`. -/
def phaseAt (asked answered stage : Nat) : Phase :=
  if stage < asked then .idle else if stage < answered then .waiting else .done

theorem phaseAt_eq_idle {asked answered stage : Nat} (h : phaseAt asked answered stage = .idle) :
    stage < asked := by
  unfold phaseAt at h
  split at h
  · assumption
  · split at h <;> cases h

theorem phaseAt_eq_waiting {asked answered stage : Nat}
    (h : phaseAt asked answered stage = .waiting) : asked ≤ stage ∧ stage < answered := by
  unfold phaseAt at h
  split at h
  · cases h
  · rename_i hasked
    split at h
    · rename_i hanswered
      exact ⟨Nat.not_lt.mp hasked, hanswered⟩
    · cases h

theorem phaseAt_eq_done {asked answered stage : Nat} (h : phaseAt asked answered stage = .done) :
    asked ≤ stage ∧ answered ≤ stage := by
  unfold phaseAt at h
  split at h
  · cases h
  · rename_i hasked
    split at h
    · cases h
    · rename_i hanswered
      exact ⟨Nat.not_lt.mp hasked, Nat.not_lt.mp hanswered⟩

theorem phaseAt_ne_failed (asked answered stage : Nat) : phaseAt asked answered stage ≠ .failed := by
  unfold phaseAt
  split
  · decide
  · split <;> decide

/-- The stage of a hand-over: the client asks (1), then `ipcd` (2), then the local `tcpd` (3), the
remote one accepts (4), and the "ok" arrives at the local `tcpd` (5), at `ipcd` (6), at the client
(7). Nothing is asked before its turn. -/
structure Staged (net : Net) (k : Nat) : Prop where
  le : k ≤ 7
  client : net.client = phaseAt 1 7 k
  ipcd : net.ipcdPhase = phaseAt 2 6 k
  near : net.nearPhase = phaseAt 3 5 k
  far : net.farPhase = phaseAt 4 4 k
  toIpcd : net.client = .idle → net.toIpcd = []
  toNear : net.ipcdPhase = .idle → net.toNear = []
  toFar : net.nearPhase = .idle → net.toFar = []

/-- The contexts of the daemons, as the phase of each says. -/
structure Contexts (rt : Route) (net : Net) : Prop where
  ipcd : Tidy net.ipcd
  near : Tidy net.near
  far : Tidy net.far
  asking : net.ipcdPhase = .waiting → Asking net.ipcd rt.requester rt.servicefd
  calling : net.nearPhase = .waiting → Calling net.near net.index rt.origin rt.stream
  nearJoined : net.nearPhase = .done → Joined net.near rt.stream rt.origin
  farJoined : net.farPhase = .done → Joined net.far rt.service rt.remote

/-- The payloads on their way, from those next to the client to those next to the service. -/
structure Flight where
  fromNear : List (List Byte)
  nearQueue : List (List Byte)
  fromFar : List (List Byte)
  farQueue : List (List Byte)
  fromService : List (List Byte)

def Flight.payloads (f : Flight) : List (List Byte) :=
  f.fromNear ++ f.nearQueue ++ f.fromFar ++ f.farQueue ++ f.fromService

/-- The streams and the queues hold the flight, and before it the "ok" that is on its way. -/
structure Carries (rt : Route) (net : Net) (k : Nat) (f : Flight) : Prop where
  fromIpcd : net.fromIpcd = if k = 6 then [okText] else []
  fromNear : net.fromNear = (if k = 5 then [frame okText] else []) ++ f.fromNear.map frame
  nearQueue : f.nearQueue = if k < 5 then [] else (net.near.waiting rt.origin).map Message.payload
  fromFar : net.fromFar = (if k = 4 then [okText] else []) ++ f.fromFar.map frame
  farQueue : f.farQueue = if k < 4 then [] else (net.far.waiting rt.remote).map Message.payload
  fromService : net.fromService = f.fromService.map frame

/-- The invariant, with what the client has got so far. -/
structure Inv (rt : Route) (net : Net) (got : List (List Byte)) (k : Nat) (f : Flight) : Prop where
  staged : Staged net k
  contexts : Contexts rt net
  carries : Carries rt net k f
  unsent : net.farPhase = .idle → net.sent = []
  early : net.nearPhase ≠ .done → f.fromNear = []
  fits : ∀ p ∈ net.sent, p ≠ [] ∧ Fits p
  all : got ++ f.payloads = net.sent

section Step
variable {rt : Route} {net net' : Net} {got es : List (List Byte)} {k : Nat} {f : Flight}

/-- Before the remote `tcpd` has accepted, nothing is on its way. -/
theorem Inv.flight_eq (h : Inv rt net got k f) (hfar : net.farPhase = .idle) :
    f = ⟨[], [], [], [], []⟩ := by
  have hall := h.all
  rw [h.unsent hfar] at hall
  obtain ⟨a, b, c, d, e⟩ := f
  simpa [Flight.payloads, and_assoc] using (List.append_eq_nil_iff.mp hall).2

theorem Inv.clientAsks (h : Inv rt net got k f) {w : WriteResult}
    (hstep : net.step rt (.clientAsks w) = some (net', es)) :
    ∃ k' f', Inv rt net' (got ++ es) k' f' := by
  simp only [Net.step] at hstep
  split at hstep
  · rename_i hidle _
    cases hstep
    have hk := phaseAt_eq_idle (h.staged.client.symm.trans hidle)
    obtain rfl : k = 0 := by omega
    refine ⟨1, f, ?_⟩
    rw [List.append_nil]
    exact {
      h with
      staged := { h.staged with le := by decide, client := rfl, toIpcd := nofun }
      contexts := { h.contexts with }
      carries := { h.carries with } }
  · cases hstep

/-- A turn of a daemon that is not in the hand-over. -/
theorem Inv.ipcdTurn (h : Inv rt net got k f) {sys : WaitSys}
    (hstep : net.step rt (.ipcdTurn sys) = some (net', es)) :
    ∃ k' f', Inv rt net' (got ++ es) k' f' := by
  simp only [Net.step] at hstep
  split at hstep
  · cases hstep
  · rename_i hwaiting
    obtain ⟨s, hturn, heq⟩ := Option.map_eq_some_iff.mp hstep
    cases heq
    refine ⟨k, f, ?_⟩
    rw [List.append_nil]
    exact {
      h with
      staged := { h.staged with }
      contexts := {
        h.contexts with
        ipcd := turn_tidy h.contexts.ipcd hturn
        asking := fun hw => absurd hw hwaiting }
      carries := { h.carries with } }

theorem Inv.ipcdAsks (h : Inv rt net got k f) {sys : WaitSys} {env : Env}
    (hstep : net.step rt (.ipcdAsks sys env) = some (net', es)) :
    ∃ k' f', Inv rt net' (got ++ es) k' f' := by
  simp only [Net.step, Option.bind_eq_bind, Option.pure_def] at hstep
  obtain ⟨⟨s, index, m⟩, hrequest, hstep⟩ := Option.bind_eq_some_iff.mp hstep
  obtain ⟨bs, -, hstep⟩ := Option.bind_eq_some_iff.mp hstep
  obtain ⟨toIpcd, hread, hstep⟩ := Option.bind_eq_some_iff.mp hstep
  obtain ⟨⟨servicefd, asked⟩, -, hstep⟩ := Option.bind_eq_some_iff.mp hstep
  split at hstep
  · rename_i hcond
    obtain ⟨hidle, rfl, hnew⟩ := hcond
    cases hstep
    obtain ⟨hs, c, hget⟩ := request_eq_some h.contexts.ipcd hrequest
    have hk := phaseAt_eq_idle (h.staged.ipcd.symm.trans hidle)
    -- The request has been sent.
    have hk0 : k ≠ 0 := by
      rintro rfl
      exact Link.ne_nil_of_read hread (h.staged.toIpcd h.staged.client)
    obtain rfl : k = 1 := by omega
    refine ⟨2, f, ?_⟩
    rw [List.append_nil]
    exact {
      h with
      staged := {
        h.staged with
        le := by decide
        ipcd := rfl
        toIpcd := fun hclient => nomatch h.staged.client.symm.trans hclient
        toNear := nofun }
      contexts := {
        h.contexts with
        ipcd := (hs.track hnew _).tidy
        asking := fun _ => ⟨s, rfl, hs, hnew,
          (mem_fds_iff hs.parallel).mpr ⟨_, List.mem_of_getElem? hget, rfl⟩⟩ }
      carries := { h.carries with } }
  · cases hstep

theorem Inv.nearAsks (h : Inv rt net got k f) {sys : WaitSys} {env : Env}
    (hstep : net.step rt (.nearAsks sys env) = some (net', es)) :
    ∃ k' f', Inv rt net' (got ++ es) k' f' := by
  simp only [Net.step, Option.bind_eq_bind, Option.pure_def] at hstep
  obtain ⟨⟨s, index, m⟩, hrequest, hstep⟩ := Option.bind_eq_some_iff.mp hstep
  obtain ⟨bs, -, hstep⟩ := Option.bind_eq_some_iff.mp hstep
  obtain ⟨toNear, hread, hstep⟩ := Option.bind_eq_some_iff.mp hstep
  obtain ⟨⟨stream, path⟩, -, hstep⟩ := Option.bind_eq_some_iff.mp hstep
  split at hstep
  · rename_i hcond
    obtain ⟨hidle, rfl, hnew⟩ := hcond
    cases hstep
    obtain ⟨hs, c, hget⟩ := request_eq_some h.contexts.near hrequest
    have hk := phaseAt_eq_idle (h.staged.near.symm.trans hidle)
    -- a frame on the link to the near daemon was put there by ipcd
    have hk2 : 2 ≤ k := by
      by_contra hlt
      have hipcd : net.ipcdPhase = .idle := by
        rw [h.staged.ipcd, phaseAt, if_pos (Nat.not_le.mp hlt)]
      exact Link.ne_nil_of_read hread (h.staged.toNear hipcd)
    obtain rfl : k = 2 := by omega
    refine ⟨3, f, ?_⟩
    rw [List.append_nil]
    exact {
      h with
      staged := {
        h.staged with
        le := by decide
        near := rfl
        toNear := fun hipcd => nomatch h.staged.ipcd.symm.trans hipcd
        toFar := nofun }
      contexts := {
        h.contexts with
        near := (hs.opened _).tidy
        calling := fun _ => ⟨s, c, rfl, hs, hnew, hget⟩
        nearJoined := nofun }
      carries := { h.carries with }
      early := fun _ => h.early (hidle ▸ nofun) }
  · cases hstep

theorem Inv.farAccepts (h : Inv rt net got k f) {sys : WaitSys} {env : Env}
    (ho : net.Orderly rt (.farAccepts sys env))
    (hstep : net.step rt (.farAccepts sys env) = some (net', es)) :
    ∃ k' f', Inv rt net' (got ++ es) k' f' := by
  simp only [Net.step, Option.bind_eq_bind, Option.pure_def] at hstep
  split at hstep
  · rename_i event s io hwait
    obtain ⟨path, hpath, hstep⟩ := Option.bind_eq_some_iff.mp hstep
    obtain ⟨toFar, hread, hstep⟩ := Option.bind_eq_some_iff.mp hstep
    split at hstep
    · rename_i hcond
      obtain ⟨hidle, hexternal, haccept, hremote, hconnect, hservice, hne, -⟩ := hcond
      cases hstep
      -- the far daemon read a frame, so the near one has asked, and it did not answer before
      have hk : k = 3 := by
        have hlt := phaseAt_eq_idle (h.staged.far.symm.trans hidle)
        by_contra hne
        have hnear : net.nearPhase = .idle := by
          rw [h.staged.near, phaseAt, if_pos (by omega)]
        exact Link.ne_nil_of_read hread (h.staged.toFar hnear)
      subst hk
      obtain rfl := h.flight_eq hidle
      obtain ⟨⟨n, hwrite, hn⟩, hunused, hunused'⟩ := ho
      obtain ⟨⟨revents, rfl⟩, -, -⟩ := waitEvent_handed hwait (.inr hexternal)
      obtain ⟨s', hexternal, htidy, hjoined, hwaiting⟩ :=
        tcpdExternal_ok (waitEvent_tidy h.contexts.far hwait) haccept hremote
          (bytes?_eq_some hpath) (Link.bytes_ne_nil_of_read hread) hconnect hservice hne hwrite hn
          ⟨hunused.unlinked, hunused.nothing⟩ ⟨hunused'.unlinked, hunused'.nothing⟩
      rw [hexternal]
      refine ⟨4, ⟨[], [], [], [], []⟩, ?_⟩
      rw [List.append_nil]
      exact {
        h with
        staged := {
          h.staged with
          le := by decide
          far := rfl
          toFar := fun hnear => nomatch h.staged.near.symm.trans hnear }
        contexts := { h.contexts with far := htidy, farJoined := fun _ => hjoined }
        carries := {
          h.carries with
          fromFar := by
            have hempty : net.fromFar = [] := h.carries.fromFar
            simp [hempty, writesOn]
          farQueue := by simp [hwaiting] }
        unsent := nofun }
    · cases hstep
  · cases hstep

/-- The oldest of the frames on a stream. -/
theorem Inv.nearTurn (h : Inv rt net got k f) {sys : WaitSys} (ho : net.Orderly rt (.nearTurn sys))
    (hstep : net.step rt (.nearTurn sys) = some (net', es)) :
    ∃ k' f', Inv rt net' (got ++ es) k' f' := by
  simp only [Net.step] at hstep
  split at hstep
  · cases hstep
  · rename_i hdone
    obtain ⟨⟨s, fromFar, fromNear⟩, hturn, heq⟩ := Option.map_eq_some_iff.mp hstep
    cases heq
    obtain ⟨hclean, hkeeps⟩ := ho hdone
    have hk := (phaseAt_eq_done (h.staged.near.symm.trans hdone)).2
    have hfromFar : net.fromFar = f.fromFar.map frame := by
      rw [h.carries.fromFar, if_neg (by omega), List.nil_append]
    have hqueue : f.nearQueue = (net.near.waiting rt.origin).map Message.payload := by
      rw [h.carries.nearQueue, if_neg (by omega)]
    obtain ⟨htidy, hjoined, moved, ps, rfl, rfl, hmoved⟩ := relayTurn_orderly h.contexts.near
      (h.contexts.nearJoined hdone) hclean hkeeps hturn hfromFar
    refine ⟨k, { f with
      fromNear := f.fromNear ++ moved
      nearQueue := (s.waiting rt.origin).map Message.payload
      fromFar := ps }, ?_⟩
    rw [List.append_nil]
    exact {
      h with
      staged := { h.staged with }
      contexts := {
        h.contexts with
        near := htidy
        calling := fun hwaiting => nomatch hdone.symm.trans hwaiting
        nearJoined := fun _ => hjoined }
      carries := {
        h.carries with
        fromNear := by simp [h.carries.fromNear]
        nearQueue := by rw [if_neg (by omega)]
        fromFar := by rw [if_neg (by omega), List.nil_append] }
      early := fun hne => absurd hdone hne
      all := by
        rw [← h.all, Flight.payloads, Flight.payloads, List.append_assoc f.fromNear f.nearQueue, hqueue,
          ← hmoved]
        simp only [List.append_assoc] }
  · rename_i hwaiting hdone
    obtain ⟨s, hturn, heq⟩ := Option.map_eq_some_iff.mp hstep
    cases heq
    have hk : k < 5 := by
      by_contra hle
      apply hdone
      rw [h.staged.near, phaseAt, if_neg (by omega), if_neg hle]
    refine ⟨k, f, ?_⟩
    rw [List.append_nil]
    exact {
      h with
      staged := { h.staged with }
      contexts := {
        h.contexts with
        near := turn_tidy h.contexts.near hturn
        calling := fun hw => absurd hw hwaiting
        nearJoined := fun hd => absurd hd hdone }
      carries := {
        h.carries with
        nearQueue := by rw [h.carries.nearQueue, if_pos hk, if_pos hk] } }

theorem Inv.farTurn (h : Inv rt net got k f) {sys : WaitSys} (ho : net.Orderly rt (.farTurn sys))
    (hstep : net.step rt (.farTurn sys) = some (net', es)) :
    ∃ k' f', Inv rt net' (got ++ es) k' f' := by
  simp only [Net.step] at hstep
  split at hstep
  · rename_i hdone
    obtain ⟨⟨s, fromService, fromFar⟩, hturn, heq⟩ := Option.map_eq_some_iff.mp hstep
    cases heq
    obtain ⟨hclean, hkeeps⟩ := ho hdone
    have hk := (phaseAt_eq_done (h.staged.far.symm.trans hdone)).2
    have hqueue : f.farQueue = (net.far.waiting rt.remote).map Message.payload := by
      rw [h.carries.farQueue, if_neg (by omega)]
    obtain ⟨htidy, hjoined, moved, ps, rfl, rfl, hmoved⟩ := relayTurn_orderly h.contexts.far
      (h.contexts.farJoined hdone) hclean hkeeps hturn h.carries.fromService
    refine ⟨k, { f with
      fromFar := f.fromFar ++ moved
      farQueue := (s.waiting rt.remote).map Message.payload
      fromService := ps }, ?_⟩
    rw [List.append_nil]
    exact {
      h with
      staged := { h.staged with }
      contexts := {
        h.contexts with
        far := htidy
        farJoined := fun _ => hjoined }
      carries := {
        h.carries with
        fromFar := by simp [h.carries.fromFar]
        farQueue := by rw [if_neg (by omega)]
        fromService := rfl }
      all := by
        rw [← h.all, Flight.payloads, Flight.payloads, List.append_assoc _ f.farQueue, hqueue, ← hmoved]
        simp only [List.append_assoc] }
  · rename_i hdone
    obtain ⟨s, hturn, heq⟩ := Option.map_eq_some_iff.mp hstep
    cases heq
    have hk : k < 4 := by
      by_contra hle
      apply hdone
      rw [h.staged.far, phaseAt, if_neg hle, if_neg hle]
    refine ⟨k, f, ?_⟩
    rw [List.append_nil]
    exact {
      h with
      staged := { h.staged with }
      contexts := {
        h.contexts with
        far := turn_tidy h.contexts.far hturn
        farJoined := fun hd => absurd hd hdone }
      carries := {
        h.carries with
        farQueue := by rw [h.carries.farQueue, if_pos hk, if_pos hk] } }

theorem Inv.serviceSends (h : Inv rt net got k f) {p : List Byte}
    (ho : net.Orderly rt (.serviceSends p))
    (hstep : net.step rt (.serviceSends p) = some (net', es)) :
    ∃ k' f', Inv rt net' (got ++ es) k' f' := by
  simp only [Net.step] at hstep
  split at hstep
  · rename_i hdone
    cases hstep
    refine ⟨k, { f with fromService := f.fromService ++ [p] }, ?_⟩
    rw [List.append_nil]
    exact {
      h with
      staged := { h.staged with }
      contexts := { h.contexts with }
      carries := { h.carries with fromService := by simp [h.carries.fromService] }
      unsent := fun hidle => nomatch hdone.symm.trans hidle
      fits := by
        intro q hq
        rw [List.mem_append, List.mem_singleton] at hq
        rcases hq with hq | rfl
        · exact h.fits q hq
        · exact ho
      all := by
        rw [← h.all, Flight.payloads, Flight.payloads]
        simp }
  · cases hstep

theorem Inv.nearHears (h : Inv rt net got k f) {env : Env} (ho : net.Orderly rt (.nearHears env))
    (hstep : net.step rt (.nearHears env) = some (net', es)) :
    ∃ k' f', Inv rt net' (got ++ es) k' f' := by
  simp only [Net.step, Option.bind_eq_bind, Option.pure_def] at hstep
  obtain ⟨bs, hbs, hstep⟩ := Option.bind_eq_some_iff.mp hstep
  obtain ⟨fromFar, hread, hstep⟩ := Option.bind_eq_some_iff.mp hstep
  split at hstep
  · rename_i hcond
    cases hstep
    obtain ⟨hkeeps, ⟨n, hwrite, hn⟩, horigin, hstream⟩ := ho
    have hsource := (hkeeps bs (bytes?_eq_some hbs)).read_eq hread
    obtain ⟨hk3, hk5⟩ := phaseAt_eq_waiting (h.staged.near.symm.trans hcond.1)
    -- Before the remote daemon has accepted there is nothing to read.
    have hk4 : k ≠ 3 := by
      rintro rfl
      have hfar : net.farPhase = .idle := h.staged.far
      obtain rfl := h.flight_eq hfar
      exact Link.ne_nil_of_read hread h.carries.fromFar
    obtain rfl : k = 4 := by omega
    have hok : okText :: f.fromFar.map frame = bs :: fromFar := h.carries.fromFar.symm.trans hsource
    obtain ⟨rfl, rfl⟩ := List.cons.inj hok
    obtain ⟨s', hfinish, htidy, hjoined, hwaiting⟩ :=
      tcpdFinish_ok (h.contexts.calling hcond.1) hwrite hn horigin hstream
    have hearly : f.fromNear = [] := h.early (by rw [hcond.1]; decide)
    have hqueue : f.nearQueue = [] := h.carries.nearQueue
    rw [hfinish]
    refine ⟨5, f, ?_⟩
    rw [List.append_nil]
    exact {
      h with
      staged := {
        h.staged with
        le := by decide
        near := rfl
        toFar := nofun }
      contexts := {
        h.contexts with
        near := htidy
        calling := nofun
        nearJoined := fun _ => hjoined }
      carries := {
        h.carries with
        fromNear := by
          have hempty : net.fromNear = f.fromNear.map frame := h.carries.fromNear
          simp [hempty, hearly, writesOn]
        nearQueue := by simp [hwaiting, hqueue]
        fromFar := rfl }
      early := fun _ => hearly }
  · cases hstep

theorem Inv.ipcdHears (h : Inv rt net got k f) {env : Env} (ho : net.Orderly rt (.ipcdHears env))
    (hstep : net.step rt (.ipcdHears env) = some (net', es)) :
    ∃ k' f', Inv rt net' (got ++ es) k' f' := by
  simp only [Net.step, Option.bind_eq_bind, Option.pure_def] at hstep
  obtain ⟨bs, hbs, hstep⟩ := Option.bind_eq_some_iff.mp hstep
  obtain ⟨fromNear, hread, hstep⟩ := Option.bind_eq_some_iff.mp hstep
  split at hstep
  · rename_i hcond
    cases hstep
    obtain ⟨hkeeps, hsend⟩ := ho
    have hanswer := bytes?_eq_some hbs
    have hsource := (hkeeps bs hanswer).read_eq hread
    obtain ⟨hk2, hk6⟩ := phaseAt_eq_waiting (h.staged.ipcd.symm.trans hcond.1)
    -- Before the local `tcpd` has heard its "ok" there is nothing to read.
    have hk5 : 5 ≤ k := by
      by_contra hlt
      have hnear : net.nearPhase ≠ .done := by
        intro hdone
        exact hlt (phaseAt_eq_done (h.staged.near.symm.trans hdone)).2
      have hempty := h.carries.fromNear
      rw [if_neg (by omega), h.early hnear] at hempty
      exact Link.ne_nil_of_read hread hempty
    obtain rfl : k = 5 := by omega
    have hok : frame okText :: f.fromNear.map frame = bs :: fromNear :=
      h.carries.fromNear.symm.trans hsource
    obtain ⟨rfl, rfl⟩ := List.cons.inj hok
    obtain ⟨s', io, hfinish, htidy, hwrites⟩ :=
      ipcdFinish_ok (h.contexts.asking hcond.1) hanswer hsend
    rw [hfinish]
    refine ⟨6, f, ?_⟩
    rw [List.append_nil]
    exact {
      h with
      staged := {
        h.staged with
        le := by decide
        ipcd := by simp [hwrites, phaseAt]
        toNear := by simp [hwrites] }
      contexts := {
        h.contexts with
        ipcd := htidy
        asking := by simp [hwrites] }
      carries := {
        h.carries with
        fromIpcd := by
          have hempty : net.fromIpcd = [] := h.carries.fromIpcd
          simp [hempty, hwrites]
        fromNear := rfl } }
  · cases hstep

theorem Inv.clientHears (h : Inv rt net got k f) {bs : List Byte}
    (ho : net.Orderly rt (.clientHears bs))
    (hstep : net.step rt (.clientHears bs) = some (net', es)) :
    ∃ k' f', Inv rt net' (got ++ es) k' f' := by
  simp only [Net.step, Option.bind_eq_bind, Option.pure_def] at hstep
  obtain ⟨fromIpcd, hread, hstep⟩ := Option.bind_eq_some_iff.mp hstep
  split at hstep
  · rename_i hwaiting
    cases hstep
    have hsource := Link.Keeps.read_eq ho hread
    have hk7 := (phaseAt_eq_waiting (h.staged.client.symm.trans hwaiting)).2
    have hfrom := h.carries.fromIpcd
    have hk : k = 6 := by
      by_contra hne
      rw [if_neg hne] at hfrom
      exact Link.ne_nil_of_read hread hfrom
    subst hk
    have hok : [okText] = bs :: fromIpcd := hfrom.symm.trans hsource
    obtain ⟨rfl, rfl⟩ := List.cons.inj hok
    refine ⟨7, f, ?_⟩
    rw [List.append_nil]
    exact {
      h with
      staged := { h.staged with le := by decide, client := rfl, toIpcd := nofun }
      contexts := { h.contexts with }
      carries := { h.carries with fromIpcd := rfl } }
  · cases hstep

theorem Inv.clientReads (h : Inv rt net got k f) {bs : List Byte}
    (ho : net.Orderly rt (.clientReads bs))
    (hstep : net.step rt (.clientReads bs) = some (net', es)) :
    ∃ k' f', Inv rt net' (got ++ es) k' f' := by
  simp only [Net.step, Option.bind_eq_bind, Option.pure_def] at hstep
  obtain ⟨fromNear, hread, hstep⟩ := Option.bind_eq_some_iff.mp hstep
  split at hstep
  · rename_i hdone
    have hsource := Link.Keeps.read_eq ho hread
    have hk := (phaseAt_eq_done (h.staged.client.symm.trans hdone)).2
    rw [h.carries.fromNear, if_neg (by omega), List.nil_append] at hsource
    obtain ⟨p, ps, hps, rfl, rfl⟩ := map_frame_eq_cons hsource
    have hmem : p ∈ net.sent := by
      rw [← h.all, Flight.payloads, hps]
      simp
    obtain ⟨hne, hfits⟩ := h.fits p hmem
    rw [readAnswer_frame rt.newfd hne hfits] at hstep
    cases hstep
    refine ⟨k, { f with fromNear := ps }, ?_⟩
    exact {
      h with
      staged := { h.staged with }
      contexts := { h.contexts with }
      carries := {
        h.carries with
        fromNear := by rw [if_neg (by omega), List.nil_append] }
      early := by
        intro hnear
        have hnone := h.early hnear
        rw [hps] at hnone
        cases hnone
      all := by
        rw [← h.all, Flight.payloads, Flight.payloads, hps]
        simp }
  · cases hstep

/-- Every orderly move keeps the invariant. -/
theorem Inv.step (h : Inv rt net got k f) {m : Move} (ho : net.Orderly rt m)
    (hstep : net.step rt m = some (net', es)) : ∃ k' f', Inv rt net' (got ++ es) k' f' := by
  cases m with
  | clientAsks w => exact h.clientAsks hstep
  | ipcdTurn sys => exact h.ipcdTurn hstep
  | ipcdAsks sys env => exact h.ipcdAsks hstep
  | nearTurn sys => exact h.nearTurn ho hstep
  | nearAsks sys env => exact h.nearAsks hstep
  | farTurn sys => exact h.farTurn ho hstep
  | farAccepts sys env => exact h.farAccepts ho hstep
  | serviceSends p => exact h.serviceSends ho hstep
  | nearHears env => exact h.nearHears ho hstep
  | ipcdHears env => exact h.ipcdHears ho hstep
  | clientHears bs => exact h.clientHears ho hstep
  | clientReads bs => exact h.clientReads ho hstep

end Step

/-! ## Progress -/

section Progress
variable {s : State} {a b : Fd}

/-- What `poll(2)` stores when the entry at `i` alone is ready. -/
def alone (i : Nat) (ev : PollEvents) : List PollEvents := List.replicate i ({} : PollEvents) ++ [ev]

theorem alone_getD (i : Nat) (ev : PollEvents) {j : Nat} (hj : j ≤ i) :
    (alone i ev).getD j {} = if j = i then ev else {} := by
  rw [alone, List.getD_eq_getElem?_getD]
  by_cases hji : j = i
  · rw [if_pos hji, hji, List.getElem?_append_right (by simp), List.length_replicate, Nat.sub_self]
    rfl
  · have hlt : j < i := by omega
    rw [if_neg hji, List.getElem?_append_left (by simpa using hlt)]
    simp [hlt]

theorem revents_polled (s : State) (revents : List PollEvents) {j : Nat} {p : PollFd}
    (h : (s.polled revents).ctx.pollfd[j]? = some p) : p.revents = revents.getD j {} := by
  simp only [State.polled, State.withPollfd, storeRevents, List.getElem?_mapIdx] at h
  obtain ⟨p', -, rfl⟩ := Option.map_eq_some_iff.mp h
  rfl

/-- `poll(2)` can report one descriptor alone. -/
theorem exists_stop {fd : Fd} (hfd : fd ∈ s.ctx.fds) {ev : PollEvents}
    (hev : ev.pollin ∨ ev.pollout) :
    ∃ i p, ∀ sys : WaitSys, sys.poll = some (alone i ev) →
      s.stop sys = some (i, p) ∧ p.fd = fd ∧ p.revents = ev := by
  obtain ⟨i, hi⟩ := exists_fdToIndex hfd
  obtain ⟨hlt, hfdi, -⟩ := List.findIdx?_eq_some_iff_getElem.mp hi
  have hfds := map_fd_polled s (alone i ev)
  have hlen : (s.polled (alone i ev)).ctx.pollfd.length = s.ctx.pollfd.length := by
    simpa using congrArg List.length hfds
  have hlt' : i < (s.polled (alone i ev)).ctx.pollfd.length := by omega
  have hp := List.getElem?_eq_getElem hlt'
  have hrevents := revents_polled s (alone i ev) hp
  rw [alone_getD i ev (Nat.le_refl i), if_pos rfl] at hrevents
  -- no entry before `i` has an event, so the loop stops at `i`
  have hindex : (s.polled (alone i ev)).ctx.pollfd.findIdx? handled = some i := by
    rw [List.findIdx?_eq_some_iff_getElem]
    refine ⟨hlt', ?_, ?_⟩
    · rcases hev with hin | hout
      · simp [handled, hrevents, hin]
      · simp [handled, hrevents, hout]
    · intro j hj
      have hnone := revents_polled s (alone i ev) (List.getElem?_eq_getElem (Nat.lt_trans hj hlt'))
      rw [alone_getD i ev (Nat.le_of_lt hj), if_neg (Nat.ne_of_lt hj)] at hnone
      simp [handled, hnone]
  refine ⟨i, _, fun sys hpoll => ⟨?_, ?_, hrevents⟩⟩
  · simp only [State.stop, hpoll, hindex, hp, Option.bind_eq_bind, Option.bind_some, Option.pure_def]
  · have hat := congrArg (·[i]?) hfds
    simp only [List.getElem?_map, hp, List.getElem?_eq_getElem hlt, Option.map_some,
      Option.some.injEq] at hat
    exact hat.trans (of_decide_eq_true hfdi)

theorem SwitchEnd.mem_fds {fd dest : Fd} (h : SwitchEnd s fd dest) (hpar : s.ctx.Parallel) :
    fd ∈ s.ctx.fds := by
  obtain ⟨c, -, hon⟩ := h.conn
  have hmem : (c, fd) ∈ s.ctx.on fd := by
    rw [hon]
    exact List.mem_singleton_self _
  exact (mem_fds_iff hpar).mpr ⟨_, List.mem_of_mem_filter hmem, rfl⟩

/-- A turn that ends in an event of the switch. -/
theorem relayTurn_eq {sys : WaitSys} {event : Event} {s' : State} {io : List Io}
    {source source' sink : Link Byte} (hwait : s.waitEvent sys = some (.ok event, s', io))
    (ht : event.t = .switchRx ∨ event.t = .switchTx)
    (hread : source.readMaybe (arrival a s (.waitEvent sys)) = some source') :
    s.relayTurn a b sys source sink =
      some (s', source', sink ++ writes (departures b (.waitEvent sys) io)) := by
  have hturn : s.turn .tcpd sys = some s' := by
    rcases ht with ht | ht
    · simp [State.turn, hwait, ht, Daemon.handle]
    · simp [State.turn, hwait, ht, Daemon.handle]
  have hstep : relayStep a b s (.waitEvent sys) =
      some (s', .arrived (arrival a s (.waitEvent sys)) :: departures b (.waitEvent sys) io) := by
    simp only [relayStep, step, State.after, hwait, Option.map_some]
  simp only [State.relayTurn, hturn, hstep, Option.bind_eq_bind, Option.bind_some,
    arrivedBytes_arrived, hread, Option.pure_def]
  rfl

/-- A frame on the stream can be read. -/
theorem exists_relayRead (h : Joined s a b) {q : List Byte} (hq : q.length ≤ ipcMaxMessageSize)
    (source sink : Link Byte) :
    ∃ sys s', s.relayTurn a b sys (frame q :: source) sink = some (s', source, sink) ∧
      (s'.waiting b).length = (s.waiting b).length + 1 ∧ LeavesEnds a b s (.waitEvent sys) ∧
      Link.Keeps (frame q :: source) (arrival a s (.waitEvent sys)) := by
  obtain ⟨i, p, hstops⟩ := exists_stop (h.left.mem_fds h.parallel)
    (show ({ pollin := true } : PollEvents).pollin ∨ _ from .inl rfl)
  obtain ⟨hstop, hfd, hrevents⟩ := hstops
    { poll := some (alone i { pollin := true }), cbIn := .default (.ok (frame q)) } rfl
  have hin : p.revents.pollin := by rw [hrevents]
  obtain ⟨event, s', hwait, ht, hwaiting⟩ := h.waitEvent_read hstop hfd hin hq rfl
  have harrival : arrival a s (.waitEvent
      { poll := some (alone i { pollin := true }), cbIn := .default (.ok (frame q)) }) =
        frame q := by
    simp only [arrival, hstop]
    rw [if_pos ⟨hfd, hin⟩]
    rfl
  have hread : Link.readMaybe (frame q :: source) (arrival a s (.waitEvent
      { poll := some (alone i { pollin := true }), cbIn := .default (.ok (frame q)) })) =
        some source := by
    rw [harrival]
    exact Link.readMaybe_cons (frame_ne_nil q) source
  refine ⟨_, s', (relayTurn_eq hwait (.inl ht) hread).trans ?_, ?_, ?_, ?_⟩
  · simp [departures, writes]
  · rw [hwaiting, List.length_append, List.length_singleton]
  · intro ip hip _
    obtain rfl := Option.mem_unique hip hstop
    rw [EndClean, if_pos hin]
    exact ⟨q, hq, rfl⟩
  · rw [harrival]
    exact .inr rfl

/-- A message in the queue can be written. -/
theorem exists_relayWrite (h : Joined s a b) (hne : s.waiting b ≠ []) (source sink : Link Byte) :
    ∃ sys s' bs, s.relayTurn a b sys source sink = some (s', source, sink ++ [bs]) ∧
      (s'.waiting b).length + 1 = (s.waiting b).length ∧ LeavesEnds a b s (.waitEvent sys) ∧
      source.Keeps (arrival a s (.waitEvent sys)) := by
  obtain ⟨m, rest, hhead⟩ := List.exists_cons_of_ne_nil hne
  obtain ⟨n, hn⟩ : ∃ n, n = (frame m.payload).length := ⟨_, rfl⟩
  obtain ⟨i, p, hstops⟩ := exists_stop (h.right.mem_fds h.parallel)
    (show _ ∨ ({ pollout := true } : PollEvents).pollout from .inr rfl)
  obtain ⟨hstop, hfd, hrevents⟩ := hstops
    { poll := some (alone i { pollout := true }), cbOut := .default (.wrote n) } rfl
  have hin : ¬ p.revents.pollin := by
    rw [hrevents]
    decide
  have hout : p.revents.pollout := by rw [hrevents]
  obtain ⟨j, event, s', bs, hwait, ht, hlength⟩ := h.waitEvent_write hstop hfd hin hout rfl hne
  have harrival : arrival a s (.waitEvent
      { poll := some (alone i { pollout := true }), cbOut := .default (.wrote n) }) = [] := by
    simp only [arrival, hstop]
    rw [if_neg fun hand => hin hand.2]
  have hread : source.readMaybe (arrival a s (.waitEvent
      { poll := some (alone i { pollout := true }), cbOut := .default (.wrote n) })) =
        some source := by
    rw [harrival]
    exact Link.readMaybe_nil source
  refine ⟨_, s', bs.take n, (relayTurn_eq hwait (.inr ht) hread).trans ?_, hlength, ?_, ?_⟩
  · simp [departures, writes, accepted, Out.accepted]
  · intro ip hip _
    obtain rfl := Option.mem_unique hip hstop
    rw [EndClean, if_neg hin, if_pos hout]
    refine ⟨n, rfl, ?_⟩
    intro _ m' hm'
    rw [hhead] at hm'
    obtain rfl := Option.some.inj hm'
    exact Nat.le_of_eq hn.symm
  · rw [harrival]
    exact .inl rfl

end Progress

/-- The hops that what is on its way has left, the "ok" included. -/
def Net.distance (rt : Route) (net : Net) : Nat :=
  6 * net.fromService.length + 5 * (net.far.waiting rt.remote).length + 4 * net.fromFar.length +
    3 * (net.near.waiting rt.origin).length + 2 * net.fromNear.length + net.fromIpcd.length

/-- What a hand-over promises. No hop gets anything but "ok"; the client has received, in order, the
first of the payloads that the service has sent. Once the remote `tcpd` has accepted, as long as an
"ok" or a frame is on its way some process can bring it nearer to the client, whole; when nothing is,
every hop has its "ok" and the client has received everything. -/
structure HandsOver (rt : Route) (net : Net) (received : List (List Byte)) : Prop where
  ok : net.nearPhase ≠ .failed ∧ net.ipcdPhase ≠ .failed ∧ net.client ≠ .failed
  inOrder : received <+: net.sent
  advances : net.farPhase = .done → net.distance rt ≠ 0 →
    ∃ m net' es, net.Whole rt m ∧ net.step rt m = some (net', es) ∧
      net'.distance rt < net.distance rt
  complete : net.farPhase = .done → net.distance rt = 0 →
    net.nearPhase = .done ∧ net.ipcdPhase = .done ∧ net.client = .done ∧ received = net.sent

section Run
variable {rt : Route} {net : Net} {got : List (List Byte)} {k : Nat} {f : Flight}

theorem Inv.ok (h : Inv rt net got k f) :
    net.nearPhase ≠ .failed ∧ net.ipcdPhase ≠ .failed ∧ net.client ≠ .failed := by
  rw [h.staged.near, h.staged.ipcd, h.staged.client]
  exact ⟨phaseAt_ne_failed _ _ _, phaseAt_ne_failed _ _ _, phaseAt_ne_failed _ _ _⟩

theorem Inv.complete (h : Inv rt net got k f) (hfar : net.farPhase = .done)
    (hdistance : net.distance rt = 0) :
    net.nearPhase = .done ∧ net.ipcdPhase = .done ∧ net.client = .done ∧ got = net.sent := by
  have hk4 := (phaseAt_eq_done (h.staged.far.symm.trans hfar)).2
  have hle := h.staged.le
  obtain ⟨hS, hfq, hF, hnq, hN, hI⟩ : net.fromService = [] ∧ net.far.waiting rt.remote = [] ∧
      net.fromFar = [] ∧ net.near.waiting rt.origin = [] ∧ net.fromNear = [] ∧
      net.fromIpcd = [] := by
    simp only [← List.length_eq_zero_iff]
    unfold Net.distance at hdistance
    omega
  have hcarries := h.carries
  -- An "ok" on its way would be in one of the streams.
  have hk : k = 7 := by
    have h6 : k ≠ 6 := by
      rintro rfl
      have := hcarries.fromIpcd
      simp [hI] at this
    have h5 : k ≠ 5 := by
      rintro rfl
      have := hcarries.fromNear
      simp [hN] at this
    have h4 : k ≠ 4 := by
      rintro rfl
      have := hcarries.fromFar
      simp [hF] at this
    omega
  subst hk
  have hflight : f.payloads = [] := by
    have h1 : f.fromNear = [] := by simpa [hN] using hcarries.fromNear
    have h2 : f.nearQueue = [] := by simpa [hnq] using hcarries.nearQueue
    have h3 : f.fromFar = [] := by simpa [hF] using hcarries.fromFar
    have h4 : f.farQueue = [] := by simpa [hfq] using hcarries.farQueue
    have h5 : f.fromService = [] := by simpa [hS] using hcarries.fromService
    simp [Flight.payloads, h1, h2, h3, h4, h5]
  refine ⟨h.staged.near, h.staged.ipcd, h.staged.client, ?_⟩
  rw [← h.all, hflight, List.append_nil]

/-- Some process can bring what is on its way nearer to the client, whole. -/
def Net.Advances (rt : Route) (net : Net) : Prop :=
  ∃ m net' es, net.Whole rt m ∧ net.step rt m = some (net', es) ∧
    net'.distance rt < net.distance rt

/-- The local `tcpd` hears its "ok". -/
theorem Inv.near_hears (h : Inv rt net got 4 f) : net.Advances rt := by
  have hfrom : net.fromFar = okText :: f.fromFar.map frame := h.carries.fromFar
  have hphase : net.nearPhase = .waiting := h.staged.near
  have hfinish : tcpdFinish { streamRead := .ok okText, write := .wrote 6 } net.near net.index
      rt.origin rt.stream okText = _ := tcpdFinish_eq (h.contexts.calling hphase) rfl
  have hread : net.fromFar.read okText = some (f.fromFar.map frame) := by
    rw [hfrom, Link.read_cons (by decide)]
  have hstep : net.step rt (.nearHears { streamRead := .ok okText, write := .wrote 6 }) =
      some ({ net with
        near := (switchStream net.near rt.stream rt.origin rt.stream).state
        nearPhase := .done
        fromFar := f.fromFar.map frame
        fromNear := net.fromNear ++ [(frame okText).take 6] }, []) := by
    simp [Net.step, ReadResult.bytes?, hread, hfinish, hphase, writesOn]
  have hwhole : net.Whole rt (.nearHears { streamRead := .ok okText, write := .wrote 6 }) := by
    refine ⟨?_, 6, rfl, Nat.le_refl 6⟩
    intro bs hbs
    cases hbs
    rw [hfrom]
    exact .inr rfl
  refine ⟨_, _, _, hwhole, hstep, ?_⟩
  simp only [Net.distance, waiting_switchStream, hfrom, List.length_append, List.length_cons,
    List.length_nil]
  omega

/-- `ipcd` hears its "ok". -/
theorem Inv.ipcd_hears (h : Inv rt net got 5 f) : net.Advances rt := by
  have hfrom : net.fromNear = frame okText :: f.fromNear.map frame := h.carries.fromNear
  have hphase : net.ipcdPhase = .waiting := h.staged.ipcd
  obtain ⟨s', io, hfinish, -, hwrites⟩ :=
    @ipcdFinish_ok { read := .ok (frame okText), sendmsg := .wrote okText.length } _ _ _
      (h.contexts.asking hphase) rfl rfl
  have hread : net.fromNear.read (frame okText) = some (f.fromNear.map frame) := by
    rw [hfrom, Link.read_cons (frame_ne_nil okText)]
  have hstep : net.step rt (.ipcdHears
      { read := .ok (frame okText), sendmsg := .wrote okText.length }) =
      some ({ net with
        ipcd := s'
        ipcdPhase := .done
        fromNear := f.fromNear.map frame
        fromIpcd := net.fromIpcd ++ [okText] }, []) := by
    simp [Net.step, ReadResult.bytes?, hread, hfinish, hphase, hwrites]
  have hwhole : net.Whole rt (.ipcdHears
      { read := .ok (frame okText), sendmsg := .wrote okText.length }) := by
    refine ⟨?_, rfl⟩
    intro bs hbs
    cases hbs
    rw [hfrom]
    exact .inr rfl
  refine ⟨_, _, _, hwhole, hstep, ?_⟩
  simp only [Net.distance, hfrom, List.length_append, List.length_cons, List.length_nil]
  omega

/-- The client hears its "ok". -/
theorem Inv.client_hears (h : Inv rt net got 6 f) : net.Advances rt := by
  have hfrom : net.fromIpcd = [okText] := h.carries.fromIpcd
  have hphase : net.client = .waiting := h.staged.client
  have hread : net.fromIpcd.read okText = some [] := by
    rw [hfrom, Link.read_cons (by decide)]
  have hstep : net.step rt (.clientHears okText) =
      some ({ net with client := .done, fromIpcd := [] }, []) := by
    simp [Net.step, hread, hphase]
  have hwhole : net.Whole rt (.clientHears okText) := by
    show net.fromIpcd.Keeps okText
    rw [hfrom]
    exact .inr rfl
  refine ⟨_, _, _, hwhole, hstep, ?_⟩
  simp [Net.distance, hfrom]

/-- The payloads on their way are those of the service. -/
theorem Inv.fits_payloads (h : Inv rt net got k f) {p : List Byte} (hp : p ∈ f.payloads) :
    p ≠ [] ∧ Fits p := by
  apply h.fits
  rw [← h.all]
  exact List.mem_append_right _ hp

theorem Inv.length_payloads (h : Inv rt net got k f) {p : List Byte} (hp : p ∈ f.payloads) :
    p.length ≤ ipcMaxMessageSize := by
  have hfits := (h.fits_payloads hp).2
  unfold Fits at hfits
  omega

/-- The client reads a frame. -/
theorem Inv.client_reads (h : Inv rt net got 7 f) (hne : f.fromNear ≠ []) : net.Advances rt := by
  obtain ⟨p, ps, hps⟩ := List.exists_cons_of_ne_nil hne
  have hclient : net.client = .done := h.staged.client
  have hfrom : net.fromNear = f.fromNear.map frame := h.carries.fromNear
  rw [hps, List.map_cons] at hfrom
  obtain ⟨hp, hfits⟩ := h.fits_payloads (show p ∈ f.payloads by simp [Flight.payloads, hps])
  have hread : net.fromNear.read (frame p) = some (ps.map frame) := by
    rw [hfrom, Link.read_cons (frame_ne_nil p)]
  have hstep : net.step rt (.clientReads (frame p)) =
      some ({ net with fromNear := ps.map frame }, [p]) := by
    simp [Net.step, hread, hclient, readAnswer_frame rt.newfd hp hfits]
  have hwhole : net.Whole rt (.clientReads (frame p)) := by
    show net.fromNear.Keeps (frame p)
    rw [hfrom]
    exact .inr rfl
  refine ⟨_, _, _, hwhole, hstep, ?_⟩
  simp only [Net.distance, hfrom, List.length_cons]
  omega

/-- The local `tcpd` reads or writes a frame. -/
theorem Inv.near_relays (h : Inv rt net got 7 f)
    (hne : f.fromFar ≠ [] ∨ net.near.waiting rt.origin ≠ []) : net.Advances rt := by
  have hnear : net.nearPhase = .done := h.staged.near
  have hjoined := h.contexts.nearJoined hnear
  by_cases hqueue : net.near.waiting rt.origin = []
  · obtain ⟨p, ps, hps⟩ := List.exists_cons_of_ne_nil (hne.resolve_right (not_not.mpr hqueue))
    have hfrom : net.fromFar = f.fromFar.map frame := h.carries.fromFar
    rw [hps, List.map_cons] at hfrom
    have hp := h.length_payloads (show p ∈ f.payloads by simp [Flight.payloads, hps])
    obtain ⟨sys, s', hturn, hwaiting, hwhole⟩ :=
      exists_relayRead hjoined hp (ps.map frame) net.fromNear
    have hstep : net.step rt (.nearTurn sys) =
        some ({ net with near := s', fromFar := ps.map frame }, []) := by
      simp [Net.step, hnear, hfrom, hturn]
    refine ⟨.nearTurn sys, _, _, ⟨hwhole.1, hfrom ▸ hwhole.2⟩, hstep, ?_⟩
    simp only [Net.distance, hfrom, hwaiting, List.length_cons]
    omega
  · obtain ⟨sys, s', bs, hturn, hwaiting, hwhole⟩ :=
      exists_relayWrite hjoined hqueue net.fromFar net.fromNear
    have hstep : net.step rt (.nearTurn sys) =
        some ({ net with near := s', fromNear := net.fromNear ++ [bs] }, []) := by
      simp [Net.step, hnear, hturn]
    refine ⟨.nearTurn sys, _, _, hwhole, hstep, ?_⟩
    simp only [Net.distance, List.length_append, List.length_cons, List.length_nil]
    omega

/-- The remote `tcpd` reads or writes a frame. -/
theorem Inv.far_relays (h : Inv rt net got 7 f)
    (hne : f.fromService ≠ [] ∨ net.far.waiting rt.remote ≠ []) : net.Advances rt := by
  have hfar : net.farPhase = .done := h.staged.far
  have hjoined := h.contexts.farJoined hfar
  by_cases hqueue : net.far.waiting rt.remote = []
  · obtain ⟨p, ps, hps⟩ := List.exists_cons_of_ne_nil (hne.resolve_right (not_not.mpr hqueue))
    have hfrom := h.carries.fromService
    rw [hps, List.map_cons] at hfrom
    have hp := h.length_payloads (show p ∈ f.payloads by simp [Flight.payloads, hps])
    obtain ⟨sys, s', hturn, hwaiting, hwhole⟩ :=
      exists_relayRead hjoined hp (ps.map frame) net.fromFar
    have hstep : net.step rt (.farTurn sys) =
        some ({ net with far := s', fromService := ps.map frame }, []) := by
      simp [Net.step, hfar, hfrom, hturn]
    refine ⟨.farTurn sys, _, _, ⟨hwhole.1, hfrom ▸ hwhole.2⟩, hstep, ?_⟩
    simp only [Net.distance, hfrom, hwaiting, List.length_cons]
    omega
  · obtain ⟨sys, s', bs, hturn, hwaiting, hwhole⟩ :=
      exists_relayWrite hjoined hqueue net.fromService net.fromFar
    have hstep : net.step rt (.farTurn sys) =
        some ({ net with far := s', fromFar := net.fromFar ++ [bs] }, []) := by
      simp [Net.step, hfar, hturn]
    refine ⟨.farTurn sys, _, _, hwhole, hstep, ?_⟩
    simp only [Net.distance, List.length_append, List.length_cons, List.length_nil]
    omega

/-- Whatever is on its way can be brought one hop nearer. -/
theorem Inv.advances (h : Inv rt net got k f) (hfar : net.farPhase = .done)
    (hdistance : net.distance rt ≠ 0) : net.Advances rt := by
  have hk := (phaseAt_eq_done (h.staged.far.symm.trans hfar)).2
  have hle := h.staged.le
  obtain rfl | rfl | rfl | rfl : k = 4 ∨ k = 5 ∨ k = 6 ∨ k = 7 := by omega
  · exact h.near_hears
  · exact h.ipcd_hears
  · exact h.client_hears
  · -- The frame next to the client goes first.
    by_cases hnear : f.fromNear = []
    · by_cases hqueue : f.fromFar ≠ [] ∨ net.near.waiting rt.origin ≠ []
      · exact h.near_relays hqueue
      · rw [not_or, not_not, not_not] at hqueue
        apply h.far_relays
        by_contra hnot
        rw [not_or, not_not, not_not] at hnot
        apply hdistance
        simp [Net.distance, h.carries.fromService, h.carries.fromFar, h.carries.fromNear,
          h.carries.fromIpcd, hnear, hqueue, hnot]
    · exact h.client_reads hnear

theorem Inv.handsOver (h : Inv rt net got k f) : HandsOver rt net got where
  ok := h.ok
  inOrder := ⟨f.payloads, h.all⟩
  advances := h.advances
  complete := h.complete

end Run

/-- The network before anything is asked. -/
def Net.start (ipcd near far : State) : Net := { ipcd := ipcd, near := near, far := far }

theorem inv_start (rt : Route) {ipcd near far : State} (hipcd : Daemon.Reached .ipcd ipcd)
    (hnear : Daemon.Reached .tcpd near) (hfar : Daemon.Reached .tcpd far) :
    Inv rt (Net.start ipcd near far) [] 0 ⟨[], [], [], [], []⟩ where
  staged := ⟨by decide, rfl, rfl, rfl, rfl, fun _ => rfl, fun _ => rfl, fun _ => rfl⟩
  contexts := ⟨hipcd.tidy, hnear.tidy, hfar.tidy, nofun, nofun, nofun, nofun⟩
  carries := ⟨rfl, rfl, rfl, rfl, rfl, rfl⟩
  unsent := fun _ => rfl
  early := fun _ => rfl
  fits := nofun
  all := rfl

/-- **Hand-over**: from any contexts the daemons can be in, in a run whose moves all keep to the
writes, every hop gets its "ok" and the client receives what the service sends. -/
theorem handsOver_of_orderly {rt : Route} {ipcd near far : State}
    (hipcd : Daemon.Reached .ipcd ipcd) (hnear : Daemon.Reached .tcpd near)
    (hfar : Daemon.Reached .tcpd far) {ms : List Move} {net : Net} {received : List (List Byte)}
    (horderly : RunMeets (Net.step rt) (Net.Orderly rt) (Net.start ipcd near far) ms)
    (hrun : runAll (Net.step rt) (Net.start ipcd near far) ms = some (net, received)) :
    HandsOver rt net received := by
  have hinv := inv_start rt hipcd hnear hfar
  obtain ⟨-, hkept⟩ :=
    runAll_induction (P := fun net => ∃ got k f, Inv rt net got k f)
      (Q := fun net es net' => ∀ got k f, Inv rt net got k f →
        ∃ k' f', Inv rt net' (got ++ es) k' f')
      (fun net _ got k f h => ⟨k, f, by rwa [List.append_nil]⟩)
      (fun net m net₁ es₁ hP ho hstep => by
        constructor
        · obtain ⟨got, k, f, h⟩ := hP
          obtain ⟨k', f', h'⟩ := h.step ho hstep
          exact ⟨_, k', f', h'⟩
        · intro es₂ net₂ h₂ got k f h
          obtain ⟨k', f', h'⟩ := h.step ho hstep
          rw [← List.append_assoc]
          exact h₂ _ _ _ h')
      ⟨_, _, _, hinv⟩ horderly hrun
  obtain ⟨k, f, h⟩ := hkept _ _ _ hinv
  exact h.handsOver

/-- The local `tcpd` with a connection from `ipcd`, on descriptor 5. -/
def oneCaller : State :=
  ((Daemon.start .tcpd [] 3 4).polled [{ pollin := true }]).track { t := .ipc } 5

theorem reached_oneCaller : Daemon.Reached .tcpd oneCaller := by
  have hwait : (Daemon.start .tcpd [] 3 4).waitEvent
      { poll := some [{ pollin := true }], accept := .ok 5 } =
        some (.ok { t := .connection, index := 2, origin := 3 }, oneCaller, []) := rfl
  have hfresh : Env.Fresh {} oneCaller := ⟨nofun, nofun, nofun, nofun⟩
  exact .turn (.start [] (by decide)) hwait hfresh rfl rfl

/-- "t://1.1.1.1:8/s". -/
def remoteService : List Byte := [116, 58, 47, 47, 49, 46, 49, 46, 49, 46, 49, 58, 56, 47, 115]

/-- A lookup of the service "s", which is remote. -/
def remoteRoute : Route where
  lookup := [115, 59, 115, 32] ++ remoteService
  ipcdfd := 3
  newfd := 4
  requester := 5
  servicefd := 6
  origin := 5
  stream := 6
  remote := 5
  service := 6

/-- The daemons with the connections for one lookup. -/
def threeDaemons : Net := .start oneRequester oneCaller (Daemon.start .tcpd [] 3 4)

/-- The lookup goes all the way, the service accepts. -/
def asked : List Move :=
  [.clientAsks (.wrote 1000),
    .ipcdAsks { poll := some (alone 1 { pollin := true }), read := .ok (frame remoteRoute.lookup) }
      { connect := .ok 6, write := .wrote 1000 },
    .nearAsks { poll := some (alone 2 { pollin := true }), read := .ok (frame remoteService) }
      { tcpConnect := .ok 6, streamWrite := .wrote 1000 },
    .farAccepts { poll := some (alone 1 { pollin := true }) }
      { accept := .ok 5, streamRead := .ok [115], connect := .ok 6, streamWrite := .wrote 2 }]

/-- The service sends "a", which the remote `tcpd` relays. -/
def relayed : List Move :=
  [.serviceSends [97],
    .farTurn { poll := some (alone 2 { pollin := true }), cbIn := .default (.ok (frame [97])) },
    .farTurn { poll := some (alone 3 { pollout := true }), cbOut := .default (.wrote 1000) }]

/-- The answers of the three hops. -/
def answered : List Move :=
  [.nearHears { streamRead := .ok okText, write := .wrote 1000 },
    .ipcdHears { read := .ok (frame okText), sendmsg := .wrote 2 },
    .clientHears okText]

/-- The local `tcpd` relays "a". -/
def relayedNear : List Move :=
  [.nearTurn { poll := some (alone 3 { pollin := true }), cbIn := .default (.ok (frame [97])) },
    .nearTurn { poll := some (alone 2 { pollout := true }), cbOut := .default (.wrote 1000) }]

/-- A hand-over after which the client receives "a". -/
theorem handsOver_one_frame :
    ∃ net, runAll (Net.step remoteRoute) threeDaemons
        (asked ++ relayed ++ answered ++ relayedNear ++ [.clientReads (frame [97])]) =
          some (net, [[97]]) ∧ HandsOver remoteRoute net [[97]] := by
  have hrun : ∃ r, runAll (Net.step remoteRoute) threeDaemons
      (asked ++ relayed ++ answered ++ relayedNear ++ [.clientReads (frame [97])]) = some r ∧
        r.2 = [[97]] := by
    simp only [← Option.mem_def]
    decide +kernel
  have horderly : RunMeets (Net.step remoteRoute) (Net.Orderly remoteRoute) threeDaemons
      (asked ++ relayed ++ answered ++ relayedNear ++ [.clientReads (frame [97])]) := by
    decide +kernel
  obtain ⟨⟨net, received⟩, hrun, hreceived⟩ := hrun
  obtain rfl : received = [[97]] := hreceived
  refine ⟨net, hrun, ?_⟩
  exact handsOver_of_orderly reached_oneRequester reached_oneCaller (.start [] (by decide)) horderly
    hrun

/-- Two hops where the "ok" and the first frame come together. The local `tcpd` does not take that
for "ok"; `ipcd` does, and the frame never arrives. -/
theorem not_handsOver_glued :
    Daemon.Reached .ipcd oneRequester ∧ Daemon.Reached .tcpd oneCaller ∧
      Daemon.Reached .tcpd (Daemon.start .tcpd [] 3 4) ∧
      (∃ net received, runAll (Net.step remoteRoute) threeDaemons
          (asked ++ relayed ++
            [.nearHears { streamRead := .ok (okText ++ frame [97]), write := .wrote 1000 }]) =
            some (net, received) ∧
        net.farPhase = .done ∧ net.nearPhase = .failed ∧ ¬ HandsOver remoteRoute net received) ∧
      ∃ net received, runAll (Net.step remoteRoute) threeDaemons
          (asked ++ relayed ++ [.nearHears { streamRead := .ok okText, write := .wrote 1000 }] ++
            relayedNear ++
            [.ipcdHears { read := .ok (frame okText ++ frame [97]), sendmsg := .wrote 2 },
              .clientHears okText]) =
            some (net, received) ∧
        net.farPhase = .done ∧ net.distance remoteRoute = 0 ∧ net.sent = [[97]] ∧
        received = [] ∧ ¬ HandsOver remoteRoute net received := by
  refine ⟨reached_oneRequester, reached_oneCaller, .start [] (by decide), ?_, ?_⟩
  · have hrun : ∃ r, runAll (Net.step remoteRoute) threeDaemons
        (asked ++ relayed ++
          [.nearHears { streamRead := .ok (okText ++ frame [97]), write := .wrote 1000 }]) =
          some r ∧ r.1.farPhase = .done ∧ r.1.nearPhase = .failed := by
      simp only [← Option.mem_def]
      decide +kernel
    obtain ⟨⟨net, received⟩, hrun, hfar, hnear⟩ := hrun
    exact ⟨net, received, hrun, hfar, hnear, fun h => h.ok.1 hnear⟩
  · have hrun : ∃ r, runAll (Net.step remoteRoute) threeDaemons
        (asked ++ relayed ++ [.nearHears { streamRead := .ok okText, write := .wrote 1000 }] ++
          relayedNear ++
          [.ipcdHears { read := .ok (frame okText ++ frame [97]), sendmsg := .wrote 2 },
            .clientHears okText]) =
          some r ∧ r.1.farPhase = .done ∧ r.1.distance remoteRoute = 0 ∧ r.1.sent = [[97]] ∧
          r.2 = [] := by
      simp only [← Option.mem_def]
      decide +kernel
    obtain ⟨⟨net, received⟩, hrun, hfar, hdistance, hsent, hnone⟩ := hrun
    refine ⟨net, received, hrun, hfar, hdistance, hsent, hnone, ?_⟩
    intro h
    have hall := (h.complete hfar hdistance).2.2.2
    cases hnone.symm.trans (hall.trans hsent)

end LibIpc.Zig

import LibIpc.Authd.Conversation
import LibIpc.Crystal.Ipc
import LibIpc.Zig.Flushing

/-!
# authd: the service (`authd.cr`)

`Daemon.turn` is one turn of the loop of `AuthD::Service#run`, around `IPC#wait`; it is a `Program`
(`turn_map`). Whatever its clients send and in whatever order, what authd does is one conversation,
of the requests that could be read, in the order they arrived in, each reply on its way to the
client that sent the request (`authd_converses`). The replies that are written to a client answer
what came over its connection, even if its descriptor was another client's before
(`authd_confines`), and none of them is stuck (`authd_flushes`). authd is still there exactly as
long as no wait fails (`authd_survives_iff`).
-/

namespace LibIpc.Authd

open Lib Zig Crystal

variable {J σ : Type}

/-! ## Messages -/

/-- JSON as text: `from_json` of the class with a type, and `to_json`. `none` where they raise. -/
structure Wire (J : Type) where
  fromJson : Int → List Byte → Option (Message J)
  toJson : Option J → Response J → Option String

/-- The types of the classes of `AuthD.requests`, in the order they are required in. -/
def requestTypes : List Int :=
  [1, 5, 16, 18, 17, 8, 7, 11, 12, 9, 10, 14, 15, 6, 13, 0, 2, 3, 4]

/-- The type of the class of a response. -/
def Response.type : Response J → Int
  | .error _ => 0
  | .token _ _ => 1
  | .user _ => 2
  | .userAdded _ => 3
  | .userEdited _ => 4
  | .userValidated _ => 5
  | .usersList _ => 6
  | .permissionCheck _ _ _ _ => 7
  | .permissionSet _ _ _ _ => 8
  | .passwordRecoverySent _ => 9
  | .passwordRecovered _ => 10
  | .matchingUsers _ => 11
  | .contacts _ _ _ => 12

/-- The request in a message, up to `AuthD.requests.parse_ipc_json`. -/
def Wire.parse (wire : Wire J) (message : Option (List Byte)) : Option (Message J) := do
  let array ← message
  let message ← TypedMessage.deserialize array
  let (type, payload) ← parseIpcJson requestTypes message
  wire.fromJson type payload

/-- The bytes that `schedule event.fd, response` gives to the library. -/
def Wire.encode (wire : Wire J) (id : Option J) (response : Response J) : Option (List Byte) := do
  let json ← wire.toJson id response
  sendJson response.type json

/-- A request that could be read, and the response to it. -/
structure Answer (J : Type) where
  handling : Handling J
  response : Response J

/-- What can be seen of it. -/
def Answer.exchange (a : Answer J) : Exchange J where
  env := a.handling.env
  request := a.handling.message.request
  response := a.response

/-- The bytes of the response; the `id` of the request is copied to it. -/
def Answer.bytes (wire : Wire J) (a : Answer J) : Option (List Byte) :=
  wire.encode a.handling.message.id a.response

section
variable (p : Platform σ J) (config : Configuration) (wire : Wire J)

/-- `AuthD::Service#handle_request`, of the message of an event: the service it leaves, what came of
the request, and the bytes that are scheduled. An exception before or after the request is handled
leaves the rest undone. -/
def handleEvent (env : Env) (s : Service σ) (message : Option (List Byte)) :
    Service σ × Option (Answer J) × Option (List Byte) :=
  match wire.parse message with
  | none => (s, none, none)
  | some m =>
    let handled := handleRequest p config env s m
    (handled.service, some ⟨⟨env, m⟩, handled.response⟩, wire.encode handled.id handled.response)

/-! ## The service -/

/-- `AuthD::Service`: an `IPC`, and the users. -/
structure Daemon (σ : Type) where
  ipc : Ipc
  service : Service σ
  running : Bool := true

/-- One turn of the loop of `AuthD::Service#run`: exceptions of `handle_request` are logged, that of
`wait` ends the program. -/
def Daemon.turn (d : Daemon σ) (c : WaitSys × Env) :
    Option (Daemon σ × List (ProgramIo (Option (Answer J)))) :=
  if d.running then do
    let (r, ipc, io) ← d.ipc.wait c.1
    let d := { d with ipc := ipc }
    match r with
    | .error _ => return ({ d with running := false }, io.map .io)
    | .ok event =>
      match event.type with
      | .timer => return (d, io.map .io)
      | .messageRx =>
        let (service, answer, payload) := handleEvent p config wire c.2 d.service event.message
        let d := { d with service := service }
        let seen := .handled event.fd (event.message.getD []) answer payload
        match payload with
        | none => return (d, io.map .io ++ [seen])
        | some payload =>
          return ({ d with ipc := d.ipc.schedule event.fd payload },
            io.map .io ++ [seen, .io (.queue (.queued { fd := event.fd, payload := payload }))])
      | .messageTx => return (d, io.map .io)
      | .connection => return (d, io.map .io)
      | .disconnection => return (d, io.map .io)
      | _ => return (d, io.map .io)
  else none

/-- The loop, as a program that answers messages. -/
def authd : Program (Service σ) Env (Option (Answer J)) where
  onMessage s env payload := some (handleEvent p config wire env s (some payload))
  onEvent s _ := some (s, true)

end

/-- The service once its constructor has set the timer and opened the socket. -/
def Daemon.start (path : List Byte) (fd : Fd) (timer : Int) (buffer : List Byte)
    (hbuffer : buffer.length = receptionBufferLen) (service : Service σ) : Daemon σ where
  ipc :=
    { context := (Process.start path fd (some timer) service).state
      receptionBuffer := buffer
      length_buffer := hbuffer }
  service := service

/-- The service without its buffer. -/
def Daemon.process (d : Daemon σ) : Process (Service σ) where
  state := d.ipc.context
  data := d.service
  running := d.running

section
variable {p : Platform σ J} {config : Configuration} {wire : Wire J} {d d' : Daemon σ}
  {c : WaitSys × Env} {cs : List (WaitSys × Env)} {log : List (ProgramIo (Option (Answer J)))}
  {s s' : Process (Service σ)} {fd : Fd}

/-- An empty message has no request in it, whether it is a message or none. -/
theorem handleEvent_nil (env : Env) (service : Service σ) :
    handleEvent p config wire env service (some []) =
      handleEvent p config wire env service none := rfl

/-- The buffer makes no difference. -/
theorem turn_map (hs : Serves d.process.state) :
    (d.turn p config wire c).map (fun r => (r.1.process, r.2)) =
      (authd p config wire).round d.process c := by
  unfold Daemon.turn Program.round
  have hsame : d.process.running = d.running := rfl
  rw [hsame]
  cases hrunning : d.running with
  | false => rfl
  | true =>
    simp only [if_true]
    cases hzig : d.process.state.waitEvent c.1 with
    | none =>
      rw [wait_eq_none hs hzig]
      rfl
    | some x =>
      obtain ⟨r, context, io⟩ := x
      obtain ⟨ipc, hwait, rfl⟩ := wait_eq_some hs hzig
      rw [hwait]
      cases r with
      | error e => rfl
      | ok event =>
        obtain ⟨t, index, origin, m⟩ := event
        cases t with
        | messageRx =>
          obtain ⟨-, m', -, -, hm, -⟩ := (waitEvent_waited hs hzig).receives rfl
          cases hm
          -- An empty message is none for Crystal.
          have hmessage : (Event.ofZig ⟨.messageRx, index, origin, some m'⟩).message.getD [] =
              m'.payload ∧
              handleEvent p config wire c.2 d.service
                (Event.ofZig ⟨.messageRx, index, origin, some m'⟩).message =
                handleEvent p config wire c.2 d.service (some m'.payload) := by
            by_cases hnil : m'.payload = []
            · simp [Event.ofZig, hnil, handleEvent_nil]
            · simp [Event.ofZig, hnil]
          simp only [Except.map, Except.mapError, Option.bind_eq_bind, Option.bind_some,
            Option.pure_def, authd]
          rw [hmessage.1, hmessage.2]
          have hdata : d.process.data = d.service := rfl
          rw [hdata]
          generalize handleEvent p config wire c.2 d.service (some m'.payload) = x
          obtain ⟨service, answer, payload⟩ := x
          cases payload with
          | none => rfl
          | some payload => rfl
        | _ => rfl

theorem run_map (hs : Serves d.process.state) (cs : List (WaitSys × Env)) :
    (runAll (Daemon.turn p config wire) d cs).map (fun r => (r.1.process, r.2)) =
      runAll (authd p config wire).round d.process cs :=
  runAll_map (authd p config wire).serves_of_round (fun _ _ hs => turn_map hs) hs cs

theorem process_run (hs : Serves d.process.state)
    (hrun : runAll (Daemon.turn p config wire) d cs = some (d', log)) :
    runAll (authd p config wire).round d.process cs = some (d'.process, log) := by
  rw [← run_map hs, hrun]
  rfl

theorem exists_run (hs : Serves d.process.state)
    (hrun : runAll (authd p config wire).round d.process cs = some (s, log)) :
    ∃ d', runAll (Daemon.turn p config wire) d cs = some (d', log) ∧ d'.process = s := by
  rw [← run_map hs] at hrun
  obtain ⟨⟨d', log'⟩, hsome, heq⟩ := Option.map_eq_some_iff.mp hrun
  cases heq
  exact ⟨d', hsome, rfl⟩

theorem runMeets_process {G : Process (Service σ) → WaitSys × Env → Prop}
    (hs : Serves d.process.state) :
    RunMeets (Daemon.turn p config wire) (fun d c => G d.process c) d cs ↔
      RunMeets (authd p config wire).round G d.process cs :=
  runMeets_map (authd p config wire).serves_of_round (fun _ _ hs => turn_map hs) hs

/-! ## Its conversation -/

/-- The answers, each with where the request came from, in order. -/
def answers (log : List (ProgramIo (Option (Answer J)))) : List (Fd × Answer J) :=
  log.filterMap fun
    | .handled fd _ (some a) _ => some (fd, a)
    | _ => none

/-- What is handled for them. -/
def handlings (log : List (ProgramIo (Option (Answer J)))) : List (Handling J) :=
  (answers log).map fun x => x.2.handling

/-- What can be seen of them. -/
def talk (log : List (ProgramIo (Option (Answer J)))) : List (Exchange J) :=
  (answers log).map fun x => x.2.exchange

/-- The request in a message that was received, and where it came from. -/
def requestOf (wire : Wire J) (m : Zig.Message) : Option (Fd × Message J) :=
  (wire.parse (some m.payload)).map fun request => (m.fd, request)

/-- The reply that is sent with an answer. -/
def replyOf (wire : Wire J) (x : Fd × Answer J) : Option Zig.Message :=
  (x.2.bytes wire).map fun payload => { fd := x.1, payload := payload }

@[simp] theorem answers_append (a b : List (ProgramIo (Option (Answer J)))) :
    answers (a ++ b) = answers a ++ answers b := by
  simp [answers]

@[simp] theorem answers_map_io (io : List Io) :
    answers (io.map .io : List (ProgramIo (Option (Answer J)))) = [] := by
  simp [answers, List.filterMap_map]

theorem handlings_append (a b : List (ProgramIo (Option (Answer J)))) :
    handlings (a ++ b) = handlings a ++ handlings b := by
  rw [handlings, answers_append, List.map_append]
  rfl

/-- A part of a run is a conversation: the requests that could be read are handled one after the
other, and every reply is the one to the request. -/
structure Converses (p : Platform σ J) (config : Configuration) (wire : Wire J) (s : Service σ)
    (log : List (ProgramIo (Option (Answer J)))) (s' : Service σ) : Prop where
  run : runAll (converse p config) s (handlings log) = some (s', talk log)
  requests : (answers log).map (fun x => (x.1, x.2.handling.message)) =
    (handledMessages log).filterMap (requestOf wire)
  replies : replies log = (answers log).filterMap (replyOf wire)

theorem Converses.append {r r' r'' : Service σ} {log' : List (ProgramIo (Option (Answer J)))}
    (h : Converses p config wire r log r') (h' : Converses p config wire r' log' r'') :
    Converses p config wire r (log ++ log') r'' where
  run := by
    rw [handlings_append, runAll_append, h.run, Option.bind_some, h'.run, Option.map_some, talk,
      talk, talk, answers_append, List.map_append]
  requests := by
    rw [answers_append, List.map_append, h.requests, h'.requests, handledMessages, handledMessages,
      handledMessages, List.filterMap_append, List.filterMap_append]
  replies := by
    rw [replies_append, answers_append, List.filterMap_append, h.replies, h'.replies]

/-- What is no message is no part of the conversation. -/
theorem converses_map_io (service : Service σ) (io : List Io) :
    Converses p config wire service (io.map .io) service where
  run := by
    rw [handlings, talk, answers_map_io]
    rfl
  requests := by
    rw [answers_map_io, handledMessages, List.filterMap_map]
    simp [ProgramIo.message?]
  replies := by
    rw [replies_map_io, answers_map_io]
    rfl

/-- A message is one exchange, or none. -/
theorem converses_handled {env : Env} {service : Service σ} {payload : List Byte} :
    let x := handleEvent p config wire env service (some payload)
    Converses p config wire service [.handled fd payload x.2.1 x.2.2] x.1 := by
  have hrequest : requestOf wire { fd := fd, payload := payload } =
      (wire.parse (some payload)).map fun request => (fd, request) := rfl
  cases hparse : wire.parse (some payload) with
  | none =>
    rw [hparse] at hrequest
    have hhandle : handleEvent p config wire env service (some payload) =
        (service, none, none) := by
      rw [handleEvent, hparse]
    rw [hhandle]
    refine ⟨rfl, ?_, rfl⟩
    show [] = [_].filterMap (requestOf wire)
    rw [List.filterMap_cons_none hrequest, List.filterMap_nil]
  | some m =>
    rw [hparse] at hrequest
    have hhandle : handleEvent p config wire env service (some payload) =
        ((handleRequest p config env service m).service,
          some ⟨⟨env, m⟩, (handleRequest p config env service m).response⟩,
          wire.encode m.id (handleRequest p config env service m).response) := by
      rw [handleEvent, hparse]
      rfl
    rw [hhandle]
    refine ⟨rfl, ?_, ?_⟩
    · show [_] = [_].filterMap (requestOf wire)
      rw [List.filterMap_cons_some hrequest, List.filterMap_nil]
    · generalize (handleRequest p config env service m).response = response
      have hreply : replyOf wire (fd, ⟨⟨env, m⟩, response⟩) =
          (wire.encode m.id response).map fun payload => { fd := fd, payload := payload } := rfl
      show _ = [_].filterMap (replyOf wire)
      cases hencode : wire.encode m.id response with
      | none =>
        rw [hencode] at hreply
        rw [List.filterMap_cons_none hreply, List.filterMap_nil]
        rfl
      | some bytes =>
        rw [hencode] at hreply
        rw [List.filterMap_cons_some hreply, List.filterMap_nil]
        rfl

theorem round_converses (hs : Serves s.state)
    (h : (authd p config wire).round s c = some (s', log)) :
    Converses p config wire s.data log s'.data := by
  cases (Program.round_cases hs h).2 with
  | ends _ => exact converses_map_io _ _
  | goesOn _ _ _ hevent =>
    cases hevent
    exact converses_map_io _ _
  | @handles _ fd m _ _ _ _ _ hmessage =>
    have hhandle := Option.some.inj hmessage
    have hone := @converses_handled _ _ p config wire fd c.2 s.data m.payload
    rw [hhandle] at hone
    exact hone.append (converses_map_io _ _)

theorem converses_of_run (hs : Serves s.state)
    (hrun : runAll (authd p config wire).round s cs = some (s', log)) :
    Converses p config wire s.data log s'.data := by
  refine (runAll_induction (G := fun _ _ => True)
    (P := fun s : Process (Service σ) => Serves s.state)
    (Q := fun s log s' => Converses p config wire s.data log s'.data) ?_ ?_ hs
    (runMeets_true s cs) hrun).2
  · intro s _
    exact converses_map_io s.data []
  · intro s c s₁ log₁ hs _ hround
    refine ⟨Program.serves_of_round _ s c s₁ log₁ hs hround, fun log₂ s₂ hrest => ?_⟩
    exact (round_converses hs hround).append hrest

/-- The JSON of two requests of Alice. -/
def addAlice : String :=
  "\x7b\"shared_key\":\"nico-nico-nii\",\"login\":\"alice\",\"password\":\"secret\"\x7d"

def askToken : String := "\x7b\"login\":\"alice\",\"password\":\"secret\"\x7d"

/-- The JSON of these requests, and of what they can be answered with. -/
def aliceWire : Wire Json where
  fromJson type payload :=
    if type = 1 ∧ payload = toUnsafe addAlice then
      some { request := .addUser ⟨"nico-nico-nii", "alice", "secret", none, none, none⟩ }
    else if type = 0 ∧ payload = toUnsafe askToken then
      some { request := .getToken ⟨"alice", "secret"⟩ }
    else none
  toJson _ response :=
    match response with
    | .userAdded _ => some ("\x7b\"user\":\x7b\"login\":\"alice\",\"uid\":1000," ++
        "\"date_registration\":\"1970-01-01T00:00:00Z\"\x7d\x7d")
    | .token token _ => some ("\x7b\"token\":\"" ++ token ++ "\",\"uid\":1000\x7d")
    | .error reason => some ("\x7b\"reason\":\"" ++ reason ++ "\"\x7d")
    | _ => none

/-- authd with an empty storage. -/
def freshAuthd : Daemon (List (User Json)) :=
  .start (toUnsafe "/run/ipc/auth") 3 30000 (List.replicate receptionBufferLen 0)
    List.length_replicate { users := [], lastUid := none }

/-- Alice connects on descriptor 5, is added, and the response is written to her. -/
def aliceJoins : List (WaitSys × Env) :=
  [({ poll := some [{ pollin := true }], accept := .ok 5 }, { quietEnv with readUid := none }),
    ({ poll := some [{}, { pollin := true }], read := .ok (frame (1 :: toUnsafe addAlice)) },
      { quietEnv with readUid := none }),
    ({ poll := some [{}, { pollout := true }], write := .wrote 100000 }, quietEnv)]

/-- Then she asks for a token. -/
def aliceAsks : WaitSys × Env :=
  ({ poll := some [{}, { pollin := true }], read := .ok (frame (0 :: toUnsafe askToken)) },
    quietEnv)

def aliceStays : List (WaitSys × Env) :=
  aliceJoins ++ [aliceAsks,
    ({ poll := some [{}, { pollout := true }], write := .wrote 100000 }, quietEnv)]

theorem serves_freshAuthd : Serves freshAuthd.process.state :=
  serves_start _ 3 (some 30000) ({ users := [], lastUid := none } : Service (List (User Json)))

section Start
variable {path : List Byte} {serverfd : Fd} {timer : Int} {buffer : List Byte}
  {hbuffer : buffer.length = receptionBufferLen} {service : Service σ}

/-- **One conversation**: in every run of authd, whatever its clients send and whatever becomes of
them, the requests that could be read are handled one after the other in the order they arrived in,
as in a conversation; and the replies that are scheduled are the responses to them, in that order,
each for the client the request came from. -/
theorem authd_converses
    (hrun : runAll (Daemon.turn p config wire)
      (Daemon.start path serverfd timer buffer hbuffer service) cs = some (d, log)) :
    runAll (converse p config) service (handlings log) = some (d.service, talk log) ∧
      (answers log).map (fun x => (x.1, x.2.handling.message)) =
        (handledMessages log).filterMap (requestOf wire) ∧
      replies log = (answers log).filterMap (replyOf wire) := by
  have hs := serves_start path serverfd (some timer) service
  have hconverses := converses_of_run hs (process_run (by exact hs) hrun)
  exact ⟨hconverses.run, hconverses.requests, hconverses.replies⟩

theorem authd_converses_alice :
    ∃ d log, runAll (Daemon.turn inMemory {} aliceWire) freshAuthd aliceJoins = some (d, log) ∧
      (talk log).length = 1 ∧
      runAll (converse inMemory {}) freshAuthd.service (handlings log) =
        some (d.service, talk log) := by
  have hprocess : ∃ r, runAll (authd inMemory {} aliceWire).round freshAuthd.process aliceJoins =
      some r ∧ (talk r.2).length = 1 := by
    simp only [← Option.mem_def]
    decide +kernel
  obtain ⟨⟨s, log⟩, hprocess, hlength⟩ := hprocess
  obtain ⟨d, hrun, -⟩ := exists_run serves_freshAuthd hprocess
  exact ⟨d, log, hrun, hlength, (authd_converses hrun).1⟩

/-! ## Its clients -/

theorem serves_of_run
    (hrun : runAll (Daemon.turn p config wire)
      (Daemon.start path serverfd timer buffer hbuffer service) cs = some (d, log)) :
    Serves d.process.state ∧ Addressed d.process.state := by
  have hstart := serves_start path serverfd (some timer) service
  have hprocess := process_run (by exact hstart) hrun
  exact ⟨(books_of_run hstart hprocess).1,
    addressed_of_run hstart (addressed_start path serverfd (some timer) service) hprocess⟩

/-- **Confinement**: from a moment on at which a descriptor is not open, the responses to the
requests that come over it are those handed over to be written to it, those lost with a connection
on it and those that still wait, each once; and what is written to it are beginnings of the frames
of those handed over, in that order. -/
theorem authd_confines
    (hrun : runAll (Daemon.turn p config wire)
      (Daemon.start path serverfd timer buffer hbuffer service) cs = some (d, log))
    (hfd : fd ∉ d.ipc.context.openFds) {cs' : List (WaitSys × Env)}
    {log' : List (ProgramIo (Option (Answer J)))}
    (hrun' : runAll (Daemon.turn p config wire) d cs' = some (d', log')) :
    (lane Message.fd fd ((answers log').filterMap (replyOf wire))).Perm
        (handedIn Message.fd fd (queueEvents (libraryIo log')) ++
          lostIn Message.fd fd (queueEvents (libraryIo log')) ++ d'.ipc.context.waiting fd) ∧
      List.Forall₂ (fun m bs => bs <+: encoded m.payload)
        (handedIn Message.fd fd (queueEvents (libraryIo log'))) (writesOn fd (libraryIo log')) := by
  obtain ⟨hs, ha⟩ := serves_of_run hrun
  have hprocess := process_run hs hrun'
  rw [← (converses_of_run hs hprocess).replies]
  exact replies_confined hs ha hfd hprocess

theorem authd_confines_alice :
    ∃ d log, runAll (Daemon.turn inMemory {} aliceWire) freshAuthd aliceJoins = some (d, log) ∧
      (writesOn 5 (libraryIo log)).length = 1 ∧
      (lane Message.fd 5 ((answers log).filterMap (replyOf aliceWire))).Perm
        (handedIn Message.fd 5 (queueEvents (libraryIo log)) ++
          lostIn Message.fd 5 (queueEvents (libraryIo log)) ++ d.ipc.context.waiting 5) := by
  have hprocess : ∃ r, runAll (authd inMemory {} aliceWire).round freshAuthd.process aliceJoins =
      some r ∧ (writesOn 5 (libraryIo r.2)).length = 1 := by
    simp only [← Option.mem_def]
    decide +kernel
  obtain ⟨⟨s, log⟩, hprocess, hlength⟩ := hprocess
  obtain ⟨d, hrun, -⟩ := exists_run serves_freshAuthd hprocess
  have hnew : 5 ∉ freshAuthd.ipc.context.openFds := by decide +kernel
  have hnothing : runAll (Daemon.turn inMemory {} aliceWire) freshAuthd [] =
      some (freshAuthd, []) := rfl
  exact ⟨d, log, hrun, hlength, (authd_confines hnothing hnew hrun).1⟩

/-- **Order**: from a moment on at which a descriptor is not open, if a request comes over it only
when no response waits for it any more, and no response is lost, the responses to the requests that
come over it are written in the order of these requests; what is written are beginnings of their
frames, in that order. -/
theorem authd_answersInOrder
    (hrun : runAll (Daemon.turn p config wire)
      (Daemon.start path serverfd timer buffer hbuffer service) cs = some (d, log))
    (hfd : fd ∉ d.ipc.context.openFds) {cs' : List (WaitSys × Env)}
    {log' : List (ProgramIo (Option (Answer J)))}
    (hone : RunMeets (Daemon.turn p config wire) (fun d c => OneAtATime fd d.process c) d cs')
    (hrun' : runAll (Daemon.turn p config wire) d cs' = some (d', log'))
    (hkept : lostIn Message.fd fd (queueEvents (libraryIo log')) = []) :
    lane Message.fd fd ((answers log').filterMap (replyOf wire)) =
        handedIn Message.fd fd (queueEvents (libraryIo log')) ++ d'.ipc.context.waiting fd ∧
      List.Forall₂ (fun m bs => bs <+: encoded m.payload)
        (handedIn Message.fd fd (queueEvents (libraryIo log'))) (writesOn fd (libraryIo log')) := by
  obtain ⟨hs, ha⟩ := serves_of_run hrun
  have hprocess := process_run hs hrun'
  have hnone : d.process.state.waiting fd = [] := ha.waiting hfd
  have horder := replies_inOrder hs (by rw [hnone]; exact Nat.zero_le 1)
    ((runMeets_process hs).mp hone) hprocess hkept
  rw [hnone, List.nil_append] at horder
  rw [← (converses_of_run hs hprocess).replies]
  exact ⟨horder, (replies_confined hs ha hfd hprocess).2⟩

/-- The response to Alice's second request is the second one that is written to her. -/
theorem authd_answersInOrder_alice :
    ∃ d log, runAll (Daemon.turn inMemory {} aliceWire) freshAuthd aliceStays = some (d, log) ∧
      (writesOn 5 (libraryIo log)).length = 2 ∧
      lane Message.fd 5 ((answers log).filterMap (replyOf aliceWire)) =
        handedIn Message.fd 5 (queueEvents (libraryIo log)) ++ d.ipc.context.waiting 5 := by
  have hprocess : ∃ r, runAll (authd inMemory {} aliceWire).round freshAuthd.process aliceStays =
      some r ∧ (writesOn 5 (libraryIo r.2)).length = 2 ∧
        lostIn Message.fd 5 (queueEvents (libraryIo r.2)) = [] := by
    simp only [← Option.mem_def]
    decide +kernel
  obtain ⟨⟨s, log⟩, hprocess, hlength, hkept⟩ := hprocess
  obtain ⟨d, hrun, -⟩ := exists_run serves_freshAuthd hprocess
  have hnew : 5 ∉ freshAuthd.ipc.context.openFds := by decide +kernel
  have hnothing : runAll (Daemon.turn inMemory {} aliceWire) freshAuthd [] =
      some (freshAuthd, []) := rfl
  -- While a response waits, nothing can be read.
  have hread : RunMeets (authd inMemory {} aliceWire).round
      (fun s c => s.state.waiting 5 = [] ∨ c.1.read = .error) freshAuthd.process aliceStays := by
    decide +kernel
  have hone : RunMeets (authd inMemory {} aliceWire).round (OneAtATime 5) freshAuthd.process
      aliceStays := by
    apply hread.imp
    rintro s c (hnone | herror) m ⟨index, q, con, -, -, -, -, hanswer⟩
    · exact hnone
    · rw [herror] at hanswer
      cases hanswer
  rw [← runMeets_process serves_freshAuthd] at hone
  exact ⟨d, log, hrun, hlength, (authd_answersInOrder hnothing hnew hone hrun hkept).1⟩

end Start

/-! ## Its decisions -/

/-- A turn answers one request, or none. -/
theorem answers_round (hs : Serves s.state)
    (h : (authd p config wire).round s c = some (s', log)) :
    answers log = [] ∨ ∃ fd m, answers log =
      [(fd, ⟨⟨c.2, m⟩, (handleRequest p config c.2 s.data m).response⟩)] := by
  cases (Program.round_cases hs h).2 with
  | ends _ => exact .inl (answers_map_io _)
  | goesOn _ _ _ _ => exact .inl (answers_map_io _)
  | @handles _ fd m data x reply _ _ hmessage =>
    have hhandle : handleEvent p config wire c.2 s.data (some m.payload) = (data, x, reply) :=
      Option.some.inj hmessage
    have hsplit : ∀ io : List Io, answers (.handled fd m.payload x reply :: io.map .io) =
        answers [.handled fd m.payload x reply] := by
      intro io
      rw [← List.singleton_append, answers_append, answers_map_io, List.append_nil]
    rw [hsplit]
    rw [handleEvent] at hhandle
    cases hparse : wire.parse (some m.payload) with
    | none =>
      rw [hparse] at hhandle
      cases hhandle
      exact .inl rfl
    | some request =>
      rw [hparse] at hhandle
      cases hhandle
      exact .inr ⟨fd, request, rfl⟩

/-- Each reading of `last_used_uid` finds what was last written to it. -/
def Daemon.ReadsLast (d : Daemon σ) (c : WaitSys × Env) : Prop := c.2.readUid = d.service.lastUid

theorem readsLast_of_run (hs : Serves s.state)
    (hread : RunMeets (authd p config wire).round (fun s c => c.2.readUid = s.data.lastUid) s cs)
    (hrun : runAll (authd p config wire).round s cs = some (s', log)) :
    RunMeets (converse p config) ReadsLast s.data (handlings log) := by
  refine (runAll_induction (P := fun s : Process (Service σ) => Serves s.state)
    (Q := fun s log _ => RunMeets (converse p config) ReadsLast s.data (handlings log)) ?_ ?_ hs
    hread hrun).2
  · intro s _
    trivial
  · intro s c s₁ log₁ hs hlast hround
    refine ⟨Program.serves_of_round _ s c s₁ log₁ hs hround, fun log₂ s₂ hrest => ?_⟩
    rw [handlings_append]
    apply RunMeets.append _ (round_converses hs hround).run hrest
    rcases answers_round hs hround with hnone | ⟨fd, m, hone⟩
    · rw [handlings, hnone]
      trivial
    · rw [handlings, hone]
      exact ⟨hlast, fun _ _ => trivial⟩

/-- authd goes on exactly if the wait does not fail: there is nothing it does not survive. -/
theorem turn_goesOn_iff (hs : Ready d.ipc.context) (hrunning : d.running = true)
    (hsys : Contract d.ipc.context c.1) :
    (∃ d' log, d.turn p config wire c = some (d', log) ∧ d'.running = true) ↔
      ¬ Fails d.ipc.context c.1 := by
  have hround : (∃ d' log, d.turn p config wire c = some (d', log) ∧ d'.running = true) ↔
      ∃ s' log, (authd p config wire).round d.process c = some (s', log) ∧ s'.running = true := by
    rw [← turn_map hs.serves]
    constructor
    · rintro ⟨d', log, hturn, hgoesOn⟩
      exact ⟨d'.process, log, by rw [hturn]; rfl, hgoesOn⟩
    · rintro ⟨s', log, hmap, hgoesOn⟩
      obtain ⟨⟨d', log'⟩, hturn, heq⟩ := Option.map_eq_some_iff.mp hmap
      cases heq
      exact ⟨d', log', hturn, hgoesOn⟩
  rw [hround]
  obtain ⟨⟨r, state, io⟩, hwait⟩ := exists_waitEvent hs.serves hs.armed hsys
  have hwait' : d.process.state.waitEvent c.1 = some (r, state, io) := hwait
  have hfails := waitEvent_error_iff hs.serves hwait
  cases r with
  | error e => exact iff_of_false (not_goesOn_of_error hwait') (not_not_intro (hfails.mp ⟨e, rfl⟩))
  | ok event =>
    have hanswers : ¬ Fails d.ipc.context c.1 := by
      rw [← hfails]
      rintro ⟨e, he⟩
      cases he
    refine iff_of_true ?_ hanswers
    by_cases ht : event.t = .messageRx
    · obtain ⟨-, m, -, -, hm, -⟩ := (waitEvent_waited hs.serves hwait).receives ht
      rw [goesOn_of_message hrunning hwait' ht hm]
      exact Option.some_ne_none _
    · rw [goesOn_of_event hrunning hwait' ht]
      exact ⟨_, rfl⟩

/-- **Survival**: as long as the system keeps its contract, authd is still there after a run exactly
when none of its waits fails, whatever the requests are and whatever they raise. -/
theorem authd_survives_iff {path : List Byte} {serverfd : Fd} {timer : Int} {buffer : List Byte}
    {hbuffer : buffer.length = receptionBufferLen} {service : Service σ}
    (hsys : RunMeets (Daemon.turn p config wire) (fun d c => Contract d.ipc.context c.1)
      (Daemon.start path serverfd timer buffer hbuffer service) cs) :
    (∃ d log, runAll (Daemon.turn p config wire)
        (Daemon.start path serverfd timer buffer hbuffer service) cs = some (d, log) ∧
        d.running = true) ↔
      RunMeets (Daemon.turn p config wire) (fun d c => ¬ Fails d.ipc.context c.1)
        (Daemon.start path serverfd timer buffer hbuffer service) cs := by
  apply exists_runAll_iff (P := fun d : Daemon σ => Ready d.ipc.context)
    (A := fun d : Daemon σ => d.running = true) _ _ _
    (ready_start path serverfd (some timer) service) rfl hsys
  · intro d c r hturn
    unfold Daemon.turn at hturn
    split at hturn
    · assumption
    · cases hturn
  · intro d c d₁ log₁ hs hturn
    have hround : (authd p config wire).round d.process c = some (d₁.process, log₁) := by
      rw [← turn_map hs.serves, hturn]
      rfl
    exact (Program.round_cases hs.serves hround).2.ready hs
  · intro d c hs hrunning hsys
    exact turn_goesOn_iff hs hrunning hsys

theorem authd_survives_alice :
    RunMeets (Daemon.turn inMemory {} aliceWire) (fun d c => ¬ Fails d.ipc.context c.1) freshAuthd
      aliceJoins := by
  have hsys : RunMeets (Daemon.turn inMemory {} aliceWire) (fun d c => Contract d.ipc.context c.1)
      freshAuthd aliceJoins := by
    have hcontract : RunMeets (authd inMemory {} aliceWire).round (fun s c => Contract s.state c.1)
        freshAuthd.process aliceJoins := by
      decide +kernel
    rw [← runMeets_process serves_freshAuthd] at hcontract
    exact hcontract
  have hprocess : ∃ r, runAll (authd inMemory {} aliceWire).round freshAuthd.process aliceJoins =
      some r ∧ r.1.running = true := by
    simp only [← Option.mem_def]
    decide +kernel
  obtain ⟨⟨s, log⟩, hprocess, hrunning⟩ := hprocess
  obtain ⟨d, hrun, rfl⟩ := exists_run serves_freshAuthd hprocess
  exact (authd_survives_iff hsys).mp ⟨d, log, hrun, hrunning⟩

end

end LibIpc.Authd

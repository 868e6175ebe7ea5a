import LibIpc.Zig.Message
import LibIpc.Lib.Pairing

/-!
# The switching table of the Zig implementation (`switch.zig`)

`SwitchDB` maps each switched descriptor to its managed connection, of which the table here keeps
the `dest` field. `set_callbacks` changes a copy of the stored value, so which callback a
descriptor uses never changes through it; `In` and `Out` say which one answers a call and what.
-/

namespace LibIpc.Zig

open Lib

/-! ## Events -/

/-- `Event.Type`. -/
inductive EventType where
  | error | connection | disconnection | messageRx | messageTx | timer | external | switchRx
  | switchTx
  deriving DecidableEq, Repr

/-- `Event`. -/
structure Event where
  t : EventType
  index : Nat
  origin : Fd
  m : Option Message := none
  deriving DecidableEq

/-- `CBEvent.Type`. -/
inductive CBEventType where
  | noError | error | fdClosing | ignore
  deriving DecidableEq, Repr

/-! ## Callbacks -/

/-- `default_in`: the verdict, and the `mlen` bytes of the buffer it leaves. -/
def defaultIn : ReadResult → CBEventType × List Byte
  | .ok bs => if bs.length < 4 then (.fdClosing, []) else (.noError, bs)
  | .reset => (.error, [])
  | .error => (.error, [])

/-- `default_out`; a partial `write(2)` is taken for a whole one. -/
def defaultOut : WriteResult → CBEventType
  | .wrote _ => .noError
  | .error => .error

/-- The input callback that is called: the default one with the answer of its `read(2)`, or a
registered one with its verdict and the bytes it leaves in the buffer. -/
inductive In where
  | default (r : ReadResult)
  | registered (r : CBEventType) (bs : List Byte)

/-- What the input callback answers. -/
def In.answer : In → CBEventType × List Byte
  | .default r => defaultIn r
  | .registered r bs => (r, bs)

/-- The output callback that is called. -/
inductive Out where
  | default (w : WriteResult)
  | registered (r : CBEventType)

/-- What the output callback answers. -/
def Out.answer : Out → CBEventType
  | .default w => defaultOut w
  | .registered r => r

/-! ## The table -/

/-- `SwitchDB.db`: the `dest` of each switched descriptor. -/
abbrev SwitchDB := PartnerTable Fd

namespace SwitchDB

/-- `SwitchDB.add_switch`. -/
def addSwitch (db : SwitchDB) (fd1 fd2 : Fd) : SwitchDB := PartnerTable.link db fd1 fd2

/-- `SwitchDB.nuke`. -/
def nuke (db : SwitchDB) (fd : Fd) : SwitchDB := PartnerTable.unlink db fd

/-- `SwitchDB.getDest`; `none` when the unwrap fails. -/
def getDest (db : SwitchDB) (fd : Fd) : Option Fd := db.lookup fd

/-- `SwitchDB.read`. -/
def read (db : SwitchDB) (fd : Fd) (cb : In) : Except Error (Option Message) :=
  match db.lookup fd with
  | none => .error .unregisteredFD
  | some dest =>
    match cb.answer with
    | (.ignore, _) => .ok none
    | (.noError, bs) =>
      match Message.read dest bs bs.length with
      | .error _ => .error .generic
      | .ok m => .ok (some m)
    | (.fdClosing, _) => .error .closeFD
    | (.error, _) => .error .generic

/-- `SwitchDB.write`: the result, and the bytes handed to the callback. -/
def write (db : SwitchDB) (message : Message) (cb : Out) : Except Error Unit × List Byte :=
  match db.lookup message.fd with
  | none => (.error .unregisteredFD, [])
  | some _ =>
    match message.write 100000 with
    | .error _ => (.error .generic, [])
    | .ok (written, _) =>
      match cb.answer with
      | .noError => (.ok (), written)
      | .fdClosing => (.error .closeFD, written)
      | .ignore => (.error .generic, written)
      | .error => (.error .generic, written)

/-- `SwitchDB.handle_event_read`. -/
def handleEventRead (db : SwitchDB) (index : Nat) (fd : Fd) (cb : In) : Event :=
  match read db fd cb with
  | .error .closeFD => { t := .disconnection, index := index, origin := fd }
  | .error _ => { t := .error, index := index, origin := fd }
  | .ok m => { t := .switchRx, index := index, origin := fd, m := m }

/-- `SwitchDB.handle_event_write`. -/
def handleEventWrite (db : SwitchDB) (index : Nat) (message : Message) (cb : Out) :
    Event × List Byte :=
  match write db message cb with
  | (.error .closeFD, bs) => ({ t := .disconnection, index := index, origin := message.fd }, bs)
  | (.error _, bs) => ({ t := .error, index := index, origin := message.fd }, bs)
  | (.ok (), bs) => ({ t := .switchTx, index := index, origin := message.fd }, bs)

end SwitchDB

end LibIpc.Zig

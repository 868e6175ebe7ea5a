import LibIpc.Lib.Bytes

/-!
# Typed messages of the Crystal library (`message.cr`, `json.cr`)

A typed message is a byte for its type and a payload. A payload made from a text is the slice of
`String#size` bytes behind the text, and `String#size` counts characters: `roundTrips_iff` says that
exactly the texts of ASCII characters arrive whole. Messages made from bytes always do.
-/

namespace LibIpc.Crystal

open Lib

/-! ## Strings and slices -/

/-- The bytes behind `String#to_unsafe`, in UTF-8. -/
def toUnsafe (string : String) : List Byte := string.toList.flatMap String.utf8EncodeChar

/-- `Bytes.new pointer, size`. -/
def bytesNew (pointer : List Byte) (size : Nat) : List Byte := pointer.take size

/-! ## Messages -/

/-- `IPCMessage::UntypedMessage`. -/
structure UntypedMessage where
  payload : List Byte

/-- `UntypedMessage.new` of a `String`; `String#size` is the number of characters. -/
def UntypedMessage.ofString (string : String) : UntypedMessage where
  payload := bytesNew (toUnsafe string) string.length

def UntypedMessage.serialize (m : UntypedMessage) : List Byte := m.payload

def UntypedMessage.deserialize (payload : List Byte) : UntypedMessage := { payload := payload }

/-- `IPCMessage::TypedMessage`. -/
structure TypedMessage extends UntypedMessage where
  type : Option Byte := none

/-- `TypedMessage.new` of a type and a `String`. -/
def TypedMessage.ofString (type : Byte) (string : String) : TypedMessage where
  toUntypedMessage := .ofString string
  type := some type

def TypedMessage.serialize (m : TypedMessage) : List Byte := m.type.getD 0 :: m.payload

def TypedMessage.deserialize : List Byte → Option TypedMessage
  | [] => none
  | type :: payload => some { payload := payload, type := some type }

/-! ## JSON messages -/

/-- `IPC#write` and `IPC#schedule` of an `IPC::JSON`: the bytes given to the library. `to_u8` raises
when the type of the class is no byte. -/
def sendJson (type : Int) (json : String) : Option (List Byte) :=
  if 0 ≤ type ∧ type ≤ 255 then
    some (TypedMessage.ofString (UInt8.ofNat type.toNat) json).serialize
  else none

/-- `Array#parse_ipc_json`, on the types of the classes: the class that is found and the text given to
its `from_json`. Without a class it raises. -/
def parseIpcJson (types : List Int) (message : TypedMessage) : Option (Int × List Byte) :=
  (types.find? fun type => message.type.map (fun t => (t.toNat : Int)) = some type).map
    fun type => (type, message.payload)

/-- A text arrives whole: in the message that is read back, and in the JSON message that is parsed
from it wherever its class is known. -/
structure RoundTrips (t : Byte) (s : String) : Prop where
  message : ∃ m, TypedMessage.deserialize (TypedMessage.ofString t s).serialize = some m ∧
    m.type = some t ∧ m.payload = toUnsafe s
  json : ∀ types, (t.toNat : Int) ∈ types → ∃ bytes m, sendJson t.toNat s = some bytes ∧
    TypedMessage.deserialize bytes = some m ∧
    parseIpcJson types m = some ((t.toNat : Int), toUnsafe s)

/-! ## Characters and bytes -/

section
variable {s : String}

theorem utf8Size_eq_one_iff (c : Char) : c.utf8Size = 1 ↔ c.toNat < 128 := by
  rw [Char.utf8Size_eq_one_iff, UInt32.le_iff_toNat_le]
  exact Nat.lt_succ_iff.symm

/-- Every character takes at least one byte, and one only where it is an ASCII character. -/
theorem length_flatMap_utf8 (cs : List Char) :
    cs.length ≤ (cs.flatMap String.utf8EncodeChar).length ∧
      ((cs.flatMap String.utf8EncodeChar).length ≤ cs.length ↔ ∀ c ∈ cs, c.toNat < 128) := by
  induction cs with
  | nil => simp
  | cons c cs ih =>
    have hpos := c.utf8Size_pos
    have hone := utf8Size_eq_one_iff c
    rw [List.flatMap_cons, List.length_append, String.length_utf8EncodeChar, List.length_cons,
      List.forall_mem_cons, ← ih.2, ← hone]
    constructor
    · omega
    · omega

theorem payload_ofString_eq_iff (t : Byte) (s : String) :
    (TypedMessage.ofString t s).payload = toUnsafe s ↔ ∀ c ∈ s.toList, c.toNat < 128 := by
  show (toUnsafe s).take s.length = toUnsafe s ↔ _
  rw [List.take_eq_self_iff, toUnsafe, ← String.length_toList]
  exact (length_flatMap_utf8 s.toList).2

/-! ## Round trips -/

theorem deserialize_serialize {m : TypedMessage} {t : Byte} (h : m.type = some t) :
    TypedMessage.deserialize m.serialize = some m := by
  rw [TypedMessage.serialize, h, TypedMessage.deserialize]
  cases m
  cases h
  rfl

/-- Bytes are read and written back as they were. -/
theorem serialize_deserialize (b : Byte) (bs : List Byte) :
    (TypedMessage.deserialize (b :: bs)).map TypedMessage.serialize = some (b :: bs) := rfl

theorem sendJson_eq (t : Byte) (s : String) :
    sendJson t.toNat s = some (TypedMessage.ofString t s).serialize := by
  have hbyte : (0 : Int) ≤ t.toNat ∧ (t.toNat : Int) ≤ 255 := by
    have hlt := t.toNat_lt
    omega
  rw [sendJson, if_pos hbyte, Int.toNat_natCast, UInt8.ofNat_toNat]

/-- The class is found by the type of the message. -/
theorem parseIpcJson_eq {types : List Int} {m : TypedMessage} {t : Byte} (hm : m.type = some t)
    (ht : (t.toNat : Int) ∈ types) :
    parseIpcJson types m = some ((t.toNat : Int), m.payload) := by
  have hfind : (types.find? fun type => m.type.map (fun t => (t.toNat : Int)) = some type) =
      some (t.toNat : Int) := by
    have hsome : ((types.find? fun type => m.type.map (fun t => (t.toNat : Int)) = some type)).isSome
        = true := by
      rw [List.find?_isSome]
      exact ⟨_, ht, by simp [hm]⟩
    obtain ⟨type, htype⟩ := Option.isSome_iff_exists.mp hsome
    have hp := List.find?_some htype
    rw [hm, Option.map_some, decide_eq_true_eq, Option.some.injEq] at hp
    rw [htype, ← hp]
  rw [parseIpcJson, hfind]
  rfl

theorem roundTrips_iff_ascii (t : Byte) (s : String) :
    RoundTrips t s ↔ ∀ c ∈ s.toList, c.toNat < 128 := by
  have hread : TypedMessage.deserialize (TypedMessage.ofString t s).serialize =
      some (TypedMessage.ofString t s) := deserialize_serialize rfl
  rw [← payload_ofString_eq_iff t s]
  constructor
  · intro h
    obtain ⟨m, hm, -, hpayload⟩ := h.message
    rw [hread, Option.some.injEq] at hm
    rw [hm]
    exact hpayload
  · intro hpayload
    refine ⟨⟨_, hread, rfl, hpayload⟩, ?_⟩
    intro types ht
    refine ⟨_, _, sendJson_eq t s, hread, ?_⟩
    rw [parseIpcJson_eq rfl ht, hpayload]

/-- **Round trips**: a text arrives whole exactly when all its characters are ASCII; a string of
bytes that is read is written back as it was. -/
theorem roundTrips_iff (t : Byte) (s : String) (b : Byte) (bs : List Byte) :
    (RoundTrips t s ↔ ∀ c ∈ s.toList, c.toNat < 128) ∧
      (TypedMessage.deserialize (b :: bs)).map TypedMessage.serialize = some (b :: bs) :=
  ⟨roundTrips_iff_ascii t s, serialize_deserialize b bs⟩

/-- Of two bytes of one character, the first one arrives. -/
theorem not_roundTrips_two_bytes : ¬ RoundTrips 1 (String.ofList ['é']) := by
  rw [roundTrips_iff_ascii, String.toList_ofList]
  intro hascii
  have hlt : 'é'.toNat < 128 := hascii 'é' (List.mem_singleton.mpr rfl)
  exact absurd hlt (by decide)

end

end LibIpc.Crystal

import Mathlib.Data.List.AList
import Mathlib.Tactic
import LibIpc.Lib.Indexed

/-!
# authd: users and what they are kept in (`authd/user.cr`, `authd/token.cr`, `authd.cr`)

The record of a user, the configuration, and the state of `AuthD::Service`: the database of users
and the file `last_used_uid`. The libraries authd is built on are a parameter, `Platform`, and what
the system answers while a request is handled is another, `Env`.

* The database (DODB) has an index on the uid, written in decimal, and one on the login.
* A JWT library decodes tokens under a key; `Token.fromS` is what authd reads in one.
* JSON values are of any type with the few operations that authd calls.
-/

namespace LibIpc.Authd

open Lib

/-- A `Hash` whose keys are strings. -/
abbrev Hash (β : Type) := AList fun _ : String => β

/-- An instant. -/
abbrev Time := Int

/-! ## Users -/

/-- `AuthD::User::PermissionLevel`. -/
inductive PermissionLevel where
  | none
  | read
  | edit
  | admin
  deriving DecidableEq

/-- The levels are ordered as they are declared. -/
def PermissionLevel.value : PermissionLevel → Nat
  | none => 0
  | read => 1
  | edit => 2
  | admin => 3

/-- `AuthD::User::Contact`. -/
structure Contact where
  activationKey : Option String
  email : Option String := none
  phone : Option String := none
  deriving DecidableEq

/-- `AuthD::User`; the permissions are those of a service on a resource. -/
structure User (J : Type) where
  login : String
  uid : Int
  profile : Option (Hash J) := none
  contact : Contact
  passwordHash : String
  passwordRenewKey : Option String := none
  permissions : Hash (Hash PermissionLevel) := ∅
  dateLastConnection : Option Time := none
  dateRegistration : Option Time := none
  deriving DecidableEq

/-- `AuthD::User::Public`. -/
structure Public (J : Type) where
  login : String
  uid : Int
  profile : Option (Hash J)
  dateRegistration : Option Time
  deriving DecidableEq

/-- `AuthD::Token`. -/
structure Token where
  login : String
  uid : Int
  deriving DecidableEq

variable {J σ : Type}

namespace User

/-- `User#initialize`; `Contact#initialize` draws the activation key. -/
def new (uid : Int) (login passwordHash activationKey : String) : User J where
  uid := uid
  login := login
  passwordHash := passwordHash
  contact := { activationKey := some activationKey }

/-- `User#to_public`. -/
def toPublic (user : User J) : Public J where
  login := user.login
  uid := user.uid
  profile := user.profile
  dateRegistration := user.dateRegistration

/-- `User#to_token`. -/
def toToken (user : User J) : Token where
  login := user.login
  uid := user.uid

/-- The value under a key of the profile. -/
def profileValue (user : User J) (key : String) : Option J :=
  (user.profile.getD ∅).lookup key

/-- The level on a resource of a service, `None` where there is nothing. -/
def permission (user : User J) (service resource : String) : PermissionLevel :=
  match user.permissions.lookup service with
  | none => .none
  | some servicePermissions => (servicePermissions.lookup resource).getD .none

/-- A level is written for a resource; the level `None` deletes what is there. -/
def setLevel (levels : Hash PermissionLevel) (resource : String) (permission : PermissionLevel) :
    Hash PermissionLevel :=
  if permission = .none then levels.erase resource else levels.insert resource permission

/-- What `SetPermission` does to the user. -/
def setPermission (user : User J) (service resource : String) (permission : PermissionLevel) :
    User J :=
  let servicePermissions := (user.permissions.lookup service).getD ∅
  { user with
    permissions :=
      user.permissions.insert service (setLevel servicePermissions resource permission) }

/-- The key of the index on uids. -/
def uidKey (user : User J) : String := toString user.uid

end User

/-! ## The service -/

/-- `Baguette::Configuration::Auth`. -/
structure Configuration where
  sharedKey : String := "nico-nico-nii"
  registrations : Bool := false
  requireEmail : Bool := false
  activationTemplate : String := "email-activation"
  recoveryTemplate : String := "email-recovery"
  mailerExe : String := "mailer"
  readOnlyProfileKeys : List String := []
  deriving DecidableEq

/-- The libraries: the database, the digests, the tokens, JSON, the test of e-mail addresses and
regular expressions. `none` where a function raises an exception. -/
structure Platform (σ J : Type) where
  users : IndexedTable σ (User J) String String
  sha256 : String → String
  /-- `JWT.decode`, of a text under a key. -/
  jwtDecode : String → String → Option J
  jwtEncode : Token → String → String
  /-- `JSON::Any#[]`. -/
  index : J → String → Option J
  asS : J → Option String
  asI : J → Option Int
  isNull : J → Bool
  beq : J → J → Bool
  /-- Grok finds an `EMAILADDRESS`. -/
  isEmail : String → Bool
  /-- `Regex.new` without regard to case. -/
  regex : String → Option (String → Bool)

/-- The database, and what was last written to `last_used_uid`. -/
structure Service (σ : Type) where
  users : σ
  lastUid : Option Int

/-- What the system answers while one request is handled. -/
structure Env where
  /-- `Time.local`. -/
  now : Time
  /-- `UUID.random`. -/
  uuid : String
  /-- The number that is read in `last_used_uid`; `none` where reading it raises. -/
  readUid : Option Int
  /-- `Process.run`, given the program, its arguments and its variables: whether it succeeds. -/
  run : String → List String → List (String × String) → Option Bool

/-- The user a request names, `Int32 | String`. -/
inductive UserId where
  | uid (uid : Int)
  | login (login : String)
  deriving DecidableEq

/-- `to_s`. -/
def UserId.toS : UserId → String
  | uid u => toString u
  | login l => l

/-- The identifier is the uid or the login of the user. -/
def UserId.Names (id : UserId) (user : User J) : Prop :=
  match id with
  | uid u => user.uid = u
  | login l => user.login = l

/-- Crystal's `==` on `JSON::Any?`: a null is equal to nothing at all. -/
def Platform.sameValue (p : Platform σ J) : Option J → Option J → Bool
  | none, none => true
  | none, some v => p.isNull v
  | some v, none => p.isNull v
  | some v, some w => p.beq v w

/-- `Token.from_s`. -/
def Token.fromS (p : Platform σ J) (key text : String) : Option Token := do
  let payload ← p.jwtDecode text key
  let login ← p.index payload "login"
  let uid ← p.index payload "uid"
  return { login := ← p.asS login, uid := ← p.asI uid }

/-- `AuthD::Service#hash_password`. -/
def Platform.hashPassword (p : Platform σ J) (password : String) : String := p.sha256 password

/-- `AuthD::Service#new_uid`; `none` where the increment overflows. -/
def newUid (env : Env) : Option Int :=
  let uid := env.readUid.getD 999
  if uid + 1 ≤ 2147483647 then some (uid + 1) else none

/-- The user that an `Int32 | String` names, by the index of its type. -/
def Platform.find (p : Platform σ J) (s : Service σ) : UserId → Option (User J)
  | .uid u => p.users.get₁ s.users (toString u)
  | .login l => p.users.get₂ s.users l

/-! ## What the indexes find -/

theorem toString_int_inj {a b : Int} (h : toString a = toString b) : a = b := by
  -- The digits of a number are read back, and none of them is a minus sign.
  have hdigits : ∀ {m n : Nat}, m.repr = n.repr → m = n := by
    intro m n hrepr
    have htoDigits := congrArg String.toList hrepr
    rw [Nat.toList_repr, Nat.toList_repr] at htoDigits
    rw [← @Nat.ofDigitChars_ten_toDigits m, htoDigits, Nat.ofDigitChars_ten_toDigits]
  have hminus : ∀ {m n : Nat}, m.repr ≠ "-" ++ n.repr := by
    intro m n hrepr
    have hmem : '-' ∈ Nat.toDigits 10 m := by
      rw [← Nat.toList_repr, hrepr, String.toList_append]
      exact List.mem_append_left _ (by simp)
    exact absurd (Nat.isDigit_of_mem_toDigits (by decide) (by decide) hmem) (by decide)
  cases a with
  | ofNat m =>
    cases b with
    | ofNat n => exact congrArg Int.ofNat (hdigits h)
    | negSucc n => exact absurd h hminus
  | negSucc m =>
    cases b with
    | ofNat n => exact absurd h.symm hminus
    | negSucc n =>
      have hlist := congrArg String.toList h
      have happend : ("-" ++ (m + 1).repr).toList = ("-" ++ (n + 1).repr).toList := hlist
      rw [String.toList_append, String.toList_append] at happend
      have hrepr := String.toList_inj.mp (List.append_cancel_left happend)
      rw [Nat.succ.inj (hdigits hrepr)]

theorem uidKey_eq_iff {a b : User J} : a.uidKey = b.uidKey ↔ a.uid = b.uid :=
  ⟨toString_int_inj, congrArg toString⟩

/-- The indexes are consistent with the users. -/
abbrev Platform.Consistent (p : Platform σ J) (s : Service σ) : Prop :=
  p.users.Consistent User.uidKey User.login s.users

/-- The database is a map with two unique indexes. -/
abbrev Platform.LawfulStore (p : Platform σ J) : Prop :=
  p.users.Lawful User.uidKey User.login

section
variable {p : Platform σ J} {s : Service σ} {user : User J}

theorem find_iff (h : p.Consistent s) {id : UserId} :
    p.find s id = some user ↔ user ∈ p.users.values s.users ∧ id.Names user := by
  cases id with
  | uid uid =>
    show p.users.get₁ s.users (toString uid) = some user ↔ _ ∧ user.uid = uid
    rw [h.get₁_iff]
    constructor
    · intro hmem
      exact ⟨hmem.1, toString_int_inj hmem.2⟩
    · intro hmem
      exact ⟨hmem.1, congrArg _ hmem.2⟩
  | login login => exact h.get₂_iff

theorem mem_of_find (h : p.Consistent s) {id : UserId} (hfind : p.find s id = some user) :
    user ∈ p.users.values s.users :=
  ((find_iff h).mp hfind).1

theorem UserId.Names.of_keeps {id : UserId} {user' : User J}
    (hkeeps : user'.uid = user.uid ∧ user'.login = user.login) (h : id.Names user) :
    id.Names user' := by
  cases id with
  | uid uid => exact hkeeps.1.trans h
  | login login => exact hkeeps.2.trans h

end

/-! ## Permissions -/

theorem lookup_setLevel (levels : Hash PermissionLevel) (resource : String)
    (permission : PermissionLevel) (resource' : String) :
    ((User.setLevel levels resource permission).lookup resource').getD .none =
      if resource' = resource then permission else (levels.lookup resource').getD .none := by
  rw [User.setLevel]
  by_cases hresource : resource' = resource
  · subst hresource
    rw [if_pos rfl]
    split
    · rename_i hnone
      rw [AList.lookup_erase, hnone, Option.getD_none]
    · rw [AList.lookup_insert, Option.getD_some]
  · rw [if_neg hresource]
    split
    · rw [AList.lookup_erase_ne hresource]
    · rw [AList.lookup_insert_ne hresource]

theorem permission_eq (user : User J) (service resource : String) :
    user.permission service resource =
      (((user.permissions.lookup service).getD ∅).lookup resource).getD .none := by
  rw [User.permission]
  cases user.permissions.lookup service with
  | none => rfl
  | some servicePermissions => rfl

theorem permission_setPermission (user : User J) (service resource : String)
    (permission : PermissionLevel) (service' resource' : String) :
    (user.setPermission service resource permission).permission service' resource' =
      if service' = service ∧ resource' = resource then permission
      else user.permission service' resource' := by
  rw [permission_eq, permission_eq, User.setPermission]
  by_cases hservice : service' = service
  · subst hservice
    rw [AList.lookup_insert, Option.getD_some, lookup_setLevel]
    simp only [true_and]
  · rw [AList.lookup_insert_ne hservice, if_neg fun h => hservice h.1]

/-! ## A platform in memory -/

/-- The JSON values of the profiles and tokens below. -/
inductive Json where
  | null
  | int (i : Int)
  | string (s : String)
  | payload (login : String) (uid : Int)
  deriving DecidableEq

/-- The token of Alice, under the default key. -/
def aliceToken : String :=
  "eyJ0eXAiOiJKV1QiLCJhbGciOiJIUzI1NiJ9.eyJsb2dpbiI6ImFsaWNlIiwidWlkIjoxMDAwfQ." ++
    "O6oLwiBP1TH03ZXYcxw31h7w_eVrSGyO0wfgQJyhLLY"

/-- Users in a list, one password and one token. -/
def inMemory : Platform (List (User Json)) Json where
  users := IndexedTable.listTable User.uidKey User.login
  sha256 password :=
    if password = "secret" then "2bb80d537b1da3e38bd30361aa855686bde0eacd7162fef6a25fe97bf527a25b"
    else ""
  jwtDecode text key :=
    if text = aliceToken ∧ key = "nico-nico-nii" then some (.payload "alice" 1000) else none
  jwtEncode _ _ := aliceToken
  index value field :=
    match value, field with
    | .payload login _, "login" => some (.string login)
    | .payload _ uid, "uid" => some (.int uid)
    | _, _ => none
  asS
    | .string s => some s
    | _ => none
  asI
    | .int i => some i
    | _ => none
  isNull value := value = .null
  beq v w := v = w
  isEmail email := email = "alice@localhost.local"
  regex text := some fun login => login = text

theorem lawful_inMemory : inMemory.LawfulStore :=
  IndexedTable.lawful_list User.uidKey User.login

/-- The first user that registers. -/
def alice : User Json :=
  { (User.new 1000 "alice" (inMemory.hashPassword "secret") "3e5d2a1c" : User Json) with
    profile := some ((∅ : Hash Json).insert "quota" (.int 5)) }

/-- Alice is alone, and the mailer succeeds. -/
def aliceAlone : Service (List (User Json)) where
  users := [alice]
  lastUid := some 1000

def quietEnv : Env where
  now := 0
  uuid := "9b1f7c44"
  readUid := some 1000
  run _ _ _ := some true

theorem consistent_aliceAlone : inMemory.Consistent aliceAlone :=
  IndexedTable.consistent_list (List.nodup_singleton _) (List.nodup_singleton _)

end LibIpc.Authd

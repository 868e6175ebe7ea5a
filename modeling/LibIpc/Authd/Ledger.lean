import Mathlib.Logic.Function.Basic
import LibIpc.Authd.Identities

/-!
# authd: the ledger of credentials

Whoever reads each request with its response can keep a ledger of what the users are known by:
their login, the digest of their password, their address and the keys that were sent to them.
`settle` is what one exchange does to it. `Opens` says, of the ledger alone, to whom a request is
granted. `handle_decision` says that the handlers decide so and that the users stored are those of
the ledger after it.
-/

namespace LibIpc.Authd

open Lib

variable {J σ : Type}

/-- What a user is known by. -/
structure Credentials where
  login : String
  passwordHash : String
  email : Option String
  passwordRenewKey : Option String := none
  activationKey : Option String
  deriving DecidableEq

def User.credentials (user : User J) : Credentials where
  login := user.login
  passwordHash := user.passwordHash
  email := user.contact.email
  passwordRenewKey := user.passwordRenewKey
  activationKey := user.contact.activationKey

/-- The credentials under each uid. -/
abbrev Ledger := Int → Option Credentials

/-- The ledger of the users stored. -/
def Platform.ledger (p : Platform σ J) (s : Service σ) : Ledger :=
  fun uid => (p.find s (.uid uid)).map User.credentials

/-- The identifier is this uid, or the login of these credentials. -/
def UserId.Matches (id : UserId) (uid : Int) (c : Credentials) : Prop :=
  match id with
  | .uid u => uid = u
  | .login l => c.login = l

instance (id : UserId) (uid : Int) (c : Credentials) : Decidable (id.Matches uid c) :=
  match id with
  | .uid u => inferInstanceAs (Decidable (uid = u))
  | .login l => inferInstanceAs (Decidable (c.login = l))

/-- The text is a token for this uid. -/
def TokenOf (p : Platform σ J) (config : Configuration) (text : String) (uid : Int) : Prop :=
  ∃ payload, Token.fromS p config.sharedKey text = some payload ∧ uid = payload.uid

/-! ## What the ledger says -/

section
variable (p : Platform σ J) (config : Configuration) (env : Env)

namespace Request

/-- What lets a client delete these credentials. -/
def Delete.Allows (r : Delete) (c : Credentials) : Prop :=
  match r.sharedKey with
  | some key => key = config.sharedKey
  | none => r.login = some c.login ∧
      ∃ pass, r.password = some pass ∧ p.hashPassword pass = c.passwordHash

/-- A token comes with the shared key or with no key. -/
def CheckPermission.Allows (r : CheckPermission) (uid : Int) : Prop :=
  match r.token with
  | none => r.sharedKey = some config.sharedKey
  | some text => (∀ key, r.sharedKey = some key → key = config.sharedKey) ∧
      TokenOf p config text uid

/-- The user of the token, or the one that is named under the shared key. -/
def EditProfileContent.Names (r : EditProfileContent J) (uid : Int) (c : Credentials) : Prop :=
  match r.token with
  | some text => TokenOf p config text uid
  | none => r.sharedKey = some config.sharedKey ∧ ∃ id, r.user = some id ∧ id.Matches uid c

/-- The credentials under this uid are those that the request has to be granted. -/
def Opens (uid : Int) (c : Credentials) : Request J → Prop
  | .getToken r => c.login = r.login ∧ p.hashPassword r.password = c.passwordHash
  | .validateUser r => c.login = r.login ∧ c.activationKey = some r.activationKey
  | .getUser r => r.user.Matches uid c
  | .getUserByCredentials r => c.login = r.login ∧ p.hashPassword r.password = c.passwordHash
  | .modUser r => r.user.Matches uid c ∧ r.sharedKey = config.sharedKey
  | .updatePassword r => c.login = r.login ∧ p.hashPassword r.oldPassword = c.passwordHash
  | .checkPermission r => r.user.Matches uid c ∧ r.Allows p config uid
  | .setPermission r => r.user.toS = toString uid ∧ r.sharedKey = config.sharedKey
  | .passwordRecovery r => r.user.Matches uid c ∧ c.passwordRenewKey = some r.passwordRenewKey
  | .askPasswordRecovery r => r.user.Matches uid c ∧ c.email = some r.email
  | .editProfileContent r => r.Names p config uid c ∧
      (r.sharedKey = none → ∀ key ∈ config.readOnlyProfileKeys, r.newProfile.lookup key = none)
  | .editContacts r => TokenOf p config r.token uid
  | .delete r => r.user.Matches uid c ∧ r.Allows p config c
  | .getContacts r => TokenOf p config r.token uid
  | _ => False

/-- What becomes of the credentials of the user to whom the request is granted. -/
def amend (c : Credentials) : Request J → Option Credentials
  | .validateUser _ => some { c with activationKey := none }
  | .modUser r => some
      { c with
        passwordHash := (r.password.map p.hashPassword).getD c.passwordHash
        email := r.email.or c.email }
  | .updatePassword r => some { c with passwordHash := p.hashPassword r.newPassword }
  | .passwordRecovery r => some
      { c with passwordHash := p.hashPassword r.newPassword, passwordRenewKey := none }
  | .askPasswordRecovery _ => some { c with passwordRenewKey := some env.uuid }
  | .editContacts r => some { c with email := r.email.or c.email }
  | .delete _ => none
  | _ => some c

/-- The credentials of the user that is added. -/
def enter : Request J → Option Credentials
  | .addUser r => some
      { login := r.login
        passwordHash := p.hashPassword r.password
        email := r.email
        activationKey := some env.uuid }
  | .register r => some
      { login := r.login
        passwordHash := p.hashPassword r.password
        email := r.email
        activationKey := some env.uuid }
  | _ => none

end Request

/-- The user to whom a request was granted, as the response has it. -/
def Response.granted : Response J → Option Int
  | .token _ uid => some uid
  | .user u => some u.uid
  | .userEdited uid => some uid
  | .userValidated u => some u.uid
  | .permissionCheck _ _ uid _ => some uid
  | .permissionSet uid _ _ _ => some uid
  | .passwordRecoverySent u => some u.uid
  | .passwordRecovered u => some u.uid
  | .contacts uid _ _ => some uid
  | _ => none

/-- The reason of an error. -/
def Response.reason : Response J → Option String
  | .error reason => some reason
  | _ => none

/-- A request, what the system answered while it was handled, and the response. -/
structure Exchange (J : Type) where
  env : Env
  request : Request J
  response : Response J

/-- A request is entered that was granted to a user, or has added one. -/
def settleGranted (ledger : Ledger) (env : Env) (request : Request J) (response : Response J) :
    Ledger :=
  match response.added, response.granted with
  | some user, _ => Function.update ledger user.uid (request.enter p env)
  | none, some uid =>
    Function.update ledger uid ((ledger uid).bind fun c => request.amend p env c)
  | none, none => ledger

/-- One exchange is entered in the ledger. A key to a new password is drawn whether the mail is
sent or not, so that the response says only that there was a user. -/
def settle (ledger : Ledger) (x : Exchange J) : Ledger :=
  match x.request with
  | .askPasswordRecovery r =>
    if x.response.reason = some "no such user" then ledger
    else fun uid => (ledger uid).bind fun c =>
      if r.user.Matches uid c then x.request.amend p x.env c else some c
  | _ => settleGranted p ledger x.env x.request x.response

end

section
variable {p : Platform σ J} {config : Configuration} {env : Env} {s : Service σ} {users : σ}
  {request : Request J} {user user' : User J} {uid : Int} {c : Credentials}

/-! ## The users stored -/

theorem ledger_eq_some_iff (h : p.Consistent s) :
    p.ledger s uid = some c ↔
      ∃ user ∈ p.users.values s.users, user.uid = uid ∧ user.credentials = c := by
  rw [Platform.ledger, Option.map_eq_some_iff]
  constructor
  · intro hfound
    obtain ⟨user, hfind, hcredentials⟩ := hfound
    obtain ⟨hmem, huid⟩ := (find_iff h).mp hfind
    exact ⟨user, hmem, huid, hcredentials⟩
  · intro hstored
    obtain ⟨user, hmem, huid, hcredentials⟩ := hstored
    exact ⟨user, (find_iff h).mpr ⟨hmem, huid⟩, hcredentials⟩

theorem ledger_of_mem (h : p.Consistent s) (hmem : user ∈ p.users.values s.users) :
    p.ledger s user.uid = some user.credentials :=
  (ledger_eq_some_iff h).mpr ⟨user, hmem, rfl, rfl⟩

/-- What is read under a uid, once the index on uids is that of an updated map. -/
theorem ledger_eq_update {found : Option (User J)} {lastUid : Option Int}
    (hindex : ∀ k, p.users.get₁ users k = if k = user.uidKey then found
      else p.users.get₁ s.users k) :
    p.ledger { users, lastUid } =
      Function.update (p.ledger s) user.uid (found.map User.credentials) := by
  funext uid
  show (p.users.get₁ users (toString uid)).map User.credentials = _
  rw [hindex]
  by_cases huid : uid = user.uid
  · subst huid
    rw [if_pos (show toString user.uid = user.uidKey from rfl), Function.update_self]
  · have hkey : toString uid ≠ user.uidKey := fun hkey => huid (toString_int_inj hkey)
    rw [if_neg hkey, Function.update_of_ne huid]
    rfl

theorem ledger_replaced (h : p.Consistent s) (h' : p.Consistent { s with users })
    (hkeeps : user'.uid = user.uid ∧ user'.login = user.login)
    (hreplaced : p.users.Replaced user user' s.users users) :
    p.ledger { s with users } =
      Function.update (p.ledger s) user.uid (some user'.credentials) :=
  ledger_eq_update fun _ =>
    IndexedTable.get₁_replaced h h' (uidKey_eq_iff.mpr hkeeps.1) hreplaced

theorem ledger_deleted (h : p.Consistent s) (h' : p.Consistent { s with users })
    (hmem : user ∈ p.users.values s.users)
    (hrest : ∀ other, other ∈ p.users.values users ↔
      other ∈ p.users.values s.users ∧ other ≠ user) :
    p.ledger { s with users } = Function.update (p.ledger s) user.uid none :=
  ledger_eq_update fun _ => IndexedTable.get₁_deleted h h' hmem hrest

theorem ledger_added (h : p.Consistent s) {lastUid : Option Int}
    (h' : p.Consistent { users, lastUid })
    (hmem : ∀ other, other ∈ p.users.values users ↔
      other = user ∨ other ∈ p.users.values s.users) :
    p.ledger { users, lastUid } =
      Function.update (p.ledger s) user.uid (some user.credentials) :=
  ledger_eq_update fun _ => IndexedTable.get₁_added h h' hmem

end

section
variable (p : Platform σ J) (env : Env) (s : Service σ)

/-! ## What a handler decides -/

/-- The request is granted to this user, whose credentials are written anew. -/
structure Granted (request : Request J) (user : User J) (outcome : Outcome σ J) : Prop where
  response : (respond outcome.1).granted = some user.uid
  ledger : p.ledger outcome.2 =
    Function.update (p.ledger s) user.uid (request.amend p env user.credentials)

/-- The request is granted to nobody. -/
structure Refused (outcome : Outcome σ J) : Prop where
  response : (respond outcome.1).granted = none
  added : (respond outcome.1).added = none
  service : outcome.2 = s

/-- The request is granted to the one user whom it has to be granted to, or there is no such
user. -/
inductive Decision (request : Request J) (opens : User J → Prop) (outcome : Outcome σ J) : Prop
  | granted (user : User J)
      (only : ∀ other, (other ∈ p.users.values s.users ∧ opens other) ↔ other = user)
      (effect : Granted p env s request user outcome)
  | refused (none : ∀ user ∈ p.users.values s.users, ¬ opens user)
      (effect : Refused s outcome)

end

section
variable {p : Platform σ J} {config : Configuration} {env : Env} {s : Service σ}
  {request : Request J} {user user' : User J}

theorem refused_refuse (reason : String) : Refused s (refuse s reason : Outcome σ J) :=
  ⟨rfl, rfl, rfl⟩

theorem refused_raise (e : Raised) : Refused s (raise s e : Outcome σ J) := by
  cases e with
  | userNotFound => exact ⟨rfl, rfl, rfl⟩
  | authenticationInfoLacking => exact ⟨rfl, rfl, rfl⟩
  | adminAuthorization => exact ⟨rfl, rfl, rfl⟩
  | other => exact ⟨rfl, rfl, rfl⟩

/-- A request that only reads. -/
theorem granted_read (h : p.Consistent s) (hmem : user ∈ p.users.values s.users)
    {response : Response J} (hgranted : response.granted = some user.uid)
    (hamend : request.amend p env user.credentials = some user.credentials) :
    Granted p env s request user (.ok response, s) := by
  refine ⟨hgranted, ?_⟩
  rw [hamend, ← ledger_of_mem h hmem]
  exact (Function.update_eq_self user.uid (p.ledger s)).symm

theorem granted_updating (hT : p.LawfulStore) (h : p.Consistent s)
    (hmem : user ∈ p.users.values s.users)
    (hkeeps : user'.uid = user.uid ∧ user'.login = user.login)
    {response : Response J} (hgranted : response.granted = some user.uid)
    (hamend : request.amend p env user.credentials = some user'.credentials) :
    Granted p env s request user (updating p s user' (.ok response)) := by
  obtain ⟨users, hupdating, hconsistent, hreplaced⟩ :=
    updating_replaces hT h hmem hkeeps (.ok response)
  rw [hupdating]
  refine ⟨hgranted, ?_⟩
  rw [hamend]
  exact ledger_replaced h hconsistent hkeeps hreplaced

/-- A handler looks a user up, and then tests something of that user. -/
theorem Decision.of_found {opens named test : User J → Prop} {found : Option (User J)}
    {outcome : Outcome σ J}
    (hopens : ∀ user, opens user ↔ named user ∧ test user)
    (hfound : ∀ user, found = some user ↔ user ∈ p.users.values s.users ∧ named user)
    (hnone : found = none → Refused s outcome)
    (hsome : ∀ user, found = some user → user ∈ p.users.values s.users →
      (test user → Granted p env s request user outcome) ∧ (¬ test user → Refused s outcome)) :
    Decision p env s request opens outcome := by
  cases hcase : found with
  | none =>
    apply Decision.refused _ (hnone hcase)
    intro user hmem hopen
    rw [(hfound user).mpr ⟨hmem, ((hopens user).mp hopen).1⟩] at hcase
    cases hcase
  | some user =>
    obtain ⟨hmem, hnamed⟩ := (hfound user).mp hcase
    -- Whoever is named is the user found.
    have hone : ∀ other ∈ p.users.values s.users, opens other → other = user := by
      intro other hother hopen
      rw [(hfound other).mpr ⟨hother, ((hopens other).mp hopen).1⟩] at hcase
      exact Option.some.inj hcase
    by_cases htest : test user
    · apply Decision.granted user _ ((hsome user hcase hmem).1 htest)
      intro other
      constructor
      · intro hother
        exact hone other hother.1 hother.2
      · rintro rfl
        exact ⟨hmem, (hopens other).mpr ⟨hnamed, htest⟩⟩
    · apply Decision.refused _ ((hsome user hcase hmem).2 htest)
      intro other hother hopen
      rw [hone other hother hopen] at hopen
      exact htest ((hopens user).mp hopen).2

/-- A handler looks up the user of a token first. -/
theorem Decision.of_token {opens test : User J → Prop} {token : String} {outcome : Outcome σ J}
    (h : p.Consistent s)
    (hopens : ∀ user, opens user ↔ TokenOf p config token user.uid ∧ test user)
    (hnone : ∀ e, getUserFromToken p config s token = .error e → Refused s outcome)
    (hunknown : getUserFromToken p config s token = .ok none → Refused s outcome)
    (hsome : ∀ user, getUserFromToken p config s token = .ok (some user) →
      user ∈ p.users.values s.users →
      (test user → Granted p env s request user outcome) ∧ (¬ test user → Refused s outcome)) :
    Decision p env s request opens outcome := by
  cases hpayload : Token.fromS p config.sharedKey token with
  | none =>
    have herror : getUserFromToken p config s token = .error .other := by
      rw [getUserFromToken, hpayload]
    apply Decision.refused _ (hnone _ herror)
    intro user hmem hopen
    obtain ⟨payload, hdecoded, -⟩ := ((hopens user).mp hopen).1
    rw [hpayload] at hdecoded
    cases hdecoded
  | some payload =>
    have hget : getUserFromToken p config s token = .ok (p.find s (.uid payload.uid)) := by
      rw [getUserFromToken, hpayload]
      rfl
    have hnamed : ∀ user : User J, TokenOf p config token user.uid ↔
        (UserId.uid payload.uid).Names user := by
      intro user
      constructor
      · intro hof
        obtain ⟨payload', hdecoded, huid⟩ := hof
        rw [hpayload, Option.some.injEq] at hdecoded
        rw [hdecoded]
        exact huid
      · intro huid
        exact ⟨payload, hpayload, huid⟩
    have hfound : ∀ user, p.find s (.uid payload.uid) = some user ↔
        user ∈ p.users.values s.users ∧ TokenOf p config token user.uid := by
      intro user
      rw [find_iff h, hnamed]
    apply Decision.of_found hopens hfound
    · intro hfind
      rw [hfind] at hget
      exact hunknown hget
    · intro user hfind hmem
      rw [hfind] at hget
      exact hsome user hget hmem

end

end LibIpc.Authd

import LibIpc.Authd.User

/-!
# authd: the requests and their handlers (`authd/requests/*.cr`, `handle_request`)

The nineteen requests that `AuthD.requests` registers, with the fields their handlers read, and
what each handler does to the service. A handler answers or raises an exception, and either leaves
the service it has written to so far: `AskPasswordRecovery` raises after it has stored the key.
`handleRequest` turns the exceptions into responses.
-/

namespace LibIpc.Authd

open Lib

variable {J σ : Type}

/-! ## Requests -/

namespace Request

structure GetToken where
  login : String
  password : String

structure AddUser (J : Type) where
  sharedKey : String
  login : String
  password : String
  email : Option String := none
  phone : Option String := none
  profile : Option (Hash J) := none

structure ValidateUser where
  login : String
  activationKey : String

structure GetUser where
  user : UserId

structure GetUserByCredentials where
  login : String
  password : String

structure ModUser where
  sharedKey : String
  user : UserId
  password : Option String := none
  email : Option String := none
  phone : Option String := none

structure Register (J : Type) where
  login : String
  password : String
  email : Option String := none
  phone : Option String := none
  profile : Option (Hash J) := none

structure UpdatePassword where
  login : String
  oldPassword : String
  newPassword : String

structure ListUsers where
  token : Option String := none
  key : Option String := none

structure CheckPermission where
  sharedKey : Option String := none
  token : Option String := none
  user : UserId
  service : String
  resource : String

structure SetPermission where
  sharedKey : String
  user : UserId
  service : String
  resource : String
  permission : PermissionLevel

structure PasswordRecovery where
  user : UserId
  passwordRenewKey : String
  newPassword : String

structure AskPasswordRecovery where
  user : UserId
  email : String

structure SearchUser where
  user : String

structure EditProfile (J : Type) where
  token : String
  newProfile : Hash J

structure EditProfileContent (J : Type) where
  token : Option String := none
  sharedKey : Option String := none
  user : Option UserId := none
  newProfile : Hash J

structure EditContacts where
  token : String
  email : Option String := none

structure Delete where
  sharedKey : Option String := none
  login : Option String := none
  password : Option String := none
  user : UserId

structure GetContacts where
  token : String

end Request

/-- A request of a registered type. -/
inductive Request (J : Type) where
  | getToken (r : Request.GetToken)
  | addUser (r : Request.AddUser J)
  | validateUser (r : Request.ValidateUser)
  | getUser (r : Request.GetUser)
  | getUserByCredentials (r : Request.GetUserByCredentials)
  | modUser (r : Request.ModUser)
  | register (r : Request.Register J)
  | updatePassword (r : Request.UpdatePassword)
  | listUsers (r : Request.ListUsers)
  | checkPermission (r : Request.CheckPermission)
  | setPermission (r : Request.SetPermission)
  | passwordRecovery (r : Request.PasswordRecovery)
  | askPasswordRecovery (r : Request.AskPasswordRecovery)
  | searchUser (r : Request.SearchUser)
  | editProfile (r : Request.EditProfile J)
  | editProfileContent (r : Request.EditProfileContent J)
  | editContacts (r : Request.EditContacts)
  | delete (r : Request.Delete)
  | getContacts (r : Request.GetContacts)

inductive Response (J : Type) where
  | error (reason : String)
  | token (token : String) (uid : Int)
  | user (user : Public J)
  | userAdded (user : Public J)
  | userEdited (uid : Int)
  | userValidated (user : Public J)
  | usersList (users : List (Public J))
  | permissionCheck (service resource : String) (user : Int) (permission : PermissionLevel)
  | permissionSet (user : Int) (service resource : String) (permission : PermissionLevel)
  | passwordRecoverySent (user : Public J)
  | passwordRecovered (user : Public J)
  | matchingUsers (users : List (Public J))
  | contacts (user : Int) (email phone : Option String)
  deriving DecidableEq

/-- The exceptions that `handle_request` tells apart; `other` is any other one. -/
inductive Raised where
  | userNotFound
  | authenticationInfoLacking
  | adminAuthorization
  | other
  deriving DecidableEq

/-- What a handler comes to, and the service it leaves. -/
abbrev Outcome (σ J : Type) := Except Raised (Response J) × Service σ

section
variable (p : Platform σ J) (config : Configuration) (env : Env) (s : Service σ)

/-! ## What the handlers share -/

/-- `return Response::Error.new reason`. -/
def refuse (reason : String) : Outcome σ J := (.ok (.error reason), s)

def raise (e : Raised) : Outcome σ J := (.error e, s)

/-- `authd.users_per_uid.update user.uid.to_s, user`, and what the handler comes to after it. -/
def updating (user : User J) (result : Except Raised (Response J)) : Outcome σ J :=
  match p.users.update s.users user.uidKey user with
  | none => raise s .other
  | some users => (result, { s with users })

/-- `authd.users << user` and `authd.new_uid_commit uid`. -/
def adding (user : User J) : Outcome σ J :=
  match p.users.add s.users user with
  | none => raise s .other
  | some users => (.ok (.userAdded user.toPublic), { users, lastUid := some user.uid })

/-- `AuthD::Service#get_user_from_token`. -/
def getUserFromToken (token : String) : Except Raised (Option (User J)) :=
  match Token.fromS p config.sharedKey token with
  | none => .error .other
  | some payload => .ok (p.users.get₁ s.users (toString payload.uid))

/-- The mailer is run for a user, with a template and a key; `none` where that raises. -/
def mail (template login : String) (email key : Option String) : Option Bool :=
  match email, key with
  | some email, some key =>
    env.run config.mailerExe ["send", template, email] [("LOGIN", login), ("TOKEN", key)]
  | _, _ => none

/-- The user that `AddUser` and `Register` make. -/
def newUser (uid : Int) (login password : String) (email phone : Option String)
    (profile : Option (Hash J)) : User J :=
  let user : User J := User.new uid login (p.hashPassword password) env.uuid
  { user with
    contact := { user.contact with email := email, phone := phone }
    profile := profile
    dateRegistration := some env.now }

/-- `@new_profile.each do |key, value| new_profile[key] = value end`. -/
def mergeProfile (profile newProfile : Hash J) : Hash J :=
  newProfile.entries.foldl (fun merged entry => merged.insert entry.1 entry.2) profile

namespace Request

/-! ## `token.cr`, `users.cr` -/

def GetToken.handle (r : GetToken) : Outcome σ J :=
  match p.users.get₂ s.users r.login with
  | none => refuse s "invalid credentials"
  | some user =>
    if user.passwordHash ≠ p.hashPassword r.password then refuse s "invalid credentials"
    else
      updating p s { user with dateLastConnection := some env.now }
        (.ok (.token (p.jwtEncode user.toToken config.sharedKey) user.uid))

def ValidateUser.handle (r : ValidateUser) : Outcome σ J :=
  match p.users.get₂ s.users r.login with
  | none => refuse s "user not found"
  | some user =>
    if user.contact.activationKey = none then refuse s "user already validated"
    else if user.contact.activationKey = some r.activationKey then
      updating p s { user with contact := { user.contact with activationKey := none } }
        (.ok (.userValidated user.toPublic))
    else refuse s "wrong activation key"

def GetUser.handle (r : GetUser) : Outcome σ J :=
  match p.find s r.user with
  | none => refuse s "user not found"
  | some user => (.ok (.user user.toPublic), s)

def GetUserByCredentials.handle (r : GetUserByCredentials) : Outcome σ J :=
  match p.users.get₂ s.users r.login with
  | none => refuse s "invalid credentials"
  | some user =>
    if p.hashPassword r.password ≠ user.passwordHash then refuse s "invalid credentials"
    else
      updating p s { user with dateLastConnection := some env.now }
        (.ok (.user user.toPublic))

/-! ## `admin.cr`, `register.cr`, `delete.cr` -/

def AddUser.handle (r : AddUser J) : Outcome σ J :=
  if r.sharedKey ≠ config.sharedKey then refuse s "invalid authentication key"
  else if (p.users.get₂ s.users r.login).isSome then refuse s "login already used"
  else if config.requireEmail ∧ r.email = none then refuse s "email required"
  else
    match newUid env with
    | none => raise s .other
    | some uid => adding p s (newUser p env uid r.login r.password r.email r.phone r.profile)

/-- What `ModUser` writes. -/
def ModUser.modify (r : ModUser) (user : User J) : User J :=
  { user with
    passwordHash := (r.password.map p.hashPassword).getD user.passwordHash
    contact :=
      { user.contact with
        email := r.email.or user.contact.email
        phone := r.phone.or user.contact.phone } }

def ModUser.handle (r : ModUser) : Outcome σ J :=
  if r.sharedKey ≠ config.sharedKey then refuse s "invalid authentication key"
  else
    match p.find s r.user with
    | none => refuse s "user not found"
    | some user => updating p s (r.modify p user) (.ok (.userEdited user.uid))

def Register.handle (r : Register J) : Outcome σ J :=
  if ¬ config.registrations then refuse s "registrations not allowed"
  else if (p.users.get₂ s.users r.login).isSome then refuse s "login already used"
  else if config.requireEmail ∧ r.email = none then refuse s "email required"
  else if r.email.any fun email => ¬ p.isEmail email then refuse s "invalid email format"
  else if r.password.length < 4 then refuse s "password too short"
  else
    match newUid env with
    | none => raise s .other
    | some uid =>
      let user := newUser p env uid r.login r.password r.email r.phone r.profile
      -- Without an address, `not_nil!` raises where the failures of the mailer are rescued.
      if mail config env config.activationTemplate user.login user.contact.email
          user.contact.activationKey = some true then
        adding p s user
      else refuse s "cannot contact the user (not registered)"

/-- The credentials of a `Delete` are accepted for this user, or the request is refused. -/
def Delete.authenticate (r : Delete) (toDelete : User J) : Except String Unit :=
  match r.sharedKey with
  | some key =>
    if key = config.sharedKey then .ok () else .error "unauthorized (wrong shared key)"
  | none =>
    match r.login, r.password with
    | some login, some pass =>
      match p.users.get₂ s.users login with
      | none => .error "invalid credentials"
      | some user =>
        if user.passwordHash ≠ p.hashPassword pass then .error "invalid credentials"
        else if user.uid ≠ toDelete.uid then .error "invalid credentials"
        else .ok ()
    | _, _ => .error "authentication failed (no shared key, no login)"

def Delete.handle (r : Delete) : Outcome σ J :=
  match p.find s r.user with
  | none => refuse s "invalid user"
  | some toDelete =>
    match r.authenticate p config s toDelete with
    | .error reason => refuse s reason
    | .ok () =>
      match p.users.delete s.users toDelete.login with
      | none => raise s .other
      | some users => (.ok (.user toDelete.toPublic), { s with users })

/-! ## `password.cr` -/

def UpdatePassword.handle (r : UpdatePassword) : Outcome σ J :=
  match p.users.get₂ s.users r.login with
  | none => refuse s "invalid credentials"
  | some user =>
    if p.hashPassword r.oldPassword ≠ user.passwordHash then refuse s "invalid credentials"
    else
      updating p s { user with passwordHash := p.hashPassword r.newPassword }
        (.ok (.userEdited user.uid))

def PasswordRecovery.handle (r : PasswordRecovery) : Outcome σ J :=
  match p.find s r.user with
  | none => refuse s "user not found"
  | some user =>
    if user.passwordRenewKey = some r.passwordRenewKey then
      updating p s
        { user with passwordHash := p.hashPassword r.newPassword, passwordRenewKey := none }
        (.ok (.passwordRecovered user.toPublic))
    else refuse s "renew key not valid"

def AskPasswordRecovery.handle (r : AskPasswordRecovery) : Outcome σ J :=
  match p.find s r.user with
  | none => refuse s "no such user"
  | some user =>
    if user.contact.email ≠ some r.email then refuse s "no such user"
    else
      let user := { user with passwordRenewKey := some env.uuid }
      updating p s user
        (if mail config env config.recoveryTemplate user.login user.contact.email
            user.passwordRenewKey = some true then
          .ok (.passwordRecoverySent user.toPublic)
        else .error .other)

/-! ## `permissions.cr` -/

/-- The level of the user, once the request is authorized. -/
def CheckPermission.check (r : CheckPermission) : Outcome σ J :=
  match p.find s r.user with
  | none => refuse s "no such user"
  | some user =>
    (.ok (.permissionCheck r.service r.resource user.uid (user.permission r.service r.resource)), s)

def CheckPermission.handle (r : CheckPermission) : Outcome σ J :=
  if r.sharedKey.any fun key => key ≠ config.sharedKey then refuse s "invalid key provided"
  else
    match r.token with
    | none => if r.sharedKey = none then refuse s "unauthorized" else r.check p s
    | some token =>
      match getUserFromToken p config s token with
      | .error e => raise s e
      | .ok none => refuse s "token does not match user"
      | .ok (some user) =>
        if .login user.login ≠ r.user ∧ .uid user.uid ≠ r.user then
          refuse s "token does not match user"
        else r.check p s

/-- The identifier is looked up in the index on uids, whatever its type. -/
def SetPermission.handle (r : SetPermission) : Outcome σ J :=
  if r.sharedKey ≠ config.sharedKey then refuse s "unauthorized"
  else
    match p.users.get₁ s.users r.user.toS with
    | none => refuse s "no such user"
    | some user =>
      updating p s (user.setPermission r.service r.resource r.permission)
        (.ok (.permissionSet user.uid r.service r.resource r.permission))

/-! ## `profile.cr`, `contact.cr` -/

def EditProfile.handle (r : EditProfile J) : Outcome σ J :=
  match getUserFromToken p config s r.token with
  | .error e => raise s e
  | .ok none => refuse s "invalid user"
  | .ok (some user) =>
    if ∃ key ∈ config.readOnlyProfileKeys,
        p.sameValue (r.newProfile.lookup key) (user.profileValue key) = false then
      refuse s "tried to edit read only key"
    else
      let user := { user with profile := some r.newProfile }
      updating p s user (.ok (.user user.toPublic))

/-- The user whose profile is edited. The token comes first; the shared key is compared only where
there is no token. -/
def EditProfileContent.authenticate (r : EditProfileContent J) : Except Raised (User J) :=
  match r.token with
  | some token =>
    match getUserFromToken p config s token with
    | .error e => .error e
    | .ok none => .error .userNotFound
    | .ok (some user) => .ok user
  | none =>
    match r.sharedKey with
    | none => .error .authenticationInfoLacking
    | some key =>
      if key ≠ config.sharedKey then .error .adminAuthorization
      else
        match r.user.bind (p.find s) with
        | none => .error .userNotFound
        | some user => .ok user

/-- Read-only keys are looked for unless there is a shared key, whatever it is. -/
def EditProfileContent.handle (r : EditProfileContent J) : Outcome σ J :=
  match r.authenticate p config s with
  | .error e => raise s e
  | .ok user =>
    if r.sharedKey = none ∧
        ∃ key ∈ config.readOnlyProfileKeys, (r.newProfile.lookup key).isSome then
      refuse s "tried to edit read only key"
    else
      let user := { user with profile := some (mergeProfile (user.profile.getD ∅) r.newProfile) }
      updating p s user (.ok (.user user.toPublic))

def EditContacts.handle (r : EditContacts) : Outcome σ J :=
  match getUserFromToken p config s r.token with
  | .error e => raise s e
  | .ok none => refuse s "invalid user"
  | .ok (some user) =>
    updating p s
      { user with contact := { user.contact with email := r.email.or user.contact.email } }
      (.ok (.userEdited user.uid))

def GetContacts.handle (r : GetContacts) : Outcome σ J :=
  match getUserFromToken p config s r.token with
  | .error e => raise s e
  | .ok none => refuse s "invalid user"
  | .ok (some user) =>
    (.ok (.contacts user.uid user.contact.email user.contact.phone), s)

/-! ## `list.cr`, `search.cr` -/

/-- The shared key is tested where there is one, after the token. -/
def ListUsers.list (r : ListUsers) : Outcome σ J :=
  if r.key.any fun key => key ≠ config.sharedKey then refuse s "unauthorized (wrong shared key)"
  else if r.key = none ∧ r.token = none then refuse s "unauthorized (no key nor token)"
  else (.ok (.usersList ((p.users.values s.users).map User.toPublic)), s)

def ListUsers.handle (r : ListUsers) : Outcome σ J :=
  match r.token with
  | none => r.list p config s
  | some token =>
    match getUserFromToken p config s token with
    | .error e => raise s e
    | .ok none => refuse s "unauthorized (user not found from token)"
    | .ok (some user) =>
      match (user.permissions.lookup "authd").bind fun permissions => permissions.lookup "*" with
      | none => raise s .adminAuthorization
      | some rights =>
        if PermissionLevel.read.value ≤ rights.value then r.list p config s
        else raise s .adminAuthorization

/-- The login matches, or the full name of the profile; `none` where this is not a string. -/
def SearchUser.matched (pattern : String → Bool) (user : User J) : Option Bool :=
  if pattern user.login then some true
  else
    match user.profileValue "full_name" with
    | none => some false
    | some fullName => (p.asS fullName).map pattern

def SearchUser.search (pattern : String → Bool) : List (User J) → Option (List (Public J))
  | [] => some []
  | user :: users => do
    let found ← matched p pattern user
    let others ← search pattern users
    return if found then user.toPublic :: others else others

def SearchUser.handle (r : SearchUser) : Outcome σ J :=
  match p.regex r.user with
  | none => raise s .other
  | some pattern =>
    match search p pattern (p.users.values s.users) with
    | none => raise s .other
    | some users => (.ok (.matchingUsers users), s)

/-! ## `handle_request` -/

/-- `request.handle self`. -/
def handle : Request J → Outcome σ J
  | .getToken r => r.handle p config env s
  | .addUser r => r.handle p config env s
  | .validateUser r => r.handle p s
  | .getUser r => r.handle p s
  | .getUserByCredentials r => r.handle p env s
  | .modUser r => r.handle p config s
  | .register r => r.handle p config env s
  | .updatePassword r => r.handle p s
  | .listUsers r => r.handle p config s
  | .checkPermission r => r.handle p config s
  | .setPermission r => r.handle p config s
  | .passwordRecovery r => r.handle p s
  | .askPasswordRecovery r => r.handle p config env s
  | .searchUser r => r.handle p s
  | .editProfile r => r.handle p config s
  | .editProfileContent r => r.handle p config s
  | .editContacts r => r.handle p config s
  | .delete r => r.handle p config s
  | .getContacts r => r.handle p config s

end Request

/-- The response to what a handler comes to. -/
def respond : Except Raised (Response J) → Response J
  | .ok response => response
  | .error .userNotFound => .error "authorization error"
  | .error .authenticationInfoLacking => .error "authorization error"
  | .error .adminAuthorization => .error "authorization error"
  | .error .other => .error "unknown error"

/-- A request with the `id` that is copied into its response. -/
structure Message (J : Type) where
  id : Option J := none
  request : Request J

/-- What `handle_request` sends, and the service after it. -/
structure Handled (σ J : Type) where
  id : Option J
  response : Response J
  service : Service σ

/-- `AuthD::Service#handle_request`, of a request that is parsed. -/
def handleRequest (m : Message J) : Handled σ J :=
  let outcome := m.request.handle p config env s
  { id := m.id, response := respond outcome.1, service := outcome.2 }

end

end LibIpc.Authd

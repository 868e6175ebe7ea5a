import LibIpc.Authd.Effect

/-!
# authd: no change without authority

Whoever changes or deletes the record of a user has the shared key, or something of that user: a
token, the password, a key that was sent by mail, or at least the e-mail address, which only makes
authd send such a key. A record that is new is that of a user who was there, or was added with the
shared key, or registered while registrations are open.
-/

namespace LibIpc.Authd

open Lib

variable {J σ : Type}

/-! ## The credentials in a request -/

namespace Request

def sharedKey : Request J → Option String
  | .addUser r => some r.sharedKey
  | .modUser r => some r.sharedKey
  | .setPermission r => some r.sharedKey
  | .listUsers r => r.key
  | .checkPermission r => r.sharedKey
  | .editProfileContent r => r.sharedKey
  | .delete r => r.sharedKey
  | _ => none

def token : Request J → Option String
  | .listUsers r => r.token
  | .checkPermission r => r.token
  | .editProfile r => some r.token
  | .editProfileContent r => r.token
  | .editContacts r => some r.token
  | .getContacts r => some r.token
  | _ => none

/-- The password that a user gives to be known by. -/
def password : Request J → Option String
  | .getToken r => some r.password
  | .getUserByCredentials r => some r.password
  | .updatePassword r => some r.oldPassword
  | .delete r => r.password
  | _ => none

def passwordRenewKey : Request J → Option String
  | .passwordRecovery r => some r.passwordRenewKey
  | _ => none

def activationKey : Request J → Option String
  | .validateUser r => some r.activationKey
  | _ => none

end Request

/-- What a request has that lets it change the record of a user. `signed` are the texts that are
signed with a key, and `after` the records there are once the request is handled. -/
inductive Authorized (p : Platform σ J) (config : Configuration) (signed : String → String → Prop)
    (request : Request J) (user : User J) (after : List (User J)) : Prop where
  | sharedKey (key : request.sharedKey = some config.sharedKey)
  | token {text : String} {payload : Token} (given : request.token = some text)
      (signature : signed text config.sharedKey)
      (decoded : Token.fromS p config.sharedKey text = some payload)
      (uid : payload.uid = user.uid)
  | password {word : String} (given : request.password = some word)
      (hash : p.hashPassword word = user.passwordHash)
  | passwordRenewKey {key : String} (given : request.passwordRenewKey = some key)
      (current : user.passwordRenewKey = some key)
  | activationKey {key : String} (given : request.activationKey = some key)
      (current : user.contact.activationKey = some key)
  /-- Only the key to a new password is changed. -/
  | email {r : Request.AskPasswordRecovery} {key : String}
      (asked : request = .askPasswordRecovery r) (current : user.contact.email = some r.email)
      (only : { user with passwordRenewKey := some key } ∈ after)

section
variable {p : Platform σ J} {config : Configuration} {env : Env} {s : Service σ}
  {signed : String → String → Prop} {request : Request J} {user user' : User J}
  {after : List (User J)}

/-! ## Changes -/

theorem authorized_of_token
    (hjwt : ∀ text key payload, p.jwtDecode text key = some payload → signed text key)
    (h : p.Consistent s) {text : String} (hgiven : request.token = some text)
    (hfound : getUserFromToken p config s text = .ok (some user)) :
    Authorized p config signed request user after := by
  obtain ⟨payload, hpayload, hfind⟩ := getUserFromToken_eq_ok hfound
  have hdecoded : ∃ value, p.jwtDecode text config.sharedKey = some value := by
    rw [Token.fromS, Option.bind_eq_bind, Option.bind_eq_some_iff] at hpayload
    exact hpayload.imp fun value hvalue => hvalue.1
  obtain ⟨value, hvalue⟩ := hdecoded
  exact .token hgiven (hjwt _ _ _ hvalue) hpayload (Eq.symm ((find_iff h).mp hfind).2)

/-- Each handler that writes has compared a credential of the user. -/
theorem authorized_of_change
    (hjwt : ∀ text key payload, p.jwtDecode text key = some payload → signed text key)
    (h : p.Consistent s) (hc : Change p config env s request user user')
    (hafter : user' ∈ after) : Authorized p config signed request user after := by
  cases hc with
  | getToken found password => exact .password rfl password
  | validateUser found key => exact .activationKey rfl key
  | getUserByCredentials found password => exact .password rfl password
  | modUser key found => exact .sharedKey (congrArg some key)
  | updatePassword found password => exact .password rfl password
  | passwordRecovery found key => exact .passwordRenewKey rfl key
  | askPasswordRecovery found email => exact .email rfl email hafter
  | setPermission key found => exact .sharedKey (congrArg some key)
  | editProfile found same => exact authorized_of_token hjwt h rfl found
  | editProfileContent found absent =>
    rcases authenticate_eq_ok found with ⟨token, htoken, hfound⟩ | ⟨-, hkey, -⟩
    · exact authorized_of_token hjwt h htoken hfound
    · exact .sharedKey hkey
  | editContacts found => exact authorized_of_token hjwt h rfl found

/-! ## Deletions -/

/-- The shared key is the right one, or the password is that of the user to delete. -/
theorem authorized_of_delete (h : p.Consistent s) {r : Request.Delete}
    (hfound : p.find s r.user = some user) (haccepted : r.authenticate p config s user = .ok ()) :
    Authorized p config signed (.delete r) user after := by
  rw [Request.Delete.authenticate] at haccepted
  split at haccepted
  · rename_i key hkey
    split at haccepted
    · rename_i hsame
      exact .sharedKey (by rw [← hsame]; exact hkey)
    · cases haccepted
  · split at haccepted
    · rename_i login pass hlogin hpass
      split at haccepted
      · cases haccepted
      · rename_i owner howner
        split at haccepted
        · cases haccepted
        · rename_i hhash
          split at haccepted
          · cases haccepted
          · rename_i huid
            have hsame : owner = user :=
              h.eq_of_key₁ (h.get₂_iff.mp howner).1 (mem_of_find h hfound)
                (uidKey_eq_iff.mpr (not_not.mp huid))
            subst hsame
            exact .password hpass (not_not.mp hhash).symm
    · cases haccepted

/-! ## Requests -/

/-- **No change without authority**: of a record that is changed or deleted, the request had the
shared key or something of its user; and a record that is new is one of those, or was added with
the shared key, or is that of a user who registers. -/
theorem authorized_of_handleRequest (hT : p.LawfulStore)
    (hjwt : ∀ text key payload, p.jwtDecode text key = some payload → signed text key)
    (h : p.Consistent s) (m : Message J) :
    (∀ user ∈ p.users.values s.users,
      user ∉ p.users.values (handleRequest p config env s m).service.users →
        Authorized p config signed m.request user
          (p.users.values (handleRequest p config env s m).service.users)) ∧
      ∀ user' ∈ p.users.values (handleRequest p config env s m).service.users,
        user' ∉ p.users.values s.users →
          (∃ user ∈ p.users.values s.users, user.uid = user'.uid ∧ user.login = user'.login ∧
            Authorized p config signed m.request user
              (p.users.values (handleRequest p config env s m).service.users)) ∨
          m.request.sharedKey = some config.sharedKey ∨
          (config.registrations = true ∧
            ∃ r, m.request = .register r ∧ user'.login = r.login) := by
  have heffect := handle_effect p config env s m.request
  constructor
  · intro user hmem hgone
    rcases heffect.lost hT h hmem hgone with ⟨user', hchange, hafter⟩ | ⟨r, hr, hfound, haccepted⟩
    · exact authorized_of_change hjwt h hchange hafter
    · rw [hr]
      exact authorized_of_delete h hfound haccepted
  · intro user' hafter hnew
    rcases heffect.gained hT h hafter hnew with ⟨user, hmem, hchange⟩ | hnewcomer
    · left
      exact ⟨user, hmem, hchange.keeps.1.symm, hchange.keeps.2.symm,
        authorized_of_change hjwt h hchange hafter⟩
    · right
      generalize hrequest : m.request = request at hnewcomer
      cases hnewcomer with
      | addUser key fresh next => exact .inl (congrArg some key)
      | @register r uid registrations fresh next => exact .inr ⟨registrations, r, rfl, rfl⟩

/-- Alice gives another address, with her token. -/
theorem authorized_of_handleRequest_token :
    Authorized inMemory {} (fun text key => text = aliceToken ∧ key = "nico-nico-nii")
      (.editContacts { token := aliceToken, email := some "alice@localhost.local" }) alice
      [{ alice with contact := { alice.contact with email := some "alice@localhost.local" } }] := by
  have hjwt : ∀ text key payload, inMemory.jwtDecode text key = some payload →
      text = aliceToken ∧ key = "nico-nico-nii" := by
    intro text key payload hdecode
    have hif : (if text = aliceToken ∧ key = "nico-nico-nii" then some (Json.payload "alice" 1000)
      else none) = some payload := hdecode
    by_contra hne
    rw [if_neg hne] at hif
    cases hif
  refine (@authorized_of_handleRequest _ _ inMemory {} quietEnv aliceAlone _ lawful_inMemory hjwt
    consistent_aliceAlone ⟨none, .editContacts ⟨aliceToken, some "alice@localhost.local"⟩⟩).1 alice
    (List.mem_singleton.mpr rfl) ?_
  show alice ∉ [_]
  intro hmem
  cases congrArg (fun user => user.contact.email) (List.mem_singleton.mp hmem)

end

end LibIpc.Authd

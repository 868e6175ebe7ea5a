import LibIpc.Authd.Requests

/-!
# authd: what a request does to the users

`handle_effect` says once, for the nineteen handlers, what they do to the service: nothing, or one
stored user is written anew, or one user is added, or one is deleted; with the credential that the
handler has compared. What the other modules say of every request is a case analysis of it.
-/

namespace LibIpc.Authd

open Lib

variable {J σ : Type}

/-- The user that a response says was added. -/
def Response.added : Response J → Option (Public J)
  | .userAdded newcomer => some newcomer
  | _ => none

section
variable (p : Platform σ J) (config : Configuration) (env : Env) (s : Service σ)

/-- A request finds a stored user, has the credential its handler asks for, and the user is
written anew. -/
inductive Change : Request J → User J → User J → Prop where
  | getToken {r : Request.GetToken} {user : User J}
      (found : p.find s (.login r.login) = some user)
      (password : p.hashPassword r.password = user.passwordHash) :
      Change (.getToken r) user { user with dateLastConnection := some env.now }
  | validateUser {r : Request.ValidateUser} {user : User J}
      (found : p.find s (.login r.login) = some user)
      (key : user.contact.activationKey = some r.activationKey) :
      Change (.validateUser r) user
        { user with contact := { user.contact with activationKey := none } }
  | getUserByCredentials {r : Request.GetUserByCredentials} {user : User J}
      (found : p.find s (.login r.login) = some user)
      (password : p.hashPassword r.password = user.passwordHash) :
      Change (.getUserByCredentials r) user { user with dateLastConnection := some env.now }
  | modUser {r : Request.ModUser} {user : User J}
      (key : r.sharedKey = config.sharedKey) (found : p.find s r.user = some user) :
      Change (.modUser r) user (r.modify p user)
  | updatePassword {r : Request.UpdatePassword} {user : User J}
      (found : p.find s (.login r.login) = some user)
      (password : p.hashPassword r.oldPassword = user.passwordHash) :
      Change (.updatePassword r) user
        { user with passwordHash := p.hashPassword r.newPassword }
  | passwordRecovery {r : Request.PasswordRecovery} {user : User J}
      (found : p.find s r.user = some user)
      (key : user.passwordRenewKey = some r.passwordRenewKey) :
      Change (.passwordRecovery r) user
        { user with passwordHash := p.hashPassword r.newPassword, passwordRenewKey := none }
  | askPasswordRecovery {r : Request.AskPasswordRecovery} {user : User J}
      (found : p.find s r.user = some user) (email : user.contact.email = some r.email) :
      Change (.askPasswordRecovery r) user { user with passwordRenewKey := some env.uuid }
  | setPermission {r : Request.SetPermission} {user : User J}
      (key : r.sharedKey = config.sharedKey)
      (found : p.users.get₁ s.users r.user.toS = some user) :
      Change (.setPermission r) user (user.setPermission r.service r.resource r.permission)
  | editProfile {r : Request.EditProfile J} {user : User J}
      (found : getUserFromToken p config s r.token = .ok (some user))
      (same : ∀ key ∈ config.readOnlyProfileKeys,
        p.sameValue (r.newProfile.lookup key) (user.profileValue key) = true) :
      Change (.editProfile r) user { user with profile := some r.newProfile }
  | editProfileContent {r : Request.EditProfileContent J} {user : User J}
      (found : r.authenticate p config s = .ok user)
      (absent : r.sharedKey = none →
        ∀ key ∈ config.readOnlyProfileKeys, r.newProfile.lookup key = none) :
      Change (.editProfileContent r) user
        { user with profile := some (mergeProfile (user.profile.getD ∅) r.newProfile) }
  | editContacts {r : Request.EditContacts} {user : User J}
      (found : getUserFromToken p config s r.token = .ok (some user)) :
      Change (.editContacts r) user
        { user with contact := { user.contact with email := r.email.or user.contact.email } }

/-- A request makes a user with a login that nobody has and the uid after the last one. -/
inductive Newcomer : Request J → User J → Prop where
  | addUser {r : Request.AddUser J} {uid : Int} (key : r.sharedKey = config.sharedKey)
      (fresh : p.users.get₂ s.users r.login = none) (next : newUid env = some uid) :
      Newcomer (.addUser r) (newUser p env uid r.login r.password r.email r.phone r.profile)
  | register {r : Request.Register J} {uid : Int} (registrations : config.registrations = true)
      (fresh : p.users.get₂ s.users r.login = none) (next : newUid env = some uid) :
      Newcomer (.register r) (newUser p env uid r.login r.password r.email r.phone r.profile)

/-- What a handler comes to and what it does to the service. -/
inductive Effect : Request J → Outcome σ J → Prop where
  | unchanged {request : Request J} {result : Except Raised (Response J)}
      (quiet : (respond result).added = none) : Effect request (result, s)
  | changed {request : Request J} {user user' : User J} {users : σ}
      {result : Except Raised (Response J)} (change : Change p config env s request user user')
      (update : p.users.update s.users user'.uidKey user' = some users)
      (quiet : (respond result).added = none) : Effect request (result, { s with users })
  | added {request : Request J} {user : User J} {users : σ}
      (newcomer : Newcomer p config env s request user)
      (add : p.users.add s.users user = some users) :
      Effect request (.ok (.userAdded user.toPublic), { users, lastUid := some user.uid })
  | deleted {r : Request.Delete} {user : User J} {users : σ}
      (found : p.find s r.user = some user)
      (accepted : r.authenticate p config s user = .ok ())
      (delete : p.users.delete s.users user.login = some users) :
      Effect (.delete r) (.ok (.user user.toPublic), { s with users })

end

section
variable {p : Platform σ J} {config : Configuration} {env : Env} {s : Service σ}
  {request : Request J} {user user' : User J}

/-! ## What the handlers share -/

theorem effect_refuse (reason : String) : Effect p config env s request (refuse s reason) :=
  .unchanged rfl

theorem effect_raise (e : Raised) : Effect p config env s request (raise s e) := by
  apply Effect.unchanged
  cases e with
  | userNotFound => rfl
  | authenticationInfoLacking => rfl
  | adminAuthorization => rfl
  | other => rfl

theorem effect_updating {result : Except Raised (Response J)}
    (change : Change p config env s request user user')
    (quiet : (respond result).added = none) :
    Effect p config env s request (updating p s user' result) := by
  rw [updating]
  split
  · exact effect_raise .other
  · exact .changed change ‹_› quiet

theorem effect_adding (newcomer : Newcomer p config env s request user) :
    Effect p config env s request (adding p s user) := by
  rw [adding]
  split
  · exact effect_raise .other
  · exact .added newcomer ‹_›

/-! ## The handlers -/

section
variable (p config env s)

theorem effect_getToken (r : Request.GetToken) :
    Effect p config env s (.getToken r) (r.handle p config env s) := by
  rw [Request.GetToken.handle]
  split
  · apply effect_refuse
  · rename_i user hfound
    split
    · apply effect_refuse
    · rename_i hpassword
      exact effect_updating (.getToken hfound (not_not.mp hpassword).symm) rfl

theorem effect_validateUser (r : Request.ValidateUser) :
    Effect p config env s (.validateUser r) (r.handle p s) := by
  rw [Request.ValidateUser.handle]
  split
  · apply effect_refuse
  · rename_i user hfound
    split
    · apply effect_refuse
    · split
      · exact effect_updating (.validateUser hfound ‹_›) rfl
      · apply effect_refuse

theorem effect_getUser (r : Request.GetUser) :
    Effect p config env s (.getUser r) (r.handle p s) := by
  rw [Request.GetUser.handle]
  split
  · apply effect_refuse
  · exact .unchanged rfl

theorem effect_getUserByCredentials (r : Request.GetUserByCredentials) :
    Effect p config env s (.getUserByCredentials r) (r.handle p env s) := by
  rw [Request.GetUserByCredentials.handle]
  split
  · apply effect_refuse
  · rename_i user hfound
    split
    · apply effect_refuse
    · rename_i hpassword
      exact effect_updating (.getUserByCredentials hfound (not_not.mp hpassword)) rfl

theorem effect_addUser (r : Request.AddUser J) :
    Effect p config env s (.addUser r) (r.handle p config env s) := by
  rw [Request.AddUser.handle]
  split
  · apply effect_refuse
  · rename_i hkey
    split
    · apply effect_refuse
    · rename_i hfresh
      split
      · apply effect_refuse
      · split
        · apply effect_raise
        · rename_i uid hnext
          exact effect_adding
            (.addUser (not_not.mp hkey) (by simpa using hfresh) hnext)

theorem effect_modUser (r : Request.ModUser) :
    Effect p config env s (.modUser r) (r.handle p config s) := by
  rw [Request.ModUser.handle]
  split
  · apply effect_refuse
  · rename_i hkey
    split
    · apply effect_refuse
    · rename_i user hfound
      exact effect_updating (.modUser (not_not.mp hkey) hfound) rfl

theorem effect_register (r : Request.Register J) :
    Effect p config env s (.register r) (r.handle p config env s) := by
  rw [Request.Register.handle]
  split
  · apply effect_refuse
  · rename_i hopen
    split
    · apply effect_refuse
    · rename_i hfresh
      split
      · apply effect_refuse
      · split
        · apply effect_refuse
        · split
          · apply effect_refuse
          · split
            · apply effect_raise
            · rename_i uid hnext
              dsimp only
              split
              · exact effect_adding
                  (.register (not_not.mp hopen) (by simpa using hfresh) hnext)
              · apply effect_refuse

theorem effect_updatePassword (r : Request.UpdatePassword) :
    Effect p config env s (.updatePassword r) (r.handle p s) := by
  rw [Request.UpdatePassword.handle]
  split
  · apply effect_refuse
  · rename_i user hfound
    split
    · apply effect_refuse
    · rename_i hpassword
      exact effect_updating (.updatePassword hfound (not_not.mp hpassword)) rfl

theorem effect_list (r : Request.ListUsers) :
    Effect p config env s (.listUsers r) (r.list p config s) := by
  rw [Request.ListUsers.list]
  split
  · apply effect_refuse
  · split
    · apply effect_refuse
    · exact .unchanged rfl

theorem effect_listUsers (r : Request.ListUsers) :
    Effect p config env s (.listUsers r) (r.handle p config s) := by
  rw [Request.ListUsers.handle]
  split
  · apply effect_list
  · split
    · apply effect_raise
    · apply effect_refuse
    · split
      · apply effect_raise
      · split
        · apply effect_list
        · apply effect_raise

theorem effect_check (r : Request.CheckPermission) :
    Effect p config env s (.checkPermission r) (r.check p s) := by
  rw [Request.CheckPermission.check]
  split
  · apply effect_refuse
  · exact .unchanged rfl

theorem effect_checkPermission (r : Request.CheckPermission) :
    Effect p config env s (.checkPermission r) (r.handle p config s) := by
  rw [Request.CheckPermission.handle]
  split
  · apply effect_refuse
  · split
    · split
      · apply effect_refuse
      · apply effect_check
    · split
      · apply effect_raise
      · apply effect_refuse
      · split
        · apply effect_refuse
        · apply effect_check

theorem effect_setPermission (r : Request.SetPermission) :
    Effect p config env s (.setPermission r) (r.handle p config s) := by
  rw [Request.SetPermission.handle]
  split
  · apply effect_refuse
  · rename_i hkey
    split
    · apply effect_refuse
    · rename_i user hfound
      exact effect_updating (.setPermission (not_not.mp hkey) hfound) rfl

theorem effect_passwordRecovery (r : Request.PasswordRecovery) :
    Effect p config env s (.passwordRecovery r) (r.handle p s) := by
  rw [Request.PasswordRecovery.handle]
  split
  · apply effect_refuse
  · rename_i user hfound
    split
    · exact effect_updating (.passwordRecovery hfound ‹_›) rfl
    · apply effect_refuse

theorem effect_askPasswordRecovery (r : Request.AskPasswordRecovery) :
    Effect p config env s (.askPasswordRecovery r) (r.handle p config env s) := by
  rw [Request.AskPasswordRecovery.handle]
  split
  · apply effect_refuse
  · rename_i user hfound
    split
    · apply effect_refuse
    · rename_i hemail
      apply effect_updating (.askPasswordRecovery hfound (not_not.mp hemail))
      split
      · rfl
      · rfl

theorem effect_searchUser (r : Request.SearchUser) :
    Effect p config env s (.searchUser r) (r.handle p s) := by
  rw [Request.SearchUser.handle]
  split
  · apply effect_raise
  · split
    · apply effect_raise
    · exact .unchanged rfl

theorem effect_editProfile (r : Request.EditProfile J) :
    Effect p config env s (.editProfile r) (r.handle p config s) := by
  rw [Request.EditProfile.handle]
  split
  · apply effect_raise
  · apply effect_refuse
  · rename_i user hfound
    split
    · apply effect_refuse
    · rename_i hsame
      push Not at hsame
      exact effect_updating (.editProfile hfound (by simpa using hsame)) rfl

theorem effect_editProfileContent (r : Request.EditProfileContent J) :
    Effect p config env s (.editProfileContent r) (r.handle p config s) := by
  rw [Request.EditProfileContent.handle]
  split
  · apply effect_raise
  · rename_i user hfound
    split
    · apply effect_refuse
    · rename_i habsent
      push Not at habsent
      exact effect_updating (.editProfileContent hfound (by simpa using habsent)) rfl

theorem effect_editContacts (r : Request.EditContacts) :
    Effect p config env s (.editContacts r) (r.handle p config s) := by
  rw [Request.EditContacts.handle]
  split
  · apply effect_raise
  · apply effect_refuse
  · exact effect_updating (.editContacts ‹_›) rfl

theorem effect_delete (r : Request.Delete) :
    Effect p config env s (.delete r) (r.handle p config s) := by
  rw [Request.Delete.handle]
  split
  · apply effect_refuse
  · rename_i user hfound
    split
    · apply effect_refuse
    · rename_i haccepted
      split
      · apply effect_raise
      · exact .deleted hfound haccepted ‹_›

theorem effect_getContacts (r : Request.GetContacts) :
    Effect p config env s (.getContacts r) (r.handle p config s) := by
  rw [Request.GetContacts.handle]
  split
  · apply effect_raise
  · apply effect_refuse
  · exact .unchanged rfl

theorem handle_effect (request : Request J) :
    Effect p config env s request (request.handle p config env s) := by
  cases request with
  | getToken r => exact effect_getToken p config env s r
  | addUser r => exact effect_addUser p config env s r
  | validateUser r => exact effect_validateUser p config env s r
  | getUser r => exact effect_getUser p config env s r
  | getUserByCredentials r => exact effect_getUserByCredentials p config env s r
  | modUser r => exact effect_modUser p config env s r
  | register r => exact effect_register p config env s r
  | updatePassword r => exact effect_updatePassword p config env s r
  | listUsers r => exact effect_listUsers p config env s r
  | checkPermission r => exact effect_checkPermission p config env s r
  | setPermission r => exact effect_setPermission p config env s r
  | passwordRecovery r => exact effect_passwordRecovery p config env s r
  | askPasswordRecovery r => exact effect_askPasswordRecovery p config env s r
  | searchUser r => exact effect_searchUser p config env s r
  | editProfile r => exact effect_editProfile p config env s r
  | editProfileContent r => exact effect_editProfileContent p config env s r
  | editContacts r => exact effect_editContacts p config env s r
  | delete r => exact effect_delete p config env s r
  | getContacts r => exact effect_getContacts p config env s r

end

/-! ## In a database whose indexes are consistent -/

/-- A token is of the user whose uid it has. -/
theorem getUserFromToken_eq_ok {token : String}
    (h : getUserFromToken p config s token = .ok (some user)) :
    ∃ payload, Token.fromS p config.sharedKey token = some payload ∧
      p.find s (.uid payload.uid) = some user := by
  rw [getUserFromToken] at h
  split at h
  · cases h
  · rename_i payload hpayload
    exact ⟨payload, hpayload, Except.ok.inj h⟩

theorem mem_of_token (h : p.Consistent s) {token : String}
    (hfound : getUserFromToken p config s token = .ok (some user)) :
    user ∈ p.users.values s.users := by
  obtain ⟨payload, -, hfind⟩ := getUserFromToken_eq_ok hfound
  exact mem_of_find h hfind

/-- The user whose profile is edited is that of the token, or the one named under the shared
key. -/
theorem authenticate_eq_ok {r : Request.EditProfileContent J}
    (h : r.authenticate p config s = .ok user) :
    (∃ token, r.token = some token ∧ getUserFromToken p config s token = .ok (some user)) ∨
      (r.token = none ∧ r.sharedKey = some config.sharedKey ∧
        ∃ id, r.user = some id ∧ p.find s id = some user) := by
  rw [Request.EditProfileContent.authenticate] at h
  split at h
  · rename_i token htoken
    split at h
    · cases h
    · cases h
    · rename_i user' hfound
      cases h
      exact .inl ⟨token, htoken, hfound⟩
  · rename_i htoken
    split at h
    · cases h
    · rename_i key hkey
      split at h
      · cases h
      · rename_i hsame
        split at h
        · cases h
        · rename_i user' hfound
          cases h
          rw [Option.bind_eq_some_iff] at hfound
          refine .inr ⟨htoken, ?_, hfound⟩
          rw [hkey, not_not.mp hsame]

namespace Change

/-- The user that is written anew is a stored one. -/
theorem mem (h : p.Consistent s) (hc : Change p config env s request user user') :
    user ∈ p.users.values s.users := by
  cases hc with
  | getToken found password => exact mem_of_find h found
  | validateUser found key => exact mem_of_find h found
  | getUserByCredentials found password => exact mem_of_find h found
  | modUser key found => exact mem_of_find h found
  | updatePassword found password => exact mem_of_find h found
  | passwordRecovery found key => exact mem_of_find h found
  | askPasswordRecovery found email => exact mem_of_find h found
  | setPermission key found => exact (h.get₁_iff.mp found).1
  | editProfile found same => exact mem_of_token h found
  | editProfileContent found absent =>
    rcases authenticate_eq_ok found with ⟨token, -, hfound⟩ | ⟨-, -, id, -, hfound⟩
    · exact mem_of_token h hfound
    · exact mem_of_find h hfound
  | editContacts found => exact mem_of_token h found

/-- A uid and a login are for life. -/
theorem keeps (hc : Change p config env s request user user') :
    user'.uid = user.uid ∧ user'.login = user.login := by
  cases hc with
  | getToken found password => exact ⟨rfl, rfl⟩
  | validateUser found key => exact ⟨rfl, rfl⟩
  | getUserByCredentials found password => exact ⟨rfl, rfl⟩
  | modUser key found => exact ⟨rfl, rfl⟩
  | updatePassword found password => exact ⟨rfl, rfl⟩
  | passwordRecovery found key => exact ⟨rfl, rfl⟩
  | askPasswordRecovery found email => exact ⟨rfl, rfl⟩
  | setPermission key found => exact ⟨rfl, rfl⟩
  | editProfile found same => exact ⟨rfl, rfl⟩
  | editProfileContent found absent => exact ⟨rfl, rfl⟩
  | editContacts found => exact ⟨rfl, rfl⟩

end Change

/-- A newcomer has the next uid and a login that nobody has. -/
theorem Newcomer.fresh (hnew : Newcomer p config env s request user) :
    newUid env = some user.uid ∧ p.users.get₂ s.users user.login = none := by
  cases hnew with
  | addUser key fresh next => exact ⟨next, fresh⟩
  | register registrations fresh next => exact ⟨next, fresh⟩

/-- A stored user is written anew, with the same uid and login. -/
theorem update_replaces (hT : p.LawfulStore) (h : p.Consistent s)
    (hmem : user ∈ p.users.values s.users)
    (hkeeps : user'.uid = user.uid ∧ user'.login = user.login) :
    ∃ users, p.users.update s.users user'.uidKey user' = some users ∧
      p.Consistent { s with users } ∧ p.users.Replaced user user' s.users users := by
  have hkey := uidKey_eq_iff.mpr hkeeps.1
  rw [hkey]
  exact hT.update h hmem hkey hkeeps.2

theorem updating_replaces (hT : p.LawfulStore) (h : p.Consistent s)
    (hmem : user ∈ p.users.values s.users)
    (hkeeps : user'.uid = user.uid ∧ user'.login = user.login)
    (result : Except Raised (Response J)) :
    ∃ users, updating p s user' result = (result, { s with users }) ∧
      p.Consistent { s with users } ∧ p.users.Replaced user user' s.users users := by
  obtain ⟨users, hupdate, hrest⟩ := update_replaces hT h hmem hkeeps
  refine ⟨users, ?_, hrest⟩
  rw [updating, hupdate]

theorem mem_updating (hT : p.LawfulStore) (h : p.Consistent s)
    (hmem : user ∈ p.users.values s.users)
    (hkeeps : user'.uid = user.uid ∧ user'.login = user.login)
    (result : Except Raised (Response J)) :
    user' ∈ p.users.values (updating p s user' result).2.users := by
  obtain ⟨users, hupdating, -, hreplaced⟩ := updating_replaces hT h hmem hkeeps result
  rw [hupdating]
  exact (hreplaced user').mpr (.inl rfl)

theorem Change.replaced (hT : p.LawfulStore) (h : p.Consistent s)
    (hc : Change p config env s request user user') {users : σ}
    (hupdate : p.users.update s.users user'.uidKey user' = some users) :
    p.Consistent { s with users } ∧ p.users.Replaced user user' s.users users := by
  obtain ⟨users', hupdate', hrest⟩ := update_replaces hT h (hc.mem h) hc.keeps
  rw [hupdate, Option.some.injEq] at hupdate'
  subst hupdate'
  exact hrest

theorem delete_removes (hT : p.LawfulStore) (h : p.Consistent s)
    (hmem : user ∈ p.users.values s.users) {users : σ}
    (hdelete : p.users.delete s.users user.login = some users) :
    p.Consistent { s with users } ∧
      ∀ other, other ∈ p.users.values users ↔ other ∈ p.users.values s.users ∧ other ≠ user := by
  obtain ⟨users', hdelete', hrest⟩ := hT.delete h hmem
  rw [hdelete, Option.some.injEq] at hdelete'
  subst hdelete'
  exact hrest

namespace Effect
variable {outcome : Outcome σ J}

/-- A record that is gone was written anew or deleted. -/
theorem lost (hT : p.LawfulStore) (h : p.Consistent s)
    (he : Effect p config env s request outcome) (hmem : user ∈ p.users.values s.users)
    (hgone : user ∉ p.users.values outcome.2.users) :
    (∃ user', Change p config env s request user user' ∧
        user' ∈ p.users.values outcome.2.users) ∨
      ∃ r, request = .delete r ∧ p.find s r.user = some user ∧
        r.authenticate p config s user = .ok () := by
  cases he with
  | unchanged quiet => exact absurd hmem hgone
  | @changed _ old user' users _ change update quiet =>
    obtain ⟨-, hreplaced⟩ := change.replaced hT h update
    have hold : user = old := by
      by_contra hne
      exact hgone ((hreplaced user).mpr (.inr ⟨hmem, hne⟩))
    subst hold
    exact .inl ⟨user', change, (hreplaced user').mpr (.inl rfl)⟩
  | added newcomer add => exact absurd ((hT.mem_add h add user).mpr (.inr hmem)) hgone
  | @deleted r old users found accepted delete =>
    obtain ⟨-, hrest⟩ := delete_removes hT h (mem_of_find h found) delete
    have hold : user = old := by
      by_contra hne
      exact hgone ((hrest user).mpr ⟨hmem, hne⟩)
    subst hold
    exact .inr ⟨r, rfl, found, accepted⟩

/-- A new record is a stored user written anew, or that of a newcomer. -/
theorem gained (hT : p.LawfulStore) (h : p.Consistent s)
    (he : Effect p config env s request outcome)
    (hmem : user' ∈ p.users.values outcome.2.users)
    (hnew : user' ∉ p.users.values s.users) :
    (∃ user ∈ p.users.values s.users, Change p config env s request user user') ∨
      Newcomer p config env s request user' := by
  cases he with
  | unchanged quiet => exact absurd hmem hnew
  | @changed _ user written users _ change update quiet =>
    obtain ⟨-, hreplaced⟩ := change.replaced hT h update
    rcases (hreplaced user').mp hmem with rfl | ⟨hold, -⟩
    · exact .inl ⟨user, change.mem h, change⟩
    · exact absurd hold hnew
  | added newcomer add =>
    rcases (hT.mem_add h add user').mp hmem with rfl | hold
    · exact .inr newcomer
    · exact absurd hold hnew
  | deleted found accepted delete =>
    obtain ⟨-, hrest⟩ := delete_removes hT h (mem_of_find h found) delete
    exact absurd ((hrest user').mp hmem).1 hnew

end Effect

end

end LibIpc.Authd

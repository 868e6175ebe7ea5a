import LibIpc.Authd.Ledger

/-!
# authd: what the handlers decide

One lemma for each handler that answers for one user: it grants the request to the user whom
`Opens` names, and to nobody if there is none. Then the ledger is compared with the one that is
kept from the response, whatever the request.
-/

namespace LibIpc.Authd

open Lib

variable {J σ : Type} {p : Platform σ J} {config : Configuration} {env : Env} {s : Service σ}
  {user : User J}

/-- The credentials are those of the stored users that `Opens` asks for. -/
abbrev Decides (p : Platform σ J) (config : Configuration) (env : Env) (s : Service σ)
    (request : Request J) (outcome : Outcome σ J) : Prop :=
  Decision p env s request (fun user => request.Opens p config user.uid user.credentials) outcome

theorem getUserFromToken_iff (h : p.Consistent s) {text : String} :
    getUserFromToken p config s text = .ok (some user) ↔
      user ∈ p.users.values s.users ∧ TokenOf p config text user.uid := by
  constructor
  · intro hfound
    obtain ⟨payload, hpayload, hfind⟩ := getUserFromToken_eq_ok hfound
    obtain ⟨hmem, huid⟩ := (find_iff h).mp hfind
    exact ⟨hmem, payload, hpayload, huid⟩
  · intro hof
    obtain ⟨hmem, payload, hpayload, huid⟩ := hof
    have hfind : p.find s (.uid payload.uid) = some user := (find_iff h).mpr ⟨hmem, huid⟩
    rw [getUserFromToken, hpayload]
    exact congrArg Except.ok hfind

/-! ## The handlers -/

section
variable (hT : p.LawfulStore) (h : p.Consistent s)
include hT h

theorem decides_getToken (r : Request.GetToken) :
    Decides p config env s (.getToken r) (r.handle p config env s) := by
  apply Decision.of_found (fun _ => Iff.rfl) fun _ => @find_iff _ _ p s _ h (.login r.login)
  · intro hnone
    rw [Request.GetToken.handle, show p.users.get₂ s.users r.login = none from hnone]
    exact refused_refuse _
  · intro user hfind hmem
    rw [Request.GetToken.handle, show p.users.get₂ s.users r.login = some user from hfind]
    dsimp only
    constructor
    · intro (hpassword : _ = user.passwordHash)
      rw [if_neg (not_not.mpr hpassword.symm)]
      apply granted_updating hT h hmem
      exacts [⟨rfl, rfl⟩, rfl, rfl]
    · intro (hpassword : _ ≠ user.passwordHash)
      rw [if_pos hpassword.symm]
      exact refused_refuse _

theorem decides_validateUser (r : Request.ValidateUser) :
    Decides p config env s (.validateUser r) (r.handle p s) := by
  apply Decision.of_found (fun _ => Iff.rfl) fun _ => @find_iff _ _ p s _ h (.login r.login)
  · intro hnone
    rw [Request.ValidateUser.handle, show p.users.get₂ s.users r.login = none from hnone]
    exact refused_refuse _
  · intro user hfind hmem
    rw [Request.ValidateUser.handle, show p.users.get₂ s.users r.login = some user from hfind]
    dsimp only
    constructor
    · intro (hkey : user.contact.activationKey = some r.activationKey)
      have hsome : user.contact.activationKey ≠ none := by
        rw [hkey]
        exact Option.some_ne_none _
      rw [if_neg hsome, if_pos hkey]
      apply granted_updating hT h hmem
      exacts [⟨rfl, rfl⟩, rfl, rfl]
    · intro (hkey : user.contact.activationKey ≠ some r.activationKey)
      rw [if_neg hkey]
      split
      · exact refused_refuse _
      · exact refused_refuse _

theorem decides_getUserByCredentials (r : Request.GetUserByCredentials) :
    Decides p config env s (.getUserByCredentials r) (r.handle p env s) := by
  apply Decision.of_found (fun _ => Iff.rfl) fun _ => @find_iff _ _ p s _ h (.login r.login)
  · intro hnone
    rw [Request.GetUserByCredentials.handle,
      show p.users.get₂ s.users r.login = none from hnone]
    exact refused_refuse _
  · intro user hfind hmem
    rw [Request.GetUserByCredentials.handle,
      show p.users.get₂ s.users r.login = some user from hfind]
    dsimp only
    constructor
    · intro (hpassword : _ = user.passwordHash)
      rw [if_neg (not_not.mpr hpassword)]
      apply granted_updating hT h hmem
      exacts [⟨rfl, rfl⟩, rfl, rfl]
    · intro (hpassword : _ ≠ user.passwordHash)
      rw [if_pos hpassword]
      exact refused_refuse _

theorem decides_updatePassword (r : Request.UpdatePassword) :
    Decides p config env s (.updatePassword r) (r.handle p s) := by
  apply Decision.of_found (fun _ => Iff.rfl) fun _ => @find_iff _ _ p s _ h (.login r.login)
  · intro hnone
    rw [Request.UpdatePassword.handle, show p.users.get₂ s.users r.login = none from hnone]
    exact refused_refuse _
  · intro user hfind hmem
    rw [Request.UpdatePassword.handle, show p.users.get₂ s.users r.login = some user from hfind]
    dsimp only
    constructor
    · intro (hpassword : _ = user.passwordHash)
      rw [if_neg (not_not.mpr hpassword)]
      apply granted_updating hT h hmem
      exacts [⟨rfl, rfl⟩, rfl, rfl]
    · intro (hpassword : _ ≠ user.passwordHash)
      rw [if_pos hpassword]
      exact refused_refuse _

theorem decides_modUser (r : Request.ModUser) :
    Decides p config env s (.modUser r) (r.handle p config s) := by
  apply Decision.of_found (fun _ => Iff.rfl) fun _ => @find_iff _ _ p s _ h r.user
  · intro hnone
    rw [Request.ModUser.handle, hnone]
    split
    · exact refused_refuse _
    · exact refused_refuse _
  · intro user hfind hmem
    rw [Request.ModUser.handle, hfind]
    constructor
    · intro hkey
      rw [if_neg (not_not.mpr hkey)]
      apply granted_updating hT h hmem
      exacts [⟨rfl, rfl⟩, rfl, rfl]
    · intro hkey
      rw [if_pos hkey]
      exact refused_refuse _

theorem decides_passwordRecovery (r : Request.PasswordRecovery) :
    Decides p config env s (.passwordRecovery r) (r.handle p s) := by
  apply Decision.of_found (fun _ => Iff.rfl) fun _ => @find_iff _ _ p s _ h r.user
  · intro hnone
    rw [Request.PasswordRecovery.handle, hnone]
    exact refused_refuse _
  · intro user hfind hmem
    rw [Request.PasswordRecovery.handle, hfind]
    dsimp only
    constructor
    · intro (hkey : user.passwordRenewKey = some r.passwordRenewKey)
      rw [if_pos hkey]
      apply granted_updating hT h hmem
      exacts [⟨rfl, rfl⟩, rfl, rfl]
    · intro (hkey : user.passwordRenewKey ≠ some r.passwordRenewKey)
      rw [if_neg hkey]
      exact refused_refuse _

theorem decides_setPermission (r : Request.SetPermission) :
    Decides p config env s (.setPermission r) (r.handle p config s) := by
  have hfound : ∀ user, p.users.get₁ s.users r.user.toS = some user ↔
      user ∈ p.users.values s.users ∧ r.user.toS = toString user.uid := by
    intro user
    rw [h.get₁_iff]
    exact and_congr_right fun _ => eq_comm
  apply Decision.of_found (fun _ => Iff.rfl) hfound
  · intro hnone
    rw [Request.SetPermission.handle, hnone]
    split
    · exact refused_refuse _
    · exact refused_refuse _
  · intro user hfind hmem
    rw [Request.SetPermission.handle, hfind]
    constructor
    · intro hkey
      rw [if_neg (not_not.mpr hkey)]
      apply granted_updating hT h hmem
      exacts [⟨rfl, rfl⟩, rfl, rfl]
    · intro hkey
      rw [if_pos hkey]
      exact refused_refuse _

theorem decides_editContacts (r : Request.EditContacts) :
    Decides p config env s (.editContacts r) (r.handle p config s) := by
  apply Decision.of_token h fun _ => (iff_of_eq (and_true _)).symm
  · intro e herror
    rw [Request.EditContacts.handle, herror]
    exact refused_raise e
  · intro hunknown
    rw [Request.EditContacts.handle, hunknown]
    exact refused_refuse _
  · intro user hfound hmem
    rw [Request.EditContacts.handle, hfound]
    constructor
    · intro _
      apply granted_updating hT h hmem
      exacts [⟨rfl, rfl⟩, rfl, rfl]
    · intro hfalse
      exact absurd trivial hfalse

omit hT

theorem decides_getUser (r : Request.GetUser) :
    Decides p config env s (.getUser r) (r.handle p s) := by
  apply Decision.of_found (fun _ => (iff_of_eq (and_true _)).symm)
    fun _ => @find_iff _ _ p s _ h r.user
  · intro hnone
    rw [Request.GetUser.handle, hnone]
    exact refused_refuse _
  · intro user hfind hmem
    rw [Request.GetUser.handle, hfind]
    constructor
    · intro _
      exact granted_read h hmem rfl rfl
    · intro hfalse
      exact absurd trivial hfalse

theorem decides_getContacts (r : Request.GetContacts) :
    Decides p config env s (.getContacts r) (r.handle p config s) := by
  apply Decision.of_token h fun _ => (iff_of_eq (and_true _)).symm
  · intro e herror
    rw [Request.GetContacts.handle, herror]
    exact refused_raise e
  · intro hunknown
    rw [Request.GetContacts.handle, hunknown]
    exact refused_refuse _
  · intro user hfound hmem
    rw [Request.GetContacts.handle, hfound]
    constructor
    · intro _
      exact granted_read h hmem rfl rfl
    · intro hfalse
      exact absurd trivial hfalse

theorem granted_check {r : Request.CheckPermission} (hfind : p.find s r.user = some user) :
    Granted p env s (.checkPermission r) user (r.check p s) := by
  rw [Request.CheckPermission.check, hfind]
  exact granted_read h (mem_of_find h hfind) rfl rfl

omit h in
theorem refused_checkPermission_none {r : Request.CheckPermission}
    (hnone : p.find s r.user = none) : Refused s (r.handle p config s) := by
  have hcheck : Refused s (r.check p s) := by
    rw [Request.CheckPermission.check, hnone]
    exact refused_refuse _
  rw [Request.CheckPermission.handle]
  split
  · exact refused_refuse _
  · split
    · split
      · exact refused_refuse _
      · exact hcheck
    · split
      · exact refused_raise _
      · exact refused_refuse _
      · split
        · exact refused_refuse _
        · exact hcheck

theorem granted_checkPermission {r : Request.CheckPermission}
    (hfind : p.find s r.user = some user) (hallows : r.Allows p config user.uid) :
    Granted p env s (.checkPermission r) user (r.handle p config s) := by
  obtain ⟨hmem, hnames⟩ := (find_iff h).mp hfind
  rw [Request.CheckPermission.Allows] at hallows
  rw [Request.CheckPermission.handle]
  cases htoken : r.token with
  | none =>
    rw [htoken] at hallows
    rw [show r.sharedKey = some config.sharedKey from hallows]
    simp only [Option.any_some, ne_eq, not_true_eq_false, decide_false, Bool.false_eq_true,
      if_false, reduceCtorEq]
    exact granted_check h hfind
  | some text =>
    rw [htoken] at hallows
    obtain ⟨hright, hof⟩ := hallows
    have hkey : r.sharedKey.any (fun key => key ≠ config.sharedKey) = false := by
      rw [Option.any_eq_false]
      intro key hkey
      simpa using hright key hkey
    have hnamed : ¬ (.login user.login ≠ r.user ∧ .uid user.uid ≠ r.user) := by
      intro hother
      generalize r.user = id at hnames hother
      cases id with
      | uid uid => exact hother.2 (congrArg UserId.uid hnames)
      | login login => exact hother.1 (congrArg UserId.login hnames)
    rw [hkey, if_neg Bool.false_ne_true]
    dsimp only
    rw [(getUserFromToken_iff h).mpr ⟨hmem, hof⟩]
    dsimp only
    rw [if_neg hnamed]
    exact granted_check h hfind

theorem refused_checkPermission {r : Request.CheckPermission}
    (hfind : p.find s r.user = some user) (hallows : ¬ r.Allows p config user.uid) :
    Refused s (r.handle p config s) := by
  rw [Request.CheckPermission.Allows] at hallows
  rw [Request.CheckPermission.handle]
  split
  · exact refused_refuse _
  · rename_i hkey
    have hright : ∀ key, r.sharedKey = some key → key = config.sharedKey := by
      intro key hsome
      rw [hsome] at hkey
      simpa using hkey
    cases htoken : r.token with
    | none =>
      rw [htoken] at hallows
      cases hshared : r.sharedKey with
      | none => exact refused_refuse _
      | some key =>
        rw [hshared, hright key hshared] at hallows
        exact absurd rfl hallows
    | some text =>
      rw [htoken] at hallows
      dsimp only
      split
      · exact refused_raise _
      · exact refused_refuse _
      · rename_i other hfound
        split
        · exact refused_refuse _
        · rename_i hother
          obtain ⟨hmem, hof⟩ := (getUserFromToken_iff h).mp hfound
          -- The user of the token would be the one that the request names.
          have hsame : p.find s r.user = some other := by
            apply (find_iff h).mpr
            refine ⟨hmem, ?_⟩
            rw [not_and_or, not_not, not_not] at hother
            rcases hother with hlogin | huid
            · rw [← hlogin]
              rfl
            · rw [← huid]
              rfl
          rw [hfind, Option.some.injEq] at hsame
          subst hsame
          exact absurd ⟨hright, hof⟩ hallows

/-- A token is compared with the user that the request names, and comes with the shared key or
without any. -/
theorem decides_checkPermission (r : Request.CheckPermission) :
    Decides p config env s (.checkPermission r) (r.handle p config s) := by
  apply Decision.of_found (fun _ => Iff.rfl) fun _ => @find_iff _ _ p s _ h r.user
  · intro hnone
    exact refused_checkPermission_none hnone
  · intro user hfind _
    exact ⟨granted_checkPermission h hfind, refused_checkPermission h hfind⟩

theorem authenticate_iff {r : Request.EditProfileContent J} :
    r.authenticate p config s = .ok user ↔
      user ∈ p.users.values s.users ∧ r.Names p config user.uid user.credentials := by
  rw [Request.EditProfileContent.Names]
  constructor
  · intro hfound
    rcases authenticate_eq_ok hfound with ⟨text, htoken, hget⟩ | ⟨htoken, hkey, id, hid, hfind⟩
    · rw [htoken]
      exact (getUserFromToken_iff h).mp hget
    · rw [htoken]
      obtain ⟨hmem, hnames⟩ := (find_iff h).mp hfind
      exact ⟨hmem, hkey, id, hid, hnames⟩
  · intro hnamed
    obtain ⟨hmem, hnames⟩ := hnamed
    rw [Request.EditProfileContent.authenticate]
    cases htoken : r.token with
    | some text =>
      rw [htoken] at hnames
      dsimp only
      rw [(getUserFromToken_iff h).mpr ⟨hmem, hnames⟩]
    | none =>
      rw [htoken] at hnames
      obtain ⟨hkey, id, hid, hmatches⟩ := hnames
      have hfind : p.find s id = some user := (find_iff h).mpr ⟨hmem, hmatches⟩
      dsimp only
      rw [hkey]
      dsimp only
      rw [if_neg (not_not.mpr rfl), hid, Option.bind_some, hfind]

theorem deleteAllows_iff {r : Request.Delete} (hmem : user ∈ p.users.values s.users) :
    r.authenticate p config s user = .ok () ↔ r.Allows p config user.credentials := by
  rw [Request.Delete.authenticate, Request.Delete.Allows]
  cases hshared : r.sharedKey with
  | some key =>
    dsimp only
    split
    · exact iff_of_true rfl ‹_›
    · rename_i hwrong
      exact iff_of_false (by rintro ⟨⟩) hwrong
  | none =>
    dsimp only
    constructor
    · intro haccepted
      split at haccepted
      · rename_i login pass hlogin hpass
        split at haccepted
        · cases haccepted
        · rename_i owner howner
          split at haccepted
          · cases haccepted
          · rename_i hhash
            split at haccepted
            · cases haccepted
            · rename_i huid
              obtain ⟨hownermem, hownerlogin⟩ := h.get₂_iff.mp howner
              have hsame : owner = user :=
                h.eq_of_key₁ hownermem hmem (uidKey_eq_iff.mpr (not_not.mp huid))
              subst hsame
              exact ⟨hlogin.trans (congrArg some hownerlogin.symm), pass, hpass,
                (not_not.mp hhash).symm⟩
      · cases haccepted
    · intro hallows
      obtain ⟨hlogin, pass, hpass, hhash⟩ := hallows
      have howner : p.users.get₂ s.users user.credentials.login = some user :=
        h.get₂_iff.mpr ⟨hmem, rfl⟩
      rw [hlogin, hpass]
      dsimp only
      rw [howner]
      dsimp only
      rw [if_neg (not_not.mpr (show user.passwordHash = p.hashPassword pass from hhash.symm)),
        if_neg (not_not.mpr rfl)]

/-- Read-only keys are looked for where there is no shared key. -/
theorem decides_editProfileContent (hT : p.LawfulStore) (r : Request.EditProfileContent J) :
    Decides p config env s (.editProfileContent r) (r.handle p config s) := by
  have hfound : ∀ user, (r.authenticate p config s).toOption = some user ↔
      user ∈ p.users.values s.users ∧ r.Names p config user.uid user.credentials := by
    intro user
    rw [← authenticate_iff h]
    cases r.authenticate p config s with
    | error e => exact iff_of_false (by rintro ⟨⟩) (by rintro ⟨⟩)
    | ok found => exact ⟨fun hsome => congrArg Except.ok (Option.some.inj hsome),
        fun hok => congrArg some (Except.ok.inj hok)⟩
  have hread : (¬ (r.sharedKey = none ∧
      ∃ key ∈ config.readOnlyProfileKeys, (r.newProfile.lookup key).isSome)) ↔
        (r.sharedKey = none →
          ∀ key ∈ config.readOnlyProfileKeys, r.newProfile.lookup key = none) := by
    push Not
    simp only [Option.isSome_iff_ne_none, ne_eq, not_not]
  apply Decision.of_found (fun _ => Iff.rfl) hfound
  · intro hnone
    rw [Request.EditProfileContent.handle]
    cases hauthenticated : r.authenticate p config s with
    | error e => exact refused_raise e
    | ok found =>
      rw [hauthenticated] at hnone
      cases hnone
  · intro user hsome hmem
    have hok := (authenticate_iff h).mpr ((hfound user).mp hsome)
    rw [Request.EditProfileContent.handle, hok]
    dsimp only
    constructor
    · intro hkeys
      rw [if_neg (hread.mpr hkeys)]
      apply granted_updating hT h hmem
      exacts [⟨rfl, rfl⟩, rfl, rfl]
    · intro hkeys
      rw [if_pos (not_not.mp fun hnot => hkeys (hread.mp hnot))]
      exact refused_refuse _

/-- To whom `EditProfile` is granted depends on the profile, which is not in the ledger. -/
theorem decision_editProfile (hT : p.LawfulStore) (r : Request.EditProfile J) :
    Decision p env s (.editProfile r)
      (fun user => TokenOf p config r.token user.uid ∧
        ¬ ∃ key ∈ config.readOnlyProfileKeys,
          p.sameValue (r.newProfile.lookup key) (user.profileValue key) = false)
      (r.handle p config s) := by
  apply Decision.of_token h fun _ => Iff.rfl
  · intro e herror
    rw [Request.EditProfile.handle, herror]
    exact refused_raise e
  · intro hunknown
    rw [Request.EditProfile.handle, hunknown]
    exact refused_refuse _
  · intro user hfound hmem
    rw [Request.EditProfile.handle, hfound]
    constructor
    · intro hkeys
      dsimp only
      rw [if_neg hkeys]
      apply granted_updating hT h hmem
      exacts [⟨rfl, rfl⟩, rfl, rfl]
    · intro hkeys
      dsimp only
      rw [if_pos (not_not.mp hkeys)]
      exact refused_refuse _

theorem granted_delete (hT : p.LawfulStore) {r : Request.Delete}
    (hmem : user ∈ p.users.values s.users) (hfind : p.find s r.user = some user)
    (haccepted : r.authenticate p config s user = .ok ()) :
    Granted p env s (.delete r) user (r.handle p config s) := by
  obtain ⟨users, hdelete, hconsistent, hrest⟩ := hT.delete h hmem
  rw [Request.Delete.handle, hfind]
  dsimp only
  rw [haccepted]
  dsimp only
  rw [hdelete]
  exact ⟨rfl, ledger_deleted h hconsistent hmem hrest⟩

theorem decides_delete (hT : p.LawfulStore) (r : Request.Delete) :
    Decides p config env s (.delete r) (r.handle p config s) := by
  apply Decision.of_found (fun _ => Iff.rfl) fun _ => @find_iff _ _ p s _ h r.user
  · intro hnone
    rw [Request.Delete.handle, hnone]
    exact refused_refuse _
  · intro user hfind hmem
    constructor
    · intro hallows
      exact granted_delete h hT hmem hfind ((deleteAllows_iff h hmem).mpr hallows)
    · intro hallows
      rw [Request.Delete.handle, hfind]
      dsimp only
      cases haccepted : r.authenticate p config s user with
      | error reason => exact refused_refuse _
      | ok _ => exact absurd ((deleteAllows_iff h hmem).mp haccepted) hallows

omit h in
theorem refused_listUsers (r : Request.ListUsers) : Refused s (r.handle p config s) := by
  have hlist : Refused s (r.list p config s) := by
    rw [Request.ListUsers.list]
    split
    · exact refused_refuse _
    · split
      · exact refused_refuse _
      · exact ⟨rfl, rfl, rfl⟩
  rw [Request.ListUsers.handle]
  split
  · exact hlist
  · split
    · exact refused_raise _
    · exact refused_refuse _
    · split
      · exact refused_raise _
      · split
        · exact hlist
        · exact refused_raise _

omit h in
theorem refused_searchUser (r : Request.SearchUser) : Refused s (r.handle p s) := by
  rw [Request.SearchUser.handle]
  split
  · exact refused_raise _
  · split
    · exact refused_raise _
    · exact ⟨rfl, rfl, rfl⟩

/-- The key is drawn and stored, and only then is the mail sent. -/
theorem ask_spec (hT : p.LawfulStore) (r : Request.AskPasswordRecovery) :
    (r.handle p config env s = refuse s "no such user" ∧
      ∀ user ∈ p.users.values s.users,
        ¬ (Request.askPasswordRecovery r : Request J).Opens p config user.uid user.credentials) ∨
    ∃ user, (∀ other, (other ∈ p.users.values s.users ∧ r.user.Names other) ↔ other = user) ∧
      (Request.askPasswordRecovery r : Request J).Opens p config user.uid user.credentials ∧
      (respond (r.handle p config env s).1).reason ≠ some "no such user" ∧
      p.ledger (r.handle p config env s).2 = Function.update (p.ledger s) user.uid
        ((Request.askPasswordRecovery r : Request J).amend p env user.credentials) := by
  rw [Request.AskPasswordRecovery.handle]
  cases hfind : p.find s r.user with
  | none =>
    left
    refine ⟨rfl, ?_⟩
    intro user hmem hopens
    rw [(find_iff h).mpr ⟨hmem, hopens.1⟩] at hfind
    cases hfind
  | some user =>
    obtain ⟨hmem, hnames⟩ := (find_iff h).mp hfind
    have honly : ∀ other, (other ∈ p.users.values s.users ∧ r.user.Names other) ↔
        other = user := by
      intro other
      rw [← find_iff h, hfind, Option.some.injEq]
      exact eq_comm
    dsimp only
    split
    · rename_i hemail
      left
      refine ⟨rfl, ?_⟩
      intro other hother hopens
      rw [(honly other).mp ⟨hother, hopens.1⟩] at hopens
      exact hemail hopens.2
    · rename_i hemail
      right
      -- What is sent depends on the mailer; what is stored does not.
      generalize hresult : (if mail config env config.recoveryTemplate user.login
        user.contact.email (some env.uuid) = some true then
          Except.ok (Response.passwordRecoverySent
            ({ user with passwordRenewKey := some env.uuid } : User J).toPublic)
        else .error Raised.other) = result
      have hkeeps : ({ user with passwordRenewKey := some env.uuid } : User J).uid = user.uid ∧
        ({ user with passwordRenewKey := some env.uuid } : User J).login = user.login := ⟨rfl, rfl⟩
      obtain ⟨users, hupdating, hconsistent, hreplaced⟩ :=
        updating_replaces hT h hmem hkeeps result
      refine ⟨user, honly, ⟨hnames, not_not.mp hemail⟩, ?_⟩
      rw [hupdating]
      refine ⟨?_, ledger_replaced h hconsistent hkeeps hreplaced⟩
      rw [← hresult]
      split
      · exact (Option.some_ne_none _).symm
      · show some "unknown error" ≠ some "no such user"
        decide

end

/-! ## Any request -/

/-- A request that is granted to a user whom the ledger knows by a credential. -/
def Request.OnLedger : Request J → Prop
  | .addUser _ => False
  | .register _ => False
  | .editProfile _ => False
  | .askPasswordRecovery _ => False
  | _ => True

theorem handle_decides (hT : p.LawfulStore) (h : p.Consistent s) {request : Request J}
    (hrequest : request.OnLedger) :
    Decides p config env s request (request.handle p config env s) := by
  cases request with
  | getToken r => exact decides_getToken hT h r
  | addUser r => cases hrequest
  | validateUser r => exact decides_validateUser hT h r
  | getUser r => exact decides_getUser h r
  | getUserByCredentials r => exact decides_getUserByCredentials hT h r
  | modUser r => exact decides_modUser hT h r
  | register r => cases hrequest
  | updatePassword r => exact decides_updatePassword hT h r
  | listUsers r => exact .refused (fun _ _ => not_false) (refused_listUsers r)
  | checkPermission r => exact decides_checkPermission h r
  | setPermission r => exact decides_setPermission hT h r
  | passwordRecovery r => exact decides_passwordRecovery hT h r
  | askPasswordRecovery r => cases hrequest
  | searchUser r => exact .refused (fun _ _ => not_false) (refused_searchUser r)
  | editProfile r => cases hrequest
  | editProfileContent r => exact decides_editProfileContent h hT r
  | editContacts r => exact decides_editContacts hT h r
  | delete r => exact decides_delete h hT r
  | getContacts r => exact decides_getContacts h r

/-- A request is granted to the uid whose credentials are those that it has to be granted. -/
theorem granted_iff (hT : p.LawfulStore) (h : p.Consistent s) {m : Message J}
    (hrequest : m.request.OnLedger) {uid : Int} :
    (handleRequest p config env s m).response.granted = some uid ↔
      ∃ c, p.ledger s uid = some c ∧ m.request.Opens p config uid c := by
  show (respond (m.request.handle p config env s).1).granted = some uid ↔ _
  cases @handle_decides _ _ p config env s hT h _ hrequest with
  | granted user only effect =>
    rw [effect.response, Option.some.injEq]
    obtain ⟨hmem, hopens⟩ := (only user).mpr rfl
    constructor
    · rintro rfl
      exact ⟨user.credentials, ledger_of_mem h hmem, hopens⟩
    · intro hledger
      obtain ⟨c, hc, hopen⟩ := hledger
      obtain ⟨other, hother, rfl, rfl⟩ := (ledger_eq_some_iff h).mp hc
      rw [(only other).mp ⟨hother, hopen⟩]
  | refused none effect =>
    rw [effect.response]
    constructor
    · rintro ⟨⟩
    · intro hledger
      obtain ⟨c, hc, hopen⟩ := hledger
      obtain ⟨other, hother, rfl, rfl⟩ := (ledger_eq_some_iff h).mp hc
      exact absurd hopen (none other hother)

/-- Of a request for a new password, the response says whether there was such a user. -/
theorem ask_refused_iff (hT : p.LawfulStore) (h : p.Consistent s) {id : Option J}
    {r : Request.AskPasswordRecovery} :
    (handleRequest p config env s ⟨id, .askPasswordRecovery r⟩).response.reason =
        some "no such user" ↔
      ¬ ∃ uid c, p.ledger s uid = some c ∧
        (Request.askPasswordRecovery r : Request J).Opens p config uid c := by
  show (respond (r.handle p config env s).1).reason = _ ↔ _
  rcases @ask_spec _ _ p config env s h hT r with
    ⟨hrefuse, hnone⟩ | ⟨user, honly, hopens, hreason, -⟩
  · rw [hrefuse]
    refine iff_of_true rfl ?_
    intro hledger
    obtain ⟨uid, c, hc, hopen⟩ := hledger
    obtain ⟨other, hother, rfl, rfl⟩ := (ledger_eq_some_iff h).mp hc
    exact hnone other hother hopen
  · refine iff_of_false hreason (not_not.mpr ?_)
    exact ⟨user.uid, user.credentials, ledger_of_mem h ((honly user).mpr rfl).1, hopens⟩

/-! ## The ledger after a request -/

def exchange (p : Platform σ J) (config : Configuration) (s : Service σ) (c : Handling J) :
    Exchange J where
  env := c.env
  request := c.message.request
  response := (handleRequest p config c.env s c.message).response

theorem added_eq_none {response : Response J} {uid : Int}
    (h : response.granted = some uid) : response.added = none := by
  cases response with
  | userAdded user => cases h
  | _ => rfl

theorem settle_eq {request : Request J} (hask : ∀ r, request ≠ .askPasswordRecovery r)
    (ledger : Ledger) (response : Response J) :
    settle p ledger ⟨env, request, response⟩ = settleGranted p ledger env request response := by
  cases request with
  | askPasswordRecovery r => exact absurd rfl (hask r)
  | _ => rfl

theorem settle_of_decision {request : Request J} {opens : User J → Prop} {outcome : Outcome σ J}
    (h : p.Consistent s) (hask : ∀ r, request ≠ .askPasswordRecovery r)
    (hd : Decision p env s request opens outcome) :
    p.ledger outcome.2 = settle p (p.ledger s) ⟨env, request, respond outcome.1⟩ := by
  rw [settle_eq hask, settleGranted]
  cases hd with
  | granted user only effect =>
    rw [added_eq_none effect.response, effect.response, effect.ledger]
    dsimp only
    rw [ledger_of_mem h ((only user).mpr rfl).1]
    rfl
  | refused none effect =>
    rw [effect.added, effect.response, effect.service]

/-- The credentials of whoever asks for a new password are those of one user. -/
theorem settle_ask (hT : p.LawfulStore) (h : p.Consistent s) (r : Request.AskPasswordRecovery) :
    p.ledger (r.handle p config env s).2 =
      settle p (p.ledger s)
        ⟨env, .askPasswordRecovery r, respond (r.handle p config env s).1⟩ := by
  rw [settle]
  dsimp only
  rcases @ask_spec _ _ p config env s h hT r with
    ⟨hrefuse, -⟩ | ⟨user, honly, -, hreason, hledger⟩
  · rw [hrefuse, if_pos (show Response.reason (respond (refuse s "no such user").1) =
      some "no such user" from rfl)]
    rfl
  · rw [if_neg hreason, hledger]
    funext uid
    by_cases huid : uid = user.uid
    · subst huid
      obtain ⟨hmem, hnames⟩ := (honly user).mpr rfl
      rw [Function.update_self, ledger_of_mem h hmem, Option.bind_some]
      exact (if_pos (show r.user.Matches user.uid user.credentials from hnames)).symm
    · rw [Function.update_of_ne huid]
      cases hc : p.ledger s uid with
      | none => rfl
      | some c =>
        obtain ⟨other, hother, rfl, rfl⟩ := (ledger_eq_some_iff h).mp hc
        have hne : ¬ r.user.Matches other.uid other.credentials := by
          intro hnames
          exact huid (congrArg User.uid ((honly other).mp ⟨hother, hnames⟩))
        rw [Option.bind_some, if_neg hne]

theorem Newcomer.credentials {request : Request J} (hnew : Newcomer p config env s request user) :
    request.enter p env = some user.credentials := by
  cases hnew with
  | addUser key fresh next => rfl
  | register registrations fresh next => rfl

theorem ledger_of_added (hT : p.LawfulStore) (h : p.Consistent s) {request : Request J}
    {outcome : Outcome σ J} (heffect : Effect p config env s request outcome)
    (hafter : p.Consistent outcome.2) {newcomer : Public J}
    (hadded : (respond outcome.1).added = some newcomer) :
    p.ledger outcome.2 = Function.update (p.ledger s) newcomer.uid (request.enter p env) := by
  cases heffect with
  | unchanged quiet =>
    rw [quiet] at hadded
    cases hadded
  | changed change update quiet =>
    rw [quiet] at hadded
    cases hadded
  | added fresh add =>
    cases hadded
    rw [fresh.credentials]
    exact ledger_added h hafter (hT.mem_add h add)
  | deleted found accepted delete => cases hadded

/-- A request that may add a user, and changes nothing of the others. -/
theorem settle_newcomer (hT : p.LawfulStore) {uids : List Int} (h : Identities p s uids)
    {c : Handling J} (hread : ReadsLast s c)
    (hrequest : (∃ r, c.message.request = .addUser r) ∨ ∃ r, c.message.request = .register r) :
    p.ledger (handleRequest p config c.env s c.message).service =
      settle p (p.ledger s) (exchange p config s c) := by
  have hask : ∀ r, c.message.request ≠ .askPasswordRecovery r := by
    intro r hr
    rcases hrequest with ⟨r', hr'⟩ | ⟨r', hr'⟩
    · cases hr.symm.trans hr'
    · cases hr.symm.trans hr'
  have hamend : ∀ credentials, c.message.request.amend p c.env credentials = some credentials := by
    intro credentials
    rcases hrequest with ⟨r, hr⟩ | ⟨r, hr⟩
    · rw [hr]
      rfl
    · rw [hr]
      rfl
  rw [exchange, settle_eq hask, settleGranted]
  cases hadded : (handleRequest p config c.env s c.message).response.added with
  | none =>
    rw [refused_unchanged c.env hrequest.symm hadded]
    split
    · rename_i hsome
      cases hsome
    · simp only [hamend, Option.bind_fun_some, Function.update_eq_self]
    · rfl
  | some newcomer =>
    have hafter : p.Consistent (handleRequest p config c.env s c.message).service :=
      Identities.consistent (h.step hT hread)
    exact ledger_of_added hT h.consistent (handle_effect p config c.env s c.message.request)
      hafter hadded

/-- **The ledger** of the users stored after a request is the one that is kept from the
response. -/
theorem ledger_handleRequest (hT : p.LawfulStore) {uids : List Int} (h : Identities p s uids)
    {c : Handling J} (hread : ReadsLast s c) :
    p.ledger (handleRequest p config c.env s c.message).service =
      settle p (p.ledger s) (exchange p config s c) := by
  obtain ⟨env, id, request⟩ := c
  cases request with
  | addUser r => exact settle_newcomer hT h hread (.inl ⟨r, rfl⟩)
  | register r => exact settle_newcomer hT h hread (.inr ⟨r, rfl⟩)
  | askPasswordRecovery r => exact settle_ask hT h.consistent r
  | editProfile r =>
    exact settle_of_decision h.consistent (by rintro r ⟨⟩)
      (decision_editProfile h.consistent hT r)
  | _ =>
    exact settle_of_decision h.consistent (by rintro r ⟨⟩)
      (handle_decides hT h.consistent trivial)

end LibIpc.Authd

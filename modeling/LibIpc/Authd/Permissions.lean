import LibIpc.Authd.Effect

/-!
# authd: are the permissions set the permissions checked?

`CheckPermission` looks a uid up in the index on uids and a login in the index on logins;
`SetPermission` looks either up in the index on uids. The two name the same user for a uid, and for
a login only where it is written like the uid of its owner.
-/

namespace LibIpc.Authd

open Lib

variable {J σ : Type}

section
variable (p : Platform σ J) (config : Configuration) (s : Service σ)

/-- `CheckPermission` finds the user and answers a level. -/
def Checks (c : Request.CheckPermission) (level : PermissionLevel) : Prop :=
  ∃ uid, (c.handle p config s).1 = .ok (.permissionCheck c.service c.resource uid level)

/-- `SetPermission` answers that the level is set. -/
def IsSet (r : Request.SetPermission) : Prop :=
  ∃ uid, (r.handle p config s).1 = .ok (.permissionSet uid r.service r.resource r.permission)

/-- For an identifier that `CheckPermission` resolves, `SetPermission` sets the level that
`CheckPermission` then answers, and no other level of anybody. -/
def SetsWhatIsChecked (r : Request.SetPermission) : Prop :=
  ∀ c : Request.CheckPermission, c.user = r.user → c.service = r.service →
    c.resource = r.resource → (∃ level, Checks p config s c level) →
      IsSet p config s r ∧ Checks p config (r.handle p config s).2 c r.permission ∧
        ∀ user ∈ p.users.values s.users, ∀ service resource,
          ¬ (p.find s r.user = some user ∧ service = r.service ∧ resource = r.resource) →
            ∃ user' ∈ p.users.values (r.handle p config s).2.users,
              user'.uid = user.uid ∧ user'.login = user.login ∧
                user'.permission service resource = user.permission service resource

/-- A login is written like the uid of its owner, or like that of somebody else, and both have
the level already. -/
def NamesOwner (r : Request.SetPermission) : Prop :=
  ∀ login owner, r.user = .login login → p.find s (.login login) = some owner →
    toString owner.uid = login ∨
      ∃ other, p.users.get₁ s.users login = some other ∧
        owner.permission r.service r.resource = r.permission ∧
        other.permission r.service r.resource = r.permission

/-- The request may check a permission: its shared key, where there is one, is right, and its
token, where there is one, is of the user it names. -/
def Allowed (c : Request.CheckPermission) : Prop :=
  (∀ key, c.sharedKey = some key → key = config.sharedKey) ∧
    (c.sharedKey = none → c.token ≠ none) ∧
    ∀ token, c.token = some token → ∃ user, getUserFromToken p config s token = .ok (some user) ∧
      (.login user.login = c.user ∨ .uid user.uid = c.user)

end

section
variable {p : Platform σ J} {config : Configuration} {s : Service σ}

/-! ## Checking -/

theorem check_eq_iff {c : Request.CheckPermission} {uid : Int} {level : PermissionLevel} :
    (c.check p s).1 = .ok (.permissionCheck c.service c.resource uid level) ↔
      ∃ user, p.find s c.user = some user ∧ user.uid = uid ∧
        user.permission c.service c.resource = level := by
  rw [Request.CheckPermission.check]
  cases p.find s c.user with
  | none => simp [refuse]
  | some user => simp

theorem check_of_allowed {c : Request.CheckPermission} (h : Allowed p config s c) :
    c.handle p config s = c.check p s := by
  obtain ⟨hkey, hgiven, htoken⟩ := h
  have hright : ¬ (c.sharedKey.any fun key => key ≠ config.sharedKey) = true := by
    rw [Option.any_eq_true]
    intro hany
    obtain ⟨key, hsome, hne⟩ := hany
    exact of_decide_eq_true hne (hkey key hsome)
  rw [Request.CheckPermission.handle, if_neg hright]
  split
  · rename_i hnone
    rw [if_neg fun hkeyNone => hgiven hkeyNone hnone]
  · rename_i token hsome
    obtain ⟨user, hfound, hnames⟩ := htoken token hsome
    rw [hfound]
    show (if _ then refuse s "token does not match user" else c.check p s) = _
    rw [if_neg]
    tauto

theorem allowed_of_checks {c : Request.CheckPermission} {level : PermissionLevel}
    (h : Checks p config s c level) : Allowed p config s c := by
  obtain ⟨uid, hchecks⟩ := h
  rw [Request.CheckPermission.handle] at hchecks
  split at hchecks
  · cases hchecks
  · rename_i hany
    have hkey : ∀ key, c.sharedKey = some key → key = config.sharedKey := by
      intro key hsome
      by_contra hne
      apply hany
      rw [hsome]
      exact decide_eq_true hne
    split at hchecks
    · rename_i hnone
      split at hchecks
      · cases hchecks
      · rename_i hgiven
        refine ⟨hkey, fun hkeyNone => absurd hkeyNone hgiven, ?_⟩
        intro token hsome
        rw [hnone] at hsome
        cases hsome
    · rename_i token hsome
      split at hchecks
      · cases hchecks
      · cases hchecks
      · rename_i user hfound
        split at hchecks
        · cases hchecks
        · rename_i hnames
          refine ⟨hkey, fun _ => by simp [hsome], ?_⟩
          intro token' hsome'
          rw [hsome, Option.some.injEq] at hsome'
          subst hsome'
          exact ⟨user, hfound, by tauto⟩

/-- What `CheckPermission` answers: the level of the user it names, if it may. -/
theorem checks_iff {c : Request.CheckPermission} {level : PermissionLevel} :
    Checks p config s c level ↔ Allowed p config s c ∧
      ∃ user, p.find s c.user = some user ∧ user.permission c.service c.resource = level := by
  constructor
  · intro h
    have hallowed := allowed_of_checks h
    obtain ⟨uid, hchecks⟩ := h
    rw [check_of_allowed hallowed, check_eq_iff] at hchecks
    obtain ⟨user, hfound, -, hlevel⟩ := hchecks
    exact ⟨hallowed, user, hfound, hlevel⟩
  · intro h
    obtain ⟨hallowed, user, hfound, hlevel⟩ := h
    refine ⟨user.uid, ?_⟩
    rw [check_of_allowed hallowed, check_eq_iff]
    exact ⟨user, hfound, rfl, hlevel⟩

/-! ## Setting -/

variable {r : Request.SetPermission} {other : User J}

/-- With the right key, `SetPermission` writes the level of the user whose uid is written like the
identifier. -/
theorem setPermission_of_some (hT : p.LawfulStore) (h : p.Consistent s)
    (hkey : r.sharedKey = config.sharedKey)
    (hfound : p.users.get₁ s.users r.user.toS = some other) :
    ∃ users, r.handle p config s =
        (.ok (.permissionSet other.uid r.service r.resource r.permission), { s with users }) ∧
      p.Consistent { s with users } ∧
      p.users.Replaced other (other.setPermission r.service r.resource r.permission) s.users
        users := by
  obtain ⟨users, hupdate, hrest⟩ := @updating_replaces _ _ p s other
    (other.setPermission r.service r.resource r.permission) hT h (h.get₁_iff.mp hfound).1
    ⟨rfl, rfl⟩ (.ok (.permissionSet other.uid r.service r.resource r.permission))
  refine ⟨users, ?_, hrest⟩
  rw [Request.SetPermission.handle, if_neg (not_not.mpr hkey), hfound]
  exact hupdate

theorem isSet_iff (hT : p.LawfulStore) (h : p.Consistent s)
    (hkey : r.sharedKey = config.sharedKey) :
    IsSet p config s r ↔ ∃ other, p.users.get₁ s.users r.user.toS = some other := by
  constructor
  · intro hset
    obtain ⟨uid, hset⟩ := hset
    rw [Request.SetPermission.handle, if_neg (not_not.mpr hkey)] at hset
    split at hset
    · cases hset
    · rename_i user hfound
      exact ⟨user, hfound⟩
  · intro hsome
    obtain ⟨other, hfound⟩ := hsome
    obtain ⟨users, hhandle, -⟩ := setPermission_of_some hT h hkey hfound
    exact ⟨other.uid, by rw [hhandle]⟩

section
variable {users : σ} {id : UserId} {user user' : User J}

/-- A user written anew, with the same uid and login, is found as before. -/
theorem find_replaced (h : p.Consistent s) (h' : p.Consistent { s with users })
    (hkeeps : user'.uid = user.uid ∧ user'.login = user.login)
    (hreplaced : p.users.Replaced user user' s.users users) (hfound : p.find s id = some user) :
    p.find { s with users } id = some user' := by
  rw [find_iff h']
  exact ⟨(hreplaced user').mpr (.inl rfl), ((find_iff h).mp hfound).2.of_keeps hkeeps⟩

/-- So are the others. -/
theorem find_replaced_of_ne (h : p.Consistent s) (h' : p.Consistent { s with users })
    {written : User J} (hreplaced : p.users.Replaced user written s.users users)
    (hfound : p.find s id = some user') (hne : user' ≠ user) :
    p.find { s with users } id = some user' := by
  obtain ⟨hmem, hnames⟩ := (find_iff h).mp hfound
  rw [find_iff h']
  exact ⟨(hreplaced user').mpr (.inr ⟨hmem, hne⟩), hnames⟩

/-- What may be checked before a user is written anew may be checked after it. -/
theorem allowed_replaced (h : p.Consistent s) (h' : p.Consistent { s with users })
    (hkeeps : user'.uid = user.uid ∧ user'.login = user.login)
    (hreplaced : p.users.Replaced user user' s.users users) {c : Request.CheckPermission}
    (hallowed : Allowed p config s c) : Allowed p config { s with users } c := by
  obtain ⟨hkey, hgiven, htoken⟩ := hallowed
  refine ⟨hkey, hgiven, ?_⟩
  intro token hsome
  obtain ⟨owner, hfound, hnames⟩ := htoken token hsome
  obtain ⟨payload, hpayload, hfind⟩ := getUserFromToken_eq_ok hfound
  have hafter : ∀ found, p.find { s with users } (.uid payload.uid) = some found →
      getUserFromToken p config { s with users } token = .ok (some found) := by
    intro found hfind'
    rw [getUserFromToken, hpayload]
    exact congrArg Except.ok hfind'
  by_cases howner : owner = user
  · subst howner
    refine ⟨user', hafter user' (find_replaced h h' hkeeps hreplaced hfind), ?_⟩
    rw [hkeeps.1, hkeeps.2]
    exact hnames
  · exact ⟨owner, hafter owner (find_replaced_of_ne h h' hreplaced hfind howner), hnames⟩

end

/-! ## The law -/

/-- The law, once `SetPermission` has found a user and `CheckPermission` the owner of the
identifier: they are one user, or the level was there for both. -/
theorem setsWhatIsChecked_of_found (hT : p.LawfulStore) (h : p.Consistent s)
    (hkey : r.sharedKey = config.sharedKey) {owner : User J}
    (howner : p.find s r.user = some owner)
    (hother : p.users.get₁ s.users r.user.toS = some other)
    (hone : other = owner ∨ (owner.permission r.service r.resource = r.permission ∧
      other.permission r.service r.resource = r.permission)) :
    SetsWhatIsChecked p config s r := by
  intro c hcuser hcservice hcresource hchecks
  obtain ⟨level, hchecks⟩ := hchecks
  obtain ⟨users, hhandle, h', hreplaced⟩ := setPermission_of_some hT h hkey hother
  have hkeeps : (other.setPermission r.service r.resource r.permission).uid = other.uid ∧
      (other.setPermission r.service r.resource r.permission).login = other.login := ⟨rfl, rfl⟩
  have hallowed := allowed_replaced h h' hkeeps hreplaced (checks_iff.mp hchecks).1
  have hset : (other.setPermission r.service r.resource r.permission).permission r.service
      r.resource = r.permission := by
    rw [permission_setPermission, if_pos ⟨rfl, rfl⟩]
  refine ⟨⟨other.uid, by rw [hhandle]⟩, ?_, ?_⟩
  · rw [hhandle, checks_iff, hcuser, hcservice, hcresource]
    refine ⟨hallowed, ?_⟩
    by_cases hsame : owner = other
    · rw [hsame] at howner
      exact ⟨_, find_replaced h h' hkeeps hreplaced howner, hset⟩
    · rcases hone with heq | ⟨hlevel, -⟩
      · exact absurd heq.symm hsame
      · exact ⟨owner, find_replaced_of_ne h h' hreplaced howner hsame, hlevel⟩
  · intro user hmem service resource hapart
    rw [hhandle]
    by_cases hsame : user = other
    · subst hsame
      refine ⟨_, (hreplaced _).mpr (.inl rfl), rfl, rfl, ?_⟩
      rw [permission_setPermission]
      split
      · rename_i hplace
        rcases hone with heq | ⟨-, hlevel⟩
        · rw [heq] at hapart
          exact absurd ⟨howner, hplace⟩ hapart
        · rw [hplace.1, hplace.2, hlevel]
      · rfl
    · exact ⟨user, (hreplaced user).mpr (.inr ⟨hmem, hsame⟩), rfl, rfl, rfl⟩

theorem namesOwner_of_setsWhatIsChecked (hT : p.LawfulStore) (h : p.Consistent s)
    (hkey : r.sharedKey = config.sharedKey) (hlaw : SetsWhatIsChecked p config s r) :
    NamesOwner p s r := by
  intro login owner hlogin howner
  have hfind : p.find s r.user = some owner := by rw [hlogin, howner]
  -- The check with the shared key.
  have hchecks : Checks p config s
      { sharedKey := some config.sharedKey, user := r.user, service := r.service,
        resource := r.resource } (owner.permission r.service r.resource) := by
    rw [checks_iff]
    exact ⟨⟨by simp, by simp, by simp⟩, owner, hfind, rfl⟩
  obtain ⟨hset, hafter, hothers⟩ := hlaw _ rfl rfl rfl ⟨_, hchecks⟩
  obtain ⟨other, hother⟩ := (isSet_iff hT h hkey).mp hset
  obtain ⟨users, hhandle, h', hreplaced⟩ := setPermission_of_some hT h hkey hother
  have hmem := (h.get₁_iff.mp hother).1
  rw [hlogin] at hother
  by_cases hsame : owner = other
  · left
    rw [hsame]
    exact (h.get₁_iff.mp hother).2
  · right
    refine ⟨other, hother, ?_, ?_⟩
    · rw [hhandle, checks_iff] at hafter
      obtain ⟨-, found, hfound, hlevel⟩ := hafter
      rw [find_replaced_of_ne h h' hreplaced hfind hsame, Option.some.injEq] at hfound
      rw [hfound]
      exact hlevel
    · obtain ⟨user', hmem', huid, -, hlevel⟩ := hothers other hmem r.service r.resource (by
        intro hand
        rw [hfind, Option.some.injEq] at hand
        exact hsame hand.1)
      rw [hhandle] at hmem'
      have hwritten : user' = other.setPermission r.service r.resource r.permission :=
        h'.eq_of_key₁ hmem' ((hreplaced _).mpr (.inl rfl)) (uidKey_eq_iff.mpr huid)
      rw [← hlevel, hwritten, permission_setPermission, if_pos ⟨rfl, rfl⟩]

theorem setsWhatIsChecked_of_namesOwner (hT : p.LawfulStore) (h : p.Consistent s)
    (hkey : r.sharedKey = config.sharedKey) (hnames : NamesOwner p s r) :
    SetsWhatIsChecked p config s r := by
  intro c hcuser hcservice hcresource hchecks
  obtain ⟨level, hchecks'⟩ := hchecks
  obtain ⟨-, owner, howner, -⟩ := checks_iff.mp hchecks'
  rw [hcuser] at howner
  have hlaw : SetsWhatIsChecked p config s r := by
    cases hid : r.user with
    | uid uid =>
      have hother : p.users.get₁ s.users r.user.toS = some owner := by
        rw [hid] at howner ⊢
        exact howner
      exact setsWhatIsChecked_of_found hT h hkey howner hother (.inl rfl)
    | login login =>
      have howner' : p.find s (.login login) = some owner := by rw [← hid, howner]
      rcases hnames login owner hid howner' with huid | ⟨other, hother, hlevels⟩
      · have hother : p.users.get₁ s.users r.user.toS = some owner := by
          rw [hid, h.get₁_iff]
          exact ⟨mem_of_find h howner, huid⟩
        exact setsWhatIsChecked_of_found hT h hkey howner hother (.inl rfl)
      · rw [show login = r.user.toS by rw [hid]; rfl] at hother
        exact setsWhatIsChecked_of_found hT h hkey howner hother (.inr hlevels)
  exact hlaw c hcuser hcservice hcresource ⟨level, hchecks'⟩

/-- **Permissions**: for a uid the permissions set are the ones checked; for a login, exactly where
it names its owner as a uid too. -/
theorem setsWhatIsChecked_iff (hT : p.LawfulStore) (h : p.Consistent s)
    (hkey : r.sharedKey = config.sharedKey) :
    SetsWhatIsChecked p config s r ↔ NamesOwner p s r :=
  ⟨namesOwner_of_setsWhatIsChecked hT h hkey, setsWhatIsChecked_of_namesOwner hT h hkey⟩

/-- Alice may read the blog, by her uid. -/
theorem setsWhatIsChecked_uid :
    SetsWhatIsChecked inMemory {} aliceAlone
      { sharedKey := "nico-nico-nii", user := .uid 1000, service := "blog", resource := "*",
        permission := .read } := by
  apply (setsWhatIsChecked_iff lawful_inMemory consistent_aliceAlone rfl).mpr
  intro login owner hlogin
  cases hlogin

/-- By her login, which `CheckPermission` resolves, she is not found. -/
theorem not_setsWhatIsChecked_login :
    ¬ SetsWhatIsChecked inMemory {} aliceAlone
      { sharedKey := "nico-nico-nii", user := .login "alice", service := "blog", resource := "*",
        permission := .read } := by
  intro hlaw
  have hchecks : Checks inMemory {} aliceAlone
      { sharedKey := some "nico-nico-nii", user := .login "alice", service := "blog",
        resource := "*" } .none := ⟨1000, rfl⟩
  obtain ⟨⟨uid, hset⟩, -, -⟩ := hlaw _ rfl rfl rfl ⟨_, hchecks⟩
  cases hset

end

end LibIpc.Authd

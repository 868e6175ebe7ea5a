import LibIpc.Authd.Authority

/-!
# authd: read-only keys of profiles

`EditProfile` compares the values under the read-only keys, and `EditProfileContent` refuses the
keys; the second one does so only where the request has no shared key, and compares the shared key
only where there is no token. `keepsReadOnly_iff` says that this is the one way past the rule, but
for a null that comes or goes.
-/

namespace LibIpc.Authd

open Lib

variable {J σ : Type}

section
variable (p : Platform σ J) (config : Configuration) (env : Env) (s : Service σ)

/-- The value under a key, or its absence, is what it was; a null is a value. -/
inductive Kept : Option J → Option J → Prop where
  | same {value : Option J} : Kept value value
  | equal {old new : J} (h : p.beq new old = true) : Kept (some old) (some new)

/-- Of a user who is stored before and after a request, what is under a read-only key differs only
if the request has the shared key. -/
def KeepsReadOnly (m : Message J) : Prop :=
  ∀ old ∈ p.users.values s.users,
    ∀ new ∈ p.users.values (handleRequest p config env s m).service.users,
      new.uid = old.uid → new.login = old.login → ∀ key ∈ config.readOnlyProfileKeys,
        ¬ Kept p (old.profileValue key) (new.profileValue key) →
          m.request.sharedKey = some config.sharedKey

/-- The ways past the rule, with the token of a user: a profile that is equal to the old one under
the read-only keys but has a null where this has nothing, or the other way round; and a content
with a read-only key, sent with a token and any other key than the shared one. -/
def Bypasses : Request J → Prop
  | .editProfile r => ∃ user, getUserFromToken p config s r.token = .ok (some user) ∧
      (∀ key ∈ config.readOnlyProfileKeys,
        p.sameValue (r.newProfile.lookup key) (user.profileValue key) = true) ∧
      ∃ key ∈ config.readOnlyProfileKeys,
        ¬ Kept p (user.profileValue key) (r.newProfile.lookup key)
  | .editProfileContent r => ∃ token user wrong, r.token = some token ∧
      getUserFromToken p config s token = .ok (some user) ∧
      r.sharedKey = some wrong ∧ wrong ≠ config.sharedKey ∧
      ∃ key ∈ config.readOnlyProfileKeys, ∃ value, r.newProfile.lookup key = some value ∧
        ¬ Kept p (user.profileValue key) (some value)
  | _ => False

end

/-! ## Merging -/

theorem lookup_foldl_insert (entries : List (Σ _ : String, J)) (hnodup : entries.NodupKeys)
    (profile : Hash J) (key : String) :
    (entries.foldl (fun merged entry => merged.insert entry.1 entry.2) profile).lookup key =
      (entries.dlookup key).or (profile.lookup key) := by
  induction entries generalizing profile with
  | nil => rfl
  | cons entry entries ih =>
    obtain ⟨key', value⟩ := entry
    rw [List.nodupKeys_cons] at hnodup
    rw [List.foldl_cons, ih hnodup.2]
    by_cases hkey : key = key'
    · subst hkey
      rw [List.dlookup_eq_none.mpr hnodup.1, List.dlookup_cons_eq, AList.lookup_insert]
      rfl
    · rw [AList.lookup_insert_ne hkey, List.dlookup_cons_ne _ _ hkey]

/-- The new value where there is one, the old one elsewhere. -/
theorem lookup_mergeProfile (profile newProfile : Hash J) (key : String) :
    (mergeProfile profile newProfile).lookup key =
      (newProfile.lookup key).or (profile.lookup key) :=
  lookup_foldl_insert newProfile.entries newProfile.nodupKeys profile key

section
variable {p : Platform σ J} {config : Configuration} {env : Env} {s : Service σ}
  {request : Request J} {user user' : User J} {key : String}

/-! ## The rule and the ways past it -/

/-- Without the shared key, a read-only key changes only in these ways. -/
theorem bypasses_of_change (hc : Change p config env s request user user')
    (hkey : key ∈ config.readOnlyProfileKeys)
    (hdiffers : ¬ Kept p (user.profileValue key) (user'.profileValue key))
    (hshared : request.sharedKey ≠ some config.sharedKey) : Bypasses p config s request := by
  cases hc with
  | getToken found password => exact absurd .same hdiffers
  | validateUser found activation => exact absurd .same hdiffers
  | getUserByCredentials found password => exact absurd .same hdiffers
  | modUser shared found => exact absurd .same hdiffers
  | updatePassword found password => exact absurd .same hdiffers
  | passwordRecovery found renew => exact absurd .same hdiffers
  | askPasswordRecovery found email => exact absurd .same hdiffers
  | setPermission shared found => exact absurd .same hdiffers
  | editProfile found same => exact ⟨user, found, same, key, hkey, hdiffers⟩
  | @editProfileContent r _ found absent =>
    have hvalue : ({ user with
        profile := some (mergeProfile (user.profile.getD ∅) r.newProfile) } : User J).profileValue
          key = (r.newProfile.lookup key).or (user.profileValue key) :=
      lookup_mergeProfile _ _ key
    rw [hvalue] at hdiffers
    cases hlookup : r.newProfile.lookup key with
    | none =>
      rw [hlookup] at hdiffers
      exact absurd .same hdiffers
    | some value =>
      rw [hlookup] at hdiffers
      -- The key was looked for unless there was a shared key.
      cases hwrong : r.sharedKey with
      | none =>
        rw [absent hwrong key hkey] at hlookup
        cases hlookup
      | some wrong =>
        rcases authenticate_eq_ok found with ⟨token, htoken, hfound⟩ | ⟨-, hright, -⟩
        · refine ⟨token, user, wrong, htoken, hfound, hwrong, ?_, key, hkey, value, hlookup,
            hdiffers⟩
          rintro rfl
          exact hshared hwrong
        · exact absurd hright hshared
  | editContacts found => exact absurd .same hdiffers

theorem editProfile_of_same {r : Request.EditProfile J}
    (hfound : getUserFromToken p config s r.token = .ok (some user))
    (hsame : ∀ key ∈ config.readOnlyProfileKeys,
      p.sameValue (r.newProfile.lookup key) (user.profileValue key) = true) :
    ∃ result, r.handle p config s =
      updating p s { user with profile := some r.newProfile } result := by
  have hnone : ¬ ∃ key ∈ config.readOnlyProfileKeys,
      p.sameValue (r.newProfile.lookup key) (user.profileValue key) = false := by
    push Not
    intro key hkey
    rw [hsame key hkey]
    exact Bool.noConfusion
  rw [Request.EditProfile.handle, hfound]
  exact ⟨_, if_neg hnone⟩

/-- A shared key is not looked at where there is a token. -/
theorem editProfileContent_of_token {r : Request.EditProfileContent J} {token wrong : String}
    (htoken : r.token = some token)
    (hfound : getUserFromToken p config s token = .ok (some user))
    (hwrong : r.sharedKey = some wrong) :
    ∃ result, r.handle p config s = updating p s
      { user with profile := some (mergeProfile (user.profile.getD ∅) r.newProfile) } result := by
  have hauthenticated : r.authenticate p config s = .ok user := by
    simp only [Request.EditProfileContent.authenticate, htoken, hfound]
  have hgiven : ¬ (r.sharedKey = none ∧
      ∃ key ∈ config.readOnlyProfileKeys, (r.newProfile.lookup key).isSome) := by
    rw [hwrong]
    intro hnone
    cases hnone.1
  rw [Request.EditProfileContent.handle, hauthenticated]
  exact ⟨_, if_neg hgiven⟩

/-- Each of these ways does change a read-only key, without the shared key. -/
theorem not_keepsReadOnly_of_bypasses (hT : p.LawfulStore) (h : p.Consistent s) {m : Message J}
    (hbypass : Bypasses p config s m.request) : ¬ KeepsReadOnly p config env s m := by
  intro hkeeps
  obtain ⟨id, request⟩ := m
  cases request with
  | editProfile r =>
    obtain ⟨user, hfound, hsame, key, hkey, hdiffers⟩ := hbypass
    obtain ⟨result, hhandle⟩ := editProfile_of_same hfound hsame
    have hmem := mem_of_token h hfound
    have hafter := @mem_updating _ _ p s user { user with profile := some r.newProfile } hT h hmem
      ⟨rfl, rfl⟩ result
    rw [← hhandle] at hafter
    cases hkeeps user hmem _ hafter rfl rfl key hkey hdiffers
  | editProfileContent r =>
    obtain ⟨token, user, wrong, htoken, hfound, hwrong, hne, key, hkey, value, hvalue, hdiffers⟩ :=
      hbypass
    obtain ⟨result, hhandle⟩ := editProfileContent_of_token htoken hfound hwrong
    have hmem := mem_of_token h hfound
    have hafter := @mem_updating _ _ p s user
      { user with profile := some (mergeProfile (user.profile.getD ∅) r.newProfile) } hT h hmem
      ⟨rfl, rfl⟩ result
    rw [← hhandle] at hafter
    have hlookup : (mergeProfile (user.profile.getD ∅) r.newProfile).lookup key = some value := by
      rw [lookup_mergeProfile, hvalue]
      rfl
    have hshared : r.sharedKey = some config.sharedKey := by
      apply hkeeps user hmem _ hafter rfl rfl key hkey
      show ¬ Kept p _ ((mergeProfile (user.profile.getD ∅) r.newProfile).lookup key)
      rw [hlookup]
      exact hdiffers
    rw [hwrong, Option.some.injEq] at hshared
    exact hne hshared
  | _ => cases hbypass

/-- **Read-only keys**: what is under them differs only if the request has the shared key, unless
the request bypasses the rule in one of the two ways. -/
theorem keepsReadOnly_iff (hT : p.LawfulStore) (h : p.Consistent s) (m : Message J) :
    KeepsReadOnly p config env s m ↔ ¬ Bypasses p config s m.request := by
  constructor
  · intro hkeeps hbypass
    exact not_keepsReadOnly_of_bypasses hT h hbypass hkeeps
  · intro hbypass old hold new hnew huid hlogin key hkey hdiffers
    have hsame : new ∉ p.users.values s.users := by
      intro hmem
      rw [h.eq_of_key₁ hmem hold (uidKey_eq_iff.mpr huid)] at hdiffers
      exact hdiffers .same
    by_contra hshared
    rcases (handle_effect p config env s m.request).gained hT h hnew hsame with
      ⟨user, hmem, hchange⟩ | hnewcomer
    · have huser : user = old :=
        h.eq_of_key₁ hmem hold (uidKey_eq_iff.mpr (hchange.keeps.1.symm.trans huid))
      subst huser
      exact hbypass (bypasses_of_change hchange hkey hdiffers hshared)
    · -- Nobody had the login of a newcomer.
      have hfresh := hnewcomer.fresh.2
      rw [hlogin, h.get₂_iff.mpr ⟨hold, rfl⟩] at hfresh
      cases hfresh

/-- Alice edits her profile with her token; her quota is read-only. -/
theorem keepsReadOnly_token :
    KeepsReadOnly inMemory { readOnlyProfileKeys := ["quota"] } quietEnv aliceAlone
      ⟨none, .editProfileContent
        ⟨some aliceToken, none, none, (∅ : Hash Json).insert "quota" (.int 500)⟩⟩ := by
  apply (keepsReadOnly_iff lawful_inMemory consistent_aliceAlone _).mpr
  intro hbypass
  obtain ⟨token, user, wrong, -, -, hwrong, -⟩ := hbypass
  cases hwrong

/-- With a wrong shared key beside the token, she gives herself a quota. -/
theorem not_keepsReadOnly_wrong_key :
    ¬ KeepsReadOnly inMemory { readOnlyProfileKeys := ["quota"] } quietEnv aliceAlone
      ⟨none, .editProfileContent
        ⟨some aliceToken, some "wrong", none, (∅ : Hash Json).insert "quota" (.int 500)⟩⟩ := by
  intro hkeeps
  have hdiffers : ¬ Kept inMemory (some (Json.int 5)) (some (Json.int 500)) := by
    intro hkept
    cases hkept with
    | equal h => exact absurd h (by decide)
  have hshared : some "wrong" = some "nico-nico-nii" :=
    hkeeps alice (List.mem_singleton.mpr rfl) _ (List.mem_singleton.mpr rfl) rfl rfl "quota"
      (List.mem_singleton.mpr rfl) hdiffers
  exact absurd (Option.some.inj hshared) (by decide)

end

end LibIpc.Authd

import LibIpc.Authd.Decisions

/-!
# authd: conversations

The requests that authd handles one after the other, from an empty storage, each with its
response. The ledger that is kept from them decides to whom the next request is granted. Two
consequences: a token is of the user it was given to until that user is deleted, and of nobody
after that; a key that was sent by mail is good once.
-/

namespace LibIpc.Authd

open Lib

variable {J σ : Type}

/-- One request is handled, and what is seen of it is the exchange. -/
def converse (p : Platform σ J) (config : Configuration) (s : Service σ) (c : Handling J) :
    Option (Service σ × List (Exchange J)) :=
  some ((handleRequest p config c.env s c.message).service, [exchange p config s c])

/-- The ledger that is kept from a conversation. -/
def keepLedger (p : Platform σ J) (talk : List (Exchange J)) : Ledger :=
  talk.foldl (settle p) fun _ => none

/-- The user with this uid is deleted in the exchange. -/
def Exchange.Deletes (x : Exchange J) (uid : Int) : Prop :=
  (∃ r, x.request = .delete r) ∧ x.response.granted = some uid

/-- A key that authd draws and sends by mail. -/
inductive MailedKey where
  | renew (key : String)
  | activation (key : String)

/-- The key in a request. -/
def Request.mailedKey : Request J → Option MailedKey
  | .validateUser r => some (.activation r.activationKey)
  | .passwordRecovery r => some (.renew r.passwordRenewKey)
  | _ => none

/-- The key that a request has drawn for a user who is there. -/
def Request.draws (env : Env) : Request J → Option MailedKey
  | .askPasswordRecovery _ => some (.renew env.uuid)
  | _ => none

/-- The key is still to be used. -/
def Credentials.Has (c : Credentials) : MailedKey → Prop
  | .renew key => c.passwordRenewKey = some key
  | .activation key => c.activationKey = some key

section
variable {p : Platform σ J} {config : Configuration} {s s' : Service σ} {uids : List Int}
  {uid : Int} {ledger : Ledger} {x : Exchange J} {c c' : Credentials} {cs : List (Handling J)}
  {talk : List (Exchange J)}

/-! ## What becomes of credentials -/

/-- A login is for life. -/
theorem amend_login {env : Env} {request : Request J}
    (h : request.amend p env c = some c') : c'.login = c.login := by
  cases request with
  | delete r => cases h
  | _ =>
    cases h
    rfl

theorem amend_eq_none {env : Env} {request : Request J} (h : request.amend p env c = none) :
    ∃ r, request = .delete r := by
  cases request with
  | delete r => exact ⟨r, rfl⟩
  | _ => cases h

/-- Only a key that the request draws is new. -/
theorem amend_has {env : Env} {request : Request J} {key : MailedKey}
    (h : request.amend p env c = some c') (hhas : c'.Has key) :
    c.Has key ∨ request.draws env = some key := by
  cases request with
  | delete r => cases h
  | validateUser r =>
    cases h
    cases key with
    | renew key => exact .inl hhas
    | activation key => cases hhas
  | passwordRecovery r =>
    cases h
    cases key with
    | renew key => cases hhas
    | activation key => exact .inl hhas
  | askPasswordRecovery r =>
    cases h
    cases key with
    | renew key => exact .inr (congrArg some (congrArg MailedKey.renew (Option.some.inj hhas)))
    | activation key => exact .inl hhas
  | _ =>
    cases h
    cases key with
    | renew key => exact .inl hhas
    | activation key => exact .inl hhas

/-- A key that is used is gone. -/
theorem amend_uses {env : Env} {request : Request J} {key : MailedKey}
    (hkey : request.mailedKey = some key) (h : request.amend p env c = some c') :
    ¬ c'.Has key := by
  cases request with
  | validateUser r =>
    cases hkey
    cases h
    rintro ⟨⟩
  | passwordRecovery r =>
    cases hkey
    cases h
    rintro ⟨⟩
  | _ => cases hkey

/-- A user who was there before an exchange is left alone, or has their credentials amended. -/
theorem settle_apply (hnew : ∀ user, x.response.added = some user → user.uid ≠ uid) :
    settle p ledger x uid = ledger uid ∨
      (settle p ledger x uid = (ledger uid).bind fun c => x.request.amend p x.env c) ∧
        (x.response.granted = some uid ∨ ∃ r, x.request = .askPasswordRecovery r) := by
  obtain ⟨env, request, response⟩ := x
  by_cases hask : ∃ r, request = .askPasswordRecovery r
  · obtain ⟨r, rfl⟩ := hask
    rw [settle]
    dsimp only
    split
    · exact .inl rfl
    · dsimp only
      cases hc : ledger uid with
      | none => exact .inl rfl
      | some c =>
        rw [Option.bind_some, Option.bind_some]
        split
        · exact .inr ⟨rfl, .inr ⟨r, rfl⟩⟩
        · exact .inl rfl
  · rw [settle_eq fun r hr => hask ⟨r, hr⟩, settleGranted]
    cases hadded : response.added with
    | some user => exact .inl (Function.update_of_ne (hnew user hadded).symm _ _)
    | none =>
      cases hgranted : response.granted with
      | none => exact .inl rfl
      | some other =>
        by_cases huid : uid = other
        · subst huid
          exact .inr ⟨Function.update_self _ _ _, .inl rfl⟩
        · exact .inl (Function.update_of_ne huid _ _)

theorem settle_granted (hask : ∀ r, x.request ≠ .askPasswordRecovery r)
    (hgranted : x.response.granted = some uid) :
    settle p ledger x uid = (ledger uid).bind fun c => x.request.amend p x.env c := by
  obtain ⟨env, request, response⟩ := x
  rw [settle_eq hask, settleGranted, added_eq_none hgranted]
  dsimp only
  rw [show response.granted = some uid from hgranted]
  exact Function.update_self _ _ _

/-! ## One exchange, and runs of them -/

theorem exchange_new (hT : p.LawfulStore) (h : Identities p s uids) {c : Handling J}
    (hread : ReadsLast s c) (hmem : uid ∈ uids) :
    ∀ user, (exchange p config s c).response.added = some user → user.uid ≠ uid := by
  intro user hadded huid
  have hnodup : (uids ++ givenUids [(handleRequest p config c.env s c.message).response]).Nodup :=
    Identities.nodup (h.step hT hread)
  have hgiven : user.uid ∈ givenUids [(handleRequest p config c.env s c.message).response] := by
    apply List.mem_map_of_mem
    exact List.mem_filterMap.mpr ⟨_, List.mem_singleton.mpr rfl, hadded⟩
  exact List.disjoint_of_nodup_append hnodup (huid ▸ hmem) hgiven

theorem ledger_of_empty (h : EmptyStorage p s) : p.ledger s = fun _ => none := by
  funext uid
  rw [Option.eq_none_iff_forall_ne_some]
  intro c hc
  obtain ⟨user, hmem, -⟩ := (ledger_eq_some_iff h.consistent).mp hc
  rw [h.values] at hmem
  cases hmem

/-- Whatever the requests, each is answered. -/
theorem exists_runAll_converse (s : Service σ) (cs : List (Handling J)) :
    ∃ s' talk, runAll (converse p config) s cs = some (s', talk) := by
  induction cs generalizing s with
  | nil => exact ⟨s, [], rfl⟩
  | cons c cs ih =>
    obtain ⟨s', talk, hrun⟩ := ih (handleRequest p config c.env s c.message).service
    refine ⟨s', exchange p config s c :: talk, ?_⟩
    rw [runAll, converse, Option.bind_some, hrun]
    rfl

theorem map_request_of_converse (hrun : runAll (converse p config) s cs = some (s', talk)) :
    talk.map Exchange.request = cs.map (fun c => c.message.request) := by
  induction cs generalizing s talk with
  | nil =>
    cases hrun
    rfl
  | cons c cs ih =>
    obtain ⟨s₁, es₁, es₂, hone, hrest, rfl⟩ := runAll_cons_eq_some hrun
    cases hone
    rw [List.map_append, ih hrest]
    rfl

/-- Along a run from an empty storage, the users stored are those of the ledger. -/
theorem kept_of_converse (hT : p.LawfulStore) (hempty : EmptyStorage p s)
    (hread : RunMeets (converse p config) ReadsLast s cs)
    (hrun : runAll (converse p config) s cs = some (s', talk)) :
    p.ledger s' = keepLedger p talk ∧ ∃ uids, Identities p s' uids := by
  apply runAll_history (R := fun s talk => p.ledger s = keepLedger p talk ∧
    ∃ uids, Identities p s uids) _ _ hread hrun
  · intro s c s₁ es₁ es hkept hmeets hstep
    obtain ⟨hledger, uids, h⟩ := hkept
    cases hstep
    refine ⟨?_, _, h.step hT hmeets⟩
    rw [ledger_handleRequest hT h hmeets, hledger, keepLedger, keepLedger, List.foldl_append]
    rfl
  · exact ⟨ledger_of_empty hempty, [], .of_empty hempty⟩

theorem emptyStorage_inMemory :
    EmptyStorage inMemory { users := [], lastUid := none } where
  consistent := IndexedTable.consistent_list List.nodup_nil List.nodup_nil
  values := rfl
  lastUid := rfl

/-- What has become of a user: nobody has deleted them and they have their login, or they were
deleted and the uid is nobody's. -/
inductive Fate (p : Platform σ J) (s : Service σ) (uid : Int) (login : String)
    (talk : List (Exchange J)) : Prop
  | stays (kept : ¬ ∃ x ∈ talk, x.Deletes uid) {c : Credentials}
      (stored : p.ledger s uid = some c) (login : c.login = login)
  | gone (deleted : ∃ x ∈ talk, x.Deletes uid) (free : p.ledger s uid = none)

theorem Fate.step {login : String} (hf : Fate p s uid login talk)
    (hnew : ∀ user, x.response.added = some user → user.uid ≠ uid)
    (hledger : p.ledger s' = settle p (p.ledger s) x) : Fate p s' uid login (talk ++ [x]) := by
  have happly := @settle_apply _ _ p uid (p.ledger s) x hnew
  rw [← hledger] at happly
  cases hf with
  | gone deleted free =>
    have hfree : p.ledger s' uid = none := by
      rcases happly with hsame | ⟨hamended, -⟩
      · rw [hsame, free]
      · rw [hamended, free]
        rfl
    obtain ⟨y, hy, hdeletes⟩ := deleted
    exact .gone ⟨y, List.mem_append_left _ hy, hdeletes⟩ hfree
  | @stays kept c stored hlogin =>
    by_cases hdeletes : x.Deletes uid
    · apply Fate.gone ⟨x, List.mem_append_right _ (List.mem_singleton.mpr rfl), hdeletes⟩
      obtain ⟨⟨r, hr⟩, hgranted⟩ := hdeletes
      have hask : ∀ r', x.request ≠ .askPasswordRecovery r' := by
        intro r' hr'
        cases hr.symm.trans hr'
      rw [hledger, settle_granted hask hgranted, stored, hr]
      rfl
    · have hkept : ¬ ∃ y ∈ talk ++ [x], y.Deletes uid := by
        rintro ⟨y, hy, hdeleted⟩
        rcases List.mem_append.mp hy with hold | hlast
        · exact kept ⟨y, hold, hdeleted⟩
        · rw [List.mem_singleton.mp hlast] at hdeleted
          exact hdeletes hdeleted
      rcases happly with hsame | ⟨hamended, hwho⟩
      · exact .stays hkept (hsame.trans stored) hlogin
      · rw [stored, Option.bind_some] at hamended
        cases hafter : x.request.amend p x.env c with
        | some c' => exact .stays hkept (hamended.trans hafter) ((amend_login hafter).trans hlogin)
        | none =>
          -- Only a `Delete` leaves nothing.
          obtain ⟨r, hr⟩ := amend_eq_none hafter
          rcases hwho with hgranted | ⟨r', hr'⟩
          · exact absurd ⟨⟨r, hr⟩, hgranted⟩ hdeletes
          · cases hr.symm.trans hr'

theorem fate_of_converse (hT : p.LawfulStore) {login : String} (h : Identities p s uids)
    (hgiven : uid ∈ uids) (hstored : p.ledger s uid = some c) (hlogin : c.login = login)
    (hread : RunMeets (converse p config) ReadsLast s cs)
    (hrun : runAll (converse p config) s cs = some (s', talk)) :
    Fate p s' uid login talk ∧ ∃ uids, Identities p s' uids ∧ uid ∈ uids := by
  apply runAll_history (R := fun s talk => Fate p s uid login talk ∧
    ∃ uids, Identities p s uids ∧ uid ∈ uids) _ _ hread hrun
  · intro s c s₁ es₁ es hpast hmeets hstep
    obtain ⟨hfate, uids, h, hgiven⟩ := hpast
    cases hstep
    refine ⟨hfate.step (exchange_new hT h hmeets hgiven) (ledger_handleRequest hT h hmeets), _,
      h.step hT hmeets, List.mem_append_left _ hgiven⟩
  · refine ⟨.stays ?_ hstored hlogin, uids, h, hgiven⟩
    rintro ⟨x, hx, -⟩
    cases hx

theorem uid_given (h : Identities p s uids) (hstored : p.ledger s uid = some c) :
    uid ∈ uids := by
  obtain ⟨user, hmem, rfl, -⟩ := (ledger_eq_some_iff h.consistent).mp hstored
  exact h.stored user hmem

/-- The text of a token is that of its login and uid. -/
theorem getToken_text {env : Env} {id : Option J} {r : Request.GetToken} {text : String}
    (h : p.Consistent s)
    (hissued : (handleRequest p config env s ⟨id, .getToken r⟩).response = .token text uid) :
    text = p.jwtEncode { login := r.login, uid } config.sharedKey := by
  have hhandle : respond (r.handle p config env s).1 = .token text uid := hissued
  rw [Request.GetToken.handle] at hhandle
  split at hhandle
  · cases hhandle
  · rename_i user hfound
    split at hhandle
    · cases hhandle
    · rw [updating] at hhandle
      split at hhandle
      · cases hhandle
      · cases hhandle
        rw [User.toToken, (h.get₂_iff.mp hfound).2]

theorem onLedger_of_mailedKey {request : Request J} {key : MailedKey}
    (hkey : request.mailedKey = some key) :
    request.OnLedger ∧ ∀ r, request ≠ .askPasswordRecovery r := by
  cases request with
  | validateUser r => exact ⟨trivial, by rintro r ⟨⟩⟩
  | passwordRecovery r => exact ⟨trivial, by rintro r ⟨⟩⟩
  | _ => cases hkey

theorem has_of_opens {request : Request J} {key : MailedKey}
    (hkey : request.mailedKey = some key) (hopens : request.Opens p config uid c) :
    c.Has key := by
  cases request with
  | validateUser r =>
    cases hkey
    exact hopens.2
  | passwordRecovery r =>
    cases hkey
    exact hopens.2
  | _ => cases hkey

/-- A key that a user does not have, and that is not drawn, stays so. -/
theorem lacks_of_converse (hT : p.LawfulStore) {key : MailedKey} (h : Identities p s uids)
    (hgiven : uid ∈ uids) (hlacks : ∀ c, p.ledger s uid = some c → ¬ c.Has key)
    (hread : RunMeets (converse p config) ReadsLast s cs)
    (hdraws : ∀ c ∈ cs, c.message.request.draws c.env ≠ some key)
    (hrun : runAll (converse p config) s cs = some (s', talk)) :
    (∀ c, p.ledger s' uid = some c → ¬ c.Has key) ∧ ∃ uids, Identities p s' uids := by
  have hkeeps := runAll_invariant (P := fun s => (∀ c, p.ledger s uid = some c → ¬ c.Has key) ∧
    ∃ uids, Identities p s uids ∧ uid ∈ uids) ?_ ⟨hlacks, uids, h, hgiven⟩
    (hread.and_forall hdraws) hrun
  · obtain ⟨hlacks, uids, h, -⟩ := hkeeps
    exact ⟨hlacks, uids, h⟩
  · intro s c s₁ es₁ hinv hmeets hstep
    obtain ⟨hlacks, uids, h, hgiven⟩ := hinv
    cases hstep
    refine ⟨?_, _, h.step hT hmeets.1, List.mem_append_left _ hgiven⟩
    intro c' hc' hhas
    rw [ledger_handleRequest hT h hmeets.1] at hc'
    rcases settle_apply (exchange_new hT h hmeets.1 hgiven) with hsame | ⟨hamended, -⟩
    · rw [hsame] at hc'
      exact hlacks c' hc' hhas
    · rw [hamended, Option.bind_eq_some_iff] at hc'
      obtain ⟨c₀, hc₀, hamend⟩ := hc'
      rcases amend_has hamend hhas with hold | hdrawn
      · exact hlacks c₀ hc₀ hold
      · exact hmeets.2 hdrawn

end

end LibIpc.Authd

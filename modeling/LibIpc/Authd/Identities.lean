import LibIpc.Authd.Effect
import LibIpc.Lib.Run

/-!
# authd: identities

A uid is read in `last_used_uid`, goes to one user, and is written there after it; between the
reading and the writing the request may still be refused. `Identities` is what relates the file, the
database and the uids given so far; it holds after any requests from an empty storage, provided
that each reading of the file finds what was last written to it.
-/

namespace LibIpc.Authd

open Lib

variable {J σ : Type}

/-- One request, with what the system answers while it is handled. -/
structure Handling (J : Type) where
  env : Env
  message : Message J

/-- One request is handled; its response is what can be seen of it. -/
def authStep (p : Platform σ J) (config : Configuration) (s : Service σ) (c : Handling J) :
    Option (Service σ × List (Response J)) :=
  let handled := handleRequest p config c.env s c.message
  some (handled.service, [handled.response])

/-- A reading of `last_used_uid` finds what was last written to it. -/
def ReadsLast (s : Service σ) (c : Handling J) : Prop := c.env.readUid = s.lastUid

instance (s : Service σ) (c : Handling J) : Decidable (ReadsLast s c) :=
  inferInstanceAs (Decidable (c.env.readUid = s.lastUid))

/-- The uids given, one for each user that a response says was added. -/
def givenUids (responses : List (Response J)) : List Int :=
  (responses.filterMap Response.added).map Public.uid

/-- No user, and no file. -/
structure EmptyStorage (p : Platform σ J) (s : Service σ) : Prop where
  consistent : p.Consistent s
  values : p.users.values s.users = []
  lastUid : s.lastUid = none

/-- The file, the users and the uids given so far. -/
structure Identities (p : Platform σ J) (s : Service σ) (uids : List Int) : Prop where
  consistent : p.Consistent s
  nodup : uids.Nodup
  le : ∀ uid ∈ uids, ∃ last, s.lastUid = some last ∧ uid ≤ last
  stored : ∀ user ∈ p.users.values s.users, user.uid ∈ uids

section
variable {p : Platform σ J} {config : Configuration} {s : Service σ} {uids : List Int}

/-! ## One request -/

/-- The next uid is after every one given. -/
theorem newUid_lt (h : Identities p s uids) {env : Env} {next : Int}
    (hread : env.readUid = s.lastUid) (hnext : newUid env = some next) :
    ∀ uid ∈ uids, uid < next := by
  intro uid hmem
  obtain ⟨last, hlast, hle⟩ := h.le uid hmem
  simp only [newUid, hread, hlast, Option.getD_some, Option.ite_none_right_eq_some,
    Option.some.injEq] at hnext
  omega

namespace Identities

theorem of_empty (h : EmptyStorage p s) : Identities p s [] where
  consistent := h.consistent
  nodup := List.nodup_nil
  le := by
    intro uid hmem
    cases hmem
  stored := by
    intro user hmem
    rw [h.values] at hmem
    cases hmem

/-- A newcomer has a uid that was never given. -/
theorem added (h : Identities p s uids) (hT : p.LawfulStore) {env : Env} {request : Request J}
    {user : User J} (hread : env.readUid = s.lastUid)
    (hnew : Newcomer p config env s request user) {users : σ}
    (hadd : p.users.add s.users user = some users) :
    Identities p { users, lastUid := some user.uid } (uids ++ [user.uid]) := by
  obtain ⟨hnext, hlogin⟩ := hnew.fresh
  have hlt := newUid_lt h hread hnext
  have hfresh : user.uid ∉ uids := fun hmem => lt_irrefl _ (hlt user.uid hmem)
  have hkey : p.users.get₁ s.users user.uidKey = none := by
    rw [h.consistent.get₁_eq_none_iff]
    intro other hother hsame
    apply hfresh
    rw [← uidKey_eq_iff.mp hsame]
    exact h.stored other hother
  obtain ⟨users', hadd', hconsistent⟩ := hT.add h.consistent hkey hlogin
  rw [hadd, Option.some.injEq] at hadd'
  subst hadd'
  constructor
  · exact hconsistent
  · rw [← List.concat_eq_append]
    exact h.nodup.concat hfresh
  · intro uid hmem
    refine ⟨user.uid, rfl, ?_⟩
    rcases List.mem_append.mp hmem with hold | hlast
    · exact (hlt uid hold).le
    · rw [List.mem_singleton.mp hlast]
  · intro other hother
    rw [List.mem_append, List.mem_singleton]
    rcases (hT.mem_add h.consistent hadd other).mp hother with rfl | hold
    · exact .inr rfl
    · exact .inl (h.stored other hold)

/-- One request keeps the invariant, the uid it gives included. -/
theorem step (h : Identities p s uids) (hT : p.LawfulStore) {c : Handling J}
    (hread : ReadsLast s c) :
    Identities p (handleRequest p config c.env s c.message).service
      (uids ++ givenUids [(handleRequest p config c.env s c.message).response]) := by
  have heffect := handle_effect p config c.env s c.message.request
  show Identities p (c.message.request.handle p config c.env s).2
    (uids ++ givenUids [respond (c.message.request.handle p config c.env s).1])
  generalize c.message.request.handle p config c.env s = outcome at heffect
  generalize c.message.request = request at heffect
  -- Nothing is given where no user is added.
  have hnone : ∀ {result : Except Raised (Response J)}, (respond result).added = none →
      uids ++ givenUids [respond result] = uids := by
    intro result hquiet
    rw [givenUids, List.filterMap_cons_none hquiet]
    exact List.append_nil uids
  cases heffect with
  | unchanged quiet =>
    rw [hnone quiet]
    exact h
  | @changed _ user user' users result change update quiet =>
    obtain ⟨hconsistent, hreplaced⟩ := change.replaced hT h.consistent update
    rw [hnone quiet]
    refine ⟨hconsistent, h.nodup, h.le, ?_⟩
    intro other hother
    rcases (hreplaced other).mp hother with rfl | ⟨hold, -⟩
    · rw [change.keeps.1]
      exact h.stored user (change.mem h.consistent)
    · exact h.stored other hold
  | added newcomer add => exact h.added hT hread newcomer add
  | deleted found accepted delete =>
    obtain ⟨hconsistent, hrest⟩ :=
      delete_removes hT h.consistent (mem_of_find h.consistent found) delete
    rw [hnone rfl]
    refine ⟨hconsistent, h.nodup, h.le, ?_⟩
    intro other hother
    exact h.stored other ((hrest other).mp hother).1

end Identities

/-- A request other than `Delete` leaves every uid with its login. -/
theorem keeps_identity (hT : p.LawfulStore) (h : p.Consistent s) (env : Env) {m : Message J}
    (hrequest : ∀ r, m.request ≠ .delete r) {user : User J}
    (hmem : user ∈ p.users.values s.users) :
    ∃ user' ∈ p.users.values (handleRequest p config env s m).service.users,
      user'.uid = user.uid ∧ user'.login = user.login := by
  by_cases hstays : user ∈ p.users.values (handleRequest p config env s m).service.users
  · exact ⟨user, hstays, rfl, rfl⟩
  · rcases (handle_effect p config env s m.request).lost hT h hmem hstays with
      ⟨user', hchange, hafter⟩ | ⟨r, hr, -⟩
    · exact ⟨user', hafter, hchange.keeps⟩
    · exact absurd hr (hrequest r)

/-- A `Register` or `AddUser` that adds nobody leaves the users and the file as they are. -/
theorem refused_unchanged (env : Env) {m : Message J}
    (hrequest : (∃ r, m.request = .register r) ∨ ∃ r, m.request = .addUser r)
    (hrefused : (handleRequest p config env s m).response.added = none) :
    (handleRequest p config env s m).service = s := by
  have heffect := handle_effect p config env s m.request
  have hadded : (respond (m.request.handle p config env s).1).added = none := hrefused
  show (m.request.handle p config env s).2 = s
  generalize m.request.handle p config env s = outcome at heffect hadded
  generalize m.request = request at heffect hrequest
  cases heffect with
  | unchanged quiet => rfl
  | changed change update quiet =>
    -- No change of a stored user comes from these two.
    rcases hrequest with ⟨r, rfl⟩ | ⟨r, rfl⟩
    · cases change
    · cases change
  | added newcomer add => cases hadded
  | deleted found accepted delete =>
    rcases hrequest with ⟨r', hr⟩ | ⟨r', hr⟩
    · cases hr
    · cases hr

/-! ## Runs -/

theorem givenUids_append (responses responses' : List (Response J)) :
    givenUids (responses ++ responses') = givenUids responses ++ givenUids responses' := by
  rw [givenUids, List.filterMap_append, List.map_append]
  rfl

/-- Every run comes to an end, with the invariant. -/
theorem exists_runAll_identities (hT : p.LawfulStore) {cs : List (Handling J)}
    (hempty : EmptyStorage p s) (hread : RunMeets (authStep p config) ReadsLast s cs) :
    ∃ s' responses, runAll (authStep p config) s cs = some (s', responses) ∧
      Identities p s' (givenUids responses) := by
  induction cs using List.reverseRecOn with
  | nil => exact ⟨s, [], rfl, .of_empty hempty⟩
  | append_singleton cs c ih =>
    obtain ⟨s₁, responses, hrun, hidentities⟩ := ih hread.left
    have hlast := (hread.right hrun).1
    refine ⟨(handleRequest p config c.env s₁ c.message).service,
      responses ++ [(handleRequest p config c.env s₁ c.message).response], ?_, ?_⟩
    · rw [runAll_append, hrun]
      rfl
    · rw [givenUids_append]
      exact hidentities.step hT hlast

end

end LibIpc.Authd

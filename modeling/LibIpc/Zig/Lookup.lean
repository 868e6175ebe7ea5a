import LibIpc.Zig.Daemon

/-!
# The lookup message: `Context.connect_ipcd` and the handler of `ipcd`

A client sends `service;${IPC_NETWORK}` to `ipcd`. The directives of the variable are separated by
`" ;"`, while `ipcd` splits at `;` and then at spaces: the space of the separator ends up at the end
of the part before it, as an empty third field that nothing looks at.
-/

namespace LibIpc.Zig

open Lib

/-! ## The encoder -/

/-- `buffer_size` of `connect_ipcd`: of its allocator, and of the buffer for the lookup. -/
def lookupBufferSize : Nat := 10000

/-- The payload that `connect_ipcd` sends, for a value of `IPC_NETWORK`; `none` when it fails because
a buffer is too small. -/
def connectIpcdLookup (serviceName networkEnvvar : List Byte) : Option (List Byte) :=
  let lookup := serviceName ++ 59 :: networkEnvvar
  -- `getEnvVarOwned` copies the variable, `print` writes the lookup to its own buffer, and
  -- `Message.init` copies that to where the variable is.
  if networkEnvvar.length ≤ lookupBufferSize ∧ lookup.length ≤ lookupBufferSize ∧
      networkEnvvar.length + lookup.length ≤ lookupBufferSize then some lookup
  else none

/-- A routing directive. -/
structure Directive where
  name : List Byte
  target : List Byte
  name_plain : 59 ∉ name ∧ 32 ∉ name
  target_plain : 59 ∉ target ∧ 32 ∉ target

/-- `name target`. -/
def Directive.text (d : Directive) : List Byte := d.name ++ 32 :: d.target

/-- The value of `IPC_NETWORK`: the directives joined by `" ;"`. -/
def ipcNetwork (ds : List Directive) : List Byte := [32, 59].intercalate (ds.map Directive.text)

/-- The target of the last directive for the service. -/
def lastTarget (service : List Byte) (ds : List Directive) : Option (List Byte) :=
  ((ds.filter fun d => d.name = service).getLast?).map Directive.target

/-! ## The parts that `ipcd` finds -/

/-- The parts between two `;`. -/
def networkParts : List Directive → List (List Byte)
  | [] => [[]]
  | [d] => [d.text]
  | d :: d' :: ds => (d.text ++ [32]) :: networkParts (d' :: ds)

theorem networkParts_ne_nil (ds : List Directive) : networkParts ds ≠ [] := by
  cases ds with
  | nil => simp [networkParts]
  | cons d ds =>
    cases ds with
    | nil => simp [networkParts]
    | cons d' ds => simp [networkParts]

theorem ipcNetwork_eq_intercalate (ds : List Directive) :
    ipcNetwork ds = [59].intercalate (networkParts ds) := by
  induction ds using networkParts.induct with
  | case1 => rfl
  | case2 d => rfl
  | case3 d d' ds ih =>
    obtain ⟨part, parts, hparts⟩ := List.exists_cons_of_ne_nil (networkParts_ne_nil (d' :: ds))
    rw [networkParts, hparts, List.intercalate_cons_cons, ← hparts, ← ih]
    simp only [ipcNetwork, List.map_cons]
    rw [List.intercalate_cons_cons]
    simp

theorem not_mem_text (d : Directive) : 59 ∉ d.text := by
  simp [Directive.text, d.name_plain.1, d.target_plain.1]

theorem not_mem_networkParts (ds : List Directive) : ∀ part ∈ networkParts ds, 59 ∉ part := by
  induction ds using networkParts.induct with
  | case1 => simp [networkParts]
  | case2 d => simpa [networkParts] using not_mem_text d
  | case3 d d' ds ih =>
    intro part hpart
    rcases List.mem_cons.mp hpart with rfl | hrest
    · simp [not_mem_text d]
    · exact ih part hrest

theorem splitOn_lookup {service : List Byte} (hservice : 59 ∉ service) (ds : List Directive) :
    (service ++ 59 :: ipcNetwork ds).splitOn 59 = service :: networkParts ds := by
  obtain ⟨part, parts, hparts⟩ := List.exists_cons_of_ne_nil (networkParts_ne_nil ds)
  have hjoin : service ++ 59 :: ipcNetwork ds = [59].intercalate (service :: networkParts ds) := by
    rw [ipcNetwork_eq_intercalate, hparts, List.intercalate_cons_cons]
    simp
  rw [hjoin]
  refine List.splitOn_intercalate 59 ?_ (List.cons_ne_nil _ _)
  intro l hl
  rcases List.mem_cons.mp hl with rfl | hl
  · exact hservice
  · exact not_mem_networkParts ds l hl

/-! ## The decoder -/

/-- What one part does to the destination found so far. -/
def chooseTarget (service : List Byte) (found : Option (List Byte)) (next : List Byte) :
    Option (List Byte) :=
  match next.splitOn 32 with
  | sname :: target :: _ => if service = sname then some target else found
  | _ => found

theorem splitOn_text (d : Directive) : d.text.splitOn 32 = [d.name, d.target] := by
  have hjoin : d.text = [32].intercalate [d.name, d.target] := by simp [Directive.text]
  rw [hjoin]
  refine List.splitOn_intercalate 32 ?_ (List.cons_ne_nil _ _)
  simp [d.name_plain.2, d.target_plain.2]

/-- The space of the separator gives an empty field. -/
theorem splitOn_text_space (d : Directive) :
    (d.text ++ [32]).splitOn 32 = [d.name, d.target, []] := by
  have hjoin : d.text ++ [32] = [32].intercalate [d.name, d.target, []] := by
    simp [Directive.text, List.intercalate_cons_cons]
  rw [hjoin]
  refine List.splitOn_intercalate 32 ?_ (List.cons_ne_nil _ _)
  simp [d.name_plain.2, d.target_plain.2]

/-- The parts give the targets of their directives. -/
theorem foldl_networkParts (service : List Byte) (ds : List Directive) (found : Option (List Byte)) :
    (networkParts ds).foldl (chooseTarget service) found =
      ds.foldl (fun found d => if service = d.name then some d.target else found) found := by
  induction ds using networkParts.induct generalizing found with
  | case1 => rfl
  | case2 d => simp [networkParts, chooseTarget, splitOn_text]
  | case3 d d' ds ih =>
    rw [networkParts, List.foldl_cons, List.foldl_cons, ih]
    simp [chooseTarget, splitOn_text_space]

theorem foldl_eq_lastTarget (service : List Byte) (ds : List Directive) :
    ds.foldl (fun found d => if service = d.name then some d.target else found) none =
      lastTarget service ds := by
  induction ds using List.reverseRecOn with
  | nil => rfl
  | append_singleton ds d ih =>
    rw [List.foldl_append, ih, List.foldl_cons, List.foldl_nil, lastTarget, lastTarget,
      List.filter_append]
    by_cases hname : service = d.name
    · simp [hname]
    · have hname' : d.name ≠ service := fun heq => hname heq.symm
      simp [hname, hname']

theorem lastTarget_eq_none_iff {service : List Byte} {ds : List Directive} :
    lastTarget service ds = none ↔ ∀ d ∈ ds, d.name ≠ service := by
  simp [lastTarget]

/-- **Lookup**: whatever the directives, `ipcd` takes the target of the last one for the service, and
finds none exactly when there is no such directive. -/
theorem finalDestination_lookup {service : List Byte} (hservice : 59 ∉ service)
    (ds : List Directive) {payload : List Byte}
    (h : connectIpcdLookup service (ipcNetwork ds) = some payload) :
    finalDestination payload = lastTarget service ds ∧
      (finalDestination payload = none ↔ ∀ d ∈ ds, d.name ≠ service) := by
  have hpayload : payload = service ++ 59 :: ipcNetwork ds := by
    simp only [connectIpcdLookup] at h
    split at h
    · exact (Option.some.inj h).symm
    · cases h
  have hfound : finalDestination payload = lastTarget service ds := by
    rw [hpayload, finalDestination, splitOn_lookup hservice]
    exact (foldl_networkParts service ds none).trans (foldl_eq_lastTarget service ds)
  exact ⟨hfound, by rw [hfound, lastTarget_eq_none_iff]⟩

/-- `"a b ;a c ;ab d"`: a name is repeated, and is the beginning of another one. -/
theorem finalDestination_lookup_three :
    ∃ ds payload, ds.map Directive.text = [[97, 32, 98], [97, 32, 99], [97, 98, 32, 100]] ∧
      connectIpcdLookup [97] (ipcNetwork ds) = some payload ∧
      finalDestination payload = some [99] := by
  have hservice : (59 : Byte) ∉ ([97] : List Byte) := by decide
  let ds : List Directive :=
    [⟨[97], [98], by decide, by decide⟩, ⟨[97], [99], by decide, by decide⟩,
      ⟨[97, 98], [100], by decide, by decide⟩]
  have hlookup : connectIpcdLookup [97] (ipcNetwork ds) = some _ := rfl
  exact ⟨ds, _, rfl, hlookup, (finalDestination_lookup hservice ds hlookup).1⟩

end LibIpc.Zig

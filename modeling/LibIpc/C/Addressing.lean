import Mathlib.Data.List.TakeWhile
import LibIpc.C.Connecting
import LibIpc.Lib.Joined
import LibIpc.Zig.Lookup

/-!
# Whom a client contacts (`ipc_contact_ipcd`, `usock_connect`, `usock_init`)

The network daemon is asked for a service when the service is found in `IPC_NETWORK`, by a
comparison and a search that both stop at the end of the name: `decidesByName_iff` says when that is
as good as comparing the names. Otherwise the address is the path of the service, copied to
`sun_path` with a limit that is not the one of `sun_path`: `addressed_iff` says when the copy is the
path.
-/

namespace LibIpc.C

open Lib
open Zig (Directive ipcNetwork networkParts)

/-! ## The decision -/

/-- With these directives in `IPC_NETWORK`, and whatever the daemon answers, `ipc_contact_ipcd`
contacts it exactly when a directive has the name of the service. -/
def DecidesByName (ds : List Directive) (sname : List Byte) : Prop :=
  ∀ (k : Kernel) (opened : Finset Fd) (rundir : Option (List Byte)) (sys : ContactSys),
    sys.ipcNetwork = some (ipcNetwork ds) →
      ipcContactIpcd k opened rundir sname sys =
        if ∃ d ∈ ds, d.name = sname then askIpcd k opened rundir sname (ipcNetwork ds) sys
        else some (.none, 0, opened)

/-- The buffer holds the needle: all of it, or what is needed before it is searched for. -/
def NeedleFits (ipcdVar sname : List Byte) : Prop :=
  sname.length + 2 ≤ bufsiz ∨ sname.length + 1 = bufsiz ∧ sname <+: ipcdVar

theorem strstr_iff (haystack needle : List Byte) :
    strstr haystack needle ↔ needle <:+: haystack := by
  rw [strstr, List.any_eq_true, List.infix_iff_prefix_suffix]
  constructor
  · rintro ⟨t, ht, hbegins⟩
    exact ⟨t, List.isPrefixOf_iff_prefix.mp hbegins, (List.mem_tails _ _).mp ht⟩
  · rintro ⟨t, hbegins, ht⟩
    exact ⟨t, (List.mem_tails _ _).mpr ht, List.isPrefixOf_iff_prefix.mpr hbegins⟩

/-- A part begins with the name where a directive does. -/
theorem prefix_part_iff {sname : List Byte} (hspace : 32 ∉ sname) (ds : List Directive) :
    (∃ part ∈ networkParts ds, sname <+: part) ↔
      (∃ d ∈ ds, sname <+: d.name) ∨ ds = [] ∧ sname = [] := by
  have htext : ∀ (d : Directive) (rest : List Byte),
      sname <+: d.text ++ rest ↔ sname <+: d.name := by
    intro d rest
    rw [Directive.text, List.append_assoc, List.cons_append, prefix_append_cons_iff hspace]
  have htext₀ : ∀ d : Directive, sname <+: d.text ↔ sname <+: d.name := by
    intro d
    rw [Directive.text, prefix_append_cons_iff hspace]
  induction ds with
  | nil => simp [networkParts]
  | cons d ds ih =>
    cases ds with
    | nil => simp [networkParts, htext₀]
    | cons d' ds =>
      have hrest : (∃ part ∈ networkParts (d' :: ds), sname <+: part) ↔
          ∃ d ∈ d' :: ds, sname <+: d.name := by simpa using ih
      rw [networkParts, List.exists_mem_cons_iff, hrest, htext, List.exists_mem_cons_iff]
      simp

/-- The test, where it is defined. -/
theorem asksIpcd_eq_some_iff (ipcdVar sname : List Byte) (b : Bool) :
    asksIpcd ipcdVar sname = some b ↔
      NeedleFits ipcdVar sname ∧ (b = true ↔ sname <+: ipcdVar ∨ 59 :: sname <:+: ipcdVar) := by
  rw [asksIpcd, NeedleFits]
  by_cases hbegins : sname <+: ipcdVar
  · rw [if_pos (List.isPrefixOf_iff_prefix.mpr hbegins)]
    split
    · rename_i hlong
      simp [show ¬ (sname.length + 2 ≤ bufsiz ∨ sname.length + 1 = bufsiz) by omega, hbegins]
    · rename_i hshort
      simp [show sname.length + 2 ≤ bufsiz ∨ sname.length + 1 = bufsiz by omega, hbegins]
  · rw [if_neg (mt List.isPrefixOf_iff_prefix.mp hbegins), ← strstr_iff]
    simp only [hbegins, and_false, or_false, false_or]
    split
    · rename_i hlong
      simp [show ¬ sname.length + 2 ≤ bufsiz by omega]
    · split
      · rename_i hfull
        simp [show ¬ sname.length + 2 ≤ bufsiz by omega]
      · rename_i hlong hfull
        simp only [show sname.length + 2 ≤ bufsiz by omega, true_and, Option.some.injEq]
        rw [Bool.eq_iff_iff]
        exact iff_comm

/-- The daemon is asked where a directive begins with the name. -/
theorem asksIpcd_ipcNetwork_iff {sname : List Byte} (hplain : 59 ∉ sname ∧ 32 ∉ sname)
    (ds : List Directive) (b : Bool) :
    asksIpcd (ipcNetwork ds) sname = some b ↔
      NeedleFits (ipcNetwork ds) sname ∧
        (b = true ↔ (∃ d ∈ ds, sname <+: d.name) ∨ ds = [] ∧ sname = []) := by
  have hfound := found_iff hplain.1 (Zig.networkParts_ne_nil ds) (Zig.not_mem_networkParts ds)
  rw [← Zig.ipcNetwork_eq_intercalate, prefix_part_iff hplain.2] at hfound
  rw [asksIpcd_eq_some_iff, hfound]

/-- The test decides, and without a socket it shows. -/
theorem decidesByName_iff_asksIpcd (ds : List Directive) (sname : List Byte) :
    DecidesByName ds sname ↔
      asksIpcd (ipcNetwork ds) sname = some (decide (∃ d ∈ ds, d.name = sname)) := by
  constructor
  · intro h
    have hcall := h posix ∅ none
      { ipcNetwork := some (ipcNetwork ds), connect := { socket := false } } rfl
    have hask : askIpcd posix ∅ none sname (ipcNetwork ds)
        { ipcNetwork := some (ipcNetwork ds), connect := { socket := false } } =
          some (.usockConnectSocket, 0, ∅) := rfl
    rw [hask] at hcall
    simp only [ipcContactIpcd] at hcall
    cases hasks : asksIpcd (ipcNetwork ds) sname with
    | none =>
      rw [hasks] at hcall
      split at hcall <;> cases hcall
    | some b =>
      rw [hasks] at hcall
      cases b with
      | false =>
        have hnamed : ¬ ∃ d ∈ ds, d.name = sname := by
          intro hnamed
          rw [if_pos hnamed] at hcall
          cases hcall
        rw [decide_eq_false hnamed]
      | true =>
        have hnamed : ∃ d ∈ ds, d.name = sname := by
          by_contra hnamed
          rw [if_neg hnamed] at hcall
          cases hcall
        rw [decide_eq_true hnamed]
  · intro h k opened rundir sys hvar
    simp only [ipcContactIpcd, hvar, h, Option.bind_eq_bind, Option.bind_some]
    by_cases hnamed : ∃ d ∈ ds, d.name = sname
    · simp [hnamed]
    · simp [hnamed]

/-- **Decision**: the daemon is asked by name exactly when the name fits the buffer, no directive
merely begins with it unless another one has it, and an empty name does not meet an empty
`IPC_NETWORK`. -/
theorem decidesByName_iff (ds : List Directive) {sname : List Byte}
    (hplain : 59 ∉ sname ∧ 32 ∉ sname) :
    DecidesByName ds sname ↔
      NeedleFits (ipcNetwork ds) sname ∧
        ((∃ d ∈ ds, sname <+: d.name) → ∃ d ∈ ds, d.name = sname) ∧ (ds = [] → sname ≠ []) := by
  have hnamed : (∃ d ∈ ds, d.name = sname) → ∃ d ∈ ds, sname <+: d.name := by
    rintro ⟨d, hd, rfl⟩
    exact ⟨d, hd, List.prefix_rfl⟩
  rw [decidesByName_iff_asksIpcd, asksIpcd_ipcNetwork_iff hplain, decide_eq_true_iff]
  refine and_congr_right fun _ => ⟨?_, ?_⟩
  · intro h
    refine ⟨fun hbegins => h.mpr (.inl hbegins), ?_⟩
    rintro rfl hempty
    obtain ⟨d, hd, -⟩ := h.mpr (.inr ⟨rfl, hempty⟩)
    exact absurd hd List.not_mem_nil
  · rintro ⟨hbegins, hempty⟩
    refine ⟨fun h => .inl (hnamed h), ?_⟩
    rintro (h | ⟨hds, hsname⟩)
    · exact hbegins h
    · exact absurd hsname (hempty hds)

/-- `pong tls` and `audio tor`. -/
def twoDirectives : List Directive :=
  [{ name := [112, 111, 110, 103], target := [116, 108, 115], name_plain := by decide,
     target_plain := by decide },
   { name := [97, 117, 100, 105, 111], target := [116, 111, 114], name_plain := by decide,
     target_plain := by decide }]

/-- The daemon is asked for `audio`. -/
theorem decidesByName_audio : DecidesByName twoDirectives [97, 117, 100, 105, 111] :=
  (decidesByName_iff twoDirectives (by decide)).mpr (by
    refine ⟨.inl (by decide), fun _ => ?_, ?_⟩
    · decide
    · decide)

/-- The daemon is asked for `pon`, which no directive names. -/
theorem not_decidesByName_pon : ¬ DecidesByName twoDirectives [112, 111, 110] := by
  rw [decidesByName_iff_asksIpcd]
  decide

/-! ## The address -/

/-- A C string: its bytes, without the terminator. -/
abbrev CString := { s : List Byte // 0 ∉ s }

/-- The path of a service. -/
def CString.path (rundir : Option CString) (sname : CString) : List Byte :=
  servicePath (rundir.map Subtype.val) sname.1

/-- `sun_path` holds the path and its terminator. -/
def HoldsPath (sunPath path : List Byte) : Prop :=
  sunPath.length = sunPathSize ∧ sunPath.take (path.length + 1) = path ++ [0]

/-- The call returns an error, or the address it has used holds the path. -/
def Faithful (path : List Byte) (sunPath : Option (List Byte))
    (call : Option (Except IpcErrorCode Fd × Finset Fd)) : Prop :=
  ∃ r opened, call = some (r, opened) ∧
    ((∃ e, r = .error e) ∨ ∃ a, sunPath = some a ∧ HoldsPath a path)

/-- The addresses of a service: the server and the client use the path, and so the same one, and no
other service has it. -/
structure Addressed (rundir : Option CString) (sname : CString) : Prop where
  init : ∀ k opened sys, Faithful (CString.path rundir sname)
    (initSunPath (CString.path rundir sname)) (usockInit k opened (CString.path rundir sname) sys)
  connect : ∀ k opened sys, Faithful (CString.path rundir sname)
    (connectSunPath (CString.path rundir sname))
    (usockConnect k opened (CString.path rundir sname) sys)
  meet : connectSunPath (CString.path rundir sname) = initSunPath (CString.path rundir sname)
  apart : ∀ sname' ≠ sname,
    initSunPath (CString.path rundir sname') ≠ initSunPath (CString.path rundir sname) ∧
      connectSunPath (CString.path rundir sname') ≠ initSunPath (CString.path rundir sname)

section Paths
variable {path : List Byte}

theorem length_path_lt (rundir : Option CString) (sname : CString) :
    (CString.path rundir sname).length < pathMax := by
  rw [CString.path, servicePath, List.length_take]
  unfold pathMax
  omega

theorem not_mem_path (rundir : Option CString) (sname : CString) :
    0 ∉ CString.path rundir sname := by
  intro h
  have hmem := List.mem_of_mem_take h
  rw [List.mem_append, List.mem_cons] at hmem
  rcases hmem with hmem | hmem | hmem
  · cases rundir with
    | none =>
      revert hmem
      decide +kernel
    | some dir => exact dir.2 hmem
  · revert hmem
    decide
  · exact sname.2 hmem

theorem strncpy_self (h : 0 ∉ path) : strncpy path path.length = path := by
  have hself : path.takeWhile (· ≠ 0) = path := by
    rw [List.takeWhile_eq_self_iff]
    intro b hb
    simp only [ne_eq, decide_eq_true_eq]
    rintro rfl
    exact h hb
  rw [strncpy, List.take_length, hself, Nat.sub_self, List.replicate_zero, List.append_nil]

/-- The path, then zeros. -/
theorem initSunPath_eq (h : 0 ∉ path) :
    initSunPath path =
      if path.length ≤ sunPathSize then some (path ++ List.replicate (sunPathSize - path.length) 0)
      else none := by
  rw [initSunPath, copySunPath, strncpy_self h, overwrite, List.drop_replicate]

/-- Both functions copy the same bytes. -/
theorem connectSunPath_eq (h : path.length < pathMax) : connectSunPath path = initSunPath path := by
  rw [connectSunPath, if_pos h, initSunPath]

/-- The bytes before the first zero. -/
theorem path_of_initSunPath (h : 0 ∉ path) {a : List Byte} (ha : initSunPath path = some a) :
    a.takeWhile (· ≠ 0) = path := by
  rw [initSunPath_eq h, Option.ite_none_right_eq_some, Option.some.injEq] at ha
  obtain ⟨-, rfl⟩ := ha
  rw [List.takeWhile_append_of_pos]
  · cases sunPathSize - path.length with
    | zero => simp
    | succ n => simp [List.replicate_succ]
  · intro b hb
    simp only [ne_eq, decide_eq_true_eq]
    rintro rfl
    exact h hb

theorem holdsPath_iff (h : 0 ∉ path) :
    (∃ a, initSunPath path = some a ∧ HoldsPath a path) ↔ path.length + 1 ≤ sunPathSize := by
  constructor
  · rintro ⟨a, -, hlen, htake⟩
    have hlens := congrArg List.length htake
    rw [List.length_take, List.length_append, List.length_singleton, hlen] at hlens
    omega
  · intro hfits
    refine ⟨path ++ List.replicate (sunPathSize - path.length) 0, ?_, ?_, ?_⟩
    · rw [initSunPath_eq h, if_pos (by omega)]
    · rw [List.length_append, List.length_replicate]
      omega
    · rw [List.take_append, List.take_of_length_le (by omega), List.take_replicate]
      have hone : min (path.length + 1 - path.length) (sunPathSize - path.length) = 1 := by omega
      rw [hone]
      rfl

theorem directorySetup_returns (hslash : 47 ∈ path) (hlen : path.length ≤ bufsiz) (fs : FsSys) :
    ∃ e, directorySetup_ fs path = some e := by
  obtain ⟨dir, hdir⟩ : ∃ dir, dirname_ path = some dir := by
    unfold dirname_
    split
    · rename_i hnone
      have hall := List.dropWhile_eq_nil_iff.mp hnone 47 (List.mem_reverse.mpr hslash)
      exact absurd hall (by decide)
    · rename_i slash before hrest
      have hle : (path.reverse.dropWhile (· ≠ 47)).length ≤ path.length := by
        have hsub := (List.dropWhile_sublist (p := (· ≠ (47 : Byte))) (l := path.reverse)).length_le
        rwa [List.length_reverse] at hsub
      rw [hrest, List.length_cons] at hle
      exact ⟨before.reverse, if_pos (by omega)⟩
  simp only [directorySetup_, hdir, Option.bind_eq_bind, Option.bind_some]
  split
  · exact ⟨_, rfl⟩
  · split
    · exact ⟨_, rfl⟩
    · split
      · exact ⟨_, rfl⟩
      · exact ⟨_, rfl⟩

/-- The whole path, when it is short. -/
theorem path_eq_of_fits {rundir : Option CString} {sname : CString}
    (h : (CString.path rundir sname).length + 1 ≤ sunPathSize) :
    CString.path rundir sname =
      (rundir.map Subtype.val).getD runDir ++ 47 :: sname.1 := by
  rw [CString.path, servicePath, List.length_take] at h
  rw [CString.path, servicePath, List.take_of_length_le]
  unfold sunPathSize at h
  omega

/-- An address that holds the path says which service it is. -/
theorem eq_of_initSunPath {rundir : Option CString} {sname sname' : CString}
    (hfits : (CString.path rundir sname).length + 1 ≤ sunPathSize)
    (h : initSunPath (CString.path rundir sname') = initSunPath (CString.path rundir sname)) :
    sname' = sname := by
  obtain ⟨a, ha, -⟩ := (holdsPath_iff (not_mem_path rundir sname)).mpr hfits
  have hpath := path_of_initSunPath (not_mem_path rundir sname) ha
  have hpath' := path_of_initSunPath (not_mem_path rundir sname') (h.trans ha)
  have heq : CString.path rundir sname' = CString.path rundir sname := hpath'.symm.trans hpath
  have hfits' : (CString.path rundir sname').length + 1 ≤ sunPathSize := by rwa [heq]
  rw [path_eq_of_fits hfits, path_eq_of_fits hfits', List.append_cancel_left_eq, List.cons.injEq]
    at heq
  exact Subtype.ext heq.2

theorem usockInit_returns {a : List Byte} (ha : initSunPath path = some a) (hslash : 47 ∈ path)
    (hlen : path.length ≤ bufsiz) (k : Kernel) (opened : Finset Fd) (sys : InitSys) :
    ∃ r opened', usockInit k opened path sys = some (r, opened') := by
  obtain ⟨setup, hsetup⟩ := directorySetup_returns hslash hlen sys.fs
  simp only [usockInit, ha, hsetup, Option.bind_eq_bind, Option.bind_some]
  split
  · exact ⟨_, _, rfl⟩
  · split
    · exact ⟨_, _, rfl⟩
    · split
      · exact ⟨_, _, rfl⟩
      · split
        · exact ⟨_, _, rfl⟩
        · exact ⟨_, _, rfl⟩

theorem usockConnect_returns {a : List Byte} (ha : connectSunPath path = some a)
    (hslash : 47 ∈ path) (hlen : path.length ≤ bufsiz) (k : Kernel) (opened : Finset Fd)
    (sys : ConnectSys) : ∃ r opened', usockConnect k opened path sys = some (r, opened') := by
  obtain ⟨setup, hsetup⟩ := directorySetup_returns hslash hlen sys.fs
  simp only [usockConnect, ha, hsetup, Option.bind_eq_bind, Option.bind_some]
  split
  · exact ⟨_, _, rfl⟩
  · split
    · exact ⟨_, _, rfl⟩
    · split
      · exact ⟨_, _, rfl⟩
      · exact ⟨_, _, rfl⟩

/-- Where every system call succeeds, so does `usock_init`. -/
theorem usockInit_default {k : Kernel} {opened opened' : Finset Fd}
    {r : Except IpcErrorCode Fd} (h : usockInit k opened path {} = some (r, opened')) :
    ∃ fd, r = .ok fd := by
  obtain ⟨a, -, h⟩ := Option.bind_eq_some_iff.mp h
  obtain ⟨setup, hsetup, h⟩ := Option.bind_eq_some_iff.mp h
  obtain ⟨dir, -, hsetup⟩ := Option.bind_eq_some_iff.mp hsetup
  cases hsetup
  cases h
  exact ⟨_, rfl⟩

end Paths

/-- **Addresses**: the copies stay within `sun_path` and leave the path there, with its terminator,
exactly when the path has at most 107 bytes; then services are told apart by their names. -/
theorem addressed_iff (rundir : Option CString) (sname : CString) :
    Addressed rundir sname ↔ (CString.path rundir sname).length ≤ 107 := by
  have hzero := not_mem_path rundir sname
  have hholds := holdsPath_iff hzero
  have hconnect := connectSunPath_eq (length_path_lt rundir sname)
  have hlimit : (CString.path rundir sname).length + 1 ≤ sunPathSize ↔
      (CString.path rundir sname).length ≤ 107 := by
    unfold sunPathSize
    omega
  rw [← hlimit]
  constructor
  · intro h
    obtain ⟨r, opened, hcall, ⟨e, rfl⟩ | hpath⟩ := h.init posix ∅ {}
    · obtain ⟨fd, hfd⟩ := usockInit_default hcall
      cases hfd
    · exact hholds.mp hpath
  · intro hfits
    obtain ⟨a, ha, hpath⟩ := hholds.mpr hfits
    have hslash : 47 ∈ CString.path rundir sname := by
      rw [path_eq_of_fits hfits]
      simp
    have hlen : (CString.path rundir sname).length ≤ bufsiz := by
      unfold sunPathSize bufsiz at *
      omega
    refine ⟨?_, ?_, hconnect, ?_⟩
    · intro k opened sys
      obtain ⟨r, opened', hcall⟩ := usockInit_returns ha hslash hlen k opened sys
      exact ⟨r, opened', hcall, .inr ⟨a, ha, hpath⟩⟩
    · intro k opened sys
      obtain ⟨r, opened', hcall⟩ := usockConnect_returns (hconnect.trans ha) hslash hlen k opened sys
      exact ⟨r, opened', hcall, .inr ⟨a, hconnect.trans ha, hpath⟩⟩
    · intro sname' hne
      rw [connectSunPath_eq (length_path_lt rundir sname')]
      have hapart := mt (eq_of_initSunPath hfits) hne
      exact ⟨hapart, hapart⟩

/-- A name of 108 bytes in `/`: `usock_init` writes past `sun_path`. -/
theorem not_addressed_long_name :
    ¬ Addressed (some ⟨[], List.not_mem_nil⟩) ⟨List.replicate 108 97, by simp⟩ := by
  intro h
  obtain ⟨r, opened, hcall, -⟩ := h.init posix ∅ {}
  have hnone : initSunPath (CString.path (some ⟨[], List.not_mem_nil⟩)
      ⟨List.replicate 108 97, by simp⟩) = none := by decide +kernel
  rw [usockInit, hnone] at hcall
  cases hcall

end LibIpc.C

import LibIpc.Lib.SwapQueue

/-!
# Maps kept in an array of entries

A map from keys to values as the array of its entries, each key at most once. `put` replaces the
entry of a key in its place or adds one at the end; `fetchSwapRemove` deletes an entry by moving the
last one into its place, so that the order of the entries changes. What `get` finds does not depend
on that order, and every operation is described by what it does to `get`.
-/

namespace LibIpc.Lib

variable {κ ν : Type}

/-- The entries of a map; no key has two of them. -/
structure ArrayMap (κ ν : Type) where
  entries : List (κ × ν)
  nodup : (entries.map Prod.fst).Nodup

namespace ArrayMap

instance : EmptyCollection (ArrayMap κ ν) := ⟨{ entries := [], nodup := List.nodup_nil }⟩

/-- One entry is taken out, whatever the order of the others. -/
def Without (m : ArrayMap κ ν) (e : κ × ν) (m' : ArrayMap κ ν) : Prop :=
  m.entries.Perm (e :: m'.entries)

theorem Without.notMem {m m' : ArrayMap κ ν} {e : κ × ν} (h : m.Without e m') :
    e.1 ∉ m'.entries.map Prod.fst := by
  have hkeys := (h.map Prod.fst).nodup_iff.mp m.nodup
  rw [List.map_cons, List.nodup_cons] at hkeys
  exact hkeys.1

theorem nodup_swapRemove (m : ArrayMap κ ν) (i : Nat) :
    ((Lib.swapRemove m.entries i).map Prod.fst).Nodup := by
  by_cases hlt : i < m.entries.length
  · have hperm := ((perm_cons_swapRemove hlt).map Prod.fst).nodup_iff.mp m.nodup
    exact (List.nodup_cons.mp hperm).2
  · rw [Lib.swapRemove]
    split
    · exact List.nodup_nil
    · rename_i y hy
      rw [List.set_eq_of_length_le (Nat.le_of_not_lt hlt)]
      exact m.nodup.sublist ((List.dropLast_sublist _).map _)

variable [DecidableEq κ]

def get (m : ArrayMap κ ν) (k : κ) : Option ν :=
  (m.entries.find? fun e => e.1 = k).map Prod.snd

/-- The place of a key. -/
def indexOf (m : ArrayMap κ ν) (k : κ) : Option Nat := m.entries.findIdx? fun e => e.1 = k

/-! ## Finding -/

theorem get_eq_some_iff {m : ArrayMap κ ν} {k : κ} {v : ν} :
    m.get k = some v ↔ (k, v) ∈ m.entries := by
  obtain ⟨l, hnodup⟩ := m
  show (l.find? fun e => e.1 = k).map Prod.snd = some v ↔ (k, v) ∈ l
  induction l with
  | nil => simp
  | cons e l ih =>
    rw [List.map_cons, List.nodup_cons] at hnodup
    rw [List.find?_cons]
    by_cases he : e.1 = k
    · simp only [he, decide_true, Option.map_some, Option.some.injEq, List.mem_cons]
      constructor
      · intro hv
        left
        rw [← he, ← hv]
      · intro hmem
        rcases hmem with heq | hmem
        · rw [← heq]
        · -- The key would be there twice.
          exact absurd (List.mem_map_of_mem (f := Prod.fst) hmem) (he ▸ hnodup.1)
    · simp only [he, decide_false, List.mem_cons]
      rw [ih hnodup.2, or_iff_right]
      intro heq
      exact he (by rw [← heq])

theorem get_eq_none_iff {m : ArrayMap κ ν} {k : κ} :
    m.get k = none ↔ k ∉ m.entries.map Prod.fst := by
  rw [Option.eq_none_iff_forall_ne_some]
  constructor
  · intro h hmem
    obtain ⟨e, he, rfl⟩ := List.mem_map.mp hmem
    exact h e.2 (get_eq_some_iff.mpr he)
  · intro h v hv
    exact h (List.mem_map.mpr ⟨(k, v), get_eq_some_iff.mp hv, rfl⟩)

/-- Maps with the same entries find the same values. -/
theorem get_congr {m m' : ArrayMap κ ν} {k : κ}
    (h : ∀ v, (k, v) ∈ m.entries ↔ (k, v) ∈ m'.entries) : m.get k = m'.get k := by
  apply Option.ext
  intro v
  rw [get_eq_some_iff, get_eq_some_iff, h]

theorem indexOf_eq_none {m : ArrayMap κ ν} {k : κ} (h : m.indexOf k = none) : m.get k = none := by
  rw [indexOf, List.findIdx?_eq_none_iff] at h
  rw [get_eq_none_iff]
  intro hmem
  obtain ⟨e, he, rfl⟩ := List.mem_map.mp hmem
  simpa using h e he

/-- The entry at the place of a key is the entry of that key. -/
theorem indexOf_eq_some {m : ArrayMap κ ν} {k : κ} {i : Nat} (h : m.indexOf k = some i) :
    ∃ v, ∃ hlt : i < m.entries.length, m.entries[i] = (k, v) := by
  obtain ⟨hlt, hkey, -⟩ := List.findIdx?_eq_some_iff_getElem.mp h
  exact ⟨m.entries[i].2, hlt, Prod.ext (of_decide_eq_true hkey) rfl⟩

/-- Without its entry, a key is not found, and the others are found as before. -/
theorem Without.get {m m' : ArrayMap κ ν} {e : κ × ν} (h : m.Without e m') (k : κ) :
    m'.get k = if k = e.1 then none else m.get k := by
  split
  · rename_i hk
    rw [get_eq_none_iff, hk]
    exact h.notMem
  · rename_i hk
    apply get_congr
    intro v
    rw [h.mem_iff, List.mem_cons, or_iff_right]
    intro heq
    exact hk (congrArg Prod.fst heq)

/-! ## Entering -/

/-- The entries with a new value for `k`. -/
def putEntries (m : ArrayMap κ ν) (k : κ) (v : ν) : List (κ × ν) :=
  match m.indexOf k with
  | none => m.entries ++ [(k, v)]
  | some i => m.entries.set i (k, v)

theorem nodup_putEntries (m : ArrayMap κ ν) (k : κ) (v : ν) :
    ((m.putEntries k v).map Prod.fst).Nodup := by
  unfold putEntries
  split
  · rename_i hnone
    have hk := get_eq_none_iff.mp (indexOf_eq_none hnone)
    rw [List.map_append, List.nodup_append']
    refine ⟨m.nodup, List.nodup_singleton _, ?_⟩
    rw [List.map_singleton, List.disjoint_singleton]
    exact hk
  · rename_i i hsome
    obtain ⟨old, hlt, hget⟩ := indexOf_eq_some hsome
    have hlt' : i < (m.entries.map Prod.fst).length := by rwa [List.length_map]
    have hkey : (m.entries.map Prod.fst)[i] = k := by rw [List.getElem_map, hget]
    rw [List.map_set, ← hkey, List.set_getElem_self]
    exact m.nodup

/-- Enter a value, in the place of the value that was there. -/
def put (m : ArrayMap κ ν) (k : κ) (v : ν) : ArrayMap κ ν where
  entries := m.putEntries k v
  nodup := m.nodup_putEntries k v

theorem get_put (m : ArrayMap κ ν) (k : κ) (v : ν) (x : κ) :
    (m.put k v).get x = if x = k then some v else m.get x := by
  have hentries : (m.put k v).entries = m.putEntries k v := rfl
  unfold putEntries at hentries
  cases hindex : m.indexOf k with
  | none =>
    rw [hindex] at hentries
    split
    · rename_i hx
      rw [hx, get_eq_some_iff, hentries]
      simp
    · rename_i hx
      apply get_congr
      intro w
      simp [hentries, hx]
  | some i =>
    rw [hindex] at hentries
    obtain ⟨old, hlt, hget⟩ := indexOf_eq_some hindex
    split
    · rename_i hx
      rw [hx, get_eq_some_iff, hentries]
      exact List.mem_set hlt _
    · rename_i hx
      apply get_congr
      intro w
      rw [hentries, List.mem_iff_getElem?, List.mem_iff_getElem?]
      -- At `i` there is the key `k` before and after.
      refine exists_congr fun j => ?_
      rw [List.getElem?_set]
      by_cases hij : i = j
      · subst hij
        simp [hlt, hget, Ne.symm hx]
      · rw [if_neg hij]

/-! ## Removing -/

/-- Remove the entry of a key, and return it. -/
def fetchSwapRemove (m : ArrayMap κ ν) (k : κ) : Option (κ × ν) × ArrayMap κ ν :=
  match m.indexOf k with
  | none => (none, m)
  | some i =>
    (m.entries[i]?, { entries := Lib.swapRemove m.entries i, nodup := m.nodup_swapRemove i })

/-- Remove the entry of a key. -/
def swapRemove (m : ArrayMap κ ν) (k : κ) : ArrayMap κ ν := (m.fetchSwapRemove k).2

/-- What is not there is not removed. -/
theorem fetchSwapRemove_of_none {m : ArrayMap κ ν} {k : κ} (h : m.get k = none) :
    m.fetchSwapRemove k = (none, m) := by
  cases hindex : m.indexOf k with
  | none => rw [fetchSwapRemove, hindex]
  | some i =>
    obtain ⟨v, hlt, hget⟩ := indexOf_eq_some hindex
    have hmem : (k, v) ∈ m.entries := hget ▸ List.getElem_mem hlt
    rw [get_eq_some_iff.mpr hmem] at h
    cases h

theorem fetchSwapRemove_of_some {m : ArrayMap κ ν} {k : κ} {v : ν} (h : m.get k = some v) :
    ∃ m', m.fetchSwapRemove k = (some (k, v), m') ∧ m.Without (k, v) m' := by
  cases hindex : m.indexOf k with
  | none =>
    rw [indexOf_eq_none hindex] at h
    cases h
  | some i =>
    obtain ⟨w, hlt, hget⟩ := indexOf_eq_some hindex
    have hmem : (k, w) ∈ m.entries := hget ▸ List.getElem_mem hlt
    rw [get_eq_some_iff.mpr hmem, Option.some.injEq] at h
    subst h
    have hfetch : m.fetchSwapRemove k = (m.entries[i]?,
        { entries := Lib.swapRemove m.entries i, nodup := m.nodup_swapRemove i }) := by
      rw [fetchSwapRemove, hindex]
    rw [List.getElem?_eq_getElem hlt, hget] at hfetch
    refine ⟨_, hfetch, ?_⟩
    have hperm := perm_cons_swapRemove hlt
    rwa [hget] at hperm

theorem swapRemove_of_none {m : ArrayMap κ ν} {k : κ} (h : m.get k = none) :
    m.swapRemove k = m := by
  rw [swapRemove, fetchSwapRemove_of_none h]

theorem swapRemove_of_some {m : ArrayMap κ ν} {k : κ} {v : ν} (h : m.get k = some v) :
    m.Without (k, v) (m.swapRemove k) := by
  obtain ⟨m', hfetch, hwithout⟩ := fetchSwapRemove_of_some h
  rw [swapRemove, hfetch]
  exact hwithout

theorem get_swapRemove (m : ArrayMap κ ν) (k x : κ) :
    (m.swapRemove k).get x = if x = k then none else m.get x := by
  cases h : m.get k with
  | none =>
    rw [swapRemove_of_none h]
    split
    · rename_i hx
      rw [hx, h]
    · rfl
  | some v => exact (swapRemove_of_some h).get x

end ArrayMap

end LibIpc.Lib

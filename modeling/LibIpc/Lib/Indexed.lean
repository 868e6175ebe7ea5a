import Mathlib.Data.List.Nodup

/-!
# Records kept under two unique indexes

A database of records that two indexes find, each by a key of its own. `IndexedTable` are its
operations, `Consistent` says that the indexes find exactly the records there are, and `Lawful` what
the operations do to a database whose indexes are consistent. What `add` does with a record whose
keys are taken is left open, but that it forgets none.

`listTable` keeps the records in a list and is lawful.
-/

namespace LibIpc.Lib

/-- The operations of a database with two indexes; `none` where one raises an exception, which
leaves the database as it was. -/
structure IndexedTable (σ α κ₁ κ₂ : Type) where
  values : σ → List α
  get₁ : σ → κ₁ → Option α
  get₂ : σ → κ₂ → Option α
  add : σ → α → Option σ
  update : σ → κ₁ → α → Option σ
  delete : σ → κ₂ → Option σ

namespace IndexedTable

variable {σ α κ₁ κ₂ : Type}

/-- Each index finds the records that are there, by their key. -/
structure Consistent (T : IndexedTable σ α κ₁ κ₂) (key₁ : α → κ₁) (key₂ : α → κ₂) (s : σ) :
    Prop where
  nodup : (T.values s).Nodup
  get₁_iff : ∀ {k a}, T.get₁ s k = some a ↔ a ∈ T.values s ∧ key₁ a = k
  get₂_iff : ∀ {k a}, T.get₂ s k = some a ↔ a ∈ T.values s ∧ key₂ a = k

/-- One record takes the place of another, and the others stay. -/
def Replaced (T : IndexedTable σ α κ₁ κ₂) (a b : α) (s s' : σ) : Prop :=
  ∀ c, c ∈ T.values s' ↔ c = b ∨ (c ∈ T.values s ∧ c ≠ a)

/-- The operations of a map, where the indexes are consistent. -/
structure Lawful (T : IndexedTable σ α κ₁ κ₂) (key₁ : α → κ₁) (key₂ : α → κ₂) : Prop where
  mem_add : ∀ {s s' a}, T.Consistent key₁ key₂ s → T.add s a = some s' →
    ∀ b, b ∈ T.values s' ↔ b = a ∨ b ∈ T.values s
  add : ∀ {s a}, T.Consistent key₁ key₂ s → T.get₁ s (key₁ a) = none →
    T.get₂ s (key₂ a) = none → ∃ s', T.add s a = some s' ∧ T.Consistent key₁ key₂ s'
  update : ∀ {s a b}, T.Consistent key₁ key₂ s → a ∈ T.values s → key₁ b = key₁ a →
    key₂ b = key₂ a → ∃ s', T.update s (key₁ a) b = some s' ∧ T.Consistent key₁ key₂ s' ∧
      T.Replaced a b s s'
  delete : ∀ {s a}, T.Consistent key₁ key₂ s → a ∈ T.values s →
    ∃ s', T.delete s (key₂ a) = some s' ∧ T.Consistent key₁ key₂ s' ∧
      ∀ c, c ∈ T.values s' ↔ c ∈ T.values s ∧ c ≠ a

section
variable {T : IndexedTable σ α κ₁ κ₂} {key₁ : α → κ₁} {key₂ : α → κ₂} {s : σ}

namespace Consistent

theorem eq_of_key₁ (h : T.Consistent key₁ key₂ s) {a b : α} (ha : a ∈ T.values s)
    (hb : b ∈ T.values s) (hkey : key₁ a = key₁ b) : a = b := by
  have hfound := h.get₁_iff.mpr ⟨ha, hkey⟩
  rw [h.get₁_iff.mpr ⟨hb, rfl⟩] at hfound
  exact (Option.some.inj hfound).symm

theorem eq_of_key₂ (h : T.Consistent key₁ key₂ s) {a b : α} (ha : a ∈ T.values s)
    (hb : b ∈ T.values s) (hkey : key₂ a = key₂ b) : a = b := by
  have hfound := h.get₂_iff.mpr ⟨ha, hkey⟩
  rw [h.get₂_iff.mpr ⟨hb, rfl⟩] at hfound
  exact (Option.some.inj hfound).symm

theorem get₁_eq_none_iff (h : T.Consistent key₁ key₂ s) {k : κ₁} :
    T.get₁ s k = none ↔ ∀ a ∈ T.values s, key₁ a ≠ k := by
  rw [Option.eq_none_iff_forall_ne_some]
  constructor
  · intro hnone a ha hkey
    exact hnone a (h.get₁_iff.mpr ⟨ha, hkey⟩)
  · intro hfree a hfound
    exact hfree a (h.get₁_iff.mp hfound).1 (h.get₁_iff.mp hfound).2

theorem nodup_key₁ (h : T.Consistent key₁ key₂ s) : ((T.values s).map key₁).Nodup := by
  apply List.Nodup.map_on _ h.nodup
  intro a ha b hb hkey
  exact h.eq_of_key₁ ha hb hkey

theorem nodup_key₂ (h : T.Consistent key₁ key₂ s) : ((T.values s).map key₂).Nodup := by
  apply List.Nodup.map_on _ h.nodup
  intro a ha b hb hkey
  exact h.eq_of_key₂ ha hb hkey

end Consistent

/-! ## What an index finds after an operation -/

section
variable {s' : σ} {a b : α} {k : κ₁}

/-- An index finds what it found where the records with the key are those that were there. -/
theorem get₁_eq_of_mem_iff (h : T.Consistent key₁ key₂ s) (h' : T.Consistent key₁ key₂ s')
    (hsame : ∀ c, key₁ c = k → (c ∈ T.values s' ↔ c ∈ T.values s)) :
    T.get₁ s' k = T.get₁ s k := by
  apply Option.ext
  intro c
  show T.get₁ s' k = some c ↔ T.get₁ s k = some c
  rw [h'.get₁_iff, h.get₁_iff]
  exact and_congr_left (hsame c)

variable [DecidableEq κ₁]

theorem get₁_added (h : T.Consistent key₁ key₂ s) (h' : T.Consistent key₁ key₂ s')
    (hmem : ∀ c, c ∈ T.values s' ↔ c = a ∨ c ∈ T.values s) :
    T.get₁ s' k = if k = key₁ a then some a else T.get₁ s k := by
  split
  · rename_i hkey
    exact h'.get₁_iff.mpr ⟨(hmem a).mpr (.inl rfl), hkey.symm⟩
  · rename_i hne
    apply get₁_eq_of_mem_iff h h'
    rintro c rfl
    rw [hmem]
    apply or_iff_right
    rintro rfl
    exact hne rfl

theorem get₁_replaced (h : T.Consistent key₁ key₂ s) (h' : T.Consistent key₁ key₂ s')
    (hkey : key₁ b = key₁ a) (hreplaced : T.Replaced a b s s') :
    T.get₁ s' k = if k = key₁ a then some b else T.get₁ s k := by
  split
  · rename_i hk
    exact h'.get₁_iff.mpr ⟨(hreplaced b).mpr (.inl rfl), hkey.trans hk.symm⟩
  · rename_i hne
    apply get₁_eq_of_mem_iff h h'
    rintro c rfl
    rw [hreplaced]
    constructor
    · intro hc
      rcases hc with rfl | ⟨hold, -⟩
      · exact absurd hkey hne
      · exact hold
    · intro hold
      refine .inr ⟨hold, ?_⟩
      rintro rfl
      exact hne rfl

theorem get₁_deleted (h : T.Consistent key₁ key₂ s) (h' : T.Consistent key₁ key₂ s')
    (ha : a ∈ T.values s) (hmem : ∀ c, c ∈ T.values s' ↔ c ∈ T.values s ∧ c ≠ a) :
    T.get₁ s' k = if k = key₁ a then none else T.get₁ s k := by
  split
  · rename_i hk
    rw [h'.get₁_eq_none_iff]
    intro c hc hsame
    rw [hmem] at hc
    exact hc.2 (h.eq_of_key₁ hc.1 ha (hsame.trans hk))
  · rename_i hne
    apply get₁_eq_of_mem_iff h h'
    rintro c rfl
    rw [hmem]
    apply and_iff_left
    rintro rfl
    exact hne rfl

end

end

/-! ## Records in a list -/

/-- The records in a list, in the order of their addition. -/
def listTable [DecidableEq κ₁] [DecidableEq κ₂] (key₁ : α → κ₁) (key₂ : α → κ₂) :
    IndexedTable (List α) α κ₁ κ₂ where
  values l := l
  get₁ l k := l.find? fun a => key₁ a = k
  get₂ l k := l.find? fun a => key₂ a = k
  add l a := if ∃ b ∈ l, key₁ b = key₁ a ∨ key₂ b = key₂ a then none else some (l ++ [a])
  update l k b := if ∃ a ∈ l, key₁ a = k then some (l.map fun a => if key₁ a = k then b else a)
    else none
  delete l k := if ∃ a ∈ l, key₂ a = k then some (l.filter fun a => key₂ a ≠ k) else none

section
variable [DecidableEq κ₁] [DecidableEq κ₂] {key₁ : α → κ₁} {key₂ : α → κ₂} {l : List α}

theorem find?_eq_some_iff_of_nodup {κ : Type} [DecidableEq κ] {key : α → κ}
    (h : (l.map key).Nodup) {k : κ} {a : α} :
    (l.find? fun a => key a = k) = some a ↔ a ∈ l ∧ key a = k := by
  constructor
  · intro hfound
    exact ⟨List.mem_of_find?_eq_some hfound, by simpa using List.find?_some hfound⟩
  · intro hmem
    obtain ⟨ha, hkey⟩ := hmem
    cases hfound : l.find? fun a => key a = k with
    | none =>
      rw [List.find?_eq_none] at hfound
      exact absurd hkey (by simpa using hfound a ha)
    | some b =>
      have hb : key b = k := by simpa using List.find?_some hfound
      rw [List.inj_on_of_nodup_map h (List.mem_of_find?_eq_some hfound) ha (hb.trans hkey.symm)]

theorem consistent_list (h₁ : (l.map key₁).Nodup) (h₂ : (l.map key₂).Nodup) :
    (listTable key₁ key₂).Consistent key₁ key₂ l where
  nodup := h₁.of_map key₁
  get₁_iff := find?_eq_some_iff_of_nodup h₁
  get₂_iff := find?_eq_some_iff_of_nodup h₂

/-- The record keeps its keys when it is replaced. -/
theorem map_key_replace {κ : Type} {key : α → κ} {k : κ₁} {b : α}
    (h : ∀ a ∈ l, key₁ a = k → key b = key a) :
    (l.map fun a => if key₁ a = k then b else a).map key = l.map key := by
  rw [List.map_map]
  apply List.map_congr_left
  intro a ha
  show key (if key₁ a = k then b else a) = key a
  split
  · exact h a ha ‹_›
  · rfl

theorem lawful_list (key₁ : α → κ₁) (key₂ : α → κ₂) : (listTable key₁ key₂).Lawful key₁ key₂ where
  mem_add := by
    intro l l' a _ hadd b
    simp only [listTable, Option.ite_none_left_eq_some, Option.some.injEq] at hadd
    show b ∈ l' ↔ b = a ∨ b ∈ l
    rw [← hadd.2, List.mem_append, List.mem_singleton, or_comm]
  add := by
    intro l a h h₁ h₂
    have hfree : ¬ ∃ b ∈ l, key₁ b = key₁ a ∨ key₂ b = key₂ a := by
      intro htaken
      obtain ⟨b, hb, hkey | hkey⟩ := htaken
      · rw [h.get₁_iff.mpr ⟨hb, hkey⟩] at h₁
        cases h₁
      · rw [h.get₂_iff.mpr ⟨hb, hkey⟩] at h₂
        cases h₂
    push Not at hfree
    refine ⟨l ++ [a], if_neg ?_, consistent_list ?_ ?_⟩
    · push Not
      exact hfree
    · rw [List.map_append, List.map_singleton, ← List.concat_eq_append]
      apply List.Nodup.concat _ h.nodup_key₁
      intro hmem
      obtain ⟨b, hb, hkey⟩ := List.mem_map.mp hmem
      exact (hfree b hb).1 hkey
    · rw [List.map_append, List.map_singleton, ← List.concat_eq_append]
      apply List.Nodup.concat _ h.nodup_key₂
      intro hmem
      obtain ⟨b, hb, hkey⟩ := List.mem_map.mp hmem
      exact (hfree b hb).2 hkey
  update := by
    intro l a b h ha hkey₁ hkey₂
    have hone : ∀ c ∈ l, key₁ c = key₁ a → c = a := by
      intro c hc hkey
      exact h.eq_of_key₁ hc ha hkey
    refine ⟨l.map fun c => if key₁ c = key₁ a then b else c, if_pos ⟨a, ha, rfl⟩,
      consistent_list ?_ ?_, ?_⟩
    · rw [map_key_replace]
      · exact h.nodup_key₁
      · intro c hc hkey
        rw [hone c hc hkey, hkey₁]
    · rw [map_key_replace]
      · exact h.nodup_key₂
      · intro c hc hkey
        rw [hone c hc hkey, hkey₂]
    · intro c
      show c ∈ l.map _ ↔ c = b ∨ (c ∈ l ∧ c ≠ a)
      rw [List.mem_map]
      constructor
      · intro hmem
        obtain ⟨d, hd, hc⟩ := hmem
        split at hc
        · exact .inl hc.symm
        · rename_i hkey
          subst hc
          exact .inr ⟨hd, fun heq => hkey (by rw [heq])⟩
      · intro hmem
        rcases hmem with rfl | ⟨hc, hne⟩
        · exact ⟨a, ha, if_pos rfl⟩
        · exact ⟨c, hc, if_neg fun hkey => hne (hone c hc hkey)⟩
  delete := by
    intro l a h ha
    refine ⟨l.filter fun c => key₂ c ≠ key₂ a, if_pos ⟨a, ha, rfl⟩, consistent_list ?_ ?_, ?_⟩
    · exact h.nodup_key₁.sublist (List.filter_sublist.map _)
    · exact h.nodup_key₂.sublist (List.filter_sublist.map _)
    · intro c
      show c ∈ l.filter _ ↔ c ∈ l ∧ c ≠ a
      rw [List.mem_filter, decide_eq_true_eq]
      constructor
      · intro hmem
        exact ⟨hmem.1, fun heq => hmem.2 (by rw [heq])⟩
      · intro hmem
        exact ⟨hmem.1, fun hkey => hmem.2 (h.eq_of_key₂ hmem.1 ha hkey)⟩

end

end IndexedTable

end LibIpc.Lib

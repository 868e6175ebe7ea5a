import Mathlib.Data.List.AList
import Mathlib.Tactic

/-!
# Symmetric pairings

A table of partners: each key is mapped to its partner, and both ends of a pair are keys. `link`
enters a pair, `unlink` removes the pair of a key. `IsPairing` is the invariant: the partner of
the partner is the key itself.
-/

namespace LibIpc.Lib

variable {κ : Type} [DecidableEq κ]

/-- A table of partners. -/
abbrev PartnerTable (κ : Type) := AList fun _ : κ => κ

namespace PartnerTable

/-- Enter `a` and `b` as each other's partner. -/
def link (t : PartnerTable κ) (a b : κ) : PartnerTable κ := (t.insert a b).insert b a

/-- Remove `a` and its partner. -/
def unlink (t : PartnerTable κ) (a : κ) : PartnerTable κ :=
  match t.lookup a with
  | none => t
  | some b => (t.erase a).erase b

/-- Being someone's partner is mutual. -/
def IsPairing (t : PartnerTable κ) : Prop := ∀ x y, t.lookup x = some y → t.lookup y = some x

theorem isPairing_empty : IsPairing (∅ : PartnerTable κ) := by
  intro x y h
  simp at h

theorem mem_iff_lookup {t : PartnerTable κ} {x : κ} : x ∈ t ↔ ∃ y, t.lookup x = some y := by
  rw [← AList.lookup_isSome, Option.isSome_iff_exists]

theorem mem_link {t : PartnerTable κ} {a b x : κ} :
    x ∈ link t a b ↔ x = a ∨ x = b ∨ x ∈ t := by
  simp only [link, AList.mem_insert]
  tauto

theorem lookup_link (t : PartnerTable κ) (a b x : κ) :
    (link t a b).lookup x = if x = b then some a else if x = a then some b else t.lookup x := by
  unfold link
  by_cases hxb : x = b
  · rw [if_pos hxb, hxb, AList.lookup_insert]
  · rw [if_neg hxb, AList.lookup_insert_ne hxb]
    by_cases hxa : x = a
    · rw [if_pos hxa, hxa, AList.lookup_insert]
    · rw [if_neg hxa, AList.lookup_insert_ne hxa]

/-- Whoever is linked to someone else was so before. -/
theorem lookup_of_link {t : PartnerTable κ} {a b x y : κ} (ha : a ≠ y) (hb : b ≠ y)
    (h : (link t a b).lookup x = some y) : t.lookup x = some y := by
  rw [lookup_link] at h
  split at h
  · exact absurd (Option.some.inj h) ha
  · split at h
    · exact absurd (Option.some.inj h) hb
    · exact h

/-- A new pair does not disturb the others. -/
theorem IsPairing.link {t : PartnerTable κ} (h : IsPairing t) {a b : κ} (ha : a ∉ t)
    (hb : b ∉ t) : IsPairing (link t a b) := by
  intro x y hxy
  rw [lookup_link] at hxy ⊢
  by_cases hxb : x = b
  · rw [if_pos hxb, Option.some.injEq] at hxy
    subst hxb hxy
    -- `a = b` is not excluded
    split
    · rename_i hax
      rw [hax]
    · rw [if_pos rfl]
  · rw [if_neg hxb] at hxy
    by_cases hxa : x = a
    · rw [if_pos hxa, Option.some.injEq] at hxy
      rw [if_pos hxy.symm, hxa]
    · rw [if_neg hxa] at hxy
      have hyx := h x y hxy
      have hy := mem_iff_lookup.mpr ⟨x, hyx⟩
      have hya : y ≠ a := fun heq => ha (heq ▸ hy)
      have hyb : y ≠ b := fun heq => hb (heq ▸ hy)
      rw [if_neg hyb, if_neg hya]
      exact hyx

theorem mem_unlink {t : PartnerTable κ} {a b x : κ} (h : t.lookup a = some b) :
    x ∈ unlink t a ↔ x ≠ a ∧ x ≠ b ∧ x ∈ t := by
  simp only [unlink, h, AList.mem_erase]
  tauto

theorem unlink_of_none {t : PartnerTable κ} {a : κ} (h : t.lookup a = none) : unlink t a = t := by
  simp only [unlink, h]

theorem lookup_unlink {t : PartnerTable κ} {a b : κ} (h : t.lookup a = some b) (x : κ) :
    (unlink t a).lookup x = if x = a ∨ x = b then none else t.lookup x := by
  simp only [unlink, h]
  by_cases hxb : x = b
  · rw [if_pos (.inr hxb), hxb, AList.lookup_erase]
  · rw [AList.lookup_erase_ne hxb]
    by_cases hxa : x = a
    · rw [if_pos (.inl hxa), hxa, AList.lookup_erase]
    · rw [if_neg (by tauto), AList.lookup_erase_ne hxa]

/-- What is left was there before. -/
theorem lookup_of_unlink {t : PartnerTable κ} {a x y : κ} (h : (unlink t a).lookup x = some y) :
    t.lookup x = some y := by
  cases hab : t.lookup a with
  | none => rwa [unlink_of_none hab] at h
  | some b =>
    rw [lookup_unlink hab] at h
    split at h
    · cases h
    · exact h

/-- Removing a pair leaves the others as they are. -/
theorem IsPairing.unlink {t : PartnerTable κ} (h : IsPairing t) (a : κ) :
    IsPairing (unlink t a) := by
  cases hab : t.lookup a with
  | none => rwa [unlink_of_none hab]
  | some b =>
    intro x y hxy
    rw [lookup_unlink hab] at hxy ⊢
    split at hxy
    · cases hxy
    · rename_i hx
      have hyx := h x y hxy
      -- A partner of `a` or `b` is `b` or `a`.
      have hy : ¬ (y = a ∨ y = b) := by
        rintro (rfl | rfl)
        · exact hx (.inr (Option.some.inj (hyx.symm.trans hab)))
        · exact hx (.inl (Option.some.inj (hyx.symm.trans (h a y hab))))
      rw [if_neg hy]
      exact hyx

end PartnerTable

end LibIpc.Lib

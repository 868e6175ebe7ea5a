import Mathlib.Data.Finset.Card

/-!
# Handles that are given out and taken back

The handles a process holds are a finite set. An `Allocator` gives one that is not held; which one
it is depends on those that are. Taking a handle is `grow`, giving it back is `Finset.erase`.
-/

namespace LibIpc.Lib

/-- What gives out handles. -/
structure Allocator (α : Type) where
  next : Finset α → α
  fresh : ∀ s, next s ∉ s

namespace Allocator

variable {α : Type} [DecidableEq α] (k : Allocator α)

/-- One more handle is held. -/
def grow (s : Finset α) : Finset α := insert (k.next s) s

theorem next_mem_grow (s : Finset α) : k.next s ∈ k.grow s := Finset.mem_insert_self _ s

theorem subset_grow (s : Finset α) : s ⊆ k.grow s := Finset.subset_insert _ s

/-- Giving back what was taken. -/
theorem erase_grow (s : Finset α) : (k.grow s).erase (k.next s) = s :=
  Finset.erase_insert (k.fresh s)

theorem grow_ne (s : Finset α) : k.grow s ≠ s := by
  intro h
  have hmem := k.next_mem_grow s
  rw [h] at hmem
  exact k.fresh s hmem

theorem subset_grow_iterate (n : Nat) (s : Finset α) : s ⊆ k.grow^[n] s := by
  induction n generalizing s with
  | zero => exact Finset.Subset.refl s
  | succ n ih => exact (k.subset_grow s).trans (ih (k.grow s))

theorem card_grow_iterate (n : Nat) (s : Finset α) : (k.grow^[n] s).card = s.card + n := by
  induction n generalizing s with
  | zero => rfl
  | succ n ih =>
    have hone : (k.grow s).card = s.card + 1 := Finset.card_insert_of_notMem (k.fresh s)
    rw [Function.iterate_succ_apply, ih, hone]
    omega

/-- A handle is taken, then some more, then the first one is given back: the second one is held. -/
theorem next_mem_erase_grow_iterate (n : Nat) (s : Finset α) :
    k.next (k.grow s) ∈ (k.grow^[n + 1] (k.grow s)).erase (k.next s) := by
  refine Finset.mem_erase.mpr ⟨?_, k.subset_grow_iterate n _ (k.next_mem_grow (k.grow s))⟩
  intro heq
  have hmem := k.next_mem_grow s
  rw [← heq] at hmem
  exact k.fresh (k.grow s) hmem

theorem subset_erase_grow_iterate (n : Nat) (s : Finset α) :
    s ⊆ (k.grow^[n] (k.grow s)).erase (k.next s) := by
  intro x hx
  refine Finset.mem_erase.mpr ⟨?_, k.subset_grow_iterate n _ (k.subset_grow s hx)⟩
  rintro rfl
  exact k.fresh s hx

/-- It is the only new one exactly when it was the last one taken. -/
theorem erase_grow_iterate_eq_iff (n : Nat) (s : Finset α) :
    (k.grow^[n + 1] (k.grow s)).erase (k.next s) = insert (k.next (k.grow s)) s ↔ n = 0 := by
  constructor
  · intro h
    have hmem : k.next s ∈ k.grow^[n + 1] (k.grow s) :=
      k.subset_grow_iterate _ _ (k.next_mem_grow s)
    have hcard := congrArg Finset.card h
    have hinsert := Finset.card_insert_le (k.next (k.grow s)) s
    have hone : (k.grow s).card = s.card + 1 := Finset.card_insert_of_notMem (k.fresh s)
    rw [Finset.card_erase_of_mem hmem, card_grow_iterate, hone] at hcard
    omega
  · rintro rfl
    have hne := (Finset.mem_erase.mp (k.next_mem_erase_grow_iterate 0 s)).1
    have htwice : k.grow^[0 + 1] (k.grow s) = insert (k.next (k.grow s)) (k.grow s) := rfl
    rw [htwice, Finset.erase_insert_of_ne hne, erase_grow]

end Allocator

end LibIpc.Lib

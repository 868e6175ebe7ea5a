import Mathlib.Tactic

/-!
# Byte streams

A stream keeps the bytes, not the writes that put them there: one read may return the bytes of two
writes together, or a part of one. A `Link` remembers the writes, so that one can say of a read
whether it has kept to them.
-/

namespace LibIpc.Lib

variable {β : Type}

/-- The writes on a stream, as far as their bytes have not been read. -/
abbrev Link (β : Type) := List (List β)

namespace Link

/-- What is left once `n` bytes have been read. -/
def dropBytes : Nat → Link β → Link β
  | 0, ws => ws
  | _ + 1, [] => []
  | n + 1, w :: ws => if n + 1 < w.length then w.drop (n + 1) :: ws else dropBytes (n + 1 - w.length) ws

theorem flatten_dropBytes (n : Nat) (l : Link β) : (dropBytes n l).flatten = l.flatten.drop n := by
  induction l generalizing n with
  | nil => cases n <;> simp [dropBytes]
  | cons w ws ih =>
    cases n with
    | zero => rfl
    | succ n =>
      rw [dropBytes]
      split
      · rename_i hlt
        rw [List.flatten_cons, List.flatten_cons, List.drop_append_of_le_length (by omega)]
      · rename_i hle
        rw [ih, List.flatten_cons, List.drop_append, List.drop_of_length_le (Nat.not_lt.mp hle),
          List.nil_append]

/-- The stream after a read that has returned `bs`, at least one byte. -/
def read [DecidableEq β] (l : Link β) (bs : List β) : Option (Link β) :=
  if bs ≠ [] ∧ bs.isPrefixOf l.flatten then some (dropBytes bs.length l) else none

/-- The stream after a call that may have read nothing. -/
def readMaybe [DecidableEq β] (l : Link β) (bs : List β) : Option (Link β) :=
  if bs = [] then some l else l.read bs

/-- A read that keeps to the writes: it returns the bytes of the oldest one, or nothing. -/
def Keeps (l : Link β) (bs : List β) : Prop := bs = [] ∨ l.head? = some bs

instance [DecidableEq β] (l : Link β) (bs : List β) : Decidable (l.Keeps bs) :=
  inferInstanceAs (Decidable (_ ∨ _))

section
variable [DecidableEq β]

/-- A read takes the bytes it returns, and no others. -/
theorem append_of_read {l l' : Link β} {bs : List β} (h : l.read bs = some l') :
    bs ++ l'.flatten = l.flatten := by
  unfold read at h
  split at h
  · rename_i hcond
    cases h
    obtain ⟨rest, hrest⟩ := List.isPrefixOf_iff_prefix.mp hcond.2
    rw [flatten_dropBytes, ← hrest, List.drop_left]
  · cases h

theorem bytes_ne_nil_of_read {l l' : Link β} {bs : List β} (h : l.read bs = some l') : bs ≠ [] := by
  rintro rfl
  simp [read] at h

theorem ne_nil_of_read {l l' : Link β} {bs : List β} (h : l.read bs = some l') : l ≠ [] := by
  rintro rfl
  have happend := append_of_read h
  exact bytes_ne_nil_of_read h (List.append_eq_nil_iff.mp happend).1

/-- A read that returns the bytes of the oldest write leaves the other writes. -/
theorem read_cons {w : List β} (hw : w ≠ []) (ws : Link β) : read (w :: ws) w = some ws := by
  have hprefix : w.isPrefixOf (List.flatten (w :: ws)) :=
    List.isPrefixOf_iff_prefix.mpr ⟨ws.flatten, rfl⟩
  have hlen : w.length ≠ 0 := by simpa using hw
  obtain ⟨n, hn⟩ := Nat.exists_eq_succ_of_ne_zero hlen
  rw [read, if_pos ⟨hw, hprefix⟩, hn, Nat.succ_eq_add_one, dropBytes, ← Nat.succ_eq_add_one, ← hn,
    if_neg (Nat.lt_irrefl _), Nat.sub_self, dropBytes]

theorem Keeps.read_eq {l l' : Link β} {bs : List β} (h : l.Keeps bs) (hread : l.read bs = some l') :
    l = bs :: l' := by
  have hne := bytes_ne_nil_of_read hread
  obtain ⟨ws, rfl⟩ := List.head?_eq_some_iff.mp (h.resolve_left hne)
  rw [read_cons hne, Option.some.injEq] at hread
  rw [hread]

theorem readMaybe_nil (l : Link β) : l.readMaybe [] = some l := rfl

theorem readMaybe_cons {w : List β} (hw : w ≠ []) (ws : Link β) :
    readMaybe (w :: ws) w = some ws := by
  rw [readMaybe, if_neg hw, read_cons hw]

theorem Keeps.readMaybe_eq {l l' : Link β} {bs : List β} (h : l.Keeps bs)
    (hread : l.readMaybe bs = some l') : (bs = [] ∧ l' = l) ∨ l = bs :: l' := by
  unfold readMaybe at hread
  split at hread
  · rename_i hnil
    exact .inl ⟨hnil, (Option.some.inj hread).symm⟩
  · exact .inr (h.read_eq hread)

end

end Link

end LibIpc.Lib

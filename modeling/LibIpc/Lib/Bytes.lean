import Mathlib.Tactic

/-!
# Bytes, big-endian words and zero-filled buffers

A receive or send buffer that starts zero-filled is represented by the list of bytes written at
its beginning: past the end of the list every byte reads as zero. `byteAt` is that total read,
`overwrite` writes a run of bytes at index 0, `slice` copies a run out. A 32-bit word in network
order is `be32` when written and `be32At` when read back.
-/

namespace LibIpc.Lib

abbrev Byte := UInt8

/-! ## Reading and overwriting a zero-filled buffer -/

/-- Byte `i` of a buffer whose first bytes are `bs` and whose other bytes are zero. -/
def byteAt (bs : List Byte) (i : Nat) : Byte := bs.getD i 0

/-- The `n` bytes from index `lo` on. -/
def slice (bs : List Byte) (lo n : Nat) : List Byte :=
  (List.range n).map fun i => byteAt bs (lo + i)

/-- `new` written at the beginning of the buffer. -/
def overwrite (old new : List Byte) : List Byte := new ++ old.drop new.length

@[simp] theorem length_slice (bs : List Byte) (lo n : Nat) : (slice bs lo n).length = n := by
  simp [slice]

theorem getElem_slice (bs : List Byte) (lo n i : Nat) (h : i < (slice bs lo n).length) :
    (slice bs lo n)[i] = byteAt bs (lo + i) := by
  simp [slice]

theorem byteAt_of_lt {bs : List Byte} {i : Nat} (h : i < bs.length) : byteAt bs i = bs[i] := by
  simp [byteAt, h]

theorem byteAt_of_le {bs : List Byte} {i : Nat} (h : bs.length ≤ i) : byteAt bs i = 0 := by
  simp [byteAt, h]

@[simp] theorem byteAt_nil (i : Nat) : byteAt [] i = 0 := by simp [byteAt]

theorem byteAt_append_left {as bs : List Byte} {i : Nat} (h : i < as.length) :
    byteAt (as ++ bs) i = byteAt as i := by
  simp [byteAt, List.getElem?_append_left h]

theorem byteAt_append_right {as bs : List Byte} {i : Nat} (h : as.length ≤ i) :
    byteAt (as ++ bs) i = byteAt bs (i - as.length) := by
  simp [byteAt, List.getElem?_append_right h]

theorem byteAt_drop (bs : List Byte) (k i : Nat) : byteAt (bs.drop k) i = byteAt bs (k + i) := by
  simp [byteAt, List.getD]

theorem byteAt_take (bs : List Byte) (k i : Nat) :
    byteAt (bs.take k) i = if i < k then byteAt bs i else 0 := by
  by_cases h : i < k <;> simp [byteAt, List.getD, h]

/-- A run that lies within the written part is read back as it was written. -/
theorem slice_eq_of_le {bs : List Byte} {lo n : Nat} (h : lo + n ≤ bs.length) :
    slice bs lo n = (bs.drop lo).take n := by
  apply List.ext_getElem
  · simp; omega
  · intro i h₁ h₂
    have hi : i < n := by simpa using h₁
    rw [getElem_slice, byteAt_of_lt (by omega)]
    simp

theorem slice_append (as : List Byte) {bs : List Byte} {n : Nat} (h : n ≤ bs.length) :
    slice (as ++ bs) as.length n = bs.take n := by
  rw [slice_eq_of_le (by simp; omega)]
  simp

/-- A longer run is two runs. -/
theorem slice_add (bs : List Byte) (lo m n : Nat) :
    slice bs lo (m + n) = slice bs lo m ++ slice bs (lo + m) n := by
  simp only [slice, List.range_add, List.map_append, List.map_map]
  congr 1
  apply List.map_congr_left
  intro i _
  show byteAt bs (lo + (m + i)) = byteAt bs (lo + m + i)
  rw [Nat.add_assoc]

theorem byteAt_overwrite (old new : List Byte) (i : Nat) :
    byteAt (overwrite old new) i = if i < new.length then byteAt new i else byteAt old i := by
  unfold overwrite
  by_cases h : i < new.length
  · rw [byteAt_append_left h, if_pos h]
  · have h' : new.length ≤ i := by omega
    rw [byteAt_append_right h', byteAt_drop, if_neg h]
    congr 1
    omega

@[simp] theorem overwrite_nil_left (new : List Byte) : overwrite [] new = new := by
  simp [overwrite]

/-! ## Big-endian 32-bit words -/

/-- The four bytes of a 32-bit word, most significant first (`htonl`, `writeIntBig`). -/
def be32 (n : Nat) : List Byte :=
  [UInt8.ofNat (n / 2 ^ 24), UInt8.ofNat (n / 2 ^ 16), UInt8.ofNat (n / 2 ^ 8), UInt8.ofNat n]

/-- The word spelled by four bytes, most significant first. -/
def ofBe32 (b₀ b₁ b₂ b₃ : Byte) : Nat :=
  b₀.toNat * 2 ^ 24 + b₁.toNat * 2 ^ 16 + b₂.toNat * 2 ^ 8 + b₃.toNat

/-- The word at indices `i .. i + 3` of a zero-filled buffer (`ntohl`, `readIntBig`). -/
def be32At (bs : List Byte) (i : Nat) : Nat :=
  ofBe32 (byteAt bs i) (byteAt bs (i + 1)) (byteAt bs (i + 2)) (byteAt bs (i + 3))

@[simp] theorem length_be32 (n : Nat) : (be32 n).length = 4 := rfl

theorem ofBe32_lt (b₀ b₁ b₂ b₃ : Byte) : ofBe32 b₀ b₁ b₂ b₃ < 2 ^ 32 := by
  have h₀ := b₀.toNat_lt
  have h₁ := b₁.toNat_lt
  have h₂ := b₂.toNat_lt
  have h₃ := b₃.toNat_lt
  unfold ofBe32
  omega

theorem be32At_lt (bs : List Byte) (i : Nat) : be32At bs i < 2 ^ 32 := ofBe32_lt _ _ _ _

/-- Four bytes determine the word and the word determines the four bytes. -/
theorem ofBe32_inj {a₀ a₁ a₂ a₃ b₀ b₁ b₂ b₃ : Byte}
    (h : ofBe32 a₀ a₁ a₂ a₃ = ofBe32 b₀ b₁ b₂ b₃) :
    a₀ = b₀ ∧ a₁ = b₁ ∧ a₂ = b₂ ∧ a₃ = b₃ := by
  have := a₀.toNat_lt; have := a₁.toNat_lt; have := a₂.toNat_lt; have := a₃.toNat_lt
  have := b₀.toNat_lt; have := b₁.toNat_lt; have := b₂.toNat_lt; have := b₃.toNat_lt
  simp only [← UInt8.toNat_inj]
  unfold ofBe32 at h
  omega

theorem ofBe32_be32 {n : Nat} (h : n < 2 ^ 32) :
    ofBe32 (UInt8.ofNat (n / 2 ^ 24)) (UInt8.ofNat (n / 2 ^ 16)) (UInt8.ofNat (n / 2 ^ 8))
      (UInt8.ofNat n) = n := by
  simp only [ofBe32, UInt8.toNat_ofNat']
  omega

/-- Writing a word that was read. -/
theorem be32_be32At (bs : List Byte) (i : Nat) : be32 (be32At bs i) = slice bs i 4 := by
  obtain ⟨h₀, h₁, h₂, h₃⟩ := ofBe32_inj (ofBe32_be32 (be32At_lt bs i))
  rw [be32, be32At, h₀, h₁, h₂, h₃]
  rfl

/-- Reading a word back where it was written. -/
theorem be32At_append {n : Nat} (h : n < 2 ^ 32) (as bs : List Byte) :
    be32At (as ++ (be32 n ++ bs)) as.length = n := by
  have hb : ∀ k, byteAt (as ++ (be32 n ++ bs)) (as.length + k) = byteAt (be32 n ++ bs) k := by
    intro k
    rw [byteAt_append_right (by omega)]
    congr 1
    omega
  have h₀ := hb 0
  rw [Nat.add_zero] at h₀
  rw [be32At, h₀, hb, hb, hb]
  exact ofBe32_be32 h

end LibIpc.Lib

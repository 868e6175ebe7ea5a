import LibIpc.Lib.Bytes

/-!
# Programs that only write

What a program does to a stream, when the stream does not matter for what it does next: a sequence
of writes, and perhaps a stop. A stream takes a write or answers an error, which ends the program.
On a buffer of fixed size such a program ends well exactly when all it writes fits.
-/

namespace LibIpc.Lib

variable {σ ε : Type}

/-- One thing the program does. -/
inductive Output where
  | write (bs : List Byte)
  | panic

/-- Run on a stream: `none` when the program stops, the error when a write fails. -/
def runOutput (writeAll : σ → List Byte → Except ε σ) : σ → List Output → Option (Except ε σ)
  | s, [] => some (.ok s)
  | s, .write bs :: os =>
    match writeAll s bs with
    | .error e => some (.error e)
    | .ok s => runOutput writeAll s os
  | _, .panic :: _ => none

/-- All that is written; `none` when the program stops. -/
def written : List Output → Option (List Byte)
  | [] => some []
  | .write bs :: os => (written os).map (bs ++ ·)
  | .panic :: _ => none

/-- A buffer of `size` bytes, as what was written to it. -/
def writeFixed (size : Nat) (noSpaceLeft : ε) (out bs : List Byte) : Except ε (List Byte) :=
  if out.length + bs.length ≤ size then .ok (out ++ bs) else .error noSpaceLeft

section
variable {os os' : List Output} {bs text text' : List Byte}

@[simp] theorem written_write (bs : List Byte) (os : List Output) :
    written (.write bs :: os) = (written os).map (bs ++ ·) := rfl

theorem written_append (h : written os = some text) :
    written (os ++ os') = (written os').map (text ++ ·) := by
  induction os generalizing text with
  | nil =>
    cases h
    simp
  | cons o os ih =>
    cases o with
    | panic => cases h
    | write bs =>
      rw [written_write] at h
      obtain ⟨rest, hrest, rfl⟩ := Option.map_eq_some_iff.mp h
      rw [List.cons_append, written_write, ih hrest, Option.map_map]
      congr 1
      funext t
      exact (List.append_assoc bs rest t).symm

theorem written_replicate (n : Nat) (b : Byte) :
    written (List.replicate n (.write [b])) = some (List.replicate n b) := by
  induction n with
  | zero => rfl
  | succ n ih =>
    rw [List.replicate_succ, written_write, ih]
    rfl

/-- A buffer of fixed size takes the text exactly when there is room for it. -/
theorem runOutput_fixed {size : Nat} {e : ε} {out : List Byte} (h : written os = some text)
    (hout : out.length ≤ size) :
    runOutput (writeFixed size e) out os =
      some (if out.length + text.length ≤ size then .ok (out ++ text) else .error e) := by
  induction os generalizing out text with
  | nil =>
    cases h
    rw [runOutput, List.length_nil, Nat.add_zero, if_pos hout, List.append_nil]
  | cons o os ih =>
    cases o with
    | panic => cases h
    | write bs =>
      rw [written_write] at h
      obtain ⟨rest, hrest, rfl⟩ := Option.map_eq_some_iff.mp h
      rw [runOutput, writeFixed]
      by_cases hfits : out.length + bs.length ≤ size
      · rw [if_pos hfits]
        show runOutput (writeFixed size e) (out ++ bs) os = _
        rw [ih hrest (by rwa [List.length_append]), List.append_assoc, List.length_append,
          List.length_append, Nat.add_assoc]
      · have hlong : ¬ out.length + (bs ++ rest).length ≤ size := by
          rw [List.length_append]
          omega
        rw [if_neg hfits, if_neg hlong]

end

end LibIpc.Lib

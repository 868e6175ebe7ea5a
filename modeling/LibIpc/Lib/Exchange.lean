import LibIpc.Lib.Run

/-!
# Asking and answering in turn

A client asks, waits for the answer and only then asks again; the other side answers `f x` to `x`. A
`Flight` says where the question under way is, and `Turn` what one step of a system may do to it. A
system whose steps are turns answers in order: what has been read are the answers to the questions
asked, except the one under way (`runAll_accounted`).
-/

namespace LibIpc.Lib

variable {α β : Type}

/-- Where the question under way is: there is none, it has been asked, it is with the other side, or
its answer is on the way. -/
inductive Flight (α : Type) where
  | idle
  | asked (x : α)
  | held (x : α)
  | answered (x : α)

/-- The question under way. -/
def Flight.open? : Flight α → Option α
  | .idle => none
  | .asked x | .held x | .answered x => some x

/-- What the client sees. -/
inductive Exchanged (α β : Type) where
  | asked (x : α)
  | got (y : β)
  deriving DecidableEq

/-- The questions asked. -/
def questions (es : List (Exchanged α β)) : List α :=
  es.filterMap fun
    | .asked x => some x
    | .got _ => none

/-- The answers read. -/
def answers (es : List (Exchanged α β)) : List β :=
  es.filterMap fun
    | .asked _ => none
    | .got y => some y

@[simp] theorem questions_append (es es' : List (Exchanged α β)) :
    questions (es ++ es') = questions es ++ questions es' := by
  simp [questions]

@[simp] theorem answers_append (es es' : List (Exchanged α β)) :
    answers (es ++ es') = answers es ++ answers es' := by
  simp [answers]

/-- What one step does to the question under way. -/
inductive Turn (f : α → β) : Flight α → List (Exchanged α β) → Flight α → Prop
  | stays (a : Flight α) : Turn f a [] a
  | asks (x : α) : Turn f .idle [.asked x] (.asked x)
  | takes (x : α) : Turn f (.asked x) [] (.held x)
  | answers (x : α) : Turn f (.held x) [] (.answered x)
  | reads (x : α) : Turn f (.answered x) [.got (f x)] .idle

/-- From `a` to `b`, the questions are those that have been answered and the one under way. -/
def Accounted (f : α → β) (a : Flight α) (es : List (Exchanged α β)) (b : Flight α) : Prop :=
  ∃ done, a.open?.toList ++ questions es = done ++ b.open?.toList ∧ answers es = done.map f

section
variable {f : α → β} {a b c : Flight α} {es es' : List (Exchanged α β)}

theorem Turn.accounted (h : Turn f a es b) : Accounted f a es b := by
  cases h with
  | stays a => exact ⟨[], by simp [questions], rfl⟩
  | asks x => exact ⟨[], rfl, rfl⟩
  | takes x => exact ⟨[], rfl, rfl⟩
  | answers x => exact ⟨[], rfl, rfl⟩
  | reads x => exact ⟨[x], rfl, rfl⟩

theorem Accounted.append (h : Accounted f a es b) (h' : Accounted f b es' c) :
    Accounted f a (es ++ es') c := by
  obtain ⟨done, hasked, hgot⟩ := h
  obtain ⟨done', hasked', hgot'⟩ := h'
  refine ⟨done ++ done', ?_, ?_⟩
  · rw [questions_append, ← List.append_assoc, hasked, List.append_assoc, hasked',
      List.append_assoc]
  · rw [answers_append, hgot, hgot', List.map_append]

/-- A system each of whose steps is a turn, `P s a` relating its states to the question under way. -/
theorem runAll_accounted {σ ι : Type} {step : σ → ι → Option (σ × List (Exchanged α β))}
    {G : σ → ι → Prop} {P : σ → Flight α → Prop}
    (hstep : ∀ s i s₁ es a, P s a → G s i → step s i = some (s₁, es) →
      ∃ b, Turn f a es b ∧ P s₁ b)
    {s s' : σ} {is : List ι} (hs : P s a) (hG : RunMeets step G s is)
    (h : runAll step s is = some (s', es)) : ∃ b, Accounted f a es b ∧ P s' b := by
  induction is generalizing s a es with
  | nil =>
    cases h
    exact ⟨a, (Turn.stays a).accounted, hs⟩
  | cons i is ih =>
    obtain ⟨s₁, es₁, es₂, hone, hrest, rfl⟩ := runAll_cons_eq_some h
    obtain ⟨b, hturn, hb⟩ := hstep s i s₁ es₁ a hs hG.1 hone
    obtain ⟨c, hacc, hc⟩ := ih hb (hG.2 _ hone) hrest
    exact ⟨c, hturn.accounted.append hacc, hc⟩

end

end LibIpc.Lib

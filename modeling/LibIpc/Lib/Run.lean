import Mathlib.Tactic

/-!
# Runs of a partial, event-emitting step function

A system is a partial function `step : σ → ι → Option (σ × List ε)`: from a state and an input
(a call together with everything its environment answers) to the next state and the events
emitted, or `none` when the call never returns or its behaviour is undefined. `runAll` folds it
over a sequence of inputs, `Reachable` is what some sequence reaches, and `runAll_induction` is the
one induction every invariant goes through.
-/

namespace LibIpc.Lib

variable {σ ι ε : Type}

/-- Run a sequence of inputs, collecting the events. -/
def runAll (step : σ → ι → Option (σ × List ε)) (s : σ) : List ι → Option (σ × List ε)
  | [] => some (s, [])
  | c :: cs =>
    (step s c).bind fun r => (runAll step r.1 cs).map fun r' => (r'.1, r.2 ++ r'.2)

/-- Every step of the run meets `G`, a condition on the state before the step and its input. -/
def RunMeets (step : σ → ι → Option (σ × List ε)) (G : σ → ι → Prop) (s : σ) : List ι → Prop
  | [] => True
  | c :: cs => G s c ∧ ∀ r, step s c = some r → RunMeets step G r.1 cs

/-- The states some run from `init` ends in. -/
def Reachable (step : σ → ι → Option (σ × List ε)) (init s : σ) : Prop :=
  ∃ cs es, runAll step init cs = some (s, es)

section
variable {step : σ → ι → Option (σ × List ε)}

theorem runAll_cons_eq_some {s s' : σ} {c : ι} {cs : List ι} {es : List ε}
    (h : runAll step s (c :: cs) = some (s', es)) :
    ∃ s₁ es₁ es₂, step s c = some (s₁, es₁) ∧ runAll step s₁ cs = some (s', es₂) ∧
      es = es₁ ++ es₂ := by
  simp only [runAll, Option.bind_eq_some_iff, Option.map_eq_some_iff, Prod.mk.injEq] at h
  obtain ⟨⟨s₁, es₁⟩, hstep, ⟨s₂, es₂⟩, hrun, rfl, rfl⟩ := h
  exact ⟨s₁, es₁, es₂, hstep, hrun, rfl⟩

/-- Induction along a run whose steps all meet `G`: what holds of the empty run and is carried
over one step holds of the whole run. -/
theorem runAll_induction {G : σ → ι → Prop} {P : σ → Prop} {Q : σ → List ε → σ → Prop}
    (hnil : ∀ s, P s → Q s [] s)
    (hcons : ∀ s c s₁ es₁, P s → G s c → step s c = some (s₁, es₁) →
      P s₁ ∧ ∀ es₂ s', Q s₁ es₂ s' → Q s (es₁ ++ es₂) s')
    {s s' : σ} {cs : List ι} {es : List ε} (hs : P s) (hG : RunMeets step G s cs)
    (h : runAll step s cs = some (s', es)) : P s' ∧ Q s es s' := by
  induction cs generalizing s es with
  | nil =>
    simp only [runAll, Option.some.injEq, Prod.mk.injEq] at h
    obtain ⟨rfl, rfl⟩ := h
    exact ⟨hs, hnil s hs⟩
  | cons c cs ih =>
    obtain ⟨s₁, es₁, es₂, hstep, hrun, rfl⟩ := runAll_cons_eq_some h
    obtain ⟨hP, hQ⟩ := hcons s c s₁ es₁ hs hG.1 hstep
    obtain ⟨hP', hQ'⟩ := ih hP (hG.2 (s₁, es₁) hstep) hrun
    exact ⟨hP', hQ es₂ s' hQ'⟩

theorem runAll_append (s : σ) (cs cs' : List ι) :
    runAll step s (cs ++ cs') =
      (runAll step s cs).bind fun r =>
        (runAll step r.1 cs').map fun r' => (r'.1, r.2 ++ r'.2) := by
  induction cs generalizing s with
  | nil => simp [runAll]
  | cons c cs ih =>
    rw [List.cons_append, runAll, runAll]
    cases step s c with
    | none => rfl
    | some r =>
      simp only [Option.bind_some, ih]
      cases runAll step r.1 cs with
      | none => rfl
      | some r₁ =>
        simp only [Option.bind_some, Option.map_some]
        cases runAll step r₁.1 cs' with
        | none => rfl
        | some r₂ => simp [List.append_assoc]

theorem RunMeets.left {G : σ → ι → Prop} {s : σ} {cs cs' : List ι}
    (h : RunMeets step G s (cs ++ cs')) : RunMeets step G s cs := by
  induction cs generalizing s with
  | nil => trivial
  | cons c cs ih => exact ⟨h.1, fun r hr => ih (h.2 r hr)⟩

theorem RunMeets.right {G : σ → ι → Prop} {s s' : σ} {cs cs' : List ι} {es : List ε}
    (h : RunMeets step G s (cs ++ cs')) (hrun : runAll step s cs = some (s', es)) :
    RunMeets step G s' cs' := by
  induction cs generalizing s es with
  | nil =>
    cases hrun
    exact h
  | cons c cs ih =>
    obtain ⟨s₁, es₁, es₂, hstep, hrun, -⟩ := runAll_cons_eq_some hrun
    exact ih (h.2 (s₁, es₁) hstep) hrun

theorem RunMeets.append {G : σ → ι → Prop} {s s' : σ} {cs cs' : List ι} {es : List ε}
    (h : RunMeets step G s cs) (hrun : runAll step s cs = some (s', es))
    (h' : RunMeets step G s' cs') : RunMeets step G s (cs ++ cs') := by
  induction cs generalizing s es with
  | nil =>
    cases hrun
    exact h'
  | cons c cs ih =>
    obtain ⟨s₁, es₁, es₂, hstep, hrest, -⟩ := runAll_cons_eq_some hrun
    refine ⟨h.1, ?_⟩
    intro r hr
    rw [hstep, Option.some.injEq] at hr
    subst hr
    exact ih (h.2 _ hstep) hrest

theorem RunMeets.imp {G G' : σ → ι → Prop} (himp : ∀ s c, G s c → G' s c) {s : σ} {cs : List ι}
    (h : RunMeets step G s cs) : RunMeets step G' s cs := by
  induction cs generalizing s with
  | nil => trivial
  | cons c cs ih => exact ⟨himp s c h.1, fun r hr => ih (h.2 r hr)⟩

theorem RunMeets.and_forall {G : σ → ι → Prop} {P : ι → Prop} {s : σ} {cs : List ι}
    (h : RunMeets step G s cs) (hP : ∀ c ∈ cs, P c) :
    RunMeets step (fun s c => G s c ∧ P c) s cs := by
  induction cs generalizing s with
  | nil => trivial
  | cons c cs ih =>
    refine ⟨⟨h.1, hP c List.mem_cons_self⟩, fun r hr => ih (h.2 r hr) ?_⟩
    intro c' hc'
    exact hP c' (List.mem_cons_of_mem c hc')

/-- What every input meets in the state the inputs before it lead to. -/
theorem runMeets_of_forall {G : σ → ι → Prop} {s : σ} {cs : List ι}
    (h : ∀ cs₁ c cs₂ r, cs = cs₁ ++ c :: cs₂ → runAll step s cs₁ = some r → G r.1 c) :
    RunMeets step G s cs := by
  induction cs generalizing s with
  | nil => trivial
  | cons c cs ih =>
    refine ⟨h [] c cs (s, []) rfl rfl, ?_⟩
    intro r hr
    apply ih
    intro cs₁ c' cs₂ r' hcs hrun
    refine h (c :: cs₁) c' cs₂ (r'.1, r.2 ++ r'.2) (by rw [hcs, List.cons_append]) ?_
    rw [runAll, hr, Option.bind_some, hrun, Option.map_some]

instance RunMeets.decidable {G : σ → ι → Prop} [∀ s c, Decidable (G s c)] :
    ∀ s cs, Decidable (RunMeets step G s cs)
  | _, [] => isTrue trivial
  | s, c :: cs =>
    match hstep : step s c with
    | none => decidable_of_iff (G s c) (by simp [RunMeets, hstep])
    | some r =>
      have := RunMeets.decidable (G := G) r.1 cs
      decidable_of_iff (G s c ∧ RunMeets step G r.1 cs) (by simp [RunMeets, hstep])

theorem runMeets_true (s : σ) (cs : List ι) : RunMeets step (fun _ _ => True) s cs := by
  induction cs generalizing s with
  | nil => trivial
  | cons c cs ih => exact ⟨trivial, fun r _ => ih r.1⟩

/-- An invariant kept by the steps that meet `G` holds at the end of a run that meets `G`. -/
theorem runAll_invariant {G : σ → ι → Prop} {P : σ → Prop}
    (hstep : ∀ s c s₁ es₁, P s → G s c → step s c = some (s₁, es₁) → P s₁)
    {s s' : σ} {cs : List ι} {es : List ε} (hs : P s) (hG : RunMeets step G s cs)
    (h : runAll step s cs = some (s', es)) : P s' :=
  (runAll_induction (Q := fun _ _ _ => True) (fun _ _ => trivial)
    (fun s c s₁ es₁ hP hg hst => ⟨hstep s c s₁ es₁ hP hg hst, fun _ _ _ => trivial⟩) hs hG h).1

/-- A system that does what another does with the part `f` of its state, while an invariant of that
one holds, has the runs of that one. -/
theorem runAll_map {τ : Type} {step' : τ → ι → Option (τ × List ε)} {f : σ → τ} {P : τ → Prop}
    (hkept : ∀ t c t₁ es₁, P t → step' t c = some (t₁, es₁) → P t₁)
    (hsame : ∀ s c, P (f s) → (step s c).map (fun r => (f r.1, r.2)) = step' (f s) c) {s : σ}
    (hs : P (f s)) (cs : List ι) :
    (runAll step s cs).map (fun r => (f r.1, r.2)) = runAll step' (f s) cs := by
  induction cs generalizing s with
  | nil => rfl
  | cons c cs ih =>
    have hone := hsame s c hs
    rw [runAll, runAll, ← hone]
    cases hstep : step s c with
    | none => rfl
    | some r =>
      rw [hstep] at hone
      rw [Option.map_some, Option.bind_some, Option.bind_some, ← ih (hkept _ c _ r.2 hs hone.symm),
        Option.map_map, Option.map_map]
      rfl

/-- Its inputs meet what those of that one meet. -/
theorem runMeets_map {τ : Type} {step' : τ → ι → Option (τ × List ε)} {f : σ → τ} {P : τ → Prop}
    {G : τ → ι → Prop} (hkept : ∀ t c t₁ es₁, P t → step' t c = some (t₁, es₁) → P t₁)
    (hsame : ∀ s c, P (f s) → (step s c).map (fun r => (f r.1, r.2)) = step' (f s) c) {s : σ}
    (hs : P (f s)) {cs : List ι} :
    RunMeets step (fun s c => G (f s) c) s cs ↔ RunMeets step' G (f s) cs := by
  induction cs generalizing s with
  | nil => exact Iff.rfl
  | cons c cs ih =>
    have hone := hsame s c hs
    refine and_congr_right fun _ => ?_
    cases hstep : step s c with
    | none =>
      rw [hstep] at hone
      simp [← hone]
    | some r =>
      rw [hstep] at hone
      have hrest := ih (hkept (f s) c (f r.1) r.2 hs hone.symm)
      simp [← hone, hrest]

/-- What relates the state to the events so far holds at the end of a run, if every step keeps
it. -/
theorem runAll_history {G : σ → ι → Prop} {R : σ → List ε → Prop}
    (hstep : ∀ s c s₁ es₁ es, R s es → G s c → step s c = some (s₁, es₁) → R s₁ (es ++ es₁))
    {s s' : σ} {cs : List ι} {es : List ε} (hs : R s []) (hG : RunMeets step G s cs)
    (h : runAll step s cs = some (s', es)) : R s' es := by
  have hrun := runAll_induction (P := fun _ => True)
    (Q := fun s es s' => ∀ past, R s past → R s' (past ++ es))
    (by
      intro s _ past hpast
      rw [List.append_nil]
      exact hpast)
    (by
      intro s c s₁ es₁ _ hmeets hone
      refine ⟨trivial, fun es₂ s' hrest past hpast => ?_⟩
      rw [← List.append_assoc]
      exact hrest _ (hstep s c s₁ es₁ past hpast hmeets hone))
    trivial hG h
  exact hrun.2 [] hs

/-- A quantity that no step increases is the same at both ends of a run exactly when every step
leaves it alone, and the steps that do are those that meet `G`. No state outside `A` has a next
one. -/
theorem runMeets_iff_eq {G : σ → ι → Prop} {P A : σ → Prop} {f : σ → Int}
    (halive : ∀ s c r, step s c = some r → A s)
    (hstep : ∀ s c s₁ es₁, P s → step s c = some (s₁, es₁) → A s₁ →
      P s₁ ∧ f s₁ ≤ f s ∧ (f s₁ = f s ↔ G s c))
    {s s' : σ} {cs : List ι} {es : List ε} (hs : P s) (hs' : A s')
    (h : runAll step s cs = some (s', es)) :
    f s' ≤ f s ∧ (RunMeets step G s cs ↔ f s' = f s) := by
  induction cs generalizing s es with
  | nil =>
    cases h
    exact ⟨Int.le_refl _, iff_of_true trivial rfl⟩
  | cons c cs ih =>
    obtain ⟨s₁, es₁, es₂, hone, hrun, -⟩ := runAll_cons_eq_some h
    have hs₁ : A s₁ := by
      cases cs with
      | nil =>
        cases hrun
        exact hs'
      | cons c' cs =>
        obtain ⟨s₂, es₃, es₄, htwo, -, -⟩ := runAll_cons_eq_some hrun
        exact halive s₁ c' _ htwo
    obtain ⟨hP, hle, hiff⟩ := hstep s c s₁ es₁ hs hone hs₁
    obtain ⟨hle', hiff'⟩ := ih hP hrun
    refine ⟨Int.le_trans hle' hle, ?_⟩
    constructor
    · intro hmeets
      rw [hiff'.mp (hmeets.2 _ hone), hiff.mpr hmeets.1]
    · intro heq
      -- Neither the step nor the rest of the run can decrease it.
      refine ⟨hiff.mp (by omega), ?_⟩
      intro r hr
      rw [hone, Option.some.injEq] at hr
      subst hr
      exact hiff'.mpr (by omega)

/-- The system is still in `A` after all these inputs exactly when each of them meets `G`: a step
leaves it there exactly when it does, and outside `A` there are no steps. What the environment
promises about each input is `C`. -/
theorem exists_runAll_iff {C G : σ → ι → Prop} {P A : σ → Prop}
    (halive : ∀ s c r, step s c = some r → A s)
    (hkept : ∀ s c s₁ es₁, P s → step s c = some (s₁, es₁) → P s₁)
    (hstep : ∀ s c, P s → A s → C s c → ((∃ s₁ es₁, step s c = some (s₁, es₁) ∧ A s₁) ↔ G s c))
    {s : σ} {cs : List ι} (hs : P s) (hA : A s) (hC : RunMeets step C s cs) :
    (∃ s' es, runAll step s cs = some (s', es) ∧ A s') ↔ RunMeets step G s cs := by
  induction cs generalizing s with
  | nil => exact iff_of_true ⟨s, [], rfl, hA⟩ trivial
  | cons c cs ih =>
    constructor
    · rintro ⟨s', es, h, hs'⟩
      obtain ⟨s₁, es₁, es₂, hone, hrest, -⟩ := runAll_cons_eq_some h
      have hs₁ : A s₁ := by
        cases cs with
        | nil =>
          cases hrest
          exact hs'
        | cons c' cs =>
          obtain ⟨s₂, es₃, es₄, htwo, -, -⟩ := runAll_cons_eq_some hrest
          exact halive s₁ c' _ htwo
      refine ⟨(hstep s c hs hA hC.1).mp ⟨s₁, es₁, hone, hs₁⟩, ?_⟩
      intro r hr
      rw [hone, Option.some.injEq] at hr
      subst hr
      exact (ih (hkept s c s₁ es₁ hs hone) hs₁ (hC.2 _ hone)).mp ⟨s', es₂, hrest, hs'⟩
    · rintro ⟨hmeets, hrest⟩
      obtain ⟨s₁, es₁, hone, hs₁⟩ := (hstep s c hs hA hC.1).mpr hmeets
      obtain ⟨s', es₂, hrun, hs'⟩ :=
        (ih (hkept s c s₁ es₁ hs hone) hs₁ (hC.2 _ hone)).mpr (hrest _ hone)
      refine ⟨s', es₁ ++ es₂, ?_, hs'⟩
      rw [runAll, hone, Option.bind_some, hrun, Option.map_some]

/-- An invariant kept by every step holds in every reachable state. -/
theorem Reachable.invariant {P : σ → Prop} {init s : σ}
    (hstep : ∀ s c s₁ es₁, P s → step s c = some (s₁, es₁) → P s₁)
    (hinit : P init) (h : Reachable step init s) : P s := by
  obtain ⟨cs, es, h⟩ := h
  exact runAll_invariant (G := fun _ _ => True) (fun s c s₁ es₁ hP _ => hstep s c s₁ es₁ hP) hinit
    (runMeets_true init cs) h

end

end LibIpc.Lib

import Mathlib.Data.List.Infix

/-!
# Runs of a transition function

A system of interleaved parties is a function `step : σ → α → Option σ`: the state after an
action, `none` where the action is not possible. The order of the parties' steps is the list of
actions, so a fact about every interleaving is a fact about `run` on every list.

Three rules carry the inductions over runs, each for the runs whose steps all meet a guard
(`Meets`). `run_invariant_of_meets` is the invariant rule, `throughout_iff_meets` makes its guard
exact, and `run_simulates_of_meets` transports a run along a simulation, one step to any number of
steps. `run_invariant` and `run_simulates` are the cases without a guard. `exists_run` is the rule
for runs that never get stuck, and `exists_run_replicate` its case of one action over and over.
-/

namespace Transition

variable {σ τ α β : Type*}

/-- The step to `s` that is possible where `p` holds. -/
def guarded (p : Prop) [Decidable p] (s : σ) : Option σ := if p then some s else none

@[simp] theorem guarded_eq_some {p : Prop} [Decidable p] {s t : σ} :
    guarded p s = some t ↔ p ∧ s = t := by
  simp [guarded]

/-- The state after the actions of a list, `none` as soon as one of them is not possible. -/
def run (step : σ → α → Option σ) : σ → List α → Option σ
  | s, [] => some s
  | s, a :: as => (step s a).bind fun t => run step t as

section
variable {step : σ → α → Option σ} {s t : σ} {a : α} {as bs : List α}

@[simp] theorem run_nil : run step s [] = some s := rfl

/-- A run of a non-empty list is its first step and the run of the rest. -/
theorem run_cons_eq_some :
    run step s (a :: as) = some t ↔ ∃ u, step s a = some u ∧ run step u as = some t := by
  simp only [run, Option.bind_eq_some_iff]

/-- Runs compose along `List.append`. -/
theorem run_append :
    run step s (as ++ bs) = (run step s as).bind fun t => run step t bs := by
  induction as generalizing s with
  | nil => rfl
  | cons a as ih =>
    rw [List.cons_append, run, run, Option.bind_assoc]
    exact congrArg (Option.bind (step s a)) (funext fun _ => ih)

/-- A run in two parts. -/
theorem run_append_eq_some :
    run step s (as ++ bs) = some t ↔ ∃ u, run step s as = some u ∧ run step u bs = some t := by
  rw [run_append, Option.bind_eq_some_iff]

/-! ## Runs whose steps meet a guard -/

/-- Every step of the run meets the guard `G` in the state it starts from. -/
def Meets (step : σ → α → Option σ) (G : σ → α → Prop) : σ → List α → Prop
  | _, [] => True
  | s, a :: as => G s a ∧ ∀ t, step s a = some t → Meets step G t as

/-- Every state the run passes, its first and last state included, satisfies `P`. -/
def Throughout (step : σ → α → Option σ) (P : σ → Prop) (s : σ) (as : List α) : Prop :=
  ∀ pre, pre <+: as → ∀ t, run step s pre = some t → P t

variable {G H : σ → α → Prop} {P I : σ → Prop}

/-- Whether the steps of a run meet a condition can be decided. -/
instance [∀ s a, Decidable (G s a)] : ∀ (s : σ) (as : List α), Decidable (Meets step G s as)
  | _, [] => .isTrue trivial
  | s, a :: as =>
    have : Decidable (∀ t, step s a = some t → Meets step G t as) :=
      match h : step s a with
      | none => .isTrue (by simp)
      | some u =>
        have : Decidable (Meets step G u as) := instDecidableMeets u as
        decidable_of_iff (Meets step G u as) (by simp)
    inferInstanceAs (Decidable (_ ∧ _))

/-- The trivial guard is met by every run. -/
theorem meets_true : Meets step (fun _ _ => True) s as := by
  induction as generalizing s with
  | nil => trivial
  | cons a as ih => exact ⟨trivial, fun t _ => ih⟩

/-- The steps of a run, each with the state the run up to it leads to. -/
theorem meets_iff_forall : Meets step G s as ↔
    ∀ pre a post, as = pre ++ a :: post → ∀ t, run step s pre = some t → G t a := by
  induction as generalizing s with
  | nil => simp [Meets]
  | cons a as ih =>
    constructor
    · rintro ⟨hG, h⟩ pre b post heq t hpre
      cases pre with
      | nil =>
        cases heq
        cases hpre
        exact hG
      | cons c pre =>
        obtain ⟨rfl, rfl⟩ := List.cons.inj heq
        obtain ⟨u, hu, hpre⟩ := run_cons_eq_some.1 hpre
        exact ih.1 (h u hu) pre b post rfl t hpre
    · intro h
      refine ⟨h [] a as rfl s rfl, fun u hu => ih.2 fun pre b post heq t hpre => ?_⟩
      exact h (a :: pre) b post (by rw [heq]; rfl) t (run_cons_eq_some.2 ⟨u, hu, hpre⟩)

/-- **The guarded invariant rule.** What every step that meets the guard keeps, every run whose
steps all meet it keeps. -/
theorem run_invariant_of_meets (hstep : ∀ s a t, I s → G s a → step s a = some t → I t)
    (hs : I s) (hG : Meets step G s as) (hrun : run step s as = some t) : I t := by
  induction as generalizing s with
  | nil => cases hrun; exact hs
  | cons a as ih =>
    obtain ⟨u, hu, hrun⟩ := run_cons_eq_some.1 hrun
    exact ih (hstep s a u hs hG.1 hu) (hG.2 u hu) hrun

/-- **The invariant rule.** What every step keeps, every run keeps. -/
theorem run_invariant (hstep : ∀ s a t, I s → step s a = some t → I t) (hs : I s)
    (hrun : run step s as = some t) : I t :=
  run_invariant_of_meets (fun s a t hs _ => hstep s a t hs) hs meets_true hrun

/-- The first state of a run is one it passes, and the rest of the run passes the others. -/
theorem throughout_cons :
    Throughout step P s (a :: as) ↔ P s ∧ ∀ t, step s a = some t → Throughout step P t as := by
  constructor
  · intro h
    refine ⟨h [] List.nil_prefix s rfl, fun t ht pre hpre u hu => ?_⟩
    exact h (a :: pre) (List.cons_prefix_cons.2 ⟨rfl, hpre⟩) u (run_cons_eq_some.2 ⟨t, ht, hu⟩)
  · rintro ⟨hs, h⟩ pre hpre u hu
    cases pre with
    | nil => cases hu; exact hs
    | cons b pre =>
      obtain ⟨rfl, hpre'⟩ := List.cons_prefix_cons.1 hpre
      obtain ⟨t, ht, hu⟩ := run_cons_eq_some.1 hu
      exact h t ht pre hpre' u hu

/-- **The guard is exact.** If an invariant implies `P`, is kept by the steps that meet the guard,
and every other step leads out of `P`, then a run stays in `P` exactly if its steps all meet the
guard. -/
theorem throughout_iff_meets (hP : ∀ s, I s → P s)
    (hkeep : ∀ s a t, I s → G s a → step s a = some t → I t)
    (hleave : ∀ s a t, I s → ¬ G s a → step s a = some t → ¬ P t)
    (hs : I s) (hrun : run step s as = some t) :
    Throughout step P s as ↔ Meets step G s as := by
  induction as generalizing s with
  | nil =>
    refine ⟨fun _ => trivial, fun _ pre hpre u hu => ?_⟩
    cases List.prefix_nil.1 hpre
    cases hu
    exact hP s hs
  | cons a as ih =>
    obtain ⟨u, hu, hrun⟩ := run_cons_eq_some.1 hrun
    rw [throughout_cons]
    constructor
    · rintro ⟨-, h⟩
      have hPu : P u := h u hu [] List.nil_prefix u rfl
      have hG : G s a := by
        by_contra hG
        exact hleave s a u hs hG hu hPu
      refine ⟨hG, fun v hv => ?_⟩
      cases hu.symm.trans hv
      exact (ih (hkeep s a u hs hG hu) hrun).1 (h u hu)
    · rintro ⟨hG, h⟩
      refine ⟨hP s hs, fun v hv => ?_⟩
      cases hu.symm.trans hv
      exact (ih (hkeep s a u hs hG hu) hrun).2 (h u hu)

/-- **The progress rule.** If from every state of an invariant each of the actions is possible and
keeps it, then there is a run of them. -/
theorem exists_run (hstep : ∀ s, I s → ∀ a ∈ as, ∃ t, step s a = some t ∧ I t) (hs : I s) :
    ∃ t, run step s as = some t := by
  induction as generalizing s with
  | nil => exact ⟨s, rfl⟩
  | cons a as ih =>
    obtain ⟨u, hu, hIu⟩ := hstep s hs a List.mem_cons_self
    obtain ⟨t, ht⟩ := ih (fun s hs b hb => hstep s hs b (List.mem_cons_of_mem a hb)) hIu
    exact ⟨t, run_cons_eq_some.2 ⟨u, hu, ht⟩⟩

/-- An action that is always possible can be repeated any number of times. -/
theorem exists_run_replicate (hstep : ∀ s, I s → ∃ t, step s a = some t ∧ I t) (hs : I s) (n : ℕ) :
    ∃ t, run step s (List.replicate n a) = some t :=
  exists_run (fun s hs _ hb => List.eq_of_mem_replicate hb ▸ hstep s hs) hs

end

/-! ## Simulation -/

/-- **The guarded simulation rule.** If every step that meets the guard is answered, from related
states, by a run of the other system to related states, so is every run whose steps all meet it. -/
theorem run_simulates_of_meets {step : σ → α → Option σ} {step' : τ → β → Option τ}
    {R : σ → τ → Prop} {G : σ → α → Prop}
    (hstep : ∀ s a s' t, R s t → G s a → step s a = some s' →
      ∃ bs t', run step' t bs = some t' ∧ R s' t')
    {s s' : σ} {t : τ} {as : List α} (hR : R s t) (hG : Meets step G s as)
    (hrun : run step s as = some s') :
    ∃ bs t', run step' t bs = some t' ∧ R s' t' := by
  induction as generalizing s t with
  | nil => cases hrun; exact ⟨[], t, rfl, hR⟩
  | cons a as ih =>
    obtain ⟨u, hu, hrun⟩ := run_cons_eq_some.1 hrun
    obtain ⟨bs, v, hbs, hv⟩ := hstep s a u t hR hG.1 hu
    obtain ⟨cs, t', hcs, ht'⟩ := ih hv (hG.2 u hu) hrun
    exact ⟨bs ++ cs, t', run_append_eq_some.2 ⟨v, hbs, hcs⟩, ht'⟩

/-- **The simulation rule.** If every step from related states is answered by a run of the other
system to related states, so is every run. -/
theorem run_simulates {step : σ → α → Option σ} {step' : τ → β → Option τ} {R : σ → τ → Prop}
    (hstep : ∀ s a s' t, R s t → step s a = some s' → ∃ bs t', run step' t bs = some t' ∧ R s' t')
    {s s' : σ} {t : τ} {as : List α} (hR : R s t) (hrun : run step s as = some s') :
    ∃ bs t', run step' t bs = some t' ∧ R s' t' :=
  run_simulates_of_meets (fun s a s' t hR _ => hstep s a s' t hR) hR meets_true hrun

end Transition

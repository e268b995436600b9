import DetectionSystem.Dlib.LineSearch
import DetectionSystem.Lib.QuasiNewton
import DetectionSystem.Lib.Transition

/-!
# The search directions of dlib

`bfgs_search_strategy`, which remembers the last point and gradient and keeps the matrix `H` from
one call of `get_next_direction` to the next. The first call starts with the identity; the second
rescales it, once the gradient has changed noticeably; and where the update would divide by zero or
not be finite, `H` is the identity again.

The strategy does not ask for the curvature of the step it updates with. `downhill_iff` says what
follows: over any calls, `H` stays symmetric and positive definite exactly if no call updates with a
negative curvature, and then every direction it returns is downhill. The arithmetic is exact; with
doubles a direction may lose its slope to rounding.
-/

open Matrix QuasiNewton Transition

namespace Dlib

variable {ι K : Type} [Fintype ι] [DecidableEq ι] [Field K] [LinearOrder K]

/-- The members of `bfgs_search_strategy` that a call reads. -/
structure Bfgs (ι K : Type) where
  been_used : Bool
  been_used_twice : Bool
  prev_x : ι → K
  prev_derivative : ι → K
  H : Matrix ι ι K

namespace Bfgs

variable (M : Machine K)

/-- The state before the first call. The vectors and the matrix are empty there. -/
def start : Bfgs ι K := ⟨false, false, 0, 0, 0⟩

/-- The first value of `H` that says something of the function, once the gradient has changed
noticeably. -/
def rescale (s : Bfgs ι K) (delta gamma : ι → K) : Matrix ι ι K × Bool :=
  let gg := gamma ⬝ᵥ gamma
  if s.been_used_twice = false ∧ M.epsilon < |gg| then
    (diagonal fun _ => put_in_range ((1 / 100 : ℚ) : K) ((100 : ℚ) : K) (delta ⬝ᵥ gamma / gg), true)
  else (s.H, s.been_used_twice)

/-- The test in front of the update. -/
def usable (H : Matrix ι ι K) (delta gamma : ι → K) : Bool :=
  M.below_infinity (gamma ⬝ᵥ H *ᵥ gamma) && M.below_infinity (delta ⬝ᵥ gamma) &&
    delta ⬝ᵥ gamma ≠ 0

/-- `H` and `been_used_twice` after a call that is not the first. -/
def update (s : Bfgs ι K) (x funct_derivative : ι → K) : Matrix ι ι K × Bool :=
  let delta := x - s.prev_x
  let gamma := funct_derivative - s.prev_derivative
  let scaled := s.rescale M delta gamma
  if usable M scaled.1 delta gamma then (bfgs scaled.1 delta gamma, scaled.2) else (1, false)

/-- The direction to go from `x`, and the state that is left. -/
def get_next_direction (s : Bfgs ι K) (x funct_derivative : ι → K) : (ι → K) × Bfgs ι K :=
  let next := if s.been_used = false then (1, s.been_used_twice) else s.update M x funct_derivative
  (-(next.1 *ᵥ funct_derivative), ⟨true, next.2, x, funct_derivative, next.1⟩)

/-- A call, with a point and the gradient there. -/
def step (s : Bfgs ι K) (call : (ι → K) × (ι → K)) : Option (Bfgs ι K) :=
  some (s.get_next_direction M call.1 call.2).2

/-- The call does not update with a negative curvature: it is the first one, or the gradient does
not decrease along the step, or the test fails. -/
def Curved (s : Bfgs ι K) (call : (ι → K) × (ι → K)) : Prop :=
  let delta := call.1 - s.prev_x
  let gamma := call.2 - s.prev_derivative
  s.been_used = true → 0 ≤ delta ⬝ᵥ gamma ∨
    usable M (s.rescale M delta gamma).1 delta gamma = false

/-- Where it has been used, `H` is a metric. -/
def Downhill (s : Bfgs ι K) : Prop := s.been_used = true → Metric s.H

variable {M} {s t : Bfgs ι K} {call : (ι → K) × (ι → K)} {calls : List ((ι → K) × (ι → K))}

/-- The first call leaves the identity. -/
theorem get_next_direction_first (x g : ι → K) (h : s.been_used = false) :
    (s.get_next_direction M x g).2.H = 1 := by
  rw [get_next_direction, if_pos h]

/-- The matrix after a call that is not the first. -/
theorem get_next_direction_update (x g : ι → K) (h : s.been_used = true) :
    (s.get_next_direction M x g).2.H = (s.update M x g).1 := by
  rw [get_next_direction, if_neg (by simp [h])]

omit [DecidableEq ι] in
/-- The update does not divide by zero. -/
theorem usable_ne {H : Matrix ι ι K} {delta gamma : ι → K} (h : usable M H delta gamma = true) :
    delta ⬝ᵥ gamma ≠ 0 := by
  simp only [usable, Bool.and_eq_true, decide_eq_true_eq] at h
  exact h.2

variable [IsStrictOrderedRing K]

/-- The rescaled matrix is a metric whatever the scale that is asked for. -/
theorem metric_rescale (hs : Metric s.H) (delta gamma : ι → K) :
    Metric (s.rescale M delta gamma).1 := by
  unfold rescale
  dsimp only
  split
  case isTrue =>
    refine Metric.diagonal ?_
    have hmem := put_in_range_mem ((1 / 100 : ℚ) : K) ((100 : ℚ) : K)
      (delta ⬝ᵥ gamma / (gamma ⬝ᵥ gamma))
    rw [Set.uIcc_of_le (by norm_num)] at hmem
    have hpos : (0 : K) < ((1 / 100 : ℚ) : K) := by norm_num
    exact hpos.trans_le hmem.1
  case isFalse => exact hs

/-- A call with a curvature that is not negative keeps the metric. -/
theorem downhill_step (hs : Downhill s) (hcall : Curved M s call) (h : step M s call = some t) :
    Downhill t := by
  cases h
  intro _
  cases hused : s.been_used with
  | false =>
    rw [get_next_direction_first _ _ hused]
    exact Metric.one
  | true =>
    rw [get_next_direction_update _ _ hused, update]
    split
    case isTrue husable =>
      have hpos : 0 < (call.1 - s.prev_x) ⬝ᵥ (call.2 - s.prev_derivative) := by
        rcases hcall hused with hle | hnot
        · exact lt_of_le_of_ne hle (usable_ne husable).symm
        · exact absurd husable (by simp [hnot])
      exact (metric_rescale (hs hused) _ _).bfgs hpos
    case isFalse => exact Metric.one

omit [IsStrictOrderedRing K] in
/-- An update with a negative curvature maps the change of the gradient to a vector on the other
side, which no metric does. -/
theorem not_downhill_step (hcall : ¬ Curved M s call) (h : step M s call = some t) :
    ¬ Downhill t := by
  cases h
  simp only [Curved, not_forall, not_or, not_le, Bool.not_eq_false] at hcall
  obtain ⟨hused, hneg, husable⟩ := hcall
  intro ht
  have ht : Metric (s.get_next_direction M call.1 call.2).2.H := ht rfl
  rw [get_next_direction_update _ _ hused, update, if_pos husable] at ht
  have hγ : call.2 - s.prev_derivative ≠ 0 := by
    intro h0
    rw [h0, dotProduct_zero] at hneg
    exact lt_irrefl _ hneg
  have hpos := ht.pos _ hγ
  rw [bfgs_mulVec _ (usable_ne husable), dotProduct_comm] at hpos
  exact lt_asymm hneg hpos

omit [IsStrictOrderedRing K] in
/-- Every call is possible. -/
theorem exists_run_step (s : Bfgs ι K) (calls : List ((ι → K) × (ι → K))) :
    ∃ t, run (step M) s calls = some t :=
  exists_run (I := fun _ => True) (fun _ _ _ _ => ⟨_, rfl, trivial⟩) trivial

/-- **The directions.** Over any calls of the strategy, with any points and gradients: `H` is
symmetric and positive definite throughout exactly if no call updates with a negative curvature, and
then every direction is downhill, from every point where the gradient is not zero. The numbers are
those of an ordered field, so the arithmetic is exact. -/
theorem downhill_iff (M : Machine K) (calls : List ((ι → K) × (ι → K))) :
    (Throughout (step M) Downhill start calls ↔ Meets (step M) (Curved M) start calls) ∧
      (Meets (step M) (Curved M) start calls → ∀ pre call post, calls = pre ++ call :: post →
        ∀ s, run (step M) start pre = some s → call.2 ≠ 0 →
          call.2 ⬝ᵥ (s.get_next_direction M call.1 call.2).1 < 0) := by
  have hstart : Downhill (start : Bfgs ι K) := fun h => absurd h (by simp [start])
  obtain ⟨t, hrun⟩ := exists_run_step (M := M) start calls
  have hiff : Throughout (step M) Downhill start calls ↔ Meets (step M) (Curved M) start calls :=
    throughout_iff_meets (I := Downhill) (fun _ hs => hs) (fun _ _ _ => downhill_step)
      (fun _ _ _ _ => not_downhill_step) hstart hrun
  refine ⟨hiff, fun hmeets pre call post hcalls s hs hg => ?_⟩
  -- the direction is the one of the matrix that the call leaves
  have hnext : Downhill (s.get_next_direction M call.1 call.2).2 := by
    refine hiff.2 hmeets (pre ++ [call]) ⟨post, by rw [hcalls]; simp⟩ _ ?_
    exact run_append_eq_some.2 ⟨s, hs, rfl⟩
  exact (hnext rfl).descent hg

/-- The calls of a search for the minimum of a parabola. -/
def parabolaCalls : List ((Fin 1 → ℚ) × (Fin 1 → ℚ)) :=
  [(fun _ => 0, fun _ => -6), (fun _ => 1, fun _ => -4), (fun _ => 3, fun _ => 0)]

/-- The three calls keep their matrix, and each goes downhill. -/
theorem downhill_iff_parabolaCalls :
    (Throughout (step Line.exact) Downhill start parabolaCalls ↔
        Meets (step Line.exact) (Curved Line.exact) start parabolaCalls) ∧
      (Meets (step Line.exact) (Curved Line.exact) start parabolaCalls →
        ∀ pre call post, parabolaCalls = pre ++ call :: post →
          ∀ s, run (step Line.exact) start pre = some s → call.2 ≠ 0 →
            call.2 ⬝ᵥ (s.get_next_direction Line.exact call.1 call.2).1 < 0) :=
  downhill_iff Line.exact parabolaCalls

end Bfgs

end Dlib

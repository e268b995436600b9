import DetectionSystem.Dlib.Bfgs
import Mathlib.Data.Fin.VecNotation

/-!
# The optimiser of dlib

`find_min_using_approximate_derivatives` with the two strategies that `trilaterate` gives it. The
loop has no bound of its own: it ends when the stop strategy sees the value change by less than
`min_delta`, or when the value reaches `min_f`. `loop` takes the number of rounds that are looked
at, and is `running` where these are not all.

A line search that uses up its rounds, stops at a step too small to matter or is stuck may leave a
value above the one it started from, and the loop goes on from there. `find_min_returns` is about
the runs in which none does: every round but the last then lowers the value by `min_delta`, so that
the loop ends, and what it returns is the value at its last point, and no worse than the start.

The arithmetic is exact, as in the line search: rounding comes in with `Machine.same` only, and a
search is stuck where it does. Then the loop goes on with the value of another point than the one it
has moved to, which is what it may return in the end.
-/

open Matrix

namespace Dlib

variable {ι K : Type} [Fintype ι] [DecidableEq ι] [Field K] [LinearOrder K]

/-- The members of `objective_delta_stop_strategy`. -/
structure Stop (K : Type) where
  been_used : Bool
  min_delta : K
  max_iter : ℕ
  cur_iter : ℕ
  prev_funct_value : K

namespace Stop

/-- The state before the first call. No limit on the iterations is a `max_iter` of 0. -/
def start (min_delta : K) : Stop K := ⟨false, min_delta, 0, 0, 0⟩

/-- Whether to go on with a value, and the state that is left. -/
def should_continue_search (s : Stop K) (funct_value : K) : Bool × Stop K :=
  let cur_iter := s.cur_iter + 1
  if s.been_used ∧ (s.max_iter ≠ 0 ∧ s.max_iter < cur_iter) then
    (false, { s with cur_iter := cur_iter })
  else if s.been_used ∧ |funct_value - s.prev_funct_value| < s.min_delta then
    (false, { s with cur_iter := cur_iter })
  else
    (true, { s with been_used := true, cur_iter := cur_iter, prev_funct_value := funct_value })

variable {s : Stop K} {v : K}

/-- The stop strategy goes on where it has not been used before, or where the value has changed. -/
theorem continues (h : (s.should_continue_search v).1 = true) :
    (s.should_continue_search v).2.been_used = true ∧
      (s.should_continue_search v).2.prev_funct_value = v ∧
      (s.should_continue_search v).2.min_delta = s.min_delta ∧
      (s.been_used = true → s.min_delta ≤ |v - s.prev_funct_value|) := by
  rw [should_continue_search] at h ⊢
  split at h
  case isTrue => cases h
  case isFalse hiter =>
    split at h
    case isTrue => cases h
    case isFalse hdelta =>
      rw [if_neg hiter, if_neg hdelta]
      exact ⟨rfl, rfl, rfl, fun hused => not_lt.1 fun hlt => hdelta ⟨hused, hlt⟩⟩

end Stop

/-- `central_differences`, on a vector. -/
def gradient (f : (ι → K) → K) (eps : K) (x : ι → K) : ι → K := fun i =>
  let delta_plus := f (Function.update x i (x i + eps))
  let delta_minus := f (Function.update x i (x i - eps))
  (delta_plus - delta_minus) / ((x i + eps) - (x i - eps))

/-- `central_differences`, on a number. -/
def derivative (f : K → K) (eps x : K) : K :=
  (f (x + eps) - f (x - eps)) / ((x + eps) - (x - eps))

/-- `make_line_search_function`. -/
def make_line_search_function (f : (ι → K) → K) (start direction : ι → K) (x : K) : K :=
  f (start + x • direction)

/-- What a call of the optimiser is given besides its strategies and its start. -/
structure Objective (ι K : Type) where
  f : (ι → K) → K
  min_f : K
  derivative_eps : K

/-- The variables of the loop, with the strategies. -/
structure Search (ι K : Type) where
  strategy : Bfgs ι K
  stop : Stop K
  x : ι → K
  f_value : K
  g : ι → K

/-- How far a call has come: it returns a value and leaves its point, or throws, or it is still in
the loop. -/
inductive Outcome (ι K : Type)
  | returned (f_value : K) (x : ι → K)
  | thrown (x : ι → K)
  | running (s : Search ι K)

/-- The call is still in the loop. -/
def Outcome.isRunning {ι K : Type} : Outcome ι K → Bool
  | .running _ => true
  | _ => false

namespace Objective

variable (M : Machine K) (o : Objective ι K)

/-- The arguments of the line search from a point in a direction. -/
def line (s : Search ι K) (direction : ι → K) : Line K where
  f := make_line_search_function o.f s.x direction
  f0 := s.f_value
  der := derivative (make_line_search_function o.f s.x direction) o.derivative_eps
  d0 := s.g ⬝ᵥ direction
  rho := ((1 / 100 : ℚ) : K)
  sigma := ((9 / 10 : ℚ) : K)
  min_f := o.min_f
  max_iter := 100

/-- The check for a point with a finite value and gradient. -/
def finite (f_value : K) (g : ι → K) : Prop := M.is_finite f_value ∧ ∀ i, M.is_finite (g i)

/-- The check can be run, with the tests of the machine. -/
instance (f_value : K) (g : ι → K) : Decidable (finite M f_value g) :=
  inferInstanceAs (Decidable (_ ∧ _))

/-- The direction of the next round. -/
def direction (s : Search ι K) : ι → K := (s.strategy.get_next_direction M s.x s.g).1

/-- The line search of the next round. -/
def found (s : Search ι K) : Found K := (o.line s (direction M s)).line_search M

/-- The loop from the head on, once around. -/
def round (s : Search ι K) : Outcome ι K :=
  let stop := s.stop.should_continue_search s.f_value
  if stop.1 ∧ o.min_f < s.f_value then
    let strategy := (s.strategy.get_next_direction M s.x s.g).2
    let found := o.found M s
    let x := s.x + found.alpha • direction M s
    let g := gradient o.f o.derivative_eps x
    if finite M found.f_value g then .running ⟨strategy, stop.2, x, found.f_value, g⟩ else .thrown x
  else .returned s.f_value s.x

/-- The loop, for a number of rounds. -/
def loop : ℕ → Search ι K → Outcome ι K
  | 0, s => .running s
  | rounds + 1, s =>
    match o.round M s with
    | .running t => loop rounds t
    | ended => ended

/-- The state at the head of the loop, when it is first reached. -/
def start (min_delta : K) (x : ι → K) : Search ι K :=
  ⟨Bfgs.start, Stop.start min_delta, x, o.f x, gradient o.f o.derivative_eps x⟩

/-- The call, as far as a number of rounds. -/
def find_min_using_approximate_derivatives (min_delta : K) (x : ι → K) (rounds : ℕ) :
    Outcome ι K :=
  if finite M (o.f x) (gradient o.f o.derivative_eps x) then o.loop M rounds (o.start min_delta x)
  else .thrown x

/-- The line search of the round gives up: its rounds are used up, or its step, while not zero, is
too small to make a difference, or it is stuck. -/
def GivesUp (s : Search ι K) : Prop :=
  let found := o.found M s
  found.left = 0 ∨
    found.alpha ≠ 0 ∧ |found.alpha * (s.g ⬝ᵥ direction M s)| ≤ |s.f_value| * M.epsilon ∨
    found.stuck = true

/-- Whether a search gives up can be computed. -/
instance (s : Search ι K) : Decidable (o.GivesUp M s) := inferInstanceAs (Decidable (_ ∨ _))

variable {M o}

/-! ## Rounds -/

/-- The loop, with its last round apart. -/
theorem loop_succ_eq_running {rounds : ℕ} {s t : Search ι K} :
    o.loop M (rounds + 1) s = .running t ↔
      ∃ u, o.loop M rounds s = .running u ∧ o.round M u = .running t := by
  induction rounds generalizing s with
  | zero =>
    have hone : o.loop M 1 s = o.round M s := by
      rw [loop]
      cases o.round M s <;> rfl
    rw [hone, loop]
    exact ⟨fun h => ⟨s, rfl, h⟩, fun ⟨u, hu, h⟩ => by cases hu; exact h⟩
  | succ rounds ih =>
    rw [loop, loop]
    cases o.round M s with
    | running u => exact ih
    | returned v x => simp
    | thrown x => simp

/-- Where the loop has ended, more rounds change nothing. -/
theorem loop_returned {rounds : ℕ} {s : Search ι K} {v : K} {x : ι → K}
    (h : o.loop M rounds s = .returned v x) :
    ∃ n t, n < rounds ∧ o.loop M n s = .running t ∧ o.round M t = .returned v x := by
  induction rounds generalizing s with
  | zero => cases h
  | succ rounds ih =>
    rw [loop] at h
    cases hround : o.round M s with
    | running u =>
      rw [hround] at h
      obtain ⟨n, t, hn, ht, hlast⟩ := ih h
      refine ⟨n + 1, t, by omega, ?_, hlast⟩
      rw [loop, hround]
      exact ht
    | returned w y =>
      rw [hround] at h
      exact ⟨0, s, by omega, rfl, hround.trans h⟩
    | thrown y =>
      rw [hround] at h
      cases h

/-- What a round does that is not the last: the stop strategy has seen the value, and the state is
the one after the line search. -/
theorem round_running {s t : Search ι K} (h : o.round M s = .running t) :
    (s.stop.should_continue_search s.f_value).1 = true ∧ o.min_f < s.f_value ∧
      t.stop = (s.stop.should_continue_search s.f_value).2 ∧
      t.x = s.x + (o.found M s).alpha • direction M s ∧ t.f_value = (o.found M s).f_value := by
  rw [round] at h
  dsimp only at h
  split at h
  case isTrue hgo =>
    split at h
    case isTrue => cases h; exact ⟨hgo.1, hgo.2, rfl, rfl, rfl⟩
    case isFalse => cases h
  case isFalse => cases h

/-- What is returned is the value and the point of the state. -/
theorem round_returned {s : Search ι K} {v : K} {x : ι → K} (h : o.round M s = .returned v x) :
    v = s.f_value ∧ x = s.x := by
  rw [round] at h
  dsimp only at h
  split at h
  case isTrue =>
    split at h
    case isTrue => cases h
    case isFalse => cases h
  case isFalse => cases h; exact ⟨rfl, rfl⟩

variable [IsStrictOrderedRing K] {s t : Search ι K}

omit [DecidableEq ι] in
/-- The sufficient decrease that the search is called for is positive. -/
theorem rho_pos (o : Objective ι K) (s : Search ι K) (d : ι → K) :
    0 < (o.line s d).rho := by simp [line]

/-- A line search of an exact machine is not stuck. -/
theorem found_going (heps : 0 ≤ M.epsilon) (hM : M.Exact) (o : Objective ι K) (s : Search ι K) :
    (o.found M s).stuck = false :=
  Line.going_of_exact _ heps (rho_pos o s _) hM

/-- A round whose line search is not stuck keeps the value that belongs to the point. -/
theorem round_value (heps : 0 ≤ M.epsilon) (hs : s.f_value = o.f s.x)
    (hgo : (o.found M s).stuck = false) (h : o.round M s = .running t) : t.f_value = o.f t.x := by
  obtain ⟨-, -, -, hx, hv⟩ := round_running h
  rw [hv, hx]
  rcases (o.line s (direction M s)).line_search_cases M heps (rho_pos o s _) with
    ⟨-, h0, hvalue, -⟩ | ⟨-, -, hsteps | hstuck⟩
  · -- no step: the variable still holds the value at the start
    have h0 : (o.found M s).alpha = 0 := h0
    have hvalue : (o.found M s).f_value = s.f_value := hvalue
    rw [h0, zero_smul, add_zero, hvalue]
    exact hs
  · exact hsteps.value
  · exact absurd (hstuck.stopped.symm.trans hgo) (by decide)

/-- A round whose line search does not give up does not raise the value. -/
theorem round_le (heps : 0 ≤ M.epsilon) (hgive : ¬ o.GivesUp M s) (h : o.round M s = .running t) :
    t.f_value ≤ s.f_value := by
  obtain ⟨-, hmin, -, -, hv⟩ := round_running h
  obtain ⟨hleft, hsmall, hgo⟩ : (o.found M s).left ≠ 0 ∧ ((o.found M s).alpha ≠ 0 →
      ¬ |(o.found M s).alpha * (s.g ⬝ᵥ direction M s)| ≤ |s.f_value| * M.epsilon) ∧
      ¬ (o.found M s).stuck = true := by
    simpa only [GivesUp, not_or, not_and] using hgive
  have hrho := rho_pos o s (direction M s)
  rw [hv]
  rcases (o.line s (direction M s)).line_search_cases M heps hrho with
    ⟨-, -, hvalue, -⟩ | ⟨hd, -, hsteps | hstuck⟩
  · have hvalue : (o.found M s).f_value = s.f_value := hvalue
    exact hvalue.le
  · have hdown : (o.found M s).alpha * (s.g ⬝ᵥ direction M s) < 0 :=
      hsteps.downhill hrho hd hmin
    rcases hsteps.reason with hend | ⟨hwolfe, -⟩ | h0 | hneg
    · exact le_trans hend hmin.le
    · refine le_trans hwolfe ?_
      change s.f_value + ((1 / 100 : ℚ) : K) * (o.found M s).alpha * (s.g ⬝ᵥ direction M s) ≤
        s.f_value
      rw [mul_assoc]
      exact add_le_of_nonpos_right (mul_nonpos_of_nonneg_of_nonpos (by norm_num) hdown.le)
    · exact absurd h0 hleft
    · exact absurd hneg (hsmall (left_ne_zero_of_mul hdown.ne))
  · exact absurd hstuck.stopped hgo

/-! ## Runs -/

/-- The head of the loop after a number of rounds in which no line search gives up: the value is the
one of the point and no worse than the start, and each round but the first has lowered it by
`min_delta`. -/
structure Head (o : Objective ι K) (min_delta v : K) (rounds : ℕ) (s : Search ι K) : Prop where
  value : s.f_value = o.f s.x
  le : s.f_value ≤ v
  delta : s.stop.min_delta = min_delta
  lowered : rounds ≠ 0 → s.stop.been_used = true ∧ o.min_f < s.stop.prev_funct_value ∧
    s.f_value ≤ s.stop.prev_funct_value ∧
    s.stop.prev_funct_value + (rounds - 1 : ℕ) * min_delta ≤ v

omit [Fintype ι] [IsStrictOrderedRing K] in
/-- The first head of the loop. -/
theorem head_start (o : Objective ι K) (min_delta : K) (x : ι → K) :
    Head o min_delta (o.f x) 0 (o.start min_delta x) :=
  ⟨rfl, le_rfl, rfl, fun h => absurd rfl h⟩

/-- A round leads from head to head. -/
theorem head_round (heps : 0 ≤ M.epsilon) {min_delta v : K} {rounds : ℕ}
    (hs : Head o min_delta v rounds s) (hgive : ¬ o.GivesUp M s) (h : o.round M s = .running t) :
    Head o min_delta v (rounds + 1) t := by
  have hgo : (o.found M s).stuck = false := eq_false_of_ne_true fun h => hgive (.inr (.inr h))
  have hvalue := round_value heps hs.value hgo h
  have hle := round_le heps hgive h
  obtain ⟨hcontinue, hmin, hstop, -, -⟩ := round_running h
  obtain ⟨hused, hprev, hdelta, hchange⟩ := Stop.continues hcontinue
  rw [← hstop] at hused hprev hdelta
  refine ⟨hvalue, hle.trans hs.le, hdelta.trans hs.delta, fun _ => ?_⟩
  refine ⟨hused, by rw [hprev]; exact hmin, by rw [hprev]; exact hle, ?_⟩
  rw [hprev, Nat.add_sub_cancel]
  cases rounds with
  | zero => simpa using hs.le
  | succ rounds =>
    obtain ⟨hused, -, hdown, hsum⟩ := hs.lowered (by omega)
    have hstep : min_delta ≤ s.stop.prev_funct_value - s.f_value := by
      have := hchange hused
      rwa [hs.delta, abs_sub_comm, abs_of_nonneg (sub_nonneg.2 hdown)] at this
    rw [Nat.add_sub_cancel] at hsum
    push_cast
    linarith

/-- No line search of the run is stuck. -/
def Goes (M : Machine K) (o : Objective ι K) (s : Search ι K) : Prop :=
  ∀ rounds t, o.loop M rounds s = .running t → (o.found M t).stuck = false

/-- No round of the run gives up. -/
def Keeps (M : Machine K) (o : Objective ι K) (s : Search ι K) : Prop :=
  ∀ rounds t, o.loop M rounds s = .running t → ¬ o.GivesUp M t

/-- The line search of the last round that is looked at can be tested. -/
instance (rounds : ℕ) (s : Search ι K) :
    Decidable (∀ t, o.loop M rounds s = .running t → ¬ o.GivesUp M t) :=
  match h : o.loop M rounds s with
  | .running u => decidable_of_iff (¬ o.GivesUp M u) (by simp)
  | .returned _ _ => .isTrue (by simp)
  | .thrown _ => .isTrue (by simp)

/-- Every head of a run in which no search gives up. -/
theorem head_loop (heps : 0 ≤ M.epsilon) {min_delta v : K} (hs : Head o min_delta v 0 s)
    (hkeep : Keeps M o s) {rounds : ℕ} (h : o.loop M rounds s = .running t) :
    Head o min_delta v rounds t := by
  induction rounds generalizing t with
  | zero => cases h; exact hs
  | succ rounds ih =>
    obtain ⟨u, hu, hround⟩ := loop_succ_eq_running.1 h
    exact head_round heps (ih hu) (hkeep rounds u hu) hround

omit [IsStrictOrderedRing K] in
/-- A run that does not give up is not stuck either. -/
theorem Keeps.goes (h : Keeps M o s) : Goes M o s := fun rounds t ht =>
  eq_false_of_ne_true fun hstuck => h rounds t ht (.inr (.inr hstuck))

/-- Whether or not a search gives up, the value is the one of the point as long as none is stuck. -/
theorem value_loop (heps : 0 ≤ M.epsilon) (hs : s.f_value = o.f s.x) (hgoes : Goes M o s)
    {rounds : ℕ} (h : o.loop M rounds s = .running t) : t.f_value = o.f t.x := by
  induction rounds generalizing t with
  | zero => cases h; exact hs
  | succ rounds ih =>
    obtain ⟨u, hu, hround⟩ := loop_succ_eq_running.1 h
    exact round_value heps (ih hu) (hgoes rounds u hu) hround

section
variable {min_delta v : K} {x y : ι → K} {rounds : ℕ}

omit [IsStrictOrderedRing K] in
/-- What is returned is what the loop has at its last head. -/
theorem exists_running (h : o.find_min_using_approximate_derivatives M min_delta x rounds =
    .returned v y) :
    ∃ n s, o.loop M n (o.start min_delta x) = .running s ∧ v = s.f_value ∧ y = s.x := by
  rw [find_min_using_approximate_derivatives] at h
  split at h
  case isTrue =>
    obtain ⟨n, s, -, hs, hlast⟩ := loop_returned h
    exact ⟨n, s, hs, round_returned hlast⟩
  case isFalse => cases h

/-- What is returned is the value at the point that is left. -/
theorem value_returned (heps : 0 ≤ M.epsilon) (hgoes : Goes M o (o.start min_delta x))
    (h : o.find_min_using_approximate_derivatives M min_delta x rounds = .returned v y) :
    v = o.f y := by
  obtain ⟨n, s, hs, rfl, rfl⟩ := exists_running h
  exact value_loop heps rfl hgoes hs

/-- What is returned is no worse than the start. -/
theorem returned_le (heps : 0 ≤ M.epsilon) (hkeep : Keeps M o (o.start min_delta x))
    (h : o.find_min_using_approximate_derivatives M min_delta x rounds = .returned v y) :
    v ≤ o.f x := by
  obtain ⟨n, s, hs, rfl, rfl⟩ := exists_running h
  exact (head_loop heps (head_start o min_delta x) hkeep hs).le

/-- The range of the values bounds the rounds that lower them. -/
theorem not_running (heps : 0 ≤ M.epsilon) (hkeep : Keeps M o (o.start min_delta x)) {n : ℕ}
    (hn : o.f x - o.min_f ≤ n * min_delta) (s : Search ι K) :
    o.find_min_using_approximate_derivatives M min_delta x (n + 1) ≠ .running s := by
  intro h
  rw [find_min_using_approximate_derivatives] at h
  split at h
  case isTrue =>
    obtain ⟨-, hmin, -, hsum⟩ :=
      (head_loop heps (head_start o min_delta x) hkeep h).lowered (by omega)
    rw [Nat.add_sub_cancel] at hsum
    linarith
  case isFalse => cases h

end

/-- **The optimiser.** Whatever the function, in exact arithmetic but for the comparisons of a
machine that rounds: if no line search of the run is stuck, as none is on an exact machine, then a
value that is returned is the one at the point that is left. If none gives up, then the loop ends,
after no more rounds than it takes to lower the value to `min_f` by `min_delta` in each, and what is
returned is no worse than the start. -/
theorem find_min_returns (M : Machine K) (o : Objective ι K) (heps : 0 ≤ M.epsilon) (min_delta : K)
    (x : ι → K) :
    (M.Exact → Goes M o (o.start min_delta x)) ∧
    (Goes M o (o.start min_delta x) → ∀ rounds v y,
      o.find_min_using_approximate_derivatives M min_delta x rounds = .returned v y → v = o.f y) ∧
    (Keeps M o (o.start min_delta x) →
      (∀ n : ℕ, o.f x - o.min_f ≤ n * min_delta →
        ∀ s, o.find_min_using_approximate_derivatives M min_delta x (n + 1) ≠ .running s) ∧
      ∀ rounds v y,
        o.find_min_using_approximate_derivatives M min_delta x rounds = .returned v y →
          v = o.f y ∧ v ≤ o.f x) :=
  ⟨fun hM _ t _ => found_going heps hM o t, fun hgoes _ _ _ => value_returned heps hgoes,
    fun hkeep => ⟨fun _ hn => not_running heps hkeep hn, fun _ _ _ h =>
      ⟨value_returned heps hkeep.goes h, returned_le heps hkeep h⟩⟩⟩

omit [IsStrictOrderedRing K] in
/-- A loop that is running has been running before. -/
theorem running_of_le {m n : ℕ} (hmn : m ≤ n) (h : o.loop M n s = .running t) :
    ∃ u, o.loop M m s = .running u := by
  induction hmn generalizing t with
  | refl => exact ⟨t, h⟩
  | step _ ih =>
    obtain ⟨u, hu, -⟩ := loop_succ_eq_running.1 h
    exact ih hu

/-- The square of the distance to 3. -/
def square : Objective (Fin 1) ℚ := ⟨fun x => (x 0 - 3) ^ 2, -1, 1 / 10⟩

/-- From zero, the first round finds the minimum and the second one stays there. -/
theorem keeps_square : Keeps Line.exact square (square.start 1 fun _ => 0) := by
  have hended : (square.loop Line.exact 3 (square.start 1 fun _ => 0)).isRunning = false := by
    decide +kernel
  have hrounds : ∀ n < 3, ∀ t, square.loop Line.exact n (square.start 1 fun _ => 0) = .running t →
      ¬ square.GivesUp Line.exact t := by
    decide +kernel
  intro rounds t h
  rcases lt_or_ge rounds 3 with hlt | hge
  · exact hrounds rounds hlt t h
  · obtain ⟨u, hu⟩ := running_of_le hge h
    rw [hu] at hended
    cases hended

/-- From zero, the optimiser ends within eleven rounds, with a value of at most nine. -/
theorem find_min_returns_square :
    (∀ rounds v y, square.find_min_using_approximate_derivatives Line.exact 1 (fun _ => 0) rounds =
      .returned v y → v = square.f y) ∧
    (∀ s, square.find_min_using_approximate_derivatives Line.exact 1 (fun _ => 0) 11 ≠
      .running s) ∧
    ∀ rounds v y, square.find_min_using_approximate_derivatives Line.exact 1 (fun _ => 0) rounds =
      .returned v y → v ≤ 9 := by
  obtain ⟨hgoes, hvalue, hkeeps⟩ := find_min_returns Line.exact square le_rfl 1 fun _ => 0
  obtain ⟨hends, hle⟩ := hkeeps keeps_square
  refine ⟨hvalue (hgoes fun x y h => of_decide_eq_true h), hends 10 (by norm_num [square]),
    fun rounds v y h => ?_⟩
  exact (hle rounds v y h).2.trans (by norm_num [square])

end Objective

end Dlib

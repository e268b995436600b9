import Mathlib.Algebra.Order.Field.Basic
import Mathlib.Order.Interval.Set.UnorderedInterval
import Mathlib.Tactic.FieldSimp
import Mathlib.Tactic.Linarith
import Mathlib.Tactic.NormNum
import Mathlib.Tactic.Positivity
import Mathlib.Tactic.Ring

/-!
# The line search of dlib

`line_search` and what it calls, of the optimiser that `trilaterate` runs. The bracketing phase
widens a range until it contains a reasonable step, the sectioning phase narrows it; each round
evaluates the function once, and writes the value into the variable that the caller reads
afterwards.

The arithmetic is exact: the doubles are a linearly ordered field, with the rational constants of
the code. Rounding comes in at one place, as two of the exits are there for nothing else: they are
taken where a comparison for equality finds that there is no progress any more. Which numbers such a
comparison takes for the same is up to the machine, `Machine.same`, and `Found.stuck` says that the
search ended that way; a machine that is `Exact` never gets there (`Stuck.not_exact`).

`line_search_found` is about every function, whatever its derivative is taken to be. Of a search
that is not stuck, the step stays within the bound `mu` and goes downhill, the value left behind is
that of the step, and either the step is as good as the Wolfe conditions ask for or the search had a
reason to give up. One that is stuck may leave the value of another step than the one it returns.
-/

namespace Dlib

/-- What the code takes from the machine: `std::numeric_limits<double>::epsilon()`, `std::sqrt`, the
tests for what is not a number or not below infinity, and the comparison of two results for
equality, which does not tell apart what rounding has made equal. -/
structure Machine (K : Type) where
  epsilon : K
  sqrt : K → K
  is_finite : K → Bool
  below_infinity : K → Bool
  same : K → K → Bool

/-- The machine takes no two numbers for the same. -/
def Machine.Exact {K : Type} (M : Machine K) : Prop := ∀ x y, M.same x y = true → x = y

variable {K : Type} [Field K] [LinearOrder K]

/-- On the way from one step to another, the machine takes two numbers for the same: the steps
themselves, or one of them and the end of the range that the step in between is taken from. -/
def Machine.Merges (M : Machine K) (a b : K) : Prop :=
  M.same a b ∨ M.same a (a + (1 / 10 : ℚ) * (b - a)) ∨ M.same b (b - (1 / 2 : ℚ) * (b - a))

/-- The value within the range from `a` to `b`, whichever is smaller, that is closest to `val`. -/
def put_in_range (a b val : K) : K :=
  if a < b then
    if val < a then a else if b < val then b else val
  else
    if val < b then b else if a < val then a else val

/-- The minimum of the polynomial that interpolates two values and two derivatives at 0 and 1. -/
def poly_min_extrap (M : Machine K) (f0 d0 f1 d1 limit : K) : K :=
  let n := (3 : ℚ) * (f1 - f0) - (2 : ℚ) * d0 - d1
  let e := d0 + d1 - (2 : ℚ) * (f1 - f0)
  let temp := max (n * n - (3 : ℚ) * e * d0) 0
  if temp < 0 then ((1 / 2 : ℚ) : K)
  else
    let temp := M.sqrt temp
    if |e| ≤ M.epsilon then ((1 / 2 : ℚ) : K)
    else
      let x1 := (temp - n) / ((3 : ℚ) * e)
      let x2 := -(temp + n) / ((3 : ℚ) * e)
      let y1 := f0 + d0 * x1 + n * x1 * x1 + e * x1 * x1 * x1
      let y2 := f0 + d0 * x2 + n * x2 * x2 + e * x2 * x2 * x2
      put_in_range 0 limit (if y1 < y2 then x1 else x2)

/-- The arguments of `line_search`: the function on the line and its derivative, both at zero, and
the parameters of the search. -/
structure Line (K : Type) where
  f : K → K
  f0 : K
  der : K → K
  d0 : K
  rho : K
  sigma : K
  min_f : K
  max_iter : ℕ

/-- What a search leaves: the step it returns, the value of the last evaluation, how many rounds are
left of `max_iter`, and whether it ended because rounding left it no progress. -/
structure Found (K : Type) where
  alpha : K
  f_value : K
  left : ℕ
  stuck : Bool
deriving DecidableEq, Repr

/-- The variables of the sectioning phase. -/
structure Bracket (K : Type) where
  a : K
  b : K
  a_val : K
  b_val : K
  a_val_der : K
  b_val_der : K

/-- The variables of the bracketing phase. -/
structure Ascent (K : Type) where
  alpha : K
  last_alpha : K
  last_val : K
  last_val_der : K

/-- The next step of the sectioning phase: interpolated, but away from both ends of the range. -/
def Bracket.next_alpha (M : Machine K) (s : Bracket K) : K :=
  let first := s.a + (1 / 10 : ℚ) * (s.b - s.a)
  let last := s.b - (1 / 2 : ℚ) * (s.b - s.a)
  let alpha := s.a + (s.b - s.a) * poly_min_extrap M s.a_val s.a_val_der s.b_val s.b_val_der 1
  put_in_range first last alpha

namespace Line

variable (M : Machine K) (l : Line K)

/-- The upper bound on the step. -/
def mu : K := (l.min_f - l.f0) / (l.rho * l.d0)

/-- The bound of the Wolfe curvature condition. -/
def thresh : K := |l.sigma * l.d0|

/-- The sectioning phase, with `left` rounds left of `max_iter` after the next one. Where the range
is too small to shrink, it returns the end `b` of the range, but the variable of the caller holds
the value at the step in between that it has just evaluated. -/
def sectioning : ℕ → Bracket K → Found K
  | 0, s => ⟨s.next_alpha M, l.f (s.next_alpha M), 0, false⟩
  | left + 1, s =>
    let first := s.a + (1 / 10 : ℚ) * (s.b - s.a)
    let last := s.b - (1 / 2 : ℚ) * (s.b - s.a)
    let alpha := s.next_alpha M
    let val := l.f alpha
    let val_der := l.der alpha
    if val ≤ l.min_f then ⟨alpha, val, left + 1, false⟩
    else if M.same s.a first ∨ M.same s.b last then ⟨s.b, val, left + 1, true⟩
    else if |max |s.a| |s.b| * l.d0| ≤ |l.f0| * M.epsilon then ⟨alpha, val, left + 1, false⟩
    else if l.f0 + l.rho * alpha * l.d0 < val ∨ s.a_val ≤ val then
      sectioning left { s with b := alpha, b_val := val, b_val_der := val_der }
    else if |val_der| ≤ l.thresh then ⟨alpha, val, left + 1, false⟩
    else if 0 ≤ (s.b - s.a) * val_der then
      sectioning left ⟨alpha, s.a, val, s.a_val, val_der, s.a_val_der⟩
    else sectioning left { s with a := alpha, a_val := val, a_val_der := val_der }

/-- The next step of the bracketing phase, beyond the current one. -/
def next_alpha (s : Ascent K) (val val_der : K) : K :=
  let jump := s.alpha - s.last_alpha
  let first := if 0 < l.mu then min l.mu (s.alpha + (7 / 5 : ℚ) * jump)
    else max l.mu (s.alpha + (7 / 5 : ℚ) * jump)
  let last := if 0 < l.mu then min l.mu (s.alpha + (9 : ℚ) * jump)
    else max l.mu (s.alpha + (9 : ℚ) * jump)
  let alpha :=
    if s.last_alpha < s.alpha then
      s.last_alpha + (s.alpha - s.last_alpha) *
        poly_min_extrap M s.last_val s.last_val_der val val_der ((10 ^ 10 : ℚ) : K)
    else
      s.alpha + (s.last_alpha - s.alpha) *
        poly_min_extrap M val val_der s.last_val s.last_val_der ((10 ^ 10 : ℚ) : K)
  put_in_range first last alpha

/-- The bracketing phase, with `left` rounds left of `max_iter` after the next one. -/
def bracketing (left : ℕ) (s : Ascent K) : Found K :=
  let val := l.f s.alpha
  let val_der := l.der s.alpha
  if val ≤ l.min_f then ⟨s.alpha, val, left, false⟩
  else if l.f0 + l.rho * s.alpha * l.d0 < val ∨ s.last_val ≤ val then
    l.sectioning M (left - 1) ⟨s.last_alpha, s.alpha, s.last_val, val, s.last_val_der, val_der⟩
  else if |val_der| ≤ l.thresh then ⟨s.alpha, val, left, false⟩
  else
    match left with
    | 0 => ⟨s.alpha, val, 0, false⟩
    | left + 1 =>
      if M.same s.last_alpha s.alpha then ⟨s.alpha, val, left + 1, true⟩
      else if 0 ≤ val_der then
        l.sectioning M left ⟨s.alpha, s.last_alpha, val, s.last_val, val_der, s.last_val_der⟩
      else bracketing left ⟨l.next_alpha M s val val_der, s.alpha, val, val_der⟩

/-- `line_search`. Where it returns at once, the variable still holds the value at the start. -/
def line_search : Found K :=
  if |l.d0| ≤ |l.f0| * M.epsilon then ⟨0, l.f0, l.max_iter, false⟩
  else if l.f0 ≤ l.min_f then ⟨0, l.f0, l.max_iter, false⟩
  else
    let alpha := put_in_range 0 ((13 / 20 : ℚ) * l.mu) (if l.mu < 0 then -1 else 1)
    l.bracketing M (l.max_iter - 1) ⟨alpha, 0, l.f0, l.d0⟩

end Line

/-! ## Ranges -/

omit [Field K] in
/-- What is put in a range is in it. -/
theorem put_in_range_mem (a b val : K) : put_in_range a b val ∈ Set.uIcc a b := by
  unfold put_in_range
  rw [Set.mem_uIcc]
  split_ifs <;> grind

variable [IsStrictOrderedRing K]

/-- A value between two multiples of the same number is a multiple between theirs. -/
theorem exists_mul_of_mem_uIcc {p q m x : K} (hm : m ≠ 0) (hpq : p ≤ q)
    (h : x ∈ Set.uIcc (p * m) (q * m)) : ∃ w, p ≤ w ∧ w ≤ q ∧ x = w * m := by
  refine ⟨x / m, ?_, ?_, (div_mul_cancel₀ x hm).symm⟩
  all_goals
    rcases lt_or_gt_of_ne hm with hneg | hpos
    · have hle := mul_le_mul_of_nonpos_right hpq hneg.le
      rw [Set.uIcc_of_ge hle] at h
      first | exact (le_div_iff_of_neg hneg).2 h.2 | exact (div_le_iff_of_neg hneg).2 h.1
    · have hle := mul_le_mul_of_nonneg_right hpq hpos.le
      rw [Set.uIcc_of_le hle] at h
      first | exact (le_div_iff₀ hpos).2 h.1 | exact (div_le_iff₀ hpos).2 h.2

/-- The bound, where it is below a multiple of itself. -/
theorem clip_mul (m x : K) : (if 0 < m then min m (x * m) else max m (x * m)) = min 1 x * m := by
  split
  case isTrue hpos => rw [min_mul_of_nonneg _ _ hpos.le, one_mul]
  case isFalse hneg =>
    have hle : m ≤ 0 := not_lt.1 hneg
    rcases le_total 1 x with hx | hx
    · rw [min_eq_left hx, one_mul, max_eq_left]
      simpa using mul_le_mul_of_nonpos_right hx hle
    · rw [min_eq_right hx, max_eq_right]
      simpa using mul_le_mul_of_nonpos_right hx hle

/-- The step of the sectioning phase keeps a tenth of the range on the one side, and half of it on
the other. -/
theorem Bracket.next_alpha_eq (M : Machine K) {s : Bracket K} (hab : s.a ≠ s.b) :
    ∃ w, 1 / 10 ≤ w ∧ w ≤ 1 / 2 ∧ s.next_alpha M = s.a + w * (s.b - s.a) := by
  have hmem : s.next_alpha M ∈
      Set.uIcc (s.a + 1 / 10 * (s.b - s.a)) (s.a + 1 / 2 * (s.b - s.a)) := by
    have hlast : s.b - (1 / 2 : ℚ) * (s.b - s.a) = s.a + 1 / 2 * (s.b - s.a) := by
      push_cast
      ring
    have hfirst : s.a + (1 / 10 : ℚ) * (s.b - s.a) = s.a + 1 / 10 * (s.b - s.a) := by
      push_cast
      ring
    rw [← hfirst, ← hlast]
    exact put_in_range_mem _ _ _
  have hdiff : s.next_alpha M - s.a ∈ Set.uIcc (1 / 10 * (s.b - s.a)) (1 / 2 * (s.b - s.a)) := by
    rw [Set.mem_uIcc] at hmem ⊢
    exact hmem.imp (fun h => ⟨by linarith [h.1], by linarith [h.2]⟩)
      fun h => ⟨by linarith [h.1], by linarith [h.2]⟩
  obtain ⟨w, hw, hw', heq⟩ :=
    exists_mul_of_mem_uIcc (sub_ne_zero.2 hab.symm) (by norm_num) hdiff
  exact ⟨w, hw, hw', by rw [← heq, add_sub_cancel]⟩

/-- The step of the sectioning phase is on the range. -/
theorem Bracket.next_alpha_mem (M : Machine K) {s : Bracket K} (hab : s.a ≠ s.b) :
    s.next_alpha M ∈ Set.uIcc s.a s.b := by
  obtain ⟨w, hw, hw', halpha⟩ := s.next_alpha_eq M hab
  rw [halpha, Set.mem_uIcc]
  rcases le_total s.a s.b with hle | hge
  · have hlow := mul_le_mul_of_nonneg_right hw (sub_nonneg.2 hle)
    have hhigh := mul_le_mul_of_nonneg_right hw' (sub_nonneg.2 hle)
    exact .inl ⟨by linarith, by linarith⟩
  · have hlow := mul_le_mul_of_nonpos_right hw (sub_nonpos.2 hge)
    have hhigh := mul_le_mul_of_nonpos_right hw' (sub_nonpos.2 hge)
    exact .inr ⟨by linarith, by linarith⟩

/-- The step of the sectioning phase, in a range within the bound `m`. -/
theorem Bracket.next_alpha_within (M : Machine K) {s : Bracket K} {m u v : K} (hm : m ≠ 0)
    (ha : s.a = u * m) (hb : s.b = v * m) (hu : 0 ≤ u ∧ u ≤ 1) (hv : 0 ≤ v ∧ v ≤ 1) (huv : u ≠ v) :
    ∃ w, s.next_alpha M = w * m ∧ (0 < w ∧ w ≤ 1) ∧ (w ≠ u ∧ w ≠ v) ∧ (w ≤ u ∨ w ≤ v) := by
  have hab : s.a ≠ s.b := by
    rw [ha, hb]
    exact fun h => huv (mul_right_cancel₀ hm h)
  obtain ⟨x, hx, hx', heq⟩ := s.next_alpha_eq M hab
  refine ⟨u + x * (v - u), ?_, ?_⟩
  · rw [heq, ha, hb]
    ring
  · rcases lt_or_gt_of_ne huv with hlt | hgt
    · have hlow := mul_le_mul_of_nonneg_right hx (sub_pos.2 hlt).le
      have hhigh := mul_le_mul_of_nonneg_right hx' (sub_pos.2 hlt).le
      exact ⟨⟨by linarith [hu.1], by linarith [hv.2]⟩,
        ⟨(show u < _ by linarith).ne', (show _ < v by linarith).ne⟩, .inr (by linarith)⟩
    · have hlow := mul_le_mul_of_nonpos_right hx (sub_neg.2 hgt).le
      have hhigh := mul_le_mul_of_nonpos_right hx' (sub_neg.2 hgt).le
      exact ⟨⟨by linarith [hv.1], by linarith [hu.2]⟩,
        ⟨(show _ < u by linarith).ne, (show v < _ by linarith).ne'⟩, .inl (by linarith)⟩

namespace Line

variable {M : Machine K} {l : Line K}

/-- What a search leaves that does not return at once and is not stuck: a step downhill within the
bound, its value, and the reason why it stopped there. -/
structure Steps (M : Machine K) (l : Line K) (r : Found K) : Prop where
  going : r.stuck = false
  step : ∃ w, 0 < w ∧ w ≤ 1 ∧ r.alpha = w * l.mu
  value : r.f_value = l.f r.alpha
  reason : r.f_value ≤ l.min_f ∨
    (r.f_value ≤ l.f0 + l.rho * r.alpha * l.d0 ∧ |l.der r.alpha| ≤ l.thresh) ∨
    r.left = 0 ∨ |r.alpha * l.d0| ≤ |l.f0| * M.epsilon

/-- What a search leaves that is stuck: a step within the bound, and the value of a step downhill
that is no further from it than another one, from which the machine makes no way to it. -/
structure Stuck (M : Machine K) (l : Line K) (r : Found K) : Prop where
  stopped : r.stuck = true
  step : ∃ w, 0 ≤ w ∧ w ≤ 1 ∧ r.alpha = w * l.mu
  value : ∃ a w, a ≠ r.alpha ∧ M.Merges a r.alpha ∧ w * l.mu ∈ Set.uIcc a r.alpha ∧
    0 < w ∧ w ≤ 1 ∧ r.f_value = l.f (w * l.mu)

/-- The sectioning phase, on a range within the bound. -/
theorem sectioning_steps (hm : l.mu ≠ 0) (left : ℕ) {s : Bracket K} {u v : K}
    (ha : s.a = u * l.mu) (hb : s.b = v * l.mu) (hu : 0 ≤ u ∧ u ≤ 1) (hv : 0 ≤ v ∧ v ≤ 1)
    (huv : u ≠ v) :
    Steps M l (l.sectioning M left s) ∨ Stuck M l (l.sectioning M left s) := by
  induction left generalizing s u v with
  | zero =>
    obtain ⟨w, hw, hw01, -⟩ := s.next_alpha_within M hm ha hb hu hv huv
    exact .inl ⟨rfl, ⟨w, hw01.1, hw01.2, hw⟩, rfl, .inr (.inr (.inl rfl))⟩
  | succ left ih =>
    obtain ⟨w, hw, hw01, hne, hle⟩ := s.next_alpha_within M hm ha hb hu hv huv
    rw [sectioning]
    split
    case isTrue hstop => exact .inl ⟨rfl, ⟨w, hw01.1, hw01.2, hw⟩, rfl, .inl hstop⟩
    case isFalse =>
      split
      case isTrue hstuck =>
        -- the one exit where the value is not the one of the step
        have hab : s.a ≠ s.b := by
          rw [ha, hb]
          exact fun h => huv (mul_right_cancel₀ hm h)
        refine .inr ⟨rfl, ⟨v, hv.1, hv.2, hb⟩, s.a, w, hab, .inr hstuck, ?_, hw01.1, hw01.2, ?_⟩
        · rw [← hw]
          exact s.next_alpha_mem M hab
        · rw [← hw]
      case isFalse =>
        split
        case isTrue hsmall =>
          refine .inl ⟨rfl, ⟨w, hw01.1, hw01.2, hw⟩, rfl, .inr (.inr (.inr (le_trans ?_ hsmall)))⟩
          rw [abs_mul, abs_mul]
          refine mul_le_mul_of_nonneg_right (le_trans ?_ (le_abs_self _)) (abs_nonneg _)
          rw [hw, ha, hb, abs_mul, abs_mul, abs_mul, abs_of_pos hw01.1, abs_of_nonneg hu.1,
            abs_of_nonneg hv.1, le_max_iff]
          exact hle.imp (mul_le_mul_of_nonneg_right · (abs_nonneg _))
            (mul_le_mul_of_nonneg_right · (abs_nonneg _))
        case isFalse =>
          split
          case isTrue => exact ih ha hw hu ⟨hw01.1.le, hw01.2⟩ hne.1.symm
          case isFalse hval =>
            push Not at hval
            split
            case isTrue hder =>
              exact .inl ⟨rfl, ⟨w, hw01.1, hw01.2, hw⟩, rfl, .inr (.inl ⟨hval.1, hder⟩)⟩
            case isFalse =>
              split
              case isTrue => exact ih hw ha ⟨hw01.1.le, hw01.2⟩ hu hne.1
              case isFalse => exact ih hw hb ⟨hw01.1.le, hw01.2⟩ hv hne.2

/-- The step of the bracketing phase is beyond the current one by more than that was beyond the one
before, unless it is at the bound. -/
theorem next_alpha_mul (hm : l.mu ≠ 0) {s : Ascent K} {u v : K} (val val_der : K)
    (hlast : s.last_alpha = u * l.mu) (halpha : s.alpha = v * l.mu) (huv : u < v) :
    ∃ w, l.next_alpha M s val val_der = w * l.mu ∧ min 1 (v + 7 / 5 * (v - u)) ≤ w ∧ w ≤ 1 := by
  have hjump : ∀ c : K, s.alpha + c * (s.alpha - s.last_alpha) = (v + c * (v - u)) * l.mu := by
    intro c
    rw [halpha, hlast]
    ring
  have hmem : l.next_alpha M s val val_der ∈ Set.uIcc (min 1 (v + 7 / 5 * (v - u)) * l.mu)
      (min 1 (v + 9 * (v - u)) * l.mu) := by
    rw [← clip_mul, ← clip_mul, ← hjump, ← hjump, next_alpha]
    simp only [Rat.cast_div, Rat.cast_ofNat]
    exact put_in_range_mem _ _ _
  have hle : min 1 (v + 7 / 5 * (v - u)) ≤ min 1 (v + 9 * (v - u)) :=
    min_le_min_left _ (by linarith)
  obtain ⟨w, hpw, hwq, hw⟩ := exists_mul_of_mem_uIcc hm hle hmem
  exact ⟨w, hw, hpw, hwq.trans (min_le_left _ _)⟩

omit [IsStrictOrderedRing K] in
/-- At the bound itself, the line of sufficient decrease is at the value that ends the search. -/
theorem mu_spec (hrho : 0 < l.rho) (hd : l.d0 ≠ 0) : l.rho * l.mu * l.d0 = l.min_f - l.f0 := by
  have := hrho.ne'
  rw [mu]
  field_simp

/-- The first step is not zero. -/
theorem first_alpha_ne {m : K} (hm : m ≠ 0) :
    put_in_range 0 ((13 / 20 : ℚ) * m) (if m < 0 then -1 else 1) ≠ 0 := by
  simp only [put_in_range, Rat.cast_div, Rat.cast_ofNat]
  rcases lt_or_gt_of_ne hm with hneg | hpos
  · rw [if_pos hneg, if_neg (by linarith)]
    split_ifs <;> linarith
  · rw [if_neg hpos.not_gt, if_pos (by linarith)]
    split_ifs <;> linarith

/-- The bound is not zero. -/
theorem mu_ne (hrho : 0 < l.rho) (hd : l.d0 ≠ 0) (hmin : l.min_f < l.f0) : l.mu ≠ 0 := by
  intro h0
  have := mu_spec hrho hd
  rw [h0] at this
  linarith

/-- The bound is in the direction downhill. -/
theorem mu_downhill (hrho : 0 < l.rho) (hd : l.d0 ≠ 0) (hmin : l.min_f < l.f0) :
    l.mu * l.d0 < 0 := by
  have hbound := mu_spec hrho hd
  have hneg : l.rho * (l.mu * l.d0) < 0 := by linarith
  exact (pos_iff_neg_of_mul_neg hneg).1 hrho

/-- The bracketing phase, from a step within the bound. -/
theorem bracketing_steps (hrho : 0 < l.rho) (hd : l.d0 ≠ 0) (hmin : l.min_f < l.f0) (left : ℕ)
    {s : Ascent K} {u v : K} (hlast : s.last_alpha = u * l.mu) (halpha : s.alpha = v * l.mu)
    (hu : 0 ≤ u) (huv : u < v) (hv : v ≤ 1) :
    Steps M l (l.bracketing M left s) ∨ Stuck M l (l.bracketing M left s) := by
  have hm := mu_ne hrho hd hmin
  induction left using Nat.strong_induction_on generalizing s u v with
  | h left ih =>
    have hv0 : 0 < v := hu.trans_lt huv
    rw [bracketing.eq_def]
    dsimp only
    split
    case isTrue hfound => exact .inl ⟨rfl, ⟨v, hv0, hv, halpha⟩, rfl, .inl hfound⟩
    case isFalse hgo =>
      split
      case isTrue =>
        exact sectioning_steps hm _ hlast halpha ⟨hu, by linarith⟩ ⟨hv0.le, hv⟩ huv.ne
      case isFalse hval =>
        push Not at hval
        split
        case isTrue hder =>
          exact .inl ⟨rfl, ⟨v, hv0, hv, halpha⟩, rfl, .inr (.inl ⟨hval.1, hder⟩)⟩
        case isFalse =>
          split
          case h_1 => exact .inl ⟨rfl, ⟨v, hv0, hv, halpha⟩, rfl, .inr (.inr (.inl rfl))⟩
          case h_2 left =>
            split
            case isTrue heq =>
              have hne : s.last_alpha ≠ s.alpha := by
                rw [hlast, halpha]
                exact fun h => huv.ne (mul_right_cancel₀ hm h)
              refine .inr ⟨rfl, ⟨v, hv0.le, hv, halpha⟩, s.last_alpha, v, hne, .inl heq, ?_, hv0, hv,
                ?_⟩
              · rw [← halpha]
                exact Set.right_mem_uIcc
              · rw [← halpha]
            case isFalse =>
              split
              case isTrue =>
                exact sectioning_steps hm _ halpha hlast ⟨hv0.le, hv⟩ ⟨hu, by linarith⟩ huv.ne'
              case isFalse =>
                -- not at the bound yet, as the search has gone on
                have hv1 : v < 1 := by
                  refine lt_of_le_of_ne hv fun h1 => hgo ?_
                  have hbound := mu_spec hrho hd
                  rw [halpha, h1, one_mul] at hval ⊢
                  linarith [hval.1]
                obtain ⟨w, hw, hgrow, hw1⟩ := next_alpha_mul (M := M) hm (l.f s.alpha)
                  (l.der s.alpha) hlast halpha huv
                have hvw : v < w := lt_of_lt_of_le (lt_min hv1 (by linarith)) hgrow
                exact ih left (by omega) halpha hw hv0.le hvw hw1

/-- A step within the bound is no longer than it. -/
theorem abs_le_mu {x w : K} (hw0 : 0 ≤ w) (hw1 : w ≤ 1) (hw : x = w * l.mu) : |x| ≤ |l.mu| := by
  rw [hw, abs_mul, abs_of_nonneg hw0]
  exact mul_le_of_le_one_left (abs_nonneg _) hw1

/-- A step is no longer than the bound, -/
theorem Steps.abs_le {r : Found K} (h : Steps M l r) : |r.alpha| ≤ |l.mu| := by
  obtain ⟨w, hw0, hw1, hw⟩ := h.step
  exact abs_le_mu hw0.le hw1 hw

/-- A step within the bound goes downhill. -/
theorem Steps.downhill {r : Found K} (h : Steps M l r) (hrho : 0 < l.rho) (hd : l.d0 ≠ 0)
    (hmin : l.min_f < l.f0) : r.alpha * l.d0 < 0 := by
  obtain ⟨w, hw0, -, hw⟩ := h.step
  rw [hw, mul_assoc]
  exact mul_neg_of_pos_of_neg hw0 (mu_downhill hrho hd hmin)

/-- stuck or not. -/
theorem Stuck.abs_le {r : Found K} (h : Stuck M l r) : |r.alpha| ≤ |l.mu| := by
  obtain ⟨w, hw0, hw1, hw⟩ := h.step
  exact abs_le_mu hw0 hw1 hw

/-- A search that is stuck returns no step uphill, but may return none at all. -/
theorem Stuck.not_uphill {r : Found K} (h : Stuck M l r) (hrho : 0 < l.rho) (hd : l.d0 ≠ 0)
    (hmin : l.min_f < l.f0) : r.alpha * l.d0 ≤ 0 := by
  obtain ⟨w, hw0, -, hw⟩ := h.step
  rw [hw, mul_assoc]
  exact mul_nonpos_of_nonneg_of_nonpos hw0 (mu_downhill hrho hd hmin).le

/-- No search is stuck where the machine is exact. -/
theorem Stuck.not_exact {r : Found K} (h : Stuck M l r) : ¬ M.Exact := by
  obtain ⟨a, -, hne, hmerges, -⟩ := h.value
  intro hexact
  rcases hmerges with hab | hfirst | hlast
  · exact hne (hexact _ _ hab)
  · have := hexact _ _ hfirst
    push_cast at this
    exact hne (by linarith)
  · have := hexact _ _ hlast
    push_cast at this
    exact hne (by linarith)

/-- The search returns at once, or it has a step within the bound, or it is stuck. -/
theorem line_search_cases (M : Machine K) (l : Line K) (heps : 0 ≤ M.epsilon) (hrho : 0 < l.rho) :
    ((l.line_search M).stuck = false ∧ (l.line_search M).alpha = 0 ∧
        (l.line_search M).f_value = l.f0 ∧ (|l.d0| ≤ |l.f0| * M.epsilon ∨ l.f0 ≤ l.min_f)) ∨
      l.d0 ≠ 0 ∧ l.min_f < l.f0 ∧
        (Steps M l (l.line_search M) ∨ Stuck M l (l.line_search M)) := by
  unfold line_search
  split
  case isTrue hflat => exact .inl ⟨rfl, rfl, rfl, .inl hflat⟩
  case isFalse hslope =>
    split
    case isTrue hgood => exact .inl ⟨rfl, rfl, rfl, .inr hgood⟩
    case isFalse hbad =>
      have hmin : l.min_f < l.f0 := not_le.1 hbad
      have hd : l.d0 ≠ 0 := by
        intro h0
        rw [h0, abs_zero] at hslope
        exact hslope (mul_nonneg (abs_nonneg _) heps)
      have hm := mu_ne hrho hd hmin
      -- the first step, of length one unless the bound is closer
      have hmem := put_in_range_mem 0 ((13 / 20 : ℚ) * l.mu) (if l.mu < 0 then -1 else 1)
      rw [← zero_mul l.mu] at hmem
      obtain ⟨w, hw0, hw1, hw⟩ := exists_mul_of_mem_uIcc hm (by norm_num) hmem
      rw [zero_mul] at hw
      have hwpos : 0 < w := by
        refine lt_of_le_of_ne hw0 fun h0 => first_alpha_ne hm ?_
        rw [hw, ← h0, zero_mul]
      refine .inr ⟨hd, hmin, ?_⟩
      exact bracketing_steps hrho hd hmin _ (zero_mul l.mu).symm hw le_rfl hwpos
        (hw1.trans (by norm_num))

/-- A search of an exact machine is not stuck. -/
theorem going_of_exact (l : Line K) (heps : 0 ≤ M.epsilon) (hrho : 0 < l.rho) (hM : M.Exact) :
    (l.line_search M).stuck = false := by
  rcases l.line_search_cases M heps hrho with hzero | ⟨-, -, hsteps | hstuck⟩
  · exact hzero.1
  · exact hsteps.going
  · exact absurd hM hstuck.not_exact

/-- **The line search.** For every function on the line, whatever is taken for its derivative, in
exact arithmetic but for the comparisons of a machine that rounds. A search that is not stuck leaves
the value of the function at the step it returns: it returns at once, with a step of zero, where the
slope is negligible or the value is good enough already; otherwise its step goes downhill and stays
within the bound, and its value is small enough, or it meets the Wolfe conditions, or the rounds are
used up, or no step in reach could make a difference. A search is stuck only where the machine takes
two different numbers for the same: its step stays within the bound and does not go uphill, and the
value is that of a step downhill which may be another one. -/
theorem line_search_found (M : Machine K) (l : Line K) (heps : 0 ≤ M.epsilon) (hrho : 0 < l.rho)
    (hf0 : l.f 0 = l.f0) :
    ((l.line_search M).stuck = false →
      (l.line_search M).f_value = l.f (l.line_search M).alpha ∧
        ((l.line_search M).alpha = 0 ∧ (|l.d0| ≤ |l.f0| * M.epsilon ∨ l.f0 ≤ l.min_f) ∨
          (l.line_search M).alpha * l.d0 < 0 ∧ |(l.line_search M).alpha| ≤ |l.mu| ∧
            Steps M l (l.line_search M))) ∧
    ((l.line_search M).stuck = true →
      ¬ M.Exact ∧ (l.line_search M).alpha * l.d0 ≤ 0 ∧ |(l.line_search M).alpha| ≤ |l.mu| ∧
        Stuck M l (l.line_search M)) := by
  rcases l.line_search_cases M heps hrho with ⟨hgo, h0, hvalue, hwhy⟩ | ⟨hd, hmin, hsteps | hstuck⟩
  · refine ⟨fun _ => ⟨?_, .inl ⟨h0, hwhy⟩⟩, fun hstop => absurd (hgo.symm.trans hstop) (by decide)⟩
    rw [hvalue, h0, hf0]
  · refine ⟨fun _ => ⟨hsteps.value, .inr ⟨?_, hsteps.abs_le, hsteps⟩⟩, fun hstop => ?_⟩
    · exact hsteps.downhill hrho hd hmin
    · exact absurd (hsteps.going.symm.trans hstop) (by decide)
  · refine ⟨fun hgo => absurd (hstuck.stopped.symm.trans hgo) (by decide), fun _ => ?_⟩
    exact ⟨hstuck.not_exact, hstuck.not_uphill hrho hd hmin, hstuck.abs_le, hstuck⟩

/-- A machine that computes exactly; it is never asked for a square root here. -/
def exact : Machine ℚ := ⟨0, id, fun _ => true, fun _ => true, fun x y => x = y⟩

/-- A machine that does not tell apart what is less than a quarter apart. -/
def coarse : Machine ℚ := ⟨0, id, fun _ => true, fun _ => true, fun x y => |x - y| < 1 / 4⟩

/-- A parabola with its minimum at 3. -/
def parabola : Line ℚ :=
  ⟨fun x => (x - 3) ^ 2, 9, fun x => 2 * (x - 3), -6, 1 / 100, 9 / 10, -1, 100⟩

/-- The distance to 3 / 10, which no step meets the Wolfe conditions for. -/
def wedge : Line ℚ :=
  ⟨fun x => |x - 3 / 10|, 3 / 10, fun x => if x < 3 / 10 then -1 else 1, -1, 1 / 100, 9 / 10, -1,
    100⟩

/-- The coarse machine returns the end 1 of its range, with the value at the middle. -/
example :
    wedge.line_search coarse = ⟨1, wedge.f (1 / 2), 98, true⟩ ∧ wedge.f (1 / 2) ≠ wedge.f 1 := by
  decide +kernel

/-- The search on the parabola, on an exact machine, and on the wedge, on a coarse one. -/
theorem line_search_found_parabola_wedge :
    ((parabola.line_search exact).f_value = parabola.f (parabola.line_search exact).alpha ∧
      ((parabola.line_search exact).alpha = 0 ∧
          (|parabola.d0| ≤ |parabola.f0| * exact.epsilon ∨ parabola.f0 ≤ parabola.min_f) ∨
        (parabola.line_search exact).alpha * parabola.d0 < 0 ∧
          |(parabola.line_search exact).alpha| ≤ |parabola.mu| ∧
          Steps exact parabola (parabola.line_search exact))) ∧
    ¬ coarse.Exact ∧ (wedge.line_search coarse).alpha * wedge.d0 ≤ 0 ∧
      |(wedge.line_search coarse).alpha| ≤ |wedge.mu| ∧
      Stuck coarse wedge (wedge.line_search coarse) :=
  ⟨(line_search_found exact parabola le_rfl (by norm_num [parabola]) (by norm_num [parabola])).1
      (by decide +kernel),
    (line_search_found coarse wedge le_rfl (by norm_num [wedge]) (by norm_num [wedge])).2
      (by decide +kernel)⟩

end Line

end Dlib

import DetectionSystem.Dlib.LineSearch
import DetectionSystem.Lib.Wolfe

/-!
# How far the line search gets

Of a search that uses up its rounds, `line_search_found` says nothing about the Wolfe conditions.
Here is what it has reached by then: the range of the sectioning phase is one that starts at a good
value and steeply downhill and does not end at a better one (`Wolfe.Conditions.Brackets`), each
round of the phase leaves such a range and takes off at least a tenth of it, and the bracketing
phase, whose jumps grow by at least two fifths, has no more rounds than it takes to reach the bound.
`line_search_near` is the outcome: where the derivative is measured well enough, the step that is
returned is as close to an acceptable one as the rounds allow.

The slope at zero is not measured on the line, it is the one that the caller gives. The arithmetic
is exact, as in the line search itself; a search that is stuck (`Found.stuck`) has stopped short of
its rounds, and that happens only where the machine takes two different numbers for the same.
-/

namespace Dlib

variable {K : Type} [Field K] [LinearOrder K]

namespace Line

/-- The derivative as the search takes it. -/
def measured (l : Line K) (t : K) : K := if t = 0 then l.d0 else l.der t

/-- What the search judges its steps by. -/
def conditions (l : Line K) : Wolfe.Conditions K := ⟨l.f, l.measured, l.f0, l.rho * l.d0, l.thresh⟩

/-- The variables of the sectioning phase are those of a range with an acceptable step. -/
structure Sections (l : Line K) (s : Bracket K) : Prop where
  a_val : s.a_val = l.f s.a
  a_within : 0 ≤ s.a ∧ s.a ≤ l.mu
  b_within : 0 ≤ s.b ∧ s.b ≤ l.mu
  brackets : l.conditions.Brackets s.a s.b

/-- The variables of the bracketing phase, in multiples of the bound: the last step is a good one,
with the function going steeply downhill, and the next one is beyond it. -/
structure Climbs (l : Line K) (s : Ascent K) (u v : K) : Prop where
  last_alpha : s.last_alpha = u * l.mu
  alpha : s.alpha = v * l.mu
  nonneg : 0 ≤ u
  beyond : u < v
  within : v ≤ 1
  last_val : s.last_val = l.f s.last_alpha
  below : l.f s.last_alpha ≤ l.conditions.line s.last_alpha
  steep : l.measured s.last_alpha < -l.thresh

/-- A range with an acceptable step, no wider than `width`, around a step of the search. -/
def Around (l : Line K) (alpha width : K) : Prop :=
  ∃ a b, l.conditions.Brackets a b ∧ (0 ≤ a ∧ a ≤ l.mu) ∧ (0 ≤ b ∧ b ≤ l.mu) ∧
    alpha ∈ Set.uIcc a b ∧ |b - a| ≤ width

variable {M : Machine K} {l : Line K}

/-- Away from zero the derivative is measured. -/
theorem measured_of_ne {t : K} (h : t ≠ 0) : l.measured t = l.der t := if_neg h

/-- The line of sufficient decrease. -/
theorem line_eq (t : K) : l.conditions.line t = l.f0 + l.rho * t * l.d0 := by
  rw [Wolfe.Conditions.line, conditions]
  ring

/-- Away from zero the conditions are those of the code. -/
theorem acceptable_iff {t : K} (h : t ≠ 0) : l.conditions.Acceptable t ↔
    l.f t ≤ l.f0 + l.rho * t * l.d0 ∧ |l.der t| ≤ l.thresh := by
  rw [Wolfe.Conditions.Acceptable, line_eq, ← measured_of_ne h]
  exact Iff.rfl

variable [IsStrictOrderedRing K]

/-- The bound of the curvature condition is not negative. -/
theorem thresh_nonneg : 0 ≤ l.thresh := abs_nonneg _

/-- A smaller multiple is smaller. -/
theorem abs_mul_le {x w d : K} (h0 : 0 ≤ w) (hw : w ≤ x) : |w * d| ≤ x * |d| := by
  rw [abs_mul, abs_of_nonneg h0]
  exact mul_le_mul_of_nonneg_right hw (abs_nonneg d)

omit [IsStrictOrderedRing K] in
/-- A range may be said to be wider than it is. -/
theorem Around.mono {alpha width width' : K} (h : l.Around alpha width) (hle : width ≤ width') :
    l.Around alpha width' := by
  obtain ⟨a, b, hab, ha, hb, hmem, hwidth⟩ := h
  exact ⟨a, b, hab, ha, hb, hmem, hwidth.trans hle⟩

/-! ## The sectioning phase -/

/-- The step of a round is on the range, and away from zero. -/
theorem Sections.next_alpha_within (M : Machine K) {s : Bracket K} (hs : l.Sections s) :
    ∃ w, 1 / 10 ≤ w ∧ w ≤ 1 / 2 ∧ s.next_alpha M = s.a + w * (s.b - s.a) ∧
      0 < s.next_alpha M ∧ s.next_alpha M ≤ l.mu := by
  have hab := hs.brackets.ne
  obtain ⟨w, hw, hw', halpha⟩ := s.next_alpha_eq M hab
  obtain ⟨ha, ha'⟩ := hs.a_within
  obtain ⟨hb, hb'⟩ := hs.b_within
  refine ⟨w, hw, hw', halpha, ?_⟩
  rcases lt_or_gt_of_ne hab with hlt | hgt
  · have hlow := mul_le_mul_of_nonneg_right hw (sub_pos.2 hlt).le
    have hhigh := mul_le_mul_of_nonneg_right hw' (sub_pos.2 hlt).le
    exact ⟨by linarith, by linarith⟩
  · have hlow := mul_le_mul_of_nonpos_right hw (sub_neg.2 hgt).le
    have hhigh := mul_le_mul_of_nonpos_right hw' (sub_neg.2 hgt).le
    exact ⟨by linarith, by linarith⟩

/-- A round of the sectioning phase ends the search, or leaves a range of the same kind that is
smaller by a tenth. -/
theorem sectioning_round (M : Machine K) {s : Bracket K} (hs : l.Sections s) (left : ℕ) :
    (l.sectioning M (left + 1) s).left = left + 1 ∨
      ∃ s', l.sectioning M (left + 1) s = l.sectioning M left s' ∧ l.Sections s' ∧
        |s'.b - s'.a| ≤ 9 / 10 * |s.b - s.a| := by
  obtain ⟨w, hw, hw', halpha, hpos, hmu⟩ := hs.next_alpha_within M
  have hw0 : 0 < w := by linarith
  have hab := hs.brackets.ne
  have hmeasured := measured_of_ne (l := l) hpos.ne'
  have hline := line_eq (l := l) (s.next_alpha M)
  rw [sectioning]
  split
  case isTrue => exact .inl rfl
  case isFalse =>
    split
    case isTrue => exact .inl rfl
    case isFalse =>
      split
      case isTrue => exact .inl rfl
      case isFalse =>
        split
        case isTrue hno =>
          refine .inr ⟨_, rfl, ⟨hs.a_val, hs.a_within, ⟨hpos.le, hmu⟩, ?_⟩, ?_⟩
          · rw [← hline, hs.a_val] at hno
            rw [halpha] at hno ⊢
            exact hs.brackets.keep hw0 hno
          · rw [halpha, add_sub_cancel_left]
            exact abs_mul_le hw0.le (by linarith)
        case isFalse hyes =>
          push Not at hyes
          split
          case isTrue => exact .inl rfl
          case isFalse hsteep =>
            rw [← hline, hs.a_val] at hyes
            rw [← hmeasured, not_le] at hsteep
            rw [← hmeasured]
            split
            case isTrue hup =>
              refine .inr ⟨_, rfl, ⟨rfl, ⟨hpos.le, hmu⟩, hs.a_within, ?_⟩, ?_⟩
              · rw [halpha] at hyes hsteep hup ⊢
                exact .turn hw0 thresh_nonneg hyes.1 hyes.2 hsteep hab hup
              · rw [halpha, sub_add_cancel_left, abs_neg]
                exact abs_mul_le hw0.le (by linarith)
            case isFalse hdown =>
              rw [not_le] at hdown
              refine .inr ⟨_, rfl, ⟨rfl, ⟨hpos.le, hmu⟩, hs.b_within, ?_⟩, ?_⟩
              · rw [halpha] at hyes hsteep hdown ⊢
                exact hs.brackets.advance (by linarith) hyes.1 hyes.2 hsteep hdown
              · have hrest : s.b - (s.a + w * (s.b - s.a)) = (1 - w) * (s.b - s.a) := by ring
                rw [halpha, hrest]
                exact abs_mul_le (by linarith) (by linarith)

/-- The sectioning phase, where it uses up its rounds. -/
theorem sectioning_around (M : Machine K) (left : ℕ) {s : Bracket K} (hs : l.Sections s)
    (hleft : (l.sectioning M left s).left = 0) :
    l.Around (l.sectioning M left s).alpha ((9 / 10) ^ left * |s.b - s.a|) := by
  induction left generalizing s with
  | zero =>
    exact ⟨s.a, s.b, hs.brackets, hs.a_within, hs.b_within, s.next_alpha_mem M hs.brackets.ne,
      by rw [pow_zero, one_mul]⟩
  | succ left ih =>
    rcases sectioning_round M hs left with hend | ⟨s', heq, hs', hwidth⟩
    · rw [hend] at hleft
      cases hleft
    · rw [heq] at hleft ⊢
      refine (ih hs' hleft).mono ?_
      rw [pow_succ, mul_assoc]
      exact mul_le_mul_of_nonneg_left hwidth (by positivity)

/-! ## The bracketing phase -/

/-- The next step is beyond the last one, and both are within the bound. -/
theorem Climbs.order {s : Ascent K} {u v : K} (hs : l.Climbs s u v) (hmu : 0 < l.mu) :
    0 ≤ s.last_alpha ∧ s.last_alpha < s.alpha ∧ s.alpha ≤ l.mu := by
  rw [hs.last_alpha, hs.alpha]
  exact ⟨mul_nonneg hs.nonneg hmu.le, mul_lt_mul_of_pos_right hs.beyond hmu,
    mul_le_of_le_one_left hmu.le hs.within⟩

/-- The last step is the better end of a range that ends at a step that is no improvement. -/
theorem Climbs.rise {s : Ascent K} {u v : K} (hs : l.Climbs s u v) (hmu : 0 < l.mu)
    (hno : l.f0 + l.rho * s.alpha * l.d0 < l.f s.alpha ∨ s.last_val ≤ l.f s.alpha) :
    l.Sections ⟨s.last_alpha, s.alpha, s.last_val, l.f s.alpha, s.last_val_der, l.der s.alpha⟩ := by
  obtain ⟨hlast, hbeyond, halpha⟩ := hs.order hmu
  have hneg : l.measured s.last_alpha < 0 := hs.steep.trans_le (neg_nonpos.2 thresh_nonneg)
  have hsteep : l.thresh < |l.measured s.last_alpha| :=
    (lt_neg_of_lt_neg hs.steep).trans_le (neg_le_abs _)
  rw [← line_eq, hs.last_val] at hno
  exact ⟨hs.last_val, ⟨hlast, hbeyond.le.trans halpha⟩, ⟨hlast.trans hbeyond.le, halpha⟩,
    ⟨hs.below, mul_neg_of_pos_of_neg (sub_pos.2 hbeyond) hneg, hsteep, hno⟩⟩

/-- An improvement from which it goes steeply uphill is the better end of a range back to the last
step. -/
theorem Climbs.turn {s : Ascent K} {u v : K} (hs : l.Climbs s u v) (hmu : 0 < l.mu)
    (hbelow : l.f s.alpha ≤ l.f0 + l.rho * s.alpha * l.d0) (hless : l.f s.alpha < s.last_val)
    (hsteep : l.thresh < |l.der s.alpha|) (hup : 0 ≤ l.der s.alpha) :
    l.Sections ⟨s.alpha, s.last_alpha, l.f s.alpha, s.last_val, l.der s.alpha, s.last_val_der⟩ := by
  obtain ⟨hlast, hbeyond, halpha⟩ := hs.order hmu
  have halpha0 : 0 < s.alpha := hlast.trans_lt hbeyond
  rw [← measured_of_ne halpha0.ne'] at hsteep hup
  have hpos : 0 < l.measured s.alpha := by
    rw [abs_of_nonneg hup] at hsteep
    exact thresh_nonneg.trans_lt hsteep
  rw [← line_eq] at hbelow
  rw [hs.last_val] at hless
  exact ⟨rfl, ⟨halpha0.le, halpha⟩, ⟨hlast, hbeyond.le.trans halpha⟩,
    ⟨hbelow, mul_neg_of_neg_of_pos (sub_neg.2 hbeyond) hpos, hsteep, .inr hless.le⟩⟩

/-- An improvement from which it goes steeply on downhill is the last step of the next round. -/
theorem Climbs.next (M : Machine K) {s : Ascent K} {u v : K} (hs : l.Climbs s u v) (hmu : 0 < l.mu)
    (hv1 : v < 1) (hbelow : l.f s.alpha ≤ l.f0 + l.rho * s.alpha * l.d0)
    (hsteep : l.thresh < |l.der s.alpha|) (hdown : l.der s.alpha < 0) :
    ∃ w, l.Climbs ⟨l.next_alpha M s (l.f s.alpha) (l.der s.alpha), s.alpha, l.f s.alpha,
      l.der s.alpha⟩ v w ∧ min 1 (v + 7 / 5 * (v - u)) ≤ w := by
  obtain ⟨hlast, hbeyond, -⟩ := hs.order hmu
  obtain ⟨w, hw, hgrow, hw1⟩ := next_alpha_mul (M := M) hmu.ne' (l.f s.alpha) (l.der s.alpha)
    hs.last_alpha hs.alpha hs.beyond
  have hvw : v < w := lt_of_lt_of_le (lt_min hv1 (by linarith [hs.beyond])) hgrow
  rw [abs_of_neg hdown, ← measured_of_ne (hlast.trans_lt hbeyond).ne'] at hsteep
  rw [← line_eq] at hbelow
  exact ⟨w, ⟨hs.alpha, hw, (hs.nonneg.trans_lt hs.beyond).le, hvw, hw1, rfl, hbelow,
    lt_neg_of_lt_neg hsteep⟩, hgrow⟩

/-- A round of the bracketing phase ends the search at a good step, or begins the sectioning phase
on a range with an acceptable step, or goes on, if not at the bound and not stuck, with a longer
jump. -/
theorem bracketing_round (M : Machine K) (hrho : 0 < l.rho) (hd : l.d0 < 0)
    (hmin : l.min_f < l.f0) {s : Ascent K} {u v : K} (hs : l.Climbs s u v) (left : ℕ) :
    ((l.bracketing M left s).f_value ≤ l.min_f ∨
        l.conditions.Acceptable (l.bracketing M left s).alpha) ∨
      (∃ s', l.bracketing M left s = l.sectioning M (left - 1) s' ∧ l.Sections s' ∧
        |s'.b - s'.a| ≤ l.mu) ∨
      v < 1 ∧ ∀ n, left = n + 1 → (l.bracketing M left s).left = n + 1 ∨
        ∃ s' w, l.bracketing M left s = l.bracketing M n s' ∧
          l.Climbs s' v w ∧ min 1 (v + 7 / 5 * (v - u)) ≤ w := by
  have hmu : 0 < l.mu := pos_of_mul_neg_left (mu_downhill hrho hd.ne hmin) hd.le
  obtain ⟨hlast, hbeyond, halpha⟩ := hs.order hmu
  have hwidth : |s.alpha - s.last_alpha| ≤ l.mu := by
    rw [abs_of_pos (sub_pos.2 hbeyond)]
    linarith
  rw [bracketing.eq_def]
  dsimp only
  split
  case isTrue hfound => exact .inl (.inl hfound)
  case isFalse hgo =>
    split
    case isTrue hno => exact .inr (.inl ⟨_, rfl, hs.rise hmu hno, hwidth⟩)
    case isFalse hyes =>
      push Not at hyes
      split
      case isTrue hder =>
        exact .inl (.inr ((acceptable_iff (hlast.trans_lt hbeyond).ne').2 ⟨hyes.1, hder⟩))
      case isFalse hsteep =>
        rw [not_le] at hsteep
        -- at the bound the search would have ended, or found no improvement
        have hv1 : v < 1 := by
          refine lt_of_le_of_ne hs.within fun h1 => hgo ?_
          have hbound := mu_spec hrho hd.ne
          rw [hs.alpha, h1, one_mul] at hyes ⊢
          linarith [hyes.1]
        split
        case h_1 => exact .inr (.inr ⟨hv1, fun n hn => by cases hn⟩)
        case h_2 left =>
          split
          case isTrue => exact .inr (.inr ⟨hv1, fun n hn => .inl hn⟩)
          case isFalse =>
            split
            case isTrue hup =>
              refine .inr (.inl ⟨_, rfl, hs.turn hmu hyes.1 hyes.2 hsteep hup, ?_⟩)
              rwa [abs_sub_comm]
            case isFalse hdown =>
              obtain ⟨w, hclimbs, hgrow⟩ := hs.next M hmu hv1 hyes.1 hsteep (not_le.1 hdown)
              refine .inr (.inr ⟨hv1, fun n hn => ?_⟩)
              cases hn
              exact .inr ⟨_, w, rfl, hclimbs, hgrow⟩

/-- The bracketing phase, where the search uses up its rounds and there are enough of them to reach
the bound. -/
theorem bracketing_around (M : Machine K) (hrho : 0 < l.rho) (hd : l.d0 < 0)
    (hmin : l.min_f < l.f0) {B : ℕ} {s : Ascent K} {u v : K} (hs : l.Climbs s u v)
    (hB : v = 1 ∨ 1 ≤ (7 / 5) ^ B * (v - u)) {left : ℕ} (hBleft : B ≤ left)
    (hleft : (l.bracketing M left s).left = 0) :
    (l.bracketing M left s).f_value ≤ l.min_f ∨
      l.conditions.Acceptable (l.bracketing M left s).alpha ∨
      l.Around (l.bracketing M left s).alpha ((9 / 10) ^ (left - (B + 1)) * l.mu) := by
  induction B generalizing left s u v with
  | zero =>
    rcases bracketing_round M hrho hd hmin hs left with hgood | ⟨s', heq, hs', hwidth⟩ | ⟨hv1, -⟩
    · exact hgood.imp_right .inl
    · rw [heq] at hleft ⊢
      refine .inr (.inr ((sectioning_around M _ hs' hleft).mono ?_))
      exact mul_le_mul_of_nonneg_left hwidth (by positivity)
    · rw [pow_zero, one_mul] at hB
      rcases hB with h1 | hlong
      · exact absurd h1 hv1.ne
      · linarith [hs.nonneg]
  | succ B ih =>
    rcases bracketing_round M hrho hd hmin hs left with hgood | ⟨s', heq, hs', hwidth⟩ | ⟨hv1, hgo⟩
    · exact hgood.imp_right .inl
    · rw [heq] at hleft ⊢
      refine .inr (.inr ((sectioning_around M _ hs' hleft).mono ?_))
      refine mul_le_mul ?_ hwidth (abs_nonneg _) (by positivity)
      exact pow_le_pow_of_le_one (by norm_num) (by norm_num) (by omega)
    · obtain ⟨n, rfl⟩ := Nat.exists_eq_add_of_le' (Nat.one_le_of_lt hBleft)
      rcases hgo n rfl with hstop | ⟨s', w, heq, hs', hgrow⟩
      · exact absurd (hstop.symm.trans hleft) (Nat.succ_ne_zero n)
      rw [heq] at hleft ⊢
      have hstep := ih hs' ?_ (Nat.le_of_succ_le_succ hBleft) hleft
      · rwa [Nat.add_sub_add_right]
      · rcases min_le_iff.1 hgrow with h1 | hjump
        · exact .inl (hs'.within.antisymm h1)
        · refine .inr ((hB.resolve_left hv1.ne).trans ?_)
          rw [pow_succ, mul_assoc]
          exact mul_le_mul_of_nonneg_left (by linarith) (by positivity)

/-- The first step, in multiples of the bound, and how many rounds of the bracketing phase it takes
from there to the bound. -/
theorem exists_first_alpha {m : K} (hm : 0 < m) {B : ℕ} (hB : m ≤ (7 / 5) ^ B) :
    ∃ w, put_in_range 0 ((13 / 20 : ℚ) * m) (if m < 0 then -1 else 1) = w * m ∧ 0 < w ∧ w ≤ 1 ∧
      1 ≤ (7 / 5) ^ (B + 2) * w := by
  have hone : (1 : K) ≤ (7 / 5) ^ B := one_le_pow₀ (by norm_num)
  have hpow : (7 / 5 : K) ^ (B + 2) = (7 / 5) ^ B * (49 / 25) := by
    rw [pow_add]
    norm_num
  simp only [put_in_range, Rat.cast_div, Rat.cast_ofNat]
  rw [if_neg hm.not_gt, if_pos (by linarith), if_neg (by norm_num), hpow]
  split
  case isTrue => exact ⟨13 / 20, rfl, by norm_num, by norm_num, by linarith⟩
  case isFalse hshort =>
    refine ⟨1 / m, (one_div_mul_cancel hm.ne').symm, by positivity, ?_, ?_⟩
    · rw [div_le_one hm]
      linarith
    · rw [mul_one_div, le_div_iff₀ hm, one_mul]
      linarith

/-- The search, where it uses up its rounds. -/
theorem line_search_around (M : Machine K) (hrho : 0 < l.rho) (hd : l.d0 < 0)
    (hthresh : l.thresh < -l.d0) (hf0 : l.f 0 = l.f0) {B : ℕ} (hB : l.mu ≤ (7 / 5) ^ B)
    (hiter : B + 3 ≤ l.max_iter) (hleft : (l.line_search M).left = 0) :
    (l.line_search M).f_value ≤ l.min_f ∨ l.conditions.Acceptable (l.line_search M).alpha ∨
      l.Around (l.line_search M).alpha ((9 / 10) ^ (l.max_iter - (B + 4)) * l.mu) := by
  have hmax : l.max_iter ≠ 0 := by omega
  unfold line_search at hleft ⊢
  split at hleft
  case isTrue => exact absurd hleft hmax
  case isFalse hslope =>
    split at hleft
    case isTrue => exact absurd hleft hmax
    case isFalse hbad =>
      rw [if_neg hslope, if_neg hbad]
      have hmin : l.min_f < l.f0 := not_le.1 hbad
      obtain ⟨w, halpha, hw0, hw1, hlong⟩ :=
        exists_first_alpha (pos_of_mul_neg_left (mu_downhill hrho hd.ne hmin) hd.le) hB
      have hstart : l.Climbs ⟨put_in_range 0 ((13 / 20 : ℚ) * l.mu) (if l.mu < 0 then -1 else 1),
          0, l.f0, l.d0⟩ 0 w := by
        refine ⟨(zero_mul _).symm, halpha, le_rfl, hw0, hw1, hf0.symm, ?_, ?_⟩
        · rw [hf0, line_eq, mul_zero, zero_mul, add_zero]
        · rw [measured, if_pos rfl]
          exact lt_neg_of_lt_neg hthresh
      have hnear := bracketing_around M hrho hd hmin hstart (.inr (by rwa [sub_zero]))
        (show B + 2 ≤ l.max_iter - 1 by omega) hleft
      have hrounds : l.max_iter - 1 - (B + 2 + 1) = l.max_iter - (B + 4) := by omega
      rwa [hrounds] at hnear

/-- Where the measurements are good enough, a range that is left contains an acceptable step. -/
theorem Around.exists_acceptable {l : Line ℝ} {f' : ℝ → ℝ} {alpha width tol : ℝ}
    (h : l.Around alpha width) (hrho : 0 < l.rho) (hd : l.d0 < 0)
    (hf : ∀ t ∈ Set.Icc 0 l.mu, HasDerivAt l.f (f' t) t) (hd0 : |l.d0 - f' 0| ≤ tol)
    (hder : ∀ t ∈ Set.Ioc 0 l.mu, |l.der t - f' t| ≤ tol)
    (htol : tol ≤ (l.sigma - l.rho) * |l.d0|) :
    ∃ t, (0 < t ∧ t ≤ l.mu) ∧ l.conditions.Acceptable t ∧ |alpha - t| ≤ width := by
  obtain ⟨a, b, hab, ha, hb, hmem, hwidth⟩ := h
  have hsub : Set.uIcc a b ⊆ Set.Icc 0 l.mu := Set.uIcc_subset_Icc ha hb
  have hmeasured : ∀ t ∈ Set.uIcc a b, |l.measured t - f' t| ≤ tol := by
    intro t ht
    rcases (hsub ht).1.eq_or_lt with h0 | hpos
    · rwa [measured, ← h0, if_pos rfl]
    · rw [measured_of_ne hpos.ne']
      exact hder t ⟨hpos, (hsub ht).2⟩
  have hgap : tol - l.rho * l.d0 ≤ l.thresh := by
    rw [abs_of_neg hd] at htol
    have hthresh : -(l.sigma * l.d0) ≤ l.thresh := neg_le_abs _
    linarith
  obtain ⟨t, ht, hgood⟩ := hab.exists_acceptable (fun t ht => hf t (hsub ht)) hmeasured
    (mul_nonpos_of_nonneg_of_nonpos hrho.le hd.le) hgap
  refine ⟨t, ⟨(le_min ha.1 hb.1).trans_lt ht.1, ht.2.le.trans (max_le ha.2 hb.2)⟩, hgood, ?_⟩
  rw [abs_sub_comm]
  refine (Set.abs_sub_le_of_uIcc_subset_uIcc ?_).trans hwidth
  exact Set.uIcc_subset_uIcc hmem (Set.Ioo_subset_Icc_self ht)

/-- **How far the search gets.** The value has a derivative within the bound, and it is measured, at
the start and along the line, up to an error that the two Wolfe conditions leave room for; and the
rounds are more than it takes to reach the bound by jumps that grow by two fifths. Then the search
ends at a value that is small enough, or returns at once for a negligible slope, or no step in reach
could make a difference, or there is a step that meets the Wolfe conditions as near to the one it
returns as its rounds allow. Only a machine that takes two different numbers for the same can also
get stuck. -/
theorem line_search_near (M : Machine ℝ) (l : Line ℝ) {f' : ℝ → ℝ} {tol : ℝ} {B : ℕ}
    (heps : 0 ≤ M.epsilon) (hrho : 0 < l.rho) (hsigma : l.rho < l.sigma) (hsigma1 : l.sigma < 1)
    (hd : l.d0 < 0) (hf0 : l.f 0 = l.f0) (hf : ∀ t ∈ Set.Icc 0 l.mu, HasDerivAt l.f (f' t) t)
    (hd0 : |l.d0 - f' 0| ≤ tol) (hder : ∀ t ∈ Set.Ioc 0 l.mu, |l.der t - f' t| ≤ tol)
    (htol : tol ≤ (l.sigma - l.rho) * |l.d0|) (hB : l.mu ≤ (7 / 5) ^ B)
    (hiter : B + 3 ≤ l.max_iter) :
    (l.line_search M).f_value ≤ l.min_f ∨
      (l.line_search M).alpha = 0 ∧ |l.d0| ≤ |l.f0| * M.epsilon ∨
      0 < (l.line_search M).alpha ∧ |(l.line_search M).alpha * l.d0| ≤ |l.f0| * M.epsilon ∨
      (l.line_search M).stuck = true ∧ ¬ M.Exact ∨
      ∃ t, (0 < t ∧ t ≤ l.mu) ∧ (l.f t ≤ l.f0 + l.rho * t * l.d0 ∧ |l.der t| ≤ l.thresh) ∧
        |(l.line_search M).alpha - t| ≤ (9 / 10) ^ (l.max_iter - (B + 4)) * l.mu := by
  rcases l.line_search_cases M heps hrho with
    ⟨-, h0, hvalue, hflat | hsmall⟩ | ⟨-, hmin, hsteps | hstuck⟩
  · exact .inr (.inl ⟨h0, hflat⟩)
  · exact .inl (hvalue ▸ hsmall)
  · have hmu : 0 < l.mu := pos_of_mul_neg_left (mu_downhill hrho hd.ne hmin) hd.le
    have hpos : 0 < (l.line_search M).alpha :=
      pos_of_mul_neg_left (hsteps.downhill hrho hd.ne hmin) hd.le
    have hle : (l.line_search M).alpha ≤ l.mu :=
      (le_abs_self _).trans (hsteps.abs_le.trans (abs_of_pos hmu).le)
    have hself : |(l.line_search M).alpha - (l.line_search M).alpha| ≤
        (9 / 10) ^ (l.max_iter - (B + 4)) * l.mu := by
      rw [sub_self, abs_zero]
      positivity
    rcases hsteps.reason with hsmall | hgood | hleft | hneg
    · exact .inl hsmall
    · rw [hsteps.value] at hgood
      exact .inr (.inr (.inr (.inr ⟨_, ⟨hpos, hle⟩, hgood, hself⟩)))
    · have hthresh : l.thresh < -l.d0 := by
        rw [thresh, abs_mul, abs_of_pos (hrho.trans hsigma), abs_of_neg hd]
        exact mul_lt_of_lt_one_left (neg_pos.2 hd) hsigma1
      rcases line_search_around M hrho hd hthresh hf0 hB hiter hleft with hsmall | hacc | haround
      · exact .inl hsmall
      · refine .inr (.inr (.inr (.inr ⟨_, ⟨hpos, hle⟩, ?_, hself⟩)))
        exact (acceptable_iff hpos.ne').1 hacc
      · obtain ⟨t, ht, hacc, hnear⟩ := haround.exists_acceptable hrho hd hf hd0 hder htol
        exact .inr (.inr (.inr (.inr ⟨t, ht, (acceptable_iff ht.1.ne').1 hacc, hnear⟩)))
    · exact .inr (.inr (.inl ⟨hpos, hneg⟩))
  · exact .inr (.inr (.inr (.inl ⟨hstuck.stopped, hstuck.not_exact⟩)))

/-- The parabola with its minimum at 3, on the real line. -/
noncomputable def realParabola : Line ℝ where
  f x := (x - (3 : ℚ)) ^ 2
  f0 := parabola.f0
  der x := (2 : ℚ) * (x - (3 : ℚ))
  d0 := parabola.d0
  rho := parabola.rho
  sigma := parabola.sigma
  min_f := parabola.min_f
  max_iter := parabola.max_iter

/-- A machine that computes exactly, with a square root. -/
noncomputable def exactReal : Machine ℝ :=
  ⟨0, Real.sqrt, fun _ => true, fun _ => true, fun x y => x = y⟩

/-- This machine tells all numbers apart. -/
theorem exactReal_exact : exactReal.Exact := fun _ _ h => of_decide_eq_true h

/-- The search on the parabola does not get stuck. -/
theorem line_search_near_parabola :
    (realParabola.line_search exactReal).f_value ≤ realParabola.min_f ∨
      (realParabola.line_search exactReal).alpha = 0 ∧
          |realParabola.d0| ≤ |realParabola.f0| * exactReal.epsilon ∨
      0 < (realParabola.line_search exactReal).alpha ∧
          |(realParabola.line_search exactReal).alpha * realParabola.d0| ≤
            |realParabola.f0| * exactReal.epsilon ∨
      ∃ t, (0 < t ∧ t ≤ realParabola.mu) ∧
        (realParabola.f t ≤ realParabola.f0 + realParabola.rho * t * realParabola.d0 ∧
          |realParabola.der t| ≤ realParabola.thresh) ∧
        |(realParabola.line_search exactReal).alpha - t| ≤
          (9 / 10) ^ (realParabola.max_iter - (16 + 4)) * realParabola.mu := by
  have hderiv : ∀ t : ℝ, HasDerivAt realParabola.f (2 * (t - 3)) t := by
    intro t
    have hpow := ((hasDerivAt_id t).sub_const ((3 : ℚ) : ℝ)).pow 2
    norm_num at hpow
    exact hpow
  have hnear := line_search_near exactReal realParabola (B := 16) le_rfl
    (by norm_num [realParabola, parabola])
    (by norm_num [realParabola, parabola]) (by norm_num [realParabola, parabola])
    (by norm_num [realParabola, parabola]) (by norm_num [realParabola, parabola])
    (fun t _ => hderiv t)
    (show |realParabola.d0 - 2 * (0 - 3)| ≤ 0 by norm_num [realParabola, parabola])
    (fun t _ => by norm_num [realParabola]) (by norm_num [realParabola, parabola])
    (by norm_num [mu, realParabola, parabola]) (by norm_num [realParabola, parabola])
  exact hnear.imp_right <| Or.imp_right <| Or.imp_right fun h =>
    h.resolve_left fun hstuck => hstuck.2 exactReal_exact

end Line

end Dlib

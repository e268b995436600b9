import Mathlib

/-!
# Ranges that contain an acceptable step

A search along a line wants a step at which the value is below a given line and the derivative is
small. `Brackets` is what a range has to meet for such a step to be inside: it starts at a good
value and steeply downhill, and its other end is no improvement. A point inside that is not
acceptable leaves a smaller range of the same kind, whatever is wrong with it, and a range of this
kind contains an acceptable step wherever the derivative is measured well enough.

A range goes from its better end `a` to its other end `b`, in either direction.
-/

namespace Wolfe

/-- What the steps are judged by: the value and the measured derivative along the line, the line of
sufficient decrease, and the bound of the curvature condition. -/
structure Conditions (K : Type) where
  f : K → K
  der : K → K
  f0 : K
  slope : K
  bound : K

variable {K : Type} [Field K] [LinearOrder K]

namespace Conditions

variable (c : Conditions K)

/-- The line of sufficient decrease. -/
def line (t : K) : K := c.f0 + c.slope * t

/-- The strong Wolfe conditions. -/
def Acceptable (t : K) : Prop := c.f t ≤ c.line t ∧ |c.der t| ≤ c.bound

/-- The range from `a` to `b` starts at a good value and steeply downhill, and does not end at a
better one. -/
structure Brackets (a b : K) : Prop where
  below : c.f a ≤ c.line a
  downhill : (b - a) * c.der a < 0
  steep : c.bound < |c.der a|
  rises : c.line b < c.f b ∨ c.f a ≤ c.f b

end Conditions

namespace Conditions.Brackets

variable [IsStrictOrderedRing K] {c : Conditions K} {a b w : K}

omit [IsStrictOrderedRing K] in
/-- A range has two ends. -/
theorem ne (h : c.Brackets a b) : a ≠ b := by
  rintro rfl
  simpa using h.downhill

/-- A point that is no improvement is the other end of a smaller range. -/
theorem keep (h : c.Brackets a b) (hw : 0 < w)
    (ht : c.line (a + w * (b - a)) < c.f (a + w * (b - a)) ∨ c.f a ≤ c.f (a + w * (b - a))) :
    c.Brackets a (a + w * (b - a)) := by
  refine ⟨h.below, ?_, h.steep, ht⟩
  rw [add_sub_cancel_left, mul_assoc]
  exact mul_neg_of_pos_of_neg hw h.downhill

/-- An improvement from which it goes downhill towards the other end is the better end of a smaller
range. -/
theorem advance (h : c.Brackets a b) (hw : w < 1)
    (hbelow : c.f (a + w * (b - a)) ≤ c.line (a + w * (b - a)))
    (hless : c.f (a + w * (b - a)) < c.f a) (hsteep : c.bound < |c.der (a + w * (b - a))|)
    (hdown : (b - a) * c.der (a + w * (b - a)) < 0) : c.Brackets (a + w * (b - a)) b := by
  refine ⟨hbelow, ?_, hsteep, h.rises.imp_right hless.le.trans⟩
  have hrest : b - (a + w * (b - a)) = (1 - w) * (b - a) := by ring
  rw [hrest, mul_assoc]
  exact mul_neg_of_pos_of_neg (sub_pos.2 hw) hdown

/-- An improvement from which it goes downhill back to the better end takes its place, and the
former is the other end. -/
theorem turn (hw : 0 < w) (hbound : 0 ≤ c.bound)
    (hbelow : c.f (a + w * (b - a)) ≤ c.line (a + w * (b - a)))
    (hless : c.f (a + w * (b - a)) < c.f a) (hsteep : c.bound < |c.der (a + w * (b - a))|)
    (hab : a ≠ b) (hup : 0 ≤ (b - a) * c.der (a + w * (b - a))) :
    c.Brackets (a + w * (b - a)) a := by
  refine ⟨hbelow, ?_, hsteep, .inr hless.le⟩
  have hder : c.der (a + w * (b - a)) ≠ 0 := abs_pos.1 (hbound.trans_lt hsteep)
  have hpos : 0 < (b - a) * c.der (a + w * (b - a)) :=
    lt_of_le_of_ne hup (mul_ne_zero (sub_ne_zero.2 hab.symm) hder).symm
  have hback : a - (a + w * (b - a)) = -(w * (b - a)) := by ring
  rw [hback, neg_mul, mul_assoc, neg_lt_zero]
  exact mul_pos hw hpos

end Conditions.Brackets

/-! ## The step inside -/

/-- A function that goes downhill from `a` towards `b`, and is not smaller at `b`, is stationary at
a point between them, with a smaller value. -/
theorem exists_stationary {g g' : ℝ → ℝ} {a b : ℝ}
    (hg : ∀ t ∈ Set.uIcc a b, HasDerivAt g (g' t) t) (hdown : (b - a) * g' a < 0)
    (hle : g a ≤ g b) : ∃ t ∈ Set.uIoo a b, g t < g a ∧ g' t = 0 := by
  obtain ⟨t, ht, hmin⟩ := isCompact_uIcc.exists_isMinOn Set.nonempty_uIcc fun t ht =>
    (hg t ht).continuousAt.continuousWithinAt
  have hcone : b - a ∈ posTangentConeAt (Set.uIcc a b) a :=
    sub_mem_posTangentConeAt_of_segment_subset (segment_eq_uIcc a b).subset
  -- the minimum is not at `a`, where the function goes downhill
  have hless : g t < g a := by
    refine lt_of_le_of_ne (hmin Set.left_mem_uIcc) fun heq => hdown.not_ge ?_
    have hmina : IsMinOn g (Set.uIcc a b) a := fun x hx => heq.ge.trans (hmin hx)
    have hder := (hg a Set.left_mem_uIcc).hasFDerivAt.hasFDerivWithinAt (s := Set.uIcc a b)
    simpa using hmina.localize.hasFDerivWithinAt_nonneg hder hcone
  have hta : t ≠ a := fun h => hless.ne (congrArg g h)
  have htb : t ≠ b := fun h => (hless.trans_le hle).ne (congrArg g h)
  have hmem : t ∈ Set.uIoo a b := by
    refine ⟨lt_of_le_of_ne ht.1 ?_, lt_of_le_of_ne ht.2 ?_⟩
    · rcases min_choice a b with h | h <;> simp only [h, ne_eq] <;> grind
    · rcases max_choice a b with h | h <;> simp only [h, ne_eq] <;> grind
  have hnhds : Set.uIcc a b ∈ nhds t := Icc_mem_nhds hmem.1 hmem.2
  exact ⟨t, hmem, hless, (hmin.isLocalMin hnhds).hasDerivAt_eq_zero (hg t ht)⟩

/-- The slope that the values on the range are compared with: away from the start that of the line
of sufficient decrease, towards the start none. At the better end the derivative is below it, in the
direction of the range. -/
theorem Conditions.Brackets.exists_slope [IsStrictOrderedRing K] {c : Conditions K}
    {a b d tol : K} (h : c.Brackets a b) (hclose : |c.der a - d| ≤ tol) (hslope : c.slope ≤ 0)
    (hgap : tol - c.slope ≤ c.bound) :
    ∃ m, c.slope ≤ m ∧ m ≤ 0 ∧ m * (b - a) ≤ 0 ∧ (b - a) * (d - m) < 0 ∧
      ∀ t ∈ Set.uIcc a b, m * (t - a) ≤ c.slope * (t - a) := by
  have hdown := h.downhill
  have hsteep := h.steep
  obtain ⟨hlow, hhigh⟩ := abs_le.1 hclose
  rcases lt_or_gt_of_ne h.ne with hab | hab
  · have hneg : c.der a < 0 := neg_of_mul_neg_right hdown (sub_pos.2 hab).le
    rw [abs_of_neg hneg] at hsteep
    refine ⟨c.slope, le_rfl, hslope, ?_, ?_, fun t _ => le_rfl⟩
    · exact mul_nonpos_of_nonpos_of_nonneg hslope (sub_pos.2 hab).le
    · exact mul_neg_of_pos_of_neg (sub_pos.2 hab) (by linarith)
  · have hpos : 0 < c.der a := pos_of_mul_neg_right hdown (sub_neg.2 hab).le
    rw [abs_of_pos hpos] at hsteep
    refine ⟨0, hslope, le_rfl, (zero_mul _).le, ?_, fun t ht => ?_⟩
    · exact mul_neg_of_neg_of_pos (sub_neg.2 hab) (by linarith)
    · rw [Set.uIcc_of_ge hab.le] at ht
      rw [zero_mul]
      exact mul_nonneg_of_nonpos_of_nonpos hslope (sub_nonpos.2 ht.2)

/-- **The step inside.** The value has a derivative on the range, and it is measured up to an error
that the bound of the curvature condition has room for, next to the slope of the line of sufficient
decrease: the range contains an acceptable step. -/
theorem Conditions.Brackets.exists_acceptable {c : Conditions ℝ} {f' : ℝ → ℝ} {a b tol : ℝ}
    (h : c.Brackets a b) (hf : ∀ t ∈ Set.uIcc a b, HasDerivAt c.f (f' t) t)
    (htol : ∀ t ∈ Set.uIcc a b, |c.der t - f' t| ≤ tol) (hslope : c.slope ≤ 0)
    (hgap : tol - c.slope ≤ c.bound) : ∃ t ∈ Set.uIoo a b, c.Acceptable t := by
  obtain ⟨m, hcm, hm0, hmb, hmdown, hmle⟩ :=
    h.exists_slope (htol a Set.left_mem_uIcc) hslope hgap
  have hline : ∀ t, c.line t = c.line a + c.slope * (t - a) := by
    intro t
    rw [Conditions.line, Conditions.line]
    ring
  have hstart := h.below
  -- the other end is no improvement, whichever of the two it is compared by
  have hend : c.f a - m * a ≤ c.f b - m * b := by
    have hb := hmle b Set.right_mem_uIcc
    rcases h.rises with hrises | hrises
    · rw [hline b] at hrises
      linarith
    · linarith
  have hderiv : ∀ t ∈ Set.uIcc a b, HasDerivAt (fun t => c.f t - m * t) (f' t - m) t := by
    intro t ht
    have hmul : HasDerivAt (fun t => m * t) m t := by
      simpa using (hasDerivAt_id t).const_mul m
    exact (hf t ht).sub hmul
  obtain ⟨t, ht, hless, hder⟩ := exists_stationary hderiv hmdown hend
  have hmem : t ∈ Set.uIcc a b := Set.Ioo_subset_Icc_self ht
  refine ⟨t, ht, ?_, ?_⟩
  · have hdrop := hmle t hmem
    rw [hline t]
    linarith
  · obtain ⟨hlow, hhigh⟩ := abs_le.1 (htol t hmem)
    rw [abs_le]
    constructor <;> linarith

end Wolfe

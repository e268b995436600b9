import Mathlib.Algebra.Order.Field.Basic
import Mathlib.Tactic.FieldSimp
import Mathlib.Tactic.LinearCombination
import Mathlib.Tactic.Linarith
import Mathlib.Tactic.Positivity
import Mathlib.Tactic.Ring

/-!
# Points of the plane and their distances

A point that is measured from the points of a set `S` is known by its distances to them. It is
determined by them exactly if no line goes through all of `S` and misses it
(`determined_iff_not_missed`): such a line has a mirror image of the point at the same distances,
and the points at the same distance from two points are on a line that misses both.

Distances are squared, so that this is about any ordered field.
-/

namespace Plane

variable {K : Type*} [Field K] [LinearOrder K] [IsStrictOrderedRing K]

/-- The squared distance of two points. -/
def sqDist (p q : K × K) : K := (p.1 - q.1) ^ 2 + (p.2 - q.2) ^ 2

/-- No distance is negative. -/
theorem sqDist_nonneg (p q : K × K) : 0 ≤ sqDist p q := by
  unfold sqDist
  positivity

/-- No other point has the same distances to the points of `S`. -/
def Determined (S : Set (K × K)) (p : K × K) : Prop :=
  ∀ q, (∀ r ∈ S, sqDist q r = sqDist p r) → q = p

/-- A line goes through the points of `S` and misses `p`. -/
def Missed (S : Set (K × K)) (p : K × K) : Prop :=
  ∃ a b c : K, (∀ r ∈ S, a * r.1 + b * r.2 = c) ∧ a * p.1 + b * p.2 ≠ c ∧ (a ≠ 0 ∨ b ≠ 0)

/-- The mirror image of `p` in the line `a x + b y = c`. -/
def mirror (a b c : K) (p : K × K) : K × K :=
  let t := (a * p.1 + b * p.2 - c) / (a ^ 2 + b ^ 2)
  (p.1 - (t + t) * a, p.2 - (t + t) * b)

variable {a b c : K} {p q r : K × K} {S : Set (K × K)}

/-- The normal of a line is not zero. -/
theorem norm_pos (hab : a ≠ 0 ∨ b ≠ 0) : 0 < a ^ 2 + b ^ 2 := by
  rcases hab with ha | hb
  · have : 0 < a ^ 2 := by positivity
    positivity
  · have : 0 < b ^ 2 := by positivity
    positivity

/-- The mirror image is at the same distance from the points of the line. -/
theorem sqDist_mirror (hab : a ≠ 0 ∨ b ≠ 0) (hr : a * r.1 + b * r.2 = c) :
    sqDist (mirror a b c p) r = sqDist p r := by
  have hpos := (norm_pos hab).ne'
  rw [sqDist, sqDist, mirror, ← hr]
  field_simp
  ring

/-- Only the points of the line are their own mirror image. -/
theorem mirror_ne (hab : a ≠ 0 ∨ b ≠ 0) (hp : a * p.1 + b * p.2 ≠ c) : mirror a b c p ≠ p := by
  intro h
  have ht : (a * p.1 + b * p.2 - c) / (a ^ 2 + b ^ 2) + (a * p.1 + b * p.2 - c) / (a ^ 2 + b ^ 2) ≠
      0 := by
    rw [← two_mul]
    exact mul_ne_zero two_ne_zero (div_ne_zero (sub_ne_zero.2 hp) (norm_pos hab).ne')
  rcases hab with ha | hb
  · have h1 : p.1 - _ * a = p.1 := congrArg Prod.fst h
    exact mul_ne_zero ht ha (sub_eq_self.1 h1)
  · have h2 : p.2 - _ * b = p.2 := congrArg Prod.snd h
    exact mul_ne_zero ht hb (sub_eq_self.1 h2)

omit [LinearOrder K] [IsStrictOrderedRing K] in
/-- A point at the same distance from two points is on the line between them. -/
theorem on_bisector (h : sqDist q r = sqDist p r) :
    2 * (q.1 - p.1) * r.1 + 2 * (q.2 - p.2) * r.2 = q.1 ^ 2 + q.2 ^ 2 - p.1 ^ 2 - p.2 ^ 2 := by
  unfold sqDist at h
  linear_combination -h

/-- **Measured points.** The distances to the points of `S` determine a point exactly if no line
goes through all of `S` and misses the point. -/
theorem determined_iff_not_missed : Determined S p ↔ ¬ Missed S p := by
  constructor
  · rintro hp ⟨a, b, c, hS, hmiss, hab⟩
    exact mirror_ne hab hmiss (hp _ fun r hr => sqDist_mirror hab (hS r hr))
  · intro hp q hq
    by_contra hne
    have hpos : 0 < (q.1 - p.1) ^ 2 + (q.2 - p.2) ^ 2 := by
      refine norm_pos ?_
      by_contra h0
      push Not at h0
      exact hne (Prod.ext (sub_eq_zero.1 h0.1) (sub_eq_zero.1 h0.2))
    refine hp ⟨_, _, _, fun r hr => on_bisector (hq r hr), fun h => ?_, ?_⟩
    · have hzero : (q.1 - p.1) ^ 2 + (q.2 - p.2) ^ 2 = 0 := by linear_combination -h
      exact hpos.ne' hzero
    · by_contra h0
      push Not at h0
      have h1 : q.1 - p.1 = 0 := by linarith [h0.1]
      have h2 : q.2 - p.2 = 0 := by linarith [h0.2]
      rw [h1, h2] at hpos
      simp at hpos

end Plane

import DetectionSystem.Lib.Segment
import DetectionSystem.Server.CoverageArea

/-!
# Segments on the integer grid

On integer points `orientation` loses nothing: the cross product is an integer, so that its
truncation is exact, and up to coordinates of `INF` it fits in an `int` (`cross_fits`). So
`doIntersect` is the test of `Segment.meet_iff` and holds exactly where the two segments have a
common point, whether they cross, touch, overlap or are single points.
-/

open EvenOdd Segment

namespace DetectionSystem

namespace CoverageArea

/-- The values of `orientation`, by the side of the line. -/
def side : SignType → ℕ
  | .zero => 0
  | .neg => 1
  | .pos => 2

/-- The three orientations are the three signs. -/
theorem side_injective : Function.Injective side := by
  intro s t
  cases s <;> cases t <;> decide

/-- The determinant of the code is the area with the sign turned. -/
theorem cross_eq_area (p q r : Point ℚ) : cross p q r = -area p q r := by
  unfold cross area
  ring

/-- The cross product of integer points is an integer. -/
theorem cross_vertex (p q r : ℤ × ℤ) :
    cross (vertex p) (vertex q) (vertex r) =
      (((q.2 - p.2) * (r.1 - q.1) - (q.1 - p.1) * (r.2 - q.2) : ℤ) : ℚ) := by
  simp only [cross, vertex]
  push_cast
  rfl

/-- Its sign is all that is lost. -/
theorem orientation_eq_side (p q r : ℤ × ℤ) :
    orientation (vertex p) (vertex q) (vertex r) =
      side (SignType.sign (area (vertex p) (vertex q) (vertex r))) := by
  obtain ⟨n, hn⟩ : ∃ n : ℤ, cross (vertex p) (vertex q) (vertex r) = n := ⟨_, cross_vertex p q r⟩
  have harea : area (vertex p) (vertex q) (vertex r) = -(n : ℚ) := by
    rw [← hn, cross_eq_area, neg_neg]
  rw [harea]
  rcases lt_trichotomy n 0 with hneg | rfl | hpos
  · have hle : (n : ℚ) ≤ -1 := by exact_mod_cast Int.le_sub_one_of_lt hneg
    rw [orientation_eq_two.2 (hn ▸ hle), sign_pos (by linarith)]
    rfl
  · rw [orientation_eq_zero.2 (by rw [hn]; simp), Int.cast_zero, neg_zero, sign_zero]
    rfl
  · have hle : (1 : ℚ) ≤ n := by exact_mod_cast hpos
    rw [orientation_eq_one.2 (hn ▸ hle), sign_neg (by linarith)]
    rfl

/-- The coordinates of a point are at most `INF` in absolute value. -/
def OnGrid (v : ℤ × ℤ) : Prop := |v.1| ≤ 10000 ∧ |v.2| ≤ 10000

/-- On the grid the conversion of the cross product neither truncates nor overflows. -/
theorem cross_fits {p q r : ℤ × ℤ} (hp : OnGrid p) (hq : OnGrid q) (hr : OnGrid r) :
    ∃ n : ℤ, cross (vertex p) (vertex q) (vertex r) = n ∧
      toInt (cross (vertex p) (vertex q) (vertex r)) = n ∧ |n| < 2 ^ 31 := by
  rw [cross_vertex]
  refine ⟨_, rfl, by simp only [toInt, Int.floor_intCast, Int.ceil_intCast, ite_self], ?_⟩
  have hmul : ∀ {a b c d : ℤ}, |a| ≤ 10000 → |b| ≤ 10000 → |c| ≤ 10000 → |d| ≤ 10000 →
      |(a - b) * (c - d)| ≤ 20000 * 20000 := by
    intro a b c d ha hb hc hd
    rw [abs_mul]
    exact mul_le_mul ((abs_sub a b).trans (by omega)) ((abs_sub c d).trans (by omega))
      (abs_nonneg _) (by norm_num)
  have hl := hmul hq.2 hp.2 hr.1 hq.1
  have hr := hmul hq.1 hp.1 hr.2 hq.2
  exact (abs_sub _ _).trans_lt (by omega)

/-- **Intersection on the grid.** For all integer points, `doIntersect` tells whether the two closed
segments have a common point. -/
theorem doIntersect_iff_meet (p1 q1 p2 q2 : ℤ × ℤ) :
    doIntersect (vertex p1) (vertex q1) (vertex p2) (vertex q2) = true ↔
      Meet (vertex p1, vertex q1) (vertex p2, vertex q2) := by
  have hzero : ∀ p q r : ℤ × ℤ, orientation (vertex p) (vertex q) (vertex r) = 0 ↔
      area (vertex p) (vertex q) (vertex r) = 0 := by
    intro p q r
    rw [orientation_eq_side]
    exact (side_injective.eq_iff' rfl).trans sign_eq_zero_iff
  rw [doIntersect_iff, meet_iff, hzero, hzero, hzero, hzero, orientation_eq_side,
    orientation_eq_side, orientation_eq_side, orientation_eq_side, Ne, Ne, side_injective.eq_iff,
    side_injective.eq_iff, onSegment_iff, onSegment_iff, onSegment_iff, onSegment_iff]
  rfl

end CoverageArea

end DetectionSystem

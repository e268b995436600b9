import DetectionSystem.Lib.EvenOdd
import Mathlib.Algebra.Order.Field.Basic
import Mathlib.Data.Sign.Basic
import Mathlib.Tactic.FieldSimp
import Mathlib.Tactic.Linarith
import Mathlib.Tactic.LinearCombination
import Mathlib.Tactic.Ring

/-!
# Closed segments that meet

When two closed segments of the plane have a common point, over any ordered field. The areas that
two points span with a third tell on which side of their line it is (`area`). `meet_iff` is the test
by four such areas: the ends of either segment are not on the same side of the other one's line, or
an end of one is on the other, for which a zero area and a box are enough (`onEdge_iff`). It holds
for segments that are collinear or single points as well.
-/

open EvenOdd

namespace Segment

variable {K : Type*} [Field K] [LinearOrder K]

/-- Twice the signed area of a triangle, which is positive if `c` is on the left of the way from `a`
to `b` and zero if it is on their line. -/
def area (a b c : Point K) : K := (b.x - a.x) * (c.y - a.y) - (b.y - a.y) * (c.x - a.x)

/-- The point `c` is in the box that two points span. -/
def InBox (a b c : Point K) : Prop :=
  (c.x ≤ max a.x b.x ∧ min a.x b.x ≤ c.x) ∧ c.y ≤ max a.y b.y ∧ min a.y b.y ≤ c.y

/-- Two closed segments have a common point. -/
def Meet (e f : Point K × Point K) : Prop := ∃ p, OnEdge e p ∧ OnEdge f p

variable {a b c d p : Point K}

omit [LinearOrder K] in
/-- The area is affine in the third point. -/
theorem area_ratio {u : K} (hx : p.x = c.x + u * (d.x - c.x)) (hy : p.y = c.y + u * (d.y - c.y)) :
    area a b p = area a b c + u * (area a b d - area a b c) := by
  rw [area, area, area, hx, hy]
  ring

variable [IsStrictOrderedRing K]

/-! ## One segment -/

/-- A number between two different ones is a proportion of the way. -/
theorem exists_ratio {u v w : K} (hne : u ≠ v) (hbox : w ≤ max u v ∧ min u v ≤ w) :
    ∃ t, 0 ≤ t ∧ t ≤ 1 ∧ w = u + t * (v - u) := by
  have heq : w = u + (w - u) / (v - u) * (v - u) := by
    rw [div_mul_cancel₀ _ (sub_ne_zero.2 hne.symm)]
    ring
  rcases lt_or_gt_of_ne hne with hlt | hlt
  · rw [max_eq_right hlt.le, min_eq_left hlt.le] at hbox
    have hpos := sub_pos.2 hlt
    exact ⟨_, div_nonneg (by linarith) hpos.le, (div_le_one hpos).2 (by linarith), heq⟩
  · rw [max_eq_left hlt.le, min_eq_right hlt.le] at hbox
    have hneg := sub_neg.2 hlt
    exact ⟨_, div_nonneg_of_nonpos (by linarith) hneg.le, (div_le_one_of_neg hneg).2 (by linarith),
      heq⟩

/-- A proportion of the way is between the ends. -/
theorem between_of_ratio {u v t : K} (h0 : 0 ≤ t) (h1 : t ≤ 1) :
    u + t * (v - u) ≤ max u v ∧ min u v ≤ u + t * (v - u) := by
  have hconvex : u + t * (v - u) = (1 - t) * u + t * v := by ring
  rw [hconvex]
  have h1' : 0 ≤ 1 - t := sub_nonneg.2 h1
  refine ⟨?_, ?_⟩
  · calc (1 - t) * u + t * v ≤ (1 - t) * max u v + t * max u v := by
          gcongr
          · exact le_max_left u v
          · exact le_max_right u v
      _ = max u v := by ring
  · calc min u v = (1 - t) * min u v + t * min u v := by ring
      _ ≤ (1 - t) * u + t * v := by
          gcongr
          · exact min_le_left u v
          · exact min_le_right u v

/-- A point of the line of two different points is a proportion of the way. -/
theorem exists_ratio_of_area (hne : a ≠ b) (h : area a b c = 0) :
    ∃ t, c.x = a.x + t * (b.x - a.x) ∧ c.y = a.y + t * (b.y - a.y) := by
  have harea : (b.x - a.x) * (c.y - a.y) = (b.y - a.y) * (c.x - a.x) := sub_eq_zero.1 h
  by_cases hx : b.x - a.x = 0
  · have hy : b.y - a.y ≠ 0 := fun hy =>
      hne (Point.ext (sub_eq_zero.1 hx).symm (sub_eq_zero.1 hy).symm)
    rw [hx, zero_mul] at harea
    have hcx : c.x - a.x = 0 := (mul_eq_zero.1 harea.symm).resolve_left hy
    refine ⟨(c.y - a.y) / (b.y - a.y), ?_, ?_⟩
    · rw [hx, mul_zero, add_zero]
      exact sub_eq_zero.1 hcx
    · rw [div_mul_cancel₀ _ hy]
      ring
  · refine ⟨(c.x - a.x) / (b.x - a.x), ?_, ?_⟩
    · rw [div_mul_cancel₀ _ hx]
      ring
    · field_simp
      linear_combination harea

/-- **One segment.** A point is on a segment if and only if it is on its line and in its box. -/
theorem onEdge_iff : OnEdge (a, b) c ↔ area a b c = 0 ∧ InBox a b c := by
  refine ⟨?_, ?_⟩
  · rintro ⟨t, h0, h1, hx, hy⟩
    refine ⟨?_, ?_, ?_⟩
    · rw [area, hx, hy]
      ring
    · rw [hx]
      exact between_of_ratio h0 h1
    · rw [hy]
      exact between_of_ratio h0 h1
  · rintro ⟨harea, hbox⟩
    by_cases hab : a = b
    · subst hab
      refine ⟨0, le_rfl, zero_le_one, ?_, ?_⟩
      · rw [zero_mul, add_zero]
        exact le_antisymm (by simpa using hbox.1.1) (by simpa using hbox.1.2)
      · rw [zero_mul, add_zero]
        exact le_antisymm (by simpa using hbox.2.1) (by simpa using hbox.2.2)
    · obtain ⟨t, hx, hy⟩ := exists_ratio_of_area hab harea
      -- the proportion is the one in a coordinate in which the ends differ
      have hratio : 0 ≤ t ∧ t ≤ 1 := by
        by_cases hx' : a.x = b.x
        · have hy' : a.y ≠ b.y := fun h => hab (Point.ext hx' h)
          obtain ⟨s, hs0, hs1, hs⟩ := exists_ratio hy' hbox.2
          have heq : t = s := mul_right_cancel₀ (sub_ne_zero.2 hy'.symm) (by linarith)
          exact heq ▸ ⟨hs0, hs1⟩
        · obtain ⟨s, hs0, hs1, hs⟩ := exists_ratio hx' hbox.1
          have heq : t = s := mul_right_cancel₀ (sub_ne_zero.2 (Ne.symm hx')) (by linarith)
          exact heq ▸ ⟨hs0, hs1⟩
      exact ⟨t, hratio.1, hratio.2, hx, hy⟩

/-! ## Two segments -/

/-- Where two numbers differ in sign, zero is a proportion of the way. -/
theorem ratio_of_sign_ne {s t : K} (h : SignType.sign s ≠ SignType.sign t) :
    s - t ≠ 0 ∧ 0 ≤ s / (s - t) ∧ s / (s - t) ≤ 1 := by
  have hne : s - t ≠ 0 := fun heq => h (by rw [sub_eq_zero.1 heq])
  refine ⟨hne, ?_⟩
  rcases lt_or_gt_of_ne hne with hlt | hlt
  · have ht : 0 ≤ t := by
      by_contra hneg
      rw [not_le] at hneg
      exact h (by rw [sign_neg hneg, sign_neg (by linarith)])
    have hs : s ≤ 0 := by
      by_contra hpos
      rw [not_le] at hpos
      exact h (by rw [sign_pos hpos, sign_pos (by linarith)])
    exact ⟨div_nonneg_of_nonpos hs hlt.le, (div_le_one_of_neg hlt).2 (by linarith)⟩
  · have hs : 0 ≤ s := by
      by_contra hneg
      rw [not_le] at hneg
      exact h (by rw [sign_neg hneg, sign_neg (by linarith)])
    have ht : t ≤ 0 := by
      by_contra hpos
      rw [not_le] at hpos
      exact h (by rw [sign_pos hpos, sign_pos (by linarith)])
    exact ⟨div_nonneg hs hlt.le, (div_le_one hlt).2 (by linarith)⟩

/-- Where two numbers agree in sign, zero is a proportion of the way only if both are zero. -/
theorem eq_zero_of_sign_eq {s t u : K} (h0 : 0 ≤ u) (h1 : u ≤ 1) (hzero : s + u * (t - s) = 0)
    (h : SignType.sign s = SignType.sign t) : s = 0 ∧ t = 0 := by
  obtain ⟨hmax, hmin⟩ := between_of_ratio (u := s) (v := t) h0 h1
  rw [hzero] at hmax hmin
  rcases lt_trichotomy s 0 with hs | rfl | hs
  · have ht : t < 0 := sign_eq_neg_one_iff.1 (h ▸ sign_neg hs)
    exact absurd hmax (not_le.2 (max_lt hs ht))
  · exact ⟨rfl, sign_eq_zero_iff.1 (by rw [← h, sign_zero])⟩
  · have ht : 0 < t := sign_eq_one_iff.1 (h ▸ sign_pos hs)
    exact absurd hmin (not_le.2 (lt_min hs ht))

/-- The ends of a segment on one side of a line that it meets are on the line. -/
theorem area_eq_zero_of_sign_eq (hp : OnEdge (a, b) p) (hp' : OnEdge (c, d) p)
    (h : SignType.sign (area a b c) = SignType.sign (area a b d)) :
    area a b c = 0 ∧ area a b d = 0 := by
  obtain ⟨u, hu0, hu1, hx, hy⟩ := hp'
  refine eq_zero_of_sign_eq hu0 hu1 ?_ h
  rw [← area_ratio hx hy]
  exact (onEdge_iff.1 hp).1

/-- The ends of either segment are not on the same side of the other one's line: the lines meet in
both segments. -/
theorem meet_of_sign_ne (h : SignType.sign (area a b c) ≠ SignType.sign (area a b d))
    (h' : SignType.sign (area c d a) ≠ SignType.sign (area c d b)) : Meet (a, b) (c, d) := by
  obtain ⟨hne, hu0, hu1⟩ := ratio_of_sign_ne h
  obtain ⟨hne', ht0, ht1⟩ := ratio_of_sign_ne h'
  refine ⟨⟨c.x + area a b c / (area a b c - area a b d) * (d.x - c.x),
    c.y + area a b c / (area a b c - area a b d) * (d.y - c.y)⟩,
    ⟨area c d a / (area c d a - area c d b), ht0, ht1, ?_, ?_⟩, ⟨_, hu0, hu1, rfl, rfl⟩⟩
  · have hdet : area c d a - area c d b = -(area a b c - area a b d) := by
      simp only [area]
      ring
    rw [hdet]
    field_simp
    simp only [area]
    ring
  · have hdet : area c d a - area c d b = -(area a b c - area a b d) := by
      simp only [area]
      ring
    rw [hdet]
    field_simp
    simp only [area]
    ring

/-- Two segments of one line that meet, or a point on a segment: an end of one is on the other. -/
theorem end_of_area_eq_zero (hc : area a b c = 0) (hd : area a b d = 0) (hp : OnEdge (a, b) p)
    (hp' : OnEdge (c, d) p) : OnEdge (a, b) c ∨ OnEdge (a, b) d ∨ OnEdge (c, d) a := by
  by_cases hab : a = b
  · subst hab
    obtain ⟨t, -, -, hx, hy⟩ := hp
    have heq : p = a := Point.ext (by rw [hx, sub_self, mul_zero, add_zero])
      (by rw [hy, sub_self, mul_zero, add_zero])
    exact .inr (.inr (heq ▸ hp'))
  obtain ⟨γ, hcx, hcy⟩ := exists_ratio_of_area hab hc
  obtain ⟨δ, hdx, hdy⟩ := exists_ratio_of_area hab hd
  obtain ⟨t, ht0, ht1, hpx, hpy⟩ := hp
  obtain ⟨u, hu0, hu1, hpx', hpy'⟩ := hp'
  dsimp only at hpx hpy hpx' hpy'
  have ht : t = γ + u * (δ - γ) := by
    have hx : (t - (γ + u * (δ - γ))) * (b.x - a.x) = 0 := by
      rw [hcx, hdx] at hpx'
      linear_combination hpx' - hpx
    have hy : (t - (γ + u * (δ - γ))) * (b.y - a.y) = 0 := by
      rw [hcy, hdy] at hpy'
      linear_combination hpy' - hpy
    by_contra hne
    have hne' := sub_ne_zero.2 hne
    exact hab (Point.ext (sub_eq_zero.1 ((mul_eq_zero.1 hx).resolve_left hne')).symm
      (sub_eq_zero.1 ((mul_eq_zero.1 hy).resolve_left hne')).symm)
  by_cases hγ : 0 ≤ γ ∧ γ ≤ 1
  · exact .inl ⟨γ, hγ.1, hγ.2, hcx, hcy⟩
  by_cases hδ : 0 ≤ δ ∧ δ ≤ 1
  · exact .inr (.inl ⟨δ, hδ.1, hδ.2, hdx, hdy⟩)
  -- both ends are outside, on different sides, as the common point is between them
  have hsign : SignType.sign γ ≠ SignType.sign δ := by
    intro hsign
    rcases lt_trichotomy γ 0 with hneg | hzero | hpos
    · have hneg' : δ < 0 := sign_eq_neg_one_iff.1 (hsign ▸ sign_neg hneg)
      have hle := (between_of_ratio (u := γ) (v := δ) hu0 hu1).1
      rw [← ht] at hle
      exact absurd ht0 (not_le.2 (hle.trans_lt (max_lt hneg hneg')))
    · exact hγ ⟨hzero.ge, hzero.le.trans zero_le_one⟩
    · have hpos' : 0 < δ := sign_eq_one_iff.1 (hsign ▸ sign_pos hpos)
      have hle := (between_of_ratio (u := γ) (v := δ) hu0 hu1).2
      rw [← ht] at hle
      have hγ1 : 1 < γ := not_le.1 fun h => hγ ⟨hpos.le, h⟩
      have hδ1 : 1 < δ := not_le.1 fun h => hδ ⟨hpos'.le, h⟩
      exact absurd ht1 (not_le.2 ((lt_min hγ1 hδ1).trans_le hle))
  obtain ⟨hne, hw0, hw1⟩ := ratio_of_sign_ne hsign
  refine .inr (.inr ⟨γ / (γ - δ), hw0, hw1, ?_, ?_⟩)
  · dsimp only
    rw [hcx, hdx]
    field_simp
    ring
  · dsimp only
    rw [hcy, hdy]
    field_simp
    ring

/-- **Two segments.** Two closed segments meet if and only if the ends of neither are on the same
side of the other one's line, or an end of one is on the line and in the box of the other. -/
theorem meet_iff : Meet (a, b) (c, d) ↔
    (SignType.sign (area a b c) ≠ SignType.sign (area a b d) ∧
      SignType.sign (area c d a) ≠ SignType.sign (area c d b)) ∨
    (area a b c = 0 ∧ InBox a b c) ∨ (area a b d = 0 ∧ InBox a b d) ∨
    (area c d a = 0 ∧ InBox c d a) ∨ (area c d b = 0 ∧ InBox c d b) := by
  simp only [← onEdge_iff]
  refine ⟨?_, ?_⟩
  · rintro ⟨p, hp, hp'⟩
    by_cases hsign : SignType.sign (area a b c) = SignType.sign (area a b d)
    · obtain ⟨hc, hd⟩ := area_eq_zero_of_sign_eq hp hp' hsign
      rcases end_of_area_eq_zero hc hd hp hp' with h | h | h
      · exact .inr (.inl h)
      · exact .inr (.inr (.inl h))
      · exact .inr (.inr (.inr (.inl h)))
    by_cases hsign' : SignType.sign (area c d a) = SignType.sign (area c d b)
    · obtain ⟨ha, hb⟩ := area_eq_zero_of_sign_eq hp' hp hsign'
      rcases end_of_area_eq_zero ha hb hp' hp with h | h | h
      · exact .inr (.inr (.inr (.inl h)))
      · exact .inr (.inr (.inr (.inr h)))
      · exact .inr (.inl h)
    exact .inl ⟨hsign, hsign'⟩
  · rintro (⟨h, h'⟩ | h | h | h | h)
    · exact meet_of_sign_ne h h'
    · exact ⟨c, h, 0, le_rfl, zero_le_one, by simp, by simp⟩
    · exact ⟨d, h, 1, zero_le_one, le_rfl, by simp, by simp⟩
    · exact ⟨a, ⟨0, le_rfl, zero_le_one, by simp, by simp⟩, h⟩
    · exact ⟨b, ⟨1, zero_le_one, le_rfl, by simp, by simp⟩, h⟩

end Segment

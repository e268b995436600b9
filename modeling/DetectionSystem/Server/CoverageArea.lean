import DetectionSystem.Lib.EvenOdd
import DetectionSystem.Server.Database
import Mathlib.Algebra.Order.Floor.Ring
import Mathlib.Data.Finset.Sort
import Mathlib.Data.Prod.Lex
import Mathlib.Data.Rat.Floor
import Mathlib.Tactic.FieldSimp
import Mathlib.Tactic.Linarith
import Mathlib.Tactic.LinearCombination
import Mathlib.Tactic.Positivity

/-!
# The coverage area

`CoverageArea` is the polygon of the positions of the receivers, and `isInside` casts a ray from a
point to `INF` and counts the edges it intersects. Three things tell it from the even-odd rule. It
counts an edge whose end lies on the ray at either end. It truncates the cross product before it
looks at its sign, so that a point near the line of an edge is taken to lie on it. And it returns
at the first such edge it meets, with the answer whether the point is in the edge's bounding box.

`doIntersect_iff_crosses` is what holds away from these cases, and `isInside_iff_member` says how
they add up: where the loop runs to its end, the edges counted wrongly have to be even in number.
-/

open EvenOdd

namespace DetectionSystem

namespace CoverageArea

/-! ## The functions -/

/-- A point on the right of every receiver. -/
def INF : ℚ := 10000

/-- The position of a receiver. -/
def vertex (v : ℤ × ℤ) : Point ℚ := ⟨v.1, v.2⟩

/-- The constructor, from the rows of `select x, y from ESP`. -/
def polygon (rows : List Esp) : List (Point ℚ) := rows.map fun row => vertex (row.x, row.y)

/-- The conversion of a `double` to an `int`. -/
def toInt (v : ℚ) : ℤ := if 0 ≤ v then ⌊v⌋ else ⌈v⌉

/-- Whether `q` is in the box of `p` and `r`. -/
def onSegment (p q r : Point ℚ) : Bool :=
  if q.x ≤ max p.x r.x ∧ q.x ≥ min p.x r.x ∧ q.y ≤ max p.y r.y ∧ q.y ≥ min p.y r.y then true
  else false

/-- The cross product of `q - p` and `r - q`. -/
def cross (p q r : Point ℚ) : ℚ := (q.y - p.y) * (r.x - q.x) - (q.x - p.x) * (r.y - q.y)

/-- On which side of the line through `p` and `q` the point `r` is, after the truncation. A `double`
is an exact rational here: the rounding of the products before the truncation is left out. -/
def orientation (p q r : Point ℚ) : ℕ :=
  let val := toInt (cross p q r)
  if val = 0 then 0
  else if 0 < val then 1 else 2

/-- Whether the segments `p1q1` and `p2q2` intersect. -/
def doIntersect (p1 q1 p2 q2 : Point ℚ) : Bool :=
  let o1 := orientation p1 q1 p2
  let o2 := orientation p1 q1 q2
  let o3 := orientation p2 q2 p1
  let o4 := orientation p2 q2 q1
  if o1 ≠ o2 ∧ o3 ≠ o4 then true
  else if o1 = 0 ∧ onSegment p1 p2 q1 then true
  else if o2 = 0 ∧ onSegment p1 q2 q1 then true
  else if o3 = 0 ∧ onSegment p2 p1 q2 then true
  else if o4 = 0 ∧ onSegment p2 q1 q2 then true
  else false

/-- The end of the ray from a point. -/
def extreme (p : Point ℚ) : Point ℚ := ⟨INF, p.y⟩

/-- The loop over the edges that are left. -/
def scan (p : Point ℚ) : List (Point ℚ × Point ℚ) → ℕ → Bool
  | [], count => count % 2 = 1
  | e :: es, count =>
    if doIntersect e.1 e.2 p (extreme p) then
      if orientation e.1 p e.2 = 0 then onSegment e.1 p e.2
      else scan p es (count + 1)
    else scan p es count

/-- Whether the point is in the coverage area. -/
def isInside (polygon : List (Point ℚ)) (x y : ℚ) : Bool :=
  let p : Point ℚ := ⟨x, y⟩
  match polygon with
  | [] => true
  | [_] => true
  | [a, b] => onSegment a p b
  | polygon => scan p (edges polygon) 0

/-! ## Orientations -/

/-- The conversion truncates to zero what is less than one in absolute value. -/
theorem toInt_eq_zero {v : ℚ} : toInt v = 0 ↔ |v| < 1 := by
  unfold toInt
  split_ifs with h
  · rw [Int.floor_eq_zero_iff, Set.mem_Ico, abs_of_nonneg h]
    exact and_iff_right h
  · rw [Int.ceil_eq_zero_iff, Set.mem_Ioc, abs_of_neg (not_le.1 h), neg_lt]
    exact and_iff_left (not_le.1 h).le

/-- What is less than one is not positive any more. -/
theorem toInt_pos {v : ℚ} : 0 < toInt v ↔ 1 ≤ v := by
  unfold toInt
  split_ifs with h
  · exact Int.floor_pos
  · rw [Int.ceil_pos]
    exact ⟨fun hpos => absurd hpos.le h, fun hone => absurd (zero_le_one.trans hone) h⟩

/-- Three points are taken to be on one line if their cross product is less than one. -/
theorem orientation_eq_zero {p q r : Point ℚ} : orientation p q r = 0 ↔ |cross p q r| < 1 := by
  rw [← toInt_eq_zero, orientation]
  split_ifs with h h' <;> simp [h]

/-- The third point is on the right of the line through the first two, -/
theorem orientation_eq_one {p q r : Point ℚ} : orientation p q r = 1 ↔ 1 ≤ cross p q r := by
  rw [← toInt_pos, orientation]
  split_ifs with h h' <;> simp [h]
  · exact h'
  · omega

/-- or on its left. -/
theorem orientation_eq_two {p q r : Point ℚ} : orientation p q r = 2 ↔ cross p q r ≤ -1 := by
  constructor
  · intro h
    have hzero : ¬ |cross p q r| < 1 := fun h0 => by simp [orientation_eq_zero.2 h0] at h
    have hone : ¬ 1 ≤ cross p q r := fun h1 => by simp [orientation_eq_one.2 h1] at h
    rw [abs_lt, not_and_or] at hzero
    rcases hzero with hzero | hzero
    · exact not_lt.1 hzero
    · exact absurd (not_lt.1 hzero) hone
  · intro h
    have hzero : orientation p q r ≠ 0 := by
      rw [Ne, orientation_eq_zero, abs_lt]
      intro hlt
      linarith
    have hone : orientation p q r ≠ 1 := by
      rw [Ne, orientation_eq_one]
      intro hle
      linarith
    unfold orientation at *
    dsimp only at *
    split_ifs at * <;> simp_all

/-- `onSegment` looks at the box of the segment only. -/
theorem onSegment_iff {p q r : Point ℚ} : onSegment p q r = true ↔
    (q.x ≤ max p.x r.x ∧ min p.x r.x ≤ q.x) ∧ q.y ≤ max p.y r.y ∧ min p.y r.y ≤ q.y := by
  unfold onSegment
  split_ifs with h
  · exact ⟨fun _ => ⟨⟨h.1, h.2.1⟩, h.2.2⟩, fun _ => rfl⟩
  · exact ⟨nofun, fun hbox => absurd ⟨hbox.1.1, hbox.1.2, hbox.2⟩ h⟩

/-- The general case, and the four cases of an end on the line of the other segment. -/
theorem doIntersect_iff {p1 q1 p2 q2 : Point ℚ} : doIntersect p1 q1 p2 q2 = true ↔
    (orientation p1 q1 p2 ≠ orientation p1 q1 q2 ∧ orientation p2 q2 p1 ≠ orientation p2 q2 q1) ∨
      (orientation p1 q1 p2 = 0 ∧ onSegment p1 p2 q1 = true) ∨
      (orientation p1 q1 q2 = 0 ∧ onSegment p1 q2 q1 = true) ∨
      (orientation p2 q2 p1 = 0 ∧ onSegment p2 p1 q2 = true) ∨
      (orientation p2 q2 q1 = 0 ∧ onSegment p2 q1 q2 = true) := by
  simp only [doIntersect]
  split_ifs <;> simp_all

/-! ## One edge -/

/-- The loop returns at this edge. -/
def Stops (p : Point ℚ) (e : Point ℚ × Point ℚ) : Bool :=
  doIntersect e.1 e.2 p (extreme p) && orientation e.1 p e.2 == 0

section
variable {a b p : Point ℚ}

/-- The cross product changes its sign with the order of the points. -/
theorem cross_swap (a p b : Point ℚ) : cross a p b = -cross a b p := by
  unfold cross
  ring

/-- The point is taken to lie on the line of the edge in either order of the three points. -/
theorem orientation_swap : orientation a p b = 0 ↔ orientation a b p = 0 := by
  rw [orientation_eq_zero, orientation_eq_zero, cross_swap, abs_neg]

/-- The cross product of an edge and the end of the ray. -/
theorem cross_extreme (a b p : Point ℚ) : cross a b (extreme p) =
    (b.y - p.y) * (INF - a.x) + (p.y - a.y) * (INF - b.x) := by
  simp only [cross, extreme]
  ring

/-- The cross product of the ray and a vertex. -/
theorem cross_level (a p : Point ℚ) : cross p (extreme p) a = (INF - p.x) * (p.y - a.y) := by
  simp only [cross, extreme]
  ring

/-- The cross product of an edge and the point, by where the line of the edge is at its height. -/
theorem cross_eq_xAt (p : Point ℚ) (h : a.y ≠ b.y) :
    cross a b p = (b.y - a.y) * (p.x - xAt (a, b) p.y) := by
  have hne : b.y - a.y ≠ 0 := sub_ne_zero.2 h.symm
  simp only [cross, xAt]
  field_simp
  ring

/-- An end below the ray, or above it, as far as it is not taken to lie on it. -/
theorem level_below (hpx : p.x < INF) (hlevel : orientation p (extreme p) a ≠ 0) (h : a.y ≤ p.y) :
    a.y < p.y ∧ orientation p (extreme p) a = 1 := by
  have hpos : 0 ≤ (INF - p.x) * (p.y - a.y) :=
    mul_nonneg (sub_nonneg.2 hpx.le) (sub_nonneg.2 h)
  have hone : 1 ≤ (INF - p.x) * (p.y - a.y) := by
    rw [Ne, orientation_eq_zero, cross_level, abs_of_nonneg hpos] at hlevel
    exact not_lt.1 hlevel
  refine ⟨lt_of_le_of_ne h fun heq => ?_, orientation_eq_one.2 (by rwa [cross_level])⟩
  rw [heq, sub_self, mul_zero] at hone
  exact absurd hone (by norm_num)

/-- The same for an end above the ray. -/
theorem level_above (hpx : p.x < INF) (hlevel : orientation p (extreme p) a ≠ 0) (h : p.y ≤ a.y) :
    p.y < a.y ∧ orientation p (extreme p) a = 2 := by
  have hneg : (INF - p.x) * (p.y - a.y) ≤ 0 :=
    mul_nonpos_of_nonneg_of_nonpos (sub_nonneg.2 hpx.le) (sub_nonpos.2 h)
  have hone : (INF - p.x) * (p.y - a.y) ≤ -1 := by
    rw [Ne, orientation_eq_zero, cross_level, abs_of_nonpos hneg, not_lt] at hlevel
    linarith
  refine ⟨lt_of_le_of_ne h fun heq => ?_, orientation_eq_two.2 (by rwa [cross_level])⟩
  rw [heq, sub_self, mul_zero] at hone
  exact absurd hone (by norm_num)

/-- An edge whose ends are on one side of the ray does not intersect it. -/
theorem not_doIntersect_of_side (ha : orientation p (extreme p) a ≠ 0)
    (hside : orientation p (extreme p) a = orientation p (extreme p) b)
    (hbox : ¬ (p.y ≤ max a.y b.y ∧ min a.y b.y ≤ p.y)) :
    ¬ doIntersect a b p (extreme p) = true := by
  rw [doIntersect_iff, onSegment_iff, onSegment_iff]
  rintro (⟨-, h⟩ | ⟨-, -, h⟩ | ⟨-, -, h⟩ | ⟨h, -⟩ | ⟨h, -⟩)
  · exact h hside
  · exact hbox h
  · exact hbox h
  · exact ha h
  · exact ha (hside.trans h)

/-- An edge that goes from one side of the ray to the other intersects it exactly if the ends of the
ray are on different sides of the edge. -/
theorem doIntersect_iff_of_sides (ha : orientation p (extreme p) a ≠ 0)
    (hb : orientation p (extreme p) b ≠ 0)
    (hside : orientation p (extreme p) a ≠ orientation p (extreme p) b)
    (hp : orientation a b p ≠ 0) (hextreme : orientation a b (extreme p) ≠ 0) :
    doIntersect a b p (extreme p) = true ↔
      orientation a b p ≠ orientation a b (extreme p) := by
  rw [doIntersect_iff]
  constructor
  · rintro (⟨h, -⟩ | ⟨h, -⟩ | ⟨h, -⟩ | ⟨h, -⟩ | ⟨h, -⟩)
    · exact h
    · exact absurd h hp
    · exact absurd h hextreme
    · exact absurd h ha
    · exact absurd h hb
  · exact fun h => .inl ⟨h, hside⟩

/-- An edge with one end below the ray and one above it. Its line is at the height of the point at
least one to the left of `INF`, so the truncation matters on the side of the point only. -/
theorem doIntersect_iff_lt (hax : a.x ≤ INF - 1) (hbx : b.x ≤ INF - 1) (hpx : p.x < INF)
    (hdy : 1 ≤ |b.y - a.y|) (ha : orientation p (extreme p) a ≠ 0)
    (hb : orientation p (extreme p) b ≠ 0) (hsides : a.y < p.y ∧ p.y < b.y ∨ b.y < p.y ∧ p.y < a.y)
    (hstop : Stops p (a, b) = false) :
    doIntersect a b p (extreme p) = true ↔ p.x < xAt (a, b) p.y := by
  have hside : orientation p (extreme p) a ≠ orientation p (extreme p) b := by
    rcases hsides with ⟨h, h'⟩ | ⟨h, h'⟩
    · rw [(level_below hpx ha h.le).2, (level_above hpx hb h'.le).2]
      decide
    · rw [(level_above hpx ha h'.le).2, (level_below hpx hb h.le).2]
      decide
  have hextreme : orientation a b (extreme p) = if a.y < b.y then 1 else 2 := by
    rcases hsides with ⟨h, h'⟩ | ⟨h, h'⟩
    · rw [if_pos (h.trans h'), orientation_eq_one, cross_extreme]
      rw [abs_of_pos (by linarith)] at hdy
      calc 1 ≤ (b.y - p.y) * 1 + (p.y - a.y) * 1 := by linarith
        _ ≤ (b.y - p.y) * (INF - a.x) + (p.y - a.y) * (INF - b.x) :=
          add_le_add (mul_le_mul_of_nonneg_left (by linarith) (by linarith))
            (mul_le_mul_of_nonneg_left (by linarith) (by linarith))
    · rw [if_neg (h.trans h').not_gt, orientation_eq_two, cross_extreme]
      rw [abs_of_neg (by linarith)] at hdy
      calc (b.y - p.y) * (INF - a.x) + (p.y - a.y) * (INF - b.x)
          ≤ (b.y - p.y) * 1 + (p.y - a.y) * 1 :=
          add_le_add (mul_le_mul_of_nonpos_left (by linarith) (by linarith))
            (mul_le_mul_of_nonpos_left (by linarith) (by linarith))
        _ ≤ -1 := by linarith
  have hextreme0 : orientation a b (extreme p) ≠ 0 := by
    rw [hextreme]
    split <;> decide
  have hp : orientation a b p ≠ 0 := by
    intro h0
    have hcount : doIntersect a b p (extreme p) = true :=
      doIntersect_iff.2 (.inl ⟨by rw [h0]; exact hextreme0.symm, hside⟩)
    simp [Stops, hcount, orientation_swap.2 h0] at hstop
  have hcross : 1 ≤ |cross a b p| := by
    rw [Ne, orientation_eq_zero] at hp
    exact not_lt.1 hp
  rw [doIntersect_iff_of_sides ha hb hside hp hextreme0, hextreme]
  rcases hsides with ⟨h, h'⟩ | ⟨h, h'⟩
  · have hlt := h.trans h'
    have hneg : ¬ 1 ≤ cross a b p ↔ cross a b p < 0 := by
      rcases le_abs'.1 hcross with hc | hc
      · exact iff_of_true (by linarith) (by linarith)
      · exact iff_of_false (not_not.2 hc) (by linarith)
    rw [if_pos hlt, Ne, orientation_eq_one, hneg, cross_eq_xAt p hlt.ne, mul_neg_iff]
    simp only [sub_pos, sub_neg, hlt, hlt.not_gt, true_and, false_and, or_false]
  · have hlt := h.trans h'
    have hpos : ¬ cross a b p ≤ -1 ↔ 0 < cross a b p := by
      rcases le_abs'.1 hcross with hc | hc
      · exact iff_of_false (not_not.2 hc) (by linarith)
      · exact iff_of_true (by linarith) (by linarith)
    rw [if_neg hlt.not_gt, Ne, orientation_eq_two, hpos, cross_eq_xAt p hlt.ne', mul_pos_iff]
    simp only [sub_pos, sub_neg, hlt, hlt.not_gt, true_and, false_and, false_or]

/-- **One edge.** If neither end is taken to lie on the ray and the loop does not return at the
edge, the edge is counted exactly if the ray crosses it. -/
theorem doIntersect_iff_crosses (hax : a.x ≤ INF - 1) (hbx : b.x ≤ INF - 1) (hpx : p.x < INF)
    (hdy : a.y ≠ b.y → 1 ≤ |b.y - a.y|) (ha : orientation p (extreme p) a ≠ 0)
    (hb : orientation p (extreme p) b ≠ 0) (hstop : Stops p (a, b) = false) :
    doIntersect a b p (extreme p) = true ↔ Crosses p (a, b) := by
  rcases le_total a.y p.y with hay | hay <;> rcases le_total b.y p.y with hby | hby
  · obtain ⟨halt, ha1⟩ := level_below hpx ha hay
    obtain ⟨hblt, hb1⟩ := level_below hpx hb hby
    refine iff_of_false (not_doIntersect_of_side ha (ha1.trans hb1.symm) ?_) ?_
    · exact fun h => absurd h.1 (not_le.2 (max_lt halt hblt))
    · exact fun h => absurd (h.1.2 (not_lt.2 hblt.le)) (not_lt.2 halt.le)
  · obtain ⟨halt, -⟩ := level_below hpx ha hay
    obtain ⟨hblt, -⟩ := level_above hpx hb hby
    rw [doIntersect_iff_lt hax hbx hpx (hdy (halt.trans hblt).ne) ha hb (.inl ⟨halt, hblt⟩) hstop]
    simp [Crosses, halt.le, hblt]
  · obtain ⟨halt, -⟩ := level_above hpx ha hay
    obtain ⟨hblt, -⟩ := level_below hpx hb hby
    rw [doIntersect_iff_lt hax hbx hpx (hdy (hblt.trans halt).ne') ha hb (.inr ⟨hblt, halt⟩) hstop]
    simp [Crosses, halt, hblt.le]
  · obtain ⟨halt, ha2⟩ := level_above hpx ha hay
    obtain ⟨hblt, hb2⟩ := level_above hpx hb hby
    refine iff_of_false (not_doIntersect_of_side ha (ha2.trans hb2.symm) ?_) ?_
    · exact fun h => absurd h.2 (not_le.2 (lt_min halt hblt))
    · exact fun h => h.1.1 halt hblt

/-- The loop returns at an edge on which the point lies, and answers that it does. -/
theorem stops_of_onEdge {e : Point ℚ × Point ℚ} (h : OnEdge e p) :
    Stops p e = true ∧ onSegment e.1 p e.2 = true := by
  obtain ⟨t, ht0, ht1, hx, hy⟩ := h
  have hcross : cross e.1 e.2 p = 0 := by
    simp only [cross, hx, hy]
    ring
  have hzero : orientation e.1 e.2 p = 0 := by
    rw [orientation_eq_zero, hcross, abs_zero]
    exact one_pos
  have hbetween : ∀ u v : ℚ, u + t * (v - u) ≤ max u v ∧ min u v ≤ u + t * (v - u) := by
    intro u v
    rcases le_total u v with huv | huv
    · have hle := mul_le_of_le_one_left (sub_nonneg.2 huv) ht1
      have hge := mul_nonneg ht0 (sub_nonneg.2 huv)
      rw [max_eq_right huv, min_eq_left huv]
      exact ⟨by linarith, by linarith⟩
    · have hle := mul_nonpos_of_nonneg_of_nonpos ht0 (sub_nonpos.2 huv)
      have hge := mul_le_of_le_one_left (sub_nonneg.2 huv) ht1
      rw [max_eq_left huv, min_eq_right huv]
      exact ⟨by linarith, by linarith⟩
  have hseg : onSegment e.1 p e.2 = true := by
    rw [onSegment_iff, hx, hy]
    exact ⟨hbetween _ _, hbetween _ _⟩
  have hcount : doIntersect e.1 e.2 p (extreme p) = true :=
    doIntersect_iff.2 (.inr (.inl ⟨hzero, hseg⟩))
  exact ⟨by simp [Stops, hcount, orientation_swap.2 hzero], hseg⟩

end

/-! ## The loop -/

/-- The loop returns at the first edge that stops it, and else by the parity of its count. -/
theorem scan_eq (p : Point ℚ) (es : List (Point ℚ × Point ℚ)) (count : ℕ) :
    scan p es count = match es.find? (Stops p) with
      | some e => onSegment e.1 p e.2
      | none => decide (Odd (count + es.countP fun e => doIntersect e.1 e.2 p (extreme p))) := by
  induction es generalizing count with
  | nil => simp [scan, Nat.odd_iff]
  | cons e es ih =>
    rw [scan, List.find?_cons, List.countP_cons]
    by_cases hcount : doIntersect e.1 e.2 p (extreme p) = true
    · by_cases hzero : orientation e.1 p e.2 = 0
      · have hstop : Stops p e = true := by simp [Stops, hcount, hzero]
        rw [if_pos hcount, if_pos hzero, hstop]
      · have hstop : Stops p e = false := by simp [Stops, hzero]
        rw [if_pos hcount, if_neg hzero, hstop, ih, if_pos hcount, Nat.add_right_comm,
          Nat.add_assoc]
    · have hstop : Stops p e = false := by simp [Stops, hcount]
      rw [if_neg hcount, hstop, ih, if_neg hcount, Nat.add_zero]

/-- With three vertices or more the loop decides. -/
theorem isInside_eq_scan {polygon : List (Point ℚ)} (hlen : 3 ≤ polygon.length) (x y : ℚ) :
    isInside polygon x y = scan ⟨x, y⟩ (edges polygon) 0 := by
  match polygon, hlen with
  | _ :: _ :: _ :: _, _ => rfl

/-- The edge intersects the ray by the code's test. -/
def Counted (p : Point ℚ) (e : Point ℚ × Point ℚ) : Bool := doIntersect e.1 e.2 p (extreme p)

/-- The edge is counted although the ray does not cross it, or the other way round. -/
def Differs (p : Point ℚ) (e : Point ℚ × Point ℚ) : Bool := Counted p e != decide (Crosses p e)

/-- An end of the edge is taken to lie on the ray, and the edge is counted wrongly. -/
def Miscounted (p : Point ℚ) (e : Point ℚ × Point ℚ) : Bool :=
  (orientation p (extreme p) e.1 == 0 || orientation p (extreme p) e.2 == 0) && Differs p e

/-- The point lies on an edge. -/
def OnBorder (polygon : List (Point ℚ)) (p : Point ℚ) : Prop := ∃ e ∈ edges polygon, OnEdge e p

/-- A point that lies on no edge belongs to the polygon by the number of the edges that its ray
crosses, and so by the number of those that are counted if an even number differs. -/
theorem member_iff_of_not_onBorder {polygon : List (Point ℚ)} {p : Point ℚ}
    (hoff : ¬ OnBorder polygon p) :
    (Odd ((edges polygon).countP (Counted p)) ↔ Member polygon p) ↔
      Even ((edges polygon).countP (Differs p)) :=
  (iff_congr Iff.rfl (or_iff_right hoff)).trans
    (odd_countP_iff (Counted p) (fun e => decide (Crosses p e)) (edges polygon))

/-- Only an edge with an end taken to lie on the ray is counted wrongly. -/
theorem miscounted_eq {vertices : List (ℤ × ℤ)} (hv : ∀ v ∈ vertices, v.1 < 10000) {p : Point ℚ}
    (hpx : p.x < INF) {e : Point ℚ × Point ℚ} (he : e ∈ edges (vertices.map vertex))
    (hstop : Stops p e = false) : Miscounted p e = Differs p e := by
  obtain ⟨a, b⟩ := e
  obtain ⟨ha, hb⟩ := mem_of_mem_edges he
  obtain ⟨u, hu, rfl⟩ := List.mem_map.1 ha
  obtain ⟨v, hv', rfl⟩ := List.mem_map.1 hb
  have hbound : ∀ w ∈ vertices, (vertex w).x ≤ INF - 1 := by
    intro w hw
    have hle : w.1 ≤ 9999 := Int.lt_add_one_iff.1 (hv w hw)
    have hcast : (w.1 : ℚ) ≤ 9999 := by exact_mod_cast hle
    simp only [vertex, INF]
    linarith
  have hdy : (vertex u).y ≠ (vertex v).y → 1 ≤ |(vertex v).y - (vertex u).y| := by
    intro hne
    have hint : v.2 - u.2 ≠ 0 := fun h => hne (by simp [vertex, sub_eq_zero.1 h])
    have hone := Int.one_le_abs hint
    simp only [vertex]
    exact_mod_cast hone
  by_cases hlevel : orientation p (extreme p) (vertex u) = 0 ∨
      orientation p (extreme p) (vertex v) = 0
  · rcases hlevel with h | h <;> simp [Miscounted, h]
  · obtain ⟨hu0, hv0⟩ := not_or.1 hlevel
    have hiff := doIntersect_iff_crosses (hbound u hu) (hbound v hv') hpx hdy hu0 hv0 hstop
    have heq : doIntersect (vertex u) (vertex v) p (extreme p) =
        decide (Crosses p (vertex u, vertex v)) :=
      Bool.eq_iff_iff.2 (hiff.trans decide_eq_true_iff.symm)
    simp [Miscounted, Differs, Counted, heq]

section
variable {vertices : List (ℤ × ℤ)} {x y : ℚ}

/-- A loop that returns early answers by the box of the edge. -/
theorem isInside_of_stop (hlen : 3 ≤ vertices.length) {e : Point ℚ × Point ℚ}
    (hfind : (edges (vertices.map vertex)).find? (Stops ⟨x, y⟩) = some e) :
    isInside (vertices.map vertex) x y = onSegment e.1 ⟨x, y⟩ e.2 := by
  rw [isInside_eq_scan (by rwa [List.length_map]), scan_eq, hfind]

/-- A loop that runs to its end is right if the edges it counts wrongly are even in number. -/
theorem isInside_of_no_stop (hlen : 3 ≤ vertices.length) (hv : ∀ v ∈ vertices, v.1 < 10000)
    (hx : x < INF) (hfind : (edges (vertices.map vertex)).find? (Stops ⟨x, y⟩) = none) :
    (isInside (vertices.map vertex) x y = true ↔ Member (vertices.map vertex) ⟨x, y⟩) ↔
      Even ((edges (vertices.map vertex)).countP (Miscounted ⟨x, y⟩)) := by
  have hstop : ∀ e ∈ edges (vertices.map vertex), Stops ⟨x, y⟩ e = false :=
    fun e he => Bool.eq_false_iff.2 (List.find?_eq_none.1 hfind e he)
  have hoff : ¬ OnBorder (vertices.map vertex) ⟨x, y⟩ := by
    rintro ⟨e, he, hon⟩
    exact Bool.false_ne_true ((hstop e he).symm.trans (stops_of_onEdge hon).1)
  have hmis : (edges (vertices.map vertex)).countP (Miscounted ⟨x, y⟩) =
      (edges (vertices.map vertex)).countP (Differs ⟨x, y⟩) :=
    List.countP_congr fun e he => by rw [miscounted_eq hv hx he (hstop e he)]
  have hscan : isInside (vertices.map vertex) x y = true ↔
      Odd ((edges (vertices.map vertex)).countP (Counted ⟨x, y⟩)) := by
    rw [isInside_eq_scan (by rwa [List.length_map]), scan_eq, hfind]
    dsimp only
    rw [Nat.zero_add, decide_eq_true_eq]
    rfl
  rw [hscan, hmis]
  exact member_iff_of_not_onBorder hoff

/-- In general position the function is right: no vertex is taken to lie on the ray, and the loop
returns only at edges on which the point lies. -/
theorem isInside_iff_member_of_general (hlen : 3 ≤ vertices.length)
    (hv : ∀ v ∈ vertices, v.1 < 10000) (hx : x < INF)
    (hlevel : ∀ v ∈ vertices, orientation ⟨x, y⟩ (extreme ⟨x, y⟩) (vertex v) ≠ 0)
    (hstop : ∀ e ∈ edges (vertices.map vertex), Stops ⟨x, y⟩ e = true → OnEdge e ⟨x, y⟩) :
    isInside (vertices.map vertex) x y = true ↔ Member (vertices.map vertex) ⟨x, y⟩ := by
  cases hfind : (edges (vertices.map vertex)).find? (Stops ⟨x, y⟩) with
  | some e =>
    have he := List.mem_of_find?_eq_some hfind
    have hon := hstop e he (List.find?_some hfind)
    rw [isInside_of_stop hlen hfind]
    exact iff_of_true (stops_of_onEdge hon).2 (.inl ⟨e, he, hon⟩)
  | none =>
    refine (isInside_of_no_stop hlen hv hx hfind).2 ?_
    have hzero : (edges (vertices.map vertex)).countP (Miscounted ⟨x, y⟩) = 0 := by
      refine List.countP_eq_zero.2 fun e he => ?_
      obtain ⟨ha, hb⟩ := mem_of_mem_edges he
      obtain ⟨u, hu, hue⟩ := List.mem_map.1 ha
      obtain ⟨v, hv', hve⟩ := List.mem_map.1 hb
      simp [Miscounted, ← hue, ← hve, hlevel u hu, hlevel v hv']
    rw [hzero]
    exact Even.zero

end

/-- Whatever the order in which the rows are returned, the same points are inside. -/
def OrderFree (rows : List Esp) : Prop :=
  ∀ rows₁ rows₂, rows₁.Perm rows → rows₂.Perm rows → ∀ x y, |x| < INF → |y| < INF →
    isInside (polygon rows₁) x y = isInside (polygon rows₂) x y

/-- Where a receiver is. -/
def position (row : Esp) : ℤ × ℤ := (row.x, row.y)

section
variable {a b p : Point ℚ}

/-- The loop returns at an edge whose line is near the point if it has the point in its box, -/
theorem stops_of_onSegment (hnear : |cross a b p| < 1) (hbox : onSegment a p b = true) :
    Stops p (a, b) = true := by
  have hzero := orientation_eq_zero.2 hnear
  have hcount : doIntersect a b p (extreme p) = true :=
    doIntersect_iff.2 (.inr (.inl ⟨hzero, hbox⟩))
  simp [Stops, hcount, orientation_swap.2 hzero]

/-- if it begins on the ray, -/
theorem stops_of_level (hnear : |cross a b p| < 1) (hy : a.y = p.y) (hx : p.x ≤ a.x)
    (ha : a.x ≤ INF) : Stops p (a, b) = true := by
  have hlevel : orientation p (extreme p) a = 0 := by
    rw [orientation_eq_zero, cross_level, hy, sub_self, mul_zero, abs_zero]
    exact one_pos
  have hbox : onSegment p a (extreme p) = true := by
    rw [onSegment_iff]
    exact ⟨⟨le_max_of_le_right ha, min_le_of_left_le hx⟩, by simp [extreme, hy],
      by simp [extreme, hy]⟩
  have hcount : doIntersect a b p (extreme p) = true :=
    doIntersect_iff.2 (.inr (.inr (.inr (.inl ⟨hlevel, hbox⟩))))
  simp [Stops, hcount, orientation_swap.2 (orientation_eq_zero.2 hnear)]

/-- and if it goes up from about the ray. -/
theorem stops_of_upwards (hnear : |cross a b p| < 1) (hextreme : 1 ≤ cross a b (extreme p))
    (ha : |(INF - p.x) * (p.y - a.y)| < 1) (hb : (INF - p.x) * (p.y - b.y) ≤ -1) :
    Stops p (a, b) = true := by
  have hzero := orientation_eq_zero.2 hnear
  have hcount : doIntersect a b p (extreme p) = true := by
    refine doIntersect_iff.2 (.inl ⟨?_, ?_⟩)
    · rw [hzero, orientation_eq_one.2 hextreme]
      decide
    · rw [← cross_level, ← orientation_eq_zero] at ha
      rw [← cross_level, ← orientation_eq_two] at hb
      rw [ha, hb]
      decide
  simp [Stops, hcount, orientation_swap.2 hzero]

end

/-- If the loop returns at the first edge, that edge gives the answer. -/
theorem isInside_of_stops {a b : Point ℚ} {rest : List (Point ℚ)} (hrest : rest ≠ []) {p : Point ℚ}
    (hstop : Stops p (a, b) = true) : isInside (a :: b :: rest) p.x p.y = onSegment a p b := by
  obtain ⟨c, rest, rfl⟩ := List.exists_cons_of_ne_nil hrest
  rw [isInside_eq_scan (by simp), scan_eq]
  simp [edges, hstop]

/-- The order of the rows matters if two edges at which the loop returns give different answers. -/
theorem not_orderFree_of_stops {rows : List Esp} (hlen : 3 ≤ rows.length) {a b c d : Esp}
    (ha : a ∈ rows) (hb : b ∈ rows) (hc : c ∈ rows) (hd : d ∈ rows)
    (hab : position a ≠ position b) (hcd : position c ≠ position d) {p : Point ℚ}
    (hx : |p.x| < INF) (hy : |p.y| < INF)
    (hstop₁ : Stops p (vertex (position a), vertex (position b)) = true)
    (hstop₂ : Stops p (vertex (position c), vertex (position d)) = true)
    (hin : onSegment (vertex (position a)) p (vertex (position b)) = true)
    (hout : onSegment (vertex (position c)) p (vertex (position d)) = false) :
    ¬ OrderFree rows := by
  have hfront : ∀ e ∈ rows, ∀ f ∈ rows, position e ≠ position f →
      ∃ rest, rest ≠ [] ∧ (e :: f :: rest).Perm rows := by
    intro e he f hf hne
    have hf' : f ∈ rows.erase e :=
      (List.mem_erase_of_ne fun h => hne (congrArg position h.symm)).2 hf
    have hperm := ((List.perm_cons_erase he).trans ((List.perm_cons_erase hf').cons e)).symm
    refine ⟨(rows.erase e).erase f, fun hnil => ?_, hperm⟩
    have hlength := hperm.length_eq
    rw [hnil] at hlength
    simp only [List.length_cons, List.length_nil] at hlength
    omega
  obtain ⟨rest₁, hrest₁, hperm₁⟩ := hfront a ha b hb hab
  obtain ⟨rest₂, hrest₂, hperm₂⟩ := hfront c hc d hd hcd
  intro hfree
  have heq := hfree _ _ hperm₁ hperm₂ p.x p.y hx hy
  have hfirst : isInside (polygon (a :: b :: rest₁)) p.x p.y = true :=
    (isInside_of_stops (by simpa using hrest₁) hstop₁).trans hin
  have hsecond : isInside (polygon (c :: d :: rest₂)) p.x p.y = false :=
    (isInside_of_stops (by simpa using hrest₂) hstop₂).trans hout
  rw [hfirst, hsecond] at heq
  cases heq

/-- At some point the loop returns at either edge, with different answers. -/
def Splits (a b c d : ℤ × ℤ) : Prop :=
  ∃ p : Point ℚ, (|p.x| < INF ∧ |p.y| < INF) ∧ Stops p (vertex a, vertex b) = true ∧
    Stops p (vertex c, vertex d) = true ∧ onSegment (vertex a) p (vertex b) = true ∧
    onSegment (vertex c) p (vertex d) = false

/-- The coordinates of a receiver are below `INF`. -/
def InRange (v : ℤ × ℤ) : Prop := |v.1| < 10000 ∧ |v.2| < 10000

/-- Whether a point is in the range can be decided. -/
instance : DecidablePred InRange := fun _ => inferInstanceAs (Decidable (_ ∧ _))

/-- A point in the range stays in it as a rational one. -/
theorem InRange.cast {v : ℤ × ℤ} (h : InRange v) :
    (-9999 ≤ (v.1 : ℚ) ∧ (v.1 : ℚ) ≤ 9999) ∧ -9999 ≤ (v.2 : ℚ) ∧ (v.2 : ℚ) ≤ 9999 := by
  obtain ⟨hx, hy⟩ := h
  rw [abs_lt] at hx hy
  refine ⟨⟨?_, ?_⟩, ?_, ?_⟩ <;> norm_cast <;> omega

/-- A billionth of the area of a box in range is less than one. -/
theorem abs_billionth_lt {a b : ℚ} (ha : |a| ≤ 20000) (hb : |b| ≤ 20000) :
    |1 / 10 ^ 9 * (a * b)| < 1 := by
  have hprod : |a * b| ≤ 20000 * 20000 := by
    rw [abs_mul]
    exact mul_le_mul ha hb (abs_nonneg b) (by norm_num)
  rw [abs_mul, abs_of_pos (by norm_num : (0 : ℚ) < 1 / 10 ^ 9)]
  linarith

/-- The loop returns at a vertical edge that is near the point and goes up from about the ray. -/
theorem stops_of_vertical {a b : ℤ × ℤ} {p : Point ℚ} (ha : InRange a) (hx : (b.1 : ℚ) = a.1)
    (hy : (a.2 : ℚ) + 1 ≤ b.2) (hnear : |(b.2 - a.2) * (p.x - a.1)| < 1)
    (hlevel : |(INF - p.x) * (p.y - a.2)| < 1) (hup : 1 ≤ (INF - p.x) * (b.2 - p.y)) :
    Stops p (vertex a, vertex b) = true := by
  obtain ⟨⟨-, hax⟩, -⟩ := ha.cast
  refine stops_of_upwards ?_ ?_ hlevel ?_
  · have hcross : cross (vertex a) (vertex b) p = (b.2 - a.2) * (p.x - a.1) := by
      simp only [cross, vertex, hx]
      ring
    rwa [hcross]
  · have hcross : cross (vertex a) (vertex b) (extreme p) = (b.2 - a.2) * (INF - a.1) := by
      rw [cross_extreme]
      simp only [vertex, hx]
      ring
    rw [hcross, INF]
    exact one_le_mul_of_one_le_of_one_le (by linarith) (by linarith)
  · simp only [vertex]
    linarith

section
variable {u v w : ℤ × ℤ}

/-- A receiver that has one on its left and none but ones on its right: the point is just left of
it. -/
theorem splits_of_lt (hu : InRange u) (hv : InRange v) (hw : InRange w) (huv : u.1 < v.1)
    (hvw : v.1 ≤ w.1) : Splits u v v w := by
  obtain ⟨⟨hux, hux'⟩, huy, huy'⟩ := hu.cast
  obtain ⟨⟨hvx, hvx'⟩, hvy, hvy'⟩ := hv.cast
  obtain ⟨⟨hwx, hwx'⟩, hwy, hwy'⟩ := hw.cast
  have hlt : (u.1 : ℚ) + 1 ≤ v.1 := by exact_mod_cast huv
  have hle : (v.1 : ℚ) ≤ w.1 := by exact_mod_cast hvw
  have hbox : onSegment (vertex u) ⟨v.1 - 1 / 20000, v.2⟩ (vertex v) = true := by
    rw [onSegment_iff]
    exact ⟨⟨le_max_of_le_right (by simp [vertex]),
      min_le_of_left_le (by simp only [vertex]; linarith)⟩, le_max_right _ _, min_le_right _ _⟩
  refine ⟨⟨v.1 - 1 / 20000, v.2⟩, ⟨?_, ?_⟩, ?_, ?_, hbox, ?_⟩
  · exact abs_lt.2 ⟨by simp only [INF]; linarith, by simp only [INF]; linarith⟩
  · exact abs_lt.2 ⟨by simp only [INF]; linarith, by simp only [INF]; linarith⟩
  · have hnear : cross (vertex u) (vertex v) ⟨v.1 - 1 / 20000, v.2⟩ = (u.2 - v.2) / 20000 := by
      simp only [cross, vertex]
      ring
    refine stops_of_onSegment ?_ hbox
    rw [hnear]
    exact abs_lt.2 ⟨by linarith, by linarith⟩
  · have hnear : cross (vertex v) (vertex w) ⟨v.1 - 1 / 20000, v.2⟩ = (v.2 - w.2) / 20000 := by
      simp only [cross, vertex]
      ring
    refine stops_of_level ?_ rfl (by simp [vertex]) (by simp only [vertex, INF]; linarith)
    rw [hnear]
    exact abs_lt.2 ⟨by linarith, by linarith⟩
  · rw [Bool.eq_false_iff, Ne, onSegment_iff]
    rintro ⟨⟨-, h⟩, -⟩
    rw [min_eq_left (by exact hle)] at h
    simp only [vertex] at h
    linarith

/-- Two receivers above each other on the left of a third one: the point is on the way from the
lower one to the third one, just right of the first two. -/
theorem splits_of_eq (hu : InRange u) (hv : InRange v) (hw : InRange w) (hx : u.1 = v.1)
    (hy : u.2 < v.2) (hvw : v.1 < w.1) : Splits u w u v := by
  obtain ⟨⟨hux, hux'⟩, huy, huy'⟩ := hu.cast
  obtain ⟨⟨hvx, hvx'⟩, hvy, hvy'⟩ := hv.cast
  obtain ⟨⟨hwx, hwx'⟩, hwy, hwy'⟩ := hw.cast
  have hxeq : (u.1 : ℚ) = v.1 := by exact_mod_cast hx
  have hylt : (u.2 : ℚ) + 1 ≤ v.2 := by exact_mod_cast hy
  have hlt : (u.1 : ℚ) + 1 ≤ w.1 := by exact_mod_cast hx ▸ hvw
  let p : Point ℚ := ⟨u.1 + 1 / 10 ^ 9 * (w.1 - u.1), u.2 + 1 / 10 ^ 9 * (w.2 - u.2)⟩
  have hon : OnEdge (vertex u, vertex w) p := ⟨1 / 10 ^ 9, by norm_num, by norm_num, rfl, rfl⟩
  obtain ⟨hstop, hbox⟩ := stops_of_onEdge hon
  refine ⟨p, ⟨?_, ?_⟩, hstop, ?_, hbox, ?_⟩
  · exact abs_lt.2 ⟨by simp only [INF, p]; linarith, by simp only [INF, p]; linarith⟩
  · exact abs_lt.2 ⟨by simp only [INF, p]; linarith, by simp only [INF, p]; linarith⟩
  · have hpx : p.x = u.1 + 1 / 10 ^ 9 * (w.1 - u.1) := rfl
    have hpy : p.y = u.2 + 1 / 10 ^ 9 * (w.2 - u.2) := rfl
    have hright : 3 / 2 ≤ INF - p.x ∧ INF - p.x ≤ 20000 := by
      rw [hpx, INF]
      exact ⟨by linarith, by linarith⟩
    refine stops_of_vertical hu hxeq.symm hylt ?_ ?_ ?_
    · have hnear : (v.2 - u.2) * (p.x - u.1) = 1 / 10 ^ 9 * ((v.2 - u.2 : ℚ) * (w.1 - u.1)) := by
        rw [hpx]
        ring
      rw [hnear]
      exact abs_billionth_lt (abs_le.2 ⟨by linarith, by linarith⟩)
        (abs_le.2 ⟨by linarith, by linarith⟩)
    · have hlevel : (INF - p.x) * (p.y - u.2) = 1 / 10 ^ 9 * ((INF - p.x) * (w.2 - u.2)) := by
        rw [hpy]
        ring
      rw [hlevel]
      exact abs_billionth_lt (abs_le.2 ⟨by linarith, by linarith⟩)
        (abs_le.2 ⟨by linarith, by linarith⟩)
    · have hup : 9 / 10 ≤ v.2 - p.y := by
        rw [hpy]
        linarith
      have hprod := mul_le_mul hright.1 hup (by norm_num) (by linarith)
      linarith
  · rw [Bool.eq_false_iff, Ne, onSegment_iff]
    rintro ⟨⟨h, -⟩, -⟩
    rw [max_eq_left (by simp [vertex, hxeq])] at h
    simp only [vertex, p] at h
    linarith

/-- Three receivers above each other: the point is just below the one in the middle. -/
theorem splits_of_column (hu : InRange u) (hv : InRange v) (hw : InRange w) (huv : u.1 = v.1)
    (hvw : v.1 = w.1) (hy : u.2 < v.2) (hy' : v.2 < w.2) : Splits u v v w := by
  obtain ⟨⟨hux, hux'⟩, huy, huy'⟩ := hu.cast
  obtain ⟨⟨hvx, hvx'⟩, hvy, hvy'⟩ := hv.cast
  obtain ⟨-, hwy, hwy'⟩ := hw.cast
  have huveq : (u.1 : ℚ) = v.1 := by exact_mod_cast huv
  have hvweq : (w.1 : ℚ) = v.1 := by exact_mod_cast hvw.symm
  have hlt : (u.2 : ℚ) + 1 ≤ v.2 := by exact_mod_cast hy
  have hlt' : (v.2 : ℚ) + 1 ≤ w.2 := by exact_mod_cast hy'
  have hbox : onSegment (vertex u) ⟨v.1, v.2 - 1 / 20000⟩ (vertex v) = true := by
    rw [onSegment_iff]
    exact ⟨⟨le_max_right _ _, min_le_right _ _⟩, le_max_of_le_right (by simp [vertex]),
      min_le_of_left_le (by simp only [vertex]; linarith)⟩
  refine ⟨⟨v.1, v.2 - 1 / 20000⟩, ⟨?_, ?_⟩, ?_, ?_, hbox, ?_⟩
  · exact abs_lt.2 ⟨by simp only [INF]; linarith, by simp only [INF]; linarith⟩
  · exact abs_lt.2 ⟨by simp only [INF]; linarith, by simp only [INF]; linarith⟩
  · have hnear : cross (vertex u) (vertex v) ⟨v.1, v.2 - 1 / 20000⟩ = 0 := by
      simp only [cross, vertex, huveq]
      ring
    refine stops_of_onSegment ?_ hbox
    rw [hnear, abs_zero]
    exact one_pos
  · refine stops_of_vertical hv hvweq hlt' ?_ ?_ ?_
    · rw [sub_self, mul_zero, abs_zero]
      exact one_pos
    · rw [INF]
      exact abs_lt.2 ⟨by linarith, by linarith⟩
    · rw [INF]
      exact one_le_mul_of_one_le_of_one_le (by linarith) (by linarith)
  · rw [Bool.eq_false_iff, Ne, onSegment_iff]
    rintro ⟨-, -, h⟩
    rw [min_eq_left (by simp only [vertex]; linarith)] at h
    simp only [vertex] at h
    linarith

end

/-- Three of the elements of a finite set, in their order. -/
theorem exists_lt_lt {α : Type*} [LinearOrder α] {s : Finset α} (h : 3 ≤ s.card) :
    ∃ a ∈ s, ∃ b ∈ s, ∃ c ∈ s, a < b ∧ b < c := by
  let f := s.orderEmbOfFin rfl
  refine ⟨f ⟨0, by omega⟩, s.orderEmbOfFin_mem rfl _, f ⟨1, by omega⟩, s.orderEmbOfFin_mem rfl _,
    f ⟨2, by omega⟩, s.orderEmbOfFin_mem rfl _, f.strictMono ?_, f.strictMono ?_⟩ <;>
    exact Fin.mk_lt_mk.2 (by decide)

/-- **The order of the rows.** For no three receivers or more at different places is the coverage
area independent of the order in which the database returns them. -/
theorem not_orderFree (rows : List Esp) (hset : 3 ≤ (rows.map position).toFinset.card)
    (hrange : ∀ row ∈ rows, InRange (position row)) : ¬ OrderFree rows := by
  have hlen : 3 ≤ rows.length := by
    have hle := List.toFinset_card_le (rows.map position)
    rw [List.length_map] at hle
    omega
  -- the receivers from left to right, and from below where they are above each other
  obtain ⟨u, hu, v, hv, w, hw, huv, hvw⟩ := exists_lt_lt
    (s := (rows.map position).toFinset.map toLex.toEmbedding) (by rwa [Finset.card_map])
  have hrow : ∀ z ∈ (rows.map position).toFinset.map toLex.toEmbedding,
      ∃ row ∈ rows, toLex (position row) = z := by
    intro z hz
    obtain ⟨q, hq, rfl⟩ := Finset.mem_map.1 hz
    obtain ⟨row, hrow, rfl⟩ := List.mem_map.1 (List.mem_toFinset.1 hq)
    exact ⟨row, hrow, rfl⟩
  obtain ⟨a, ha, rfl⟩ := hrow u hu
  obtain ⟨b, hb, rfl⟩ := hrow v hv
  obtain ⟨c, hc, rfl⟩ := hrow w hw
  have hab : position a ≠ position b := fun h => huv.ne (congrArg toLex h)
  have hbc : position b ≠ position c := fun h => hvw.ne (congrArg toLex h)
  have hac : position a ≠ position c := fun h => (huv.trans hvw).ne (congrArg toLex h)
  rw [Prod.Lex.toLex_lt_toLex] at huv hvw
  rcases huv with hlt | ⟨hx, hy⟩
  · have hle : (position b).1 ≤ (position c).1 := hvw.elim le_of_lt fun h => h.1.le
    obtain ⟨p, ⟨hpx, hpy⟩, h₁, h₂, hin, hout⟩ :=
      splits_of_lt (hrange a ha) (hrange b hb) (hrange c hc) hlt hle
    exact not_orderFree_of_stops hlen ha hb hb hc hab hbc hpx hpy h₁ h₂ hin hout
  · rcases hvw with hlt | ⟨hx', hy'⟩
    · obtain ⟨p, ⟨hpx, hpy⟩, h₁, h₂, hin, hout⟩ :=
        splits_of_eq (hrange a ha) (hrange b hb) (hrange c hc) hx hy hlt
      exact not_orderFree_of_stops hlen ha hc ha hb hac hab hpx hpy h₁ h₂ hin hout
    · obtain ⟨p, ⟨hpx, hpy⟩, h₁, h₂, hin, hout⟩ :=
        splits_of_column (hrange a ha) (hrange b hb) (hrange c hc) hx hx' hy hy'
      exact not_orderFree_of_stops hlen ha hb hb hc hab hbc hpx hpy h₁ h₂ hin hout

/-- Receivers at the corners of a square. -/
def square : List Esp :=
  [⟨.of 0xaa 0 0 0 0 0, 0, 0, 0⟩, ⟨.of 0xbb 0 0 0 0 0, 1, 10, 0⟩, ⟨.of 0xcc 0 0 0 0 0, 2, 10, 10⟩,
    ⟨.of 0xdd 0 0 0 0 0, 3, 0, 10⟩]

/-- The square depends on the order of its corners. -/
theorem not_orderFree_square : ¬ OrderFree square :=
  not_orderFree square (by decide) (by decide)

/-- The same receivers, returned in an order that makes a bow tie of the square. -/
theorem bowTie :
    ¬ ∀ rows : List Esp, 3 ≤ (rows.map position).toFinset.card →
      (∀ row ∈ rows, InRange (position row)) → OrderFree rows := by
  intro hclaim
  have heq := hclaim square (by decide) (by decide) square
    [⟨.of 0xaa 0 0 0 0 0, 0, 0, 0⟩, ⟨.of 0xcc 0 0 0 0 0, 2, 10, 10⟩,
      ⟨.of 0xbb 0 0 0 0 0, 1, 10, 0⟩, ⟨.of 0xdd 0 0 0 0 0, 3, 0, 10⟩]
    (.refl _) (.cons _ (.swap _ _ _)) 5 1 (by decide +kernel) (by decide +kernel)
  exact absurd heq (by decide +kernel)

end CoverageArea

end DetectionSystem

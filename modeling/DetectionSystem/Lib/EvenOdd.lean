import Mathlib.Algebra.Field.Basic
import Mathlib.Algebra.Order.Field.Basic
import Mathlib.Algebra.Group.Nat.Even
import Mathlib.Data.List.Rotate

/-!
# Polygons and the even-odd rule

A polygon is the list of its vertices. A point belongs to it if it lies on an edge, or if a ray from
the point to the right crosses an odd number of edges (`Member`). An edge is half-open in the
height: it has its lower end and not its upper one, so that a ray through a vertex meets the two
edges there once or twice as it should.

`odd_countP_iff` is the rule for an algorithm that counts crossings in another way: the parities
agree exactly if the number of edges on which the two ways differ is even.
-/

namespace EvenOdd

/-- A point of the plane. -/
@[ext]
structure Point (K : Type*) where
  x : K
  y : K
deriving DecidableEq, Repr

/-- The edges of a polygon, from each vertex to the next and from the last vertex to the first. -/
def edges {K : Type*} (polygon : List (Point K)) : List (Point K × Point K) :=
  polygon.zip (polygon.rotate 1)

/-- The ends of an edge are vertices. -/
theorem mem_of_mem_edges {K : Type*} {polygon : List (Point K)} {e : Point K × Point K}
    (he : e ∈ edges polygon) : e.1 ∈ polygon ∧ e.2 ∈ polygon := by
  have hmem := List.of_mem_zip (a := e.1) (b := e.2) he
  exact ⟨hmem.1, List.mem_rotate.1 hmem.2⟩

section
variable {K : Type*} [Field K] [LinearOrder K]

/-- A point of the edge. -/
def OnEdge (e : Point K × Point K) (p : Point K) : Prop :=
  ∃ t, 0 ≤ t ∧ t ≤ 1 ∧ p.x = e.1.x + t * (e.2.x - e.1.x) ∧ p.y = e.1.y + t * (e.2.y - e.1.y)

/-- Where the line of an edge is at a height. -/
def xAt (e : Point K × Point K) (y : K) : K :=
  e.1.x + (y - e.1.y) * (e.2.x - e.1.x) / (e.2.y - e.1.y)

/-- The ray from the point to the right crosses the edge. -/
def Crosses (p : Point K) (e : Point K × Point K) : Prop :=
  (p.y < e.1.y ↔ ¬ p.y < e.2.y) ∧ p.x < xAt e p.y

/-- Whether an edge is crossed can be decided. -/
instance (p : Point K) (e : Point K × Point K) : Decidable (Crosses p e) :=
  inferInstanceAs (Decidable (_ ∧ _))

/-- The point lies on an edge, or inside by the even-odd rule. -/
def Member (polygon : List (Point K)) (p : Point K) : Prop :=
  (∃ e ∈ edges polygon, OnEdge e p) ∨ Odd ((edges polygon).countP (Crosses p))

end

/-- Two ways to count agree in their parities if and only if they differ an even number of times. -/
theorem odd_countP_iff {α : Type*} (P Q : α → Bool) (l : List α) :
    (Odd (l.countP P) ↔ Odd (l.countP Q)) ↔ Even (l.countP fun a => P a != Q a) := by
  have hsum : (l.countP P + l.countP Q) % 2 = (l.countP fun a => P a != Q a) % 2 := by
    induction l with
    | nil => rfl
    | cons a l ih =>
      simp only [List.countP_cons]
      cases P a <;> cases Q a <;> simp <;> omega
  rw [Nat.odd_iff, Nat.odd_iff, Nat.even_iff]
  omega

end EvenOdd

import Mathlib.Logic.Function.Basic
import Mathlib.Data.List.Nodup

/-!
# Segments of a linked list in memory

`Seg next p as q` says that the chain of `next` pointers that starts at the pointer `p` passes
exactly the nodes `as` and then stands at the node `q`, which it does not pass. A store to the
pointer of a node outside `as` leaves the segment as it is (`Seg.update`), and the store that links
a node behind `q` makes the segment one node longer (`Seg.snoc`).
-/

namespace ListSeg

variable {Addr : Type*}

/-- The chain of `next` from the pointer `p` passes the nodes `as` and then stands at `q`. -/
def Seg (next : Addr → Option Addr) : Option Addr → List Addr → Addr → Prop
  | p, [], q => p = some q
  | p, a :: as, q => p = some a ∧ Seg next (next a) as q

variable {next : Addr → Option Addr} {p : Option Addr} {as : List Addr} {a q r : Addr}

@[simp] theorem seg_nil : Seg next p [] q ↔ p = some q := Iff.rfl

@[simp] theorem seg_cons :
    Seg next p (a :: as) q ↔ p = some a ∧ Seg next (next a) as q := Iff.rfl

/-- A segment never starts at a null pointer. -/
theorem Seg.ne_none (h : Seg next p as q) : p ≠ none := by
  cases as with
  | nil => simp [seg_nil.1 h]
  | cons a as => simp [(seg_cons.1 h).1]

/-- The node a segment stands at, once linked to `r`, is its last node. -/
theorem Seg.snoc (h : Seg next p as q) (hq : next q = some r) :
    Seg next p (as ++ [q]) r := by
  induction as generalizing p with
  | nil => exact ⟨h, hq⟩
  | cons a as ih => exact ⟨h.1, ih h.2⟩

/-- A store to the pointer of a node outside a segment does not change it. -/
theorem Seg.update [DecidableEq Addr] (h : Seg next p as q) (hr : r ∉ as) (v : Option Addr) :
    Seg (Function.update next r v) p as q := by
  induction as generalizing p with
  | nil => exact h
  | cons a as ih =>
    rw [List.mem_cons, not_or] at hr
    refine ⟨h.1, ?_⟩
    rw [Function.update_of_ne (Ne.symm hr.1)]
    exact ih h.2 hr.2

/-- The number of nodes from `p` to the first one without a successor, that one not counted, as far
as the fuel goes. -/
def size (next : Addr → Option Addr) : ℕ → Addr → Option ℕ
  | 0, _ => none
  | fuel + 1, a =>
    match next a with
    | none => some 0
    | some b => (size next fuel b).map (· + 1)

/-- A walk to the end of a list counts the nodes of its segment. -/
theorem Seg.size_eq (h : Seg next (some a) as q) (hq : next q = none) (fuel : ℕ) :
    size next (as.length + 1 + fuel) a = some as.length := by
  induction as generalizing a with
  | nil =>
    obtain rfl : a = q := Option.some.inj h
    rw [List.length_nil, Nat.zero_add, Nat.add_comm]
    simp [size, hq]
  | cons b as ih =>
    obtain ⟨hab, hrest⟩ := seg_cons.1 h
    cases Option.some.inj hab
    obtain ⟨c, hc⟩ := Option.ne_none_iff_exists'.1 hrest.ne_none
    rw [hc] at hrest
    have hlen : (b :: as).length + 1 + fuel = (as.length + 1 + fuel) + 1 := by
      rw [List.length_cons]; omega
    rw [hlen, size, hc]
    simp [ih hrest]

end ListSeg

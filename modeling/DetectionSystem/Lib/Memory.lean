import DetectionSystem.Lib.Bytes
import Mathlib.Logic.Function.Basic

/-!
# Loops that fill memory

Memory without bounds is a function on offsets. `fill` is the loop that stores `n` values one after
another from an offset on; after it the stored values are in place and what is before them is what
it was (`fill_of_mem`, `fill_of_lt`).
-/

namespace Memory

variable {β : Type*}

/-- `for (i = 0; i < n; i++) m[off + i] = f(i)`. -/
def fill (m : ℕ → β) (off n : ℕ) (f : ℕ → β) : ℕ → β :=
  (List.range n).foldl (fun m i => Function.update m (off + i) (f i)) m

variable {m : ℕ → β} {off n a : ℕ} {f : ℕ → β}

/-- One more byte. -/
theorem fill_succ : fill m off (n + 1) f = Function.update (fill m off n f) (off + n) (f n) := by
  rw [fill, List.range_succ, List.foldl_append]
  rfl

/-- What is before the stored values stays. -/
theorem fill_of_lt (h : a < off) : fill m off n f a = m a := by
  induction n with
  | zero => rfl
  | succ n ih => rw [fill_succ, Function.update_of_ne (by omega), ih]

/-- The stored values. -/
theorem fill_of_mem (h : off ≤ a) (h' : a < off + n) : fill m off n f a = f (a - off) := by
  induction n with
  | zero => omega
  | succ n ih =>
    rw [fill_succ]
    by_cases ha : a = off + n
    · rw [ha, Function.update_self, Nat.add_sub_cancel_left]
    · rw [Function.update_of_ne ha, ih (by omega)]

end Memory

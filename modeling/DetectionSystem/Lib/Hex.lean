import Mathlib.Algebra.Ring.Nat
import Mathlib.Tactic.Common

/-!
# Printing in hexadecimal

`printed w n` is what the conversion `%0wx` of `printf` prints for a number: its hexadecimal
digits, padded with zeros on the left to a width that they may exceed. A number that fits in the
width takes exactly that many characters (`length_printed`).
-/

namespace Hex

/-- `%0wx`. -/
def printed (w n : ℕ) : List Char := (Nat.toDigits 16 n).leftpad w '0'

/-- A number that fits is printed with exactly the digits that are asked for. -/
theorem length_printed {w n : ℕ} (hw : 0 < w) (h : n < 16 ^ w) : (printed w n).length = w := by
  have hlen : (Nat.toDigits 16 n).length ≤ w := (Nat.length_toDigits_le_iff (by decide) hw).2 h
  rw [printed, List.length_leftpad, Nat.max_eq_left hlen]

end Hex

import Mathlib.Algebra.Ring.Nat
import Mathlib.Data.List.TakeDrop
import Mathlib.Tactic.Common

/-!
# Records in memory

The bytes of a record are the bytes of its fields, one after another, each at a fixed offset.
`Bytes n` is a field of `n` bytes, `toBytes` and `ofBytes` are the little-endian images of a number,
and `Bytes.read` copies a field out of a buffer. `Bytes.read_head` and `Bytes.read_tail` find a
field in the image of a record: it is the first one, or it is behind the first one.
-/

/-- Exactly `n` bytes. -/
abbrev Bytes (n : ℕ) := {bytes : List UInt8 // bytes.length = n}

/-- The low `k` bytes of a number, least significant first. -/
def toBytes : ℕ → ℕ → List UInt8
  | 0, _ => []
  | k + 1, n => .ofNat n :: toBytes k (n / 256)

/-- The number whose little-endian bytes are given. -/
def ofBytes : List UInt8 → ℕ
  | [] => 0
  | b :: bytes => b.toNat + 256 * ofBytes bytes

@[simp] theorem toBytes_length (k n : ℕ) : (toBytes k n).length = k := by
  induction k generalizing n with
  | zero => rfl
  | succ k ih => rw [toBytes, List.length_cons, ih]

/-- The bytes of a number give the number back, up to what they can hold. -/
theorem ofBytes_toBytes (k n : ℕ) : ofBytes (toBytes k n) = n % 256 ^ k := by
  induction k generalizing n with
  | zero => simp [toBytes, ofBytes, Nat.mod_one]
  | succ k ih =>
    have hbyte : (UInt8.ofNat n).toNat = n % 256 := by simp
    rw [toBytes, ofBytes, ih, hbyte, Nat.pow_succ, Nat.mul_comm (256 ^ k) 256, Nat.mod_mul]

/-- `k` bytes are a number below `256 ^ k`. -/
theorem ofBytes_lt (bytes : List UInt8) : ofBytes bytes < 256 ^ bytes.length := by
  induction bytes with
  | nil => exact Nat.one_pos
  | cons b bytes ih =>
    have hb := b.toNat_lt
    rw [ofBytes, List.length_cons, Nat.pow_succ]
    omega

namespace Bytes

variable {m n off : ℕ} {post : List UInt8}

@[simp] theorem length_val (b : Bytes n) : b.1.length = n := b.2

/-- A number as a field of `k` bytes. -/
def ofNat (k n : ℕ) : Bytes k := ⟨toBytes k n, toBytes_length k n⟩

/-- The number in a field. -/
def toNat (b : Bytes n) : ℕ := ofBytes b.1

/-- A number that is written in `k` bytes is cut off there. -/
theorem toNat_ofNat (k n : ℕ) : (ofNat k n).toNat = n % 256 ^ k := ofBytes_toBytes k n

/-- The field of `n` bytes at an offset; what the buffer lacks reads as zero. -/
def read (n : ℕ) (bytes : List UInt8) (off : ℕ) : Bytes n :=
  ⟨(bytes.drop off).takeD n 0, List.takeD_length ..⟩

/-- The field at the front. -/
@[simp] theorem read_head (x : Bytes n) : read n (x.1 ++ post) 0 = x := by
  apply Subtype.ext
  exact List.takeD_left' x.2

/-- A field behind the one at the front. -/
@[simp] theorem read_tail (y : Bytes m) (h : m ≤ off) :
    read n (y.1 ++ post) off = read n post (off - m) := by
  apply Subtype.ext
  simp only [read]
  rw [List.drop_append, List.drop_eq_nil_of_le (by rw [y.2]; exact h), List.nil_append, y.2]

end Bytes

import Mathlib.Data.List.Basic
import Mathlib.Tactic.Common

/-!
# The form of UTF-8

`Form u v`: the bytes `u` have the form of the encoding of a character, a lead byte and as many
continuation bytes as it announces, and their payload is the number `v`. Not every form is an
encoding. The number can be too small for that many bytes or larger than any character
(`Excess`), or it can be a surrogate; `exists_encoding_iff` says that there is no other way to go
wrong. A string splits into forms in one way only (`split_unique`).
-/

namespace Utf8

/-- A continuation byte. -/
def Tail (b : UInt8) : Prop := 0x80 ≤ b.toNat ∧ b.toNat < 0xC0

/-- The bytes have the form of a character, and carry the number. -/
inductive Form : List UInt8 → ℕ → Prop
  | one {a : UInt8} : a.toNat < 0x80 → Form [a] a.toNat
  | two {a b : UInt8} : 0xC0 ≤ a.toNat → a.toNat < 0xE0 → Tail b →
      Form [a, b] (a.toNat % 0x20 * 0x40 + b.toNat % 0x40)
  | three {a b c : UInt8} : 0xE0 ≤ a.toNat → a.toNat < 0xF0 → Tail b → Tail c →
      Form [a, b, c] (a.toNat % 0x10 * 0x1000 + b.toNat % 0x40 * 0x40 + c.toNat % 0x40)
  | four {a b c d : UInt8} : 0xF0 ≤ a.toNat → a.toNat < 0xF8 → Tail b → Tail c → Tail d →
      Form [a, b, c, d]
        (a.toNat % 0x08 * 0x40000 + b.toNat % 0x40 * 0x1000 + c.toNat % 0x40 * 0x40 +
          d.toNat % 0x40)

/-- The least number that needs a form of the given length. -/
def least : ℕ → ℕ
  | 2 => 0x80
  | 3 => 0x800
  | 4 => 0x10000
  | _ => 0

/-- A form of a number that is overlong, or above all characters. -/
def Excess (u : List UInt8) (v : ℕ) : Prop := v < least u.length ∨ 0x10FFFF < v

/-- A form of three bytes for half of a surrogate pair. -/
def Surrogate (u : List UInt8) (v : ℕ) : Prop := u.length = 3 ∧ 0xD800 ≤ v ∧ v ≤ 0xDFFF

/-- A number below 256 is a byte. -/
theorem toNat_ofNat_of_lt {n : ℕ} (h : n < 0x100) : (UInt8.ofNat n).toNat = n := by
  rw [UInt8.toNat_ofNat', Nat.mod_eq_of_lt (by omega)]

/-- The encoding of a character is a form of it. -/
theorem form_encoding (ch : Char) : Form (String.utf8EncodeChar ch) ch.toNat := by
  have hvalid := ch.valid
  rw [UInt32.isValidChar, Nat.isValidChar, Char.toNat_val] at hvalid
  unfold String.utf8EncodeChar
  simp only [Char.toNat_val]
  generalize ch.toNat = v at hvalid ⊢
  split
  case isTrue h1 =>
    have hform := @Form.one (.ofNat v)
    simp (disch := omega) only [toNat_ofNat_of_lt] at hform
    exact hform (by omega)
  case isFalse h1 =>
  split
  case isTrue h2 =>
    have hform := @Form.two (.ofNat (v / 64 % 0x20 + 0xC0)) (.ofNat (v % 0x40 + 0x80))
    simp (disch := omega) only [Tail, toNat_ofNat_of_lt] at hform
    convert hform (by omega) (by omega) (by omega) using 1
    omega
  case isFalse h2 =>
  split
  case isTrue h3 =>
    have hform := @Form.three (.ofNat (v / 4096 % 0x10 + 0xE0)) (.ofNat (v / 64 % 0x40 + 0x80))
      (.ofNat (v % 0x40 + 0x80))
    simp (disch := omega) only [Tail, toNat_ofNat_of_lt] at hform
    convert hform (by omega) (by omega) (by omega) (by omega) using 1
    omega
  case isFalse h3 =>
    have hform := @Form.four (.ofNat (v / 262144 % 0x08 + 0xF0)) (.ofNat (v / 4096 % 0x40 + 0x80))
      (.ofNat (v / 64 % 0x40 + 0x80)) (.ofNat (v % 0x40 + 0x80))
    simp (disch := omega) only [Tail, toNat_ofNat_of_lt] at hform
    convert hform (by omega) (by omega) (by omega) (by omega) (by omega) using 1
    omega

/-- The encoding takes no more bytes than it needs. -/
theorem least_length_encoding (ch : Char) :
    least (String.utf8EncodeChar ch).length ≤ ch.toNat := by
  unfold String.utf8EncodeChar
  simp only [Char.toNat_val]
  split
  case isTrue => exact Nat.zero_le _
  case isFalse h1 =>
  split
  case isTrue =>
    show 0x80 ≤ _
    omega
  case isFalse h2 =>
  split
  case isTrue =>
    show 0x800 ≤ _
    omega
  case isFalse h3 =>
    show 0x10000 ≤ _
    omega

/-- A number has one shortest form. -/
theorem Form.eq_of_least {u u' : List UInt8} {v v' : ℕ} (h : Form u v) (h' : Form u' v')
    (heq : v = v') (hleast : least u.length ≤ v) (hleast' : least u'.length ≤ v') : u = u' := by
  cases h <;> cases h' <;> simp only [List.length_cons, List.length_nil, least, Tail] at * <;>
    simp only [List.cons.injEq, ← UInt8.toNat_inj, and_true, reduceCtorEq, and_false] <;> omega

/-- A form of a character that is not too long is its encoding. -/
theorem Form.exists_encoding {u : List UInt8} {v : ℕ} (h : Form u v) (hex : ¬ Excess u v)
    (hsur : ¬ Surrogate u v) : ∃ ch : Char, u = String.utf8EncodeChar ch := by
  obtain ⟨hleast, hmax⟩ := not_or.1 hex
  rw [Nat.not_lt] at hleast hmax
  have hvalid : v.isValidChar := by
    by_contra hno
    have hlen : u.length ≠ 3 := fun hlen => hsur ⟨hlen, by omega, by omega⟩
    cases h <;> simp only [List.length_cons, List.length_nil, least, Tail] at * <;> omega
  obtain ⟨ch, rfl⟩ : ∃ ch : Char, v = ch.toNat := ⟨.ofNatAux v hvalid, rfl⟩
  exact ⟨ch, h.eq_of_least (form_encoding ch) rfl hleast (least_length_encoding ch)⟩

/-- An encoding is neither overlong nor a surrogate. -/
theorem not_excess_encoding (ch : Char) :
    ¬ Excess (String.utf8EncodeChar ch) ch.toNat ∧
      ¬ Surrogate (String.utf8EncodeChar ch) ch.toNat := by
  have hleast := least_length_encoding ch
  have hvalid := ch.valid
  rw [UInt32.isValidChar, Nat.isValidChar, Char.toNat_val] at hvalid
  unfold Excess Surrogate
  omega

/-! ## Strings -/

/-- The length of a form, and with it where it ends, is known from its first byte. -/
theorem Form.append_inj {u u' r r' : List UInt8} {v v' : ℕ} (h : Form u v) (h' : Form u' v')
    (heq : u ++ r = u' ++ r') : u = u' ∧ v = v' ∧ r = r' := by
  cases h <;> cases h' <;> simp only [List.cons_append, List.nil_append, List.cons.injEq] at heq <;>
    obtain ⟨rfl, heq⟩ := heq
  case one.one => exact ⟨rfl, rfl, heq⟩
  case two.two =>
    obtain ⟨rfl, heq⟩ := heq
    exact ⟨rfl, rfl, heq⟩
  case three.three =>
    obtain ⟨rfl, rfl, heq⟩ := heq
    exact ⟨rfl, rfl, heq⟩
  case four.four =>
    obtain ⟨rfl, rfl, rfl, heq⟩ := heq
    exact ⟨rfl, rfl, heq⟩
  -- forms of different lengths begin with different bytes
  all_goals omega

/-- A form has at least one byte. -/
theorem Form.ne_nil {u : List UInt8} {v : ℕ} (h : Form u v) : u ≠ [] := by
  cases h <;> simp

/-- A string splits into forms in one way. -/
theorem split_unique {us us' : List (List UInt8)} (h : ∀ u ∈ us, ∃ v, Form u v)
    (h' : ∀ u ∈ us', ∃ v, Form u v) (heq : us.flatten = us'.flatten) : us = us' := by
  induction us generalizing us' with
  | nil =>
    cases us' with
    | nil => rfl
    | cons u' us' =>
      obtain ⟨v, hu⟩ := h' u' List.mem_cons_self
      exact absurd (List.append_eq_nil_iff.1 heq.symm).1 hu.ne_nil
  | cons u us ih =>
    obtain ⟨v, hu⟩ := h u List.mem_cons_self
    cases us' with
    | nil => exact absurd (List.append_eq_nil_iff.1 heq).1 hu.ne_nil
    | cons u' us' =>
      obtain ⟨v', hu'⟩ := h' u' List.mem_cons_self
      obtain ⟨rfl, -, hrest⟩ := hu.append_inj hu' heq
      rw [ih (fun u hu => h u (List.mem_cons_of_mem _ hu))
        (fun u hu => h' u (List.mem_cons_of_mem _ hu)) hrest]

/-- The encoding of a sequence of characters. -/
def WellFormed (string : List UInt8) : Prop :=
  ∃ chars : List Char, string = chars.flatMap String.utf8EncodeChar

/-- A string of forms without surrogates is well formed exactly if none of them is an excess. -/
theorem wellFormed_iff {us : List (List UInt8)} (h : ∀ u ∈ us, ∃ v, Form u v ∧ ¬ Surrogate u v) :
    WellFormed us.flatten ↔ ∀ u ∈ us, ∀ v, Form u v → ¬ Excess u v := by
  refine ⟨?_, ?_⟩
  · intro hwf u hu v hform
    obtain ⟨chars, heq⟩ := hwf
    have hsplit : us = chars.map String.utf8EncodeChar := by
      refine split_unique (fun u hu => ⟨_, (h u hu).choose_spec.1⟩) ?_ heq
      intro u hu
      obtain ⟨ch, -, rfl⟩ := List.mem_map.1 hu
      exact ⟨_, form_encoding ch⟩
    obtain ⟨ch, -, rfl⟩ := List.mem_map.1 (hsplit ▸ hu)
    obtain ⟨-, rfl, -⟩ := @Form.append_inj _ _ [] [] _ _ hform (form_encoding ch) rfl
    exact (not_excess_encoding ch).1
  · intro hex
    induction us with
    | nil => exact ⟨[], rfl⟩
    | cons u us ih =>
      rw [List.forall_mem_cons] at h hex
      obtain ⟨v, hform, hsur⟩ := h.1
      obtain ⟨ch, rfl⟩ := hform.exists_encoding (hex.1 v hform) hsur
      obtain ⟨chars, heq⟩ := ih h.2 hex.2
      exact ⟨ch :: chars, by rw [List.flatten_cons, List.flatMap_cons, heq]⟩

end Utf8

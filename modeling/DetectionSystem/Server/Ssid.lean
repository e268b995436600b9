import DetectionSystem.Lib.Utf8

/-!
# The check of a network name

`checkSSID` goes over the bytes of a name: a byte announces how many continuation bytes follow it,
and these are skipped. It accepts exactly the strings that split into UTF-8 forms without
surrogates (`checkSSID_iff`). It never looks at the number in a form, so that what it lets through
beyond UTF-8 are the forms that are an excess (`checkSSID_sound_iff`); what is UTF-8 it never
refuses, and it can be used piece by piece (`checkSSID_complete`).
-/

open Utf8

namespace DetectionSystem

namespace ProbePacket

/-- The number of continuation bytes that follow the byte `c`, with `string` behind it; `none` where
`checkSSID` returns false. After `0xed` it looks ahead. -/
def following (c : UInt8) (string : List UInt8) : Option ℕ :=
  if c ≤ 0x7f then some 0
  else if c &&& 0xE0 = 0xC0 then some 1
  else if c = 0xed ∧ string.head?.any (· &&& 0xa0 = 0xa0) then none
  else if c &&& 0xF0 = 0xE0 then some 2
  else if c &&& 0xF8 = 0xF0 then some 3
  else none

/-- The two loops of `checkSSID`. `n` is the number of bytes the inner loop has still to read: at 0
the outer loop takes the next byte. -/
def checkFrom : ℕ → List UInt8 → Bool
  | 0, [] => true
  | _ + 1, [] => false
  | 0, c :: string =>
    match following c string with
    | none => false
    | some n => checkFrom n string
  | n + 1, c :: string => if c &&& 0xC0 = 0x80 then checkFrom n string else false

/-- `checkSSID`. -/
def checkSSID (string : List UInt8) : Bool := checkFrom 0 string

/-! ## The bit masks -/

/-- What holds of the numbers below 256 holds of the bytes. -/
theorem forall_byte {P : UInt8 → Prop} (h : ∀ n < 0x100, P (.ofNat n)) (c : UInt8) : P c := by
  have := h c.toNat c.toNat_lt
  rwa [UInt8.ofNat_toNat] at this

/-- The test for the first byte of two, -/
theorem mask_two : ∀ c : UInt8, c &&& 0xE0 = 0xC0 ↔ 0xC0 ≤ c.toNat ∧ c.toNat < 0xE0 :=
  forall_byte (by decide +kernel)

/-- of three, -/
theorem mask_three : ∀ c : UInt8, c &&& 0xF0 = 0xE0 ↔ 0xE0 ≤ c.toNat ∧ c.toNat < 0xF0 :=
  forall_byte (by decide +kernel)

/-- and of four bytes; -/
theorem mask_four : ∀ c : UInt8, c &&& 0xF8 = 0xF0 ↔ 0xF0 ≤ c.toNat ∧ c.toNat < 0xF8 :=
  forall_byte (by decide +kernel)

/-- the test for a byte that follows; -/
theorem mask_tail : ∀ c : UInt8, c &&& 0xC0 = 0x80 ↔ Tail c :=
  forall_byte (by unfold Tail; decide +kernel)

/-- and the test for a surrogate behind `0xED`. -/
theorem mask_surrogate : ∀ c : UInt8, Tail c → (c &&& 0xa0 = 0xa0 ↔ 0xA0 ≤ c.toNat) :=
  forall_byte (by unfold Tail; decide +kernel)

/-! ## What is accepted -/

/-- A form that is not a surrogate. -/
def Loose (u : List UInt8) : Prop := ∃ v, Form u v ∧ ¬ Surrogate u v

/-- What a byte announces, by its range. -/
theorem following_eq_some {c : UInt8} {string : List UInt8} {n : ℕ} :
    following c string = some n ↔
      n = 0 ∧ c.toNat < 0x80 ∨
      n = 1 ∧ 0xC0 ≤ c.toNat ∧ c.toNat < 0xE0 ∨
      n = 2 ∧ (0xE0 ≤ c.toNat ∧ c.toNat < 0xF0) ∧
        (c.toNat = 0xED → string.head?.any (· &&& 0xa0 = 0xa0) = false) ∨
      n = 3 ∧ 0xF0 ≤ c.toNat ∧ c.toNat < 0xF8 := by
  have hed : c = 0xed ↔ c.toNat = 0xED := UInt8.toNat_inj.symm
  have hascii : c ≤ 0x7f ↔ c.toNat < 0x80 := UInt8.le_iff_toNat_le.trans Nat.lt_succ_iff.symm
  unfold following
  simp only [mask_two, mask_three, mask_four, hed, hascii]
  generalize string.head?.any _ = surrogate
  grind

/-- Bytes that follow are skipped. -/
theorem checkFrom_append {u : List UInt8} (h : ∀ b ∈ u, Tail b) (rest : List UInt8) :
    checkFrom u.length (u ++ rest) = checkSSID rest := by
  induction u with
  | nil => rfl
  | cons b u ih =>
    rw [List.forall_mem_cons] at h
    show (if b &&& 0xC0 = 0x80 then checkFrom u.length (u ++ rest) else false) = _
    rw [if_pos ((mask_tail b).2 h.1), ih h.2]

/-- A check that succeeds has skipped its bytes. -/
theorem exists_of_checkFrom {n : ℕ} {string : List UInt8} (h : checkFrom n string = true) :
    ∃ u rest, string = u ++ rest ∧ u.length = n ∧ (∀ b ∈ u, Tail b) ∧ checkSSID rest = true := by
  induction n generalizing string with
  | zero => exact ⟨[], string, rfl, rfl, by simp, h⟩
  | succ n ih =>
    cases string with
    | nil => cases h
    | cons b string =>
      rw [checkFrom, Bool.if_false_right, Bool.and_eq_true, decide_eq_true_eq] at h
      obtain ⟨u, rest, rfl, rfl, hu, hrest⟩ := ih h.2
      exact ⟨b :: u, rest, rfl, rfl, List.forall_mem_cons.2 ⟨(mask_tail b).1 h.1, hu⟩, hrest⟩

/-- The check of a text: its first byte tells how many follow. -/
theorem checkSSID_cons {c : UInt8} {string : List UInt8} :
    checkSSID (c :: string) = true ↔
      ∃ n, following c string = some n ∧ checkFrom n string = true := by
  unfold checkSSID
  rw [checkFrom]
  split
  case h_1 hnone => simp [hnone]
  case h_2 n hsome => simp [hsome]

/-- A form that is not a surrogate announces itself. -/
theorem Loose.following {u : List UInt8} (h : Loose u) :
    ∃ c tail, u = c :: tail ∧ (∀ b ∈ tail, Tail b) ∧
      ∀ rest, following c (tail ++ rest) = some tail.length := by
  obtain ⟨v, hform, hsur⟩ := h
  cases hform with
  | @one a ha =>
    exact ⟨a, [], rfl, by simp, fun rest => following_eq_some.2 (.inl ⟨rfl, ha⟩)⟩
  | @two a b ha ha' hb =>
    exact ⟨a, [b], rfl, by simpa using hb, fun rest =>
      following_eq_some.2 (.inr (.inl ⟨rfl, ha, ha'⟩))⟩
  | @three a b c ha ha' hb hc =>
    refine ⟨a, [b, c], rfl, by simp [hb, hc], fun rest =>
      following_eq_some.2 (.inr (.inr (.inl ⟨rfl, ⟨ha, ha'⟩, ?_⟩)))⟩
    intro hed
    refine decide_eq_false fun hlook => hsur ⟨rfl, ?_⟩
    have hge := (mask_surrogate b hb).1 hlook
    rw [Tail] at hb hc
    omega
  | @four a b c d ha ha' hb hc hd =>
    exact ⟨a, [b, c, d], rfl, by simp [hb, hc, hd], fun rest =>
      following_eq_some.2 (.inr (.inr (.inr ⟨rfl, ha, ha'⟩)))⟩

/-- A byte with the continuation bytes it announces is a form, and not a surrogate. -/
theorem loose_of_following {c : UInt8} {tail rest : List UInt8} (htail : ∀ b ∈ tail, Tail b)
    (h : following c (tail ++ rest) = some tail.length) : Loose (c :: tail) := by
  rcases following_eq_some.1 h with ⟨hlen, hc⟩ | ⟨hlen, hc, hc'⟩ | ⟨hlen, ⟨hc, hc'⟩, hed⟩ |
    ⟨hlen, hc, hc'⟩
  · obtain rfl := List.length_eq_zero_iff.1 hlen
    exact ⟨_, .one hc, fun hsur => absurd hsur.1 (by simp)⟩
  · obtain ⟨b, rfl⟩ := List.length_eq_one_iff.1 hlen
    exact ⟨_, .two hc hc' (htail b (by simp)), fun hsur => absurd hsur.1 (by simp)⟩
  · obtain ⟨b, b', rfl⟩ := List.length_eq_two.1 hlen
    have hb := htail b (by simp)
    have hb' := htail b' (by simp)
    refine ⟨_, .three hc hc' hb hb', fun hsur => ?_⟩
    rw [Tail] at hb'
    have hge : 0xA0 ≤ b.toNat := by
      have := hsur.2
      rw [Tail] at hb
      omega
    have hlook := hed (by have := hsur.2; omega)
    exact absurd ((mask_surrogate b hb).2 hge) (of_decide_eq_false hlook)
  · obtain ⟨b, b', b'', rfl⟩ := List.length_eq_three.1 hlen
    exact ⟨_, .four hc hc' (htail b (by simp)) (htail b' (by simp)) (htail b'' (by simp)),
      fun hsur => absurd hsur.1 (by simp)⟩

/-- A form that is not a surrogate can be cut off. -/
theorem Loose.checkSSID_append {u : List UInt8} (h : Loose u) (rest : List UInt8) :
    checkSSID (u ++ rest) = checkSSID rest := by
  obtain ⟨c, tail, rfl, htail, hfollowing⟩ := h.following
  rw [← checkFrom_append htail rest, Bool.eq_iff_iff, List.cons_append, checkSSID_cons,
    hfollowing rest]
  simp

/-- Forms that are not surrogates can be cut off one after the other. -/
theorem checkSSID_flatten {us : List (List UInt8)} (h : ∀ u ∈ us, Loose u) (rest : List UInt8) :
    checkSSID (us.flatten ++ rest) = checkSSID rest := by
  induction us with
  | nil => rfl
  | cons u us ih =>
    rw [List.forall_mem_cons] at h
    rw [List.flatten_cons, List.append_assoc, h.1.checkSSID_append, ih h.2]

/-- **The accepted strings** are those that split into forms without surrogates. -/
theorem checkSSID_iff {string : List UInt8} :
    checkSSID string = true ↔
      ∃ us : List (List UInt8), us.flatten = string ∧ ∀ u ∈ us, Loose u := by
  refine ⟨?_, ?_⟩
  · intro h
    induction hlen : string.length using Nat.strongRecOn generalizing string with
    | ind len ih =>
    cases string with
    | nil => exact ⟨[], rfl, by simp⟩
    | cons c string =>
      obtain ⟨n, hfollowing, hfrom⟩ := checkSSID_cons.1 h
      obtain ⟨tail, rest, rfl, rfl, htail, hrest⟩ := exists_of_checkFrom hfrom
      obtain ⟨us, rfl, hus⟩ := ih rest.length (by simp at hlen; omega) hrest rfl
      exact ⟨(c :: tail) :: us, rfl,
        List.forall_mem_cons.2 ⟨loose_of_following htail hfollowing, hus⟩⟩
  · intro h
    obtain ⟨us, rfl, hus⟩ := h
    have := checkSSID_flatten hus []
    rwa [List.append_nil] at this

/-- The string splits into forms without surrogates, one of which is overlong or above all
characters. -/
def ExcessForm (string : List UInt8) : Prop :=
  ∃ us : List (List UInt8), us.flatten = string ∧ (∀ u ∈ us, Loose u) ∧
    ∃ u ∈ us, ∃ v, Form u v ∧ Excess u v

/-- **Soundness.** An accepted string is well-formed UTF-8, unless one of its forms is an excess. -/
theorem checkSSID_sound_iff (string : List UInt8) :
    (checkSSID string = true → WellFormed string) ↔ ¬ ExcessForm string := by
  refine ⟨?_, ?_⟩
  · intro hsound hexcess
    obtain ⟨us, rfl, hus, u, hu, v, hform, hex⟩ := hexcess
    have hwf := hsound (checkSSID_iff.2 ⟨us, rfl, hus⟩)
    exact (wellFormed_iff hus).1 hwf u hu v hform hex
  · intro hno haccept
    obtain ⟨us, rfl, hus⟩ := checkSSID_iff.1 haccept
    refine (wellFormed_iff hus).2 fun u hu v hform hex => hno ?_
    exact ⟨us, rfl, hus, u, hu, v, hform, hex⟩

/-- The overlong form of the character 0 is accepted. -/
theorem checkSSID_overlong :
    ¬ ∀ string : List UInt8, checkSSID string = true → WellFormed string := by
  intro hsound
  have hform : Form [0xC0, 0x80] 0 := .two (by decide) (by decide) (by unfold Tail; decide)
  have hloose : ∀ u ∈ [[0xC0, 0x80]], Loose u := by
    intro u hu
    obtain rfl := List.mem_singleton.1 hu
    exact ⟨0, hform, fun hsur => absurd hsur.1 (by decide)⟩
  exact (wellFormed_iff hloose).1 (hsound _ (by decide)) _ (List.mem_singleton_self _) 0 hform
    (.inl (by decide))

/-- **Completeness**, character by character: every encoding is accepted, and behind an accepted
string the check starts anew. -/
theorem checkSSID_complete :
    (∀ chars : List Char, checkSSID (chars.flatMap String.utf8EncodeChar) = true) ∧
      ∀ a b : List UInt8, checkSSID a = true → checkSSID (a ++ b) = checkSSID b := by
  refine ⟨?_, ?_⟩
  · intro chars
    refine checkSSID_iff.2 ⟨chars.map String.utf8EncodeChar, rfl, fun u hu => ?_⟩
    obtain ⟨ch, -, rfl⟩ := List.mem_map.1 hu
    exact ⟨_, form_encoding ch, (not_excess_encoding ch).2⟩
  · intro a b ha
    obtain ⟨us, rfl, hus⟩ := checkSSID_iff.1 ha
    exact checkSSID_flatten hus b

end ProbePacket

end DetectionSystem

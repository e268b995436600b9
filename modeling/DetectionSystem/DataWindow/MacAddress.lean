import DetectionSystem.Lib.Regex

/-!
# The check of a MAC address

`CheckMacAddress` searches the text for a pattern of three alternatives, one for each separator. Its
anchors stand in the first and the last one: `^` holds for the colons only, `$` for the digits
without separators only. So the check also accepts text behind an address with colons, around one
with hyphens, and before one without separators; `Update_Click` puts all of it into its query.

`checkMacAddress_iff` says which texts are accepted, `exact_iff` for which of them that is right.
-/

namespace DetectionSystem

namespace DataWindow

open Regex

/-- `[0-9a-fA-F]`. -/
def isHex (c : Char) : Bool :=
  ('0' ≤ c && c ≤ '9') || ('a' ≤ c && c ≤ 'f') || ('A' ≤ c && c ≤ 'F')

/-- `[0-9a-fA-F]{2}`. -/
def pair : Regex := .rep 2 (.chars isHex)

/-- A character that stands for itself. -/
def literal (a : Char) : Regex := .chars (· = a)

/-- `(?:[0-9a-fA-F]{2}:){5}[0-9a-fA-F]{2}`, for any separator. -/
def separated (a : Char) : Regex := .seq (.rep 5 (.seq pair (literal a))) pair

/-- `(?:[0-9a-fA-F]{2}){5}[0-9a-fA-F]{2}`. -/
def digits : Regex := .seq (.rep 5 pair) pair

/-- The pattern `rx`: an anchor belongs to the alternative it stands in. -/
def rx : Regex :=
  .alt (.alt (.seq .bol (separated ':')) (separated '-')) (.seq digits .eol)

/-- `rx.IsMatch(mac)`. -/
def checkMacAddress (mac : List Char) : Bool := isMatch rx mac

/-- `selectQuery`: the last row of every MAC. -/
def selectQuery : List Char :=
  ("SELECT d.mac, d.x, d.y, d.timestamp " ++
    "FROM devices d " ++
    "JOIN( " ++
    "SELECT mac, MAX(timestamp) timestamp, MAX(dev_id) as max_id " ++
    "FROM devices " ++
    "GROUP BY mac " ++
    ") x ON(x.max_id = d.dev_id) " ++
    "WHERE UNIX_TIMESTAMP(d.timestamp) > UNIX_TIMESTAMP(NOW()) - 120 ").toList

/-- The query of `Update_Click`, from the text of `macBox`. -/
def updateQuery (macBox : List Char) : List Char :=
  if checkMacAddress macBox then selectQuery ++ "AND d.mac = '".toList ++ macBox ++ "'".toList
  else selectQuery

/-- Six pairs of hexadecimal digits between separators. -/
def SixPairs (sep s : List Char) : Prop :=
  ∃ pairs : List (List Char), pairs.length = 6 ∧
    (∀ p ∈ pairs, p.length = 2 ∧ ∀ c ∈ p, isHex c = true) ∧ s = sep.intercalate pairs

/-- The whole text is a MAC address. -/
def IsAddress (s : List Char) : Prop := SixPairs [':'] s ∨ SixPairs ['-'] s ∨ SixPairs [] s

/-- The check accepts a text exactly if it is an address, and nothing else is put into the query. -/
structure Exact (s : List Char) : Prop where
  check : checkMacAddress s = true ↔ IsAddress s
  query : updateQuery s ≠ selectQuery → IsAddress s

/-- What the pattern finds is not part of a longer text. -/
structure NothingElse (s : List Char) : Prop where
  colons : ∀ w v, SixPairs [':'] w → s = w ++ v → v = []
  hyphens : ∀ u w v, SixPairs ['-'] w → s = u ++ w ++ v → u = [] ∧ v = []
  digits : ∀ u w, SixPairs [] w → s = u ++ w → u = []
  newline : ∀ u w, SixPairs [] w → s ≠ u ++ w ++ ['\n']

/-! ## The accepted texts -/

variable {s w sep : List Char}

/-- A pair is two hexadecimal digits. -/
theorem mem_lang_pair : w ∈ pair.lang ↔ w.length = 2 ∧ ∀ c ∈ w, isHex c = true :=
  mem_lang_rep_chars

/-- A literal matches itself. -/
theorem lang_literal (a : Char) : (literal a).lang = {[a]} := by
  ext w
  simp only [literal, mem_lang_chars, decide_eq_true_eq, exists_eq_left]
  rfl

/-- Five pairs with a separator each and one more are six pairs. -/
theorem mem_pairs : w ∈ (pair.lang * {sep}) ^ 5 * pair.lang ↔ SixPairs sep w := by
  rw [mem_pow_mul]
  simp only [mem_lang_pair, SixPairs]

/-- Six pairs with a separator. -/
theorem mem_lang_separated (a : Char) : w ∈ (separated a).lang ↔ SixPairs [a] w := by
  rw [← mem_pairs, ← lang_literal]
  rfl

/-- Six pairs with none. -/
theorem mem_lang_digits : w ∈ digits.lang ↔ SixPairs [] w := by
  rw [← mem_pairs]
  have hone : ({[]} : Language Char) = 1 := rfl
  rw [hone, mul_one]
  rfl

/-- **What is accepted.** -/
theorem checkMacAddress_iff : checkMacAddress s = true ↔
    (∃ w, SixPairs [':'] w ∧ ∃ v, s = w ++ v) ∨
      (∃ u w, SixPairs ['-'] w ∧ ∃ v, s = u ++ w ++ v) ∨
        ∃ u w, SixPairs [] w ∧ (s = u ++ w ∨ s = u ++ w ++ ['\n']) := by
  have hfree : ∀ a, (separated a).AnchorFree := fun a => ⟨⟨trivial, trivial⟩, trivial⟩
  have hdigits : digits.AnchorFree := ⟨trivial, trivial⟩
  rw [checkMacAddress, rx, isMatch_alt, isMatch_alt, or_assoc, isMatch_iff, isMatch_iff,
    isMatch_iff, exists_mem_run_bol (hfree ':'), exists_mem_run (hfree '-'),
    exists_mem_run_eol hdigits]
  simp only [mem_lang_separated, mem_lang_digits]

/-! ## Addresses in a longer text -/

/-- Six pairs are twelve digits and five separators. -/
theorem SixPairs.length (h : SixPairs sep s) : s.length = 12 + 5 * sep.length := by
  obtain ⟨pairs, hlength, hpairs, rfl⟩ := h
  match pairs, hlength with
  | [_, _, _, _, _, _], _ =>
    simp only [List.forall_mem_cons] at hpairs
    simp only [List.intercalate_cons_cons, List.intercalate_singleton, List.length_append]
    omega

/-- An address ends in a separator and two digits. -/
theorem SixPairs.exists_last (h : SixPairs sep s) :
    ∃ y p, s = y ++ (sep ++ p) ∧ p.length = 2 := by
  obtain ⟨pairs, hlength, hpairs, rfl⟩ := h
  match pairs, hlength with
  | [a, b, c, d, e, f], _ =>
    refine ⟨sep.intercalate [a, b, c, d, e], f, ?_, (hpairs f (by simp)).1⟩
    simp [List.intercalate_cons_cons]

/-- The characters of six pairs are digits and separators. -/
theorem SixPairs.chars (h : SixPairs sep s) : ∀ c ∈ s, isHex c = true ∨ c ∈ sep := by
  obtain ⟨pairs, hlength, hpairs, rfl⟩ := h
  match pairs, hlength with
  | [_, _, _, _, _, _], _ =>
    simp only [List.forall_mem_cons] at hpairs
    simp only [List.intercalate_cons_cons, List.intercalate_singleton, List.mem_append]
    grind

/-- The characters of an address. -/
theorem IsAddress.chars (h : IsAddress s) : ∀ c ∈ s, isHex c = true ∨ c = ':' ∨ c = '-' := by
  intro c hc
  rcases h with h | h | h
  · exact (h.chars c hc).imp_right fun hsep => .inl (by simpa using hsep)
  · exact (h.chars c hc).imp_right fun hsep => .inr (by simpa using hsep)
  · exact .inl ((h.chars c hc).resolve_right (by simp))

/-- An address is twelve or seventeen characters long. -/
theorem IsAddress.length (h : IsAddress s) : s.length = 12 ∨ s.length = 17 := by
  rcases h with h | h | h
  · exact .inr h.length
  · exact .inr h.length
  · exact .inl h.length

/-- No address ends in twelve digits behind something else. -/
theorem IsAddress.eq_nil {u : List Char} (h : IsAddress (u ++ w)) (hw : SixPairs [] w) :
    u = [] := by
  have hsep : ∀ a, isHex a = false → ¬ SixPairs [a] (u ++ w) := by
    intro a ha hs
    obtain ⟨y, p, heq, hp⟩ := hs.exists_last
    have hsuffix : [a] ++ p <:+ w := by
      refine List.suffix_of_suffix_length_le ⟨y, heq.symm⟩ (List.suffix_append u w) ?_
      rw [List.length_append, List.length_singleton, hp, hw.length]
      omega
    have hhex := (hw.chars a (hsuffix.subset (by simp))).resolve_right (by simp)
    rw [ha] at hhex
    cases hhex
  rcases h with h | h | h
  · exact absurd h (hsep ':' (by decide))
  · exact absurd h (hsep '-' (by decide))
  · have hlength := h.length
    rw [List.length_append, hw.length] at hlength
    exact List.length_eq_zero_iff.1 (by omega)

/-- Where the check is exact, the pattern finds no part of a longer text. -/
theorem Exact.nothingElse (h : Exact s) : NothingElse s := by
  have haddress : checkMacAddress s = true → IsAddress s := h.check.1
  constructor
  case colons =>
    intro w v hw heq
    have hlength := (haddress (checkMacAddress_iff.2 (.inl ⟨w, hw, v, heq⟩))).length
    rw [heq, List.length_append, hw.length] at hlength
    rw [List.length_singleton] at hlength
    exact List.length_eq_zero_iff.1 (by omega)
  case hyphens =>
    intro u w v hw heq
    have hlength := (haddress (checkMacAddress_iff.2 (.inr (.inl ⟨u, w, hw, v, heq⟩)))).length
    rw [heq, List.length_append, List.length_append, hw.length] at hlength
    have hzero : u.length = 0 ∧ v.length = 0 := by
      simp only [List.length_singleton] at hlength
      omega
    exact ⟨List.length_eq_zero_iff.1 hzero.1, List.length_eq_zero_iff.1 hzero.2⟩
  case digits =>
    intro u w hw heq
    have hs := haddress (checkMacAddress_iff.2 (.inr (.inr ⟨u, w, hw, .inl heq⟩)))
    exact (heq ▸ hs : IsAddress (u ++ w)).eq_nil hw
  case newline =>
    intro u w hw heq
    have hs := haddress (checkMacAddress_iff.2 (.inr (.inr ⟨u, w, hw, .inr heq⟩)))
    exact absurd (hs.chars '\n' (by simp [heq])) (by decide)

/-- The check is right about a text where the pattern finds nothing but the whole. -/
theorem NothingElse.check (h : NothingElse s) : checkMacAddress s = true ↔ IsAddress s := by
  rw [checkMacAddress_iff]
  constructor
  · rintro (⟨w, hw, v, heq⟩ | ⟨u, w, hw, v, heq⟩ | ⟨u, w, hw, heq | heq⟩)
    · obtain rfl := h.colons w v hw heq
      rw [heq, List.append_nil]
      exact .inl hw
    · obtain ⟨rfl, rfl⟩ := h.hyphens u w v hw heq
      rw [heq, List.append_nil, List.nil_append]
      exact .inr (.inl hw)
    · obtain rfl := h.digits u w hw heq
      exact heq ▸ .inr (.inr hw)
    · exact absurd heq (h.newline u w hw)
  · rintro (hs | hs | hs)
    · exact .inl ⟨s, hs, [], by simp⟩
    · exact .inr (.inl ⟨[], s, hs, [], by simp⟩)
    · exact .inr (.inr ⟨[], s, hs, .inl rfl⟩)

/-- **Addresses and nothing else.** The check is right about a text, and nothing but an address
comes into the query from it, if and only if what the pattern finds in it is not part of a longer
text. -/
theorem exact_iff (s : List Char) : Exact s ↔ NothingElse s := by
  refine ⟨Exact.nothingElse, fun h => ⟨h.check, fun hquery => ?_⟩⟩
  refine h.check.1 (by_contra fun hcheck => hquery ?_)
  rw [updateQuery, if_neg hcheck]

/-- An address with a condition behind it that always holds. -/
def injected : List Char := "aa:bb:cc:dd:ee:ff' OR '1'='1".toList

/-- It is accepted, and comes into the query. -/
theorem not_exact : ¬ ∀ s, Exact s := by
  intro hclaim
  have hcheck : checkMacAddress injected = true := by decide +kernel
  have hlength := ((hclaim injected).check.1 hcheck).length
  exact absurd hlength (by decide)

end DataWindow

end DetectionSystem

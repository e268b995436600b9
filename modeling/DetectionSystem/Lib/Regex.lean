import Mathlib.Computability.Language
import Mathlib.Tactic.Common

/-!
# Regular expressions with anchors

The matcher `run` returns the positions a match from a given position can end at; a position is the
text before it and the text behind it. `isMatch` searches for a match from any position. Without
anchors, a match does not depend on where it stands, and what it can take is a language (`mem_run`).
An anchor binds no further than the expression it is in: in an alternative it holds for that one
only.
-/

/-- Classes of characters, anchors for the beginning and for the end of the text, and what is built
of them. -/
inductive Regex
  | chars (c : Char → Bool)
  | bol
  | eol
  | seq (r₁ r₂ : Regex)
  | alt (r₁ r₂ : Regex)
  | rep (n : ℕ) (r : Regex)

namespace Regex

/-- The text before a position and the text behind it. -/
structure Pos where
  before : List Char
  behind : List Char
deriving DecidableEq, Repr

/-- `n` matches, each from the end of the one before. -/
def repeated (run : Pos → List Pos) : ℕ → Pos → List Pos
  | 0, pos => [pos]
  | n + 1, pos => (run pos).flatMap (repeated run n)

/-- The ends of the matches from a position. The anchor for the end also holds in front of a newline
that ends the text. -/
def run : Regex → Pos → List Pos
  | chars c, pos =>
    match pos.behind with
    | a :: behind => if c a then [⟨pos.before ++ [a], behind⟩] else []
    | [] => []
  | bol, pos => if pos.before = [] then [pos] else []
  | eol, pos => if pos.behind = [] ∨ pos.behind = ['\n'] then [pos] else []
  | seq r₁ r₂, pos => (run r₁ pos).flatMap (run r₂)
  | alt r₁ r₂, pos => run r₁ pos ++ run r₂ pos
  | rep n r, pos => repeated (run r) n pos

/-- The positions of a text. -/
def positions (s : List Char) : List Pos :=
  (List.range (s.length + 1)).map fun n => ⟨s.take n, s.drop n⟩

/-- There is a match somewhere in the text. -/
def isMatch (r : Regex) (s : List Char) : Bool := (positions s).any fun pos => run r pos ≠ []

/-- The expression has no anchors. -/
def AnchorFree : Regex → Prop
  | chars _ => True
  | bol | eol => False
  | seq r₁ r₂ | alt r₁ r₂ => AnchorFree r₁ ∧ AnchorFree r₂
  | rep _ r => AnchorFree r

/-- The texts an expression without anchors matches. -/
def lang : Regex → Language Char
  | chars c => {w | ∃ a, c a = true ∧ w = [a]}
  | bol | eol => 1
  | seq r₁ r₂ => lang r₁ * lang r₂
  | alt r₁ r₂ => lang r₁ + lang r₂
  | rep n r => lang r ^ n

variable {r r₁ r₂ : Regex} {pos q : Pos} {s before behind : List Char}

/-- The positions of a text are the ways to split it. -/
theorem mem_positions : pos ∈ positions s ↔ s = pos.before ++ pos.behind := by
  obtain ⟨before, behind⟩ := pos
  simp only [positions, List.mem_map, List.mem_range, Pos.mk.injEq]
  constructor
  · rintro ⟨n, -, rfl, rfl⟩
    exact (List.take_append_drop n s).symm
  · rintro rfl
    exact ⟨before.length, by rw [List.length_append]; omega, by simp⟩

/-- A text matches if the expression goes through from one of its positions. -/
theorem isMatch_iff : isMatch r s = true ↔
    ∃ before behind, s = before ++ behind ∧ ∃ q, q ∈ run r ⟨before, behind⟩ := by
  simp only [isMatch, List.any_eq_true, mem_positions, decide_eq_true_eq]
  constructor
  · rintro ⟨pos, hs, hne⟩
    exact ⟨pos.before, pos.behind, hs, List.exists_mem_of_ne_nil _ hne⟩
  · rintro ⟨before, behind, hs, q, hq⟩
    exact ⟨⟨before, behind⟩, hs, List.ne_nil_of_mem hq⟩

/-- A class of characters matches the texts of one such character. -/
theorem mem_lang_chars {c : Char → Bool} {w : List Char} :
    w ∈ (chars c).lang ↔ ∃ a, c a = true ∧ w = [a] := Iff.rfl

/-- A match that takes `w`. -/
def Takes (l : Language Char) (pos q : Pos) : Prop :=
  ∃ w ∈ l, pos.behind = w ++ q.behind ∧ q.before = pos.before ++ w

/-- The empty text takes nothing. -/
theorem takes_one : Takes 1 pos q ↔ q = pos := by
  obtain ⟨before, behind⟩ := q
  obtain ⟨before', behind'⟩ := pos
  simp [Takes, Language.mem_one, eq_comm, and_comm]

/-- A union takes what one of the two takes. -/
theorem takes_add {l m : Language Char} : Takes (l + m) pos q ↔ Takes l pos q ∨ Takes m pos q := by
  simp only [Takes, Language.mem_add, or_and_right, exists_or]

/-- A product takes one text after the other. -/
theorem takes_mul {l m : Language Char} :
    Takes (l * m) pos q ↔ ∃ p, Takes l pos p ∧ Takes m p q := by
  constructor
  · rintro ⟨w, hw, hbehind, hbefore⟩
    obtain ⟨u, hu, v, hv, rfl⟩ := Language.mem_mul.1 hw
    exact ⟨⟨pos.before ++ u, v ++ q.behind⟩, ⟨u, hu, by simpa using hbehind, rfl⟩,
      ⟨v, hv, rfl, by simpa using hbefore⟩⟩
  · rintro ⟨p, ⟨u, hu, hpbehind, hpbefore⟩, ⟨v, hv, hbehind, hbefore⟩⟩
    refine ⟨u ++ v, Language.append_mem_mul hu hv, ?_, ?_⟩
    · rw [hpbehind, hbehind, List.append_assoc]
    · rw [hbefore, hpbefore, List.append_assoc]

/-- Repetitions of a matcher that takes the words of a language. -/
theorem mem_repeated {f : Pos → List Pos} {l : Language Char}
    (hf : ∀ pos q, q ∈ f pos ↔ Takes l pos q) (n : ℕ) (pos : Pos) :
    q ∈ repeated f n pos ↔ Takes (l ^ n) pos q := by
  induction n generalizing pos with
  | zero => rw [repeated, List.mem_singleton, pow_zero, takes_one]
  | succ n ih =>
    rw [repeated, List.mem_flatMap, pow_succ', takes_mul]
    simp only [ih, hf]

/-- **Matches are words.** A match of an expression without anchors takes a word of its language. -/
theorem mem_run (h : r.AnchorFree) : q ∈ run r pos ↔ Takes r.lang pos q := by
  induction r generalizing pos q with
  | chars c =>
    unfold run
    constructor
    · intro hmem
      split at hmem
      case h_1 a behind hbehind =>
        split at hmem
        case isTrue hc =>
          obtain rfl := List.mem_singleton.1 hmem
          exact ⟨[a], mem_lang_chars.2 ⟨a, hc, rfl⟩, hbehind, rfl⟩
        case isFalse => cases hmem
      case h_2 => cases hmem
    · rintro ⟨w, hw, hbehind, hbefore⟩
      obtain ⟨a, hc, rfl⟩ := mem_lang_chars.1 hw
      rw [hbehind]
      show q ∈ if c a = true then [⟨pos.before ++ [a], q.behind⟩] else []
      rw [if_pos hc, ← hbefore]
      exact List.mem_singleton_self q
  | bol | eol => exact h.elim
  | seq r₁ r₂ ih₁ ih₂ =>
    simp only [run, List.mem_flatMap, lang, takes_mul, ih₁ h.1, ih₂ h.2]
  | alt r₁ r₂ ih₁ ih₂ => simp only [run, List.mem_append, lang, takes_add, ih₁ h.1, ih₂ h.2]
  | rep n r ih =>
    simp only [run, lang]
    exact mem_repeated (fun _ _ => ih h) n pos

/-- A search for a word, without anchors. -/
theorem exists_mem_run (h : r.AnchorFree) :
    (∃ before behind, s = before ++ behind ∧ ∃ q, q ∈ run r ⟨before, behind⟩) ↔
      ∃ u, ∃ w ∈ r.lang, ∃ v, s = u ++ w ++ v := by
  simp only [mem_run h]
  constructor
  · rintro ⟨before, behind, rfl, q, w, hw, rfl, -⟩
    exact ⟨before, w, hw, q.behind, (List.append_assoc ..).symm⟩
  · rintro ⟨u, w, hw, v, rfl⟩
    exact ⟨u, w ++ v, List.append_assoc .., ⟨u ++ w, v⟩, w, hw, rfl, rfl⟩

/-- A word at the beginning. -/
theorem exists_mem_run_bol (h : r.AnchorFree) :
    (∃ before behind, s = before ++ behind ∧ ∃ q, q ∈ run (seq bol r) ⟨before, behind⟩) ↔
      ∃ w ∈ r.lang, ∃ v, s = w ++ v := by
  simp only [run, List.mem_flatMap]
  constructor
  · rintro ⟨before, behind, rfl, q, p, hp, hq⟩
    split at hp
    case isFalse => cases hp
    case isTrue hbefore =>
      obtain rfl := List.mem_singleton.1 hp
      obtain ⟨w, hw, hbehind, -⟩ := (mem_run h).1 hq
      dsimp only at hbefore hbehind
      exact ⟨w, hw, q.behind, by rw [hbefore, hbehind]; rfl⟩
  · rintro ⟨w, hw, v, rfl⟩
    exact ⟨[], w ++ v, rfl, ⟨w, v⟩, ⟨[], w ++ v⟩, by simp, (mem_run h).2 ⟨w, hw, rfl, rfl⟩⟩

/-- A word at the end, or in front of a newline that ends the text. -/
theorem exists_mem_run_eol (h : r.AnchorFree) :
    (∃ before behind, s = before ++ behind ∧ ∃ q, q ∈ run (seq r eol) ⟨before, behind⟩) ↔
      ∃ u, ∃ w ∈ r.lang, s = u ++ w ∨ s = u ++ w ++ ['\n'] := by
  simp only [run, List.mem_flatMap]
  constructor
  · rintro ⟨before, behind, rfl, q, p, hp, hq⟩
    obtain ⟨w, hw, hbehind, -⟩ := (mem_run h).1 hp
    dsimp only at hbehind
    split at hq
    case isFalse => cases hq
    case isTrue hend =>
      refine ⟨before, w, hw, hend.imp (fun hnil => ?_) fun hnewline => ?_⟩
      · rw [hbehind, hnil, List.append_nil]
      · rw [hbehind, hnewline, List.append_assoc]
  · rintro ⟨u, w, hw, rfl | rfl⟩
    · exact ⟨u, w, rfl, ⟨u ++ w, []⟩, ⟨u ++ w, []⟩,
        (mem_run h).2 ⟨w, hw, by simp, rfl⟩, by simp⟩
    · exact ⟨u, w ++ ['\n'], List.append_assoc .., ⟨u ++ w, ['\n']⟩, ⟨u ++ w, ['\n']⟩,
        (mem_run h).2 ⟨w, hw, rfl, rfl⟩, by simp⟩

/-- A union matches where one of the two does. -/
theorem isMatch_alt : isMatch (alt r₁ r₂) s = true ↔ isMatch r₁ s = true ∨ isMatch r₂ s = true := by
  simp only [isMatch_iff, run, List.mem_append]
  constructor
  · rintro ⟨before, behind, hs, q, hq | hq⟩
    · exact .inl ⟨before, behind, hs, q, hq⟩
    · exact .inr ⟨before, behind, hs, q, hq⟩
  · rintro (⟨before, behind, hs, q, hq⟩ | ⟨before, behind, hs, q, hq⟩)
    · exact ⟨before, behind, hs, q, .inl hq⟩
    · exact ⟨before, behind, hs, q, .inr hq⟩

/-! ## Words -/

/-- A number of characters of a class. -/
theorem mem_lang_rep_chars {c : Char → Bool} {n : ℕ} {w : List Char} :
    w ∈ (rep n (chars c)).lang ↔ w.length = n ∧ ∀ a ∈ w, c a = true := by
  induction n generalizing w with
  | zero =>
    rw [lang, pow_zero, Language.mem_one, List.length_eq_zero_iff]
    refine ⟨fun hw => ⟨hw, ?_⟩, fun hw => hw.1⟩
    simp [hw]
  | succ n ih =>
    rw [lang] at ih ⊢
    rw [pow_succ', Language.mem_mul]
    constructor
    · rintro ⟨u, hu, v, hv, rfl⟩
      obtain ⟨a, hc, rfl⟩ := mem_lang_chars.1 hu
      obtain ⟨hlength, hv⟩ := ih.1 hv
      exact ⟨by simp [hlength], List.forall_mem_cons.2 ⟨hc, hv⟩⟩
    · rintro ⟨hlength, hw⟩
      obtain ⟨a, w, rfl⟩ := List.exists_cons_of_length_eq_add_one hlength
      rw [List.forall_mem_cons] at hw
      exact ⟨[a], mem_lang_chars.2 ⟨a, hw.1, rfl⟩, w, ih.2 ⟨by simpa using hlength, hw.2⟩, rfl⟩

/-- Words of `l`, each but the last one in front of a separator. -/
theorem mem_pow_mul {l : Language Char} {sep w : List Char} {n : ℕ} :
    w ∈ (l * {sep}) ^ n * l ↔
      ∃ words : List (List Char), words.length = n + 1 ∧ (∀ u ∈ words, u ∈ l) ∧
        w = sep.intercalate words := by
  induction n generalizing w with
  | zero =>
    rw [pow_zero, one_mul]
    constructor
    · exact fun hw => ⟨[w], rfl, by simpa using hw, by simp⟩
    · rintro ⟨words, hlength, hwords, rfl⟩
      obtain ⟨u, rfl⟩ := List.length_eq_one_iff.1 hlength
      simpa using hwords u (by simp)
  | succ n ih =>
    rw [pow_succ', mul_assoc, mul_assoc, Language.mem_mul]
    constructor
    · rintro ⟨u, hu, rest, hrest, rfl⟩
      obtain ⟨sep', hsep, v, hv, rfl⟩ := Language.mem_mul.1 hrest
      obtain rfl : sep' = sep := hsep
      obtain ⟨words, hlength, hwords, rfl⟩ := ih.1 hv
      obtain ⟨u', words, rfl⟩ := List.exists_cons_of_length_eq_add_one hlength
      refine ⟨u :: u' :: words, by simpa using hlength, ?_, by simp⟩
      exact List.forall_mem_cons.2 ⟨hu, hwords⟩
    · rintro ⟨words, hlength, hwords, rfl⟩
      obtain ⟨u, words, rfl⟩ := List.exists_cons_of_length_eq_add_one hlength
      have hlength' : words.length = n + 1 := by simpa using hlength
      obtain ⟨u', words, rfl⟩ := List.exists_cons_of_length_eq_add_one hlength'
      rw [List.forall_mem_cons] at hwords
      refine ⟨u, hwords.1, sep ++ sep.intercalate (u' :: words), ?_, by simp⟩
      exact Language.append_mem_mul rfl (ih.2 ⟨u' :: words, hlength', hwords.2, rfl⟩)

end Regex

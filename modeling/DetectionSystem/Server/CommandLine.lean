import DetectionSystem.DataWindow.MapOfDevices
import DetectionSystem.Server.Participation
import Mathlib.Data.List.TakeWhile

/-!
# The command line of the server

`Home` prints the configuration into one line of text, which `Process.Start` hands to the server;
there the C runtime splits it into `argv`, and `main` reads the numbers off with `strtol`. The
window that starts the server splits the same line by itself, for the number of receivers.

`started_iff` connects this to `Launch.args`: for numbers, the server is started with what `Home`
was given, and with more than eight receivers not at all. `boxes_reach_iff` is about the text boxes,
which may hold anything: a blank box leaves no argument, and what stands behind it moves up.
-/

namespace DetectionSystem

namespace Participation

open MapOfDevices

/-! ## What the programs do -/

/-- The line that `Home` prints. -/
def commandLine (db_erase num : List Char) (boxes : List (List Char)) : List Char :=
  db_erase ++ ' ' :: num ++ boxes.flatMap (' ' :: ·)

/-- The text of the eight pairs of boxes, one after another. -/
def boxTexts (box : ℕ → List Char × List Char) : List (List Char) :=
  (List.range 8).flatMap fun k => [(box k).1, (box k).2]

/-- `Button_Click`: the line for the number that is shown and the contents of the boxes. -/
def Button_Click (num : ℕ) (box : ℕ → List Char × List Char) : List Char :=
  commandLine ['1'] (longText num) (boxTexts box)

/-- `Old_Config_Click`: the line for the rows of an old configuration; `none` where it refuses. -/
def Old_Config_Click (rows : List Esp) : Option (List Char) :=
  if rows.length = 0 then none
  else some <| commandLine ['0'] (longText rows.length) <| boxTexts fun k =>
    match rows[k]? with
    | some row => (longText row.x, longText row.y)
    | none => (['0'], ['0'])

/-- `Convert.ToInt32(args.Split(' ')[1])`, as the text that is converted. -/
def espNumberText (args : List Char) : Option (List Char) := (args.splitOnP (· = ' '))[1]?

/-- What separates arguments. -/
def isBlank (c : Char) : Bool := c = ' ' ∨ c = '\t'

/-- Where the C runtime is in quotes: outside, inside, or at a quotation mark inside, which ends
them unless it is doubled. -/
inductive Quotes
  | outside
  | inside
  | closing
deriving DecidableEq, Repr

/-- The arguments in a command line, with `numslash` backslashes not copied yet. Before a quotation
mark, two of them stand for one and an odd one makes the mark a character. -/
def parse_cmdline : List Char → Quotes → ℕ → Option (List Char) → List (List Char)
  | [], _, numslash, arg =>
    if numslash = 0 then arg.toList else [arg.getD [] ++ List.replicate numslash '\\']
  | c :: cs, quotes, numslash, arg =>
    if c = '\\' then
      parse_cmdline cs (if quotes = .closing then .outside else quotes) (numslash + 1) arg
    else if c = '"' then
      let arg := arg.getD [] ++ List.replicate (numslash / 2) '\\'
      if numslash % 2 = 1 then parse_cmdline cs quotes 0 (some (arg ++ [c]))
      else
        match quotes with
        | .outside => parse_cmdline cs .inside 0 (some arg)
        | .inside => parse_cmdline cs .closing 0 (some arg)
        | .closing => parse_cmdline cs .inside 0 (some (arg ++ [c]))
    else if quotes ≠ .inside ∧ isBlank c then
      if numslash = 0 then arg.toList ++ parse_cmdline cs .outside 0 none
      else (arg.getD [] ++ List.replicate numslash '\\') :: parse_cmdline cs .outside 0 none
    else
      parse_cmdline cs (if quotes = .closing then .outside else quotes) 0
        (some (arg.getD [] ++ List.replicate numslash '\\' ++ [c]))

/-- `argv` of the server. -/
def argv (fileN args : List Char) : List (List Char) := fileN :: parse_cmdline args .outside 0 none

/-- `strtol(s, nullptr, 10)`, for a `long` of 32 bits. -/
def strtol (s : List Char) : ℤ :=
  let digits := fun s : List Char => (Nat.ofDigitChars 10 (s.takeWhile Char.isDigit) 0 : ℤ)
  match s.dropWhile PacketProcessor.isSpace with
  | '-' :: s => max (-digits s) (-2 ^ 31)
  | '+' :: s => min (digits s) (2 ^ 31 - 1)
  | s => min (digits s) (2 ^ 31 - 1)

/-- How `main` fails: by its exception, or at the null pointer behind the last argument. -/
inductive MainError
  | badArgList
  | nullArgument
deriving DecidableEq, Repr

/-- `main`, up to the construction of the server; `espn * 2` is taken not to overflow. A negative
number stands as 0, which the constructor does not accept either. -/
def serverMain (argv : List (List Char)) : Except MainError Args :=
  match argv with
  | _ :: db_erase :: espn :: coordinates => do
    let espn := (strtol espn).toNat
    let coord ← (List.range (2 * espn)).mapM fun i =>
      match coordinates[i]? with
      | some s => .ok (strtol s)
      | none => .error .nullArgument
    .ok ⟨strtol db_erase, espn, coord⟩
  | _ => .error .badArgList

/-! ## Words -/

/-- The words of a text. -/
def words (s : List Char) : List (List Char) := (s.splitOnP isBlank).filter (· ≠ [])

/-- A text that is one word. -/
def IsWord (s : List Char) : Prop := s ≠ [] ∧ ∀ c ∈ s, isBlank c = false

/-- Whether a text is a word can be decided. -/
instance (s : List Char) : Decidable (IsWord s) := inferInstanceAs (Decidable (_ ∧ _))

variable {s w a b : List Char}

/-- A word is its only word. -/
theorem words_of_isWord (h : IsWord w) : words w = [w] := by
  rw [words, List.splitOnP_eq_singleton h.2, List.filter_singleton]
  simp [h.1]

/-- A blank separates words. -/
theorem words_append_blank (a b : List Char) : words (a ++ ' ' :: b) = words a ++ words b := by
  rw [words, List.splitOnP_append_cons a b (by decide), List.filter_append]
  rfl

/-- Outside quotation marks, with some of an argument read: the text up to a blank or the end is
split at the blanks, and its first piece belongs to the argument. -/
theorem parse_cmdline_append {rest : List Char} (hrest : rest = [] ∨ ∃ b, rest = ' ' :: b)
    (h : '"' ∉ s) (numslash : ℕ) (arg : Option (List Char)) (harg : ∀ a ∈ arg, a ≠ []) :
    parse_cmdline (s ++ rest) .outside numslash arg =
      ((s.splitOnP isBlank).modifyHead
        (arg.getD [] ++ List.replicate numslash '\\' ++ ·)).filter (· ≠ []) ++
        parse_cmdline rest .outside 0 none := by
  induction s generalizing numslash arg with
  | nil =>
    have hend : (if numslash = 0 then arg.toList
        else [arg.getD [] ++ List.replicate numslash '\\']) =
        [arg.getD [] ++ List.replicate numslash '\\'].filter (· ≠ []) := by
      split
      case isTrue h0 =>
        subst h0
        cases arg with
        | none => rfl
        | some a => simp [harg a rfl]
      case isFalse h0 => simp [h0]
    rw [List.splitOnP_nil, List.modifyHead_cons, List.append_nil, ← hend, List.nil_append]
    rcases hrest with rfl | ⟨b, rfl⟩
    · exact (List.append_nil _).symm
    · have hstep : ∀ n arg, parse_cmdline (' ' :: b) .outside n arg =
          if n = 0 then arg.toList ++ parse_cmdline b .outside 0 none
          else (arg.getD [] ++ List.replicate n '\\') :: parse_cmdline b .outside 0 none :=
        fun n arg => rfl
      rw [hstep, hstep, if_pos rfl]
      split <;> rfl
  | cons c cs ih =>
    rw [List.mem_cons, not_or] at h
    obtain ⟨hc, hcs⟩ := h
    rw [List.cons_append, parse_cmdline, List.splitOnP_cons_eq_if_modifyHead]
    by_cases hslash : c = '\\'
    · subst hslash
      rw [if_pos rfl, if_neg (by decide), if_neg (by decide), ih hcs _ _ harg,
        List.modifyHead_modifyHead]
      congr 3
      funext x
      simp [List.replicate_succ']
    rw [if_neg hslash, if_neg (fun heq => hc heq.symm)]
    by_cases hblank : isBlank c = true
    · have hnext : parse_cmdline (cs ++ rest) .outside 0 none =
          (cs.splitOnP isBlank).filter (· ≠ []) ++ parse_cmdline rest .outside 0 none := by
        rw [ih hcs 0 none (by simp)]
        cases cs.splitOnP isBlank <;> rfl
      rw [if_pos ⟨by decide, hblank⟩, if_pos hblank, hnext, List.modifyHead_cons, List.append_nil,
        List.filter_cons]
      split
      case isTrue h0 =>
        subst h0
        cases arg with
        | none => simp
        | some a => simp [harg a rfl]
      case isFalse h0 => simp [h0]
    · rw [if_neg (fun hand => hblank hand.2), if_neg hblank, if_neg (by decide),
        ih hcs 0 _ (by simp), List.modifyHead_modifyHead]
      congr 3
      funext x
      simp

/-- The words before a blank are arguments, whatever stands behind it. -/
theorem argv_append {rest : List Char} (hrest : rest = [] ∨ ∃ b, rest = ' ' :: b) (h : '"' ∉ s)
    (fileN : List Char) :
    argv fileN (s ++ rest) = fileN :: (words s ++ parse_cmdline rest .outside 0 none) := by
  rw [argv, parse_cmdline_append hrest h 0 none (by simp), words]
  cases s.splitOnP isBlank <;> rfl

/-- Without quotation marks, the arguments are the words. -/
theorem argv_eq (h : '"' ∉ s) (fileN : List Char) : argv fileN s = fileN :: words s := by
  have happend := argv_append (.inl rfl) h fileN
  rw [List.append_nil] at happend
  exact happend.trans (congrArg (fileN :: ·) (List.append_nil _))

/-- The words of the line that `Home` prints are those of its parts. -/
theorem words_commandLine (db_erase num : List Char) (boxes : List (List Char)) :
    words (commandLine db_erase num boxes) = words db_erase ++ words num ++ boxes.flatMap words := by
  have hboxes : ∀ a, words (a ++ boxes.flatMap (' ' :: ·)) = words a ++ boxes.flatMap words := by
    induction boxes with
    | nil => simp
    | cons b bs ih =>
      intro a
      rw [List.flatMap_cons, List.cons_append, words_append_blank, ih, List.flatMap_cons]
  rw [commandLine, hboxes, words_append_blank]

/-! ## Numbers -/

/-- The text of a number has a sign and digits. -/
theorem isDigit_of_mem_longText {n : ℤ} {c : Char} (h : c ∈ longText n) :
    c = '-' ∨ c.isDigit = true := by
  have hdigit : c ∈ Nat.toDigits 10 n.natAbs → c.isDigit = true :=
    Nat.isDigit_of_mem_toDigits (by decide) (by decide)
  unfold longText at h
  split at h
  · exact (List.mem_cons.1 h).imp_right hdigit
  · exact .inr (hdigit h)

/-- The text of a number is a word, without quotation marks. -/
theorem isWord_longText (n : ℤ) : IsWord (longText n) ∧ '"' ∉ longText n := by
  refine ⟨⟨?_, fun c hc => ?_⟩, fun hquote => ?_⟩
  · unfold longText
    split
    · exact List.cons_ne_nil _ _
    · exact Nat.toDigits_ne_nil
  · rw [Bool.eq_false_iff]
    intro hblank
    rcases (by simpa [isBlank] using hblank : c = ' ' ∨ c = '\t') with rfl | rfl <;>
      exact absurd (isDigit_of_mem_longText hc) (by decide)
  · exact absurd (isDigit_of_mem_longText hquote) (by decide)

/-- A digit is no white space and no sign. -/
theorem isDigit_ne {c : Char} (h : c.isDigit = true) :
    PacketProcessor.isSpace c = false ∧ c ≠ '-' ∧ c ≠ '+' := by
  refine ⟨?_, ?_, ?_⟩
  · have hrange : 48 ≤ c.toNat := by
      simp only [Char.isDigit, Bool.and_eq_true, decide_eq_true_eq] at h
      exact h.1
    rw [PacketProcessor.isSpace, decide_eq_false_iff_not]
    omega
  · rintro rfl
    exact absurd h (by decide)
  · rintro rfl
    exact absurd h (by decide)

/-- A number is what its digits are read as. -/
theorem ofDigitChars_takeWhile (i : ℕ) :
    Nat.ofDigitChars 10 ((Nat.toDigits 10 i).takeWhile Char.isDigit) 0 = i := by
  have hall : (Nat.toDigits 10 i).takeWhile Char.isDigit = Nat.toDigits 10 i :=
    List.takeWhile_eq_self_iff.2 fun _ => Nat.isDigit_of_mem_toDigits (by decide) (by decide)
  rw [hall, Nat.ofDigitChars_ten_toDigits]

/-- The server reads the number that was printed. -/
theorem strtol_longText {n : ℤ} (hlo : -2 ^ 31 ≤ n) (hhi : n < 2 ^ 31) :
    strtol (longText n) = n := by
  rcases lt_or_ge n 0 with hneg | hpos
  · have htext : longText n = '-' :: Nat.toDigits 10 n.natAbs := if_pos hneg
    rw [strtol, htext, List.dropWhile_cons_of_neg (by decide)]
    change max (-(Nat.ofDigitChars 10 ((Nat.toDigits 10 n.natAbs).takeWhile Char.isDigit) 0 : ℤ))
      (-2 ^ 31) = n
    rw [ofDigitChars_takeWhile]
    omega
  · have htext : longText n = Nat.toDigits 10 n.natAbs := if_neg hpos.not_gt
    obtain ⟨d, ds, hds⟩ := List.exists_cons_of_ne_nil (Nat.toDigits_ne_nil (n := n.natAbs) (b := 10))
    obtain ⟨hspace, hminus, hplus⟩ := isDigit_ne
      (Nat.isDigit_of_mem_toDigits (by decide) (by decide) (hds ▸ List.mem_cons_self))
    rw [strtol, htext, hds, List.dropWhile_cons_of_neg (by simp [hspace])]
    dsimp only
    split
    case h_1 heq => exact absurd (List.cons.inj heq).1 hminus
    case h_2 heq => exact absurd (List.cons.inj heq).1 hplus
    case h_3 =>
      rw [← hds, ofDigitChars_takeWhile]
      omega

/-! ## The boxes -/

/-- The command line has quotation marks only where a box has. -/
theorem quote_notMem_commandLine {boxes : List (List Char)} (h : ∀ b ∈ boxes, '"' ∉ b)
    {db_erase : List Char} (hdb : '"' ∉ db_erase) (num : ℕ) :
    '"' ∉ commandLine db_erase (longText num) boxes := by
  intro hmem
  rw [commandLine, List.mem_append, List.mem_append, List.mem_cons, List.mem_flatMap] at hmem
  rcases hmem with (hmem | heq | hmem) | ⟨b, hb, hmem⟩
  · exact hdb hmem
  · exact absurd heq (by decide)
  · exact (isWord_longText num).2 hmem
  · rcases List.mem_cons.1 hmem with heq | hmem
    · exact absurd heq (by decide)
    · exact h b hb hmem

/-- The words of the command line are the first two numbers and then the words of the boxes. -/
theorem words_commandLine_number {d : Char} (hd : isBlank d = false) (num : ℕ)
    (boxes : List (List Char)) :
    words (commandLine [d] (longText num) boxes) = [d] :: longText num :: boxes.flatMap words := by
  have hword : IsWord [d] := ⟨List.cons_ne_nil _ _, by simpa using hd⟩
  rw [words_commandLine, words_of_isWord hword, words_of_isWord (isWord_longText num).1]
  rfl

/-- There are sixteen boxes. -/
theorem length_boxTexts (box : ℕ → List Char × List Char) : (boxTexts box).length = 16 := by
  simp [boxTexts, List.length_flatMap]

/-- Words stay what they are. -/
theorem flatMap_words {bs : List (List Char)} (h : ∀ b ∈ bs, IsWord b) : bs.flatMap words = bs := by
  induction bs with
  | nil => rfl
  | cons b bs ih =>
    rw [List.forall_mem_cons] at h
    rw [List.flatMap_cons, words_of_isWord h.1, ih h.2]
    rfl

/-- The words of a text are words. -/
theorem isWord_of_mem_words (h : w ∈ words s) : IsWord w := by
  have hpieces : ∀ w ∈ s.splitOnP isBlank, ∀ c ∈ w, isBlank c = false := by
    clear h
    induction s with
    | nil => simp [List.splitOnP_nil]
    | cons c cs ih =>
      rw [List.splitOnP_cons_eq_if_modifyHead]
      split
      case isTrue => simpa using ih
      case isFalse hc =>
        cases hcs : cs.splitOnP isBlank with
        | nil => simp
        | cons piece pieces =>
          rw [hcs, List.forall_mem_cons] at ih
          rw [List.modifyHead_cons, List.forall_mem_cons, List.forall_mem_cons]
          exact ⟨⟨by simpa using hc, ih.1⟩, ih.2⟩
  obtain ⟨hmem, hne⟩ := List.mem_filter.1 h
  exact ⟨by simpa using hne, hpieces w hmem⟩

/-- The window that starts the server takes the number that is shown, whatever is in the boxes. -/
theorem espNumberText_Button_Click (num : ℕ) (box : ℕ → List Char × List Char) :
    espNumberText (Button_Click num box) = some (longText num) := by
  obtain ⟨b, bs, hbs⟩ : ∃ b bs, boxTexts box = b :: bs := ⟨_, _, rfl⟩
  have hnum : ∀ c ∈ longText num, decide (c = ' ') = false := by
    intro c hc
    have := (isWord_longText num).1.2 c hc
    simp only [isBlank, decide_eq_false_iff_not, not_or] at this
    exact decide_eq_false this.1
  have hline : Button_Click num box =
      ['1'] ++ ' ' :: (longText num ++ ' ' :: (b ++ bs.flatMap (' ' :: ·))) := by
    simp [Button_Click, commandLine, hbs]
  have hone : ∀ c ∈ ['1'], decide (c = ' ') = false := by simp
  rw [espNumberText, hline,
    List.splitOnP_append_cons_of_forall_mem hone ' ' (decide_eq_true rfl),
    List.splitOnP_append_cons_of_forall_mem hnum ' ' (decide_eq_true rfl)]
  rfl

/-- **The boxes.** Whatever is typed, but for quotation marks: the server gets the words of all
boxes behind the number of receivers that is shown, so that a box without a word leaves no argument
and what stands behind it moves up. The window and the server take the same number, and the
arguments from the fourth on are the contents of the boxes of these receivers exactly if each of the
boxes holds one word. -/
theorem boxes_reach_iff (fileN : List Char) (num : ℕ) (box : ℕ → List Char × List Char)
    (hquote : ∀ b ∈ boxTexts box, '"' ∉ b) :
    argv fileN (Button_Click num box) =
        fileN :: ['1'] :: longText num :: (boxTexts box).flatMap words ∧
      espNumberText (Button_Click num box) = some (longText num) ∧
      (argv fileN (Button_Click num box))[2]? = some (longText num) ∧
      ((∀ k < 2 * num, (argv fileN (Button_Click num box))[3 + k]? = (boxTexts box)[k]?) ↔
        ∀ b ∈ (boxTexts box).take (2 * num), IsWord b) := by
  have hargv : argv fileN (Button_Click num box) =
      fileN :: ['1'] :: longText num :: (boxTexts box).flatMap words := by
    rw [Button_Click, argv_eq (quote_notMem_commandLine hquote (by decide) num),
      words_commandLine_number (by decide)]
  have harg : ∀ k, (argv fileN (Button_Click num box))[3 + k]? =
      ((boxTexts box).flatMap words)[k]? := by
    intro k
    rw [hargv, Nat.add_comm]
    rfl
  refine ⟨hargv, espNumberText_Button_Click num box, by rw [hargv]; rfl, ?_⟩
  simp only [harg]
  constructor
  · intro h b hb
    obtain ⟨k, hk, rfl⟩ := List.mem_iff_getElem.1 hb
    have hlt : k < 2 * num := (List.length_take_le _ _).trans_lt' hk
    have hbox : (boxTexts box)[k]? = some ((boxTexts box).take (2 * num))[k] := by
      rw [← List.getElem?_take_of_lt hlt, List.getElem?_eq_getElem hk]
    obtain ⟨b', -, hword⟩ := List.mem_flatMap.1 (List.mem_of_getElem? ((h k hlt).trans hbox))
    exact isWord_of_mem_words hword
  · intro h k hk
    have hsplit : (boxTexts box).flatMap words =
        (boxTexts box).take (2 * num) ++ ((boxTexts box).drop (2 * num)).flatMap words := by
      conv_lhs => rw [← List.take_append_drop (2 * num) (boxTexts box)]
      rw [List.flatMap_append, flatMap_words h]
    rcases Nat.lt_or_ge k ((boxTexts box).take (2 * num)).length with hlt | hge
    · rw [hsplit, List.getElem?_append_left hlt, List.getElem?_take_of_lt hk]
    · -- there are not so many boxes
      rw [List.length_take, length_boxTexts] at hge
      have hdrop : (boxTexts box).drop (2 * num) = [] :=
        List.drop_eq_nil_of_le (by rw [length_boxTexts]; omega)
      rw [hsplit, hdrop, List.flatMap_nil, List.append_nil, List.getElem?_take_of_lt hk]

/-- One receiver at (70, 25), where the first box was left blank. -/
def blankFirst (k : ℕ) : List Char × List Char :=
  if k = 0 then ([], ['7', '0']) else if k = 1 then (['2', '5'], ['0']) else (['0'], ['0'])

/-- The blank box shifts what is behind it: the server reads 70 and 25 as the first two boxes. -/
theorem boxes_reach_iff_blankFirst :
    (argv [] (Button_Click 1 blankFirst)).take 5 = [[], ['1'], ['1'], ['7', '0'], ['2', '5']] ∧
      ¬∀ k < 2 * 1, (argv [] (Button_Click 1 blankFirst))[3 + k]? = (boxTexts blankFirst)[k]? := by
  obtain ⟨hargv, -, -, hiff⟩ := boxes_reach_iff [] 1 blankFirst (by decide)
  refine ⟨?_, fun h => absurd (hiff.1 h) (by decide)⟩
  rw [hargv]
  decide +kernel

/-! ## The numbers -/

/-- A number that fits an `int`. -/
def IsInt (n : ℤ) : Prop := -2 ^ 31 ≤ n ∧ n < 2 ^ 31

/-- The line for a launch, with the numbers of a new configuration typed into the boxes. -/
def Launch.line : Launch → Option (List Char)
  | .newConfig num boxes =>
    some (Button_Click num fun k => (longText (boxes k).1, longText (boxes k).2))
  | .oldConfig rows => Old_Config_Click rows

/-- The numbers of a launch fit; `main` also doubles the number of receivers. -/
def Launch.InRange : Launch → Prop
  | .newConfig num boxes => num ≤ 8 ∧ ∀ k < 8, IsInt (boxes k).1 ∧ IsInt (boxes k).2
  | .oldConfig rows => IsInt (2 * rows.length) ∧ ∀ row ∈ rows, IsInt row.x ∧ IsInt row.y

section
variable {pair : ℕ → ℤ × ℤ}

/-- The boxes of numbers. -/
theorem boxTexts_longText (pair : ℕ → ℤ × ℤ) :
    boxTexts (fun k => (longText (pair k).1, longText (pair k).2)) =
      (coordinates pair).map longText := by
  rw [boxTexts, coordinates, List.map_flatMap]
  rfl

/-- A loop in which nothing fails. -/
theorem mapM_ok {α β ε : Type} {f : α → Except ε β} {g : α → β} {as : List α}
    (h : ∀ a ∈ as, f a = .ok (g a)) : as.mapM f = .ok (as.map g) := by
  induction as with
  | nil => rfl
  | cons a as ih =>
    rw [List.forall_mem_cons] at h
    rw [List.mapM_cons, h.1, ih h.2]
    rfl

/-- A loop that fails, in only one way. -/
theorem mapM_error {α β ε : Type} {f : α → Except ε β} {e : ε} {as : List α}
    (hall : ∀ a ∈ as, (∃ b, f a = .ok b) ∨ f a = .error e) (hex : ∃ a ∈ as, f a = .error e) :
    as.mapM f = .error e := by
  induction as with
  | nil => simp at hex
  | cons a as ih =>
    rw [List.forall_mem_cons] at hall
    rw [List.mapM_cons]
    rcases hall.1 with ⟨b, hb⟩ | hfail
    · have hrest : ∃ a ∈ as, f a = .error e := by
        obtain ⟨a', ha', hfail⟩ := hex
        rcases List.mem_cons.1 ha' with rfl | ha'
        · cases hb.symm.trans hfail
        · exact ⟨a', ha', hfail⟩
      rw [hb, ih hall.2 hrest]
      rfl
    · rw [hfail]
      rfl

/-- There are sixteen coordinates. -/
theorem length_coordinates (pair : ℕ → ℤ × ℤ) : (coordinates pair).length = 16 := by
  simp [coordinates, List.length_flatMap]

/-- The server reads as many numbers as it takes, and nothing behind them. -/
theorem serverMain_numbers (fileN db_erase : List Char) {n : ℕ} (hn : IsInt n) {cs : List ℤ}
    (hlength : cs.length = 2 * n) (hcs : ∀ c ∈ cs, IsInt c) (more : List (List Char)) :
    serverMain (fileN :: db_erase :: longText n :: (cs.map longText ++ more)) =
      .ok ⟨strtol db_erase, n, cs⟩ := by
  have hcoord : (List.range (2 * n)).map (fun i => cs[i]?.getD 0) = cs := by
    refine List.ext_getElem? fun i => ?_
    rw [List.getElem?_map]
    rcases Nat.lt_or_ge i cs.length with hlt | hge
    · rw [List.getElem?_range (hlength ▸ hlt), Option.map_some, List.getElem?_eq_getElem hlt]
      rfl
    · have hrange : (List.range (2 * n)).length ≤ i := by rwa [List.length_range, ← hlength]
      rw [List.getElem?_eq_none hge, List.getElem?_eq_none hrange]
      rfl
  unfold serverMain
  dsimp only
  rw [strtol_longText hn.1 hn.2, Int.toNat_natCast, mapM_ok (g := fun i => cs[i]?.getD 0), hcoord]
  · rfl
  · intro i hi
    have hlt : i < cs.length := by rw [hlength]; exact List.mem_range.1 hi
    have hint := hcs _ (List.getElem_mem hlt)
    rw [List.getElem?_append_left (by rwa [List.length_map]), List.getElem?_map,
      List.getElem?_eq_getElem hlt]
    exact congrArg _ (strtol_longText hint.1 hint.2)

/-- What the server is started with, for numbers in the boxes. -/
theorem serverMain_commandLine (fileN : List Char) {d : Char} (hquote : '"' ∉ [d])
    (hd : isBlank d = false) {n : ℕ} (hn : IsInt n) (hpair : ∀ c ∈ coordinates pair, IsInt c) :
    serverMain (argv fileN (commandLine [d] (longText n)
        (boxTexts fun k => (longText (pair k).1, longText (pair k).2)))) =
      if n ≤ 8 then .ok (main (strtol [d]) n (coordinates pair)) else .error .nullArgument := by
  have hboxes := boxTexts_longText pair
  have hargs : (boxTexts fun k => (longText (pair k).1, longText (pair k).2)).flatMap words =
      (coordinates pair).map longText := by
    rw [flatMap_words, hboxes]
    rw [hboxes, List.forall_mem_map]
    exact fun c _ => (isWord_longText c).1
  have hplain : ∀ b ∈ boxTexts fun k => (longText (pair k).1, longText (pair k).2), '"' ∉ b := by
    rw [hboxes, List.forall_mem_map]
    exact fun c _ => (isWord_longText c).2
  rw [argv_eq (quote_notMem_commandLine hplain hquote n), words_commandLine_number hd, hargs]
  split
  case isTrue hle =>
    have hlength : ((coordinates pair).take (2 * n)).length = 2 * n := by
      rw [List.length_take, length_coordinates]
      omega
    have hnumbers := serverMain_numbers fileN [d] hn hlength
      (fun c hc => hpair c (List.mem_of_mem_take hc))
      (((coordinates pair).drop (2 * n)).map longText)
    rwa [← List.map_append, List.take_append_drop] at hnumbers
  case isFalse hgt =>
    have hnone : ((coordinates pair).map longText)[16]? = none :=
      List.getElem?_eq_none (by rw [List.length_map, length_coordinates])
    rw [serverMain, strtol_longText hn.1 hn.2, Int.toNat_natCast,
      mapM_error (e := .nullArgument) (fun i _ => ?_)
      ⟨16, List.mem_range.2 (by omega), by rw [hnone]⟩]
    · rfl
    · cases ((coordinates pair).map longText)[i]? with
      | none => exact .inr rfl
      | some c => exact .inl ⟨_, rfl⟩

end

/-- The coordinates are numbers of `int`. -/
theorem isInt_of_mem_coordinates {pair : ℕ → ℤ × ℤ}
    (h : ∀ k < 8, IsInt (pair k).1 ∧ IsInt (pair k).2) : ∀ c ∈ coordinates pair, IsInt c := by
  intro c hc
  obtain ⟨k, hk, hc⟩ := List.mem_flatMap.1 hc
  obtain ⟨hx, hy⟩ := h k (List.mem_range.1 hk)
  rcases (by simpa using hc : c = (pair k).1 ∨ c = (pair k).2) with rfl | rfl
  · exact hx
  · exact hy

/-- A line is printed for a launch that has arguments, and for numbers that fit an `int` `main`
reads these off it, as far as there are at most eight receivers. -/
theorem serverMain_line (fileN : List Char) (launch : Launch) (hrange : launch.InRange) :
    (launch.line = none ∧ launch.args = none) ∨
      ∃ line args, launch.line = some line ∧ launch.args = some args ∧
        serverMain (argv fileN line) =
          if args.espn ≤ 8 then .ok args else .error .nullArgument := by
  cases launch with
  | newConfig num boxes =>
    have hn : IsInt num := by
      have := hrange.1
      unfold IsInt
      omega
    have hmain := serverMain_commandLine fileN (d := '1') (by decide) (by decide) hn
      (isInt_of_mem_coordinates hrange.2)
    rw [show strtol ['1'] = 1 by decide] at hmain
    exact .inr ⟨_, main 1 num (coordinates boxes), rfl, rfl, hmain⟩
  | oldConfig rows =>
    by_cases hempty : rows.length = 0
    · exact .inl ⟨if_pos hempty, if_pos hempty⟩
    · -- the numbers that stand in the boxes
      obtain ⟨pair, hdef⟩ : ∃ pair : ℕ → ℤ × ℤ, pair = fun k =>
          match rows[k]? with
          | some row => (row.x, row.y)
          | none => (0, 0) := ⟨_, rfl⟩
      have hpair : ∀ k < 8, IsInt (pair k).1 ∧ IsInt (pair k).2 := by
        intro k _
        rw [hdef]
        dsimp only
        cases hrow : rows[k]? with
        | none => exact ⟨⟨by decide, by decide⟩, ⟨by decide, by decide⟩⟩
        | some row => exact hrange.2 row (List.mem_of_getElem? hrow)
      have hn : IsInt rows.length := by
        have := hrange.1
        unfold IsInt at *
        omega
      have hmain := serverMain_commandLine fileN (d := '0') (by decide) (by decide) hn
        (isInt_of_mem_coordinates hpair)
      have htexts : (fun k => match rows[k]? with
            | some row => (longText row.x, longText row.y)
            | none => (['0'], ['0'])) = fun k => (longText (pair k).1, longText (pair k).2) := by
        funext k
        rw [hdef]
        dsimp only
        cases rows[k]? <;> rfl
      rw [show strtol ['0'] = 0 by decide] at hmain
      have hline : (Launch.oldConfig rows).line = some (commandLine ['0'] (longText rows.length)
          (boxTexts fun k => (longText (pair k).1, longText (pair k).2))) := by
        rw [← htexts]
        exact if_neg hempty
      have hargs : (Launch.oldConfig rows).args = some (main 0 rows.length (coordinates pair)) := by
        rw [hdef]
        exact if_neg hempty
      exact .inr ⟨_, _, hline, hargs, hmain⟩

/-- **The launch.** For numbers that fit an `int`, the server is constructed with exactly the
arguments of the launch, if there are at most eight receivers; with more rows in an old
configuration it never is, as `main` runs into the null pointer behind its arguments. -/
theorem started_iff (fileN : List Char) (launch : Launch) (hrange : launch.InRange) :
    (∀ args, (∃ line, launch.line = some line ∧ serverMain (argv fileN line) = .ok args) ↔
        launch.args = some args ∧ args.espn ≤ 8) ∧
      ((∃ line, launch.line = some line ∧
          serverMain (argv fileN line) = .error .nullArgument) ↔
        ∃ args, launch.args = some args ∧ 8 < args.espn) := by
  rcases serverMain_line fileN launch hrange with
    ⟨hline, hargs⟩ | ⟨line, args, hline, hargs, hmain⟩
  · simp [hline, hargs]
  · simp only [hline, hargs, Option.some.injEq, exists_eq_left', hmain]
    split
    case isTrue hle =>
      refine ⟨fun args' => ?_, iff_of_false (fun h => by cases h) hle.not_gt⟩
      rw [Except.ok.injEq]
      exact ⟨fun h => ⟨h, h ▸ hle⟩, fun h => h.1⟩
    case isFalse hgt =>
      refine ⟨fun args' => ⟨fun h => (by cases h), ?_⟩, iff_of_true rfl (not_le.1 hgt)⟩
      rintro ⟨rfl, hle⟩
      exact absurd hle hgt

/-- Two receivers that joined in this order. -/
def storedRows : List Esp := [⟨firstMac, 0, -100, 40⟩, ⟨.of 0xcc 0 0 0 0 0, 1, 250, 0⟩]

/-- Nine rows of one receiver. -/
def nineRows : List Esp := List.replicate 9 ⟨firstMac, 0, -100, 40⟩

/-- The two rows start a server with two receivers, the nine rows none. -/
theorem started_iff_storedRows :
    (∃ line, (Launch.oldConfig storedRows).line = some line ∧
      serverMain (argv [] line) = .ok ⟨0, 2, [-100, 40, 250, 0]⟩) ∧
    ∃ line, (Launch.oldConfig nineRows).line = some line ∧
      serverMain (argv [] line) = .error .nullArgument := by
  refine ⟨((started_iff [] (.oldConfig storedRows) ?_).1 _).2 ⟨rfl, by decide⟩,
    (started_iff [] (.oldConfig nineRows) ?_).2.2 ⟨_, rfl, by decide⟩⟩
  · exact ⟨⟨by decide, by decide⟩, by simp [storedRows, IsInt]⟩
  · exact ⟨⟨by decide, by decide⟩, by simp [nineRows, IsInt]⟩

end Participation

end DetectionSystem

import DetectionSystem.Lib.Transition
import DetectionSystem.Server.CommandLine
import Mathlib.Logic.Function.Basic

/-!
# The first window

`Home` shows the boxes of as many receivers as its label says; its buttons show one more or hide the
last one, and `Button_Click` prints the contents of all boxes, the hidden ones included.

`shown_is_started` is about every run of the window: the server is started with the number of
receivers that are shown and with what their boxes hold, whatever was left behind in the others.
-/

open Transition

namespace DetectionSystem

open Participation MapOfDevices

/-- The window, as far as a new configuration goes. Each receiver has two boxes. -/
structure Home where
  espNum : ℕ
  esp_number : ℕ
  visible : ℕ → Bool
  box : ℕ → List Char × List Char

namespace Home

/-- The clicks, and the text that ends up in a box. -/
inductive Action
  | Esp_increase_Click
  | Esp_derease_Click
  | typeX (k : ℕ) (text : List Char)
  | typeY (k : ℕ) (text : List Char)

/-- `startEspNum` of the source. -/
def startEspNum : ℕ := 1

/-- The constructor: it hides all boxes but those of the first receiver, and each of them holds a
zero. -/
def start : Home where
  espNum := startEspNum
  esp_number := startEspNum
  visible k := k < startEspNum
  box _ := (['0'], ['0'])

/-- One action; a hidden box cannot be typed into. -/
def step (s : Home) : Action → Option Home
  | .Esp_increase_Click =>
    some <| if s.espNum < 8 then
      { s with
        visible := Function.update s.visible s.espNum true
        espNum := s.espNum + 1
        esp_number := s.espNum + 1 }
    else s
  | .Esp_derease_Click =>
    some <| if s.espNum > 1 then
      { s with
        espNum := s.espNum - 1
        esp_number := s.espNum - 1
        visible := Function.update s.visible (s.espNum - 1) false }
    else s
  | .typeX k text =>
    guarded (s.visible k = true) { s with box := Function.update s.box k (text, (s.box k).2) }
  | .typeY k text =>
    guarded (s.visible k = true) { s with box := Function.update s.box k ((s.box k).1, text) }

/-! ## What is shown -/

/-- The label shows how many receivers have boxes, which are the first ones. -/
structure Inv (s : Home) : Prop where
  pos : 1 ≤ s.espNum
  le : s.espNum ≤ 8
  esp_number : s.esp_number = s.espNum
  visible : ∀ k, s.visible k = decide (k < s.espNum)

/-- The page opens in order. -/
theorem inv_start : Inv start := ⟨le_rfl, by decide, rfl, fun _ => rfl⟩

/-- A click keeps it in order. -/
theorem Inv.step {s t : Home} {a : Action} (h : Inv s) (hstep : step s a = some t) : Inv t := by
  cases a with
  | Esp_increase_Click =>
    change some _ = some t at hstep
    cases hstep
    split
    case isTrue hlt =>
      refine ⟨Nat.succ_pos _, hlt, rfl, fun k => ?_⟩
      dsimp only
      rw [Function.update_apply, h.visible]
      split
      case isTrue heq => exact (decide_eq_true (by omega)).symm
      case isFalse hne => exact decide_eq_decide.2 (by omega)
    case isFalse => exact h
  | Esp_derease_Click =>
    change some _ = some t at hstep
    cases hstep
    split
    case isTrue hgt =>
      have hle := h.le
      refine ⟨by dsimp only; omega, by dsimp only; omega, rfl, fun k => ?_⟩
      dsimp only
      rw [Function.update_apply, h.visible]
      split
      case isTrue heq => exact (decide_eq_false (by omega)).symm
      case isFalse hne => exact decide_eq_decide.2 (by omega)
    case isFalse => exact h
  | typeX k text =>
    change guarded _ _ = some t at hstep
    obtain ⟨-, rfl⟩ := guarded_eq_some.1 hstep
    exact ⟨h.pos, h.le, h.esp_number, h.visible⟩
  | typeY k text =>
    change guarded _ _ = some t at hstep
    obtain ⟨-, rfl⟩ := guarded_eq_some.1 hstep
    exact ⟨h.pos, h.le, h.esp_number, h.visible⟩

/-- The boxes that are seen are those of the receivers. -/
theorem Inv.filter_visible {s : Home} (h : Inv s) :
    (List.range 8).filter s.visible = List.range s.espNum := by
  obtain ⟨m, hm⟩ := Nat.exists_eq_add_of_le h.le
  rw [hm, List.range_add, List.filter_append]
  have hshown : (List.range s.espNum).filter s.visible = List.range s.espNum := by
    refine List.filter_eq_self.2 fun k hk => ?_
    rw [h.visible]
    exact decide_eq_true (List.mem_range.1 hk)
  have hhidden : ((List.range m).map (s.espNum + ·)).filter s.visible = [] := by
    refine List.filter_eq_nil_iff.2 fun k hk => ?_
    obtain ⟨i, -, rfl⟩ := List.mem_map.1 hk
    rw [h.visible, decide_eq_true_eq]
    omega
  rw [hshown, hhidden, List.append_nil]

/-! ## What the server is started with -/

/-- The pairs of the receivers that are shown. -/
def shown (s : Home) (pair : ℕ → ℤ × ℤ) : List ℤ :=
  ((List.range 8).filter s.visible).flatMap fun k => [(pair k).1, (pair k).2]

/-- The boxes that are shown come first. -/
theorem boxTexts_eq {s : Home} (h : Inv s) {pair : ℕ → ℤ × ℤ}
    (hbox : ∀ k, s.visible k = true → s.box k = (longText (pair k).1, longText (pair k).2)) :
    ∃ hidden, boxTexts s.box = (s.shown pair).map longText ++ hidden := by
  obtain ⟨m, hm⟩ := Nat.exists_eq_add_of_le h.le
  refine ⟨((List.range m).map (s.espNum + ·)).flatMap fun k => [(s.box k).1, (s.box k).2], ?_⟩
  rw [boxTexts, shown, h.filter_visible, hm, List.range_add, List.flatMap_append, List.map_flatMap]
  congr 1
  refine List.flatMap_congr fun k hk => ?_
  rw [hbox k (by rw [h.visible]; exact decide_eq_true (List.mem_range.1 hk))]
  rfl

/-- **The window.** After any clicks and whatever was typed, if the boxes that are shown hold
numbers that fit an `int`, the server is constructed with these numbers, both programs know how many
receivers there are, and the constructor accepts as many. -/
theorem shown_is_started (as : List Action) (s : Home) (hrun : run step start as = some s)
    (fileN : List Char) (pair : ℕ → ℤ × ℤ)
    (hbox : ∀ k, s.visible k = true → IsInt (pair k).1 ∧ IsInt (pair k).2 ∧
      s.box k = (longText (pair k).1, longText (pair k).2)) :
    espNumberText (Button_Click s.esp_number s.box) =
        some (longText ((List.range 8).countP s.visible)) ∧
      ∃ args : Args, serverMain (argv fileN (Button_Click s.esp_number s.box)) = .ok args ∧
        args = ⟨1, (List.range 8).countP s.visible, s.shown pair⟩ ∧
        ∀ stored, ∃ t, Participation.step args (init args stored) .construct = some t := by
  have h : Inv s := run_invariant (fun _ _ _ h => h.step) inv_start hrun
  have hcount : (List.range 8).countP s.visible = s.esp_number := by
    rw [List.countP_eq_length_filter, h.filter_visible, List.length_range, h.esp_number]
  have hlength : (s.shown pair).length = 2 * s.esp_number := by
    rw [shown, h.filter_visible, h.esp_number]
    simp [List.length_flatMap, Nat.mul_comm]
  have hints : ∀ c ∈ s.shown pair, IsInt c := by
    intro c hc
    obtain ⟨k, hk, hc⟩ := List.mem_flatMap.1 hc
    obtain ⟨hx, hy, -⟩ := hbox k (List.mem_filter.1 hk).2
    rcases (by simpa using hc : c = (pair k).1 ∨ c = (pair k).2) with rfl | rfl
    · exact hx
    · exact hy
  have hwords : ((s.shown pair).map longText).flatMap words = (s.shown pair).map longText :=
    flatMap_words (List.forall_mem_map.2 fun c _ => (isWord_longText c).1)
  obtain ⟨hidden, hhidden⟩ := boxTexts_eq h fun k hk => (hbox k hk).2.2
  have hrest : hidden.flatMap (' ' :: ·) = [] ∨ ∃ b, hidden.flatMap (' ' :: ·) = ' ' :: b := by
    cases hidden with
    | nil => exact .inl rfl
    | cons b bs => exact .inr ⟨_, rfl⟩
  have hline : Button_Click s.esp_number s.box =
      commandLine ['1'] (longText s.esp_number) ((s.shown pair).map longText) ++
        hidden.flatMap (' ' :: ·) := by
    simp only [Button_Click, hhidden, commandLine, List.flatMap_append, List.append_assoc]
  have haccepted : 0 < s.esp_number ∧ s.esp_number ≤ 8 := by
    rw [h.esp_number]
    exact ⟨h.pos, h.le⟩
  have hnum : IsInt s.esp_number := by
    unfold IsInt
    omega
  rw [hcount]
  refine ⟨espNumberText_Button_Click _ _, _, ?_, rfl, fun stored => ⟨_, if_pos ⟨rfl, haccepted⟩⟩⟩
  rw [hline, argv_append hrest (quote_notMem_commandLine
      (List.forall_mem_map.2 fun c _ => (isWord_longText c).2) (by decide) _),
    words_commandLine_number (by decide), hwords]
  exact serverMain_numbers fileN ['1'] hnum hlength hints _

/-- The second receiver is shown, gets a blank and a quotation mark, and is hidden again. -/
def leftBehind : List Action :=
  [.typeX 0 ['-', '5'], .Esp_increase_Click, .typeX 1 [' '], .typeY 1 ['"'], .Esp_derease_Click]

/-- What is left in a box that is hidden again makes no difference to the server. -/
theorem shown_is_started_leftBehind : ∃ s, run step start leftBehind = some s ∧
    serverMain (argv [] (Button_Click s.esp_number s.box)) = .ok ⟨1, 1, [-5, 0]⟩ := by
  have hrun : ∃ s, run step start leftBehind = some s ∧ s.box 0 = (['-', '5'], ['0']) ∧
      s.visible = Function.update (Function.update start.visible 1 true) 1 false :=
    ⟨_, rfl, rfl, rfl⟩
  obtain ⟨s, hs, hbox, hvisible⟩ := hrun
  have hzero : ∀ k, s.visible k = true → k = 0 := by
    intro k hk
    rw [hvisible, Function.update_idem, Function.update_apply] at hk
    split at hk
    case isTrue => cases hk
    case isFalse => exact Nat.lt_one_iff.1 (of_decide_eq_true hk)
  obtain ⟨-, args, hstart, rfl, -⟩ :=
    shown_is_started leftBehind s hs [] (fun _ => (-5, 0)) fun k hk => by
      obtain rfl := hzero k hk
      exact ⟨⟨by decide, by decide⟩, ⟨by decide, by decide⟩, hbox⟩
  refine ⟨s, hs, hstart.trans ?_⟩
  rw [shown, hvisible]
  rfl

end Home

end DetectionSystem

import DetectionSystem.DataWindow.Animation
import DetectionSystem.Lib.Numbered
import DetectionSystem.Lib.Transition

/-!
# The map of the devices

The map is a canvas of ellipses. `Animation_Click` draws the devices of all frames at once, hidden,
and registers each under a name with its number in the frame and the time of the frame;
`UpdateAnimation` finds them by these names to hide one frame and show another one. `ClearMap`
empties the canvas. A registered name is that of the ellipse it finds (`Inv`), also of one that is
not on the canvas any more.
-/

namespace DetectionSystem

open Numbered

/-- What the tool tip of an ellipse tells. -/
inductive ToolTip (F : Type)
  | esp (esp : Esp)
  | device (mac : List Char) (left bottom : F)
deriving DecidableEq, Repr

/-- Whether an ellipse is to be seen. -/
inductive Visibility
  | visible
  | hidden
deriving DecidableEq, Repr

/-- An ellipse of the map. The name is empty if it was not set. -/
structure Ellipse (F : Type) where
  Name : List Char
  ToolTip : ToolTip F
  Visibility : Visibility
deriving DecidableEq, Repr

/-- What happens to the registered names: a name is registered by `DrawDevice`, or `ClearMap` leaves
some. -/
inductive NameEvent
  | registerName (name : List Char)
  | clearMap (names : List (List Char))
deriving DecidableEq, Repr

/-- The canvas, the names and the fields of a window. An ellipse is referred to by its place among
all that have been made. -/
structure MapOfDevices (F : Type) where
  ellipses : List (Ellipse F)
  Children : List ℕ
  names : AList fun _ : List Char => ℕ
  isInitialized : Bool
  eSPs : List Esp
  previouslyChecked : ℤ
  animation : Interval
  log : List NameEvent

/-- What the queries of `InitializeMap` return; `none` where one fails. -/
structure EspQueries where
  espCount : Option ℕ
  eSPs : Option (List Esp)

/-- What `Animation_Click` gets from outside: the boxes of the window (`none` if the text of one is
`null`, as it is until something is put into it), the rows it reads for each frame until there are
no more or an exception is caught, and the times for which the slider reports a change while it is
set up. A text that is no time or number, such as that of a box which was emptied again, is left
out: its conversion throws behind `ClearMap`, and as nothing catches the exception the program ends.
-/
structure AnimationInput (F : Type) where
  queries : EspQueries
  boxes : Option Interval
  rows : ℤ × ℕ → List (Located F)
  moved : List ℤ

/-- What `Update_Click` gets from outside. -/
structure UpdateInput (F : Type) where
  queries : EspQueries
  rows : List (Located F)

/-- `Convert.ToString` of a 64-bit number. -/
def longText (n : ℤ) : List Char :=
  if n < 0 then '-' :: Nat.toDigits 10 n.natAbs else Nat.toDigits 10 n.natAbs

/-- `"device" + i + "_" + timestamp`. -/
def deviceName (i : ℕ) (timestamp : ℤ) : List Char :=
  ['d', 'e', 'v', 'i', 'c', 'e'] ++ Nat.toDigits 10 i ++ '_' :: longText timestamp

/-- The names that WPF accepts for an element: letters, digits and underscores, no digit first. -/
def isValidName : List Char → Bool
  | [] => false
  | c :: cs => (c.isAlpha || c == '_') && cs.all fun c => c.isAlphanum || c == '_'

/-- `(unixLast - unixBegin) / granularity`. -/
def Interval.timeFrames (interval : Interval) : ℤ :=
  (interval.unixLast - interval.unixBegin).tdiv interval.granularity

/-- What the fields of an animation are at first and after `ClearMap`. -/
def Interval.none : Interval := ⟨0, 0, 100, by decide⟩

/-- `device.Visibility = v`. -/
def setVisibility {F : Type} (v : Visibility) (ellipses : List (Ellipse F)) (device : ℕ) :
    List (Ellipse F) :=
  ellipses.modify device fun e => { e with Visibility := v }

namespace MapOfDevices

variable {F : Type}

/-- `mapOfDevices.Children.Add` of a new ellipse. -/
def addEllipse (s : MapOfDevices F) (e : Ellipse F) : MapOfDevices F :=
  { s with ellipses := s.ellipses ++ [e], Children := s.Children ++ [s.ellipses.length] }

/-- `DrawESP`. A receiver has no name, and is seen at once. -/
def drawESP (s : MapOfDevices F) (curEsp : Esp) : MapOfDevices F :=
  s.addEllipse ⟨[], .esp curEsp, .visible⟩

/-- `DrawDevice(deviceName, left, bottom)`. -/
def drawPosition (s : MapOfDevices F) (row : Located F) : MapOfDevices F :=
  s.addEllipse ⟨[], .device row.mac row.x row.y, .visible⟩

/-- `DrawDevice(name, deviceName, left, bottom)`; `none` where it throws. -/
def drawDevice (s : MapOfDevices F) (name : List Char) (row : Located F) :
    Option (MapOfDevices F) :=
  if ¬ isValidName name then none
  else
    let myEllipse := s.ellipses.length
    let names := if (s.names.lookup name).isSome then s.names.erase name else s.names
    let s := { s with
      names := names.insert name myEllipse
      log := s.log ++ [NameEvent.registerName name] }
    some (s.addEllipse ⟨name, .device row.mac row.x row.y, .hidden⟩)

/-- `ClearMap`. The number in the names that it unregisters is not counted up. -/
def clearMap (s : MapOfDevices F) : MapOfDevices F :=
  let times := DataWindow.frameTimes s.animation.unixBegin s.animation.unixLast
    s.animation.granularity
  let names := times.foldl (fun names currentTs => removeWhileFound (deviceName 0 currentTs) names)
    s.names
  let s := s.eSPs.foldl drawESP
    { s with Children := [], names, log := s.log ++ [.clearMap names.keys] }
  { s with previouslyChecked := 0, animation := .none }

/-- `DataWindow.InitializeMap`, which reads the receivers once, if there are as many as expected. -/
def initializeMap (espNumber : ℕ) (queries : EspQueries) (s : MapOfDevices F) : MapOfDevices F :=
  if s.isInitialized then s
  else
    match queries.espCount, queries.eSPs with
    | some espCount, some eSPs =>
      if espCount ≠ espNumber then s else { s with eSPs, isInitialized := true }
    | _, _ => s

/-- The loop over the rows of a frame, from the number `i` on. An exception is caught behind it. -/
def drawFrame (currentTs : ℤ) : ℕ → List (Located F) → MapOfDevices F → MapOfDevices F
  | _, [], s => s
  | i, row :: rows, s =>
    match s.drawDevice (deviceName i currentTs) row with
    | none => s
    | some s => drawFrame currentTs (i + 1) rows s

/-- The loop over the frames. -/
def drawFrames (s : MapOfDevices F) (frames : List (ℤ × ℕ)) (rows : ℤ × ℕ → List (Located F)) :
    MapOfDevices F :=
  frames.foldl (fun s frame => drawFrame frame.1 1 (rows frame) s) s

/-- A loop over the devices that are found for a time; `none` where it does not end within a turn
more than there are names. -/
def setDevices (s : MapOfDevices F) (timestamp : ℤ) (v : Visibility) : Option (MapOfDevices F) := do
  let ellipses ← whileFound s.names (deviceName · timestamp) (setVisibility v)
    (s.names.keys.length + 1) 1 s.ellipses
  some { s with ellipses }

/-- `UpdateAnimation`: the devices of the time shown before are hidden and those of `timestamp`
shown; `none` where a loop does not end. -/
def updateAnimation (s : MapOfDevices F) (timestamp : ℤ) : Option (MapOfDevices F) := do
  let s ← if s.previouslyChecked ≠ 0 then s.setDevices s.previouslyChecked .hidden else some s
  let s ← s.setDevices timestamp .visible
  some { s with previouslyChecked := timestamp }

/-- The end of `Animation_Click`: the frames, `SetUpSlider` and `UpdateAnimation(unixBegin)`. -/
def loadAnimation (s : MapOfDevices F) (interval : Interval) (input : AnimationInput F) :
    Option (MapOfDevices F) :=
  let times := DataWindow.frameTimes interval.unixBegin interval.unixLast interval.granularity
  (input.moved ++ [interval.unixBegin]).foldlM updateAnimation
    (s.drawFrames times.zipIdx input.rows)

end MapOfDevices

namespace DataWindow

variable {F : Type}

/-- `DataWindow.Animation_Click`. -/
def onAnimationClick (espNumber : ℕ) (s : MapOfDevices F) (input : AnimationInput F) :
    Option (MapOfDevices F) :=
  let s := s.initializeMap espNumber input.queries
  if ¬ s.isInitialized then some s
  else
    match input.boxes with
    | none => some s
    | some interval =>
      let s := if s.animation.timeFrames ≤ 100 then s.clearMap else s
      let s := { s with animation := interval }
      if interval.unixBegin ≥ interval.unixLast then some s
      else if interval.timeFrames > 100 then some s
      else s.loadAnimation interval input

/-- `DataWindow.Update_Click`. -/
def onUpdateClick (espNumber : ℕ) (s : MapOfDevices F) (input : UpdateInput F) : MapOfDevices F :=
  let s := s.initializeMap espNumber input.queries
  if ¬ s.isInitialized then s else input.rows.foldl .drawPosition s.clearMap

end DataWindow

namespace MapWindow

variable {F : Type}

/-- `MapWindow.Animation_Click`. -/
def onAnimationClick (s : MapOfDevices F) (input : AnimationInput F) : Option (MapOfDevices F) :=
  match input.boxes with
  | none => some s
  | some interval =>
    let s := { s.clearMap with animation := interval }
    if interval.unixBegin ≥ interval.unixLast then some s else s.loadAnimation interval input

/-- `MapWindow.Update_Click`. -/
def onUpdateClick (s : MapOfDevices F) (input : UpdateInput F) : MapOfDevices F :=
  input.rows.foldl .drawPosition s.clearMap

end MapWindow

/-- The two windows with a map. `DataWindow` knows the number of receivers. -/
inductive MapOwner
  | dataWindow (espNumber : ℕ)
  | mapWindow

/-- What the user does: the two buttons and the slider. -/
inductive MapAction (F : Type)
  | animationClick (input : AnimationInput F)
  | updateClick (input : UpdateInput F)
  | sliderValueChanged (timestamp : ℤ)

namespace MapOfDevices

variable {F : Type}

/-- A new window. `MapWindow` has read the receivers. -/
def start (eSPs : List Esp) : MapOfDevices F := ⟨[], [], ∅, false, eSPs, 0, .none, []⟩

/-- One action of the user; `none` where the window hangs. -/
def step (owner : MapOwner) (s : MapOfDevices F) : MapAction F → Option (MapOfDevices F)
  | .animationClick input =>
    match owner with
    | .dataWindow espNumber => DataWindow.onAnimationClick espNumber s input
    | .mapWindow => MapWindow.onAnimationClick s input
  | .updateClick input =>
    match owner with
    | .dataWindow espNumber => some (DataWindow.onUpdateClick espNumber s input)
    | .mapWindow => some (MapWindow.onUpdateClick s input)
  | .sliderValueChanged timestamp => s.updateAnimation timestamp

end MapOfDevices

/-! ## Names -/

section
variable {i j : ℕ} {m n : ℤ}

/-- Decimal digits determine their number. -/
theorem toDigits_inj {i j : ℕ} (h : Nat.toDigits 10 i = Nat.toDigits 10 j) : i = j := by
  rw [← Nat.ofDigitChars_ten_toDigits (n := i), h, Nat.ofDigitChars_ten_toDigits]

/-- A minus sign is not a digit. -/
theorem dash_notMem_toDigits : '-' ∉ Nat.toDigits 10 i := fun h =>
  absurd (Nat.isDigit_of_mem_toDigits (by decide) (by decide) h) (by decide)

/-- The text of a number determines the number. -/
theorem longText_inj : longText m = longText n ↔ m = n := by
  refine ⟨fun h => ?_, congrArg longText⟩
  have hdash : ∀ {i : ℕ} {cs : List Char}, '-' :: cs ≠ Nat.toDigits 10 i := fun heq =>
    dash_notMem_toDigits (heq ▸ List.mem_cons_self)
  unfold longText at h
  split at h <;> split at h
  · have := toDigits_inj (List.cons.inj h).2
    omega
  · exact absurd h hdash
  · exact absurd h.symm hdash
  · have := toDigits_inj h
    omega

/-- Two texts that are split at their first underscore agree exactly if their parts do. -/
theorem underscore_inj {a b x y : List Char} (ha : '_' ∉ a) (hb : '_' ∉ b) :
    a ++ '_' :: x = b ++ '_' :: y ↔ a = b ∧ x = y := by
  refine ⟨fun h => ?_, by rintro ⟨rfl, rfl⟩; rfl⟩
  have hbefore : ∀ {a x : List Char}, '_' ∉ a → (a ++ '_' :: x).takeWhile (· ≠ '_') = a := by
    intro a x ha
    have hne : ∀ c ∈ a, decide (c ≠ '_') = true := fun c hc =>
      decide_eq_true fun heq => ha (heq ▸ hc)
    rw [List.takeWhile_append_of_pos hne]
    simp
  have hab : a = b := by rw [← hbefore ha, h, hbefore hb]
  subst hab
  exact ⟨rfl, (List.cons.inj (List.append_cancel_left h)).2⟩

/-- The number and the time can be read off a name. -/
@[simp] theorem deviceName_inj : deviceName i m = deviceName j n ↔ i = j ∧ m = n := by
  unfold deviceName
  rw [List.append_assoc, List.append_assoc, List.append_right_inj,
    underscore_inj Nat.underscore_not_in_toDigits Nat.underscore_not_in_toDigits, longText_inj]
  exact and_congr_left fun _ => ⟨toDigits_inj, fun h => by rw [h]⟩

/-- The sign of a negative time is not accepted. -/
@[simp] theorem isValidName_deviceName : isValidName (deviceName i m) = true ↔ 0 ≤ m := by
  have hdigits : ∀ {i : ℕ} {c : Char}, c ∈ Nat.toDigits 10 i → (c.isAlphanum || c == '_') = true :=
    fun hc => by simp [Char.isAlphanum, Nat.isDigit_of_mem_toDigits (by decide) (by decide) hc]
  have hrest : isValidName (deviceName i m) = true ↔
      ∀ c ∈ longText m, (c.isAlphanum || c == '_') = true := by
    simp only [isValidName, deviceName, List.cons_append, List.nil_append, List.all_cons,
      List.all_append, Bool.and_eq_true, List.all_eq_true]
    refine ⟨fun h => h.2.2.2.2.2.2.2.2, fun h => ?_⟩
    exact ⟨by decide, by decide, by decide, by decide, by decide, by decide,
      fun c hc => hdigits hc, by decide, h⟩
  rw [hrest]
  unfold longText
  split
  case isTrue hneg =>
    refine ⟨fun h => absurd (h '-' List.mem_cons_self) (by decide), fun h => ?_⟩
    omega
  case isFalse hpos => exact ⟨fun _ => by omega, fun _ c hc => hdigits hc⟩

end

/-! ## The operations -/

section
variable {F : Type} {v : Visibility} {devices : List ℕ} {es : List (Ellipse F)} {r : ℕ}

/-- Setting the visibility of some ellipses. -/
theorem getElem?_setVisibility :
    (devices.foldl (setVisibility v) es)[r]? =
      es[r]?.map fun e => if r ∈ devices then { e with Visibility := v } else e := by
  induction devices generalizing es with
  | nil => simp
  | cons d devices ih =>
    rw [List.foldl_cons, ih, setVisibility, List.getElem?_modify]
    cases es[r]? with
    | none => simp
    | some e =>
      by_cases hd : d = r
      · subst hd
        simp
      · simp [hd, Ne.symm hd]

end

namespace MapOfDevices

section
variable {F : Type} {s t : MapOfDevices F} {i : ℕ} {T : ℤ} {name : List Char} {row : Located F}

@[simp] theorem addEllipse_ellipses (e : Ellipse F) :
    (s.addEllipse e).ellipses = s.ellipses ++ [e] := rfl

@[simp] theorem addEllipse_Children (e : Ellipse F) :
    (s.addEllipse e).Children = s.Children ++ [s.ellipses.length] := rfl

@[simp] theorem addEllipse_names (e : Ellipse F) : (s.addEllipse e).names = s.names := rfl

@[simp] theorem addEllipse_log (e : Ellipse F) : (s.addEllipse e).log = s.log := rfl

@[simp] theorem addEllipse_previouslyChecked (e : Ellipse F) :
    (s.addEllipse e).previouslyChecked = s.previouslyChecked := rfl

/-- What `DrawDevice` does: it throws where the time is negative, otherwise the name finds the new
ellipse. -/
theorem drawDevice_eq_some :
    s.drawDevice (deviceName i T) row = some t ↔ 0 ≤ T ∧ t = ({ s with
      names := s.names.insert (deviceName i T) s.ellipses.length
      log := s.log ++ [.registerName (deviceName i T)] } : MapOfDevices F).addEllipse
        ⟨deviceName i T, .device row.mac row.x row.y, .hidden⟩ := by
  have hinsert : (if (s.names.lookup (deviceName i T)).isSome then
        s.names.erase (deviceName i T) else s.names).insert (deviceName i T) s.ellipses.length =
      s.names.insert (deviceName i T) s.ellipses.length := by
    split
    · exact insert_erase
    · rfl
  unfold drawDevice
  dsimp only
  rw [hinsert]
  split
  case isTrue h => simp [mt isValidName_deviceName.2 h]
  case isFalse h => simp [isValidName_deviceName.1 (not_not.1 h), eq_comm]

/-- Ellipses that are drawn one after the other are the last ones and the last children. -/
theorem foldl_addEllipse {α : Type} (f : α → Ellipse F) (l : List α) (s : MapOfDevices F) :
    l.foldl (fun s a => s.addEllipse (f a)) s = { s with
      ellipses := s.ellipses ++ l.map f
      Children := s.Children ++ List.range' s.ellipses.length l.length } := by
  induction l generalizing s with
  | nil => simp
  | cons a l ih =>
    rw [List.foldl_cons, ih]
    simp [addEllipse, List.range'_succ]

/-! ## What a step does to the names -/

/-- A registered name is that of the ellipse it finds, and it was registered by `DrawDevice`, which
counts from 1. -/
structure Inv (s : MapOfDevices F) : Prop where
  named : ∀ name r, s.names.lookup name = some r → ∃ e, s.ellipses[r]? = some e ∧ e.Name = name
  numbered : ∀ name ∈ s.names, ∃ i T, 1 ≤ i ∧ name = deviceName i T

/-- A new window has no names. -/
theorem inv_start (eSPs : List Esp) : Inv (start eSPs : MapOfDevices F) :=
  ⟨fun name r h => by simp [start] at h, fun name h => by simp [start] at h⟩

/-- What happens between two states: `ClearMap` is called first or not, and then the names `drawn`
are registered, one after the other. No name is unregistered. -/
structure Draws (s t : MapOfDevices F) (cleared : Bool) (drawn : List (List Char)) : Prop where
  inv : Inv t
  names : ∀ name, name ∈ t.names ↔ name ∈ s.names ∨ name ∈ drawn
  log : t.log = s.log ++ (if cleared then [.clearMap s.names.keys] else []) ++
    drawn.map .registerName

/-- Ellipses stay where they are, with their names. -/
def KeepsNames (es es' : List (Ellipse F)) : Prop :=
  ∀ (r : ℕ) (e : Ellipse F), es[r]? = some e →
    ∃ e' : Ellipse F, es'[r]? = some e' ∧ e'.Name = e.Name

/-- An ellipse keeps its name as long as nothing happens. -/
theorem KeepsNames.refl (es : List (Ellipse F)) : KeepsNames es es := fun _ e he => ⟨e, he, rfl⟩

/-- New ellipses leave the others their names. -/
theorem KeepsNames.append (es es' : List (Ellipse F)) : KeepsNames es (es ++ es') := fun r e he =>
  ⟨e, by rw [List.getElem?_append_left (List.getElem?_eq_some_iff.1 he).1, he], rfl⟩

/-- Nothing happens. -/
theorem Inv.draws_nil (h : Inv s) (hellipses : KeepsNames s.ellipses t.ellipses)
    (hnames : t.names = s.names) (hlog : t.log = s.log) : Draws s t false [] where
  inv := by
    refine ⟨fun name r hr => ?_, fun name hname => h.numbered name (hnames ▸ hname)⟩
    obtain ⟨e, he, rfl⟩ := h.named name r (hnames ▸ hr)
    exact hellipses r e he
  names name := by simp [hnames]
  log := by simp [hlog]

/-- What is drawn depends on the names and the log of the start only. -/
theorem Draws.of_eq {s' : MapOfDevices F} {cleared : Bool} {drawn : List (List Char)}
    (h : Draws s t cleared drawn) (hnames : s.names = s'.names) (hlog : s.log = s'.log) :
    Draws s' t cleared drawn :=
  ⟨h.inv, hnames ▸ h.names, hnames ▸ hlog ▸ h.log⟩

/-- What is drawn in two stretches is what is drawn in both. -/
theorem Draws.trans {cleared : Bool} {drawn drawn' : List (List Char)} {u : MapOfDevices F}
    (h : Draws s t cleared drawn) (h' : Draws t u false drawn') :
    Draws s u cleared (drawn ++ drawn') where
  inv := h'.inv
  names name := by rw [h'.names, h.names, List.mem_append, or_assoc]
  log := by
    rw [h'.log, h.log]
    simp

/-- `ClearMap` looks for names with the number 0, of which there is none. -/
theorem Inv.clearMap_eq (h : Inv s) : s.clearMap = { s with
    ellipses := s.ellipses ++ s.eSPs.map fun esp => ⟨[], .esp esp, .visible⟩
    Children := List.range' s.ellipses.length s.eSPs.length
    log := s.log ++ [.clearMap s.names.keys]
    previouslyChecked := 0
    animation := .none } := by
  have hkeep : ∀ times : List ℤ, times.foldl (fun names currentTs =>
      removeWhileFound (deviceName 0 currentTs) names) s.names = s.names := by
    intro times
    induction times with
    | nil => rfl
    | cons currentTs times ih =>
      rw [List.foldl_cons, removeWhileFound_of_notMem, ih]
      intro hmem
      obtain ⟨i, T, hi, heq⟩ := h.numbered _ hmem
      have := (deviceName_inj.1 heq).1
      omega
  have hESPs : ∀ s : MapOfDevices F, s.eSPs.foldl drawESP s =
      s.eSPs.foldl (fun s esp => s.addEllipse ⟨[], .esp esp, .visible⟩) s := fun _ => rfl
  unfold clearMap
  dsimp only
  rw [hkeep, hESPs, foldl_addEllipse]
  simp

/-- `ClearMap` registers nothing. -/
theorem Inv.clearMap (h : Inv s) : Draws s s.clearMap true [] := by
  rw [h.clearMap_eq]
  refine ⟨⟨fun name r hr => ?_, h.numbered⟩, by simp, by simp⟩
  obtain ⟨e, he, rfl⟩ := h.named name r hr
  exact KeepsNames.append _ _ r e he

/-- `DrawDevice` with a number registers that one name. -/
theorem Inv.drawDevice (h : Inv s) (hi : 1 ≤ i)
    (hdraw : s.drawDevice (deviceName i T) row = some t) : Draws s t false [deviceName i T] := by
  obtain ⟨-, rfl⟩ := drawDevice_eq_some.1 hdraw
  refine ⟨⟨fun name r hr => ?_, fun name hname => ?_⟩, fun name => ?_, by simp⟩
  · rw [addEllipse_names] at hr
    rw [addEllipse_ellipses]
    by_cases hname : name = deviceName i T
    · subst hname
      rw [AList.lookup_insert] at hr
      cases hr
      exact ⟨_, List.getElem?_concat_length, rfl⟩
    · rw [AList.lookup_insert_ne hname] at hr
      obtain ⟨e, he, rfl⟩ := h.named name r hr
      exact KeepsNames.append _ _ r e he
  · rw [addEllipse_names, AList.mem_insert] at hname
    rcases hname with rfl | hname
    · exact ⟨i, T, hi, rfl⟩
    · exact h.numbered name hname
  · rw [addEllipse_names, AList.mem_insert, List.mem_singleton, or_comm]

/-- The names of a frame with `n` rows, from the number `i` on. -/
def frameNames (T : ℤ) (i n : ℕ) : List (List Char) :=
  if 0 ≤ T then (List.range' i n).map (deviceName · T) else []

/-- The loop over the rows of a frame registers the names of the frame. -/
theorem Inv.drawFrame {rows : List (Located F)} (h : Inv s) (hi : 1 ≤ i) :
    Draws s (drawFrame T i rows s) false (frameNames T i rows.length) := by
  induction rows generalizing s i with
  | nil =>
    have hnil : frameNames T i 0 = [] := by simp [frameNames]
    exact hnil ▸ h.draws_nil (.refl _) rfl rfl
  | cons row rows ih =>
    rw [MapOfDevices.drawFrame]
    cases hdraw : s.drawDevice (deviceName i T) row with
    | none =>
      have hneg : ¬ 0 ≤ T := fun hT =>
        absurd (hdraw.symm.trans (drawDevice_eq_some.2 ⟨hT, rfl⟩)) nofun
      have hnil : frameNames T i (rows.length + 1) = [] := if_neg hneg
      exact hnil ▸ h.draws_nil (.refl _) rfl rfl
    | some t =>
      have hT := (drawDevice_eq_some.1 hdraw).1
      have hcons : frameNames T i (rows.length + 1) =
          [deviceName i T] ++ frameNames T (i + 1) rows.length := by
        simp [frameNames, hT, List.range'_succ]
      have ht := h.drawDevice hi hdraw
      rw [List.length_cons, hcons]
      exact ht.trans (ih ht.inv (by omega))

/-- The names that the frames of an animation register. -/
def drawnNames (frames : List (ℤ × ℕ)) (rows : ℤ × ℕ → List (Located F)) : List (List Char) :=
  frames.flatMap fun frame => frameNames frame.1 1 (rows frame).length

/-- The loop over the frames registers the names of all of them. -/
theorem Inv.drawFrames {frames : List (ℤ × ℕ)} {rows : ℤ × ℕ → List (Located F)} (h : Inv s) :
    Draws s (s.drawFrames frames rows) false (drawnNames frames rows) := by
  induction frames generalizing s with
  | nil => exact h.draws_nil (.refl _) rfl rfl
  | cons frame frames ih =>
    have hframe : Draws s (MapOfDevices.drawFrame frame.1 1 (rows frame) s) false _ :=
      h.drawFrame le_rfl
    exact hframe.trans (ih hframe.inv)

/-- The loop ends: it sets the ellipses that the numbers of the time lead to. -/
theorem exists_setDevices (s : MapOfDevices F) (T : ℤ) (v : Visibility) : ∃ devices : List ℕ,
    s.setDevices T v = some { s with ellipses := devices.foldl (setVisibility v) s.ellipses } ∧
      ∀ r, r ∈ devices ↔ Found s.names (deviceName · T) 1 r := by
  have hname : Function.Injective (deviceName · T) := fun i j h => (deviceName_inj.1 h).1
  obtain ⟨devices, heq, hmem⟩ := exists_whileFound hname (setVisibility v) s.ellipses 1
    (Nat.lt_succ_self s.names.keys.length)
  exact ⟨devices, by rw [setDevices, heq]; rfl, hmem⟩

/-- **The slider.** `UpdateAnimation` ends: it hides the ellipses that the numbers of the previous
time lead to, if there is one, and shows those of the new time. -/
theorem exists_updateAnimation (s : MapOfDevices F) (T : ℤ) : ∃ hidden shown : List ℕ,
    s.updateAnimation T = some { s with
      ellipses := shown.foldl (setVisibility .visible)
        (hidden.foldl (setVisibility .hidden) s.ellipses)
      previouslyChecked := T } ∧
    (∀ r, r ∈ hidden ↔ s.previouslyChecked ≠ 0 ∧
      Found s.names (deviceName · s.previouslyChecked) 1 r) ∧
    ∀ r, r ∈ shown ↔ Found s.names (deviceName · T) 1 r := by
  unfold updateAnimation
  split
  case isTrue hprevious =>
    obtain ⟨hidden, heq, hmem⟩ := exists_setDevices s s.previouslyChecked .hidden
    obtain ⟨shown, heq', hmem'⟩ := exists_setDevices
      { s with ellipses := hidden.foldl (setVisibility .hidden) s.ellipses } T .visible
    refine ⟨hidden, shown, ?_, fun r => by rw [hmem, and_iff_right hprevious], hmem'⟩
    exact Option.bind_eq_some_iff.2 ⟨_, heq, Option.bind_eq_some_iff.2 ⟨_, heq', rfl⟩⟩
  case isFalse hprevious =>
    obtain ⟨shown, heq, hmem⟩ := exists_setDevices s T .visible
    refine ⟨[], shown, ?_, fun r => by simp [hprevious], hmem⟩
    exact Option.bind_eq_some_iff.2 ⟨s, rfl, Option.bind_eq_some_iff.2 ⟨_, heq, rfl⟩⟩

/-- Showing or hiding devices leaves them their names. -/
theorem KeepsNames.setVisibility (v : Visibility) (devices : List ℕ) (es : List (Ellipse F)) :
    KeepsNames es (devices.foldl (setVisibility v) es) := fun r e he =>
  ⟨if r ∈ devices then { e with Visibility := v } else e,
    by rw [getElem?_setVisibility, he]; rfl, by split <;> rfl⟩

/-- Names that are kept in two stretches are kept in both. -/
theorem KeepsNames.trans {es es' es'' : List (Ellipse F)} (h : KeepsNames es es')
    (h' : KeepsNames es' es'') : KeepsNames es es'' := by
  intro r e he
  obtain ⟨e', he', hname⟩ := h r e he
  obtain ⟨e'', he'', hname'⟩ := h' r e' he'
  exact ⟨e'', he'', hname'.trans hname⟩

/-- The slider registers nothing. -/
theorem Inv.updateAnimation (h : Inv s) (hupdate : s.updateAnimation T = some t) :
    Draws s t false [] := by
  obtain ⟨hidden, shown, heq, -, -⟩ := exists_updateAnimation s T
  obtain rfl := Option.some.inj (heq.symm.trans hupdate)
  exact h.draws_nil ((KeepsNames.setVisibility _ _ _).trans (.setVisibility _ _ _)) rfl rfl

/-- Nor does a row of times on the slider. -/
theorem Inv.updateAnimations {times : List ℤ} (h : Inv s)
    (hupdate : times.foldlM MapOfDevices.updateAnimation s = some t) : Draws s t false [] := by
  induction times generalizing s with
  | nil =>
    cases hupdate
    exact h.draws_nil (.refl _) rfl rfl
  | cons T times ih =>
    rw [List.foldlM_cons] at hupdate
    obtain ⟨u, hu, hupdate⟩ := Option.bind_eq_some_iff.1 hupdate
    have hfirst := h.updateAnimation hu
    exact hfirst.trans (ih hfirst.inv hupdate)

/-- Positions have no names. -/
theorem Inv.drawPositions (h : Inv s) (rows : List (Located F)) :
    Draws s (rows.foldl drawPosition s) false [] := by
  have heq : rows.foldl drawPosition s =
      rows.foldl (fun s row => s.addEllipse ⟨[], .device row.mac row.x row.y, .visible⟩) s := rfl
  rw [heq, foldl_addEllipse]
  exact h.draws_nil (.append _ _) rfl rfl

/-- The fields of an animation have no part in the names. -/
theorem Inv.setAnimation (h : Inv s) (interval : Interval) :
    Draws s { s with animation := interval } false [] :=
  h.draws_nil (.refl _) rfl rfl

/-- The frames, and the times of the slider. -/
theorem Inv.loadAnimation {interval : Interval} {input : AnimationInput F} (h : Inv s)
    (hload : s.loadAnimation interval input = some t) :
    Draws s t false (drawnNames (DataWindow.frameTimes interval.unixBegin interval.unixLast
      interval.granularity).zipIdx input.rows) := by
  have hframes : Draws s (s.drawFrames (DataWindow.frameTimes interval.unixBegin interval.unixLast
      interval.granularity).zipIdx input.rows) false _ := h.drawFrames
  have hall := hframes.trans (hframes.inv.updateAnimations hload)
  rwa [List.append_nil] at hall

end

/-! ## The clicks -/

section
variable {F : Type} (owner : MapOwner)

/-- Whether the action gets to `ClearMap`. -/
def clears (s : MapOfDevices F) : MapAction F → Bool
  | .animationClick input =>
    match owner with
    | .dataWindow espNumber =>
      let s := s.initializeMap espNumber input.queries
      s.isInitialized && input.boxes.isSome && decide (s.animation.timeFrames ≤ 100)
    | .mapWindow => input.boxes.isSome
  | .updateClick input =>
    match owner with
    | .dataWindow espNumber => (s.initializeMap espNumber input.queries).isInitialized
    | .mapWindow => true
  | .sliderValueChanged _ => false

/-- The frames that the action draws. -/
def framesOf (s : MapOfDevices F) : MapAction F → List (ℤ × ℕ)
  | .animationClick input =>
    match input.boxes with
    | none => []
    | some interval =>
      match owner with
      | .dataWindow espNumber =>
        DataWindow.animationClick (s.initializeMap espNumber input.queries).isInitialized interval
      | .mapWindow => MapWindow.animationClick interval
  | .updateClick _ => []
  | .sliderValueChanged _ => []

/-- The names that the action registers. -/
def drawnBy (s : MapOfDevices F) : MapAction F → List (List Char)
  | .animationClick input => drawnNames (framesOf owner s (.animationClick input)) input.rows
  | .updateClick _ => []
  | .sliderValueChanged _ => []

/-- The map behind the call of `InitializeMap`, which `MapWindow` does not make. -/
def opened (queries : EspQueries) (s : MapOfDevices F) : MapOfDevices F :=
  match owner with
  | .dataWindow espNumber => s.initializeMap espNumber queries
  | .mapWindow => s

/-- `InitializeMap` is about the receivers only. -/
theorem opened_keeps (queries : EspQueries) (s : MapOfDevices F) :
    (opened owner queries s).ellipses = s.ellipses ∧
      (opened owner queries s).names = s.names ∧ (opened owner queries s).log = s.log := by
  cases owner with
  | dataWindow espNumber =>
    dsimp only [opened, MapOfDevices.initializeMap]
    split
    · exact ⟨rfl, rfl, rfl⟩
    · split
      · split <;> exact ⟨rfl, rfl, rfl⟩
      · exact ⟨rfl, rfl, rfl⟩
  | mapWindow => exact ⟨rfl, rfl, rfl⟩

/-- What `Animation_Click` does: it stops at a box that is empty or at a map without receivers, or
it gets to the fields of the animation, behind `ClearMap` or not, and draws the frames or stops
there. -/
theorem animationClick_cases (s : MapOfDevices F) (input : AnimationInput F) :
    (clears owner s (.animationClick input) = false ∧
      framesOf owner s (.animationClick input) = [] ∧
      step owner s (.animationClick input) = some (opened owner input.queries s)) ∨
    ∃ interval, input.boxes = some interval ∧ ∃ t,
      t = (if clears owner s (.animationClick input) then (opened owner input.queries s).clearMap
        else opened owner input.queries s) ∧
      (framesOf owner s (.animationClick input) = [] ∧
        step owner s (.animationClick input) = some { t with animation := interval } ∨
      framesOf owner s (.animationClick input) = (DataWindow.frameTimes interval.unixBegin
        interval.unixLast interval.granularity).zipIdx ∧
        step owner s (.animationClick input) =
          { t with animation := interval }.loadAnimation interval input) := by
  cases owner with
  | dataWindow espNumber =>
    have hclears : clears (.dataWindow espNumber) s (.animationClick input) =
        ((s.initializeMap espNumber input.queries).isInitialized && input.boxes.isSome &&
          decide ((s.initializeMap espNumber input.queries).animation.timeFrames ≤ 100)) := rfl
    rw [hclears]
    dsimp only [framesOf, DataWindow.animationClick, step, DataWindow.onAnimationClick, opened]
    generalize s.initializeMap espNumber input.queries = s
    cases hinitialized : s.isInitialized with
    | false =>
      refine .inl ⟨rfl, ?_, rfl⟩
      cases input.boxes <;> rfl
    | true =>
      cases input.boxes with
      | none => exact .inl ⟨rfl, rfl, rfl⟩
      | some interval =>
        refine .inr ⟨interval, rfl, if s.animation.timeFrames ≤ 100 then s.clearMap else s,
          by simp, ?_⟩
        dsimp only
        rw [if_neg (not_not.2 rfl), if_neg (not_not.2 rfl)]
        by_cases hempty : interval.unixBegin ≥ interval.unixLast
        · rw [if_pos hempty, if_pos hempty]
          exact .inl ⟨rfl, rfl⟩
        rw [if_neg hempty, if_neg hempty]
        have hmany_iff : (interval.unixLast - interval.unixBegin).tdiv interval.granularity > 100 ↔
            interval.timeFrames > 100 := .rfl
        by_cases hmany : interval.timeFrames > 100
        · rw [if_pos (hmany_iff.2 hmany), if_pos hmany]
          exact .inl ⟨rfl, rfl⟩
        · rw [if_neg (mt hmany_iff.1 hmany), if_neg hmany]
          exact .inr ⟨rfl, rfl⟩
  | mapWindow =>
    have hclears : clears .mapWindow s (.animationClick input) = input.boxes.isSome := rfl
    rw [hclears]
    dsimp only [framesOf, MapWindow.animationClick, step, MapWindow.onAnimationClick, opened]
    cases input.boxes with
    | none => exact .inl ⟨rfl, rfl, rfl⟩
    | some interval =>
      refine .inr ⟨interval, rfl, _, rfl, ?_⟩
      dsimp only
      by_cases hempty : interval.unixBegin ≥ interval.unixLast
      · rw [if_pos hempty, if_pos hempty]
        exact .inl ⟨rfl, rfl⟩
      · rw [if_neg hempty, if_neg hempty]
        exact .inr ⟨rfl, rfl⟩

/-- What `Update_Click` does. -/
theorem updateClick_eq (s : MapOfDevices F) (input : UpdateInput F) :
    step owner s (.updateClick input) = some (if clears owner s (.updateClick input) then
      input.rows.foldl drawPosition (opened owner input.queries s).clearMap
        else opened owner input.queries s) := by
  cases owner with
  | dataWindow espNumber =>
    dsimp only [clears, step, DataWindow.onUpdateClick, opened]
    rw [ite_not]
    rfl
  | mapWindow => rfl

variable {owner} {s t : MapOfDevices F}

/-- Reading the receivers leaves the names in order. -/
theorem Inv.opened (h : Inv s) (owner : MapOwner) (queries : EspQueries) :
    Inv (MapOfDevices.opened owner queries s) := by
  obtain ⟨hellipses, hnames, hlog⟩ := opened_keeps owner queries s
  exact (h.draws_nil (hellipses ▸ .refl _) hnames hlog).inv

/-- `ClearMap`, if the action gets to it. -/
theorem Inv.clearMap_if (h : Inv s) (cleared : Bool) :
    Draws s (if cleared then s.clearMap else s) cleared [] := by
  cases cleared with
  | false => exact h.draws_nil (.refl _) rfl rfl
  | true => exact h.clearMap

/-- **One step.** A step calls `ClearMap` or not, and registers the names of the frames that it
draws. -/
theorem Inv.step {a : MapAction F} (h : Inv s) (hstep : MapOfDevices.step owner s a = some t) :
    Draws s t (clears owner s a) (drawnBy owner s a) := by
  cases a with
  | animationClick input =>
    have hopened := h.opened owner input.queries
    obtain ⟨-, hnames, hlog⟩ := opened_keeps owner input.queries s
    refine Draws.of_eq ?_ hnames hlog
    rw [drawnBy]
    obtain ⟨hclears, hframes, heq⟩ | ⟨interval, -, u, rfl, hrest⟩ :=
      animationClick_cases owner s input
    · obtain rfl := Option.some.inj (heq.symm.trans hstep)
      rw [hclears, hframes]
      exact hopened.draws_nil (.refl _) rfl rfl
    · have hcleared := hopened.clearMap_if (clears owner s (.animationClick input))
      have hset := hcleared.trans (hcleared.inv.setAnimation interval)
      obtain ⟨hframes, heq⟩ | ⟨hframes, heq⟩ := hrest
      · obtain rfl := Option.some.inj (heq.symm.trans hstep)
        rw [hframes]
        exact hset
      · rw [hframes]
        exact hset.trans (hset.inv.loadAnimation (heq.symm.trans hstep))
  | updateClick input =>
    have hopened := h.opened owner input.queries
    obtain ⟨-, hnames, hlog⟩ := opened_keeps owner input.queries s
    refine Draws.of_eq ?_ hnames hlog
    obtain rfl := Option.some.inj ((updateClick_eq owner s input).symm.trans hstep)
    have hcleared := hopened.clearMap_if (clears owner s (.updateClick input))
    split
    case isTrue hclears =>
      rw [hclears] at hcleared ⊢
      exact hcleared.trans (hcleared.inv.drawPositions input.rows)
    case isFalse hclears =>
      rw [Bool.not_eq_true] at hclears
      rw [hclears] at hcleared ⊢
      exact hcleared
  | sliderValueChanged T => exact h.updateAnimation hstep

/-- Every call of the slider ends. -/
theorem exists_updateAnimations (times : List ℤ) (s : MapOfDevices F) :
    ∃ t, times.foldlM updateAnimation s = some t := by
  induction times generalizing s with
  | nil => exact ⟨s, rfl⟩
  | cons T times ih =>
    obtain ⟨_, _, heq, -⟩ := exists_updateAnimation s T
    obtain ⟨t, ht⟩ := ih _
    exact ⟨t, by rw [List.foldlM_cons, heq]; exact ht⟩

/-- Every action ends. -/
theorem exists_step (owner : MapOwner) (s : MapOfDevices F) (a : MapAction F) :
    ∃ t, MapOfDevices.step owner s a = some t := by
  cases a with
  | animationClick input =>
    obtain ⟨-, -, heq⟩ | ⟨interval, -, u, -, ⟨-, heq⟩ | ⟨-, heq⟩⟩ :=
      animationClick_cases owner s input
    · exact ⟨_, heq⟩
    · exact ⟨_, heq⟩
    · rw [heq]
      exact exists_updateAnimations _ _
  | updateClick input => exact ⟨_, updateClick_eq owner s input⟩
  | sliderValueChanged T =>
    obtain ⟨_, _, heq, -⟩ := exists_updateAnimation s T
    exact ⟨_, heq⟩

/-- The buttons and the slider never hang: every run of actions goes through. -/
theorem exists_run (owner : MapOwner) (as : List (MapAction F)) (s : MapOfDevices F) :
    ∃ t, Transition.run (MapOfDevices.step owner) s as = some t := by
  refine Transition.exists_run (I := fun _ => True) (fun s _ a _ => ?_) trivial
  obtain ⟨t, ht⟩ := exists_step owner s a
  exact ⟨t, ht, trivial⟩

/-- The invariant of all runs. -/
theorem inv_of_run {eSPs : List Esp} {as : List (MapAction F)}
    (hrun : Transition.run (MapOfDevices.step owner) (start eSPs) as = some s) : Inv s :=
  Transition.run_invariant (fun _ _ _ h hstep => (h.step hstep).inv) (inv_start eSPs) hrun

end

end MapOfDevices

end DetectionSystem

import DetectionSystem.DataWindow.MapOfDevices

/-!
# Names that are never unregistered

`ClearMap` unregisters the names of the loaded animation in a loop that starts at the number 0 and
does not count up, while `DrawDevice` has numbered them from 1. So nothing is unregistered: all
names that were ever registered still are (`Hist`), and `forgets_iff` says that a run forgets its
animations exactly if there never is anything to forget.
-/

namespace DetectionSystem

namespace MapOfDevices

open Transition

variable {F : Type}

/-- After each `ClearMap` no name that was registered before it is there any more. -/
def Forgets (log : List NameEvent) : Prop :=
  ∀ pre names post, log = pre ++ .clearMap names :: post →
    ∀ name, .registerName name ∈ pre → name ∉ names

/-- The names that were registered since the last `ClearMap`. -/
def loaded (log : List NameEvent) : List (List Char) :=
  log.foldl (fun names event =>
    match event with
    | .registerName name => names ++ [name]
    | .clearMap _ => []) []

/-- Every `ClearMap` so far has forgotten the animation before it, and the registered names are
those of the animation that is loaded. -/
structure ForgetsAnimations (s : MapOfDevices F) : Prop where
  forgets : Forgets s.log
  loaded : ∀ name, name ∈ s.names ↔ name ∈ loaded s.log

/-- The action draws a device, at a time that makes a valid name. -/
def DrawsDevice (owner : MapOwner) (s : MapOfDevices F) : MapAction F → Prop
  | .animationClick input =>
    ∃ frame ∈ framesOf owner s (.animationClick input), 0 ≤ frame.1 ∧ input.rows frame ≠ []
  | .updateClick _ | .sliderValueChanged _ => False

/-- Nothing is drawn before the map is cleared. -/
def NothingToForget (owner : MapOwner) (s₀ : MapOfDevices F) (as : List (MapAction F)) : Prop :=
  ∀ pre a mid b post, as = pre ++ a :: (mid ++ b :: post) →
    ∀ s t, run (step owner) s₀ pre = some s → run (step owner) s (a :: mid) = some t →
      DrawsDevice owner s a → clears owner t b = false

variable {owner : MapOwner} {s t : MapOfDevices F} {a : MapAction F}

/-- An action draws devices exactly if it registers a name. -/
theorem drawsDevice_iff : DrawsDevice owner s a ↔ ∃ name, name ∈ drawnBy owner s a := by
  cases a with
  | animationClick input =>
    simp only [DrawsDevice, drawnBy, drawnNames, List.mem_flatMap]
    constructor
    · rintro ⟨frame, hframe, hT, hrows⟩
      refine ⟨deviceName 1 frame.1, frame, hframe, ?_⟩
      rw [frameNames, if_pos hT]
      exact List.mem_map_of_mem (List.mem_range'_1.2 ⟨le_rfl, by
        have := List.length_pos_of_ne_nil hrows
        omega⟩)
    · rintro ⟨name, frame, hframe, hname⟩
      unfold frameNames at hname
      split at hname
      case isTrue hT =>
        refine ⟨frame, hframe, hT, fun hrows => ?_⟩
        simp [hrows] at hname
      case isFalse => cases hname
  | updateClick _ => simp [DrawsDevice, drawnBy]
  | sliderValueChanged _ => simp [DrawsDevice, drawnBy]

/-! ## The history -/

/-- The registered names are all that ever were. -/
def Hist (s : MapOfDevices F) : Prop := ∀ name, name ∈ s.names ↔ .registerName name ∈ s.log

/-- A new window has no names and no history. -/
theorem hist_start (eSPs : List Esp) : Hist (start eSPs : MapOfDevices F) := fun name => by
  simp [start]

/-- What is drawn is added to both. -/
theorem Draws.hist {cleared : Bool} {drawn : List (List Char)} (h : Draws s t cleared drawn)
    (hist : Hist s) : Hist t := by
  intro name
  rw [h.names, hist, h.log]
  cases cleared <;> simp

/-! ## The log -/

section
variable {log : List NameEvent} {drawn : List (List Char)} {names : List (List Char)}

/-- After `ClearMap` nothing is loaded. -/
theorem loaded_clearMap : loaded (log ++ [.clearMap names]) = [] := by
  rw [loaded, List.foldl_append]
  rfl

/-- What is drawn is loaded. -/
theorem loaded_registerNames : loaded (log ++ drawn.map .registerName) = loaded log ++ drawn := by
  induction drawn generalizing log with
  | nil => simp
  | cons name drawn ih =>
    have hone : loaded (log ++ [.registerName name]) = loaded log ++ [name] := by
      rw [loaded, List.foldl_append]
      rfl
    rw [List.map_cons, List.append_cons, ih, hone, List.append_assoc, List.singleton_append]

/-- One more event. -/
theorem forgets_concat {event : NameEvent} : Forgets (log ++ [event]) ↔ Forgets log ∧
    ∀ names, event = .clearMap names → ∀ name, .registerName name ∈ log → name ∉ names := by
  constructor
  · intro h
    refine ⟨fun pre names post heq => h pre names (post ++ [event]) (by simp [heq]), ?_⟩
    rintro names rfl
    exact h log names [] rfl
  · rintro ⟨h, hlast⟩ pre names post heq
    rcases List.eq_nil_or_concat post with rfl | ⟨post, last, rfl⟩
    · obtain ⟨rfl, hevent⟩ := List.append_inj' heq rfl
      exact hlast names (List.cons.inj hevent).1
    · rw [List.concat_eq_append, ← List.cons_append, ← List.append_assoc] at heq
      exact h pre names post (List.append_inj' heq rfl).1

/-- Registering a name forgets nothing. -/
theorem forgets_registerNames : Forgets (log ++ drawn.map .registerName) ↔ Forgets log := by
  induction drawn generalizing log with
  | nil => simp
  | cons name drawn ih =>
    rw [List.map_cons, List.append_cons, ih, forgets_concat]
    exact and_iff_left nofun

end

/-! ## The steps -/

/-- A step that clears the map where no name is registered, or does not clear it. -/
theorem ForgetsAnimations.keep {cleared : Bool} {drawn : List (List Char)}
    (h : ForgetsAnimations s) (hist : Hist s) (hdraws : Draws s t cleared drawn)
    (hnothing : cleared = true → ∀ name, name ∉ s.names) : ForgetsAnimations t := by
  cases cleared with
  | false =>
    have hlog : t.log = s.log ++ drawn.map .registerName := by simpa using hdraws.log
    refine ⟨?_, fun name => ?_⟩
    · rw [hlog, forgets_registerNames]
      exact h.forgets
    · rw [hlog, loaded_registerNames, List.mem_append, hdraws.names, h.loaded]
  | true =>
    have hempty := hnothing rfl
    have hlog : t.log = s.log ++ [.clearMap s.names.keys] ++ drawn.map .registerName := by
      simpa using hdraws.log
    refine ⟨?_, fun name => ?_⟩
    · rw [hlog, forgets_registerNames, forgets_concat]
      refine ⟨h.forgets, fun names hnames name hname => ?_⟩
      exact absurd ((hist name).2 hname) (hempty name)
    · rw [hlog, loaded_registerNames, loaded_clearMap, List.nil_append, hdraws.names]
      exact or_iff_right (hempty name)

/-- A step that clears the map where a name is registered leaves it registered. -/
theorem not_forgetsAnimations {drawn : List (List Char)} {name : List Char} (hist : Hist s)
    (hdraws : Draws s t true drawn) (hname : name ∈ s.names) : ¬ ForgetsAnimations t := by
  intro h
  have hlog : t.log = s.log ++ [.clearMap s.names.keys] ++ drawn.map .registerName := by
    simpa using hdraws.log
  have hforgets := h.forgets
  rw [hlog, forgets_registerNames, forgets_concat] at hforgets
  exact hforgets.2 _ rfl name ((hist name).1 hname) (AList.mem_keys.1 hname)

/-- Names are registered from the first step on that draws a device. -/
theorem exists_name_iff {as : List (MapAction F)} (h : Inv s)
    (hrun : run (step owner) s as = some t) :
    (∃ name, name ∈ t.names) ↔ (∃ name, name ∈ s.names) ∨
      ∃ pre a mid u, as = pre ++ a :: mid ∧ run (step owner) s pre = some u ∧
        DrawsDevice owner u a := by
  induction as generalizing s with
  | nil =>
    cases hrun
    simp
  | cons a as ih =>
    obtain ⟨u, hu, hrun⟩ := run_cons_eq_some.1 hrun
    have hdraws := h.step hu
    rw [ih hdraws.inv hrun]
    simp only [hdraws.names, exists_or, ← drawsDevice_iff, or_assoc]
    refine or_congr_right ?_
    constructor
    · rintro (hdraw | ⟨pre, b, mid, v, rfl, hpre, hdraw⟩)
      · exact ⟨[], a, as, s, rfl, rfl, hdraw⟩
      · exact ⟨a :: pre, b, mid, v, rfl, run_cons_eq_some.2 ⟨u, hu, hpre⟩, hdraw⟩
    · rintro ⟨pre, b, mid, v, heq, hpre, hdraw⟩
      cases pre with
      | nil =>
        cases heq
        cases hpre
        exact .inl hdraw
      | cons c pre =>
        obtain ⟨rfl, rfl⟩ := List.cons.inj heq
        obtain ⟨w, hw, hpre⟩ := run_cons_eq_some.1 hpre
        cases hu.symm.trans hw
        exact .inr ⟨pre, b, mid, v, rfl, hpre, hdraw⟩

/-- The two ways to say that there is nothing to forget. -/
theorem nothingToForget_iff (owner : MapOwner) (eSPs : List Esp) (as : List (MapAction F)) :
    NothingToForget owner (start eSPs) as ↔
      Meets (step owner) (fun s a => clears owner s a = true → ∀ name, name ∉ s.names)
        (start eSPs) as := by
  have hstart : ¬ ∃ name, name ∈ (start eSPs : MapOfDevices F).names := by simp [start]
  rw [meets_iff_forall]
  constructor
  · rintro h pre b post rfl t hpre hclears name hname
    obtain ⟨pre, a, mid, s, rfl, hs, hdraw⟩ :=
      ((exists_name_iff (inv_start eSPs) hpre).1 ⟨name, hname⟩).resolve_left hstart
    obtain ⟨u, hu, ht⟩ := run_append_eq_some.1 hpre
    cases hs.symm.trans hu
    have hnot := h pre a mid b post (by simp) s t hs ht hdraw
    exact absurd (hclears.symm.trans hnot) (by decide)
  · rintro h pre a mid b post rfl s t hs ht hdraw
    have hrun : run (step owner) (start eSPs) (pre ++ a :: mid) = some t :=
      run_append_eq_some.2 ⟨s, hs, ht⟩
    obtain ⟨name, hname⟩ := (exists_name_iff (inv_start eSPs) hrun).2
      (.inr ⟨pre, a, mid, s, rfl, hs, hdraw⟩)
    by_contra hclears
    exact h (pre ++ a :: mid) b post (by simp) t hrun (by simpa using hclears) name hname

/-- **Forgetting.** In a run of a window every `ClearMap` forgets the animation before it if and
only if no device is ever drawn before the map is cleared. -/
theorem forgets_iff (owner : MapOwner) (eSPs : List Esp) (as : List (MapAction F)) :
    Throughout (step owner) ForgetsAnimations (start eSPs) as ↔
      NothingToForget owner (start eSPs) as := by
  obtain ⟨t, hrun⟩ := exists_run owner as (start eSPs)
  rw [nothingToForget_iff]
  refine throughout_iff_meets (I := fun s => Inv s ∧ Hist s ∧ ForgetsAnimations s)
    (fun s h => h.2.2) ?_ ?_ ⟨inv_start eSPs, hist_start eSPs, ?_⟩ hrun
  · rintro s a t ⟨hinv, hist, h⟩ hG hstep
    have hdraws := hinv.step hstep
    exact ⟨hdraws.inv, hdraws.hist hist, h.keep hist hdraws hG⟩
  · rintro s a t ⟨hinv, hist, -⟩ hG hstep
    have hdraws := hinv.step hstep
    push Not at hG
    obtain ⟨hclears, name, hname⟩ := hG
    rw [hclears] at hdraws
    exact not_forgetsAnimations hist hdraws hname
  · exact ⟨fun pre names post heq => by simp [start] at heq, fun name => by simp [start, loaded]⟩

/-- The queries of `InitializeMap` with one receiver. -/
def oneEsp : EspQueries := ⟨some 1, some [⟨Mac.of 1 2 3 4 5 6, 1, 0, 0⟩]⟩

/-- An animation of a minute, with a device at its beginning. -/
def oneDevice : AnimationInput ℚ where
  queries := oneEsp
  boxes := some DataWindow.oneMinute
  rows frame := if frame.1 = 100 then [⟨['a'], 1, 1, 99⟩] else []
  moved := []

/-- The device of the animation is still registered when the map has been updated. -/
theorem not_forgets : ¬ ∀ (owner : MapOwner) (eSPs : List Esp) (as : List (MapAction ℚ)),
    Throughout (step owner) ForgetsAnimations (start eSPs) as := by
  intro hclaim
  have h := hclaim (.dataWindow 1) [] [.animationClick oneDevice, .updateClick ⟨oneEsp, []⟩]
  obtain ⟨s, hs⟩ := exists_step (.dataWindow 1) (start []) (.animationClick oneDevice)
  obtain ⟨t, ht⟩ := exists_step (.dataWindow 1) s (.updateClick ⟨oneEsp, []⟩)
  have hdraw : DrawsDevice (.dataWindow 1) (start []) (.animationClick oneDevice) := by
    refine ⟨(100, 0), ?_, by decide, by simp [oneDevice]⟩
    have hframes : framesOf (.dataWindow 1) (start []) (.animationClick oneDevice) =
        DataWindow.animationClick true DataWindow.oneMinute := rfl
    simp [hframes, DataWindow.animationClick_oneMinute.1]
  have hclears : clears (.dataWindow 1) s (.updateClick ⟨oneEsp, []⟩) = true := by
    have hinitialized : (s.initializeMap 1 oneEsp).isInitialized = true := by
      unfold initializeMap
      split
      case isTrue hinitialized => exact hinitialized
      case isFalse => rfl
    exact hinitialized
  have hfirst := (inv_start []).step hs
  have hsecond := hfirst.inv.step ht
  obtain ⟨name, hname⟩ := drawsDevice_iff.1 hdraw
  rw [hclears] at hsecond
  refine not_forgetsAnimations (hfirst.hist (hist_start [])) hsecond
    ((hfirst.names name).2 (.inr hname)) (h _ List.prefix_rfl t ?_)
  exact run_cons_eq_some.2 ⟨s, hs, run_cons_eq_some.2 ⟨t, ht, rfl⟩⟩

end MapOfDevices

end DetectionSystem

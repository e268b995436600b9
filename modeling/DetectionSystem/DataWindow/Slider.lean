import DetectionSystem.DataWindow.MapOfDevices

/-!
# One frame at a time

`Animation_Click` has drawn the devices of all frames, hidden, and numbered those of a frame from 1
without a gap. `UpdateAnimation` goes through the numbers of the previous time to hide its devices,
and through those of the new time to show them. Names that are left over from earlier animations may
prolong these sequences, but they find ellipses that are not on the canvas.

`FrameInv` says where each device of the animation is and that it is visible exactly if the time of
its frame is the previous one. Drawing a device extends it (`FrameInv.drawDevice`), and a call of
`UpdateAnimation` keeps it for the new time (`FrameInv.updateAnimation`).
-/

namespace DetectionSystem

namespace MapOfDevices

open Numbered Transition

variable {F : Type}

/-- A device of an animation: the time of its frame, its number in it, and its row. -/
structure FrameDevice (F : Type) where
  time : ℤ
  number : ℕ
  row : Located F

/-- The ellipse that is drawn for a device. -/
def FrameDevice.ellipse (d : FrameDevice F) (v : Visibility) : Ellipse F :=
  ⟨deviceName d.number d.time, .device d.row.mac d.row.x d.row.y, v⟩

/-- The devices of the rows of a frame, from the number `i` on. -/
def frameDevices (T : ℤ) (i : ℕ) (rows : List (Located F)) : List (FrameDevice F) :=
  (rows.zipIdx i).map fun (row, i) => ⟨T, i, row⟩

/-- The devices of an animation. -/
def animationDevices (frames : List (ℤ × ℕ)) (rows : ℤ × ℕ → List (Located F)) :
    List (FrameDevice F) :=
  frames.flatMap fun frame => frameDevices frame.1 1 (rows frame)

/-- The ellipses that are drawn for a time, all of them visible. -/
def ellipsesFor (devices : List (FrameDevice F)) (T : ℤ) : List (Ellipse F) :=
  (devices.filter (·.time = T)).map (·.ellipse .visible)

/-- The ellipse stands for a device and can be seen. -/
def isVisibleDevice (e : Ellipse F) : Bool :=
  match e.ToolTip, e.Visibility with
  | .device .., .visible => true
  | _, _ => false

/-- The visible device ellipses on the canvas. -/
def visibleDevices (s : MapOfDevices F) : List (Ellipse F) :=
  (s.Children.filterMap fun r => s.ellipses[r]?).filter isVisibleDevice

/-- The map when `Animation_Click` has cleared it and drawn the frames of the interval. -/
def withFrames (owner : MapOwner) (s : MapOfDevices F) (interval : Interval)
    (input : AnimationInput F) : MapOfDevices F :=
  let s :=
    match owner with
    | .dataWindow espNumber => s.initializeMap espNumber input.queries
    | .mapWindow => s
  let times := DataWindow.frameTimes interval.unixBegin interval.unixLast interval.granularity
  { s.clearMap with animation := interval }.drawFrames times.zipIdx input.rows

/-- The map with the frames of an animation. -/
theorem withFrames_eq (owner : MapOwner) (s : MapOfDevices F) (interval : Interval)
    (input : AnimationInput F) :
    withFrames owner s interval input =
      { (opened owner input.queries s).clearMap with animation := interval }.drawFrames
        (DataWindow.frameTimes interval.unixBegin interval.unixLast interval.granularity).zipIdx
        input.rows := by
  cases owner with
  | dataWindow espNumber => rfl
  | mapWindow => rfl

/-! ## The invariant -/

/-- The ellipse of a device: its name finds it, the numbers before are registered, and it is visible
if the time of its frame is the previous one. -/
structure Holds (s : MapOfDevices F) (d : FrameDevice F) (r : ℕ) : Prop where
  ellipse : s.ellipses[r]? =
    some (d.ellipse (if d.time = s.previouslyChecked then .visible else .hidden))
  found : s.names.lookup (deviceName d.number d.time) = some r
  positive : 0 < d.time
  number : 1 ≤ d.number
  unbroken : Unbroken s.names (deviceName · d.time) 1 d.number

/-- On the canvas are receivers and the devices of the animation. -/
structure FrameInv (esps : List ℕ) (devices : List (FrameDevice F × ℕ)) (s : MapOfDevices F) :
    Prop where
  inv : Inv s
  children : s.Children = esps ++ devices.map Prod.snd
  receivers : ∀ r ∈ esps, ∃ e esp, s.ellipses[r]? = some e ∧ e.ToolTip = .esp esp
  holds : ∀ p ∈ devices, Holds s p.1 p.2

variable {esps : List ℕ} {devices : List (FrameDevice F × ℕ)} {s t : MapOfDevices F}
  {d : FrameDevice F} {r i : ℕ} {T : ℤ} {row : Located F} {rows : List (Located F)}

/-- What the invariant says about what can be seen. -/
theorem FrameInv.visibleDevices_eq (h : FrameInv esps devices s) :
    s.visibleDevices = ellipsesFor (devices.map Prod.fst) s.previouslyChecked := by
  have hesps : ∀ r ∈ esps, ∀ e ∈ s.ellipses[r]?, isVisibleDevice e = false := by
    intro r hr e he
    obtain ⟨e', esp, he', htip⟩ := h.receivers r hr
    obtain rfl := Option.some.inj (he'.symm.trans he)
    simp [isVisibleDevice, htip]
  have hnone : (esps.filterMap fun r => s.ellipses[r]?).filter isVisibleDevice = [] := by
    refine List.filter_eq_nil_iff.2 fun e he hvisible => ?_
    obtain ⟨r, hr, he⟩ := List.mem_filterMap.1 he
    exact absurd ((hesps r hr e he).symm.trans hvisible) (by decide)
  have hdevices : ∀ l : List (FrameDevice F × ℕ), (∀ p ∈ l, Holds s p.1 p.2) →
      ((l.map Prod.snd).filterMap fun r => s.ellipses[r]?).filter isVisibleDevice =
        ellipsesFor (l.map Prod.fst) s.previouslyChecked := by
    intro l hl
    induction l with
    | nil => rfl
    | cons p l ih =>
      obtain ⟨hp, hl⟩ := List.forall_mem_cons.1 hl
      rw [List.map_cons, List.filterMap_cons_some hp.ellipse, List.filter_cons, ih hl]
      by_cases htime : p.1.time = s.previouslyChecked
      · simp [ellipsesFor, htime, FrameDevice.ellipse, isVisibleDevice]
      · simp [ellipsesFor, htime, FrameDevice.ellipse, isVisibleDevice]
  rw [visibleDevices, h.children, List.filterMap_append, List.filter_append, hnone,
    List.nil_append, hdevices devices h.holds]

/-- The numbers of a time lead to the ellipse of a device if it is the time of its frame. -/
theorem Holds.found_iff (h : Holds s d r) (hinv : Inv s) :
    Found s.names (deviceName · T) 1 r ↔ d.time = T := by
  constructor
  · rintro ⟨i, -, hlookup, -⟩
    obtain ⟨e, he, hname⟩ := hinv.named _ r hlookup
    obtain rfl := Option.some.inj (h.ellipse.symm.trans he)
    exact (deviceName_inj.1 hname).2
  · rintro rfl
    exact ⟨d.number, h.number, h.found, h.unbroken⟩

/-- **One call.** The devices of the new time are shown, and those of the previous one hidden. -/
theorem FrameInv.updateAnimation (h : FrameInv esps devices s) (T : ℤ) :
    ∃ t, s.updateAnimation T = some t ∧ FrameInv esps devices t ∧ t.previouslyChecked = T := by
  obtain ⟨hidden, shown, heq, hhidden, hshown⟩ := exists_updateAnimation s T
  refine ⟨_, heq, ⟨(h.inv.updateAnimation heq).inv, h.children, ?_, ?_⟩, rfl⟩
  · intro r hr
    obtain ⟨e, esp, he, htip⟩ := h.receivers r hr
    dsimp only
    rw [getElem?_setVisibility, getElem?_setVisibility, he]
    refine ⟨_, esp, rfl, ?_⟩
    split <;> split <;> exact htip
  · intro p hp
    have hold := h.holds p hp
    refine ⟨?_, hold.found, hold.positive, hold.number, hold.unbroken⟩
    have hshow : p.2 ∈ shown ↔ p.1.time = T := by rw [hshown, hold.found_iff h.inv]
    have hhide : p.2 ∈ hidden ↔ p.1.time = s.previouslyChecked := by
      rw [hhidden, hold.found_iff h.inv]
      refine and_iff_right_of_imp fun htime => ?_
      exact htime ▸ hold.positive.ne'
    dsimp only
    rw [getElem?_setVisibility, getElem?_setVisibility, hold.ellipse]
    simp only [Option.map_some, hshow, hhide, FrameDevice.ellipse]
    by_cases hprevious : p.1.time = s.previouslyChecked
    · by_cases hnew : p.1.time = T
      · simp only [if_pos hprevious, if_pos hnew]
      · simp only [if_pos hprevious, if_neg hnew]
    · by_cases hnew : p.1.time = T
      · simp only [if_neg hprevious, if_pos hnew]
      · simp only [if_neg hprevious, if_neg hnew]

/-! ## The frames -/

/-- **One device.** A device is drawn with a new name, the next number of its frame. -/
theorem FrameInv.drawDevice (h : FrameInv esps devices s) (hprevious : s.previouslyChecked = 0)
    (hT : 0 < T) (hi : 1 ≤ i) (hnew : ∀ p ∈ devices, p.1.time = T → p.1.number < i)
    (hbefore : ∀ j, 1 ≤ j → j < i → deviceName j T ∈ s.names) (row : Located F) :
    ∃ t, s.drawDevice (deviceName i T) row = some t ∧
      FrameInv esps (devices ++ [(⟨T, i, row⟩, s.ellipses.length)]) t ∧
      t.previouslyChecked = 0 ∧ ∀ j, 1 ≤ j → j < i + 1 → deviceName j T ∈ t.names := by
  obtain ⟨t, hdraw⟩ : ∃ t, s.drawDevice (deviceName i T) row = some t :=
    ⟨_, drawDevice_eq_some.2 ⟨hT.le, rfl⟩⟩
  have hdraws := h.inv.drawDevice hi hdraw
  obtain ⟨-, rfl⟩ := drawDevice_eq_some.1 hdraw
  have hnames : ∀ j, 1 ≤ j → j < i + 1 → deviceName j T ∈ s.names ∨
      deviceName j T ∈ [deviceName i T] := by
    intro j hj hlt
    rcases Nat.eq_or_lt_of_le (Nat.lt_succ_iff.1 hlt) with rfl | hlt
    · exact .inr (List.mem_singleton_self _)
    · exact .inl (hbefore j hj hlt)
  have hunbroken : ∀ j, 1 ≤ j → j < i + 1 → _ := fun j hj hlt =>
    (hdraws.names _).2 (hnames j hj hlt)
  refine ⟨_, hdraw, ⟨hdraws.inv, ?_, ?_, ?_⟩, hprevious, hunbroken⟩
  · rw [addEllipse_Children, h.children]
    simp
  · intro r hr
    obtain ⟨e, esp, he, htip⟩ := h.receivers r hr
    obtain ⟨hlt, -⟩ := List.getElem?_eq_some_iff.1 he
    exact ⟨e, esp, by rw [addEllipse_ellipses, List.getElem?_append_left hlt, he], htip⟩
  · intro p hp
    rcases List.mem_append.1 hp with hp | hp
    · have hold := h.holds p hp
      obtain ⟨hlt, -⟩ := List.getElem?_eq_some_iff.1 hold.ellipse
      have hne : deviceName p.1.number p.1.time ≠ deviceName i T := by
        rw [Ne, deviceName_inj]
        rintro ⟨heq, htime⟩
        exact absurd heq (hnew p hp htime).ne
      refine ⟨?_, ?_, hold.positive, hold.number, ?_⟩
      · rw [addEllipse_ellipses, List.getElem?_append_left hlt]
        exact hold.ellipse
      · rw [addEllipse_names, AList.lookup_insert_ne hne]
        exact hold.found
      · intro j hj hle
        exact (hdraws.names _).2 (.inl (hold.unbroken j hj hle))
    · rw [List.mem_singleton.1 hp]
      refine ⟨?_, ?_, hT, hi, fun j hj hle => hunbroken j hj (Nat.lt_succ_of_le hle)⟩
      · rw [addEllipse_previouslyChecked, addEllipse_ellipses, List.getElem?_concat_length]
        dsimp only
        rw [hprevious, if_neg hT.ne']
        rfl
      · rw [addEllipse_names, AList.lookup_insert]

/-- The devices of a frame are of its time. -/
theorem time_of_mem_frameDevices (h : d ∈ frameDevices T i rows) : d.time = T := by
  obtain ⟨p, -, rfl⟩ := List.mem_map.1 h
  rfl

/-- One frame. -/
theorem FrameInv.drawFrame (h : FrameInv esps devices s) (hprevious : s.previouslyChecked = 0)
    (hT : 0 < T) (hi : 1 ≤ i) (hnew : ∀ p ∈ devices, p.1.time = T → p.1.number < i)
    (hbefore : ∀ j, 1 ≤ j → j < i → deviceName j T ∈ s.names) (rows : List (Located F)) :
    ∃ new : List (FrameDevice F × ℕ), new.map Prod.fst = frameDevices T i rows ∧
      FrameInv esps (devices ++ new) (drawFrame T i rows s) ∧
      (drawFrame T i rows s).previouslyChecked = 0 := by
  induction rows generalizing s i devices with
  | nil => exact ⟨[], rfl, by rwa [List.append_nil], hprevious⟩
  | cons row rows ih =>
    obtain ⟨t, hdraw, ht, hprevious', hbefore'⟩ :=
      h.drawDevice hprevious hT hi hnew hbefore row
    have hnew' : ∀ p ∈ devices ++ [((⟨T, i, row⟩ : FrameDevice F), s.ellipses.length)],
        p.1.time = T → p.1.number < i + 1 := by
      intro p hp htime
      rcases List.mem_append.1 hp with hp | hp
      · exact Nat.lt_succ_of_lt (hnew p hp htime)
      · rw [List.mem_singleton.1 hp]
        exact Nat.lt_succ_self i
    obtain ⟨new, hnew_eq, hframe, hzero⟩ := ih ht hprevious' (by omega) hnew' hbefore'
    have hstep : MapOfDevices.drawFrame T i (row :: rows) s =
        MapOfDevices.drawFrame T (i + 1) rows t := by
      rw [MapOfDevices.drawFrame, hdraw]
    rw [hstep]
    refine ⟨(⟨T, i, row⟩, s.ellipses.length) :: new, ?_, ?_, hzero⟩
    · rw [List.map_cons, hnew_eq]
      rfl
    · rwa [List.append_assoc, List.singleton_append] at hframe

/-- All frames. -/
theorem FrameInv.drawFrames {frames : List (ℤ × ℕ)} (rows : ℤ × ℕ → List (Located F))
    (h : FrameInv esps devices s) (hprevious : s.previouslyChecked = 0)
    (hpos : ∀ frame ∈ frames, 0 < frame.1) (hordered : frames.Pairwise (·.1 < ·.1))
    (hnew : ∀ p ∈ devices, ∀ frame ∈ frames, p.1.time < frame.1) :
    ∃ new : List (FrameDevice F × ℕ), new.map Prod.fst = animationDevices frames rows ∧
      FrameInv esps (devices ++ new) (s.drawFrames frames rows) := by
  induction frames generalizing s devices with
  | nil => exact ⟨[], rfl, by rwa [List.append_nil]⟩
  | cons frame frames ih =>
    obtain ⟨hT, hpos⟩ := List.forall_mem_cons.1 hpos
    obtain ⟨hlater, hordered⟩ := List.pairwise_cons.1 hordered
    obtain ⟨new, hnew_eq, hframe, hzero⟩ := h.drawFrame hprevious hT le_rfl
      (fun p hp htime => absurd htime (hnew p hp frame List.mem_cons_self).ne)
      (fun j hj hlt => absurd hlt (by omega)) (rows frame)
    have hnew' : ∀ p ∈ devices ++ new, ∀ frame' ∈ frames, p.1.time < frame'.1 := by
      intro p hp frame' hframe'
      rcases List.mem_append.1 hp with hp | hp
      · exact hnew p hp frame' (List.mem_cons_of_mem _ hframe')
      · have hmem : p.1 ∈ frameDevices frame.1 1 (rows frame) :=
          hnew_eq ▸ List.mem_map_of_mem hp
        rw [time_of_mem_frameDevices hmem]
        exact hlater frame' hframe'
    obtain ⟨new', hnew_eq', hall⟩ := ih hframe hzero hpos hordered hnew'
    refine ⟨new ++ new', ?_, ?_⟩
    · rw [List.map_append, hnew_eq, hnew_eq']
      rfl
    · rwa [List.append_assoc] at hall

/-- The map that has been cleared. -/
theorem Inv.frameInv_clearMap (h : Inv s) (interval : Interval) :
    FrameInv (List.range' s.ellipses.length s.eSPs.length) []
      { s.clearMap with animation := interval } := by
  refine ⟨(h.clearMap.inv.setAnimation interval).inv, ?_, fun r hr => ?_, by simp⟩
  · rw [h.clearMap_eq]
    simp
  · rw [h.clearMap_eq]
    obtain ⟨k, hk, rfl⟩ := List.mem_range'.1 hr
    refine ⟨⟨[], .esp (s.eSPs.get ⟨k, hk⟩), .visible⟩, s.eSPs.get ⟨k, hk⟩, ?_, rfl⟩
    simp [List.getElem?_append_right]

/-! ## The slider -/

/-- Calls of the slider one after the other. -/
theorem run_slider (owner : MapOwner) (times : List ℤ) (s : MapOfDevices F) :
    run (step owner) s (times.map .sliderValueChanged) = times.foldlM updateAnimation s := by
  induction times generalizing s with
  | nil => rfl
  | cons T times ih =>
    rw [List.map_cons, List.foldlM_cons]
    exact congrArg (Option.bind (s.updateAnimation T)) (funext ih)

/-- All calls. -/
theorem FrameInv.updateAnimations (h : FrameInv esps devices s) (times : List ℤ) (T : ℤ) :
    ∃ t, (times ++ [T]).foldlM MapOfDevices.updateAnimation s = some t ∧
      FrameInv esps devices t ∧ t.previouslyChecked = T := by
  induction times generalizing s with
  | nil =>
    obtain ⟨t, ht, hinv, htime⟩ := h.updateAnimation T
    exact ⟨t, by simp [ht], hinv, htime⟩
  | cons T' times ih =>
    obtain ⟨u, hu, hinv, -⟩ := h.updateAnimation T'
    obtain ⟨t, ht, hinv, htime⟩ := ih hinv
    exact ⟨t, by rw [List.cons_append, List.foldlM_cons, hu]; exact ht, hinv, htime⟩

/-- The click that clears the map and draws frames: what it does behind them is calls of
`UpdateAnimation`. -/
theorem animationClick_eq {owner : MapOwner} {input : AnimationInput F} {interval : Interval}
    (hboxes : input.boxes = some interval)
    (hclears : clears owner s (.animationClick input) = true)
    (hdraws : framesOf owner s (.animationClick input) ≠ []) :
    framesOf owner s (.animationClick input) = (DataWindow.frameTimes interval.unixBegin
      interval.unixLast interval.granularity).zipIdx ∧
    step owner s (.animationClick input) = (input.moved ++ [interval.unixBegin]).foldlM
      MapOfDevices.updateAnimation (withFrames owner s interval input) := by
  obtain ⟨hnot, -, -⟩ | ⟨interval', hboxes', t, rfl, ⟨hempty, -⟩ | ⟨hframes, heq⟩⟩ :=
    animationClick_cases owner s input
  · exact absurd (hnot.symm.trans hclears) nofun
  · exact absurd hempty hdraws
  · obtain rfl := Option.some.inj (hboxes.symm.trans hboxes')
    rw [if_pos hclears] at heq
    refine ⟨hframes, heq.trans ?_⟩
    rw [withFrames_eq]
    rfl

/-- The map with the frames. -/
theorem Inv.frameInv_withFrames {interval : Interval} (h : Inv s) (owner : MapOwner)
    (input : AnimationInput F)
    (hpos : ∀ T ∈ DataWindow.frameTimes interval.unixBegin interval.unixLast
      interval.granularity, 0 < T) :
    ∃ esps devices, FrameInv esps devices (withFrames owner s interval input) ∧
      devices.map Prod.fst = animationDevices (DataWindow.frameTimes interval.unixBegin
        interval.unixLast interval.granularity).zipIdx input.rows := by
  have hopened := h.opened owner input.queries
  have hordered : (DataWindow.frameTimes interval.unixBegin interval.unixLast
      interval.granularity).zipIdx.Pairwise (·.1 < ·.1) := by
    refine List.pairwise_map.1 ?_
    rw [List.zipIdx_map_fst]
    exact DataWindow.frameTimes_ordered _ _ _
  have hzero : (MapOfDevices.opened owner input.queries s).clearMap.previouslyChecked = 0 := by
    rw [hopened.clearMap_eq]
  obtain ⟨devices, hdevices, hframes⟩ := (hopened.frameInv_clearMap interval).drawFrames
    input.rows hzero (fun frame hframe => hpos _ (List.fst_mem_of_mem_zipIdx hframe))
    hordered (by simp)
  rw [withFrames_eq]
  exact ⟨_, devices, hframes, hdevices⟩

/-- **One frame at a time.** A click that clears the map draws the frames and then calls
`UpdateAnimation`, as the slider does later. After each of the calls, those of the click and those
that follow it, the visible devices are the ones that were drawn for its time. -/
theorem visibleDevices_of_run {owner : MapOwner} {eSPs : List Esp} {as : List (MapAction F)}
    {input : AnimationInput F} {interval : Interval}
    (hrun : run (step owner) (start eSPs) as = some s) (hboxes : input.boxes = some interval)
    (hclears : clears owner s (.animationClick input) = true)
    (hdraws : framesOf owner s (.animationClick input) ≠ [])
    (hpos : ∀ frame ∈ framesOf owner s (.animationClick input), 0 < frame.1) :
    step owner s (.animationClick input) = run (step owner) (withFrames owner s interval input)
      ((input.moved ++ [interval.unixBegin]).map .sliderValueChanged) ∧
    (∀ (times : List ℤ) (T : ℤ), ∃ t, run (step owner) (withFrames owner s interval input)
      ((times ++ [T]).map .sliderValueChanged) = some t ∧ t.visibleDevices = ellipsesFor
        (animationDevices (framesOf owner s (.animationClick input)) input.rows) T) ∧
    ∀ (times : List ℤ) (T : ℤ), ∃ t, run (step owner) s
      (.animationClick input :: (times ++ [T]).map .sliderValueChanged) = some t ∧
      t.visibleDevices = ellipsesFor
        (animationDevices (framesOf owner s (.animationClick input)) input.rows) T := by
  obtain ⟨hframes, hstep⟩ := animationClick_eq hboxes hclears hdraws
  rw [← run_slider owner] at hstep
  have hcalls : ∀ (times : List ℤ) (T : ℤ), ∃ t, run (step owner)
      (withFrames owner s interval input) ((times ++ [T]).map .sliderValueChanged) = some t ∧
      t.visibleDevices = ellipsesFor
        (animationDevices (framesOf owner s (.animationClick input)) input.rows) T := by
    intro times T
    rw [hframes] at hpos ⊢
    have htimes : ∀ T' ∈ DataWindow.frameTimes interval.unixBegin interval.unixLast
        interval.granularity, 0 < T' := by
      intro T' hT'
      rw [← List.zipIdx_map_fst 0 (DataWindow.frameTimes _ _ _)] at hT'
      obtain ⟨frame, hframe, rfl⟩ := List.mem_map.1 hT'
      exact hpos frame hframe
    obtain ⟨esps, devices, hinv, hdevices⟩ :=
      (inv_of_run hrun).frameInv_withFrames owner input htimes
    obtain ⟨t, ht, hinv, hT⟩ := hinv.updateAnimations times T
    exact ⟨t, by rw [run_slider, ht], by rw [hinv.visibleDevices_eq, hdevices, hT]⟩
  refine ⟨hstep, hcalls, fun times T => ?_⟩
  obtain ⟨t, ht, hvisible⟩ := hcalls (input.moved ++ interval.unixBegin :: times) T
  refine ⟨t, ?_, hvisible⟩
  rw [run, hstep, ← ht, ← run_append, ← List.map_append]
  simp

/-- An animation of a minute with devices at its beginning. -/
def minuteOf (rows : List (Located ℚ)) : AnimationInput ℚ where
  queries := ⟨none, none⟩
  boxes := some DataWindow.oneMinute
  rows frame := if frame.1 = 100 then rows else []
  moved := []

/-- The second device of the first animation is still registered for the time 100. -/
theorem visibleDevices_minuteOf : ∃ s t, run (step .mapWindow) (start [])
      [.animationClick (minuteOf [⟨['a'], 1, 1, 99⟩, ⟨['b'], 2, 2, 99⟩])] = some s ∧
    run (step .mapWindow) s (.animationClick (minuteOf [⟨['c'], 3, 3, 99⟩]) ::
      [160, 100].map .sliderValueChanged) = some t ∧
    t.visibleDevices = [⟨deviceName 1 100, .device ['c'] 3 3, .visible⟩] := by
  obtain ⟨s, hs⟩ := exists_run .mapWindow
    [.animationClick (minuteOf [⟨['a'], 1, 1, 99⟩, ⟨['b'], 2, 2, 99⟩])] (start [])
  have hframes : framesOf .mapWindow s (.animationClick (minuteOf [⟨['c'], 3, 3, 99⟩])) =
      [(100, 0), (160, 1)] := DataWindow.animationClick_oneMinute.2
  have hdraws : framesOf .mapWindow s (.animationClick (minuteOf [⟨['c'], 3, 3, 99⟩])) ≠ [] := by
    simp [hframes]
  obtain ⟨-, -, hcalls⟩ := visibleDevices_of_run hs rfl rfl hdraws (by simp [hframes])
  obtain ⟨t, ht, hvisible⟩ := hcalls [160] 100
  rw [hframes] at hvisible
  exact ⟨s, t, hs, ht, hvisible.trans (by decide)⟩

end MapOfDevices

end DetectionSystem

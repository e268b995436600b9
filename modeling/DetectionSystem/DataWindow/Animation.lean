import DetectionSystem.Server.Database
import Mathlib.Data.List.Dedup
import Mathlib.Data.List.Nodup
import Mathlib.Data.List.Perm.Basic
import Mathlib.Tactic.Common
import Mathlib.Tactic.Positivity
import Mathlib.Tactic.Ring

/-!
# The frames of the animation

`Animation_Click` draws a frame for every `granularity` seconds of an interval, with one query for
each. The query joins `devices` with the largest `dev_id` of each MAC and restricts the time of what
is left, so that the sub-query picks the last row of the whole history: a device that moves on later
is not in the frames of its earlier positions.

`frames_iff` says that this is the only way in which a frame goes wrong.
-/

namespace DetectionSystem

/-- A row of `devices`, with its primary key. -/
structure Device (F : Type) extends Located F where
  dev_id : ℕ
deriving DecidableEq, Repr

/-- The interval and the granularity of an animation. The box of the granularity has a minimum of 1
in `DataWindow`. That in `MapWindow` has none; a number below 1, with which the loop over the frames
would not end, is left out. -/
structure Interval where
  unixBegin : ℤ
  unixLast : ℤ
  granularity : ℤ
  granularity_pos : 0 < granularity

namespace DataWindow

variable {F : Type}

/-- `SELECT MAX(dev_id) as max_id FROM devices GROUP BY mac`. -/
def maxIds (devices : List (Device F)) : List ℕ :=
  (devices.map (·.mac)).dedup.filterMap fun mac =>
    ((devices.filter (·.mac = mac)).map (·.dev_id)).max?

/-- The query of a frame: `devices d JOIN (…) x ON (x.max_id = d.dev_id)`, and the restriction to
the two minutes before the frame. -/
def frameQuery (devices : List (Device F)) (currentTs : ℤ) : List (Device F) :=
  (devices.flatMap fun d => ((maxIds devices).filter (· = d.dev_id)).map fun _ => d).filter
    fun d => (d.timestamp : ℤ) > currentTs - 120 ∧ (d.timestamp : ℤ) ≤ currentTs

/-- `for (currentTs = unixBegin; currentTs <= unixLast; currentTs += granularity)`. -/
def frameTimes (currentTs unixLast granularity : ℤ) : List ℤ :=
  if 0 < granularity ∧ currentTs ≤ unixLast then
    currentTs :: frameTimes (currentTs + granularity) unixLast granularity
  else []
termination_by (unixLast + 1 - currentTs).toNat

/-- The rows that are drawn for the `n`-th frame. An exception is caught, and nothing is drawn. -/
def frameRows (env : Environment) (devices : List (Device F)) (n : ℕ) (currentTs : ℤ) :
    List (Device F) :=
  if env.sqlOk n then env.order n (frameQuery devices currentTs) else []

/-- The times of the frames that `DataWindow.Animation_Click` draws, with their numbers. -/
def animationClick (isInitialized : Bool) (interval : Interval) : List (ℤ × ℕ) :=
  if ¬ isInitialized then []
  else if interval.unixBegin ≥ interval.unixLast then []
  else if (interval.unixLast - interval.unixBegin).tdiv interval.granularity > 100 then []
  else (frameTimes interval.unixBegin interval.unixLast interval.granularity).zipIdx

end DataWindow

/-- The times of the frames that `MapWindow.Animation_Click` draws, with their numbers. -/
def MapWindow.animationClick (interval : Interval) : List (ℤ × ℕ) :=
  if interval.unixBegin ≥ interval.unixLast then []
  else (DataWindow.frameTimes interval.unixBegin interval.unixLast interval.granularity).zipIdx

namespace DataWindow

section
variable {F : Type}

/-- `dev_id` is a primary key, and later rows of a MAC have greater keys. -/
structure InOrder (devices : List (Device F)) : Prop where
  nodup : (devices.map (·.dev_id)).Nodup
  agree : ∀ d ∈ devices, ∀ d' ∈ devices, d.mac = d'.mac → d.dev_id < d'.dev_id →
    d.timestamp ≤ d'.timestamp

/-- The row lies in the two minutes before the frame. -/
def InFrame (T : ℤ) (d : Device F) : Prop := (d.timestamp : ℤ) > T - 120 ∧ (d.timestamp : ℤ) ≤ T

/-- Whether a row lies in a frame can be decided, -/
instance (T : ℤ) (d : Device F) : Decidable (InFrame T d) := inferInstanceAs (Decidable (_ ∧ _))

/-- The row has the greatest key of its MAC. -/
def IsLast (devices : List (Device F)) (d : Device F) : Prop :=
  ∀ d' ∈ devices, d'.mac = d.mac → d'.dev_id ≤ d.dev_id

/-- whether it is the last one of its MAC, -/
instance (devices : List (Device F)) (d : Device F) : Decidable (IsLast devices d) :=
  inferInstanceAs (Decidable (∀ d' ∈ _, _))

/-- The row is the last one of its MAC up to the frame, and the MAC has a row in the frame. -/
def IsShown (devices : List (Device F)) (T : ℤ) (d : Device F) : Prop :=
  (d.timestamp : ℤ) ≤ T ∧
    (∀ d' ∈ devices, d'.mac = d.mac → (d'.timestamp : ℤ) ≤ T → d'.dev_id ≤ d.dev_id) ∧
    ∃ d' ∈ devices, d'.mac = d.mac ∧ InFrame T d'

/-- and whether it is shown. -/
instance (devices : List (Device F)) (T : ℤ) (d : Device F) : Decidable (IsShown devices T d) :=
  inferInstanceAs (Decidable (_ ∧ _))

/-- The rows drawn for a frame are the last positions up to its time. -/
def Shown (env : Environment) (devices : List (Device F)) (frame : ℤ × ℕ) : Prop :=
  (frameRows env devices frame.2 frame.1).Perm (devices.filter (IsShown devices frame.1 ·))

/-- The query of a frame succeeds and no MAC in it has a later row, unless there is no row in it. -/
def NotMovedOn (env : Environment) (devices : List (Device F)) (frame : ℤ × ℕ) : Prop :=
  ∀ d ∈ devices, InFrame frame.1 d → env.sqlOk frame.2 = true ∧
    ∀ d' ∈ devices, d'.mac = d.mac → (d'.timestamp : ℤ) ≤ frame.1

end

/-- The times of the frames are `granularity` apart. -/
theorem mem_frameTimes {unixBegin unixLast granularity T : ℤ} (hg : 0 < granularity) :
    T ∈ frameTimes unixBegin unixLast granularity ↔
      ∃ n : ℕ, T = unixBegin + n * granularity ∧ T ≤ unixLast := by
  fun_induction frameTimes unixBegin unixLast granularity with
  | case1 currentTs h ih =>
    rw [List.mem_cons, ih]
    constructor
    · rintro (rfl | ⟨n, rfl, hle⟩)
      · exact ⟨0, by simp, h.2⟩
      · exact ⟨n + 1, by push_cast; ring, hle⟩
    · rintro ⟨n, rfl, hle⟩
      cases n with
      | zero => exact .inl (by simp)
      | succ n => exact .inr ⟨n, by push_cast; ring, hle⟩
  | case2 currentTs h =>
    refine ⟨fun hmem => by simp at hmem, ?_⟩
    rintro ⟨n, rfl, hle⟩
    have hn : 0 ≤ n * granularity := by positivity
    exact absurd ⟨hg, by omega⟩ h

/-- They are in order. -/
theorem frameTimes_ordered (unixBegin unixLast granularity : ℤ) :
    (frameTimes unixBegin unixLast granularity).Pairwise (· < ·) := by
  fun_induction frameTimes unixBegin unixLast granularity with
  | case1 currentTs h ih =>
    refine List.pairwise_cons.2 ⟨fun T hT => ?_, ih⟩
    obtain ⟨n, rfl, -⟩ := (mem_frameTimes h.1).1 hT
    have hn : 0 ≤ n * granularity := mul_nonneg (Int.natCast_nonneg n) h.1.le
    have := h.1
    omega
  | case2 => exact .nil

/-! ## The query of a frame -/

variable {F : Type} {devices : List (Device F)} {row row' : Device F}

/-- The keys that the inner query finds are those of the last rows. -/
theorem mem_maxIds {n : ℕ} :
    n ∈ maxIds devices ↔ ∃ d ∈ devices, d.dev_id = n ∧ IsLast devices d := by
  simp only [maxIds, List.mem_filterMap, List.mem_dedup, List.mem_map, List.max?_eq_some_iff,
    List.mem_filter, decide_eq_true_eq]
  constructor
  · rintro ⟨-, -, ⟨d, ⟨hd, rfl⟩, rfl⟩, hmax⟩
    refine ⟨d, hd, rfl, ?_⟩
    exact fun d' hd' hmac => hmax _ ⟨d', ⟨hd', hmac⟩, rfl⟩
  · rintro ⟨d, hd, rfl, hlast⟩
    refine ⟨d.mac, ⟨d, hd, rfl⟩, ⟨d, ⟨hd, rfl⟩, rfl⟩, ?_⟩
    rintro - ⟨d', ⟨hd', hmac⟩, rfl⟩
    exact hlast d' hd' hmac

/-- A MAC with a row that meets a condition has a last one. -/
theorem exists_last {c : Device F → Prop} [DecidablePred c] (hrow : row ∈ devices) (hc : c row) :
    ∃ d ∈ devices, d.mac = row.mac ∧ c d ∧
      ∀ d' ∈ devices, d'.mac = row.mac → c d' → d'.dev_id ≤ d.dev_id := by
  have hmem : row.dev_id ∈
      (devices.filter fun d => d.mac = row.mac ∧ c d).map (·.dev_id) :=
    List.mem_map.2 ⟨row, List.mem_filter.2 ⟨hrow, by simp [hc]⟩, rfl⟩
  obtain ⟨n, hn⟩ := Option.ne_none_iff_exists'.1
    (mt List.max?_eq_none_iff.1 (List.ne_nil_of_mem hmem))
  obtain ⟨hn, hmax⟩ := List.max?_eq_some_iff.1 hn
  obtain ⟨d, hd, rfl⟩ := List.mem_map.1 hn
  obtain ⟨hd, hmac, hcd⟩ : d ∈ devices ∧ d.mac = row.mac ∧ c d := by simpa using hd
  refine ⟨d, hd, hmac, hcd, fun d' hd' hmac' hcd' => hmax _ ?_⟩
  exact List.mem_map.2 ⟨d', List.mem_filter.2 ⟨hd', by simp [hmac', hcd']⟩, rfl⟩

/-- A key has one row. -/
theorem InOrder.eq_of_id (h : InOrder devices) (hrow : row ∈ devices) (hrow' : row' ∈ devices)
    (hid : row.dev_id = row'.dev_id) : row = row' :=
  List.inj_on_of_nodup_map h.nodup hrow hrow' hid

/-- A later key of a MAC has no earlier time. -/
theorem InOrder.timestamp_le (h : InOrder devices) (hrow : row ∈ devices) (hrow' : row' ∈ devices)
    (hmac : row.mac = row'.mac) (hid : row.dev_id ≤ row'.dev_id) :
    row.timestamp ≤ row'.timestamp := by
  rcases Nat.eq_or_lt_of_le hid with heq | hlt
  · rw [h.eq_of_id hrow hrow' heq]
  · exact h.agree _ hrow _ hrow' hmac hlt

/-- The inner query finds each key once. -/
theorem InOrder.nodup_maxIds (h : InOrder devices) : (maxIds devices).Nodup := by
  refine (List.nodup_dedup _).filterMap fun mac mac' n hn hn' => ?_
  obtain ⟨d, hd, rfl⟩ := List.mem_map.1 (List.max?_mem hn)
  obtain ⟨d', hd', hid⟩ := List.mem_map.1 (List.max?_mem hn')
  rw [List.mem_filter, decide_eq_true_eq] at hd hd'
  rw [← hd.2, ← hd'.2, h.eq_of_id hd'.1 hd.1 hid]

/-- Picking elements one by one is filtering. -/
theorem flatMap_ite (c : Device F → Prop) [DecidablePred c] (l : List (Device F)) :
    (l.flatMap fun d => if c d then [d] else []) = l.filter (c ·) := by
  induction l with
  | nil => rfl
  | cons d l ih => by_cases hd : c d <;> simp [ih, hd]

/-- The query returns the last rows of the whole history that lie in the frame. -/
theorem InOrder.frameQuery_eq (h : InOrder devices) (T : ℤ) :
    frameQuery devices T = devices.filter fun d => IsLast devices d ∧ InFrame T d := by
  have hjoin : ∀ d ∈ devices, ((maxIds devices).filter (· = d.dev_id)).map (fun _ => d) =
      if IsLast devices d then [d] else [] := by
    intro d hd
    rw [List.filter_eq, List.map_replicate]
    split
    case isTrue hlast =>
      rw [h.nodup_maxIds.count, if_pos (mem_maxIds.2 ⟨d, hd, rfl, hlast⟩)]
      rfl
    case isFalse hnot =>
      rw [h.nodup_maxIds.count, if_neg]
      · rfl
      · intro hmem
        obtain ⟨d', hd', hid, hlast⟩ := mem_maxIds.1 hmem
        exact hnot (h.eq_of_id hd' hd hid ▸ hlast)
  rw [frameQuery, List.flatMap_congr hjoin, flatMap_ite, List.filter_filter]
  simp [InFrame, Bool.and_comm]

/-- What a frame shows and what it should show. -/
theorem InOrder.shown_iff (h : InOrder devices) (env : Environment) (frame : ℤ × ℕ) :
    Shown env devices frame ↔ NotMovedOn env devices frame := by
  obtain ⟨T, n⟩ := frame
  constructor
  · intro hshown d hd hin
    obtain ⟨last, hlast, hmac, hle, hmax⟩ :=
      exists_last (c := fun d' => (d'.timestamp : ℤ) ≤ T) hd hin.2
    have hmem : last ∈ frameRows env devices n T := by
      refine hshown.symm.subset (List.mem_filter.2 ⟨hlast, decide_eq_true ⟨hle, ?_, ?_⟩⟩)
      · exact fun d' hd' hmac' => hmax d' hd' (hmac'.trans hmac)
      · exact ⟨d, hd, hmac.symm, hin⟩
    unfold frameRows at hmem
    split at hmem
    case isFalse => cases hmem
    case isTrue hok =>
      refine ⟨hok, fun d' hd' hmac' => ?_⟩
      have hquery := (env.order_perm n _).subset hmem
      rw [h.frameQuery_eq, List.mem_filter, decide_eq_true_eq] at hquery
      have htime := h.timestamp_le hd' hlast (hmac'.trans hmac.symm)
        (hquery.2.1 d' hd' (hmac'.trans hmac.symm))
      omega
  · intro hmoved
    unfold Shown frameRows
    dsimp only
    split
    case isTrue hok =>
      refine (env.order_perm n _).trans (.of_eq ?_)
      rw [h.frameQuery_eq]
      refine List.filter_congr fun d hd => decide_eq_decide.2 ⟨?_, ?_⟩
      · rintro ⟨hlast, hin⟩
        exact ⟨hin.2, fun d' hd' hmac _ => hlast d' hd' hmac, d, hd, rfl, hin⟩
      · rintro ⟨hle, hmax, d', hd', hmac, hin⟩
        have hlate := (hmoved d' hd' hin).2
        have htime := h.timestamp_le hd' hd hmac (hmax d' hd' hmac hin.2)
        have hfrom := hin.1
        exact ⟨fun d₂ hd₂ hmac₂ => hmax d₂ hd₂ hmac₂ (hlate d₂ hd₂ (hmac₂.trans hmac.symm)),
          by omega, hle⟩
    case isFalse hfail =>
      refine .of_eq (List.filter_eq_nil_iff.2 fun d hd hshown => ?_).symm
      obtain ⟨-, -, d', hd', -, hin⟩ := of_decide_eq_true hshown
      exact hfail (hmoved d' hd' hin).1

/-- **The frames.** A frame that an animation draws shows the last positions up to its time if and
only if no MAC that is in it moves on after it, and its query succeeds. -/
theorem frames_iff (h : InOrder devices) (env : Environment) (isInitialized : Bool)
    (interval : Interval) :
    (∀ frame ∈ animationClick isInitialized interval,
      Shown env devices frame ↔ NotMovedOn env devices frame) ∧
    ∀ frame ∈ MapWindow.animationClick interval,
      Shown env devices frame ↔ NotMovedOn env devices frame :=
  ⟨fun frame _ => h.shown_iff env frame, fun frame _ => h.shown_iff env frame⟩

/-- A server whose statements succeed, and which returns the rows as they stand. -/
def asStored : Environment where
  sqlOk _ := true
  order _ rows := rows
  order_perm _ rows := .refl rows
  time _ := 0

/-- One minute, with a frame at its beginning and at its end. -/
def oneMinute : Interval := ⟨100, 160, 60, by decide⟩

/-- Both windows draw the two frames. -/
theorem animationClick_oneMinute : animationClick true oneMinute = [(100, 0), (160, 1)] ∧
    MapWindow.animationClick oneMinute = [(100, 0), (160, 1)] := by
  have htimes : frameTimes 100 160 60 = [100, 160] := by simp [frameTimes]
  constructor
  · simp [animationClick, oneMinute, htimes]
  · simp [MapWindow.animationClick, oneMinute, htimes]

/-- A device that is located twice before the first frame. -/
def stays : List (Device ℚ) := [⟨⟨['a'], 1, 1, 99⟩, 1⟩, ⟨⟨['a'], 2, 2, 100⟩, 2⟩]

/-- Both frames show the second position. -/
theorem frames_iff_stays :
    (∀ frame ∈ animationClick true oneMinute, Shown asStored stays frame) ∧
      ∀ frame ∈ MapWindow.animationClick oneMinute, Shown asStored stays frame := by
  have horder : InOrder stays := ⟨by decide, by decide⟩
  obtain ⟨hdata, hmap⟩ := frames_iff horder asStored true oneMinute
  obtain ⟨hdata_eq, hmap_eq⟩ := animationClick_oneMinute
  have hmoved : ∀ frame ∈ [((100 : ℤ), 0), (160, 1)], NotMovedOn asStored stays frame := by
    simp [NotMovedOn, stays, asStored]
  refine ⟨fun frame hframe => (hdata frame hframe).2 ?_,
    fun frame hframe => (hmap frame hframe).2 ?_⟩
  · exact hmoved frame (hdata_eq ▸ hframe)
  · exact hmoved frame (hmap_eq ▸ hframe)

/-- A device that is located again after the last frame. -/
def movesOn : List (Device ℚ) := [⟨⟨['a'], 1, 1, 99⟩, 1⟩, ⟨⟨['a'], 2, 2, 300⟩, 2⟩]

/-- It is not shown at all. -/
theorem not_shown_movesOn :
    ¬ ∀ (env : Environment) (devices : List (Device ℚ)) (isInitialized : Bool)
      (interval : Interval), (∀ n, env.sqlOk n = true) → InOrder devices →
        ∀ frame ∈ animationClick isInitialized interval, Shown env devices frame := by
  intro hclaim
  have hframe : ((100 : ℤ), 0) ∈ animationClick true oneMinute := by
    simp [animationClick_oneMinute.1]
  have horder : InOrder movesOn := ⟨by decide, by decide⟩
  have hshown := hclaim asStored movesOn true oneMinute (fun _ => rfl) horder _ hframe
  exact absurd hshown.length_eq (by decide)

end DataWindow

end DetectionSystem

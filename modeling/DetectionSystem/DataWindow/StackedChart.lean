import DetectionSystem.Lib.Dictionary
import Mathlib.Algebra.Order.Ring.Int
import Mathlib.Data.List.Chain
import Mathlib.Data.List.Dedup
import Mathlib.Data.List.Induction
import Mathlib.Logic.Function.Basic

/-!
# The stacked chart

`Update_chart_col_Click` adds a series for each MAC of a first query, and reads counts of them from
a second one. The counts of one time are collected in a `Ts_structure`; when the time changes, and
once after the loop, the structure is completed with zeros and its values are added to the series.

So the loop shows the rows by segments, each of rows that follow each other and are of one time.
`ReadInv` says what it has added when it has read some of the rows, and
`updateChartColClick_eq_some` what it shows in the end, whatever the order of the rows. In order of
time there is one segment for each time (`IsSegments.chart_eq`), from which
`updateChartColClick_aligned` says that the values of every series stand at the labels they are for.
-/

namespace DetectionSystem

namespace DataWindow

/-- A row of the second query. The count is that of rows with an `INT` key. -/
structure ChartRow where
  groupTime : ℤ
  mac : List Char
  count : ℕ
  count_lt : count < 2 ^ 31

/-- A series of the chart. -/
structure Series where
  Title : List Char
  Values : List ℤ
deriving DecidableEq, Repr

/-- The counts of a time. -/
structure Ts_structure where
  timestamp : ℤ
  mac_map : Dictionary (List Char) ℤ

/-- The variables of the loop: the chart, its labels, and the counts that are not in it yet. -/
structure Chart (Label : Type) where
  ColumnCollection : List Series
  labs : List Label
  TS : Ts_structure
  first : Bool

/-- The loop over the first query: a number and an empty series for each MAC. -/
def readMacs (macs : List (List Char)) : Dictionary (List Char) ℕ × List Series :=
  macs.foldl (fun (map, ColumnCollection) mac =>
    if mac ∈ map.keys then (map, ColumnCollection)
    else (map.add mac map.count, ColumnCollection ++ [⟨mac, []⟩])) (.empty _ _, [])

/-- `ColumnCollection[map[mac.Key]].Values.Add(mac.Value)`; `none` where it throws. -/
def addValue (map : Dictionary (List Char) ℕ) (ColumnCollection : List Series)
    (mac : List Char × ℤ) : Option (List Series) := do
  let i ← map.get? mac.1
  if i < ColumnCollection.length then
    some (ColumnCollection.modify i fun s => { s with Values := s.Values ++ [mac.2] })
  else none

variable {Label : Type} (label : ℤ → Label)

/-- Completes the counts of a time, adds them to the chart and their time to the labels. -/
def flush (map : Dictionary (List Char) ℕ) (c : Chart Label) : Option (Chart Label) := do
  let mac_map :=
    if c.TS.mac_map.count ≠ map.count then c.TS.mac_map.addAll map.keys 0 else c.TS.mac_map
  let ColumnCollection ← mac_map.entries.foldlM (addValue map) c.ColumnCollection
  some { c with ColumnCollection, labs := c.labs ++ [label c.TS.timestamp] }

/-- The body of the loop over the second query. -/
def readRow (map : Dictionary (List Char) ℕ) (c : Chart Label) (row : ChartRow) :
    Option (Chart Label) := do
  let c := if c.first then { c with TS := ⟨row.groupTime, .empty _ _⟩, first := false } else c
  let c ←
    if c.TS.timestamp ≠ row.groupTime then do
      let c ← flush label map c
      some { c with TS := ⟨row.groupTime, .empty _ _⟩ }
    else some c
  some { c with TS := { c.TS with mac_map := c.TS.mac_map.add row.mac row.count } }

/-- The handler, from the results of its queries to the series and the labels; `none` where an
exception ends it. -/
def updateChartColClick (macs : List (List Char)) (rows : List ChartRow) :
    Option (List Series × List Label) := do
  let (map, ColumnCollection) := readMacs macs
  let c ← rows.foldlM (readRow label map) ⟨ColumnCollection, [], ⟨0, .empty _ _⟩, true⟩
  let c ← if ¬ c.first then flush label map c else some c
  some (c.ColumnCollection, c.labs)

/-- The count of a MAC at a time, 0 if there is no row. -/
def countAt (rows : List ChartRow) (time : ℤ) (mac : List Char) : ℤ :=
  ((rows.find? fun row => row.groupTime = time ∧ row.mac = mac).map
    fun row => (row.count : ℤ)).getD 0

/-- The times of the rows, each once. -/
def times (rows : List ChartRow) : List ℤ := (rows.map (·.groupTime)).dedup

/-- The values of each series stand at the labels they are for. -/
structure Aligned (macs : List (List Char)) (rows : List ChartRow)
    (chart : List Series × List Label) : Prop where
  titles : chart.1.map (·.Title) = macs
  length : ∀ s ∈ chart.1, s.Values.length = chart.2.length
  labels : chart.2 = (times rows).map label
  ordered : (times rows).Pairwise (· < ·)
  values : ∀ s ∈ chart.1, ∀ (k : ℕ) time, (times rows)[k]? = some time →
    s.Values[k]? = some (countAt rows time s.Title)

/-! ## The series -/

section
variable {macs : List (List Char)} {f g : List Char → List ℤ}

/-- A chart with the values `f`. -/
def chartOf (macs : List (List Char)) (f : List Char → List ℤ) : List Series :=
  macs.map fun m => ⟨m, f m⟩

/-- A chart depends on the values of its MACs only. -/
theorem chartOf_congr (h : ∀ m ∈ macs, f m = g m) : chartOf macs f = chartOf macs g :=
  List.map_congr_left fun m hm => by rw [h m hm]

/-- The numbers of the MACs are their places. -/
theorem readMacs_eq (hmacs : macs.Nodup) :
    (readMacs macs).1.entries = macs.zipIdx ∧ (readMacs macs).2 = chartOf macs fun _ => [] := by
  induction macs using List.reverseRecOn with
  | nil => exact ⟨rfl, rfl⟩
  | append_singleton macs m ih =>
    rw [List.nodup_append] at hmacs
    obtain ⟨hentries, hseries⟩ := ih hmacs.1
    have hkeys : (readMacs macs).1.keys = macs := by
      rw [Dictionary.keys, hentries, List.zipIdx_map_fst]
    have hm : m ∉ (readMacs macs).1.keys := fun h =>
      hmacs.2.2 m (hkeys ▸ h) m (by simp) rfl
    have hstep : readMacs (macs ++ [m]) = ((readMacs macs).1.add m (readMacs macs).1.count,
        (readMacs macs).2 ++ [⟨m, []⟩]) := by
      rw [readMacs, List.foldl_append, ← readMacs, List.foldl_cons, List.foldl_nil]
      exact if_neg hm
    rw [hstep, Dictionary.entries_add hm, hentries, hseries, Dictionary.count, hentries]
    simp [List.zipIdx_append, chartOf]

/-- What the handler uses of the numbers. -/
structure Numbered (macs : List (List Char)) (map : Dictionary (List Char) ℕ) : Prop where
  nodup : macs.Nodup
  keys : map.keys = macs
  get? : ∀ m i, map.get? m = some i ↔ macs[i]? = some m

/-- The MACs that are read are numbered. -/
theorem numbered_readMacs (hmacs : macs.Nodup) : Numbered macs (readMacs macs).1 where
  nodup := hmacs
  keys := by rw [Dictionary.keys, (readMacs_eq hmacs).1, List.zipIdx_map_fst]
  get? m i := by
    rw [Dictionary.get?_eq_some, (readMacs_eq hmacs).1, List.mem_zipIdx_iff_getElem?]

variable {map : Dictionary (List Char) ℕ}

/-- A value goes to the end of the series of its MAC. -/
theorem addValue_eq (hmap : Numbered macs map) {mac : List Char × ℤ} (hmac : mac.1 ∈ macs) :
    addValue map (chartOf macs f) mac =
      some (chartOf macs (Function.update f mac.1 (f mac.1 ++ [mac.2]))) := by
  obtain ⟨i, hi⟩ := List.mem_iff_getElem?.1 hmac
  have hlt : i < (chartOf macs f).length := by
    rw [chartOf, List.length_map]
    exact (List.getElem?_eq_some_iff.1 hi).1
  simp only [addValue, (hmap.get? _ _).2 hi, Option.bind_eq_bind, Option.bind_some, if_pos hlt]
  refine congrArg some (List.ext_getElem? fun j => ?_)
  rw [List.getElem?_modify, chartOf, chartOf, List.getElem?_map, List.getElem?_map]
  cases hj : macs[j]? with
  | none => rfl
  | some m =>
    by_cases hij : i = j
    · subst hij
      obtain rfl := Option.some.inj (hi.symm.trans hj)
      simp
    · have hne : m ≠ mac.1 := by
        rintro rfl
        exact hij ((List.getElem?_inj (List.getElem?_eq_some_iff.1 hi).1 hmap.nodup).1
          (hi.trans hj.symm))
      simp [hij, hne]

/-- The values of a dictionary are added to the series of their keys. -/
theorem foldlM_addValue (hmap : Numbered macs map) (d : Dictionary (List Char) ℤ)
    (hkeys : d.keys ⊆ macs) : d.entries.foldlM (addValue map) (chartOf macs f) =
      some (chartOf macs fun m => f m ++ (d.get? m).toList) := by
  obtain ⟨entries, hnodup⟩ := d
  induction entries generalizing f with
  | nil => simp [Dictionary.get?]
  | cons e entries ih =>
    obtain ⟨he, hentries⟩ := List.cons_subset.1 hkeys
    rw [List.map_cons, List.nodup_cons] at hnodup
    rw [List.foldlM_cons, addValue_eq hmap he]
    refine (ih hnodup.2 hentries).trans (congrArg some (chartOf_congr fun m _ => ?_))
    by_cases hm : e.1 = m
    · subst hm
      have hnone : (⟨entries, hnodup.2⟩ : Dictionary (List Char) ℤ).get? e.1 = none :=
        Dictionary.get?_eq_none.2 hnodup.1
      rw [hnone]
      simp [Dictionary.get?]
    · simp [Dictionary.get?, hm, Ne.symm hm]

/-- The completed counts of a time: those of all MACs, 0 where there is none. -/
theorem get?_completed (hmap : Numbered macs map) {d : Dictionary (List Char) ℤ}
    (hkeys : d.keys ⊆ macs) (m : List Char) :
    (if d.count ≠ map.count then d.addAll map.keys 0 else d).get? m =
      if m ∈ macs then some ((d.get? m).getD 0) else none := by
  have hother : m ∉ macs → d.get? m = none := fun hm =>
    Dictionary.get?_eq_none.2 fun h => hm (hkeys h)
  split
  case isTrue =>
    rw [Dictionary.get?_addAll, hmap.keys]
    split
    case isTrue => rfl
    case isFalse hm => exact hother hm
  case isFalse hcount =>
    split
    case isTrue hm =>
      -- there are as many counts as MACs, so that none is missing
      have hle : macs.length ≤ d.count := by
        rw [← hmap.keys, Dictionary.length_keys]
        omega
      obtain ⟨v, hv⟩ := Dictionary.mem_keys.1 (Dictionary.mem_keys_of_count hkeys hle hm)
      rw [Dictionary.get?_eq_some.2 hv]
      rfl
    case isFalse hm => exact hother hm

/-- The counts of a time are added with zeros for the MACs that have none. -/
theorem flush_eq (hmap : Numbered macs map) {c : Chart Label} (hkeys : c.TS.mac_map.keys ⊆ macs)
    (hseries : c.ColumnCollection = chartOf macs f) :
    flush label map c = some { c with
      ColumnCollection := chartOf macs fun m => f m ++ [(c.TS.mac_map.get? m).getD 0]
      labs := c.labs ++ [label c.TS.timestamp] } := by
  have hget := get?_completed hmap hkeys
  unfold flush
  generalize (if c.TS.mac_map.count ≠ map.count then c.TS.mac_map.addAll map.keys 0
    else c.TS.mac_map) = full at hget ⊢
  have hsubset : full.keys ⊆ macs := by
    intro m hm
    by_contra hnot
    exact Dictionary.get?_eq_none.1 ((hget m).trans (if_neg hnot)) hm
  dsimp only
  rw [hseries, foldlM_addValue hmap full hsubset, Option.bind_eq_bind, Option.bind_some]
  have hvalues : (chartOf macs fun m => f m ++ (full.get? m).toList) =
      chartOf macs fun m => f m ++ [(c.TS.mac_map.get? m).getD 0] :=
    chartOf_congr fun m hm => by rw [hget, if_pos hm, Option.toList_some]
  rw [hvalues]

end

/-! ## The segments -/

/-- Rows that follow each other and are of one time. -/
structure TimeSegment where
  timestamp : ℤ
  rows : List ChartRow
  ne_nil : rows ≠ []
  time_eq : ∀ row ∈ rows, row.groupTime = timestamp

/-- A segment of one row is not empty, -/
theorem singleton_rows_ne_nil (row : ChartRow) : [row] ≠ [] := List.cons_ne_nil _ _

/-- and is of one time. -/
theorem time_eq_singleton (row : ChartRow) : ∀ r ∈ [row], r.groupTime = row.groupTime := by simp

/-- The segment of one row. -/
def TimeSegment.single (row : ChartRow) : TimeSegment where
  timestamp := row.groupTime
  rows := [row]
  ne_nil := singleton_rows_ne_nil row
  time_eq := time_eq_singleton row

/-- A segment with one more row is not empty, -/
theorem TimeSegment.snoc_ne_nil (seg : TimeSegment) (row : ChartRow) : seg.rows ++ [row] ≠ [] := by
  simp

/-- and is of one time if the row is of it. -/
theorem TimeSegment.snoc_time_eq (seg : TimeSegment) (row : ChartRow)
    (h : row.groupTime = seg.timestamp) :
    ∀ r ∈ seg.rows ++ [row], r.groupTime = seg.timestamp := by
  intro r hr
  rcases List.mem_append.1 hr with hr | hr
  · exact seg.time_eq r hr
  · rw [List.mem_singleton.1 hr, h]

/-- One more row of the time. -/
def TimeSegment.snoc (seg : TimeSegment) (row : ChartRow) (h : row.groupTime = seg.timestamp) :
    TimeSegment where
  timestamp := seg.timestamp
  rows := seg.rows ++ [row]
  ne_nil := seg.snoc_ne_nil row
  time_eq := seg.snoc_time_eq row h

/-- What the `Ts_structure` of the rows has for a MAC. -/
def collected (rows : List ChartRow) (mac : List Char) : Option ℤ :=
  (rows.find? (·.mac = mac)).map fun row => (row.count : ℤ)

/-- The value of a MAC in a segment. -/
def TimeSegment.count (seg : TimeSegment) (mac : List Char) : ℤ := (collected seg.rows mac).getD 0

/-- The rows are those of the segments, and segments that follow each other are of different
times. -/
structure IsSegments (rows : List ChartRow) (segs : List TimeSegment) : Prop where
  flatMap : segs.flatMap (·.rows) = rows
  changes : segs.IsChain fun a b => a.timestamp ≠ b.timestamp

/-- A value of each series and a label for each segment. -/
def segmentChart (macs : List (List Char)) (segs : List TimeSegment) : List Series × List Label :=
  (chartOf macs fun m => segs.map (·.count m), segs.map fun seg => label seg.timestamp)

section
variable {rows pre post : List ChartRow} {row : ChartRow} {segs : List TimeSegment}
  {current seg : TimeSegment} {t : ℤ}

/-- The first segment. -/
theorem isSegments_single (row : ChartRow) : IsSegments [row] [.single row] :=
  ⟨rfl, List.isChain_singleton _⟩

/-- A row of the time of the last segment belongs to it. -/
theorem IsSegments.snoc (h : IsSegments pre (segs ++ [current]))
    (htime : row.groupTime = current.timestamp) :
    IsSegments (pre ++ [row]) (segs ++ [current.snoc row htime]) where
  flatMap := by
    rw [← h.flatMap]
    simp [TimeSegment.snoc]
  changes := by
    have hchain := h.changes
    rw [List.isChain_append] at hchain ⊢
    refine ⟨hchain.1, List.isChain_singleton _, fun a ha b hb => ?_⟩
    obtain rfl := Option.some.inj hb
    exact hchain.2.2 a ha current rfl

/-- A row of another time starts a segment. -/
theorem IsSegments.next (h : IsSegments pre (segs ++ [current]))
    (htime : current.timestamp ≠ row.groupTime) :
    IsSegments (pre ++ [row]) (segs ++ [current] ++ [.single row]) where
  flatMap := by
    rw [← h.flatMap]
    simp [TimeSegment.single]
  changes := by
    refine List.isChain_append.2 ⟨h.changes, List.isChain_singleton _, fun a ha b hb => ?_⟩
    rw [List.getLast?_concat] at ha
    obtain rfl := Option.some.inj ha
    obtain rfl := Option.some.inj hb
    exact htime

/-! ## The loop -/

/-- The rows `pre` have been read: the segments `segs` are in the chart, and the counts of the
`current` one are collected. -/
structure ReadInv (macs : List (List Char)) (pre : List ChartRow) (segs : List TimeSegment)
    (current : TimeSegment) (c : Chart Label) : Prop where
  first : c.first = false
  segments : IsSegments pre (segs ++ [current])
  timestamp : c.TS.timestamp = current.timestamp
  series : c.ColumnCollection = (segmentChart label macs segs).1
  labs : c.labs = (segmentChart label macs segs).2
  counts : ∀ m, c.TS.mac_map.get? m = collected current.rows m

variable {label} {macs : List (List Char)} {map : Dictionary (List Char) ℕ} {c : Chart Label}

/-- The MACs of the collected counts are those of rows. -/
theorem ReadInv.keys (h : ReadInv label macs pre segs current c)
    (hknown : ∀ row ∈ pre, row.mac ∈ macs) : c.TS.mac_map.keys ⊆ macs := by
  intro m hm
  obtain ⟨v, hv⟩ := Dictionary.mem_keys.1 hm
  have hfound := (h.counts m).symm.trans (Dictionary.get?_eq_some.2 hv)
  obtain ⟨row, hrow, -⟩ := Option.map_eq_some_iff.1 hfound
  have hmac : row.mac = m := by simpa using List.find?_some hrow
  rw [← hmac]
  refine hknown row ?_
  rw [← h.segments.flatMap, List.mem_flatMap]
  exact ⟨current, by simp, List.mem_of_find?_eq_some hrow⟩

/-- Adding a row to the counts collects it. -/
theorem get?_add_collected {d : Dictionary (List Char) ℤ} (hd : ∀ m, d.get? m = collected pre m)
    (m : List Char) : (d.add row.mac row.count).get? m = collected (pre ++ [row]) m := by
  have happend : collected (pre ++ [row]) m =
      (collected pre m).or (if row.mac = m then some (row.count : ℤ) else none) := by
    unfold collected
    rw [List.find?_append]
    by_cases hm : row.mac = m <;> cases pre.find? (·.mac = m) <;> simp [hm]
  rw [happend, Dictionary.get?_add]
  by_cases hm : m = row.mac
  · subst hm
    rw [if_pos rfl, if_pos rfl, hd]
    cases collected pre row.mac <;> rfl
  · rw [if_neg hm, if_neg (Ne.symm hm), hd, Option.or_none]

/-- A flush adds the current segment. -/
theorem ReadInv.flush (h : ReadInv label macs pre segs current c) (hmap : Numbered macs map)
    (hknown : ∀ row ∈ pre, row.mac ∈ macs) :
    flush label map c = some { c with
      ColumnCollection := (segmentChart label macs (segs ++ [current])).1
      labs := (segmentChart label macs (segs ++ [current])).2 } := by
  have hvalues : (chartOf macs fun m => segs.map (·.count m) ++ [(c.TS.mac_map.get? m).getD 0]) =
      (segmentChart label macs (segs ++ [current])).1 := by
    refine chartOf_congr fun m _ => ?_
    rw [h.counts, List.map_append, List.map_singleton]
    rfl
  have hlabs : c.labs ++ [label c.TS.timestamp] =
      (segmentChart label macs (segs ++ [current])).2 := by
    rw [h.labs, h.timestamp, segmentChart, segmentChart, List.map_append, List.map_singleton]
  rw [flush_eq label hmap (h.keys hknown) h.series, hvalues, hlabs]

/-- A row starts the counts of its time. -/
theorem get?_single (row : ChartRow) (m : List Char) :
    ((Dictionary.empty (List Char) ℤ).add row.mac row.count).get? m = collected [row] m := by
  have hnothing : ∀ m, (Dictionary.empty (List Char) ℤ).get? m = collected [] m := fun _ => rfl
  exact get?_add_collected hnothing m

variable (label macs map row) in
/-- The first row starts the counts of its time. -/
theorem readInv_first :
    ∃ c, readRow label map ⟨chartOf macs fun _ => [], [], ⟨0, .empty _ _⟩, true⟩ row = some c ∧
      ReadInv label macs [row] [] (.single row) c := by
  refine ⟨⟨chartOf macs fun _ => [], [], ⟨row.groupTime,
    (Dictionary.empty _ _).add row.mac row.count⟩, false⟩, by simp [readRow], ?_⟩
  exact ⟨rfl, isSegments_single row, rfl, rfl, rfl, get?_single row⟩

variable (map) in
/-- A row of the current time is collected. -/
theorem ReadInv.readRow_same (h : ReadInv label macs pre segs current c)
    (htime : row.groupTime = current.timestamp) :
    ∃ c', readRow label map c row = some c' ∧
      ReadInv label macs (pre ++ [row]) segs (current.snoc row htime) c' :=
  ⟨{ c with TS := { c.TS with mac_map := c.TS.mac_map.add row.mac row.count } },
    by simp [DataWindow.readRow, h.first, h.timestamp, htime],
    { h with
      segments := h.segments.snoc htime
      counts := get?_add_collected h.counts }⟩

/-- A row of another time first adds the counts of the current one to the chart. -/
theorem ReadInv.readRow_next (h : ReadInv label macs pre segs current c) (hmap : Numbered macs map)
    (hknown : ∀ row ∈ pre, row.mac ∈ macs) (htime : current.timestamp ≠ row.groupTime) :
    ∃ c', readRow label map c row = some c' ∧
      ReadInv label macs (pre ++ [row]) (segs ++ [current]) (.single row) c' := by
  refine ⟨⟨(segmentChart label macs (segs ++ [current])).1,
    (segmentChart label macs (segs ++ [current])).2,
    ⟨row.groupTime, (Dictionary.empty _ _).add row.mac row.count⟩, false⟩, ?_, ?_⟩
  · simp [DataWindow.readRow, h.first, h.timestamp, htime, h.flush hmap hknown]
  · exact ⟨rfl, h.segments.next htime, rfl, rfl, rfl, get?_single row⟩

/-- **One row.** -/
theorem ReadInv.readRow (h : ReadInv label macs pre segs current c) (hmap : Numbered macs map)
    (hknown : ∀ row ∈ pre, row.mac ∈ macs) (row : ChartRow) :
    ∃ c', readRow label map c row = some c' ∧
      ∃ segs current, ReadInv label macs (pre ++ [row]) segs current c' := by
  by_cases htime : row.groupTime = current.timestamp
  · obtain ⟨c', hc', h'⟩ := h.readRow_same map htime
    exact ⟨c', hc', _, _, h'⟩
  · obtain ⟨c', hc', h'⟩ := h.readRow_next hmap hknown (Ne.symm htime)
    exact ⟨c', hc', _, _, h'⟩

/-- The whole loop. -/
theorem ReadInv.readRows (h : ReadInv label macs pre segs current c) (hmap : Numbered macs map)
    (hknown : ∀ row ∈ pre ++ post, row.mac ∈ macs) :
    ∃ c', post.foldlM (DataWindow.readRow label map) c = some c' ∧
      ∃ segs current, ReadInv label macs (pre ++ post) segs current c' := by
  induction post generalizing pre segs current c with
  | nil => exact ⟨c, rfl, segs, current, (List.append_nil pre).symm ▸ h⟩
  | cons row post ih =>
    obtain ⟨c', hc', segs', current', h'⟩ := h.readRow hmap
      (fun row hrow => hknown row (List.mem_append_left _ hrow)) row
    have happend : pre ++ row :: post = pre ++ [row] ++ post := by simp
    rw [happend] at hknown ⊢
    obtain ⟨c'', hc'', h''⟩ := ih h' hknown
    exact ⟨c'', by rw [List.foldlM_cons, hc']; exact hc'', h''⟩

variable (label) in
/-- **What the handler shows.** For MACs that are different and rows of these MACs only, in any
order, the handler ends with the chart of the segments of the rows. -/
theorem updateChartColClick_eq_some (hmacs : macs.Nodup) (hknown : ∀ row ∈ rows, row.mac ∈ macs) :
    ∃ segs, IsSegments rows segs ∧
      updateChartColClick label macs rows = some (segmentChart label macs segs) := by
  have hmap := numbered_readMacs hmacs
  unfold updateChartColClick
  dsimp only
  rw [(readMacs_eq hmacs).2]
  cases rows with
  | nil => exact ⟨[], ⟨rfl, List.isChain_nil⟩, rfl⟩
  | cons row post =>
    obtain ⟨c, hc, h⟩ := readInv_first label row macs (readMacs macs).1
    obtain ⟨c', hc', segs, current, h'⟩ := h.readRows hmap hknown
    refine ⟨segs ++ [current], h'.segments, ?_⟩
    have hrun : (row :: post).foldlM (DataWindow.readRow label (readMacs macs).1)
        ⟨chartOf macs fun _ => [], [], ⟨0, .empty _ _⟩, true⟩ = some c' := by
      rw [List.foldlM_cons, hc]
      exact hc'
    rw [hrun, Option.bind_eq_bind, Option.bind_some, h'.first, if_pos (by decide),
      h'.flush hmap hknown]
    rfl

end

/-! ## Rows in order of time -/

section
variable {label} {macs : List (List Char)} {rows : List ChartRow} {segs : List TimeSegment}
  {seg : TimeSegment} {t : ℤ}

/-- The times are those of the rows. -/
theorem mem_times : t ∈ times rows ↔ ∃ row ∈ rows, row.groupTime = t := by
  simp [times]

/-- In order of time, no time comes back. -/
theorem times_ordered (hsorted : rows.Pairwise (·.groupTime ≤ ·.groupTime)) :
    (times rows).Pairwise (· < ·) := by
  have hle : (times rows).Pairwise (· ≤ ·) :=
    (List.pairwise_map.2 hsorted).sublist (List.dedup_sublist _)
  exact (hle.and (List.nodup_dedup _)).imp fun h => lt_of_le_of_ne h.1 h.2

/-- The times of the segments are those of the rows. -/
theorem IsSegments.mem_times (h : IsSegments rows segs) :
    t ∈ segs.map (·.timestamp) ↔ ∃ row ∈ rows, row.groupTime = t := by
  rw [← h.flatMap, List.mem_map]
  constructor
  · rintro ⟨seg, hseg, rfl⟩
    obtain ⟨row, hrow⟩ := List.exists_mem_of_ne_nil _ seg.ne_nil
    exact ⟨row, List.mem_flatMap.2 ⟨seg, hseg, hrow⟩, seg.time_eq row hrow⟩
  · rintro ⟨row, hrow, rfl⟩
    obtain ⟨seg, hseg, hrow⟩ := List.mem_flatMap.1 hrow
    exact ⟨seg, hseg, (seg.time_eq row hrow).symm⟩

/-- In order of time no time comes back. -/
theorem IsSegments.ordered (h : IsSegments rows segs)
    (hsorted : rows.Pairwise (·.groupTime ≤ ·.groupTime)) :
    segs.Pairwise (·.timestamp < ·.timestamp) := by
  have hle : segs.Pairwise fun a b => a.timestamp ≤ b.timestamp := by
    rw [← h.flatMap, List.pairwise_flatMap] at hsorted
    refine hsorted.2.imp fun {a b} hab => ?_
    obtain ⟨row, hrow⟩ := List.exists_mem_of_ne_nil _ a.ne_nil
    obtain ⟨row', hrow'⟩ := List.exists_mem_of_ne_nil _ b.ne_nil
    rw [← a.time_eq row hrow, ← b.time_eq row' hrow']
    exact hab row hrow row' hrow'
  have hlt : (segs.map (·.timestamp)).IsChain (· < ·) := by
    have hchain := hle.isChain
    have hchanges := h.changes
    rw [List.isChain_iff_getElem] at hchain hchanges
    rw [List.isChain_map, List.isChain_iff_getElem]
    exact fun i hi => lt_of_le_of_ne (hchain i hi) (hchanges i hi)
  exact List.pairwise_map.1 hlt.pairwise

/-- In order of time there is one segment for each time, -/
theorem IsSegments.times_eq (h : IsSegments rows segs)
    (hsorted : rows.Pairwise (·.groupTime ≤ ·.groupTime)) :
    segs.map (·.timestamp) = times rows := by
  have hsegs := List.pairwise_map.2 (h.ordered hsorted)
  have htimes := times_ordered hsorted
  refine List.Perm.eq_of_pairwise (fun u v _ _ huv hvu => absurd huv (not_lt_of_gt hvu))
    hsegs htimes ((List.perm_ext_iff_of_nodup (hsegs.imp ne_of_lt) (htimes.imp ne_of_lt)).2
      fun u => ?_)
  rw [h.mem_times, DataWindow.mem_times]

/-- and its values are the counts at this time. -/
theorem IsSegments.count_eq (h : IsSegments rows segs)
    (hsorted : rows.Pairwise (·.groupTime ≤ ·.groupTime)) (hseg : seg ∈ segs) (m : List Char) :
    seg.count m = countAt rows seg.timestamp m := by
  obtain ⟨before, after, rfl⟩ := List.append_of_mem hseg
  have hordered := h.ordered hsorted
  rw [List.pairwise_append, List.pairwise_cons] at hordered
  -- a row of another segment is of another time
  have hother : ∀ others : List TimeSegment,
      (∀ other ∈ others, other.timestamp ≠ seg.timestamp) →
      (others.flatMap (·.rows)).find? (fun row => row.groupTime = seg.timestamp ∧ row.mac = m) =
        none := by
    intro others hne
    refine List.find?_eq_none.2 fun row hrow heq => ?_
    obtain ⟨other, hmem, hrow⟩ := List.mem_flatMap.1 hrow
    exact hne other hmem ((other.time_eq row hrow).symm.trans (of_decide_eq_true heq).1)
  have hfind : seg.rows.find? (fun row => row.groupTime = seg.timestamp ∧ row.mac = m) =
      seg.rows.find? (·.mac = m) := by
    rw [← List.head?_filter, ← List.head?_filter]
    refine congrArg List.head? (List.filter_congr fun row hrow => ?_)
    simp [seg.time_eq row hrow]
  rw [countAt, ← h.flatMap, List.flatMap_append, List.flatMap_cons, List.find?_append,
    List.find?_append, hother before fun b hb => (hordered.2.2 b hb seg List.mem_cons_self).ne,
    hother after fun a ha => (hordered.2.1.1 a ha).ne', hfind, Option.none_or, Option.or_none]
  rfl

/-- So the chart has the counts of each MAC at each time. -/
theorem IsSegments.chart_eq (h : IsSegments rows segs)
    (hsorted : rows.Pairwise (·.groupTime ≤ ·.groupTime)) :
    segmentChart label macs segs =
      (chartOf macs fun m => (times rows).map (countAt rows · m), (times rows).map label) := by
  have hvalues : ∀ m, segs.map (·.count m) = (times rows).map (countAt rows · m) := by
    intro m
    rw [← h.times_eq hsorted, List.map_map]
    exact List.map_congr_left fun seg hseg => h.count_eq hsorted hseg m
  rw [segmentChart, ← h.times_eq hsorted, List.map_map]
  refine Prod.ext (chartOf_congr fun m _ => ?_) rfl
  rw [hvalues, h.times_eq hsorted]

/-- A chart with a count for each MAC and time is aligned. -/
theorem aligned_chartOf (hsorted : rows.Pairwise (·.groupTime ≤ ·.groupTime)) :
    Aligned label macs rows
      (chartOf macs fun m => (times rows).map (countAt rows · m), (times rows).map label) := by
  have hmem : ∀ s ∈ chartOf macs fun m => (times rows).map (countAt rows · m),
      s.Values = (times rows).map (countAt rows · s.Title) := by
    intro s hs
    obtain ⟨m, -, rfl⟩ := List.mem_map.1 hs
    rfl
  constructor
  case titles => simp [chartOf, Function.comp_def]
  case length =>
    intro s hs
    rw [hmem s hs, List.length_map, List.length_map]
  case labels => rfl
  case ordered => exact times_ordered hsorted
  case values =>
    intro s hs k time hk
    rw [hmem s hs, List.getElem?_map, hk]
    rfl

end

/-- **The chart is aligned.** For MACs that are different and rows in order of time, of these MACs
only, the handler ends with a value for every MAC and label: the count of the row of that time, or 0
if there is none. -/
theorem updateChartColClick_aligned {macs : List (List Char)} {rows : List ChartRow}
    (hmacs : macs.Nodup) (hsorted : rows.Pairwise (·.groupTime ≤ ·.groupTime))
    (hknown : ∀ row ∈ rows, row.mac ∈ macs) :
    ∃ chart, updateChartColClick label macs rows = some chart ∧ Aligned label macs rows chart := by
  obtain ⟨segs, hsegs, hchart⟩ := updateChartColClick_eq_some label hmacs hknown
  rw [hsegs.chart_eq hsorted] at hchart
  exact ⟨_, hchart, aligned_chartOf hsorted⟩

/-- Two MACs and two times; the second MAC is absent at the first of them. -/
def twoTimes : List ChartRow :=
  [⟨60, ['a'], 3, by decide⟩, ⟨120, ['a'], 1, by decide⟩, ⟨120, ['b'], 2, by decide⟩]

/-- The chart of `a` and `b` at two times. -/
theorem updateChartColClick_twoTimes : ∃ chart,
    updateChartColClick id [['a'], ['b']] twoTimes = some chart ∧
      Aligned id [['a'], ['b']] twoTimes chart :=
  updateChartColClick_aligned id (by decide) (by decide) (by decide)

example : updateChartColClick id [['a'], ['b']] twoTimes =
    some ([⟨['a'], [3, 1]⟩, ⟨['b'], [0, 2]⟩], [60, 120]) := by decide

end DataWindow

end DetectionSystem

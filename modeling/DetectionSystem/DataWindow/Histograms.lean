import DetectionSystem.DataWindow.LineChart
import DetectionSystem.DataWindow.LocalAddresses
import DetectionSystem.DataWindow.StackedChart
import DetectionSystem.Lib.GroupCount
import Mathlib.Data.Char
import Mathlib.Data.List.Lex

/-!
# What the charts show

The two chart handlers display the results of their queries; here the queries are put in front of
them, so that the charts are about the table `devices`.

The line is the histogram of the rows of the interval (`updateChartClick_eq_histogram`). The stacked
chart takes two queries, and the server may insert rows between them: the handler reaches its end
exactly if the second query finds no MAC that the first one left out, and then shows each row of the
later table once (`updateChartColClick_iff`). On a table that does not change these are the rows of
the most frequent devices, in order (`updateChartColClick_most_frequent`).

The second query has no `ORDER BY`, so that its groups come in any order. A time may then come back
at a later label, and the counts of the time are spread over its labels; in order of time each
series is the histogram of its MAC (`IsHistogram`).
-/

namespace DetectionSystem

namespace DataWindow

open GroupCount

variable {F Label : Type}

/-! ## The queries -/

/-- `unix_timestamp(timestamp) - unix_timestamp(timestamp) % granularity`. -/
def groupTime (granularity : ℤ) (timestamp : ℕ) : ℤ := timestamp - timestamp % granularity

/-- The results of the query of `Update_chart_Click`, in any order. -/
def IsLineResult (granularity : ℤ) (devices : List (Located F)) (rows : List CountRow) : Prop :=
  IsCount (devices.map fun d => groupTime granularity d.timestamp)
    (rows.map fun row => (row.groupTime, row.count))

/-- `count(*)` of a MAC. -/
def occurrences (devices : List (Located F)) (mac : List Char) : ℕ := devices.countP (·.mac = mac)

/-- `ORDER BY count(*) DESC, mac`. -/
def Precedes (devices : List (Located F)) (a b : List Char) : Prop :=
  occurrences devices b < occurrences devices a ∨
    occurrences devices a = occurrences devices b ∧ a ≤ b

/-- The order of the first query can be decided. -/
instance (devices : List (Located F)) : DecidableRel (Precedes devices) :=
  fun _ _ => inferInstanceAs (Decidable (_ ∨ _))

/-- The query for the MACs, with its `LIMIT`. -/
def topMacs (limit : ℕ) (devices : List (Located F)) : List (List Char) :=
  ((devices.map (·.mac)).dedup.insertionSort (Precedes devices)).take limit

/-- The results of the query for their counts, in any order: there is no `ORDER BY` in it. -/
structure IsStackedResult (granularity : ℤ) (limit : ℕ) (devices : List (Located F))
    (rows : List ChartRow) : Prop where
  groups : IsCount
    ((devices.filter fun d => d.mac ∈ topMacs limit devices).map
      fun d => (groupTime granularity d.timestamp, d.mac))
    (rows.map fun row => ((row.groupTime, row.mac), row.count))

/-! ## The line -/

section
variable {label : ℤ → Label} {granularity t : ℤ} {devices : List (Located F)} {rows : List CountRow}

/-- A time is in the group that it is in the seconds of. -/
theorem groupTime_eq_iff (hg : 0 < granularity) (ht : granularity ∣ t) (timestamp : ℕ) :
    groupTime granularity timestamp = t ↔ t ≤ timestamp ∧ (timestamp : ℤ) < t + granularity := by
  have hlow := Int.emod_nonneg (timestamp : ℤ) hg.ne'
  have hhigh := Int.emod_lt_of_pos (timestamp : ℤ) hg
  unfold groupTime
  constructor
  · intro heq
    omega
  · rintro ⟨hle, hlt⟩
    obtain ⟨q, rfl⟩ := ht
    have hmod : (timestamp : ℤ) % granularity = timestamp - granularity * q :=
      ((Int.ediv_emod_unique hg).2
        ⟨sub_add_cancel _ _, sub_nonneg.2 hle, sub_lt_iff_lt_add'.2 hlt⟩).2
    rw [hmod, sub_sub_cancel]

/-- The groups of times begin at multiples of the granularity. -/
theorem dvd_groupTime (granularity : ℤ) (timestamp : ℕ) :
    granularity ∣ groupTime granularity timestamp :=
  Int.dvd_self_sub_emod

/-- A time lies in its group. -/
theorem groupTime_bounds (hg : 0 < granularity) (timestamp : ℕ) :
    groupTime granularity timestamp ≤ timestamp ∧
      (timestamp : ℤ) < groupTime granularity timestamp + granularity :=
  (groupTime_eq_iff hg (dvd_groupTime _ _) timestamp).1 rfl

/-- Each group has a row of the table, -/
theorem IsLineResult.exists_device {row : CountRow} (hrows : IsLineResult granularity devices rows)
    (hrow : row ∈ rows) : ∃ d ∈ devices, groupTime granularity d.timestamp = row.groupTime := by
  refine List.mem_map.1 ((hrows.mem_iff row.groupTime).1 ?_)
  rw [List.map_map]
  exact List.mem_map_of_mem hrow

/-- and each row of the table its group. -/
theorem IsLineResult.exists_row {d : Located F} (hrows : IsLineResult granularity devices rows)
    (hd : d ∈ devices) : ∃ row ∈ rows, row.groupTime = groupTime granularity d.timestamp := by
  have hmem := (hrows.mem_iff _).2 (List.mem_map_of_mem hd)
  rw [List.map_map] at hmem
  exact List.mem_map.1 hmem

variable (label) in
/-- The chart of `n` groups of `granularity` seconds from `first` on. -/
def histogram (granularity first : ℤ) (n : ℕ) (devices : List (Located F)) : List ℤ × List Label :=
  ((stretch granularity first n).map fun t =>
      ((devices.countP fun d => t ≤ d.timestamp ∧ (d.timestamp : ℤ) < t + granularity : ℕ) : ℤ),
    (stretch granularity first n).map label)

/-- The count of a time is that of the rows in its group. -/
theorem rowCount_eq (hg : 0 < granularity) (hrows : IsLineResult granularity devices rows)
    (ht : granularity ∣ t) :
    rowCount rows t =
      (devices.countP fun d => t ≤ d.timestamp ∧ (d.timestamp : ℤ) < t + granularity : ℕ) := by
  have hlookup := hrows.lookup t
  rw [List.find?_map, List.countP_map] at hlookup
  have hcount : devices.countP (fun d => t ≤ d.timestamp ∧ (d.timestamp : ℤ) < t + granularity) =
      devices.countP
        ((fun k => decide (k = t)) ∘ fun d => groupTime granularity d.timestamp) := by
    congr 1
    funext d
    rw [Function.comp_apply, decide_eq_decide]
    exact (groupTime_eq_iff hg ht _).symm
  rw [hcount, ← hlookup, rowCount]
  have hfind : rows.find? ((fun e : ℤ × ℕ => decide (e.1 = t)) ∘
      fun row => (row.groupTime, row.count)) = rows.find? (·.groupTime = t) := rfl
  rw [hfind]
  cases rows.find? (·.groupTime = t) <;> rfl

/-- A gap adds nothing. -/
theorem sum_fillGap (difference i : ℤ) (c : Line Label) :
    (fillGap label granularity difference i c).Values.sum = c.Values.sum := by
  fun_induction fillGap label granularity difference i c with
  | case1 i c hcond ih => rw [ih]; simp [Line.addPoint]
  | case2 i c hcond => rfl

/-- A row adds its count. -/
theorem sum_readCounts (c : Line Label) :
    (rows.foldl (readCount label granularity) c).Values.sum =
      c.Values.sum + ((rows.map (·.count)).sum : ℕ) := by
  induction rows generalizing c with
  | nil => simp
  | cons row rows ih =>
    have hrow : (readCount label granularity c row).Values.sum = c.Values.sum + row.count := by
      unfold readCount
      dsimp only
      split
      · simp [Line.addPoint]
      · split <;> simp [Line.addPoint, sum_fillGap]
    rw [List.foldl_cons, ih, hrow, List.map_cons, List.sum_cons]
    push_cast
    ring

/-- **The line.** The handler shows the rows of `devices` in the interval, each once; if its rows
come in order of time, as their histogram, from the group of the first row to that of the last. -/
theorem updateChartClick_eq_histogram (hg : 1 ≤ granularity) (timestart timestop : ℕ)
    (devices : List (Located F))
    (hrows : IsLineResult granularity (between timestart timestop devices) rows) :
    (updateChartClick label granularity rows).1.sum = (between timestart timestop devices).length ∧
      (rows.Pairwise (·.groupTime < ·.groupTime) → ∃ first n,
        updateChartClick label granularity rows =
            histogram label granularity first n (between timestart timestop devices) ∧
          granularity ∣ first ∧
          (∀ d ∈ between timestart timestop devices,
            first ≤ d.timestamp ∧ (d.timestamp : ℤ) < first + n * granularity) ∧
          (n ≠ 0 → (∃ d ∈ between timestart timestop devices,
              (d.timestamp : ℤ) < first + granularity) ∧
            ∃ d ∈ between timestart timestop devices,
              first + (n - 1) * granularity ≤ d.timestamp)) := by
  have hpos : 0 < granularity := by omega
  generalize between timestart timestop devices = devices at hrows
  constructor
  · have hsum := hrows.sum
    rw [List.map_map, List.length_map] at hsum
    rw [updateChartClick, sum_readCounts, ← hsum]
    simp [Function.comp_def]
  · intro hsorted
    have hmul : ∀ row ∈ rows, granularity ∣ row.groupTime := by
      intro row hrow
      obtain ⟨d, -, heq⟩ := hrows.exists_device hrow
      exact heq ▸ dvd_groupTime _ _
    cases rows with
    | nil =>
      refine ⟨0, 0, rfl, dvd_zero _, fun d hd => ?_, fun h => absurd rfl h⟩
      obtain ⟨row, hmem, -⟩ := hrows.exists_row hd
      cases hmem
    | cons row post =>
      rw [List.forall_mem_cons] at hmul
      obtain ⟨n, h⟩ := (lineInv_first label).readCounts hpos hmul.1 hsorted hmul.2
      have hchart : updateChartClick label granularity (row :: post) =
          histogram label granularity row.groupTime (n + 1) devices := by
        refine Prod.ext ?_ h.labs
        rw [updateChartClick, List.foldl_cons, h.values]
        refine List.map_congr_left fun t ht => ?_
        obtain ⟨k, -, rfl⟩ := List.mem_map.1 ht
        exact rowCount_eq hpos hrows (dvd_add hmul.1 (dvd_mul_left _ _))
      refine ⟨row.groupTime, n + 1, hchart, hmul.1, fun d hd => ?_, fun _ => ⟨?_, ?_⟩⟩
      · obtain ⟨row', hmem, heq⟩ := hrows.exists_row hd
        obtain ⟨hle, hlt⟩ := groupTime_bounds hpos d.timestamp
        have hlast := h.le row' hmem
        have hfirst : row.groupTime ≤ row'.groupTime := by
          rcases List.mem_cons.1 hmem with rfl | hmem
          · exact le_rfl
          · exact (List.rel_of_pairwise_cons hsorted hmem).le
        rw [h.previous] at hlast
        push_cast
        constructor <;> linarith
      · obtain ⟨d, hd, heq⟩ := hrows.exists_device List.mem_cons_self
        exact ⟨d, hd, heq ▸ (groupTime_bounds hpos d.timestamp).2⟩
      · obtain ⟨last, hlast, htime⟩ := h.last
        obtain ⟨d, hd, heq⟩ := hrows.exists_device (List.mem_of_getLast? hlast)
        refine ⟨d, hd, ?_⟩
        have hle := (groupTime_bounds hpos d.timestamp).1
        rw [heq, htime, h.previous] at hle
        push_cast
        linarith

end

/-- Two devices in the first minute and one in the third. -/
def threeMinutes : List (Located ℚ) := [⟨['a'], 0, 0, 61⟩, ⟨['b'], 0, 0, 95⟩, ⟨['a'], 0, 0, 200⟩]

/-- The line chart of the three minutes is their histogram. -/
theorem updateChartClick_eq_histogram_threeMinutes : ∃ first n,
    updateChartClick id 60 [⟨60, 2, by decide⟩, ⟨180, 1, by decide⟩] =
      histogram id 60 first n (between 0 300 threeMinutes) := by
  have hrows : IsLineResult 60 (between 0 300 threeMinutes)
      [⟨60, 2, by decide⟩, ⟨180, 1, by decide⟩] :=
    isCount_groupCount [60, 60, 180]
  obtain ⟨first, n, heq, -⟩ := (updateChartClick_eq_histogram (by decide) 0 300 threeMinutes
    hrows).2 (by decide)
  exact ⟨first, n, heq⟩

/-! ## The most frequent devices -/

section
variable {devices before after : List (Located F)} {a b : List Char} {limit : ℕ}

/-- The MACs of the first query are some of the sorted ones. -/
theorem topMacs_sublist :
    (topMacs limit devices).Sublist
      ((devices.map (·.mac)).dedup.insertionSort (Precedes devices)) :=
  List.take_sublist _ _

/-- No MAC is found twice. -/
theorem nodup_topMacs : (topMacs limit devices).Nodup :=
  ((List.perm_insertionSort _ _).nodup_iff.2 (List.nodup_dedup _)).sublist topMacs_sublist

/-- A MAC that is found has a row. -/
theorem exists_of_mem_topMacs (h : a ∈ topMacs limit devices) : ∃ d ∈ devices, d.mac = a := by
  have hmem := (List.perm_insertionSort _ _).subset (topMacs_sublist.subset h)
  exact List.mem_map.1 (List.mem_dedup.1 hmem)

/-- As many MACs are found as were asked for, if there are so many. -/
theorem length_topMacs :
    (topMacs limit devices).length = min limit (devices.map (·.mac)).dedup.length := by
  rw [topMacs, List.length_take, List.length_insertionSort]

/-- Of two MACs, one precedes the other. -/
instance : Std.Total (Precedes devices) where
  total a b := by
    unfold Precedes
    rcases lt_trichotomy (occurrences devices a) (occurrences devices b) with hlt | heq | hlt
    · exact .inr (.inl hlt)
    · exact (le_total a b).imp (fun hle => .inr ⟨heq, hle⟩) fun hle => .inr ⟨heq.symm, hle⟩
    · exact .inl (.inl hlt)

/-- The order of the first query is transitive. -/
instance : IsTrans (List Char) (Precedes devices) where
  trans a b c hab hbc := by
    rcases hab with hab | ⟨hab, hle⟩
    · exact .inl (hbc.elim hab.trans' fun h => h.1 ▸ hab)
    · exact hbc.imp (hab ▸ ·) fun h => ⟨hab.trans h.1, hle.trans h.2⟩

/-- The query returns the most frequent MACs first. -/
theorem pairwise_occurrences :
    ((devices.map (·.mac)).dedup.insertionSort (Precedes devices)).Pairwise
      fun a b => occurrences devices b ≤ occurrences devices a :=
  (List.pairwise_insertionSort _ _).imp fun h => h.elim le_of_lt fun h => h.1.ge

/-- What the query leaves out is not more frequent. -/
theorem occurrences_le (ha : a ∈ topMacs limit devices) (hb : b ∉ topMacs limit devices) :
    occurrences devices b ≤ occurrences devices a := by
  by_cases hrow : b ∈ devices.map (·.mac)
  · have hmem : b ∈ (devices.map (·.mac)).dedup.insertionSort (Precedes devices) :=
      (List.perm_insertionSort _ _).symm.subset (List.mem_dedup.2 hrow)
    have hsplit := List.take_append_drop limit
      ((devices.map (·.mac)).dedup.insertionSort (Precedes devices))
    rw [← hsplit, List.mem_append] at hmem
    have hsorted : ((devices.map (·.mac)).dedup.insertionSort (Precedes devices)).Pairwise
        fun a b => occurrences devices b ≤ occurrences devices a := pairwise_occurrences
    rw [← hsplit, List.pairwise_append] at hsorted
    exact hsorted.2.2 a ha b (hmem.resolve_left hb)
  · have hnone : occurrences devices b = 0 := by
      refine List.countP_eq_zero.2 fun d hd heq => hrow ?_
      exact List.mem_map.2 ⟨d, hd, of_decide_eq_true heq⟩
    omega

/-- A query for as many as there were is the same query. -/
theorem topMacs_length :
    topMacs (topMacs limit devices).length devices = topMacs limit devices := by
  rw [length_topMacs, topMacs, topMacs, ← List.length_insertionSort (Precedes devices),
    ← List.take_eq_take_min]

/-- On a table that has grown, the query for as many MACs as before finds as many. -/
theorem length_topMacs_of_sublist (h : before.Sublist after) :
    (topMacs (topMacs limit before).length after).length = (topMacs limit before).length := by
  have hle : (before.map (·.mac)).dedup.length ≤ (after.map (·.mac)).dedup.length := by
    refine ((List.nodup_dedup _).subperm fun m hm => ?_).length_le
    rw [List.mem_dedup] at hm ⊢
    exact (h.map _).subset hm
  rw [length_topMacs, length_topMacs]
  omega

end

/-! ## A MAC without a series -/

section
variable {label : ℤ → Label} {macs : List (List Char)} {map : Dictionary (List Char) ℕ}
  {c c' : Chart Label} {row : ChartRow} {rows : List ChartRow}

/-- A loop with a step that always throws. -/
theorem foldlM_eq_none {α β : Type} {f : β → α → Option β} {as : List α} {a : α} (ha : a ∈ as)
    (hf : ∀ b, f b a = none) (b : β) : as.foldlM f b = none := by
  induction as generalizing b with
  | nil => cases ha
  | cons a' as ih =>
    rw [List.foldlM_cons]
    rcases List.mem_cons.1 ha with rfl | ha
    · rw [hf]
      rfl
    · cases f b a' with
      | none => rfl
      | some b' => exact ih ha b'

/-- The counts that are collected are of a MAC without a series, among others. -/
def Stray (macs : List (List Char)) (c : Chart Label) : Prop :=
  c.first = false ∧ ∃ m ∈ c.TS.mac_map.keys, m ∉ macs

/-- Such counts cannot be added to the chart. -/
theorem Stray.flush (h : Stray macs c) (hmap : Numbered macs map) : flush label map c = none := by
  obtain ⟨-, m, hm, hnot⟩ := h
  obtain ⟨v, hv⟩ := Dictionary.mem_keys.1 hm
  have hentry : ∃ v, (m, v) ∈ (if c.TS.mac_map.count ≠ map.count then
      c.TS.mac_map.addAll map.keys 0 else c.TS.mac_map).entries := by
    split
    case isTrue =>
      refine ⟨v, Dictionary.get?_eq_some.1 ?_⟩
      rw [Dictionary.get?_addAll, if_neg (hmap.keys ▸ hnot), Dictionary.get?_eq_some.2 hv]
    case isFalse => exact ⟨v, hv⟩
  obtain ⟨w, hw⟩ := hentry
  have hthrows : ∀ cc, addValue map cc (m, w) = none := by
    intro cc
    have hnone : map.get? m = none := by
      rw [Dictionary.get?_eq_none, hmap.keys]
      exact hnot
    unfold addValue
    rw [hnone]
    rfl
  unfold DataWindow.flush
  dsimp only
  rw [foldlM_eq_none hw hthrows]
  rfl

/-- A chart that takes the counts stays where it is in the loop. -/
theorem flush_first (h : flush label map c = some c') : c'.first = c.first := by
  unfold flush at h
  obtain ⟨ColumnCollection, -, heq⟩ := Option.bind_eq_some_iff.1 h
  cases heq
  rfl

/-- What a row does: it is collected, by a chart that took the counts before it if the time is a new
one. -/
theorem readRow_cases (h : readRow label map c row = some c') : ∃ c₁ : Chart Label,
    c' = { c₁ with TS := { c₁.TS with mac_map := c₁.TS.mac_map.add row.mac row.count } } ∧
      c₁.first = false ∧ (c.first = false → c₁ = c ∨ ∃ c₂, flush label map c = some c₂) := by
  unfold readRow at h
  obtain ⟨c₀, hc₀⟩ : ∃ c₀, c₀ = if c.first = true then
      { c with TS := ⟨row.groupTime, .empty _ _⟩, first := false } else c := ⟨_, rfl⟩
  rw [← hc₀] at h
  have hfirst : c₀.first = false ∧ (c.first = false → c₀ = c) := by
    rw [hc₀]
    split
    case isTrue htrue => exact ⟨rfl, fun hfalse => absurd (htrue.symm.trans hfalse) (by decide)⟩
    case isFalse hfalse => exact ⟨Bool.eq_false_iff.2 hfalse, fun _ => rfl⟩
  dsimp only at h
  split at h
  case isTrue htime =>
    obtain ⟨c₂, hflush, heq⟩ := Option.bind_eq_some_iff.1 h
    refine ⟨{ c₂ with TS := ⟨row.groupTime, .empty _ _⟩ }, (Option.some.inj heq).symm,
      (flush_first hflush).trans hfirst.1, fun hfalse => .inr ⟨c₂, ?_⟩⟩
    rw [← hfirst.2 hfalse]
    exact hflush
  case isFalse htime =>
    exact ⟨c₀, (Option.some.inj h).symm, hfirst.1, fun hfalse => .inl (hfirst.2 hfalse)⟩

/-- A MAC without a series stays among the counts. -/
theorem readRow_stray (hmap : Numbered macs map) (hstep : readRow label map c row = some c')
    (h : Stray macs c ∨ row.mac ∉ macs) : Stray macs c' := by
  obtain ⟨c₁, rfl, hfirst, hcases⟩ := readRow_cases hstep
  refine ⟨hfirst, ?_⟩
  dsimp only
  rcases h with h | hnot
  · rcases hcases h.1 with rfl | ⟨c₂, hflush⟩
    · obtain ⟨m, hm, hnot⟩ := h.2
      exact ⟨m, Dictionary.mem_keys_add.2 (.inr hm), hnot⟩
    · exact absurd ((h.flush hmap).symm.trans hflush) (by simp)
  · exact ⟨row.mac, Dictionary.mem_keys_add.2 (.inl rfl), hnot⟩

/-- A MAC without a series stays among the counts to the end of the rows. -/
theorem readRows_stray (hmap : Numbered macs map)
    (hstep : rows.foldlM (readRow label map) c = some c')
    (h : Stray macs c ∨ ∃ row ∈ rows, row.mac ∉ macs) : Stray macs c' := by
  induction rows generalizing c with
  | nil =>
    cases hstep
    exact h.resolve_right (by simp)
  | cons row rows ih =>
    rw [List.foldlM_cons] at hstep
    obtain ⟨c₁, hrow, hrest⟩ := Option.bind_eq_some_iff.1 hstep
    refine ih hrest ?_
    rcases h with h | ⟨row', hmem, hnot⟩
    · exact .inl (readRow_stray hmap hrow (.inl h))
    · rcases List.mem_cons.1 hmem with rfl | hmem
      · exact .inl (readRow_stray hmap hrow (.inr hnot))
      · exact .inr ⟨row', hmem, hnot⟩

variable (label) in
/-- The handler fails at a MAC that the first query did not find. -/
theorem updateChartColClick_eq_none (hmacs : macs.Nodup) (h : ∃ row ∈ rows, row.mac ∉ macs) :
    updateChartColClick label macs rows = none := by
  have hmap := numbered_readMacs hmacs
  unfold updateChartColClick
  dsimp only
  generalize Chart.mk (readMacs macs).2 ([] : List Label) ⟨0, .empty _ _⟩ true = c
  cases hrows : rows.foldlM (readRow label (readMacs macs).1) c with
  | none => rfl
  | some c' =>
    have hstray := readRows_stray hmap hrows (.inr h)
    rw [Option.bind_eq_bind, Option.bind_some, hstray.1, if_pos (by decide), hstray.flush hmap]
    rfl

end

/-! ## The stacked chart -/

section
variable {label : ℤ → Label} {granularity t : ℤ} {limit : ℕ} {devices : List (Located F)}
  {macs : List (List Char)} {m : List Char} {rows : List ChartRow}

variable (label) in
/-- The chart has a series for each of the `macs`, with a value for each of its labels, which are
for the `times`. The values at the labels for one time add up to the number of rows of the MAC in
the seconds of the time, and all of them to the number of its rows. -/
structure IsStack (granularity : ℤ) (macs : List (List Char)) (devices : List (Located F))
    (times : List ℤ) (chart : List Series × List Label) : Prop where
  titles : chart.1.map (·.Title) = macs
  labels : chart.2 = times.map label
  mem_times : ∀ t, t ∈ times ↔ ∃ d ∈ devices, d.mac ∈ macs ∧ groupTime granularity d.timestamp = t
  length : ∀ s ∈ chart.1, s.Values.length = times.length
  counts : ∀ s ∈ chart.1, ∀ t ∈ times,
    (((times.zip s.Values).filter (·.1 = t)).map Prod.snd).sum =
      (devices.countP fun d => d.mac = s.Title ∧ t ≤ d.timestamp ∧
        (d.timestamp : ℤ) < t + granularity : ℕ)
  total : ∀ s ∈ chart.1, s.Values.sum = occurrences devices s.Title

/-- The times increase, and each value is the number of rows of the MAC in the seconds of its
time. -/
structure IsHistogram (granularity : ℤ) (devices : List (Located F)) (times : List ℤ)
    (chart : List Series × List Label) : Prop where
  ordered : times.Pairwise (· < ·)
  values : ∀ s ∈ chart.1, s.Values = times.map fun t =>
    ((devices.countP fun d => d.mac = s.Title ∧ t ≤ d.timestamp ∧
      (d.timestamp : ℤ) < t + granularity : ℕ) : ℤ)

/-- The second query returns the groups of the rows of its MACs. -/
theorem mem_stackedResult (hrows : IsStackedResult granularity limit devices rows) :
    (∃ row ∈ rows, row.groupTime = t ∧ row.mac = m) ↔
      ∃ d ∈ devices, d.mac ∈ topMacs limit devices ∧ groupTime granularity d.timestamp = t ∧
        d.mac = m := by
  have hiff := hrows.groups.mem_iff (t, m)
  simpa [and_assoc] using hiff

/-- The groups are of MACs of the first query. -/
theorem IsStackedResult.known (hrows : IsStackedResult granularity limit devices rows)
    (h : ∀ m ∈ topMacs limit devices, m ∈ macs) : ∀ row ∈ rows, row.mac ∈ macs := by
  intro row hrow
  obtain ⟨d, -, hmem, -, heq⟩ := (mem_stackedResult hrows).1 ⟨row, hrow, rfl, rfl⟩
  exact h _ (heq ▸ hmem)

/-- The count of a MAC and a time is that of the rows of the MAC in the group. -/
theorem countAt_eq (hrows : IsStackedResult granularity limit devices rows)
    (hm : m ∈ topMacs limit devices) :
    countAt rows t m =
      (devices.countP fun d => groupTime granularity d.timestamp = t ∧ d.mac = m : ℕ) := by
  have hlookup := hrows.groups.lookup (t, m)
  rw [List.find?_map, List.countP_map, List.countP_filter] at hlookup
  have hcount : devices.countP (fun d => groupTime granularity d.timestamp = t ∧ d.mac = m) =
      devices.countP fun d =>
        ((fun k => decide (k = (t, m))) ∘
            fun d : Located F => (groupTime granularity d.timestamp, d.mac)) d &&
          decide (d.mac ∈ topMacs limit devices) := by
    congr 1
    funext d
    by_cases hd : d.mac = m <;> simp [hd, hm]
  rw [hcount, ← hlookup, countAt]
  have hfind : rows.find? ((fun e : (ℤ × List Char) × ℕ => decide (e.1 = (t, m))) ∘
      fun row => ((row.groupTime, row.mac), row.count)) =
      rows.find? fun row => row.groupTime = t ∧ row.mac = m := by
    congr 1
    funext row
    simp
  rw [hfind]
  cases rows.find? fun row => row.groupTime = t ∧ row.mac = m <;> rfl

/-- The counts of a MAC at the times with a property are those of its rows. -/
theorem sum_rows (hrows : IsStackedResult granularity limit devices rows)
    (hm : m ∈ topMacs limit devices) (q : ℤ → Prop) [DecidablePred q] :
    ((rows.filter fun row => q row.groupTime ∧ row.mac = m).map (·.count)).sum =
      devices.countP fun d => q (groupTime granularity d.timestamp) ∧ d.mac = m := by
  have hsum := hrows.groups.sum_filter fun k => q k.1 ∧ k.2 = m
  rw [List.filter_map, List.map_map, List.countP_map, List.countP_filter] at hsum
  refine hsum.trans ?_
  congr 1
  funext d
  by_cases hd : d.mac = m <;> simp [hd, hm]

/-- What is collected of a MAC is all its rows, as a segment has at most one. -/
theorem collected_eq_sum {rows : List ChartRow} (hnodup : (rows.map (·.mac)).Nodup)
    (m : List Char) :
    (collected rows m).getD 0 = (((rows.filter (·.mac = m)).map (·.count)).sum : ℕ) := by
  induction rows with
  | nil => rfl
  | cons row rows ih =>
    rw [List.map_cons, List.nodup_cons] at hnodup
    by_cases hmac : row.mac = m
    · have hnone : rows.filter (·.mac = m) = [] :=
        List.filter_eq_nil_iff.2 fun row' hrow' heq =>
          hnodup.1 (List.mem_map.2 ⟨row', hrow', (of_decide_eq_true heq).trans hmac.symm⟩)
      simp [collected, hmac, hnone]
    · have hfind : collected (row :: rows) m = collected rows m := by simp [collected, hmac]
      rw [hfind, ih hnodup.2]
      simp [hmac]

/-- The MACs of the rows of one time are different. -/
theorem IsStackedResult.nodup_macs (hrows : IsStackedResult granularity limit devices rows)
    {segs : List TimeSegment} (hsegs : IsSegments rows segs) :
    ∀ seg ∈ segs, (seg.rows.map (·.mac)).Nodup := by
  intro seg hseg
  have hkeys := hrows.groups.nodup
  rw [List.map_map] at hkeys
  have hsub : seg.rows.Sublist rows := by
    obtain ⟨before, after, rfl⟩ := List.append_of_mem hseg
    rw [← hsegs.flatMap, List.flatMap_append, List.flatMap_cons]
    exact (List.sublist_append_left _ _).trans (List.sublist_append_right _ _)
  have hseg := hkeys.sublist (hsub.map _)
  rw [List.Nodup, List.pairwise_map] at hseg ⊢
  refine hseg.imp_of_mem fun {a b} ha hb hne heq => hne ?_
  exact Prod.ext ((seg.time_eq a ha).trans (seg.time_eq b hb).symm) heq

/-- The values of the segments with a property of their times are the counts of their rows. -/
theorem sum_segments {segs : List TimeSegment}
    (hnodup : ∀ seg ∈ segs, (seg.rows.map (·.mac)).Nodup) (q : ℤ → Prop) [DecidablePred q] :
    ((segs.filter fun seg => q seg.timestamp).map (·.count m)).sum =
      ((((segs.flatMap (·.rows)).filter fun row => q row.groupTime ∧ row.mac = m).map
        (·.count)).sum : ℕ) := by
  induction segs with
  | nil => rfl
  | cons seg segs ih =>
    rw [List.forall_mem_cons] at hnodup
    rw [List.flatMap_cons, List.filter_append, List.map_append, List.sum_append, Nat.cast_add,
      ← ih hnodup.2, List.filter_cons]
    by_cases hq : q seg.timestamp
    · have hrows : (seg.rows.filter fun row => q row.groupTime ∧ row.mac = m) =
          seg.rows.filter (·.mac = m) :=
        List.filter_congr fun row hrow => by simp [seg.time_eq row hrow, hq]
      rw [if_pos (decide_eq_true hq), List.map_cons, List.sum_cons, hrows,
        ← collected_eq_sum hnodup.1]
      rfl
    · have hrows : (seg.rows.filter fun row => q row.groupTime ∧ row.mac = m) = [] :=
        List.filter_eq_nil_iff.2 fun row hrow heq =>
          hq (seg.time_eq row hrow ▸ (of_decide_eq_true heq).1)
      rw [if_neg (by simp [hq]), hrows]
      simp

/-- What the handler shows, where the two queries agree on the MACs. -/
theorem isStack_segmentChart (hg : 0 < granularity)
    (hrows : IsStackedResult granularity limit devices rows)
    (hmacs : ∀ m, m ∈ macs ↔ m ∈ topMacs limit devices) {segs : List TimeSegment}
    (hsegs : IsSegments rows segs) :
    IsStack label granularity macs devices (segs.map (·.timestamp))
      (segmentChart label macs segs) := by
  have htimes : ∀ t, t ∈ segs.map (·.timestamp) ↔
      ∃ d ∈ devices, d.mac ∈ macs ∧ groupTime granularity d.timestamp = t := by
    intro t
    rw [hsegs.mem_times]
    constructor
    · rintro ⟨row, hrow, rfl⟩
      obtain ⟨d, hd, hmem, htime, -⟩ := (mem_stackedResult hrows).1 ⟨row, hrow, rfl, rfl⟩
      exact ⟨d, hd, (hmacs _).2 hmem, htime⟩
    · rintro ⟨d, hd, hmem, htime⟩
      obtain ⟨row, hrow, heq, -⟩ :=
        (mem_stackedResult hrows).2 ⟨d, hd, (hmacs _).1 hmem, htime, rfl⟩
      exact ⟨row, hrow, heq⟩
  have hvalues : ∀ s ∈ (segmentChart label macs segs).1, s.Title ∈ topMacs limit devices ∧
      s.Values = segs.map (·.count s.Title) := by
    intro s hs
    obtain ⟨m, hm, rfl⟩ := List.mem_map.1 hs
    exact ⟨(hmacs m).1 hm, rfl⟩
  have hsum : ∀ m ∈ topMacs limit devices, ∀ (q : ℤ → Prop) [DecidablePred q],
      ((segs.filter fun seg => q seg.timestamp).map (·.count m)).sum =
        (devices.countP fun d => q (groupTime granularity d.timestamp) ∧ d.mac = m : ℕ) := by
    intro m hm q _
    rw [sum_segments (hrows.nodup_macs hsegs), hsegs.flatMap, sum_rows hrows hm]
  constructor
  case titles => simp [segmentChart, chartOf, Function.comp_def]
  case labels =>
    rw [List.map_map]
    rfl
  case mem_times => exact htimes
  case length =>
    intro s hs
    rw [(hvalues s hs).2, List.length_map, List.length_map]
  case counts =>
    intro s hs t ht
    obtain ⟨hm, heq⟩ := hvalues s hs
    obtain ⟨d, -, -, rfl⟩ := (htimes t).1 ht
    rw [heq, List.zip_map', List.filter_map, List.map_map]
    refine (hsum s.Title hm (· = groupTime granularity d.timestamp)).trans ?_
    congr 2
    funext d'
    rw [decide_eq_decide, groupTime_eq_iff hg (dvd_groupTime _ _), and_comm]
  case total =>
    intro s hs
    obtain ⟨hm, heq⟩ := hvalues s hs
    have hall := hsum s.Title hm fun _ => True
    simpa [heq, occurrences] using hall

/-- In order of time it is a histogram. -/
theorem isHistogram_segmentChart (hg : 0 < granularity)
    (hrows : IsStackedResult granularity limit devices rows)
    (hmacs : ∀ m, m ∈ macs ↔ m ∈ topMacs limit devices) {segs : List TimeSegment}
    (hsegs : IsSegments rows segs) (hsorted : rows.Pairwise (·.groupTime ≤ ·.groupTime)) :
    IsHistogram granularity devices (segs.map (·.timestamp)) (segmentChart label macs segs) where
  ordered := List.pairwise_map.2 (hsegs.ordered hsorted)
  values := by
    intro s hs
    obtain ⟨m, hm, rfl⟩ := List.mem_map.1 hs
    dsimp only
    rw [List.map_map]
    refine List.map_congr_left fun seg hseg => ?_
    obtain ⟨row, hrow, htime⟩ := hsegs.mem_times.1 (List.mem_map_of_mem hseg)
    obtain ⟨d, -, -, hd, -⟩ := (mem_stackedResult hrows).1 ⟨row, hrow, rfl, rfl⟩
    rw [hsegs.count_eq hsorted hseg, countAt_eq hrows ((hmacs m).1 hm), Function.comp_apply,
      ← htime, ← hd]
    congr 2
    funext d'
    rw [decide_eq_decide, groupTime_eq_iff hg (dvd_groupTime _ _), and_comm]

/-- The number of MACs that are put into the second query. -/
theorem count_readMacs (hmacs : macs.Nodup) : (readMacs macs).1.count = macs.length := by
  rw [Dictionary.count, (readMacs_eq hmacs).1, List.length_zipIdx]

variable (label) in
/-- **The stacked chart.** Between the queries the table may change, and the groups of the second
one come in any order: the handler reaches its end exactly if it is for MACs that the first one
found. On a table that has only grown, what it shows then is the rows of each of them, each once; if
the groups come in order of time, as their histogram. -/
theorem updateChartColClick_iff (hg : 1 ≤ granularity) (timestart timestop : ℕ)
    (before after : List (Located F))
    (hmacs : macs = topMacs limit (between timestart timestop before))
    (hrows : IsStackedResult granularity (readMacs macs).1.count
      (between timestart timestop after) rows) :
    ((∃ chart, updateChartColClick label macs rows = some chart) ↔
        ∀ m ∈ topMacs macs.length (between timestart timestop after), m ∈ macs) ∧
      (before.Sublist after → ∀ chart, updateChartColClick label macs rows = some chart →
        ∃ times, IsStack label granularity macs (between timestart timestop after) times chart ∧
          (rows.Pairwise (·.groupTime ≤ ·.groupTime) →
            IsHistogram granularity (between timestart timestop after) times chart)) := by
  have hnodup : macs.Nodup := hmacs ▸ nodup_topMacs
  rw [count_readMacs hnodup] at hrows
  have hiff : (∃ chart, updateChartColClick label macs rows = some chart) ↔
      ∀ m ∈ topMacs macs.length (between timestart timestop after), m ∈ macs := by
    constructor
    · rintro ⟨chart, hchart⟩ m hm
      by_contra hnot
      obtain ⟨d, hd, rfl⟩ := exists_of_mem_topMacs hm
      obtain ⟨row, hrow, -, heq⟩ := (mem_stackedResult hrows).2 ⟨d, hd, hm, rfl, rfl⟩
      have hnone := updateChartColClick_eq_none label hnodup ⟨row, hrow, heq ▸ hnot⟩
      exact absurd (hnone.symm.trans hchart) (by simp)
    · intro h
      obtain ⟨segs, -, hchart⟩ := updateChartColClick_eq_some label hnodup (hrows.known h)
      exact ⟨_, hchart⟩
  refine ⟨hiff, fun hgrow chart hchart => ?_⟩
  have hknown := hiff.1 ⟨chart, hchart⟩
  obtain ⟨segs, hsegs, hsome⟩ := updateChartColClick_eq_some label hnodup (hrows.known hknown)
  obtain rfl := Option.some.inj (hsome.symm.trans hchart)
  -- the second query found as many MACs, so that it found the same ones
  have hlength : (topMacs macs.length (between timestart timestop after)).length = macs.length := by
    rw [hmacs]
    exact length_topMacs_of_sublist (hgrow.filter _)
  have hperm := (nodup_topMacs.subperm hknown).perm_of_length_le hlength.ge
  exact ⟨_, isStack_segmentChart (by omega) hrows (fun m => hperm.mem_iff.symm) hsegs,
    isHistogram_segmentChart (by omega) hrows (fun m => hperm.mem_iff.symm) hsegs⟩

variable (label) in
/-- **The most frequent devices.** On a table that does not change between the queries the handler
reaches its end, whatever the order of the groups. The series are those of the most frequent MACs,
as many as were asked for if there are so many, and ordered by how often their MAC was found; if the
groups come in order of time, they are the histograms of their MACs. -/
theorem updateChartColClick_most_frequent (hg : 1 ≤ granularity) (timestart timestop limit : ℕ)
    (devices : List (Located F)) (hmacs : macs = topMacs limit (between timestart timestop devices))
    (hrows : IsStackedResult granularity (readMacs macs).1.count
      (between timestart timestop devices) rows) :
    ∃ chart times, updateChartColClick label macs rows = some chart ∧
      IsStack label granularity macs (between timestart timestop devices) times chart ∧
      (rows.Pairwise (·.groupTime ≤ ·.groupTime) →
        IsHistogram granularity (between timestart timestop devices) times chart) ∧
      chart.1.length = min limit ((between timestart timestop devices).map (·.mac)).dedup.length ∧
      chart.1.Pairwise (fun s s' => s'.Values.sum ≤ s.Values.sum) ∧
      ∀ s ∈ chart.1, ∀ m ∉ macs,
        (occurrences (between timestart timestop devices) m : ℤ) ≤ s.Values.sum := by
  have hnodup : macs.Nodup := hmacs ▸ nodup_topMacs
  rw [count_readMacs hnodup] at hrows
  generalize between timestart timestop devices = devices at hmacs hrows
  have hsame : topMacs macs.length devices = macs := by rw [hmacs, topMacs_length]
  have hmem : ∀ m, m ∈ macs ↔ m ∈ topMacs macs.length devices := fun m => by rw [hsame]
  obtain ⟨segs, hsegs, hsome⟩ := updateChartColClick_eq_some label hnodup
    (hrows.known fun m => (hmem m).2)
  have hstack : IsStack label granularity macs _ _ _ :=
    isStack_segmentChart (by omega) hrows hmem hsegs
  refine ⟨_, _, hsome, hstack, isHistogram_segmentChart (by omega) hrows hmem hsegs, ?_, ?_,
    fun s hs m hm => ?_⟩
  · rw [← List.length_map (·.Title), hstack.titles, hmacs, length_topMacs]
  · have hsorted : macs.Pairwise fun a b => occurrences devices b ≤ occurrences devices a := by
      rw [hmacs]
      exact pairwise_occurrences.sublist topMacs_sublist
    rw [← hstack.titles, List.pairwise_map] at hsorted
    refine hsorted.imp_of_mem fun hs hs' hle => ?_
    rw [hstack.total _ hs, hstack.total _ hs']
    exact_mod_cast hle
  · have htitle : s.Title ∈ macs := hstack.titles ▸ List.mem_map_of_mem hs
    rw [hstack.total s hs]
    rw [hmacs] at htitle hm
    exact_mod_cast occurrences_le htitle hm

/-- A count of one is one of `int`. -/
theorem one_lt : 1 < 2 ^ 31 := by decide

/-- Each minute of `threeMinutes` for each of its devices. -/
def threeMinutesRows : List ChartRow :=
  [⟨60, ['a'], 1, one_lt⟩, ⟨60, ['b'], 1, one_lt⟩, ⟨180, ['a'], 1, one_lt⟩]

/-- The stacked chart of the three minutes is their histogram. -/
theorem updateChartColClick_most_frequent_threeMinutes : ∃ chart times,
    updateChartColClick id [['a'], ['b']] threeMinutesRows = some chart ∧ chart.1.length = 2 ∧
      IsHistogram 60 (between 0 300 threeMinutes) times chart := by
  have hmacs : [['a'], ['b']] = topMacs 5 (between 0 300 threeMinutes) := by decide
  have hrows : IsStackedResult 60 (readMacs [['a'], ['b']]).1.count (between 0 300 threeMinutes)
      threeMinutesRows :=
    ⟨isCount_groupCount [(60, ['a']), (60, ['b']), (180, ['a'])]⟩
  obtain ⟨chart, times, hchart, -, hhistogram, hlength, -⟩ :=
    updateChartColClick_most_frequent id (by decide) 0 300 5 threeMinutes hmacs hrows
  exact ⟨chart, times, hchart, hlength, hhistogram (by decide)⟩

/-- `a` was found first, and then `b` twice, before the second query. -/
def overtaken : List (Located ℚ) := [⟨['a'], 0, 0, 61⟩, ⟨['b'], 0, 0, 95⟩, ⟨['b'], 0, 0, 96⟩]

/-- The groups of `threeMinutes` with those of `a` first, so that the first minute comes back. -/
def firstMinuteTwice : List ChartRow :=
  [⟨60, ['a'], 1, one_lt⟩, ⟨180, ['a'], 1, one_lt⟩, ⟨60, ['b'], 1, one_lt⟩]

/-- The chart of the most frequent device, which is another one for each of the queries; and a chart
in which a minute has two labels. -/
theorem updateChartColClick_iff_overtaken :
    (¬∃ chart, updateChartColClick id [['a']] [⟨60, ['b'], 2, by decide⟩] = some chart) ∧
      ∃ chart, updateChartColClick id [['a'], ['b']] firstMinuteTwice = some chart ∧
        chart.2 = [60, 180, 60] ∧
        IsStack id 60 [['a'], ['b']] (between 0 300 threeMinutes) [60, 180, 60] chart := by
  constructor
  · have hmacs : [['a']] = topMacs 1 (between 0 300 (overtaken.take 1)) := by decide
    have hrows : IsStackedResult 60 (readMacs [['a']]).1.count (between 0 300 overtaken)
        [⟨60, ['b'], 2, by decide⟩] :=
      ⟨isCount_groupCount [(60, ['b']), (60, ['b'])]⟩
    have hiff := (updateChartColClick_iff id (by decide) 0 300 (overtaken.take 1) overtaken hmacs
      hrows).1
    exact fun h => absurd (hiff.1 h) (by decide)
  · have hmacs : [['a'], ['b']] = topMacs 5 (between 0 300 (threeMinutes.take 2)) := by decide
    have hrows : IsStackedResult 60 (readMacs [['a'], ['b']]).1.count (between 0 300 threeMinutes)
        firstMinuteTwice :=
      ⟨(isCount_groupCount [(60, ['a']), (60, ['b']), (180, ['a'])]).perm (.cons _ (.swap _ _ _))⟩
    have hsome : updateChartColClick id [['a'], ['b']] firstMinuteTwice =
        some ([⟨['a'], [1, 1, 0]⟩, ⟨['b'], [0, 0, 1]⟩], [60, 180, 60]) := by decide
    obtain ⟨times, hstack, -⟩ := (updateChartColClick_iff id (by decide) 0 300
      (threeMinutes.take 2) threeMinutes hmacs hrows).2 (List.take_sublist _ _) _ hsome
    refine ⟨_, hsome, rfl, ?_⟩
    have htimes : times = [60, 180, 60] := (List.map_id times).symm.trans hstack.labels.symm
    exact htimes ▸ hstack

end

end DataWindow

end DetectionSystem

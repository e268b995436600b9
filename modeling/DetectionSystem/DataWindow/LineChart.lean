import Mathlib.Algebra.Order.Ring.Int
import Mathlib.Data.List.Range
import Mathlib.Tactic.Common
import Mathlib.Tactic.Linarith
import Mathlib.Tactic.Ring

/-!
# The line chart

`Update_chart_Click` shows how many rows of `devices` fall into each `granularity` seconds of an
interval. Its query returns no row for a time at which there is none, and the loop over the rows
adds a zero for each time between two of them.

`LineInv` says what the chart holds after some of the rows: the counts at all multiples of the
granularity from the first row to the last one that was read. A row adds the zeros of the gap before
it (`fillGap_eq`) and its own count, which is what one more stretch of these times holds
(`counts_stretch`).
-/

namespace DetectionSystem

namespace DataWindow

/-- A row of the query. The count is that of rows with an `INT` key. -/
structure CountRow where
  groupTime : ℤ
  count : ℕ
  count_lt : count < 2 ^ 31

/-- The variables of the loop: the values of the line, their labels, and where the last one is. -/
structure Line (Label : Type) where
  Values : List ℤ
  labs : List Label
  n_counter : ℕ
  previous_timestamp : ℤ

variable {Label : Type} (label : ℤ → Label) (granularity : ℤ)

/-- Adds a value and the label of its time. -/
def Line.addPoint (c : Line Label) (value time : ℤ) : Line Label :=
  { c with Values := c.Values ++ [value], labs := c.labs ++ [label time] }

/-- `for (i = granularity; i < difference; i += granularity)`: a zero for each time of a gap. The
picker of the granularity has a minimum of 1. -/
def fillGap (difference i : ℤ) (c : Line Label) : Line Label :=
  if 0 < granularity ∧ i < difference then
    fillGap difference (i + granularity) (c.addPoint label 0 (c.previous_timestamp + i))
  else c
termination_by (difference - i).toNat

/-- The body of the loop over the rows. -/
def readCount (c : Line Label) (row : CountRow) : Line Label :=
  let c :=
    if c.n_counter = 0 then
      { c with previous_timestamp := row.groupTime }.addPoint label row.count row.groupTime
    else
      let difference := row.groupTime - c.previous_timestamp
      let c :=
        if difference ≠ granularity then fillGap label granularity difference granularity c else c
      { c.addPoint label row.count row.groupTime with previous_timestamp := row.groupTime }
  { c with n_counter := c.n_counter + 1 }

/-- The handler, from the result of its query to the values and the labels of the line. -/
def updateChartClick (rows : List CountRow) : List ℤ × List Label :=
  let c := rows.foldl (readCount label granularity) ⟨[], [], 0, 0⟩
  (c.Values, c.labs)

/-- The count of a time, 0 if there is no row. -/
def rowCount (rows : List CountRow) (time : ℤ) : ℤ :=
  ((rows.find? (·.groupTime = time)).map fun row => (row.count : ℤ)).getD 0

/-- The chart has one point for each multiple of the granularity from the first to the last row. -/
structure FillsGaps (rows : List CountRow) (chart : List ℤ × List Label) : Prop where
  length_eq : chart.1.length = chart.2.length
  length : ∀ first ∈ rows.head?, ∀ last ∈ rows.getLast?,
    (chart.1.length : ℤ) = (last.groupTime - first.groupTime) / granularity + 1
  empty : rows = [] → chart.1 = []
  labels : ∀ first ∈ rows.head?, ∀ k < chart.2.length,
    chart.2[k]? = some (label (first.groupTime + k * granularity))
  values : ∀ first ∈ rows.head?, ∀ k < chart.1.length,
    chart.1[k]? = some (rowCount rows (first.groupTime + k * granularity))

/-! ## The times of the line -/

section
variable {granularity} {first t : ℤ} {n j : ℕ} {pre post rows : List CountRow} {row : CountRow}

/-- The `n` times from the first one on. -/
def stretch (granularity first : ℤ) (n : ℕ) : List ℤ :=
  (List.range n).map fun k : ℕ => first + k * granularity

@[simp] theorem length_stretch : (stretch granularity first n).length = n := by
  rw [stretch, List.length_map, List.length_range]

/-- The times of a stretch are evenly spaced. -/
theorem getElem?_stretch (h : j < n) :
    (stretch granularity first n)[j]? = some (first + j * granularity) := by
  rw [stretch, List.getElem?_map, List.getElem?_range h]
  rfl

/-- A longer stretch has one time more. -/
theorem stretch_succ :
    stretch granularity first (n + 1) =
      stretch granularity first n ++ [first + n * granularity] := by
  rw [stretch, stretch, List.range_succ, List.map_append, List.map_singleton]

/-- A stretch goes on where it stops. -/
theorem stretch_add :
    stretch granularity first (n + j) =
      stretch granularity first n ++ stretch granularity (first + n * granularity) j := by
  induction j with
  | zero => simp [stretch]
  | succ j ih =>
    rw [← Nat.add_assoc, stretch_succ, stretch_succ, ih, List.append_assoc]
    push_cast
    ring_nf

/-- The times of a stretch lie within it. -/
theorem mem_stretch_lt (hg : 0 < granularity) (ht : t ∈ stretch granularity first n) :
    first ≤ t ∧ t < first + n * granularity := by
  obtain ⟨k, hk, rfl⟩ := List.mem_map.1 ht
  rw [List.mem_range] at hk
  have hk' : ((k : ℤ) + 1) * granularity ≤ n * granularity :=
    mul_le_mul_of_nonneg_right (by exact_mod_cast hk) hg.le
  exact ⟨le_add_of_nonneg_right (by positivity), by linarith⟩

/-! ## The counts -/

/-- A row does not count at other times. -/
theorem rowCount_append_of_ne (h : row.groupTime ≠ t) :
    rowCount (pre ++ [row]) t = rowCount pre t := by
  unfold rowCount
  rw [List.find?_append, List.find?_singleton]
  simp [h]

/-- No row counts for a time after all of them. -/
theorem rowCount_of_lt (h : ∀ row ∈ pre, row.groupTime < t) : rowCount pre t = 0 := by
  have hnone : pre.find? (·.groupTime = t) = none :=
    List.find?_eq_none.2 fun row hrow heq => (h row hrow).ne (of_decide_eq_true heq)
  rw [rowCount, hnone]
  rfl

/-- The last row counts for its own time. -/
theorem rowCount_append_self (h : ∀ row' ∈ pre, row'.groupTime < row.groupTime) :
    rowCount (pre ++ [row]) row.groupTime = row.count := by
  have hnone : pre.find? (·.groupTime = row.groupTime) = none :=
    List.find?_eq_none.2 fun row' hrow' heq => (h row' hrow').ne (of_decide_eq_true heq)
  rw [rowCount, List.find?_append, hnone]
  simp

/-- The counts of a stretch that ends with a new row: those before, zeros for the gap, and its
own. -/
theorem counts_stretch (hg : 0 < granularity) (hrow : row.groupTime = first + (n + j) * granularity)
    (hpre : ∀ row ∈ pre, row.groupTime < first + n * granularity) :
    (stretch granularity first (n + j + 1)).map (rowCount (pre ++ [row])) =
      (stretch granularity first n).map (rowCount pre) ++ List.replicate j 0 ++
        [(row.count : ℤ)] := by
  have hlt : first + n * granularity ≤ row.groupTime := by
    rw [hrow, add_mul, ← add_assoc]
    exact le_add_of_nonneg_right (by positivity)
  have hbefore : (stretch granularity first n).map (rowCount (pre ++ [row])) =
      (stretch granularity first n).map (rowCount pre) :=
    List.map_congr_left fun t ht =>
      rowCount_append_of_ne ((mem_stretch_lt hg ht).2.trans_le hlt).ne'
  have hgap : (stretch granularity (first + n * granularity) j).map (rowCount (pre ++ [row])) =
      List.replicate j 0 := by
    refine List.eq_replicate_iff.2 ⟨by rw [List.length_map, length_stretch], fun v hv => ?_⟩
    obtain ⟨t, ht, rfl⟩ := List.mem_map.1 hv
    obtain ⟨hfrom, hto⟩ := mem_stretch_lt hg ht
    have hne : row.groupTime ≠ t := by
      rw [hrow]
      linarith
    rw [rowCount_append_of_ne hne]
    exact rowCount_of_lt fun row' hrow' => (hpre row' hrow').trans_le hfrom
  have hself : rowCount (pre ++ [row]) (first + ((n + j : ℕ) : ℤ) * granularity) = row.count := by
    push_cast
    rw [← hrow]
    exact rowCount_append_self fun row' hrow' => (hpre row' hrow').trans_le hlt
  rw [stretch_succ, List.map_append, stretch_add, List.map_append, hbefore, hgap,
    List.map_singleton, hself]

end

/-! ## The loop -/

section
variable {label granularity} {first : ℤ} {n j : ℕ} {pre post rows : List CountRow} {row : CountRow}
  {c : Line Label}

/-- **The gap.** The inner loop adds a zero and a label for each time before the next row. -/
theorem fillGap_eq (hg : 0 < granularity) (i : ℤ) (c : Line Label) :
    fillGap label granularity (i + j * granularity) i c =
      { c with
        Values := c.Values ++ List.replicate j 0
        labs := c.labs ++ (stretch granularity (c.previous_timestamp + i) j).map label } := by
  induction j generalizing i c with
  | zero =>
    rw [fillGap, if_neg (by simp)]
    simp [stretch]
  | succ j ih =>
    have hlt : i < i + ((j + 1 : ℕ) : ℤ) * granularity := lt_add_of_pos_right i (by positivity)
    have hstep : i + ((j + 1 : ℕ) : ℤ) * granularity = i + granularity + j * granularity := by
      push_cast
      ring
    have hstretch : stretch granularity (c.previous_timestamp + i) (j + 1) =
        (c.previous_timestamp + i) ::
          stretch granularity (c.previous_timestamp + (i + granularity)) j := by
      rw [Nat.add_comm, stretch_add]
      simp [stretch, add_assoc]
    rw [fillGap, if_pos ⟨hg, hlt⟩, hstep, ih, hstretch]
    simp [Line.addPoint, List.replicate_succ]

variable (label granularity) in
/-- The rows `pre` have been read: the chart holds their counts, without gaps. -/
structure LineInv (first : ℤ) (pre : List CountRow) (n : ℕ) (c : Line Label) : Prop where
  n_counter : c.n_counter ≠ 0
  previous : c.previous_timestamp = first + n * granularity
  last : ∃ row, pre.getLast? = some row ∧ row.groupTime = c.previous_timestamp
  le : ∀ row ∈ pre, row.groupTime ≤ c.previous_timestamp
  values : c.Values = (stretch granularity first (n + 1)).map (rowCount pre)
  labs : c.labs = (stretch granularity first (n + 1)).map label

variable (label) in
/-- The first row. -/
theorem lineInv_first :
    LineInv label granularity row.groupTime [row] 0
      (readCount label granularity ⟨[], [], 0, 0⟩ row) where
  n_counter := Nat.succ_ne_zero _
  previous := by simp [readCount, Line.addPoint]
  last := ⟨row, rfl, rfl⟩
  le := by simp [readCount, Line.addPoint]
  values := by simp [readCount, Line.addPoint, stretch, rowCount]
  labs := by simp [readCount, Line.addPoint, stretch]

/-- **One row.** A later row adds the zeros of the gap before it and its count. -/
theorem LineInv.readCount (h : LineInv label granularity first pre n c) (hg : 0 < granularity)
    (hrow : row.groupTime = first + (n + 1 + j : ℕ) * granularity) :
    LineInv label granularity first (pre ++ [row]) (n + 1 + j)
      (readCount label granularity c row) := by
  have hdifference : row.groupTime - c.previous_timestamp = granularity + j * granularity := by
    rw [hrow, h.previous]
    push_cast
    ring
  have hnext : c.previous_timestamp + granularity =
      first + ((n + 1 : ℕ) : ℤ) * granularity := by
    rw [h.previous]
    push_cast
    ring
  -- where there is no gap, the inner loop would add nothing
  have hfill : (if row.groupTime - c.previous_timestamp ≠ granularity then
        fillGap label granularity (row.groupTime - c.previous_timestamp) granularity c
      else c) =
      fillGap label granularity (granularity + j * granularity) granularity c := by
    rw [hdifference]
    split
    case isTrue => rfl
    case isFalse heq =>
      have hj : j = 0 := by simpa [hg.ne'] using heq
      rw [hj, fillGap_eq hg]
      simp [stretch]
  have hread : DataWindow.readCount label granularity c row =
      { Values := c.Values ++ List.replicate j 0 ++ [(row.count : ℤ)]
        labs := c.labs ++
          (stretch granularity (first + ((n + 1 : ℕ) : ℤ) * granularity) j).map label ++
            [label row.groupTime]
        n_counter := c.n_counter + 1
        previous_timestamp := row.groupTime } := by
    rw [DataWindow.readCount, if_neg h.n_counter]
    dsimp only
    rw [hfill, fillGap_eq hg, hnext]
    rfl
  have hlt : ∀ row ∈ pre, row.groupTime < first + ((n + 1 : ℕ) : ℤ) * granularity := by
    intro row' hrow'
    rw [← hnext]
    exact (h.le row' hrow').trans_lt (lt_add_of_pos_right _ hg)
  rw [hread]
  constructor
  case n_counter => exact Nat.succ_ne_zero _
  case previous => exact hrow
  case last => exact ⟨row, List.getLast?_concat, rfl⟩
  case le =>
    intro row' hrow'
    rcases List.mem_append.1 hrow' with hrow' | hrow'
    · refine (hlt row' hrow').le.trans ?_
      rw [hrow]
      push_cast
      have : 0 ≤ (j : ℤ) * granularity := by positivity
      linarith
    · rw [List.mem_singleton.1 hrow']
  case values =>
    dsimp only
    rw [counts_stretch hg (by exact_mod_cast hrow) hlt, h.values]
  case labs =>
    dsimp only
    rw [h.labs, stretch_succ (n := n + 1 + j), List.map_append, stretch_add (n := n + 1),
      List.map_append, List.map_singleton, ← hrow]

/-- The whole loop. -/
theorem LineInv.readCounts (h : LineInv label granularity first pre n c) (hg : 0 < granularity)
    (hfirst : granularity ∣ first) (hrows : (pre ++ post).Pairwise (·.groupTime < ·.groupTime))
    (hmul : ∀ row ∈ post, granularity ∣ row.groupTime) :
    ∃ m, LineInv label granularity first (pre ++ post) m
      (post.foldl (DataWindow.readCount label granularity) c) := by
  induction post generalizing pre n c with
  | nil => exact ⟨n, by rwa [List.append_nil]⟩
  | cons row post ih =>
    obtain ⟨last, hlast, hlast_eq⟩ := h.last
    have hlt : c.previous_timestamp < row.groupTime := hlast_eq ▸
      (List.pairwise_append.1 hrows).2.2 last (List.mem_of_getLast? hlast) row List.mem_cons_self
    obtain ⟨j, hj⟩ : ∃ j : ℕ, row.groupTime = first + (n + 1 + j : ℕ) * granularity := by
      obtain ⟨a, ha⟩ := hfirst
      obtain ⟨b, hb⟩ := hmul row List.mem_cons_self
      rw [h.previous, ha, hb] at hlt
      have hab : a + n < b := by
        refine lt_of_mul_lt_mul_left ?_ hg.le
        linarith
      refine ⟨(b - (a + n + 1)).toNat, ?_⟩
      push_cast
      rw [Int.toNat_of_nonneg (by omega), ha, hb]
      ring
    have hnext := h.readCount hg hj
    obtain ⟨m, hm⟩ := ih hnext (by rwa [List.append_assoc, List.singleton_append])
      fun row' hrow' => hmul row' (List.mem_cons_of_mem _ hrow')
    exact ⟨m, by rwa [List.append_assoc, List.singleton_append] at hm⟩

/-- A chart that holds the counts of all rows without gaps. -/
theorem LineInv.fillsGaps (h : LineInv label granularity row.groupTime (row :: post) n c)
    (hg : 0 < granularity) : FillsGaps label granularity (row :: post) (c.Values, c.labs) := by
  constructor
  case length_eq => rw [h.values, h.labs, List.length_map, List.length_map]
  case length =>
    intro first hfirst last hlast
    obtain rfl := Option.some.inj hfirst
    obtain ⟨last', hlast', heq⟩ := h.last
    obtain rfl := Option.some.inj (hlast'.symm.trans hlast)
    rw [h.values, List.length_map, length_stretch, heq, h.previous, add_sub_cancel_left,
      Int.mul_ediv_cancel _ hg.ne']
    push_cast
    rfl
  case empty => nofun
  case labels =>
    intro first hfirst k hk
    obtain rfl := Option.some.inj hfirst
    rw [h.labs, List.length_map, length_stretch] at hk
    rw [h.labs, List.getElem?_map, getElem?_stretch hk]
    rfl
  case values =>
    intro first hfirst k hk
    obtain rfl := Option.some.inj hfirst
    rw [h.values, List.length_map, length_stretch] at hk
    rw [h.values, List.getElem?_map, getElem?_stretch hk]
    rfl

end

/-- **The gaps are filled.** For rows at increasing multiples of the granularity, the line has a
point for each multiple from the first to the last one: the count of the row of that time, or 0 if
there is none. -/
theorem updateChartClick_fillsGaps {granularity : ℤ} (hg : 1 ≤ granularity) {rows : List CountRow}
    (hrows : rows.Pairwise (·.groupTime < ·.groupTime))
    (hmul : ∀ row ∈ rows, granularity ∣ row.groupTime) :
    FillsGaps label granularity rows (updateChartClick label granularity rows) := by
  cases rows with
  | nil => constructor <;> simp [updateChartClick]
  | cons row post =>
    have hpos : 0 < granularity := by omega
    obtain ⟨hrow, hpost⟩ := List.forall_mem_cons.1 hmul
    obtain ⟨n, hn⟩ := (lineInv_first label).readCounts hpos hrow hrows hpost
    exact hn.fillsGaps hpos

/-- Rows next to each other, and a gap of two times. -/
def withGap : List CountRow :=
  [⟨60, 5, by decide⟩, ⟨120, 4, by decide⟩, ⟨300, 7, by decide⟩]

/-- The chart of the rows with a gap has a zero in it. -/
theorem updateChartClick_withGap :
    FillsGaps id 60 withGap (updateChartClick id 60 withGap) :=
  updateChartClick_fillsGaps id (by decide) (by decide) (by decide)

end DataWindow

end DetectionSystem

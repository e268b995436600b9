import DetectionSystem.Lib.Greedy
import Mathlib.Algebra.Order.Floor.Ring
import Mathlib.Analysis.Real.Sqrt
import Mathlib.Data.Rat.Floor
import Mathlib.Data.Rat.Sqrt
import Mathlib.Tactic.Linarith
import Mathlib.Tactic.Positivity

/-!
# The estimate of the devices behind local MAC addresses

`Update_chart_err_Click` reads the localisations of random MAC addresses in order of time and groups
them with a double loop: an entry that is not checked starts a device, takes all later entries of
its MAC, and takes a later entry of another MAC if its sequence number and position can be those of
the same device. The number of devices is shown with the average of the errors of these links.

The loop computes the greedy groups of the list (`updateChartErrClick_eq`), from which the results
follow: the bounds of what is shown (`updateChartErrClick_bounds`), what a device stands for
(`devices_partition`), and which order among simultaneous entries matters
(`devices_count_eq_of_ties`).
-/

namespace DetectionSystem

namespace DataWindow

open Greedy

/-- Square roots, exact on squares. -/
class SquareRoot (F : Type) [Field F] [LinearOrder F] where
  sqrt : F → F
  sqrt_nonneg : ∀ a, 0 ≤ sqrt a
  sqrt_mul_self : ∀ a, 0 ≤ a → sqrt (a * a) = a

/-- The square root of the reals. -/
noncomputable instance : SquareRoot ℝ where
  sqrt := Real.sqrt
  sqrt_nonneg := Real.sqrt_nonneg
  sqrt_mul_self _ := Real.sqrt_mul_self

/-- The square root of the rationals, which is exact on squares. -/
instance : SquareRoot ℚ where
  sqrt := Rat.sqrt
  sqrt_nonneg := Rat.sqrt_nonneg
  sqrt_mul_self a ha := by rw [Rat.sqrt_eq, abs_of_nonneg ha]

/-- A localisation: `timestamp` is in ticks of 100 ns, `seq_n` is a 16-bit number, so that the
differences below are those of `int`. The field `isChecked` of the source stands beside it. -/
structure LocalAddress (F : Type) where
  mac : List Char
  seq_n : ℤ
  timestamp : ℤ
  x : F
  y : F
deriving DecidableEq, Repr

/-- What the double loop computes. `divisors` lists the values of `k * timeDiff` it divides by,
`started` the entries that start a device, and `links` the entries taken from another MAC, each with
the entry that started the device. -/
structure Estimate (F : Type) where
  devices_count : ℕ
  errors : List F
  divisors : List F
  started : List (LocalAddress F)
  links : List (LocalAddress F × LocalAddress F)
deriving DecidableEq, Repr

variable {F : Type} [Field F] [LinearOrder F] [SquareRoot F]

namespace LocalAddress

/-- `LocalAddress.getDistance`. -/
def getDistance (p1 p2 : LocalAddress F) : F :=
  SquareRoot.sqrt ((p1.x - p2.x) ^ 2 + (p1.y - p2.y) ^ 2)

/-- `new TimeSpan(timestamp).TotalSeconds`. -/
def totalSeconds (lA : LocalAddress F) : F := (lA.timestamp : F) / 10000000

end LocalAddress

/-- Multiply factor (meter). -/
def k : F := 5

/-- The body of the inner loop: whether `lAin` is checked after it. -/
def compare (lA lAin : LocalAddress F) (isChecked : Bool) (s : Estimate F) : Bool × Estimate F :=
  if lAin.mac = lA.mac then (true, s)
  else if isChecked then (isChecked, s)
  else
    let timeDiff : F := lAin.totalSeconds - lA.totalSeconds
    if lAin.seq_n > lA.seq_n ∧ lAin.seq_n - lA.seq_n < 1280 then
      let err_seq_n : F := ((lAin.seq_n - lA.seq_n : ℤ) : F) / 1280
      if timeDiff ≥ 0 then
        if lA.getDistance lAin < k * timeDiff then
          let err_dist : F := lA.getDistance lAin / (k * timeDiff)
          let local_error_avg : F := (err_seq_n + err_dist) / 2
          (true, { s with
            errors := s.errors ++ [local_error_avg]
            divisors := s.divisors ++ [k * timeDiff]
            links := s.links ++ [(lA, lAin)] })
        else (isChecked, s)
      else (isChecked, s)
    else (isChecked, s)

/-- The inner loop, over the entries behind `lA`. -/
def inner (lA : LocalAddress F) :
    List (LocalAddress F × Bool) → Estimate F → List (LocalAddress F × Bool) × Estimate F
  | [], s => ([], s)
  | (lAin, isChecked) :: rest, s =>
    let (isChecked, s) := compare lA lAin isChecked s
    let (rest, s) := inner lA rest s
    ((lAin, isChecked) :: rest, s)

/-- The outer loop, over the entries from `i` on; `n` of them are left. -/
def outer : ℕ → List (LocalAddress F × Bool) → Estimate F → Estimate F
  | n + 1, (lA, false) :: rest, s =>
    let (rest, s) := inner lA rest
      { s with devices_count := s.devices_count + 1, started := s.started ++ [lA] }
    outer n rest s
  | n + 1, (_, true) :: rest, s => outer n rest s
  | _, _, s => s

/-- The double loop. -/
def updateChartErrClick (AddrList : List (LocalAddress F)) : Estimate F :=
  outer AddrList.length (AddrList.map (·, false)) ⟨0, [], [], [], []⟩

/-- The average of the errors; the source divides by zero where there are none, and does not use the
result. -/
def error_avg (errors : List F) : F := errors.foldl (· + ·) 0 / errors.length

/-- The risk before it is formatted. -/
def risk (errors : List F) : F := if errors.length = 0 then 0 else error_avg errors * 100

/-- The risk that is shown, in tenths of a per cent: `ToString("F1")`. -/
def shownRisk [FloorRing F] (errors : List F) : ℤ := ⌊risk errors * 10 + 1 / 2⌋

/-! ## The groups of the loop -/

section
variable {lA lAin : LocalAddress F} {s : Estimate F}

/-- `timeDiff` of the source: the seconds from one localisation to the other. -/
def timeDiff (lA lAin : LocalAddress F) : F := lAin.totalSeconds - lA.totalSeconds

/-- The loop takes `lAin`, of another MAC, for a device that `lA` started. -/
def Linked (lA lAin : LocalAddress F) : Prop :=
  lAin.mac ≠ lA.mac ∧ (lAin.seq_n > lA.seq_n ∧ lAin.seq_n - lA.seq_n < 1280) ∧
    timeDiff lA lAin ≥ 0 ∧ lA.getDistance lAin < k * timeDiff lA lAin

/-- The test of a link can be run. -/
instance (lA lAin : LocalAddress F) : Decidable (Linked lA lAin) :=
  inferInstanceAs (Decidable (_ ∧ _))

/-- The device that `lA` starts takes `lAin`. -/
def takes (lA lAin : LocalAddress F) : Bool := decide (lAin.mac = lA.mac ∨ Linked lA lAin)

/-- The error of a link. -/
def localError (lA lAin : LocalAddress F) : F :=
  (((lAin.seq_n - lA.seq_n : ℤ) : F) / 1280 + lA.getDistance lAin / (k * timeDiff lA lAin)) / 2

/-- What a link adds. -/
def Estimate.link (lA : LocalAddress F) (s : Estimate F) (lAin : LocalAddress F) : Estimate F :=
  { s with
    errors := s.errors ++ [localError lA lAin]
    divisors := s.divisors ++ [k * timeDiff lA lAin]
    links := s.links ++ [(lA, lAin)] }

/-- An entry is checked after the comparison if it was before, or if `lA` takes it. -/
theorem compare_fst (isChecked : Bool) :
    (compare lA lAin isChecked s).1 = (isChecked || takes lA lAin) := by
  unfold compare takes Linked timeDiff
  dsimp only
  split_ifs <;> simp_all

/-- The comparison adds a link for an unchecked entry that is linked. -/
theorem compare_snd (isChecked : Bool) : (compare lA lAin isChecked s).2 =
    if isChecked = false ∧ Linked lA lAin then s.link lA lAin else s := by
  unfold compare Linked Estimate.link localError timeDiff
  dsimp only
  split_ifs <;> simp_all

/-- The entries that are not checked. -/
def unchecked (l : List (LocalAddress F × Bool)) : List (LocalAddress F) :=
  (l.filter (!·.2)).map Prod.fst

omit [Field F] [LinearOrder F] [SquareRoot F] in
@[simp] theorem unchecked_cons_true {l : List (LocalAddress F × Bool)} :
    unchecked ((lA, true) :: l) = unchecked l := rfl

omit [Field F] [LinearOrder F] [SquareRoot F] in
@[simp] theorem unchecked_cons_false {l : List (LocalAddress F × Bool)} :
    unchecked ((lA, false) :: l) = lA :: unchecked l := rfl

/-- The inner loop leaves the entries that `lA` does not take. -/
theorem unchecked_inner (l : List (LocalAddress F × Bool)) (s : Estimate F) :
    unchecked (inner lA l s).1 = others takes lA (unchecked l) := by
  induction l generalizing s with
  | nil => rfl
  | cons e l ih =>
    obtain ⟨lAin, isChecked⟩ := e
    simp only [inner, compare_fst]
    cases isChecked <;> cases htakes : takes lA lAin <;> simp [ih, others, htakes]

/-- The inner loop neither adds nor removes an entry. -/
theorem length_inner (l : List (LocalAddress F × Bool)) (s : Estimate F) :
    (inner lA l s).1.length = l.length := by
  induction l generalizing s with
  | nil => rfl
  | cons e l ih => simp [inner, ih]

/-- It links those of them that belong to another MAC. -/
theorem inner_snd (l : List (LocalAddress F × Bool)) (s : Estimate F) :
    (inner lA l s).2 = ((unchecked l).filter (Linked lA ·)).foldl (Estimate.link lA) s := by
  induction l generalizing s with
  | nil => rfl
  | cons e l ih =>
    obtain ⟨lAin, isChecked⟩ := e
    simp only [inner, compare_snd, ih]
    cases isChecked <;> by_cases hlinked : Linked lA lAin <;> simp [hlinked]

/-- The links of a group. -/
def linksOf (g : LocalAddress F × List (LocalAddress F)) :
    List (LocalAddress F × LocalAddress F) :=
  (g.2.filter (Linked g.1 ·)).map (g.1, ·)

/-- What the groups `gs` add. -/
def Estimate.add (s : Estimate F) (gs : List (LocalAddress F × List (LocalAddress F))) :
    Estimate F where
  devices_count := s.devices_count + gs.length
  errors := s.errors ++ (gs.flatMap linksOf).map fun e => localError e.1 e.2
  divisors := s.divisors ++ (gs.flatMap linksOf).map fun e => k * timeDiff e.1 e.2
  started := s.started ++ gs.map Prod.fst
  links := s.links ++ gs.flatMap linksOf

/-- What a row of links adds. -/
theorem foldl_link (l : List (LocalAddress F)) (s : Estimate F) :
    l.foldl (Estimate.link lA) s = { s with
      errors := s.errors ++ l.map (localError lA)
      divisors := s.divisors ++ l.map fun lAin => k * timeDiff lA lAin
      links := s.links ++ l.map (lA, ·) } := by
  induction l generalizing s with
  | nil => simp
  | cons lAin l ih => simp [ih, Estimate.link]

/-- What `lA` takes holds all its links. -/
theorem linksOf_takes (l : List (LocalAddress F)) :
    linksOf (lA, l.filter (takes lA)) = (l.filter (Linked lA ·)).map (lA, ·) := by
  rw [linksOf, List.filter_filter]
  refine congrArg (List.map (lA, ·)) (List.filter_congr fun lAin _ => ?_)
  by_cases hlinked : Linked lA lAin <;> simp [takes, hlinked]

/-- The outer loop adds the groups of the entries that are not checked. -/
theorem outer_eq (n : ℕ) (l : List (LocalAddress F × Bool)) (s : Estimate F)
    (hn : l.length = n) : outer n l s = s.add (groups takes (unchecked l)) := by
  induction n generalizing l s with
  | zero =>
    obtain rfl := List.length_eq_zero_iff.1 hn
    simp [outer, Estimate.add, unchecked]
  | succ n ih =>
    obtain ⟨⟨lA, isChecked⟩, l, rfl⟩ := List.exists_cons_of_length_eq_add_one hn
    have hl : l.length = n := Nat.succ.inj hn
    cases isChecked with
    | true => rw [outer, ih l s hl, unchecked_cons_true]
    | false =>
      rw [outer]
      dsimp only
      rw [ih _ _ ((length_inner l _).trans hl), unchecked_inner, inner_snd, foldl_link,
        unchecked_cons_false, groups_cons]
      simp [Estimate.add, linksOf_takes, Nat.add_assoc, Nat.add_comm 1, Function.comp_def]

end

/-- The double loop adds the groups of the list. -/
theorem updateChartErrClick_eq (AddrList : List (LocalAddress F)) :
    updateChartErrClick AddrList =
      Estimate.add ⟨0, [], [], [], []⟩ (groups takes AddrList) := by
  have hunchecked : unchecked (AddrList.map (·, false)) = AddrList := by
    simp [unchecked, List.filter_map, Function.comp_def]
  rw [updateChartErrClick, outer_eq _ _ _ (List.length_map ..), hunchecked]

/-! ## The bounds -/

section
variable {lA lAin : LocalAddress F} {AddrList : List (LocalAddress F)}

/-- Links go from entries that start a device. -/
theorem linked_of_mem {gs : List (LocalAddress F × List (LocalAddress F))}
    {e : LocalAddress F × LocalAddress F} (he : e ∈ gs.flatMap linksOf) :
    e.1 ∈ gs.map Prod.fst ∧ Linked e.1 e.2 := by
  obtain ⟨g, hg, he⟩ := List.mem_flatMap.1 he
  obtain ⟨lAin, hlAin, rfl⟩ := List.mem_map.1 he
  exact ⟨List.mem_map_of_mem hg, by simpa using (List.mem_filter.1 hlAin).2⟩

/-- The entries taken from other MACs. -/
theorem map_snd_links (gs : List (LocalAddress F × List (LocalAddress F))) :
    (gs.flatMap linksOf).map Prod.snd = gs.flatMap fun g => g.2.filter (Linked g.1 ·) := by
  rw [List.map_flatMap]
  congr 1
  funext g
  simp [linksOf, Function.comp_def]

/-- The entries that are taken by an entry of their own MAC. -/
def ownEntries (AddrList : List (LocalAddress F)) : List (LocalAddress F) :=
  (groups takes AddrList).flatMap fun g => g.2.filter fun lAin => !decide (Linked g.1 lAin)

/-- Every entry starts a device, is linked to one, or belongs to the MAC that started it. -/
theorem partition_perm (AddrList : List (LocalAddress F)) :
    (firsts takes AddrList ++ (((groups takes AddrList).flatMap linksOf).map Prod.snd ++
      ownEntries AddrList)).Perm AddrList := by
  rw [map_snd_links]
  refine .trans (.append_left _ ?_) (firsts_append_perm AddrList)
  exact flatMap_filter_append_perm (fun lA lAin : LocalAddress F => decide (Linked lA lAin)) _

/-- A device takes the entries of its own MAC. -/
theorem takes_of_mac (lA lAin : LocalAddress F) (h : lA.mac = lAin.mac) :
    takes lA lAin = true := by simp [takes, h]

/-- The source never divides by zero: a link is faster than nothing. -/
theorem Linked.divisor_pos (h : Linked lA lAin) : 0 < k * timeDiff lA lAin :=
  (SquareRoot.sqrt_nonneg _).trans_lt h.2.2.2

variable [IsStrictOrderedRing F]

/-- The error of a link is positive, -/
theorem Linked.localError_pos (h : Linked lA lAin) : 0 < localError lA lAin := by
  have hseq : (0 : F) < ((lAin.seq_n - lA.seq_n : ℤ) : F) / 1280 :=
    div_pos (Int.cast_pos.2 (by have := h.2.1.1; omega)) (by norm_num)
  have hdist : 0 ≤ lA.getDistance lAin / (k * timeDiff lA lAin) :=
    div_nonneg (SquareRoot.sqrt_nonneg _) h.divisor_pos.le
  exact div_pos (add_pos_of_pos_of_nonneg hseq hdist) two_pos

/-- and below one. -/
theorem Linked.localError_lt (h : Linked lA lAin) : localError lA lAin < 1 := by
  have hseq : ((lAin.seq_n - lA.seq_n : ℤ) : F) / 1280 < 1 := by
    rw [div_lt_one (by norm_num)]
    exact_mod_cast h.2.1.2
  have hdist : lA.getDistance lAin / (k * timeDiff lA lAin) < 1 :=
    (div_lt_one h.divisor_pos).2 h.2.2.2
  rw [localError, div_lt_one two_pos]
  linarith

omit [SquareRoot F] in
/-- The sum of errors below one is below their number. -/
theorem sum_nonneg_of_errors {errors : List F} (herrors : ∀ e ∈ errors, 0 < e ∧ e < 1) :
    0 ≤ errors.sum ∧ errors.sum ≤ errors.length ∧ (errors ≠ [] → errors.sum < errors.length) := by
  induction errors with
  | nil => simp
  | cons e errors ih =>
    rw [List.forall_mem_cons] at herrors
    obtain ⟨h0, hle, -⟩ := ih herrors.2
    obtain ⟨hpos, hlt⟩ := herrors.1
    rw [List.sum_cons, List.length_cons, Nat.cast_succ]
    exact ⟨by linarith, by linarith, fun _ => by linarith⟩

omit [SquareRoot F] in
/-- The average of errors below one is below one. -/
theorem risk_bounds {errors : List F} (herrors : ∀ e ∈ errors, 0 < e ∧ e < 1) :
    0 ≤ risk errors ∧ risk errors < 100 := by
  unfold risk
  split
  case isTrue => norm_num
  case isFalse hne =>
    obtain ⟨h0, -, hlt⟩ := sum_nonneg_of_errors herrors
    have hlength : (0 : F) < errors.length := Nat.cast_pos.2 (Nat.pos_of_ne_zero hne)
    have havg : error_avg errors = errors.sum / errors.length := by
      rw [error_avg, ← List.sum_eq_foldl]
    have hlt1 : errors.sum / errors.length < 1 :=
      (div_lt_one hlength).2 (hlt (List.ne_nil_of_length_pos (Nat.pos_of_ne_zero hne)))
    have hnonneg : 0 ≤ errors.sum / errors.length := div_nonneg h0 hlength.le
    rw [havg]
    constructor <;> linarith

/-- The bounds of the double loop. -/
structure WithinBounds (AddrList : List (LocalAddress F)) (s : Estimate F) : Prop where
  count_le : s.devices_count ≤ (AddrList.map (·.mac)).dedup.length
  count_pos : AddrList ≠ [] → 1 ≤ s.devices_count
  length_le : s.devices_count + s.errors.length ≤ AddrList.length
  divisors_ne : ∀ d ∈ s.divisors, d ≠ 0
  errors_mem : ∀ e ∈ s.errors, 0 < e ∧ e < 1

/-- The double loop stays within its bounds. -/
theorem withinBounds (AddrList : List (LocalAddress F)) :
    WithinBounds AddrList (updateChartErrClick AddrList) := by
  rw [updateChartErrClick_eq]
  constructor
  case count_le =>
    simpa [Estimate.add] using length_firsts_le takes_of_mac AddrList
  case count_pos =>
    intro hne
    obtain ⟨lA, rest, rfl⟩ := List.exists_cons_of_ne_nil hne
    simp [Estimate.add]
  case length_le =>
    have hperm := (partition_perm AddrList).length_eq
    rw [List.length_append, List.length_append, length_firsts, List.length_map] at hperm
    simp only [Estimate.add, List.nil_append, List.length_map, Nat.zero_add]
    omega
  case divisors_ne =>
    intro d hd
    obtain ⟨e, he, rfl⟩ := List.mem_map.1 hd
    exact (linked_of_mem he).2.divisor_pos.ne'
  case errors_mem =>
    intro err herr
    obtain ⟨e, he, rfl⟩ := List.mem_map.1 herr
    exact ⟨(linked_of_mem he).2.localError_pos, (linked_of_mem he).2.localError_lt⟩

/-- **The bounds of the estimate.** The risk stays below 100 per cent; what is shown is rounded, and
may be 100.0. -/
theorem updateChartErrClick_bounds [FloorRing F] (AddrList : List (LocalAddress F)) :
    WithinBounds AddrList (updateChartErrClick AddrList) ∧
      0 ≤ risk (updateChartErrClick AddrList).errors ∧
      risk (updateChartErrClick AddrList).errors < 100 ∧
      0 ≤ shownRisk (updateChartErrClick AddrList).errors ∧
      shownRisk (updateChartErrClick AddrList).errors ≤ 1000 := by
  have hbounds := withinBounds AddrList
  obtain ⟨hnonneg, hlt⟩ := risk_bounds hbounds.errors_mem
  refine ⟨hbounds, hnonneg, hlt, Int.floor_nonneg.2 (by positivity), ?_⟩
  have hfloor : shownRisk (updateChartErrClick AddrList).errors < 1001 := by
    refine Int.floor_lt.2 ?_
    push_cast
    linarith
  omega

end

/-- Two entries one second apart, with the longest gap and almost the longest distance. -/
def farApart : List (LocalAddress ℚ) :=
  [⟨['a'], 0, 0, 0, 0⟩, ⟨['b'], 1279, 10000000, 49999 / 10000, 0⟩]

/-- The bounds, for two localisations that are far apart. -/
theorem updateChartErrClick_bounds_farApart :
    WithinBounds farApart (updateChartErrClick farApart) ∧
      0 ≤ risk (updateChartErrClick farApart).errors ∧
      risk (updateChartErrClick farApart).errors < 100 ∧
      0 ≤ shownRisk (updateChartErrClick farApart).errors ∧
      shownRisk (updateChartErrClick farApart).errors ≤ 1000 :=
  updateChartErrClick_bounds farApart

/-- The risk of 99.96 per cent is shown as 100.0. -/
theorem shownRisk_farApart :
    ¬ ∀ AddrList : List (LocalAddress ℚ), WithinBounds AddrList (updateChartErrClick AddrList) ∧
      0 ≤ shownRisk (updateChartErrClick AddrList).errors ∧
      shownRisk (updateChartErrClick AddrList).errors < 1000 := by
  intro hclaim
  exact absurd (hclaim farApart).2.2 (by decide +kernel)

/-! ## What a device stands for -/

/-- The entries of a MAC. -/
def entriesOf (m : List Char) (l : List (LocalAddress F)) : ℕ := l.countP (·.mac = m)

/-- What the devices of an estimate stand for. The entries `own` are those that belong to the MAC
that started the device. -/
structure Partition (AddrList : List (LocalAddress F)) (s : Estimate F)
    (own : List (LocalAddress F)) : Prop where
  count_eq : s.devices_count = s.started.length
  nodup : (s.started.map (·.mac)).Nodup
  perm : (s.started ++ (s.links.map Prod.snd ++ own)).Perm AddrList
  own_mac : ∀ lA ∈ own, lA.mac ∈ s.started.map (·.mac)
  links_mac : ∀ e ∈ s.links, e.1 ∈ s.started ∧ e.2.mac ≠ e.1.mac

/-- Every entry belongs to one device: as the one that started it, by its MAC, or by a link. -/
theorem partition (AddrList : List (LocalAddress F)) :
    Partition AddrList (updateChartErrClick AddrList) (ownEntries AddrList) := by
  rw [updateChartErrClick_eq]
  constructor
  case count_eq => simp [Estimate.add]
  case nodup => exact nodup_map_firsts takes_of_mac AddrList
  case perm => exact partition_perm AddrList
  case own_mac =>
    intro lA hlA
    obtain ⟨g, hg, hlA⟩ := List.mem_flatMap.1 hlA
    obtain ⟨hmem, hnot⟩ := List.mem_filter.1 hlA
    have htakes := of_decide_eq_true (takes_of_mem hg lA hmem)
    rw [htakes.resolve_right (by simpa using hnot)]
    exact List.mem_map_of_mem (List.mem_map_of_mem hg)
  case links_mac =>
    intro e he
    obtain ⟨hstarted, hlinked⟩ := linked_of_mem he
    exact ⟨hstarted, hlinked.1⟩

omit [Field F] [LinearOrder F] [SquareRoot F] in
/-- A MAC starts a device exactly if one of its entries is not linked to another one's. -/
theorem Partition.mem_started_iff {AddrList own : List (LocalAddress F)} {s : Estimate F}
    (h : Partition AddrList s own) (m : List Char) :
    m ∈ s.started.map (·.mac) ↔ entriesOf m (s.links.map Prod.snd) < entriesOf m AddrList := by
  have hcount : entriesOf m s.started + (entriesOf m (s.links.map Prod.snd) + entriesOf m own) =
      entriesOf m AddrList := by
    unfold entriesOf
    rw [← h.perm.countP_eq, List.countP_append, List.countP_append]
  constructor
  · intro hm
    obtain ⟨lA, hlA, hmac⟩ := List.mem_map.1 hm
    have hpos : 0 < entriesOf m s.started := List.countP_pos_iff.2 ⟨lA, hlA, by simpa using hmac⟩
    omega
  · intro hlt
    by_contra hm
    have hstarted : entriesOf m s.started = 0 := List.countP_eq_zero.2 fun lA hlA hmac =>
      hm (List.mem_map.2 ⟨lA, hlA, by simpa using hmac⟩)
    have hown : entriesOf m own = 0 := List.countP_eq_zero.2 fun lA hlA hmac => by
      have hmac' : lA.mac = m := by simpa using hmac
      exact hm (hmac' ▸ h.own_mac lA hlA)
    omega

/-- **The devices.** They partition the entries, each of a MAC of its own that has an entry which is
not linked to another one, and there are as many as such MACs. -/
theorem devices_partition (AddrList : List (LocalAddress F)) :
    ∃ own, Partition AddrList (updateChartErrClick AddrList) own ∧
      (∀ m, m ∈ (updateChartErrClick AddrList).started.map (·.mac) ↔
        entriesOf m ((updateChartErrClick AddrList).links.map Prod.snd) < entriesOf m AddrList) ∧
      (updateChartErrClick AddrList).devices_count = ((AddrList.map (·.mac)).dedup.filter fun m =>
        entriesOf m ((updateChartErrClick AddrList).links.map Prod.snd) <
          entriesOf m AddrList).length := by
  have h := partition AddrList
  refine ⟨_, h, h.mem_started_iff, ?_⟩
  rw [h.count_eq, ← List.length_map (·.mac)]
  refine List.Perm.length_eq ((List.perm_ext_iff_of_nodup h.nodup
    ((List.nodup_dedup _).filter _)).2 fun m => ?_)
  rw [h.mem_started_iff, List.mem_filter, List.mem_dedup]
  refine ⟨fun hlt => ⟨?_, by simpa using hlt⟩, fun hm => by simpa using hm.2⟩
  obtain ⟨lA, hlA, hmac⟩ := List.mem_map.1 ((h.mem_started_iff m).2 hlt)
  exact List.mem_map.2 ⟨lA, h.perm.subset (List.mem_append_left _ hlA), hmac⟩

/-- Two entries of the MAC `b` behind one of `a`: the first can be of the same device, the second
one's number is too far. -/
def linkedTwice : List (LocalAddress ℚ) :=
  [⟨['a'], 0, 0, 0, 0⟩, ⟨['b'], 100, 10000000, 0, 0⟩, ⟨['b'], 5000, 20000000, 0, 0⟩]

/-- The MAC `b` is linked to the device of `a`, and starts one of its own. -/
theorem started_linkedTwice :
    ¬ ∀ AddrList : List (LocalAddress ℚ), AddrList.Pairwise (·.timestamp ≤ ·.timestamp) →
      ∀ e ∈ (updateChartErrClick AddrList).links,
        e.2.mac ∉ (updateChartErrClick AddrList).started.map (·.mac) := by
  intro hclaim
  have hlinked : (⟨['a'], 0, 0, 0, 0⟩, ⟨['b'], 100, 10000000, 0, 0⟩) ∈
      (updateChartErrClick linkedTwice).links := by decide +kernel
  exact hclaim linkedTwice (by decide) _ hlinked (by decide +kernel)

/-! ## Ties -/

/-- Entries at one time are not linked: no distance is below zero. -/
theorem takes_eq_false {lA lAin : LocalAddress F} (htime : lA.timestamp = lAin.timestamp)
    (hmac : lA.mac ≠ lAin.mac) : takes lA lAin = false := by
  refine decide_eq_false fun h => ?_
  have hpos := (h.resolve_left (Ne.symm hmac)).divisor_pos
  simp [timeDiff, LocalAddress.totalSeconds, htime] at hpos

/-- **Ties.** Two lists in order of time that list the entries of each MAC alike give the same
number of devices, wherever simultaneous entries of different MACs stand. -/
theorem devices_count_eq_of_ties {l₁ l₂ : List (LocalAddress F)}
    (hsorted₁ : l₁.Pairwise (·.timestamp ≤ ·.timestamp))
    (hsorted₂ : l₂.Pairwise (·.timestamp ≤ ·.timestamp))
    (hmacs : ∀ m, l₁.filter (·.mac = m) = l₂.filter (·.mac = m)) :
    (updateChartErrClick l₁).devices_count = (updateChartErrClick l₂).devices_count := by
  have hfirsts : (firsts takes l₁).Perm (firsts takes l₂) :=
    firsts_perm (fun _ _ => takes_eq_false) hsorted₁ hsorted₂ hmacs
  simpa [updateChartErrClick_eq, Estimate.add] using hfirsts.length_eq

/-- Two MACs at one time, and an entry of the first one later. -/
def twoMacs : List (LocalAddress ℚ) :=
  [⟨['a'], 0, 0, 0, 0⟩, ⟨['b'], 100, 0, 0, 0⟩, ⟨['a'], 7, 10000000, 0, 0⟩]

/-- The other order. -/
def twoMacs' : List (LocalAddress ℚ) :=
  [⟨['b'], 100, 0, 0, 0⟩, ⟨['a'], 0, 0, 0, 0⟩, ⟨['a'], 7, 10000000, 0, 0⟩]

/-- Exchanging two simultaneous entries of different MACs leaves the count as it is. -/
theorem devices_count_eq_twoMacs :
    (updateChartErrClick twoMacs).devices_count = (updateChartErrClick twoMacs').devices_count := by
  refine devices_count_eq_of_ties (by decide) (by decide) fun m => ?_
  by_cases ha : ['a'] = m
  · subst ha
    decide
  · by_cases hb : ['b'] = m <;> simp [twoMacs, twoMacs', ha, hb]

/-- Two simultaneous entries of one MAC, the later one's number far ahead, and one of another MAC.
-/
def tied : List (LocalAddress ℚ) :=
  [⟨['a'], 0, 0, 0, 0⟩, ⟨['a'], 5000, 0, 0, 0⟩, ⟨['b'], 100, 10000000, 0, 0⟩]

/-- The other order. -/
def tied' : List (LocalAddress ℚ) :=
  [⟨['a'], 5000, 0, 0, 0⟩, ⟨['a'], 0, 0, 0, 0⟩, ⟨['b'], 100, 10000000, 0, 0⟩]

/-- One device or two. -/
theorem devices_count_tied :
    ¬ ∀ l₁ l₂ : List (LocalAddress ℚ), l₁.Perm l₂ →
      l₁.Pairwise (·.timestamp ≤ ·.timestamp) → l₂.Pairwise (·.timestamp ≤ ·.timestamp) →
      (updateChartErrClick l₁).devices_count = (updateChartErrClick l₂).devices_count := by
  intro hclaim
  exact absurd (hclaim tied tied' (.swap ..) (by decide) (by decide)) (by decide +kernel)

end DataWindow

end DetectionSystem

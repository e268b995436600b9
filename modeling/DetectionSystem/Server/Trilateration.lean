import DetectionSystem.Dlib.FindMin
import DetectionSystem.Lib.Plane
import DetectionSystem.Server.Process
import Mathlib.Analysis.SpecialFunctions.Pow.Real
import Mathlib.Algebra.Order.BigOperators.Group.List

/-!
# Trilateration

What `trilaterate` looks for and what it finds, with real numbers for the doubles: the arithmetic is
exact, and nothing here is about how rounding moves a position.

It looks for a minimum of `meanSquareError`. `only_minimiser_iff` says when that is the place of the
device: where the distances of the rows are right, it is a minimum, and the only one exactly if no
line goes through all the receivers and misses the device. Two receivers are always on a line.

What it finds is what the optimiser of dlib returns, which starts at the origin and knows nothing of
the receivers. `located_no_worse_than_origin` is about every call in every run of `process()`.
-/

namespace DetectionSystem

namespace PacketProcessor

/-- The real numbers, with exact powers and roots. -/
noncomputable instance : Double ℝ where
  pow a b := a ^ b
  sqrt := Real.sqrt

/-! ## The error of a position -/

/-- The place of the receiver of a measurement. -/
def receiverOf (m : Measurement ℝ) : ℝ × ℝ := (m.x, m.y)

/-- The distance of the measurement is the one from a place. -/
def Exact (place : ℝ × ℝ) (m : Measurement ℝ) : Prop :=
  m.d = dist place.1 place.2 (m.x : ℝ) (m.y : ℝ)

/-- The power of the code is the square. -/
theorem pow_two_real (a : ℝ) : Double.pow a ((2 : ℤ) : ℝ) = a ^ 2 := by
  change a ^ (((2 : ℤ) : ℝ)) = a ^ 2
  exact_mod_cast Real.rpow_natCast a 2

/-- `dist` is the distance in the plane. -/
theorem dist_real (place : ℝ × ℝ) (x y : ℝ) :
    dist place.1 place.2 x y = √(Plane.sqDist place (x, y)) := by
  unfold dist
  rw [pow_two_real, pow_two_real, Plane.sqDist]
  change √((x - place.1) ^ 2 + (y - place.2) ^ 2) = _
  congr 1
  ring

/-- The same distance is the same squared distance. -/
theorem dist_eq_iff (p q : ℝ × ℝ) (x y : ℝ) :
    dist p.1 p.2 x y = dist q.1 q.2 x y ↔ Plane.sqDist p (x, y) = Plane.sqDist q (x, y) := by
  rw [dist_real, dist_real]
  exact Real.sqrt_inj (Plane.sqDist_nonneg _ _) (Plane.sqDist_nonneg _ _)

/-- The error of a position over measurements. -/
noncomputable def error (ms : List (Measurement ℝ)) (q : ℝ × ℝ) : ℝ :=
  meanSquareError (ms.map (·.x)) (ms.map (·.y)) (ms.map (·.d)) q.1 q.2

/-- The error is the mean of the squares. -/
theorem error_eq (ms : List (Measurement ℝ)) (q : ℝ × ℝ) :
    error ms q =
      (ms.map fun m => (m.d - dist q.1 q.2 (m.x : ℝ) (m.y : ℝ)) ^ 2).sum / ms.length := by
  have hfold : ∀ (ms : List (Measurement ℝ)) (mse : ℝ),
      ms.foldl (fun mse m =>
          mse + Double.pow (m.d - dist q.1 q.2 (m.x : ℝ) (m.y : ℝ)) ((2 : ℤ) : ℝ)) mse =
        mse + (ms.map fun m => (m.d - dist q.1 q.2 (m.x : ℝ) (m.y : ℝ)) ^ 2).sum := by
    intro ms
    induction ms with
    | nil => intro mse; simp
    | cons m ms ih =>
      intro mse
      rw [List.foldl_cons, ih, pow_two_real, List.map_cons, List.sum_cons]
      exact add_assoc _ _ _
  rw [error, meanSquareError, List.zip_map', List.zip_map', List.foldl_map]
  dsimp only
  rw [List.length_map]
  exact congrArg₂ (· / ·) ((hfold ms _).trans (by simp)) (Int.cast_natCast _)

/-- A sum of squares is not negative. -/
theorem sum_sq_nonneg {α : Type} (g : α → ℝ) (as : List α) : 0 ≤ (as.map fun a => g a ^ 2).sum := by
  refine List.sum_nonneg fun e he => ?_
  obtain ⟨a, -, rfl⟩ := List.mem_map.1 he
  exact sq_nonneg _

/-- A sum of squares vanishes only where each of them does. -/
theorem sum_sq_eq_zero_iff {α : Type} (g : α → ℝ) (as : List α) :
    (as.map fun a => g a ^ 2).sum = 0 ↔ ∀ a ∈ as, g a = 0 := by
  induction as with
  | nil => simp
  | cons a as ih =>
    rw [List.map_cons, List.sum_cons, add_eq_zero_iff_of_nonneg (sq_nonneg _) (sum_sq_nonneg g as),
      ih, List.forall_mem_cons, sq_eq_zero_iff]

/-- No error is negative. -/
theorem error_nonneg (ms : List (Measurement ℝ)) (q : ℝ × ℝ) : 0 ≤ error ms q := by
  rw [error_eq]
  exact div_nonneg (sum_sq_nonneg _ _) (Nat.cast_nonneg _)

/-- There is no error exactly where the distances of the measurements are the right ones. -/
theorem error_eq_zero_iff {ms : List (Measurement ℝ)} (hne : ms ≠ []) (q : ℝ × ℝ) :
    error ms q = 0 ↔ ∀ m ∈ ms, Exact q m := by
  have hlen : (ms.length : ℝ) ≠ 0 := by
    exact_mod_cast fun h0 => hne (List.length_eq_zero_iff.1 h0)
  rw [error_eq, div_eq_zero_iff, or_iff_left hlen, sum_sq_eq_zero_iff]
  simp only [sub_eq_zero, Exact]

/-- No position has a smaller error. -/
def IsMinimum (ms : List (Measurement ℝ)) (q : ℝ × ℝ) : Prop := ∀ r, error ms q ≤ error ms r

/-- Where all distances are right from one place, the positions without error are the minima, and
they have the same distances as the place. -/
theorem isMinimum_iff {ms : List (Measurement ℝ)} (hne : ms ≠ []) {place : ℝ × ℝ}
    (hplace : ∀ m ∈ ms, Exact place m) (q : ℝ × ℝ) :
    IsMinimum ms q ↔ ∀ r ∈ receiverOf '' {m | m ∈ ms}, Plane.sqDist q r = Plane.sqDist place r := by
  have hzero : error ms place = 0 := (error_eq_zero_iff hne place).2 hplace
  have hmin : IsMinimum ms q ↔ error ms q = 0 := by
    constructor
    · intro h
      exact le_antisymm (hzero ▸ h place) (error_nonneg ms q)
    · intro h r
      exact h ▸ error_nonneg ms r
  rw [hmin, error_eq_zero_iff hne, Set.forall_mem_image]
  refine forall₂_congr fun m hm => ?_
  rw [Exact, hplace m hm, eq_comm]
  exact dist_eq_iff q place m.x m.y

/-! ## Where the device is -/

variable {p : PacketProcessor ℝ} {env : Environment}

/-- The rows of a hash are those of a device at a place: each receiver is known, and its signal
strength stands for its distance to the place. -/
def SentFrom (p : PacketProcessor ℝ) (esp : List Esp) (place : ℝ × ℝ) (rows : List Packet) : Prop :=
  ∀ row ∈ rows, ∃ m, p.measure esp row = some m ∧ Exact place m

/-- The receivers of rows, as points. -/
def receiverPoints (p : PacketProcessor ℝ) (esp : List Esp) (rows : List Packet) : Set (ℝ × ℝ) :=
  {r | ∃ row ∈ rows, ∃ m, p.measure esp row = some m ∧ r = receiverOf m}

omit env in
/-- The measurements of rows are those of their receivers. -/
theorem OneEach.mem_iff {esp : List Esp} {rows : List Packet} {own : List (Measurement ℝ)}
    (h : OneEach p esp rows own) (m : Measurement ℝ) :
    m ∈ own ↔ ∃ row ∈ rows, p.measure esp row = some m := by
  rw [← List.mem_map, ← List.Perm.mem_iff h, List.mem_map]
  exact ⟨fun hm => ⟨m, hm, rfl⟩, fun ⟨m', hm', heq⟩ => by cases heq; exact hm'⟩

/-- The vectors of the first hash that is located hold the measurements of its rows. -/
theorem exists_own (hn : 0 < p.esp_number) {table : List Packet} {esp : List Esp}
    {devices local_macs : List (Located ℝ)} {c : Call ℝ}
    (hc : .trilaterate c ∈ finalLog (p.process env table esp devices local_macs))
    (hfirst : FirstLocated p env table c.hash) {place : ℝ × ℝ}
    (hplace : SentFrom p esp place (rowsOf table c.hash)) :
    ∃ own, own ≠ [] ∧ OneEach p esp (rowsOf table c.hash) own ∧ (∀ m ∈ own, Exact place m) ∧
      ∀ q : ℝ × ℝ, meanSquareError c.x c.y c.d q.1 q.2 = error own q := by
  obtain ⟨before, own, pos, heach, hne, hbefore, heq⟩ := sourced_finalLog hn c hc
  obtain rfl := hbefore.2 hfirst
  rw [List.nil_append] at heq
  refine ⟨own, hne, heach, fun m hm => ?_, fun q => by rw [heq]; rfl⟩
  obtain ⟨row, hrow, hmeasure⟩ := (heach.mem_iff m).1 hm
  obtain ⟨m', hm', hplace'⟩ := hplace row hrow
  cases hmeasure.symm.trans hm'
  exact hplace'

/-- **The place of a device.** In a call of `process()`, for the first hash that is located, if its
rows are those of a device at some place: what the optimiser is given has its only minimum at that
place exactly if no line goes through all the receivers of the hash and misses the place. The
arithmetic is that of the reals. -/
theorem only_minimum_iff (p : PacketProcessor ℝ) (env : Environment) (hn : 0 < p.esp_number)
    (table : List Packet) (esp : List Esp) (devices local_macs : List (Located ℝ)) (c : Call ℝ)
    (hc : .trilaterate c ∈ finalLog (p.process env table esp devices local_macs))
    (hfirst : FirstLocated p env table c.hash) (place : ℝ × ℝ)
    (hplace : SentFrom p esp place (rowsOf table c.hash)) :
    (∀ q : ℝ × ℝ, (∀ r : ℝ × ℝ, meanSquareError c.x c.y c.d q.1 q.2 ≤
        meanSquareError c.x c.y c.d r.1 r.2) ↔ q = place) ↔
      ¬ Plane.Missed (receiverPoints p esp (rowsOf table c.hash)) place := by
  obtain ⟨own, hne, heach, hexact, herror⟩ := exists_own hn hc hfirst hplace
  have hpoints : receiverOf '' {m | m ∈ own} = receiverPoints p esp (rowsOf table c.hash) := by
    ext r
    constructor
    · rintro ⟨m, hm, rfl⟩
      obtain ⟨row, hrow, hmeasure⟩ := (heach.mem_iff m).1 hm
      exact ⟨row, hrow, m, hmeasure, rfl⟩
    · rintro ⟨row, hrow, m, hmeasure, rfl⟩
      exact ⟨m, (heach.mem_iff m).2 ⟨row, hrow, hmeasure⟩, rfl⟩
  have hmin : ∀ q : ℝ × ℝ, (∀ r : ℝ × ℝ, meanSquareError c.x c.y c.d q.1 q.2 ≤
      meanSquareError c.x c.y c.d r.1 r.2) ↔ IsMinimum own q := by
    simp only [herror, IsMinimum, implies_true]
  rw [← hpoints, ← Plane.determined_iff_not_missed]
  simp only [hmin, isMinimum_iff hne hexact]
  exact ⟨fun h q hq => (h q).1 hq, fun h q => ⟨h q, fun hq r _ => by rw [hq]⟩⟩

/-- The processor of two receivers, with real numbers and an optimiser. -/
noncomputable def twoReceiversReal (find_min : (ℝ → ℝ → ℝ) → ℝ × ℝ → Option (ℝ × ℝ)) :
    PacketProcessor ℝ where
  esp_number := 2
  rssiAtOneMeter := ((-50 : ℤ) : ℝ)
  rssiDiv := ((20 : ℤ) : ℝ)
  isInside _ _ := true
  find_min := find_min

variable (find_min : (ℝ → ℝ → ℝ) → ℝ × ℝ → Option (ℝ × ℝ))

/-- At the strength of `packetOf`, a receiver is ten metres away. -/
theorem getDistanceFromRSSI_packetOf :
    (twoReceiversReal find_min).getDistanceFromRSSI ((-70 : ℤ) : ℝ) = 10 := by
  have hexp : (((-50 : ℤ) : ℝ) - ((-70 : ℤ) : ℝ)) / ((20 : ℤ) : ℝ) = 1 := by norm_num
  change ((10 : ℤ) : ℝ) ^ ((((-50 : ℤ) : ℝ) - ((-70 : ℤ) : ℝ)) / ((20 : ℤ) : ℝ)) = 10
  rw [hexp, Real.rpow_one]
  norm_num

/-- The distance of the origin to the receivers of `twoEsps`. -/
theorem dist_origin (x y : ℤ) (h : x ^ 2 + y ^ 2 = 100) : dist (0 : ℝ) 0 (x : ℝ) (y : ℝ) = 10 := by
  have hsq : Plane.sqDist ((0, 0) : ℝ × ℝ) ((x : ℝ), (y : ℝ)) = 10 ^ 2 := by
    have : ((x ^ 2 + y ^ 2 : ℤ) : ℝ) = 100 := by exact_mod_cast congrArg (Int.cast : ℤ → ℝ) h
    push_cast at this
    simp only [Plane.sqDist]
    linear_combination this
  have := dist_real (0, 0) x y
  rw [hsq, Real.sqrt_sq (by norm_num)] at this
  exact this

/-- The rows of `packetOf` are measured at the two receivers, ten metres away. -/
theorem measure_packetOf {row : Packet} (hrow : row ∈ rowsOf [packetOf 0 7, packetOf 1 7] 7) :
    (twoReceiversReal find_min).measure twoEsps row = some ⟨-6, 8, 10⟩ ∨
      (twoReceiversReal find_min).measure twoEsps row = some ⟨8, -6, 10⟩ := by
  rcases (by simpa [rowsOf, packetOf] using hrow : row = packetOf 0 7 ∨ row = packetOf 1 7) with
    rfl | rfl
  · refine .inl ?_
    rw [← getDistanceFromRSSI_packetOf find_min]
    rfl
  · refine .inr ?_
    rw [← getDistanceFromRSSI_packetOf find_min]
    rfl

/-- The rows of `packetOf` are those of a device at the origin. -/
theorem sentFrom_origin : SentFrom (twoReceiversReal find_min) twoEsps (0, 0)
    (rowsOf [packetOf 0 7, packetOf 1 7] 7) := by
  intro row hrow
  rcases measure_packetOf find_min hrow with h | h
  · exact ⟨_, h, (dist_origin (-6) 8 (by norm_num)).symm⟩
  · exact ⟨_, h, (dist_origin 8 (-6) (by norm_num)).symm⟩

/-- The line through the two receivers misses the origin. -/
theorem missed_origin : Plane.Missed
    (receiverPoints (twoReceiversReal find_min) twoEsps (rowsOf [packetOf 0 7, packetOf 1 7] 7))
    (0, 0) := by
  refine ⟨1, 1, 2, ?_, by norm_num, .inl one_ne_zero⟩
  rintro r ⟨row, hrow, m, hm, rfl⟩
  rcases measure_packetOf find_min hrow with h | h
  · cases hm.symm.trans h
    norm_num [receiverOf]
  · cases hm.symm.trans h
    norm_num [receiverOf]

/-- Hash 7 is located. -/
theorem exists_call : ∃ c : Call ℝ, c.hash = 7 ∧ .trilaterate c ∈
    finalLog ((twoReceiversReal find_min).process calm [packetOf 0 7, packetOf 1 7] twoEsps
      [] []) := by
  have hok : Serviceable calm [packetOf 0 7, packetOf 1 7] twoEsps :=
    ⟨fun _ => rfl, by decide, by decide⟩
  obtain ⟨t, ht, s, marked, ms, h, hafter, -⟩ := Ends.exists_ok <|
    (process_ends (twoReceiversReal find_min) calm two_pos [packetOf 0 7, packetOf 1 7] twoEsps
      [] []).mono (fun _ h => h) fun _ hbad => hbad.2 hok
  have hreaches : Threshold 2 (receivers [packetOf 0 7, packetOf 1 7] 7) := by decide
  obtain ⟨ms, count, row, isLocal, hlog⟩ := h.once 7 (by decide) hreaches
  refine ⟨call 7 ms count (row.x, row.y), rfl, ?_⟩
  rw [ht]
  change _ ∈ t.log
  rw [hafter.log, List.append_nil]
  refine List.mem_of_mem_filter (p := (·.hash = 7)) ?_
  rw [hlog]
  exact List.mem_cons_self

/-- Hash 7 is the first one to be located. -/
theorem firstLocated_seven :
    FirstLocated (twoReceiversReal find_min) calm [packetOf 0 7, packetOf 1 7] 7 := by
  intro row hrow
  have hnone :
      (retrievedPackets calm [packetOf 0 7, packetOf 1 7]).takeWhile (·.hash ≠ 7) = [] := by
    decide
  rw [hnone] at hrow
  cases hrow

/-- With two receivers, the device has a mirror image. -/
theorem only_minimum_iff_twoReceivers : ∃ c : Call ℝ,
    ¬ ∀ q : ℝ × ℝ, (∀ r : ℝ × ℝ, meanSquareError c.x c.y c.d q.1 q.2 ≤
        meanSquareError c.x c.y c.d r.1 r.2) ↔ q = (0, 0) := by
  obtain ⟨c, hhash, hc⟩ := exists_call fun _ start => some start
  refine ⟨c, fun hall =>
    (only_minimum_iff _ calm two_pos _ twoEsps [] [] c hc ?_ (0, 0) ?_).1 hall ?_⟩
  · rw [hhash]
    exact firstLocated_seven _
  · rw [hhash]
    exact sentFrom_origin _
  · rw [hhash]
    exact missed_origin _

/-! ## What the optimiser finds -/

section
variable {K : Type} [Field K] [LinearOrder K]

/-- A function of two coordinates, with the bound and the step that `trilaterate` passes. -/
def objective (f : K → K → K) : Dlib.Objective (Fin 2) K :=
  ⟨fun m => f (m 0) (m 1), -1, ((1 / 10 ^ 7 : ℚ) : K)⟩

/-- The call of the optimiser in `trilaterate`, as far as a number of rounds. -/
def optimise (M : Dlib.Machine K) (rounds : ℕ) (f : K → K → K) (start : K × K) :
    Dlib.Outcome (Fin 2) K :=
  (objective f).find_min_using_approximate_derivatives M ((1 / 10 ^ 7 : ℚ) : K)
    ![start.1, start.2] rounds

/-- The loop of the optimiser when it starts at the origin. -/
def atOrigin (f : K → K → K) : Dlib.Search (Fin 2) K :=
  (objective f).start ((1 / 10 ^ 7 : ℚ) : K) ![0, 0]

/-- The position that `trilaterate` takes from the call; `none` where it throws. -/
def foundBy (M : Dlib.Machine K) (rounds : ℕ) (f : K → K → K) (start : K × K) : Option (K × K) :=
  match optimise M rounds f start with
  | .returned _ x => some (x 0, x 1)
  | _ => none

end

/-- **The position of a device.** In every call of `process()` with the optimiser of dlib, for every
hash that is located: the optimiser throws, or one of its line searches gives up, or the position
has no greater error than the origin. The arithmetic is that of the reals, but for comparisons of a
machine that rounds: a search that is stuck gives up. -/
theorem no_worse_than_origin (M : Dlib.Machine ℝ) (heps : 0 ≤ M.epsilon) (n : ℕ)
    (p : PacketProcessor ℝ) (hp : p.find_min = foundBy M (n + 1)) (env : Environment)
    (hn : 0 < p.esp_number) (table : List Packet) (esp : List Esp)
    (devices local_macs : List (Located ℝ)) (c : Call ℝ)
    (hc : .trilaterate c ∈ finalLog (p.process env table esp devices local_macs))
    (hrounds : meanSquareError c.x c.y c.d 0 0 + 1 ≤ n * (1 / 10 ^ 7)) :
    (∃ x, optimise M (n + 1) (meanSquareError c.x c.y c.d) (0, 0) = .thrown x) ∨
      (∃ rounds s, (objective (meanSquareError c.x c.y c.d)).loop M rounds
          (atOrigin (meanSquareError c.x c.y c.d)) = .running s ∧
        (objective (meanSquareError c.x c.y c.d)).GivesUp M s) ∨
      meanSquareError c.x c.y c.d c.pos_x c.pos_y ≤ meanSquareError c.x c.y c.d 0 0 := by
  obtain ⟨before, own, pos, -, -, -, heq⟩ := sourced_finalLog hn c hc
  have hpos : (c.pos_x, c.pos_y) =
      (foundBy M (n + 1) (meanSquareError c.x c.y c.d) (0, 0)).getD pos := by
    have hsearch : p.search (before ++ own) =
        foundBy M (n + 1) (meanSquareError c.x c.y c.d) (0, 0) := by
      rw [search, hp, heq, Int.cast_zero]
      rfl
    rw [← hsearch, heq]
    rfl
  generalize meanSquareError c.x c.y c.d = f at hpos hrounds ⊢
  by_cases hkeep : Dlib.Objective.Keeps M (objective f) (atOrigin f)
  · cases hout : optimise M (n + 1) f (0, 0) with
    | thrown x => exact .inl ⟨x, rfl⟩
    | running s =>
      exact absurd hout
        (Dlib.Objective.not_running heps hkeep (by simpa [objective] using hrounds) s)
    | returned v x =>
      refine .inr (.inr ?_)
      rw [foundBy, hout] at hpos
      obtain ⟨hx, hy⟩ := Prod.mk.inj hpos
      have hv : v = f (x 0) (x 1) := Dlib.Objective.value_returned heps hkeep.goes hout
      have hbest : v ≤ f 0 0 := Dlib.Objective.returned_le heps hkeep hout
      rw [hx, hy]
      exact hv ▸ hbest
  · refine .inr (.inl ?_)
    unfold Dlib.Objective.Keeps at hkeep
    push Not at hkeep
    exact hkeep

/-- The machine of the doubles, with exact results. -/
noncomputable def realMachine : Dlib.Machine ℝ :=
  ⟨((1 / 2 ^ 52 : ℚ) : ℝ), Real.sqrt, fun _ => true, fun _ => true, fun x y => x = y⟩

/-- The optimiser starts at the place of the device. -/
theorem no_worse_than_origin_twoReceivers : ∃ c : Call ℝ,
    (∃ x, optimise realMachine (10 ^ 7 + 1) (meanSquareError c.x c.y c.d) (0, 0) = .thrown x) ∨
      (∃ rounds s, (objective (meanSquareError c.x c.y c.d)).loop realMachine rounds
          (atOrigin (meanSquareError c.x c.y c.d)) = .running s ∧
        (objective (meanSquareError c.x c.y c.d)).GivesUp realMachine s) ∨
      meanSquareError c.x c.y c.d c.pos_x c.pos_y ≤ 0 := by
  obtain ⟨c, hhash, hc⟩ := exists_call (foundBy realMachine (10 ^ 7 + 1))
  obtain ⟨own, hne, -, hexact, herror⟩ := exists_own two_pos hc
    (by rw [hhash]; exact firstLocated_seven _) (by rw [hhash]; exact sentFrom_origin _)
  have hzero : meanSquareError c.x c.y c.d 0 0 = 0 :=
    (herror (0, 0)).trans ((error_eq_zero_iff hne _).2 hexact)
  have h := no_worse_than_origin realMachine (by norm_num [realMachine]) (10 ^ 7) _ rfl calm two_pos
    _ twoEsps [] [] c hc (by rw [hzero]; norm_num)
  rw [hzero] at h
  exact ⟨c, h⟩

end PacketProcessor

end DetectionSystem

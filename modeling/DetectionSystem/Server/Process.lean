import DetectionSystem.Server.ProcessLoop
import Mathlib.Data.Nat.Sqrt

/-!
# What `process()` does to the database

`process_effect` is the effect of a call on the tables, hash by hash, when nothing makes it exit:
a hash with enough receivers is located once, stored at most once and removed; another one is kept
or removed as a whole. It is what lets the loop go over rows although it means hashes.

`located_from_own_rows_iff` is about the position itself. The vectors are cleared once for all
hashes, so that a hash is located from its own rows exactly if the loop meets no other hash with
enough receivers before it.
-/

namespace DetectionSystem

namespace PacketProcessor

variable {F : Type} [Double F] {p : PacketProcessor F} {env : Environment}

/-! ## The effect of a call -/

/-- An address begins with two hexadecimal digits. -/
def HexAddr (addr : List Char) : Prop :=
  ∃ a b rest, addr = a :: b :: rest ∧ (hexDigit a).isSome ∧ (hexDigit b).isSome

/-- A text that begins with a hexadecimal digit is a number, -/
theorem hexNumber_isSome {a : Char} (ha : (hexDigit a).isSome) (s : List Char) :
    (hexNumber (a :: s)).isSome := by
  unfold hexNumber
  rw [List.map_cons, List.takeWhile_cons_of_pos ha]
  rfl

/-- and is read as one. -/
theorem stol16_isSome {a : Char} (ha : (hexDigit a).isSome) (s : List Char) :
    (stol16 (a :: s)).isSome := by
  have hspace : isSpace a = false := by
    unfold hexDigit at ha
    unfold isSpace
    rw [decide_eq_false_iff_not]
    intro h
    rw [if_neg (by omega), if_neg (by omega), if_neg (by omega)] at ha
    exact absurd ha (by simp)
  unfold stol16
  rw [List.dropWhile_cons_of_neg (by simp [hspace])]
  split
  case h_1 heq => cases heq; exact absurd ha (by decide)
  case h_2 heq => cases heq; exact absurd ha (by decide)
  case h_3 =>
    rw [Option.isSome_map]
    exact hexNumber_isSome ha s

/-- The first two characters of an address can be read. -/
theorem HexAddr.stol16_isSome {addr : List Char} (h : HexAddr addr) :
    (stol16 (addr.take 2)).isSome := by
  obtain ⟨a, b, rest, rfl, ha, -⟩ := h
  exact PacketProcessor.stol16_isSome ha _

/-- While no row is marked, every receiver of a hash counts. -/
theorem receivers_of_unmarked {table : List Packet} (h0 : ∀ row ∈ table, row.to_be_deleted = 0)
    (h : ℕ) : receivers table h = ((rowsOf table h).map (·.esp_id)).dedup.length := by
  rw [receivers_eq, List.filter_eq_self.2]
  intro row hrow
  simpa using h0 row (List.mem_of_mem_filter hrow)

/-- A hash comes from enough receivers. -/
def EnoughReceivers (p : PacketProcessor F) (table : List Packet) (h : ℕ) : Prop :=
  Threshold p.esp_number ((rowsOf table h).map (·.esp_id)).dedup.length

/-- The effect of a call on the tables, hash by hash, and on the divisors it uses. -/
structure ProcessEffect (p : PacketProcessor F) (table : List Packet)
    (devices local_macs : List (Located F)) (t : State F) : Prop where
  /-- A hash with enough receivers is located exactly once; that stores a row exactly if the
  position is inside the coverage area. All its rows are removed. -/
  located : ∀ h, EnoughReceivers p table h →
    LocatedOnce p h (t.log.filter (·.hash = h)) ∧ rowsOf t.packet h = []
  /-- Another hash has no effect, and its rows are kept as they are or all removed. -/
  ignored : ∀ h, ¬ EnoughReceivers p table h →
    t.log.filter (·.hash = h) = [] ∧
      (rowsOf t.packet h = rowsOf table h ∨ rowsOf t.packet h = [])
  /-- What is in the log is all that was inserted. -/
  devices : t.devices = devices ++ t.log.filterMap Effect.deviceRow
  local_macs : t.local_macs = local_macs ++ t.log.filterMap Effect.localMacRow
  /-- No marked row remains. -/
  unmarked : ∀ row ∈ t.packet, row.to_be_deleted = 0
  /-- Neither the row count nor the number of measurements is a divisor zero. -/
  divisors : ∀ c, .trilaterate c ∈ t.log → c.count ≠ 0 ∧ c.d.length ≠ 0

/-- The last statement removes exactly the rows of the marked hashes. -/
theorem removed_eq {table : List Packet} (h0 : ∀ row ∈ table, row.to_be_deleted = 0)
    (marked : List ℕ) :
    (table.map (markRow marked)).filter (·.to_be_deleted ≠ 1) =
      table.filter (·.hash ∉ marked) := by
  induction table with
  | nil => rfl
  | cons row table ih =>
    rw [List.forall_mem_cons] at h0
    by_cases h : row.hash ∈ marked
    · have hmark : (markRow marked row).to_be_deleted = 1 := by simp [markRow, h]
      simpa [h, hmark] using ih h0.2
    · have hmark : markRow marked row = row := by simp [markRow, h]
      simpa [h, hmark, h0.1] using ih h0.2

/-- Removing the marked hashes leaves the rows of the others. -/
theorem rowsOf_filter_notMem (table : List Packet) (marked : List ℕ) (h : ℕ) :
    rowsOf (table.filter (·.hash ∉ marked)) h = if h ∈ marked then [] else rowsOf table h := by
  unfold rowsOf
  rw [List.filter_filter]
  split
  case isTrue hm =>
    refine List.filter_eq_nil_iff.2 fun row _ => ?_
    simp only [Bool.and_eq_true, decide_eq_true_eq, not_and, not_not]
    intro hrow
    exact hrow ▸ hm
  case isFalse hm =>
    refine List.filter_congr fun row _ => ?_
    by_cases hrow : row.hash = h <;> simp [hrow, hm]

/-- What the loop leaves after all the rows is the effect, once the marked rows are removed. -/
theorem Inv.processEffect {table rows : List Packet} {esp : List Esp}
    {devices local_macs : List (Located F)} {s t : State F} {marked : List ℕ}
    {ms : List (Measurement F)} (h : Inv p table esp devices local_macs rows rows s marked ms)
    (hn : 0 < p.esp_number) (hperm : rows.Perm table) (h0 : ∀ row ∈ table, row.to_be_deleted = 0)
    (hafter : After [] s t) (hpacket : t.packet = s.packet.filter (·.to_be_deleted ≠ 1)) :
    ProcessEffect p table devices local_macs t := by
  have hlog : t.log = s.log := by simpa using hafter.log
  have hreach : ∀ h', EnoughReceivers p table h' ↔ p.Reaches table h' := by
    intro h'
    rw [EnoughReceivers, Reaches, receivers_of_unmarked h0]
  have hrows : ∀ h', rowsOf t.packet h' = if h' ∈ marked then [] else rowsOf table h' := by
    intro h'
    rw [hpacket, h.packet, removed_eq h0, rowsOf_filter_notMem]
  exact {
    located := by
      intro h' hr
      rw [hreach] at hr
      -- a hash with receivers has a row, so that the loop has met it
      obtain ⟨row, hrow⟩ := List.exists_mem_of_ne_nil _ (rowsOf_ne_nil (hr.pos hn).ne')
      obtain ⟨hmem, hhash⟩ := List.mem_filter.1 hrow
      have hseen : h' ∈ rows.map (·.hash) :=
        List.mem_map.2 ⟨row, hperm.mem_iff.2 hmem, of_decide_eq_true hhash⟩
      exact ⟨hlog ▸ h.once h' hseen hr, by rw [hrows, if_pos (h.reached h' hseen hr)]⟩
    ignored := by
      intro h' hr
      rw [hreach] at hr
      refine ⟨hlog ▸ h.idle h' fun _ => hr, ?_⟩
      rw [hrows]
      split
      case isTrue => exact .inr rfl
      case isFalse => exact .inl rfl
    devices := by
      rw [hafter.devices, h.devices, hlog]
      simp
    local_macs := by
      rw [hafter.local_macs, h.local_macs, hlog]
      simp
    unmarked := by
      intro row hrow
      rw [hpacket, h.packet, removed_eq h0] at hrow
      exact h0 row (List.mem_of_mem_filter hrow)
    divisors := by
      intro c hc
      obtain ⟨before, own, pos, -, hown, -, heq⟩ := h.sourced c (hlog ▸ hc)
      have hlen : own.length ≠ 0 := fun hl => hown (List.length_eq_zero_iff.1 hl)
      rw [heq]
      refine ⟨hlen, ?_⟩
      simp only [call, List.length_map, List.length_append]
      omega }

/-- **The effect of `process()`**, for every table without marked rows, whatever the order of its
rows and the readings of the clock. -/
theorem process_effect (p : PacketProcessor F) (env : Environment) (table : List Packet)
    (esp : List Esp) (devices local_macs : List (Located F))
    (hn : 1 ≤ p.esp_number ∧ p.esp_number ≤ 8) (h0 : ∀ row ∈ table, row.to_be_deleted = 0)
    (hsql : ∀ k, env.sqlOk k = true) (hesp : ∀ row ∈ table, ∃ e ∈ esp, e.esp_id = row.esp_id)
    (haddr : ∀ row ∈ table, HexAddr row.addr) :
    ∃ t, p.process env table esp devices local_macs = .ok t ∧
      ProcessEffect p table devices local_macs t := by
  have hok : Serviceable env table esp :=
    ⟨hsql, hesp, fun row hrow => (haddr row hrow).stol16_isSome⟩
  obtain ⟨t, ht, s, marked, ms, h, hafter, hpacket⟩ := Ends.exists_ok <|
    (process_ends p env hn.1 table esp devices local_macs).mono (fun _ h => h)
      fun _ hbad => hbad.2 hok
  exact ⟨t, ht, h.processEffect hn.1 (env.order_perm _ _) h0 hafter hpacket⟩

/-! A concrete processor with two receivers on opposite sides of the origin. Whole numbers stand for
the doubles: the powers and quotients it takes are exact. Its optimiser stays at its start, which is
where all the distances are met. -/

/-- Integers for doubles, where a run does not compute with them. -/
instance : Double ℤ where
  pow a b := a ^ b.toNat
  sqrt a := a.toNat.sqrt

/-- The processor of two receivers. -/
def twoReceivers : PacketProcessor ℤ where
  esp_number := 2
  rssiAtOneMeter := -50
  rssiDiv := 20
  isInside x y := -6 ≤ x ∧ x ≤ 8 ∧ -6 ≤ y ∧ y ≤ 8
  find_min _ start := some start

/-- The two receivers. -/
def twoEsps : List Esp :=
  [⟨.of 0xaa 0 0 0 0 0, 0, -6, 8⟩, ⟨.of 0xbb 0 0 0 0 0, 1, 8, -6⟩]

/-- A database that never fails and returns rows in table order. -/
def calm : Environment where
  sqlOk _ := true
  order _ rows := rows
  order_perm _ rows := .refl rows
  time _ := 100

/-- A packet at ten metres from its receiver. -/
def packetOf (esp_id hash : ℕ) : Packet := ⟨esp_id, 90, -70, ['a', '8', ':', '0', '0'], hash, 0⟩

/-- Hash 7 has both receivers, hash 9 one. -/
theorem process_effect_twoReceivers :
    ∃ t, twoReceivers.process calm [packetOf 0 9, packetOf 0 7, packetOf 1 7] twoEsps [] [] = .ok t ∧
      ProcessEffect twoReceivers [packetOf 0 9, packetOf 0 7, packetOf 1 7] [] [] t :=
  process_effect twoReceivers calm _ twoEsps [] [] (by decide) (by decide) (fun _ => rfl)
    (by decide) (by
    have hhex : HexAddr ['a', '8', ':', '0', '0'] := ⟨'a', '8', _, rfl, by decide, by decide⟩
    simp [packetOf, hhex])

/-! ## The rows a hash is located from -/

/-- The optimiser succeeds, and its result depends on the multiset of measurements only. -/
def FixedSearch (p : PacketProcessor F) : Prop :=
  ∀ ms ms' : List (Measurement F), ms.Perm ms' →
    ∃ pos, p.search ms = some pos ∧ p.search ms' = some pos

/-- The log when `process()` returns or the program exits in it. -/
def finalLog : Except (State F) (State F) → List (Effect F)
  | .ok t => t.log
  | .error t => t.log

/-- The vectors of a call are, up to order, one measurement for each row of its hash. -/
def FromOwnRows (p : PacketProcessor F) (esp : List Esp) (table : List Packet) (c : Call F) : Prop :=
  ∃ ms, OneEach p esp (rowsOf table c.hash) ms ∧ Holds c.x c.y c.d ms

/-- In the order in which the loop goes over the table, no row of a hash that reaches the threshold
comes before the first row of `h`. -/
def FirstLocated (p : PacketProcessor F) (env : Environment) (table : List Packet) (h : ℕ) : Prop :=
  ∀ row ∈ (retrievedPackets env table).takeWhile (·.hash ≠ h), ¬ p.Reaches table row.hash

/-- Whether a hash is the first one to be located can be decided. -/
instance (p : PacketProcessor F) (env : Environment) (table : List Packet) (h : ℕ) :
    Decidable (FirstLocated p env table h) :=
  inferInstanceAs (Decidable (∀ row ∈ _, ¬ _))

/-- However a call of `process()` ends, its calls of `trilaterate` are sourced. -/
theorem sourced_finalLog (hn : 0 < p.esp_number) {table : List Packet} {esp : List Esp}
    {devices local_macs : List (Located F)} :
    Sourced p table esp (retrievedPackets env table)
      (finalLog (p.process env table esp devices local_macs)) := by
  have h := process_ends p env hn table esp devices local_macs
  cases hproc : p.process env table esp devices local_macs with
  | error t => rw [hproc] at h; exact h.1
  | ok t =>
    rw [hproc] at h
    obtain ⟨s, marked, ms, hinv, hafter, -⟩ := h
    have hlog : t.log = s.log := by simpa using hafter.log
    rw [finalLog, hlog]
    exact hinv.sourced

/-- A call is on its own rows exactly if its hash is the first one that is located, and then its
position is what the optimiser finds on them. -/
theorem fromOwnRows_iff (hn : 0 < p.esp_number) {table : List Packet} {esp : List Esp}
    {devices local_macs : List (Located F)} {c : Call F}
    (hc : .trilaterate c ∈ finalLog (p.process env table esp devices local_macs)) :
    (FromOwnRows p esp table c ↔ FirstLocated p env table c.hash) ∧
      (FirstLocated p env table c.hash → ∃ own pos, OneEach p esp (rowsOf table c.hash) own ∧
        (c.pos_x, c.pos_y) = p.position own pos) := by
  obtain ⟨before, own, pos, heach, -, hbefore, heq⟩ := sourced_finalLog hn c hc
  refine ⟨⟨?_, ?_⟩, ?_⟩
  · intro hown
    obtain ⟨ms, hms, hholds⟩ := hown
    refine hbefore.1 (List.length_eq_zero_iff.1 ?_)
    have hlen : (before ++ own).length = ms.length := by
      have := congrArg List.length hholds.d
      rw [heq] at this
      simpa [call] using this
    rw [List.length_append, hms.length_eq, heach.length_eq] at hlen
    omega
  · intro hfirst
    obtain rfl := hbefore.2 hfirst
    refine ⟨own, heach, ?_⟩
    rw [heq]
    exact ⟨rfl, rfl, rfl⟩
  · intro hfirst
    obtain rfl := hbefore.2 hfirst
    exact ⟨own, pos, heach, by rw [heq]; rfl⟩

/-- The measurements of the same rows are the same, up to order. -/
theorem OneEach.perm {esp : List Esp} {rows rows' : List Packet} {own own' : List (Measurement F)}
    (h : OneEach p esp rows own) (h' : OneEach p esp rows' own') (hrows : rows.Perm rows') :
    own.Perm own' := by
  have := (h.trans (hrows.map _)).trans h'.symm
  simpa [List.filterMap_map] using this.filterMap id

/-- **Located from its own rows.** Two calls of `trilaterate` for the same rows of a hash, in two
tables with whatever other rows, are on exactly these rows and give the same position if and only
if in both tables the hash is the first one that is located. -/
theorem located_from_own_rows_iff (p : PacketProcessor F) (env₁ env₂ : Environment)
    (table₁ table₂ : List Packet) (esp : List Esp)
    (devices₁ local_macs₁ devices₂ local_macs₂ : List (Located F)) (c₁ c₂ : Call F)
    (hn : 0 < p.esp_number) (hsearch : p.FixedSearch) (hhash : c₁.hash = c₂.hash)
    (hrows : (rowsOf table₁ c₁.hash).Perm (rowsOf table₂ c₂.hash))
    (hc₁ : .trilaterate c₁ ∈ finalLog (p.process env₁ table₁ esp devices₁ local_macs₁))
    (hc₂ : .trilaterate c₂ ∈ finalLog (p.process env₂ table₂ esp devices₂ local_macs₂)) :
    (FromOwnRows p esp table₁ c₁ ∧ FromOwnRows p esp table₂ c₂ ∧
        (c₁.pos_x, c₁.pos_y) = (c₂.pos_x, c₂.pos_y)) ↔
      FirstLocated p env₁ table₁ c₁.hash ∧ FirstLocated p env₂ table₂ c₁.hash := by
  obtain ⟨hown₁, hpos₁⟩ := fromOwnRows_iff hn hc₁
  obtain ⟨hown₂, hpos₂⟩ := fromOwnRows_iff hn hc₂
  rw [hown₁, hown₂, hhash]
  constructor
  · exact fun h => ⟨h.1, h.2.1⟩
  · intro h
    obtain ⟨h₁, h₂⟩ := h
    refine ⟨h₁, h₂, ?_⟩
    obtain ⟨own₁, pos₁, heach₁, heq₁⟩ := hpos₁ (hhash ▸ h₁)
    obtain ⟨own₂, pos₂, heach₂, heq₂⟩ := hpos₂ h₂
    obtain ⟨pos, hs₁, hs₂⟩ := hsearch own₁ own₂ (heach₁.perm heach₂ hrows)
    rw [heq₁, heq₂, position, position, hs₁, hs₂]
    rfl

/-- The call for a hash that only the two receivers of `twoEsps` hold. -/
def callOf (hash : ℕ) : Call ℤ := ⟨hash, [-6, 8], [8, -6], [10, 10], 2, 0, 0⟩

/-- A hash with too few receivers does not interfere. -/
theorem located_from_own_rows_iff_twoReceivers :
    FromOwnRows twoReceivers twoEsps [packetOf 0 7, packetOf 1 7] (callOf 7) ∧
      FromOwnRows twoReceivers twoEsps [packetOf 0 9, packetOf 0 7, packetOf 1 7] (callOf 7) ∧
      ((callOf 7).pos_x, (callOf 7).pos_y) = ((callOf 7).pos_x, (callOf 7).pos_y) :=
  (located_from_own_rows_iff twoReceivers calm calm [packetOf 0 7, packetOf 1 7]
    [packetOf 0 9, packetOf 0 7, packetOf 1 7] twoEsps [] [] [] [] (callOf 7) (callOf 7) (by decide)
    (fun _ _ _ => ⟨(0, 0), rfl, rfl⟩) rfl (by decide) (by decide) (by decide)).2
    ⟨by decide, by decide⟩

/-- The call for hash 9 once hash 7 has been located by the same receivers. -/
def lateCall : Call ℤ := ⟨9, [-6, 8, -6, 8], [8, -6, 8, -6], [10, 10, 10, 10], 2, 0, 0⟩

/-- Another hash with enough receivers does, when it comes first: its rows are in the vectors. -/
theorem located_from_other_rows :
    ¬ ∀ (F : Type) [Double F] (p : PacketProcessor F) (env₁ env₂ : Environment)
        (table₁ table₂ : List Packet) (esp : List Esp)
        (devices₁ local_macs₁ devices₂ local_macs₂ : List (Located F)) (c₁ c₂ : Call F),
        0 < p.esp_number → p.FixedSearch → c₁.hash = c₂.hash →
        (rowsOf table₁ c₁.hash).Perm (rowsOf table₂ c₂.hash) →
        p.Reaches table₁ c₁.hash → p.Reaches table₂ c₂.hash →
        .trilaterate c₁ ∈ finalLog (p.process env₁ table₁ esp devices₁ local_macs₁) →
        .trilaterate c₂ ∈ finalLog (p.process env₂ table₂ esp devices₂ local_macs₂) →
        FromOwnRows p esp table₁ c₁ ∧ FromOwnRows p esp table₂ c₂ ∧
          (c₁.pos_x, c₁.pos_y) = (c₂.pos_x, c₂.pos_y) := by
  intro hclaim
  have hmem : .trilaterate lateCall ∈
      finalLog (twoReceivers.process calm [packetOf 0 7, packetOf 1 7, packetOf 0 9, packetOf 1 9]
        twoEsps [] []) := by decide
  have hown := (hclaim ℤ twoReceivers calm calm
    [packetOf 0 7, packetOf 1 7, packetOf 0 9, packetOf 1 9] [packetOf 0 9, packetOf 1 9] twoEsps
    [] [] [] [] lateCall (callOf 9) (by decide) (fun _ _ _ => ⟨(0, 0), rfl, rfl⟩) rfl (by decide)
    (by decide) (by decide) hmem (by decide)).1
  exact absurd ((fromOwnRows_iff (by decide) hmem).1.1 hown) (by decide)

/-! ## One measurement for each receiver -/

/-- The vectors of a call end with one measurement for each of the rows `rows`, which are the rows
of its hash; these come from different receivers, as many as the threshold was compared with. -/
def OnePerReceiver (p : PacketProcessor F) (esp : List Esp) (table : List Packet) (c : Call F) :
    Prop :=
  ∃ (rows : List Packet) (before own : List (Measurement F)),
    rows.Perm (rowsOf table c.hash) ∧ own.map some = rows.map (p.measure esp) ∧
    Holds c.x c.y c.d (before ++ own) ∧ c.count = own.length ∧
    (rows.map (·.esp_id)).Nodup ∧ rows.length = receivers table c.hash

/-- Every receiver has at most one row of the hash, and no row of the hash is marked. -/
def OneRowPerReceiver (table : List Packet) (h : ℕ) : Prop :=
  ((rowsOf table h).map (·.esp_id)).Nodup ∧ ∀ row ∈ rowsOf table h, row.to_be_deleted = 0

/-- Whether each receiver has one row can be decided. -/
instance (table : List Packet) (h : ℕ) : Decidable (OneRowPerReceiver table h) :=
  inferInstanceAs (Decidable (_ ∧ _))

/-- Among rows of different receivers the counter is the number of the unmarked ones. -/
theorem receivers_eq_length_iff {table : List Packet} {h : ℕ}
    (hnodup : ((rowsOf table h).map (·.esp_id)).Nodup) :
    receivers table h = (rowsOf table h).length ↔
      ∀ row ∈ rowsOf table h, row.to_be_deleted = 0 := by
  rw [receivers_eq, List.Nodup.dedup (hnodup.sublist (List.filter_sublist.map _)), List.length_map,
    List.length_filter_eq_length_iff]
  simp only [decide_eq_true_eq]

/-- A multiset of values of `f` on a list is the list of its values in some order. -/
theorem exists_perm_map_eq {α β : Type} {f : α → β} {as : List α} {bs : List β}
    (h : bs.Perm (as.map f)) : ∃ as' : List α, as'.Perm as ∧ bs = as'.map f := by
  have hcomp : (bs.Perm (as.map f)) = _ := congrFun₂ (List.eq_map_comp_perm f).symm bs as
  obtain ⟨as', heq, hperm⟩ := hcomp.mp h
  exact ⟨as', hperm, heq⟩

/-- **One measurement for each receiver.** A hash that is located has one measurement from each of
the receivers that were counted, and no others, exactly if every receiver has stored one row of it
and none of these rows is marked. -/
theorem onePerReceiver_iff (p : PacketProcessor F) (env : Environment) (table : List Packet)
    (esp : List Esp) (devices local_macs : List (Located F)) (c : Call F) (hn : 0 < p.esp_number)
    (hc : .trilaterate c ∈ finalLog (p.process env table esp devices local_macs)) :
    OnePerReceiver p esp table c ↔ OneRowPerReceiver table c.hash := by
  refine ⟨?_, ?_⟩
  · intro h
    obtain ⟨rows, before, own, hperm, -, -, -, hnodup, hlen⟩ := h
    have hnodup' := (hperm.map (·.esp_id)).nodup_iff.1 hnodup
    exact ⟨hnodup', (receivers_eq_length_iff hnodup').1 (hlen.symm.trans hperm.length_eq)⟩
  · intro h
    obtain ⟨hnodup, hunmarked⟩ := h
    obtain ⟨before, own, pos, heach, -, -, heq⟩ := sourced_finalLog hn c hc
    obtain ⟨rows, hperm, hown⟩ := exists_perm_map_eq heach
    refine ⟨rows, before, own, hperm, hown, ?_, ?_, (hperm.map _).nodup_iff.2 hnodup, ?_⟩
    · rw [heq]
      exact ⟨rfl, rfl, rfl⟩
    · rw [heq, call]
    · rw [(receivers_eq_length_iff hnodup).2 hunmarked]
      exact hperm.length_eq

/-- Receiver 0 has also stored a packet of hash 9; each of the two has one row of hash 7. -/
theorem onePerReceiver_iff_twoReceivers :
    OnePerReceiver twoReceivers twoEsps [packetOf 0 9, packetOf 0 7, packetOf 1 7] (callOf 7) :=
  (onePerReceiver_iff twoReceivers calm [packetOf 0 9, packetOf 0 7, packetOf 1 7] twoEsps [] []
    (callOf 7) (by decide) (by decide)).2 (by decide)

/-- The call for hash 7 when receiver 0 has stored it twice. -/
def repeatedCall : Call ℤ := ⟨7, [-6, -6, 8], [8, 8, -6], [10, 10, 10], 3, 0, 0⟩

/-- A retransmission counts twice: its receiver has two measurements. -/
theorem not_onePerReceiver :
    ¬ ∀ (F : Type) [Double F] (p : PacketProcessor F) (env : Environment) (table : List Packet)
        (esp : List Esp) (devices local_macs : List (Located F)) (c : Call F), 0 < p.esp_number →
        .trilaterate c ∈ finalLog (p.process env table esp devices local_macs) →
        OnePerReceiver p esp table c := by
  intro hclaim
  obtain ⟨rows, -, -, hperm, -, -, -, hnodup, -⟩ := hclaim ℤ twoReceivers calm
    [packetOf 0 7, packetOf 0 7, packetOf 1 7] twoEsps [] [] repeatedCall (by decide) (by decide)
  have := (hperm.map (·.esp_id)).nodup_iff.1 hnodup
  exact absurd this (by decide)

end PacketProcessor

end DetectionSystem

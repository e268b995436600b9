import DetectionSystem.Lib.Exit
import DetectionSystem.Server.PacketProcessor

/-!
# The loop of `process()`

The loop goes over a snapshot of rows while its body changes the table. What carries it is `Inv`:
the table is the first one with some hashes marked, all of them seen before, among them every hash
seen that reached the threshold, and every such hash has exactly the effects of one location in the
log. A row whose hash is marked finds no receiver and is skipped; a row whose hash is not marked
still sees the rows of the first table.

The measurement vectors are part of the same invariant, and they are what separates the two results
about `process()`. Each hash that reaches the threshold is located once and removed
(`process_effect`), but from the rows of all the hashes located before it as well as its own
(`located_from_own_rows_iff`).
-/

namespace DetectionSystem

namespace PacketProcessor

section
variable {F : Type} {p : PacketProcessor F} {env : Environment} {s t u : State F}

/-! ## Statements -/

/-- `t` has the tables, the position and the log of `s`. -/
structure Frame (s t : State F) : Prop where
  packet : t.packet = s.packet
  esp : t.esp = s.esp
  devices : t.devices = s.devices
  local_macs : t.local_macs = s.local_macs
  pos_x : t.pos_x = s.pos_x
  pos_y : t.pos_y = s.pos_y
  log : t.log = s.log

/-- Nothing happens between a state and itself. -/
theorem Frame.refl (s : State F) : Frame s s := ⟨rfl, rfl, rfl, rfl, rfl, rfl, rfl⟩

/-- What stays in two stretches stays in both. -/
theorem Frame.trans (h : Frame s t) (h' : Frame t u) : Frame s u where
  packet := h'.packet.trans h.packet
  esp := h'.esp.trans h.esp
  devices := h'.devices.trans h.devices
  local_macs := h'.local_macs.trans h.local_macs
  pos_x := h'.pos_x.trans h.pos_x
  pos_y := h'.pos_y.trans h.pos_y
  log := h'.log.trans h.log

/-- The rule of a statement: it fails and exits with nothing changed, or what follows it runs. -/
theorem execute_bind_ends {f : State F → Except (State F) (State F)} {Q E : State F → Prop}
    (hfail : (¬ ∀ k, env.sqlOk k = true) → E s)
    (hok : Ends (f { s with statements := s.statements + 1 }) Q E) :
    Ends (execute env s >>= f) Q E := by
  unfold execute
  split
  case isTrue => exact hok
  case isFalse h => exact hfail fun hsql => h (hsql _)

/-- Marking a hash either fails and changes nothing, or marks its rows. -/
theorem markDeleted_ends {hash : ℕ} {Q E : State F → Prop}
    (hfail : (¬ ∀ k, env.sqlOk k = true) → E s)
    (hok : Q { s with
      statements := s.statements + 1
      packet := s.packet.map (markRow [hash]) }) :
    Ends (markDeleted env hash s) Q E :=
  execute_bind_ends hfail hok

/-- The effects of storing a located address: one row, if the position is inside the area. -/
def stored (p : PacketProcessor F) (hash : ℕ) (row : Located F) (isLocal : Bool) : List (Effect F) :=
  if p.isInside row.x row.y then
    [if isLocal then .insertLocalMac hash row else .insertDevice hash row]
  else []

/-- `t` is `s` after the effects `es`. -/
structure After (es : List (Effect F)) (s t : State F) : Prop where
  esp : t.esp = s.esp
  devices : t.devices = s.devices ++ es.filterMap Effect.deviceRow
  local_macs : t.local_macs = s.local_macs ++ es.filterMap Effect.localMacRow
  log : t.log = s.log ++ es

/-- Storing a row is an insertion into one of the two tables. -/
theorem mem_stored {hash : ℕ} {row : Located F} {isLocal : Bool} {e : Effect F}
    (h : e ∈ stored p hash row isLocal) :
    ∃ row, e = .insertLocalMac hash row ∨ e = .insertDevice hash row := by
  unfold stored at h
  split at h
  case isTrue =>
    rw [List.mem_singleton] at h
    cases isLocal
    · exact ⟨row, .inr h⟩
    · exact ⟨row, .inl h⟩
  case isFalse => simp at h

/-- Effects one after the other. -/
theorem After.append {es es' : List (Effect F)} (h : After es s t) (h' : After es' t u) :
    After (es ++ es') s u where
  esp := h'.esp.trans h.esp
  devices := by rw [h'.devices, h.devices, List.filterMap_append, List.append_assoc]
  local_macs := by rw [h'.local_macs, h.local_macs, List.filterMap_append, List.append_assoc]
  log := by rw [h'.log, h.log, List.append_assoc]

/-- An address is stored with the position of the state, if that is inside the area; the call ends
where the statement fails or the first byte cannot be read. -/
theorem insert_ends (hash : ℕ) (current_address : List Char) (s : State F) :
    Ends (p.insert env hash current_address s)
      (fun t => ∃ row isLocal, row.x = s.pos_x ∧ row.y = s.pos_y ∧ row.mac = current_address ∧
        After (stored p hash row isLocal) s t ∧ t.packet = s.packet ∧ t.x = s.x ∧ t.y = s.y ∧
          t.d = s.d)
      fun t => t = s ∧
        ¬ ((∀ k, env.sqlOk k = true) ∧ (stol16 (current_address.take 2)).isSome) := by
  unfold insert
  split
  case h_1 hnone => exact ⟨rfl, by simp [hnone]⟩
  case h_2 firstByteMAC hsome =>
    split
    case isFalse hout =>
      refine ⟨⟨current_address, s.pos_x, s.pos_y, s.average_timestamp⟩, false, rfl, rfl, rfl, ?_,
        rfl, rfl, rfl, rfl⟩
      constructor <;> simp [stored, hout]
    case isTrue hin =>
      refine execute_bind_ends (fun hsql => ⟨rfl, fun hk => hsql hk.1⟩) ?_
      refine Ends.mono (Q := fun t => After (stored p hash
          ⟨current_address, s.pos_x, s.pos_y, s.average_timestamp⟩ (isLocal firstByteMAC)) s t ∧
          t.packet = s.packet ∧ t.x = s.x ∧ t.y = s.y ∧ t.d = s.d) (E := fun _ => False) ?_
        (fun t ht => ⟨_, _, rfl, rfl, rfl, ht⟩) (fun _ h => h.elim)
      split
      case isTrue hl =>
        refine ⟨⟨rfl, ?_, ?_, ?_⟩, rfl, rfl, rfl, rfl⟩ <;>
          simp [stored, hin, hl, Effect.deviceRow, Effect.localMacRow]
      case isFalse hl =>
        refine ⟨⟨rfl, ?_, ?_, ?_⟩, rfl, rfl, rfl, rfl⟩ <;>
          simp [stored, hin, hl, Effect.deviceRow, Effect.localMacRow]

/-- A hash that is not located is marked or left alone; the call ends where the statement fails or
there is no row to look at. -/
theorem expire_ends (hash : ℕ) (s : State F) :
    Ends (expire env hash s)
      (fun t => (∃ hs, (hs = [] ∨ hs = [hash]) ∧ t.packet = s.packet.map (markRow hs)) ∧
        After [] s t ∧ t.x = s.x ∧ t.y = s.y ∧ t.d = s.d)
      fun t => t.log = s.log ∧ ¬ ((∀ k, env.sqlOk k = true) ∧ rowsOf s.packet hash ≠ []) := by
  refine execute_bind_ends (fun hsql => ⟨rfl, fun hk => hsql hk.1⟩) ?_
  dsimp only
  split
  case h_1 hnil =>
    refine ⟨rfl, fun hk => hk.2 ?_⟩
    have hperm := env.order_perm (s.statements + 1) (rowsOf s.packet hash)
    rw [hnil] at hperm
    exact hperm.nil_eq.symm
  case h_2 row rows hrows =>
    split
    case isTrue hold =>
      exact markDeleted_ends (fun hsql => ⟨rfl, fun hk => hsql hk.1⟩)
        ⟨⟨[hash], .inr rfl, rfl⟩, ⟨rfl, by simp, by simp, by simp⟩, rfl, rfl, rfl⟩
    case isFalse hyoung =>
      exact ⟨⟨[], .inl rfl, by simp⟩, ⟨rfl, by simp, by simp, by simp⟩, rfl, rfl, rfl⟩

end

variable {F : Type} [Double F] {p : PacketProcessor F} {env : Environment} {s t u : State F}

/-! ## Measurements -/

/-- One entry of the three vectors. -/
structure Measurement (F : Type) where
  x : ℤ
  y : ℤ
  d : F

/-- The measurement a row of `Packet` stands for, `none` without a receiver of its id in `ESP`. -/
def measure (p : PacketProcessor F) (esp : List Esp) (row : Packet) : Option (Measurement F) :=
  (esp.find? (·.esp_id = row.esp_id)).map fun e =>
    ⟨e.x, e.y, p.getDistanceFromRSSI ((row.rssi : ℤ) : F)⟩

/-- The vectors hold the measurements `ms`. -/
structure Holds (x y : List ℤ) (d : List F) (ms : List (Measurement F)) : Prop where
  x : x = ms.map (·.x)
  y : y = ms.map (·.y)
  d : d = ms.map (·.d)

/-- The measurements `own` are, up to order, exactly those of the rows. -/
def OneEach (p : PacketProcessor F) (esp : List Esp) (rows : List Packet)
    (own : List (Measurement F)) : Prop :=
  (own.map some).Perm (rows.map (p.measure esp))

/-- There are as many measurements as rows. -/
theorem OneEach.length_eq {esp : List Esp} {rows : List Packet} {own : List (Measurement F)}
    (h : OneEach p esp rows own) : own.length = rows.length := by
  simpa using List.Perm.length_eq h

/-- The minimum the optimiser finds on the vectors of `ms`. -/
def search (p : PacketProcessor F) (ms : List (Measurement F)) : Option (F × F) :=
  p.find_min (meanSquareError (ms.map (·.x)) (ms.map (·.y)) (ms.map (·.d)))
    (((0 : ℤ) : F), ((0 : ℤ) : F))

/-- The position `trilaterate` leaves for the vectors of `ms`, from the position `pos`. -/
def position (p : PacketProcessor F) (ms : List (Measurement F)) (pos : F × F) : F × F :=
  (p.search ms).getD pos

/-- The call of `trilaterate` on the vectors of `ms`. -/
def call (hash : ℕ) (ms : List (Measurement F)) (count : ℕ) (pos : F × F) : Call F :=
  ⟨hash, ms.map (·.x), ms.map (·.y), ms.map (·.d), count, pos.1, pos.2⟩

omit [Double F] in
/-- The effects of a location are all for its hash. -/
theorem filter_located (hash h : ℕ) (ms : List (Measurement F)) (count : ℕ) (pos : F × F)
    (lrow : Located F) (isLocal : Bool) :
    (.trilaterate (call hash ms count pos) :: stored p hash lrow isLocal).filter (·.hash = h) =
      if h = hash then .trilaterate (call hash ms count pos) :: stored p hash lrow isLocal
      else [] := by
  have hall : ∀ e ∈ .trilaterate (call hash ms count pos) :: stored p hash lrow isLocal,
      e.hash = hash := by
    intro e he
    rcases List.mem_cons.1 he with rfl | he
    · rfl
    · obtain ⟨row, rfl | rfl⟩ := mem_stored he <;> rfl
  split
  case isTrue heq => exact List.filter_eq_self.2 fun e he => by simp [hall e he, heq]
  case isFalse hne =>
    exact List.filter_eq_nil_iff.2 fun e he => by simpa [hall e he] using Ne.symm hne

/-- The state while the rows of a hash are measured: the measurements `own` of the rows `done`
follow those the vectors held in `s`, and nothing else has changed. -/
structure Measured (p : PacketProcessor F) (s : State F) (ms : List (Measurement F))
    (done : List Packet) (own : List (Measurement F)) (t : State F) : Prop where
  each : own.map some = done.map (p.measure s.esp)
  holds : Holds t.x t.y t.d (ms ++ own)
  count : t.count = s.count + done.length
  frame : Frame s t

/-- One more row is measured; the call ends where the statement fails or the receiver is not known.
-/
theorem addMeasurement_ends {ms own : List (Measurement F)} {done : List Packet} {row : Packet}
    (h : Measured p s ms done own t) :
    Ends (p.addMeasurement env t row)
      (fun u => ∃ own, Measured p s ms (done ++ [row]) own u)
      fun u => u.log = s.log ∧ ((∀ k, env.sqlOk k = true) → ∀ e ∈ s.esp, e.esp_id ≠ row.esp_id) := by
  refine execute_bind_ends (fun hsql => ⟨h.frame.log, fun hk => absurd hk hsql⟩) ?_
  dsimp only
  split
  case h_1 hnone =>
    refine ⟨h.frame.log, fun _ e he => ?_⟩
    rw [h.frame.esp] at hnone
    simpa using List.find?_eq_none.1 hnone e he
  case h_2 e hsome =>
    rw [h.frame.esp] at hsome
    refine ⟨own ++ [⟨e.x, e.y, p.getDistanceFromRSSI ((row.rssi : ℤ) : F)⟩], ?_, ⟨?_, ?_, ?_⟩,
      ?_, ?_⟩
    · simp [h.each, measure, hsome]
    · simp [h.holds.x]
    · simp [h.holds.y]
    · simp [h.holds.d]
    · simp [h.count, Nat.add_assoc]
    · exact h.frame.trans ⟨rfl, rfl, rfl, rfl, rfl, rfl, rfl⟩

/-- The loop over the rows of a hash measures each of them once. -/
theorem addMeasurements_ends {ms : List (Measurement F)} (hs : Holds s.x s.y s.d ms)
    (rows : List Packet) :
    Ends (rows.foldlM (p.addMeasurement env) s)
      (fun t => ∃ own, Measured p s ms rows own t)
      fun t => t.log = s.log ∧
        ((∀ k, env.sqlOk k = true) → ∃ row ∈ rows, ∀ e ∈ s.esp, e.esp_id ≠ row.esp_id) := by
  refine Ends.foldlM (I := fun done t => ∃ own, Measured p s ms done own t) rows
    ⟨[], rfl, by simpa using hs, rfl, Frame.refl s⟩ ?_
  intro pre row post t hrows hpre
  obtain ⟨own, h⟩ := hpre
  refine (addMeasurement_ends h).mono (fun _ h => h) ?_
  intro u hu
  exact ⟨hu.1, fun hk => ⟨row, by simp [hrows], hu.2 hk⟩⟩

/-- `t` is `s` after hash `hash` was located from the measurements `own` of its rows, with `ms`
still in the vectors, and all its rows were marked. -/
structure LocatedAfter (p : PacketProcessor F) (s : State F) (ms : List (Measurement F)) (hash : ℕ)
    (own : List (Measurement F)) (row : Located F) (isLocal : Bool) (t : State F) : Prop where
  each : OneEach p s.esp (rowsOf s.packet hash) own
  holds : Holds t.x t.y t.d (ms ++ own)
  packet : t.packet = s.packet.map (markRow [hash])
  pos : (row.x, row.y) = p.position (ms ++ own) (s.pos_x, s.pos_y)
  after : After
    (.trilaterate (call hash (ms ++ own) own.length (row.x, row.y)) :: stored p hash row isLocal) s t

/-- The calls of `trilaterate` that `t` has over `s` are on `ms` and the measurements of the rows of
`hash`. -/
def NewCalls (p : PacketProcessor F) (s : State F) (ms : List (Measurement F)) (hash : ℕ)
    (t : State F) : Prop :=
  ∀ c, .trilaterate c ∈ t.log → .trilaterate c ∈ s.log ∨
    ∃ own, OneEach p s.esp (rowsOf s.packet hash) own ∧
      c = call hash (ms ++ own) own.length (p.position (ms ++ own) (s.pos_x, s.pos_y))

/-- No call of the optimiser, no new one. -/
theorem newCalls_of_log_eq {ms : List (Measurement F)} {hash : ℕ} (h : t.log = s.log) :
    NewCalls p s ms hash t := by
  intro c hmem
  exact .inl (h ▸ hmem)

/-- The calls are the expected ones after one call and insertions. -/
theorem newCalls_of_call {ms own : List (Measurement F)} {hash : ℕ} {es : List (Effect F)}
    (hown : OneEach p s.esp (rowsOf s.packet hash) own)
    (hes : ∀ e ∈ es, ∃ row, e = .insertLocalMac hash row ∨ e = .insertDevice hash row)
    (hlog : t.log = s.log ++
      .trilaterate (call hash (ms ++ own) own.length
        (p.position (ms ++ own) (s.pos_x, s.pos_y))) :: es) :
    NewCalls p s ms hash t := by
  intro c hmem
  rw [hlog, List.mem_append, List.mem_cons] at hmem
  obtain hmem | hmem | hmem := hmem
  · exact .inl hmem
  · exact .inr ⟨own, hown, by simpa using hmem⟩
  · obtain ⟨row, he | he⟩ := hes _ hmem <;> cases he

/-- The last two statements of a location, from the state `w` that the call of `trilaterate` on
`ms ++ own` leaves. -/
theorem insert_markDeleted_ends {ms own : List (Measurement F)} {hash : ℕ} {w : State F}
    (heach : OneEach p s.esp (rowsOf s.packet hash) own)
    (hpos : (w.pos_x, w.pos_y) = p.position (ms ++ own) (s.pos_x, s.pos_y))
    (hcall : After [.trilaterate (call hash (ms ++ own) own.length (w.pos_x, w.pos_y))] s w)
    (hwp : w.packet = s.packet) (hwh : Holds w.x w.y w.d (ms ++ own)) (current_address : List Char) :
    Ends (p.insert env hash current_address w >>= markDeleted env hash)
      (fun t => ∃ own row isLocal, row.mac = current_address ∧
        LocatedAfter p s ms hash own row isLocal t)
      fun t => NewCalls p s ms hash t ∧
        ¬ ((∀ k, env.sqlOk k = true) ∧ (stol16 (current_address.take 2)).isSome) := by
  refine Ends.bind ((insert_ends hash current_address w).mono (fun _ h => h) ?_) ?_
  · intro u hu
    obtain ⟨rfl, hbad⟩ := hu
    exact ⟨newCalls_of_call heach (by simp) (hpos ▸ hcall.log), hbad⟩
  intro u hu
  obtain ⟨row, isLocal, hx, hy, hmac, hins, hup, hux, huy, hud⟩ := hu
  have hafter : After (.trilaterate (call hash (ms ++ own) own.length (w.pos_x, w.pos_y)) ::
      stored p hash row isLocal) s u := hcall.append hins
  refine markDeleted_ends ?_ ⟨own, row, isLocal, hmac, heach, ?_, ?_, ?_, ?_⟩
  · intro hsql
    exact ⟨newCalls_of_call heach (fun e he => mem_stored he) (hpos ▸ hafter.log),
      fun hk => hsql hk.1⟩
  · simpa only [hux, huy, hud] using hwh
  · simp only [hup, hwp]
  · rw [hx, hy, hpos]
  · rw [hx, hy]
    exact ⟨hafter.esp, hafter.devices, hafter.local_macs, hafter.log⟩

/-- A hash is located: its rows are measured, the optimiser runs on them, and the row of the result
is stored. -/
theorem locate_ends {ms : List (Measurement F)} (hs : Holds s.x s.y s.d ms) (hash : ℕ)
    (current_address : List Char) :
    Ends (p.locate env hash current_address s)
      (fun t => ∃ own row isLocal, row.mac = current_address ∧
        LocatedAfter p s ms hash own row isLocal t)
      fun t => NewCalls p s ms hash t ∧
        ¬ ((∀ k, env.sqlOk k = true) ∧
          (∀ row ∈ rowsOf s.packet hash, ∃ e ∈ s.esp, e.esp_id = row.esp_id) ∧
          (stol16 (current_address.take 2)).isSome) := by
  refine execute_bind_ends (fun hsql => ⟨newCalls_of_log_eq rfl, fun hk => hsql hk.1⟩) ?_
  generalize hu : ({ s with
    average_timestamp := 0, count := 0, statements := s.statements + 1 } : State F) = u
  have hframe : Frame s u := by subst hu; exact ⟨rfl, rfl, rfl, rfl, rfl, rfl, rfl⟩
  have hholds : Holds u.x u.y u.d ms := by subst hu; exact hs
  have hcount : u.count = 0 := by subst hu; rfl
  clear hu
  refine Ends.bind ((addMeasurements_ends hholds _).mono (fun _ h => h) ?_) ?_
  · intro v hv
    obtain ⟨hlog, hesp⟩ := hv
    refine ⟨newCalls_of_log_eq (hlog.trans hframe.log), fun ⟨hsql, hall, _⟩ => ?_⟩
    obtain ⟨row, hrow, hne⟩ := hesp hsql
    rw [hframe.packet] at hrow
    obtain ⟨e, he, hid⟩ := hall row ((env.order_perm _ _).mem_iff.1 hrow)
    exact hne e (hframe.esp ▸ he) hid
  intro v hv
  obtain ⟨own, hv⟩ := hv
  have heach : OneEach p s.esp (rowsOf s.packet hash) own := by
    rw [OneEach, hv.each, hframe.esp, hframe.packet]
    exact (env.order_perm _ _).map _
  have hown : v.count = own.length := by
    rw [heach.length_eq, hv.count, hcount, hframe.packet,
      (env.order_perm _ _).length_eq, Nat.zero_add]
  have hvf := hframe.trans hv.frame
  refine (insert_markDeleted_ends (w := { p.trilaterate hash v with
    average_timestamp := v.average_timestamp / v.count }) heach ?_ ⟨hvf.esp, ?_, ?_, ?_⟩
    hvf.packet hv.holds current_address).mono (fun _ h => h) ?_
  · simp only [trilaterate, position, search, hv.holds.x, hv.holds.y, hv.holds.d,
      hvf.pos_x, hvf.pos_y]
  · simp [trilaterate, hvf.devices, call, Effect.deviceRow]
  · simp [trilaterate, hvf.local_macs, call, Effect.localMacRow]
  · simp [trilaterate, hvf.log, call, hv.holds.x, hv.holds.y, hv.holds.d, hown]
  · intro t ht
    exact ⟨ht.1, fun hk => ht.2 ⟨hk.1, hk.2.2⟩⟩

/-! ## Marked tables -/

/-- Marking other hashes leaves the rows of a hash as they are. -/
theorem rowsOf_map_markRow {hs : List ℕ} {h : ℕ} (hh : h ∉ hs) (table : List Packet) :
    rowsOf (table.map (markRow hs)) h = rowsOf table h := by
  unfold rowsOf
  induction table with
  | nil => rfl
  | cons row table ih =>
    by_cases hrow : row.hash = h
    · have : markRow hs row = row := by simp [markRow, hrow, hh]
      simp [hrow, this, ih]
    · simp [hrow, ih]

/-- The receivers of a hash are those of its unmarked rows. -/
theorem receivers_eq (table : List Packet) (h : ℕ) :
    receivers table h =
      (((rowsOf table h).filter fun r => r.to_be_deleted = 0).map (·.esp_id)).dedup.length := by
  unfold receivers rowsOf
  rw [List.filter_filter]
  simp only [Bool.decide_and, Bool.and_comm]

/-- A marked hash has no receivers left. -/
theorem receivers_map_markRow_of_mem {hs : List ℕ} {h : ℕ} (hh : h ∈ hs) (table : List Packet) :
    receivers (table.map (markRow hs)) h = 0 := by
  have : ∀ r ∈ table.map (markRow hs), ¬ (r.hash = h ∧ r.to_be_deleted = 0) := by
    simp only [List.mem_map]
    intro r' hr' hboth
    obtain ⟨r, -, rfl⟩ := hr'
    obtain ⟨hr, h0⟩ := hboth
    rw [markRow_hash] at hr
    simp [markRow, hr, hh] at h0
  unfold receivers
  rw [List.filter_eq_nil_iff.2 fun r hr => by simpa using this r hr]
  rfl

/-- A hash that is not marked has the receivers of the first table. -/
theorem receivers_map_markRow {hs : List ℕ} {h : ℕ} (hh : h ∉ hs) (table : List Packet) :
    receivers (table.map (markRow hs)) h = receivers table h := by
  rw [receivers_eq, receivers_eq, rowsOf_map_markRow hh]

/-- A hash with receivers has rows. -/
theorem rowsOf_ne_nil {table : List Packet} {h : ℕ} (hh : receivers table h ≠ 0) :
    rowsOf table h ≠ [] := by
  intro hnil
  rw [receivers_eq, hnil] at hh
  exact hh rfl

/-- No hash without receivers reaches the threshold. -/
theorem Threshold.pos {esp_number counter : ℕ} (h : Threshold esp_number counter)
    (hn : 0 < esp_number) : 0 < counter := by
  unfold Threshold at h
  omega

/-! ## The invariant of the loop -/

/-- Hash `h` reaches the threshold in a table. -/
def Reaches (p : PacketProcessor F) (table : List Packet) (h : ℕ) : Prop :=
  Threshold p.esp_number (receivers table h)

/-- The threshold can be tested. -/
instance (p : PacketProcessor F) (table : List Packet) (h : ℕ) : Decidable (p.Reaches table h) :=
  inferInstanceAs (Decidable (Threshold _ _))

/-- Every call of `trilaterate` in a log is on the measurements of its own rows, after those the
vectors held before; these are none exactly if no hash that reaches the threshold has a row before
the first row of `h`, in the order `rows` in which the loop goes over the table. -/
def Sourced (p : PacketProcessor F) (table : List Packet) (esp : List Esp) (rows : List Packet)
    (log : List (Effect F)) : Prop :=
  ∀ c, .trilaterate c ∈ log →
    ∃ before own pos, OneEach p esp (rowsOf table c.hash) own ∧ own ≠ [] ∧
      (before = [] ↔ ∀ r ∈ rows.takeWhile (·.hash ≠ c.hash), ¬ p.Reaches table r.hash) ∧
      c = call c.hash (before ++ own) own.length (p.position (before ++ own) pos)

/-- The effects of locating hash `h` once. -/
def LocatedOnce (p : PacketProcessor F) (h : ℕ) (es : List (Effect F)) : Prop :=
  ∃ ms count row isLocal,
    es = .trilaterate (call h ms count (row.x, row.y)) :: stored p h row isLocal

/-- What `process()` relies on to return: the statements succeed, every receiver of a packet has a
row in `ESP`, and `stol` can read every address. -/
structure Serviceable (env : Environment) (packet : List Packet) (esp : List Esp) : Prop where
  sql : ∀ k, env.sqlOk k = true
  esp : ∀ row ∈ packet, ∃ e ∈ esp, e.esp_id = row.esp_id
  addr : ∀ row ∈ packet, (stol16 (row.addr.take 2)).isSome

/-- The state of the loop after the rows `pre`: the hashes in `marked` are marked, and the vectors
hold `ms`. -/
structure Inv (p : PacketProcessor F) (table : List Packet) (esp : List Esp)
    (devices local_macs : List (Located F)) (rows pre : List Packet) (s : State F)
    (marked : List ℕ) (ms : List (Measurement F)) : Prop where
  espTable : s.esp = esp
  packet : s.packet = table.map (markRow marked)
  seen : ∀ h ∈ marked, h ∈ pre.map (·.hash)
  reached : ∀ h ∈ pre.map (·.hash), p.Reaches table h → h ∈ marked
  holds : Holds s.x s.y s.d ms
  vectors : ms = [] ↔ ∀ h ∈ pre.map (·.hash), ¬ p.Reaches table h
  sourced : Sourced p table esp rows s.log
  once : ∀ h ∈ pre.map (·.hash), p.Reaches table h →
    LocatedOnce p h (s.log.filter (·.hash = h))
  idle : ∀ h, (h ∈ pre.map (·.hash) → ¬ p.Reaches table h) → s.log.filter (·.hash = h) = []
  devices : s.devices = devices ++ s.log.filterMap Effect.deviceRow
  local_macs : s.local_macs = local_macs ++ s.log.filterMap Effect.localMacRow

section
variable {table : List Packet} {esp : List Esp} {devices local_macs : List (Located F)}
  {rows pre : List Packet} {row : Packet} {marked : List ℕ} {ms : List (Measurement F)}

/-- A row that has no effect, as its hash was treated before or has too few receivers; it may be
marked in the second case. -/
theorem Inv.skip (h : Inv p table esp devices local_macs rows pre s marked ms) (hs : List ℕ)
    (hrow : p.Reaches table row.hash → row.hash ∈ marked) (hhs : ∀ h ∈ hs, h = row.hash)
    (hpacket : t.packet = s.packet.map (markRow hs)) (hafter : After [] s t)
    (hx : t.x = s.x) (hy : t.y = s.y) (hd : t.d = s.d) :
    Inv p table esp devices local_macs rows (pre ++ [row]) t (hs ++ marked) ms where
  espTable := hafter.esp.trans h.espTable
  packet := by
    rw [hpacket, h.packet, List.map_map]
    exact List.map_congr_left fun r _ => markRow_markRow hs marked r
  seen := by
    intro h' hh
    rw [List.map_append, List.mem_append]
    rcases List.mem_append.1 hh with hh | hh
    · exact .inr (by simp [hhs h' hh])
    · exact .inl (h.seen h' hh)
  reached := by
    intro h' hh hreach
    rw [List.map_append, List.mem_append] at hh
    refine List.mem_append_right _ ?_
    rcases hh with hh | hh
    · exact h.reached h' hh hreach
    · obtain rfl : h' = row.hash := by simpa using hh
      exact hrow hreach
  holds := by rw [hx, hy, hd]; exact h.holds
  vectors := by
    rw [h.vectors]
    simp only [List.map_append, List.mem_append, List.map_cons, List.map_nil, List.mem_singleton]
    constructor
    · intro hnone h' hh
      obtain hh | rfl := hh
      · exact hnone h' hh
      · exact fun hreach => hnone _ (h.seen _ (hrow hreach)) hreach
    · exact fun hnone h' hh => hnone h' (.inl hh)
  sourced := by rw [hafter.log, List.append_nil]; exact h.sourced
  once := by
    intro h' hh hreach
    rw [hafter.log, List.append_nil]
    refine h.once h' ?_ hreach
    rw [List.map_append, List.mem_append] at hh
    rcases hh with hh | hh
    · exact hh
    · obtain rfl : h' = row.hash := by simpa using hh
      exact h.seen _ (hrow hreach)
  idle := by
    intro h' hh
    rw [hafter.log, List.append_nil]
    exact h.idle h' fun hmem => hh (by rw [List.map_append]; exact List.mem_append_left _ hmem)
  devices := by rw [hafter.devices, h.devices, hafter.log]; simp
  local_macs := by rw [hafter.local_macs, h.local_macs, hafter.log]; simp

/-- A hash that reaches the threshold and is not marked has no earlier row. -/
theorem Inv.takeWhile_eq (h : Inv p table esp devices local_macs rows pre s marked ms)
    {post : List Packet} (hrows : rows = pre ++ row :: post) (hreach : p.Reaches table row.hash)
    (hmark : row.hash ∉ marked) :
    row.hash ∉ pre.map (·.hash) ∧ rows.takeWhile (·.hash ≠ row.hash) = pre := by
  have hnew : row.hash ∉ pre.map (·.hash) := fun hmem => hmark (h.reached _ hmem hreach)
  refine ⟨hnew, ?_⟩
  rw [hrows, List.takeWhile_append_of_pos, List.takeWhile_cons_of_neg (by simp), List.append_nil]
  intro r hr
  have hne : r.hash ≠ row.hash := fun heq => hnew (List.mem_map.2 ⟨r, hr, heq⟩)
  simpa using hne

/-- The calls for a hash that is located are sourced, also when the program exits meanwhile. -/
theorem Inv.sourced_of_newCalls (h : Inv p table esp devices local_macs rows pre s marked ms)
    {post : List Packet} (hrows : rows = pre ++ row :: post) (hn : 0 < p.esp_number)
    (hreach : p.Reaches table row.hash) (hmark : row.hash ∉ marked)
    (hcalls : NewCalls p s ms row.hash t) : Sourced p table esp rows t.log := by
  intro c hmem
  rcases hcalls c hmem with hold | ⟨own, heach, heq⟩
  · exact h.sourced c hold
  have hhash : c.hash = row.hash := by rw [heq]; rfl
  rw [h.espTable, h.packet, rowsOf_map_markRow hmark] at heach
  rw [hhash]
  refine ⟨ms, own, _, heach, ?_, ?_, heq⟩
  · rintro rfl
    exact rowsOf_ne_nil (hreach.pos hn).ne' (List.length_eq_zero_iff.1 heach.length_eq.symm)
  · rw [(h.takeWhile_eq hrows hreach hmark).2, h.vectors]
    simp

/-- A row whose hash is located. -/
theorem Inv.locate (h : Inv p table esp devices local_macs rows pre s marked ms)
    {post : List Packet} (hrows : rows = pre ++ row :: post) (hn : 0 < p.esp_number)
    (hreach : p.Reaches table row.hash) (hmark : row.hash ∉ marked) {own : List (Measurement F)}
    {lrow : Located F} {isLocal : Bool} (ht : LocatedAfter p s ms row.hash own lrow isLocal t) :
    Inv p table esp devices local_macs rows (pre ++ [row]) t ([row.hash] ++ marked) (ms ++ own) := by
  have hcalls : NewCalls p s ms row.hash t :=
    newCalls_of_call ht.each (fun e he => mem_stored he) (ht.pos ▸ ht.after.log)
  have hsourced := h.sourced_of_newCalls hrows hn hreach hmark hcalls
  have hnew := (h.takeWhile_eq hrows hreach hmark).1
  have hmem : ∀ h', h' ∈ (pre ++ [row]).map (·.hash) ↔ h' ∈ pre.map (·.hash) ∨ h' = row.hash := by
    intro h'
    rw [List.map_append, List.mem_append, List.map_singleton, List.mem_singleton]
  exact {
    espTable := ht.after.esp.trans h.espTable
    packet := by
      rw [ht.packet, h.packet, List.map_map]
      exact List.map_congr_left fun r _ => markRow_markRow _ marked r
    seen := by
      intro h' hh
      rw [hmem]
      rcases List.mem_append.1 hh with hh | hh
      · exact .inr (List.mem_singleton.1 hh)
      · exact .inl (h.seen h' hh)
    reached := by
      intro h' hh hr
      rcases (hmem h').1 hh with hh | rfl
      · exact List.mem_append_right _ (h.reached h' hh hr)
      · exact List.mem_append_left _ (List.mem_singleton_self _)
    holds := ht.holds
    vectors := by
      constructor
      · intro hnil
        obtain ⟨-, rfl⟩ := List.append_eq_nil_iff.1 hnil
        have hrowsNil := List.length_eq_zero_iff.1 ht.each.length_eq.symm
        rw [h.packet, rowsOf_map_markRow hmark] at hrowsNil
        exact absurd hrowsNil (rowsOf_ne_nil (hreach.pos hn).ne')
      · exact fun hnone => absurd hreach (hnone _ ((hmem _).2 (.inr rfl)))
    sourced := hsourced
    once := by
      intro h' hh hr
      rw [ht.after.log, List.filter_append, filter_located]
      split
      case isTrue heq =>
        subst heq
        rw [h.idle _ fun hmem => absurd hmem hnew, List.nil_append]
        exact ⟨ms ++ own, own.length, lrow, isLocal, rfl⟩
      case isFalse hne =>
        rw [List.append_nil]
        exact h.once h' (((hmem h').1 hh).resolve_right hne) hr
    idle := by
      intro h' hh
      have hne : h' ≠ row.hash := fun heq => hh ((hmem h').2 (.inr heq)) (heq ▸ hreach)
      rw [ht.after.log, List.filter_append, filter_located, if_neg hne, List.append_nil]
      exact h.idle h' fun hmem' => hh ((hmem h').2 (.inl hmem'))
    devices := by
      rw [ht.after.devices, h.devices, ht.after.log, List.filterMap_append, List.append_assoc]
    local_macs := by
      rw [ht.after.local_macs, h.local_macs, ht.after.log, List.filterMap_append,
        List.append_assoc] }

/-- The loop body keeps the invariant; where the program exits, the log is sourced still. -/
theorem Inv.processRow_ends (h : Inv p table esp devices local_macs rows pre s marked ms)
    {post : List Packet} (hrows : rows = pre ++ row :: post) (htable : rows.Perm table)
    (hn : 0 < p.esp_number) :
    Ends (p.processRow env s row)
      (fun t => ∃ marked ms, Inv p table esp devices local_macs rows (pre ++ [row]) t marked ms)
      fun t => Sourced p table esp rows t.log ∧ ¬ Serviceable env table esp := by
  refine execute_bind_ends (fun hsql => ⟨h.sourced, fun hok => hsql hok.sql⟩) ?_
  have hu : Inv p table esp devices local_macs rows pre { s with statements := s.statements + 1 }
      marked ms := { h with }
  generalize ({ s with statements := s.statements + 1 } : State F) = u at hu ⊢
  dsimp only
  have hmem : row ∈ table := htable.mem_iff.1 (by simp [hrows])
  by_cases hmark : row.hash ∈ marked
  · -- the mark of an earlier row with this hash
    have h0 : receivers u.packet row.hash = 0 := by
      rw [hu.packet, receivers_map_markRow_of_mem hmark]
    rw [h0, if_neg fun hth => (hth.pos hn).ne' rfl, if_neg (by simp)]
    exact ⟨_, _, hu.skip [] (fun _ => hmark) (by simp) (by simp) ⟨rfl, by simp, by simp, by simp⟩
      rfl rfl rfl⟩
  have hcounter : receivers u.packet row.hash = receivers table row.hash := by
    rw [hu.packet, receivers_map_markRow hmark]
  have hrowsOf : rowsOf u.packet row.hash = rowsOf table row.hash := by
    rw [hu.packet, rowsOf_map_markRow hmark]
  rw [hcounter]
  split
  case isTrue hreach =>
    refine (locate_ends hu.holds row.hash row.addr).mono ?_ ?_
    · intro t ht
      obtain ⟨own, lrow, isLocal, -, ht⟩ := ht
      exact ⟨_, _, hu.locate hrows hn hreach hmark ht⟩
    · intro t ht
      obtain ⟨hcalls, hbad⟩ := ht
      refine ⟨hu.sourced_of_newCalls hrows hn hreach hmark hcalls, fun hok => hbad ⟨hok.sql, ?_,
        hok.addr row hmem⟩⟩
      intro r hr
      rw [hrowsOf] at hr
      rw [hu.espTable]
      exact hok.esp r (List.mem_of_mem_filter hr)
  case isFalse hbelow =>
    have hnone : ∀ hs : List ℕ, ∀ v : State F, (∀ h ∈ hs, h = row.hash) →
        v.packet = u.packet.map (markRow hs) → After [] u v → v.x = u.x → v.y = u.y → v.d = u.d →
        ∃ marked ms, Inv p table esp devices local_macs rows (pre ++ [row]) v marked ms :=
      fun hs v hhs hp ha hx hy hd =>
        ⟨_, _, hu.skip hs (fun hreach => absurd hreach hbelow) hhs hp ha hx hy hd⟩
    split
    case isTrue hcount =>
      refine (expire_ends row.hash u).mono ?_ ?_
      · intro v hv
        obtain ⟨⟨hs, hhs, hp⟩, ha, hx, hy, hd⟩ := hv
        refine hnone hs v ?_ hp ha hx hy hd
        intro h' hh
        rcases hhs with rfl | rfl
        · simp at hh
        · exact List.mem_singleton.1 hh
      · intro v hv
        obtain ⟨hlog, hbad⟩ := hv
        refine ⟨hlog ▸ hu.sourced, fun hok => hbad ⟨hok.sql, ?_⟩⟩
        rw [hrowsOf]
        exact rowsOf_ne_nil hcount
    case isFalse hcount =>
      exact hnone [] u (by simp) (by simp) ⟨rfl, by simp, by simp, by simp⟩ rfl rfl rfl

/-- What `process()` leaves when it returns: the state of the loop after all the rows, without the
marked ones. When it exits, every call of `trilaterate` so far is sourced, and there was a
reason to exit. -/
theorem process_ends (p : PacketProcessor F) (env : Environment) (hn : 0 < p.esp_number)
    (table : List Packet) (esp : List Esp) (devices local_macs : List (Located F)) :
    Ends (p.process env table esp devices local_macs)
      (fun t => ∃ s marked ms, Inv p table esp devices local_macs (retrievedPackets env table)
          (retrievedPackets env table) s marked ms ∧
        After [] s t ∧ t.packet = s.packet.filter (·.to_be_deleted ≠ 1))
      fun t => Sourced p table esp (retrievedPackets env table) t.log ∧
        ¬ Serviceable env table esp := by
  have hempty : Sourced p table esp (retrievedPackets env table) ([] : List (Effect F)) := by
    intro c hmem
    simp at hmem
  refine execute_bind_ends (fun hsql => ⟨hempty, fun hok => hsql hok.sql⟩) ?_
  refine execute_bind_ends (fun hsql => ⟨hempty, fun hok => hsql hok.sql⟩) ?_
  refine Ends.bind (Ends.foldlM (I := fun pre t => ∃ marked ms, Inv p table esp devices local_macs
    (retrievedPackets env table) pre t marked ms) (retrievedPackets env table) ?_ ?_) ?_
  · refine ⟨[], [], rfl, by simp [init], by simp, by simp, ⟨rfl, rfl, rfl⟩, by simp, hempty, by simp,
      fun h _ => rfl, by simp [init], by simp [init]⟩
  · intro pre row post t hrows hpre
    obtain ⟨marked, ms, h⟩ := hpre
    exact h.processRow_ends hrows (env.order_perm _ _) hn
  intro s hs
  obtain ⟨marked, ms, h⟩ := hs
  refine execute_bind_ends (fun hsql => ⟨h.sourced, fun hok => hsql hok.sql⟩) ?_
  exact ⟨s, marked, ms, h, ⟨rfl, by simp, by simp, by simp⟩, rfl⟩

end

end PacketProcessor

end DetectionSystem

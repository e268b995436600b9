import DetectionSystem.Server.ProcessLoop

/-!
# `process()` while the receivers upload

The thread of `process()` takes no lock while it works, so that the service threads may insert rows
into `Packet` between any two of its statements. A `Session` says which rows arrive before which
statement; each statement is atomic. It is a `Connection` in which a statement finds what has
arrived (`Session.connection`), so that the code is the one of `PacketProcessor.lean`; when nothing
arrives, it is a call on its own (`connection_quiet`).

The receivers of a hash, its rows and the rows that are marked are thus those of three tables.
`processRow_ends` says what one row of the loop does nevertheless.
-/

namespace DetectionSystem

namespace PacketProcessor

/-- The database server during a call of `process()`, and the rows that the service threads insert
into `Packet` before the `k`-th statement. -/
structure Session extends Environment where
  arrivals : ℕ → List Packet

namespace Session

variable {F : Type}

/-- The rows that arrive before the statements from `m` up to `n`. -/
def arrived (ss : Session) (m n : ℕ) : List Packet :=
  (List.range' m (n - m)).flatMap ss.arrivals

/-! ## The statements -/

/-- A statement is executed, after what has arrived meanwhile; the program exits if it fails. -/
def execute (ss : Session) (s : State F) : Except (State F) (State F) :=
  PacketProcessor.execute ss.toEnvironment { s with packet := s.packet ++ ss.arrivals s.statements }

/-- The connection of a call of `process()` while the receivers upload. -/
abbrev connection (ss : Session) : Connection F :=
  { ss.toEnvironment with execute := ss.execute }

/-- A session stands for its connection. -/
instance : Coe Session (Connection F) := ⟨connection⟩

/-- The session in which nothing arrives. -/
def quiet (env : Environment) : Session := { env with arrivals := fun _ => [] }

/-- A session in which nothing arrives is a call on its own. -/
theorem connection_quiet (env : Environment) :
    (quiet env).connection = (alone env : Connection F) := by
  have hexecute : (quiet env).execute = (PacketProcessor.execute env : State F → _) := by
    funext s
    simp [execute, quiet]
  unfold connection
  rw [hexecute]
  rfl

/-- So a theorem about sessions is one about calls on their own. -/
theorem process_quiet [Double F] (p : PacketProcessor F) (env : Environment)
    (packet : List Packet) (esp : List Esp) (devices local_macs : List (Located F)) :
    p.process (quiet env) packet esp devices local_macs =
      p.process env packet esp devices local_macs := by
  rw [connection_quiet]

/-! ## Arrivals -/

section
variable {ss : Session} {m n k : ℕ}

@[simp] theorem arrived_self (ss : Session) (n : ℕ) : ss.arrived n n = [] := by
  simp [arrived]

/-- What arrives in two stretches is what arrives in both. -/
theorem arrived_append (hmn : m ≤ n) (hnk : n ≤ k) :
    ss.arrived m n ++ ss.arrived n k = ss.arrived m k := by
  unfold arrived
  rw [← List.flatMap_append]
  obtain ⟨a, rfl⟩ := Nat.exists_eq_add_of_le hmn
  obtain ⟨b, rfl⟩ := Nat.exists_eq_add_of_le hnk
  rw [show m + a - m = a by omega, show m + a + b - (m + a) = b by omega,
    show m + a + b - m = a + b by omega, List.range'_append_1]

/-- The arrivals before one more statement. -/
theorem arrived_succ (hmn : m ≤ n) : ss.arrived m (n + 1) = ss.arrived m n ++ ss.arrivals n := by
  rw [← arrived_append hmn (Nat.le_succ n)]
  simp [arrived]

/-- A longer stretch brings no fewer rows. -/
theorem length_arrived_mono (ss : Session) (hmn : m ≤ n) (hnk : n ≤ k) :
    (ss.arrived m n).length ≤ (ss.arrived m k).length := by
  rw [← arrived_append hmn hnk, List.length_append]
  exact Nat.le_add_right _ _

/-- What arrives in a stretch arrives in every longer one. -/
theorem mem_arrived_mono {m' n' : ℕ} {r : Packet} (hm : m' ≤ m) (hmn : m ≤ n) (hn : n ≤ n')
    (h : r ∈ ss.arrived m n) : r ∈ ss.arrived m' n' := by
  rw [← arrived_append (hm.trans hmn) hn, ← arrived_append hm hmn]
  exact List.mem_append_left _ (List.mem_append_right _ h)

/-- The table and what has arrived only grow. -/
theorem table_subset {table : List Packet} (hmn : m ≤ n) :
    table ++ ss.arrived 0 m ⊆ table ++ ss.arrived 0 n := by
  rw [← arrived_append (Nat.zero_le m) hmn, ← List.append_assoc]
  exact List.subset_append_left _ _

/-- A row that has arrived did so before one of the statements. -/
theorem mem_arrived {row : Packet} (h : row ∈ ss.arrived m n) :
    ∃ k, m ≤ k ∧ k < n ∧ row ∈ ss.arrivals k := by
  obtain ⟨k, hk, hrow⟩ := List.mem_flatMap.1 h
  rw [List.mem_range'_1] at hk
  exact ⟨k, hk.1, by omega, hrow⟩

end

/-! ## What one statement does -/

section
variable {ss : Session} {s t u : State F}

/-- Between `s` and `t` the rows that arrive up to statement `n` are all that happens to `Packet`,
and `n` is where `t` has got to, or the statement it fails in. -/
structure Amid (ss : Session) (n : ℕ) (s t : State F) : Prop where
  le : s.statements ≤ n
  reached : n ≤ t.statements + 1
  packet : t.packet = s.packet ++ ss.arrived s.statements n
  statements : s.statements ≤ t.statements
  readings : s.readings ≤ t.readings

/-- Only the table and the counts of statements and clock readings matter. -/
theorem Amid.of_eq {n : ℕ} (h : Amid ss n s t) (hstatements : u.statements = t.statements)
    (hpacket : u.packet = t.packet) (hreadings : t.readings ≤ u.readings) : Amid ss n s u where
  le := h.le
  reached := hstatements ▸ h.reached
  packet := hpacket.trans h.packet
  statements := hstatements ▸ h.statements
  readings := h.readings.trans hreadings

/-- The statements between `s` and `t` have all succeeded. -/
abbrev Between (ss : Session) (s t : State F) : Prop := Amid ss t.statements s t

/-- No statement yet. -/
theorem Between.refl (ss : Session) (s : State F) : Between ss s s :=
  ⟨le_rfl, Nat.le_succ _, by simp, le_rfl, le_rfl⟩

/-- What happens between states adds up. -/
theorem Between.trans_amid {n : ℕ} (h : Between ss s t) (h' : Amid ss n t u) : Amid ss n s u where
  le := h.le.trans h'.le
  reached := h'.reached
  packet := by rw [h'.packet, h.packet, List.append_assoc, arrived_append h.le h'.le]
  statements := h.le.trans h'.statements
  readings := h.readings.trans h'.readings

/-- The case of statements that succeed. -/
theorem Between.trans (h : Between ss s t) (h' : Between ss t u) : Between ss s u :=
  h.trans_amid h'

/-- The state after a statement that succeeds. -/
def next (ss : Session) (s : State F) : State F :=
  { s with packet := s.packet ++ ss.arrivals s.statements, statements := s.statements + 1 }

/-- One statement that succeeds. -/
theorem between_next (ss : Session) (s : State F) : Between ss s (ss.next s) where
  le := Nat.le_succ _
  reached := Nat.le_succ _
  packet := by simp [next, arrived_succ]
  statements := Nat.le_succ _
  readings := le_rfl

/-- The rule of a statement: it fails after some rows have arrived, or what follows it runs. -/
theorem execute_bind_ends {f : State F → Except (State F) (State F)} {Q E : State F → Prop}
    (hfail : E { s with packet := s.packet ++ ss.arrivals s.statements })
    (hok : Ends (f (ss.next s)) Q E) : Ends (ss.execute s >>= f) Q E :=
  PacketProcessor.execute_bind_ends (fun _ => hfail) hok

/-- The state that is left behind by a statement that fails. -/
theorem amid_failed (ss : Session) (s : State F) :
    Amid ss (s.statements + 1) s { s with packet := s.packet ++ ss.arrivals s.statements } where
  le := Nat.le_succ _
  reached := le_rfl
  packet := by simp [arrived_succ]
  statements := le_rfl
  readings := le_rfl

end

/-! ## Tables up to their marks -/

/-- A row without its mark. -/
def unmark (row : Packet) : Packet := { row with to_be_deleted := 0 }

@[simp] theorem unmark_markRow (hs : List ℕ) (row : Packet) :
    unmark (markRow hs row) = unmark row := by
  unfold markRow unmark
  split <;> rfl

/-- Two tables differ in the marks of their rows only. -/
def Same (table table' : List Packet) : Prop := table.map unmark = table'.map unmark

section
variable {table table' more : List Packet} {hash : ℕ}

/-- It works both ways. -/
theorem Same.symm (h : Same table table') : Same table' table := Eq.symm h

/-- The same rows more make no difference. -/
theorem Same.append (h : Same table table') (more : List Packet) :
    Same (table ++ more) (table' ++ more) := by
  simpa [Same] using h

/-- Nor do marks. -/
theorem Same.mark (h : Same table table') (hs : List ℕ) :
    Same (table.map (markRow hs)) table' := by
  unfold Same at *
  rw [← h, List.map_map]
  exact List.map_congr_left fun row _ => unmark_markRow hs row

/-- The rows of a hash agree in every column but the mark. -/
theorem Same.map_rowsOf {β : Type} {f : Packet → β} (hf : ∀ row, f (unmark row) = f row)
    (h : Same table table') (hash : ℕ) :
    (rowsOf table hash).map f = (rowsOf table' hash).map f := by
  have hrows : ∀ table, (rowsOf table hash).map f =
      (rowsOf (table.map unmark) hash).map f := by
    intro table
    unfold rowsOf
    rw [List.filter_map, List.map_map]
    exact List.map_congr_left fun row _ => (hf row).symm
  rw [hrows table, hrows table', h]

/-- A column of a row of one table is that of a row of the other. -/
theorem Same.exists_row (h : Same table table') {row : Packet} (hrow : row ∈ table) :
    ∃ row' ∈ table', row'.hash = row.hash ∧ row'.addr = row.addr ∧
      row'.timestamp = row.timestamp := by
  have hmem : unmark row ∈ table'.map unmark := h ▸ List.mem_map_of_mem hrow
  obtain ⟨row', hrow', heq⟩ := List.mem_map.1 hmem
  have hhash : (unmark row').hash = (unmark row).hash := by rw [heq]
  have haddr : (unmark row').addr = (unmark row).addr := by rw [heq]
  have htime : (unmark row').timestamp = (unmark row).timestamp := by rw [heq]
  exact ⟨row', hrow', hhash, haddr, htime⟩

end

/-- The number of receivers that makes a hash worth locating. -/
def needed (esp_number : ℕ) : ℕ := if esp_number < 4 then esp_number else esp_number / 2 + 1

/-- A counter at the threshold is a number of receivers worth locating. -/
theorem needed_le {esp_number counter : ℕ} (h : Threshold esp_number counter) :
    needed esp_number ≤ counter := by
  unfold needed
  unfold Threshold at h
  split <;> omega

/-- More rows have no fewer receivers. -/
theorem length_dedup_mono {α : Type} [DecidableEq α] {l l' : List α} (h : l ⊆ l') :
    l.dedup.length ≤ l'.dedup.length := by
  refine (List.subperm_of_subset l.nodup_dedup fun a ha => ?_).length_le
  rw [List.mem_dedup] at ha ⊢
  exact h ha

/-- The query counts the receivers of the unmarked rows, which are no more than all. -/
theorem receivers_le (table : List Packet) (hash : ℕ) :
    receivers table hash ≤ ((rowsOf table hash).map (·.esp_id)).dedup.length := by
  refine length_dedup_mono (List.map_subset _ fun row hrow => ?_)
  rw [List.mem_filter] at hrow
  exact List.mem_filter.2 ⟨hrow.1, by simpa using (of_decide_eq_true hrow.2).1⟩

/-! ## What is stored -/

/-- A stored row is backed by the rows of its hash that had arrived when one statement ran: they
are from enough receivers, each receiver is known, and the timestamp is their average. -/
structure Backed (ss : Session) (p : PacketProcessor F) (table : List Packet) (esp : List Esp)
    (hash : ℕ) (row : Located F) (n : ℕ) : Prop where
  receivers : needed p.esp_number ≤
    ((rowsOf (table ++ ss.arrived 0 n) hash).map (·.esp_id)).dedup.length
  known : ∀ r ∈ rowsOf (table ++ ss.arrived 0 n) hash, ∃ e ∈ esp, e.esp_id = r.esp_id
  timestamp : row.timestamp =
    ((rowsOf (table ++ ss.arrived 0 n) hash).map (·.timestamp)).sum % 2 ^ 64 /
      (rowsOf (table ++ ss.arrived 0 n) hash).length
  mac : ∃ r ∈ rowsOf (table ++ ss.arrived 0 n) hash, r.addr = row.mac

/-- It is backed when one of the first `statements` statements ran. -/
def BackedBy (ss : Session) (p : PacketProcessor F) (table : List Packet) (esp : List Esp)
    (statements hash : ℕ) (row : Located F) : Prop :=
  ∃ n ≤ statements, Backed ss p table esp hash row n

/-- What is backed stays so while more statements run. -/
theorem BackedBy.mono {ss : Session} {p : PacketProcessor F} {table : List Packet} {esp : List Esp}
    {statements statements' hash : ℕ} {row : Located F}
    (h : BackedBy ss p table esp statements hash row) (hle : statements ≤ statements') :
    BackedBy ss p table esp statements' hash row := by
  obtain ⟨n, hn, h⟩ := h
  exact ⟨n, hn.trans hle, h⟩

/-- An effect that stores a row stores it in the table of its kind of address, inside the coverage
area, and the row satisfies `P`. -/
def Stores (p : PacketProcessor F) (P : ℕ → Located F → Prop) (e : Effect F) : Prop :=
  (∃ c, e = .trilaterate c) ∨
    ∃ hash row firstByteMAC, P hash row ∧ p.isInside row.x row.y = true ∧
      stol16 (row.mac.take 2) = some firstByteMAC ∧
      e = if isLocal firstByteMAC then .insertLocalMac hash row else .insertDevice hash row

/-- A stored row may satisfy less. -/
theorem Stores.mono {p : PacketProcessor F} {P Q : ℕ → Located F → Prop} {e : Effect F}
    (hPQ : ∀ hash row, P hash row → Q hash row) (h : Stores p P e) : Stores p Q e := by
  rcases h with h | ⟨hash, row, b, hP, h⟩
  · exact .inl h
  · exact .inr ⟨hash, row, b, hPQ _ _ hP, h⟩

/-- The number of rows that effects store. -/
def rowsStored (es : List (Effect F)) : ℕ :=
  (es.filterMap Effect.deviceRow).length + (es.filterMap Effect.localMacRow).length

/-- An effect stores at most one row. -/
theorem rowsStored_le_length (es : List (Effect F)) : rowsStored es ≤ es.length := by
  unfold rowsStored
  induction es with
  | nil => exact le_rfl
  | cons e es ih =>
    cases e <;> simp [List.filterMap_cons, Effect.deviceRow, Effect.localMacRow] <;> omega

@[simp] theorem rowsStored_nil : rowsStored ([] : List (Effect F)) = 0 := rfl

/-- A call of the optimiser stores nothing. -/
theorem rowsStored_trilaterate_cons (c : Call F) (es : List (Effect F)) :
    rowsStored (.trilaterate c :: es) = rowsStored es := rfl

/-- The rows of effects one after the other add up. -/
theorem rowsStored_append (es es' : List (Effect F)) :
    rowsStored (es ++ es') = rowsStored es + rowsStored es' := by
  unfold rowsStored
  simp only [List.filterMap_append, List.length_append]
  omega

/-! ## One hash -/

section
variable {ss : Session} {p : PacketProcessor F} {s t u : State F}

/-- Nothing happens between a state and itself. -/
theorem After.refl (s : State F) : After [] s s := ⟨rfl, by simp, by simp, by simp⟩

/-- The insertion stores at most one row, with the position and the timestamp of the state. -/
theorem insert_ends (ss : Session) (p : PacketProcessor F) (hash : ℕ)
    (current_address : List Char) (s : State F) :
    Ends (p.insert ss hash current_address s)
      (fun t => Between ss s t ∧ ∃ es, After es s t ∧ es.length ≤ 1 ∧
        ∀ e ∈ es, Stores p (fun h row => h = hash ∧ row =
          ⟨current_address, s.pos_x, s.pos_y, s.average_timestamp⟩) e)
      fun t => (∃ n, Amid ss n s t) ∧ After [] s t := by
  unfold insert
  split
  case h_1 => exact ⟨⟨_, Between.refl ss s⟩, After.refl s⟩
  case h_2 firstByteMAC hsome =>
    split
    case isFalse => exact ⟨Between.refl ss s, [], After.refl s, by simp, by simp⟩
    case isTrue hin =>
      refine execute_bind_ends ⟨⟨_, amid_failed ss s⟩, ⟨rfl, by simp, by simp, by simp⟩⟩ ?_
      have hstores : Stores p (fun h row => h = hash ∧ row =
          ⟨current_address, s.pos_x, s.pos_y, s.average_timestamp⟩)
          (if isLocal firstByteMAC then Effect.insertLocalMac hash
            ⟨current_address, s.pos_x, s.pos_y, s.average_timestamp⟩
          else .insertDevice hash ⟨current_address, s.pos_x, s.pos_y, s.average_timestamp⟩) :=
        .inr ⟨hash, _, firstByteMAC, ⟨rfl, rfl⟩, hin, hsome, rfl⟩
      have hnext := between_next ss s
      split
      case isTrue hl =>
        rw [if_pos hl] at hstores
        refine ⟨hnext.of_eq rfl rfl le_rfl, [_], ⟨rfl, ?_, ?_, rfl⟩, le_rfl, ?_⟩
        · simp [next, Effect.deviceRow]
        · simp [next, Effect.localMacRow]
        · simpa using hstores
      case isFalse hl =>
        rw [if_neg hl] at hstores
        refine ⟨hnext.of_eq rfl rfl le_rfl, [_], ⟨rfl, ?_, ?_, rfl⟩, le_rfl, ?_⟩
        · simp [next, Effect.deviceRow]
        · simp [next, Effect.localMacRow]
        · simpa using hstores

variable [Double F]

/-- The state after the rows `done` of a hash: they are counted, summed up, and their receivers
known. -/
structure Added (ss : Session) (s : State F) (done : List Packet) (t : State F) : Prop where
  between : Between ss s t
  after : After [] s t
  count : t.count = s.count + done.length
  sum : t.average_timestamp = (s.average_timestamp + (done.map (·.timestamp)).sum) % 2 ^ 64
  known : ∀ r ∈ done, ∃ e ∈ s.esp, e.esp_id = r.esp_id

/-- One more row of the hash is counted, summed up, and its receiver is known. -/
theorem addMeasurement_ends {done : List Packet} (h : Added ss s done t) (row : Packet) :
    Ends (p.addMeasurement ss t row) (Added ss s (done ++ [row]))
      fun u => (∃ n, Amid ss n s u) ∧ After [] s u := by
  have hfail := h.between.trans_amid (amid_failed ss t)
  refine execute_bind_ends ⟨⟨_, hfail.of_eq rfl rfl le_rfl⟩, ?_⟩ ?_
  · exact ⟨h.after.esp, h.after.devices, h.after.local_macs, h.after.log⟩
  have hnext : Between ss s (ss.next t) := h.between.trans (between_next ss t)
  split
  case h_1 =>
    exact ⟨⟨_, hnext.of_eq rfl rfl le_rfl⟩,
      h.after.esp, h.after.devices, h.after.local_macs, h.after.log⟩
  case h_2 e hfind =>
    refine ⟨hnext.of_eq rfl rfl le_rfl, ⟨h.after.esp, h.after.devices,
      h.after.local_macs, h.after.log⟩, ?_, ?_, ?_⟩
    · simp [next, h.count, Nat.add_assoc]
    · simp only [next, h.sum, List.map_append, List.sum_append, List.map_cons, List.map_nil,
        List.sum_cons, List.sum_nil]
      omega
    · intro r hr
      rcases List.mem_append.1 hr with hr | hr
      · exact h.known r hr
      · have hmem : e ∈ t.esp := List.mem_of_find?_eq_some hfind
        rw [h.after.esp] at hmem
        rw [List.mem_singleton.1 hr]
        exact ⟨e, hmem, by simpa using List.find?_some hfind⟩

/-- The loop over the rows of the hash adds all of them. -/
theorem addMeasurements_ends (hs : s.average_timestamp < 2 ^ 64) (rows : List Packet) :
    Ends (rows.foldlM (p.addMeasurement ss) s) (Added ss s rows)
      fun t => (∃ n, Amid ss n s t) ∧ After [] s t :=
  Ends.foldlM (I := fun done t => Added ss s done t) rows
    ⟨Between.refl ss s, After.refl s, rfl, by simpa using (Nat.mod_eq_of_lt hs).symm, by simp⟩
    fun _ row _ _ _ h => addMeasurement_ends h row

/-! ## What one row of the loop does -/

/-- The number of rows that are not marked. -/
def unmarked (table : List Packet) : ℕ := table.countP (·.to_be_deleted = 0)

/-- The unmarked rows of two tables add up. -/
theorem unmarked_append (table table' : List Packet) :
    unmarked (table ++ table') = unmarked table + unmarked table' :=
  List.countP_append

/-- Marking a hash takes as many rows as it has receivers, or more. -/
theorem receivers_add_unmarked_le (table : List Packet) (hash : ℕ) :
    receivers table hash + unmarked (table.map (markRow [hash])) ≤ unmarked table := by
  have hrec : receivers table hash ≤
      table.countP fun r => r.hash = hash ∧ r.to_be_deleted = 0 := by
    unfold receivers
    rw [List.countP_eq_length_filter]
    exact (List.dedup_sublist _).length_le.trans_eq (List.length_map _)
  have hmarked : unmarked (table.map (markRow [hash])) =
      table.countP fun r => r.hash ≠ hash ∧ r.to_be_deleted = 0 := by
    unfold unmarked
    rw [List.countP_map]
    refine List.countP_congr fun r _ => ?_
    by_cases hr : r.hash = hash <;> simp [markRow, hr]
  have hsplit : unmarked table = (table.countP fun r => r.hash = hash ∧ r.to_be_deleted = 0) +
      table.countP fun r => r.hash ≠ hash ∧ r.to_be_deleted = 0 := by
    unfold unmarked
    rw [List.countP_eq_countP_filter_add table _ (·.hash = hash), List.countP_filter,
      List.countP_filter]
    congr 1 <;> exact List.countP_congr fun r _ => by simp [and_comm]
  omega

/-- A row of the hash was at most thirty seconds old at one of the first `readings` readings of the
clock. -/
def Young (ss : Session) (readings : ℕ) (table : List Packet) (hash : ℕ) : Prop :=
  ∃ k < readings, ∃ r ∈ table, r.hash = hash ∧ ((ss.time k : ℤ) - r.timestamp) % 2 ^ 64 ≤ 30

/-- A row of the hash was more than thirty seconds old at one of the first `readings` readings of
the clock. -/
def Old (ss : Session) (readings : ℕ) (table : List Packet) (hash : ℕ) : Prop :=
  ∃ k < readings, ∃ r ∈ table, r.hash = hash ∧ 30 < ((ss.time k : ℤ) - r.timestamp) % 2 ^ 64

/-- More readings and more rows do not change that, -/
theorem Young.mono {readings readings' : ℕ} {table table' : List Packet} {hash : ℕ}
    (h : Young ss readings table hash) (hle : readings ≤ readings') (hsub : table ⊆ table') :
    Young ss readings' table' hash := by
  obtain ⟨k, hk, r, hr, h⟩ := h
  exact ⟨k, hk.trans_le hle, r, hsub hr, h⟩

/-- nor this. -/
theorem Old.mono {readings readings' : ℕ} {table table' : List Packet} {hash : ℕ}
    (h : Old ss readings table hash) (hle : readings ≤ readings') (hsub : table ⊆ table') :
    Old ss readings' table' hash := by
  obtain ⟨k, hk, r, hr, h⟩ := h
  exact ⟨k, hk.trans_le hle, r, hsub hr, h⟩

/-- The hash has been located. -/
def IsLocated (s : State F) (hash : ℕ) : Prop := ∃ c, .trilaterate c ∈ s.log ∧ c.hash = hash

/-- The effects of a state over another: at most one row is stored, and it is backed. -/
def Wrote (ss : Session) (p : PacketProcessor F) (table : List Packet) (esp : List Esp)
    (s t : State F) : Prop :=
  ∃ es, After es s t ∧ rowsStored es ≤ 1 ∧
    ∀ e ∈ es, Stores p (BackedBy ss p table esp t.statements) e

omit [Double F] in
/-- Without an effect there is nothing to back. -/
theorem wrote_of_after {table : List Packet} {esp : List Esp} (h : After [] s t) :
    Wrote ss p table esp s t := ⟨[], h, by simp, by simp⟩

/-- What a row of the loop with hash `hash` makes of the state: whatever is stored is backed and
paid for by rows that are marked, the hash is settled, with no unmarked row, unless one of its rows
was young, and no row is marked unless the hash was located or one of its rows was old. -/
structure RowDone (ss : Session) (p : PacketProcessor F) (table : List Packet) (esp : List Esp)
    (hash : ℕ) (s t : State F) : Prop where
  same : Same t.packet (table ++ ss.arrived 0 t.statements)
  le : s.statements ≤ t.statements
  readings : s.readings ≤ t.readings
  current : ∀ r ∈ t.packet, r.to_be_deleted = 1 ∨ r ∈ s.packet ∨
    r ∈ ss.arrived s.statements t.statements
  wrote : ∃ es, After es s t ∧
    (∀ e ∈ es, Stores p (BackedBy ss p table esp t.statements) e) ∧
    needed p.esp_number * rowsStored es + unmarked t.packet ≤
      unmarked s.packet + (ss.arrived s.statements t.statements).length
  settled : (∀ r ∈ t.packet, r.hash = hash → r.to_be_deleted ≠ 0) ∨
    Young ss t.readings (table ++ ss.arrived 0 t.statements) hash
  kept : ∀ r ∈ s.packet ++ ss.arrived s.statements t.statements, r ∈ t.packet ∨
    r.hash = hash ∧ (Old ss t.readings (table ++ ss.arrived 0 t.statements) hash ∨ IsLocated t hash)

section
variable {table : List Packet} {esp : List Esp} {hash : ℕ}

omit [Double F]

/-- Statements that only let rows arrive keep the table the same up to marks. -/
theorem same_of_between (hs : Same s.packet (table ++ ss.arrived 0 s.statements))
    (h : Between ss s t) : Same t.packet (table ++ ss.arrived 0 t.statements) := by
  rw [h.packet, ← arrived_append (Nat.zero_le _) h.le, ← List.append_assoc]
  exact hs.append _

/-- A row that settles its hash without marking it. -/
theorem RowDone.of_between (hs : Same s.packet (table ++ ss.arrived 0 s.statements))
    (h : Between ss s t) (hafter : After [] s t)
    (hsettled : (∀ r ∈ t.packet, r.hash = hash → r.to_be_deleted ≠ 0) ∨
      Young ss t.readings (table ++ ss.arrived 0 t.statements) hash) :
    RowDone ss p table esp hash s t where
  same := same_of_between hs h
  le := h.le
  readings := h.readings
  current := by
    intro r hr
    rw [h.packet, List.mem_append] at hr
    exact .inr hr
  wrote := by
    refine ⟨[], hafter, by simp, ?_⟩
    rw [h.packet, unmarked_append, rowsStored_nil, Nat.mul_zero, Nat.zero_add]
    exact Nat.add_le_add_left List.countP_le_length _
  settled := hsettled
  kept := by
    intro r hr
    rw [← h.packet] at hr
    exact .inl hr

/-- The last statement of a location or of an expiry. What is stored until then is paid for by the
receivers that were counted before. -/
theorem markDeleted_ends (hs : Same s.packet (table ++ ss.arrived 0 s.statements))
    (h : Between ss s u) {es : List (Effect F)} (hafter : After es s u)
    (hstores : ∀ e ∈ es, Stores p (BackedBy ss p table esp u.statements) e)
    (hlen : rowsStored es ≤ 1) (hpaid : rowsStored es = 0 ∨
      needed p.esp_number ≤ receivers s.packet hash)
    (hreason : Old ss u.readings (table ++ ss.arrived 0 u.statements) hash ∨
      ∃ c, .trilaterate c ∈ es ∧ c.hash = hash) :
    Ends (markDeleted ss hash u) (RowDone ss p table esp hash s)
      fun t => (∃ n, Amid ss n s t) ∧ Wrote ss p table esp s t := by
  refine execute_bind_ends ⟨⟨_, h.trans_amid (amid_failed ss u)⟩, es, ?_, hlen, hstores⟩ ?_
  · exact ⟨hafter.esp, hafter.devices, hafter.local_macs, hafter.log⟩
  have hnext : Between ss s (ss.next u) := h.trans (between_next ss u)
  have hpacket := hnext.packet
  exact {
    same := (same_of_between hs hnext).mark [hash]
    le := hnext.le
    readings := hnext.readings
    current := by
      intro r hr
      obtain ⟨r', hr', rfl⟩ := List.mem_map.1 hr
      unfold markRow
      split
      case isTrue => exact .inl rfl
      case isFalse =>
        rw [hpacket, List.mem_append] at hr'
        exact .inr hr'
    wrote := by
      refine ⟨es, ⟨hafter.esp, hafter.devices, hafter.local_macs, hafter.log⟩, fun e he =>
        (hstores e he).mono fun _ _ hback => hback.mono (Nat.le_succ u.statements), ?_⟩
      have hmark := receivers_add_unmarked_le (ss.next u).packet hash
      have hall : unmarked (ss.next u).packet ≤
          unmarked s.packet + (ss.arrived s.statements (ss.next u).statements).length := by
        rw [hpacket, unmarked_append]
        exact Nat.add_le_add_left List.countP_le_length _
      have hgrow : receivers s.packet hash ≤ receivers (ss.next u).packet hash := by
        unfold receivers
        rw [hpacket, List.filter_append, List.map_append]
        exact length_dedup_mono (List.subset_append_left _ _)
      have hcost : needed p.esp_number * rowsStored es ≤ receivers (ss.next u).packet hash := by
        rcases hpaid with h0 | hneed
        · rw [h0, Nat.mul_zero]
          exact Nat.zero_le _
        · calc needed p.esp_number * rowsStored es
              ≤ needed p.esp_number * 1 := Nat.mul_le_mul_left _ hlen
            _ = needed p.esp_number := Nat.mul_one _
            _ ≤ receivers (ss.next u).packet hash := hneed.trans hgrow
      dsimp only
      omega
    settled := by
      refine .inl fun r hr hhash => ?_
      obtain ⟨r', -, rfl⟩ := List.mem_map.1 hr
      rw [markRow_hash] at hhash
      simp [markRow, hhash]
    kept := by
      intro r hr
      rw [← hpacket] at hr
      rcases eq_or_ne r.hash hash with hhash | hne
      · refine .inr ⟨hhash, hreason.imp
          (fun hold => hold.mono le_rfl (table_subset (Nat.le_succ u.statements))) ?_⟩
        rintro ⟨c, hc, hch⟩
        refine ⟨c, ?_, hch⟩
        change .trilaterate c ∈ u.log
        rw [hafter.log]
        exact List.mem_append_right _ hc
      · refine .inl (List.mem_map.2 ⟨r, hr, ?_⟩)
        simp [markRow, hne] }

end

/-- A call of `trilaterate` is the only effect of one. -/
theorem after_trilaterate (hash : ℕ) (s : State F) :
    ∃ c, After [.trilaterate c] s (p.trilaterate hash s) ∧ c.hash = hash := by
  let pos := (p.find_min (meanSquareError s.x s.y s.d) (((0 : ℤ) : F), ((0 : ℤ) : F))).getD
    (s.pos_x, s.pos_y)
  refine ⟨⟨hash, s.x, s.y, s.d, s.count, pos.1, pos.2⟩, ⟨rfl, ?_, ?_, rfl⟩, rfl⟩
  · simp [trilaterate, Effect.deviceRow]
  · simp [trilaterate, Effect.localMacRow]

omit [Double F] in
/-- The rows that a location measures back what it stores. -/
theorem backed_of_added {table : List Packet} {esp : List Esp} {hash : ℕ} {rows : List Packet}
    {current_address : List Char} {pos_x pos_y : F}
    (hs : Same s.packet (table ++ ss.arrived 0 s.statements)) (hesp : s.esp = esp)
    (hneed : needed p.esp_number ≤ receivers s.packet hash)
    (hrow : ∃ r ∈ s.packet, r.hash = hash ∧ r.addr = current_address)
    (hrows : rows.Perm (rowsOf s.packet hash)) (h0 : s.average_timestamp = 0) (hc : s.count = 0)
    (h : Added ss s rows t) :
    Backed ss p table esp hash ⟨current_address, pos_x, pos_y, t.average_timestamp / t.count⟩
      s.statements where
  receivers := by
    rw [← hs.map_rowsOf (f := (·.esp_id)) fun _ => rfl]
    exact hneed.trans (receivers_le _ _)
  known := by
    intro r hr
    have hmem := List.mem_map_of_mem (f := (·.esp_id)) hr
    rw [← hs.map_rowsOf (f := (·.esp_id)) fun _ => rfl] at hmem
    obtain ⟨r', hr', heq⟩ := List.mem_map.1 hmem
    obtain ⟨e, he, hid⟩ := h.known r' (hrows.mem_iff.2 hr')
    exact ⟨e, hesp ▸ he, hid.trans heq⟩
  timestamp := by
    have hsum := (hrows.map (·.timestamp)).sum_nat
    have hlen := hrows.length_eq
    have hmap := hs.map_rowsOf (f := (·.timestamp)) (fun _ => rfl) hash
    have hlen' := congrArg List.length hmap
    rw [List.length_map, List.length_map] at hlen'
    dsimp only
    rw [h.sum, h.count, h0, hc, hsum, hlen, hmap, hlen', Nat.zero_add, Nat.zero_add]
  mac := by
    obtain ⟨r, hr, hhash, haddr⟩ := hrow
    obtain ⟨r', hr', hhash', haddr', -⟩ := hs.exists_row hr
    refine ⟨r', List.mem_filter.2 ⟨hr', ?_⟩, haddr'.trans haddr⟩
    simpa using hhash'.trans hhash

/-- A hash that is located is done with. -/
theorem locate_ends {table : List Packet} {esp : List Esp} {hash : ℕ}
    {current_address : List Char} (hs : Same s.packet (table ++ ss.arrived 0 s.statements))
    (hesp : s.esp = esp) (hneed : needed p.esp_number ≤ receivers s.packet hash)
    (hrow : ∃ r ∈ s.packet, r.hash = hash ∧ r.addr = current_address) :
    Ends (p.locate ss hash current_address s) (RowDone ss p table esp hash s)
      fun t => (∃ n, Amid ss n s t) ∧ Wrote ss p table esp s t := by
  -- the rows are those of the table one statement later
  refine execute_bind_ends ⟨⟨_, (amid_failed ss s).of_eq rfl rfl le_rfl⟩,
    wrote_of_after ⟨rfl, by simp, by simp, by simp⟩⟩ ?_
  have hv : Between ss s (ss.next { s with average_timestamp := 0, count := 0 }) :=
    (between_next ss s).of_eq rfl rfl le_rfl
  have hvs := same_of_between hs hv
  have hva : After [] s (ss.next { s with average_timestamp := 0, count := 0 }) :=
    ⟨rfl, by simp [next], by simp [next], by simp [next]⟩
  have h0 : (ss.next { s with average_timestamp := 0, count := 0 }).average_timestamp = 0 := rfl
  have hc : (ss.next { s with average_timestamp := 0, count := 0 }).count = 0 := rfl
  generalize ss.next { s with average_timestamp := 0, count := 0 } = v at hv hvs hva h0 hc ⊢
  have hvneed : needed p.esp_number ≤ receivers v.packet hash := by
    refine hneed.trans ?_
    unfold receivers
    rw [hv.packet, List.filter_append, List.map_append]
    exact length_dedup_mono (List.subset_append_left _ _)
  have hvrow : ∃ r ∈ v.packet, r.hash = hash ∧ r.addr = current_address := by
    obtain ⟨r, hr, h⟩ := hrow
    exact ⟨r, by rw [hv.packet]; exact List.mem_append_left _ hr, h⟩
  have hperm := ss.order_perm v.statements (rowsOf v.packet hash)
  refine Ends.bind ((addMeasurements_ends (by omega) _).mono (fun _ h => h) ?_) ?_
  · rintro u ⟨⟨n, hn⟩, ha⟩
    exact ⟨⟨n, hv.trans_amid hn⟩, wrote_of_after (by simpa using hva.append ha)⟩
  intro u hu
  have hback : ∀ pos_x pos_y, Backed ss p table esp hash
      ⟨current_address, pos_x, pos_y, u.average_timestamp / u.count⟩ v.statements := fun _ _ =>
    backed_of_added hvs (hva.esp.trans hesp) hvneed hvrow hperm h0 hc hu
  have hw : Between ss s (p.trilaterate hash u) := (hv.trans hu.between).of_eq rfl rfl le_rfl
  obtain ⟨c, hc, hhash⟩ := after_trilaterate (p := p) hash u
  have hwa : After [.trilaterate c] s (p.trilaterate hash u) :=
    (hva.append hu.after).append hc
  dsimp only
  have havg : (p.trilaterate hash u).average_timestamp / (p.trilaterate hash u).count =
      u.average_timestamp / u.count := rfl
  have hvw : v.statements ≤ (p.trilaterate hash u).statements := hu.between.le
  rw [havg]
  generalize p.trilaterate hash u = w at hw hwa hvw ⊢
  have hinsert := insert_ends ss p hash current_address
    { w with average_timestamp := u.average_timestamp / u.count }
  refine Ends.bind (hinsert.mono (fun _ h => h) ?_) ?_
  · rintro t ⟨⟨n, hn⟩, ha⟩
    refine ⟨⟨n, hw.trans_amid ⟨hn.le, hn.reached, hn.packet, hn.statements, hn.readings⟩⟩,
      [.trilaterate c],
      by simpa using hwa.append ⟨ha.esp, ha.devices, ha.local_macs, ha.log⟩, Nat.zero_le _, ?_⟩
    intro e he
    exact .inl ⟨c, List.mem_singleton.1 he⟩
  · rintro t ⟨hwt, es, ha, hlen, hstores⟩
    refine markDeleted_ends hs
      (hw.trans ⟨hwt.le, hwt.reached, hwt.packet, hwt.statements, hwt.readings⟩)
      (hwa.append ⟨ha.esp, ha.devices, ha.local_macs, ha.log⟩) ?_ ?_ (.inr hneed)
      (.inr ⟨c, by simp, hhash⟩)
    · intro e he
      rcases List.mem_append.1 he with he | he
      · exact .inl ⟨c, List.mem_singleton.1 he⟩
      · refine (hstores e he).mono fun h row heq => ?_
        obtain ⟨rfl, rfl⟩ := heq
        exact ⟨_, hvw.trans hwt.statements, hback _ _⟩
    · rw [List.singleton_append, rowsStored_trilaterate_cons]
      exact (rowsStored_le_length es).trans hlen

omit [Double F] in
/-- A hash that is not located is done with as well: its rows are marked if they are old. -/
theorem expire_ends {table : List Packet} {esp : List Esp} {hash : ℕ}
    (hs : Same s.packet (table ++ ss.arrived 0 s.statements)) :
    Ends (expire ss hash s) (RowDone ss p table esp hash s)
      fun t => (∃ n, Amid ss n s t) ∧ Wrote ss p table esp s t := by
  refine execute_bind_ends ⟨⟨_, amid_failed ss s⟩, wrote_of_after ⟨rfl, by simp, by simp, by simp⟩⟩
    ?_
  have hv := between_next ss s
  have hvs := same_of_between hs hv
  have hva : After [] s (ss.next s) := ⟨rfl, by simp [next], by simp [next], by simp [next]⟩
  generalize ss.next s = v at hv hvs hva ⊢
  split
  case h_1 => exact ⟨⟨_, hv⟩, wrote_of_after hva⟩
  case h_2 row rows hrows =>
    dsimp only
    have hread : row ∈ rowsOf v.packet hash :=
      (ss.order_perm _ _).mem_iff.1 (by rw [hrows]; exact List.mem_cons_self)
    obtain ⟨hmem, hhash⟩ := List.mem_filter.1 hread
    obtain ⟨r, hr, hhash', -, htime⟩ := hvs.exists_row hmem
    split
    case isTrue hold =>
      refine markDeleted_ends hs (hv.of_eq rfl rfl (Nat.le_succ _))
        ⟨hva.esp, hva.devices, hva.local_macs, hva.log⟩ (by simp) (Nat.zero_le _) (.inl rfl)
        (.inl ⟨v.readings, Nat.lt_succ_self _, r, hr, hhash'.trans (of_decide_eq_true hhash), ?_⟩)
      rw [htime]
      exact hold
    case isFalse hyoung =>
      refine RowDone.of_between hs (hv.of_eq rfl rfl (Nat.le_succ _))
        ⟨hva.esp, hva.devices, hva.local_macs, hva.log⟩
        (.inr ⟨v.readings, Nat.lt_succ_self _, r, hr, ?_, ?_⟩)
      · exact hhash'.trans (of_decide_eq_true hhash)
      · rw [htime]
        exact Int.not_lt.1 hyoung

omit [Double F] in
/-- What the rest of a loop body does is what the whole of it does, if so far only uploads have
arrived. -/
theorem RowDone.of_later {table : List Packet} {esp : List Esp} {hash : ℕ} {v t : State F}
    (h : RowDone ss p table esp hash v t) (hv : Between ss s v) (hva : After [] s v) :
    RowDone ss p table esp hash s t where
  same := h.same
  le := hv.le.trans h.le
  readings := hv.readings.trans h.readings
  current := by
    intro r hr
    obtain hr | hr | hr := h.current r hr
    · exact .inl hr
    · rw [hv.packet, List.mem_append] at hr
      refine .inr (hr.imp_right fun hr => ?_)
      rw [← arrived_append hv.le h.le]
      exact List.mem_append_left _ hr
    · refine .inr (.inr ?_)
      rw [← arrived_append hv.le h.le]
      exact List.mem_append_right _ hr
  wrote := by
    obtain ⟨es, ha, hes, hpaid⟩ := h.wrote
    refine ⟨es, by simpa using hva.append ha, hes, hpaid.trans ?_⟩
    have hle : unmarked v.packet ≤
        unmarked s.packet + (ss.arrived s.statements v.statements).length := by
      rw [hv.packet, unmarked_append]
      exact Nat.add_le_add_left List.countP_le_length _
    rw [← arrived_append hv.le h.le, List.length_append]
    omega
  settled := h.settled
  kept := by
    intro r hr
    refine h.kept r ?_
    rw [hv.packet, List.append_assoc, arrived_append hv.le h.le]
    exact hr

/-- The rule of the loop body, for a row of the snapshot. -/
theorem processRow_ends {table : List Packet} {esp : List Esp} {row : Packet}
    (hs : Same s.packet (table ++ ss.arrived 0 s.statements)) (hesp : s.esp = esp)
    (hrow : ∃ r ∈ s.packet, r.hash = row.hash ∧ r.addr = row.addr) :
    Ends (p.processRow ss s row) (RowDone ss p table esp row.hash s)
      fun t => (∃ n, Amid ss n s t) ∧ Wrote ss p table esp s t := by
  refine execute_bind_ends ⟨⟨_, amid_failed ss s⟩, wrote_of_after ⟨rfl, by simp, by simp, by simp⟩⟩
    ?_
  have hv := between_next ss s
  have hvs := same_of_between hs hv
  have hva : After [] s (ss.next s) := ⟨rfl, by simp [next], by simp [next], by simp [next]⟩
  have hvrow : ∃ r ∈ (ss.next s).packet, r.hash = row.hash ∧ r.addr = row.addr := by
    obtain ⟨r, hr, h⟩ := hrow
    exact ⟨r, by rw [hv.packet]; exact List.mem_append_left _ hr, h⟩
  generalize ss.next s = v at hv hvs hva hvrow ⊢
  have hexit : ∀ t, (∃ n, Amid ss n v t) ∧ Wrote ss p table esp v t →
      (∃ n, Amid ss n s t) ∧ Wrote ss p table esp s t := by
    rintro t ⟨⟨n, hn⟩, es, ha, hes⟩
    exact ⟨⟨n, hv.trans_amid hn⟩, es, by simpa using hva.append ha, hes⟩
  dsimp only
  split
  case isTrue hreach =>
    exact (locate_ends hvs (hva.esp.trans hesp) (needed_le hreach) hvrow).mono
      (fun _ h => h.of_later hv hva) hexit
  case isFalse =>
    split
    case isTrue => exact (expire_ends hvs).mono (fun _ h => h.of_later hv hva) hexit
    case isFalse hcounter =>
      -- no unmarked row: the hash was treated before
      refine RowDone.of_between hs hv hva (.inl fun r hr hhash h0 => hcounter fun hnil => ?_)
      unfold receivers at hnil
      rw [List.length_eq_zero_iff, List.dedup_eq_nil, List.map_eq_nil_iff,
        List.filter_eq_nil_iff] at hnil
      exact hnil r hr (by simpa using ⟨hhash, h0⟩)

end

end Session

end PacketProcessor

end DetectionSystem

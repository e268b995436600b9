import DetectionSystem.Server.Interference
import DetectionSystem.Server.Process
import Mathlib.Algebra.Order.BigOperators.Group.List
import Mathlib.Algebra.Order.Group.Nat

/-!
# Accounting for what was uploaded

`Loop` is the invariant of the loop of `process()` while rows arrive, and `process_ends` what a call
leaves under any interleaving with the uploads. From it follow the grounds of each row that is
stored (`stored_justified`), which rows are still in `Packet` afterwards and why the others are not
(`rows_accounted`), and that, over any number of calls and program exits, the rows that are marked
pay for the positions that are stored (`run_accounted`).
-/

namespace DetectionSystem

namespace PacketProcessor

namespace Session

variable {F : Type}

section
variable {ss : Session} {p : PacketProcessor F} {s t u : State F}

/-! ## The loop -/

/-- The log is what was inserted, and all of it is backed. -/
structure Recorded (ss : Session) (p : PacketProcessor F) (table : List Packet) (esp : List Esp)
    (devices local_macs : List (Located F)) (s : State F) : Prop where
  devices : s.devices = devices ++ s.log.filterMap Effect.deviceRow
  local_macs : s.local_macs = local_macs ++ s.log.filterMap Effect.localMacRow
  stores : ∀ e ∈ s.log, Stores p (BackedBy ss p table esp s.statements) e

/-- The state of the loop after the rows `pre` of the snapshot: the unmarked rows and those arriving
pay for what is stored, a hash that was met has no unmarked row left but for late arrivals, unless
one of its rows was young, and a row that is not there any more belongs to a hash that was located
or that had an old row. -/
structure Loop (ss : Session) (p : PacketProcessor F) (table : List Packet) (esp : List Esp)
    (devices local_macs : List (Located F)) (pre : List Packet) (s : State F) : Prop
    extends Recorded ss p table esp devices local_macs s where
  same : Same s.packet (table ++ ss.arrived 0 s.statements)
  snapshot : 2 ≤ s.statements
  current : ∀ r ∈ s.packet, r.to_be_deleted = 1 ∨ r ∈ table ++ ss.arrived 0 s.statements
  espTable : s.esp = esp
  paid : needed p.esp_number * rowsStored s.log + unmarked s.packet ≤
    unmarked table + (ss.arrived 0 s.statements).length
  settled : ∀ row ∈ pre,
    (∀ r ∈ s.packet, r.hash = row.hash → r.to_be_deleted = 0 → r ∈ ss.arrived 2 s.statements) ∨
      Young ss s.readings (table ++ ss.arrived 0 s.statements) row.hash
  kept : ∀ r ∈ table ++ ss.arrived 0 s.statements, r ∈ s.packet ∨
    Old ss s.readings (table ++ ss.arrived 0 s.statements) r.hash ∨ IsLocated s r.hash

/-- Where the program exits, at most one row is stored that no marked rows have paid for. -/
structure Exited (ss : Session) (p : PacketProcessor F) (table : List Packet) (esp : List Esp)
    (devices local_macs : List (Located F)) (s : State F) : Prop
    extends Recorded ss p table esp devices local_macs s where
  paid : needed p.esp_number * rowsStored s.log + unmarked s.packet ≤
    unmarked table + (ss.arrived 0 (s.statements + 1)).length + needed p.esp_number

section
variable {table : List Packet} {esp : List Esp} {devices local_macs : List (Located F)}
  {pre : List Packet} {row : Packet}

/-- More effects are recorded. -/
theorem Recorded.append (h : Recorded ss p table esp devices local_macs s)
    (hle : s.statements ≤ t.statements) {es : List (Effect F)} (hafter : After es s t)
    (hstores : ∀ e ∈ es, Stores p (BackedBy ss p table esp t.statements) e) :
    Recorded ss p table esp devices local_macs t where
  devices := by
    rw [hafter.devices, h.devices, hafter.log, List.filterMap_append, List.append_assoc]
  local_macs := by
    rw [hafter.local_macs, h.local_macs, hafter.log, List.filterMap_append, List.append_assoc]
  stores := by
    intro e he
    rw [hafter.log, List.mem_append] at he
    refine he.elim (fun he => (h.stores e he).mono fun _ _ hback => ?_) (hstores e)
    exact hback.mono hle

/-- The loop body keeps the invariant. -/
theorem Loop.rowDone (h : Loop ss p table esp devices local_macs pre s)
    (hrow : RowDone ss p table esp row.hash s t) :
    Loop ss p table esp devices local_macs (pre ++ [row]) t := by
  obtain ⟨es, hafter, hstores, hpaid⟩ := hrow.wrote
  have harr : ss.arrived 0 t.statements = ss.arrived 0 s.statements ++
      ss.arrived s.statements t.statements := (arrived_append (Nat.zero_le _) hrow.le).symm
  have hsub : table ++ ss.arrived 0 s.statements ⊆ table ++ ss.arrived 0 t.statements :=
    table_subset hrow.le
  exact {
    h.toRecorded.append hrow.le hafter hstores with
    same := hrow.same
    snapshot := h.snapshot.trans hrow.le
    current := by
      intro r hr
      obtain hr | hr | hr := hrow.current r hr
      · exact .inl hr
      · exact (h.current r hr).imp_right fun hr => hsub hr
      · rw [harr]
        exact .inr (List.mem_append_right _ (List.mem_append_right _ hr))
    espTable := hafter.esp.trans h.espTable
    paid := by
      have hs := h.paid
      rw [hafter.log, rowsStored_append, harr, List.length_append, Nat.mul_add]
      omega
    settled := by
      intro row' hrow'
      rcases List.mem_append.1 hrow' with hrow' | hrow'
      · refine (h.settled row' hrow').imp (fun hs r hr hhash h0 => ?_) fun hy =>
          hy.mono hrow.readings hsub
        obtain hr | hr | hr := hrow.current r hr
        · exact absurd h0 (by omega)
        · exact mem_arrived_mono le_rfl h.snapshot hrow.le (hs r hr hhash h0)
        · exact mem_arrived_mono h.snapshot hrow.le le_rfl hr
      · rw [List.mem_singleton.1 hrow']
        exact hrow.settled.imp_left fun hs r hr hhash h0 => absurd h0 (hs r hr hhash)
    kept := by
      intro r hr
      rw [harr, ← List.append_assoc, List.mem_append] at hr
      have hmove : r ∈ s.packet ++ ss.arrived s.statements t.statements →
          r ∈ t.packet ∨ Old ss t.readings (table ++ ss.arrived 0 t.statements) r.hash ∨
            IsLocated t r.hash := by
        intro hr
        refine (hrow.kept r hr).imp_right fun hgone => ?_
        obtain ⟨hhash, hgone⟩ := hgone
        rw [hhash]
        exact hgone
      rcases hr with hr | hr
      · obtain hs | hold | ⟨c, hc, hch⟩ := h.kept r hr
        · exact hmove (List.mem_append_left _ hs)
        · exact .inr (.inl (hold.mono hrow.readings hsub))
        · refine .inr (.inr ⟨c, ?_, hch⟩)
          rw [hafter.log]
          exact List.mem_append_left _ hc
      · exact hmove (List.mem_append_right _ hr) }

/-- A loop body that is left by an exit. -/
theorem Loop.exited (h : Loop ss p table esp devices local_macs pre s) {n : ℕ}
    (hamid : Amid ss n s t) (hwrote : Wrote ss p table esp s t) :
    Exited ss p table esp devices local_macs t := by
  obtain ⟨es, hafter, hlen, hstores⟩ := hwrote
  refine { h.toRecorded.append hamid.statements hafter hstores with paid := ?_ }
  have hs := h.paid
  have harr : (ss.arrived 0 s.statements).length + (ss.arrived s.statements n).length ≤
      (ss.arrived 0 (t.statements + 1)).length := by
    rw [← List.length_append, arrived_append (Nat.zero_le _) hamid.le]
    exact length_arrived_mono ss (Nat.zero_le _) hamid.reached
  have hcost : needed p.esp_number * rowsStored es ≤ needed p.esp_number := by
    calc needed p.esp_number * rowsStored es
        ≤ needed p.esp_number * 1 := Nat.mul_le_mul_left _ hlen
      _ = needed p.esp_number := Nat.mul_one _
  have hrows : unmarked (ss.arrived s.statements n) ≤ (ss.arrived s.statements n).length :=
    List.countP_le_length
  rw [hafter.log, rowsStored_append, hamid.packet, unmarked_append, Nat.mul_add]
  omega

end

/-! ## A call -/

/-- What a call that returns leaves in the tables. -/
structure Returned (ss : Session) (p : PacketProcessor F) (table : List Packet) (esp : List Esp)
    (devices local_macs : List (Located F)) (s : State F) : Prop
    extends Recorded ss p table esp devices local_macs s where
  paid : needed p.esp_number * rowsStored s.log + unmarked s.packet ≤
    unmarked table + (ss.arrived 0 s.statements).length
  left : ∀ r ∈ s.packet, r.to_be_deleted ≠ 1 ∧ r ∈ table ++ ss.arrived 0 s.statements ∧
    (r.to_be_deleted = 0 → r ∈ ss.arrived 2 s.statements ∨
      Young ss s.readings (table ++ ss.arrived 0 s.statements) r.hash)
  gone : ∀ r ∈ table ++ ss.arrived 0 s.statements, r.to_be_deleted ≠ 1 → r ∈ s.packet ∨
    Old ss s.readings (table ++ ss.arrived 0 s.statements) r.hash ∨ IsLocated s r.hash

/-- The loop has read the rows of the first query; the marked rows are removed. -/
theorem Loop.returned {ss : Session} {p : PacketProcessor F} {table : List Packet} {esp : List Esp}
    {devices local_macs : List (Located F)} {pre : List Packet} {t : State F}
    (ht : Loop ss p table esp devices local_macs pre t)
    (hread : ∀ r ∈ table ++ ss.arrived 0 2, r ∈ pre) :
    Returned ss p table esp devices local_macs
      { ss.next t with packet := (ss.next t).packet.filter (·.to_be_deleted ≠ 1) } := by
  have hlast : ss.arrived 0 (t.statements + 1) = ss.arrived 0 t.statements ++
      ss.arrivals t.statements := arrived_succ (Nat.zero_le _)
  have hstores : ∀ e ∈ t.log, Stores p (BackedBy ss p table esp (t.statements + 1)) e :=
    fun e he => (ht.stores e he).mono fun _ _ hback => hback.mono (Nat.le_succ _)
  refine ⟨⟨ht.devices, ht.local_macs, hstores⟩, ?_, ?_, ?_⟩
  · have hpaid := ht.paid
    have hfilter : unmarked ((ss.next t).packet.filter (·.to_be_deleted ≠ 1)) ≤
        unmarked t.packet + (ss.arrivals t.statements).length := by
      calc unmarked ((ss.next t).packet.filter (·.to_be_deleted ≠ 1))
          ≤ unmarked (ss.next t).packet := List.filter_sublist.countP_le
        _ = unmarked t.packet + unmarked (ss.arrivals t.statements) := unmarked_append _ _
        _ ≤ unmarked t.packet + (ss.arrivals t.statements).length :=
          Nat.add_le_add_left List.countP_le_length _
    have hlog : (ss.next t).log = t.log := rfl
    have hstat : (ss.next t).statements = t.statements + 1 := rfl
    dsimp only
    rw [hlog, hstat, hlast, List.length_append]
    omega
  · intro r hr
    obtain ⟨hr, h1⟩ := List.mem_filter.1 hr
    have h1 : r.to_be_deleted ≠ 1 := by simpa using h1
    have hlate : ∀ {r}, r ∈ ss.arrived 2 t.statements → r ∈ ss.arrived 2 (t.statements + 1) :=
      fun hr => mem_arrived_mono le_rfl ht.snapshot (Nat.le_succ _) hr
    change r.to_be_deleted ≠ 1 ∧ r ∈ table ++ ss.arrived 0 (t.statements + 1) ∧
      (r.to_be_deleted = 0 → r ∈ ss.arrived 2 (t.statements + 1) ∨
        Young ss t.readings (table ++ ss.arrived 0 (t.statements + 1)) r.hash)
    rw [hlast, ← List.append_assoc]
    refine ⟨h1, ?_, ?_⟩
    · rcases List.mem_append.1 hr with hr | hr
      · exact List.mem_append_left _ ((ht.current r hr).resolve_left h1)
      · exact List.mem_append_right _ hr
    intro h0
    rcases List.mem_append.1 hr with hr | hr
    · have hcur := (ht.current r hr).resolve_left h1
      rw [← arrived_append (Nat.zero_le 2) ht.snapshot, ← List.append_assoc] at hcur
      rcases List.mem_append.1 hcur with hfirst | hcur
      · refine (ht.settled r (hread r hfirst)).imp (fun hs => hlate (hs r hr rfl h0)) ?_
        exact fun hy => hy.mono le_rfl (List.subset_append_left _ _)
      · exact .inl (hlate hcur)
    · rw [arrived_succ ht.snapshot]
      exact .inl (List.mem_append_right _ hr)
  · intro r hr h1
    change r ∈ (ss.next t).packet.filter (·.to_be_deleted ≠ 1) ∨
      Old ss t.readings (table ++ ss.arrived 0 (t.statements + 1)) r.hash ∨ IsLocated t r.hash
    have hsub : table ++ ss.arrived 0 t.statements ⊆ table ++ ss.arrived 0 (t.statements + 1) :=
      table_subset (Nat.le_succ _)
    change r ∈ table ++ ss.arrived 0 (t.statements + 1) at hr
    rw [hlast, ← List.append_assoc, List.mem_append] at hr
    rcases hr with hr | hr
    · refine (ht.kept r hr).imp (fun hr => ?_) fun h => h.imp_left (·.mono le_rfl hsub)
      exact List.mem_filter.2 ⟨List.mem_append_left _ hr, by simpa using h1⟩
    · exact .inl (List.mem_filter.2 ⟨List.mem_append_right _ hr, by simpa using h1⟩)

end

section
variable [Double F] (ss : Session) (p : PacketProcessor F) (table : List Packet) (esp : List Esp)
  (devices local_macs : List (Located F))

/-- An exit before the loop. -/
theorem exited_of_empty {ss : Session} {p : PacketProcessor F} {table : List Packet}
    {esp : List Esp} {devices local_macs : List (Located F)} {n : ℕ}
    (hamid : Amid ss n (init table esp devices local_macs) t)
    (hafter : After [] (init table esp devices local_macs) t) :
    Exited ss p table esp devices local_macs t := by
  have hlog : t.log = [] := by simpa [init] using hafter.log
  refine ⟨⟨?_, ?_, ?_⟩, ?_⟩
  · rw [hafter.devices, hlog]
    rfl
  · rw [hafter.local_macs, hlog]
    rfl
  · simp [hlog]
  · rw [hlog, rowsStored_nil, hamid.packet, unmarked_append, Nat.mul_zero, Nat.zero_add,
      Nat.add_assoc]
    have hrows : unmarked (ss.arrived 0 n) ≤ (ss.arrived 0 n).length := List.countP_le_length
    have hle := length_arrived_mono ss (Nat.zero_le n) hamid.reached
    exact Nat.add_le_add_left (hrows.trans (hle.trans (Nat.le_add_right _ _))) _

/-- The rows of the first query, before the loop. -/
theorem loop_start {s : State F} (hbetween : Between ss (init table esp devices local_macs) s)
    (hafter : After [] (init table esp devices local_macs) s) (hstatements : s.statements = 2) :
    s.packet = table ++ ss.arrived 0 2 ∧ Loop ss p table esp devices local_macs [] s := by
  have hsnap : s.packet = table ++ ss.arrived 0 2 := hstatements ▸ hbetween.packet
  have hlog : s.log = [] := by simpa [init] using hafter.log
  refine ⟨hsnap, ⟨?_, ?_, ?_⟩, ?_, hstatements.ge, ?_, hafter.esp, ?_, ?_, ?_⟩
  · rw [hafter.devices, hlog]
    rfl
  · rw [hafter.local_macs, hlog]
    rfl
  · simp [hlog]
  · unfold Same
    rw [hsnap, hstatements]
  · intro r hr
    rw [hsnap, ← hstatements] at hr
    exact .inr hr
  · have hrows : unmarked (ss.arrived 0 2) ≤ (ss.arrived 0 2).length := List.countP_le_length
    rw [hsnap, unmarked_append, hlog, hstatements, rowsStored_nil]
    omega
  · simp
  · intro r hr
    rw [hstatements] at hr
    rw [hsnap]
    exact .inl hr

/-- What a call leaves when it returns, and where it exits. -/
theorem process_ends : Ends (p.process ss table esp devices local_macs)
    (Returned ss p table esp devices local_macs) (Exited ss p table esp devices local_macs) := by
  have h0 := Between.refl ss (init table esp devices local_macs)
  refine execute_bind_ends (exited_of_empty (amid_failed ss _) ⟨rfl, by simp, by simp, by simp⟩) ?_
  have h1 := h0.trans (between_next ss _)
  refine execute_bind_ends (exited_of_empty (h1.trans_amid (amid_failed ss _))
    ⟨rfl, by simp [next], by simp [next], by simp [next]⟩) ?_
  have h2 := h1.trans (between_next ss _)
  obtain ⟨hsnap, hloop⟩ := loop_start ss p table esp devices local_macs h2
    ⟨rfl, by simp [next], by simp [next], by simp [next]⟩ rfl
  generalize ss.next (ss.next (init table esp devices local_macs)) = s at hsnap hloop ⊢
  have hperm := ss.order_perm 2 s.packet
  refine Ends.bind (Ends.foldlM (I := Loop ss p table esp devices local_macs) _ hloop ?_) ?_
  · intro pre row post t hrows ht
    have hread : row ∈ s.packet := by
      refine hperm.mem_iff.1 ?_
      change row ∈ retrievedPackets ss.toEnvironment s.packet
      rw [hrows]
      simp
    have hmem : ∃ r ∈ t.packet, r.hash = row.hash ∧ r.addr = row.addr := by
      rw [hsnap] at hread
      have hread' : row ∈ table ++ ss.arrived 0 t.statements := by
        refine List.mem_append.2 ((List.mem_append.1 hread).imp_right fun hr => ?_)
        exact mem_arrived_mono le_rfl (Nat.zero_le _) ht.snapshot hr
      obtain ⟨r, hr, hhash, haddr, -⟩ := ht.same.symm.exists_row hread'
      exact ⟨r, hr, hhash, haddr⟩
    refine (processRow_ends ht.same ht.espTable hmem).mono (fun _ h => ht.rowDone h) ?_
    rintro u ⟨⟨n, hn⟩, hw⟩
    exact ht.exited hn hw
  intro t ht
  refine execute_bind_ends (ht.exited (amid_failed ss t)
    (wrote_of_after ⟨rfl, by simp, by simp, by simp⟩)) ?_
  exact ht.returned fun r hr => hperm.mem_iff.2 (hsnap.symm ▸ hr)

end

/-! ## What a call does to the tables -/

/-- The state when `process()` returns, or when the program exits in it. -/
def finalState : Except (State F) (State F) → State F
  | .ok t => t
  | .error t => t

/-- A rounded average is between two of the numbers. -/
theorem exists_le_average {l : List ℕ} (h : l ≠ []) :
    (∃ a ∈ l, a ≤ l.sum / l.length) ∧ ∃ b ∈ l, l.sum / l.length ≤ b := by
  have hpos : 0 < l.length := List.length_pos_iff.2 h
  constructor
  · have hlt : (l.map id).sum < (l.map fun _ => l.sum / l.length + 1).sum := by
      simpa using Nat.lt_mul_div_succ l.sum hpos
    obtain ⟨a, ha, hle⟩ := List.exists_lt_of_sum_lt _ _ hlt
    exact ⟨a, ha, Nat.lt_succ_iff.1 hle⟩
  · have hle : (l.map fun _ => l.sum / l.length).sum ≤ (l.map id).sum := by
      simpa using Nat.mul_div_le l.sum l.length
    exact List.exists_le_of_sum_le h _ _ hle

/-- A row of `Devices`, or of `Local_Macs`, has its grounds: it is inside the coverage area, its
address is of the kind of its table, and the rows of a hash that had arrived when one of the first
`statements` statements ran back it. Its timestamp is between theirs unless their sum overflows. -/
structure Justified (ss : Session) (p : PacketProcessor F) (table : List Packet) (esp : List Esp)
    (statements : ℕ) (row : Located F) (isLocalMac : Bool) : Prop where
  inside : p.isInside row.x row.y = true
  kind : ∃ firstByteMAC, stol16 (row.mac.take 2) = some firstByteMAC ∧
    isLocal firstByteMAC = isLocalMac
  backed : ∃ hash, ∃ n ≤ statements, Backed ss p table esp hash row n ∧
    (((rowsOf (table ++ ss.arrived 0 n) hash).map (·.timestamp)).sum < 2 ^ 64 →
      (∃ r ∈ rowsOf (table ++ ss.arrived 0 n) hash, r.timestamp ≤ row.timestamp) ∧
        ∃ r ∈ rowsOf (table ++ ss.arrived 0 n) hash, row.timestamp ≤ r.timestamp)

section
variable {ss : Session} {p : PacketProcessor F} {table : List Packet} {esp : List Esp}
  {devices local_macs : List (Located F)} {t : State F}

/-- An average is between the numbers, if their sum fits. -/
theorem Backed.average {hash n : ℕ} {row : Located F} (h : Backed ss p table esp hash row n)
    (hsum : ((rowsOf (table ++ ss.arrived 0 n) hash).map (·.timestamp)).sum < 2 ^ 64) :
    (∃ r ∈ rowsOf (table ++ ss.arrived 0 n) hash, r.timestamp ≤ row.timestamp) ∧
      ∃ r ∈ rowsOf (table ++ ss.arrived 0 n) hash, row.timestamp ≤ r.timestamp := by
  obtain ⟨r, hr, -⟩ := h.mac
  have hne : (rowsOf (table ++ ss.arrived 0 n) hash).map (·.timestamp) ≠ [] :=
    List.ne_nil_of_mem (List.mem_map_of_mem hr)
  have haverage := exists_le_average hne
  rw [← Nat.mod_eq_of_lt hsum, List.length_map, ← h.timestamp] at haverage
  simpa using haverage

/-- What the log says of the two tables. -/
theorem Recorded.justified (h : Recorded ss p table esp devices local_macs t) :
    (∃ new, t.devices = devices ++ new ∧
        ∀ row ∈ new, Justified ss p table esp t.statements row false) ∧
      ∃ new, t.local_macs = local_macs ++ new ∧
        ∀ row ∈ new, Justified ss p table esp t.statements row true := by
  have hjust : ∀ {row b} (hash : ℕ), BackedBy ss p table esp t.statements hash row →
      p.isInside row.x row.y = true → stol16 (row.mac.take 2) = some b →
      Justified ss p table esp t.statements row (isLocal b) := by
    rintro row b hash ⟨n, hn, hback⟩ hin hb
    exact ⟨hin, ⟨b, hb, rfl⟩, hash, n, hn, hback, hback.average⟩
  refine ⟨⟨_, h.devices, fun row hrow => ?_⟩, _, h.local_macs, fun row hrow => ?_⟩ <;>
    obtain ⟨e, he, hrow⟩ := List.mem_filterMap.1 hrow <;>
    obtain ⟨c, rfl⟩ | ⟨hash, row', b, hback, hin, hb, rfl⟩ := h.stores e he
  · cases hrow
  · cases hl : isLocal b with
    | true => simp [hl, Effect.deviceRow] at hrow
    | false =>
      obtain rfl : row' = row := by simpa [hl, Effect.deviceRow] using hrow
      exact hl ▸ hjust hash hback hin hb
  · cases hrow
  · cases hl : isLocal b with
    | true =>
      obtain rfl : row' = row := by simpa [hl, Effect.localMacRow] using hrow
      exact hl ▸ hjust hash hback hin hb
    | false => simp [hl, Effect.localMacRow] at hrow

end

section
variable [Double F]

/-- **Nothing is made up.** However the uploads interleave with a call, and however the call ends,
it only appends to the tables of positions, and each row it appends has its grounds. -/
theorem stored_justified (ss : Session) (p : PacketProcessor F) (table : List Packet)
    (esp : List Esp) (devices local_macs : List (Located F)) :
    (∃ new, (finalState (p.process ss table esp devices local_macs)).devices = devices ++ new ∧
        ∀ row ∈ new, Justified ss p table esp
          (finalState (p.process ss table esp devices local_macs)).statements row false) ∧
      ∃ new, (finalState (p.process ss table esp devices local_macs)).local_macs =
          local_macs ++ new ∧
        ∀ row ∈ new, Justified ss p table esp
          (finalState (p.process ss table esp devices local_macs)).statements row true := by
  have h := process_ends ss p table esp devices local_macs
  cases hproc : p.process ss table esp devices local_macs with
  | error t => rw [hproc] at h; exact Recorded.justified h.toRecorded
  | ok t => rw [hproc] at h; exact Recorded.justified h.toRecorded

/-- **No upload is lost silently.** When a call returns, an unmarked row that was there or has
arrived is still there only if it came after the first query or its hash had a young row, and it is
gone only if its hash was located or had an old row. Nothing else is there. -/
theorem rows_accounted (ss : Session) (p : PacketProcessor F) (table : List Packet)
    (esp : List Esp) (devices local_macs : List (Located F)) (t : State F)
    (h01 : ∀ n, ∀ r ∈ table ++ ss.arrived 0 n, r.to_be_deleted = 0 ∨ r.to_be_deleted = 1)
    (ht : p.process ss table esp devices local_macs = .ok t) :
    (∀ r ∈ t.packet, r ∈ table ++ ss.arrived 0 t.statements ∧
        (r ∈ ss.arrived 2 t.statements ∨
          Young ss t.readings (table ++ ss.arrived 0 t.statements) r.hash)) ∧
      ∀ r ∈ table ++ ss.arrived 0 t.statements, r.to_be_deleted = 0 → r ∉ t.packet →
        Old ss t.readings (table ++ ss.arrived 0 t.statements) r.hash ∨ IsLocated t r.hash := by
  have h := process_ends ss p table esp devices local_macs
  rw [ht] at h
  refine ⟨fun r hr => ?_, fun r hr h0 hgone => ?_⟩
  · obtain ⟨h1, hmem, hleft⟩ := h.left r hr
    exact ⟨hmem, hleft ((h01 _ r hmem).resolve_right h1)⟩
  · exact (h.gone r hr (by omega)).resolve_left hgone

/-- A session in which one more row of hash 7 arrives before the first query and one of hash 9
while the loop goes on. -/
def busy : Session :=
  { calm with
    arrivals := fun k => if k = 1 then [packetOf 1 7] else if k = 5 then [packetOf 1 9] else [] }

/-- Hash 7 is located from a row that has just arrived; hash 9 is kept, with its late row. -/
theorem rows_accounted_busy :
    ∃ t, twoReceivers.process busy [packetOf 0 9, packetOf 0 7] twoEsps [] [] = .ok t ∧
      (∀ r ∈ t.packet, r ∈ [packetOf 0 9, packetOf 0 7] ++ busy.arrived 0 t.statements ∧
        (r ∈ busy.arrived 2 t.statements ∨ Young busy t.readings
          ([packetOf 0 9, packetOf 0 7] ++ busy.arrived 0 t.statements) r.hash)) ∧
      ∀ r ∈ [packetOf 0 9, packetOf 0 7] ++ busy.arrived 0 t.statements, r.to_be_deleted = 0 →
        r ∉ t.packet → Old busy t.readings
          ([packetOf 0 9, packetOf 0 7] ++ busy.arrived 0 t.statements) r.hash ∨
            IsLocated t r.hash := by
  have harrivals : ∀ k, ∀ r ∈ busy.arrivals k, r.to_be_deleted = 0 := by
    intro k r hr
    unfold busy at hr
    dsimp only at hr
    split_ifs at hr
    · rw [List.mem_singleton.1 hr]; rfl
    · rw [List.mem_singleton.1 hr]; rfl
    · cases hr
  refine ⟨_, rfl, rows_accounted busy twoReceivers _ twoEsps [] [] _ (fun n r hr => ?_) rfl⟩
  rcases List.mem_append.1 hr with hr | hr
  · have htable : ∀ r ∈ [packetOf 0 9, packetOf 0 7], r.to_be_deleted = 0 := by simp [packetOf]
    exact .inl (htable r hr)
  · obtain ⟨k, -, -, hr⟩ := mem_arrived hr
    exact .inl (harrivals k r hr)

end

/-! ## All the calls of a deployment -/

/-- The tables between two calls of `process()`, with the number of rows uploaded so far and of
times the program has exited in a call and was started again on the same tables. -/
structure History (F : Type) where
  packet : List Packet
  devices : List (Located F)
  local_macs : List (Located F)
  uploaded : ℕ := 0
  exits : ℕ := 0

section
variable [Double F] (p : PacketProcessor F) (esp : List Esp)

/-- One more call. -/
def History.call (h : History F) (ss : Session) : History F :=
  match p.process ss h.packet esp h.devices h.local_macs with
  | .ok t =>
    ⟨t.packet, t.devices, t.local_macs, h.uploaded + (ss.arrived 0 t.statements).length, h.exits⟩
  | .error t =>
    ⟨t.packet, t.devices, t.local_macs, h.uploaded + (ss.arrived 0 (t.statements + 1)).length,
      h.exits + 1⟩

/-- What the positions stored are worth in rows, and the rows that can still be used. -/
def History.worth (h : History F) : ℕ :=
  needed p.esp_number * (h.devices.length + h.local_macs.length) + unmarked h.packet

omit [Double F] in
/-- The two tables grow by what is stored. -/
theorem Recorded.length_eq {ss : Session} {p : PacketProcessor F} {table : List Packet}
    {esp : List Esp} {devices local_macs : List (Located F)} {t : State F}
    (h : Recorded ss p table esp devices local_macs t) :
    t.devices.length + t.local_macs.length =
      devices.length + local_macs.length + rowsStored t.log := by
  unfold rowsStored
  rw [h.devices, h.local_macs, List.length_append, List.length_append]
  omega

/-- A call uses up the rows that it turns into positions. -/
theorem History.call_worth (h : History F) (ss : Session) :
    (h.call p esp ss).worth p + h.uploaded + needed p.esp_number * h.exits ≤
      h.worth p + (h.call p esp ss).uploaded + needed p.esp_number * (h.call p esp ss).exits := by
  have hends := process_ends ss p h.packet esp h.devices h.local_macs
  unfold History.call
  cases hproc : p.process ss h.packet esp h.devices h.local_macs with
  | ok t =>
    rw [hproc] at hends
    have hlen := hends.toRecorded.length_eq
    have hpaid := hends.paid
    simp only [worth, hlen, Nat.mul_add]
    omega
  | error t =>
    rw [hproc] at hends
    have hlen := hends.toRecorded.length_eq
    have hpaid := hends.paid
    simp only [worth, hlen, Nat.mul_add, Nat.mul_one]
    omega

/-- **Conservation.** Over any number of calls, interleaved with the uploads in any way, each
position that is stored has used up as many uploaded rows as a hash needs receivers, but for one
position for each time the program has exited in a call. -/
theorem run_accounted (h : History F) (sessions : List Session) :
    (sessions.foldl (History.call p esp) h).worth p + h.uploaded + needed p.esp_number * h.exits ≤
      h.worth p + (sessions.foldl (History.call p esp) h).uploaded +
        needed p.esp_number * (sessions.foldl (History.call p esp) h).exits := by
  refine List.foldlRecOn (motive := fun t : History F =>
    t.worth p + h.uploaded + needed p.esp_number * h.exits ≤
      h.worth p + t.uploaded + needed p.esp_number * t.exits) sessions _ le_rfl ?_
  intro t ht ss _
  have hcall := t.call_worth p esp ss
  omega

end

end Session

end PacketProcessor

end DetectionSystem

import DetectionSystem.Server.Process
import Mathlib.Data.List.Induction

/-!
# Where the stored positions come from

`trilaterate` catches the exception of its optimiser and leaves its two output variables as they
were; they are declared in front of the loop, so that what they hold then is the position of an
earlier packet, or the `(-1, -1)` they start with. Nothing tells the insertion that follows, and it
stores what it finds.

`effects_of_row` says what the body of the loop can add to the log, and when. From it,
`ownPositions_iff` says which calls of `process()` store own positions only: those in which,
whenever the optimiser throws, the position that was left is outside the coverage area, or the
program exits before it is stored.
-/

namespace DetectionSystem

namespace PacketProcessor

/-- The row an effect inserts into `Devices` or `Local_Macs`. -/
def Effect.row {F : Type} : Effect F → Option (Located F)
  | .trilaterate _ => none
  | .insertDevice _ row => some row
  | .insertLocalMac _ row => some row

variable {F : Type} [Double F] {p : PacketProcessor F} {env : Environment} {s t u : State F}

/-- What the optimiser finds on the vectors of a call. -/
def Call.found (p : PacketProcessor F) (c : Call F) : Option (F × F) :=
  p.find_min (meanSquareError c.x c.y c.d) (((0 : ℤ) : F), ((0 : ℤ) : F))

/-- No row is inserted for a hash for which the optimiser throws, and every inserted row has the
position that the optimiser found for its hash. -/
structure OwnPositions (p : PacketProcessor F) (log : List (Effect F)) : Prop where
  failed : ∀ c, .trilaterate c ∈ log → c.found p = none → ∀ e ∈ log, e.hash = c.hash → e.row = none
  computed : ∀ e ∈ log, ∀ row ∈ e.row, ∃ c, .trilaterate c ∈ log ∧ c.hash = e.hash ∧
    c.found p = some (row.x, row.y)

/-! ## One hash -/

/-- The call of `trilaterate` for a hash with the measurements `own`, in state `s`. -/
def callIn (p : PacketProcessor F) (s : State F) (hash : ℕ) (own : List (Measurement F)) : Call F :=
  let x := s.x ++ own.map (·.x)
  let y := s.y ++ own.map (·.y)
  let d := s.d ++ own.map (·.d)
  let pos := (p.find_min (meanSquareError x y d) (((0 : ℤ) : F), ((0 : ℤ) : F))).getD
    (s.pos_x, s.pos_y)
  ⟨hash, x, y, d, own.length, pos.1, pos.2⟩

/-- The rows are read with the statements from number `first` on, and each of them has its receiver:
`own` are their measurements. -/
structure ReadsRows (p : PacketProcessor F) (env : Environment) (esp : List Esp) (first : ℕ)
    (rows : List Packet) (own : List (Measurement F)) : Prop where
  sql : ∀ k < own.length, env.sqlOk (first + k) = true
  each : own.map some = rows.map (p.measure esp)

/-- The loop body that starts in state `s` reads all the rows of a hash, in the order in which the
server returns them. -/
structure Reads (p : PacketProcessor F) (env : Environment) (s : State F) (hash : ℕ)
    (own : List (Measurement F)) : Prop where
  counted : env.sqlOk s.statements = true
  queried : env.sqlOk (s.statements + 1) = true
  rows : ReadsRows p env s.esp (s.statements + 2)
    (env.order (s.statements + 2) (rowsOf s.packet hash)) own

/-- A row is inserted for an address at a position, by statement number `n`. -/
structure Inserts (p : PacketProcessor F) (env : Environment) (n : ℕ) (addr : List Char)
    (pos_x pos_y : F) : Prop where
  addr : (stol16 (addr.take 2)).isSome
  inside : p.isInside pos_x pos_y = true
  sql : env.sqlOk n = true

/-- The effects of the loop body for `row` from the state `s`. -/
inductive RowEffects (p : PacketProcessor F) (env : Environment) (s : State F) (row : Packet) :
    List (Effect F) → Prop
  | idle : ¬ (p.Reaches s.packet row.hash ∧ ∃ own, Reads p env s row.hash own) →
      RowEffects p env s row []
  | called {own : List (Measurement F)} {c : Call F} : p.Reaches s.packet row.hash →
      Reads p env s row.hash own → c = callIn p s row.hash own →
      ¬ Inserts p env (s.statements + 2 + own.length) row.addr c.pos_x c.pos_y →
      RowEffects p env s row [.trilaterate c]
  | stored {own : List (Measurement F)} {c : Call F} {e : Effect F} {r : Located F} :
      p.Reaches s.packet row.hash → Reads p env s row.hash own → c = callIn p s row.hash own →
      Inserts p env (s.statements + 2 + own.length) row.addr c.pos_x c.pos_y →
      e.hash = row.hash → e.row = some r → r.x = c.pos_x → r.y = c.pos_y →
      RowEffects p env s row [.trilaterate c, e]

/-- `t` is `s` after the rows of a hash have been measured as `own`. -/
structure Added (s : State F) (own : List (Measurement F)) (t : State F) : Prop where
  frame : Frame s t
  x : t.x = s.x ++ own.map (·.x)
  y : t.y = s.y ++ own.map (·.y)
  d : t.d = s.d ++ own.map (·.d)
  count : t.count = s.count + own.length
  statements : t.statements = s.statements + own.length

/-- The loop over the rows of a hash goes through exactly if it can read all of them. -/
theorem addMeasurements_added (rows : List Packet) (s : State F) :
    Ends (rows.foldlM (p.addMeasurement env) s)
      (fun t => ∃ own, ReadsRows p env s.esp s.statements rows own ∧ Added s own t)
      fun t => t.log = s.log ∧ ¬ ∃ own, ReadsRows p env s.esp s.statements rows own := by
  refine Ends.foldlM (I := fun done t => ∃ own, ReadsRows p env s.esp s.statements done own ∧
    Added s own t) rows ?_ ?_
  · exact ⟨[], ⟨by simp, rfl⟩, Frame.refl s, by simp, by simp, by simp, rfl, rfl⟩
  intro pre row post t hrows hpre
  obtain ⟨own, hreads, hadded⟩ := hpre
  have hlen : own.length = pre.length := by simpa using congrArg List.length hreads.each
  unfold addMeasurement
  simp only [execute, hadded.statements]
  split
  case isFalse hfail =>
    refine ⟨hadded.frame.log, ?_⟩
    rintro ⟨own', hreads'⟩
    have hlen' : own'.length = rows.length := by simpa using congrArg List.length hreads'.each
    rw [hrows, List.length_append, List.length_cons] at hlen'
    exact hfail (hreads'.sql _ (by omega))
  case isTrue hok =>
    simp only [bind, Except.bind, hadded.frame.esp]
    split
    case h_1 hnone =>
      refine ⟨hadded.frame.log, ?_⟩
      rintro ⟨own', hreads'⟩
      have hmem : p.measure s.esp row ∈ own'.map some := by
        rw [hreads'.each, hrows]
        exact List.mem_map_of_mem (by simp)
      simp [measure, hnone] at hmem
    case h_2 e hsome =>
      refine ⟨own ++ [⟨e.x, e.y, p.getDistanceFromRSSI ((row.rssi : ℤ) : F)⟩], ⟨?_, ?_⟩, ?_⟩
      · intro k hk
        rw [List.length_append, List.length_singleton] at hk
        rcases Nat.lt_succ_iff_lt_or_eq.1 hk with hk | rfl
        · exact hreads.sql k hk
        · exact hok
      · simp [hreads.each, measure, hsome]
      · refine ⟨hadded.frame.trans ⟨rfl, hadded.frame.esp.symm, rfl, rfl, rfl, rfl, rfl⟩,
          ?_, ?_, ?_, ?_, ?_⟩
        · simp [hadded.x]
        · simp [hadded.y]
        · simp [hadded.d]
        · simp [hadded.count, Nat.add_assoc]
        · simp [Nat.add_assoc]

omit [Double F] in
/-- The rule of a statement that knows its number. -/
theorem execute_bind {f : State F → Except (State F) (State F)} {Q E : State F → Prop}
    (hfail : ¬ env.sqlOk s.statements = true → E s)
    (hok : env.sqlOk s.statements = true → Ends (f { s with statements := s.statements + 1 }) Q E) :
    Ends (execute env s >>= f) Q E := by
  unfold execute
  split
  case isTrue h => exact hok h
  case isFalse h => exact hfail h

omit [Double F] in
/-- The insertion stores the position it finds, or nothing. -/
theorem insert_stores (hash : ℕ) (addr : List Char) (s : State F) :
    Ends (p.insert env hash addr s)
      (fun t => t.packet = s.packet ∧
        ((t.log = s.log ∧ ¬ Inserts p env s.statements addr s.pos_x s.pos_y) ∨
          ∃ e r, t.log = s.log ++ [e] ∧ Inserts p env s.statements addr s.pos_x s.pos_y ∧
            e.hash = hash ∧ e.row = some r ∧ r.x = s.pos_x ∧ r.y = s.pos_y))
      fun t => t.log = s.log ∧ ¬ Inserts p env s.statements addr s.pos_x s.pos_y := by
  unfold insert
  split
  case h_1 hnone => exact ⟨rfl, fun h => by simpa [hnone] using h.addr⟩
  case h_2 firstByteMAC hsome =>
    dsimp only
    split
    case isFalse hout => exact ⟨rfl, .inl ⟨rfl, fun h => hout h.inside⟩⟩
    case isTrue hin =>
      refine execute_bind (fun hfail => ⟨rfl, fun h => hfail h.sql⟩) fun hok => ?_
      have hins : Inserts p env s.statements addr s.pos_x s.pos_y := ⟨by simp [hsome], hin, hok⟩
      split
      · exact ⟨rfl, .inr ⟨_, _, rfl, hins, rfl, rfl, rfl, rfl⟩⟩
      · exact ⟨rfl, .inr ⟨_, _, rfl, hins, rfl, rfl, rfl, rfl⟩⟩

/-- The last two statements of a location, from the state `w` that the call of `trilaterate` leaves.
-/
theorem store_effects {row : Packet} {own : List (Measurement F)} {w : State F}
    (hreach : p.Reaches s.packet row.hash) (hreads : Reads p env s row.hash own)
    (hlog : w.log = s.log ++ [.trilaterate (callIn p s row.hash own)])
    (hx : w.pos_x = (callIn p s row.hash own).pos_x)
    (hy : w.pos_y = (callIn p s row.hash own).pos_y) (hpacket : w.packet = s.packet)
    (hstatements : w.statements = s.statements + 2 + own.length) :
    Ends (p.insert env row.hash row.addr w >>= markDeleted env row.hash)
      (fun t => ∃ es, RowEffects p env s row es ∧ t.log = s.log ++ es ∧
        t.packet = s.packet.map (markRow [row.hash]))
      fun t => ∃ es, RowEffects p env s row es ∧ t.log = s.log ++ es := by
  have hstored : Ends (p.insert env row.hash row.addr w) _ _ := insert_stores row.hash row.addr w
  rw [hstatements, hx, hy] at hstored
  refine Ends.bind (hstored.mono (fun _ h => h) ?_) ?_
  · intro t ht
    exact ⟨_, .called hreach hreads rfl ht.2, ht.1.trans hlog⟩
  intro t ht
  obtain ⟨htp, ht⟩ := ht
  have hes : ∃ es, RowEffects p env s row es ∧ t.log = s.log ++ es := by
    rcases ht with ⟨hsame, hout⟩ | ⟨e, r, hnew, hins, hhash, hrow, hrx, hry⟩
    · exact ⟨_, .called hreach hreads rfl hout, hsame.trans hlog⟩
    · exact ⟨_, .stored hreach hreads rfl hins hhash hrow hrx hry, by rw [hnew, hlog]; simp⟩
  obtain ⟨es, hes, hnew⟩ := hes
  exact markDeleted_ends (fun _ => ⟨es, hes, hnew⟩) ⟨es, hes, hnew, by rw [htp, hpacket]⟩

/-- The effects of a location, from the state in which the loop body started. -/
theorem locate_effects {row : Packet} (hreach : p.Reaches s.packet row.hash)
    (hcounted : env.sqlOk s.statements = true) :
    Ends (p.locate env row.hash row.addr { s with statements := s.statements + 1 })
      (fun t => ∃ es, RowEffects p env s row es ∧ t.log = s.log ++ es ∧
        t.packet = s.packet.map (markRow [row.hash]))
      fun t => ∃ es, RowEffects p env s row es ∧ t.log = s.log ++ es := by
  refine execute_bind (fun hfail => ?_) fun hqueried => ?_
  · exact ⟨[], .idle fun h => hfail h.2.choose_spec.queried, by simp⟩
  refine Ends.bind ((addMeasurements_added _ _).mono (fun _ h => h) ?_) ?_
  · intro t ht
    exact ⟨[], .idle fun h => ht.2 ⟨_, h.2.choose_spec.rows⟩, by simpa using ht.1⟩
  intro v hv
  obtain ⟨own, hrows, hv⟩ := hv
  have hreads : Reads p env s row.hash own := ⟨hcounted, hqueried, hrows⟩
  refine store_effects hreach hreads ?_ ?_ ?_ hv.frame.packet hv.statements
  · simp [trilaterate, callIn, hv.x, hv.y, hv.d, hv.count, hv.frame.pos_x, hv.frame.pos_y,
      hv.frame.log]
  · simp [trilaterate, callIn, hv.x, hv.y, hv.d, hv.frame.pos_x, hv.frame.pos_y]
  · simp [trilaterate, callIn, hv.x, hv.y, hv.d, hv.frame.pos_x, hv.frame.pos_y]

/-- The effects of the loop body, however it ends. A hash with effects has no receivers left. -/
theorem processRow_effects (s : State F) (row : Packet) :
    Ends (p.processRow env s row)
      (fun t => ∃ es hs, RowEffects p env s row es ∧ t.log = s.log ++ es ∧
        t.packet = s.packet.map (markRow hs) ∧ (es ≠ [] → row.hash ∈ hs))
      fun t => ∃ es, RowEffects p env s row es ∧ t.log = s.log ++ es := by
  refine execute_bind (fun hfail => ?_) fun hcounted => ?_
  · exact ⟨[], .idle fun h => hfail h.2.choose_spec.counted, by simp⟩
  dsimp only
  split
  case isTrue hreach =>
    refine (locate_effects hreach hcounted).mono ?_ (fun _ h => h)
    rintro t ⟨es, hes, hlog, hpacket⟩
    exact ⟨es, [row.hash], hes, hlog, hpacket, by simp⟩
  case isFalse hbelow =>
    have hidle : RowEffects p env s row [] := .idle fun h => hbelow h.1
    split
    case isTrue =>
      refine (expire_ends row.hash _).mono ?_ ?_
      · rintro t ⟨⟨hs, -, hpacket⟩, hafter, -⟩
        exact ⟨[], hs, hidle, by simpa using hafter.log, hpacket, by simp⟩
      · rintro t ⟨hlog, -⟩
        exact ⟨[], hidle, by simpa using hlog⟩
    case isFalse => exact ⟨[], [], hidle, by simp, by simp, by simp⟩

/-! ## The loop -/

/-- The loop body stores a position that was not computed for its hash: the optimiser throws, and
the position that was left, which is the one in state `s`, is inserted. -/
def StoresStale (p : PacketProcessor F) (env : Environment) (s : State F) (row : Packet) : Prop :=
  p.Reaches s.packet row.hash ∧ ∃ own, Reads p env s row.hash own ∧
    (callIn p s row.hash own).found p = none ∧
    Inserts p env (s.statements + 2 + own.length) row.addr s.pos_x s.pos_y

/-- `process()` up to the rows `pre` of its loop: the state it goes on in, or the one it exits in.
-/
def processUpTo (p : PacketProcessor F) (env : Environment) (packet : List Packet)
    (esp : List Esp) (devices local_macs : List (Located F)) (pre : List Packet) :
    Except (State F) (State F) := do
  let s ← execute env (init packet esp devices local_macs)
  let s ← execute env s
  pre.foldlM (p.processRow env) s

/-- The effects of a row are for its hash. -/
theorem RowEffects.hash_eq {row : Packet} {es : List (Effect F)} (h : RowEffects p env s row es)
    {e : Effect F} (he : e ∈ es) : e.hash = row.hash := by
  cases h with
  | idle => cases he
  | called _ _ hc =>
    obtain rfl := List.mem_singleton.1 he
    rw [hc]
    rfl
  | stored _ _ hc _ hhash =>
    rcases List.mem_pair.1 he with rfl | rfl
    · rw [hc]
      rfl
    · exact hhash

/-- The measurements are determined by the state. -/
theorem Reads.unique {hash : ℕ} {own own' : List (Measurement F)} (h : Reads p env s hash own)
    (h' : Reads p env s hash own') : own = own' :=
  List.map_injective_iff.2 (Option.some_injective _) (h.rows.each.trans h'.rows.each.symm)

/-- Without an exception the position left is the one found. -/
theorem found_callIn {hash : ℕ} {own : List (Measurement F)} {pos : F × F}
    (h : (callIn p s hash own).found p = some pos) :
    pos = ((callIn p s hash own).pos_x, (callIn p s hash own).pos_y) := by
  unfold Call.found at h
  simp only [callIn] at h ⊢
  rw [h]
  rfl

/-- With an exception it is the one from before. -/
theorem pos_callIn {hash : ℕ} {own : List (Measurement F)}
    (h : (callIn p s hash own).found p = none) :
    (callIn p s hash own).pos_x = s.pos_x ∧ (callIn p s hash own).pos_y = s.pos_y := by
  unfold Call.found at h
  simp only [callIn] at h ⊢
  rw [h]
  exact ⟨rfl, rfl⟩

/-- A loop body that stores a stale position has the failed call and the row among its effects. -/
theorem RowEffects.of_stale {row : Packet} {es : List (Effect F)} (h : RowEffects p env s row es)
    {own : List (Measurement F)} (hreach : p.Reaches s.packet row.hash)
    (hreads : Reads p env s row.hash own) (hfailed : (callIn p s row.hash own).found p = none)
    (hins : Inserts p env (s.statements + 2 + own.length) row.addr s.pos_x s.pos_y) :
    .trilaterate (callIn p s row.hash own) ∈ es ∧ ∃ e ∈ es, e.hash = row.hash ∧ e.row ≠ none := by
  have hpos := pos_callIn hfailed
  cases h with
  | idle hidle => exact absurd ⟨hreach, own, hreads⟩ hidle
  | called _ hreads' hc hout =>
    obtain rfl := hreads.unique hreads'
    rw [hc, hpos.1, hpos.2] at hout
    exact absurd hins hout
  | stored _ hreads' hc _ hhash hrow =>
    obtain rfl := hreads.unique hreads'
    exact ⟨by simp [hc], _, by simp, hhash, by simp [hrow]⟩

/-- Only a hash that reaches the threshold has effects. -/
theorem RowEffects.reaches {row : Packet} {es : List (Effect F)} (h : RowEffects p env s row es)
    {e : Effect F} (he : e ∈ es) : p.Reaches s.packet row.hash := by
  cases h with
  | idle => cases he
  | called hreach => exact hreach
  | stored hreach => exact hreach

/-- The effects of a loop body that does not store a stale position. -/
theorem RowEffects.ownPositions {row : Packet} {es : List (Effect F)}
    (h : RowEffects p env s row es) (hstale : ¬ StoresStale p env s row) : OwnPositions p es := by
  cases h with
  | idle => exact ⟨by simp, by simp⟩
  | called => exact ⟨by simp [Effect.row], by simp [Effect.row]⟩
  | stored hreach hreads hc hins hhash hrow hx hy =>
    rename_i own c e₀ r₀
    have hfound : ∃ pos, c.found p = some pos := by
      refine Option.ne_none_iff_exists'.1 fun hnone => hstale ⟨hreach, own, hreads, ?_, ?_⟩
      · rw [← hc, hnone]
      · have hpos := pos_callIn (hc ▸ hnone)
        rwa [hc, hpos.1, hpos.2] at hins
    obtain ⟨pos, hpos⟩ := hfound
    constructor
    · intro c' hc' hfailed
      rcases List.mem_pair.1 hc' with heq | heq
      · cases heq
        rw [hpos] at hfailed
        cases hfailed
      · rw [← heq] at hrow
        cases hrow
    · intro e he r hr
      rcases List.mem_pair.1 he with rfl | rfl
      · cases hr
      · have hhash' : c.hash = e.hash := by
          rw [hhash, hc]
          rfl
        refine ⟨c, by simp, hhash', ?_⟩
        obtain rfl : r₀ = r := Option.some.inj (hrow.symm.trans hr)
        rw [hpos, hx, hy, hc]
        exact congrArg some (found_callIn (hc ▸ hpos))

/-- Own positions of two logs that share no hash. -/
theorem OwnPositions.append {log es : List (Effect F)} (h : OwnPositions p log)
    (hes : OwnPositions p es) (hapart : ∀ e ∈ log, ∀ e' ∈ es, e.hash ≠ e'.hash) :
    OwnPositions p (log ++ es) := by
  constructor
  · intro c hc hfailed e he heq
    rcases List.mem_append.1 hc with hc | hc <;> rcases List.mem_append.1 he with he | he
    · exact h.failed c hc hfailed e he heq
    · exact absurd heq.symm (hapart _ hc e he)
    · exact absurd heq (hapart e he _ hc)
    · exact hes.failed c hc hfailed e he heq
  · intro e he r hr
    rcases List.mem_append.1 he with he | he
    · obtain ⟨c, hc, hown⟩ := h.computed e he r hr
      exact ⟨c, List.mem_append_left _ hc, hown⟩
    · obtain ⟨c, hc, hown⟩ := hes.computed e he r hr
      exact ⟨c, List.mem_append_right _ hc, hown⟩

/-- The invariant of the loop: no hash in the log can be located again. -/
structure OwnInv (p : PacketProcessor F) (s : State F) : Prop where
  own : OwnPositions p s.log
  done : ∀ e ∈ s.log, receivers s.packet e.hash = 0

/-- The loop body keeps the positions own, unless it stores a stale one. -/
theorem OwnInv.append (h : OwnInv p s) (hn : 0 < p.esp_number) {row : Packet}
    (hstale : ¬ StoresStale p env s row) {es : List (Effect F)} (hes : RowEffects p env s row es) :
    OwnPositions p (s.log ++ es) := by
  refine h.own.append (hes.ownPositions hstale) fun e he e' he' heq => ?_
  have hreached := (hes.reaches he').pos hn
  rw [← hes.hash_eq he', ← heq, h.done e he] at hreached
  exact lt_irrefl 0 hreached

/-- A row that stores no stale position keeps the invariant; where it ends the program, the stored
positions are own ones all the same. -/
theorem OwnInv.processRow (h : OwnInv p s) (hn : 0 < p.esp_number) {row : Packet}
    (hstale : ¬ StoresStale p env s row) :
    Ends (p.processRow env s row) (OwnInv p) fun t => OwnPositions p t.log := by
  refine (processRow_effects s row).mono ?_ ?_
  · rintro t ⟨es, hs, hes, hlog, hpacket, hmark⟩
    refine ⟨hlog ▸ h.append hn hstale hes, fun e he => ?_⟩
    rw [hlog] at he
    rw [hpacket]
    by_cases hmem : e.hash ∈ hs
    · exact receivers_map_markRow_of_mem hmem _
    rw [receivers_map_markRow hmem]
    rcases List.mem_append.1 he with he | he
    · exact h.done e he
    · exact absurd (hmark (List.ne_nil_of_mem he)) (hes.hash_eq he ▸ hmem)
  · rintro t ⟨es, hes, hlog⟩
    exact hlog ▸ h.append hn hstale hes

/-- The log only grows. -/
theorem log_grows (rows : List Packet) (s : State F) :
    Ends (rows.foldlM (p.processRow env) s) (fun t : State F => s.log <+: t.log)
      fun t : State F => s.log <+: t.log := by
  refine Ends.foldlM (I := fun _ (t : State F) => s.log <+: t.log) rows (List.prefix_refl _) ?_
  intro pre row post t _ ht
  refine (processRow_effects t row).mono ?_ ?_
  · rintro u ⟨es, hs, -, hlog, -⟩
    exact ht.trans ⟨es, hlog.symm⟩
  · rintro u ⟨es, -, hlog⟩
    exact ht.trans ⟨es, hlog.symm⟩

omit [Double F] in
/-- What holds of the log however a statement ends holds of the final log. -/
theorem finalLog_of_ends {P : List (Effect F) → Prop} {x : Except (State F) (State F)}
    (h : Ends x (fun t => P t.log) fun t => P t.log) : P (finalLog x) := by
  cases x with
  | ok t => exact h
  | error t => exact h

variable {table : List Packet} {esp : List Esp} {devices local_macs : List (Located F)}

/-- The last statement of `process()` has no effect. -/
theorem finalLog_process :
    finalLog (p.process env table esp devices local_macs) =
      finalLog (p.processUpTo env table esp devices local_macs (retrievedPackets env table)) := by
  unfold process processUpTo
  by_cases h0 : env.sqlOk 0 <;> by_cases h1 : env.sqlOk 1 <;>
    simp only [execute, init, h0, h1, if_true, if_false, Bool.false_eq_true, bind, Except.bind]
  generalize List.foldlM (m := Except (State F)) _ _ _ = x
  cases x with
  | error t => rfl
  | ok t => by_cases ht : env.sqlOk t.statements <;> simp [ht, finalLog]

/-- Rows one after the other. -/
theorem processUpTo_append (pre rest : List Packet) :
    p.processUpTo env table esp devices local_macs (pre ++ rest) =
      p.processUpTo env table esp devices local_macs pre >>= fun s =>
        rest.foldlM (p.processRow env) s := by
  unfold processUpTo execute
  by_cases h0 : env.sqlOk 0 <;> by_cases h1 : env.sqlOk 1 <;>
    simp [init, h0, h1, bind, Except.bind, List.foldlM_append]

/-- No loop body that is entered stores a stale position. -/
def NeverStale (p : PacketProcessor F) (env : Environment) (table : List Packet) (esp : List Esp)
    (devices local_macs : List (Located F)) : Prop :=
  ∀ pre row post s, retrievedPackets env table = pre ++ row :: post →
    p.processUpTo env table esp devices local_macs pre = .ok s → ¬ StoresStale p env s row

/-- The positions of the whole loop, where no body stores a stale one. -/
theorem processUpTo_own (hn : 0 < p.esp_number)
    (h : NeverStale p env table esp devices local_macs) {pre : List Packet}
    (hpre : pre <+: retrievedPackets env table) :
    Ends (p.processUpTo env table esp devices local_macs pre) (OwnInv p)
      fun t => OwnPositions p t.log := by
  have hempty : OwnPositions p ([] : List (Effect F)) := ⟨by simp, by simp⟩
  induction pre using List.reverseRecOn with
  | nil =>
    refine execute_bind (fun _ => hempty) fun _ => execute_bind (fun _ => hempty) fun _ => ?_
    exact ⟨hempty, by simp [init]⟩
  | append_singleton pre row ih =>
    obtain ⟨post, hpost⟩ := hpre
    rw [List.append_assoc, List.singleton_append] at hpost
    have hends := ih ⟨row :: post, hpost⟩
    rw [processUpTo_append]
    cases hs : p.processUpTo env table esp devices local_macs pre with
    | error t =>
      rw [hs] at hends
      exact hends
    | ok s =>
      rw [hs] at hends
      show Ends ([row].foldlM (p.processRow env) s) _ _
      rw [List.foldlM_cons]
      exact Ends.bind (hends.processRow hn (h pre row post s hpost.symm hs)) fun _ ht => ht

/-- **Own positions.** Every row that a call of `process()` inserts has the position that the
optimiser found for its hash, and no row is inserted for a hash for which it throws, if and only if
no loop body stores a stale position. -/
theorem ownPositions_iff (p : PacketProcessor F) (env : Environment) (table : List Packet)
    (esp : List Esp) (devices local_macs : List (Located F)) (hn : 0 < p.esp_number) :
    OwnPositions p (finalLog (p.process env table esp devices local_macs)) ↔
      NeverStale p env table esp devices local_macs := by
  rw [finalLog_process]
  constructor
  · intro hown pre row post s hrows hs hstale
    obtain ⟨hreach, own, hreads, hfailed, hins⟩ := hstale
    -- however the loop goes on, the call and the row stay in the log
    have hmem : ∃ e, .trilaterate (callIn p s row.hash own) ∈ finalLog (p.processUpTo env table esp
        devices local_macs (retrievedPackets env table)) ∧ e ∈ finalLog (p.processUpTo env table esp
        devices local_macs (retrievedPackets env table)) ∧ e.hash = row.hash ∧ e.row ≠ none := by
      rw [hrows, processUpTo_append, hs]
      refine finalLog_of_ends (P := fun log => ∃ e, .trilaterate (callIn p s row.hash own) ∈ log ∧
        e ∈ log ∧ e.hash = row.hash ∧ e.row ≠ none) ?_
      have hnew : ∀ {es : List (Effect F)} {t u : State F}, RowEffects p env s row es →
          t.log = s.log ++ es → t.log <+: u.log → ∃ e, .trilaterate (callIn p s row.hash own) ∈
            u.log ∧ e ∈ u.log ∧ e.hash = row.hash ∧ e.row ≠ none := by
        intro es t u hes hlog hpre
        obtain ⟨hcall, e, he, hrest⟩ := hes.of_stale hreach hreads hfailed hins
        have hsub : ∀ e ∈ es, e ∈ u.log := fun e he => hpre.subset (by simp [hlog, he])
        exact ⟨e, hsub _ hcall, hsub e he, hrest⟩
      show Ends ((row :: post).foldlM (p.processRow env) s) _ _
      rw [List.foldlM_cons]
      refine Ends.bind (Q := fun t => ∃ es, RowEffects p env s row es ∧ t.log = s.log ++ es)
        ((processRow_effects s row).mono ?_ ?_) ?_
      · rintro t ⟨es, -, hes, hlog, -⟩
        exact ⟨es, hes, hlog⟩
      · rintro t ⟨es, hes, hlog⟩
        exact hnew hes hlog (List.prefix_refl _)
      · rintro t ⟨es, hes, hlog⟩
        exact (log_grows post t).mono (fun u => hnew hes hlog) fun u => hnew hes hlog
    obtain ⟨e, hcall, he, hhash, hrow⟩ := hmem
    exact hrow (hown.failed _ hcall hfailed e he hhash)
  · intro h
    exact finalLog_of_ends ((processUpTo_own hn h (List.prefix_refl _)).mono
      (fun _ ht => ht.own) fun _ ht => ht)

/-- An optimiser that never throws. -/
theorem ownPositions_iff_twoReceivers :
    OwnPositions twoReceivers (finalLog (twoReceivers.process calm
      [packetOf 0 9, packetOf 0 7, packetOf 1 7] twoEsps [] [])) :=
  (ownPositions_iff twoReceivers calm [packetOf 0 9, packetOf 0 7, packetOf 1 7] twoEsps [] []
    (by decide)).2 fun _ _ _ _ _ _ ⟨_, _, _, hfailed, _⟩ => by cases hfailed

/-- The two receivers with an optimiser that throws unless its start is a minimum already. -/
def impatient : PacketProcessor ℤ :=
  { twoReceivers with
    find_min := fun f start => if f start.1 start.2 = 0 then some start else none }

/-- A packet of hash 9, at a hundred metres from its receiver. -/
def farPacket (esp_id : ℕ) : Packet := ⟨esp_id, 90, -90, ['c', '0', ':', '0', '0'], 9, 0⟩

/-- The address of hash 9 is stored at the position of hash 7. -/
theorem not_ownPositions :
    ¬ ∀ (F : Type) [Double F] (p : PacketProcessor F) (env : Environment) (table : List Packet)
        (esp : List Esp) (devices local_macs : List (Located F)), 0 < p.esp_number →
        OwnPositions p (finalLog (p.process env table esp devices local_macs)) := by
  intro hclaim
  have hfailed := (hclaim ℤ impatient calm [packetOf 0 7, packetOf 1 7, farPacket 0, farPacket 1]
    twoEsps [] [] (by decide)).failed
    ⟨9, [-6, 8, -6, 8], [8, -6, 8, -6], [10, 10, 100, 100], 2, 0, 0⟩
    (by decide +kernel) (by decide +kernel)
    (.insertDevice 9 ⟨['c', '0', ':', '0', '0'], 0, 0, 90⟩) (by decide +kernel) rfl
  cases hfailed

end PacketProcessor

end DetectionSystem

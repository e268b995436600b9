import DetectionSystem.Lib.Exit
import DetectionSystem.Lib.Hex
import DetectionSystem.Lib.Transition
import DetectionSystem.Firmware.Upload
import DetectionSystem.Server.Process
import DetectionSystem.Server.Ssid

/-!
# Storing packets, and the tables of local addresses

A packet with a local source is stored twice, in `Packet` and in `Local_Packets`; `process()` moves
its address from `Packet` to `Local_Macs`. Both classify the address from its text, so that every
address in `Local_Macs` has a row in `Local_Packets`, as long as no packet is stored by half. The
two insertions of `storeInDB` are separate statements and a failure of the second one is passed over
in silence: that is the only way the tables can diverge (`local_tables_iff`).
-/

namespace DetectionSystem

/-- A row of `Local_Packets`. -/
structure LocalPacket where
  addr : List Char
  timestamp : ℕ
  seq_ctl : List Char
  to_be_deleted : ℤ
deriving DecidableEq, Repr

namespace LocalTables

open PacketProcessor Transition

/-- The tables that `storeInDB` and `process()` change. -/
structure Tables (F : Type) where
  packet : List Packet
  local_packets : List LocalPacket
  devices : List (Located F)
  local_macs : List (Located F)
deriving DecidableEq

/-- The text of an address: `%02x:%02x:%02x:%02x:%02x:%02x`. -/
def address (addr : Bytes 6) : List Char :=
  [':'].intercalate (addr.1.map fun b => Hex.printed 2 b.toNat)

/-- `ProbePacket::storeInDB`. `behind` is the memory behind the array of the name, which is read
when the length of the name exceeds it; `packetOk` and `localOk` tell whether the two insertions
succeed. The columns of `Packet` that nothing reads are left out. -/
def storeInDB {F : Type} (pp : ProbePacket) (behind : List UInt8) (last_update : ℕ) (espid : UInt8)
    (packetOk localOk : Bool) (t : Tables F) : Tables F :=
  let rawtime := last_update + pp.timestamp.toNat / 1000000
  let ctl_to_store := Hex.printed 4 pp.seq_ctl.toNat ++ ['\n']
  let address := address pp.addr
  let ssid_to_store := (pp.ssid.1 ++ behind).take pp.ssid_length.toNat
  if ¬ ProbePacket.checkSSID ssid_to_store then t
  else
    match stol16 (address.take 2) with
    | none => t
    | some firstByteMAC =>
      if ¬ packetOk then t
      else
        let t := { t with
          packet := t.packet ++
            [⟨espid.toNat, rawtime, pp.rssi.toInt, address, pp.hash.toNat, 0⟩] }
        if isLocal firstByteMAC ∧ localOk then
          { t with local_packets := t.local_packets ++ [⟨address, rawtime, ctl_to_store, 0⟩] }
        else t

/-- A call of `storeInDB`, or a call of `process()` by a server with the receivers `esp`. -/
inductive Action (F : Type)
  | store (pp : ProbePacket) (behind : List UInt8) (last_update : ℕ) (espid : UInt8)
      (packetOk localOk : Bool)
  | process (p : PacketProcessor F) (env : Environment) (esp : List Esp)

/-- A call, and the tables after it. When `process()` ends the program, they stay as they are, and
the next program goes on with them. -/
def step {F : Type} [Double F] (t : Tables F) : Action F → Option (Tables F)
  | .store pp behind last_update espid packetOk localOk =>
    some (storeInDB pp behind last_update espid packetOk localOk t)
  | .process p env esp =>
    match p.process env t.packet esp t.devices t.local_macs with
    | .ok s | .error s => some
      { t with packet := s.packet, devices := s.devices, local_macs := s.local_macs }

/-- The tables that `setupDB` creates. -/
def empty (F : Type) : Tables F := ⟨[], [], [], []⟩

/-! ## The classification of an address -/

/-- An address is local and unicast, by the first two characters of its text. -/
def LocalAddr (addr : List Char) : Prop := ∃ n, stol16 (addr.take 2) = some n ∧ isLocal n = true

/-- The source of a packet is local and unicast, by the bits of its first byte. -/
def LocalSource (pp : ProbePacket) : Prop :=
  ∃ b ∈ pp.addr.1.head?, b &&& 2 = 2 ∧ b &&& 1 = 0

/-- The bits of a byte can be looked at. -/
instance (pp : ProbePacket) : Decidable (LocalSource pp) :=
  inferInstanceAs (Decidable (∃ b ∈ _, _))

/-- The first two characters of an address are read back as its first byte. -/
theorem stol16_address {addr : Bytes 6} {b : UInt8} (hb : b ∈ addr.1.head?) :
    stol16 ((address addr).take 2) = some (b.toNat : ℤ) := by
  have hprint : ∀ b : UInt8, (Hex.printed 2 b.toNat).length = 2 ∧
      stol16 (Hex.printed 2 b.toNat) = some (b.toNat : ℤ) :=
    ProbePacket.forall_byte (by decide +kernel)
  obtain ⟨bytes, hlen⟩ := addr
  match bytes with
  | [] => cases hb
  | [_] => cases hlen
  | b₀ :: b₁ :: bytes =>
    obtain rfl : b₀ = b := by simpa using hb
    unfold address
    rw [List.map_cons, List.map_cons, List.intercalate_cons_cons, List.append_assoc,
      List.take_left' (hprint b₀).1]
    exact (hprint b₀).2

/-- An address has a first byte. -/
theorem exists_head (addr : Bytes 6) : ∃ b, b ∈ addr.1.head? := by
  obtain ⟨bytes, hlen⟩ := addr
  cases bytes with
  | nil => cases hlen
  | cons b bytes => exact ⟨b, rfl⟩

/-- The test of the code on the first byte is the one on its two lowest bits. -/
theorem isLocal_byte : ∀ b : UInt8, isLocal (b.toNat : ℤ) = true ↔ b &&& 2 = 2 ∧ b &&& 1 = 0 :=
  ProbePacket.forall_byte (by decide +kernel)

/-- The text tells what the bits tell. -/
theorem localAddr_address (pp : ProbePacket) : LocalAddr (address pp.addr) ↔ LocalSource pp := by
  obtain ⟨b, hb⟩ := exists_head pp.addr
  unfold LocalAddr LocalSource
  rw [stol16_address hb]
  simp [isLocal_byte, Option.mem_def.1 hb]

/-! ## What a call of `storeInDB` adds -/

/-- The call passes the check of the name. -/
def Accepted (pp : ProbePacket) (behind : List UInt8) : Prop :=
  ProbePacket.checkSSID ((pp.ssid.1 ++ behind).take pp.ssid_length.toNat) = true

/-- The check of the name can be run. -/
instance (pp : ProbePacket) (behind : List UInt8) : Decidable (Accepted pp behind) :=
  inferInstanceAs (Decidable (_ = _))

variable {F : Type} {t u : Tables F}

/-- What a call that leads from `t` to `u` adds to the two tables; nothing else changes. -/
structure Stores (pp : ProbePacket) (behind : List UInt8) (packetOk localOk : Bool)
    (t u : Tables F) (row : Packet) (lrow : LocalPacket) : Prop where
  addr : row.addr = address pp.addr
  laddr : lrow.addr = address pp.addr
  packet : u.packet = t.packet ++ if Accepted pp behind ∧ packetOk then [row] else []
  local_packets : u.local_packets = t.local_packets ++
    if (Accepted pp behind ∧ packetOk) ∧ LocalSource pp ∧ localOk then [lrow] else []
  local_macs : u.local_macs = t.local_macs

/-- Every call of `storeInDB` adds what `Stores` says. -/
theorem exists_stores (pp : ProbePacket) (behind : List UInt8) (last_update : ℕ) (espid : UInt8)
    (packetOk localOk : Bool) (t : Tables F) :
    ∃ row lrow, Stores pp behind packetOk localOk t
      (storeInDB pp behind last_update espid packetOk localOk t) row lrow := by
  obtain ⟨b, hb⟩ := exists_head pp.addr
  have hlocal : isLocal (b.toNat : ℤ) = true ↔ LocalSource pp := by
    rw [← localAddr_address, LocalAddr, stol16_address hb]
    simp
  refine ⟨⟨espid.toNat, last_update + pp.timestamp.toNat / 1000000, pp.rssi.toInt, address pp.addr,
    pp.hash.toNat, 0⟩, ⟨address pp.addr, last_update + pp.timestamp.toNat / 1000000,
    Hex.printed 4 pp.seq_ctl.toNat ++ ['\n'], 0⟩, ?_⟩
  unfold storeInDB
  simp only [stol16_address hb, hlocal]
  change Stores pp behind packetOk localOk t (if ¬ Accepted pp behind then _ else _) _ _
  by_cases ha : Accepted pp behind
  · cases packetOk
    · constructor <;> simp [ha]
    · by_cases hl : LocalSource pp <;> cases localOk <;> constructor <;> simp [ha, hl]
  · constructor <;> simp [ha]

/-! ## What a call of `process()` changes -/

/-- On the way from `s` to `t`, rows of `Packet` may have been marked or removed, and local
addresses in `A` stored in `Local_Macs`. -/
structure Follows (A : List Char → Prop) (s t : State F) : Prop where
  packet : ∀ row ∈ t.packet, ∃ r ∈ s.packet, r.addr = row.addr
  local_macs : ∀ l ∈ t.local_macs, l ∈ s.local_macs ∨ A l.mac ∧ LocalAddr l.mac

section
variable {A : List Char → Prop} {s v w : State F} {env : Environment}

/-- Where the tables are the same, nothing has changed. -/
theorem follows_of_eq (hp : v.packet = s.packet) (hl : v.local_macs = s.local_macs) :
    Follows A s v where
  packet row hrow := ⟨row, hp ▸ hrow, rfl⟩
  local_macs _ hmem := .inl (hl ▸ hmem)

/-- Nothing happens between a state and itself. -/
theorem Follows.refl (s : State F) : Follows A s s := follows_of_eq rfl rfl

/-- What is allowed in two stretches is allowed in both. -/
theorem Follows.trans (h : Follows A s v) (h' : Follows A v w) : Follows A s w where
  packet row hrow := by
    obtain ⟨r, hr, haddr⟩ := h'.packet row hrow
    obtain ⟨r', hr', haddr'⟩ := h.packet r hr
    exact ⟨r', hr', haddr'.trans haddr⟩
  local_macs l hmem := by
    rcases h'.local_macs l hmem with hmem | hnew
    · exact h.local_macs l hmem
    · exact .inr hnew

/-- A statement that follows its start in both of its ends. -/
def Obeys (A : List Char → Prop) (s : State F) (x : Except (State F) (State F)) : Prop :=
  Ends x (Follows A s) (Follows A s)

/-- A statement may come after others that follow. -/
theorem Obeys.trans {x : Except (State F) (State F)} (h : Follows A s v) (hx : Obeys A v x) :
    Obeys A s x :=
  Ends.mono hx (fun _ => h.trans) (fun _ => h.trans)

/-- One statement after another. -/
theorem Obeys.bind {x : Except (State F) (State F)} {f : State F → Except (State F) (State F)}
    (hx : Obeys A s x) (hf : ∀ v, Follows A s v → Obeys A v (f v)) : Obeys A s (x >>= f) :=
  Ends.bind hx fun v hv => Obeys.trans hv (hf v hv)

/-- A loop of such statements. -/
theorem Obeys.foldlM {α : Type} {f : State F → α → Except (State F) (State F)} {l : List α}
    (hf : ∀ a ∈ l, ∀ v, Obeys A v (f v a)) (s : State F) : Obeys A s (l.foldlM f s) := by
  refine Ends.foldlM (I := fun _ => Follows A s) l (Follows.refl s) ?_
  intro pre a post v hl hv
  exact Obeys.trans hv (hf a (by simp [hl]) v)

/-- A bare statement changes no table. -/
theorem obeys_execute (s : State F) : Obeys A s (execute env s) := by
  unfold execute
  split
  · exact follows_of_eq rfl rfl
  · exact Follows.refl s

/-- Marking leaves every row its address. -/
theorem obeys_markDeleted (hash : ℕ) (s : State F) : Obeys A s (markDeleted env hash s) := by
  refine (obeys_execute s).bind fun v _ => ⟨?_, fun l hmem => .inl hmem⟩
  intro row hrow
  obtain ⟨r, hr, rfl⟩ := List.mem_map.1 hrow
  exact ⟨r, hr, (markRow_addr _ r).symm⟩

/-- So does marking what is old. -/
theorem obeys_expire (hash : ℕ) (s : State F) : Obeys A s (expire env hash s) := by
  refine (obeys_execute s).bind fun v _ => ?_
  split
  · exact Follows.refl v
  · dsimp only
    split
    · exact Obeys.trans (v := { v with readings := v.readings + 1 }) (follows_of_eq rfl rfl)
        (obeys_markDeleted hash _)
    · exact follows_of_eq rfl rfl

end

section
variable [Double F] {A : List Char → Prop} {p : PacketProcessor F} {env : Environment}

/-- Adding a measurement changes no table. -/
theorem obeys_addMeasurement (s : State F) (row : Packet) :
    Obeys A s (p.addMeasurement env s row) := by
  refine Obeys.trans
    (v := { s with average_timestamp := (s.average_timestamp + row.timestamp) % 2 ^ 64 })
    (follows_of_eq rfl rfl) ?_
  refine (obeys_execute _).bind fun v _ => ?_
  split
  · exact Follows.refl v
  · exact follows_of_eq rfl rfl

omit [Double F] in
/-- The only statement that stores an address. -/
theorem obeys_insert {hash : ℕ} {current_address : List Char} (hA : A current_address)
    (s : State F) : Obeys A s (p.insert env hash current_address s) := by
  unfold PacketProcessor.insert
  split
  case h_1 => exact Follows.refl s
  case h_2 firstByteMAC hsome =>
    dsimp only
    split
    case isFalse => exact Follows.refl s
    case isTrue =>
      refine (obeys_execute s).bind fun v _ => ?_
      split
      case isFalse => exact follows_of_eq rfl rfl
      case isTrue hlocal =>
        refine ⟨fun row hrow => ⟨row, hrow, rfl⟩, fun l hmem => ?_⟩
        rcases List.mem_append.1 hmem with hmem | hmem
        · exact .inl hmem
        · obtain rfl := List.mem_singleton.1 hmem
          exact .inr ⟨hA, firstByteMAC, hsome, hlocal⟩

/-- A hash is located with an address from `A`. -/
theorem obeys_locate {hash : ℕ} {current_address : List Char} (hA : A current_address)
    (s : State F) : Obeys A s (p.locate env hash current_address s) := by
  refine Obeys.trans (v := { s with average_timestamp := 0, count := 0 }) (follows_of_eq rfl rfl) ?_
  refine (obeys_execute _).bind fun v _ => ?_
  refine (Obeys.foldlM (fun row _ v => obeys_addMeasurement v row) v).bind fun w _ => ?_
  refine Obeys.trans (v := { p.trilaterate hash w with
    average_timestamp := w.average_timestamp / w.count }) (follows_of_eq rfl rfl) ?_
  refine (obeys_insert hA _).bind fun v _ => ?_
  exact obeys_markDeleted hash v

/-- A row of the loop, whose address is in `A`. -/
theorem obeys_processRow {packet : Packet} (hA : A packet.addr) (s : State F) :
    Obeys A s (p.processRow env s packet) := by
  refine (obeys_execute s).bind fun v _ => ?_
  dsimp only
  split
  · exact obeys_locate hA v
  split
  · exact obeys_expire packet.hash v
  · exact Follows.refl v

/-- `process()` stores local addresses of rows of `Packet` only, however it ends. -/
theorem obeys_process (p : PacketProcessor F) (env : Environment) (packet : List Packet)
    (esp : List Esp) (devices local_macs : List (Located F)) :
    Obeys (fun addr => ∃ row ∈ packet, row.addr = addr) (init packet esp devices local_macs)
      (p.process env packet esp devices local_macs) := by
  refine (obeys_execute _).bind fun v hv => (obeys_execute v).bind fun w hw => ?_
  have hA : ∀ row ∈ retrievedPackets env w.packet, ∃ r ∈ packet, r.addr = row.addr := by
    intro row hrow
    exact (hv.trans hw).packet row ((env.order_perm _ _).mem_iff.1 hrow)
  refine (Obeys.foldlM (fun row hrow v => obeys_processRow (hA row hrow) v) w).bind fun v _ => ?_
  refine (obeys_execute v).bind fun w _ => ⟨?_, fun l hmem => .inl hmem⟩
  intro row hrow
  exact ⟨row, List.mem_of_mem_filter hrow, rfl⟩

end

/-! ## Runs -/

/-- Every address in `Local_Macs` has a row in `Local_Packets`. -/
def MacsKnown (t : Tables F) : Prop := ∀ row ∈ t.local_macs, ∃ l ∈ t.local_packets, l.addr = row.mac

/-- A call of `storeInDB` for a packet with a local source adds a row for it to both tables or to
neither. -/
def AddsBothOrNeither [Double F] (t : Tables F) (a : Action F) : Prop :=
  match a with
  | .store pp .. => LocalSource pp → ∀ u, step t a = some u →
      (∃ row lrow, row.addr = address pp.addr ∧ lrow.addr = address pp.addr ∧
        u.packet = t.packet ++ [row] ∧ u.local_packets = t.local_packets ++ [lrow]) ∨
      u.packet = t.packet ∧ u.local_packets = t.local_packets
  | .process .. => True

/-- The second insertion does not fail after the first one has succeeded. -/
def Whole (a : Action F) : Prop :=
  match a with
  | .store pp behind _ _ packetOk localOk =>
    Accepted pp behind → LocalSource pp → packetOk = true → localOk = true
  | .process .. => True

/-- The invariant. The addresses that `process()` may still move are those in `Packet`. -/
structure Consistent (t : Tables F) : Prop where
  packet : ∀ row ∈ t.packet, LocalAddr row.addr → ∃ l ∈ t.local_packets, l.addr = row.addr
  local_macs : MacsKnown t

/-- Empty tables are consistent. -/
theorem consistent_empty : Consistent (empty F) where
  packet _ hrow := by cases hrow
  local_macs _ hrow := by cases hrow

section
variable [Double F]

/-- Every call comes to an end. -/
theorem exists_step (t : Tables F) (a : Action F) : ∃ u, step t a = some u := by
  cases a with
  | store => exact ⟨_, rfl⟩
  | process p env esp =>
    unfold step
    dsimp only
    split <;> exact ⟨_, rfl⟩

omit [Double F] in
/-- `storeInDB` keeps the tables consistent if it adds both rows or neither. -/
theorem Consistent.store (h : Consistent t) {pp : ProbePacket} {behind : List UInt8}
    {last_update : ℕ} {espid : UInt8} {packetOk localOk : Bool}
    (ha : Whole (.store pp behind last_update espid packetOk localOk : Action F)) :
    Consistent (storeInDB pp behind last_update espid packetOk localOk t) := by
  obtain ⟨row, lrow, hs⟩ := exists_stores pp behind last_update espid packetOk localOk t
  refine ⟨?_, ?_⟩
  · intro r hr hlocal
    rw [hs.packet] at hr
    rw [hs.local_packets]
    rcases List.mem_append.1 hr with hr | hr
    · obtain ⟨l, hl, hmac⟩ := h.packet r hr hlocal
      exact ⟨l, List.mem_append_left _ hl, hmac⟩
    · split at hr
      case isFalse => cases hr
      case isTrue hok =>
        obtain rfl := List.mem_singleton.1 hr
        rw [hs.addr, localAddr_address] at hlocal
        refine ⟨lrow, List.mem_append_right _ ?_, hs.laddr.trans hs.addr.symm⟩
        rw [if_pos ⟨hok, hlocal, ha hok.1 hlocal hok.2⟩]
        exact List.mem_singleton_self _
  · intro r hr
    rw [hs.local_macs] at hr
    rw [hs.local_packets]
    obtain ⟨l, hl, hmac⟩ := h.local_macs r hr
    exact ⟨l, List.mem_append_left _ hl, hmac⟩

/-- `process()` moves only addresses that are in `Packet`, so it keeps the tables consistent. -/
theorem Consistent.process (h : Consistent t) {esp : List Esp} {s : State F}
    (hs : Follows (fun addr => ∃ row ∈ t.packet, row.addr = addr)
      (init t.packet esp t.devices t.local_macs) s) :
    Consistent
      { t with packet := s.packet, devices := s.devices, local_macs := s.local_macs } := by
  refine ⟨?_, ?_⟩
  · intro row hrow hlocal
    obtain ⟨r, hr, haddr⟩ := hs.packet row hrow
    rw [← haddr] at hlocal ⊢
    exact h.packet r hr hlocal
  · intro row hrow
    rcases hs.local_macs row hrow with hold | ⟨⟨r, hr, haddr⟩, hlocal⟩
    · exact h.local_macs row hold
    · rw [← haddr] at hlocal ⊢
      exact h.packet r hr hlocal

/-- One call keeps the tables consistent. -/
theorem Consistent.step (h : Consistent t) {a : Action F} (ha : Whole a) (hu : step t a = some u) :
    Consistent u := by
  cases a with
  | store =>
    obtain rfl := Option.some.inj hu
    exact h.store ha
  | process p env esp =>
    have hobeys := obeys_process p env t.packet esp t.devices t.local_macs
    unfold LocalTables.step at hu
    dsimp only at hu
    split at hu
    case h_1 s hs =>
      rw [hs] at hobeys
      obtain rfl := Option.some.inj hu
      exact h.process hobeys
    case h_2 s hs =>
      rw [hs] at hobeys
      obtain rfl := Option.some.inj hu
      exact h.process hobeys

/-- A call adds both or neither exactly if it is not cut in two. -/
theorem addsBothOrNeither_iff (t : Tables F) (a : Action F) : AddsBothOrNeither t a ↔ Whole a := by
  cases a with
  | process => exact Iff.rfl
  | store pp behind last_update espid packetOk localOk =>
    obtain ⟨row, lrow, hs⟩ := exists_stores pp behind last_update espid packetOk localOk t
    refine ⟨?_, ?_⟩
    · intro hadds ha hlocal hpacket
      by_contra hfail
      obtain ⟨_, _, -, -, -, hl⟩ | ⟨hp, -⟩ := hadds hlocal _ rfl
      · rw [hs.local_packets, if_neg fun h => hfail h.2.2] at hl
        simp at hl
      · rw [hs.packet, if_pos ⟨ha, hpacket⟩] at hp
        simp at hp
    · intro hwhole hlocal u hu
      obtain rfl := Option.some.inj hu
      rw [hs.packet, hs.local_packets]
      by_cases hok : Accepted pp behind ∧ packetOk
      · rw [if_pos hok, if_pos ⟨hok, hlocal, hwhole hok.1 hlocal hok.2⟩]
        exact .inl ⟨row, lrow, hs.addr, hs.laddr, rfl, rfl⟩
      · rw [if_neg hok, if_neg fun h => hok h.1]
        exact .inr ⟨List.append_nil _, List.append_nil _⟩

/-- Over a run, the condition is one on each of the calls. -/
theorem meets_iff (t : Tables F) (as : List (Action F)) :
    Meets step AddsBothOrNeither t as ↔ ∀ a ∈ as, Whole a := by
  induction as generalizing t with
  | nil => simp [Meets]
  | cons a as ih =>
    obtain ⟨u, hu⟩ := exists_step t a
    simp only [Meets, addsBothOrNeither_iff, hu, Option.some.injEq, forall_eq', ih,
      List.forall_mem_cons]

/-- **The tables of local addresses.** Over all calls of `storeInDB` and `process()`, with failures
anywhere, every address in `Local_Macs` stays known and every packet is stored whole, exactly if no
insertion into `Local_Packets` fails after the packet has been inserted into `Packet`. -/
theorem local_tables_iff (as : List (Action F)) :
    (Throughout step MacsKnown (empty F) as ∧ Meets step AddsBothOrNeither (empty F) as) ↔
      ∀ a ∈ as, Whole a := by
  rw [meets_iff, and_iff_right_iff_imp]
  intro hwhole pre hpre t ht
  have hmeets : Meets step AddsBothOrNeither (empty F) pre :=
    (meets_iff _ _).2 fun a ha => hwhole a (hpre.subset ha)
  refine (run_invariant_of_meets (I := Consistent) ?_ consistent_empty hmeets ht).local_macs
  intro s a u hs hadds hu
  exact hs.step ((addsBothOrNeither_iff s a).1 hadds) hu

end

/-- A packet with the local source `aa:01:02:03:04:05`. -/
def localPacket : ProbePacket where
  timestamp := 0
  channel := 1
  seq_ctl := 0
  rssi := -70
  addr := Mac.of 0xaa 1 2 3 4 5
  ssid_length := 0
  ssid := ⟨List.replicate 32 0, rfl⟩
  crc := ⟨[0, 0, 0, 0], rfl⟩
  hash := 7

/-- The packet is stored by half, and then located by a server with a single receiver. -/
def halfStored : List (Action ℤ) :=
  [.store localPacket [] 90 0 true false,
    .process { twoReceivers with esp_number := 1 } calm twoEsps]

/-- Its address is in `Local_Macs`, and `Local_Packets` is empty. -/
theorem not_local_tables :
    ¬ ∀ as : List (Action ℤ),
      Throughout step MacsKnown (empty ℤ) as ∧ Meets step AddsBothOrNeither (empty ℤ) as := by
  intro hclaim
  have hend : ((run step (empty ℤ) halfStored).any fun t =>
      t.local_macs ≠ [] ∧ t.local_packets = []) = true := by decide +kernel
  obtain ⟨t, ht, hbad⟩ := (Option.any_eq_true _ _).1 hend
  obtain ⟨hne, hnil⟩ := of_decide_eq_true hbad
  obtain ⟨row, hrow⟩ := List.exists_mem_of_ne_nil _ hne
  obtain ⟨l, hl, -⟩ := (hclaim halfStored).1 halfStored List.prefix_rfl t ht row hrow
  rw [hnil] at hl
  cases hl

end LocalTables

end DetectionSystem

import DetectionSystem.Server.Database
import Mathlib.Data.Int.Bitwise
import Mathlib.Data.List.Dedup

/-!
# Locating packets

`PacketProcessor::process()` as it is written. It goes once over the rows of `Packet`, and for each
row asks how many receivers hold its hash; the `to_be_deleted` marks of earlier rows keep a hash
from being treated twice. A hash with enough receivers is located from all its rows, stored and
marked; another one is marked when its first row is too old; the marked rows are removed at the end.

The measurement vectors `x`, `y` and `d` are variables of the file. `process()` clears them once,
before the loop, and `meanSquareError` reads them.

The doubles are a type `F` with the operations the code uses. The optimiser of dlib and the
coverage area are fields of the processor. How a statement is executed is a field of the
`Connection` to the database, which is `alone` when nobody else uses it.
-/

namespace DetectionSystem

/-- The operations on doubles of `PacketProcessor.cpp`. -/
class Double (F : Type) extends Add F, Sub F, Div F, IntCast F where
  pow : F → F → F
  sqrt : F → F

/-- The parameters of the processor. `find_min` is the optimiser, from a start to the minimum it
finds, `none` where it throws. -/
structure PacketProcessor (F : Type) where
  esp_number : ℕ
  rssiAtOneMeter : F
  rssiDiv : F
  isInside : F → F → Bool
  find_min : (F → F → F) → F × F → Option (F × F)

namespace PacketProcessor

/-- A call of `trilaterate` for a hash: the vectors and the row count of that moment, and the
position it leaves. -/
structure Call (F : Type) where
  hash : ℕ
  x : List ℤ
  y : List ℤ
  d : List F
  count : ℕ
  pos_x : F
  pos_y : F
deriving DecidableEq, Repr

/-- What `process()` does besides its queries: it calls `trilaterate`, or inserts a row for a
hash. -/
inductive Effect (F : Type)
  | trilaterate (call : Call F)
  | insertDevice (hash : ℕ) (row : Located F)
  | insertLocalMac (hash : ℕ) (row : Located F)
deriving DecidableEq, Repr

/-- The hash an effect is for. -/
def Effect.hash {F : Type} : Effect F → ℕ
  | .trilaterate call => call.hash
  | .insertDevice hash _ => hash
  | .insertLocalMac hash _ => hash

/-- The row an effect inserts into `Devices`. -/
def Effect.deviceRow {F : Type} : Effect F → Option (Located F)
  | .insertDevice _ row => some row
  | _ => none

/-- The row an effect inserts into `Local_Macs`. -/
def Effect.localMacRow {F : Type} : Effect F → Option (Located F)
  | .insertLocalMac _ row => some row
  | _ => none

/-- The tables, the measurement vectors and the local variables of `process()`. `statements` and
`readings` count the SQL statements and the clock readings so far; `log` records the effects, for
the statements of theorems only. -/
structure State (F : Type) where
  packet : List Packet
  esp : List Esp
  devices : List (Located F)
  local_macs : List (Located F)
  x : List ℤ := []
  y : List ℤ := []
  d : List F := []
  pos_x : F
  pos_y : F
  average_timestamp : ℕ := 0
  count : ℕ := 0
  statements : ℕ := 0
  readings : ℕ := 0
  log : List (Effect F) := []

/-! ## MAC addresses -/

/-- The value of a hexadecimal digit. -/
def hexDigit (c : Char) : Option ℕ :=
  if 48 ≤ c.toNat ∧ c.toNat ≤ 57 then some (c.toNat - 48)
  else if 65 ≤ c.toNat ∧ c.toNat ≤ 70 then some (c.toNat - 55)
  else if 97 ≤ c.toNat ∧ c.toNat ≤ 102 then some (c.toNat - 87)
  else none

/-- The number a string starts with, up to its first character that is no digit; `none` without a
digit. -/
def hexNumber (s : List Char) : Option ℕ :=
  match (s.map hexDigit).takeWhile Option.isSome with
  | [] => none
  | digits => some (digits.foldl (fun n v => 16 * n + v.getD 0) 0)

/-- `isspace`. -/
def isSpace (c : Char) : Bool := c.toNat = 32 ∨ 9 ≤ c.toNat ∧ c.toNat ≤ 13

/-- `std::stol(s, nullptr, 16)` on a string of at most two characters, which can neither be out of
range nor hold the prefix `0x` with a digit; `none` where it throws. -/
def stol16 (s : List Char) : Option ℤ :=
  match s.dropWhile isSpace with
  | '-' :: s => (hexNumber s).map fun n : ℕ => -(n : ℤ)
  | '+' :: s => (hexNumber s).map fun n : ℕ => (n : ℤ)
  | s => (hexNumber s).map fun n : ℕ => (n : ℤ)

/-- The check for a local and unicast source on the first byte of an address. -/
def isLocal (firstByteMAC : ℤ) : Bool := firstByteMAC.testBit 1 && !firstByteMAC.testBit 0

/-! ## Distances and positions -/

section
variable {F : Type} [Double F]

/-- The distance between two points. -/
def dist (x1 y1 x2 y2 : F) : F :=
  Double.sqrt (Double.pow (x2 - x1) ((2 : ℤ) : F) + Double.pow (y2 - y1) ((2 : ℤ) : F))

/-- The mean square error of a position over the measurement vectors. -/
def meanSquareError (x y : List ℤ) (d : List F) (pos_x pos_y : F) : F :=
  let sum := (d.zip (x.zip y)).foldl (fun mse m =>
    mse + Double.pow (m.1 - dist pos_x pos_y (m.2.1 : F) (m.2.2 : F)) ((2 : ℤ) : F)) ((0 : ℤ) : F)
  sum / ((d.length : ℤ) : F)

/-- The state in which the loop of `process()` starts. -/
def init (packet : List Packet) (esp : List Esp) (devices local_macs : List (Located F)) :
    State F where
  packet := packet
  esp := esp
  devices := devices
  local_macs := local_macs
  pos_x := ((-1 : ℤ) : F)
  pos_y := ((-1 : ℤ) : F)

end

/-! ## Queries -/

/-- A statement is executed, and the program exits if it fails. -/
def execute {F : Type} (env : Environment) (s : State F) :
    Except (State F) (State F) :=
  if env.sqlOk s.statements then .ok { s with statements := s.statements + 1 } else .error s

/-- The rows of a hash. -/
def rowsOf (packet : List Packet) (hash : ℕ) : List Packet :=
  packet.filter (·.hash = hash)

/-- The number of receivers that hold unmarked rows of a hash. -/
def receivers (packet : List Packet) (hash : ℕ) : ℕ :=
  ((packet.filter fun r => r.hash = hash ∧ r.to_be_deleted = 0).map (·.esp_id)).dedup.length

/-- The threshold on the number of receivers. -/
def Threshold (esp_number counter : ℕ) : Prop :=
  esp_number < 4 ∧ counter = esp_number ∨ 4 ≤ esp_number ∧ esp_number / 2 + 1 ≤ counter

/-- The threshold can be tested. -/
instance (esp_number counter : ℕ) : Decidable (Threshold esp_number counter) :=
  inferInstanceAs (Decidable (_ ∨ _))

/-- The database as `process()` meets it. -/
structure Connection (F : Type) extends Environment where
  execute : State F → Except (State F) (State F)

/-- The connection of a call of `process()` during which nobody else uses the tables. -/
abbrev alone {F : Type} (env : Environment) : Connection F := { env with execute := execute env }

/-- An environment stands for a connection of its own. -/
instance {F : Type} : Coe Environment (Connection F) := ⟨alone⟩

/-- All the rows of a hash are marked. -/
def markDeleted {F : Type} (env : Connection F) (hash : ℕ) (s : State F) :
    Except (State F) (State F) := do
  let s ← env.execute s
  .ok { s with packet := s.packet.map (markRow [hash]) }

/-! ## The processor -/

section
variable {F : Type} [Double F] (p : PacketProcessor F) (env : Connection F)

/-- The distance in metres a signal strength stands for. -/
def getDistanceFromRSSI (rssi : F) : F :=
  Double.pow ((10 : ℤ) : F) ((p.rssiAtOneMeter - rssi) / p.rssiDiv)

/-- The position that minimises the error over the vectors. When the optimiser throws, the position
stays what it was. -/
def trilaterate (hash : ℕ) (s : State F) : State F :=
  let pos :=
    (p.find_min (meanSquareError s.x s.y s.d) (((0 : ℤ) : F), ((0 : ℤ) : F))).getD
      (s.pos_x, s.pos_y)
  { s with
    pos_x := pos.1
    pos_y := pos.2
    log := s.log ++ [.trilaterate ⟨hash, s.x, s.y, s.d, s.count, pos.1, pos.2⟩] }

/-- One row of the hash being located: its receiver is looked up, and the measurement is appended
to the vectors. -/
def addMeasurement (s : State F) (row : Packet) : Except (State F) (State F) := do
  let s ← env.execute { s with average_timestamp := (s.average_timestamp + row.timestamp) % 2 ^ 64 }
  match s.esp.find? (·.esp_id = row.esp_id) with
  | none => .error s
  | some esp =>
    .ok { s with
      x := s.x ++ [esp.x]
      y := s.y ++ [esp.y]
      d := s.d ++ [p.getDistanceFromRSSI ((row.rssi : ℤ) : F)]
      count := s.count + 1 }

/-- The located address is inserted where it belongs, if it is inside the coverage area. -/
def insert (hash : ℕ) (current_address : List Char) (s : State F) :
    Except (State F) (State F) :=
  match stol16 (current_address.take 2) with
  | none => .error s
  | some firstByteMAC =>
    let row : Located F := ⟨current_address, s.pos_x, s.pos_y, s.average_timestamp⟩
    if p.isInside s.pos_x s.pos_y then do
      let s ← env.execute s
      if isLocal firstByteMAC then
        .ok { s with
          local_macs := s.local_macs ++ [row]
          log := s.log ++ [.insertLocalMac hash row] }
      else
        .ok { s with
          devices := s.devices ++ [row]
          log := s.log ++ [.insertDevice hash row] }
    else .ok s

/-- A hash with enough receivers. The average is the integer quotient; the double `floor` makes of
it is exact for times below `2 ^ 53`. -/
def locate (hash : ℕ) (current_address : List Char) (s : State F) :
    Except (State F) (State F) := do
  let s ← env.execute { s with average_timestamp := 0, count := 0 }
  let s ← (env.order s.statements (rowsOf s.packet hash)).foldlM (p.addMeasurement env) s
  let s := p.trilaterate hash s
  let s ← p.insert env hash current_address
    { s with average_timestamp := s.average_timestamp / s.count }
  markDeleted env hash s

/-- A hash with too few receivers: it is marked when the row that is read first is too old, by a
difference of unsigned 64-bit numbers. -/
def expire (hash : ℕ) (s : State F) : Except (State F) (State F) := do
  let s ← env.execute s
  match env.order s.statements (rowsOf s.packet hash) with
  | [] => .error s
  | row :: _ =>
    let age := ((env.time s.readings : ℤ) - row.timestamp) % 2 ^ 64
    let s := { s with readings := s.readings + 1 }
    if 30 < age then markDeleted env hash s else .ok s

/-- The body of the loop over the rows of `Packet`. -/
def processRow (s : State F) (packet : Packet) : Except (State F) (State F) := do
  let s ← env.execute s
  let counter := receivers s.packet packet.hash
  if Threshold p.esp_number counter then p.locate env packet.hash packet.addr s
  else if counter ≠ 0 then expire env packet.hash s
  else .ok s

/-- The rows the loop goes over, in the order in which the first query returns them: the session is
opened before it. -/
def retrievedPackets (env : Environment) (packet : List Packet) : List Packet := env.order 2 packet

/-- `process()`: the state when it returns, or when the program exits in it. -/
def process (packet : List Packet) (esp : List Esp) (devices local_macs : List (Located F)) :
    Except (State F) (State F) := do
  let s ← env.execute (init packet esp devices local_macs)
  let s ← env.execute s
  let s ← (retrievedPackets env.toEnvironment s.packet).foldlM (p.processRow env) s
  let s ← env.execute s
  .ok { s with packet := s.packet.filter (·.to_be_deleted ≠ 1) }

end

end PacketProcessor

end DetectionSystem

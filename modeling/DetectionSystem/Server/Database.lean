import DetectionSystem.Lib.Bytes
import Mathlib.Data.Int.Notation
import Mathlib.Data.List.Perm.Basic

/-!
# The tables of `pds_db`

The rows of the tables that `setupDB` creates, with the columns that matter to the modelled
functions, and what the database server decides by itself: which statements succeed and in which
order a `select` without `ORDER BY` returns its rows. A table is the list of its rows.
-/

namespace DetectionSystem

/-- The six bytes of a MAC address. The tables hold them printed in hexadecimal. -/
abbrev Mac := Bytes 6

/-- The address of six given bytes. -/
def Mac.of (b₀ b₁ b₂ b₃ b₄ b₅ : UInt8) : Mac := ⟨[b₀, b₁, b₂, b₃, b₄, b₅], rfl⟩

/-- A row of `Packet`. The timestamp is in seconds, as `unix_timestamp` gives it. -/
structure Packet where
  esp_id : ℕ
  timestamp : ℕ
  rssi : ℤ
  addr : List Char
  hash : ℕ
  to_be_deleted : ℤ
deriving DecidableEq, Repr

/-- A row of `ESP`. -/
structure Esp where
  mac : Mac
  esp_id : ℕ
  x : ℤ
  y : ℤ
deriving DecidableEq, Repr

/-- A row of `Devices` or of `Local_Macs`: where a MAC address was found, and when. -/
structure Located (F : Type) where
  mac : List Char
  x : F
  y : F
  timestamp : ℕ
deriving DecidableEq, Repr

/-- The database server and the clock: whether the `k`-th statement of a session succeeds, the
order in which it returns rows, and the `k`-th reading of `time(NULL)`. -/
structure Environment where
  sqlOk : ℕ → Bool
  order : ∀ {α : Type}, ℕ → List α → List α
  order_perm : ∀ {α : Type} (k : ℕ) (rows : List α), (order k rows).Perm rows
  time : ℕ → ℕ

/-- `UPDATE Packet SET to_be_deleted = 1 WHERE hash = h`, for all the hashes in `hs`. -/
def markRow (hs : List ℕ) (row : Packet) : Packet :=
  if row.hash ∈ hs then { row with to_be_deleted := 1 } else row

@[simp] theorem markRow_hash (hs : List ℕ) (row : Packet) : (markRow hs row).hash = row.hash := by
  unfold markRow
  split <;> rfl

@[simp] theorem markRow_addr (hs : List ℕ) (row : Packet) : (markRow hs row).addr = row.addr := by
  unfold markRow
  split <;> rfl

@[simp] theorem markRow_nil : markRow [] = id := by
  funext row
  simp [markRow]

/-- Marks add up. -/
theorem markRow_markRow (hs hs' : List ℕ) (row : Packet) :
    markRow hs (markRow hs' row) = markRow (hs ++ hs') row := by
  unfold markRow
  by_cases h : row.hash ∈ hs <;> by_cases h' : row.hash ∈ hs' <;> simp [h, h']

end DetectionSystem

import DetectionSystem.Server.Positions

/-!
# Packets that are given up

The rows of a hash with too few receivers are removed when the first of them that is read is older
than thirty seconds. The age is a difference of unsigned 64-bit numbers, and a timestamp may be
ahead of the clock: it is the time of an earlier contact with the server plus an offset of the
receiver's own timer. The difference then wraps, and the rows are given up at once.

`onlyOld_iff` says for each call of `process()` that this is the only way in which rows that are not
older are marked.
-/

namespace DetectionSystem

namespace PacketProcessor

variable {F : Type} [Double F] {p : PacketProcessor F} {env : Environment} {s t : State F}

/-- The row of a hash whose timestamp the loop body examines when it starts in state `s`. -/
def examined (env : Environment) (s : State F) (hash : ℕ) : Option Packet :=
  (env.order (s.statements + 2) (rowsOf s.packet hash)).head?

/-- The loop body marks the rows of a hash that is below the threshold only if the timestamp it
examines is more than 30 seconds before the clock. -/
def OnlyOld (p : PacketProcessor F) (env : Environment) (table : List Packet) (esp : List Esp)
    (devices local_macs : List (Located F)) : Prop :=
  ∀ pre row post s t, retrievedPackets env table = pre ++ row :: post →
    p.processUpTo env table esp devices local_macs pre = .ok s →
    p.processRow env s row = .ok t → ¬ p.Reaches s.packet row.hash → t.packet ≠ s.packet →
    ∃ r, examined env s row.hash = some r ∧ 30 < (env.time s.readings : ℤ) - r.timestamp

/-- The loop body examines a timestamp that is ahead of the clock, by an amount whose complement to
`2 ^ 64` exceeds 30 seconds. -/
structure ExaminesAhead (p : PacketProcessor F) (env : Environment) (s : State F) (row : Packet) :
    Prop where
  below : ¬ p.Reaches s.packet row.hash
  counter : receivers s.packet row.hash ≠ 0
  sql : ∀ k < 3, env.sqlOk (s.statements + k) = true
  ahead : ∃ r, examined env s row.hash = some r ∧ env.time s.readings < r.timestamp ∧
    30 < ((env.time s.readings : ℤ) - r.timestamp) % 2 ^ 64

/-- Marking a hash that has receivers changes the table. -/
theorem map_markRow_ne {table : List Packet} {hash : ℕ} (h : receivers table hash ≠ 0) :
    table.map (markRow [hash]) ≠ table := by
  intro heq
  refine h ?_
  rw [← heq, receivers_map_markRow_of_mem (List.mem_singleton_self hash)]

/-- What holds of the numbers below three holds of each of them. -/
theorem forall_lt_three {P : ℕ → Prop} : (∀ k < 3, P k) ↔ P 0 ∧ P 1 ∧ P 2 := by
  refine ⟨fun h => ⟨h 0 (by omega), h 1 (by omega), h 2 (by omega)⟩, ?_⟩
  rintro ⟨h0, h1, h2⟩ k hk
  match k with
  | 0 => exact h0
  | 1 => exact h1
  | 2 => exact h2

/-- When the loop body marks a hash below the threshold, the wrapped age of the row it has examined
exceeds 30 seconds. -/
theorem processRow_marks (s : State F) (row : Packet) (hbelow : ¬ p.Reaches s.packet row.hash) :
    Ends (p.processRow env s row)
      (fun t => t.packet ≠ s.packet → receivers s.packet row.hash ≠ 0 ∧
        (∀ k < 3, env.sqlOk (s.statements + k) = true) ∧
        ∃ r, examined env s row.hash = some r ∧
          30 < ((env.time s.readings : ℤ) - r.timestamp) % 2 ^ 64)
      fun _ => True := by
  refine execute_bind (fun _ => trivial) fun h0 => ?_
  dsimp only
  split
  case isTrue hreach => exact absurd hreach hbelow
  split
  case isFalse => exact fun hne => absurd rfl hne
  case isTrue hcounter =>
    refine execute_bind (fun _ => trivial) fun h1 => ?_
    dsimp only
    split
    case h_1 => trivial
    case h_2 r rows hrows =>
      split
      case isFalse => exact fun hne => absurd rfl hne
      case isTrue hold =>
        refine execute_bind (fun _ => trivial) fun h2 _ => ⟨hcounter, ?_, r, ?_, hold⟩
        · exact forall_lt_three.2 ⟨h0, h1, h2⟩
        · rw [examined, hrows]
          rfl

/-- A loop body that examines a timestamp ahead of the clock marks the rows. -/
theorem ExaminesAhead.marks {row : Packet} (h : ExaminesAhead p env s row) :
    ∃ t, p.processRow env s row = .ok t ∧ t.packet ≠ s.packet := by
  obtain ⟨hbelow, hcounter, hsql, r, hexamined, -, hage⟩ := h
  obtain ⟨h0, h1, h2⟩ := forall_lt_three.1 hsql
  have hbelow' : ¬ Threshold p.esp_number (receivers s.packet row.hash) := hbelow
  obtain ⟨rows, hrows⟩ := List.head?_eq_some_iff.1 hexamined
  refine ⟨{ s with
    packet := s.packet.map (markRow [row.hash])
    statements := s.statements + 3
    readings := s.readings + 1 }, ?_, map_markRow_ne hcounter⟩
  rw [Nat.add_zero] at h0
  simpa [processRow, expire, markDeleted, execute, bind, Except.bind, h0, h1, h2, hbelow',
    hcounter, hrows] using hage

/-- **Young packets.** A call of `process()` marks rows below the threshold only for a timestamp
that is more than 30 seconds before the clock, if and only if no loop body examines one that is
ahead of the clock. -/
theorem onlyOld_iff (p : PacketProcessor F) (env : Environment) (table : List Packet)
    (esp : List Esp) (devices local_macs : List (Located F)) :
    OnlyOld p env table esp devices local_macs ↔
      ∀ pre row post s, retrievedPackets env table = pre ++ row :: post →
        p.processUpTo env table esp devices local_macs pre = .ok s →
        ¬ ExaminesAhead p env s row := by
  constructor
  · intro hold pre row post s hrows hs hahead
    obtain ⟨t, ht, hne⟩ := hahead.marks
    obtain ⟨r, hr, hlt⟩ := hold pre row post s t hrows hs ht hahead.below hne
    obtain ⟨r', hr', hnow, -⟩ := hahead.ahead
    cases hr.symm.trans hr'
    omega
  · intro hnever pre row post s t hrows hs ht hbelow hne
    have hends : Ends (p.processRow env s row) _ _ := processRow_marks s row hbelow
    rw [ht] at hends
    obtain ⟨hcounter, hsql, r, hr, hage⟩ := hends hne
    refine ⟨r, hr, ?_⟩
    by_cases hnow : env.time s.readings < r.timestamp
    · exact absurd ⟨hbelow, hcounter, hsql, r, hr, hnow, hage⟩ (hnever pre row post s hrows hs)
    · -- a difference that is not negative does not grow when it is wrapped
      omega

/-- A packet that is ahead of the clock of `calm` by five seconds. -/
def aheadPacket : Packet := { packetOf 0 7 with timestamp := 105 }

/-- It is given up at once. -/
theorem not_onlyOld :
    ¬ ∀ (F : Type) [Double F] (p : PacketProcessor F) (env : Environment) (table : List Packet)
        (esp : List Esp) (devices local_macs : List (Located F)),
        OnlyOld p env table esp devices local_macs := by
  intro hclaim
  obtain ⟨r, hr, hold⟩ := hclaim ℤ twoReceivers calm [aheadPacket] twoEsps [] [] [] aheadPacket []
    { init [aheadPacket] twoEsps [] [] with statements := 2 }
    { init [{ aheadPacket with to_be_deleted := 1 }] twoEsps [] [] with
      statements := 5, readings := 1 } rfl rfl rfl (by decide) (by decide)
  obtain rfl : aheadPacket = r := Option.some.inj hr
  exact absurd hold (by decide)

end PacketProcessor

end DetectionSystem

import DetectionSystem.Server.Service

/-!
# The receive loops

The server collects a message of known size in four places with the same loop,
`for (int i = 0; i < size; i = i + result) result = recv(sock, buf + i, size - i, 0)`, which adds
the result of `recv` to its index before anything looks at it. Here the loop is a transition system
over the results, whatever they are: a step is a call and its result.

`robust_iff` says when the loop is right. A result of zero leaves the index where it is, an error
moves it back, and either may be repeated for ever (`not_ends`); so it is right exactly as long as
neither is returned. The acknowledgement reads one packet of the buffer, which an empty batch does
not have; the result it is sent for is then the one that the loop for the MAC address left.
-/

open Transition

namespace DetectionSystem

namespace Receive

/-! ## The loop -/

/-- The variables of the loop; `closed` and `failed` record, for the statements only, that a call
has returned zero or an error. -/
structure Loop where
  i : ℤ
  result : ℤ
  closed : Bool
  failed : Bool
deriving DecidableEq, Repr

/-- The loop is entered with the result that was left by the one before it. -/
def start (result : ℤ) : Loop := ⟨0, result, false, false⟩

/-- What the next `recv` may return: at most the number of bytes it is asked for, zero after an
orderly close, which is final, or an error. -/
def Possible (size : ℕ) (s : Loop) (got : ℤ) : Prop :=
  -1 ≤ got ∧ got ≤ size - s.i ∧ (s.closed = true → got = 0)

/-- What `recv` may return can be tested. -/
instance (size : ℕ) (s : Loop) (got : ℤ) : Decidable (Possible size s got) :=
  inferInstanceAs (Decidable (_ ∧ _))

/-- A call of `recv` with offset `i`. -/
def step (size : ℕ) (s : Loop) (got : ℤ) : Option Loop :=
  guarded (s.i < size ∧ Possible size s got)
    { i := s.i + got
      result := got
      closed := s.closed || got = 0
      failed := s.failed || got = -1 }

/-- The loop is left after a bounded number of further calls, whatever they return. -/
def Ends (size : ℕ) (s : Loop) : Prop :=
  ∃ n, ∀ rs t, run (step size) s rs = some t → rs.length ≤ n

/-- The offset is not in front of the buffer (nor behind it, when a call is made), and once the peer
has closed or failed, the loop ends. -/
structure Robust (size : ℕ) (s : Loop) : Prop where
  inside : 0 ≤ s.i
  ends : s.closed = true ∨ s.failed = true → Ends size s

/-- Bytes are received. -/
def Positive (_ : Loop) (got : ℤ) : Prop := 0 < got

/-- Whether it returned bytes can be tested. -/
instance : ∀ s got, Decidable (Positive s got) := fun _ got => inferInstanceAs (Decidable (0 < got))

section

variable {size : ℕ} {s t : Loop} {got : ℤ} {rs : List ℤ}

/-- A result that is not positive may be returned again and again: the loop need not end. -/
theorem not_ends (hgot : got = 0 ∨ got = -1) (hi : s.i < size)
    (hclosed : s.closed = true → got = 0) : ¬ Ends size s := by
  rintro ⟨n, hn⟩
  have hprogress : ∀ s : Loop, (s.i < size ∧ (s.closed = true → got = 0)) →
      ∃ t, step size s got = some t ∧ t.i < size ∧ (t.closed = true → got = 0) := by
    intro s ⟨hi, hclosed⟩
    refine ⟨_, guarded_eq_some.2 ⟨⟨hi, by omega, by omega, hclosed⟩, rfl⟩, ?_, ?_⟩
    · dsimp only
      omega
    · rcases hgot with rfl | rfl
      · simp
      · simpa using hclosed
  obtain ⟨t, ht⟩ := exists_run_replicate hprogress ⟨hi, hclosed⟩ (n + 1)
  have hle := hn _ t ht
  rw [List.length_replicate] at hle
  omega

/-- What the loop keeps while bytes are received. -/
structure Inv (s : Loop) : Prop where
  inside : 0 ≤ s.i
  closed : s.closed = false
  failed : s.failed = false

/-- The loop begins with nothing received. -/
theorem inv_start (result : ℤ) : Inv (start result) := ⟨le_rfl, rfl, rfl⟩

/-- A loop in order is robust. -/
theorem Inv.robust (h : Inv s) : Robust size s :=
  ⟨h.inside, fun hend => by simp [h.closed, h.failed] at hend⟩

/-- A `recv` that returns bytes keeps the loop in order. -/
theorem Inv.step (h : Inv s) (hpos : Positive s got) (hstep : step size s got = some t) :
    Inv t := by
  have hpos' : 0 < got := hpos
  obtain ⟨-, rfl⟩ := guarded_eq_some.1 hstep
  refine ⟨?_, ?_, ?_⟩
  · have := h.inside
    dsimp only
    omega
  · simp [h.closed, hpos'.ne']
  · simp only [h.failed, Bool.false_or, decide_eq_false_iff_not]
    omega

/-- Any other result leads out of what is robust. -/
theorem not_robust_of_step (h : Inv s) (hneg : ¬ Positive s got)
    (hstep : Receive.step size s got = some t) : ¬ Robust size t := by
  obtain ⟨⟨hi, hlow, -, -⟩, rfl⟩ := guarded_eq_some.1 hstep
  have hgot : got = 0 ∨ got = -1 := by
    have hle : ¬ 0 < got := hneg
    omega
  intro hrobust
  refine not_ends hgot ?_ ?_ (hrobust.ends ?_)
  · dsimp only
    omega
  · simp [h.closed]
  · rcases hgot with rfl | rfl <;> simp

/-- A loop that is left has a positive result: its last call went past the end. -/
theorem result_pos (hrun : run (Receive.step size) s rs = some t) (hi : s.i < size)
    (hend : size ≤ t.i) : 0 < t.result := by
  have hkeep : ∀ (s : Loop) (got : ℤ) (t : Loop), (s.i < size ∨ 0 < s.result) →
      Receive.step size s got = some t → t.i < size ∨ 0 < t.result := by
    intro s got t _ hstep
    obtain ⟨⟨hi, -⟩, rfl⟩ := guarded_eq_some.1 hstep
    dsimp only
    omega
  have hor : t.i < size ∨ 0 < t.result :=
    run_invariant (I := fun s : Loop => s.i < size ∨ 0 < s.result) hkeep (.inl hi) hrun
  omega

end

/-! ## The four buffers -/

/-- What is received: an INIT message, a READY message, a MAC address, or the packets of an upload,
of which the byte `c` gives the number. -/
inductive Buffer
  | init
  | ready
  | mac
  | packets (c : UInt8)
deriving DecidableEq, Repr

/-- `count = c - '0'`, in a `uint8_t`. -/
def count (c : UInt8) : UInt8 := c - '0'.toUInt8

/-- The size that is allocated and asked for. -/
def Buffer.size : Buffer → ℕ
  | .init => 10
  | .ready => 5
  | .mac => 6
  | .packets c => (count c).toNat * PACKET_SIZE

/-- The result with which a loop is entered. It is zero, except for the packets, to which
`TCPS_service` gets with what a completed loop for the MAC address has left. -/
def Entered (result : ℤ) : Buffer → Prop
  | .packets _ => ∃ rs s, run (step Buffer.mac.size) (start 0) rs = some s ∧
      Buffer.mac.size ≤ s.i ∧ s.result = result
  | _ => result = 0

/-- If the packets are received and acknowledged, the acknowledgement lies inside their buffer. -/
def AckInside (s : Loop) : Buffer → Prop
  | .packets c =>
    (Buffer.packets c).size ≤ s.i → 0 < s.result → PACKET_SIZE ≤ (Buffer.packets c).size
  | _ => True

/-- The buffer is that of an empty batch. -/
def Buffer.Empty : Buffer → Prop
  | .packets c => c = '0'.toUInt8
  | _ => False

/-- Whether a buffer is empty can be seen. -/
instance : ∀ buffer : Buffer, Decidable buffer.Empty
  | .packets c => inferInstanceAs (Decidable (c = '0'.toUInt8))
  | .init | .ready | .mac => .isFalse id

/-- The number of packets is zero exactly for the character `0`. -/
theorem count_eq_zero (c : UInt8) : (count c).toNat = 0 ↔ c = '0'.toUInt8 := by
  rw [count, ← UInt8.toNat_zero, UInt8.toNat_inj, UInt8.sub_eq_iff_eq_add, UInt8.zero_add]

variable {buffer : Buffer} {result : ℤ} {rs : List ℤ} {t : Loop}

/-- The acknowledgement reads outside of its buffer if and only if the batch is empty. -/
theorem ackInside_iff (hin : Entered result buffer)
    (hrun : run (step buffer.size) (start result) rs = some t) :
    AckInside t buffer ↔ ¬ buffer.Empty := by
  cases buffer with
  | init | ready | mac => simp [AckInside, Buffer.Empty]
  | packets c =>
    simp only [AckInside, Buffer.Empty]
    constructor
    · rintro hack rfl
      obtain ⟨rs', s, hmac, hend, rfl⟩ := hin
      -- no call is made for an empty batch
      cases rs with
      | nil =>
        cases hrun
        have hpos := result_pos hmac (by decide) hend
        have hsize : PACKET_SIZE ≤ (Buffer.packets '0'.toUInt8).size := hack le_rfl hpos
        exact absurd hsize (by decide)
      | cons got rs =>
        obtain ⟨u, hu, -⟩ := run_cons_eq_some.1 hrun
        obtain ⟨⟨hi, -⟩, -⟩ := guarded_eq_some.1 hu
        exact absurd hi (lt_irrefl _)
    · intro hne _ _
      have hcount : (count c).toNat ≠ 0 := fun h => hne ((count_eq_zero c).1 h)
      exact Nat.le_mul_of_pos_left _ (Nat.pos_of_ne_zero hcount)

/-- **The receive loops.** Whatever the calls of `recv` return, a loop keeps its offset inside the
buffer, ends once the peer has closed or failed, and is acknowledged from inside the buffer, if and
only if no call returns zero or an error and the batch is not empty. -/
theorem robust_iff (buffer : Buffer) (result : ℤ) (rs : List ℤ) (t : Loop)
    (hin : Entered result buffer) (hrun : run (step buffer.size) (start result) rs = some t) :
    (Throughout (step buffer.size) (Robust buffer.size) (start result) rs ∧ AckInside t buffer) ↔
      Meets (step buffer.size) Positive (start result) rs ∧ ¬ buffer.Empty := by
  rw [ackInside_iff hin hrun, throughout_iff_meets (fun _ h => Inv.robust h)
    (fun _ _ _ h hpos hstep => h.step hpos hstep)
    (fun _ _ _ h hneg hstep => not_robust_of_step h hneg hstep) (inv_start result) hrun]

/-- Two packets in two pieces, behind a MAC address in two pieces. -/
theorem robust_iff_twoPackets :
    Throughout (step 112) (Robust 112) (start 4) [100, 12] ∧
      AckInside ⟨112, 12, false, false⟩ (.packets 50) :=
  (robust_iff (.packets 50) 4 [100, 12] ⟨112, 12, false, false⟩
    ⟨[2, 4], ⟨6, 4, false, false⟩, rfl, le_rfl, rfl⟩ rfl).2 ⟨by decide, by decide⟩

/-- The peer closes after four bytes of an INIT message: the loop never ends. -/
theorem not_robust_of_close :
    ¬ ∀ (buffer : Buffer) (result : ℤ) (rs : List ℤ) (t : Loop), Entered result buffer →
      run (step buffer.size) (start result) rs = some t →
      Throughout (step buffer.size) (Robust buffer.size) (start result) rs ∧ AckInside t buffer := by
  intro hclaim
  have hrobust := (hclaim .init 0 [4, 0] ⟨4, 0, true, false⟩ rfl rfl).1 [4, 0] (List.prefix_refl _)
    ⟨4, 0, true, false⟩ rfl
  have hzero : (0 : ℤ) = 0 ∨ (0 : ℤ) = -1 := .inl rfl
  exact not_ends hzero (by decide) (fun _ => rfl) (hrobust.ends (.inl rfl))

/-! ## The loops of the service -/

/-- The loop on a socket is one of these loops: if it is left, then after calls that all returned
bytes, at most as many as they were asked for. -/
theorem run_of_recvLoop {fuel size : ℕ} {s : Loop} {buf buf' : List UInt8} {result : ℤ}
    {sock sock' : Service.Socket} (hclosed : s.closed = false)
    (hloop : Service.recvLoop fuel size s.i buf s.result sock = some (buf', result, sock')) :
    ∃ rs t, run (step size) s rs = some t ∧ Meets (step size) Positive s rs ∧ size ≤ t.i ∧
      t.result = result := by
  induction fuel generalizing s buf sock with
  | zero => cases hloop
  | succ fuel ih =>
    by_cases hi : s.i < size
    case neg =>
      rw [Service.recvLoop, if_neg hi] at hloop
      cases hloop
      exact ⟨[], s, rfl, trivial, not_lt.1 hi, rfl⟩
    case pos =>
      have hbytes : sock.bytes ≠ [] := by
        intro hnone
        have hstuck := Service.recvLoop_stuck (Service.Socket.chunks_eq_nil hnone) (fuel + 1) buf
          s.result s.i hi
        rw [hloop] at hstuck
        cases hstuck
      obtain ⟨bytes, rest, hrecv, hne, hle, -⟩ :=
        Service.recv_eq sock (show 0 < ((size : ℤ) - s.i).toNat by omega) hbytes
      rw [Service.recvLoop, if_pos hi, hrecv] at hloop
      dsimp only at hloop
      have hpos : 0 < (bytes.length : ℤ) := Nat.cast_pos.2 (List.length_pos_iff.2 hne)
      obtain ⟨u, hstep, hui, hures, huclosed⟩ : ∃ u, step size s bytes.length = some u ∧
          u.i = s.i + bytes.length ∧ u.result = bytes.length ∧ u.closed = false :=
        ⟨_, guarded_eq_some.2 ⟨⟨hi, by omega, by omega, by simp [hclosed]⟩, rfl⟩, rfl, rfl,
          by simp [hclosed, hne]⟩
      rw [← hui, ← hures] at hloop
      obtain ⟨rs, t, hrun, hmeets, hend, hresult⟩ := ih huclosed hloop
      refine ⟨bytes.length :: rs, t, run_cons_eq_some.2 ⟨u, hstep, hrun⟩, ⟨hpos, ?_⟩, hend, hresult⟩
      intro v hv
      cases hstep.symm.trans hv
      exact hmeets

end Receive

end DetectionSystem

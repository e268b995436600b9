import DetectionSystem.Server.Service

/-!
# The answers of the server

The receiver reads three answers of the server: the confirmation of its INIT (`esp_initialization`),
the READY (`esp_is_ready`), and the acknowledgement of an upload (`tcp_client_timer_version`). The
first two are read with a single `read`, whatever it returns, into an array on the stack that is
then compared as a whole. The third is read in a loop, which waits for one `read` that returns all
of it. So all three depend on how the bytes arrive; `answers_iff` says how.
-/

open Transition

namespace DetectionSystem

namespace Answers

open Service

/-- `INIT_MSG_H`, without the zero at its end. -/
def INIT_MSG_H : List UInt8 := [73, 78, 73, 84]

/-- `READY_MSG_H`, without the zero at its end. -/
def READY_MSG_H : List UInt8 := [82, 69, 65, 68, 89]

/-! ## One read -/

/-- The bytes a `read` returns are the next ones; it fails only where there are none. -/
theorem recv_some {sock rest : Socket} {len : ℕ} {r : ℤ} {bytes : List UInt8}
    (h : sock.recv len = some (r, bytes, rest)) :
    sock.bytes = bytes ++ rest.bytes ∧ bytes.length ≤ len ∧
      (r = bytes.length ∨ r = -1 ∧ bytes = [] ∧ sock.bytes = []) := by
  obtain ⟨chunks, ending⟩ := sock
  cases chunks with
  | nil => cases ending <;> cases h <;> simp [Socket.bytes]
  | cons chunk chunks =>
    by_cases hle : chunk.1.length ≤ len
    · simp only [Socket.recv, dif_pos hle] at h
      cases h
      exact ⟨rfl, hle, .inl rfl⟩
    · simp only [Socket.recv, dif_neg hle] at h
      cases h
      refine ⟨?_, List.length_take_le _ _, .inl ?_⟩
      · rw [Socket.bytes_cons, Socket.bytes_cons, ← List.append_assoc, List.take_append_drop]
      · rw [List.length_take, min_eq_left (by omega)]

/-- What a `read` leaves in an array: the bytes it returns, and behind them what the array held. -/
def overwrite (bytes array : List UInt8) : List UInt8 := bytes ++ array.drop bytes.length

/-! ## The confirmation of INIT -/

/-- The four digits of a port. -/
def digits (port : Fin 10000) : List UInt8 :=
  [port.1 / 1000, port.1 / 100 % 10, port.1 / 10 % 10, port.1 % 10].map fun d =>
    UInt8.ofNat (48 + d)

/-- What the server sends: INIT and the ready port of the receiver. -/
def confirmation (port : Fin 10000) : List UInt8 := INIT_MSG_H ++ digits port

/-- An attempt that reaches its `read`: the server sends the confirmation for a port, of which the
connection may deliver a part only; `recv` is what the array on the stack held. -/
structure Answered where
  port : Fin 10000
  sock : Socket
  sent : sock.bytes <+: confirmation port
  recv : Bytes 8

/-- What `esp_initialization` returns with: the value of `READY_PORT` and, for the statements only,
the port that was sent to it and the bytes it has read. -/
structure Returned where
  READY_PORT : ℤ
  port : Fin 10000
  received : List UInt8
deriving DecidableEq

/-- `(recv[4]-'0')*1000 + (recv[5]-'0')*100 + (recv[6]-'0')*10 + recv[7]-'0'`. -/
def readPort (recv : List UInt8) : ℤ :=
  let char (i : ℕ) : ℤ := (recv.getD i 0).toNat
  (char 4 - 48) * 1000 + (char 5 - 48) * 100 + (char 6 - 48) * 10 + char 7 - 48

/-- `esp_initialization`, over the attempts it makes. An attempt is `none` where the socket, the
connection or one of the two writes fails; `none` is returned as long as none of them ends it. -/
def esp_initialization (READY_PORT : ℤ) : List (Option Answered) → Option Returned
  | [] => none
  | none :: attempts => esp_initialization READY_PORT attempts
  | some a :: attempts =>
    match a.sock.recv 8 with
    | none => none
    | some (r, bytes, _) =>
      if r < 0 then esp_initialization READY_PORT attempts
      else
        let recv := overwrite bytes a.recv.1
        if recv.take 4 = INIT_MSG_H then some ⟨readPort recv, a.port, bytes⟩
        else some ⟨READY_PORT, a.port, bytes⟩

/-- It returns only after a complete confirmation, with the port that was sent. -/
def Confirms (READY_PORT : ℤ) (attempts : List (Option Answered)) : Prop :=
  ∀ ret, esp_initialization READY_PORT attempts = some ret →
    ret.received = confirmation ret.port ∧ ret.READY_PORT = (ret.port : ℕ)

/-- The first `read` that does not fail returns eight bytes. -/
def FirstReadWhole : List (Option Answered) → Prop
  | [] => True
  | none :: attempts => FirstReadWhole attempts
  | some a :: attempts =>
    match a.sock.recv 8 with
    | none => True
    | some (r, _, _) => if r < 0 then FirstReadWhole attempts else r = 8

@[simp] theorem length_confirmation (port : Fin 10000) : (confirmation port).length = 8 := rfl

/-- The port is read from the confirmation that was printed for it. -/
theorem readPort_confirmation (port : Fin 10000) : readPort (confirmation port) = (port : ℕ) := by
  have hdigit : ∀ d : ℕ, d < 10 → ((UInt8.ofNat (48 + d)).toNat : ℤ) = 48 + d := by
    intro d hd
    rw [UInt8.toNat_ofNat', Nat.mod_eq_of_lt (by omega)]
    push_cast
    rfl
  have hport := port.2
  simp only [readPort, confirmation, INIT_MSG_H, digits, List.map_cons, List.map_nil,
    List.cons_append, List.nil_append, List.getD_cons_succ, List.getD_cons_zero]
  rw [hdigit _ (by omega), hdigit _ (by omega), hdigit _ (by omega), hdigit _ (by omega)]
  omega

/-- Eight bytes of a confirmation are the confirmation. -/
theorem eq_confirmation {port : Fin 10000} {bytes : List UInt8} (h : bytes <+: confirmation port)
    (hlen : bytes.length = 8) : bytes = confirmation port :=
  h.eq_of_length (hlen.trans (length_confirmation port).symm)

/-- The device is confirmed with its port exactly if the first answer that arrives is read whole. -/
theorem confirms_iff (READY_PORT : ℤ) (attempts : List (Option Answered)) :
    Confirms READY_PORT attempts ↔ FirstReadWhole attempts := by
  induction attempts with
  | nil => exact ⟨fun _ => trivial, fun _ _ h => by cases h⟩
  | cons attempt attempts ih =>
    cases attempt with
    | none => exact ih
    | some a =>
      unfold Confirms FirstReadWhole
      rw [esp_initialization]
      cases hrecv : a.sock.recv 8 with
      | none => simp
      | some result =>
        obtain ⟨r, bytes, rest⟩ := result
        obtain ⟨hbytes, -, hr⟩ := recv_some hrecv
        dsimp only
        by_cases hneg : r < 0
        · rw [if_pos hneg, if_pos hneg]
          exact ih
        rw [if_neg hneg, if_neg hneg]
        have hr : r = bytes.length := hr.resolve_right fun h => hneg (by omega)
        constructor
        · intro h
          -- whatever is in the array, the bytes that were read are what matters
          have hreceived : bytes = confirmation a.port := by
            by_cases hinit : (overwrite bytes a.recv.1).take 4 = INIT_MSG_H
            · exact (h _ (if_pos hinit)).1
            · exact (h _ (if_neg hinit)).1
          rw [hr, hreceived, length_confirmation]
          rfl
        · intro h8 ret hret
          have hpre : bytes <+: a.sock.bytes := ⟨rest.bytes, hbytes.symm⟩
          obtain rfl := eq_confirmation (hpre.trans a.sent) (by omega)
          have harray : overwrite (confirmation a.port) a.recv.1 = confirmation a.port := by
            simp [overwrite]
          rw [harray, if_pos (show (confirmation a.port).take 4 = INIT_MSG_H from rfl)] at hret
          obtain rfl := Option.some.inj hret
          exact ⟨rfl, readPort_confirmation a.port⟩

/-! ## READY -/

/-- `esp_is_ready`: whether it has recognised a READY when it returns. It returns at once where the
socket, the connection or the write fails; otherwise `sock` is the connection, and `recv` what the
array on the stack held. -/
def esp_is_ready : Option (Socket × Bytes 5) → Option Bool
  | none => some false
  | some (sock, recv) =>
    match sock.recv 5 with
    | none => none
    | some (r, bytes, _) =>
      if r = -1 then some false else some (overwrite bytes recv.1 = READY_MSG_H)

/-- It recognises a READY exactly if the server has sent one, all of which arrives. -/
def Recognises (sock : Socket) (recv : Bytes 5) : Prop :=
  ∀ b, esp_is_ready (some (sock, recv)) = some b → (b = true ↔ READY_MSG_H <+: sock.bytes)

/-- If the first `read` returns only the beginning of a READY, what the array held behind it is the
rest of a READY exactly if that rest is still to come. -/
def RestAgrees (sock : Socket) (recv : Bytes 5) : Prop :=
  ∀ r bytes rest, sock.recv 5 = some (r, bytes, rest) → r ≠ -1 → bytes.length < 5 →
    bytes <+: READY_MSG_H →
    (recv.1.drop bytes.length = READY_MSG_H.drop bytes.length ↔ READY_MSG_H <+: sock.bytes)

/-- The array holds a READY exactly if its first bytes begin one and the rest completes it. -/
theorem overwrite_eq_iff {bytes msg array : List UInt8} (h : bytes.length ≤ msg.length) :
    overwrite bytes array = msg ↔
      bytes <+: msg ∧ array.drop bytes.length = msg.drop bytes.length := by
  unfold overwrite
  constructor
  · rintro rfl
    exact ⟨List.prefix_append _ _, by simp⟩
  · rintro ⟨⟨rest, rfl⟩, hdrop⟩
    rw [hdrop, List.drop_left]

/-- The answer is recognised exactly if the bytes that are not read happen to be the rest of it. -/
theorem recognises_iff (sock : Socket) (recv : Bytes 5) :
    Recognises sock recv ↔ RestAgrees sock recv := by
  cases hrecv : sock.recv 5 with
  | none => simp [Recognises, RestAgrees, esp_is_ready, hrecv]
  | some result =>
    obtain ⟨r, bytes, rest⟩ := result
    obtain ⟨hbytes, hlen, hr⟩ := recv_some hrecv
    by_cases hfail : r = -1
    · have hnone : ¬ READY_MSG_H <+: sock.bytes := by
        rw [(hr.resolve_left (by omega)).2.2]
        decide
      simp [Recognises, RestAgrees, esp_is_ready, hrecv, hfail, hnone]
    have hrec : Recognises sock recv ↔
        (overwrite bytes recv.1 = READY_MSG_H ↔ READY_MSG_H <+: sock.bytes) := by
      simp [Recognises, esp_is_ready, hrecv, hfail]
    have hrest : RestAgrees sock recv ↔ (bytes.length < 5 → bytes <+: READY_MSG_H →
        (recv.1.drop bytes.length = READY_MSG_H.drop bytes.length ↔
          READY_MSG_H <+: sock.bytes)) := by
      simp [RestAgrees, hrecv, hfail]
    -- the bytes that were read are the first ones of the connection
    have hbegin : READY_MSG_H <+: sock.bytes → bytes <+: READY_MSG_H := fun h =>
      List.prefix_of_prefix_length_le ⟨rest.bytes, hbytes.symm⟩ h hlen
    rw [hrec, hrest, overwrite_eq_iff hlen]
    rcases Nat.lt_or_eq_of_le hlen with hlt | heq
    · by_cases hpre : bytes <+: READY_MSG_H
      · simp [hlt, hpre]
      · simpa [hpre] using fun h => hpre (hbegin h)
    · refine ⟨fun _ hlt => absurd heq hlt.ne, fun _ => ⟨fun h => ?_, fun h => ⟨hbegin h, ?_⟩⟩⟩
      · rw [hbytes, h.1.eq_of_length heq]
        exact List.prefix_append _ _
      · rw [List.drop_of_length_le (recv.2.trans heq.symm).le,
          List.drop_of_length_le (show READY_MSG_H.length ≤ bytes.length from heq.ge)]

/-! ## The acknowledgement -/

/-- The loop that waits for the acknowledgement: the last result, and whether it goes on; `total`
and `ended` record, for the statements only, how many bytes have been returned and whether the peer
has closed or failed. -/
structure AckLoop where
  r : ℤ
  goesOn : Bool
  total : ℤ
  ended : Bool
  closed : Bool
deriving DecidableEq, Repr

/-- `do { ... } while (r < PACKET_SIZE)` is entered. -/
def start : AckLoop := ⟨0, true, 0, false, false⟩

/-- What a `read` of `PACKET_SIZE` bytes may return: some bytes, zero after a close, which is final,
or an error. -/
def Possible (s : AckLoop) (got : ℤ) : Prop :=
  -1 ≤ got ∧ got ≤ PACKET_SIZE ∧ (s.closed = true → got = 0)

/-- What a `read` may return can be tested, -/
instance (s : AckLoop) (got : ℤ) : Decidable (Possible s got) :=
  inferInstanceAs (Decidable (_ ∧ _))

/-- One round of the loop. -/
def step (s : AckLoop) (got : ℤ) : Option AckLoop :=
  guarded (s.goesOn = true ∧ Possible s got)
    { r := got
      goesOn := got < PACKET_SIZE
      total := s.total + max got 0
      ended := s.ended || got ≤ 0
      closed := s.closed || got = 0 }

/-- The loop has stopped exactly if a whole packet has arrived, or the peer has closed or failed. -/
def StopsInTime (s : AckLoop) : Prop :=
  s.goesOn = false ↔ (PACKET_SIZE : ℤ) ≤ s.total ∨ s.ended = true

/-- so can the end of the loop, -/
instance (s : AckLoop) : Decidable (StopsInTime s) := inferInstanceAs (Decidable (_ ↔ _))

/-- The `read` returns a whole packet, or bytes that do not complete one. -/
def WholeOrPart (s : AckLoop) (got : ℤ) : Prop :=
  got = PACKET_SIZE ∨ 0 < got ∧ s.total + got < PACKET_SIZE

/-- and what it may return so that the loop ends in time. -/
instance (s : AckLoop) (got : ℤ) : Decidable (WholeOrPart s got) :=
  inferInstanceAs (Decidable (_ ∨ _))

/-- What the loop keeps while it is right. -/
structure Inv (s : AckLoop) : Prop where
  stops : StopsInTime s
  total : 0 ≤ s.total
  ended : s.ended = false

/-- The loop begins right. -/
theorem inv_start : Inv start := ⟨by decide, le_rfl, rfl⟩

section
variable {s t : AckLoop} {got : ℤ}

/-- A `read` that returns a whole packet or less than is missing keeps the loop right. -/
theorem Inv.step (h : Inv s) (hG : WholeOrPart s got) (hstep : Answers.step s got = some t) :
    Inv t := by
  obtain ⟨-, rfl⟩ := guarded_eq_some.1 hstep
  have htotal := h.total
  have hpos : 0 < got := by
    rcases hG with rfl | hG
    · decide
    · exact hG.1
  refine ⟨?_, ?_, ?_⟩
  · simp only [StopsInTime, h.ended, Bool.false_or, decide_eq_false_iff_not, decide_eq_true_eq]
    unfold WholeOrPart at hG
    omega
  · dsimp only
    omega
  · simp [h.ended, hpos]

/-- Any other result is one after which the loop should have stopped, and goes on. -/
theorem Inv.not_stopsInTime (h : Inv s) (hG : ¬ WholeOrPart s got)
    (hstep : Answers.step s got = some t) : ¬ StopsInTime t := by
  obtain ⟨⟨-, -, hle, -⟩, rfl⟩ := guarded_eq_some.1 hstep
  have htotal := h.total
  simp only [StopsInTime, h.ended, Bool.false_or, decide_eq_false_iff_not, decide_eq_true_eq]
  unfold WholeOrPart at hG
  omega

end

/-- The loop stops in time in a whole run exactly if its `read`s are of that kind. -/
theorem stopsInTime_iff {rs : List ℤ} {s : AckLoop} (hrun : run step start rs = some s) :
    Throughout step StopsInTime start rs ↔ Meets step WholeOrPart start rs :=
  throughout_iff_meets (fun _ h => h.stops) (fun _ _ _ h hG hstep => h.step hG hstep)
    (fun _ _ _ h hG hstep => h.not_stopsInTime hG hstep) inv_start hrun

/-- **The answers and their fragments.** `esp_initialization` is right exactly if its first `read`
that does not fail returns the whole confirmation, `esp_is_ready` exactly if what follows a partial
`read` agrees with what the array held, and the loop for the acknowledgement exactly if every `read`
returns a whole packet or does not complete one. -/
theorem answers_iff (READY_PORT : ℤ) (attempts : List (Option Answered)) (sock : Socket)
    (recv : Bytes 5) (rs : List ℤ) (s : AckLoop) (hrun : run step start rs = some s) :
    (Confirms READY_PORT attempts ↔ FirstReadWhole attempts) ∧
      (Recognises sock recv ↔ RestAgrees sock recv) ∧
      (Throughout step StopsInTime start rs ↔ Meets step WholeOrPart start rs) :=
  ⟨confirms_iff READY_PORT attempts, recognises_iff sock recv, stopsInTime_iff hrun⟩

/-- A connection on which these chunks arrive before it waits. -/
def arriving (chunks : List Chunk) : Socket := ⟨chunks, .silent⟩

/-- The array on the stack holds zeros. -/
def zeros (n : ℕ) : Bytes n := ⟨List.replicate n 0, List.length_replicate⟩

/-- One attempt fails; the confirmation for port 3011 arrives in one piece, and so do the READY and
the acknowledgement. -/
theorem answers_iff_inOnePiece :
    Confirms 0 [none, some ⟨3011, arriving [⟨confirmation 3011, by decide⟩],
        ⟨[], by simp [arriving, Socket.bytes]⟩, zeros 8⟩] ∧
      Recognises (arriving [⟨READY_MSG_H, by decide⟩]) (zeros 5) ∧
      Throughout step StopsInTime start [56] := by
  obtain ⟨hconfirms, hrecognises, hstops⟩ := answers_iff 0
    [none, some ⟨3011, arriving [⟨confirmation 3011, by decide⟩],
      ⟨[], by simp [arriving, Socket.bytes]⟩, zeros 8⟩]
    (arriving [⟨READY_MSG_H, by decide⟩]) (zeros 5) [56] ⟨56, false, 56, false, false⟩ rfl
  refine ⟨hconfirms.2 rfl, hrecognises.2 ?_, hstops.2 (by decide)⟩
  intro _ _ _ h _ hlt
  cases h
  exact absurd hlt (by decide)

/-- The confirmation arrives with the port behind, the READY in two pieces, and the acknowledgement
in halves: the port is read from the stack, the READY is missed, and the loop goes on. -/
theorem answers_in_pieces :
    ¬ Confirms 0 [some ⟨3011, arriving [⟨INIT_MSG_H, by decide⟩, ⟨digits 3011, by decide⟩],
        ⟨[], by simp [arriving, Socket.bytes, confirmation]⟩, zeros 8⟩] ∧
      ¬ Recognises (arriving [⟨[82, 69, 65], by decide⟩, ⟨[68, 89], by decide⟩]) (zeros 5) ∧
      ¬ Throughout step StopsInTime start [28, 28] := by
  refine ⟨fun h => ?_, fun h => ?_, fun h => ?_⟩
  · have hport := (h ⟨-53328, 3011, INIT_MSG_H⟩ rfl).2
    exact absurd hport (by decide)
  · exact absurd ((h false rfl).2 ⟨[], by simp [arriving, Socket.bytes, READY_MSG_H]⟩) (by decide)
  · have hstop := h [28, 28] (List.prefix_refl _) ⟨28, true, 56, false, false⟩ rfl
    exact absurd hstop (by decide)

end Answers

end DetectionSystem

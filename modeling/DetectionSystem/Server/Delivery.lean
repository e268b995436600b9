import DetectionSystem.Firmware.HandOff
import DetectionSystem.Server.Service
import Mathlib.Data.List.Forall2

/-!
# From capture to storage

One receiver from end to end: the tasks of the firmware, the connections that the timer task opens
and writes to, and the threads of the server that receive them. A connection carries the bytes that
were written on it, cut anywhere by a call that fails or by the network, and split into any chunks.

`stored_of_short` and `stored_of_complete` are the two ends of a connection, `Pending` says what the
current one has carried at each statement of the timer task, and `run_conns` keeps it over every
interleaving. `stored_sublist_captured` puts them together: what the server stores of a receiver is
what it captured, in order and at most once, without anything that was not captured.
-/

open Transition

namespace DetectionSystem

/-! ## One connection -/

namespace Service

/-- The bytes of a connection that is cut before the end of its upload: a part of the MAC address,
or the address, the count and fewer bytes than it promises. -/
def Short (mac : Mac) (bytes : List UInt8) : Prop :=
  bytes <+: mac.1 ∨ ∃ (count : UInt8) (rest : List UInt8),
    bytes = mac.1 ++ (count + '0'.toUInt8) :: rest ∧ rest.length < count.toNat * PACKET_SIZE

/-- What is left of an upload that is cut is short, unless all of it is left. -/
theorem short_of_cut {mac : Mac} {count : UInt8} {rest bytes : List UInt8}
    (hlen : rest.length ≤ count.toNat * PACKET_SIZE)
    (h : bytes <+: mac.1 ++ (count + '0'.toUInt8) :: rest) :
    Short mac bytes ∨ bytes = mac.1 ++ (count + '0'.toUInt8) :: rest := by
  rcases List.prefix_or_prefix_of_prefix h (List.prefix_append _ _) with hmac | ⟨more, rfl⟩
  · exact .inl (.inl hmac)
  rw [List.prefix_append_right_inj] at h
  cases more with
  | nil => exact .inl (.inl (by simp))
  | cons b more =>
    obtain ⟨rfl, h⟩ := List.cons_prefix_cons.1 h
    rcases h.length_le.lt_or_eq with hlt | heq
    · exact .inl (.inr ⟨count, more, rfl, by simp only [List.length_cons] at hlt; omega⟩)
    · exact .inr (by rw [h.eq_of_length heq])

/-- What is cut off a short upload leaves a short one. -/
theorem Short.of_cut {mac : Mac} {bytes bytes' : List UInt8} (h : Short mac bytes)
    (hpre : bytes' <+: bytes) : Short mac bytes' := by
  rcases h with h | ⟨count, rest, rfl, hlt⟩
  · exact .inl (hpre.trans h)
  · rcases short_of_cut hlt.le hpre with h | rfl
    · exact h
    · exact .inr ⟨count, rest, rfl, hlt⟩

/-- A loop that is promised more bytes than come never ends. -/
theorem recvLoop_of_short (size fuel : ℕ) (sock : Socket) (buf : List UInt8) (result : ℤ)
    (hlt : buf.length + sock.bytes.length < size) :
    recvLoop fuel size buf.length buf result sock = none := by
  induction fuel generalizing sock buf result with
  | zero => rfl
  | succ fuel ih =>
    rcases eq_or_ne sock.bytes [] with hnil | hne
    · exact recvLoop_stuck (Socket.chunks_eq_nil hnil) _ _ _ _ (by omega)
    rw [recvLoop, if_pos (by omega)]
    obtain ⟨got, sock', hrecv, hgot, hle, hbytes⟩ :=
      recv_eq sock (show 0 < ((size : ℤ) - (buf.length : ℤ)).toNat by omega) hne
    rw [hrecv]
    have hlen := congrArg List.length hbytes
    rw [List.length_append] at hlen
    have hrec := ih sock' (buf ++ got) got.length
      (by rw [List.length_append]; omega)
    rw [List.length_append, Nat.cast_add] at hrec
    exact hrec

/-- The thread leaves what an attempt leaves, if nothing more comes then. -/
theorem TCPS_service_of_attempt (w : World) (fuel attempts : ℕ) {s : State}
    (h : (attempt w fuel s).state.stored = s.stored)
    (hbytes : ∀ t, attempt w fuel s = .again t ∨ attempt w fuel s = .threw t →
      t.sock.bytes = []) :
    (TCPS_service w fuel attempts s).stored = s.stored := by
  cases attempts with
  | zero => rfl
  | succ attempts =>
    rw [TCPS_service]
    split
    · rfl
    · cases hattempt : attempt w fuel s with
      | finished t | stuck t => rw [hattempt] at h; exact h
      | again t =>
        rw [hattempt] at h
        dsimp only
        rw [TCPS_service_of_no_bytes w fuel attempts (hbytes t (.inl hattempt))]
        exact h
      | threw t =>
        rw [hattempt] at h
        dsimp only
        rw [TCPS_service_of_no_bytes w fuel attempts (by exact hbytes t (.inr hattempt))]
        exact h

/-- A delivery of no packets stores nothing, and leaves the socket alone. -/
theorem deliver_zero (w : World) (s : State) (esp_id : ℕ) (recvbuf : List UInt8) (result : ℤ) :
    (deliver w s 0 esp_id recvbuf result).state.stored = s.stored ∧
      (deliver w s 0 esp_id recvbuf result).state.sock = s.sock := by
  have hstore : storePackets s 0 esp_id recvbuf = s := by
    unfold storePackets
    simp
  unfold deliver
  rw [hstore]
  split_ifs
  · dsimp only
    split <;> exact ⟨rfl, rfl⟩
  · exact ⟨rfl, rfl⟩
  · exact ⟨rfl, rfl⟩
  · exact ⟨rfl, rfl⟩

/-- The first loop on a connection that is at least as long as a MAC address. -/
theorem recvLoop_mac {fuel : ℕ} {sock : Socket} {mac : Mac} {rest : List UInt8}
    (hsock : sock.bytes = mac.1 ++ rest) (hfuel : 6 < fuel) :
    ∃ result sock', recvLoop fuel 6 0 [] 0 sock = some (mac.1, result, sock') ∧
      sock'.bytes = rest ∧ 0 < result := by
  obtain ⟨result, sock', hloop, hrest, hpos⟩ := recvLoop_start fuel 6 0 hsock
    (Bytes.length_val mac) hfuel
  exact ⟨result, sock', hloop, hrest, hpos (.inr (List.ne_nil_of_length_pos (by simp)))⟩

/-- The state of a thread that has found its receiver. -/
def resolvedState (w : World) (esp_list : List ESP32) (sock : Socket) (c : UInt8) (esp_id : ℕ) :
    State :=
  { start esp_list sock c with
    esp_list := esp_list.modify esp_id (·.update_time (w.time 0))
    resolved := [esp_id]
    readings := 1 }

/-- An attempt that has read the address of a known device goes on with its packets. -/
theorem attempt_of_mac {w : World} {fuel : ℕ} {esp_list : List ESP32} {sock sock' : Socket}
    {c : UInt8} {mac : Mac} {result : ℤ} {esp_id : ℕ}
    (hloop : recvLoop fuel 6 0 [] 0 sock = some (mac.1, result, sock')) (hpos : 0 < result)
    (hid : get_esp_instance w.esp_number esp_list mac.1 = some esp_id) :
    attempt w fuel (start esp_list sock c) =
      receivePackets w fuel (resolvedState w esp_list sock' c esp_id) esp_id result := by
  simp only [attempt, start, resolvedState, hloop, if_neg (not_lt.2 hpos.le), hid, List.nil_append,
    Nat.zero_add]

/-- What `recv` of one byte finds on a connection that has brought all its bytes. -/
theorem recv_of_no_bytes {sock : Socket} (h : sock.bytes = []) :
    sock.recv 1 = none ∨ ∃ result, sock.recv 1 = some (result, [], sock) := by
  have hchunks := Socket.chunks_eq_nil h
  unfold Socket.recv
  rw [hchunks]
  cases sock.ending with
  | closed => exact .inr ⟨_, rfl⟩
  | reset => exact .inr ⟨_, rfl⟩
  | failed => exact .inr ⟨_, rfl⟩
  | silent => exact .inl rfl

/-- After a MAC address and nothing else, the count is whatever `c` held: nothing is stored, as
there are no packets or the loop waits for them for ever. -/
theorem receivePackets_of_no_bytes (w : World) (fuel : ℕ) {s : State} (esp_id : ℕ) (result : ℤ)
    (h : s.sock.bytes = []) :
    (receivePackets w fuel s esp_id result).state.stored = s.stored ∧
      (receivePackets w fuel s esp_id result).state.sock.bytes = [] := by
  unfold receivePackets
  rcases recv_of_no_bytes h with hrecv | ⟨result', hrecv⟩
  · rw [hrecv]
    exact ⟨rfl, h⟩
  rw [hrecv]
  dsimp only [List.headD_nil]
  rcases Nat.eq_zero_or_pos (s.c - '0'.toUInt8).toNat with hzero | hpos
  · rw [hzero, Nat.zero_mul]
    cases fuel with
    | zero => exact ⟨rfl, h⟩
    | succ fuel =>
      have hloop : recvLoop (fuel + 1) 0 0 [] result s.sock = some ([], result, s.sock) := rfl
      rw [hloop]
      obtain ⟨hstored, hsock⟩ := deliver_zero w { s with c := s.c } esp_id [] result
      exact ⟨hstored, (congrArg Socket.bytes hsock).trans h⟩
  · have hsize : 0 < (s.c - '0'.toUInt8).toNat * PACKET_SIZE :=
      Nat.mul_pos hpos (by decide)
    rw [recvLoop_stuck (Socket.chunks_eq_nil h) fuel [] result 0 (by omega)]
    exact ⟨rfl, h⟩

/-- With a count and fewer packets, the thread waits for the rest. -/
theorem receivePackets_of_short (w : World) (fuel : ℕ) {s : State} (esp_id : ℕ) (result : ℤ)
    {count : UInt8} {rest : List UInt8} (h : s.sock.bytes = (count + '0'.toUInt8) :: rest)
    (hlt : rest.length < count.toNat * PACKET_SIZE) :
    ∃ t, receivePackets w fuel s esp_id result = .stuck t ∧ t.stored = s.stored := by
  obtain ⟨got, sock, hrecv, hgot, hgotle, hbytes⟩ := recv_eq s.sock Nat.one_pos (by rw [h]; simp)
  obtain ⟨b, rfl⟩ : ∃ b, got = [b] := List.length_eq_one_iff.1 (by
    have := List.length_pos_iff.2 hgot
    omega)
  rw [h, List.singleton_append, List.cons.injEq] at hbytes
  obtain ⟨rfl, hrest⟩ := hbytes
  unfold receivePackets
  rw [hrecv]
  dsimp only [List.headD_cons]
  rw [UInt8.add_sub_cancel]
  have hloop := recvLoop_of_short (count.toNat * PACKET_SIZE) fuel sock [] result
    (by rw [← hrest, List.length_nil]; omega)
  rw [List.length_nil, Nat.cast_zero] at hloop
  rw [hloop]
  exact ⟨_, rfl, rfl⟩

/-- **A connection that is cut short stores nothing,** wherever it is cut. -/
theorem stored_of_short {w : World} {esp_list : List ESP32} {mac : Mac} {sock : Socket} {esp_id : ℕ}
    (c : UInt8) {fuel : ℕ} (attempts : ℕ) (hfuel : 6 < fuel) (h : Short mac sock.bytes)
    (hid : get_esp_instance w.esp_number esp_list mac.1 = some esp_id) :
    (TCPS_service w fuel attempts (start esp_list sock c)).stored = [] := by
  -- the connection ends in the MAC address, right behind it, or among the packets
  have hcases : sock.bytes.length < 6 ∨ sock.bytes = mac.1 ++ [] ∨
      ∃ (count : UInt8) (rest : List UInt8), sock.bytes = mac.1 ++ (count + '0'.toUInt8) :: rest ∧
        rest.length < count.toNat * PACKET_SIZE := by
    rcases h with hpre | h
    · rcases hpre.length_le.lt_or_eq with hlt | heq
      · rw [Bytes.length_val] at hlt
        exact .inl hlt
      · exact .inr (.inl (by rw [hpre.eq_of_length heq, List.append_nil]))
    · exact .inr (.inr h)
  rcases hcases with hlt | hmac | ⟨count, rest, hbytes, hlt⟩
  · have hstuck : attempt w fuel (start esp_list sock c) = .stuck (start esp_list sock c) := by
      have hloop := recvLoop_of_short 6 fuel sock [] 0
        (by rw [List.length_nil]; omega)
      rw [List.length_nil, Nat.cast_zero] at hloop
      simp only [attempt, start, hloop]
    refine TCPS_service_of_attempt w fuel attempts (by rw [hstuck]; rfl) fun t ht => ?_
    rw [hstuck] at ht
    rcases ht with ht | ht <;> cases ht
  · obtain ⟨result, sock', hloop, hrest, hpos⟩ := recvLoop_mac hmac hfuel
    have hattempt := attempt_of_mac (c := c) hloop hpos hid
    obtain ⟨hstored, hnone⟩ := receivePackets_of_no_bytes w fuel (s := resolvedState w esp_list sock'
      c esp_id) esp_id result hrest
    rw [← hattempt] at hstored hnone
    refine TCPS_service_of_attempt w fuel attempts hstored fun t ht => ?_
    rcases ht with ht | ht <;> rw [ht] at hnone <;> exact hnone
  · obtain ⟨result, sock', hloop, hrest, hpos⟩ := recvLoop_mac hbytes hfuel
    obtain ⟨t, hstuck, hstored⟩ := receivePackets_of_short w fuel (s := resolvedState w esp_list
      sock' c esp_id) esp_id result hrest hlt
    rw [← attempt_of_mac (c := c) hloop hpos hid] at hstuck
    refine TCPS_service_of_attempt w fuel attempts (by rw [hstuck]; exact hstored) fun u hu => ?_
    rw [hstuck] at hu
    rcases hu with hu | hu <;> cases hu

end Service

/-! ## The connections of a receiver -/

namespace Delivery

open BufferList Service

/-- The tasks of a receiver, and the bytes written on each of its connections, the newest first. -/
structure State where
  firmware : BufferList.State BufferNode
  conns : List (List UInt8)

/-- The byte that announces `sniff_count` packets. -/
def countByte (sniff_count : ℕ) : UInt8 := .ofNat sniff_count + '0'.toUInt8

/-- The memory of nodes. -/
def images (nodes : List BufferNode) : List UInt8 :=
  nodes.flatMap fun node => node.data.image node.padding

/-- The bytes that the next call of the timer task writes. -/
def outgoing (mac_address : Mac) (s : BufferList.State BufferNode) : List UInt8 :=
  match s.sender with
  | .mac _ => mac_address.1
  | .counting _ false => [countByte s.sniff_count]
  | .write _ _ (some ptr) => (s.data ptr).data.image (s.data ptr).padding
  | _ => []

/-- Bytes on the newest connection. -/
def extend : List (List UInt8) → List UInt8 → List (List UInt8)
  | [], _ => []
  | conn :: conns, bytes => (conn ++ bytes) :: conns

/-- The connections after a step. A call that fails has written at most `n` bytes, and not all. -/
def written (mac_address : Mac) (s : State) :
    BufferList.Action BufferNode → ℕ → List (List UInt8)
  | .sender, _ =>
    match s.firmware.sender with
    | .connect _ => [] :: s.conns
    | _ => extend s.conns (outgoing mac_address s.firmware)
  | .senderFail, n => extend s.conns ((outgoing mac_address s.firmware).dropLast.take n)
  | _, _ => s.conns

/-- The steps: those of the firmware, with the bytes they write. -/
abbrev Action := BufferList.Action BufferNode × ℕ

/-- A step of the firmware, and what it writes. -/
def step (mac_address : Mac) (s : State) (a : Action) : Option State :=
  (BufferList.step s.firmware a.1).map fun t => ⟨t, written mac_address s a.1 a.2⟩

/-- The state `wifi_sniffer_init` leaves: no connection yet. -/
def init (data : ℕ → BufferNode) (next : ℕ → Option ℕ) (a : ℕ) : State where
  firmware := BufferList.init data next a
  conns := []

/-! ## What a connection carries -/

/-- A whole upload of a block of packets. -/
def Complete (mac_address : Mac) (conn : List UInt8) (block : List BufferNode) : Prop :=
  block.length < 256 ∧
    conn = tcp_client_timer_version mac_address (.ofNat block.length) block

/-- A connection that is not written to any more carries the block that was sent on it, or no whole
packet and less than the server stores anything of. -/
def Carries (mac_address : Mac) (conn : List UInt8) (block : List BufferNode) : Prop :=
  Complete mac_address conn block ∨ Short mac_address conn ∧ block = []

/-- What the newest connection carries at each statement of the timer task. -/
def Pending (mac_address : Mac) (sniff_count : ℕ) (conn : List UInt8) (block : List BufferNode) :
    SenderPc → Prop
  | .idle | .socket _ | .connect _ => Carries mac_address conn block
  | .mac _ => conn = [] ∧ block = []
  | .counting _ closed =>
    (closed = false → conn = mac_address.1) ∧ conn <+: mac_address.1 ∧ block = []
  | .probe _ => conn = mac_address.1 ++ [countByte sniff_count] ∧ block = []
  | .write _ k _ =>
    conn = mac_address.1 ++ countByte sniff_count :: images block ∧ block.length = k
  | .readNext _ k _ | .free _ k _ _ =>
    conn = mac_address.1 ++ countByte sniff_count :: images block ∧ block.length = k + 1
  | .setHead _ | .ack =>
    conn = mac_address.1 ++ countByte sniff_count :: images block ∧ block.length = sniff_count

/-- No connection is open. -/
def NotOpen : SenderPc → Prop
  | .idle | .socket _ | .connect _ => True
  | _ => False

/-- The blocks that the connections carry, both with the newest first. -/
def Conns (mac_address : Mac) (pc : SenderPc) (sniff_count : ℕ) :
    List (List UInt8) → List (List BufferNode) → Prop
  | [], [] => NotOpen pc
  | conn :: conns, block :: blocks =>
    Pending mac_address sniff_count conn block pc ∧
      List.Forall₂ (Carries mac_address) conns blocks
  | _, _ => False

section
variable {mac_address : Mac} {sniff_count n : ℕ} {conn bytes : List UInt8} {block : List BufferNode}

/-- The packets have a fixed size. -/
theorem images_length (nodes : List BufferNode) :
    (images nodes).length = nodes.length * PACKET_SIZE := length_nodes nodes

@[simp] theorem extend_nil (conns : List (List UInt8)) : extend conns [] = conns := by
  cases conns with
  | nil => rfl
  | cons conn conns => simp [extend]

/-- All the packets that were announced have been written. -/
theorem complete_of_length (hlt : sniff_count < 256) (hlen : block.length = sniff_count)
    (h : conn = mac_address.1 ++ countByte sniff_count :: images block) :
    Complete mac_address conn block := by
  refine ⟨by omega, ?_⟩
  have hcount : (UInt8.ofNat block.length).toNat = block.length := by
    rw [UInt8.toNat_ofNat']
    omega
  rw [tcp_client_timer_version, send_probe_buffer, hcount, List.take_length, hlen]
  exact h

/-- Fewer packets than announced have been written, and perhaps a part of one more. -/
theorem short_of_length (hlt : sniff_count < 256)
    (hlen : (images block).length + bytes.length < sniff_count * PACKET_SIZE)
    (h : conn = mac_address.1 ++ countByte sniff_count :: (images block ++ bytes)) :
    Short mac_address conn := by
  refine .inr ⟨.ofNat sniff_count, images block ++ bytes, h, ?_⟩
  have hcount : (UInt8.ofNat sniff_count).toNat = sniff_count := by
    rw [UInt8.toNat_ofNat']
    omega
  rw [hcount, List.length_append]
  exact hlen

/-- Whatever the timer task is about to do, its newest connection carries its block or too little to
store. -/
theorem Pending.complete_or_short {pc : SenderPc} {head : Option ℕ}
    (h : Pending mac_address sniff_count conn block pc) (hlt : sniff_count < 256)
    (hloop : pc.InLoop sniff_count head) :
    Complete mac_address conn block ∨ Short mac_address conn := by
  have hsome : ∀ k, block.length = k → k < sniff_count →
      conn = mac_address.1 ++ countByte sniff_count :: images block →
      Complete mac_address conn block ∨ Short mac_address conn := by
    intro k hk hks h
    have hconn : conn = mac_address.1 ++ countByte sniff_count :: (images block ++ []) := by
      rw [h, List.append_nil]
    refine .inr (short_of_length hlt ?_ hconn)
    rw [images_length, hk, List.length_nil, Nat.add_zero]
    exact Nat.mul_lt_mul_of_pos_right hks (by decide)
  cases pc with
  | idle | socket | connect => exact Or.imp_right And.left h
  | mac =>
    obtain ⟨rfl, -⟩ := h
    exact .inr (.inl (by simp))
  | counting => exact .inr (.inl h.2.1)
  | probe =>
    obtain ⟨h, rfl⟩ := h
    rcases Nat.eq_zero_or_pos sniff_count with h0 | hpos
    · exact .inl (complete_of_length hlt h0.symm h)
    · exact hsome 0 rfl hpos h
  | write i k ptr => exact hsome k h.2 hloop.1 h.1
  | readNext i k ptr =>
    have hle : k + 1 ≤ sniff_count := hloop
    rcases hle.lt_or_eq with hks | heq
    · exact hsome (k + 1) h.2 hks h.1
    · exact .inl (complete_of_length hlt (h.2.trans heq) h.1)
  | free i k ptr aux_ptr =>
    have hle : k + 1 ≤ sniff_count := hloop
    rcases hle.lt_or_eq with hks | heq
    · exact hsome (k + 1) h.2 hks h.1
    · exact .inl (complete_of_length hlt (h.2.trans heq) h.1)
  | setHead | ack => exact .inl (complete_of_length hlt h.2 h.1)

end

/-! ## Every interleaving -/

/-- The invariant of a receiver and its connections. -/
structure ConnInv (mac_address : Mac) (s : State) : Prop where
  hand : ∃ lost, Inv lost s.firmware
  sniff_lt : s.firmware.sniff_count < 256
  blocks : ∃ blocks : List (List BufferNode), s.firmware.sent = blocks.reverse.flatten ∧
    Conns mac_address s.firmware.sender s.firmware.sniff_count s.conns blocks

section
variable {mac_address : Mac} {s t : BufferList.State BufferNode} {conns : List (List UInt8)}
  {blocks : List (List BufferNode)} {pc : SenderPc} {n : ℕ}

/-- The handler does not touch what the timer task works with. -/
theorem handler_frame {a : BufferList.Action BufferNode} (hs : BufferList.step s a = some t)
    (ha : a ≠ .sender ∧ a ≠ .senderFail) :
    t.sender = s.sender ∧ t.sniff_count = s.sniff_count ∧ t.sent = s.sent := by
  cases a with
  | sender => exact absurd rfl ha.1
  | senderFail => exact absurd rfl ha.2
  | capture p =>
    simp only [BufferList.step] at hs
    cases hpc : s.handler <;> simp only [hpc, Option.some.injEq, reduceCtorEq] at hs
    subst hs
    exact ⟨rfl, rfl, rfl⟩
  | handler =>
    simp only [BufferList.step, handlerStep] at hs
    cases hpc : s.handler <;> simp only [hpc, Option.some.injEq, reduceCtorEq] at hs <;> subst hs <;>
      exact ⟨rfl, rfl, rfl⟩
  | malloc a =>
    simp only [BufferList.step] at hs
    cases hpc : s.handler <;> simp only [hpc, guarded_eq_some, reduceCtorEq] at hs
    obtain ⟨-, rfl⟩ := hs
    exact ⟨rfl, rfl, rfl⟩
  | mallocFail =>
    simp only [BufferList.step] at hs
    cases hpc : s.handler <;> simp only [hpc, Option.some.injEq, reduceCtorEq] at hs
    subst hs
    exact ⟨rfl, rfl, rfl⟩

/-- A statement that writes `bytes` as a part of the block it makes of the current one. -/
theorem Conns.extend {sniff_count : ℕ} (h : Conns mac_address pc sniff_count conns blocks)
    (bytes : List UInt8) (more : List BufferNode) (pc' : SenderPc) (hopen : ¬ NotOpen pc)
    (hpending : ∀ conn block, Pending mac_address sniff_count conn block pc →
      Pending mac_address sniff_count (conn ++ bytes) (block ++ more) pc') :
    ∃ blocks', blocks'.reverse.flatten = blocks.reverse.flatten ++ more ∧
      Conns mac_address pc' sniff_count (extend conns bytes) blocks' := by
  cases conns with
  | nil =>
    cases blocks with
    | nil => exact absurd h hopen
    | cons => exact h.elim
  | cons conn conns =>
    cases blocks with
    | nil => exact h.elim
    | cons block blocks =>
      obtain ⟨hp, hcs⟩ := h
      refine ⟨(block ++ more) :: blocks, by simp, hpending conn block hp, hcs⟩

/-- A statement that neither opens a connection nor writes anything. -/
theorem Conns.mono {pc' : SenderPc} {sniff_count sniff_count' : ℕ}
    (h : Conns mac_address pc sniff_count conns blocks) (hopen : NotOpen pc → NotOpen pc')
    (hpending : ∀ conn block, Pending mac_address sniff_count conn block pc →
      Pending mac_address sniff_count' conn block pc') :
    Conns mac_address pc' sniff_count' conns blocks := by
  cases conns with
  | nil =>
    cases blocks with
    | nil => exact hopen h
    | cons => exact h.elim
  | cons conn conns =>
    cases blocks with
    | nil => exact h.elim
    | cons block blocks =>
      obtain ⟨hp, hcs⟩ := h
      exact ⟨hpending conn block hp, hcs⟩

/-- So it adds no block. -/
theorem Conns.quiet {pc' : SenderPc} {sniff_count sniff_count' : ℕ} {sent : List BufferNode}
    (h : Conns mac_address pc sniff_count conns blocks) (hsent : sent = blocks.reverse.flatten)
    (hopen : NotOpen pc → NotOpen pc')
    (hpending : ∀ conn block, Pending mac_address sniff_count conn block pc →
      Pending mac_address sniff_count' conn block pc') :
    ∃ blocks', sent = blocks'.reverse.flatten ∧
      Conns mac_address pc' sniff_count' (Delivery.extend conns []) blocks' := by
  rw [extend_nil]
  exact ⟨blocks, hsent, h.mono hopen hpending⟩

/-- All the connections carry their blocks, or too little to store. -/
theorem Conns.complete_or_short {sniff_count : ℕ} {head : Option ℕ}
    (h : Conns mac_address pc sniff_count conns blocks) (hlt : sniff_count < 256)
    (hloop : pc.InLoop sniff_count head) :
    List.Forall₂ (fun conn block => Complete mac_address conn block ∨ Short mac_address conn)
      conns blocks := by
  cases conns with
  | nil =>
    cases blocks with
    | nil => exact .nil
    | cons => exact h.elim
  | cons conn conns =>
    cases blocks with
    | nil => exact h.elim
    | cons block blocks =>
      obtain ⟨hp, hcs⟩ := h
      exact .cons (hp.complete_or_short hlt hloop) (hcs.imp fun _ _ => Or.imp_right And.left)

/-- While none is open, they all carry their blocks. -/
theorem Conns.carries {sniff_count : ℕ} (h : Conns mac_address pc sniff_count conns blocks)
    (hopen : NotOpen pc) : List.Forall₂ (Carries mac_address) conns blocks := by
  cases conns with
  | nil =>
    cases blocks with
    | nil => exact .nil
    | cons => exact h.elim
  | cons conn conns =>
    cases blocks with
    | nil => exact h.elim
    | cons block blocks =>
      obtain ⟨hp, hcs⟩ := h
      refine .cons ?_ hcs
      cases pc with
      | idle | socket | connect => exact hp
      | _ => exact hopen.elim

/-- The blocks after a statement of the timer task. -/
theorem sender_conns {m : ℕ} (hs : senderStep s = some t) (hsniff : s.sniff_count < 256)
    (hloop : s.sender.InLoop s.sniff_count s.head) (hsent : s.sent = blocks.reverse.flatten)
    (h : Conns mac_address s.sender s.sniff_count conns blocks) :
    ∃ blocks', t.sent = blocks'.reverse.flatten ∧ Conns mac_address t.sender t.sniff_count
      (written mac_address ⟨s, conns⟩ .sender m) blocks' := by
  unfold senderStep at hs
  unfold written outgoing
  cases hpc : s.sender with
  | idle =>
    simp only [hpc, Option.some.injEq] at hs h ⊢
    subst hs
    exact h.quiet hsent (fun _ => trivial) fun _ _ hp => hp
  | socket i =>
    simp only [hpc, Option.some.injEq] at hs h ⊢
    subst hs
    exact h.quiet hsent (fun _ => trivial) fun _ _ hp => hp
  | connect i =>
    simp only [hpc, Option.some.injEq] at hs h ⊢
    subst hs
    have hcs := h.carries trivial
    exact ⟨[] :: blocks, by simpa using hsent, ⟨rfl, rfl⟩, hcs⟩
  | mac i =>
    simp only [hpc, Option.some.injEq] at hs h ⊢
    subst hs
    obtain ⟨blocks', hb, hc⟩ := h.extend mac_address.1 []
      (.counting i false) (fun hn => hn) (fun conn block hp => by
        obtain ⟨rfl, rfl⟩ := hp
        exact ⟨fun _ => rfl, List.prefix_rfl, rfl⟩)
    exact ⟨blocks', by rw [hb, hsent, List.append_nil], hc⟩
  | counting i closed =>
    simp only [hpc, guarded_eq_some] at hs
    obtain ⟨rfl, rfl⟩ := hs
    rw [hpc] at h
    obtain ⟨blocks', hb, hc⟩ := h.extend [countByte s.sniff_count] []
      (.probe i) (fun hn => hn) (fun conn block hp => by
        obtain ⟨hmac, -, rfl⟩ := hp
        exact ⟨by rw [hmac rfl], rfl⟩)
    exact ⟨blocks', by rw [hb, ← hsent, List.append_nil], hc⟩
  | probe i =>
    simp only [hpc] at hs h ⊢
    split at hs
    · next h0 =>
      cases hs
      refine h.quiet hsent (fun hn => hn.elim) fun conn block hp => ?_
      obtain ⟨hconn, rfl⟩ := hp
      exact .inl (complete_of_length hsniff h0.symm hconn)
    · next h0 =>
      cases hs
      refine h.quiet hsent (fun hn => hn.elim) fun conn block hp => ?_
      obtain ⟨hconn, rfl⟩ := hp
      exact ⟨hconn, rfl⟩
  | write i k ptr =>
    cases ptr with
    | none => simp [hpc] at hs
    | some ptr =>
      simp only [hpc, Option.some.injEq] at hs h ⊢
      subst hs
      obtain ⟨blocks', hb, hc⟩ := h.extend
        ((s.data ptr).data.image (s.data ptr).padding) [s.data ptr]
        (.readNext i k ptr) (fun hn => hn) (fun conn block hp => by
          obtain ⟨rfl, hlen⟩ := hp
          exact ⟨by simp [images], by simp [hlen]⟩)
      exact ⟨blocks', by rw [hb, hsent], hc⟩
  | readNext i k ptr =>
    simp only [hpc, Option.some.injEq] at hs h ⊢
    subst hs
    exact h.quiet hsent (fun hn => hn.elim) fun _ _ hp => hp
  | free i k ptr aux_ptr =>
    simp only [hpc, Option.some.injEq] at hs h ⊢
    subst hs
    rw [hpc] at hloop
    have hk : k < s.sniff_count := hloop
    dsimp only
    split
    · exact h.quiet hsent (fun hn => hn.elim) fun _ _ hp => hp
    · refine h.quiet hsent (fun hn => hn.elim) fun _ _ hp => ⟨hp.1, hp.2.trans ?_⟩
      omega
  | setHead ptr =>
    simp only [hpc, Option.some.injEq] at hs h ⊢
    subst hs
    exact h.quiet hsent (fun hn => hn.elim) fun _ _ hp => hp
  | ack =>
    simp only [hpc, Option.some.injEq] at hs h ⊢
    subst hs
    refine h.quiet hsent (fun hn => hn.elim) fun conn block hp => ?_
    exact .inl (complete_of_length hsniff hp.2 hp.1)

/-- A failed write of a node leaves out a part of it. -/
theorem failed_write_lt (mac_address : Mac) (n : ℕ) {i k : ℕ} {ptr : Option ℕ}
    (hpc : s.sender = .write i k ptr) :
    ((outgoing mac_address s).dropLast.take n).length < PACKET_SIZE := by
  refine (List.length_take_le' _ _).trans_lt ?_
  rw [List.length_dropLast, outgoing, hpc]
  cases ptr with
  | none => exact Nat.zero_lt_succ _
  | some ptr =>
    dsimp only
    rw [ProbePacket.image_length]
    decide

/-- The blocks after a call of the timer task that fails. -/
theorem senderFail_conns (hG : BufferList.KeepsHead s .senderFail) (hs : senderFail s = some t)
    (hsniff : s.sniff_count < 256)
    (hloop : s.sender.InLoop s.sniff_count s.head) (hsent : s.sent = blocks.reverse.flatten)
    (h : Conns mac_address s.sender s.sniff_count conns blocks) :
    ∃ blocks', t.sent = blocks'.reverse.flatten ∧ Conns mac_address t.sender t.sniff_count
      (written mac_address ⟨s, conns⟩ .senderFail n) blocks' := by
  have hnext : ∀ i, NotOpen (nextAttempt i) := by
    intro i
    unfold nextAttempt
    split <;> trivial
  have hclosed : ∀ {i sniff_count conn block}, Carries mac_address conn block →
      Pending mac_address sniff_count conn block (nextAttempt i) := by
    intro i _ _ _ hc
    unfold nextAttempt
    split <;> exact hc
  unfold senderFail at hs
  unfold written
  cases hpc : s.sender with
  | idle | probe | readNext | free | setHead | ack => simp [hpc] at hs
  | socket i | connect i =>
    simp only [hpc, Option.some.injEq] at hs h
    subst hs
    refine ⟨blocks, hsent, ?_⟩
    simp only [outgoing, hpc, List.dropLast_nil, List.take_nil, extend_nil]
    exact h.mono (fun _ => hnext i) fun _ _ hp => hclosed hp
  | mac i =>
    simp only [hpc, Option.some.injEq] at hs h
    subst hs
    obtain ⟨blocks', hb, hc⟩ := h.extend (mac_address.1.dropLast.take n) []
      (.counting i true) (fun hn => hn) (fun conn block hp => by
        obtain ⟨rfl, rfl⟩ := hp
        refine ⟨fun hf => absurd hf (by decide), ?_, rfl⟩
        exact (List.take_prefix _ _).trans (List.dropLast_prefix _))
    refine ⟨blocks', by rw [hb, hsent, List.append_nil], ?_⟩
    simp only [outgoing, hpc]
    exact hc
  | counting i closed =>
    simp only [hpc, Option.some.injEq] at hs h
    subst hs
    refine ⟨blocks, hsent, ?_⟩
    have hnone : (outgoing mac_address s).dropLast = [] := by
      unfold outgoing
      rw [hpc]
      cases closed <;> rfl
    simp only [hnone, List.take_nil, extend_nil]
    exact h.mono (fun hn => hn.elim) fun _ _ hp => hclosed (.inr ⟨.inl hp.2.1, hp.2.2⟩)
  | write i k ptr =>
    simp only [hpc, Option.some.injEq] at hs h
    subst hs
    simp only [hpc, BufferList.KeepsHead, SenderPc.headValid, decide_eq_true_eq] at hG hloop
    obtain ⟨blocks', hb, hc⟩ := h.extend
      ((outgoing mac_address s).dropLast.take n) []
      (nextAttempt i) (fun hn => hn) (fun conn block hp => by
        obtain ⟨rfl, hlen⟩ := hp
        obtain rfl : block = [] := List.length_eq_zero_iff.1 (hlen.trans hG)
        rw [List.append_nil, List.append_assoc, List.cons_append]
        refine hclosed (.inr ⟨?_, rfl⟩)
        refine short_of_length hsniff ?_ (congrArg₂ _ rfl (congrArg₂ _ rfl rfl))
        -- less than one node, of at least one
        have hpart := failed_write_lt mac_address n hpc
        have hone : PACKET_SIZE ≤ s.sniff_count * PACKET_SIZE :=
          Nat.le_mul_of_pos_left _ (Nat.zero_lt_of_lt hloop.1)
        rw [images_length, List.length_nil]
        omega)
    exact ⟨blocks', by rw [hb, hsent, List.append_nil], hc⟩

end

section
variable {mac_address : Mac} {s t : State} {a : Action}

/-- No write fails after a node of the list was freed. -/
def KeepsHead (s : State) (a : Action) : Prop := BufferList.KeepsHead s.firmware a.1

/-- Whether the head of the list is kept can be seen. -/
instance (s : State) (a : Action) : Decidable (KeepsHead s a) :=
  inferInstanceAs (Decidable (BufferList.KeepsHead _ _))

/-- `sniff_count` is what `count` was. -/
theorem sniff_lt_of_step {s t : BufferList.State BufferNode}
    {a : BufferList.Action BufferNode} (hs : BufferList.step s a = some t) (hcount : s.count < 256)
    (hsniff : s.sniff_count < 256) : t.sniff_count < 256 := by
  by_cases ha : a ≠ .sender ∧ a ≠ .senderFail
  · rw [(handler_frame hs ha).2.1]
    exact hsniff
  cases a with
  | sender =>
    change senderStep s = some t at hs
    unfold senderStep at hs
    cases hpc : s.sender with
    | idle =>
      simp only [hpc, Option.some.injEq] at hs
      subst hs
      exact hcount
    | probe i =>
      simp only [hpc] at hs
      split at hs <;> cases hs <;> exact hsniff
    | counting i closed =>
      simp only [hpc, guarded_eq_some] at hs
      obtain ⟨-, rfl⟩ := hs
      exact hsniff
    | write i k ptr =>
      cases ptr <;> simp only [hpc, Option.some.injEq, reduceCtorEq] at hs
      subst hs
      exact hsniff
    | _ =>
      simp only [hpc, Option.some.injEq] at hs
      subst hs
      exact hsniff
  | senderFail =>
    change BufferList.senderFail s = some t at hs
    unfold BufferList.senderFail at hs
    cases hpc : s.sender <;> simp only [hpc, Option.some.injEq, reduceCtorEq] at hs <;> subst hs <;>
      exact hsniff
  | _ => exact absurd ⟨nofun, nofun⟩ ha

/-- **One step.** The blocks that the connections carry are what was sent. -/
theorem ConnInv.step (h : ConnInv mac_address s) (hG : KeepsHead s a)
    (hs : step mac_address s a = some t) : ConnInv mac_address t := by
  obtain ⟨u, hu, rfl⟩ := Option.map_eq_some_iff.1 hs
  obtain ⟨lost, hinv⟩ := h.hand
  obtain ⟨blocks, hsent, hconns⟩ := h.blocks
  have hcount : s.firmware.count < 256 := hinv.choose_spec.count_lt
  have hloop := hinv.choose_spec.inLoop
  refine ⟨⟨_, hinv.step hG hu⟩, sniff_lt_of_step hu hcount h.sniff_lt, ?_⟩
  obtain ⟨a, n⟩ := a
  cases a with
  | sender => exact sender_conns (m := n) hu h.sniff_lt hloop hsent hconns
  | senderFail => exact senderFail_conns hG hu h.sniff_lt hloop hsent hconns
  | _ =>
    obtain ⟨hpc, hsniff, hsent'⟩ := handler_frame hu ⟨nofun, nofun⟩
    exact ⟨blocks, hsent'.trans hsent, by rw [hpc, hsniff]; exact hconns⟩

/-- Every run keeps it. -/
theorem connInv_of_run {data : ℕ → BufferNode} {next : ℕ → Option ℕ} {b : ℕ} {as : List Action}
    (hG : Meets (step mac_address) KeepsHead (init data next b) as)
    (hrun : run (step mac_address) (init data next b) as = some s) : ConnInv mac_address s := by
  have hinit : ConnInv mac_address (init data next b) :=
    ⟨⟨0, inv_init data next b⟩, Nat.zero_lt_succ 255, [], rfl, trivial⟩
  exact run_invariant_of_meets (fun _ _ _ hs hG ht => ConnInv.step hs hG ht) hinit hG hrun

end

/-! ## From one end to the other -/

/-- A thread of the server, with the connection it receives. -/
structure Thread where
  world : World
  esp_list : List ESP32
  sock : Socket
  c : UInt8
  fuel : ℕ
  attempts : ℕ

/-- The calls of `storeInDB` that a thread makes. -/
def Thread.stored (th : Thread) : List Stored :=
  (TCPS_service th.world th.fuel (th.attempts + 1) (start th.esp_list th.sock th.c)).stored

/-- The packets that the threads store, in the order of their connections. -/
def packets (threads : List Thread) : List ProbePacket :=
  threads.flatMap fun th => th.stored.map (·.packet)

/-- A thread receives a connection of the receiver: what arrives is what was written up to some
point, in any chunks, and the receiver is known to the server. -/
structure Thread.Receives (mac_address : Mac) (conn : List UInt8) (th : Thread) : Prop where
  arrives : th.sock.bytes <+: conn
  known : ∃ esp_id < th.world.esp_number,
    th.esp_list.findIdx? (·.mac_address = mac_address) = some esp_id
  fuel : th.sock.bytes.length + 6 < th.fuel

section
variable {mac_address : Mac} {conn : List UInt8} {block : List BufferNode} {th : Thread}

/-- A thread stores nothing of a connection that is short where it arrives. -/
theorem Thread.Receives.stored_of_short (h : th.Receives mac_address conn)
    (hshort : Short mac_address th.sock.bytes) : th.stored = [] := by
  obtain ⟨esp_id, hlt, hid⟩ := h.known
  exact Service.stored_of_short th.c (th.attempts + 1) (by have := h.fuel; omega) hshort
    (get_esp_instance_eq hid hlt)

/-- It stores the whole block of a connection that arrives as a whole. -/
theorem Thread.Receives.stored_of_complete (h : th.Receives mac_address conn)
    (hcomplete : Complete mac_address conn block) (hall : th.sock.bytes = conn) :
    th.stored.map (·.packet) = block.map (·.data) := by
  obtain ⟨esp_id, hlt, hid⟩ := h.known
  obtain ⟨hlen, hconn⟩ := hcomplete
  obtain ⟨hesp, -, -⟩ := List.findIdx?_eq_some_iff_getElem.1 hid
  have hcount : (UInt8.ofNat block.length).toNat = block.length := by
    rw [UInt8.toNat_ofNat']
    omega
  have hfuel : th.sock.bytes.length < th.fuel := by
    have := h.fuel
    omega
  have hdelivered := delivered_of_lt th.c th.attempts hcount.le (hall.trans hconn) hid
    (List.getElem?_eq_getElem hesp) hfuel hlt
  rw [Thread.stored, hdelivered.stored, hcount, List.take_length, List.map_map]
  simp [Function.comp_def]

/-- A thread stores the block of its connection, or nothing. -/
theorem Thread.Receives.stored_or_nil (h : th.Receives mac_address conn)
    (hconn : Complete mac_address conn block ∨ Short mac_address conn) :
    th.stored.map (·.packet) = block.map (·.data) ∨ th.stored.map (·.packet) = [] := by
  rcases hconn with hcomplete | hshort
  · have hrest : (images block).length ≤ (UInt8.ofNat block.length).toNat * PACKET_SIZE := by
      rw [images_length, UInt8.toNat_ofNat', Nat.mod_eq_of_lt hcomplete.1]
    have hpre : th.sock.bytes <+: mac_address.1 ++ countByte block.length :: images block := by
      have hconn := (complete_of_length hcomplete.1 rfl rfl).2.trans hcomplete.2.symm
      rw [hconn]
      exact h.arrives
    rcases short_of_cut hrest hpre with hshort | hall
    · exact .inr (by rw [h.stored_of_short hshort, List.map_nil])
    · have hconn := (complete_of_length hcomplete.1 rfl hall).2.trans hcomplete.2.symm
      exact .inl (h.stored_of_complete hcomplete hconn)
  · exact .inr (by rw [h.stored_of_short (hshort.of_cut h.arrives), List.map_nil])

/-- What the threads store is a part of the blocks, in their order. -/
theorem packets_sublist {conns : List (List UInt8)} {blocks : List (List BufferNode)}
    {threads : List Thread}
    (hconns : List.Forall₂
      (fun conn block => Complete mac_address conn block ∨ Short mac_address conn) conns blocks)
    (hrecv : List.Forall₂ (Thread.Receives mac_address) conns threads) :
    (packets threads).Sublist (blocks.flatten.map (·.data)) := by
  induction hconns generalizing threads with
  | nil =>
    cases hrecv
    exact List.Sublist.refl _
  | cons hconn _ ih =>
    cases hrecv with
    | cons hth hrest =>
      rw [packets, List.flatMap_cons, List.flatten_cons, List.map_append]
      refine List.Sublist.append ?_ (ih hrest)
      rcases hth.stored_or_nil hconn with heq | heq
      · rw [heq]
      · rw [heq]
        exact List.nil_sublist _

/-- If they all arrive as a whole, it is all of the blocks. -/
theorem packets_eq {conns : List (List UInt8)} {blocks : List (List BufferNode)}
    {threads : List Thread} (hconns : List.Forall₂ (Carries mac_address) conns blocks)
    (hrecv : List.Forall₂ (Thread.Receives mac_address) conns threads)
    (hall : List.Forall₂ (fun conn th => th.sock.bytes = conn) conns threads) :
    packets threads = blocks.flatten.map (·.data) := by
  induction hconns generalizing threads with
  | nil =>
    cases hrecv
    rfl
  | cons hconn _ ih =>
    cases hrecv with
    | cons hth hrest =>
      obtain ⟨heq, hall⟩ := List.forall₂_cons.1 hall
      rw [packets, List.flatMap_cons, List.flatten_cons, List.map_append]
      refine congrArg₂ _ ?_ (ih hrest hall)
      rcases hconn with hcomplete | ⟨hshort, rfl⟩
      · exact hth.stored_of_complete hcomplete heq
      · rw [hth.stored_of_short (heq ▸ hshort)]
        rfl

end

/-- **From capture to storage.** For every interleaving of the two tasks of a receiver, with any
calls failing as long as no write fails after a node of the list was freed, and for whatever part of
each connection reaches the server in whatever chunks: what is stored is a part of what the
receiver has captured, in the order of capture and each packet at most once. While no connection is
open, and if all of them have arrived as a whole, it is exactly what was sent. -/
theorem stored_sublist_captured (mac_address : Mac) (data : ℕ → BufferNode) (next : ℕ → Option ℕ)
    (b : ℕ) (as : List Action) (s : State) (threads : List Thread)
    (hG : Meets (step mac_address) KeepsHead (init data next b) as)
    (hrun : run (step mac_address) (init data next b) as = some s)
    (hrecv : List.Forall₂ (Thread.Receives mac_address) s.conns.reverse threads) :
    (packets threads).Sublist (s.firmware.linked.map (·.data)) ∧
      (NotOpen s.firmware.sender →
        List.Forall₂ (fun conn th => th.sock.bytes = conn) s.conns.reverse threads →
        packets threads = s.firmware.sent.map (·.data)) := by
  have hinv := connInv_of_run hG hrun
  obtain ⟨lost, nodes, hat⟩ := hinv.hand
  obtain ⟨blocks, hsent, hconns⟩ := hinv.blocks
  constructor
  · have hsub := packets_sublist
      (List.forall₂_reverse_iff.2 (hconns.complete_or_short hinv.sniff_lt hat.inLoop)) hrecv
    rw [← hsent] at hsub
    refine hsub.trans (List.Sublist.map _ ?_)
    rw [hat.linked, List.append_assoc]
    exact List.sublist_append_left _ _
  · intro hopen hall
    rw [packets_eq (List.forall₂_reverse_iff.2 (hconns.carries hopen)) hrecv hall, ← hsent]

/-- A packet is captured, the first attempt to send it fails in the MAC address, the second one
succeeds. -/
def captureThenRetry : List Action :=
  ([.capture ⟨samplePacket, 7⟩, .handler, .malloc 1, .handler, .handler, .handler, .handler, .sender,
    .sender, .sender, .senderFail, .senderFail, .sender, .sender, .sender, .sender, .sender, .sender,
    .sender, .sender, .sender, .sender] : List (BufferList.Action BufferNode)).map (·, 3)

/-- The bytes that were written then. -/
def retryConns : List (List UInt8) :=
  [[0xbb, 0, 0], tcp_client_timer_version Participation.firstMac 1 [⟨samplePacket, 7⟩]]

/-- The threads of the server, for connections that arrive byte by byte. -/
def retryThreads : List Thread :=
  retryConns.map fun conn =>
    ⟨⟨1, fun _ => 50, fun _ => .sent⟩, [⟨0, Participation.firstMac, 1, 1, 3011, 40, 30⟩],
      byteByByte conn, 0, 200, 2⟩

/-- The packet of the second attempt is stored, and nothing of the first. -/
theorem stored_sublist_captured_captureThenRetry :
    ∃ s, run (step Participation.firstMac) (init (fun _ => ⟨samplePacket, 0⟩) (fun _ => none) 0)
        captureThenRetry = some s ∧ s.firmware.sent = [⟨samplePacket, 7⟩] ∧
      (packets retryThreads).Sublist (s.firmware.linked.map (·.data)) ∧
      packets retryThreads = s.firmware.sent.map (·.data) := by
  have hrun : ∃ s, run (step Participation.firstMac)
      (init (fun _ => ⟨samplePacket, 0⟩) (fun _ => none) 0) captureThenRetry = some s ∧
      s.firmware.sent = [⟨samplePacket, 7⟩] ∧ s.firmware.sender = .idle ∧
      s.conns.reverse = retryConns := ⟨_, rfl, rfl, rfl, rfl⟩
  obtain ⟨s, hs, hsent, hpc, hconns⟩ := hrun
  have hbytes : ∀ conn ∈ retryConns, (byteByByte conn).bytes = conn := by decide
  have hrecv : List.Forall₂ (Thread.Receives Participation.firstMac) retryConns retryThreads := by
    refine List.forall₂_map_right_iff.2 (List.forall₂_same.2 fun conn hconn => ?_)
    refine ⟨(hbytes conn hconn).symm ▸ List.prefix_rfl, ⟨0, Nat.one_pos, rfl⟩, ?_⟩
    revert conn
    decide
  have hall : List.Forall₂ (fun conn th => th.sock.bytes = conn) retryConns retryThreads :=
    List.forall₂_map_right_iff.2 (List.forall₂_same.2 hbytes)
  have h := stored_sublist_captured Participation.firstMac _ _ 0 captureThenRetry s retryThreads
    (by decide) hs (hconns ▸ hrecv)
  exact ⟨s, hs, hsent, h.1, h.2 (by rw [hpc]; trivial) (hconns ▸ hall)⟩

end Delivery

end DetectionSystem

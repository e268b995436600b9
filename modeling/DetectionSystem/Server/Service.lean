import DetectionSystem.Firmware.Upload
import DetectionSystem.Server.Participation

/-!
# Receiving an upload

`TCPS_service` on one connection. The connection is the sequence of chunks in which its bytes
arrive, and what `recv` returns once they are used up. The three receive loops of the attempt carry
an index and the last result; `recvLoop_eq` says what a loop leaves when its bytes are there, and
`recvLoop_stuck` that it never ends when they are not.

`upload_delivered_iff` is the round trip with the firmware: however its bytes are split, an upload
hands to `storeInDB` exactly the packets that were written. Its condition is that the receiver is
among the first `esp_number` ones of `esp_list`, which are all that `get_esp_instance` looks at.
They are all there are when no exception was thrown before (`findIdx_lt_of_serving`), and not when
the participation began anew (`undelivered_after_restart`). -/

open Transition

namespace DetectionSystem

namespace Service

/-! ## Sockets -/

/-- What `recv` does once all bytes were received: it returns zero, it fails, with the error of a
reset connection or with another one, or it waits. -/
inductive Ending
  | closed
  | reset
  | failed
  | silent
deriving DecidableEq, Repr

/-- Bytes that arrive together. -/
abbrev Chunk := {bytes : List UInt8 // bytes ≠ []}

/-- The receiving side of a connection. -/
structure Socket where
  chunks : List Chunk
  ending : Ending
deriving DecidableEq

/-- The bytes to come. -/
def Socket.bytes (sock : Socket) : List UInt8 := (sock.chunks.map (·.1)).flatten

/-- `recv` of at most `len` bytes: its result, the bytes it stores, and what remains; `none` while
it waits. -/
def Socket.recv (sock : Socket) (len : ℕ) : Option (ℤ × List UInt8 × Socket) :=
  match sock.chunks with
  | chunk :: chunks =>
    if h : chunk.1.length ≤ len then
      some (chunk.1.length, chunk.1, { sock with chunks := chunks })
    else
      let rest : Chunk := ⟨chunk.1.drop len, by simpa using h⟩
      some (len, chunk.1.take len, { sock with chunks := rest :: chunks })
  | [] =>
    match sock.ending with
    | .closed => some (0, [], sock)
    | .reset => some (-1, [], sock)
    | .failed => some (-1, [], sock)
    | .silent => none

/-- `for (int i = 0; i < size; i = i + result) result = recv(sock, buf + i, size - i, 0)`, from an
index `i`, the bytes `buf` stored so far and the last result; `none` if it does not end within
`fuel` rounds. -/
def recvLoop : ℕ → ℕ → ℤ → List UInt8 → ℤ → Socket → Option (List UInt8 × ℤ × Socket)
  | 0, _, _, _, _, _ => none
  | fuel + 1, size, i, buf, result, sock =>
    if i < size then
      match sock.recv (size - i).toNat with
      | none => none
      | some (result, bytes, sock) => recvLoop fuel size (i + result) (buf ++ bytes) result sock
    else some (buf, result, sock)

/-! ## The thread -/

/-- The result of the `send` of an acknowledgement. -/
inductive Ack
  | sent
  | reset
  | failed
deriving DecidableEq, Repr

/-- What the thread finds: the number of receivers, the clock and the sends. -/
structure World where
  esp_number : ℕ
  time : ℕ → ℕ
  ack : ℕ → Ack

/-- A call of `storeInDB`. -/
structure Stored where
  esp_id : ℕ
  last_update : ℕ
  packet : ProbePacket
deriving DecidableEq

/-- The state of the thread: the shared list of receivers, its socket, its variables `c` and
`retry_child`, the calls of `storeInDB` it has made and the uploads it has notified; `resolved`
records, for the statements only, the indices at which it has found a receiver; `readings` and
`sends` count the clock readings and the acknowledgements. -/
structure State where
  esp_list : List ESP32
  sock : Socket
  c : UInt8
  retry_child : ℕ
  resolved : List ℕ
  stored : List Stored
  notified : ℕ
  readings : ℕ
  sends : ℕ
deriving DecidableEq

/-- The state in which a thread starts; `c` is not initialised. -/
def start (esp_list : List ESP32) (sock : Socket) (c : UInt8) : State where
  esp_list := esp_list
  sock := sock
  c := c
  retry_child := 3
  resolved := []
  stored := []
  notified := 0
  readings := 0
  sends := 0

/-- How an attempt ends: the thread ends, it tries again at once, an exception costs it one of its
attempts, or it never gets past a receive loop. -/
inductive Outcome
  | finished (s : State)
  | again (s : State)
  | threw (s : State)
  | stuck (s : State)

/-- The first index with a MAC address; `none` where the function throws. -/
def get_esp_instance (esp_number : ℕ) (esp_list : List ESP32) (mac : List UInt8) : Option ℕ :=
  (esp_list.take esp_number).findIdx? fun e => e.mac_address.1 = mac

/-- `storePackets`, up to the calls of `storeInDB`: a session that cannot be opened ends the
program. -/
def storePackets (s : State) (count : ℕ) (esp_id : ℕ) (recvbuf : List UInt8) : State :=
  let time_since_last_update := (s.esp_list[esp_id]?.map (·.previous_update)).getD 0
  { s with
    stored := s.stored ++ (List.range count).map fun i =>
      ⟨esp_id, time_since_last_update, .decode (recvbuf.drop (i * PACKET_SIZE))⟩ }

/-- The end of an attempt, once the loop for the packets has left its buffer and its result. -/
def deliver (w : World) (s : State) (count esp_id : ℕ) (recvbuf : List UInt8) (result : ℤ) :
    Outcome :=
  if 0 < result then
    let s := storePackets s count esp_id recvbuf
    let s := { s with notified := s.notified + 1, sends := s.sends + 1 }
    match w.ack (s.sends - 1) with
    | .sent => .finished s
    | .reset => .again s
    | .failed => .threw s
  else if result = 0 then .finished s
  else if s.sock.ending = .reset then .again s
  else .threw s

/-- The part of an attempt that follows the MAC address of receiver `esp_id`. The count is read by a
single `recv`, whose result is not looked at. -/
def receivePackets (w : World) (fuel : ℕ) (s : State) (esp_id : ℕ) (result : ℤ) : Outcome :=
  match s.sock.recv 1 with
  | none => .stuck s
  | some (_, bytes, sock) =>
    let s := { s with sock := sock, c := bytes.headD s.c }
    let count := s.c - '0'.toUInt8
    match recvLoop fuel (count.toNat * PACKET_SIZE) 0 [] result s.sock with
    | none => .stuck s
    | some (recvbuf, result, sock) =>
      deliver w { s with sock := sock } count.toNat esp_id recvbuf result

/-- One round of the loop of `TCPS_service`. -/
def attempt (w : World) (fuel : ℕ) (s : State) : Outcome :=
  match recvLoop fuel 6 0 [] 0 s.sock with
  | none => .stuck s
  | some (mac, result, sock) =>
    let s := { s with sock := sock }
    if result < 0 then .threw s
    else
      match get_esp_instance w.esp_number s.esp_list mac with
      | none => .threw s
      | some esp_id =>
        receivePackets w fuel
          { s with
            esp_list := s.esp_list.modify esp_id (·.update_time (w.time s.readings))
            resolved := s.resolved ++ [esp_id]
            readings := s.readings + 1 } esp_id result

/-- `TCPS_service`, for at most so many attempts, in each of which a loop makes at most `fuel`
rounds. -/
def TCPS_service (w : World) (fuel : ℕ) : ℕ → State → State
  | 0, s => s
  | attempts + 1, s =>
    if s.retry_child = 0 then s
    else
      match attempt w fuel s with
      | .finished s => s
      | .again s => TCPS_service w fuel attempts s
      | .threw s => TCPS_service w fuel attempts { s with retry_child := s.retry_child - 1 }
      | .stuck s => s

/-! ## The receive loops -/

/-- The bytes of a connection are those of its first chunk and of the others. -/
theorem Socket.bytes_cons (chunk : Chunk) (chunks : List Chunk) (ending : Ending) :
    Socket.bytes ⟨chunk :: chunks, ending⟩ = chunk.1 ++ Socket.bytes ⟨chunks, ending⟩ := rfl

/-- A connection without bytes has no chunks, as a chunk is not empty. -/
theorem Socket.chunks_eq_nil {sock : Socket} (h : sock.bytes = []) : sock.chunks = [] := by
  obtain ⟨chunks, ending⟩ := sock
  cases chunks with
  | nil => rfl
  | cons chunk chunks => exact absurd (List.append_eq_nil_iff.1 h).1 chunk.2

/-- One `recv` takes some of the bytes to come, at least one and at most as many as asked for. -/
theorem recv_eq (sock : Socket) {len : ℕ} (hlen : 0 < len) (hne : sock.bytes ≠ []) :
    ∃ bytes rest, sock.recv len = some (bytes.length, bytes, rest) ∧ bytes ≠ [] ∧
      bytes.length ≤ len ∧ sock.bytes = bytes ++ rest.bytes := by
  obtain ⟨chunks, ending⟩ := sock
  cases chunks with
  | nil => exact absurd rfl hne
  | cons chunk chunks =>
    by_cases h : chunk.1.length ≤ len
    · exact ⟨chunk.1, ⟨chunks, ending⟩, dif_pos h, chunk.2, h, rfl⟩
    · have htake : (chunk.1.take len).length = len := by
        rw [List.length_take]
        omega
      refine ⟨chunk.1.take len, _, (dif_neg h).trans (by rw [htake]), ?_, htake.le, ?_⟩
      · exact List.ne_nil_of_length_pos (by omega)
      · rw [Socket.bytes_cons, Socket.bytes_cons, ← List.append_assoc, List.take_append_drop]

/-- A loop that is `bytes` short of its size leaves them behind what it had, and the rest on the
socket. The result it carries stays positive, also when it has nothing to receive. -/
theorem recvLoop_eq {fuel size : ℕ} {sock : Socket} (buf : List UInt8) {bytes : List UInt8}
    (rest : List UInt8) (result : ℤ)
    (hsock : sock.bytes = bytes ++ rest) (hsize : buf.length + bytes.length = size)
    (hfuel : bytes.length < fuel) :
    ∃ result' sock', recvLoop fuel size buf.length buf result sock =
        some (buf ++ bytes, result', sock') ∧
      sock'.bytes = rest ∧ (0 < result ∨ bytes ≠ [] → 0 < result') := by
  induction fuel generalizing sock buf bytes result with
  | zero => omega
  | succ fuel ih =>
    rw [recvLoop]
    rcases eq_or_ne bytes [] with rfl | hne
    · rw [if_neg (by simp only [List.length_nil] at hsize; omega)]
      exact ⟨result, sock, by simp, hsock, by simp⟩
    have hpos := List.length_pos_iff.2 hne
    have hlen : ((size : ℤ) - (buf.length : ℤ)).toNat = bytes.length := by omega
    rw [if_pos (by omega), hlen]
    obtain ⟨got, sock', hrecv, hgot, hle, hbytes⟩ := recv_eq sock hpos (by simp [hsock, hne])
    have hgotpos := List.length_pos_iff.2 hgot
    obtain ⟨more, rfl⟩ : got <+: bytes := by
      refine List.prefix_of_prefix_length_le ?_ (List.prefix_append bytes rest) hle
      rw [← hsock, hbytes]
      exact List.prefix_append got _
    rw [hrecv]
    have hrest : sock'.bytes = more ++ rest := by
      rw [hbytes, List.append_assoc] at hsock
      exact List.append_cancel_left hsock
    obtain ⟨result', sock'', hloop, hbytes', hresult⟩ := ih (buf ++ got) got.length
      hrest (by simp only [List.length_append] at hsize ⊢; omega)
      (by simp only [List.length_append] at hfuel; omega)
    refine ⟨result', sock'', ?_, hbytes', fun _ => hresult (.inl (by omega))⟩
    rw [List.length_append, Nat.cast_add] at hloop
    simpa [List.append_assoc] using hloop

/-- A loop that starts receives exactly the bytes it is for. -/
theorem recvLoop_start (fuel size : ℕ) (result : ℤ) {sock : Socket} {bytes rest : List UInt8}
    (hsock : sock.bytes = bytes ++ rest) (hsize : bytes.length = size) (hfuel : size < fuel) :
    ∃ result' sock', recvLoop fuel size 0 [] result sock = some (bytes, result', sock') ∧
      sock'.bytes = rest ∧ (0 < result ∨ bytes ≠ [] → 0 < result') :=
  recvLoop_eq [] rest result hsock (by simpa using hsize) (hsize ▸ hfuel)

/-- A loop that lacks bytes on a connection that brings no more never ends. -/
theorem recvLoop_stuck {size : ℕ} {sock : Socket} (hsock : sock.chunks = []) (fuel : ℕ)
    (buf : List UInt8) (result i : ℤ) (hi : i < size) :
    recvLoop fuel size i buf result sock = none := by
  induction fuel generalizing i buf result with
  | zero => rfl
  | succ fuel ih =>
    rw [recvLoop, if_pos hi]
    cases hend : sock.ending <;> simp only [Socket.recv, hsock, hend]
    · exact ih _ _ _ (by omega)
    · exact ih _ _ _ (by omega)
    · exact ih _ _ _ (by omega)

/-! ## Uploads -/

/-- Once nothing more comes, the thread does nothing more. -/
theorem TCPS_service_of_no_bytes (w : World) (fuel attempts : ℕ) {s : State}
    (h : s.sock.bytes = []) : TCPS_service w fuel attempts s = s := by
  cases attempts with
  | zero => rfl
  | succ attempts =>
    have hstuck : attempt w fuel s = .stuck s := by
      rw [attempt, recvLoop_stuck (Socket.chunks_eq_nil h) fuel [] 0 0 (by decide)]
    rw [TCPS_service]
    split
    · rfl
    · rw [hstuck]

/-- The memory of the nodes, copied packet by packet. -/
theorem decode_nodes (nodes : List BufferNode) :
    (List.range nodes.length).map (fun i => ProbePacket.decode
        ((nodes.flatMap fun node => node.data.image node.padding).drop (i * PACKET_SIZE))) =
      nodes.map (·.data) := by
  induction nodes with
  | nil => rfl
  | cons node nodes ih =>
    have hdrop : ∀ i, ((node.data.image node.padding) ++
        nodes.flatMap fun node => node.data.image node.padding).drop ((i + 1) * PACKET_SIZE) =
        (nodes.flatMap fun node => node.data.image node.padding).drop (i * PACKET_SIZE) := by
      intro i
      rw [List.drop_append, List.drop_eq_nil_of_le, ProbePacket.image_length, List.nil_append,
        Nat.succ_mul, Nat.add_sub_cancel]
      rw [ProbePacket.image_length]
      exact Nat.le_mul_of_pos_left _ (Nat.succ_pos i)
    simp only [List.length_cons, List.range_succ_eq_map, List.map_cons, List.map_map,
      List.flatMap_cons, Nat.zero_mul, List.drop_zero, ProbePacket.decode_image, Function.comp_def,
      Nat.succ_eq_add_one, hdrop, ih]

/-- An upload has a fixed number of bytes for each packet. -/
theorem length_nodes (nodes : List BufferNode) :
    (nodes.flatMap fun node => node.data.image node.padding).length =
      nodes.length * PACKET_SIZE := by
  induction nodes with
  | nil => rfl
  | cons node nodes ih =>
    rw [List.flatMap_cons, List.length_append, ih, ProbePacket.image_length, List.length_cons,
      Nat.succ_mul, Nat.add_comm]

/-- An upload is delivered: its receiver is found, once, and exactly its packets are handed to
`storeInDB` under the index of the receiver, with the time of the delivery before this one. -/
structure Delivered (esp_id : ℕ) (e : ESP32) (packets : List ProbePacket) (s : State) : Prop where
  resolved : s.resolved = [esp_id]
  stored : s.stored = packets.map fun packet => ⟨esp_id, e.last_update, packet⟩

/-- A delivery stores the packets of its buffer and leaves the socket alone, whether the
acknowledgement can be sent or not; then nothing more happens, if nothing more comes. -/
theorem TCPS_service_of_deliver (w : World) (fuel attempts : ℕ) {s t : State} {count esp_id : ℕ}
    {recvbuf : List UInt8} {result : ℤ} (hs : s.retry_child ≠ 0) (hresult : 0 < result)
    (ht : t.sock.bytes = [])
    (hattempt : attempt w fuel s = deliver w t count esp_id recvbuf result) :
    (TCPS_service w fuel (attempts + 1) s).resolved = t.resolved ∧
      (TCPS_service w fuel (attempts + 1) s).stored =
        (storePackets t count esp_id recvbuf).stored := by
  rw [TCPS_service, if_neg hs, hattempt, deliver, if_pos hresult]
  dsimp only
  cases w.ack ((storePackets t count esp_id recvbuf).sends + 1 - 1) with
  | sent => exact ⟨rfl, rfl⟩
  | reset | failed =>
    dsimp only
    rw [TCPS_service_of_no_bytes w fuel attempts (by exact ht)]
    exact ⟨rfl, rfl⟩

/-- A receiver that is found among all is found among the first ones that reach to it. -/
theorem get_esp_instance_eq {esp_number : ℕ} {esp_list : List ESP32} {mac : Mac} {esp_id : ℕ}
    (hid : esp_list.findIdx? (·.mac_address = mac) = some esp_id) (hlt : esp_id < esp_number) :
    get_esp_instance esp_number esp_list mac.1 = some esp_id := by
  obtain ⟨h, hmac, hfirst⟩ := List.findIdx?_eq_some_iff_getElem.1 hid
  refine List.findIdx?_eq_some_iff_getElem.2 ⟨by rw [List.length_take]; omega, ?_, ?_⟩
  · simpa [Subtype.ext_iff] using hmac
  · intro j hj
    simpa [Subtype.ext_iff] using hfirst j hj

/-- However the bytes of an upload are split into chunks, it is delivered to a receiver that
`get_esp_instance` gets to. -/
theorem delivered_of_lt {w : World} {esp_list : List ESP32} {mac : Mac} {sniff_count : UInt8}
    {nodes : List BufferNode} {sock : Socket} {esp_id : ℕ} {e : ESP32} (c : UInt8)
    {fuel : ℕ} (attempts : ℕ) (hnodes : sniff_count.toNat ≤ nodes.length)
    (hsock : sock.bytes = tcp_client_timer_version mac sniff_count nodes)
    (hid : esp_list.findIdx? (·.mac_address = mac) = some esp_id)
    (he : esp_list[esp_id]? = some e) (hfuel : sock.bytes.length < fuel)
    (hlt : esp_id < w.esp_number) :
    Delivered esp_id e ((nodes.take sniff_count.toNat).map (·.data))
      (TCPS_service w fuel (attempts + 1) (start esp_list sock c)) := by
  set sent := nodes.take sniff_count.toNat with hsent
  have hcount : sent.length = sniff_count.toNat := by rw [hsent, List.length_take]; omega
  have hlen : sock.bytes.length = 6 + (1 + sniff_count.toNat * PACKET_SIZE) := by
    rw [hsock, tcp_client_timer_version, send_probe_buffer, List.length_append, List.length_cons,
      length_nodes, ← hsent, hcount, Bytes.length_val]
    omega
  -- the MAC address
  obtain ⟨result, sock₁, hmac, hsock₁, hresult⟩ := recvLoop_start fuel 6 0 hsock
    (Bytes.length_val mac) (by omega)
  have hpos : 0 < result := hresult (.inr (List.ne_nil_of_length_pos (by simp)))
  -- the count
  obtain ⟨got, sock₂, hrecv, hgot, hgotle, hbytes⟩ := recv_eq sock₁ Nat.one_pos
    (by rw [hsock₁]; simp)
  obtain ⟨b, rfl⟩ : ∃ b, got = [b] := List.length_eq_one_iff.1 (by
    have := List.length_pos_iff.2 hgot
    omega)
  rw [hsock₁, List.singleton_append, List.cons.injEq] at hbytes
  obtain ⟨rfl, hsock₂⟩ := hbytes
  -- the packets
  obtain ⟨result', sock₃, hpackets, hsock₃, hresult'⟩ := recvLoop_start fuel
    (sniff_count.toNat * PACKET_SIZE) result (hsock₂.symm.trans (List.append_nil _).symm)
    (by rw [send_probe_buffer, length_nodes, ← hsent, hcount]) (by omega)
  have hattempt : attempt w fuel (start esp_list sock c) =
      deliver w { start esp_list sock₃ (sniff_count + '0'.toUInt8) with
        esp_list := esp_list.modify esp_id (·.update_time (w.time 0))
        resolved := [esp_id]
        readings := 1 } sniff_count.toNat esp_id (send_probe_buffer sniff_count nodes) result' := by
    have hc : sniff_count + '0'.toUInt8 - '0'.toUInt8 = sniff_count := by
      rw [UInt8.add_sub_cancel]
    simp only [attempt, start, hmac, if_neg (not_lt.2 hpos.le), get_esp_instance_eq hid hlt,
      receivePackets, hrecv, List.headD_cons, hc, hpackets, List.nil_append]
  obtain ⟨hresolved, hstored⟩ := TCPS_service_of_deliver w fuel attempts (show 3 ≠ 0 by decide)
    (hresult' (.inl hpos)) hsock₃ hattempt
  refine ⟨hresolved, hstored.trans ?_⟩
  simp only [storePackets, start, List.nil_append, List.getElem?_modify_eq, he,
    ESP32.update_time]
  rw [send_probe_buffer, ← hsent, ← hcount]
  have hdecode := congrArg (List.map fun packet => (⟨esp_id, e.last_update, packet⟩ : Stored))
    (decode_nodes sent)
  simpa [Function.comp_def] using hdecode

/-- The state an attempt leaves. -/
def Outcome.state : Outcome → State
  | .finished s | .again s | .threw s | .stuck s => s

/-- Storing a batch resolves no receiver. -/
theorem deliver_resolved (w : World) (s : State) (count esp_id : ℕ) (recvbuf : List UInt8)
    (result : ℤ) : (deliver w s count esp_id recvbuf result).state.resolved = s.resolved := by
  unfold deliver
  split_ifs
  · dsimp only
    split <;> rfl
  · rfl
  · rfl
  · rfl

/-- Nor does receiving it. -/
theorem receivePackets_resolved (w : World) (fuel : ℕ) (s : State) (esp_id : ℕ) (result : ℤ) :
    (receivePackets w fuel s esp_id result).state.resolved = s.resolved := by
  unfold receivePackets
  split
  · rfl
  · dsimp only
    split
    · rfl
    · exact deliver_resolved ..

/-- `get_esp_instance` looks at the first receivers only. -/
theorem get_esp_instance_lt {esp_number esp_id : ℕ} {esp_list : List ESP32} {mac : List UInt8}
    (h : get_esp_instance esp_number esp_list mac = some esp_id) : esp_id < esp_number := by
  obtain ⟨hlt, -⟩ := List.findIdx?_eq_some_iff_getElem.1 h
  rw [List.length_take] at hlt
  omega

/-- An attempt finds none but the first receivers. -/
theorem attempt_resolved_lt {w : World} (fuel : ℕ) {s : State}
    (h : ∀ j ∈ s.resolved, j < w.esp_number) :
    ∀ j ∈ (attempt w fuel s).state.resolved, j < w.esp_number := by
  unfold attempt
  split
  · exact h
  · dsimp only
    split
    · exact h
    · split
      · exact h
      · next hid =>
        intro j hj
        rw [receivePackets_resolved] at hj
        rcases List.mem_append.1 hj with hj | hj
        · exact h j hj
        · exact List.mem_singleton.1 hj ▸ get_esp_instance_lt hid

/-- Nor does the thread, whatever it receives. -/
theorem TCPS_service_resolved_lt {w : World} (fuel attempts : ℕ) {s : State}
    (h : ∀ j ∈ s.resolved, j < w.esp_number) :
    ∀ j ∈ (TCPS_service w fuel attempts s).resolved, j < w.esp_number := by
  induction attempts generalizing s with
  | zero => exact h
  | succ attempts ih =>
    have hattempt := attempt_resolved_lt fuel h
    rw [TCPS_service]
    split
    · exact h
    · generalize attempt w fuel s = outcome at hattempt ⊢
      cases outcome with
      | finished t | stuck t => exact hattempt
      | again t | threw t => exact ih hattempt

/-- An upload of a receiver behind the first ones is not delivered. -/
theorem not_delivered_of_le {w : World} {esp_id : ℕ} {e : ESP32} {packets : List ProbePacket}
    (esp_list : List ESP32) (sock : Socket) (c : UInt8) (fuel attempts : ℕ)
    (hle : w.esp_number ≤ esp_id) :
    ¬ Delivered esp_id e packets (TCPS_service w fuel attempts (start esp_list sock c)) := by
  intro h
  have hlt := TCPS_service_resolved_lt (w := w) fuel attempts (s := start esp_list sock c)
    (by simp [start]) esp_id (by simp [h.resolved])
  omega

/-- When no exception was thrown before, the first receivers are all. -/
theorem findIdx_lt_of_serving {args : Participation.Args} {stored : List Esp}
    {as : List Participation.Action} {p : Participation.State} {esp_id : ℕ} {mac : Mac}
    (hG : Meets (Participation.step args) Participation.NoThrow (Participation.init args stored) as)
    (hrun : run (Participation.step args) (Participation.init args stored) as = some p)
    (hserve : p.status = .serving)
    (hid : p.esp_list.findIdx? (·.mac_address = mac) = some esp_id) : esp_id < args.espn := by
  obtain ⟨hlt, -⟩ := List.findIdx?_eq_some_iff_getElem.1 hid
  have hlen := congrArg List.length (Participation.ids_of_serving hG hrun hserve)
  rw [List.length_map, List.length_range] at hlen
  omega

/-- **The round trip of an upload.** However the bytes of an upload are split into chunks, and
whatever happens once they have all arrived, the thread finds the receiver and hands exactly the
packets that were sent to `storeInDB`, in order, if and only if the first index with the MAC address
is one that `get_esp_instance` looks at. -/
theorem upload_delivered_iff (w : World) (esp_list : List ESP32) (mac : Mac) (sniff_count : UInt8)
    (nodes : List BufferNode) (sock : Socket) (esp_id : ℕ) (e : ESP32) (c : UInt8)
    (fuel attempts : ℕ) (hnodes : sniff_count.toNat ≤ nodes.length)
    (hsock : sock.bytes = tcp_client_timer_version mac sniff_count nodes)
    (hid : esp_list.findIdx? (·.mac_address = mac) = some esp_id)
    (he : esp_list[esp_id]? = some e) (hfuel : sock.bytes.length < fuel) :
    Delivered esp_id e ((nodes.take sniff_count.toNat).map (·.data))
        (TCPS_service w fuel (attempts + 1) (start esp_list sock c)) ↔
      esp_id < w.esp_number := by
  constructor
  · intro h
    by_contra hle
    exact not_delivered_of_le esp_list sock c fuel (attempts + 1) (not_lt.1 hle) h
  · exact delivered_of_lt c attempts hnodes hsock hid he hfuel

/-- A packet with a two-letter name. -/
def samplePacket : ProbePacket where
  timestamp := 1500000
  channel := 1
  seq_ctl := 0x1230
  rssi := -70
  addr := Mac.of 0xa8 0 0 0 0 1
  ssid_length := 2
  ssid := ⟨[104, 105] ++ List.replicate 30 0, rfl⟩
  crc := ⟨[1, 2, 3, 4], rfl⟩
  hash := 99

/-- A connection that brings its bytes one by one and is then reset. -/
def byteByByte (bytes : List UInt8) : Socket where
  chunks := bytes.map fun b => ⟨[b], by simp⟩
  ending := .reset

/-- Two packets of the second device, byte by byte; the acknowledgement fails. -/
theorem upload_delivered_iff_byteByByte :
    Delivered 1 ⟨1, Participation.secondMac, 2, 2, 3013, 45, 35⟩ [samplePacket, samplePacket]
      (TCPS_service ⟨2, fun _ => 50, fun _ => .reset⟩ 200 3
        (start [⟨0, Participation.firstMac, 1, 1, 3011, 40, 30⟩,
            ⟨1, Participation.secondMac, 2, 2, 3013, 45, 35⟩]
          (byteByByte (tcp_client_timer_version Participation.secondMac 2
            [⟨samplePacket, 0⟩, ⟨samplePacket, 255⟩, ⟨samplePacket, 1⟩])) 0)) :=
  (upload_delivered_iff ⟨2, fun _ => 50, fun _ => .reset⟩ _ Participation.secondMac 2
    [⟨samplePacket, 0⟩, ⟨samplePacket, 255⟩, ⟨samplePacket, 1⟩] _ 1
    ⟨1, Participation.secondMac, 2, 2, 3013, 45, 35⟩ 0 200 2 (by decide) rfl rfl rfl
    (by decide)).2 (by decide)

/-- The child thread of the first device cannot be created, and the participation begins anew with
that device still in the list: the only receiver then stands behind it, at an index that
`get_esp_instance` does not look at. -/
theorem undelivered_after_restart :
    ¬ ∀ (w : World) (args : Participation.Args) (stored : List Esp)
        (as : List Participation.Action) (p : Participation.State) (mac : Mac)
        (sniff_count : UInt8) (nodes : List BufferNode) (sock : Socket) (esp_id : ℕ) (e : ESP32)
        (c : UInt8) (fuel attempts : ℕ),
        run (Participation.step args) (Participation.init args stored) as = some p →
        p.status = .serving → w.esp_number = args.espn → sniff_count.toNat ≤ nodes.length →
        sock.bytes = tcp_client_timer_version mac sniff_count nodes →
        p.esp_list.findIdx? (·.mac_address = mac) = some esp_id →
        p.esp_list[esp_id]? = some e → sock.bytes.length < fuel →
        Delivered esp_id e ((nodes.take sniff_count.toNat).map (·.data))
          (TCPS_service w fuel (attempts + 1) (start p.esp_list sock c)) := by
  intro hclaim
  have hrun : ∃ p, run (Participation.step ⟨1, 1, [3, 4]⟩) (Participation.init ⟨1, 1, [3, 4]⟩ [])
      [.construct, .join Participation.firstMac true false 5 5,
        .join Participation.secondMac true true 6 7, .serve] = some p ∧ p.status = .serving ∧
      p.esp_list = [⟨0, Participation.firstMac, 3, 4, 3011, 5, 5⟩,
        ⟨0, Participation.secondMac, 3, 4, 3011, 7, 6⟩] := ⟨_, rfl, rfl, rfl⟩
  obtain ⟨p, hp, hserve, hlist⟩ := hrun
  have hdelivered := hclaim ⟨1, fun _ => 50, fun _ => .sent⟩ ⟨1, 1, [3, 4]⟩ [] _ p
    Participation.secondMac 1 [⟨samplePacket, 0⟩]
    (byteByByte (tcp_client_timer_version Participation.secondMac 1 [⟨samplePacket, 0⟩])) 1
    ⟨0, Participation.secondMac, 3, 4, 3011, 7, 6⟩ 0 200 2 hp hserve rfl (by decide) rfl
    (by rw [hlist]; rfl) (by rw [hlist]; rfl) (by decide)
  exact absurd hdelivered (not_delivered_of_le _ _ _ _ _ le_rfl)

/-! ## Positions -/

/-- In a list of receivers under their numbers, a receiver is found under its number. -/
theorem get_esp_instance_id {esp_number esp_id : ℕ} {esp_list : List ESP32} {mac : Mac}
    (hids : esp_list.map (·.id) = List.range esp_number)
    (h : get_esp_instance esp_number esp_list mac.1 = some esp_id) :
    ∃ e ∈ esp_list, e.mac_address = mac ∧ e.id = esp_id := by
  obtain ⟨hlt, hmac, -⟩ := List.findIdx?_eq_some_iff_getElem.1 h
  rw [List.length_take] at hlt
  have hid := congrArg (·[esp_id]?) hids
  simp only [List.getElem?_map, List.getElem?_range (lt_min_iff.1 hlt).1,
    List.getElem?_eq_getElem (lt_min_iff.1 hlt).2, Option.map_some, Option.some.injEq] at hid
  rw [List.getElem_take, decide_eq_true_eq] at hmac
  exact ⟨esp_list[esp_id], List.getElem_mem _, Subtype.ext hmac, hid⟩

/-- What a device uploads is measured from the coordinates it was given, when these are the
configured ones and no exception was thrown before: its packets are stored under its number. -/
theorem measure_of_get_esp_instance {F : Type} [Double F] (processor : PacketProcessor F)
    {args : Participation.Args} {stored : List Esp} {as : List Participation.Action}
    {p : Participation.State} {esp_id : ℕ} {mac : Mac}
    (hG : Meets (Participation.step args) Participation.NoThrow (Participation.init args stored) as)
    (hrun : run (Participation.step args) (Participation.init args stored) as = some p)
    (hserve : p.status = .serving) (hconf : Participation.Configured p)
    (hid : get_esp_instance args.espn p.esp_list mac.1 = some esp_id) {packet : Packet}
    (hpacket : packet.esp_id = esp_id) :
    ∃ e ∈ p.esp_list, e.mac_address = mac ∧ processor.measure p.esp packet =
      some ⟨e.coordinate_x, e.coordinate_y,
        processor.getDistanceFromRSSI ((packet.rssi : ℤ) : F)⟩ := by
  obtain ⟨e, he, hmac, hnumber⟩ :=
    get_esp_instance_id (Participation.ids_of_serving hG hrun hserve) hid
  exact ⟨e, he, hmac, hconf.measure_eq processor he (hpacket.trans hnumber.symm)⟩

end Service

end DetectionSystem

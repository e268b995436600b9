import DetectionSystem.Firmware.Upload
import DetectionSystem.Lib.Hex
import DetectionSystem.Lib.Memory

/-!
# What the sniffer records of a frame

`wifi_sniffer_packet_handler` fills a `struct buffer` from a probe request: the fields of the
header, the name, the check sequence, and a hash over three of them, for which it prints them into
an array. The two structures on its stack are memory without bounds, as the code uses them; `log`
records the indices with which it goes into the arrays and into the payload.
-/

namespace DetectionSystem

namespace PacketHandler

open Memory

/-- What a call finds: the memory of the frame, from its first byte on and around it, what the radio
reports about it, the value of the timer in microseconds, and what the stack held before. -/
structure Input where
  isMgmt : Bool
  frame : ℤ → UInt8
  sig_len : ℕ
  channel : UInt8
  rssi : UInt8
  timestamp : UInt32
  stack_b : ℕ → UInt8
  stack_hashCode : ℕ → UInt8

/-- The subtype of a probe request in the frame control byte. -/
def PROBE_REQUEST_SUBTYPE : UInt8 := 0x40

namespace Input

variable (c : Input)

/-! The fields of `wifi_ieee80211_mac_hdr_t`, which takes 24 bytes, and the payload behind it. -/

/-- The first byte of the frame control field. -/
def frame_ctrl : UInt8 := c.frame 0

/-- A byte of the sender's address. -/
def addr2 (j : ℕ) : UInt8 := c.frame (10 + j)

/-- The sequence control field, as the little-endian machine reads it. -/
def seq_ctl : ℕ := ofBytes [c.frame 22, c.frame 23]

/-- A byte of the payload; what lies before or behind it is read as well. -/
def payload (j : ℤ) : UInt8 := c.frame (24 + j)

end Input

/-- An index that is used. -/
inductive Access
  | ssid (i : ℕ)
  | hashCode (i : ℕ)
  | payload (j : ℤ)
deriving DecidableEq, Repr

/-- The memory from `b` on, the memory from `hashCode` on, and the indices used so far. -/
structure Run where
  b : ℕ → UInt8
  hashCode : ℕ → UInt8
  log : List Access

namespace Run

/-- A loop of `n` rounds that stores into `b`, with the indices each round uses. -/
def loopB (s : Run) (off n : ℕ) (f : ℕ → UInt8) (used : ℕ → List Access) : Run :=
  { s with b := fill s.b off n f, log := s.log ++ (List.range n).flatMap used }

/-- A loop of `n` rounds that stores into `hashCode`. -/
def loopHashCode (s : Run) (off n : ℕ) (f : ℕ → UInt8) (used : ℕ → List Access) : Run :=
  { s with hashCode := fill s.hashCode off n f, log := s.log ++ (List.range n).flatMap used }

/-- The assignment of a number to a field of `k` bytes of `b`. -/
def setB (s : Run) (off k n : ℕ) : Run :=
  s.loopB off k (fun i => (toBytes k n).getD i 0) fun _ => []

/-- The number in a field of `k` bytes of `b`. -/
def getB (s : Run) (off k : ℕ) : ℕ := ofBytes ((List.range k).map fun i => s.b (off + i))

end Run

/-- The text that `sprintf` prints for a sequence number and an address. -/
def headText (seq_ctl : ℕ) (addr : ℕ → UInt8) : List Char :=
  Hex.printed 4 seq_ctl ++ (List.range 6).flatMap fun j => Hex.printed 2 (addr j).toNat

/-- `hash`: djb2 over the first `DIM` characters of an array; `char` is the number a character
stands for in a sum. -/
def hash (char : UInt8 → UInt32) (str : ℕ → UInt8) (DIM : ℕ) : UInt32 :=
  (List.range DIM).foldl (fun hash i => ((hash <<< 5) + hash) + char (str i)) 5381

/-- The fields of `b` that come from the frame. The loop over the name reads its bound from `b` in
every round, but stores behind it. -/
def copyFields (c : Input) (s : Run) : Run :=
  let packet_length := c.sig_len
  let s := s.setB 0 4 c.timestamp.toNat
  let s := s.setB 4 1 c.channel.toNat
  let s := s.setB 5 2 c.seq_ctl
  let s := s.setB 7 1 c.rssi.toNat
  let s := s.loopB 8 6 c.addr2 fun _ => []
  let s := s.loopB 14 1 (fun _ => c.payload 1) fun _ => [.payload 1]
  let s := s.loopB 15 (s.getB 14 1) (fun i => c.payload (i + 2)) fun i =>
    [.payload (i + 2), .ssid i]
  s.loopB 47 4 (fun j => c.payload (packet_length - 4 + j)) fun j =>
    [.payload (packet_length - 4 + j)]

/-- The text to be hashed, and the hash. -/
def hashFields (char : UInt8 → UInt32) (s : Run) : Run :=
  let ssid_length := s.getB 14 1
  let DIM := 16 + ssid_length
  let text := (headText (s.getB 5 2) fun j => s.b (8 + j)).map fun a => UInt8.ofNat a.toNat
  let s := s.loopHashCode 0 (text.length + 1) (fun i => (text ++ [0]).getD i 0) fun i =>
    [.hashCode i]
  let s := s.loopHashCode 16 ssid_length (fun i => s.b (15 + i)) fun i =>
    [.ssid i, .hashCode (16 + i)]
  let s := s.loopHashCode (16 + ssid_length) 1 (fun _ => 0) fun _ => [.hashCode (16 + ssid_length)]
  let s := { s with log := s.log ++ (List.range DIM).map Access.hashCode }
  s.setB 52 4 (hash char s.hashCode DIM).toNat

/-- The handler up to `curr->data = b`; `none` where it returns before. -/
def wifi_sniffer_packet_handler (char : UInt8 → UInt32) (c : Input) : Option Run :=
  if ¬ c.isMgmt then none
  else if c.frame_ctrl ≠ PROBE_REQUEST_SUBTYPE then none
  else some (hashFields char (copyFields c ⟨c.stack_b, c.stack_hashCode, []⟩))

/-- The record that is appended to the list. -/
def Run.data (s : Run) : ProbePacket := .decode ((List.range PACKET_SIZE).map s.b)

/-! ## The fields -/

variable {s : Run} {off k n a : ℕ}

/-- What is stored in a field is read from it, up to the width of the field. -/
theorem getB_setB : (s.setB off k n).getB off k = n % 256 ^ k := by
  rw [← ofBytes_toBytes, Run.getB]
  congr 1
  refine List.ext_getElem (by simp) fun i hi hi' => ?_
  rw [List.length_map, List.length_range] at hi
  rw [List.getElem_map, List.getElem_range]
  show fill s.b off k _ (off + i) = _
  rw [fill_of_mem (by omega) (by omega), Nat.add_sub_cancel_left, List.getD_eq_getElem?_getD,
    List.getElem?_eq_getElem hi', Option.getD_some]

/-- Copies of a field of `b` in the record. -/
theorem read_data (b : ℕ → UInt8) (h : off + n ≤ PACKET_SIZE) :
    (Bytes.read n ((List.range PACKET_SIZE).map b) off).1 =
      (List.range n).map fun i => b (off + i) := by
  show ((List.map b (List.range PACKET_SIZE)).drop off).takeD n 0 = _
  rw [List.takeD_eq_take _ (by simp; omega), ← List.map_drop, ← List.map_take]
  refine List.ext_getElem (by simp; omega) fun i hi hi' => ?_
  simp

/-- What `copyFields` leaves in `b`. -/
structure Copied (c : Input) (s : Run) : Prop where
  seq_ctl : s.getB 5 2 = c.seq_ctl
  addr : ∀ j < 6, s.b (8 + j) = c.addr2 j
  ssid_length : s.b 14 = c.payload 1
  ssid : ∀ i < (c.payload 1).toNat, i < 32 → s.b (15 + i) = c.payload (i + 2)
  crc : ∀ j < 4, s.b (47 + j) = c.payload (c.sig_len - 4 + j)

/-- A field depends on its own bytes only. -/
theorem getB_congr {s t : Run} (h : ∀ a, off ≤ a → a < off + k → s.b a = t.b a) :
    s.getB off k = t.getB off k := by
  unfold Run.getB
  congr 1
  refine List.map_congr_left fun i hi => ?_
  rw [List.mem_range] at hi
  exact h (off + i) (by omega) (by omega)

/-- A field of `k` bytes is below `256 ^ k`. -/
theorem getB_lt (s : Run) (off k : ℕ) : s.getB off k < 256 ^ k := by
  have h := ofBytes_lt ((List.range k).map fun i => s.b (off + i))
  rwa [List.length_map, List.length_range] at h

/-- The sequence control field has two bytes. -/
theorem Input.seq_ctl_lt (c : Input) : c.seq_ctl < 256 ^ 2 := ofBytes_lt [c.frame 22, c.frame 23]

/-- `copyFields` copies the fields of the frame. -/
theorem copied (c : Input) (s : Run) : Copied c (copyFields c s) := by
  have hlen : ∀ t : Run, (t.loopB 14 1 (fun _ => c.payload 1) fun _ => [.payload 1]).getB 14 1 =
      (c.payload 1).toNat := by
    intro t
    simp (disch := omega) [Run.getB, Run.loopB, fill_of_mem, ofBytes]
  refine ⟨?_, ?_, ?_, ?_, ?_⟩
  · refine (getB_congr (t := ((s.setB 0 4 c.timestamp.toNat).setB 4 1 c.channel.toNat).setB 5 2
      c.seq_ctl) ?_).trans (getB_setB.trans (Nat.mod_eq_of_lt c.seq_ctl_lt))
    intro a h h'
    simp (disch := omega) only [copyFields, Run.loopB, Run.setB, fill_of_lt]
  · intro j hj
    simp (disch := omega) only [copyFields, Run.loopB, fill_of_lt, fill_of_mem]
    rw [Nat.add_sub_cancel_left]
  · simp (disch := omega) only [copyFields, Run.loopB, fill_of_lt, fill_of_mem]
  · intro i hi hi'
    simp only [copyFields, hlen]
    simp (disch := omega) only [Run.loopB, fill_of_lt, fill_of_mem]
    rw [Nat.add_sub_cancel_left]
  · intro j hj
    simp (disch := omega) only [copyFields, Run.loopB, fill_of_mem]
    rw [Nat.add_sub_cancel_left]

/-! ## The hash -/

/-- The text that is hashed: the sequence number, the address and the name. -/
def hashText (seq_ctl : ℕ) (addr : ℕ → UInt8) (ssid : List UInt8) : List UInt8 :=
  (headText seq_ctl addr).map (fun a => UInt8.ofNat a.toNat) ++ ssid

/-- `djb2`. -/
def djb2 (char : UInt8 → UInt32) (text : List UInt8) : UInt32 :=
  text.foldl (fun hash a => ((hash <<< 5) + hash) + char a) 5381

/-- The hash of the code is `djb2` over the array. -/
theorem hash_eq_djb2 (char : UInt8 → UInt32) (str : ℕ → UInt8) (DIM : ℕ) :
    hash char str DIM = djb2 char ((List.range DIM).map str) := by
  rw [hash, djb2, List.foldl_map]

/-- The format prints 16 characters for every value of the fields. -/
theorem headText_length {seq_ctl : ℕ} (h : seq_ctl < 256 ^ 2) (addr : ℕ → UInt8) :
    (headText seq_ctl addr).length = 16 := by
  have hbyte : ∀ j, (Hex.printed 2 (addr j).toNat).length = 2 :=
    fun j => Hex.length_printed (by omega) (addr j).toNat_lt
  rw [headText, List.length_append, Hex.length_printed (by omega) h, List.length_flatMap]
  simp [hbyte]

/-- The array holds the text of the three fields in the part that is summed, whatever was in it
before. -/
theorem hashFields_hashCode (char : UInt8 → UInt32) (s : Run) :
    (List.range (16 + s.getB 14 1)).map (hashFields char s).hashCode =
      hashText (s.getB 5 2) (fun j => s.b (8 + j))
        ((List.range (s.getB 14 1)).map fun i => s.b (15 + i)) := by
  have htext := headText_length (getB_lt s 5 2) fun j => s.b (8 + j)
  unfold hashText
  refine List.ext_getElem (by simp [htext]) fun i hi hi' => ?_
  rw [List.length_map, List.length_range] at hi
  rw [List.getElem_map, List.getElem_range]
  by_cases h : i < 16
  · -- printed by `sprintf`
    rw [List.getElem_append_left (by simpa [htext] using h)]
    simp (disch := omega) only [hashFields, Run.setB, Run.loopB, Run.loopHashCode, fill_of_lt]
    rw [fill_of_mem (by omega) (by simp [htext]; omega), Nat.sub_zero, List.getD_eq_getElem?_getD,
      List.getElem?_append_left (by simpa [htext] using h), List.getElem?_eq_getElem,
      Option.getD_some]
  · -- copied over the end of what `sprintf` printed
    rw [List.getElem_append_right (by simp [htext]; omega), List.getElem_map, List.getElem_range]
    simp (disch := omega) only [hashFields, Run.setB, Run.loopB, Run.loopHashCode, fill_of_lt,
      fill_of_mem]
    rw [List.length_map, htext]

/-- Nothing in the last part touches the other fields. -/
theorem hashFields_b (char : UInt8 → UInt32) (s : Run) (h : a < 52) :
    (hashFields char s).b a = s.b a := by
  simp (disch := omega) only [hashFields, Run.setB, Run.loopB, Run.loopHashCode, fill_of_lt]

/-- So the record has in its other fields what `copyFields` left there. -/
theorem read_hashFields (char : UInt8 → UInt32) (s : Run) (h : off + n ≤ 52) :
    (Bytes.read n ((List.range PACKET_SIZE).map (hashFields char s).b) off).1 =
      (List.range n).map fun i => s.b (off + i) := by
  rw [read_data _ (by simp only [PACKET_SIZE]; omega)]
  refine List.map_congr_left fun i hi => ?_
  rw [List.mem_range] at hi
  exact hashFields_b char s (by omega)

/-- The stored hash is that of the text. -/
theorem hashFields_hash (char : UInt8 → UInt32) (s : Run) :
    (hashFields char s).data.hash =
      djb2 char (hashText (s.getB 5 2) (fun j => s.b (8 + j))
        ((List.range (s.getB 14 1)).map fun i => s.b (15 + i))) := by
  rw [← hashFields_hashCode char s, ← hash_eq_djb2]
  have hget : (hashFields char s).getB 52 4 =
      (hash char (hashFields char s).hashCode (16 + s.getB 14 1)).toNat % 256 ^ 4 := getB_setB
  show UInt32.ofNat (Bytes.toNat (Bytes.read 4 _ 52)) = _
  rw [Bytes.toNat, read_data _ (by decide)]
  show UInt32.ofNat ((hashFields char s).getB 52 4) = _
  have hlt : (hash char (hashFields char s).hashCode (16 + s.getB 14 1)).toNat < 256 ^ 4 :=
    UInt32.toNat_lt _
  rw [hget, Nat.mod_eq_of_lt hlt, UInt32.ofNat_toNat]

/-! ## What is recorded -/

namespace Input

variable (c : Input)

/-- The length of the name, as the frame has it. -/
def ssidLength : ℕ := (c.payload 1).toNat

/-- A management frame with the subtype of a probe request. -/
structure IsProbe : Prop where
  mgmt : c.isMgmt = true
  subtype : c.frame_ctrl = PROBE_REQUEST_SUBTYPE

/-- A complete probe request: the header, a name of at most 32 bytes first in the body, and the
check sequence behind it. -/
structure WellFormed : Prop extends IsProbe c where
  ssid : c.ssidLength ≤ 32
  length : 24 + (2 + c.ssidLength) + 4 ≤ c.sig_len

end Input

/-- The record has the fields of the frame. -/
structure Records (c : Input) (p : ProbePacket) : Prop where
  seq_ctl : p.seq_ctl.toNat = ofBytes [c.frame 22, c.frame 23]
  addr : p.addr.1 = (List.range 6).map fun j : ℕ => c.frame (10 + j)
  ssid_length : p.ssid_length.toNat = c.ssidLength
  ssid : p.ssid.1.take c.ssidLength = (List.range c.ssidLength).map fun i : ℕ => c.frame (26 + i)
  crc : p.crc.1 = (List.range 4).map fun j : ℕ => c.frame (c.sig_len - 4 + j)

/-- The call for a probe request. -/
def built (char : UInt8 → UInt32) (c : Input) : Run :=
  hashFields char (copyFields c ⟨c.stack_b, c.stack_hashCode, []⟩)

/-- The handler goes through for a probe request. -/
theorem Input.IsProbe.handler {c : Input} (h : c.IsProbe) (char : UInt8 → UInt32) :
    wifi_sniffer_packet_handler char c = some (built char c) := by
  rw [wifi_sniffer_packet_handler, if_neg (by simp [h.mgmt]), if_neg (by simp [h.subtype])]
  rfl

/-- Two lists of values agree exactly if the values do. -/
theorem range_map_congr {β : Type} {f g : ℕ → β} :
    (List.range n).map f = (List.range n).map g ↔ ∀ i < n, f i = g i := by
  simp [List.map_inj_left]

/-- A field of one byte is that byte. -/
theorem getB_one : s.getB off 1 = (s.b off).toNat := by
  simp [Run.getB, ofBytes]

/-- The fields that are always right. -/
theorem Copied.fields {c : Input} (h : Copied c s) (hssid : c.ssidLength ≤ 32)
    (char : UInt8 → UInt32) :
    (hashFields char s).data.seq_ctl.toNat = c.seq_ctl ∧
      (hashFields char s).data.addr.1 = (List.range 6).map c.addr2 ∧
      (hashFields char s).data.ssid_length.toNat = c.ssidLength ∧
      (hashFields char s).data.ssid.1.take c.ssidLength =
        (List.range c.ssidLength).map fun i : ℕ => c.payload (i + 2) := by
  refine ⟨?_, ?_, ?_, ?_⟩
  · show (UInt16.ofNat (ofBytes (Bytes.read 2 _ 5).1)).toNat = _
    rw [read_hashFields char s (by omega)]
    show (UInt16.ofNat (s.getB 5 2)).toNat = _
    rw [h.seq_ctl, UInt16.toNat_ofNat']
    exact Nat.mod_eq_of_lt c.seq_ctl_lt
  · show (Bytes.read 6 _ 8).1 = _
    rw [read_hashFields char s (by omega)]
    exact range_map_congr.2 h.addr
  · show (UInt8.ofNat (ofBytes (Bytes.read 1 _ 14).1)).toNat = _
    rw [read_hashFields char s (by omega)]
    show (UInt8.ofNat (s.getB 14 1)).toNat = _
    rw [getB_one, h.ssid_length, UInt8.ofNat_toNat]
    rfl
  · show (Bytes.read 32 _ 15).1.take _ = _
    rw [read_hashFields char s (by omega), ← List.map_take, List.take_range, Nat.min_eq_left hssid]
    exact range_map_congr.2 fun i hi => h.ssid i hi (lt_of_lt_of_le hi hssid)

/-- The field that is not. -/
theorem Copied.crc_data {c : Input} (h : Copied c s) (char : UInt8 → UInt32) :
    (hashFields char s).data.crc.1 =
      (List.range 4).map fun j : ℕ => c.payload (c.sig_len - 4 + j) := by
  show (Bytes.read 4 _ 47).1 = _
  rw [read_hashFields char s (by omega)]
  exact range_map_congr.2 h.crc

/-- **The recorded fields.** The check sequence is read 24 bytes too far: its index counts the
header, and its base is behind it. So the record is right exactly if memory repeats the check
sequence there. All other fields are right. -/
theorem records_iff (char : UInt8 → UInt32) (c : Input) (h : c.WellFormed) :
    ∃ s, wifi_sniffer_packet_handler char c = some s ∧
      (Records c s.data ↔
        ∀ j : ℕ, j < 4 → c.frame (c.sig_len + 20 + j) = c.frame (c.sig_len - 4 + j)) := by
  have hc := copied c ⟨c.stack_b, c.stack_hashCode, []⟩
  obtain ⟨hseq, haddr, hlen, hssid⟩ := hc.fields h.ssid char
  have hcrc : ∀ j : ℕ, c.payload (c.sig_len - 4 + j) = c.frame (c.sig_len + 20 + j) := by
    intro j
    show c.frame (24 + _) = _
    congr 1
    omega
  refine ⟨built char c, h.handler char, ?_, ?_⟩
  · intro hrec j hj
    have := range_map_congr.1 ((hc.crc_data char).symm.trans hrec.crc) j hj
    rwa [hcrc] at this
  · intro hrepeat
    refine ⟨hseq, haddr, hlen, hssid.trans (range_map_congr.2 fun i _ => ?_),
      (hc.crc_data char).trans (range_map_congr.2 fun j hj => ?_)⟩
    · show c.frame (24 + _) = _
      congr 1
      omega
    · rw [hcrc]
      exact hrepeat j hj

/-- A frame of 30 zero bytes, up to its subtype, in memory that is zero, up to its last byte. -/
def shortFrame (fcs : UInt8) : Input where
  isMgmt := true
  frame a := if a = 0 then PROBE_REQUEST_SUBTYPE else if a = 29 then fcs else 0
  sig_len := 30
  channel := 1
  rssi := 200
  timestamp := 0
  stack_b _ := 0
  stack_hashCode _ := 0

/-- The frame is a probe request of the right length. -/
theorem wellFormed_shortFrame (fcs : UInt8) : (shortFrame fcs).WellFormed where
  mgmt := rfl
  subtype := rfl
  ssid := Nat.zero_le 32
  length := Nat.le_refl 30

/-- The check sequence is zero, and so is what is read instead. -/
theorem records_iff_shortFrame :
    ∃ s, wifi_sniffer_packet_handler UInt8.toUInt32 (shortFrame 0) = some s ∧
      (Records (shortFrame 0) s.data ↔ ∀ j : ℕ, j < 4 →
        (shortFrame 0).frame ((shortFrame 0).sig_len + 20 + j) =
          (shortFrame 0).frame ((shortFrame 0).sig_len - 4 + j)) :=
  records_iff UInt8.toUInt32 (shortFrame 0) (wellFormed_shortFrame 0)

/-- The check sequence ends with a one, which is not recorded. -/
theorem not_records :
    ¬ ∀ (char : UInt8 → UInt32) (c : Input), c.WellFormed →
        ∃ s, wifi_sniffer_packet_handler char c = some s ∧ Records c s.data := by
  intro hclaim
  obtain ⟨s, hs, hrec⟩ := hclaim UInt8.toUInt32 (shortFrame 1) (wellFormed_shortFrame 1)
  obtain rfl := Option.some.inj (((wellFormed_shortFrame 1).handler UInt8.toUInt32).symm.trans hs)
  have hcrc := ((copied (shortFrame 1) _).crc_data UInt8.toUInt32).symm.trans hrec.crc
  exact absurd (range_map_congr.1 hcrc 3 (by omega)) (by decide)

/-! ## The indices -/

/-- The index is inside its array, or inside the payload. -/
def Access.InRange (c : Input) : Access → Prop
  | .ssid i => i < 32
  | .hashCode i => i < 16 + c.ssidLength
  | .payload j => 0 ≤ j ∧ j < c.sig_len - 24

/-- The indices that `copyFields` uses. -/
theorem copyFields_log (c : Input) (s : Run) :
    (copyFields c s).log = s.log ++ .payload 1 ::
      ((List.range c.ssidLength).flatMap (fun i : ℕ => [.payload (i + 2), .ssid i]) ++
        (List.range 4).flatMap fun j : ℕ => [.payload (c.sig_len - 4 + j)]) := by
  have hlen : ∀ t : Run, (t.loopB 14 1 (fun _ => c.payload 1) fun _ => [.payload 1]).getB 14 1 =
      c.ssidLength := by
    intro t
    rw [getB_one]
    show (fill t.b 14 1 _ 14).toNat = _
    rw [fill_of_mem (by omega) (by omega)]
    rfl
  simp only [copyFields, hlen]
  simp [Run.loopB, Run.setB, List.range_succ]

/-- The indices that `hashFields` uses. -/
theorem hashFields_log (char : UInt8 → UInt32) (s : Run) :
    (hashFields char s).log = s.log ++
      ((List.range 17).flatMap (fun i => [.hashCode i]) ++
        ((List.range (s.getB 14 1)).flatMap (fun i => [.ssid i, .hashCode (16 + i)]) ++
          .hashCode (16 + s.getB 14 1) :: (List.range (16 + s.getB 14 1)).map .hashCode)) := by
  have htext := headText_length (getB_lt s 5 2) fun j => s.b (8 + j)
  simp [hashFields, Run.loopHashCode, Run.loopB, Run.setB, htext]

/-- The length of the name is copied into its field. -/
theorem copyFields_getB (c : Input) :
    (copyFields c ⟨c.stack_b, c.stack_hashCode, []⟩).getB 14 1 = c.ssidLength := by
  rw [getB_one, (copied c _).ssid_length]
  rfl

/-- The indices into the array of the name. -/
theorem ssid_mem_log {c : Input} {char : UInt8 → UInt32} {i : ℕ} :
    .ssid i ∈ (built char c).log ↔ i < c.ssidLength := by
  rw [built, hashFields_log, copyFields_log, copyFields_getB]
  simp

/-- **No frame is parsed inside the arrays.** The end of the text is stored behind the array for it,
and the check sequence is read behind the payload, for every probe request. The name stays in its
array exactly if it is not too long. -/
theorem never_inRange (char : UInt8 → UInt32) (c : Input) (h : c.IsProbe) :
    ∃ s, wifi_sniffer_packet_handler char c = some s ∧ (¬ ∀ a ∈ s.log, a.InRange c) ∧
      (¬ ∀ i, .hashCode i ∈ s.log → i < 16 + c.ssidLength) ∧
      (¬ ∀ j : ℤ, .payload j ∈ s.log → j < c.sig_len - 24) ∧
      ((∀ i, .ssid i ∈ s.log → i < 32) ↔ c.ssidLength ≤ 32) := by
  have hend : .hashCode (16 + c.ssidLength) ∈ (built char c).log := by
    rw [built, hashFields_log, copyFields_log, copyFields_getB]
    simp
  have hcrc : .payload (c.sig_len - 4 + (3 : ℕ)) ∈ (built char c).log := by
    rw [built, hashFields_log, copyFields_log, copyFields_getB]
    refine List.mem_append_left _ (List.mem_cons_of_mem _ (List.mem_append_right _ ?_))
    exact List.mem_flatMap.2 ⟨3, by simp, List.mem_singleton_self _⟩
  refine ⟨built char c, h.handler char, ?_, ?_, ?_, ?_⟩
  · intro hin
    have hlt : 16 + c.ssidLength < 16 + c.ssidLength := hin _ hend
    omega
  · intro hin
    have := hin _ hend
    omega
  · intro hin
    have := hin _ hcrc
    omega
  · simp only [ssid_mem_log]
    refine ⟨fun hin => ?_, fun hle i hi => by omega⟩
    by_contra hlong
    have := hin 32 (by omega)
    omega

/-- The indices of a frame with an empty name. -/
theorem never_inRange_shortFrame :
    ∃ s, wifi_sniffer_packet_handler UInt8.toUInt32 (shortFrame 0) = some s ∧
      (¬ ∀ a ∈ s.log, a.InRange (shortFrame 0)) ∧
      (¬ ∀ i, .hashCode i ∈ s.log → i < 16 + (shortFrame 0).ssidLength) ∧
      (¬ ∀ j : ℤ, .payload j ∈ s.log → j < (shortFrame 0).sig_len - 24) ∧
      ((∀ i, .ssid i ∈ s.log → i < 32) ↔ (shortFrame 0).ssidLength ≤ 32) :=
  never_inRange UInt8.toUInt32 (shortFrame 0) (wellFormed_shortFrame 0).toIsProbe

/-- A well-formed frame with an empty name is not parsed inside the arrays either. -/
theorem not_inRange :
    ¬ ∀ (char : UInt8 → UInt32) (c : Input), c.IsProbe → 30 ≤ c.sig_len →
        ∃ s, wifi_sniffer_packet_handler char c = some s ∧ ∀ a ∈ s.log, a.InRange c := by
  intro hclaim
  have hprobe := (wellFormed_shortFrame 0).toIsProbe
  obtain ⟨s, hs, hin⟩ := hclaim UInt8.toUInt32 (shortFrame 0) hprobe (by decide)
  obtain rfl := Option.some.inj ((hprobe.handler UInt8.toUInt32).symm.trans hs)
  have hend : .hashCode 16 ∈ (built UInt8.toUInt32 (shortFrame 0)).log := by decide +kernel
  have hlt : 16 < 16 + (shortFrame 0).ssidLength := hin _ hend
  exact absurd hlt (by decide)

/-! ## The two receivers -/

/-- The frames agree in the three fields that are hashed. -/
structure SameFields (c₁ c₂ : Input) : Prop where
  seq_ctl : c₁.seq_ctl = c₂.seq_ctl
  addr2 : ∀ j < 6, c₁.addr2 j = c₂.addr2 j
  ssidLength : c₁.ssidLength = c₂.ssidLength
  ssid : ∀ i : ℕ, i < c₁.ssidLength → c₁.payload (i + 2) = c₂.payload (i + 2)

/-- The text of a frame. -/
def Input.hashText (c : Input) : List UInt8 :=
  PacketHandler.hashText c.seq_ctl c.addr2
    ((List.range c.ssidLength).map fun i : ℕ => c.payload (i + 2))

/-- The printed text depends on the address only. -/
theorem headText_congr {seq_ctl : ℕ} {addr₁ addr₂ : ℕ → UInt8} (h : ∀ j < 6, addr₁ j = addr₂ j) :
    headText seq_ctl addr₁ = headText seq_ctl addr₂ := by
  unfold headText
  congr 1
  exact List.flatMap_congr fun j hj => by rw [h j (List.mem_range.1 hj)]

/-- Frames that agree in the fields have the same text. -/
theorem SameFields.hashText_eq {c₁ c₂ : Input} (h : SameFields c₁ c₂) :
    c₁.hashText = c₂.hashText := by
  unfold Input.hashText PacketHandler.hashText
  rw [h.seq_ctl, headText_congr h.addr2, ← h.ssidLength]
  congr 1
  exact range_map_congr.2 h.ssid

/-- The array that is summed holds the text of the frame, whatever the stack held. -/
theorem hashText_built {c : Input} (hssid : c.ssidLength ≤ 32) (char : UInt8 → UInt32) :
    (List.range (16 + c.ssidLength)).map (built char c).hashCode = c.hashText ∧
      (built char c).data.hash = djb2 char c.hashText := by
  have hc := copied c ⟨c.stack_b, c.stack_hashCode, []⟩
  have htext : hashText ((copyFields c ⟨c.stack_b, c.stack_hashCode, []⟩).getB 5 2)
      (fun j => (copyFields c ⟨c.stack_b, c.stack_hashCode, []⟩).b (8 + j))
      ((List.range c.ssidLength).map fun i =>
        (copyFields c ⟨c.stack_b, c.stack_hashCode, []⟩).b (15 + i)) = c.hashText := by
    unfold Input.hashText hashText
    rw [hc.seq_ctl, headText_congr hc.addr]
    congr 1
    exact range_map_congr.2 fun i hi => hc.ssid i hi (lt_of_lt_of_le hi hssid)
  have hlen := copyFields_getB c
  refine ⟨?_, ?_⟩
  · rw [← htext, built, ← hlen]
    exact hashFields_hashCode char _
  · rw [← htext, built, ← hlen]
    exact hashFields_hash char _

/-- **One hash for all receivers.** On frames that agree in the sequence number, the sender and a
name of at most 32 bytes, all the bytes that are summed are the text of these fields, and the hashes
are equal, whatever the rest of the frames, the radios, the timers and the stacks are. -/
theorem hash_agrees (char : UInt8 → UInt32) (c₁ c₂ : Input) (h₁ : c₁.IsProbe) (h₂ : c₂.IsProbe)
    (hssid : c₁.ssidLength ≤ 32) (hsame : SameFields c₁ c₂) :
    ∃ s₁ s₂, wifi_sniffer_packet_handler char c₁ = some s₁ ∧
      wifi_sniffer_packet_handler char c₂ = some s₂ ∧
      (List.range (16 + c₁.ssidLength)).map s₁.hashCode = c₁.hashText ∧
      (List.range (16 + c₁.ssidLength)).map s₂.hashCode = c₁.hashText ∧
      s₁.data.hash = s₂.data.hash := by
  obtain ⟨htext₁, hhash₁⟩ := hashText_built hssid char
  obtain ⟨htext₂, hhash₂⟩ := hashText_built (hsame.ssidLength ▸ hssid) char
  refine ⟨built char c₁, built char c₂, h₁.handler char, h₂.handler char, htext₁, ?_, ?_⟩
  · rw [hsame.ssidLength, htext₂, hsame.hashText_eq]
  · rw [hhash₁, hhash₂, hsame.hashText_eq]

/-- Two receivers that differ in the check sequence, the channel and what the stack held. -/
theorem hash_agrees_shortFrame :
    ∃ s₁ s₂, wifi_sniffer_packet_handler UInt8.toUInt32 (shortFrame 0) = some s₁ ∧
      wifi_sniffer_packet_handler UInt8.toUInt32
        { shortFrame 1 with channel := 6, stack_hashCode := fun _ => 255 } = some s₂ ∧
      (List.range (16 + (shortFrame 0).ssidLength)).map s₁.hashCode = (shortFrame 0).hashText ∧
      (List.range (16 + (shortFrame 0).ssidLength)).map s₂.hashCode = (shortFrame 0).hashText ∧
      s₁.data.hash = s₂.data.hash :=
  hash_agrees UInt8.toUInt32 (shortFrame 0)
    { shortFrame 1 with channel := 6, stack_hashCode := fun _ => 255 }
    ⟨rfl, rfl⟩ ⟨rfl, rfl⟩ (by decide)
    { seq_ctl := rfl
      addr2 := by decide
      ssidLength := rfl
      ssid := fun i hi => absurd hi (Nat.not_lt_zero i) }

end PacketHandler

end DetectionSystem

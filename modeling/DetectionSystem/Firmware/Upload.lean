import DetectionSystem.Server.Database

/-!
# The bytes of an upload

What `tcp_client_timer_version` writes in an attempt that succeeds: the MAC address, the number of
packets as an offset character, and the memory of that many nodes of the list. The receiver copies
that memory into a `ProbePacket`, whose layout is that of `struct buffer`; `decode_image` says that
the copy has the same fields, whatever the padding holds.
-/

namespace DetectionSystem

/-- A sniffed packet: `struct buffer` in the firmware, `ProbePacket` in the server. -/
structure ProbePacket where
  timestamp : UInt32
  channel : UInt8
  seq_ctl : UInt16
  rssi : Int8
  addr : Bytes 6
  ssid_length : UInt8
  ssid : Bytes 32
  crc : Bytes 4
  hash : UInt32
deriving DecidableEq

/-- `PACKET_SIZE`. -/
def PACKET_SIZE : ℕ := 56

/-- The memory of a packet. The bit-fields fill the first eight bytes without a gap; one byte of
padding aligns the hash. -/
def ProbePacket.image (p : ProbePacket) (padding : UInt8) : List UInt8 :=
  (Bytes.ofNat 4 p.timestamp.toNat).1 ++ ((Bytes.ofNat 1 p.channel.toNat).1 ++
  ((Bytes.ofNat 2 p.seq_ctl.toNat).1 ++ ((Bytes.ofNat 1 p.rssi.toUInt8.toNat).1 ++
  (p.addr.1 ++ ((Bytes.ofNat 1 p.ssid_length.toNat).1 ++ (p.ssid.1 ++ (p.crc.1 ++
  ((Bytes.ofNat 1 padding.toNat).1 ++ (Bytes.ofNat 4 p.hash.toNat).1))))))))

/-- `memcpy(&pp, buf, PACKET_SIZE)`: the fields at their offsets. -/
def ProbePacket.decode (buf : List UInt8) : ProbePacket where
  timestamp := .ofNat (Bytes.read 4 buf 0).toNat
  channel := .ofNat (Bytes.read 1 buf 4).toNat
  seq_ctl := .ofNat (Bytes.read 2 buf 5).toNat
  rssi := (UInt8.ofNat (Bytes.read 1 buf 7).toNat).toInt8
  addr := Bytes.read 6 buf 8
  ssid_length := .ofNat (Bytes.read 1 buf 14).toNat
  ssid := Bytes.read 32 buf 15
  crc := Bytes.read 4 buf 47
  hash := .ofNat (Bytes.read 4 buf 52).toNat

/-- The image of a packet has a fixed size. -/
theorem ProbePacket.image_length (p : ProbePacket) (padding : UInt8) :
    (p.image padding).length = PACKET_SIZE := by
  simp only [image, List.length_append, Bytes.length_val, PACKET_SIZE]

/-- Copying the memory of a packet, with anything behind it, gives the packet. -/
theorem ProbePacket.decode_image (p : ProbePacket) (padding : UInt8) (rest : List UInt8) :
    decode (p.image padding ++ rest) = p := by
  simp [decode, image, Bytes.toNat_ofNat]

/-- A node of the list: a packet, and what the padding of its memory holds. -/
structure BufferNode where
  data : ProbePacket
  padding : UInt8
deriving DecidableEq

/-- The bytes `send_probe_buffer` writes: the first `sniff_count` nodes. -/
def send_probe_buffer (sniff_count : UInt8) (nodes : List BufferNode) : List UInt8 :=
  (nodes.take sniff_count.toNat).flatMap fun node => node.data.image node.padding

/-- The bytes `tcp_client_timer_version` writes. `sniff_count + '0'` is stored in a `char`. -/
def tcp_client_timer_version (mac_address : Mac) (sniff_count : UInt8) (nodes : List BufferNode) :
    List UInt8 :=
  mac_address.1 ++ (sniff_count + '0'.toUInt8) :: send_probe_buffer sniff_count nodes

end DetectionSystem

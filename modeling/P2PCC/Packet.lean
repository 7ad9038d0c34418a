import P2PCC.Lib.ByteOrder

namespace P2PCC.Packet

open P2PCC.Lib.ByteOrder

abbrev Byte := BitVec 8

structure Header where
  magicnum : BitVec 16
  version : Byte
  packetType : Byte
  headerLen : BitVec 16
  packetLen : BitVec 16
  seqNum : BitVec 32
  ackNum : BitVec 32
deriving DecidableEq, Repr

/-- `data` is the part of the C array that `packetLen` covers. `chunk` is
a ghost: the chunk a DATA packet was cut from, which the source only has as
a commented-out assignment to `ack_num`. No function reads it. -/
structure DataPacket where
  header : Header
  data : List Byte
  chunk : Option Int
deriving DecidableEq, Repr

structure SockAddr where
  sinFamily : Nat
  sinPort : BitVec 16
  sAddr : BitVec 32
deriving DecidableEq, Repr

def DataPacket.seq (p : DataPacket) : Int := p.header.seqNum.toInt

/-- Length of the payload as `recv_data` computes it, from two signed shorts. -/
def DataPacket.length (p : DataPacket) : Int :=
  p.header.packetLen.toInt - p.header.headerLen.toInt

/-- The four bytes `strcat` puts in front of the hashes: with a zero count
byte it copies nothing and the cleared packet stays as it is. -/
def padding (dataLength : Nat) : List Byte :=
  let count := BitVec.ofNat 8 (dataLength / 20)
  if count = 0 then [0, 0, 0, 0] else [count, 1, 1, 1]

def initPacket (e : Endian) (type : Byte) (data : Option (List Byte)) (length : Nat) : DataPacket :=
  let dataLength := if data.isSome then length else 0
  let hashes := type = 0 ∨ type = 1
  let body := (data.getD []).take length
  { header :=
      { magicnum := hton16 e 15441
        version := 1
        packetType := type
        headerLen := hton16 e 16
        packetLen := hton16 e (BitVec.ofNat 16 (if hashes then dataLength + 16 + 4 else dataLength + 16))
        seqNum := hton32 e 0
        ackNum := hton32 e 0 }
    data := if hashes then padding dataLength ++ body else body
    chunk := none }

/-- Bytes `1024 * index` to `1024 * index + 1023` of a chunk. -/
def slice (content : Int → Byte) (index : Int) : List Byte :=
  (List.range 1024).map (fun i : Nat => content (index * 1024 + i))

/-- The header conversions `handle_packet` starts with. -/
def DataPacket.ntoh (e : Endian) (p : DataPacket) : DataPacket :=
  { p with header :=
      { p.header with
        magicnum := hton16 e p.header.magicnum
        headerLen := hton16 e p.header.headerLen
        packetLen := hton16 e p.header.packetLen
        seqNum := hton32 e p.header.seqNum
        ackNum := hton32 e p.header.ackNum } }

/-- The conversion `process_inbound_udp` makes in place before it sends; the
other fields are in network order since `init_packet`. -/
def DataPacket.convert (e : Endian) (p : DataPacket) : DataPacket :=
  { p with header :=
      { p.header with
        seqNum := hton32 e p.header.seqNum
        ackNum := hton32 e p.header.ackNum } }

@[simp] theorem slice_length (content : Int → Byte) (index : Int) :
    (slice content index).length = 1024 := by
  simp [slice]

@[simp] theorem initPacket_packetType (e : Endian) (type : Byte) (data : Option (List Byte))
    (length : Nat) : (initPacket e type data length).header.packetType = type := rfl

@[simp] theorem initPacket_headerLen (e : Endian) (type : Byte) (data : Option (List Byte))
    (length : Nat) : (initPacket e type data length).header.headerLen = hton16 e 16 := rfl

theorem initPacket_plain (e : Endian) {type : Byte} (h0 : type ≠ 0) (h1 : type ≠ 1)
    (data : List Byte) (length : Nat) :
    (initPacket e type (some data) length).header.packetLen =
        hton16 e (BitVec.ofNat 16 (length + 16)) ∧
      (initPacket e type (some data) length).data = data.take length := by
  simp only [initPacket, h0, h1, or_self, ↓reduceIte, Option.isSome_some, Option.getD_some,
    and_self]

theorem toInt_ofInt32 {n : Int} (hl : -2147483648 ≤ n) (hu : n < 2147483648) :
    (BitVec.ofInt 32 n).toInt = n := by
  rw [BitVec.toInt_ofInt]
  exact Int.bmod_eq_of_le (by simpa using hl) (by simpa using hu)

theorem toInt_sub_one {a : BitVec 32} (h : 1 ≤ a.toInt) : (a - 1).toInt = a.toInt - 1 := by
  have hu := a.toInt_lt
  rw [BitVec.toInt_sub]
  exact Int.bmod_eq_of_le (by simp; omega) (by simp; omega)

@[simp] theorem ntoh_packetType (e : Endian) (p : DataPacket) :
    (p.ntoh e).header.packetType = p.header.packetType := rfl

@[simp] theorem ntoh_data (e : Endian) (p : DataPacket) : (p.ntoh e).data = p.data := rfl

@[simp] theorem convert_packetType (e : Endian) (p : DataPacket) :
    (p.convert e).header.packetType = p.header.packetType := rfl

theorem convert_or_packetType {e : Endian} {m p : DataPacket} (h : m = p.convert e ∨ m = p) :
    m.header.packetType = p.header.packetType := by
  obtain rfl | rfl := h
  · exact convert_packetType e p
  · rfl

@[simp] theorem convert_data (e : Endian) (p : DataPacket) : (p.convert e).data = p.data := rfl

@[simp] theorem convert_chunk (e : Endian) (p : DataPacket) : (p.convert e).chunk = p.chunk := rfl

@[simp] theorem ntoh_convert_seqNum (e : Endian) (p : DataPacket) :
    ((p.convert e).ntoh e).header.seqNum = p.header.seqNum := by
  simp [DataPacket.convert, DataPacket.ntoh]

@[simp] theorem ntoh_convert_ackNum (e : Endian) (p : DataPacket) :
    ((p.convert e).ntoh e).header.ackNum = p.header.ackNum := by
  simp [DataPacket.convert, DataPacket.ntoh]

@[simp] theorem ntoh_convert_length (e : Endian) (p : DataPacket) :
    ((p.convert e).ntoh e).length = (p.ntoh e).length := by
  simp only [DataPacket.length, DataPacket.convert, DataPacket.ntoh]

end P2PCC.Packet

import P2PCC.ChunkFile
import P2PCC.Manager
import P2PCC.Sender

namespace P2PCC.HandlePacket

open P2PCC.Lib.ByteOrder P2PCC.Packet P2PCC.ChunkFile P2PCC.Tracker P2PCC.Sender
open P2PCC.Receiver P2PCC.Manager

variable {R : Type} [Rate R]

/-- The globals of one process. `written` collects what went into output
files, with their names. -/
structure Peer (R : Type) where
  list : List (Data R)
  recvList : List RecvBuffer
  fileManager : FileManager
  pTracker : List PacketTracker
  outputFile : List Byte
  written : List (List Byte × List Byte)

def Peer.init : Peer R :=
  { list := [], recvList := [], fileManager := FileManager.empty, pTracker := [],
    outputFile := [], written := [] }

/-- What a step reads that the program never wrote: fields `init_datalist`
skips, the rest of `malloc`ed memory, locals without an initial value, the
memory behind a receive buffer, and the dummy head of the tracker. -/
structure Stray where
  data : Sender.Uninit
  heap : Int → Byte
  index : Int
  offset : Int
  past : Int → Int
  dummy : PacketTracker

/-- Bytes `4 + 20 * i` to `4 + 20 * i + 19` of the packet's data. -/
def hashAt (packet : DataPacket) (i : Nat) : List Byte :=
  (List.range 20).map (fun j => packet.data.getD (4 + 20 * i + j) 0)

/-- The count byte is a signed `char`, and the loops start from zero. -/
def hashCount (packet : DataPacket) : Nat := (packet.data.getD 0 0).toInt.toNat

def handleWhohas (e : Endian) (config : Config) (packet : DataPacket) : List DataPacket :=
  match readChunkfile config.hasChunkFile with
  | none => []
  | some localHas =>
    let found := ((List.range (hashCount packet)).map (hashAt packet)).filter
      (fun hash => findInLocalHas hash (localHas ++ [0]) = 1)
    if found = [] then [] else [initPacket e 1 (some found.flatten) found.flatten.length]

/-- One pass of the IHAVE loop. A node that is not in the list ends the
process, which no packet from a known peer does. -/
def ihaveStep (e : Endian) (config : Config) (now sockfd : Int) (packet : DataPacket)
    (st : Peer R × List DataPacket) (i : Nat) : Peer R × List DataPacket :=
  let hash := hashAt packet i
  let offset := getOffSetFromMasterChunkfile hash config
  match config.peers.find? (fun node => node.id = sockfd) with
  | none => st
  | some node =>
    if offset = -1 then st
    else
      match initRecvBuffer offset sockfd st.1.recvList with
      | (-1, _) => st
      | (_, recvList) =>
        let fm := { st.1.fileManager with
          alreadyUsed := (offset, node.addr) :: st.1.fileManager.alreadyUsed }
        ({ st.1 with recvList := recvList, fileManager := fm.touch offset now },
          initPacket e 2 (some hash) 20 :: st.2)

def handleIhave (e : Endian) (config : Config) (now sockfd : Int) (packet : DataPacket)
    (peer : Peer R) : Peer R × List DataPacket :=
  (List.range (hashCount packet)).foldl (ihaveStep e config now sockfd packet) (peer, [])

def handleGet (e : Endian) (config : Config) (stray : Stray) (sockfd : Int) (packet : DataPacket)
    (peer : Peer R) : Peer R × List DataPacket :=
  let hash := packet.data.take 20
  let content := getDataFromHash hash config stray.index stray.heap
  let offset := getOffSetFromMasterChunkfile hash config
  let sent := sendData e sockfd (initDatalist stray.data sockfd offset content peer.list)
  ({ peer with list := sent.1 }, sent.2)

def handleData (e : Endian) (now : Int) (stray : Stray) (sockfd : Int) (packet : DataPacket)
    (peer : Peer R) : Peer R × List DataPacket :=
  let (recvList, ret) := recvData e stray.past packet sockfd peer.recvList
  let offset := (ret.map Prod.snd).getD stray.offset
  let (_, fm, recvList, bytes) := checkFileManager (peer.fileManager.touch offset now) recvList
  ({ peer with
      recvList := recvList
      fileManager := fm
      written := (bytes.map (fun bs => (peer.outputFile, bs))).toList ++ peer.written },
    (ret.map Prod.fst).toList)

def handleAckPacket (e : Endian) (sockfd : Int) (packet : DataPacket) (peer : Peer R) :
    Peer R × List DataPacket :=
  let (list, pTracker, ret) :=
    handleAck e sockfd (packet.header.ackNum - 1).toInt peer.list peer.pTracker
  ({ peer with list := list, pTracker := pTracker }, ret)

def handlePacket (e : Endian) (config : Config) (now : Int) (stray : Stray) (packet : DataPacket)
    (sockfd : Int) (peer : Peer R) : Peer R × List DataPacket :=
  let packet := packet.ntoh e
  if packet.header.packetType = 0 then (peer, handleWhohas e config packet)
  else if packet.header.packetType = 1 then handleIhave e config now sockfd packet peer
  else if packet.header.packetType = 2 then handleGet e config stray sockfd packet peer
  else if packet.header.packetType = 3 then handleData e now stray sockfd packet peer
  else if packet.header.packetType = 4 then handleAckPacket e sockfd packet peer
  else (peer, [])

/-- The branches of `handle_packet`, by the type of the packet. -/
inductive Handled (e : Endian) (config : Config) (now : Int) (stray : Stray) (sockfd : Int)
    (packet : DataPacket) (peer : Peer R) : Byte → Peer R × List DataPacket → Prop
  | whohas : Handled e config now stray sockfd packet peer 0 (peer, handleWhohas e config packet)
  | ihave : Handled e config now stray sockfd packet peer 1
      (handleIhave e config now sockfd packet peer)
  | get : Handled e config now stray sockfd packet peer 2
      (handleGet e config stray sockfd packet peer)
  | data : Handled e config now stray sockfd packet peer 3
      (handleData e now stray sockfd packet peer)
  | ack : Handled e config now stray sockfd packet peer 4 (handleAckPacket e sockfd packet peer)
  | invalid (type : Byte) (h : type ∉ [0, 1, 2, 3, 4]) :
      Handled e config now stray sockfd packet peer type (peer, [])

theorem handlePacket_handled (e : Endian) (config : Config) (now : Int) (stray : Stray)
    (packet : DataPacket) (sockfd : Int) (peer : Peer R) :
    Handled e config now stray sockfd (packet.ntoh e) peer (packet.ntoh e).header.packetType
      (handlePacket e config now stray packet sockfd peer) := by
  unfold handlePacket
  dsimp only
  generalize (packet.ntoh e).header.packetType = type
  by_cases h0 : type = 0
  · subst h0
    exact .whohas
  · by_cases h1 : type = 1
    · subst h1
      exact .ihave
    · by_cases h2 : type = 2
      · subst h2
        exact .get
      · by_cases h3 : type = 3
        · subst h3
          exact .data
        · by_cases h4 : type = 4
          · subst h4
            exact .ack
          · rw [if_neg h0, if_neg h1, if_neg h2, if_neg h3, if_neg h4]
            exact .invalid type (by simp only [List.mem_cons, List.not_mem_nil, h0, h1, h2, h3, h4,
              or_self, not_false_eq_true])

section Branches

variable (e : Endian) (config : Config) (now : Int) (stray : Stray) {packet : DataPacket}
  (sockfd : Int) (peer : Peer R)

theorem handlePacket_ihave (h : packet.header.packetType = 1) :
    handlePacket e config now stray packet sockfd peer =
      handleIhave e config now sockfd (packet.ntoh e) peer := by
  simp [handlePacket, h]

theorem handlePacket_get (h : packet.header.packetType = 2) :
    handlePacket e config now stray packet sockfd peer =
      handleGet e config stray sockfd (packet.ntoh e) peer := by
  simp [handlePacket, h]

theorem handlePacket_data (h : packet.header.packetType = 3) :
    handlePacket e config now stray packet sockfd peer =
      handleData e now stray sockfd (packet.ntoh e) peer := by
  simp [handlePacket, h]

theorem handlePacket_ack (h : packet.header.packetType = 4) :
    handlePacket e config now stray packet sockfd peer =
      handleAckPacket e sockfd (packet.ntoh e) peer := by
  simp [handlePacket, h]

end Branches

end P2PCC.HandlePacket

import Mathlib.Data.List.TakeWhile
import P2PCC.HandlePacket

namespace P2PCC.Peer

open P2PCC.Lib.ByteOrder P2PCC.Packet P2PCC.ChunkFile P2PCC.Tracker P2PCC.Sender
open P2PCC.Receiver P2PCC.Manager P2PCC.HandlePacket

variable {R : Type} [Rate R]

def sameHeader (t : PacketTracker) (packet : DataPacket) : Bool :=
  t.packet.header.seqNum = packet.header.seqNum && t.packet.header.ackNum = packet.header.ackNum

/-- One pass of the sending loop of `process_inbound_udp`: the tracker, and
what has been handed to `spiffy_sendto`. -/
def sendResponse (e : Endian) (now : Int) (dummy : PacketTracker) (targetId : Int)
    (fromAddr : SockAddr) (st : List PacketTracker × List (SockAddr × DataPacket))
    (packet : DataPacket) : List PacketTracker × List (SockAddr × DataPacket) :=
  let find := st.1.any (fun t => sameHeader t packet && (timerExpired now t).1 = -1)
  let pTracker := st.1.map (fun t => if sameHeader t packet then (timerExpired now t).2 else t)
  if find = false then
    let sent := packet.convert e
    if packet.header.packetType = 3 then
      (createTimer now dummy pTracker packet.seq sent targetId fromAddr, st.2 ++ [(fromAddr, sent)])
    else (pTracker, st.2 ++ [(fromAddr, sent)])
  else if packet.header.packetType = 3 then (pTracker, st.2)
  else (pTracker, st.2 ++ [(fromAddr, packet)])

def sendResponses (e : Endian) (now : Int) (dummy : PacketTracker) (targetId : Int)
    (fromAddr : SockAddr) (responseList : List DataPacket) (pTracker : List PacketTracker) :
    List PacketTracker × List (SockAddr × DataPacket) :=
  responseList.reverse.foldl (sendResponse e now dummy targetId fromAddr) (pTracker, [])

def processInboundUdp (e : Endian) (config : Config) (now : Int) (stray : Stray)
    (fromAddr : SockAddr) (packet : DataPacket) (peer : Peer R) :
    Peer R × List (SockAddr × DataPacket) :=
  match config.peers.find? (fun node => node.addr = fromAddr) with
  | none => (peer, [])
  | some node =>
    if node.id = -1 then (peer, [])
    else
      let (peer, responseList) := handlePacket e config now stray packet node.id peer
      let (pTracker, sent) :=
        sendResponses e now stray.dummy node.id fromAddr responseList peer.pTracker
      ({ peer with pTracker := pTracker }, sent)

/-- Everybody but the process itself. -/
def broadcast (config : Config) (packets : List DataPacket) : List (SockAddr × DataPacket) :=
  packets.flatMap (fun packet =>
    (config.peers.filter (fun node => node.id ≠ config.identity)).map
      (fun node => (node.addr, packet)))

/-- The first reading loop of `generate_WHOHAS`: the number of lines counted,
and the hashes not yet in a packet with the packets made, unless a token is
too long. -/
def whohasLoop (e : Endian) : List ChunkLine → Nat → List Byte → List DataPacket →
    Nat × Option (List Byte × List DataPacket)
  | [], n, data, ret => (n, some (data, ret))
  | l :: ls, n, data, ret =>
    if l.token.length > 40 then (n, none)
    else if (data ++ l.hash).length ≥ 1000 then
      whohasLoop e ls (n + 1) [] (initPacket e 0 (some (data ++ l.hash)) (data ++ l.hash).length :: ret)
    else whohasLoop e ls (n + 1) (data ++ l.hash) ret

/-- The loop counts the lines in front of the first token that is too long,
and fails when there is one. -/
theorem whohasLoop_counted (e : Endian) (ls : List ChunkLine) (n : Nat) (data : List Byte)
    (ret : List DataPacket) :
    (whohasLoop e ls n data ret).1 =
        n + (ls.takeWhile (fun l => l.token.length ≤ 40)).length ∧
      ((whohasLoop e ls n data ret).2 = none ↔ ∃ l ∈ ls, 40 < l.token.length) := by
  induction ls generalizing n data ret with
  | nil => simp [whohasLoop]
  | cons l ls ih =>
    rw [whohasLoop]
    by_cases hl : l.token.length > 40
    · rw [if_pos hl, List.takeWhile_cons_of_neg (by simpa using hl)]
      exact ⟨rfl, iff_of_true rfl ⟨l, List.mem_cons_self, hl⟩⟩
    · rw [if_neg hl, List.takeWhile_cons_of_pos (by simpa using hl), List.length_cons]
      have hlater : (∃ l' ∈ l :: ls, 40 < l'.token.length) ↔ ∃ l' ∈ ls, 40 < l'.token.length := by
        rw [List.exists_mem_cons_iff]
        exact or_iff_right hl
      rw [hlater]
      split
      · obtain ⟨hcount, hfails⟩ := ih (n + 1) []
          (initPacket e 0 (some (data ++ l.hash)) (data ++ l.hash).length :: ret)
        exact ⟨by omega, hfails⟩
      · obtain ⟨hcount, hfails⟩ := ih (n + 1) (data ++ l.hash) ret
        exact ⟨by omega, hfails⟩

theorem whohasLoop_read (e : Endian) {ls : List ChunkLine} (h : ∀ l ∈ ls, l.token.length ≤ 40)
    (n : Nat) (data : List Byte) (ret : List DataPacket) :
    ∃ rest, whohasLoop e ls n data ret = (n + ls.length, some rest) := by
  obtain ⟨hcount, hfails⟩ := whohasLoop_counted e ls n data ret
  have hall : ls.takeWhile (fun l => l.token.length ≤ 40) = ls :=
    List.takeWhile_eq_self_iff.mpr fun l hl => decide_eq_true (h l hl)
  rw [hall] at hcount
  cases hloop : (whohasLoop e ls n data ret).2 with
  | none =>
    obtain ⟨l, hl, hlong⟩ := hfails.mp hloop
    exact absurd (h l hl) (by omega)
  | some rest => exact ⟨rest, Prod.ext hcount hloop⟩

theorem whohasLoop_whole (e : Endian) (ls : List ChunkLine) (n : Nat) (data : List Byte)
    (ret : List DataPacket) (r : List Byte × List DataPacket)
    (h : (whohasLoop e ls n data ret).2 = some r) :
    (whohasLoop e ls n data ret).1 = n + ls.length := by
  have hshort : ∀ l ∈ ls, l.token.length ≤ 40 := by
    intro l hl
    by_contra hlong
    rw [(whohasLoop_counted e ls n data ret).2.mpr ⟨l, hl, not_le.mp hlong⟩] at h
    cases h
  obtain ⟨rest, hloop⟩ := whohasLoop_read e hshort n data ret
  rw [hloop]

/-- The fields are written before the file is opened, and the arrays only
when it has been read. The second loop does not clear its array. -/
def generateWhohas (e : Endian) (config : Config) (now : Int)
    (chunkfile : Option (List ChunkLine)) (outputfile : List Byte) (peer : Peer R) :
    Peer R × List DataPacket :=
  let fm := { peer.fileManager with init := true, chunkCount := 0, top := 0, alreadyUsed := [] }
  let peer := { peer with outputFile := outputfile.take 120 }
  match chunkfile with
  | none => ({ peer with fileManager := fm }, [])
  | some ls =>
    match whohasLoop e ls 0 [] [] with
    | (n, none) => ({ peer with fileManager := { fm with chunkCount := n } }, [])
    | (n, some (data, ret)) =>
      ({ peer with fileManager := { fm with
          chunkCount := n
          offset := (uncleared [] ls).map (fun l => getOffSetFromMasterChunkfile l.hash config)
          top := ls.length
          timer := List.replicate n now } },
        initPacket e 0 (some data) data.length :: ret)

def regenerateStep (e : Endian) (config : Config) (now : Int)
    (st : FileManager × List RecvBuffer × List DataPacket) (i : Nat) :
    FileManager × List RecvBuffer × List DataPacket :=
  let offset := st.1.offset.getD i 0
  if isBufferFull offset st.2.1 = 1 then st
  else if now - st.1.timer.getD i 0 > 10 then
    ({ st.1 with timer := st.1.timer.set i now }, releaseBuffer offset st.2.1,
      initPacket e 0 (getHashFromMasterChunkfile offset config) 20 :: st.2.2)
  else st

def regenerateWhohas (e : Endian) (config : Config) (now : Int) (peer : Peer R) :
    Peer R × List DataPacket :=
  if peer.fileManager.init = false then (peer, [])
  else
    let (fm, recvList, ret) := (List.range peer.fileManager.chunkCount).foldl
      (regenerateStep e config now) (peer.fileManager, peer.recvList, [])
    ({ peer with fileManager := fm, recvList := recvList }, ret)

/-- The loop of `peer_run` over the tracker. -/
def retransmit (e : Endian) (now : Int) : List PacketTracker → List (Data R) →
    List (Data R) × List PacketTracker × List (SockAddr × DataPacket)
  | [], list => (list, [], [])
  | t :: ts, list =>
    match timerExpired now t with
    | (-1, t) =>
      if t.seq = -441 then
        let (list, ts, sent) := retransmit e now ts list
        (list, t :: ts, sent)
      else
        let packet := { t.packet with
          header := { t.packet.header with seqNum := hton32 e (BitVec.ofInt 32 t.seq) } }
        let (list, ts, sent) :=
          retransmit e now ts (processPacketLoss packet.header.ackNum.toInt list)
        (list, { t with packet := packet, sendTime := now } :: ts, (t.fromAddr, packet) :: sent)
    | (_, t) =>
      let (list, ts, sent) := retransmit e now ts list
      (list, t :: ts, sent)

/-- What `peer_run` does after it has served its descriptors. -/
def peerTick (e : Endian) (config : Config) (now : Int) (peer : Peer R) :
    Peer R × List (SockAddr × DataPacket) :=
  let (peer, potentialWhohas) := regenerateWhohas e config now peer
  let (list, pTracker, sent) := retransmit e now peer.pTracker peer.list
  ({ peer with list := list, pTracker := pTracker },
    broadcast config potentialWhohas.reverse ++ sent)

inductive Event where
  | inbound (now : Int) (stray : Stray) (fromAddr : SockAddr) (packet : DataPacket)
  | command (now : Int) (chunkfile : Option (List ChunkLine)) (outputfile : List Byte)
  | tick (now : Int)

def act (e : Endian) (config : Config) (peer : Peer R) : Event →
    Peer R × List (SockAddr × DataPacket)
  | .inbound now stray fromAddr packet =>
    processInboundUdp e config now stray fromAddr packet peer
  | .command now chunkfile outputfile =>
    let (peer, whohas) := generateWhohas e config now chunkfile outputfile peer
    (peer, broadcast config whohas.reverse)
  | .tick now => peerTick e config now peer

def step (e : Endian) (config : Config) (peer : Peer R) (event : Event) : Peer R :=
  (act e config peer event).1

end P2PCC.Peer

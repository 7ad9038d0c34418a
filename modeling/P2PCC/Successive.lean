import P2PCC.TwoPeers
import P2PCC.Window

namespace P2PCC.Successive

open P2PCC.Lib.ByteOrder P2PCC.Lib.Runs P2PCC.Lib.FirstMatch P2PCC.Lib.Channel P2PCC.Packet
open P2PCC.ChunkFile P2PCC.Tracker P2PCC.Sender P2PCC.Receiver P2PCC.Manager P2PCC.HandlePacket
open P2PCC.Peer P2PCC.Receiving P2PCC.Tracking P2PCC.Window P2PCC.TwoPeers

variable {R : Type}

/-- The memory of a transfer holds the chunk with an offset, as far as the
content file has it. -/
def Agrees (config : Config) (offset : Int) (content : Int → Byte) : Prop :=
  ∀ (n : Nat) v, chunkByte config offset n = some v → content n = v

/-- For every hash for which `get_off_set_from_master_chunkfile` finds the
offset, `get_data_from_hash` finds it too. It clears the array that the other
search does not clear. -/
def Unmistaken (config : Config) (offset : Int) : Prop :=
  ∀ hash index, getOffSetFromMasterChunkfile hash config = offset →
    dataIndex hash (config.chunkFile.getD []) index = offset

/-- A DATA packet that holds the slice its number says of the chunk it was
cut from. -/
structure Labelled (e : Endian) (config : Config) (p : DataPacket) : Prop where
  length : (p.ntoh e).length = 1024
  source : ∃ offset content, p.chunk = some offset ∧
    (Unmistaken config offset → Seekable offset → Agrees config offset content) ∧
    p.data = slice content ((p.ntoh e).seq - 1)

/-- A transfer of the chunk its offset names. -/
structure Sourced (config : Config) (data : Data R) : Prop where
  unsent : Unsent data
  agrees : Unmistaken config data.offset → Seekable data.offset →
    Agrees config data.offset data.content

/-- A process whose transfers and tracked packets are what they claim. -/
structure Honest (e : Endian) (config : Config) (peer : Peer R) : Prop where
  sourced : ∀ data ∈ peer.list, Sourced config data
  tracked : ∀ t ∈ peer.pTracker, t.seq ≠ -441 → Labelled e config (resend e t)

theorem dataIndex_found (hash : List Byte) (ls : List ChunkLine) (index : Int) {l : ChunkLine}
    (h : ls.find? (fun l => sameHash l.hash hash) = some l) : dataIndex hash ls index = l.index := by
  induction ls generalizing index with
  | nil => simp at h
  | cons a ls ih =>
    cases ha : sameHash a.hash hash with
    | true =>
      simp only [List.find?_cons, ha, Option.some.injEq] at h
      rw [dataIndex, if_pos ha, h]
    | false =>
      simp only [List.find?_cons, ha] at h
      rw [dataIndex, if_neg (by simp [ha]), ih a.index h]

theorem getDataFromHash_found (hash : List Byte) (config : Config) (index : Int)
    (heap : Int → Byte) (n : Nat) :
    getDataFromHash hash config index heap n =
      config.content[(seekPosition (dataIndex hash (config.chunkFile.getD []) index)).toNat +
        n]?.getD (heap n) := by
  rw [getDataFromHash]
  dsimp only
  rw [if_neg (by omega), Int.toNat_natCast]

theorem getDataFromHash_agrees (hash : List Byte) (config : Config) (index : Int)
    (heap : Int → Byte) (h : Unmistaken config (getOffSetFromMasterChunkfile hash config))
    (hs : Seekable (getOffSetFromMasterChunkfile hash config)) :
    Agrees config (getOffSetFromMasterChunkfile hash config)
      (getDataFromHash hash config index heap) := by
  intro n v hv
  rw [chunkByte, ← hs] at hv
  rw [getDataFromHash_found hash config index heap, h hash index rfl, hv, Option.getD_some]

theorem unmistaken_full {config : Config} {lines : List ChunkLine}
    (hconfig : config.chunkFile = some lines) (h : ∀ l ∈ lines, l.token.length = 40) {offset : Int}
    (hne : offset ≠ -1) : Unmistaken config offset := by
  rintro hash index rfl
  rw [getOffSet_full hconfig h] at hne ⊢
  rw [hconfig, Option.getD_some]
  cases hl : lines.find? (fun l => sameHash l.hash hash) with
  | none => simp [hl] at hne
  | some l => exact dataIndex_found hash lines index hl

section Sender

variable [Rate R] {e : Endian} {config : Config} {data : Data R}

omit [Rate R] in
theorem labelled_dataPacket
    (h : Unmistaken config data.offset → Seekable data.offset →
      Agrees config data.offset data.content)
    {index : Int} (hseq : (dataPacket e data index).seq = index + 1) :
    Labelled e config ((dataPacket e data index).convert e) := by
  refine ⟨?_, data.offset, data.content, ?_, h, ?_⟩
  · rw [ntoh_convert_length, dataPacket_length]
  · rw [convert_chunk, dataPacket_chunk]
  · rw [DataPacket.seq] at hseq ⊢
    rw [convert_data, dataPacket_data, ntoh_convert_seqNum, hseq, add_sub_cancel_right]

theorem Sourced.answered {ackNumber : Int} {after : Data R} {before tracker : List PacketTracker}
    {packets : List DataPacket} (h : Sourced config data)
    (ha : Answered e ackNumber data before after tracker packets) : Sourced config after := by
  obtain ⟨_, hoffset, hcontent⟩ := ha.identity
  refine ⟨answered_unsent h.unsent ha, ?_⟩
  rw [hoffset, hcontent]
  exact h.agrees

theorem sourced_newElement (uninit : Uninit) (socket : Int) (hash : List Byte) (index : Int)
    (heap : Int → Byte) :
    Sourced config (newElement uninit socket (getOffSetFromMasterChunkfile hash config)
      (getDataFromHash hash config index heap) : Data R) :=
  ⟨unsent_newElement _ _ _ _, getDataFromHash_agrees hash config index heap⟩

theorem honest_handlePacket (now : Int) (stray : Stray) (packet : DataPacket) (sockfd : Int)
    {peer : Peer R} (h : Honest e config peer) :
    (∀ data ∈ (handlePacket e config now stray packet sockfd peer).1.list, Sourced config data) ∧
      ∀ p ∈ (handlePacket e config now stray packet sockfd peer).2, p.header.packetType = 3 →
        Labelled e config (p.convert e) := by
  have hp := handlePacket_handled e config now stray packet sockfd peer
  have hreply := handlePacket_replyType e config now stray packet sockfd peer
  rw [← ntoh_packetType e packet] at hreply
  generalize handlePacket e config now stray packet sockfd peer = handled at hp hreply
  generalize (packet.ntoh e).header.packetType = type at hp hreply
  cases hp with
  | whohas => exact ⟨h.sourced, fun p hm h3 => absurd (h3.symm.trans (hreply p hm)) (by decide)⟩
  | ihave =>
    rw [(handleIhave_sending e config now sockfd _ peer).2.1]
    exact ⟨h.sourced, fun p hm h3 => absurd (h3.symm.trans (hreply p hm)) (by decide)⟩
  | get =>
    have hnew : Sourced config (newElement stray.data sockfd _ _ : Data R) :=
      sourced_newElement stray.data sockfd ((packet.ntoh e).data.take 20) stray.index stray.heap
    have hsent := sendData_initDatalist (R := R) e stray.data sockfd
      (getOffSetFromMasterChunkfile ((packet.ntoh e).data.take 20) config)
      (getDataFromHash ((packet.ntoh e).data.take 20) config stray.index stray.heap) peer.list
    dsimp only [handleGet]
    rw [hsent]
    refine ⟨List.forall_mem_cons.mpr ⟨⟨hnew.unsent.sendMore 1 ?_, hnew.agrees⟩, h.sourced⟩, ?_⟩
    · simp [newElement]
    · intro p hm _
      rw [List.mem_singleton.mp hm]
      exact labelled_dataPacket hnew.agrees (dataPacket_seq e _ 0 (by omega) (by omega))
  | data => exact ⟨h.sourced, fun p hm h3 => absurd (h3.symm.trans (hreply p hm)) (by decide)⟩
  | ack =>
    dsimp only [handleAckPacket]
    cases hd : getDataBySocket sockfd peer.list with
    | none =>
      rw [handleAck, hd]
      exact ⟨h.sourced, fun p hm => absurd hm List.not_mem_nil⟩
    | some data =>
      have hs := h.sourced data (List.mem_of_find?_eq_some hd)
      have hans := data.answer_answered e ((packet.ntoh e).header.ackNum - 1).toInt peer.pTracker
      have hlow : -2147483648 ≤ ((packet.ntoh e).header.ackNum - 1).toInt := BitVec.le_toInt _
      rw [handleAck_eq e _ peer.pTracker hd]
      refine ⟨forall_modifyFirst h.sourced fun _ _ => hs.answered hans, ?_⟩
      intro p hm _
      obtain ⟨k, _, hseq, rfl⟩ := answered_sends hs.unsent hlow hans p hm
      exact labelled_dataPacket hs.agrees (by rw [hseq, sub_add_cancel])
  | invalid type hn => exact ⟨h.sourced, fun p hm => absurd hm List.not_mem_nil⟩

theorem sourced_processPacketLoss (socket : Int) (list : List (Data R))
    (h : ∀ data ∈ list, Sourced config data) :
    ∀ data ∈ processPacketLoss socket list, Sourced config data := by
  apply forall_modifyFirst h
  intro data hd
  have hs := h data (List.mem_of_find?_eq_some hd)
  exact ⟨hs.unsent.agree (packetLoss_agree data), hs.agrees⟩

/-- An event keeps a process honest, and what leaves it is labelled. -/
theorem honest_act (event : Event) {peer : Peer R} (h : Honest e config peer) :
    Honest e config (act e config peer event).1 ∧
      ∀ m ∈ (act e config peer event).2, m.2.header.packetType = 3 → Labelled e config m.2 := by
  have htracked : ∀ t ∈ (step e config peer event).pTracker, t.seq ≠ -441 →
      Labelled e config (resend e t) := by
    refine step_tracker (Q := fun t => t.seq ≠ -441 → Labelled e config (resend e t))
      (fun t _ _ ht => ht) e config (fun _ hs => absurd rfl hs) (fun t _ ht => ht) peer event ?_
      h.tracked
    intro now stray fromAddr packet d _ _ p hp h3 sendTime expireTime _
    rw [resend_new]
    exact (honest_handlePacket now stray packet d.sockfd h).2 p hp h3
  have hbroadcast : ∀ packets : List DataPacket, (∀ p ∈ packets, p.header.packetType = 0) →
      ∀ m ∈ broadcast config packets.reverse, m.2.header.packetType = 3 → Labelled e config m.2 := by
    intro packets hpackets m hm h3
    exact absurd (h3.symm.trans (broadcast_type hpackets m hm)) (by decide)
  cases event with
  | command now chunkfile outputfile =>
    refine ⟨⟨?_, htracked⟩, hbroadcast _ (generateWhohas_type e config now chunkfile outputfile peer)⟩
    dsimp only [act]
    rw [(generateWhohas_sending e config now chunkfile outputfile peer).2]
    exact h.sourced
  | tick now =>
    obtain ⟨htracker, hlist⟩ := regenerateWhohas_sending e config now peer
    refine ⟨⟨?_, htracked⟩, ?_⟩
    · dsimp only [act, peerTick]
      rw [htracker, hlist]
      exact retransmit_list (P := fun l => ∀ data ∈ l, Sourced config data)
        (fun socket l hl => sourced_processPacketLoss socket l hl) e now _ _ h.sourced
    · dsimp only [act, peerTick]
      rw [htracker, hlist]
      intro m hm h3
      obtain hm | hm := List.mem_append.mp hm
      · exact hbroadcast _ (regenerateWhohas_type e config now peer) m hm h3
      · obtain ⟨t, ht, hs, rfl⟩ := retransmit_sent e now peer.pTracker peer.list m hm
        exact h.tracked t ht hs
  | inbound now stray fromAddr packet =>
    cases hd : delivery e config (.inbound now stray fromAddr packet) with
    | none =>
      dsimp only [act]
      rw [processInboundUdp_none hd]
      exact ⟨h, fun m hm => absurd hm List.not_mem_nil⟩
    | some d =>
      obtain ⟨hlist, hreply⟩ := honest_handlePacket now stray packet d.sockfd h
      refine ⟨⟨?_, htracked⟩, ?_⟩
      · dsimp only [act]
        rw [processInboundUdp_some hd]
        exact hlist
      · intro m hm h3
        obtain ⟨p, hp, _, hform, hdata⟩ := inbound_sent e hd peer m hm
        have hp3 : p.header.packetType = 3 := (convert_or_packetType hform).symm.trans h3
        rw [hdata hp3]
        exact hreply p hp hp3

end Sender

/-- Every payload of a buffer is the slice of its chunk that its slot is
for. -/
structure Right (config : Config) (b : RecvBuffer) : Prop where
  offset : b.offset ≠ -1
  slot : ∀ i, 0 ≤ i → i < 512 → (b.chunks i).recved = true → (b.chunks i).length = 1024 ∧
    ∃ content, Agrees config b.offset content ∧ (b.chunks i).content = slice content i

/-- A DATA packet whose slot is still empty was cut from the chunk that the
first buffer of its sender is for, and the sender finds and can seek that
chunk. -/
def CurrentChunk (link : Link) (s : System R) : Move → Prop
  | .deliverToReceiver i _ _ => ∀ p rest, handOver i s.toReceiver = some (p, rest) →
      p.header.packetType = 3 → ∀ b,
      s.receiver.recvList.find? (fun b => b.socket = link.senderId) = some b →
      1 ≤ (p.ntoh link.endian).seq → (p.ntoh link.endian).seq ≤ 512 →
      (b.chunks ((p.ntoh link.endian).seq - 1)).recved = false →
      p.chunk = some b.offset ∧ Unmistaken link.sender b.offset ∧ Seekable b.offset
  | _ => True

section Receiver

variable {e : Endian} {config : Config} {b : RecvBuffer} {p : DataPacket}

theorem Right.recv (h : Right config b) (past : Int → Int) (hp : Labelled e config p)
    (hchunk : 1 ≤ (p.ntoh e).seq → (p.ntoh e).seq ≤ 512 →
      (b.chunks ((p.ntoh e).seq - 1)).recved = false →
      p.chunk = some b.offset ∧ Unmistaken config b.offset ∧ Seekable b.offset) :
    Right config (b.recv past (p.ntoh e)) := by
  refine ⟨by rw [recv_offset]; exact h.offset, ?_⟩
  intro i hi hn hr
  rw [recv_offset]
  by_cases hold : i ≠ (p.ntoh e).seq - 1 ∨ (b.chunks i).recved = true
  · rw [(recv_slot_old b past _ i hold).1, (recv_slot_old b past _ i hold).2]
    rw [recv_recved_old b past _ i hold] at hr
    exact h.slot i hi hn hr
  · rw [not_or, not_not, Bool.not_eq_true] at hold
    obtain ⟨rfl, hempty⟩ := hold
    obtain ⟨hlength, hcontent⟩ := recv_slot_new b past (p.ntoh e) hempty
    obtain ⟨offset, content, ho, hagrees, hdata⟩ := hp.source
    obtain ⟨hsame, hfinds, hseek⟩ := hchunk (by omega) (by omega) hempty
    obtain rfl := Option.some.inj (ho.symm.trans hsame)
    refine ⟨hlength.trans hp.length, content, hagrees hfinds hseek, ?_⟩
    rw [hcontent, hp.length, ntoh_data, hdata, show (1024 : Int).toNat = 1024 from rfl]
    apply List.ext_getElem
    · simp
    · intro j hj hj'
      simp only [List.length_map, List.length_range] at hj
      rw [List.getElem_map, List.getElem_range, List.getD_eq_getElem _ _ (by simpa using hj)]

theorem right_recvData (past : Int → Int) (sockfd : Int) (recvList : List RecvBuffer)
    (h : ∀ b ∈ recvList, Right config b) (hp : Labelled e config p)
    (hchunk : ∀ b, recvList.find? (fun b => b.socket = sockfd) = some b →
      1 ≤ (p.ntoh e).seq → (p.ntoh e).seq ≤ 512 →
      (b.chunks ((p.ntoh e).seq - 1)).recved = false →
      p.chunk = some b.offset ∧ Unmistaken config b.offset ∧ Seekable b.offset) :
    ∀ b ∈ (recvData e past (p.ntoh e) sockfd recvList).1, Right config b := by
  apply recvData_forall e past (p.ntoh e) sockfd h
  exact fun b hfind _ hb => hb.recv past hp (hchunk b hfind)

theorem right_init (offset socket : Int) (recvList : List RecvBuffer) (ho : offset ≠ -1)
    (h : ∀ b ∈ recvList, Right config b) :
    ∀ b ∈ (initRecvBuffer offset socket recvList).2, Right config b := by
  apply initRecvBuffer_forall offset socket h
  exact ⟨ho, fun i _ _ hr => by simp [emptyChunk] at hr⟩

variable [Rate R]

theorem right_step (receiver : Config) {peer : Peer R} (event : Event)
    (h : ∀ b ∈ peer.recvList, Right config b)
    (hdata : ∀ d, delivery e receiver event = some d → d.packet.header.packetType = 3 →
      ∀ b ∈ (recvData e d.stray.past d.packet d.sockfd peer.recvList).1, Right config b) :
    ∀ b ∈ (step e receiver peer event).recvList, Right config b := by
  obtain ⟨next, hr, hsame⟩ := step_received e receiver peer event
  rw [hsame.recvList]
  exact hr.recvList_induction right_init
    (fun o l hl => releaseBuffer_forall (fun _ hb => ⟨hb.offset, hb.slot⟩) o l hl) hdata h

end Receiver

/-- Everything the sender holds or has in flight is labelled, and every
buffer is right so far. -/
structure Clean (link : Link) (s : System R) : Prop where
  sender : Honest link.endian link.sender s.sender
  toReceiver : ∀ p ∈ s.toReceiver, p.header.packetType = 3 →
    Labelled link.endian link.sender p
  buffers : ∀ b ∈ s.receiver.recvList, Right link.sender b

/-- The link carries every packet. -/
def everything (_ : DataPacket) : Bool := true

def idle : System R := ⟨Peer.init, Peer.init, [], [], []⟩

section Runs

variable [Rate R] {link : Link} {s : System R}

theorem clean_senderActs (h : Clean link s) (event : Event) :
    Clean link (link.senderActs everything s event) := by
  obtain ⟨hsender, hout⟩ := honest_act event h.sender
  refine ⟨hsender, ?_, h.buffers⟩
  intro p hp
  obtain hp | hp := List.mem_append.mp hp
  · exact h.toReceiver p hp
  · exact hout _ (mem_sentTo.mp hp).1

theorem clean_receiverActs (h : Clean link s) (event : Event)
    (hdata : ∀ d, delivery link.endian link.receiver event = some d →
      d.packet.header.packetType = 3 →
      ∀ b ∈ (recvData link.endian d.stray.past d.packet d.sockfd s.receiver.recvList).1,
        Right link.sender b) : Clean link (link.receiverActs everything s event) :=
  ⟨h.sender, h.toReceiver, right_step link.receiver event h.buffers hdata⟩

theorem clean_step (h : Clean link s) (move : Move) (hc : CurrentChunk link s move) :
    Clean link (link.step everything s move) := by
  cases move with
  | faultToReceiver fault =>
    exact ⟨h.sender, fun p hp => h.toReceiver p (Fault.mem_of_mem_apply hp), h.buffers⟩
  | faultToSender fault => exact ⟨h.sender, h.toReceiver, h.buffers⟩
  | deliverToReceiver i now stray =>
    cases ht : handOver i s.toReceiver with
    | none =>
      rw [Link.step, ht]
      exact h
    | some taken =>
      obtain ⟨p, rest⟩ := taken
      obtain ⟨hp, hrest⟩ := handOver_mem ht
      have hleft : Clean link { s with toReceiver := rest } :=
        ⟨h.sender, fun q hq => h.toReceiver q (hrest q hq), h.buffers⟩
      rw [Link.step, ht]
      apply clean_receiverActs hleft
      intro d hd h3
      obtain rfl := Option.some.inj ((link.delivery_receiver now stray p).symm.trans hd)
      exact right_recvData stray.past link.senderId s.receiver.recvList h.buffers
        (h.toReceiver p hp h3) (hc p rest ht h3)
  | deliverToSender i now stray =>
    cases ht : handOver i s.toSender with
    | none =>
      rw [Link.step, ht]
      exact h
    | some taken =>
      obtain ⟨p, rest⟩ := taken
      have hleft : Clean link { s with toSender := rest } := ⟨h.sender, h.toReceiver, h.buffers⟩
      rw [Link.step, ht]
      exact clean_senderActs hleft _
  | tickReceiver now => exact clean_receiverActs h _ fun d hd => by simp [delivery] at hd
  | tickSender now => exact clean_senderActs h _
  | request now chunkfile outputfile =>
    exact clean_receiverActs h _ fun d hd => by simp [delivery] at hd

/-- Every stored payload consists of the bytes of the buffer's chunk at the
place of its slot. -/
def Integrity (link : Link) (s : System R) : Prop :=
  ∀ b ∈ s.receiver.recvList, ∀ i, 0 ≤ i → i < 512 → (b.chunks i).recved = true →
    (b.chunks i).content.length = 1024 ∧ ∀ j : Nat, j < 1024 → ∀ v,
      chunkByte link.sender b.offset (i.toNat * 1024 + j) = some v →
      (b.chunks i).content[j]? = some v

omit [Rate R] in
theorem Clean.integrity (h : Clean link s) : Integrity link s := by
  intro b hb i hi hn hr
  obtain ⟨_, content, hagrees, hcontent⟩ := (h.buffers b hb).slot i hi hn hr
  rw [hcontent]
  refine ⟨slice_length content i, fun j hj v hv => ?_⟩
  rw [slice, List.getElem?_map, List.getElem?_range hj, Option.map_some, ← hagrees _ v hv]
  congr 2
  push_cast
  omega

/-- In every run in which an empty slot only takes packets of its own chunk,
every payload stored is right: whatever is lost, repeated, delayed or sent
again. -/
theorem integrity_along (link : Link) (moves : List Move)
    (h : Along (link.step everything) (CurrentChunk link) (idle : System R) moves) :
    Throughout (link.step everything) (Integrity link) (idle : System R) moves := by
  have hinit : Clean link (idle : System R) :=
    ⟨⟨by simp [idle, Peer.init], by simp [idle, Peer.init]⟩, by simp [idle],
      by simp [idle, Peer.init]⟩
  exact Throughout.mono (fun _ => Clean.integrity) _ _
    (throughout_of_invariant (fun _ move hs hc => clean_step hs move hc) _ moves hinit h)

end Runs

/-- The two chunks of the master file below. -/
def masterLines : List ChunkLine := [⟨0, List.replicate 40 49⟩, ⟨1, List.replicate 40 50⟩]

def library : Config :=
  { chunkFile := some masterLines
    content := List.replicate 524288 0 ++ [1]
    hasChunkFile := some masterLines
    identity := 2
    peers := network.peers }

def reader : Link :=
  { endian := .little
    receiver := { library with hasChunkFile := none, identity := 1 }
    sender := library
    receiverId := 1
    senderId := 2
    receiverAddr := ⟨2, 1, 1⟩
    senderAddr := ⟨2, 2, 2⟩
    knowsSender := rfl
    knowsReceiver := rfl
    senderIdValid := two_valid
    receiverIdValid := one_valid }

/-- Both chunks are requested, and the sender has answered the GET of the
first with a packet that is still in flight. -/
def firstGet : List Move :=
  [.request 0 (some masterLines) [], .deliverToSender 0 0 cleared, .deliverToReceiver 0 0 cleared,
    .deliverToSender 0 0 cleared]

theorem integrity_along_first : Throughout (reader.step everything) (Integrity reader)
    (idle : System ℚ) (firstGet ++ [.deliverToReceiver 0 0 cleared]) := by
  apply integrity_along
  have hoffer : (handOver 0 (run (reader.step everything) (idle : System ℚ)
      (firstGet.take 2)).toReceiver).map (fun taken => taken.1.header.packetType) = some 1 := by
    decide +kernel
  have hchunk : (handOver 0 (run (reader.step everything) (idle : System ℚ)
      firstGet).toReceiver).map (fun taken => taken.1.chunk) = some (some 0) := by
    decide +kernel
  have hbuffer : ((run (reader.step everything) (idle : System ℚ) firstGet).receiver.recvList.find?
      (fun b => b.socket = reader.senderId)).map RecvBuffer.offset = some 0 := by
    decide +kernel
  refine ⟨trivial, trivial, ?_, trivial, ?_, trivial⟩
  · intro p rest hp h3
    have htype := (congrArg (Option.map (fun taken => taken.1.header.packetType)) hp).symm.trans
      hoffer
    rw [Option.map_some, h3] at htype
    exact absurd htype (by decide)
  · intro p rest hp _ b hb _ _ _
    have hpc := (congrArg (Option.map (fun taken => taken.1.chunk)) hp).symm.trans hchunk
    have hbo := (congrArg (Option.map RecvBuffer.offset) hb).symm.trans hbuffer
    rw [Option.map_some, Option.some.injEq] at hpc hbo
    rw [hpc, hbo]
    exact ⟨rfl, unmistaken_full (show library.chunkFile = some masterLines from rfl) (by decide)
      (by decide), rfl⟩

/-- The first buffer is released by a timeout, and its late packet is stored
as the first packet of the second chunk. -/
theorem late_packet_stored : ¬Throughout (reader.step everything) (Integrity reader)
    (idle : System ℚ) (firstGet ++ [.tickReceiver 20, .deliverToSender 1 20 cleared,
      .deliverToReceiver 1 20 cleared, .deliverToReceiver 0 20 cleared]) := by
  intro h
  have hlast := h.last
  have hstored : ∃ b ∈ (run (reader.step everything) (idle : System ℚ)
      (firstGet ++ [.tickReceiver 20, .deliverToSender 1 20 cleared,
        .deliverToReceiver 1 20 cleared, .deliverToReceiver 0 20 cleared])).receiver.recvList,
      b.offset = 1 ∧ (b.chunks 0).recved = true ∧ (b.chunks 0).content[0]? = some 0 := by
    decide +kernel
  obtain ⟨b, hb, ho, hr, hbyte⟩ := hstored
  have hbehind : ∀ n : Nat, (List.replicate n (0 : Byte) ++ [1])[n]? = some 1 := fun n => by simp
  have hchunk : chunkByte library 1 ((0 : Int).toNat * 1024 + 0) = some 1 := hbehind 524288
  have hright := (hlast b hb 0 le_rfl (by omega) hr).2 0 (by omega) 1 (by rw [ho]; exact hchunk)
  rw [hbyte] at hright
  exact absurd hright (by decide)

end P2PCC.Successive

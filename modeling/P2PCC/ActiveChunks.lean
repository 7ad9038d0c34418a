import P2PCC.Receiving

namespace P2PCC.ActiveChunks

open P2PCC.Lib.ByteOrder P2PCC.Lib.Runs P2PCC.Lib.FirstMatch P2PCC.Packet P2PCC.ChunkFile
open P2PCC.Tracker P2PCC.Sender P2PCC.Receiver P2PCC.Manager P2PCC.HandlePacket P2PCC.Peer
open P2PCC.Receiving

variable {R : Type}

/-- A busy buffer shares neither its peer nor its chunk with a buffer that
stands before it. -/
def Exclusive (recvList : List RecvBuffer) : Prop :=
  recvList.Pairwise (fun c b => b.busy = true → c.socket ≠ b.socket ∧ c.offset ≠ b.offset)

theorem exclusive_init (offset socket : Int) (recvList : List RecvBuffer)
    (h : Exclusive recvList) : Exclusive (initRecvBuffer offset socket recvList).2 := by
  unfold initRecvBuffer
  split
  · exact h
  · rename_i hany
    refine List.pairwise_cons.mpr ⟨?_, h⟩
    intro b hb hbusy
    have hc : ¬b.conflicts offset socket = true := fun hc => hany (List.any_eq_true.mpr ⟨b, hb, hc⟩)
    simp only [RecvBuffer.conflicts, hbusy, Bool.and_true, Bool.or_eq_true, decide_eq_true_eq,
      not_or] at hc
    exact ⟨Ne.symm hc.1, Ne.symm hc.2⟩

theorem exclusive_release (offset : Int) (recvList : List RecvBuffer) (h : Exclusive recvList) :
    Exclusive (releaseBuffer offset recvList) := by
  unfold releaseBuffer
  apply List.Pairwise.map _ _ h
  intro c b hcb
  by_cases hc : c.offset = offset <;> by_cases hb : b.offset = offset <;> simp_all

theorem exclusive_recv (e : Endian) (past : Int → Int) (packet : DataPacket) (socket : Int)
    (recvList : List RecvBuffer) (h : Exclusive recvList) :
    Exclusive (recvData e past packet socket recvList).1 := by
  obtain ⟨hn, _⟩ | ⟨_, l₁, b, l₂, hl, _, _, hr⟩ := recvData_cases e past packet socket recvList
  · rw [hn]
    exact h
  · rw [hr]
    rw [hl] at h
    simpa [Exclusive, List.pairwise_append] using h

/-- No two busy buffers share a peer or a chunk, and a search by either finds
the busy buffer. -/
structure OneEach (recvList : List RecvBuffer) : Prop where
  alone : ∀ i j (hi : i < recvList.length) (hj : j < recvList.length),
    recvList[i].busy = true → recvList[j].busy = true →
    recvList[i].socket = recvList[j].socket ∨ recvList[i].offset = recvList[j].offset → i = j
  bySocket : ∀ b ∈ recvList, b.busy = true →
    recvList.find? (fun c => c.socket = b.socket) = some b
  byOffset : ∀ b ∈ recvList, b.busy = true →
    recvList.find? (fun c => c.offset = b.offset) = some b

theorem Exclusive.oneEach {recvList : List RecvBuffer} (h : Exclusive recvList) :
    OneEach recvList := by
  have hbefore : ∀ b ∈ recvList, b.busy = true → ∃ l₁ l₂, recvList = l₁ ++ b :: l₂ ∧
      ∀ c ∈ l₁, c.socket ≠ b.socket ∧ c.offset ≠ b.offset := by
    intro b hb hbusy
    obtain ⟨l₁, l₂, rfl⟩ := List.append_of_mem hb
    refine ⟨l₁, l₂, rfl, fun c hc => ?_⟩
    exact (List.pairwise_append.mp h).2.2 c hc b List.mem_cons_self hbusy
  refine ⟨?_, ?_, ?_⟩
  · intro i j hi hj hbi hbj hshare
    have hpair := List.pairwise_iff_getElem.mp h
    obtain hlt | heq | hgt := lt_trichotomy i j
    · obtain ⟨hs, ho⟩ := hpair i j hi hj hlt hbj
      exact absurd hshare (not_or.mpr ⟨hs, ho⟩)
    · exact heq
    · obtain ⟨hs, ho⟩ := hpair j i hj hi hgt hbi
      exact absurd hshare (not_or.mpr ⟨Ne.symm hs, Ne.symm ho⟩)
  · intro b hb hbusy
    obtain ⟨l₁, l₂, hl, hne⟩ := hbefore b hb hbusy
    rw [hl]
    exact find?_of_prefix (fun c hc => by simpa using (hne c hc).1) (by simp)
  · intro b hb hbusy
    obtain ⟨l₁, l₂, hl, hne⟩ := hbefore b hb hbusy
    rw [hl]
    exact find?_of_prefix (fun c hc => by simpa using (hne c hc).2) (by simp)

def hashes (packet : DataPacket) : List (List Byte) :=
  (List.range (hashCount packet)).map (hashAt packet)

@[simp] theorem hashAt_length (packet : DataPacket) (i : Nat) : (hashAt packet i).length = 20 := by
  simp [hashAt]

/-- The chunk of the hash is in the master chunk file, and neither it nor the
peer is busy. -/
def startable (config : Config) (sockfd : Int) (recvList : List RecvBuffer)
    (hash : List Byte) : Bool :=
  getOffSetFromMasterChunkfile hash config ≠ -1 &&
    !recvList.any (fun b => b.conflicts (getOffSetFromMasterChunkfile hash config) sockfd)

def startChunk (config : Config) (now sockfd : Int) (node : BtPeer) (hash : List Byte)
    (peer : Peer R) : Peer R :=
  let offset := getOffSetFromMasterChunkfile hash config
  let fm := { peer.fileManager with
    alreadyUsed := (offset, node.addr) :: peer.fileManager.alreadyUsed }
  { peer with
    recvList := (initRecvBuffer offset sockfd peer.recvList).2
    fileManager := fm.touch offset now }

theorem ihaveStep_eq (e : Endian) {config : Config} (now sockfd : Int) (packet : DataPacket)
    {node : BtPeer} (hnode : config.peers.find? (fun node => node.id = sockfd) = some node)
    (st : Peer R × List DataPacket) (i : Nat) :
    ihaveStep e config now sockfd packet st i =
      if startable config sockfd st.1.recvList (hashAt packet i) then
        (startChunk config now sockfd node (hashAt packet i) st.1,
          initPacket e 2 (some (hashAt packet i)) 20 :: st.2)
      else st := by
  unfold ihaveStep startable startChunk
  rw [hnode]
  dsimp only
  generalize hashAt packet i = hash
  generalize getOffSetFromMasterChunkfile hash config = offset
  by_cases ho : offset = -1
  · simp [ho]
  · by_cases hc : st.1.recvList.any (fun b => b.conflicts offset sockfd) = true
    · simp only [ho, ↓reduceIte, initRecvBuffer, hc]
      simp
    · simp only [ho, ↓reduceIte, initRecvBuffer, hc]
      simp [ho]

theorem not_startable_started (config : Config) (now sockfd : Int) (node : BtPeer)
    (hash : List Byte) (peer : Peer R)
    (h : startable config sockfd peer.recvList hash = true) (other : List Byte) :
    startable config sockfd (startChunk config now sockfd node hash peer).recvList other = false := by
  have hfree : ¬peer.recvList.any (fun b =>
      b.conflicts (getOffSetFromMasterChunkfile hash config) sockfd) = true := by
    simp only [startable, Bool.and_eq_true, Bool.not_eq_true'] at h
    simp [h.2]
  simp only [startable, startChunk, initRecvBuffer, if_neg hfree]
  simp [RecvBuffer.conflicts]

theorem foldl_ihaveStep_blocked (e : Endian) {config : Config} (now sockfd : Int)
    (packet : DataPacket) {node : BtPeer}
    (hnode : config.peers.find? (fun node => node.id = sockfd) = some node)
    (st : Peer R × List DataPacket)
    (h : ∀ hash, startable config sockfd st.1.recvList hash = false) (is : List Nat) :
    is.foldl (ihaveStep e config now sockfd packet) st = st := by
  induction is with
  | nil => rfl
  | cons i is ih => rw [List.foldl_cons, ihaveStep_eq e now sockfd packet hnode, h]; exact ih

theorem handleIhave_eq (e : Endian) {config : Config} (now sockfd : Int) (packet : DataPacket)
    {node : BtPeer} (hnode : config.peers.find? (fun node => node.id = sockfd) = some node)
    (peer : Peer R) :
    handleIhave e config now sockfd packet peer =
      match (hashes packet).find? (startable config sockfd peer.recvList) with
      | none => (peer, [])
      | some hash =>
        (startChunk config now sockfd node hash peer, [initPacket e 2 (some hash) 20]) := by
  unfold handleIhave hashes
  generalize List.range (hashCount packet) = is
  induction is with
  | nil => rfl
  | cons i is ih =>
    rw [List.foldl_cons, ihaveStep_eq e now sockfd packet hnode, List.map_cons]
    cases hs : startable config sockfd peer.recvList (hashAt packet i) with
    | true =>
      rw [List.find?_cons_of_pos hs, if_pos rfl]
      exact foldl_ihaveStep_blocked e now sockfd packet hnode _
        (not_startable_started config now sockfd node _ peer hs) is
    | false =>
      rw [List.find?_cons_of_neg (by simp [hs])]
      exact ih

theorem initPacket_convert (e : Endian) (type : Byte) (data : Option (List Byte)) (length : Nat) :
    (initPacket e type data length).convert e = initPacket e type data length := by
  simp only [DataPacket.convert, initPacket, hton32_zero]

theorem sendResponses_control (e : Endian) (now : Int) (dummy : PacketTracker) (targetId : Int)
    (fromAddr : SockAddr) (packet : DataPacket) (pTracker : List PacketTracker)
    (ht : packet.header.packetType ≠ 3) (hc : packet.convert e = packet) :
    (sendResponses e now dummy targetId fromAddr [packet] pTracker).2 = [(fromAddr, packet)] := by
  simp only [sendResponses, List.reverse_singleton, List.foldl_cons, List.foldl_nil, sendResponse,
    ht, hc, ↓reduceIte, List.nil_append]
  split <;> rfl

variable [Rate R]

/-- What an IHAVE makes of a state: one GET and one new busy buffer for the
first chunk it lists that can be started, or neither. -/
def StartsFirst (e : Endian) (config : Config) (peer : Peer R) (event : Event) : Prop :=
  ∀ d, delivery e config event = some d → d.packet.header.packetType = 1 →
    match (hashes d.packet).find? (startable config d.sockfd peer.recvList) with
    | none => (act e config peer event).2 = [] ∧ (step e config peer event).recvList = peer.recvList
    | some hash =>
      (∃ addr, (act e config peer event).2 = [(addr, initPacket e 2 (some hash) 20)]) ∧
        (step e config peer event).recvList =
          { expected := 1
            socket := d.sockfd
            offset := getOffSetFromMasterChunkfile hash config
            busy := true
            totalRecv := 0
            chunks := fun _ => emptyChunk } :: peer.recvList

theorem handlePacket_delivered {e : Endian} {d : Delivery} {packet : DataPacket}
    (hp : d.packet = packet.ntoh e) (ht : d.packet.header.packetType = 1) (config : Config)
    (peer : Peer R) : handlePacket e config d.now d.stray packet d.sockfd peer =
      handleIhave e config d.now d.sockfd d.packet peer := by
  rw [hp, ntoh_packetType] at ht
  rw [hp]
  exact handlePacket_ihave e config d.now d.stray d.sockfd peer ht

theorem startsFirst (e : Endian) (config : Config) (peer : Peer R) (event : Event) :
    StartsFirst e config peer event := by
  intro d hd ht
  obtain ⟨fromAddr, packet, _, he, hp, _⟩ := delivery_eq_some hd
  obtain ⟨node, hnode⟩ := delivery_known hd
  rw [he] at hd
  have hhandle := handlePacket_delivered hp ht config peer
  rw [he]
  simp only [step, act, processInboundUdp_some hd, hhandle, handleIhave_eq e d.now d.sockfd
    d.packet hnode]
  cases hf : (hashes d.packet).find? (startable config d.sockfd peer.recvList) with
  | none => exact ⟨rfl, rfl⟩
  | some hash =>
    dsimp only
    have hs : startable config d.sockfd peer.recvList hash = true := List.find?_some hf
    have hfree : ¬peer.recvList.any (fun b =>
        b.conflicts (getOffSetFromMasterChunkfile hash config) d.sockfd) = true := by
      simp only [startable, Bool.and_eq_true, Bool.not_eq_true'] at hs
      simp [hs.2]
    refine ⟨⟨fromAddr, ?_⟩, ?_⟩
    · exact sendResponses_control e d.now d.stray.dummy d.sockfd fromAddr _ _
        (by rw [initPacket_packetType]; decide) (initPacket_convert e 2 _ _)
    · simp only [startChunk, initRecvBuffer, if_neg hfree]

theorem exclusive_step (e : Endian) (config : Config) (peer : Peer R) (event : Event)
    (h : Exclusive peer.recvList) : Exclusive (step e config peer event).recvList := by
  obtain ⟨next, hr, hsame⟩ := step_received e config peer event
  rw [hsame.recvList]
  exact hr.recvList_induction (fun o s l _ => exclusive_init o s l) exclusive_release
    (fun d _ _ => exclusive_recv e d.stray.past d.packet d.sockfd _ h) h

/-- In every reachable state a peer serves one chunk and a chunk is served by
one peer, and the next IHAVE keeps it so. A chunk is in the master chunk file
where a line has its hash, and its offset is the index of the first of them. -/
theorem one_active_chunk (e : Endian) (config : Config) (events : List Event) :
    OneEach (run (step e config) (Peer.init : Peer R) events).recvList ∧
      (∀ event, StartsFirst e config (run (step e config) (Peer.init : Peer R) events) event) ∧
      ∀ hash : List Byte, hash.length = 20 →
        FirstIndex config.masterLines hash (getOffSetFromMasterChunkfile hash config) ∧
          ∀ lines, config.chunkFile = some lines → (∀ l ∈ lines, l.token.length = 40) →
            FirstIndex lines hash (getOffSetFromMasterChunkfile hash config) := by
  have hrun : Exclusive (run (step e config) (Peer.init : Peer R) events).recvList := by
    apply run_invariant_total (I := fun peer : Peer R => Exclusive peer.recvList)
    · exact exclusive_step e config
    · exact List.Pairwise.nil
  refine ⟨hrun.oneEach, startsFirst e config _, fun hash hlen => ⟨?_, ?_⟩⟩
  · exact getOffSet_first config hlen
  · exact fun lines hconfig htokens => getOffSet_first_full hconfig htokens hlen

end P2PCC.ActiveChunks

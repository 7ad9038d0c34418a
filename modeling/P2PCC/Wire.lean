import P2PCC.Lib.Words
import P2PCC.Requests
import P2PCC.Swarm

namespace P2PCC.Wire

open P2PCC.Lib.ByteOrder P2PCC.Lib.Runs P2PCC.Lib.Slots P2PCC.Lib.Words P2PCC.Lib.Network
open P2PCC.Packet P2PCC.ChunkFile P2PCC.Tracker P2PCC.Sender P2PCC.Receiver P2PCC.HandlePacket
open P2PCC.Peer P2PCC.Receiving P2PCC.Tracking P2PCC.Window P2PCC.ActiveChunks P2PCC.Whohas
open P2PCC.Requests P2PCC.RoundTrip P2PCC.Swarm

variable {R : Type}

/-- A `header_t` in the memory of its host. -/
def headerBytes (e : Endian) (h : Header) : List Byte :=
  store16 e h.magicnum ++ [h.version, h.packetType] ++ store16 e h.headerLen ++
    store16 e h.packetLen ++ store32 e h.seqNum ++ store32 e h.ackNum

/-- The bytes that are sent for a packet: `packet_len` bytes from its first,
whatever `behind` its data in memory. -/
def datagram (behind : List Byte) (e : Endian) (packet : DataPacket) : List Byte :=
  (headerBytes e packet.header ++ packet.data ++ behind).take
    (hton16 e packet.header.packetLen).toNat

/-- What is in a buffer after `recvfrom`: of a datagram what fits, and behind
it what was there before. -/
def recvfrom (buf bytes : List Byte) : List Byte := bytes.take buf.length ++ buf.drop bytes.length

/-- The cast of a buffer to a `data_packet_t`, with all 1200 bytes of `data`. -/
def buildPacketFromBuf (e : Endian) (buf : List Byte) : DataPacket :=
  { header :=
      { magicnum := load16 e (buf.getD 0 0) (buf.getD 1 0)
        version := buf.getD 2 0
        packetType := buf.getD 3 0
        headerLen := load16 e (buf.getD 4 0) (buf.getD 5 0)
        packetLen := load16 e (buf.getD 6 0) (buf.getD 7 0)
        seqNum := load32 e (buf.getD 8 0) (buf.getD 9 0) (buf.getD 10 0) (buf.getD 11 0)
        ackNum := load32 e (buf.getD 12 0) (buf.getD 13 0) (buf.getD 14 0) (buf.getD 15 0) }
    data := (buf.drop 16).take 1200
    chunk := none }

/-- A packet in host order whose lengths are those of its parts, and whose
data has all that its handler reads. -/
structure Formed (p : DataPacket) : Prop where
  headerLen : p.header.headerLen = 16
  packetLen : p.header.packetLen.toNat = 16 + p.data.length
  size : p.data.length ≤ 1200
  hashes : p.header.packetType = 0 ∨ p.header.packetType = 1 →
    p.data.length = 4 + 20 * hashCount p
  get : p.header.packetType = 2 → p.data.length = 20

/-- A packet as it lies in the buffer of its receiver. -/
def padded (rest : List Byte) (p : DataPacket) : DataPacket :=
  { p with data := p.data ++ rest, chunk := none }

theorem store16_eq (e : Endian) (x : BitVec 16) : store16 e x = octets16 (hton16 e x) := by
  rw [← store16_hton16 e, hton16_hton16]

theorem store32_eq (e : Endian) (x : BitVec 32) : store32 e x = octets (hton32 e x) := by
  rw [← store32_hton32 e, hton32_hton32]

theorem header_read (e e' : Endian) (p : DataPacket) (rest : List Byte) :
    ((buildPacketFromBuf e' (headerBytes e p.header ++ rest)).ntoh e').header =
      (p.ntoh e).header := by
  unfold headerBytes
  simp only [store16_eq, store32_eq]
  obtain ⟨⟨magicnum, version, packetType, headerLen, packetLen, seqNum, ackNum⟩, data, chunk⟩ := p
  simp only [DataPacket.ntoh, buildPacketFromBuf, octets16, octets, List.cons_append,
    List.nil_append, List.getD_cons_zero, List.getD_cons_succ, hton16_load16, hton32_load32,
    word16_octets16, word_octets]

@[simp] theorem headerBytes_length (e : Endian) (h : Header) : (headerBytes e h).length = 16 := by
  cases e <;> rfl

theorem buildPacketFromBuf_data (e e' : Endian) (h : Header) (rest : List Byte) :
    (buildPacketFromBuf e' (headerBytes e h ++ rest)).data = rest.take 1200 := by
  have hdrop : (headerBytes e h ++ rest).drop 16 = rest := List.drop_left' (headerBytes_length e h)
  rw [buildPacketFromBuf, hdrop]

theorem datagram_eq (behind : List Byte) {e : Endian} {p : DataPacket} (h : Formed (p.ntoh e)) :
    datagram behind e p = headerBytes e p.header ++ p.data := by
  have hlen : (hton16 e p.header.packetLen).toNat = 16 + p.data.length := h.packetLen
  rw [datagram, hlen]
  apply List.take_left'
  rw [List.length_append, headerBytes_length]

/-- The receiver of a datagram reads what its sender wrote, between hosts of
any byte order, and behind it whatever its buffer held. -/
theorem datagram_read (behind : List Byte) {e : Endian} (e' : Endian) {p : DataPacket}
    (h : Formed (p.ntoh e)) {buf : List Byte} (hbuf : buf.length = 1500) :
    ∃ rest, (buildPacketFromBuf e' (recvfrom buf (datagram behind e p))).ntoh e' =
      padded rest (p.ntoh e) := by
  have hsize : p.data.length ≤ 1200 := h.size
  have hfits : (headerBytes e p.header ++ p.data).take buf.length =
      headerBytes e p.header ++ p.data := by
    apply List.take_of_length_le
    rw [List.length_append, headerBytes_length]
    omega
  rw [datagram_eq behind h, recvfrom, hfits, List.append_assoc]
  generalize buf.drop (headerBytes e p.header ++ p.data).length = stale
  have hheader := header_read e e' p (p.data ++ stale)
  have hdata := buildPacketFromBuf_data e e' p.header (p.data ++ stale)
  rw [List.take_append, List.take_of_length_le hsize] at hdata
  refine ⟨stale.take (1200 - p.data.length), ?_⟩
  generalize hb : buildPacketFromBuf e' (headerBytes e p.header ++ (p.data ++ stale)) = q
    at hheader hdata
  have hchunk : q.chunk = none := by
    rw [← hb]
    rfl
  obtain ⟨header, data, chunk⟩ := q
  obtain rfl : data = _ := hdata
  obtain rfl : chunk = none := hchunk
  rw [padded, ← hheader]
  rfl

section Handlers

variable {p : DataPacket} (rest : List Byte)

theorem getD_padded {i : Nat} (hi : i < p.data.length) :
    (padded rest p).data.getD i 0 = p.data.getD i 0 :=
  List.getD_append _ _ _ _ hi

theorem hashCount_padded (hlist : p.data.length = 4 + 20 * hashCount p) :
    hashCount (padded rest p) = hashCount p := by
  rw [hashCount, getD_padded rest (by omega), ← hashCount]

theorem hashAt_padded (hlist : p.data.length = 4 + 20 * hashCount p) {i : Nat}
    (hi : i < hashCount p) : hashAt (padded rest p) i = hashAt p i := by
  apply List.map_congr_left
  intro j hj
  have hlt := List.mem_range.mp hj
  exact getD_padded rest (by omega)

theorem handleWhohas_padded (e : Endian) (config : Config)
    (hlist : p.data.length = 4 + 20 * hashCount p) :
    handleWhohas e config (padded rest p) = handleWhohas e config p := by
  have hhashes : (List.range (hashCount p)).map (hashAt (padded rest p)) =
      (List.range (hashCount p)).map (hashAt p) :=
    List.map_congr_left fun i hi => hashAt_padded rest hlist (List.mem_range.mp hi)
  rw [handleWhohas, hashCount_padded rest hlist, hhashes]
  rfl

theorem handleIhave_padded (e : Endian) (config : Config) (now sockfd : Int) (peer : Peer R)
    (hlist : p.data.length = 4 + 20 * hashCount p) :
    handleIhave e config now sockfd (padded rest p) peer =
      handleIhave e config now sockfd p peer := by
  rw [handleIhave, handleIhave, hashCount_padded rest hlist]
  apply List.foldl_ext
  intro st i hi
  rw [ihaveStep, ihaveStep, hashAt_padded rest hlist (List.mem_range.mp hi)]

theorem length_formed (h : Formed p) : p.length = p.data.length := by
  have hsize := h.size
  have hlen := h.packetLen
  have htwo : p.header.packetLen.toInt = 16 + p.data.length := by
    rw [BitVec.toInt_eq_toNat_cond, hlen, if_pos (by omega)]
    push_cast
    rfl
  rw [DataPacket.length, htwo, h.headerLen]
  simp

theorem recv_padded (h : Formed p) (b : RecvBuffer) (past : Int → Int) :
    b.recv past (padded rest p) = b.recv past p := by
  have hseq : (padded rest p).seq = p.seq := rfl
  have hlength : (padded rest p).length = p.length := rfl
  have hpayload : (List.range p.length.toNat).map (fun i => (padded rest p).data.getD i 0) =
      (List.range p.length.toNat).map (fun i => p.data.getD i 0) := by
    apply List.map_congr_left
    intro i hi
    have hlt := List.mem_range.mp hi
    rw [length_formed h] at hlt
    exact getD_padded rest (by omega)
  have hstore : b.store (padded rest p) = b.store p := by
    rw [RecvBuffer.store, RecvBuffer.store, hseq, hlength, hpayload]
  rw [RecvBuffer.recv, RecvBuffer.recv, hstore]
  rfl

theorem recvData_padded (h : Formed p) (e : Endian) (past : Int → Int) (socket : Int)
    (recvList : List RecvBuffer) :
    recvData e past (padded rest p) socket recvList = recvData e past p socket recvList := by
  have hseq : (padded rest p).seq = p.seq := rfl
  rw [recvData, recvData, hseq]
  simp only [recv_padded rest h]

variable [Rate R]

/-- What lies behind the data of a packet is not read. -/
theorem handlePacket_padded (h : Formed p) (e : Endian) (config : Config) (now : Int)
    (stray : Stray) (sockfd : Int) (peer : Peer R) :
    handlePacket e config now stray ((padded rest p).ntoh e) sockfd peer =
      handlePacket e config now stray (p.ntoh e) sockfd peer := by
  have hget : p.header.packetType = 2 → (padded rest p).data.take 20 = p.data.take 20 := by
    intro h2
    have hlen := h.get h2
    exact List.take_append_of_le_length (by omega)
  have htype : (padded rest p).header.packetType = p.header.packetType := rfl
  unfold handlePacket
  rw [ntoh_ntoh, ntoh_ntoh]
  dsimp only
  rw [htype]
  by_cases h0 : p.header.packetType = 0
  · rw [if_pos h0, if_pos h0, handleWhohas_padded rest e config (h.hashes (Or.inl h0))]
  · rw [if_neg h0, if_neg h0]
    by_cases h1 : p.header.packetType = 1
    · rw [if_pos h1, if_pos h1, handleIhave_padded rest e config now sockfd peer
        (h.hashes (Or.inr h1))]
    · rw [if_neg h1, if_neg h1]
      by_cases h2 : p.header.packetType = 2
      · rw [if_pos h2, if_pos h2, handleGet, handleGet, hget h2]
      · rw [if_neg h2, if_neg h2]
        by_cases h3 : p.header.packetType = 3
        · rw [if_pos h3, if_pos h3, handleData, handleData, recvData_padded rest h]
        · rw [if_neg h3, if_neg h3]
          rfl

theorem processInboundUdp_padded (h : Formed p) (e : Endian) (config : Config) (now : Int)
    (stray : Stray) (fromAddr : SockAddr) (peer : Peer R) :
    processInboundUdp e config now stray fromAddr ((padded rest p).ntoh e) peer =
      processInboundUdp e config now stray fromAddr (p.ntoh e) peer := by
  rw [processInboundUdp, processInboundUdp]
  simp only [handlePacket_padded rest h]

end Handlers

section Sent

variable {e : Endian} {config : Config}

theorem Formed.congr {p q : DataPacket} (h : Formed (p.ntoh e))
    (hheader : q.header.headerLen = p.header.headerLen)
    (hpacket : q.header.packetLen = p.header.packetLen)
    (htype : q.header.packetType = p.header.packetType) (hdata : q.data = p.data) :
    Formed (q.ntoh e) := by
  have hcount : hashCount (q.ntoh e) = hashCount (p.ntoh e) := by
    rw [hashCount, hashCount, ntoh_data, ntoh_data, hdata]
  refine ⟨?_, ?_, ?_, ?_, ?_⟩
  · rw [← h.headerLen, DataPacket.ntoh, DataPacket.ntoh, hheader]
  · rw [ntoh_data, hdata, ← ntoh_data e p, ← h.packetLen, DataPacket.ntoh, DataPacket.ntoh, hpacket]
  · rw [ntoh_data, hdata]
    exact h.size
  · rw [ntoh_packetType, ntoh_data, htype, hdata, hcount]
    exact h.hashes
  · rw [ntoh_packetType, ntoh_data, htype, hdata]
    exact h.get

theorem formed_convert {p m : DataPacket} (h : Formed (p.ntoh e)) (hm : m = p.convert e ∨ m = p) :
    Formed (m.ntoh e) := by
  obtain rfl | rfl := hm
  · apply h.congr
    · rw [DataPacket.convert]
    · rw [DataPacket.convert]
    · exact convert_packetType e p
    · exact convert_data e p
  · exact h

theorem formed_resend {t : PacketTracker} (h : Formed (t.packet.ntoh e)) :
    Formed ((resend e t).ntoh e) := by
  apply h.congr
  · rw [resend]
  · rw [resend]
  · rw [resend]
  · rw [resend]

theorem formed_proper {p : DataPacket} (h : Proper e p) (hsize : p.data.length ≤ 1200)
    (hhashes : p.header.packetType = 0 ∨ p.header.packetType = 1 →
      p.data.length = 4 + 20 * hashCount p)
    (hget : p.header.packetType = 2 → p.data.length = 20) : Formed (p.ntoh e) := by
  refine ⟨?_, ?_, hsize, hhashes, hget⟩
  · rw [DataPacket.ntoh, h.headerLen, hton16_hton16]
  · rw [ntoh_data, DataPacket.ntoh, h.packetLen, hton16_hton16, BitVec.toNat_ofNat]
    omega

theorem count_padding {n : Nat} (hn : n ≤ 59) (data : List Byte) :
    ((padding (20 * n) ++ data).getD 0 0).toInt.toNat = n := by
  have hcount : BitVec.ofNat 8 (20 * n / 20) = BitVec.ofNat 8 n := by
    rw [Nat.mul_div_cancel_left n (by omega)]
  unfold padding
  dsimp only
  rw [hcount]
  split
  · rename_i hzero
    have hmod : n % 256 = 0 := by simpa using congrArg BitVec.toNat hzero
    obtain rfl : n = 0 := by omega
    rfl
  · rw [List.cons_append, List.getD_cons_zero, BitVec.toInt_eq_toNat_cond, BitVec.toNat_ofNat,
      Nat.mod_eq_of_lt (by omega), if_pos (by omega)]
    rfl

theorem formed_hashes {type : Byte} (ht : type = 0 ∨ type = 1) {data : List Byte} {n : Nat}
    (hlen : data.length = 20 * n) (hn : n ≤ 59) :
    Formed ((initPacket e type (some data) data.length).ntoh e) := by
  have hnot : ∀ other : Byte, other ≠ 0 → other ≠ 1 → type ≠ other := by
    rintro _ h0 h1 rfl
    exact ht.elim h0 h1
  have hdata : (initPacket e type (some data) data.length).data = padding (20 * n) ++ data := by
    rw [← hlen]
    simp only [initPacket, ht, ↓reduceIte, Option.isSome_some, Option.getD_some, List.take_length]
  have hlength : (padding (20 * n) ++ data).length = 4 + 20 * n := by
    rw [List.length_append, padding_length, hlen]
  apply formed_proper
  · exact proper_initPacket e (hnot 3 (by decide) (by decide)) data (by omega)
  · rw [hdata, hlength]
    omega
  · intro _
    rw [hashCount, hdata, count_padding hn, hlength]
  · intro h2
    rw [initPacket_packetType] at h2
    exact absurd h2 (hnot 2 (by decide) (by decide))

theorem formed_plain {type : Byte} (h0 : type ≠ 0) (h1 : type ≠ 1) {data : List Byte} {length : Nat}
    (hlen : data.length = length) (hsize : length ≤ 1200) (hget : type = 2 → length = 20) :
    Formed ((initPacket e type (some data) length).ntoh e) := by
  obtain ⟨hpacket, hdata⟩ := initPacket_plain e h0 h1 data length
  rw [List.take_of_length_le hlen.le] at hdata
  have hread : ((initPacket e type (some data) length).ntoh e).header.packetLen =
      BitVec.ofNat 16 (length + 16) := by
    simp only [DataPacket.ntoh, hpacket, hton16_hton16]
  refine ⟨?_, ?_, ?_, ?_, ?_⟩
  · simp [DataPacket.ntoh]
  · rw [hread, ntoh_data, hdata, hlen, BitVec.toNat_ofNat]
    omega
  · rw [ntoh_data, hdata, hlen]
    exact hsize
  · rintro (h | h)
    · exact absurd h h0
    · exact absurd h h1
  · intro h2
    rw [ntoh_data, hdata, hlen]
    exact hget h2

theorem formed_get {hash : List Byte} (h : hash.length = 20) :
    Formed ((initPacket e 2 (some hash) 20).ntoh e) :=
  formed_plain (by decide) (by decide) h (by decide) fun _ => rfl

theorem formed_data (data : Data R) (index : Int) : Formed ((dataPacket e data index).ntoh e) := by
  have hplain : Formed ((initPacket e 3 (some (getContentByIndex data index)) 1024).ntoh e) :=
    formed_plain (by decide) (by decide) (slice_length data.content index) (by decide)
      fun h => absurd h (by decide)
  apply hplain.congr
  · rw [dataPacket]
  · rw [dataPacket]
  · rw [dataPacket]
  · rw [dataPacket]

theorem formed_ack (ackNum : Int) : Formed ((ackPacket e ackNum).ntoh e) := by
  have hempty : (ackPacket e ackNum).data = [] := by simp [ackPacket, initPacket]
  apply formed_proper (proper_ackPacket e ackNum)
  · simp [hempty]
  · rw [ackPacket_packetType]
    exact fun h => absurd h (by decide)
  · rw [ackPacket_packetType]
    exact fun h => absurd h (by decide)

theorem whohasLoop_formed (ls : List ChunkLine) (n k : Nat) (data : List Byte)
    (ret : List DataPacket) (hk : k < 50) (hdata : data.length = 20 * k)
    (hret : ∀ p ∈ ret, Formed (p.ntoh e)) : ∀ r, (whohasLoop e ls n data ret).2 = some r →
      (∃ k' < 50, r.1.length = 20 * k') ∧ ∀ p ∈ r.2, Formed (p.ntoh e) := by
  induction ls generalizing n k data ret with
  | nil =>
    intro r hr
    obtain rfl := Option.some.inj hr
    exact ⟨⟨k, hk, hdata⟩, hret⟩
  | cons l ls ih =>
    have hgrown : (data ++ l.hash).length = 20 * (k + 1) := by
      rw [List.length_append, hash_length, hdata]
      omega
    rw [whohasLoop]
    split
    · simp
    · split
      · refine ih (n + 1) 0 [] _ (by omega) rfl (List.forall_mem_cons.mpr ⟨?_, hret⟩)
        exact formed_hashes (Or.inl rfl) hgrown (by omega)
      · refine ih (n + 1) (k + 1) _ ret ?_ hgrown hret
        omega

theorem generateWhohas_formed (now : Int) (chunkfile : Option (List ChunkLine))
    (outputfile : List Byte) (peer : Peer R) :
    ∀ p ∈ (generateWhohas e config now chunkfile outputfile peer).2, Formed (p.ntoh e) := by
  cases chunkfile with
  | none => exact fun _ hp => absurd hp List.not_mem_nil
  | some ls =>
    have hloop := whohasLoop_formed (e := e) ls 0 0 [] [] (by omega) rfl (by simp)
    rw [generateWhohas]
    dsimp only
    generalize whohasLoop e ls 0 [] [] = result at hloop
    obtain ⟨n, _ | ⟨data, ret⟩⟩ := result
    · exact fun _ hp => absurd hp List.not_mem_nil
    · obtain ⟨⟨k, hk, hdata⟩, hret⟩ := hloop (data, ret) rfl
      exact List.forall_mem_cons.mpr ⟨formed_hashes (Or.inl rfl) hdata (by omega), hret⟩

theorem formed_again (offset : Int) :
    Formed ((initPacket e 0 (getHashFromMasterChunkfile offset config) 20).ntoh e) := by
  unfold getHashFromMasterChunkfile
  cases config.masterLines.find? (fun l => l.index = offset) with
  | none =>
    have hnone : Formed ((initPacket e 0 (some []) ([] : List Byte).length).ntoh e) :=
      formed_hashes (Or.inl rfl) (n := 0) rfl (by omega)
    exact hnone.congr rfl rfl rfl rfl
  | some l =>
    have hone : Formed ((initPacket e 0 (some l.hash) l.hash.length).ntoh e) :=
      formed_hashes (Or.inl rfl) (n := 1) (hash_length l) (by omega)
    rwa [hash_length] at hone

theorem regenerateWhohas_formed (now : Int) (peer : Peer R) :
    ∀ p ∈ (regenerateWhohas e config now peer).2, Formed (p.ntoh e) := by
  apply regenerateWhohas_rule (I := fun st => ∀ p ∈ st.2.2, Formed (p.ntoh e))
  · exact fun _ _ _ _ hst => List.forall_mem_cons.mpr ⟨formed_again _, hst⟩
  · simp

theorem handleWhohas_formed {packet : DataPacket} (hcount : hashCount packet ≤ 59) :
    ∀ p ∈ handleWhohas e config packet, Formed (p.ntoh e) := by
  unfold handleWhohas
  cases readChunkfile config.hasChunkFile with
  | none => simp
  | some localHas =>
    intro p hm
    dsimp only at hm
    split at hm
    · cases hm
    · rw [List.mem_singleton.mp hm]
      generalize hf : List.filter _ _ = found
      have hlength : found.length ≤ 59 := by
        rw [← hf]
        exact (List.length_filter_le _ _).trans (by simpa using hcount)
      have hsize : ∀ h ∈ found, h.length = 20 := by
        intro h hm
        rw [← hf] at hm
        obtain ⟨i, _, rfl⟩ := List.mem_map.mp (List.mem_of_mem_filter hm)
        exact hashAt_length packet i
      exact formed_hashes (Or.inr rfl) (flatten_length hsize) hlength

variable [Rate R]

theorem handlePacket_formed {packet : DataPacket} (h : Formed (packet.ntoh e)) (now : Int)
    (stray : Stray) (sockfd : Int) (peer : Peer R) :
    ∀ p ∈ (handlePacket e config now stray packet sockfd peer).2, Formed (p.ntoh e) := by
  have hp := handlePacket_handled e config now stray packet sockfd peer
  have hhashes := h.hashes
  have hsize := h.size
  generalize handlePacket e config now stray packet sockfd peer = handled at hp
  generalize (packet.ntoh e).header.packetType = type at hp hhashes
  cases hp with
  | whohas =>
    have hlist := hhashes (Or.inl rfl)
    exact handleWhohas_formed (by omega)
  | ihave => exact handleIhave_forall e config now sockfd _ peer fun i => formed_get (hashAt_length _ i)
  | get =>
    dsimp only [handleGet]
    rw [sendData_initDatalist]
    intro p hm
    rw [List.mem_singleton.mp hm]
    exact formed_data _ _
  | data =>
    rw [handleData_reply]
    obtain ⟨hn, _⟩ | ⟨_, _, b, _, _, _, _, hr⟩ :=
      recvData_cases e stray.past (packet.ntoh e) sockfd peer.recvList
    · simp [hn]
    · rw [hr]
      intro p hm
      rw [List.mem_singleton.mp hm]
      exact formed_ack _
  | ack =>
    dsimp only [handleAckPacket]
    cases hd : getDataBySocket sockfd peer.list with
    | none => simp [handleAck, hd]
    | some data =>
      rw [handleAck_eq e _ peer.pTracker hd]
      intro p hm
      obtain ⟨index, rfl⟩ := (data.answer_answered e _ peer.pTracker).isData p hm
      exact formed_data data index
  | invalid type hn => exact fun _ hm => absurd hm List.not_mem_nil

/-- The packets of a process that may be sent again are formed. -/
def TracksFormed (e : Endian) (peer : Peer R) : Prop :=
  ∀ t ∈ peer.pTracker, t.seq ≠ -441 → Formed (t.packet.ntoh e)

theorem formed_act {peer : Peer R} {event : Event} (h : TracksFormed e peer)
    (hin : ∀ d, delivery e config event = some d → Formed d.packet) :
    TracksFormed e (act e config peer event).1 ∧
      ∀ m ∈ (act e config peer event).2, Formed (m.2.ntoh e) := by
  constructor
  · refine step_tracker (Q := fun t => t.seq ≠ -441 → Formed (t.packet.ntoh e)) ?_ e config ?_ ?_
      peer event ?_ h
    · exact fun _ _ _ ht => ht
    · exact fun _ hs => absurd rfl hs
    · exact fun t _ ht hs => formed_resend (ht hs)
    · intro now stray fromAddr packet d he hd p hp _ _ _ _
      subst he
      obtain ⟨_, _, _, he, hpacket, _⟩ := delivery_eq_some hd
      simp only [Event.inbound.injEq] at he
      obtain ⟨rfl, rfl, rfl, rfl⟩ := he
      have hread := hin d hd
      rw [hpacket] at hread
      exact formed_convert (handlePacket_formed hread _ _ _ _ p hp) (Or.inl rfl)
  · intro m hm
    cases event with
    | command now chunkfile outputfile =>
      exact generateWhohas_formed now chunkfile outputfile peer m.2
        (List.mem_reverse.mp (mem_broadcast hm))
    | tick now =>
      obtain ⟨htracker, hlist⟩ := regenerateWhohas_sending e config now peer
      dsimp only [act, peerTick] at hm
      rw [htracker, hlist] at hm
      obtain hm | hm := List.mem_append.mp hm
      · exact regenerateWhohas_formed now peer m.2 (List.mem_reverse.mp (mem_broadcast hm))
      · obtain ⟨t, ht, hs, rfl⟩ := retransmit_sent e now peer.pTracker peer.list m hm
        exact formed_resend (h t ht hs)
    | inbound now stray fromAddr packet =>
      cases hd : delivery e config (.inbound now stray fromAddr packet) with
      | none =>
        rw [act, processInboundUdp_none hd] at hm
        exact absurd hm List.not_mem_nil
      | some d =>
        obtain ⟨_, _, _, he, hpacket, _⟩ := delivery_eq_some hd
        simp only [Event.inbound.injEq] at he
        obtain ⟨rfl, rfl, rfl, rfl⟩ := he
        have hread := hin d hd
        rw [hpacket] at hread
        obtain ⟨p, hp, _, hform, _⟩ := inbound_sent e hd peer m hm
        exact formed_convert (handlePacket_formed hread _ _ _ _ p hp) hform

end Sent

end P2PCC.Wire

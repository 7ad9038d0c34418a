import P2PCC.Successive

namespace P2PCC.GetRequests

open P2PCC.Lib.ByteOrder P2PCC.Lib.Runs P2PCC.Packet P2PCC.ChunkFile P2PCC.Tracker P2PCC.Sender P2PCC.Receiver
open P2PCC.HandlePacket P2PCC.Receiving P2PCC.Window P2PCC.Successive

variable {R : Type}

def HexDigit (c : Byte) : Prop :=
  (48 ≤ c.toNat ∧ c.toNat ≤ 57) ∨ (65 ≤ c.toNat ∧ c.toNat ≤ 70) ∨ (97 ≤ c.toNat ∧ c.toNat ≤ 102)

instance (c : Byte) : Decidable (HexDigit c) := inferInstanceAs (Decidable (_ ∨ _))

/-- A line of a chunk file: an index and the 40 digits of a hash. -/
structure WellFormed (l : ChunkLine) : Prop where
  index : 0 ≤ l.index
  length : l.token.length = 40
  digits : ∀ c ∈ l.token, HexDigit c

theorem wellFormed_iff (l : ChunkLine) : (0 ≤ l.index ∧ l.token.length = 40 ∧
    l.token.all (fun c => decide (HexDigit c)) = true) ↔ WellFormed l := by
  simp only [List.all_eq_true, decide_eq_true_eq]
  exact ⟨fun h => ⟨h.1, h.2.1, h.2.2⟩, fun h => ⟨h.index, h.length, h.digits⟩⟩

instance (l : ChunkLine) : Decidable (WellFormed l) := decidable_of_iff _ (wellFormed_iff l)

def Listed (lines : List ChunkLine) (hash : List Byte) : Prop := ∃ l ∈ lines, l.hash = hash

/-- Packet `k + 1` of the chunk with an index, as the content file has it. -/
def filePacket (config : Config) (index : Int) (k : Nat) : List Byte :=
  (config.content.drop ((524288 * index).toNat + 1024 * k)).take 1024

/-- A new transfer to a peer, whose packets are those of the chunk. -/
structure Serves (config : Config) (index sockfd : Int) (e : Endian) (data : Data R) : Prop where
  socket : data.socket = sockfd
  packets : ∀ k : Nat, k < 512 → (dataPacket e data k).data = filePacket config index k

/-- What a GET for a hash has to lead to. -/
structure Served (e : Endian) (config : Config) (lines : List ChunkLine) (hash : List Byte)
    (stray : Stray) (sockfd : Int) (peer : Peer R) (handled : Peer R × List DataPacket) :
    Prop where
  listed : Listed lines hash →
    dataIndex hash lines stray.index = getOffSetFromMasterChunkfile hash config ∧
      ∃ data, handled.1.list = data :: peer.list ∧ handled.2 = [dataPacket e data 0] ∧
        Serves config (getOffSetFromMasterChunkfile hash config) sockfd e data
  unlisted : ¬Listed lines hash →
    (∀ p ∈ handled.2, p.header.packetType ≠ 3) ∧ handled.1.list = peer.list

/-- The hash is listed, the content file has the whole chunk, and the position
that the `int` leads to has the same bytes. -/
def Available (config : Config) (lines : List ChunkLine) (hash : List Byte) : Prop :=
  ∃ l, lines.find? (fun l => l.hash = hash) = some l ∧
    524288 * (l.index + 1) ≤ config.content.length ∧
    ∀ n : Nat, n < 524288 →
      config.content[(seekPosition l.index).toNat + n]? = config.content[(524288 * l.index).toNat + n]?

section Searches

variable {config : Config} {lines : List ChunkLine} {hash : List Byte}

theorem find?_sameHash (hlen : hash.length = 20) (lines : List ChunkLine) :
    lines.find? (fun l => sameHash l.hash hash) = lines.find? (fun l => l.hash = hash) := by
  congr 1
  funext l
  rw [Bool.eq_iff_iff, sameHash_iff (hash_length l) hlen, decide_eq_true_eq]

theorem listed_iff : Listed lines hash ↔ ∃ l, lines.find? (fun l => l.hash = hash) = some l := by
  rw [← Option.isSome_iff_exists, List.find?_isSome]
  simp [Listed]

theorem searches_found (hconfig : config.chunkFile = some lines)
    (htokens : ∀ l ∈ lines, l.token.length = 40) (hlen : hash.length = 20)
    {l : ChunkLine} (hl : lines.find? (fun l => l.hash = hash) = some l) (index : Int) :
    getOffSetFromMasterChunkfile hash config = l.index ∧ dataIndex hash lines index = l.index := by
  rw [← find?_sameHash hlen] at hl
  refine ⟨?_, dataIndex_found hash lines index hl⟩
  rw [getOffSet_full hconfig htokens, hl]
  rfl

/-- The memory of a transfer has the bytes of the content file exactly when
its packets are those of the chunk. -/
theorem serves_iff {e : Endian} {index sockfd : Int} {data : Data R}
    (hs : data.socket = sockfd) : Serves config index sockfd e data ↔
      ∀ n : Nat, n < 524288 →
        config.content[(524288 * index).toNat + n]? = some (data.content n) := by
  constructor
  · intro h n hn
    have hpacket := h.packets (n / 1024) (by omega)
    rw [dataPacket_data] at hpacket
    have hbyte := congrArg (fun bytes => bytes[n % 1024]?) hpacket
    have hmod : n % 1024 < 1024 := Nat.mod_lt n (by decide)
    have hplace : ((n / 1024 : Nat) : Int) * 1024 + ((n % 1024 : Nat) : Int) = n := by omega
    simp only [slice, filePacket, List.getElem?_map, List.getElem?_range hmod, Option.map_some,
      List.getElem?_take_of_lt hmod, List.getElem?_drop, hplace] at hbyte
    have hsame : (524288 * index).toNat + 1024 * (n / 1024) + n % 1024 =
        (524288 * index).toNat + n := by omega
    rw [hsame] at hbyte
    exact hbyte.symm
  · intro h
    refine ⟨hs, fun k hk => ?_⟩
    rw [dataPacket_data]
    apply List.ext_getElem?
    intro i
    by_cases hi : i < 1024
    · have hbyte := h (1024 * k + i) (by omega)
      simp only [slice, filePacket, List.getElem?_map, List.getElem?_range hi, Option.map_some,
        List.getElem?_take_of_lt hi, List.getElem?_drop]
      have hplace : ((k : Nat) : Int) * 1024 + ((i : Nat) : Int) = ((1024 * k + i : Nat) : Int) := by
        push_cast
        omega
      rw [add_assoc, hbyte, hplace]
    · rw [List.getElem?_eq_none (by rw [slice_length]; omega), List.getElem?_eq_none]
      rw [filePacket, List.length_take]
      omega

end Searches

section Serving

variable {config : Config} {lines : List ChunkLine}

theorem seekPosition_le {index : Int} (h : 0 ≤ index) :
    (seekPosition index).toNat ≤ (524288 * index).toNat := by
  have hle : seekPosition index ≤ 524288 * index := by
    rw [seekPosition, Int.bmod]
    split <;> omega
  exact Int.toNat_le_toNat hle

theorem available_iff {l : ChunkLine} {hash : List Byte}
    (hl : lines.find? (fun l => l.hash = hash) = some l) (hindex : 0 ≤ l.index)
    (heap : Int → Byte) : Available config lines hash ↔
      ∀ n : Nat, n < 524288 → config.content[(524288 * l.index).toNat + n]? =
        some (config.content[(seekPosition l.index).toNat + n]?.getD (heap n)) := by
  have hseek := seekPosition_le hindex
  have hsome : ∀ n : Nat, (524288 * l.index).toNat + n < config.content.length →
      some (config.content[(seekPosition l.index).toNat + n]?.getD (heap n)) =
        config.content[(seekPosition l.index).toNat + n]? := by
    intro n hn
    rw [List.getElem?_eq_getElem (show (seekPosition l.index).toNat + n < _ by omega),
      Option.getD_some]
  constructor
  · rintro ⟨l', hl', hwhole, hposition⟩ n hn
    obtain rfl := Option.some.inj (hl.symm.trans hl')
    rw [hsome n (by omega), hposition n hn]
  · intro h
    have hin : ∀ n : Nat, n < 524288 →
        (524288 * l.index).toNat + n < config.content.length := by
      intro n hn
      by_contra hout
      have hbyte := h n hn
      rw [List.getElem?_eq_none (by omega)] at hbyte
      cases hbyte
    refine ⟨l, hl, ?_, fun n hn => ?_⟩
    · have hlast := hin 524287 (by decide)
      omega
    · rw [h n hn, hsome n (hin n hn)]

variable [Rate R]

theorem handleGet_eq (e : Endian) (config : Config) (stray : Stray) (sockfd : Int)
    (packet : DataPacket) (peer : Peer R) :
    ∃ data : Data R, (handleGet e config stray sockfd packet peer).1.list = data :: peer.list ∧
      (handleGet e config stray sockfd packet peer).2 = [dataPacket e data 0] ∧
      data.socket = sockfd ∧
      data.content = getDataFromHash (packet.data.take 20) config stray.index stray.heap := by
  have hsent := sendData_initDatalist (R := R) e stray.data sockfd
    (getOffSetFromMasterChunkfile (packet.data.take 20) config)
    (getDataFromHash (packet.data.take 20) config stray.index stray.heap) peer.list
  refine ⟨(newElement stray.data sockfd
    (getOffSetFromMasterChunkfile (packet.data.take 20) config)
    (getDataFromHash (packet.data.take 20) config stray.index stray.heap)).sendMore 1, ?_⟩
  dsimp only [handleGet]
  rw [hsent]
  exact ⟨rfl, congrArg (fun p => [p]) (dataPacket_congr e rfl rfl 0), rfl, rfl⟩

omit [Rate R] in
theorem served_iff {e : Endian} {hash : List Byte} {stray : Stray} {sockfd : Int} {peer : Peer R}
    {handled : Peer R × List DataPacket} (hconfig : config.chunkFile = some lines)
    (hlines : ∀ l ∈ lines, WellFormed l) (hlen : hash.length = 20) {data : Data R}
    (hlist : handled.1.list = data :: peer.list) (hsent : handled.2 = [dataPacket e data 0])
    (hsocket : data.socket = sockfd)
    (hcontent : data.content = getDataFromHash hash config stray.index stray.heap) :
    Served e config lines hash stray sockfd peer handled ↔ Available config lines hash := by
  by_cases hlisted : Listed lines hash
  · obtain ⟨l, hl⟩ := listed_iff.mp hlisted
    obtain ⟨hoffset, hdata⟩ :=
      searches_found hconfig (fun m hm => (hlines m hm).length) hlen hl stray.index
    have hindex := (hlines l (List.mem_of_find?_eq_some hl)).index
    have hbytes : ∀ n : Nat, data.content n =
        config.content[(seekPosition l.index).toNat + n]?.getD (stray.heap n) := by
      intro n
      rw [hcontent, getDataFromHash, hconfig, Option.getD_some, hdata]
      dsimp only
      rw [if_neg (by omega), Int.toNat_natCast]
    have hserves : Serves config l.index sockfd e data ↔ Available config lines hash := by
      rw [serves_iff hsocket, available_iff hl hindex stray.heap]
      simp only [hbytes]
    rw [← hserves]
    constructor
    · intro h
      obtain ⟨_, other, hother, _, hs⟩ := h.listed hlisted
      rw [hlist, List.cons.injEq] at hother
      rw [hother.1, ← hoffset]
      exact hs
    · intro h
      refine ⟨fun _ => ⟨hdata.trans hoffset.symm, data, hlist, hsent, ?_⟩,
        fun hnot => absurd hlisted hnot⟩
      rw [hoffset]
      exact h
  · constructor
    · intro h
      have hnone := (h.unlisted hlisted).1 (dataPacket e data 0) (by simp [hsent])
      exact absurd (dataPacket_packetType e data 0) hnone
    · rintro ⟨l, hl, _⟩
      exact absurd (listed_iff.mpr ⟨l, hl⟩) hlisted

/-- A GET leads to what it has to exactly when its hash is listed and its
chunk is there. -/
theorem get_served_iff (e : Endian) (config : Config) (lines : List ChunkLine)
    (hconfig : config.chunkFile = some lines) (hlines : ∀ l ∈ lines, WellFormed l) (now : Int)
    (stray : Stray) (packet : DataPacket) (sockfd : Int) (peer : Peer R)
    (htype : packet.header.packetType = 2) (hlen : 20 ≤ packet.data.length) :
    Served e config lines (packet.data.take 20) stray sockfd peer
        (handlePacket e config now stray packet sockfd peer) ↔
      Available config lines (packet.data.take 20) := by
  obtain ⟨data, hlist, hsent, hsocket, hcontent⟩ :=
    handleGet_eq e config stray sockfd (packet.ntoh e) peer
  rw [handlePacket_get e config now stray sockfd peer htype]
  exact served_iff hconfig hlines (by rw [List.length_take]; omega) hlist hsent hsocket hcontent

/-- A GET for one of the two chunks of the library. -/
theorem get_served_run :
    Served .little library masterLines ((initPacket .little 2 (some (chunkHash 49)) 20).data.take 20)
        cleared 1 (Peer.init : Peer ℚ) (handlePacket .little library 0 cleared
          (initPacket .little 2 (some (chunkHash 49)) 20) 1 Peer.init) ↔
      Available library masterLines
        ((initPacket .little 2 (some (chunkHash 49)) 20).data.take 20) :=
  get_served_iff .little library masterLines rfl (by decide) 0 cleared
    (initPacket .little 2 (some (chunkHash 49)) 20) 1 Peer.init rfl (by decide)

/-- A GET for a hash that no line has is answered with the chunk of the last
line. -/
theorem get_unlisted :
    ¬∀ hash, hash.length = 20 →
      Served .little library masterLines hash cleared 1 (Peer.init : Peer ℚ)
        (handlePacket .little library 0 cleared (initPacket .little 2 (some hash) 20) 1
          Peer.init) := by
  intro h
  have hserved := h (chunkHash 51) (by decide)
  have hunlisted : ¬Listed masterLines (chunkHash 51) := by
    show ¬∃ l ∈ masterLines, l.hash = chunkHash 51
    decide
  obtain ⟨data, _, hsent, _⟩ := handleGet_eq (R := ℚ) .little library cleared 1
    ((initPacket .little 2 (some (chunkHash 51)) 20).ntoh .little) Peer.init
  have hnone := (hserved.unlisted hunlisted).1
  rw [handlePacket_get .little library 0 cleared 1 Peer.init rfl, hsent] at hnone
  exact hnone _ List.mem_cons_self (dataPacket_packetType .little data 0)

end Serving

section Packets

variable [Rate R]

/-- A transfer with the tracker answers ACKs, one after the other. -/
def answerStep (e : Endian) (s : Data R × List PacketTracker) (ackNumber : Int) :
    (Data R × List PacketTracker) × List DataPacket :=
  let answer := s.1.answer e ackNumber s.2
  ((answer.1, answer.2.1), answer.2.2)

theorem Serves.answered {e : Endian} {config : Config} {index sockfd ackNumber : Int}
    {data after : Data R} {before tracker : List PacketTracker} {packets : List DataPacket}
    (h : Serves config index sockfd e data) (hw : Unsent data) (hlow : -1 ≤ ackNumber)
    (ha : Answered e ackNumber data before after tracker packets) :
    Serves config index sockfd e after ∧
      ∀ p ∈ packets, ∃ k : Nat, k < 512 ∧ p.data = filePacket config index k := by
  obtain ⟨hsocket, hoffset, hcontent⟩ := ha.identity
  refine ⟨⟨hsocket.trans h.socket, fun k hk => ?_⟩, fun p hp => ?_⟩
  · rw [dataPacket_congr e hcontent hoffset]
    exact h.packets k hk
  · obtain ⟨k, ⟨hack, hk⟩, _, rfl⟩ := answered_sends hw (by omega) ha p hp
    have hend := hw.low
    have hrange : 0 ≤ k - 1 ∧ k - 1 < 512 := by
      obtain ⟨_, _, _, rfl⟩ | ⟨_, _, hnew, hlast⟩ := hk
      · omega
      · omega
    have hpacket := h.packets (k - 1).toNat (by omega)
    rw [Int.toNat_of_nonneg hrange.1] at hpacket
    exact ⟨(k - 1).toNat, by omega, hpacket⟩

theorem Serves.outputs {e : Endian} {config : Config} {index sockfd : Int} (acks : List Int)
    (hacks : ∀ a ∈ acks, -1 ≤ a) {data : Data R} (pTracker : List PacketTracker)
    (h : Serves config index sockfd e data) (hw : Unsent data) :
    ∀ p ∈ outputs (answerStep e) (data, pTracker) acks,
      ∃ k : Nat, k < 512 ∧ p.data = filePacket config index k := by
  induction acks generalizing data pTracker with
  | nil => exact fun p hp => absurd hp List.not_mem_nil
  | cons ack acks ih =>
    have ha := data.answer_answered e ack pTracker
    obtain ⟨hafter, hpackets⟩ := h.answered hw (hacks ack List.mem_cons_self) ha
    intro p hp
    obtain hp | hp := List.mem_append.mp hp
    · exact hpackets p hp
    · exact ih (fun a ha' => hacks a (List.mem_cons_of_mem ack ha')) _ hafter
        (answered_unsent hw ha) p hp

end Packets

end P2PCC.GetRequests

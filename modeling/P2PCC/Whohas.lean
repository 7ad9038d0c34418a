import P2PCC.ActiveChunks

namespace P2PCC.Whohas

open P2PCC.Lib.ByteOrder P2PCC.Lib.FirstMatch P2PCC.Lib.Slots P2PCC.Packet P2PCC.ChunkFile
open P2PCC.Tracker P2PCC.Sender P2PCC.HandlePacket P2PCC.Receiving P2PCC.ActiveChunks

/-- The packet lists these hashes, behind a count byte and three bytes of
padding. -/
structure Carries (packet : DataPacket) (hs : List (List Byte)) : Prop where
  size : ∀ h ∈ hs, h.length = 20
  layout : ∃ count pad₁ pad₂ pad₃ rest,
    packet.data = count :: pad₁ :: pad₂ :: pad₃ :: (hs.flatten ++ rest) ∧
      count.toInt = hs.length

theorem drop_pieces {hs : List (List Byte)} (hsize : ∀ h ∈ hs, h.length = 20) (rest : List Byte)
    {i : Nat} (hi : i < hs.length) :
    ((hs.flatten ++ rest).drop (20 * i)).take 20 = hs[i] := by
  induction hs generalizing i with
  | nil => simp at hi
  | cons h hs ih =>
    obtain ⟨hh, hhs⟩ := List.forall_mem_cons.mp hsize
    rw [List.flatten_cons, List.append_assoc]
    cases i with
    | zero => simp [← hh]
    | succ i =>
      have hdrop : (h ++ (hs.flatten ++ rest)).drop (20 * (i + 1)) =
          (hs.flatten ++ rest).drop (20 * i) := by
        rw [show 20 * (i + 1) = h.length + 20 * i by omega, List.drop_append]
        simp
      rw [hdrop]
      exact ih hhs (by simpa using hi)

theorem hashAt_eq (packet : DataPacket) (i : Nat) (h : 4 + 20 * i + 20 ≤ packet.data.length) :
    hashAt packet i = ((packet.data.drop 4).drop (20 * i)).take 20 := by
  apply List.ext_getElem
  · simp only [hashAt, List.length_map, List.length_range, List.length_take, List.length_drop]
    omega
  · intro j hj _
    simp only [hashAt, List.length_map, List.length_range] at hj
    simp only [hashAt, List.getElem_map, List.getElem_range, List.getElem_take, List.getElem_drop]
    rw [List.getD_eq_getElem _ _ (by omega)]
    congr 1
    omega

theorem Carries.hashes_eq {packet : DataPacket} {hs : List (List Byte)} (h : Carries packet hs) :
    hashes packet = hs := by
  obtain ⟨count, pad₁, pad₂, pad₃, rest, hdata, hcount⟩ := h.layout
  have hlen := flatten_length h.size
  have hn : hashCount packet = hs.length := by
    simp [hashCount, hdata, hcount]
  apply List.ext_getElem
  · simp [hashes, hn]
  · intro i _ hi
    have hbound : 4 + 20 * i + 20 ≤ packet.data.length := by
      simp only [hdata, List.length_cons, List.length_append, hlen]
      omega
    simp only [hashes, List.getElem_map, List.getElem_range]
    rw [hashAt_eq packet i hbound, hdata]
    exact drop_pieces h.size rest hi

theorem readLines_eq (ls : List ChunkLine) (data : List Byte) (h : ∀ l ∈ ls, l.token.length ≤ 40) :
    readLines ls data = some (data ++ (ls.map ChunkLine.hash).flatten) := by
  induction ls generalizing data with
  | nil => simp [readLines]
  | cons l ls ih =>
    obtain ⟨hl, hls⟩ := List.forall_mem_cons.mp h
    rw [readLines, if_neg (by omega), ih _ hls]
    simp

theorem strlen_pieces (hs : List (List Byte)) (hsize : ∀ h ∈ hs, h.length = 20) :
    strlen (hs.flatten ++ [0]) / 20 = (hs.takeWhile (fun h => decide ((0 : Byte) ∉ h))).length := by
  induction hs with
  | nil => rfl
  | cons h hs ih =>
    obtain ⟨hh, hhs⟩ := List.forall_mem_cons.mp hsize
    rw [List.flatten_cons, List.append_assoc, strlen, List.findIdx_append]
    by_cases hz : (0 : Byte) ∈ h
    · have hlt : h.findIdx (fun c => decide (c = 0)) < h.length := by
        rw [List.findIdx_lt_length]
        exact ⟨0, hz, by simp⟩
      rw [if_pos hlt, List.takeWhile_cons_of_neg (by simpa using hz)]
      exact Nat.div_eq_of_lt (by omega)
    · have hge : ¬h.findIdx (fun c => decide (c = 0)) < h.length := by
        rw [List.findIdx_lt_length]
        rintro ⟨c, hc, h0⟩
        obtain rfl : c = 0 := by simpa using h0
        exact hz hc
      rw [if_neg hge, List.takeWhile_cons_of_pos (by simpa using hz), List.length_cons, ← ih hhs,
        hh, strlen]
      omega

theorem findInLocalHas_iff (hs : List (List Byte)) (hsize : ∀ h ∈ hs, h.length = 20)
    {hash : List Byte} (hhash : hash.length = 20) :
    findInLocalHas hash (hs.flatten ++ [0]) = 1 ↔
      hash ∈ hs.takeWhile (fun h => decide ((0 : Byte) ∉ h)) := by
  have hpre := List.takeWhile_prefix (fun h : List Byte => decide ((0 : Byte) ∉ h)) (l := hs)
  have hentry : ∀ i (hi : i < (hs.takeWhile (fun h => decide ((0 : Byte) ∉ h))).length),
      sameHash hash ((hs.flatten ++ [0]).drop (i * 20)) = true ↔
        hash = (hs.takeWhile (fun h => decide ((0 : Byte) ∉ h)))[i] := by
    intro i hi
    have hlt : i < hs.length := lt_of_lt_of_le hi hpre.length_le
    rw [← sameHash_take, mul_comm, drop_pieces hsize [0] hlt, hpre.getElem hi]
    exact sameHash_iff hhash (hsize _ (List.getElem_mem hlt))
  rw [findInLocalHas, strlen_pieces hs hsize, List.mem_iff_getElem]
  constructor
  · intro h
    split at h
    · rename_i hany
      obtain ⟨i, hi, hsame⟩ := List.any_eq_true.mp hany
      rw [List.mem_range] at hi
      exact ⟨i, hi, ((hentry i hi).mp hsame).symm⟩
    · cases h
  · rintro ⟨i, hi, hsame⟩
    rw [if_pos]
    exact List.any_eq_true.mpr ⟨i, List.mem_range.mpr hi, (hentry i hi).mpr hsame.symm⟩

/-- The requested hashes that the has-chunk file lists. -/
def occurring (ls : List ChunkLine) (hs : List (List Byte)) : List (List Byte) :=
  hs.filter (fun h => ls.any (fun l => l.hash = h))

/-- The requested hashes that are found: `strlen` ends the file at its first
zero byte. -/
def found (ls : List ChunkLine) (hs : List (List Byte)) : List (List Byte) :=
  hs.filter (fun h => h ∈ (ls.map ChunkLine.hash).takeWhile (fun h => decide ((0 : Byte) ∉ h)))

theorem handleWhohas_eq (e : Endian) {config : Config} {ls : List ChunkLine}
    (hfile : config.hasChunkFile = some ls) (hlines : ∀ l ∈ ls, l.token.length = 40)
    {packet : DataPacket} {hs : List (List Byte)} (hc : Carries packet hs) :
    handleWhohas e config packet = if found ls hs = [] then []
      else [initPacket e 1 (some (found ls hs).flatten) (found ls hs).flatten.length] := by
  have hread : readChunkfile config.hasChunkFile = some (ls.map ChunkLine.hash).flatten := by
    rw [hfile]
    exact readLines_eq ls [] fun l hl => (hlines l hl).le
  have hfound : ((List.range (hashCount packet)).map (hashAt packet)).filter
      (fun hash => decide (findInLocalHas hash ((ls.map ChunkLine.hash).flatten ++ [0]) = 1)) =
      found ls hs := by
    have hhs : (List.range (hashCount packet)).map (hashAt packet) = hs := hc.hashes_eq
    rw [hhs, found]
    apply List.filter_congr
    intro h hh
    rw [Bool.eq_iff_iff, decide_eq_true_eq, decide_eq_true_eq]
    exact findInLocalHas_iff _ (by simp) (hc.size h hh)
  rw [handleWhohas, hread]
  dsimp only
  rw [hfound]

theorem carries_initPacket (e : Endian) {type : Byte} (ht : type = 0 ∨ type = 1)
    {hs : List (List Byte)} (hsize : ∀ h ∈ hs, h.length = 20) (hne : hs ≠ [])
    (hlen : hs.length ≤ 127) :
    Carries (initPacket e type (some hs.flatten) hs.flatten.length) hs := by
  have hflat := flatten_length hsize
  have hpos : 0 < hs.length := List.length_pos_iff.mpr hne
  have hcount : hs.flatten.length / 20 = hs.length := by omega
  have hnz : BitVec.ofNat 8 hs.length ≠ 0 := by
    intro h
    have hz : hs.length % 256 = 0 := by simpa using congrArg BitVec.toNat h
    omega
  refine ⟨hsize, BitVec.ofNat 8 hs.length, 1, 1, 1, [], ?_, ?_⟩
  · simp only [initPacket, ht, ↓reduceIte, Option.isSome_some, Option.getD_some, padding,
      hcount, hnz, List.take_length]
    simp
  · rw [BitVec.toInt_eq_toNat_cond, BitVec.toNat_ofNat, Nat.mod_eq_of_lt (by omega),
      if_pos (by omega)]

theorem mem_lines_iff (ls : List ChunkLine) (h : List Byte) :
    h ∈ (ls.map ChunkLine.hash).takeWhile (fun h => decide ((0 : Byte) ∉ h)) ↔
      ∃ pre l post, ls = pre ++ l :: post ∧ l.hash = h ∧
        ∀ k ∈ pre ++ [l], (0 : Byte) ∉ k.hash := by
  rw [mem_takeWhile_iff]
  constructor
  · rintro ⟨hz, pre', post', hsplit, hpre⟩
    obtain ⟨pre, rest, rfl, rfl, hrest⟩ := List.map_eq_append_iff.mp hsplit
    obtain ⟨l, post, rfl, rfl, _⟩ := List.map_eq_cons_iff.mp hrest
    refine ⟨pre, l, post, rfl, rfl, ?_⟩
    simpa [or_imp, forall_and] using ⟨by simpa using hpre, by simpa using hz⟩
  · rintro ⟨pre, l, post, rfl, rfl, hz⟩
    refine ⟨by simpa using hz l (by simp), pre.map ChunkLine.hash, post.map ChunkLine.hash,
      by simp, ?_⟩
    intro y hy
    obtain ⟨k, hk, rfl⟩ := List.mem_map.mp hy
    simpa using hz k (List.mem_append_left _ hk)

theorem found_eq_occurring_iff (ls : List ChunkLine) (hs : List (List Byte)) :
    found ls hs = occurring ls hs ↔ ∀ h ∈ hs, (∃ l ∈ ls, l.hash = h) →
      ∃ pre l post, ls = pre ++ l :: post ∧ l.hash = h ∧
        ∀ k ∈ pre ++ [l], (0 : Byte) ∉ k.hash := by
  constructor
  · rintro heq h hh ⟨l, hl, hlh⟩
    have hocc : h ∈ occurring ls hs :=
      List.mem_filter.mpr ⟨hh, List.any_eq_true.mpr ⟨l, hl, by simpa using hlh⟩⟩
    rw [← heq] at hocc
    exact (mem_lines_iff ls h).mp (of_decide_eq_true (List.mem_filter.mp hocc).2)
  · intro hall
    apply List.filter_congr
    intro h hh
    rw [Bool.eq_iff_iff, decide_eq_true_eq, mem_lines_iff, List.any_eq_true]
    constructor
    · rintro ⟨pre, l, post, rfl, hlh, _⟩
      exact ⟨l, by simp, by simpa using hlh⟩
    · rintro ⟨l, hl, hlh⟩
      exact hall h hh ⟨l, hl, of_decide_eq_true hlh⟩

variable {R : Type} [Rate R]

/-- The answer lists the requested hashes that occur in the file, in their
order, and there is none when none occurs. -/
def AnsweredExactly (ls : List ChunkLine) (hs : List (List Byte)) (replies : List DataPacket) :
    Prop :=
  (replies = [] ↔ occurring ls hs = []) ∧ ∀ reply ∈ replies,
    replies = [reply] ∧ reply.header.packetType = 1 ∧ Carries reply (occurring ls hs)

/-- A WHOHAS is answered exactly if and only if every requested hash of the
file has an occurrence that no line with a zero byte precedes and that has no
zero byte itself. -/
theorem whohas_exact_iff (e : Endian) (config : Config) (ls : List ChunkLine)
    (hfile : config.hasChunkFile = some ls) (hlines : ∀ l ∈ ls, l.token.length = 40)
    (now : Int) (stray : Stray) (packet : DataPacket) (hs : List (List Byte))
    (hc : Carries packet hs) (ht : packet.header.packetType = 0) (sockfd : Int) (peer : Peer R) :
    AnsweredExactly ls hs (handlePacket e config now stray packet sockfd peer).2 ↔
      ∀ h ∈ hs, (∃ l ∈ ls, l.hash = h) →
        ∃ pre l post, ls = pre ++ l :: post ∧ l.hash = h ∧ ∀ k ∈ pre ++ [l], (0 : Byte) ∉ k.hash := by
  have hc' : Carries (packet.ntoh e) hs := ⟨hc.size, hc.layout⟩
  have hreply : (handlePacket e config now stray packet sockfd peer).2 =
      handleWhohas e config (packet.ntoh e) := by
    rw [handlePacket, ntoh_packetType, ht]
    rfl
  have hsize : ∀ h ∈ found ls hs, h.length = 20 :=
    fun h hf => hc.size h (List.mem_of_mem_filter hf)
  have hcount : (found ls hs).length ≤ 127 := by
    obtain ⟨count, _, _, _, _, _, hn⟩ := hc.layout
    have hlt := BitVec.toInt_lt (x := count)
    have hle : (found ls hs).length ≤ hs.length := List.length_filter_le _ hs
    omega
  rw [← found_eq_occurring_iff, hreply, handleWhohas_eq e hfile hlines hc']
  by_cases hempty : found ls hs = []
  · rw [if_pos hempty, hempty]
    constructor
    · exact fun h => (h.1.mp rfl).symm
    · exact fun h => ⟨⟨fun _ => h.symm, fun _ => rfl⟩, by simp⟩
  · rw [if_neg hempty]
    have hcarries := carries_initPacket e (Or.inr rfl) hsize hempty hcount
    constructor
    · intro h
      have hocc := (h.2 _ (List.mem_singleton_self _)).2.2
      exact hcarries.hashes_eq.symm.trans hocc.hashes_eq
    · intro h
      refine ⟨by simp [← h, hempty], ?_⟩
      intro reply hr
      obtain rfl := List.mem_singleton.mp hr
      rw [← h]
      exact ⟨rfl, initPacket_packetType e 1 _ _, hcarries⟩

/-- Two lines, the first with a zero byte in its hash. -/
def zeroFirst : List ChunkLine :=
  [⟨0, 48 :: 48 :: List.replicate 38 49⟩, ⟨1, List.replicate 40 49⟩]

/-- A WHOHAS for the hash of the second line, which a file of that line alone
answers. -/
theorem whohas_exact_one :
    AnsweredExactly [⟨1, List.replicate 40 49⟩] [chunkHash 49]
        (handlePacket .little { network with hasChunkFile := some [⟨1, List.replicate 40 49⟩] } 0
          cleared (initPacket .little 0 (some [chunkHash 49].flatten) [chunkHash 49].flatten.length) 2
          (Peer.init : Peer ℚ)).2 ↔
      ∀ h ∈ [chunkHash 49], (∃ l ∈ [⟨1, List.replicate 40 49⟩], ChunkLine.hash l = h) →
        ∃ pre l post, [⟨1, List.replicate 40 49⟩] = pre ++ l :: post ∧ ChunkLine.hash l = h ∧
          ∀ k ∈ pre ++ [l], (0 : Byte) ∉ k.hash :=
  whohas_exact_iff .little { network with hasChunkFile := some [⟨1, List.replicate 40 49⟩] }
    [⟨1, List.replicate 40 49⟩] rfl (by simp) 0 cleared _ [chunkHash 49]
    (carries_initPacket .little (Or.inl rfl) (by decide) (by simp) (by decide))
    (initPacket_packetType .little 0 _ _) 2 Peer.init

/-- The hash of the first line is in the file, but nothing is found. -/
theorem zero_byte_not_found :
    ¬AnsweredExactly zeroFirst (zeroFirst.map ChunkLine.hash)
      (handlePacket .little { network with hasChunkFile := some zeroFirst } 0 cleared
        (initPacket .little 0 (some (zeroFirst.map ChunkLine.hash).flatten) 40) 2
        (Peer.init : Peer ℚ)).2 := by
  intro h
  have hnone : (handlePacket .little { network with hasChunkFile := some zeroFirst } 0 cleared
      (initPacket .little 0 (some (zeroFirst.map ChunkLine.hash).flatten) 40) 2
      (Peer.init : Peer ℚ)).2 = [] := by decide +kernel
  have hsome : occurring zeroFirst (zeroFirst.map ChunkLine.hash) ≠ [] := by decide +kernel
  exact hsome (h.1.mp hnone)

end P2PCC.Whohas

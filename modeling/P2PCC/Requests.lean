import P2PCC.Whohas

namespace P2PCC.Requests

open P2PCC.Lib.ByteOrder P2PCC.Lib.Slots P2PCC.Packet P2PCC.ChunkFile P2PCC.Tracker P2PCC.Sender
open P2PCC.Manager P2PCC.HandlePacket P2PCC.Peer P2PCC.Receiving P2PCC.ActiveChunks P2PCC.Whohas

variable {R : Type}

/-- The WHOHAS packet for some hashes, as `generate_WHOHAS` makes it. -/
def whohasPacket (e : Endian) (hs : List (List Byte)) : DataPacket :=
  initPacket e 0 (some hs.flatten) hs.flatten.length

/-- The loop cuts the hashes into groups of fifty, and keeps the rest. -/
theorem whohasLoop_groups (e : Endian) (ls : List ChunkLine) (n : Nat) (hs : List (List Byte))
    (ret : List DataPacket) (hls : ∀ l ∈ ls, l.token.length = 40)
    (hsize : ∀ h ∈ hs, h.length = 20) (hroom : hs.length < 50) :
    ∃ (groups : List (List (List Byte))) (last : List (List Byte)), whohasLoop e ls n hs.flatten ret =
        (n + ls.length, some (last.flatten, (groups.map (whohasPacket e)).reverse ++ ret)) ∧
      groups.flatten ++ last = hs ++ ls.map ChunkLine.hash ∧
      (∀ g ∈ groups, g.length = 50) ∧ last.length < 50 := by
  induction ls generalizing n hs ret with
  | nil => exact ⟨[], hs, rfl, by simp, by simp, hroom⟩
  | cons l ls ih =>
    obtain ⟨hl, htail⟩ := List.forall_mem_cons.mp hls
    have hgrown : hs.flatten ++ l.hash = (hs ++ [l.hash]).flatten := by simp
    have hsize' : ∀ h ∈ hs ++ [l.hash], h.length = 20 := by
      intro h hh
      obtain hh | hh := List.mem_append.mp hh
      · exact hsize h hh
      · rw [List.mem_singleton.mp hh, hash_length]
    have hlength := flatten_length hsize'
    rw [List.length_append, List.length_singleton] at hlength
    rw [whohasLoop, if_neg (by omega), hgrown]
    by_cases hfull : hs.length + 1 = 50
    · rw [if_pos (by omega)]
      obtain ⟨groups, last, hr, hparts, hgroups, hlast⟩ := ih (n + 1) []
        (whohasPacket e (hs ++ [l.hash]) :: ret) htail (by simp) (by simp)
      refine ⟨(hs ++ [l.hash]) :: groups, last, ?_, ?_, ?_, hlast⟩
      · rw [List.flatten_nil, whohasPacket] at hr
        rw [hr]
        simp [add_comm, add_left_comm, whohasPacket]
      · rw [List.flatten_cons, List.append_assoc, hparts]
        simp
      · exact List.forall_mem_cons.mpr ⟨by simpa using hfull, hgroups⟩
    · rw [if_neg (by omega)]
      obtain ⟨groups, last, hr, hparts, hgroups, hlast⟩ := ih (n + 1) (hs ++ [l.hash]) ret htail
        hsize' (by rw [List.length_append, List.length_singleton]; omega)
      refine ⟨groups, last, ?_, ?_, hgroups, hlast⟩
      · rw [hr, List.length_cons]
        simp [add_comm, add_left_comm]
      · rw [hparts]
        simp

theorem carries_nil (e : Endian) : Carries (whohasPacket e []) [] :=
  ⟨by simp, 0, 0, 0, 0, [], rfl, rfl⟩

theorem whohasPacket_carries (e : Endian) {hs : List (List Byte)}
    (hsize : ∀ h ∈ hs, h.length = 20) (hlen : hs.length ≤ 50) : Carries (whohasPacket e hs) hs := by
  by_cases hne : hs = []
  · rw [hne]
    exact carries_nil e
  · exact carries_initPacket e (Or.inl rfl) hsize hne (by omega)

theorem whohasPacket_decoded (e : Endian) {hs : List (List Byte)}
    (hsize : ∀ h ∈ hs, h.length = 20) (hlen : hs.length ≤ 50) :
    hashes ((whohasPacket e hs).ntoh e) = hs ∧
      ((whohasPacket e hs).ntoh e).header.packetLen.toNat = 20 + 20 * hs.length := by
  have hcarries := whohasPacket_carries e hsize hlen
  refine ⟨Carries.hashes_eq ⟨hcarries.size, hcarries.layout⟩, ?_⟩
  have hlength := flatten_length hsize
  simp only [DataPacket.ntoh, whohasPacket, initPacket, hton16_hton16, Option.isSome_some,
    ↓reduceIte, true_or, hlength, BitVec.toNat_ofNat]
  omega

/-- A request lists the hashes of the chunk file in its order, each once, and
the file manager has their chunks: for every hash the index of the first line
of the master chunk file that has it. -/
theorem request_partition (e : Endian) (config : Config) (now : Int) (ls : List ChunkLine)
    (outputfile : List Byte) (peer : Peer R) (hls : ∀ l ∈ ls, l.token.length = 40) :
    (((generateWhohas e config now (some ls) outputfile peer).2.reverse.map
          (fun p => p.ntoh e)).flatMap hashes = ls.map ChunkLine.hash ∧
      ∀ p ∈ (generateWhohas e config now (some ls) outputfile peer).2.reverse,
        (hashes (p.ntoh e)).length ≤ 50 ∧
          (p.ntoh e).header.packetLen.toNat = 20 + 20 * (hashes (p.ntoh e)).length) ∧
      (generateWhohas e config now (some ls) outputfile peer).1.fileManager.chunkCount =
        ls.length ∧
      ∀ i (h : i < ls.length),
        (generateWhohas e config now (some ls) outputfile peer).1.fileManager.offset[i]? =
            some (getOffSetFromMasterChunkfile ls[i].hash config) ∧
          FirstIndex config.masterLines ls[i].hash
            (getOffSetFromMasterChunkfile ls[i].hash config) ∧
          ∀ lines, config.chunkFile = some lines → (∀ l ∈ lines, l.token.length = 40) →
            FirstIndex lines ls[i].hash (getOffSetFromMasterChunkfile ls[i].hash config) := by
  obtain ⟨groups, last, hr, hparts, hgroups, hlast⟩ := whohasLoop_groups e ls 0 [] [] hls (by simp)
    (by simp)
  rw [List.flatten_nil, List.append_nil] at hr
  rw [List.nil_append] at hparts
  have hall : ∀ g ∈ groups ++ [last], g.length ≤ 50 ∧ ∀ h ∈ g, h.length = 20 := by
    have hsize : ∀ h ∈ groups.flatten ++ last, h.length = 20 := by
      rw [hparts]
      simp
    intro g hg
    obtain hg | hg := List.mem_append.mp hg
    · refine ⟨(hgroups g hg).le, fun h hh => hsize h (List.mem_append_left _ ?_)⟩
      exact List.mem_flatten.mpr ⟨g, hg, hh⟩
    · obtain rfl := List.mem_singleton.mp hg
      exact ⟨hlast.le, fun h hh => hsize h (List.mem_append_right _ hh)⟩
  have hpackets : (generateWhohas e config now (some ls) outputfile peer).2.reverse =
      (groups ++ [last]).map (whohasPacket e) := by
    simp [generateWhohas, hr, whohasPacket]
  rw [hpackets]
  refine ⟨⟨?_, ?_⟩, ?_, ?_⟩
  · have hdecode : ∀ g ∈ groups ++ [last], hashes ((whohasPacket e g).ntoh e) = g :=
      fun g hg => (whohasPacket_decoded e (hall g hg).2 (hall g hg).1).1
    rw [List.map_map, List.flatMap_map, ← hparts]
    calc (groups ++ [last]).flatMap (fun g => hashes ((whohasPacket e g).ntoh e))
        = (groups ++ [last]).flatMap id := List.flatMap_congr fun g hg => hdecode g hg
      _ = groups.flatten ++ last := by simp
  · intro p hp
    obtain ⟨g, hg, rfl⟩ := List.mem_map.mp hp
    obtain ⟨hread, hlen⟩ := whohasPacket_decoded e (hall g hg).2 (hall g hg).1
    rw [hread]
    exact ⟨(hall g hg).1, hlen⟩
  · simp [generateWhohas, hr]
  · intro i hi
    have hlen := hash_length ls[i]
    refine ⟨?_, getOffSet_first config hlen, fun lines hconfig htokens => ?_⟩
    · have hread := uncleared_map hls (fun hash => getOffSetFromMasterChunkfile hash config) []
      have hoffset : (generateWhohas e config now (some ls) outputfile peer).1.fileManager.offset =
          ls.map (fun l => getOffSetFromMasterChunkfile l.hash config) := by
        simpa only [generateWhohas, hr] using hread
      rw [hoffset, List.getElem?_map, List.getElem?_eq_getElem hi, Option.map_some]
    · exact getOffSet_first_full hconfig htokens hlen

def hundredAndOne : List ChunkLine := List.replicate 101 ⟨0, List.replicate 40 48⟩

theorem request_partition_run :
    (((generateWhohas .little network 0 (some hundredAndOne) [] (Peer.init : Peer ℚ)).2.reverse.map
          (fun p => p.ntoh .little)).flatMap hashes = hundredAndOne.map ChunkLine.hash ∧
      ∀ p ∈ (generateWhohas .little network 0 (some hundredAndOne) []
          (Peer.init : Peer ℚ)).2.reverse,
        (hashes (p.ntoh .little)).length ≤ 50 ∧ (p.ntoh .little).header.packetLen.toNat =
          20 + 20 * (hashes (p.ntoh .little)).length) ∧
      (generateWhohas .little network 0 (some hundredAndOne) []
          (Peer.init : Peer ℚ)).1.fileManager.chunkCount = hundredAndOne.length ∧
      ∀ i (h : i < hundredAndOne.length),
        (generateWhohas .little network 0 (some hundredAndOne) []
            (Peer.init : Peer ℚ)).1.fileManager.offset[i]? =
            some (getOffSetFromMasterChunkfile hundredAndOne[i].hash network) ∧
          FirstIndex network.masterLines hundredAndOne[i].hash
            (getOffSetFromMasterChunkfile hundredAndOne[i].hash network) ∧
          ∀ lines, network.chunkFile = some lines → (∀ l ∈ lines, l.token.length = 40) →
            FirstIndex lines hundredAndOne[i].hash
              (getOffSetFromMasterChunkfile hundredAndOne[i].hash network) :=
  request_partition .little network 0 hundredAndOne [] (Peer.init : Peer ℚ)
    (fun l hl => by rw [List.eq_of_mem_replicate hl]; rfl)

end P2PCC.Requests

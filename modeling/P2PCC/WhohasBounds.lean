import P2PCC.GetRequests
import P2PCC.Whohas

namespace P2PCC.WhohasBounds

open P2PCC.Lib.ByteOrder P2PCC.Lib.Runs P2PCC.Lib.Slots P2PCC.Packet P2PCC.ChunkFile P2PCC.Receiver
open P2PCC.HandlePacket P2PCC.Receiving P2PCC.ActiveChunks P2PCC.Whohas P2PCC.GetRequests

/-- A write to one of the buffers of the WHOHAS branch, or a read of the
packet that came in. -/
inductive Access where
  | localHas (i : Nat)
  | data (i : Nat)
  | reply (i : Nat)
  | packet (i : Nat)
deriving DecidableEq

def Valid : Access → Prop
  | .localHas i => i < 100
  | .data i => i < 1500
  | .reply i => i < 1200
  | .packet i => i < 1200

/-- `read_chunkfile`: twenty bytes for each line from `count` on, and a NUL at
the end. -/
def readWrites : List ChunkLine → Nat → List Access
  | [], count => [.localHas count]
  | l :: ls, count =>
    if l.token.length > 40 then []
    else (List.range 20).map (fun j => .localHas (count + j)) ++ readWrites ls (count + 20)

/-- A pass of the loop over the hashes of the packet, with `reply_count`. -/
def replyPass (packet : DataPacket) (localHas : List Byte) (replyCount i : Nat) :
    Nat × List Access :=
  let reads := (List.range 20).map (fun j => .packet (4 + 20 * i + j))
  if findInLocalHas (hashAt packet i) localHas = 1 then
    (replyCount + 20, reads ++ (List.range 20).map (fun j => .data (replyCount + j)))
  else (replyCount, reads)

def replyCount (packet : DataPacket) (localHas : List Byte) (is : List Nat) : Nat :=
  run (fun n i => (replyPass packet localHas n i).1) 0 is

/-- `init_packet` for an IHAVE packet: `memset`, `strcat` and `memcpy`. The
four bytes of `padding` have no NUL behind them, so that `strcat` goes on over
the `behind` bytes up to the next one. -/
def initWrites (behind length : Nat) : List Access :=
  (List.range 1200).map .reply ++
    (if BitVec.ofNat 8 (length / 20) = 0 then [.reply 0]
      else (List.range (4 + behind + 1)).map .reply) ++
    (List.range length).map (fun j => .reply (4 + j))

/-- What follows the loop: the NUL behind the hashes, and the reply if there is
one. -/
def replyWrites (behind count : Nat) : List Access :=
  .data count :: if count = 0 then [] else initWrites behind count

/-- The accesses of the WHOHAS branch of `handle_packet`. -/
def whohasAccesses (behind : Nat) (config : Config) (packet : DataPacket) : List Access :=
  .packet 0 :: (List.range 1500).map .data ++
    ((config.hasChunkFile.map (fun ls => readWrites ls 0)).getD [] ++
      match readChunkfile config.hasChunkFile with
      | none => []
      | some localHas =>
        let is := List.range (hashCount packet)
        outputs (replyPass packet (localHas ++ [0])) 0 is ++
          replyWrites behind (replyCount packet (localHas ++ [0]) is))

/-- At least one requested hash is found in the has-chunk file. -/
def Answered (ls : List ChunkLine) (packet : DataPacket) : Prop :=
  ∃ i < hashCount packet,
    findInLocalHas (hashAt packet i) ((ls.map ChunkLine.hash).flatten ++ [0]) = 1

/-- At most four lines, at most fifty-nine hashes, and a NUL on the stack
before the reply ends, if there is one. -/
structure Fits (behind : Nat) (ls : List ChunkLine) (packet : DataPacket) : Prop where
  lines : ls.length ≤ 4
  count : hashCount packet ≤ 59
  stack : Answered ls packet → behind ≤ 1195

section File

theorem mem_readWrites_end (ls : List ChunkLine) (count : Nat)
    (hshort : ∀ l ∈ ls, l.token.length ≤ 40) :
    .localHas (count + 20 * ls.length) ∈ readWrites ls count := by
  induction ls generalizing count with
  | nil => exact List.mem_singleton_self _
  | cons l ls ih =>
    obtain ⟨hl, hls⟩ := List.forall_mem_cons.mp hshort
    rw [readWrites, if_neg (by omega)]
    apply List.mem_append_right
    have hend : count + 20 * (l :: ls).length = count + 20 + 20 * ls.length := by
      rw [List.length_cons]
      omega
    rw [hend]
    exact ih (count + 20) hls

theorem readWrites_bound (ls : List ChunkLine) (count : Nat) {a : Access}
    (ha : a ∈ readWrites ls count) : ∃ k, k ≤ count + 20 * ls.length ∧ a = .localHas k := by
  induction ls generalizing count with
  | nil => exact ⟨count, by simp, List.mem_singleton.mp ha⟩
  | cons l ls ih =>
    rw [readWrites] at ha
    split at ha
    · exact absurd ha List.not_mem_nil
    · rw [List.length_cons]
      obtain ha | ha := List.mem_append.mp ha
      · obtain ⟨j, hj, rfl⟩ := List.mem_map.mp ha
        rw [List.mem_range] at hj
        exact ⟨count + j, by omega, rfl⟩
      · obtain ⟨k, hk, rfl⟩ := ih (count + 20) ha
        exact ⟨k, by omega, rfl⟩

theorem readWrites_valid (ls : List ChunkLine) (hshort : ∀ l ∈ ls, l.token.length ≤ 40) :
    (∀ a ∈ readWrites ls 0, Valid a) ↔ ls.length ≤ 4 := by
  constructor
  · intro h
    have hend : 0 + 20 * ls.length < 100 := h _ (mem_readWrites_end ls 0 hshort)
    omega
  · intro hle a ha
    obtain ⟨k, hk, rfl⟩ := readWrites_bound ls 0 ha
    have hlt : k < 100 := by omega
    exact hlt

end File

section Loop

variable (packet : DataPacket) (localHas : List Byte)

theorem run_replyPass (is : List Nat) (n : Nat) :
    run (fun n i => (replyPass packet localHas n i).1) n is =
      n + 20 * (is.filter (fun i => findInLocalHas (hashAt packet i) localHas = 1)).length := by
  induction is generalizing n with
  | nil => rfl
  | cons i is ih =>
    rw [run_cons, ih, replyPass]
    by_cases h : findInLocalHas (hashAt packet i) localHas = 1
    · rw [if_pos h, List.filter_cons_of_pos (by simpa using h), List.length_cons]
      dsimp only
      omega
    · rw [if_neg h, List.filter_cons_of_neg (by simpa using h)]

theorem handleWhohas_replyCount (e : Endian) {config : Config}
    (hread : readChunkfile config.hasChunkFile = some localHas) :
    handleWhohas e config packet =
      if replyCount packet (localHas ++ [0]) (List.range (hashCount packet)) = 0 then []
      else [initPacket e 1 (some ((hashes packet).filter
          (fun h => findInLocalHas h (localHas ++ [0]) = 1)).flatten)
        (replyCount packet (localHas ++ [0]) (List.range (hashCount packet)))] := by
  have hsize : ∀ h ∈ (hashes packet).filter (fun h => findInLocalHas h (localHas ++ [0]) = 1),
      h.length = 20 := by
    intro h hh
    obtain ⟨i, _, rfl⟩ := List.mem_map.mp (List.mem_of_mem_filter hh)
    exact hashAt_length packet i
  have hcount : replyCount packet (localHas ++ [0]) (List.range (hashCount packet)) =
      ((hashes packet).filter (fun h => findInLocalHas h (localHas ++ [0]) = 1)).flatten.length := by
    rw [flatten_length hsize, replyCount, run_replyPass, hashes, List.filter_map, List.length_map,
      Nat.zero_add]
    rfl
  rw [handleWhohas, hread, hcount, flatten_length hsize]
  dsimp only
  rw [← hashes]
  apply if_congr
  · rw [Nat.mul_eq_zero, or_iff_right (by decide), List.length_eq_zero_iff]
  · rfl
  · rw [flatten_length hsize]

theorem mem_replyPass_reads (n i j : Nat) (hj : j < 20) :
    .packet (4 + 20 * i + j) ∈ (replyPass packet localHas n i).2 := by
  have hmem : Access.packet (4 + 20 * i + j) ∈
      (List.range 20).map (fun j => Access.packet (4 + 20 * i + j)) :=
    List.mem_map.mpr ⟨j, List.mem_range.mpr hj, rfl⟩
  rw [replyPass]
  split
  · exact List.mem_append_left _ hmem
  · exact hmem

theorem mem_outputs_reads (is : List Nat) (n i j : Nat) (hi : i ∈ is) (hj : j < 20) :
    .packet (4 + 20 * i + j) ∈ outputs (replyPass packet localHas) n is := by
  induction is generalizing n with
  | nil => exact absurd hi List.not_mem_nil
  | cons k is ih =>
    rw [outputs]
    obtain rfl | hi := List.mem_cons.mp hi
    · exact List.mem_append_left _ (mem_replyPass_reads packet localHas n i j hj)
    · exact List.mem_append_right _ (ih _ hi)

theorem mem_outputs_replyPass (is : List Nat) (n : Nat) {a : Access}
    (ha : a ∈ outputs (replyPass packet localHas) n is) :
    (∃ i ∈ is, ∃ j < 20, a = .packet (4 + 20 * i + j)) ∨
      ∃ k, k < n + 20 * is.length ∧ a = .data k := by
  induction is generalizing n with
  | nil => exact absurd ha List.not_mem_nil
  | cons i is ih =>
    rw [outputs] at ha
    have hgrown : (replyPass packet localHas n i).1 ≤ n + 20 := by
      rw [replyPass]
      split
      · exact le_rfl
      · exact Nat.le_add_right n 20
    rw [List.length_cons]
    obtain ha | ha := List.mem_append.mp ha
    · rw [replyPass] at ha
      split at ha
      · obtain ha | ha := List.mem_append.mp ha
        · obtain ⟨j, hj, rfl⟩ := List.mem_map.mp ha
          exact Or.inl ⟨i, List.mem_cons_self, j, List.mem_range.mp hj, rfl⟩
        · obtain ⟨j, hj, rfl⟩ := List.mem_map.mp ha
          rw [List.mem_range] at hj
          exact Or.inr ⟨n + j, by omega, rfl⟩
      · obtain ⟨j, hj, rfl⟩ := List.mem_map.mp ha
        exact Or.inl ⟨i, List.mem_cons_self, j, List.mem_range.mp hj, rfl⟩
    · obtain ⟨k, hk, j, hj, rfl⟩ | ⟨k, hk, rfl⟩ := ih _ ha
      · exact Or.inl ⟨k, List.mem_cons_of_mem i hk, j, hj, rfl⟩
      · exact Or.inr ⟨k, by omega, rfl⟩

theorem outputs_replyPass_valid (n : Nat) :
    (∀ a ∈ outputs (replyPass packet localHas) 0 (List.range n), Valid a) ↔ n ≤ 59 := by
  constructor
  · intro h
    by_contra hlt
    have hread : 4 + 20 * 59 + 19 < 1200 :=
      h _ (mem_outputs_reads packet localHas _ 0 59 19 (List.mem_range.mpr (by omega)) (by omega))
    omega
  · intro hle a ha
    obtain ⟨i, hi, j, hj, rfl⟩ | ⟨k, hk, rfl⟩ := mem_outputs_replyPass packet localHas _ 0 ha
    · have hlt : 4 + 20 * i + j < 1200 := by
        rw [List.mem_range] at hi
        omega
      exact hlt
    · have hlt : k < 1500 := by
        rw [List.length_range] at hk
        omega
      exact hlt

end Loop

theorem initWrites_valid {behind length : Nat} (hlength : length ≤ 1180)
    (hcount : BitVec.ofNat 8 (length / 20) ≠ 0) :
    (∀ a ∈ initWrites behind length, Valid a) ↔ behind ≤ 1195 := by
  rw [initWrites, if_neg hcount]
  constructor
  · intro h
    have hnul : 4 + behind < 1200 := h (.reply (4 + behind)) (List.mem_append_left _
      (List.mem_append_right _ (List.mem_map.mpr ⟨4 + behind, List.mem_range.mpr (by omega), rfl⟩)))
    omega
  · intro hle a ha
    obtain ⟨k, hk, rfl⟩ : ∃ k, k < 1200 ∧ a = .reply k := by
      simp only [List.mem_append, List.mem_map, List.mem_range] at ha
      obtain (⟨k, hk, rfl⟩ | ⟨k, hk, rfl⟩) | ⟨k, hk, rfl⟩ := ha
      · exact ⟨k, hk, rfl⟩
      · exact ⟨k, by omega, rfl⟩
      · exact ⟨4 + k, by omega, rfl⟩
    exact hk

theorem replyWrites_valid {behind found : Nat} (hfound : found ≤ 59) :
    (∀ a ∈ replyWrites behind (20 * found), Valid a) ↔ (found ≠ 0 → behind ≤ 1195) := by
  have hnul : Valid (.data (20 * found)) := by
    have hlt : 20 * found < 1500 := by omega
    exact hlt
  rw [replyWrites, List.forall_mem_cons, and_iff_right hnul]
  by_cases hz : found = 0
  · simp [hz]
  · have hcount : BitVec.ofNat 8 (20 * found / 20) ≠ 0 := by
      intro h
      have hmod := congrArg BitVec.toNat h
      simp only [BitVec.toNat_ofNat, BitVec.ofNat_eq_ofNat] at hmod
      omega
    rw [if_neg (by omega), initWrites_valid (by omega) hcount]
    exact ⟨fun h _ => h, fun h => h hz⟩

/-- The accesses of a WHOHAS are in range exactly when the has-chunk file has
at most four lines, the packet at most fifty-nine hashes, and the stack behind
`padding` a NUL in time, if there is a reply. -/
theorem whohas_valid_iff (behind : Nat) (config : Config) (ls : List ChunkLine)
    (hfile : config.hasChunkFile = some ls) (hshort : ∀ l ∈ ls, l.token.length ≤ 40)
    (packet : DataPacket) :
    (∀ a ∈ whohasAccesses behind config packet, Valid a) ↔ Fits behind ls packet := by
  have hread : readChunkfile config.hasChunkFile = some (ls.map ChunkLine.hash).flatten := by
    rw [hfile]
    exact readLines_eq ls [] hshort
  have hfirst : ∀ a ∈ Access.packet 0 :: (List.range 1500).map .data, Valid a := by
    intro a ha
    obtain rfl | ha := List.mem_cons.mp ha
    · exact Nat.zero_lt_succ 1199
    · obtain ⟨k, hk, rfl⟩ := List.mem_map.mp ha
      exact List.mem_range.mp hk
  rw [whohasAccesses, hread, hfile]
  dsimp only
  rw [Option.map_some, Option.getD_some, List.forall_mem_append, and_iff_right hfirst,
    List.forall_mem_append, List.forall_mem_append, readWrites_valid ls hshort,
    outputs_replyPass_valid, replyCount, run_replyPass, Nat.zero_add]
  have hfound : ((List.range (hashCount packet)).filter (fun i => decide
      (findInLocalHas (hashAt packet i) ((ls.map ChunkLine.hash).flatten ++ [0]) = 1))).length ≠ 0 ↔
      Answered ls packet := by
    rw [← Nat.pos_iff_ne_zero, List.length_pos_iff_exists_mem]
    simp [Answered]
  have hle := List.length_filter_le (fun i => decide
    (findInLocalHas (hashAt packet i) ((ls.map ChunkLine.hash).flatten ++ [0]) = 1))
    (List.range (hashCount packet))
  rw [List.length_range] at hle
  constructor
  · rintro ⟨hlines, hcount, hreply⟩
    exact ⟨hlines, hcount, fun hans =>
      (replyWrites_valid (hle.trans hcount)).mp hreply (hfound.mpr hans)⟩
  · rintro ⟨hlines, hcount, hstack⟩
    exact ⟨hlines, hcount,
      (replyWrites_valid (hle.trans hcount)).mpr fun hne => hstack (hfound.mp hne)⟩

/-- A file of one line, and a packet that asks for its hash. -/
theorem whohas_valid_one :
    (∀ a ∈ whohasAccesses 0 { network with hasChunkFile := some [⟨1, List.replicate 40 49⟩] }
        (initPacket .little 0 (some (chunkHash 49)) 20), Valid a) ↔
      Fits 0 [⟨1, List.replicate 40 49⟩] (initPacket .little 0 (some (chunkHash 49)) 20) :=
  whohas_valid_iff 0 { network with hasChunkFile := some [⟨1, List.replicate 40 49⟩] }
    [⟨1, List.replicate 40 49⟩] rfl (by simp) _

/-- A has-chunk file of five lines fills `local_has`, and its NUL goes behind
the array. -/
theorem five_lines_overflow : ¬∀ (config : Config) (ls : List ChunkLine) (packet : DataPacket),
    config.hasChunkFile = some ls → (∀ l ∈ ls, WellFormed l) →
      ∀ a ∈ whohasAccesses 0 config packet, Valid a := by
  intro h
  have hnul : 100 < 100 := h { network with
      hasChunkFile := some (List.replicate 5 ⟨1, List.replicate 40 49⟩) }
    (List.replicate 5 ⟨1, List.replicate 40 49⟩)
    (initPacket .little 0 (some (chunkHash 49)) 20) rfl
    (fun l hl => by rw [List.eq_of_mem_replicate hl]; decide) (.localHas 100)
    (List.mem_append_right _ (List.mem_append_left _
      (mem_readWrites_end (List.replicate 5 ⟨1, List.replicate 40 49⟩) 0 (by simp))))
  exact absurd hnul (lt_irrefl 100)

end P2PCC.WhohasBounds

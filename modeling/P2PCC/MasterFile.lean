import P2PCC.ChunkText
import P2PCC.Digests
import P2PCC.Publishing

namespace P2PCC.MasterFile

open P2PCC.Lib.Scan P2PCC.Packet P2PCC.ChunkFile P2PCC.ChunkText P2PCC.Publishing P2PCC.Digests
open P2PCC.Lib.SecureHash (sha1)
open P2PCC.Sha (Build SHA1Context shahash)

/-- The array that `shahash` writes a hash to. -/
def digest (b : Build) (sha : SHA1Context) (str : List Byte) : Digest :=
  ⟨(shahash b sha str).toArray, writeHash_length b _⟩

/-- The number of chunks of a file, rounded up; `stat` has told its size. A
number too large for an `int` becomes the least one. -/
def getNumchunks (size : Nat) : Int :=
  let numchunks : Int := (size + 524287) / 524288
  if numchunks < 2147483648 then numchunks else -2147483648

/-- What the `main` of `make_chunks` prints for a file. -/
def makeChunksOutput (b : Build) (sha : SHA1Context) (file : List Byte) : Text :=
  if getNumchunks file.length < 0 then []
  else printLines (chunkLines (makeChunks (digest b sha) file))

def piece (file : List Byte) (k : Nat) : List Byte := (file.drop (524288 * k)).take 524288

section Output

variable {b : Build} {sha : SHA1Context} {file : List Byte}

theorem digest_eq (sha : SHA1Context) (hb : Configured b) (str : List Byte) :
    (digest b sha str).toList = sha1 str := by
  have hpieces := sha1Final_pieces hb sha [str]
  rw [List.flatten_singleton] at hpieces
  rw [← hpieces]
  rfl

theorem hexChar_dense (digit : Byte) (h : digit.toNat < 16) : isspace (hexChar digit) = false := by
  revert digit
  decide

theorem binary2hex_word {buf : List Byte} (h : buf ≠ []) : Word (binary2hex buf) := by
  refine ⟨?_, fun c hc => ?_⟩
  · rw [← List.length_pos_iff, binary2hex_length]
    have hpos := List.length_pos_iff.mpr h
    omega
  · obtain ⟨d, -, hd⟩ := List.mem_flatMap.mp hc
    obtain rfl | hd := List.mem_cons.mp hd
    · apply hexChar_dense
      rw [BitVec.toNat_ushiftRight, Nat.shiftRight_eq_div_pow]
      have hlt := d.isLt
      omega
    · rw [List.mem_singleton.mp hd]
      apply hexChar_dense
      rw [BitVec.toNat_and]
      exact Nat.and_lt_two_pow _ (by decide : (15 : Nat) < 2 ^ 4)

theorem chunkLines_words {hashes : List Digest} (h : hashes.length ≤ 2147483648) :
    ∀ l ∈ chunkLines hashes, InRange l.index ∧ Word l.token := by
  intro l hl
  obtain ⟨k, hk, rfl⟩ := mem_chunkLines.mp hl
  refine ⟨⟨by dsimp only; omega, by dsimp only; omega⟩, binary2hex_word ?_⟩
  rw [← List.length_pos_iff, Vector.length_toList]
  decide

theorem getNumchunks_int {size : Nat} (h : size ≤ 1125899906318336) :
    getNumchunks size = (size + 524287) / 524288 := by
  have hint : ((size : Int) + 524287) / 524288 < 2147483648 := by omega
  unfold getNumchunks
  simp only [if_pos hint]

theorem masterLines_output {first path third : Text} (hf : Word first) (hp : Word path)
    (ht : Word third) (hsize : file.length ≤ 1125899906318336) :
    masterLines (header first path third ++ makeChunksOutput b sha file) =
      chunkLines (makeChunks (digest b sha) file) := by
  have hcount : ¬((file.length : Int) + 524287) / 524288 < 0 := by omega
  rw [makeChunksOutput, getNumchunks_int hsize, if_neg hcount]
  apply masterLines_header hf hp ht
  apply chunkLines_words
  rw [makeChunks_length]
  omega

theorem makeChunks_piece (k : Nat) (h : k < (makeChunks (digest b sha) file).length) :
    (makeChunks (digest b sha) file)[k] = digest b sha (piece file k) :=
  makeChunks_getElem file k h

theorem getHash_chunkLines {hashes : List Digest} {config : Config}
    (hc : config.chunkFile = some (chunkLines hashes)) {k : Nat} (hk : k < hashes.length) :
    getHashFromMasterChunkfile k config = some hashes[k].toList := by
  have hfound : ((chunkLines hashes).find? (fun l => l.index = (k : Int))).isSome := by
    rw [List.find?_isSome]
    exact ⟨_, mem_chunkLines.mpr ⟨k, hk, rfl⟩, by simp⟩
  obtain ⟨l, hl⟩ := Option.isSome_iff_exists.mp hfound
  obtain ⟨i, hi, rfl⟩ := mem_chunkLines.mp (List.mem_of_find?_eq_some hl)
  have hindex := List.find?_some hl
  simp only [decide_eq_true_eq] at hindex
  obtain rfl : i = k := by exact_mod_cast hindex
  rw [getHash_full hc chunkLines_token, hl, Option.map_some, chunkLine_hash]

theorem makeChunks_nodup (hb : Configured b)
    (hd : ∀ j k, j < k → 524288 * k < file.length → sha1 (piece file j) ≠ sha1 (piece file k)) :
    (makeChunks (digest b sha) file).Nodup := by
  have hcount := makeChunks_length (digest b sha) file
  rw [List.nodup_iff_pairwise_ne, List.pairwise_iff_getElem]
  intro j k hj hk hjk he
  rw [makeChunks_piece, makeChunks_piece] at he
  apply hd j k hjk (by omega)
  rw [← digest_eq sha hb, ← digest_eq sha hb, he]

end Output

/-- A master chunk file that is made with `make_chunks` from a file whose chunks
an `int` can count: it has as many chunks as were counted, and a peer that reads
it finds the SHA-1 hash of a chunk by the chunk's number, and the number by the
hash. -/
theorem masterFile_lookup (b : Build) (sha : SHA1Context) (file : List Byte)
    (first path third : Text) (config : Config) (hb : Configured b) (hf : Word first)
    (hp : Word path) (ht : Word third) (hsize : file.length ≤ 1125899906318336)
    (hd : ∀ j k, j < k → 524288 * k < file.length → sha1 (piece file j) ≠ sha1 (piece file k))
    (hc : config.chunkFile =
      some (masterLines (header first path third ++ makeChunksOutput b sha file))) :
    ((masterLines (header first path third ++ makeChunksOutput b sha file)).length : Int) =
        getNumchunks file.length ∧
      ∀ k : Nat, 524288 * k < file.length →
        getHashFromMasterChunkfile k config = some (sha1 (piece file k)) ∧
          getOffSetFromMasterChunkfile (sha1 (piece file k)) config = k := by
  have hcount := makeChunks_length (digest b sha) file
  rw [masterLines_output hf hp ht hsize] at hc ⊢
  refine ⟨?_, fun k hk => ?_⟩
  · rw [chunkLines, List.length_mapIdx, hcount, getNumchunks_int hsize]
    omega
  · have hlt : k < (makeChunks (digest b sha) file).length := by omega
    have hhash : (makeChunks (digest b sha) file)[k].toList = sha1 (piece file k) := by
      rw [makeChunks_piece, digest_eq sha hb]
    rw [← hhash]
    exact ⟨getHash_chunkLines hc hlt, getOffSet_chunkLines (makeChunks_nodup hb hd) hc hlt⟩

def smallConfig : Config where
  chunkFile :=
    some (masterLines (header [70] [47] [67] ++ makeChunksOutput littleBuild default [1, 2, 3]))
  content := [1, 2, 3]
  hasChunkFile := none
  identity := 1
  peers := []

theorem masterFile_lookup_small :
    ((masterLines (header [70] [47] [67] ++
        makeChunksOutput littleBuild default [1, 2, 3])).length : Int) = getNumchunks 3 ∧
      ∀ k : Nat, 524288 * k < 3 →
        getHashFromMasterChunkfile k smallConfig = some (sha1 (piece [1, 2, 3] k)) ∧
          getOffSetFromMasterChunkfile (sha1 (piece [1, 2, 3] k)) smallConfig = k :=
  masterFile_lookup littleBuild default [1, 2, 3] [70] [47] [67] smallConfig (Or.inr rfl)
    ⟨by decide, by decide⟩ ⟨by decide, by decide⟩ ⟨by decide, by decide⟩ (by decide)
    (by
      intro j k hjk hk
      simp only [List.length_cons, List.length_nil] at hk
      omega)
    rfl

end P2PCC.MasterFile

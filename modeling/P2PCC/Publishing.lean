import P2PCC.OutputFile
import P2PCC.Successive

namespace P2PCC.Publishing

open P2PCC.Lib.ByteOrder P2PCC.Lib.Slots P2PCC.Packet P2PCC.ChunkFile P2PCC.Successive
open P2PCC.OutputFile

def btChunkSize : Nat := 512 * 1024

abbrev Digest := Vector Byte 20

section Definitions

variable (shahash : List Byte → Digest)

/-- The hashes of the pieces that `fread` returns until nothing is left. -/
def makeChunks (fp : List Byte) : List Digest :=
  if (fp.take btChunkSize).length > 0 then
    shahash (fp.take btChunkSize) :: makeChunks (fp.drop btChunkSize)
  else []
termination_by fp.length
decreasing_by
  rename_i h
  simp only [btChunkSize, List.length_take, List.length_drop] at h ⊢
  omega

end Definitions

/-- A digit as `sprintf` prints it. -/
def hexChar (digit : Byte) : Byte := if digit.toNat < 10 then 48 + digit else 87 + digit

def binary2hex (buf : List Byte) : List Byte :=
  buf.flatMap (fun b : Byte => [hexChar (b >>> 4), hexChar (b &&& 15)])

/-- The lines of a master chunk file, as the `main` of `make_chunks` prints
them. -/
def chunkLines (hashes : List Digest) : List ChunkLine :=
  hashes.mapIdx (fun i hash => ⟨i, binary2hex hash.toList⟩)

theorem hexDigit_hexChar (b : Byte) :
    hexDigit (hexChar (b >>> 4)) <<< 4 ||| hexDigit (hexChar (b &&& 15)) = b := by
  revert b
  decide

theorem binary2hex_getD (buf : List Byte) (i : Nat) (h : i < buf.length) :
    (binary2hex buf).getD (2 * i) 0 = hexChar (buf[i] >>> 4) ∧
      (binary2hex buf).getD (2 * i + 1) 0 = hexChar (buf[i] &&& 15) := by
  induction buf generalizing i with
  | nil => simp at h
  | cons b buf ih =>
    cases i with
    | zero => exact ⟨rfl, rfl⟩
    | succ i => exact ih i (by simpa using h)

@[simp] theorem binary2hex_length (buf : List Byte) :
    (binary2hex buf).length = 2 * buf.length := by
  induction buf with
  | nil => rfl
  | cons b buf ih =>
    rw [binary2hex, List.flatMap_cons, List.length_append, ← binary2hex, ih]
    simp only [List.length_cons, List.length_nil]
    omega

theorem hex2binary_binary2hex (buf : List Byte) :
    hex2binary (binary2hex buf) (2 * buf.length) = buf := by
  apply List.ext_getElem
  · rw [hex2binary_length]
    omega
  · intro i _ hi
    obtain ⟨hhigh, hlow⟩ := binary2hex_getD buf i hi
    simp only [hex2binary, List.getElem_map, List.getElem_range]
    rw [hhigh, hlow, hexDigit_hexChar]

section Lines

variable {hashes : List Digest}

theorem chunkLine_hash (i : Int) (hash : Digest) :
    (⟨i, binary2hex hash.toList⟩ : ChunkLine).hash = hash.toList := by
  have hread := hex2binary_binary2hex hash.toList
  rw [Vector.length_toList] at hread
  exact hread

theorem mem_chunkLines {l : ChunkLine} : l ∈ chunkLines hashes ↔
    ∃ (k : Nat) (h : k < hashes.length), l = ⟨k, binary2hex hashes[k].toList⟩ := by
  rw [chunkLines, List.mem_mapIdx]
  exact exists_congr fun k => exists_congr fun h => eq_comm

theorem chunkLines_token : ∀ l ∈ chunkLines hashes, l.token.length = 40 := by
  intro l hl
  obtain ⟨k, hk, rfl⟩ := mem_chunkLines.mp hl
  rw [binary2hex_length, Vector.length_toList]

theorem getOffSet_chunkLines (hd : hashes.Nodup) {config : Config}
    (hc : config.chunkFile = some (chunkLines hashes)) {k : Nat} (hk : k < hashes.length) :
    getOffSetFromMasterChunkfile hashes[k].toList config = k := by
  have hfound : ((chunkLines hashes).find?
      (fun l => sameHash l.hash hashes[k].toList)).isSome := by
    rw [List.find?_isSome]
    refine ⟨_, mem_chunkLines.mpr ⟨k, hk, rfl⟩, ?_⟩
    rw [chunkLine_hash]
    exact (sameHash_iff (by simp) (by simp)).mpr rfl
  obtain ⟨l, hl⟩ := Option.isSome_iff_exists.mp hfound
  obtain ⟨i, hi, rfl⟩ := mem_chunkLines.mp (List.mem_of_find?_eq_some hl)
  have hsame := List.find?_some hl
  rw [chunkLine_hash, sameHash_iff (by simp) (by simp), Vector.toList_inj] at hsame
  obtain rfl := (List.Nodup.getElem_inj_iff hd).mp hsame
  rw [getOffSet_full hc chunkLines_token, hl]
  rfl

/-- The chunks of a file, in order. -/
def fileOffsets (n : Nat) : List Int := (List.range n).map (fun k : Nat => (k : Int))

@[simp] theorem mem_fileOffsets {n : Nat} {o : Int} : o ∈ fileOffsets n ↔ 0 ≤ o ∧ o < n := by
  rw [fileOffsets, List.mem_map]
  constructor
  · rintro ⟨k, hk, rfl⟩
    exact ⟨by omega, by exact_mod_cast List.mem_range.mp hk⟩
  · rintro ⟨hl, hu⟩
    exact ⟨o.toNat, List.mem_range.mpr (by omega), by omega⟩

theorem chunkLines_offsets (hd : hashes.Nodup) {config : Config}
    (hc : config.chunkFile = some (chunkLines hashes)) :
    (uncleared [] (chunkLines hashes)).map (fun l => getOffSetFromMasterChunkfile l.hash config) =
      fileOffsets hashes.length := by
  rw [uncleared_map chunkLines_token fun hash => getOffSetFromMasterChunkfile hash config]
  apply List.ext_getElem
  · simp [chunkLines, fileOffsets]
  · intro k hk _
    simp only [chunkLines, List.length_map, List.length_mapIdx] at hk
    simp only [chunkLines, fileOffsets, List.getElem_map, List.getElem_mapIdx, List.getElem_range,
      chunkLine_hash]
    exact getOffSet_chunkLines hd hc hk

end Lines

section Pieces

variable {shahash : List Byte → Digest}

theorem makeChunks_nil : makeChunks shahash [] = [] := by
  rw [makeChunks]
  simp

theorem makeChunks_cons {fp : List Byte} (h : fp ≠ []) :
    makeChunks shahash fp =
      shahash (fp.take btChunkSize) :: makeChunks shahash (fp.drop btChunkSize) := by
  have hpos := List.length_pos_iff.mpr h
  rw [makeChunks, if_pos]
  rw [List.length_take, btChunkSize]
  omega

theorem makeChunks_single {fp : List Byte} (h : fp ≠ []) (hs : fp.length ≤ btChunkSize) :
    makeChunks shahash fp = [shahash fp] := by
  rw [makeChunks_cons h, List.take_of_length_le hs, List.drop_eq_nil_of_le hs, makeChunks_nil]

theorem makeChunks_length (shahash : List Byte → Digest) (fp : List Byte) :
    (makeChunks shahash fp).length = (fp.length + 524287) / 524288 := by
  induction fp using makeChunks.induct with
  | case1 fp h ih =>
    have hne : fp ≠ [] := by
      rintro rfl
      simp at h
    have hpos := List.length_pos_iff.mpr hne
    rw [makeChunks_cons hne, List.length_cons, ih, List.length_drop, btChunkSize]
    omega
  | case2 fp h =>
    have hnil : fp = [] := by
      simp only [List.length_take, btChunkSize] at h
      exact List.eq_nil_of_length_eq_zero (by omega)
    rw [hnil, makeChunks_nil]
    rfl

theorem makeChunks_getElem (fp : List Byte) (k : Nat) (h : k < (makeChunks shahash fp).length) :
    (makeChunks shahash fp)[k] = shahash ((fp.drop (524288 * k)).take 524288) := by
  induction k generalizing fp with
  | zero =>
    have hne : fp ≠ [] := by
      rintro rfl
      simp [makeChunks_nil] at h
    simp only [makeChunks_cons hne, List.getElem_cons_zero, mul_zero, List.drop_zero]
    rfl
  | succ k ih =>
    have hne : fp ≠ [] := by
      rintro rfl
      simp [makeChunks_nil] at h
    have hrest : k < (makeChunks shahash (fp.drop btChunkSize)).length := by
      rw [makeChunks_cons hne, List.length_cons] at h
      omega
    simp only [makeChunks_cons hne, List.getElem_cons_succ]
    have hplace : 512 * 1024 + 524288 * k = 524288 * (k + 1) := by omega
    rw [ih _ hrest, List.drop_drop, btChunkSize, hplace]

end Pieces

/-- The memory a chunk is served from holds the file from the place on that
the seek goes to. -/
def Served (file : List Byte) (index : Int) (content : Int → Byte) : Prop :=
  ∀ (n : Nat) v, file[(seekPosition index).toNat + n]? = some v → content n = v

theorem served_getDataFromHash (hash : List Byte) (config : Config) (index : Int)
    (heap : Int → Byte) (h : Unmistaken config (getOffSetFromMasterChunkfile hash config)) :
    Served config.content (getOffSetFromMasterChunkfile hash config)
      (getDataFromHash hash config index heap) := by
  intro n v hv
  rw [getDataFromHash_found hash config index heap, h hash index rfl, hv, Option.getD_some]

theorem seekPosition_small {k : Nat} (h : k < 4096) : seekPosition k = 524288 * k :=
  Int.bmod_eq_of_le (by omega) (by omega)

theorem wholeFile_length (chunk : Chunks) (offsets : List Int) :
    (wholeFile chunk offsets).length = 524288 * offsets.length := by
  have hpieces : ∀ piece ∈ offsets.map (fun o => (List.range 524288).map (fun n : Nat => chunk o n)),
      piece.length = 524288 := by
    intro piece hp
    obtain ⟨o, _, rfl⟩ := List.mem_map.mp hp
    rw [List.length_map, List.length_range]
  rw [wholeFile, List.flatMap_def, flatten_length hpieces, List.length_map]

theorem wholeFile_eq (chunk : Chunks) (n : Nat) :
    wholeFile chunk (fileOffsets n) =
      (List.range (n * 524288)).map (fun i : Nat => chunk (i / 524288 : Nat) (i % 524288 : Nat)) := by
  have hpieces := flatMap_pieces
    (fun i : Int => chunk (i.toNat / 524288 : Nat) (i.toNat % 524288 : Nat)) 524288 n
  simp only [Int.toNat_natCast] at hpieces
  rw [← hpieces, wholeFile, fileOffsets, List.flatMap_map]
  apply List.flatMap_congr
  intro k _
  apply List.map_congr_left
  intro m hm
  have hlt := List.mem_range.mp hm
  have hplace : ((k : Int) * 524288 + m).toNat = k * 524288 + m := by omega
  have hdiv : (k * 524288 + m) / 524288 = k := by omega
  have hmod : (k * 524288 + m) % 524288 = m := by omega
  rw [Nat.cast_ofNat, hplace, hdiv, hmod]

section Return

variable {shahash : List Byte → Digest} {file : List Byte} {chunk : Chunks}

theorem wholeFile_of_dvd (hserved : ∀ k < (makeChunks shahash file).length,
      Served file k (chunk k)) (hdvd : 524288 ∣ file.length) (hsize : file.length ≤ 2147483648) :
    wholeFile chunk (fileOffsets (makeChunks shahash file).length) = file := by
  have hcount := makeChunks_length shahash file
  rw [wholeFile_eq]
  apply List.ext_getElem
  · rw [List.length_map, List.length_range]
    omega
  · intro i _ hi
    rw [List.getElem_map, List.getElem_range]
    have hk : i / 524288 < (makeChunks shahash file).length := by omega
    apply hserved _ hk
    rw [seekPosition_small (by omega), List.getElem?_eq_some_iff]
    have hplace : (524288 * (i / 524288 : Nat) : Int).toNat + i % 524288 = i := by omega
    refine ⟨by omega, ?_⟩
    simp only [hplace]

theorem size_le_of_wholeFile (hd : (makeChunks shahash file).Nodup)
    (hserved : ∀ k < (makeChunks shahash file).length, Served file k (chunk k))
    (h : wholeFile chunk (fileOffsets (makeChunks shahash file).length) = file)
    (hdvd : 524288 ∣ file.length) : file.length ≤ 2147483648 := by
  have hcount := makeChunks_length shahash file
  by_contra hlong
  have hk : 4096 < (makeChunks shahash file).length := by omega
  have hseek : (seekPosition (4096 : Nat)).toNat = 0 := by decide
  have hsame : ∀ m < 524288, file[4096 * 524288 + m]? = file[m]? := by
    intro m hm
    have hfirst : m < file.length := by omega
    have hlast : 4096 * 524288 + m < file.length := by omega
    have hbyte : chunk (4096 : Nat) m = file[m] := by
      apply hserved 4096 hk
      rw [hseek, Nat.zero_add, List.getElem?_eq_getElem]
    have hplace : (4096 * 524288 + m) / 524288 = 4096 ∧ (4096 * 524288 + m) % 524288 = m := by omega
    rw [List.getElem?_eq_getElem hfirst, List.getElem?_eq_getElem hlast, ← hbyte,
      List.getElem_of_eq h.symm]
    simp only [wholeFile_eq, List.getElem_map, List.getElem_range, hplace]
  have hpiece : (file.drop (524288 * 4096)).take 524288 = (file.drop (524288 * 0)).take 524288 := by
    apply List.ext_getElem?
    intro m
    by_cases hm : m < 524288
    · rw [List.getElem?_take_of_lt hm, List.getElem?_take_of_lt hm, List.getElem?_drop,
        List.getElem?_drop, mul_zero, Nat.zero_add, mul_comm]
      exact hsame m hm
    · rw [List.getElem?_take_eq_none (by omega), List.getElem?_take_eq_none (by omega)]
  have hequal : (makeChunks shahash file)[4096] = (makeChunks shahash file)[0] := by
    rw [makeChunks_getElem, makeChunks_getElem, hpiece]
  exact absurd ((List.Nodup.getElem_inj_iff hd).mp hequal) (by decide)

/-- The chunks that are served make up the file exactly when it has no short
last chunk and all its chunks can be sought. -/
theorem wholeFile_iff (hd : (makeChunks shahash file).Nodup)
    (hserved : ∀ k < (makeChunks shahash file).length, Served file k (chunk k)) :
    wholeFile chunk (fileOffsets (makeChunks shahash file).length) = file ↔
      524288 ∣ file.length ∧ file.length ≤ 2147483648 := by
  constructor
  · intro h
    have hlength := wholeFile_length chunk (fileOffsets (makeChunks shahash file).length)
    rw [h] at hlength
    have hdvd : 524288 ∣ file.length := ⟨_, hlength⟩
    exact ⟨hdvd, size_le_of_wholeFile hd hserved h hdvd⟩
  · rintro ⟨hdvd, hsize⟩
    exact wholeFile_of_dvd hserved hdvd hsize

end Return

end P2PCC.Publishing

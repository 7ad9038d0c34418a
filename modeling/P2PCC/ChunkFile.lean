import Mathlib.Data.List.GetD
import P2PCC.Packet

namespace P2PCC.ChunkFile

open P2PCC.Packet

/-- A line of a chunk file as `fscanf` splits it: an index and a token. -/
structure ChunkLine where
  index : Int
  token : List Byte
deriving DecidableEq, Repr

structure BtPeer where
  id : Int
  addr : SockAddr
deriving DecidableEq, Repr

/-- The part of `bt_config_t` the program reads. A chunk file that cannot be
opened is `none`; `content` holds the bytes of the file the master names. -/
structure Config where
  chunkFile : Option (List ChunkLine)
  content : List Byte
  hasChunkFile : Option (List ChunkLine)
  identity : Int
  peers : List BtPeer

def toupper (c : Byte) : Byte := if 97 ≤ c.toNat ∧ c.toNat ≤ 122 then c - 32 else c

def hexDigit (hex : Byte) : Byte :=
  let hex := toupper hex
  if hex.toInt ≤ 57 then hex - 48 else hex - 55

def hex2binary (hex : List Byte) (len : Nat) : List Byte :=
  (List.range ((len + 1) / 2)).map
    (fun i => hexDigit (hex.getD (2 * i) 0) <<< 4 ||| hexDigit (hex.getD (2 * i + 1) 0))

def ChunkLine.hash (l : ChunkLine) : List Byte := hex2binary l.token 40

/-- What `fscanf` makes of the array it reads a token into: what is behind the
token stays, and all of it where a line has no token. -/
def overwrite (line token : List Byte) : List Byte :=
  if token = [] then line else token ++ 0 :: line.drop (token.length + 1)

/-- The lines as a loop has them that does not clear its array. -/
def uncleared : List Byte → List ChunkLine → List ChunkLine
  | _, [] => []
  | line, l :: ls =>
    ⟨l.index, overwrite line l.token⟩ :: uncleared (overwrite line l.token) ls

def readLines : List ChunkLine → List Byte → Option (List Byte)
  | [], data => some data
  | l :: ls, data => if l.token.length > 40 then none else readLines ls (data ++ l.hash)

/-- The bytes written to `data`, without the terminating NUL; `none` is the
return value -1. -/
def readChunkfile (chunkfile : Option (List ChunkLine)) : Option (List Byte) :=
  chunkfile.bind (fun ls => readLines ls [])

def strlen (s : List Byte) : Nat := s.findIdx (fun c => c = 0)

/-- `memcmp` over the first twenty bytes, written as the loops of the source. -/
def sameHash (a b : List Byte) : Bool :=
  (List.range 20).all (fun j => a.getD j 0 = b.getD j 0)

def findInLocalHas (hash localHas : List Byte) : Int :=
  let size := strlen localHas / 20
  if (List.range size).any (fun i => sameHash hash (localHas.drop (i * 20))) then 1 else 0

/-- The master chunk file as the two searches read it that do not clear `temp`. -/
def Config.masterLines (config : Config) : List ChunkLine := uncleared [] (config.chunkFile.getD [])

def getHashFromMasterChunkfile (offset : Int) (config : Config) : Option (List Byte) :=
  (config.masterLines.find? (fun l => l.index = offset)).map ChunkLine.hash

def getOffSetFromMasterChunkfile (hash : List Byte) (config : Config) : Int :=
  ((config.masterLines.find? (fun l => sameHash l.hash hash)).map ChunkLine.index).getD (-1)

/-- The search of `get_data_from_hash`, which clears `temp` after each line. It
has no way to report a miss, and leaves the index of the last line read. -/
def dataIndex (hash : List Byte) : List ChunkLine → Int → Int
  | [], index => index
  | l :: ls, _ => if sameHash l.hash hash then l.index else dataIndex hash ls l.index

/-- Byte `n` of the 512 KB at an index of the content file, where the file
has that byte. -/
def chunkByte (config : Config) (index : Int) (n : Nat) : Option Byte :=
  config.content[(524288 * index).toNat + n]?

/-- The position `get_data_from_hash` seeks, which it computes as an `int`. -/
def seekPosition (index : Int) : Int := (524288 * index).bmod 4294967296

/-- The buffer `get_data_from_hash` returns, with the uninitialised memory of
`malloc` where the file is too short. A negative seek fails and leaves the
position at zero. -/
def getDataFromHash (hash : List Byte) (config : Config) (index : Int) (heap : Int → Byte) :
    Int → Byte :=
  let index := dataIndex hash (config.chunkFile.getD []) index
  fun n => if n < 0 then heap n
    else config.content[(seekPosition index).toNat + n.toNat]?.getD (heap n)

def Seekable (index : Int) : Prop := seekPosition index = 524288 * index

@[simp] theorem hex2binary_length (hex : List Byte) (len : Nat) :
    (hex2binary hex len).length = (len + 1) / 2 := by
  simp [hex2binary]

@[simp] theorem hash_length (l : ChunkLine) : l.hash.length = 20 := by
  simp [ChunkLine.hash]

theorem sameHash_iff {a b : List Byte} (ha : a.length = 20) (hb : b.length = 20) :
    sameHash a b = true ↔ a = b := by
  simp only [sameHash, List.all_eq_true, List.mem_range, decide_eq_true_eq]
  constructor
  · intro h
    apply List.ext_getElem (by rw [ha, hb])
    intro j hja hjb
    have hj := h j (by omega)
    rwa [List.getD_eq_getElem _ _ hja, List.getD_eq_getElem _ _ hjb] at hj
  · rintro rfl
    exact fun _ _ => rfl

section Uncleared

variable {ls : List ChunkLine}

theorem uncleared_length (line : List Byte) (ls : List ChunkLine) :
    (uncleared line ls).length = ls.length := by
  induction ls generalizing line with
  | nil => rfl
  | cons l ls ih => rw [uncleared, List.length_cons, List.length_cons, ih]

theorem uncleared_index (line : List Byte) (ls : List ChunkLine) :
    (uncleared line ls).map ChunkLine.index = ls.map ChunkLine.index := by
  induction ls generalizing line with
  | nil => rfl
  | cons l ls ih => rw [uncleared, List.map_cons, List.map_cons, ih]

theorem hash_overwrite {l : ChunkLine} (h : l.token.length = 40) (line : List Byte) :
    ChunkLine.hash ⟨l.index, overwrite line l.token⟩ = l.hash := by
  have hne : l.token ≠ [] := List.ne_nil_of_length_eq_add_one h
  have hread : ∀ i < 40, (l.token ++ 0 :: line.drop (l.token.length + 1)).getD i 0 =
      l.token.getD i 0 := by
    intro i hi
    rw [List.getD_append _ _ _ _ (by omega)]
  rw [ChunkLine.hash, ChunkLine.hash, overwrite, if_neg hne, hex2binary, hex2binary]
  apply List.map_congr_left
  intro i hi
  have hlt := List.mem_range.mp hi
  rw [hread _ (by omega), hread _ (by omega)]

theorem uncleared_full (h : ∀ l ∈ ls, l.token.length = 40) (line : List Byte) :
    (uncleared line ls).map (fun l => (l.index, l.hash)) = ls.map (fun l => (l.index, l.hash)) := by
  induction ls generalizing line with
  | nil => rfl
  | cons l ls ih =>
    obtain ⟨hl, hls⟩ := List.forall_mem_cons.mp h
    rw [uncleared, List.map_cons, List.map_cons, ih hls, hash_overwrite hl]

theorem uncleared_map {α : Type} (h : ∀ l ∈ ls, l.token.length = 40) (f : List Byte → α)
    (line : List Byte) :
    (uncleared line ls).map (fun l => f l.hash) = ls.map (fun l => f l.hash) := by
  have hpairs := congrArg (List.map fun pair => f pair.2) (uncleared_full h line)
  rwa [List.map_map, List.map_map] at hpairs

theorem uncleared_find? (h : ∀ l ∈ ls, l.token.length = 40) (line : List Byte)
    (p : Int × List Byte → Bool) :
    ((uncleared line ls).find? (fun l => p (l.index, l.hash))).map (fun l => (l.index, l.hash)) =
      (ls.find? (fun l => p (l.index, l.hash))).map (fun l => (l.index, l.hash)) := by
  have hpairs := congrArg (List.find? p) (uncleared_full h line)
  rwa [List.find?_map, List.find?_map] at hpairs

end Uncleared

section Searches

variable {config : Config} {lines : List ChunkLine}

theorem getOffSet_index {hash : List Byte} (h : getOffSetFromMasterChunkfile hash config ≠ -1) :
    ∃ l ∈ config.chunkFile.getD [], l.index = getOffSetFromMasterChunkfile hash config := by
  unfold getOffSetFromMasterChunkfile at h ⊢
  cases hf : config.masterLines.find? (fun l => sameHash l.hash hash) with
  | none => simp [hf] at h
  | some l =>
    have hindex := List.mem_map_of_mem (f := ChunkLine.index) (List.mem_of_find?_eq_some hf)
    rw [Config.masterLines, uncleared_index] at hindex
    exact List.mem_map.mp hindex

theorem getOffSet_full (hconfig : config.chunkFile = some lines)
    (h : ∀ l ∈ lines, l.token.length = 40) (hash : List Byte) :
    getOffSetFromMasterChunkfile hash config =
      ((lines.find? (fun l => sameHash l.hash hash)).map ChunkLine.index).getD (-1) := by
  have hfind := congrArg (Option.map Prod.fst)
    (uncleared_find? h [] (fun l => sameHash l.2 hash))
  rw [Option.map_map, Option.map_map] at hfind
  rw [getOffSetFromMasterChunkfile, Config.masterLines, hconfig, Option.getD_some]
  exact congrArg (·.getD (-1)) hfind

/-- What a search for a hash finds: the index of the first line that has it,
or -1 where none has it. -/
def FirstIndex (lines : List ChunkLine) (hash : List Byte) (offset : Int) : Prop :=
  (∃ before l after, lines = before ++ l :: after ∧ (∀ m ∈ before, m.hash ≠ hash) ∧
      l.hash = hash ∧ offset = l.index) ∨
    (∀ l ∈ lines, l.hash ≠ hash) ∧ offset = -1

theorem firstIndex_find? (lines : List ChunkLine) {hash : List Byte} (hlen : hash.length = 20) :
    FirstIndex lines hash
      (((lines.find? (fun l => sameHash l.hash hash)).map ChunkLine.index).getD (-1)) := by
  cases hf : lines.find? (fun l => sameHash l.hash hash) with
  | none =>
    have hmiss := List.find?_eq_none.mp hf
    refine Or.inr ⟨fun l hl heq => hmiss l hl ?_, rfl⟩
    exact (sameHash_iff (hash_length l) hlen).mpr heq
  | some l =>
    obtain ⟨hsame, before, after, hsplit, hmiss⟩ := List.find?_eq_some_iff_append.mp hf
    refine Or.inl ⟨before, l, after, hsplit, fun m hm heq => ?_, ?_, rfl⟩
    · have hsame' := (sameHash_iff (hash_length m) hlen).mpr heq
      simpa [hsame'] using hmiss m hm
    · exact (sameHash_iff (hash_length l) hlen).mp hsame

theorem getOffSet_first (config : Config) {hash : List Byte} (hlen : hash.length = 20) :
    FirstIndex config.masterLines hash (getOffSetFromMasterChunkfile hash config) :=
  firstIndex_find? config.masterLines hlen

theorem getOffSet_first_full (hconfig : config.chunkFile = some lines)
    (h : ∀ l ∈ lines, l.token.length = 40) {hash : List Byte} (hlen : hash.length = 20) :
    FirstIndex lines hash (getOffSetFromMasterChunkfile hash config) := by
  rw [getOffSet_full hconfig h]
  exact firstIndex_find? lines hlen

theorem getHash_full (hconfig : config.chunkFile = some lines)
    (h : ∀ l ∈ lines, l.token.length = 40) (offset : Int) :
    getHashFromMasterChunkfile offset config =
      (lines.find? (fun l => l.index = offset)).map ChunkLine.hash := by
  have hfind := congrArg (Option.map Prod.snd)
    (uncleared_find? h [] (fun l => l.1 = offset))
  rw [Option.map_map, Option.map_map] at hfind
  rw [getHashFromMasterChunkfile, Config.masterLines, hconfig, Option.getD_some]
  exact hfind

end Searches

theorem sameHash_take (a b : List Byte) : sameHash a (b.take 20) = sameHash a b := by
  rw [Bool.eq_iff_iff]
  simp only [sameHash, List.all_eq_true, List.mem_range, decide_eq_true_eq]
  apply forall₂_congr
  intro j hj
  rw [List.getD_eq_getElem?_getD (l := b.take 20), List.getElem?_take_of_lt hj,
    ← List.getD_eq_getElem?_getD]

end P2PCC.ChunkFile

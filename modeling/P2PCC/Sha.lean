import P2PCC.Lib.SecureHash
import P2PCC.Packet

namespace P2PCC.Sha

open P2PCC.Lib.ByteOrder P2PCC.Lib.Words P2PCC.Packet

abbrev Word := BitVec 32

/-- How the file is compiled, and for which host. -/
structure Build where
  host : Endian
  /-- `WORDS_BIGENDIAN` -/
  wordsBigEndian : Bool
  /-- `RUNTIME_ENDIAN` -/
  runtimeEndian : Bool
  /-- `SHA1_FAST_COPY` -/
  fastCopy : Bool
  /-- `SHA1_UNROLL` -/
  unroll : Nat
  unroll_mem : unroll ∈ [1, 2, 4, 5, 10, 20]

structure SHA1Context where
  totalLength : BitVec 64
  hash : Vector Word 5
  bufferLength : Nat
  buffer : Vector Byte 64
  littleEndian : Bool
deriving DecidableEq, Inhabited

def rotl (x : Word) (n : Nat) : Word := x <<< n ||| x >>> (32 - n)

def rotr (x : Word) (n : Nat) : Word := x >>> n ||| x <<< (32 - n)

def f0_19 (x y z : Word) : Word := z ^^^ (x &&& (y ^^^ z))

def f20_39 (x y z : Word) : Word := x ^^^ y ^^^ z

def f40_59 (x y z : Word) : Word := (x &&& (y ||| z)) ||| (y &&& z)

def f60_79 (x y z : Word) : Word := x ^^^ y ^^^ z

def k0_19 : Word := 0x5a827999

def k20_39 : Word := 0x6ed9eba1

def k40_59 : Word := 0x8f1bbcdc

def k60_79 : Word := 0xca62c1d6

/-- The bytes of a word in the opposite order. -/
def swapWord (x : Word) : Word := (rotr x 8 &&& 0xff00ff00) ||| (rotl x 8 &&& 0x00ff00ff)

def swapWord64 (x : BitVec 64) : BitVec 64 :=
  let a : Word := (x >>> 32).setWidth 32
  let b : Word := x.setWidth 32
  (swapWord b).setWidth 64 <<< 32 ||| (swapWord a).setWidth 64

section Code

variable (b : Build)

/-- The byte order that the code takes the host to have, found when it runs or
when it is compiled. -/
def swaps (sc : SHA1Context) : Bool := if b.runtimeEndian then sc.littleEndian else !b.wordsBigEndian

def byteswap (swap : Bool) (x : Word) : Word := if swap then swapWord x else x

def byteswap64 (swap : Bool) (x : BitVec 64) : BitVec 64 := if swap then swapWord64 x else x

def setEndian : Bool := (store32 b.host 1).headD 0 != 0

def sha1Init (sc : SHA1Context) : SHA1Context :=
  { sc with
    littleEndian := if b.runtimeEndian then setEndian b else sc.littleEndian
    totalLength := 0
    hash := #v[0x67452301, 0xefcdab89, 0x98badcfe, 0x10325476, 0xc3d2e1f0]
    bufferLength := 0 }

/-- The local variables of `SHA1Guts` in its rounds; `W` holds what the pointer
has still to pass. -/
structure Locals where
  a : Word
  b : Word
  c : Word
  d : Word
  e : Word
  W : List Word

def doRound (F : Word → Word → Word → Word) (K : Word) (v : Locals) : Locals :=
  let temp := rotl v.a 5 + F v.b v.c v.d + v.e + v.W.headD 0 + K
  { a := temp, b := v.a, c := rotl v.b 30, d := v.c, e := v.d, W := v.W.tail }

def twentyRounds (F : Word → Word → Word → Word) (K : Word) : Locals → Locals :=
  Nat.iterate (Nat.iterate (doRound F K) b.unroll) (20 / b.unroll)

/-- One pass of the loop that extends the words of a block. -/
def nextWord (buf : List Word) (i : Nat) : List Word :=
  buf ++ [rotl (buf.getD (13 + i) 0 ^^^ buf.getD (8 + i) 0 ^^^ buf.getD (2 + i) 0 ^^^
    buf.getD i 0) 1]

/-- The hash after a block, which is read from the memory at `cbuf`. -/
def gutsHash (swap : Bool) (hash : Vector Word 5) (cbuf : List Byte) : Vector Word 5 :=
  let first := ((loadWords b.host cbuf).take 16).map (byteswap swap)
  let buf := (List.range 64).foldl nextWord first
  let v : Locals := ⟨hash[0], hash[1], hash[2], hash[3], hash[4], buf⟩
  let v := twentyRounds b f0_19 k0_19 v
  let v := twentyRounds b f20_39 k20_39 v
  let v := twentyRounds b f40_59 k40_59 v
  let v := twentyRounds b f60_79 k60_79 v
  #v[hash[0] + v.a, hash[1] + v.b, hash[2] + v.c, hash[3] + v.d, hash[4] + v.e]

def sha1Guts (sc : SHA1Context) (cbuf : List Byte) : SHA1Context :=
  { sc with hash := gutsHash b (swaps b sc) sc.hash cbuf }

/-- `memcpy` to the place in the buffer that `pos` counts. -/
def memcpy (buffer : Vector Byte 64) (pos : Nat) (data : List Byte) : Vector Byte 64 :=
  Vector.ofFn (fun i : Fin 64 => if pos ≤ i then data.getD (i - pos) buffer[i] else buffer[i])

/-- Bytes are copied behind those in the buffer. -/
def copyIn (sc : SHA1Context) (data : List Byte) : SHA1Context :=
  { sc with
    buffer := memcpy sc.buffer sc.bufferLength data
    totalLength := sc.totalLength + BitVec.ofNat 64 (data.length * 8)
    bufferLength := sc.bufferLength + data.length }

/-- A full buffer is taken in. -/
def flush (sc : SHA1Context) : SHA1Context :=
  if sc.bufferLength = 64 then { sha1Guts b sc sc.buffer.toList with bufferLength := 0 } else sc

/-- The loop over what is left of the data, with a bound on its passes. -/
def updateLoop : Nat → SHA1Context → List Byte → SHA1Context
  | 0, sc, _ => sc
  | n + 1, sc, data =>
    if data.length = 0 then sc
    else
      let bytesToCopy := min (64 - sc.bufferLength) data.length
      updateLoop n (flush b (copyIn sc (data.take bytesToCopy))) (data.drop bytesToCopy)

/-- The loop over whole blocks, which are taken in where they are. -/
def blockLoop (sc : SHA1Context) (data : List Byte) : SHA1Context × List Byte :=
  if data.length > 63 then
    blockLoop (sha1Guts b { sc with totalLength := sc.totalLength + 512 } (data.take 64))
      (data.drop 64)
  else (sc, data)
termination_by data.length
decreasing_by
  rw [List.length_drop]
  omega

def sha1UpdateFast (sc : SHA1Context) (data : List Byte) : SHA1Context :=
  let bytesToCopy := if sc.bufferLength ≠ 0 then min (64 - sc.bufferLength) data.length else 0
  let sc := if sc.bufferLength ≠ 0 then flush b (copyIn sc (data.take bytesToCopy)) else sc
  let left := blockLoop b sc (data.drop bytesToCopy)
  if left.2.length ≠ 0 then copyIn left.1 left.2 else left.1

/-- `data` is what stands at `vdata`, and its length is `len`. -/
def sha1Update (sc : SHA1Context) (data : List Byte) : SHA1Context :=
  if b.fastCopy then sha1UpdateFast b sc data else updateLoop b data.length sc data

def padding : List Byte := 0x80 :: List.replicate 63 0

/-- A hash as it is written to the target. -/
def writeHash (sc : SHA1Context) : List Byte :=
  sc.hash.toList.flatMap (fun h : Word =>
    if b.fastCopy then store32 b.host (byteswap (swaps b sc) h)
    else [(h >>> 24).setWidth 8, (h >>> 16).setWidth 8, (h >>> 8).setWidth 8, h.setWidth 8])

def bytesToPad (sc : SHA1Context) : Nat :=
  if 120 - sc.bufferLength > 64 then 120 - sc.bufferLength - 64 else 120 - sc.bufferLength

/-- The context after the padding, and the hash. -/
def sha1Final (sc : SHA1Context) : SHA1Context × List Byte :=
  let lengthPad := store64 b.host (byteswap64 (swaps b sc) sc.totalLength)
  let padded := sha1Update b (sha1Update b sc (padding.take (bytesToPad sc))) lengthPad
  (padded, writeHash b padded)

/-- `sha` is what the stack holds. -/
def shahash (sha : SHA1Context) (str : List Byte) : List Byte :=
  (sha1Final b (sha1Update b (sha1Init b sha) str)).2

end Code

end P2PCC.Sha

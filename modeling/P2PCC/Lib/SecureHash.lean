import P2PCC.Lib.Absorbing
import P2PCC.Lib.Words

namespace P2PCC.Lib.SecureHash

open P2PCC.Lib.ByteOrder P2PCC.Lib.Words P2PCC.Lib.Absorbing

/-! The secure hash standard's SHA-1, on messages of whole bytes. -/

abbrev Word := BitVec 32

/-- The five words of a hash value, or the working variables. -/
@[ext] structure Registers where
  a : Word
  b : Word
  c : Word
  d : Word
  e : Word
deriving DecidableEq

def initial : Registers := ⟨0x67452301, 0xefcdab89, 0x98badcfe, 0x10325476, 0xc3d2e1f0⟩

def ch (x y z : Word) : Word := (x &&& y) ^^^ (~~~x &&& z)

def parity (x y z : Word) : Word := x ^^^ y ^^^ z

def maj (x y z : Word) : Word := (x &&& y) ^^^ (x &&& z) ^^^ (y &&& z)

def f (t : Nat) : Word → Word → Word → Word :=
  if t < 20 then ch else if t < 40 then parity else if t < 60 then maj else parity

def k (t : Nat) : Word :=
  if t < 20 then 0x5a827999 else if t < 40 then 0x6ed9eba1
  else if t < 60 then 0x8f1bbcdc else 0xca62c1d6

def schedule (m : List Word) (t : Nat) : Word :=
  if t < 16 then m.getD t 0
  else (schedule m (t - 3) ^^^ schedule m (t - 8) ^^^ schedule m (t - 14) ^^^
    schedule m (t - 16)).rotateLeft 1
termination_by t

def roundStep (w : Nat → Word) (r : Registers) (t : Nat) : Registers :=
  ⟨r.a.rotateLeft 5 + f t r.b r.c r.d + r.e + k t + w t, r.a, r.b.rotateLeft 30, r.c, r.d⟩

def Registers.add (h r : Registers) : Registers :=
  ⟨h.a + r.a, h.b + r.b, h.c + r.c, h.d + r.d, h.e + r.e⟩

def Registers.octets (r : Registers) : List (BitVec 8) :=
  Words.octets r.a ++ Words.octets r.b ++ Words.octets r.c ++ Words.octets r.d ++ Words.octets r.e

def compress (h : Registers) (block : List (BitVec 8)) : Registers :=
  h.add ((List.range 80).foldl (roundStep (schedule (loadWords .big block))) h)

/-- The length of a message in bits, in eight bytes. -/
def lengthField (n : Nat) : List (BitVec 8) :=
  let bits := BitVec.ofNat 64 (8 * n)
  Words.octets ((bits >>> 32).setWidth 32) ++ Words.octets (bits.setWidth 32)

/-- A one bit, as many zero bits as are needed, and the length. -/
def trailer (n : Nat) : List (BitVec 8) :=
  0x80 :: List.replicate ((119 - n % 64) % 64) 0 ++ lengthField n

def sha1 (message : List (BitVec 8)) : List (BitVec 8) :=
  ((blocks 64 (message ++ trailer message.length)).foldl compress initial).octets

@[simp] theorem lengthField_length (n : Nat) : (lengthField n).length = 8 := rfl

theorem trailer_length (n : Nat) : (trailer n).length = 9 + (119 - n % 64) % 64 := by
  rw [trailer, List.cons_append, List.length_cons, List.length_append, List.length_replicate,
    lengthField_length]
  omega

theorem padded_dvd (message : List (BitVec 8)) :
    64 ∣ (message ++ trailer message.length).length := by
  rw [List.length_append, trailer_length]
  omega

theorem sha1_eq_absorb (message : List (BitVec 8)) :
    sha1 message =
      (absorb 64 compress ⟨initial, []⟩ (message ++ trailer message.length)).state.octets := by
  rw [absorb_whole _ (by decide) (padded_dvd message)]
  rfl

@[simp] theorem octets_length (r : Registers) : r.octets.length = 20 := rfl

theorem schedule_start (m : List Word) {t : Nat} (h : t < 16) : schedule m t = m.getD t 0 := by
  rw [schedule, if_pos h]

theorem schedule_next (m : List Word) (i : Nat) : schedule m (16 + i) =
    (schedule m (13 + i) ^^^ schedule m (8 + i) ^^^ schedule m (2 + i) ^^^
      schedule m i).rotateLeft 1 := by
  have h3 : 16 + i - 3 = 13 + i := by omega
  have h8 : 16 + i - 8 = 8 + i := by omega
  have h14 : 16 + i - 14 = 2 + i := by omega
  have h16 : 16 + i - 16 = i := by omega
  rw [schedule, if_neg (by omega), h3, h8, h14, h16]

end P2PCC.Lib.SecureHash

import Mathlib.Data.Nat.Basic

namespace P2PCC.Lib.ByteOrder

/-- The bytes of a word read back in the opposite order. -/
def reverse16 (n : Nat) : Nat := n % 256 * 256 + n / 256 % 256

def reverse32 (n : Nat) : Nat :=
  n % 256 * 16777216 + n / 256 % 256 * 65536 + n / 65536 % 256 * 256 + n / 16777216 % 256

theorem reverse16_lt (n : Nat) : reverse16 n < 65536 := by
  unfold reverse16
  omega

theorem reverse32_lt (n : Nat) : reverse32 n < 4294967296 := by
  unfold reverse32
  omega

theorem reverse16_bytes (a b : Nat) (ha : a < 256) (hb : b < 256) :
    reverse16 (a * 256 + b) = b * 256 + a := by
  have h0 : (a * 256 + b) % 256 = b := by omega
  have h1 : (a * 256 + b) / 256 % 256 = a := by omega
  rw [reverse16, h0, h1]

theorem reverse16_reverse16 (n : Nat) (hn : n < 65536) : reverse16 (reverse16 n) = n := by
  have h := reverse16_bytes (n % 256) (n / 256 % 256) (by omega) (by omega)
  unfold reverse16 at h ⊢
  omega

theorem reverse32_bytes (a b c d : Nat) (ha : a < 256) (hb : b < 256) (hc : c < 256) (hd : d < 256) :
    reverse32 (a * 16777216 + b * 65536 + c * 256 + d) = d * 16777216 + c * 65536 + b * 256 + a := by
  have h0 : (a * 16777216 + b * 65536 + c * 256 + d) % 256 = d := by omega
  have h1 : (a * 16777216 + b * 65536 + c * 256 + d) / 256 % 256 = c := by omega
  have h2 : (a * 16777216 + b * 65536 + c * 256 + d) / 65536 % 256 = b := by omega
  have h3 : (a * 16777216 + b * 65536 + c * 256 + d) / 16777216 % 256 = a := by omega
  rw [reverse32, h0, h1, h2, h3]

theorem reverse32_reverse32 (n : Nat) (hn : n < 4294967296) : reverse32 (reverse32 n) = n := by
  have h := reverse32_bytes (n % 256) (n / 256 % 256) (n / 65536 % 256) (n / 16777216 % 256)
    (by omega) (by omega) (by omega) (by omega)
  unfold reverse32 at h ⊢
  omega

theorem reverse32_large (n : Nat) (hpos : 0 < n) (hn : n < 65536) : 65536 ≤ reverse32 n := by
  unfold reverse32
  omega

inductive Endian where
  | little
  | big
deriving DecidableEq, Repr

/-- Host to network order. The network order is big-endian, so a big-endian
host leaves the word as it is. -/
def hton16 (e : Endian) (x : BitVec 16) : BitVec 16 :=
  match e with
  | .little => BitVec.ofNat 16 (reverse16 x.toNat)
  | .big => x

def hton32 (e : Endian) (x : BitVec 32) : BitVec 32 :=
  match e with
  | .little => BitVec.ofNat 32 (reverse32 x.toNat)
  | .big => x

@[simp] theorem hton16_hton16 (e : Endian) (x : BitVec 16) : hton16 e (hton16 e x) = x := by
  cases e with
  | little =>
    apply BitVec.eq_of_toNat_eq
    have h := Nat.mod_eq_of_lt (reverse16_lt x.toNat)
    simp only [hton16, BitVec.toNat_ofNat, Nat.reducePow, h, reverse16_reverse16 x.toNat x.isLt]
    exact Nat.mod_eq_of_lt x.isLt
  | big => rfl

@[simp] theorem hton32_hton32 (e : Endian) (x : BitVec 32) : hton32 e (hton32 e x) = x := by
  cases e with
  | little =>
    apply BitVec.eq_of_toNat_eq
    have h := Nat.mod_eq_of_lt (reverse32_lt x.toNat)
    simp only [hton32, BitVec.toNat_ofNat, Nat.reducePow, h, reverse32_reverse32 x.toNat x.isLt]
    exact Nat.mod_eq_of_lt x.isLt
  | big => rfl

@[simp] theorem hton32_zero (e : Endian) : hton32 e 0 = 0 := by
  cases e <;> rfl

/-- On a little-endian host a small nonzero word changes into one that is
not small, so the two byte orders of a sequence number cannot be confused. -/
theorem hton32_ne_small (x y : BitVec 32) (hpos : 0 < x.toNat) (hx : x.toNat < 65536)
    (hy : y.toNat < 65536) : hton32 .little x ≠ y := by
  intro he
  have h := congrArg BitVec.toNat he
  have hl := reverse32_large x.toNat hpos hx
  rw [hton32, BitVec.toNat_ofNat, Nat.mod_eq_of_lt (reverse32_lt x.toNat)] at h
  omega

end P2PCC.Lib.ByteOrder

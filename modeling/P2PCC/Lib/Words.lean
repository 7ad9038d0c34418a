import P2PCC.Lib.ByteOrder
import Mathlib.Tactic.IntervalCases

namespace P2PCC.Lib.Words

open P2PCC.Lib.ByteOrder

/-- The word whose bytes are given from the highest one down. -/
def word (a b c d : BitVec 8) : BitVec 32 :=
  a.setWidth 32 <<< 24 ||| b.setWidth 32 <<< 16 ||| c.setWidth 32 <<< 8 ||| d.setWidth 32

/-- The bytes of a word, the highest one first. -/
def octets (w : BitVec 32) : List (BitVec 8) :=
  [(w >>> 24).setWidth 8, (w >>> 16).setWidth 8, (w >>> 8).setWidth 8, w.setWidth 8]

/-- The word that a host reads from four bytes of its memory. -/
def load32 (e : Endian) (a b c d : BitVec 8) : BitVec 32 :=
  match e with
  | .little => word d c b a
  | .big => word a b c d

/-- The bytes of its memory that a host writes a word to. -/
def store32 (e : Endian) (w : BitVec 32) : List (BitVec 8) :=
  match e with
  | .little => (octets w).reverse
  | .big => octets w

/-- Eight bytes, written for a word of twice the size. -/
def store64 (e : Endian) (w : BitVec 64) : List (BitVec 8) :=
  match e with
  | .little => store32 e (w.setWidth 32) ++ store32 e ((w >>> 32).setWidth 32)
  | .big => store32 e ((w >>> 32).setWidth 32) ++ store32 e (w.setWidth 32)

def word16 (a b : BitVec 8) : BitVec 16 := a.setWidth 16 <<< 8 ||| b.setWidth 16

def octets16 (w : BitVec 16) : List (BitVec 8) := [(w >>> 8).setWidth 8, w.setWidth 8]

def load16 (e : Endian) (a b : BitVec 8) : BitVec 16 :=
  match e with
  | .little => word16 b a
  | .big => word16 a b

def store16 (e : Endian) (w : BitVec 16) : List (BitVec 8) :=
  match e with
  | .little => (octets16 w).reverse
  | .big => octets16 w

/-- The words that a host reads from its memory one after the other. -/
def loadWords (e : Endian) : List (BitVec 8) → List (BitVec 32)
  | a :: b :: c :: d :: rest => load32 e a b c d :: loadWords e rest
  | _ => []

theorem word_octets (w : BitVec 32) :
    word ((w >>> 24).setWidth 8) ((w >>> 16).setWidth 8) ((w >>> 8).setWidth 8) (w.setWidth 8) =
      w := by
  ext i hi
  simp only [word]
  interval_cases i <;> simp

theorem octets_word (a b c d : BitVec 8) : octets (word a b c d) = [a, b, c, d] := by
  simp only [octets, word, List.cons.injEq, and_true]
  refine ⟨?_, ?_, ?_, ?_⟩
  all_goals
    ext i hi
    interval_cases i <;> simp

@[simp] theorem octets_length (w : BitVec 32) : (octets w).length = 4 := rfl

@[simp] theorem store32_length (e : Endian) (w : BitVec 32) : (store32 e w).length = 4 := by
  cases e <;> rfl

theorem exists_word (w : BitVec 32) : ∃ a b c d, w = word a b c d :=
  ⟨_, _, _, _, (word_octets w).symm⟩

theorem store32_word (e : Endian) (a b c d : BitVec 8) :
    store32 e (load32 e a b c d) = [a, b, c, d] := by
  cases e with
  | little => rw [store32, load32, octets_word]; rfl
  | big => exact octets_word a b c d

theorem toNat_word (a b c d : BitVec 8) : (word a b c d).toNat =
    a.toNat * 16777216 + b.toNat * 65536 + c.toNat * 256 + d.toNat := by
  have ha := a.isLt
  have hb := b.isLt
  have hc := c.isLt
  have hd := d.isLt
  have hdisjoint : ∀ i m n, n < 2 ^ i → (2 ^ i * m) ||| n = 2 ^ i * m + n :=
    fun i m n hn => (Nat.two_pow_add_eq_or_of_lt hn m).symm
  have h₁ := hdisjoint 24 a.toNat (2 ^ 16 * b.toNat) (by omega)
  have h₂ := hdisjoint 16 (2 ^ 8 * a.toNat + b.toNat) (2 ^ 8 * c.toNat) (by omega)
  have h₃ := hdisjoint 8 (2 ^ 16 * a.toNat + 2 ^ 8 * b.toNat + c.toNat) d.toNat (by omega)
  have hshift : ∀ (x : BitVec 8) (i : Nat), i ≤ 24 →
      (x.setWidth 32 <<< i).toNat = 2 ^ i * x.toNat := by
    intro x i hi
    have hx := x.isLt
    have hsmall : 2 ^ i * x.toNat < 2 ^ 32 :=
      calc 2 ^ i * x.toNat ≤ 2 ^ 24 * 255 :=
            Nat.mul_le_mul (Nat.pow_le_pow_right (by omega) hi) (by omega)
        _ < 2 ^ 32 := by decide
    rw [BitVec.toNat_shiftLeft, BitVec.toNat_setWidth,
      Nat.mod_eq_of_lt (show x.toNat < 2 ^ 32 by omega), Nat.shiftLeft_eq, mul_comm,
      Nat.mod_eq_of_lt hsmall]
  rw [word, BitVec.toNat_or, BitVec.toNat_or, BitVec.toNat_or, hshift a 24 (by omega),
    hshift b 16 (by omega), hshift c 8 (by omega), BitVec.toNat_setWidth,
    Nat.mod_eq_of_lt (show d.toNat < 2 ^ 32 by omega), h₁,
    show 2 ^ 24 * a.toNat + 2 ^ 16 * b.toNat = 2 ^ 16 * (2 ^ 8 * a.toNat + b.toNat) by omega, h₂,
    show 2 ^ 16 * (2 ^ 8 * a.toNat + b.toNat) + 2 ^ 8 * c.toNat =
      2 ^ 8 * (2 ^ 16 * a.toNat + 2 ^ 8 * b.toNat + c.toNat) by omega, h₃]
  omega

theorem hton32_load32 (e : Endian) (a b c d : BitVec 8) :
    hton32 e (load32 e a b c d) = word a b c d := by
  cases e with
  | big => rfl
  | little =>
    apply BitVec.eq_of_toNat_eq
    rw [hton32, load32, BitVec.toNat_ofNat, Nat.mod_eq_of_lt (reverse32_lt _), toNat_word,
      toNat_word, reverse32_bytes _ _ _ _ d.isLt c.isLt b.isLt a.isLt]

theorem store32_hton32 (e : Endian) (w : BitVec 32) : store32 e (hton32 e w) = octets w := by
  obtain ⟨a, b, c, d, rfl⟩ := exists_word w
  rw [← hton32_load32 e, hton32_hton32, store32_word, hton32_load32, octets_word]

theorem word16_octets16 (w : BitVec 16) :
    word16 ((w >>> 8).setWidth 8) (w.setWidth 8) = w := by
  ext i hi
  simp only [word16]
  interval_cases i <;> simp

theorem octets16_word16 (a b : BitVec 8) : octets16 (word16 a b) = [a, b] := by
  simp only [octets16, word16, List.cons.injEq, and_true]
  refine ⟨?_, ?_⟩
  all_goals
    ext i hi
    interval_cases i <;> simp

theorem store16_load16 (e : Endian) (a b : BitVec 8) : store16 e (load16 e a b) = [a, b] := by
  cases e with
  | little => rw [store16, load16, octets16_word16]; rfl
  | big => exact octets16_word16 a b

theorem toNat_word16 (a b : BitVec 8) : (word16 a b).toNat = a.toNat * 256 + b.toNat := by
  have ha := a.isLt
  have hb := b.isLt
  have hdisjoint : (2 ^ 8 * a.toNat) ||| b.toNat = 2 ^ 8 * a.toNat + b.toNat :=
    (Nat.two_pow_add_eq_or_of_lt hb a.toNat).symm
  rw [word16, BitVec.toNat_or, BitVec.toNat_shiftLeft, BitVec.toNat_setWidth,
    BitVec.toNat_setWidth, Nat.mod_eq_of_lt (show a.toNat < 2 ^ 16 by omega),
    Nat.mod_eq_of_lt (show b.toNat < 2 ^ 16 by omega), Nat.shiftLeft_eq,
    Nat.mod_eq_of_lt (by omega), mul_comm, hdisjoint]

theorem hton16_load16 (e : Endian) (a b : BitVec 8) : hton16 e (load16 e a b) = word16 a b := by
  cases e with
  | big => rfl
  | little =>
    apply BitVec.eq_of_toNat_eq
    rw [hton16, load16, BitVec.toNat_ofNat, Nat.mod_eq_of_lt (reverse16_lt _), toNat_word16,
      toNat_word16, reverse16_bytes _ _ b.isLt a.isLt]

theorem store16_hton16 (e : Endian) (w : BitVec 16) : store16 e (hton16 e w) = octets16 w := by
  have hw := word16_octets16 w
  generalize (w >>> 8).setWidth 8 = a at hw
  generalize w.setWidth 8 = b at hw
  rw [← hw, ← hton16_load16 e, hton16_hton16, store16_load16, hton16_load16, octets16_word16]

theorem loadWords_length (e : Endian) (n : Nat) (bs : List (BitVec 8)) (h : bs.length = 4 * n) :
    (loadWords e bs).length = n := by
  induction n generalizing bs with
  | zero => rw [List.eq_nil_of_length_eq_zero h]; rfl
  | succ n ih =>
    match bs, h with
    | a :: b :: c :: d :: rest, h =>
      have hrest : rest.length = 4 * n := by
        simp only [List.length_cons] at h
        omega
      rw [loadWords, List.length_cons, ih rest hrest]

end P2PCC.Lib.Words

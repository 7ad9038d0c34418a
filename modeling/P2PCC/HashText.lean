import Mathlib.Data.List.Induction
import P2PCC.GetRequests
import P2PCC.Publishing

namespace P2PCC.HashText

open P2PCC.Packet P2PCC.ChunkFile P2PCC.GetRequests P2PCC.Publishing

/-- The letter case `sprintf` prints. -/
def tolower (c : Byte) : Byte := if 65 ≤ c.toNat ∧ c.toNat ≤ 90 then c + 32 else c

theorem hexDigit_lt (c : Byte) (hc : HexDigit c) : (hexDigit c).toNat < 16 := by
  revert c
  decide

theorem hexChar_hexDigit (c : Byte) (hc : HexDigit c) : hexChar (hexDigit c) = tolower c := by
  revert c
  decide

theorem toNat_digits {high low : Byte} (hh : high.toNat < 16) (hl : low.toNat < 16) :
    (high <<< 4 ||| low).toNat = 16 * high.toNat + low.toNat := by
  rw [BitVec.toNat_or, BitVec.toNat_shiftLeft, Nat.shiftLeft_eq, Nat.mod_eq_of_lt (by omega),
    ← Nat.shiftLeft_eq, ← Nat.shiftLeft_add_eq_or_of_lt hl, Nat.shiftLeft_eq]
  omega

theorem halves_of_digits {high low : Byte} (hh : high.toNat < 16) (hl : low.toNat < 16) :
    (high <<< 4 ||| low) >>> 4 = high ∧ (high <<< 4 ||| low) &&& 15 = low := by
  have hsum := toNat_digits hh hl
  constructor
  · apply BitVec.eq_of_toNat_eq
    rw [BitVec.toNat_ushiftRight, hsum, Nat.shiftRight_eq_div_pow]
    omega
  · apply BitVec.eq_of_toNat_eq
    have hmask : (15 : Byte).toNat = 2 ^ 4 - 1 := rfl
    rw [BitVec.toNat_and, hsum, hmask, Nat.and_two_pow_sub_one_eq_mod]
    omega

theorem hex2binary_cons (c d : Byte) (s : List Byte) (len : Nat) :
    hex2binary (c :: d :: s) (len + 2) =
      (hexDigit c <<< 4 ||| hexDigit d) :: hex2binary s len := by
  have hhalf : (len + 2 + 1) / 2 = (len + 1) / 2 + 1 := by omega
  rw [hex2binary, hex2binary, hhalf, List.range_succ_eq_map, List.map_cons, List.map_map]
  rfl

theorem binary2hex_hex2binary {s : List Byte} (he : Even s.length) (hd : ∀ c ∈ s, HexDigit c) :
    binary2hex (hex2binary s s.length) = s.map tolower := by
  induction s using List.twoStepInduction with
  | nil => rfl
  | singleton c => exact absurd he (by simp)
  | cons_cons c d s ih _ =>
    obtain ⟨hc, hd, hs⟩ : HexDigit c ∧ HexDigit d ∧ ∀ c ∈ s, HexDigit c := by simpa using hd
    have hrest := ih (by simpa [Nat.even_add_one] using he) hs
    obtain ⟨hhigh, hlow⟩ := halves_of_digits (hexDigit_lt c hc) (hexDigit_lt d hd)
    rw [List.length_cons, List.length_cons, hex2binary_cons, binary2hex, List.flatMap_cons,
      ← binary2hex, hrest, hhigh, hlow, hexChar_hexDigit c hc, hexChar_hexDigit d hd]
    rfl

theorem hex2binary_eq_iff {a b : List Byte} (hlen : a.length = b.length) (he : Even a.length)
    (ha : ∀ c ∈ a, HexDigit c) (hb : ∀ c ∈ b, HexDigit c) :
    hex2binary a a.length = hex2binary b b.length ↔ a.map tolower = b.map tolower := by
  constructor
  · intro heq
    rw [← binary2hex_hex2binary he ha, heq, binary2hex_hex2binary (hlen ▸ he) hb]
  · intro heq
    have hprint : binary2hex (hex2binary a a.length) = binary2hex (hex2binary b b.length) := by
      rw [binary2hex_hex2binary he ha, heq, binary2hex_hex2binary (hlen ▸ he) hb]
    calc hex2binary a a.length
      _ = hex2binary (binary2hex (hex2binary a a.length)) (2 * (hex2binary a a.length).length) :=
        (hex2binary_binary2hex _).symm
      _ = hex2binary (binary2hex (hex2binary b b.length)) (2 * (hex2binary b b.length).length) := by
        rw [hprint, hex2binary_length, hex2binary_length, hlen]
      _ = hex2binary b b.length := hex2binary_binary2hex _

/-- The text and the bytes of a hash determine each other up to letter case. -/
theorem hash_text :
    (∀ b : List Byte, hex2binary (binary2hex b) (binary2hex b).length = b) ∧
      (∀ s : List Byte, Even s.length → (∀ c ∈ s, HexDigit c) →
        binary2hex (hex2binary s s.length) = s.map tolower) ∧
      ∀ a b : List Byte, a.length = 40 → b.length = 40 → (∀ c ∈ a, HexDigit c) →
        (∀ c ∈ b, HexDigit c) →
          (hex2binary a 40 = hex2binary b 40 ↔ a.map tolower = b.map tolower) := by
  refine ⟨?_, fun s he hd => binary2hex_hex2binary he hd, ?_⟩
  · intro b
    rw [binary2hex_length, hex2binary_binary2hex]
  · intro a b hla hlb ha hb
    have hiff := hex2binary_eq_iff (hla.trans hlb.symm) (hla ▸ by decide) ha hb
    rwa [hla, hlb] at hiff

/-- Forty times the digit A, in one case and the other. -/
theorem hash_text_letters :
    hex2binary (List.replicate 40 65) 40 = hex2binary (List.replicate 40 97) 40 :=
  (hash_text.2.2 (List.replicate 40 65) (List.replicate 40 97) (by simp) (by simp)
    (by decide) (by decide)).mpr (by decide)

end P2PCC.HashText

import P2PCC.Sha
import P2PCC.Lib.Runs
import Mathlib.Data.List.GetD

namespace P2PCC.Digests

open P2PCC.Lib.ByteOrder P2PCC.Lib.Words P2PCC.Lib.Absorbing P2PCC.Lib.SecureHash
open P2PCC.Packet (Byte)
open P2PCC.Sha (Build SHA1Context Locals rotl swapWord swaps gutsHash doRound twentyRounds nextWord
  sha1Guts sha1Init sha1Update sha1UpdateFast sha1Final updateLoop blockLoop copyIn flush memcpy
  shahash)

section Words

theorem rotl_eq (x : Word) {n : Nat} (h : n < 32) : rotl x n = x.rotateLeft n := by
  rw [BitVec.rotateLeft_def, Nat.mod_eq_of_lt h]
  rfl

theorem f0_19_eq : Sha.f0_19 = ch := by
  funext x y z
  ext i hi
  simp only [Sha.f0_19, ch, BitVec.getElem_xor, BitVec.getElem_and, BitVec.getElem_not]
  cases x[i] <;> cases y[i] <;> cases z[i] <;> rfl

theorem f40_59_eq : Sha.f40_59 = maj := by
  funext x y z
  ext i hi
  simp only [Sha.f40_59, maj, BitVec.getElem_xor, BitVec.getElem_and, BitVec.getElem_or]
  cases x[i] <;> cases y[i] <;> cases z[i] <;> rfl

theorem swapWord_word (a b c d : Byte) : swapWord (word a b c d) = word d c b a := by
  apply BitVec.eq_of_getLsbD_eq
  intro i hi
  simp only [swapWord, Sha.rotr, rotl, word]
  interval_cases i <;> simp

theorem byteswap_load (e : Endian) (a b c d : Byte) :
    Sha.byteswap (e == .little) (load32 e a b c d) = word a b c d := by
  cases e with
  | little => exact swapWord_word d c b a
  | big => rfl

theorem byteswap_loadWords (e : Endian) (bs : List Byte) :
    (loadWords e bs).map (Sha.byteswap (e == .little)) = loadWords .big bs := by
  induction bs using loadWords.induct with
  | case1 a b c d rest ih =>
    rw [loadWords, List.map_cons, byteswap_load, ih, loadWords]
    rfl
  | case2 bs h =>
    rw [loadWords, loadWords]
    · rfl
    · exact h
    · exact h

theorem store32_byteswap (e : Endian) (w : Word) :
    store32 e (Sha.byteswap (e == .little) w) = octets w := by
  obtain ⟨a, b, c, d, rfl⟩ := exists_word w
  cases e with
  | little =>
    have hswap : Sha.byteswap true (word a b c d) = word d c b a := swapWord_word a b c d
    rw [octets_word]
    simp only [store32, beq_self_eq_true, hswap, octets_word]
    rfl
  | big => rfl

theorem halves_low (u v : Word) :
    (u.setWidth 64 <<< 32 ||| v.setWidth 64).setWidth 32 = v := by
  ext i hi
  simp

theorem halves_high (u v : Word) :
    ((u.setWidth 64 <<< 32 ||| v.setWidth 64) >>> 32).setWidth 32 = u := by
  ext i hi
  have hlow : i < 64 := by omega
  have hhigh : 32 + i < 64 := by omega
  simp [hlow, hhigh, BitVec.getLsbD_eq_getElem hi]

theorem store64_byteswap64 (e : Endian) (x : BitVec 64) :
    store64 e (Sha.byteswap64 (e == .little) x) =
      octets ((x >>> 32).setWidth 32) ++ octets (x.setWidth 32) := by
  cases e with
  | little =>
    have hhigh := store32_byteswap .little ((x >>> 32).setWidth 32)
    have hlow := store32_byteswap .little (x.setWidth 32)
    simp only [Sha.byteswap, beq_self_eq_true, if_true] at hhigh hlow
    simp only [store64, Sha.byteswap64, Sha.swapWord64, beq_self_eq_true, if_true]
    rw [halves_low, halves_high, hhigh, hlow]
  | big => rfl

end Words

section Guts

variable {b : Build}

theorem nextWord_foldl (m : List Word) (hm : m.length = 16) (n : Nat) :
    (List.range n).foldl nextWord m = (List.range (16 + n)).map (schedule m) := by
  induction n with
  | zero =>
    apply List.ext_getElem
    · rw [List.length_map, List.length_range, List.range_zero, List.foldl_nil, hm]
    · intro i hi _
      have hlt : i < 16 := by rwa [← hm]
      rw [List.getElem_map, List.getElem_range, schedule_start m hlt]
      exact (List.getD_eq_getElem m 0 hi).symm
  | succ n ih =>
    have hread : ∀ i < 16 + n, ((List.range (16 + n)).map (schedule m)).getD i 0 = schedule m i := by
      intro i hi
      rw [List.getD_eq_getElem _ _ (by rwa [List.length_map, List.length_range]), List.getElem_map,
        List.getElem_range]
    rw [List.range_succ, List.foldl_append, ih, List.foldl_cons, List.foldl_nil, nextWord,
      hread _ (by omega), hread _ (by omega), hread _ (by omega), hread _ (by omega),
      rotl_eq _ (by decide), ← schedule_next, ← Nat.add_assoc, List.range_succ, List.map_append,
      List.map_singleton]

def registers (v : Locals) : Registers := ⟨v.a, v.b, v.c, v.d, v.e⟩

theorem doRound_iterate (w : Nat → Word) (F : Word → Word → Word → Word) (K : Word) (s n : Nat)
    (hF : ∀ t, s ≤ t → t < s + n → f t = F ∧ k t = K) (v : Locals)
    (hW : ∀ i < n, v.W.getD i 0 = w (s + i)) :
    registers ((doRound F K)^[n] v) = (List.range' s n).foldl (roundStep w) (registers v) ∧
      ((doRound F K)^[n] v).W = v.W.drop n := by
  induction n generalizing s v with
  | zero => exact ⟨rfl, rfl⟩
  | succ n ih =>
    obtain ⟨hf, hk⟩ := hF s le_rfl (by omega)
    have hhead : v.W.headD 0 = w s := by
      have h := hW 0 (by omega)
      rwa [List.getD_eq_getElem?_getD, ← List.head?_eq_getElem?, ← List.headD_eq_head?_getD] at h
    have hround : registers (doRound F K v) = roundStep w (registers v) s := by
      simp only [registers, doRound, roundStep, hhead, hf, hk, rotl_eq _ (show 5 < 32 by decide),
        rotl_eq _ (show 30 < 32 by decide), Registers.mk.injEq, and_self, and_true]
      rw [BitVec.add_assoc, BitVec.add_comm (w s), ← BitVec.add_assoc]
    have hnext : ∀ i < n, (doRound F K v).W.getD i 0 = w (s + 1 + i) := by
      intro i hi
      have h := hW (i + 1) (by omega)
      rw [show s + 1 + i = s + (i + 1) by omega, ← h]
      simp only [doRound, List.getD_eq_getElem?_getD, List.getElem?_tail]
    obtain ⟨hregs, hleft⟩ := ih (s + 1) (fun t hl hu => hF t (by omega) (by omega)) (doRound F K v)
      hnext
    rw [Function.iterate_succ_apply, List.range'_succ, List.foldl_cons, ← hround]
    refine ⟨hregs, ?_⟩
    rw [hleft, doRound, List.drop_tail]

/-- The loops of all unrollings make twenty rounds. -/
theorem twentyRounds_eq (F : Word → Word → Word → Word) (K : Word) :
    twentyRounds b F K = (doRound F K)^[20] := by
  have hmem := b.unroll_mem
  have hall : ∀ u ∈ [1, 2, 4, 5, 10, 20], u * (20 / u) = 20 := by decide
  rw [twentyRounds, ← Function.iterate_mul, hall _ hmem]

def rounds (b : Build) (v : Locals) : Locals :=
  twentyRounds b Sha.f60_79 Sha.k60_79 (twentyRounds b Sha.f40_59 Sha.k40_59
    (twentyRounds b Sha.f20_39 Sha.k20_39 (twentyRounds b Sha.f0_19 Sha.k0_19 v)))

theorem rounds_eq (w : Nat → Word) (v : Locals) (hW : ∀ i < 80, v.W.getD i 0 = w i) :
    registers (rounds b v) = (List.range 80).foldl (roundStep w) (registers v) := by
  have hdrop : ∀ n i, n + i < 80 → (v.W.drop n).getD i 0 = w (n + i) := by
    intro n i hi
    rw [List.getD_eq_getElem?_getD, List.getElem?_drop, ← List.getD_eq_getElem?_getD, hW _ hi]
  simp only [rounds, twentyRounds_eq]
  obtain ⟨h1, hW1⟩ := doRound_iterate w Sha.f0_19 Sha.k0_19 0 20
    (by rw [f0_19_eq]; exact fun t hl hu => ⟨if_pos (by omega), if_pos (by omega)⟩) v
    (fun i hi => by rw [hW i (by omega), Nat.zero_add])
  generalize (doRound Sha.f0_19 Sha.k0_19)^[20] v = v1 at h1 hW1 ⊢
  obtain ⟨h2, hW2⟩ := doRound_iterate w Sha.f20_39 Sha.k20_39 20 20
    (by
      intro t hl hu
      rw [f, k, if_neg (by omega), if_pos (by omega), if_neg (by omega), if_pos (by omega)]
      exact ⟨rfl, rfl⟩) v1
    (fun i hi => by rw [hW1, hdrop _ _ (by omega)])
  generalize (doRound Sha.f20_39 Sha.k20_39)^[20] v1 = v2 at h2 hW2 ⊢
  rw [hW1, List.drop_drop] at hW2
  obtain ⟨h3, hW3⟩ := doRound_iterate w Sha.f40_59 Sha.k40_59 40 20
    (by
      intro t hl hu
      rw [f, k, if_neg (by omega), if_neg (by omega), if_pos (by omega), if_neg (by omega),
        if_neg (by omega), if_pos (by omega), f40_59_eq]
      exact ⟨rfl, rfl⟩) v2
    (fun i hi => by rw [hW2, hdrop _ _ (by omega)])
  generalize (doRound Sha.f40_59 Sha.k40_59)^[20] v2 = v3 at h3 hW3 ⊢
  rw [hW2, List.drop_drop] at hW3
  obtain ⟨h4, -⟩ := doRound_iterate w Sha.f60_79 Sha.k60_79 60 20
    (by
      intro t hl hu
      rw [f, k, if_neg (by omega), if_neg (by omega), if_neg (by omega), if_neg (by omega),
        if_neg (by omega), if_neg (by omega)]
      exact ⟨rfl, rfl⟩) v3
    (fun i hi => by rw [hW3, hdrop _ _ (by omega)])
  rw [h4, h3, h2, h1, ← List.foldl_append, ← List.foldl_append, ← List.foldl_append]
  rfl

def words (r : Registers) : Vector Word 5 := #v[r.a, r.b, r.c, r.d, r.e]

theorem gutsHash_rounds (swap : Bool) (r : Registers) (block : List Byte) :
    gutsHash b swap (words r) block = words (r.add (registers (rounds b ⟨r.a, r.b, r.c, r.d, r.e,
      (List.range 64).foldl nextWord (((loadWords b.host block).take 16).map
        (Sha.byteswap swap))⟩))) := by
  simp only [gutsHash, rounds]
  rfl

theorem exists_words (hash : Vector Word 5) : ∃ r, hash = words r := by
  refine ⟨⟨hash[0], hash[1], hash[2], hash[3], hash[4]⟩, ?_⟩
  ext i hi
  interval_cases i <;> rfl

theorem rounds_congr (b b' : Build) : rounds b = rounds b' := by
  funext v
  rw [rounds, rounds]
  simp only [twentyRounds_eq]

/-- A block is compressed as the standard says when the code has the byte order
of the host right. -/
theorem gutsHash_eq (r : Registers) {block : List Byte} (hb : block.length = 64) :
    gutsHash b (b.host == .little) (words r) block = words (compress r block) := by
  have hlength := loadWords_length .big 16 block hb
  have hfirst : ((loadWords b.host block).take 16).map (Sha.byteswap (b.host == .little)) =
      loadWords .big block := by
    rw [List.map_take, byteswap_loadWords, ← hlength, List.take_length]
  rw [gutsHash_rounds, hfirst, rounds_eq (schedule (loadWords .big block))]
  · rfl
  · intro i hi
    rw [nextWord_foldl _ hlength, List.getD_eq_getElem _ _ (by simpa using hi), List.getElem_map,
      List.getElem_range]

end Guts

section Updates

variable {b : Build} {swap : Bool} {sc : SHA1Context} {a : Absorbed Byte (Vector Word 5)} {n : Nat}

/-- The input of the hash function, as far as it has been taken in. -/
abbrev Input := Absorbed Byte (Vector Word 5)

/-- A context holds what has been absorbed of an input of `n` bytes. -/
structure Holds (b : Build) (swap : Bool) (sc : SHA1Context) (a : Input) (n : Nat) : Prop where
  swap : swaps b sc = swap
  hash : sc.hash = a.state
  bound : a.rest.length < 64
  bufferLength : sc.bufferLength = a.rest.length
  buffer : sc.buffer.toList.take a.rest.length = a.rest
  totalLength : sc.totalLength = BitVec.ofNat 64 (n * 8)

theorem swaps_congr {sc' : SHA1Context} (h : sc'.littleEndian = sc.littleEndian) :
    swaps b sc' = swaps b sc := by rw [swaps, swaps, h]

theorem memcpy_take (buffer : Vector Byte 64) (pos : Nat) (data : List Byte)
    (h : pos + data.length ≤ 64) :
    (memcpy buffer pos data).toList.take (pos + data.length) = buffer.toList.take pos ++ data := by
  apply List.ext_getElem
  · simp only [List.length_take, Vector.length_toList, List.length_append]
    omega
  · intro i hi _
    simp only [List.length_take, Vector.length_toList] at hi
    simp only [List.getElem_take, Vector.getElem_toList, memcpy, Vector.getElem_ofFn]
    by_cases hpos : pos ≤ i
    · have hright : (buffer.toList.take pos).length ≤ i := by
        rw [List.length_take, Vector.length_toList]
        omega
      rw [if_pos hpos, List.getElem_append_right hright, List.getD_eq_getElem _ _ (by omega)]
      congr 1
      simp only [List.length_take, Vector.length_toList]
      omega
    · rw [if_neg hpos, List.getElem_append_left (by simp; omega), List.getElem_take,
        Vector.getElem_toList]
      rfl

theorem total_add (n m : Nat) : BitVec.ofNat 64 (n * 8) + BitVec.ofNat 64 (m * 8) =
    BitVec.ofNat 64 ((n + m) * 8) := by
  rw [← BitVec.ofNat_add, ← Nat.add_mul]

theorem copyIn_holds (hs : Holds b swap sc a n) (data : List Byte)
    (h : a.rest.length + data.length < 64) :
    Holds b swap (copyIn sc data) (absorb 64 (gutsHash b swap) a data) (n + data.length) := by
  have hlength : (a.rest ++ data).length = a.rest.length + data.length := List.length_append
  rw [absorb_open a data h]
  refine ⟨hs.swap, hs.hash, by rwa [hlength], ?_, ?_, ?_⟩
  · rw [hlength, copyIn, hs.bufferLength]
  · rw [hlength]
    simp only [copyIn]
    rw [hs.bufferLength, memcpy_take _ _ _ (by omega), hs.buffer]
  · simp only [copyIn]
    rw [hs.totalLength, total_add]

theorem flush_holds (hs : Holds b swap sc a n) (data : List Byte)
    (h : a.rest.length + data.length ≤ 64) :
    Holds b swap (flush b (copyIn sc data)) (absorb 64 (gutsHash b swap) a data)
      (n + data.length) := by
  have hplace : (copyIn sc data).bufferLength = a.rest.length + data.length := by
    rw [copyIn, hs.bufferLength]
  by_cases hfull : a.rest.length + data.length = 64
  · have hbound := hs.bound
    have hne : data ≠ [] := by
      rintro rfl
      exact absurd hfull (by simpa using hbound.ne)
    have hbuffer : (copyIn sc data).buffer.toList = a.rest ++ data := by
      have htake := memcpy_take sc.buffer a.rest.length data h
      rw [hs.buffer, hfull, List.take_of_length_le (by simp)] at htake
      rw [copyIn, hs.bufferLength, htake]
    rw [absorb_full a data hne hfull, flush, if_pos (by rw [hplace, hfull])]
    refine ⟨hs.swap, ?_, by simp, rfl, rfl, ?_⟩
    · simp only [sha1Guts]
      rw [hbuffer, show swaps b (copyIn sc data) = swap from hs.swap,
        show (copyIn sc data).hash = a.state from hs.hash]
    · simp only [sha1Guts, copyIn]
      rw [hs.totalLength, total_add]
  · rw [flush, if_neg (by rw [hplace]; exact hfull)]
    exact copyIn_holds hs data (by omega)

theorem updateLoop_holds (hs : Holds b swap sc a n) (data : List Byte) (m : Nat)
    (hm : data.length ≤ m) :
    Holds b swap (updateLoop b m sc data) (absorb 64 (gutsHash b swap) a data)
      (n + data.length) := by
  induction m generalizing sc a n data with
  | zero =>
    rw [List.eq_nil_of_length_eq_zero (Nat.le_zero.mp hm)]
    exact hs
  | succ m ih =>
    rw [updateLoop]
    split
    · rename_i hnil
      rw [List.eq_nil_of_length_eq_zero hnil]
      exact hs
    · rename_i hpos
      have hbound := hs.bound
      rw [hs.bufferLength]
      have hcopy : (data.take (min (64 - a.rest.length) data.length)).length =
          min (64 - a.rest.length) data.length := by
        rw [List.length_take]
        omega
      have hnext := ih (flush_holds hs (data.take (min (64 - a.rest.length) data.length)) (by omega))
        (data.drop (min (64 - a.rest.length) data.length)) (by rw [List.length_drop]; omega)
      rw [← absorb_append, List.take_append_drop, Nat.add_assoc, ← List.length_append,
        List.take_append_drop] at hnext
      exact hnext

theorem blockLoop_holds (hs : Holds b swap sc a n) (hrest : a.rest = []) (data : List Byte) :
    ∃ m, data = data.take m ++ (blockLoop b sc data).2 ∧ (blockLoop b sc data).2.length ≤ 63 ∧
      Holds b swap (blockLoop b sc data).1 (absorb 64 (gutsHash b swap) a (data.take m))
        (n + (data.take m).length) ∧
      (absorb 64 (gutsHash b swap) a (data.take m)).rest = [] := by
  induction hlength : data.length using Nat.strongRecOn generalizing sc a n data with
  | _ k ih =>
    rw [blockLoop]
    split
    · rename_i hlong
      have hblock : (data.take 64).length = 64 := by
        rw [List.length_take]
        omega
      have hne : data.take 64 ≠ [] := by
        rw [← List.length_pos_iff]
        omega
      have hfull : a.rest.length + (data.take 64).length = 64 := by
        rw [hrest, hblock, List.length_nil]
      have habsorb : absorb 64 (gutsHash b swap) a (data.take 64) = _ := absorb_full a _ hne hfull
      have hnext : Holds b swap
          (sha1Guts b { sc with totalLength := sc.totalLength + 512 } (data.take 64))
          (absorb 64 (gutsHash b swap) a (data.take 64)) (n + 64) := by
        rw [habsorb]
        have hswap : swaps b { sc with totalLength := sc.totalLength + 512 } = swap := by
          rw [← hs.swap]
          exact swaps_congr rfl
        refine ⟨?_, ?_, by simp, ?_, rfl, ?_⟩
        · rw [← hswap]
          apply swaps_congr
          simp only [sha1Guts]
        · rw [hrest, List.nil_append, sha1Guts, hswap]
          simp only [hs.hash]
        · rw [sha1Guts, hs.bufferLength, hrest]
        · have hblocks : (512 : BitVec 64) = BitVec.ofNat 64 (64 * 8) := by decide
          simp only [sha1Guts]
          rw [hs.totalLength, hblocks, total_add]
      obtain ⟨m, hdata, hshort, hholds, hopen⟩ := ih (data.drop 64).length
        (by rw [List.length_drop]; omega) hnext (by rw [habsorb]) (data.drop 64) rfl
      have htake : data.take (64 + m) = data.take 64 ++ (data.drop 64).take m := List.take_add
      refine ⟨64 + m, ?_, hshort, ?_, ?_⟩
      · rw [htake, List.append_assoc, ← hdata, List.take_append_drop]
      · rwa [htake, absorb_append, List.length_append, hblock, ← Nat.add_assoc]
      · rwa [htake, absorb_append]
    · rename_i hshort
      exact ⟨0, rfl, by simpa using hshort, hs, hrest⟩

theorem blocks_holds (hs : Holds b swap sc a n) (data : List Byte)
    (h : a.rest = [] ∨ data = []) :
    Holds b swap (if (blockLoop b sc data).2.length ≠ 0 then
        copyIn (blockLoop b sc data).1 (blockLoop b sc data).2 else (blockLoop b sc data).1)
      (absorb 64 (gutsHash b swap) a data) (n + data.length) := by
  obtain hrest | rfl := h
  · obtain ⟨m, hdata, hshort, hholds, hopen⟩ := blockLoop_holds hs hrest data
    split
    · have hlast := copyIn_holds hholds (blockLoop b sc data).2
        (by rw [hopen, List.length_nil]; omega)
      rwa [← absorb_append, ← hdata, Nat.add_assoc, ← List.length_append, ← hdata] at hlast
    · rename_i hnil
      rw [List.eq_nil_of_length_eq_zero (not_ne_iff.mp hnil), List.append_nil] at hdata
      rwa [← hdata] at hholds
  · rw [blockLoop]
    exact hs

theorem sha1UpdateFast_holds (hs : Holds b swap sc a n) (data : List Byte) :
    Holds b swap (sha1UpdateFast b sc data) (absorb 64 (gutsHash b swap) a data)
      (n + data.length) := by
  have hbound := hs.bound
  rw [sha1UpdateFast, hs.bufferLength]
  by_cases hempty : a.rest = []
  · simp only [hempty, List.length_nil, ne_eq, not_true_eq_false, if_false, List.drop_zero]
    exact blocks_holds hs data (Or.inl hempty)
  · have hpos := List.length_pos_iff.mpr hempty
    have hne : a.rest.length ≠ 0 := by omega
    simp only [if_pos hne]
    let m := min (64 - a.rest.length) data.length
    have hcopy : (data.take m).length = m := by
      rw [List.length_take]
      omega
    have hfirst := flush_holds hs (data.take m) (by omega)
    -- the buffer has been filled, or the data have come to their end
    have hleft : (absorb 64 (gutsHash b swap) a (data.take m)).rest = [] ∨ data.drop m = [] := by
      by_cases hshort : data.length ≤ 64 - a.rest.length
      · exact Or.inr (List.drop_eq_nil_of_le (by omega))
      · apply Or.inl
        have hplace : a.rest.length + m = 64 := by omega
        rw [← List.length_eq_zero_iff, rest_absorb _ _ hbound, hcopy, hplace]
    have hlast := blocks_holds hfirst (data.drop m) hleft
    rwa [← absorb_append, List.take_append_drop, Nat.add_assoc, ← List.length_append,
      List.take_append_drop] at hlast

/-- Both updates take in what they are given. -/
theorem sha1Update_holds (hs : Holds b swap sc a n) (data : List Byte) :
    Holds b swap (sha1Update b sc data) (absorb 64 (gutsHash b swap) a data)
      (n + data.length) := by
  rw [sha1Update]
  split
  · exact sha1UpdateFast_holds hs data
  · exact updateLoop_holds hs data data.length le_rfl

theorem updates_holds (hs : Holds b swap sc a n) (pieces : List (List Byte)) :
    Holds b swap (pieces.foldl (sha1Update b) sc) (absorb 64 (gutsHash b swap) a pieces.flatten)
      (n + pieces.flatten.length) := by
  induction pieces generalizing sc a n with
  | nil => exact hs
  | cons piece pieces ih =>
    have hrest := ih (sha1Update_holds hs piece)
    rwa [← absorb_append, Nat.add_assoc, ← List.length_append, ← List.flatten_cons] at hrest

/-- The byte order that the code goes by. -/
def assumed (b : Build) : Bool := if b.runtimeEndian then b.host == .little else !b.wordsBigEndian

theorem setEndian_eq : Sha.setEndian b = (b.host == .little) := by
  rw [Sha.setEndian]
  cases b.host <;> rfl

theorem sha1Init_holds (b : Build) (sc : SHA1Context) :
    Holds b (assumed b) (sha1Init b sc) ⟨words initial, []⟩ 0 := by
  refine ⟨?_, rfl, by simp, rfl, rfl, rfl⟩
  rw [swaps, assumed, sha1Init, setEndian_eq]
  split <;> rfl

end Updates

section Final

variable {b : Build} {swap : Bool} {sc : SHA1Context} {a : Input} {n : Nat}

theorem padding_take {r : Nat} (hr : sc.bufferLength = r) (hb : r < 64) (hn : n % 64 = r) :
    Sha.padding.take (Sha.bytesToPad sc) ++ lengthField n = trailer n := by
  have hpad : Sha.bytesToPad sc = (119 - n % 64) % 64 + 1 := by
    rw [Sha.bytesToPad, hr, hn]
    split <;> omega
  have hfit : (119 - n % 64) % 64 ≤ 63 := by omega
  rw [hpad, Sha.padding, List.take_succ_cons, List.take_replicate, Nat.min_eq_left hfit]
  rfl

/-- The context in the end holds the input with its padding. -/
theorem sha1Final_holds (hs : Holds b swap sc a n) :
    Holds b swap (sha1Final b sc).1
      (absorb 64 (gutsHash b swap) a (Sha.padding.take (Sha.bytesToPad sc) ++
        store64 b.host (Sha.byteswap64 swap (BitVec.ofNat 64 (n * 8)))))
      (n + (Sha.padding.take (Sha.bytesToPad sc) ++
        store64 b.host (Sha.byteswap64 swap (BitVec.ofNat 64 (n * 8)))).length) := by
  have hfinal := sha1Update_holds (sha1Update_holds hs (Sha.padding.take (Sha.bytesToPad sc)))
    (store64 b.host (Sha.byteswap64 swap (BitVec.ofNat 64 (n * 8))))
  rw [← absorb_append, Nat.add_assoc, ← List.length_append] at hfinal
  rw [sha1Final, hs.swap, hs.totalLength]
  exact hfinal

/-- The code has the byte order of its host right: it finds it out, or it has
been told. -/
def Configured (b : Build) : Prop :=
  b.runtimeEndian = true ∨ b.wordsBigEndian = (b.host == .big)

theorem configured_iff (b : Build) : Configured b ↔ assumed b = (b.host == .little) := by
  rw [Configured, assumed]
  cases b.runtimeEndian <;> cases b.wordsBigEndian <;> cases b.host <;> decide

theorem writeHash_words (h : swaps b sc = (b.host == .little)) {r : Registers}
    (hr : sc.hash = words r) : Sha.writeHash b sc = r.octets := by
  have hword : ∀ w : Word, (if b.fastCopy then store32 b.host (Sha.byteswap (swaps b sc) w)
      else [(w >>> 24).setWidth 8, (w >>> 16).setWidth 8, (w >>> 8).setWidth 8, w.setWidth 8]) =
        octets w := by
    intro w
    split
    · rw [h, store32_byteswap]
    · rfl
  rw [Sha.writeHash, hr]
  simp only [hword]
  rfl

theorem sha1Final_pieces (hb : Configured b) (sc : SHA1Context) (pieces : List (List Byte)) :
    (sha1Final b (pieces.foldl (sha1Update b) (sha1Init b sc))).2 = sha1 pieces.flatten := by
  have hswap := (configured_iff b).mp hb
  have hinit := sha1Init_holds b sc
  rw [hswap] at hinit
  have hmap : ∀ input, absorb 64 (gutsHash b (b.host == .little)) ⟨words initial, []⟩ input =
      ⟨words (absorb 64 compress ⟨initial, []⟩ input).state,
        (absorb 64 compress ⟨initial, []⟩ input).rest⟩ :=
    absorb_map words (fun st block hlength => gutsHash_eq st hlength) ⟨initial, []⟩
  have hupdated := updates_holds hinit pieces
  have hrest : (absorb 64 (gutsHash b (b.host == .little)) ⟨words initial, []⟩
      pieces.flatten).rest.length = _ := rest_absorb _ _ (show 0 < 64 by decide)
  rw [Nat.zero_add] at hupdated
  rw [List.length_nil, Nat.zero_add] at hrest
  have hfinal := sha1Final_holds hupdated
  have hpad := padding_take hupdated.bufferLength hupdated.bound hrest.symm
  have hfield : store64 b.host (Sha.byteswap64 (b.host == .little)
      (BitVec.ofNat 64 (pieces.flatten.length * 8))) = lengthField pieces.flatten.length := by
    rw [store64_byteswap64, mul_comm]
    rfl
  rw [hfield, hpad, ← absorb_append, hmap] at hfinal
  rw [sha1_eq_absorb]
  exact writeHash_words hfinal.swap hfinal.hash

theorem gutsHash_congr (b' : Build) (h : b.host = b'.host) : gutsHash b = gutsHash b' := by
  funext swap hash block
  obtain ⟨r, rfl⟩ := exists_words hash
  rw [gutsHash_rounds, gutsHash_rounds, rounds_congr b b', h]

def emptyBlock : List Byte := 0x80 :: List.replicate 63 0

theorem sha1Final_empty (b : Build) (sc : SHA1Context) :
    swaps b (sha1Final b (sha1Init b sc)).1 = assumed b ∧
      (sha1Final b (sha1Init b sc)).1.hash = gutsHash b (assumed b) (words initial) emptyBlock := by
  have hfinal := sha1Final_holds (sha1Init_holds b sc)
  have hblock : Sha.padding.take (Sha.bytesToPad (sha1Init b sc)) ++
      store64 b.host (Sha.byteswap64 (assumed b) (BitVec.ofNat 64 (0 * 8))) = emptyBlock := by
    cases b.host <;> cases assumed b <;> rfl
  have habsorb : absorb 64 (gutsHash b (assumed b)) ⟨words initial, []⟩ emptyBlock =
      ⟨gutsHash b (assumed b) (words initial) emptyBlock, []⟩ :=
    absorb_full _ _ (List.cons_ne_nil _ _) rfl
  rw [hblock, habsorb] at hfinal
  exact ⟨hfinal.swap, hfinal.hash⟩

def littleBuild : Build := ⟨.little, false, false, false, 20, by decide⟩

def bigBuild : Build := ⟨.big, true, false, false, 20, by decide⟩

theorem wrong_little :
    (gutsHash littleBuild false (words initial) emptyBlock).toList.flatMap octets ≠
      (gutsHash littleBuild true (words initial) emptyBlock).toList.flatMap octets ∧
    (gutsHash littleBuild false (words initial) emptyBlock).toList.flatMap (store32 .little) ≠
      (gutsHash littleBuild true (words initial) emptyBlock).toList.flatMap octets := by
  decide +kernel

theorem wrong_big :
    (gutsHash bigBuild true (words initial) emptyBlock).toList.flatMap octets ≠
      (gutsHash bigBuild false (words initial) emptyBlock).toList.flatMap octets ∧
    (gutsHash bigBuild true (words initial) emptyBlock).toList.flatMap
        (fun w => store32 .big (swapWord w)) ≠
      (gutsHash bigBuild false (words initial) emptyBlock).toList.flatMap octets := by
  decide +kernel

/-- How the words of a hash are written. -/
def writeWord (b : Build) (swap : Bool) (w : Word) : List Byte :=
  if b.fastCopy then store32 b.host (Sha.byteswap swap w) else octets w

theorem writeWord_plain {b : Build} (h : b.fastCopy = false) (swap : Bool) :
    writeWord b swap = octets := by
  funext w
  rw [writeWord, h]
  rfl

theorem writeWord_fast {b : Build} (h : b.fastCopy = true) (swap : Bool) :
    writeWord b swap = fun w => store32 b.host (Sha.byteswap swap w) := by
  funext w
  rw [writeWord, h]
  rfl

theorem writeWord_length (b : Build) (swap : Bool) (w : Word) : (writeWord b swap w).length = 4 := by
  rw [writeWord]
  split
  · exact store32_length _ _
  · rfl

theorem writeHash_length (b : Build) (sc : SHA1Context) : (Sha.writeHash b sc).length = 20 := by
  obtain ⟨r, hr⟩ := exists_words sc.hash
  have hwrite : Sha.writeHash b sc = (words r).toList.flatMap (writeWord b (swaps b sc)) := by
    rw [← hr]
    rfl
  rw [hwrite]
  simp [words, writeWord_length]

theorem empty_hash (b : Build) (sc : SHA1Context) : (sha1Final b (sha1Init b sc)).2 =
    (gutsHash b (assumed b) (words initial) emptyBlock).toList.flatMap (writeWord b (assumed b)) := by
  obtain ⟨hswap, hhash⟩ := sha1Final_empty b sc
  rw [← hhash, ← hswap]
  rfl

theorem sha1_empty {b : Build} (hb : Configured b) (hfast : b.fastCopy = false) : sha1 [] =
    (gutsHash b (b.host == .little) (words initial) emptyBlock).toList.flatMap octets := by
  have hempty := empty_hash b default
  have hright := sha1Final_pieces hb default []
  rw [List.foldl_nil, hempty, (configured_iff b).mp hb] at hright
  rw [← writeWord_plain hfast (b.host == .little), hright]
  rfl

/-- A build computes SHA-1, of an input in any pieces, exactly when it has the
byte order of its host right. -/
theorem sha1Final_iff (b : Build) :
    (∀ (sc : SHA1Context) (pieces : List (List Byte)),
      (sha1Final b (pieces.foldl (sha1Update b) (sha1Init b sc))).2 = sha1 pieces.flatten) ↔
        Configured b := by
  constructor
  · intro h
    rw [configured_iff]
    by_contra hwrong
    have hempty := h default []
    rw [List.foldl_nil, empty_hash, List.flatten_nil] at hempty
    cases hhost : b.host with
    | little =>
      obtain ⟨hplain, hfast⟩ := wrong_little
      rw [hhost] at hwrong
      have hassumed : assumed b = false := (Bool.not_eq_true _).mp hwrong
      rw [sha1_empty (b := littleBuild) (Or.inr rfl) rfl, hassumed,
        gutsHash_congr littleBuild hhost] at hempty
      cases hcopy : b.fastCopy with
      | false =>
        rw [writeWord_plain hcopy] at hempty
        exact hplain hempty
      | true =>
        rw [writeWord_fast hcopy, hhost] at hempty
        exact hfast hempty
    | big =>
      obtain ⟨hplain, hfast⟩ := wrong_big
      rw [hhost] at hwrong
      have hassumed : assumed b = true := (Bool.not_eq_false _).mp hwrong
      rw [sha1_empty (b := bigBuild) (Or.inr rfl) rfl, hassumed,
        gutsHash_congr bigBuild hhost] at hempty
      cases hcopy : b.fastCopy with
      | false =>
        rw [writeWord_plain hcopy] at hempty
        exact hplain hempty
      | true =>
        rw [writeWord_fast hcopy, hhost] at hempty
        exact hfast hempty
  · intro hb sc pieces
    exact sha1Final_pieces hb sc pieces

/-- What two contexts must have in common to go on alike. -/
def Agree (sc sc' : SHA1Context) : Prop :=
  sc.totalLength = sc'.totalLength ∧ sc.hash = sc'.hash ∧ sc.bufferLength = sc'.bufferLength ∧
    sc.buffer.toList.take sc.bufferLength = sc'.buffer.toList.take sc.bufferLength

theorem Holds.agree {sc' : SHA1Context} {b' : Build} {swap' : Bool} (hs : Holds b swap sc a n)
    (hs' : Holds b' swap' sc' a n) : Agree sc sc' := by
  refine ⟨hs.totalLength.trans hs'.totalLength.symm, hs.hash.trans hs'.hash.symm,
    hs.bufferLength.trans hs'.bufferLength.symm, ?_⟩
  rw [hs.bufferLength, hs.buffer, hs'.buffer]

/-- The copying update and the plain one, given the same bytes in any two
cuttings, leave the same context with a block that is open, whatever byte order
the two builds assume. -/
theorem updates_agree (b b' : Build) (sc sc' : SHA1Context) (pieces pieces' : List (List Byte))
    (hhost : b.host = b'.host) (hassumed : assumed b = assumed b')
    (hbytes : pieces.flatten = pieces'.flatten) :
    Agree (pieces.foldl (sha1Update b) (sha1Init b sc))
        (pieces'.foldl (sha1Update b') (sha1Init b' sc')) ∧
      (pieces.foldl (sha1Update b) (sha1Init b sc)).bufferLength < 64 := by
  have hleft := updates_holds (sha1Init_holds b sc) pieces
  have hright := updates_holds (sha1Init_holds b' sc') pieces'
  rw [gutsHash_congr b' hhost, hassumed, hbytes] at hleft
  refine ⟨hleft.agree hright, ?_⟩
  rw [hleft.bufferLength]
  exact hleft.bound

def copyingBuild : Build := ⟨.little, false, true, true, 5, by decide⟩

/-- 80 bytes, once cut in the block and once behind it. -/
theorem updates_agree_cut :
    Agree ([List.replicate 70 7, List.replicate 10 7].foldl (sha1Update littleBuild)
          (sha1Init littleBuild default))
        ([List.replicate 50 7, List.replicate 30 7].foldl (sha1Update copyingBuild)
          (sha1Init copyingBuild default)) ∧
      ([List.replicate 70 7, List.replicate 10 7].foldl (sha1Update littleBuild)
        (sha1Init littleBuild default)).bufferLength < 64 :=
  updates_agree littleBuild copyingBuild default default _ _ rfl rfl rfl

end Final

end P2PCC.Digests

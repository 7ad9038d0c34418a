import Mathlib.Data.List.TakeWhile
import Mathlib.Data.Nat.Digits.Defs
import Mathlib.Data.PNat.Defs

namespace P2PCC.Lib.Scan

/-! Formatted input and output of the C library, on strings of bytes. -/

abbrev Text := List (BitVec 8)

def isspace (c : BitVec 8) : Bool := c.toNat = 32 || 9 ≤ c.toNat && c.toNat ≤ 13

def isdigit (c : BitVec 8) : Bool := 48 ≤ c.toNat && c.toNat ≤ 57

inductive Directive where
  | space
  | literal (c : BitVec 8)
  | int
  | string (width : Option ℕ+)

inductive Value where
  | int (i : Int)
  | string (s : Text)
deriving DecidableEq

/-- What a directive does: it goes on, with the value that it assigns if it is
a conversion, or it finds something else, or the end of the input. -/
inductive Outcome where
  | pass (value : Option Value) (rest : Text)
  | mismatch (rest : Text)
  | ended

def skip (s : Text) : Text := s.dropWhile isspace

def number (ds : Text) : Nat := ds.foldl (fun v d => 10 * v + (d.toNat - 48)) 0

/-- An `int` takes the low bits of a `long`, at whose bounds a longer number
stops. -/
def toInt (v : Int) : Int :=
  (max (-9223372036854775808) (min v 9223372036854775807)).bmod 4294967296

def sign (s : Text) : Int × Text :=
  match s with
  | c :: rest => if c = 45 then (-1, rest) else if c = 43 then (1, rest) else (1, c :: rest)
  | [] => (1, [])

def readInt (s : Text) : Outcome :=
  if skip s = [] then .ended
  else
    let digits := (sign (skip s)).2.takeWhile isdigit
    let rest := (sign (skip s)).2.dropWhile isdigit
    if digits = [] then .mismatch rest
    else .pass (some (.int (toInt ((sign (skip s)).1 * number digits)))) rest

/-- It is 0 where there is no digit. -/
def atoi (s : Text) : Int :=
  toInt ((sign (skip s)).1 * number ((sign (skip s)).2.takeWhile isdigit))

/-- The bytes that a conversion `%s` takes from where a word starts. -/
def word (width : Option ℕ+) (s : Text) : Text :=
  match width with
  | none => s.takeWhile (fun c => !isspace c)
  | some n => (s.take n).takeWhile (fun c => !isspace c)

def readString (width : Option ℕ+) (s : Text) : Outcome :=
  if skip s = [] then .ended
  else .pass (some (.string (word width (skip s)))) ((skip s).drop (word width (skip s)).length)

def step : Directive → Text → Outcome
  | .space, s => .pass none (skip s)
  | .literal _, [] => .ended
  | .literal c, b :: s => if b = c then .pass none s else .mismatch (b :: s)
  | .int, s => readInt s
  | .string width, s => readString width s

/-- The values that have been assigned, what is left, and whether the input
came to its end. -/
structure Scanned where
  values : List Value
  rest : Text
  ended : Bool

def scanf : List Directive → Text → Scanned
  | [], s => ⟨[], s, false⟩
  | d :: ds, s =>
    match step d s with
    | .ended => ⟨[], [], true⟩
    | .mismatch rest => ⟨[], rest, false⟩
    | .pass value rest =>
      let r := scanf ds rest
      ⟨value.toList ++ r.values, r.rest, r.ended⟩

/-- The value that `scanf` returns. -/
def Scanned.count (r : Scanned) : Int :=
  if r.ended && r.values.isEmpty then -1 else r.values.length

/-- A number as `%d` prints it. -/
def decimalNat (n : Nat) : Text :=
  if n = 0 then [48] else (Nat.digits 10 n).reverse.map (fun d => BitVec.ofNat 8 (48 + d))

def decimal (i : Int) : Text := if i < 0 then 45 :: decimalNat i.natAbs else decimalNat i.natAbs

section Space

theorem skip_suffix (s : Text) : skip s <:+ s := List.dropWhile_suffix _

@[simp] theorem skip_nil : skip [] = [] := rfl

theorem skip_blank {w : Text} (h : ∀ c ∈ w, isspace c) (s : Text) : skip (w ++ s) = skip s := by
  induction w with
  | nil => rfl
  | cons c w ih =>
    rw [List.cons_append, skip, List.dropWhile_cons_of_pos (h c List.mem_cons_self), ← skip]
    exact ih (fun d hd => h d (List.mem_cons_of_mem c hd))

theorem skip_split (s : Text) : ∃ b, s = b ++ skip s ∧ ∀ c ∈ b, isspace c = true :=
  ⟨s.takeWhile isspace, (List.takeWhile_append_dropWhile).symm,
    fun _ hc => List.mem_takeWhile_imp hc⟩

/-- A string that does not start with a blank. -/
def Dense (s : Text) : Prop := ∀ c ∈ s.head?, isspace c = false

theorem skip_dense {s : Text} (h : Dense s) : skip s = s := by
  cases s with
  | nil => rfl
  | cons c s => exact List.dropWhile_cons_of_neg (by rw [h c rfl]; decide)

theorem dense_skip (s : Text) : Dense (skip s) := by
  intro c hc
  have hhead := List.head?_dropWhile_not isspace s
  rw [← skip, hc] at hhead
  exact hhead

@[simp] theorem skip_skip (s : Text) : skip (skip s) = skip s := skip_dense (dense_skip s)

end Space

section Runs

variable {p : BitVec 8 → Bool} {t r : Text}

theorem takeWhile_run (ht : ∀ c ∈ t, p c = true) (hr : ∀ c ∈ r.head?, p c = false) :
    (t ++ r).takeWhile p = t ∧ (t ++ r).dropWhile p = r := by
  rw [List.takeWhile_append_of_pos ht, List.dropWhile_append_of_pos ht]
  cases r with
  | nil => exact ⟨List.append_nil t, rfl⟩
  | cons c r =>
    have hc : ¬p c = true := by
      rw [hr c rfl]
      decide
    rw [List.takeWhile_cons_of_neg hc, List.dropWhile_cons_of_neg hc, List.append_nil]
    exact ⟨rfl, rfl⟩

/-- A word: bytes without a blank, and at least one. -/
structure Word (t : Text) : Prop where
  ne_nil : t ≠ []
  dense : ∀ c ∈ t, isspace c = false

/-- What may stand behind a word without being taken for a part of it. -/
def Breaks (r : Text) : Prop := ∀ c ∈ r.head?, isspace c = true

theorem Word.dense_append (h : Word t) (r : Text) : Dense (t ++ r) := by
  intro c hc
  cases t with
  | nil => exact absurd rfl h.ne_nil
  | cons d t =>
    rw [List.cons_append, List.head?_cons, Option.mem_some_iff] at hc
    rw [← hc]
    exact h.dense d List.mem_cons_self

theorem takeWhile_word (ht : ∀ c ∈ t, isspace c = false) (hr : Breaks r) :
    (t ++ r).takeWhile (fun c => !isspace c) = t := by
  refine (takeWhile_run (fun c hc => ?_) (fun c hc => ?_)).1
  · rw [ht c hc]
    rfl
  · rw [hr c hc]
    rfl

/-- A conversion takes the word `t` in front of `r`: it fits the width, and the
width ends it or a blank does. -/
def Fits (width : Option ℕ+) (t r : Text) : Prop :=
  match width with
  | none => Breaks r
  | some n => t.length ≤ n ∧ (t.length < n → Breaks r)

theorem word_fits {width : Option ℕ+} (ht : ∀ c ∈ t, isspace c = false) (hr : Fits width t r) :
    word width (t ++ r) = t := by
  cases width with
  | none => exact takeWhile_word ht hr
  | some n =>
    obtain ⟨hle, hbreaks⟩ := hr
    obtain hlt | heq := lt_or_eq_of_le hle
    · rw [word, List.take_append, List.take_of_length_le hle]
      apply takeWhile_word ht
      intro c hc
      apply hbreaks hlt c
      cases r with
      | nil => simp at hc
      | cons d r =>
        obtain ⟨m, hm⟩ := Nat.exists_eq_succ_of_ne_zero (show (n : Nat) - t.length ≠ 0 by omega)
        rw [hm, List.take_succ_cons] at hc
        exact hc
    · rw [word, ← heq, List.take_left]
      have hall := takeWhile_word ht (r := []) (fun c hc => by cases hc)
      rwa [List.append_nil] at hall

theorem readString_fits (width : Option ℕ+) (ht : Word t) (hr : Fits width t r) {b : Text}
    (hb : ∀ c ∈ b, isspace c) :
    readString width (b ++ t ++ r) = .pass (some (.string t)) r := by
  have hskip : skip (b ++ t ++ r) = t ++ r := by
    rw [List.append_assoc, skip_blank hb, skip_dense (ht.dense_append r)]
  rw [readString, hskip, if_neg (by simp [ht.ne_nil]), word_fits ht.dense hr, List.drop_left]

theorem readString_word (ht : Word t) (hr : Breaks r) {b : Text} (hb : ∀ c ∈ b, isspace c) :
    readString none (b ++ t ++ r) = .pass (some (.string t)) r :=
  readString_fits none ht hr hb

end Runs

section Numbers

theorem number_append (a b : Text) (d : BitVec 8) (h : b = [d]) :
    number (a ++ b) = 10 * number a + (d.toNat - 48) := by
  rw [number, h, List.foldl_append]
  rfl

/-- The digits of a number, from the lowest one up. -/
def digitBytes (ds : List Nat) : Text := ds.reverse.map (fun d => BitVec.ofNat 8 (48 + d))

theorem number_digitBytes {ds : List Nat} (h : ∀ d ∈ ds, d < 10) :
    number (digitBytes ds) = Nat.ofDigits 10 ds := by
  induction ds with
  | nil => rfl
  | cons d ds ih =>
    have hd := h d List.mem_cons_self
    have hvalue : (BitVec.ofNat 8 (48 + d)).toNat - 48 = d := by
      rw [BitVec.toNat_ofNat]
      omega
    rw [digitBytes, List.reverse_cons, List.map_append, List.map_singleton,
      number_append _ _ _ rfl, ← digitBytes, ih (fun d' hd' => h d' (List.mem_cons_of_mem d hd')),
      hvalue, Nat.ofDigits_cons]
    exact Nat.add_comm _ _

theorem number_decimalNat (n : Nat) : number (decimalNat n) = n := by
  rw [decimalNat]
  split
  · rename_i hzero
    rw [hzero]
    rfl
  · have hdigits := number_digitBytes (fun d hd => Nat.digits_lt_base (b := 10) (m := n)
      (by decide) hd)
    rw [Nat.ofDigits_digits] at hdigits
    exact hdigits

theorem decimalNat_digits (n : Nat) : ∀ c ∈ decimalNat n, isdigit c = true := by
  intro c hc
  rw [decimalNat] at hc
  split at hc
  · rw [List.mem_singleton.mp hc]
    rfl
  · obtain ⟨d, hd, rfl⟩ := List.mem_map.mp hc
    have hlt := Nat.digits_lt_base (by decide) (List.mem_reverse.mp hd)
    rw [isdigit, BitVec.toNat_ofNat]
    simp only [Bool.and_eq_true, decide_eq_true_eq]
    omega

theorem decimalNat_ne_nil (n : Nat) : decimalNat n ≠ [] := by
  rw [decimalNat]
  split
  · exact List.cons_ne_nil _ _
  · rename_i hpos
    intro hnil
    rw [List.map_eq_nil_iff, List.reverse_eq_nil_iff] at hnil
    exact hpos (Nat.digits_eq_nil_iff_eq_zero.mp hnil)

theorem not_isspace_of_isdigit {c : BitVec 8} (h : isdigit c = true) : isspace c = false := by
  rw [isdigit, Bool.and_eq_true, decide_eq_true_eq, decide_eq_true_eq] at h
  rw [isspace, Bool.or_eq_false_iff, decide_eq_false_iff_not, Bool.and_eq_false_iff]
  exact ⟨by omega, Or.inr (by rw [decide_eq_false_iff_not]; omega)⟩

/-- The numbers that an `int` holds. -/
def InRange (i : Int) : Prop := -2147483648 ≤ i ∧ i < 2147483648

theorem toInt_of_inRange {i : Int} (h : InRange i) : toInt i = i := by
  obtain ⟨hl, hu⟩ := h
  rw [toInt, min_eq_left (by omega), max_eq_right (by omega)]
  exact Int.bmod_eq_of_le (by omega) (by omega)

theorem inRange_toInt (v : Int) : InRange (toInt v) := by
  have hl := Int.le_bmod (x := max (-9223372036854775808) (min v 9223372036854775807))
    (m := 4294967296) (by decide)
  have hu := Int.bmod_lt (x := max (-9223372036854775808) (min v 9223372036854775807))
    (m := 4294967296) (by decide)
  exact ⟨by rw [toInt]; omega, by rw [toInt]; omega⟩

theorem sign_decimal (i : Int) (r : Text) :
    sign (decimal i ++ r) = (if i < 0 then -1 else 1, decimalNat i.natAbs ++ r) := by
  rw [decimal]
  split
  · rfl
  · cases h : decimalNat i.natAbs with
    | nil => exact absurd h (decimalNat_ne_nil _)
    | cons c ds =>
      have hdigit := decimalNat_digits i.natAbs c (by rw [h]; exact List.mem_cons_self)
      rw [isdigit, Bool.and_eq_true, decide_eq_true_eq, decide_eq_true_eq] at hdigit
      have hminus : c ≠ 45 := by
        rintro rfl
        exact absurd hdigit.1 (by decide)
      have hplus : c ≠ 43 := by
        rintro rfl
        exact absurd hdigit.1 (by decide)
      rw [List.cons_append, sign, if_neg hminus, if_neg hplus]

theorem decimal_word (i : Int) : Word (decimal i) := by
  have hdense : ∀ c ∈ decimalNat i.natAbs, isspace c = false :=
    fun c hc => not_isspace_of_isdigit (decimalNat_digits _ c hc)
  rw [decimal]
  split
  · refine ⟨List.cons_ne_nil _ _, fun c hc => ?_⟩
    obtain rfl | hc := List.mem_cons.mp hc
    · rfl
    · exact hdense c hc
  · exact ⟨decimalNat_ne_nil _, hdense⟩

theorem readInt_decimal {i : Int} (hi : InRange i) {b r : Text} (hb : ∀ c ∈ b, isspace c)
    (hr : ∀ c ∈ r.head?, isdigit c = false) :
    readInt (b ++ decimal i ++ r) = .pass (some (.int i)) r := by
  have hskip : skip (b ++ decimal i ++ r) = decimal i ++ r := by
    rw [List.append_assoc, skip_blank hb, skip_dense ((decimal_word i).dense_append r)]
  obtain ⟨hdigits, hrest⟩ := takeWhile_run (decimalNat_digits i.natAbs) hr
  have hvalue : (if i < 0 then -1 else 1) * ((i.natAbs : Nat) : Int) = i := by
    split <;> omega
  rw [readInt, hskip, if_neg (by simp [(decimal_word i).ne_nil]), sign_decimal]
  simp only [hdigits, hrest, if_neg (decimalNat_ne_nil i.natAbs), number_decimalNat, hvalue,
    toInt_of_inRange hi]

end Numbers

section Steps

variable {s rest : Text} {v : Option Value}

theorem takeWhile_breaks (s : Text) :
    Breaks (s.drop (s.takeWhile (fun c => !isspace c)).length) := by
  have hsplit := List.takeWhile_append_dropWhile (p := fun c => !isspace c) (l := s)
  have hdrop : (s.takeWhile (fun c => !isspace c) ++ s.dropWhile (fun c => !isspace c)).drop
      (s.takeWhile (fun c => !isspace c)).length = s.dropWhile (fun c => !isspace c) :=
    List.drop_left
  rw [hsplit] at hdrop
  intro c hc
  have hhead := List.head?_dropWhile_not (fun c => !isspace c) s
  rw [hdrop] at hc
  rw [hc] at hhead
  simpa using hhead

theorem word_ends (width : Option ℕ+) (s : Text) :
    Fits width (word width s) (s.drop (word width s).length) := by
  cases width with
  | none => exact takeWhile_breaks s
  | some n =>
    have hle : (word (some n) s).length ≤ n :=
      (List.takeWhile_prefix _).length_le.trans (List.length_take_le _ _)
    refine ⟨hle, fun hlt => ?_⟩
    have hall : word (some n) s = s.takeWhile (fun c => !isspace c) := by
      rw [word, ← List.take_takeWhile] at hlt ⊢
      rw [List.length_take] at hlt
      exact List.take_of_length_le (by omega)
    rw [hall]
    exact takeWhile_breaks s

theorem word_spec (width : Option ℕ+) (hs : s ≠ []) (hd : Dense s) :
    Word (word width s) ∧ s = word width s ++ s.drop (word width s).length ∧
      Fits width (word width s) (s.drop (word width s).length) := by
  have hprefix : word width s <+: s := by
    cases width with
    | none => exact List.takeWhile_prefix _
    | some n => exact (List.takeWhile_prefix _).trans (List.take_prefix n s)
  refine ⟨⟨?_, ?_⟩, (List.prefix_iff_eq_append.mp hprefix).symm, word_ends width s⟩
  · cases s with
    | nil => exact absurd rfl hs
    | cons c s =>
      have hc : isspace c = false := hd c rfl
      cases width with
      | none => simp [word, hc]
      | some n =>
        obtain ⟨k, hk⟩ := Nat.exists_eq_succ_of_ne_zero n.ne_zero
        simp [word, hk, hc]
  · intro c hc
    cases width with
    | none => simpa using List.mem_takeWhile_imp hc
    | some n => simpa using List.mem_takeWhile_imp hc

theorem sign_suffix (s : Text) : (sign s).2 <:+ s := by
  cases s with
  | nil => exact List.suffix_rfl
  | cons c s =>
    rw [sign]
    split
    · exact List.suffix_cons c s
    · split
      · exact List.suffix_cons c s
      · exact List.suffix_rfl

theorem readInt_pass (h : readInt s = .pass v rest) : rest <:+ s ∧ rest.length < s.length ∧
    ∃ i, v = some (.int i) ∧ InRange i := by
  rw [readInt] at h
  split at h
  · cases h
  · dsimp only at h
    split at h
    · cases h
    · rename_i hdigits
      obtain ⟨rfl, rfl⟩ : some _ = v ∧ _ = rest := by simpa using h
      have hrest := List.dropWhile_suffix isdigit (l := (sign (skip s)).2)
      have hlength := congrArg List.length
        (List.takeWhile_append_dropWhile (p := isdigit) (l := (sign (skip s)).2))
      have hpos := List.length_pos_iff.mpr hdigits
      have hsign := (sign_suffix (skip s)).trans (skip_suffix s)
      have hle := hsign.length_le
      rw [List.length_append] at hlength
      exact ⟨hrest.trans hsign, by omega, _, rfl, inRange_toInt _⟩

theorem readString_pass {width : Option ℕ+}
    (h : readString width s = .pass v rest) : rest <:+ s ∧ rest.length < s.length ∧
      ∃ t, v = some (.string t) ∧ Word t ∧ skip s = t ++ rest ∧ Fits width t rest := by
  rw [readString] at h
  split at h
  · cases h
  · rename_i hne
    obtain ⟨hword, happend, hfits⟩ := word_spec width hne (dense_skip s)
    obtain ⟨rfl, rfl⟩ : some _ = v ∧ _ = rest := by simpa using h
    have hpos := List.length_pos_iff.mpr hword.ne_nil
    have hlength := congrArg List.length happend
    have hle := (skip_suffix s).length_le
    rw [List.length_append] at hlength
    exact ⟨(List.drop_suffix _ _).trans (skip_suffix s), by omega, _, rfl, hword, happend, hfits⟩

/-- A directive leaves an end of what it is given, and a value is made of at
least one byte. -/
theorem step_pass {d : Directive} (h : step d s = .pass v rest) :
    rest <:+ s ∧ (v.isSome → rest.length < s.length) := by
  cases d with
  | space =>
    obtain ⟨rfl, rfl⟩ : none = v ∧ skip s = rest := by simpa [step] using h
    exact ⟨skip_suffix s, fun hv => by cases hv⟩
  | literal c =>
    cases s with
    | nil => cases h
    | cons b s =>
      rw [step] at h
      split at h
      · obtain ⟨rfl, rfl⟩ : none = v ∧ s = rest := by simpa using h
        exact ⟨List.suffix_cons b s, fun hv => by cases hv⟩
      · cases h
  | int =>
    obtain ⟨hsuffix, hlt, -⟩ := readInt_pass h
    exact ⟨hsuffix, fun _ => hlt⟩
  | string width =>
    obtain ⟨hsuffix, hlt, -⟩ := readString_pass h
    exact ⟨hsuffix, fun _ => hlt⟩

theorem mismatch_suffix {d : Directive} (h : step d s = .mismatch rest) : rest <:+ s := by
  cases d with
  | space => cases h
  | literal c =>
    cases s with
    | nil => cases h
    | cons b s =>
      rw [step] at h
      split at h
      · cases h
      · cases h
        exact List.suffix_rfl
  | int =>
    rw [step, readInt] at h
    split at h
    · cases h
    · dsimp only at h
      split at h
      · cases h
        exact (List.dropWhile_suffix _).trans ((sign_suffix _).trans (skip_suffix s))
      · cases h
  | string width =>
    rw [step, readString] at h
    split at h
    · cases h
    · cases h

theorem scanf_rest (ds : List Directive) (s : Text) :
    (scanf ds s).rest <:+ s ∧ ((scanf ds s).values ≠ [] → (scanf ds s).rest.length < s.length) := by
  induction ds generalizing s with
  | nil => exact ⟨List.suffix_rfl, fun h => absurd rfl h⟩
  | cons d ds ih =>
    rw [scanf]
    cases hstep : step d s with
    | ended => exact ⟨List.nil_suffix, fun h => absurd rfl h⟩
    | mismatch rest => exact ⟨mismatch_suffix hstep, fun h => absurd rfl h⟩
    | pass v rest =>
      obtain ⟨hsuffix, hlt⟩ := step_pass hstep
      obtain ⟨hrest, hshort⟩ := ih rest
      refine ⟨hrest.trans hsuffix, fun hne => ?_⟩
      have hle := hsuffix.length_le
      cases v with
      | none => exact (hshort hne).trans_le hle
      | some v => exact hrest.length_le.trans_lt (hlt rfl)

theorem scanf_literal {c : BitVec 8} {ds : List Directive}
    (h : (scanf (.literal c :: ds) s).values ≠ []) :
    ∃ rest, s = c :: rest ∧ (scanf (.literal c :: ds) s).values = (scanf ds rest).values := by
  cases s with
  | nil => exact absurd rfl h
  | cons b s =>
    by_cases hb : b = c
    · subst hb
      refine ⟨s, rfl, ?_⟩
      rw [scanf, step, if_pos rfl]
      rfl
    · rw [scanf, step, if_neg hb] at h
      exact absurd rfl h

/-- The values of one call after the other, as long as there are any. -/
def scanAll (ds : List Directive) (s : Text) : List (List Value) :=
  if (scanf ds s).values = [] then []
  else (scanf ds s).values :: scanAll ds (scanf ds s).rest
termination_by s.length
decreasing_by exact (scanf_rest ds s).2 ‹_›

theorem scanAll_end {ds : List Directive} (h : (scanf ds s).values = []) : scanAll ds s = [] := by
  rw [scanAll, if_pos h]

theorem scanAll_next {ds : List Directive} (h : (scanf ds s).values ≠ []) :
    scanAll ds s = (scanf ds s).values :: scanAll ds (scanf ds s).rest := by
  rw [scanAll, if_neg h]

theorem readInt_skip (s : Text) : readInt (skip s) = readInt s := by
  rw [readInt, readInt, skip_skip]

theorem scanf_skip (ds : List Directive) (s : Text) :
    scanf (.int :: ds) (skip s) = scanf (.int :: ds) s := by
  rw [scanf, scanf, step, step, readInt_skip]

theorem scanAll_skip (ds : List Directive) (s : Text) :
    scanAll (.int :: ds) (skip s) = scanAll (.int :: ds) s := by
  conv_lhs => rw [scanAll, scanf_skip]
  conv_rhs => rw [scanAll]

theorem scanf_space (ds : List Directive) (s : Text) :
    (scanf (ds ++ [.space]) s).values = (scanf ds s).values ∧
      ((scanf (ds ++ [.space]) s).rest = (scanf ds s).rest ∨
        (scanf (ds ++ [.space]) s).rest = skip (scanf ds s).rest) := by
  induction ds generalizing s with
  | nil => exact ⟨rfl, Or.inr rfl⟩
  | cons d ds ih =>
    rw [List.cons_append, scanf, scanf]
    cases step d s with
    | ended => exact ⟨rfl, Or.inl rfl⟩
    | mismatch rest => exact ⟨rfl, Or.inl rfl⟩
    | pass v rest =>
      obtain ⟨hvalues, hrest⟩ := ih rest
      dsimp only
      rw [hvalues]
      exact ⟨rfl, hrest⟩

theorem scanAll_space (ds : List Directive) (s : Text) :
    scanAll (.int :: (ds ++ [.space])) s = scanAll (.int :: ds) s := by
  induction hlength : s.length using Nat.strongRecOn generalizing s with
  | _ n ih =>
    obtain ⟨hvalues, hrest⟩ := scanf_space (.int :: ds) s
    rw [List.cons_append] at hvalues hrest
    by_cases hnone : (scanf (.int :: ds) s).values = []
    · rw [scanAll_end hnone, scanAll_end (hvalues.trans hnone)]
    · have hshort := (scanf_rest (.int :: ds) s).2 hnone
      rw [scanAll_next hnone, scanAll_next (by rwa [hvalues]), hvalues,
        ← ih (scanf (.int :: ds) s).rest.length (by omega) _ rfl]
      obtain hrest | hrest := hrest
      · rw [hrest]
      · rw [hrest, scanAll_skip]

end Steps

end P2PCC.Lib.Scan

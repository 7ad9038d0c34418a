import Mathlib.Algebra.Group.Nat.Defs
import Mathlib.Data.List.TakeWhile
import P2PCC.Lib.Lines
import P2PCC.Lib.Runs
import P2PCC.Packet

namespace P2PCC.InputBuffer

open P2PCC.Lib.Lines P2PCC.Lib.Runs P2PCC.Packet

def userbufSize : Nat := 8191

def cString (s : List Byte) : List Byte := s.takeWhile (fun c => c ≠ 0)

/-- The index of the byte that is found, for a byte that is not NUL. -/
def strchr : List Byte → Byte → Option Nat
  | [], _ => none
  | b :: s, c => if b = c then some 0 else if b = 0 then none else (strchr s c).map (· + 1)

/-- `n` bytes from `src` on go to the start of the buffer. -/
def memmove (buf : List Byte) (src n : Nat) : List Byte := (buf.drop src).take n ++ buf.drop n

/-- A buffer of `USERBUF_SIZE + 1` bytes. The last one is out of reach of
`read`, and NUL. -/
structure UserIobuf where
  buf : List Byte
  cur : Nat
  size : buf.length = userbufSize + 1
  last : buf[userbufSize]? = some 0

def createUserbuf : UserIobuf where
  buf := List.replicate (userbufSize + 1) 0
  cur := 0
  size := List.length_replicate
  last := by simp

theorem fill_size {buf : List Byte} (h : buf.length = userbufSize + 1) (cur : Nat)
    (input : List Byte) :
    (buf.take cur ++ input.take (userbufSize - cur) ++
      buf.drop (cur + (input.take (userbufSize - cur)).length)).length = userbufSize + 1 := by
  simp only [List.length_append, List.length_take, List.length_drop]
  omega

theorem fill_last {buf : List Byte} (hsize : buf.length = userbufSize + 1)
    (h : buf[userbufSize]? = some 0) (cur : Nat) (input : List Byte) :
    (buf.take cur ++ input.take (userbufSize - cur) ++
      buf.drop (cur + (input.take (userbufSize - cur)).length))[userbufSize]? = some 0 := by
  by_cases hcur : cur ≤ userbufSize
  · have hfront : (buf.take cur ++ input.take (userbufSize - cur)).length =
        cur + (input.take (userbufSize - cur)).length := by
      rw [List.length_append, List.length_take, hsize]
      omega
    have hle : cur + (input.take (userbufSize - cur)).length ≤ userbufSize := by
      rw [List.length_take]
      omega
    rw [List.getElem?_append_right (by omega), hfront, List.getElem?_drop, Nat.add_sub_of_le hle]
    exact h
  · have hnone : userbufSize - cur = 0 := by omega
    rw [hnone, List.take_zero, List.append_nil, List.length_nil, Nat.add_zero,
      List.take_append_drop]
    exact h

theorem shift_size {buf : List Byte} (h : buf.length = userbufSize + 1) (ret : Nat) :
    (memmove (buf.set ret 0) (ret + 1) (userbufSize - ret)).length = userbufSize + 1 := by
  simp only [memmove, List.length_append, List.length_take, List.length_drop, List.length_set]
  omega

theorem shift_last {buf : List Byte} (hsize : buf.length = userbufSize + 1)
    (h : buf[userbufSize]? = some 0) (ret : Nat) :
    (memmove (buf.set ret 0) (ret + 1) (userbufSize - ret))[userbufSize]? = some 0 := by
  have hmoved : (((buf.set ret 0).drop (ret + 1)).take (userbufSize - ret)).length =
      userbufSize - ret := by
    simp only [List.length_take, List.length_drop, List.length_set]
    omega
  rw [memmove, List.getElem?_append_right (by omega), hmoved, List.getElem?_drop,
    Nat.add_sub_of_le (Nat.sub_le ..), List.getElem?_set]
  split
  · rw [if_pos (by omega)]
  · exact h

/-- `read` puts at most `USERBUF_SIZE - cur` bytes behind what is there. -/
def UserIobuf.fill (u : UserIobuf) (input : List Byte) : UserIobuf where
  buf := u.buf.take u.cur ++ input.take (userbufSize - u.cur) ++
    u.buf.drop (u.cur + (input.take (userbufSize - u.cur)).length)
  cur := (u.cur + (input.take (userbufSize - u.cur)).length) % 2 ^ 32
  size := fill_size u.size u.cur input
  last := fill_last u.size u.last u.cur input

/-- The end of a pass: a NUL for the newline, and what follows it moves to the
front. -/
def UserIobuf.shift (u : UserIobuf) (ret : Nat) : UserIobuf where
  buf := memmove (u.buf.set ret 0) (ret + 1) (userbufSize - ret)
  cur := (u.cur + 2 ^ 32 - (ret + 1)) % 2 ^ 32
  size := shift_size u.size ret
  last := shift_last u.size u.last ret

theorem not_mem_cString (s : List Byte) : 0 ∉ cString s := by
  intro h
  have hc := List.mem_takeWhile_imp h
  simp at hc

theorem cString_append_of_mem {s : List Byte} (h : 0 ∈ s) (t : List Byte) :
    cString (s ++ t) = cString s := by
  rw [cString, List.takeWhile_append, if_neg, cString]
  intro hall
  rw [← (List.takeWhile_prefix _).eq_of_length hall] at h
  exact not_mem_cString s h

theorem cString_append_open {s : List Byte} (h : 0 ∉ s) (t : List Byte) :
    cString (s ++ t) = s ++ cString t := by
  rw [cString, List.takeWhile_append_of_pos, cString]
  intro c hc
  rw [decide_eq_true_eq]
  exact fun he => h (he ▸ hc)

theorem strchr_split {s : List Byte} {ret : Nat} (h : strchr s 10 = some ret) :
    ∃ l rest, s = l ++ 10 :: rest ∧ l.length = ret ∧ 10 ∉ l ∧ 0 ∉ l := by
  induction s generalizing ret with
  | nil => cases h
  | cons b s ih =>
    rw [strchr] at h
    split at h
    · rename_i hb
      cases h
      exact ⟨[], s, by rw [hb]; rfl, rfl, List.not_mem_nil, List.not_mem_nil⟩
    · rename_i hb
      split at h
      · cases h
      · rename_i hz
        obtain ⟨k, hk, rfl⟩ := Option.map_eq_some_iff.mp h
        obtain ⟨l, rest, rfl, rfl, h10, h0⟩ := ih hk
        refine ⟨b :: l, rest, rfl, rfl, ?_, ?_⟩
        · rw [List.mem_cons, not_or]
          exact ⟨fun he => hb he.symm, h10⟩
        · rw [List.mem_cons, not_or]
          exact ⟨fun he => hz he.symm, h0⟩

theorem strchr_first {l : List Byte} (h10 : 10 ∉ l) (h0 : 0 ∉ l) (rest : List Byte) :
    strchr (l ++ 10 :: rest) 10 = some l.length := by
  induction l with
  | nil => rfl
  | cons b l ih =>
    rw [List.mem_cons, not_or] at h10 h0
    rw [List.cons_append, strchr, if_neg fun he => h10.1 he.symm, if_neg fun he => h0.1 he.symm,
      ih h10.2 h0.2]
    rfl

theorem strchr_eq_none {s : List Byte} : strchr s 10 = none ↔ 10 ∉ cString s := by
  induction s with
  | nil => exact iff_of_true rfl List.not_mem_nil
  | cons b s ih =>
    rw [strchr, cString]
    by_cases hb : b = 10
    · rw [if_pos hb, hb]
      exact iff_of_false (by simp) (by simp)
    · rw [if_neg hb]
      by_cases hz : b = 0
      · rw [if_pos hz, List.takeWhile_cons_of_neg (by simpa using hz)]
        exact iff_of_true rfl List.not_mem_nil
      · rw [if_neg hz, Option.map_eq_none_iff, ih, List.takeWhile_cons_of_pos (by simpa using hz),
          List.mem_cons, not_or]
        exact ⟨fun h => ⟨fun he => hb he.symm, h⟩, fun h => h.2⟩

section Shift

variable {u : UserIobuf} {l rest : List Byte}

theorem zero_mem_rest (h : u.buf = l ++ 10 :: rest) : 0 ∈ rest := by
  have hlast := u.last
  have hsize := u.size
  rw [h, List.length_append, List.length_cons] at hsize
  rw [h, List.getElem?_append_right (by omega)] at hlast
  cases hk : userbufSize - l.length with
  | zero =>
    rw [hk, List.getElem?_cons_zero] at hlast
    cases hlast
  | succ k =>
    rw [hk, List.getElem?_cons_succ] at hlast
    exact List.mem_of_getElem? hlast

theorem shift_buf (h : u.buf = l ++ 10 :: rest) :
    (u.shift l.length).buf = rest ++ (l ++ 0 :: rest).drop (userbufSize - l.length) := by
  have hsize := u.size
  rw [h, List.length_append, List.length_cons] at hsize
  have hset : u.buf.set l.length 0 = l ++ 0 :: rest := by
    rw [h, List.set_append_right _ _ (le_refl _), Nat.sub_self, List.set_cons_zero]
  have hdrop : (l ++ 0 :: rest).drop (l.length + 1) = rest := by
    rw [List.drop_append, List.drop_eq_nil_of_le (by omega), Nat.add_sub_cancel_left]
    rfl
  change memmove (u.buf.set l.length 0) (l.length + 1) (userbufSize - l.length) = _
  rw [memmove, hset, hdrop, List.take_of_length_le (by omega)]

theorem shift_cString (h : u.buf = l ++ 10 :: rest) :
    cString (u.shift l.length).buf = cString rest := by
  rw [shift_buf h, cString_append_of_mem (zero_mem_rest h)]

theorem shift_shorter (u : UserIobuf) {ret : Nat} (h : strchr u.buf 10 = some ret) :
    (cString (u.shift ret).buf).length < (cString u.buf).length := by
  obtain ⟨l, rest, hbuf, rfl, _, h0⟩ := strchr_split h
  rw [shift_cString hbuf, hbuf, cString_append_open h0, List.length_append]
  have hten : cString (10 :: rest) = 10 :: cString rest := rfl
  rw [hten, List.length_cons]
  omega

end Shift

/-- The loop: the buffer it leaves, and the lines it hands to `handle_line`. -/
def splitLines (u : UserIobuf) : UserIobuf × List (List Byte) :=
  match _ : strchr u.buf 10 with
  | none => (u, [])
  | some ret =>
    let shifted := splitLines (u.shift ret)
    (shifted.1, cString (u.buf.set ret 0) :: shifted.2)
termination_by (cString u.buf).length
decreasing_by exact shift_shorter u ‹_›

/-- `none` is the exit with a full buffer. -/
def processUserInput (u : UserIobuf) (input : List Byte) :
    Option (UserIobuf × List (List Byte)) :=
  if u.cur ≥ userbufSize - 1 then none else some (splitLines (u.fill input))

theorem splitLines_open {u : UserIobuf} (h : 10 ∉ cString u.buf) : splitLines u = (u, []) := by
  rw [splitLines]
  split
  · rfl
  · rename_i ret hret
    rw [strchr_eq_none.mpr h] at hret
    cases hret

theorem splitLines_first {u : UserIobuf} {l rest : List Byte} (h : u.buf = l ++ 10 :: rest)
    (h10 : 10 ∉ l) (h0 : 0 ∉ l) : splitLines u =
      ((splitLines (u.shift l.length)).1, l :: (splitLines (u.shift l.length)).2) := by
  have hfound : strchr u.buf 10 = some l.length := by rw [h, strchr_first h10 h0]
  have hline : cString (u.buf.set l.length 0) = l := by
    rw [h, List.set_append_right _ _ (le_refl _), Nat.sub_self, List.set_cons_zero,
      cString_append_open h0]
    exact List.append_nil l
  rw [splitLines]
  split
  · rename_i hnone
    rw [hfound] at hnone
    cases hnone
  · rename_i ret hret
    rw [hfound, Option.some.injEq] at hret
    subst hret
    rw [hline]

/-- The loop hands on the finished lines of the string in the buffer, and
leaves the unfinished one. -/
theorem splitLines_spec (u : UserIobuf) :
    (splitLines u).2 = finished 10 (cString u.buf) ∧
      cString (splitLines u).1.buf = unfinished 10 (cString u.buf) ∧
      (u.cur < 2 ^ 32 →
        (cString u.buf).length ≤ u.cur + (unfinished 10 (cString u.buf)).length →
        (splitLines u).1.cur + (cString u.buf).length =
          u.cur + (unfinished 10 (cString u.buf)).length) := by
  induction u using splitLines.induct with
  | case1 u hnone =>
    have hopen := strchr_eq_none.mp hnone
    rw [splitLines_open hopen, finished_open hopen, unfinished_open hopen]
    exact ⟨rfl, rfl, fun _ _ => rfl⟩
  | case2 u ret hret ih =>
    obtain ⟨l, rest, hbuf, rfl, h10, h0⟩ := strchr_split hret
    obtain ⟨hlines, hrest, hcur⟩ := ih
    have hstring : cString u.buf = l ++ 10 :: cString rest := by
      rw [hbuf, cString_append_open h0]
      rfl
    rw [shift_cString hbuf] at hlines hrest hcur
    rw [splitLines_first hbuf h10 h0, hstring, finished_first h10, unfinished_first h10, hlines]
    refine ⟨rfl, hrest, fun hsmall henough => ?_⟩
    rw [List.length_append, List.length_cons] at henough ⊢
    have hsuffix : unfinished 10 (cString rest) <:+ cString rest := unfinished_suffix _
    have hle := hsuffix.length_le
    have hshifted : (u.shift l.length).cur = u.cur - (l.length + 1) := by
      change (u.cur + 2 ^ 32 - (l.length + 1)) % 2 ^ 32 = _
      omega
    rw [hshifted] at hcur
    have hleft := hcur (by omega) (by omega)
    dsimp only
    omega

/-- The buffer over a sequence of calls, with what `read` has returned and
`handle_line` been called with. -/
structure Session where
  userbuf : UserIobuf
  stream : List Byte
  lines : List (List Byte)

def Session.start : Session := ⟨createUserbuf, [], []⟩

def call (s : Session) (input : List Byte) : Session :=
  match processUserInput s.userbuf input with
  | none => s
  | some (userbuf, lines) =>
    { userbuf := userbuf
      stream := s.stream ++ input.take (userbufSize - s.userbuf.cur)
      lines := s.lines ++ lines }

/-- The lines of the stream have been handed on, and the buffer starts with
the unfinished one. -/
structure Exact (s : Session) : Prop where
  lines : s.lines = finished 10 s.stream
  cur : s.userbuf.cur = (unfinished 10 s.stream).length
  rest : s.userbuf.buf.take s.userbuf.cur = unfinished 10 s.stream

/-- The buffer is not full, and there is no NUL in the input. -/
structure Admissible (s : Session) (input : List Byte) : Prop where
  room : s.userbuf.cur < userbufSize - 1
  text : 0 ∉ input

/-- Between the bytes that are read and the next NUL behind them no newline is
left from before. -/
def Clean (s : Session) (input : List Byte) : Prop :=
  10 ∉ cString (s.userbuf.buf.drop
    (s.userbuf.cur + (input.take (userbufSize - s.userbuf.cur)).length))

theorem call_eq {s : Session} {input : List Byte} (hroom : s.userbuf.cur < userbufSize - 1) :
    call s input =
      { userbuf := (splitLines (s.userbuf.fill input)).1
        stream := s.stream ++ input.take (userbufSize - s.userbuf.cur)
        lines := s.lines ++ (splitLines (s.userbuf.fill input)).2 } := by
  rw [call, processUserInput, if_neg (by omega)]

theorem fill_cur {u : UserIobuf} (h : u.cur ≤ userbufSize) (input : List Byte) :
    (u.fill input).cur = u.cur + (input.take (userbufSize - u.cur)).length := by
  have hle : (input.take (userbufSize - u.cur)).length ≤ userbufSize - u.cur := by
    rw [List.length_take]
    exact min_le_left _ _
  have hsmall : userbufSize < 2 ^ 32 := by decide
  exact Nat.mod_eq_of_lt (by omega)

/-- One call splits the input exactly when no old newline is in the way. -/
theorem call_exact_iff {s : Session} {input : List Byte} (htext : 0 ∉ s.stream) (hs : Exact s)
    (ha : Admissible s input) : Exact (call s input) ↔ Clean s input := by
  have hroom := ha.room
  have hfill := fill_cur (u := s.userbuf) (by omega) input
  have hsmall : (s.userbuf.fill input).cur < 2 ^ 32 := Nat.mod_lt _ (by decide)
  have hbuf : (s.userbuf.fill input).buf = unfinished 10 s.stream ++
      input.take (userbufSize - s.userbuf.cur) ++ s.userbuf.buf.drop
        (s.userbuf.cur + (input.take (userbufSize - s.userbuf.cur)).length) := by
    rw [← hs.rest]
    rfl
  have hbytes : 0 ∉ input.take (userbufSize - s.userbuf.cur) :=
    fun h => ha.text (List.mem_of_mem_take h)
  rw [call_eq hroom, Clean]
  generalize input.take (userbufSize - s.userbuf.cur) = bytes at hbytes hfill hbuf ⊢
  have hopen : 0 ∉ unfinished 10 s.stream ++ bytes := by
    rw [List.mem_append, not_or]
    exact ⟨fun h => htext ((unfinished_suffix s.stream).mem h), hbytes⟩
  obtain ⟨hlines, hrest, hcur⟩ := splitLines_spec (s.userbuf.fill input)
  rw [hbuf, cString_append_open hopen] at hlines hrest hcur
  generalize cString (s.userbuf.buf.drop (s.userbuf.cur + bytes.length)) = old at hlines hrest hcur ⊢
  constructor
  · intro h
    have hall := h.lines
    dsimp only at hall
    rw [hs.lines, finished_append, List.append_cancel_left_eq, hlines] at hall
    exact (finished_append_iff _ _).mp hall
  · intro hold
    have hunfinished := unfinished_append_open (unfinished 10 s.stream ++ bytes) hold
    have hlength : (splitLines (s.userbuf.fill input)).1.cur =
        (unfinished 10 (s.stream ++ bytes)).length := by
      have hold := hs.cur
      rw [hunfinished, List.length_append, List.length_append, List.length_append] at hcur
      have hleft := hcur hsmall (by omega)
      rw [unfinished_append]
      omega
    refine ⟨?_, hlength, ?_⟩
    · rw [hs.lines, hlines, finished_append s.stream, (finished_append_iff _ _).mpr hold]
    · dsimp only
      have hstarts : cString (splitLines (s.userbuf.fill input)).1.buf <+:
          (splitLines (s.userbuf.fill input)).1.buf := List.takeWhile_prefix _
      rw [hrest, hunfinished, ← unfinished_append] at hstarts
      rw [hlength]
      exact (List.prefix_iff_eq_take.mp ((List.prefix_append _ old).trans hstarts)).symm

theorem exact_start : Exact Session.start := ⟨rfl, rfl, rfl⟩

/-- Over a sequence of calls none of which finds the buffer full, all lines are
handed on exactly, and the unfinished one is kept, if and only if no call has
an old newline in its way. -/
theorem lines_split_iff (inputs : List (List Byte))
    (hcalls : Along call Admissible Session.start inputs) :
    Throughout call Exact Session.start inputs ↔ Along call Clean Session.start inputs := by
  apply throughout_iff_along_of (I := fun s => 0 ∉ s.stream) _ _ _ _ exact_start hcalls
  · intro s input htext hs ha
    refine ⟨?_, call_exact_iff htext hs ha⟩
    rw [call_eq ha.room, List.mem_append, not_or]
    exact ⟨htext, fun h => ha.text (List.mem_of_mem_take h)⟩
  · exact List.not_mem_nil

theorem exact_two_calls : Throughout call Exact Session.start [[71, 69], [84, 10, 97]] ↔
    Along call Clean Session.start [[71, 69], [84, 10, 97]] :=
  lines_split_iff [[71, 69], [84, 10, 97]]
    ⟨⟨by decide +kernel, by decide⟩, ⟨by decide +kernel, by decide⟩, trivial⟩

def twoLines (n : Nat) : List Byte := [97] ++ 10 :: (List.replicate n 120 ++ [10])

theorem twoLines_length (n : Nat) : (twoLines n).length = n + 3 := by
  simp [twoLines]

theorem not_mem_second {c : Byte} (hc : c ≠ 120) (n : Nat) : c ∉ List.replicate n (120 : Byte) :=
  fun h => hc (List.eq_of_mem_replicate h)

theorem twoLines_fit {n : Nat} (hn : n + 3 = userbufSize) :
    (twoLines n).take (userbufSize - 0) = twoLines n := by
  apply List.take_of_length_le
  rw [twoLines_length]
  omega

theorem twoLines_read {n : Nat} (hn : n + 3 = userbufSize) :
    (createUserbuf.fill (twoLines n)).buf = [97] ++ 10 :: (List.replicate n 120 ++ [10, 0]) := by
  change [] ++ (twoLines n).take (userbufSize - 0) ++ (List.replicate (userbufSize + 1) 0).drop
    (0 + ((twoLines n).take (userbufSize - 0)).length) = _
  rw [twoLines_fit hn, twoLines_length, hn, List.drop_replicate, Nat.zero_add,
    Nat.add_sub_cancel_left, twoLines]
  simp only [List.nil_append, List.append_assoc, List.cons_append]
  rfl

theorem twoLines_shifted {n : Nat} (hn : n + 3 = userbufSize) :
    ((createUserbuf.fill (twoLines n)).shift 1).buf =
      List.replicate n 120 ++ 10 :: [0, 10, 0] := by
  have hbehind : ([97] ++ 0 :: (List.replicate n 120 ++ [10, 0]) : List Byte).drop
      (userbufSize - 1) = [10, 0] := by
    have hplace : userbufSize - 1 = n + 2 := by omega
    rw [hplace]
    change (List.replicate n 120 ++ [10, 0] : List Byte).drop n = _
    rw [List.drop_append, List.length_replicate, Nat.sub_self, List.drop_eq_nil_of_le (by simp)]
    rfl
  have hshift := shift_buf (twoLines_read hn)
  rw [List.length_singleton, hbehind] at hshift
  rw [hshift, List.append_assoc]
  rfl

theorem twoLines_left {n : Nat} (hn : n + 3 = userbufSize) : ∃ old,
    (splitLines (createUserbuf.fill (twoLines n))).1.buf = 0 :: 10 :: 0 :: old := by
  have hsecond := shift_buf (twoLines_shifted hn)
  rw [List.length_replicate] at hsecond
  have hopen : 10 ∉ cString (((createUserbuf.fill (twoLines n)).shift 1).shift n).buf := by
    rw [hsecond]
    exact List.not_mem_nil
  have hone := splitLines_first (twoLines_read hn) (by decide) (by decide)
  have htwo := splitLines_first (twoLines_shifted hn) (not_mem_second (by decide) n)
    (not_mem_second (by decide) n)
  rw [List.length_replicate, splitLines_open hopen] at htwo
  rw [List.length_singleton, htwo] at hone
  rw [hone]
  dsimp only
  rw [hsecond]
  exact ⟨_, rfl⟩

theorem twoLines_parts (n : Nat) (rest : List Byte) :
    finished 10 (twoLines n ++ rest) = [97] :: List.replicate n 120 :: finished 10 rest ∧
      unfinished 10 (twoLines n ++ rest) = unfinished 10 rest := by
  have hten : 10 ∉ List.replicate n (120 : Byte) := not_mem_second (by decide) n
  have hlines : twoLines n ++ rest = [97] ++ 10 :: (List.replicate n 120 ++ 10 :: rest) := by
    simp [twoLines]
  rw [hlines, finished_first (by decide), finished_first hten, unfinished_first (by decide),
    unfinished_first hten]
  exact ⟨rfl, rfl⟩

theorem twoLines_exact {n : Nat} (hn : n + 3 = userbufSize) :
    Admissible Session.start (twoLines n) ∧ Exact (call Session.start (twoLines n)) ∧
      (call Session.start (twoLines n)).userbuf.cur = 0 := by
  have htext : 0 ∉ twoLines n := by
    simp [twoLines]
  have hroom : Session.start.userbuf.cur < userbufSize - 1 := by decide
  have hclean : Clean Session.start (twoLines n) := by
    intro hmem
    have hold := List.mem_of_mem_drop ((List.takeWhile_prefix _).mem hmem)
    cases List.eq_of_mem_replicate hold
  have hexact := (call_exact_iff List.not_mem_nil exact_start ⟨hroom, htext⟩).mpr hclean
  refine ⟨⟨hroom, htext⟩, hexact, ?_⟩
  have hstream : (call Session.start (twoLines n)).stream = twoLines n ++ [] := by
    rw [call_eq hroom]
    change [] ++ (twoLines n).take (userbufSize - 0) = _
    rw [List.nil_append, List.append_nil, twoLines_fit hn]
  rw [hexact.cur, hstream, (twoLines_parts n []).2]
  rfl

theorem twoLines_short {n : Nat} (hn : n + 3 = userbufSize) :
    ∀ line ∈ unfinished 10 [twoLines n, [98]].flatten :: finished 10 [twoLines n, [98]].flatten,
      line.length < 8190 := by
  have hlines : [twoLines n, [98]].flatten = twoLines n ++ [98] := rfl
  have hlong : n < 8190 := by
    rw [userbufSize] at hn
    omega
  rw [hlines, (twoLines_parts n [98]).1, (twoLines_parts n [98]).2, finished_open (by decide),
    unfinished_open (by decide)]
  simp [hlong]

/-- The newline that was left is found again, one byte behind the next input. -/
theorem twoLines_phantom {n : Nat} (hn : n + 3 = userbufSize) :
    Admissible (call Session.start (twoLines n)) [98] ∧
      ¬Exact (call (call Session.start (twoLines n)) [98]) := by
  obtain ⟨hadmissible, hexact, hcur⟩ := twoLines_exact hn
  have hnext : Admissible (call Session.start (twoLines n)) [98] := by
    refine ⟨?_, by decide⟩
    rw [hcur]
    decide
  refine ⟨hnext, fun h => ?_⟩
  have htext : 0 ∉ (call Session.start (twoLines n)).stream := by
    rw [call_eq hadmissible.room]
    exact fun hm => hadmissible.text (List.mem_of_mem_take hm)
  have hclean := (call_exact_iff htext hexact hnext).mp h
  obtain ⟨old, hold⟩ := twoLines_left hn
  apply hclean
  rw [hcur, call_eq hadmissible.room]
  change 10 ∈ cString ((splitLines (createUserbuf.fill (twoLines n))).1.buf.drop 1)
  rw [hold]
  exact List.mem_cons_self

theorem phantom_line : ¬∀ inputs, Along call Admissible Session.start inputs →
    (∀ line ∈ unfinished 10 inputs.flatten :: finished 10 inputs.flatten, line.length < 8190) →
    Throughout call Exact Session.start inputs := by
  intro h
  have hn : 8188 + 3 = userbufSize := rfl
  obtain ⟨hnext, hphantom⟩ := twoLines_phantom hn
  exact hphantom (h [twoLines 8188, [98]] ⟨(twoLines_exact hn).1, hnext, trivial⟩
    (twoLines_short hn)).2.2

end P2PCC.InputBuffer

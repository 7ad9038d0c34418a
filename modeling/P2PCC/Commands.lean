import P2PCC.Lib.Scan
import P2PCC.InputBuffer

namespace P2PCC.Commands

open P2PCC.Lib.Scan P2PCC.Lib.Lines P2PCC.Lib.Runs P2PCC.Packet P2PCC.InputBuffer

def getFormat : List Directive :=
  [.literal 71, .literal 69, .literal 84, .space, .string (some 120), .space, .string (some 120)]

/-- The buffers `chunkf` and `outf`, which are empty where nothing is assigned. -/
def assigned : List Value → Text × Text
  | .string chunkf :: .string outf :: _ => (chunkf, outf)
  | .string chunkf :: _ => (chunkf, [])
  | _ => ([], [])

/-- The arguments of `process_get`, when a line calls it. -/
def handleUserInput (line : Text) : Option (Text × Text) :=
  let r := scanf getFormat line
  if r.count ≠ 0 then
    if (assigned r.values).2.length > 0 then some (assigned r.values) else none
  else none

section Grammar

variable {chunkf outf line : Text}

/-- A line that starts a download: `GET` and two words of at most 120 bytes,
with blanks between them unless the first is cut off at its 120th byte. -/
structure Get (line chunkf outf : Text) : Prop where
  chunkWord : Word chunkf
  outWord : Word outf
  form : ∃ s₁ s₂ r, line = 71 :: 69 :: 84 :: (s₁ ++ chunkf ++ (s₂ ++ outf ++ r)) ∧
    (∀ c ∈ s₁, isspace c = true) ∧ (∀ c ∈ s₂, isspace c = true) ∧
    Fits (some 120) chunkf (s₂ ++ outf ++ r) ∧ Fits (some 120) outf r

theorem handleUserInput_get (h : Get line chunkf outf) :
    handleUserInput line = some (chunkf, outf) := by
  obtain ⟨hc, ho, s₁, s₂, r, rfl, h₁, h₂, hfc, hfo⟩ := h
  have hfirst := readString_fits (some 120) hc hfc (b := []) (by simp)
  have hsecond := readString_fits (some 120) ho hfo (b := []) (by simp)
  have hskip₁ : skip (s₁ ++ chunkf ++ (s₂ ++ outf ++ r)) = chunkf ++ (s₂ ++ outf ++ r) := by
    rw [List.append_assoc, skip_blank h₁, skip_dense (hc.dense_append _)]
  have hskip₂ : skip (s₂ ++ outf ++ r) = outf ++ r := by
    rw [List.append_assoc, skip_blank h₂, skip_dense (ho.dense_append r)]
  rw [List.nil_append] at hfirst hsecond
  have hscan : scanf getFormat (71 :: 69 :: 84 :: (s₁ ++ chunkf ++ (s₂ ++ outf ++ r))) =
      ⟨[.string chunkf, .string outf], r, false⟩ := by
    simp only [getFormat, scanf, step, if_true, hskip₁, hfirst, hskip₂, hsecond]
    rfl
  have hpos := List.length_pos_iff.mpr ho.ne_nil
  rw [handleUserInput, hscan]
  exact if_pos hpos

theorem scanf_words {s : Text} (h : (assigned (scanf
      [.space, .string (some 120), .space, .string (some 120)] s).values).2 ≠ []) :
    ∃ chunkf outf s₁ s₂ r, assigned (scanf
        [.space, .string (some 120), .space, .string (some 120)] s).values = (chunkf, outf) ∧
      Word chunkf ∧ Word outf ∧ s = s₁ ++ chunkf ++ (s₂ ++ outf ++ r) ∧
      (∀ c ∈ s₁, isspace c = true) ∧ (∀ c ∈ s₂, isspace c = true) ∧
      Fits (some 120) chunkf (s₂ ++ outf ++ r) ∧ Fits (some 120) outf r := by
  have hstring : ∀ t, (∃ rest, readString (some 120) t = .mismatch rest) → False := by
    rintro t ⟨rest, hrest⟩
    rw [readString] at hrest
    split at hrest <;> cases hrest
  simp only [scanf, step] at h ⊢
  cases hfirst : readString (some 120) (skip s) with
  | ended =>
    rw [hfirst] at h
    exact absurd rfl h
  | mismatch rest => exact (hstring _ ⟨rest, hfirst⟩).elim
  | pass v rest =>
    obtain ⟨-, -, chunkf, rfl, hc, hs, hfc⟩ := readString_pass hfirst
    rw [hfirst] at h
    dsimp only at h ⊢
    cases hsecond : readString (some 120) (skip rest) with
    | ended =>
      rw [hsecond] at h
      exact absurd rfl h
    | mismatch rest' => exact (hstring _ ⟨rest', hsecond⟩).elim
    | pass v' r =>
      obtain ⟨-, -, outf, rfl, ho, hrest, hfo⟩ := readString_pass hsecond
      rw [skip_skip] at hs hrest
      obtain ⟨s₁, h₁, hb₁⟩ := skip_split s
      obtain ⟨s₂, h₂, hb₂⟩ := skip_split rest
      rw [hrest] at h₂
      rw [hs, h₂, ← List.append_assoc s₂] at h₁
      rw [h₂, ← List.append_assoc s₂] at hfc
      refine ⟨chunkf, outf, s₁, s₂, r, rfl, hc, ho, ?_, hb₁, hb₂, hfc, hfo⟩
      rw [h₁]
      simp only [List.append_assoc]

theorem scanf_getFormat (h : (assigned (scanf getFormat line).values).2 ≠ []) :
    Get line (assigned (scanf getFormat line).values).1
      (assigned (scanf getFormat line).values).2 := by
  have hvalues : ∀ vs, (assigned vs).2 ≠ [] → vs ≠ [] := by
    rintro vs hvs rfl
    exact hvs rfl
  obtain ⟨l₁, rfl, h₁⟩ := scanf_literal (hvalues _ h)
  rw [getFormat, h₁] at h ⊢
  obtain ⟨l₂, rfl, h₂⟩ := scanf_literal (hvalues _ h)
  rw [h₂] at h ⊢
  obtain ⟨l₃, rfl, h₃⟩ := scanf_literal (hvalues _ h)
  rw [h₃] at h ⊢
  obtain ⟨chunkf, outf, s₁, s₂, r, he, hc, ho, rfl, hb₁, hb₂, hfc, hfo⟩ := scanf_words h
  rw [he]
  exact ⟨hc, ho, s₁, s₂, r, rfl, hb₁, hb₂, hfc, hfo⟩

theorem handleUserInput_iff : handleUserInput line = some (chunkf, outf) ↔ Get line chunkf outf := by
  refine ⟨fun h => ?_, handleUserInput_get⟩
  rw [handleUserInput] at h
  split at h
  · split at h
    · rename_i hpos
      have hget := scanf_getFormat (List.length_pos_iff.mp hpos)
      rw [Option.some.injEq] at h
      rwa [h] at hget
    · cases h
  · cases h

end Grammar

section Typed

def commands (lines : List (List Byte)) : List (Text × Text) := lines.filterMap handleUserInput

def typed (command : Text × Text) : Text :=
  71 :: 69 :: 84 :: 32 :: (command.1 ++ 32 :: (command.2 ++ [10]))

/-- Behind what is pending the buffer holds nothing but zeros. -/
def Zeroed (u : UserIobuf) : Prop :=
  u.buf.drop u.cur = List.replicate (userbufSize + 1 - u.cur) 0

/-- With what is pending the input stays in the first half of the buffer. -/
structure Short (s : Session) (input : List Byte) : Prop where
  room : s.userbuf.cur + input.length ≤ 4096
  text : 0 ∉ input

theorem zeroed_drop {u : UserIobuf} (hz : Zeroed u) {n : Nat} (h : u.cur ≤ n) :
    u.buf.drop n = List.replicate (userbufSize + 1 - n) 0 := by
  obtain ⟨m, rfl⟩ := Nat.exists_eq_add_of_le h
  rw [← List.drop_drop, hz, List.drop_replicate]
  congr 1
  omega

theorem newline_lt {u : UserIobuf} {l rest : List Byte} (hz : Zeroed u)
    (hbuf : u.buf = l ++ 10 :: rest) : l.length < u.cur := by
  by_contra hle
  have hdrop := zeroed_drop hz (Nat.not_lt.mp hle)
  rw [hbuf, List.drop_left] at hdrop
  have hten : (10 : Byte) ∈ List.replicate (userbufSize + 1 - l.length) 0 := by
    rw [← hdrop]
    exact List.mem_cons_self
  exact absurd (List.eq_of_mem_replicate hten) (by decide)

theorem shift_zeroed {u : UserIobuf} {l rest : List Byte} (hbuf : u.buf = l ++ 10 :: rest)
    (hcur : u.cur ≤ 4096) (hz : Zeroed u) :
    Zeroed (u.shift l.length) ∧ (u.shift l.length).cur = u.cur - (l.length + 1) := by
  have hl := newline_lt hz hbuf
  have hshifted : (u.shift l.length).cur = u.cur - (l.length + 1) := by
    change (u.cur + 2 ^ 32 - (l.length + 1)) % 2 ^ 32 = _
    omega
  have hdrop : ∀ n, l.length + 1 ≤ n → (l ++ 0 :: rest).drop n = u.buf.drop n := by
    intro n hn
    obtain ⟨m, rfl⟩ := Nat.exists_eq_add_of_le hn
    rw [hbuf, List.drop_append, List.drop_append, List.drop_eq_nil_of_le (by omega)]
    have hplace : l.length + 1 + m - l.length = m + 1 := by omega
    rw [hplace, List.drop_succ_cons, List.drop_succ_cons]
  have hsize := u.size
  have hrest : rest.length = userbufSize - l.length := by
    rw [hbuf, List.length_append, List.length_cons] at hsize
    omega
  have hfront : rest.drop (u.cur - (l.length + 1)) = u.buf.drop u.cur := by
    have hskip : (l ++ 10 :: rest).drop (l.length + 1) = rest := by
      rw [List.drop_append, List.drop_eq_nil_of_le (by omega), Nat.add_sub_cancel_left]
      rfl
    have hplace : l.length + 1 + (u.cur - (l.length + 1)) = u.cur := by omega
    rw [← hskip, ← hbuf, List.drop_drop, hplace]
  refine ⟨?_, hshifted⟩
  have huser : userbufSize = 8191 := rfl
  rw [Zeroed, hshifted, shift_buf hbuf, List.drop_append_of_le_length (by omega), hfront,
    hdrop _ (by omega), hz, zeroed_drop hz (by omega), List.replicate_append_replicate]
  congr 1
  omega

theorem splitLines_zeroed (u : UserIobuf) (hcur : u.cur ≤ 4096) (hz : Zeroed u) :
    Zeroed (splitLines u).1 := by
  induction u using splitLines.induct with
  | case1 u hnone =>
    rw [splitLines_open (strchr_eq_none.mp hnone)]
    exact hz
  | case2 u ret hret ih =>
    obtain ⟨l, rest, hbuf, rfl, h10, h0⟩ := strchr_split hret
    obtain ⟨hshifted, hless⟩ := shift_zeroed hbuf hcur hz
    rw [splitLines_first hbuf h10 h0]
    exact ih (by omega) hshifted

theorem fill_zeroed {u : UserIobuf} {input : List Byte} (h : u.cur + input.length ≤ 4096)
    (hz : Zeroed u) : Zeroed (u.fill input) ∧ (u.fill input).cur = u.cur + input.length := by
  have huser : userbufSize = 8191 := rfl
  have hall : input.take (userbufSize - u.cur) = input := List.take_of_length_le (by omega)
  have hcur := fill_cur (u := u) (by omega) input
  rw [hall] at hcur
  refine ⟨?_, hcur⟩
  have hbuf : (u.fill input).buf = u.buf.take u.cur ++ input ++ u.buf.drop (u.cur + input.length) := by
    change u.buf.take u.cur ++ input.take (userbufSize - u.cur) ++
      u.buf.drop (u.cur + (input.take (userbufSize - u.cur)).length) = _
    rw [hall]
  have hfront : (u.buf.take u.cur ++ input).length = u.cur + input.length := by
    rw [List.length_append, List.length_take, u.size]
    omega
  rw [Zeroed, hcur, hbuf, ← hfront, List.drop_left, hfront]
  exact zeroed_drop hz (by omega)

/-- A state in which all has been handed on as it was typed. -/
structure Good (s : Session) : Prop where
  exact : Exact s
  zeroed : Zeroed s.userbuf
  text : 0 ∉ s.stream

theorem good_start : Good Session.start := by
  refine ⟨exact_start, ?_, List.not_mem_nil⟩
  rw [Zeroed]
  rfl

theorem good_call {s : Session} {input : List Byte} (hs : Good s) (hi : Short s input) :
    Good (call s input) ∧ (call s input).stream = s.stream ++ input := by
  have huser : userbufSize = 8191 := rfl
  have hroom := hi.room
  have hsmall : s.userbuf.cur < userbufSize - 1 := by omega
  have hall : input.take (userbufSize - s.userbuf.cur) = input :=
    List.take_of_length_le (by omega)
  obtain ⟨hfilled, hcur⟩ := fill_zeroed hroom hs.zeroed
  have hclean : Clean s input := by
    rw [Clean, hall, zeroed_drop hs.zeroed (by omega)]
    intro hmem
    have hzero := List.eq_of_mem_replicate ((List.takeWhile_prefix _).mem hmem)
    exact absurd hzero (by decide)
  have hexact := (call_exact_iff hs.text hs.exact ⟨hsmall, hi.text⟩).mpr hclean
  have hstream : (call s input).stream = s.stream ++ input := by
    rw [call_eq hsmall, hall]
  refine ⟨⟨hexact, ?_, ?_⟩, hstream⟩
  · rw [call_eq hsmall]
    exact splitLines_zeroed _ (by omega) hfilled
  · rw [hstream, List.mem_append, not_or]
    exact ⟨hs.text, hi.text⟩

theorem good_run (inputs : List (List Byte)) {s : Session} (hs : Good s)
    (hi : Along call Short s inputs) :
    Good (run call s inputs) ∧ (run call s inputs).stream = s.stream ++ inputs.flatten := by
  induction inputs generalizing s with
  | nil => exact ⟨hs, (List.append_nil _).symm⟩
  | cons input inputs ih =>
    obtain ⟨hinput, hrest⟩ := hi
    obtain ⟨hnext, hstream⟩ := good_call hs hinput
    obtain ⟨hend, hall⟩ := ih hnext hrest
    rw [run_cons]
    refine ⟨hend, ?_⟩
    rw [hall, hstream, List.append_assoc, List.flatten_cons]

/-- Two words that the format takes whole, and that stay on a line. -/
structure Typable (command : Text × Text) : Prop where
  chunkf : Word command.1
  outf : Word command.2
  chunkfShort : command.1.length ≤ 120
  outfShort : command.2.length ≤ 120

theorem handleUserInput_typed {command : Text × Text} (h : Typable command) :
    handleUserInput (71 :: 69 :: 84 :: 32 :: (command.1 ++ 32 :: command.2)) = some command := by
  apply handleUserInput_get
  refine ⟨h.chunkf, h.outf, [32], [32], [], by simp, by decide, by decide, ?_, ?_⟩
  · exact ⟨h.chunkfShort, fun _ c hc => by cases hc; rfl⟩
  · exact ⟨h.outfShort, fun _ c hc => by cases hc⟩

theorem newline_not_mem {t : Text} (h : Word t) : 10 ∉ t := by
  intro hmem
  have hdense := h.dense 10 hmem
  cases hdense

theorem typed_lines {cs : List (Text × Text)} {tail : Text} (hcs : ∀ command ∈ cs, Typable command)
    (htail : 10 ∉ tail) : commands (finished 10 (cs.flatMap typed ++ tail)) = cs ∧
      unfinished 10 (cs.flatMap typed ++ tail) = tail := by
  induction cs with
  | nil =>
    rw [List.flatMap_nil, List.nil_append, finished_open htail, unfinished_open htail]
    exact ⟨rfl, rfl⟩
  | cons command cs ih =>
    obtain ⟨hlines, hrest⟩ := ih (fun c hc => hcs c (List.mem_cons_of_mem command hc))
    have hcommand := hcs command List.mem_cons_self
    have hopen : 10 ∉ (71 :: 69 :: 84 :: 32 :: (command.1 ++ 32 :: command.2) : Text) := by
      simp only [List.mem_cons, List.mem_append, not_or]
      exact ⟨by decide, by decide, by decide, by decide, newline_not_mem hcommand.chunkf, by decide,
        newline_not_mem hcommand.outf⟩
    have htyped : (command :: cs).flatMap typed ++ tail =
        71 :: 69 :: 84 :: 32 :: (command.1 ++ 32 :: command.2) ++
          10 :: (cs.flatMap typed ++ tail) := by
      simp [typed]
    rw [htyped, finished_first hopen, unfinished_first hopen]
    refine ⟨?_, hrest⟩
    rw [commands, List.filterMap_cons_some (handleUserInput_typed hcommand)]
    exact congrArg _ hlines

/-- Commands that are typed, cut into any short inputs, are carried out in
order, and what is typed of the next one waits. -/
theorem commands_typed (cs : List (Text × Text)) (tail : Text) (inputs : List (List Byte))
    (hcs : ∀ command ∈ cs, Typable command) (htail : 10 ∉ tail)
    (htyped : inputs.flatten = cs.flatMap typed ++ tail)
    (hinputs : Along call Short Session.start inputs) :
    commands (run call Session.start inputs).lines = cs ∧
      (run call Session.start inputs).userbuf.buf.take
        (run call Session.start inputs).userbuf.cur = tail := by
  obtain ⟨hgood, hstream⟩ := good_run inputs good_start hinputs
  have hall : (run call Session.start inputs).stream = inputs.flatten := by
    rw [hstream]
    rfl
  obtain ⟨hlines, hrest⟩ := typed_lines hcs htail
  rw [hgood.exact.lines, hgood.exact.rest, hall, htyped]
  exact ⟨hlines, hrest⟩

/-- A command in two parts. -/
theorem commands_typed_parts :
    commands (run call Session.start [[71, 69], [84, 32, 97, 32, 98, 10, 71]]).lines =
        [([97], [98])] ∧
      (run call Session.start [[71, 69], [84, 32, 97, 32, 98, 10, 71]]).userbuf.buf.take
        (run call Session.start [[71, 69], [84, 32, 97, 32, 98, 10, 71]]).userbuf.cur = [71] :=
  commands_typed [([97], [98])] [71] _
    (by
      intro command hc
      rw [List.mem_singleton.mp hc]
      exact ⟨⟨by decide, by decide⟩, ⟨by decide, by decide⟩, by decide, by decide⟩)
    (by decide) (by decide)
    ⟨⟨by decide, by decide⟩, ⟨by decide +kernel, by decide⟩, trivial⟩

end Typed

end P2PCC.Commands

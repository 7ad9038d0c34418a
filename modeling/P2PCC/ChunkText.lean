import P2PCC.Lib.Scan
import P2PCC.ChunkFile

namespace P2PCC.ChunkText

open P2PCC.Lib.Scan P2PCC.Packet P2PCC.ChunkFile

def numbered : List Directive := [.int, .space, .string none]

/-- The lines that a loop over a file finds. A call that assigns the index
alone finds in the buffer what the last pass left there, or what `memset` did. -/
def fileLines (keep : Bool) : Text → List (List Value) → List ChunkLine
  | temp, [.int index] :: calls => ⟨index, temp⟩ :: fileLines keep (if keep then temp else []) calls
  | _, [.int index, .string token] :: calls =>
    ⟨index, token⟩ :: fileLines keep (if keep then token else []) calls
  | _, _ => []

/-- The header of a master chunk file, which the two first calls pass. -/
def skipHeader (s : Text) : Text :=
  (scanf [.string none, .space] (scanf [.string none, .space, .string none, .space] s).rest).rest

/-- The lines of a master chunk file, for the loops that do not clear the buffer. -/
def masterLines (s : Text) : List ChunkLine := fileLines true [] (scanAll numbered (skipHeader s))

/-- The lines of a chunk file, whose buffer is cleared after each line. -/
def chunkfileLines (s : Text) : List ChunkLine :=
  fileLines false [] (scanAll (numbered ++ [.space]) s)

/-- A line as `make_chunks` prints it. -/
def printLine (l : ChunkLine) : Text := decimal l.index ++ 32 :: (l.token ++ [10])

def printLines (ls : List ChunkLine) : Text := ls.flatMap printLine

section Calls

variable {s : Text}

theorem scanf_line {i : Int} {t b r : Text} (hi : InRange i) (ht : Word t) (hr : Breaks r)
    (hb : ∀ c ∈ b, isspace c) :
    scanf numbered (b ++ decimal i ++ 32 :: (t ++ r)) = ⟨[.int i, .string t], r, false⟩ := by
  have hint := readInt_decimal hi hb (r := 32 :: (t ++ r)) (fun c hc => by cases hc; rfl)
  have hspace : skip (32 :: (t ++ r)) = t ++ r := by
    have hblank := skip_blank (w := [32]) (by decide) (t ++ r)
    rwa [skip_dense (ht.dense_append r)] at hblank
  have hstring := readString_word ht hr (b := []) (by simp)
  rw [List.nil_append] at hstring
  simp only [numbered, scanf, step, hint, hspace, hstring]
  rfl

theorem scanf_lone {i : Int} {r : Text} (hi : InRange i) (hr : ∀ c ∈ r, isspace c) :
    scanf numbered (decimal i ++ r) = ⟨[.int i], [], true⟩ := by
  have hint := readInt_decimal hi (b := []) (r := r) (by simp) (fun c hc => by
    have hblank := hr c (List.mem_of_mem_head? hc)
    by_contra hdigit
    rw [not_isspace_of_isdigit ((Bool.not_eq_false _).mp hdigit)] at hblank
    cases hblank)
  have hskip : skip r = [] := by
    have hblank := skip_blank hr []
    rwa [List.append_nil] at hblank
  rw [List.nil_append] at hint
  simp only [numbered, scanf, step, hint, hskip, readString, skip_nil, if_true]
  rfl

theorem scanf_numbered (s : Text) : (scanf numbered s).values = [] ∨
    (∃ i, InRange i ∧ (scanf numbered s).values = [.int i] ∧ (scanf numbered s).rest = []) ∨
    ∃ i t, InRange i ∧ Word t ∧ (scanf numbered s).values = [.int i, .string t] := by
  simp only [numbered, scanf, step]
  cases hint : readInt s with
  | ended => exact Or.inl rfl
  | mismatch rest => exact Or.inl rfl
  | pass v rest =>
    obtain ⟨-, -, i, rfl, hi⟩ := readInt_pass hint
    right
    dsimp only
    cases hstring : readString none (skip rest) with
    | ended => exact Or.inl ⟨i, hi, rfl, rfl⟩
    | mismatch rest' =>
      rw [readString] at hstring
      split at hstring <;> cases hstring
    | pass v' rest' =>
      obtain ⟨-, -, t, rfl, ht, -⟩ := readString_pass hstring
      exact Or.inr ⟨i, t, hi, ht, rfl⟩

end Calls

/-- Lists of lines that can be read from a file: only the last line may be
without a word of its own. -/
def Readable (keep : Bool) : Text → List ChunkLine → Prop
  | _, [] => True
  | temp, l :: ls => InRange l.index ∧
    (Word l.token ∧ Readable keep (if keep then l.token else []) ls ∨
      l.token = temp ∧ temp = [] ∧ ls = [])

theorem scanAll_nil : scanAll numbered [] = [] := scanAll_end rfl

theorem readable_fileLines (keep : Bool) {temp : Text} (htemp : temp = [] ∨ Word temp) (s : Text) :
    Readable keep temp (fileLines keep temp (scanAll numbered s)) := by
  induction hlength : s.length using Nat.strongRecOn generalizing s temp with
  | _ n ih =>
    obtain hnone | ⟨i, hi, hvalues, hrest⟩ | ⟨i, t, hi, ht, hvalues⟩ := scanf_numbered s
    · rw [scanAll_end hnone]
      trivial
    · rw [scanAll_next (by rw [hvalues]; exact List.cons_ne_nil _ _), hvalues, hrest, scanAll_nil,
        fileLines, fileLines]
      · refine ⟨hi, ?_⟩
        obtain hempty | hword := htemp
        · exact Or.inr ⟨rfl, hempty, rfl⟩
        · exact Or.inl ⟨hword, trivial⟩
      · simp
      · simp
    · have hne : (scanf numbered s).values ≠ [] := by
        rw [hvalues]
        exact List.cons_ne_nil _ _
      have hshort := (scanf_rest numbered s).2 hne
      rw [scanAll_next hne, hvalues, fileLines]
      refine ⟨hi, Or.inl ⟨ht, ih _ (by omega) ?_ _ rfl⟩⟩
      split
      · exact Or.inr ht
      · exact Or.inl rfl

theorem scanAll_newline (s : Text) : scanAll numbered (10 :: s) = scanAll numbered s := by
  have hskip : skip (10 :: s) = skip s := skip_blank (w := [10]) (by decide) s
  rw [numbered, ← scanAll_skip, hskip, scanAll_skip]

theorem fileLines_printLines (keep : Bool) {temp : Text} {ls : List ChunkLine}
    (h : Readable keep temp ls) : fileLines keep temp (scanAll numbered (printLines ls)) = ls := by
  induction ls generalizing temp with
  | nil =>
    rw [printLines, List.flatMap_nil, scanAll_nil, fileLines]
    · simp
    · simp
  | cons l ls ih =>
    obtain ⟨hi, ⟨hword, hrest⟩ | ⟨htoken, rfl, rfl⟩⟩ := h
    · have hprint : printLines (l :: ls) =
          [] ++ decimal l.index ++ 32 :: (l.token ++ 10 :: printLines ls) := by
        simp [printLines, printLine]
      have hcall := scanf_line hi hword (r := 10 :: printLines ls) (fun c hc => by cases hc; rfl)
        (b := []) (by simp)
      rw [← hprint] at hcall
      rw [scanAll_next (by rw [hcall]; exact List.cons_ne_nil _ _), hcall, scanAll_newline,
        fileLines, ih hrest]
    · have hprint : printLines [l] = decimal l.index ++ [32, 10] := by
        simp [printLines, printLine, htoken]
      have hcall := scanf_lone hi (r := [32, 10]) (by decide)
      rw [← hprint] at hcall
      rw [scanAll_next (by rw [hcall]; exact List.cons_ne_nil _ _), hcall, scanAll_nil, fileLines,
        fileLines, ← htoken]
      · simp
      · simp

theorem readable_words (keep : Bool) {temp : Text} {ls : List ChunkLine}
    (h : ∀ l ∈ ls, InRange l.index ∧ Word l.token) : Readable keep temp ls := by
  induction ls generalizing temp with
  | nil => trivial
  | cons l ls ih =>
    obtain ⟨hi, hword⟩ := h l List.mem_cons_self
    exact ⟨hi, Or.inl ⟨hword, ih (fun l' hl' => h l' (List.mem_cons_of_mem l hl'))⟩⟩

theorem chunkfileLines_eq (s : Text) :
    chunkfileLines s = fileLines false [] (scanAll numbered s) := by
  rw [chunkfileLines]
  exact congrArg _ (scanAll_space [.space, .string none] s)

section Master

variable {first path third : Text}

/-- The header of a master chunk file: a name and a path on one line, and a
word on the next. -/
def header (first path third : Text) : Text := first ++ 32 :: (path ++ 10 :: (third ++ [10]))

theorem scanf_word {t r : Text} {c : Byte} (ds : List Directive) (ht : Word t)
    (hc : isspace c = true) : (scanf (.string none :: .space :: ds) (t ++ c :: r)).rest =
      (scanf ds (skip r)).rest := by
  have hstring := readString_word ht (r := c :: r) (fun d hd => by cases hd; exact hc) (b := [])
    (by simp)
  have hskip : skip (c :: r) = skip r := skip_blank (w := [c]) (by simpa using hc) r
  rw [List.nil_append] at hstring
  simp only [scanf, step, hstring, hskip]

theorem skipHeader_header (hf : Word first) (hp : Word path) (ht : Word third) (s : Text) :
    skipHeader (header first path third ++ s) = skip s := by
  have hheader : header first path third ++ s =
      first ++ 32 :: (path ++ 10 :: (third ++ 10 :: s)) := by
    simp [header]
  rw [skipHeader, hheader, scanf_word _ hf rfl, skip_dense (hp.dense_append _), scanf_word _ hp rfl,
    skip_dense (ht.dense_append _)]
  exact scanf_word [] ht rfl

theorem masterLines_header (hf : Word first) (hp : Word path) (ht : Word third)
    {ls : List ChunkLine} (h : ∀ l ∈ ls, InRange l.index ∧ Word l.token) :
    masterLines (header first path third ++ printLines ls) = ls := by
  rw [masterLines, skipHeader_header hf hp ht, numbered, scanAll_skip]
  exact fileLines_printLines true (readable_words true h)

/-- Whatever a chunk file or a master chunk file holds, only the last line that
is read from it may be without a word of its own, and a file that is printed
from the lines is read as the same lines. -/
theorem printed_lines (s : Text) (hf : Word first) (hp : Word path) (ht : Word third) :
    (Readable false [] (chunkfileLines s) ∧
      chunkfileLines (printLines (chunkfileLines s)) = chunkfileLines s) ∧
    (Readable true [] (masterLines s) ∧
      masterLines (header first path third ++ printLines (masterLines s)) = masterLines s) := by
  have hchunk := readable_fileLines false (Or.inl rfl) s
  have hmaster := readable_fileLines true (Or.inl rfl) (skipHeader s)
  refine ⟨⟨?_, ?_⟩, hmaster, ?_⟩
  · rwa [chunkfileLines_eq]
  · rw [chunkfileLines_eq, chunkfileLines_eq]
    exact fileLines_printLines false hchunk
  · rw [masterLines, skipHeader_header hf hp ht, numbered, scanAll_skip]
    exact fileLines_printLines true hmaster

/-- A file in which the last line has lost its hash. -/
theorem printed_lines_lost :
    (Readable false [] (chunkfileLines [49, 32, 97, 98, 10, 50]) ∧
      chunkfileLines (printLines (chunkfileLines [49, 32, 97, 98, 10, 50])) =
        chunkfileLines [49, 32, 97, 98, 10, 50]) ∧
    (Readable true [] (masterLines [49, 32, 97, 98, 10, 50]) ∧
      masterLines (header [70] [47] [67] ++ printLines (masterLines [49, 32, 97, 98, 10, 50])) =
        masterLines [49, 32, 97, 98, 10, 50]) :=
  printed_lines _ ⟨by decide, by decide⟩ ⟨by decide, by decide⟩ ⟨by decide, by decide⟩

end Master

end P2PCC.ChunkText

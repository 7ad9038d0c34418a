import Mathlib.Data.List.Basic

namespace P2PCC.Lib.Lines

variable {α : Type} [DecidableEq α]

/-- The parts of a list that a separator ends. -/
def finished (sep : α) (l : List α) : List (List α) := (l.splitOn sep).dropLast

/-- What follows the last separator. -/
def unfinished (sep : α) (l : List α) : List α := (l.splitOn sep).getLastD []

variable {sep : α}

theorem splitOn_ne_nil (l : List α) : l.splitOn sep ≠ [] := List.splitOnP_ne_nil _ l

theorem splitOn_open {l : List α} (h : sep ∉ l) : l.splitOn sep = [l] := by
  apply List.splitOnP_eq_singleton
  intro a ha
  rw [beq_eq_false_iff_ne]
  exact fun he => h (he ▸ ha)

theorem splitOn_first {l : List α} (h : sep ∉ l) (rest : List α) :
    (l ++ sep :: rest).splitOn sep = l :: rest.splitOn sep := by
  apply List.splitOnP_append_cons_of_forall_mem
  · intro a ha
    rw [beq_eq_false_iff_ne]
    exact fun he => h (he ▸ ha)
  · exact beq_self_eq_true sep

theorem finished_open {l : List α} (h : sep ∉ l) : finished sep l = [] := by
  rw [finished, splitOn_open h]
  rfl

theorem unfinished_open {l : List α} (h : sep ∉ l) : unfinished sep l = l := by
  rw [unfinished, splitOn_open h]
  rfl

theorem finished_first {l : List α} (h : sep ∉ l) (rest : List α) :
    finished sep (l ++ sep :: rest) = l :: finished sep rest := by
  rw [finished, splitOn_first h, List.dropLast_cons_of_ne_nil (splitOn_ne_nil rest)]
  rfl

theorem unfinished_first {l : List α} (h : sep ∉ l) (rest : List α) :
    unfinished sep (l ++ sep :: rest) = unfinished sep rest := by
  rw [unfinished, unfinished, splitOn_first h]
  cases hs : rest.splitOn sep with
  | nil => exact absurd hs (splitOn_ne_nil rest)
  | cons a as => rfl

theorem parts_induction {P : List α → Prop} (sep : α) (hopen : ∀ l, sep ∉ l → P l)
    (hfirst : ∀ l rest, sep ∉ l → P rest → P (l ++ sep :: rest)) (l : List α) : P l := by
  induction hn : l.length using Nat.strongRecOn generalizing l with
  | _ n ih =>
    by_cases h : sep ∈ l
    · obtain ⟨first, rest, rfl, hf⟩ := List.eq_append_cons_of_mem h
      apply hfirst first rest hf
      rw [List.length_append, List.length_cons] at hn
      exact ih rest.length (by omega) rest rfl
    · exact hopen l h

theorem not_mem_unfinished (l : List α) : sep ∉ unfinished sep l := by
  induction l using parts_induction sep with
  | hopen l h => rwa [unfinished_open h]
  | hfirst l rest h ih => rwa [unfinished_first h]

theorem finished_append (l m : List α) :
    finished sep (l ++ m) = finished sep l ++ finished sep (unfinished sep l ++ m) := by
  induction l using parts_induction sep with
  | hopen l h => rw [finished_open h, unfinished_open h, List.nil_append]
  | hfirst l rest h ih =>
    rw [List.append_assoc, List.cons_append, finished_first h, finished_first h,
      unfinished_first h, ih, List.cons_append]

theorem unfinished_append (l m : List α) :
    unfinished sep (l ++ m) = unfinished sep (unfinished sep l ++ m) := by
  induction l using parts_induction sep with
  | hopen l h => rw [unfinished_open h]
  | hfirst l rest h ih =>
    rw [List.append_assoc, List.cons_append, unfinished_first h, unfinished_first h, ih]

theorem length_finished (l : List α) : (finished sep l).length = l.count sep := by
  induction l using parts_induction sep with
  | hopen l h => rw [finished_open h, List.count_eq_zero_of_not_mem h, List.length_nil]
  | hfirst l rest h ih =>
    rw [finished_first h, List.length_cons, ih, List.count_append, List.count_cons_self,
      List.count_eq_zero_of_not_mem h, Nat.zero_add]

theorem unfinished_suffix (l : List α) : unfinished sep l <:+ l := by
  induction l using parts_induction sep with
  | hopen l h => exact ⟨[], unfinished_open h⟩
  | hfirst l rest h ih =>
    rw [unfinished_first h]
    exact (ih.trans (List.suffix_cons sep rest)).trans (List.suffix_append l _)

theorem finished_append_iff (l m : List α) :
    finished sep (l ++ m) = finished sep l ↔ sep ∉ m := by
  constructor
  · intro h
    have hcount := congrArg List.length h
    rw [length_finished, length_finished, List.count_append] at hcount
    exact List.count_eq_zero.mp (by omega)
  · intro h
    have hopen : sep ∉ unfinished sep l ++ m := by
      rw [List.mem_append, not_or]
      exact ⟨not_mem_unfinished l, h⟩
    rw [finished_append, finished_open hopen, List.append_nil]

theorem unfinished_append_open (l : List α) {m : List α} (h : sep ∉ m) :
    unfinished sep (l ++ m) = unfinished sep l ++ m := by
  rw [unfinished_append, unfinished_open]
  rw [List.mem_append, not_or]
  exact ⟨not_mem_unfinished l, h⟩

end P2PCC.Lib.Lines

import Mathlib.Data.List.DropRight

namespace P2PCC.Lib.Streak

variable {α : Type} [DecidableEq α]

/-- How many times in a row an element stands at the end of a list. -/
def streak (a : α) (l : List α) : Nat := (l.rtakeWhile (fun b => b = a)).length

@[simp] theorem streak_nil (a : α) : streak a [] = 0 := rfl

theorem streak_concat_self (a : α) (l : List α) : streak a (l ++ [a]) = streak a l + 1 := by
  rw [streak, List.rtakeWhile_concat_pos _ _ _ (by simp), List.length_append]
  rfl

theorem streak_concat_other {a b : α} (h : b ≠ a) (l : List α) : streak a (l ++ [b]) = 0 := by
  rw [streak, List.rtakeWhile_concat_neg _ _ _ (by simpa using h), List.length_nil]

theorem streak_le_length (a : α) (l : List α) : streak a l ≤ l.length :=
  (List.rtakeWhile_suffix _ _).length_le

theorem streak_concat_full {a b : α} {l : List α} (h : streak a (l ++ [b]) = (l ++ [b]).length) :
    b = a ∧ streak a l = l.length := by
  rw [List.length_append, List.length_singleton] at h
  have hb : b = a := by
    by_contra hne
    rw [streak_concat_other hne] at h
    omega
  refine ⟨hb, ?_⟩
  rw [hb, streak_concat_self] at h
  omega

theorem replicate_suffix_iff {a : α} {n : Nat} {l : List α} :
    List.replicate n a <:+ l ↔ n ≤ streak a l := by
  induction l using List.reverseRecOn generalizing n with
  | nil => simp
  | append_singleton l b ih =>
    cases n with
    | zero => simp
    | succ n =>
      rw [List.replicate_succ', List.suffix_concat_iff]
      by_cases hb : b = a
      · subst hb
        rw [streak_concat_self]
        simp [ih]
      · rw [streak_concat_other hb]
        simp [Ne.symm hb]

theorem streak_eq_length_iff {a : α} {l : List α} :
    streak a l = l.length ↔ l = List.replicate l.length a := by
  constructor
  · intro h
    have hs : List.replicate l.length a <:+ l := replicate_suffix_iff.mpr h.ge
    exact (hs.eq_of_length (by simp)).symm
  · intro h
    apply le_antisymm (streak_le_length a l)
    apply replicate_suffix_iff.mp
    exact ⟨[], h.symm⟩

end P2PCC.Lib.Streak

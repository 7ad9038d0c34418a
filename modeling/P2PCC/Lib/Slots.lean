import Mathlib.Algebra.BigOperators.Group.Finset.Basic
import Mathlib.Algebra.BigOperators.Ring.Finset
import Mathlib.Algebra.Order.BigOperators.Group.Finset
import Mathlib.Logic.Function.Basic

namespace P2PCC.Lib.Slots

/-- Lengths of the first `n` slots of a reassembly array. -/
def total (n : Nat) (length : Int → Int) : Int := ∑ i ∈ Finset.range n, length i

theorem total_congr {n : Nat} {f g : Int → Int} (h : ∀ i : Int, 0 ≤ i → i < n → f i = g i) :
    total n f = total n g := by
  apply Finset.sum_congr rfl
  intro i hi
  exact h i (by omega) (by exact_mod_cast Finset.mem_range.mp hi)

theorem total_update {n : Nat} {f : Int → Int} {k : Int} (hk : 0 ≤ k) (hn : k < n)
    (hz : f k = 0) (l : Int) : total n (Function.update f k l) = total n f + l := by
  obtain ⟨m, rfl⟩ := Int.eq_ofNat_of_zero_le hk
  have hm : m ∈ Finset.range n := Finset.mem_range.mpr (by exact_mod_cast hn)
  have hrest : ∀ g : Int → Int, total n g = g m + ∑ i ∈ (Finset.range n).erase m, g i := by
    intro g
    exact (Finset.add_sum_erase _ (fun i : Nat => g i) hm).symm
  have hsame : ∑ i ∈ (Finset.range n).erase m, Function.update f (m : Int) l i =
      ∑ i ∈ (Finset.range n).erase m, f i := by
    apply Finset.sum_congr rfl
    intro i hi
    have hne : (i : Int) ≠ m := by exact_mod_cast Finset.ne_of_mem_erase hi
    exact Function.update_of_ne hne l f
  rw [hrest, hrest f, hsame, Function.update_self, hz]
  omega

theorem total_full {n : Nat} {size : Int} (hsize : 0 < size) {length : Int → Int}
    {used : Int → Bool} (h : ∀ i : Int, 0 ≤ i → i < n → length i = if used i then size else 0) :
    total n length = n * size ↔ ∀ i : Int, 0 ≤ i → i < n → used i = true := by
  have hgap : n * size - total n length = ∑ i ∈ Finset.range n, (size - length i) := by
    simp [total, Finset.sum_sub_distrib]
  have hpos : ∀ i ∈ Finset.range n, 0 ≤ size - length i := by
    intro i hi
    rw [h i (by omega) (by exact_mod_cast Finset.mem_range.mp hi)]
    split <;> omega
  constructor
  · intro ht i hi hn
    rw [ht, sub_self] at hgap
    obtain ⟨m, rfl⟩ := Int.eq_ofNat_of_zero_le hi
    have hz := (Finset.sum_eq_zero_iff_of_nonneg hpos).mp hgap.symm m
      (Finset.mem_range.mpr (by exact_mod_cast hn))
    by_contra hu
    have hl := h m hi hn
    rw [if_neg hu] at hl
    omega
  · intro hu
    have hz : ∑ i ∈ Finset.range n, (size - length i) = 0 := by
      apply Finset.sum_eq_zero
      intro i hi
      have hn : (i : Int) < n := by exact_mod_cast Finset.mem_range.mp hi
      rw [h i (by omega) hn, if_pos (hu i (by omega) hn), sub_self]
    omega

theorem flatten_length {α : Type} {size : Nat} {pieces : List (List α)}
    (h : ∀ piece ∈ pieces, piece.length = size) : pieces.flatten.length = size * pieces.length := by
  rw [List.length_flatten, List.map_congr_left (g := fun _ => size) h]
  simp [mul_comm]

theorem flatMap_pieces {α : Type} (f : Int → α) (size n : Nat) :
    (List.range n).flatMap (fun j : Nat => (List.range size).map (fun i : Nat => f (j * size + i))) =
      (List.range (n * size)).map (fun i : Nat => f i) := by
  induction n with
  | zero => simp
  | succ n ih =>
    rw [List.range_succ, List.flatMap_append, ih, Nat.succ_mul, List.range_add, List.map_append]
    simp [Function.comp_def]

end P2PCC.Lib.Slots

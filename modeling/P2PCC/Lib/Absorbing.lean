import Mathlib.Data.List.Basic

namespace P2PCC.Lib.Absorbing

variable {α σ : Type}

/-- What has been read of an input that is taken in by blocks: the state after
the full blocks, and the rest, which does not fill a block. -/
@[ext] structure Absorbed (α σ : Type) where
  state : σ
  rest : List α

variable (size : Nat) (compress : σ → List α → σ)

def push (a : Absorbed α σ) (x : α) : Absorbed α σ :=
  if a.rest.length + 1 = size then ⟨compress a.state (a.rest ++ [x]), []⟩
  else ⟨a.state, a.rest ++ [x]⟩

def absorb (a : Absorbed α σ) (xs : List α) : Absorbed α σ := xs.foldl (push size compress) a

/-- The full blocks of an input, in order. -/
def blocks (xs : List α) : List (List α) :=
  (List.range (xs.length / size)).map (fun i : Nat => (xs.drop (size * i)).take size)

variable {size compress}

@[simp] theorem absorb_nil (a : Absorbed α σ) : absorb size compress a [] = a := rfl

/-- An input may be cut anywhere. -/
theorem absorb_append (a : Absorbed α σ) (xs ys : List α) :
    absorb size compress a (xs ++ ys) = absorb size compress (absorb size compress a xs) ys := by
  rw [absorb, List.foldl_append]
  rfl

theorem absorb_open (a : Absorbed α σ) (xs : List α) (h : a.rest.length + xs.length < size) :
    absorb size compress a xs = ⟨a.state, a.rest ++ xs⟩ := by
  induction xs generalizing a with
  | nil => rw [absorb_nil, List.append_nil]
  | cons x xs ih =>
    rw [List.length_cons] at h
    have hpush : push size compress a x = ⟨a.state, a.rest ++ [x]⟩ := if_neg (by omega)
    have hrest : (a.rest ++ [x]).length + xs.length < size := by
      rw [List.length_append, List.length_singleton]
      omega
    rw [absorb, List.foldl_cons, hpush, ← absorb, ih _ hrest, List.append_assoc]
    rfl

theorem absorb_full (a : Absorbed α σ) (xs : List α) (hne : xs ≠ [])
    (h : a.rest.length + xs.length = size) :
    absorb size compress a xs = ⟨compress a.state (a.rest ++ xs), []⟩ := by
  have hlast := List.dropLast_append_getLast hne
  have hlength : xs.dropLast.length + 1 = xs.length := by
    have hpos := List.length_pos_iff.mpr hne
    rw [List.length_dropLast]
    omega
  rw [← hlast, absorb_append, absorb_open a xs.dropLast (by omega), absorb, List.foldl_cons,
    List.foldl_nil, push, if_pos, List.append_assoc]
  rw [List.length_append]
  omega

theorem absorb_blocks (st : σ) (bs : List (List α)) (hsize : 0 < size)
    (h : ∀ b ∈ bs, b.length = size) :
    absorb size compress ⟨st, []⟩ bs.flatten = ⟨bs.foldl compress st, []⟩ := by
  induction bs generalizing st with
  | nil => rfl
  | cons b bs ih =>
    have hb := h b List.mem_cons_self
    have hne : b ≠ [] := by
      rintro rfl
      exact absurd hb (by simp; omega)
    rw [List.flatten_cons, absorb_append, absorb_full _ b hne (by simpa using hb), List.nil_append,
      ih _ (fun b' hb' => h b' (List.mem_cons_of_mem b hb')), List.foldl_cons]

theorem absorb_map {τ : Type} {compress' : τ → List α → τ} (g : σ → τ)
    (hg : ∀ st b, b.length = size → compress' (g st) b = g (compress st b)) (a : Absorbed α σ)
    (xs : List α) : absorb size compress' ⟨g a.state, a.rest⟩ xs =
      ⟨g (absorb size compress a xs).state, (absorb size compress a xs).rest⟩ := by
  induction xs generalizing a with
  | nil => rfl
  | cons x xs ih =>
    have hpush : push size compress' ⟨g a.state, a.rest⟩ x =
        ⟨g (push size compress a x).state, (push size compress a x).rest⟩ := by
      simp only [push]
      split
      · rename_i hfull
        rw [hg]
        rw [List.length_append, List.length_singleton, hfull]
      · rfl
    rw [absorb, List.foldl_cons, hpush, ← absorb, ih]
    rfl

theorem mem_blocks_length {xs b : List α} (h : b ∈ blocks size xs) : b.length = size := by
  obtain ⟨i, hi, rfl⟩ := List.mem_map.mp h
  have hfit := Nat.mul_le_mul_left size (Nat.succ_le_of_lt (List.mem_range.mp hi))
  have hall := Nat.mul_div_le xs.length size
  rw [Nat.mul_succ] at hfit
  rw [List.length_take, List.length_drop]
  omega

theorem take_blocks (xs : List α) (n : Nat) :
    ((List.range n).map (fun i : Nat => (xs.drop (size * i)).take size)).flatten =
      xs.take (size * n) := by
  induction n with
  | zero => simp
  | succ n ih =>
    rw [List.range_succ, List.map_append, List.flatten_append, ih, List.map_singleton,
      List.flatten_singleton, Nat.mul_succ, List.take_add]

theorem blocks_flatten {xs : List α} (h : size ∣ xs.length) : (blocks size xs).flatten = xs := by
  rw [blocks, take_blocks, Nat.mul_div_cancel' h, List.take_length]

theorem absorb_whole (st : σ) {xs : List α} (hsize : 0 < size) (h : size ∣ xs.length) :
    absorb size compress ⟨st, []⟩ xs = ⟨(blocks size xs).foldl compress st, []⟩ := by
  have hblocks : absorb size compress ⟨st, []⟩ (blocks size xs).flatten = _ :=
    absorb_blocks st (blocks size xs) hsize (fun b hb => mem_blocks_length hb)
  rwa [blocks_flatten h] at hblocks

theorem rest_push (a : Absorbed α σ) (x : α) :
    (push size compress a x).rest.length = if a.rest.length + 1 = size then 0
      else a.rest.length + 1 := by
  rw [push]
  split
  · rfl
  · rw [List.length_append, List.length_singleton]

theorem rest_absorb (a : Absorbed α σ) (xs : List α) (h : a.rest.length < size) :
    (absorb size compress a xs).rest.length = (a.rest.length + xs.length) % size := by
  induction xs generalizing a with
  | nil => exact (Nat.mod_eq_of_lt h).symm
  | cons x xs ih =>
    have hpush : (push size compress a x).rest.length = _ := rest_push a x
    rw [absorb, List.foldl_cons, ← absorb, List.length_cons]
    split at hpush
    · rename_i hfull
      have hplace : a.rest.length + (xs.length + 1) = 0 + xs.length + size := by omega
      rw [ih _ (by omega), hpush, hplace, Nat.add_mod_right]
    · rename_i hopen
      have hplace : a.rest.length + (xs.length + 1) = a.rest.length + 1 + xs.length := by omega
      rw [ih _ (by omega), hpush, hplace]

end P2PCC.Lib.Absorbing

import Mathlib.Data.List.Basic
import Mathlib.Data.List.Nodup
import Mathlib.Data.List.Perm.Subperm

namespace P2PCC.Lib.Chains

variable {α : Type}

/-- A node of a singly linked list. A pointer is an address or NULL. -/
structure Node (α : Type) where
  val : α
  next : Option Nat

/-- Memory that is only allocated: an address is an index, and the next one
that is handed out is the length. -/
abbrev Heap (α : Type) := List (Node α)

/-- The nodes from a pointer on until another one, with their addresses. -/
def Seg (h : Heap α) : Option Nat → List (Nat × α) → Option Nat → Prop
  | p, [], q => p = q
  | p, (a, x) :: cells, q => p = some a ∧ ∃ r, h[a]? = some ⟨x, r⟩ ∧ Seg h r cells q

def addresses (cells : List (Nat × α)) : List Nat := cells.map Prod.fst

/-- A pointer to a list of distinct nodes that ends with NULL. -/
structure Represents (h : Heap α) (p : Option Nat) (cells : List (Nat × α)) : Prop where
  seg : Seg h p cells none
  distinct : (addresses cells).Nodup

variable {h : Heap α} {p q r : Option Nat} {a : Nat} {cells front back : List (Nat × α)}

theorem seg_append : Seg h p (front ++ back) q ↔ ∃ r, Seg h p front r ∧ Seg h r back q := by
  induction front generalizing p with
  | nil => exact ⟨fun hs => ⟨p, rfl, hs⟩, fun ⟨_, hr, hs⟩ => hr ▸ hs⟩
  | cons cell front ih =>
    obtain ⟨a, x⟩ := cell
    constructor
    · rintro ⟨hp, r, hr, hs⟩
      obtain ⟨m, hfront, hback⟩ := ih.mp hs
      exact ⟨m, ⟨hp, r, hr, hfront⟩, hback⟩
    · rintro ⟨m, ⟨hp, r, hr, hfront⟩, hback⟩
      exact ⟨hp, r, hr, ih.mpr ⟨m, hfront, hback⟩⟩

theorem Seg.exists_address (hs : Seg h p cells q) (hc : cells ≠ []) : ∃ a, p = some a := by
  cases cells with
  | nil => exact absurd rfl hc
  | cons cell cells => exact ⟨cell.1, hs.1⟩

theorem Seg.lt_length (hs : Seg h p cells q) (ha : a ∈ addresses cells) : a < h.length := by
  induction cells generalizing p with
  | nil => exact absurd ha List.not_mem_nil
  | cons cell cells ih =>
    obtain ⟨b, x⟩ := cell
    obtain ⟨_, r, hr, hs⟩ := hs
    obtain rfl | ha := List.mem_cons.mp ha
    · exact (List.getElem?_eq_some_iff.mp hr).1
    · exact ih hs ha

theorem Seg.set_other (hs : Seg h p cells q) (ha : a ∉ addresses cells) (n : Node α) :
    Seg (h.set a n) p cells q := by
  induction cells generalizing p with
  | nil => exact hs
  | cons cell cells ih =>
    obtain ⟨b, x⟩ := cell
    obtain ⟨hp, r, hr, hs⟩ := hs
    obtain ⟨hne, ha⟩ := not_or.mp fun hm => ha (List.mem_cons.mpr hm)
    refine ⟨hp, r, ?_, ih hs ha⟩
    rw [List.getElem?_set_ne hne, hr]

theorem Seg.push (hs : Seg h p cells q) (more : Heap α) : Seg (h ++ more) p cells q := by
  induction cells generalizing p with
  | nil => exact hs
  | cons cell cells ih =>
    obtain ⟨a, x⟩ := cell
    obtain ⟨hp, r, hr, hs⟩ := hs
    refine ⟨hp, r, ?_, ih hs⟩
    rw [List.getElem?_append_left (List.getElem?_eq_some_iff.mp hr).1, hr]

theorem Seg.join (hfront : Seg h p front (some a)) (hback : Seg h r back q)
    (hf : a ∉ addresses front) (hb : a ∉ addresses back) (hlt : a < h.length) (x : α) :
    Seg (h.set a ⟨x, r⟩) p (front ++ (a, x) :: back) q := by
  apply seg_append.mpr
  refine ⟨some a, hfront.set_other hf _, rfl, r, ?_, hback.set_other hb _⟩
  rw [List.getElem?_set_self hlt]

theorem Represents.split {x : α} (hs : Represents h p (front ++ (a, x) :: back)) :
    ∃ r, Seg h p front (some a) ∧ h[a]? = some ⟨x, r⟩ ∧ Seg h r back none ∧
      a ∉ addresses front ∧ a ∉ addresses back ∧ a < h.length := by
  obtain ⟨hseg, hdistinct⟩ := hs
  obtain ⟨m, hfront, rfl, r, hr, hback⟩ := seg_append.mp hseg
  rw [addresses, List.map_append, List.map_cons, List.nodup_middle, List.nodup_cons,
    List.mem_append, not_or] at hdistinct
  exact ⟨r, hfront, hr, hback, hdistinct.1.1, hdistinct.1.2, (List.getElem?_eq_some_iff.mp hr).1⟩

/-- Where a pointer that trails a walk by one node stands. -/
def behind (prev : Option Nat) (cells : List (Nat × α)) : Option Nat :=
  cells.foldl (fun _ cell => some cell.1) prev

theorem behind_concat (prev : Option Nat) (x : α) : behind prev (cells ++ [(a, x)]) = some a := by
  rw [behind, List.foldl_append]
  rfl

theorem split_values {l₁ l₂ : List α} {x : α} (hc : cells.map Prod.snd = l₁ ++ x :: l₂) :
    ∃ front a back, cells = front ++ (a, x) :: back ∧ front.map Prod.snd = l₁ ∧
      back.map Prod.snd = l₂ := by
  obtain ⟨front, more, rfl, hfront, hmore⟩ := List.map_eq_append_iff.mp hc
  obtain ⟨⟨a, y⟩, back, rfl, rfl, hback⟩ := List.map_eq_cons_iff.mp hmore
  exact ⟨front, a, back, rfl, hfront, hback⟩

theorem Represents.length_le (hs : Represents h p cells) : cells.length ≤ h.length := by
  have hsub : addresses cells ⊆ List.range h.length :=
    fun a ha => List.mem_range.mpr (hs.seg.lt_length ha)
  have hle := (List.subperm_of_subset hs.distinct hsub).length_le
  rwa [addresses, List.length_map, List.length_range] at hle

end P2PCC.Lib.Chains

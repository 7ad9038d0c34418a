import P2PCC.Lib.Chains
import P2PCC.Packet

namespace P2PCC.ResponseList

open P2PCC.Lib.Chains P2PCC.Packet

/-- The loop of `reverseList`. It ends with `none` when the list is not one. -/
def reverseLoop : Nat → Heap DataPacket → Option Nat → Option Nat →
    Option (Heap DataPacket × Option Nat)
  | 0, _, _, _ => none
  | _ + 1, h, none, cursor => some (h, cursor)
  | fuel + 1, h, some head, cursor => do
    let node ← h[head]?
    reverseLoop fuel (h.set head ⟨node.val, cursor⟩) node.next (some head)

/-- `reverseList`, in place. -/
def reverseList (h : Heap DataPacket) (head : Option Nat) : Option (Heap DataPacket × Option Nat) :=
  reverseLoop (h.length + 1) h head none

/-- A handler puts a new packet in front of its list. -/
def prepend (l : Heap DataPacket × Option Nat) (packet : DataPacket) :
    Heap DataPacket × Option Nat :=
  (l.1 ++ [⟨packet, l.2⟩], some l.1.length)

/-- The heap has grown, and what was in it is as it was. -/
def Extends (h h' : Heap DataPacket) : Prop := h.length ≤ h'.length ∧ ∀ a < h.length, h'[a]? = h[a]?

variable {h h' : Heap DataPacket} {p head cursor : Option Nat}
  {cells todo done : List (Nat × DataPacket)}

theorem Seg.extends {q : Option Nat} (hs : Seg h p cells q) (he : Extends h h') :
    Seg h' p cells q := by
  induction cells generalizing p with
  | nil => exact hs
  | cons cell cells ih =>
    obtain ⟨a, x⟩ := cell
    obtain ⟨hp, r, hr, hs⟩ := hs
    refine ⟨hp, r, ?_, ih hs⟩
    rw [he.2 a (List.getElem?_eq_some_iff.mp hr).1, hr]

/-- What the loop has turned is in front of what it had turned before, and
only the nodes it has turned are written. -/
theorem reverseLoop_spec {fuel : Nat} (hfuel : todo.length < fuel) (hs : Seg h head todo none)
    (hd : Seg h cursor done none) (hn : (addresses (todo ++ done)).Nodup) :
    ∃ h' q, reverseLoop fuel h head cursor = some (h', q) ∧
      Represents h' q (todo.reverse ++ done) ∧ h'.length = h.length ∧
      ∀ a ∉ addresses todo, h'[a]? = h[a]? := by
  induction todo generalizing h head cursor done fuel with
  | nil =>
    obtain ⟨fuel, rfl⟩ := Nat.exists_eq_succ_of_ne_zero (by omega : fuel ≠ 0)
    obtain rfl : head = none := hs
    exact ⟨h, cursor, rfl, ⟨hd, hn⟩, rfl, fun _ _ => rfl⟩
  | cons cell todo ih =>
    obtain ⟨a, x⟩ := cell
    obtain ⟨rfl, r, hr, hs⟩ := hs
    obtain ⟨fuel, rfl⟩ := Nat.exists_eq_succ_of_ne_zero (by omega : fuel ≠ 0)
    rw [List.length_cons] at hfuel
    have hfresh : a ∉ addresses todo ∧ a ∉ addresses done := by
      rw [← not_or, ← List.mem_append, addresses, addresses, ← List.map_append]
      exact (List.nodup_cons.mp hn).1
    have hlt : a < h.length := (List.getElem?_eq_some_iff.mp hr).1
    have hturned : Seg (h.set a ⟨x, cursor⟩) (some a) ((a, x) :: done) none :=
      ⟨rfl, cursor, List.getElem?_set_self hlt, hd.set_other hfresh.2 _⟩
    have hnodup : (addresses (todo ++ (a, x) :: done)).Nodup := by
      rw [addresses, List.map_append, List.map_cons, List.nodup_middle, ← List.map_append]
      exact hn
    obtain ⟨h', q, heq, hrep, hlen, hsame⟩ :=
      ih (Nat.lt_of_succ_lt_succ hfuel) (hs.set_other hfresh.1 _) hturned hnodup
    refine ⟨h', q, ?_, ?_, ?_, ?_⟩
    · rw [reverseLoop, Option.bind_eq_bind, hr]
      exact heq
    · rw [List.reverse_cons, List.append_assoc]
      exact hrep
    · rw [hlen, List.length_set]
    · intro b hb
      obtain ⟨hne, hb⟩ := not_or.mp fun hm => hb (List.mem_cons.mpr hm)
      rw [hsame b hb, List.getElem?_set_ne (Ne.symm hne)]

theorem prepend_spec (packets : List DataPacket) (hs : Represents h p cells) :
    ∃ new, Represents (packets.foldl prepend (h, p)).1 (packets.foldl prepend (h, p)).2
        (new ++ cells) ∧
      new.map Prod.snd = packets.reverse ∧ (∀ a ∈ addresses new, h.length ≤ a) ∧
      Extends h (packets.foldl prepend (h, p)).1 := by
  induction packets generalizing h p cells with
  | nil => exact ⟨[], hs, rfl, by simp [addresses], le_rfl, fun _ _ => rfl⟩
  | cons packet packets ih =>
    have hfresh : h.length ∉ addresses cells := fun hm => lt_irrefl _ (hs.seg.lt_length hm)
    have hnew : Represents (h ++ [⟨packet, p⟩]) (some h.length) ((h.length, packet) :: cells) := by
      refine ⟨⟨rfl, p, ?_, hs.seg.push _⟩, List.nodup_cons.mpr ⟨hfresh, hs.distinct⟩⟩
      rw [List.getElem?_append_right (le_refl _), Nat.sub_self, List.getElem?_cons_zero]
    obtain ⟨new, hrep, hvalues, hlow, hle, hsame⟩ := ih hnew
    rw [List.length_append, List.length_singleton] at hle hlow
    have hlonger : h.length ≤ ((packet :: packets).foldl prepend (h, p)).1.length := by
      exact le_trans (Nat.le_succ _) hle
    refine ⟨new ++ [(h.length, packet)], ?_, ?_, ?_, hlonger, ?_⟩
    · rw [List.append_assoc]
      exact hrep
    · rw [List.map_append, hvalues, List.reverse_cons]
      rfl
    · intro a ha
      rw [addresses, List.map_append, List.mem_append] at ha
      obtain ha | ha := ha
      · have := hlow a ha
        omega
      · simp at ha
        omega
    · intro a ha
      rw [List.foldl_cons, prepend]
      rw [hsame a (by rw [List.length_append]; omega), List.getElem?_append_left ha]

/-- The packets that a handler has made come out of `reverseList` in the order
in which it made them, and no other list is touched. -/
theorem reverseList_prepended (h : Heap DataPacket) (packets : List DataPacket) :
    ∃ h' q cells, reverseList (packets.foldl prepend (h, none)).1
        (packets.foldl prepend (h, none)).2 = some (h', q) ∧
      Represents h' q cells ∧ cells.map Prod.snd = packets ∧
      ∀ p others, Represents h p others → Represents h' p others := by
  have hempty : Represents h none [] := ⟨rfl, List.nodup_nil⟩
  obtain ⟨new, hrep, hvalues, hlow, hle, hsame⟩ := prepend_spec packets hempty
  rw [List.append_nil] at hrep
  generalize packets.foldl prepend (h, none) = l at hrep hle hsame
  have hnone : Seg l.1 none [] none := rfl
  obtain ⟨h', q, heq, hturned, hlen, hothers⟩ := reverseLoop_spec
    (Nat.lt_succ_of_le hrep.length_le) hrep.seg hnone (by rw [List.append_nil]; exact hrep.distinct)
  rw [List.append_nil] at hturned
  refine ⟨h', q, new.reverse, heq, hturned, ?_, ?_⟩
  · rw [List.map_reverse, hvalues, List.reverse_reverse]
  · intro p others ho
    refine ⟨Seg.extends ho.seg ⟨by omega, ?_⟩, ho.distinct⟩
    intro a ha
    rw [hothers a fun hm => absurd (hlow a hm) (by omega), hsame a ha]

end P2PCC.ResponseList

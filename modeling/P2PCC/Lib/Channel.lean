import Mathlib.Data.List.Perm.Basic

namespace P2PCC.Lib.Channel

variable {α : Type}

/-- What an unreliable channel does to the packets in flight besides handing
one of them over. -/
inductive Fault where
  | drop (i : Nat)
  | duplicate (i : Nat)

def Fault.apply : Fault → List α → List α
  | .drop i, l => l.eraseIdx i
  | .duplicate i, l => l[i]?.toList ++ l

/-- Hand over the packet at a position, which need not be the oldest. -/
def handOver (i : Nat) (l : List α) : Option (α × List α) := l[i]?.map (fun a => (a, l.eraseIdx i))

theorem Fault.mem_of_mem_apply {fault : Fault} {l : List α} {a : α} (h : a ∈ fault.apply l) :
    a ∈ l := by
  cases fault with
  | drop i => exact List.mem_of_mem_eraseIdx h
  | duplicate i =>
    obtain h | h := List.mem_append.mp h
    · exact List.mem_of_getElem? (Option.mem_toList.mp h)
    · exact h

theorem handOver_perm {i : Nat} {l rest : List α} {a : α} (h : handOver i l = some (a, rest)) :
    l.Perm (a :: rest) := by
  obtain ⟨c, hc, heq⟩ := Option.map_eq_some_iff.mp h
  obtain ⟨rfl, rfl⟩ := Prod.mk.inj heq
  obtain ⟨hi, rfl⟩ := List.getElem?_eq_some_iff.mp hc
  exact (List.getElem_cons_eraseIdx_perm hi).symm

theorem handOver_mem {i : Nat} {l rest : List α} {a : α} (h : handOver i l = some (a, rest)) :
    a ∈ l ∧ ∀ b ∈ rest, b ∈ l :=
  ⟨(handOver_perm h).mem_iff.mpr List.mem_cons_self,
    fun _ hb => (handOver_perm h).mem_iff.mpr (List.mem_cons_of_mem a hb)⟩

end P2PCC.Lib.Channel

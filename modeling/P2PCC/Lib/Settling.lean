import Mathlib.Init

namespace P2PCC.Lib.Settling

variable {σ : Type} {next : σ → σ → Prop} {P Q : σ → Prop} {s t : σ}

def AtRest (next : σ → σ → Prop) (s : σ) : Prop := ∀ t, ¬next s t

/-- However the system goes on from a state, it comes to rest, and in a state
with the property. -/
inductive Settles (next : σ → σ → Prop) (Q : σ → Prop) : σ → Prop
  | intro (s : σ) (hrest : AtRest next s → Q s) (hnext : ∀ t, next s t → Settles next Q t) :
    Settles next Q s

theorem Settles.rest (h : Settles next Q s) (hr : AtRest next s) : Q s := by
  obtain ⟨_, hrest, _⟩ := h
  exact hrest hr

theorem Settles.step (h : Settles next Q s) (hn : next s t) : Settles next Q t := by
  obtain ⟨_, _, hnext⟩ := h
  exact hnext t hn

theorem Settles.mono (h : Settles next P s) (hpq : ∀ t, P t → Q t) : Settles next Q s := by
  induction h with
  | intro s hrest _ ih => exact ⟨s, fun hr => hpq s (hrest hr), ih⟩

theorem Settles.meet (hp : Settles next P s) (hq : Settles next Q s) : ∃ t, P t ∧ Q t := by
  induction hp with
  | intro s hrest _ ih =>
    by_cases hr : AtRest next s
    · exact ⟨s, hrest hr, hq.rest hr⟩
    · obtain ⟨t, hn⟩ := Classical.not_forall_not.mp hr
      exact ih t hn (hq.step hn)

/-- A measure that every step lowers brings the system to rest. -/
theorem settles_of_measure {I : σ → Prop} (size : σ → Nat)
    (hnext : ∀ s t, I s → next s t → I t ∧ size t < size s)
    (hrest : ∀ s, I s → AtRest next s → Q s) (h : I s) : Settles next Q s := by
  induction hsize : size s using Nat.strongRecOn generalizing s with
  | ind n ih =>
    refine ⟨s, hrest s h, fun t hn => ?_⟩
    obtain ⟨ht, hlt⟩ := hnext s t h hn
    exact ih (size t) (hsize ▸ hlt) ht rfl

end P2PCC.Lib.Settling

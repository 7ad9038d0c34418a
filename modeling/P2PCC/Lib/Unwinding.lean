import P2PCC.Lib.Runs

namespace P2PCC.Lib.Unwinding

open P2PCC.Lib.Runs

variable {σ ε ω : Type}

/-- The outputs of the events that one party has caused, in order. -/
def observe (step : σ → ε → σ) (out : σ → ε → ω) (own : ε → Bool) : σ → List ε → List ω
  | _, [] => []
  | s, e :: es =>
    if own e then out s e :: observe step out own (step s e) es
    else observe step out own (step s e) es

/-- States that look the same to the party answer its own events alike and
stay the same, and the events of others do not show. -/
structure Unwinds (step : σ → ε → σ) (out : σ → ε → ω) (own : ε → Bool) (same : σ → σ → Prop)
    (allowed : ε → Prop) : Prop where
  output : ∀ s t e, allowed e → own e = true → same s t → out s e = out t e
  consistent : ∀ s t e, allowed e → own e = true → same s t → same (step s e) (step t e)
  respects : ∀ s t e, allowed e → own e = false → same s t → same (step s e) t

variable {step : σ → ε → σ} {out : σ → ε → ω} {own : ε → Bool} {same : σ → σ → Prop}
  {allowed : ε → Prop}

/-- The events of others can be left out of a run. -/
theorem Unwinds.run (h : Unwinds step out own same allowed) (es : List ε)
    (ha : ∀ e ∈ es, allowed e) (s t : σ) (hst : same s t) :
    same (run step s es) (run step t (es.filter own)) := by
  induction es generalizing s t with
  | nil => exact hst
  | cons e es ih =>
    obtain ⟨he, hes⟩ := List.forall_mem_cons.mp ha
    cases ho : own e with
    | true =>
      rw [List.filter_cons_of_pos ho, run_cons, run_cons]
      exact ih hes _ _ (h.consistent s t e he ho hst)
    | false =>
      rw [List.filter_cons_of_neg (by simp [ho]), run_cons]
      exact ih hes _ _ (h.respects s t e he ho hst)

theorem Unwinds.observe (h : Unwinds step out own same allowed) (es : List ε)
    (ha : ∀ e ∈ es, allowed e) (s t : σ) (hst : same s t) :
    observe step out own s es = observe step out own t (es.filter own) := by
  induction es generalizing s t with
  | nil => rfl
  | cons e es ih =>
    obtain ⟨he, hes⟩ := List.forall_mem_cons.mp ha
    rw [Unwinding.observe]
    cases ho : own e with
    | true =>
      rw [List.filter_cons_of_pos ho, Unwinding.observe, ho, if_pos rfl, if_pos rfl,
        h.output s t e he ho hst, ih hes _ _ (h.consistent s t e he ho hst)]
    | false =>
      rw [List.filter_cons_of_neg (by simp [ho]), if_neg Bool.false_ne_true]
      exact ih hes _ _ (h.respects s t e he ho hst)

end P2PCC.Lib.Unwinding

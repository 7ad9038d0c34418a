import Mathlib.Init

namespace P2PCC.Lib.Runs

variable {σ ε : Type}

/-- The state after a list of events. The events carry every choice of the
environment, so a system is its step function. -/
def run (step : σ → ε → σ) (s : σ) (es : List ε) : σ := es.foldl step s

/-- Every event of the run meets a condition on the state it is taken in. -/
def Along (step : σ → ε → σ) (G : σ → ε → Prop) : σ → List ε → Prop
  | _, [] => True
  | s, e :: es => G s e ∧ Along step G (step s e) es

/-- Every state the run visits has a property, the first and last included. -/
def Throughout (step : σ → ε → σ) (P : σ → Prop) : σ → List ε → Prop
  | s, [] => P s
  | s, e :: es => P s ∧ Throughout step P (step s e) es

/-- What a machine with output emits over a list of events. -/
def outputs {ω : Type} (act : σ → ε → σ × List ω) : σ → List ε → List ω
  | _, [] => []
  | s, e :: es => (act s e).2 ++ outputs act (act s e).1 es

variable {step : σ → ε → σ} {G H : σ → ε → Prop} {I P : σ → Prop}

@[simp] theorem run_nil (s : σ) : run step s [] = s := rfl

@[simp] theorem run_cons (s : σ) (e : ε) (es : List ε) :
    run step s (e :: es) = run step (step s e) es := rfl

theorem run_append (s : σ) (es fs : List ε) :
    run step s (es ++ fs) = run step (run step s es) fs := by
  simp [run]

theorem along_append (s : σ) (es fs : List ε) :
    Along step G s (es ++ fs) ↔ Along step G s es ∧ Along step G (run step s es) fs := by
  induction es generalizing s with
  | nil => simp [Along]
  | cons e es ih =>
    rw [List.cons_append, Along, Along, ih, run_cons, and_assoc]

theorem along_last (s : σ) (es : List ε) (e : ε) (h : Along step G s (es ++ [e])) :
    G (run step s es) e :=
  ((along_append s es [e]).mp h).2.1

theorem along_of_forall (s : σ) (es : List ε) (h : ∀ s, ∀ e ∈ es, G s e) : Along step G s es := by
  induction es generalizing s with
  | nil => trivial
  | cons e es ih =>
    exact ⟨h s e List.mem_cons_self, ih _ fun s f hf => h s f (List.mem_cons_of_mem e hf)⟩

theorem along_of_split (s : σ) (es : List ε)
    (h : ∀ pre e post, es = pre ++ e :: post → G (run step s pre) e) : Along step G s es := by
  induction es generalizing s with
  | nil => trivial
  | cons e es ih =>
    refine ⟨h [] e es rfl, ih (step s e) ?_⟩
    rintro pre f post rfl
    exact h (e :: pre) f post rfl

theorem run_invariant (hstep : ∀ s e, I s → G s e → I (step s e)) (s : σ) (es : List ε)
    (hs : I s) (hg : Along step G s es) : I (run step s es) := by
  induction es generalizing s with
  | nil => exact hs
  | cons e es ih => exact ih (step s e) (hstep s e hs hg.1) hg.2

theorem run_invariant_total (hstep : ∀ s e, I s → I (step s e)) (s : σ) (es : List ε)
    (hs : I s) : I (run step s es) := by
  induction es generalizing s with
  | nil => exact hs
  | cons e es ih => exact ih (step s e) (hstep s e hs)

/-- Two machines that stay related over one event stay related over all. -/
theorem run_simulates {τ : Type} {other : τ → ε → τ} {S : σ → τ → Prop} {es : List ε}
    (hstep : ∀ s t, ∀ e ∈ es, S s t → S (step s e) (other t e)) (s : σ) (t : τ) (hs : S s t) :
    S (run step s es) (run other t es) := by
  induction es generalizing s t with
  | nil => exact hs
  | cons e es ih =>
    apply ih (fun s t f hf => hstep s t f (List.mem_cons_of_mem e hf))
    exact hstep s t e List.mem_cons_self hs

theorem throughout_of_invariant (hstep : ∀ s e, I s → G s e → I (step s e)) (s : σ)
    (es : List ε) (hs : I s) (hg : Along step G s es) : Throughout step I s es := by
  induction es generalizing s with
  | nil => exact hs
  | cons e es ih => exact ⟨hs, ih (step s e) (hstep s e hs hg.1) hg.2⟩

theorem Throughout.mono (h : ∀ s, I s → P s) (s : σ) (es : List ε)
    (hs : Throughout step I s es) : Throughout step P s es := by
  induction es generalizing s with
  | nil => exact h s hs
  | cons e es ih => exact ⟨h s hs.1, ih (step s e) hs.2⟩

theorem Throughout.last (s : σ) (es : List ε) (h : Throughout step P s es) : P (run step s es) := by
  induction es generalizing s with
  | nil => exact h
  | cons e es ih => exact ih (step s e) h.2

theorem along_mono (hstep : ∀ s e, I s → G s e → I (step s e))
    (h : ∀ s e, I s → G s e → H s e) (s : σ) (es : List ε) (hs : I s)
    (hg : Along step G s es) : Along step H s es := by
  induction es generalizing s with
  | nil => trivial
  | cons e es ih => exact ⟨h s e hs hg.1, ih (step s e) (hstep s e hs hg.1) hg.2⟩

theorem along_and (s : σ) (es : List ε) :
    Along step (fun s e => G s e ∧ H s e) s es ↔ Along step G s es ∧ Along step H s es := by
  induction es generalizing s with
  | nil => simp [Along]
  | cons e es ih =>
    rw [Along, Along, Along, ih]
    exact and_and_and_comm

/-- Two step conditions that agree wherever an invariant holds select the
same runs. -/
theorem along_congr (hstep : ∀ s e, I s → G s e → I (step s e))
    (h : ∀ s e, I s → (G s e ↔ H s e)) (s : σ) (es : List ε) (hs : I s) :
    Along step G s es ↔ Along step H s es := by
  induction es generalizing s with
  | nil => exact Iff.rfl
  | cons e es ih =>
    constructor
    · intro hg
      exact ⟨(h s e hs).mp hg.1, (ih (step s e) (hstep s e hs hg.1)).mp hg.2⟩
    · intro hg
      have he := (h s e hs).mpr hg.1
      exact ⟨he, (ih (step s e) (hstep s e hs he)).mpr hg.2⟩

/-- A property holds throughout a run of admissible events exactly when every
step meets the condition that makes one step keep it. -/
theorem throughout_iff_along_of {A : σ → ε → Prop}
    (h : ∀ s e, I s → P s → A s e → I (step s e) ∧ (P (step s e) ↔ G s e)) (s : σ) (es : List ε)
    (hi : I s) (hs : P s) (ha : Along step A s es) :
    Throughout step P s es ↔ Along step G s es := by
  induction es generalizing s with
  | nil => exact ⟨fun _ => trivial, fun _ => hs⟩
  | cons e es ih =>
    obtain ⟨hi', hiff⟩ := h s e hi hs ha.1
    constructor
    · intro ht
      have hp : P (step s e) := by
        cases es with
        | nil => exact ht.2
        | cons f es => exact ht.2.1
      exact ⟨hiff.mp hp, (ih (step s e) hi' hp ha.2).mp ht.2⟩
    · intro hg
      have hp := hiff.mpr hg.1
      exact ⟨hs, (ih (step s e) hi' hp ha.2).mpr hg.2⟩

theorem throughout_iff_along (hinv : ∀ s e, I s → I (step s e))
    (h : ∀ s e, I s → P s → (P (step s e) ↔ G s e)) (s : σ) (es : List ε) (hi : I s)
    (hs : P s) : Throughout step P s es ↔ Along step G s es := by
  apply throughout_iff_along_of (A := fun _ _ => True) _ s es hi hs
  · exact along_of_forall s es fun _ _ _ => trivial
  · exact fun s e hi hs _ => ⟨hinv s e hi, h s e hi hs⟩

end P2PCC.Lib.Runs

import Mathlib.Data.List.Forall2
import P2PCC.Lib.Channel
import P2PCC.Lib.Runs

namespace P2PCC.Lib.Network

open P2PCC.Lib.Channel P2PCC.Lib.Runs

variable {ι σ τ μ ν δ κ ε : Type}

/-- Parties that do something only when they take a message or an input, and
send messages as they do. A message brings a choice of its surroundings. -/
structure Protocol (ι σ μ δ ε : Type) where
  init : ι → σ
  accepts : ι → μ → Bool
  receive : ι → σ → μ → δ → σ × List μ
  input : ι → σ → ε → σ × List μ

/-- The states of the parties, and the messages in flight between them. -/
structure State (ι σ μ : Type) where
  party : ι → σ
  flight : List μ

inductive Move (ι δ ε : Type) where
  | fault (fault : Fault)
  | deliver (k : Nat) (i : ι) (d : δ)
  | input (i : ι) (x : ε)

/-- The same move for a party that looks at less of its surroundings. -/
def Move.seen (view : κ → δ) : Move ι κ ε → Move ι δ ε
  | .fault f => .fault f
  | .deliver k i d => .deliver k i (view d)
  | .input i x => .input i x

section Definitions

variable [DecidableEq ι]

def State.after (s : State ι σ μ) (i : ι) (acted : σ × List μ) : State ι σ μ :=
  { party := Function.update s.party i acted.1
    flight := s.flight ++ acted.2 }

def Protocol.start (p : Protocol ι σ μ δ ε) : State ι σ μ := { party := p.init, flight := [] }

def Protocol.step (p : Protocol ι σ μ δ ε) (s : State ι σ μ) : Move ι δ ε → State ι σ μ
  | .fault fault => { s with flight := fault.apply s.flight }
  | .deliver k i d =>
    match handOver k s.flight with
    | none => s
    | some (m, rest) =>
      if p.accepts i m then
        { s with flight := rest }.after i (p.receive i (s.party i) m d)
      else s
  | .input i x => s.after i (p.input i (s.party i) x)

/-- A condition on the messages that are taken, and one on the inputs. -/
def Protocol.Guarded (p : Protocol ι σ μ δ ε) (G : ι → σ → μ → δ → Prop) (E : ι → σ → ε → Prop)
    (s : State ι σ μ) : Move ι δ ε → Prop
  | .fault _ => True
  | .deliver k i d => ∀ m rest, handOver k s.flight = some (m, rest) → p.accepts i m = true →
      G i (s.party i) m d
  | .input i x => E i (s.party i) x

end Definitions

/-- A property of each party, and one of each message in flight. -/
structure Holds (P : ι → σ → Prop) (Q : μ → Prop) (s : State ι σ μ) : Prop where
  party : ∀ i, P i (s.party i)
  flight : ∀ m ∈ s.flight, Q m

/-- What a party does keeps its property, and what it sends has theirs. -/
structure Keeps (p : Protocol ι σ μ δ ε) (P : ι → σ → Prop) (Q : μ → Prop)
    (G : ι → σ → μ → δ → Prop) (E : ι → σ → ε → Prop) : Prop where
  init : ∀ i, P i (p.init i)
  receive : ∀ i s m d, P i s → Q m → p.accepts i m = true → G i s m d →
    P i (p.receive i s m d).1 ∧ ∀ m' ∈ (p.receive i s m d).2, Q m'
  input : ∀ i s x, P i s → E i s x → P i (p.input i s x).1 ∧ ∀ m' ∈ (p.input i s x).2, Q m'

section Invariants

variable [DecidableEq ι] {p : Protocol ι σ μ δ ε} {P : ι → σ → Prop} {Q : μ → Prop}
  {G H : ι → σ → μ → δ → Prop} {E F : ι → σ → ε → Prop} {s : State ι σ μ}

theorem after_self (s : State ι σ μ) (i : ι) (acted : σ × List μ) :
    (s.after i acted).party i = acted.1 := by
  simp [State.after]

theorem after_other (s : State ι σ μ) {i j : ι} (hj : j ≠ i) (acted : σ × List μ) :
    (s.after i acted).party j = s.party j := by
  simp [State.after, hj]

theorem Holds.after (h : Holds P Q s) {i : ι} {acted : σ × List μ} (hparty : P i acted.1)
    (hsent : ∀ m ∈ acted.2, Q m) : Holds P Q (s.after i acted) := by
  refine ⟨?_, ?_⟩
  · intro j
    by_cases hj : j = i
    · subst j
      rw [after_self]
      exact hparty
    · rw [after_other s hj]
      exact h.party j
  · exact fun m hm => (List.mem_append.mp hm).elim (h.flight m) (hsent m)

theorem Keeps.step (hk : Keeps p P Q G E) (h : Holds P Q s) (move : Move ι δ ε)
    (hg : p.Guarded G E s move) : Holds P Q (p.step s move) := by
  cases move with
  | fault fault => exact ⟨h.party, fun m hm => h.flight m (Fault.mem_of_mem_apply hm)⟩
  | deliver k i d =>
    rw [Protocol.step]
    cases ht : handOver k s.flight with
    | none => exact h
    | some taken =>
      obtain ⟨m, rest⟩ := taken
      obtain ⟨hm, hrest⟩ := handOver_mem ht
      dsimp only
      split
      · rename_i ha
        have hleft : Holds P Q { s with flight := rest } :=
          ⟨h.party, fun n hn => h.flight n (hrest n hn)⟩
        obtain ⟨hparty, hsent⟩ :=
          hk.receive i (s.party i) m d (h.party i) (h.flight m hm) ha (hg m rest ht ha)
        exact hleft.after hparty hsent
      · exact h
  | input i x =>
    obtain ⟨hparty, hsent⟩ := hk.input i (s.party i) x (h.party i) hg
    exact h.after hparty hsent

/-- What every party keeps holds of every state of a run, whatever the
channel loses, repeats or reorders. -/
theorem Keeps.run (hk : Keeps p P Q G E) (moves : List (Move ι δ ε))
    (hg : Along p.step (p.Guarded G E) p.start moves) :
    Holds P Q (run p.step p.start moves) :=
  run_invariant (I := Holds P Q) (fun _ move hs hm => hk.step hs move hm) _ moves
    ⟨hk.init, fun _ hm => absurd hm List.not_mem_nil⟩ hg

/-- A condition that follows from what the parties keep need not be asked. -/
theorem Keeps.along (hk : Keeps p P Q G E)
    (hreceive : ∀ i s m d, P i s → Q m → p.accepts i m = true → G i s m d → H i s m d)
    (hinput : ∀ i s x, P i s → E i s x → F i s x) (moves : List (Move ι δ ε))
    (hg : Along p.step (p.Guarded G E) p.start moves) :
    Along p.step (p.Guarded H F) p.start moves := by
  refine along_mono (I := Holds P Q) (fun _ move hs hm => hk.step hs move hm) ?_ _ moves
    ⟨hk.init, fun _ hm => absurd hm List.not_mem_nil⟩ hg
  intro s move hs hm
  cases move with
  | fault fault => trivial
  | deliver k i d =>
    intro m rest ht ha
    exact hreceive i _ m d (hs.party i) (hs.flight m (handOver_mem ht).1) ha (hm m rest ht ha)
  | input i x => exact hinput i _ x (hs.party i) hm

end Invariants

/-- One protocol does with its messages what another does with messages that
stand for the same. -/
structure Simulates (c : Protocol ι τ ν κ ε) (p : Protocol ι σ μ δ ε) (view : κ → δ)
    (S : ι → τ → σ → Prop) (M : ν → μ → Prop) : Prop where
  init : ∀ i, S i (c.init i) (p.init i)
  accepts : ∀ i n m, M n m → c.accepts i n = p.accepts i m
  receive : ∀ i t s n m d, S i t s → M n m → p.accepts i m = true →
    S i (c.receive i t n d).1 (p.receive i s m (view d)).1 ∧
      List.Forall₂ M (c.receive i t n d).2 (p.receive i s m (view d)).2
  input : ∀ i t s x, S i t s → S i (c.input i t x).1 (p.input i s x).1 ∧
    List.Forall₂ M (c.input i t x).2 (p.input i s x).2

/-- Parties that correspond, and the same messages in flight. -/
structure Related (S : ι → τ → σ → Prop) (M : ν → μ → Prop) (t : State ι τ ν) (s : State ι σ μ) :
    Prop where
  party : ∀ i, S i (t.party i) (s.party i)
  flight : List.Forall₂ M t.flight s.flight

section Channels

variable {M : ν → μ → Prop} {l : List ν} {l' : List μ}

theorem forall₂_getElem? (h : List.Forall₂ M l l') (k : Nat) :
    Option.Rel M l[k]? l'[k]? := by
  induction h generalizing k with
  | nil => exact .none
  | cons hm hrest ih =>
    cases k with
    | zero => exact .some hm
    | succ k => exact ih k

theorem forall₂_eraseIdx (h : List.Forall₂ M l l') (k : Nat) :
    List.Forall₂ M (l.eraseIdx k) (l'.eraseIdx k) := by
  induction h generalizing k with
  | nil => exact .nil
  | cons hm hrest ih =>
    cases k with
    | zero => exact hrest
    | succ k => exact .cons hm (ih k)

theorem forall₂_fault (h : List.Forall₂ M l l') (fault : Fault) :
    List.Forall₂ M (fault.apply l) (fault.apply l') := by
  cases fault with
  | drop i => exact forall₂_eraseIdx h i
  | duplicate i =>
    rw [Fault.apply, Fault.apply]
    have hi := forall₂_getElem? h i
    generalize l[i]? = first at hi
    generalize l'[i]? = first' at hi
    cases hi with
    | none => exact h
    | some hm => exact .cons hm h

end Channels

section Simulations

variable [DecidableEq ι] {c : Protocol ι τ ν κ ε} {p : Protocol ι σ μ δ ε} {view : κ → δ}
  {S : ι → τ → σ → Prop} {M : ν → μ → Prop} {t : State ι τ ν} {s : State ι σ μ}

theorem Related.after (h : Related S M t s) {i : ι} {acted : τ × List ν} {acted' : σ × List μ}
    (hparty : S i acted.1 acted'.1) (hsent : List.Forall₂ M acted.2 acted'.2) :
    Related S M (t.after i acted) (s.after i acted') := by
  refine ⟨?_, List.rel_append h.flight hsent⟩
  intro j
  by_cases hj : j = i
  · subst j
    rw [after_self, after_self]
    exact hparty
  · rw [after_other t hj, after_other s hj]
    exact h.party j

theorem Simulates.step (hs : Simulates c p view S M) (h : Related S M t s) (move : Move ι κ ε) :
    Related S M (c.step t move) (p.step s (move.seen view)) := by
  cases move with
  | fault fault => exact ⟨h.party, forall₂_fault h.flight fault⟩
  | deliver k i d =>
    have hrest := forall₂_eraseIdx h.flight k
    have hk := forall₂_getElem? h.flight k
    rw [Move.seen, Protocol.step, Protocol.step, handOver, handOver]
    generalize t.flight[k]? = first at hk
    generalize s.flight[k]? = first' at hk
    cases hk with
    | none => exact h
    | @some n m hm =>
      simp only [Option.map_some]
      rw [hs.accepts i n m hm]
      by_cases ha : p.accepts i m = true
      · rw [if_pos ha, if_pos ha]
        obtain ⟨hparty, hsent⟩ := hs.receive i _ _ n m d (h.party i) hm ha
        have hleft : Related S M { t with flight := t.flight.eraseIdx k }
            { s with flight := s.flight.eraseIdx k } := ⟨h.party, hrest⟩
        exact hleft.after hparty hsent
      · rw [if_neg ha, if_neg ha]
        exact h
  | input i x =>
    obtain ⟨hparty, hsent⟩ := hs.input i _ _ x (h.party i)
    exact h.after hparty hsent

/-- Whatever happens on the way, the two protocols stay related. -/
theorem Simulates.run (hs : Simulates c p view S M) (moves : List (Move ι κ ε)) :
    Related S M (run c.step c.start moves) (run p.step p.start (moves.map (Move.seen view))) := by
  have hstart : Related S M c.start p.start := ⟨hs.init, .nil⟩
  generalize c.start = t at hstart
  generalize p.start = s at hstart
  induction moves generalizing t s with
  | nil => exact hstart
  | cons move moves ih => exact ih _ _ (hs.step hstart move)

end Simulations

end P2PCC.Lib.Network

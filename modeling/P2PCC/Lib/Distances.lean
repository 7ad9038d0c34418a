import Mathlib.Combinatorics.SimpleGraph.Metric
import Mathlib.Data.List.Perm.Subperm

namespace P2PCC.Lib.Distances

variable {V : Type} {G : SimpleGraph V} {s u v : V} (label : V → ℕ)

/-- Labels that grow by at most one along an edge are at most the lengths of
the walks from the vertex that is labelled 0. -/
theorem label_le_length (hs : label s = 0) (hedge : ∀ u v, G.Adj u v → label v ≤ label u + 1)
    (p : G.Walk s v) : label v ≤ p.length := by
  have hwalk : ∀ {u v} (p : G.Walk u v), label v ≤ label u + p.length := by
    intro u v p
    induction p with
    | nil => exact le_rfl
    | cons huv p ih =>
      have hstep := hedge _ _ huv
      rw [SimpleGraph.Walk.length_cons]
      omega
  have h := hwalk p
  omega

/-- A vertex with a neighbour that is labelled one less, and so on down to the
one that is labelled 0, is at most as far from it as the label says. -/
theorem dist_le_label {P : V → Prop} (hs : ∀ v, P v → label v = 0 → v = s)
    (hpred : ∀ v, P v → label v ≠ 0 → ∃ u, P u ∧ G.Adj u v ∧ label u + 1 = label v) (hv : P v) :
    G.dist s v ≤ label v := by
  suffices h : ∀ k v, P v → label v = k → ∃ p : G.Walk s v, p.length = k by
    obtain ⟨p, hp⟩ := h (label v) v hv rfl
    rw [← hp]
    exact SimpleGraph.dist_le p
  intro k
  induction k with
  | zero =>
    intro v hv h0
    obtain rfl := hs v hv h0
    exact ⟨.nil, rfl⟩
  | succ k ih =>
    intro v hv hk
    obtain ⟨u, hu, huv, hlabel⟩ := hpred v hv (by omega)
    obtain ⟨p, hp⟩ := ih u hu (by omega)
    exact ⟨p.concat huv, by rw [SimpleGraph.Walk.length_concat, hp]⟩

theorem dist_lt_length [DecidableEq V] {l : List V} (hl : ∀ v, G.Reachable s v → v ∈ l)
    (hv : G.Reachable s v) :
    G.dist s v < l.length := by
  obtain ⟨p, hpath, hp⟩ := hv.exists_path_of_dist
  have hsub : p.support ⊆ l := by
    intro u hu
    exact hl u ⟨p.takeUntil u hu⟩
  have hle := (List.subperm_of_subset hpath.support_nodup hsub).length_le
  rw [SimpleGraph.Walk.length_support] at hle
  omega

theorem dist_succ (huv : G.Adj s u) (hle : G.dist u v + 1 ≤ G.dist s v) :
    G.dist u v + 1 = G.dist s v := by
  have htriangle := huv.reachable.dist_triangle_left v
  rw [SimpleGraph.dist_eq_one_iff_adj.mpr huv] at htriangle
  omega

end P2PCC.Lib.Distances

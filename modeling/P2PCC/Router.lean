import Mathlib.Data.Finset.Card
import Mathlib.Data.List.Nodup
import Mathlib.Data.Rat.Defs
import P2PCC.Lib.Distances

namespace P2PCC.Router

open P2PCC.Lib.Distances

/-- The distance of a router that has not been reached. -/
def INFINITY : Nat := 65535

/-- A line of the map file. -/
structure Link where
  fromNode : Nat
  toNode : Nat
  ratebps : Nat
  latency : ℚ
  queuemax : Nat

def slots (links : List Link) : Nat :=
  (links.map (fun l => max l.fromNode l.toNode + 1)).foldr max 0

/-- Every line makes the routers of its two ends, unless they are there. -/
def routers (links : List Link) : List Nat :=
  (List.range (slots links)).filter
    (fun i => links.any (fun l => l.fromNode = i || l.toNode = i))

/-- The neighbours of a router. Every line adds a route at both ends. -/
def routes (links : List Link) (i : Nat) : List Nat :=
  (List.range (slots links)).filter
    (fun k => links.any (fun l => l.fromNode = i && l.toNode = k || l.fromNode = k && l.toNode = i))

/-- What `createTable` writes into the routers. A `predecessor` is never taken
back. -/
structure Mark where
  distance : Nat
  predecessor : Option Nat
  done : Bool

abbrev Marks := Nat → Mark

def unmarked : Marks := fun _ => ⟨0, none, false⟩

/-- Base state for all vertexes. -/
def setUp (vertexes : List Nat) (self : Nat) (marks : Marks) : Marks := fun v =>
  if v ∈ vertexes then
    { marks v with done := false, distance := if v = self then 0 else INFINITY }
  else marks v

/-- Which vertex to visit next: the first of those that are nearest. -/
def visitNext (marks : Marks) (vertexes : List Nat) : Option Nat :=
  (vertexes.foldl (fun found v =>
      if !(marks v).done && (marks v).distance < found.2 then (some v, (marks v).distance)
      else found)
    ((none : Option Nat), INFINITY + 1)).1

def relax (next : Nat) (marks : Marks) (edge : Nat) : Marks :=
  let weight := (marks next).distance + 1
  if (marks edge).distance > weight then
    Function.update marks edge
      { marks edge with distance := weight, predecessor := some next }
  else marks

def visit (links : List Link) (marks : Marks) : Marks :=
  match visitNext marks (routers links) with
  | none => marks
  | some next =>
    let marks := (routes links next).foldl (relax next) marks
    Function.update marks next { marks next with done := true }

def search (links : List Link) (self : Nat) (marks : Marks) : Marks :=
  (routers links).foldl (fun marks _ => visit links marks) (setUp (routers links) self marks)

/-- The walk back along the predecessors. Where one is missing it goes on for
ever, since looking makes an empty one, or the program dies. -/
def startRoute (marks : Marks) (self : Nat) : Nat → Nat → Option Nat
  | 0, _ => none
  | fuel + 1, route => do
    let predecessor ← (marks route).predecessor
    if predecessor = self then some route else startRoute marks self fuel predecessor

/-- The marks that are left, and the route for every other router; `none`
where the program dies or does not end. -/
def createTable (links : List Link) (self : Nat) (marks : Marks) :
    Option (Marks × (Nat → Option Nat)) :=
  let marks := search links self marks
  let route := fun vertex => startRoute marks self (routers links).length vertex
  if (routers links).all (fun vertex => vertex = self ||
      (route vertex).any (fun start => start ∈ routes links self)) then
    some (marks, fun vertex => if vertex ∈ routers links ∧ vertex ≠ self then route vertex else none)
  else none

/-- The tables of all routers, made one after the other. -/
def createTables (links : List Link) : Option (Nat → Nat → Option Nat) :=
  ((routers links).foldlM (fun (st : Marks × (Nat → Nat → Option Nat)) self => do
      let (marks, table) ← createTable links self st.1
      pure (marks, Function.update st.2 self table))
    (unmarked, fun _ _ => none)).map Prod.snd

/-- The routers of a map and the lines between them. -/
def topology (links : List Link) : SimpleGraph Nat :=
  SimpleGraph.fromRel (fun u v => ∃ l ∈ links, l.fromNode = u ∧ l.toNode = v)

def Connects (links : List Link) : Prop :=
  ∀ u ∈ routers links, ∀ v ∈ routers links, (topology links).Reachable u v

section Maps

variable {links : List Link} {u v : Nat}

theorem lt_slots {l : Link} (hl : l ∈ links) :
    l.fromNode < slots links ∧ l.toNode < slots links := by
  induction links with
  | nil => exact absurd hl List.not_mem_nil
  | cons m links ih =>
    have hslots : slots (m :: links) = max (max m.fromNode m.toNode + 1) (slots links) := rfl
    obtain rfl | hl := List.mem_cons.mp hl
    · omega
    · have := ih hl
      omega

theorem mem_routers : v ∈ routers links ↔ ∃ l ∈ links, l.fromNode = v ∨ l.toNode = v := by
  simp only [routers, List.mem_filter, List.mem_range, List.any_eq_true, Bool.or_eq_true,
    decide_eq_true_eq, and_iff_right_iff_imp]
  rintro ⟨l, hl, rfl | rfl⟩
  · exact (lt_slots hl).1
  · exact (lt_slots hl).2

theorem mem_routes : v ∈ routes links u ↔
    ∃ l ∈ links, l.fromNode = u ∧ l.toNode = v ∨ l.fromNode = v ∧ l.toNode = u := by
  simp only [routes, List.mem_filter, List.mem_range, List.any_eq_true, Bool.or_eq_true,
    Bool.and_eq_true, decide_eq_true_eq, and_iff_right_iff_imp]
  rintro ⟨l, hl, ⟨_, rfl⟩ | ⟨rfl, _⟩⟩
  · exact (lt_slots hl).2
  · exact (lt_slots hl).1

theorem topology_adj : (topology links).Adj u v ↔ u ≠ v ∧ v ∈ routes links u := by
  rw [topology, SimpleGraph.fromRel_adj, mem_routes]
  apply and_congr_right
  intro _
  constructor
  · rintro (⟨l, hl, h⟩ | ⟨l, hl, h⟩)
    · exact ⟨l, hl, Or.inl h⟩
    · exact ⟨l, hl, Or.inr h⟩
  · rintro ⟨l, hl, h | h⟩
    · exact Or.inl ⟨l, hl, h⟩
    · exact Or.inr ⟨l, hl, h⟩

theorem routes_routers (h : v ∈ routes links u) : u ∈ routers links ∧ v ∈ routers links := by
  obtain ⟨l, hl, ⟨hu, hv⟩ | ⟨hv, hu⟩⟩ := mem_routes.mp h
  · exact ⟨mem_routers.mpr ⟨l, hl, Or.inl hu⟩, mem_routers.mpr ⟨l, hl, Or.inr hv⟩⟩
  · exact ⟨mem_routers.mpr ⟨l, hl, Or.inr hu⟩, mem_routers.mpr ⟨l, hl, Or.inl hv⟩⟩

end Maps

section Visits

variable {links : List Link} {marks : Marks} {self next : Nat}

theorem visitNext_fold (marks : Marks) (vertexes : List Nat) (found : Option Nat × Nat) :
    ∀ r, vertexes.foldl (fun found v =>
        if !(marks v).done && (marks v).distance < found.2 then (some v, (marks v).distance)
        else found) found = r →
      (r = found ∨ ∃ v ∈ vertexes, (marks v).done = false ∧ r = (some v, (marks v).distance)) ∧
        r.2 ≤ found.2 ∧ ∀ v ∈ vertexes, (marks v).done = false → r.2 ≤ (marks v).distance := by
  induction vertexes generalizing found with
  | nil =>
    rintro r rfl
    exact ⟨Or.inl rfl, le_rfl, fun _ hv => absurd hv List.not_mem_nil⟩
  | cons v vertexes ih =>
    intro r hr
    rw [List.foldl_cons] at hr
    obtain ⟨hfrom, hle, hall⟩ := ih _ r hr
    split at hfrom
    · rename_i htake
      rw [if_pos htake] at hle
      simp only [Bool.and_eq_true, Bool.not_eq_true', decide_eq_true_eq] at htake
      refine ⟨Or.inr ?_, hle.trans htake.2.le, List.forall_mem_cons.mpr ⟨fun _ => hle, hall⟩⟩
      obtain rfl | ⟨w, hw, hfound⟩ := hfrom
      · exact ⟨v, List.mem_cons_self, htake.1, rfl⟩
      · exact ⟨w, List.mem_cons_of_mem _ hw, hfound⟩
    · rename_i hleave
      rw [if_neg hleave] at hle
      refine ⟨?_, hle, List.forall_mem_cons.mpr ⟨fun hv => ?_, hall⟩⟩
      · obtain rfl | ⟨w, hw, hfound⟩ := hfrom
        · exact Or.inl rfl
        · exact Or.inr ⟨w, List.mem_cons_of_mem _ hw, hfound⟩
      · simp only [hv, Bool.not_false, Bool.true_and, decide_eq_true_eq, not_lt] at hleave
        exact hle.trans hleave

theorem visitNext_some (vertexes : List Nat) (h : visitNext marks vertexes = some next) :
    next ∈ vertexes ∧ (marks next).done = false ∧
      ∀ v ∈ vertexes, (marks v).done = false → (marks next).distance ≤ (marks v).distance := by
  obtain ⟨hfrom, _, hall⟩ := visitNext_fold marks vertexes (none, INFINITY + 1) _ rfl
  obtain heq | ⟨v, hv, hdone, heq⟩ := hfrom
  · rw [visitNext, heq] at h
    cases h
  · rw [visitNext, heq] at h
    obtain rfl := Option.some.inj h
    rw [heq] at hall
    exact ⟨hv, hdone, hall⟩

theorem visitNext_none {vertexes : List Nat} (h : visitNext marks vertexes = none)
    (hle : ∀ v ∈ vertexes, (marks v).distance ≤ INFINITY) :
    ∀ v ∈ vertexes, (marks v).done = true := by
  obtain ⟨hfrom, _, hall⟩ := visitNext_fold marks vertexes (none, INFINITY + 1) _ rfl
  obtain heq | ⟨v, _, _, heq⟩ := hfrom
  · intro v hv
    rw [heq] at hall
    by_contra hdone
    have hfar := hall v hv (Bool.eq_false_iff.mpr hdone)
    have hnear := hle v hv
    dsimp only at hfar
    omega
  · rw [visitNext, heq] at h
    cases h

theorem relax_apply (marks : Marks) (next edge v : Nat) : relax next marks edge v =
    if v = edge ∧ (marks next).distance + 1 < (marks v).distance then
      { marks v with distance := (marks next).distance + 1, predecessor := some next }
    else marks v := by
  unfold relax
  by_cases hv : v = edge
  · subst hv
    by_cases hlt : (marks next).distance + 1 < (marks v).distance
    · simp [hlt]
    · simp [hlt]
  · dsimp only
    split
    · simp [hv]
    · simp [hv]

theorem relax_fold (marks : Marks) (next : Nat) (edges : List Nat) (v : Nat) :
    edges.foldl (relax next) marks v =
      if v ∈ edges ∧ (marks next).distance + 1 < (marks v).distance then
        { marks v with distance := (marks next).distance + 1, predecessor := some next }
      else marks v := by
  induction edges generalizing marks with
  | nil => simp
  | cons edge edges ih =>
    have hself : (relax next marks edge next).distance = (marks next).distance := by
      rw [relax_apply, if_neg (by omega)]
    rw [List.foldl_cons, ih, hself, relax_apply]
    by_cases hv : v = edge
    · subst hv
      by_cases hlt : (marks next).distance + 1 < (marks v).distance
      · simp [hlt]
      · simp [hlt]
    · simp [hv]

end Visits

/-- What a search knows: the neighbours of the routers that are done, and how
a router was reached. -/
structure Searched (links : List Link) (origin : Nat) (marks : Marks) : Prop where
  bounded : ∀ v ∈ routers links, (marks v).distance ≤ INFINITY
  source : (marks origin).distance = 0
  reached : ∀ v ∈ routers links, v ≠ origin → (marks v).distance < INFINITY →
    ∃ p, (marks v).predecessor = some p ∧ (topology links).Adj p v ∧ (marks p).done = true ∧
      (marks p).distance + 1 = (marks v).distance
  frontier : ∀ u ∈ routers links, (marks u).done = true → ∀ v ∈ routes links u,
    (marks v).distance ≤ (marks u).distance + 1
  nearest : ∀ u ∈ routers links, (marks u).done = true → ∀ v ∈ routers links,
    (marks v).done = false → (marks u).distance ≤ (marks v).distance

def toVisit (links : List Link) (marks : Marks) : Finset Nat :=
  (routers links).toFinset.filter (fun v => (marks v).done = false)

section Searches

variable {links : List Link} {marks : Marks} {self next : Nat}

theorem setUp_searched (links : List Link) (hself : self ∈ routers links) (marks : Marks) :
    Searched links self (setUp (routers links) self marks) := by
  have hdone : ∀ v ∈ routers links, (setUp (routers links) self marks v).done = false := by
    intro v hv
    rw [setUp, if_pos hv]
  refine ⟨?_, ?_, ?_, ?_, ?_⟩
  · intro v hv
    rw [setUp, if_pos hv]
    dsimp only
    split
    · exact Nat.zero_le _
    · exact le_rfl
  · rw [setUp, if_pos hself]
    exact if_pos rfl
  · intro v hv hne hlt
    rw [setUp, if_pos hv] at hlt
    dsimp only at hlt
    rw [if_neg hne] at hlt
    exact absurd hlt (lt_irrefl _)
  · intro u hu hd
    exact absurd ((hdone u hu).symm.trans hd) Bool.false_ne_true
  · intro u hu hd
    exact absurd ((hdone u hu).symm.trans hd) Bool.false_ne_true

theorem visit_apply (h : visitNext marks (routers links) = some next) (v : Nat) :
    (visit links marks v).done = (if v = next then true else (marks v).done) ∧
      (visit links marks v).distance =
        (if v ∈ routes links next ∧ (marks next).distance + 1 < (marks v).distance then
          (marks next).distance + 1 else (marks v).distance) ∧
      (visit links marks v).predecessor =
        (if v ∈ routes links next ∧ (marks next).distance + 1 < (marks v).distance then
          some next else (marks v).predecessor) := by
  rw [visit, h]
  dsimp only
  by_cases hv : v = next
  · subst hv
    rw [Function.update_self, relax_fold, if_neg (by omega)]
    simp
  · rw [Function.update_of_ne hv, relax_fold, if_neg hv]
    split
    · exact ⟨rfl, rfl, rfl⟩
    · exact ⟨rfl, rfl, rfl⟩

theorem visit_settled (hs : Searched links self marks)
    (h : visitNext marks (routers links) = some next) {u : Nat} (hu : u ∈ routers links)
    (hd : (marks u).done = true) : (visit links marks u).distance = (marks u).distance := by
  obtain ⟨hnext, hopen, _⟩ := visitNext_some (routers links) h
  have hle := hs.nearest u hu hd next hnext hopen
  rw [(visit_apply h u).2.1, if_neg (by omega)]

theorem visit_lower (h : visitNext marks (routers links) = some next) (v : Nat) :
    (visit links marks v).distance ≤ (marks v).distance := by
  rw [(visit_apply h v).2.1]
  split
  · omega
  · exact le_rfl

theorem visit_done (h : visitNext marks (routers links) = some next) {u : Nat}
    (hd : (visit links marks u).done = true) : u = next ∨ (marks u).done = true := by
  rw [(visit_apply h u).1] at hd
  split at hd
  · exact Or.inl ‹_›
  · exact Or.inr hd

theorem visit_final (hs : Searched links self marks)
    (h : visitNext marks (routers links) = some next) {u : Nat} (hu : u ∈ routers links)
    (hd : (visit links marks u).done = true) :
    (visit links marks u).distance = (marks u).distance := by
  obtain rfl | hd := visit_done h hd
  · rw [(visit_apply h u).2.1, if_neg (by omega)]
  · exact visit_settled hs h hu hd

theorem visit_reached (hs : Searched links self marks)
    (h : visitNext marks (routers links) = some next) {v : Nat} (hv : v ∈ routers links)
    (hne : v ≠ self) (hlt : (visit links marks v).distance < INFINITY) :
    ∃ p, (visit links marks v).predecessor = some p ∧ (topology links).Adj p v ∧
      (visit links marks p).done = true ∧
      (visit links marks p).distance + 1 = (visit links marks v).distance := by
  have hnext : (visit links marks next).done = true := by
    rw [(visit_apply h next).1, if_pos rfl]
  rw [(visit_apply h v).2.1] at hlt ⊢
  rw [(visit_apply h v).2.2]
  split
  · rename_i hrelaxed
    have hadj : (topology links).Adj next v := by
      refine topology_adj.mpr ⟨?_, hrelaxed.1⟩
      rintro rfl
      omega
    exact ⟨next, rfl, hadj, hnext,
      by rw [visit_final hs h (visitNext_some (routers links) h).1 hnext]⟩
  · rename_i hkept
    rw [if_neg hkept] at hlt
    obtain ⟨p, hp, hadj, hd, hstep⟩ := hs.reached v hv hne hlt
    have hpr := (routes_routers (topology_adj.mp hadj).2).1
    refine ⟨p, hp, hadj, ?_, by rw [visit_settled hs h hpr hd, hstep]⟩
    rw [(visit_apply h p).1, hd, ite_self]

theorem visit_searched (hs : Searched links self marks) :
    Searched links self (visit links marks) := by
  cases h : visitNext marks (routers links) with
  | none =>
    rw [visit, h]
    exact hs
  | some next =>
    obtain ⟨hnext, hopen, hmin⟩ := visitNext_some (routers links) h
    refine ⟨fun v hv => (visit_lower h v).trans (hs.bounded v hv), ?_,
      fun v hv hne hlt => visit_reached hs h hv hne hlt, ?_, ?_⟩
    · exact Nat.le_zero.mp (hs.source ▸ visit_lower h self)
    · intro u hu hd v hv
      rw [visit_final hs h hu hd]
      obtain rfl | hd := visit_done h hd
      · rw [(visit_apply h v).2.1]
        split
        · exact le_rfl
        · rename_i hkept
          rw [not_and] at hkept
          have := hkept hv
          omega
      · exact (visit_lower h v).trans (hs.frontier u hu hd v hv)
    · intro u hu hd v hv hn
      rw [(visit_apply h v).1] at hn
      split at hn
      · cases hn
      · rw [visit_final hs h hu hd, (visit_apply h v).2.1]
        obtain rfl | hd := visit_done h hd
        · split
          · omega
          · exact hmin v hv hn
        · have hle := hs.nearest u hu hd next hnext hopen
          split
          · omega
          · exact hs.nearest u hu hd v hv hn

theorem visit_toVisit (hs : Searched links self marks) :
    (toVisit links (visit links marks)).card ≤ (toVisit links marks).card - 1 := by
  cases h : visitNext marks (routers links) with
  | none =>
    have hnone := visitNext_none h hs.bounded
    have hempty : toVisit links marks = ∅ := by
      apply Finset.filter_false_of_mem
      intro v hv
      rw [hnone v (List.mem_toFinset.mp hv)]
      exact Bool.false_ne_true ∘ Eq.symm
    rw [visit, h]
    dsimp only
    rw [hempty]
    exact Nat.zero_le _
  | some next =>
    obtain ⟨hnext, hopen, _⟩ := visitNext_some (routers links) h
    have herase : toVisit links (visit links marks) = (toVisit links marks).erase next := by
      ext v
      rw [Finset.mem_erase, toVisit, toVisit, Finset.mem_filter, Finset.mem_filter,
        (visit_apply h v).1]
      by_cases hv : v = next
      · simp [hv]
      · simp [hv]
    rw [herase, Finset.card_erase_of_mem]
    exact Finset.mem_filter.mpr ⟨List.mem_toFinset.mpr hnext, hopen⟩

theorem search_searched (hself : self ∈ routers links) (marks : Marks) :
    Searched links self (search links self marks) ∧
      ∀ v ∈ routers links, (search links self marks v).done = true := by
  have hvisits : ∀ (l : List Nat) (marks : Marks), Searched links self marks →
      Searched links self (l.foldl (fun marks _ => visit links marks) marks) ∧
        (toVisit links (l.foldl (fun marks _ => visit links marks) marks)).card ≤
          (toVisit links marks).card - l.length := by
    intro l
    induction l with
    | nil => exact fun marks hs => ⟨hs, le_rfl⟩
    | cons v l ih =>
      intro marks hs
      obtain ⟨hsearched, hcard⟩ := ih _ (visit_searched hs)
      refine ⟨hsearched, hcard.trans ?_⟩
      have hless := visit_toVisit hs
      rw [List.length_cons]
      omega
  obtain ⟨hs, hcard⟩ := hvisits (routers links) _ (setUp_searched links hself marks)
  refine ⟨hs, ?_⟩
  have hall : (toVisit links (setUp (routers links) self marks)).card ≤ (routers links).length :=
    (Finset.card_filter_le _ _).trans (List.toFinset_card_le _)
  have hzero : toVisit links (search links self marks) = ∅ := by
    apply Finset.card_eq_zero.mp
    rw [search]
    omega
  intro v hv
  by_contra hd
  have hmem : v ∈ toVisit links (search links self marks) :=
    Finset.mem_filter.mpr ⟨List.mem_toFinset.mpr hv, Bool.eq_false_iff.mpr hd⟩
  rw [hzero] at hmem
  exact absurd hmem (Finset.notMem_empty v)

end Searches

section Tables

variable {links : List Link} {self : Nat}

/-- What a search has found out is how far every router is. -/
theorem search_distance (hself : self ∈ routers links) (hc : Connects links)
    (hsmall : (routers links).length ≤ INFINITY) (marks : Marks) :
    ∀ v ∈ routers links, (search links self marks v).distance = (topology links).dist self v ∧
      (search links self marks v).distance < (routers links).length := by
  obtain ⟨hs, hdone⟩ := search_searched hself marks
  have hedge : ∀ u v, (topology links).Adj u v →
      (search links self marks v).distance ≤ (search links self marks u).distance + 1 := by
    intro u v huv
    have hroute := (topology_adj.mp huv).2
    have hu := (routes_routers hroute).1
    exact hs.frontier u hu (hdone u hu) v hroute
  have hin : ∀ v, (topology links).Reachable self v → v ∈ routers links := by
    rintro v ⟨p⟩
    cases p.reverse with
    | nil => exact hself
    | cons huv _ => exact (routes_routers (topology_adj.mp huv).2).1
  have hnear : ∀ v ∈ routers links, (search links self marks v).distance ≤
      (topology links).dist self v ∧ (topology links).dist self v < (routers links).length := by
    intro v hv
    obtain ⟨p, hp⟩ := (hc self hself v hv).exists_walk_length_eq_dist
    refine ⟨?_, dist_lt_length hin (hc self hself v hv)⟩
    rw [← hp]
    exact label_le_length (fun v => (search links self marks v).distance) hs.source hedge p
  intro v hv
  obtain ⟨hle, hlt⟩ := hnear v hv
  refine ⟨le_antisymm hle ?_, by omega⟩
  refine dist_le_label (fun v => (search links self marks v).distance)
    (P := (· ∈ routers links)) ?_ ?_ hv
  · intro u hu h0
    by_contra hne
    obtain ⟨h1, h2⟩ := hnear u hu
    obtain ⟨_, _, _, _, hstep⟩ := hs.reached u hu hne (by omega)
    omega
  · intro u hu h0
    obtain ⟨h1, h2⟩ := hnear u hu
    have hne : u ≠ self := by
      rintro rfl
      exact h0 hs.source
    obtain ⟨w, _, hadj, _, hstep⟩ := hs.reached u hu hne (by omega)
    exact ⟨w, (routes_routers (topology_adj.mp hadj).2).1, hadj, hstep⟩

/-- The walk back ends at a neighbour that is on a shortest way. -/
theorem startRoute_spec (hself : self ∈ routers links) (hc : Connects links)
    (hsmall : (routers links).length ≤ INFINITY) (marks : Marks) (fuel v : Nat)
    (hv : v ∈ routers links) (hne : v ≠ self)
    (hfuel : (topology links).dist self v ≤ fuel) :
    ∃ start, startRoute (search links self marks) self fuel v = some start ∧
      (topology links).Adj self start ∧
      (topology links).dist start v + 1 ≤ (topology links).dist self v := by
  have hdistance := search_distance hself hc hsmall marks
  obtain ⟨hs, _⟩ := search_searched hself marks
  induction fuel generalizing v with
  | zero =>
    have hpos := (hc self hself v hv).pos_dist_of_ne (Ne.symm hne)
    omega
  | succ fuel ih =>
    obtain ⟨heq, hlt⟩ := hdistance v hv
    obtain ⟨p, hp, hadj, _, hstep⟩ := hs.reached v hv hne (by omega)
    have hpr := (routes_routers (topology_adj.mp hadj).2).1
    have hfar := (hdistance p hpr).1
    rw [startRoute, Option.bind_eq_bind, hp, Option.bind_some]
    by_cases hps : p = self
    · subst hps
      rw [if_pos rfl]
      refine ⟨v, rfl, hadj, ?_⟩
      rw [SimpleGraph.dist_self]
      omega
    · rw [if_neg hps]
      obtain ⟨start, hstart, hfirst, hle⟩ := ih p hpr hps (by omega)
      refine ⟨start, hstart, hfirst, ?_⟩
      have htriangle := hadj.reachable.dist_triangle_right start
      rw [SimpleGraph.dist_eq_one_iff_adj.mpr hadj] at htriangle
      omega

/-- A table that leads to every other router over a neighbour that is nearer
to it. -/
def Leads (links : List Link) (self : Nat) (table : Nat → Option Nat) : Prop :=
  ∀ v ∈ routers links, v ≠ self → ∃ start, table v = some start ∧
    (topology links).Adj self start ∧
    (topology links).dist start v + 1 = (topology links).dist self v

theorem createTable_leads (hself : self ∈ routers links) (hc : Connects links)
    (hsmall : (routers links).length ≤ INFINITY) (marks : Marks) :
    ∃ marks' table, createTable links self marks = some (marks', table) ∧
      Leads links self table := by
  have hroute : ∀ v ∈ routers links, v ≠ self → ∃ start,
      startRoute (search links self marks) self (routers links).length v = some start ∧
        (topology links).Adj self start ∧
        (topology links).dist start v + 1 = (topology links).dist self v := by
    intro v hv hne
    obtain ⟨heq, hlt⟩ := search_distance hself hc hsmall marks v hv
    obtain ⟨start, hstart, hadj, hle⟩ := startRoute_spec hself hc hsmall marks
      (routers links).length v hv hne (by omega)
    exact ⟨start, hstart, hadj, dist_succ hadj hle⟩
  refine ⟨_, _, if_pos ?_, ?_⟩
  · rw [List.all_eq_true]
    intro v hv
    by_cases hne : v = self
    · simp [hne]
    · obtain ⟨start, hstart, hadj, _⟩ := hroute v hv hne
      simp [hstart, (topology_adj.mp hadj).2]
  · intro v hv hne
    obtain ⟨start, hstart, hadj, hdist⟩ := hroute v hv hne
    exact ⟨start, (if_pos ⟨hv, hne⟩).trans hstart, hadj, hdist⟩

theorem createTables_leads (hc : Connects links) (hsmall : (routers links).length ≤ INFINITY) :
    ∃ tables, createTables links = some tables ∧
      ∀ self ∈ routers links, Leads links self (tables self) := by
  have hfold : ∀ (l : List Nat), (∀ v ∈ l, v ∈ routers links) →
      ∀ (marks : Marks) (tables : Nat → Nat → Option Nat), ∃ marks' tables',
        l.foldlM (fun (st : Marks × (Nat → Nat → Option Nat)) self => do
            let (marks, table) ← createTable links self st.1
            pure (marks, Function.update st.2 self table)) (marks, tables) =
          some (marks', tables') ∧
        ∀ self, self ∈ l ∨ Leads links self (tables self) → Leads links self (tables' self) := by
    intro l
    induction l with
    | nil =>
      intro _ marks tables
      refine ⟨marks, tables, rfl, ?_⟩
      rintro self (hm | hleads)
      · exact absurd hm List.not_mem_nil
      · exact hleads
    | cons v l ih =>
      intro hl marks tables
      obtain ⟨hv, hl⟩ := List.forall_mem_cons.mp hl
      obtain ⟨marks₁, table, hmade, hleads⟩ := createTable_leads hv hc hsmall marks
      obtain ⟨marks', tables', hrest, hall⟩ := ih hl marks₁ (Function.update tables v table)
      refine ⟨marks', tables', ?_, ?_⟩
      · rw [List.foldlM_cons, hmade]
        exact hrest
      · intro self hself
        apply hall
        by_cases hm : self = v
        · subst hm
          rw [Function.update_self]
          exact Or.inr hleads
        · rw [Function.update_of_ne hm]
          exact hself.imp_left fun h => (List.mem_cons.mp h).resolve_left hm
  obtain ⟨marks', tables, hmade, hall⟩ := hfold (routers links) (fun _ hv => hv) unmarked
    (fun _ _ => none)
  exact ⟨tables, by rw [createTables, hmade]; rfl, fun self hself => hall self (Or.inl hself)⟩

/-- Only what can be reached is given a predecessor. -/
structure Confined (links : List Link) (origin : Nat) (marks : Marks) : Prop where
  near : ∀ v ∈ routers links, (marks v).distance < INFINITY → (topology links).Reachable origin v
  known : ∀ v, (marks v).predecessor ≠ none → (topology links).Reachable origin v

theorem visit_confined {marks : Marks} (hs : Searched links self marks)
    (h : Confined links self marks) : Confined links self (visit links marks) := by
  cases hn : visitNext marks (routers links) with
  | none =>
    rw [visit, hn]
    exact h
  | some next =>
    have hnext := (visitNext_some (routers links) hn).1
    have hrelaxed : ∀ v, v ∈ routes links next ∧ (marks next).distance + 1 < (marks v).distance →
        (topology links).Reachable self v := by
      rintro v ⟨hv, hlt⟩
      have hle := hs.bounded v (routes_routers hv).2
      have hadj : (topology links).Adj next v := by
        refine topology_adj.mpr ⟨?_, hv⟩
        rintro rfl
        omega
      exact (h.near next hnext (by omega)).trans hadj.reachable
    refine ⟨?_, ?_⟩
    · intro v hv hlt
      rw [(visit_apply hn v).2.1] at hlt
      split at hlt
      · exact hrelaxed v ‹_›
      · exact h.near v hv hlt
    · intro v hp
      rw [(visit_apply hn v).2.2] at hp
      split at hp
      · exact hrelaxed v ‹_›
      · exact h.known v hp

theorem search_confined (hself : self ∈ routers links) :
    Confined links self (search links self unmarked) := by
  have hvisits : ∀ (l : List Nat) (marks : Marks), Searched links self marks →
      Confined links self marks →
        Confined links self (l.foldl (fun marks _ => visit links marks) marks) := by
    intro l
    induction l with
    | nil => exact fun _ _ h => h
    | cons v l ih => exact fun _ hs h => ih _ (visit_searched hs) (visit_confined hs h)
  apply hvisits _ _ (setUp_searched links hself unmarked)
  refine ⟨?_, ?_⟩
  · intro v hv hlt
    rw [setUp, if_pos hv] at hlt
    dsimp only at hlt
    split at hlt
    · rename_i heq
      rw [heq]
    · exact absurd hlt (lt_irrefl _)
  · intro v hp
    have hnone : (setUp (routers links) self unmarked v).predecessor = none := by
      rw [setUp]
      split <;> rfl
    exact absurd hnone hp

theorem createTable_first {v : Nat} (hself : self ∈ routers links) (hv : v ∈ routers links)
    (hr : ¬ (topology links).Reachable self v) : createTable links self unmarked = none := by
  have hne : v ≠ self := by
    rintro rfl
    exact hr (SimpleGraph.Reachable.refl v)
  have hnone : (search links self unmarked v).predecessor = none := by
    by_contra hp
    exact hr ((search_confined hself).known v hp)
  have hroute : ∀ fuel, startRoute (search links self unmarked) self fuel v = none := by
    intro fuel
    cases fuel with
    | zero => rfl
    | succ fuel =>
      rw [startRoute, hnone]
      rfl
  apply if_neg
  intro hall
  have h := List.all_eq_true.mp hall v hv
  simp [hroute, hne] at h

theorem createTables_connects (hmade : (createTables links).isSome) : Connects links := by
  intro u hu v hv
  cases hrouters : routers links with
  | nil =>
    rw [hrouters] at hu
    exact absurd hu List.not_mem_nil
  | cons self rest =>
    have hself : self ∈ routers links := hrouters ▸ List.mem_cons_self
    have hfirst : ∀ w ∈ routers links, (topology links).Reachable self w := by
      intro w hw
      by_contra hr
      have hnone := createTable_first hself hw hr
      rw [createTables, hrouters, List.foldlM_cons, hnone] at hmade
      exact Bool.false_ne_true hmade
    exact (hfirst u hu).symm.trans (hfirst v hv)

theorem made_leads (hsmall : (routers links).length ≤ INFINITY) {tables : Nat → Nat → Option Nat}
    (hmade : createTables links = some tables) :
    ∀ self ∈ routers links, Leads links self (tables self) := by
  have hc : Connects links := createTables_connects (by rw [hmade]; rfl)
  obtain ⟨tables', hmade', hleads⟩ := createTables_leads hc hsmall
  rw [hmade] at hmade'
  rw [Option.some.inj hmade']
  exact hleads

/-- The tables are made exactly when every router can be reached from every
other, and then each leads to every other router on a shortest way. -/
theorem createTables_iff (links : List Link) (hsmall : (routers links).length ≤ INFINITY) :
    (Connects links ↔ (createTables links).isSome) ∧
      ∀ tables, createTables links = some tables →
        ∀ self ∈ routers links, Leads links self (tables self) := by
  refine ⟨⟨fun hc => ?_, createTables_connects⟩, fun _ => made_leads hsmall⟩
  obtain ⟨tables, hmade, _⟩ := createTables_leads hc hsmall
  rw [hmade]
  rfl

def topoMap : List Link :=
  [⟨1, 2, 30000, 5 / 100, 10⟩, ⟨4, 2, 10000, 3 / 100, 10⟩, ⟨2, 3, 50000, 4 / 100, 10⟩,
    ⟨3, 5, 30000, 2 / 100, 10⟩, ⟨3, 6, 10000, 2 / 100, 10⟩, ⟨3, 7, 10000, 2 / 100, 10⟩,
    ⟨1, 8, 20000, 2 / 100, 50⟩, ⟨8, 9, 30000, 3 / 100, 10⟩, ⟨9, 3, 40000, 5 / 100, 10⟩]

theorem createTables_topoMap :
    (Connects topoMap ↔ (createTables topoMap).isSome) ∧
      ∀ tables, createTables topoMap = some tables →
        ∀ self ∈ routers topoMap, Leads topoMap self (tables self) :=
  createTables_iff topoMap (by decide)

example : (createTables topoMap).map (fun tables => (tables 7 9, tables 4 8)) =
    some (some 3, some 2) := by
  decide +kernel

end Tables

end P2PCC.Router

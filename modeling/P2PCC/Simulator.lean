import Mathlib.Algebra.BigOperators.Group.Finset.Basic
import Mathlib.Algebra.Order.BigOperators.Group.List
import Mathlib.Data.Multiset.AddSub
import Mathlib.Data.Finset.Prod
import P2PCC.Lib.Runs
import P2PCC.Lib.Words
import P2PCC.Packet
import P2PCC.Router

namespace P2PCC.Simulator

open P2PCC.Lib.Runs P2PCC.Lib.Words P2PCC.Packet P2PCC.Router

/-- `unpack("N", $pkt)`. -/
def nodeID (pkt : List Byte) : Nat :=
  (word (pkt.getD 0 0) (pkt.getD 1 0) (pkt.getD 2 0) (pkt.getD 3 0)).toNat

/-- Where a datagram under a `spiffy_header` goes. The list of nodes is by
address and port; no address is taken for the host of the router. -/
def destination {κ : Type} (nodes : BitVec 32 → BitVec 16 → Option κ) (pkt : List Byte) :
    Option κ :=
  let destIP := word (pkt.getD 8 0) (pkt.getD 9 0) (pkt.getD 10 0) (pkt.getD 11 0)
  nodes (if destIP = 0 then 0x7f000001 else destIP) (word16 (pkt.getD 14 0) (pkt.getD 15 0))

/-- A datagram, and what the program does not keep: the router where it came
in, and how many routers have passed it on. -/
structure Parcel where
  pkt : List Byte
  entry : Nat
  hops : Nat

/-- Times are exact here. -/
structure NSQueue where
  rate : Nat
  latency : ℚ
  max : Nat
  size : Int
  dropped : Nat
  queue : List (Parcel × ℚ)

def NSQueue.new (l : Link) : NSQueue :=
  { rate := l.ratebps / 8
    latency := l.latency
    max := if l.queuemax = 0 then 10 else l.queuemax
    size := 0
    dropped := 0
    queue := [] }

/-- A full queue drops the datagram before anything is divided by the rate;
`none` where the program dies of a rate of 0. -/
def NSQueue.enQ (q : NSQueue) (parcel : Parcel) (vtime : ℚ) : Option NSQueue :=
  if q.queue.length ≥ q.max then some { q with dropped := q.dropped + 1 }
  else if q.rate = 0 then none
  else
    let packSize := parcel.pkt.length
    let txTime := q.latency + packSize / q.rate + vtime
    let txTime := if q.queue.length > 0 then txTime + q.size / q.rate else txTime
    some { q with queue := q.queue ++ [(parcel, txTime)], size := q.size + packSize }

/-- The queues by router and neighbour, what each router's socket has sent, and
the datagrams that came in and those that were given up. -/
structure State where
  queues : Nat × Nat → NSQueue
  bytesSent : Nat → Int
  sent : List (Nat × Parcel)
  taken : List Parcel
  lost : List Parcel

def addRoutes (queues : Nat × Nat → NSQueue) (l : Link) : Nat × Nat → NSQueue :=
  Function.update (Function.update queues (l.toNode, l.fromNode) (.new l)) (l.fromNode, l.toNode)
    (.new l)

def start (links : List Link) : State :=
  { queues := links.foldl addRoutes fun _ => ⟨0, 0, 0, 0, 0, []⟩
    bytesSent := fun _ => 0
    sent := []
    taken := []
    lost := [] }

section Definitions

variable (links : List Link) (tables : Nat → Nat → Option Nat)
  (nodes : BitVec 32 → BitVec 16 → Option Nat)

/-- `NSRouter::recv` of a router; `none` where the program dies. -/
def recv (self : Nat) (parcel : Parcel) (vtime : ℚ) (s : State) : Option State :=
  match destination nodes parcel.pkt with
  | none => some { s with lost := parcel :: s.lost }
  | some dest =>
    if dest = self then
      some { s with
        sent := (self, parcel) :: s.sent
        bytesSent := Function.update s.bytesSent self (s.bytesSent self + (parcel.pkt.length - 16)) }
    else
      match tables self dest with
      | none => none
      | some hop =>
        let q := s.queues (self, hop)
        (q.enQ parcel vtime).map fun queue =>
          { s with
            queues := Function.update s.queues (self, hop) queue
            lost := if q.queue.length ≥ q.max then parcel :: s.lost else s.lost }

/-- A datagram that arrives, and a pass of the loop in `NSRouter::run` over the
queue of a router for one of its neighbours, with the clock as it is read. -/
inductive Event where
  | packet (pkt : List Byte) (vtime : ℚ)
  | due (self hop : Nat) (now vtime : ℚ)

def step (s : State) : Event → Option State
  | .packet pkt vtime =>
    if nodeID pkt ∈ routers links then
      let parcel : Parcel := ⟨pkt.take 2048, nodeID pkt, 0⟩
      recv tables nodes (nodeID pkt) parcel vtime { s with taken := parcel :: s.taken }
    else some s
  | .due self hop now vtime =>
    match (s.queues (self, hop)).queue with
    | [] => some s
    | (parcel, pTime) :: rest =>
      if pTime ≤ now then
        let q := s.queues (self, hop)
        let q := { q with queue := rest, size := q.size - parcel.pkt.length }
        recv tables nodes hop { parcel with hops := parcel.hops + 1 } vtime
          { s with queues := Function.update s.queues (self, hop) q }
      else some s

def simulate (events : List Event) : Option State :=
  run (fun s event => s.bind fun s => step links tables nodes s event) (some (start links)) events

end Definitions

/-- A parcel in a queue for a neighbour is on a shortest way. -/
structure OnWay (links : List Link) (nodes : BitVec 32 → BitVec 16 → Option Nat) (hop : Nat)
    (parcel : Parcel) : Prop where
  listed : hop ∈ routers links
  way : ∃ dest, destination nodes parcel.pkt = some dest ∧
    parcel.hops + 1 + (topology links).dist hop dest = (topology links).dist parcel.entry dest

/-- A queue counts its bytes and does not outgrow its limit. -/
structure NSQueue.Sound (q : NSQueue) : Prop where
  size : q.size = (q.queue.map (fun e => (e.1.pkt.length : Int))).sum
  full : q.queue.length ≤ q.max

def Parcel.origin (parcel : Parcel) : List Byte × Nat := (parcel.pkt, parcel.entry)

def NSQueue.waiting (q : NSQueue) : Multiset (List Byte × Nat) :=
  (q.queue.map (fun e => e.1.origin) : List (List Byte × Nat))

/-- All that waits in the queues between routers. -/
def waiting (links : List Link) (queues : Nat × Nat → NSQueue) : Multiset (List Byte × Nat) :=
  ∑ k ∈ (routers links).toFinset ×ˢ (routers links).toFinset, (queues k).waiting

/-- The queue of a router for a neighbour. -/
structure NSQueue.Kept (links : List Link) (nodes : BitVec 32 → BitVec 16 → Option Nat)
    (k : Nat × Nat) (q : NSQueue) : Prop where
  onWay : ∀ e ∈ q.queue, k.1 ∈ routers links ∧ OnWay links nodes k.2 e.1
  sound : q.Sound
  rate : k.2 ∈ routes links k.1 → 0 < q.rate

/-- What holds while the parcels in hand are in no queue. -/
structure Running (links : List Link) (nodes : BitVec 32 → BitVec 16 → Option Nat)
    (hand : Multiset (List Byte × Nat)) (s : State) : Prop where
  queues : ∀ k, (s.queues k).Kept links nodes k
  delivered : ∀ x ∈ s.sent, destination nodes x.2.pkt = some x.1 ∧
    x.2.hops = (topology links).dist x.2.entry x.1
  conserved : waiting links s.queues + (s.sent.map (fun x => x.2.origin) : List _) +
    (s.lost.map Parcel.origin : List _) + hand =
      (s.taken.map Parcel.origin : List (List Byte × Nat))

section Queues

variable {links : List Link} {nodes : BitVec 32 → BitVec 16 → Option Nat} {k : Nat × Nat}
  {q q' : NSQueue} {parcel : Parcel} {vtime : ℚ}

theorem enQ_some (hrate : 0 < q.rate) (parcel : Parcel) (vtime : ℚ) :
    ∃ q', q.enQ parcel vtime = some q' := by
  rw [NSQueue.enQ, if_neg hrate.ne']
  split
  · exact ⟨_, rfl⟩
  · exact ⟨_, rfl⟩

/-- What a queue does with a datagram. -/
theorem enQ_cases (h : q.enQ parcel vtime = some q') :
    q.max ≤ q.queue.length ∧ q' = { q with dropped := q.dropped + 1 } ∨
      q.queue.length < q.max ∧ ∃ txTime, q' =
        { q with queue := q.queue ++ [(parcel, txTime)], size := q.size + parcel.pkt.length } := by
  rw [NSQueue.enQ] at h
  split at h
  · rename_i hfull
    exact Or.inl ⟨hfull, (Option.some.inj h).symm⟩
  · rename_i hroom
    split at h
    · cases h
    · exact Or.inr ⟨not_le.mp hroom, _, (Option.some.inj h).symm⟩

theorem enQ_rate (h : q.enQ parcel vtime = some q') : q'.rate = q.rate := by
  obtain ⟨_, rfl⟩ | ⟨_, _, rfl⟩ := enQ_cases h
  · rfl
  · rfl

theorem enQ_mem {e : Parcel × ℚ} (h : q.enQ parcel vtime = some q') (he : e ∈ q'.queue) :
    e ∈ q.queue ∨ parcel = e.1 := by
  obtain ⟨_, rfl⟩ | ⟨_, txTime, rfl⟩ := enQ_cases h
  · exact Or.inl he
  · obtain he | he := List.mem_append.mp he
    · exact Or.inl he
    · rw [List.mem_singleton.mp he]
      exact Or.inr rfl

theorem enQ_sound (hq : q.Sound) (h : q.enQ parcel vtime = some q') : q'.Sound := by
  obtain ⟨_, rfl⟩ | ⟨hroom, txTime, rfl⟩ := enQ_cases h
  · exact ⟨hq.size, hq.full⟩
  · refine ⟨?_, ?_⟩
    · dsimp only
      rw [hq.size, List.map_append, List.sum_append]
      simp
    · dsimp only
      rw [List.length_append, List.length_singleton]
      exact hroom

theorem enQ_kept (hq : q.Kept links nodes k) (hself : k.1 ∈ routers links)
    (hway : OnWay links nodes k.2 parcel) (h : q.enQ parcel vtime = some q') :
    q'.Kept links nodes k := by
  refine ⟨fun e he => ?_, enQ_sound hq.sound h, fun hroute => ?_⟩
  · obtain he | rfl := enQ_mem h he
    · exact hq.onWay e he
    · exact ⟨hself, hway⟩
  · rw [enQ_rate h]
    exact hq.rate hroute

theorem pop_sound {pTime : ℚ} {rest : List (Parcel × ℚ)} (hq : q.Sound)
    (hqueue : q.queue = (parcel, pTime) :: rest) :
    ({ q with queue := rest, size := q.size - parcel.pkt.length } : NSQueue).Sound := by
  obtain ⟨hsize, hfull⟩ := hq
  rw [hqueue] at hsize hfull
  refine ⟨?_, ?_⟩
  · dsimp only
    rw [hsize, List.map_cons, List.sum_cons, add_sub_cancel_left]
  · rw [List.length_cons] at hfull
    exact Nat.le_of_succ_le hfull

theorem pop_kept {pTime : ℚ} {rest : List (Parcel × ℚ)} (hq : q.Kept links nodes k)
    (hqueue : q.queue = (parcel, pTime) :: rest) :
    NSQueue.Kept links nodes k
      { q with queue := rest, size := q.size - parcel.pkt.length } := by
  refine ⟨fun e he => hq.onWay e ?_, pop_sound hq.sound hqueue, hq.rate⟩
  rw [hqueue]
  exact List.mem_cons_of_mem _ he

theorem enQ_waiting (h : q.enQ parcel vtime = some q') (lost : List Parcel) :
    q'.waiting +
        ((if q.queue.length ≥ q.max then parcel :: lost else lost).map Parcel.origin : List _) =
      q.waiting + ((parcel :: lost).map Parcel.origin : List (List Byte × Nat)) := by
  obtain ⟨hfull, rfl⟩ | ⟨hroom, txTime, rfl⟩ := enQ_cases h
  · rw [if_pos hfull]
    rfl
  · rw [if_neg (not_le.mpr hroom), NSQueue.waiting, NSQueue.waiting, List.map_append,
      ← Multiset.coe_add, add_assoc]
    rfl

theorem waiting_pop {pTime : ℚ} {rest : List (Parcel × ℚ)}
    (hqueue : q.queue = (parcel, pTime) :: rest) : q.waiting = {parcel.origin} +
      NSQueue.waiting { q with queue := rest, size := q.size - parcel.pkt.length } := by
  rw [NSQueue.waiting, hqueue, List.map_cons, ← Multiset.cons_coe, ← Multiset.singleton_add]
  rfl

theorem exchange {M : Type} [AddCancelCommMonoid M] {w w' q q' given lost lost' sent : M}
    (hput : q' + lost' = q + (given + lost)) (hqueues : w' + q = w + q') :
    w' + sent + lost' + 0 = w + sent + lost + given := by
  apply add_right_cancel (b := q)
  calc
    w' + sent + lost' + 0 + q = w' + q + (sent + lost') := by
      rw [add_zero]
      ac_rfl
    _ = w + sent + (q' + lost') := by
      rw [hqueues]
      ac_rfl
    _ = w + sent + lost + given + q := by
      rw [hput]
      ac_rfl

theorem waiting_update (hk : k.1 ∈ routers links ∧ k.2 ∈ routers links)
    (queues : Nat × Nat → NSQueue) (q : NSQueue) :
    waiting links (Function.update queues k q) + (queues k).waiting =
      waiting links queues + q.waiting := by
  have hmem : k ∈ (routers links).toFinset ×ˢ (routers links).toFinset := by
    rw [Finset.mem_product, List.mem_toFinset, List.mem_toFinset]
    exact hk
  have hothers : ∑ x ∈ ((routers links).toFinset ×ˢ (routers links).toFinset).erase k,
      (Function.update queues k q x).waiting =
        ∑ x ∈ ((routers links).toFinset ×ˢ (routers links).toFinset).erase k,
          (queues x).waiting := by
    apply Finset.sum_congr rfl
    intro x hx
    rw [Function.update_of_ne (Finset.ne_of_mem_erase hx)]
  rw [waiting, waiting, ← Finset.add_sum_erase _ _ hmem, ← Finset.add_sum_erase _ _ hmem, hothers,
    Function.update_self]
  ac_rfl

end Queues

section Steps

variable {links : List Link} {tables : Nat → Nat → Option Nat}
  {nodes : BitVec 32 → BitVec 16 → Option Nat} {s : State}

/-- A router passes a parcel on over a neighbour that is nearer to where it
goes, or sends it there. -/
theorem recv_running (htables : ∀ self ∈ routers links, Leads links self (tables self))
    (hnodes : ∀ addr port dest, nodes addr port = some dest → dest ∈ routers links)
    {self : Nat} (hself : self ∈ routers links) {parcel : Parcel}
    (hway : ∀ dest, destination nodes parcel.pkt = some dest →
      parcel.hops + (topology links).dist self dest = (topology links).dist parcel.entry dest)
    (vtime : ℚ) (hs : Running links nodes {parcel.origin} s) :
    ∃ s', recv tables nodes self parcel vtime s = some s' ∧ Running links nodes 0 s' := by
  rw [recv]
  cases hdest : destination nodes parcel.pkt with
  | none =>
    refine ⟨_, rfl, hs.queues, hs.delivered, ?_⟩
    rw [← hs.conserved, List.map_cons, ← Multiset.cons_coe, ← Multiset.singleton_add]
    ac_rfl
  | some dest =>
    have hroute := hway dest hdest
    dsimp only
    by_cases hhere : dest = self
    · subst hhere
      rw [if_pos rfl]
      refine ⟨_, rfl, hs.queues, ?_, ?_⟩
      · refine List.forall_mem_cons.mpr ⟨⟨hdest, ?_⟩, hs.delivered⟩
        rw [SimpleGraph.dist_self] at hroute
        exact hroute
      · rw [← hs.conserved, List.map_cons, ← Multiset.cons_coe, ← Multiset.singleton_add]
        ac_rfl
    · rw [if_neg hhere]
      have hlisted := hnodes _ _ dest hdest
      obtain ⟨hop, htable, hadj, hnear⟩ := htables self hself dest hlisted hhere
      have hroutes := (topology_adj.mp hadj).2
      have hhop := (routes_routers hroutes).2
      have hnext : parcel.hops + 1 + (topology links).dist hop dest =
          (topology links).dist parcel.entry dest := by
        omega
      obtain ⟨q', hput⟩ := enQ_some ((hs.queues (self, hop)).rate hroutes) parcel vtime
      rw [htable]
      dsimp only
      rw [hput]
      refine ⟨_, rfl, ?_, hs.delivered, ?_⟩
      · apply (Function.forall_update_iff s.queues fun k q => q.Kept links nodes k).mpr
        exact ⟨enQ_kept (hs.queues _) hself ⟨hhop, dest, hdest, hnext⟩ hput,
          fun k _ => hs.queues k⟩
      · have hwaiting := enQ_waiting hput s.lost
        have hqueues := waiting_update (k := (self, hop)) ⟨hself, hhop⟩ s.queues q'
        rw [List.map_cons, ← Multiset.cons_coe, ← Multiset.singleton_add] at hwaiting
        rw [← hs.conserved]
        exact exchange hwaiting hqueues

theorem step_running (htables : ∀ self ∈ routers links, Leads links self (tables self))
    (hnodes : ∀ addr port dest, nodes addr port = some dest → dest ∈ routers links)
    (hs : Running links nodes 0 s) (event : Event) :
    ∃ s', step links tables nodes s event = some s' ∧ Running links nodes 0 s' := by
  cases event with
  | packet pkt vtime =>
    rw [step]
    split
    · rename_i hentry
      dsimp only
      apply recv_running htables hnodes hentry
      · intro dest _
        exact Nat.zero_add _
      · refine ⟨hs.queues, hs.delivered, ?_⟩
        have hconserved := hs.conserved
        rw [add_zero] at hconserved
        rw [List.map_cons, ← Multiset.cons_coe, ← Multiset.singleton_add, ← hconserved, add_comm]
    · exact ⟨s, rfl, hs⟩
  | due self hop now vtime =>
    rw [step]
    cases hqueue : (s.queues (self, hop)).queue with
    | nil => exact ⟨s, rfl, hs⟩
    | cons e rest =>
      obtain ⟨parcel, pTime⟩ := e
      dsimp only
      split
      · obtain ⟨hself, hhop, dest, hdest, hway⟩ := (hs.queues (self, hop)).onWay (parcel, pTime)
          (by rw [hqueue]; exact List.mem_cons_self)
        apply recv_running htables hnodes hhop
        · intro dest' hdest'
          obtain rfl := Option.some.inj (hdest.symm.trans hdest')
          exact hway
        · refine ⟨?_, hs.delivered, ?_⟩
          · apply (Function.forall_update_iff s.queues fun k q => q.Kept links nodes k).mpr
            exact ⟨pop_kept (hs.queues _) hqueue, fun k _ => hs.queues k⟩
          · have hqueues := waiting_update (k := (self, hop)) ⟨hself, hhop⟩ s.queues
              { s.queues (self, hop) with
                queue := rest
                size := (s.queues (self, hop)).size - parcel.pkt.length }
            rw [waiting_pop hqueue, ← add_assoc] at hqueues
            rw [← hs.conserved, ← add_right_cancel hqueues]
            dsimp only
            rw [add_zero]
            ac_rfl
      · exact ⟨s, rfl, hs⟩

theorem addRoutes_apply (queues : Nat × Nat → NSQueue) (l : Link) (k : Nat × Nat) :
    addRoutes queues l k =
      if k = (l.fromNode, l.toNode) ∨ k = (l.toNode, l.fromNode) then .new l else queues k := by
  rw [addRoutes, Function.update_apply, Function.update_apply]
  split
  · rename_i hk
    rw [if_pos (Or.inl hk)]
  · rename_i hk
    simp only [hk, false_or]

theorem addRoutes_rate (hrates : ∀ l ∈ links, 8 ≤ l.ratebps) (queues : Nat × Nat → NSQueue)
    {k : Nat × Nat} (hk : k.2 ∈ routes links k.1 ∨ 0 < (queues k).rate) :
    0 < (links.foldl addRoutes queues k).rate := by
  induction links generalizing queues with
  | nil =>
    obtain ⟨l, hl, _⟩ | hk := hk.imp_left mem_routes.mp
    · exact absurd hl List.not_mem_nil
    · exact hk
  | cons line links ih =>
    obtain ⟨hline, hrates⟩ := List.forall_mem_cons.mp hrates
    apply ih hrates
    rw [addRoutes_apply]
    split
    · right
      exact Nat.div_pos hline (by decide)
    · rename_i hother
      refine hk.imp_left fun hroute => ?_
      obtain ⟨l, hl, hends⟩ := mem_routes.mp hroute
      obtain rfl | hl := List.mem_cons.mp hl
      · refine absurd ?_ hother
        obtain ⟨hself, hhop⟩ | ⟨hhop, hself⟩ := hends
        · exact Or.inl (Prod.ext hself.symm hhop.symm)
        · exact Or.inr (Prod.ext hself.symm hhop.symm)
      · exact mem_routes.mpr ⟨l, hl, hends⟩

theorem start_running (hrates : ∀ l ∈ links, 8 ≤ l.ratebps)
    (nodes : BitVec 32 → BitVec 16 → Option Nat) : Running links nodes 0 (start links) := by
  have hroutes : ∀ (l : List Link) (queues : Nat × Nat → NSQueue),
      (∀ k, (queues k).queue = [] ∧ (queues k).size = 0) →
        ∀ k, (l.foldl addRoutes queues k).queue = [] ∧ (l.foldl addRoutes queues k).size = 0 := by
    intro l
    induction l with
    | nil => exact fun _ h => h
    | cons line l ih =>
      intro queues h
      apply ih
      intro k
      rw [addRoutes_apply]
      split
      · exact ⟨rfl, rfl⟩
      · exact h k
  have hempty := hroutes links (fun _ => ⟨0, 0, 0, 0, 0, []⟩) fun _ => ⟨rfl, rfl⟩
  refine ⟨fun k => ?_, fun _ hx => absurd hx List.not_mem_nil, ?_⟩
  · obtain ⟨hqueue, hsize⟩ := hempty k
    refine ⟨fun e he => ?_, ⟨?_, ?_⟩, fun hk => addRoutes_rate hrates _ (Or.inl hk)⟩
    · exact absurd (hqueue ▸ he) List.not_mem_nil
    · exact hsize.trans (by rw [start]; dsimp only; rw [hqueue]; rfl)
    · rw [start]
      dsimp only
      rw [hqueue]
      exact Nat.zero_le _
  · have hnothing : waiting links (start links).queues = 0 := by
      apply Finset.sum_eq_zero
      intro k _
      rw [NSQueue.waiting, start]
      dsimp only
      rw [(hempty k).1]
      rfl
    rw [hnothing]
    rfl

theorem simulate_running (hmade : createTables links = some tables)
    (hsmall : (routers links).length ≤ INFINITY) (hrates : ∀ l ∈ links, 8 ≤ l.ratebps)
    (hnodes : ∀ addr port dest, nodes addr port = some dest → dest ∈ routers links)
    (events : List Event) :
    ∃ s, simulate links tables nodes events = some s ∧ Running links nodes 0 s := by
  have htables := made_leads hsmall hmade
  apply run_invariant_total (I := fun o => ∃ s, o = some s ∧ Running links nodes 0 s)
  · rintro _ event ⟨s, rfl, hs⟩
    exact step_running htables hnodes hs event
  · exact ⟨start links, rfl, start_running hrates nodes⟩

/-- On a map for which the tables are made, with lines of at least a byte a
second, the program does not die, and every datagram that is sent goes to the
node its header names, at which it has come over as few routers as there are on
the way. -/
theorem simulate_delivers (hmade : createTables links = some tables)
    (hsmall : (routers links).length ≤ INFINITY) (hrates : ∀ l ∈ links, 8 ≤ l.ratebps)
    (hnodes : ∀ addr port dest, nodes addr port = some dest → dest ∈ routers links)
    (events : List Event) :
    ∃ s, simulate links tables nodes events = some s ∧
      ∀ x ∈ s.sent, destination nodes x.2.pkt = some x.1 ∧
        x.2.hops = (topology links).dist x.2.entry x.1 := by
  obtain ⟨s, hrun, hs⟩ := simulate_running hmade hsmall hrates hnodes events
  exact ⟨s, hrun, hs.delivered⟩

/-- Every datagram that came in waits in a queue, has been sent or was given
up, once and as it came in, and the queues count what is in them. -/
theorem simulate_conserves (hmade : createTables links = some tables)
    (hsmall : (routers links).length ≤ INFINITY) (hrates : ∀ l ∈ links, 8 ≤ l.ratebps)
    (hnodes : ∀ addr port dest, nodes addr port = some dest → dest ∈ routers links)
    (events : List Event) :
    ∃ s, simulate links tables nodes events = some s ∧
      waiting links s.queues + (s.sent.map (fun x => x.2.origin) : List _) +
          (s.lost.map Parcel.origin : List _) =
        (s.taken.map Parcel.origin : List (List Byte × Nat)) ∧
      ∀ k, (s.queues k).Sound := by
  obtain ⟨s, hrun, hs⟩ := simulate_running hmade hsmall hrates hnodes events
  refine ⟨s, hrun, ?_, fun k => (hs.queues k).sound⟩
  rw [← hs.conserved, add_zero]

end Steps

section TopoMap

def topoTables : Nat → Nat → Option Nat := (createTables topoMap).getD fun _ _ => none

theorem topoTables_made : createTables topoMap = some topoTables := by
  have hsome : (createTables topoMap).isSome = true := by decide +kernel
  obtain ⟨tables, hmade⟩ := Option.isSome_iff_exists.mp hsome
  rw [topoTables, hmade, Option.getD_some]

/-- The list of nodes that comes with the program. -/
def nodesMap (addr : BitVec 32) (port : BitVec 16) : Option Nat :=
  if addr = 0x7f000001 ∧ 48001 ≤ port.toNat ∧ port.toNat ≤ 48007 then some (port.toNat - 48000)
  else none

theorem nodesMap_routers (addr : BitVec 32) (port : BitVec 16) (dest : Nat)
    (h : nodesMap addr port = some dest) : dest ∈ routers topoMap := by
  have hrouters : routers topoMap = [1, 2, 3, 4, 5, 6, 7, 8, 9] := by decide +kernel
  rw [nodesMap] at h
  split at h
  · obtain rfl := Option.some.inj h
    rw [hrouters]
    simp only [List.mem_cons, List.not_mem_nil, or_false]
    omega
  · cases h

/-- A datagram from node 1 to node 7, on a way of three routers. -/
def crossing : List Event :=
  [.packet [0, 0, 0, 1, 0, 0, 0, 0, 127, 0, 0, 1, 187, 129, 187, 135] 0, .due 1 2 1 1,
    .due 2 3 2 2, .due 3 7 3 3]

theorem simulate_delivers_crossing :
    ∃ s, simulate topoMap topoTables nodesMap crossing = some s ∧
      ∀ x ∈ s.sent, destination nodesMap x.2.pkt = some x.1 ∧
        x.2.hops = (topology topoMap).dist x.2.entry x.1 :=
  simulate_delivers topoTables_made (by decide) (by decide) nodesMap_routers crossing

theorem simulate_conserves_crossing :
    ∃ s, simulate topoMap topoTables nodesMap crossing = some s ∧
      waiting topoMap s.queues + (s.sent.map (fun x => x.2.origin) : List _) +
          (s.lost.map Parcel.origin : List _) =
        (s.taken.map Parcel.origin : List (List Byte × Nat)) ∧
      ∀ k, (s.queues k).Sound :=
  simulate_conserves topoTables_made (by decide) (by decide) nodesMap_routers crossing

example : (simulate topoMap topoTables nodesMap crossing).map
    (fun s => s.sent.map fun x => (x.1, x.2.hops)) = some [(7, 3)] := by
  decide +kernel

end TopoMap

end P2PCC.Simulator

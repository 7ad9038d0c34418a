import P2PCC.Lib.Chains
import P2PCC.Unacked

namespace P2PCC.TrackerList

open P2PCC.Lib.ByteOrder P2PCC.Lib.Chains P2PCC.Lib.FirstMatch P2PCC.Lib.Runs P2PCC.Packet
open P2PCC.Tracker P2PCC.Receiving P2PCC.Unacked

/-- The loop of `create_timer`, and the new node behind the last one. `none`
is a NULL dereference, or the end of the passes. -/
def createLoop (now seq : Int) (entry : PacketTracker) :
    Nat → Heap PacketTracker → Option Nat → Option Nat → Option (Heap PacketTracker)
  | _, h, pre, none => do
    let a ← pre
    let n ← h[a]?
    let malloced : Heap PacketTracker := h ++ [⟨entry, none⟩]
    some (malloced.set a { n with next := some h.length })
  | 0, _, _, some _ => none
  | k + 1, h, _, some itr => do
    let n ← h[itr]?
    if n.val.seq = seq then some (h.set itr { n with val := { n.val with sendTime := now } })
    else createLoop now seq entry k h (some itr) n.next

/-- `create_timer` on the nodes. -/
def createNode (now : Int) (uninit : PacketTracker) (h : Heap PacketTracker)
    (pTracker : Option Nat) (seq : Int) (packet : DataPacket) (sock : Int) (fromAddr : SockAddr) :
    Option (Heap PacketTracker × Option Nat) :=
  let entry : PacketTracker :=
    { sock := sock, seq := seq, fromAddr := fromAddr, sendTime := now, expireTime := 0,
      packet := packet }
  match pTracker with
  | none => some (h ++ [⟨entry, none⟩, ⟨dummyHead uninit, some h.length⟩], some (h.length + 1))
  | some _ => (createLoop now seq entry h.length h none pTracker).map (fun h => (h, pTracker))

/-- The loop of `remove_from_tracker`, with `prev` one node behind `p`. -/
def removeLoop (socket seq : Int) :
    Nat → Heap PacketTracker → Option Nat → Option Nat → Option (Int × Heap PacketTracker)
  | _, h, _, none => some (-1, h)
  | 0, _, _, some _ => none
  | k + 1, h, prev, some p => do
    let n ← h[p]?
    let a ← prev
    let b ← h[a]?
    if n.val.sock = socket ∧ n.val.seq - 1 = seq then some (1, h.set a { b with next := n.next })
    else removeLoop socket seq k h b.next n.next

/-- `remove_from_tracker` on the nodes: the head is not unlinked, but the node
behind it copied over it. -/
def removeNode (h : Heap PacketTracker) (current : Option Nat) (socket seq : Int) :
    Option (Int × Heap PacketTracker) :=
  match current with
  | none => some (-1, h)
  | some a => do
    let n ← h[a]?
    if n.val.sock = socket ∧ n.val.seq - 1 = seq then do
      let next ← n.next
      let m ← h[next]?
      some (1, h.set a m)
    else removeLoop socket seq h.length h current n.next

/-- The tracker as a list of entries. -/
def Holds (h : Heap PacketTracker) (pTracker : Option Nat) (entries : List PacketTracker) : Prop :=
  ∃ cells, Represents h pTracker cells ∧ cells.map Prod.snd = entries

section Create

variable {h : Heap PacketTracker} {p itr : Option Nat} {front todo : List (Nat × PacketTracker)}

theorem createLoop_step (now seq : Int) (entry : PacketTracker) (k : Nat) (pre : Option Nat)
    {a : Nat} {x : PacketTracker} {r : Option Nat} (hr : h[a]? = some ⟨x, r⟩) :
    createLoop now seq entry (k + 1) h pre (some a) =
      if x.seq = seq then some (h.set a ⟨{ x with sendTime := now }, r⟩)
      else createLoop now seq entry k h (some a) r := by
  rw [createLoop, hr]
  rfl

theorem createLoop_skip (now seq : Int) (entry : PacketTracker) (k : Nat) (pre : Option Nat)
    {q : Option Nat} (hs : Seg h itr todo q) (hne : ∀ cell ∈ todo, cell.2.seq ≠ seq) :
    createLoop now seq entry (todo.length + k) h pre itr =
      createLoop now seq entry k h (behind pre todo) q := by
  induction todo generalizing pre itr with
  | nil =>
    obtain rfl : itr = q := hs
    rw [List.length_nil, Nat.zero_add]
    rfl
  | cons cell todo ih =>
    obtain ⟨a, x⟩ := cell
    obtain ⟨rfl, r, hr, hs⟩ := hs
    obtain ⟨hx, hne⟩ := List.forall_mem_cons.mp hne
    rw [List.length_cons, Nat.add_right_comm, createLoop_step now seq entry _ pre hr, if_neg hx,
      ih (some a) hs hne]
    rfl

theorem createLoop_none (now seq : Int) (entry : PacketTracker) (k : Nat) {a : Nat}
    {x : PacketTracker} (hs : Represents h p (front ++ [(a, x)])) :
    ∃ h', createLoop now seq entry k h (some a) none = some h' ∧
      Holds h' p ((front ++ [(a, x)]).map Prod.snd ++ [entry]) := by
  obtain ⟨r, hfront, hr, _, hf, _, hlt⟩ := hs.split
  have hfresh : h.length ∉ addresses (front ++ [(a, x)]) :=
    fun hm => lt_irrefl _ (hs.seg.lt_length hm)
  have hnew : Seg (h ++ [⟨entry, none⟩]) (some h.length) [(h.length, entry)] none := by
    refine ⟨rfl, none, ?_, rfl⟩
    rw [List.getElem?_append_right (le_refl _), Nat.sub_self, List.getElem?_cons_zero]
  have hjoin := (hfront.push [⟨entry, none⟩]).join hnew hf
    (by simpa [addresses] using hlt.ne) (by rw [List.length_append]; omega) x
  refine ⟨_, by rw [createLoop, Option.bind_eq_bind, Option.bind_some, hr]; rfl,
    front ++ (a, x) :: [(h.length, entry)], ⟨hjoin, ?_⟩, ?_⟩
  · have hsplit : front ++ (a, x) :: [(h.length, entry)] =
        front ++ [(a, x)] ++ [(h.length, entry)] := by
      rw [List.append_assoc]
      rfl
    rw [hsplit, addresses, List.map_append]
    apply List.Nodup.append hs.distinct (List.nodup_singleton _)
    simpa using hfresh
  · simp

theorem createLoop_hit (now seq : Int) (entry : PacketTracker) (k : Nat) (pre : Option Nat)
    {a : Nat} {x : PacketTracker} (hs : Represents h p (front ++ (a, x) :: todo)) (hx : x.seq = seq) :
    ∃ h', createLoop now seq entry (k + 1) h pre (some a) = some h' ∧
      Holds h' p (front.map Prod.snd ++ { x with sendTime := now } :: todo.map Prod.snd) := by
  obtain ⟨r, hfront, hr, hback, hf, hb, hlt⟩ := hs.split
  have hjoin := hfront.join hback hf hb hlt { x with sendTime := now }
  refine ⟨_, ?_, _, ⟨hjoin, ?_⟩, ?_⟩
  · rw [createLoop_step now seq entry k pre hr, if_pos hx]
  · simpa [addresses] using hs.distinct
  · rw [List.map_append, List.map_cons]

theorem createNode_first (now : Int) (uninit : PacketTracker) (h : Heap PacketTracker) (seq : Int)
    (packet : DataPacket) (sock : Int) (fromAddr : SockAddr) :
    ∃ h' p', createNode now uninit h none seq packet sock fromAddr = some (h', p') ∧
      Holds h' p' [dummyHead uninit, ⟨sock, seq, fromAddr, now, 0, packet⟩] := by
  refine ⟨_, _, rfl, [(h.length + 1, dummyHead uninit), (h.length, _)], ⟨?_, ?_⟩, rfl⟩
  · refine ⟨rfl, some h.length, ?_, rfl, none, ?_, rfl⟩
    · rw [List.getElem?_append_right (Nat.le_succ _), Nat.succ_sub (le_refl _), Nat.sub_self]
      rfl
    · rw [List.getElem?_append_right (le_refl _), Nat.sub_self]
      rfl
  · simp [addresses]

theorem createNode_absent (now : Int) (uninit : PacketTracker) (seq : Int) (packet : DataPacket)
    (sock : Int) (fromAddr : SockAddr) (hs : Represents h p todo) (hc : todo ≠ [])
    (hne : ∀ cell ∈ todo, cell.2.seq ≠ seq) :
    ∃ h', createNode now uninit h p seq packet sock fromAddr = some (h', p) ∧
      Holds h' p (todo.map Prod.snd ++ [⟨sock, seq, fromAddr, now, 0, packet⟩]) := by
  obtain ⟨b, rfl⟩ := hs.seg.exists_address hc
  obtain ⟨k, hk⟩ := Nat.exists_eq_add_of_le hs.length_le
  have hskip := createLoop_skip now seq ⟨sock, seq, fromAddr, now, 0, packet⟩ k none
    hs.seg hne
  obtain rfl | ⟨init, ⟨a, x⟩, rfl⟩ := List.eq_nil_or_concat todo
  · exact absurd rfl hc
  rw [List.concat_eq_append] at hs hk hskip ⊢
  obtain ⟨h', hl, hholds⟩ := createLoop_none now seq ⟨sock, seq, fromAddr, now, 0, packet⟩ k hs
  refine ⟨h', ?_, hholds⟩
  rw [createNode, hk, hskip, behind_concat, hl]
  rfl

theorem createNode_present (now : Int) (uninit : PacketTracker) (seq : Int) (packet : DataPacket)
    (sock : Int) (fromAddr : SockAddr) {a : Nat} {x : PacketTracker}
    (hs : Represents h p (front ++ (a, x) :: todo)) (hne : ∀ cell ∈ front, cell.2.seq ≠ seq)
    (hx : x.seq = seq) :
    ∃ h', createNode now uninit h p seq packet sock fromAddr = some (h', p) ∧
      Holds h' p (front.map Prod.snd ++ { x with sendTime := now } :: todo.map Prod.snd) := by
  obtain ⟨b, rfl⟩ := hs.seg.exists_address (by simp)
  obtain ⟨k, hk⟩ : ∃ k, h.length = front.length + (k + 1) := by
    have hlen := hs.length_le
    rw [List.length_append, List.length_cons] at hlen
    exact ⟨h.length - front.length - 1, by omega⟩
  obtain ⟨_, hfront, _⟩ := hs.split
  obtain ⟨h', hl, hholds⟩ := createLoop_hit now seq ⟨sock, seq, fromAddr, now, 0, packet⟩ k
    (behind none front) hs hx
  refine ⟨h', ?_, hholds⟩
  rw [createNode, hk, createLoop_skip now seq _ (k + 1) none hfront hne, hl]
  rfl

/-- `create_timer` on the nodes is `create_timer` on the entries. -/
theorem createNode_refines (now : Int) (uninit : PacketTracker) (seq : Int) (packet : DataPacket)
    (sock : Int) (fromAddr : SockAddr) {entries : List PacketTracker} (hh : Holds h p entries) :
    ∃ h' p', createNode now uninit h p seq packet sock fromAddr = some (h', p') ∧
      Holds h' p' (createTimer now uninit entries seq packet sock fromAddr) := by
  obtain ⟨cells, hs, rfl⟩ := hh
  cases cells with
  | nil =>
    obtain rfl : p = none := hs.seg
    exact createNode_first now uninit h seq packet sock fromAddr
  | cons cell cells =>
    rw [List.map_cons, createTimer, ← List.map_cons, ← List.isSome_find?]
    cases hf : ((cell :: cells).map Prod.snd).find? (fun t => decide (t.seq = seq)) with
    | none =>
      have hne : ∀ t ∈ (cell :: cells).map Prod.snd, t.seq ≠ seq := by
        intro t ht
        simpa using List.find?_eq_none.mp hf t ht
      rw [Option.isSome_none, if_neg Bool.false_ne_true]
      obtain ⟨h', hn, hholds⟩ := createNode_absent now uninit seq packet sock fromAddr hs
        (List.cons_ne_nil _ _) fun c hc => hne c.2 (List.mem_map_of_mem hc)
      exact ⟨h', p, hn, hholds⟩
    | some t =>
      obtain ⟨l₁, l₂, hsplit, hl₁, ht, hmodify⟩ := modifyFirst_split hf
      rw [Option.isSome_some, if_pos rfl, hmodify]
      obtain ⟨front, a, back, hc, rfl, rfl⟩ := split_values hsplit
      rw [hc] at hs
      obtain ⟨h', hn, hholds⟩ := createNode_present now uninit seq packet sock fromAddr hs
        (fun c hm => by simpa using hl₁ c.2 (List.mem_map_of_mem hm)) (by simpa using ht)
      exact ⟨h', p, hn, hholds⟩

end Create

section Remove

variable {h : Heap PacketTracker} {p itr q : Option Nat}
  {front todo back : List (Nat × PacketTracker)} {socket seq : Int}

theorem removeLoop_step (k : Nat) {a b : Nat} {x y : PacketTracker} {r m : Option Nat}
    (hr : h[a]? = some ⟨x, r⟩) (hb : h[b]? = some ⟨y, m⟩) :
    removeLoop socket seq (k + 1) h (some b) (some a) =
      if x.sock = socket ∧ x.seq - 1 = seq then some (1, h.set b ⟨y, r⟩)
      else removeLoop socket seq k h m r := by
  simp [removeLoop, hr, hb]

theorem removeLoop_skip (k : Nat) {b : Nat} {y : PacketTracker} (hb : h[b]? = some ⟨y, itr⟩)
    (hs : Seg h itr todo q)
    (hne : ∀ cell ∈ todo, ¬ (cell.2.sock = socket ∧ cell.2.seq - 1 = seq)) :
    removeLoop socket seq (todo.length + k) h (some b) itr =
      removeLoop socket seq k h (behind (some b) todo) q := by
  induction todo generalizing b y itr with
  | nil =>
    obtain rfl : itr = q := hs
    rw [List.length_nil, Nat.zero_add]
    rfl
  | cons cell todo ih =>
    obtain ⟨a, x⟩ := cell
    obtain ⟨rfl, r, hr, hs⟩ := hs
    obtain ⟨hx, hne⟩ := List.forall_mem_cons.mp hne
    rw [List.length_cons, Nat.add_right_comm, removeLoop_step _ hr hb, if_neg hx, ih hr hs hne]
    rfl

theorem removeNode_absent (hs : Represents h p todo)
    (hne : ∀ cell ∈ todo, ¬ (cell.2.sock = socket ∧ cell.2.seq - 1 = seq)) :
    removeNode h p socket seq = some (-1, h) := by
  have hlen := hs.length_le
  cases todo with
  | nil =>
    obtain rfl : p = none := hs.seg
    rfl
  | cons cell todo =>
    obtain ⟨a, x⟩ := cell
    obtain ⟨rfl, r, hr, hseg⟩ := hs.seg
    obtain ⟨hx, hne⟩ := List.forall_mem_cons.mp hne
    obtain ⟨k, hk⟩ := Nat.exists_eq_add_of_le (Nat.le_of_succ_le hlen)
    rw [removeNode, hr, Option.bind_eq_bind, Option.bind_some, if_neg hx, hk,
      removeLoop_skip k hr hseg hne, removeLoop]

theorem removeLoop_hit (k : Nat) {a b : Nat} {x y : PacketTracker}
    (hs : Represents h p (front ++ (b, y) :: (a, x) :: back))
    (hx : x.sock = socket ∧ x.seq - 1 = seq) :
    ∃ h', removeLoop socket seq (k + 1) h (some b) (some a) = some (1, h') ∧
      Holds h' p ((front ++ (b, y) :: back).map Prod.snd) := by
  obtain ⟨r, hfront, hb, ⟨rfl, r, hr, hback⟩, hf, hnb, hlt⟩ := hs.split
  have hjoin := hfront.join hback hf (fun hm => hnb (List.mem_cons_of_mem _ hm)) hlt y
  refine ⟨_, ?_, _, ⟨hjoin, ?_⟩, rfl⟩
  · rw [removeLoop_step k hr hb, if_pos hx]
  · apply List.Nodup.sublist _ hs.distinct
    exact ((List.sublist_cons_self _ _).cons_cons _).append_left _ |>.map Prod.fst

theorem removeNode_present {a : Nat} {x : PacketTracker}
    (hs : Represents h p (front ++ (a, x) :: back)) (hc : front ≠ [])
    (hne : ∀ cell ∈ front, ¬ (cell.2.sock = socket ∧ cell.2.seq - 1 = seq))
    (hx : x.sock = socket ∧ x.seq - 1 = seq) :
    ∃ h', removeNode h p socket seq = some (1, h') ∧
      Holds h' p (front.map Prod.snd ++ back.map Prod.snd) := by
  have hlen := hs.length_le
  obtain ⟨r, hfront, _⟩ := hs.split
  obtain rfl | ⟨init, ⟨b, y⟩, hlast⟩ := List.eq_nil_or_concat front
  · exact absurd rfl hc
  cases front with
  | nil => exact absurd rfl hc
  | cons cell rest =>
    obtain ⟨c, z⟩ := cell
    obtain ⟨rfl, r₀, hr₀, hrest⟩ := hfront
    obtain ⟨hz, hne⟩ := List.forall_mem_cons.mp hne
    have hbehind : behind (some c) rest = some b := by
      have hb : behind none (init ++ [(b, y)]) = some b := behind_concat none y
      rwa [← List.concat_eq_append, ← hlast] at hb
    obtain ⟨k, hk⟩ : ∃ k, h.length = rest.length + (k + 1) := by
      rw [List.length_append, List.length_cons, List.length_cons] at hlen
      exact ⟨h.length - rest.length - 1, by omega⟩
    rw [hlast, List.concat_eq_append, List.append_assoc] at hs
    obtain ⟨h', hl, hholds⟩ := removeLoop_hit k hs hx
    refine ⟨h', ?_, ?_⟩
    · rw [removeNode, hr₀, Option.bind_eq_bind, Option.bind_some, if_neg hz, hk,
        removeLoop_skip (k + 1) hr₀ hrest hne, hbehind, hl]
    · rw [hlast, List.concat_eq_append]
      simpa using hholds

end Remove

/-- The calls on a tracker list, each with what its caller passes, what the
clock says and what `malloc` left in the dummy. -/
inductive Op where
  | createTimer (now : Int) (uninit : PacketTracker) (seq : Int) (packet : DataPacket) (sock : Int)
      (fromAddr : SockAddr)
  | removeFromTracker (socket seq : Int)

/-- The numbers the program calls with: packets start at 1, and acks at 0. -/
def Op.Numbered : Op → Prop
  | .createTimer _ _ seq _ _ _ => 1 ≤ seq
  | .removeFromTracker _ seq => 0 ≤ seq

def Op.dummy? : Op → Option PacketTracker
  | .createTimer _ uninit _ _ _ _ => some (dummyHead uninit)
  | .removeFromTracker _ _ => none

structure Nodes where
  heap : Heap PacketTracker
  pTracker : Option Nat

def call (s : Nodes) : Op → Option Nodes
  | .createTimer now uninit seq packet sock fromAddr =>
    (createNode now uninit s.heap s.pTracker seq packet sock fromAddr).map fun r => ⟨r.1, r.2⟩
  | .removeFromTracker socket seq =>
    (removeNode s.heap s.pTracker socket seq).map fun r => ⟨r.2, s.pTracker⟩

def exec (s : Option Nodes) (op : Op) : Option Nodes := s.bind fun s => call s op

/-- The same calls on the list of entries. -/
def apply (entries : List PacketTracker) : Op → List PacketTracker
  | .createTimer now uninit seq packet sock fromAddr =>
    createTimer now uninit entries seq packet sock fromAddr
  | .removeFromTracker socket seq => (removeFromTracker entries socket seq).2

/-- No list, or one with the dummy in front, and no number twice. -/
structure Kept (entries : List PacketTracker) : Prop where
  headed : ∀ t ∈ entries.head?, t.seq = -441
  distinct : Distinct entries

variable {entries : List PacketTracker} {s : Option Nodes} {op : Op} {socket i : Int}

theorem Kept.head_missed {t : PacketTracker} (hk : Kept (t :: entries)) (hi : 0 ≤ i) :
    ¬ (t.sock = socket ∧ t.seq - 1 = i) := by
  have ht : t.seq = -441 := hk.headed t rfl
  rw [ht]
  omega

theorem Kept.hit {l₁ l₂ : List PacketTracker} {t : PacketTracker} (hk : Kept (l₁ ++ t :: l₂))
    (hi : 0 ≤ i) (ht : t.sock = socket ∧ t.seq - 1 = i) :
    l₁ ≠ [] ∧ ∀ u ∈ l₁, ¬ (u.sock = socket ∧ u.seq - 1 = i) := by
  constructor
  · rintro rfl
    exact hk.head_missed hi ht
  · intro u hu hhit
    have hd := hk.distinct
    rw [Distinct, List.map_append, List.map_cons, List.nodup_middle, List.nodup_cons,
      List.mem_append, not_or] at hd
    apply hd.1.1
    have hseq : u.seq = t.seq := by omega
    exact hseq ▸ List.mem_map_of_mem hu

theorem removeNode_takes {h : Heap PacketTracker} {p : Option Nat} {l₁ l₂ : List PacketTracker}
    {t : PacketTracker} (hh : Holds h p (l₁ ++ t :: l₂)) (hk : Kept (l₁ ++ t :: l₂)) (hi : 0 ≤ i)
    (ht : t.sock = socket ∧ t.seq - 1 = i) :
    ∃ h', removeNode h p socket i = some (1, h') ∧ Holds h' p (l₁ ++ l₂) := by
  obtain ⟨cells, hs, hcells⟩ := hh
  obtain ⟨hne, hmiss⟩ := hk.hit hi ht
  obtain ⟨front, a, back, rfl, rfl, rfl⟩ := split_values hcells
  apply removeNode_present hs
  · rintro rfl
    exact hne rfl
  · exact fun cell hc => hmiss cell.2 (List.mem_map_of_mem hc)
  · exact ht

theorem removeNode_leaves {h : Heap PacketTracker} {p : Option Nat} (hh : Holds h p entries)
    (hne : ∀ t ∈ entries, ¬ (t.sock = socket ∧ t.seq - 1 = i)) :
    removeNode h p socket i = some (-1, h) := by
  obtain ⟨cells, hs, rfl⟩ := hh
  exact removeNode_absent hs fun cell hc => hne cell.2 (List.mem_map_of_mem hc)

/-- `remove_from_tracker` on the nodes is `remove_from_tracker` on the entries. -/
theorem removeNode_refines (socket : Int) {h : Heap PacketTracker} {p : Option Nat}
    (hh : Holds h p entries) (hk : Kept entries) (hi : 0 ≤ i) :
    ∃ h', removeNode h p socket i = some ((removeFromTracker entries socket i).1, h') ∧
      Holds h' p (removeFromTracker entries socket i).2 := by
  rw [removeFromTracker, ← List.isSome_find?]
  cases hf : entries.find? (fun t => decide (t.sock = socket ∧ t.seq - 1 = i)) with
  | none =>
    have hne : ∀ t ∈ entries, ¬ (t.sock = socket ∧ t.seq - 1 = i) := fun t ht =>
      of_decide_eq_false (by simpa using List.find?_eq_none.mp hf t ht)
    rw [Option.isSome_none, if_neg Bool.false_ne_true]
    exact ⟨h, removeNode_leaves hh hne, hh⟩
  | some t =>
    obtain ⟨l₁, l₂, rfl, hl₁, ht, _⟩ := modifyFirst_split hf
    rw [Option.isSome_some, if_pos rfl, List.eraseP_append_right _ (by simpa using hl₁),
      List.eraseP_cons_of_pos (by exact ht)]
    exact removeNode_takes hh hk hi (of_decide_eq_true ht)

theorem apply_head (hk : Kept entries) (hn : op.Numbered) :
    (apply entries op).head? = entries.head?.or op.dummy? := by
  cases entries with
  | nil => cases op <;> rfl
  | cons t entries =>
    cases op with
    | createTimer now uninit seq packet sock fromAddr =>
      have hne : t.seq ≠ seq := by
        have ht : t.seq = -441 := hk.headed t rfl
        have hseq : 1 ≤ seq := hn
        omega
      rw [apply, createTimer]
      split
      · rw [modifyFirst, if_neg (by simpa using hne)]
        rfl
      · rfl
    | removeFromTracker socket seq =>
      rw [apply, removeFromTracker]
      split
      · rw [List.eraseP_cons_of_neg (by simpa using hk.head_missed hn)]
        rfl
      · rfl

theorem apply_kept (hk : Kept entries) (hn : op.Numbered) : Kept (apply entries op) := by
  constructor
  · rw [apply_head hk hn]
    cases entries with
    | nil => cases op <;> simp [Op.dummy?, dummyHead]
    | cons t entries => exact hk.headed
  · cases op with
    | createTimer now uninit seq packet sock fromAddr =>
      apply createTimer_distinct now uninit packet sock fromAddr hk.distinct
      have hseq : 1 ≤ seq := hn
      omega
    | removeFromTracker socket seq => exact removeFromTracker_distinct socket seq hk.distinct

theorem run_head (ops : List Op) (hk : Kept entries) (hn : ∀ op ∈ ops, op.Numbered) :
    (run apply entries ops).head? = entries.head?.or (ops.findSome? Op.dummy?) := by
  induction ops generalizing entries with
  | nil => exact Option.or_none.symm
  | cons op ops ih =>
    obtain ⟨hop, hn⟩ := List.forall_mem_cons.mp hn
    rw [run_cons, ih (apply_kept hk hop) hn, apply_head hk hop, Option.or_assoc]
    cases op <;> rfl

/-- The nodes hold the entries, and nothing went wrong on the way. -/
def Tracks (s : Option Nodes) (entries : List PacketTracker) : Prop :=
  Kept entries ∧ ∃ nodes, s = some nodes ∧ Holds nodes.heap nodes.pTracker entries

theorem exec_tracks (hs : Tracks s entries) (hn : op.Numbered) :
    Tracks (exec s op) (apply entries op) := by
  obtain ⟨hk, nodes, rfl, hh⟩ := hs
  refine ⟨apply_kept hk hn, ?_⟩
  cases op with
  | createTimer now uninit seq packet sock fromAddr =>
    obtain ⟨h', p', hc, hholds⟩ := createNode_refines now uninit seq packet sock fromAddr hh
    refine ⟨⟨h', p'⟩, ?_, hholds⟩
    rw [exec, Option.bind_some, call, hc]
    rfl
  | removeFromTracker socket seq =>
    obtain ⟨h', hr, hholds⟩ := removeNode_refines socket hh hk hn
    refine ⟨⟨h', nodes.pTracker⟩, ?_, hholds⟩
    rw [exec, Option.bind_some, call, hr]
    rfl

theorem kept_nil : Kept [] := ⟨by simp, List.nodup_nil⟩

/-- Over any calls from NULL on: the dummy stays the head, no number stands
twice, and an ack takes the entry that waits for it and nothing else. The copy
over the head is never made. -/
theorem tracker_kept (ops : List Op) (hn : ∀ op ∈ ops, op.Numbered) :
    ∃ nodes entries, run exec (some ⟨[], none⟩) ops = some nodes ∧
      Holds nodes.heap nodes.pTracker entries ∧ Kept entries ∧
      entries.head? = ops.findSome? Op.dummy? ∧
      ∀ socket i : Int, 0 ≤ i →
        (∀ a n, nodes.pTracker = some a → nodes.heap[a]? = some n →
          ¬ (n.val.sock = socket ∧ n.val.seq - 1 = i)) ∧
        (∀ l₁ t l₂, entries = l₁ ++ t :: l₂ → t.sock = socket → t.seq = i + 1 →
          ∃ h', removeNode nodes.heap nodes.pTracker socket i = some (1, h') ∧
            Holds h' nodes.pTracker (l₁ ++ l₂)) ∧
        ((∀ t ∈ entries, ¬ (t.sock = socket ∧ t.seq = i + 1)) →
          removeNode nodes.heap nodes.pTracker socket i = some (-1, nodes.heap)) := by
  have hstart : Tracks (some ⟨[], none⟩) [] := ⟨kept_nil, _, rfl, [], ⟨rfl, List.nodup_nil⟩, rfl⟩
  have hstep : ∀ s entries, ∀ op ∈ ops, Tracks s entries → Tracks (exec s op) (apply entries op) :=
    fun s entries op hop hs => exec_tracks hs (hn op hop)
  obtain ⟨hk, nodes, hrun, hh⟩ := run_simulates hstep _ _ hstart
  refine ⟨nodes, _, hrun, hh, hk, run_head ops kept_nil hn, fun socket i hi => ⟨?_, ?_, ?_⟩⟩
  · intro a n ha hr
    obtain ⟨cells, hs, hcells⟩ := hh
    rw [← hcells] at hk
    cases cells with
    | nil => exact absurd (hs.seg.symm.trans ha) (by simp)
    | cons cell cells =>
      obtain ⟨hp, r, hval, _⟩ := hs.seg
      obtain rfl : cell.1 = a := Option.some.inj (hp.symm.trans ha)
      obtain rfl := Option.some.inj (hval.symm.trans hr)
      exact hk.head_missed hi
  · intro l₁ t l₂ hsplit hsock hseq
    rw [hsplit] at hh hk
    exact removeNode_takes hh hk hi ⟨hsock, by omega⟩
  · intro hne
    exact removeNode_leaves hh fun t ht hhit => hne t ht ⟨hhit.1, by omega⟩

/-- Two packets are sent and the first is acknowledged. -/
def oneAck : List Op :=
  let packet := cleared.dummy.packet
  let peer := cleared.dummy.fromAddr
  [.createTimer 5 cleared.dummy 1 packet 7 peer, .createTimer 6 cleared.dummy 2 packet 7 peer,
    .removeFromTracker 7 0]

theorem tracker_kept_once :
    ∃ nodes entries, run exec (some ⟨[], none⟩) oneAck = some nodes ∧
      Holds nodes.heap nodes.pTracker entries ∧ Kept entries ∧
      entries.head? = oneAck.findSome? Op.dummy? ∧
      ∀ socket i : Int, 0 ≤ i →
        (∀ a n, nodes.pTracker = some a → nodes.heap[a]? = some n →
          ¬ (n.val.sock = socket ∧ n.val.seq - 1 = i)) ∧
        (∀ l₁ t l₂, entries = l₁ ++ t :: l₂ → t.sock = socket → t.seq = i + 1 →
          ∃ h', removeNode nodes.heap nodes.pTracker socket i = some (1, h') ∧
            Holds h' nodes.pTracker (l₁ ++ l₂)) ∧
        ((∀ t ∈ entries, ¬ (t.sock = socket ∧ t.seq = i + 1)) →
          removeNode nodes.heap nodes.pTracker socket i = some (-1, nodes.heap)) :=
  tracker_kept oneAck (by simp [oneAck, Op.Numbered])

end P2PCC.TrackerList

import P2PCC.Lib.Runs
import P2PCC.Buffers

namespace P2PCC.Reassembly

open P2PCC.Lib.ByteOrder P2PCC.Lib.FirstMatch P2PCC.Lib.Runs P2PCC.Lib.Slots P2PCC.Packet
open P2PCC.Receiver P2PCC.Buffers

/-- A DATA packet with a sequence number of the protocol, and what is in
memory behind the slots when it arrives. -/
structure Arrival where
  past : Int → Int
  packet : DataPacket
  low : 1 ≤ packet.seq
  high : packet.seq ≤ 512

def Arrival.seq (a : Arrival) : Int := a.packet.seq

/-- The length and the bytes that an empty slot takes from the packet. -/
def Arrival.payload (a : Arrival) : Int × List Byte :=
  (a.packet.length, (List.range a.packet.length.toNat).map (fun i => a.packet.data.getD i 0))

/-- The receive buffers, and the sequence numbers that have arrived. -/
structure Arriving where
  recvList : List RecvBuffer
  seen : List Int

section Definitions

variable (e : Endian) (socket : Int)

def arrive (s : Arriving) (a : Arrival) : Arriving :=
  { recvList := (recvData e a.past a.packet socket s.recvList).1
    seen := a.seq :: s.seen }

def ackNum (s : Arriving) (a : Arrival) : Option Int :=
  (recvData e a.past a.packet socket s.recvList).2.map (fun r => r.1.header.ackNum.toInt)

def buffer (s : Arriving) : Option RecvBuffer := s.recvList.find? (fun b => b.socket = socket)

def fresh (offset socket : Int) (recvList : List RecvBuffer) : Arriving :=
  { recvList := (initRecvBuffer offset socket recvList).2, seen := [] }

end Definitions

/-- All packets up to the `n`th have arrived, and not the one after it. -/
structure Cumulative (seen : List Int) (n : Int) : Prop where
  nonneg : 0 ≤ n
  all : ∀ k, 1 ≤ k → k ≤ n → k ∈ seen
  missing : n + 1 ∉ seen

/-- The flags are those of the packets that have arrived, and `expected` is
the first empty slot after slot 0. -/
structure Marked (seen : List Int) (b : RecvBuffer) : Prop where
  recved : ∀ i, 0 ≤ i → i < 512 → ((b.chunks i).recved = true ↔ i + 1 ∈ seen)
  low : 1 ≤ b.expected
  high : b.expected ≤ 512
  filled : ∀ i, 1 ≤ i → i < b.expected → i + 1 ∈ seen
  stop : b.expected < 512 → b.expected + 1 ∉ seen

/-- The current buffer of the socket, which is the first of the list. -/
def Current (socket : Int) (P : RecvBuffer → Prop) (s : Arriving) : Prop :=
  ∃ b rest, s.recvList = b :: rest ∧ b.socket = socket ∧ P b

theorem marked_fresh (offset socket : Int) (busy : Bool) :
    Marked [] { expected := 1, socket := socket, offset := offset, busy := busy, totalRecv := 0,
                chunks := fun _ => emptyChunk } := by
  refine ⟨fun i _ _ => by simp [emptyChunk], le_rfl, by simp, ?_, fun _ => by simp⟩
  intro i hi hn
  simp only at hn
  omega

section Recv

variable {seen : List Int} {b : RecvBuffer} (a : Arrival)

theorem Marked.recved_recv (h : Marked seen b) {i : Int} (hi : 0 ≤ i) (hn : i < 512) :
    ((b.recv a.past a.packet).chunks i).recved = true ↔ i + 1 ∈ a.seq :: seen := by
  rw [recv_recved, Bool.or_eq_true, h.recved i hi hn, decide_eq_true_eq, List.mem_cons,
    Arrival.seq]
  constructor
  · rintro (hold | hnew)
    · exact Or.inr hold
    · exact Or.inl (by omega)
  · rintro (hnew | hold)
    · exact Or.inr (by omega)
    · exact Or.inl hold

/-- Where the scan for the ACK number ends, in the array or behind it. -/
theorem Marked.expected_recv (h : Marked seen b) :
    1 ≤ (b.recv a.past a.packet).expected ∧ (b.recv a.past a.packet).expected ≤ 1024 ∧
      (∀ i, 1 ≤ i → i < (b.recv a.past a.packet).expected → i < 512 → i + 1 ∈ a.seq :: seen) ∧
      ((b.recv a.past a.packet).expected < 512 →
        (b.recv a.past a.packet).expected + 1 ∉ a.seq :: seen) ∧
      (512 ≤ (b.recv a.past a.packet).expected →
        ((b.recv a.past a.packet).expected = 512 ↔ a.past 512 ≠ 1)) := by
  have hlow := h.low
  have hhigh := h.high
  obtain ⟨hl, hu, hall, hstop, hend⟩ := recv_scanned a.past a.packet hlow (by omega)
    (fun i hi hn hi' => (h.recved i (by omega) hi').mpr (h.filled i hi hn))
  refine ⟨by omega, hu, ?_, ?_, hend hhigh⟩
  · exact fun i hi hn hi' => (h.recved_recv a (by omega) hi').mp (hall i hi hn hi')
  · intro hlt hmem
    have hflag := hstop hlt
    rw [(h.recved_recv a (by omega) hlt).mpr hmem] at hflag
    cases hflag

theorem Marked.high_recv (h : Marked seen b) (hpast : a.past 512 ≠ 1) :
    (b.recv a.past a.packet).expected ≤ 512 := by
  obtain ⟨_, _, _, _, hend⟩ := h.expected_recv a
  by_contra hgt
  have := (hend (by omega)).mpr hpast
  omega

theorem Marked.recv (h : Marked seen b) (hend : (b.recv a.past a.packet).expected ≤ 512) :
    Marked (a.seq :: seen) (b.recv a.past a.packet) := by
  obtain ⟨hlow, _, hfilled, hstop, _⟩ := h.expected_recv a
  exact ⟨fun i hi hn => h.recved_recv a hi hn, hlow, hend,
    fun i hi hn => hfilled i hi hn (by omega), hstop⟩

theorem Marked.cumulative_iff (h : Marked seen b) (hseen : ∀ k ∈ seen, k ≤ 512) :
    Cumulative (a.seq :: seen) (b.recv a.past a.packet).expected ↔
      1 ∈ a.seq :: seen ∧
        ((∀ k, 1 ≤ k → k ≤ 512 → k ∈ a.seq :: seen) → a.past 512 ≠ 1) := by
  obtain ⟨hlow, _, hfilled, hstop, hend⟩ := h.expected_recv a
  have hbound : ∀ k ∈ a.seq :: seen, k ≤ 512 := by
    intro k hk
    obtain rfl | hk := List.mem_cons.mp hk
    · exact a.high
    · exact hseen k hk
  constructor
  · intro hc
    refine ⟨hc.all 1 le_rfl hlow, ?_⟩
    intro hall
    have hge : 512 ≤ (b.recv a.past a.packet).expected := by
      by_contra hlt
      exact hstop (by omega) (hall _ (by omega) (by omega))
    refine (hend hge).mp ?_
    by_contra hne
    have hover := hbound 513 (hc.all 513 (by omega) (by omega))
    omega
  · rintro ⟨hfirst, hpast⟩
    have hall : ∀ k, 1 ≤ k → k ≤ (b.recv a.past a.packet).expected → k ≤ 512 →
        k ∈ a.seq :: seen := by
      intro k hk hn hk'
      by_cases hone : k = 1
      · rw [hone]
        exact hfirst
      · have hslot := hfilled (k - 1) (by omega) (by omega) (by omega)
        rwa [sub_add_cancel] at hslot
    have hu : (b.recv a.past a.packet).expected ≤ 512 := by
      by_contra hgt
      have hfull := hpast fun k hk hk' => hall k hk (by omega) hk'
      have := (hend (by omega)).mpr hfull
      omega
    refine ⟨by omega, fun k hk hn => hall k hk hn (by omega), ?_⟩
    by_cases hlt : (b.recv a.past a.packet).expected < 512
    · exact hstop hlt
    · intro hmem
      have := hbound _ hmem
      omega

end Recv

section Runs

variable {e : Endian} {socket : Int}

theorem current_fresh {P : RecvBuffer → Prop} {offset : Int} {recvList : List RecvBuffer}
    (hfree : (initRecvBuffer offset socket recvList).1 = 1)
    (hp : P { expected := 1, socket := socket, offset := offset, busy := true, totalRecv := 0,
              chunks := fun _ => emptyChunk }) :
    Current socket P (fresh offset socket recvList) := by
  unfold initRecvBuffer at hfree
  split at hfree
  · exact absurd hfree (show ¬(-1 : Int) = 1 by decide)
  · rename_i hnone
    refine ⟨_, recvList, ?_, rfl, hp⟩
    rw [fresh, initRecvBuffer, if_neg hnone]

theorem arrive_head {s : Arriving} {b : RecvBuffer} {rest : List RecvBuffer} (a : Arrival)
    (hl : s.recvList = b :: rest) (hb : b.socket = socket) :
    (arrive e socket s a).recvList = b.recv a.past a.packet :: rest ∧
      ackNum e socket s a =
        some (BitVec.ofInt 32 (b.recv a.past a.packet).expected).toInt := by
  have hsplit := recvData_split e a.past a.packet socket [] rest b a.high (by simp) hb
  rw [List.nil_append, List.nil_append] at hsplit
  rw [arrive, ackNum, hl, hsplit]
  exact ⟨rfl, rfl⟩

/-- The ACK tells how far the packets have arrived without a gap. -/
def Exact (e : Endian) (socket : Int) (s : Arriving) (a : Arrival) : Prop :=
  ∃ n, ackNum e socket s a = some n ∧ Cumulative (a.seq :: s.seen) n

/-- The first packet has arrived, and when all have, what is behind the slots
does not look like one more. -/
def Covered (s : Arriving) (a : Arrival) : Prop :=
  1 ∈ a.seq :: s.seen ∧ ((∀ k, 1 ≤ k → k ≤ 512 → k ∈ a.seq :: s.seen) → a.past 512 ≠ 1)

/-- What the arrivals leave as long as no ACK runs over the end. -/
structure Arrived (socket : Int) (s : Arriving) : Prop where
  bound : ∀ k ∈ s.seen, k ≤ 512
  current : Current socket (Marked s.seen) s

theorem exact_iff {s : Arriving} (h : Arrived socket s) (a : Arrival) :
    Exact e socket s a ↔ Covered s a := by
  obtain ⟨b, rest, hl, hb, hm⟩ := h.current
  obtain ⟨hlow, hhigh, _⟩ := hm.expected_recv a
  have hack := (arrive_head (e := e) a hl hb).2
  rw [toInt_ofInt32 (by omega) (by omega)] at hack
  rw [Covered, ← hm.cumulative_iff a h.bound, Exact, hack]
  constructor
  · rintro ⟨n, hn, hc⟩
    obtain rfl := Option.some.inj hn
    exact hc
  · exact fun hc => ⟨_, rfl, hc⟩

theorem Cumulative.high {seen : List Int} {n : Int} (h : Cumulative seen n)
    (hb : ∀ k ∈ seen, k ≤ 512) : n ≤ 512 := by
  by_contra hgt
  have := hb 513 (h.all 513 (by omega) (by omega))
  omega

theorem bound_arrive {s : Arriving} (a : Arrival) (hb : ∀ k ∈ s.seen, k ≤ 512) :
    ∀ k ∈ a.seq :: s.seen, k ≤ 512 := by
  intro k hk
  obtain rfl | hk := List.mem_cons.mp hk
  · exact a.high
  · exact hb k hk

theorem arrived_step {s : Arriving} {a : Arrival} (h : Arrived socket s) (hc : Covered s a) :
    Arrived socket (arrive e socket s a) := by
  obtain ⟨b, rest, hl, hb, hm⟩ := h.current
  have hbound := bound_arrive a h.bound
  have hcumulative := (hm.cumulative_iff a h.bound).mpr hc
  refine ⟨hbound, _, rest, (arrive_head a hl hb).1, ?_, hm.recv a (hcumulative.high hbound)⟩
  rw [recv_socket, hb]

/-- Every ACK of a run is exact exactly when the first packet is there from
the first ACK on and the scan never runs over the end. -/
theorem ack_exact_iff (e : Endian) (socket offset : Int) (recvList : List RecvBuffer)
    (hfree : (initRecvBuffer offset socket recvList).1 = 1) (arrivals : List Arrival) :
    Along (arrive e socket) (Exact e socket) (fresh offset socket recvList) arrivals ↔
      Along (arrive e socket) Covered (fresh offset socket recvList) arrivals := by
  have hkeeps : ∀ (s : Arriving) a, Arrived socket s → Exact e socket s a →
      Arrived socket (arrive e socket s a) :=
    fun s a hs he => arrived_step hs ((exact_iff hs a).mp he)
  have hiff : ∀ (s : Arriving) a, Arrived socket s → (Exact e socket s a ↔ Covered s a) :=
    fun s a hs => exact_iff hs a
  refine along_congr hkeeps hiff _ arrivals ⟨fun k hk => ?_, ?_⟩
  · simp [fresh] at hk
  · exact current_fresh hfree (marked_fresh offset socket true)

theorem sliceOf_seq (seq : Int) (h : 1 ≤ seq ∧ seq ≤ 512) (bytes : List Byte) :
    ((({ initPacket .little 3 (some bytes) bytes.length with
        header := { (initPacket .little 3 (some bytes) bytes.length).header with
          seqNum := BitVec.ofInt 32 seq } } : DataPacket).convert .little).ntoh .little).seq =
      seq := by
  rw [DataPacket.seq, ntoh_convert_seqNum]
  exact toInt_ofInt32 (by omega) (by omega)

def dataArrival (seq : Int) (h : 1 ≤ seq ∧ seq ≤ 512) (bytes : List Byte) : Arrival where
  past := fun _ => 0
  packet := (({ initPacket .little 3 (some bytes) bytes.length with
    header := { (initPacket .little 3 (some bytes) bytes.length).header with
      seqNum := BitVec.ofInt 32 seq } } : DataPacket).convert .little).ntoh .little
  low := by rw [sliceOf_seq seq h bytes]; exact h.1
  high := by rw [sliceOf_seq seq h bytes]; exact h.2

@[simp] theorem dataArrival_seq (seq : Int) (h : 1 ≤ seq ∧ seq ≤ 512) (bytes : List Byte) :
    (dataArrival seq h bytes).seq = seq := sliceOf_seq seq h bytes

theorem ack_exact_run :
    Along (arrive .little 2) (Exact .little 2) (fresh 7 2 [])
        [dataArrival 1 (by decide) [5], dataArrival 3 (by decide) [6]] ↔
      Along (arrive .little 2) Covered (fresh 7 2 [])
        [dataArrival 1 (by decide) [5], dataArrival 3 (by decide) [6]] :=
  ack_exact_iff .little 2 7 [] rfl [dataArrival 1 (by decide) [5], dataArrival 3 (by decide) [6]]

/-- Packet 2 comes first and is acknowledged with 2. -/
theorem ack_inexact :
    ¬∀ arrivals : List Arrival, Along (arrive .little 2) (Exact .little 2) (fresh 7 2 []) arrivals := by
  intro h
  obtain ⟨⟨n, hn, hc⟩, _⟩ := h [dataArrival 2 (by decide) [5]]
  have hack : ackNum .little 2 (fresh 7 2 []) (dataArrival 2 (by decide) [5]) = some 2 := by
    decide +kernel
  obtain rfl := Option.some.inj (hack.symm.trans hn)
  have hfirst := hc.all 1 (by decide) (by decide)
  revert hfirst
  decide

end Runs

/-- The slots hold the payloads of the packets that have arrived, and nothing
else. -/
structure Holds (payload : Int → Int × List Byte) (seen : List Int) (b : RecvBuffer) : Prop where
  slot : ∀ i, 0 ≤ i → i < 512 → ((b.chunks i).length, (b.chunks i).content) =
    if i + 1 ∈ seen then payload (i + 1) else (0, [])
  totalRecv : b.totalRecv = total 512 (fun i => (b.chunks i).length)

/-- Two buffers that differ at most in their `acked` flags, as far as the
packets of a chunk go. -/
structure Same (b c : RecvBuffer) : Prop where
  recved : ∀ i, 0 ≤ i → i < 512 → (b.chunks i).recved = (c.chunks i).recved
  length : ∀ i, 0 ≤ i → i < 512 → (b.chunks i).length = (c.chunks i).length
  content : ∀ i, 0 ≤ i → i < 512 → (b.chunks i).content = (c.chunks i).content
  totalRecv : b.totalRecv = c.totalRecv
  expected : b.expected = c.expected

theorem holds_fresh (payload : Int → Int × List Byte) (offset socket : Int) (busy : Bool) :
    Holds payload [] { expected := 1, socket := socket, offset := offset, busy := busy,
                       totalRecv := 0, chunks := fun _ => emptyChunk } := by
  refine ⟨fun i _ _ => by simp [emptyChunk], ?_⟩
  simp [total, emptyChunk]

section Content

variable {payload : Int → Int × List Byte} {seen : List Int} {b c : RecvBuffer} {a : Arrival}

theorem Holds.recv (h : Holds payload seen b) (hm : Marked seen b)
    (hp : a.payload = payload a.seq) :
    Holds payload (a.seq :: seen) (b.recv a.past a.packet) := by
  have hlow := a.low
  have hhigh := a.high
  have hown : a.packet.seq - 1 + 1 = a.seq := sub_add_cancel a.packet.seq 1
  have hempty : (b.chunks (a.packet.seq - 1)).recved = false →
      (b.chunks (a.packet.seq - 1)).length = 0 := by
    intro hr
    have hout : ¬a.packet.seq - 1 + 1 ∈ seen := fun hin => by
      have hset := (hm.recved _ (by omega) (by omega)).mpr hin
      rw [hr] at hset
      cases hset
    have hslot := h.slot (a.packet.seq - 1) (by omega) (by omega)
    rw [if_neg hout] at hslot
    exact congrArg Prod.fst hslot
  refine ⟨?_, ?_⟩
  · intro i hi hn
    by_cases hold : i ≠ a.packet.seq - 1 ∨ (b.chunks i).recved = true
    · obtain ⟨hlength, hcontent⟩ := recv_slot_old b a.past a.packet i hold
      have hiff : i + 1 ∈ a.seq :: seen ↔ i + 1 ∈ seen := by
        obtain hne | hset := hold
        · rw [List.mem_cons, or_iff_right]
          rw [Arrival.seq]
          omega
        · have hin := (hm.recved i hi hn).mp hset
          exact ⟨fun _ => hin, fun _ => List.mem_cons_of_mem _ hin⟩
      rw [hlength, hcontent, h.slot i hi hn]
      simp only [hiff]
    · obtain ⟨hne, hset⟩ := not_or.mp hold
      obtain rfl := not_not.mp hne
      obtain ⟨hlength, hcontent⟩ := recv_slot_new b a.past a.packet (by simpa using hset)
      rw [hlength, hcontent, hown, if_pos List.mem_cons_self, ← hp]
      rfl
  · rw [recv_totalRecv, total_recv b a.past a.packet hlow hhigh hempty, h.totalRecv]
    split
    · rw [add_zero]
    · rfl

theorem Marked.expected_eq {other : List Int} (hb : Marked seen b) (hc : Marked other c)
    (hset : ∀ k, k ∈ seen ↔ k ∈ other) : b.expected = c.expected := by
  have hlb := hb.low
  have hlc := hc.low
  have hhb := hb.high
  have hhc := hc.high
  obtain hlt | heq | hgt := lt_trichotomy b.expected c.expected
  · exact absurd ((hset _).mpr (hc.filled _ hlb hlt)) (hb.stop (by omega))
  · exact heq
  · exact absurd ((hset _).mp (hb.filled _ hlc hgt)) (hc.stop (by omega))

theorem Holds.same {other : List Int} (hb : Holds payload seen b) (hmb : Marked seen b)
    (hc : Holds payload other c) (hmc : Marked other c) (hset : ∀ k, k ∈ seen ↔ k ∈ other) :
    Same b c := by
  have hslot : ∀ i, 0 ≤ i → i < 512 →
      ((b.chunks i).length, (b.chunks i).content) = ((c.chunks i).length, (c.chunks i).content) := by
    intro i hi hn
    rw [hb.slot i hi hn, hc.slot i hi hn]
    simp only [hset]
  have hlength : ∀ i, 0 ≤ i → i < 512 → (b.chunks i).length = (c.chunks i).length :=
    fun i hi hn => congrArg Prod.fst (hslot i hi hn)
  refine ⟨?_, hlength, fun i hi hn => congrArg Prod.snd (hslot i hi hn), ?_,
    hmb.expected_eq hmc hset⟩
  · intro i hi hn
    rw [Bool.eq_iff_iff, hmb.recved i hi hn, hmc.recved i hi hn, hset]
  · rw [hb.totalRecv, hc.totalRecv]
    exact total_congr fun i hi hn => hlength i hi hn

theorem Marked.recv_again (hm : Marked seen b) (hpast : a.past 512 ≠ 1) (ha : a.seq ∈ seen) :
    Same b (b.recv a.past a.packet) := by
  have hlow := a.low
  have hhigh := a.high
  have hslot : (b.chunks (a.packet.seq - 1)).recved = true :=
    (hm.recved _ (by omega) (by omega)).mpr (by rwa [sub_add_cancel])
  have hseen : ∀ k, k ∈ a.seq :: seen ↔ k ∈ seen := by
    intro k
    rw [List.mem_cons]
    constructor
    · rintro (rfl | hk)
      · exact ha
      · exact hk
    · exact Or.inr
  have hold : ∀ i, i ≠ a.packet.seq - 1 ∨ (b.chunks i).recved = true := by
    intro i
    by_cases hi : i = a.packet.seq - 1
    · rw [hi]
      exact Or.inr hslot
    · exact Or.inl hi
  refine ⟨?_, fun i _ _ => (recv_slot_old b a.past a.packet i (hold i)).1.symm,
    fun i _ _ => (recv_slot_old b a.past a.packet i (hold i)).2.symm, ?_, ?_⟩
  · intro i hi hn
    rw [Bool.eq_iff_iff, hm.recved i hi hn, hm.recved_recv a hi hn, hseen]
  · rw [recv_totalRecv, if_pos hslot]
  · exact hm.expected_eq (hm.recv a (hm.high_recv a hpast)) fun k => (hseen k).symm

end Content

section Orders

variable {e : Endian} {socket : Int} {payload : Int → Int × List Byte}

/-- The current buffer is the one the arrivals describe. -/
def Described (payload : Int → Int × List Byte) (socket : Int) (s : Arriving) : Prop :=
  Current socket (fun b => Marked s.seen b ∧ Holds payload s.seen b) s

theorem described_arrive {s : Arriving} {a : Arrival} (h : Described payload socket s)
    (hpast : a.past 512 ≠ 1) (hp : a.payload = payload a.seq) :
    Described payload socket (arrive e socket s a) := by
  obtain ⟨b, rest, hl, hb, hm, hholds⟩ := h
  refine ⟨_, rest, (arrive_head a hl hb).1, ?_, hm.recv a (hm.high_recv a hpast),
    hholds.recv hm hp⟩
  rw [recv_socket, hb]

theorem Current.buffer {P : RecvBuffer → Prop} {s : Arriving} (h : Current socket P s) :
    ∃ b, buffer socket s = some b ∧ P b := by
  obtain ⟨b, rest, hl, hb, hp⟩ := h
  refine ⟨b, ?_, hp⟩
  rw [Reassembly.buffer, hl]
  exact List.find?_cons_of_pos (by simpa using hb)

theorem run_seen (arrivals : List Arrival) (s : Arriving) (k : Int) :
    k ∈ (run (arrive e socket) s arrivals).seen ↔ k ∈ arrivals.map Arrival.seq ∨ k ∈ s.seen := by
  induction arrivals generalizing s with
  | nil => simp
  | cons a arrivals ih =>
    rw [run_cons, ih, List.map_cons, List.mem_cons, arrive, List.mem_cons]
    tauto

theorem described_run {offset : Int} {recvList : List RecvBuffer}
    (hfree : (initRecvBuffer offset socket recvList).1 = 1) (arrivals : List Arrival)
    (hpast : ∀ a ∈ arrivals, a.past 512 ≠ 1) (hp : ∀ a ∈ arrivals, a.payload = payload a.seq) :
    Described payload socket (run (arrive e socket) (fresh offset socket recvList) arrivals) := by
  refine run_invariant (G := fun _ a => a.past 512 ≠ 1 ∧ a.payload = payload a.seq) ?_ _ arrivals ?_ ?_
  · exact fun s a hs ha => described_arrive hs ha.1 ha.2
  · exact current_fresh hfree ⟨marked_fresh offset socket true, holds_fresh payload offset socket true⟩
  · exact along_of_forall _ arrivals fun s a ha => ⟨hpast a ha, hp a ha⟩

theorem payload_of_agree (arrivals : List Arrival)
    (h : ∀ a ∈ arrivals, ∀ b ∈ arrivals, a.seq = b.seq → a.payload = b.payload) :
    ∃ payload : Int → Int × List Byte, ∀ a ∈ arrivals, a.payload = payload a.seq := by
  refine ⟨fun k => ((arrivals.find? (fun a => a.seq = k)).map Arrival.payload).getD (0, []), ?_⟩
  intro a ha
  have hfound : (arrivals.find? (fun b => decide (b.seq = a.seq))).isSome := by
    rw [List.find?_isSome]
    exact ⟨a, ha, by simp⟩
  obtain ⟨b, hb⟩ := Option.isSome_iff_exists.mp hfound
  have hseq : b.seq = a.seq := by simpa using List.find?_some hb
  dsimp only
  rw [hb]
  exact h a ha b (List.mem_of_find?_eq_some hb) hseq.symm

theorem ackNum_again {s : Arriving} (last again : Arrival) (h : Described payload socket s)
    (hlast : last.past 512 ≠ 1) (hpast : again.past 512 ≠ 1) (hin : again.seq ∈ last.seq :: s.seen) :
    ∃ a b n, buffer socket (arrive e socket s last) = some a ∧
      buffer socket (arrive e socket (arrive e socket s last) again) = some b ∧ Same a b ∧
      ackNum e socket s last = some n ∧ ackNum e socket (arrive e socket s last) again = some n := by
  obtain ⟨c, rest, hl, hc, hm, _⟩ := h
  obtain ⟨hafter, hack⟩ := arrive_head (e := e) last hl hc
  have hsocket : (c.recv last.past last.packet).socket = socket := by rw [recv_socket, hc]
  obtain ⟨hagain, hreply⟩ := arrive_head (e := e) again hafter hsocket
  have hmarked := hm.recv last (hm.high_recv last hlast)
  have hsame := hmarked.recv_again hpast hin
  refine ⟨_, _, _, ?_, ?_, hsame, hack, ?_⟩
  · rw [buffer, hafter]
    exact List.find?_cons_of_pos (by simpa using hsocket)
  · rw [buffer, hagain]
    exact List.find?_cons_of_pos (by simpa using hsocket)
  · rw [hreply, hsame.expected]

/-- The buffer depends on which packets have arrived, not on their order and
not on how often they came. -/
theorem arrival_order (e : Endian) (socket offset : Int) (recvList : List RecvBuffer)
    (hfree : (initRecvBuffer offset socket recvList).1 = 1) (es fs : List Arrival)
    (hpast : ∀ a ∈ es ++ fs, a.past 512 ≠ 1)
    (hagree : ∀ a ∈ es ++ fs, ∀ b ∈ es ++ fs, a.seq = b.seq → a.payload = b.payload)
    (hset : ∀ k, k ∈ es.map Arrival.seq ↔ k ∈ fs.map Arrival.seq) :
    (∃ a b, buffer socket (run (arrive e socket) (fresh offset socket recvList) es) = some a ∧
        buffer socket (run (arrive e socket) (fresh offset socket recvList) fs) = some b ∧
        Same a b) ∧
      ∀ front last again, es = front ++ [last] → again.past 512 ≠ 1 →
        again.seq ∈ es.map Arrival.seq →
        ∃ a b n, buffer socket (run (arrive e socket) (fresh offset socket recvList) es) = some a ∧
          buffer socket (arrive e socket
            (run (arrive e socket) (fresh offset socket recvList) es) again) = some b ∧
          Same a b ∧
          ackNum e socket (run (arrive e socket) (fresh offset socket recvList) front) last =
            some n ∧
          ackNum e socket (run (arrive e socket) (fresh offset socket recvList) es) again =
            some n := by
  obtain ⟨payload, hpayload⟩ := payload_of_agree (es ++ fs) hagree
  have hes : ∀ a ∈ es, a ∈ es ++ fs := fun a ha => List.mem_append_left fs ha
  have hfs : ∀ a ∈ fs, a ∈ es ++ fs := fun a ha => List.mem_append_right es ha
  refine ⟨?_, ?_⟩
  · obtain ⟨a, ha, hma, hha⟩ := (described_run (e := e) hfree es (fun a ha => hpast a (hes a ha))
      (fun a ha => hpayload a (hes a ha))).buffer
    obtain ⟨b, hb, hmb, hhb⟩ := (described_run (e := e) hfree fs (fun a ha => hpast a (hfs a ha))
      (fun a ha => hpayload a (hfs a ha))).buffer
    refine ⟨a, b, ha, hb, hha.same hma hhb hmb ?_⟩
    intro k
    rw [run_seen, run_seen, hset]
  · rintro front last again rfl hagain hin
    have hfront : ∀ a ∈ front, a ∈ front ++ [last] ++ fs := fun a ha => by simp [ha]
    have hlast : last ∈ front ++ [last] ++ fs := by simp
    have hdescribed := described_run (e := e) hfree front (fun a ha => hpast a (hfront a ha))
      (fun a ha => hpayload a (hfront a ha))
    rw [run_append, run_cons, run_nil]
    refine ackNum_again last again hdescribed (hpast last hlast) hagain ?_
    rw [List.map_append, List.mem_append] at hin
    rw [List.mem_cons, run_seen]
    obtain hold | hnew := hin
    · exact Or.inr (Or.inl hold)
    · exact Or.inl (by simpa using hnew)

def scattered : List Arrival :=
  [dataArrival 3 (by decide) [6], dataArrival 1 (by decide) [5], dataArrival 3 (by decide) [6]]

def ordered : List Arrival := [dataArrival 1 (by decide) [5], dataArrival 3 (by decide) [6]]

theorem arrival_order_run :
    (∃ a b, buffer 2 (run (arrive .little 2) (fresh 7 2 []) scattered) = some a ∧
        buffer 2 (run (arrive .little 2) (fresh 7 2 []) ordered) = some b ∧ Same a b) ∧
      ∀ front last again, scattered = front ++ [last] → again.past 512 ≠ 1 →
        again.seq ∈ scattered.map Arrival.seq →
        ∃ a b n, buffer 2 (run (arrive .little 2) (fresh 7 2 []) scattered) = some a ∧
          buffer 2 (arrive .little 2 (run (arrive .little 2) (fresh 7 2 []) scattered) again) =
            some b ∧
          Same a b ∧
          ackNum .little 2 (run (arrive .little 2) (fresh 7 2 []) front) last = some n ∧
          ackNum .little 2 (run (arrive .little 2) (fresh 7 2 []) scattered) again = some n :=
  arrival_order .little 2 7 [] rfl scattered ordered
    (by simp [scattered, ordered, dataArrival])
    (by decide +kernel)
    (by intro k; simp only [scattered, ordered, List.map_cons, dataArrival_seq, List.mem_cons]; tauto)

end Orders

end P2PCC.Reassembly

import P2PCC.Receiving
import P2PCC.Reassembly

namespace P2PCC.BufferBounds

open P2PCC.Lib.ByteOrder P2PCC.Lib.FirstMatch P2PCC.Lib.Runs P2PCC.Lib.Slots P2PCC.Packet
open P2PCC.ChunkFile P2PCC.Sender P2PCC.Receiver P2PCC.HandlePacket P2PCC.Peer P2PCC.Buffers
open P2PCC.Receiving P2PCC.Reassembly

section Scan

def scanReads (recved : Int → Bool) : Nat → Int → List Int
  | 0, _ => []
  | n + 1, i => i :: if recved i then scanReads recved n (i + 1) else []

theorem mem_scanReads (recved : Int → Bool) (n : Nat) (i j : Int) :
    j ∈ scanReads recved n i ↔ i ≤ j ∧ j < i + n ∧ j ≤ scan recved n i := by
  induction n generalizing i with
  | zero =>
    simp only [scanReads, List.not_mem_nil, false_iff]
    omega
  | succ n ih =>
    have hstart := (scan_spec recved n (i + 1)).1
    rw [scanReads, scan, List.mem_cons]
    by_cases hi : recved i = true
    · rw [if_pos hi, if_pos hi, ih]
      push_cast
      omega
    · rw [if_neg hi, if_neg hi]
      simp only [List.not_mem_nil, or_false]
      push_cast
      omega

/-- The slots that `recv_data` reads in its search for the ACK number. -/
def searchReads (b : RecvBuffer) (past : Int → Int) (packet : DataPacket) : List Int :=
  scanReads ((b.store packet).flag past) (1024 - (b.store packet).expected).toNat
    (b.store packet).expected

/-- The search stays in the array, and the next one starts in it or right
behind it. -/
def Inside (socket : Int) (s : Arriving) (a : Arrival) : Prop :=
  ∀ b, buffer socket s = some b →
    (∀ i ∈ searchReads b a.past a.packet, 0 ≤ i ∧ i ≤ 511) ∧
      (b.recv a.past a.packet).expected ≤ 512

/-- Not all packets after the first one have arrived. -/
def Missing (s : Arriving) (a : Arrival) : Prop :=
  ∃ k, 2 ≤ k ∧ k ≤ 512 ∧ k ∉ a.seq :: s.seen

theorem mem_searchReads (b : RecvBuffer) (past : Int → Int) (packet : DataPacket) (i : Int)
    (hb : b.expected ≤ 1024) : i ∈ searchReads b past packet ↔
      b.expected ≤ i ∧ i < 1024 ∧ i ≤ (b.recv past packet).expected := by
  have he : (b.store packet).expected = b.expected := by
    unfold RecvBuffer.store
    dsimp only
    split <;> rfl
  have hr : (b.recv past packet).expected = scan ((b.store packet).flag past)
      (1024 - (b.store packet).expected).toNat (b.store packet).expected := rfl
  rw [searchReads, mem_scanReads, ← hr, he]
  omega

theorem inside_iff {socket : Int} {s : Arriving} (h : Arrived socket s) (a : Arrival) :
    Inside socket s a ↔ Missing s a := by
  obtain ⟨b, rest, hl, hb, hm⟩ := h.current
  obtain ⟨hlow, hhigh, hfilled, hstop, _⟩ := hm.expected_recv a
  have hfound : buffer socket s = some b := by
    rw [buffer, hl]
    exact List.find?_cons_of_pos (by simpa using hb)
  have hstart := hm.high
  have hfirst := hm.low
  constructor
  · intro hin
    obtain ⟨hreads, hend⟩ := hin b hfound
    have hlt : (b.recv a.past a.packet).expected < 512 := by
      by_contra hge
      have hread := (mem_searchReads b a.past a.packet 512 (by omega)).mpr (by omega)
      have := (hreads 512 hread).2
      omega
    exact ⟨_, by omega, by omega, hstop hlt⟩
  · rintro ⟨k, hk, hk', hmissing⟩ c hc
    obtain rfl := Option.some.inj (hfound.symm.trans hc)
    have hlt : (b.recv a.past a.packet).expected < 512 := by
      by_contra hge
      have hslot := hfilled (k - 1) (by omega) (by omega) (by omega)
      rw [sub_add_cancel] at hslot
      exact hmissing hslot
    refine ⟨fun i hi => ?_, by omega⟩
    have := (mem_searchReads b a.past a.packet i (by omega)).mp hi
    omega

theorem inside_step {e : Endian} {socket : Int} {s : Arriving} {a : Arrival}
    (h : Arrived socket s) (hin : Inside socket s a) : Arrived socket (arrive e socket s a) := by
  obtain ⟨b, rest, hl, hb, hm⟩ := h.current
  have hfound : buffer socket s = some b := by
    rw [buffer, hl]
    exact List.find?_cons_of_pos (by simpa using hb)
  refine ⟨bound_arrive a h.bound, _, rest, (arrive_head a hl hb).1, ?_, hm.recv a (hin b hfound).2⟩
  rw [recv_socket, hb]

theorem along_inside {e : Endian} {socket offset : Int} {recvList : List RecvBuffer}
    (hfree : (initRecvBuffer offset socket recvList).1 = 1) (arrivals : List Arrival) :
    Along (arrive e socket) (Inside socket) (fresh offset socket recvList) arrivals ↔
      Along (arrive e socket) Missing (fresh offset socket recvList) arrivals := by
  refine along_congr (I := Arrived socket) (fun s a hs hin => inside_step hs hin)
    (fun s a hs => inside_iff hs a) _ arrivals ⟨fun k hk => ?_, ?_⟩
  · simp [fresh] at hk
  · exact current_fresh hfree (marked_fresh offset socket true)

theorem along_missing (e : Endian) (socket : Int) (arrivals : List Arrival) (s : Arriving)
    (hs : ∃ k, 2 ≤ k ∧ k ≤ 512 ∧ k ∉ s.seen) :
    Along (arrive e socket) Missing s arrivals ↔
      ∃ k, 2 ≤ k ∧ k ≤ 512 ∧ k ∉ arrivals.map Arrival.seq ∧ k ∉ s.seen := by
  induction arrivals generalizing s with
  | nil => simpa [Along] using hs
  | cons a arrivals ih =>
    have hcons : ∀ k, k ∉ (a :: arrivals).map Arrival.seq ∧ k ∉ s.seen ↔
        k ∉ arrivals.map Arrival.seq ∧ k ∉ (arrive e socket s a).seen := by
      intro k
      simp only [arrive, List.map_cons, List.mem_cons, not_or]
      tauto
    simp only [hcons]
    constructor
    · rintro ⟨hmissing, hrest⟩
      exact (ih (arrive e socket s a) hmissing).mp hrest
    · intro hnever
      have hmissing : Missing s a := by
        obtain ⟨k, hk, hk', _, hseen⟩ := hnever
        exact ⟨k, hk, hk', hseen⟩
      exact ⟨hmissing, (ih (arrive e socket s a) hmissing).mpr hnever⟩

/-- The search stays in the array in a whole run exactly when one of the
packets after the first one never arrives. -/
theorem search_inside_iff (e : Endian) (socket offset : Int) (recvList : List RecvBuffer)
    (hfree : (initRecvBuffer offset socket recvList).1 = 1) (arrivals : List Arrival) :
    Along (arrive e socket) (Inside socket) (fresh offset socket recvList) arrivals ↔
      ∃ k, 2 ≤ k ∧ k ≤ 512 ∧ k ∉ arrivals.map Arrival.seq := by
  rw [along_inside hfree, along_missing e socket arrivals _ ⟨2, by decide, by decide, by simp [fresh]⟩]
  simp [fresh]

theorem search_inside_run :
    Along (arrive .little 2) (Inside 2) (fresh 7 2 [])
        [dataArrival 2 (by decide) [5], dataArrival 1 (by decide) [6]] ↔
      ∃ k, 2 ≤ k ∧ k ≤ 512 ∧
        k ∉ [dataArrival 2 (by decide) [5], dataArrival 1 (by decide) [6]].map Arrival.seq :=
  search_inside_iff .little 2 7 [] rfl
    [dataArrival 2 (by decide) [5], dataArrival 1 (by decide) [6]]

theorem packet_number (i : Fin 512) : 1 ≤ (i : Int) + 1 ∧ (i : Int) + 1 ≤ 512 := by
  omega

/-- The packets of a chunk, with one byte each. -/
def wholeChunk : List Arrival :=
  (List.finRange 512).map (fun i : Fin 512 => dataArrival (i + 1) (packet_number i) [5])

theorem wholeChunk_seq : ∀ k, 1 ≤ k → k ≤ 512 → k ∈ wholeChunk.map Arrival.seq := by
  intro k hk hk'
  refine List.mem_map.mpr ⟨_, List.mem_map_of_mem
    (List.mem_finRange ⟨(k - 1).toNat, by omega⟩), ?_⟩
  rw [dataArrival_seq]
  simp only [Int.toNat_of_nonneg (show 0 ≤ k - 1 by omega)]
  omega

/-- The packet that completes the chunk makes the search read slot 512. -/
theorem search_outside :
    ¬∀ arrivals : List Arrival,
      Along (arrive .little 2) (Inside 2) (fresh 7 2 []) arrivals := by
  intro h
  obtain ⟨arrivals, hall⟩ : ∃ arrivals : List Arrival,
      ∀ k, 1 ≤ k → k ≤ 512 → k ∈ arrivals.map Arrival.seq := ⟨wholeChunk, wholeChunk_seq⟩
  have hfree : (initRecvBuffer 7 2 []).1 = 1 := rfl
  have hrun := (along_inside hfree arrivals).mp (h arrivals)
  rw [along_missing .little 2 arrivals _ ⟨2, by decide, by decide, by simp [fresh]⟩] at hrun
  obtain ⟨k, hk, hk', hmissing, _⟩ := hrun
  exact hmissing (hall k (by omega) hk')

end Scan

section Store

variable {R : Type}

def recordedTotal (b : RecvBuffer) : Int :=
  total 512 (fun i => if (b.chunks i).recved then (b.chunks i).length else 0)

/-- What holds of a buffer as long as every packet fitted: an empty slot has
length 0, no slot is longer than a packet, and the total is theirs. -/
structure Recorded (b : RecvBuffer) : Prop where
  totalRecv : b.totalRecv = recordedTotal b
  empty : ∀ i, 0 ≤ i → i < 512 → (b.chunks i).recved = false → (b.chunks i).length = 0
  bounded : ∀ i, 0 ≤ i → i < 512 → 0 ≤ (b.chunks i).length ∧ (b.chunks i).length ≤ 1200

/-- A DATA packet that `recv_data` does not turn away, and the buffer it is
for. -/
def Reaches (e : Endian) (config : Config) (peer : Peer R) (event : Event) (d : Delivery)
    (b : RecvBuffer) : Prop :=
  delivery e config event = some d ∧ d.packet.header.packetType = 3 ∧ d.packet.seq ≤ 512 ∧
    peer.recvList.find? (fun b => b.socket = d.sockfd) = some b

/-- The packet has a slot of the array, and it is not longer than a packet
can be unless the slot is taken. -/
def Fits (e : Endian) (config : Config) (peer : Peer R) (event : Event) : Prop :=
  ∀ d b, Reaches e config peer event d b → 1 ≤ d.packet.seq ∧
    ((b.chunks (d.packet.seq - 1)).recved = false →
      0 ≤ d.packet.length ∧ d.packet.length ≤ 1200)

theorem recorded_empty (offset socket : Int) :
    Recorded { expected := 1, socket := socket, offset := offset, busy := true, totalRecv := 0,
               chunks := fun _ => emptyChunk } := by
  refine ⟨?_, fun i _ _ _ => rfl, fun i _ _ => by simp [emptyChunk]⟩
  simp [recordedTotal, total, emptyChunk]

theorem recordedTotal_eq {b : RecvBuffer} (hempty : ∀ i, 0 ≤ i → i < 512 →
    (b.chunks i).recved = false → (b.chunks i).length = 0) :
    recordedTotal b = total 512 (fun i => (b.chunks i).length) := by
  apply total_congr
  intro i hi hn
  cases hr : (b.chunks i).recved with
  | true => rfl
  | false => exact (hempty i hi hn hr).symm

theorem Recorded.recv {b : RecvBuffer} (h : Recorded b) (past : Int → Int) {packet : DataPacket}
    (hlow : 1 ≤ packet.seq) (hhigh : packet.seq ≤ 512)
    (hfits : (b.chunks (packet.seq - 1)).recved = false →
      0 ≤ packet.length ∧ packet.length ≤ 1200) : Recorded (b.recv past packet) := by
  have hslot : ∀ i, (((b.recv past packet).chunks i).length = (b.chunks i).length ∧
        ((b.recv past packet).chunks i).recved = (b.chunks i).recved) ∨
      (i = packet.seq - 1 ∧ (b.chunks i).recved = false ∧
        ((b.recv past packet).chunks i).length = packet.length ∧
        ((b.recv past packet).chunks i).recved = true) := by
    intro i
    rw [recv_recved]
    by_cases hi : i = packet.seq - 1
    · cases hr : (b.chunks i).recved with
      | true => exact Or.inl ⟨(recv_slot_old b past packet i (Or.inr hr)).1, rfl⟩
      | false =>
        refine Or.inr ⟨hi, rfl, ?_, by simp [hi]⟩
        rw [hi]
        exact (recv_slot_new b past packet (hi ▸ hr)).1
    · exact Or.inl ⟨(recv_slot_old b past packet i (Or.inl hi)).1, by simp [hi]⟩
  have hempty : ∀ i, 0 ≤ i → i < 512 → ((b.recv past packet).chunks i).recved = false →
      ((b.recv past packet).chunks i).length = 0 := by
    intro i hi hn hr
    obtain ⟨hl, hold⟩ | ⟨_, _, _, hnew⟩ := hslot i
    · rw [hl]
      exact h.empty i hi hn (hold.symm.trans hr)
    · rw [hnew] at hr
      cases hr
  have hbounded : ∀ i, 0 ≤ i → i < 512 → 0 ≤ ((b.recv past packet).chunks i).length ∧
      ((b.recv past packet).chunks i).length ≤ 1200 := by
    intro i hi hn
    obtain ⟨hl, _⟩ | ⟨rfl, hr, hl, _⟩ := hslot i
    · rw [hl]
      exact h.bounded i hi hn
    · rw [hl]
      exact hfits hr
  refine ⟨?_, hempty, hbounded⟩
  rw [recordedTotal_eq hempty, total_recv b past packet hlow hhigh
    (fun hr => h.empty _ (by omega) (by omega) hr), recv_totalRecv, h.totalRecv,
    recordedTotal_eq h.empty]
  split
  · rw [add_zero]
  · rfl

variable [Rate R]

/-- What a DATA packet may do: it stores into a slot of the array, the length
it leaves there is that of a packet, and every total is that of the slots. -/
structure Safe (e : Endian) (config : Config) (peer : Peer R) (event : Event) : Prop where
  slot : ∀ d b, Reaches e config peer event d b → 0 ≤ d.packet.seq - 1 ∧ d.packet.seq - 1 ≤ 511
  length : ∀ d b, Reaches e config peer event d b →
    0 ≤ ((b.recv d.stray.past d.packet).chunks (d.packet.seq - 1)).length ∧
      ((b.recv d.stray.past d.packet).chunks (d.packet.seq - 1)).length ≤ 1200
  totalRecv : ∀ c ∈ (step e config peer event).recvList, c.totalRecv = recordedTotal c

theorem recorded_step {e : Endian} {config : Config} {peer : Peer R} {event : Event}
    (h : ∀ c ∈ peer.recvList, Recorded c) (hfits : Fits e config peer event) :
    ∀ c ∈ (step e config peer event).recvList, Recorded c := by
  obtain ⟨next, hr, hsame⟩ := step_received e config peer event
  rw [hsame.recvList]
  refine hr.recvList_induction (P := fun l => ∀ c ∈ l, Recorded c) ?_ ?_ ?_ h
  · intro offset socket l _ hl
    exact initRecvBuffer_forall offset socket hl (recorded_empty offset socket)
  · intro offset l hl
    exact releaseBuffer_forall (fun b hb => ⟨hb.totalRecv, hb.empty, hb.bounded⟩) offset l hl
  · intro d hd ht
    apply recvData_forall e d.stray.past d.packet d.sockfd h
    intro b hfound hseq hb
    obtain ⟨hlow, hlength⟩ := hfits d b ⟨hd, ht, hseq, hfound⟩
    exact hb.recv d.stray.past hlow hseq hlength

theorem safe_iff {e : Endian} {config : Config} {peer : Peer R}
    (h : ∀ c ∈ peer.recvList, Recorded c) (event : Event) :
    Safe e config peer event ↔ Fits e config peer event := by
  constructor
  · intro hsafe d b hreach
    have hslot := (hsafe.slot d b hreach).1
    refine ⟨by omega, fun hr => ?_⟩
    have hlength := hsafe.length d b hreach
    rwa [(recv_slot_new b d.stray.past d.packet hr).1] at hlength
  · intro hfits
    refine ⟨fun d b hreach => ?_, fun d b hreach => ?_, fun c hc => ?_⟩
    · have hlow := (hfits d b hreach).1
      obtain ⟨_, _, hseq, _⟩ := hreach
      omega
    · obtain ⟨hlow, hlength⟩ := hfits d b hreach
      obtain ⟨_, _, hseq, hfound⟩ := hreach
      have hrecorded := (h b (List.mem_of_find?_eq_some hfound)).recv d.stray.past hlow hseq hlength
      exact hrecorded.bounded _ (by omega) (by omega)
    · exact (recorded_step h hfits c hc).totalRecv

/-- In every run all DATA packets are stored safely exactly when all of them
fit. -/
theorem store_safe_iff (e : Endian) (config : Config) (events : List Event) :
    Along (step e config) (Safe e config) (Peer.init : Peer R) events ↔
      Along (step e config) (Fits e config) (Peer.init : Peer R) events := by
  refine along_congr (I := fun peer : Peer R => ∀ c ∈ peer.recvList, Recorded c) ?_ ?_ _ events ?_
  · exact fun peer event h hsafe => recorded_step h ((safe_iff h event).mp hsafe)
  · exact fun peer event h => safe_iff h event
  · simp [Peer.init]

/-- A peer that was asked for a chunk sends a DATA packet with sequence
number 0. -/
theorem store_outside :
    ¬∀ events, Along (step .little network) (Safe .little network) (Peer.init : Peer ℚ) events := by
  intro h
  have hrun := h [.inbound 1 cleared ⟨2, 2, 2⟩ (initPacket .little 1 (some (chunkHash 48)) 20),
    .inbound 1 cleared ⟨2, 2, 2⟩ (initPacket .little 3 (some [5]) 1)]
  have hfound : ((step .little network (Peer.init : Peer ℚ) (.inbound 1 cleared ⟨2, 2, 2⟩
      (initPacket .little 1 (some (chunkHash 48)) 20))).recvList.find?
        (fun b => b.socket = 2)).isSome = true := by
    decide +kernel
  obtain ⟨b, hb⟩ := Option.isSome_iff_exists.mp hfound
  have hslot := hrun.2.1.slot ⟨1, cleared, 2, (initPacket .little 3 (some [5]) 1).ntoh .little⟩ b
    ⟨by rfl, by decide, by decide, hb⟩
  revert hslot
  decide

end Store

end P2PCC.BufferBounds

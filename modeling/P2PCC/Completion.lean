import P2PCC.ActiveChunks
import P2PCC.Buffers

namespace P2PCC.Completion

open P2PCC.Lib.ByteOrder P2PCC.Lib.Runs P2PCC.Lib.FirstMatch P2PCC.Packet P2PCC.ChunkFile
open P2PCC.Tracker P2PCC.Sender P2PCC.Receiver P2PCC.Manager P2PCC.HandlePacket P2PCC.Peer
open P2PCC.Receiving P2PCC.ActiveChunks P2PCC.Buffers

variable {R : Type}

def gain (packet : DataPacket) (b : RecvBuffer) : Int :=
  if packet.seq ≤ 512 ∧ (b.chunks (packet.seq - 1)).recved = false then packet.length else 0

/-- The buffers with the bytes of a packet counted in, which go to the first
buffer of the peer. -/
def counting (packet : DataPacket) (sockfd : Int) (recvList : List RecvBuffer) : List RecvBuffer :=
  modifyFirst (fun b => b.socket = sockfd)
    (fun b => { b with totalRecv := b.totalRecv + gain packet b }) recvList

theorem isBufferFull_congr {l l' : List RecvBuffer} (offset : Int)
    (h : l.map (fun b => (b.offset, b.totalRecv)) = l'.map (fun b => (b.offset, b.totalRecv))) :
    isBufferFull offset l = isBufferFull offset l' := by
  have hany : ∀ p : Int × Int → Bool, l.any (fun b => p (b.offset, b.totalRecv)) =
      l'.any (fun b => p (b.offset, b.totalRecv)) := by
    intro p
    have hl := List.any_map (p := p) (f := fun b : RecvBuffer => (b.offset, b.totalRecv)) (l := l)
    have hl' := List.any_map (p := p) (f := fun b : RecvBuffer => (b.offset, b.totalRecv)) (l := l')
    rw [h] at hl
    exact hl.symm.trans hl'
  have hgap := hany (fun k => decide (k.1 = offset) && decide (1024 * 512 - k.2 ≠ 0))
  have hex := hany (fun k => decide (k.1 = offset))
  unfold isBufferFull
  rw [hgap, hex]

theorem isBufferFull_recvData (e : Endian) (past : Int → Int) (packet : DataPacket) (sockfd : Int)
    (recvList : List RecvBuffer) (offset : Int) :
    isBufferFull offset (recvData e past packet sockfd recvList).1 =
      isBufferFull offset (counting packet sockfd recvList) := by
  apply isBufferFull_congr
  obtain ⟨hn, hwhy⟩ | ⟨hseq, l₁, b, l₂, hl, hfirst, hb, hr⟩ :=
    recvData_cases e past packet sockfd recvList
  · rw [hn, counting]
    obtain hseq | hnone := hwhy
    · clear hn
      induction recvList with
      | nil => rfl
      | cons c l ih =>
        rw [modifyFirst]
        split
        · simp [gain, not_le.mpr hseq]
        · rw [List.map_cons, List.map_cons, ← ih]
    · rw [modifyFirst_none (List.find?_eq_none.mpr (by simpa using hnone))]
  · have hm : counting packet sockfd recvList =
        l₁ ++ { b with totalRecv := b.totalRecv + gain packet b } :: l₂ := by
      rw [counting, hl]
      exact modifyFirst_of_prefix (by simpa using hfirst) (by simpa using hb)
    rw [hr, hm]
    have htotal : (b.recv past packet).totalRecv = b.totalRecv + gain packet b := by
      rw [recv_totalRecv, gain]
      cases (b.chunks (packet.seq - 1)).recved <;> simp [hseq]
    simp [htotal]

theorem recvData_busy (e : Endian) (past : Int → Int) (packet : DataPacket) (sockfd : Int)
    (recvList : List RecvBuffer) (offset : Int) :
    (∃ b ∈ (recvData e past packet sockfd recvList).1, b.offset = offset ∧ b.busy = true) ↔
      ∃ b ∈ recvList, b.offset = offset ∧ b.busy = true := by
  obtain ⟨hn, _⟩ | ⟨_, l₁, b, l₂, hl, _, _, hr⟩ := recvData_cases e past packet sockfd recvList
  · rw [hn]
  · rw [hr, hl]
    simp [or_and_right, exists_or]

/-- The requested chunks that the handling of a DATA packet releases. -/
def released (packet : DataPacket) (sockfd : Int) (peer : Peer R) : List Int :=
  peer.fileManager.requested.takeWhile
    (fun o => isBufferFull o (counting packet sockfd peer.recvList) = 1)

theorem handleData_recvList (e : Endian) (now : Int) (stray : Stray) (sockfd : Int)
    (packet : DataPacket) (peer : Peer R) :
    (handleData e now stray sockfd packet peer).1.recvList =
      if peer.fileManager.init = true then
        releaseAll (released packet sockfd peer)
          (recvData e stray.past packet sockfd peer.recvList).1
      else (recvData e stray.past packet sockfd peer.recvList).1 := by
  have hfull : ∀ o, isBufferFull o (recvData e stray.past packet sockfd peer.recvList).1 =
      isBufferFull o (counting packet sockfd peer.recvList) :=
    isBufferFull_recvData e stray.past packet sockfd peer.recvList
  simp only [handleData, checkFileManager, FileManager.touch, FileManager.requested,
    releaseFull_eq, hfull]
  cases hi : peer.fileManager.init with
  | false => rfl
  | true =>
    simp only [Bool.true_eq_false, ↓reduceIte]
    split
    · rename_i heq
      exact (congrArg Prod.snd heq).symm
    · rename_i heq
      exact (congrArg Prod.snd heq).symm

variable [Rate R]

/-- After a DATA packet no requested chunk that is full keeps a peer busy. -/
def FreesPeers (e : Endian) (config : Config) (peer : Peer R) (event : Event) : Prop :=
  ∀ d, delivery e config event = some d → d.packet.header.packetType = 3 →
    ∀ o ∈ peer.fileManager.requested, isBufferFull o (step e config peer event).recvList = 1 →
      ∀ b ∈ (step e config peer event).recvList, b.offset = o → b.busy = false

/-- With the bytes of the packet counted in, the full chunks that keep a peer
busy come before all missing chunks of the request. -/
def FullFirst (e : Endian) (config : Config) (peer : Peer R) (event : Event) : Prop :=
  ∀ d, delivery e config event = some d → d.packet.header.packetType = 3 →
    ∀ o ∈ peer.fileManager.requested,
      isBufferFull o (counting d.packet d.sockfd peer.recvList) = 1 →
      (∃ b ∈ peer.recvList, b.offset = o ∧ b.busy = true) →
      ∃ pre post, peer.fileManager.requested = pre ++ o :: post ∧
        ∀ p ∈ pre, isBufferFull p (counting d.packet d.sockfd peer.recvList) = 1

/-- A closed file manager has no requests. -/
def ClosedEmpty (fm : FileManager) : Prop := fm.init = false → fm.offset = []

theorem closedEmpty_step (e : Endian) (config : Config) (peer : Peer R) (event : Event)
    (h : ClosedEmpty peer.fileManager) : ClosedEmpty (step e config peer event).fileManager := by
  obtain ⟨next, hr, hsame⟩ := step_received e config peer event
  rw [hsame.fileManager]
  refine hr.fileManager_induction (fun _ _ _ hp => hp) (fun _ _ _ _ _ _ _ => rfl) ?_ h
  intro now chunkfile outputfile _ hi
  rw [generateWhohas_init] at hi
  cases hi

theorem freesPeers_iff (e : Endian) (config : Config) (peer : Peer R) (event : Event)
    (hclosed : ClosedEmpty peer.fileManager) :
    FreesPeers e config peer event ↔ FullFirst e config peer event := by
  apply forall_congr'
  intro d
  apply forall_congr'
  intro hd
  apply forall_congr'
  intro ht
  have hlist := (step_data hd ht peer).recvList
  rw [handleData_recvList] at hlist
  cases hi : peer.fileManager.init with
  | false =>
    have hnone : peer.fileManager.requested = [] := by
      rw [FileManager.requested, hclosed hi, List.take_nil]
    simp [hnone]
  | true =>
    rw [if_pos hi] at hlist
    rw [hlist]
    apply forall₂_congr
    intro o ho
    rw [isBufferFull_releaseAll, isBufferFull_recvData]
    apply forall_congr'
    intro hfull
    have hmem : o ∈ released d.packet d.sockfd peer ↔ ∃ pre post,
        peer.fileManager.requested = pre ++ o :: post ∧
        ∀ p ∈ pre, isBufferFull p (counting d.packet d.sockfd peer.recvList) = 1 := by
      rw [released, mem_takeWhile_iff]
      simp [hfull]
    rw [← hmem, ← recvData_busy e d.stray.past d.packet d.sockfd]
    constructor
    · rintro hfree ⟨b, hb, hbo, hbusy⟩
      by_contra hout
      have hkept := hfree b (mem_releaseAll.mpr ⟨b, hb, by rw [hbo, if_neg hout]⟩) hbo
      rw [hbusy] at hkept
      cases hkept
    · intro hbusy b hb hbo
      obtain ⟨c, hc, rfl⟩ := mem_releaseAll.mp hb
      by_cases hin : c.offset ∈ released d.packet d.sockfd peer
      · rw [if_pos hin]
      · rw [if_neg hin] at hbo ⊢
        rw [hbo] at hin
        cases hcb : c.busy with
        | false => rfl
        | true => exact absurd (hbusy ⟨c, hc, hbo, hcb⟩) hin

/-- A run frees the peers of finished chunks exactly when chunks that finish
come before the missing ones at every DATA packet. -/
theorem frees_peers_iff (e : Endian) (config : Config) (events : List Event) :
    Along (step e config) (FreesPeers e config) (Peer.init : Peer R) events ↔
      Along (step e config) (FullFirst e config) (Peer.init : Peer R) events := by
  refine along_congr (I := fun peer : Peer R => ClosedEmpty peer.fileManager) ?_ ?_ _ _ ?_
  · exact fun peer event h _ => closedEmpty_step e config peer event h
  · exact fun peer event h => freesPeers_iff e config peer event h
  · exact fun _ => rfl

def chunkData (k : Nat) : Event :=
  .inbound 0 cleared ⟨2, 2, 2⟩
    ((dataPacket .little (newElement cleared.data 1 1 (fun _ => 0) : Data ℚ) k).convert .little)

/-- Chunk 1 has its first `k` packets, and nothing has come for chunk 0. -/
structure Fetched (offsets : List Int) (k : Nat) (peer : Peer ℚ) : Prop where
  init : peer.fileManager.init = true
  requested : peer.fileManager.requested = offsets
  buffer : ∃ b, peer.recvList = [b] ∧ b.socket = 2 ∧ b.offset = 1 ∧ Counted b ∧
    (∀ i, 0 ≤ i → i < 512 → ((b.chunks i).recved = true ↔ i < k)) ∧
    (offsets.head? = some 0 → b.busy = true)

theorem Fetched.missing {offsets : List Int} {k : Nat} {peer : Peer ℚ}
    (h : Fetched offsets k peer) : isBufferFull 0 peer.recvList = -1 := by
  obtain ⟨b, hl, _, ho, _⟩ := h.buffer
  simp [hl, isBufferFull, ho]

theorem Fetched.full {offsets : List Int} {peer : Peer ℚ} (h : Fetched offsets 512 peer) :
    isBufferFull 1 peer.recvList = 1 := by
  obtain ⟨b, hl, _, ho, hc, hr, _⟩ := h.buffer
  rw [isBufferFull_eq_one, hl]
  refine ⟨⟨b, List.mem_singleton_self b, ho⟩, ?_⟩
  intro c hc' _
  rw [List.mem_singleton.mp hc']
  exact hc.full_iff.mpr fun i hi hn => (hr i hi hn).mpr (by exact_mod_cast hn)

theorem Fetched.receive {offsets : List Int} (hm : (0 : Int) ∈ offsets) {k : Nat} (hk : k < 512)
    {peer : Peer ℚ} (h : Fetched offsets k peer) {event : Event} {packet : DataPacket}
    (hd : delivery .little network event = some ⟨0, cleared, 2, packet⟩)
    (ht : packet.header.packetType = 3) (hseq : packet.seq = k + 1)
    (hlength : packet.length = 1024) :
    Fetched offsets (k + 1) (step .little network peer event) := by
  have hsame := step_data hd ht peer
  obtain ⟨b, hl, hs, ho, hc, hr, hbusy⟩ := h.buffer
  have hrecv := recvData_split .little cleared.past packet 2 [] [] b (by omega) (by simp) hs
  rw [List.nil_append, List.nil_append] at hrecv
  have hmissing : isBufferFull 0 (recvData .little cleared.past packet 2 peer.recvList).1 ≠ 1 := by
    rw [hl, hrecv]
    simp [isBufferFull, ho]
  have hlist := hsame.recvList
  rw [handleData_recvList, if_pos h.init, hl, hrecv] at hlist
  have hcounted : Counted (b.recv cleared.past packet) :=
    hc.recv cleared.past ⟨packet, by omega, by omega, hlength⟩
  have hgot : ∀ i, 0 ≤ i → i < 512 →
      (((b.recv cleared.past packet).chunks i).recved = true ↔ i < (k + 1 : Nat)) := by
    intro i hi hn
    rw [recv_recved, Bool.or_eq_true, hr i hi hn, decide_eq_true_eq, hseq]
    omega
  have hfm : (handleData .little 0 cleared 2 packet peer).1.fileManager =
      peer.fileManager.touch ((recvData .little cleared.past packet 2 peer.recvList).2.map
        Prod.snd |>.getD 0) 0 := by
    have hall : (peer.fileManager.requested.all fun o =>
        isBufferFull o (recvData .little cleared.past packet 2 peer.recvList).1 = 1) = false := by
      rw [h.requested, List.all_eq_false]
      exact ⟨0, hm, by simpa using hmissing⟩
    simp only [handleData, checkFileManager, releaseFull_eq]
    rw [FileManager.requested] at hall
    simp only [FileManager.touch, FileManager.requested, h.init, Bool.true_eq_false, ↓reduceIte,
      hall]
    rfl
  refine ⟨?_, ?_, ?_⟩
  · rw [hsame.fileManager, hfm]
    exact h.init
  · rw [hsame.fileManager, hfm]
    exact h.requested
  · rw [hlist]
    by_cases hrel : (1 : Int) ∈ released packet 2 peer
    · refine ⟨{ b.recv cleared.past packet with busy := false }, ?_, by simpa using hs,
        by simpa using ho, hcounted.release, hgot, ?_⟩
      · simp [releaseAll_singleton, ho, hrel]
      · intro hhead
        obtain ⟨rest, rfl⟩ : ∃ rest, offsets = 0 :: rest := by
          cases offsets with
          | nil => simp at hhead
          | cons o rest => exact ⟨rest, by rw [Option.some.inj hhead]⟩
        rw [isBufferFull_recvData] at hmissing
        rw [released, h.requested, List.takeWhile_cons_of_neg (by simpa using hmissing)] at hrel
        simp at hrel
    · refine ⟨b.recv cleared.past packet, ?_, by simpa using hs, by simpa using ho, hcounted,
        hgot, fun hhead => by simpa using hbusy hhead⟩
      simp [releaseAll_singleton, ho, hrel]

theorem delivery_chunkData {k : Nat} (hk : k < 512) : ∃ packet,
    delivery .little network (chunkData k) = some ⟨0, cleared, 2, packet⟩ ∧
      packet.header.packetType = 3 ∧ packet.seq = k + 1 ∧ packet.length = 1024 ∧
      packet.data = slice (fun _ => 0) k := by
  obtain ⟨hseq, hlength⟩ := dataPacket_received .little
    (newElement cleared.data 1 1 (fun _ => 0) : Data ℚ) (show (0 : Int) ≤ k by omega) (by omega)
  refine ⟨_, rfl, ?_, hseq, hlength, ?_⟩
  · rw [ntoh_packetType, convert_packetType, dataPacket_packetType]
  · rw [ntoh_data, convert_data, dataPacket_data]
    rfl

theorem Fetched.chunkData {offsets : List Int} (hm : (0 : Int) ∈ offsets) {peer : Peer ℚ}
    (h : Fetched offsets 0 peer) (n : Nat) (hn : n ≤ 512) :
    Fetched offsets n (run (step .little network) peer ((List.range n).map chunkData)) := by
  induction n with
  | zero => exact h
  | succ n ih =>
    obtain ⟨packet, hd, ht, hseq, hlength, _⟩ := delivery_chunkData (show n < 512 by omega)
    rw [List.range_succ, List.map_append, run_append, List.map_singleton, run_cons, run_nil]
    exact (ih (by omega)).receive hm (by omega) hd ht hseq hlength

/-- The chunks of a request, in the order of the chunk file, and the IHAVE
that starts chunk 1 at peer 2. -/
def startEvents (lines : List ChunkLine) : List Event :=
  [.command 0 (some lines) [],
    .inbound 0 cleared ⟨2, 2, 2⟩ (initPacket .little 1 (some (chunkHash 49)) 20)]

/-- All of chunk 1, the last packet apart. -/
def almostFinished (lines : List ChunkLine) : List Event :=
  startEvents lines ++ (List.range 511).map chunkData

theorem fetched_start (lines : List ChunkLine) (offsets : List Int)
    (hopen : (run (step .little network) (Peer.init : Peer ℚ) (startEvents lines)).fileManager.init =
      true)
    (hrequested : (run (step .little network) (Peer.init : Peer ℚ)
      (startEvents lines)).fileManager.requested = offsets)
    (hlist : (run (step .little network) (Peer.init : Peer ℚ) (startEvents lines)).recvList =
      [⟨1, 2, 1, true, 0, fun _ => emptyChunk⟩]) :
    Fetched offsets 0 (run (step .little network) (Peer.init : Peer ℚ) (startEvents lines)) := by
  refine ⟨hopen, hrequested, _, hlist, rfl, rfl, counted_empty 1 2, ?_, fun _ => rfl⟩
  intro i hi _
  simp only [emptyChunk, Bool.false_eq_true, false_iff]
  omega

/-- With the request 0, 1 the peer of chunk 1 stays busy when that chunk is
complete, because chunk 0 is missing. -/
theorem out_of_order_stays_busy :
    ¬Along (step .little network) (FreesPeers .little network) (Peer.init : Peer ℚ)
      (almostFinished [⟨0, List.replicate 40 48⟩, ⟨1, List.replicate 40 49⟩] ++ [chunkData 511]) := by
  intro halong
  have hstart := fetched_start [⟨0, List.replicate 40 48⟩, ⟨1, List.replicate 40 49⟩] [0, 1]
    (by decide +kernel) (by decide +kernel) rfl
  have hbefore := hstart.chunkData (by simp) 511 (by decide)
  rw [← run_append, ← almostFinished] at hbefore
  obtain ⟨packet, hd, ht, hseq, hlength, _⟩ := delivery_chunkData (show 511 < 512 by decide)
  have hafter := hbefore.receive (by simp) (by decide) hd ht hseq hlength
  obtain ⟨b, hl, _, ho, _, _, hbusy⟩ := hafter.buffer
  have hfree := along_last _ _ _ halong _ hd ht 1 (by rw [hbefore.requested]; simp) hafter.full b
    (by rw [hl]; exact List.mem_singleton_self b) ho
  rw [hbusy rfl] at hfree
  cases hfree

end P2PCC.Completion

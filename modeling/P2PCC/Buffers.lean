import P2PCC.Lib.Runs
import P2PCC.Sender
import P2PCC.Receiver

namespace P2PCC.Buffers

open P2PCC.Lib.ByteOrder P2PCC.Lib.Runs P2PCC.Lib.Slots P2PCC.Packet P2PCC.Sender
open P2PCC.Receiver

/-- A buffer that has received all 512 packets. -/
def Complete (b : RecvBuffer) : Prop := ∀ i, 0 ≤ i → i < 512 → (b.chunks i).recved = true

/-- Every received slot holds 1024 bytes, and `total_recv` counts each once. -/
structure Counted (b : RecvBuffer) : Prop where
  totalRecv : b.totalRecv = total 512 (fun i => (b.chunks i).length)
  slot : ∀ i, 0 ≤ i → i < 512 → (b.chunks i).length = if (b.chunks i).recved then 1024 else 0
  content : ∀ i, 0 ≤ i → i < 512 → (b.chunks i).recved = true → (b.chunks i).content.length = 1024

theorem Counted.full_iff {b : RecvBuffer} (h : Counted b) : b.totalRecv = 524288 ↔ Complete b := by
  have ht := total_full (n := 512) (show (0 : Int) < 1024 by decide) h.slot
  rw [← h.totalRecv] at ht
  exact ht

theorem counted_empty (offset socket : Int) :
    Counted { expected := 1, socket := socket, offset := offset, busy := true, totalRecv := 0,
              chunks := fun _ => emptyChunk } := by
  refine ⟨?_, fun i _ _ => rfl, fun i _ _ h => by simp [emptyChunk] at h⟩
  simp [total, emptyChunk]

theorem Counted.release {b : RecvBuffer} (h : Counted b) : Counted { b with busy := false } :=
  ⟨h.totalRecv, h.slot, h.content⟩

theorem total_recv (b : RecvBuffer) (past : Int → Int) (packet : DataPacket)
    (hlow : 1 ≤ packet.seq) (hhigh : packet.seq ≤ 512)
    (hempty : (b.chunks (packet.seq - 1)).recved = false →
      (b.chunks (packet.seq - 1)).length = 0) :
    total 512 (fun i => ((b.recv past packet).chunks i).length) =
      total 512 (fun i => (b.chunks i).length) +
        if (b.chunks (packet.seq - 1)).recved then 0 else packet.length := by
  cases hr : (b.chunks (packet.seq - 1)).recved with
  | true =>
    simp only [↓reduceIte, add_zero]
    apply total_congr
    intro i _ _
    refine (recv_slot_old b past packet i ?_).1
    by_cases hi : i = packet.seq - 1
    · exact Or.inr (by rw [hi, hr])
    · exact Or.inl hi
  | false =>
    have hu := total_update (n := 512) (f := fun i => (b.chunks i).length)
      (k := packet.seq - 1) (by omega) (by omega) (hempty hr) packet.length
    simp only [Bool.false_eq_true, ↓reduceIte]
    rw [← hu]
    apply total_congr
    intro i _ _
    by_cases hi : i = packet.seq - 1
    · subst hi
      rw [Function.update_self]
      exact (recv_slot_new b past packet hr).1
    · rw [Function.update_of_ne hi]
      exact (recv_slot_old b past packet i (Or.inl hi)).1

/-- A DATA packet with 1024 bytes of payload and a sequence number of the
protocol. -/
structure SlicePacket where
  packet : DataPacket
  low : 1 ≤ packet.seq
  high : packet.seq ≤ 512
  size : packet.length = 1024

theorem Counted.recv {b : RecvBuffer} (h : Counted b) (past : Int → Int) (p : SlicePacket) :
    Counted (b.recv past p.packet) := by
  have hlow := p.low
  have hhigh := p.high
  have hcases : ∀ i, i = p.packet.seq - 1 ∧ (b.chunks i).recved = false ∨
      (i ≠ p.packet.seq - 1 ∨ (b.chunks i).recved = true) := by
    intro i
    by_cases hi : i = p.packet.seq - 1
    · cases hr : (b.chunks i).recved with
      | false => exact Or.inl ⟨hi, rfl⟩
      | true => exact Or.inr (Or.inr rfl)
    · exact Or.inr (Or.inl hi)
  refine ⟨?_, ?_, ?_⟩
  · rw [recv_totalRecv, total_recv b past p.packet hlow hhigh, h.totalRecv]
    · split <;> omega
    · intro hr
      rw [h.slot _ (by omega) (by omega), hr]
      rfl
  · intro i hi hn
    rcases hcases i with ⟨rfl, hr⟩ | hold
    · rw [(recv_slot_new b past p.packet hr).1, recv_recved, p.size]
      simp
    · rw [(recv_slot_old b past p.packet i hold).1, recv_recved_old b past p.packet i hold,
        h.slot i hi hn]
  · intro i hi hn hr
    rcases hcases i with ⟨rfl, hf⟩ | hold
    · rw [(recv_slot_new b past p.packet hf).2, p.size]
      simp
    · rw [(recv_slot_old b past p.packet i hold).2]
      exact h.content i hi hn (by rwa [recv_recved_old b past p.packet i hold] at hr)

inductive BufferOp where
  | init (offset socket : Int)
  | recv (past : Int → Int) (packet : SlicePacket) (socket : Int)
  | release (offset : Int)

def apply (e : Endian) (recvList : List RecvBuffer) : BufferOp → List RecvBuffer
  | .init offset socket => (initRecvBuffer offset socket recvList).2
  | .recv past packet socket => (recvData e past packet.packet socket recvList).1
  | .release offset => releaseBuffer offset recvList

theorem apply_counted (e : Endian) (recvList : List RecvBuffer) (op : BufferOp)
    (h : ∀ b ∈ recvList, Counted b) : ∀ b ∈ apply e recvList op, Counted b := by
  cases op with
  | init offset socket => exact initRecvBuffer_forall offset socket h (counted_empty offset socket)
  | recv past packet socket =>
    exact recvData_forall e past packet.packet socket h fun _ _ _ hb => hb.recv past packet
  | release offset => exact releaseBuffer_forall (fun _ hb => hb.release) offset recvList h

/-- `is_buffer_full` tells whether some buffer of the chunk is complete, and
then `copy_chunk_data` reads every packet from such a buffer. -/
def FullnessAgrees (recvList : List RecvBuffer) (offset : Int) : Prop :=
  (isBufferFull offset recvList = 1 ↔ ∃ b ∈ recvList, b.offset = offset ∧ Complete b) ∧
    (isBufferFull offset recvList = 1 → ∃ b ∈ recvList, b.offset = offset ∧ Complete b ∧
      ∀ j, 0 ≤ j → j < 512 →
        copyChunkData offset j recvList = (1024, (b.chunks j).content))

/-- The buffers of one chunk are all complete or all incomplete. -/
def Unanimous (recvList : List RecvBuffer) : Prop :=
  ∀ b ∈ recvList, ∀ c ∈ recvList, b.offset = c.offset → Complete b → Complete c

theorem copyChunkData_complete {recvList : List RecvBuffer} {offset : Int} {b : RecvBuffer}
    (hc : Counted b) (hb : recvList.find? (fun b => b.offset = offset) = some b)
    (hcomplete : Complete b) (j : Int) (hj : 0 ≤ j) (hn : j < 512) :
    copyChunkData offset j recvList = (1024, (b.chunks j).content) := by
  have hr := hcomplete j hj hn
  have hl := hc.slot j hj hn
  have hlen := hc.content j hj hn hr
  rw [hr] at hl
  simp only [↓reduceIte] at hl
  unfold copyChunkData
  rw [hb]
  simp only [hr, hl, ↓reduceIte, Prod.mk.injEq, true_and]
  exact List.take_of_length_le (by rw [hlen]; decide)

theorem fullnessAgrees_iff {recvList : List RecvBuffer} (h : ∀ b ∈ recvList, Counted b) :
    (∀ offset, FullnessAgrees recvList offset) ↔ Unanimous recvList := by
  have hfull : ∀ offset, isBufferFull offset recvList = 1 ↔
      (∃ b ∈ recvList, b.offset = offset) ∧ ∀ b ∈ recvList, b.offset = offset → Complete b := by
    intro offset
    rw [isBufferFull_eq_one]
    apply and_congr_right
    intro _
    apply forall₂_congr
    intro b hb
    rw [(h b hb).full_iff]
  constructor
  · intro hagree b hb c hc ho hcomplete
    have hone := (hagree b.offset).1.mpr ⟨b, hb, rfl, hcomplete⟩
    exact ((hfull b.offset).mp hone).2 c hc ho.symm
  · intro hun offset
    have hiff : isBufferFull offset recvList = 1 ↔
        ∃ b ∈ recvList, b.offset = offset ∧ Complete b := by
      rw [hfull]
      constructor
      · rintro ⟨⟨b, hb, ho⟩, hall⟩
        exact ⟨b, hb, ho, hall b hb ho⟩
      · rintro ⟨b, hb, ho, hcomplete⟩
        exact ⟨⟨b, hb, ho⟩, fun c hc hoc => hun b hb c hc (ho.trans hoc.symm) hcomplete⟩
    refine ⟨hiff, fun hone => ?_⟩
    obtain ⟨⟨b, hb, ho⟩, hall⟩ := (hfull offset).mp hone
    obtain ⟨c, hc⟩ : ∃ c, recvList.find? (fun b => decide (b.offset = offset)) = some c := by
      rw [← Option.isSome_iff_exists, List.find?_isSome]
      exact ⟨b, hb, by simpa using ho⟩
    have hmem := List.mem_of_find?_eq_some hc
    have hco : c.offset = offset := by simpa using List.find?_some hc
    exact ⟨c, hmem, hco, hall c hmem hco,
      copyChunkData_complete (h c hmem) hc (hall c hmem hco)⟩

/-- What a call must find for the buffers of one chunk to stay alike: a new
attempt comes before any buffer of the chunk is complete, and a packet that
completes a buffer leaves none of its chunk incomplete. -/
def Undivided (recvList : List RecvBuffer) : BufferOp → Prop
  | .init offset socket =>
    (∃ b ∈ recvList, b.conflicts offset socket = true) ∨
      ∀ b ∈ recvList, b.offset = offset → ¬Complete b
  | .recv _ packet socket => ∀ l₁ b l₂, recvList = l₁ ++ b :: l₂ → (∀ c ∈ l₁, c.socket ≠ socket) →
    b.socket = socket →
    (∀ i, 0 ≤ i → i < 512 → (b.chunks i).recved = true ∨ i = packet.packet.seq - 1) →
    ∀ c ∈ l₁ ++ l₂, c.offset = b.offset → Complete c
  | .release _ => True

theorem complete_recv_iff (b : RecvBuffer) (past : Int → Int) (packet : DataPacket) :
    Complete (b.recv past packet) ↔
      ∀ i, 0 ≤ i → i < 512 → (b.chunks i).recved = true ∨ i = packet.seq - 1 := by
  simp only [Complete, recv_recved, Bool.or_eq_true, decide_eq_true_eq]

theorem not_complete_empty (b : RecvBuffer) (h : b.chunks = fun _ => emptyChunk) :
    ¬Complete b := by
  intro hc
  have h0 := hc 0 le_rfl (by decide)
  rw [h] at h0
  simp [emptyChunk] at h0

theorem unanimous_init (offset socket : Int) {recvList : List RecvBuffer}
    (h : Unanimous recvList) :
    Unanimous (initRecvBuffer offset socket recvList).2 ↔
      (∃ b ∈ recvList, b.conflicts offset socket = true) ∨
        ∀ b ∈ recvList, b.offset = offset → ¬Complete b := by
  unfold initRecvBuffer
  by_cases hconf : ∃ b ∈ recvList, b.conflicts offset socket = true
  · rw [if_pos (List.any_eq_true.mpr hconf)]
    exact ⟨fun _ => Or.inl hconf, fun _ => h⟩
  · rw [if_neg (fun ha => hconf (List.any_eq_true.mp ha)), or_iff_right hconf]
    constructor
    · intro hun b hb ho hc
      exact not_complete_empty _ rfl
        (hun b (List.mem_cons_of_mem _ hb) _ List.mem_cons_self ho hc)
    · intro hnone b hb c hc ho hcomplete
      rcases List.mem_cons.mp hb with rfl | hb
      · exact absurd hcomplete (not_complete_empty _ rfl)
      · rcases List.mem_cons.mp hc with rfl | hc
        · exact absurd hcomplete (hnone b hb ho)
        · exact h b hb c hc ho hcomplete

theorem unanimous_recv (e : Endian) (past : Int → Int) (packet : SlicePacket) (socket : Int)
    {recvList : List RecvBuffer} (h : Unanimous recvList) :
    Unanimous (recvData e past packet.packet socket recvList).1 ↔
      Undivided recvList (.recv past packet socket) := by
  constructor
  · intro hun l₁ b l₂ hl hfirst hb hfull c hc ho
    rw [hl, recvData_split e past packet.packet socket l₁ l₂ b packet.high hfirst hb] at hun
    refine hun (b.recv past packet.packet) (by simp) c ?_ (by simpa using ho.symm)
      ((complete_recv_iff b past packet.packet).mpr hfull)
    rcases List.mem_append.mp hc with hc | hc
    · exact List.mem_append_left _ hc
    · exact List.mem_append_right _ (List.mem_cons_of_mem _ hc)
  · intro hund
    rcases recvData_cases e past packet.packet socket recvList with
      ⟨hn, _⟩ | ⟨_, l₁, b, l₂, hl, hfirst, hb, hr⟩
    · rw [hn]
      exact h
    · rw [hr]
      have hothers := hund l₁ b l₂ hl hfirst hb
      rw [← complete_recv_iff b past packet.packet] at hothers
      have hmem : ∀ c, c ∈ l₁ ++ b.recv past packet.packet :: l₂ →
          c = b.recv past packet.packet ∨ c ∈ l₁ ++ l₂ := by
        intro c hc
        simp only [List.mem_append, List.mem_cons] at hc ⊢
        tauto
      have hold : ∀ c ∈ l₁ ++ l₂, c ∈ recvList := by
        intro c hc
        simp only [hl, List.mem_append, List.mem_cons] at hc ⊢
        tauto
      have hb_mem : b ∈ recvList := by simp [hl]
      intro c hc d hd ho hcomplete
      rcases hmem c hc with rfl | hc
      · rcases hmem d hd with rfl | hd
        · exact hcomplete
        · exact hothers hcomplete d hd (by simpa using ho.symm)
      · rcases hmem d hd with rfl | hd
        · have hbc : Complete b := h c (hold c hc) b hb_mem (by simpa using ho) hcomplete
          exact (complete_recv_iff b past packet.packet).mpr
            fun i hi hn => Or.inl (hbc i hi hn)
        · exact h c (hold c hc) d (hold d hd) ho hcomplete

theorem unanimous_release (offset : Int) {recvList : List RecvBuffer} (h : Unanimous recvList) :
    Unanimous (releaseBuffer offset recvList) := by
  have hold : ∀ b ∈ releaseBuffer offset recvList,
      ∃ c ∈ recvList, c.offset = b.offset ∧ (Complete b ↔ Complete c) := by
    intro b hb
    obtain ⟨c, hc, rfl⟩ := mem_releaseBuffer.mp hb
    refine ⟨c, hc, ?_⟩
    split <;> exact ⟨rfl, Iff.rfl⟩
  intro b hb c hc ho hcomplete
  obtain ⟨b', hb', hbo, hbc⟩ := hold b hb
  obtain ⟨c', hc', hco, hcc⟩ := hold c hc
  exact hcc.mpr (h b' hb' c' hc' (by rw [hbo, hco, ho]) (hbc.mp hcomplete))

theorem unanimous_step (e : Endian) {recvList : List RecvBuffer} (h : Unanimous recvList)
    (op : BufferOp) : Unanimous (apply e recvList op) ↔ Undivided recvList op := by
  cases op with
  | init offset socket => exact unanimous_init offset socket h
  | recv past packet socket => exact unanimous_recv e past packet socket h
  | release offset => exact ⟨fun _ => trivial, fun _ => unanimous_release offset h⟩

/-- The fullness test and the copy agree with what has been received, in
every state of a run, exactly when no step leaves a chunk with a complete and
an incomplete buffer. -/
theorem failover_completes_iff (e : Endian) (ops : List BufferOp) :
    Throughout (apply e) (fun recvList => ∀ offset, FullnessAgrees recvList offset) [] ops ↔
      Along (apply e) Undivided [] ops := by
  apply throughout_iff_along (apply_counted e)
  · intro recvList op hcounted hagree
    rw [fullnessAgrees_iff (apply_counted e recvList op hcounted)]
    exact unanimous_step e ((fullnessAgrees_iff hcounted).mp hagree) op
  · simp
  · exact (fullnessAgrees_iff (by simp)).mpr (by simp [Unanimous])

/-- The packet a sender emits for an index, as the receiver reads it. -/
def SlicePacket.ofIndex (e : Endian) (data : Data ℚ) (index : Fin 512) : SlicePacket where
  packet := ((dataPacket e data index).convert e).ntoh e
  low := by
    rw [(dataPacket_received e data (show (0 : Int) ≤ index by omega) (by omega)).1]
    omega
  high := by
    rw [(dataPacket_received e data (show (0 : Int) ≤ index by omega) (by omega)).1]
    omega
  size := (dataPacket_received e data (show (0 : Int) ≤ index by omega) (by omega)).2

theorem ofIndex_seq (e : Endian) (data : Data ℚ) (index : Fin 512) :
    (SlicePacket.ofIndex e data index).packet.seq = index + 1 :=
  (dataPacket_received e data (show (0 : Int) ≤ index by omega) (by omega)).1

theorem run_recv (e : Endian) (past : Int → Int) (socket : Int) (packets : List SlicePacket)
    (b : RecvBuffer) (rest : List RecvBuffer) (hb : b.socket = socket) :
    run (apply e) (b :: rest) (packets.map (fun p => .recv past p socket)) =
      packets.foldl (fun b p => b.recv past p.packet) b :: rest := by
  induction packets generalizing b with
  | nil => rfl
  | cons p packets ih =>
    have hs := recvData_split e past p.packet socket [] rest b p.high (by simp) hb
    rw [List.nil_append, List.nil_append] at hs
    rw [List.map_cons, run_cons, apply, hs]
    exact ih (b.recv past p.packet) (by simpa using hb)

theorem foldl_recv_recved (past : Int → Int) (packets : List SlicePacket) (b : RecvBuffer)
    (i : Int) :
    ((packets.foldl (fun b p => b.recv past p.packet) b).chunks i).recved = true ↔
      (b.chunks i).recved = true ∨ ∃ p ∈ packets, i = p.packet.seq - 1 := by
  induction packets generalizing b with
  | nil => simp
  | cons p packets ih =>
    rw [List.foldl_cons, ih, recv_recved]
    simp [or_assoc]

theorem foldl_recv_offset (past : Int → Int) (packets : List SlicePacket) (b : RecvBuffer) :
    (packets.foldl (fun b p => b.recv past p.packet) b).offset = b.offset := by
  induction packets generalizing b with
  | nil => rfl
  | cons p packets ih => rw [List.foldl_cons, ih, recv_offset]

/-- Peer 1 is asked for chunk 0 and sends nothing, the timeout releases the
buffer, and peer 2 then sends the whole chunk. -/
def retryOps : List BufferOp :=
  [.init 0 1, .release 0, .init 0 2] ++
    ((List.finRange 512).map (SlicePacket.ofIndex .little
      (newElement ⟨0, 0, fun _ => .unsend⟩ 1 0 (fun _ => 0)))).map
      (fun p => .recv (fun _ => 0) p 2)

/-- The chunk is complete, but never counts as full. -/
theorem retry_never_full : ¬∀ offset, FullnessAgrees (run (apply .little) [] retryOps) offset := by
  rw [fullnessAgrees_iff (run_invariant_total (apply_counted .little) [] retryOps (by simp)),
    retryOps, run_append]
  generalize (newElement ⟨0, 0, fun _ => .unsend⟩ 1 0 (fun _ => 0) : Data ℚ) = data
  have hfirst : run (apply .little) [] [.init 0 1, .release 0, .init 0 2] =
      [⟨1, 2, 0, true, 0, fun _ => emptyChunk⟩, ⟨1, 1, 0, false, 0, fun _ => emptyChunk⟩] := rfl
  rw [hfirst, run_recv _ _ _ _ _ _ rfl]
  intro hun
  refine not_complete_empty _ rfl (hun _ List.mem_cons_self
    ⟨1, 1, 0, false, 0, fun _ => emptyChunk⟩ (by simp) (foldl_recv_offset _ _ _) ?_)
  intro i hi hn
  rw [foldl_recv_recved]
  refine Or.inr ⟨SlicePacket.ofIndex .little data ⟨i.toNat, by omega⟩, ?_, ?_⟩
  · exact List.mem_map_of_mem (List.mem_finRange _)
  · rw [ofIndex_seq]
    simp only [Int.toNat_of_nonneg hi]
    omega

end P2PCC.Buffers

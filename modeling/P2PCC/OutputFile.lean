import P2PCC.Completion

namespace P2PCC.OutputFile

open P2PCC.Lib.ByteOrder P2PCC.Lib.Runs P2PCC.Lib.FirstMatch P2PCC.Lib.Slots P2PCC.Packet
open P2PCC.ChunkFile P2PCC.Sender P2PCC.Receiver P2PCC.Manager P2PCC.HandlePacket P2PCC.Peer
open P2PCC.Receiving P2PCC.Buffers P2PCC.Completion

variable {R : Type}

/-- The contents of the chunks, by their offsets. -/
abbrev Chunks := Int → Int → Byte

/-- Every received slot holds its slice of the chunk. -/
structure Faithful (chunk : Chunks) (b : RecvBuffer) : Prop extends Counted b where
  source : ∀ i, 0 ≤ i → i < 512 → (b.chunks i).recved = true →
    (b.chunks i).content = slice (chunk b.offset) i

/-- A packet that would be stored carries the slice of the buffer's chunk. -/
def Stores (chunk : Chunks) (recvList : List RecvBuffer) (packet : DataPacket) (sockfd : Int) :
    Prop :=
  ∀ b, recvList.find? (fun b => b.socket = sockfd) = some b → packet.seq ≤ 512 →
    (b.chunks (packet.seq - 1)).recved = false →
    1 ≤ packet.seq ∧ packet.length = 1024 ∧
      packet.data.take 1024 = slice (chunk b.offset) (packet.seq - 1)

theorem range_getD {l : List Byte} {n : Nat} (h : (l.take n).length = n) :
    (List.range n).map (fun i => l.getD i 0) = l.take n := by
  apply List.ext_getElem
  · rw [List.length_map, List.length_range, h]
  · intro i hi hj
    rw [List.length_take] at h
    rw [List.length_map, List.length_range] at hi
    rw [List.getElem_map, List.getElem_range, List.getElem_take,
      List.getD_eq_getElem _ _ (by omega)]

theorem Faithful.recv_new {chunk : Chunks} {b : RecvBuffer} (h : Faithful chunk b)
    (past : Int → Int) (p : SlicePacket)
    (hd : p.packet.data.take 1024 = slice (chunk b.offset) (p.packet.seq - 1)) :
    Faithful chunk (b.recv past p.packet) := by
  refine ⟨h.toCounted.recv past p, ?_⟩
  intro i hi hn hr
  rw [recv_offset]
  by_cases hold : i ≠ p.packet.seq - 1 ∨ (b.chunks i).recved = true
  · rw [(recv_slot_old b past p.packet i hold).2]
    rw [recv_recved_old b past p.packet i hold] at hr
    exact h.source i hi hn hr
  · rw [not_or, not_not, Bool.not_eq_true] at hold
    obtain ⟨rfl, hf⟩ := hold
    rw [(recv_slot_new b past p.packet hf).2, p.size, show (1024 : Int).toNat = 1024 from rfl, ← hd]
    exact range_getD (by rw [hd, slice_length])

theorem Faithful.recv_duplicate {chunk : Chunks} {b : RecvBuffer} (h : Faithful chunk b)
    (past : Int → Int) (packet : DataPacket)
    (hr : (b.chunks (packet.seq - 1)).recved = true) : Faithful chunk (b.recv past packet) := by
  have hslot : ∀ i, ((b.recv past packet).chunks i).length = (b.chunks i).length ∧
      ((b.recv past packet).chunks i).content = (b.chunks i).content ∧
      ((b.recv past packet).chunks i).recved = (b.chunks i).recved := by
    intro i
    have hold : i ≠ packet.seq - 1 ∨ (b.chunks i).recved = true := by
      by_cases hi : i = packet.seq - 1
      · exact Or.inr (hi ▸ hr)
      · exact Or.inl hi
    exact ⟨(recv_slot_old b past packet i hold).1, (recv_slot_old b past packet i hold).2,
      recv_recved_old b past packet i hold⟩
  refine ⟨⟨?_, ?_, ?_⟩, ?_⟩
  · rw [recv_totalRecv, if_pos hr, h.totalRecv]
    exact total_congr fun i _ _ => (hslot i).1.symm
  · intro i hi hn
    rw [(hslot i).1, (hslot i).2.2, h.slot i hi hn]
  · intro i hi hn hrecved
    rw [(hslot i).2.1, h.content i hi hn ((hslot i).2.2 ▸ hrecved)]
  · intro i hi hn hrecved
    rw [(hslot i).2.1, recv_offset, h.source i hi hn ((hslot i).2.2 ▸ hrecved)]

theorem Faithful.release {chunk : Chunks} {b : RecvBuffer} (h : Faithful chunk b) :
    Faithful chunk { b with busy := false } :=
  ⟨h.toCounted.release, h.source⟩

theorem faithful_init (chunk : Chunks) (offset socket : Int) (recvList : List RecvBuffer)
    (h : ∀ b ∈ recvList, Faithful chunk b) :
    ∀ b ∈ (initRecvBuffer offset socket recvList).2, Faithful chunk b := by
  apply initRecvBuffer_forall offset socket h
  refine ⟨counted_empty offset socket, ?_⟩
  intro i _ _ hr
  simp [emptyChunk] at hr

theorem faithful_recvData (chunk : Chunks) (e : Endian) (past : Int → Int) (packet : DataPacket)
    (sockfd : Int) (recvList : List RecvBuffer) (h : ∀ b ∈ recvList, Faithful chunk b)
    (hs : Stores chunk recvList packet sockfd) :
    ∀ b ∈ (recvData e past packet sockfd recvList).1, Faithful chunk b := by
  apply recvData_forall e past packet sockfd h
  intro b hfind hseq hb
  cases hrecved : (b.chunks (packet.seq - 1)).recved with
  | true => exact hb.recv_duplicate past packet hrecved
  | false =>
    obtain ⟨hlow, hsize, hdata⟩ := hs b hfind hseq hrecved
    exact hb.recv_new past ⟨packet, hlow, hseq, hsize⟩ hdata

def wholeFile (chunk : Chunks) (offsets : List Int) : List Byte :=
  offsets.flatMap (fun o => (List.range 524288).map (fun n : Nat => chunk o n))

theorem copyChunkData_full {chunk : Chunks} {recvList : List RecvBuffer}
    (h : ∀ b ∈ recvList, Faithful chunk b) {offset : Int} (hfull : isBufferFull offset recvList = 1)
    {j : Int} (hj : 0 ≤ j) (hn : j < 512) :
    (copyChunkData offset j recvList).2 = slice (chunk offset) j := by
  obtain ⟨⟨c, hc, hco⟩, hall⟩ := (isBufferFull_eq_one offset recvList).mp hfull
  obtain ⟨b, hb⟩ : ∃ b, recvList.find? (fun b => decide (b.offset = offset)) = some b := by
    rw [← Option.isSome_iff_exists, List.find?_isSome]
    exact ⟨c, hc, by simpa using hco⟩
  have hmem := List.mem_of_find?_eq_some hb
  have hbo : b.offset = offset := by simpa using List.find?_some hb
  have hcomplete := (h b hmem).full_iff.mp (hall b hmem hbo)
  rw [copyChunkData_complete (h b hmem).toCounted hb hcomplete j hj hn,
    (h b hmem).source j hj hn (hcomplete j hj hn), hbo]

theorem fileBytes_full {chunk : Chunks} {recvList : List RecvBuffer}
    (h : ∀ b ∈ recvList, Faithful chunk b) (offsets : List Int)
    (hfull : ∀ o ∈ offsets, isBufferFull o recvList = 1) :
    fileBytes offsets recvList = wholeFile chunk offsets := by
  unfold fileBytes wholeFile
  apply List.flatMap_congr
  intro o ho
  have hpieces := flatMap_pieces (chunk o) 1024 512
  rw [show 512 * 1024 = 524288 from rfl] at hpieces
  rw [← hpieces]
  apply List.flatMap_congr
  intro j hj
  rw [copyChunkData_full h (hfull o ho) (by omega) (by exact_mod_cast List.mem_range.mp hj)]
  rfl

/-- What one call of `check_file_manager` should do with the output file. -/
def WritesWhole (chunk : Chunks) (fm : FileManager) (recvList : List RecvBuffer) : Prop :=
  ((checkFileManager fm recvList).1 = 1 →
    (checkFileManager fm recvList).2.2.2 = some (wholeFile chunk fm.offset)) ∧
  ((checkFileManager fm recvList).1 ≠ 1 → (checkFileManager fm recvList).2.2.2 = none)

theorem writesWhole {chunk : Chunks} {fm : FileManager} {recvList : List RecvBuffer}
    (h : ∀ b ∈ recvList, Faithful chunk b)
    (hcount : fm.init = true → fm.chunkCount = fm.offset.length) :
    WritesWhole chunk fm recvList := by
  unfold WritesWhole checkFileManager
  cases hi : fm.init with
  | false => simp
  | true =>
    have hreq : fm.requested = fm.offset := by
      rw [FileManager.requested, hcount hi, List.take_length]
    simp only [Bool.true_eq_false, ↓reduceIte, releaseFull_eq, hreq]
    cases hall : fm.offset.all (fun o => decide (isBufferFull o recvList = 1)) with
    | false => simp
    | true =>
      have hfull : ∀ o ∈ fm.offset, isBufferFull o recvList = 1 := by simpa using hall
      refine ⟨fun _ => ?_, fun hne => absurd rfl hne⟩
      rw [Option.some.injEq]
      apply fileBytes_full
      · intro b hb
        obtain ⟨c, hc, rfl⟩ := mem_releaseAll.mp hb
        split
        · exact (h c hc).release
        · exact h c hc
      · intro o ho
        rw [isBufferFull_releaseAll]
        exact hfull o ho

/-- The file manager has as many offsets as it counts chunks while it is
open. -/
def CountsOffsets (fm : FileManager) : Prop := fm.init = true → fm.chunkCount = fm.offset.length

theorem generateWhohas_countsOffsets (e : Endian) (config : Config) (now : Int)
    (ls : List ChunkLine) (outputfile : List Byte) (peer : Peer R)
    (h : ∀ l ∈ ls, l.token.length ≤ 40) :
    CountsOffsets (generateWhohas e config now (some ls) outputfile peer).1.fileManager := by
  obtain ⟨⟨data, ret⟩, hloop⟩ := whohasLoop_read e h 0 [] []
  simp [CountsOffsets, generateWhohas, hloop, uncleared_length]

/-- What an event brings from outside: DATA packets with the right bytes, and
requests from chunk files that can be read. -/
structure Genuine (e : Endian) (config : Config) (chunk : Chunks) (peer : Peer R) (event : Event) :
    Prop where
  data : ∀ d, delivery e config event = some d → d.packet.header.packetType = 3 →
    Stores chunk peer.recvList d.packet d.sockfd
  command : ∀ now chunkfile outputfile, event = .command now chunkfile outputfile →
    ∃ ls, chunkfile = some ls ∧ ∀ l ∈ ls, l.token.length ≤ 40

/-- The call of `check_file_manager` in the handling of a DATA packet. -/
def CallWrites (e : Endian) (config : Config) (chunk : Chunks) (peer : Peer R) (event : Event) :
    Prop :=
  ∀ d, delivery e config event = some d → d.packet.header.packetType = 3 → ∀ offset,
    WritesWhole chunk (peer.fileManager.touch offset d.now)
      (recvData e d.stray.past d.packet d.sockfd peer.recvList).1

structure Sound (chunk : Chunks) (peer : Peer R) : Prop where
  faithful : ∀ b ∈ peer.recvList, Faithful chunk b
  counts : CountsOffsets peer.fileManager

theorem Sound.call {e : Endian} {config : Config} {chunk : Chunks} {peer : Peer R} {event : Event}
    (h : Sound chunk peer) (hg : Genuine e config chunk peer event) :
    CallWrites e config chunk peer event := by
  intro d hd ht offset
  refine writesWhole ?_ h.counts
  exact faithful_recvData chunk e d.stray.past d.packet d.sockfd _ h.faithful (hg.data d hd ht)

variable [Rate R]

theorem sound_step (e : Endian) (config : Config) (chunk : Chunks) (peer : Peer R) (event : Event)
    (h : Sound chunk peer) (hg : Genuine e config chunk peer event) :
    Sound chunk (step e config peer event) := by
  obtain ⟨next, hr, hsame⟩ := step_received e config peer event
  refine ⟨?_, ?_⟩
  · rw [hsame.recvList]
    refine hr.recvList_induction (fun o s l _ => faithful_init chunk o s l) ?_ ?_ h.faithful
    · exact fun o l hl => releaseBuffer_forall (fun _ hb => hb.release) o l hl
    · exact fun d hd ht => faithful_recvData chunk e d.stray.past d.packet d.sockfd _ h.faithful
        (hg.data d hd ht)
  · rw [hsame.fileManager]
    refine hr.fileManager_induction (fun _ _ _ hp => hp)
      (fun _ _ _ _ _ _ hi => by simp at hi) ?_ h.counts
    intro now chunkfile outputfile he
    obtain ⟨ls, rfl, hls⟩ := hg.command now chunkfile outputfile he
    exact generateWhohas_countsOffsets e config now ls outputfile peer hls

/-- In every run fed with the right slices, every call that completes writes
the chunks in the order of the request, and any other writes nothing. -/
theorem output_file_correct (e : Endian) (config : Config) (chunk : Chunks) (events : List Event)
    (h : Along (step e config) (Genuine e config chunk) (Peer.init : Peer R) events) :
    Along (step e config) (CallWrites e config chunk) (Peer.init : Peer R) events ∧
      WritesWhole chunk (run (step e config) (Peer.init : Peer R) events).fileManager
        (run (step e config) (Peer.init : Peer R) events).recvList := by
  have hinit : Sound chunk (Peer.init : Peer R) :=
    ⟨by simp [Peer.init], by simp [CountsOffsets, Peer.init, FileManager.empty]⟩
  constructor
  · exact along_mono (sound_step e config chunk) (fun _ _ hs hg => hs.call hg) _ _ hinit h
  · have hrun := run_invariant (sound_step e config chunk) _ _ hinit h
    exact writesWhole hrun.faithful hrun.counts

omit [Rate R] in
theorem genuine_chunkData (peer : Peer R) {k : Nat} (hk : k < 512) :
    Genuine .little network (fun _ _ => 0) peer (chunkData k) := by
  obtain ⟨packet, hd, _, hseq, hlength, hdata⟩ := delivery_chunkData hk
  refine ⟨fun d hd' _ => ?_, fun _ _ _ he => by simp [chunkData] at he⟩
  obtain rfl := Option.some.inj (hd.symm.trans hd')
  intro b _ _ _
  refine ⟨by dsimp only; omega, hlength, ?_⟩
  dsimp only
  rw [hseq, hdata, List.take_of_length_le (by simp)]
  rfl

/-- A download of chunk 1 alone, whose last packet completes the file. -/
theorem output_file_correct_chunk :
    Along (step .little network) (CallWrites .little network (fun _ _ => 0)) (Peer.init : Peer ℚ)
        (almostFinished [⟨1, List.replicate 40 49⟩] ++ [chunkData 511]) ∧
      WritesWhole (fun _ _ => 0)
        (run (step .little network) (Peer.init : Peer ℚ)
          (almostFinished [⟨1, List.replicate 40 49⟩] ++ [chunkData 511])).fileManager
        (run (step .little network) (Peer.init : Peer ℚ)
          (almostFinished [⟨1, List.replicate 40 49⟩] ++ [chunkData 511])).recvList := by
  apply output_file_correct
  apply along_of_forall
  intro peer event he
  simp only [almostFinished, startEvents, List.mem_append, List.mem_cons, List.not_mem_nil, or_false,
    List.mem_map, List.mem_range] at he
  obtain ((rfl | rfl) | ⟨k, hk, rfl⟩) | rfl := he
  · refine ⟨fun d hd => by simp [delivery] at hd, ?_⟩
    rintro _ _ _ he
    obtain ⟨_, rfl, _⟩ := Event.command.inj he
    exact ⟨_, rfl, by simp⟩
  · refine ⟨fun d hd ht => ?_, fun _ _ _ he => by simp at he⟩
    obtain rfl := Option.some.inj hd
    exact absurd ht (by decide)
  · exact genuine_chunkData peer (by omega)
  · exact genuine_chunkData peer (by decide)

end P2PCC.OutputFile

import P2PCC.Publishing
import P2PCC.SingleTransfer

namespace P2PCC.Storing

open P2PCC.Lib.ByteOrder P2PCC.Packet P2PCC.Sender P2PCC.Receiver P2PCC.Manager
open P2PCC.HandlePacket P2PCC.Buffers P2PCC.OutputFile P2PCC.Tracking P2PCC.TwoPeers
open P2PCC.SingleTransfer P2PCC.Publishing

variable {R : Type}

/-- The `n` chunks of a file are requested, and nothing has been written. -/
structure Open (n : Nat) (peer : Peer R) : Prop where
  init : peer.fileManager.init = true
  requested : peer.fileManager.requested = fileOffsets n
  written : peer.written = []

/-- The one file that has been written consists of the chunks. -/
structure Closed (name : List Byte) (chunk : Chunks) (n : Nat) (peer : Peer R) : Prop where
  init : peer.fileManager.init = false
  written : peer.written = [(name, wholeFile chunk (fileOffsets n))]

/-- The first `j` chunks of the file have come and keep no peer busy. -/
structure Finished (chunk : Chunks) (j : Nat) (buffers : List RecvBuffer) : Prop where
  range : ∀ b ∈ buffers, 0 ≤ b.offset ∧ b.offset < j
  faithful : ∀ b ∈ buffers, Faithful chunk b
  complete : ∀ b ∈ buffers, Complete b
  free : ∀ b ∈ buffers, b.busy = false
  all : ∀ o : Int, 0 ≤ o → o < j → ∃ b ∈ buffers, b.offset = o

/-- Chunk `j` is coming into the buffer, as the only chunk that is. -/
structure Filling (link : Link) (name : List Byte) (chunk : Chunks) (n j : Nat) (b : RecvBuffer)
    (peer : Peer R) : Prop where
  buffers : ∃ old, peer.recvList = b :: old ∧ Finished chunk j old
  socket : b.socket = link.senderId
  offset : b.offset = j
  faithful : Faithful chunk b
  busy : b.busy = true ↔ ¬Complete b
  outputFile : peer.outputFile = name
  opened : ¬(Complete b ∧ n = j + 1) → Open n peer
  closed : Complete b → n = j + 1 → Closed name chunk n peer

/-- Where the scan for the ACK number stands. -/
structure Scanned (b : RecvBuffer) : Prop where
  low : 1 ≤ b.expected
  high : b.expected ≤ 1024
  filled : ∀ i, 1 ≤ i → i < b.expected → i < 512 → (b.chunks i).recved = true
  stop : b.expected < 512 → (b.chunks b.expected).recved = false

section Scan

variable {b : RecvBuffer}

theorem Scanned.recv (h : Scanned b) (past : Int → Int) (packet : DataPacket) :
    Scanned (b.recv past packet) ∧ b.expected ≤ (b.recv past packet).expected := by
  have hlow := h.low
  obtain ⟨hl, hu, hall, hstop, _⟩ := recv_scanned past packet hlow h.high h.filled
  exact ⟨⟨by omega, hu, hall, hstop⟩, hl⟩

theorem Complete.recv (h : Complete b) (past : Int → Int) (packet : DataPacket) :
    Complete (b.recv past packet) :=
  fun i hi hn => recv_recved_mono past packet (h i hi hn)

end Scan

section Full

variable {chunk : Chunks} {j : Nat} {b : RecvBuffer} {old : List RecvBuffer}

theorem Finished.full_iff (h : Finished chunk j old) (ho : b.offset = j) (hb : Counted b) {o : Int}
    (hl : 0 ≤ o) :
    isBufferFull o (b :: old) = 1 ↔ o < j ∨ o = j ∧ Complete b := by
  have hold : ∀ c ∈ old, c.totalRecv = 524288 :=
    fun c hc => (h.faithful c hc).full_iff.mpr (h.complete c hc)
  rw [isBufferFull_eq_one]
  constructor
  · rintro ⟨⟨c, hc, hco⟩, hall⟩
    obtain rfl | hc := List.mem_cons.mp hc
    · exact Or.inr ⟨hco.symm.trans ho, hb.full_iff.mp (hall c List.mem_cons_self hco)⟩
    · have hrange := h.range c hc
      exact Or.inl (by omega)
  · intro hcases
    obtain hlt | ⟨rfl, hcomplete⟩ := hcases
    · obtain ⟨c, hc, hco⟩ := h.all o hl hlt
      refine ⟨⟨c, List.mem_cons_of_mem b hc, hco⟩, fun d hd hdo => ?_⟩
      obtain rfl | hd := List.mem_cons.mp hd
      · omega
      · exact hold d hd
    · refine ⟨⟨b, List.mem_cons_self, ho⟩, fun d hd hdo => ?_⟩
      obtain rfl | hd := List.mem_cons.mp hd
      · exact hb.full_iff.mpr hcomplete
      · exact hold d hd

theorem fileOffsets_split {n j : Nat} (hj : j < n) :
    ∃ rest, fileOffsets n = fileOffsets j ++ (j : Int) :: rest := by
  obtain ⟨m, rfl⟩ : ∃ m, n = j + (m + 1) := ⟨n - j - 1, by omega⟩
  refine ⟨(List.range m).map (fun i : Nat => ((j + (i + 1) : Nat) : Int)), ?_⟩
  simp only [fileOffsets, List.range_add, List.map_append, List.range_succ_eq_map, List.map_cons,
    List.map_map, Nat.add_zero]
  rfl

theorem Finished.released (h : Finished chunk j old) (ho : b.offset = j) (hb : Counted b) {n : Nat}
    (hj : j < n) :
    ((fileOffsets n).all (fun o => isBufferFull o (b :: old) = 1) = true ↔
        Complete b ∧ n = j + 1) ∧
      ((j : Int) ∈ (fileOffsets n).takeWhile (fun o => isBufferFull o (b :: old) = 1) ↔
        Complete b) := by
  have hfull : ∀ o : Int, 0 ≤ o →
      (isBufferFull o (b :: old) = 1 ↔ o < j ∨ o = j ∧ Complete b) :=
    fun o hl => h.full_iff ho hb hl
  constructor
  · simp only [List.all_eq_true, decide_eq_true_eq, mem_fileOffsets]
    constructor
    · intro hall
      have hlast := (hfull (n - 1) (by omega)).mp (hall (n - 1) ⟨by omega, by omega⟩)
      obtain hlt | ⟨heq, hcomplete⟩ := hlast
      · omega
      · exact ⟨hcomplete, by omega⟩
    · rintro ⟨hcomplete, hlast⟩ o ⟨hl, hu⟩
      rw [hfull o hl]
      by_cases hlt : o < j
      · exact Or.inl hlt
      · exact Or.inr ⟨by omega, hcomplete⟩
  · obtain ⟨rest, hsplit⟩ := fileOffsets_split hj
    have hbefore : ∀ o ∈ fileOffsets j, decide (isBufferFull o (b :: old) = 1) = true := by
      intro o hmem
      obtain ⟨hl, hu⟩ := mem_fileOffsets.mp hmem
      exact decide_eq_true ((hfull o hl).mpr (Or.inl hu))
    have hout : (j : Int) ∉ fileOffsets j := by simp
    have hhere : isBufferFull j (b :: old) = 1 ↔ Complete b := by
      rw [hfull j (by omega)]
      simp
    rw [hsplit, List.takeWhile_append_of_pos hbefore, List.mem_append, or_iff_right hout,
      List.takeWhile_cons]
    by_cases hcomplete : Complete b
    · simp only [hhere.mpr hcomplete, decide_true, ↓reduceIte, List.mem_cons_self, hcomplete]
    · simp [mt hhere.mp hcomplete, hcomplete]

theorem Finished.releaseAll (h : Finished chunk j old) (offsets : List Int) :
    releaseAll offsets (b :: old) =
      { b with busy := b.busy && decide (b.offset ∉ offsets) } :: old := by
  rw [releaseAll_eq_map, List.map_cons]
  congr 1
  · by_cases hm : b.offset ∈ offsets <;> simp [hm]
  · conv_rhs => rw [← List.map_id old]
    apply List.map_congr_left
    intro c hc
    have hfree := h.free c hc
    split
    · rw [← hfree]
      rfl
    · rfl

end Full

theorem checkFileManager_init {fm : FileManager} (hi : fm.init = true)
    (recvList : List RecvBuffer) :
    checkFileManager fm recvList =
      if fm.requested.all (fun o => isBufferFull o recvList = 1) then
        (1, { fm with init := false, offset := [], timer := [], alreadyUsed := [] },
          releaseAll (fm.requested.takeWhile (fun o => isBufferFull o recvList = 1)) recvList,
          some (fileBytes fm.requested
            (releaseAll (fm.requested.takeWhile (fun o => isBufferFull o recvList = 1)) recvList)))
      else (-1, fm,
        releaseAll (fm.requested.takeWhile (fun o => isBufferFull o recvList = 1)) recvList,
        none) := by
  unfold checkFileManager
  rw [hi, releaseFull_eq]
  cases fm.requested.all (fun o => decide (isBufferFull o recvList = 1)) <;> rfl

/-- `check_file_manager` is called for the buffers, and what it assembles is
written. -/
def check (peer : Peer R) (offset now : Int) (recvList : List RecvBuffer) : Peer R :=
  let checked := checkFileManager (peer.fileManager.touch offset now) recvList
  { peer with
    recvList := checked.2.2.1
    fileManager := checked.2.1
    written := (checked.2.2.2.map (fun bs => (peer.outputFile, bs))).toList ++ peer.written }

section Receive

variable {link : Link} {name : List Byte} {chunk : Chunks} {n j : Nat} {b after : RecvBuffer}
  {peer : Peer R} {old : List RecvBuffer} {p : DataPacket} {k : Int}

/-- The buffer is the current one of the chunk, before or after a packet. -/
structure Current (link : Link) (chunk : Chunks) (j : Nat) (b : RecvBuffer) : Prop where
  socket : b.socket = link.senderId
  offset : b.offset = j
  faithful : Faithful chunk b

theorem fileBytes_last (hold : Finished chunk j old) (hc : Current link chunk j b)
    (hb : Complete b) (hn : n = j + 1) :
    fileBytes (fileOffsets n) (b :: old) = wholeFile chunk (fileOffsets n) := by
  apply fileBytes_full
  · exact List.forall_mem_cons.mpr ⟨hc.faithful, hold.faithful⟩
  · intro o ho
    obtain ⟨hl, hu⟩ := mem_fileOffsets.mp ho
    rw [hold.full_iff hc.offset hc.faithful.toCounted hl]
    by_cases hlt : o < j
    · exact Or.inl hlt
    · exact Or.inr ⟨by omega, hb⟩

theorem Filling.check_closed (h : Filling link name chunk n j b peer) (hold : Finished chunk j old)
    (hc : Current link chunk j after) (hmono : Complete b → Complete after)
    (hbusy : after.busy = b.busy) (hdone : Complete b ∧ n = j + 1) (now : Int) :
    Filling link name chunk n j after (check peer b.offset now (after :: old)) := by
  have hclosed := h.closed hdone.1 hdone.2
  have hafter := hmono hdone.1
  have hcheck : checkFileManager (peer.fileManager.touch b.offset now) (after :: old) =
      (-2, peer.fileManager.touch b.offset now, after :: old, none) := if_pos hclosed.init
  rw [check, hcheck]
  refine ⟨⟨old, rfl, hold⟩, hc.socket, hc.offset, hc.faithful, ?_, h.outputFile,
    fun hn => absurd ⟨hafter, hdone.2⟩ hn, fun _ _ => ⟨hclosed.init, hclosed.written⟩⟩
  rw [hbusy, h.busy]
  exact not_congr ⟨fun _ => hafter, fun _ => hdone.1⟩

theorem Filling.check_open (h : Filling link name chunk n j b peer) (hj : j < n)
    (hold : Finished chunk j old) (hc : Current link chunk j after)
    (hmono : Complete b → Complete after) (hbusy : after.busy = b.busy)
    (hdone : ¬(Complete b ∧ n = j + 1)) (now : Int) :
    ∃ busy, Filling link name chunk n j { after with busy := busy }
      (check peer b.offset now (after :: old)) := by
  have hopen := h.opened hdone
  obtain ⟨hall, hmem⟩ := hold.released hc.offset hc.faithful.toCounted hj
  have hinit : (peer.fileManager.touch b.offset now).init = true := hopen.init
  have hreq : (peer.fileManager.touch b.offset now).requested = fileOffsets n := hopen.requested
  rw [check, checkFileManager_init hinit, hreq, hold.releaseAll]
  generalize hwait : (after.busy && decide (after.offset ∉ (fileOffsets n).takeWhile
    (fun o => isBufferFull o (after :: old) = 1))) = busy
  have hstill : busy = true ↔ ¬Complete after := by
    rw [← hwait, hc.offset, Bool.and_eq_true, decide_eq_true_eq, hmem, hbusy, h.busy]
    exact ⟨fun hc => hc.2, fun hc => ⟨mt hmono hc, hc⟩⟩
  have hstored : Current link chunk j { after with busy := busy } :=
    ⟨hc.socket, hc.offset, faithful_busy hc.faithful busy⟩
  refine ⟨busy, ?_⟩
  by_cases hlast : Complete after ∧ n = j + 1
  · rw [if_pos (hall.mpr hlast), fileBytes_last hold hstored hlast.1 hlast.2]
    refine ⟨⟨old, rfl, hold⟩, hc.socket, hc.offset, hstored.faithful, hstill, h.outputFile,
      fun hn => absurd hlast hn, fun _ _ => ⟨rfl, ?_⟩⟩
    dsimp only
    rw [h.outputFile, hopen.written]
    rfl
  · have hmissing : ¬(fileOffsets n).all
        (fun o => isBufferFull o (after :: old) = 1) = true := fun ha => hlast (hall.mp ha)
    rw [if_neg hmissing]
    exact ⟨⟨old, rfl, hold⟩, hc.socket, hc.offset, hstored.faithful, hstill, h.outputFile,
      fun _ => ⟨hinit, hreq, hopen.written⟩, fun hc hn => absurd ⟨hc, hn⟩ hlast⟩

/-- The buffers and the file manager that a DATA packet leaves. -/
theorem handleData_head (e : Endian) (now : Int) (stray : Stray) {sockfd : Int}
    {packet : DataPacket} (hl : peer.recvList = b :: old) (hb : b.socket = sockfd)
    (hseq : packet.seq ≤ 512) :
    handleData e now stray sockfd packet peer =
      (check peer b.offset now (b.recv stray.past packet :: old),
        [ackPacket e (b.recv stray.past packet).expected]) := by
  have hr := recvData_split e stray.past packet sockfd [] old b hseq (by simp) hb
  rw [List.nil_append, List.nil_append, ← hl] at hr
  simp only [handleData, hr]
  rfl

variable [Rate R]

theorem Filling.receive (h : Filling link name chunk n j b peer) (hj : j < n)
    (hp : IsSlice link.endian (chunk j) k p) (now : Int) (stray : Stray) :
    (∃ busy, Filling link name chunk n j
        { b.recv stray.past (p.ntoh link.endian) with busy := busy }
        (handlePacket link.endian link.receiver now stray p link.senderId peer).1) ∧
      (handlePacket link.endian link.receiver now stray p link.senderId peer).2 =
        [ackPacket link.endian (b.recv stray.past (p.ntoh link.endian)).expected] := by
  obtain ⟨old, hl, hold⟩ := h.buffers
  have hseq : (p.ntoh link.endian).seq ≤ 512 := by
    rw [hp.seq]
    have := hp.high
    omega
  rw [handlePacket_data _ _ _ _ _ _ hp.packetType,
    handleData_head link.endian now stray hl h.socket hseq]
  refine ⟨?_, rfl⟩
  have hslice : IsSlice link.endian (chunk b.offset) k p := by rwa [h.offset]
  have hcurrent : Current link chunk j (b.recv stray.past (p.ntoh link.endian)) :=
    ⟨(recv_socket b stray.past _).trans h.socket, (recv_offset b stray.past _).trans h.offset,
      hslice.recv h.faithful stray.past⟩
  have hmono : Complete b → Complete (b.recv stray.past (p.ntoh link.endian)) :=
    fun hc => Complete.recv hc stray.past _
  have hbusy := recv_busy b stray.past (p.ntoh link.endian)
  by_cases hdone : Complete b ∧ n = j + 1
  · exact ⟨_, h.check_closed hold hcurrent hmono hbusy hdone now⟩
  · exact h.check_open hj hold hcurrent hmono hbusy hdone now

end Receive

end P2PCC.Storing

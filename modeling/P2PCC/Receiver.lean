import P2PCC.Lib.FirstMatch
import P2PCC.Lib.Slots
import P2PCC.Packet

namespace P2PCC.Receiver

open P2PCC.Lib.ByteOrder P2PCC.Lib.FirstMatch P2PCC.Lib.Slots P2PCC.Packet

/-- `content` is the part of `char content[1500]` that has been copied to. -/
structure DataChunk where
  acked : Bool
  recved : Bool
  length : Int
  content : List Byte
deriving DecidableEq, Repr

/-- `chunks` is memory from the first slot on; only 0 to 511 are in the array. -/
structure RecvBuffer where
  expected : Int
  socket : Int
  offset : Int
  busy : Bool
  totalRecv : Int
  chunks : Int → DataChunk

def emptyChunk : DataChunk := { acked := false, recved := false, length := 0, content := [] }

/-- The test with which `init_recv_buffer` refuses a new buffer. -/
def RecvBuffer.conflicts (b : RecvBuffer) (offset socket : Int) : Bool :=
  (b.socket = socket || b.offset = offset) && b.busy

def initRecvBuffer (offset socket : Int) (recvList : List RecvBuffer) : Int × List RecvBuffer :=
  if recvList.any (fun b => b.conflicts offset socket) then (-1, recvList)
  else
    (1, { expected := 1
          socket := socket
          offset := offset
          busy := true
          totalRecv := 0
          chunks := fun _ => emptyChunk } :: recvList)

/-- The scan for the first slot that is not received, with its remaining
passes. -/
def scan (recved : Int → Bool) : Nat → Int → Int
  | 0, i => i
  | n + 1, i => if recved i then scan recved n (i + 1) else i

/-- The `recved` flags the scan reads: past the array they are whatever
`past` holds, and 1 is TRUE. -/
def RecvBuffer.flag (b : RecvBuffer) (past : Int → Int) (i : Int) : Bool :=
  if i < 512 then (b.chunks i).recved else past i = 1

/-- The first half of `recv_data` on the buffer it found: store a payload
that has not been seen. -/
def RecvBuffer.store (b : RecvBuffer) (packet : DataPacket) : RecvBuffer :=
  let seq := packet.seq - 1
  if (b.chunks seq).recved then b
  else
    { b with
      totalRecv := b.totalRecv + packet.length
      chunks := Function.update b.chunks seq
        { b.chunks seq with
          recved := true
          length := packet.length
          content := (List.range packet.length.toNat).map (fun i => packet.data.getD i 0) } }

/-- The second half: look for the ACK number, from `expected` on. -/
def RecvBuffer.advance (b : RecvBuffer) (past : Int → Int) (packet : DataPacket) : RecvBuffer :=
  let seq := packet.seq - 1
  let i := scan (b.flag past) (1024 - b.expected).toNat b.expected
  { b with
    expected := i
    chunks := Function.update b.chunks seq
      { b.chunks seq with acked := (b.chunks seq).acked || b.expected < i } }

def RecvBuffer.recv (b : RecvBuffer) (past : Int → Int) (packet : DataPacket) : RecvBuffer :=
  (b.store packet).advance past packet

def ackPacket (e : Endian) (ackNum : Int) : DataPacket :=
  let packet := initPacket e 4 none 0
  { packet with header := { packet.header with ackNum := BitVec.ofInt 32 ackNum } }

/-- `none` is the NULL return, which leaves the caller's offset unwritten. -/
def recvData (e : Endian) (past : Int → Int) (recvPacket : DataPacket) (socket : Int)
    (recvList : List RecvBuffer) : List RecvBuffer × Option (DataPacket × Int) :=
  if recvPacket.seq > 512 then (recvList, none)
  else
    match recvList.find? (fun b => b.socket = socket) with
    | none => (recvList, none)
    | some b =>
      let b' := b.recv past recvPacket
      (modifyFirst (fun b => b.socket = socket) (fun _ => b') recvList,
        some (ackPacket e b'.expected, b.offset))

/-- The length `copy_chunk_data` returns and the bytes it copied. -/
def copyChunkData (offset chunkpos : Int) (recvList : List RecvBuffer) : Int × List Byte :=
  match recvList.find? (fun b => b.offset = offset) with
  | none => (0, [])
  | some b =>
    if (b.chunks chunkpos).recved then
      ((b.chunks chunkpos).length,
        (b.chunks chunkpos).content.take (b.chunks chunkpos).length.toNat)
    else (0, [])

def releaseBuffer (offset : Int) (recvList : List RecvBuffer) : List RecvBuffer :=
  recvList.map (fun b => if b.offset = offset then { b with busy := false } else b)

def isBufferFull (offset : Int) (recvList : List RecvBuffer) : Int :=
  if recvList.any (fun b => b.offset = offset && 1024 * 512 - b.totalRecv ≠ 0) then -1
  else if recvList.any (fun b => b.offset = offset) then 1
  else -1

theorem scan_spec (recved : Int → Bool) (n : Nat) (i : Int) :
    i ≤ scan recved n i ∧ scan recved n i ≤ i + n ∧
      (∀ j, i ≤ j → j < scan recved n i → recved j = true) ∧
      (scan recved n i < i + n → recved (scan recved n i) = false) := by
  induction n generalizing i with
  | zero => exact ⟨le_rfl, by simp [scan], fun j _ _ => by simp only [scan] at *; omega,
      fun h => by simp [scan] at h⟩
  | succ n ih =>
    rw [scan]
    split
    · rename_i hi
      obtain ⟨hl, hu, hall, hstop⟩ := ih (i + 1)
      refine ⟨by omega, by push_cast; omega, ?_, ?_⟩
      · intro j hj hlt
        by_cases he : j = i
        · rw [he]; exact hi
        · exact hall j (by omega) hlt
      · intro h
        exact hstop (by push_cast at h; omega)
    · rename_i hi
      exact ⟨le_rfl, by push_cast; omega, fun j _ _ => by omega, fun _ => by simpa using hi⟩

section Buffer

variable (b : RecvBuffer) (past : Int → Int) (packet : DataPacket)

@[simp] theorem recv_socket : (b.recv past packet).socket = b.socket := by
  unfold RecvBuffer.recv RecvBuffer.advance RecvBuffer.store
  dsimp only
  split <;> rfl

@[simp] theorem recv_offset : (b.recv past packet).offset = b.offset := by
  unfold RecvBuffer.recv RecvBuffer.advance RecvBuffer.store
  dsimp only
  split <;> rfl

@[simp] theorem recv_busy : (b.recv past packet).busy = b.busy := by
  unfold RecvBuffer.recv RecvBuffer.advance RecvBuffer.store
  dsimp only
  split <;> rfl

theorem recv_totalRecv : (b.recv past packet).totalRecv =
    if (b.chunks (packet.seq - 1)).recved then b.totalRecv else b.totalRecv + packet.length := by
  unfold RecvBuffer.recv RecvBuffer.advance RecvBuffer.store
  dsimp only
  split <;> rfl

theorem store_recved (j : Int) : ((b.store packet).chunks j).recved =
    ((b.chunks j).recved || decide (j = packet.seq - 1)) := by
  unfold RecvBuffer.store
  dsimp only
  by_cases hj : j = packet.seq - 1
  · subst hj
    split <;> simp_all
  · split <;> simp [hj]

theorem advance_recved (j : Int) : ((b.advance past packet).chunks j).recved =
    (b.chunks j).recved := by
  unfold RecvBuffer.advance
  by_cases hj : j = packet.seq - 1
  · simp [hj]
  · simp [Function.update_of_ne hj]

theorem advance_slot (j : Int) :
    ((b.advance past packet).chunks j).length = (b.chunks j).length ∧
      ((b.advance past packet).chunks j).content = (b.chunks j).content := by
  unfold RecvBuffer.advance
  by_cases hj : j = packet.seq - 1
  · simp [hj]
  · simp [Function.update_of_ne hj]

theorem recv_recved (j : Int) : ((b.recv past packet).chunks j).recved =
    ((b.chunks j).recved || decide (j = packet.seq - 1)) := by
  rw [RecvBuffer.recv, advance_recved, store_recved]

theorem recv_slot_old (j : Int) (h : j ≠ packet.seq - 1 ∨ (b.chunks j).recved = true) :
    ((b.recv past packet).chunks j).length = (b.chunks j).length ∧
      ((b.recv past packet).chunks j).content = (b.chunks j).content := by
  have hadvance := advance_slot (b.store packet) past packet j
  rw [RecvBuffer.recv, hadvance.1, hadvance.2]
  unfold RecvBuffer.store
  dsimp only
  by_cases hj : j = packet.seq - 1
  · subst hj
    rw [if_pos (h.resolve_left (by simp))]
    exact ⟨rfl, rfl⟩
  · split
    · exact ⟨rfl, rfl⟩
    · simp [Function.update_of_ne hj]

theorem recv_recved_old (j : Int) (h : j ≠ packet.seq - 1 ∨ (b.chunks j).recved = true) :
    ((b.recv past packet).chunks j).recved = (b.chunks j).recved := by
  rw [recv_recved]
  obtain hj | hrecved := h
  · rw [decide_eq_false hj, Bool.or_false]
  · rw [hrecved, Bool.true_or]

theorem recv_slot_new (h : (b.chunks (packet.seq - 1)).recved = false) :
    ((b.recv past packet).chunks (packet.seq - 1)).length = packet.length ∧
      ((b.recv past packet).chunks (packet.seq - 1)).content =
        (List.range packet.length.toNat).map (fun i => packet.data.getD i 0) := by
  have hadvance := advance_slot (b.store packet) past packet (packet.seq - 1)
  rw [RecvBuffer.recv, hadvance.1, hadvance.2]
  simp [RecvBuffer.store, h]

theorem recv_expected : (b.recv past packet).expected =
    scan ((b.recv past packet).flag past) (1024 - b.expected).toNat b.expected := by
  have hflag : (b.store packet).flag past = (b.recv past packet).flag past := by
    funext i
    simp only [RecvBuffer.flag, RecvBuffer.recv, advance_recved]
  have he : (b.store packet).expected = b.expected := by
    unfold RecvBuffer.store
    dsimp only
    split <;> rfl
  rw [← hflag, ← he]
  rfl

variable {b}

theorem recv_recved_mono {i : Int} (h : (b.chunks i).recved = true) :
    ((b.recv past packet).chunks i).recved = true := by
  rw [recv_recved, h, Bool.true_or]

/-- Where the scan for the ACK number ends: at the first empty slot, or behind
the array, where it goes on if the memory there looks like a flag. -/
theorem recv_scanned (hlow : 1 ≤ b.expected) (hhigh : b.expected ≤ 1024)
    (hfilled : ∀ i, 1 ≤ i → i < b.expected → i < 512 → (b.chunks i).recved = true) :
    b.expected ≤ (b.recv past packet).expected ∧ (b.recv past packet).expected ≤ 1024 ∧
      (∀ i, 1 ≤ i → i < (b.recv past packet).expected → i < 512 →
        ((b.recv past packet).chunks i).recved = true) ∧
      ((b.recv past packet).expected < 512 →
        ((b.recv past packet).chunks (b.recv past packet).expected).recved = false) ∧
      (b.expected ≤ 512 → 512 ≤ (b.recv past packet).expected →
        ((b.recv past packet).expected = 512 ↔ past 512 ≠ 1)) := by
  obtain ⟨hl, hu, hall, hstop⟩ := scan_spec ((b.recv past packet).flag past)
    (1024 - b.expected).toNat b.expected
  rw [← recv_expected] at hl hu hall hstop
  refine ⟨hl, by omega, ?_, ?_, ?_⟩
  · intro i hi hn hi'
    by_cases hold : i < b.expected
    · exact recv_recved_mono past packet (hfilled i hi hold hi')
    · have hflag := hall i (by omega) hn
      rwa [RecvBuffer.flag, if_pos hi'] at hflag
  · intro hlt
    have hflag := hstop (by omega)
    rwa [RecvBuffer.flag, if_pos hlt] at hflag
  · intro hin hend
    constructor
    · intro he
      have hflag := hstop (by omega)
      rw [he, RecvBuffer.flag, if_neg (by omega)] at hflag
      exact of_decide_eq_false hflag
    · intro hpast
      by_contra hne
      have hflag := hall 512 hin (by omega)
      rw [RecvBuffer.flag, if_neg (by omega)] at hflag
      exact hpast (of_decide_eq_true hflag)

end Buffer

@[simp] theorem ackPacket_packetType (e : Endian) (i : Int) :
    (ackPacket e i).header.packetType = 4 := rfl

theorem recvData_split (e : Endian) (past : Int → Int) (packet : DataPacket) (socket : Int)
    (l₁ l₂ : List RecvBuffer) (b : RecvBuffer) (hseq : packet.seq ≤ 512)
    (hl : ∀ c ∈ l₁, c.socket ≠ socket) (hb : b.socket = socket) :
    recvData e past packet socket (l₁ ++ b :: l₂) =
      (l₁ ++ b.recv past packet :: l₂,
        some (ackPacket e (b.recv past packet).expected, b.offset)) := by
  have hl' : ∀ c ∈ l₁, decide (c.socket = socket) = false := by simpa using hl
  have hb' : decide (b.socket = socket) = true := by simpa using hb
  have hf : (l₁ ++ b :: l₂).find? (fun b => decide (b.socket = socket)) = some b :=
    find?_of_prefix hl' hb'
  have hm : modifyFirst (fun b => decide (b.socket = socket)) (fun _ => b.recv past packet)
      (l₁ ++ b :: l₂) = l₁ ++ b.recv past packet :: l₂ := modifyFirst_of_prefix hl' hb'
  unfold recvData
  rw [if_neg (by omega), hf]
  dsimp only
  rw [hm]

/-- Either `recv_data` returns NULL and changes nothing, or it splits the
list at the first buffer of the peer. -/
theorem recvData_cases (e : Endian) (past : Int → Int) (packet : DataPacket) (socket : Int)
    (recvList : List RecvBuffer) :
    recvData e past packet socket recvList = (recvList, none) ∧
      (512 < packet.seq ∨ ∀ b ∈ recvList, b.socket ≠ socket) ∨
    packet.seq ≤ 512 ∧ ∃ l₁ b l₂, recvList = l₁ ++ b :: l₂ ∧ (∀ c ∈ l₁, c.socket ≠ socket) ∧
      b.socket = socket ∧ recvData e past packet socket recvList =
        (l₁ ++ b.recv past packet :: l₂,
          some (ackPacket e (b.recv past packet).expected, b.offset)) := by
  by_cases hseq : packet.seq > 512
  · exact Or.inl ⟨by simp [recvData, hseq], Or.inl hseq⟩
  · cases hf : recvList.find? (fun b => decide (b.socket = socket)) with
    | none =>
      exact Or.inl ⟨by simp [recvData, hseq, hf], Or.inr (by simpa using List.find?_eq_none.mp hf)⟩
    | some b =>
      obtain ⟨l₁, l₂, hl, hp, hb, _⟩ := modifyFirst_split hf
      have hl₁ : ∀ c ∈ l₁, c.socket ≠ socket := fun c hc => by simpa using hp c hc
      have hbs : b.socket = socket := by simpa using hb
      refine Or.inr ⟨by omega, l₁, b, l₂, hl, hl₁, hbs, ?_⟩
      rw [hl]
      exact recvData_split e past packet socket l₁ l₂ b (by omega) hl₁ hbs

theorem isBufferFull_eq_one (offset : Int) (recvList : List RecvBuffer) :
    isBufferFull offset recvList = 1 ↔ (∃ b ∈ recvList, b.offset = offset) ∧
      ∀ b ∈ recvList, b.offset = offset → b.totalRecv = 524288 := by
  unfold isBufferFull
  by_cases hgap : ∃ b ∈ recvList, b.offset = offset ∧ b.totalRecv ≠ 524288
  · obtain ⟨b, hb, ho, ht⟩ := hgap
    have hany : recvList.any
        (fun b => decide (b.offset = offset) && decide (1024 * 512 - b.totalRecv ≠ 0)) = true := by
      rw [List.any_eq_true]
      exact ⟨b, hb, by simp only [ho, decide_true, Bool.true_and, decide_eq_true_eq]; omega⟩
    simp only [hany, ↓reduceIte]
    exact ⟨fun h => by simp at h, fun h => absurd (h.2 b hb ho) ht⟩
  · have hany : recvList.any
        (fun b => decide (b.offset = offset) && decide (1024 * 512 - b.totalRecv ≠ 0)) = false := by
      rw [List.any_eq_false]
      intro b hb
      simp only [Bool.and_eq_true, decide_eq_true_eq, not_and]
      exact fun ho ht => hgap ⟨b, hb, ho, by omega⟩
    have hall : ∀ b ∈ recvList, b.offset = offset → b.totalRecv = 524288 := by
      intro b hb ho
      by_contra ht
      exact hgap ⟨b, hb, ho, ht⟩
    simp only [hany, Bool.false_eq_true, ↓reduceIte]
    by_cases hex : ∃ b ∈ recvList, b.offset = offset
    · have hany' : recvList.any (fun b => decide (b.offset = offset)) = true := by
        simpa using hex
      simp only [hany', ↓reduceIte]
      exact ⟨fun _ => ⟨hex, hall⟩, fun _ => trivial⟩
    · have hany' : ¬recvList.any (fun b => decide (b.offset = offset)) = true := by
        simpa using hex
      simp only [hany']
      exact ⟨fun h => by simp at h, fun h => absurd h.1 hex⟩

theorem mem_releaseBuffer {offset : Int} {recvList : List RecvBuffer} {b : RecvBuffer} :
    b ∈ releaseBuffer offset recvList ↔
      ∃ c ∈ recvList, b = if c.offset = offset then { c with busy := false } else c := by
  unfold releaseBuffer
  rw [List.mem_map]
  exact exists_congr fun c => and_congr_right fun _ => eq_comm

theorem recvData_forall {P : RecvBuffer → Prop} (e : Endian) (past : Int → Int)
    (packet : DataPacket) (socket : Int) {recvList : List RecvBuffer} (h : ∀ b ∈ recvList, P b)
    (hrecv : ∀ b, recvList.find? (fun b => decide (b.socket = socket)) = some b →
      packet.seq ≤ 512 → P b → P (b.recv past packet)) :
    ∀ b ∈ (recvData e past packet socket recvList).1, P b := by
  obtain ⟨hn, _⟩ | ⟨hseq, l₁, b, l₂, rfl, hfirst, hb, hr⟩ :=
    recvData_cases e past packet socket recvList
  · rw [hn]
    exact h
  · have hfind : (l₁ ++ b :: l₂).find? (fun b => decide (b.socket = socket)) = some b :=
      find?_of_prefix (by simpa using hfirst) (by simpa using hb)
    have hnew := hrecv b hfind hseq
    rw [hr]
    simp only [List.forall_mem_append, List.forall_mem_cons] at h ⊢
    exact ⟨h.1, hnew h.2.1, h.2.2⟩

theorem initRecvBuffer_forall {P : RecvBuffer → Prop} (offset socket : Int)
    {recvList : List RecvBuffer} (h : ∀ b ∈ recvList, P b)
    (hnew : P { expected := 1, socket := socket, offset := offset, busy := true, totalRecv := 0,
                chunks := fun _ => emptyChunk }) :
    ∀ b ∈ (initRecvBuffer offset socket recvList).2, P b := by
  rw [initRecvBuffer]
  split
  · exact h
  · exact List.forall_mem_cons.mpr ⟨hnew, h⟩

theorem releaseBuffer_forall {P : RecvBuffer → Prop} (hp : ∀ b, P b → P { b with busy := false })
    (offset : Int) (recvList : List RecvBuffer) (h : ∀ b ∈ recvList, P b) :
    ∀ b ∈ releaseBuffer offset recvList, P b := by
  intro b hb
  obtain ⟨c, hc, rfl⟩ := mem_releaseBuffer.mp hb
  split
  · exact hp c (h c hc)
  · exact h c hc

end P2PCC.Receiver

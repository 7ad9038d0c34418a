import P2PCC.Lib.Network
import P2PCC.OutputFile
import P2PCC.RoundTrip

namespace P2PCC.Swarm

open P2PCC.Lib.ByteOrder P2PCC.Lib.Runs P2PCC.Lib.Network P2PCC.Packet P2PCC.ChunkFile
open P2PCC.Tracker P2PCC.Sender P2PCC.Receiver P2PCC.Manager P2PCC.HandlePacket P2PCC.Peer
open P2PCC.Receiving P2PCC.Tracking P2PCC.Window P2PCC.OutputFile P2PCC.Successive P2PCC.RoundTrip

variable {R ι : Type}

/-- A master file, and the content it is about. -/
structure Library where
  lines : List ChunkLine
  content : List Byte

/-- Every line has all the digits of its hash, and stands for a chunk that can
be sought and that the content has whole. -/
structure Library.Complete (library : Library) : Prop where
  full : ∀ l ∈ library.lines, l.token.length = 40
  seekable : ∀ l ∈ library.lines, Seekable l.index
  whole : ∀ l ∈ library.lines, (524288 * l.index).toNat + 524288 ≤ library.content.length

def Library.chunk (library : Library) : Chunks := fun offset n =>
  library.content[(524288 * offset).toNat + n.toNat]?.getD 0

/-- Any number of processes with one master file. A process has an address
that differs from host to host as it is written there, and wherever it is on
the list of peers it is there under its own identity. -/
structure Net (ι : Type) where
  library : Library
  endian : ι → Endian
  hasChunkFile : ι → Option (List ChunkLine)
  identity : ι → Int
  peers : ι → List BtPeer
  addr : ι → ι → SockAddr
  addr_injective : ∀ j, Function.Injective (addr j)
  identity_injective : Function.Injective identity
  knows : ∀ j i node, (peers j).find? (fun node => node.addr = addr j i) = some node →
    node.id = identity i

def Net.config (net : Net ι) (i : ι) : Config :=
  { chunkFile := some net.library.lines
    content := net.library.content
    hasChunkFile := net.hasChunkFile i
    identity := net.identity i
    peers := net.peers i }

structure Order where
  name : List Byte
  offsets : List Int
deriving DecidableEq, Repr

/-- A process, and all that its user has asked for so far. -/
structure Node (R : Type) where
  peer : Peer R
  orders : List Order

structure Message (ι : Type) where
  source : ι
  target : SockAddr
  packet : DataPacket

/-- What a process finds when it takes a packet. -/
structure Draw where
  now : Int
  stray : Stray

inductive Input where
  | tick (now : Int)
  | request (now : Int) (chunkfile : Option (List ChunkLine)) (outputfile : List Byte)

def Input.event : Input → Event
  | .tick now => .tick now
  | .request now chunkfile outputfile => .command now chunkfile outputfile

/-- The name is cut to what `output_file` has room for, and a chunk file that
cannot be opened asks for nothing. -/
def ordered (config : Config) : Event → List Order
  | .command _ chunkfile outputfile =>
    [⟨outputfile.take 120,
      (chunkfile.getD []).map (fun l => getOffSetFromMasterChunkfile l.hash config)⟩]
  | _ => []

/-- The event that a message is to the process that takes it. -/
def Net.arrival (net : Net ι) (j : ι) (m : Message ι) (d : Draw) : Event :=
  .inbound d.now d.stray (net.addr j m.source) (m.packet.ntoh (net.endian j))

section Definitions

variable [Rate R]

def Net.acts (net : Net ι) (i : ι) (node : Node R) (event : Event) :
    Node R × List (Message ι) :=
  let acted := act (net.endian i) (net.config i) node.peer event
  ({ peer := acted.1, orders := ordered (net.config i) event ++ node.orders },
    acted.2.map (fun m => ⟨i, m.1, m.2.ntoh (net.endian i)⟩))

def Net.protocol (net : Net ι) : Protocol ι (Node R) (Message ι) Draw Input where
  init _ := { peer := Peer.init, orders := [] }
  accepts j m := decide (m.target = net.addr m.source j)
  receive j node m d := net.acts j node (net.arrival j m d)
  input i node x := net.acts i node x.event

end Definitions

@[simp] theorem ntoh_ntoh (e : Endian) (p : DataPacket) : (p.ntoh e).ntoh e = p := by
  simp [DataPacket.ntoh]

section Arrivals

variable {net : Net ι} {j : ι} {m : Message ι} {w : Draw} {d : Delivery}

theorem delivery_arrival
    (hd : delivery (net.endian j) (net.config j) (net.arrival j m w) = some d) :
    d = ⟨w.now, w.stray, net.identity m.source, m.packet⟩ := by
  obtain ⟨fromAddr, packet, node, he, hp, hf, _, hs⟩ := delivery_eq_some hd
  simp only [Net.arrival, Event.inbound.injEq] at he
  obtain ⟨hnow, hstray, rfl, rfl⟩ := he
  rw [ntoh_ntoh] at hp
  obtain ⟨now, stray, sockfd, packet⟩ := d
  rw [net.knows j m.source node hf] at hs
  dsimp only at hnow hstray hs hp
  rw [hnow, hstray, hs, hp]

end Arrivals

/-- A DATA packet in host order, with the slice its number says of the chunk
it was cut from. -/
structure Cut (library : Library) (p : DataPacket) : Prop where
  low : 1 ≤ p.seq
  high : p.seq ≤ 512
  length : p.length = 1024
  source : ∃ offset, p.chunk = some offset ∧ ∀ l ∈ library.lines, l.index = offset → offset ≠ -1 →
    p.data = slice (library.chunk offset) (p.seq - 1)

/-- What processes of a swarm send each other. -/
structure Fair (library : Library) (m : Message ι) : Prop where
  data : m.packet.header.packetType = 3 → Cut library m.packet
  ack : m.packet.header.packetType = 4 → 1 ≤ m.packet.header.ackNum.toInt

/-- The header of the entry is not that of an ACK. -/
def Quiet (t : PacketTracker) : Prop := t.packet.header.seqNum = 0 → t.packet.header.ackNum = 0

/-- An entry of the tracker, its head apart, is for a packet of a chunk. -/
structure Tracked (t : PacketTracker) : Prop where
  quiet : Quiet t
  numbered : t.seq ≠ -441 → t.packet.header.packetType = 3 ∧ 1 ≤ t.seq ∧ t.seq ≤ 512

/-- A buffer for a chunk of the master file, with an ACK number in range. -/
structure Placed (library : Library) (b : RecvBuffer) : Prop where
  listed : ∃ l ∈ library.lines, l.index = b.offset
  valid : b.offset ≠ -1
  low : 1 ≤ b.expected
  high : b.expected ≤ 1024

structure Orderly (net : Net ι) (j : ι) (node : Node R) : Prop where
  honest : Honest (net.endian j) (net.config j) node.peer
  tracked : ∀ t ∈ node.peer.pTracker, Tracked t
  faithful : ∀ b ∈ node.peer.recvList, Faithful net.library.chunk b
  placed : ∀ b ∈ node.peer.recvList, Placed net.library b
  pending : node.peer.fileManager.init = true →
    ⟨node.peer.outputFile, node.peer.fileManager.requested⟩ ∈ node.orders
  written : ∀ f ∈ node.peer.written, ∃ o ∈ node.orders,
    f = (o.name, wholeFile net.library.chunk o.offsets)

/-- What a head of the tracker is made of does not look like an ACK, and an
empty slot only takes packets of the chunk its buffer is for. -/
structure Current (net : Net ι) (_ : ι) (node : Node R) (m : Message ι) (w : Draw) : Prop where
  quiet : Quiet w.stray.dummy
  chunk : m.packet.header.packetType = 3 → ∀ b,
    node.peer.recvList.find? (fun b => b.socket = net.identity m.source) = some b →
    (b.chunks (m.packet.seq - 1)).recved = false → m.packet.chunk = some b.offset

/-- Every token of a chunk file that can be opened has the 40 digits of a hash. -/
def Readable (_ : ι) (_ : Node R) : Input → Prop
  | .request _ chunkfile _ => ∀ ls, chunkfile = some ls → ∀ l ∈ ls, l.token.length = 40
  | .tick _ => True

section Slices

variable {library : Library}

theorem chunk_eq (hcomplete : library.Complete) {content : Int → Byte} {config : Config}
    (hc : config.content = library.content) {l : ChunkLine} (hl : l ∈ library.lines)
    (h : Agrees config l.index content) {k : Int}
    (hlow : 0 ≤ k) (hhigh : k < 512) : slice content k = slice (library.chunk l.index) k := by
  rw [slice, slice, List.map_inj_left]
  intro i hi
  have hlt := List.mem_range.mp hi
  have hin : (524288 * l.index).toNat + (k * 1024 + i).toNat < library.content.length := by
    have hwhole := hcomplete.whole l hl
    omega
  have hbyte : chunkByte config l.index (k * 1024 + i).toNat =
      some library.content[(524288 * l.index).toNat + (k * 1024 + i).toNat] := by
    rw [chunkByte, hc, List.getElem?_eq_getElem hin]
  have hcontent := h _ _ hbyte
  rw [Int.toNat_of_nonneg (by omega)] at hcontent
  rw [hcontent, Library.chunk, List.getElem?_eq_getElem hin, Option.getD_some]

theorem cut_labelled (hcomplete : library.Complete) {e : Endian} {config : Config}
    (hlines : config.chunkFile = some library.lines) (hc : config.content = library.content)
    {p : DataPacket} (h : Labelled e config p) (hlow : 1 ≤ (p.ntoh e).seq)
    (hhigh : (p.ntoh e).seq ≤ 512) : Cut library (p.ntoh e) := by
  obtain ⟨hlength, offset, content, hchunk, hagrees, hdata⟩ := h
  refine ⟨hlow, hhigh, hlength, offset, hchunk, ?_⟩
  rintro l hl rfl hvalid
  rw [ntoh_data, hdata]
  have hread := unmistaken_full hlines hcomplete.full hvalid
  exact chunk_eq hcomplete hc hl (hagrees hread (hcomplete.seekable l hl)) (by omega) (by omega)

end Slices

section Buffers

variable {e : Endian} {config : Config}

theorem expected_recv (b : RecvBuffer) (past : Int → Int) (packet : DataPacket)
    (h : b.expected ≤ 1024) :
    b.expected ≤ (b.recv past packet).expected ∧ (b.recv past packet).expected ≤ 1024 := by
  obtain ⟨hl, hu, _⟩ := scan_spec ((b.recv past packet).flag past) (1024 - b.expected).toNat
    b.expected
  rw [← recv_expected] at hl hu
  omega

theorem handleIhave_hashes {I : Peer R × List DataPacket → Prop} {now sockfd : Int}
    {packet : DataPacket}
    (hask : ∀ (peer : Peer R) ret i node count recvList, i < hashCount packet →
      getOffSetFromMasterChunkfile (hashAt packet i) config ≠ -1 →
      initRecvBuffer (getOffSetFromMasterChunkfile (hashAt packet i) config) sockfd peer.recvList =
        (count, recvList) → I (peer, ret) →
      I ({ peer with
          recvList := recvList
          fileManager := { peer.fileManager with
            alreadyUsed := (getOffSetFromMasterChunkfile (hashAt packet i) config, node) ::
              peer.fileManager.alreadyUsed }.touch
                (getOffSetFromMasterChunkfile (hashAt packet i) config) now },
        initPacket e 2 (some (hashAt packet i)) 20 :: ret))
    (peer : Peer R) (h : I (peer, [])) : I (handleIhave e config now sockfd packet peer) := by
  have hstep : ∀ st i, I st → i < hashCount packet →
      I (ihaveStep e config now sockfd packet st i) := by
    intro st i hst hi
    rw [ihaveStep]
    dsimp only
    split
    · exact hst
    · rename_i node _
      split
      · exact hst
      · rename_i hoffset
        split
        · exact hst
        · rename_i count recvList _ hbuffer
          exact hask st.1 st.2 i node.addr count recvList hi hoffset hbuffer hst
  refine run_invariant hstep (peer, []) (List.range (hashCount packet)) h ?_
  exact along_of_forall _ _ fun _ i hi => List.mem_range.mp hi

variable [Rate R]

/-- A property of the buffer list is kept by an event when it is kept by the
release of a buffer, and by what the event itself does with the buffers. -/
theorem recvList_step {P : List RecvBuffer → Prop} {peer : Peer R} {event : Event}
    (hinit : ∀ d i l, delivery e config event = some d → d.packet.header.packetType = 1 →
      i < hashCount d.packet → getOffSetFromMasterChunkfile (hashAt d.packet i) config ≠ -1 → P l →
      P (initRecvBuffer (getOffSetFromMasterChunkfile (hashAt d.packet i) config) d.sockfd l).2)
    (hrelease : ∀ o l, P l → P (releaseBuffer o l))
    (hrecv : ∀ d, delivery e config event = some d → d.packet.header.packetType = 3 →
      P (recvData e d.stray.past d.packet d.sockfd peer.recvList).1) (hp : P peer.recvList) :
    P (step e config peer event).recvList := by
  obtain ⟨next, hr, hsame⟩ := step_received e config peer event
  rw [hsame.recvList]
  cases hr with
  | command now chunkfile outputfile =>
    rw [generateWhohas_recvList]
    exact hp
  | tick now => exact regenerateWhohas_induction hrelease e config now peer hp
  | ignored now stray fromAddr packet hd => exact hp
  | ihave _ d hd ht =>
    refine handleIhave_hashes (I := fun st => P st.1.recvList) ?_ peer hp
    intro p ret i node count recvList hi hoffset hbuffer hst
    have hkeep := hinit d i p.recvList hd ht hi hoffset hst
    rwa [hbuffer] at hkeep
  | data _ d hd ht => exact checkFileManager_induction hrelease _ _ (hrecv d hd ht)
  | other _ d hd hi ht => exact hp

end Buffers

section Files

variable {e : Endian} {config : Config}

theorem checkFileManager_bytes {chunk : Chunks} {fm : FileManager} {recvList : List RecvBuffer}
    (h : ∀ b ∈ recvList, Faithful chunk b) {bytes : List Byte}
    (hb : (checkFileManager fm recvList).2.2.2 = some bytes) :
    fm.init = true ∧ bytes = wholeFile chunk fm.requested := by
  unfold checkFileManager at hb
  cases hi : fm.init with
  | false => simp [hi] at hb
  | true =>
    refine ⟨rfl, ?_⟩
    simp only [hi, Bool.true_eq_false, ↓reduceIte, releaseFull_eq] at hb
    cases hall : fm.requested.all (fun o => decide (isBufferFull o recvList = 1)) with
    | false => simp [hall] at hb
    | true =>
      simp only [hall, Option.some.injEq] at hb
      have hfull : ∀ o ∈ fm.requested, isBufferFull o recvList = 1 := by simpa using hall
      rw [← hb]
      apply fileBytes_full
      · intro b hm
        obtain ⟨c, hc, rfl⟩ := mem_releaseAll.mp hm
        split
        · exact (h c hc).release
        · exact h c hc
      · intro o ho
        rw [isBufferFull_releaseAll]
        exact hfull o ho

theorem generateWhohas_requested (e : Endian) (config : Config) (now : Int)
    (chunkfile : Option (List ChunkLine)) (outputfile : List Byte) (peer : Peer R)
    (h : ∀ ls, chunkfile = some ls → ∀ l ∈ ls, l.token.length = 40) :
    (generateWhohas e config now chunkfile outputfile peer).1.fileManager.requested =
      (chunkfile.getD []).map (fun l => getOffSetFromMasterChunkfile l.hash config) := by
  cases chunkfile with
  | none => exact List.take_zero
  | some ls =>
    obtain ⟨⟨data, ret⟩, hloop⟩ := whohasLoop_read e (fun l hl => (h ls rfl l hl).le) 0 [] []
    simp only [generateWhohas, hloop, zero_add, FileManager.requested, Option.getD_some]
    rw [List.take_of_length_le (by simp [uncleared_length])]
    exact uncleared_map (h ls rfl) (fun hash => getOffSetFromMasterChunkfile hash config) []

variable [Rate R]

theorem step_outputFile (peer : Peer R) {event : Event}
    (h : ∀ now chunkfile outputfile, event ≠ .command now chunkfile outputfile) :
    (step e config peer event).outputFile = peer.outputFile := by
  cases event with
  | command now chunkfile outputfile => exact absurd rfl (h now chunkfile outputfile)
  | tick now =>
    dsimp only [step, act, peerTick, regenerateWhohas]
    split <;> rfl
  | inbound now stray fromAddr packet =>
    cases hd : delivery e config (.inbound now stray fromAddr packet) with
    | none => rw [step, act, processInboundUdp_none hd]
    | some d =>
      rw [step, act, processInboundUdp_some hd]
      dsimp only
      have hh := handlePacket_handled e config now stray packet d.sockfd peer
      generalize handlePacket e config now stray packet d.sockfd peer = handled at hh
      generalize (packet.ntoh e).header.packetType = type at hh
      cases hh with
      | whohas => rfl
      | ihave =>
        apply handleIhave_hashes (I := fun st => st.1.outputFile = peer.outputFile)
        · exact fun _ _ _ _ _ _ _ _ _ hst => hst
        · rfl
      | get => rfl
      | data => rfl
      | ack => rfl
      | invalid type hn => rfl

theorem step_written {Q : List Byte × List Byte → Prop} {peer : Peer R} {event : Event}
    (hdata : ∀ d, delivery e config event = some d → d.packet.header.packetType = 3 →
      ∀ offset bytes, (checkFileManager (peer.fileManager.touch offset d.now)
        (recvData e d.stray.past d.packet d.sockfd peer.recvList).1).2.2.2 = some bytes →
      Q (peer.outputFile, bytes)) (h : ∀ f ∈ peer.written, Q f) :
    ∀ f ∈ (step e config peer event).written, Q f := by
  obtain ⟨next, hr, hsame⟩ := step_received e config peer event
  rw [hsame.written]
  cases hr with
  | command now chunkfile outputfile =>
    obtain ⟨fm, heq, _⟩ := generateWhohas_opens e config now chunkfile outputfile peer
    rw [heq]
    exact h
  | tick now =>
    unfold regenerateWhohas
    split <;> exact h
  | ignored now stray fromAddr packet hd => exact h
  | ihave _ d hd ht =>
    apply handleIhave_hashes (I := fun st => ∀ f ∈ st.1.written, Q f)
    · exact fun _ _ _ _ _ _ _ _ _ hst => hst
    · exact h
  | data _ d hd ht =>
    intro f hf
    obtain hf | hf := List.mem_append.mp hf
    · obtain ⟨bytes, hbytes, rfl⟩ := Option.map_eq_some_iff.mp (Option.mem_toList.mp hf)
      exact hdata d hd ht _ bytes hbytes
    · exact h f hf
  | other _ d hd hi ht => exact h

end Files

section Sending

variable {e : Endian} {config : Config}

theorem hton32_eq_zero {x : BitVec 32} (h : hton32 e x = 0) : x = 0 := by
  rw [← hton32_hton32 e x, h, hton32_zero]

theorem tracked_timeless : Timeless Tracked := fun _ _ _ h => ⟨h.quiet, h.numbered⟩

theorem tracked_dummy {t : PacketTracker} (h : Quiet t) : Tracked (dummyHead t) :=
  ⟨h, fun hs => absurd rfl hs⟩

theorem tracked_response {p : DataPacket} (h : Proper e p) (h3 : p.header.packetType = 3)
    (sockfd : Int) (fromAddr : SockAddr) (sendTime expireTime : Int) :
    Tracked ⟨sockfd, p.seq, fromAddr, sendTime, expireTime, p.convert e⟩ := by
  have hlow := h.numbered h3
  refine ⟨?_, fun _ => ⟨h3, hlow, h.high⟩⟩
  intro hzero
  have hseq : p.header.seqNum = 0 := hton32_eq_zero hzero
  rw [DataPacket.seq, hseq] at hlow
  exact absurd hlow (by decide)

theorem resend_seq {t : PacketTracker} (h : Tracked t) (hs : t.seq ≠ -441) :
    ((resend e t).ntoh e).seq = t.seq := by
  obtain ⟨_, hlow, hhigh⟩ := h.numbered hs
  have hback : ((resend e t).ntoh e).header.seqNum = BitVec.ofInt 32 t.seq :=
    hton32_hton32 e (BitVec.ofInt 32 t.seq)
  rw [DataPacket.seq, hback]
  exact toInt_ofInt32 (by omega) (by omega)

theorem tracked_resend {t : PacketTracker} (hs : t.seq ≠ -441) (h : Tracked t) :
    Tracked { t with packet := resend e t } := by
  refine ⟨?_, h.numbered⟩
  intro hzero
  have hseq : BitVec.ofInt 32 t.seq = 0 := hton32_eq_zero hzero
  obtain ⟨_, hlow, hhigh⟩ := h.numbered hs
  have hnum : (BitVec.ofInt 32 t.seq).toInt = t.seq := toInt_ofInt32 (by omega) (by omega)
  rw [hseq] at hnum
  have hnone : (0 : BitVec 32).toInt = 0 := rfl
  omega

variable [Rate R] {peer : Peer R} {event : Event}

theorem tracked_step (hunsent : ∀ data ∈ peer.list, Unsent data)
    (hack : AckInRange e config peer event)
    (hquiet : ∀ d, delivery e config event = some d → Quiet d.stray.dummy)
    (h : ∀ t ∈ peer.pTracker, Tracked t) :
    ∀ t ∈ (step e config peer event).pTracker, Tracked t := by
  cases event with
  | command now chunkfile outputfile =>
    rw [step, act, (generateWhohas_sending e config now chunkfile outputfile peer).1]
    exact h
  | tick now =>
    rw [step, act, peerTick]
    apply retransmit_forall tracked_timeless e (fun _ => tracked_resend) now
    rwa [(regenerateWhohas_sending e config now peer).1]
  | inbound now stray fromAddr packet =>
    cases hd : delivery e config (.inbound now stray fromAddr packet) with
    | none =>
      rw [step, act, processInboundUdp_none hd]
      exact h
    | some d =>
      obtain ⟨_, _, _, he, hp, _⟩ := delivery_eq_some hd
      simp only [Event.inbound.injEq] at he
      obtain ⟨rfl, rfl, rfl, rfl⟩ := he
      have hproper := handlePacket_proper e config hd hp hunsent hack
      rw [step, act, processInboundUdp_some hd]
      refine sendFrom_forall e d.now d.stray.dummy d.sockfd fromAddr tracked_timeless
        (tracked_dummy (hquiet d hd)) _ ?_ _ ?_
      · exact fun p hm h3 => tracked_response (hproper p (List.mem_reverse.mp hm)) h3 _ _
      · exact fun t ht => h t (handlePacket_subset e config d.now d.stray packet d.sockfd peer t ht)

omit [Rate R] in
theorem command_sent {now : Int} {chunkfile : Option (List ChunkLine)} {outputfile : List Byte}
    {m : SockAddr × DataPacket}
    (hm : m ∈ broadcast config (generateWhohas e config now chunkfile outputfile peer).2.reverse) :
    m.2.header.packetType = 0 :=
  broadcast_type (generateWhohas_type e config now chunkfile outputfile peer) m hm

theorem tick_sent {now : Int} {m : SockAddr × DataPacket}
    (hm : m ∈ (act e config peer (.tick now)).2) : m.2.header.packetType = 0 ∨
      ∃ t ∈ peer.pTracker, t.seq ≠ -441 ∧ m.2 = resend e t := by
  obtain ⟨htracker, hlist⟩ := regenerateWhohas_sending e config now peer
  dsimp only [act, peerTick] at hm
  rw [htracker, hlist] at hm
  obtain hm | hm := List.mem_append.mp hm
  · exact Or.inl (broadcast_type (regenerateWhohas_type e config now peer) m hm)
  · obtain ⟨t, ht, hs, rfl⟩ := retransmit_sent e now peer.pTracker peer.list m hm
    exact Or.inr ⟨t, ht, hs, rfl⟩

theorem ack_sent {now : Int} {stray : Stray} {fromAddr : SockAddr} {packet : DataPacket}
    {d : Delivery} (hd : delivery e config (.inbound now stray fromAddr packet) = some d)
    (h3 : packet.header.packetType = 3) (h : ∀ t ∈ peer.pTracker, Tracked t)
    (hrange : ∀ b ∈ peer.recvList, 1 ≤ b.expected ∧ b.expected ≤ 1024) {m : SockAddr × DataPacket}
    (hm : m ∈ (act e config peer (.inbound now stray fromAddr packet)).2) :
    1 ≤ (m.2.ntoh e).header.ackNum.toInt := by
  rw [act, processInboundUdp_some hd, handlePacket_data e config now stray d.sockfd peer h3] at hm
  dsimp only at hm
  rw [handleData_reply, sendResponses_eq] at hm
  obtain ⟨hn, _⟩ | ⟨_, l₁, b, l₂, hl, _, _, hr⟩ :=
    recvData_cases e stray.past (packet.ntoh e) d.sockfd peer.recvList
  · rw [hn] at hm
    exact absurd hm List.not_mem_nil
  · obtain ⟨hlow, hhigh⟩ := hrange b (by rw [hl]; simp)
    obtain ⟨hle, hmax⟩ := expected_recv b stray.past (packet.ntoh e) hhigh
    have hnum : (ackPacket e (b.recv stray.past (packet.ntoh e)).expected).header.ackNum.toInt =
        (b.recv stray.past (packet.ntoh e)).expected := toInt_ofInt32 (by omega) (by omega)
    have hfree : ∀ t ∈ peer.pTracker,
        sameHeader t (ackPacket e (b.recv stray.past (packet.ntoh e)).expected) = false := by
      intro t ht
      have hseq : (ackPacket e (b.recv stray.past (packet.ntoh e)).expected).header.seqNum = 0 :=
        hton32_zero e
      rw [sameHeader, hseq, Bool.and_eq_false_iff]
      by_cases hs : t.packet.header.seqNum = 0
      · refine Or.inr (decide_eq_false ?_)
        intro hack
        rw [← hack, (h t ht).quiet hs] at hnum
        have hzero : (0 : BitVec 32).toInt = 0 := rfl
        omega
      · exact Or.inl (decide_eq_false hs)
    have hsent := sendResponse_free e now stray.dummy d.sockfd fromAddr (peer.pTracker, []) _ hfree
    rw [hr] at hm
    obtain rfl := List.mem_singleton.mp (hsent ▸ hm)
    rw [ntoh_convert_ackNum, hnum]
    omega

theorem sent_cut {library : Library} (hcomplete : library.Complete)
    (hlines : config.chunkFile = some library.lines) (hc : config.content = library.content)
    (hhonest : Honest e config peer) (hack : AckInRange e config peer event)
    (h : ∀ t ∈ peer.pTracker, Tracked t) :
    ∀ m ∈ (act e config peer event).2, m.2.header.packetType = 3 →
      Cut library (m.2.ntoh e) := by
  intro m hm h3
  have hlabelled := (honest_act event hhonest).2 m hm h3
  suffices hseq : 1 ≤ (m.2.ntoh e).seq ∧ (m.2.ntoh e).seq ≤ 512 from
    cut_labelled hcomplete hlines hc hlabelled hseq.1 hseq.2
  cases event with
  | command now chunkfile outputfile => exact absurd (h3.symm.trans (command_sent hm)) (by decide)
  | tick now =>
    obtain h0 | ⟨t, ht, hs, heq⟩ := tick_sent hm
    · exact absurd (h3.symm.trans h0) (by decide)
    · rw [heq, resend_seq (h t ht) hs]
      exact ((h t ht).numbered hs).2
  | inbound now stray fromAddr packet =>
    cases hd : delivery e config (.inbound now stray fromAddr packet) with
    | none =>
      rw [act, processInboundUdp_none hd] at hm
      exact absurd hm List.not_mem_nil
    | some d =>
      obtain ⟨_, _, _, he, hp, _⟩ := delivery_eq_some hd
      simp only [Event.inbound.injEq] at he
      obtain ⟨rfl, rfl, rfl, rfl⟩ := he
      obtain ⟨p, hin, _, hform, hdata⟩ := inbound_sent e hd peer m hm
      have hp3 : p.header.packetType = 3 := (convert_or_packetType hform).symm.trans h3
      have hproper := handlePacket_proper e config hd hp
        (fun data hl => (hhonest.sourced data hl).unsent) hack p hin
      rw [hdata hp3, DataPacket.seq, ntoh_convert_seqNum]
      exact ⟨hproper.numbered hp3, hproper.high⟩

theorem sent_acks (h : ∀ t ∈ peer.pTracker, Tracked t)
    (hrange : ∀ b ∈ peer.recvList, 1 ≤ b.expected ∧ b.expected ≤ 1024) :
    ∀ m ∈ (act e config peer event).2, m.2.header.packetType = 4 →
      1 ≤ (m.2.ntoh e).header.ackNum.toInt := by
  intro m hm h4
  cases event with
  | command now chunkfile outputfile => exact absurd (h4.symm.trans (command_sent hm)) (by decide)
  | tick now =>
    obtain h0 | ⟨t, ht, hs, heq⟩ := tick_sent hm
    · exact absurd (h4.symm.trans h0) (by decide)
    · have h3 : m.2.header.packetType = 3 := by
        rw [heq]
        exact ((h t ht).numbered hs).1
      exact absurd (h4.symm.trans h3) (by decide)
  | inbound now stray fromAddr packet =>
    cases hd : delivery e config (.inbound now stray fromAddr packet) with
    | none =>
      rw [act, processInboundUdp_none hd] at hm
      exact absurd hm List.not_mem_nil
    | some d =>
      obtain ⟨p, hin, _, hform, _⟩ := inbound_sent e hd peer m hm
      have hp4 : p.header.packetType = 4 := (convert_or_packetType hform).symm.trans h4
      have htype := (handlePacket_replyType e config now stray packet d.sockfd peer p hin).symm.trans
        hp4
      have h3 : packet.header.packetType = 3 := by
        unfold replyType at htype
        split at htype
        · exact absurd htype (by decide)
        · split at htype
          · exact absurd htype (by decide)
          · split at htype
            · assumption
            · exact absurd htype (by decide)
      exact ack_sent hd h3 h hrange hm

end Sending

section Steps

variable {net : Net ι} {j : ι} {node : Node R}

theorem placed_new {offset : Int} (hlisted : ∃ l ∈ net.library.lines, l.index = offset)
    (hvalid : offset ≠ -1) (socket : Int) : Placed net.library
      { expected := 1, socket := socket, offset := offset, busy := true, totalRecv := 0,
        chunks := fun _ => emptyChunk } :=
  ⟨hlisted, hvalid, le_rfl, by simp⟩

theorem Placed.recv {library : Library} {b : RecvBuffer} (h : Placed library b) (past : Int → Int)
    (packet : DataPacket) : Placed library (b.recv past packet) := by
  obtain ⟨hle, hmax⟩ := expected_recv b past packet h.high
  exact ⟨by rw [recv_offset]; exact h.listed, by rw [recv_offset]; exact h.valid,
    h.low.trans hle, hmax⟩

theorem offset_listed {hash : List Byte} (h : getOffSetFromMasterChunkfile hash (net.config j) ≠ -1) :
    ∃ l ∈ net.library.lines, l.index = getOffSetFromMasterChunkfile hash (net.config j) :=
  getOffSet_index h

variable [Rate R]

theorem placed_acts {event : Event} (h : Orderly net j node) :
    ∀ b ∈ (step (net.endian j) (net.config j) node.peer event).recvList, Placed net.library b := by
  apply recvList_step (P := fun l => ∀ b ∈ l, Placed net.library b) _ _ _ h.placed
  · intro d i l _ _ _ hoffset hl
    exact initRecvBuffer_forall _ _ hl (placed_new (offset_listed hoffset) hoffset _)
  · exact fun o l hl => releaseBuffer_forall
      (fun _ hb => ⟨hb.listed, hb.valid, hb.low, hb.high⟩) o l hl
  · exact fun d _ _ => recvData_forall _ _ _ _ h.placed fun b _ _ hb => hb.recv _ _

theorem pending_acts {event : Event} (h : Orderly net j node)
    (hreadable : ∀ now chunkfile outputfile, event = .command now chunkfile outputfile →
      ∀ ls, chunkfile = some ls → ∀ l ∈ ls, l.token.length = 40)
    (hopen : (step (net.endian j) (net.config j) node.peer event).fileManager.init = true) :
    ⟨(step (net.endian j) (net.config j) node.peer event).outputFile,
        (step (net.endian j) (net.config j) node.peer event).fileManager.requested⟩ ∈
      ordered (net.config j) event ++ node.orders := by
  by_cases hcommand : ∃ now chunkfile outputfile, event = .command now chunkfile outputfile
  · obtain ⟨now, chunkfile, outputfile, rfl⟩ := hcommand
    have hrequested := generateWhohas_requested (net.endian j) (net.config j) now
      chunkfile outputfile node.peer (hreadable now chunkfile outputfile rfl)
    obtain ⟨fm, heq, _⟩ := generateWhohas_opens (net.endian j) (net.config j) now chunkfile
      outputfile node.peer
    rw [heq] at hrequested
    rw [step, act, heq]
    dsimp only
    rw [hrequested]
    exact List.mem_cons_self
  · push Not at hcommand
    obtain ⟨next, hr, hsame⟩ := step_received (net.endian j) (net.config j) node.peer event
    rw [hsame.fileManager] at hopen ⊢
    rw [step_outputFile node.peer hcommand]
    apply List.mem_append_right
    refine hr.fileManager_induction (P := fun fm => fm.init = true →
      ⟨node.peer.outputFile, fm.requested⟩ ∈ node.orders) ?_ ?_ ?_ h.pending hopen
    · exact fun fm timer alreadyUsed hfm => hfm
    · exact fun d _ _ _ fm _ hi => by simp at hi
    · exact fun now chunkfile outputfile he => absurd he (hcommand now chunkfile outputfile)

/-- An event keeps a process in order, and what it sends is fair. -/
theorem orderly_acts (hcomplete : net.library.Complete) {event : Event} (h : Orderly net j node)
    (hack : AckInRange (net.endian j) (net.config j) node.peer event)
    (hquiet : ∀ d, delivery (net.endian j) (net.config j) event = some d → Quiet d.stray.dummy)
    (hstores : ∀ d, delivery (net.endian j) (net.config j) event = some d →
      d.packet.header.packetType = 3 →
      Stores net.library.chunk node.peer.recvList d.packet d.sockfd)
    (hreadable : ∀ now chunkfile outputfile, event = .command now chunkfile outputfile →
      ∀ ls, chunkfile = some ls → ∀ l ∈ ls, l.token.length = 40) :
    Orderly net j (net.acts j node event).1 ∧
      ∀ m ∈ (net.acts j node event).2, Fair net.library m := by
  have hunsent : ∀ data ∈ node.peer.list, Unsent data :=
    fun data hm => (h.honest.sourced data hm).unsent
  have hrecv : ∀ d, delivery (net.endian j) (net.config j) event = some d →
      d.packet.header.packetType = 3 →
      ∀ b ∈ (recvData (net.endian j) d.stray.past d.packet d.sockfd node.peer.recvList).1,
        Faithful net.library.chunk b :=
    fun d hd h3 => faithful_recvData _ _ _ _ _ _ h.faithful (hstores d hd h3)
  have hfaithful : ∀ b ∈ (step (net.endian j) (net.config j) node.peer event).recvList,
      Faithful net.library.chunk b := by
    apply recvList_step (P := fun l => ∀ b ∈ l, Faithful net.library.chunk b) _ _ hrecv h.faithful
    · exact fun d i l _ _ _ _ hl => faithful_init _ _ _ l hl
    · exact fun o l hl => releaseBuffer_forall (fun _ hb => hb.release) o l hl
  have hwritten : ∀ f ∈ (step (net.endian j) (net.config j) node.peer event).written,
      ∃ o ∈ node.orders, f = (o.name, wholeFile net.library.chunk o.offsets) := by
    refine step_written ?_ h.written
    intro d hd h3 offset bytes hbytes
    obtain ⟨hopen, rfl⟩ := checkFileManager_bytes (hrecv d hd h3) hbytes
    exact ⟨_, h.pending hopen, rfl⟩
  refine ⟨⟨(honest_act event h.honest).1, tracked_step hunsent hack hquiet h.tracked, hfaithful,
    placed_acts h, pending_acts h hreadable, ?_⟩, ?_⟩
  · intro f hf
    obtain ⟨o, ho, hfile⟩ := hwritten f hf
    exact ⟨o, List.mem_append_right _ ho, hfile⟩
  · intro m hm
    obtain ⟨sent, hs, rfl⟩ := List.mem_map.mp hm
    refine ⟨fun h3 => ?_, fun h4 => ?_⟩
    · have hlines : (net.config j).chunkFile = some net.library.lines := rfl
      have hcontent : (net.config j).content = net.library.content := rfl
      exact sent_cut hcomplete hlines hcontent h.honest hack h.tracked sent hs h3
    · exact sent_acks h.tracked (fun b hb => ⟨(h.placed b hb).low, (h.placed b hb).high⟩) sent hs h4

theorem orderly_receive (hcomplete : net.library.Complete) {m : Message ι} {w : Draw}
    (h : Orderly net j node) (hm : Fair net.library m) (hg : Current net j node m w) :
    Orderly net j (net.acts j node (net.arrival j m w)).1 ∧
      ∀ m' ∈ (net.acts j node (net.arrival j m w)).2, Fair net.library m' := by
  refine orderly_acts hcomplete h ?_ ?_ ?_ ?_
  · intro d hd h4 data _ _ _
    obtain rfl := delivery_arrival hd
    have hlow := hm.ack h4
    rw [toInt_sub_one hlow]
    omega
  · intro d hd
    obtain rfl := delivery_arrival hd
    exact hg.quiet
  · intro d hd h3 b hb _ hempty
    obtain rfl := delivery_arrival hd
    obtain ⟨hlow, hhigh, hlength, offset, hchunk, hslice⟩ := hm.data h3
    obtain rfl := Option.some.inj (hchunk.symm.trans (hg.chunk h3 b hb hempty))
    have hplaced := h.placed b (List.mem_of_find?_eq_some hb)
    obtain ⟨l, hl, hindex⟩ := hplaced.listed
    refine ⟨hlow, hlength, ?_⟩
    dsimp only
    rw [hslice l hl hindex hplaced.valid, List.take_of_length_le (by simp)]
  · intro now chunkfile outputfile he
    cases he

theorem orderly_input (hcomplete : net.library.Complete) {x : Input} (h : Orderly net j node)
    (hx : Readable j node x) :
    Orderly net j (net.acts j node x.event).1 ∧
      ∀ m ∈ (net.acts j node x.event).2, Fair net.library m := by
  have hnone : delivery (net.endian j) (net.config j) x.event = none := by
    cases x <;> rfl
  refine orderly_acts hcomplete h ?_ ?_ ?_ ?_
  · exact fun d hd => by simp [hnone] at hd
  · exact fun d hd => by simp [hnone] at hd
  · exact fun d hd => by simp [hnone] at hd
  · intro now chunkfile outputfile he
    cases x with
    | tick now => cases he
    | request now chunkfile outputfile =>
      cases he
      exact hx

theorem orderly_keeps (net : Net ι) (hcomplete : net.library.Complete) :
    Keeps (net.protocol (R := R)) (Orderly net) (Fair net.library) (Current net) Readable := by
  refine ⟨?_, ?_, ?_⟩
  · intro i
    exact ⟨⟨fun _ hd => absurd hd List.not_mem_nil, fun _ ht => absurd ht List.not_mem_nil⟩,
      fun _ ht => absurd ht List.not_mem_nil, fun _ hb => absurd hb List.not_mem_nil,
      fun _ hb => absurd hb List.not_mem_nil, fun hi => absurd hi Bool.false_ne_true,
      fun _ hf => absurd hf List.not_mem_nil⟩
  · exact fun j node m w h hm _ hg => orderly_receive hcomplete h hm hg
  · exact fun j node x h hx => orderly_input hcomplete h hx

/-- Every file a process has written holds, under the name of one of its
requests, the chunks of that request in their order. -/
def FilesRight {μ : Type} (net : Net ι) (s : State ι (Node R) μ) : Prop :=
  ∀ j, ∀ f ∈ (s.party j).peer.written, ∃ o ∈ (s.party j).orders,
    f = (o.name, wholeFile net.library.chunk o.offsets)

variable [DecidableEq ι]

/-- In every run in which an empty slot only takes packets of the chunk its
buffer is for, every file is right: whatever is lost, repeated, delayed or sent
again between any number of processes. -/
theorem swarm_files (net : Net ι) (hcomplete : net.library.Complete)
    (moves : List (Move ι Draw Input))
    (h : Along (net.protocol (R := R)).step (net.protocol.Guarded (Current net) Readable)
      net.protocol.start moves) :
    FilesRight net (run (net.protocol (R := R)).step net.protocol.start moves) :=
  fun j => (((orderly_keeps net hcomplete).run moves h).party j).written

end Steps

section Pair

def firstLine : ChunkLine := ⟨0, List.replicate 40 49⟩

/-- Two processes on hosts of different byte order; the second has the chunk. -/
def pair : Net Bool :=
  { library :=
      { lines := [firstLine]
        content := List.replicate 524288 7 }
    endian := fun i => if i then .big else .little
    hasChunkFile := fun i => if i then some [firstLine] else none
    identity := fun i => if i then 2 else 1
    peers := fun _ => network.peers.take 2
    addr := fun _ i => if i then ⟨2, 2, 2⟩ else ⟨2, 1, 1⟩
    addr_injective := by
      intro _ i i' h
      cases i <;> cases i' <;> simp_all
    identity_injective := by
      intro i i' h
      cases i <;> cases i' <;> simp_all
    knows := by
      intro _ i node h
      cases i <;> (obtain rfl := Option.some.inj h; rfl) }

theorem pair_complete : pair.library.Complete := by
  refine ⟨?_, ?_, ?_⟩
  · intro l hl
    rw [List.mem_singleton.mp hl]
    rfl
  · intro l hl
    rw [List.mem_singleton.mp hl]
    rfl
  · intro l hl
    rw [List.mem_singleton.mp hl]
    show _ ≤ (List.replicate 524288 (7 : Byte)).length
    rw [List.length_replicate]
    decide

/-- The first process asks for the chunk, and the second sends a packet. -/
def fetch : List (Move Bool Draw Input) :=
  [.input false (.request 0 (some [firstLine]) []), .deliver 0 true ⟨1, cleared⟩,
    .deliver 0 false ⟨2, cleared⟩, .deliver 0 true ⟨3, cleared⟩]

/-- The packet that a run has in front of the channel. -/
def nextPacket (moves : List (Move Bool Draw Input)) : Option DataPacket :=
  (run (pair.protocol (R := ℚ)).step pair.protocol.start moves).flight[0]?.map Message.packet

theorem current_next {moves : List (Move Bool Draw Input)} {type : Byte}
    (h : (nextPacket moves).map (fun p => p.header.packetType) = some type) (hne : type ≠ 3)
    (i : Bool) (now : Int) : (pair.protocol (R := ℚ)).Guarded (Current pair) Readable
      (run pair.protocol.step pair.protocol.start moves) (.deliver 0 i ⟨now, cleared⟩) := by
  intro m rest hm _
  refine ⟨fun _ => rfl, fun h3 => ?_⟩
  obtain ⟨m', hget, hrest⟩ := Option.map_eq_some_iff.mp hm
  obtain ⟨rfl, rfl⟩ := Prod.mk.inj hrest
  rw [nextPacket, hget, Option.map_some, Option.map_some, h3] at h
  exact absurd (Option.some.inj h).symm hne

theorem swarm_files_pair : FilesRight pair (run (pair.protocol (R := ℚ)).step pair.protocol.start
    (fetch ++ [.deliver 0 false ⟨4, cleared⟩])) := by
  apply swarm_files pair pair_complete
  have hwhohas : (nextPacket (fetch.take 1)).map (fun p => p.header.packetType) = some 0 := by
    decide +kernel
  have hihave : (nextPacket (fetch.take 2)).map (fun p => p.header.packetType) = some 1 := by
    decide +kernel
  have hget : (nextPacket (fetch.take 3)).map (fun p => p.header.packetType) = some 2 := by
    decide +kernel
  have hchunk : (nextPacket fetch).map (fun p => p.chunk) = some (some 0) := by
    decide +kernel
  have hbuffer : ∀ b ∈ ((run (pair.protocol (R := ℚ)).step pair.protocol.start fetch).party
      false).peer.recvList, b.offset = 0 := by
    decide +kernel
  refine ⟨?_, current_next hwhohas (by decide) true 1, current_next hihave (by decide) false 2,
    current_next hget (by decide) true 3, ?_, trivial⟩
  · intro ls hls l hl
    obtain rfl := Option.some.inj hls
    obtain rfl := List.mem_singleton.mp hl
    decide
  · intro m rest hm _
    refine ⟨fun _ => rfl, fun _ b hb _ => ?_⟩
    obtain ⟨m', hnext, hrest⟩ := Option.map_eq_some_iff.mp hm
    obtain ⟨rfl, rfl⟩ := Prod.mk.inj hrest
    have hnext' : (run (pair.protocol (R := ℚ)).step pair.protocol.start fetch).flight[0]? =
      some m' := hnext
    rw [nextPacket, hnext', Option.map_some, Option.map_some] at hchunk
    rw [Option.some.inj hchunk, hbuffer b (List.mem_of_find?_eq_some hb)]

end Pair

end P2PCC.Swarm

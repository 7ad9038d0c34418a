import P2PCC.Offers
import P2PCC.Wire

namespace P2PCC.Datagrams

open P2PCC.Lib.ByteOrder P2PCC.Lib.Runs P2PCC.Lib.Network P2PCC.Packet P2PCC.ChunkFile
open P2PCC.Sender P2PCC.Receiver P2PCC.HandlePacket P2PCC.Peer P2PCC.Receiving P2PCC.Tracking
open P2PCC.Window P2PCC.OutputFile P2PCC.RoundTrip P2PCC.Swarm P2PCC.Offers P2PCC.Wire

variable {R ι : Type}

/-- The bytes of a packet on their way. -/
structure Datagram (ι : Type) where
  source : ι
  target : SockAddr
  bytes : List Byte

/-- What a process finds when it takes a datagram, and the buffer that it
takes it into, with what was on the stack there. -/
structure Inbound where
  draw : Draw
  buf : List Byte
  size : buf.length = 1500

/-- The event that a datagram is to the process that takes it. -/
def taken (net : Net ι) (j : ι) (m : Datagram ι) (d : Inbound) : Event :=
  .inbound d.draw.now d.draw.stray (net.addr j m.source)
    (buildPacketFromBuf (net.endian j) (recvfrom d.buf m.bytes))

section Definitions

variable [Rate R]

def sends (net : Net ι) (behind : ι → DataPacket → List Byte) (i : ι) (node : Node R)
    (event : Event) : Node R × List (Datagram ι) :=
  let acted := act (net.endian i) (net.config i) node.peer event
  ({ peer := acted.1, orders := ordered (net.config i) event ++ node.orders },
    acted.2.map (fun m => ⟨i, m.1, datagram (behind i m.2) (net.endian i) m.2⟩))

/-- The processes of a swarm and the bytes between them; `behind` is what lies
in memory behind the data of a packet. -/
def wire (net : Net ι) (behind : ι → DataPacket → List Byte) :
    Protocol ι (Node R) (Datagram ι) Inbound Input where
  init _ := { peer := Peer.init, orders := [] }
  accepts j m := decide (m.target = net.addr m.source j)
  receive j node m d := sends net behind j node (taken net j m d)
  input i node x := sends net behind i node x.event

end Definitions

/-- A datagram with the bytes of a packet. -/
structure Carries (net : Net ι) (n : Datagram ι) (m : Message ι) : Prop where
  source : n.source = m.source
  target : n.target = m.target
  formed : Formed m.packet
  bytes : ∃ behind, n.bytes =
    datagram behind (net.endian m.source) (m.packet.ntoh (net.endian m.source))

/-- The same process, and what it may send again has its lengths. -/
def Same (net : Net ι) (i : ι) (node node' : Node R) : Prop :=
  node = node' ∧ TracksFormed (net.endian i) node'.peer

section Steps

variable {net : Net ι} {behind : ι → DataPacket → List Byte} {j : ι} {node node' : Node R}

theorem taken_arrival {n : Datagram ι} {m : Message ι} (h : Carries net n m) (d : Inbound) :
    ∃ rest, taken net j n d = .inbound d.draw.now d.draw.stray (net.addr j m.source)
      ((padded rest m.packet).ntoh (net.endian j)) := by
  obtain ⟨source, target, bytes⟩ := n
  obtain ⟨hsource, _, hformed, behind, hbytes⟩ := h
  dsimp only at hsource hbytes
  have hread : Formed ((m.packet.ntoh (net.endian m.source)).ntoh (net.endian m.source)) := by
    rw [ntoh_ntoh]
    exact hformed
  obtain ⟨rest, hrest⟩ := datagram_read behind (net.endian j) hread d.size
  rw [ntoh_ntoh, ← hbytes] at hrest
  refine ⟨rest, ?_⟩
  rw [taken, ← hrest, ntoh_ntoh, hsource]

variable [Rate R]

theorem act_padded {e : Endian} {config : Config} {peer : Peer R} {p : DataPacket} (h : Formed p)
    (rest : List Byte) (now : Int) (stray : Stray) (fromAddr : SockAddr) :
    act e config peer (.inbound now stray fromAddr ((padded rest p).ntoh e)) =
      act e config peer (.inbound now stray fromAddr (p.ntoh e)) :=
  processInboundUdp_padded rest h e config now stray fromAddr peer

theorem sends_acts {event : Event} (h : Same net j node node')
    (hin : ∀ d, delivery (net.endian j) (net.config j) event = some d → Formed d.packet) :
    Same net j (sends net behind j node event).1 (net.acts j node' event).1 ∧
      List.Forall₂ (Carries net) (sends net behind j node event).2
        (net.acts j node' event).2 := by
  obtain ⟨rfl, htracks⟩ := h
  obtain ⟨hkeeps, hsent⟩ := formed_act htracks hin
  refine ⟨⟨rfl, hkeeps⟩, ?_⟩
  rw [sends, Net.acts, List.forall₂_map_left_iff, List.forall₂_map_right_iff,
    List.forall₂_same]
  intro m hm
  refine ⟨rfl, rfl, hsent m hm, behind j m.2, ?_⟩
  dsimp only
  rw [ntoh_ntoh]

/-- Between hosts of any byte order, whatever lies behind a packet when it is
sent and in a buffer when it is taken, the bytes do what the packets do. -/
theorem wire_simulates (net : Net ι) (behind : ι → DataPacket → List Byte) :
    Simulates (wire (R := R) net behind) net.protocol Inbound.draw (Same net) (Carries net) := by
  refine ⟨?_, ?_, ?_, ?_⟩
  · exact fun i => ⟨rfl, fun _ ht => absurd ht List.not_mem_nil⟩
  · intro j n m h
    show decide (n.target = net.addr n.source j) = decide (m.target = net.addr m.source j)
    rw [h.source, h.target]
  · intro j node node' n m d h hm _
    obtain ⟨rest, htaken⟩ := taken_arrival (j := j) hm d
    have hsame : sends net behind j node (taken net j n d) =
        sends net behind j node (net.arrival j m d.draw) := by
      rw [sends, sends, htaken, Net.arrival, act_padded hm.formed]
      rfl
    show Same net j (sends net behind j node (taken net j n d)).1 _ ∧
      List.Forall₂ (Carries net) (sends net behind j node (taken net j n d)).2 _
    rw [hsame]
    apply sends_acts h
    intro w hw
    rw [delivery_arrival hw]
    exact hm.formed
  · intro j node node' x h
    apply sends_acts h
    intro d hd
    have hnone : delivery (net.endian j) (net.config j) x.event = none := by
      cases x <;> rfl
    simp [hnone] at hd

variable [DecidableEq ι]

/-- In every run the processes are in the states they would be in if whole
packets were exchanged, and the bytes on their way are those of the packets. -/
theorem wire_run (net : Net ι) (behind : ι → DataPacket → List Byte)
    (moves : List (Move ι Inbound Input)) :
    Related (Same net) (Carries net)
      (run (wire (R := R) net behind).step (wire net behind).start moves)
      (run net.protocol.step net.protocol.start (moves.map (Move.seen Inbound.draw))) :=
  (wire_simulates net behind).run moves

/-- A head of the tracker that is made of memory does not look like an ACK,
and the tokens of a chunk file are whole. -/
def Clean : Move ι Inbound Input → Prop
  | .fault _ => True
  | .deliver _ _ d => Quiet d.draw.stray.dummy
  | .input _ (.request _ chunkfile _) =>
    ∀ ls, chunkfile = some ls → ∀ l ∈ ls, l.token.length = 40
  | .input _ (.tick _) => True

omit [DecidableEq ι] in
theorem clean_seen {move : Move ι Inbound Input} (h : Clean move)
    (s : State ι (Node R) (Message ι)) :
    net.protocol.Guarded HeadsQuiet Readable s (move.seen Inbound.draw) := by
  cases move with
  | fault fault => trivial
  | deliver k i d => exact fun _ _ _ _ => h
  | input i x =>
    cases x with
    | tick now => trivial
    | request now chunkfile outputfile => exact h

/-- While no process offers more than one chunk, every file that a run of
bytes has written is right. -/
theorem wire_files (net : Net ι) (hcomplete : net.library.Complete)
    (behind : ι → DataPacket → List Byte) (offer : ι → Option Int) (hone : Single net offer)
    (moves : List (Move ι Inbound Input)) (h : ∀ m ∈ moves, Clean m) :
    FilesRight net (run (wire (R := R) net behind).step (wire net behind).start moves) := by
  intro j
  have hguarded : Along (net.protocol (R := R)).step (net.protocol.Guarded HeadsQuiet Readable)
      net.protocol.start (moves.map (Move.seen Inbound.draw)) := by
    apply along_of_forall
    intro s move hmove
    obtain ⟨m, hm, rfl⟩ := List.mem_map.mp hmove
    exact clean_seen (h m hm) s
  obtain ⟨hsame, _⟩ := ((wire_simulates (R := R) net behind).run moves).party j
  rw [hsame]
  exact single_files net hcomplete offer hone _ hguarded j

end Steps

section Pair

/-- A buffer with something in it from before. -/
def dirty (now : Int) : Inbound := ⟨⟨now, cleared⟩, List.replicate 1500 255, List.length_replicate⟩

/-- The pair fetches its chunk, and a packet of it arrives twice. -/
theorem wire_files_pair : FilesRight pair (run (wire (R := ℚ) pair fun _ _ => []).step
    (wire pair fun _ _ => []).start
    [.input false (.request 0 (some [firstLine]) []), .deliver 0 true (dirty 1),
      .deliver 0 false (dirty 2), .deliver 0 true (dirty 3), .fault (.duplicate 0),
      .deliver 0 false (dirty 4), .deliver 0 false (dirty 5)]) := by
  apply wire_files pair pair_complete _ _ pair_single
  intro m hm
  simp only [List.mem_cons, List.not_mem_nil, or_false] at hm
  obtain rfl | rfl | rfl | rfl | rfl | rfl | rfl := hm
  · intro ls hls l hl
    obtain rfl := Option.some.inj hls
    obtain rfl := List.mem_singleton.mp hl
    decide
  · exact fun _ => rfl
  · exact fun _ => rfl
  · exact fun _ => rfl
  · trivial
  · exact fun _ => rfl
  · exact fun _ => rfl

end Pair

end P2PCC.Datagrams

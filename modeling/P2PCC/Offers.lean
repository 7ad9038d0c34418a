import P2PCC.Owners
import P2PCC.Swarm
import P2PCC.Whohas

namespace P2PCC.Offers

open P2PCC.Lib.ByteOrder P2PCC.Lib.Runs P2PCC.Lib.FirstMatch P2PCC.Lib.Network P2PCC.Packet
open P2PCC.ChunkFile P2PCC.Tracker P2PCC.Sender P2PCC.Receiver P2PCC.HandlePacket P2PCC.Peer
open P2PCC.Receiving P2PCC.Tracking P2PCC.Window P2PCC.ActiveChunks P2PCC.Whohas P2PCC.Successive
open P2PCC.Owners P2PCC.RoundTrip P2PCC.Swarm

variable {R ι : Type}

/-- The hash is unknown to the master file, or is that of the chunk the
process offers. -/
def Offered (net : Net ι) (offer : ι → Option Int) (i : ι) (hash : List Byte) : Prop :=
  getOffSetFromMasterChunkfile hash (net.config i) ≠ -1 →
    offer i = some (getOffSetFromMasterChunkfile hash (net.config i))

/-- No process offers more than one chunk. -/
def Single (net : Net ι) (offer : ι → Option Int) : Prop :=
  ∀ i ls, net.hasChunkFile i = some ls → ∀ l ∈ ls, Offered net offer i l.hash

/-- A message is about the chunk that is offered at one of its ends. -/
structure About (net : Net ι) (offer : ι → Option Int) (m : Message ι) : Prop where
  ihave : m.packet.header.packetType = 1 → ∀ hash ∈ hashes m.packet,
    Offered net offer m.source hash
  get : m.packet.header.packetType = 2 → ∀ i, m.target = net.addr m.source i →
    offer i = some (getOffSetFromMasterChunkfile (m.packet.data.take 20) (net.config i))
  data : m.packet.header.packetType = 3 → m.packet.chunk = offer m.source

structure Bound (net : Net ι) (offer : ι → Option Int) (j : ι) (node : Node R) : Prop where
  transfers : ∀ data ∈ node.peer.list, offer j = some data.offset
  tracked : ∀ t ∈ node.peer.pTracker, t.seq ≠ -441 →
    t.packet.header.packetType = 3 ∧ t.packet.chunk = offer j
  buffers : ∀ b ∈ node.peer.recvList, ∀ i, b.socket = net.identity i → offer i = some b.offset

section Serving

variable [Rate R] {e : Endian} {config : Config} {peer : Peer R} {chunk : Option Int}

theorem handlePacket_serves (now : Int) (stray : Stray) {packet : DataPacket} (sockfd : Int)
    (h : ∀ data ∈ peer.list, chunk = some data.offset)
    (hget : (packet.ntoh e).header.packetType = 2 →
      chunk = some (getOffSetFromMasterChunkfile ((packet.ntoh e).data.take 20) config)) :
    (∀ data ∈ (handlePacket e config now stray packet sockfd peer).1.list,
        chunk = some data.offset) ∧
      ∀ p ∈ (handlePacket e config now stray packet sockfd peer).2, p.header.packetType = 3 →
        p.chunk = chunk := by
  have hp := handlePacket_handled e config now stray packet sockfd peer
  have hreply := handlePacket_replyType e config now stray packet sockfd peer
  rw [← ntoh_packetType e packet] at hreply
  generalize handlePacket e config now stray packet sockfd peer = handled at hp hreply
  generalize (packet.ntoh e).header.packetType = type at hp hreply hget
  cases hp with
  | whohas => exact ⟨h, fun p hm h3 => absurd (h3.symm.trans (hreply p hm)) (by decide)⟩
  | ihave =>
    rw [(handleIhave_sending e config now sockfd _ peer).2.1]
    exact ⟨h, fun p hm h3 => absurd (h3.symm.trans (hreply p hm)) (by decide)⟩
  | get =>
    dsimp only [handleGet]
    rw [sendData_initDatalist]
    refine ⟨List.forall_mem_cons.mpr ⟨hget rfl, h⟩, ?_⟩
    intro p hm _
    rw [List.mem_singleton.mp hm, dataPacket_chunk, hget rfl]
    rfl
  | data => exact ⟨h, fun p hm h3 => absurd (h3.symm.trans (hreply p hm)) (by decide)⟩
  | ack =>
    dsimp only [handleAckPacket]
    cases hd : getDataBySocket sockfd peer.list with
    | none =>
      rw [handleAck, hd]
      exact ⟨h, fun p hm => absurd hm List.not_mem_nil⟩
    | some data =>
      have hoffset := h data (List.mem_of_find?_eq_some hd)
      have hans := data.answer_answered e ((packet.ntoh e).header.ackNum - 1).toInt peer.pTracker
      rw [handleAck_eq e _ peer.pTracker hd]
      refine ⟨forall_modifyFirst h fun _ _ => ?_, ?_⟩
      · rw [hans.identity.2.1]
        exact hoffset
      · intro p hm _
        obtain ⟨index, rfl⟩ := hans.isData p hm
        rw [dataPacket_chunk, hoffset]
  | invalid type hn => exact ⟨h, fun p hm => absurd hm List.not_mem_nil⟩

end Serving

section Answers

variable {e : Endian} {config : Config}

theorem readLines_some {ls : List ChunkLine} {data result : List Byte}
    (h : readLines ls data = some result) : ∀ l ∈ ls, l.token.length ≤ 40 := by
  induction ls generalizing data with
  | nil => simp
  | cons l ls ih =>
    rw [readLines] at h
    split at h
    · cases h
    · exact List.forall_mem_cons.mpr ⟨by omega, ih h⟩

theorem handleWhohas_lists {packet p : DataPacket} (hp : p ∈ handleWhohas e config packet)
    {hash : List Byte} (hhash : hash ∈ hashes p) :
    ∃ ls, config.hasChunkFile = some ls ∧ ∃ l ∈ ls, l.hash = hash := by
  unfold handleWhohas at hp
  cases hread : readChunkfile config.hasChunkFile with
  | none => simp [hread] at hp
  | some localHas =>
    obtain ⟨ls, hls, hlines⟩ := Option.bind_eq_some_iff.mp hread
    have hall := readLines_some hlines
    rw [readLines_eq ls [] hall, List.nil_append, Option.some.injEq] at hlines
    rw [hread] at hp
    dsimp only at hp
    split at hp
    · cases hp
    · rename_i hne
      generalize hf : List.filter _ _ = found at hp hne
      have hmem : ∀ h ∈ found, h ∈ hashes packet ∧ findInLocalHas h (localHas ++ [0]) = 1 := by
        intro h hm
        rw [← hf] at hm
        obtain ⟨hin, hfound⟩ := List.mem_filter.mp hm
        exact ⟨hin, of_decide_eq_true hfound⟩
      have hsize : ∀ h ∈ found, h.length = 20 := by
        intro h hm
        obtain ⟨i, _, rfl⟩ := List.mem_map.mp (hmem h hm).1
        exact hashAt_length packet i
      have hlength : found.length ≤ 127 := by
        rw [← hf]
        exact (List.length_filter_le _ _).trans (by simpa using hashCount_le packet)
      have hcarries := carries_initPacket e (Or.inr rfl) hsize hne hlength
      rw [List.mem_singleton.mp hp, hcarries.hashes_eq] at hhash
      have hfound := (hmem hash hhash).2
      rw [← hlines, findInLocalHas_iff _ (by simp) (hsize hash hhash)] at hfound
      obtain ⟨l, hl, heq⟩ := List.mem_map.mp (List.takeWhile_subset _ hfound)
      exact ⟨ls, hls, l, hl, heq⟩

end Answers

section Steps

variable {net : Net ι} {offer : ι → Option Int} {j : ι} {node : Node R} {m : Message ι} {w : Draw}

theorem handleIhave_gets {e : Endian} {config : Config} {now sockfd : Int} {packet : DataPacket}
    (peer : Peer R) : ∀ p ∈ (handleIhave e config now sockfd packet peer).2,
      ∃ hash ∈ hashes packet, getOffSetFromMasterChunkfile hash config ≠ -1 ∧
        p = initPacket e 2 (some hash) 20 := by
  apply handleIhave_hashes (I := fun st => ∀ p ∈ st.2, ∃ hash ∈ hashes packet,
    getOffSetFromMasterChunkfile hash config ≠ -1 ∧ p = initPacket e 2 (some hash) 20)
  · intro _ _ i _ _ _ hi hoffset _ hst
    exact List.forall_mem_cons.mpr
      ⟨⟨_, List.mem_map_of_mem (List.mem_range.mpr hi), hoffset, rfl⟩, hst⟩
  · exact fun _ hp => absurd hp List.not_mem_nil

variable [Rate R]

theorem about_other (h1 : m.packet.header.packetType ≠ 1) (h2 : m.packet.header.packetType ≠ 2)
    (hdata : m.packet.header.packetType = 3 → m.packet.chunk = offer m.source) :
    About net offer m := ⟨fun h => absurd h h1, fun h => absurd h h2, hdata⟩

theorem responses_about (hone : Single net offer)
    (htransfers : ∀ data ∈ node.peer.list, offer j = some data.offset) (hm : About net offer m)
    (ha : m.target = net.addr m.source j) :
    (∀ data ∈ (handlePacket (net.endian j) (net.config j) w.now w.stray
        (m.packet.ntoh (net.endian j)) (net.identity m.source) node.peer).1.list,
        offer j = some data.offset) ∧
      ∀ p ∈ (handlePacket (net.endian j) (net.config j) w.now w.stray
        (m.packet.ntoh (net.endian j)) (net.identity m.source) node.peer).2,
        About net offer ⟨j, net.addr j m.source, p⟩ := by
  have hget : ((m.packet.ntoh (net.endian j)).ntoh (net.endian j)).header.packetType = 2 →
      offer j = some (getOffSetFromMasterChunkfile
        (((m.packet.ntoh (net.endian j)).ntoh (net.endian j)).data.take 20) (net.config j)) := by
    rw [ntoh_ntoh]
    exact fun h2 => hm.get h2 j ha
  obtain ⟨hlist, hserves⟩ := handlePacket_serves w.now w.stray (net.identity m.source) htransfers
    hget
  refine ⟨hlist, ?_⟩
  have hp := handlePacket_handled (net.endian j) (net.config j) w.now w.stray
    (m.packet.ntoh (net.endian j)) (net.identity m.source) node.peer
  have hreply := handlePacket_replyType (net.endian j) (net.config j) w.now w.stray
    (m.packet.ntoh (net.endian j)) (net.identity m.source) node.peer
  rw [ntoh_packetType] at hreply
  rw [ntoh_ntoh] at hp
  have hihave := hm.ihave
  generalize handlePacket (net.endian j) (net.config j) w.now w.stray
    (m.packet.ntoh (net.endian j)) (net.identity m.source) node.peer = handled at hp hreply hserves
  generalize m.packet.header.packetType = type at hp hreply hihave
  intro p hin
  have htype : p.header.packetType = replyType type := hreply p hin
  have hdata : p.header.packetType = 3 → p.chunk = offer j := hserves p hin
  cases hp with
  | whohas =>
    refine ⟨fun _ hash hhash => ?_, fun h2 => absurd (htype.symm.trans h2) (by decide), hdata⟩
    obtain ⟨ls, hls, l, hl, rfl⟩ := handleWhohas_lists hin hhash
    exact hone j ls hls l hl
  | ihave =>
    refine ⟨fun h1 => absurd (htype.symm.trans h1) (by decide), fun _ i hi => ?_, hdata⟩
    obtain ⟨hash, hhash, hoffset, rfl⟩ := handleIhave_gets node.peer p hin
    obtain rfl := net.addr_injective j hi
    dsimp only
    rw [get_hash _ (hashes_length hhash)]
    exact hihave rfl hash hhash hoffset
  | get => exact about_other (htype ▸ by decide) (htype ▸ by decide) hdata
  | data => exact about_other (htype ▸ by decide) (htype ▸ by decide) hdata
  | ack => exact about_other (htype ▸ by decide) (htype ▸ by decide) hdata
  | invalid type hn => exact absurd hin List.not_mem_nil

theorem bound_receive (hone : Single net offer) (h : Bound net offer j node)
    (hm : About net offer m) (ha : m.target = net.addr m.source j) :
    Bound net offer j (net.acts j node (net.arrival j m w)).1 ∧
      ∀ m' ∈ (net.acts j node (net.arrival j m w)).2, About net offer m' := by
  cases hd : delivery (net.endian j) (net.config j) (net.arrival j m w) with
  | none =>
    have hact : act (net.endian j) (net.config j) node.peer (net.arrival j m w) =
        (node.peer, []) := processInboundUdp_none hd node.peer
    dsimp only [Net.acts]
    rw [hact]
    exact ⟨⟨h.transfers, h.tracked, h.buffers⟩, fun _ hn => absurd hn List.not_mem_nil⟩
  | some d =>
    obtain ⟨hlist, habout⟩ := responses_about (w := w) hone h.transfers hm ha
    have hknown := delivery_arrival hd
    refine ⟨⟨?_, ?_, ?_⟩, ?_⟩
    · have hsame : (act (net.endian j) (net.config j) node.peer (net.arrival j m w)).1.list =
          (handlePacket (net.endian j) (net.config j) w.now w.stray
            (m.packet.ntoh (net.endian j)) (net.identity m.source) node.peer).1.list := by
        unfold Net.arrival at hd ⊢
        rw [act, processInboundUdp_some hd, hknown]
      dsimp only [Net.acts]
      rw [hsame]
      exact hlist
    · refine step_tracker (Q := fun t => t.seq ≠ -441 →
        t.packet.header.packetType = 3 ∧ t.packet.chunk = offer j) ?_ _ _ ?_ ?_ _ _ ?_ h.tracked
      · exact fun _ _ _ ht => ht
      · exact fun _ hs => absurd rfl hs
      · exact fun t _ ht => ht
      · intro now stray fromAddr packet d' he hd' p hp h3 _ _ _
        obtain rfl := delivery_arrival hd'
        simp only [Net.arrival, Event.inbound.injEq] at he
        obtain ⟨rfl, rfl, rfl, rfl⟩ := he
        exact ⟨h3, (habout p hp).data h3⟩
    · apply recvList_step (P := fun l => ∀ b ∈ l, ∀ i, b.socket = net.identity i →
        offer i = some b.offset) _ _ _ h.buffers
      · intro d' k l hd' h1 hk hoffset hl
        obtain rfl := delivery_arrival hd'
        apply initRecvBuffer_forall _ _ hl
        intro i hi
        obtain rfl := net.identity_injective hi
        exact hm.ihave h1 _ (List.mem_map_of_mem (List.mem_range.mpr hk)) hoffset
      · exact fun o l hl => releaseBuffer_forall (fun _ hb => hb) o l hl
      · intro d' _ _
        apply recvData_forall _ _ _ _ h.buffers
        intro b _ _ hb i hi
        rw [recv_socket] at hi
        rw [recv_offset]
        exact hb i hi
    · intro m' hm'
      obtain ⟨sent, hs, rfl⟩ := List.mem_map.mp hm'
      obtain ⟨p, hp, haddr, hform, _⟩ := inbound_sent (net.endian j) hd node.peer sent hs
      rw [hknown] at hp
      obtain ⟨hihave, hget, hdata⟩ := habout p hp
      rw [haddr]
      obtain hform | hform := hform
      · rw [hform]
        exact ⟨hihave, hget, hdata⟩
      · rw [hform]
        exact ⟨hihave, hget, hdata⟩

theorem bound_input {x : Input} (h : Bound net offer j node) :
    Bound net offer j (net.acts j node x.event).1 ∧
      ∀ m' ∈ (net.acts j node x.event).2, About net offer m' := by
  have hnone : delivery (net.endian j) (net.config j) x.event = none := by
    cases x <;> rfl
  refine ⟨⟨?_, ?_, ?_⟩, ?_⟩
  · cases x with
    | tick now =>
      obtain ⟨htracker, hlist⟩ := regenerateWhohas_sending (net.endian j) (net.config j) now node.peer
      dsimp only [Net.acts, Input.event, act, peerTick]
      rw [htracker, hlist]
      apply retransmit_list (P := fun l => ∀ data ∈ l, offer j = some data.offset) _ _ _ _ _
        h.transfers
      intro socket l hl
      exact forall_modifyFirst hl fun data hd => hl data (List.mem_of_find?_eq_some hd)
    | request now chunkfile outputfile =>
      dsimp only [Net.acts, Input.event, act]
      rw [(generateWhohas_sending _ _ now chunkfile outputfile node.peer).2]
      exact h.transfers
  · refine step_tracker (Q := fun t => t.seq ≠ -441 →
      t.packet.header.packetType = 3 ∧ t.packet.chunk = offer j) ?_ _ _ ?_ ?_ _ _ ?_ h.tracked
    · exact fun _ _ _ ht => ht
    · exact fun _ hs => absurd rfl hs
    · exact fun t _ ht => ht
    · exact fun _ _ _ _ _ _ hd => by simp [hnone] at hd
  · apply recvList_step (P := fun l => ∀ b ∈ l, ∀ i, b.socket = net.identity i →
      offer i = some b.offset) _ _ _ h.buffers
    · exact fun _ _ _ hd => by simp [hnone] at hd
    · exact fun o l hl => releaseBuffer_forall (fun _ hb => hb) o l hl
    · exact fun _ hd => by simp [hnone] at hd
  · intro m' hm'
    obtain ⟨sent, hs, rfl⟩ := List.mem_map.mp hm'
    have hplain : sent.2.header.packetType = 0 ∨ sent.2.header.packetType = 3 ∧
        sent.2.chunk = offer j := by
      cases x with
      | tick now =>
        obtain h0 | ⟨t, ht, hseq, heq⟩ := tick_sent hs
        · exact Or.inl h0
        · rw [heq]
          exact Or.inr (h.tracked t ht hseq)
      | request now chunkfile outputfile => exact Or.inl (command_sent hs)
    obtain h0 | ⟨h3, hchunk⟩ := hplain
    · exact about_other (h0 ▸ by decide) (h0 ▸ by decide)
        fun h3 => absurd (h0.symm.trans h3) (by decide)
    · exact about_other (h3 ▸ by decide) (h3 ▸ by decide) fun _ => hchunk

/-- A head of the tracker that is made of memory does not look like an ACK. -/
def HeadsQuiet (_ : ι) (_ : Node R) (_ : Message ι) (w : Draw) : Prop := Quiet w.stray.dummy

theorem bound_keeps (hone : Single net offer) : Keeps (net.protocol (R := R)) (Bound net offer)
    (About net offer) HeadsQuiet Readable := by
  refine ⟨?_, ?_, ?_⟩
  · exact fun i => ⟨fun _ hd => absurd hd List.not_mem_nil, fun _ ht => absurd ht List.not_mem_nil,
      fun _ hb => absurd hb List.not_mem_nil⟩
  · exact fun j node m w h hm ha _ => bound_receive hone h hm (of_decide_eq_true ha)
  · exact fun j node x h _ => bound_input h

omit [Rate R] in
/-- A DATA packet is taken for the chunk its sender offers, and was cut from
no other. -/
theorem bound_current (h : Bound net offer j node) (hm : About net offer m)
    (hq : HeadsQuiet j node m w) : Current net j node m w := by
  refine ⟨hq, fun h3 b hb _ => ?_⟩
  have hsocket : b.socket = net.identity m.source := by simpa using List.find?_some hb
  rw [hm.data h3]
  exact h.buffers b (List.mem_of_find?_eq_some hb) m.source hsocket

variable [DecidableEq ι]

theorem single_files (net : Net ι) (hcomplete : net.library.Complete) (offer : ι → Option Int)
    (hone : Single net offer) (moves : List (Move ι Draw Input))
    (h : Along (net.protocol (R := R)).step (net.protocol.Guarded HeadsQuiet Readable)
      net.protocol.start moves) :
    FilesRight net (run (net.protocol (R := R)).step net.protocol.start moves) := by
  have hcurrent : Along (net.protocol (R := R)).step (net.protocol.Guarded (Current net) Readable)
      net.protocol.start moves :=
    (bound_keeps hone).along (fun _ _ _ _ hs hm _ hq => bound_current hs hm hq)
      (fun _ _ _ _ hx => hx) moves h
  exact fun j => (((orderly_keeps net hcomplete).run moves hcurrent).party j).written

theorem pair_single : Single pair (fun i => if i then some 0 else none) := by
  intro i ls hls l hl _
  cases i with
  | false => cases hls
  | true =>
    obtain rfl := Option.some.inj hls
    obtain rfl := List.mem_singleton.mp hl
    decide +kernel

end Steps

end P2PCC.Offers

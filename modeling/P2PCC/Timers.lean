import P2PCC.Tracking
import P2PCC.Window

namespace P2PCC.Timers

open P2PCC.Lib.ByteOrder P2PCC.Lib.Runs P2PCC.Packet P2PCC.ChunkFile P2PCC.Tracker P2PCC.Sender
open P2PCC.Receiver P2PCC.HandlePacket P2PCC.Peer P2PCC.Receiving P2PCC.Tracking P2PCC.Window

variable {R : Type}

/-- A process together with the sequence numbers of the DATA packets it has
sent to each peer since the last GET of that peer. -/
structure Serving (R : Type) where
  peer : Peer R
  sent : List (Int × Int)

/-- The sequence numbers of the DATA packets that go out. -/
def sentSeqs (e : Endian) (out : List (SockAddr × DataPacket)) : List Int :=
  (out.filter (fun m => m.2.header.packetType = 3)).map (fun m => (m.2.ntoh e).seq)

/-- Every DATA packet of a current transfer that is UNACKED has an entry. -/
def Timed (s : Serving R) : Prop :=
  ∀ sock k, (sock, k) ∈ s.sent → 1 ≤ k → k ≤ 512 → ∀ data,
    getDataBySocket sock s.peer.list = some data → data.state (k - 1) = .unacked →
    ∃ t ∈ s.peer.pTracker, t.sock = sock ∧ t.seq = k

/-- A sequence number that no entry of another peer has, or for which the
peer has an entry already. -/
def Untaken (pTracker : List PacketTracker) (sock k : Int) : Prop :=
  (∃ t ∈ pTracker, t.sock = sock ∧ t.seq = k) ∨ ∀ t ∈ pTracker, t.seq = k → t.sock = sock

theorem timeless_key (sock k : Int) : Timeless (fun t => t.sock = sock ∧ t.seq = k) :=
  fun _ _ _ h => h

theorem retransmit_key [Rate R] (e : Endian) (now sock k : Int) (pTracker : List PacketTracker)
    (list : List (Data R)) (h : ∃ t ∈ pTracker, t.sock = sock ∧ t.seq = k) :
    ∃ t ∈ (retransmit e now pTracker list).2.1, t.sock = sock ∧ t.seq = k :=
  retransmit_keeps (timeless_key sock k) e (fun _ _ ht => ht) now pTracker list h

theorem processPacketLoss_get [Rate R] (socket other : Int) (list : List (Data R)) {data : Data R}
    (h : getDataBySocket other (processPacketLoss socket list) = some data) :
    ∃ before, getDataBySocket other list = some before ∧ data.Agree before := by
  rw [getDataBySocket_processPacketLoss] at h
  split at h
  · obtain ⟨before, hb, rfl⟩ := Option.map_eq_some_iff.mp h
    exact ⟨before, hb, packetLoss_agree before⟩
  · exact ⟨data, h, .refl data⟩

variable [Rate R]

theorem retransmit_get (e : Endian) (now other : Int) (pTracker : List PacketTracker)
    (list : List (Data R)) {data : Data R}
    (h : getDataBySocket other (retransmit e now pTracker list).1 = some data) :
    ∃ before, getDataBySocket other list = some before ∧ data.Agree before := by
  refine retransmit_list (P := fun l => ∀ d, getDataBySocket other l = some d →
    ∃ before, getDataBySocket other list = some before ∧ d.Agree before) ?_ e now pTracker list
    ?_ data h
  · intro socket l hl d hd
    obtain ⟨mid, hm, hdm⟩ := processPacketLoss_get socket other l hd
    obtain ⟨before, hb, hmb⟩ := hl mid hm
    exact ⟨before, hb, hdm.trans hmb⟩
  · exact fun d hd => ⟨d, hd, .refl d⟩

def serve (e : Endian) (config : Config) (s : Serving R) (event : Event) : Serving R :=
  { peer := step e config s.peer event
    sent :=
      match delivery e config event with
      | none => s.sent
      | some d =>
        (if d.packet.header.packetType = 2 then s.sent.filter (fun m => m.1 ≠ d.sockfd)
          else s.sent) ++ (sentSeqs e (act e config s.peer event).2).map (fun k => (d.sockfd, k)) }

/-- No packet of a new transfer, and none that an ACK makes the sender emit,
has a sequence number that is on the tracker for another peer. -/
structure OwnTimers (e : Endian) (config : Config) (s : Serving R) (event : Event) : Prop where
  get : ∀ d, delivery e config event = some d → d.packet.header.packetType = 2 →
    Untaken s.peer.pTracker d.sockfd 1
  ack : ∀ d, delivery e config event = some d → d.packet.header.packetType = 4 → ∀ data,
    getDataBySocket d.sockfd s.peer.list = some data → ∀ k, 1 ≤ k → k ≤ 512 →
    data.state (k - 1) ≠ .acked → Sends data (d.packet.header.ackNum - 1).toInt k →
    Untaken s.peer.pTracker d.sockfd k

/-- No packet that can still be sent loses its timer, UNACKED or not, and
nothing behind a window has been sent. -/
structure Sound (s : Serving R) : Prop where
  timed : ∀ sock k, (sock, k) ∈ s.sent → 1 ≤ k → k ≤ 512 → ∀ data,
    getDataBySocket sock s.peer.list = some data → data.state (k - 1) ≠ .acked →
    ∃ t ∈ s.peer.pTracker, t.sock = sock ∧ t.seq = k
  unsent : ∀ sock data, getDataBySocket sock s.peer.list = some data → Unsent data

omit [Rate R] in
theorem Sound.toTimed {s : Serving R} (h : Sound s) : Timed s :=
  fun sock k hm hl hu data hd hs => h.timed sock k hm hl hu data hd (by rw [hs]; decide)

theorem mem_sentSeqs {e : Endian} {out : List (SockAddr × DataPacket)} {k : Int} :
    k ∈ sentSeqs e out ↔
      ∃ m ∈ out, m.2.header.packetType = 3 ∧ (m.2.ntoh e).seq = k := by
  simp only [sentSeqs, List.mem_map, List.mem_filter, decide_eq_true_eq, and_assoc]

theorem sendFrom_sentSeqs (e : Endian) (now : Int) (dummy : PacketTracker) (sock : Int)
    (fromAddr : SockAddr) (packets : List DataPacket) (pTracker : List PacketTracker) {k : Int}
    (hk : k ∈ sentSeqs e (sendFrom e now dummy sock fromAddr (pTracker, []) packets).2) :
    ∃ p ∈ packets, p.header.packetType = 3 ∧ p.seq = k := by
  obtain ⟨m, hm, ht, hseq⟩ := mem_sentSeqs.mp hk
  obtain hm | ⟨p, hp, _, hform, hdata⟩ := sendFrom_sent e now dummy sock fromAddr
    (H := fun _ => True) (Q := fun _ _ => True) (fun _ _ _ _ => trivial)
    (fun _ _ _ _ _ => trivial) trivial packets (fun _ _ _ _ _ => ⟨trivial, trivial⟩)
    (fun _ _ _ _ _ _ => trivial) (pTracker, []) (fun _ _ => trivial) m hm
  · simp at hm
  · have hp3 : p.header.packetType = 3 := (convert_or_packetType hform).symm.trans ht
    refine ⟨p, hp, hp3, ?_⟩
    rwa [(hdata hp3).1, DataPacket.seq, ntoh_convert_seqNum] at hseq

theorem sendFrom_timed (e : Endian) (now : Int) (dummy : PacketTracker) (sock : Int)
    (fromAddr : SockAddr) (packets : List DataPacket) (pTracker : List PacketTracker) {k : Int}
    (hk : 1 ≤ k) (hfree : Untaken pTracker sock k)
    (hsent : k ∈ sentSeqs e (sendFrom e now dummy sock fromAddr (pTracker, []) packets).2) :
    ∃ t ∈ (sendFrom e now dummy sock fromAddr (pTracker, []) packets).1,
      t.sock = sock ∧ t.seq = k := by
  obtain hentry | hown := hfree
  · exact sendFrom_keeps e now dummy sock fromAddr (timeless_key sock k) packets _ hentry
  · obtain ⟨m, hm, ht, hseq⟩ := mem_sentSeqs.mp hsent
    obtain hm | ⟨p, _, _, hform, hdata⟩ := sendFrom_sent e now dummy sock fromAddr
      (H := fun t => t.seq = k → t.sock = sock) (Q := fun p t => p.seq = k → t.sock = sock ∧ t.seq = k)
      (fun _ _ _ h => h) (fun _ _ _ _ h => h) (fun h => by simp only [dummyHead] at h; omega) packets
      (fun p _ _ _ _ => ⟨fun _ => rfl, fun h => ⟨rfl, h⟩⟩)
      (fun p _ _ t h hs hp => ⟨h (hs.trans hp), hs.trans hp⟩) (pTracker, []) hown m hm
    · simp at hm
    · have hp3 : p.header.packetType = 3 := (convert_or_packetType hform).symm.trans ht
      obtain ⟨hmp, t, htm, hq⟩ := hdata hp3
      refine ⟨t, htm, hq ?_⟩
      rwa [hmp, DataPacket.seq, ntoh_convert_seqNum] at hseq

/-- The state after a packet of a known peer, with the log of what has been
sent to it. -/
def delivered (e : Endian) (d : Delivery) (fromAddr : SockAddr)
    (handled : Peer R × List DataPacket) (sent : List (Int × Int)) : Serving R :=
  let responses := sendResponses e d.now d.stray.dummy d.sockfd fromAddr handled.2
    handled.1.pTracker
  { peer := { handled.1 with pTracker := responses.1 }
    sent := (if d.packet.header.packetType = 2 then sent.filter (fun m => m.1 ≠ d.sockfd)
      else sent) ++ (sentSeqs e responses.2).map (fun k => (d.sockfd, k)) }

omit [Rate R] in
theorem sound_delivered {e : Endian} {s : Serving R} (hs : Sound s) (d : Delivery)
    (fromAddr : SockAddr) (handled : Peer R × List DataPacket)
    (hlist : ∀ sock, sock ≠ d.sockfd →
      getDataBySocket sock handled.1.list = getDataBySocket sock s.peer.list)
    (hother : ∀ t ∈ s.peer.pTracker, t.sock ≠ d.sockfd → t ∈ handled.1.pTracker)
    (hunsent : ∀ data, getDataBySocket d.sockfd handled.1.list = some data → Unsent data)
    (hold : d.packet.header.packetType ≠ 2 → ∀ k, (d.sockfd, k) ∈ s.sent → 1 ≤ k → k ≤ 512 →
      ∀ data, getDataBySocket d.sockfd handled.1.list = some data →
      data.state (k - 1) ≠ .acked → ∃ t ∈ handled.1.pTracker, t.sock = d.sockfd ∧ t.seq = k)
    (hnew : ∀ p ∈ handled.2, p.header.packetType = 3 → 1 ≤ p.seq → p.seq ≤ 512 →
      ∀ data, getDataBySocket d.sockfd handled.1.list = some data →
      data.state (p.seq - 1) ≠ .acked → Untaken handled.1.pTracker d.sockfd p.seq) :
    Sound (delivered e d fromAddr handled s.sent) := by
  have hkeep : ∀ sock k, (∃ t ∈ handled.1.pTracker, t.sock = sock ∧ t.seq = k) →
      ∃ t ∈ (delivered e d fromAddr handled s.sent).peer.pTracker, t.sock = sock ∧ t.seq = k :=
    fun sock k h => sendFrom_keeps e d.now d.stray.dummy d.sockfd fromAddr (timeless_key sock k)
      handled.2.reverse (handled.1.pTracker, []) h
  have hlogged : ∀ sock k, (sock, k) ∈ (delivered e d fromAddr handled s.sent).sent →
      ((sock, k) ∈ s.sent ∧ (sock = d.sockfd → d.packet.header.packetType ≠ 2)) ∨
      (sock = d.sockfd ∧ k ∈ sentSeqs e (sendFrom e d.now d.stray.dummy d.sockfd fromAddr
        (handled.1.pTracker, []) handled.2.reverse).2) := by
    intro sock k hm
    obtain hm | hm := List.mem_append.mp hm
    · left
      split at hm
      · obtain ⟨hm, hne⟩ := List.mem_filter.mp hm
        exact ⟨hm, fun he => absurd he (by simpa using hne)⟩
      · rename_i ht
        exact ⟨hm, fun _ => ht⟩
    · right
      obtain ⟨j, hj, heq⟩ := List.mem_map.mp hm
      obtain ⟨rfl, rfl⟩ := Prod.mk.inj heq
      exact ⟨rfl, hj⟩
  refine ⟨?_, ?_⟩
  · intro sock k hm hl hu data hd hstate
    obtain ⟨hm, ht⟩ | ⟨rfl, hk⟩ := hlogged sock k hm
    · by_cases ho : sock = d.sockfd
      · subst ho
        exact hkeep _ k (hold (ht rfl) k hm hl hu data hd hstate)
      · obtain ⟨t, htm, hts, htk⟩ := hs.timed sock k hm hl hu data ((hlist sock ho) ▸ hd) hstate
        exact hkeep sock k ⟨t, hother t htm (by rwa [hts]), hts, htk⟩
    · obtain ⟨p, hp, hp3, rfl⟩ := sendFrom_sentSeqs e d.now d.stray.dummy d.sockfd fromAddr _ _ hk
      exact sendFrom_timed e d.now d.stray.dummy d.sockfd fromAddr _ _ hl
        (hnew p (List.mem_reverse.mp hp) hp3 hl hu data hd hstate) hk
  · intro sock data hd
    by_cases ho : sock = d.sockfd
    · subst ho
      exact hunsent data hd
    · exact hs.unsent sock data ((hlist sock ho) ▸ hd)

omit [Rate R] in
theorem sound_idle {e : Endian} {s : Serving R} (hs : Sound s) (d : Delivery) (fromAddr : SockAddr)
    (handled : Peer R × List DataPacket) (hlist : handled.1.list = s.peer.list)
    (htracker : handled.1.pTracker = s.peer.pTracker)
    (hreply : ∀ p ∈ handled.2, p.header.packetType ≠ 3) :
    Sound (delivered e d fromAddr handled s.sent) := by
  refine sound_delivered hs d fromAddr handled ?_ ?_ ?_ ?_ ?_
  · exact fun sock _ => by rw [hlist]
  · exact fun t ht _ => by rwa [htracker]
  · exact fun data hd => hs.unsent d.sockfd data (hlist ▸ hd)
  · intro _ k hm hl hu data hd hstate
    rw [htracker]
    exact hs.timed d.sockfd k hm hl hu data (hlist ▸ hd) hstate
  · exact fun p hp h3 => absurd h3 (hreply p hp)

theorem sound_get {e : Endian} {config : Config} {s : Serving R} (hs : Sound s) (d : Delivery)
    (fromAddr : SockAddr) (htype : d.packet.header.packetType = 2)
    (hget : Untaken s.peer.pTracker d.sockfd 1) :
    Sound (delivered e d fromAddr (handleGet e config d.stray d.sockfd d.packet s.peer) s.sent) := by
  have hsent := sendData_initDatalist e d.stray.data d.sockfd
    (getOffSetFromMasterChunkfile (d.packet.data.take 20) config)
    (getDataFromHash (d.packet.data.take 20) config d.stray.index d.stray.heap) s.peer.list
  have hnew : Unsent (newElement d.stray.data d.sockfd
      (getOffSetFromMasterChunkfile (d.packet.data.take 20) config)
      (getDataFromHash (d.packet.data.take 20) config d.stray.index d.stray.heap) : Data R) :=
    unsent_newElement _ _ _ _
  generalize hdata : (newElement d.stray.data d.sockfd
    (getOffSetFromMasterChunkfile (d.packet.data.take 20) config)
    (getDataFromHash (d.packet.data.take 20) config d.stray.index d.stray.heap) : Data R) = data
    at hsent hnew
  have hsock : data.socket = d.sockfd := by rw [← hdata]; rfl
  have hend : data.windowEnd = -1 := by rw [← hdata]; rfl
  have hseq : (dataPacket e data 0).seq = 1 := dataPacket_seq e data 0 (by omega) (by omega)
  refine sound_delivered hs d fromAddr _ ?_ ?_ ?_ ?_ ?_
  · intro sock ho
    simp only [handleGet, hsent]
    exact List.find?_cons_of_neg (by simpa [Data.sendMore, hsock] using ho.symm)
  · exact fun t ht _ => ht
  · intro found hfound
    simp only [handleGet, hsent] at hfound
    have hmore : (data.sendMore 1).socket = d.sockfd := hsock
    rw [getDataBySocket_head hmore] at hfound
    obtain rfl := Option.some.inj hfound
    exact hnew.sendMore 1 (by omega)
  · exact fun h => absurd htype h
  · intro p hp _ _ _ _ _ _
    simp only [handleGet, hsent, List.mem_singleton] at hp
    rw [hp, hseq]
    exact hget

theorem sound_ack {e : Endian} {s : Serving R} (hs : Sound s) (d : Delivery)
    (fromAddr : SockAddr)
    (hack : ∀ data, getDataBySocket d.sockfd s.peer.list = some data → ∀ k, 1 ≤ k → k ≤ 512 →
      data.state (k - 1) ≠ .acked → Sends data (d.packet.header.ackNum - 1).toInt k →
      Untaken s.peer.pTracker d.sockfd k) :
    Sound (delivered e d fromAddr (handleAckPacket e d.sockfd d.packet s.peer) s.sent) := by
  have hlow : -2147483648 ≤ (d.packet.header.ackNum - 1).toInt := BitVec.le_toInt _
  cases hd : getDataBySocket d.sockfd s.peer.list with
  | none => refine sound_idle hs d fromAddr _ ?_ ?_ ?_ <;> simp [handleAckPacket, handleAck, hd]
  | some data =>
    have hsock := getDataBySocket_socket hd
    have hw := hs.unsent d.sockfd data hd
    have heq := handleAck_eq e (d.packet.header.ackNum - 1).toInt s.peer.pTracker hd
    have hans := data.answer_answered e (d.packet.header.ackNum - 1).toInt s.peer.pTracker
    generalize data.answer e (d.packet.header.ackNum - 1).toInt s.peer.pTracker = answer
      at heq hans
    obtain ⟨after, tracker, packets⟩ := answer
    dsimp only at heq hans
    have hsock' : after.socket = d.sockfd := hans.identity.1.trans hsock
    have hafter : getDataBySocket d.sockfd (setData d.sockfd after s.peer.list) = some after :=
      getDataBySocket_setData hd hsock'
    have hlist : ∀ found, getDataBySocket d.sockfd
        (handleAckPacket e d.sockfd d.packet s.peer).1.list = some found → found = after := by
      intro found hfound
      simp only [handleAckPacket, heq, hafter] at hfound
      exact (Option.some.inj hfound).symm
    -- an entry of this peer goes only when its packet is ACKED
    have hentry : ∀ k, k ≤ 512 → after.state (k - 1) ≠ .acked →
        (∃ t ∈ s.peer.pTracker, t.sock = d.sockfd ∧ t.seq = k) →
        ∃ t ∈ tracker, t.sock = d.sockfd ∧ t.seq = k := by
      rintro k hu hstate ⟨t, ht, hts, rfl⟩
      exact ⟨t, answered_keeps hw hans ht (by omega) fun _ => hstate, hts, rfl⟩
    refine sound_delivered hs d fromAddr _ ?_ ?_ ?_ ?_ ?_
    · intro sock ho
      simp only [handleAckPacket, heq]
      exact getDataBySocket_setData_other s.peer.list hsock' ho
    · intro t ht ho
      simp only [handleAckPacket, heq]
      exact hans.keepsOther ht (by rwa [hsock])
    · intro found hfound
      rw [hlist found hfound]
      exact answered_unsent hw hans
    · intro _ k hm hl hu found hfound hstate
      rw [hlist found hfound] at hstate
      simp only [handleAckPacket, heq]
      apply hentry k hu hstate
      apply hs.timed d.sockfd k hm hl hu data hd
      exact fun hacked => hstate (answered_acked hw hans (by omega) hacked)
    · intro p hp _ hl hu found hfound hstate
      rw [hlist found hfound] at hstate
      simp only [handleAckPacket, heq] at hp ⊢
      obtain ⟨k, hk, hseq, _⟩ := answered_sends hw hlow hans p hp
      rw [hseq] at hl hu hstate ⊢
      have hbefore : data.state (k - 1) ≠ .acked :=
        fun hacked => hstate (answered_acked hw hans (by omega) hacked)
      obtain hown | hfree := hack data hd k hl hu hbefore hk
      · exact Or.inl (hentry k hu hstate hown)
      · exact Or.inr fun t ht => hfree t (hans.subset t ht)

theorem sound_handled {e : Endian} {config : Config} {s : Serving R} (hs : Sound s) {d : Delivery}
    (fromAddr : SockAddr) {packet : DataPacket} (hp : d.packet = packet.ntoh e)
    (hget : d.packet.header.packetType = 2 → Untaken s.peer.pTracker d.sockfd 1)
    (hack : d.packet.header.packetType = 4 → ∀ data,
      getDataBySocket d.sockfd s.peer.list = some data → ∀ k, 1 ≤ k → k ≤ 512 →
      data.state (k - 1) ≠ .acked → Sends data (d.packet.header.ackNum - 1).toInt k →
      Untaken s.peer.pTracker d.sockfd k) :
    Sound (delivered e d fromAddr
      (handlePacket e config d.now d.stray packet d.sockfd s.peer) s.sent) := by
  have h := handlePacket_handled e config d.now d.stray packet d.sockfd s.peer
  have hreply := handlePacket_replyType e config d.now d.stray packet d.sockfd s.peer
  rw [← ntoh_packetType e packet] at hreply
  rw [← hp] at h hreply
  generalize handlePacket e config d.now d.stray packet d.sockfd s.peer = handled at h hreply ⊢
  generalize htype : d.packet.header.packetType = type at h hget hack hreply
  cases h with
  | whohas =>
    refine sound_idle hs d fromAddr _ rfl rfl ?_
    exact fun p hmem h3 => absurd (h3.symm.trans (hreply p hmem)) (by decide)
  | ihave =>
    obtain ⟨htracker, hlist, hgets⟩ := handleIhave_sending e config d.now d.sockfd d.packet s.peer
    refine sound_idle hs d fromAddr _ hlist htracker ?_
    exact fun p hmem h3 => absurd (h3.symm.trans (hgets p hmem)) (by decide)
  | get => exact sound_get hs d fromAddr htype (hget rfl)
  | data =>
    refine sound_idle hs d fromAddr _ rfl rfl ?_
    exact fun p hmem h3 => absurd (h3.symm.trans (hreply p hmem)) (by decide)
  | ack => exact sound_ack hs d fromAddr (hack rfl)
  | invalid type h => exact sound_idle hs d fromAddr _ rfl rfl (by simp)

theorem sound_kept {e : Endian} {config : Config} {s : Serving R} (hs : Sound s) {event : Event}
    (hd : delivery e config event = none) : Sound (serve e config s event) := by
  have hserve : serve e config s event = ⟨step e config s.peer event, s.sent⟩ := by
    rw [serve, hd]
  rw [hserve]
  cases event with
  | command now chunkfile outputfile =>
    obtain ⟨htracker, hlist⟩ := generateWhohas_sending e config now chunkfile outputfile s.peer
    rw [step, act]
    refine ⟨?_, ?_⟩
    · rw [htracker, hlist]
      exact hs.timed
    · rw [hlist]
      exact hs.unsent
  | tick now =>
    obtain ⟨htracker, hlist⟩ := regenerateWhohas_sending e config now s.peer
    rw [step, act, peerTick]
    dsimp only
    rw [htracker, hlist]
    refine ⟨?_, ?_⟩
    · intro sock k hm hl hu data hd hstate
      obtain ⟨before, hb, hagree⟩ := retransmit_get e now sock _ _ hd
      rw [hagree.state] at hstate
      exact retransmit_key e now sock k _ _ (hs.timed sock k hm hl hu before hb hstate)
    · intro sock data hd
      obtain ⟨before, hb, hagree⟩ := retransmit_get e now sock _ _ hd
      exact (hs.unsent sock before hb).agree hagree
  | inbound now stray fromAddr packet =>
    rw [step, act, processInboundUdp_none hd]
    exact hs

theorem sound_step (e : Endian) (config : Config) (s : Serving R) (event : Event) (hs : Sound s)
    (hg : OwnTimers e config s event) : Sound (serve e config s event) := by
  cases hd : delivery e config event with
  | none => exact sound_kept hs hd
  | some d =>
    obtain ⟨fromAddr, packet, _, rfl, hp, _⟩ := delivery_eq_some hd
    have hserve : serve e config s (.inbound d.now d.stray fromAddr packet) = delivered e d fromAddr
        (handlePacket e config d.now d.stray packet d.sockfd s.peer) s.sent := by
      rw [serve, hd, step, act, processInboundUdp_some hd]
      rfl
    rw [hserve]
    exact sound_handled hs fromAddr hp (hg.get d hd) (hg.ack d hd)

def Serving.init : Serving R := ⟨Peer.init, []⟩

/-- In every run in which no packet is given the sequence number of another
peer's timer, every DATA packet that waits for its ACK has a timer. -/
theorem timed_along (e : Endian) (config : Config) (events : List Event)
    (hg : Along (serve e config) (OwnTimers e config) (Serving.init : Serving R) events) :
    Throughout (serve e config) Timed (Serving.init : Serving R) events := by
  have hinit : Sound (Serving.init : Serving R) :=
    ⟨fun sock k hm => absurd hm List.not_mem_nil, fun sock data hd => by cases hd⟩
  exact Throughout.mono (fun _ => Sound.toTimed) _ _
    (throughout_of_invariant (sound_step e config) _ events hinit hg)

def fromPeer (id : BitVec 32) (packet : DataPacket) : Event :=
  .inbound 0 cleared ⟨2, id.setWidth 16, id⟩ packet

def getPacket : DataPacket := initPacket .little 2 (some (chunkHash 48)) 20

theorem delivery_fromPeer {packet : DataPacket} {d : Delivery}
    (hd : delivery .little network (fromPeer 2 packet) = some d) :
    d.sockfd = 2 ∧ d.packet.header.packetType = packet.header.packetType := by
  have h : delivery .little network (fromPeer 2 packet) =
    some ⟨0, cleared, 2, packet.ntoh .little⟩ := rfl
  obtain rfl := Option.some.inj (h.symm.trans hd)
  exact ⟨rfl, rfl⟩

/-- One peer asks for a chunk and acknowledges its first packet. -/
theorem timed_along_alone : Throughout (serve .little network) Timed (Serving.init : Serving ℚ)
    [fromPeer 2 getPacket, fromPeer 2 ((ackPacket .little 1).convert .little)] := by
  apply timed_along
  have hown : ∀ t ∈ (serve .little network (Serving.init : Serving ℚ)
      (fromPeer 2 getPacket)).peer.pTracker, 1 ≤ t.seq → t.sock = 2 := by
    decide +kernel
  refine ⟨⟨?_, ?_⟩, ⟨?_, ?_⟩, trivial⟩
  · exact fun d _ _ => Or.inr fun t ht => absurd ht List.not_mem_nil
  · intro d hd ht
    rw [(delivery_fromPeer hd).2] at ht
    exact absurd ht (by decide)
  · intro d hd ht
    rw [(delivery_fromPeer hd).2] at ht
    exact absurd ht (by decide)
  · intro d hd _ data _ k hl _ _ _
    rw [(delivery_fromPeer hd).1]
    exact Or.inr fun t ht hk => hown t ht (by omega)

/-- Packet 1 of the second transfer goes out while the timer of packet 1 of
the first is on the tracker, and gets none of its own. -/
theorem second_get_untimed : ¬Throughout (serve .little network) Timed (Serving.init : Serving ℚ)
    [fromPeer 2 getPacket, fromPeer 3 getPacket] := by
  intro h
  have hs := h.2.2
  generalize hfinal : serve .little network (serve .little network (Serving.init : Serving ℚ)
    (fromPeer 2 getPacket)) (fromPeer 3 getPacket) = s at hs
  have hstate : (getDataBySocket 3 s.peer.list).map (fun data => data.state 0) =
      some .unacked := by
    rw [← hfinal]
    decide +kernel
  obtain ⟨data, hd, hunacked⟩ := Option.map_eq_some_iff.mp hstate
  have hsent : ((3, 1) : Int × Int) ∈ s.sent := by
    rw [← hfinal]
    decide +kernel
  have hnone : ¬∃ t ∈ s.peer.pTracker, t.sock = 3 ∧ t.seq = 1 := by
    rw [← hfinal]
    decide +kernel
  exact hnone (hs 3 1 hsent (by decide) (by decide) data hd hunacked)

end P2PCC.Timers

import P2PCC.ActiveChunks
import P2PCC.Successive

namespace P2PCC.RoundTrip

open P2PCC.Lib.ByteOrder P2PCC.Lib.Runs P2PCC.Lib.Slots P2PCC.Packet P2PCC.ChunkFile P2PCC.Tracker
open P2PCC.Sender P2PCC.Receiver P2PCC.Manager P2PCC.HandlePacket P2PCC.Peer P2PCC.Receiving
open P2PCC.ActiveChunks P2PCC.Tracking P2PCC.Window P2PCC.TwoPeers P2PCC.Successive

variable {R : Type}

/-- What a receiver reads of a packet is what its sender generated. -/
structure Restored (p received : DataPacket) : Prop where
  packetType : received.header.packetType = p.header.packetType
  seqNum : received.header.seqNum = p.header.seqNum
  ackNum : received.header.ackNum = p.header.ackNum
  headerLen : received.header.headerLen.toNat = 16
  packetLen : received.header.packetLen.toNat = 16 + p.data.length
  data : received.data = p.data

/-- A packet as `handle_packet` returns it: the lengths are in network order,
and the sequence number, in host order, is that of a DATA packet or zero. -/
structure Proper (e : Endian) (p : DataPacket) : Prop where
  headerLen : p.header.headerLen = hton16 e 16
  packetLen : p.header.packetLen = hton16 e (BitVec.ofNat 16 (16 + p.data.length))
  size : p.data.length ≤ 4096
  low : 0 ≤ p.seq
  high : p.seq ≤ 512
  numbered : p.header.packetType = 3 → 1 ≤ p.seq

theorem Proper.restored {e : Endian} {p : DataPacket} (h : Proper e p) :
    Restored p ((p.convert e).ntoh e) := by
  have hsize := h.size
  refine ⟨rfl, ntoh_convert_seqNum e p, ntoh_convert_ackNum e p, ?_, ?_, rfl⟩
  · have hlen : ((p.convert e).ntoh e).header.headerLen = hton16 e p.header.headerLen := rfl
    rw [hlen, h.headerLen, hton16_hton16]
    rfl
  · have hlen : ((p.convert e).ntoh e).header.packetLen = hton16 e p.header.packetLen := rfl
    rw [hlen, h.packetLen, hton16_hton16, BitVec.toNat_ofNat]
    omega

/-- In host order the sequence number of a response is small, in network
order that of a DATA packet is not. -/
theorem Proper.seq_ne {e : Endian} (he : e = .little) {p q : DataPacket} (hp : Proper e p)
    (hq : Proper e q) (h3 : q.header.packetType = 3) :
    (q.convert e).header.seqNum ≠ p.header.seqNum := by
  have hsmall : ∀ x : BitVec 32, 0 ≤ x.toInt → x.toInt ≤ 512 → (x.toNat : Int) = x.toInt := by
    intro x hl hu
    rw [BitVec.toInt_eq_toNat_cond] at hl hu ⊢
    split at hl <;> split <;> omega
  have hpnat := hsmall p.header.seqNum hp.low hp.high
  have hqnat := hsmall q.header.seqNum hq.low hq.high
  have hphigh := hp.high
  have hqhigh := hq.high
  have hqlow := hq.numbered h3
  rw [DataPacket.seq] at hphigh hqhigh hqlow
  subst he
  exact hton32_ne_small q.header.seqNum p.header.seqNum (by omega) (by omega) (by omega)

section Responses

theorem padding_length (n : Nat) : (padding n).length = 4 := by
  unfold padding
  dsimp only
  split <;> rfl

theorem proper_initPacket (e : Endian) {type : Byte} (h3 : type ≠ 3) (data : List Byte)
    (hsize : data.length ≤ 4000) : Proper e (initPacket e type (some data) data.length) := by
  have hseq : (initPacket e type (some data) data.length).seq = 0 := by
    have hzero : (initPacket e type (some data) data.length).header.seqNum = hton32 e 0 := rfl
    rw [DataPacket.seq, hzero, hton32_zero]
    rfl
  refine ⟨rfl, ?_, ?_, ?_, ?_, fun h => absurd h h3⟩
  · by_cases ht : type = 0 ∨ type = 1
    · simp only [initPacket, ht, ↓reduceIte, Option.isSome_some, Option.getD_some,
        List.take_length, List.length_append, padding_length]
      congr 2
      omega
    · simp only [initPacket, ht, ↓reduceIte, Option.isSome_some, Option.getD_some,
        List.take_length]
      congr 2
      omega
  · have hlen : (initPacket e type (some data) data.length).data.length ≤ 4 + data.length := by
      simp only [initPacket, Option.getD_some, List.take_length]
      split
      · rw [List.length_append, padding_length]
      · omega
    omega
  · exact hseq.ge
  · rw [hseq]
    decide

theorem proper_ackPacket (e : Endian) (ackNum : Int) : Proper e (ackPacket e ackNum) := by
  have hseq : (ackPacket e ackNum).seq = 0 := by
    have hzero : (ackPacket e ackNum).header.seqNum = hton32 e 0 := rfl
    rw [DataPacket.seq, hzero, hton32_zero]
    rfl
  refine ⟨rfl, rfl, by simp [ackPacket, initPacket], hseq.ge, ?_, fun h => ?_⟩
  · rw [hseq]
    decide
  · rw [ackPacket_packetType] at h
    exact absurd h (by decide)

theorem proper_dataPacket (e : Endian) (data : Data R) {index : Int} (hl : 0 ≤ index)
    (hu : index < 512) : Proper e (dataPacket e data index) := by
  have hseq := dataPacket_seq e data index (by omega) (by omega)
  have hplain := initPacket_plain e (show (3 : Byte) ≠ 0 by decide) (by decide)
    (getContentByIndex data index) 1024
  refine ⟨rfl, ?_, ?_, by omega, by omega, fun _ => by omega⟩
  · rw [dataPacket_data, slice_length]
    exact hplain.1
  · rw [dataPacket_data, slice_length]
    decide

theorem hashCount_le (packet : DataPacket) : hashCount packet ≤ 127 := by
  unfold hashCount
  have := BitVec.toInt_lt (x := packet.data.getD 0 0)
  omega

theorem handleIhave_forall {P : DataPacket → Prop} (e : Endian) (config : Config)
    (now sockfd : Int) (packet : DataPacket) (peer : Peer R)
    (h : ∀ i, P (initPacket e 2 (some (hashAt packet i)) 20)) :
    ∀ p ∈ (handleIhave e config now sockfd packet peer).2, P p := by
  apply handleIhave_rule (I := fun st => ∀ p ∈ st.2, P p)
  · exact fun _ _ i _ _ _ _ _ _ hst => List.forall_mem_cons.mpr ⟨h i, hst⟩
  · simp

variable [Rate R]

/-- The third duplicate of an ACK has no negative number. -/
def AckInRange (e : Endian) (config : Config) (peer : Peer R) (event : Event) : Prop :=
  ∀ d, delivery e config event = some d → d.packet.header.packetType = 4 → ∀ data,
    getDataBySocket d.sockfd peer.list = some data →
    data.prevAck = d.packet.header.ackNum - 1 → 1 ≤ data.countAck →
    -1 ≤ (d.packet.header.ackNum - 1).toInt

omit [Rate R] in
theorem handleWhohas_proper (e : Endian) (config : Config) (packet : DataPacket) :
    ∀ p ∈ handleWhohas e config packet, Proper e p := by
  unfold handleWhohas
  cases readChunkfile config.hasChunkFile with
  | none => simp
  | some localHas =>
    intro p hm
    dsimp only at hm
    split at hm
    · cases hm
    · rw [List.mem_singleton.mp hm]
      apply proper_initPacket e (by decide)
      have hcount := hashCount_le packet
      generalize hf : List.filter _ _ = found
      have hlength : found.length ≤ 127 := by
        rw [← hf]
        exact (List.length_filter_le _ _).trans (by simpa using hcount)
      have hsize : ∀ h ∈ found, h.length = 20 := by
        intro h hm
        rw [← hf] at hm
        obtain ⟨i, _, rfl⟩ := List.mem_map.mp (List.mem_of_mem_filter hm)
        exact hashAt_length packet i
      rw [flatten_length hsize]
      omega

theorem handleAckPacket_proper (e : Endian) {sockfd : Int} {packet : DataPacket} {peer : Peer R}
    (hunsent : ∀ data ∈ peer.list, Unsent data)
    (hrange : ∀ data, getDataBySocket sockfd peer.list = some data →
      data.prevAck = packet.header.ackNum - 1 → 1 ≤ data.countAck →
      -1 ≤ (packet.header.ackNum - 1).toInt) :
    ∀ p ∈ (handleAckPacket e sockfd packet peer).2, Proper e p := by
  dsimp only [handleAckPacket]
  cases hf : getDataBySocket sockfd peer.list with
  | none => simp [handleAck, hf]
  | some data =>
    have hs := hunsent data (List.mem_of_find?_eq_some hf)
    have hlow := hs.low
    rw [handleAck_eq e _ peer.pTracker hf]
    intro p hm
    obtain ⟨k, ⟨hle, hk⟩, _, rfl⟩ := answered_sends hs (BitVec.le_toInt _)
      (data.answer_answered e (packet.header.ackNum - 1).toInt peer.pTracker) p hm
    obtain ⟨hprev, hcount, hlt, rfl⟩ | ⟨_, _, hlt, hle'⟩ := hk
    · rw [BitVec.ofInt_toInt] at hprev
      have hnonneg := hrange data hf hprev hcount
      exact proper_dataPacket e data (by omega) (by omega)
    · exact proper_dataPacket e data (by omega) (by omega)

theorem handlePacket_proper (e : Endian) (config : Config) {peer : Peer R} {event : Event}
    {d : Delivery} {packet : DataPacket} (hd : delivery e config event = some d)
    (hp : d.packet = packet.ntoh e) (hunsent : ∀ data ∈ peer.list, Unsent data)
    (hack : AckInRange e config peer event) :
    ∀ p ∈ (handlePacket e config d.now d.stray packet d.sockfd peer).2, Proper e p := by
  have hh := handlePacket_handled e config d.now d.stray packet d.sockfd peer
  have hrange := hack d hd
  rw [hp] at hrange
  generalize handlePacket e config d.now d.stray packet d.sockfd peer = handled at hh
  generalize (packet.ntoh e).header.packetType = type at hh hrange
  cases hh with
  | whohas => exact handleWhohas_proper e config (packet.ntoh e)
  | ihave =>
    apply handleIhave_forall
    intro i
    have h := proper_initPacket e (show (2 : Byte) ≠ 3 by decide) (hashAt (packet.ntoh e) i)
      (by simp)
    rwa [hashAt_length] at h
  | get =>
    dsimp only [handleGet]
    rw [sendData_initDatalist]
    intro p hm
    rw [List.mem_singleton.mp hm]
    exact proper_dataPacket e _ le_rfl (by decide)
  | data =>
    rw [handleData_reply]
    obtain ⟨hn, _⟩ | ⟨_, _, b, _, _, _, _, hr⟩ :=
      recvData_cases e d.stray.past (packet.ntoh e) d.sockfd peer.recvList
    · simp [hn]
    · rw [hr]
      intro p hm
      rw [List.mem_singleton.mp hm]
      exact proper_ackPacket e _
  | ack => exact handleAckPacket_proper e hunsent (hrange rfl)
  | invalid type h => simp

end Responses

/-- A process with the responses that `handle_packet` has returned, the
addresses they are for, and what its dummy heads may have been made of. -/
structure Wired (R : Type) where
  peer : Peer R
  generated : List (SockAddr × DataPacket)
  heads : List PacketTracker

section Definitions

variable [Rate R] (e : Endian) (config : Config)

/-- The responses to an inbound packet, with its address. -/
def answersTo (peer : Peer R) (event : Event) : List (SockAddr × DataPacket) :=
  match event with
  | .inbound _ _ fromAddr _ =>
    (((responses e config peer event).map Prod.snd).getD []).map (fun p => (fromAddr, p))
  | _ => []

def newHeads : Event → List PacketTracker
  | .inbound _ stray _ _ => [stray.dummy]
  | _ => []

def wire (s : Wired R) (event : Event) : Wired R :=
  { peer := step e config s.peer event
    generated := answersTo e config s.peer event ++ s.generated
    heads := newHeads event ++ s.heads }

def Wired.init : Wired R := { peer := Peer.init, generated := [], heads := [] }

/-- The uninitialised header of a dummy head is not that of a response. -/
def HeadsForeign (s : Wired R) (event : Event) : Prop :=
  ∀ m ∈ answersTo e config s.peer event, ∀ u ∈ newHeads event ++ s.heads, sameHeader u m.2 = false

instance (s : Wired R) (event : Event) : Decidable (HeadsForeign e config s event) :=
  inferInstanceAs (Decidable (∀ m ∈ answersTo e config s.peer event,
    ∀ u ∈ newHeads event ++ s.heads, sameHeader u m.2 = false))

/-- The responses go out once each and in order, and the entries that are due
are sent again; the receiver restores what was generated. -/
def RoundTrips (s : Wired R) (event : Event) : Prop :=
  match event with
  | .inbound _ _ _ _ =>
    List.Forall₂ (fun m sent => sent.1 = m.1 ∧ Restored m.2 (sent.2.ntoh e))
      (answersTo e config s.peer event).reverse (act e config s.peer event).2
  | .tick now =>
    List.Forall₂ (fun t sent => sent.1 = t.fromAddr ∧ ∃ p, (t.fromAddr, p) ∈ s.generated ∧
        p.header.packetType = 3 ∧ p.seq = t.seq ∧ Restored p (sent.2.ntoh e))
      (s.peer.pTracker.filter (due now))
      ((act e config s.peer event).2.filter (fun m => m.2.header.packetType = 3))
  | .command _ _ _ => True

end Definitions

/-- An entry is a dummy head, or holds the bytes of a response. -/
def Entry (e : Endian) (generated : List (SockAddr × DataPacket)) (heads : List PacketTracker)
    (t : PacketTracker) : Prop :=
  (t.seq = -441 ∧ ∃ u ∈ heads, t.packet = u.packet) ∨
    ∃ p, (t.fromAddr, p) ∈ generated ∧ p.header.packetType = 3 ∧ Proper e p ∧ t.seq = p.seq ∧
      t.packet = p.convert e

theorem entry_timeless (e : Endian) (generated : List (SockAddr × DataPacket))
    (heads : List PacketTracker) : Timeless (Entry e generated heads) :=
  fun _ _ _ h => h

theorem Entry.mono {e : Endian} {generated more : List (SockAddr × DataPacket)}
    {heads others : List PacketTracker} {t : PacketTracker} (h : Entry e generated heads t) :
    Entry e (more ++ generated) (others ++ heads) t := by
  obtain ⟨hs, u, hu, hp⟩ | ⟨p, hm, hrest⟩ := h
  · exact Or.inl ⟨hs, u, List.mem_append_right _ hu, hp⟩
  · exact Or.inr ⟨p, List.mem_append_right _ hm, hrest⟩

theorem Entry.resend {e : Endian} {generated : List (SockAddr × DataPacket)}
    {heads : List PacketTracker} {t : PacketTracker} (h : Entry e generated heads t)
    (hs : t.seq ≠ -441) : resend e t = t.packet := by
  obtain ⟨h441, _⟩ | ⟨p, _, _, _, hseq, hp⟩ := h
  · exact absurd h441 hs
  · rw [hp]
    exact resend_convert hseq hp

theorem Entry.not_same {e : Endian} (he : e = .little) {generated : List (SockAddr × DataPacket)}
    {heads : List PacketTracker} {t : PacketTracker} (h : Entry e generated heads t)
    {p : DataPacket} (hp : Proper e p) (hheads : ∀ u ∈ heads, sameHeader u p = false) :
    sameHeader t p = false := by
  obtain ⟨_, u, hu, hpacket⟩ | ⟨q, _, h3, hq, _, hpacket⟩ := h
  · rw [sameHeader, hpacket]
    exact hheads u hu
  · have hne := hp.seq_ne he hq h3
    rw [sameHeader, hpacket, Bool.and_eq_false_iff]
    exact Or.inl (decide_eq_false hne)

/-- The state of a process whose ACKs were in range. -/
structure Traced (e : Endian) (config : Config) (s : Wired R) : Prop where
  honest : Honest e config s.peer
  entries : ∀ t ∈ s.peer.pTracker, Entry e s.generated s.heads t

section Steps

variable [Rate R] {e : Endian} {config : Config} {s : Wired R}

theorem answersTo_inbound {now : Int} {stray : Stray} {fromAddr : SockAddr} {packet : DataPacket}
    {d : Delivery} (hd : delivery e config (.inbound now stray fromAddr packet) = some d)
    (peer : Peer R) : answersTo e config peer (.inbound now stray fromAddr packet) =
      (handlePacket e config now stray packet d.sockfd peer).2.map (fun p => (fromAddr, p)) := by
  obtain ⟨_, _, node, he, _, hf, hid, hs⟩ := delivery_eq_some hd
  simp only [Event.inbound.injEq] at he
  obtain ⟨rfl, rfl, rfl, rfl⟩ := he
  rw [answersTo, responses, hf, Option.bind_some, if_neg hid, hs]
  rfl

theorem traced_proper (ht : Traced e config s) {now : Int} {stray : Stray} {fromAddr : SockAddr}
    {packet : DataPacket} {d : Delivery}
    (hd : delivery e config (.inbound now stray fromAddr packet) = some d)
    (hack : AckInRange e config s.peer (.inbound now stray fromAddr packet)) :
    ∀ p ∈ (handlePacket e config now stray packet d.sockfd s.peer).2, Proper e p := by
  obtain ⟨_, raw, _, he, hp, _⟩ := delivery_eq_some hd
  simp only [Event.inbound.injEq] at he
  obtain ⟨rfl, rfl, rfl, rfl⟩ := he
  exact handlePacket_proper e config hd hp (fun data hm => (ht.honest.sourced data hm).unsent) hack

theorem traced_inbound (he : e = .little) (ht : Traced e config s) {now : Int} {stray : Stray}
    {fromAddr : SockAddr} {packet : DataPacket} {d : Delivery}
    (hd : delivery e config (.inbound now stray fromAddr packet) = some d)
    (hack : AckInRange e config s.peer (.inbound now stray fromAddr packet))
    (hheads : HeadsForeign e config s (.inbound now stray fromAddr packet)) :
    (∀ t ∈ (step e config s.peer (.inbound now stray fromAddr packet)).pTracker,
        Entry e (wire e config s (.inbound now stray fromAddr packet)).generated
          (wire e config s (.inbound now stray fromAddr packet)).heads t) ∧
      (act e config s.peer (.inbound now stray fromAddr packet)).2 =
        (answersTo e config s.peer (.inbound now stray fromAddr packet)).reverse.map
          (fun m => (m.1, m.2.convert e)) := by
  have hproper := traced_proper ht hd hack
  have hanswers := answersTo_inbound hd s.peer
  have htimeless := entry_timeless e (wire e config s (.inbound now stray fromAddr packet)).generated
    (wire e config s (.inbound now stray fromAddr packet)).heads
  have hdummy : Entry e (wire e config s (.inbound now stray fromAddr packet)).generated
      (wire e config s (.inbound now stray fromAddr packet)).heads (dummyHead stray.dummy) :=
    Or.inl ⟨rfl, stray.dummy, List.mem_cons_self, rfl⟩
  have hnew : ∀ p ∈ (handlePacket e config now stray packet d.sockfd s.peer).2.reverse,
      p.header.packetType = 3 → ∀ sendTime expireTime,
      Entry e (wire e config s (.inbound now stray fromAddr packet)).generated
        (wire e config s (.inbound now stray fromAddr packet)).heads
        ⟨d.sockfd, p.seq, fromAddr, sendTime, expireTime, p.convert e⟩ := by
    intro p hp h3 sendTime expireTime
    rw [List.mem_reverse] at hp
    refine Or.inr ⟨p, ?_, h3, hproper p hp, rfl, rfl⟩
    rw [wire, hanswers]
    exact List.mem_append_left _ (List.mem_map_of_mem hp)
  have hold : ∀ t ∈ (handlePacket e config now stray packet d.sockfd s.peer).1.pTracker,
      Entry e (wire e config s (.inbound now stray fromAddr packet)).generated
        (wire e config s (.inbound now stray fromAddr packet)).heads t :=
    fun t hm => (ht.entries t (handlePacket_subset e config now stray packet d.sockfd s.peer t hm)).mono
  refine ⟨?_, ?_⟩
  · rw [step, act, processInboundUdp_some hd]
    exact sendFrom_forall e now stray.dummy d.sockfd fromAddr htimeless hdummy _ hnew (_, []) hold
  · have hfree : ∀ p ∈ (handlePacket e config now stray packet d.sockfd s.peer).2.reverse, ∀ t,
        Entry e (wire e config s (.inbound now stray fromAddr packet)).generated
          (wire e config s (.inbound now stray fromAddr packet)).heads t →
        sameHeader t p = false := by
      intro p hp t hentry
      rw [List.mem_reverse] at hp
      refine hentry.not_same he (hproper p hp) ?_
      refine hheads (fromAddr, p) ?_
      rw [hanswers]
      exact List.mem_map_of_mem hp
    have hsent := sendFrom_exact e now stray.dummy d.sockfd fromAddr htimeless hdummy _ hnew hfree
      (_, []) hold
    rw [act, processInboundUdp_some hd, hanswers, ← List.map_reverse, List.map_map]
    exact hsent

theorem answersTo_none {event : Event} (hd : delivery e config event = none) (peer : Peer R) :
    answersTo e config peer event = [] := by
  have hr := responses_none hd peer
  cases event with
  | command now chunkfile outputfile => rfl
  | tick now => rfl
  | inbound now stray fromAddr packet =>
    rw [answersTo, hr]
    rfl

theorem traced_step (he : e = .little) (ht : Traced e config s) {event : Event}
    (hack : AckInRange e config s.peer event) (hheads : HeadsForeign e config s event) :
    Traced e config (wire e config s event) := by
  refine ⟨(honest_act event ht.honest).1, ?_⟩
  have hold : ∀ t ∈ s.peer.pTracker, Entry e (wire e config s event).generated
      (wire e config s event).heads t := fun t hm => (ht.entries t hm).mono
  cases event with
  | command now chunkfile outputfile =>
    rw [wire, step, act, (generateWhohas_sending e config now chunkfile outputfile s.peer).1]
    exact hold
  | tick now =>
    have hsame : (wire e config s (.tick now)).peer.pTracker =
        (retransmit e now (regenerateWhohas e config now s.peer).1.pTracker
          (regenerateWhohas e config now s.peer).1.list).2.1 := rfl
    rw [hsame, (regenerateWhohas_sending e config now s.peer).1]
    refine retransmit_forall (entry_timeless e _ _) e ?_ now _ _ hold
    intro t hs hentry
    rw [hentry.resend hs]
    exact hentry
  | inbound now stray fromAddr packet =>
    cases hd : delivery e config (.inbound now stray fromAddr packet) with
    | none =>
      have hsame : (wire e config s (.inbound now stray fromAddr packet)).peer = s.peer := by
        rw [wire, step, act, processInboundUdp_none hd]
      rw [hsame]
      exact hold
    | some d => exact (traced_inbound he ht hd hack hheads).1

theorem tick_data (ht : Traced e config s) (now : Int) :
    (act e config s.peer (.tick now)).2.filter (fun m => decide (m.2.header.packetType = 3)) =
      (s.peer.pTracker.filter (due now)).map (fun t => (t.fromAddr, t.packet)) := by
  obtain ⟨htracker, hlist⟩ := regenerateWhohas_sending e config now s.peer
  have hwhohas : (broadcast config (regenerateWhohas e config now s.peer).2.reverse).filter
      (fun m => decide (m.2.header.packetType = 3)) = [] := by
    rw [List.filter_eq_nil_iff]
    intro m hm
    rw [broadcast_type (regenerateWhohas_type e config now s.peer) m hm]
    decide
  have hentry : ∀ t ∈ s.peer.pTracker.filter (due now), resend e t = t.packet ∧
      t.packet.header.packetType = 3 := by
    intro t hm
    obtain ⟨hin, hdue⟩ := List.mem_filter.mp hm
    have hs : t.seq ≠ -441 := by
      rw [due, Bool.and_eq_true, decide_eq_true_eq] at hdue
      exact hdue.1
    refine ⟨(ht.entries t hin).resend hs, ?_⟩
    obtain ⟨h441, _⟩ | ⟨p, _, h3, _, _, hp⟩ := ht.entries t hin
    · exact absurd h441 hs
    · rw [hp]
      exact h3
  have hall : (s.peer.pTracker.filter (due now)).map (fun t => (t.fromAddr, resend e t)) =
      (s.peer.pTracker.filter (due now)).map (fun t => (t.fromAddr, t.packet)) :=
    List.map_congr_left fun t hm => by rw [(hentry t hm).1]
  dsimp only [act, peerTick]
  rw [List.filter_append, hwhohas, List.nil_append, htracker, hlist, retransmit_due, hall,
    List.filter_eq_self]
  intro m hm
  obtain ⟨t, hin, rfl⟩ := List.mem_map.mp hm
  exact decide_eq_true (hentry t hin).2

theorem roundTrips_step (he : e = .little) (ht : Traced e config s) {event : Event}
    (hack : AckInRange e config s.peer event) (hheads : HeadsForeign e config s event) :
    RoundTrips e config s event := by
  cases event with
  | command now chunkfile outputfile => trivial
  | tick now =>
    rw [RoundTrips, tick_data ht now, List.forall₂_map_right_iff, List.forall₂_same]
    intro t hm
    obtain ⟨hin, hdue⟩ := List.mem_filter.mp hm
    rw [due, Bool.and_eq_true, decide_eq_true_eq] at hdue
    obtain ⟨h441, _⟩ | ⟨p, hp, h3, hproper, hseq, hpacket⟩ := ht.entries t hin
    · exact absurd h441 hdue.1
    · refine ⟨rfl, p, hp, h3, hseq.symm, ?_⟩
      rw [hpacket]
      exact hproper.restored
  | inbound now stray fromAddr packet =>
    cases hd : delivery e config (.inbound now stray fromAddr packet) with
    | none =>
      rw [RoundTrips, answersTo_none hd, act, processInboundUdp_none hd]
      exact .nil
    | some d =>
      have hproper := traced_proper ht hd hack
      rw [RoundTrips, (traced_inbound he ht hd hack hheads).2, List.forall₂_map_right_iff,
        List.forall₂_same]
      intro m hm
      rw [List.mem_reverse, answersTo_inbound hd] at hm
      obtain ⟨p, hp, rfl⟩ := List.mem_map.mp hm
      exact ⟨rfl, (hproper p hp).restored⟩

/-- In every run whose ACKs are in range, what is generated goes out once, in
order, and is restored, then and whenever it is sent again. -/
theorem round_trips (config : Config) (events : List Event)
    (hheads : Along (wire .little config) (HeadsForeign .little config)
      (Wired.init : Wired R) events)
    (hacks : Along (wire .little config) (fun s event => AckInRange .little config s.peer event)
      (Wired.init : Wired R) events) :
    Along (wire .little config) (RoundTrips .little config) (Wired.init : Wired R) events := by
  have hkeeps : ∀ (s : Wired R) event, Traced .little config s →
      HeadsForeign .little config s event ∧ AckInRange .little config s.peer event →
      Traced .little config (wire .little config s event) :=
    fun s event hs hg => traced_step rfl hs hg.2 hg.1
  have htrips : ∀ (s : Wired R) event, Traced .little config s →
      HeadsForeign .little config s event ∧ AckInRange .little config s.peer event →
      RoundTrips .little config s event :=
    fun s event hs hg => roundTrips_step rfl hs hg.2 hg.1
  refine along_mono hkeeps htrips _ events ?_ ((along_and _ events).mpr ⟨hheads, hacks⟩)
  exact ⟨⟨fun data hm => absurd hm List.not_mem_nil, fun t hm => absurd hm List.not_mem_nil⟩,
    fun t hm => absurd hm List.not_mem_nil⟩

section FixedRuns

/-- Memory in which a dummy head gets a header that no response has. -/
def foreignHead : Stray :=
  { cleared with
    dummy := { cleared.dummy with
      packet := { cleared.dummy.packet with
        header := { cleared.dummy.packet.header with seqNum := 7, ackNum := 7 } } } }

def getFirst (now : Int) : Event :=
  .inbound now foreignHead ⟨2, 2, 2⟩ (initPacket .little 2 (some (chunkHash 48)) 20)

def ackOf (now ackNum : Int) : Event :=
  .inbound now foreignHead ⟨2, 2, 2⟩ ((ackPacket .little ackNum).convert .little)

theorem ackOf_inRange (now ackNum : Int) (hl : 0 ≤ ackNum) (hu : ackNum ≤ 512) (peer : Peer ℚ) :
    AckInRange .little network peer (ackOf now ackNum) := by
  intro d hd _ data _ _ _
  obtain rfl := Option.some.inj hd
  have hnum : ((((ackPacket .little ackNum).convert .little).ntoh .little).header.ackNum).toInt =
      ackNum := by
    rw [ntoh_convert_ackNum]
    exact toInt_ofInt32 (by omega) (by omega)
  rw [BitVec.toInt_sub, hnum]
  exact (Int.bmod_eq_of_le (by simp; omega) (by simp; omega)).ge.trans' (by simp; omega)

/-- A GET, an ACK of its packet, and a tick at which the next is due. -/
theorem round_trips_run :
    Along (wire .little network) (RoundTrips .little network) (Wired.init : Wired ℚ)
      [getFirst 0, ackOf 0 1, .tick 5] := by
  refine round_trips network _ ?_ ?_
  · exact ⟨by decide +kernel, by decide +kernel, by decide +kernel, trivial⟩
  · refine ⟨?_, ackOf_inRange 0 1 (by decide) (by decide) _, ?_, trivial⟩
    · intro d hd h4
      obtain rfl := Option.some.inj hd
      exact absurd h4 (by decide)
    · intro d hd
      cases hd

/-- The fourth ACK with number -1, two seconds after the third, is answered
with a packet that does not go out. -/
theorem held_back :
    ¬∀ events, Along (wire .little network) (HeadsForeign .little network)
        (Wired.init : Wired ℚ) events →
      Along (wire .little network) (RoundTrips .little network) (Wired.init : Wired ℚ) events := by
  intro h
  have hrun := h [getFirst 0, ackOf 0 (-1), ackOf 0 (-1), ackOf 0 (-1), ackOf 2 (-1)]
    ⟨by decide +kernel, by decide +kernel, by decide +kernel, by decide +kernel,
      by decide +kernel, trivial⟩
  have hlength := List.Forall₂.length_eq hrun.2.2.2.2.1
  revert hlength
  decide +kernel

end FixedRuns

end Steps

end P2PCC.RoundTrip

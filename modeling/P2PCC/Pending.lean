import P2PCC.SingleTransfer

namespace P2PCC.Pending

open P2PCC.Lib.ByteOrder P2PCC.Lib.Runs P2PCC.Packet P2PCC.Tracker P2PCC.Sender P2PCC.Receiver
open P2PCC.HandlePacket P2PCC.Peer P2PCC.Receiving P2PCC.Tracking P2PCC.Window P2PCC.TwoPeers
open P2PCC.SingleTransfer

variable {R : Type}

/-- The packets up to `top` are ACKED, the others up to the end of the window
are on their way, and the window reaches past `top`. -/
structure AckedUpTo (data : Data R) (top : Int) : Prop where
  low : -1 ≤ top
  high : top ≤ 511
  acked : ∀ i, 0 ≤ i → i < 512 → (data.state i = .acked ↔ i ≤ top)
  sent : ∀ i, 0 ≤ i → i ≤ data.windowEnd → data.state i ≠ .unsend
  startLow : -1 ≤ data.windowStart
  startHigh : data.windowStart ≤ top
  reach : min (top + 1) 511 ≤ data.windowEnd
  window : 1 ≤ data.sendWindow
  repeated : 1 ≤ data.countAck → ∃ n, 0 ≤ n ∧ n ≤ 511 ∧ data.prevAck = BitVec.ofInt 32 n ∧
    min (n + 1) 511 ≤ data.windowEnd

theorem AckedUpTo.agree {data other : Data R} {top : Int} (h : AckedUpTo data top)
    (ha : other.Agree data) (hw : 1 ≤ other.sendWindow) : AckedUpTo other top := by
  obtain ⟨_, _, _, hstate, hstart, hend, hprev, hcount⟩ := ha
  refine ⟨h.low, h.high, ?_, ?_, ?_, ?_, ?_, hw, ?_⟩
  · rw [hstate]
    exact h.acked
  · rw [hstate, hend]
    exact h.sent
  · rw [hstart]
    exact h.startLow
  · rw [hstart]
    exact h.startHigh
  · rw [hend]
    exact h.reach
  · rw [hcount, hprev, hend]
    exact h.repeated

/-- What an ACK for a packet that has been sent does to the transfer. -/
structure Advances (e : Endian) (data after : Data R) (packets : List DataPacket) : Prop where
  acked : ∃ top, AckedUpTo after top
  grows : data.windowEnd ≤ after.windowEnd
  emits : ∀ i, data.windowEnd < i → i ≤ after.windowEnd → dataPacket e data i ∈ packets
  emitted : ∀ p ∈ packets, ∃ k, 0 ≤ k ∧ k ≤ after.windowEnd ∧ p = dataPacket e data k

theorem ofInt_inj {m n : Int} (hm : 0 ≤ m) (hm' : m ≤ 511) (hn : 0 ≤ n) (hn' : n ≤ 511)
    (h : BitVec.ofInt 32 m = BitVec.ofInt 32 n) : m = n := by
  have hi := congrArg BitVec.toInt h
  rwa [toInt_ofInt32 (by omega) (by omega), toInt_ofInt32 (by omega) (by omega)] at hi

section Answers

variable [Rate R] {e : Endian} {n top : Int} {data after : Data R}
  {before tracker : List PacketTracker} {packets : List DataPacket}

theorem ackedUpTo_accepted (hp : AckedUpTo data top) (hl : 0 ≤ n) (hu : n ≤ 511)
    (hn : n ≤ data.windowEnd) {mid : Data R}
    (hagree : mid.Agree { (data.noteAck n).ackRange (data.windowStart + 1)
      (min n 511 - data.windowStart).toNat with windowStart := n })
    (hwindow : mid.sendWindow = data.grownWindow) :
    AckedUpTo (mid.sendMore mid.quota) (max top n) := by
  obtain ⟨_, _, _, hstate, hstart, hend, hprev, hcount⟩ := hagree
  have hgrown := data.le_grownWindow
  have hone := hp.window
  have hlow := hp.low
  have hhigh := hp.high
  have hslow := hp.startLow
  have hshigh := hp.startHigh
  have hreach := hp.reach
  have hend' : mid.windowEnd = data.windowEnd := hend
  have hstart' : mid.windowStart = n := hstart
  have hquota : (mid.quota : Int) = max 0 (min (data.grownWindow - (data.windowEnd - n))
      (511 - data.windowEnd)) := by
    simp only [Data.quota, chunkPacketNumber, hwindow, hend', hstart']
    omega
  have hwend : (mid.sendMore mid.quota).windowEnd = data.windowEnd + mid.quota := by
    simp only [Data.sendMore, hend']
  have hmid : ∀ i, mid.state i = if data.windowStart + 1 ≤ i ∧
      i < data.windowStart + 1 + (min n 511 - data.windowStart).toNat then .acked
      else data.state i := by
    intro i
    rw [hstate]
    rfl
  have hmore : ∀ i, (mid.sendMore mid.quota).state i =
      if data.windowEnd < i ∧ i ≤ data.windowEnd + mid.quota then .unacked else mid.state i := by
    intro i
    simp only [Data.sendMore, hend']
  refine ⟨by omega, by omega, ?_, ?_, ?_, ?_, ?_, ?_, ?_⟩
  · intro i hi hi'
    have hold := hp.acked i hi hi'
    rw [hmore, hmid]
    split
    · -- what has just been sent lies behind everything that can be ACKED
      refine ⟨fun h => absurd h (by decide), fun h => ?_⟩
      omega
    · split
      · exact ⟨fun _ => by omega, fun _ => rfl⟩
      · rw [hold]
        omega
  · intro i hi hi'
    rw [hwend] at hi'
    rw [hmore, hmid]
    split
    · decide
    · split
      · decide
      · exact hp.sent i hi (by omega)
  · simp only [Data.sendMore, hstart']
    omega
  · simp only [Data.sendMore, hstart']
    omega
  · rw [hwend]
    omega
  · simp only [Data.sendMore, hwindow]
    omega
  · intro _
    refine ⟨n, hl, hu, hprev, ?_⟩
    rw [hwend]
    omega

theorem answered_advances (hw : Unsent data) (hp : AckedUpTo data top) (hl : 0 ≤ n) (hu : n ≤ 511)
    (hn : n ≤ data.windowEnd) (h : Answered e n data before after tracker packets) :
    Advances e data after packets := by
  cases h with
  | rejected hack => omega
  | duplicate hack hprev hcount after hagree hwindow =>
    obtain ⟨m, hm, hm', hprev', hreach⟩ := hp.repeated hcount
    obtain rfl := ofInt_inj hl hu hm hm' (hprev.symm.trans hprev')
    have hcounted : AckedUpTo { data with countAck := data.countAck + 1 } top :=
      ⟨hp.low, hp.high, hp.acked, hp.sent, hp.startLow, hp.startHigh, hp.reach, hp.window,
        fun _ => ⟨n, hl, hu, hprev, hreach⟩⟩
    have hone := hp.window
    have hend : after.windowEnd = data.windowEnd := hagree.windowEnd
    refine ⟨⟨top, hcounted.agree hagree ?_⟩, by omega, fun i hi hi' => by omega, ?_⟩
    · obtain hwindow | hwindow := hwindow <;> omega
    · intro p hpm
      split at hpm
      · exact ⟨n + 1, by omega, by omega, List.mem_singleton.mp hpm⟩
      · simp at hpm
  | unsent hack m hm hstate hsent tracker htracker =>
    have hslow := hp.startLow
    exact absurd hstate (hp.sent _ (by omega) (by omega))
  | accepted hack hfresh hsent mid hagree hwindow tracker htracker =>
    have hend : mid.windowEnd = data.windowEnd := hagree.windowEnd
    refine ⟨⟨_, ackedUpTo_accepted hp hl hu hn hagree hwindow⟩, ?_, ?_, ?_⟩
    · simp only [Data.sendMore]
      omega
    · intro i hi hi'
      simp only [Data.sendMore] at hi'
      rw [List.mem_reverse, List.mem_map]
      refine ⟨(i - data.windowEnd - 1).toNat, List.mem_range.mpr (by omega), ?_⟩
      rw [show data.windowEnd + 1 + ((i - data.windowEnd - 1).toNat : Int) = i by omega]
    · intro p hpm
      obtain ⟨i, hi, rfl⟩ := List.mem_map.mp (List.mem_reverse.mp hpm)
      have hlt := List.mem_range.mp hi
      have hlow := hw.low
      refine ⟨data.windowEnd + 1 + i, by omega, ?_, rfl⟩
      simp only [Data.sendMore]
      omega

end Answers

/-- The header of the tracked packet is not that of a DATA packet in host
order, so the sending loop does not take one for the other. -/
def Foreign (t : PacketTracker) : Prop :=
  ∀ k, 1 ≤ k → k ≤ 512 → t.packet.header.ackNum = 0 → t.packet.header.seqNum ≠ BitVec.ofInt 32 k

/-- The entries of the tracker while one transfer runs. -/
structure Own (link : Link) (limit : Int) (t : PacketTracker) : Prop where
  foreign : Foreign t
  sock : t.seq ≠ -441 → t.sock = link.receiverId
  low : t.seq ≠ -441 → 1 ≤ t.seq
  high : t.seq ≠ -441 → t.seq ≤ limit

theorem own_timeless (link : Link) (limit : Int) : Timeless (Own link limit) :=
  fun _ _ _ h => ⟨h.foreign, h.sock, h.low, h.high⟩

theorem Own.mono {link : Link} {limit limit' : Int} {t : PacketTracker} (h : Own link limit t)
    (hle : limit ≤ limit') : Own link limit' t :=
  ⟨h.foreign, h.sock, h.low, fun hs => (h.high hs).trans hle⟩

theorem own_dummy {uninit : PacketTracker} (h : Foreign (dummyHead uninit)) (link : Link)
    (limit : Int) : Own link limit (dummyHead uninit) :=
  ⟨h, fun hs => absurd rfl hs, fun hs => absurd rfl hs, fun hs => absurd rfl hs⟩

theorem toNat_ofInt_small {k : Int} (hl : 1 ≤ k) (hu : k ≤ 512) :
    0 < (BitVec.ofInt 32 k).toNat ∧ (BitVec.ofInt 32 k).toNat < 65536 := by
  rw [BitVec.toNat_ofInt]
  omega

theorem foreign_resend {t : PacketTracker} (hl : 1 ≤ t.seq) (hu : t.seq ≤ 512) :
    Foreign { t with packet := resend .little t } := by
  intro k hk hk' _
  obtain ⟨hpos, hsmall⟩ := toNat_ofInt_small hl hu
  exact hton32_ne_small _ _ hpos hsmall (toNat_ofInt_small hk hk').2

theorem Foreign.sameHeader {t : PacketTracker} (h : Foreign t) (e : Endian) (data : Data R) {k : Int}
    (hl : 0 ≤ k) (hu : k < 512) : sameHeader t (dataPacket e data k) = false := by
  have hseq : (dataPacket e data k).header.seqNum = BitVec.ofInt 32 (k + 1) := rfl
  have hack : (dataPacket e data k).header.ackNum = 0 := hton32_zero e
  rw [Peer.sameHeader, hseq, hack, Bool.and_eq_false_iff]
  by_cases ha : t.packet.header.ackNum = 0
  · exact Or.inl (decide_eq_false (h (k + 1) (by omega) (by omega) ha))
  · exact Or.inr (decide_eq_false ha)

section Answers

variable {link : Link} {data : Data R} {limit : Int} {packets : List DataPacket}
  {tracker : List PacketTracker}

theorem own_new (he : link.endian = .little) {k : Int} (hl : 0 ≤ k) (hu : k < limit)
    (hlimit : limit ≤ 512) (fromAddr : SockAddr) (sendTime expireTime : Int) :
    Own link limit ⟨link.receiverId, (dataPacket link.endian data k).seq, fromAddr, sendTime,
      expireTime, (dataPacket link.endian data k).convert link.endian⟩ := by
  have hseq := dataPacket_seq link.endian data k (by omega) (by omega)
  refine ⟨?_, fun _ => rfl, fun _ => by dsimp only; omega, fun _ => by dsimp only; omega⟩
  have hforeign : Foreign { (⟨link.receiverId, (dataPacket link.endian data k).seq, fromAddr,
      sendTime, expireTime, (dataPacket link.endian data k).convert link.endian⟩ : PacketTracker) with
      packet := resend .little ⟨link.receiverId, (dataPacket link.endian data k).seq, fromAddr,
        sendTime, expireTime, (dataPacket link.endian data k).convert link.endian⟩ } :=
    foreign_resend (by dsimp only; omega) (by dsimp only; omega)
  rw [← he, resend_new] at hforeign
  exact hforeign

variable (now : Int) {stray : Stray}

theorem answers_own (he : link.endian = .little) (hdummy : Foreign (dummyHead stray.dummy))
    (hlimit : limit ≤ 512) (htracker : ∀ t ∈ tracker, Own link limit t)
    (hpackets : ∀ p ∈ packets, ∃ k, 0 ≤ k ∧ k < limit ∧ p = dataPacket link.endian data k) :
    ∀ t ∈ (answers link now stray.dummy tracker packets).1, Own link limit t := by
  apply sendFrom_forall link.endian now stray.dummy link.receiverId link.receiverAddr
    (own_timeless link limit)
  · exact own_dummy hdummy link limit
  · intro p hp _ sendTime expireTime
    obtain ⟨k, hl, hu, rfl⟩ := hpackets p (List.mem_reverse.mp hp)
    exact own_new he hl hu hlimit link.receiverAddr sendTime expireTime
  · exact htracker

theorem answers_sent (he : link.endian = .little) (hdummy : Foreign (dummyHead stray.dummy))
    (hlimit : limit ≤ 512) (htracker : ∀ t ∈ tracker, Own link limit t)
    (hpackets : ∀ p ∈ packets, ∃ k, 0 ≤ k ∧ k < limit ∧ p = dataPacket link.endian data k) :
    ∀ p ∈ packets, (link.receiverAddr, p.convert link.endian) ∈
      (answers link now stray.dummy tracker packets).2 := by
  intro p hp
  have hmem := List.mem_reverse.mpr hp
  refine sendFrom_all link.endian now stray.dummy link.receiverId link.receiverAddr
    (own_timeless link limit) ?_ packets.reverse ?_ ?_ (tracker, []) htracker p hmem ?_
  · exact own_dummy hdummy link limit
  · intro p hp _ sendTime expireTime
    obtain ⟨k, hl, hu, rfl⟩ := hpackets p (List.mem_reverse.mp hp)
    exact own_new he hl hu hlimit link.receiverAddr sendTime expireTime
  · intro p hp _ t ht
    obtain ⟨k, hl, hu, rfl⟩ := hpackets p (List.mem_reverse.mp hp)
    exact ht.foreign.sameHeader link.endian data hl (by omega)
  · obtain ⟨k, _, _, rfl⟩ := hpackets p hp
    exact dataPacket_packetType link.endian data k

theorem answers_entry (he : link.endian = .little) (hdummy : Foreign (dummyHead stray.dummy))
    (hlimit : limit ≤ 512) (htracker : ∀ t ∈ tracker, Own link limit t)
    (hpackets : ∀ p ∈ packets, ∃ k, 0 ≤ k ∧ k < limit ∧ p = dataPacket link.endian data k) :
    ∀ p ∈ packets, ∃ t ∈ (answers link now stray.dummy tracker packets).1,
      t.sock = link.receiverId ∧ t.seq = p.seq := by
  intro p hp
  obtain hm | ⟨q, hq, _, _, hdata⟩ := sendFrom_sent link.endian now stray.dummy link.receiverId
    link.receiverAddr (H := Own link limit)
    (Q := fun q t => t.sock = link.receiverId ∧ t.seq = q.seq) (own_timeless link limit)
    (fun _ _ _ _ h => h)
    (own_dummy hdummy link limit) packets.reverse (by
      intro q hq _ sendTime expireTime
      obtain ⟨k, hl, hu, rfl⟩ := hpackets q (List.mem_reverse.mp hq)
      exact ⟨own_new he hl hu hlimit link.receiverAddr sendTime expireTime, rfl, rfl⟩) (by
      intro q hq _ t ht hseq
      obtain ⟨k, hl, hu, rfl⟩ := hpackets q (List.mem_reverse.mp hq)
      have hk := dataPacket_seq link.endian data k (by omega) (by omega)
      exact ⟨ht.sock (by omega), hseq⟩) (tracker, []) htracker _
    (answers_sent now he hdummy hlimit htracker hpackets p hp)
  · simp at hm
  · obtain ⟨k, _, _, rfl⟩ := hpackets q (List.mem_reverse.mp hq)
    obtain ⟨hpq, t, ht, hsock, hseq⟩ := hdata (dataPacket_packetType link.endian data k)
    refine ⟨t, ht, hsock, hseq.trans ?_⟩
    have hsame := congrArg (fun c => (c.ntoh link.endian).header.seqNum) hpq
    dsimp only at hsame
    rw [ntoh_convert_seqNum, ntoh_convert_seqNum] at hsame
    rw [DataPacket.seq, DataPacket.seq, hsame]

end Answers

/-- Everything about a transfer is inside its window, and what is not ACKED
there has been sent and has a timer. -/
structure Flowing (link : Link) (bytes : Int → Byte) (x : Transfer R) : Prop where
  acked : ∃ top, AckedUpTo x.data top
  toReceiver : ∀ p ∈ x.toReceiver, (p.ntoh link.endian).seq ≤ x.data.windowEnd + 1
  recved : ∀ i, 0 ≤ i → i < 512 → (x.buffer.chunks i).recved = true → i ≤ x.data.windowEnd
  own : ∀ t ∈ x.pTracker, Own link (x.data.windowEnd + 1) t
  timed : ∀ i, 0 ≤ i → i ≤ x.data.windowEnd → x.data.state i ≠ .acked →
    ∃ t ∈ x.pTracker, t.sock = link.receiverId ∧ t.seq = i + 1
  logged : ∀ i, 0 ≤ i → i ≤ x.data.windowEnd → ∃ p ∈ x.log, IsSlice link.endian bytes i p

section Moves

variable [Rate R] {link : Link} {bytes : Int → Byte} {x : Transfer R}

omit [Rate R] in
theorem flowing_lost (h : Flowing link bytes x) {toReceiver toSender : List DataPacket} (busy : Bool)
    (hreceiver : ∀ p ∈ toReceiver, p ∈ x.toReceiver) :
    Flowing link bytes
      { x with
        buffer := { x.buffer with busy := busy }
        toReceiver := toReceiver
        toSender := toSender } :=
  ⟨h.acked, fun p hp => h.toReceiver p (hreceiver p hp), h.recved, h.own, h.timed, h.logged⟩

omit [Rate R] in
theorem flowing_received (h : Flowing link bytes x) {p : DataPacket} {rest : List DataPacket}
    {toSender : List DataPacket} (past : Int → Int) (busy : Bool) (hp : p ∈ x.toReceiver)
    (hrest : ∀ q ∈ rest, q ∈ x.toReceiver) :
    Flowing link bytes
      { x with
        buffer := { x.buffer.recv past (p.ntoh link.endian) with busy := busy }
        toReceiver := rest
        toSender := toSender } := by
  refine ⟨h.acked, fun q hq => h.toReceiver q (hrest q hq), ?_, h.own, h.timed, h.logged⟩
  intro i hi hn hr
  have hr' : ((x.buffer.chunks i).recved || decide (i = (p.ntoh link.endian).seq - 1)) = true := by
    rwa [← recv_recved x.buffer past]
  have hle := h.toReceiver p hp
  obtain hold | hnew := Bool.or_eq_true _ _ ▸ hr'
  · exact h.recved i hi hn hold
  · have hi' := of_decide_eq_true hnew
    dsimp only
    omega

theorem flowing_answered (he : link.endian = .little) (hs : Safe link bytes x)
    (h : Flowing link bytes x) {p : DataPacket} {rest : List DataPacket} (now : Int) {stray : Stray}
    {after : Data R} {tracker : List PacketTracker} {packets : List DataPacket}
    (hp : p ∈ x.toSender) (hdummy : Foreign (dummyHead stray.dummy))
    (hanswer : Answered link.endian ((p.ntoh link.endian).header.ackNum - 1).toInt x.data
      x.pTracker after tracker packets) :
    Flowing link bytes
      { x with
        data := after
        pTracker := (answers link now stray.dummy tracker packets).1
        toReceiver := x.toReceiver ++ (answers link now stray.dummy tracker packets).2.map Prod.snd
        toSender := rest
        log := x.log ++ (answers link now stray.dummy tracker packets).2.map Prod.snd } := by
  have hack := hs.toSender p hp
  have hindex := hack.index
  have hlow := hack.low
  have hhigh := hack.high
  obtain ⟨top, hacks⟩ := h.acked
  have hlast := h.recved _ (by omega) (by omega) (hack.filled _ (by omega) (sub_one_lt _))
  obtain ⟨hacked, hgrows, hemits, hemitted⟩ := answered_advances hs.unsent hacks (by omega)
    (by omega) (by omega) hanswer
  have hafter := answered_unsent hs.unsent hanswer
  have hlimit : after.windowEnd + 1 ≤ 512 := by
    have := hafter.high
    omega
  have hpackets : ∀ q ∈ packets, ∃ k, 0 ≤ k ∧ k < after.windowEnd + 1 ∧
      q = dataPacket link.endian x.data k := by
    intro q hq
    obtain ⟨k, hl, hu, hqk⟩ := hemitted q hq
    exact ⟨k, hl, by omega, hqk⟩
  have htracker : ∀ t ∈ tracker, Own link (after.windowEnd + 1) t :=
    fun t ht => (h.own t (hanswer.subset t ht)).mono (by omega)
  have hsent := answers_sent now he hdummy hlimit htracker hpackets
  have hentry := answers_entry now he hdummy hlimit htracker hpackets
  have hwend := hs.unsent.low
  refine ⟨hacked, ?_, fun i hi hn hr => (h.recved i hi hn hr).trans hgrows,
    answers_own now he hdummy hlimit htracker hpackets, ?_, ?_⟩
  · intro q hq
    dsimp only
    obtain hq | hq := List.mem_append.mp hq
    · have := h.toReceiver q hq
      omega
    · obtain ⟨m, hm, rfl⟩ := List.mem_map.mp hq
      have hdata : ∀ c ∈ packets, c.header.packetType = 3 := by
        intro c hc
        obtain ⟨k, _, _, rfl⟩ := hpackets c hc
        exact dataPacket_packetType link.endian x.data k
      obtain ⟨_, c, hc, hcm⟩ := mem_answers now stray tracker hdata m hm
      obtain ⟨k, hl, hu, rfl⟩ := hpackets c hc
      rw [hcm, (isSlice_dataPacket link.endian x.data hl (by omega)).seq]
      omega
  · intro i hi hi' hstate
    dsimp only at hi' hstate ⊢
    by_cases hold : i ≤ x.data.windowEnd
    · have hbefore : x.data.state i ≠ .acked :=
        fun hacked => hstate (answered_acked hs.unsent hanswer (by omega) hacked)
      obtain ⟨t, ht, hsock, hseq⟩ := h.timed i hi hold hbefore
      have hseq' : t.seq - 1 = i := by omega
      have hkept := answered_keeps hs.unsent hanswer ht (by omega) fun _ => hseq' ▸ hstate
      exact sendFrom_keeps link.endian now stray.dummy link.receiverId link.receiverAddr
        (Q := fun t => t.sock = link.receiverId ∧ t.seq = i + 1) (fun _ _ _ h => h) packets.reverse
        (tracker, []) ⟨t, hkept, hsock, hseq⟩
    · obtain ⟨t, ht, hsock, hseq⟩ := hentry _ (hemits i (by omega) hi')
      rw [dataPacket_seq link.endian x.data i (by omega) (by omega)] at hseq
      exact ⟨t, ht, hsock, hseq⟩
  · intro i hi hi'
    dsimp only at hi' ⊢
    by_cases hold : i ≤ x.data.windowEnd
    · obtain ⟨q, hq, hslice⟩ := h.logged i hi hold
      exact ⟨q, List.mem_append_left _ hq, hslice⟩
    · have hout := hsent _ (hemits i (by omega) hi')
      refine ⟨_, List.mem_append_right _ (List.mem_map_of_mem hout), ?_⟩
      rw [← hs.content]
      exact isSlice_dataPacket link.endian x.data hi (by omega)

theorem flowing_expired (he : link.endian = .little) (hs : Safe link bytes x)
    (h : Flowing link bytes x) (now : Int) {after : Data R} {out : List DataPacket}
    (hagree : after.Agree x.data)
    (hwindow : after.sendWindow = x.data.sendWindow ∨ after.sendWindow = 1)
    (hout : ∀ p ∈ out, ∃ t ∈ x.pTracker, t.seq ≠ -441 ∧ p = resend link.endian t) :
    Flowing link bytes
      { x with
        data := after
        pTracker := (retransmit link.endian now x.pTracker [x.data]).2.1
        toReceiver := x.toReceiver ++ out
        log := x.log ++ out } := by
  obtain ⟨top, hacks⟩ := h.acked
  have hhigh := hs.unsent.high
  have hone : 1 ≤ after.sendWindow := by
    have := hacks.window
    omega
  refine ⟨⟨top, hacks.agree hagree hone⟩, ?_, ?_, ?_, ?_, ?_⟩
  · intro p hp
    dsimp only
    rw [hagree.windowEnd]
    obtain hp | hp := List.mem_append.mp hp
    · exact h.toReceiver p hp
    · obtain ⟨t, ht, hne, rfl⟩ := hout p hp
      rw [(hs.tracked t ht hne).seq, sub_add_cancel]
      exact (h.own t ht).high hne
  · dsimp only
    rw [hagree.windowEnd]
    exact h.recved
  · dsimp only
    rw [hagree.windowEnd]
    refine retransmit_forall (own_timeless link _) link.endian ?_ now _ _ h.own
    intro t hne ht
    refine ⟨?_, ht.sock, ht.low, ht.high⟩
    rw [he]
    exact foreign_resend (ht.low hne) ((ht.high hne).trans (by omega))
  · dsimp only
    rw [hagree.windowEnd, hagree.state]
    intro i hi hi' hstate
    exact retransmit_keeps (Q := fun t => t.sock = link.receiverId ∧ t.seq = i + 1)
      (fun _ _ _ h => h) link.endian (fun _ _ h => h) now _ _ (h.timed i hi hi' hstate)
  · dsimp only
    rw [hagree.windowEnd]
    intro i hi hi'
    obtain ⟨p, hp, hslice⟩ := h.logged i hi hi'
    exact ⟨p, List.mem_append_left _ hp, hslice⟩

theorem flowing_moves (he : link.endian = .little) {y : Transfer R} (hs : Safe link bytes x)
    (h : Flowing link bytes x) (hm : Moves link Foreign x y) : Flowing link bytes y := by
  cases hm with
  | lost toReceiver toSender busy hreceiver hsender => exact flowing_lost h busy hreceiver
  | received p rest past busy hp hrest hpast => exact flowing_received h past busy hp hrest
  | answered p rest now stray after tracker packets hp hrest hdummy hanswer =>
    exact flowing_answered he hs h now hp hdummy hanswer
  | expired now after out hagree hwindow hout =>
    exact flowing_expired he hs h now hagree hwindow hout

end Moves

section Runs

variable [Rate R]

theorem flowing_start (link : Link) (he : link.endian = .little) (now : Int) {stray : Stray}
    (hcount : stray.data.countAck = 0) (hdummy : Foreign (dummyHead stray.dummy)) (offset : Int)
    (bytes : Int → Byte) :
    Flowing link bytes (startTransfer link now stray offset bytes : Transfer R) := by
  have hslice := isSlice_dataPacket link.endian
    (newElement stray.data link.receiverId offset bytes : Data R) (k := 0) le_rfl (by omega)
  have hown : Own link 1 ⟨link.receiverId, (dataPacket link.endian
      (newElement stray.data link.receiverId offset bytes : Data R) 0).seq, link.receiverAddr, now, 0,
      _⟩ := own_new he le_rfl (by omega) (by omega) link.receiverAddr now 0
  rw [dataPacket_seq link.endian _ 0 (by omega) (by omega), zero_add] at hown
  have hbytes : (newElement stray.data link.receiverId offset bytes : Data R).content = bytes := rfl
  rw [hbytes] at hslice
  have hend : (startTransfer link now stray offset bytes : Transfer R).data.windowEnd = 0 := rfl
  have hstate : ∀ i : Int, 0 ≤ i → i < 512 →
      (startTransfer link now stray offset bytes : Transfer R).data.state i =
        if i = 0 then .unacked else .unsend := by
    intro i hi hn
    have hnew : (newElement stray.data link.receiverId offset bytes : Data R).state i = .unsend :=
      if_pos ⟨hi, hn⟩
    have hfirst : (startTransfer link now stray offset bytes : Transfer R).data.state i =
        if (-1 : Int) < i ∧ i ≤ -1 + (1 : Nat) then .unacked
        else (newElement stray.data link.receiverId offset bytes : Data R).state i := rfl
    rw [hfirst, hnew]
    by_cases hz : i = 0
    · rw [if_pos (by omega), if_pos hz]
    · rw [if_neg (by omega), if_neg hz]
  refine ⟨⟨-1, ?_⟩, ?_, ?_, ?_, ?_, ?_⟩
  · refine ⟨le_rfl, by omega, ?_, ?_, le_rfl, le_rfl, ?_, le_rfl, ?_⟩
    · intro i hi hn
      rw [hstate i hi hn]
      refine ⟨fun h => ?_, fun h => by omega⟩
      split at h <;> cases h
    · intro i hi hi'
      rw [hend] at hi'
      rw [hstate i hi (by omega), if_pos (by omega)]
      decide
    · rw [hend]
      omega
    · intro h
      have hzero : (startTransfer link now stray offset bytes : Transfer R).data.countAck = 0 :=
        hcount
      omega
  · intro p hp
    obtain rfl := List.mem_singleton.mp hp
    rw [hslice.seq, hend]
  · intro i _ _ hr
    simp [startTransfer, emptyChunk] at hr
  · rw [hend]
    refine List.forall_mem_cons.mpr ⟨?_, fun t ht => List.mem_singleton.mp ht ▸ hown⟩
    exact ⟨hdummy, fun h => absurd rfl h, fun h => absurd rfl h, fun h => absurd rfl h⟩
  · intro i hi hi' _
    rw [hend] at hi'
    exact ⟨_, List.mem_cons_of_mem _ (List.mem_singleton.mpr rfl), rfl, by dsimp only; omega⟩
  · intro i hi hi'
    rw [hend] at hi'
    obtain rfl : i = 0 := by omega
    exact ⟨_, List.mem_singleton.mpr rfl, hslice⟩

/-- The lowest packet that is not ACKED has been sent, and the timeout loop
finds it on the tracker with its own bytes. -/
def NotStuck (link : Link) (bytes : Int → Byte) (s : System R) : Prop :=
  ∃ data, s.sender.list = [data] ∧ ∀ k, 0 ≤ k → k < 512 → data.state k ≠ .acked →
    (∀ j, 0 ≤ j → j < k → data.state j = .acked) →
    data.state k ≠ .unsend ∧ (∃ p ∈ s.log, IsSlice link.endian bytes k p) ∧
    ∃ t ∈ s.sender.pTracker, t.sock = link.receiverId ∧ t.seq = k + 1 ∧
      t.packet.data = slice bytes k ∧ IsSlice link.endian bytes k (resend link.endian t)

omit [Rate R] in
theorem Flowing.notStuck {link : Link} {bytes : Int → Byte} {s : System R} {x : Transfer R}
    (h : Flowing link bytes x) (hs : Safe link bytes x) (hx : Represents link s x) :
    NotStuck link bytes s := by
  obtain ⟨top, hacks⟩ := h.acked
  refine ⟨x.data, hx.list, ?_⟩
  intro k hl hu hk hbefore
  have hgt : top < k := by
    by_contra hle
    exact hk ((hacks.acked k hl hu).mpr (by omega))
  have hle : k ≤ top + 1 := by
    by_contra hlt
    have hlow := hacks.low
    have hacked := hbefore (k - 1) (by omega) (by omega)
    have := (hacks.acked (k - 1) (by omega) (by omega)).mp hacked
    omega
  have hend : k ≤ x.data.windowEnd := by
    have := hacks.reach
    omega
  refine ⟨hacks.sent k hl hend, ?_, ?_⟩
  · rw [hx.log]
    exact h.logged k hl hend
  · rw [hx.pTracker]
    obtain ⟨t, ht, hsock, hseq⟩ := h.timed k hl hend hk
    have hslice := hs.tracked t ht (by omega)
    rw [hseq, add_sub_cancel_right] at hslice
    exact ⟨t, ht, hsock, hseq, hslice.data, hslice⟩

/-- Whatever happens to its packets, a transfer between two peers never waits
for a packet that nobody will send again. -/
theorem not_stuck (link : Link) (he : link.endian = .little) (now : Int) (stray : Stray)
    (hcount : stray.data.countAck = 0) (hdummy : Foreign (dummyHead stray.dummy)) (offset : Int)
    (bytes : Int → Byte) (receiver : Peer R) (moves : List Move) (hclear : ∀ m ∈ moves, Clear m)
    (hhead : ∀ m ∈ moves, HeadMeets Foreign m) :
    NotStuck link bytes
      (run (link.step inTransfer) (start link now stray offset bytes receiver) moves) := by
  have hstep : ∀ (s : System R) (m : Move),
      (∃ x, Represents link s x ∧ Safe link bytes x ∧ Flowing link bytes x) →
      Clear m ∧ HeadMeets Foreign m →
      ∃ x, Represents link (link.step inTransfer s m) x ∧ Safe link bytes x ∧
        Flowing link bytes x := by
    rintro s m ⟨x, hx, hs, hf⟩ ⟨hm, hd⟩
    obtain ⟨y, hy, hrep⟩ := represents_step hx hs m hm hd
    exact ⟨y, hrep, safe_moves hs hy, flowing_moves he hs hf hy⟩
  obtain ⟨x, hx, hs, hf⟩ := run_invariant hstep (start link now stray offset bytes receiver) moves
    ⟨_, represents_start link now stray offset bytes receiver,
      safe_start link now stray offset bytes, flowing_start link he now hcount hdummy offset bytes⟩
    (along_of_forall _ moves fun _ m hm => ⟨hclear m hm, hhead m hm⟩)
  exact hf.notStuck hs hx

end Runs

theorem foreign_cleared : Foreign (dummyHead cleared.dummy) := by
  intro k hl hu _ h
  have hpos := (toNat_ofInt_small hl hu).1
  rw [← h] at hpos
  exact absurd hpos (by decide)

/-- The first packet is acknowledged, both new packets are lost, and the
window waits for a timeout. -/
theorem not_stuck_pair : NotStuck pair (fun _ => 7)
    (run (pair.step inTransfer) (start pair 0 cleared 0 (fun _ => 7) (Peer.init : Peer ℚ))
      [.deliverToReceiver 0 0 cleared, .deliverToSender 0 0 cleared, .faultToReceiver (.drop 0),
        .faultToReceiver (.drop 0)]) := by
  have hpast : cleared.past 512 ≠ 1 := by decide
  refine not_stuck pair rfl 0 cleared rfl foreign_cleared 0 _ _ _ ?_ ?_
  · intro m hm
    simp only [List.mem_cons, List.not_mem_nil, or_false] at hm
    obtain rfl | rfl | rfl | rfl := hm
    · exact hpast
    · trivial
    · trivial
    · trivial
  · intro m hm
    simp only [List.mem_cons, List.not_mem_nil, or_false] at hm
    obtain rfl | rfl | rfl | rfl := hm
    · trivial
    · exact foreign_cleared
    · trivial
    · trivial

end P2PCC.Pending

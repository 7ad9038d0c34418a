import P2PCC.Regeneration
import P2PCC.SingleTransfer

namespace P2PCC.Idling

open P2PCC.Lib.ByteOrder P2PCC.Lib.Runs P2PCC.Lib.Channel P2PCC.Lib.FirstMatch P2PCC.Packet
open P2PCC.ChunkFile P2PCC.Tracker P2PCC.Sender P2PCC.Receiver P2PCC.HandlePacket P2PCC.Peer P2PCC.Tracking
open P2PCC.Receiving P2PCC.Manager P2PCC.TwoPeers P2PCC.SingleTransfer P2PCC.Regeneration

variable {R : Type}

/-- The link carries the packets of transfers and the GETs that start them. -/
def inDownload (p : DataPacket) : Bool := p.header.packetType = 2 || inTransfer p

theorem inDownload_whohas {p : DataPacket} (h : p.header.packetType = 0) : inDownload p = false := by
  rw [inDownload, inTransfer_whohas h, h]
  rfl

/-- The numbers of a DATA packet, in host order. -/
def LooksLikeData (h : Header) : Prop :=
  1 ≤ h.seqNum.toInt ∧ h.seqNum.toInt ≤ 512 ∧ h.ackNum = 0

/-- An entry that has not expired, or a head that nobody takes for a DATA
packet: it holds no packet back, and none is sent again for it. -/
def Harmless (now : Int) (t : PacketTracker) : Prop :=
  now - t.sendTime < 1 ∨ t.seq = -441 ∧ ¬LooksLikeData t.packet.header

/-- The loop of `re_generateWhohas` does not find the timer run out of a chunk
that is coming in. -/
def Waits (now : Int) (peer : Peer R) : Prop :=
  ∀ i < peer.fileManager.chunkCount, now - peer.fileManager.timer.getD i 0 > 10 →
    ∀ b ∈ peer.recvList, b.busy = true → b.offset ≠ peer.fileManager.offset.getD i 0

/-- One of the processes goes round its loop, and no timer fires for what is on
its way. -/
def Idles (s : System R) : Move → Prop
  | .tickReceiver now => Waits now s.receiver
  | .tickSender now => ∀ t ∈ s.sender.pTracker, Harmless now t
  | _ => False

/-- One of the packets in flight arrives, and the sender, whose memory is
given, holds none of its answers back. -/
def Arrives (memory : Stray) (s : System R) : Move → Prop
  | .deliverToReceiver i _ _ => i < s.toReceiver.length
  | .deliverToSender i now stray => i < s.toSender.length ∧ stray = memory ∧
    ∀ t ∈ dummyHead memory.dummy :: s.sender.pTracker, Harmless now t
  | _ => False

/-- Two states of a process that are the same to a download. -/
structure SameDownload (p q : Peer R) : Prop where
  recvList : p.recvList = q.recvList
  init : p.fileManager.init = q.fileManager.init
  requested : p.fileManager.requested = q.fileManager.requested
  outputFile : p.outputFile = q.outputFile
  written : p.written = q.written
  pTracker : p.pTracker = q.pTracker

/-- Two systems that differ in clocks and heads of trackers only. -/
structure Calm (s t : System R) : Prop where
  receiver : SameDownload s.receiver t.receiver
  list : s.sender.list = t.sender.list
  toReceiver : s.toReceiver = t.toReceiver
  toSender : s.toSender = t.toSender

theorem Calm.refl (s : System R) : Calm s s := ⟨⟨rfl, rfl, rfl, rfl, rfl, rfl⟩, rfl, rfl, rfl⟩

theorem Calm.trans {s t u : System R} (h : Calm s t) (h' : Calm t u) : Calm s u :=
  ⟨⟨h.receiver.recvList.trans h'.receiver.recvList, h.receiver.init.trans h'.receiver.init,
      h.receiver.requested.trans h'.receiver.requested,
      h.receiver.outputFile.trans h'.receiver.outputFile,
      h.receiver.written.trans h'.receiver.written, h.receiver.pTracker.trans h'.receiver.pTracker⟩,
    h.list.trans h'.list, h.toReceiver.trans h'.toReceiver, h.toSender.trans h'.toSender⟩

theorem exists_harmless (tracker : List PacketTracker) : ∃ now, ∀ t ∈ tracker, Harmless now t := by
  induction tracker with
  | nil => exact ⟨0, by simp⟩
  | cons t tracker ih =>
    obtain ⟨now, hnow⟩ := ih
    refine ⟨min now t.sendTime, List.forall_mem_cons.mpr ⟨Or.inl (by omega), fun u hu => ?_⟩⟩
    exact (hnow u hu).imp_left fun hlt => by omega

section Answers

variable {now : Int} {e : Endian} {t : PacketTracker} {p : DataPacket}

/-- A packet of `send_data` or of an ACK's answer, before it is sent. -/
structure IsData (p : DataPacket) : Prop where
  packetType : p.header.packetType = 3
  looks : LooksLikeData p.header

theorem isData_dataPacket (e : Endian) (data : Data R) {k : Int} (hl : 0 ≤ k) (hu : k < 512) :
    IsData (dataPacket e data k) := by
  have hseq := dataPacket_seq e data k (by omega) (by omega)
  rw [DataPacket.seq] at hseq
  refine ⟨rfl, ?_, ?_, hton32_zero e⟩
  · rw [hseq]
    omega
  · rw [hseq]
    omega

theorem Harmless.due (h : Harmless now t) : Tracking.due now t = false := by
  rw [Tracking.due, timerExpired, Bool.and_eq_false_iff]
  obtain hfresh | ⟨hhead, _⟩ := h
  · exact Or.inr (by simp [show ¬now - t.sendTime ≥ 1 by omega])
  · exact Or.inl (by simp [hhead])

theorem Harmless.passes (h : Harmless now t) (hp : IsData p) :
    (sameHeader t p && decide ((timerExpired now t).1 = -1)) = false := by
  obtain hfresh | ⟨_, hhead⟩ := h
  · simp [timerExpired, show ¬now - t.sendTime ≥ 1 by omega]
  · have hother : sameHeader t p = false := by
      by_contra hsame
      simp only [sameHeader, Bool.not_eq_false, Bool.and_eq_true, decide_eq_true_eq] at hsame
      rw [LooksLikeData, hsame.1, hsame.2] at hhead
      exact hhead hp.looks
    rw [hother, Bool.false_and]

theorem Harmless.expired (h : Harmless now t) : Harmless now (timerExpired now t).2 := by
  rw [timerExpired]
  split
  · exact h
  · exact h

theorem harmless_createTimer {tracker : List PacketTracker} {dummy : PacketTracker}
    (hdummy : Harmless now (dummyHead dummy)) (h : ∀ t ∈ tracker, Harmless now t) (seq : Int)
    (packet : DataPacket) (sock : Int) (fromAddr : SockAddr) :
    ∀ t ∈ createTimer now dummy tracker seq packet sock fromAddr, Harmless now t := by
  have hentry : Harmless now ⟨sock, seq, fromAddr, now, 0, packet⟩ :=
    Or.inl (show now - now < 1 by omega)
  cases tracker with
  | nil => exact List.forall_mem_cons.mpr ⟨hdummy, List.forall_mem_singleton.mpr hentry⟩
  | cons c cs =>
    rw [createTimer]
    split
    · exact forall_modifyFirst h fun t _ => Or.inl (show now - now < 1 by omega)
    · intro t ht
      obtain ht | ht := List.mem_append.mp ht
      · exact h t ht
      · rw [List.mem_singleton.mp ht]
        exact hentry

theorem retransmit_harmless [Rate R] (e : Endian) {tracker : List PacketTracker}
    (h : ∀ t ∈ tracker, Harmless now t) (list : List (Data R)) :
    (retransmit e now tracker list).1 = list := by
  induction tracker with
  | nil => rfl
  | cons t tracker ih =>
    obtain ⟨ht, hrest⟩ := List.forall_mem_cons.mp h
    rw [retransmit_skip ht.due, ih hrest]

variable (e) (dummy : PacketTracker) (targetId : Int) (fromAddr : SockAddr)

theorem sendResponse_harmless {st : List PacketTracker × List (SockAddr × DataPacket)}
    (hp : IsData p) (hdummy : Harmless now (dummyHead dummy)) (h : ∀ t ∈ st.1, Harmless now t) :
    (∀ t ∈ (sendResponse e now dummy targetId fromAddr st p).1, Harmless now t) ∧
      (sendResponse e now dummy targetId fromAddr st p).2 = st.2 ++ [(fromAddr, p.convert e)] := by
  have hfind : st.1.any (fun t => sameHeader t p && decide ((timerExpired now t).1 = -1)) =
      false := List.any_eq_false.mpr fun t ht => Bool.eq_false_iff.mp ((h t ht).passes hp)
  have hsearched : ∀ t ∈ bump now p st.1, Harmless now t := by
    intro t ht
    obtain ⟨u, hu, rfl⟩ := List.mem_map.mp ht
    split
    · exact (h u hu).expired
    · exact h u hu
  rw [sendResponse]
  dsimp only
  rw [hfind, if_pos rfl, if_pos hp.packetType]
  exact ⟨harmless_createTimer hdummy hsearched _ _ _ _, rfl⟩

/-- With harmless entries every DATA packet goes out, once and in order. -/
theorem sendFrom_harmless (packets : List DataPacket) (hdata : ∀ p ∈ packets, IsData p)
    (st : List PacketTracker × List (SockAddr × DataPacket))
    (hdummy : Harmless now (dummyHead dummy)) (h : ∀ t ∈ st.1, Harmless now t) :
    (sendFrom e now dummy targetId fromAddr st packets).2 =
      st.2 ++ packets.map (fun p => (fromAddr, p.convert e)) := by
  induction packets generalizing st with
  | nil => simp [sendFrom]
  | cons p packets ih =>
    obtain ⟨hp, hrest⟩ := List.forall_mem_cons.mp hdata
    obtain ⟨hafter, hsent⟩ := sendResponse_harmless e dummy targetId fromAddr hp hdummy h
    rw [sendFrom, List.foldl_cons, ← sendFrom, ih hrest _ hafter, hsent, List.append_assoc]
    rfl

end Answers

/-- What is sent of the responses, in network order and the oldest first. -/
def onWire (e : Endian) (responses : List DataPacket) : List DataPacket :=
  responses.reverse.map (fun p => p.convert e)

/-- A packet has been handled by the receiver. -/
def afterData (e : Endian) (s : System R) (receiver : Peer R) (rest responses : List DataPacket) :
    System R :=
  { s with
    receiver := receiver
    toReceiver := rest
    toSender := s.toSender ++ onWire e responses }

/-- A packet has been handled by the sender. -/
def afterAck (e : Endian) (s : System R) (sender : Peer R) (rest responses : List DataPacket) :
    System R :=
  { s with
    sender := sender
    toSender := rest
    toReceiver := s.toReceiver ++ onWire e responses
    log := s.log ++ onWire e responses }

section Moves

variable [Rate R] {link : Link} {s : System R} {p : DataPacket} {rest : List DataPacket} {i : Nat}

theorem act_reply {e : Endian} {config : Config} {peer next : Peer R} {now : Int} {stray : Stray}
    {fromAddr : SockAddr} {d : Delivery} {answer : DataPacket}
    (hd : delivery e config (.inbound now stray fromAddr p) = some d)
    (hhandled : handlePacket e config now stray p d.sockfd peer = (next, [answer]))
    (hidle : next.pTracker = []) (ht : answer.header.packetType ≠ 3) :
    act e config peer (.inbound now stray fromAddr p) = (next, [(fromAddr, answer.convert e)]) := by
  have hsent := sendResponses_reply e now stray.dummy d.sockfd fromAddr ht
  rw [act, processInboundUdp_some hd, hhandled]
  obtain ⟨list, recvList, fileManager, pTracker, outputFile, written⟩ := next
  obtain rfl : pTracker = [] := hidle
  dsimp only
  rw [hsent]

theorem deliver_data {now : Int} {stray : Stray} {next : Peer R} {answer : DataPacket}
    (hp : handOver i s.toReceiver = some (p, rest))
    (hhandled : handlePacket link.endian link.receiver now stray p link.senderId s.receiver =
      (next, [answer])) (hidle : next.pTracker = []) (ht : answer.header.packetType = 4) :
    link.step inDownload s (.deliverToReceiver i now stray) =
      afterData link.endian s next rest [answer] := by
  have hacted : act link.endian link.receiver s.receiver (.inbound now stray link.senderAddr p) =
      (next, [(link.senderAddr, answer.convert link.endian)]) :=
    act_reply (link.delivery_receiver now stray p) hhandled hidle (by rw [ht]; decide)
  have hcarried : sentTo inDownload link.senderAddr [(link.senderAddr, answer.convert link.endian)] =
      onWire link.endian [answer] := sentTo_all (by simp [inDownload, inTransfer, ht])
  rw [Link.step, hp]
  dsimp only [Link.receiverActs]
  rw [hacted, hcarried]
  rfl

theorem deliver_ack {now : Int} {memory : Stray} {next : Peer R} {packets : List DataPacket}
    (hp : handOver i s.toSender = some (p, rest))
    (hhandled : handlePacket link.endian link.sender now memory p link.receiverId s.sender =
      (next, packets)) (hdata : ∀ q ∈ packets, IsData q)
    (hharmless : ∀ t ∈ dummyHead memory.dummy :: s.sender.pTracker, Harmless now t) :
    ∃ tracker, link.step inDownload s (.deliverToSender i now memory) =
      afterAck link.endian s { next with pTracker := tracker } rest packets := by
  obtain ⟨hdummy, hold⟩ := List.forall_mem_cons.mp hharmless
  have hkept : ∀ t ∈ next.pTracker, Harmless now t := by
    intro t ht
    have hsubset := handlePacket_subset link.endian link.sender now memory p link.receiverId s.sender
    rw [hhandled] at hsubset
    exact hold t (hsubset t ht)
  have hsent := sendFrom_harmless link.endian memory.dummy link.receiverId link.receiverAddr
    packets.reverse (fun q hq => hdata q (List.mem_reverse.mp hq)) (next.pTracker, []) hdummy hkept
  have hcarried : sentTo inDownload link.receiverAddr
      (packets.reverse.map (fun q => (link.receiverAddr, q.convert link.endian))) =
      onWire link.endian packets := by
    rw [sentTo_all, List.map_map]
    · rfl
    · intro m hm
      obtain ⟨q, hq, rfl⟩ := List.mem_map.mp hm
      have h3 := (hdata q (List.mem_reverse.mp hq)).packetType
      simp [inDownload, inTransfer, h3]
  obtain ⟨tracker, hacted⟩ : ∃ tracker,
      act link.endian link.sender s.sender (.inbound now memory link.receiverAddr p) =
        ({ next with pTracker := tracker },
          packets.reverse.map (fun q => (link.receiverAddr, q.convert link.endian))) := by
    rw [act, processInboundUdp_some (link.delivery_sender now memory p), hhandled]
    dsimp only
    rw [sendResponses_eq, hsent, List.nil_append]
    exact ⟨_, rfl⟩
  refine ⟨tracker, ?_⟩
  rw [Link.step, hp]
  dsimp only [Link.senderActs]
  rw [hacted, hcarried]
  rfl

omit [Rate R] in
theorem regenerateWhohas_waits (e : Endian) (config : Config) {now : Int} {peer : Peer R}
    (h : Waits now peer) : SameDownload peer (regenerateWhohas e config now peer).1 := by
  obtain ⟨htracker, _⟩ := regenerateWhohas_sending e config now peer
  obtain ⟨hinit, hrequested⟩ :
      peer.fileManager.init = (regenerateWhohas e config now peer).1.fileManager.init ∧
        peer.fileManager.requested =
          (regenerateWhohas e config now peer).1.fileManager.requested :=
    regenerateWhohas_fileManager (P := fun fm => peer.fileManager.init = fm.init ∧
      peer.fileManager.requested = fm.requested) now (fun _ _ _ hfm => hfm) ⟨rfl, rfl⟩
  refine ⟨?_, hinit, hrequested, ?_, ?_, htracker.symm⟩
  · rw [(regenerateWhohas_asked e config now peer).1, releaseAll_eq_map]
    conv_lhs => rw [← List.map_id peer.recvList]
    apply List.map_congr_left
    intro b hb
    split
    · rename_i hreleased
      obtain ⟨a, ha, hoffset⟩ := List.mem_map.mp hreleased
      obtain ⟨_, i, hi, hlate, rfl⟩ := (mem_asked e config now).mp ha
      have hfree : b.busy = false := by
        by_contra hbusy
        have hold := of_decide_eq_true (Bool.and_eq_true_iff.mp hlate).2
        exact h i hi hold b hb (Bool.not_eq_false _ ▸ hbusy) hoffset.symm
      rw [← hfree]
      rfl
    · rfl
  · unfold regenerateWhohas
    split <;> rfl
  · unfold regenerateWhohas
    split <;> rfl

theorem calm_tickReceiver {now : Int} (hidle : s.receiver.pTracker = [])
    (h : Waits now s.receiver) :
    Calm s (link.step inDownload s (.tickReceiver now)) := by
  have hsame := regenerateWhohas_waits link.endian link.receiver h
  have hnothing : sentTo inDownload link.senderAddr (broadcast link.receiver
      (regenerateWhohas link.endian link.receiver now s.receiver).2.reverse) = [] :=
    broadcast_notCarried inDownload_whohas (regenerateWhohas_type _ _ now s.receiver)
  have hnone : (regenerateWhohas link.endian link.receiver now s.receiver).1.pTracker = [] :=
    hsame.pTracker.symm.trans hidle
  rw [Link.step]
  dsimp only [Link.receiverActs, act, peerTick]
  rw [hnone, retransmit]
  dsimp only
  rw [List.append_nil, hnothing, List.append_nil]
  exact ⟨⟨hsame.recvList, hsame.init, hsame.requested, hsame.outputFile, hsame.written, hidle⟩,
    rfl, rfl, rfl⟩

theorem calm_tickSender {now : Int} (h : ∀ t ∈ s.sender.pTracker, Harmless now t) :
    Calm s (link.step inDownload s (.tickSender now)) := by
  obtain ⟨htracker, hlist⟩ := regenerateWhohas_sending link.endian link.sender now s.sender
  have hsent : (retransmit link.endian now s.sender.pTracker s.sender.list).2.2 = [] := by
    rw [retransmit_due, List.filter_eq_nil_iff.mpr, List.map_nil]
    exact fun t ht => Bool.eq_false_iff.mp (h t ht).due
  have hnothing : sentTo inDownload link.receiverAddr (broadcast link.sender
      (regenerateWhohas link.endian link.sender now s.sender).2.reverse) = [] :=
    broadcast_notCarried inDownload_whohas (regenerateWhohas_type _ _ now s.sender)
  rw [Link.step]
  dsimp only [Link.senderActs, act, peerTick]
  rw [htracker, hlist, hsent, List.append_nil, hnothing, List.append_nil]
  refine ⟨⟨rfl, rfl, rfl, rfl, rfl, rfl⟩, ?_, rfl, rfl⟩
  exact (retransmit_harmless link.endian h s.sender.list).symm

/-- While they go round their loops, nothing happens to the download. -/
theorem calm_idles (hidle : s.receiver.pTracker = []) (ticks : List Move)
    (h : Along (link.step inDownload) Idles s ticks) :
    Calm s (run (link.step inDownload) s ticks) := by
  apply run_invariant (I := Calm s) _ s ticks (Calm.refl s) h
  intro t move ht hm
  cases move with
  | tickReceiver now => exact ht.trans (calm_tickReceiver (ht.receiver.pTracker ▸ hidle) hm)
  | tickSender now => exact ht.trans (calm_tickSender hm)
  | _ => exact absurd hm id

end Moves

end P2PCC.Idling

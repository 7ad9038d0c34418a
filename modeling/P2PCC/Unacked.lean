import P2PCC.SingleTransfer

namespace P2PCC.Unacked

open P2PCC.Lib.ByteOrder P2PCC.Lib.FirstMatch P2PCC.Lib.Runs P2PCC.Lib.Channel P2PCC.Packet
open P2PCC.Tracker P2PCC.Sender P2PCC.HandlePacket P2PCC.Peer P2PCC.Receiving P2PCC.Tracking
open P2PCC.Window P2PCC.TwoPeers P2PCC.SingleTransfer

variable {R : Type}

section Distinct

def Distinct (pTracker : List PacketTracker) : Prop := (pTracker.map PacketTracker.seq).Nodup

theorem Distinct.congr {before after : List PacketTracker} (h : Distinct before)
    (hseq : after.map PacketTracker.seq = before.map PacketTracker.seq) : Distinct after := by
  rw [Distinct, hseq]
  exact h

theorem createTimer_distinct (now : Int) (uninit : PacketTracker) {pTracker : List PacketTracker}
    {seq : Int} (packet : DataPacket) (sock : Int) (fromAddr : SockAddr) (h : Distinct pTracker)
    (hseq : seq ≠ -441) : Distinct (createTimer now uninit pTracker seq packet sock fromAddr) := by
  cases pTracker with
  | nil => simpa [createTimer, Distinct, dummyHead] using hseq.symm
  | cons t ts =>
    unfold createTimer
    dsimp only
    split
    · apply h.congr
      apply map_modifyFirst
      exact fun _ => rfl
    · rename_i hany
      have hnew : seq ∉ (t :: ts).map PacketTracker.seq := by
        intro hm
        obtain ⟨u, hu, hus⟩ := List.mem_map.mp hm
        exact hany (List.any_eq_true.mpr ⟨u, hu, by simpa using hus⟩)
      rw [Distinct, List.map_append, List.map_singleton]
      apply List.Nodup.append h (List.nodup_singleton seq)
      simpa using hnew

theorem removeFromTracker_distinct {pTracker : List PacketTracker} (socket seq : Int)
    (h : Distinct pTracker) : Distinct (removeFromTracker pTracker socket seq).2 := by
  unfold removeFromTracker
  dsimp only
  split
  · exact List.Nodup.sublist ((List.eraseP_sublist).map PacketTracker.seq) h
  · exact h

theorem removeFromTracker_drops {pTracker : List PacketTracker} {socket seq : Int}
    (h : Distinct pTracker) (hsock : ∀ t ∈ pTracker, t.seq - 1 = seq → t.sock = socket) :
    ∀ t ∈ (removeFromTracker pTracker socket seq).2, t.seq - 1 ≠ seq := by
  intro t ht hseq
  have hold := removeFromTracker_subset pTracker socket seq t ht
  have hhit : decide (t.sock = socket ∧ t.seq - 1 = seq) = true :=
    decide_eq_true ⟨hsock t hold hseq, hseq⟩
  have hany : pTracker.any (fun t => decide (t.sock = socket ∧ t.seq - 1 = seq)) = true :=
    List.any_eq_true.mpr ⟨t, hold, hhit⟩
  unfold removeFromTracker at ht
  dsimp only at ht
  rw [if_pos hany] at ht
  obtain ⟨u, l₁, l₂, _, hu, hsplit, herase⟩ := List.exists_of_eraseP
    (p := fun t => decide (t.sock = socket ∧ t.seq - 1 = seq)) hold hhit
  rw [herase] at ht
  rw [Distinct, hsplit, List.map_append, List.map_cons, List.nodup_middle, List.nodup_cons] at h
  obtain ⟨_, huseq⟩ := of_decide_eq_true hu
  apply h.1
  rw [← List.map_append, show u.seq = t.seq by omega]
  exact List.mem_map_of_mem ht

variable (e : Endian) (now : Int)

theorem retransmit_distinct [Rate R] {pTracker : List PacketTracker} (list : List (Data R))
    (h : Distinct pTracker) : Distinct (retransmit e now pTracker list).2.1 := by
  apply h.congr
  clear h
  induction pTracker generalizing list with
  | nil => rfl
  | cons t ts ih =>
    obtain ⟨_, heq⟩ | ⟨_, socket, _, heq⟩ := retransmit_cons e now t ts list
    · rw [heq, List.map_cons, List.map_cons, ih list]
    · rw [heq, List.map_cons, List.map_cons, ih (processPacketLoss socket list)]

theorem bump_distinct (packet : DataPacket) {pTracker : List PacketTracker}
    (h : Distinct pTracker) : Distinct (bump now packet pTracker) := by
  apply h.congr
  rw [bump, List.map_map]
  apply List.map_congr_left
  intro t _
  dsimp only [Function.comp_apply]
  split
  · exact timerExpired_timeless (Q := fun u => u.seq = t.seq) (fun _ _ _ hu => hu) now t rfl
  · rfl

theorem sendFrom_distinct (dummy : PacketTracker) (targetId : Int) (fromAddr : SockAddr)
    (packets : List DataPacket) (hseq : ∀ p ∈ packets, p.header.packetType = 3 → p.seq ≠ -441)
    (st : List PacketTracker × List (SockAddr × DataPacket)) (h : Distinct st.1) :
    Distinct (sendFrom e now dummy targetId fromAddr st packets).1 := by
  induction packets generalizing st with
  | nil => exact h
  | cons p packets ih =>
    have hb := bump_distinct now p h
    rw [sendFrom, List.foldl_cons, ← sendFrom]
    apply ih fun q hq => hseq q (List.mem_cons_of_mem p hq)
    obtain ⟨h3, heq⟩ | ⟨_, _, heq⟩ | ⟨_, _, _, heq⟩ :=
      sendResponse_cases e now dummy targetId fromAddr st p
    · rw [heq]
      exact createTimer_distinct now dummy _ _ _ hb (hseq p List.mem_cons_self h3)
    · rw [heq]
      exact hb
    · rw [heq]
      exact hb

end Distinct

/-- The packet of the transfer waits for its ACK. -/
structure Waits (data : Data R) (index : Int) : Prop where
  low : 0 ≤ index
  high : index ≤ 511
  state : data.state index = .unacked

/-- The entries of the tracker are those of packets that wait, one for
each at most. -/
structure Clean (data : Data R) (pTracker : List PacketTracker) : Prop where
  waits : ∀ t ∈ pTracker, t.seq ≠ -441 → t.sock = data.socket ∧ Waits data (t.seq - 1)
  distinct : Distinct pTracker

theorem Clean.congr {data other : Data R} {pTracker : List PacketTracker} (h : Clean data pTracker)
    (hsocket : other.socket = data.socket) (hstate : other.state = data.state) :
    Clean other pTracker := by
  refine ⟨fun t ht hs => ?_, h.distinct⟩
  obtain ⟨hsock, hwaits⟩ := h.waits t ht hs
  refine ⟨hsock.trans hsocket.symm, hwaits.low, hwaits.high, ?_⟩
  rw [hstate]
  exact hwaits.state

theorem Clean.acked {data : Data R} {pTracker : List PacketTracker} (h : Clean data pTracker)
    (i : Int) : Clean { data with state := Function.update data.state i .acked }
      (removeFromTracker pTracker data.socket i).2 := by
  refine ⟨fun t ht hs => ?_, removeFromTracker_distinct data.socket i h.distinct⟩
  obtain ⟨hsock, hwaits⟩ := h.waits t (removeFromTracker_subset pTracker data.socket i t ht) hs
  have hlow := hwaits.low
  have hne : t.seq - 1 ≠ i := by
    intro hi
    refine removeFromTracker_drops h.distinct ?_ t ht hi
    exact fun u hu hus => (h.waits u hu (by omega)).1
  refine ⟨hsock, hlow, hwaits.high, ?_⟩
  dsimp only
  rw [Function.update_of_ne hne]
  exact hwaits.state

theorem ackLoop_clean (n : Nat) (i : Int) {data : Data R} {pTracker : List PacketTracker}
    (h : Clean data pTracker) :
    Clean (ackLoop data.socket n i data pTracker).2.1 (ackLoop data.socket n i data pTracker).2.2 := by
  induction n generalizing i data pTracker with
  | zero => exact h
  | succ n ih =>
    cases hs : data.state i with
    | unsend =>
      rw [ackLoop, hs]
      exact h
    | unacked =>
      rw [ackLoop, hs]
      exact ih (i + 1) (h.acked i)
    | acked =>
      rw [ackLoop, hs]
      exact ih (i + 1) h

section Answers

variable [Rate R] {e : Endian} {ackNumber : Int} {data : Data R} {pTracker : List PacketTracker}

/-- A third duplicate asks for a packet that waits for its ACK. -/
def Asks (data : Data R) (ackNumber : Int) : Prop :=
  Third data ackNumber → ackNumber < 511 → Waits data (ackNumber + 1)

/-- What an ACK leaves behind: a clean tracker, and packets that wait. -/
structure Leaves (e : Endian) (answer : Data R × List PacketTracker × List DataPacket) :
    Prop where
  clean : Clean answer.1 answer.2.1
  packets : ∀ p ∈ answer.2.2, ∃ cut index, p = dataPacket e (cut : Data R) index ∧
    Waits answer.1 index

theorem acceptAck_clean (ackNumber : Int) (h : Clean data pTracker) :
    Clean (acceptAck data.socket ackNumber data pTracker).2.1
      (acceptAck data.socket ackNumber data pTracker).2.2 := by
  have hpass : Clean (ackPass data.socket ackNumber data pTracker).2.1
      (ackPass data.socket ackNumber data pTracker).2.2 := ackLoop_clean _ _ h
  cases hflag : (ackPass data.socket ackNumber data pTracker).1 with
  | false =>
    rw [acceptAck_stopped hflag]
    exact hpass
  | true =>
    have hagree := congestionControl_agree
      { (ackPass data.socket ackNumber data pTracker).2.1 with windowStart := ackNumber }
    rw [acceptAck_through hflag]
    exact hpass.congr hagree.socket hagree.state

theorem acceptAck_windowEnd (socket ackNumber : Int) (data : Data R)
    (pTracker : List PacketTracker) :
    (acceptAck socket ackNumber data pTracker).2.1.windowEnd = data.windowEnd := by
  obtain ⟨m, tracker, h | h⟩ := acceptAck_cases socket ackNumber data pTracker
  · rw [h]
    rfl
  · rw [h]
    exact (congestionControl_agree _).windowEnd

omit [Rate R] in
theorem send_leaves (hlow : -1 ≤ data.windowEnd) (hhigh : data.windowEnd ≤ 511)
    (h : Clean data pTracker) : Leaves e ((data.send e).1, pTracker, (data.send e).2) := by
  have hquota : data.windowEnd + data.quota ≤ 511 := quota_le hhigh
  rw [Data.send_eq]
  refine ⟨⟨fun t ht hs => ?_, h.distinct⟩, ?_⟩
  · obtain ⟨hsock, hwaits⟩ := h.waits t ht hs
    refine ⟨hsock, hwaits.low, hwaits.high, ?_⟩
    simp only [Data.sendMore]
    split
    · rfl
    · exact hwaits.state
  · intro p hp
    obtain ⟨i, hi, rfl⟩ := List.mem_map.mp (List.mem_reverse.mp hp)
    have hlt := List.mem_range.mp hi
    refine ⟨data, _, rfl, by omega, by omega, ?_⟩
    simp only [Data.sendMore]
    exact if_pos ⟨by omega, by omega⟩

/-- An ACK leaves a clean tracker clean when it asks for no packet that does
not wait. -/
theorem answer_leaves (hw : Unsent data) (h : Clean data pTracker) (ha : Asks data ackNumber) :
    Leaves e (data.answer e ackNumber pTracker) := by
  by_cases hack : ackNumber ≤ 512
  · by_cases hthird : Third data ackNumber
    · rw [answer_third e pTracker hack hthird]
      by_cases hlt : ackNumber < 511
      · have hwaits := ha hthird hlt
        rw [if_pos hlt]
        refine ⟨h.congr rfl rfl, fun p hp => ?_⟩
        exact ⟨_, _, List.mem_singleton.mp hp, hwaits.low, hwaits.high, hwaits.state⟩
      · rw [if_neg hlt]
        exact ⟨h.congr rfl rfl, by simp⟩
    · rw [answer_fresh e pTracker hack hthird]
      have hnoted : Clean (data.noteAck ackNumber) pTracker := h.congr rfl rfl
      have hclean := acceptAck_clean ackNumber hnoted
      have hend := acceptAck_windowEnd data.socket ackNumber (data.noteAck ackNumber) pTracker
      have hlow : -1 ≤ (data.noteAck ackNumber).windowEnd := hw.low
      have hhigh : (data.noteAck ackNumber).windowEnd ≤ 511 := hw.high
      rw [← hend] at hlow hhigh
      have hsocket : (data.noteAck ackNumber).socket = data.socket := rfl
      rw [hsocket] at hclean
      generalize acceptAck data.socket ackNumber (data.noteAck ackNumber) pTracker = r
        at hclean hlow hhigh
      obtain ⟨flag, d, tracker⟩ := r
      cases flag with
      | false => exact ⟨hclean, by simp⟩
      | true => exact send_leaves hlow hhigh hclean
  · have hanswer : data.answer e ackNumber pTracker = (data, pTracker, []) :=
      if_pos (not_le.mp hack)
    rw [hanswer]
    exact ⟨h, by simp⟩

end Answers

section Runs

variable [Rate R]

/-- Every entry belongs to a packet of a current transfer that has not been
acknowledged. -/
def TracksUnacked (s : System R) : Prop :=
  ∀ t ∈ s.sender.pTracker, t.seq ≠ -441 → ∃ data,
    getDataBySocket t.sock s.sender.list = some data ∧ Waits data (t.seq - 1)

/-- The sender's part of a system that runs one transfer. -/
structure Tidy (link : Link) (s : System R) (data : Data R) : Prop where
  list : s.sender.list = [data]
  socket : data.socket = link.receiverId
  unsent : Unsent data
  clean : Clean data s.sender.pTracker
  carried : ∀ p ∈ s.toSender, inTransfer p = true

/-- An ACK that the sender takes for a third duplicate asks for a packet that
waits. -/
def AsksUnacked (link : Link) (s : System R) : Move → Prop
  | .deliverToSender i _ _ => ∀ p rest, handOver i s.toSender = some (p, rest) →
      p.header.packetType = 4 → ∀ data, getDataBySocket link.receiverId s.sender.list = some data →
        Asks data ((p.ntoh link.endian).header.ackNum - 1).toInt
  | _ => True

variable {link : Link} {s : System R} {data : Data R}

omit [Rate R] in
theorem Tidy.get (h : Tidy link s data) :
    getDataBySocket link.receiverId s.sender.list = some data := by
  rw [h.list]
  exact getDataBySocket_head h.socket

omit [Rate R] in
theorem Tidy.tracksUnacked (h : Tidy link s data) : TracksUnacked s := by
  intro t ht hs
  obtain ⟨hsock, hwaits⟩ := h.clean.waits t ht hs
  refine ⟨data, ?_, hwaits⟩
  rw [h.list]
  exact getDataBySocket_head hsock.symm

omit [Rate R] in
theorem inTransfer_sentTo {addr : SockAddr} {out : List (SockAddr × DataPacket)} :
    ∀ p ∈ sentTo inTransfer addr out, inTransfer p = true :=
  fun _ hp => (mem_sentTo.mp hp).2

omit [Rate R] in
theorem Tidy.receive (h : Tidy link s data) {toSender : List DataPacket}
    (hcarried : ∀ p ∈ toSender, inTransfer p = true) (receiver : Peer R)
    (toReceiver log : List DataPacket) :
    Tidy link ⟨receiver, s.sender, toReceiver, toSender, log⟩ data :=
  ⟨h.list, h.socket, h.unsent, h.clean, hcarried⟩

theorem Tidy.receiverActs (h : Tidy link s data) (event : Event) :
    Tidy link (link.receiverActs inTransfer s event) data := by
  apply h.receive
  intro p hp
  obtain hp | hp := List.mem_append.mp hp
  · exact h.carried p hp
  · exact inTransfer_sentTo p hp

omit [Rate R] in
theorem answers_clean (now : Int) (stray : Stray) {pTracker : List PacketTracker}
    (hsocket : data.socket = link.receiverId) (h : Clean data pTracker)
    {packets : List DataPacket} (hpackets : ∀ p ∈ packets, p.header.packetType = 3 →
      ∃ cut index, p = dataPacket link.endian (cut : Data R) index ∧ Waits data index) :
    Clean data (answers link now stray.dummy pTracker packets).1 := by
  have hseq : ∀ p ∈ packets.reverse, p.header.packetType = 3 → Waits data (p.seq - 1) := by
    intro p hp h3
    obtain ⟨cut, index, rfl, hwaits⟩ := hpackets p (List.mem_reverse.mp hp) h3
    have hlow := hwaits.low
    have hhigh := hwaits.high
    rw [dataPacket_seq link.endian cut index (by omega) (by omega), add_sub_cancel_right]
    exact hwaits
  refine ⟨?_, ?_⟩
  · refine sendFrom_forall link.endian now stray.dummy link.receiverId link.receiverAddr
      (Q := fun t => t.seq ≠ -441 → t.sock = data.socket ∧ Waits data (t.seq - 1)) ?_ ?_ _ ?_ _ h.waits
    · exact fun _ _ _ ht => ht
    · exact fun hs => absurd rfl hs
    · exact fun p hp h3 _ _ _ => ⟨hsocket.symm, hseq p hp h3⟩
  · apply sendFrom_distinct
    · intro p hp h3
      have := (hseq p hp h3).low
      omega
    · exact h.distinct

theorem tidy_deliver (h : Tidy link s data) (p : DataPacket) (rest : List DataPacket)
    (hp : inTransfer p = true) (hrest : ∀ q ∈ rest, inTransfer q = true) (now : Int) (stray : Stray)
    (ha : p.header.packetType = 4 → Asks data ((p.ntoh link.endian).header.ackNum - 1).toInt) :
    ∃ after, Tidy link (link.senderActs inTransfer { s with toSender := rest }
      (.inbound now stray link.receiverAddr p)) after := by
  have hact := processInboundUdp_some (link.delivery_sender now stray p) s.sender
  dsimp only at hact
  have hcases : p.header.packetType = 3 ∨ p.header.packetType = 4 := by
    simpa [inTransfer] using hp
  obtain h3 | h4 := hcases
  · have htype := handlePacket_replyType link.endian link.sender now stray p link.receiverId s.sender
    rw [handlePacket_data _ _ _ _ _ _ h3] at htype hact
    rw [h3] at htype
    refine ⟨data, ?_, h.socket, h.unsent, ?_, hrest⟩
    · dsimp only [Link.senderActs, act]
      rw [hact]
      exact h.list
    · dsimp only [Link.senderActs, act]
      rw [hact]
      apply answers_clean now stray h.socket h.clean
      intro q hq hq3
      have hreply := htype q hq
      rw [hq3] at hreply
      exact absurd hreply (by decide)
  · have heq := handleAck_single link.endian ((p.ntoh link.endian).header.ackNum - 1).toInt
      s.sender.pTracker h.list h.socket
    have hanswer := data.answer_answered link.endian
      ((p.ntoh link.endian).header.ackNum - 1).toInt s.sender.pTracker
    have hleaves := answer_leaves (e := link.endian) h.unsent h.clean (ha h4)
    generalize data.answer link.endian ((p.ntoh link.endian).header.ackNum - 1).toInt
      s.sender.pTracker = answer at heq hanswer hleaves
    obtain ⟨after, tracker, packets⟩ := answer
    have hsocket : after.socket = link.receiverId := hanswer.identity.1.trans h.socket
    rw [handlePacket_ack _ _ _ _ _ _ h4, handleAckPacket, heq] at hact
    refine ⟨after, ?_, hsocket, answered_unsent h.unsent hanswer, ?_, hrest⟩
    · dsimp only [Link.senderActs, act]
      rw [hact]
    · dsimp only [Link.senderActs, act]
      rw [hact]
      exact answers_clean now stray hsocket hleaves.clean fun q hq _ => hleaves.packets q hq

theorem tidy_tick (h : Tidy link s data) (now : Int) :
    ∃ after, Tidy link (link.senderActs inTransfer s (.tick now)) after := by
  obtain ⟨htracker, hlist⟩ := regenerateWhohas_sending link.endian link.sender now s.sender
  obtain ⟨after, hafter, hagree, _⟩ := retransmit_single link.endian now s.sender.pTracker data
  have hclean : Clean after (retransmit link.endian now s.sender.pTracker [data]).2.1 := by
    refine Clean.congr ⟨?_, retransmit_distinct link.endian now [data] h.clean.distinct⟩
      hagree.socket hagree.state
    exact retransmit_forall (Q := fun t => t.seq ≠ -441 → t.sock = data.socket ∧
      Waits data (t.seq - 1)) (fun _ _ _ ht => ht) link.endian (fun _ _ ht => ht) now _ _
      h.clean.waits
  refine ⟨after, ?_, hagree.socket.trans h.socket, h.unsent.agree hagree, ?_, h.carried⟩
  · dsimp only [Link.senderActs, act, peerTick]
    rw [htracker, hlist, h.list]
    exact hafter
  · dsimp only [Link.senderActs, act, peerTick]
    rw [htracker, hlist, h.list]
    exact hclean

theorem tidy_step (h : Tidy link s data) (move : Move) (ha : AsksUnacked link s move) :
    ∃ after, Tidy link (link.step inTransfer s move) after := by
  cases move with
  | faultToReceiver fault => exact ⟨data, h.receive h.carried _ _ _⟩
  | faultToSender fault =>
    exact ⟨data, h.receive (fun p hp => h.carried p (Fault.mem_of_mem_apply hp)) _ _ _⟩
  | deliverToReceiver i now stray =>
    rw [Link.step]
    cases ht : handOver i s.toReceiver with
    | none => exact ⟨data, h⟩
    | some taken => exact ⟨data, (h.receive h.carried _ _ _).receiverActs _⟩
  | deliverToSender i now stray =>
    rw [Link.step]
    cases ht : handOver i s.toSender with
    | none => exact ⟨data, h⟩
    | some taken =>
      obtain ⟨p, rest⟩ := taken
      obtain ⟨hp, hrest⟩ := handOver_mem ht
      exact tidy_deliver h p rest (h.carried p hp) (fun q hq => h.carried q (hrest q hq)) now stray
        fun h4 => ha p rest ht h4 data h.get
  | tickReceiver now => exact ⟨data, h.receiverActs _⟩
  | tickSender now => exact tidy_tick h now
  | request now chunkfile outputfile => exact ⟨data, h.receiverActs _⟩

theorem tidy_start (link : Link) (now : Int) (stray : Stray) (offset : Int) (bytes : Int → Byte)
    (receiver : Peer R) : ∃ data, Tidy link (start link now stray offset bytes receiver) data := by
  have hrep := represents_start (R := R) link now stray offset bytes receiver
  have hnew := unsent_newElement (R := R) stray.data link.receiverId offset bytes
  refine ⟨_, hrep.list, rfl, hnew.sendMore 1 (by simp [newElement]), ?_, ?_⟩
  · rw [hrep.pTracker]
    refine ⟨List.forall_mem_cons.mpr ⟨fun hs => absurd rfl hs, ?_⟩, ?_⟩
    · refine List.forall_mem_singleton.mpr fun _ => ⟨rfl, le_rfl, by dsimp only; omega, ?_⟩
      dsimp only [startTransfer, Data.sendMore, newElement]
      exact if_pos (by omega)
    · simp [Distinct, startTransfer, dummyHead]
  · exact fun p hp => absurd hp List.not_mem_nil

/-- Over any run of a transfer, the tracker holds nothing but packets that wait
for their ACK when every third duplicate asks for one of them. -/
theorem tracks_unacked (link : Link) (now : Int) (stray : Stray) (offset : Int)
    (bytes : Int → Byte) (receiver : Peer R) (moves : List Move)
    (hasks : Along (link.step inTransfer) (AsksUnacked link)
      (start link now stray offset bytes receiver) moves) :
    Throughout (link.step inTransfer) TracksUnacked (start link now stray offset bytes receiver)
      moves := by
  have hstep : ∀ (s : System R) (move : Move), (∃ data, Tidy link s data) →
      AsksUnacked link s move → ∃ data, Tidy link (link.step inTransfer s move) data := by
    rintro s move ⟨data, h⟩ ha
    exact tidy_step h move ha
  apply Throughout.mono (I := fun s : System R => ∃ data, Tidy link s data)
  · rintro s ⟨data, h⟩
    exact h.tracksUnacked
  · exact throughout_of_invariant hstep _ moves (tidy_start link now stray offset bytes receiver) hasks

end Runs

/-- The transfer of the link below, whose fields did not happen to hold an ACK
number. -/
def unacknowledged : System ℚ :=
  start pair 0 { cleared with data := ⟨7, 0, fun _ => .unsend⟩ } 0 (fun _ => 7) Peer.init

/-- The first packet arrives and is acknowledged, and all is sent again. -/
theorem tracks_unacked_run : Throughout (pair.step inTransfer) TracksUnacked unacknowledged
    [.deliverToReceiver 0 0 cleared, .deliverToSender 0 0 cleared, .tickSender 3] := by
  apply tracks_unacked
  refine ⟨trivial, ?_, trivial, trivial⟩
  intro p rest _ _ data hd hthird _
  have hcount : (getDataBySocket pair.receiverId (pair.step inTransfer unacknowledged
      (.deliverToReceiver 0 0 cleared)).sender.list).map Data.countAck = some 0 := by
    decide +kernel
  have hzero := (congrArg (Option.map Data.countAck) hd).symm.trans hcount
  have hone := hthird.2
  rw [Option.some.inj hzero] at hone
  exact absurd hone (by decide)

/-- Three copies of the ACK of packet 1 arrive after that of packet 2. -/
def delayedAcks : List Move :=
  [.deliverToReceiver 0 0 cleared, .faultToSender (.duplicate 0), .faultToSender (.duplicate 0),
    .faultToSender (.duplicate 0), .deliverToSender 0 0 cleared, .deliverToReceiver 0 0 cleared,
    .deliverToSender 3 0 cleared, .deliverToSender 0 0 cleared, .deliverToSender 0 0 cleared,
    .deliverToSender 0 0 cleared]

/-- Packet 2 is back on the tracker after it has been acknowledged. -/
theorem tracks_acked : ¬∀ moves, Throughout (pair.step inTransfer) TracksUnacked unacknowledged moves := by
  intro h
  have hlast := Throughout.last _ _ (h delayedAcks)
  have htracked : (run (pair.step inTransfer) unacknowledged delayedAcks).sender.pTracker.any
      (fun t => decide (t.sock = 1 ∧ t.seq = 2)) = true := by
    decide +kernel
  have hacked : (getDataBySocket 1 (run (pair.step inTransfer) unacknowledged
      delayedAcks).sender.list).map (fun data => data.state 1) = some .acked := by
    decide +kernel
  obtain ⟨t, ht, hkey⟩ := List.any_eq_true.mp htracked
  obtain ⟨hsock, hseq⟩ := of_decide_eq_true hkey
  obtain ⟨data, hd, hwaits⟩ := hlast t ht (by omega)
  rw [hsock] at hd
  have hstate := hwaits.state
  rw [hd, Option.map_some, Option.some.injEq] at hacked
  rw [hseq, show (2 : Int) - 1 = 1 from rfl, hacked] at hstate
  cases hstate

end P2PCC.Unacked

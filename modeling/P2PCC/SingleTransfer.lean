import P2PCC.OutputFile
import P2PCC.TwoPeers
import P2PCC.Window

namespace P2PCC.SingleTransfer

open P2PCC.Lib.ByteOrder P2PCC.Lib.Runs P2PCC.Lib.Channel P2PCC.Packet P2PCC.ChunkFile
open P2PCC.Tracker P2PCC.Sender P2PCC.Receiver P2PCC.Manager P2PCC.HandlePacket P2PCC.Peer
open P2PCC.Receiving P2PCC.Buffers P2PCC.OutputFile P2PCC.Tracking P2PCC.Window P2PCC.TwoPeers

variable {R : Type}

/-- A packet that its receiver takes for slice `k` of a chunk. -/
structure IsSlice (e : Endian) (bytes : Int → Byte) (k : Int) (p : DataPacket) : Prop where
  packetType : p.header.packetType = 3
  low : 0 ≤ k
  high : k < 512
  seq : (p.ntoh e).seq = k + 1
  length : (p.ntoh e).length = 1024
  data : p.data = slice bytes k

/-- One chunk on its way: the sender's element and tracker, the receiver's
buffer, and the packets in flight. -/
structure Transfer (R : Type) where
  data : Data R
  pTracker : List PacketTracker
  buffer : RecvBuffer
  toReceiver : List DataPacket
  toSender : List DataPacket
  log : List DataPacket

/-- The sending loop after an ACK. -/
def answers (link : Link) (now : Int) (dummy : PacketTracker) (pTracker : List PacketTracker)
    (packets : List DataPacket) : List PacketTracker × List (SockAddr × DataPacket) :=
  sendFrom link.endian now dummy link.receiverId link.receiverAddr (pTracker, []) packets.reverse

/-- What can happen to a transfer: packets are lost or repeated, the buffer
takes a DATA packet, the sender takes an ACK, or a timer expires. A head for
an empty tracker meets `D`. -/
inductive Moves [Rate R] (link : Link) (D : PacketTracker → Prop) (x : Transfer R) :
    Transfer R → Prop
  | lost (toReceiver toSender : List DataPacket) (busy : Bool)
      (hreceiver : ∀ p ∈ toReceiver, p ∈ x.toReceiver) (hsender : ∀ p ∈ toSender, p ∈ x.toSender) :
      Moves link D x
        { x with
          buffer := { x.buffer with busy := busy }
          toReceiver := toReceiver
          toSender := toSender }
  | received (p : DataPacket) (rest : List DataPacket) (past : Int → Int) (busy : Bool)
      (hp : p ∈ x.toReceiver) (hrest : ∀ q ∈ rest, q ∈ x.toReceiver) (hpast : past 512 ≠ 1) :
      Moves link D x
        { x with
          buffer := { x.buffer.recv past (p.ntoh link.endian) with busy := busy }
          toReceiver := rest
          toSender := x.toSender ++ [(ackPacket link.endian
            (x.buffer.recv past (p.ntoh link.endian)).expected).convert link.endian] }
  | answered (p : DataPacket) (rest : List DataPacket) (now : Int) (stray : Stray) (after : Data R)
      (tracker : List PacketTracker) (packets : List DataPacket)
      (hp : p ∈ x.toSender) (hrest : ∀ q ∈ rest, q ∈ x.toSender)
      (hdummy : D (dummyHead stray.dummy))
      (hanswer : Answered link.endian ((p.ntoh link.endian).header.ackNum - 1).toInt x.data
        x.pTracker after tracker packets) :
      Moves link D x
        { x with
          data := after
          pTracker := (answers link now stray.dummy tracker packets).1
          toReceiver := x.toReceiver ++
            (answers link now stray.dummy tracker packets).2.map Prod.snd
          toSender := rest
          log := x.log ++ (answers link now stray.dummy tracker packets).2.map Prod.snd }
  | expired (now : Int) (after : Data R) (out : List DataPacket)
      (hagree : after.Agree x.data)
      (hwindow : after.sendWindow = x.data.sendWindow ∨ after.sendWindow = 1)
      (hout : ∀ p ∈ out, ∃ t ∈ x.pTracker, t.seq ≠ -441 ∧ p = resend link.endian t) :
      Moves link D x
        { x with
          data := after
          pTracker := (retransmit link.endian now x.pTracker [x.data]).2.1
          toReceiver := x.toReceiver ++ out
          log := x.log ++ out }

/-- Before the first slot is filled there is nothing about but its packet. -/
structure OnlyFirst (link : Link) (x : Transfer R) : Prop where
  toReceiver : ∀ p ∈ x.toReceiver, (p.ntoh link.endian).seq = 1
  toSender : ∀ p, p ∉ x.toSender
  tracked : ∀ t ∈ x.pTracker, t.seq ≠ -441 → t.seq = 1

/-- A cumulative ACK: all slots up to the index before its number are filled. -/
structure IsAck (link : Link) (b : RecvBuffer) (p : DataPacket) : Prop where
  packetType : p.header.packetType = 4
  low : 1 ≤ (p.ntoh link.endian).header.ackNum.toInt
  high : (p.ntoh link.endian).header.ackNum.toInt ≤ 512
  filled : ∀ i, 0 ≤ i → i < (p.ntoh link.endian).header.ackNum.toInt → (b.chunks i).recved = true

structure Safe (link : Link) (bytes : Int → Byte) (x : Transfer R) : Prop where
  socket : x.data.socket = link.receiverId
  content : x.data.content = bytes
  unsent : Unsent x.data
  bufferSocket : x.buffer.socket = link.senderId
  faithful : Faithful (fun _ => bytes) x.buffer
  expectedLow : 1 ≤ x.buffer.expected
  expectedHigh : x.buffer.expected ≤ 512
  filled : ∀ i, 1 ≤ i → i < x.buffer.expected → (x.buffer.chunks i).recved = true
  first : (x.buffer.chunks 0).recved = true ∨ OnlyFirst link x
  toReceiver : ∀ p ∈ x.toReceiver, ∃ k, IsSlice link.endian bytes k p
  toSender : ∀ p ∈ x.toSender, IsAck link x.buffer p
  tracked : ∀ t ∈ x.pTracker, t.seq ≠ -441 →
    IsSlice link.endian bytes (t.seq - 1) (resend link.endian t)
  acked : ∀ i, 0 ≤ i → i < 512 → x.data.state i = .acked → (x.buffer.chunks i).recved = true

section Slices

variable (e : Endian)

theorem isSlice_dataPacket (data : Data R) {k : Int} (hl : 0 ≤ k) (hu : k < 512) :
    IsSlice e data.content k ((dataPacket e data k).convert e) := by
  obtain ⟨hseq, hlength⟩ := dataPacket_received e data hl hu
  refine ⟨?_, hl, hu, hseq, hlength, ?_⟩
  · rw [convert_packetType, dataPacket_packetType]
  · rw [convert_data, dataPacket_data]

end Slices

section Receiving

variable {link : Link} {bytes : Int → Byte} {b : RecvBuffer} {p : DataPacket} {k : Int}

theorem faithful_busy {chunk : Chunks} (h : Faithful chunk b) (busy : Bool) :
    Faithful chunk { b with busy := busy } :=
  ⟨⟨h.totalRecv, h.slot, h.content⟩, h.source⟩

theorem IsSlice.recv {chunk : Chunks} (hb : Faithful chunk b)
    (h : IsSlice link.endian (chunk b.offset) k p) (past : Int → Int) :
    Faithful chunk (b.recv past (p.ntoh link.endian)) := by
  have hseq := h.seq
  have hlow := h.low
  have hhigh := h.high
  cases hr : (b.chunks ((p.ntoh link.endian).seq - 1)).recved with
  | true => exact hb.recv_duplicate past _ hr
  | false =>
    refine hb.recv_new past ⟨p.ntoh link.endian, by omega, by omega, h.length⟩ ?_
    dsimp only
    rw [ntoh_data, h.data, hseq, add_sub_cancel_right, List.take_of_length_le (by simp)]

theorem recv_expected_spec (past : Int → Int) (packet : DataPacket) (hpast : past 512 ≠ 1)
    (hlow : 1 ≤ b.expected) (hhigh : b.expected ≤ 512)
    (hfilled : ∀ i, 1 ≤ i → i < b.expected → (b.chunks i).recved = true) :
    1 ≤ (b.recv past packet).expected ∧ (b.recv past packet).expected ≤ 512 ∧
      ∀ i, 1 ≤ i → i < (b.recv past packet).expected →
        ((b.recv past packet).chunks i).recved = true := by
  obtain ⟨hl, _, hall, _, hend⟩ := recv_scanned past packet hlow (by omega)
    (fun i hi hn _ => hfilled i hi hn)
  have hu : (b.recv past packet).expected ≤ 512 := by
    by_contra hgt
    have := (hend hhigh (by omega)).mpr hpast
    omega
  exact ⟨by omega, hu, fun i hi hn => hall i hi hn (by omega)⟩

theorem isAck_ackPacket (hlow : 1 ≤ b.expected) (hhigh : b.expected ≤ 512)
    (hfirst : (b.chunks 0).recved = true)
    (hfilled : ∀ i, 1 ≤ i → i < b.expected → (b.chunks i).recved = true) :
    IsAck link b ((ackPacket link.endian b.expected).convert link.endian) := by
  have hnum : (((ackPacket link.endian b.expected).convert link.endian).ntoh
      link.endian).header.ackNum.toInt = b.expected := by
    rw [ntoh_convert_ackNum]
    exact toInt_ofInt32 (by omega) (by omega)
  refine ⟨?_, ?_, ?_, ?_⟩
  · rw [convert_packetType, ackPacket_packetType]
  · rwa [hnum]
  · rwa [hnum]
  · intro i hi hn
    rw [hnum] at hn
    by_cases hz : i = 0
    · rwa [hz]
    · exact hfilled i (by omega) hn

theorem IsAck.mono {b' : RecvBuffer} (h : IsAck link b p)
    (hb : ∀ i, (b.chunks i).recved = true → (b'.chunks i).recved = true) : IsAck link b' p :=
  ⟨h.packetType, h.low, h.high, fun i hi hn => hb i (h.filled i hi hn)⟩

theorem IsAck.index (h : IsAck link b p) : ((p.ntoh link.endian).header.ackNum - 1).toInt =
    (p.ntoh link.endian).header.ackNum.toInt - 1 := toInt_sub_one h.low

end Receiving

section Safety

variable [Rate R] {link : Link} {bytes : Int → Byte} {x : Transfer R}

omit [Rate R] in
theorem safe_lost (h : Safe link bytes x) {toReceiver toSender : List DataPacket} (busy : Bool)
    (hreceiver : ∀ p ∈ toReceiver, p ∈ x.toReceiver) (hsender : ∀ p ∈ toSender, p ∈ x.toSender) :
    Safe link bytes
      { x with
        buffer := { x.buffer with busy := busy }
        toReceiver := toReceiver
        toSender := toSender } := by
  refine ⟨h.socket, h.content, h.unsent, h.bufferSocket, faithful_busy h.faithful busy, h.expectedLow,
    h.expectedHigh, h.filled, ?_, ?_, ?_, h.tracked, h.acked⟩
  · obtain hfirst | honly := h.first
    · exact Or.inl hfirst
    · refine Or.inr ⟨?_, ?_, honly.tracked⟩
      · exact fun p hp => honly.toReceiver p (hreceiver p hp)
      · exact fun p hp => honly.toSender p (hsender p hp)
  · exact fun p hp => h.toReceiver p (hreceiver p hp)
  · exact fun p hp => (h.toSender p (hsender p hp)).mono fun i hi => hi

omit [Rate R] in
theorem safe_received (h : Safe link bytes x) {p : DataPacket} {rest : List DataPacket}
    {past : Int → Int} (busy : Bool) (hp : p ∈ x.toReceiver) (hrest : ∀ q ∈ rest, q ∈ x.toReceiver)
    (hpast : past 512 ≠ 1) :
    Safe link bytes
      { x with
        buffer := { x.buffer.recv past (p.ntoh link.endian) with busy := busy }
        toReceiver := rest
        toSender := x.toSender ++ [(ackPacket link.endian
          (x.buffer.recv past (p.ntoh link.endian)).expected).convert link.endian] } := by
  obtain ⟨k, hk⟩ := h.toReceiver p hp
  obtain ⟨hlow, hhigh, hfilled⟩ := recv_expected_spec past (p.ntoh link.endian) hpast h.expectedLow
    h.expectedHigh h.filled
  have hmono : ∀ i, (x.buffer.chunks i).recved = true →
      ((x.buffer.recv past (p.ntoh link.endian)).chunks i).recved = true :=
    fun i => recv_recved_mono past (p.ntoh link.endian)
  -- the first packet is the only one that can come before slot 0 is filled
  have hfirst : ((x.buffer.recv past (p.ntoh link.endian)).chunks 0).recved = true := by
    obtain hfirst | honly := h.first
    · exact hmono 0 hfirst
    · rw [recv_recved, honly.toReceiver p hp]
      simp
  refine ⟨h.socket, h.content, h.unsent, ?_, faithful_busy (hk.recv h.faithful past) busy, hlow, hhigh,
    hfilled, Or.inl hfirst, ?_, ?_, h.tracked, ?_⟩
  · exact (recv_socket x.buffer past _).trans h.bufferSocket
  · exact fun q hq => h.toReceiver q (hrest q hq)
  · intro q hq
    obtain hq | hq := List.mem_append.mp hq
    · exact (h.toSender q hq).mono hmono
    · rw [List.mem_singleton.mp hq]
      exact (isAck_ackPacket hlow hhigh hfirst hfilled).mono fun i hi => hi
  · exact fun i hi hn hs => hmono i (h.acked i hi hn hs)

theorem answered_isSlice (h : Safe link bytes x) {p : DataPacket} (hp : p ∈ x.toSender)
    {after : Data R} {tracker : List PacketTracker} {packets : List DataPacket}
    (hanswer : Answered link.endian ((p.ntoh link.endian).header.ackNum - 1).toInt x.data
      x.pTracker after tracker packets) :
    ∀ q ∈ packets, ∃ k, q.seq = k + 1 ∧ IsSlice link.endian bytes k (q.convert link.endian) ∧
      Sends x.data ((p.ntoh link.endian).header.ackNum - 1).toInt (k + 1) := by
  have hack := h.toSender p hp
  have hl := hack.low
  have hend := h.unsent.low
  have hindex := hack.index
  intro q hq
  obtain ⟨k, hk, hseq, rfl⟩ := answered_sends h.unsent (by omega) hanswer q hq
  have hrange : 1 ≤ k ∧ k ≤ 512 := by
    obtain ⟨_, ⟨_, _, hlt, rfl⟩ | ⟨_, _, hlt, hle⟩⟩ := hk <;> omega
  refine ⟨k - 1, by omega, ?_, by rwa [sub_add_cancel]⟩
  rw [← h.content]
  exact isSlice_dataPacket link.endian x.data (by omega) (by omega)

theorem mem_answers (now : Int) (stray : Stray) (tracker : List PacketTracker)
    {packets : List DataPacket} (hdata : ∀ p ∈ packets, p.header.packetType = 3) :
    ∀ m ∈ (answers link now stray.dummy tracker packets).2, m.1 = link.receiverAddr ∧
      ∃ p ∈ packets, m.2 = p.convert link.endian := by
  intro m hm
  obtain hm | ⟨p, hp, haddr, _, hpacket⟩ := sendFrom_sent link.endian now stray.dummy
    link.receiverId link.receiverAddr (H := fun _ => True) (Q := fun _ _ => True)
    (fun _ _ _ _ => trivial) (fun _ _ _ _ _ => trivial) trivial _
    (fun _ _ _ _ _ => ⟨trivial, trivial⟩) (fun _ _ _ _ _ _ => trivial) (tracker, [])
    (fun _ _ => trivial) m hm
  · simp at hm
  · have hmem := List.mem_reverse.mp hp
    exact ⟨haddr, p, hmem, (hpacket (hdata p hmem)).1⟩

theorem safe_answered (h : Safe link bytes x) {p : DataPacket} {rest : List DataPacket}
    (now : Int) (stray : Stray) {after : Data R} {tracker : List PacketTracker}
    {packets : List DataPacket} (hp : p ∈ x.toSender) (hrest : ∀ q ∈ rest, q ∈ x.toSender)
    (hanswer : Answered link.endian ((p.ntoh link.endian).header.ackNum - 1).toInt x.data
      x.pTracker after tracker packets) :
    Safe link bytes
      { x with
        data := after
        pTracker := (answers link now stray.dummy tracker packets).1
        toReceiver := x.toReceiver ++ (answers link now stray.dummy tracker packets).2.map Prod.snd
        toSender := rest
        log := x.log ++ (answers link now stray.dummy tracker packets).2.map Prod.snd } := by
  have hack := h.toSender p hp
  have hslices := answered_isSlice h hp hanswer
  have hdata : ∀ q ∈ packets, q.header.packetType = 3 := by
    intro q hq
    obtain ⟨k, _, hk, _⟩ := hslices q hq
    rw [← convert_packetType link.endian q]
    exact hk.packetType
  obtain ⟨hsocket, _, hcontent⟩ := hanswer.identity
  refine ⟨hsocket.trans h.socket, hcontent.trans h.content, answered_unsent h.unsent hanswer,
    h.bufferSocket, h.faithful, h.expectedLow, h.expectedHigh, h.filled, Or.inl ?_, ?_, ?_, ?_, ?_⟩
  · exact hack.filled 0 le_rfl (by have := hack.low; omega)
  · intro q hq
    obtain hq | hq := List.mem_append.mp hq
    · exact h.toReceiver q hq
    · obtain ⟨m, hm, rfl⟩ := List.mem_map.mp hq
      obtain ⟨_, c, hc, hcm⟩ := mem_answers now stray tracker hdata m hm
      obtain ⟨k, _, hk, _⟩ := hslices c hc
      rw [hcm]
      exact ⟨k, hk⟩
  · exact fun q hq => h.toSender q (hrest q hq)
  · refine sendFrom_forall link.endian now stray.dummy link.receiverId link.receiverAddr
      (Q := fun t => t.seq ≠ -441 → IsSlice link.endian bytes (t.seq - 1) (resend link.endian t))
      (fun t _ _ ht => ht) (fun hs => absurd rfl hs) packets.reverse ?_ (tracker, []) ?_
    · intro q hq _ sendTime expireTime _
      obtain ⟨k, hseq, hk, _⟩ := hslices q (List.mem_reverse.mp hq)
      rw [resend_new]
      dsimp only
      rwa [hseq, add_sub_cancel_right]
    · exact fun t ht => h.tracked t (hanswer.subset t ht)
  · intro i hi hn hs
    obtain hs | hle := answered_acked_of hanswer hs
    · exact h.acked i hi hn hs
    · rw [hack.index] at hle
      exact hack.filled i hi (by omega)

theorem safe_expired (h : Safe link bytes x) (now : Int) {after : Data R} {out : List DataPacket}
    (hagree : after.Agree x.data)
    (hout : ∀ p ∈ out, ∃ t ∈ x.pTracker, t.seq ≠ -441 ∧ p = resend link.endian t) :
    Safe link bytes
      { x with
        data := after
        pTracker := (retransmit link.endian now x.pTracker [x.data]).2.1
        toReceiver := x.toReceiver ++ out
        log := x.log ++ out } := by
  refine ⟨hagree.socket.trans h.socket, hagree.content.trans h.content, h.unsent.agree hagree,
    h.bufferSocket, h.faithful, h.expectedLow, h.expectedHigh, h.filled, ?_, ?_, h.toSender, ?_, ?_⟩
  · obtain hfirst | honly := h.first
    · exact Or.inl hfirst
    · refine Or.inr ⟨?_, honly.toSender, ?_⟩
      · intro p hp
        obtain hp | hp := List.mem_append.mp hp
        · exact honly.toReceiver p hp
        · obtain ⟨t, ht, hs, rfl⟩ := hout p hp
          rw [(h.tracked t ht hs).seq, sub_add_cancel]
          exact honly.tracked t ht hs
      · exact retransmit_forall (Q := fun t => t.seq ≠ -441 → t.seq = 1) (fun t _ _ ht => ht)
          link.endian (fun t _ ht => ht) now _ _ honly.tracked
  · intro p hp
    obtain hp | hp := List.mem_append.mp hp
    · exact h.toReceiver p hp
    · obtain ⟨t, ht, hs, rfl⟩ := hout p hp
      exact ⟨t.seq - 1, h.tracked t ht hs⟩
  · exact retransmit_forall
      (Q := fun t => t.seq ≠ -441 → IsSlice link.endian bytes (t.seq - 1) (resend link.endian t))
      (fun t _ _ ht => ht) link.endian (fun t _ ht => ht) now _ _ h.tracked
  · intro i hi hn hs
    rw [hagree.state] at hs
    exact h.acked i hi hn hs

/-- Whatever happens to a transfer, it stays safe. -/
theorem safe_moves {D : PacketTracker → Prop} {y : Transfer R} (h : Safe link bytes x)
    (hm : Moves link D x y) : Safe link bytes y := by
  cases hm with
  | lost toReceiver toSender busy hreceiver hsender => exact safe_lost h busy hreceiver hsender
  | received p rest past busy hp hrest hpast => exact safe_received h busy hp hrest hpast
  | answered p rest now stray after tracker packets hp hrest hdummy hanswer =>
    exact safe_answered h now stray hp hrest hanswer
  | expired now after out hagree hwindow hout => exact safe_expired h now hagree hout

end Safety

/-- The link carries nothing but the packets of a transfer. -/
def inTransfer (p : DataPacket) : Bool := p.header.packetType = 3 || p.header.packetType = 4

/-- The two processes of a link run one transfer and nothing else. -/
structure Represents (link : Link) (s : System R) (x : Transfer R) : Prop where
  list : s.sender.list = [x.data]
  pTracker : s.sender.pTracker = x.pTracker
  recvList : s.receiver.recvList = [x.buffer]
  idle : s.receiver.pTracker = []
  toReceiver : s.toReceiver = x.toReceiver
  toSender : s.toSender = x.toSender
  log : s.log = x.log

/-- The scan for the next ACK does not find the memory past the array TRUE. -/
def Clear : Move → Prop
  | .deliverToReceiver _ _ stray => stray.past 512 ≠ 1
  | _ => True

/-- The head an empty tracker would get meets a condition. -/
def HeadMeets (D : PacketTracker → Prop) : Move → Prop
  | .deliverToSender _ _ stray => D (dummyHead stray.dummy)
  | _ => True

section Simulation

variable [Rate R] {link : Link} {D : PacketTracker → Prop} {bytes : Int → Byte} {s : System R}
  {x : Transfer R}

theorem sentTo_all {carries : DataPacket → Bool} {addr : SockAddr}
    {out : List (SockAddr × DataPacket)} (h : ∀ m ∈ out, m.1 = addr ∧ carries m.2 = true) :
    sentTo carries addr out = out.map Prod.snd := by
  rw [sentTo, List.filter_eq_self.mpr]
  intro m hm
  simp [h m hm]

theorem sentTo_none {carries : DataPacket → Bool} {addr : SockAddr}
    {out : List (SockAddr × DataPacket)} (h : ∀ m ∈ out, carries m.2 = false) :
    sentTo carries addr out = [] := by
  rw [sentTo, List.filter_eq_nil_iff.mpr, List.map_nil]
  intro m hm
  simp [h m hm]

theorem released (b : RecvBuffer) (offset : Int) (recvList : List RecvBuffer)
    (h : ∃ busy, recvList = [{ b with busy := busy }]) :
    ∃ busy, releaseBuffer offset recvList = [{ b with busy := busy }] := by
  obtain ⟨busy, rfl⟩ := h
  rw [releaseBuffer, List.map_singleton]
  split
  · exact ⟨false, rfl⟩
  · exact ⟨busy, rfl⟩

omit [Rate R] in
theorem handleData_single (e : Endian) (now : Int) (stray : Stray) {sockfd : Int}
    {packet : DataPacket} {peer : Peer R} {b : RecvBuffer} (hpeer : peer.recvList = [b])
    (hb : b.socket = sockfd) (hseq : packet.seq ≤ 512) :
    (∃ busy, (handleData e now stray sockfd packet peer).1.recvList =
        [{ b.recv stray.past packet with busy := busy }]) ∧
      (handleData e now stray sockfd packet peer).2 =
        [ackPacket e (b.recv stray.past packet).expected] := by
  have hr := recvData_split e stray.past packet sockfd [] [] b hseq (by simp) hb
  rw [List.nil_append, List.nil_append, ← hpeer] at hr
  refine ⟨?_, ?_⟩
  · have hstored : ∃ busy, (recvData e stray.past packet sockfd peer.recvList).1 =
        [{ b.recv stray.past packet with busy := busy }] := by
      rw [hr]
      exact ⟨(b.recv stray.past packet).busy, rfl⟩
    exact checkFileManager_induction (P := fun l => ∃ busy, l =
      [{ b.recv stray.past packet with busy := busy }]) (fun o l => released _ o l) _ _ hstored
  · rw [handleData_reply, hr]
    rfl

theorem handleAck_single (e : Endian) {socket : Int} (ackNumber : Int)
    (pTracker : List PacketTracker) {list : List (Data R)} {data : Data R} (hlist : list = [data])
    (hsocket : data.socket = socket) :
    handleAck e socket ackNumber list pTracker =
      ([(data.answer e ackNumber pTracker).1], (data.answer e ackNumber pTracker).2) := by
  have hget : getDataBySocket socket list = some data := by
    rw [hlist]
    exact getDataBySocket_head hsocket
  have hset : ∀ after : Data R, setData socket after list = [after] := by
    intro after
    simp [setData, Lib.FirstMatch.modifyFirst, hlist, hsocket]
  rw [handleAck_eq e ackNumber pTracker hget, hset]

theorem sendResponses_reply (e : Endian) (now : Int) (dummy : PacketTracker) (targetId : Int)
    (fromAddr : SockAddr) {p : DataPacket} (hp : p.header.packetType ≠ 3) :
    sendResponses e now dummy targetId fromAddr [p] [] = ([], [(fromAddr, p.convert e)]) := by
  simp only [sendResponses, sendResponse, List.reverse_singleton, List.foldl_cons, List.foldl_nil,
    List.any_nil, List.map_nil, ↓reduceIte, if_neg hp, List.nil_append]

theorem Represents.same (h : Represents link s x) :
    ∃ y, Moves link D x y ∧ Represents link s y :=
  ⟨x, .lost x.toReceiver x.toSender x.buffer.busy (fun _ hp => hp) (fun _ hp => hp), h⟩

theorem represents_deliverToReceiver (h : Represents link s x) (hs : Safe link bytes x) (i : Nat)
    (now : Int) (stray : Stray) (hpast : stray.past 512 ≠ 1) :
    ∃ y, Moves link D x y ∧
      Represents link (link.step inTransfer s (.deliverToReceiver i now stray)) y := by
  cases ht : handOver i s.toReceiver with
  | none =>
    rw [Link.step, ht]
    exact h.same
  | some taken =>
    obtain ⟨p, rest⟩ := taken
    obtain ⟨hp, hrest⟩ := handOver_mem ht
    rw [h.toReceiver] at hp hrest
    obtain ⟨k, hk⟩ := hs.toReceiver p hp
    have hseq : (p.ntoh link.endian).seq ≤ 512 := by
      rw [hk.seq]
      have := hk.high
      omega
    obtain ⟨⟨busy, hlist⟩, hreply⟩ := handleData_single link.endian now stray
      h.recvList hs.bufferSocket hseq
    have hack : (ackPacket link.endian
        (x.buffer.recv stray.past (p.ntoh link.endian)).expected).header.packetType ≠ 3 := by
      rw [ackPacket_packetType]
      decide
    have hact := processInboundUdp_some (link.delivery_receiver now stray p) s.receiver
    dsimp only at hact
    rw [handlePacket_data _ _ _ _ _ _ hk.packetType, hreply,
      show (handleData link.endian now stray link.senderId (p.ntoh link.endian)
        s.receiver).1.pTracker = [] from h.idle, sendResponses_reply _ _ _ _ _ hack] at hact
    refine ⟨_, .received p rest stray.past busy hp hrest hpast, ?_⟩
    rw [Link.step, ht]
    dsimp only [Link.receiverActs, act]
    rw [hact]
    refine ⟨h.list, h.pTracker, hlist, rfl, rfl, ?_, h.log⟩
    rw [h.toSender, sentTo_all (by simp [inTransfer])]
    rfl

theorem represents_deliverToSender (h : Represents link s x) (hs : Safe link bytes x) (i : Nat)
    (now : Int) (stray : Stray) (hdummy : D (dummyHead stray.dummy)) :
    ∃ y, Moves link D x y ∧
      Represents link (link.step inTransfer s (.deliverToSender i now stray)) y := by
  cases ht : handOver i s.toSender with
  | none =>
    rw [Link.step, ht]
    exact h.same
  | some taken =>
    obtain ⟨p, rest⟩ := taken
    obtain ⟨hp, hrest⟩ := handOver_mem ht
    rw [h.toSender] at hp hrest
    have heq := handleAck_single link.endian ((p.ntoh link.endian).header.ackNum - 1).toInt
      x.pTracker h.list hs.socket
    have hanswer := x.data.answer_answered link.endian
      ((p.ntoh link.endian).header.ackNum - 1).toInt x.pTracker
    generalize x.data.answer link.endian ((p.ntoh link.endian).header.ackNum - 1).toInt x.pTracker =
      answer at heq hanswer
    obtain ⟨after, tracker, packets⟩ := answer
    have hact := processInboundUdp_some (link.delivery_sender now stray p) s.sender
    dsimp only at hact
    rw [handlePacket_ack _ _ _ _ _ _ (hs.toSender p hp).packetType, handleAckPacket, h.pTracker,
      heq, sendResponses_eq] at hact
    have hdata : ∀ q ∈ packets, q.header.packetType = 3 := by
      intro q hq
      obtain ⟨index, rfl⟩ := hanswer.isData q hq
      exact dataPacket_packetType _ _ _
    have hout : ∀ m ∈ (answers link now stray.dummy tracker packets).2, _ :=
      mem_answers now stray tracker hdata
    refine ⟨_, .answered p rest now stray after tracker packets hp hrest hdummy hanswer, ?_⟩
    rw [Link.step, ht]
    dsimp only [Link.senderActs, act]
    rw [hact]
    have hsent : sentTo inTransfer link.receiverAddr
        (answers link now stray.dummy tracker packets).2 =
        (answers link now stray.dummy tracker packets).2.map Prod.snd := by
      apply sentTo_all
      intro m hm
      obtain ⟨haddr, q, hq, hmq⟩ := hout m hm
      refine ⟨haddr, ?_⟩
      rw [hmq, inTransfer, convert_packetType, hdata q hq]
      rfl
    refine ⟨rfl, rfl, h.recvList, h.idle, ?_, rfl, ?_⟩
    · rw [← hsent, ← h.toReceiver]
      rfl
    · rw [← hsent, ← h.log]
      rfl

theorem inTransfer_whohas {p : DataPacket} (h : p.header.packetType = 0) : inTransfer p = false := by
  rw [inTransfer, h]
  rfl

theorem broadcast_notCarried {carries : DataPacket → Bool}
    (hcarries : ∀ {p : DataPacket}, p.header.packetType = 0 → carries p = false) {config : Config}
    {addr : SockAddr} {packets : List DataPacket} (h : ∀ p ∈ packets, p.header.packetType = 0) :
    sentTo carries addr (broadcast config packets.reverse) = [] :=
  sentTo_none fun m hm => hcarries (broadcast_type h m hm)

theorem represents_tickReceiver (h : Represents link s x) (now : Int) :
    ∃ y, Moves link D x y ∧ Represents link (link.step inTransfer s (.tickReceiver now)) y := by
  obtain ⟨busy, hlist⟩ := regenerateWhohas_induction
    (P := fun l => ∃ busy, l = [{ x.buffer with busy := busy }])
    (fun o l => released x.buffer o l) link.endian link.receiver now s.receiver
    ⟨x.buffer.busy, h.recvList⟩
  have hidle : (regenerateWhohas link.endian link.receiver now s.receiver).1.pTracker = [] :=
    (regenerateWhohas_sending link.endian link.receiver now s.receiver).1.trans h.idle
  have hsent : sentTo inTransfer link.senderAddr (broadcast link.receiver
      (regenerateWhohas link.endian link.receiver now s.receiver).2.reverse) = [] :=
    broadcast_notCarried inTransfer_whohas (regenerateWhohas_type _ _ _ _)
  refine ⟨_, .lost x.toReceiver x.toSender busy (fun _ hp => hp) (fun _ hp => hp), ?_⟩
  dsimp only [Link.step, Link.receiverActs, act, peerTick]
  rw [hidle, retransmit, List.append_nil, hsent, List.append_nil]
  exact ⟨h.list, h.pTracker, hlist, rfl, h.toReceiver, h.toSender, h.log⟩

theorem represents_request (h : Represents link s x) (now : Int)
    (chunkfile : Option (List ChunkLine)) (outputfile : List Byte) :
    ∃ y, Moves link D x y ∧
      Represents link (link.step inTransfer s (.request now chunkfile outputfile)) y := by
  obtain ⟨htracker, _⟩ := generateWhohas_sending link.endian link.receiver now chunkfile outputfile
    s.receiver
  have hlist := generateWhohas_recvList link.endian link.receiver now chunkfile outputfile s.receiver
  have hsent : sentTo inTransfer link.senderAddr (broadcast link.receiver (generateWhohas link.endian
      link.receiver now chunkfile outputfile s.receiver).2.reverse) = [] :=
    broadcast_notCarried inTransfer_whohas (generateWhohas_type _ _ _ _ _ _)
  refine ⟨x, .lost x.toReceiver x.toSender x.buffer.busy (fun _ hp => hp) (fun _ hp => hp), ?_⟩
  dsimp only [Link.step, Link.receiverActs, act]
  rw [hsent, List.append_nil]
  exact ⟨h.list, h.pTracker, hlist.trans h.recvList, htracker.trans h.idle, h.toReceiver, h.toSender,
    h.log⟩

theorem retransmit_single (e : Endian) (now : Int) (pTracker : List PacketTracker) (data : Data R) :
    ∃ after, (retransmit e now pTracker [data]).1 = [after] ∧ after.Agree data ∧
      (after.sendWindow = data.sendWindow ∨ after.sendWindow = 1) := by
  refine retransmit_list (P := fun l => ∃ after, l = [after] ∧ after.Agree data ∧
    (after.sendWindow = data.sendWindow ∨ after.sendWindow = 1)) ?_ e now pTracker [data]
    ⟨data, rfl, .refl data, Or.inl rfl⟩
  rintro socket _ ⟨after, rfl, hagree, hwindow⟩
  rw [processPacketLoss, Lib.FirstMatch.modifyFirst, Lib.FirstMatch.modifyFirst]
  split
  · exact ⟨after.packetLoss, rfl, (packetLoss_agree after).trans hagree, Or.inr rfl⟩
  · exact ⟨after, rfl, hagree, hwindow⟩

theorem represents_tickSender (h : Represents link s x) (now : Int) :
    ∃ y, Moves link D x y ∧ Represents link (link.step inTransfer s (.tickSender now)) y := by
  obtain ⟨htracker, hlist⟩ := regenerateWhohas_sending link.endian link.sender now s.sender
  rw [h.pTracker] at htracker
  rw [h.list] at hlist
  obtain ⟨after, hafter, hagree, hwindow⟩ := retransmit_single link.endian now x.pTracker x.data
  have hsent : sentTo inTransfer link.receiverAddr (broadcast link.sender
      (regenerateWhohas link.endian link.sender now s.sender).2.reverse) = [] :=
    broadcast_notCarried inTransfer_whohas (regenerateWhohas_type _ _ _ _)
  refine ⟨_, .expired now after (sentTo inTransfer link.receiverAddr
    (retransmit link.endian now x.pTracker [x.data]).2.2) hagree hwindow ?_, ?_⟩
  · intro p hp
    obtain ⟨t, ht, hs, heq⟩ := retransmit_sent link.endian now x.pTracker [x.data] _
      (mem_sentTo.mp hp).1
    exact ⟨t, ht, hs, (Prod.mk.inj heq).2⟩
  · have happend : ∀ out, sentTo inTransfer link.receiverAddr (broadcast link.sender
        (regenerateWhohas link.endian link.sender now s.sender).2.reverse ++ out) =
        sentTo inTransfer link.receiverAddr out := by
      intro out
      rw [sentTo, List.filter_append, List.map_append, ← sentTo, hsent, List.nil_append, sentTo]
    dsimp only [Link.step, Link.senderActs, act, peerTick]
    rw [htracker, hlist, happend]
    refine ⟨hafter, rfl, h.recvList, h.idle, ?_, h.toSender, ?_⟩
    · rw [h.toReceiver]
    · rw [h.log]

/-- Every step of the two processes is a move of the transfer they run. -/
theorem represents_step (h : Represents link s x) (hs : Safe link bytes x) (move : Move)
    (hclear : Clear move) (hhead : HeadMeets D move) :
    ∃ y, Moves link D x y ∧ Represents link (link.step inTransfer s move) y := by
  cases move with
  | faultToReceiver fault =>
    refine ⟨_, .lost (fault.apply x.toReceiver) x.toSender x.buffer.busy
      (fun _ => Fault.mem_of_mem_apply) (fun _ hp => hp), ?_⟩
    refine ⟨h.list, h.pTracker, h.recvList, h.idle, ?_, h.toSender, h.log⟩
    dsimp only [Link.step]
    rw [h.toReceiver]
  | faultToSender fault =>
    refine ⟨_, .lost x.toReceiver (fault.apply x.toSender) x.buffer.busy (fun _ hp => hp)
      (fun _ => Fault.mem_of_mem_apply), ?_⟩
    refine ⟨h.list, h.pTracker, h.recvList, h.idle, h.toReceiver, ?_, h.log⟩
    dsimp only [Link.step]
    rw [h.toSender]
  | deliverToReceiver i now stray => exact represents_deliverToReceiver h hs i now stray hclear
  | deliverToSender i now stray => exact represents_deliverToSender h hs i now stray hhead
  | tickReceiver now => exact represents_tickReceiver h now
  | tickSender now => exact represents_tickSender h now
  | request now chunkfile outputfile => exact represents_request h now chunkfile outputfile

end Simulation

/-- A sender that has answered one GET, and a receiver with a new buffer. -/
def start [Rate R] (link : Link) (now : Int) (stray : Stray) (offset : Int) (bytes : Int → Byte)
    (receiver : Peer R) : System R :=
  let sent := sendData link.endian link.receiverId
    (initDatalist stray.data link.receiverId offset bytes ([] : List (Data R)))
  let responses := sendResponses link.endian now stray.dummy link.receiverId link.receiverAddr
    sent.2 []
  { receiver := { receiver with
      recvList := (initRecvBuffer offset link.senderId []).2
      pTracker := [] }
    sender := { (Peer.init : Peer R) with list := sent.1, pTracker := responses.1 }
    toReceiver := responses.2.map Prod.snd
    toSender := []
    log := responses.2.map Prod.snd }

/-- The transfer a GET starts. -/
def startTransfer [Rate R] (link : Link) (now : Int) (stray : Stray) (offset : Int)
    (bytes : Int → Byte) : Transfer R :=
  let data : Data R := newElement stray.data link.receiverId offset bytes
  let first := (dataPacket link.endian data 0).convert link.endian
  { data := data.sendMore 1
    pTracker := [dummyHead stray.dummy, ⟨link.receiverId, 1, link.receiverAddr, now, 0, first⟩]
    buffer := ⟨1, link.senderId, offset, true, 0, fun _ => emptyChunk⟩
    toReceiver := [first]
    toSender := []
    log := [first] }

section Runs

variable [Rate R] (link : Link) (now : Int) (stray : Stray) (offset : Int) (bytes : Int → Byte)

omit [Rate R] in
theorem sendResponses_first (data : Data R) :
    sendResponses link.endian now stray.dummy link.receiverId link.receiverAddr
        [dataPacket link.endian data 0] [] =
      ([dummyHead stray.dummy, ⟨link.receiverId, 1, link.receiverAddr, now, 0,
        (dataPacket link.endian data 0).convert link.endian⟩],
        [(link.receiverAddr, (dataPacket link.endian data 0).convert link.endian)]) := by
  have hseq : (dataPacket link.endian data 0).seq = 1 :=
    dataPacket_seq link.endian data 0 (by omega) (by omega)
  simp only [sendResponses, sendResponse, List.reverse_singleton, List.foldl_cons, List.foldl_nil,
    List.any_nil, List.map_nil, ↓reduceIte, dataPacket_packetType, List.nil_append, createTimer, hseq]

theorem represents_start (receiver : Peer R) :
    Represents link (start link now stray offset bytes receiver)
      (startTransfer link now stray offset bytes) := by
  have hsent := sendData_initDatalist (R := R) link.endian stray.data link.receiverId offset bytes []
  have hfirst := sendResponses_first (R := R) link now stray
    (newElement stray.data link.receiverId offset bytes)
  refine ⟨?_, ?_, ?_, rfl, ?_, rfl, ?_⟩
  · dsimp only [start]
    rw [hsent]
    rfl
  · dsimp only [start]
    rw [hsent, hfirst]
    rfl
  · rfl
  · dsimp only [start]
    rw [hsent, hfirst]
    rfl
  · dsimp only [start]
    rw [hsent, hfirst]
    rfl

theorem safe_start : Safe link bytes (startTransfer link now stray offset bytes : Transfer R) := by
  have hnew := unsent_newElement (R := R) stray.data link.receiverId offset bytes
  have hslice := isSlice_dataPacket link.endian
    (newElement stray.data link.receiverId offset bytes : Data R) (k := 0) le_rfl (by omega)
  have hbytes : (newElement stray.data link.receiverId offset bytes : Data R).content = bytes := rfl
  have hend : (newElement stray.data link.receiverId offset bytes : Data R).windowEnd = -1 := rfl
  have hstate : ∀ i : Int, 0 ≤ i → i < 512 →
      (newElement stray.data link.receiverId offset bytes : Data R).state i = .unsend :=
    fun i hi hn => if_pos ⟨hi, hn⟩
  rw [hbytes] at hslice
  unfold startTransfer
  dsimp only
  have hsocket : (newElement stray.data link.receiverId offset bytes : Data R).socket =
    link.receiverId := rfl
  generalize (newElement stray.data link.receiverId offset bytes : Data R) = data at *
  have hresend := resend_new link.endian link.receiverId (dataPacket link.endian data 0)
    link.receiverAddr now 0
  rw [dataPacket_seq link.endian data 0 (by omega) (by omega), zero_add] at hresend
  generalize hfirst : (dataPacket link.endian data 0).convert link.endian = first at *
  refine ⟨hsocket, hbytes, hnew.sendMore 1 (by omega), rfl,
    ⟨counted_empty offset link.senderId, fun i _ _ hr => by simp [emptyChunk] at hr⟩, le_rfl,
    by simp, fun i hi hn => by simp at hn; omega, Or.inr ⟨?_, by simp, ?_⟩, ?_, by simp, ?_, ?_⟩
  · simpa using hslice.seq
  · simp [dummyHead]
  · exact fun p hp => ⟨0, List.mem_singleton.mp hp ▸ hslice⟩
  · refine List.forall_mem_cons.mpr ⟨fun hs => absurd rfl hs, ?_⟩
    intro t ht _
    rw [List.mem_singleton.mp ht, hresend]
    exact hslice
  · intro i hi hn hs
    simp only [Data.sendMore] at hs
    split at hs
    · cases hs
    · rw [hstate i hi hn] at hs
      cases hs

/-- The state of a transfer is safe: what is ACKED has arrived, and what has
arrived is right. -/
def SafeSystem (bytes : Int → Byte) (s : System R) : Prop :=
  ∃ data b, s.sender.list = [data] ∧ s.receiver.recvList = [b] ∧ ∀ i, 0 ≤ i → i < 512 →
    (data.state i = .acked → (b.chunks i).recved = true) ∧
    ((b.chunks i).recved = true →
      (b.chunks i).length = 1024 ∧ (b.chunks i).content = slice bytes i)

/-- However the packets of one transfer are delivered, and whenever they are
sent again, the transfer is safe. -/
theorem transfer_safe (receiver : Peer R) (moves : List Move) (hclear : ∀ m ∈ moves, Clear m) :
    SafeSystem bytes
      (run (link.step inTransfer) (start link now stray offset bytes receiver) moves) := by
  have hstep : ∀ (s : System R) (m : Move),
      (∃ x, Represents link s x ∧ Safe link bytes x) → Clear m →
      ∃ x, Represents link (link.step inTransfer s m) x ∧ Safe link bytes x := by
    rintro s m ⟨x, hx, hs⟩ hm
    have hhead : HeadMeets (fun _ => True) m := by cases m <;> trivial
    obtain ⟨y, hy, hrep⟩ := represents_step hx hs m hm hhead
    exact ⟨y, hrep, safe_moves hs hy⟩
  obtain ⟨x, hx, hs⟩ := run_invariant hstep (start link now stray offset bytes receiver) moves
    ⟨_, represents_start link now stray offset bytes receiver,
      safe_start link now stray offset bytes⟩ (along_of_forall _ moves fun _ => hclear)
  refine ⟨x.data, x.buffer, hx.list, hx.recvList, ?_⟩
  intro i hi hn
  refine ⟨hs.acked i hi hn, fun hr => ⟨?_, hs.faithful.source i hi hn hr⟩⟩
  rw [hs.faithful.slot i hi hn, if_pos hr]

theorem start_get (packet : DataPacket) (hget : packet.header.packetType = 2) (receiver : Peer R) :
    act link.endian link.sender (Peer.init : Peer R) (.inbound now stray link.receiverAddr packet) =
      ((start link now stray
          (getOffSetFromMasterChunkfile (packet.data.take 20) link.sender)
          (getDataFromHash (packet.data.take 20) link.sender stray.index stray.heap) receiver).sender,
        [(link.receiverAddr, (dataPacket link.endian (newElement stray.data link.receiverId
          (getOffSetFromMasterChunkfile (packet.data.take 20) link.sender)
          (getDataFromHash (packet.data.take 20) link.sender stray.index stray.heap) : Data R)
          0).convert link.endian)]) := by
  have hact := processInboundUdp_some (link.delivery_sender now stray packet) (Peer.init : Peer R)
  have hsent := sendData_initDatalist (R := R) link.endian stray.data link.receiverId
    (getOffSetFromMasterChunkfile (packet.data.take 20) link.sender)
    (getDataFromHash (packet.data.take 20) link.sender stray.index stray.heap) []
  dsimp only at hact
  rw [handlePacket_get _ _ _ _ _ _ hget] at hact
  dsimp only [act, start]
  rw [hact]
  dsimp only [handleGet, ntoh_data, Peer.init]
  rw [hsent, sendResponses_first]

end Runs

def pair : Link :=
  { endian := .little
    receiver := network
    sender := { network with identity := 2 }
    receiverId := 1
    senderId := 2
    receiverAddr := ⟨2, 1, 1⟩
    senderAddr := ⟨2, 2, 2⟩
    knowsSender := rfl
    knowsReceiver := rfl
    senderIdValid := two_valid
    receiverIdValid := one_valid }

/-- The first packet is sent twice, arrives twice, and is acknowledged. -/
theorem transfer_safe_pair : SafeSystem (fun _ => 7)
    (run (pair.step inTransfer) (start pair 0 cleared 0 (fun _ => 7) (Peer.init : Peer ℚ))
      [.tickSender 3, .deliverToReceiver 1 3 cleared, .deliverToReceiver 0 3 cleared,
        .faultToSender (.drop 0), .deliverToSender 0 3 cleared]) := by
  apply transfer_safe
  intro m hm
  have hpast : cleared.past 512 ≠ 1 := by decide
  simp only [List.mem_cons, List.not_mem_nil, or_false] at hm
  obtain rfl | rfl | rfl | rfl | rfl := hm
  · trivial
  · exact hpast
  · exact hpast
  · trivial
  · trivial

end P2PCC.SingleTransfer

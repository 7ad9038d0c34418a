import Mathlib.Algebra.Order.BigOperators.Group.List
import P2PCC.Idling
import P2PCC.Isolation
import P2PCC.Lib.Settling
import P2PCC.Storing

namespace P2PCC.Lossless

open P2PCC.Lib.ByteOrder P2PCC.Lib.Runs P2PCC.Lib.Channel P2PCC.Lib.Settling P2PCC.Packet
open P2PCC.Tracker P2PCC.Sender P2PCC.Receiver P2PCC.HandlePacket P2PCC.Tracking P2PCC.Buffers
open P2PCC.OutputFile P2PCC.Window P2PCC.TwoPeers P2PCC.SingleTransfer P2PCC.Publishing
open P2PCC.Storing P2PCC.Idling

variable {R : Type}

/-- One of the packets in flight arrives, which need not be the oldest. Before,
both processes may go round their loops. No packet is lost, and no timer fires
for what is on its way. -/
def Delivers [Rate R] (link : Link) (memory : Stray) (x y : System R) : Prop :=
  ∃ ticks move, Along (link.step inDownload) Idles x ticks ∧
    Arrives memory (run (link.step inDownload) x ticks) move ∧
    y = link.step inDownload (run (link.step inDownload) x ticks) move

/-- What the sender knows of the chunk it serves: all packets up to the end of
the window have been sent. -/
structure Serving (content : Int → Byte) (data : Data R) : Prop where
  content : data.content = content
  unsent : Unsent data
  endLow : 0 ≤ data.windowEnd
  startLow : -1 ≤ data.windowStart
  window : 1 ≤ data.sendWindow
  sent : ∀ i, 0 ≤ i → i ≤ data.windowEnd → data.state i ≠ .unsend

/-- What an ACK does to the end of the window, and the packets it is answered
with. -/
inductive Replied (e : Endian) (ackNumber : Int) (data : Data R) :
    Data R → List DataPacket → Prop
  | late (hack : 512 < ackNumber) : Replied e ackNumber data data []
  | third (after : Data R) (hprev : data.prevAck = BitVec.ofInt 32 ackNumber)
    (hcount : 1 ≤ data.countAck) (hend : after.windowEnd = data.windowEnd)
    (hsame : after.prevAck = data.prevAck) :
    Replied e ackNumber data after
      (if ackNumber < 511 then [dataPacket e data (ackNumber + 1)] else [])
  | moved (after : Data R) (m : Nat) (hend : after.windowEnd = data.windowEnd + m)
    (hprev : after.prevAck = BitVec.ofInt 32 ackNumber)
    (hmore : ackNumber = data.windowEnd → data.windowEnd < 511 → 0 < m) :
    Replied e ackNumber data after ((List.range m).map
      (fun i : Nat => dataPacket e data (data.windowEnd + 1 + i))).reverse

theorem Serving.answered [Rate R] {e : Endian} {content : Int → Byte} {ackNumber : Int}
    {data after : Data R} {before tracker : List PacketTracker} {packets : List DataPacket}
    (h : Serving content data) (hl : 0 ≤ ackNumber) (hu : min ackNumber 511 ≤ data.windowEnd)
    (ha : Answered e ackNumber data before after tracker packets) :
    Serving content after ∧ Replied e ackNumber data after packets := by
  have hstart := h.startLow
  have hend := h.endLow
  have hwindow := h.window
  have hkept := answered_unsent h.unsent ha
  cases ha with
  | rejected hack => exact ⟨h, .late hack⟩
  | duplicate hack hprev hcount after hagree hone =>
    have hsame : after.windowEnd = data.windowEnd := hagree.windowEnd
    refine ⟨⟨hagree.content.trans h.content, hkept, ?_, ?_, by omega, ?_⟩,
      .third after hprev hcount hsame hagree.prevAck⟩
    · rw [hsame]
      exact hend
    · rw [hagree.windowStart]
      exact hstart
    · rw [hsame, hagree.state]
      exact h.sent
  | unsent hack m hm hstate hsent tracker htracker =>
    exact absurd hstate (h.sent _ (by omega) (by omega))
  | accepted hack hfresh hsent mid hagree hgrown tracker htracker =>
    have hsame : mid.windowEnd = data.windowEnd := hagree.windowEnd
    have hmoved : mid.windowStart = ackNumber := hagree.windowStart
    have hle := data.le_grownWindow
    refine ⟨⟨hagree.content.trans h.content, hkept, ?_, ?_, ?_, ?_⟩,
      .moved _ mid.quota ?_ hagree.prevAck ?_⟩
    · simp only [Data.sendMore]
      omega
    · simp only [Data.sendMore]
      omega
    · simp only [Data.sendMore]
      omega
    · intro i hi hn
      simp only [Data.sendMore] at hn ⊢
      split
      · decide
      · rw [hagree.state]
        simp only [Data.ackRange, Data.noteAck]
        split
        · decide
        · exact h.sent i hi (by omega)
    · simp only [Data.sendMore, hsame]
    · intro hlast hlt
      simp only [Data.quota, chunkPacketNumber]
      omega

theorem Replied.isData {e : Endian} {ackNumber : Int} {data after : Data R}
    {packets : List DataPacket} (h : Replied e ackNumber data after packets)
    (hl : 0 ≤ data.windowEnd) (hu : after.windowEnd ≤ 511) (hack : 0 ≤ ackNumber) :
    ∀ p ∈ packets, IsData p := by
  intro p hp
  cases h with
  | late => exact absurd hp List.not_mem_nil
  | third after hprev hcount hend hsame =>
    split at hp
    · rw [List.mem_singleton.mp hp]
      exact isData_dataPacket e data (by omega) (by omega)
    · exact absurd hp List.not_mem_nil
  | moved after m hend hprev hmore =>
    obtain ⟨i, hi, rfl⟩ := List.mem_map.mp (List.mem_reverse.mp hp)
    have hlt : (i : Int) < m := by exact_mod_cast List.mem_range.mp hi
    exact isData_dataPacket e data (by omega) (by omega)

/-- An ACK packet with a number. -/
structure IsReply (e : Endian) (n : Int) (p : DataPacket) : Prop where
  packetType : p.header.packetType = 4
  ackNum : (p.ntoh e).header.ackNum.toInt = n

theorem isReply_ackPacket (e : Endian) {n : Int} (hl : 1 ≤ n) (hu : n ≤ 1024) :
    IsReply e n ((ackPacket e n).convert e) := by
  refine ⟨?_, ?_⟩
  · rw [convert_packetType, ackPacket_packetType]
  · rw [ntoh_convert_ackNum]
    exact toInt_ofInt32 (by omega) (by omega)

section Handling

variable [Rate R] {link : Link}

omit [Rate R] in
theorem Filling.same {name : List Byte} {chunk : Chunks} {n j : Nat} {b : RecvBuffer}
    {peer other : Peer R} (h : Filling link name chunk n j b peer)
    (hsame : SameDownload peer other) : Filling link name chunk n j b other := by
  obtain ⟨old, hl, hold⟩ := h.buffers
  refine ⟨⟨old, hsame.recvList.symm.trans hl, hold⟩, h.socket, h.offset, h.faithful, h.busy,
    hsame.outputFile.symm.trans h.outputFile, fun hc => ?_, fun hc hn => ?_⟩
  · have hopen := h.opened hc
    exact ⟨hsame.init.symm.trans hopen.init, hsame.requested.symm.trans hopen.requested,
      hsame.written.symm.trans hopen.written⟩
  · have hclosed := h.closed hc hn
    exact ⟨hsame.init.symm.trans hclosed.init, hsame.written.symm.trans hclosed.written⟩

theorem Filling.delivered {name : List Byte} {chunk : Chunks} {n j : Nat} {b : RecvBuffer}
    {x : System R} {p : DataPacket} {rest : List DataPacket} {i : Nat} {k : Int}
    (h : Filling link name chunk n j b x.receiver) (hidle : x.receiver.pTracker = []) (hj : j < n)
    (hp : handOver i x.toReceiver = some (p, rest)) (hk : IsSlice link.endian (chunk j) k p)
    (now : Int) (stray : Stray) :
    ∃ busy next, link.step inDownload x (.deliverToReceiver i now stray) =
        afterData link.endian x next rest
          [ackPacket link.endian (b.recv stray.past (p.ntoh link.endian)).expected] ∧
      next.pTracker = [] ∧ Filling link name chunk n j
        { b.recv stray.past (p.ntoh link.endian) with busy := busy } next := by
  obtain ⟨⟨busy, hfilling⟩, hreply⟩ := h.receive hj hk now stray
  have hkept := handlePacket_subset link.endian link.receiver now stray p link.senderId x.receiver
  rw [hidle] at hkept
  have hnone := List.eq_nil_iff_forall_not_mem.mpr fun t ht => List.not_mem_nil (hkept t ht)
  refine ⟨busy, _, deliver_data hp (Prod.ext rfl hreply) hnone ?_, hnone, hfilling⟩
  exact ackPacket_packetType _ _

theorem handlePacket_reply {p : DataPacket} {n : Int} (hp : IsReply link.endian n p) (hn : 1 ≤ n)
    (now : Int) (memory : Stray) {peer : Peer R} {data : Data R}
    (hd : getDataBySocket link.receiverId peer.list = some data) :
    ∃ after tracker packets next,
      Answered link.endian (n - 1) data peer.pTracker after tracker packets ∧
      getDataBySocket link.receiverId next.list = some after ∧
      handlePacket link.endian link.sender now memory p link.receiverId peer = (next, packets) := by
  have hindex : ((p.ntoh link.endian).header.ackNum - 1).toInt = n - 1 := by
    rw [toInt_sub_one (by rw [hp.ackNum]; exact hn), hp.ackNum]
  have hanswer := data.answer_answered link.endian (n - 1) peer.pTracker
  have hhandled := handlePacket_ack link.endian link.sender now memory link.receiverId peer
    hp.packetType
  rw [handleAckPacket, hindex, handleAck_eq link.endian (n - 1) peer.pTracker hd] at hhandled
  refine ⟨_, _, _, _, hanswer, ?_, hhandled⟩
  exact getDataBySocket_setData hd (hanswer.identity.1.trans (getDataBySocket_socket hd))

end Handling

/-- A chunk on its way with nothing lost: what has been sent has arrived or
is in flight, and so is the ACK that moves the window on. -/
structure Going (link : Link) (name : List Byte) (chunk : Chunks) (n j : Nat) (data : Data R)
    (b : RecvBuffer) (x : System R) : Prop where
  idle : x.receiver.pTracker = []
  filling : Filling link name chunk n j b x.receiver
  scanned : Scanned b
  current : getDataBySocket link.receiverId x.sender.list = some data
  serving : Serving (chunk j) data
  toReceiver : ∀ p ∈ x.toReceiver, ∃ k, IsSlice link.endian (chunk j) k p ∧ k ≤ data.windowEnd
  toSender : ∀ p ∈ x.toSender, ∃ m, IsReply link.endian m p ∧ 1 ≤ m ∧ m ≤ b.expected
  arrived : ∀ i, 0 ≤ i → i < 512 → (b.chunks i).recved = true → i ≤ data.windowEnd
  held : ∀ i, 0 ≤ i → i ≤ data.windowEnd →
    (b.chunks i).recved = true ∨ ∃ p ∈ x.toReceiver, IsSlice link.endian (chunk j) i p
  acked : data.windowEnd < 511 →
    (∀ i, 0 ≤ i → i ≤ data.windowEnd → (b.chunks i).recved = true) →
    ∃ p ∈ x.toSender, IsReply link.endian (data.windowEnd + 1) p
  fresh : data.windowEnd < 511 → data.prevAck = BitVec.ofInt 32 data.windowEnd →
    data.countAck < 1

/-- The longest way from an ACK with a number on: it can be a third
duplicate, whose packet is answered with a higher number. -/
def ackWeight (n : Int) : Nat := 2 * (1025 - n).toNat

/-- A packet that the receiver is waiting for raises the number of the ACK. -/
def dataWeight (expected k : Int) : Nat :=
  ackWeight (if k ≤ expected then max expected (k + 1) else expected) + 1

def weight (link : Link) (windowEnd expected : Int) (x : System R) : Nat :=
  2051 * (511 - windowEnd).toNat +
    (x.toReceiver.map (fun p => dataWeight expected ((p.ntoh link.endian).seq - 1))).sum +
    (x.toSender.map (fun p => ackWeight (p.ntoh link.endian).header.ackNum.toInt)).sum

theorem dataWeight_le {expected k : Int} (h : 1 ≤ expected) : dataWeight expected k ≤ 2049 := by
  simp only [dataWeight, ackWeight]
  split <;> omega

theorem dataWeight_anti {expected after : Int} (h : expected ≤ after) (k : Int) :
    dataWeight after k ≤ dataWeight expected k := by
  simp only [dataWeight, ackWeight]
  split <;> split <;> omega

theorem dataWeight_lt_ackWeight {expected k : Int} (h : k ≤ expected) (hl : 1 ≤ k)
    (hu : k ≤ 1024) : dataWeight expected k < ackWeight k := by
  simp only [dataWeight, ackWeight, if_pos h]
  omega

theorem ackWeight_recv {b : RecvBuffer} (h : Scanned b) (past : Int → Int) {packet : DataPacket}
    {k : Int} (hseq : packet.seq = k + 1) (hk : k < 512) :
    ackWeight (b.recv past packet).expected < dataWeight b.expected k := by
  obtain ⟨hscanned, hmono⟩ := h.recv past packet
  have hlow := h.low
  have hreach : k ≤ b.expected → k + 1 ≤ (b.recv past packet).expected := by
    intro hle
    by_contra hlt
    have hat : (b.recv past packet).expected = k := by omega
    have hstop := hscanned.stop (by omega)
    rw [hat, recv_recved, hseq] at hstop
    simp at hstop
  simp only [dataWeight, ackWeight]
  split
  · have := hreach (by assumption)
    omega
  · omega

theorem expected_le {b : RecvBuffer} (h : Scanned b) {windowEnd : Int} (hend : 0 ≤ windowEnd)
    (harrived : ∀ i, 0 ≤ i → i < 512 → (b.chunks i).recved = true → i ≤ windowEnd) :
    min b.expected 512 ≤ windowEnd + 1 := by
  have hlow := h.low
  by_cases hone : b.expected = 1
  · omega
  · have hlast := h.filled (min b.expected 512 - 1) (by omega) (by omega) (by omega)
    have := harrived _ (by omega) (by omega) hlast
    omega

theorem ofInt32_inj {a b : Int} (ha : -2147483648 ≤ a) (ha' : a < 2147483648)
    (hb : -2147483648 ≤ b) (hb' : b < 2147483648) (h : BitVec.ofInt 32 a = BitVec.ofInt 32 b) :
    a = b := by
  rw [← toInt_ofInt32 ha ha', ← toInt_ofInt32 hb hb', h]

theorem mem_onWire {e : Endian} {packets : List DataPacket} {q : DataPacket} :
    q ∈ onWire e packets ↔ ∃ p ∈ packets, p.convert e = q := by
  simp only [onWire, List.mem_map, List.mem_reverse]

section Steps

variable [Rate R] {link : Link} {name : List Byte} {chunk : Chunks} {n j : Nat} {data : Data R}
  {b : RecvBuffer} {x : System R} {p : DataPacket} {rest : List DataPacket} {i : Nat}

omit [Rate R] in
theorem weight_afterData (windowEnd : Int) {expected after k : Int} (receiver : Peer R)
    (hp : handOver i x.toReceiver = some (p, rest)) (hseq : (p.ntoh link.endian).seq = k + 1)
    (hmono : expected ≤ after) (hack : IsReply link.endian after
      ((ackPacket link.endian after).convert link.endian)) :
    weight link windowEnd after (afterData link.endian x receiver rest
      [ackPacket link.endian after]) + dataWeight expected k ≤
        weight link windowEnd expected x + ackWeight after := by
  have hsplit := ((handOver_perm hp).map
    (fun q => dataWeight expected ((q.ntoh link.endian).seq - 1))).sum_eq
  rw [List.map_cons, List.sum_cons, hseq, add_sub_cancel_right] at hsplit
  have hothers : (rest.map (fun q => dataWeight after ((q.ntoh link.endian).seq - 1))).sum ≤
      (rest.map (fun q => dataWeight expected ((q.ntoh link.endian).seq - 1))).sum :=
    List.sum_le_sum fun q _ => dataWeight_anti hmono _
  simp only [weight, afterData, onWire, List.map_append, List.sum_append,
    List.reverse_singleton, List.map_singleton, List.sum_singleton, hack.ackNum]
  omega

omit [Rate R] in
theorem weight_afterAck (windowEnd expected : Int) {m : Int} (sender : Peer R)
    (packets : List DataPacket)
    (hp : handOver i x.toSender = some (p, rest)) (hm : IsReply link.endian m p) :
    weight link windowEnd expected (afterAck link.endian x sender rest packets) + ackWeight m =
      weight link windowEnd expected x + ((onWire link.endian packets).map
        (fun q => dataWeight expected ((q.ntoh link.endian).seq - 1))).sum := by
  have hsplit := ((handOver_perm hp).map
    (fun q => ackWeight (q.ntoh link.endian).header.ackNum.toInt)).sum_eq
  rw [List.map_cons, List.sum_cons, hm.ackNum] at hsplit
  simp only [weight, afterAck, List.map_append, List.sum_append]
  omega

omit [Rate R] in
theorem Going.reach (h : Going link name chunk n j data b x) :
    min b.expected 512 ≤ data.windowEnd + 1 := expected_le h.scanned h.serving.endLow h.arrived

theorem Going.receive (h : Going link name chunk n j data b x) (hj : j < n) (now : Int)
    (stray : Stray) (hp : handOver i x.toReceiver = some (p, rest)) :
    ∃ after,
      Going link name chunk n j data after
        (link.step inDownload x (.deliverToReceiver i now stray)) ∧
      weight link data.windowEnd after.expected
        (link.step inDownload x (.deliverToReceiver i now stray)) <
          weight link data.windowEnd b.expected x := by
  obtain ⟨hmem, hrest⟩ := handOver_mem hp
  obtain ⟨k, hk, hkend⟩ := h.toReceiver p hmem
  have hklow := hk.low
  have hkhigh := hk.high
  obtain ⟨busy, next, hstep, hidle, hfilling⟩ := Filling.delivered h.filling h.idle hj hp hk now stray
  obtain ⟨hscanned, hmono⟩ := h.scanned.recv stray.past (p.ntoh link.endian)
  have hrecved : ∀ i, ((b.recv stray.past (p.ntoh link.endian)).chunks i).recved = true ↔
      (b.chunks i).recved = true ∨ i = k := by
    intro i
    rw [recv_recved, hk.seq, add_sub_cancel_right, Bool.or_eq_true, decide_eq_true_eq]
  have hweight := ackWeight_recv h.scanned stray.past hk.seq hkhigh
  rw [hstep]
  generalize b.recv stray.past (p.ntoh link.endian) = after
    at hfilling hscanned hmono hrecved hweight
  have harrived : ∀ i, 0 ≤ i → i < 512 → (after.chunks i).recved = true → i ≤ data.windowEnd := by
    intro i hi hn hr
    obtain hold | rfl := (hrecved i).mp hr
    · exact h.arrived i hi hn hold
    · exact hkend
  have hlow := hscanned.low
  have hhigh := hscanned.high
  have hreach := expected_le hscanned h.serving.endLow harrived
  have hack := isReply_ackPacket link.endian hlow hhigh
  refine ⟨{ after with busy := busy }, ⟨hidle, hfilling,
    ⟨hlow, hhigh, hscanned.filled, hscanned.stop⟩, h.current, h.serving,
    fun q hq => h.toReceiver q (hrest q hq), ?_, harrived, ?_, ?_, h.fresh⟩, ?_⟩
  · intro q hq
    obtain hq | hq := List.mem_append.mp hq
    · obtain ⟨m, hm, hml, hmu⟩ := h.toSender q hq
      exact ⟨m, hm, hml, hmu.trans hmono⟩
    · obtain rfl := List.mem_singleton.mp hq
      exact ⟨_, hack, hlow, le_rfl⟩
  · intro i hi hn
    rw [hrecved i]
    obtain hold | ⟨q, hq, hslice⟩ := h.held i hi hn
    · exact Or.inl (Or.inl hold)
    · obtain rfl | hq := List.mem_cons.mp ((handOver_perm hp).mem_iff.mp hq)
      · have := hslice.seq.symm.trans hk.seq
        exact Or.inl (Or.inr (by omega))
      · exact Or.inr ⟨q, hq, hslice⟩
  · intro hlt hall
    -- the scan stops at the first packet that has not been sent
    have hexact : after.expected = data.windowEnd + 1 := by
      by_contra hne
      have hstop := hscanned.stop (by omega)
      rw [hall after.expected (by omega) (by omega)] at hstop
      cases hstop
    exact ⟨_, List.mem_append_right _ (List.mem_singleton_self _), hexact ▸ hack⟩
  · have hle := weight_afterData data.windowEnd next hp hk.seq hmono hack
    exact Nat.lt_of_add_lt_add_right (hle.trans_lt (Nat.add_lt_add_left hweight _))

omit [Rate R] in
theorem Going.replied (h : Going link name chunk n j data b x) {after : Data R} {sender : Peer R}
    {packets : List DataPacket} (hrest : ∀ q ∈ rest, q ∈ x.toSender)
    (hcurrent : getDataBySocket link.receiverId sender.list = some after)
    (hserving : Serving (chunk j) after) (hle : data.windowEnd ≤ after.windowEnd)
    (hnew : ∀ q ∈ packets, ∃ k, q = dataPacket link.endian data k ∧ 0 ≤ k ∧ k ≤ after.windowEnd)
    (hmore : ∀ i, data.windowEnd < i → i ≤ after.windowEnd →
      dataPacket link.endian data i ∈ packets)
    (hacked : after.windowEnd < 511 →
      (∀ i, 0 ≤ i → i ≤ after.windowEnd → (b.chunks i).recved = true) →
      ∃ p ∈ rest, IsReply link.endian (after.windowEnd + 1) p)
    (hfresh : after.windowEnd < 511 → after.prevAck = BitVec.ofInt 32 after.windowEnd →
      after.countAck < 1) :
    Going link name chunk n j after b (afterAck link.endian x sender rest packets) := by
  have hhigh := hserving.unsent.high
  have hslice : ∀ k, 0 ≤ k → k ≤ after.windowEnd →
      IsSlice link.endian (chunk j) k ((dataPacket link.endian data k).convert link.endian) := by
    intro k hl hu
    rw [← h.serving.content]
    exact isSlice_dataPacket link.endian data hl (by omega)
  refine ⟨h.idle, h.filling, h.scanned, hcurrent, hserving, ?_,
    fun q hq => h.toSender q (hrest q hq),
    fun i hi hn hr => (h.arrived i hi hn hr).trans hle, ?_, hacked, hfresh⟩
  · intro q hq
    obtain hq | hq := List.mem_append.mp hq
    · obtain ⟨k, hk, hkend⟩ := h.toReceiver q hq
      exact ⟨k, hk, hkend.trans hle⟩
    · obtain ⟨c, hc, rfl⟩ := mem_onWire.mp hq
      obtain ⟨k, rfl, hl, hu⟩ := hnew c hc
      exact ⟨k, hslice k hl hu, hu⟩
  · intro i hi hn
    by_cases hold : i ≤ data.windowEnd
    · obtain hr | ⟨q, hq, hqi⟩ := h.held i hi hold
      · exact Or.inl hr
      · exact Or.inr ⟨q, List.mem_append_left _ hq, hqi⟩
    · refine Or.inr ⟨_, List.mem_append_right _ (mem_onWire.mpr ⟨_, hmore i ?_ hn, rfl⟩),
        hslice i hi hn⟩
      omega

omit [Rate R] in
theorem Going.acked_rest (h : Going link name chunk n j data b x) {m : Int}
    (hp : handOver i x.toSender = some (p, rest)) (hm : IsReply link.endian m p)
    (hne : m ≠ data.windowEnd + 1) (hlt : data.windowEnd < 511)
    (hall : ∀ i, 0 ≤ i → i ≤ data.windowEnd → (b.chunks i).recved = true) :
    ∃ q ∈ rest, IsReply link.endian (data.windowEnd + 1) q := by
  obtain ⟨q, hq, hqm⟩ := h.acked hlt hall
  obtain rfl | hq := List.mem_cons.mp ((handOver_perm hp).mem_iff.mp hq)
  · exact absurd (hm.ackNum.symm.trans hqm.ackNum) hne
  · exact ⟨q, hq, hqm⟩

section Replies

variable {m : Int} {sender : Peer R} {after : Data R}

omit [Rate R] in
theorem Going.late (h : Going link name chunk n j data b x)
    (hp : handOver i x.toSender = some (p, rest)) (hm : IsReply link.endian m p)
    (hhigh : m ≤ b.expected) (hack : 512 < m - 1)
    (hcurrent : getDataBySocket link.receiverId sender.list = some data) :
    Going link name chunk n j data b (afterAck link.endian x sender rest []) ∧
      weight link data.windowEnd b.expected (afterAck link.endian x sender rest []) <
        weight link data.windowEnd b.expected x := by
  have hreach := h.reach
  have hexpected := h.scanned.high
  refine ⟨h.replied (handOver_mem hp).2 hcurrent h.serving le_rfl (by simp)
    (fun i hi hn => by omega) (fun hlt => by omega) (fun hlt => by omega), ?_⟩
  have hweight := weight_afterAck data.windowEnd b.expected sender []
    hp hm
  have hpos : 0 < ackWeight m := by
    simp only [ackWeight]
    omega
  rw [onWire, List.reverse_nil, List.map_nil, List.map_nil, List.sum_nil] at hweight
  omega

omit [Rate R] in
theorem Going.third (h : Going link name chunk n j data b x)
    (hp : handOver i x.toSender = some (p, rest)) (hm : IsReply link.endian m p) (hlow : 1 ≤ m)
    (hhigh : m ≤ b.expected) (hcurrent : getDataBySocket link.receiverId sender.list = some after)
    (hserving : Serving (chunk j) after) (hprev : data.prevAck = BitVec.ofInt 32 (m - 1))
    (hcount : 1 ≤ data.countAck) (hsame : after.windowEnd = data.windowEnd)
    (hkept : after.prevAck = data.prevAck) :
    Going link name chunk n j after b (afterAck link.endian x sender rest
        (if m - 1 < 511 then [dataPacket link.endian data (m - 1 + 1)] else [])) ∧
      weight link after.windowEnd b.expected (afterAck link.endian x sender rest
        (if m - 1 < 511 then [dataPacket link.endian data (m - 1 + 1)] else [])) <
        weight link data.windowEnd b.expected x := by
  have hreach := h.reach
  have hexpected := h.scanned.high
  have hend := h.serving.endLow
  have hwindow := h.serving.unsent.high
  have hne : data.windowEnd < 511 → m ≠ data.windowEnd + 1 := by
    rintro hlt rfl
    rw [add_sub_cancel_right] at hprev
    have := h.fresh hlt hprev
    omega
  have hbound : m - 1 < 511 → m ≤ data.windowEnd := by
    intro hlt
    by_cases hopen : data.windowEnd < 511
    · have := hne hopen
      omega
    · omega
  refine ⟨h.replied (handOver_mem hp).2 hcurrent hserving hsame.ge ?_ (fun i hi hn => by omega)
    ?_ ?_, ?_⟩
  · intro q hq
    split at hq
    · obtain rfl := List.mem_singleton.mp hq
      have := hbound (by assumption)
      exact ⟨_, rfl, by omega, by omega⟩
    · simp at hq
  · rw [hsame]
    exact fun hlt => h.acked_rest hp hm (hne hlt) hlt
  · intro hlt hprev'
    rw [hkept, hprev, hsame] at hprev'
    have := ofInt32_inj (by omega) (by omega) (by omega) (by omega) hprev'
    exact absurd (show m = data.windowEnd + 1 by omega) (hne (by omega))
  · have hweight := weight_afterAck data.windowEnd b.expected sender
      (if m - 1 < 511 then [dataPacket link.endian data (m - 1 + 1)] else []) hp hm
    rw [hsame]
    by_cases hin : m - 1 < 511
    · have hlt := dataWeight_lt_ackWeight hhigh hlow (by omega)
      have hseq := (isSlice_dataPacket link.endian data (k := m) (by omega) (by omega)).seq
      rw [if_pos hin] at hweight ⊢
      simp only [onWire, List.reverse_singleton, List.map_singleton, List.sum_singleton,
        sub_add_cancel, hseq, add_sub_cancel_right] at hweight ⊢
      omega
    · have hpos : 0 < ackWeight m := by
        simp only [ackWeight]
        omega
      rw [if_neg hin] at hweight ⊢
      rw [onWire, List.reverse_nil, List.map_nil, List.map_nil, List.sum_nil] at hweight
      omega

omit [Rate R] in
theorem dataWeight_sum_le {expected : Int} (h : 1 ≤ expected) (e : Endian)
    (packets : List DataPacket) :
    (packets.map (fun q => dataWeight expected ((q.ntoh e).seq - 1))).sum ≤
      packets.length * 2049 := by
  have hle := List.sum_le_card_nsmul
    (packets.map (fun q => dataWeight expected ((q.ntoh e).seq - 1))) 2049 ?_
  · simpa using hle
  · intro w hw
    obtain ⟨q, _, rfl⟩ := List.mem_map.mp hw
    exact dataWeight_le h

omit [Rate R] in
/-- An ACK that is accepted moves the window on, or is not the one that
would. -/
theorem Going.moved (h : Going link name chunk n j data b x)
    (hp : handOver i x.toSender = some (p, rest)) (hm : IsReply link.endian m p) (hlow : 1 ≤ m)
    (hhigh : m ≤ b.expected) (hcurrent : getDataBySocket link.receiverId sender.list = some after)
    (hserving : Serving (chunk j) after) {count : Nat}
    (hmore : after.windowEnd = data.windowEnd + count)
    (hprev : after.prevAck = BitVec.ofInt 32 (m - 1))
    (hpositive : m - 1 = data.windowEnd → data.windowEnd < 511 → 0 < count) :
    Going link name chunk n j after b (afterAck link.endian x sender rest ((List.range count).map
        (fun i : Nat => dataPacket link.endian data (data.windowEnd + 1 + i))).reverse) ∧
      weight link after.windowEnd b.expected (afterAck link.endian x sender rest
        ((List.range count).map
          (fun i : Nat => dataPacket link.endian data (data.windowEnd + 1 + i))).reverse) <
        weight link data.windowEnd b.expected x := by
  have hreach := h.reach
  have hexpected := h.scanned.high
  have hend := h.serving.endLow
  have hafter := hserving.unsent.high
  refine ⟨h.replied (handOver_mem hp).2 hcurrent hserving (by omega) ?_ ?_ ?_ ?_, ?_⟩
  · intro q hq
    obtain ⟨i, hi, rfl⟩ := List.mem_map.mp (List.mem_reverse.mp hq)
    have hlt : (i : Int) < count := by exact_mod_cast List.mem_range.mp hi
    exact ⟨_, rfl, by omega, by omega⟩
  · intro i hi hn
    refine List.mem_reverse.mpr (List.mem_map.mpr
      ⟨(i - data.windowEnd - 1).toNat, List.mem_range.mpr (by omega), ?_⟩)
    congr 1
    omega
  · intro hlt hall
    by_cases hz : count = 0
    · rw [hz] at hmore hpositive
      rw [hmore, Nat.cast_zero, add_zero] at hall ⊢
      refine h.acked_rest hp hm ?_ (by omega) hall
      rintro rfl
      exact absurd (hpositive (by omega) (by omega)) (lt_irrefl 0)
    · have hnext := h.arrived (data.windowEnd + 1) (by omega) (by omega)
        (hall _ (by omega) (by omega))
      omega
  · intro hlt hprev'
    rw [hprev] at hprev'
    have := ofInt32_inj (by omega) (by omega) (by omega) (by omega) hprev'
    have := hpositive (by omega) (by omega)
    omega
  · have hweight := weight_afterAck after.windowEnd b.expected sender
      ((List.range count).map
        (fun i : Nat => dataPacket link.endian data (data.windowEnd + 1 + i))).reverse hp hm
    have hsum := dataWeight_sum_le h.scanned.low link.endian (onWire link.endian
      ((List.range count).map
        (fun i : Nat => dataPacket link.endian data (data.windowEnd + 1 + i))).reverse)
    have hcount : (onWire link.endian ((List.range count).map
        (fun i : Nat => dataPacket link.endian data (data.windowEnd + 1 + i))).reverse).length =
        count := by simp [onWire]
    have hpos : 0 < ackWeight m := by
      simp only [ackWeight]
      omega
    have hdrop : weight link after.windowEnd b.expected x + 2051 * count =
        weight link data.windowEnd b.expected x := by
      simp only [weight]
      omega
    omega

end Replies

theorem Going.reply (h : Going link name chunk n j data b x) {now : Int} {memory : Stray}
    (hp : handOver i x.toSender = some (p, rest))
    (hharmless : ∀ t ∈ dummyHead memory.dummy :: x.sender.pTracker, Harmless now t) :
    ∃ after,
      Going link name chunk n j after b
        (link.step inDownload x (.deliverToSender i now memory)) ∧
      weight link after.windowEnd b.expected
        (link.step inDownload x (.deliverToSender i now memory)) <
          weight link data.windowEnd b.expected x := by
  obtain ⟨m, hm, hlow, hhigh⟩ := h.toSender p (handOver_mem hp).1
  have hreach := h.reach
  obtain ⟨after, _, packets, next, hanswer, hnext, hhandled⟩ :=
    handlePacket_reply hm hlow now memory h.current
  obtain ⟨hserving, hreplied⟩ := h.serving.answered (by omega) (by omega) hanswer
  have hdata := hreplied.isData h.serving.endLow hserving.unsent.high (by omega)
  obtain ⟨tracker, hstep⟩ := deliver_ack hp hhandled hdata hharmless
  have hcurrent : getDataBySocket link.receiverId { next with pTracker := tracker }.list =
    some after := hnext
  rw [hstep]
  cases hreplied with
  | late hack => exact ⟨data, h.late hp hm hhigh hack hcurrent⟩
  | third after hprev hcount hsame hkept =>
    exact ⟨after, h.third hp hm hlow hhigh hcurrent hserving hprev hcount hsame hkept⟩
  | moved after count hmore hprev hpositive =>
    exact ⟨after, h.moved hp hm hlow hhigh hcurrent hserving hmore hprev hpositive⟩

omit [Rate R] in
theorem Going.complete (h : Going link name chunk n j data b x) (hreceiver : x.toReceiver = [])
    (hsender : x.toSender = []) : Complete b := by
  have hall : ∀ i, 0 ≤ i → i ≤ data.windowEnd → (b.chunks i).recved = true := by
    intro i hi hn
    obtain hr | ⟨q, hq, _⟩ := h.held i hi hn
    · exact hr
    · simp [hreceiver] at hq
  have hend : ¬data.windowEnd < 511 := by
    intro hlt
    obtain ⟨q, hq, _⟩ := h.acked hlt hall
    simp [hsender] at hq
  exact fun i hi hn => hall i hi (by omega)

omit [Rate R] in
theorem handOver_lt {l : List DataPacket} (h : i < l.length) :
    ∃ p rest, handOver i l = some (p, rest) := by
  rw [handOver, List.getElem?_eq_getElem h]
  exact ⟨_, _, rfl⟩

theorem delivers_data {memory : Stray} (hi : i < x.toReceiver.length) (now : Int) (stray : Stray) :
    Delivers link memory x (link.step inDownload x (.deliverToReceiver i now stray)) :=
  ⟨[], .deliverToReceiver i now stray, trivial, hi, rfl⟩

theorem delivers_ack {now : Int} {memory : Stray} (hi : i < x.toSender.length)
    (hharmless : ∀ t ∈ dummyHead memory.dummy :: x.sender.pTracker, Harmless now t) :
    Delivers link memory x (link.step inDownload x (.deliverToSender i now memory)) :=
  ⟨[], .deliverToSender i now memory, trivial, ⟨hi, rfl, hharmless⟩, rfl⟩

theorem atRest_iff {memory : Stray} (hidle : x.receiver.pTracker = []) :
    AtRest (Delivers link memory) x ↔ x.toReceiver = [] ∧ x.toSender = [] := by
  constructor
  · intro h
    refine ⟨?_, ?_⟩
    · by_contra hne
      exact h _ (delivers_data (List.length_pos_iff.mpr hne) 0 memory)
    · by_contra hne
      obtain ⟨now, hharmless⟩ := exists_harmless (dummyHead memory.dummy :: x.sender.pTracker)
      exact h _ (delivers_ack (List.length_pos_iff.mpr hne) hharmless)
  · rintro ⟨hreceiver, hsender⟩ y ⟨ticks, move, hticks, harrives, _⟩
    have hcalm := calm_idles hidle ticks hticks
    cases move with
    | deliverToReceiver i now stray =>
      rw [Arrives, ← hcalm.toReceiver, hreceiver] at harrives
      exact absurd harrives (Nat.not_lt_zero _)
    | deliverToSender i now stray =>
      rw [Arrives, ← hcalm.toSender, hsender] at harrives
      exact absurd harrives.1 (Nat.not_lt_zero _)
    | _ => exact harrives

/-- The weight of an exchange, read off its state. -/
def size (link : Link) (x : System R) : Nat :=
  weight link
    (((getDataBySocket link.receiverId x.sender.list).map (fun data => data.windowEnd)).getD 0)
    ((x.receiver.recvList.head?.map (fun b => b.expected)).getD 0) x

omit [Rate R] in
theorem Going.size_eq (h : Going link name chunk n j data b x) :
    size link x = weight link data.windowEnd b.expected x := by
  obtain ⟨old, hl, _⟩ := h.filling.buffers
  rw [size, h.current, hl]
  rfl

omit [Rate R] in
theorem Going.calm {y : System R} (h : Going link name chunk n j data b x) (hc : Calm x y) :
    Going link name chunk n j data b y ∧ size link y = size link x := by
  refine ⟨⟨hc.receiver.pTracker.symm.trans h.idle, Filling.same h.filling hc.receiver, h.scanned,
    hc.list ▸ h.current, h.serving, hc.toReceiver ▸ h.toReceiver, hc.toSender ▸ h.toSender,
    h.arrived, hc.toReceiver ▸ h.held, hc.toSender ▸ h.acked, h.fresh⟩, ?_⟩
  rw [size, size, weight, weight, hc.list, hc.receiver.recvList, hc.toReceiver, hc.toSender]

theorem Going.delivers {memory : Stray} {y : System R} (h : Going link name chunk n j data b x)
    (hj : j < n) (hy : Delivers link memory x y) :
    (∃ data b, Going link name chunk n j data b y) ∧ size link y < size link x := by
  obtain ⟨ticks, move, hticks, harrives, rfl⟩ := hy
  obtain ⟨hidle, hsize⟩ := h.calm (calm_idles h.idle ticks hticks)
  rw [← hsize]
  generalize run (link.step inDownload) x ticks = x at hidle harrives
  cases move with
  | deliverToReceiver i now stray =>
    obtain ⟨p, rest, hp⟩ := handOver_lt harrives
    obtain ⟨after, hafter, hlt⟩ := hidle.receive hj now stray hp
    exact ⟨⟨data, after, hafter⟩, hafter.size_eq.trans_lt (hlt.trans_eq hidle.size_eq.symm)⟩
  | deliverToSender i now stray =>
    obtain ⟨hi, rfl, hharmless⟩ := harrives
    obtain ⟨p, rest, hp⟩ := handOver_lt hi
    obtain ⟨after, hafter, hlt⟩ := hidle.reply hp hharmless
    exact ⟨⟨after, b, hafter⟩, hafter.size_eq.trans_lt (hlt.trans_eq hidle.size_eq.symm)⟩
  | _ => exact absurd harrives id

/-- In whatever order the packets arrive, they stop, and then the chunk is
complete. -/
theorem Going.settles {memory : Stray} (h : Going link name chunk n j data b x) (hj : j < n) :
    Settles (Delivers link memory) (fun y => y.receiver.pTracker = [] ∧ y.toReceiver = [] ∧
      y.toSender = [] ∧ ∃ b, Complete b ∧ Filling link name chunk n j b y.receiver) x := by
  refine settles_of_measure (I := fun y => ∃ data b, Going link name chunk n j data b y)
    (size link) ?_ ?_ ⟨data, b, h⟩
  · rintro y z ⟨data, b, hy⟩ hz
    exact hy.delivers hj hz
  · rintro y ⟨data, b, hy⟩ hrest
    obtain ⟨hreceiver, hsender⟩ := (atRest_iff hy.idle).mp hrest
    exact ⟨hy.idle, hreceiver, hsender, b, hy.complete hreceiver hsender, hy.filling⟩

end Steps

end P2PCC.Lossless

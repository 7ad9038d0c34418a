import P2PCC.Sender

namespace P2PCC.Window

open P2PCC.Lib.ByteOrder P2PCC.Packet P2PCC.Tracker P2PCC.Sender

variable {R : Type}

/-- Nothing behind the end of the window has been sent. -/
structure Unsent (data : Data R) : Prop where
  low : -1 ≤ data.windowEnd
  high : data.windowEnd ≤ 511
  beyond : ∀ i, data.windowEnd < i → i < 512 → data.state i = .unsend

theorem Unsent.agree {data other : Data R} (h : Unsent data) (ha : other.Agree data) :
    Unsent other := by
  refine ⟨?_, ?_, ?_⟩
  · rw [ha.windowEnd]
    exact h.low
  · rw [ha.windowEnd]
    exact h.high
  · rw [ha.windowEnd, ha.state]
    exact h.beyond

theorem Unsent.sent {data : Data R} (h : Unsent data) {i : Int} (hi : i < 512)
    (hs : data.state i ≠ .unsend) : i ≤ data.windowEnd := by
  by_contra hlt
  exact hs (h.beyond i (by omega) hi)

theorem Unsent.ackRange {data : Data R} (h : Unsent data) (i : Int) (m : Nat)
    (hs : ∀ j, i ≤ j → j < i + m → data.state j ≠ .unsend) : Unsent (data.ackRange i m) := by
  refine ⟨h.low, h.high, ?_⟩
  intro j hj hn
  have hout : ¬(i ≤ j ∧ j < i + m) := fun hr => by
    have hle := h.sent hn (hs j hr.1 hr.2)
    simp only [Data.ackRange] at hj
    omega
  simp only [Data.ackRange, if_neg hout]
  exact h.beyond j hj hn

theorem Unsent.sendMore {data : Data R} (h : Unsent data) (k : Nat)
    (hk : data.windowEnd + k ≤ 511) : Unsent (data.sendMore k) := by
  have hlow := h.low
  refine ⟨?_, hk, ?_⟩
  · simp only [Data.sendMore]
    omega
  · intro i hi hn
    simp only [Data.sendMore] at hi ⊢
    rw [if_neg (by omega)]
    exact h.beyond i (by omega) hn

theorem quota_le {data : Data R} (h : data.windowEnd ≤ 511) :
    data.windowEnd + data.quota ≤ 511 := by
  simp only [Data.quota, chunkPacketNumber]
  omega

variable [Rate R]

theorem unsent_newElement (uninit : Uninit) (socket offset : Int) (content : Int → Byte) :
    Unsent (newElement uninit socket offset content : Data R) := by
  refine ⟨le_rfl, by simp [newElement], ?_⟩
  intro i hi hn
  simp only [newElement] at hi ⊢
  exact if_pos ⟨by omega, hn⟩

theorem sendData_initDatalist (e : Endian) (uninit : Uninit) (socket offset : Int)
    (content : Int → Byte) (list : List (Data R)) :
    sendData e socket (initDatalist uninit socket offset content list) =
      ((newElement uninit socket offset content).sendMore 1 :: list,
        [dataPacket e (newElement uninit socket offset content : Data R) 0]) := by
  have hq : (newElement uninit socket offset content : Data R).quota = 1 := rfl
  have hfind : getDataBySocket socket (initDatalist uninit socket offset content list) =
      some (newElement uninit socket offset content) := by
    simp [getDataBySocket, initDatalist, newElement]
  have hset : ∀ data : Data R, setData socket data
      (initDatalist uninit socket offset content list) = data :: list := by
    intro data
    simp [setData, initDatalist, newElement, Lib.FirstMatch.modifyFirst]
  rw [sendData, hfind]
  dsimp only
  rw [hset, Data.send_eq, hq]
  rfl

variable {e : Endian} {ackNumber : Int} {data after : Data R} {before tracker : List PacketTracker}
  {packets : List DataPacket}

omit [Rate R] in
theorem noteAck_unsent (h : Unsent data) (ackNumber : Int) : Unsent (data.noteAck ackNumber) :=
  ⟨h.low, h.high, h.beyond⟩

omit [Rate R] in
theorem accepted_unsent (h : Unsent data)
    (hsent : ∀ j, data.windowStart + 1 ≤ j → j ≤ min ackNumber 511 → data.state j ≠ .unsend) :
    Unsent ((data.noteAck ackNumber).ackRange (data.windowStart + 1)
      (min ackNumber 511 - data.windowStart).toNat) := by
  by_cases hpos : data.windowStart ≤ min ackNumber 511
  · refine (noteAck_unsent h ackNumber).ackRange _ _ ?_
    exact fun j hl hu => hsent j hl (by omega)
  · have hz : (min ackNumber 511 - data.windowStart).toNat = 0 := by omega
    rw [hz, Data.ackRange_zero]
    exact noteAck_unsent h ackNumber

theorem answered_unsent (hw : Unsent data)
    (h : Answered e ackNumber data before after tracker packets) : Unsent after := by
  cases h with
  | rejected hack => exact hw
  | duplicate hack hprev hcount after hagree hwindow =>
    have hcounted : Unsent { data with countAck := data.countAck + 1 } :=
      ⟨hw.low, hw.high, hw.beyond⟩
    exact hcounted.agree hagree
  | unsent hack m hm hstate hsent tracker htracker =>
    exact (noteAck_unsent hw ackNumber).ackRange _ _ hsent
  | accepted hack hfresh hsent mid hagree hwindow tracker htracker =>
    have hacked := accepted_unsent hw hsent
    have hstarted : Unsent { (data.noteAck ackNumber).ackRange (data.windowStart + 1)
        (min ackNumber 511 - data.windowStart).toNat with windowStart := ackNumber } :=
      ⟨hacked.low, hacked.high, hacked.beyond⟩
    have hmid : Unsent mid := hstarted.agree hagree
    exact hmid.sendMore _ (quota_le hmid.high)

theorem answered_acked (hw : Unsent data)
    (h : Answered e ackNumber data before after tracker packets) {i : Int} (hi : i < 512)
    (hs : data.state i = .acked) : after.state i = .acked := by
  cases h with
  | rejected hack => exact hs
  | duplicate hack hprev hcount after hagree hwindow =>
    rw [hagree.state]
    exact hs
  | unsent hack m hm hstate hsent tracker htracker =>
    simp only [Data.ackRange, Data.noteAck]
    split
    · rfl
    · exact hs
  | accepted hack hfresh hsent mid hagree hwindow tracker htracker =>
    have hle := hw.sent hi (by rw [hs]; decide)
    have hend : mid.windowEnd = data.windowEnd := hagree.windowEnd
    have hout : ¬(mid.windowEnd < i ∧ i ≤ mid.windowEnd + mid.quota) := by omega
    simp only [Data.sendMore]
    rw [if_neg hout, hagree.state]
    simp only [Data.ackRange, Data.noteAck]
    split
    · rfl
    · exact hs

theorem answered_acked_of (h : Answered e ackNumber data before after tracker packets) {i : Int}
    (hs : after.state i = .acked) : data.state i = .acked ∨ i ≤ ackNumber := by
  cases h with
  | rejected hack => exact Or.inl hs
  | duplicate hack hprev hcount after hagree hwindow =>
    rw [hagree.state] at hs
    exact Or.inl hs
  | unsent hack m hm hstate hsent tracker htracker =>
    simp only [Data.ackRange, Data.noteAck] at hs
    split at hs
    · exact Or.inr (by omega)
    · exact Or.inl hs
  | accepted hack hfresh hsent mid hagree hwindow tracker htracker =>
    simp only [Data.sendMore] at hs
    split at hs
    · cases hs
    · rw [hagree.state] at hs
      simp only [Data.ackRange, Data.noteAck] at hs
      split at hs
      · exact Or.inr (by omega)
      · exact Or.inl hs

theorem answered_keeps (hw : Unsent data)
    (h : Answered e ackNumber data before after tracker packets) {t : PacketTracker}
    (ht : t ∈ before) (hi : t.seq - 1 < 512)
    (hs : t.sock = data.socket → after.state (t.seq - 1) ≠ .acked) : t ∈ tracker := by
  cases h with
  | rejected hack => exact ht
  | duplicate hack hprev hcount after hagree hwindow => exact ht
  | unsent hack m hm hstate hsent tracker htracker => exact htracker.keeps t ht hs
  | accepted hack hfresh hsent mid hagree hwindow tracker htracker =>
    have hacked := accepted_unsent hw hsent
    refine htracker.keeps t ht ?_
    intro hsock hmid
    rw [hagree.socket] at hsock
    apply hs hsock
    rw [hagree.state] at hmid
    have hle : t.seq - 1 ≤ mid.windowEnd := by
      rw [hagree.windowEnd]
      exact hacked.sent hi (by rw [hmid]; decide)
    have hout : ¬(mid.windowEnd < t.seq - 1 ∧ t.seq - 1 ≤ mid.windowEnd + mid.quota) := by omega
    simp only [Data.sendMore]
    rw [if_neg hout, hagree.state]
    exact hmid

/-- The sequence numbers of the packets an ACK makes the sender emit. -/
def Sends (data : Data R) (ackNumber k : Int) : Prop :=
  ackNumber ≤ 512 ∧
    ((data.prevAck = BitVec.ofInt 32 ackNumber ∧ 1 ≤ data.countAck ∧ ackNumber < 511 ∧
        k = ackNumber + 2) ∨
      ((data.prevAck = BitVec.ofInt 32 ackNumber → data.countAck < 1) ∧
        (∀ j, data.windowStart + 1 ≤ j → j ≤ min ackNumber 511 → data.state j ≠ .unsend) ∧
        data.windowEnd + 1 < k ∧ k ≤ min (ackNumber + data.grownWindow) 511 + 1))

theorem answered_sends (hw : Unsent data) (hlow : -2147483648 ≤ ackNumber)
    (h : Answered e ackNumber data before after tracker packets) :
    ∀ p ∈ packets, ∃ k, Sends data ackNumber k ∧ p.seq = k ∧ p = dataPacket e data (k - 1) := by
  cases h with
  | rejected hack => simp
  | duplicate hack hprev hcount after hagree hwindow =>
    intro p hp
    split at hp
    · rename_i hlt
      obtain rfl := List.mem_singleton.mp hp
      refine ⟨ackNumber + 2, ⟨hack, Or.inl ⟨hprev, hcount, hlt, rfl⟩⟩, ?_, ?_⟩
      · rw [dataPacket_seq e data _ (by omega) (by omega), add_assoc]
        rfl
      · rw [show ackNumber + 2 - 1 = ackNumber + 1 by omega]
    · simp at hp
  | unsent hack m hm hstate hsent tracker htracker => simp
  | accepted hack hfresh hsent mid hagree hwindow tracker htracker =>
    intro p hp
    obtain ⟨i, hi, rfl⟩ := List.mem_map.mp (List.mem_reverse.mp hp)
    have hlt : (i : Int) < mid.quota := by exact_mod_cast List.mem_range.mp hi
    have hend := hagree.windowEnd
    have hstart := hagree.windowStart
    simp only [Data.ackRange, Data.noteAck] at hend hstart
    simp only [Data.quota, chunkPacketNumber, hwindow, hend, hstart] at hlt
    have hlow' := hw.low
    have hhigh := hw.high
    refine ⟨data.windowEnd + 1 + i + 1, ⟨hack, Or.inr ⟨hfresh, hsent, by omega, by omega⟩⟩, ?_, ?_⟩
    · exact dataPacket_seq e data _ (by omega) (by omega)
    · rw [show data.windowEnd + 1 + (i : Int) + 1 - 1 = data.windowEnd + 1 + i by omega]

end P2PCC.Window

import P2PCC.Lib.Runs
import P2PCC.Window

namespace P2PCC.SendingLaw

open P2PCC.Lib.ByteOrder P2PCC.Lib.Runs P2PCC.Packet P2PCC.Tracker P2PCC.Sender P2PCC.Window

variable {R : Type}

/-- The transfers and the tracker of a sender, and what `send_data` has
returned for one of its peers, oldest first. -/
structure Sending (R : Type) where
  list : List (Data R)
  pTracker : List PacketTracker
  log : List DataPacket

/-- An ACK with its number, or a call of `process_packet_loss` with a socket. -/
inductive AckEvent where
  | ack (ackNum : Int)
  | loss (socket : Int)

section Definitions

variable [Rate R] (e : Endian) (socket : Int)

/-- What the call of `send_data` in `handle_ack` returns: a third duplicate
is answered without it. -/
def sendDataReply (ackNumber : Int) (list : List (Data R)) (pTracker : List PacketTracker) :
    List DataPacket :=
  match getDataBySocket socket list with
  | none => []
  | some data =>
    if (checkReturnAck data ackNumber).1 = 1 then []
    else (handleAck e socket ackNumber list pTracker).2.2

def sendStep (s : Sending R) : AckEvent → Sending R
  | .ack ackNum =>
    let handled := handleAck e socket (ackNum - 1) s.list s.pTracker
    { list := handled.1
      pTracker := handled.2.1
      log := s.log ++ (sendDataReply e socket (ackNum - 1) s.list s.pTracker).reverse }
  | .loss peer => { s with list := processPacketLoss peer s.list }

/-- A transfer after `init_datalist` and the first `send_data`. -/
def sendStart (uninit : Uninit) (offset : Int) (content : Int → Byte) (list : List (Data R))
    (pTracker : List PacketTracker) : Sending R :=
  let sent := sendData e socket (initDatalist uninit socket offset content list)
  { list := sent.1, pTracker := pTracker, log := sent.2.reverse }

end Definitions

/-- The packets so far are those of the indices up to the end of the window,
each once and in order; the states follow the window. -/
structure Law (content : Int → Byte) (data : Data R) (log : List DataPacket) : Prop where
  length : log.length = data.windowEnd + 1
  packets : ∀ k (h : k < log.length), log[k].seq = k + 1 ∧ log[k].data = slice content k
  startLow : -1 ≤ data.windowStart
  startEnd : data.windowStart ≤ data.windowEnd
  endHigh : data.windowEnd ≤ 511
  window : 1 ≤ data.sendWindow
  unsend : ∀ i, 0 ≤ i → i < 512 → (data.state i = .unsend ↔ data.windowEnd < i)
  acked : ∀ i, 0 ≤ i → i ≤ data.windowStart → data.state i = .acked

theorem Law.unsent {content : Int → Byte} {data : Data R} {log : List DataPacket}
    (h : Law content data log) : Unsent data := by
  refine ⟨?_, h.endHigh, ?_⟩
  · have hlow := h.startLow
    have hend := h.startEnd
    omega
  · intro i hi hn
    have hlow := h.startLow
    have hend := h.startEnd
    exact (h.unsend i (by omega) hn).mpr hi

theorem Law.agree {content : Int → Byte} {data other : Data R} {log : List DataPacket}
    (h : Law content data log) (ha : other.Agree data) (hw : 1 ≤ other.sendWindow) :
    Law content other log := by
  obtain ⟨_, _, _, hstate, hstart, hend, _, _⟩ := ha
  refine ⟨?_, h.packets, ?_, ?_, ?_, hw, ?_, ?_⟩
  · rw [hend]
    exact h.length
  · rw [hstart]
    exact h.startLow
  · rw [hstart, hend]
    exact h.startEnd
  · rw [hend]
    exact h.endHigh
  · rw [hstate, hend]
    exact h.unsend
  · rw [hstate, hstart]
    exact h.acked

theorem Law.sendMore {content : Int → Byte} {data : Data R} {log : List DataPacket}
    (h : Law content data log) (e : Endian) (cut : Data R) (hcut : cut.content = content) (n : Nat)
    (hn : data.windowEnd + n ≤ 511) :
    Law content (data.sendMore n) (log ++ (List.range n).map
      (fun i : Nat => dataPacket e cut (data.windowEnd + 1 + i))) := by
  have hlength := h.length
  have hstartLow := h.startLow
  have hstartEnd := h.startEnd
  refine ⟨?_, ?_, hstartLow, ?_, ?_, h.window, ?_, ?_⟩
  · simp only [List.length_append, List.length_map, List.length_range, Data.sendMore]
    push_cast
    omega
  · intro k hk
    by_cases hold : k < log.length
    · rw [List.getElem_append_left hold]
      exact h.packets k hold
    · have hk' : k - log.length < n := by
        simp only [List.length_append, List.length_map, List.length_range] at hk
        omega
      rw [List.getElem_append_right (by omega), List.getElem_map, List.getElem_range,
        dataPacket_data, hcut, dataPacket_seq e cut _ (by omega) (by omega),
        show data.windowEnd + 1 + ((k - log.length : Nat) : Int) = k by omega]
      exact ⟨rfl, rfl⟩
  · simp only [Data.sendMore]
    omega
  · exact hn
  · intro i hi hi'
    have hold := h.unsend i hi hi'
    simp only [Data.sendMore]
    split
    · exact ⟨fun hs => absurd hs (by decide), fun hlt => by omega⟩
    · rw [hold]
      omega
  · intro i hi hi'
    simp only [Data.sendMore] at hi' ⊢
    rw [if_neg (by omega)]
    exact h.acked i hi hi'

theorem checkReturnAck_third {data : Data R} {ackNum : Int} :
    (checkReturnAck data ackNum).1 = 1 ↔
      data.prevAck = BitVec.ofInt 32 ackNum ∧ 1 ≤ data.countAck := by
  obtain ⟨hone, hprev, hcount, _⟩ | ⟨hzero, hfresh, _⟩ := checkReturnAck_spec data ackNum
  · exact ⟨fun _ => ⟨hprev, hcount⟩, fun _ => hone⟩
  · constructor
    · intro hone
      omega
    · rintro ⟨hprev, hcount⟩
      have := hfresh hprev
      omega

section Answers

variable [Rate R] {e : Endian} {content : Int → Byte} {ackNumber : Int} {data after : Data R}
  {before tracker : List PacketTracker} {packets : List DataPacket} {log : List DataPacket}

omit [Rate R] in
theorem Law.ackRange (h : Law content data log) (ackNumber : Int) (m : Nat)
    (hm : data.windowStart + m ≤ data.windowEnd) :
    Law content ((data.noteAck ackNumber).ackRange (data.windowStart + 1) m) log := by
  have hlow := h.startLow
  refine ⟨h.length, h.packets, hlow, h.startEnd, h.endHigh, h.window, ?_, ?_⟩
  · intro i hi hi'
    have hold := h.unsend i hi hi'
    simp only [Data.ackRange, Data.noteAck]
    split
    · exact ⟨fun hs => absurd hs (by decide), fun hlt => by omega⟩
    · exact hold
  · intro i hi hi'
    simp only [Data.ackRange, Data.noteAck] at hi' ⊢
    rw [if_neg (by omega)]
    exact h.acked i hi hi'

/-- An ACK keeps the law, whatever it acknowledges. -/
theorem law_answered (hl : -1 ≤ ackNumber) (hu : ackNumber ≤ 511) (hc : data.content = content)
    (h : Law content data log)
    (ha : Answered e ackNumber data before after tracker packets) :
    Law content after
      (log ++ (if (checkReturnAck data ackNumber).1 = 1 then [] else packets).reverse) := by
  have hlow := h.startLow
  have hend := h.startEnd
  have hhigh := h.endHigh
  have hwindow := h.window
  cases ha with
  | rejected hack => omega
  | duplicate hack hprev hcount after hagree hone =>
    have hcounted : Law content { data with countAck := data.countAck + 1 } log :=
      ⟨h.length, h.packets, hlow, hend, hhigh, hwindow, h.unsend, h.acked⟩
    rw [if_pos (checkReturnAck_third.mpr ⟨hprev, hcount⟩), List.reverse_nil, List.append_nil]
    exact hcounted.agree hagree (by omega)
  | unsent hack m hm hstate hsent tracker htracker =>
    have hreach : data.windowStart + m ≤ data.windowEnd := by
      by_cases hz : m = 0
      · omega
      · have hlast := hsent (data.windowStart + m) (by omega) (by omega)
        exact h.unsent.sent (by omega) hlast
    rw [ite_self, List.reverse_nil, List.append_nil]
    exact h.ackRange ackNumber m hreach
  | accepted hack hfresh hsent mid hagree hgrown tracker htracker =>
    have hnot : ¬(checkReturnAck data ackNumber).1 = 1 := by
      rw [checkReturnAck_third]
      rintro ⟨hprev, hcount⟩
      have := hfresh hprev
      omega
    -- every packet up to the ACK has been sent, so the window has got that far
    have hreach : ackNumber ≤ data.windowEnd := by
      by_cases hnew : data.windowStart + 1 ≤ ackNumber
      · exact h.unsent.sent (by omega) (hsent ackNumber hnew (by omega))
      · omega
    have hacked := h.ackRange ackNumber
      (min ackNumber 511 - data.windowStart).toNat (by omega)
    have hmoved : Law content { (data.noteAck ackNumber).ackRange (data.windowStart + 1)
        (min ackNumber 511 - data.windowStart).toNat with windowStart := ackNumber } log := by
      refine ⟨h.length, h.packets, hl, hreach, hhigh, hwindow, hacked.unsend, ?_⟩
      intro i hi hi'
      dsimp only at hi' ⊢
      by_cases hold : i ≤ data.windowStart
      · exact hacked.acked i hi hold
      · simp only [Data.ackRange, Data.noteAck]
        exact if_pos (by omega)
    have hle := data.le_grownWindow
    have hmid := hmoved.agree hagree (by omega)
    have hmore := hmid.sendMore e data hc mid.quota (quota_le hmid.endHigh)
    have hsame : mid.windowEnd = data.windowEnd := hagree.windowEnd
    rw [hsame] at hmore
    rw [if_neg hnot, List.reverse_reverse]
    exact hmore

end Answers

section Runs

variable [Rate R] {e : Endian} {socket : Int} {content : Int → Byte}

/-- The current transfer of the socket obeys the law. -/
def Lawful (socket : Int) (content : Int → Byte) (s : Sending R) : Prop :=
  ∃ data, getDataBySocket socket s.list = some data ∧ data.content = content ∧
    Law content data s.log

omit [Rate R] in
theorem Law.newElement (uninit : Uninit) (socket offset : Int) (content : Int → Byte)
    [Rate R] : Law content (newElement uninit socket offset content : Data R) [] := by
  refine ⟨rfl, fun k h => absurd h (by simp), le_rfl, le_rfl, by simp [Sender.newElement], le_rfl,
    ?_, ?_⟩
  · intro i hi hn
    simp only [Sender.newElement]
    rw [if_pos ⟨hi, hn⟩]
    exact ⟨fun _ => by omega, fun _ => rfl⟩
  · intro i hi hle
    simp only [Sender.newElement] at hle
    omega

theorem sendStart_get (uninit : Uninit) (offset : Int) (content : Int → Byte)
    (list : List (Data R)) (pTracker : List PacketTracker) :
    getDataBySocket socket (sendStart e socket uninit offset content list pTracker).list =
      some ((newElement uninit socket offset content).sendMore 1) := by
  rw [sendStart, sendData_initDatalist]
  exact getDataBySocket_head rfl

theorem lawful_start (uninit : Uninit) (offset : Int) (list : List (Data R))
    (pTracker : List PacketTracker) :
    Lawful socket content (sendStart e socket uninit offset content list pTracker) := by
  have hnew := Law.newElement (R := R) uninit socket offset content
  have hmore := hnew.sendMore e (newElement uninit socket offset content) rfl 1
    (by simp [newElement])
  refine ⟨_, sendStart_get uninit offset content list pTracker, rfl, ?_⟩
  simpa [sendStart, sendData_initDatalist, newElement] using hmore

theorem sendStep_ack {s : Sending R} {data : Data R} (hd : getDataBySocket socket s.list = some data)
    (ackNum : Int) :
    getDataBySocket socket (sendStep e socket s (.ack ackNum)).list =
      some (data.answer e (ackNum - 1) s.pTracker).1 := by
  have hkept := (data.answer_answered e (ackNum - 1) s.pTracker).identity
  simp only [sendStep, handleAck_eq e (ackNum - 1) s.pTracker hd]
  exact getDataBySocket_setData hd (hkept.1.trans (getDataBySocket_socket hd))

theorem lawful_ack {s : Sending R} (h : Lawful socket content s) {ackNum : Int} (hl : 0 ≤ ackNum)
    (hu : ackNum ≤ 512) : Lawful socket content (sendStep e socket s (.ack ackNum)) := by
  obtain ⟨data, hd, hc, hlaw⟩ := h
  have ha := data.answer_answered e (ackNum - 1) s.pTracker
  have hkept := ha.identity
  have hafter := law_answered (by omega) (by omega) hc hlaw ha
  refine ⟨_, sendStep_ack hd ackNum, hkept.2.2.trans hc, ?_⟩
  · simpa only [sendStep, sendDataReply, hd, handleAck_eq e (ackNum - 1) s.pTracker hd] using hafter

theorem lawful_loss {s : Sending R} (h : Lawful socket content s) (peer : Int) :
    Lawful socket content (sendStep e socket s (.loss peer)) := by
  obtain ⟨data, hd, hc, hlaw⟩ := h
  by_cases hs : socket = peer
  · refine ⟨data.packetLoss, ?_, hc, hlaw.agree (packetLoss_agree data) le_rfl⟩
    simp only [sendStep]
    rw [getDataBySocket_processPacketLoss, if_pos hs, hd]
    rfl
  · refine ⟨data, ?_, hc, hlaw⟩
    simp only [sendStep]
    rw [getDataBySocket_processPacketLoss, if_neg hs, hd]

/-- The ACK numbers of the events are those of the receivers' buffers. -/
def InRange (low : Int) : AckEvent → Prop
  | .ack ackNum => low ≤ ackNum ∧ ackNum ≤ 512
  | .loss _ => True

theorem lawful_run (uninit : Uninit) (offset : Int) (list : List (Data R))
    (pTracker : List PacketTracker) (events : List AckEvent)
    (hr : ∀ event ∈ events, InRange 0 event) :
    Throughout (sendStep e socket) (Lawful socket content)
      (sendStart e socket uninit offset content list pTracker) events := by
  refine throughout_of_invariant (G := fun _ event => InRange 0 event) ?_ _ events
    (lawful_start uninit offset list pTracker)
    (along_of_forall _ events fun _ event he => hr event he)
  intro s event hs hin
  cases event with
  | ack ackNum => exact lawful_ack hs hin.1 hin.2
  | loss peer => exact lawful_loss hs peer

/-- The packets of all calls of `send_data` are the packets of the chunk from
the first on, and each call emits what the window allows. -/
theorem sending_law (e : Endian) (uninit : Uninit) (socket offset : Int) (content : Int → Byte)
    (list : List (Data R)) (pTracker : List PacketTracker) (events : List AckEvent)
    (hr : ∀ event ∈ events, InRange 0 event) :
    Throughout (sendStep e socket) (Lawful socket content)
        (sendStart e socket uninit offset content list pTracker) events ∧
      ∀ (list : List (Data R)) (data : Data R), getDataBySocket socket list = some data →
        ((sendData e socket list).2.length : Int) =
          max 0 (min (data.sendWindow - (data.windowEnd - data.windowStart))
            (511 - data.windowEnd)) := by
  refine ⟨lawful_run uninit offset list pTracker events hr, ?_⟩
  intro list data hd
  rw [sendData, hd]
  dsimp only
  rw [Data.send_eq, List.length_reverse, List.length_map, List.length_range, Data.quota,
    chunkPacketNumber]
  omega

/-- ACKs for the packets in order, a stale one, one for a packet that was
never sent, and a loss. -/
theorem sending_law_run :
    Throughout (sendStep .little 2) (Lawful 2 (fun i => BitVec.ofInt 8 i))
        (sendStart .little 2 ⟨0, 0, fun _ => .unsend⟩ 7 (fun i => BitVec.ofInt 8 i)
          ([] : List (Data ℚ)) []) [.ack 1, .ack 2, .ack 0, .ack 512, .loss 2, .ack 3] ∧
      ∀ (list : List (Data ℚ)) (data : Data ℚ), getDataBySocket 2 list = some data →
        ((sendData .little 2 list).2.length : Int) =
          max 0 (min (data.sendWindow - (data.windowEnd - data.windowStart))
            (511 - data.windowEnd)) :=
  sending_law .little ⟨0, 0, fun _ => .unsend⟩ 2 7 (fun i => BitVec.ofInt 8 i) [] []
    [.ack 1, .ack 2, .ack 0, .ack 512, .loss 2, .ack 3] (by simp [InRange])

end Runs

section Backward

variable [Rate R] {e : Endian} {socket : Int}

/-- The first packet of the window of the current transfer, less one. -/
def startOf (socket : Int) (s : Sending R) : Option Int :=
  (getDataBySocket socket s.list).map (fun data => data.windowStart)

/-- The window does not move backward at a step. -/
def Forward (e : Endian) (socket : Int) (s : Sending R) (event : AckEvent) : Prop :=
  ∀ start after, startOf socket s = some start →
    startOf socket (sendStep e socket s event) = some after → start ≤ after

/-- An ACK that is not older than the window. -/
def Current (socket : Int) (s : Sending R) : AckEvent → Prop
  | .ack ackNum => ∀ start, startOf socket s = some start → start ≤ ackNum - 1
  | .loss _ => True

/-- The last ACK that was noted is not older than the window, once there is
one. -/
def Noted (socket : Int) (s : Sending R) : Prop :=
  ∃ data, getDataBySocket socket s.list = some data ∧
    (data.windowStart = -1 ∨ data.windowStart ≤ data.prevAck.toInt)

theorem answered_noted {ackNumber : Int} {data after : Data R}
    {before tracker : List PacketTracker} {packets : List DataPacket} (hl : 0 ≤ ackNumber)
    (hn : data.windowStart = -1 ∨ data.windowStart ≤ data.prevAck.toInt)
    (ha : Answered e ackNumber data before after tracker packets) :
    (after.windowStart = -1 ∨ after.windowStart ≤ after.prevAck.toInt) ∧
      (ackNumber ≤ 511 → (data.windowStart ≤ after.windowStart ↔ data.windowStart ≤ ackNumber)) := by
  cases ha with
  | rejected hack => exact ⟨hn, fun hle => by omega⟩
  | duplicate hack hprev hcount after hagree hone =>
    have hvalue : data.prevAck.toInt = ackNumber := by
      rw [hprev]
      exact toInt_ofInt32 (by omega) (by omega)
    refine ⟨?_, fun _ => ?_⟩
    · rw [hagree.windowStart, hagree.prevAck]
      exact hn
    · rw [hagree.windowStart]
      dsimp only
      omega
  | unsent hack m hm hstate hsent tracker htracker =>
    have hvalue : (BitVec.ofInt 32 ackNumber).toInt = ackNumber :=
      toInt_ofInt32 (by omega) (by omega)
    simp only [Data.ackRange, Data.noteAck]
    omega
  | accepted hack hfresh hsent mid hagree hgrown tracker htracker =>
    have hvalue : (BitVec.ofInt 32 ackNumber).toInt = ackNumber :=
      toInt_ofInt32 (by omega) (by omega)
    have hstart : mid.windowStart = ackNumber := hagree.windowStart
    have hprev : mid.prevAck = BitVec.ofInt 32 ackNumber := hagree.prevAck
    refine ⟨Or.inr ?_, fun _ => ?_⟩
    · show mid.windowStart ≤ mid.prevAck.toInt
      rw [hstart, hprev, hvalue]
    · show data.windowStart ≤ mid.windowStart ↔ _
      rw [hstart]

theorem noted_start (uninit : Uninit) (offset : Int) (content : Int → Byte) (list : List (Data R))
    (pTracker : List PacketTracker) :
    Noted socket (sendStart e socket uninit offset content list pTracker) :=
  ⟨_, sendStart_get uninit offset content list pTracker, Or.inl rfl⟩

theorem noted_step {s : Sending R} {event : AckEvent} (hn : Noted socket s)
    (hr : InRange 1 event) : Noted socket (sendStep e socket s event) := by
  obtain ⟨data, hd, hdata⟩ := hn
  cases event with
  | ack ackNum =>
    obtain ⟨hl, hu⟩ := hr
    have ha := data.answer_answered e (ackNum - 1) s.pTracker
    exact ⟨_, sendStep_ack hd ackNum, (answered_noted (by omega) hdata ha).1⟩
  | loss peer =>
    refine ⟨if socket = peer then data.packetLoss else data, ?_, ?_⟩
    · simp only [sendStep]
      rw [getDataBySocket_processPacketLoss, hd]
      split <;> rfl
    · split <;> exact hdata

theorem forward_iff {s : Sending R} {event : AckEvent} (hn : Noted socket s)
    (hr : InRange 1 event) : Forward e socket s event ↔ Current socket s event := by
  obtain ⟨data, hd, hdata⟩ := hn
  have hstart : startOf socket s = some data.windowStart := by rw [startOf, hd]; rfl
  cases event with
  | ack ackNum =>
    obtain ⟨hl, hu⟩ := hr
    have ha := data.answer_answered e (ackNum - 1) s.pTracker
    have hiff := (answered_noted (by omega) hdata ha).2 (by omega)
    have hafter : startOf socket (sendStep e socket s (.ack ackNum)) =
        some (data.answer e (ackNum - 1) s.pTracker).1.windowStart := by
      rw [startOf, sendStep_ack hd ackNum]
      rfl
    constructor
    · intro hforward start hs
      obtain rfl := Option.some.inj (hstart.symm.trans hs)
      exact hiff.mp (hforward _ _ hstart hafter)
    · intro hcurrent start after hs hf
      obtain rfl := Option.some.inj (hstart.symm.trans hs)
      obtain rfl := Option.some.inj (hafter.symm.trans hf)
      exact hiff.mpr (hcurrent _ hstart)
  | loss peer =>
    refine ⟨fun _ => trivial, fun _ start after hs ha => ?_⟩
    simp only [sendStep, startOf] at hs ha
    rw [getDataBySocket_processPacketLoss, hd] at ha
    rw [hd] at hs
    obtain rfl := Option.some.inj hs
    split at ha <;> (obtain rfl := Option.some.inj ha; exact le_rfl)

/-- The window of a transfer moves backward nowhere in a run exactly when no
ACK of the run is older than the window it meets. -/
theorem window_forward_iff (e : Endian) (uninit : Uninit) (socket offset : Int)
    (content : Int → Byte) (list : List (Data R)) (pTracker : List PacketTracker)
    (events : List AckEvent) (hr : ∀ event ∈ events, InRange 1 event) :
    Along (sendStep e socket) (Forward e socket)
        (sendStart e socket uninit offset content list pTracker) events ↔
      Along (sendStep e socket) (Current socket)
        (sendStart e socket uninit offset content list pTracker) events := by
  have hin : Along (sendStep e socket) (fun _ event => InRange 1 event)
      (sendStart e socket uninit offset content list pTracker) events :=
    along_of_forall _ events fun _ event he => hr event he
  have hkeeps : ∀ (s : Sending R) event, Noted socket s →
      InRange 1 event ∧ Forward e socket s event → Noted socket (sendStep e socket s event) :=
    fun s event hs hg => noted_step hs hg.1
  have hiff : ∀ (s : Sending R) event, Noted socket s →
      (InRange 1 event ∧ Forward e socket s event ↔ InRange 1 event ∧ Current socket s event) :=
    fun s event hs => and_congr_right fun hin => forward_iff hs hin
  have hstart : Noted socket (sendStart e socket uninit offset content list pTracker) :=
    noted_start uninit offset content list pTracker
  have h := along_congr hkeeps hiff _ events hstart
  rw [along_and, along_and] at h
  simpa only [hin, true_and] using h

theorem window_forward_run :
    Along (sendStep .little 2) (Forward .little 2)
        (sendStart .little 2 ⟨0, 0, fun _ => .unsend⟩ 7 (fun i => BitVec.ofInt 8 i)
          ([] : List (Data ℚ)) []) [.ack 1, .loss 2, .ack 2] ↔
      Along (sendStep .little 2) (Current 2)
        (sendStart .little 2 ⟨0, 0, fun _ => .unsend⟩ 7 (fun i => BitVec.ofInt 8 i)
          ([] : List (Data ℚ)) []) [.ack 1, .loss 2, .ack 2] :=
  window_forward_iff .little ⟨0, 0, fun _ => .unsend⟩ 2 7 (fun i => BitVec.ofInt 8 i) [] []
    [.ack 1, .loss 2, .ack 2] (by simp [InRange])

/-- The ACK of packet 1 again, after that of packet 2. -/
theorem window_backward :
    ¬∀ (uninit : Uninit) (content : Int → Byte) (events : List AckEvent),
      (∀ event ∈ events, InRange 1 event) →
      Along (sendStep .little 2) (Forward .little 2)
        (sendStart .little 2 uninit 7 content ([] : List (Data ℚ)) []) events := by
  intro h
  have hrun := h ⟨0, 0, fun _ => .unsend⟩ (fun _ => 0) [.ack 1, .ack 2, .ack 1] (by simp [InRange])
  have hstep := hrun.2.2.1 1 0 (by decide +kernel) (by decide +kernel)
  exact absurd hstep (by decide)

end Backward

end P2PCC.SendingLaw

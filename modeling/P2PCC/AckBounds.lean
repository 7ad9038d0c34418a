import P2PCC.SendingLaw
import P2PCC.Timers
import P2PCC.Transfers

namespace P2PCC.AckBounds

open P2PCC.Lib.ByteOrder P2PCC.Lib.Runs P2PCC.Packet P2PCC.ChunkFile P2PCC.Tracker P2PCC.Sender
open P2PCC.HandlePacket P2PCC.Peer P2PCC.Receiving P2PCC.Window P2PCC.SendingLaw P2PCC.Timers
open P2PCC.Transfers

variable {R : Type}

section Unsent

theorem ackLoop_acked (socket : Int) (m n : Nat) (i : Int) (data : Data R)
    (pTracker : List PacketTracker) (hm : m < n)
    (hacked : ∀ j, i ≤ j → j < i + m → data.state j = .acked) (hstop : data.state (i + m) = .unsend) :
    ackLoop socket n i data pTracker = (false, data, pTracker) := by
  induction m generalizing n i with
  | zero =>
    obtain ⟨n, rfl⟩ : ∃ k, n = k + 1 := ⟨n - 1, by omega⟩
    rw [Nat.cast_zero, add_zero] at hstop
    rw [ackLoop, hstop]
  | succ m ih =>
    obtain ⟨n, rfl⟩ : ∃ k, n = k + 1 := ⟨n - 1, by omega⟩
    rw [ackLoop, hacked i le_rfl (by push_cast; omega)]
    refine ih n (i + 1) (by omega) (fun j hj hn => hacked j (by omega) (by push_cast; omega)) ?_
    rw [← hstop]
    congr 1
    push_cast
    omega

/-- No packet in front of the first one that was never sent waits for its
ACK; a third duplicate has to be that of the whole chunk. -/
structure Settled (data : Data R) (ackNumber : Int) : Prop where
  third : Third data ackNumber → ackNumber = 511
  first : ¬Third data ackNumber → ∀ j, data.windowStart < j →
    (∀ i, data.windowStart < i → i < j → data.state i ≠ .unsend) → data.state j ≠ .unacked

/-- The same for the call on the transfer. -/
structure Kept (data : Data R) (pTracker : List PacketTracker)
    (answer : Data R × List PacketTracker × List DataPacket) : Prop where
  reply : answer.2.2 = []
  tracker : answer.2.1 = pTracker
  state : answer.1.state = data.state
  windowStart : answer.1.windowStart = data.windowStart
  windowEnd : answer.1.windowEnd = data.windowEnd

variable [Rate R]

/-- The ACK is rejected, and changes neither the packets of the transfer, nor
its window, nor the tracker. -/
structure Rejects (e : Endian) (socket ackNum : Int) (list : List (Data R))
    (pTracker : List PacketTracker) (data : Data R) : Prop where
  reply : (handleAck e socket (ackNum - 1) list pTracker).2.2 = []
  tracker : (handleAck e socket (ackNum - 1) list pTracker).2.1 = pTracker
  transfer : ∃ after,
    getDataBySocket socket (handleAck e socket (ackNum - 1) list pTracker).1 = some after ∧
      after.state = data.state ∧ after.windowStart = data.windowStart ∧
      after.windowEnd = data.windowEnd

theorem rejects_iff {e : Endian} {socket ackNum : Int} {list : List (Data R)} {data : Data R}
    (hd : getDataBySocket socket list = some data) (pTracker : List PacketTracker) :
    Rejects e socket ackNum list pTracker data ↔
      Kept data pTracker (data.answer e (ackNum - 1) pTracker) := by
  have hsocket := (data.answer_answered e (ackNum - 1) pTracker).identity.1.trans
    (getDataBySocket_socket hd)
  have heq := handleAck_eq e (ackNum - 1) pTracker hd
  have hafter := getDataBySocket_setData hd hsocket
  constructor
  · rintro ⟨hreply, htracker, after, hget, hstate, hstart, hend⟩
    rw [heq] at hreply htracker hget
    obtain rfl := Option.some.inj (hafter.symm.trans hget)
    exact ⟨hreply, htracker, hstate, hstart, hend⟩
  · intro h
    refine ⟨?_, ?_, _, ?_, h.state, h.windowStart, h.windowEnd⟩
    · rw [heq]
      exact h.reply
    · rw [heq]
      exact h.tracker
    · rw [heq]
      exact hafter

theorem answer_stopped (e : Endian) {ackNumber : Int} {data : Data R} (h : Windowed data)
    (pTracker : List PacketTracker) (hlow : data.windowEnd + 1 ≤ ackNumber)
    (hhigh : ackNumber ≤ 511) (hfresh : ¬Third data ackNumber) :
    ∃ m : Nat, data.windowStart + 1 + m ≤ ackNumber ∧
      data.state (data.windowStart + 1 + m) = .unsend ∧
      (∀ j, data.windowStart + 1 ≤ j → j < data.windowStart + 1 + m → data.state j ≠ .unsend) ∧
      data.answer e ackNumber pTracker =
        ((data.noteAck ackNumber).ackRange (data.windowStart + 1) m,
          (ackPass data.socket ackNumber (data.noteAck ackNumber) pTracker).2.2, []) := by
  have hordered : data.windowStart ≤ data.windowEnd := by
    obtain hle | hend := h.ordered
    · exact hle
    · omega
  have hbeyond : data.state (data.windowEnd + 1) = .unsend :=
    h.unsent.beyond _ (by omega) (by omega)
  obtain ⟨m, hdm, hpass, ht, hu⟩ :=
    ackPass_spec data.socket ackNumber (data.noteAck ackNumber) pTracker
  have hsent : ∀ j, data.windowStart + 1 ≤ j → j < data.windowStart + 1 + m →
      data.state j ≠ .unsend := hpass
  have hflag : (ackPass data.socket ackNumber (data.noteAck ackNumber) pTracker).1 = false := by
    by_contra htrue
    have hm : m = (min ackNumber 511 - data.windowStart).toNat := ht (by simpa using htrue)
    exact hsent _ (by omega) (by omega) hbeyond
  obtain ⟨hle, hstop⟩ : data.windowStart + 1 + m ≤ min ackNumber 511 ∧
      data.state (data.windowStart + 1 + m) = .unsend := hu hflag
  refine ⟨m, by omega, hstop, hsent, ?_⟩
  rw [answer_fresh e pTracker (by omega) hfresh, acceptAck_stopped hflag]
  dsimp only
  rw [hdm]
  rfl

theorem kept_fresh_iff {e : Endian} {ackNumber : Int} {data : Data R} (h : Windowed data)
    (pTracker : List PacketTracker) (hlow : data.windowEnd + 1 ≤ ackNumber)
    (hhigh : ackNumber ≤ 511) (hfresh : ¬Third data ackNumber) :
    Kept data pTracker (data.answer e ackNumber pTracker) ↔
      ∀ j, data.windowStart < j →
        (∀ i, data.windowStart < i → i < j → data.state i ≠ .unsend) →
        data.state j ≠ .unacked := by
  obtain ⟨m, hle, hstop, hsent, hanswer⟩ := answer_stopped e h pTracker hlow hhigh hfresh
  constructor
  · intro hk j hj hbefore hunacked
    have hstate := hk.state
    rw [hanswer] at hstate
    have hcell := congrFun hstate j
    by_cases hin : j < data.windowStart + 1 + m
    · have hacked : data.state j = .acked := by
        rw [← hcell]
        exact if_pos ⟨by omega, hin⟩
      rw [hacked] at hunacked
      cases hunacked
    · by_cases hat : j = data.windowStart + 1 + m
      · have hnone : data.state j = .unsend := hat ▸ hstop
        rw [hnone] at hunacked
        cases hunacked
      · exact hbefore _ (by omega) (by omega) hstop
  · intro hfirst
    have hacked : ∀ j, data.windowStart + 1 ≤ j → j < data.windowStart + 1 + m →
        (data.noteAck ackNumber).state j = .acked := by
      intro j hj hn
      have hs : data.state j ≠ .unsend := hsent j hj hn
      have hw := hfirst j (by omega) fun i hi hij => hsent i (by omega) (by omega)
      show data.state j = .acked
      cases hstate : data.state j with
      | unsend => exact absurd hstate hs
      | unacked => exact absurd hstate hw
      | acked => rfl
    have hpasses : m < (min ackNumber (chunkPacketNumber - 1) - data.windowStart).toNat := by
      rw [chunkPacketNumber]
      omega
    have hloop : ackPass data.socket ackNumber (data.noteAck ackNumber) pTracker =
        (false, data.noteAck ackNumber, pTracker) :=
      ackLoop_acked data.socket m _ (data.windowStart + 1) (data.noteAck ackNumber) pTracker hpasses
        hacked hstop
    rw [answer_fresh e pTracker (by omega) hfresh, acceptAck_stopped (by rw [hloop]), hloop]
    exact ⟨rfl, rfl, rfl, rfl, rfl⟩

theorem kept_iff {e : Endian} {ackNumber : Int} {data : Data R} (h : Windowed data)
    (pTracker : List PacketTracker) (hlow : data.windowEnd + 1 ≤ ackNumber)
    (hhigh : ackNumber ≤ 511) :
    Kept data pTracker (data.answer e ackNumber pTracker) ↔ Settled data ackNumber := by
  by_cases hthird : Third data ackNumber
  · rw [answer_third e pTracker (by omega) hthird]
    constructor
    · intro hk
      refine ⟨fun _ => ?_, fun hfresh => absurd hthird hfresh⟩
      by_contra hne
      rw [if_pos (show ackNumber < 511 by omega)] at hk
      cases hk.reply
    · intro hs
      have hlast := hs.third hthird
      rw [if_neg (show ¬ackNumber < 511 by omega)]
      exact ⟨rfl, rfl, rfl, rfl, rfl⟩
  · rw [kept_fresh_iff h pTracker hlow hhigh hthird]
    exact ⟨fun hfirst => ⟨fun h => absurd h hthird, fun _ => hfirst⟩, fun hs => hs.first hthird⟩

/-- In every state of a process, an ACK for a packet that was never sent
changes nothing exactly when the packets that were sent are ACKED. -/
theorem unsent_ack_iff (e : Endian) (config : Config) (events : List Event) (socket : Int)
    (data : Data R)
    (hd : getDataBySocket socket (run (step e config) (Peer.init : Peer R) events).list = some data)
    (ackNum : Int) (hlow : data.windowEnd + 2 ≤ ackNum) (hhigh : ackNum ≤ 512) :
    Rejects e socket ackNum (run (step e config) (Peer.init : Peer R) events).list
        (run (step e config) (Peer.init : Peer R) events).pTracker data ↔
      Settled data (ackNum - 1) := by
  have hwindowed := windowed_run e config events data (List.mem_of_find?_eq_some hd)
  rw [rejects_iff hd]
  exact kept_iff hwindowed _ (by omega) (by omega)

/-- Peer 2 has sent a GET, and the first packet is on its way. -/
def served : Peer ℚ := run (step .little network) Peer.init [fromPeer 2 getPacket]

theorem served_end : (getDataBySocket 2 served.list).map (fun data => data.windowEnd) = some 0 := by
  decide +kernel

theorem unsent_ack_run : ∃ data, getDataBySocket 2 served.list = some data ∧
    (Rejects .little 2 512 served.list served.pTracker data ↔ Settled data (512 - 1)) := by
  obtain ⟨data, hd, hend⟩ := Option.map_eq_some_iff.mp served_end
  exact ⟨data, hd, unsent_ack_iff .little network [fromPeer 2 getPacket] 2 data hd 512 (by omega)
    (by omega)⟩

/-- The ACK of the whole chunk comes when only its first packet has been
sent: that one is ACKED. -/
theorem unsent_ack_applied :
    ¬∀ (events : List Event) (data : Data ℚ),
      getDataBySocket 2 (run (step .little network) (Peer.init : Peer ℚ) events).list = some data →
      ∀ ackNum, data.windowEnd + 2 ≤ ackNum → ackNum ≤ 512 →
        Rejects .little 2 ackNum (run (step .little network) (Peer.init : Peer ℚ) events).list
          (run (step .little network) (Peer.init : Peer ℚ) events).pTracker data := by
  intro h
  obtain ⟨data, hd, hend⟩ := Option.map_eq_some_iff.mp served_end
  have hbefore : (getDataBySocket 2 served.list).map (fun data => data.state 0) =
      some .unacked := by
    decide +kernel
  have hafter : (getDataBySocket 2 (handleAck .little 2 (512 - 1) served.list
      served.pTracker).1).map (fun data => data.state 0) = some .acked := by
    decide +kernel
  obtain ⟨_, _, after, hget, hstate, _⟩ := h [fromPeer 2 getPacket] data hd 512 (by omega) le_rfl
  have hget' : getDataBySocket 2 (handleAck .little 2 (512 - 1) served.list
      served.pTracker).1 = some after := hget
  rw [hget', Option.map_some, Option.some.injEq, hstate] at hafter
  rw [hd, Option.map_some, Option.some.injEq, hafter] at hbefore
  cases hbefore

end Unsent

section Indices

/-- The cells of `state` that the loop of `handle_ack` reads. -/
def ackReads (state : Int → PacketState) : Nat → Int → List Int
  | 0, _ => []
  | n + 1, i => i :: if state i = .unsend then [] else ackReads state n (i + 1)

/-- The packets that the loop of `send_data` cuts, each with its cell of
`state`. -/
def sendReads : Nat → Int → List Int
  | 0, _ => []
  | n + 1, windowEnd =>
    if windowEnd ≥ chunkPacketNumber - 1 then []
    else (windowEnd + 1) :: sendReads n (windowEnd + 1)

def sendIndices (data : Data R) : List Int :=
  let diff := data.windowEnd - data.windowStart
  if diff < data.sendWindow ∧ data.windowEnd ≤ chunkPacketNumber - 1 then
    sendReads (data.sendWindow - diff).toNat data.windowEnd
  else []

/-- The cells of `state`, and the packets of the content, that a call uses. -/
structure Indices where
  cells : List Int
  packets : List Int

theorem mem_ackReads_of_sent {state : Int → PacketState} {m n : Nat} {i j : Int}
    (hsent : ∀ k, i ≤ k → k < i + m → state k ≠ .unsend) (hl : i ≤ j) (hu : j < i + m)
    (hm : m ≤ n) : j ∈ ackReads state n i := by
  induction n generalizing m i with
  | zero => omega
  | succ n ih =>
    rw [ackReads, List.mem_cons, if_neg (hsent i le_rfl (by omega))]
    by_cases hj : j = i
    · exact Or.inl hj
    · right
      obtain ⟨m, rfl⟩ : ∃ k, m = k + 1 := ⟨m - 1, by omega⟩
      push_cast at hsent hu
      refine ih (m := m) (fun k hk hk' => hsent k (by omega) (by omega)) (by omega) (by omega)
        (by omega)

theorem mem_ackReads {state : Int → PacketState} {n : Nat} {i j : Int}
    (h : j ∈ ackReads state n i) : i ≤ j ∧ j < i + n := by
  induction n generalizing i with
  | zero => exact absurd h List.not_mem_nil
  | succ n ih =>
    rw [ackReads, List.mem_cons] at h
    push_cast
    obtain rfl | h := h
    · omega
    · split at h
      · exact absurd h List.not_mem_nil
      · have := ih h
        omega

theorem ackLoop_unread (socket : Int) (n : Nat) (i : Int) (data : Data R)
    (pTracker : List PacketTracker) {j : Int} (hj : j ∉ ackReads data.state n i) :
    (ackLoop socket n i data pTracker).2.1.state j = data.state j := by
  obtain ⟨m, hm, hd, hsent, _⟩ := ackLoop_spec socket n i data pTracker
  rw [hd]
  apply if_neg
  rintro ⟨hl, hu⟩
  refine hj (mem_ackReads_of_sent hsent hl hu (by omega))

theorem sendReads_eq (n : Nat) (windowEnd : Int) :
    sendReads n windowEnd = (List.range (min n (chunkPacketNumber - 1 - windowEnd).toNat)).map
      (fun i : Nat => windowEnd + 1 + i) := by
  induction n generalizing windowEnd with
  | zero => simp [sendReads]
  | succ n ih =>
    by_cases hend : windowEnd ≥ chunkPacketNumber - 1
    · have hz : (chunkPacketNumber - 1 - windowEnd).toNat = 0 := by omega
      simp [sendReads, hend, hz]
    · have hk : min (n + 1) (chunkPacketNumber - 1 - windowEnd).toNat =
          min n (chunkPacketNumber - 1 - (windowEnd + 1)).toNat + 1 := by omega
      rw [sendReads, if_neg hend, ih, hk, List.range_succ_eq_map, List.map_cons, List.map_map]
      congr 1
      · simp
      · apply List.map_congr_left
        intro i _
        simp only [Function.comp_apply, Nat.succ_eq_add_one]
        push_cast
        omega

theorem sendIndices_eq (data : Data R) : sendIndices data =
    (List.range data.quota).map (fun i : Nat => data.windowEnd + 1 + i) := by
  unfold sendIndices
  dsimp only
  split
  · rw [sendReads_eq]
    congr 2
    unfold Data.quota
    omega
  · have hq : data.quota = 0 := by
      unfold Data.quota
      omega
    rw [hq]
    rfl

theorem send_packets (e : Endian) (data : Data R) :
    (data.send e).2 = ((sendIndices data).map (dataPacket e data)).reverse := by
  rw [Data.send_eq, sendIndices_eq, List.map_map]
  rfl

theorem mem_sendIndices {data : Data R} {j : Int} :
    j ∈ sendIndices data ↔ data.windowEnd < j ∧ j ≤ data.windowEnd + data.quota := by
  rw [sendIndices_eq, List.mem_map]
  constructor
  · rintro ⟨i, hi, rfl⟩
    have := List.mem_range.mp hi
    omega
  · rintro ⟨hl, hu⟩
    exact ⟨(j - data.windowEnd - 1).toNat, List.mem_range.mpr (by omega), by omega⟩

/-- All cells are in the array, and all bytes of the packets in the chunk. -/
structure Indices.Valid (indices : Indices) : Prop where
  cells : ∀ i ∈ indices.cells, 0 ≤ i ∧ i ≤ 511
  bytes : ∀ k ∈ indices.packets, ∀ j : Nat, j < 1024 → 0 ≤ k * 1024 + j ∧ k * 1024 + j < 524288

theorem valid_packets {cells packets : List Int} (hcells : ∀ i ∈ cells, 0 ≤ i ∧ i ≤ 511)
    (hpackets : ∀ k ∈ packets, 0 ≤ k ∧ k ≤ 511) : Indices.Valid ⟨cells, packets⟩ := by
  refine ⟨hcells, fun k hk j hj => ?_⟩
  have := hpackets k hk
  omega

/-- The two ends of the window are where they have to be. -/
structure Bounded (data : Data R) : Prop where
  low : -1 ≤ data.windowStart
  ordered : data.windowStart ≤ data.windowEnd
  high : data.windowEnd ≤ 511

/-- The packets up to the end of the window have been sent, and no others. -/
structure Held (data : Data R) : Prop where
  bounded : Bounded data
  unsent : Unsent data
  sent : ∀ i, 0 ≤ i → i ≤ data.windowEnd → data.state i ≠ .unsend

/-- An ACK number that is not below that of the first packet, less one, nor
the one behind the last packet when that has been sent. -/
def Admissible (data : Data R) (ackNumber : Int) : Prop :=
  -1 ≤ ackNumber ∧ (ackNumber = 512 → data.windowEnd = 511 → Third data ackNumber)

variable [Rate R]

/-- The indices that `handle_ack` uses on the transfer it finds. -/
def ackIndices (data : Data R) (ackNumber : Int) (pTracker : List PacketTracker) : Indices :=
  if ackNumber > chunkPacketNumber then ⟨[], []⟩
  else
    let checked := checkReturnAck data ackNumber
    let data := checked.2
    if checked.1 = 1 then
      if ackNumber < chunkPacketNumber - 1 then ⟨[], [ackNumber + 1]⟩ else ⟨[], []⟩
    else
      let passes := (min ackNumber (chunkPacketNumber - 1) - data.windowStart).toNat
      let cells := ackReads data.state passes (data.windowStart + 1)
      match acceptAck data.socket ackNumber data pTracker with
      | (false, _, _) => ⟨cells, []⟩
      | (true, data, _) => ⟨cells ++ sendIndices data, sendIndices data⟩

theorem ackIndices_third {data : Data R} {ackNumber : Int} (pTracker : List PacketTracker)
    (hack : ackNumber ≤ 512) (h : Third data ackNumber) :
    (ackIndices data ackNumber pTracker).Valid ↔ (ackNumber < 511 → -1 ≤ ackNumber) := by
  have hsmall : ¬ackNumber > chunkPacketNumber := not_lt.mpr hack
  have hlast : ackNumber < chunkPacketNumber - 1 ↔ ackNumber < 511 := Iff.rfl
  have hone := checkReturnAck_third.mpr h
  simp only [ackIndices, hsmall, hone, hlast, ↓reduceIte]
  by_cases hlt : ackNumber < 511
  · rw [if_pos hlt]
    constructor
    · intro hvalid _
      have := (hvalid.bytes (ackNumber + 1) (List.mem_singleton.mpr rfl) 0 (by decide)).1
      omega
    · intro hlow
      have := hlow hlt
      refine valid_packets (by simp) fun k hk => ?_
      rw [List.mem_singleton.mp hk]
      omega
  · rw [if_neg hlt]
    exact ⟨fun _ h => absurd h hlt, fun _ => valid_packets (by simp) (by simp)⟩

theorem ackIndices_fresh {data : Data R} (hb : Bounded data) {ackNumber : Int}
    (pTracker : List PacketTracker) (h : ¬Third data ackNumber) :
    (ackIndices data ackNumber pTracker).Valid := by
  have hlow := hb.low
  have hordered := hb.ordered
  have hone : ¬(checkReturnAck data ackNumber).1 = 1 := fun hc => h (checkReturnAck_third.mp hc)
  obtain ⟨hzero, _⟩ | ⟨_, _, hd⟩ := checkReturnAck_spec data ackNumber
  · exact absurd hzero hone
  · unfold ackIndices
    split
    · exact valid_packets (by simp) (by simp)
    · simp only [hone, hd, ↓reduceIte]
      have hcells : ∀ i ∈ ackReads (data.noteAck ackNumber).state
          (min ackNumber (chunkPacketNumber - 1) - (data.noteAck ackNumber).windowStart).toNat
          ((data.noteAck ackNumber).windowStart + 1), 0 ≤ i ∧ i ≤ 511 := by
        intro i hi
        have hstart : (data.noteAck ackNumber).windowStart = data.windowStart := rfl
        have hrange := mem_ackReads hi
        rw [hstart, chunkPacketNumber] at hrange
        omega
      obtain ⟨m, tracker, hc | hc⟩ := acceptAck_cases (data.noteAck ackNumber).socket ackNumber
        (data.noteAck ackNumber) pTracker
      · rw [hc]
        exact valid_packets hcells (by simp)
      · rw [hc]
        have hsend : ∀ k ∈ sendIndices (congestionControl { (data.noteAck ackNumber).ackRange
            ((data.noteAck ackNumber).windowStart + 1) m with windowStart := ackNumber }),
            0 ≤ k ∧ k ≤ 511 := by
          intro k hk
          have hrange := mem_sendIndices.mp hk
          have hend := (congestionControl_agree { (data.noteAck ackNumber).ackRange
            ((data.noteAck ackNumber).windowStart + 1) m with windowStart := ackNumber }).windowEnd
          have hquota := quota_le (hend.trans_le hb.high)
          simp only [Data.ackRange, Data.noteAck] at hrange hend hquota
          omega
        refine valid_packets (fun i hi => ?_) hsend
        obtain hi | hi := List.mem_append.mp hi
        · exact hcells i hi
        · exact hsend i hi

theorem acceptAck_unread (socket ackNumber : Int) (data : Data R) (pTracker : List PacketTracker) :
    (acceptAck socket ackNumber data pTracker).2.1.content = data.content ∧
      (acceptAck socket ackNumber data pTracker).2.1.offset = data.offset ∧
      ∀ j, j ∉ ackReads data.state (min ackNumber (chunkPacketNumber - 1) -
          data.windowStart).toNat (data.windowStart + 1) →
        (acceptAck socket ackNumber data pTracker).2.1.state j = data.state j := by
  obtain ⟨m, hd, _⟩ := ackPass_spec socket ackNumber data pTracker
  have hunread : ∀ j, j ∉ ackReads data.state (min ackNumber (chunkPacketNumber - 1) -
      data.windowStart).toNat (data.windowStart + 1) →
      (ackPass socket ackNumber data pTracker).2.1.state j = data.state j :=
    fun _ hj => ackLoop_unread socket _ _ data pTracker hj
  have hcontent : (ackPass socket ackNumber data pTracker).2.1.content = data.content := by
    rw [hd]
    rfl
  have hoffset : (ackPass socket ackNumber data pTracker).2.1.offset = data.offset := by
    rw [hd]
    rfl
  cases hflag : (ackPass socket ackNumber data pTracker).1 with
  | false =>
    rw [acceptAck_stopped hflag]
    exact ⟨hcontent, hoffset, hunread⟩
  | true =>
    have hagree := congestionControl_agree
      { (ackPass socket ackNumber data pTracker).2.1 with windowStart := ackNumber }
    rw [acceptAck_through hflag, hagree.content, hagree.offset, hagree.state]
    exact ⟨hcontent, hoffset, hunread⟩

theorem answer_indices (e : Endian) (data : Data R) (ackNumber : Int)
    (pTracker : List PacketTracker) :
    (data.answer e ackNumber pTracker).2.2 =
        ((ackIndices data ackNumber pTracker).packets.map (dataPacket e data)).reverse ∧
      ∀ j, j ∉ (ackIndices data ackNumber pTracker).cells →
        (data.answer e ackNumber pTracker).1.state j = data.state j := by
  obtain ⟨count, prev, hchecked⟩ := checkReturnAck_eq data ackNumber
  unfold Data.answer ackIndices
  dsimp only
  rw [hchecked]
  split
  · exact ⟨rfl, fun _ _ => rfl⟩
  · split
    · split
      · exact ⟨rfl, fun _ _ => rfl⟩
      · exact ⟨rfl, fun _ _ => rfl⟩
    · have hunread := acceptAck_unread data.socket ackNumber
        ({ data with countAck := count, prevAck := prev } : Data R) pTracker
      generalize acceptAck data.socket ackNumber
        ({ data with countAck := count, prevAck := prev } : Data R) pTracker = r at hunread
      obtain ⟨flag, mid, tracker⟩ := r
      obtain ⟨hcontent, hoffset, hstate⟩ := hunread
      cases flag with
      | false => exact ⟨rfl, hstate⟩
      | true =>
        have hcut : dataPacket e mid = dataPacket e data := by
          funext index
          exact dataPacket_congr e hcontent hoffset index
        refine ⟨?_, fun j hj => ?_⟩
        · dsimp only
          rw [send_packets, hcut]
        · obtain ⟨hread, hsent⟩ := not_or.mp (List.mem_append.not.mp hj)
          dsimp only
          rw [Data.send_eq, ← hstate j hread]
          apply if_neg
          exact fun hin => hsent (mem_sendIndices.mpr hin)

omit [Rate R] in
theorem Bounded.agree {data other : Data R} (h : Bounded data) (ha : other.Agree data) :
    Bounded other := by
  refine ⟨?_, ?_, ?_⟩
  · rw [ha.windowStart]
    exact h.low
  · rw [ha.windowStart, ha.windowEnd]
    exact h.ordered
  · rw [ha.windowEnd]
    exact h.high

theorem answered_unsend {e : Endian} {ackNumber : Int} {data after : Data R}
    {before tracker : List PacketTracker} {packets : List DataPacket}
    (ha : Answered e ackNumber data before after tracker packets) {i : Int}
    (hs : after.state i = .unsend) :
    data.state i = .unsend ∧ ¬(data.windowEnd < i ∧ i ≤ after.windowEnd) := by
  cases ha with
  | rejected hack => exact ⟨hs, by omega⟩
  | duplicate hack hprev hcount after hagree hwindow =>
    rw [hagree.state] at hs
    rw [hagree.windowEnd]
    exact ⟨hs, by dsimp only; omega⟩
  | unsent hack m hm hstate hsent tracker htracker =>
    simp only [Data.ackRange, Data.noteAck] at hs ⊢
    split at hs
    · cases hs
    · exact ⟨hs, by omega⟩
  | accepted hack hfresh hsent mid hagree hwindow tracker htracker =>
    have hend : mid.windowEnd = data.windowEnd := hagree.windowEnd
    simp only [Data.sendMore] at hs ⊢
    rw [hend] at hs ⊢
    split at hs
    · cases hs
    · rename_i hout
      rw [hagree.state] at hs
      simp only [Data.ackRange, Data.noteAck] at hs
      split at hs
      · cases hs
      · exact ⟨hs, hout⟩

theorem held_answered {e : Endian} {ackNumber : Int} {data after : Data R}
    {before tracker : List PacketTracker} {packets : List DataPacket} (h : Held data)
    (ha : Answered e ackNumber data before after tracker packets) (hb : Bounded after) :
    Held after := by
  refine ⟨hb, answered_unsent h.unsent ha, fun i hi hle hs => ?_⟩
  obtain ⟨hbefore, hout⟩ := answered_unsend ha hs
  exact h.sent i hi (by omega) hbefore

theorem bounded_fresh {e : Endian} {ackNumber : Int} {data after : Data R}
    {before tracker : List PacketTracker} {packets : List DataPacket} (h : Held data)
    (hfresh : ¬Third data ackNumber)
    (ha : Answered e ackNumber data before after tracker packets) :
    Bounded after ↔ Admissible data ackNumber := by
  have hlow := h.bounded.low
  have hordered := h.bounded.ordered
  cases ha with
  | rejected hack => exact ⟨fun _ => ⟨by omega, by omega⟩, fun _ => h.bounded⟩
  | duplicate hack hprev hcount after hagree hwindow => exact absurd ⟨hprev, hcount⟩ hfresh
  | unsent hack m hm hstate hsent tracker htracker =>
    refine ⟨fun _ => ⟨by omega, fun _ hend => ?_⟩, fun _ => ⟨hlow, hordered, h.bounded.high⟩⟩
    exact absurd hstate (h.sent _ (by omega) (by omega))
  | accepted hack hnew hsent mid hagree hwindow tracker htracker =>
    have hwindowed : Windowed data := ⟨h.unsent, Or.inl hordered⟩
    have hreach := hwindowed.reach hsent
    have hstart : mid.windowStart = ackNumber := hagree.windowStart
    have hend : mid.windowEnd = data.windowEnd := hagree.windowEnd
    have hhigh := h.bounded.high
    have hquota : mid.windowEnd + mid.quota ≤ 511 := quota_le (by omega)
    constructor
    · intro hb
      have hl : -1 ≤ mid.windowStart := hb.low
      have ho : mid.windowStart ≤ mid.windowEnd + mid.quota := hb.ordered
      exact ⟨by omega, fun hlast hfull => by omega⟩
    · rintro ⟨hl, hlast⟩
      have hnot : ¬(ackNumber = 512 ∧ data.windowEnd = 511) :=
        fun hc => hfresh (hlast hc.1 hc.2)
      refine ⟨?_, ?_, hquota⟩
      · show -1 ≤ mid.windowStart
        omega
      · show mid.windowStart ≤ mid.windowEnd + mid.quota
        omega

theorem answer_bounds_iff {data : Data R} (h : Held data) (e : Endian) (ackNumber : Int)
    (pTracker : List PacketTracker) :
    (ackIndices data ackNumber pTracker).Valid ∧ Bounded (data.answer e ackNumber pTracker).1 ↔
      Admissible data ackNumber := by
  by_cases hack : ackNumber ≤ 512
  · by_cases hthird : Third data ackNumber
    · have hafter : Bounded (data.answer e ackNumber pTracker).1 := by
        rw [answer_third e pTracker hack hthird]
        split
        · exact ⟨h.bounded.low, h.bounded.ordered, h.bounded.high⟩
        · exact ⟨h.bounded.low, h.bounded.ordered, h.bounded.high⟩
      rw [ackIndices_third pTracker hack hthird, and_iff_left hafter]
      exact ⟨fun hlow => ⟨by omega, fun _ _ => hthird⟩, fun hs _ => hs.1⟩
    · rw [and_iff_right (ackIndices_fresh h.bounded pTracker hthird)]
      exact bounded_fresh h hthird (data.answer_answered e ackNumber pTracker)
  · have hlarge : ackNumber > chunkPacketNumber := not_le.mp hack
    have hindices : ackIndices data ackNumber pTracker = ⟨[], []⟩ := if_pos hlarge
    have hanswer : data.answer e ackNumber pTracker = (data, pTracker, []) := if_pos hlarge
    rw [hindices, hanswer]
    exact ⟨fun _ => ⟨by omega, by omega⟩,
      fun _ => ⟨valid_packets (by simp) (by simp), h.bounded⟩⟩

/-- An ACK packet with the number in its header, or a call of
`process_packet_loss` with a socket. -/
inductive PacketEvent where
  | ack (ackNum : BitVec 32)
  | loss (socket : Int)

/-- `handle_packet` passes the number less one, as an `int`. -/
def PacketEvent.event : PacketEvent → AckEvent
  | .ack ackNum => .ack ((ackNum - 1).toInt + 1)
  | .loss socket => .loss socket

def packetStep (e : Endian) (socket : Int) (s : Sending R) (p : PacketEvent) : Sending R :=
  sendStep e socket s p.event

/-- The call uses no index outside the objects, and leaves the window of the
transfer inside the chunk. -/
def Safe (e : Endian) (socket : Int) (s : Sending R) (p : PacketEvent) : Prop :=
  ∀ data, getDataBySocket socket s.list = some data →
    (∀ ackNum, p = .ack ackNum → (ackIndices data (ackNum - 1).toInt s.pTracker).Valid) ∧
      ∀ after, getDataBySocket socket (packetStep e socket s p).list = some after → Bounded after

/-- The number of the ACK is one that the transfer can be sent. -/
def Admitted (socket : Int) (s : Sending R) (p : PacketEvent) : Prop :=
  ∀ data, getDataBySocket socket s.list = some data →
    ∀ ackNum, p = .ack ackNum → Admissible data (ackNum - 1).toInt

def InProgress (socket : Int) (s : Sending R) : Prop :=
  ∃ data, getDataBySocket socket s.list = some data ∧ Held data

theorem packetStep_ack {e : Endian} {socket : Int} {s : Sending R} {data : Data R}
    (hd : getDataBySocket socket s.list = some data) (ackNum : BitVec 32) :
    getDataBySocket socket (packetStep e socket s (.ack ackNum)).list =
      some (data.answer e (ackNum - 1).toInt s.pTracker).1 := by
  have h := sendStep_ack (e := e) hd ((ackNum - 1).toInt + 1)
  rw [add_sub_cancel_right] at h
  exact h

theorem packetStep_loss {e : Endian} {socket : Int} {s : Sending R} {data : Data R}
    (hd : getDataBySocket socket s.list = some data) (peer : Int) :
    ∃ after, getDataBySocket socket (packetStep e socket s (.loss peer)).list = some after ∧
      after.Agree data := by
  have h := getDataBySocket_processPacketLoss peer socket s.list
  rw [hd] at h
  by_cases hs : socket = peer
  · rw [if_pos hs] at h
    exact ⟨_, h, packetLoss_agree data⟩
  · rw [if_neg hs] at h
    exact ⟨data, h, Data.Agree.refl data⟩

theorem inProgress_start (e : Endian) (uninit : Uninit) (socket offset : Int)
    (content : Int → Byte) (list : List (Data R)) (pTracker : List PacketTracker) :
    InProgress socket (sendStart e socket uninit offset content list pTracker) := by
  refine ⟨_, sendStart_get uninit offset content list pTracker, ⟨?_, ?_, ?_⟩, ?_, ?_⟩
  · simp [newElement, Data.sendMore]
  · simp [newElement, Data.sendMore]
  · simp [newElement, Data.sendMore]
  · apply (unsent_newElement uninit socket offset content).sendMore 1
    simp [newElement]
  · intro i hi hle
    have hin : (newElement uninit socket offset content : Data R).windowEnd < i ∧
        i ≤ (newElement uninit socket offset content : Data R).windowEnd + (1 : Nat) := by
      exact ⟨by simp only [newElement]; omega, hle⟩
    rw [Data.sendMore]
    dsimp only
    rw [if_pos hin]
    exact PacketState.noConfusion

theorem safe_iff {e : Endian} {socket : Int} {s : Sending R} (h : InProgress socket s)
    (p : PacketEvent) : Safe e socket s p ↔ Admitted socket s p := by
  obtain ⟨data, hd, hheld⟩ := h
  cases p with
  | ack ackNum =>
    have hafter := packetStep_ack (e := e) hd ackNum
    have hiff := answer_bounds_iff hheld e (ackNum - 1).toInt s.pTracker
    constructor
    · intro hs found hfound number hnumber
      obtain rfl := Option.some.inj (hd.symm.trans hfound)
      cases hnumber
      obtain ⟨hindices, hwindow⟩ := hs data hd
      exact hiff.mp ⟨hindices ackNum rfl, hwindow _ hafter⟩
    · intro ha found hfound
      obtain rfl := Option.some.inj (hd.symm.trans hfound)
      obtain ⟨hindices, hwindow⟩ := hiff.mpr (ha data hd ackNum rfl)
      refine ⟨fun number hnumber => ?_, fun after hget => ?_⟩
      · cases hnumber
        exact hindices
      · obtain rfl := Option.some.inj (hafter.symm.trans hget)
        exact hwindow
  | loss peer =>
    refine ⟨fun _ _ _ _ hnumber => PacketEvent.noConfusion hnumber, fun _ found hfound => ?_⟩
    obtain rfl := Option.some.inj (hd.symm.trans hfound)
    obtain ⟨after, hafter, hagree⟩ := packetStep_loss (e := e) hd peer
    refine ⟨fun _ hnumber => PacketEvent.noConfusion hnumber, fun other hget => ?_⟩
    obtain rfl := Option.some.inj (hafter.symm.trans hget)
    exact hheld.bounded.agree hagree

theorem inProgress_step {e : Endian} {socket : Int} {s : Sending R} {p : PacketEvent}
    (h : InProgress socket s) (hs : Safe e socket s p) :
    InProgress socket (packetStep e socket s p) := by
  obtain ⟨data, hd, hheld⟩ := h
  cases p with
  | ack ackNum =>
    have hafter := packetStep_ack (e := e) hd ackNum
    exact ⟨_, hafter, held_answered hheld (data.answer_answered e (ackNum - 1).toInt s.pTracker)
      ((hs data hd).2 _ hafter)⟩
  | loss peer =>
    obtain ⟨after, hafter, hagree⟩ := packetStep_loss (e := e) hd peer
    refine ⟨after, hafter, hheld.bounded.agree hagree, hheld.unsent.agree hagree, ?_⟩
    rw [hagree.state, hagree.windowEnd]
    exact hheld.sent

/-- Over any run of ACK packets and losses, every call stays inside the
objects and the window inside the chunk exactly when every ACK has a number
that the transfer can be sent. -/
theorem ack_bounds_iff (e : Endian) (uninit : Uninit) (socket offset : Int)
    (content : Int → Byte) (list : List (Data R)) (pTracker : List PacketTracker)
    (packets : List PacketEvent) :
    Along (packetStep e socket) (Safe e socket)
        (sendStart e socket uninit offset content list pTracker) packets ↔
      Along (packetStep e socket) (Admitted socket)
        (sendStart e socket uninit offset content list pTracker) packets :=
  along_congr (fun _ _ h hs => inProgress_step h hs) (fun _ p h => safe_iff h p) _ packets
    (inProgress_start e uninit socket offset content list pTracker)

/-- An ACK with the largest number puts the start of the window before the
chunk. -/
theorem ack_bounds_left :
    ¬∀ (uninit : Uninit) (packets : List PacketEvent),
      Along (packetStep .little 2) (Safe .little 2)
        (sendStart .little 2 uninit 7 (fun _ => 0) ([] : List (Data ℚ)) []) packets := by
  intro h
  have hsafe := (h ⟨0, 0, fun _ => .unsend⟩ [.ack 4294967295]).1
  have hstart := inProgress_start .little ⟨0, 0, fun _ => .unsend⟩ 2 7 (fun _ => 0)
    ([] : List (Data ℚ)) []
  have hadmitted := (safe_iff hstart _).mp hsafe
  obtain ⟨data, hd, _⟩ := hstart
  have hlow := (hadmitted data hd _ rfl).1
  exact absurd hlow (by decide)

end Indices

end P2PCC.AckBounds

import Mathlib.Algebra.Order.Field.Rat
import Mathlib.Logic.Function.Basic
import P2PCC.Tracker

namespace P2PCC.Sender

open P2PCC.Lib.ByteOrder P2PCC.Lib.FirstMatch P2PCC.Packet P2PCC.Tracker

def chunkPacketNumber : Int := 512

inductive PacketState where
  | unsend
  | unacked
  | acked
deriving DecidableEq, Repr

inductive CongestionState where
  | slowstart
  | conAvoid
  | fastRetransmit
deriving DecidableEq, Repr

/-- The operations the program does on its `float` rate. Nothing but the
growth of the window depends on them, so no rounding is fixed here. -/
class Rate (R : Type) where
  zero : R
  one : R
  addRecip : R → Int → R
  reached : R → Bool

instance : Rate ℚ where
  zero := 0
  one := 1
  addRecip r w := r + 1 / w
  reached r := decide (1 ≤ r)

/-- `content` and `state` are memory from the first byte or cell on, so that
an index outside the object still has a meaning. -/
structure Data (R : Type) where
  socket : Int
  offset : Int
  content : Int → Byte
  state : Int → PacketState
  sendWindow : Int
  ssthresh : Int
  congestionControlState : CongestionState
  windowStart : Int
  windowEnd : Int
  increaseRate : R
  prevAck : BitVec 32
  countAck : Int

variable {R : Type}

section Definitions

variable [Rate R]

/-- What `malloc` left in the fields `init_datalist` does not write. -/
structure Uninit where
  prevAck : BitVec 32
  countAck : Int
  around : Int → PacketState

def getDataBySocket (socket : Int) (list : List (Data R)) : Option (Data R) :=
  list.find? (fun d => d.socket = socket)

/-- Writing through the pointer that `get_data_by_socket` returns. -/
def setData (socket : Int) (data : Data R) (list : List (Data R)) : List (Data R) :=
  modifyFirst (fun d => d.socket = socket) (fun _ => data) list

def Data.packetLoss (data : Data R) : Data R :=
  { data with
    ssthresh := data.sendWindow.tdiv 2
    sendWindow := 1
    congestionControlState := .slowstart
    increaseRate := Rate.one }

def processPacketLoss (socket : Int) (list : List (Data R)) : List (Data R) :=
  modifyFirst (fun d => d.socket = socket) Data.packetLoss list

/-- The element `init_datalist` allocates. -/
def newElement (uninit : Uninit) (socket offset : Int) (content : Int → Byte) : Data R :=
  { socket := socket
    offset := offset
    content := content
    state := fun i => if 0 ≤ i ∧ i < chunkPacketNumber then .unsend else uninit.around i
    sendWindow := 1
    ssthresh := 64
    congestionControlState := .slowstart
    windowStart := -1
    windowEnd := -1
    increaseRate := Rate.one
    prevAck := uninit.prevAck
    countAck := uninit.countAck }

def initDatalist (uninit : Uninit) (socket offset : Int) (content : Int → Byte)
    (list : List (Data R)) : List (Data R) :=
  newElement uninit socket offset content :: list

def getContentByIndex (data : Data R) (index : Int) : List Byte := slice data.content index

/-- The DATA packet for an index, as `send_data` and the fast retransmission
of `handle_ack` both build it. -/
def dataPacket (e : Endian) (data : Data R) (index : Int) : DataPacket :=
  let packet := initPacket e 3 (some (getContentByIndex data index)) 1024
  { packet with
    header := { packet.header with seqNum := BitVec.ofInt 32 (index + 1) }
    chunk := some data.offset }

/-- The loop of `send_data` with its remaining passes. The list grows at its
head and the sender reverses it later. -/
def sendLoop (e : Endian) : Nat → Data R → List DataPacket → Data R × List DataPacket
  | 0, data, ret => (data, ret)
  | n + 1, data, ret =>
    if data.windowEnd ≥ chunkPacketNumber - 1 then (data, ret)
    else
      let data := { data with
        windowEnd := data.windowEnd + 1
        state := Function.update data.state (data.windowEnd + 1) .unacked }
      sendLoop e n data (dataPacket e data data.windowEnd :: ret)

def Data.send (e : Endian) (data : Data R) : Data R × List DataPacket :=
  let diff := data.windowEnd - data.windowStart
  if diff < data.sendWindow ∧ data.windowEnd ≤ chunkPacketNumber - 1 then
    sendLoop e (data.sendWindow - diff).toNat data []
  else (data, [])

def sendData (e : Endian) (socket : Int) (list : List (Data R)) :
    List (Data R) × List DataPacket :=
  match getDataBySocket socket list with
  | none => (list, [])
  | some data => (setData socket (data.send e).1 list, (data.send e).2)

def checkReturnAck (data : Data R) (ackNum : Int) : Int × Data R :=
  if data.prevAck = BitVec.ofInt 32 ackNum then
    if data.countAck + 1 ≥ 2 then (1, { data with countAck := data.countAck + 1 })
    else (0, { data with countAck := data.countAck + 1 })
  else (0, { data with countAck := 0, prevAck := BitVec.ofInt 32 ackNum })

def congestionControl (data : Data R) : Data R :=
  match data.congestionControlState with
  | .slowstart =>
    if data.ssthresh = data.sendWindow then
      { data with congestionControlState := .conAvoid, increaseRate := Rate.zero }
    else { data with sendWindow := data.sendWindow + 1 }
  | .conAvoid =>
    let rate := Rate.addRecip data.increaseRate data.sendWindow
    if Rate.reached rate then
      { data with sendWindow := data.sendWindow + 1, increaseRate := Rate.zero }
    else { data with increaseRate := rate }
  | .fastRetransmit => data

/-- The loop of `handle_ack` from index `i` with its remaining passes. The
flag says that it did not meet a packet that was never sent. -/
def ackLoop (socket : Int) : Nat → Int → Data R → List PacketTracker →
    Bool × Data R × List PacketTracker
  | 0, _, data, pTracker => (true, data, pTracker)
  | n + 1, i, data, pTracker =>
    match data.state i with
    | .unsend => (false, data, pTracker)
    | .unacked =>
      ackLoop socket n (i + 1) { data with state := Function.update data.state i .acked }
        (removeFromTracker pTracker socket i).2
    | .acked => ackLoop socket n (i + 1) data pTracker

/-- What `handle_ack` does with an ACK that is not a third duplicate, up to
the call of `send_data`. -/
def acceptAck (socket ackNumber : Int) (data : Data R) (pTracker : List PacketTracker) :
    Bool × Data R × List PacketTracker :=
  let passes := (min ackNumber (chunkPacketNumber - 1) - data.windowStart).toNat
  match ackLoop socket passes (data.windowStart + 1) data pTracker with
  | (false, data, pTracker) => (false, data, pTracker)
  | (true, data, pTracker) =>
    (true, congestionControl { data with windowStart := ackNumber }, pTracker)

def handleAck (e : Endian) (socket ackNumber : Int) (list : List (Data R))
    (pTracker : List PacketTracker) : List (Data R) × List PacketTracker × List DataPacket :=
  match getDataBySocket socket list with
  | none => (list, pTracker, [])
  | some data =>
    if ackNumber > chunkPacketNumber then (list, pTracker, [])
    else
      let checked := checkReturnAck data ackNumber
      let data := checked.2
      if checked.1 = 1 then
        if ackNumber < chunkPacketNumber - 1 then
          (processPacketLoss socket (setData socket data list), pTracker,
            [dataPacket e data (ackNumber + 1)])
        else (setData socket data list, pTracker, [])
      else
        match acceptAck socket ackNumber data pTracker with
        | (false, data, pTracker) => (setData socket data list, pTracker, [])
        | (true, data, pTracker) =>
          let sent := sendData e socket (setData socket data list)
          (sent.1, pTracker, sent.2)

end Definitions

/-- The loop of `handle_ack` from behind the start of the window. -/
def ackPass (socket ackNumber : Int) (data : Data R) (pTracker : List PacketTracker) :
    Bool × Data R × List PacketTracker :=
  ackLoop socket (min ackNumber (chunkPacketNumber - 1) - data.windowStart).toNat
    (data.windowStart + 1) data pTracker

theorem getDataBySocket_socket {socket : Int} {list : List (Data R)} {data : Data R}
    (h : getDataBySocket socket list = some data) : data.socket = socket := by
  simpa using List.find?_some h

theorem getDataBySocket_head {socket : Int} {list : List (Data R)} {data : Data R}
    (h : data.socket = socket) : getDataBySocket socket (data :: list) = some data :=
  List.find?_cons_of_pos (by simpa using h)

theorem getDataBySocket_setData {socket : Int} {list : List (Data R)} {data new : Data R}
    (h : getDataBySocket socket list = some data) (hn : new.socket = socket) :
    getDataBySocket socket (setData socket new list) = some new := by
  have hf := find?_modifyFirst (p := fun d : Data R => decide (d.socket = socket))
    (f := fun _ => new) (fun _ _ => by simpa using hn) list
  rw [setData, getDataBySocket, hf]
  rw [getDataBySocket] at h
  rw [h, Option.map_some]

theorem getDataBySocket_setData_other {socket other : Int} (list : List (Data R)) {new : Data R}
    (hn : new.socket = socket) (hne : other ≠ socket) :
    getDataBySocket other (setData socket new list) = getDataBySocket other list := by
  apply find?_modifyFirst_other
  intro d hd
  have hs : d.socket = socket := by simpa using hd
  exact ⟨by simpa [hs] using hne.symm, by simpa [hn] using hne.symm⟩

theorem setData_setData {socket : Int} (list : List (Data R)) {first second : Data R}
    (hf : first.socket = socket) :
    setData socket second (setData socket first list) = setData socket second list := by
  apply modifyFirst_modifyFirst
  exact fun _ _ => by simpa using hf

theorem setData_same {socket : Int} {list : List (Data R)} {data : Data R}
    (h : getDataBySocket socket list = some data) : setData socket data list = list := by
  obtain ⟨l₁, l₂, hl, _, _, hm⟩ := modifyFirst_split h
  rw [setData, hm, ← hl]

theorem processPacketLoss_eq [Rate R] {socket : Int} {list : List (Data R)} {data : Data R}
    (h : getDataBySocket socket list = some data) :
    processPacketLoss socket list = setData socket data.packetLoss list := by
  obtain ⟨l₁, l₂, hl, _, _, hm⟩ := modifyFirst_split h
  rw [processPacketLoss, setData, hm, hm]

theorem getDataBySocket_processPacketLoss [Rate R] (socket other : Int) (list : List (Data R)) :
    getDataBySocket other (processPacketLoss socket list) =
      if other = socket then (getDataBySocket other list).map Data.packetLoss
      else getDataBySocket other list := by
  by_cases h : other = socket
  · subst h
    rw [if_pos rfl]
    have hkeep : ∀ d : Data R, decide (d.socket = other) = true →
        decide (d.packetLoss.socket = other) = true := fun _ hd => hd
    exact find?_modifyFirst hkeep list
  · rw [if_neg h]
    apply find?_modifyFirst_other
    intro d hd
    have hs : d.socket = socket := by simpa using hd
    have hne : d.socket ≠ other := fun ho => h (ho.symm.trans hs)
    exact ⟨decide_eq_false hne, decide_eq_false hne⟩

/-- The transfer after `k` more packets have been sent. -/
def Data.sendMore (data : Data R) (k : Nat) : Data R :=
  { data with
    windowEnd := data.windowEnd + k
    state := fun j =>
      if data.windowEnd < j ∧ j ≤ data.windowEnd + k then .unacked else data.state j }

theorem Data.sendMore_zero (data : Data R) : data.sendMore 0 = data := by
  have hs : (data.sendMore 0).state = data.state := by
    funext j
    exact if_neg (by omega)
  cases data
  simp_all [Data.sendMore]

theorem Data.sendMore_succ (data : Data R) (k : Nat) :
    ({ data with
      windowEnd := data.windowEnd + 1
      state := Function.update data.state (data.windowEnd + 1) .unacked } : Data R).sendMore k =
      data.sendMore (k + 1) := by
  simp only [Data.sendMore, Data.mk.injEq, true_and, and_true, Nat.cast_add, Nat.cast_one]
  refine ⟨?_, by omega⟩
  funext j
  by_cases hj : j = data.windowEnd + 1
  · rw [if_neg (by omega), if_pos (by omega), hj, Function.update_self]
  · rw [Function.update_of_ne hj]
    by_cases hr : data.windowEnd + 1 < j ∧ j ≤ data.windowEnd + 1 + k
    · rw [if_pos hr, if_pos (by omega)]
    · rw [if_neg hr, if_neg (by omega)]

theorem dataPacket_congr (e : Endian) {data other : Data R} (hc : data.content = other.content)
    (ho : data.offset = other.offset) (index : Int) :
    dataPacket e data index = dataPacket e other index := by
  simp only [dataPacket, getContentByIndex, hc, ho]

@[simp] theorem dataPacket_packetType (e : Endian) (data : Data R) (index : Int) :
    (dataPacket e data index).header.packetType = 3 := rfl

@[simp] theorem dataPacket_chunk (e : Endian) (data : Data R) (index : Int) :
    (dataPacket e data index).chunk = some data.offset := rfl

theorem dataPacket_seq (e : Endian) (data : Data R) (index : Int) (hl : -2147483649 ≤ index)
    (hu : index < 2147483647) : (dataPacket e data index).seq = index + 1 :=
  toInt_ofInt32 (by omega) (by omega)

theorem dataPacket_data (e : Endian) (data : Data R) (index : Int) :
    (dataPacket e data index).data = slice data.content index := by
  have h := (initPacket_plain e (show (3 : Byte) ≠ 0 by decide) (by decide)
    (getContentByIndex data index) 1024).2
  simp only [dataPacket, h]
  exact List.take_of_length_le (by simp [getContentByIndex])

theorem dataPacket_length (e : Endian) (data : Data R) (index : Int) :
    ((dataPacket e data index).ntoh e).length = 1024 := by
  have h := (initPacket_plain e (show (3 : Byte) ≠ 0 by decide) (by decide)
    (getContentByIndex data index) 1024).1
  simp only [DataPacket.length, DataPacket.ntoh, dataPacket, h, initPacket_headerLen,
    hton16_hton16]
  decide

theorem dataPacket_received (e : Endian) (data : Data R) {index : Int} (hl : 0 ≤ index)
    (hu : index < 512) :
    (((dataPacket e data index).convert e).ntoh e).seq = index + 1 ∧
      (((dataPacket e data index).convert e).ntoh e).length = 1024 := by
  have hs := dataPacket_seq e data index (by omega) (by omega)
  rw [DataPacket.seq] at hs ⊢
  rw [ntoh_convert_seqNum, ntoh_convert_length, hs]
  exact ⟨rfl, dataPacket_length e data index⟩

/-- The packets the loop emits: the indices after `end`, as far as the window
and the chunk allow. -/
theorem sendLoop_eq (e : Endian) (n : Nat) (data : Data R) (ret : List DataPacket) :
    sendLoop e n data ret =
      (data.sendMore (min n (chunkPacketNumber - 1 - data.windowEnd).toNat),
        ((List.range (min n (chunkPacketNumber - 1 - data.windowEnd).toNat)).map
          (fun i : Nat => dataPacket e data (data.windowEnd + 1 + i))).reverse ++ ret) := by
  induction n generalizing data ret with
  | zero => simp [sendLoop, Data.sendMore_zero]
  | succ n ih =>
    by_cases hend : data.windowEnd ≥ chunkPacketNumber - 1
    · have hz : (chunkPacketNumber - 1 - data.windowEnd).toNat = 0 := by omega
      simp [sendLoop, hend, hz, Data.sendMore_zero]
    · have hk : min (n + 1) (chunkPacketNumber - 1 - data.windowEnd).toNat =
          min n (chunkPacketNumber - 1 - (data.windowEnd + 1)).toNat + 1 := by omega
      have hcut : ∀ index : Int, dataPacket e ({ data with
          windowEnd := data.windowEnd + 1
          state := Function.update data.state (data.windowEnd + 1) .unacked } : Data R) index =
          dataPacket e data index := fun index => dataPacket_congr e rfl rfl index
      have hshift : (fun i : Nat => dataPacket e data (data.windowEnd + 1 + 1 + i)) =
          (fun i : Nat => dataPacket e data (data.windowEnd + 1 + i)) ∘ Nat.succ := by
        funext i
        simp only [Function.comp_apply, Nat.cast_succ]
        rw [show data.windowEnd + 1 + 1 + (i : Int) = data.windowEnd + 1 + ((i : Int) + 1) by omega]
      rw [sendLoop, if_neg hend, ih, Data.sendMore_succ, hk, List.range_succ_eq_map]
      simp only [hcut, hshift, List.map_cons, List.map_map, List.reverse_cons, List.append_assoc,
        List.singleton_append, Nat.cast_zero, add_zero]

/-- How many packets a call of `send_data` emits. -/
def Data.quota (data : Data R) : Nat :=
  (min (data.sendWindow - (data.windowEnd - data.windowStart))
    (chunkPacketNumber - 1 - data.windowEnd)).toNat

theorem Data.send_eq (e : Endian) (data : Data R) :
    data.send e = (data.sendMore data.quota,
      ((List.range data.quota).map
        (fun i : Nat => dataPacket e data (data.windowEnd + 1 + i))).reverse) := by
  unfold Data.send
  simp only
  split
  · have hq : min (data.sendWindow - (data.windowEnd - data.windowStart)).toNat
        (chunkPacketNumber - 1 - data.windowEnd).toNat = data.quota := by
      unfold Data.quota
      omega
    rw [sendLoop_eq, hq, List.append_nil]
  · have hq : data.quota = 0 := by
      unfold Data.quota
      omega
    simp [hq, Data.sendMore_zero]

/-- The indices from `i` on are ACKED before index `i + m`. -/
def Data.ackRange (data : Data R) (i : Int) (m : Nat) : Data R :=
  { data with state := fun j => if i ≤ j ∧ j < i + m then .acked else data.state j }

theorem Data.ackRange_zero (data : Data R) (i : Int) : data.ackRange i 0 = data := by
  have hs : (data.ackRange i 0).state = data.state := by
    funext j
    exact if_neg (by omega)
  cases data
  simp_all [Data.ackRange]

theorem Data.ackRange_update (data : Data R) (i : Int) (m : Nat) :
    ({ data with state := Function.update data.state i .acked } : Data R).ackRange (i + 1) m =
      data.ackRange i (m + 1) := by
  simp only [Data.ackRange, Data.mk.injEq, true_and, and_true]
  funext j
  by_cases hj : j = i
  · rw [if_neg (by omega), if_pos (by omega), hj, Function.update_self]
  · rw [Function.update_of_ne hj]
    by_cases hr : i + 1 ≤ j ∧ j < i + 1 + m
    · rw [if_pos hr, if_pos (by omega)]
    · rw [if_neg hr, if_neg (by omega)]

theorem Data.ackRange_acked (data : Data R) (i : Int) (m : Nat) (hi : data.state i = .acked) :
    data.ackRange (i + 1) m = data.ackRange i (m + 1) := by
  simp only [Data.ackRange, Data.mk.injEq, true_and, and_true]
  funext j
  by_cases hj : j = i
  · rw [if_neg (by omega), if_pos (by omega), hj, hi]
  · by_cases hr : i + 1 ≤ j ∧ j < i + 1 + m
    · rw [if_pos hr, if_pos (by omega)]
    · rw [if_neg hr, if_neg (by omega)]

/-- The loop stops after `m` passes, at the first packet that was never sent
if there is one. -/
theorem ackLoop_spec (socket : Int) (n : Nat) (i : Int) (data : Data R)
    (pTracker : List PacketTracker) :
    ∃ m ≤ n, (ackLoop socket n i data pTracker).2.1 = data.ackRange i m ∧
      (∀ j, i ≤ j → j < i + m → data.state j ≠ .unsend) ∧
      ((ackLoop socket n i data pTracker).1 = true → m = n) ∧
      ((ackLoop socket n i data pTracker).1 = false → m < n ∧ data.state (i + m) = .unsend) := by
  induction n generalizing i data pTracker with
  | zero =>
    exact ⟨0, le_rfl, (data.ackRange_zero i).symm, fun j _ _ => by omega, fun _ => rfl,
      fun h => by simp [ackLoop] at h⟩
  | succ n ih =>
    cases hs : data.state i with
    | unsend =>
      refine ⟨0, by omega, ?_, fun j _ _ => by omega, ?_, ?_⟩
      · simp [ackLoop, hs, Data.ackRange_zero]
      · simp [ackLoop, hs]
      · simp [hs]
    | unacked =>
      obtain ⟨m, hm, hd, hsent, ht, hf⟩ := ih (i + 1)
        { data with state := Function.update data.state i .acked }
        (removeFromTracker pTracker socket i).2
      have hother : ∀ j, j ≠ i → Function.update data.state i .acked j = data.state j :=
        fun j hj => Function.update_of_ne hj _ _
      refine ⟨m + 1, by omega, ?_, ?_, ?_, ?_⟩
      · rw [ackLoop, hs]
        exact hd.trans (data.ackRange_update i m)
      · intro j hl hu
        by_cases hj : j = i
        · simp [hj, hs]
        · rw [← hother j hj]
          exact hsent j (by omega) (by omega)
      · rw [ackLoop, hs]
        intro h
        rw [ht h]
      · rw [ackLoop, hs]
        intro h
        obtain ⟨hlt, hu⟩ := hf h
        simp only [] at hu
        rw [hother _ (by omega)] at hu
        exact ⟨by omega, by rw [← hu]; congr 1; push_cast; omega⟩
    | acked =>
      obtain ⟨m, hm, hd, hsent, ht, hf⟩ := ih (i + 1) data pTracker
      refine ⟨m + 1, by omega, ?_, ?_, ?_, ?_⟩
      · rw [ackLoop, hs]
        exact hd.trans (data.ackRange_acked i m hs)
      · intro j hl hu
        by_cases hj : j = i
        · simp [hj, hs]
        · exact hsent j (by omega) (by omega)
      · rw [ackLoop, hs]
        intro h
        rw [ht h]
      · rw [ackLoop, hs]
        intro h
        obtain ⟨hlt, hu⟩ := hf h
        exact ⟨by omega, by rw [← hu]; congr 1; push_cast; omega⟩

theorem ackLoop_subset (socket : Int) (n : Nat) (i : Int) (data : Data R)
    (pTracker : List PacketTracker) :
    ∀ t ∈ (ackLoop socket n i data pTracker).2.2, t ∈ pTracker := by
  induction n generalizing i data pTracker with
  | zero => exact fun t ht => ht
  | succ n ih =>
    intro t ht
    cases hs : data.state i with
    | unsend => simpa [ackLoop, hs] using ht
    | unacked =>
      rw [ackLoop, hs] at ht
      exact removeFromTracker_subset _ _ _ t (ih _ _ _ t ht)
    | acked =>
      rw [ackLoop, hs] at ht
      exact ih _ _ _ t ht

theorem ackLoop_keeps (socket : Int) (n : Nat) (i : Int) (data : Data R)
    (pTracker : List PacketTracker) (t : PacketTracker) (ht : t ∈ pTracker)
    (hkey : t.sock = socket → (ackLoop socket n i data pTracker).2.1.state (t.seq - 1) ≠ .acked) :
    t ∈ (ackLoop socket n i data pTracker).2.2 := by
  induction n generalizing i data pTracker with
  | zero => exact ht
  | succ n ih =>
    cases hs : data.state i with
    | unsend => simpa [ackLoop, hs] using ht
    | acked =>
      rw [ackLoop, hs] at hkey ⊢
      exact ih (i + 1) data pTracker ht hkey
    | unacked =>
      rw [ackLoop, hs] at hkey ⊢
      refine ih _ _ _ (removeFromTracker_keeps pTracker socket i t ht ?_) hkey
      rintro ⟨hsock, hseq⟩
      obtain ⟨m, _, hd, _⟩ := ackLoop_spec socket n (i + 1)
        { data with state := Function.update data.state i .acked }
        (removeFromTracker pTracker socket i).2
      apply hkey hsock
      rw [hd, hseq, Data.ackRange_update]
      exact if_pos (by omega)

/-- The fields that neither a loss nor the growth of the window touches. -/
structure Data.Agree (a b : Data R) : Prop where
  socket : a.socket = b.socket
  offset : a.offset = b.offset
  content : a.content = b.content
  state : a.state = b.state
  windowStart : a.windowStart = b.windowStart
  windowEnd : a.windowEnd = b.windowEnd
  prevAck : a.prevAck = b.prevAck
  countAck : a.countAck = b.countAck

theorem Data.Agree.refl (a : Data R) : a.Agree a := ⟨rfl, rfl, rfl, rfl, rfl, rfl, rfl, rfl⟩

theorem Data.Agree.trans {a b c : Data R} (hab : a.Agree b) (hbc : b.Agree c) : a.Agree c :=
  ⟨hab.socket.trans hbc.socket, hab.offset.trans hbc.offset, hab.content.trans hbc.content,
    hab.state.trans hbc.state, hab.windowStart.trans hbc.windowStart,
    hab.windowEnd.trans hbc.windowEnd, hab.prevAck.trans hbc.prevAck,
    hab.countAck.trans hbc.countAck⟩

variable [Rate R]

theorem packetLoss_agree (data : Data R) : data.packetLoss.Agree data :=
  ⟨rfl, rfl, rfl, rfl, rfl, rfl, rfl, rfl⟩

theorem congestionControl_agree (data : Data R) : (congestionControl data).Agree data := by
  unfold congestionControl
  cases data.congestionControlState with
  | slowstart => by_cases h : data.ssthresh = data.sendWindow <;> simp only [h, ↓reduceIte] <;>
      exact ⟨rfl, rfl, rfl, rfl, rfl, rfl, rfl, rfl⟩
  | conAvoid => dsimp only; split <;> exact ⟨rfl, rfl, rfl, rfl, rfl, rfl, rfl, rfl⟩
  | fastRetransmit => exact ⟨rfl, rfl, rfl, rfl, rfl, rfl, rfl, rfl⟩

/-- The window after an ACK that is not a duplicate. -/
def Data.grownWindow (data : Data R) : Int :=
  match data.congestionControlState with
  | .slowstart =>
    if data.ssthresh = data.sendWindow then data.sendWindow else data.sendWindow + 1
  | .conAvoid =>
    if Rate.reached (Rate.addRecip data.increaseRate data.sendWindow) then data.sendWindow + 1
    else data.sendWindow
  | .fastRetransmit => data.sendWindow

theorem congestionControl_sendWindow (data : Data R) :
    (congestionControl data).sendWindow = data.grownWindow := by
  unfold congestionControl Data.grownWindow
  cases data.congestionControlState with
  | slowstart => by_cases h : data.ssthresh = data.sendWindow <;> simp only [h, ↓reduceIte]
  | conAvoid => dsimp only; split <;> rfl
  | fastRetransmit => rfl

theorem Data.le_grownWindow (data : Data R) : data.sendWindow ≤ data.grownWindow := by
  unfold Data.grownWindow
  cases data.congestionControlState with
  | slowstart => dsimp only; split <;> omega
  | conAvoid => dsimp only; split <;> omega
  | fastRetransmit => exact le_rfl

/-- `handle_ack` on the transfer it finds. -/
def Data.answer (e : Endian) (ackNumber : Int) (data : Data R) (pTracker : List PacketTracker) :
    Data R × List PacketTracker × List DataPacket :=
  if ackNumber > chunkPacketNumber then (data, pTracker, [])
  else
    let checked := checkReturnAck data ackNumber
    let data := checked.2
    if checked.1 = 1 then
      if ackNumber < chunkPacketNumber - 1 then
        (data.packetLoss, pTracker, [dataPacket e data (ackNumber + 1)])
      else (data, pTracker, [])
    else
      match acceptAck data.socket ackNumber data pTracker with
      | (false, data, pTracker) => (data, pTracker, [])
      | (true, data, pTracker) => ((data.send e).1, pTracker, (data.send e).2)

omit [Rate R] in
theorem checkReturnAck_eq (data : Data R) (ackNum : Int) :
    ∃ count prev, (checkReturnAck data ackNum).2 =
      { data with countAck := count, prevAck := prev } := by
  unfold checkReturnAck
  split
  · split <;> exact ⟨_, _, rfl⟩
  · exact ⟨_, _, rfl⟩

omit [Rate R] in
theorem ackPass_spec (socket ackNumber : Int) (data : Data R) (pTracker : List PacketTracker) :
    ∃ m : Nat, (ackPass socket ackNumber data pTracker).2.1 =
        data.ackRange (data.windowStart + 1) m ∧
      (∀ j, data.windowStart + 1 ≤ j → j < data.windowStart + 1 + m → data.state j ≠ .unsend) ∧
      ((ackPass socket ackNumber data pTracker).1 = true →
        m = (min ackNumber 511 - data.windowStart).toNat) ∧
      ((ackPass socket ackNumber data pTracker).1 = false →
        data.windowStart + 1 + m ≤ min ackNumber 511 ∧
          data.state (data.windowStart + 1 + m) = .unsend) := by
  obtain ⟨m, _, hd, hsent, ht, hu⟩ := ackLoop_spec socket
    (min ackNumber (chunkPacketNumber - 1) - data.windowStart).toNat (data.windowStart + 1) data
    pTracker
  rw [chunkPacketNumber] at ht hu
  refine ⟨m, hd, hsent, ht, fun hflag => ?_⟩
  obtain ⟨hlt, hstate⟩ := hu hflag
  exact ⟨by omega, hstate⟩

theorem acceptAck_stopped {socket ackNumber : Int} {data : Data R}
    {pTracker : List PacketTracker} (h : (ackPass socket ackNumber data pTracker).1 = false) :
    acceptAck socket ackNumber data pTracker =
      (false, (ackPass socket ackNumber data pTracker).2) := by
  unfold acceptAck
  dsimp only
  rw [← ackPass]
  generalize ackPass socket ackNumber data pTracker = r at h
  obtain ⟨flag, d, tracker⟩ := r
  subst h
  rfl

theorem acceptAck_through {socket ackNumber : Int} {data : Data R}
    {pTracker : List PacketTracker} (h : (ackPass socket ackNumber data pTracker).1 = true) :
    acceptAck socket ackNumber data pTracker =
      (true, congestionControl
        { (ackPass socket ackNumber data pTracker).2.1 with windowStart := ackNumber },
        (ackPass socket ackNumber data pTracker).2.2) := by
  unfold acceptAck
  dsimp only
  rw [← ackPass]
  generalize ackPass socket ackNumber data pTracker = r at h
  obtain ⟨flag, d, tracker⟩ := r
  subst h
  rfl

/-- The ACKed packets are marked as far as the loop gets, and the window
moves when it gets through. -/
theorem acceptAck_cases (socket ackNumber : Int) (data : Data R) (pTracker : List PacketTracker) :
    ∃ m tracker,
      acceptAck socket ackNumber data pTracker =
          (false, data.ackRange (data.windowStart + 1) m, tracker) ∨
        acceptAck socket ackNumber data pTracker =
          (true, congestionControl
            { data.ackRange (data.windowStart + 1) m with windowStart := ackNumber }, tracker) := by
  obtain ⟨m, hd, _⟩ := ackPass_spec socket ackNumber data pTracker
  refine ⟨m, (ackPass socket ackNumber data pTracker).2.2, ?_⟩
  cases hflag : (ackPass socket ackNumber data pTracker).1 with
  | false =>
    left
    rw [acceptAck_stopped hflag, ← hd]
  | true =>
    right
    rw [acceptAck_through hflag, hd]

theorem acceptAck_socket (socket ackNumber : Int) (data : Data R)
    (pTracker : List PacketTracker) :
    (acceptAck socket ackNumber data pTracker).2.1.socket = data.socket := by
  obtain ⟨m, tracker, h | h⟩ := acceptAck_cases socket ackNumber data pTracker
  · rw [h]
    rfl
  · rw [h]
    exact (congestionControl_agree _).socket

/-- Every lookup by socket in `handle_ack` finds the same transfer, so the
call is its effect on that transfer. -/
theorem handleAck_eq (e : Endian) {socket : Int} (ackNumber : Int) {list : List (Data R)}
    (pTracker : List PacketTracker) {data : Data R}
    (h : getDataBySocket socket list = some data) :
    handleAck e socket ackNumber list pTracker =
      (setData socket (data.answer e ackNumber pTracker).1 list,
        (data.answer e ackNumber pTracker).2) := by
  have hs := getDataBySocket_socket h
  unfold handleAck Data.answer
  rw [h]
  dsimp only
  split
  · rw [setData_same h]
  · obtain ⟨count, prev, hc⟩ := checkReturnAck_eq data ackNumber
    have hds : (checkReturnAck data ackNumber).2.socket = socket := by rw [hc]; exact hs
    generalize (checkReturnAck data ackNumber).2 = d at hds
    have hset : getDataBySocket socket (setData socket d list) = some d :=
      getDataBySocket_setData h hds
    split
    · split
      · rw [processPacketLoss_eq hset, setData_setData list hds]
      · rfl
    · have has := acceptAck_socket socket ackNumber d pTracker
      rw [hds] at has ⊢
      generalize acceptAck socket ackNumber d pTracker = r at has
      obtain ⟨flag, d', tr⟩ := r
      cases flag with
      | false => rfl
      | true =>
        dsimp only at has ⊢
        rw [sendData, getDataBySocket_setData h has]
        dsimp only
        rw [setData_setData list has]

/-- The transfer after `check_return_ack` has let an ACK through. -/
def Data.noteAck (data : Data R) (ackNumber : Int) : Data R :=
  { data with
    countAck := if data.prevAck = BitVec.ofInt 32 ackNumber then data.countAck + 1 else 0
    prevAck := BitVec.ofInt 32 ackNumber }

omit [Rate R] in
theorem checkReturnAck_spec (data : Data R) (ackNum : Int) :
    ((checkReturnAck data ackNum).1 = 1 ∧ data.prevAck = BitVec.ofInt 32 ackNum ∧
      1 ≤ data.countAck ∧
      (checkReturnAck data ackNum).2 = { data with countAck := data.countAck + 1 }) ∨
    ((checkReturnAck data ackNum).1 = 0 ∧
      (data.prevAck = BitVec.ofInt 32 ackNum → data.countAck < 1) ∧
      (checkReturnAck data ackNum).2 = data.noteAck ackNum) := by
  unfold checkReturnAck Data.noteAck
  by_cases hp : data.prevAck = BitVec.ofInt 32 ackNum
  · by_cases hc : data.countAck + 1 ≥ 2
    · exact Or.inl ⟨by simp [hp, hc], hp, by omega, by simp [hp, hc]⟩
    · exact Or.inr ⟨by simp [hp, hc], fun _ => by omega, by simp [hp, hc]⟩
  · exact Or.inr ⟨by simp [hp], fun h => absurd h hp, by simp [hp]⟩

/-- The ACK is taken for a third duplicate. -/
def Third (data : Data R) (ackNumber : Int) : Prop :=
  data.prevAck = BitVec.ofInt 32 ackNumber ∧ 1 ≤ data.countAck

theorem answer_third (e : Endian) {ackNumber : Int} {data : Data R} (pTracker : List PacketTracker)
    (hack : ackNumber ≤ 512) (h : Third data ackNumber) :
    data.answer e ackNumber pTracker =
      if ackNumber < 511 then
        (({ data with countAck := data.countAck + 1 } : Data R).packetLoss, pTracker,
          [dataPacket e data (ackNumber + 1)])
      else ({ data with countAck := data.countAck + 1 }, pTracker, []) := by
  have hsmall : ¬ackNumber > chunkPacketNumber := not_lt.mpr hack
  obtain ⟨hone, _, _, hd⟩ | ⟨_, hfresh, _⟩ := checkReturnAck_spec data ackNumber
  · unfold Data.answer
    simp only [hsmall, hone, hd, ↓reduceIte]
    rfl
  · have := hfresh h.1
    have := h.2
    omega

theorem answer_fresh (e : Endian) {ackNumber : Int} {data : Data R} (pTracker : List PacketTracker)
    (hack : ackNumber ≤ 512) (h : ¬Third data ackNumber) :
    data.answer e ackNumber pTracker =
      match acceptAck data.socket ackNumber (data.noteAck ackNumber) pTracker with
      | (false, after, tracker) => (after, tracker, [])
      | (true, after, tracker) => ((after.send e).1, tracker, (after.send e).2) := by
  have hsmall : ¬ackNumber > chunkPacketNumber := not_lt.mpr hack
  obtain ⟨_, hprev, hcount, _⟩ | ⟨hzero, _, hd⟩ := checkReturnAck_spec data ackNumber
  · exact absurd ⟨hprev, hcount⟩ h
  · unfold Data.answer
    simp only [hsmall, hzero, hd, zero_ne_one, ↓reduceIte]
    rfl

/-- The entries that stay when the packets a transfer has as ACKED are taken
off the tracker. -/
structure Untracked (data : Data R) (before after : List PacketTracker) : Prop where
  subset : ∀ t ∈ after, t ∈ before
  keeps : ∀ t ∈ before, (t.sock = data.socket → data.state (t.seq - 1) ≠ .acked) → t ∈ after

/-- What an ACK can do to the transfer it is for: nothing when it is too
large, a fast retransmission on a third duplicate, a stop at the first packet
that was never sent, or the whole cumulative acknowledgment with new packets. -/
inductive Answered (e : Endian) (ackNumber : Int) (data : Data R) (pTracker : List PacketTracker) :
    Data R → List PacketTracker → List DataPacket → Prop
  | rejected (hack : 512 < ackNumber) : Answered e ackNumber data pTracker data pTracker []
  | duplicate (hack : ackNumber ≤ 512) (hprev : data.prevAck = BitVec.ofInt 32 ackNumber)
      (hcount : 1 ≤ data.countAck) (after : Data R)
      (hagree : after.Agree { data with countAck := data.countAck + 1 })
      (hwindow : after.sendWindow = 1 ∨ after.sendWindow = data.sendWindow) :
      Answered e ackNumber data pTracker after pTracker
        (if ackNumber < 511 then [dataPacket e data (ackNumber + 1)] else [])
  | unsent (hack : ackNumber ≤ 512) (m : Nat) (hm : data.windowStart + 1 + m ≤ min ackNumber 511)
      (hstate : data.state (data.windowStart + 1 + m) = .unsend)
      (hsent : ∀ j, data.windowStart + 1 ≤ j → j < data.windowStart + 1 + m →
        data.state j ≠ .unsend)
      (tracker : List PacketTracker)
      (htracker : Untracked ((data.noteAck ackNumber).ackRange (data.windowStart + 1) m)
        pTracker tracker) :
      Answered e ackNumber data pTracker
        ((data.noteAck ackNumber).ackRange (data.windowStart + 1) m) tracker []
  | accepted (hack : ackNumber ≤ 512)
      (hfresh : data.prevAck = BitVec.ofInt 32 ackNumber → data.countAck < 1)
      (hsent : ∀ j, data.windowStart + 1 ≤ j → j ≤ min ackNumber 511 → data.state j ≠ .unsend)
      (mid : Data R)
      (hagree : mid.Agree { (data.noteAck ackNumber).ackRange (data.windowStart + 1)
        (min ackNumber 511 - data.windowStart).toNat with windowStart := ackNumber })
      (hwindow : mid.sendWindow = data.grownWindow)
      (tracker : List PacketTracker)
      (htracker : Untracked mid pTracker tracker) :
      Answered e ackNumber data pTracker (mid.sendMore mid.quota) tracker
        ((List.range mid.quota).map
          (fun i : Nat => dataPacket e data (data.windowEnd + 1 + i))).reverse

theorem Answered.subset {e : Endian} {ackNumber : Int} {data after : Data R}
    {before tracker : List PacketTracker} {sent : List DataPacket}
    (h : Answered e ackNumber data before after tracker sent) : ∀ t ∈ tracker, t ∈ before := by
  cases h with
  | rejected hack => exact fun t ht => ht
  | duplicate hack hprev hcount after hagree hwindow => exact fun t ht => ht
  | unsent hack m hm hstate hsent tracker htracker => exact htracker.subset
  | accepted hack hfresh hsent mid hagree hwindow tracker htracker => exact htracker.subset

theorem Answered.keepsOther {e : Endian} {ackNumber : Int} {data after : Data R}
    {before tracker : List PacketTracker} {sent : List DataPacket}
    (h : Answered e ackNumber data before after tracker sent) {t : PacketTracker}
    (ht : t ∈ before) (hsock : t.sock ≠ data.socket) : t ∈ tracker := by
  cases h with
  | rejected hack => exact ht
  | duplicate hack hprev hcount after hagree hwindow => exact ht
  | unsent hack m hm hstate hsent tracker htracker =>
    exact htracker.keeps t ht fun he => absurd he hsock
  | accepted hack hfresh hsent mid hagree hwindow tracker htracker =>
    exact htracker.keeps t ht fun he => absurd (he.trans hagree.socket) hsock

theorem Answered.identity {e : Endian} {ackNumber : Int} {data after : Data R}
    {before tracker : List PacketTracker} {sent : List DataPacket}
    (h : Answered e ackNumber data before after tracker sent) :
    after.socket = data.socket ∧ after.offset = data.offset ∧ after.content = data.content := by
  cases h with
  | rejected hack => exact ⟨rfl, rfl, rfl⟩
  | duplicate hack hprev hcount after hagree hwindow =>
    exact ⟨hagree.socket, hagree.offset, hagree.content⟩
  | unsent hack m hm hstate hsent tracker htracker => exact ⟨rfl, rfl, rfl⟩
  | accepted hack hfresh hsent mid hagree hwindow tracker htracker =>
    exact ⟨hagree.socket, hagree.offset, hagree.content⟩

theorem Answered.isData {e : Endian} {ackNumber : Int} {data after : Data R}
    {before tracker : List PacketTracker} {sent : List DataPacket}
    (h : Answered e ackNumber data before after tracker sent) :
    ∀ p ∈ sent, ∃ index, p = dataPacket e data index := by
  cases h with
  | rejected hack => simp
  | duplicate hack hprev hcount after hagree hwindow =>
    intro p hp
    split at hp
    · exact ⟨_, List.mem_singleton.mp hp⟩
    · simp at hp
  | unsent hack m hm hstate hsent tracker htracker => simp
  | accepted hack hfresh hsent mid hagree hwindow tracker htracker =>
    intro p hp
    obtain ⟨i, _, rfl⟩ := List.mem_map.mp (List.mem_reverse.mp hp)
    exact ⟨_, rfl⟩

section Answer

variable (e : Endian) {ackNumber : Int} {data : Data R} (pTracker : List PacketTracker)

theorem answered_third (hack : ackNumber ≤ 512) (hprev : data.prevAck = BitVec.ofInt 32 ackNumber)
    (hcount : 1 ≤ data.countAck) :
    Answered e ackNumber data pTracker
      (if ackNumber < 511 then ({ data with countAck := data.countAck + 1 } : Data R).packetLoss
        else { data with countAck := data.countAck + 1 }) pTracker
      (if ackNumber < 511 then [dataPacket e data (ackNumber + 1)] else []) := by
  apply Answered.duplicate hack hprev hcount
  · split
    · exact packetLoss_agree { data with countAck := data.countAck + 1 }
    · exact ⟨rfl, rfl, rfl, rfl, rfl, rfl, rfl, rfl⟩
  · split
    · exact Or.inl rfl
    · exact Or.inr rfl

theorem answered_accepted (hack : ackNumber ≤ 512)
    (hfresh : data.prevAck = BitVec.ofInt 32 ackNumber → data.countAck < 1)
    (hsent : ∀ j, data.windowStart + 1 ≤ j → j ≤ min ackNumber 511 → data.state j ≠ .unsend)
    {acked : Data R} (hacked : acked = (data.noteAck ackNumber).ackRange (data.windowStart + 1)
      (min ackNumber 511 - data.windowStart).toNat) {tracker : List PacketTracker}
    (htracker : Untracked acked pTracker tracker) :
    Answered e ackNumber data pTracker
      ((congestionControl { acked with windowStart := ackNumber }).send e).1 tracker
      ((congestionControl { acked with windowStart := ackNumber }).send e).2 := by
  have hagree := congestionControl_agree ({ acked with windowStart := ackNumber } : Data R)
  have hwindow := congestionControl_sendWindow ({ acked with windowStart := ackNumber } : Data R)
  generalize congestionControl { acked with windowStart := ackNumber } = mid at hagree hwindow
  have hmid : Untracked mid pTracker tracker := by
    refine ⟨htracker.subset, fun t hmem hkey => htracker.keeps t hmem ?_⟩
    rw [hagree.socket, hagree.state] at hkey
    exact hkey
  have hcut : (fun i : Nat => dataPacket e mid (mid.windowEnd + 1 + i)) =
      (fun i : Nat => dataPacket e data (data.windowEnd + 1 + i)) := by
    funext i
    rw [dataPacket_congr e hagree.content hagree.offset, hagree.windowEnd, hacked]
    rfl
  rw [hacked] at hagree hwindow
  rw [Data.send_eq, hcut]
  exact .accepted hack hfresh hsent mid hagree hwindow tracker hmid

theorem answered_acceptAck (hack : ackNumber ≤ 512)
    (hfresh : data.prevAck = BitVec.ofInt 32 ackNumber → data.countAck < 1) :
    let accepted := acceptAck data.socket ackNumber (data.noteAck ackNumber) pTracker
    Answered e ackNumber data pTracker
      (if accepted.1 then (accepted.2.1.send e).1 else accepted.2.1) accepted.2.2
      (if accepted.1 then (accepted.2.1.send e).2 else []) := by
  dsimp only
  obtain ⟨m, hd, hpass, ht, hu⟩ :=
    ackPass_spec data.socket ackNumber (data.noteAck ackNumber) pTracker
  have hdm : (ackPass data.socket ackNumber (data.noteAck ackNumber) pTracker).2.1 =
      (data.noteAck ackNumber).ackRange (data.windowStart + 1) m := hd
  have hsent : ∀ j, data.windowStart + 1 ≤ j → j < data.windowStart + 1 + m →
      data.state j ≠ .unsend := hpass
  have hsub : ∀ t ∈ (ackPass data.socket ackNumber (data.noteAck ackNumber) pTracker).2.2,
      t ∈ pTracker := ackLoop_subset data.socket _ _ (data.noteAck ackNumber) pTracker
  have hkeep : ∀ t ∈ pTracker, (t.sock = data.socket →
      (ackPass data.socket ackNumber (data.noteAck ackNumber) pTracker).2.1.state (t.seq - 1) ≠
        .acked) →
      t ∈ (ackPass data.socket ackNumber (data.noteAck ackNumber) pTracker).2.2 :=
    ackLoop_keeps data.socket _ _ (data.noteAck ackNumber) pTracker
  rw [hdm] at hkeep
  have htr : Untracked ((data.noteAck ackNumber).ackRange (data.windowStart + 1) m) pTracker
      (ackPass data.socket ackNumber (data.noteAck ackNumber) pTracker).2.2 := ⟨hsub, hkeep⟩
  cases hflag : (ackPass data.socket ackNumber (data.noteAck ackNumber) pTracker).1 with
  | false =>
    obtain ⟨hle, hstop⟩ := hu hflag
    have hunsent : data.state (data.windowStart + 1 + m) = .unsend := hstop
    have hle' : data.windowStart + 1 + m ≤ min ackNumber 511 := hle
    rw [acceptAck_stopped hflag, if_neg Bool.false_ne_true, if_neg Bool.false_ne_true, hdm]
    exact .unsent hack m hle' hunsent hsent _ htr
  | true =>
    have hm : m = (min ackNumber 511 - data.windowStart).toNat := ht hflag
    have hrange : ∀ j, data.windowStart + 1 ≤ j → j ≤ min ackNumber 511 →
        data.state j ≠ .unsend := by
      intro j hl hj
      exact hsent j hl (by omega)
    rw [acceptAck_through hflag, if_pos rfl, if_pos rfl]
    exact answered_accepted e pTracker hack hfresh hrange (hm ▸ hdm) (hdm ▸ htr)

end Answer

theorem Data.answer_answered (e : Endian) (ackNumber : Int) (data : Data R)
    (pTracker : List PacketTracker) :
    Answered e ackNumber data pTracker (data.answer e ackNumber pTracker).1
      (data.answer e ackNumber pTracker).2.1 (data.answer e ackNumber pTracker).2.2 := by
  by_cases hack : ackNumber > chunkPacketNumber
  · simp only [Data.answer, hack, ↓reduceIte]
    exact .rejected hack
  · have hle : ackNumber ≤ 512 := not_lt.mp hack
    by_cases hthird : Third data ackNumber
    · have hanswer := answered_third e pTracker hle hthird.1 hthird.2
      rw [answer_third e pTracker hle hthird]
      by_cases hlt : ackNumber < 511
      · simp only [hlt, ↓reduceIte] at hanswer ⊢
        exact hanswer
      · simp only [hlt, ↓reduceIte] at hanswer ⊢
        exact hanswer
    · have hfresh : data.prevAck = BitVec.ofInt 32 ackNumber → data.countAck < 1 :=
        fun hprev => not_le.mp fun hcount => hthird ⟨hprev, hcount⟩
      have haccept := answered_acceptAck e pTracker hle hfresh
      rw [answer_fresh e pTracker hle hthird]
      generalize acceptAck data.socket ackNumber (data.noteAck ackNumber) pTracker = r at haccept
      obtain ⟨accepted, after, tracker⟩ := r
      cases accepted <;> exact haccept

end P2PCC.Sender

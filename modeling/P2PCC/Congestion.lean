import Mathlib.Algebra.BigOperators.Intervals
import P2PCC.SendingLaw

namespace P2PCC.Congestion

open P2PCC.Lib.ByteOrder P2PCC.Lib.Runs P2PCC.Packet P2PCC.Tracker P2PCC.Sender P2PCC.Window
open P2PCC.SendingLaw

variable {R : Type}

section Growth

def controlled (data : Data R) (window : Int) (state : CongestionState) (rate : R) : Data R :=
  { data with sendWindow := window, congestionControlState := state, increaseRate := rate }

variable [Rate R]

theorem congestionControl_below (data : Data R) {window : Int} (rate : R)
    (h : data.ssthresh ≠ window) :
    congestionControl (controlled data window .slowstart rate) =
      controlled data (window + 1) .slowstart rate :=
  if_neg h

theorem congestionControl_threshold (data : Data R) (rate : R) :
    congestionControl (controlled data data.ssthresh .slowstart rate) =
      controlled data data.ssthresh .conAvoid Rate.zero :=
  if_pos rfl

theorem congestionControl_avoid (data : Data R) (window : Int) (rate : R) :
    congestionControl (controlled data window .conAvoid rate) =
      if Rate.reached (Rate.addRecip rate window) then
        controlled data (window + 1) .conAvoid Rate.zero
      else controlled data window .conAvoid (Rate.addRecip rate window) :=
  rfl

theorem slowstart_iterate (data : Data R) (window : Int) (rate : R) (n : Nat)
    (hn : window + n ≤ data.ssthresh) :
    congestionControl^[n] (controlled data window .slowstart rate) =
      controlled data (window + n) .slowstart rate := by
  induction n with
  | zero => simp
  | succ n ih =>
    rw [Function.iterate_succ_apply', ih (by omega), congestionControl_below _ _ (by omega)]
    congr 1
    omega

end Growth

section Exact

theorem avoid_share (data : Data ℚ) {window j : Nat} (hj : j < window) :
    congestionControl (controlled data window .conAvoid ((j : ℚ) / window)) =
      if j + 1 = window then controlled data (window + 1) .conAvoid 0
      else controlled data window .conAvoid (((j + 1 : Nat) : ℚ) / window) := by
  have hpos : (0 : ℚ) < window := by
    exact_mod_cast (by omega : 0 < window)
  have hsum : Rate.addRecip ((j : ℚ) / window) (window : Int) = ((j + 1 : Nat) : ℚ) / window := by
    show (j : ℚ) / window + 1 / ((window : Int) : ℚ) = _
    push_cast
    exact (add_div _ _ _).symm
  have hreached : Rate.reached (((j + 1 : Nat) : ℚ) / window) = decide (j + 1 = window) := by
    show decide (1 ≤ ((j + 1 : Nat) : ℚ) / window) = _
    rw [decide_eq_decide, le_div_iff₀ hpos, one_mul]
    norm_cast
    omega
  rw [congestionControl_avoid, hsum, hreached]
  simp only [decide_eq_true_eq]
  rfl

theorem avoid_iterate (data : Data ℚ) {window j : Nat} (hj : j < window) :
    congestionControl^[j] (controlled data window .conAvoid 0) =
      controlled data window .conAvoid ((j : ℚ) / window) := by
  induction j with
  | zero => simp
  | succ j ih =>
    rw [Function.iterate_succ_apply', ih (by omega), avoid_share data (by omega),
      if_neg (by omega)]

theorem avoid_window (data : Data ℚ) {window : Nat} (hw : 1 ≤ window) :
    congestionControl^[window] (controlled data window .conAvoid 0) =
      controlled data (window + 1) .conAvoid 0 := by
  obtain ⟨j, rfl⟩ : ∃ j, window = j + 1 := ⟨window - 1, by omega⟩
  rw [Function.iterate_succ_apply', avoid_iterate data (by omega), avoid_share data (by omega),
    if_pos rfl]

/-- The calls a new transfer takes to a window from the threshold on. -/
def callsTo (window : Nat) : Nat := 64 + ∑ v ∈ Finset.Ico 64 window, v

theorem callsTo_succ {window : Nat} (hw : 64 ≤ window) :
    callsTo (window + 1) = callsTo window + window := by
  rw [callsTo, Finset.sum_Ico_succ_top hw, callsTo, add_assoc]

theorem callsTo_split {n : Nat} (hn : 64 ≤ n) :
    ∃ window j, 64 ≤ window ∧ j < window ∧ n = callsTo window + j := by
  induction n, hn using Nat.le_induction with
  | base => exact ⟨64, 0, le_rfl, by omega, rfl⟩
  | succ n hn ih =>
    obtain ⟨window, j, hw, hj, rfl⟩ := ih
    by_cases hlast : j + 1 = window
    · refine ⟨window + 1, 0, by omega, by omega, ?_⟩
      rw [callsTo_succ hw]
      omega
    · exact ⟨window, j + 1, hw, by omega, by omega⟩

/-- The window of a new transfer after any number of calls without a loss:
one more for each call up to the threshold, one call that changes the mode,
and from then on one more after as many calls as the window is wide. -/
theorem window_growth (uninit : Uninit) (socket offset : Int) (content : Int → Byte) :
    let fresh : Data ℚ := newElement uninit socket offset content
    (∀ n ≤ 63, congestionControl^[n] fresh = controlled fresh (n + 1) .slowstart 1) ∧
      congestionControl^[64] fresh = controlled fresh 64 .conAvoid 0 ∧
      (∀ window ≥ 64, (∀ j < window, congestionControl^[callsTo window + j] fresh =
          controlled fresh window .conAvoid ((j : ℚ) / window)) ∧
        congestionControl^[callsTo window + window] fresh =
          controlled fresh (window + 1) .conAvoid 0) ∧
      ∀ n ≥ 64, ∃ window j, 64 ≤ window ∧ j < window ∧ n = callsTo window + j := by
  intro fresh
  have hslow : ∀ n ≤ 63, congestionControl^[n] fresh = controlled fresh (n + 1) .slowstart 1 := by
    intro n hn
    have hthreshold : (1 : Int) + n ≤ fresh.ssthresh := by
      show (1 : Int) + n ≤ 64
      omega
    rw [add_comm (n : Int) 1]
    exact slowstart_iterate fresh 1 1 n hthreshold
  have hswitch : congestionControl^[64] fresh = controlled fresh 64 .conAvoid 0 := by
    rw [Function.iterate_succ_apply', hslow 63 le_rfl]
    exact congestionControl_threshold fresh 1
  have hreach : ∀ window ≥ 64, congestionControl^[callsTo window] fresh =
      controlled fresh window .conAvoid 0 := by
    intro window hw
    induction window, hw using Nat.le_induction with
    | base => exact hswitch
    | succ window hw ih =>
      rw [callsTo_succ hw, add_comm, Function.iterate_add_apply, ih, avoid_window fresh (by omega)]
      rfl
  refine ⟨hslow, hswitch, fun window hw => ⟨fun j hj => ?_, ?_⟩, fun n hn => callsTo_split hn⟩
  · rw [add_comm, Function.iterate_add_apply, hreach window hw, avoid_iterate fresh hj]
  · rw [add_comm, Function.iterate_add_apply, hreach window hw, avoid_window fresh (by omega)]

end Exact

section Threshold

def control (data : Data R) : Int × Int × CongestionState × R :=
  (data.sendWindow, data.ssthresh, data.congestionControlState, data.increaseRate)

/-- Slow start has not passed the threshold. -/
def Under (data : Data R) : Prop :=
  data.congestionControlState = .slowstart → data.sendWindow ≤ data.ssthresh

theorem under_congr {data other : Data R} (h : control data = control other) :
    Under data ↔ Under other := by
  simp only [control, Prod.mk.injEq] at h
  obtain ⟨hwindow, hthreshold, hstate, _⟩ := h
  rw [Under, Under, hwindow, hthreshold, hstate]

/-- The third ACK of a packet that is not the last one, which `handle_ack`
counts as a loss. -/
def Lost (data : Data R) (ackNumber : Int) : Prop :=
  Third data ackNumber ∧ ackNumber < 511

variable [Rate R]

theorem control_congestionControl {data other : Data R} (h : control data = control other) :
    control (congestionControl data) = control (congestionControl other) := by
  simp only [control, Prod.mk.injEq] at h
  obtain ⟨hwindow, hthreshold, hstate, hrate⟩ := h
  unfold congestionControl
  rw [hwindow, hthreshold, hstate, hrate]
  cases other.congestionControlState with
  | slowstart => dsimp only; split <;> simp [control, *]
  | conAvoid => dsimp only; split <;> simp [control, *]
  | fastRetransmit => simp only [control, hwindow, hthreshold, hrate, hstate]

theorem under_packetLoss (data : Data R) : Under data.packetLoss ↔ 2 ≤ data.sendWindow := by
  have hhalf : Under data.packetLoss ↔ 1 ≤ data.sendWindow.tdiv 2 :=
    ⟨fun h => h rfl, fun h _ => h⟩
  rw [hhalf]
  constructor
  · intro hone
    by_contra hsmall
    have hle : data.sendWindow.tdiv 2 ≤ (1 : Int).tdiv 2 :=
      Int.tdiv_le_tdiv (by decide) (by omega)
    exact absurd (hone.trans hle) (by decide)
  · exact fun htwo => Int.le_tdiv_of_mul_le (by decide) htwo

theorem under_congestionControl {data : Data R} (h : Under data) :
    Under (congestionControl data) := by
  unfold congestionControl
  cases hs : data.congestionControlState with
  | slowstart =>
    have hle := h hs
    dsimp only
    split
    · exact fun hslow => by cases hslow
    · intro _
      dsimp only
      omega
  | conAvoid =>
    dsimp only
    split
    · exact fun hslow => by cases hslow
    · exact fun hslow => by cases hslow
  | fastRetransmit => exact h

theorem answer_control (e : Endian) (ackNumber : Int) (data : Data R)
    (pTracker : List PacketTracker) :
    (Lost data ackNumber ∧
      control (data.answer e ackNumber pTracker).1 = control data.packetLoss) ∨
    (¬Lost data ackNumber ∧
      (control (data.answer e ackNumber pTracker).1 = control data ∨
        control (data.answer e ackNumber pTracker).1 = control (congestionControl data))) := by
  by_cases hack : ackNumber > chunkPacketNumber
  · have hlarge : 512 < ackNumber := hack
    have hsame : data.answer e ackNumber pTracker = (data, pTracker, []) := if_pos hack
    rw [hsame]
    exact Or.inr ⟨fun hlost => by have := hlost.2; omega, Or.inl rfl⟩
  · have hle : ackNumber ≤ 512 := not_lt.mp hack
    by_cases hthird : Third data ackNumber
    · rw [answer_third e pTracker hle hthird]
      by_cases hlt : ackNumber < 511
      · rw [if_pos hlt]
        exact Or.inl ⟨⟨hthird, hlt⟩, rfl⟩
      · rw [if_neg hlt]
        exact Or.inr ⟨fun hlost => hlt hlost.2, Or.inl rfl⟩
    · refine Or.inr ⟨fun hlost => hthird hlost.1, ?_⟩
      rw [answer_fresh e pTracker hle hthird]
      obtain ⟨m, tracker, h | h⟩ :=
        acceptAck_cases data.socket ackNumber (data.noteAck ackNumber) pTracker
      · rw [h]
        exact Or.inl rfl
      · rw [h]
        dsimp only
        rw [Data.send_eq]
        exact Or.inr (control_congestionControl rfl)

theorem under_answer {data : Data R} (h : Under data) (e : Endian) (ackNumber : Int)
    (pTracker : List PacketTracker) :
    Under (data.answer e ackNumber pTracker).1 ↔
      (Lost data ackNumber → 2 ≤ data.sendWindow) := by
  obtain ⟨hlost, hc⟩ | ⟨hkept, hc | hc⟩ := answer_control e ackNumber data pTracker
  · rw [under_congr hc, under_packetLoss]
    exact ⟨fun hroom _ => hroom, fun hroom => hroom hlost⟩
  · rw [under_congr hc]
    exact ⟨fun _ hlost => absurd hlost hkept, fun _ => h⟩
  · rw [under_congr hc]
    exact ⟨fun _ hlost => absurd hlost hkept, fun _ => under_congestionControl h⟩

section Runs

/-- The current transfer of the socket is in slow start only up to the
threshold. -/
def Below (socket : Int) (s : Sending R) : Prop :=
  ∀ data, getDataBySocket socket s.list = some data → Under data

/-- An event that is counted as a loss for the transfer. -/
def CountsLoss (socket : Int) (data : Data R) : AckEvent → Prop
  | .ack ackNum => Lost data (ackNum - 1)
  | .loss peer => peer = socket

/-- There is a window to halve when a loss is counted. -/
def Halves (socket : Int) (s : Sending R) (event : AckEvent) : Prop :=
  ∀ data, getDataBySocket socket s.list = some data →
    CountsLoss socket data event → 2 ≤ data.sendWindow

def Transferring (socket : Int) (s : Sending R) : Prop :=
  ∃ data, getDataBySocket socket s.list = some data

theorem transferring_step {e : Endian} {socket : Int} (s : Sending R) (event : AckEvent)
    (h : Transferring socket s) : Transferring socket (sendStep e socket s event) := by
  obtain ⟨data, hd⟩ := h
  cases event with
  | ack ackNum => exact ⟨_, sendStep_ack hd ackNum⟩
  | loss peer =>
    refine ⟨if socket = peer then data.packetLoss else data, ?_⟩
    simp only [sendStep]
    rw [getDataBySocket_processPacketLoss, hd]
    split <;> rfl

theorem below_step {e : Endian} {socket : Int} (s : Sending R) (event : AckEvent)
    (ht : Transferring socket s) (h : Below socket s) :
    Below socket (sendStep e socket s event) ↔ Halves socket s event := by
  obtain ⟨data, hd⟩ := ht
  have hone : ∀ P : Data R → Prop, (∀ d, getDataBySocket socket s.list = some d → P d) ↔ P data := by
    intro P
    rw [hd]
    exact ⟨fun hall => hall data rfl, fun hp d he => Option.some.inj he ▸ hp⟩
  have hunder : Under data := h data hd
  have hhalves : Halves socket s event ↔
      (CountsLoss socket data event → 2 ≤ data.sendWindow) := hone _
  rw [hhalves]
  cases event with
  | ack ackNum =>
    rw [Below, sendStep_ack hd ackNum]
    refine Iff.trans ?_ (under_answer hunder e (ackNum - 1) s.pTracker)
    exact ⟨fun hall => hall _ rfl, fun hp d he => Option.some.inj he ▸ hp⟩
  | loss peer =>
    simp only [Below, sendStep, CountsLoss]
    rw [getDataBySocket_processPacketLoss, hd]
    by_cases hs : socket = peer
    · rw [if_pos hs, Option.map_some]
      simp only [Option.some.injEq, forall_eq', under_packetLoss, hs, forall_true_left]
    · rw [if_neg hs]
      simp only [Option.some.injEq, forall_eq', Ne.symm hs, false_implies, hunder]

/-- Slow start stays below the threshold throughout a run exactly when no
loss is counted at a window of one packet. -/
theorem slowstart_below_iff (e : Endian) (uninit : Uninit) (socket offset : Int)
    (content : Int → Byte) (list : List (Data R)) (pTracker : List PacketTracker)
    (events : List AckEvent) :
    Throughout (sendStep e socket) (Below socket)
        (sendStart e socket uninit offset content list pTracker) events ↔
      Along (sendStep e socket) (Halves socket)
        (sendStart e socket uninit offset content list pTracker) events := by
  have hstart : getDataBySocket socket
      (sendStart e socket uninit offset content list pTracker).list =
        some ((newElement uninit socket offset content).sendMore 1) :=
    sendStart_get uninit offset content list pTracker
  apply throughout_iff_along (I := Transferring socket)
  · exact transferring_step
  · exact below_step
  · exact ⟨_, hstart⟩
  · intro data hd
    obtain rfl := Option.some.inj (hstart.symm.trans hd)
    exact fun _ => (by decide : (1 : Int) ≤ 64)

def transferAfter (content : Int → Byte) (events : List AckEvent) : Option (Data ℚ) :=
  getDataBySocket 2 (run (sendStep .little 2)
    (sendStart .little 2 ⟨7, 0, fun _ => .unsend⟩ 7 content [] []) events).list

/-- The first ACK four times: the third and the fourth count as a loss, and at
the second of the two the window is 1. -/
theorem slowstart_above :
    ¬∀ (content : Int → Byte) (events : List AckEvent),
      Throughout (sendStep .little 2) (Below 2)
        (sendStart .little 2 ⟨7, 0, fun _ => .unsend⟩ 7 content ([] : List (Data ℚ)) []) events := by
  intro h
  have hafter : ∃ data, transferAfter (fun _ => 0) [.ack 1, .ack 1, .ack 1, .ack 1] = some data ∧
      (data.congestionControlState, data.sendWindow, data.ssthresh) = (.slowstart, 1, 0) := by
    decide +kernel
  obtain ⟨data, hd, hcontrol⟩ := hafter
  have hunder := Throughout.last _ _ (h (fun _ => 0) [.ack 1, .ack 1, .ack 1, .ack 1]) data hd
  simp only [Prod.mk.injEq] at hcontrol
  obtain ⟨hstate, hwindow, hthreshold⟩ := hcontrol
  have hle := hunder hstate
  rw [hwindow, hthreshold] at hle
  exact absurd hle (by decide)

end Runs

end Threshold

end P2PCC.Congestion

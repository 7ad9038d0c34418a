import P2PCC.Tracking
import P2PCC.Window

namespace P2PCC.Transfers

open P2PCC.Lib.ByteOrder P2PCC.Lib.FirstMatch P2PCC.Lib.Runs P2PCC.Packet P2PCC.ChunkFile
open P2PCC.Tracker P2PCC.Sender P2PCC.HandlePacket P2PCC.Peer P2PCC.Receiving P2PCC.Tracking
open P2PCC.Window

variable {R : Type} [Rate R]

section Induction

variable {e : Endian} {config : Config} {peer : Peer R}

theorem handlePacket_list {P : List (Data R) → Prop} {now : Int} {stray : Stray}
    {packet : DataPacket} {sockfd : Int}
    (hnew : ∀ offset content,
      P ((newElement stray.data sockfd offset content).sendMore 1 :: peer.list))
    (hanswer : ∀ ackNumber data after tracker packets,
      getDataBySocket sockfd peer.list = some data →
      Answered e ackNumber data peer.pTracker after tracker packets →
      P (setData sockfd after peer.list))
    (h : P peer.list) : P (handlePacket e config now stray packet sockfd peer).1.list := by
  have hp := handlePacket_handled e config now stray packet sockfd peer
  generalize handlePacket e config now stray packet sockfd peer = handled at hp
  generalize (packet.ntoh e).header.packetType = type at hp
  cases hp with
  | whohas => exact h
  | ihave =>
    rw [(handleIhave_sending e config now sockfd _ peer).2.1]
    exact h
  | get =>
    dsimp only [handleGet]
    rw [sendData_initDatalist]
    exact hnew _ _
  | data => exact h
  | ack =>
    dsimp only [handleAckPacket]
    cases hd : getDataBySocket sockfd peer.list with
    | none =>
      rw [handleAck, hd]
      exact h
    | some data =>
      rw [handleAck_eq e _ peer.pTracker hd]
      exact hanswer _ data _ _ _ hd (data.answer_answered e _ peer.pTracker)
  | invalid type hn => exact h

/-- A property of the transfers of a process that a GET, an ACK and a loss
keep is kept by every event. -/
theorem step_list {P : List (Data R) → Prop} {event : Event}
    (hnew : ∀ d, delivery e config event = some d → ∀ offset content,
      P ((newElement d.stray.data d.sockfd offset content).sendMore 1 :: peer.list))
    (hanswer : ∀ d, delivery e config event = some d → ∀ ackNumber data after tracker packets,
      getDataBySocket d.sockfd peer.list = some data →
      Answered e ackNumber data peer.pTracker after tracker packets →
      P (setData d.sockfd after peer.list))
    (hloss : ∀ socket list, P list → P (processPacketLoss socket list)) (h : P peer.list) :
    P (step e config peer event).list := by
  cases event with
  | command now chunkfile outputfile =>
    rw [step, act, (generateWhohas_sending e config now chunkfile outputfile peer).2]
    exact h
  | tick now =>
    obtain ⟨htracker, hlist⟩ := regenerateWhohas_sending e config now peer
    rw [step, act, peerTick]
    dsimp only
    rw [htracker, hlist]
    exact retransmit_list hloss e now _ _ h
  | inbound now stray fromAddr packet =>
    cases hd : delivery e config (.inbound now stray fromAddr packet) with
    | none =>
      rw [step, act, processInboundUdp_none hd]
      exact h
    | some d =>
      obtain ⟨_, _, _, hevent, _⟩ := delivery_eq_some hd
      simp only [Event.inbound.injEq] at hevent
      rw [step, act, processInboundUdp_some hd]
      have hstart : ∀ offset content,
          P ((newElement stray.data d.sockfd offset content).sendMore 1 :: peer.list) := by
        rw [hevent.2.1]
        exact hnew d hd
      exact handlePacket_list hstart (hanswer d hd) h

/-- A property of single transfers that a GET starts with, and that ACKs and
losses keep, is kept by every event. -/
theorem step_transfers {P : Data R → Prop} {event : Event}
    (hnew : ∀ d, delivery e config event = some d → ∀ offset content,
      P ((newElement d.stray.data d.sockfd offset content).sendMore 1))
    (hanswer : ∀ ackNumber data after before tracker packets, P data →
      Answered e ackNumber data before after tracker packets → P after)
    (hloss : ∀ data, P data → P data.packetLoss) (h : ∀ data ∈ peer.list, P data) :
    ∀ data ∈ (step e config peer event).list, P data := by
  refine step_list (P := fun list => ∀ data ∈ list, P data) ?_ ?_ ?_ h
  · exact fun d hd offset content => List.forall_mem_cons.mpr ⟨hnew d hd offset content, h⟩
  · intro d _ ackNumber data after tracker packets hd ha
    exact forall_modifyFirst h fun _ _ =>
      hanswer _ _ _ _ _ _ (h data (List.mem_of_find?_eq_some hd)) ha
  · intro socket list hl
    exact forall_modifyFirst hl fun data hd => hloss data (hl data (List.mem_of_find?_eq_some hd))

end Induction

/-- The window of a transfer: nothing behind its end has been sent, and its
start is not behind its end until the last packet has been sent. -/
structure Windowed (data : Data R) : Prop where
  unsent : Unsent data
  ordered : data.windowStart ≤ data.windowEnd ∨ data.windowEnd = 511

theorem windowed_new (uninit : Uninit) (socket offset : Int) (content : Int → Byte) :
    Windowed ((newElement uninit socket offset content : Data R).sendMore 1) := by
  refine ⟨(unsent_newElement uninit socket offset content).sendMore 1 ?_, Or.inl ?_⟩
  · simp [newElement]
  · simp [newElement, Data.sendMore]

omit [Rate R] in
theorem Windowed.agree {data other : Data R} (h : Windowed data) (ha : other.Agree data) :
    Windowed other := by
  refine ⟨h.unsent.agree ha, ?_⟩
  rw [ha.windowStart, ha.windowEnd]
  exact h.ordered

omit [Rate R] in
theorem Windowed.reach {data : Data R} (h : Windowed data) {ackNumber : Int}
    (hsent : ∀ j, data.windowStart + 1 ≤ j → j ≤ min ackNumber 511 → data.state j ≠ .unsend) :
    min ackNumber 511 ≤ data.windowEnd ∨ data.windowEnd = 511 := by
  have hordered := h.ordered
  have hhigh := h.unsent.high
  by_cases hnew : data.windowStart + 1 ≤ min ackNumber 511
  · have hle := h.unsent.sent (by omega) (hsent (min ackNumber 511) hnew le_rfl)
    omega
  · omega

theorem windowed_answered {e : Endian} {ackNumber : Int} {data after : Data R}
    {before tracker : List PacketTracker} {packets : List DataPacket} (h : Windowed data)
    (ha : Answered e ackNumber data before after tracker packets) : Windowed after := by
  refine ⟨answered_unsent h.unsent ha, ?_⟩
  have hhigh := (answered_unsent h.unsent ha).high
  cases ha with
  | rejected hack => exact h.ordered
  | duplicate hack hprev hcount after hagree hwindow =>
    rw [hagree.windowStart, hagree.windowEnd]
    exact h.ordered
  | unsent hack m hm hstate hsent tracker htracker => exact h.ordered
  | accepted hack hfresh hsent mid hagree hwindow tracker htracker =>
    have hreach := h.reach hsent
    have hstart : mid.windowStart = ackNumber := hagree.windowStart
    have hend : mid.windowEnd = data.windowEnd := hagree.windowEnd
    simp only [Data.sendMore] at hhigh ⊢
    omega

theorem windowed_step (e : Endian) (config : Config) (peer : Peer R) (event : Event)
    (h : ∀ data ∈ peer.list, Windowed data) :
    ∀ data ∈ (step e config peer event).list, Windowed data :=
  step_transfers (fun d _ offset content => windowed_new d.stray.data d.sockfd offset content)
    (fun _ _ _ _ _ _ hdata ha => windowed_answered hdata ha)
    (fun data hdata => hdata.agree (packetLoss_agree data)) h

theorem windowed_run (e : Endian) (config : Config) (events : List Event) :
    ∀ data ∈ (run (step e config) (Peer.init : Peer R) events).list, Windowed data := by
  refine run_invariant_total (I := fun peer : Peer R => ∀ data ∈ peer.list, Windowed data) ?_ _
    events ?_
  · exact fun peer event h => windowed_step e config peer event h
  · simp [Peer.init]

end P2PCC.Transfers

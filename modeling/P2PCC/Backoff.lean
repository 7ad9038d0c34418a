import P2PCC.Timers
import P2PCC.Transfers

namespace P2PCC.Backoff

open P2PCC.Lib.ByteOrder P2PCC.Lib.FirstMatch P2PCC.Lib.Runs P2PCC.Packet P2PCC.ChunkFile
open P2PCC.Tracker P2PCC.Sender P2PCC.HandlePacket P2PCC.Peer P2PCC.Receiving P2PCC.Tracking
open P2PCC.Window P2PCC.Timers P2PCC.Transfers

variable {R : Type}

def Has (socket : Int) (list : List (Data R)) : Prop :=
  ∃ data, getDataBySocket socket list = some data

theorem has_cons {socket : Int} {list : List (Data R)} (h : Has socket list) (data : Data R) :
    Has socket (data :: list) := by
  obtain ⟨old, hold⟩ := h
  by_cases hs : data.socket = socket
  · exact ⟨data, getDataBySocket_head hs⟩
  · refine ⟨old, ?_⟩
    rw [← hold]
    exact List.find?_cons_of_neg (by simpa using hs)

theorem has_setData {socket other : Int} {list : List (Data R)} {data new : Data R}
    (hd : getDataBySocket other list = some data) (hn : new.socket = other) (h : Has socket list) :
    Has socket (setData other new list) := by
  by_cases hs : socket = other
  · subst hs
    exact ⟨new, getDataBySocket_setData hd hn⟩
  · obtain ⟨old, hold⟩ := h
    exact ⟨old, (getDataBySocket_setData_other list hn hs).trans hold⟩

variable [Rate R]

theorem has_processPacketLoss {socket : Int} {list : List (Data R)} (h : Has socket list)
    (other : Int) : Has socket (processPacketLoss other list) := by
  obtain ⟨old, hold⟩ := h
  rw [Has, getDataBySocket_processPacketLoss, hold]
  by_cases hs : socket = other
  · exact ⟨_, if_pos hs⟩
  · exact ⟨_, if_neg hs⟩

theorem processPacketLoss_idle {socket : Int} {list : List (Data R)}
    (h : ∀ data ∈ list, data.socket ≠ socket) : processPacketLoss socket list = list := by
  apply modifyFirst_none
  apply List.find?_eq_none.mpr
  exact fun data hd => by simpa using h data hd

section Loop

theorem retransmit_losses (e : Endian) (now : Int) (pTracker : List PacketTracker)
    (list : List (Data R)) :
    (retransmit e now pTracker list).1 = (pTracker.filter (due now)).foldl
      (fun list t => processPacketLoss t.packet.header.ackNum.toInt list) list := by
  induction pTracker generalizing list with
  | nil => rfl
  | cons t ts ih =>
    cases h : due now t with
    | true => rw [retransmit_resend h, ih, List.filter_cons_of_pos h, List.foldl_cons]
    | false => rw [retransmit_skip h, ih, List.filter_cons_of_neg (by simp [h])]

theorem retransmit_append (e : Endian) (now : Int) (pre post : List PacketTracker)
    (list : List (Data R)) :
    (retransmit e now (pre ++ post) list).1 =
      (retransmit e now post (retransmit e now pre list).1).1 := by
  rw [retransmit_losses, retransmit_losses, retransmit_losses, List.filter_append,
    List.foldl_append]

end Loop

section Replies

theorem step_has (e : Endian) (config : Config) (peer : Peer R) (event : Event) {socket : Int}
    (h : Has socket peer.list) : Has socket (step e config peer event).list := by
  refine step_list (P := Has socket) ?_ ?_ ?_ h
  · exact fun _ _ _ _ => has_cons h _
  · intro d _ ackNumber data after tracker packets hd ha
    exact has_setData hd (ha.identity.1.trans (getDataBySocket_socket hd)) h
  · exact fun other _ hl => has_processPacketLoss hl other

theorem handlePacket_data (e : Endian) (config : Config) (now : Int) (stray : Stray)
    (packet : DataPacket) (sockfd : Int) (peer : Peer R) :
    ∀ p ∈ (handlePacket e config now stray packet sockfd peer).2, p.header.packetType = 3 →
      Has sockfd (handlePacket e config now stray packet sockfd peer).1.list ∧
        ∃ (data : Data R) (index : Int), p = dataPacket e data index := by
  have hp := handlePacket_handled e config now stray packet sockfd peer
  have htype := handlePacket_replyType e config now stray packet sockfd peer
  rw [ntoh_packetType] at hp
  generalize handlePacket e config now stray packet sockfd peer = handled at hp htype
  generalize packet.header.packetType = type at hp htype
  intro p hmem h3
  have hreply := htype p hmem
  rw [h3] at hreply
  cases hp with
  | whohas => exact absurd hreply (by decide)
  | ihave => exact absurd hreply (by decide)
  | get =>
    dsimp only [handleGet] at hmem ⊢
    rw [sendData_initDatalist] at hmem ⊢
    exact ⟨⟨_, getDataBySocket_head rfl⟩, _, _, List.mem_singleton.mp hmem⟩
  | data => exact absurd hreply (by decide)
  | ack =>
    dsimp only [handleAckPacket] at hmem ⊢
    cases hd : getDataBySocket sockfd peer.list with
    | none =>
      rw [handleAck, hd] at hmem
      exact absurd hmem List.not_mem_nil
    | some data =>
      have ha := data.answer_answered e ((packet.ntoh e).header.ackNum - 1).toInt peer.pTracker
      rw [handleAck_eq e _ peer.pTracker hd] at hmem ⊢
      obtain ⟨index, hindex⟩ := ha.isData p hmem
      exact ⟨⟨_, getDataBySocket_setData hd (ha.identity.1.trans (getDataBySocket_socket hd))⟩,
        data, index, hindex⟩
  | invalid type hn => exact absurd hmem List.not_mem_nil

end Replies

section Reachable

/-- What the timeout loop relies on for each entry it may send again. -/
structure Owned (peer : Peer R) : Prop where
  ackNum : ∀ t ∈ peer.pTracker, t.seq ≠ -441 → t.packet.header.ackNum = 0
  owner : ∀ t ∈ peer.pTracker, t.seq ≠ -441 → Has t.sock peer.list

theorem owned_step (e : Endian) (config : Config) (peer : Peer R) (event : Event)
    (h : Owned peer) : Owned (step e config peer event) := by
  refine ⟨?_, ?_⟩
  · refine step_tracker (Q := fun t => t.seq ≠ -441 → t.packet.header.ackNum = 0) ?_ e config ?_ ?_
      peer event ?_ h.ackNum
    · exact fun _ _ _ ht => ht
    · exact fun _ hs => absurd rfl hs
    · exact fun _ _ ht => ht
    · intro now stray fromAddr packet d _ _ p hp h3 _ _ _
      obtain ⟨_, data, index, rfl⟩ := handlePacket_data e config now stray packet d.sockfd peer p hp h3
      show hton32 e (hton32 e 0) = 0
      rw [hton32_zero, hton32_zero]
  · refine step_tracker (Q := fun t => t.seq ≠ -441 → Has t.sock (step e config peer event).list)
      ?_ e config ?_ ?_ peer event ?_ ?_
    · exact fun _ _ _ ht => ht
    · exact fun _ hs => absurd rfl hs
    · exact fun _ _ ht => ht
    · rintro now stray fromAddr packet d rfl hd p hp h3 _ _ _
      rw [step, act, processInboundUdp_some hd]
      exact (handlePacket_data e config now stray packet d.sockfd peer p hp h3).1
    · exact fun t ht hs => step_has e config peer event (h.owner t ht hs)

theorem owned_run (e : Endian) (config : Config) (events : List Event) :
    Owned (run (step e config) (Peer.init : Peer R) events) := by
  apply run_invariant_total (owned_step e config)
  exact ⟨by simp [Peer.init], by simp [Peer.init]⟩

theorem sockets_run (e : Endian) {config : Config} (hids : ∀ node ∈ config.peers, node.id ≠ 0)
    (events : List Event) :
    ∀ data ∈ (run (step e config) (Peer.init : Peer R) events).list, data.socket ≠ 0 := by
  refine run_invariant_total (I := fun peer : Peer R => ∀ data ∈ peer.list, data.socket ≠ 0) ?_ _
    events (by simp [Peer.init])
  intro peer event h
  refine step_transfers (P := fun data => data.socket ≠ 0) ?_ ?_ ?_ h
  · intro d hd offset content
    obtain ⟨_, _, node, _, _, hnode, _, hsockfd⟩ := delivery_eq_some hd
    show d.sockfd ≠ 0
    rw [hsockfd]
    exact hids node (List.mem_of_find?_eq_some hnode)
  · intro ackNumber data after before tracker packets hs ha
    rwa [ha.identity.1]
  · exact fun _ hs => hs

end Reachable

section Punishment

/-- A loss is counted for the current transfer of a peer, and for no other. -/
structure BacksOff (socket : Int) (before after : List (Data R)) : Prop where
  current : ∃ old new, getDataBySocket socket before = some old ∧
    getDataBySocket socket after = some new ∧ new.ssthresh = old.sendWindow.tdiv 2 ∧
    new.sendWindow = 1 ∧ new.congestionControlState = .slowstart
  others : after.filter (fun data => data.socket ≠ socket) =
    before.filter (fun data => data.socket ≠ socket)

/-- The current transfer of a peer has backed off as far as it can. -/
def Lowest (socket : Int) (list : List (Data R)) : Prop :=
  ∀ data, getDataBySocket socket list = some data →
    data.ssthresh = 0 ∧ data.sendWindow = 1 ∧ data.congestionControlState = .slowstart

omit [Rate R] in
theorem backsOff_same_iff {socket : Int} {list : List (Data R)} (h : Has socket list) :
    BacksOff socket list list ↔ Lowest socket list := by
  obtain ⟨data, hd⟩ := h
  constructor
  · rintro ⟨⟨old, new, hold, hnew, hssthresh, hwindow, hstate⟩, _⟩ found hfound
    obtain rfl := Option.some.inj (hold.symm.trans hnew)
    obtain rfl := Option.some.inj (hold.symm.trans hfound)
    rw [hwindow] at hssthresh
    exact ⟨hssthresh, hwindow, hstate⟩
  · intro hl
    obtain ⟨hssthresh, hwindow, hstate⟩ := hl data hd
    refine ⟨⟨data, data, hd, hd, ?_, hwindow, hstate⟩, rfl⟩
    rw [hssthresh, hwindow]
    rfl

theorem retransmit_idle (e : Endian) (now : Int) (pTracker : List PacketTracker)
    {list : List (Data R)}
    (hack : ∀ t ∈ pTracker, t.seq ≠ -441 → t.packet.header.ackNum = 0)
    (hsockets : ∀ data ∈ list, data.socket ≠ 0) : (retransmit e now pTracker list).1 = list := by
  rw [retransmit_losses]
  induction pTracker with
  | nil => rfl
  | cons t ts ih =>
    obtain ⟨ht, hts⟩ := List.forall_mem_cons.mp hack
    by_cases hdue : due now t = true
    · rw [List.filter_cons_of_pos hdue, List.foldl_cons, ht (due_seq hdue)]
      rw [show processPacketLoss (0 : BitVec 32).toInt list = list from
        processPacketLoss_idle hsockets]
      exact ih hts
    · rw [List.filter_cons_of_neg hdue]
      exact ih hts

/-- When the timeout loop of a process sends the packet of an entry again, the
transfer of its peer backs off exactly when it had already done so. -/
theorem timeout_backs_off_iff (e : Endian) (config : Config)
    (hids : ∀ node ∈ config.peers, node.id ≠ 0) (events : List Event) (now : Int)
    (pre post : List PacketTracker) (t : PacketTracker)
    (ht : (run (step e config) (Peer.init : Peer R) events).pTracker = pre ++ t :: post)
    (hdue : due now t = true) :
    BacksOff t.sock
        (retransmit e now pre (run (step e config) (Peer.init : Peer R) events).list).1
        (retransmit e now (pre ++ [t]) (run (step e config) (Peer.init : Peer R) events).list).1 ↔
      Lowest t.sock (run (step e config) (Peer.init : Peer R) events).list := by
  obtain ⟨hack, howner⟩ := owned_run (R := R) e config events
  have hsockets := sockets_run (R := R) e hids events
  rw [ht] at hack howner
  have hhas := howner t (by simp) (due_seq hdue)
  have hpre := retransmit_idle e now pre
    (fun u hu => hack u (List.mem_append_left _ hu)) hsockets
  have hone := retransmit_idle e now [t]
    (fun u hu => hack u (List.mem_singleton.mp hu ▸ by simp)) hsockets
  rw [retransmit_append, hpre, hone]
  exact backsOff_same_iff hhas

end Punishment

/-- Peer 2 has asked for a chunk, and its first packet has not been
acknowledged. -/
def waiting : Peer ℚ := run (step .little network) Peer.init [fromPeer 2 getPacket]

def waitingEntry : PacketTracker := waiting.pTracker.getD 1 (dummyHead cleared.dummy)

theorem waiting_tracker : waiting.pTracker = [dummyHead cleared.dummy] ++ waitingEntry :: [] := by
  decide +kernel

theorem waiting_due : due 5 waitingEntry = true := by
  decide +kernel

theorem timeout_backs_off_run :
    BacksOff waitingEntry.sock
        (retransmit .little 5 [dummyHead cleared.dummy] waiting.list).1
        (retransmit .little 5 ([dummyHead cleared.dummy] ++ [waitingEntry]) waiting.list).1 ↔
      Lowest waitingEntry.sock waiting.list :=
  timeout_backs_off_iff .little network (by decide) [fromPeer 2 getPacket] 5
    [dummyHead cleared.dummy] [] waitingEntry waiting_tracker waiting_due

/-- The timeout of the first packet leaves the threshold where it was. -/
theorem timeout_no_back_off :
    ¬∀ (events : List Event) (now : Int) (pre post : List PacketTracker) (t : PacketTracker),
      (run (step .little network) (Peer.init : Peer ℚ) events).pTracker = pre ++ t :: post →
      due now t = true →
      BacksOff t.sock
        (retransmit .little now pre (run (step .little network) (Peer.init : Peer ℚ) events).list).1
        (retransmit .little now (pre ++ [t])
          (run (step .little network) (Peer.init : Peer ℚ) events).list).1 := by
  intro h
  obtain ⟨⟨old, new, hold, hnew, hssthresh, _⟩, _⟩ :=
    h [fromPeer 2 getPacket] 5 [dummyHead cleared.dummy] [] waitingEntry waiting_tracker waiting_due
  have hbefore : (getDataBySocket waitingEntry.sock (retransmit .little 5
      [dummyHead cleared.dummy] waiting.list).1).map Data.sendWindow = some 1 := by
    decide +kernel
  have hafter : (getDataBySocket waitingEntry.sock (retransmit .little 5
      ([dummyHead cleared.dummy] ++ [waitingEntry]) waiting.list).1).map Data.ssthresh =
      some 64 := by
    decide +kernel
  have hwindow : old.sendWindow = 1 :=
    Option.some.inj ((congrArg (Option.map Data.sendWindow) hold).symm.trans hbefore)
  have hthreshold : new.ssthresh = 64 :=
    Option.some.inj ((congrArg (Option.map Data.ssthresh) hnew).symm.trans hafter)
  rw [hwindow, hthreshold] at hssthresh
  exact absurd hssthresh (by decide)

end P2PCC.Backoff

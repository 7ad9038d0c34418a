import P2PCC.Lib.Runs
import P2PCC.Peer

namespace P2PCC.Receiving

open P2PCC.Lib.ByteOrder P2PCC.Lib.Runs P2PCC.Packet P2PCC.ChunkFile P2PCC.Tracker
open P2PCC.Sender P2PCC.Receiver P2PCC.Manager P2PCC.HandlePacket P2PCC.Peer

variable {R : Type}

/-- A packet that reaches `handle_packet`, in host order and with the id of
the peer it comes from. -/
structure Delivery where
  now : Int
  stray : Stray
  sockfd : Int
  packet : DataPacket

def delivery (e : Endian) (config : Config) : Event → Option Delivery
  | .inbound now stray fromAddr packet =>
    (config.peers.find? (fun node => node.addr = fromAddr)).bind (fun node =>
      if node.id = -1 then none else some ⟨now, stray, node.id, packet.ntoh e⟩)
  | _ => none

theorem delivery_eq_some {e : Endian} {config : Config} {event : Event} {d : Delivery}
    (h : delivery e config event = some d) : ∃ fromAddr packet node,
      event = .inbound d.now d.stray fromAddr packet ∧ d.packet = packet.ntoh e ∧
      config.peers.find? (fun node => node.addr = fromAddr) = some node ∧ node.id ≠ -1 ∧
      d.sockfd = node.id := by
  cases event with
  | command now chunkfile outputfile => simp [delivery] at h
  | tick now => simp [delivery] at h
  | inbound now stray fromAddr packet =>
    rw [delivery, Option.bind_eq_some_iff] at h
    obtain ⟨node, hf, hd⟩ := h
    by_cases hid : node.id = -1
    · simp [hid] at hd
    · rw [if_neg hid, Option.some.injEq] at hd
      subst hd
      exact ⟨fromAddr, packet, node, rfl, rfl, hf, hid, rfl⟩

def clock : Event → Int
  | .inbound now _ _ _ => now
  | .command now _ _ => now
  | .tick now => now

theorem delivery_clock {e : Endian} {config : Config} {event : Event} {d : Delivery}
    (h : delivery e config event = some d) : d.now = clock event := by
  obtain ⟨_, _, _, rfl, _⟩ := delivery_eq_some h
  rfl

theorem delivery_known {e : Endian} {config : Config} {event : Event} {d : Delivery}
    (h : delivery e config event = some d) :
    ∃ node, config.peers.find? (fun node => node.id = d.sockfd) = some node := by
  obtain ⟨_, _, node, _, _, hf, _, hs⟩ := delivery_eq_some h
  rw [← Option.isSome_iff_exists, List.find?_isSome]
  exact ⟨node, List.mem_of_find?_eq_some hf, by simp [hs]⟩

theorem processInboundUdp_none [Rate R] {e : Endian} {config : Config} {now : Int} {stray : Stray}
    {fromAddr : SockAddr} {packet : DataPacket}
    (h : delivery e config (.inbound now stray fromAddr packet) = none) (peer : Peer R) :
    processInboundUdp e config now stray fromAddr packet peer = (peer, []) := by
  rw [delivery, Option.bind_eq_none_iff] at h
  unfold processInboundUdp
  cases hf : config.peers.find? (fun node => decide (node.addr = fromAddr)) with
  | none => rfl
  | some node =>
    have hid : node.id = -1 := by simpa using h node hf
    simp [hid]

theorem processInboundUdp_some [Rate R] {e : Endian} {config : Config} {now : Int} {stray : Stray}
    {fromAddr : SockAddr} {packet : DataPacket} {d : Delivery}
    (h : delivery e config (.inbound now stray fromAddr packet) = some d) (peer : Peer R) :
    processInboundUdp e config now stray fromAddr packet peer =
      let handled := handlePacket e config now stray packet d.sockfd peer
      let sent := sendResponses e now stray.dummy d.sockfd fromAddr handled.2 handled.1.pTracker
      ({ handled.1 with pTracker := sent.1 }, sent.2) := by
  obtain ⟨_, _, node, he, _, hf, hid, hs⟩ := delivery_eq_some h
  simp only [Event.inbound.injEq] at he
  obtain ⟨_, _, rfl, rfl⟩ := he
  simp only [processInboundUdp, hf, hid, ↓reduceIte, hs]

/-- The peer a packet comes from, and what `handle_packet` returns for it. -/
def responses [Rate R] (e : Endian) (config : Config) (peer : Peer R) :
    Event → Option (Int × List DataPacket)
  | .inbound now stray fromAddr packet =>
    (config.peers.find? (fun node => node.addr = fromAddr)).bind (fun node =>
      if node.id = -1 then none
      else some (node.id, (handlePacket e config now stray packet node.id peer).2))
  | _ => none

theorem responses_none [Rate R] {e : Endian} {config : Config} {event : Event}
    (h : delivery e config event = none) (peer : Peer R) :
    responses e config peer event = none := by
  cases event with
  | command now chunkfile outputfile => rfl
  | tick now => rfl
  | inbound now stray fromAddr packet =>
    rw [delivery, Option.bind_eq_none_iff] at h
    rw [responses, Option.bind_eq_none_iff]
    intro node hnode
    have hid : node.id = -1 := by simpa using h node hnode
    rw [if_pos hid]

theorem responses_some [Rate R] {e : Endian} {config : Config} {event : Event} {d : Delivery}
    (h : delivery e config event = some d) (peer : Peer R) :
    ∃ packet, d.packet = packet.ntoh e ∧ responses e config peer event =
      some (d.sockfd, (handlePacket e config d.now d.stray packet d.sockfd peer).2) := by
  obtain ⟨fromAddr, packet, node, rfl, hp, hf, hid, hs⟩ := delivery_eq_some h
  refine ⟨packet, hp, ?_⟩
  rw [responses, hf, Option.bind_some, if_neg hid, hs]

/-- Two states with the same buffers, requests and files. -/
structure SameReceiving (p q : Peer R) : Prop where
  recvList : p.recvList = q.recvList
  fileManager : p.fileManager = q.fileManager
  written : p.written = q.written

variable [Rate R]

/-- What an event does to the receiving side. -/
inductive Received (e : Endian) (config : Config) (peer : Peer R) : Event → Peer R → Prop
  | command (now : Int) (chunkfile : Option (List ChunkLine)) (outputfile : List Byte) :
    Received e config peer (.command now chunkfile outputfile)
      (generateWhohas e config now chunkfile outputfile peer).1
  | tick (now : Int) : Received e config peer (.tick now) (regenerateWhohas e config now peer).1
  | ignored (now : Int) (stray : Stray) (fromAddr : SockAddr) (packet : DataPacket)
    (hd : delivery e config (.inbound now stray fromAddr packet) = none) :
    Received e config peer (.inbound now stray fromAddr packet) peer
  | ihave (event : Event) (d : Delivery) (hd : delivery e config event = some d)
    (ht : d.packet.header.packetType = 1) :
    Received e config peer event (handleIhave e config d.now d.sockfd d.packet peer).1
  | data (event : Event) (d : Delivery) (hd : delivery e config event = some d)
    (ht : d.packet.header.packetType = 3) :
    Received e config peer event (handleData e d.now d.stray d.sockfd d.packet peer).1
  | other (event : Event) (d : Delivery) (hd : delivery e config event = some d)
    (hi : d.packet.header.packetType ≠ 1) (ht : d.packet.header.packetType ≠ 3) :
    Received e config peer event peer

theorem handlePacket_received (e : Endian) (config : Config) (now : Int) (stray : Stray)
    (packet : DataPacket) (sockfd : Int) (peer : Peer R) :
    SameReceiving (handlePacket e config now stray packet sockfd peer).1
      (if (packet.ntoh e).header.packetType = 1 then
        (handleIhave e config now sockfd (packet.ntoh e) peer).1
      else if (packet.ntoh e).header.packetType = 3 then
        (handleData e now stray sockfd (packet.ntoh e) peer).1
      else peer) := by
  have hsame : ∀ p : Peer R, SameReceiving p p := fun p => ⟨rfl, rfl, rfl⟩
  have h := handlePacket_handled e config now stray packet sockfd peer
  generalize handlePacket e config now stray packet sockfd peer = handled at h
  generalize (packet.ntoh e).header.packetType = type at h
  cases h with
  | whohas => exact hsame peer
  | ihave => exact hsame _
  | get => exact ⟨rfl, rfl, rfl⟩
  | data => exact hsame _
  | ack => exact ⟨rfl, rfl, rfl⟩
  | invalid type h =>
    simp only [List.mem_cons, not_or] at h
    rw [if_neg h.2.1, if_neg h.2.2.2.1]
    exact hsame peer

theorem step_received (e : Endian) (config : Config) (peer : Peer R) (event : Event) :
    ∃ next, Received e config peer event next ∧ SameReceiving (step e config peer event) next := by
  cases event with
  | command now chunkfile outputfile => exact ⟨_, .command now chunkfile outputfile, rfl, rfl, rfl⟩
  | tick now => exact ⟨_, .tick now, rfl, rfl, rfl⟩
  | inbound now stray fromAddr packet =>
    cases hd : delivery e config (.inbound now stray fromAddr packet) with
    | none =>
      refine ⟨peer, .ignored now stray fromAddr packet hd, ?_⟩
      rw [step, act, processInboundUdp_none hd]
      exact ⟨rfl, rfl, rfl⟩
    | some d =>
      obtain ⟨_, _, _, he, hp, _⟩ := delivery_eq_some hd
      simp only [Event.inbound.injEq] at he
      obtain ⟨rfl, rfl, rfl, rfl⟩ := he
      have hr := handlePacket_received e config d.now d.stray packet d.sockfd peer
      have hstep : SameReceiving (step e config peer (.inbound d.now d.stray fromAddr packet))
          (handlePacket e config d.now d.stray packet d.sockfd peer).1 := by
        rw [step, act, processInboundUdp_some hd]
        exact ⟨rfl, rfl, rfl⟩
      rw [← hp] at hr
      refine ⟨_, ?_, hstep.recvList.trans hr.recvList, hstep.fileManager.trans hr.fileManager,
        hstep.written.trans hr.written⟩
      split
      · rename_i h1
        exact .ihave _ d hd h1
      · split
        · rename_i h3
          exact .data _ d hd h3
        · rename_i h1 h3
          exact .other _ d hd h1 h3

theorem step_data {e : Endian} {config : Config} {event : Event} {d : Delivery}
    (hd : delivery e config event = some d) (ht : d.packet.header.packetType = 3) (peer : Peer R) :
    SameReceiving (step e config peer event) (handleData e d.now d.stray d.sockfd d.packet peer).1 := by
  obtain ⟨next, hr, hsame⟩ := step_received e config peer event
  cases hr with
  | command now chunkfile outputfile => simp [delivery] at hd
  | tick now => simp [delivery] at hd
  | ignored now stray fromAddr packet hn => simp [hn] at hd
  | ihave _ d' hd' ht' =>
    obtain rfl : d' = d := Option.some.inj (hd'.symm.trans hd)
    simp [ht] at ht'
  | data _ d' hd' ht' =>
    obtain rfl : d' = d := Option.some.inj (hd'.symm.trans hd)
    exact hsame
  | other _ d' hd' hi ht' =>
    obtain rfl : d' = d := Option.some.inj (hd'.symm.trans hd)
    exact absurd ht ht'

theorem step_ihave {e : Endian} {config : Config} {event : Event} {d : Delivery}
    (hd : delivery e config event = some d) (ht : d.packet.header.packetType = 1) (peer : Peer R) :
    SameReceiving (step e config peer event)
      (handleIhave e config d.now d.sockfd d.packet peer).1 := by
  obtain ⟨next, hr, hsame⟩ := step_received e config peer event
  cases hr with
  | command now chunkfile outputfile => simp [delivery] at hd
  | tick now => simp [delivery] at hd
  | ignored now stray fromAddr packet hn => simp [hn] at hd
  | ihave _ d' hd' ht' =>
    obtain rfl : d' = d := Option.some.inj (hd'.symm.trans hd)
    exact hsame
  | data _ d' hd' ht' =>
    obtain rfl : d' = d := Option.some.inj (hd'.symm.trans hd)
    simp [ht] at ht'
  | other _ d' hd' hi ht' =>
    obtain rfl : d' = d := Option.some.inj (hd'.symm.trans hd)
    exact absurd ht hi

omit [Rate R] in
theorem generateWhohas_opens (e : Endian) (config : Config) (now : Int)
    (chunkfile : Option (List ChunkLine)) (outputfile : List Byte) (peer : Peer R) :
    ∃ fm, (generateWhohas e config now chunkfile outputfile peer).1 =
        { peer with outputFile := outputfile.take 120, fileManager := fm } ∧
      fm.init = true ∧ fm.alreadyUsed = [] := by
  cases chunkfile with
  | none => exact ⟨_, rfl, rfl, rfl⟩
  | some ls =>
    rw [generateWhohas]
    dsimp only
    obtain ⟨n, _ | ⟨data, ret⟩⟩ := whohasLoop e ls 0 [] []
    · exact ⟨_, rfl, rfl, rfl⟩
    · exact ⟨_, rfl, rfl, rfl⟩

omit [Rate R] in
theorem generateWhohas_init (e : Endian) (config : Config) (now : Int)
    (chunkfile : Option (List ChunkLine)) (outputfile : List Byte) (peer : Peer R) :
    (generateWhohas e config now chunkfile outputfile peer).1.fileManager.init = true := by
  obtain ⟨fm, heq, hinit, _⟩ := generateWhohas_opens e config now chunkfile outputfile peer
  rw [heq]
  exact hinit

omit [Rate R] in
theorem generateWhohas_recvList (e : Endian) (config : Config) (now : Int)
    (chunkfile : Option (List ChunkLine)) (outputfile : List Byte) (peer : Peer R) :
    (generateWhohas e config now chunkfile outputfile peer).1.recvList = peer.recvList := by
  obtain ⟨fm, heq, _⟩ := generateWhohas_opens e config now chunkfile outputfile peer
  rw [heq]

theorem releaseFull_induction {P : List RecvBuffer → Prop}
    (hrelease : ∀ o l, P l → P (releaseBuffer o l)) (offsets : List Int)
    (recvList : List RecvBuffer) (h : P recvList) : P (releaseFull offsets recvList).2 := by
  induction offsets generalizing recvList with
  | nil => exact h
  | cons o offsets ih =>
    rw [releaseFull]
    split
    · exact ih _ (hrelease o recvList h)
    · exact h

theorem checkFileManager_induction {P : List RecvBuffer → Prop}
    (hrelease : ∀ o l, P l → P (releaseBuffer o l)) (fm : FileManager)
    (recvList : List RecvBuffer) (h : P recvList) :
    P (checkFileManager fm recvList).2.2.1 := by
  have hr := releaseFull_induction hrelease fm.requested recvList h
  unfold checkFileManager
  split
  · exact h
  · generalize releaseFull fm.requested recvList = released at hr
    obtain ⟨_ | _, l⟩ := released <;> exact hr

section Loops

omit [Rate R]

variable {e : Endian} {config : Config}

theorem regenerateStep_cases (e : Endian) (config : Config) (now : Int)
    (st : FileManager × List RecvBuffer × List DataPacket) (i : Nat) :
    regenerateStep e config now st i = st ∨
      regenerateStep e config now st i =
        ({ st.1 with timer := st.1.timer.set i now }, releaseBuffer (st.1.offset.getD i 0) st.2.1,
          initPacket e 0 (getHashFromMasterChunkfile (st.1.offset.getD i 0) config) 20 ::
            st.2.2) := by
  rw [regenerateStep]
  dsimp only
  split
  · exact Or.inl rfl
  · split
    · exact Or.inr rfl
    · exact Or.inl rfl

theorem regenerateWhohas_rule {I : FileManager × List RecvBuffer × List DataPacket → Prop}
    {now : Int} (hask : ∀ fm recvList ret i, I (fm, recvList, ret) →
      I ({ fm with timer := fm.timer.set i now }, releaseBuffer (fm.offset.getD i 0) recvList,
        initPacket e 0 (getHashFromMasterChunkfile (fm.offset.getD i 0) config) 20 :: ret))
    (peer : Peer R) (h : I (peer.fileManager, peer.recvList, [])) :
    I ((regenerateWhohas e config now peer).1.fileManager,
      (regenerateWhohas e config now peer).1.recvList, (regenerateWhohas e config now peer).2) := by
  have hstep : ∀ st i, I st → I (regenerateStep e config now st i) := by
    intro st i hst
    obtain heq | heq := regenerateStep_cases e config now st i
    · rwa [heq]
    · rw [heq]
      exact hask st.1 st.2.1 st.2.2 i hst
  rw [regenerateWhohas]
  split
  · exact h
  · exact run_invariant_total hstep (peer.fileManager, peer.recvList, [])
      (List.range peer.fileManager.chunkCount) h

theorem ihaveStep_cases (e : Endian) (config : Config) (now sockfd : Int) (packet : DataPacket)
    (st : Peer R × List DataPacket) (i : Nat) : ihaveStep e config now sockfd packet st i = st ∨
      ∃ offset node count recvList, offset ≠ -1 ∧
        initRecvBuffer offset sockfd st.1.recvList = (count, recvList) ∧
        ihaveStep e config now sockfd packet st i =
          ({ st.1 with
              recvList := recvList
              fileManager := { st.1.fileManager with
                alreadyUsed := (offset, node) :: st.1.fileManager.alreadyUsed }.touch offset now },
            initPacket e 2 (some (hashAt packet i)) 20 :: st.2) := by
  rw [ihaveStep]
  dsimp only
  split
  · exact Or.inl rfl
  · split
    · exact Or.inl rfl
    · rename_i hoffset
      split
      · exact Or.inl rfl
      · rename_i hbuffer
        exact Or.inr ⟨_, _, _, _, hoffset, hbuffer, rfl⟩

theorem handleIhave_rule {I : Peer R × List DataPacket → Prop} {now sockfd : Int}
    {packet : DataPacket}
    (hask : ∀ (peer : Peer R) ret i offset node count recvList, offset ≠ -1 →
      initRecvBuffer offset sockfd peer.recvList = (count, recvList) → I (peer, ret) →
      I ({ peer with
          recvList := recvList
          fileManager := { peer.fileManager with
            alreadyUsed := (offset, node) :: peer.fileManager.alreadyUsed }.touch offset now },
        initPacket e 2 (some (hashAt packet i)) 20 :: ret))
    (peer : Peer R) (h : I (peer, [])) : I (handleIhave e config now sockfd packet peer) := by
  have hstep : ∀ st i, I st → I (ihaveStep e config now sockfd packet st i) := by
    intro st i hst
    obtain heq | ⟨offset, node, count, recvList, hoffset, hbuffer, heq⟩ :=
      ihaveStep_cases e config now sockfd packet st i
    · rwa [heq]
    · rw [heq]
      exact hask st.1 st.2 i offset node count recvList hoffset hbuffer hst
  exact run_invariant_total hstep (peer, []) (List.range (hashCount packet)) h

end Loops

omit [Rate R] in
theorem regenerateWhohas_induction {P : List RecvBuffer → Prop}
    (hrelease : ∀ o l, P l → P (releaseBuffer o l)) (e : Endian) (config : Config) (now : Int)
    (peer : Peer R) (h : P peer.recvList) : P (regenerateWhohas e config now peer).1.recvList :=
  regenerateWhohas_rule (I := fun st => P st.2.1) (fun _ _ _ _ hst => hrelease _ _ hst) peer h

omit [Rate R] in
/-- A property of the buffer list that the three operations on it keep is
kept by every event. -/
theorem Received.recvList_induction {P : List RecvBuffer → Prop} {e : Endian} {config : Config}
    {peer next : Peer R} {event : Event}
    (hinit : ∀ o s l, o ≠ -1 → P l → P (initRecvBuffer o s l).2)
    (hrelease : ∀ o l, P l → P (releaseBuffer o l))
    (hrecv : ∀ d, delivery e config event = some d → d.packet.header.packetType = 3 →
      P (recvData e d.stray.past d.packet d.sockfd peer.recvList).1)
    (h : Received e config peer event next) (hp : P peer.recvList) : P next.recvList := by
  cases h with
  | command now chunkfile outputfile =>
    rw [generateWhohas_recvList]
    exact hp
  | tick now => exact regenerateWhohas_induction hrelease e config now peer hp
  | ignored now stray fromAddr packet hd => exact hp
  | ihave _ d hd ht =>
    refine handleIhave_rule (I := fun st => P st.1.recvList) ?_ peer hp
    intro p ret i offset node count recvList hoffset hbuffer hst
    have hi := hinit offset d.sockfd p.recvList hoffset hst
    rwa [hbuffer] at hi
  | data _ d hd ht => exact checkFileManager_induction hrelease _ _ (hrecv d hd ht)
  | other _ d hd hi ht => exact hp

omit [Rate R] in
theorem handleData_fileManager (e : Endian) (now : Int) (stray : Stray) (sockfd : Int)
    (packet : DataPacket) (peer : Peer R) :
    (handleData e now stray sockfd packet peer).1.fileManager =
      (checkFileManager (peer.fileManager.touch
        (((recvData e stray.past packet sockfd peer.recvList).2.map Prod.snd).getD stray.offset) now)
        (recvData e stray.past packet sockfd peer.recvList).1).2.1 := rfl

section Clocks

variable {P : FileManager → Prop} {e : Endian} {config : Config}

omit [Rate R] in
theorem regenerateWhohas_fileManager
    (now : Int) (hset : ∀ fm slot alreadyUsed, P fm →
      P { fm with timer := fm.timer.set slot now, alreadyUsed := alreadyUsed })
    {peer : Peer R} (hp : P peer.fileManager) :
    P (regenerateWhohas e config now peer).1.fileManager :=
  regenerateWhohas_rule (I := fun st => P st.1)
    (fun fm _ _ i hst => hset fm i fm.alreadyUsed hst) peer hp

omit [Rate R] in
theorem handleIhave_fileManager
    (now sockfd : Int) (hset : ∀ fm slot alreadyUsed, P fm →
      P { fm with timer := fm.timer.set slot now, alreadyUsed := alreadyUsed })
    (packet : DataPacket) {peer : Peer R} (hp : P peer.fileManager) :
    P (handleIhave e config now sockfd packet peer).1.fileManager :=
  handleIhave_rule (I := fun st => P st.1.fileManager)
    (fun p _ _ _ _ _ _ _ _ hst => hset p.fileManager _ _ hst) peer hp

theorem checkFileManager_fileManager {fm : FileManager} {recvList : List RecvBuffer}
    (hclose : (∀ o ∈ fm.requested, isBufferFull o recvList = 1) →
      P { fm with init := false, offset := [], timer := [], alreadyUsed := [] })
    (hp : P fm) : P (checkFileManager fm recvList).2.1 := by
  unfold checkFileManager
  split
  · exact hp
  · rw [releaseFull_eq]
    split
    · exact hp
    · rename_i heq
      have hall := (Prod.mk.inj heq).1
      exact hclose (by simpa using hall)

omit [Rate R] in
/-- Between two requests the file manager only has clocks set to the time of
the event and its list of owners changed, until the DATA packet comes with
which every chunk is full. -/
theorem Received.fileManager_clocks {peer next : Peer R} {event : Event}
    (hset : ∀ fm slot alreadyUsed, P fm →
      P { fm with timer := fm.timer.set slot (clock event), alreadyUsed := alreadyUsed })
    (hclose : ∀ d, delivery e config event = some d → d.packet.header.packetType = 3 →
      (∀ o ∈ peer.fileManager.requested,
        isBufferFull o (recvData e d.stray.past d.packet d.sockfd peer.recvList).1 = 1) →
      ∀ fm, P fm → P { fm with init := false, offset := [], timer := [], alreadyUsed := [] })
    (hcommand : ∀ now chunkfile outputfile, event = .command now chunkfile outputfile →
      P (generateWhohas e config now chunkfile outputfile peer).1.fileManager)
    (h : Received e config peer event next) (hp : P peer.fileManager) : P next.fileManager := by
  cases h with
  | command now chunkfile outputfile => exact hcommand now chunkfile outputfile rfl
  | tick now => exact regenerateWhohas_fileManager now hset hp
  | ignored now stray fromAddr packet hd => exact hp
  | ihave _ d hd ht =>
    rw [← delivery_clock hd] at hset
    exact handleIhave_fileManager d.now d.sockfd hset d.packet hp
  | data _ d hd ht =>
    rw [← delivery_clock hd] at hset
    have htouch : ∀ offset, P (peer.fileManager.touch offset d.now) := fun offset =>
      hset peer.fileManager _ peer.fileManager.alreadyUsed hp
    rw [handleData_fileManager]
    exact checkFileManager_fileManager (fun hall => hclose d hd ht hall _ (htouch _)) (htouch _)
  | other _ d hd hi ht => exact hp

omit [Rate R] in
theorem Received.fileManager_lasting {peer next : Peer R} {event : Event}
    (hclock : ∀ fm timer alreadyUsed, timer.length = fm.timer.length → P fm →
      P { fm with timer := timer, alreadyUsed := alreadyUsed })
    (hclose : ∀ d, delivery e config event = some d → d.packet.header.packetType = 3 →
      (∀ o ∈ peer.fileManager.requested,
        isBufferFull o (recvData e d.stray.past d.packet d.sockfd peer.recvList).1 = 1) →
      ∀ fm, P fm → P { fm with init := false, offset := [], timer := [], alreadyUsed := [] })
    (hcommand : ∀ now chunkfile outputfile, event = .command now chunkfile outputfile →
      P (generateWhohas e config now chunkfile outputfile peer).1.fileManager)
    (h : Received e config peer event next) (hp : P peer.fileManager) : P next.fileManager :=
  h.fileManager_clocks (fun fm _ alreadyUsed => hclock fm _ alreadyUsed (List.length_set ..)) hclose
    hcommand hp

end Clocks

omit [Rate R] in
theorem Received.fileManager_induction {P : FileManager → Prop} {e : Endian} {config : Config}
    {peer next : Peer R} {event : Event}
    (hclock : ∀ fm timer alreadyUsed, P fm → P { fm with timer := timer, alreadyUsed := alreadyUsed })
    (hclose : ∀ d, delivery e config event = some d → d.packet.header.packetType = 3 →
      (∀ o ∈ peer.fileManager.requested,
        isBufferFull o (recvData e d.stray.past d.packet d.sockfd peer.recvList).1 = 1) →
      ∀ fm, P fm → P { fm with init := false, offset := [], timer := [], alreadyUsed := [] })
    (hcommand : ∀ now chunkfile outputfile, event = .command now chunkfile outputfile →
      P (generateWhohas e config now chunkfile outputfile peer).1.fileManager)
    (h : Received e config peer event next) (hp : P peer.fileManager) : P next.fileManager :=
  h.fileManager_lasting (fun fm timer alreadyUsed _ => hclock fm timer alreadyUsed) hclose hcommand
    hp

/-- Three peers and a master file of two chunks, for runs on fixed inputs. -/
def network : Config :=
  { chunkFile := some [⟨0, List.replicate 40 48⟩, ⟨1, List.replicate 40 49⟩]
    content := []
    hasChunkFile := none
    identity := 1
    peers := [⟨1, ⟨2, 1, 1⟩⟩, ⟨2, ⟨2, 2, 2⟩⟩, ⟨3, ⟨2, 3, 3⟩⟩] }

def chunkHash (c : Byte) : List Byte := hex2binary (List.replicate 40 c) 40

def cleared : Stray :=
  { data := ⟨0, 0, fun _ => .unsend⟩
    heap := fun _ => 0
    index := 0
    offset := 0
    past := fun _ => 0
    dummy := ⟨0, 0, ⟨2, 0, 0⟩, 0, 0, initPacket .little 5 none 0⟩ }

end P2PCC.Receiving

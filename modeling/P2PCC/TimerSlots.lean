import P2PCC.ActiveChunks

namespace P2PCC.TimerSlots

open P2PCC.Lib.ByteOrder P2PCC.Lib.Runs P2PCC.Packet P2PCC.ChunkFile P2PCC.Tracker P2PCC.Sender
open P2PCC.Receiver P2PCC.Manager P2PCC.HandlePacket P2PCC.Peer P2PCC.Receiving P2PCC.ActiveChunks

variable {R : Type}

/-- A read of `file_manager.offset` or a write of `file_manager.timer`. -/
inductive Access where
  | offset (i : Nat)
  | timer (i : Nat)

/-- The search for a chunk reads `offset` up to its entry, or all of it, and
the clock is set at the index where it stops. -/
def touchAccesses (fm : FileManager) (offset : Int) : List (FileManager × Access) :=
  (List.range (min (fm.timerSlot offset + 1) fm.chunkCount)).map (fun i => (fm, .offset i)) ++
    [(fm, .timer (fm.timerSlot offset))]

/-- The loops of `check_file_manager`: the one that counts, the one that
releases up to the first chunk that is not full, and the one that writes. -/
def checkAccesses (fm : FileManager) (recvList : List RecvBuffer) : List (FileManager × Access) :=
  if fm.init = false then []
  else
    let full := (fm.requested.takeWhile (fun o => isBufferFull o recvList = 1)).length
    (List.range fm.chunkCount).map (fun i => (fm, .offset i)) ++
      (List.range (min (full + 1) fm.chunkCount)).map (fun i => (fm, .offset i)) ++
      (if (releaseFull fm.requested recvList).1 then
        (List.range fm.chunkCount).map (fun i => (fm, .offset i))
      else [])

/-- The accesses of one pass of the IHAVE loop, with the pass itself. -/
def ihavePass (e : Endian) (config : Config) (d : Delivery) (st : Peer R × List DataPacket)
    (i : Nat) : (Peer R × List DataPacket) × List (FileManager × Access) :=
  let offset := getOffSetFromMasterChunkfile (hashAt d.packet i) config
  (ihaveStep e config d.now d.sockfd d.packet st i,
    match config.peers.find? (fun node => node.id = d.sockfd) with
    | none => []
    | some _ =>
      if offset = -1 then []
      else
        match initRecvBuffer offset d.sockfd st.1.recvList with
        | (-1, _) => []
        | _ => touchAccesses st.1.fileManager offset)

def dataAccesses (e : Endian) (d : Delivery) (peer : Peer R) : List (FileManager × Access) :=
  let (recvList, ret) := recvData e d.stray.past d.packet d.sockfd peer.recvList
  let offset := (ret.map Prod.snd).getD d.stray.offset
  touchAccesses peer.fileManager offset ++
    checkAccesses (peer.fileManager.touch offset d.now) recvList

/-- What `handle_packet` accesses of the two arrays, in order and with the
file manager at the time. -/
def accesses (e : Endian) (config : Config) (peer : Peer R) (event : Event) :
    List (FileManager × Access) :=
  match delivery e config event with
  | none => []
  | some d =>
    if d.packet.header.packetType = 1 then
      outputs (ihavePass e config d) (peer, []) (List.range (hashCount d.packet))
    else if d.packet.header.packetType = 3 then dataAccesses e d peer
    else []

/-- The array is allocated, and the index is one of the request and inside. -/
def Valid (fm : FileManager) : Access → Prop
  | .offset i => fm.init = true ∧ i < fm.chunkCount ∧ i < fm.offset.length
  | .timer i => fm.init = true ∧ i < fm.chunkCount ∧ i < fm.timer.length

instance (fm : FileManager) : (a : Access) → Decidable (Valid fm a)
  | .offset i => inferInstanceAs
      (Decidable (fm.init = true ∧ i < fm.chunkCount ∧ i < fm.offset.length))
  | .timer i => inferInstanceAs
      (Decidable (fm.init = true ∧ i < fm.chunkCount ∧ i < fm.timer.length))

def Within (e : Endian) (config : Config) (peer : Peer R) (event : Event) : Prop :=
  ∀ a ∈ accesses e config peer event, Valid a.1 a.2

instance (e : Endian) (config : Config) (peer : Peer R) (event : Event) :
    Decidable (Within e config peer event) :=
  inferInstanceAs (Decidable (∀ a ∈ accesses e config peer event, Valid a.1 a.2))

/-- The chunk whose clock a DATA packet sets: that of the peer's buffer, or
what is in the local variable when the packet is rejected. -/
def chunkOf (d : Delivery) (peer : Peer R) : Int :=
  if d.packet.seq > 512 then d.stray.offset
  else
    ((peer.recvList.find? (fun b => b.socket = d.sockfd)).map (fun b => b.offset)).getD d.stray.offset

/-- Only chunks of an open request are started, and DATA packets come for
them only. -/
structure Requested (e : Endian) (config : Config) (peer : Peer R) (event : Event) : Prop where
  ihave : ∀ d, delivery e config event = some d → d.packet.header.packetType = 1 → ∀ hash,
    (hashes d.packet).find? (startable config d.sockfd peer.recvList) = some hash →
    peer.fileManager.init = true ∧
      getOffSetFromMasterChunkfile hash config ∈ peer.fileManager.requested
  data : ∀ d, delivery e config event = some d → d.packet.header.packetType = 3 →
    peer.fileManager.init = true ∧
      peer.fileManager.chunkCount ≤ peer.fileManager.offset.length ∧
      chunkOf d peer ∈ peer.fileManager.requested

theorem timerSlot_spec (fm : FileManager) (offset : Int) :
    (offset ∈ fm.requested ∧ fm.timerSlot offset < fm.chunkCount ∧
        fm.timerSlot offset < fm.offset.length) ∨
      (offset ∉ fm.requested ∧ fm.timerSlot offset = fm.chunkCount) := by
  cases hf : (List.range fm.chunkCount).find?
      (fun j => decide (fm.offset[j]? = some offset)) with
  | none =>
    refine Or.inr ⟨?_, by rw [FileManager.timerSlot, hf]; rfl⟩
    intro hm
    obtain ⟨j, hj⟩ := List.mem_iff_getElem?.mp hm
    rw [FileManager.requested, List.getElem?_take] at hj
    have hlt : j < fm.chunkCount := by
      by_contra hge
      rw [if_neg hge] at hj
      cases hj
    rw [if_pos hlt] at hj
    exact absurd hj (by simpa using List.find?_eq_none.mp hf j (List.mem_range.mpr hlt))
  | some j =>
    have hslot : fm.timerSlot offset = j := by rw [FileManager.timerSlot, hf]; rfl
    have hlt := List.mem_range.mp (List.mem_of_find?_eq_some hf)
    have hj : fm.offset[j]? = some offset := by simpa using List.find?_some hf
    obtain ⟨hin, _⟩ := List.getElem?_eq_some_iff.mp hj
    rw [hslot]
    refine Or.inl ⟨?_, hlt, hin⟩
    apply List.mem_of_getElem? (i := j)
    rw [FileManager.requested, List.getElem?_take, if_pos hlt, hj]

/-- The clock of a chunk is found exactly when the chunk is requested. -/
theorem touchAccesses_valid {fm : FileManager} (hlength : fm.offset.length = fm.timer.length)
    (offset : Int) : (∀ a ∈ touchAccesses fm offset, Valid a.1 a.2) ↔
      fm.init = true ∧ offset ∈ fm.requested := by
  have hmem : (fm, .timer (fm.timerSlot offset)) ∈ touchAccesses fm offset := by
    simp [touchAccesses]
  obtain ⟨hm, hcount, hin⟩ | ⟨hm, hslot⟩ := timerSlot_spec fm offset
  · constructor
    · intro h
      exact ⟨(h _ hmem).1, hm⟩
    · rintro ⟨hinit, _⟩ a ha
      obtain ha | ha := List.mem_append.mp ha
      · obtain ⟨i, hi, rfl⟩ := List.mem_map.mp ha
        have hlt := List.mem_range.mp hi
        have hi' : i < fm.chunkCount ∧ i < fm.offset.length := by omega
        exact ⟨hinit, hi'⟩
      · rw [List.mem_singleton.mp ha]
        have hi' : fm.timerSlot offset < fm.chunkCount ∧ fm.timerSlot offset < fm.timer.length := by
          omega
        exact ⟨hinit, hi'⟩
  · constructor
    · intro h
      have hlt : fm.timerSlot offset < fm.chunkCount := (h _ hmem).2.1
      omega
    · rintro ⟨_, hin⟩
      exact absurd hin hm

theorem checkAccesses_valid {fm : FileManager} (hinit : fm.init = true)
    (recvList : List RecvBuffer) : (∀ a ∈ checkAccesses fm recvList, Valid a.1 a.2) ↔
      fm.chunkCount ≤ fm.offset.length := by
  have hopen : ¬fm.init = false := by simp [hinit]
  constructor
  · intro h
    by_contra hlt
    have hmem : (fm, .offset fm.offset.length) ∈ checkAccesses fm recvList := by
      rw [checkAccesses, if_neg hopen]
      simp only [List.mem_append, List.mem_map, List.mem_range]
      exact Or.inl (Or.inl ⟨fm.offset.length, by omega, rfl⟩)
    exact absurd (h _ hmem).2.2 (lt_irrefl fm.offset.length)
  · intro hle a ha
    have hoffset : ∃ i, i < fm.chunkCount ∧ a = (fm, .offset i) := by
      rw [checkAccesses, if_neg hopen] at ha
      simp only [List.mem_append, List.mem_map, List.mem_range] at ha
      obtain (⟨i, hi, rfl⟩ | ⟨i, hi, rfl⟩) | ha := ha
      · exact ⟨i, hi, rfl⟩
      · exact ⟨i, by omega, rfl⟩
      · split at ha
        · obtain ⟨i, hi, rfl⟩ := List.mem_map.mp ha
          exact ⟨i, List.mem_range.mp hi, rfl⟩
        · cases ha
    obtain ⟨i, hi, rfl⟩ := hoffset
    exact ⟨hinit, hi, hi.trans_le hle⟩

section Loops

variable {e : Endian} {config : Config} {event : Event} {d : Delivery}

theorem ihavePass_accesses {node : BtPeer}
    (hnode : config.peers.find? (fun node => node.id = d.sockfd) = some node)
    (st : Peer R × List DataPacket) (i : Nat) :
    (ihavePass e config d st i).2 =
      if startable config d.sockfd st.1.recvList (hashAt d.packet i) then
        touchAccesses st.1.fileManager (getOffSetFromMasterChunkfile (hashAt d.packet i) config)
      else [] := by
  unfold ihavePass startable
  rw [hnode]
  dsimp only
  generalize getOffSetFromMasterChunkfile (hashAt d.packet i) config = offset
  by_cases ho : offset = -1
  · simp [ho]
  · by_cases hc : st.1.recvList.any (fun b => b.conflicts offset d.sockfd) = true
    · simp [ho, hc, initRecvBuffer]
    · simp [ho, hc, initRecvBuffer]

theorem outputs_blocked {node : BtPeer}
    (hnode : config.peers.find? (fun node => node.id = d.sockfd) = some node)
    (st : Peer R × List DataPacket)
    (h : ∀ hash, startable config d.sockfd st.1.recvList hash = false) (is : List Nat) :
    outputs (ihavePass e config d) st is = [] := by
  induction is with
  | nil => rfl
  | cons i is ih =>
    have hstep : (ihavePass e config d st i).1 = st := by
      rw [ihavePass, ihaveStep_eq e d.now d.sockfd d.packet hnode, h]
      rfl
    rw [outputs, hstep, ihavePass_accesses hnode, h, ih]
    rfl

theorem ihave_accesses {node : BtPeer}
    (hnode : config.peers.find? (fun node => node.id = d.sockfd) = some node) (peer : Peer R) :
    outputs (ihavePass e config d) (peer, []) (List.range (hashCount d.packet)) =
      match (hashes d.packet).find? (startable config d.sockfd peer.recvList) with
      | none => []
      | some hash =>
        touchAccesses peer.fileManager (getOffSetFromMasterChunkfile hash config) := by
  unfold hashes
  generalize List.range (hashCount d.packet) = is
  induction is with
  | nil => rfl
  | cons i is ih =>
    have hstep : (ihavePass e config d (peer, []) i).1 =
        ihaveStep e config d.now d.sockfd d.packet (peer, []) i := rfl
    rw [outputs, hstep, ihavePass_accesses hnode, ihaveStep_eq e d.now d.sockfd d.packet hnode,
      List.map_cons]
    cases hs : startable config d.sockfd peer.recvList (hashAt d.packet i) with
    | true =>
      rw [List.find?_cons_of_pos hs, if_pos rfl, if_pos rfl, outputs_blocked hnode _
        (not_startable_started config d.now d.sockfd node _ peer hs) is, List.append_nil]
    | false =>
      rw [List.find?_cons_of_neg (by simp [hs])]
      exact ih

theorem received_offset (e : Endian) (d : Delivery) (peer : Peer R) :
    ((recvData e d.stray.past d.packet d.sockfd peer.recvList).2.map Prod.snd).getD d.stray.offset =
      chunkOf d peer := by
  unfold recvData chunkOf
  split
  · rfl
  · cases peer.recvList.find? (fun b => decide (b.socket = d.sockfd)) <;> rfl

theorem dataAccesses_valid {peer : Peer R}
    (hlength : peer.fileManager.offset.length = peer.fileManager.timer.length) :
    (∀ a ∈ dataAccesses e d peer, Valid a.1 a.2) ↔
      peer.fileManager.init = true ∧ peer.fileManager.chunkCount ≤ peer.fileManager.offset.length ∧
        chunkOf d peer ∈ peer.fileManager.requested := by
  have hsplit : (∀ a ∈ dataAccesses e d peer, Valid a.1 a.2) ↔
      (∀ a ∈ touchAccesses peer.fileManager (chunkOf d peer), Valid a.1 a.2) ∧
        ∀ a ∈ checkAccesses (peer.fileManager.touch (chunkOf d peer) d.now)
          (recvData e d.stray.past d.packet d.sockfd peer.recvList).1, Valid a.1 a.2 := by
    rw [← List.forall_mem_append, ← received_offset e d peer]
    rfl
  rw [hsplit, touchAccesses_valid hlength]
  constructor
  · rintro ⟨⟨hinit, hm⟩, hcheck⟩
    have hopen : (peer.fileManager.touch (chunkOf d peer) d.now).init = true := hinit
    exact ⟨hinit, (checkAccesses_valid hopen _).mp hcheck, hm⟩
  · rintro ⟨hinit, hle, hm⟩
    have hopen : (peer.fileManager.touch (chunkOf d peer) d.now).init = true := hinit
    exact ⟨⟨hinit, hm⟩, (checkAccesses_valid hopen _).mpr hle⟩

theorem within_iff {peer : Peer R}
    (hlength : peer.fileManager.offset.length = peer.fileManager.timer.length) (event : Event) :
    Within e config peer event ↔ Requested e config peer event := by
  cases hd : delivery e config event with
  | none =>
    refine ⟨fun _ => ⟨fun d h => by simp [hd] at h, fun d h => by simp [hd] at h⟩, fun _ a ha => ?_⟩
    rw [accesses, hd] at ha
    cases ha
  | some d =>
    have honly : ∀ d', delivery e config event = some d' → d = d' :=
      fun d' h => Option.some.inj (hd.symm.trans h)
    rw [Within, accesses, hd]
    dsimp only
    by_cases h1 : d.packet.header.packetType = 1
    · obtain ⟨node, hnode⟩ := delivery_known hd
      rw [if_pos h1, ihave_accesses hnode]
      have hnot : d.packet.header.packetType ≠ 3 := by
        rw [h1]
        decide
      constructor
      · intro h
        refine ⟨?_, fun d' hd' h3 => absurd h3 (honly d' hd' ▸ hnot)⟩
        intro d' hd' _ hash hf
        obtain rfl := honly d' hd'
        rw [hf] at h
        exact (touchAccesses_valid hlength _).mp h
      · intro h
        cases hf : (hashes d.packet).find? (startable config d.sockfd peer.recvList) with
        | none => exact fun a ha => absurd ha List.not_mem_nil
        | some hash => exact (touchAccesses_valid hlength _).mpr (h.ihave d hd h1 hash hf)
    · rw [if_neg h1]
      by_cases h3 : d.packet.header.packetType = 3
      · rw [if_pos h3, dataAccesses_valid hlength]
        constructor
        · intro h
          refine ⟨fun d' hd' h1' => absurd h1' (honly d' hd' ▸ h1), fun d' hd' _ => ?_⟩
          obtain rfl := honly d' hd'
          exact h
        · exact fun h => h.data d hd h3
      · rw [if_neg h3]
        refine ⟨fun _ => ⟨fun d' hd' h1' => absurd h1' (honly d' hd' ▸ h1),
          fun d' hd' h3' => absurd h3' (honly d' hd' ▸ h3)⟩, fun _ a ha => absurd ha List.not_mem_nil⟩

end Loops

section Runs

variable [Rate R]

/-- The two arrays are allocated and freed together. -/
def Paired (fm : FileManager) : Prop := fm.offset.length = fm.timer.length

omit [Rate R] in
theorem paired_generate (e : Endian) (config : Config) (now : Int)
    (chunkfile : Option (List ChunkLine)) (outputfile : List Byte) {peer : Peer R}
    (h : Paired peer.fileManager) :
    Paired (generateWhohas e config now chunkfile outputfile peer).1.fileManager := by
  unfold generateWhohas
  cases chunkfile with
  | none => exact h
  | some ls =>
    have hcount := whohasLoop_whole e ls 0 [] []
    dsimp only
    generalize whohasLoop e ls 0 [] [] = result at hcount
    obtain ⟨n, _ | r⟩ := result
    · exact h
    · have hn : n = 0 + ls.length := hcount r rfl
      simp [Paired, hn, uncleared_length]

theorem paired_step (e : Endian) (config : Config) (peer : Peer R) (event : Event)
    (h : Paired peer.fileManager) : Paired (step e config peer event).fileManager := by
  obtain ⟨next, hr, hsame⟩ := step_received e config peer event
  rw [hsame.fileManager]
  refine hr.fileManager_lasting (P := Paired) ?_ ?_ ?_ h
  · intro fm timer alreadyUsed hlength hp
    exact hp.trans hlength.symm
  · exact fun _ _ _ _ _ _ => rfl
  · exact fun now chunkfile outputfile _ => paired_generate e config now chunkfile outputfile h

/-- In every run all accesses are valid exactly when every IHAVE starts a
chunk of an open request, if any, and every DATA packet comes for one. -/
theorem accesses_valid_iff (e : Endian) (config : Config) (events : List Event) :
    Along (step e config) (Within e config) (Peer.init : Peer R) events ↔
      Along (step e config) (Requested e config) (Peer.init : Peer R) events := by
  have hkeeps : ∀ (peer : Peer R) event, Paired peer.fileManager → Within e config peer event →
      Paired (step e config peer event).fileManager :=
    fun peer event h _ => paired_step e config peer event h
  have hiff : ∀ (peer : Peer R) event, Paired peer.fileManager →
      (Within e config peer event ↔ Requested e config peer event) :=
    fun peer event h => within_iff h event
  exact along_congr hkeeps hiff _ events rfl

/-- The request is for one chunk, and a peer offers another. -/
theorem stray_access :
    ¬∀ events, Along (step .little network) (Within .little network) (Peer.init : Peer ℚ) events := by
  intro h
  have hrun := h [.command 0 (some [⟨0, List.replicate 40 48⟩]) [],
    .inbound 1 cleared ⟨2, 2, 2⟩ (initPacket .little 1 (some (chunkHash 49)) 20)]
  exact absurd hrun.2.1 (by decide +kernel)

end Runs

end P2PCC.TimerSlots

import P2PCC.ActiveChunks
import P2PCC.Tracking

namespace P2PCC.Owners

open P2PCC.Lib.ByteOrder P2PCC.Lib.Runs P2PCC.Packet P2PCC.ChunkFile P2PCC.Tracker P2PCC.Sender
open P2PCC.Receiver P2PCC.Manager P2PCC.HandlePacket P2PCC.Peer P2PCC.Receiving P2PCC.ActiveChunks
open P2PCC.Tracking

variable {R : Type}

/-- A process with the chunks that `handle_packet` has asked for in the current
download, and the addresses of the peers it has asked. -/
structure Download (R : Type) where
  peer : Peer R
  asked : List (Int × SockAddr)

section Definitions

variable [Rate R] (e : Endian) (config : Config)

/-- The chunks of the GETs that `handle_packet` returns, with the address it
finds for the peer. -/
def asks (peer : Peer R) (event : Event) : List (Int × SockAddr) :=
  match responses e config peer event with
  | none => []
  | some (sockfd, packets) =>
    match config.peers.find? (fun node => node.id = sockfd) with
    | none => []
    | some node =>
      (packets.filter (fun p => p.header.packetType = 2)).map
        (fun p => (getOffSetFromMasterChunkfile (p.data.take 20) config, node.addr))

/-- A download lasts from its command to the write of its file. -/
def download (s : Download R) (event : Event) : Download R :=
  let peer := step e config s.peer event
  { peer := peer
    asked :=
      match event with
      | .command _ _ _ => []
      | _ => if peer.fileManager.init = true then asks e config s.peer event ++ s.asked else [] }

def Download.init : Download R := { peer := Peer.init, asked := [] }

/-- The chunk that an IHAVE starts is not recorded for the peer's address. -/
def Fresh (s : Download R) (event : Event) : Prop :=
  ∀ d, delivery e config event = some d → d.packet.header.packetType = 1 →
    s.peer.fileManager.init = true → ∀ hash node,
    (hashes d.packet).find? (startable config d.sockfd s.peer.recvList) = some hash →
    config.peers.find? (fun node => node.id = d.sockfd) = some node →
    (getOffSetFromMasterChunkfile hash config, node.addr) ∉ s.peer.fileManager.alreadyUsed

end Definitions

variable {e : Endian} {config : Config} {event : Event} {d : Delivery}

theorem hashes_length {packet : DataPacket} {hash : List Byte} (h : hash ∈ hashes packet) :
    hash.length = 20 := by
  obtain ⟨i, _, rfl⟩ := List.mem_map.mp h
  exact hashAt_length packet i

theorem get_hash (e : Endian) {hash : List Byte} (h : hash.length = 20) :
    (initPacket e 2 (some hash) 20).data.take 20 = hash := by
  rw [(initPacket_plain e (show (2 : Byte) ≠ 0 by decide) (by decide) hash 20).2,
    List.take_take, List.take_of_length_le (by omega)]

theorem regenerateWhohas_owners (e : Endian) (config : Config) (now : Int) (peer : Peer R) :
    (regenerateWhohas e config now peer).1.fileManager.init = peer.fileManager.init ∧
      (regenerateWhohas e config now peer).1.fileManager.alreadyUsed =
        peer.fileManager.alreadyUsed :=
  regenerateWhohas_rule (I := fun st => st.1.init = peer.fileManager.init ∧
    st.1.alreadyUsed = peer.fileManager.alreadyUsed) (fun _ _ _ _ hst => hst) peer ⟨rfl, rfl⟩

theorem checkFileManager_owners (fm : FileManager) (recvList : List RecvBuffer)
    (h : (checkFileManager fm recvList).2.1.init = true) :
    (checkFileManager fm recvList).2.1 = fm := by
  unfold checkFileManager at h ⊢
  by_cases hinit : fm.init = false
  · rw [if_pos hinit]
  · rw [if_neg hinit] at h ⊢
    generalize releaseFull fm.requested recvList = released at h ⊢
    obtain ⟨_ | _, l⟩ := released
    · rfl
    · cases h

theorem generateWhohas_owners (e : Endian) (config : Config) (now : Int)
    (chunkfile : Option (List ChunkLine)) (outputfile : List Byte) (peer : Peer R) :
    (generateWhohas e config now chunkfile outputfile peer).1.fileManager.alreadyUsed = [] := by
  obtain ⟨fm, heq, _, hused⟩ := generateWhohas_opens e config now chunkfile outputfile peer
  rw [heq]
  exact hused

variable [Rate R]

theorem asks_ihave (hd : delivery e config event = some d)
    (ht : d.packet.header.packetType = 1) {node : BtPeer}
    (hnode : config.peers.find? (fun node => node.id = d.sockfd) = some node) (peer : Peer R) :
    asks e config peer event =
      (((hashes d.packet).find? (startable config d.sockfd peer.recvList)).map
        (fun hash => (getOffSetFromMasterChunkfile hash config, node.addr))).toList := by
  obtain ⟨packet, hp, hr⟩ := responses_some hd peer
  rw [asks, hr, handlePacket_delivered hp ht config peer,
    handleIhave_eq e d.now d.sockfd d.packet hnode]
  dsimp only
  rw [hnode]
  cases hf : (hashes d.packet).find? (startable config d.sockfd peer.recvList) with
  | none => rfl
  | some hash =>
    have hlength := hashes_length (List.mem_of_find?_eq_some hf)
    simp only [List.filter_cons, initPacket_packetType, decide_true, ↓reduceIte, List.filter_nil,
      List.map_cons, List.map_nil, get_hash e hlength, Option.map_some, Option.toList_some]

theorem asks_other (hnot : ∀ d, delivery e config event = some d → d.packet.header.packetType ≠ 1)
    (peer : Peer R) : asks e config peer event = [] := by
  cases hd : delivery e config event with
  | none => rw [asks, responses_none hd]
  | some d =>
    obtain ⟨packet, hp, hr⟩ := responses_some hd peer
    have hreply := handlePacket_replyType e config d.now d.stray packet d.sockfd peer
    have hnone : (handlePacket e config d.now d.stray packet d.sockfd peer).2.filter
        (fun p => decide (p.header.packetType = 2)) = [] := by
      rw [List.filter_eq_nil_iff]
      intro p hm
      have htype := hnot d hd
      rw [hp, ntoh_packetType] at htype
      rw [hreply p hm, replyType]
      simp only [decide_eq_true_eq]
      split
      · decide
      · split <;> decide
    rw [asks, hr]
    dsimp only
    cases config.peers.find? (fun node => decide (node.id = d.sockfd)) with
    | none => rfl
    | some node =>
      rw [hnone]
      rfl

theorem ihave_init (e : Endian) (config : Config) (peer : Peer R)
    (hd : delivery e config event = some d) (ht : d.packet.header.packetType = 1) :
    (step e config peer event).fileManager.init = peer.fileManager.init := by
  obtain ⟨node, hnode⟩ := delivery_known hd
  rw [(step_ihave hd ht peer).fileManager, handleIhave_eq e d.now d.sockfd d.packet hnode]
  cases (hashes d.packet).find? (startable config d.sockfd peer.recvList) with
  | none => rfl
  | some hash => rfl

/-- While a download lasts, the record grows by what is asked for. -/
theorem step_owners (e : Endian) (config : Config) (peer : Peer R) (event : Event)
    (hnot : ∀ now chunkfile outputfile, event ≠ .command now chunkfile outputfile)
    (h : (step e config peer event).fileManager.init = true) :
    peer.fileManager.init = true ∧ (step e config peer event).fileManager.alreadyUsed =
      asks e config peer event ++ peer.fileManager.alreadyUsed := by
  obtain ⟨next, hr, hsame⟩ := step_received e config peer event
  rw [hsame.fileManager] at h ⊢
  cases hr with
  | command now chunkfile outputfile => exact absurd rfl (hnot now chunkfile outputfile)
  | tick now =>
    have howners := regenerateWhohas_owners e config now peer
    rw [howners.1] at h
    rw [howners.2, asks_other fun d hd => by simp [delivery] at hd]
    exact ⟨h, rfl⟩
  | ignored now stray fromAddr packet hd =>
    rw [asks_other fun d hd' => by simp [hd] at hd']
    exact ⟨h, rfl⟩
  | ihave _ d hd ht =>
    obtain ⟨node, hnode⟩ := delivery_known hd
    rw [asks_ihave hd ht hnode]
    rw [handleIhave_eq e d.now d.sockfd d.packet hnode] at h ⊢
    cases hf : (hashes d.packet).find? (startable config d.sockfd peer.recvList) with
    | none =>
      rw [hf] at h
      exact ⟨h, rfl⟩
    | some hash =>
      rw [hf] at h
      exact ⟨h, rfl⟩
  | data _ d hd ht =>
    rw [handleData_fileManager] at h ⊢
    have hsame := checkFileManager_owners _ _ h
    rw [hsame] at h ⊢
    rw [asks_other fun d' hd' => by rw [Option.some.inj (hd'.symm.trans hd), ht]; decide]
    exact ⟨h, rfl⟩
  | other _ d hd hi ht =>
    rw [asks_other fun d' hd' => by rw [Option.some.inj (hd'.symm.trans hd)]; exact hi]
    exact ⟨h, rfl⟩

/-- `already_used` holds exactly what has been asked for in the download. -/
def Recorded (s : Download R) : Prop :=
  s.peer.fileManager.init = true → s.asked = s.peer.fileManager.alreadyUsed

theorem download_asked (e : Endian) (config : Config) (s : Download R) (event : Event)
    (hnot : ∀ now chunkfile outputfile, event ≠ .command now chunkfile outputfile) :
    (download e config s event).asked =
      if (step e config s.peer event).fileManager.init = true then
        asks e config s.peer event ++ s.asked
      else [] := by
  cases event with
  | command now chunkfile outputfile => exact absurd rfl (hnot now chunkfile outputfile)
  | tick now => rfl
  | inbound now stray fromAddr packet => rfl

theorem recorded_step (e : Endian) (config : Config) (s : Download R) (event : Event)
    (hs : Recorded s) : Recorded (download e config s event) := by
  intro hinit
  by_cases hcommand : ∃ now chunkfile outputfile, event = .command now chunkfile outputfile
  · obtain ⟨now, chunkfile, outputfile, rfl⟩ := hcommand
    exact (generateWhohas_owners e config now chunkfile outputfile s.peer).symm
  · have hnot : ∀ now chunkfile outputfile, event ≠ .command now chunkfile outputfile :=
      fun now chunkfile outputfile he => hcommand ⟨now, chunkfile, outputfile, he⟩
    obtain ⟨hbefore, howners⟩ := step_owners e config s.peer event hnot hinit
    have hgrown : (step e config s.peer event).fileManager.init = true := hinit
    rw [download_asked e config s event hnot, if_pos hgrown, hs hbefore, ← howners]
    rfl

/-- A step asks a peer for a chunk again exactly when the record says that it
has been asked. -/
theorem nodup_step (e : Endian) (config : Config) (s : Download R) (event : Event)
    (hs : Recorded s) (hn : s.asked.Nodup) :
    (download e config s event).asked.Nodup ↔ Fresh e config s event := by
  by_cases hcommand : ∃ now chunkfile outputfile, event = .command now chunkfile outputfile
  · obtain ⟨now, chunkfile, outputfile, rfl⟩ := hcommand
    exact ⟨fun _ d hd => by simp [delivery] at hd, fun _ => List.nodup_nil⟩
  · have hnot : ∀ now chunkfile outputfile, event ≠ .command now chunkfile outputfile :=
      fun now chunkfile outputfile he => hcommand ⟨now, chunkfile, outputfile, he⟩
    rw [download_asked e config s event hnot]
    by_cases hihave : ∃ d, delivery e config event = some d ∧ d.packet.header.packetType = 1
    · obtain ⟨d, hd, ht⟩ := hihave
      obtain ⟨node, hnode⟩ := delivery_known hd
      have hinit := ihave_init e config s.peer hd ht
      have hfresh : Fresh e config s event ↔ (s.peer.fileManager.init = true → ∀ hash,
          (hashes d.packet).find? (startable config d.sockfd s.peer.recvList) = some hash →
          (getOffSetFromMasterChunkfile hash config, node.addr) ∉
            s.peer.fileManager.alreadyUsed) := by
        constructor
        · intro h hi hash hf
          exact h d hd ht hi hash node hf hnode
        · intro h d' hd' _ hi hash node' hf hnode'
          obtain rfl := Option.some.inj (hd'.symm.trans hd)
          obtain rfl := Option.some.inj (hnode'.symm.trans hnode)
          exact h hi hash hf
      rw [hfresh, hinit, asks_ihave hd ht hnode]
      by_cases hi : s.peer.fileManager.init = true
      · rw [if_pos hi, ← hs hi]
        cases hf : (hashes d.packet).find? (startable config d.sockfd s.peer.recvList) with
        | none => exact ⟨fun _ _ hash hh => by simp at hh, fun _ => hn⟩
        | some hash => simp [hn, hi]
      · rw [if_neg hi]
        exact ⟨fun _ h => absurd h hi, fun _ => List.nodup_nil⟩
    · have hother : ∀ d, delivery e config event = some d → d.packet.header.packetType ≠ 1 :=
        fun d hd ht => hihave ⟨d, hd, ht⟩
      rw [asks_other hother]
      refine ⟨fun _ d hd ht => absurd ht (hother d hd), fun _ => ?_⟩
      split
      · exact hn
      · exact List.nodup_nil

/-- No download asks a peer twice for a chunk exactly when no IHAVE starts a
chunk that is recorded for the address of the peer it comes from. -/
theorem asked_once_iff (e : Endian) (config : Config) (events : List Event) :
    Throughout (download e config) (fun s => s.asked.Nodup) (Download.init : Download R) events ↔
      Along (download e config) (Fresh e config) (Download.init : Download R) events :=
  throughout_iff_along (recorded_step e config) (nodup_step e config) _ events (fun _ => rfl)
    List.nodup_nil

section Again

def line : ChunkLine := ⟨0, List.replicate 40 48⟩

/-- The IHAVE of a peer that has the chunk of `line`. -/
def ihaveLine (now : Int) : Event :=
  .inbound now cleared ⟨2, 2, 2⟩ (initPacket .little 1 (some (chunkHash 48)) 20)

/-- Peer 2 is asked for the chunk, does not deliver, and offers it again. -/
theorem asked_twice :
    ¬∀ events, Throughout (download .little network) (fun s => s.asked.Nodup)
      (Download.init : Download ℚ) events := by
  intro h
  have hlast := (h [.command 0 (some [line]) [], ihaveLine 1, .tick 12, ihaveLine 13]).last
  revert hlast
  decide +kernel

end Again

end P2PCC.Owners

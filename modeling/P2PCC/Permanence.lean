import P2PCC.Completion
import P2PCC.Tracking

namespace P2PCC.Permanence

open P2PCC.Lib.ByteOrder P2PCC.Lib.Runs P2PCC.Lib.FirstMatch P2PCC.Packet P2PCC.ChunkFile
open P2PCC.Tracker P2PCC.Sender P2PCC.Receiver P2PCC.Manager P2PCC.HandlePacket P2PCC.Peer
open P2PCC.Receiving P2PCC.Tracking P2PCC.ActiveChunks P2PCC.Completion

variable {R : Type} [Rate R]

theorem act_no_get (e : Endian) (config : Config) (peer : Peer R) (event : Event)
    (htr : TracksData peer)
    (hi : ∀ d, delivery e config event = some d → d.packet.header.packetType ≠ 1) :
    ∀ m ∈ (act e config peer event).2, m.2.header.packetType ≠ 2 := by
  intro m hm
  cases event with
  | command now chunkfile outputfile =>
    rw [broadcast_type (generateWhohas_type e config now chunkfile outputfile peer) m hm]
    decide
  | tick now =>
    obtain hm | hm := List.mem_append.mp hm
    · rw [broadcast_type (regenerateWhohas_type e config now peer) m hm]
      decide
    · obtain ⟨t, ht, hs, rfl⟩ := retransmit_sent e now _ _ m hm
      have hsame := (regenerateWhohas_sending e config now peer).1
      have h3 : (resend e t).header.packetType = 3 := htr t (hsame ▸ ht) hs
      rw [h3]
      decide
  | inbound now stray fromAddr packet =>
    cases hd : delivery e config (.inbound now stray fromAddr packet) with
    | none =>
      rw [act, processInboundUdp_none hd] at hm
      simp at hm
    | some d =>
      obtain ⟨p, hp, _, hpacket, _⟩ := inbound_sent e hd peer m hm
      have htype : m.2.header.packetType = p.header.packetType := by
        obtain h | h := hpacket <;> simp [h]
      obtain ⟨_, _, _, he, hdp, _⟩ := delivery_eq_some hd
      simp only [Event.inbound.injEq] at he
      have h1 := hi d hd
      rw [hdp, ← he.2.2.2, ntoh_packetType] at h1
      rw [htype, handlePacket_replyType e config now stray packet d.sockfd peer p hp, replyType]
      split
      · decide
      · split <;> decide

/-- A requested chunk of an open download that counts as full. -/
structure Done (o : Int) (peer : Peer R) : Prop where
  opened : peer.fileManager.init = true
  requested : o ∈ peer.fileManager.requested
  full : isBufferFull o peer.recvList = 1

def IsGet (config : Config) (o : Int) (m : SockAddr × DataPacket) : Prop :=
  m.2.header.packetType = 2 ∧ getOffSetFromMasterChunkfile (m.2.data.take 20) config = o

/-- A step that leaves finished chunks finished and does not ask for them. -/
def Keeps (e : Endian) (config : Config) (peer : Peer R) (event : Event) : Prop :=
  ∀ o, Done o peer → isBufferFull o (step e config peer event).recvList = 1 ∧
    ∀ m ∈ (act e config peer event).2, ¬IsGet config o m

/-- The chunk an IHAVE starts is not finished, and a DATA packet adds nothing
to a buffer of a finished chunk. -/
structure Undisturbed (e : Endian) (config : Config) (peer : Peer R) (event : Event) : Prop where
  ihave : ∀ d, delivery e config event = some d → d.packet.header.packetType = 1 → ∀ hash,
    (hashes d.packet).find? (startable config d.sockfd peer.recvList) = some hash →
    ¬Done (getOffSetFromMasterChunkfile hash config) peer
  data : ∀ d, delivery e config event = some d → d.packet.header.packetType = 3 → ∀ b,
    peer.recvList.find? (fun b => b.socket = d.sockfd) = some b → Done b.offset peer →
    gain d.packet b = 0

omit [Rate R] in
theorem isBufferFull_counting {o : Int} {recvList : List RecvBuffer}
    (h : isBufferFull o recvList = 1) (packet : DataPacket) (sockfd : Int) :
    isBufferFull o (counting packet sockfd recvList) = 1 ↔
      ∀ b, recvList.find? (fun b => b.socket = sockfd) = some b → b.offset = o →
        gain packet b = 0 := by
  cases hf : recvList.find? (fun b => decide (b.socket = sockfd)) with
  | none =>
    rw [counting, modifyFirst_none hf]
    simp [h]
  | some b =>
    obtain ⟨l₁, l₂, hl, _, _, hm⟩ := modifyFirst_split hf
    rw [counting, hm, isBufferFull_eq_one]
    rw [isBufferFull_eq_one, hl] at h
    obtain ⟨⟨c, hc, hco⟩, hall⟩ := h
    simp only [List.mem_append, List.mem_cons] at hc hall ⊢
    constructor
    · rintro ⟨_, hfull⟩ _ hb ho
      obtain rfl := Option.some.inj hb
      have hafter := hfull _ (Or.inr (Or.inl rfl)) ho
      have hbefore := hall b (Or.inr (Or.inl rfl)) ho
      dsimp only at hafter
      omega
    · intro hgain
      refine ⟨?_, ?_⟩
      · obtain hc | rfl | hc := hc
        · exact ⟨c, Or.inl hc, hco⟩
        · exact ⟨_, Or.inr (Or.inl rfl), hco⟩
        · exact ⟨c, Or.inr (Or.inr hc), hco⟩
      · rintro a (ha | rfl | ha) hao
        · exact hall a (Or.inl ha) hao
        · have hbefore := hall b (Or.inr (Or.inl rfl)) hao
          have hz := hgain b rfl hao
          dsimp only
          omega
        · exact hall a (Or.inr (Or.inr ha)) hao

omit [Rate R] in
theorem isBufferFull_cons (o : Int) (b : RecvBuffer) (recvList : List RecvBuffer)
    (hb : b.totalRecv = 0) :
    isBufferFull o (b :: recvList) = 1 ↔ isBufferFull o recvList = 1 ∧ b.offset ≠ o := by
  rw [isBufferFull_eq_one, isBufferFull_eq_one]
  constructor
  · rintro ⟨⟨c, hc, hco⟩, hall⟩
    have hne : b.offset ≠ o := by
      intro ho
      have hfull := hall b List.mem_cons_self ho
      omega
    obtain rfl | hc := List.mem_cons.mp hc
    · exact absurd hco hne
    · exact ⟨⟨⟨c, hc, hco⟩, fun a ha => hall a (List.mem_cons_of_mem b ha)⟩, hne⟩
  · rintro ⟨⟨⟨c, hc, hco⟩, hall⟩, hne⟩
    refine ⟨⟨c, List.mem_cons_of_mem b hc, hco⟩, ?_⟩
    intro a ha hao
    obtain rfl | ha := List.mem_cons.mp ha
    · exact absurd hao hne
    · exact hall a ha hao

omit [Rate R] in
theorem isGet_start (e : Endian) (config : Config) (o : Int) (addr : SockAddr) (hash : List Byte) :
    IsGet config o (addr, initPacket e 2 (some hash) 20) ↔
      getOffSetFromMasterChunkfile hash config = o := by
  have hdata := (initPacket_plain e (show (2 : Byte) ≠ 0 by decide) (by decide) hash 20).2
  have htake : getOffSetFromMasterChunkfile ((hash.take 20).take 20) config =
      getOffSetFromMasterChunkfile hash config := by
    simp only [getOffSetFromMasterChunkfile, sameHash_take]
  rw [IsGet, hdata, htake, initPacket_packetType]
  exact ⟨fun h => h.2, fun h => ⟨rfl, h⟩⟩

theorem keeps_ihave (e : Endian) (config : Config) (peer : Peer R) (event : Event) {d : Delivery}
    (hd : delivery e config event = some d) (ht : d.packet.header.packetType = 1) :
    Keeps e config peer event ↔ ∀ hash,
      (hashes d.packet).find? (startable config d.sockfd peer.recvList) = some hash →
      ¬Done (getOffSetFromMasterChunkfile hash config) peer := by
  have hstart := startsFirst e config peer event d hd ht
  cases hf : (hashes d.packet).find? (startable config d.sockfd peer.recvList) with
  | none =>
    rw [hf] at hstart
    obtain ⟨hsent, hlist⟩ := hstart
    refine ⟨fun _ _ h => by simp at h, fun _ o hdone => ⟨?_, ?_⟩⟩
    · rw [hlist]
      exact hdone.full
    · simp [hsent]
  | some hash =>
    rw [hf] at hstart
    obtain ⟨⟨addr, hsent⟩, hlist⟩ := hstart
    have hfull : ∀ o, isBufferFull o (step e config peer event).recvList = 1 ↔
        isBufferFull o peer.recvList = 1 ∧ getOffSetFromMasterChunkfile hash config ≠ o := by
      intro o
      rw [hlist]
      exact isBufferFull_cons o _ peer.recvList rfl
    constructor
    · rintro hkeep _ hh hdone
      obtain rfl := Option.some.inj hh
      exact ((hfull _).mp (hkeep _ hdone).1).2 rfl
    · intro hnot o hdone
      have hne : getOffSetFromMasterChunkfile hash config ≠ o := by
        rintro rfl
        exact hnot hash rfl hdone
      refine ⟨(hfull o).mpr ⟨hdone.full, hne⟩, ?_⟩
      rw [hsent]
      intro m hm
      rw [List.mem_singleton.mp hm, isGet_start]
      exact hne

theorem keeps_data (e : Endian) (config : Config) (peer : Peer R) (event : Event) {d : Delivery}
    (htr : TracksData peer) (hd : delivery e config event = some d)
    (ht : d.packet.header.packetType = 3) :
    Keeps e config peer event ↔ ∀ b,
      peer.recvList.find? (fun b => b.socket = d.sockfd) = some b → Done b.offset peer →
      gain d.packet b = 0 := by
  have hlist := (step_data hd ht peer).recvList
  have hfull : ∀ o, isBufferFull o (step e config peer event).recvList =
      isBufferFull o (counting d.packet d.sockfd peer.recvList) := by
    intro o
    rw [hlist, handleData_recvList, ← isBufferFull_recvData e d.stray.past]
    split
    · rw [isBufferFull_releaseAll]
    · rfl
  have hno := act_no_get e config peer event htr (by
    intro d' hd'
    obtain rfl := Option.some.inj (hd.symm.trans hd')
    rw [ht]
    decide)
  constructor
  · intro hkeep b hb hdone
    have h := (hkeep _ hdone).1
    rw [hfull, isBufferFull_counting hdone.full] at h
    exact h b hb rfl
  · intro hgain o hdone
    refine ⟨?_, fun m hm hget => hno m hm hget.1⟩
    rw [hfull, isBufferFull_counting hdone.full]
    intro b hb ho
    exact hgain b hb (ho ▸ hdone)

theorem keeps_iff (e : Endian) (config : Config) (peer : Peer R) (event : Event)
    (htr : TracksData peer) : Keeps e config peer event ↔ Undisturbed e config peer event := by
  by_cases hi : ∃ d, delivery e config event = some d ∧ d.packet.header.packetType = 1
  · obtain ⟨d, hd, ht⟩ := hi
    rw [keeps_ihave e config peer event hd ht]
    constructor
    · intro h
      refine ⟨fun d' hd' _ => ?_, fun d' hd' ht' => ?_⟩
      · obtain rfl := Option.some.inj (hd.symm.trans hd')
        exact h
      · obtain rfl := Option.some.inj (hd.symm.trans hd')
        rw [ht] at ht'
        exact absurd ht' (by decide)
    · exact fun h => h.ihave d hd ht
  · by_cases hdata : ∃ d, delivery e config event = some d ∧ d.packet.header.packetType = 3
    · obtain ⟨d, hd, ht⟩ := hdata
      rw [keeps_data e config peer event htr hd ht]
      constructor
      · intro h
        refine ⟨fun d' hd' ht' => absurd ⟨d', hd', ht'⟩ hi, fun d' hd' _ => ?_⟩
        obtain rfl := Option.some.inj (hd.symm.trans hd')
        exact h
      · exact fun h => h.data d hd ht
    · have hno := act_no_get e config peer event htr fun d hd ht => hi ⟨d, hd, ht⟩
      refine ⟨fun _ => ⟨fun d hd ht => absurd ⟨d, hd, ht⟩ hi,
        fun d hd ht => absurd ⟨d, hd, ht⟩ hdata⟩, fun _ o hdone => ⟨?_, ?_⟩⟩
      · obtain ⟨next, hr, hsame⟩ := step_received e config peer event
        rw [hsame.recvList]
        cases hr with
        | command now chunkfile outputfile =>
          rw [generateWhohas_recvList]
          exact hdone.full
        | tick now =>
          exact regenerateWhohas_induction (P := fun l => isBufferFull o l = 1)
            (fun o' l hl => by rwa [isBufferFull_release]) e config now peer hdone.full
        | ignored now stray fromAddr packet hd => exact hdone.full
        | ihave _ d hd ht => exact absurd ⟨d, hd, ht⟩ hi
        | data _ d hd ht => exact absurd ⟨d, hd, ht⟩ hdata
        | other _ d hd _ _ => exact hdone.full
      · exact fun m hm hget => hno m hm hget.1

/-- The file is open before an event that is no new request when it is open
after it, with the same chunks. -/
theorem open_step (e : Endian) (config : Config) (peer : Peer R) (event : Event)
    (hcmd : ∀ now chunkfile outputfile, event ≠ .command now chunkfile outputfile)
    (h : (step e config peer event).fileManager.init = true) :
    peer.fileManager.init = true ∧
      (step e config peer event).fileManager.requested = peer.fileManager.requested := by
  obtain ⟨next, hr, hsame⟩ := step_received e config peer event
  rw [hsame.fileManager] at h ⊢
  refine hr.fileManager_induction (P := fun fm => fm.init = true →
    peer.fileManager.init = true ∧ fm.requested = peer.fileManager.requested) ?_ ?_ ?_ ?_ h
  · exact fun fm timer alreadyUsed hp hi => hp hi
  · exact fun _ _ _ _ _ _ hi => by simp at hi
  · exact fun now chunkfile outputfile he => absurd he (hcmd now chunkfile outputfile)
  · exact fun hi => ⟨hi, rfl⟩

theorem open_run (e : Endian) (config : Config) (peer : Peer R) (events : List Event)
    (hcmd : ∀ event ∈ events, ∀ now chunkfile outputfile,
      event ≠ .command now chunkfile outputfile)
    (h : (run (step e config) peer events).fileManager.init = true) :
    peer.fileManager.init = true := by
  induction events generalizing peer with
  | nil => exact h
  | cons event events ih =>
    obtain ⟨hc, hcs⟩ := List.forall_mem_cons.mp hcmd
    exact (open_step e config peer event hc (ih _ hcs h)).1

theorem keeps_close (e : Endian) (config : Config) (peer : Peer R) (event : Event)
    (htr : TracksData peer) (hopen : peer.fileManager.init = true)
    (hclose : (step e config peer event).fileManager.init = false) :
    Keeps e config peer event := by
  have hdata : ∃ d, delivery e config event = some d ∧ d.packet.header.packetType = 3 ∧
      ∀ o ∈ peer.fileManager.requested,
        isBufferFull o (recvData e d.stray.past d.packet d.sockfd peer.recvList).1 = 1 := by
    by_contra hnone
    obtain ⟨next, hr, hsame⟩ := step_received e config peer event
    have hstill : next.fileManager.init = true := by
      refine hr.fileManager_induction (P := fun fm => fm.init = true) (fun _ _ _ hp => hp) ?_ ?_ hopen
      · exact fun d hd ht hall => absurd ⟨d, hd, ht, hall⟩ hnone
      · exact fun now chunkfile outputfile _ =>
          generateWhohas_init e config now chunkfile outputfile peer
    rw [hsame.fileManager, hstill] at hclose
    cases hclose
  obtain ⟨d, hd, ht, hall⟩ := hdata
  rw [keeps_data e config peer event htr hd ht]
  intro b hb hdone
  have hfull := hall b.offset hdone.requested
  rw [isBufferFull_recvData, isBufferFull_counting hdone.full] at hfull
  exact hfull b hb rfl

/-- Finished chunks stay finished and are not asked for again, from any state
of a run to any later one before the file is written. -/
def Permanent (e : Endian) (config : Config) (peer : Peer R) (events : List Event) : Prop :=
  ∀ pre mid post, events = pre ++ mid ++ post →
    (∀ event ∈ mid, ∀ now chunkfile outputfile, event ≠ .command now chunkfile outputfile) →
    (run (step e config) peer (pre ++ mid)).fileManager.init = true →
    ∀ o, Done o (run (step e config) peer pre) →
      Done o (run (step e config) peer (pre ++ mid)) ∧
        ∀ m ∈ outputs (act e config) (run (step e config) peer pre) mid, ¬IsGet config o m

theorem keeps_run (e : Endian) (config : Config) (o : Int) (peer : Peer R) (events : List Event)
    (hkeeps : Along (step e config) (Keeps e config) peer events)
    (hcmd : ∀ event ∈ events, ∀ now chunkfile outputfile,
      event ≠ .command now chunkfile outputfile)
    (hopen : (run (step e config) peer events).fileManager.init = true) (hdone : Done o peer) :
    Done o (run (step e config) peer events) ∧
      ∀ m ∈ outputs (act e config) peer events, ¬IsGet config o m := by
  induction events generalizing peer with
  | nil => exact ⟨hdone, by simp [outputs]⟩
  | cons event events ih =>
    obtain ⟨hcmd, hcmds⟩ := List.forall_mem_cons.mp hcmd
    have hnext := open_run e config (step e config peer event) events hcmds hopen
    obtain ⟨_, hsame⟩ := open_step e config peer event hcmd hnext
    obtain ⟨hfull, hno⟩ := hkeeps.1 o hdone
    obtain ⟨hend, hnos⟩ := ih (step e config peer event) hkeeps.2 hcmds hopen
      ⟨hnext, hsame ▸ hdone.requested, hfull⟩
    refine ⟨hend, ?_⟩
    intro m hm
    obtain hm | hm := List.mem_append.mp hm
    · exact hno m hm
    · exact hnos m hm

theorem keeps_of_permanent (e : Endian) (config : Config) (peer : Peer R) (events : List Event)
    (htr : TracksData peer) (h : Permanent e config peer events) :
    Along (step e config) (Keeps e config) peer events := by
  apply along_of_split
  intro pre event post he
  have htr' := run_invariant_total (tracksData_step e config) peer pre htr
  by_cases hcmd : ∃ now chunkfile outputfile, event = .command now chunkfile outputfile
  · obtain ⟨now, chunkfile, outputfile, rfl⟩ := hcmd
    rw [keeps_iff e config _ _ htr']
    exact ⟨fun d hd => by simp [delivery] at hd, fun d hd => by simp [delivery] at hd⟩
  · have hcmd' : ∀ now chunkfile outputfile, event ≠ .command now chunkfile outputfile :=
      fun now chunkfile outputfile hc => hcmd ⟨now, chunkfile, outputfile, hc⟩
    cases hafter : (step e config (run (step e config) peer pre) event).fileManager.init with
    | false =>
      cases hbefore : (run (step e config) peer pre).fileManager.init with
      | false =>
        intro o hdone
        rw [hdone.opened] at hbefore
        cases hbefore
      | true => exact keeps_close e config _ event htr' hbefore hafter
    | true =>
      intro o hdone
      obtain ⟨hfull, hno⟩ := h pre [event] post (by simp [he]) (by simpa using hcmd')
        (by rwa [run_append]) o hdone
      rw [run_append] at hfull
      refine ⟨hfull.full, fun m hm => hno m ?_⟩
      rw [outputs]
      exact List.mem_append_left _ hm

/-- Completion is permanent in a run exactly when no IHAVE starts a finished
chunk again and no DATA packet changes its buffers. -/
theorem permanent_iff (e : Endian) (config : Config) (events : List Event) :
    Permanent e config (Peer.init : Peer R) events ↔
      Along (step e config) (Undisturbed e config) (Peer.init : Peer R) events := by
  have htr : TracksData (Peer.init : Peer R) := by simp [TracksData, Peer.init]
  have hcongr : Along (step e config) (Keeps e config) (Peer.init : Peer R) events ↔
      Along (step e config) (Undisturbed e config) (Peer.init : Peer R) events :=
    along_congr (fun peer event h _ => tracksData_step e config peer event h)
      (fun peer event h => keeps_iff e config peer event h) _ _ htr
  rw [← hcongr]
  constructor
  · exact keeps_of_permanent e config _ events htr
  · rintro hkeeps pre mid post rfl hcmd hopen o hdone
    rw [List.append_assoc, along_append, along_append] at hkeeps
    rw [run_append] at hopen ⊢
    exact keeps_run e config o _ mid hkeeps.2.1 hcmd hopen hdone

/-- Chunk 1 of the request 1, 0 is complete and its peer free when peer 3
announces it once more. -/
theorem late_ihave_restarts :
    ¬Permanent .little network (Peer.init : Peer ℚ)
      (almostFinished [⟨1, List.replicate 40 49⟩, ⟨0, List.replicate 40 48⟩] ++
        [chunkData 511, .inbound 0 cleared ⟨2, 3, 3⟩
          (initPacket .little 1 (some (chunkHash 49)) 20)]) := by
  intro h
  have hkeeps := keeps_of_permanent .little network _ _ (by simp [TracksData, Peer.init]) h
  rw [List.append_cons] at hkeeps
  have hlast := along_last _ _ _ hkeeps
  have hstart := fetched_start [⟨1, List.replicate 40 49⟩, ⟨0, List.replicate 40 48⟩] [1, 0]
    (by decide +kernel) (by decide +kernel) rfl
  have hbefore := hstart.chunkData (by simp) 511 (by decide)
  rw [← run_append, ← almostFinished] at hbefore
  obtain ⟨packet, hd, ht, hseq, hlength, _⟩ := delivery_chunkData (show 511 < 512 by decide)
  have hafter := hbefore.receive (by simp) (by decide) hd ht hseq hlength
  rw [run_append, run_cons, run_nil] at hlast
  generalize run (step .little network) (Peer.init : Peer ℚ) (almostFinished
    [⟨1, List.replicate 40 49⟩, ⟨0, List.replicate 40 48⟩]) = before at hlast hbefore hafter
  have hfrees : FreesPeers .little network before (chunkData 511) := by
    rw [freesPeers_iff _ _ _ _ fun hi => by rw [hbefore.init] at hi; cases hi]
    intro _ _ _ o ho _ hbusy
    rw [hbefore.requested] at ho ⊢
    obtain rfl | rfl : o = 1 ∨ o = 0 := by simpa using ho
    · exact ⟨[], [0], rfl, by simp⟩
    · obtain ⟨b, hl, _, hone, _⟩ := hbefore.buffer
      obtain ⟨c, hc, hzero, _⟩ := hbusy
      rw [hl, List.mem_singleton] at hc
      rw [hc, hone] at hzero
      cases hzero
  obtain ⟨b, hl, _, ho, _, _, _⟩ := hafter.buffer
  have hfree := hfrees _ hd ht 1 (by rw [hbefore.requested]; simp) hafter.full b
    (by rw [hl]; exact List.mem_singleton_self b) ho
  have hoffset : getOffSetFromMasterChunkfile (chunkHash 49) network = 1 := by decide +kernel
  have hfind : (hashes ((initPacket .little 1 (some (chunkHash 49)) 20).ntoh .little)).find?
      (startable network 3 (step .little network before (chunkData 511)).recvList) =
      some (chunkHash 49) := by
    have hlisted : hashes ((initPacket .little 1 (some (chunkHash 49)) 20).ntoh .little) =
        [chunkHash 49] := by decide +kernel
    rw [hlisted, hl]
    apply List.find?_cons_of_pos
    rw [startable, hoffset]
    simp [RecvBuffer.conflicts, hfree]
  refine (keeps_ihave .little network _ _ rfl rfl).mp hlast (chunkHash 49) hfind ?_
  rw [hoffset]
  exact ⟨hafter.init, by rw [hafter.requested]; simp, hafter.full⟩

end P2PCC.Permanence

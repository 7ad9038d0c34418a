import P2PCC.TimerSlots

namespace P2PCC.FailedRequests

open P2PCC.Lib.ByteOrder P2PCC.Lib.Runs P2PCC.Packet P2PCC.ChunkFile P2PCC.Tracker P2PCC.Sender
open P2PCC.Receiver P2PCC.Manager P2PCC.HandlePacket P2PCC.Peer P2PCC.Receiving

variable {R : Type}

/-- The file can be opened, and no token is too long. -/
def Readable (chunkfile : Option (List ChunkLine)) : Prop :=
  ∃ ls, chunkfile = some ls ∧ ∀ l ∈ ls, l.token.length ≤ 40

/-- The lines in front of the first token that is too long. -/
def counted (chunkfile : Option (List ChunkLine)) : Nat :=
  ((chunkfile.getD []).takeWhile (fun l => l.token.length ≤ 40)).length

/-- The download is as it was. -/
structure Untouched (before after : Peer R) : Prop where
  fileManager : after.fileManager = before.fileManager
  outputFile : after.outputFile = before.outputFile

/-- An open download without owners whose fields are those a failing request
for the same output file writes. -/
structure Abandoned (chunkfile : Option (List ChunkLine)) (outputfile : List Byte)
    (peer : Peer R) : Prop where
  init : peer.fileManager.init = true
  chunkCount : peer.fileManager.chunkCount = counted chunkfile
  top : peer.fileManager.top = 0
  alreadyUsed : peer.fileManager.alreadyUsed = []
  outputFile : peer.outputFile = outputfile.take 120

theorem generateWhohas_failed (e : Endian) (config : Config) (now : Int)
    (chunkfile : Option (List ChunkLine)) (outputfile : List Byte) (peer : Peer R)
    (hfail : ¬Readable chunkfile) :
    generateWhohas e config now chunkfile outputfile peer =
      ({ peer with
          outputFile := outputfile.take 120
          fileManager := { peer.fileManager with
            init := true, chunkCount := counted chunkfile, top := 0, alreadyUsed := [] } }, []) := by
  cases chunkfile with
  | none => rfl
  | some ls =>
    obtain ⟨hcount, hfails⟩ := whohasLoop_counted e ls 0 [] []
    have hlong : ∃ l ∈ ls, 40 < l.token.length := by
      by_contra hshort
      exact hfail ⟨ls, rfl, fun l hl => not_lt.mp fun h => hshort ⟨l, hl, h⟩⟩
    have hloop : whohasLoop e ls 0 [] [] = (counted (some ls), none) :=
      Prod.ext (by rw [hcount, Nat.zero_add]; rfl) (hfails.mpr hlong)
    rw [generateWhohas]
    dsimp only
    rw [hloop]

theorem generateWhohas_eq_nil (e : Endian) (config : Config) (now : Int)
    (chunkfile : Option (List ChunkLine)) (outputfile : List Byte) (peer : Peer R) :
    (generateWhohas e config now chunkfile outputfile peer).2 = [] ↔ ¬Readable chunkfile := by
  constructor
  · rintro hnil ⟨ls, rfl, hshort⟩
    obtain ⟨_, hfails⟩ := whohasLoop_counted e ls 0 [] []
    rw [generateWhohas] at hnil
    dsimp only at hnil
    generalize whohasLoop e ls 0 [] [] = result at hnil hfails
    obtain ⟨n, _ | r⟩ := result
    · obtain ⟨l, hl, hlong⟩ := hfails.mp rfl
      exact absurd (hshort l hl) (by omega)
    · cases hnil
  · intro hfail
    rw [generateWhohas_failed e config now chunkfile outputfile peer hfail]

theorem generateWhohas_read (e : Endian) (config : Config) (now : Int) (ls : List ChunkLine)
    (outputfile : List Byte) (peer : Peer R) (hread : Readable (some ls)) :
    (generateWhohas e config now (some ls) outputfile peer).1.fileManager =
      { init := true
        chunkCount := ls.length
        offset := (uncleared [] ls).map (fun l => getOffSetFromMasterChunkfile l.hash config)
        top := ls.length
        timer := List.replicate ls.length now
        alreadyUsed := [] } := by
  have hnil := generateWhohas_eq_nil e config now (some ls) outputfile peer
  have hcount := whohasLoop_whole e ls 0 [] []
  rw [generateWhohas] at hnil ⊢
  dsimp only at hnil ⊢
  generalize whohasLoop e ls 0 [] [] = result at hnil hcount ⊢
  obtain ⟨n, _ | r⟩ := result
  · exact absurd hread (hnil.mp rfl)
  · have hn : n = 0 + ls.length := hcount r rfl
    rw [hn, Nat.zero_add]

theorem untouched_iff (e : Endian) (config : Config) (now : Int)
    (chunkfile : Option (List ChunkLine)) (outputfile : List Byte) (peer : Peer R)
    (hfail : ¬Readable chunkfile) :
    Untouched peer (generateWhohas e config now chunkfile outputfile peer).1 ↔
      Abandoned chunkfile outputfile peer := by
  rw [generateWhohas_failed e config now chunkfile outputfile peer hfail]
  constructor
  · rintro ⟨hmanager, hname⟩
    exact ⟨congrArg FileManager.init hmanager.symm, congrArg FileManager.chunkCount hmanager.symm,
      congrArg FileManager.top hmanager.symm, congrArg FileManager.alreadyUsed hmanager.symm,
      hname.symm⟩
  · rintro ⟨hinit, hcount, htop, hused, hname⟩
    refine ⟨?_, hname.symm⟩
    rw [← hinit, ← hcount, ← htop, ← hused]

variable [Rate R]

/-- A request that fails leaves the download as it was. -/
def LeavesAlone (e : Endian) (config : Config) (peer : Peer R) : Event → Prop
  | .command now chunkfile outputfile =>
    (generateWhohas e config now chunkfile outputfile peer).2 = [] →
      Untouched peer (generateWhohas e config now chunkfile outputfile peer).1
  | _ => True

/-- A request can be read, or finds what an earlier one that failed has left. -/
def Harmless (peer : Peer R) : Event → Prop
  | .command _ chunkfile outputfile => Readable chunkfile ∨ Abandoned chunkfile outputfile peer
  | _ => True

omit [Rate R] in
theorem leavesAlone_iff (e : Endian) (config : Config) (peer : Peer R) (event : Event) :
    LeavesAlone e config peer event ↔ Harmless peer event := by
  cases event with
  | inbound now stray fromAddr packet => exact Iff.rfl
  | tick now => exact Iff.rfl
  | command now chunkfile outputfile =>
    rw [LeavesAlone, Harmless, generateWhohas_eq_nil]
    by_cases hr : Readable chunkfile
    · exact iff_of_true (fun h => absurd hr h) (Or.inl hr)
    · rw [untouched_iff e config now chunkfile outputfile peer hr]
      exact ⟨fun h => Or.inr (h hr), fun h _ => h.resolve_left hr⟩

/-- In every run the requests that fail leave the download alone exactly when
each finds the leftovers of one that failed before it. -/
theorem failed_requests_iff (e : Endian) (config : Config) (events : List Event) :
    Along (step e config) (LeavesAlone e config) (Peer.init : Peer R) events ↔
      Along (step e config) Harmless (Peer.init : Peer R) events := by
  have hkeeps : ∀ (peer : Peer R) event, True → LeavesAlone e config peer event → True :=
    fun _ _ _ _ => trivial
  have hiff : ∀ (peer : Peer R) event, True →
      (LeavesAlone e config peer event ↔ Harmless peer event) :=
    fun peer event _ => leavesAlone_iff e config peer event
  exact along_congr hkeeps hiff _ events trivial

/-- A request is under way when the file of the next one is missing. -/
theorem failed_request_replaces :
    ¬∀ events, Along (step .little network) (LeavesAlone .little network) (Peer.init : Peer ℚ)
      events := by
  intro h
  have hrun := h [.command 0 (some [⟨0, List.replicate 40 48⟩]) [97], .command 1 none [98]]
  have hname := (hrun.2.1 rfl).outputFile
  exact absurd hname (by decide +kernel)

omit [Rate R] in
/-- With a count of zero the next DATA packet ends the download, whatever it
carries, and an empty file is written. -/
theorem handleData_abandoned (e : Endian) (now : Int) (stray : Stray) (sockfd : Int)
    (packet : DataPacket) (peer : Peer R) (hinit : peer.fileManager.init = true)
    (hcount : peer.fileManager.chunkCount = 0) :
    (handleData e now stray sockfd packet peer).1.fileManager.init = false ∧
      (handleData e now stray sockfd packet peer).1.written = (peer.outputFile, []) :: peer.written := by
  have hrequested : ∀ offset, (peer.fileManager.touch offset now).requested = [] := by
    intro offset
    rw [FileManager.requested, FileManager.touch, hcount, List.take_zero]
  unfold handleData checkFileManager
  dsimp only
  rw [hrequested, releaseFull]
  have hopen : ∀ offset, ¬(peer.fileManager.touch offset now).init = false := by
    intro offset
    simp [FileManager.touch, hinit]
  rw [if_neg (hopen _)]
  exact ⟨rfl, rfl⟩

theorem failed_request_empties (e : Endian) (config : Config) (now later : Int) (stray : Stray)
    (sockfd : Int) (packet : DataPacket) (outputfile : List Byte) (peer : Peer R) :
    (handleData e later stray sockfd packet
        (step e config peer (.command now none outputfile))).1.written =
      (outputfile.take 120, []) :: peer.written :=
  (handleData_abandoned e later stray sockfd packet _ rfl rfl).2

end P2PCC.FailedRequests

import P2PCC.FailedRequests
import P2PCC.GetRequests
import P2PCC.Requests

namespace P2PCC.Regeneration

open P2PCC.Lib.ByteOrder P2PCC.Lib.Runs P2PCC.Lib.FirstMatch P2PCC.Packet P2PCC.ChunkFile
open P2PCC.Tracker P2PCC.Sender P2PCC.Receiver P2PCC.Manager P2PCC.HandlePacket P2PCC.Peer
open P2PCC.Receiving P2PCC.Whohas P2PCC.GetRequests P2PCC.FailedRequests

variable {R : Type}

/-- The tests of the loop of `re_generateWhohas`. -/
def late (now : Int) (fm : FileManager) (recvList : List RecvBuffer) (i : Nat) : Bool :=
  isBufferFull (fm.offset.getD i 0) recvList ≠ 1 && now - fm.timer.getD i 0 > 10

/-- What a pass of the loop does for an entry that timed out: the chunk it
releases, and the hash it hands to `init_packet`. -/
structure Asked where
  entry : Nat
  released : Int
  hash : Option (List Byte)
deriving DecidableEq

def ask (config : Config) (fm : FileManager) (i : Nat) : Asked :=
  ⟨i, fm.offset.getD i 0, getHashFromMasterChunkfile (fm.offset.getD i 0) config⟩

def askPass (e : Endian) (config : Config) (now : Int)
    (st : FileManager × List RecvBuffer × List DataPacket) (i : Nat) :
    (FileManager × List RecvBuffer × List DataPacket) × List Asked :=
  (regenerateStep e config now st i,
    if late now st.1 st.2.1 i then [ask config st.1 i] else [])

/-- The entries a call of `re_generateWhohas` asks for again. -/
def asked (e : Endian) (config : Config) (now : Int) (peer : Peer R) : List Asked :=
  if peer.fileManager.init = false then []
  else outputs (askPass e config now) (peer.fileManager, peer.recvList, [])
    (List.range peer.fileManager.chunkCount)

section Loop

variable (e : Endian) (config : Config) (now : Int)

theorem regenerateStep_late {fm : FileManager} {recvList : List RecvBuffer} {i : Nat}
    (ret : List DataPacket) (h : late now fm recvList i = true) :
    regenerateStep e config now (fm, recvList, ret) i =
      ({ fm with timer := fm.timer.set i now }, releaseBuffer (ask config fm i).released recvList,
        initPacket e 0 (ask config fm i).hash 20 :: ret) := by
  obtain ⟨hfull, hold⟩ := Bool.and_eq_true_iff.mp h
  rw [regenerateStep, if_neg (of_decide_eq_true hfull), if_pos (of_decide_eq_true hold)]
  rfl

theorem regenerateStep_early {fm : FileManager} {recvList : List RecvBuffer} {i : Nat}
    (ret : List DataPacket) (h : ¬late now fm recvList i = true) :
    regenerateStep e config now (fm, recvList, ret) i = (fm, recvList, ret) := by
  rw [regenerateStep]
  split
  · rfl
  · rename_i hfull
    rw [if_neg]
    exact fun hold => h (Bool.and_eq_true_iff.mpr ⟨decide_eq_true hfull, decide_eq_true hold⟩)

theorem late_regenerated (fm : FileManager) (recvList : List RecvBuffer) (offset : Int) {i j : Nat}
    (hne : j ≠ i) :
    late now { fm with timer := fm.timer.set i now } (releaseBuffer offset recvList) j =
      late now fm recvList j := by
  have hclock : (fm.timer.set i now).getD j 0 = fm.timer.getD j 0 := by
    rw [List.getD_eq_getElem?_getD, List.getElem?_set_ne hne.symm, ← List.getD_eq_getElem?_getD]
  rw [late, late, isBufferFull_release, hclock]

/-- The loop releases the chunks of the entries it asks for, and makes a
packet for each. -/
theorem foldl_regenerateStep (is : List Nat) (fm : FileManager) (recvList : List RecvBuffer)
    (ret : List DataPacket) :
    (is.foldl (regenerateStep e config now) (fm, recvList, ret)).2 =
      (releaseAll ((outputs (askPass e config now) (fm, recvList, ret) is).map Asked.released)
          recvList,
        ((outputs (askPass e config now) (fm, recvList, ret) is).map
          (fun a => initPacket e 0 a.hash 20)).reverse ++ ret) := by
  induction is generalizing fm recvList ret with
  | nil => rfl
  | cons i is ih =>
    rw [List.foldl_cons, outputs, askPass]
    by_cases h : late now fm recvList i = true
    · rw [regenerateStep_late e config now ret h, if_pos h, ih]
      simp only [List.singleton_append, List.map_cons, List.reverse_cons, List.append_assoc]
      rfl
    · rw [regenerateStep_early e config now ret h, if_neg h, ih]
      rfl

theorem outputs_askPass (is : List Nat) (hn : is.Nodup) (fm : FileManager)
    (recvList : List RecvBuffer) (ret : List DataPacket) :
    outputs (askPass e config now) (fm, recvList, ret) is =
      (is.filter (late now fm recvList)).map (ask config fm) := by
  induction is generalizing fm recvList ret with
  | nil => rfl
  | cons i is ih =>
    obtain ⟨hi, hrest⟩ := List.nodup_cons.mp hn
    rw [outputs, askPass]
    by_cases h : late now fm recvList i = true
    · have hsame : ∀ j ∈ is, late now { fm with timer := fm.timer.set i now }
          (releaseBuffer (ask config fm i).released recvList) j = late now fm recvList j :=
        fun j hj => late_regenerated now fm recvList _ fun he => hi (he ▸ hj)
      rw [regenerateStep_late e config now ret h, if_pos h, List.filter_cons_of_pos h, ih hrest,
        List.filter_congr hsame]
      rfl
    · rw [regenerateStep_early e config now ret h, if_neg h, List.filter_cons_of_neg h, ih hrest]
      rfl

theorem regenerateWhohas_asked (peer : Peer R) :
    (regenerateWhohas e config now peer).1.recvList =
        releaseAll ((asked e config now peer).map Asked.released) peer.recvList ∧
      (regenerateWhohas e config now peer).2 =
        ((asked e config now peer).map (fun a => initPacket e 0 a.hash 20)).reverse := by
  have hloop := foldl_regenerateStep e config now (List.range peer.fileManager.chunkCount)
    peer.fileManager peer.recvList []
  rw [regenerateWhohas, asked]
  split
  · exact ⟨rfl, rfl⟩
  · rw [List.append_nil] at hloop
    exact ⟨congrArg Prod.fst hloop, congrArg Prod.snd hloop⟩

theorem mem_asked {peer : Peer R} {a : Asked} : a ∈ asked e config now peer ↔
    peer.fileManager.init = true ∧ ∃ i, i < peer.fileManager.chunkCount ∧
      late now peer.fileManager peer.recvList i = true ∧ a = ask config peer.fileManager i := by
  rw [asked]
  split
  · rename_i hclosed
    simp [hclosed]
  · rename_i hopen
    rw [outputs_askPass e config now _ List.nodup_range, List.mem_map]
    simp only [List.mem_filter, List.mem_range, and_assoc, Bool.not_eq_false _ ▸ hopen, true_and,
      eq_comm (a := a)]

end Loop

section Searches

variable {config : Config} {hash : List Byte}

/-- The search by offset finds the hash that the search by hash was for, and
nothing at all where that one failed. -/
theorem getHash_getOffSet (hlines : ∀ l ∈ config.chunkFile.getD [], WellFormed l)
    (hdistinct : ((config.chunkFile.getD []).map ChunkLine.index).Nodup)
    (hlen : hash.length = 20) :
    (Listed (config.chunkFile.getD []) hash ∧
        getHashFromMasterChunkfile (getOffSetFromMasterChunkfile hash config) config =
          some hash) ∨
      ¬Listed (config.chunkFile.getD []) hash ∧
        getHashFromMasterChunkfile (getOffSetFromMasterChunkfile hash config) config = none := by
  cases hconfig : config.chunkFile with
  | none =>
    refine Or.inr ⟨fun ⟨_, hl, _⟩ => absurd hl List.not_mem_nil, ?_⟩
    rw [getHashFromMasterChunkfile, Config.masterLines, hconfig]
    rfl
  | some lines =>
    rw [hconfig, Option.getD_some] at hlines hdistinct
    rw [Option.getD_some]
    have htokens : ∀ l ∈ lines, l.token.length = 40 := fun l hl => (hlines l hl).length
    have hoffset := getOffSet_full hconfig htokens hash
    rw [find?_sameHash hlen] at hoffset
    rw [getHash_full hconfig htokens]
    cases hfind : lines.find? (fun l => l.hash = hash) with
    | none =>
      have hmiss : ¬Listed lines hash := fun hlisted => by
        obtain ⟨l, hl⟩ := listed_iff.mp hlisted
        rw [hfind] at hl
        cases hl
      -- No line of a well-formed file has the index -1.
      have hnone : lines.find? (fun l => l.index = -1) = none := by
        apply List.find?_eq_none.mpr
        intro l hl
        have hindex := (hlines l hl).index
        simp only [decide_eq_true_eq]
        omega
      rw [hfind] at hoffset
      refine Or.inr ⟨hmiss, ?_⟩
      rw [hoffset, Option.map_none, Option.getD_none, hnone]
      rfl
    | some l =>
      have hhash : l.hash = hash := by simpa using List.find?_some hfind
      have hmem := List.mem_of_find?_eq_some hfind
      rw [hfind] at hoffset
      refine Or.inl ⟨⟨l, hmem, hhash⟩, ?_⟩
      rw [hoffset, Option.map_some, Option.getD_some, find?_key hdistinct hmem, Option.map_some,
        hhash]

/-- The second loop over a chunk file reads the hash of an entry as the first
loop does, though it does not clear its array. -/
def Reread (ls : List ChunkLine) (i : Nat) (l : ChunkLine) : Prop :=
  ∃ m, (uncleared [] ls)[i]? = some m ∧ m.hash = l.hash

theorem reread_full {ls : List ChunkLine} (h : ∀ l ∈ ls, l.token.length = 40) {i : Nat}
    {l : ChunkLine} (hl : ls[i]? = some l) : Reread ls i l := by
  have hread := congrArg (·[i]?) (uncleared_map h id [])
  simp only [id_eq, List.getElem?_map, hl, Option.map_some] at hread
  obtain ⟨m, hm, hhash⟩ := Option.map_eq_some_iff.mp hread
  exact ⟨m, hm, hhash⟩

end Searches

/-- None of the events is a request that can be read. -/
def Unreplaced (events : List Event) : Prop :=
  ∀ now chunkfile outputfile, .command now chunkfile outputfile ∈ events → ¬Readable chunkfile

/-- The entry asks for the line of the chunk file it stands for, and the hash
is not NULL. -/
structure Names (e : Endian) (l : ChunkLine) (a : Asked) : Prop where
  hash : a.hash = some l.hash
  packetType : (initPacket e 0 a.hash 20).header.packetType = 0
  carries : Carries (initPacket e 0 a.hash 20) [l.hash]

theorem names_iff (e : Endian) (l : ChunkLine) (a : Asked) :
    Names e l a ↔ a.hash = some l.hash := by
  refine ⟨Names.hash, fun h => ⟨h, rfl, ?_⟩⟩
  have hsize : ∀ hash ∈ [l.hash], hash.length = 20 := by simp
  have hcarries := carries_initPacket e (Or.inl rfl) hsize (by simp) (by simp)
  rw [h]
  simpa using hcarries

variable [Rate R]

theorem offset_lasting (e : Endian) (config : Config) (offsets : List Int) (peer : Peer R)
    (events : List Event) (hevents : Unreplaced events)
    (h : peer.fileManager.offset = offsets ∨ peer.fileManager.offset = []) :
    (run (step e config) peer events).fileManager.offset = offsets ∨
      (run (step e config) peer events).fileManager.offset = [] := by
  refine run_invariant (G := fun _ event => event ∈ events)
    (I := fun p => p.fileManager.offset = offsets ∨ p.fileManager.offset = []) ?_ peer events h
    (along_of_forall peer events fun _ _ he => he)
  intro p event hp hmem
  obtain ⟨next, hr, hsame⟩ := step_received e config p event
  rw [hsame.fileManager]
  refine hr.fileManager_lasting (P := fun fm => fm.offset = offsets ∨ fm.offset = []) ?_ ?_ ?_ hp
  · exact fun _ _ _ _ h => h
  · exact fun _ _ _ _ _ _ => Or.inr rfl
  · rintro now chunkfile outputfile rfl
    rw [generateWhohas_failed e config now chunkfile outputfile p (hevents now _ _ hmem)]
    exact hp

/-- Until the next request that can be read, an entry of the download is asked
for under its own hash exactly when the second loop reads that hash and the
master chunk file lists it. -/
theorem regenerated_names_iff (e : Endian) (config : Config)
    (hlines : ∀ l ∈ config.chunkFile.getD [], WellFormed l)
    (hdistinct : ((config.chunkFile.getD []).map ChunkLine.index).Nodup) (now later : Int)
    (ls : List ChunkLine) (hread : Readable (some ls)) (outputfile : List Byte) (peer : Peer R)
    (events : List Event) (hevents : Unreplaced events) (a : Asked)
    (ha : a ∈ asked e config later
      (run (step e config) peer (.command now (some ls) outputfile :: events)))
    (hentry : a.entry < (run (step e config) peer
      (.command now (some ls) outputfile :: events)).fileManager.offset.length) :
    ∃ l, ls[a.entry]? = some l ∧
      (Names e l a ↔ Reread ls a.entry l ∧ Listed (config.chunkFile.getD []) l.hash) := by
  obtain ⟨_, i, _, _, rfl⟩ := (mem_asked e config later).mp ha
  have hoffset := offset_lasting e config _ (step e config peer (.command now (some ls) outputfile))
    events hevents
    (Or.inl (by rw [step, act, generateWhohas_read e config now ls outputfile peer hread]))
  rw [← run_cons] at hoffset
  generalize run (step e config) peer (.command now (some ls) outputfile :: events) = p
    at hoffset hentry
  obtain hoffset | hoffset := hoffset
  · have hi : i < ls.length := by
      have hlength : i < p.fileManager.offset.length := hentry
      rwa [hoffset, List.length_map, uncleared_length] at hlength
    refine ⟨ls[i], List.getElem?_eq_getElem hi, ?_⟩
    have hj : i < (uncleared [] ls).length := by rwa [uncleared_length]
    have hindex : p.fileManager.offset.getD i 0 =
        getOffSetFromMasterChunkfile (uncleared [] ls)[i].hash config := by
      rw [hoffset, List.getD_eq_getElem _ _ (by simpa using hj), List.getElem_map]
    have hreread : Reread ls i ls[i] ↔ (uncleared [] ls)[i].hash = ls[i].hash := by
      rw [Reread, List.getElem?_eq_getElem hj]
      simp
    rw [names_iff, ask, hindex, hreread]
    obtain ⟨hlisted, hfound⟩ | ⟨hmiss, hnull⟩ :=
      getHash_getOffSet hlines hdistinct (hash_length (uncleared [] ls)[i])
    · rw [hfound, Option.some.injEq]
      refine ⟨fun heq => ⟨heq, ?_⟩, And.left⟩
      rw [← heq]
      exact hlisted
    · rw [hnull]
      refine ⟨fun h => absurd h.symm (Option.some_ne_none _), ?_⟩
      rintro ⟨heq, hlisted⟩
      rw [← heq] at hlisted
      exact absurd hlisted hmiss
  · rw [hoffset] at hentry
    exact absurd hentry (Nat.not_lt_zero _)

theorem regenerated_names_one : ∃ l, [(⟨0, List.replicate 40 48⟩ : ChunkLine)][0]? = some l ∧
    (Names .little l ⟨0, 0, some (chunkHash 48)⟩ ↔
      Reread [⟨0, List.replicate 40 48⟩] 0 l ∧ Listed (network.chunkFile.getD []) l.hash) :=
  regenerated_names_iff .little network (by decide) (by decide) 0 11 [⟨0, List.replicate 40 48⟩]
    ⟨_, rfl, by decide⟩ [] (Peer.init : Peer ℚ) [] (fun _ _ _ h => absurd h List.not_mem_nil)
    ⟨0, 0, some (chunkHash 48)⟩ (by decide +kernel) (by decide +kernel)

/-- The master chunk file does not list the hash, and NULL is handed on. -/
theorem unlisted_asked : ¬∀ a ∈ asked .little network 11 (run (step .little network)
    (Peer.init : Peer ℚ) [.command 0 (some [⟨0, List.replicate 40 50⟩]) []]),
    Names .little ⟨0, List.replicate 40 50⟩ a := by
  intro h
  have hnull : asked .little network 11 (run (step .little network) (Peer.init : Peer ℚ)
      [.command 0 (some [⟨0, List.replicate 40 50⟩]) []]) = [⟨0, -1, none⟩] := by decide +kernel
  have hnames := (h ⟨0, -1, none⟩ (by rw [hnull]; exact List.mem_singleton_self _)).hash
  cases hnames

end P2PCC.Regeneration

import P2PCC.Regeneration

namespace P2PCC.Timeouts

open P2PCC.Lib.ByteOrder P2PCC.Lib.Runs P2PCC.Packet P2PCC.ChunkFile P2PCC.Tracker P2PCC.Sender
open P2PCC.Receiver P2PCC.Manager P2PCC.HandlePacket P2PCC.Peer P2PCC.Receiving P2PCC.TimerSlots
open P2PCC.FailedRequests P2PCC.Regeneration

variable {R : Type}

/-- The chunk of a DATA packet that `recv_data` accepts. -/
def accepted (e : Endian) (config : Config) (peer : Peer R) (event : Event) : Option Int :=
  (delivery e config event).bind (fun d =>
    if d.packet.header.packetType = 3 then
      (recvData e d.stray.past d.packet d.sockfd peer.recvList).2.map Prod.snd
    else none)

/-- The chunks whose buffers `re_generateWhohas` releases. -/
def released (e : Endian) (config : Config) (peer : Peer R) : Event → List Int
  | .tick now => (asked e config now peer).map Asked.released
  | _ => []

/-- The entry the search for a chunk finds. -/
structure FirstAt (fm : FileManager) (offset : Int) (j : Nat) : Prop where
  entry : fm.offset[j]? = some offset
  before : ∀ k, k < j → fm.offset[k]? ≠ some offset

/-- The clock of a chunk, if the chunk has one, is at least some time. -/
def Clocked (offset time : Int) (fm : FileManager) : Prop :=
  ∀ j, FirstAt fm offset j → time ≤ fm.timer.getD j 0

/-- An entry that timed out is one of the array, and the clock of its chunk
has run out too. -/
def Expired (now : Int) (fm : FileManager) (i : Nat) : Prop :=
  i < fm.offset.length ∧ now - fm.timer.getD (fm.timerSlot (fm.offset.getD i 0)) 0 > 10

instance (now : Int) (fm : FileManager) (i : Nat) : Decidable (Expired now fm i) :=
  inferInstanceAs (Decidable (_ ∧ _))

/-- The chunk of an accepted packet is searched for among all entries that
have it. -/
def Refreshes (e : Endian) (config : Config) (peer : Peer R) (event : Event) : Prop :=
  ∀ offset ∈ accepted e config peer event,
    offset ∈ peer.fileManager.offset → offset ∈ peer.fileManager.requested

instance (e : Endian) (config : Config) (peer : Peer R) (event : Event) :
    Decidable (Refreshes e config peer event) :=
  inferInstanceAs (Decidable (∀ offset ∈ accepted e config peer event, _))

/-- An entry times out only together with the clock of its chunk. -/
def TimesOut (peer : Peer R) : Event → Prop
  | .tick now => peer.fileManager.init = true → ∀ i < peer.fileManager.chunkCount,
      late now peer.fileManager peer.recvList i = true → Expired now peer.fileManager i
  | _ => True

instance (peer : Peer R) : (event : Event) → Decidable (TimesOut peer event)
  | .tick now => inferInstanceAs (Decidable (_ → ∀ i < peer.fileManager.chunkCount,
      late now peer.fileManager peer.recvList i = true → Expired now peer.fileManager i))
  | .inbound _ _ _ _ => .isTrue trivial
  | .command _ _ _ => .isTrue trivial

theorem FirstAt.unique {fm : FileManager} {offset : Int} {i j : Nat} (hi : FirstAt fm offset i)
    (hj : FirstAt fm offset j) : i = j := by
  obtain hlt | heq | hlt := lt_trichotomy i j
  · exact absurd hi.entry (hj.before i hlt)
  · exact heq
  · exact absurd hj.entry (hi.before j hlt)

theorem entry_of_lt {fm : FileManager} {i : Nat} (h : i < fm.offset.length) :
    fm.offset[i]? = some (fm.offset.getD i 0) := by
  rw [List.getD_eq_getElem _ _ h, List.getElem?_eq_getElem h]

theorem entry_requested {fm : FileManager} {i : Nat} (h : i < fm.offset.length)
    (hi : i < fm.chunkCount) : fm.offset.getD i 0 ∈ fm.requested := by
  apply List.mem_of_getElem? (i := i)
  rw [FileManager.requested, List.getElem?_take_of_lt hi, entry_of_lt h]

theorem timerSlot_first {fm : FileManager} {offset : Int} (h : offset ∈ fm.requested) :
    FirstAt fm offset (fm.timerSlot offset) := by
  cases hf : (List.range fm.chunkCount).find? (fun j => decide (fm.offset[j]? = some offset)) with
  | none =>
    have hslot : fm.timerSlot offset = fm.chunkCount := by rw [FileManager.timerSlot, hf]; rfl
    obtain ⟨_, hlt, _⟩ | ⟨hnot, _⟩ := timerSlot_spec fm offset
    · omega
    · exact absurd h hnot
  | some j =>
    have hslot : fm.timerSlot offset = j := by rw [FileManager.timerSlot, hf]; rfl
    obtain ⟨hj, _, hbefore⟩ := List.find?_range_eq_some.mp hf
    rw [hslot]
    exact ⟨of_decide_eq_true hj, fun k hk => by simpa using hbefore k hk⟩

theorem le_set_getD {timer : List Int} {time now : Int} {j : Nat} (h : time ≤ timer.getD j 0)
    (hnow : time ≤ now) (slot : Nat) : time ≤ (timer.set slot now).getD j 0 := by
  rw [List.getD_eq_getElem?_getD] at h ⊢
  rw [List.getElem?_set]
  split
  · split
    · exact hnow
    · rename_i heq hlt
      rwa [← heq, List.getElem?_eq_none (not_lt.mp hlt)] at h
  · exact h

theorem Clocked.set {offset time now : Int} {fm : FileManager} (h : Clocked offset time fm)
    (hnow : time ≤ now) (slot : Nat) (alreadyUsed : List (Int × SockAddr)) :
    Clocked offset time { fm with timer := fm.timer.set slot now, alreadyUsed := alreadyUsed } :=
  fun j hj => le_set_getD (h j ⟨hj.entry, hj.before⟩) hnow slot

theorem Clocked.freed {offset time : Int} {fm : FileManager} (h : fm.offset = []) :
    Clocked offset time fm := by
  intro j hj
  have hentry := hj.entry
  simp [h] at hentry

theorem Clocked.touch {offset time : Int} {fm : FileManager} (hpaired : Paired fm)
    (hsearch : offset ∈ fm.offset → offset ∈ fm.requested) :
    Clocked offset time (fm.touch offset time) := by
  intro j hj
  have hfirst : FirstAt fm offset j := ⟨hj.entry, hj.before⟩
  obtain ⟨hlt, _⟩ := List.getElem?_eq_some_iff.mp hfirst.entry
  have hslot := timerSlot_first (hsearch (List.mem_of_getElem? hfirst.entry))
  rw [FileManager.touch, hslot.unique hfirst]
  rw [Paired] at hpaired
  rw [List.getD_eq_getElem _ _ (by rw [List.length_set]; omega), List.getElem_set_self]

theorem Clocked.generate {offset time : Int} (e : Endian) (config : Config) (now : Int)
    (chunkfile : Option (List ChunkLine)) (outputfile : List Byte) {peer : Peer R}
    (h : Clocked offset time peer.fileManager) (hnow : time ≤ now) :
    Clocked offset time (generateWhohas e config now chunkfile outputfile peer).1.fileManager := by
  by_cases hr : Readable chunkfile
  · obtain ⟨ls, rfl, hshort⟩ := hr
    rw [generateWhohas_read e config now ls outputfile peer ⟨ls, rfl, hshort⟩]
    intro j hj
    have hentry := hj.entry
    obtain ⟨hlt, _⟩ := List.getElem?_eq_some_iff.mp hentry
    have hlength : j < ls.length := by simpa [uncleared_length] using hlt
    rw [List.getD_eq_getElem _ _ (by simpa using hlength), List.getElem_replicate]
    exact hnow
  · rw [generateWhohas_failed e config now chunkfile outputfile peer hr]
    exact fun j hj => h j ⟨hj.entry, hj.before⟩

variable [Rate R]

/-- Later events leave the clock of a chunk at the time of a packet, or set it
forward. -/
theorem clocked_step {offset time : Int} (e : Endian) (config : Config) (peer : Peer R)
    (event : Event) (h : Clocked offset time peer.fileManager) (hlater : time ≤ clock event) :
    Clocked offset time (step e config peer event).fileManager := by
  obtain ⟨next, hr, hsame⟩ := step_received e config peer event
  rw [hsame.fileManager]
  refine hr.fileManager_clocks (P := Clocked offset time) ?_ ?_ ?_ h
  · exact fun fm slot alreadyUsed hfm => hfm.set hlater slot alreadyUsed
  · exact fun _ _ _ _ _ _ => .freed rfl
  · rintro now chunkfile outputfile rfl
    exact .generate e config now chunkfile outputfile h hlater

theorem clocked_accepted {e : Endian} {config : Config} {peer : Peer R} {event : Event}
    {offset : Int} (hpaired : Paired peer.fileManager) (hrefresh : Refreshes e config peer event)
    (ha : accepted e config peer event = some offset) :
    Clocked offset (clock event) (step e config peer event).fileManager := by
  have hsearch := hrefresh offset ha
  rw [accepted, Option.bind_eq_some_iff] at ha
  obtain ⟨d, hd, ha⟩ := ha
  rw [Option.ite_none_right_eq_some] at ha
  obtain ⟨htype, hrecv⟩ := ha
  rw [(step_data hd htype peer).fileManager, handleData_fileManager, hrecv, Option.getD_some,
    ← delivery_clock hd]
  apply checkFileManager_fileManager (P := Clocked offset d.now)
  · exact fun _ => .freed rfl
  · exact .touch hpaired hsearch

omit [Rate R] in
/-- The buffers of a chunk are only released when the clock that its packets
set has run out. -/
theorem released_expired {e : Endian} {config : Config} {peer : Peer R} {event : Event}
    {offset time : Int} (htimes : TimesOut peer event)
    (hclocked : Clocked offset time peer.fileManager)
    (hr : offset ∈ released e config peer event) : time < clock event - 10 := by
  cases event with
  | inbound now stray fromAddr packet => exact absurd hr List.not_mem_nil
  | command now chunkfile outputfile => exact absurd hr List.not_mem_nil
  | tick now =>
    obtain ⟨a, ha, rfl⟩ := List.mem_map.mp hr
    obtain ⟨hinit, i, hi, hlate, rfl⟩ := (mem_asked e config now).mp ha
    obtain ⟨hlt, hold⟩ := htimes hinit i hi hlate
    have hclock : time ≤ peer.fileManager.timer.getD
        (peer.fileManager.timerSlot (peer.fileManager.offset.getD i 0)) 0 :=
      hclocked _ (timerSlot_first (entry_requested hlt hi))
    rw [clock]
    omega

/-- Between an accepted packet and a release of its chunk lie more than ten
seconds. -/
def KeptAlive (e : Endian) (config : Config) (peer : Peer R) (events : List Event) : Prop :=
  ∀ pre data mid timeout post, events = pre ++ data :: (mid ++ timeout :: post) → ∀ offset,
    accepted e config (run (step e config) peer pre) data = some offset →
    offset ∈ released e config (run (step e config) peer (pre ++ data :: mid)) timeout →
    clock data < clock timeout - 10

theorem clock_later {pre mid post : List Event} {data timeout : Event}
    (hclock : ((pre ++ data :: (mid ++ timeout :: post)).map clock).Pairwise (· ≤ ·)) :
    ∀ event ∈ mid, clock data ≤ clock event := by
  rw [List.map_append, List.map_cons, List.map_append] at hclock
  have hsorted := (List.pairwise_cons.mp (List.pairwise_append.mp hclock).2.1).1
  intro event hevent
  exact hsorted _ (List.mem_append_left _ (List.mem_map_of_mem hevent))

theorem release_waits {e : Endian} {config : Config} {pre mid : List Event} {data timeout : Event}
    {offset : Int} (hlater : ∀ event ∈ mid, clock data ≤ clock event)
    (hrefresh : Refreshes e config (run (step e config) (Peer.init : Peer R) pre) data)
    (htimes : TimesOut (run (step e config) (Peer.init : Peer R) (pre ++ data :: mid)) timeout)
    (ha : accepted e config (run (step e config) (Peer.init : Peer R) pre) data = some offset)
    (hr : offset ∈ released e config
      (run (step e config) (Peer.init : Peer R) (pre ++ data :: mid)) timeout) :
    clock data < clock timeout - 10 := by
  have hpaired : Paired (run (step e config) (Peer.init : Peer R) pre).fileManager := by
    apply run_invariant_total (I := fun p : Peer R => Paired p.fileManager)
    · exact fun p event => paired_step e config p event
    · rfl
  have hset := clocked_accepted hpaired hrefresh ha
  have hkept : Clocked offset (clock data)
      (run (step e config) (Peer.init : Peer R) (pre ++ data :: mid)).fileManager := by
    rw [run_append, run_cons]
    refine run_invariant (G := fun _ event => clock data ≤ clock event)
      (I := fun p : Peer R => Clocked offset (clock data) p.fileManager) ?_ _ mid hset ?_
    · exact fun p event hp hlater => clocked_step e config p event hp hlater
    · exact along_of_forall _ _ fun _ event hevent => hlater event hevent
  exact released_expired htimes hkept hr

/-- In a run in which the clock does not go back, every packet is accepted for
a chunk that is searched for, and every entry times out only together with the
clock of its chunk, no live transfer is timed out. -/
theorem kept_alive (e : Endian) (config : Config) (events : List Event)
    (hclock : (events.map clock).Pairwise (· ≤ ·))
    (hrefresh : Along (step e config) (Refreshes e config) (Peer.init : Peer R) events)
    (htimes : Along (step e config) TimesOut (Peer.init : Peer R) events) :
    KeptAlive e config (Peer.init : Peer R) events := by
  rintro pre data mid timeout post rfl offset ha hr
  have hafter := (along_append _ pre _).mp hrefresh
  have hbefore : pre ++ data :: (mid ++ timeout :: post) =
      (pre ++ data :: mid) ++ timeout :: post := by
    simp
  rw [hbefore] at htimes
  have hexpires := ((along_append _ (pre ++ data :: mid) _).mp htimes).2.1
  exact release_waits (clock_later hclock) hafter.2.1 hexpires ha hr

def offerAt (now : Int) : Event :=
  .inbound now cleared ⟨2, 2, 2⟩ (initPacket .little 1 (some (chunkHash 48)) 20)

def dataAt (now : Int) : Event :=
  let packet := initPacket .little 3 (some [7]) 1
  .inbound now cleared ⟨2, 2, 2⟩ { packet with
    header := { packet.header with seqNum := hton32 .little 1 } }

theorem kept_alive_once : KeptAlive .little network (Peer.init : Peer ℚ)
    [.command 0 (some [⟨0, List.replicate 40 48⟩]) [], offerAt 1, dataAt 10, .tick 21] :=
  kept_alive .little network _ (by decide)
    ⟨by decide +kernel, by decide +kernel, by decide +kernel, by decide +kernel, trivial⟩
    ⟨by decide +kernel, by decide +kernel, by decide +kernel, by decide +kernel, trivial⟩

/-- The chunk is requested twice. Its packet sets the clock of the first entry,
and the second one times out. -/
theorem second_entry_times_out : ¬∀ events, (events.map clock).Pairwise (· ≤ ·) →
    KeptAlive .little network (Peer.init : Peer ℚ) events := by
  intro h
  have hlate := h [.command 0 (some [⟨0, List.replicate 40 48⟩, ⟨1, List.replicate 40 48⟩]) [],
    offerAt 1, dataAt 10, .tick 11] (by decide)
    [.command 0 (some [⟨0, List.replicate 40 48⟩, ⟨1, List.replicate 40 48⟩]) [], offerAt 1]
    (dataAt 10) [] (.tick 11) [] rfl 0 (by decide +kernel) (by decide +kernel)
  exact absurd hlate (by decide)

section Distinct

/-- While the file manager is open its request is all of the array, which has
no chunk twice. -/
structure Whole (fm : FileManager) : Prop where
  opened : fm.init = true → fm.chunkCount = fm.offset.length
  closed : fm.init = false → fm.offset = []
  distinct : fm.offset.Nodup

/-- A request that can be read and has no chunk twice. -/
def DistinctRequest (config : Config) (chunkfile : Option (List ChunkLine)) : Prop :=
  ∃ ls, chunkfile = some ls ∧ Readable (some ls) ∧
    ((uncleared [] ls).map (fun l => getOffSetFromMasterChunkfile l.hash config)).Nodup

omit [Rate R] in
theorem Whole.refreshes {peer : Peer R} (h : Whole peer.fileManager) (e : Endian) (config : Config)
    (event : Event) : Refreshes e config peer event := by
  intro offset _ hm
  cases hinit : peer.fileManager.init with
  | true => rwa [FileManager.requested, h.opened hinit, List.take_length]
  | false =>
    rw [h.closed hinit] at hm
    exact absurd hm List.not_mem_nil

omit [Rate R] in
theorem Whole.timesOut {peer : Peer R} (h : Whole peer.fileManager) (event : Event) :
    TimesOut peer event := by
  cases event with
  | inbound now stray fromAddr packet => trivial
  | command now chunkfile outputfile => trivial
  | tick now =>
    intro hinit i hi hlate
    have hlt : i < peer.fileManager.offset.length := h.opened hinit ▸ hi
    have hfirst : FirstAt peer.fileManager (peer.fileManager.offset.getD i 0) i := by
      refine ⟨entry_of_lt hlt, fun k hk he => ?_⟩
      have hsame := (List.getElem?_inj hlt h.distinct).mp ((entry_of_lt hlt).trans he.symm)
      omega
    have hslot : peer.fileManager.timerSlot (peer.fileManager.offset.getD i 0) = i :=
      (timerSlot_first (entry_requested hlt hi)).unique hfirst
    rw [Expired, hslot]
    exact ⟨hlt, of_decide_eq_true (Bool.and_eq_true_iff.mp hlate).2⟩

theorem whole_step (e : Endian) (config : Config) (peer : Peer R) (event : Event)
    (h : Whole peer.fileManager) (hcommand : ∀ now chunkfile outputfile,
      event = .command now chunkfile outputfile → DistinctRequest config chunkfile) :
    Whole (step e config peer event).fileManager := by
  obtain ⟨next, hr, hsame⟩ := step_received e config peer event
  rw [hsame.fileManager]
  refine hr.fileManager_lasting (P := Whole) ?_ ?_ ?_ h
  · exact fun _ _ _ _ hfm => ⟨hfm.opened, hfm.closed, hfm.distinct⟩
  · exact fun _ _ _ _ _ _ => ⟨fun hopen => absurd hopen Bool.false_ne_true, fun _ => rfl, List.nodup_nil⟩
  · intro now chunkfile outputfile he
    obtain ⟨ls, rfl, hread, hnodup⟩ := hcommand now chunkfile outputfile he
    rw [generateWhohas_read e config now ls outputfile peer hread]
    exact ⟨fun _ => by simp [uncleared_length],
      fun hclosed => absurd hclosed.symm Bool.false_ne_true, hnodup⟩

theorem distinct_kept_alive (e : Endian) (config : Config) (events : List Event)
    (hclock : (events.map clock).Pairwise (· ≤ ·))
    (hcommand : ∀ now chunkfile outputfile, .command now chunkfile outputfile ∈ events →
      DistinctRequest config chunkfile) :
    KeptAlive e config (Peer.init : Peer R) events := by
  have hwhole : ∀ pre, (∀ event ∈ pre, event ∈ events) →
      Whole (run (step e config) (Peer.init : Peer R) pre).fileManager := by
    intro pre hpre
    refine run_invariant (G := fun _ event => event ∈ events)
      (I := fun p : Peer R => Whole p.fileManager) ?_ _ pre ?_ (along_of_forall _ _ fun _ => hpre)
    · intro p event hp hm
      exact whole_step e config p event hp fun now chunkfile outputfile he =>
        hcommand now chunkfile outputfile (he ▸ hm)
    · exact ⟨fun hopen => absurd hopen Bool.false_ne_true, fun _ => rfl, List.nodup_nil⟩
  rintro pre data mid timeout post rfl offset ha hr
  have hset := hwhole pre fun event hm => List.mem_append_left _ hm
  have hbefore : pre ++ data :: (mid ++ timeout :: post) =
      (pre ++ data :: mid) ++ timeout :: post := by
    simp
  have hexpires := hwhole (pre ++ data :: mid) fun event hm =>
    hbefore ▸ List.mem_append_left _ hm
  exact release_waits (clock_later hclock) (hset.refreshes e config data)
    (hexpires.timesOut timeout) ha hr

end Distinct

end P2PCC.Timeouts

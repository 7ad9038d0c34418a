import P2PCC.Receiving

namespace P2PCC.Tracking

open P2PCC.Lib.ByteOrder P2PCC.Lib.Runs P2PCC.Packet P2PCC.ChunkFile P2PCC.Tracker
open P2PCC.Sender P2PCC.Receiver P2PCC.Manager P2PCC.HandlePacket P2PCC.Peer P2PCC.Receiving

variable {R : Type}

/-- The packet the timeout loop sends for an entry. -/
def resend (e : Endian) (t : PacketTracker) : DataPacket :=
  { t.packet with header := { t.packet.header with seqNum := hton32 e (BitVec.ofInt 32 t.seq) } }

theorem resend_convert {e : Endian} {t : PacketTracker} {p : DataPacket} (hs : t.seq = p.seq)
    (hp : t.packet = p.convert e) : resend e t = p.convert e := by
  rw [resend, hs, hp, DataPacket.seq, BitVec.ofInt_toInt]
  rfl

theorem resend_new (e : Endian) (sock : Int) (p : DataPacket) (fromAddr : SockAddr)
    (sendTime expireTime : Int) :
    resend e ⟨sock, p.seq, fromAddr, sendTime, expireTime, p.convert e⟩ = p.convert e :=
  resend_convert rfl rfl

section Requests

theorem mem_broadcast {config : Config} {packets : List DataPacket} {m : SockAddr × DataPacket}
    (h : m ∈ broadcast config packets) : m.2 ∈ packets := by
  obtain ⟨packet, hp, hm⟩ := List.mem_flatMap.mp h
  obtain ⟨node, _, rfl⟩ := List.mem_map.mp hm
  exact hp

theorem whohasLoop_type (e : Endian) (ls : List ChunkLine) (n : Nat) (data : List Byte)
    (ret : List DataPacket) (h : ∀ p ∈ ret, p.header.packetType = 0) :
    ∀ r, (whohasLoop e ls n data ret).2 = some r → ∀ p ∈ r.2, p.header.packetType = 0 := by
  induction ls generalizing n data ret with
  | nil =>
    intro r hr
    obtain rfl := Option.some.inj hr
    exact h
  | cons l ls ih =>
    rw [whohasLoop]
    split
    · simp
    · split
      · exact ih _ _ _ (List.forall_mem_cons.mpr ⟨initPacket_packetType e 0 _ _, h⟩)
      · exact ih _ _ _ h

theorem generateWhohas_type (e : Endian) (config : Config) (now : Int)
    (chunkfile : Option (List ChunkLine)) (outputfile : List Byte) (peer : Peer R) :
    ∀ p ∈ (generateWhohas e config now chunkfile outputfile peer).2, p.header.packetType = 0 := by
  unfold generateWhohas
  cases chunkfile with
  | none => simp
  | some ls =>
    have htype := whohasLoop_type e ls 0 [] [] (by simp)
    dsimp only
    generalize whohasLoop e ls 0 [] [] = result at htype
    obtain ⟨n, _ | ⟨data, ret⟩⟩ := result
    · simp
    · exact List.forall_mem_cons.mpr ⟨initPacket_packetType e 0 _ _, htype _ rfl⟩

theorem regenerateWhohas_type (e : Endian) (config : Config) (now : Int) (peer : Peer R) :
    ∀ p ∈ (regenerateWhohas e config now peer).2, p.header.packetType = 0 := by
  apply regenerateWhohas_rule (I := fun st => ∀ p ∈ st.2.2, p.header.packetType = 0)
  · exact fun _ _ _ _ hst => List.forall_mem_cons.mpr ⟨initPacket_packetType e 0 _ _, hst⟩
  · simp

theorem broadcast_type {config : Config} {packets : List DataPacket}
    (h : ∀ p ∈ packets, p.header.packetType = 0) :
    ∀ m ∈ broadcast config packets.reverse, m.2.header.packetType = 0 :=
  fun m hm => h m.2 (List.mem_reverse.mp (mem_broadcast hm))

end Requests

def due (now : Int) (t : PacketTracker) : Bool :=
  decide (t.seq ≠ -441) && decide ((timerExpired now t).1 = -1)

section Retransmit

variable [Rate R]

omit [Rate R] in
theorem due_seq {now : Int} {t : PacketTracker} (h : due now t = true) : t.seq ≠ -441 := by
  rw [due, Bool.and_eq_true] at h
  exact of_decide_eq_true h.1

theorem retransmit_skip {now : Int} {t : PacketTracker} (h : due now t = false) (e : Endian)
    (ts : List PacketTracker) (list : List (Data R)) :
    retransmit e now (t :: ts) list = ((retransmit e now ts list).1,
      (timerExpired now t).2 :: (retransmit e now ts list).2.1,
      (retransmit e now ts list).2.2) := by
  rw [retransmit]
  unfold due at h
  unfold timerExpired at h ⊢
  by_cases hexp : now - t.sendTime ≥ 1
  · have hs : t.seq = -441 := by simpa [hexp] using h
    simp only [hexp, hs, ↓reduceIte]
  · simp only [hexp, ↓reduceIte]

theorem retransmit_resend {now : Int} {t : PacketTracker} (h : due now t = true) (e : Endian)
    (ts : List PacketTracker) (list : List (Data R)) :
    retransmit e now (t :: ts) list =
      ((retransmit e now ts (processPacketLoss t.packet.header.ackNum.toInt list)).1,
        { t with packet := resend e t, sendTime := now, expireTime := t.expireTime + 1 } ::
          (retransmit e now ts (processPacketLoss t.packet.header.ackNum.toInt list)).2.1,
        (t.fromAddr, resend e t) ::
          (retransmit e now ts (processPacketLoss t.packet.header.ackNum.toInt list)).2.2) := by
  have hs := due_seq h
  rw [retransmit]
  unfold due at h
  unfold timerExpired at h ⊢
  have hexp : now - t.sendTime ≥ 1 := by
    by_contra hlate
    simp [hlate] at h
  simp only [hexp, hs, ↓reduceIte]
  rfl

theorem retransmit_cons (e : Endian) (now : Int) (t : PacketTracker) (ts : List PacketTracker)
    (list : List (Data R)) :
    (∃ expireTime, retransmit e now (t :: ts) list = ((retransmit e now ts list).1,
        { t with expireTime := expireTime } :: (retransmit e now ts list).2.1,
        (retransmit e now ts list).2.2)) ∨
    (t.seq ≠ -441 ∧ ∃ socket expireTime, retransmit e now (t :: ts) list =
        ((retransmit e now ts (processPacketLoss socket list)).1,
        { t with packet := resend e t, sendTime := now, expireTime := expireTime } ::
          (retransmit e now ts (processPacketLoss socket list)).2.1,
        (t.fromAddr, resend e t) :: (retransmit e now ts (processPacketLoss socket list)).2.2)) := by
  cases h : due now t with
  | true => exact Or.inr ⟨due_seq h, _, _, retransmit_resend h e ts list⟩
  | false =>
    left
    rw [retransmit_skip h]
    unfold timerExpired
    split
    · exact ⟨t.expireTime + 1, rfl⟩
    · exact ⟨t.expireTime, rfl⟩

theorem retransmit_forall {Q : PacketTracker → Prop} (hq : Timeless Q) (e : Endian)
    (hresend : ∀ t, t.seq ≠ -441 → Q t → Q { t with packet := resend e t }) (now : Int)
    (pTracker : List PacketTracker) (list : List (Data R)) (h : ∀ t ∈ pTracker, Q t) :
    ∀ t ∈ (retransmit e now pTracker list).2.1, Q t := by
  induction pTracker generalizing list with
  | nil => exact h
  | cons t ts ih =>
    obtain ⟨ht, hts⟩ := List.forall_mem_cons.mp h
    obtain ⟨expireTime, heq⟩ | ⟨hs, socket, expireTime, heq⟩ := retransmit_cons e now t ts list
    · rw [heq]
      exact List.forall_mem_cons.mpr ⟨hq t t.sendTime expireTime ht, ih list hts⟩
    · rw [heq]
      exact List.forall_mem_cons.mpr
        ⟨hq _ now expireTime (hresend t hs ht), ih (processPacketLoss socket list) hts⟩

theorem retransmit_keeps {Q : PacketTracker → Prop} (hq : Timeless Q) (e : Endian)
    (hresend : ∀ t, t.seq ≠ -441 → Q t → Q { t with packet := resend e t }) (now : Int)
    (pTracker : List PacketTracker) (list : List (Data R)) (h : ∃ t ∈ pTracker, Q t) :
    ∃ t ∈ (retransmit e now pTracker list).2.1, Q t := by
  induction pTracker generalizing list with
  | nil => simp at h
  | cons t ts ih =>
    have hcases : Q t ∨ ∃ u ∈ ts, Q u := by simpa using h
    obtain ⟨expireTime, heq⟩ | ⟨hs, socket, expireTime, heq⟩ := retransmit_cons e now t ts list
    · rw [heq]
      obtain ht | hts := hcases
      · exact ⟨_, List.mem_cons_self, hq t t.sendTime expireTime ht⟩
      · obtain ⟨u, hu, hqu⟩ := ih list hts
        exact ⟨u, List.mem_cons_of_mem _ hu, hqu⟩
    · rw [heq]
      obtain ht | hts := hcases
      · exact ⟨_, List.mem_cons_self, hq _ now expireTime (hresend t hs ht)⟩
      · obtain ⟨u, hu, hqu⟩ := ih (processPacketLoss socket list) hts
        exact ⟨u, List.mem_cons_of_mem _ hu, hqu⟩

theorem retransmit_list {P : List (Data R) → Prop}
    (hloss : ∀ socket list, P list → P (processPacketLoss socket list)) (e : Endian) (now : Int)
    (pTracker : List PacketTracker) (list : List (Data R)) (h : P list) :
    P (retransmit e now pTracker list).1 := by
  induction pTracker generalizing list with
  | nil => exact h
  | cons t ts ih =>
    obtain ⟨_, heq⟩ | ⟨_, socket, _, heq⟩ := retransmit_cons e now t ts list
    · rw [heq]
      exact ih list h
    · rw [heq]
      exact ih _ (hloss socket list h)

theorem retransmit_sent (e : Endian) (now : Int) (pTracker : List PacketTracker)
    (list : List (Data R)) :
    ∀ m ∈ (retransmit e now pTracker list).2.2,
      ∃ t ∈ pTracker, t.seq ≠ -441 ∧ m = (t.fromAddr, resend e t) := by
  induction pTracker generalizing list with
  | nil => simp [retransmit]
  | cons t ts ih =>
    intro m hm
    obtain ⟨_, heq⟩ | ⟨hs, socket, _, heq⟩ := retransmit_cons e now t ts list
    · rw [heq] at hm
      obtain ⟨u, hu, hmu⟩ := ih list m hm
      exact ⟨u, List.mem_cons_of_mem _ hu, hmu⟩
    · rw [heq] at hm
      obtain rfl | hm := List.mem_cons.mp hm
      · exact ⟨t, List.mem_cons_self, hs, rfl⟩
      · obtain ⟨u, hu, hmu⟩ := ih _ m hm
        exact ⟨u, List.mem_cons_of_mem _ hu, hmu⟩

theorem retransmit_due (e : Endian) (now : Int) (pTracker : List PacketTracker)
    (list : List (Data R)) : (retransmit e now pTracker list).2.2 =
      (pTracker.filter (due now)).map (fun t => (t.fromAddr, resend e t)) := by
  induction pTracker generalizing list with
  | nil => rfl
  | cons t ts ih =>
    cases h : due now t with
    | true => rw [retransmit_resend h, ih, List.filter_cons_of_pos h, List.map_cons]
    | false => rw [retransmit_skip h, ih, List.filter_cons_of_neg (by simp [h])]

end Retransmit

/-- The tracker after the search of the sending loop, which counts up the
entries that have expired. -/
def bump (now : Int) (packet : DataPacket) (pTracker : List PacketTracker) : List PacketTracker :=
  pTracker.map (fun t => if sameHeader t packet then (timerExpired now t).2 else t)

theorem bump_forall {Q : PacketTracker → Prop} (hq : Timeless Q) (now : Int) (packet : DataPacket)
    {pTracker : List PacketTracker} (h : ∀ t ∈ pTracker, Q t) :
    ∀ t ∈ bump now packet pTracker, Q t := by
  intro t ht
  obtain ⟨u, hu, rfl⟩ := List.mem_map.mp ht
  split
  · exact timerExpired_timeless hq now u (h u hu)
  · exact h u hu

theorem bump_keeps {Q : PacketTracker → Prop} (hq : Timeless Q) (now : Int) (packet : DataPacket)
    {pTracker : List PacketTracker} (h : ∃ t ∈ pTracker, Q t) :
    ∃ t ∈ bump now packet pTracker, Q t := by
  obtain ⟨u, hu, hqu⟩ := h
  refine ⟨_, List.mem_map_of_mem hu, ?_⟩
  split
  · exact timerExpired_timeless hq now u hqu
  · exact hqu

section Responses

variable (e : Endian) (now : Int) (dummy : PacketTracker) (targetId : Int) (fromAddr : SockAddr)

/-- A DATA packet is sent and tracked, or held back when an entry with its
header has expired; any other packet is sent. -/
theorem sendResponse_cases (st : List PacketTracker × List (SockAddr × DataPacket))
    (packet : DataPacket) :
    (packet.header.packetType = 3 ∧ sendResponse e now dummy targetId fromAddr st packet =
      (createTimer now dummy (bump now packet st.1) packet.seq (packet.convert e) targetId fromAddr,
        st.2 ++ [(fromAddr, packet.convert e)])) ∨
    (packet.header.packetType = 3 ∧ (∃ t ∈ st.1, sameHeader t packet = true) ∧
      sendResponse e now dummy targetId fromAddr st packet = (bump now packet st.1, st.2)) ∨
    (packet.header.packetType ≠ 3 ∧ ∃ sent, (sent = packet.convert e ∨ sent = packet) ∧
      sendResponse e now dummy targetId fromAddr st packet =
        (bump now packet st.1, st.2 ++ [(fromAddr, sent)])) := by
  unfold sendResponse
  dsimp only
  by_cases ht : packet.header.packetType = 3
  · simp only [ht, ↓reduceIte]
    cases hf : st.1.any (fun t => sameHeader t packet && decide ((timerExpired now t).1 = -1)) with
    | false => exact Or.inl ⟨trivial, rfl⟩
    | true =>
      obtain ⟨t, hmem, hhit⟩ := List.any_eq_true.mp hf
      refine Or.inr (Or.inl ⟨trivial, ⟨t, hmem, ?_⟩, rfl⟩)
      exact (Bool.and_eq_true _ _ ▸ hhit).1
  · simp only [ht, ↓reduceIte]
    refine Or.inr (Or.inr ⟨ht, ?_⟩)
    split
    · exact ⟨_, Or.inl rfl, rfl⟩
    · exact ⟨_, Or.inr rfl, rfl⟩

/-- The sending loop from a state in the middle. -/
def sendFrom (st : List PacketTracker × List (SockAddr × DataPacket)) (packets : List DataPacket) :
    List PacketTracker × List (SockAddr × DataPacket) :=
  packets.foldl (sendResponse e now dummy targetId fromAddr) st

theorem sendFrom_forall {Q : PacketTracker → Prop} (hq : Timeless Q) (hdummy : Q (dummyHead dummy))
    (packets : List DataPacket)
    (hnew : ∀ p ∈ packets, p.header.packetType = 3 → ∀ sendTime expireTime,
      Q ⟨targetId, p.seq, fromAddr, sendTime, expireTime, p.convert e⟩)
    (st : List PacketTracker × List (SockAddr × DataPacket)) (h : ∀ t ∈ st.1, Q t) :
    ∀ t ∈ (sendFrom e now dummy targetId fromAddr st packets).1, Q t := by
  induction packets generalizing st with
  | nil => exact h
  | cons p packets ih =>
    have hb := bump_forall hq now p h
    rw [sendFrom, List.foldl_cons, ← sendFrom]
    apply ih fun c hc => hnew c (List.mem_cons_of_mem _ hc)
    obtain ⟨ht, heq⟩ | ⟨_, _, heq⟩ | ⟨_, _, _, heq⟩ :=
      sendResponse_cases e now dummy targetId fromAddr st p
    · rw [heq]
      exact createTimer_forall hq now dummy _ p.seq (p.convert e) targetId fromAddr hb hdummy
        (hnew p List.mem_cons_self ht)
    · rw [heq]
      exact hb
    · rw [heq]
      exact hb

theorem sendFrom_keeps {Q : PacketTracker → Prop} (hq : Timeless Q) (packets : List DataPacket)
    (st : List PacketTracker × List (SockAddr × DataPacket)) (h : ∃ t ∈ st.1, Q t) :
    ∃ t ∈ (sendFrom e now dummy targetId fromAddr st packets).1, Q t := by
  induction packets generalizing st with
  | nil => exact h
  | cons p packets ih =>
    have hb := bump_keeps hq now p h
    rw [sendFrom, List.foldl_cons, ← sendFrom]
    apply ih
    obtain ⟨_, heq⟩ | ⟨_, _, heq⟩ | ⟨_, _, _, heq⟩ :=
      sendResponse_cases e now dummy targetId fromAddr st p
    · rw [heq]
      exact createTimer_keeps hq now dummy _ p.seq (p.convert e) targetId fromAddr hb
    · rw [heq]
      exact hb
    · rw [heq]
      exact hb

theorem sendFrom_sent_old (packets : List DataPacket)
    (st : List PacketTracker × List (SockAddr × DataPacket)) :
    ∀ m ∈ st.2, m ∈ (sendFrom e now dummy targetId fromAddr st packets).2 := by
  induction packets generalizing st with
  | nil => exact fun m hm => hm
  | cons p packets ih =>
    intro m hm
    rw [sendFrom, List.foldl_cons, ← sendFrom]
    apply ih
    obtain ⟨_, heq⟩ | ⟨_, _, heq⟩ | ⟨_, _, _, heq⟩ :=
      sendResponse_cases e now dummy targetId fromAddr st p
    · rw [heq]
      exact List.mem_append_left _ hm
    · rw [heq]
      exact hm
    · rw [heq]
      exact List.mem_append_left _ hm

theorem sendFrom_sent {H : PacketTracker → Prop} {Q : DataPacket → PacketTracker → Prop}
    (hh : Timeless H) (hq : ∀ p, Timeless (Q p)) (hdummy : H (dummyHead dummy))
    (packets : List DataPacket)
    (hnew : ∀ p ∈ packets, p.header.packetType = 3 → ∀ sendTime expireTime,
      H ⟨targetId, p.seq, fromAddr, sendTime, expireTime, p.convert e⟩ ∧
        Q p ⟨targetId, p.seq, fromAddr, sendTime, expireTime, p.convert e⟩)
    (hold : ∀ p ∈ packets, p.header.packetType = 3 → ∀ t, H t → t.seq = p.seq → Q p t)
    (st : List PacketTracker × List (SockAddr × DataPacket)) (h : ∀ t ∈ st.1, H t) :
    ∀ m ∈ (sendFrom e now dummy targetId fromAddr st packets).2, m ∈ st.2 ∨
      ∃ p ∈ packets, m.1 = fromAddr ∧ (m.2 = p.convert e ∨ m.2 = p) ∧
        (p.header.packetType = 3 →
          m.2 = p.convert e ∧ ∃ t ∈ (sendFrom e now dummy targetId fromAddr st packets).1, Q p t) := by
  induction packets generalizing st with
  | nil => exact fun m hm => Or.inl hm
  | cons p packets ih =>
    intro m hm
    have hb := bump_forall hh now p h
    have hnew' := fun c hc => hnew c (List.mem_cons_of_mem p hc)
    have hold' := fun c hc => hold c (List.mem_cons_of_mem p hc)
    rw [sendFrom, List.foldl_cons, ← sendFrom] at hm ⊢
    have hlater : ∀ st', (∀ t ∈ st'.1, H t) →
        m ∈ (sendFrom e now dummy targetId fromAddr st' packets).2 → m ∈ st'.2 ∨
        ∃ q ∈ p :: packets, m.1 = fromAddr ∧ (m.2 = q.convert e ∨ m.2 = q) ∧
        (q.header.packetType = 3 → m.2 = q.convert e ∧
          ∃ t ∈ (sendFrom e now dummy targetId fromAddr st' packets).1, Q q t) := by
      intro st' hst hmem
      obtain hm | ⟨q, hqm, hrest⟩ := ih hnew' hold' st' hst m hmem
      · exact Or.inl hm
      · exact Or.inr ⟨q, List.mem_cons_of_mem p hqm, hrest⟩
    obtain ⟨ht, heq⟩ | ⟨_, _, heq⟩ | ⟨ht, sent, hsent, heq⟩ :=
      sendResponse_cases e now dummy targetId fromAddr st p
    · rw [heq] at hm ⊢
      have hc := createTimer_forall hh now dummy _ p.seq (p.convert e) targetId fromAddr hb hdummy
        (fun sendTime expireTime => (hnew p List.mem_cons_self ht sendTime expireTime).1)
      have hin := createTimer_mem (hq p) now dummy (bump now p st.1) p.seq (p.convert e) targetId
        fromAddr (fun sendTime expireTime => (hnew p List.mem_cons_self ht sendTime expireTime).2)
        (fun t htm hseq => hold p List.mem_cons_self ht t (hb t htm) hseq)
      obtain hm | hm := hlater _ hc hm
      · obtain hm | hm := List.mem_append.mp hm
        · exact Or.inl hm
        · obtain rfl := List.mem_singleton.mp hm
          exact Or.inr ⟨p, List.mem_cons_self, rfl, Or.inl rfl, fun _ =>
            ⟨rfl, sendFrom_keeps e now dummy targetId fromAddr (hq p) packets _ hin⟩⟩
      · exact Or.inr hm
    · rw [heq] at hm ⊢
      exact hlater _ hb hm
    · rw [heq] at hm ⊢
      obtain hm | hm := hlater _ hb hm
      · obtain hm | hm := List.mem_append.mp hm
        · exact Or.inl hm
        · obtain rfl := List.mem_singleton.mp hm
          exact Or.inr ⟨p, List.mem_cons_self, rfl, hsent, fun h3 => absurd h3 ht⟩
      · exact Or.inr hm

theorem sendFrom_all {H : PacketTracker → Prop} (hh : Timeless H) (hdummy : H (dummyHead dummy))
    (packets : List DataPacket)
    (hnew : ∀ p ∈ packets, p.header.packetType = 3 → ∀ sendTime expireTime,
      H ⟨targetId, p.seq, fromAddr, sendTime, expireTime, p.convert e⟩)
    (hfree : ∀ p ∈ packets, p.header.packetType = 3 → ∀ t, H t → sameHeader t p = false)
    (st : List PacketTracker × List (SockAddr × DataPacket)) (h : ∀ t ∈ st.1, H t) :
    ∀ p ∈ packets, p.header.packetType = 3 →
      (fromAddr, p.convert e) ∈ (sendFrom e now dummy targetId fromAddr st packets).2 := by
  induction packets generalizing st with
  | nil => simp
  | cons p packets ih =>
    intro q hq h3
    have hb := bump_forall hh now p h
    have hnew' := fun c hc => hnew c (List.mem_cons_of_mem p hc)
    have hfree' := fun c hc => hfree c (List.mem_cons_of_mem p hc)
    rw [sendFrom, List.foldl_cons, ← sendFrom]
    obtain rfl | hq := List.mem_cons.mp hq
    · obtain ⟨_, heq⟩ | ⟨_, ⟨t, htm, hsame⟩, _⟩ | ⟨ht, _⟩ :=
        sendResponse_cases e now dummy targetId fromAddr st q
      · rw [heq]
        exact sendFrom_sent_old e now dummy targetId fromAddr packets _ _ (by simp)
      · rw [hfree q List.mem_cons_self h3 t (h t htm)] at hsame
        cases hsame
      · exact absurd h3 ht
    · apply ih hnew' hfree' _ _ q hq h3
      obtain ⟨ht, heq⟩ | ⟨_, _, heq⟩ | ⟨_, _, _, heq⟩ :=
        sendResponse_cases e now dummy targetId fromAddr st p
      · rw [heq]
        exact createTimer_forall hh now dummy _ p.seq (p.convert e) targetId fromAddr hb hdummy
          (hnew p List.mem_cons_self ht)
      · rw [heq]
        exact hb
      · rw [heq]
        exact hb

theorem sendResponse_free (st : List PacketTracker × List (SockAddr × DataPacket))
    (packet : DataPacket) (h : ∀ t ∈ st.1, sameHeader t packet = false) :
    (sendResponse e now dummy targetId fromAddr st packet).2 =
      st.2 ++ [(fromAddr, packet.convert e)] := by
  have hfind : st.1.any (fun t => sameHeader t packet && decide ((timerExpired now t).1 = -1)) =
      false := by
    rw [List.any_eq_false]
    intro t ht
    rw [h t ht, Bool.false_and]
    exact Bool.false_ne_true
  unfold sendResponse
  dsimp only
  rw [hfind, if_pos rfl]
  split <;> rfl

theorem sendFrom_exact {H : PacketTracker → Prop} (hh : Timeless H) (hdummy : H (dummyHead dummy))
    (packets : List DataPacket)
    (hnew : ∀ p ∈ packets, p.header.packetType = 3 → ∀ sendTime expireTime,
      H ⟨targetId, p.seq, fromAddr, sendTime, expireTime, p.convert e⟩)
    (hfree : ∀ p ∈ packets, ∀ t, H t → sameHeader t p = false)
    (st : List PacketTracker × List (SockAddr × DataPacket)) (h : ∀ t ∈ st.1, H t) :
    (sendFrom e now dummy targetId fromAddr st packets).2 =
      st.2 ++ packets.map (fun p => (fromAddr, p.convert e)) := by
  induction packets generalizing st with
  | nil => simp [sendFrom]
  | cons p packets ih =>
    obtain ⟨hnewp, hnew'⟩ := List.forall_mem_cons.mp hnew
    obtain ⟨hfreep, hfree'⟩ := List.forall_mem_cons.mp hfree
    have hone : ∀ t ∈ (sendResponse e now dummy targetId fromAddr st p).1, H t :=
      sendFrom_forall e now dummy targetId fromAddr hh hdummy [p]
        (List.forall_mem_singleton.mpr hnewp) st h
    have hsent := sendResponse_free e now dummy targetId fromAddr st p
      fun t ht => hfreep t (h t ht)
    rw [sendFrom, List.foldl_cons, ← sendFrom, ih hnew' hfree' _ hone, hsent, List.append_assoc]
    rfl

end Responses

variable [Rate R]

theorem handleAck_subset (e : Endian) (socket ackNumber : Int) (list : List (Data R))
    (pTracker : List PacketTracker) :
    ∀ t ∈ (handleAck e socket ackNumber list pTracker).2.1, t ∈ pTracker := by
  cases hd : getDataBySocket socket list with
  | none => simp [handleAck, hd]
  | some data =>
    rw [handleAck_eq e ackNumber pTracker hd]
    exact (data.answer_answered e ackNumber pTracker).subset

theorem handleAck_isData (e : Endian) (socket ackNumber : Int) (list : List (Data R))
    (pTracker : List PacketTracker) :
    ∀ p ∈ (handleAck e socket ackNumber list pTracker).2.2, p.header.packetType = 3 := by
  cases hd : getDataBySocket socket list with
  | none => simp [handleAck, hd]
  | some data =>
    rw [handleAck_eq e ackNumber pTracker hd]
    intro p hp
    obtain ⟨index, rfl⟩ := (data.answer_answered e ackNumber pTracker).isData p hp
    exact dataPacket_packetType e data index

omit [Rate R] in
theorem sendData_isData (e : Endian) (socket : Int) (list : List (Data R)) :
    ∀ p ∈ (sendData e socket list).2, p.header.packetType = 3 := by
  unfold sendData
  cases getDataBySocket socket list with
  | none => simp
  | some data =>
    dsimp only
    rw [Data.send_eq]
    intro p hp
    obtain ⟨i, _, rfl⟩ := List.mem_map.mp (List.mem_reverse.mp hp)
    exact dataPacket_packetType e data _

omit [Rate R] in
theorem handleIhave_sending (e : Endian) (config : Config) (now sockfd : Int) (packet : DataPacket)
    (peer : Peer R) :
    (handleIhave e config now sockfd packet peer).1.pTracker = peer.pTracker ∧
      (handleIhave e config now sockfd packet peer).1.list = peer.list ∧
      ∀ p ∈ (handleIhave e config now sockfd packet peer).2, p.header.packetType = 2 := by
  apply handleIhave_rule (I := fun st => st.1.pTracker = peer.pTracker ∧
    st.1.list = peer.list ∧ ∀ p ∈ st.2, p.header.packetType = 2)
  · rintro _ _ _ _ _ _ _ _ _ ⟨htracker, hlist, hsent⟩
    exact ⟨htracker, hlist, List.forall_mem_cons.mpr ⟨initPacket_packetType e 2 _ _, hsent⟩⟩
  · simp

omit [Rate R] in
theorem handleData_reply (e : Endian) (now : Int) (stray : Stray) (sockfd : Int)
    (packet : DataPacket) (peer : Peer R) :
    (handleData e now stray sockfd packet peer).2 =
      ((recvData e stray.past packet sockfd peer.recvList).2.map Prod.fst).toList := rfl

/-- Only an ACK takes entries off the tracker, and nothing adds any before
the packets are sent. -/
theorem handlePacket_subset (e : Endian) (config : Config) (now : Int) (stray : Stray)
    (packet : DataPacket) (sockfd : Int) (peer : Peer R) :
    ∀ t ∈ (handlePacket e config now stray packet sockfd peer).1.pTracker, t ∈ peer.pTracker := by
  have h := handlePacket_handled e config now stray packet sockfd peer
  generalize handlePacket e config now stray packet sockfd peer = handled at h
  generalize (packet.ntoh e).header.packetType = type at h
  cases h with
  | whohas => exact fun t ht => ht
  | ihave =>
    rw [(handleIhave_sending e config now sockfd _ peer).1]
    exact fun t ht => ht
  | get => exact fun t ht => ht
  | data => exact fun t ht => ht
  | ack => exact handleAck_subset e sockfd _ peer.list peer.pTracker
  | invalid type h => exact fun t ht => ht

/-- What `handle_packet` answers each kind of packet with. -/
def replyType (type : Byte) : Byte :=
  if type = 0 then 1 else if type = 1 then 2 else if type = 3 then 4 else 3

theorem handlePacket_replyType (e : Endian) (config : Config) (now : Int) (stray : Stray)
    (packet : DataPacket) (sockfd : Int) (peer : Peer R) :
    ∀ p ∈ (handlePacket e config now stray packet sockfd peer).2,
      p.header.packetType = replyType packet.header.packetType := by
  have h := handlePacket_handled e config now stray packet sockfd peer
  rw [ntoh_packetType] at h
  generalize handlePacket e config now stray packet sockfd peer = handled at h
  generalize packet.header.packetType = type at h
  cases h with
  | whohas =>
    unfold handleWhohas
    cases readChunkfile config.hasChunkFile with
    | none => simp
    | some localHas =>
      intro p hp
      dsimp only at hp
      split at hp
      · simp at hp
      · rw [List.mem_singleton.mp hp, initPacket_packetType]
        rfl
  | ihave => exact (handleIhave_sending e config now sockfd _ peer).2.2
  | get => exact sendData_isData e sockfd _
  | data =>
    rw [handleData_reply]
    obtain ⟨hn, _⟩ | ⟨_, _, b, _, _, _, _, hr⟩ :=
      recvData_cases e stray.past (packet.ntoh e) sockfd peer.recvList
    · simp [hn]
    · simp only [hr, Option.map_some, Option.toList_some, List.mem_singleton, forall_eq,
        ackPacket_packetType]
      rfl
  | ack => exact handleAck_isData e sockfd _ peer.list peer.pTracker
  | invalid type h => simp

theorem sendResponses_eq (e : Endian) (now : Int) (dummy : PacketTracker) (targetId : Int)
    (fromAddr : SockAddr) (responses : List DataPacket) (pTracker : List PacketTracker) :
    sendResponses e now dummy targetId fromAddr responses pTracker =
      sendFrom e now dummy targetId fromAddr (pTracker, []) responses.reverse := rfl

omit [Rate R] in
theorem generateWhohas_sending (e : Endian) (config : Config) (now : Int)
    (chunkfile : Option (List ChunkLine)) (outputfile : List Byte) (peer : Peer R) :
    (generateWhohas e config now chunkfile outputfile peer).1.pTracker = peer.pTracker ∧
      (generateWhohas e config now chunkfile outputfile peer).1.list = peer.list := by
  obtain ⟨fm, heq, _⟩ := generateWhohas_opens e config now chunkfile outputfile peer
  rw [heq]
  exact ⟨rfl, rfl⟩

omit [Rate R] in
theorem regenerateWhohas_sending (e : Endian) (config : Config) (now : Int) (peer : Peer R) :
    (regenerateWhohas e config now peer).1.pTracker = peer.pTracker ∧
      (regenerateWhohas e config now peer).1.list = peer.list := by
  unfold regenerateWhohas
  split <;> exact ⟨rfl, rfl⟩

/-- A property of tracker entries that does not depend on their clocks is
kept when it holds of what an event puts on the tracker. -/
theorem step_tracker {Q : PacketTracker → Prop} (hq : Timeless Q) (e : Endian) (config : Config)
    (hdummy : ∀ uninit, Q (dummyHead uninit))
    (hresend : ∀ t, t.seq ≠ -441 → Q t → Q { t with packet := resend e t }) (peer : Peer R)
    (event : Event)
    (hnew : ∀ now stray fromAddr packet d, event = .inbound now stray fromAddr packet →
      delivery e config event = some d →
      ∀ p ∈ (handlePacket e config now stray packet d.sockfd peer).2, p.header.packetType = 3 →
        ∀ sendTime expireTime, Q ⟨d.sockfd, p.seq, fromAddr, sendTime, expireTime, p.convert e⟩)
    (h : ∀ t ∈ peer.pTracker, Q t) : ∀ t ∈ (step e config peer event).pTracker, Q t := by
  cases event with
  | command now chunkfile outputfile =>
    rw [step, act, (generateWhohas_sending e config now chunkfile outputfile peer).1]
    exact h
  | tick now =>
    rw [step, act, peerTick]
    apply retransmit_forall hq e hresend now
    rwa [(regenerateWhohas_sending e config now peer).1]
  | inbound now stray fromAddr packet =>
    cases hd : delivery e config (.inbound now stray fromAddr packet) with
    | none =>
      rw [step, act, processInboundUdp_none hd]
      exact h
    | some d =>
      have hmem := hnew now stray fromAddr packet d rfl hd
      rw [step, act, processInboundUdp_some hd]
      refine sendFrom_forall e now stray.dummy d.sockfd fromAddr hq (hdummy stray.dummy) _ ?_ _ ?_
      · exact fun p hp => hmem p (List.mem_reverse.mp hp)
      · exact fun t ht => h t (handlePacket_subset e config now stray packet d.sockfd peer t ht)

/-- Everything an inbound packet causes to be sent is a response of
`handle_packet`, in either byte order. -/
theorem inbound_sent (e : Endian) {config : Config} {now : Int} {stray : Stray}
    {fromAddr : SockAddr} {packet : DataPacket} {d : Delivery}
    (hd : delivery e config (.inbound now stray fromAddr packet) = some d) (peer : Peer R) :
    ∀ m ∈ (act e config peer (.inbound now stray fromAddr packet)).2,
      ∃ p ∈ (handlePacket e config now stray packet d.sockfd peer).2,
        m.1 = fromAddr ∧ (m.2 = p.convert e ∨ m.2 = p) ∧
          (p.header.packetType = 3 → m.2 = p.convert e) := by
  intro m hm
  rw [act, processInboundUdp_some hd] at hm
  obtain hm | ⟨p, hp, haddr, hpacket, hdata⟩ := sendFrom_sent e now stray.dummy d.sockfd fromAddr
    (H := fun _ => True) (Q := fun _ _ => True) (fun _ _ _ _ => trivial)
    (fun _ _ _ _ _ => trivial) trivial _ (fun _ _ _ _ _ => ⟨trivial, trivial⟩)
    (fun _ _ _ _ _ _ => trivial) (_, []) (fun _ _ => trivial) m hm
  · simp at hm
  · exact ⟨p, List.mem_reverse.mp hp, haddr, hpacket, fun h => (hdata h).1⟩

/-- The entries that can be sent again hold DATA packets. -/
def TracksData (peer : Peer R) : Prop :=
  ∀ t ∈ peer.pTracker, t.seq ≠ -441 → t.packet.header.packetType = 3

theorem tracksData_step (e : Endian) (config : Config) (peer : Peer R) (event : Event)
    (h : TracksData peer) : TracksData (step e config peer event) := by
  refine step_tracker (Q := fun t => t.seq ≠ -441 → t.packet.header.packetType = 3) ?_ e config
    ?_ ?_ peer event ?_ h
  · exact fun t sendTime expireTime ht => ht
  · exact fun uninit hs => absurd rfl hs
  · exact fun t _ ht => ht
  · exact fun now stray fromAddr packet d _ _ p _ h3 _ _ _ => h3

end P2PCC.Tracking

import P2PCC.Lib.FirstMatch
import P2PCC.Packet

namespace P2PCC.Tracker

open P2PCC.Lib.ByteOrder P2PCC.Lib.FirstMatch P2PCC.Packet

structure PacketTracker where
  sock : Int
  seq : Int
  fromAddr : SockAddr
  sendTime : Int
  expireTime : Int
  packet : DataPacket
deriving DecidableEq, Repr

/-- The head `create_timer` puts in front of the first entry. Only `seq` is
written; the rest is what `malloc` returned. -/
def dummyHead (uninit : PacketTracker) : PacketTracker := { uninit with seq := -441 }

/-- `packet` is the object the entry points to, as its sender leaves it. -/
def createTimer (now : Int) (uninit : PacketTracker) (pTracker : List PacketTracker) (seq : Int)
    (packet : DataPacket) (sock : Int) (fromAddr : SockAddr) : List PacketTracker :=
  let entry : PacketTracker :=
    { sock := sock, seq := seq, fromAddr := fromAddr, sendTime := now, expireTime := 0,
      packet := packet }
  match pTracker with
  | [] => [dummyHead uninit, entry]
  | _ :: _ =>
    if pTracker.any (fun t => t.seq = seq) then
      modifyFirst (fun t => t.seq = seq) (fun t => { t with sendTime := now }) pTracker
    else pTracker ++ [entry]

def timerExpired (now : Int) (pTracker : PacketTracker) : Int × PacketTracker :=
  if now - pTracker.sendTime ≥ 1 then (-1, { pTracker with expireTime := pTracker.expireTime + 1 })
  else (0, pTracker)

def removeFromTracker (current : List PacketTracker) (socket seq : Int) :
    Int × List PacketTracker :=
  let hit := fun t : PacketTracker => decide (t.sock = socket ∧ t.seq - 1 = seq)
  if current.any hit then (1, current.eraseP hit) else (-1, current)

/-- A property of entries that their two clock fields do not affect. -/
def Timeless (Q : PacketTracker → Prop) : Prop :=
  ∀ t sendTime expireTime, Q t → Q { t with sendTime := sendTime, expireTime := expireTime }

theorem timerExpired_timeless {Q : PacketTracker → Prop} (hq : Timeless Q) (now : Int)
    (t : PacketTracker) (ht : Q t) : Q (timerExpired now t).2 := by
  unfold timerExpired
  split
  · exact hq t t.sendTime (t.expireTime + 1) ht
  · exact ht

theorem createTimer_forall {Q : PacketTracker → Prop} (hq : Timeless Q) (now : Int)
    (uninit : PacketTracker) (pTracker : List PacketTracker) (seq : Int) (packet : DataPacket)
    (sock : Int) (fromAddr : SockAddr) (hold : ∀ t ∈ pTracker, Q t) (hdummy : Q (dummyHead uninit))
    (hnew : ∀ sendTime expireTime, Q ⟨sock, seq, fromAddr, sendTime, expireTime, packet⟩) :
    ∀ t ∈ createTimer now uninit pTracker seq packet sock fromAddr, Q t := by
  unfold createTimer
  cases pTracker with
  | nil =>
    intro t ht
    rcases List.mem_cons.mp ht with rfl | ht
    · exact hdummy
    · rw [List.mem_singleton.mp ht]
      exact hnew now 0
  | cons c cs =>
    simp only
    split
    · apply forall_modifyFirst hold
      intro t ht
      exact hq t now t.expireTime (hold t (List.mem_of_find?_eq_some ht))
    · intro t ht
      rcases List.mem_append.mp ht with ht | ht
      · exact hold t ht
      · rw [List.mem_singleton.mp ht]
        exact hnew now 0

/-- `create_timer` never drops an entry. -/
theorem createTimer_keeps {Q : PacketTracker → Prop} (hq : Timeless Q) (now : Int)
    (uninit : PacketTracker) (pTracker : List PacketTracker) (seq : Int) (packet : DataPacket)
    (sock : Int) (fromAddr : SockAddr) (hold : ∃ t ∈ pTracker, Q t) :
    ∃ t ∈ createTimer now uninit pTracker seq packet sock fromAddr, Q t := by
  obtain ⟨t, ht, hqt⟩ := hold
  unfold createTimer
  cases pTracker with
  | nil => simp at ht
  | cons c cs =>
    simp only
    split
    · by_cases hf : ∃ u, (c :: cs).find? (fun t => decide (t.seq = seq)) = some u
      · obtain ⟨u, hu⟩ := hf
        obtain ⟨l₁, l₂, hl, _, _, hm⟩ := modifyFirst_split hu
        rw [hl] at ht
        rw [hm]
        rcases List.mem_append.mp ht with ht | ht
        · exact ⟨t, by simp [ht], hqt⟩
        · rcases List.mem_cons.mp ht with rfl | ht
          · exact ⟨{ t with sendTime := now }, by simp, hq t now t.expireTime hqt⟩
          · exact ⟨t, by simp [ht], hqt⟩
      · have hn : (c :: cs).find? (fun t => decide (t.seq = seq)) = none := by
          cases hc : (c :: cs).find? (fun t => decide (t.seq = seq)) with
          | none => rfl
          | some u => exact absurd ⟨u, hc⟩ hf
        rw [modifyFirst_none hn]
        exact ⟨t, ht, hqt⟩
    · exact ⟨t, List.mem_append_left _ ht, hqt⟩

theorem createTimer_mem {Q : PacketTracker → Prop} (hq : Timeless Q) (now : Int)
    (uninit : PacketTracker) (pTracker : List PacketTracker) (seq : Int) (packet : DataPacket)
    (sock : Int) (fromAddr : SockAddr)
    (hnew : ∀ sendTime expireTime, Q ⟨sock, seq, fromAddr, sendTime, expireTime, packet⟩)
    (hold : ∀ t ∈ pTracker, t.seq = seq → Q t) :
    ∃ t ∈ createTimer now uninit pTracker seq packet sock fromAddr, Q t := by
  by_cases hs : ∃ t ∈ pTracker, t.seq = seq
  · obtain ⟨t, ht, hts⟩ := hs
    exact createTimer_keeps hq now uninit pTracker seq packet sock fromAddr ⟨t, ht, hold t ht hts⟩
  · have hany : pTracker.any (fun t => decide (t.seq = seq)) = false := by
      rw [List.any_eq_false]
      intro t ht
      rw [decide_eq_true_eq]
      exact fun he => hs ⟨t, ht, he⟩
    unfold createTimer
    cases pTracker with
    | nil => exact ⟨_, by simp, hnew now 0⟩
    | cons c cs =>
      simp only [hany, Bool.false_eq_true, ↓reduceIte]
      exact ⟨_, List.mem_append_right _ (List.mem_singleton.mpr rfl), hnew now 0⟩

theorem removeFromTracker_subset (pTracker : List PacketTracker) (socket seq : Int) :
    ∀ t ∈ (removeFromTracker pTracker socket seq).2, t ∈ pTracker := by
  unfold removeFromTracker
  simp only
  split
  · exact fun t ht => List.mem_of_mem_eraseP ht
  · exact fun t ht => ht

theorem removeFromTracker_keeps (pTracker : List PacketTracker) (socket seq : Int)
    (t : PacketTracker) (ht : t ∈ pTracker) (hkey : ¬(t.sock = socket ∧ t.seq - 1 = seq)) :
    t ∈ (removeFromTracker pTracker socket seq).2 := by
  unfold removeFromTracker
  simp only
  split
  · exact (List.mem_eraseP_of_neg (by simpa using hkey)).mpr ht
  · exact ht

end P2PCC.Tracker

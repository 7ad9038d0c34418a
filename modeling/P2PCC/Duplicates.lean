import P2PCC.Lib.Runs
import P2PCC.Lib.Streak
import P2PCC.Sender

namespace P2PCC.Duplicates

open P2PCC.Lib.ByteOrder P2PCC.Lib.Runs P2PCC.Lib.Streak P2PCC.Packet P2PCC.Tracker P2PCC.Sender

variable {R : Type}

/-- A call of `check_return_ack`, with the number as the `int` it takes. -/
def check (data : Data R) (ack : BitVec 32) : Int × Data R := checkReturnAck data ack.toInt

def checked (data : Data R) (acks : List (BitVec 32)) : Data R :=
  run (fun data ack => (check data ack).2) data acks

theorem checked_concat (data : Data R) (acks : List (BitVec 32)) (ack : BitVec 32) :
    checked data (acks ++ [ack]) = (check (checked data acks) ack).2 := by
  rw [checked, run_append]
  rfl

theorem check_same {data : Data R} {ack : BitVec 32} (h : data.prevAck = ack) :
    check data ack = (if 1 ≤ data.countAck then 1 else 0,
      { data with countAck := data.countAck + 1 }) := by
  have hreach : data.countAck + 1 ≥ 2 ↔ 1 ≤ data.countAck := by omega
  rw [check, checkReturnAck, BitVec.ofInt_toInt, if_pos h]
  simp only [hreach]
  split <;> rfl

theorem check_other {data : Data R} {ack : BitVec 32} (h : data.prevAck ≠ ack) :
    check data ack = (0, { data with countAck := 0, prevAck := ack }) := by
  rw [check, checkReturnAck, BitVec.ofInt_toInt, if_neg h]

/-- What the two fields say of the numbers so far. While all of them are the
number that was there before, its count goes on. -/
structure Counts (data : Data R) (acks : List (BitVec 32)) (after : Data R) : Prop where
  other : ∀ a, after.prevAck ≠ a → streak a acks = 0
  first : streak data.prevAck acks = acks.length →
    after.prevAck = data.prevAck ∧ after.countAck = data.countAck + acks.length
  count : streak data.prevAck acks ≠ acks.length →
    after.countAck = streak after.prevAck acks - 1

theorem counts_check {data after : Data R} {acks : List (BitVec 32)} (h : Counts data acks after)
    (ack : BitVec 32) : Counts data (acks ++ [ack]) (check after ack).2 := by
  have hlength : (acks ++ [ack]).length = acks.length + 1 := List.length_append
  by_cases hsame : after.prevAck = ack
  · rw [check_same hsame]
    refine ⟨fun a ha => streak_concat_other (hsame ▸ ha) acks, ?_, ?_⟩
    · intro hall
      obtain ⟨_, hfull⟩ := streak_concat_full hall
      obtain ⟨hprev, hcount⟩ := h.first hfull
      refine ⟨hprev, ?_⟩
      rw [hlength]
      push_cast
      omega
    · intro hsome
      have hbefore : streak data.prevAck acks ≠ acks.length := by
        intro hall
        have hp : ack = data.prevAck := hsame.symm.trans (h.first hall).1
        rw [hp, streak_concat_self, List.length_append, List.length_singleton, hall] at hsome
        exact hsome rfl
      have hcount := h.count hbefore
      dsimp only
      rw [hsame] at hcount ⊢
      rw [streak_concat_self]
      push_cast
      omega
  · rw [check_other hsame]
    have hzero := h.other ack hsame
    refine ⟨fun a ha => streak_concat_other ha acks, ?_, ?_⟩
    · intro hall
      obtain ⟨hp, hfull⟩ := streak_concat_full hall
      exact absurd ((h.first hfull).1.trans hp.symm) hsame
    · intro _
      dsimp only
      rw [streak_concat_self, hzero]
      rfl

theorem counts_checked (data : Data R) (acks : List (BitVec 32)) :
    Counts data acks (checked data acks) := by
  induction acks using List.reverseRecOn with
  | nil =>
    refine ⟨fun _ _ => rfl, fun _ => ⟨rfl, ?_⟩, fun h => absurd rfl h⟩
    rw [List.length_nil, Nat.cast_zero, add_zero]
    rfl
  | append_singleton acks ack ih =>
    rw [checked_concat]
    exact counts_check ih ack

/-- Every call returns 1 exactly for an ACK whose two predecessors carry its
number, and the count stays an `int`. -/
def Detects (data : Data R) (acks : List (BitVec 32)) : Prop :=
  ∀ pre ack post, acks = pre ++ ack :: post →
    ((check (checked data pre) ack).1 = 1 ↔ [ack, ack] <:+ pre) ∧
      ((checked data pre).prevAck = ack → (checked data pre).countAck + 1 ≤ 2147483647)

/-- The values the two fields start with do not show in the answers, and no
number comes so often in a row that the count passes the largest `int`. -/
structure Harmless (prevAck : BitVec 32) (countAck : Int) (acks : List (BitVec 32)) : Prop where
  one : List.replicate 1 prevAck <+: acks → countAck ≤ 0
  two : List.replicate 2 prevAck <+: acks → countAck ≤ -1
  three : List.replicate 3 prevAck <+: acks → -1 ≤ countAck
  long : ∀ a n, List.replicate n a <:+: acks → n ≤ 2147483648

theorem pair_suffix_iff {ack : BitVec 32} {acks : List (BitVec 32)} :
    [ack, ack] <:+ acks ↔ 2 ≤ streak ack acks := by
  rw [← replicate_suffix_iff]
  rfl

/-- The answer to one more number is right unless the numbers so far, and this
one, are the number that was there before. -/
theorem check_counts {data after : Data R} {acks : List (BitVec 32)} (h : Counts data acks after)
    (ack : BitVec 32) :
    ((check after ack).1 = 1 ↔ [ack, ack] <:+ acks) ↔
      (streak data.prevAck acks = acks.length → ack = data.prevAck →
        (1 ≤ data.countAck + acks.length ↔ 2 ≤ acks.length)) := by
  have hanswer : (check after ack).1 = 1 ↔ after.prevAck = ack ∧ 1 ≤ after.countAck := by
    by_cases hsame : after.prevAck = ack
    · rw [check_same hsame]
      simp [hsame]
    · rw [check_other hsame]
      simp [hsame]
  rw [hanswer, pair_suffix_iff]
  by_cases hall : streak data.prevAck acks = acks.length
  · obtain ⟨hprev, hcount⟩ := h.first hall
    by_cases hack : ack = data.prevAck
    · subst hack
      rw [hcount, hall]
      simp [hprev]
    · have hne : after.prevAck ≠ ack := fun he => hack (he.symm.trans hprev)
      rw [h.other ack hne]
      simp [hack, hne]
  · have hcount := h.count hall
    by_cases hsame : after.prevAck = ack
    · rw [hsame] at hcount
      simp only [hsame, hcount, hall, true_and, false_implies, iff_true]
      omega
    · rw [h.other ack hsame]
      simp [hall, hsame]

theorem repeats_first {p ack : BitVec 32} {pre : List (BitVec 32)} (post : List (BitVec 32))
    (hall : streak p pre = pre.length) (hack : ack = p) {n : Nat} (hn : n ≤ pre.length + 1) :
    List.replicate n p <+: pre ++ ack :: post := by
  have hpost : pre ++ [ack] <+: pre ++ ack :: post := ⟨post, by simp⟩
  refine List.IsPrefix.trans ?_ hpost
  rw [hack, streak_eq_length_iff.mp hall, ← List.replicate_succ']
  exact List.prefix_replicate_iff.mpr ⟨by rw [List.length_replicate]; omega, by simp⟩

section Answers

variable {data : Data R} {acks : List (BitVec 32)}

theorem detects_first (h : Detects data acks) (n : Nat)
    (hn : List.replicate (n + 1) data.prevAck <+: acks) :
    1 ≤ data.countAck + n ↔ 2 ≤ n := by
  obtain ⟨post, hpost⟩ := hn
  have hsplit : acks = List.replicate n data.prevAck ++ data.prevAck :: post := by
    rw [← hpost, List.replicate_succ', List.append_assoc, List.singleton_append]
  have hanswer := (h _ _ _ hsplit).1
  have hall : streak data.prevAck (List.replicate n data.prevAck) =
      (List.replicate n data.prevAck).length := by
    rw [streak_eq_length_iff, List.length_replicate]
  have hfirst := (check_counts (counts_checked data _) _).mp hanswer hall rfl
  rw [List.length_replicate] at hfirst
  exact hfirst

theorem detects_long (h : Detects data acks) (a : BitVec 32) (n : Nat)
    (hn : List.replicate n a <:+: acks) : n ≤ 2147483648 := by
  by_cases hsmall : n ≤ 2
  · omega
  · obtain ⟨m, rfl⟩ : ∃ m, n = m + 1 := ⟨n - 1, by omega⟩
    obtain ⟨older, post, hpost⟩ := hn
    have hsplit : acks = (older ++ List.replicate m a) ++ a :: post := by
      rw [← hpost, List.replicate_succ']
      simp only [List.append_assoc, List.singleton_append]
    obtain ⟨_, hint⟩ := h _ _ _ hsplit
    have hcounts := counts_checked data (older ++ List.replicate m a)
    have hstreak : m ≤ streak a (older ++ List.replicate m a) :=
      replicate_suffix_iff.mp (List.suffix_append _ _)
    have hprev : (checked data (older ++ List.replicate m a)).prevAck = a := by
      by_contra hne
      have := hcounts.other a hne
      omega
    have hcount := hint hprev
    by_cases hall : streak data.prevAck (older ++ List.replicate m a) =
        (older ++ List.replicate m a).length
    · obtain ⟨hfirst, hsum⟩ := hcounts.first hall
      have hlong := streak_le_length a (older ++ List.replicate m a)
      have hthree : List.replicate 3 data.prevAck <+: acks := by
        rw [hsplit]
        exact repeats_first post hall (hprev.symm.trans hfirst) (by omega)
      have := (detects_first h 2 hthree).mpr le_rfl
      omega
    · have hsum := hcounts.count hall
      rw [hprev] at hsum
      omega

theorem harmless_of_detects (h : Detects data acks) :
    Harmless data.prevAck data.countAck acks := by
  refine ⟨fun hn => ?_, fun hn => ?_, fun hn => ?_, detects_long h⟩
  · have := detects_first h 0 hn
    omega
  · have := detects_first h 1 hn
    omega
  · have := detects_first h 2 hn
    omega

theorem detects_of_harmless (h : Harmless data.prevAck data.countAck acks) :
    Detects data acks := by
  rintro pre ack post rfl
  have hcounts := counts_checked data pre
  have hpost : pre ++ [ack] <+: pre ++ ack :: post := ⟨post, by simp⟩
  constructor
  · rw [check_counts hcounts]
    intro hall hack
    have hone := h.one (repeats_first post hall hack (by omega))
    constructor
    · intro hcount
      by_contra hshort
      have htwo := h.two (repeats_first post hall hack (by omega))
      omega
    · intro hlong
      have hthree := h.three (repeats_first post hall hack (by omega))
      omega
  · intro hprev
    have hrun := h.long ack (streak ack pre + 1)
      (((replicate_suffix_iff.mpr (streak_concat_self ack pre).ge).isInfix).trans hpost.isInfix)
    by_cases hall : streak data.prevAck pre = pre.length
    · obtain ⟨hfirst', hcount⟩ := hcounts.first hall
      have hack : ack = data.prevAck := hprev.symm.trans hfirst'
      have hone := h.one (repeats_first post hall hack (by omega))
      rw [hack] at hrun
      by_cases hz : pre.length = 0
      · omega
      · have htwo := h.two (repeats_first post hall hack (by omega))
        omega
    · have hcount := hcounts.count hall
      rw [hprev] at hcount
      omega

end Answers

variable [Rate R]

def marks (data : Data R) : BitVec 32 × Int := (data.prevAck, data.countAck)

omit [Rate R] in
theorem marks_check {data other : Data R} (h : marks data = marks other) (ack : BitVec 32) :
    marks (check data ack).2 = marks (check other ack).2 := by
  obtain ⟨hprev, hcount⟩ := Prod.mk.inj h
  by_cases hsame : data.prevAck = ack
  · rw [check_same hsame, check_same (hprev ▸ hsame)]
    simp only [marks, hprev, hcount]
  · rw [check_other hsame, check_other (hprev ▸ hsame)]
    rfl

theorem marks_answer (e : Endian) (data : Data R) (pTracker : List PacketTracker)
    {ack : BitVec 32} (hack : ack.toInt ≤ 512) :
    marks (data.answer e ack.toInt pTracker).1 = marks (check data ack).2 := by
  rw [check]
  obtain ⟨_, hprev, hcount, hd⟩ | ⟨_, hfresh, hd⟩ := checkReturnAck_spec data ack.toInt
  · rw [answer_third e pTracker hack ⟨hprev, hcount⟩, hd]
    split <;> rfl
  · have hnot : ¬Third data ack.toInt := fun hthird => by
      have := hfresh hthird.1
      have := hthird.2
      omega
    rw [answer_fresh e pTracker hack hnot, hd]
    obtain ⟨m, tracker, h | h⟩ :=
      acceptAck_cases data.socket ack.toInt (data.noteAck ack.toInt) pTracker
    · rw [h]
      rfl
    · have hagree := congestionControl_agree ({ (data.noteAck ack.toInt).ackRange
        ((data.noteAck ack.toInt).windowStart + 1) m with windowStart := ack.toInt } : Data R)
      rw [h]
      dsimp only
      rw [Data.send_eq]
      exact Prod.ext hagree.prevAck hagree.countAck

theorem marks_run (e : Endian) (acks : List (BitVec 32)) (hacks : ∀ a ∈ acks, a.toInt ≤ 512)
    (data : Data R) (pTracker : List PacketTracker) :
    marks (run (fun (s : Data R × List PacketTracker) (ack : BitVec 32) =>
      ((s.1.answer e ack.toInt s.2).1, (s.1.answer e ack.toInt s.2).2.1))
        (data, pTracker) acks).1 = marks (checked data acks) := by
  induction acks using List.reverseRecOn with
  | nil => rfl
  | append_singleton acks ack ih =>
    rw [run_append, checked_concat, run_cons, run_nil]
    dsimp only
    rw [marks_answer e _ _ (hacks ack (by simp))]
    exact marks_check (ih fun a ha => hacks a (List.mem_append_left _ ha)) ack

/-- The calls on a new transfer detect duplicates exactly when the numbers
it is acknowledged with do not bring out what its memory held before. -/
theorem detects_iff (uninit : Uninit) (socket offset : Int) (content : Int → Byte)
    (acks : List (BitVec 32)) :
    Detects (newElement uninit socket offset content : Data R) acks ↔
      Harmless uninit.prevAck uninit.countAck acks :=
  ⟨fun h => harmless_of_detects h, fun h => detects_of_harmless h⟩

/-- The first ACK of a transfer, taken for a third duplicate. -/
theorem detects_first_ack :
    ¬∀ (uninit : Uninit) (acks : List (BitVec 32)),
      Detects (newElement uninit 2 7 (fun _ => 0) : Data ℚ) acks := by
  intro h
  have hfirst := (h ⟨0, 1, fun _ => .unsend⟩ [0] [] 0 [] rfl).1
  exact absurd (hfirst.mp (by decide +kernel)) (by decide)

end P2PCC.Duplicates

import P2PCC.Receiver

namespace P2PCC.Manager

open P2PCC.Packet P2PCC.Receiver

/-- `offset` and `timer` are the memory behind the pointers: empty while
nothing is allocated. -/
structure FileManager where
  init : Bool
  chunkCount : Nat
  offset : List Int
  top : Nat
  timer : List Int
  alreadyUsed : List (Int × SockAddr)
deriving DecidableEq, Repr

/-- The static storage the program starts with. -/
def FileManager.empty : FileManager :=
  { init := false, chunkCount := 0, offset := [], top := 0, timer := [], alreadyUsed := [] }

/-- The offsets the loops over `chunk_count` read. -/
def FileManager.requested (fm : FileManager) : List Int := fm.offset.take fm.chunkCount

/-- The index the loops of `handle_packet` stop at: the first entry with the
offset, or `chunk_count` when there is none. -/
def FileManager.timerSlot (fm : FileManager) (offset : Int) : Nat :=
  ((List.range fm.chunkCount).find? (fun j => fm.offset[j]? = some offset)).getD fm.chunkCount

def FileManager.touch (fm : FileManager) (offset now : Int) : FileManager :=
  { fm with timer := fm.timer.set (fm.timerSlot offset) now }

/-- The second loop of `check_file_manager`: release the full chunks, up to
the first that is missing. The flag says that none is. -/
def releaseFull : List Int → List RecvBuffer → Bool × List RecvBuffer
  | [], recvList => (true, recvList)
  | offset :: offsets, recvList =>
    if isBufferFull offset recvList = 1 then releaseFull offsets (releaseBuffer offset recvList)
    else (false, recvList)

/-- What the writing loop puts into the output file. -/
def fileBytes (offsets : List Int) (recvList : List RecvBuffer) : List Byte :=
  offsets.flatMap (fun offset =>
    (List.range 512).flatMap (fun j : Nat => (copyChunkData offset j recvList).2))

/-- Return value, file manager, buffers, and the bytes written, if the file
was opened. The arrays are freed after the write. -/
def checkFileManager (fm : FileManager) (recvList : List RecvBuffer) :
    Int × FileManager × List RecvBuffer × Option (List Byte) :=
  if fm.init = false then (-2, fm, recvList, none)
  else
    match releaseFull fm.requested recvList with
    | (false, recvList) => (-1, fm, recvList, none)
    | (true, recvList) =>
      (1, { fm with init := false, offset := [], timer := [], alreadyUsed := [] }, recvList,
        some (fileBytes fm.requested recvList))

theorem isBufferFull_release (offset other : Int) (recvList : List RecvBuffer) :
    isBufferFull offset (releaseBuffer other recvList) = isBufferFull offset recvList := by
  have hany : ∀ p : RecvBuffer → Bool, (∀ b, p { b with busy := false } = p b) →
      (releaseBuffer other recvList).any p = recvList.any p := by
    intro p hp
    rw [releaseBuffer, List.any_map]
    congr 1
    funext b
    rw [Function.comp_apply]
    split
    · exact hp b
    · rfl
  unfold isBufferFull
  rw [hany _ fun _ => rfl, hany _ fun _ => rfl]

def releaseAll (offsets : List Int) (recvList : List RecvBuffer) : List RecvBuffer :=
  offsets.foldl (fun l offset => releaseBuffer offset l) recvList

/-- The loop releases the full chunks in front of the first missing one. -/
theorem releaseFull_eq (offsets : List Int) (recvList : List RecvBuffer) :
    releaseFull offsets recvList =
      (offsets.all (fun o => isBufferFull o recvList = 1),
        releaseAll (offsets.takeWhile (fun o => isBufferFull o recvList = 1)) recvList) := by
  induction offsets generalizing recvList with
  | nil => rfl
  | cons o offsets ih =>
    rw [releaseFull]
    by_cases hf : isBufferFull o recvList = 1
    · rw [if_pos hf, ih, List.all_cons, List.takeWhile_cons_of_pos (by simpa using hf)]
      simp only [isBufferFull_release, hf, decide_true, Bool.true_and]
      rfl
    · rw [if_neg hf, List.all_cons, List.takeWhile_cons_of_neg (by simpa using hf)]
      simp only [hf, decide_false, Bool.false_and]
      rfl

theorem releaseAll_eq_map (offsets : List Int) (recvList : List RecvBuffer) :
    releaseAll offsets recvList =
      recvList.map (fun b => if b.offset ∈ offsets then { b with busy := false } else b) := by
  induction offsets generalizing recvList with
  | nil => simp [releaseAll]
  | cons o offsets ih =>
    rw [releaseAll, List.foldl_cons, ← releaseAll, ih, releaseBuffer, List.map_map]
    apply List.map_congr_left
    intro b _
    by_cases ho : b.offset = o <;> by_cases hm : b.offset ∈ offsets <;> simp [ho, hm]

theorem mem_releaseAll {offsets : List Int} {recvList : List RecvBuffer} {b : RecvBuffer} :
    b ∈ releaseAll offsets recvList ↔
      ∃ c ∈ recvList, b = if c.offset ∈ offsets then { c with busy := false } else c := by
  rw [releaseAll_eq_map, List.mem_map]
  exact exists_congr fun c => and_congr_right fun _ => eq_comm

theorem releaseAll_singleton (offsets : List Int) (b : RecvBuffer) :
    releaseAll offsets [b] = [if b.offset ∈ offsets then { b with busy := false } else b] := by
  rw [releaseAll_eq_map, List.map_singleton]

theorem isBufferFull_releaseAll (offset : Int) (offsets : List Int) (recvList : List RecvBuffer) :
    isBufferFull offset (releaseAll offsets recvList) = isBufferFull offset recvList := by
  induction offsets generalizing recvList with
  | nil => rfl
  | cons o offsets ih =>
    rw [releaseAll, List.foldl_cons, ← releaseAll, ih, isBufferFull_release]

end P2PCC.Manager

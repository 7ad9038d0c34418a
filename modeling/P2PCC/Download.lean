import P2PCC.Lossless
import P2PCC.Whohas

namespace P2PCC.Download

open P2PCC.Lib.ByteOrder P2PCC.Lib.Runs P2PCC.Lib.Channel P2PCC.Lib.Settling P2PCC.Packet
open P2PCC.ChunkFile P2PCC.Tracker P2PCC.Sender P2PCC.Receiver P2PCC.Manager P2PCC.HandlePacket
open P2PCC.Peer P2PCC.Receiving P2PCC.Tracking P2PCC.ActiveChunks P2PCC.Buffers P2PCC.OutputFile
open P2PCC.Successive P2PCC.Window P2PCC.TwoPeers P2PCC.SingleTransfer P2PCC.Whohas
open P2PCC.Isolation P2PCC.Publishing P2PCC.Storing P2PCC.Idling P2PCC.Lossless

variable {R : Type}

/-- Both peers have the master chunk file of a file, and the sender has the
file. -/
def publish (shahash : List Byte → Digest) (link : Link) (file : List Byte) : Link :=
  { link with
    receiver := { link.receiver with
      chunkFile := some (chunkLines (makeChunks shahash file)) }
    sender := { link.sender with
      chunkFile := some (chunkLines (makeChunks shahash file))
      content := file } }

section Definitions

variable [Rate R]

/-- An IHAVE for a chunk reaches the receiver. -/
def fetch (link : Link) (now : Int) (stray : Stray) (hash : List Byte) (x : System R) : System R :=
  link.receiverActs inDownload x
    (.inbound now stray link.senderAddr (initPacket link.endian 1 (some hash) 20))

/-- The chunks are fetched one after another, each with what the sender's
memory holds then. Before, both processes may go round their loops, in which
the receiver asks again after ten seconds. However the packets of the chunk
arrive, `Q` holds in the end. -/
def Downloads (link : Link) (Q : System R → Prop) :
    List (List Byte × Stray) → System R → Prop
  | [], x => Q x
  | (hash, memory) :: orders, x =>
    ∀ ticks, Along (link.step inDownload) Idles x ticks → ∀ now stray,
      Settles (Delivers link memory) (Downloads link Q orders)
        (fetch link now stray hash (run (link.step inDownload) x ticks))

def request (link : Link) (now : Int) (outputfile : List Byte) (sender : Peer R) : System R :=
  link.step inDownload
    { receiver := Peer.init, sender := sender, toReceiver := [], toSender := [], log := [] }
    (.request now link.receiver.chunkFile outputfile)

def orders (shahash : List Byte → Digest) (file : List Byte) (memory : Nat → Stray) :
    List (List Byte × Stray) :=
  (makeChunks shahash file).mapIdx (fun k hash => (hash.toList, memory k))

/-- Downloading a file that has been published ends with the file written, in
whatever order the packets of its chunks arrive. -/
def Returns (shahash : List Byte → Digest) (link : Link) (now : Int) (outputfile : List Byte)
    (sender : Peer R) (memory : Nat → Stray) (file : List Byte) : Prop :=
  Downloads (publish shahash link file)
    (fun x => x.receiver.written = [(outputfile.take 120, file)])
    (orders shahash file memory) (request (publish shahash link file) now outputfile sender)

end Definitions

/-- What `malloc` left makes the first ACK look like a third duplicate. -/
def Mistaken (uninit : Uninit) : Prop := uninit.prevAck = 0 ∧ 1 ≤ uninit.countAck

/-- The master file lists each hash once, and both peers have it. -/
structure Published (link : Link) (digests : List Digest) : Prop where
  receiver : link.receiver.chunkFile = some (chunkLines digests)
  sender : link.sender.chunkFile = some (chunkLines digests)
  distinct : digests.Nodup

/-- The first `j` of `n` chunks have come, and nothing is in flight. -/
structure Between (link : Link) (name : List Byte) (n j : Nat) (x : System R) : Prop where
  idle : x.receiver.pTracker = []
  toReceiver : x.toReceiver = []
  toSender : x.toSender = []
  outputFile : x.receiver.outputFile = name
  buffers : ∃ chunk, Finished chunk j x.receiver.recvList ∧
    (∀ k < j, Served link.sender.content k (chunk k)) ∧
    (j < n → Open n x.receiver) ∧ (j = n → Closed name chunk n x.receiver)

def emptyBuffer (offset socket : Int) : RecvBuffer :=
  { expected := 1, socket := socket, offset := offset, busy := true, totalRecv := 0,
    chunks := fun _ => emptyChunk }

/-- The GET of chunk `j` has been served, and its first packet is in flight. -/
structure Started [Rate R] (link : Link) (name : List Byte) (chunk : Chunks) (n j : Nat)
    (memory : Stray) (x : System R) : Prop where
  idle : x.receiver.pTracker = []
  filling : Filling link name chunk n j (emptyBuffer j link.senderId) x.receiver
  current : getDataBySocket link.receiverId x.sender.list =
    some ((newElement memory.data link.receiverId j (chunk j)).sendMore 1)
  toReceiver : x.toReceiver = onWire link.endian
    [dataPacket link.endian (newElement memory.data link.receiverId j (chunk j) : Data R) 0]
  toSender : x.toSender = []

section Runs

variable [Rate R] {link : Link} {P Q : System R → Prop} {x : System R}

theorem Downloads.mono (hpq : ∀ x, P x → Q x) (l : List (List Byte × Stray))
    (h : Downloads link P l x) : Downloads link Q l x := by
  induction l generalizing x with
  | nil => exact hpq x h
  | cons order l ih =>
    intro ticks hticks now stray
    exact (h ticks hticks now stray).mono fun y hy => ih hy

theorem Downloads.meet (l : List (List Byte × Stray)) (hp : Downloads link P l x)
    (hq : Downloads link Q l x) : ∃ y, P y ∧ Q y := by
  induction l generalizing x with
  | nil => exact ⟨x, hp, hq⟩
  | cons order l ih =>
    obtain ⟨y, hpy, hqy⟩ := (hp [] trivial 0 order.2).meet (hq [] trivial 0 order.2)
    exact ih hpy hqy

end Runs

theorem scanned_empty (offset socket : Int) : Scanned (emptyBuffer offset socket) :=
  ⟨le_rfl, by simp [emptyBuffer], fun i hi hn => by simp only [emptyBuffer] at hn; omega,
    fun _ => rfl⟩

theorem faithful_empty (chunk : Chunks) (offset socket : Int) :
    Faithful chunk (emptyBuffer offset socket) :=
  ⟨counted_empty offset socket, fun i _ _ hr => by simp [emptyBuffer, emptyChunk] at hr⟩

theorem finished_update {chunk : Chunks} {j : Nat} {buffers : List RecvBuffer}
    (h : Finished chunk j buffers) (content : Int → Byte) :
    Finished (Function.update chunk j content) j buffers := by
  refine ⟨h.range, ?_, h.complete, h.free, h.all⟩
  intro b hb
  have hne : b.offset ≠ j := by
    have := h.range b hb
    omega
  refine ⟨(h.faithful b hb).toCounted, ?_⟩
  rw [Function.update_of_ne hne]
  exact (h.faithful b hb).source

theorem knows_sender (link : Link) :
    ∃ node, link.receiver.peers.find? (fun node => node.id = link.senderId) = some node := by
  rw [← Option.isSome_iff_exists, List.find?_isSome]
  exact ⟨_, List.mem_of_find?_eq_some link.knowsSender, by simp⟩

theorem hashes_ihave (e : Endian) (hash : Digest) :
    hashes ((initPacket e 1 (some hash.toList) 20).ntoh e) = [hash.toList] := by
  have hsize : hash.toList.length = 20 := Vector.length_toList
  apply Carries.hashes_eq
  refine ⟨by simp, 1, 1, 1, 1, [], ?_, rfl⟩
  simp [initPacket, padding, List.take_of_length_le hsize.le]

section Fetch

variable [Rate R] {link : Link} {name : List Byte} {digests : List Digest} {j : Nat}
  {x y : System R}

omit [Rate R] in
theorem Between.calm {n : Nat} (h : Between link name n j x) (hc : Calm x y) :
    Between link name n j y := by
  obtain ⟨chunk, hfinished, hserved, hopen, hclosed⟩ := h.buffers
  have hsame := hc.receiver
  refine ⟨hsame.pTracker.symm.trans h.idle, hc.toReceiver.symm.trans h.toReceiver,
    hc.toSender.symm.trans h.toSender, hsame.outputFile.symm.trans h.outputFile, chunk,
    hsame.recvList ▸ hfinished, hserved, fun hlt => ?_, fun hlast => ?_⟩
  · have hopened := hopen hlt
    exact ⟨hsame.init.symm.trans hopened.init, hsame.requested.symm.trans hopened.requested,
      hsame.written.symm.trans hopened.written⟩
  · have hdone := hclosed hlast
    exact ⟨hsame.init.symm.trans hdone.init, hsame.written.symm.trans hdone.written⟩

theorem fetch_eq (link : Link) (now : Int) (stray : Stray) (hash : Digest) {x : System R}
    (hidle : x.receiver.pTracker = []) {node : BtPeer}
    (hnode : link.receiver.peers.find? (fun node => node.id = link.senderId) = some node)
    (hstart : startable link.receiver link.senderId x.receiver.recvList hash.toList = true) :
    fetch link now stray hash.toList x = afterData link.endian x
      (startChunk link.receiver now link.senderId node hash.toList x.receiver) x.toReceiver
      [initPacket link.endian 2 (some hash.toList) 20] := by
  have hhandled : handlePacket link.endian link.receiver now stray
      (initPacket link.endian 1 (some hash.toList) 20) link.senderId x.receiver =
      (startChunk link.receiver now link.senderId node hash.toList x.receiver,
        [initPacket link.endian 2 (some hash.toList) 20]) := by
    rw [handlePacket_ihave _ _ _ _ _ _ (initPacket_packetType _ _ _ _),
      handleIhave_eq link.endian now link.senderId _ hnode, hashes_ihave,
      List.find?_cons_of_pos hstart]
  have hacted : act link.endian link.receiver x.receiver (.inbound now stray link.senderAddr
      (initPacket link.endian 1 (some hash.toList) 20)) = _ :=
    act_reply (link.delivery_receiver now stray _) hhandled hidle (by
      rw [initPacket_packetType]
      decide)
  have hcarried : sentTo inDownload link.senderAddr [(link.senderAddr,
      (initPacket link.endian 2 (some hash.toList) 20).convert link.endian)] =
      onWire link.endian [initPacket link.endian 2 (some hash.toList) 20] :=
    sentTo_all (by simp [inDownload])
  rw [Download.fetch, Link.receiverActs, hacted, hcarried]
  rfl

omit [Rate R] in
theorem Between.startable (h : Between link name digests.length j x)
    (hpub : Published link digests) (hj : j < digests.length) :
    startable link.receiver link.senderId x.receiver.recvList digests[j].toList = true := by
  obtain ⟨chunk, hfinished, _⟩ := h.buffers
  have hoffset := getOffSet_chunkLines hpub.distinct hpub.receiver hj
  rw [ActiveChunks.startable, hoffset, Bool.and_eq_true, Bool.not_eq_true', List.any_eq_false]
  refine ⟨decide_eq_true (by omega), fun b hb => ?_⟩
  simp [RecvBuffer.conflicts, hfinished.free b hb]

theorem Between.fetched (h : Between link name digests.length j x) (hpub : Published link digests)
    (hj : j < digests.length) (now : Int) (stray : Stray) :
    ∃ asking, fetch link now stray digests[j].toList x =
        afterData link.endian x asking [] [initPacket link.endian 2 (some digests[j].toList) 20] ∧
      asking.pTracker = [] ∧
      ∃ chunk, (∀ k < j, Served link.sender.content k (chunk k)) ∧ ∀ content,
        Filling link name (Function.update chunk j content) digests.length j
          (emptyBuffer j link.senderId) asking := by
  obtain ⟨chunk, hfinished, hserved, hopen, _⟩ := h.buffers
  have hstart := h.startable hpub hj
  have hoffset := getOffSet_chunkLines hpub.distinct hpub.receiver hj
  obtain ⟨node, hnode⟩ := knows_sender link
  have hfree : ¬x.receiver.recvList.any (fun b => b.conflicts j link.senderId) = true := by
    rw [ActiveChunks.startable, hoffset, Bool.and_eq_true, Bool.not_eq_true'] at hstart
    simp [hstart.2]
  have hasked := fetch_eq link now stray digests[j] h.idle hnode hstart
  rw [h.toReceiver] at hasked
  have hlist : (startChunk link.receiver now link.senderId node digests[j].toList
      x.receiver).recvList = emptyBuffer j link.senderId :: x.receiver.recvList := by
    simp only [startChunk, hoffset, initRecvBuffer, if_neg hfree]
    rfl
  have hempty : ¬Complete (emptyBuffer j link.senderId) := not_complete_empty _ rfl
  have hopened := hopen hj
  refine ⟨_, hasked, h.idle, chunk, hserved, fun content =>
    ⟨⟨_, hlist, finished_update hfinished content⟩, rfl, rfl, faithful_empty _ _ _,
      ⟨fun _ => hempty, fun _ => rfl⟩, h.outputFile, fun _ => ?_, fun hc => absurd hc hempty⟩⟩
  exact ⟨hopened.init, hopened.requested, hopened.written⟩

theorem Between.started (h : Between link name digests.length j x)
    (hpub : Published link digests) (hj : j < digests.length) (now : Int) (stray memory : Stray) :
    ¬AtRest (Delivers link memory) (fetch link now stray digests[j].toList x) ∧
      ∃ chunk, (∀ k < j + 1, Served link.sender.content k (chunk k)) ∧
        ∀ y, Delivers link memory (fetch link now stray digests[j].toList x) y →
          Started link name chunk digests.length j memory y := by
  obtain ⟨asking, hasked, hidle, chunk, hserved, hfilling⟩ := h.fetched hpub hj now stray
  have hoffset := getOffSet_chunkLines hpub.distinct hpub.sender hj
  have hsender : (afterData link.endian x asking []
      [initPacket link.endian 2 (some digests[j].toList) 20]).toSender =
      [(initPacket link.endian 2 (some digests[j].toList) 20).convert link.endian] := by
    rw [afterData, h.toSender]
    rfl
  rw [hasked]
  generalize hx : afterData link.endian x asking []
    [initPacket link.endian 2 (some digests[j].toList) 20] = y at hsender
  have hasking : y.receiver = asking := hx ▸ rfl
  have hempty : y.toReceiver = [] := hx ▸ rfl
  rw [← hasking] at hidle hfilling
  refine ⟨fun hrest => ?_, Function.update chunk j (getDataFromHash digests[j].toList link.sender
    memory.index memory.heap), ?_, ?_⟩
  · have hnone := ((atRest_iff hidle).mp hrest).2
    rw [hsender] at hnone
    cases hnone
  · intro k hk
    by_cases hnew : k = j
    · subst hnew
      have hnow := served_getDataFromHash digests[k].toList link.sender memory.index memory.heap
        (unmistaken_full hpub.sender chunkLines_token (by rw [hoffset]; omega))
      rw [hoffset] at hnow
      rwa [Function.update_self]
    · rw [Function.update_of_ne (by exact_mod_cast hnew)]
      exact hserved k (by omega)
  · rintro z ⟨ticks, move, hticks, harrives, rfl⟩
    have hcalm := calm_idles hidle ticks hticks
    generalize run (link.step inDownload) y ticks = x' at hcalm harrives
    have hreceiver : x'.toReceiver = [] := hcalm.toReceiver.symm.trans hempty
    rw [hcalm.toSender] at hsender
    cases move with
    | deliverToReceiver i now stray =>
      rw [Arrives, hreceiver] at harrives
      exact absurd harrives (Nat.not_lt_zero _)
    | deliverToSender i now stray =>
      obtain ⟨hi, rfl, hharmless⟩ := harrives
      obtain ⟨p, rest, hp⟩ := handOver_lt hi
      have hcontent := Function.update_self (j : Int) (getDataFromHash digests[j].toList
        link.sender stray.index stray.heap) chunk
      have hperm := handOver_perm hp
      rw [hsender] at hperm
      obtain ⟨rfl, rfl⟩ := List.cons.inj (List.singleton_perm.mp hperm)
      have hhash : (((initPacket link.endian 2 (some digests[j].toList) 20).convert
          link.endian).ntoh link.endian).data.take 20 = digests[j].toList := by
        have hsize : digests[j].toList.length ≤ 20 := Vector.length_toList.le
        simp [initPacket, List.take_of_length_le hsize]
      have hget : handlePacket link.endian link.sender now stray
          ((initPacket link.endian 2 (some digests[j].toList) 20).convert link.endian)
          link.receiverId x'.sender = _ :=
        (handlePacket_get _ _ _ _ _ _ rfl).trans (handleGet_eq _ _ _ _)
      rw [hhash, hoffset] at hget
      obtain ⟨tracker, hstep⟩ := deliver_ack hp hget
        (List.forall_mem_singleton.mpr (isData_dataPacket _ _ le_rfl (by omega))) hharmless
      rw [hstep]
      refine ⟨hcalm.receiver.pTracker.symm.trans hidle,
        Filling.same (hfilling _) hcalm.receiver, ?_, ?_, rfl⟩
      · rw [hcontent]
        exact getDataBySocket_head rfl
      · rw [hcontent, afterAck, hreceiver, List.nil_append]
    | _ => exact absurd harrives id

end Fetch

section Transfers

variable [Rate R] {link : Link} {name : List Byte} {chunk : Chunks} {n j : Nat} {memory : Stray}
  {x : System R}

omit [Rate R] in
theorem empty_recved (offset socket i : Int) :
    ((emptyBuffer offset socket).chunks i).recved = false := rfl

theorem serving_newElement (uninit : Uninit) (socket offset : Int) (content : Int → Byte) :
    Serving content ((newElement uninit socket offset content : Data R).sendMore 1) := by
  have hnew := unsent_newElement (R := R) uninit socket offset content
  refine ⟨rfl, hnew.sendMore 1 (by simp [newElement]), le_rfl, le_rfl, le_rfl, ?_⟩
  intro i hi hn
  simp only [Data.sendMore, newElement, Nat.cast_one] at hn ⊢
  rw [if_pos (show -1 < i ∧ i ≤ -1 + 1 by omega)]
  decide

theorem Started.isSlice (h : Started link name chunk n j memory x) :
    ∃ p, x.toReceiver = [p] ∧ IsSlice link.endian (chunk j) 0 p := by
  have hslice := isSlice_dataPacket link.endian
    (newElement memory.data link.receiverId j (chunk j) : Data R) (k := 0) le_rfl (by omega)
  exact ⟨_, h.toReceiver, hslice⟩

theorem Started.going (h : Started link name chunk n j memory x)
    (hgood : ¬Mistaken memory.data) :
    Going link name chunk n j
      ((newElement memory.data link.receiverId j (chunk j) : Data R).sendMore 1)
      (emptyBuffer j link.senderId) x := by
  obtain ⟨p, hp, hslice⟩ := h.isSlice
  have hend : ((newElement memory.data link.receiverId j (chunk j) : Data R).sendMore 1).windowEnd =
      0 := rfl
  refine ⟨h.idle, h.filling, scanned_empty _ _, h.current, serving_newElement _ _ _ _,
    ?_, ?_, ?_, ?_, ?_, ?_⟩
  · intro q hq
    rw [hp] at hq
    obtain rfl := List.mem_singleton.mp hq
    exact ⟨0, hslice, hend.ge⟩
  · simp [h.toSender]
  · intro i _ _ hr
    rw [empty_recved] at hr
    cases hr
  · intro i hi hn
    rw [hend] at hn
    obtain rfl : i = 0 := by omega
    exact Or.inr ⟨p, by rw [hp]; exact List.mem_singleton_self p, hslice⟩
  · intro _ hall
    have hr := hall 0 le_rfl hend.ge
    rw [empty_recved] at hr
    cases hr
  · intro _ hprev
    by_contra hcount
    exact hgood ⟨hprev, not_lt.mp hcount⟩

omit [Rate R] in
theorem Filling.between {b : RecvBuffer} (h : Filling link name chunk n j b x.receiver)
    (hc : Complete b) (hserved : ∀ k < j + 1, Served link.sender.content k (chunk k))
    (hidle : x.receiver.pTracker = []) (hreceiver : x.toReceiver = []) (hsender : x.toSender = []) :
    Between link name n (j + 1) x := by
  obtain ⟨old, hl, hold⟩ := h.buffers
  have hoffset := h.offset
  have hfree : b.busy = false := by
    have hbusy := h.busy
    cases hb : b.busy with
    | false => rfl
    | true => exact absurd hc (hbusy.mp hb)
  refine ⟨hidle, hreceiver, hsender, h.outputFile, chunk, ?_, hserved, ?_, ?_⟩
  · rw [hl]
    refine ⟨?_, List.forall_mem_cons.mpr ⟨h.faithful, hold.faithful⟩,
      List.forall_mem_cons.mpr ⟨hc, hold.complete⟩, List.forall_mem_cons.mpr ⟨hfree, hold.free⟩, ?_⟩
    · refine List.forall_mem_cons.mpr ⟨by omega, fun c hcm => ?_⟩
      have := hold.range c hcm
      omega
    · intro o hlow hhigh
      by_cases hlt : o < j
      · obtain ⟨c, hcm, hco⟩ := hold.all o hlow hlt
        exact ⟨c, List.mem_cons_of_mem b hcm, hco⟩
      · exact ⟨b, List.mem_cons_self, by omega⟩
  · exact fun hlt => h.opened fun hlast => by omega
  · exact fun hlast => h.closed hc hlast.symm

end Transfers

section Mistake

variable [Rate R] {link : Link} {name : List Byte} {chunk : Chunks} {n j : Nat} {memory : Stray}
  {x : System R} {b : RecvBuffer} {data : Data R} {p : DataPacket} {k m : Int}
  {Q : System R → Prop}

/-- The receiver holds a buffer of the sender that stays busy, and nothing is
in flight. -/
structure Jammed (link : Link) (x : System R) : Prop where
  idle : x.receiver.pTracker = []
  toReceiver : x.toReceiver = []
  toSender : x.toSender = []
  written : x.receiver.written = []
  busy : ∃ b ∈ x.receiver.recvList, b.socket = link.senderId ∧ b.busy = true

theorem settles_data (h : Settles (Delivers link memory) Q x) (hidle : x.receiver.pTracker = [])
    (hj : j < n) (hfilling : Filling link name chunk n j b x.receiver) (hscanned : Scanned b)
    (hreceiver : x.toReceiver = [p]) (hsender : x.toSender = [])
    (hp : IsSlice link.endian (chunk j) k p) :
    ∃ (y : System R) (after : RecvBuffer), Settles (Delivers link memory) Q y ∧
      y.receiver.pTracker = [] ∧ y.toReceiver = [] ∧
      y.toSender = onWire link.endian [ackPacket link.endian after.expected] ∧
      y.sender = x.sender ∧ Filling link name chunk n j after y.receiver ∧ Scanned after ∧
      ∀ i, (after.chunks i).recved = true ↔ (b.chunks i).recved = true ∨ i = k := by
  have htaken : handOver 0 x.toReceiver = some (p, []) := by
    rw [hreceiver]
    rfl
  obtain ⟨busy, next, hstep, hnone, hnext⟩ :=
    Filling.delivered hfilling hidle hj htaken hp 0 memory
  obtain ⟨hafter, _⟩ := hscanned.recv memory.past (p.ntoh link.endian)
  have hsettles := h.step (delivers_data (i := 0) (by simp [hreceiver]) 0 memory)
  rw [hstep] at hsettles
  refine ⟨_, _, hsettles, hnone, rfl, ?_, rfl, hnext,
    ⟨hafter.low, hafter.high, hafter.filled, hafter.stop⟩, fun i => ?_⟩
  · rw [afterData, hsender, List.nil_append]
  · dsimp only
    rw [recv_recved, hp.seq, add_sub_cancel_right, Bool.or_eq_true, decide_eq_true_eq]

theorem settles_reply (h : Settles (Delivers link memory) Q x)
    (hd : getDataBySocket link.receiverId x.sender.list = some data)
    (hdata : ∀ after tracker packets,
      Answered link.endian (m - 1) data x.sender.pTracker after tracker packets →
        ∀ q ∈ packets, IsData q)
    (hreceiver : x.toReceiver = []) (hsender : x.toSender = [p]) (hp : IsReply link.endian m p)
    (hm : 1 ≤ m) :
    ∃ (y : System R) (after : Data R) (tracker : List PacketTracker) (packets : List DataPacket),
      Settles (Delivers link memory) Q y ∧
      y.toReceiver = onWire link.endian packets ∧ y.toSender = [] ∧ y.receiver = x.receiver ∧
      getDataBySocket link.receiverId y.sender.list = some after ∧
      Answered link.endian (m - 1) data x.sender.pTracker after tracker packets := by
  obtain ⟨now, hharmless⟩ := exists_harmless (dummyHead memory.dummy :: x.sender.pTracker)
  obtain ⟨after, left, packets, next, hanswer, hcurrent, hhandled⟩ :=
    handlePacket_reply hp hm now memory hd
  have htaken : handOver 0 x.toSender = some (p, []) := by
    rw [hsender]
    rfl
  obtain ⟨tracker, hstep⟩ := deliver_ack htaken hhandled (hdata _ _ _ hanswer) hharmless
  have hsettles := h.step (delivers_ack (i := 0) (by simp [hsender]) hharmless)
  rw [hstep] at hsettles
  refine ⟨_, after, left, packets, hsettles, ?_, rfl, rfl, hcurrent, hanswer⟩
  rw [afterAck, hreceiver, List.nil_append]

omit [Rate R] in
theorem expected_eq (h : Scanned b) (hm : 1 ≤ m) (hu : m < 512)
    (hfilled : ∀ i, 1 ≤ i → i < m → (b.chunks i).recved = true)
    (hstop : ¬(b.chunks m).recved = true) : b.expected = m := by
  have hlow := h.low
  obtain hlt | heq | hgt := lt_trichotomy b.expected m
  · have := (hfilled b.expected hlow hlt).symm.trans (h.stop (by omega))
    cases this
  · exact heq
  · exact absurd (h.filled m hm hgt hu) hstop

/-- The first ACK counts as a third duplicate: packet 2 goes out without
being noted as sent. -/
theorem answered_mistaken {e : Endian} {before tracker : List PacketTracker} {after : Data R}
    {packets : List DataPacket} (hstart : data.windowStart = -1) (hsent : data.state 0 ≠ .unsend)
    (hprev : data.prevAck = 0) (hcount : 1 ≤ data.countAck)
    (ha : Answered e 0 data before after tracker packets) :
    packets = [dataPacket e data 1] ∧ after.state = data.state ∧ after.windowStart = -1 ∧
      after.prevAck = 0 := by
  cases ha with
  | rejected hack => omega
  | duplicate hack hprev' hcount' after hagree hwindow =>
    exact ⟨rfl, hagree.state, hagree.windowStart.trans hstart, hagree.prevAck.trans hprev⟩
  | unsent hack count hm hstate hsent' tracker htracker =>
    obtain rfl : count = 0 := by omega
    rw [hstart] at hstate
    exact absurd hstate hsent
  | accepted hack hfresh hsent' mid hagree hgrown tracker htracker =>
    have := hfresh hprev
    omega

theorem answered_jammed {e : Endian} {before tracker : List PacketTracker} {after : Data R}
    {packets : List DataPacket} (hstart : data.windowStart = -1) (hunsent : data.state 1 = .unsend)
    (hprev : data.prevAck = 0) (ha : Answered e 1 data before after tracker packets) :
    packets = [] := by
  cases ha with
  | rejected hack => rfl
  | duplicate hack hprev' hcount after hagree hwindow =>
    rw [hprev] at hprev'
    exact absurd hprev' (by decide)
  | unsent hack count hm hstate hsent tracker htracker => rfl
  | accepted hack hfresh hsent mid hagree hgrown tracker htracker =>
    exact absurd hunsent (hsent 1 (by omega) (by omega))

theorem Started.jams (h : Started link name chunk n j memory x) (hj : j < n)
    (hm : Mistaken memory.data) (hq : Settles (Delivers link memory) Q x) :
    ∃ y, Q y ∧ Jammed link y := by
  obtain ⟨hprev, hcount⟩ := hm
  obtain ⟨p, hp, hslice⟩ := h.isSlice
  -- packet 1 arrives and is acknowledged
  obtain ⟨x₁, b₁, hq₁, hidle₁, hreceiver₁, hsender₁, hkept₁, hfilling₁, hscanned₁, hrecved₁⟩ :=
    settles_data hq h.idle hj h.filling (scanned_empty _ _) hp h.toSender hslice
  have hexpected₁ : b₁.expected = 1 := by
    apply expected_eq hscanned₁ le_rfl (by omega) (fun i hi hn => by omega)
    simp [hrecved₁, empty_recved]
  rw [hexpected₁] at hsender₁
  have hserving := serving_newElement (R := R) memory.data link.receiverId j (chunk j)
  have hsecond := fun (after : Data R) tracker packets
      (ha : Answered link.endian 0
        ((newElement memory.data link.receiverId j (chunk j) : Data R).sendMore 1)
        x₁.sender.pTracker after tracker packets) =>
    answered_mistaken rfl (hserving.sent 0 le_rfl le_rfl) hprev hcount ha
  obtain ⟨x₂, after, tracker, packets, hq₂, hreceiver₂, hsender₂, hkept₂, hcurrent₂, hanswer₂⟩ :=
    settles_reply hq₁ (hkept₁ ▸ h.current) (fun after tracker packets ha => by
        rw [(hsecond after tracker packets ha).1]
        exact List.forall_mem_singleton.mpr (isData_dataPacket _ _ (by omega) (by omega)))
      hreceiver₁ hsender₁ (isReply_ackPacket _ le_rfl (by omega)) le_rfl
  obtain ⟨rfl, hstate, hstart, hsame⟩ := hsecond _ _ _ hanswer₂
  -- packet 2 arrives and is acknowledged
  have hslice₂ := isSlice_dataPacket link.endian
    ((newElement memory.data link.receiverId j (chunk j) : Data R).sendMore 1) (k := 1)
    (by omega) (by omega)
  rw [← hkept₂] at hfilling₁ hidle₁
  obtain ⟨x₃, b₃, hq₃, hidle₃, hreceiver₃, hsender₃, hkept₃, hfilling₃, hscanned₃, hrecved₃⟩ :=
    settles_data hq₂ hidle₁ hj hfilling₁ hscanned₁ hreceiver₂ hsender₂ hslice₂
  have hexpected₃ : b₃.expected = 2 := by
    apply expected_eq hscanned₃ (by omega) (by omega)
    · intro i hi hn
      exact (hrecved₃ i).mpr (Or.inr (by omega))
    · simp [hrecved₃, hrecved₁, empty_recved]
  rw [hexpected₃] at hsender₃
  have hunsent : after.state 1 = .unsend := by
    rw [hstate]
    rfl
  have hthird := fun (later : Data R) tracker packets
      (ha : Answered link.endian 1 after x₃.sender.pTracker later tracker packets) =>
    answered_jammed hstart hunsent hsame ha
  obtain ⟨x₄, _, _, packets, hq₄, hreceiver₄, hsender₄, hkept₄, _, hanswer₄⟩ :=
    settles_reply hq₃ (hkept₃ ▸ hcurrent₂) (fun later tracker packets ha => by
        rw [hthird later tracker packets ha]
        simp)
      hreceiver₃ hsender₃ (isReply_ackPacket _ (by omega) (by omega)) (by omega)
  obtain rfl := hthird _ _ _ hanswer₄
  -- nothing is in flight any more
  rw [← hkept₄] at hfilling₃ hidle₃
  obtain ⟨old, hl, _⟩ := hfilling₃.buffers
  have hmissing : ¬Complete b₃ := by
    intro hc
    have htwo := hc 2 (by omega) (by omega)
    simp [hrecved₃, hrecved₁, empty_recved] at htwo
  refine ⟨x₄, hq₄.rest ((atRest_iff hidle₃).mpr ⟨hreceiver₄, hsender₄⟩), hidle₃, hreceiver₄, hsender₄,
    (hfilling₃.opened fun hc => hmissing hc.1).written, b₃, ?_, hfilling₃.socket,
    hfilling₃.busy.mpr hmissing⟩
  rw [hl]
  exact List.mem_cons_self

theorem Jammed.fetched (h : Jammed link x) (now : Int) (memory : Stray) (hash : List Byte) :
    fetch link now memory hash x = x := by
  obtain ⟨b, hb, hsocket, hbusy⟩ := h.busy
  obtain ⟨node, hnode⟩ := knows_sender link
  have hnone : ∀ packet, (hashes packet).find?
      (ActiveChunks.startable link.receiver link.senderId x.receiver.recvList) = none := by
    intro packet
    rw [List.find?_eq_none]
    intro hash _ hstart
    rw [ActiveChunks.startable, Bool.and_eq_true, Bool.not_eq_true', List.any_eq_false] at hstart
    exact hstart.2 b hb (by simp [RecvBuffer.conflicts, hsocket, hbusy])
  have hasked : handlePacket link.endian link.receiver now memory
      (initPacket link.endian 1 (some hash) 20) link.senderId x.receiver = (x.receiver, []) := by
    rw [handlePacket_ihave _ _ _ _ _ _ (initPacket_packetType _ _ _ _),
      handleIhave_eq link.endian now link.senderId _ hnode, hnone]
  rw [Download.fetch, Link.receiverActs, act,
    processInboundUdp_some (link.delivery_receiver now memory _), hasked]
  simp [sendResponses, sentTo]

theorem Jammed.downloads (h : Jammed link x) (l : List (List Byte × Stray))
    (hd : Downloads link Q l x) : ∃ y, Q y ∧ y.receiver.written = [] := by
  induction l with
  | nil => exact ⟨x, hd, h.written⟩
  | cons order l ih =>
    obtain ⟨hash, memory⟩ := order
    have hnext := hd [] trivial 0 memory
    rw [run_nil, h.fetched] at hnext
    exact ih (hnext.rest ((atRest_iff h.idle).mpr ⟨h.toReceiver, h.toSender⟩))

end Mistake

section Whole

variable [Rate R] {link : Link} {name : List Byte} {digests : List Digest} {j : Nat}
  {x : System R} {Q : System R → Prop}

/-- The hashes of the chunks from `j` on, in order. -/
def Lists (digests : List Digest) (j : Nat) (l : List (List Byte × Stray)) : Prop :=
  l.map Prod.fst = (digests.drop j).map Vector.toList

omit [Rate R] in
theorem Lists.cons {order : List Byte × Stray} {l : List (List Byte × Stray)}
    (h : Lists digests j (order :: l)) :
    ∃ hj : j < digests.length, order.1 = digests[j].toList ∧ Lists digests (j + 1) l := by
  have hj : j < digests.length := by
    by_contra hge
    rw [Lists, List.drop_eq_nil_of_le (by omega)] at h
    cases h
  rw [Lists, List.drop_eq_getElem_cons hj, List.map_cons, List.map_cons] at h
  obtain ⟨hfirst, hrest⟩ := List.cons.inj h
  exact ⟨hj, hfirst, hrest⟩

/-- One chunk after the other comes, if no first ACK is mistaken. -/
theorem downloads_between (hpub : Published link digests) (l : List (List Byte × Stray))
    (hj : j ≤ digests.length) (hl : Lists digests j l) (hgood : ∀ order ∈ l, ¬Mistaken order.2.data)
    (h : Between link name digests.length j x) :
    Downloads link (Between link name digests.length digests.length) l x := by
  induction l generalizing j x with
  | nil =>
    have hall : digests.length ≤ j := by simpa [Lists] using hl
    obtain rfl : j = digests.length := by omega
    exact h
  | cons order l ih =>
    obtain ⟨hash, memory⟩ := order
    obtain ⟨hlt, rfl, hrest⟩ := hl.cons
    intro ticks hticks now stray
    have hcalm := h.calm (calm_idles h.idle ticks hticks)
    obtain ⟨hbusy, chunk, hserved, hstarted⟩ := hcalm.started hpub hlt now stray memory
    refine ⟨_, fun hr => absurd hr hbusy, fun y hy => ?_⟩
    have hgoing := (hstarted y hy).going (hgood _ List.mem_cons_self)
    refine (hgoing.settles hlt).mono ?_
    rintro z ⟨hidle, hreceiver, hsender, b, hc, hfilling⟩
    exact ih (by omega) hrest (fun o ho => hgood o (List.mem_cons_of_mem _ ho))
      (Filling.between hfilling hc hserved hidle hreceiver hsender)

/-- If a file is written in the end, then no first ACK was mistaken. -/
theorem downloads_only (hpub : Published link digests) (l : List (List Byte × Stray))
    (hl : Lists digests j l) (h : Between link name digests.length j x) (hd : Downloads link Q l x)
    (hq : ∀ y, Q y → y.receiver.written ≠ []) : ∀ order ∈ l, ¬Mistaken order.2.data := by
  induction l generalizing j x with
  | nil => simp
  | cons order l ih =>
    obtain ⟨hash, memory⟩ := order
    obtain ⟨hlt, rfl, hrest⟩ := hl.cons
    obtain ⟨hbusy, chunk, hserved, hstarted⟩ := h.started hpub hlt 0 memory memory
    have hnow := hd [] trivial 0 memory
    obtain ⟨y, hy⟩ := Classical.not_forall_not.mp hbusy
    have hgood : ¬Mistaken memory.data := by
      intro hm
      obtain ⟨z, hz, hjammed⟩ := (hstarted y hy).jams hlt hm (hnow.step hy)
      obtain ⟨w, hw, hempty⟩ := hjammed.downloads l hz
      exact hq w hw hempty
    have hgoing := (hstarted y hy).going hgood
    obtain ⟨z, ⟨hidle, hreceiver, hsender, b, hc, hfilling⟩, hz⟩ :=
      (hgoing.settles hlt).meet (hnow.step hy)
    rw [List.forall_mem_cons]
    exact ⟨hgood, ih hrest (Filling.between hfilling hc hserved hidle hreceiver hsender) hz⟩

theorem between_request (hpub : Published link digests) (hpos : 0 < digests.length) (now : Int)
    (outputfile : List Byte) (sender : Peer R) :
    Between link (outputfile.take 120) digests.length 0 (request link now outputfile sender) := by
  obtain ⟨⟨data, ret⟩, hloop⟩ :=
    whohasLoop_read link.endian
      (fun l (hl : l ∈ chunkLines digests) => (chunkLines_token l hl).le) 0 [] []
  have hoffsets := chunkLines_offsets hpub.distinct hpub.receiver
  have hcount : (chunkLines digests).length = (fileOffsets digests.length).length := by
    rw [← hoffsets, List.length_map, uncleared_length]
  have hnothing : sentTo inDownload link.senderAddr (broadcast link.receiver (generateWhohas
      link.endian link.receiver now (some (chunkLines digests)) outputfile
        (Peer.init : Peer R)).2.reverse) = [] :=
    broadcast_notCarried inDownload_whohas (generateWhohas_type _ _ now _ outputfile Peer.init)
  rw [request, hpub.receiver, Link.step, Link.receiverActs]
  dsimp only [act]
  rw [hnothing]
  simp only [generateWhohas, hloop, Nat.zero_add, hoffsets, hcount]
  refine ⟨rfl, rfl, rfl, rfl, fun _ _ => 0, ⟨by simp [Peer.init], by simp [Peer.init],
    by simp [Peer.init], by simp [Peer.init], fun o hl hu => by omega⟩, by simp, fun _ => ?_,
    fun hz => by omega⟩
  exact ⟨rfl, List.take_length, rfl⟩

end Whole

section Files

variable [Rate R] {shahash : List Byte → Digest} {file : List Byte}

omit [Rate R] in
theorem published_publish (link : Link) (hd : (makeChunks shahash file).Nodup) :
    Published (publish shahash link file) (makeChunks shahash file) :=
  ⟨rfl, rfl, hd⟩

omit [Rate R] in
theorem lists_orders (shahash : List Byte → Digest) (file : List Byte) (memory : Nat → Stray) :
    Lists (makeChunks shahash file) 0 (orders shahash file memory) := by
  apply List.ext_getElem
  · simp [orders]
  · intro k _ _
    simp [orders]

omit [Rate R] in
theorem forall_orders {memory : Nat → Stray} :
    (∀ order ∈ orders shahash file memory, ¬Mistaken order.2.data) ↔
      ∀ k < (makeChunks shahash file).length, ¬Mistaken (memory k).data := by
  simp only [orders, List.mem_mapIdx]
  constructor
  · intro h k hk
    exact h _ ⟨k, hk, rfl⟩
  · rintro h _ ⟨k, hk, rfl⟩
    exact h k hk

omit [Rate R] in
theorem Between.written_iff {link : Link} {name : List Byte} {x : System R}
    (hd : (makeChunks shahash file).Nodup)
    (h : Between (publish shahash link file) name (makeChunks shahash file).length
      (makeChunks shahash file).length x) :
    x.receiver.written = [(name, file)] ↔ 524288 ∣ file.length ∧ file.length ≤ 2147483648 := by
  obtain ⟨chunk, _, hserved, _, hclosed⟩ := h.buffers
  rw [(hclosed rfl).written, List.singleton_inj, Prod.mk.injEq, eq_self, true_and]
  exact wholeFile_iff hd hserved

theorem between_published (link : Link) (now : Int) (outputfile : List Byte) (sender : Peer R)
    (hd : (makeChunks shahash file).Nodup) (hne : file ≠ []) :
    Between (publish shahash link file) (outputfile.take 120) (makeChunks shahash file).length 0
      (request (publish shahash link file) now outputfile sender) := by
  apply between_request (published_publish link hd)
  have hpos := List.length_pos_iff.mpr hne
  rw [makeChunks_length]
  omega

theorem returns_only {link : Link} {now : Int} {outputfile : List Byte} {sender : Peer R}
    {memory : Nat → Stray} (hd : (makeChunks shahash file).Nodup) (hne : file ≠ [])
    (h : Returns shahash link now outputfile sender memory file) :
    524288 ∣ file.length ∧ file.length ≤ 2147483648 ∧
      ∀ k < (makeChunks shahash file).length, ¬Mistaken (memory k).data := by
  have hpub := published_publish link hd
  have hstart := between_published link now outputfile sender hd hne
  have hlists := lists_orders shahash file memory
  have hgood := downloads_only hpub _ hlists hstart h (fun x hx => by simp [hx])
  have hdone := downloads_between hpub _ (Nat.zero_le _) hlists hgood hstart
  obtain ⟨x, hx, hwritten⟩ := hdone.meet _ h
  obtain ⟨hdvd, hsize⟩ := (hx.written_iff hd).mp hwritten
  exact ⟨hdvd, hsize, forall_orders.mp hgood⟩

/-- The file comes back exactly when it has no short last chunk, all its
chunks can be sought, and no first ACK is mistaken. -/
theorem returns_iff (shahash : List Byte → Digest) (link : Link) (now : Int)
    (outputfile : List Byte) (sender : Peer R) (memory : Nat → Stray) (file : List Byte)
    (hd : (makeChunks shahash file).Nodup) (hne : file ≠ []) :
    Returns shahash link now outputfile sender memory file ↔
      524288 ∣ file.length ∧ file.length ≤ 2147483648 ∧
        ∀ k < (makeChunks shahash file).length, ¬Mistaken (memory k).data := by
  refine ⟨returns_only hd hne, ?_⟩
  rintro ⟨hdvd, hsize, hgood⟩
  have hdone := downloads_between (published_publish link hd) _ (Nat.zero_le _)
    (lists_orders shahash file memory) (forall_orders.mpr hgood)
    (between_published link now outputfile sender hd hne)
  exact hdone.mono (fun x hx => (hx.written_iff hd).mpr ⟨hdvd, hsize⟩) _

end Files

def zeroHash (_ : List Byte) : Digest := Vector.replicate 20 0

theorem not_mistaken_cleared : ¬Mistaken cleared.data := fun h => absurd h.2 (by decide)

/-- A file of one whole chunk comes back. -/
theorem returns_whole : Returns zeroHash pair 0 [] (Peer.init : Peer ℚ) (fun _ => cleared)
    (List.replicate 524288 0) := by
  have hne : List.replicate 524288 (0 : Byte) ≠ [] := by
    rw [ne_eq, List.replicate_eq_nil_iff]
    decide
  have hlen : (List.replicate 524288 (0 : Byte)).length = 524288 := List.length_replicate
  have hd : (makeChunks zeroHash (List.replicate 524288 0)).Nodup := by
    rw [makeChunks_single hne hlen.le]
    exact List.nodup_singleton _
  rw [returns_iff zeroHash pair 0 [] (Peer.init : Peer ℚ) (fun _ => cleared) _ hd hne, hlen]
  exact ⟨dvd_rfl, by decide, fun _ _ => not_mistaken_cleared⟩

/-- A file of one byte does not. -/
theorem not_returns_byte : (makeChunks zeroHash [7]).Nodup ∧
    ¬Returns zeroHash pair 0 [] (Peer.init : Peer ℚ) (fun _ => cleared) [7] := by
  have hne : [(7 : Byte)] ≠ [] := List.cons_ne_nil _ _
  have hd : (makeChunks zeroHash [7]).Nodup := by
    rw [makeChunks_single hne (by decide)]
    exact List.nodup_singleton _
  refine ⟨hd, fun h => ?_⟩
  obtain ⟨hdvd, _⟩ := returns_only hd hne h
  exact absurd hdvd (by decide)

end P2PCC.Download

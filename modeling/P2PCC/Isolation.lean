import P2PCC.Lib.Unwinding
import P2PCC.Receiving
import P2PCC.Window

namespace P2PCC.Isolation

open P2PCC.Lib.ByteOrder P2PCC.Lib.Runs P2PCC.Lib.Unwinding P2PCC.Packet P2PCC.ChunkFile
open P2PCC.Tracker P2PCC.Sender P2PCC.HandlePacket P2PCC.Peer P2PCC.Receiving P2PCC.Window

variable {R : Type}

section Definitions

variable [Rate R] (e : Endian) (config : Config)

def comesFrom (sockfd : Int) (event : Event) : Bool :=
  match delivery e config event with
  | none => false
  | some d => d.sockfd = sockfd

def GetOrAck (event : Event) : Prop :=
  ∃ d, delivery e config event = some d ∧
    (d.packet.header.packetType = 2 ∨ d.packet.header.packetType = 4)

def reply (peer : Peer R) (event : Event) : List DataPacket :=
  ((responses e config peer event).map Prod.snd).getD []

/-- The current transfer of the peer is the same in every field. -/
def SameTransfer (sockfd : Int) (p q : Peer R) : Prop :=
  getDataBySocket sockfd p.list = getDataBySocket sockfd q.list

end Definitions

variable {e : Endian}

theorem ackLoop_tracker (socket : Int) (n : Nat) (i : Int) (data : Data R)
    (first second : List PacketTracker) :
    (ackLoop socket n i data first).1 = (ackLoop socket n i data second).1 ∧
      (ackLoop socket n i data first).2.1 = (ackLoop socket n i data second).2.1 := by
  induction n generalizing i data first second with
  | zero => exact ⟨rfl, rfl⟩
  | succ n ih =>
    cases hs : data.state i with
    | unsend => simp only [ackLoop, hs, and_self]
    | unacked =>
      simp only [ackLoop, hs]
      exact ih _ _ _ _
    | acked =>
      simp only [ackLoop, hs]
      exact ih _ _ _ _

variable [Rate R]

theorem answer_tracker (ackNumber : Int) (data : Data R) (first second : List PacketTracker) :
    (data.answer e ackNumber first).1 = (data.answer e ackNumber second).1 ∧
      (data.answer e ackNumber first).2.2 = (data.answer e ackNumber second).2.2 := by
  unfold Data.answer
  split
  · exact ⟨rfl, rfl⟩
  · dsimp only
    split
    · split <;> exact ⟨rfl, rfl⟩
    · generalize (checkReturnAck data ackNumber).2 = checked
      obtain ⟨hsame, hdata⟩ : (ackPass checked.socket ackNumber checked first).1 =
            (ackPass checked.socket ackNumber checked second).1 ∧
          (ackPass checked.socket ackNumber checked first).2.1 =
            (ackPass checked.socket ackNumber checked second).2.1 :=
        ackLoop_tracker checked.socket _ _ checked first second
      cases hflag : (ackPass checked.socket ackNumber checked second).1 with
      | false =>
        rw [acceptAck_stopped hflag, acceptAck_stopped (hsame.trans hflag)]
        exact ⟨hdata, rfl⟩
      | true =>
        rw [acceptAck_through hflag, acceptAck_through (hsame.trans hflag), hdata]
        exact ⟨rfl, rfl⟩

theorem handleAck_same {socket : Int} (ackNumber : Int) {first second : List (Data R)}
    (tracker₁ tracker₂ : List PacketTracker)
    (h : getDataBySocket socket first = getDataBySocket socket second) :
    getDataBySocket socket (handleAck e socket ackNumber first tracker₁).1 =
        getDataBySocket socket (handleAck e socket ackNumber second tracker₂).1 ∧
      (handleAck e socket ackNumber first tracker₁).2.2 =
        (handleAck e socket ackNumber second tracker₂).2.2 := by
  cases hs : getDataBySocket socket second with
  | none =>
    rw [hs] at h
    simp only [handleAck, h, hs, and_self]
  | some data =>
    rw [hs] at h
    obtain ⟨hdata, hpackets⟩ := answer_tracker (e := e) ackNumber data tracker₁ tracker₂
    have hsocket : ∀ tracker, (data.answer e ackNumber tracker).1.socket = socket := fun tracker =>
      (data.answer_answered e ackNumber tracker).identity.1.trans (getDataBySocket_socket hs)
    rw [handleAck_eq e ackNumber tracker₁ h, handleAck_eq e ackNumber tracker₂ hs]
    refine ⟨?_, hpackets⟩
    rw [getDataBySocket_setData h (hsocket tracker₁), getDataBySocket_setData hs (hsocket tracker₂),
      hdata]

theorem handleAck_other {socket other : Int} (hne : other ≠ socket) (ackNumber : Int)
    (list : List (Data R)) (pTracker : List PacketTracker) :
    getDataBySocket other (handleAck e socket ackNumber list pTracker).1 =
      getDataBySocket other list := by
  cases hs : getDataBySocket socket list with
  | none => simp only [handleAck, hs]
  | some data =>
    rw [handleAck_eq e ackNumber pTracker hs]
    refine getDataBySocket_setData_other list ?_ hne
    exact (data.answer_answered e ackNumber pTracker).identity.1.trans (getDataBySocket_socket hs)

variable {config : Config} {sockfd : Int}

theorem handleGet_eq (stray : Stray) (sockfd : Int) (packet : DataPacket) (peer : Peer R) :
    handleGet e config stray sockfd packet peer =
      ({ peer with list := (newElement stray.data sockfd
          (getOffSetFromMasterChunkfile (packet.data.take 20) config)
          (getDataFromHash (packet.data.take 20) config stray.index stray.heap)).sendMore 1 ::
            peer.list },
        [dataPacket e (newElement stray.data sockfd
          (getOffSetFromMasterChunkfile (packet.data.take 20) config)
          (getDataFromHash (packet.data.take 20) config stray.index stray.heap) : Data R) 0]) := by
  dsimp only [handleGet]
  rw [sendData_initDatalist]

theorem handlePacket_same (now : Int) (stray : Stray) {packet : DataPacket}
    (ht : packet.header.packetType = 2 ∨ packet.header.packetType = 4) {p q : Peer R}
    (h : SameTransfer sockfd p q) :
    SameTransfer sockfd (handlePacket e config now stray packet sockfd p).1
        (handlePacket e config now stray packet sockfd q).1 ∧
      (handlePacket e config now stray packet sockfd p).2 =
        (handlePacket e config now stray packet sockfd q).2 := by
  obtain ht | ht := ht
  · rw [handlePacket_get _ _ _ _ _ _ ht, handlePacket_get _ _ _ _ _ _ ht, handleGet_eq, handleGet_eq]
    refine ⟨?_, rfl⟩
    exact (getDataBySocket_head rfl).trans (getDataBySocket_head rfl).symm
  · rw [handlePacket_ack _ _ _ _ _ _ ht, handlePacket_ack _ _ _ _ _ _ ht]
    exact handleAck_same _ p.pTracker q.pTracker h

theorem handlePacket_other (now : Int) (stray : Stray) {packet : DataPacket}
    (ht : packet.header.packetType = 2 ∨ packet.header.packetType = 4) {other : Int}
    (hne : sockfd ≠ other) (p : Peer R) :
    SameTransfer sockfd (handlePacket e config now stray packet other p).1 p := by
  obtain ht | ht := ht
  · rw [handlePacket_get _ _ _ _ _ _ ht, handleGet_eq]
    exact List.find?_cons_of_neg (by simpa [newElement, Data.sendMore] using Ne.symm hne)
  · rw [handlePacket_ack _ _ _ _ _ _ ht]
    exact handleAck_other hne _ p.list p.pTracker

theorem step_delivered {event : Event} {d : Delivery} (hd : delivery e config event = some d) :
    ∃ packet, d.packet.header.packetType = packet.header.packetType ∧ ∀ peer : Peer R,
      (step e config peer event).list =
        (handlePacket e config d.now d.stray packet d.sockfd peer).1.list ∧
      reply e config peer event = (handlePacket e config d.now d.stray packet d.sockfd peer).2 := by
  obtain ⟨fromAddr, packet, node, rfl, hp, hf, hid, hs⟩ := delivery_eq_some hd
  refine ⟨packet, by rw [hp, ntoh_packetType], fun peer => ⟨?_, ?_⟩⟩
  · rw [step, act, processInboundUdp_some hd]
  · rw [reply, responses, hf, Option.bind_some, if_neg hid, hs]
    rfl

/-- Two peers with the same transfer treat a GET or an ACK for it alike. -/
theorem step_own {sockfd : Int} {event : Event} (hevent : GetOrAck e config event)
    (hown : comesFrom e config sockfd event = true) {p q : Peer R} (hpq : SameTransfer sockfd p q) :
    SameTransfer sockfd (step e config p event) (step e config q event) ∧
      reply e config p event = reply e config q event := by
  obtain ⟨d, hd, ht⟩ := hevent
  obtain ⟨packet, htype, hstep⟩ := step_delivered (R := R) hd
  have hfrom : d.sockfd = sockfd := by simpa [comesFrom, hd] using hown
  rw [htype] at ht
  subst hfrom
  obtain ⟨hlist, hreply⟩ := handlePacket_same d.now d.stray ht hpq
  rw [SameTransfer, (hstep p).1, (hstep q).1, (hstep p).2, (hstep q).2]
  exact ⟨hlist, hreply⟩

theorem unwinds (e : Endian) (config : Config) (sockfd : Int) :
    Unwinds (step e config) (reply e config) (comesFrom e config sockfd)
      (SameTransfer (R := R) sockfd) (GetOrAck e config) := by
  refine ⟨?_, ?_, ?_⟩
  · exact fun p q event hevent hown hpq => (step_own hevent hown hpq).2
  · exact fun p q event hevent hown hpq => (step_own hevent hown hpq).1
  · rintro p q event ⟨d, hd, ht⟩ hother hpq
    obtain ⟨packet, htype, hstep⟩ := step_delivered (R := R) hd
    have hfrom : d.sockfd ≠ sockfd := by simpa [comesFrom, hd] using hother
    rw [htype] at ht
    rw [SameTransfer, (hstep p).1]
    exact (handlePacket_other d.now d.stray ht (Ne.symm hfrom) p).trans hpq

/-- What a peer gets from the sender, and the state of its transfer, are
those of the run in which the other peers send nothing. -/
theorem sender_isolated (e : Endian) (config : Config) (sockfd : Int) (peer : Peer R)
    (events : List Event) (hkind : ∀ event ∈ events, GetOrAck e config event) :
    getDataBySocket sockfd (run (step e config) peer events).list =
        getDataBySocket sockfd
          (run (step e config) peer (events.filter (comesFrom e config sockfd))).list ∧
      observe (step e config) (reply e config) (comesFrom e config sockfd) peer events =
        observe (step e config) (reply e config) (comesFrom e config sockfd) peer
          (events.filter (comesFrom e config sockfd)) :=
  ⟨(unwinds e config sockfd).run events hkind peer peer rfl,
    (unwinds e config sockfd).observe events hkind peer peer rfl⟩

/-- A GET or an ACK, as peer 2 or peer 3 sends it. -/
def getFrom (addr : SockAddr) : Event :=
  .inbound 0 cleared addr (initPacket .little 2 (some (chunkHash 48)) 20)

def ackFrom (addr : SockAddr) (n : BitVec 32) : Event :=
  .inbound 0 cleared addr
    { initPacket .little 4 none 0 with
      header := { (initPacket .little 4 none 0).header with ackNum := hton32 .little n } }

def interleaved : List Event :=
  [getFrom ⟨2, 2, 2⟩, getFrom ⟨2, 3, 3⟩, ackFrom ⟨2, 3, 3⟩ 1, ackFrom ⟨2, 2, 2⟩ 1,
    ackFrom ⟨2, 3, 3⟩ 1, ackFrom ⟨2, 2, 2⟩ 2]

theorem sender_isolated_run :
    getDataBySocket 2 (run (step .little network) (Peer.init : Peer ℚ) interleaved).list =
        getDataBySocket 2 (run (step .little network) (Peer.init : Peer ℚ)
          (interleaved.filter (comesFrom .little network 2))).list ∧
      observe (step .little network) (reply .little network) (comesFrom .little network 2)
          (Peer.init : Peer ℚ) interleaved =
        observe (step .little network) (reply .little network) (comesFrom .little network 2)
          (Peer.init : Peer ℚ) (interleaved.filter (comesFrom .little network 2)) := by
  refine sender_isolated .little network 2 Peer.init interleaved ?_
  have hget : ∀ addr, addr ∈ [(⟨2, 2, 2⟩ : SockAddr), ⟨2, 3, 3⟩] →
      GetOrAck .little network (getFrom addr) := by
    simp only [List.forall_mem_cons]
    exact ⟨⟨_, rfl, Or.inl rfl⟩, ⟨_, rfl, Or.inl rfl⟩, fun _ h => absurd h List.not_mem_nil⟩
  have hack : ∀ addr n, addr ∈ [(⟨2, 2, 2⟩ : SockAddr), ⟨2, 3, 3⟩] →
      GetOrAck .little network (ackFrom addr n) := by
    intro addr n
    revert addr
    simp only [List.forall_mem_cons]
    exact ⟨⟨_, rfl, Or.inr rfl⟩, ⟨_, rfl, Or.inr rfl⟩, fun _ h => absurd h List.not_mem_nil⟩
  simp only [interleaved, List.forall_mem_cons]
  exact ⟨hget _ (by decide), hget _ (by decide), hack _ _ (by decide), hack _ _ (by decide),
    hack _ _ (by decide), hack _ _ (by decide), fun _ h => absurd h List.not_mem_nil⟩

end P2PCC.Isolation

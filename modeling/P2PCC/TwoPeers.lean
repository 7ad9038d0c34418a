import P2PCC.Lib.Channel
import P2PCC.Tracking

namespace P2PCC.TwoPeers

open P2PCC.Lib.ByteOrder P2PCC.Lib.Runs P2PCC.Lib.Channel P2PCC.Packet P2PCC.ChunkFile P2PCC.Sender
open P2PCC.HandlePacket P2PCC.Peer P2PCC.Receiving

variable {R : Type}

/-- Two processes that have each other on their list of peers. -/
structure Link where
  endian : Endian
  receiver : Config
  sender : Config
  receiverId : Int
  senderId : Int
  receiverAddr : SockAddr
  senderAddr : SockAddr
  knowsSender : receiver.peers.find? (fun node => node.addr = senderAddr) =
    some ⟨senderId, senderAddr⟩
  knowsReceiver : sender.peers.find? (fun node => node.addr = receiverAddr) =
    some ⟨receiverId, receiverAddr⟩
  senderIdValid : senderId ≠ -1
  receiverIdValid : receiverId ≠ -1

theorem one_valid : (1 : Int) ≠ -1 := by decide

theorem two_valid : (2 : Int) ≠ -1 := by decide

/-- The two processes, the packets in flight in either direction, and all
that the sender has sent. -/
structure System (R : Type) where
  receiver : Peer R
  sender : Peer R
  toReceiver : List DataPacket
  toSender : List DataPacket
  log : List DataPacket

inductive Move where
  | faultToReceiver (fault : Fault)
  | faultToSender (fault : Fault)
  | deliverToReceiver (i : Nat) (now : Int) (stray : Stray)
  | deliverToSender (i : Nat) (now : Int) (stray : Stray)
  | tickReceiver (now : Int)
  | tickSender (now : Int)
  | request (now : Int) (chunkfile : Option (List ChunkLine)) (outputfile : List Byte)

/-- The packets that leave for an address, as far as the link carries them. -/
def sentTo (carries : DataPacket → Bool) (addr : SockAddr) (out : List (SockAddr × DataPacket)) :
    List DataPacket :=
  (out.filter (fun m => decide (m.1 = addr) && carries m.2)).map Prod.snd

section Steps

variable [Rate R] (link : Link) (carries : DataPacket → Bool)

def Link.receiverActs (s : System R) (event : Event) : System R :=
  let acted := act link.endian link.receiver s.receiver event
  { s with
    receiver := acted.1
    toSender := s.toSender ++ sentTo carries link.senderAddr acted.2 }

def Link.senderActs (s : System R) (event : Event) : System R :=
  let acted := act link.endian link.sender s.sender event
  { s with
    sender := acted.1
    toReceiver := s.toReceiver ++ sentTo carries link.receiverAddr acted.2
    log := s.log ++ sentTo carries link.receiverAddr acted.2 }

def Link.step (s : System R) : Move → System R
  | .faultToReceiver fault => { s with toReceiver := fault.apply s.toReceiver }
  | .faultToSender fault => { s with toSender := fault.apply s.toSender }
  | .deliverToReceiver i now stray =>
    match handOver i s.toReceiver with
    | none => s
    | some (packet, rest) =>
      link.receiverActs carries { s with toReceiver := rest }
        (.inbound now stray link.senderAddr packet)
  | .deliverToSender i now stray =>
    match handOver i s.toSender with
    | none => s
    | some (packet, rest) =>
      link.senderActs carries { s with toSender := rest }
        (.inbound now stray link.receiverAddr packet)
  | .tickReceiver now => link.receiverActs carries s (.tick now)
  | .tickSender now => link.senderActs carries s (.tick now)
  | .request now chunkfile outputfile =>
    link.receiverActs carries s (.command now chunkfile outputfile)

end Steps

theorem mem_sentTo {carries : DataPacket → Bool} {addr : SockAddr}
    {out : List (SockAddr × DataPacket)} {p : DataPacket} :
    p ∈ sentTo carries addr out ↔ (addr, p) ∈ out ∧ carries p = true := by
  simp only [sentTo, List.mem_map, List.mem_filter, Bool.and_eq_true, decide_eq_true_eq]
  constructor
  · rintro ⟨⟨a, q⟩, ⟨hm, rfl, hc⟩, rfl⟩
    exact ⟨hm, hc⟩
  · rintro ⟨hm, hc⟩
    exact ⟨(addr, p), ⟨hm, rfl, hc⟩, rfl⟩

theorem Link.delivery_receiver (link : Link) (now : Int) (stray : Stray) (packet : DataPacket) :
    delivery link.endian link.receiver (.inbound now stray link.senderAddr packet) =
      some ⟨now, stray, link.senderId, packet.ntoh link.endian⟩ := by
  rw [delivery, link.knowsSender, Option.bind_some, if_neg link.senderIdValid]

theorem Link.delivery_sender (link : Link) (now : Int) (stray : Stray) (packet : DataPacket) :
    delivery link.endian link.sender (.inbound now stray link.receiverAddr packet) =
      some ⟨now, stray, link.receiverId, packet.ntoh link.endian⟩ := by
  rw [delivery, link.knowsReceiver, Option.bind_some, if_neg link.receiverIdValid]

end P2PCC.TwoPeers

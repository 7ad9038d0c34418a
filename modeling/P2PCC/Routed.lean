import P2PCC.Datagrams
import P2PCC.Simulator
import P2PCC.Spiffy

namespace P2PCC.Routed

open P2PCC.Lib.ByteOrder P2PCC.Lib.Runs P2PCC.Lib.Network P2PCC.Lib.Words P2PCC.Packet
open P2PCC.ChunkFile P2PCC.Tracker P2PCC.Sender P2PCC.Receiver P2PCC.HandlePacket P2PCC.Peer P2PCC.Receiving
open P2PCC.Tracking P2PCC.Swarm P2PCC.Wire P2PCC.Datagrams P2PCC.Spiffy
open P2PCC.Simulator (destination)

variable {R ι : Type}

/-- The address that `peer_run` binds and hands to `spiffy_init`: any address
of its host. -/
def myaddr (e : Endian) (myport : Int) : SockAddr :=
  ⟨2, hton16 e (BitVec.ofInt 16 myport), hton32 e 0⟩

/-- The processes of a swarm that have all been started behind a router, and
the list of nodes of that router. -/
structure Site (net : Net ι) where
  inetAton : ι → List Byte → Option (BitVec 32)
  env : ι → List Byte
  myport : ι → Int
  nodes : BitVec 32 → BitVec 16 → Option ι
  started : ∀ i, (spiffyInit (net.endian i) (inetAton i) (some (env i)) (net.identity i)
    (myaddr (net.endian i) (myport i)) .initial).1 = 0

/-- What a process finds when it takes a datagram: what is on its stack, and
what `spiffy_recvfrom` has allocated. -/
structure Arrival where
  inbound : Inbound
  newbuf : List Byte
  newSize : newbuf.length = 1516
  stale : SockAddr
  via : SockAddr

/-- What is behind the header is what a process without a router finds. -/
def Arrival.view (d : Arrival) : Inbound where
  draw := d.inbound.draw
  buf := d.newbuf.drop 16
  size := by rw [List.length_drop, d.newSize]

section Definitions

variable {net : Net ι}

def Site.globals (site : Site net) (i : ι) : Globals :=
  (spiffyInit (net.endian i) (site.inetAton i) (some (site.env i)) (net.identity i)
    (myaddr (net.endian i) (site.myport i)) .initial).2

def arrives (site : Site net) (j : ι) (m : Datagram ι) (d : Arrival) : Event :=
  let received := spiffyRecvfrom (net.endian j) (site.globals j) d.newbuf d.inbound.buf d.stale
    (d.via, m.bytes)
  .inbound d.inbound.draw.now d.inbound.draw.stray received.2.2
    (buildPacketFromBuf (net.endian j) received.2.1)

variable [Rate R]

def routes (site : Site net) (behind : ι → DataPacket → List Byte) (i : ι) (node : Node R)
    (event : Event) : Node R × List (Datagram ι) :=
  let acted := act (net.endian i) (net.config i) node.peer event
  ({ peer := acted.1, orders := ordered (net.config i) event ++ node.orders },
    acted.2.filterMap fun m =>
      (spiffySendto (net.endian i) (site.globals i)
        (headerBytes (net.endian i) m.2.header ++ m.2.data ++ behind i m.2)
        (hton16 (net.endian i) m.2.header.packetLen).toNat m.1).map
          fun sent => ⟨i, sent.1, sent.2⟩)

variable [DecidableEq ι]

/-- The processes of a site, and the datagrams on their way to the router or
behind it. It hands each to the node that its header names. -/
def routed (site : Site net) (behind : ι → DataPacket → List Byte) :
    Protocol ι (Node R) (Datagram ι) Arrival Input where
  init _ := { peer := Peer.init, orders := [] }
  accepts j m := decide (destination site.nodes m.bytes = some j)
  receive j node m d := routes site behind j node (arrives site j m d)
  input i node x := routes site behind i node x.event

end Definitions

section Globals

variable {net : Net ι} (site : Site net) (i : ι)

theorem globals_enabled : (site.globals i).giSpiffyEnabled = true :=
  (spiffyInit_zero (site.started i)).1

theorem globals_addr : (site.globals i).glSrcAddr = 0 :=
  (spiffyInit_zero (site.started i)).2.1.trans (hton32_zero (net.endian i))

theorem globals_port : (site.globals i).gsSrcPort =
    hton16 (net.endian i) (BitVec.ofInt 16 (site.myport i)) :=
  (spiffyInit_zero (site.started i)).2.2.1

end Globals

/-- A datagram that does not say from which address it is. -/
def Anonymous (m : Datagram ι) : Prop :=
  ∃ e h rest, h.lSrcAddr = 0 ∧ m.bytes = SpiffyHeader.bytes e h ++ rest

/-- A process that has neither served nor received anything. -/
structure Idle (node : Node R) : Prop where
  list : node.peer.list = []
  pTracker : node.peer.pTracker = []
  recvList : node.peer.recvList = []
  written : node.peer.written = []

section Anonymous

variable {net : Net ι} {site : Site net} {j : ι} {node : Node R} {m : Datagram ι}

theorem arrives_header {e : Endian} {h : SpiffyHeader} {rest : List Byte}
    (hm : m.bytes = h.bytes e ++ rest) (d : Arrival) : arrives site j m d =
      .inbound d.inbound.draw.now d.inbound.draw.stray
        ⟨2, hton16 (net.endian j) (hton16 e h.lSrcPort), hton32 (net.endian j) (hton32 e h.lSrcAddr)⟩
        (buildPacketFromBuf (net.endian j) (recvfrom d.view.buf rest)) := by
  have hbuf : d.newbuf.length = 16 + d.inbound.buf.length := by
    rw [d.newSize, d.inbound.size]
  rw [arrives, hm, spiffyRecvfrom_header (globals_enabled site j) h rest hbuf]
  rfl

theorem arrives_unknown (site : Site net) (d : Arrival)
    (hlist : ∀ node ∈ net.peers j, node.addr.sAddr ≠ 0) (hm : Anonymous m) :
    delivery (net.endian j) (net.config j) (arrives site j m d) = none := by
  obtain ⟨e, h, rest, hzero, hbytes⟩ := hm
  rw [arrives_header hbytes, hzero, hton32_zero, hton32_zero, delivery, Option.bind_eq_none_iff]
  intro node hf
  have haddr : node.addr = ⟨2, hton16 (net.endian j) (hton16 e h.lSrcPort), 0⟩ := by
    simpa using List.find?_some hf
  exact absurd (congrArg SockAddr.sAddr haddr) (hlist node (List.mem_of_find?_eq_some hf))

variable [Rate R]

theorem routes_anonymous {behind : ι → DataPacket → List Byte} {event : Event} :
    ∀ m ∈ (routes site behind j node event).2, Anonymous m := by
  intro m hm
  obtain ⟨sent, _, hs⟩ := List.mem_filterMap.mp hm
  obtain ⟨datagram, hd, rfl⟩ := Option.map_eq_some_iff.mp hs
  rw [spiffySendto, if_pos (globals_enabled site j)] at hd
  split at hd
  · obtain rfl := Option.some.inj hd
    exact ⟨_, _, _, globals_addr site j, rfl⟩
  · cases hd

theorem idle_input {behind : ι → DataPacket → List Byte} (x : Input) (h : Idle node) :
    Idle (routes site behind j node x.event).1 := by
  obtain ⟨hlist, htracker, hrecv, hwritten⟩ := h
  cases x with
  | tick now =>
    obtain ⟨hsame, hsame'⟩ := regenerateWhohas_sending (net.endian j) (net.config j) now node.peer
    have hrelease : (regenerateWhohas (net.endian j) (net.config j) now node.peer).1.recvList = [] :=
      regenerateWhohas_induction (P := (· = [])) (fun _ l hl => by rw [hl]; rfl) _ _ _ _ hrecv
    have hnothing : (regenerateWhohas (net.endian j) (net.config j) now node.peer).1.written =
        node.peer.written := by
      unfold regenerateWhohas
      split <;> rfl
    dsimp only [routes, Input.event, act, peerTick]
    rw [hsame, hsame', htracker, hlist]
    exact ⟨rfl, rfl, hrelease, hnothing.trans hwritten⟩
  | request now chunkfile outputfile =>
    obtain ⟨fm, heq, _⟩ := generateWhohas_opens (net.endian j) (net.config j) now chunkfile
      outputfile node.peer
    dsimp only [routes, Input.event, act]
    rw [heq]
    exact ⟨hlist, htracker, hrecv, hwritten⟩

variable [DecidableEq ι]

theorem idle_keeps (site : Site net) (behind : ι → DataPacket → List Byte)
    (hlist : ∀ j, ∀ node ∈ net.peers j, node.addr.sAddr ≠ 0) :
    Keeps (routed (R := R) site behind) (fun _ => Idle) Anonymous (fun _ _ _ _ => True)
      (fun _ _ _ => True) := by
  refine ⟨fun _ => ⟨rfl, rfl, rfl, rfl⟩, ?_, fun _ _ x h _ => ⟨idle_input x h, routes_anonymous⟩⟩
  intro j node m d h hm _ _
  refine ⟨?_, routes_anonymous⟩
  have hnone := arrives_unknown site d (hlist j) hm
  have harrives : ∃ now stray fromAddr packet,
      arrives site j m d = .inbound now stray fromAddr packet := ⟨_, _, _, _, rfl⟩
  obtain ⟨now, stray, fromAddr, packet, heq⟩ := harrives
  rw [heq] at hnone
  have hsame : (routes site behind j node (arrives site j m d)).1.peer = node.peer := by
    rw [routes, heq, act, processInboundUdp_none hnone]
  obtain ⟨hlist, htracker, hrecv, hwritten⟩ := h
  exact ⟨hsame ▸ hlist, hsame ▸ htracker, hsame ▸ hrecv, hsame ▸ hwritten⟩

/-- Behind the router, processes that do not list each other under no address
never serve, receive or write anything, whatever is asked of them. -/
theorem unheard (net : Net ι) (site : Site net) (behind : ι → DataPacket → List Byte)
    (hlist : ∀ j, ∀ node ∈ net.peers j, node.addr.sAddr ≠ 0) (moves : List (Move ι Arrival Input)) :
    ∀ j, Idle ((run (routed (R := R) site behind).step (routed site behind).start moves).party j) :=
  ((idle_keeps site behind hlist).run moves
    (along_of_forall _ _ fun _ move _ => by cases move <;> simp [Protocol.Guarded])).party

/-- `127.0.0.1:15441`. -/
def spiffyRouter : List Byte := [49, 50, 55, 46, 48, 46, 48, 46, 49, 58, 49, 53, 52, 52, 49]

/-- The pair behind a router on its host. -/
def pairSite : Site pair where
  inetAton i _ := some (hton32 (pair.endian i) 0x7f000001)
  env _ := spiffyRouter
  myport i := if i then 48002 else 48001
  nodes addr port := if addr = 0x7f000001 then
    if port = 48001 then some false else if port = 48002 then some true else none
    else none
  started i := by cases i <;> decide

/-- What a process takes, with other things left in all its buffers. -/
def arrival (now : Int) : Arrival :=
  ⟨dirty now, List.replicate 1516 170, List.length_replicate, ⟨0, 0, 0⟩, ⟨2, 15441, 0x7f000001⟩⟩

theorem unheard_pair : Idle ((run (routed (R := ℚ) pairSite fun _ _ => []).step
    (routed pairSite fun _ _ => []).start
    [.input false (.request 0 (some [firstLine]) []), .deliver 0 true (arrival 1)]).party true) := by
  apply unheard pair pairSite
  decide

end Anonymous

section Targets

variable [Rate R] (e : Endian) (config : Config) {peer : Peer R} {P : SockAddr → Prop}

/-- A process only sends to its peers, to where a packet came from, and to
where it has sent before. -/
theorem act_targets (event : Event) (hpeers : ∀ node ∈ config.peers, P node.addr)
    (hfrom : ∀ now stray fromAddr packet, event = .inbound now stray fromAddr packet → P fromAddr)
    (h : ∀ t ∈ peer.pTracker, t.seq ≠ -441 → P t.fromAddr) :
    (∀ t ∈ (act e config peer event).1.pTracker, t.seq ≠ -441 → P t.fromAddr) ∧
      ∀ m ∈ (act e config peer event).2, P m.1 := by
  have hbroadcast : ∀ packets, ∀ m ∈ broadcast config packets, P m.1 := by
    intro packets m hm
    obtain ⟨packet, _, hm⟩ := List.mem_flatMap.mp hm
    obtain ⟨node, hnode, rfl⟩ := List.mem_map.mp hm
    exact hpeers node (List.mem_of_mem_filter hnode)
  refine ⟨?_, ?_⟩
  · refine step_tracker (Q := fun t => t.seq ≠ -441 → P t.fromAddr) ?_ e config ?_ ?_ peer event ?_ h
    · exact fun _ _ _ ht => ht
    · exact fun _ hs => absurd rfl hs
    · exact fun t _ ht => ht
    · exact fun now stray fromAddr packet d he _ _ _ _ _ _ _ => hfrom now stray fromAddr packet he
  · intro m hm
    cases event with
    | command now chunkfile outputfile => exact hbroadcast _ m hm
    | tick now =>
      obtain ⟨htracker, hlist⟩ := regenerateWhohas_sending e config now peer
      dsimp only [act, peerTick] at hm
      rw [htracker, hlist] at hm
      obtain hm | hm := List.mem_append.mp hm
      · exact hbroadcast _ m hm
      · obtain ⟨t, ht, hs, rfl⟩ := retransmit_sent e now _ _ m hm
        exact h t ht hs
    | inbound now stray fromAddr packet =>
      cases hd : delivery e config (.inbound now stray fromAddr packet) with
      | none =>
        rw [act, processInboundUdp_none hd] at hm
        exact absurd hm List.not_mem_nil
      | some d =>
        obtain ⟨_, _, haddr, _⟩ := inbound_sent e hd peer m hm
        rw [haddr]
        exact hfrom now stray fromAddr packet rfl

end Targets

/-- What `spiffy_recvfrom` reports for a process behind the router: its port
and no host. -/
def Site.reported {net : Net ι} (site : Site net) (j i : ι) : SockAddr :=
  ⟨2, hton16 (net.endian j) (BitVec.ofInt 16 (site.myport i)), 0⟩

/-- The lists of peers have processes under their ports and no address, and
nobody else, and the router has each under its port at the address of its host. -/
structure Listed {net : Net ι} (site : Site net) : Prop where
  known : ∀ j i node, (net.peers j).find? (fun node => node.addr = site.reported j i) = some node →
    node.id = net.identity i
  closed : ∀ j, ∀ node ∈ net.peers j, ∃ i, node.addr = site.reported j i
  listed : ∀ port i, site.nodes 0x7f000001 port = some i ↔
    port = BitVec.ofInt 16 (site.myport i)

theorem reported_injective {net : Net ι} {site : Site net} (h : Listed site) (j : ι) :
    Function.Injective (site.reported j) := by
  intro i k hik
  obtain ⟨_, hport, _⟩ := SockAddr.mk.inj hik
  have hsame : BitVec.ofInt 16 (site.myport i) = BitVec.ofInt 16 (site.myport k) := by
    rw [← hton16_hton16 (net.endian j) (BitVec.ofInt 16 (site.myport i)), hport, hton16_hton16]
  have hi := (h.listed _ i).mpr rfl
  rw [hsame, (h.listed _ k).mpr rfl] at hi
  exact (Option.some.inj hi).symm

/-- The processes without `spiffy.c` and the router, over a network that carries
what is sent to a port without a host, and reports its senders in that way. No
kernel does; it is what the router adds up to. -/
def reporting {net : Net ι} (site : Site net) (h : Listed site) : Net ι :=
  { net with
    addr := site.reported
    addr_injective := reported_injective h
    knows := h.known }

/-- A datagram with a header in front of the same bytes. -/
structure Headed {net : Net ι} (site : Site net) (n m : Datagram ι) : Prop where
  source : n.source = m.source
  target : ∃ k, m.target = site.reported m.source k
  bytes : n.bytes = (sHead (net.endian m.source) (site.globals m.source) m.target).bytes
    (net.endian m.source) ++ m.bytes

/-- The same process, which only sends to processes. -/
def Sends {net : Net ι} (site : Site net) (i : ι) (node node' : Node R) : Prop :=
  node = node' ∧ ∀ t ∈ node'.peer.pTracker, t.seq ≠ -441 → ∃ k, t.fromAddr = site.reported i k

section Headers

variable {net : Net ι} {site : Site net} {i j : ι} {node node' : Node R}

theorem destination_header {κ : Type} (nodes : BitVec 32 → BitVec 16 → Option κ) (e : Endian)
    (h : SpiffyHeader) (body : List Byte) : destination nodes (h.bytes e ++ body) =
      nodes (if hton32 e h.lDestAddr = 0 then 0x7f000001 else hton32 e h.lDestAddr)
        (hton16 e h.lDestPort) := by
  unfold SpiffyHeader.bytes
  simp only [store16_eq, store32_eq]
  simp only [destination, octets16, octets, List.cons_append, List.nil_append, List.getD_cons_zero,
    List.getD_cons_succ, word16_octets16, word_octets]

theorem destination_listed (h : Listed site) {n m : Datagram ι} (hm : Headed site n m) :
    destination site.nodes n.bytes = some j ↔ m.target = site.reported m.source j := by
  obtain ⟨k, hk⟩ := hm.target
  have haddr : (sHead (net.endian m.source) (site.globals m.source) m.target).lDestAddr = 0 := by
    rw [sHead, hk, Site.reported]
  have hport : (sHead (net.endian m.source) (site.globals m.source) m.target).lDestPort =
      hton16 (net.endian m.source) (BitVec.ofInt 16 (site.myport k)) := by
    rw [sHead, hk, Site.reported]
  have hhere := (h.listed _ k).mpr rfl
  rw [hm.bytes, destination_header, haddr, hport, hton32_zero, if_pos rfl, hton16_hton16, hhere, hk,
    Option.some.injEq]
  exact (reported_injective h m.source).eq_iff.symm

/-- What arrives under a header is what that network brings. -/
theorem arrives_headed (h : Listed site) {n m : Datagram ι} (hm : Headed site n m) (d : Arrival) :
    arrives site j n d = taken (reporting site h) j m d.view := by
  rw [arrives_header hm.bytes, taken]
  dsimp only [sHead, reporting, Site.reported]
  rw [globals_addr, globals_port, hton16_hton16, hton32_zero, hton32_zero]
  rfl

variable [Rate R]

theorem routes_sends (h : Listed site) (behind : ι → DataPacket → List Byte) {event : Event}
    (hnode : Sends site i node node')
    (hfrom : ∀ now stray fromAddr packet, event = .inbound now stray fromAddr packet →
      ∃ k, fromAddr = site.reported i k) :
    Sends site i (routes site behind i node event).1
        (sends (reporting site h) behind i node' event).1 ∧
      List.Forall₂ (Headed site) (routes site behind i node event).2
        (sends (reporting site h) behind i node' event).2 := by
  obtain ⟨rfl, htracks⟩ := hnode
  obtain ⟨hkeeps, htargets⟩ := act_targets (net.endian i) (net.config i)
    (P := fun a => ∃ k, a = site.reported i k) event (h.closed i) hfrom htracks
  refine ⟨⟨rfl, hkeeps⟩, ?_⟩
  have hall : (routes site behind i node event).2 =
      (act (net.endian i) (net.config i) node.peer event).2.map fun m =>
        ⟨i, (site.globals i).gsSpiffyRouter,
          (sHead (net.endian i) (site.globals i) m.1).bytes (net.endian i) ++
            datagram (behind i m.2) (net.endian i) m.2⟩ := by
    rw [routes, ← List.filterMap_eq_map]
    apply List.filterMap_congr
    intro m hm
    obtain ⟨k, hk⟩ := htargets m hm
    have hfamily : m.1.sinFamily = 2 := by
      rw [hk, Site.reported]
    rw [spiffySendto, if_pos (globals_enabled site i), if_pos hfamily]
    rfl
  have hsent : (sends (reporting site h) behind i node event).2 =
      (act (net.endian i) (net.config i) node.peer event).2.map fun m =>
        ⟨i, m.1, datagram (behind i m.2) (net.endian i) m.2⟩ := rfl
  rw [hall, hsent, List.forall₂_map_left_iff, List.forall₂_map_right_iff, List.forall₂_same]
  exact fun m hm => ⟨rfl, htargets m hm, rfl⟩

variable [DecidableEq ι]

theorem routed_simulates (site : Site net) (h : Listed site)
    (behind : ι → DataPacket → List Byte) :
    Simulates (routed (R := R) site behind) (wire (reporting site h) behind) Arrival.view
      (Sends site) (Headed site) := by
  refine ⟨?_, ?_, ?_, ?_⟩
  · exact fun i => ⟨rfl, fun _ ht => absurd ht List.not_mem_nil⟩
  · intro j n m hm
    exact decide_eq_decide.mpr (destination_listed h hm)
  · intro j node node' n m d hnode hm _
    show Sends site j (routes site behind j node (arrives site j n d)).1 _ ∧
      List.Forall₂ (Headed site) (routes site behind j node (arrives site j n d)).2 _
    rw [arrives_headed h hm]
    apply routes_sends h behind hnode
    intro now stray fromAddr packet he
    obtain ⟨_, _, rfl, _⟩ := Event.inbound.inj he
    exact ⟨m.source, rfl⟩
  · intro j node node' x hnode
    apply routes_sends h behind hnode
    intro now stray fromAddr packet he
    cases x <;> cases he

/-- Where processes are listed under no address, `spiffy.c` and the router are a
network that reports their ports: in every run the processes are in the states
they would be in over it, and under the headers are the same bytes. -/
theorem routed_run (site : Site net) (h : Listed site) (behind : ι → DataPacket → List Byte)
    (moves : List (Move ι Arrival Input)) :
    Related (Sends site) (Headed site)
      (run (routed (R := R) site behind).step (routed site behind).start moves)
      (run (wire (reporting site h) behind).step (wire (reporting site h) behind).start
        (moves.map (Move.seen Arrival.view))) :=
  (routed_simulates site h behind).run moves

end Headers

section AnyPair

/-- The pair on one host, with lists that give only the ports. -/
def anyPair : Net Bool :=
  { pair with
    peers := fun j => [⟨1, 2, hton16 (pair.endian j) 48001, 0⟩, ⟨2, 2, hton16 (pair.endian j) 48002, 0⟩]
    addr := fun j i =>
      ⟨2, hton16 (pair.endian j) (if i then 48002 else 48001), hton32 (pair.endian j) 0x7f000001⟩
    addr_injective := by
      intro j i i' h
      revert h
      cases j <;> cases i <;> cases i' <;> decide
    knows := by
      intro j i node h
      revert h
      cases j <;> cases i <;> exact fun h => nomatch h }

def anySite : Site anyPair where
  inetAton := pairSite.inetAton
  env := pairSite.env
  myport := pairSite.myport
  nodes := pairSite.nodes
  started := pairSite.started

theorem anySite_listed : Listed anySite := by
  refine ⟨?_, ?_, ?_⟩
  · intro j i node h
    cases j <;> cases i <;> (obtain rfl := Option.some.inj h; rfl)
  · intro j node hnode
    obtain rfl | hnode := List.mem_cons.mp hnode
    · exact ⟨false, rfl⟩
    · rw [List.mem_singleton.mp hnode]
      exact ⟨true, rfl⟩
  · intro port i
    have hnodes : anySite.nodes 0x7f000001 port =
        if port = 48001 then some false else if port = 48002 then some true else none := by
      simp only [anySite, pairSite, ↓reduceIte]
    have hport : BitVec.ofInt 16 (anySite.myport i) = if i then 48002 else 48001 := by
      cases i <;> decide
    rw [hnodes, hport]
    by_cases hfirst : port = 48001
    · subst hfirst
      cases i <;> decide
    · rw [if_neg hfirst]
      by_cases hsecond : port = 48002
      · subst hsecond
        cases i <;> decide
      · rw [if_neg hsecond]
        cases i with
        | false => exact iff_of_false (by decide) hfirst
        | true => exact iff_of_false (by decide) hsecond

theorem routed_run_anyPair : Related (Sends anySite) (Headed anySite)
    (run (routed (R := ℚ) anySite fun _ _ => []).step (routed anySite fun _ _ => []).start
      [.input false (.request 0 (some [firstLine]) []), .deliver 0 true (arrival 1)])
    (run (wire (reporting anySite anySite_listed) fun _ _ => []).step
      (wire (reporting anySite anySite_listed) fun _ _ => []).start
      [.input false (.request 0 (some [firstLine]) []), .deliver 0 true (arrival 1).view]) :=
  routed_run anySite anySite_listed _
    [.input false (.request 0 (some [firstLine]) []), .deliver 0 true (arrival 1)]

end AnyPair

end P2PCC.Routed

import P2PCC.Lib.Scan
import P2PCC.Wire

namespace P2PCC.Spiffy

open P2PCC.Lib.ByteOrder P2PCC.Lib.Words P2PCC.Packet P2PCC.Wire
open P2PCC.Lib.Scan (atoi)

structure SpiffyHeader where
  id : BitVec 32
  lSrcAddr : BitVec 32
  lDestAddr : BitVec 32
  lSrcPort : BitVec 16
  lDestPort : BitVec 16

/-- A `spiffy_header` in the memory of its host. -/
def SpiffyHeader.bytes (e : Endian) (h : SpiffyHeader) : List Byte :=
  store32 e h.id ++ store32 e h.lSrcAddr ++ store32 e h.lDestAddr ++ store16 e h.lSrcPort ++
    store16 e h.lDestPort

def spiffyHeaderFromBuf (e : Endian) (buf : List Byte) : SpiffyHeader :=
  { id := load32 e (buf.getD 0 0) (buf.getD 1 0) (buf.getD 2 0) (buf.getD 3 0)
    lSrcAddr := load32 e (buf.getD 4 0) (buf.getD 5 0) (buf.getD 6 0) (buf.getD 7 0)
    lDestAddr := load32 e (buf.getD 8 0) (buf.getD 9 0) (buf.getD 10 0) (buf.getD 11 0)
    lSrcPort := load16 e (buf.getD 12 0) (buf.getD 13 0)
    lDestPort := load16 e (buf.getD 14 0) (buf.getD 15 0) }

structure Globals where
  glSrcAddr : BitVec 32
  gsSrcPort : BitVec 16
  giSpiffyEnabled : Bool
  glNodeID : Int
  gsSpiffyRouter : SockAddr

def Globals.initial : Globals := ⟨0, 0, false, 0, ⟨0, 0, 0⟩⟩

/-- The environment is what `getenv` finds. The family of the router's address
is never set. -/
def spiffyInit (e : Endian) (inetAton : List Byte → Option (BitVec 32)) (env : Option (List Byte))
    (lNodeID : Int) (addr : SockAddr) (g : Globals) : Int × Globals :=
  match env with
  | none => (1, g)
  | some cSpiffyName =>
    match cSpiffyName.dropWhile (· ≠ 58) with
    | [] => (-1, g)
    | _ :: port =>
      let g := { g with gsSpiffyRouter :=
        { g.gsSpiffyRouter with sinPort := hton16 e (BitVec.ofInt 16 (atoi port)) } }
      match inetAton (cSpiffyName.takeWhile (· ≠ 58)) with
      | none => (-1, g)
      | some sAddr =>
        (0, { glSrcAddr := addr.sAddr
              gsSrcPort := addr.sinPort
              giSpiffyEnabled := true
              glNodeID := lNodeID
              gsSpiffyRouter := { g.gsSpiffyRouter with sAddr := sAddr } })

/-- The header that `spiffy_sendto` puts in front of a message. -/
def sHead (e : Endian) (g : Globals) (toAddr : SockAddr) : SpiffyHeader :=
  { id := hton32 e (BitVec.ofInt 32 g.glNodeID)
    lSrcAddr := g.glSrcAddr
    lDestAddr := toAddr.sAddr
    lSrcPort := g.gsSrcPort
    lDestPort := toAddr.sinPort }

/-- The datagram that is sent, if one is. The first `len` bytes of `msg` are
the message. -/
def spiffySendto (e : Endian) (g : Globals) (msg : List Byte) (len : Nat) (toAddr : SockAddr) :
    Option (SockAddr × List Byte) :=
  if g.giSpiffyEnabled then
    if toAddr.sinFamily = 2 then
      some (g.gsSpiffyRouter, (sHead e g toAddr).bytes e ++ msg.take len)
    else none
  else some (toAddr, msg.take len)

/-- What the caller of `spiffy_sendto` gets, of what `sendto` returned. -/
def spiffySent (g : Globals) (toAddr : SockAddr) (retVal : Int) : Int :=
  if g.giSpiffyEnabled then
    if toAddr.sinFamily = 2 then if retVal > 0 then retVal - 16 else retVal
    else -1
  else retVal

/-- The value returned, the caller's buffer and the address it is given. The
caller's buffer and address are as they were when nothing arrives; `newbuf` is
what has been allocated. -/
def spiffyRecvfrom (e : Endian) (g : Globals) (newbuf buffer : List Byte) (addr : SockAddr)
    (arrived : SockAddr × List Byte) : Int × List Byte × SockAddr :=
  if g.giSpiffyEnabled then
    let retVal : Int := (arrived.2.take newbuf.length).length
    let newbuf := recvfrom newbuf arrived.2
    if retVal > 0 then
      let sHead := spiffyHeaderFromBuf e newbuf
      (retVal - 16, (newbuf.drop 16).take buffer.length, ⟨2, sHead.lSrcPort, sHead.lSrcAddr⟩)
    else (retVal, buffer, addr)
  else ((arrived.2.take buffer.length).length, recvfrom buffer arrived.2, arrived.1)

section RoundTrips

variable {e e' : Endian} {g g' : Globals}

@[simp] theorem bytes_length (e : Endian) (h : SpiffyHeader) : (h.bytes e).length = 16 := by
  cases e <;> rfl

theorem recvfrom_length (buf bytes : List Byte) : (recvfrom buf bytes).length = buf.length := by
  simp only [recvfrom, List.length_append, List.length_take, List.length_drop]
  omega

theorem header_carried (e e' : Endian) (h : SpiffyHeader) (rest : List Byte) :
    spiffyHeaderFromBuf e' (h.bytes e ++ rest) =
      { id := hton32 e' (hton32 e h.id)
        lSrcAddr := hton32 e' (hton32 e h.lSrcAddr)
        lDestAddr := hton32 e' (hton32 e h.lDestAddr)
        lSrcPort := hton16 e' (hton16 e h.lSrcPort)
        lDestPort := hton16 e' (hton16 e h.lDestPort) } := by
  have h32 : ∀ a b c d, load32 e' a b c d = hton32 e' (word a b c d) := by
    intro a b c d
    rw [← hton32_load32 e', hton32_hton32]
  have h16 : ∀ a b, load16 e' a b = hton16 e' (word16 a b) := by
    intro a b
    rw [← hton16_load16 e', hton16_hton16]
  unfold SpiffyHeader.bytes
  simp only [store16_eq, store32_eq]
  simp only [spiffyHeaderFromBuf, octets16, octets, List.cons_append, List.nil_append,
    List.getD_cons_zero, List.getD_cons_succ, h32, h16, word16_octets16, word_octets]

/-- What comes under a header is read without it, and is from the address in
the header. -/
theorem spiffyRecvfrom_header (hg : g.giSpiffyEnabled = true) (h : SpiffyHeader) (body : List Byte)
    {newbuf buffer : List Byte} (hbuf : newbuf.length = 16 + buffer.length) (addr via : SockAddr) :
    spiffyRecvfrom e' g newbuf buffer addr (via, h.bytes e ++ body) =
      (((body.take buffer.length).length : Int), recvfrom (newbuf.drop 16) body,
        ⟨2, hton16 e' (hton16 e h.lSrcPort), hton32 e' (hton32 e h.lSrcAddr)⟩) := by
  have hcarried := header_carried e e' h (recvfrom (newbuf.drop 16) body)
  have hlen := bytes_length e h
  generalize h.bytes e = header at hcarried hlen
  have hfits : (header ++ body).take newbuf.length = header ++ body.take buffer.length := by
    rw [hbuf, ← hlen, List.take_length_add_append]
  have hnew : recvfrom newbuf (header ++ body) = header ++ recvfrom (newbuf.drop 16) body := by
    have hrest : (newbuf.drop 16).length = buffer.length := by
      rw [List.length_drop]
      omega
    rw [recvfrom, recvfrom, hfits, hrest, List.append_assoc, List.length_append, hlen,
      List.drop_drop]
  have hwhole : (recvfrom (newbuf.drop 16) body).take buffer.length =
      recvfrom (newbuf.drop 16) body := by
    apply List.take_of_length_le
    rw [recvfrom_length, List.length_drop]
    omega
  rw [spiffyRecvfrom, if_pos hg]
  dsimp only
  rw [hnew, hfits, if_pos (by rw [List.length_append, hlen]; omega), List.drop_left' hlen, hwhole,
    hcarried, List.length_append, hlen]
  refine Prod.ext ?_ rfl
  push_cast
  omega

/-- A message that is sent comes without its header to the other side, from
the address that the sender was initialised with; the sender is told its length. -/
theorem spiffyRecvfrom_sent (hg : g.giSpiffyEnabled = true) (hg' : g'.giSpiffyEnabled = true)
    {toAddr : SockAddr} (hto : toAddr.sinFamily = 2) (msg : List Byte) (len : Nat)
    {newbuf buffer : List Byte} (hbuf : newbuf.length = 16 + buffer.length) (addr via : SockAddr) :
    ∃ sent, spiffySendto e g msg len toAddr = some (g.gsSpiffyRouter, sent) ∧
      spiffySent g toAddr sent.length = (msg.take len).length ∧
      spiffyRecvfrom e' g' newbuf buffer addr (via, sent) =
        ((((msg.take len).take buffer.length).length : Int),
          recvfrom (newbuf.drop 16) (msg.take len),
          ⟨2, hton16 e' (hton16 e g.gsSrcPort), hton32 e' (hton32 e g.glSrcAddr)⟩) := by
  refine ⟨(sHead e g toAddr).bytes e ++ msg.take len, ?_, ?_,
    spiffyRecvfrom_header hg' (sHead e g toAddr) (msg.take len) hbuf addr via⟩
  · rw [spiffySendto, if_pos hg, if_pos hto]
  · have hlen : (((sHead e g toAddr).bytes e ++ msg.take len).length : Int) =
        16 + (msg.take len).length := by
      rw [List.length_append, bytes_length]
      push_cast
      rfl
    rw [hlen, spiffySent, if_pos hg, if_pos hto, if_pos (by omega)]
    omega

/-- Three bytes from one host to a host of the other byte order. -/
theorem spiffyRecvfrom_sent_three :
    ∃ sent, spiffySendto .little ⟨0x0100007f, 0x81bb, true, 1, ⟨2, 0x513c, 0x0100007f⟩⟩ [7, 8, 9] 3
        ⟨2, 0x82bb, 0x0100007f⟩ = some (⟨2, 0x513c, 0x0100007f⟩, sent) ∧
      spiffySent ⟨0x0100007f, 0x81bb, true, 1, ⟨2, 0x513c, 0x0100007f⟩⟩ ⟨2, 0x82bb, 0x0100007f⟩
        sent.length = ([7, 8, 9] : List Byte).length ∧
      spiffyRecvfrom .big ⟨0x7f000001, 0xbb82, true, 2, ⟨2, 0x3c51, 0x7f000001⟩⟩
        (List.replicate 20 0) [0, 0, 0, 0] ⟨0, 0, 0⟩ (⟨2, 0x3c51, 0x7f000001⟩, sent) =
          (3, [7, 8, 9, 0], ⟨2, 0xbb81, 0x7f000001⟩) :=
  spiffyRecvfrom_sent rfl rfl rfl [7, 8, 9] 3 rfl ⟨0, 0, 0⟩ ⟨2, 0x3c51, 0x7f000001⟩

theorem spiffyInit_zero {inetAton : List Byte → Option (BitVec 32)} {env : Option (List Byte)}
    {lNodeID : Int} {addr : SockAddr}
    (h : (spiffyInit e inetAton env lNodeID addr g).1 = 0) :
    (spiffyInit e inetAton env lNodeID addr g).2.giSpiffyEnabled = true ∧
      (spiffyInit e inetAton env lNodeID addr g).2.glSrcAddr = addr.sAddr ∧
      (spiffyInit e inetAton env lNodeID addr g).2.gsSrcPort = addr.sinPort ∧
      (spiffyInit e inetAton env lNodeID addr g).2.glNodeID = lNodeID := by
  cases env with
  | none => exact absurd h (show (1 : Int) ≠ 0 by decide)
  | some name =>
    rw [spiffyInit] at h ⊢
    dsimp only at h ⊢
    cases hcolon : name.dropWhile (· ≠ 58) with
    | nil =>
      rw [hcolon] at h
      exact absurd h (show (-1 : Int) ≠ 0 by decide)
    | cons c port =>
      rw [hcolon] at h
      dsimp only at h ⊢
      cases hhost : inetAton (name.takeWhile (· ≠ 58)) with
      | none =>
        rw [hhost] at h
        exact absurd h (show (-1 : Int) ≠ 0 by decide)
      | some sAddr => exact ⟨rfl, rfl, rfl, rfl⟩

end RoundTrips

end P2PCC.Spiffy

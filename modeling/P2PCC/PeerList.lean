import P2PCC.ChunkFile
import P2PCC.Lib.Scan

namespace P2PCC.PeerList

open P2PCC.Lib.ByteOrder P2PCC.Lib.Scan P2PCC.Packet P2PCC.ChunkFile

/-- The pieces that `fgets` reads from a file into `n + 1` bytes: lines, and
parts of a line that is longer. -/
def fgets (n : Nat) : Text → Text → List Text
  | line, [] => if line = [] then [] else [line]
  | line, c :: s =>
    if c = 10 ∨ line.length + 1 = n then (line ++ [c]) :: fgets n [] s else fgets n (line ++ [c]) s

/-- The variables that `sscanf` reads a line into, and the list. -/
structure Parsing where
  nodeid : Int
  hostname : Text
  port : Int
  peers : List BtPeer

def Parsing.assign (st : Parsing) : List Value → Parsing
  | [.int nodeid] => { st with nodeid := nodeid }
  | [.int nodeid, .string hostname] => { st with nodeid := nodeid, hostname := hostname }
  | [.int nodeid, .string hostname, .int port] =>
    { st with nodeid := nodeid, hostname := hostname, port := port }
  | _ => st

def peerFormat : List Directive := [.int, .space, .string none, .space, .int]

section Definitions

variable (e : Endian) (gethostbyname : Text → Option (BitVec 32))

/-- The peer that the variables are about, if there is its host. -/
def Parsing.node (st : Parsing) : Option BtPeer :=
  (gethostbyname st.hostname).map fun sAddr =>
    ⟨(BitVec.ofInt 16 st.nodeid).toInt, ⟨2, hton16 e (BitVec.ofInt 16 st.port), sAddr⟩⟩

/-- A line; `none` where an assertion fails. A line that `sscanf` finds nothing
in keeps the values of the last. -/
def parseLine (st : Parsing) (line : Text) : Option Parsing :=
  if line.head? = some 35 then some st
  else if (scanf peerFormat line).count = 0 then none
  else
    let st := st.assign (scanf peerFormat line).values
    (st.node e gethostbyname).map fun node => { st with peers := node :: st.peers }

/-- `bt_parse_peer_list`, with what is on the stack before. -/
def btParsePeerList (st : Parsing) (file : Text) : Option (List BtPeer) :=
  ((fgets 254 [] file).foldlM (parseLine e gethostbyname) { st with peers := [] }).map
    Parsing.peers

def btPeerInfo (peers : List BtPeer) (peerId : Int) : Option BtPeer :=
  peers.find? (fun p => p.id = peerId)

/-- The port that `bt_parse_command_line` leaves, unless the program exits. -/
def myport (peers : List BtPeer) (identity : Int) : Option (BitVec 16) :=
  if identity = 0 then none
  else (btPeerInfo peers identity).map fun p => hton16 e p.addr.sinPort

end Definitions

/-- A line of a peer list. -/
inductive Item where
  | comment (t : Text)
  | blank (b : Text)
  | peer (id : Int) (host : Text) (port : Int)

def Item.print : Item → Text
  | .comment t => 35 :: t
  | .blank b => b
  | .peer id host port => decimal id ++ 32 :: (host ++ 32 :: decimal port)

def printItems (items : List Item) : Text := items.flatMap fun i => i.print ++ [10]

/-- The line fits the buffer, and its numbers the variables. -/
structure Item.Valid (i : Item) : Prop where
  fits : i.print.length < 254
  parts : match i with
    | .comment t => 10 ∉ t
    | .blank b => (∀ c ∈ b, isspace c = true) ∧ 10 ∉ b
    | .peer id host port => (-32768 ≤ id ∧ id < 32768) ∧ Word host ∧ InRange port

/-- There is a peer in front of the first blank line. -/
def Opens : List Item → Prop
  | .comment _ :: items => Opens items
  | .blank _ :: _ => False
  | _ => True

def entry (e : Endian) (resolve : Text → BitVec 32) (id : Int) (host : Text) (port : Int) :
    BtPeer :=
  ⟨id, ⟨2, hton16 e (BitVec.ofInt 16 port), resolve host⟩⟩

/-- The peers of a list in its order. A blank line stands for the one before. -/
def listing (e : Endian) (resolve : Text → BitVec 32) : Option BtPeer → List Item → List BtPeer
  | _, [] => []
  | last, .comment _ :: items => listing e resolve last items
  | last, .blank _ :: items => last.toList ++ listing e resolve last items
  | _, .peer id host port :: items =>
    entry e resolve id host port ::
      listing e resolve (some (entry e resolve id host port)) items

section Lines

variable {n : Nat}

theorem fgets_line {l : Text} (hl : (10 : Byte) ∉ l) (s : Text) : ∀ front : Text,
    front.length + l.length < n →
      fgets n front (l ++ 10 :: s) = (front ++ l ++ [10]) :: fgets n [] s := by
  induction l with
  | nil =>
    intro front _
    rw [List.nil_append, fgets, if_pos (Or.inl rfl), List.append_nil]
  | cons c l ih =>
    intro front hn
    obtain ⟨hc, hl⟩ := not_or.mp fun hm => hl (List.mem_cons.mpr hm)
    rw [List.length_cons] at hn
    rw [List.cons_append, fgets, if_neg (by rintro (h | h); exacts [hc h.symm, by omega]),
      ih hl (front ++ [c]) (by rw [List.length_append, List.length_singleton]; omega)]
    simp

theorem print_open {i : Item} (hi : i.Valid) : (10 : Byte) ∉ i.print := by
  obtain ⟨_, hparts⟩ := hi
  have hword : ∀ {t : Text}, Word t → (10 : Byte) ∉ t := by
    intro t ht hm
    exact absurd (ht.dense 10 hm) (by decide)
  cases i with
  | comment t => exact fun hm => (List.mem_cons.mp hm).elim (by decide) hparts
  | blank b => exact hparts.2
  | peer id host port =>
    intro hm
    rw [Item.print, List.mem_append, List.mem_cons, List.mem_append, List.mem_cons] at hm
    obtain hm | hm | hm | hm | hm := hm
    · exact hword (decimal_word id) hm
    · exact absurd hm (by decide)
    · exact hword hparts.2.1 hm
    · exact absurd hm (by decide)
    · exact hword (decimal_word port) hm

theorem fgets_items {items : List Item} (hi : ∀ i ∈ items, i.Valid) :
    fgets 254 [] (printItems items) = items.map fun i => i.print ++ [10] := by
  induction items with
  | nil => rfl
  | cons i items ih =>
    obtain ⟨hfirst, hi⟩ := List.forall_mem_cons.mp hi
    have hprint : printItems (i :: items) = i.print ++ 10 :: printItems items := by
      rw [printItems, List.flatMap_cons, List.append_assoc]
      rfl
    rw [hprint, fgets_line (print_open hfirst) _ [] (by simpa using hfirst.fits), ih hi]
    rfl

end Lines

section Calls

theorem scanf_peer {id port : Int} {host : Text} (hid : InRange id) (hhost : Word host)
    (hport : InRange port) : scanf peerFormat ((Item.peer id host port).print ++ [10]) =
      ⟨[.int id, .string host, .int port], [10], false⟩ := by
  have hfirst := readInt_decimal hid (b := []) (r := 32 :: (host ++ 32 :: (decimal port ++ [10])))
    (by simp) (fun c hc => by cases hc; rfl)
  have hskip : ∀ (t r : Text), Word t → skip (32 :: (t ++ r)) = t ++ r := by
    intro t r ht
    have hblank := skip_blank (w := [32]) (by decide) (t ++ r)
    rwa [skip_dense (ht.dense_append r)] at hblank
  have hsecond := readString_word hhost (r := 32 :: (decimal port ++ [10])) (b := [])
    (fun c hc => by cases hc; rfl) (by simp)
  have hthird := readInt_decimal hport (b := []) (r := [10]) (by simp)
    (fun c hc => by cases hc; rfl)
  rw [List.nil_append] at hfirst hsecond hthird
  have hline : (Item.peer id host port).print ++ [10] =
      decimal id ++ 32 :: (host ++ 32 :: (decimal port ++ [10])) := by
    simp [Item.print]
  rw [hline]
  simp only [peerFormat, scanf, step, hfirst, hskip _ _ hhost, hsecond,
    hskip _ _ (decimal_word port), hthird]
  rfl

theorem scanf_blank {b : Text} (hb : ∀ c ∈ b, isspace c = true) :
    scanf peerFormat (b ++ [10]) = ⟨[], [], true⟩ := by
  have hskip : skip (b ++ [10]) = [] := by
    rw [skip_blank hb]
    rfl
  rw [peerFormat, scanf, step, readInt, if_pos hskip]

end Calls

section Lists

variable {e : Endian} {gethostbyname : Text → Option (BitVec 32)} {resolve : Text → BitVec 32}
  {items : List Item}

/-- The host of every peer on a list can be looked up. -/
def Resolves (gethostbyname : Text → Option (BitVec 32)) (resolve : Text → BitVec 32)
    (items : List Item) : Prop :=
  ∀ id host port, Item.peer id host port ∈ items → gethostbyname host = some (resolve host)

theorem parseLine_blank {st : Parsing} {b : Text} (hb : ∀ c ∈ b, isspace c = true) {node : BtPeer}
    (hnode : st.node e gethostbyname = some node) :
    parseLine e gethostbyname st ((Item.blank b).print ++ [10]) =
      some { st with peers := node :: st.peers } := by
  have hhead : ((Item.blank b).print ++ [10]).head? ≠ some 35 := by
    cases b with
    | nil => decide
    | cons c b =>
      intro hc
      have hspace := hb c List.mem_cons_self
      rw [Option.some.inj hc] at hspace
      exact absurd hspace (by decide)
  have hscan : scanf peerFormat ((Item.blank b).print ++ [10]) = ⟨[], [], true⟩ := scanf_blank hb
  rw [parseLine, if_neg hhead, hscan, if_neg (by decide)]
  dsimp only [Parsing.assign]
  rw [hnode]
  rfl

theorem parseLine_peer (st : Parsing) {id port : Int} {host : Text}
    (hv : (Item.peer id host port).Valid) (hhost : gethostbyname host = some (resolve host)) :
    ∃ st', parseLine e gethostbyname st ((Item.peer id host port).print ++ [10]) = some st' ∧
      st'.node e gethostbyname = some (entry e resolve id host port) ∧
      st'.peers = entry e resolve id host port :: st.peers := by
  obtain ⟨_, ⟨hlow, hhigh⟩, hword, hport⟩ := hv
  have hsign : ∀ k, (35 : Byte) ∉ decimalNat k :=
    fun k hm => absurd (decimalNat_digits k 35 hm) (by decide)
  have hhead : ((Item.peer id host port).print ++ [10]).head? ≠ some 35 := by
    have hfirst : (35 : Byte) ∉ decimal id := by
      rw [decimal]
      split
      · exact fun hm => (List.mem_cons.mp hm).elim (by decide) (hsign _)
      · exact hsign _
    intro hc
    cases hprint : decimal id with
    | nil => exact (decimal_word id).ne_nil hprint
    | cons d ds =>
      rw [Item.print, hprint] at hc
      rw [hprint] at hfirst
      exact hfirst (List.mem_cons.mpr (Or.inl (Option.some.inj hc).symm))
  have hid : InRange id := ⟨by omega, by omega⟩
  have hscan := scanf_peer hid hword hport
  have hshort : (BitVec.ofInt 16 id).toInt = id := by
    rw [BitVec.toInt_ofInt]
    exact Int.bmod_eq_of_le (by simpa using hlow) (by simpa using hhigh)
  have hnode : (⟨id, host, port, st.peers⟩ : Parsing).node e gethostbyname =
      some (entry e resolve id host port) := by
    rw [Parsing.node, hhost, Option.map_some, hshort, entry]
  have hcount : Scanned.count ⟨[.int id, .string host, .int port], [10], false⟩ ≠ 0 :=
    show (3 : Int) ≠ 0 by decide
  rw [parseLine, if_neg hhead, hscan, if_neg hcount]
  dsimp only [Parsing.assign]
  rw [hnode]
  exact ⟨_, rfl, hnode, rfl⟩

/-- What has been read of a list is in front of what was there. -/
theorem parse_items (hv : ∀ i ∈ items, i.Valid) (hr : Resolves gethostbyname resolve items)
    (st : Parsing) (last : Option BtPeer) (hopens : last = none → Opens items)
    (hlast : ∀ node, last = some node → st.node e gethostbyname = some node) :
    ∃ st', (items.map fun i => i.print ++ [10]).foldlM (parseLine e gethostbyname) st = some st' ∧
      st'.peers = (listing e resolve last items).reverse ++ st.peers := by
  induction items generalizing st last with
  | nil => exact ⟨st, rfl, rfl⟩
  | cons i items ih =>
    obtain ⟨hi, hv'⟩ := List.forall_mem_cons.mp hv
    have hr' : Resolves gethostbyname resolve items :=
      fun id host port hm => hr id host port (List.mem_cons_of_mem _ hm)
    rw [List.map_cons, List.foldlM_cons]
    cases i with
    | comment t => exact ih hv' hr' st last hopens hlast
    | blank b =>
      cases last with
      | none => exact (hopens rfl).elim
      | some node =>
        have hnode := hlast node rfl
        rw [parseLine_blank hi.parts.1 hnode]
        obtain ⟨st', hfold, hpeers⟩ := ih hv' hr' { st with peers := node :: st.peers } (some node)
          (fun hn => by cases hn) (fun _ hn => Option.some.inj hn ▸ hnode)
        refine ⟨st', hfold, ?_⟩
        rw [hpeers, listing, Option.toList_some, List.singleton_append, List.reverse_cons,
          List.append_assoc]
        rfl
    | peer id host port =>
      obtain ⟨st₁, hline, hnode, hpeers₁⟩ :=
        parseLine_peer (e := e) st hi (hr id host port List.mem_cons_self)
      rw [hline]
      obtain ⟨st', hfold, hpeers⟩ := ih hv' hr' st₁ (some (entry e resolve id host port))
        (fun hn => by cases hn) (fun _ hn => Option.some.inj hn ▸ hnode)
      refine ⟨st', hfold, ?_⟩
      rw [hpeers, hpeers₁, listing, List.reverse_cons, List.append_assoc]
      rfl

end Lists

section Lookups

variable {e : Endian} {gethostbyname : Text → Option (BitVec 32)} {resolve : Text → BitVec 32}
  {items : List Item}

theorem listing_split (pre post : List Item) (id port : Int) (host : Text) (last : Option BtPeer) :
    listing e resolve last (pre ++ .peer id host port :: post) =
      listing e resolve last pre ++ entry e resolve id host port ::
        listing e resolve (some (entry e resolve id host port)) post := by
  induction pre generalizing last with
  | nil => rfl
  | cons i pre ih =>
    cases i with
    | comment t => exact ih last
    | blank b => rw [List.cons_append, listing, listing, ih, List.append_assoc]
    | peer id' host' port' => rw [List.cons_append, listing, listing, ih, List.cons_append]

theorem mem_listing {node : BtPeer} {last : Option BtPeer}
    (h : node ∈ listing e resolve last items) :
    last = some node ∨ ∃ host port, Item.peer node.id host port ∈ items := by
  induction items generalizing last with
  | nil => exact absurd h List.not_mem_nil
  | cons i items ih =>
    have hlater : ∀ {P : Prop}, (P ∨ ∃ host port, Item.peer node.id host port ∈ items) →
        P ∨ ∃ host port, Item.peer node.id host port ∈ i :: items :=
      fun h => h.imp_right fun ⟨host, port, hm⟩ => ⟨host, port, List.mem_cons_of_mem _ hm⟩
    cases i with
    | comment t => exact hlater (ih h)
    | blank b =>
      obtain h | h := List.mem_append.mp h
      · exact Or.inl (Option.mem_toList.mp h)
      · exact hlater (ih h)
    | peer id host port =>
      have hfirst : Item.peer (entry e resolve id host port).id host port ∈
          Item.peer id host port :: items := List.mem_cons_self
      obtain rfl | h := List.mem_cons.mp h
      · exact Or.inr ⟨host, port, hfirst⟩
      · obtain h | h := hlater (ih h)
        · exact Or.inr ⟨host, port, Option.some.inj h ▸ hfirst⟩
        · exact Or.inr h

theorem btPeerInfo_last {pre post : List Item} {id port : Int} {host : Text}
    (hpost : ∀ host port, Item.peer id host port ∉ post) :
    btPeerInfo (listing e resolve none (pre ++ .peer id host port :: post)).reverse id =
      some (entry e resolve id host port) := by
  have hsame : ∀ node ∈ entry e resolve id host port ::
      listing e resolve (some (entry e resolve id host port)) post,
      node.id = id → node = entry e resolve id host port := by
    intro node hm hid
    obtain h | h := List.mem_cons.mp hm
    · exact h
    · obtain h | ⟨host', port', h⟩ := mem_listing h
      · exact (Option.some.inj h).symm
      · exact absurd (hid ▸ h) (hpost host' port')
  rw [listing_split, List.reverse_append, btPeerInfo, List.find?_append]
  generalize listing e resolve (some (entry e resolve id host port)) post = rest at hsame
  cases hf : (entry e resolve id host port :: rest).reverse.find? (fun p => p.id = id) with
  | none =>
    have hmissed := List.find?_eq_none.mp hf (entry e resolve id host port)
      (List.mem_reverse.mpr List.mem_cons_self)
    exact absurd (decide_eq_true rfl) hmissed
  | some node =>
    rw [hsame node (List.mem_reverse.mp (List.mem_of_find?_eq_some hf))
      (by simpa using List.find?_some hf)]
    rfl

/-- The line is of a peer of that identity. -/
def Item.isPeer (id : Int) : Item → Bool
  | .peer id' _ _ => id' = id
  | _ => false

theorem btPeerInfo_none {id : Int} (h : ∀ i ∈ items, i.isPeer id = false) :
    btPeerInfo (listing e resolve none items).reverse id = none := by
  apply List.find?_eq_none.mpr
  intro node hm hid
  obtain hnone | ⟨host, port, hline⟩ := mem_listing (List.mem_reverse.mp hm)
  · cases hnone
  · exact absurd hid (Bool.eq_false_iff.mp (h _ hline))

theorem myport_last {pre post : List Item} {id port : Int} {host : Text} (hid : id ≠ 0)
    (hpost : ∀ host port, Item.peer id host port ∉ post) :
    myport e (listing e resolve none (pre ++ .peer id host port :: post)).reverse id =
      some (BitVec.ofInt 16 port) := by
  rw [myport, if_neg hid, btPeerInfo_last hpost, Option.map_some, entry, hton16_hton16]

theorem last_line {id : Int} {i : Item} (hf : items.reverse.find? (Item.isPeer id) = some i) :
    ∃ pre host port post, items = pre ++ .peer id host port :: post ∧
      ∀ host port, Item.peer id host port ∉ post := by
  obtain ⟨hi, post, pre, hsplit, hpost⟩ := List.find?_eq_some_iff_append.mp hf
  cases i with
  | comment t => cases hi
  | blank b => cases hi
  | peer id' host port =>
    obtain rfl : id' = id := of_decide_eq_true hi
    refine ⟨pre.reverse, host, port, post.reverse, ?_, ?_⟩
    · rw [← List.reverse_reverse items, hsplit]
      simp
    · intro host port hm
      have hmissed := hpost _ (List.mem_reverse.mp hm)
      simp [Item.isPeer] at hmissed

theorem myport_iff {identity : Int} {port' : BitVec 16} :
    myport e (listing e resolve none items).reverse identity = some port' ↔
      identity ≠ 0 ∧ ∃ pre host port post, items = pre ++ .peer identity host port :: post ∧
        (∀ host port, Item.peer identity host port ∉ post) ∧ port' = BitVec.ofInt 16 port := by
  constructor
  · intro hport
    have hid : identity ≠ 0 := by
      intro h
      rw [myport, if_pos h] at hport
      cases hport
    cases hf : items.reverse.find? (Item.isPeer identity) with
    | none =>
      have hmissed : ∀ i ∈ items, i.isPeer identity = false := fun i hi =>
        Bool.eq_false_iff.mpr (List.find?_eq_none.mp hf i (List.mem_reverse.mpr hi))
      rw [myport, if_neg hid, btPeerInfo_none hmissed] at hport
      cases hport
    | some i =>
      obtain ⟨pre, host, port, post, rfl, hpost⟩ := last_line hf
      rw [myport_last hid hpost] at hport
      exact ⟨hid, pre, host, port, post, rfl, hpost, (Option.some.inj hport).symm⟩
  · rintro ⟨hid, pre, host, port, post, rfl, hpost, rfl⟩
    exact myport_last hid hpost

/-- A printed list is read with its last peer first, whatever the variables
hold. The port of the program is the one on the last line of its identity; it
exits exactly when that is zero or there is no such line. -/
theorem peerList_printed (hv : ∀ i ∈ items, i.Valid) (hr : Resolves gethostbyname resolve items)
    (hopens : Opens items) (st : Parsing) :
    ∃ peers, btParsePeerList e gethostbyname st (printItems items) = some peers ∧
      peers = (listing e resolve none items).reverse ∧
      ∀ identity myport', myport e peers identity = some myport' ↔
        identity ≠ 0 ∧ ∃ pre host port post, items = pre ++ .peer identity host port :: post ∧
          (∀ host port, Item.peer identity host port ∉ post) ∧
          myport' = BitVec.ofInt 16 port := by
  obtain ⟨st', hfold, hpeers⟩ := parse_items (e := e) hv hr { st with peers := [] } none
    (fun _ => hopens) (fun _ hn => by cases hn)
  rw [List.append_nil] at hpeers
  refine ⟨_, ?_, rfl, fun _ _ => myport_iff⟩
  rw [btParsePeerList, fgets_items hv, hfold, Option.map_some, hpeers]

/-- `# us`, `1 127.0.0.1 48001` and `2 127.0.0.1 48002`. -/
def pairList : List Item :=
  [.comment [32, 117, 115], .peer 1 [49, 50, 55, 46, 48, 46, 48, 46, 49] 48001,
    .peer 2 [49, 50, 55, 46, 48, 46, 48, 46, 49] 48002]

theorem pairList_valid : ∀ i ∈ pairList, i.Valid := by
  have hhost : Word [49, 50, 55, 46, 48, 46, 48, 46, 49] := ⟨by decide, by decide⟩
  intro i hi
  rw [pairList, List.mem_cons, List.mem_cons, List.mem_singleton] at hi
  obtain rfl | rfl | rfl := hi
  · exact ⟨by decide, show (10 : Byte) ∉ [32, 117, 115] by decide⟩
  · exact ⟨by decide, by decide, hhost, by decide, by decide⟩
  · exact ⟨by decide, by decide, hhost, by decide, by decide⟩

theorem peerList_printed_pair :
    ∃ peers, btParsePeerList .little (fun _ => some 0x0100007f) ⟨0, [], 0, []⟩
        (printItems pairList) = some peers ∧
      peers = (listing .little (fun _ => 0x0100007f) none pairList).reverse ∧
      ∀ identity myport', myport .little peers identity = some myport' ↔
        identity ≠ 0 ∧ ∃ pre host port post, pairList = pre ++ .peer identity host port :: post ∧
          (∀ host port, Item.peer identity host port ∉ post) ∧ myport' = BitVec.ofInt 16 port :=
  peerList_printed pairList_valid (fun _ _ _ _ => rfl) (show True from trivial) ⟨0, [], 0, []⟩

example : (btParsePeerList .little (fun _ => some 0x0100007f) ⟨0, [], 0, []⟩
    (printItems pairList)).bind (myport .little · 2) = some 48002 := by
  decide +kernel

end Lookups

end P2PCC.PeerList

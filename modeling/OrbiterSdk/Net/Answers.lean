import OrbiterSdk.Core.Recorded
import OrbiterSdk.Lib.AssocMap
import OrbiterSdk.Lib.EntryLoop
import OrbiterSdk.Net.Encoding
import OrbiterSdk.Utils.Block
import OrbiterSdk.Utils.TxBounds

namespace OrbiterSdk.P2P

open Cursor

/-!
# Answers with lists

`AnswerEncoder::requestNodes`, `AnswerEncoder::requestValidatorTxs` and their decoders: the
payload is one entry after the other, and the decoders go on until the index has reached the
size of the payload.

* `encodeNode`, `readNode` — a node: type, id, version and bytes of the address, port.  The
  decoder writes the address as text and parses it;
* `encodeTx`, `readTx` — a validator transaction behind its size;
* `StandardParser` — what is known about boost's `address::from_string`.

`requestNodes_restored_iff` and `requestValidatorTxs_restored` are the round trips.
-/

/-! ### Nodes -/

/-- `boost::asio::ip::address`. -/
inductive IpAddress where
  | v4 (bytes : FixedStr 4)
  | v6 (bytes : FixedStr 16)
deriving DecidableEq

/-- The value of a map of nodes. -/
structure Node where
  nodeType : NodeType
  address : IpAddress
  port : UInt16
deriving DecidableEq

/-- The number of a `NodeType`. -/
def NodeType.value : NodeType → Nat
  | .normalNode => 0
  | .discoveryNode => 1
  | .other value => value

/-- `static_cast<NodeType>` of a byte. -/
def NodeType.ofByte (b : UInt8) : NodeType :=
  if b = 0 then .normalNode else if b = 1 then .discoveryNode else .other b.toNat

/-- `to_v4().to_bytes()` or `to_v6().to_bytes()`. -/
def IpAddress.bytes : IpAddress → Bytes
  | .v4 a => a.data
  | .v6 a => a.data

/-- `is_v4() ? 0 : 1`. -/
def IpAddress.version : IpAddress → UInt8
  | .v4 _ => 0
  | .v6 _ => 1

/-- One node in the loop of `AnswerEncoder::requestNodes`. -/
def encodeNode (e : Hash × Node) : Bytes :=
  [UInt8.ofNat e.2.nodeType.value] ++ (e.1.data ++ ([e.2.address.version] ++
    (e.2.address.bytes ++ BigEndian.fixed 2 e.2.port.toNat)))

/-- `Utils::bytesToUint8`. -/
def bytesToUint8 : Bytes → Except Exn UInt8
  | [b] => .ok b
  | bs => .error (.runtimeError
      ("bytesToUint8: Invalid bytes size - expected 1, got " ++ toString bs.length))

/-- `Utils::bytesToUint16`. -/
def bytesToUint16 (bs : Bytes) : Except Exn UInt16 :=
  if bs.length ≠ 2 then .error (.runtimeError
    ("bytesToUint16: Invalid bytes size - expected 2, got " ++ toString bs.length))
  else .ok (UInt16.ofNat (BigEndian.decode bs))

/-- The text the decoder builds: every byte in decimal, followed by the separator. -/
def ipText (separator : Char) (ipBytes : Bytes) : List Char :=
  ipBytes.flatMap fun b => Nat.toDigits 10 b.toNat ++ [separator]

section

variable (fromString : List Char → Except Exn IpAddress)

/-- An address of `size` bytes; `pop_back` of an empty string is undefined. -/
def readAddress (separator : Char) (size : Nat) (data : Bytes) (index : Nat) :
    Except Fail IpAddress := do
  let ipBytes ← liftExn (substr data index size)
  let ip := ipText separator ipBytes
  if ip = [] then .error .oob
  else liftExn (fromString ip.dropLast)

/-- A node with an address of `size` bytes, from the address on. -/
def readAddressAndPort (separator : Char) (size : Nat) (data : Bytes) (index : Nat) :
    Except Fail (IpAddress × UInt16) := do
  let address ← readAddress fromString separator size data index
  let port ← liftExn (bytesToUint16 (← liftExn (substr data (index + size) 2)))
  return (address, port)

/-- One iteration of `AnswerDecoder::requestNodes`. -/
def readNode (data : Bytes) (index : Nat) : Except Fail ((Hash × Node) × Nat) := do
  if data.length < 40 then raise "Invalid data size."
  let typeByte ← liftExn (bytesToUint8 (← liftExn (substr data index 1)))
  let nodeId : Hash := FixedStr.ofBytes (← liftExn (substr data (index + 1) 32))
  let ipVersion ← liftExn (bytesToUint8 (← liftExn (substr data (index + 33) 1)))
  if ipVersion = 0 then
    let p ← readAddressAndPort fromString '.' 4 data (index + 34)
    return ((nodeId, ⟨NodeType.ofByte typeByte, p.1, p.2⟩), index + 40)
  else if ipVersion = 1 then
    let p ← readAddressAndPort fromString ':' 16 data (index + 34)
    return ((nodeId, ⟨NodeType.ofByte typeByte, p.1, p.2⟩), index + 52)
  else raise "Invalid ip version."

end

/-! ### Validator transactions -/

/-- One transaction in the loop of `AnswerEncoder::requestValidatorTxs`. -/
def encodeTx (tx : TxValidator) : Bytes :=
  BigEndian.fixed 4 (tx.rlpSerialize true).length ++ tx.rlpSerialize true

/-- One iteration of `AnswerDecoder::requestValidatorTxs`. -/
def readTx (C : Crypto) (chainId : UInt64) (data : Bytes) (index : Nat) :
    Except Fail (TxValidator × Nat) := do
  if data.length < 4 then raise "Invalid data size."
  let txSize ← liftExn (Block.bytesToUint32 (← liftExn (substr data index 4)))
  if data.length < txSize then raise "Invalid data size."
  let txData ← liftExn (substr data (index + 4) txSize)
  let tx ← TxValidator.parse C txData chainId
  return (tx, index + 4 + txSize)

/-! ### Encoders and decoders -/

/-- `Message::message`. -/
def Message.message (m : Message) : Bytes := m.raw.drop 11

namespace AnswerEncoder

/-- `AnswerEncoder::requestNodes`. -/
def requestNodes (request : Message) (nodes : AssocMap Hash Node) : Message :=
  .ofFrame .answering request.id .requestNodes
    ((nodes.entries.map fun e => (e.1, e.2)).flatMap encodeNode) answering_ne_unnamed (by decide)

/-- `AnswerEncoder::requestValidatorTxs`. -/
def requestValidatorTxs (request : Message) (txs : AssocMap Hash TxValidator) : Message :=
  .ofFrame .answering request.id .requestValidatorTxs
    ((txs.entries.map fun e => e.2).flatMap encodeTx) answering_ne_unnamed (by decide)

end AnswerEncoder

namespace AnswerDecoder

/-- The checks of the header. -/
def checkHeader (m : Message) (command : CommandType) : Except Fail Unit := do
  if (← liftExn m.type) ≠ .answering then raise "Invalid message type."
  if (← liftExn m.command) ≠ command then raise "Invalid command."

/-- `while (index < data.size())` behind the checks of the header. -/
def decodeAll {α : Type} (m : Message) (command : CommandType)
    (read : Bytes → Nat → Except Fail (α × Nat)) : Option (Except Fail (List α)) :=
  match checkHeader m command with
  | .error e => some (.error e)
  | .ok _ => readAll (read m.message) m.message.length (m.message.length + 1) 0

/-- `nodes[nodeId] = node` for every entry. -/
def fill (entries : List (Hash × Node)) : AssocMap Hash Node :=
  entries.foldl (fun nodes e => nodes.insert e.1 e.2) ∅

/-- `AnswerDecoder::requestNodes`. -/
def requestNodes (fromString : List Char → Except Exn IpAddress) (m : Message) :
    Option (Except Fail (AssocMap Hash Node)) :=
  (decodeAll m .requestNodes (readNode fromString)).map (Except.map fill)

/-- `AnswerDecoder::requestValidatorTxs`. -/
def requestValidatorTxs (C : Crypto) (chainId : UInt64) (m : Message) :
    Option (Except Fail (List TxValidator)) :=
  decodeAll m .requestValidatorTxs (readTx C chainId)

end AnswerDecoder

/-! ### Headers and cut-outs -/

section

variable {type : RequestType} {id : RequestID} {command : CommandType} {body : Bytes}
  {ht : type ≠ .unnamed} {hc : command ≠ .unnamed}

theorem Message.message_ofFrame : (Message.ofFrame type id command body ht hc).message = body := by
  have hlen : (getRequestTypePrefix type ++ id.data ++ getCommandPrefix command).length = 11 := by
    simp only [List.length_append, length_getRequestTypePrefix ht, length_getCommandPrefix hc,
      id.size_eq]
  exact List.drop_left' hlen

end

theorem AnswerDecoder.decodeAll_ofFrame {α : Type} (id : RequestID) {command : CommandType}
    (payload : Bytes) (hc : command ≠ .unnamed) (read : Bytes → Nat → Except Fail (α × Nat)) :
    decodeAll (.ofFrame .answering id command payload answering_ne_unnamed hc) command read =
      readAll (read payload) payload.length (payload.length + 1) 0 := by
  have hheader : checkHeader (.ofFrame .answering id command payload answering_ne_unnamed hc)
      command = .ok () := by
    simp [checkHeader, Message.type_ofFrame, Message.command_ofFrame, liftExn, bind, Except.bind,
      pure, Except.pure]
  rw [decodeAll, hheader, Message.message_ofFrame]

theorem substr_at {bs f : Bytes} {i : Nat} (h : At bs i f) (hi : i ≤ bs.length) :
    substr bs i f.length = .ok f := by
  rw [substr, if_neg (by omega), h.take]

/-! ### Reading back a node -/

/-- What is known about `boost::asio::ip::address::from_string`: it parses the dotted form of
    an IPv4 address, and an IPv6 address does not have more than eight groups. -/
structure StandardParser (fromString : List Char → Except Exn IpAddress) : Prop where
  dotted : ∀ a : FixedStr 4, fromString (ipText '.' a.data).dropLast = .ok (.v4 a)
  groups : ∀ bytes : Bytes, 8 < bytes.length →
    ∃ e, fromString (ipText ':' bytes).dropLast = .error e

theorem ipText_eq_nil {separator : Char} {bytes : Bytes} :
    ipText separator bytes = [] ↔ bytes = [] := by
  cases bytes with
  | nil => exact iff_of_true rfl rfl
  | cons b bytes => simp [ipText]

theorem ipText_ne_nil {n : Nat} (separator : Char) (a : FixedStr (n + 1)) :
    ipText separator a.data ≠ [] := by
  rw [Ne, ipText_eq_nil]
  intro hnil
  have hsize := a.size_eq
  rw [hnil] at hsize
  cases hsize

theorem length_bytes (a : IpAddress) : a.bytes.length = if a.version = 0 then 4 else 16 := by
  cases a with
  | v4 a => exact a.size_eq
  | v6 a => exact a.size_eq

theorem bytesToUint16_fixed (port : UInt16) :
    bytesToUint16 (BigEndian.fixed 2 port.toNat) = .ok port := by
  have hlt : port.toNat % 256 ^ 2 = port.toNat := Nat.mod_eq_of_lt port.toNat_lt
  rw [bytesToUint16, if_neg (by simp), BigEndian.decode_fixed, hlt, UInt16.ofNat_toNat]

/-- The node type is one of the two enumerators. -/
def Node.Named (node : Node) : Prop := node.nodeType = .normalNode ∨ node.nodeType = .discoveryNode

theorem Node.Named.ofByte {node : Node} (h : node.Named) :
    NodeType.ofByte (UInt8.ofNat node.nodeType.value) = node.nodeType := by
  rcases h with h | h
  · rw [h]
    rfl
  · rw [h]
    rfl

theorem encodeNode_ne_nil (e : Hash × Node) : encodeNode e ≠ [] := List.cons_ne_nil _ _

section

variable {fromString : List Char → Except Exn IpAddress} {bs : Bytes} {i : Nat} {e : Hash × Node}

/-- The parts of a node where it stands. -/
structure NodeAt (bs : Bytes) (i : Nat) (e : Hash × Node) : Prop where
  size : 40 ≤ bs.length
  nodeType : substr bs i 1 = .ok [UInt8.ofNat e.2.nodeType.value]
  nodeId : substr bs (i + 1) 32 = .ok e.1.data
  version : substr bs (i + 33) 1 = .ok [e.2.address.version]
  address : substr bs (i + 34) e.2.address.bytes.length = .ok e.2.address.bytes
  port : substr bs (i + 34 + e.2.address.bytes.length) 2 =
    .ok (BigEndian.fixed 2 e.2.port.toNat)

theorem nodeAt_of_at (h : At bs i (encodeNode e)) : NodeAt bs i e := by
  have hle := h.length_le (encodeNode_ne_nil e)
  have haddr := length_bytes e.2.address
  simp only [encodeNode, List.length_append, List.length_singleton, e.1.size_eq,
    BigEndian.length_fixed] at hle
  have hmin : 4 ≤ e.2.address.bytes.length := by
    rw [haddr]
    split <;> omega
  -- each part stands behind the one before it
  obtain ⟨htype, h⟩ := at_append.mp h
  obtain ⟨hid, h⟩ := at_append.mp h
  obtain ⟨hversion, h⟩ := at_append.mp h
  obtain ⟨haddress, hport⟩ := at_append.mp h
  simp only [List.length_singleton, e.1.size_eq] at hid hversion haddress hport
  have hidSub := substr_at hid (by omega)
  have hportSub := substr_at hport (by omega)
  rw [e.1.size_eq] at hidSub
  rw [BigEndian.length_fixed] at hportSub
  exact
    { size := by omega
      nodeType := substr_at htype (by omega)
      nodeId := hidSub
      version := substr_at hversion (by omega)
      address := substr_at haddress (by omega)
      port := hportSub }

theorem readNode_of_nodeAt (h : NodeAt bs i e) :
    readNode fromString bs i =
      if e.2.address.version = 0 then
        (readAddressAndPort fromString '.' 4 bs (i + 34)).map fun p =>
          ((e.1, ⟨NodeType.ofByte (UInt8.ofNat e.2.nodeType.value), p.1, p.2⟩), i + 40)
      else if e.2.address.version = 1 then
        (readAddressAndPort fromString ':' 16 bs (i + 34)).map fun p =>
          ((e.1, ⟨NodeType.ofByte (UInt8.ofNat e.2.nodeType.value), p.1, p.2⟩), i + 52)
      else raise "Invalid ip version." := by
  have hid : (FixedStr.ofBytes e.1.data : Hash) = e.1 := FixedStr.ofBytes_data e.1
  unfold readNode
  rw [if_neg (not_lt.mpr h.size), h.nodeType, h.nodeId, h.version]
  show (if e.2.address.version = 0 then _ else if e.2.address.version = 1 then _ else _) = _
  rw [hid]
  split
  · cases readAddressAndPort fromString '.' 4 bs (i + 34) <;> rfl
  · split
    · cases readAddressAndPort fromString ':' 16 bs (i + 34) <;> rfl
    · rfl

/-- **A node with an IPv4 address is read back.** -/
theorem reads_encodeNode (P : StandardParser fromString) (hnamed : e.2.Named)
    (hv4 : e.2.address.version = 0) : Reads (readNode fromString) (encodeNode e) e := by
  intro bs i h
  have hnode := nodeAt_of_at h
  obtain ⟨nodeId, nodeType, address, port⟩ := e
  cases address with
  | v6 a => exact absurd (show (1 : UInt8) = 0 from hv4) (by decide)
  | v4 a =>
    have hlen : (encodeNode (nodeId, ⟨nodeType, .v4 a, port⟩)).length = 40 := by
      simp [encodeNode, IpAddress.bytes, nodeId.size_eq, a.size_eq]
    have haddr : substr bs (i + 34) 4 = .ok a.data := by
      have := hnode.address
      rwa [show (IpAddress.v4 a).bytes.length = 4 from a.size_eq] at this
    have hport : substr bs (i + 34 + 4) 2 = .ok (BigEndian.fixed 2 port.toNat) := by
      have := hnode.port
      rwa [show (IpAddress.v4 a).bytes.length = 4 from a.size_eq] at this
    have hne := ipText_ne_nil '.' a
    have hip : readAddress fromString '.' 4 bs (i + 34) = .ok (.v4 a) := by
      refine Except.bind_eq_ok.mpr ⟨a.data, liftExn_eq_ok.mpr haddr, ?_⟩
      dsimp only
      rw [if_neg hne, P.dotted a]
      rfl
    have hread : readAddressAndPort fromString '.' 4 bs (i + 34) = .ok (.v4 a, port) :=
      Except.bind_eq_ok.mpr ⟨_, hip, Except.bind_eq_ok.mpr ⟨_, liftExn_eq_ok.mpr hport,
        Except.bind_eq_ok.mpr ⟨_, liftExn_eq_ok.mpr (bytesToUint16_fixed port), rfl⟩⟩⟩
    rw [readNode_of_nodeAt hnode, if_pos hv4, hread, hlen]
    show Except.ok
      ((nodeId, Node.mk (NodeType.ofByte (UInt8.ofNat nodeType.value)) _ _), i + 40) = _
    rw [hnamed.ofByte]

/-- A node with an IPv6 address is refused: its text has sixteen groups. -/
theorem readNode_v6 (P : StandardParser fromString) (hv6 : e.2.address.version ≠ 0)
    (h : At bs i (encodeNode e)) : ∃ err, readNode fromString bs i = .error (.exn err) := by
  have hnode := nodeAt_of_at h
  obtain ⟨nodeId, nodeType, address, port⟩ := e
  cases address with
  | v4 a => exact absurd rfl hv6
  | v6 a =>
    have haddr : substr bs (i + 34) 16 = .ok a.data := by
      have := hnode.address
      rwa [show (IpAddress.v6 a).bytes.length = 16 from a.size_eq] at this
    have hne := ipText_ne_nil ':' a
    -- sixteen numbers, where an address has eight groups at most
    obtain ⟨err, herr⟩ := P.groups a.data (by rw [a.size_eq]; decide)
    refine ⟨err, ?_⟩
    have hread : readAddressAndPort fromString ':' 16 bs (i + 34) = .error (.exn err) := by
      unfold readAddressAndPort readAddress
      rw [haddr]
      show ((if ipText ':' a.data = [] then _ else _) >>= _) = _
      rw [if_neg hne, herr]
      rfl
    rw [readNode_of_nodeAt hnode, if_neg hv6,
      if_pos (show (IpAddress.v6 a).version = 1 from rfl), hread]
    rfl

end

/-! ### Where an entry ends -/

theorem bytesToUint8_eq_ok {bs : Bytes} {b : UInt8} : bytesToUint8 bs = .ok b ↔ bs = [b] := by
  match bs with
  | [] => simp [bytesToUint8]
  | [c] => simp [bytesToUint8]
  | _ :: _ :: _ => simp [bytesToUint8]

theorem getElem?_of_byte {bs v : Bytes} {i : Nat} {b : UInt8} (hsub : substr bs i 1 = .ok v)
    (hbyte : bytesToUint8 v = .ok b) : bs[i]? = some b := by
  obtain ⟨-, hv⟩ := substr_eq_ok.mp hsub
  have hsingle : (bs.drop i).take 1 = [b] := by rw [← hv, bytesToUint8_eq_ok.mp hbyte]
  have hat : At bs i [b] := List.prefix_iff_eq_take.mpr hsingle.symm
  exact hat.getElem?

/-- An entry of `requestNodes` from `i` to `j`: the version says how long it is. -/
def NodeEnds (bs : Bytes) (i j : Nat) : Prop :=
  j ≤ bs.length ∧ (bs[i + 33]? = some 0 ∧ j = i + 40 ∨ bs[i + 33]? = some 1 ∧ j = i + 52)

section

variable {fromString : List Char → Except Exn IpAddress} {bs : Bytes} {i j : Nat}

/-- The port is not cut off. -/
theorem le_of_readAddressAndPort {separator : Char} {size : Nat} {p : IpAddress × UInt16}
    (h : readAddressAndPort fromString separator size bs i = .ok p) :
    i + size + 2 ≤ bs.length := by
  obtain ⟨address, -, h⟩ := Except.bind_eq_ok.mp h
  obtain ⟨v, hv, h⟩ := Except.bind_eq_ok.mp h
  obtain ⟨port, hport, -⟩ := Except.bind_eq_ok.mp h
  obtain ⟨hle, hv⟩ := substr_eq_ok.mp (liftExn_eq_ok.mp hv)
  have hport := liftExn_eq_ok.mp hport
  unfold bytesToUint16 at hport
  split at hport
  · cases hport
  · next hlen =>
    rw [not_not, hv, List.length_take, List.length_drop] at hlen
    omega

/-- **A node that is read is complete.** -/
theorem readNode_ends {e : Hash × Node} (h : readNode fromString bs i = .ok (e, j)) :
    NodeEnds bs i j := by
  unfold readNode at h
  obtain ⟨-, h⟩ := guard_eq_ok.mp h
  obtain ⟨_, -, h⟩ := Except.bind_eq_ok.mp h
  obtain ⟨_, -, h⟩ := Except.bind_eq_ok.mp h
  obtain ⟨_, -, h⟩ := Except.bind_eq_ok.mp h
  obtain ⟨v, hv, h⟩ := Except.bind_eq_ok.mp h
  obtain ⟨version, hversion, h⟩ := Except.bind_eq_ok.mp h
  have hbyte := getElem?_of_byte (liftExn_eq_ok.mp hv) (liftExn_eq_ok.mp hversion)
  split at h
  · next h0 =>
    obtain ⟨p, hp, h⟩ := Except.bind_eq_ok.mp h
    have hle := le_of_readAddressAndPort hp
    cases h
    exact ⟨hle, Or.inl ⟨by rw [hbyte, h0], rfl⟩⟩
  · split at h
    · next h1 =>
      obtain ⟨p, hp, h⟩ := Except.bind_eq_ok.mp h
      have hle := le_of_readAddressAndPort hp
      cases h
      exact ⟨hle, Or.inr ⟨by rw [hbyte, h1], rfl⟩⟩
    · cases h

theorem advances_readNode : Advances (readNode fromString bs) bs.length := by
  intro i e j _ h
  rcases (readNode_ends h).2 with ⟨-, hj⟩ | ⟨-, hj⟩
  · omega
  · omega

theorem readTx_ends {C : Crypto} {chainId : UInt64} {tx : TxValidator}
    (h : readTx C chainId bs i = .ok (tx, j)) :
    i + 4 ≤ bs.length ∧ j = i + 4 + BigEndian.decode ((bs.drop i).take 4) := by
  unfold readTx at h
  obtain ⟨-, h⟩ := guard_eq_ok.mp h
  obtain ⟨v, hv, h⟩ := Except.bind_eq_ok.mp h
  obtain ⟨size, hsize, h⟩ := Except.bind_eq_ok.mp h
  obtain ⟨-, h⟩ := guard_eq_ok.mp h
  obtain ⟨_, -, h⟩ := Except.bind_eq_ok.mp h
  obtain ⟨_, -, h⟩ := Except.bind_eq_ok.mp h
  obtain ⟨hle, rfl⟩ := substr_eq_ok.mp (liftExn_eq_ok.mp hv)
  have hsize := liftExn_eq_ok.mp hsize
  unfold Block.bytesToUint32 at hsize
  split at hsize
  · cases hsize
  · next hlen =>
    cases hsize
    cases h
    rw [not_not, List.length_take, List.length_drop] at hlen
    exact ⟨by omega, rfl⟩

theorem advances_readTx {C : Crypto} {chainId : UInt64} :
    Advances (readTx C chainId bs) bs.length := by
  intro i tx j _ h
  have := (readTx_ends h).2
  omega

end

/-! ### The list of nodes -/

section

variable {fromString : List Char → Except Exn IpAddress} {request : Message}
  {nodes : AssocMap Hash Node}

/-- The entries of the map, in the order in which they are encoded. -/
def nodeEntries (nodes : AssocMap Hash Node) : List (Hash × Node) :=
  nodes.entries.map fun e => (e.1, e.2)

theorem mem_nodeEntries {e : Hash × Node} :
    e ∈ nodeEntries nodes ↔ nodes.lookup e.1 = some e.2 := by
  refine Iff.trans ?_ AList.mem_lookup_iff.symm
  simp [nodeEntries, Prod.ext_iff]

theorem lookup_fill (id : Hash) :
    (AnswerDecoder.fill (nodeEntries nodes)).lookup id = nodes.lookup id := by
  have hfill : AnswerDecoder.fill (nodeEntries nodes) =
      AssocMap.overwrite (fun _ node => node) ∅ nodes.entries := List.foldl_map
  rw [hfill]
  cases hid : nodes.lookup id with
  | none => exact AssocMap.lookup_overwrite_of_none _ _ _ hid
  | some node => exact AssocMap.lookup_overwrite_of_some _ _ _ nodes.nodupKeys hid

theorem requestNodes_requestNodes : AnswerDecoder.requestNodes fromString
      (AnswerEncoder.requestNodes request nodes) =
    (readAll (readNode fromString ((nodeEntries nodes).flatMap encodeNode))
      ((nodeEntries nodes).flatMap encodeNode).length
      (((nodeEntries nodes).flatMap encodeNode).length + 1) 0).map
        (Except.map AnswerDecoder.fill) :=
  congrArg (Option.map _) (AnswerDecoder.decodeAll_ofFrame ..)

theorem requestNodes_of_v4 (P : StandardParser fromString)
    (hnamed : ∀ e ∈ nodeEntries nodes, e.2.Named)
    (hv4 : ∀ e ∈ nodeEntries nodes, e.2.address.version = 0) :
    AnswerDecoder.requestNodes fromString (AnswerEncoder.requestNodes request nodes) =
      some (.ok (AnswerDecoder.fill (nodeEntries nodes))) := by
  rw [requestNodes_requestNodes, readAll_flatMap
    (fun e he => reads_encodeNode P (hnamed e he) (hv4 e he)) encodeNode_ne_nil advances_readNode]
  rfl

/-- One IPv6 address, and the decoder throws: the nodes in front of the first one are read. -/
theorem requestNodes_of_v6 (P : StandardParser fromString)
    (hnamed : ∀ e ∈ nodeEntries nodes, e.2.Named) {e : Hash × Node} (he : e ∈ nodeEntries nodes)
    (hv6 : e.2.address.version ≠ 0) :
    ∃ err, AnswerDecoder.requestNodes fromString (AnswerEncoder.requestNodes request nodes) =
      some (.error (.exn err)) := by
  have hsome : ((nodeEntries nodes).find? fun e => decide (e.2.address.version ≠ 0)).isSome :=
    List.find?_isSome.mpr ⟨e, he, decide_eq_true hv6⟩
  obtain ⟨first, hfirst⟩ := Option.isSome_iff_exists.mp hsome
  obtain ⟨hbad, before, after, hsplit, hgood⟩ := List.find?_eq_some_iff_append.mp hfirst
  -- up to `first` the path goes over IPv4 nodes
  have hat : At ((nodeEntries nodes).flatMap encodeNode) 0
      (before.flatMap encodeNode ++ encodeNode first) := by
    rw [hsplit, List.flatMap_append, List.flatMap_cons, ← List.append_assoc]
    exact List.prefix_append _ _
  obtain ⟨hbefore, hat⟩ := at_append.mp hat
  have hreads : ∀ x ∈ before, Reads (readNode fromString) (encodeNode x) x := by
    intro x hx
    have hmem : x ∈ nodeEntries nodes := by
      rw [hsplit]
      exact List.mem_append_left _ hx
    have hv4 := hgood x hx
    exact reads_encodeNode P (hnamed x hmem) (by simpa using hv4)
  have hpath := path_of_at hreads encodeNode_ne_nil hbefore
  obtain ⟨err, herr⟩ := readNode_v6 P (of_decide_eq_true hbad) hat
  have hinside := hat.length_le (encodeNode_ne_nil first)
  have hpos := List.length_pos_iff.mpr (encodeNode_ne_nil first)
  refine ⟨err, ?_⟩
  rw [requestNodes_requestNodes,
    hpath.readAll_error (by omega) herr advances_readNode (by omega)]
  rfl

/-- **The list of nodes is restored exactly if no address is an IPv6 address.** -/
theorem requestNodes_restored_iff (P : StandardParser fromString)
    (hnamed : ∀ id node, nodes.lookup id = some node → node.Named) :
    (∃ restored, AnswerDecoder.requestNodes fromString (AnswerEncoder.requestNodes request nodes) =
        some (.ok restored) ∧ ∀ id, restored.lookup id = nodes.lookup id) ↔
      ∀ id node, nodes.lookup id = some node → node.address.version = 0 := by
  have hnamed : ∀ e ∈ nodeEntries nodes, e.2.Named :=
    fun e he => hnamed e.1 e.2 (mem_nodeEntries.mp he)
  constructor
  · rintro ⟨restored, hrestored, -⟩ id node hnode
    by_contra hv6
    have hmem : (id, node) ∈ nodeEntries nodes := mem_nodeEntries.mpr hnode
    obtain ⟨err, herr⟩ := requestNodes_of_v6 P hnamed hmem hv6
    rw [herr] at hrestored
    cases hrestored
  · intro hv4
    have hv4 : ∀ e ∈ nodeEntries nodes, e.2.address.version = 0 :=
      fun e he => hv4 e.1 e.2 (mem_nodeEntries.mp he)
    exact ⟨_, requestNodes_of_v4 P hnamed hv4, lookup_fill⟩

end

/-- A decimal number below 256. -/
def decimal (digits : List Char) : UInt8 :=
  UInt8.ofNat (digits.foldl (fun n c => 10 * n + (c.toNat - 48)) 0)

/-- A parser of dotted addresses and of nothing else. -/
def dottedParser (text : List Char) : Except Exn IpAddress :=
  match text.splitOn '.' with
  | [a, b, c, d] => .ok (.v4 (FixedStr.ofBytes [decimal a, decimal b, decimal c, decimal d]))
  | _ => .error (.runtimeError "Invalid argument")

theorem dropLast_ipText (separator : Char) (bytes : Bytes) :
    (ipText separator bytes).dropLast =
      [separator].intercalate (bytes.map fun b => Nat.toDigits 10 b.toNat) := by
  induction bytes with
  | nil => rfl
  | cons b bytes ih =>
    have htext : ipText separator (b :: bytes) =
        Nat.toDigits 10 b.toNat ++ [separator] ++ ipText separator bytes := List.flatMap_cons
    cases bytes with
    | nil => simp [ipText]
    | cons c bytes =>
      have hne : ipText separator (c :: bytes) ≠ [] := by simp [ipText_eq_nil]
      rw [htext, List.dropLast_append_of_ne_nil hne, ih]
      simp [List.intercalate]

theorem decimal_toDigits (b : UInt8) :
    decimal (Nat.toDigits 10 b.toNat) = b ∧ '.' ∉ Nat.toDigits 10 b.toNat := by
  have hall : ∀ n < 256, decimal (Nat.toDigits 10 n) = UInt8.ofNat n ∧ '.' ∉ Nat.toDigits 10 n := by
    decide +kernel
  have hb := hall b.toNat b.toNat_lt
  rwa [UInt8.ofNat_toNat] at hb

theorem standardParser_dottedParser : StandardParser dottedParser := by
  constructor
  · rintro ⟨bytes, hsize⟩
    obtain ⟨a, b, c, d, rfl⟩ : ∃ a b c d, bytes = [a, b, c, d] := by
      match bytes, hsize with
      | [a, b, c, d], _ => exact ⟨a, b, c, d, rfl⟩
    have hsplit : ((ipText '.' [a, b, c, d]).dropLast).splitOn '.' =
        [a, b, c, d].map fun b => Nat.toDigits 10 b.toNat := by
      rw [dropLast_ipText]
      refine List.splitOn_intercalate '.' ?_ (by simp)
      intro digits hdigits
      obtain ⟨x, -, rfl⟩ := List.mem_map.mp hdigits
      exact (decimal_toDigits x).2
    unfold dottedParser
    rw [hsplit]
    simp only [List.map_cons, List.map_nil, decimal_toDigits]
    have hbytes := FixedStr.ofBytes_data (⟨[a, b, c, d], hsize⟩ : FixedStr 4)
    exact congrArg (fun x => Except.ok (IpAddress.v4 x)) hbytes
  · intro bytes _
    -- Without a dot the text is one part.
    have hdot : '.' ∉ (ipText ':' bytes).dropLast := by
      intro hmem
      obtain ⟨x, -, hx⟩ := List.mem_flatMap.mp (List.mem_of_mem_dropLast hmem)
      rcases List.mem_append.mp hx with hx | hx
      · exact (decimal_toDigits x).2 hx
      · exact absurd hx (by decide)
    have hsplit : ((ipText ':' bytes).dropLast).splitOn '.' = [(ipText ':' bytes).dropLast] := by
      have hone : ∀ l ∈ [(ipText ':' bytes).dropLast], '.' ∉ l := by simpa using hdot
      simpa [List.intercalate] using List.splitOn_intercalate '.' hone (by simp)
    refine ⟨.runtimeError "Invalid argument", ?_⟩
    unfold dottedParser
    rw [hsplit]

/-- A discovery node at 127.0.0.1. -/
def localNode : AssocMap Hash Node :=
  AList.singleton (FixedStr.ofNat 32 1)
    ⟨.discoveryNode, .v4 (FixedStr.ofNat 4 0x7f000001), 8080⟩

theorem requestNodes_restored_iff_local :
    (∃ restored, AnswerDecoder.requestNodes dottedParser (AnswerEncoder.requestNodes
        (RequestEncoder.ping (FixedStr.ofNat 8 7)) localNode) = some (.ok restored) ∧
        ∀ id, restored.lookup id = localNode.lookup id) ↔
      ∀ id node, localNode.lookup id = some node → node.address.version = 0 := by
  refine requestNodes_restored_iff standardParser_dottedParser ?_
  intro id node hnode
  have hmem : (⟨id, node⟩ : Sigma fun _ : Hash => Node) ∈ localNode.entries :=
    AList.mem_lookup_iff.mp hnode
  cases List.mem_singleton.mp hmem
  exact Or.inr rfl

/-- The loopback address of IPv6 is not read back. -/
theorem requestNodes_not_restored :
    StandardParser dottedParser ∧ ∃ err, AnswerDecoder.requestNodes dottedParser
      (AnswerEncoder.requestNodes (RequestEncoder.ping (FixedStr.ofNat 8 7))
        (AList.singleton (FixedStr.ofNat 32 1)
          ⟨.normalNode, .v6 (FixedStr.ofNat 16 1), 8080⟩)) = some (.error (.exn err)) := by
  refine ⟨standardParser_dottedParser, ?_⟩
  refine requestNodes_of_v6 standardParser_dottedParser ?_ (List.mem_singleton.mpr rfl) ?_
  · intro e he
    cases List.mem_singleton.mp he
    exact Or.inl rfl
  · decide

/-! ### The list of validator transactions -/

theorem encodeTx_ne_nil (tx : TxValidator) : encodeTx tx ≠ [] := by
  have hlen : 4 ≤ (encodeTx tx).length := by simp [encodeTx]
  intro hnil
  rw [hnil] at hlen
  exact absurd hlen (by decide)

theorem reads_encodeTx {C : Crypto} {chainId : UInt64} {tx : TxValidator}
    (hparse : TxValidator.parse C (tx.rlpSerialize true) chainId = .ok tx)
    (hsize : (tx.rlpSerialize true).length < 2 ^ 32) :
    Reads (readTx C chainId) (encodeTx tx) tx := by
  intro bs i h
  have hle := h.length_le (encodeTx_ne_nil tx)
  have hlen : (encodeTx tx).length = 4 + (tx.rlpSerialize true).length := by simp [encodeTx]
  obtain ⟨hsizeBytes, hbody⟩ := at_append.mp h
  have hsizeBytes := substr_at hsizeBytes (by omega)
  have hbody := substr_at hbody (by rw [BigEndian.length_fixed]; omega)
  rw [BigEndian.length_fixed] at hsizeBytes hbody
  have hvalue : Block.bytesToUint32 (BigEndian.fixed 4 (tx.rlpSerialize true).length) =
      .ok (tx.rlpSerialize true).length := by
    have hsize : (tx.rlpSerialize true).length < 256 ^ 4 := hsize.trans_eq (by norm_num)
    rw [Block.bytesToUint32, if_neg (by simp), BigEndian.decode_fixed, Nat.mod_eq_of_lt hsize]
  unfold readTx
  -- the checks compare with the whole payload, in which the entry stands
  refine guard_eq_ok.mpr ⟨by omega, ?_⟩
  refine Except.bind_eq_ok.mpr ⟨_, liftExn_eq_ok.mpr hsizeBytes, ?_⟩
  refine Except.bind_eq_ok.mpr ⟨_, liftExn_eq_ok.mpr hvalue, ?_⟩
  refine guard_eq_ok.mpr ⟨by omega, ?_⟩
  refine Except.bind_eq_ok.mpr ⟨_, liftExn_eq_ok.mpr hbody, ?_⟩
  refine Except.bind_eq_ok.mpr ⟨tx, hparse, ?_⟩
  rw [hlen, Nat.add_assoc]
  rfl

/-- **The list of validator transactions is restored**: every transaction of the map once, in
    the order of the map. -/
theorem requestValidatorTxs_restored {C : Crypto} {chainId : UInt64} (request : Message)
    (txs : AssocMap Hash TxValidator)
    (hparse : ∀ hash tx, txs.lookup hash = some tx →
      TxValidator.parse C (tx.rlpSerialize true) chainId = .ok tx)
    (hsize : ∀ hash tx, txs.lookup hash = some tx → (tx.rlpSerialize true).length < 2 ^ 32) :
    AnswerDecoder.requestValidatorTxs C chainId (AnswerEncoder.requestValidatorTxs request txs) =
      some (.ok (txs.entries.map fun e => e.2)) := by
  have hreads : ∀ tx ∈ txs.entries.map (fun e => e.2),
      Reads (readTx C chainId) (encodeTx tx) tx := by
    intro tx hmem
    obtain ⟨e, he, rfl⟩ := List.mem_map.mp hmem
    have hlookup : txs.lookup e.1 = some e.2 := AList.mem_lookup_iff.mpr he
    exact reads_encodeTx (hparse _ _ hlookup) (hsize _ _ hlookup)
  refine (AnswerDecoder.decodeAll_ofFrame ..).trans ?_
  exact readAll_flatMap hreads encodeTx_ne_nil advances_readTx

/-- The validator transactions of block 1, by their hashes. -/
def recordedTxs : AssocMap Hash TxValidator :=
  Recorded.validatorTxs.foldl (fun txs tx => txs.insert (tx.hash Recorded.crypto true) tx) ∅

theorem restorable_recordedTxs : ∀ e ∈ recordedTxs.entries,
    TxValidator.parse Recorded.crypto (e.2.rlpSerialize true) 8080 = .ok e.2 ∧
      (e.2.rlpSerialize true).length < 2 ^ 32 := by
  have hmem : ∀ e ∈ recordedTxs.entries, e.2 ∈ Recorded.validatorTxs := by decide +kernel
  have hsize : ∀ tx ∈ Recorded.validatorTxs, (tx.rlpSerialize true).length < 2 ^ 32 := by
    decide +kernel
  exact fun e he => ⟨Recorded.parse_validatorTxs _ (hmem e he), hsize _ (hmem e he)⟩

theorem requestValidatorTxs_restored_recorded :
    recordedTxs.entries.length = 8 ∧
      AnswerDecoder.requestValidatorTxs Recorded.crypto 8080 (AnswerEncoder.requestValidatorTxs
        (RequestEncoder.ping (FixedStr.ofNat 8 7)) recordedTxs) =
          some (.ok (recordedTxs.entries.map fun e => e.2)) := by
  refine ⟨by decide +kernel, requestValidatorTxs_restored _ _ ?_ ?_⟩
  · intro hash tx h
    exact (restorable_recordedTxs ⟨hash, tx⟩ (AList.mem_lookup_iff.mp h)).1
  · intro hash tx h
    exact (restorable_recordedTxs ⟨hash, tx⟩ (AList.mem_lookup_iff.mp h)).2

end OrbiterSdk.P2P

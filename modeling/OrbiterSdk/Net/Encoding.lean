import OrbiterSdk.Utils.Bytes

namespace OrbiterSdk.P2P

/-!
# Messages between nodes

The message format of `net/p2p/p2pencoding`: one type byte, an 8-byte id, a 2-byte command
and the payload.

* `Message` — a raw message of at least 11 bytes, so that the header can always be cut out;
* `Message.type`, `Message.command` — the two enumerations of the header.  The bound of both
  checks is the *length* of the table of names, so the first value without a name passes
  (`unnamed`) and every greater one throws;
* `frame` — what the encoders concatenate, with `type_ofFrame`, `id_ofFrame` and
  `command_ofFrame` reading it back.
-/

/-- `ConnectionType`. -/
inductive ConnectionType where
  | server | client
deriving DecidableEq, Repr

/-- `NodeType`.  The handshake casts any digit to it. -/
inductive NodeType where
  | normalNode | discoveryNode
  | other (value : Nat)
deriving DecidableEq, Repr

/-- `RequestType`; `unnamed` is the value 3. -/
inductive RequestType where
  | requesting | answering | broadcasting | unnamed
deriving DecidableEq, Repr

/-- `CommandType`; `unnamed` is the value 7. -/
inductive CommandType where
  | ping | info | requestNodes | requestValidatorTxs
  | broadcastValidatorTx | broadcastTx | broadcastBlock | unnamed
deriving DecidableEq, Repr

/-! ### The header fields -/

/-- `typePrefixes`. -/
def typePrefixes : List Bytes := [[0x00], [0x01], [0x02]]

/-- `commandPrefixes`. -/
def commandPrefixes : List Bytes :=
  [[0x00, 0x00], [0x00, 0x01], [0x00, 0x02], [0x00, 0x03], [0x00, 0x04], [0x00, 0x05],
    [0x00, 0x06]]

/-- `static_cast<RequestType>` on the values that pass the check. -/
def RequestType.ofValue : Nat → RequestType
  | 0 => .requesting
  | 1 => .answering
  | 2 => .broadcasting
  | _ => .unnamed

/-- `static_cast<CommandType>` on the values that pass the check. -/
def CommandType.ofValue : Nat → CommandType
  | 0 => .ping
  | 1 => .info
  | 2 => .requestNodes
  | 3 => .requestValidatorTxs
  | 4 => .broadcastValidatorTx
  | 5 => .broadcastTx
  | 6 => .broadcastBlock
  | _ => .unnamed

/-- `getRequestType`. -/
def getRequestType (message : Bytes) : Except Exn RequestType :=
  if message.length ≠ 1 then
    .error (.runtimeError ("Invalid Request Type size. " ++ toString message.length))
  else if BigEndian.decode message > typePrefixes.length then
    .error (.runtimeError "Invalid request type.")
  else .ok (.ofValue (BigEndian.decode message))

/-- `getCommandType`. -/
def getCommandType (message : Bytes) : Except Exn CommandType :=
  if message.length ≠ 2 then
    .error (.runtimeError ("Invalid Command Type size." ++ toString message.length))
  else if BigEndian.decode message > commandPrefixes.length then
    .error (.runtimeError "Invalid command type.")
  else .ok (.ofValue (BigEndian.decode message))

/-- `getRequestTypePrefix`, asked only for the types that have a name. -/
def getRequestTypePrefix : RequestType → Bytes
  | .requesting => [0x00]
  | .answering => [0x01]
  | .broadcasting => [0x02]
  | .unnamed => []

/-- `getCommandPrefix`, asked only for the commands that have a name. -/
def getCommandPrefix : CommandType → Bytes
  | .ping => [0x00, 0x00]
  | .info => [0x00, 0x01]
  | .requestNodes => [0x00, 0x02]
  | .requestValidatorTxs => [0x00, 0x03]
  | .broadcastValidatorTx => [0x00, 0x04]
  | .broadcastTx => [0x00, 0x05]
  | .broadcastBlock => [0x00, 0x06]
  | .unnamed => []

/-! ### Request ids -/

/-- `RequestID`. -/
abbrev RequestID := FixedStr 8

/-- `RequestID::toUint64`. -/
def RequestID.toUint64 (id : RequestID) : UInt64 := UInt64.ofNat (BigEndian.decode id.data)

theorem RequestID.toUint64_injective : Function.Injective RequestID.toUint64 := by
  intro a b h
  have hlt : ∀ id : RequestID, BigEndian.decode id.data < 2 ^ 64 := by
    intro id
    have := BigEndian.decode_lt id.data
    rwa [id.size_eq] at this
  have hnat := congrArg UInt64.toNat h
  rw [toUint64, toUint64, UInt64.toNat_ofNat_of_lt' (hlt a),
    UInt64.toNat_ofNat_of_lt' (hlt b)] at hnat
  refine FixedStr.ext ?_
  rw [← BigEndian.fixed_decode a.data, ← BigEndian.fixed_decode b.data, hnat, a.size_eq, b.size_eq]

/-! ### Messages -/

/-- `Message`: the constructor refuses anything shorter than the header. -/
structure Message where
  raw : Bytes
  size_le : 11 ≤ raw.length
deriving DecidableEq

namespace Message

/-- `Message::type`. -/
def type (m : Message) : Except Exn RequestType := getRequestType (m.raw.take 1)

/-- `Message::id`. -/
def id (m : Message) : RequestID := FixedStr.ofBytes ((m.raw.drop 1).take 8)

/-- `Message::command`. -/
def command (m : Message) : Except Exn CommandType := getCommandType ((m.raw.drop 9).take 2)

/-- The key of `broadcastedMessages_`: `message.id().toUint64()`. -/
def key (m : Message) : UInt64 := m.id.toUint64

end Message

/-! ### What the encoders build -/

/-- The concatenation every encoder makes. -/
def frame (type : RequestType) (id : RequestID) (command : CommandType) (body : Bytes) : Bytes :=
  getRequestTypePrefix type ++ id.data ++ getCommandPrefix command ++ body

theorem length_getRequestTypePrefix {type : RequestType} (h : type ≠ .unnamed) :
    (getRequestTypePrefix type).length = 1 := by
  cases type <;> first | rfl | exact absurd rfl h

theorem length_getCommandPrefix {command : CommandType} (h : command ≠ .unnamed) :
    (getCommandPrefix command).length = 2 := by
  cases command <;> first | rfl | exact absurd rfl h

theorem answering_ne_unnamed : RequestType.answering ≠ .unnamed := by decide

/-- A message put together by an encoder. -/
def Message.ofFrame (type : RequestType) (id : RequestID) (command : CommandType) (body : Bytes)
    (ht : type ≠ .unnamed) (hc : command ≠ .unnamed) : Message where
  raw := frame type id command body
  size_le := by
    simp [frame, length_getRequestTypePrefix ht, length_getCommandPrefix hc, id.size_eq]
    omega

section

variable {type : RequestType} {id : RequestID} {command : CommandType} {body : Bytes}
  {ht : type ≠ .unnamed} {hc : command ≠ .unnamed}

theorem Message.type_ofFrame : (Message.ofFrame type id command body ht hc).type = .ok type := by
  have htake : (frame type id command body).take 1 = getRequestTypePrefix type := by
    rw [frame, List.append_assoc, List.append_assoc]
    exact List.take_left' (length_getRequestTypePrefix ht)
  show getRequestType ((frame type id command body).take 1) = _
  rw [htake]
  cases type <;> first | rfl | exact absurd rfl ht

theorem Message.id_ofFrame : (Message.ofFrame type id command body ht hc).id = id := by
  have hcut : ((frame type id command body).drop 1).take 8 = id.data := by
    rw [frame, List.append_assoc, List.append_assoc,
      List.drop_left' (length_getRequestTypePrefix ht)]
    exact List.take_left' id.size_eq
  show FixedStr.ofBytes (((frame type id command body).drop 1).take 8) = id
  rw [hcut, FixedStr.ofBytes_data]

theorem Message.command_ofFrame :
    (Message.ofFrame type id command body ht hc).command = .ok command := by
  have hlen : (getRequestTypePrefix type ++ id.data).length = 9 := by
    rw [List.length_append, length_getRequestTypePrefix ht, id.size_eq]
  have hcut : ((frame type id command body).drop 9).take 2 = getCommandPrefix command := by
    rw [frame, List.append_assoc _ _ body, List.drop_left' hlen]
    exact List.take_left' (length_getCommandPrefix hc)
  show getCommandType (((frame type id command body).drop 9).take 2) = _
  rw [hcut]
  cases command with
  | unnamed => exact absurd rfl hc
  | _ => simp [getCommandType, getCommandPrefix, BigEndian.decode, commandPrefixes,
      CommandType.ofValue]

end

/-- `RequestEncoder::ping`, with the random id it draws. -/
def RequestEncoder.ping (rand : RequestID) : Message :=
  .ofFrame .requesting rand .ping [] (by decide) (by decide)

namespace AnswerEncoder

/-- `AnswerEncoder::ping`: the answer carries the request's id. -/
def ping (request : Message) : Message :=
  .ofFrame .answering request.id .ping [] answering_ne_unnamed (by decide)

theorem type_ping (request : Message) : (ping request).type = .ok .answering :=
  Message.type_ofFrame

end AnswerEncoder

end OrbiterSdk.P2P

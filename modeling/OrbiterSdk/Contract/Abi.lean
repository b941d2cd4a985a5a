import OrbiterSdk.Utils.Tx

namespace OrbiterSdk

/-!
# Solidity ABI encoding and decoding

`contract/abi.h`: `Abi.encode` is `Encoder(data).getRaw()`, `Abi.encodeCall` the same with a
function header in front, and `Abi.decode` is `Decoder(types, bytes)`, with the functions that
read one value each.
-/

namespace Abi

/-- The alternatives of `Encoder::EncVar`. -/
inductive Value where
  | uint256 (x : Uint256)
  | uint256Arr (xs : List Uint256)
  | address (a : Address)
  | addressArr (as : List Address)
  | boolean (b : Bool)
  | booleanArr (bs : List Bool)
  | bytes (s : Bytes)
  | bytesArr (ss : List Bytes)

/-- `Utils::padLeftBytes`. -/
def padLeftBytes (s : Bytes) (n : Nat) : Bytes := List.replicate (n - s.length) 0 ++ s

/-- `Utils::padRightBytes`. -/
def padRightBytes (s : Bytes) (n : Nat) : Bytes := s ++ List.replicate (n - s.length) 0

/-- A number as one 32-byte line. -/
def line (n : Nat) : Bytes := padLeftBytes (uintToBytes n) 32

/-- `encodeUint256`. -/
def encodeUint256 (x : Uint256) : Bytes := BigEndian.fixed 32 x

/-- `encodeAddress`. -/
def encodeAddress (a : Address) : Bytes := padLeftBytes a.data 32

/-- `encodeBool`: the literal `"\x00"` is an empty C string, the padding is the zero. -/
def encodeBool (b : Bool) : Bytes := padLeftBytes (if b then [1] else []) 32

/-- `do { pad += 32; } while (pad < length);` -/
def paddedSize (length : Nat) : Nat := if length = 0 then 32 else (length + 31) / 32 * 32

/-- `encodeBytes`: the length and the padded data. -/
def encodeBytes (s : Bytes) : Bytes := line s.length ++ padRightBytes s (paddedSize s.length)

/-- An array of static items, from its length on. -/
def encodeStaticArr (items : List Bytes) : Bytes := line items.length ++ items.flatten

/-- `encodeBytesArr` from the length on: all offsets, then all strings with their lengths.
    (`bS.insert(0, "\x00")` inserts an empty C string, so odd lengths are not changed.) -/
def encodeBytesArr (ss : List Bytes) : Bytes :=
  let offsets := ss.zipIdx.map fun (_, i) =>
    line (32 * ss.length + 32 * i + ((ss.take i).map fun t => paddedSize t.length).sum)
  line ss.length ++ offsets.flatten ++ (ss.map encodeBytes).flatten

/-- The line of a static value, or the dynamic part of a dynamic one. -/
def encodeValue : Value → Bytes ⊕ Bytes
  | .uint256 x => .inl (encodeUint256 x)
  | .address a => .inl (encodeAddress a)
  | .boolean b => .inl (encodeBool b)
  | .bytes s => .inr (encodeBytes s)
  | .uint256Arr xs => .inr (encodeStaticArr (xs.map encodeUint256))
  | .addressArr as => .inr (encodeStaticArr (as.map encodeAddress))
  | .booleanArr bs => .inr (encodeStaticArr (bs.map encodeBool))
  | .bytesArr ss => .inr (encodeBytesArr ss)

/-- The loop over the arguments: the lines so far, the dynamic parts so far and the next
    offset. -/
def encodeLoop : List Value → Bytes → Bytes → Nat → Bytes
  | [], lines, dynamicStr, _ => lines ++ dynamicStr
  | v :: vs, lines, dynamicStr, nextOffset =>
    match encodeValue v with
    | .inl l => encodeLoop vs (lines ++ l) dynamicStr nextOffset
    | .inr d => encodeLoop vs (lines ++ line nextOffset) (dynamicStr ++ d) (nextOffset + d.length)

/-- `Encoder(data).getRaw()`. -/
def encode (data : List Value) : Bytes := encodeLoop data [] [] (32 * data.length)

/-- `Encoder(data, func).getRaw()` for a header `func` that agrees with the data. -/
def encodeCall (C : Crypto) (func : Bytes) (data : List Value) : Bytes :=
  (C.sha3 func).data.take 4 ++ encode data

/-! ### Decoding -/

/-- `decodeUint256`. -/
def decodeUint256 (data : Bytes) (start : Nat) : Except Exn Uint256 :=
  if data.length < start + 32 then .error (.runtimeError "Data too short")
  else fromBigEndian256 ((data.drop start).take 32)

/-- `decodeAddress`: the last twenty bytes of the line. -/
def decodeAddress (data : Bytes) (start : Nat) : Except Exn Address :=
  if data.length < start + 32 then .error (.runtimeError "Data too short")
  else .ok (FixedStr.ofBytes ((data.drop (start + 12)).take 20))

/-- `boost::lexical_cast<uint64_t>` of the number in a line. -/
def lineToUint64 (bs : Bytes) : Except Fail Nat :=
  if BigEndian.decode bs < 2 ^ 64 then .ok (BigEndian.decode bs) else .error (.exn .badCast)

/-- `decodeBytes`: the offset and the length are read unchecked, and the size check uses
    `start` instead of the offset, in 64-bit arithmetic. -/
def decodeBytes (data : Bytes) (start : Nat) : Except Fail Bytes := do
  let bytesStart ← lineToUint64 (← viewAt data start 32)
  let bytesLength ← lineToUint64 (← viewAt data bytesStart 32)
  if data.length < (start + 32 + 32 + bytesLength) % 2 ^ 64 then raise "Data too short"
  viewAt data (bytesStart + 32) bytesLength

/-- `decodeBool`. -/
def decodeBool (data : Bytes) (start : Nat) : Except Fail Bool := do
  if data.length < start + 32 then raise "Data too short"
  return (← byteAt data (start + 31)) == 1

/-- The loop over the items of an array, from item `i` on, `n` items being left. -/
def decodeItems {α : Type} (item : Nat → Except Fail α) : Nat → Nat → Except Fail (List α)
  | _, 0 => .ok []
  | i, n + 1 => do
    let x ← item i
    return x :: (← decodeItems item (i + 1) n)

/-- An array of static items: `item` reads the one whose line starts at the given place. -/
def decodeStaticArr {α : Type} (item : Nat → Except Fail α) (data : Bytes) (start : Nat) :
    Except Fail (List α) := do
  let arrayStart ← lineToUint64 (← viewAt data start 32)
  let arrayLength ← lineToUint64 (← viewAt data arrayStart 32)
  if data.length < (arrayStart + 32 + arrayLength * 32) % 2 ^ 64 then raise "Data too short"
  decodeItems (fun i => item (arrayStart + 32 + i * 32 % 2 ^ 64)) 0 arrayLength

/-- `decodeUint256Arr`. -/
def decodeUint256Arr (data : Bytes) (start : Nat) : Except Fail (List Uint256) :=
  decodeStaticArr (fun p => do liftExn (fromBigEndian256 (← viewAt data p 32))) data start

/-- `decodeAddressArr`. -/
def decodeAddressArr (data : Bytes) (start : Nat) : Except Fail (List Address) :=
  decodeStaticArr (fun p => do return FixedStr.ofBytes (← viewAt data (p + 12) 20)) data start

/-- `decodeBoolArr`: the index of the byte is computed in 64 bits. -/
def decodeBoolArr (data : Bytes) (start : Nat) : Except Fail (List Bool) :=
  decodeStaticArr (fun p => do return (← byteAt data ((p + 31) % 2 ^ 64)) == 1) data start

/-- `decodeBytesArr`: the number of strings is not checked, the strings one by one are. -/
def decodeBytesArr (data : Bytes) (start : Nat) : Except Fail (List Bytes) := do
  let arrayStart ← lineToUint64 (← viewAt data start 32)
  let arrayLength ← lineToUint64 (← viewAt data arrayStart 32)
  decodeItems (fun i => do
    let offset ← lineToUint64 (← viewAt data (arrayStart + 32 + i * 32 % 2 ^ 64) 32)
    let bytesStart := (offset + arrayStart + 32) % 2 ^ 64
    let bytesLength ← lineToUint64 (← viewAt data bytesStart 32)
    if data.length < (bytesStart + 32 + bytesLength) % 2 ^ 64 then raise "Data too short"
    viewAt data (bytesStart + 32) bytesLength) 0 arrayLength

/-- `enum Types`. -/
inductive Types where
  | uint256
  | uint256Arr
  | address
  | addressArr
  | boolean
  | booleanArr
  | bytes
  | bytesArr
  | string
  | stringArr

/-- One argument, whose line starts at `dataIdx`. -/
def decodeValue (bytes : Bytes) (dataIdx : Nat) : Types → Except Fail Value
  | .uint256 => do return .uint256 (← liftExn (decodeUint256 bytes dataIdx))
  | .uint256Arr => do return .uint256Arr (← decodeUint256Arr bytes dataIdx)
  | .address => do return .address (← liftExn (decodeAddress bytes dataIdx))
  | .addressArr => do return .addressArr (← decodeAddressArr bytes dataIdx)
  | .boolean => do return .boolean (← decodeBool bytes dataIdx)
  | .booleanArr => do return .booleanArr (← decodeBoolArr bytes dataIdx)
  | .bytes => do return .bytes (← decodeBytes bytes dataIdx)
  | .string => do return .bytes (← decodeBytes bytes dataIdx)
  | .bytesArr => do return .bytesArr (← decodeBytesArr bytes dataIdx)
  | .stringArr => do return .bytesArr (← decodeBytesArr bytes dataIdx)

/-- The loop over the types. -/
def decodeLoop (bytes : Bytes) : List Types → Nat → Except Fail (List Value)
  | [], _ => .ok []
  | type :: types, dataIdx => do
    let v ← decodeValue bytes dataIdx type
    return v :: (← decodeLoop bytes types (dataIdx + 32))

/-- `Decoder(types, bytes)`. -/
def decode (types : List Types) (bytes : Bytes) : Except Fail (List Value) :=
  decodeLoop bytes types 0

/-! ### Round trips -/

@[simp] theorem length_encodeAddress (a : Address) : (encodeAddress a).length = 32 := by
  simp [encodeAddress, padLeftBytes, a.size_eq]

@[simp] theorem length_encodeUint256 (x : Uint256) : (encodeUint256 x).length = 32 := by
  simp [encodeUint256]

/-- A part of the input whose start is known ends within the input. -/
theorem le_of_drop {data x rest : Bytes} {p : Nat} (h : data.drop p = x ++ rest)
    (hx : 0 < x.length) : p + x.length ≤ data.length := by
  have hlen := congrArg List.length h
  rw [List.length_drop, List.length_append] at hlen
  omega

theorem fromBigEndian256_encodeUint256 (x : Uint256) :
    fromBigEndian256 (encodeUint256 x) = .ok x := by
  have hdecode : BigEndian.decode (encodeUint256 x) = x.val := by
    rw [encodeUint256, BigEndian.decode_fixed]
    exact Nat.mod_eq_of_lt x.isLt
  rw [fromBigEndian256, dif_pos (by rw [hdecode]; exact x.isLt)]
  congr 1
  exact Fin.ext hdecode

theorem ofBytes_address (a : Address) : (FixedStr.ofBytes a.data : Address) = a := by
  refine FixedStr.ext ?_
  show (a.data ++ List.replicate 20 0).take 20 = a.data
  exact List.take_left' a.size_eq

theorem drop_encodeAddress {data rest : Bytes} {p : Nat} {a : Address}
    (h : data.drop p = encodeAddress a ++ rest) : data.drop (p + 12) = a.data ++ rest := by
  have hpad : encodeAddress a = List.replicate 12 0 ++ a.data := by
    rw [encodeAddress, padLeftBytes, a.size_eq]
  rw [← List.drop_drop, h, hpad, List.append_assoc]
  exact List.drop_left' List.length_replicate

theorem decodeAddress_of_drop {data rest : Bytes} {p : Nat} {a : Address}
    (h : data.drop p = encodeAddress a ++ rest) : decodeAddress data p = .ok a := by
  have hend := le_of_drop h (by simp)
  rw [length_encodeAddress] at hend
  rw [decodeAddress, if_neg (not_lt.mpr hend), drop_encodeAddress h, List.take_left' a.size_eq,
    ofBytes_address]

theorem decodeAddress_encodeAddress (lines : Bytes) (a : Address) (rest : Bytes) :
    decodeAddress (lines ++ (encodeAddress a ++ rest)) lines.length = .ok a :=
  decodeAddress_of_drop List.drop_left

theorem decodeUint256_of_drop {data rest : Bytes} {p : Nat} {x : Uint256}
    (h : data.drop p = encodeUint256 x ++ rest) : decodeUint256 data p = .ok x := by
  have hend := le_of_drop h (by simp)
  rw [length_encodeUint256] at hend
  rw [decodeUint256, if_neg (not_lt.mpr hend), h, List.take_left' (length_encodeUint256 x),
    fromBigEndian256_encodeUint256]

theorem decodeUint256_encodeUint256 (lines : Bytes) (x : Uint256) (rest : Bytes) :
    decodeUint256 (lines ++ (encodeUint256 x ++ rest)) lines.length = .ok x :=
  decodeUint256_of_drop List.drop_left

end Abi

end OrbiterSdk

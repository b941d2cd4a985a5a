import OrbiterSdk.Utils.Ecdsa

namespace OrbiterSdk

/-!
# Transactions: `TxBlock` and `TxValidator`

The two transaction types of `utils/tx.h` with their RLP encoding and decoding:

* `rlpSerialize` — the encoding, with or without the signature; the list header carries a
  size that is computed field by field before anything is written (`rlpSize`);
* `TxBlock.parse` / `TxValidator.parse` — the constructors from bytes.  They index a
  `std::string_view` without bounds checks, so besides throwing they can read outside their
  input (`Fail.oob`, undefined behaviour in C++);
* `hash` — Keccak-256 of the encoding, the identity of a transaction.

`from` and `to` are called `sender` and `receiver` here (the source's words in its comments).
-/

/-! ### Encoding of the fields -/

/-- `Utils::uintToBytes`: big-endian without padding, nothing for zero. -/
def uintToBytes (n : Nat) : Bytes := BigEndian.minimal n

/-- `Utils::bytesRequired`. -/
def bytesRequired (n : Nat) : Nat := (uintToBytes n).length

/-- A number: `0x80` for zero, the byte itself below `0x80`, else a short string. -/
def rlpUint (n : Nat) : Bytes :=
  if n = 0 then [0x80]
  else if n < 0x80 then [UInt8.ofNat n]
  else UInt8.ofNat (bytesRequired n + 0x80) :: uintToBytes n

/-- The size reserved for a number. -/
def rlpUintSize (n : Nat) : Nat := if n < 0x80 then 1 else 1 + bytesRequired n

/-- A byte string: `0x80` when empty, else a short or a long string. -/
def rlpData (data : Bytes) : Bytes :=
  if data.length = 0 then [0x80]
  else if data.length ≤ 55 then UInt8.ofNat (data.length + 0x80) :: data
  else UInt8.ofNat (bytesRequired data.length + 0xb7) :: (uintToBytes data.length ++ data)

/-- The size reserved for a byte string. -/
def rlpDataSize (data : Bytes) : Nat :=
  if data.length = 0 then 1
  else if data.length ≤ 55 then 1 + data.length
  else 1 + bytesRequired data.length + data.length

/-- A signature half: always a short string. -/
def rlpSigHalf (n : Nat) : Bytes := UInt8.ofNat (bytesRequired n + 0x80) :: uintToBytes n

/-- The list header for a payload of `totalSize` bytes. -/
def rlpListHeader (totalSize : Nat) : Bytes :=
  if totalSize ≤ 55 then [UInt8.ofNat (totalSize + 0xc0)]
  else UInt8.ofNat (bytesRequired totalSize + 0xf7) :: uintToBytes totalSize

/-! ### `TxBlock` -/

/-- `class TxBlock`. -/
structure TxBlock where
  receiver : Address
  sender : Address
  data : Bytes
  chainId : UInt64
  nonce : Uint256
  value : Uint256
  maxPriorityFeePerGas : Uint256
  maxFeePerGas : Uint256
  gasLimit : Uint256
  v : UInt8
  r : Uint256
  s : Uint256
deriving DecidableEq

namespace TxBlock

/-- `total_size` of `TxBlock::rlpSerialize`. -/
def rlpSize (tx : TxBlock) (includeSig : Bool) : Nat :=
  rlpUintSize tx.chainId.toNat + rlpUintSize tx.nonce + rlpUintSize tx.maxPriorityFeePerGas +
    rlpUintSize tx.maxFeePerGas + rlpUintSize tx.gasLimit + (1 + 20) + rlpUintSize tx.value + 1 +
    rlpDataSize tx.data +
    if includeSig then 1 + (1 + bytesRequired tx.r) + (1 + bytesRequired tx.s) else 0

/-- The fields of `TxBlock::rlpSerialize` in order; the access list is always empty. -/
def rlpPayload (tx : TxBlock) (includeSig : Bool) : Bytes :=
  rlpUint tx.chainId.toNat ++ rlpUint tx.nonce ++ rlpUint tx.maxPriorityFeePerGas ++
    rlpUint tx.maxFeePerGas ++ rlpUint tx.gasLimit ++ (0x94 :: tx.receiver.data) ++ rlpUint tx.value ++
    rlpData tx.data ++ [0xc0] ++
    if includeSig then [if tx.v = 0 then 0x80 else tx.v] ++ rlpSigHalf tx.r ++ rlpSigHalf tx.s
    else []

/-- `TxBlock::rlpSerialize`. -/
def rlpSerialize (tx : TxBlock) (includeSig : Bool) : Bytes :=
  0x02 :: (rlpListHeader (tx.rlpSize includeSig) ++ tx.rlpPayload includeSig)

/-- `TxBlock::hash`. -/
def hash (C : Crypto) (tx : TxBlock) (includeSig : Bool) : Hash :=
  C.sha3 (tx.rlpSerialize includeSig)

end TxBlock

/-- `TxBlock::TxBlock(to, from, data, chainId, nonce, value, …, privKey)`: build and sign. -/
def TxBlock.create (C : Crypto) (receiver sender : Address) (data : Bytes) (chainId : UInt64)
    (nonce value maxPriorityFeePerGas maxFeePerGas gasLimit : Uint256) (privKey : PrivKey) :
    Except Exn TxBlock :=
  let tx : TxBlock :=
    { receiver, sender, data, chainId, nonce, value, maxPriorityFeePerGas, maxFeePerGas, gasLimit
      v := 0, r := 0, s := 0 }
  let pubKey := Secp256k1.toUPub C privKey
  if Secp256k1.toAddress C pubKey ≠ sender then
    .error (.runtimeError "Private key does not match sender address (from)")
  else
    let hash := tx.hash C false
    let sig := Secp256k1.sign C hash privKey
    if pubKey ≠ Secp256k1.recover C sig hash then
      .error (.runtimeError "Invalid tx signature - derived key doesn't match public key")
    else if !Secp256k1.verifySig (sigR sig) (sigS sig) (sigV sig) then
      .error (.runtimeError "Invalid tx signature - doesn't fit elliptic curve verification")
    else
      .ok { tx with v := sigV sig, r := Fin.ofNat _ (sigR sig), s := Fin.ofNat _ (sigS sig) }

/-! ### `TxValidator` -/

/-- `class TxValidator`. -/
structure TxValidator where
  sender : Address
  data : Bytes
  chainId : UInt64
  nHeight : UInt64
  v : Uint256
  r : Uint256
  s : Uint256
deriving DecidableEq

namespace TxValidator

/-- `v` or `chainId`: like a number, but zero is the byte zero itself. -/
def rlpV (n : Nat) : Bytes :=
  if n < 0x80 then [UInt8.ofNat n] else UInt8.ofNat (bytesRequired n + 0x80) :: uintToBytes n

/-- The number in the place of `v`: the chain id when the signature is left out. -/
def vOrChainId (tx : TxValidator) (includeSig : Bool) : Nat :=
  if includeSig then tx.v.val else tx.chainId.toNat

/-- `total_size` of `TxValidator::rlpSerialize`. -/
def rlpSize (tx : TxValidator) (includeSig : Bool) : Nat :=
  rlpDataSize tx.data + rlpUintSize tx.nHeight.toNat + rlpUintSize (tx.vOrChainId includeSig) +
    (if includeSig then 1 + bytesRequired tx.r else 1) +
    (if includeSig then 1 + bytesRequired tx.s else 1)

/-- The fields of `TxValidator::rlpSerialize` in order. -/
def rlpPayload (tx : TxValidator) (includeSig : Bool) : Bytes :=
  rlpData tx.data ++ rlpUint tx.nHeight.toNat ++ rlpV (tx.vOrChainId includeSig) ++
    (if includeSig then rlpSigHalf tx.r else [0x80]) ++
    (if includeSig then rlpSigHalf tx.s else [0x80])

/-- `TxValidator::rlpSerialize`. -/
def rlpSerialize (tx : TxValidator) (includeSig : Bool) : Bytes :=
  rlpListHeader (tx.rlpSize includeSig) ++ tx.rlpPayload includeSig

/-- `TxValidator::hash`. -/
def hash (C : Crypto) (tx : TxValidator) (includeSig : Bool) : Hash :=
  C.sha3 (tx.rlpSerialize includeSig)

end TxValidator

/-- `TxValidator::TxValidator(from, data, chainId, nHeight, privKey)`: build and sign.  `v` is
    computed in 64 bits. -/
def TxValidator.create (C : Crypto) (sender : Address) (data : Bytes) (chainId nHeight : UInt64)
    (privKey : PrivKey) : Except Exn TxValidator :=
  let pubKey := Secp256k1.toUPub C privKey
  let tx : TxValidator := { sender, data, chainId, nHeight, v := 0, r := 0, s := 0 }
  let hash := tx.hash C false
  if Secp256k1.toAddress C pubKey ≠ sender then
    .error (.runtimeError "Private key does not match sender address (from)")
  else
    let sig := Secp256k1.sign C hash privKey
    if !Secp256k1.verifySig (sigR sig) (sigS sig) (sigV sig) then
      .error (.runtimeError "Invalid tx signature - doesn't fit elliptic curve verification")
    else if pubKey ≠ Secp256k1.recover C sig hash then
      .error (.runtimeError
        "Invalid transaction signature, signature derived key doens't match public key")
    else
      .ok { tx with
        v := Fin.ofNat _ ((sigV sig).toUInt64 + (chainId * 2 + 35)).toNat
        r := Fin.ofNat _ (sigR sig)
        s := Fin.ofNat _ (sigS sig) }

theorem TxValidator.create_ok {C : Crypto} {sender : Address} {data : Bytes}
    {chainId nHeight : UInt64} {privKey : PrivKey} {tx : TxValidator}
    (h : TxValidator.create C sender data chainId nHeight privKey = .ok tx) :
    tx.data = data ∧ tx.nHeight = nHeight := by
  unfold create at h
  dsimp only at h
  split at h
  · cases h
  · split at h
    · cases h
    · split at h
      · cases h
      · cases h
        exact ⟨rfl, rfl⟩

/-! ### Unchecked readers -/

/-- How a parser ends without a value. -/
inductive Fail where
  /-- An exception. -/
  | exn (e : Exn)
  /-- A read outside the input: undefined behaviour. -/
  | oob
deriving DecidableEq

/-- Throw from a parser. -/
def raise {α : Type} (what : String) : Except Fail α := .error (.exn (.runtimeError what))

theorem guard_eq_ok {α : Type} {p : Prop} [Decidable p] {what : String}
    {k : Unit → Except Fail α} {a : α} :
    (if p then raise what >>= k else k ()) = .ok a ↔ ¬ p ∧ k () = .ok a := by
  split
  · rename_i hp
    constructor
    · intro h; cases h
    · exact fun h => absurd hp h.1
  · rename_i hp
    exact ⟨fun h => ⟨hp, h⟩, fun h => h.2⟩

/-- Let an exception of a callee pass through a parser. -/
def liftExn {α : Type} : Except Exn α → Except Fail α
  | .ok x => .ok x
  | .error e => .error (.exn e)

theorem liftExn_eq_ok {α : Type} {x : Except Exn α} {a : α} : liftExn x = .ok a ↔ x = .ok a := by
  cases x <;> simp [liftExn]

/-- `bytes[i]` of a `std::string_view`. -/
def byteAt (bs : Bytes) (i : Nat) : Except Fail UInt8 :=
  match bs[i]? with
  | some b => .ok b
  | none => .error .oob

/-- `std::string_view(&bytes[i], len)`. -/
def viewAt (bs : Bytes) (i len : Nat) : Except Fail Bytes :=
  if i + len ≤ bs.length then .ok ((bs.drop i).take len) else .error .oob

/-- `Utils::fromBigEndian<uint64_t>`: the shifts drop the high bytes. -/
def fromBigEndian64 (bs : Bytes) : Except Exn UInt64 := .ok (UInt64.ofNat (BigEndian.decode bs))

/-- `Utils::fromBigEndian<uint256_t>`: the checked shift throws when bits are lost. -/
def fromBigEndian256 (bs : Bytes) : Except Exn Uint256 :=
  if h : BigEndian.decode bs < 2 ^ 256 then .ok ⟨BigEndian.decode bs, h⟩ else .error .overflow

/-- `Utils::fromBigEndian<T>(std::string_view(&bytes[i], len))`.  The bytes are read one after
    the other, so a conversion that throws early does not come to the end of the input. -/
def convAt {α : Type} (conv : Bytes → Except Exn α) (bs : Bytes) (i len : Nat) : Except Fail α :=
  match conv ((bs.drop i).take len) with
  | .error e => .error (.exn e)
  | .ok x => if i + len ≤ bs.length then .ok x else .error .oob

theorem fromBigEndian256_uintToBytes (n : Uint256) : fromBigEndian256 (uintToBytes n) = .ok n := by
  rw [fromBigEndian256]
  simp only [uintToBytes, BigEndian.decode_minimal, n.isLt, dif_pos]

/-- A number field: a short string (of at most `0x37` bytes when `tooLarge` names the error),
    zero (`0x80`, the value of no bytes) or the byte itself.  Returns the next index. -/
def readUint {α : Type} (conv : Bytes → Except Exn α) (tooLarge : Option String)
    (bs : Bytes) (index : Nat) : Except Fail (α × Nat) := do
  let b ← byteAt bs index
  let len := if 0x80 ≤ b.toNat then b.toNat - 0x80 else 0
  if len ≠ 0 then
    match tooLarge with
    | some what => if 0x37 < len then raise what
    | none => pure ()
    let x ← convAt conv bs (index + 1) len
    return (x, index + 1 + len)
  else
    let x ← liftExn (conv (if b = 0x80 then [] else [b]))
    return (x, index + 1)

/-- A signature half: a short string of at most `bound` bytes. -/
def readSigHalf (bound : Nat) (tooLarge : String) (bs : Bytes) (index : Nat) :
    Except Fail (Uint256 × Nat) := do
  let len := ((← byteAt bs index) - 0x80).toNat
  if bound < len then raise tooLarge
  let x ← convAt fromBigEndian256 bs (index + 1) len
  return (x, index + 1 + len)

/-- The data field.  `tooLarge` names the error for a list in its place, which
    `TxValidator` does not look for.  The announced length of a long string is any 64-bit
    number: `substr` cuts at the end, the index wraps. -/
def readData (tooLarge : Option String) (bs : Bytes) (index : Nat) :
    Except Fail (Bytes × Nat) := do
  let b ← byteAt bs index
  if b.toNat < 0x80 then
    return ([b], index + 1)
  else if b.toNat < 0xb7 then
    let len := b.toNat - 0x80
    if len = 0 then
      return ([], index + 1)
    else
      let data ← liftExn (substr bs (index + 1) len)
      return (data, index + 1 + len)
  else
    match tooLarge with
    | some what => if 0xc0 ≤ b.toNat then raise what
    | none => pure ()
    let lenSize := b.toNat - 0xb7
    let len ← liftExn (fromBigEndian64 (← viewAt bs (index + 1) lenSize))
    let data ← liftExn (substr bs (index + 1 + lenSize) len.toNat)
    return (data, (index + 1 + lenSize + len.toNat) % 2 ^ 64)

/-- The list header and its size check; returns the index of the first field. -/
def readListHeader (bs : Bytes) : Except Fail Nat := do
  let b ← byteAt bs 0
  if b.toNat < 0xf7 then raise "Tx is not a list"
  let lenSize := b.toNat - 0xf7
  let len ← liftExn (fromBigEndian64 (← viewAt bs 1 lenSize))
  if len.toNat < bs.length - lenSize - 1 then
    raise "Tx RLP returns smaller size than reported"
  else if bs.length - lenSize - 1 < len.toNat then
    raise "Tx RLP returns larger size than reported"
  return 1 + lenSize

/-! ### The parsers -/

/-- `TxBlock::TxBlock(bytes, requiredChainId)`; the required chain id is never read. -/
def TxBlock.parse (C : Crypto) (bytes : Bytes) (_requiredChainId : UInt64) :
    Except Fail TxBlock := do
  let txData ← liftExn (substrFrom bytes 1)
  if (← byteAt bytes 0) ≠ 0x02 then raise "Tx is not type 2"
  let index ← readListHeader txData
  let (chainId, index) ← readUint fromBigEndian64 (some "ChainId is too large") txData index
  let (nonce, index) ← readUint fromBigEndian64 (some "Nonce is too large") txData index
  let (maxPriorityFeePerGas, index) ←
    readUint fromBigEndian256 (some "MaxPriorityFeePerGas is too large") txData index
  let (maxFeePerGas, index) ←
    readUint fromBigEndian256 (some "MaxFeePerGas is too large") txData index
  let (gasLimit, index) ← readUint fromBigEndian64 (some "GasLimit is too large") txData index
  if (← byteAt txData index) ≠ 0x94 then
    raise "Receiver address (to) is not a 20 byte string (address)"
  let receiver : Address := FixedStr.ofBytes (← viewAt txData (index + 1) 20)
  let (value, index) ←
    readUint fromBigEndian256 (some "Value is not a small string") txData (index + 21)
  let (data, index) ← readData (some "Data is too large") txData index
  if (← byteAt txData index) ≠ 0xc0 then raise "Access list is not empty"
  let vByte ← byteAt txData (index + 1)
  let v := if vByte = 0x80 then 0 else vByte
  if 1 < v then raise "V is not 0 or 1"
  let (r, index) ← readSigHalf 0x20 "R is bigger than 32 bytes" txData (index + 2)
  let (s, _) ← readSigHalf 0x20 "S is bigger than 32 bytes" txData index
  if !Secp256k1.verifySig r s v then
    raise "Invalid tx signature - doesn't fit elliptic curve verification"
  -- The nonce and the gas limit are read as 64-bit numbers and widened.
  let tx : TxBlock :=
    { receiver, sender := FixedStr.zero, data, chainId,
      nonce := ⟨nonce.toNat, by have := nonce.toNat_lt; omega⟩, value, maxPriorityFeePerGas, maxFeePerGas,
      gasLimit := ⟨gasLimit.toNat, by have := gasLimit.toNat_lt; omega⟩, v, r, s }
  let key := Secp256k1.recover C (Secp256k1.makeSig r s v) (tx.hash C false)
  if !key.toBool then raise "Invalid tx signature - cannot recover public key"
  return { tx with sender := Secp256k1.toAddress C key }

/-- `TxValidator::TxValidator(bytes, requiredChainId)`; the required chain id is never read.
    With `v` 27 or 28 the chain id stays uninitialised, but `v - (chainId * 2 + 35)` is
    negative whatever it holds. -/
def TxValidator.parse (C : Crypto) (bytes : Bytes) (_requiredChainId : UInt64) :
    Except Fail TxValidator := do
  let index ← readListHeader bytes
  let (data, index) ← readData none bytes index
  let (nHeight, index) ← readUint fromBigEndian64 none bytes index
  let (v, index) ← readUint fromBigEndian256 (some "V is not a small string") bytes index
  let (r, index) ← readSigHalf 0x37 "R is not a small string" bytes index
  let (s, _) ← readSigHalf 0x37 "S is not a small string" bytes index
  if v.val ≤ 36 then
    if v.val ≠ 27 ∧ v.val ≠ 28 then
      raise ("Invalid tx signature - v is not 27 or 28, v is " ++ toString v.val)
    else throw (.exn .rangeError)
  if 2 ^ 64 ≤ (v.val - 35) / 2 then throw (.exn .rangeError)
  let chainId := UInt64.ofNat ((v.val - 35) / 2)
  let recoveryId := UInt8.ofNat (v.val - (chainId.toNat * 2 + 35))
  if !Secp256k1.verifySig r s recoveryId then
    raise "Invalid tx signature - doesn't fit elliptic curve verification"
  let tx : TxValidator := { sender := FixedStr.zero, data, chainId, nHeight, v, r, s }
  let key := Secp256k1.recover C (Secp256k1.makeSig r s recoveryId) (tx.hash C false)
  if key = FixedStr.zero then raise "Invalid tx signature - cannot recover public key"
  return { tx with sender := Secp256k1.toAddress C key }

end OrbiterSdk

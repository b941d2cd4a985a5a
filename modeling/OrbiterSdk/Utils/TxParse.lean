import OrbiterSdk.Utils.TxFormat

namespace OrbiterSdk

open Cursor

/-!
# The transaction parsers in parts

Both parsers read fields, check the signature and recover the sender.

* `TxBlock.parse_eq`, `TxValidator.parse_eq` — the parsers as the composition of these parts
  (`readHead`, `readTail`, `readFields` and `recoverSender`);
* `TxBlock.readFields_rlpSerialize` — what is read from an encoding: all fields, the nonce and
  the gas limit modulo `2 ^ 64`;
* `TxValidator.readFields_rlpSerialize` — the same for validator transactions.
-/

theorem guard_bind {α β : Type} {p : Prop} [Decidable p] {what : String}
    {k : Unit → Except Fail α} {g : α → Except Fail β} :
    ((if p then raise what >>= k else k ()) >>= g) =
      if p then raise what >>= fun u => k u >>= g else k () >>= g := by
  split
  · rfl
  · rfl

namespace TxBlock

/-- The fields in front of the data. -/
structure Head where
  chainId : UInt64
  nonce : UInt64
  maxPriorityFeePerGas : Uint256
  maxFeePerGas : Uint256
  gasLimit : UInt64
  receiver : Address
  value : Uint256

/-- The data and the signature. -/
structure Tail where
  data : Bytes
  v : UInt8
  r : Uint256
  s : Uint256

/-- The list header and the fields in front of the data. -/
def readHead (txData : Bytes) : Except Fail (Head × Nat) := do
  let index ← readListHeader txData
  let (chainId, index) ← readUint fromBigEndian64 (some "ChainId is too large") txData index
  let (nonce, index) ← readUint fromBigEndian64 (some "Nonce is too large") txData index
  let (maxPriorityFeePerGas, index) ←
    readUint fromBigEndian256 (some "MaxPriorityFeePerGas is too large") txData index
  let (maxFeePerGas, index) ←
    readUint fromBigEndian256 (some "MaxFeePerGas is too large") txData index
  let (gasLimit, index) ← readUint fromBigEndian64 (some "GasLimit is too large") txData index
  if (← byteAt txData index) ≠ 0x94 then
    raise "Receiver address (to) is not a 20 byte string (address)"
  let receiver : Address := FixedStr.ofBytes (← viewAt txData (index + 1) 20)
  let (value, index) ←
    readUint fromBigEndian256 (some "Value is not a small string") txData (index + 21)
  return (⟨chainId, nonce, maxPriorityFeePerGas, maxFeePerGas, gasLimit, receiver, value⟩, index)

/-- The data, the access list and the signature. -/
def readTail (txData : Bytes) (index : Nat) : Except Fail Tail := do
  let (data, index) ← readData (some "Data is too large") txData index
  if (← byteAt txData index) ≠ 0xc0 then raise "Access list is not empty"
  let vByte ← byteAt txData (index + 1)
  let v := if vByte = 0x80 then 0 else vByte
  if 1 < v then raise "V is not 0 or 1"
  let (r, index) ← readSigHalf 0x20 "R is bigger than 32 bytes" txData (index + 2)
  let (s, _) ← readSigHalf 0x20 "S is bigger than 32 bytes" txData index
  return ⟨data, v, r, s⟩

/-- The transaction without its sender. -/
def ofParts (head : Head) (tail : Tail) : TxBlock :=
  { receiver := head.receiver, sender := FixedStr.zero, data := tail.data, chainId := head.chainId
    nonce := ⟨head.nonce.toNat, by have := head.nonce.toNat_lt; omega⟩, value := head.value
    maxPriorityFeePerGas := head.maxPriorityFeePerGas, maxFeePerGas := head.maxFeePerGas
    gasLimit := ⟨head.gasLimit.toNat, by have := head.gasLimit.toNat_lt; omega⟩
    v := tail.v, r := tail.r, s := tail.s }

/-- All fields. -/
def readFields (bytes : Bytes) : Except Fail TxBlock := do
  let txData ← liftExn (substrFrom bytes 1)
  if (← byteAt bytes 0) ≠ 0x02 then raise "Tx is not type 2"
  let (head, index) ← readHead txData
  let tail ← readTail txData index
  return ofParts head tail

/-- The key recovered from the signature. -/
def senderKey (C : Crypto) (tx : TxBlock) : UPubKey :=
  Secp256k1.recover C (Secp256k1.makeSig tx.r tx.s tx.v) (tx.hash C false)

/-- Check the signature and recover the sender. -/
def recoverSender (C : Crypto) (tx : TxBlock) : Except Fail TxBlock := do
  if !Secp256k1.verifySig tx.r tx.s tx.v then
    raise "Invalid tx signature - doesn't fit elliptic curve verification"
  if !(tx.senderKey C).toBool then raise "Invalid tx signature - cannot recover public key"
  return { tx with sender := Secp256k1.toAddress C (tx.senderKey C) }

theorem parse_eq (C : Crypto) (bytes : Bytes) (id : UInt64) :
    parse C bytes id = readFields bytes >>= recoverSender C := by
  unfold parse readFields readHead readTail recoverSender
  simp only [bind_assoc, guard_bind, pure_bind]
  rfl

/-! ### Reading an encoding -/

/-- What stands in front of the data. -/
def rlpHead (tx : TxBlock) : Bytes :=
  rlpUint tx.chainId.toNat ++ (rlpUint tx.nonce ++ (rlpUint tx.maxPriorityFeePerGas ++
    (rlpUint tx.maxFeePerGas ++ (rlpUint tx.gasLimit ++ ((0x94 :: tx.receiver.data) ++
      rlpUint tx.value)))))

/-- The signature. -/
def rlpSig (tx : TxBlock) : Bytes :=
  (if tx.v = 0 then 0x80 else tx.v) :: (rlpSigHalf tx.r ++ rlpSigHalf tx.s)

theorem rlpPayload_true (tx : TxBlock) :
    tx.rlpPayload true = tx.rlpHead ++ (rlpData tx.data ++ (0xc0 :: tx.rlpSig)) := by
  simp only [rlpPayload, rlpHead, rlpSig, if_true, List.append_assoc, List.cons_append,
    List.nil_append]

/-- The fields in front of the data, the nonce and the gas limit cut to 64 bits. -/
def head (tx : TxBlock) : Head :=
  ⟨tx.chainId, UInt64.ofNat tx.nonce, tx.maxPriorityFeePerGas, tx.maxFeePerGas,
    UInt64.ofNat tx.gasLimit, tx.receiver, tx.value⟩

variable {bs : Bytes} {i : Nat} {tx : TxBlock}

theorem readHead_of_at (hheader : readListHeader bs = .ok i) (h : At bs i tx.rlpHead) :
    readHead bs = .ok (tx.head, i + tx.rlpHead.length) := by
  obtain ⟨hchain, h⟩ := at_append.mp h
  obtain ⟨hnonce, h⟩ := at_append.mp h
  obtain ⟨hprio, h⟩ := at_append.mp h
  obtain ⟨hfee, h⟩ := at_append.mp h
  obtain ⟨hgas, h⟩ := at_append.mp h
  obtain ⟨hreceiver, hvalue⟩ := at_append.mp h
  have hview := viewAt_of_at hreceiver
  rw [tx.receiver.size_eq] at hview
  have hlen : (0x94 :: tx.receiver.data).length = 21 := congrArg (· + 1) tx.receiver.size_eq
  rw [hlen] at hvalue
  unfold readHead
  refine Except.bind_eq_ok.mpr ⟨_, hheader, Except.bind_eq_ok.mpr
    ⟨_, reads_rlpUint_toNat _ _ _ hchain, Except.bind_eq_ok.mpr
    ⟨_, reads_rlpUint64 _ _ _ hnonce, Except.bind_eq_ok.mpr
    ⟨_, reads_rlpUint256 _ _ _ hprio, Except.bind_eq_ok.mpr
    ⟨_, reads_rlpUint256 _ _ _ hfee, Except.bind_eq_ok.mpr
    ⟨_, reads_rlpUint64 _ _ _ hgas, Except.bind_eq_ok.mpr
    ⟨_, byteAt_of_at (at_cons.mp hreceiver).1, guard_eq_ok.mpr
    ⟨not_not.mpr rfl, Except.bind_eq_ok.mpr
    ⟨_, hview, Except.bind_eq_ok.mpr
    ⟨_, reads_rlpUint256 _ _ _ hvalue, ?_⟩⟩⟩⟩⟩⟩⟩⟩⟩⟩
  refine congrArg Except.ok (Prod.ext ?_ ?_)
  · show Head.mk _ _ _ _ _ (FixedStr.ofBytes tx.receiver.data) _ = tx.head
    rw [FixedStr.ofBytes_data]
    rfl
  · show _ = i + tx.rlpHead.length
    simp only [rlpHead, List.length_append, hlen]
    omega

theorem readTail_of_at (h : At bs i (rlpData tx.data ++ (0xc0 :: tx.rlpSig)))
    (h55 : tx.data.length ≠ 55) (hlen : bs.length < 2 ^ 64) (hv : tx.v ≤ 1) :
    readTail bs i = .ok ⟨tx.data, tx.v, tx.r, tx.s⟩ := by
  obtain ⟨hdata, h⟩ := at_append.mp h
  obtain ⟨haccess, h⟩ := at_cons.mp h
  obtain ⟨hvByte, h⟩ := at_cons.mp h
  obtain ⟨hr, hs⟩ := at_append.mp h
  -- The byte `0x80` stands for zero, and no transaction has it as its `v`.
  have hread : (if (if tx.v = 0 then 0x80 else tx.v) = 0x80 then 0
      else (if tx.v = 0 then 0x80 else tx.v)) = tx.v := by
    by_cases h0 : tx.v = 0
    · rw [if_pos h0, if_pos rfl, h0]
    · rw [if_neg h0, if_neg]
      rintro heq
      rw [heq] at hv
      exact absurd hv (by decide)
  unfold readTail
  refine Except.bind_eq_ok.mpr ⟨_, readData_rlpData hdata h55 hlen, Except.bind_eq_ok.mpr
    ⟨_, byteAt_of_at haccess, guard_eq_ok.mpr ⟨not_not.mpr rfl, Except.bind_eq_ok.mpr
    ⟨_, byteAt_of_at hvByte, ?_⟩⟩⟩⟩
  dsimp only
  rw [hread]
  exact guard_eq_ok.mpr ⟨UInt8.not_lt.mpr hv, Except.bind_eq_ok.mpr
    ⟨_, reads_rlpSigHalf le_rfl _ _ _ hr, Except.bind_eq_ok.mpr
    ⟨_, reads_rlpSigHalf le_rfl _ _ _ hs, rfl⟩⟩⟩

/-- Data of 55 bytes is not read: the parser looks for the access list at its first byte. -/
theorem readTail_of_short_string (h : At bs i (rlpData tx.data)) (h55 : tx.data.length = 55)
    (hlen : bs.length < 2 ^ 64) {tail : Tail} (htail : readTail bs i = .ok tail) :
    tail.data = [] ∧ tx.data.head? = some 0xc0 := by
  have hdata : rlpData tx.data = 0xb7 :: tx.data := by
    rw [rlpData, if_neg (by omega), if_pos (by omega), h55]
    rfl
  rw [hdata] at h
  obtain ⟨hbyte, hrest⟩ := at_cons.mp h
  obtain ⟨x, hx, htail⟩ := Except.bind_eq_ok.mp htail
  rw [readData_short_string hbyte hlen] at hx
  cases hx
  obtain ⟨access, haccess, htail⟩ := Except.bind_eq_ok.mp htail
  obtain ⟨hc0, htail⟩ := guard_eq_ok.mp htail
  obtain ⟨vByte, -, htail⟩ := Except.bind_eq_ok.mp htail
  obtain ⟨-, htail⟩ := guard_eq_ok.mp htail
  obtain ⟨r, -, htail⟩ := Except.bind_eq_ok.mp htail
  obtain ⟨s, -, htail⟩ := Except.bind_eq_ok.mp htail
  cases htail
  refine ⟨rfl, ?_⟩
  obtain ⟨first, rest, hfirst⟩ := List.exists_cons_of_length_pos (show 0 < tx.data.length by omega)
  rw [hfirst] at hrest ⊢
  cases (byteAt_of_at (at_cons.mp hrest).1).symm.trans haccess
  rw [List.head?_cons, not_not.mp hc0]

/-- The transaction a parser gives back for an encoding, up to the sender. -/
def cut (tx : TxBlock) : TxBlock := ofParts tx.head ⟨tx.data, tx.v, tx.r, tx.s⟩

theorem rlpSerialize_eq (tx : TxBlock) (includeSig : Bool) :
    tx.rlpSerialize includeSig = 0x02 :: rlpList (tx.rlpPayload includeSig) := by
  rw [rlpList, length_rlpPayload, rlpSerialize]

theorem rlpPayload_ne_nil (tx : TxBlock) (includeSig : Bool) : tx.rlpPayload includeSig ≠ [] := by
  intro h
  have hlen := congrArg List.length h
  rw [length_rlpPayload, rlpSize, List.length_nil] at hlen
  omega

theorem readFields_cons {txData : Bytes} :
    readFields (0x02 :: txData) =
      readHead txData >>= fun p => (readTail txData p.2).map (ofParts p.1) := by
  rfl

theorem at_rlpPayload (tx : TxBlock) : At (rlpList (tx.rlpPayload true))
    (rlpListHeader (tx.rlpPayload true).length).length
    (tx.rlpHead ++ (rlpData tx.data ++ (0xc0 :: tx.rlpSig))) := by
  have h := at_rlpList (tx.rlpPayload true)
  rwa [rlpPayload_true] at h ⊢

theorem readHead_rlpPayload (hlong : 55 < tx.rlpSize true) (hlen : tx.rlpSize true < 2 ^ 63) :
    readHead (rlpList (tx.rlpPayload true)) = .ok (tx.head,
      (rlpListHeader (tx.rlpPayload true).length).length + tx.rlpHead.length) := by
  rw [← length_rlpPayload] at hlong hlen
  exact readHead_of_at (readListHeader_of_lt hlong hlen) (at_append.mp tx.at_rlpPayload).1

theorem length_lt_of_rlpSize (hlen : tx.rlpSize true < 2 ^ 63) :
    (rlpList (tx.rlpPayload true)).length < 2 ^ 64 := by
  rw [← length_rlpPayload] at hlen
  exact length_rlpList_lt hlen

/-- **An encoding is read back**, unless the data has 55 bytes or the list has at most 55. -/
theorem readFields_rlpSerialize (h55 : tx.data.length ≠ 55) (hlong : 55 < tx.rlpSize true)
    (hlen : tx.rlpSize true < 2 ^ 63) (hv : tx.v ≤ 1) :
    readFields (tx.rlpSerialize true) = .ok tx.cut := by
  have htail := readTail_of_at (at_append.mp tx.at_rlpPayload).2 h55 (length_lt_of_rlpSize hlen) hv
  rw [rlpSerialize_eq, readFields_cons]
  refine Except.bind_eq_ok.mpr ⟨_, readHead_rlpPayload hlong hlen, ?_⟩
  exact Except.map_eq_ok.mpr ⟨_, htail, rfl⟩

theorem readFields_of_short (hshort : tx.rlpSize true ≤ 55) :
    ∃ e, readFields (tx.rlpSerialize true) = .error e := by
  rw [← length_rlpPayload] at hshort
  obtain ⟨e, he⟩ := readListHeader_of_le hshort (rlpPayload_ne_nil tx true)
  refine ⟨e, ?_⟩
  rw [rlpSerialize_eq, readFields_cons, readHead, he]
  rfl

theorem readFields_of_short_string (h55 : tx.data.length = 55) (hlen : tx.rlpSize true < 2 ^ 63)
    {tx' : TxBlock} (h : readFields (tx.rlpSerialize true) = .ok tx') :
    tx'.data = [] ∧ tx.data.head? = some 0xc0 := by
  have hlong : 55 < tx.rlpSize true := by
    rw [rlpSize, rlpDataSize, if_neg (by omega), if_pos (by omega)]
    omega
  rw [rlpSerialize_eq, readFields_cons] at h
  obtain ⟨p, hp, h⟩ := Except.bind_eq_ok.mp h
  rw [readHead_rlpPayload hlong hlen] at hp
  cases hp
  obtain ⟨tail, htail, rfl⟩ := Except.map_eq_ok.mp h
  exact readTail_of_short_string (at_append.mp (at_append.mp tx.at_rlpPayload).2).1 h55
    (length_lt_of_rlpSize hlen) htail

theorem readTail_bounds {tail : Tail} (h : readTail bs i = .ok tail) :
    tail.v ≤ 1 ∧ tail.data.length ≤ bs.length := by
  obtain ⟨⟨data, index⟩, hdata, h⟩ := Except.bind_eq_ok.mp h
  obtain ⟨_, -, h⟩ := Except.bind_eq_ok.mp h
  obtain ⟨-, h⟩ := guard_eq_ok.mp h
  obtain ⟨_, -, h⟩ := Except.bind_eq_ok.mp h
  obtain ⟨hv, h⟩ := guard_eq_ok.mp h
  obtain ⟨_, -, h⟩ := Except.bind_eq_ok.mp h
  obtain ⟨_, -, h⟩ := Except.bind_eq_ok.mp h
  cases h
  exact ⟨UInt8.not_lt.mp hv, length_readData_le hdata⟩

/-- What is read fits: 64 bits for the nonce and the gas limit, zero or one for `v`. -/
theorem readFields_bounds {bytes : Bytes} (h : readFields bytes = .ok tx) :
    tx.nonce.val < 2 ^ 64 ∧ tx.gasLimit.val < 2 ^ 64 ∧ tx.v ≤ 1 ∧
      tx.data.length ≤ bytes.length ∧ tx.sender = FixedStr.zero := by
  obtain ⟨txData, hdata, h⟩ := Except.bind_eq_ok.mp h
  obtain ⟨_, -, h⟩ := Except.bind_eq_ok.mp h
  obtain ⟨-, h⟩ := guard_eq_ok.mp h
  obtain ⟨⟨head, index⟩, -, h⟩ := Except.bind_eq_ok.mp h
  obtain ⟨tail, htail, h⟩ := Except.bind_eq_ok.mp h
  cases h
  obtain ⟨hv, hlen⟩ := readTail_bounds htail
  refine ⟨head.nonce.toNat_lt, head.gasLimit.toNat_lt, hv, hlen.trans ?_, rfl⟩
  have hsub := liftExn_eq_ok.mp hdata
  unfold substrFrom at hsub
  split at hsub
  · cases hsub
  · cases hsub
    rw [List.length_drop]
    omega

/-- Cutting changes nothing but the sender when the nonce and the gas limit fit. -/
theorem cut_of_lt (hnonce : tx.nonce.val < 2 ^ 64) (hgas : tx.gasLimit.val < 2 ^ 64) :
    tx.cut = { tx with sender := FixedStr.zero } := by
  have hn : (UInt64.ofNat tx.nonce.val).toNat = tx.nonce.val := by
    rw [UInt64.toNat_ofNat']
    exact Nat.mod_eq_of_lt hnonce
  have hg : (UInt64.ofNat tx.gasLimit.val).toNat = tx.gasLimit.val := by
    rw [UInt64.toNat_ofNat']
    exact Nat.mod_eq_of_lt hgas
  unfold cut ofParts head
  congr 1
  · exact Fin.ext hn
  · exact Fin.ext hg

/-! ### The sender -/

theorem recoverSender_eq_ok {C : Crypto} {tx' : TxBlock} :
    recoverSender C tx = .ok tx' ↔ Secp256k1.verifySig tx.r tx.s tx.v = true ∧
      (tx.senderKey C).toBool = true ∧
      tx' = { tx with sender := Secp256k1.toAddress C (tx.senderKey C) } := by
  unfold recoverSender
  rw [guard_eq_ok, guard_eq_ok, Bool.not_eq_true', Bool.not_eq_false, Bool.not_eq_true',
    Bool.not_eq_false]
  exact and_congr_right fun _ => and_congr_right fun _ =>
    ⟨fun h => (Except.ok.inj h).symm, fun h => congrArg Except.ok h.symm⟩

end TxBlock

/-! ### Validator transactions -/

namespace TxValidator

/-- The fields of a validator transaction as they stand in its encoding. -/
structure Fields where
  data : Bytes
  nHeight : UInt64
  v : Uint256
  r : Uint256
  s : Uint256

/-- All fields. -/
def readFields (bytes : Bytes) : Except Fail Fields := do
  let index ← readListHeader bytes
  let (data, index) ← readData none bytes index
  let (nHeight, index) ← readUint fromBigEndian64 none bytes index
  let (v, index) ← readUint fromBigEndian256 (some "V is not a small string") bytes index
  let (r, index) ← readSigHalf 0x37 "R is not a small string" bytes index
  let (s, _) ← readSigHalf 0x37 "S is not a small string" bytes index
  return ⟨data, nHeight, v, r, s⟩

/-- The transaction without its sender: the chain id comes from `v`. -/
def ofFields (f : Fields) : TxValidator :=
  { sender := FixedStr.zero, data := f.data, chainId := UInt64.ofNat ((f.v.val - 35) / 2)
    nHeight := f.nHeight, v := f.v, r := f.r, s := f.s }

/-- The recovery id in `v`. -/
def recoveryId (tx : TxValidator) : UInt8 := UInt8.ofNat (tx.v.val - (tx.chainId.toNat * 2 + 35))

/-- The key recovered from the signature. -/
def senderKey (C : Crypto) (tx : TxValidator) : UPubKey :=
  Secp256k1.recover C (Secp256k1.makeSig tx.r tx.s tx.recoveryId) (tx.hash C false)

/-- Check `v` and the signature and recover the sender. -/
def recoverSender (C : Crypto) (f : Fields) : Except Fail TxValidator := do
  if f.v.val ≤ 36 then
    if f.v.val ≠ 27 ∧ f.v.val ≠ 28 then
      raise ("Invalid tx signature - v is not 27 or 28, v is " ++ toString f.v.val)
    else throw (.exn .rangeError)
  if 2 ^ 64 ≤ (f.v.val - 35) / 2 then throw (.exn .rangeError)
  if !Secp256k1.verifySig f.r f.s (ofFields f).recoveryId then
    raise "Invalid tx signature - doesn't fit elliptic curve verification"
  if (ofFields f).senderKey C = FixedStr.zero then
    raise "Invalid tx signature - cannot recover public key"
  return { ofFields f with sender := Secp256k1.toAddress C ((ofFields f).senderKey C) }

theorem parse_eq (C : Crypto) (bytes : Bytes) (id : UInt64) :
    parse C bytes id = readFields bytes >>= recoverSender C := by
  unfold parse readFields
  simp only [bind_assoc, pure_bind]
  rfl

theorem recoverSender_eq_ok {C : Crypto} {f : Fields} {tx : TxValidator} :
    recoverSender C f = .ok tx ↔ 36 < f.v.val ∧ (f.v.val - 35) / 2 < 2 ^ 64 ∧
      Secp256k1.verifySig f.r f.s (ofFields f).recoveryId = true ∧
      (ofFields f).senderKey C ≠ FixedStr.zero ∧
      tx = { ofFields f with sender := Secp256k1.toAddress C ((ofFields f).senderKey C) } := by
  unfold recoverSender
  by_cases hlow : f.v.val ≤ 36
  · rw [if_pos hlow]
    constructor
    · intro h
      split at h
      · cases h
      · cases h
    · intro h
      omega
  · rw [if_neg hlow]
    by_cases hhigh : 2 ^ 64 ≤ (f.v.val - 35) / 2
    · rw [if_pos hhigh]
      constructor
      · intro h
        cases h
      · intro h
        omega
    · rw [if_neg hhigh]
      show ((if _ then _ else _) = _ ↔ _)
      rw [guard_eq_ok, guard_eq_ok, Bool.not_eq_true', Bool.not_eq_false]
      refine ⟨fun h => ⟨by omega, by omega, h.1, h.2.1, ?_⟩, fun h => ⟨h.2.2.1, h.2.2.2.1, ?_⟩⟩
      · exact (Except.ok.inj h.2.2).symm
      · exact congrArg Except.ok h.2.2.2.2.symm

/-! ### Reading an encoding -/

/-- What stands behind the data. -/
def rlpRest (tx : TxValidator) : Bytes :=
  rlpUint tx.nHeight.toNat ++ (rlpV tx.v ++ (rlpSigHalf tx.r ++ rlpSigHalf tx.s))

theorem rlpPayload_true (tx : TxValidator) : tx.rlpPayload true = rlpData tx.data ++ tx.rlpRest := by
  simp only [rlpPayload, rlpRest, vOrChainId, if_true, List.append_assoc]

theorem rlpSerialize_eq (tx : TxValidator) (includeSig : Bool) :
    tx.rlpSerialize includeSig = rlpList (tx.rlpPayload includeSig) := by
  rw [rlpList, length_rlpPayload, rlpSerialize]

theorem rlpPayload_ne_nil (tx : TxValidator) (includeSig : Bool) :
    tx.rlpPayload includeSig ≠ [] := by
  intro h
  have hlen := congrArg List.length h
  rw [rlpPayload] at hlen
  simp only [List.length_append, List.length_nil, length_rlpUint, rlpUintSize] at hlen
  split at hlen <;> omega

variable {bs : Bytes} {i : Nat} {tx : TxValidator}

theorem readRest_of_at (h : At bs i tx.rlpRest) :
    (do
      let (nHeight, index) ← readUint fromBigEndian64 none bs i
      let (v, index) ← readUint fromBigEndian256 (some "V is not a small string") bs index
      let (r, index) ← readSigHalf 0x37 "R is not a small string" bs index
      let (s, _) ← readSigHalf 0x37 "S is not a small string" bs index
      return (⟨tx.data, nHeight, v, r, s⟩ : Fields)) =
        (.ok ⟨tx.data, tx.nHeight, tx.v, tx.r, tx.s⟩ : Except Fail Fields) := by
  obtain ⟨hheight, h⟩ := at_append.mp h
  obtain ⟨hv, h⟩ := at_append.mp h
  obtain ⟨hr, hs⟩ := at_append.mp h
  have hreadV : Reads (readUint fromBigEndian256 (some "V is not a small string")) (rlpV tx.v)
      tx.v := by
    refine reads_rlpV (fromBigEndian256_uintToBytes tx.v) (fun h0 => ?_)
      ((bytesRequired_le tx.v).trans (by decide))
    rw [show tx.v = 0 from Fin.ext h0]
    rfl
  exact Except.bind_eq_ok.mpr ⟨_, reads_rlpUint_toNat _ _ _ hheight, Except.bind_eq_ok.mpr
    ⟨_, hreadV _ _ hv, Except.bind_eq_ok.mpr
    ⟨_, reads_rlpSigHalf (by decide) _ _ _ hr, Except.bind_eq_ok.mpr
    ⟨_, reads_rlpSigHalf (by decide) _ _ _ hs, rfl⟩⟩⟩⟩

theorem at_rlpPayload (tx : TxValidator) : At (rlpList (tx.rlpPayload true))
    (rlpListHeader (tx.rlpPayload true).length).length (rlpData tx.data ++ tx.rlpRest) := by
  have h := at_rlpList (tx.rlpPayload true)
  rwa [rlpPayload_true] at h ⊢

/-- **An encoding is read back**, unless the data has 55 bytes or the list has at most 55. -/
theorem readFields_rlpSerialize (h55 : tx.data.length ≠ 55) (hlong : 55 < tx.rlpSize true)
    (hlen : tx.rlpSize true < 2 ^ 63) :
    readFields (tx.rlpSerialize true) = .ok ⟨tx.data, tx.nHeight, tx.v, tx.r, tx.s⟩ := by
  obtain ⟨hdata, hrest⟩ := at_append.mp tx.at_rlpPayload
  rw [← length_rlpPayload] at hlong hlen
  rw [rlpSerialize_eq]
  refine Except.bind_eq_ok.mpr ⟨_, readListHeader_of_lt hlong hlen, Except.bind_eq_ok.mpr
    ⟨_, readData_rlpData hdata h55 (length_rlpList_lt hlen), ?_⟩⟩
  exact readRest_of_at hrest

theorem readFields_of_short (hshort : tx.rlpSize true ≤ 55) :
    ∃ e, readFields (tx.rlpSerialize true) = .error e := by
  rw [← length_rlpPayload] at hshort
  obtain ⟨e, he⟩ := readListHeader_of_le hshort (rlpPayload_ne_nil tx true)
  refine ⟨e, ?_⟩
  rw [rlpSerialize_eq, readFields, he]
  rfl

theorem readFields_of_short_string (h55 : tx.data.length = 55) (hlen : tx.rlpSize true < 2 ^ 63)
    {f : Fields} (h : readFields (tx.rlpSerialize true) = .ok f) : f.data = [] := by
  have hlong : 55 < tx.rlpSize true := by
    rw [rlpSize, rlpDataSize, if_neg (by omega), if_pos (by omega), rlpUintSize]
    split <;> omega
  obtain ⟨hdata, -⟩ := at_append.mp tx.at_rlpPayload
  rw [← length_rlpPayload] at hlong hlen
  have hbyte : rlpData tx.data = 0xb7 :: tx.data := by
    rw [rlpData, if_neg (by omega), if_pos (by omega), h55]
    rfl
  rw [hbyte] at hdata
  rw [rlpSerialize_eq] at h
  obtain ⟨index, hindex, h⟩ := Except.bind_eq_ok.mp h
  rw [readListHeader_of_lt hlong hlen] at hindex
  cases hindex
  obtain ⟨x, hx, h⟩ := Except.bind_eq_ok.mp h
  rw [readData_short_string (at_cons.mp hdata).1 (length_rlpList_lt hlen)] at hx
  cases hx
  obtain ⟨_, -, h⟩ := Except.bind_eq_ok.mp h
  obtain ⟨_, -, h⟩ := Except.bind_eq_ok.mp h
  obtain ⟨_, -, h⟩ := Except.bind_eq_ok.mp h
  obtain ⟨_, -, h⟩ := Except.bind_eq_ok.mp h
  cases h
  rfl

end TxValidator

end OrbiterSdk

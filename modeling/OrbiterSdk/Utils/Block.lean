import OrbiterSdk.Utils.Merkle

namespace OrbiterSdk

/-!
# Blocks

`utils/block.h` and the two static functions of `core/rdpos.h` it uses:

* `getTxValidatorFunction`, `parseTxSeedList` — the function a validator transaction calls
  and the randomness its seeds give;
* `Block.serializeHeader` / `Block.hash` — the identity of a block;
* `Block.parse` — the constructor from bytes, with the sequential and the threaded way of
  reading the transactions, the root, randomness and signature checks;
* `Block.finalize` — what a block producer does.
-/

/-! ### Validator functions -/

/-- `rdPoS::TxValidatorFunction`. -/
inductive TxValidatorFunction where
  | INVALID
  | RANDOMHASH
  | RANDOMSEED
deriving DecidableEq

/-- The functor of a randomHash transaction. -/
def randomHashHash : Bytes := [0xcf, 0xff, 0xe7, 0x46]

/-- The functor of a random transaction. -/
def randomSeedHash : Bytes := [0x6f, 0xc5, 0xa2, 0xd6]

/-- `rdPoS::getTxValidatorFunction`. -/
def getTxValidatorFunction (tx : TxValidator) : TxValidatorFunction :=
  if tx.data.length ≠ 36 then .INVALID
  else if tx.data.take 4 = randomHashHash then .RANDOMHASH
  else if tx.data.take 4 = randomSeedHash then .RANDOMSEED
  else .INVALID

theorem take_of_getTxValidatorFunction {tx : TxValidator} :
    (getTxValidatorFunction tx = .RANDOMHASH → tx.data.take 4 = randomHashHash) ∧
      (getTxValidatorFunction tx = .RANDOMSEED → tx.data.take 4 = randomSeedHash) := by
  unfold getTxValidatorFunction
  split
  · simp
  · split
    · rename_i h; simp [h]
    · split
      · rename_i h; simp [h]
      · simp

/-- `rdPoS::parseTxSeedList`. -/
def parseTxSeedList (C : Crypto) (txs : List TxValidator) : Hash :=
  if txs.length = 0 then FixedStr.zero
  else C.sha3 (txs.flatMap fun tx =>
    if getTxValidatorFunction tx = .RANDOMSEED then (tx.data.drop 4).take 32 else [])

/-! ### The block -/

/-- `class Block`. -/
structure Block where
  validatorSig : Signature
  prevBlockHash : Hash
  blockRandomness : Hash
  validatorMerkleRoot : Hash
  txMerkleRoot : Hash
  timestamp : UInt64
  nHeight : UInt64
  txValidators : List TxValidator
  txs : List TxBlock
  validatorPubKey : UPubKey
  finalized : Bool
deriving DecidableEq

namespace Block

/-- `Block::Block(prevBlockHash, timestamp, nHeight)`. -/
def new (prevBlockHash : Hash) (timestamp nHeight : UInt64) : Block :=
  { validatorSig := FixedStr.zero, prevBlockHash, blockRandomness := FixedStr.zero
    validatorMerkleRoot := FixedStr.zero, txMerkleRoot := FixedStr.zero, timestamp, nHeight
    txValidators := [], txs := [], validatorPubKey := FixedStr.zero, finalized := false }

/-- `Block::serializeHeader`. -/
def serializeHeader (b : Block) : Bytes :=
  b.prevBlockHash.data ++ b.blockRandomness.data ++ b.validatorMerkleRoot.data ++
    b.txMerkleRoot.data ++ BigEndian.fixed 8 b.timestamp.toNat ++ BigEndian.fixed 8 b.nHeight.toNat

/-- `Block::hash`. -/
def hash (C : Crypto) (b : Block) : Hash := C.sha3 b.serializeHeader

/-- `Merkle(txs).getRoot()`. -/
def txRoot (C : Crypto) (txs : List TxBlock) : Hash :=
  (Merkle.ofHashes C (txs.map fun tx => tx.hash C true)).getRoot

/-- `Merkle(txValidators).getRoot()`. -/
def validatorRoot (C : Crypto) (txs : List TxValidator) : Hash :=
  (Merkle.ofHashes C (txs.map fun tx => tx.hash C true)).getRoot

/-- `Block::appendTx`. -/
def appendTx (b : Block) (tx : TxBlock) : Bool × Block :=
  if b.finalized then (false, b) else (true, { b with txs := b.txs ++ [tx] })

/-- `Block::appendTxValidator`. -/
def appendTxValidator (b : Block) (tx : TxValidator) : Bool × Block :=
  if b.finalized then (false, b) else (true, { b with txValidators := b.txValidators ++ [tx] })

/-- `Block::finalize`. -/
def finalize (C : Crypto) (b : Block) (validatorPrivKey : PrivKey) (newTimestamp : UInt64) :
    Bool × Block :=
  if b.finalized then (false, b)
  else if newTimestamp < b.timestamp then (false, b)
  else
    let b := { b with
      timestamp := newTimestamp
      txMerkleRoot := txRoot C b.txs
      validatorMerkleRoot := validatorRoot C b.txValidators
      blockRandomness := parseTxSeedList C b.txValidators }
    let validatorSig := Secp256k1.sign C (b.hash C) validatorPrivKey
    (true, { b with
      validatorSig
      validatorPubKey := Secp256k1.recover C validatorSig (b.hash C)
      finalized := true })

/-! ### The parser -/

/-- `Utils::bytesToUint64`. -/
def bytesToUint64 (bs : Bytes) : Except Exn Nat :=
  if bs.length ≠ 8 then
    .error (.runtimeError
      ("bytesToUint64: Invalid bytes size - expected 8, got " ++ toString bs.length))
  else .ok (BigEndian.decode bs)

/-- `Utils::bytesToUint32`. -/
def bytesToUint32 (bs : Bytes) : Except Exn Nat :=
  if bs.length ≠ 4 then
    .error (.runtimeError
      ("bytesToUint32: Invalid bytes size - expected 4, got " ++ toString bs.length))
  else .ok (BigEndian.decode bs)

/-- The length prefix at `index`. -/
def readSize (bytes : Bytes) (index : Nat) : Except Exn Nat := do
  bytesToUint32 (← substr bytes index 4)

/-- `while (index < stop)`: how many length-prefixed items start before `stop`.  Every
    iteration reads at `index` and moves it by at least four, so `bytes.length + 1`
    iterations are enough. -/
def countItems (bytes : Bytes) (stop : Nat) : Nat → Nat → Except Exn Nat
  | 0, _ => .error .outOfRange
  | fuel + 1, index =>
    if index < stop then do
      let size ← readSize bytes index
      return (← countItems bytes stop fuel (index + size + 4)) + 1
    else .ok 0

/-- Read `n` length-prefixed items from `index` on. -/
def readItems {α : Type} (item : Bytes → Except Fail α) (bytes : Bytes) :
    Nat → Nat → Except Fail (List α)
  | 0, _ => .ok []
  | n + 1, index => do
    let size ← liftExn (readSize bytes index)
    let x ← item (← liftExn (substr bytes (index + 4) size))
    return x :: (← readItems item bytes n (index + 4 + size))

/-- The index after `n` length-prefixed items. -/
def skipItems (bytes : Bytes) : Nat → Nat → Except Exn Nat
  | 0, index => .ok index
  | n + 1, index => do
    let size ← readSize bytes index
    skipItems bytes n (index + size + 4)

/-- The work of the asyncs: where each of them starts and how many items it reads. -/
def threadChunks (bytes : Bytes) : List Nat → Nat → Except Exn (List (Nat × Nat))
  | [], _ => .ok []
  | [n], off => .ok [(off, n)]
  | n :: ns, off => do
    let next ← skipItems bytes n off
    return (off, n) :: (← threadChunks bytes ns next)

/-- Read the results of the asyncs one after another. -/
def readChunks {α : Type} (item : Bytes → Except Fail α) (bytes : Bytes) :
    List (Nat × Nat) → Except Fail (List α)
  | [] => .ok []
  | (off, n) :: rest => do
    let xs ← readItems item bytes n off
    return xs ++ (← readChunks item bytes rest)

/-- The block transactions: sequentially, or divided among `thrNum` threads with the
    remainder on the last one. -/
def readTxs (C : Crypto) (thrNum : Nat) (bytes : Bytes) (chainId : UInt64) (txCount : Nat) :
    Except Fail (List TxBlock) :=
  if thrNum ≤ 1 ∨ txCount ≤ 2000 then
    readItems (fun bs => TxBlock.parse C bs chainId) bytes txCount 217
  else do
    let chunks ← liftExn (threadChunks bytes
      (List.replicate (thrNum - 1) (txCount / thrNum) ++ [txCount / thrNum + txCount % thrNum]) 217)
    readChunks (fun bs => TxBlock.parse C bs chainId) bytes chunks

/-- A validator transaction of a block at height `nHeight`. -/
def parseTxValidator (C : Crypto) (chainId nHeight : UInt64) (bs : Bytes) :
    Except Fail TxValidator := do
  let tx ← TxValidator.parse C bs chainId
  if tx.nHeight ≠ nHeight then raise "Invalid validator tx height"
  return tx

/-- The body of `Block::Block(bytes, requiredChainId)`. -/
def parseBody (C : Crypto) (thrNum : Nat) (bytes : Bytes) (chainId : UInt64) :
    Except Fail Block := do
  if bytes.length < 217 then raise "Invalid block size - too short"
  let field (pos len : Nat) : Bytes := (bytes.drop pos).take len
  let nHeight := UInt64.ofNat (BigEndian.decode (field 201 8))
  let txValidatorStart ← liftExn (bytesToUint64 (field 209 8))
  let txCount ← liftExn (countItems bytes txValidatorStart (bytes.length + 1) 217)
  let valTxCount ← liftExn (countItems bytes bytes.length (bytes.length + 1) txValidatorStart)
  let txs ← readTxs C thrNum bytes chainId txCount
  let txValidators ←
    readItems (parseTxValidator C chainId nHeight) bytes valTxCount txValidatorStart
  let b : Block :=
    { validatorSig := FixedStr.ofBytes (field 0 65)
      prevBlockHash := FixedStr.ofBytes (field 65 32)
      blockRandomness := FixedStr.ofBytes (field 97 32)
      validatorMerkleRoot := FixedStr.ofBytes (field 129 32)
      txMerkleRoot := FixedStr.ofBytes (field 161 32)
      timestamp := UInt64.ofNat (BigEndian.decode (field 193 8))
      nHeight, txValidators, txs, validatorPubKey := FixedStr.zero, finalized := false }
  if txRoot C txs ≠ b.txMerkleRoot then raise "Invalid tx merkle root"
  if validatorRoot C txValidators ≠ b.validatorMerkleRoot then
    raise "Invalid validator merkle root"
  if parseTxSeedList C txValidators ≠ b.blockRandomness then raise "Invalid block randomness"
  if !Secp256k1.verifySig (sigR b.validatorSig) (sigS b.validatorSig) (sigV b.validatorSig) then
    raise "Invalid validator signature"
  return { b with
    validatorPubKey := Secp256k1.recover C b.validatorSig (b.hash C), finalized := true }

/-- The handler's `std::runtime_error(std::string(__func__) + ": " + e.what())`; the texts
    of library exceptions are not modelled. -/
def rethrow : Fail → Fail
  | .exn (.runtimeError what) => .exn (.runtimeError ("Block: " ++ what))
  | f => f

/-- `Block::Block(bytes, requiredChainId)` on a machine with `thrNum` hardware threads. -/
def parse (C : Crypto) (thrNum : Nat) (bytes : Bytes) (chainId : UInt64) : Except Fail Block :=
  (parseBody C thrNum bytes chainId).mapError rethrow

/-! ### What the parser checks -/

variable {C : Crypto}

/-- Every item comes from a string whose length fits in the four bytes in front of it. -/
theorem readItems_ok {α : Type} {item : Bytes → Except Fail α} {bytes : Bytes} {n index : Nat}
    {xs : List α} (h : readItems item bytes n index = .ok xs) :
    ∀ x ∈ xs, ∃ bs : Bytes, bs.length < 2 ^ 32 ∧ item bs = .ok x := by
  induction n generalizing index xs with
  | zero => cases h; simp
  | succ n ih =>
    obtain ⟨size, hsize, h⟩ := Except.bind_eq_ok.mp h
    obtain ⟨bs, hbs, h⟩ := Except.bind_eq_ok.mp h
    obtain ⟨x, hx, h⟩ := Except.bind_eq_ok.mp h
    obtain ⟨rest, hrest, h⟩ := Except.bind_eq_ok.mp h
    cases h
    have hlt : size < 2 ^ 32 := by
      obtain ⟨four, -, hfour⟩ := Except.bind_eq_ok.mp (liftExn_eq_ok.mp hsize)
      unfold bytesToUint32 at hfour
      split at hfour
      · cases hfour
      · rename_i hlen
        cases hfour
        have := BigEndian.decode_lt four
        rwa [not_not.mp hlen] at this
    have hlen : bs.length ≤ size := by
      have hsub := liftExn_eq_ok.mp hbs
      unfold substr at hsub
      split at hsub
      · cases hsub
      · cases hsub; exact List.length_take_le _ _
    intro y hy
    rcases List.mem_cons.mp hy with rfl | hy
    · exact ⟨bs, lt_of_le_of_lt hlen hlt, hx⟩
    · exact ih hrest y hy

theorem readChunks_ok {α : Type} {item : Bytes → Except Fail α} {bytes : Bytes}
    {chunks : List (Nat × Nat)} {xs : List α} (h : readChunks item bytes chunks = .ok xs) :
    ∀ x ∈ xs, ∃ bs : Bytes, bs.length < 2 ^ 32 ∧ item bs = .ok x := by
  induction chunks generalizing xs with
  | nil => cases h; simp
  | cons c chunks ih =>
    obtain ⟨ys, hys, h⟩ := Except.bind_eq_ok.mp h
    obtain ⟨zs, hzs, h⟩ := Except.bind_eq_ok.mp h
    cases h
    intro x hx
    rcases List.mem_append.mp hx with hx | hx
    · exact readItems_ok hys x hx
    · exact ih hzs x hx

/-- What holds of a block the parser returned. -/
structure Parsed (C : Crypto) (b : Block) : Prop where
  txs : ∀ tx ∈ b.txs, ∃ bs chainId, bs.length < 2 ^ 32 ∧ TxBlock.parse C bs chainId = .ok tx
  txValidators : ∀ tx ∈ b.txValidators, ∃ bs chainId, bs.length < 2 ^ 32 ∧
    TxValidator.parse C bs chainId = .ok tx
  txMerkleRoot : b.txMerkleRoot = txRoot C b.txs
  validatorMerkleRoot : b.validatorMerkleRoot = validatorRoot C b.txValidators
  blockRandomness : b.blockRandomness = parseTxSeedList C b.txValidators
  validatorPubKey : b.validatorPubKey = Secp256k1.recover C b.validatorSig (b.hash C)

theorem parse_steps {thrNum : Nat} {bytes : Bytes} {chainId : UInt64} {b : Block}
    (h : parse C thrNum bytes chainId = .ok b) :
    (∃ start txCount valTxCount, bytesToUint64 ((bytes.drop 209).take 8) = .ok start ∧
      countItems bytes start (bytes.length + 1) 217 = .ok txCount ∧
      countItems bytes bytes.length (bytes.length + 1) start = .ok valTxCount ∧
      readTxs C thrNum bytes chainId txCount = .ok b.txs ∧
      readItems (parseTxValidator C chainId b.nHeight) bytes valTxCount start =
        .ok b.txValidators) ∧
      b.txMerkleRoot = txRoot C b.txs ∧
      b.validatorMerkleRoot = validatorRoot C b.txValidators ∧
      b.blockRandomness = parseTxSeedList C b.txValidators ∧
      b.validatorPubKey = Secp256k1.recover C b.validatorSig (b.hash C) := by
  have hbody : parseBody C thrNum bytes chainId = .ok b := by
    unfold parse at h
    cases hp : parseBody C thrNum bytes chainId with
    | error e => rw [hp] at h; cases h
    | ok b' => rw [hp] at h; exact h
  unfold parseBody at hbody
  obtain ⟨-, hbody⟩ := guard_eq_ok.mp hbody
  obtain ⟨start, hstart, hbody⟩ := Except.bind_eq_ok.mp hbody
  obtain ⟨txCount, hcount, hbody⟩ := Except.bind_eq_ok.mp hbody
  obtain ⟨valTxCount, hvalCount, hbody⟩ := Except.bind_eq_ok.mp hbody
  obtain ⟨txs, htxs, hbody⟩ := Except.bind_eq_ok.mp hbody
  obtain ⟨txValidators, hvals, hbody⟩ := Except.bind_eq_ok.mp hbody
  obtain ⟨htxRoot, hbody⟩ := guard_eq_ok.mp hbody
  obtain ⟨hvalRoot, hbody⟩ := guard_eq_ok.mp hbody
  obtain ⟨hrandom, hbody⟩ := guard_eq_ok.mp hbody
  obtain ⟨-, hbody⟩ := guard_eq_ok.mp hbody
  cases hbody
  exact ⟨⟨start, txCount, valTxCount, liftExn_eq_ok.mp hstart, liftExn_eq_ok.mp hcount,
    liftExn_eq_ok.mp hvalCount, htxs, hvals⟩, (not_not.mp htxRoot).symm,
    (not_not.mp hvalRoot).symm, (not_not.mp hrandom).symm, rfl⟩

theorem parse_ok {thrNum : Nat} {bytes : Bytes} {chainId : UInt64} {b : Block}
    (h : parse C thrNum bytes chainId = .ok b) : Parsed C b := by
  obtain ⟨⟨start, txCount, valTxCount, -, -, -, htxs, hvals⟩, htxRoot, hvalRoot, hrandom, hkey⟩ :=
    parse_steps h
  refine ⟨fun tx htx => ?_, fun tx htx => ?_, htxRoot, hvalRoot, hrandom, hkey⟩
  · unfold readTxs at htxs
    split at htxs
    · obtain ⟨bs, hlen, hbs⟩ := readItems_ok htxs tx htx
      exact ⟨bs, chainId, hlen, hbs⟩
    · obtain ⟨chunks, -, hchunks⟩ := Except.bind_eq_ok.mp htxs
      obtain ⟨bs, hlen, hbs⟩ := readChunks_ok hchunks tx htx
      exact ⟨bs, chainId, hlen, hbs⟩
  · obtain ⟨bs, hlen, hbs⟩ := readItems_ok hvals tx htx
    obtain ⟨tx', htx', hbs⟩ := Except.bind_eq_ok.mp hbs
    obtain ⟨-, hbs⟩ := guard_eq_ok.mp hbs
    cases hbs
    exact ⟨bs, chainId, hlen, htx'⟩

/-! ### Where blocks come from -/

/-- A block as the node gets it: read from bytes, or finalized by a producer. -/
inductive Made (C : Crypto) : Block → Prop where
  | parsed {thrNum : Nat} {bytes : Bytes} {chainId : UInt64} {b : Block} :
      parse C thrNum bytes chainId = .ok b → Made C b
  | finalized {b b' : Block} {key : PrivKey} {timestamp : UInt64} :
      b.finalize C key timestamp = (true, b') → Made C b'

theorem finalize_fst (b : Block) (key : PrivKey) (timestamp : UInt64) :
    (b.finalize C key timestamp).1 = (!b.finalized && !decide (timestamp < b.timestamp)) := by
  unfold finalize
  split
  · rename_i h; simp [h]
  · rename_i h
    split
    · rename_i ht; simp [ht]
    · rename_i ht; simp [h, ht]

theorem Made.of_finalize {b : Block} {key : PrivKey} {timestamp : UInt64}
    (h : (!b.finalized && !decide (timestamp < b.timestamp)) = true) :
    Made C (b.finalize C key timestamp).2 :=
  .finalized (Prod.ext ((finalize_fst b key timestamp).trans h) rfl)

/-- Either way the randomness is that of the block's own seeds and the key is the signer's. -/
theorem Made.derived {b : Block} (h : Made C b) :
    b.blockRandomness = parseTxSeedList C b.txValidators ∧
      b.validatorPubKey = Secp256k1.recover C b.validatorSig (b.hash C) := by
  cases h with
  | parsed h => exact ⟨(parse_ok h).blockRandomness, (parse_ok h).validatorPubKey⟩
  | finalized h =>
    unfold finalize at h
    split at h
    · cases h
    · split at h
      · cases h
      · cases h; exact ⟨rfl, rfl⟩

end Block

end OrbiterSdk

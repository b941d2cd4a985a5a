import OrbiterSdk.Core.Genesis
import OrbiterSdk.Utils.BlockFormat
import OrbiterSdk.Utils.Db

namespace OrbiterSdk

/-!
# The storage and its database

`core/storage.h` as a whole: the chain in memory with its four mappings, the two caches, the
database behind them, the constructor that loads a chain and the destructor that saves it.

* `pushBack`, `pushFront`, `popBack`, `popFront` — the ends of the chain;
* `getBlock`, `getBlockAt`, `getTx`, `getTxByBlockHashAndIndex`, `getTxByBlockNumberAndIndex`
  — queries, which look at the chain, then the caches, then the database, and fill the
  caches (`getBlock` and `blockExists` are overloaded in the source; the variants with a
  height are called `…At`);
* `load`, `save` — the constructor and the destructor.

`std::unordered_map::operator[]` creates an entry when there is none; where the source uses
it, so does the model.  Reading through a null pointer or past the end of a vector is
undefined and ends in `Fail.oob`.
-/

/-- `enum StorageStatus`. -/
inductive StorageStatus where
  | NotFound
  | OnChain
  | OnCache
  | OnDB
deriving DecidableEq

/-- What the queries for a transaction return: the transaction, if any, the hash of its
    block, its index and the height of its block. -/
structure TxEntry where
  tx : Option TxBlock
  blockHash : Hash
  blockIndex : Nat
  blockHeight : UInt64
deriving DecidableEq

/-- `{nullptr, Hash(), 0, 0}`. -/
def TxEntry.null : TxEntry := ⟨none, FixedStr.zero, 0, 0⟩

/-- What a node brings with it: the libraries, the number of hardware threads and
    `options->getChainID()`. -/
structure Env where
  C : Crypto
  thrNum : Nat
  chainId : UInt64

/-- `class Storage`. -/
structure BlockStorage where
  db : DB
  chain : List Block
  blockByHash : AssocMap Hash Block
  txByHash : AssocMap Hash (Hash × Nat × UInt64)
  blockHeightByHash : AssocMap Hash UInt64
  blockHashByHeight : AssocMap UInt64 Hash
  cachedBlocks : AssocMap Hash Block
  cachedTxs : AssocMap Hash TxEntry

namespace BlockStorage

variable (E : Env)

/-! ### The ends of the chain -/

/-- The error of a block that does not fit. -/
def pushError (block : Block) (what : String) : Fail :=
  .exn (.runtimeError ("Block " ++ hexOf (block.hash E.C).data ++ what))

/-- "Add block and txs to mappings". -/
def addToMappings (s : BlockStorage) (block : Block) : BlockStorage :=
  { s with
    blockByHash := s.blockByHash.emplace (block.hash E.C) block
    blockHashByHeight := s.blockHashByHeight.emplace block.nHeight (block.hash E.C)
    blockHeightByHash := s.blockHeightByHash.emplace (block.hash E.C) block.nHeight
    txByHash := s.txByHash.emplaceAll (fun p => p.1.hash E.C true)
      (fun p => (block.hash E.C, p.2, block.nHeight)) block.txs.zipIdx }

/-- `Storage::pushBack`. -/
def pushBack (s : BlockStorage) (block : Block) : Except Fail BlockStorage :=
  let new := { s.addToMappings E block with chain := s.chain ++ [block] }
  match s.chain.getLast? with
  | none => .ok new
  | some back =>
    if back.hash E.C ≠ block.prevBlockHash then
      .error (pushError E block " does not have the correct previous block hash.")
    else if block.nHeight ≠ back.nHeight + 1 then
      .error (pushError E block " does not have the correct height.")
    else .ok new

/-- `Storage::pushFront`. -/
def pushFront (s : BlockStorage) (block : Block) : Except Fail BlockStorage :=
  let new := { s.addToMappings E block with chain := block :: s.chain }
  match s.chain.head? with
  | none => .ok new
  | some front =>
    if front.prevBlockHash ≠ block.hash E.C then
      .error (pushError E block " does not have the correct previous block hash.")
    else if block.nHeight ≠ front.nHeight - 1 then
      .error (pushError E block " does not have the correct height.")
    else .ok new

/-- "Delete block and its txs from the mappings": those by height stay. -/
def removeFromMappings (s : BlockStorage) (block : Block) : BlockStorage :=
  { s with
    txByHash := s.txByHash.eraseAll (fun tx => tx.hash E.C true) block.txs
    blockByHash := s.blockByHash.erase (block.hash E.C) }

/-- `Storage::popBack`; `back()` of an empty chain is undefined. -/
def popBack (s : BlockStorage) : Except Fail BlockStorage :=
  match s.chain.getLast? with
  | none => .error .oob
  | some block => .ok { s.removeFromMappings E block with chain := s.chain.dropLast }

/-- `Storage::popFront`. -/
def popFront (s : BlockStorage) : Except Fail BlockStorage :=
  match s.chain with
  | [] => .error .oob
  | block :: chain => .ok { s.removeFromMappings E block with chain }

/-- `Storage::latest`. -/
def latest (s : BlockStorage) : Option Block := s.chain.getLast?

/-! ### Queries for blocks -/

/-- `Storage::blockExists(hash)`. -/
def blockExists (s : BlockStorage) (hash : Hash) : StorageStatus :=
  if hash ∈ s.blockByHash then .OnChain
  else if hash ∈ s.cachedBlocks then .OnCache
  else if s.db.has hash.data .blocks then .OnDB
  else .NotFound

/-- `Storage::blockExists(height)`: the database is not asked. -/
def blockExistsAt (s : BlockStorage) (height : UInt64) : StorageStatus :=
  match s.blockHashByHeight.lookup height with
  | some hash =>
    if hash ∈ s.blockByHash then .OnChain
    else if hash ∈ s.cachedBlocks then .OnCache
    else .OnDB
  | none => .NotFound

/-- The block the database has under a hash. -/
def readBlock (db : DB) (hash : Hash) : Except Fail Block :=
  Block.parse E.C E.thrNum (db.get hash.data .blocks) E.chainId

/-- A block from the database, on its way into the cache. -/
def cacheBlock (s : BlockStorage) (hash : Hash) : Except Fail (Option Block) × BlockStorage :=
  match readBlock E s.db hash with
  | .error e => (.error e, s)
  | .ok block =>
    let s := { s with cachedBlocks := s.cachedBlocks.emplace hash block }
    (.ok (s.cachedBlocks.lookup hash), s)

/-- `Storage::getBlock(hash)`. -/
def getBlock (s : BlockStorage) (hash : Hash) : Except Fail (Option Block) × BlockStorage :=
  match s.blockExists hash with
  | .NotFound => (.ok none, s)
  | .OnChain => (.ok (s.blockByHash.lookup hash), s)
  | .OnCache => (.ok (s.cachedBlocks.lookup hash), s)
  | .OnDB => s.cacheBlock E hash

/-- `Storage::getBlock(height)`. -/
def getBlockAt (s : BlockStorage) (height : UInt64) : Except Fail (Option Block) × BlockStorage :=
  let hash := (s.blockHashByHeight.lookup height).getD FixedStr.zero
  match s.blockExistsAt height with
  | .NotFound => (.ok none, s)
  | .OnChain => (.ok (s.blockByHash.lookup hash), s)
  | .OnCache => (.ok (s.cachedBlocks.lookup hash), s)
  | .OnDB => s.cacheBlock E hash

/-! ### Queries for transactions -/

/-- `Storage::txExists`. -/
def txExists (s : BlockStorage) (tx : Hash) : StorageStatus :=
  if tx ∈ s.txByHash then .OnChain
  else if tx ∈ s.cachedTxs then .OnCache
  else if s.db.has tx.data .txToBlocks then .OnDB
  else .NotFound

/-- The transaction the database has under a hash: the place it names, and what is there. -/
def readTx (db : DB) (tx : Hash) : Except Fail TxEntry := do
  let txData := db.get tx.data .txToBlocks
  let blockHash : Hash := FixedStr.ofBytes (← liftExn (substr txData 0 32))
  let blockIndex ← liftExn (Block.bytesToUint32 (← liftExn (substr txData 32 4)))
  let blockHeight ← liftExn (Block.bytesToUint64 (← liftExn (substr txData 36 8)))
  let blockData := db.get blockHash.data .blocks
  let transaction ← Block.getTxFromBlockWithIndex E.C E.chainId blockData blockIndex
  return ⟨some transaction, blockHash, blockIndex, UInt64.ofNat blockHeight⟩

/-- `cachedTxs.insert({hash, entry})`, then `cachedTxs[hash]`. -/
def cacheTx (s : BlockStorage) (hash : Hash) (entry : TxEntry) : Except Fail TxEntry × BlockStorage :=
  let s := { s with cachedTxs := s.cachedTxs.emplace hash entry }
  (.ok ((s.cachedTxs.lookup hash).getD .null), s)

/-- `getTxs()[blockIndex]` of a block in one of the maps. -/
def txAt (blocks : AssocMap Hash Block) (hash : Hash) (blockIndex : Nat) : Option TxBlock :=
  (blocks.lookup hash).bind fun block => block.txs[blockIndex]?

/-- `Storage::getTx`. -/
def getTx (s : BlockStorage) (tx : Hash) : Except Fail TxEntry × BlockStorage :=
  match s.txExists tx with
  | .NotFound => (.ok .null, s)
  | .OnChain =>
    let (blockHash, blockIndex, blockHeight) :=
      (s.txByHash.lookup tx).getD (FixedStr.zero, 0, 0)
    match txAt s.blockByHash blockHash blockIndex with
    | none => (.error .oob, s)
    | some transaction =>
      if transaction.hash E.C true ≠ tx then (raise "Tx hash mismatch", s)
      else (.ok ⟨some transaction, blockHash, blockIndex, blockHeight⟩, s)
  | .OnCache => (.ok ((s.cachedTxs.lookup tx).getD .null), s)
  | .OnDB =>
    match readTx E s.db tx with
    | .error e => (.error e, s)
    | .ok entry => s.cacheTx tx entry

/-- `txByHash[txHash]`. -/
def indexTx (s : BlockStorage) (txHash : Hash) : (Hash × Nat × UInt64) × BlockStorage :=
  let s := { s with txByHash := s.txByHash.emplace txHash (FixedStr.zero, 0, 0) }
  ((s.txByHash.lookup txHash).getD (FixedStr.zero, 0, 0), s)

/-- A transaction of a cached block: `cachedTxs[txHash]`, whether or not it is there. -/
def cachedTxAt (s : BlockStorage) (blockHash : Hash) (blockIndex : Nat) :
    Except Fail TxEntry × BlockStorage :=
  match txAt s.cachedBlocks blockHash blockIndex with
  | none => (.error .oob, s)
  | some tx => s.cacheTx (tx.hash E.C true) .null

/-- A transaction of a block in the database; `blockHeightByHash[blockHash]` is its height. -/
def storedTxAt (s : BlockStorage) (blockHash : Hash) (blockIndex : Nat) :
    Except Fail TxEntry × BlockStorage :=
  match Block.getTxFromBlockWithIndex E.C E.chainId (s.db.get blockHash.data .blocks) blockIndex with
  | .error e => (.error e, s)
  | .ok tx =>
    let s := { s with blockHeightByHash := s.blockHeightByHash.emplace blockHash 0 }
    let blockHeight := (s.blockHeightByHash.lookup blockHash).getD 0
    s.cacheTx (tx.hash E.C true) ⟨some tx, blockHash, blockIndex, blockHeight⟩

/-- `Storage::getTxByBlockHashAndIndex`. -/
def getTxByBlockHashAndIndex (s : BlockStorage) (blockHash : Hash) (blockIndex : Nat) :
    Except Fail TxEntry × BlockStorage :=
  match s.blockExists blockHash with
  | .NotFound => (.ok .null, s)
  | .OnChain =>
    match txAt s.blockByHash blockHash blockIndex with
    | none => (.error .oob, s)
    | some transaction =>
      let ((txBlockHash, txBlockIndex, txBlockHeight), s) := s.indexTx (transaction.hash E.C true)
      if txBlockHash ≠ blockHash ∨ txBlockIndex ≠ blockIndex then (raise "Tx hash mismatch", s)
      else (.ok ⟨some transaction, txBlockHash, txBlockIndex, txBlockHeight⟩, s)
  | .OnCache => s.cachedTxAt E blockHash blockIndex
  | .OnDB => s.storedTxAt E blockHash blockIndex

/-- `Storage::getTxByBlockNumberAndIndex`: on the chain the place is not compared. -/
def getTxByBlockNumberAndIndex (s : BlockStorage) (blockHeight : UInt64) (blockIndex : Nat) :
    Except Fail TxEntry × BlockStorage :=
  let blockHash := (s.blockHashByHeight.lookup blockHeight).getD FixedStr.zero
  match s.blockExistsAt blockHeight with
  | .NotFound => (.ok .null, s)
  | .OnChain =>
    match txAt s.blockByHash blockHash blockIndex with
    | none => (.error .oob, s)
    | some transaction =>
      let ((txBlockHash, txBlockIndex, txBlockHeight), s) := s.indexTx (transaction.hash E.C true)
      (.ok ⟨some transaction, txBlockHash, txBlockIndex, txBlockHeight⟩, s)
  | .OnCache => s.cachedTxAt E blockHash blockIndex
  | .OnDB => s.storedTxAt E blockHash blockIndex

/-! ### The constructor and the destructor -/

/-- The key `"latest"`. -/
def latestKey : Bytes := [0x6c, 0x61, 0x74, 0x65, 0x73, 0x74]

/-- `Utils::uint64ToBytes`. -/
def uint64ToBytes (n : UInt64) : Bytes := BigEndian.fixed 8 n.toNat

/-- The value of a transaction in the database: block hash, index and height. -/
def txValue (block : Block) (index : Nat) : Bytes :=
  (block.hash E.C).data ++ BigEndian.fixed 4 index ++ uint64ToBytes block.nHeight

/-- The entries of the blocks of a chain under each prefix. -/
def blockBatch (chain : List Block) : List (Bytes × Bytes) :=
  chain.map fun block => ((block.hash E.C).data, block.serializeBlock)

/-- The heights. -/
def heightBatch (chain : List Block) : List (Bytes × Bytes) :=
  chain.map fun block => (uint64ToBytes block.nHeight, (block.hash E.C).data)

/-- The transactions. -/
def txToBlockBatch (chain : List Block) : List (Bytes × Bytes) :=
  chain.flatMap fun block => block.txs.zipIdx.map fun p =>
    ((p.1.hash E.C true).data, txValue E block p.2)

/-- `Storage::~Storage`: what is in the database afterwards. -/
def save (s : BlockStorage) : Except Fail DB :=
  match s.chain.getLast? with
  | none => .error .oob
  | some latest =>
    let db := s.db.putBatch (blockBatch E s.chain) .blocks
    let db := db.putBatch (heightBatch E s.chain) .blockHeightMaps
    let db := db.putBatch (txToBlockBatch E s.chain) .txToBlocks
    .ok (db.put latestKey latest.serializeBlock .blocks)

/-- `Storage::initializeBlockchain`. -/
def initializeBlockchain (db : DB) : DB :=
  if db.has latestKey .blocks then db
  else
    let genesis := genesisBlock E.C
    let db := db.put latestKey genesis.serializeBlock .blocks
    let db := db.put (uint64ToBytes genesis.nHeight) (genesis.hash E.C).data .blockHeightMaps
    db.put (genesis.hash E.C).data genesis.serializeBlock .blocks

/-- "Parse block mappings (hash -> height / height -> hash) from DB". -/
def loadMapping (s : BlockStorage) (entry : Bytes × Bytes) : Except Fail BlockStorage := do
  let height := UInt64.ofNat (← liftExn (Block.bytesToUint64 entry.1))
  let hash : Hash := FixedStr.ofBytes entry.2
  return { s with
    blockHashByHeight := s.blockHashByHeight.emplace height hash
    blockHeightByHash := s.blockHeightByHash.emplace hash height }

/-- One of the recent blocks: `blockHashByHeight[height]`, then the block of that hash. -/
def loadBlock (s : BlockStorage) (height : UInt64) : Except Fail BlockStorage := do
  let s := { s with blockHashByHeight := s.blockHashByHeight.emplace height FixedStr.zero }
  let hash := (s.blockHashByHeight.lookup height).getD FixedStr.zero
  s.pushFront E (← readBlock E s.db hash)

/-- A storage with nothing in memory. -/
def ofDB (db : DB) : BlockStorage := ⟨db, [], ∅, ∅, ∅, ∅, ∅, ∅⟩

/-- `Storage::Storage`. -/
def load (db : DB) : Except Fail BlockStorage := do
  let db := initializeBlockchain E db
  let latest ← Block.parse E.C E.thrNum (db.get latestKey .blocks) E.chainId
  let depth := latest.nHeight
  let s ← (db.getBatch .blockHeightMaps).foldlM loadMapping (ofDB db)
  -- `for (i = 0; i <= 500 && i <= depth; i++)`
  (List.range (min 500 depth.toNat + 1)).foldlM
    (fun s i => s.loadBlock E (depth - UInt64.ofNat i)) s

/-! ### What block processing sees of it -/

variable {E} {s s' : BlockStorage} {block : Block}

/-- The chain and its mappings. -/
def memory (s : BlockStorage) (hne : s.chain ≠ []) : Storage where
  chain := s.chain
  blockByHash := s.blockByHash
  blockHashByHeight := s.blockHashByHeight
  blockHeightByHash := s.blockHeightByHash
  txByHash := s.txByHash
  chain_ne := hne

theorem latest_memory (hne : s.chain ≠ []) : s.latest = some (s.memory hne).latest :=
  List.getLast?_eq_some_getLast hne

/-- `pushBack` acts on the chain and its mappings alone. -/
theorem pushBack_memory (hne : s.chain ≠ []) :
    (∀ m, (s.memory hne).pushBack E.C block = .ok m ↔
      ∃ s' hne', s.pushBack E block = .ok s' ∧ s'.memory hne' = m) ∧
    ∀ e, (s.memory hne).pushBack E.C block = .error e ↔ s.pushBack E block = .error (.exn e) := by
  have hlatest : s.chain.getLast? = some (s.memory hne).latest := latest_memory hne
  unfold pushBack Storage.pushBack
  rw [hlatest]
  dsimp only
  by_cases hprev : (s.memory hne).latest.hash E.C ≠ block.prevBlockHash
  · rw [if_pos hprev, if_pos hprev]
    simp [pushError, String.append_assoc]
  · rw [if_neg hprev, if_neg hprev]
    by_cases hheight : block.nHeight ≠ (s.memory hne).latest.nHeight + 1
    · rw [if_pos hheight, if_pos hheight]
      simp [pushError, String.append_assoc]
    · rw [if_neg hheight, if_neg hheight]
      constructor
      · intro m
        constructor
        · intro h
          cases h
          exact ⟨_, List.append_ne_nil_of_right_ne_nil _ (List.cons_ne_nil block []), rfl, rfl⟩
        · rintro ⟨s', hne', hs', rfl⟩
          cases hs'
          rfl
      · intro e
        simp

end BlockStorage

end OrbiterSdk

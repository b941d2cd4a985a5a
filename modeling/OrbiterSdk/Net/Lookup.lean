import OrbiterSdk.Net.JsonRpc

namespace OrbiterSdk.JsonRpc

/-!
# Queries for the transactions of a block

`eth_getBlockTransactionCountByHash`, `eth_getBlockTransactionCountByNumber`,
`eth_getTransactionByBlockHashAndIndex` and `eth_getTransactionByBlockNumberAndIndex`, on any
storage: the block may be on the chain, in the cache, in the database or nowhere.

* `Lookup.Missing` — the block does not exist, or does not have the index;
* `Lookup.Answered` — there is an answer, with null for what is missing;
* `Lookup.Served` — what the query needs of the storage.

`answered_iff` says that the last two agree.  The counts set the result to null for a missing
block and then read the block nevertheless; the queries for a transaction index the
transactions without looking at their number.
-/

variable (E : Env)

/-! ### The queries -/

/-- The four queries for the transactions of a block. -/
inductive Lookup where
  | countByHash (blockHash : Hash)
  | countByNumber (blockNumber : UInt64)
  | txByHash (blockHash : Hash) (blockIndex : Nat)
  | txByNumber (blockNumber : UInt64) (blockIndex : Nat)

namespace Lookup

/-- The answer, if there is one. -/
def perform (s : BlockStorage) : Lookup → Except Fail Json
  | .countByHash blockHash => (eth_getBlockTransactionCountByHash E blockHash s).1
  | .countByNumber blockNumber => (eth_getBlockTransactionCountByNumber E blockNumber s).1
  | .txByHash blockHash i => (eth_getTransactionByBlockHashAndIndex E blockHash i s).1
  | .txByNumber blockNumber i => (eth_getTransactionByBlockNumberAndIndex E blockNumber i s).1

/-- The hash of the block that is asked for. -/
def hash? (s : BlockStorage) : Lookup → Option Hash
  | .countByHash blockHash => some blockHash
  | .countByNumber blockNumber => s.blockHashByHeight.lookup blockNumber
  | .txByHash blockHash _ => some blockHash
  | .txByNumber blockNumber _ => s.blockHashByHeight.lookup blockNumber

/-- The index that is asked for. -/
def index? : Lookup → Option Nat
  | .countByHash _ => none
  | .countByNumber _ => none
  | .txByHash _ i => some i
  | .txByNumber _ i => some i

end Lookup

/-- The block with a hash, wherever it is; one in the database may be unreadable. -/
def find (s : BlockStorage) (hash : Hash) : Option (Except Fail Block) :=
  if hash ∈ s.blockByHash then (s.blockByHash.lookup hash).map .ok
  else if hash ∈ s.cachedBlocks then (s.cachedBlocks.lookup hash).map .ok
  else if s.db.has hash.data .blocks then some (BlockStorage.readBlock E s.db hash)
  else none

/-- The block does not exist, or the index is not smaller than its number of transactions. -/
def Lookup.Missing (s : BlockStorage) (q : Lookup) : Prop :=
  (q.hash? s).bind (find E s) = none ∨
    ∃ i ∈ q.index?, ∃ b, (q.hash? s).bind (find E s) = some (.ok b) ∧ b.txs.length ≤ i

/-- The query is answered, with null for what is missing. -/
def Lookup.Answered (s : BlockStorage) (q : Lookup) : Prop :=
  ∃ json, q.perform E s = .ok json ∧ (q.Missing E s → json.field? "result" = some .null)

/-- A block is counted only if it is there, and can be read. -/
def CountServed (s : BlockStorage) (status : StorageStatus) (hash : Hash) : Prop :=
  match status with
  | .NotFound => False
  | .OnChain => True
  | .OnCache => True
  | .OnDB => ∃ b, BlockStorage.readBlock E s.db hash = .ok b

/-- The index is in range; on the chain a query by hash also needs `AtPlace`; in the database
    the walk over the block ends at a transaction.  If it went past the block's own, only an
    empty entry of the cache makes the answer null. -/
def TxServed (s : BlockStorage) (status : StorageStatus) (hash : Hash) (i : Nat)
    (AtPlace : TxBlock → Prop) : Prop :=
  match status with
  | .NotFound => True
  | .OnChain => ∃ t, BlockStorage.txAt s.blockByHash hash i = some t ∧ AtPlace t
  | .OnCache => ∃ t, BlockStorage.txAt s.cachedBlocks hash i = some t
  | .OnDB => ∃ t,
      Block.getTxFromBlockWithIndex E.C E.chainId (s.db.get hash.data .blocks) i = .ok t ∧
      ∀ b, BlockStorage.readBlock E s.db hash = .ok b → b.txs.length ≤ i →
        ∃ e, s.cachedTxs.lookup (t.hash E.C true) = some e ∧ e.tx = none

/-- `txByHash` has the transaction at this place. -/
def Indexed (s : BlockStorage) (hash : Hash) (i : Nat) (t : TxBlock) : Prop :=
  ((s.txByHash.lookup (t.hash E.C true)).getD (FixedStr.zero, 0, 0)).1 = hash ∧
    ((s.txByHash.lookup (t.hash E.C true)).getD (FixedStr.zero, 0, 0)).2.1 = i

/-- What a query needs of the storage. -/
def Lookup.Served (s : BlockStorage) : Lookup → Prop
  | .countByHash hash => CountServed E s (s.blockExists hash) hash
  | .countByNumber height => CountServed E s (s.blockExistsAt height)
      ((s.blockHashByHeight.lookup height).getD FixedStr.zero)
  | .txByHash hash i => TxServed E s (s.blockExists hash) hash i (Indexed E s hash i)
  | .txByNumber height i => TxServed E s (s.blockExistsAt height)
      ((s.blockHashByHeight.lookup height).getD FixedStr.zero) i fun _ => True

/-! ### Where a block is -/

section

variable {E : Env} {s : BlockStorage} {q : Lookup} {status : StorageStatus} {hash : Hash} {i : Nat}

/-- What a status says about the maps. -/
def Located (s : BlockStorage) (hash : Hash) : StorageStatus → Prop
  | .NotFound => True
  | .OnChain => hash ∈ s.blockByHash
  | .OnCache => hash ∉ s.blockByHash ∧ hash ∈ s.cachedBlocks
  | .OnDB => hash ∉ s.blockByHash ∧ hash ∉ s.cachedBlocks

theorem located_blockExists (s : BlockStorage) (hash : Hash) :
    Located s hash (s.blockExists hash) := by
  unfold BlockStorage.blockExists
  split
  · assumption
  · split
    · exact ⟨‹_›, ‹_›⟩
    · split
      · exact ⟨‹_›, ‹_›⟩
      · trivial

theorem located_blockExistsAt (s : BlockStorage) (height : UInt64) :
    Located s ((s.blockHashByHeight.lookup height).getD FixedStr.zero)
      (s.blockExistsAt height) := by
  unfold BlockStorage.blockExistsAt
  cases s.blockHashByHeight.lookup height with
  | none => trivial
  | some hash =>
    show Located s hash _
    dsimp only
    split
    · assumption
    · split
      · exact ⟨‹_›, ‹_›⟩
      · exact ⟨‹_›, ‹_›⟩

theorem lookup_of_blockExistsAt {height : UInt64} (h : s.blockExistsAt height ≠ .NotFound) :
    s.blockHashByHeight.lookup height =
      some ((s.blockHashByHeight.lookup height).getD FixedStr.zero) := by
  unfold BlockStorage.blockExistsAt at h
  cases hlook : s.blockHashByHeight.lookup height with
  | none => rw [hlook] at h; exact absurd rfl h
  | some hash => rfl

theorem find_of_onChain {b : Block} (hb : s.blockByHash.lookup hash = some b) :
    find E s hash = some (.ok b) := by
  rw [find, if_pos (AssocMap.mem_iff_lookup.mpr ⟨b, hb⟩), hb]
  rfl

theorem find_of_onCache {b : Block} (hchain : hash ∉ s.blockByHash)
    (hb : s.cachedBlocks.lookup hash = some b) : find E s hash = some (.ok b) := by
  rw [find, if_neg hchain, if_pos (AssocMap.mem_iff_lookup.mpr ⟨b, hb⟩), hb]
  rfl

theorem find_of_onDB (h : Located s hash .OnDB) :
    find E s hash =
      if s.db.has hash.data .blocks then some (BlockStorage.readBlock E s.db hash) else none := by
  rw [find, if_neg h.1, if_neg h.2]

theorem find_of_readBlock (h : Located s hash .OnDB) {b : Block}
    (hb : BlockStorage.readBlock E s.db hash = .ok b) : find E s hash = some (.ok b) := by
  rw [find_of_onDB h, if_pos (BlockStorage.has_of_readBlock hb), hb]

theorem Lookup.not_missing {b : Block} (hindex : q.index? = some i) (hhash : q.hash? s = some hash)
    (hfind : find E s hash = some (.ok b)) (hi : i < b.txs.length) : ¬ q.Missing E s := by
  rintro (hnone | ⟨j, hj, c, hc, hlen⟩)
  · rw [hhash, Option.bind_some, hfind] at hnone
    cases hnone
  · rw [hhash, Option.bind_some, hfind] at hc
    cases hc
    cases hindex.symm.trans hj
    omega

/-! ### Counts -/

/-- `getBlock` in terms of the status. -/
def blockFor (E : Env) (s : BlockStorage) (hash : Hash) :
    StorageStatus → Except Fail (Option Block) × BlockStorage
  | .NotFound => (.ok none, s)
  | .OnChain => (.ok (s.blockByHash.lookup hash), s)
  | .OnCache => (.ok (s.cachedBlocks.lookup hash), s)
  | .OnDB => s.cacheBlock E hash

theorem CountServed.found (hloc : Located s hash status) (h : CountServed E s status hash) :
    ∃ b, (blockFor E s hash status).1 = .ok (some b) ∧ find E s hash = some (.ok b) := by
  cases status with
  | NotFound => exact h.elim
  | OnChain =>
    obtain ⟨b, hb⟩ := AssocMap.mem_iff_lookup.mp hloc
    exact ⟨b, congrArg Except.ok hb, find_of_onChain hb⟩
  | OnCache =>
    obtain ⟨b, hb⟩ := AssocMap.mem_iff_lookup.mp hloc.2
    exact ⟨b, congrArg Except.ok hb, find_of_onCache hloc.1 hb⟩
  | OnDB =>
    obtain ⟨b, hb⟩ := h
    refine ⟨b, ?_, find_of_readBlock hloc hb⟩
    show (s.cacheBlock E hash).1 = _
    rw [BlockStorage.cacheBlock, hb]
    exact congrArg Except.ok (AssocMap.lookup_emplace_self_of_notMem b hloc.2)

theorem countServed_of_ok {json : Json}
    (h : ((blockFor E s hash status).1 >>= countTxs) = .ok json) : CountServed E s status hash := by
  cases status with
  | NotFound => cases h
  | OnChain => trivial
  | OnCache => trivial
  | OnDB =>
    obtain ⟨_, hblock, -⟩ := Except.bind_eq_ok.mp h
    cases hread : BlockStorage.readBlock E s.db hash with
    | error e =>
      rw [blockFor, BlockStorage.cacheBlock, hread] at hblock
      cases hblock
    | ok b => exact ⟨b, hread⟩

theorem count_answered_iff (hloc : Located s hash status) (hindex : q.index? = none)
    (hhash : status ≠ .NotFound → q.hash? s = some hash)
    (hperform : q.perform E s = ((blockFor E s hash status).1 >>= countTxs)) :
    q.Answered E s ↔ CountServed E s status hash := by
  constructor
  · rintro ⟨json, hjson, -⟩
    exact countServed_of_ok (hperform.symm.trans hjson)
  · intro h
    obtain ⟨b, hblock, hfind⟩ := h.found hloc
    refine ⟨answer (quantity b.txs.length), ?_, ?_⟩
    · rw [hperform, hblock]
      rfl
    · have hne : status ≠ .NotFound := by
        rintro rfl
        exact h
      rintro (hnone | ⟨j, hj, -⟩)
      · rw [hhash hne, Option.bind_some, hfind] at hnone
        cases hnone
      · rw [hindex] at hj
        cases hj

/-! ### Transactions -/

theorem field?_entryJson_null {C : Crypto} {entry : TxEntry} :
    (entryJson C entry).field? "result" = some .null ↔ entry.tx = none := by
  cases htx : entry.tx with
  | none =>
    rw [entryJson, htx]
    exact ⟨fun _ => rfl, fun _ => rfl⟩
  | some tx =>
    rw [entryJson, htx]
    constructor
    · intro h
      cases h
    · intro h
      cases h

theorem txAt_eq_some {blocks : AssocMap Hash Block} {t : TxBlock}
    (h : BlockStorage.txAt blocks hash i = some t) :
    ∃ b, blocks.lookup hash = some b ∧ i < b.txs.length := by
  obtain ⟨b, hb, ht⟩ := Option.bind_eq_some_iff.mp h
  exact ⟨b, hb, (List.getElem?_eq_some_iff.mp ht).1⟩

theorem readSize_nil {index n : Nat} : Block.readSize [] index ≠ .ok n := by
  intro h
  obtain ⟨bs, hbs, hn⟩ := Except.bind_eq_ok.mp h
  unfold substr at hbs
  split at hbs
  · cases hbs
  · cases hbs
    rw [List.drop_nil] at hn
    cases hn

theorem has_of_getTxFromBlock {t : TxBlock}
    (h : Block.getTxFromBlockWithIndex E.C E.chainId (s.db.get hash.data .blocks) i = .ok t) :
    s.db.has hash.data .blocks = true := by
  cases hlook : (s.db.entries .blocks).lookup hash.data with
  | some data => exact DB.has_iff.mpr ⟨data, hlook⟩
  | none =>
    rw [DB.get, hlook] at h
    obtain ⟨index, -, h⟩ := Except.bind_eq_ok.mp h
    obtain ⟨size, hsize, -⟩ := Except.bind_eq_ok.mp h
    exact absurd (liftExn_eq_ok.mp hsize) readSize_nil

theorem cacheTx_fst (s : BlockStorage) (txHash : Hash) (entry : TxEntry) :
    (s.cacheTx txHash entry).1 = .ok ((s.cachedTxs.lookup txHash).getD entry) := by
  by_cases h : txHash ∈ s.cachedTxs
  · obtain ⟨e, he⟩ := AssocMap.mem_iff_lookup.mp h
    simp only [BlockStorage.cacheTx, AssocMap.lookup_emplace_of_mem _ h, he, Option.getD_some]
  · simp only [BlockStorage.cacheTx, AssocMap.lookup_emplace_self_of_notMem _ h,
      AList.lookup_eq_none.mpr h, Option.getD_some, Option.getD_none]

theorem storedTxAt_fst {t : TxBlock}
    (h : Block.getTxFromBlockWithIndex E.C E.chainId (s.db.get hash.data .blocks) i = .ok t) :
    ∃ height, (s.storedTxAt E hash i).1 =
      .ok ((s.cachedTxs.lookup (t.hash E.C true)).getD ⟨some t, hash, i, height⟩) := by
  rw [BlockStorage.storedTxAt, h]
  exact ⟨_, cacheTx_fst _ _ _⟩

theorem stored_answered_iff (hloc : Located s hash .OnDB) (hindex : q.index? = some i)
    (hhash : q.hash? s = some hash)
    (hperform : q.perform E s = (s.storedTxAt E hash i).1.map (entryJson E.C))
    (AtPlace : TxBlock → Prop) :
    q.Answered E s ↔ TxServed E s .OnDB hash i AtPlace := by
  have hfound : (q.hash? s).bind (find E s) = find E s hash := by rw [hhash, Option.bind_some]
  constructor
  · rintro ⟨json, hjson, hnull⟩
    cases hget : Block.getTxFromBlockWithIndex E.C E.chainId (s.db.get hash.data .blocks) i with
    | error e =>
      rw [hperform, BlockStorage.storedTxAt, hget] at hjson
      cases hjson
    | ok t =>
      refine ⟨t, hget, fun b hb hlen => ?_⟩
      obtain ⟨height, hentry⟩ := storedTxAt_fst hget
      rw [hperform, hentry] at hjson
      cases hjson
      have hmissing : q.Missing E s :=
        .inr ⟨i, hindex, b, hfound.trans (find_of_readBlock hloc hb), hlen⟩
      have hnone := field?_entryJson_null.mp (hnull hmissing)
      -- a new entry has the transaction, so there was an old one
      cases hlook : s.cachedTxs.lookup (t.hash E.C true) with
      | none => rw [hlook] at hnone; cases hnone
      | some e => rw [hlook] at hnone; exact ⟨e, rfl, hnone⟩
  · rintro ⟨t, hget, hpast⟩
    obtain ⟨height, hentry⟩ := storedTxAt_fst hget
    refine ⟨_, by rw [hperform, hentry]; rfl, ?_⟩
    have hfind : find E s hash = some (BlockStorage.readBlock E s.db hash) := by
      rw [find_of_onDB hloc, if_pos (has_of_getTxFromBlock hget)]
    rintro (hnone | ⟨j, hj, b, hb, hlen⟩)
    · rw [hfound, hfind] at hnone
      cases hnone
    · cases hindex.symm.trans hj
      have hsame := Option.some.inj (hfind.symm.trans (hfound.symm.trans hb))
      obtain ⟨e, he, hnone⟩ := hpast b hsame hlen
      rw [field?_entryJson_null, he]
      exact hnone

/-- Transactions, by hash or by height: on the chain and in the cache the index decides, and
    then the transaction is not missing. -/
theorem tx_answered_iff {AtPlace : TxBlock → Prop} (hloc : Located s hash status)
    (hindex : q.index? = some i) (hhash : status ≠ .NotFound → q.hash? s = some hash)
    (hnotFound : status = .NotFound → q.perform E s = .ok (answer .null))
    (honChain : status = .OnChain → ((∃ json, q.perform E s = .ok json) ↔
      ∃ t, BlockStorage.txAt s.blockByHash hash i = some t ∧ AtPlace t))
    (honCache : status = .OnCache →
      q.perform E s = (s.cachedTxAt E hash i).1.map (entryJson E.C))
    (honDB : status = .OnDB → q.perform E s = (s.storedTxAt E hash i).1.map (entryJson E.C)) :
    q.Answered E s ↔ TxServed E s status hash i AtPlace := by
  cases status with
  | NotFound => exact ⟨fun _ => trivial, fun _ => ⟨_, hnotFound rfl, fun _ => rfl⟩⟩
  | OnChain =>
    constructor
    · rintro ⟨json, hjson, -⟩
      exact (honChain rfl).mp ⟨json, hjson⟩
    · intro h
      obtain ⟨t, ht, -⟩ := id h
      obtain ⟨json, hjson⟩ := (honChain rfl).mpr h
      obtain ⟨b, hb, hi⟩ := txAt_eq_some ht
      have hpresent : ¬ q.Missing E s :=
        Lookup.not_missing hindex (hhash (by decide)) (find_of_onChain hb) hi
      exact ⟨json, hjson, fun hmissing => absurd hmissing hpresent⟩
  | OnCache =>
    constructor
    · rintro ⟨json, hjson, -⟩
      cases ht : BlockStorage.txAt s.cachedBlocks hash i with
      | none =>
        rw [honCache rfl, BlockStorage.cachedTxAt, ht] at hjson
        cases hjson
      | some t => exact ⟨t, ht⟩
    · rintro ⟨t, ht⟩
      obtain ⟨b, hb, hi⟩ := txAt_eq_some ht
      have hpresent : ¬ q.Missing E s :=
        Lookup.not_missing hindex (hhash (by decide)) (find_of_onCache hloc.1 hb) hi
      refine ⟨entryJson E.C ((s.cachedTxs.lookup (t.hash E.C true)).getD .null), ?_,
        fun hmissing => absurd hmissing hpresent⟩
      rw [honCache rfl, BlockStorage.cachedTxAt, ht]
      exact congrArg (Except.map (entryJson E.C)) (cacheTx_fst s _ _)
  | OnDB => exact stored_answered_iff hloc hindex (hhash (by decide)) (honDB rfl) AtPlace

/-! ### All four -/

theorem blockFor_blockExists (E : Env) (s : BlockStorage) (hash : Hash) :
    s.getBlock E hash = blockFor E s hash (s.blockExists hash) := by
  unfold BlockStorage.getBlock
  cases s.blockExists hash <;> rfl

theorem blockFor_blockExistsAt (E : Env) (s : BlockStorage) (height : UInt64) :
    s.getBlockAt E height = blockFor E s ((s.blockHashByHeight.lookup height).getD FixedStr.zero)
      (s.blockExistsAt height) := by
  unfold BlockStorage.getBlockAt
  cases s.blockExistsAt height <;> rfl

theorem indexTx_fst (s : BlockStorage) (txHash : Hash) :
    (s.indexTx txHash).1 = (s.txByHash.lookup txHash).getD (FixedStr.zero, 0, 0) :=
  AssocMap.lookup_emplace_self s.txByHash txHash _

/-- On the chain a query by hash compares the place of the transaction. -/
theorem txByHash_onChain (h : s.blockExists hash = .OnChain) :
    (∃ json, (Lookup.txByHash hash i).perform E s = .ok json) ↔
      ∃ t, BlockStorage.txAt s.blockByHash hash i = some t ∧ Indexed E s hash i t := by
  show (∃ json, ((s.getTxByBlockHashAndIndex E hash i).1.map (entryJson E.C)) = .ok json) ↔ _
  rw [BlockStorage.getTxByBlockHashAndIndex, h]
  cases ht : BlockStorage.txAt s.blockByHash hash i with
  | none => simp [Except.map]
  | some t =>
    have hindex := indexTx_fst s (t.hash E.C true)
    simp only [hindex, Indexed, Option.some.injEq, exists_eq_left']
    split
    · next hplace =>
      refine ⟨fun h => ?_, fun h => ?_⟩
      · obtain ⟨json, hjson⟩ := h
        cases hjson
      · exact absurd h (by tauto)
    · next hplace =>
      refine ⟨fun _ => by tauto, fun _ => ⟨_, rfl⟩⟩

/-- On the chain a query by height only needs the index. -/
theorem txByNumber_onChain {height : UInt64} (h : s.blockExistsAt height = .OnChain) :
    (∃ json, (Lookup.txByNumber height i).perform E s = .ok json) ↔
      ∃ t, BlockStorage.txAt s.blockByHash
        ((s.blockHashByHeight.lookup height).getD FixedStr.zero) i = some t ∧ True := by
  show (∃ json, ((s.getTxByBlockNumberAndIndex E height i).1.map (entryJson E.C)) = .ok json) ↔ _
  rw [BlockStorage.getTxByBlockNumberAndIndex, h]
  cases ht : BlockStorage.txAt s.blockByHash
      ((s.blockHashByHeight.lookup height).getD FixedStr.zero) i with
  | none => simp [Except.map]
  | some t => exact ⟨fun _ => ⟨t, rfl, trivial⟩, fun _ => ⟨_, rfl⟩⟩

/-- **When a query for the transactions of a block is answered.**  A count needs a block that
    is there and can be read; a query for a transaction needs no block at all, or a block with
    that index, listed at its place if it is asked for by hash and on the chain. -/
theorem answered_iff (E : Env) (s : BlockStorage) (q : Lookup) :
    q.Answered E s ↔ q.Served E s := by
  cases q with
  | countByHash hash =>
    refine count_answered_iff (located_blockExists s hash) rfl (fun _ => rfl) ?_
    rw [← blockFor_blockExists]
    rfl
  | countByNumber height =>
    refine count_answered_iff (located_blockExistsAt s height) rfl lookup_of_blockExistsAt ?_
    rw [← blockFor_blockExistsAt]
    rfl
  | txByHash hash i =>
    refine tx_answered_iff (located_blockExists s hash) rfl (fun _ => rfl) (fun h => ?_)
      txByHash_onChain (fun h => ?_) (fun h => ?_)
    all_goals
      show (s.getTxByBlockHashAndIndex E hash i).1.map (entryJson E.C) = _
      rw [BlockStorage.getTxByBlockHashAndIndex, h]
    rfl
  | txByNumber height i =>
    refine tx_answered_iff (located_blockExistsAt s height) rfl lookup_of_blockExistsAt
      (fun h => ?_) txByNumber_onChain (fun h => ?_) (fun h => ?_)
    all_goals
      show (s.getTxByBlockNumberAndIndex E height i).1.map (entryJson E.C) = _
      rw [BlockStorage.getTxByBlockNumberAndIndex, h]
    rfl

/-- A storage with one block on the chain. -/
def oneBlock : BlockStorage :=
  { db := .empty, chain := [Block.new FixedStr.zero 0 1]
    blockByHash := AList.singleton (FixedStr.zero : Hash) (Block.new FixedStr.zero 0 1)
    txByHash := ∅, blockHeightByHash := ∅, blockHashByHeight := ∅, cachedBlocks := ∅
    cachedTxs := ∅ }

/-- Counting the transactions of a block that is not there reads a null pointer, and asking
    for the first transaction of a block without transactions reads past the end. -/
theorem missing_undefined :
    (Lookup.countByHash (FixedStr.ofNat 32 1)).Missing BlockStorage.recordedEnv oneBlock ∧
      (Lookup.countByHash (FixedStr.ofNat 32 1)).perform BlockStorage.recordedEnv oneBlock =
        .error .oob ∧
      (Lookup.txByHash FixedStr.zero 0).Missing BlockStorage.recordedEnv oneBlock ∧
      (Lookup.txByHash FixedStr.zero 0).perform BlockStorage.recordedEnv oneBlock =
        .error .oob := by
  refine ⟨.inl rfl, rfl, .inr ⟨0, rfl, Block.new FixedStr.zero 0 1, rfl, le_rfl⟩, rfl⟩

end

end OrbiterSdk.JsonRpc

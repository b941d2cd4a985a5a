import OrbiterSdk.Core.StorageRestart

namespace OrbiterSdk.BlockStorage

/-!
# Queries and their caches

A query that finds its block or transaction in the database leaves it in a cache, where
later queries find it.  The two caches are filled separately: `getBlock` caches a block
without its transactions, and a query for a transaction of a cached block then reads
`cachedTxs[txHash]`, which creates an empty entry when there is none.

* `Coherent s` — the database finds every transaction of a stored block at its own place;
* `Agrees s₀ s` — the caches of `s` hold what is in the database, everything else is as in
  `s₀`;
* `Query.Served s` — a transaction of a cached block is asked for only when it is cached.

`perform_iff` says for one query that it is answered as by `s₀` exactly when it is served;
`answer_iff_served` says the same after any number of served queries.
-/

/-- A query. -/
inductive Query where
  | block (hash : Hash)
  | blockAt (height : UInt64)
  | tx (hash : Hash)
  | txAt (blockHash : Hash) (blockIndex : Nat)
  | txAtHeight (blockHeight : UInt64) (blockIndex : Nat)

/-- An answer. -/
inductive Answer where
  | block (r : Except Fail (Option Block))
  | tx (r : Except Fail TxEntry)
deriving DecidableEq

namespace Query

variable (E : Env)

/-- The answer of the storage, and the storage afterwards. -/
def perform (s : BlockStorage) : Query → Answer × BlockStorage
  | .block hash => ((s.getBlock E hash).map .block id)
  | .blockAt height => ((s.getBlockAt E height).map .block id)
  | .tx hash => ((s.getTx E hash).map .tx id)
  | .txAt blockHash blockIndex =>
    ((s.getTxByBlockHashAndIndex E blockHash blockIndex).map .tx id)
  | .txAtHeight blockHeight blockIndex =>
    ((s.getTxByBlockNumberAndIndex E blockHeight blockIndex).map .tx id)

/-- A step of a run of queries. -/
def apply (q : Query) (s : BlockStorage) : Option BlockStorage := some (q.perform E s).2

/-- The block is on the chain or can be read from the database, and has the index. -/
def InRange (s : BlockStorage) (blockHash : Hash) (blockIndex : Nat) : Prop :=
  (blockHash ∈ s.blockByHash →
    ∃ t, BlockStorage.txAt s.blockByHash blockHash blockIndex = some t) ∧
  (blockHash ∉ s.blockByHash →
    ∃ b t, readBlock E s.db blockHash = .ok b ∧ b.txs[blockIndex]? = some t)

/-- Indices are in range. -/
def Valid (s : BlockStorage) : Query → Prop
  | .txAt blockHash blockIndex =>
    s.blockExists blockHash ≠ .NotFound → InRange E s blockHash blockIndex
  | .txAtHeight blockHeight blockIndex =>
    ∀ hash, s.blockHashByHeight.lookup blockHeight = some hash → InRange E s hash blockIndex
  | _ => True

/-- If the block is cached and not on the chain, so is the transaction. -/
def TxCached (s : BlockStorage) (blockHash : Hash) (blockIndex : Nat) : Prop :=
  blockHash ∉ s.blockByHash → ∀ t, BlockStorage.txAt s.cachedBlocks blockHash blockIndex = some t →
    t.hash E.C true ∈ s.cachedTxs

/-- A transaction of a cached block is asked for only when it is cached. -/
def Served (s : BlockStorage) : Query → Prop
  | .txAt blockHash blockIndex => TxCached E s blockHash blockIndex
  | .txAtHeight blockHeight blockIndex =>
    ∀ hash, s.blockHashByHeight.lookup blockHeight = some hash → TxCached E s hash blockIndex
  | _ => True

end Query

section

variable (E : Env)

/-- The mappings have every transaction of the chain, and the database finds every
    transaction of a stored block at its own place. -/
structure Coherent (s : BlockStorage) : Prop where
  onChain : ∀ hash i t, txAt s.blockByHash hash i = some t → t.hash E.C true ∈ s.txByHash
  onDB : ∀ hash b i t, hash ∉ s.blockByHash → readBlock E s.db hash = .ok b →
    b.txs[i]? = some t → readTx E s.db (t.hash E.C true) =
      .ok ⟨some t, hash, i, (s.blockHeightByHash.lookup hash).getD 0⟩

/-- The caches hold what is in the database; the rest is as in `s₀`. -/
structure Agrees (s₀ s : BlockStorage) : Prop where
  db : s.db = s₀.db
  blockByHash : s.blockByHash = s₀.blockByHash
  txByHash : s.txByHash = s₀.txByHash
  blockHashByHeight : s.blockHashByHeight = s₀.blockHashByHeight
  blockHeightByHash : ∀ hash, (s.blockHeightByHash.lookup hash).getD 0 =
    (s₀.blockHeightByHash.lookup hash).getD 0
  cachedBlocks : ∀ hash b, s.cachedBlocks.lookup hash = some b → readBlock E s₀.db hash = .ok b
  cachedTxs : ∀ tx e, s.cachedTxs.lookup tx = some e → readTx E s₀.db tx = .ok e

end

variable {E : Env} {s₀ s : BlockStorage} {db : DB}

/-! ### What can be read is there -/

theorem lookup_of_readBlock {hash : Hash} {b : Block} (h : readBlock E db hash = .ok b) :
    ∃ data, (db.entries .blocks).lookup hash.data = some data ∧
      Block.parse E.C E.thrNum data E.chainId = .ok b := by
  unfold readBlock DB.get at h
  cases hlook : (db.entries .blocks).lookup hash.data with
  | none =>
    -- The empty string is too short for a block.
    rw [hlook] at h
    cases h
  | some data =>
    rw [hlook] at h
    exact ⟨data, rfl, h⟩

theorem has_of_readBlock {hash : Hash} {b : Block} (h : readBlock E db hash = .ok b) :
    db.has hash.data .blocks = true := by
  obtain ⟨data, hlook, -⟩ := lookup_of_readBlock h
  exact DB.has_iff.mpr ⟨data, hlook⟩

theorem has_of_readTx {tx : Hash} {e : TxEntry} (h : readTx E db tx = .ok e) :
    db.has tx.data .txToBlocks = true := by
  cases hlook : (db.entries .txToBlocks).lookup tx.data with
  | none =>
    rw [readTx, DB.get, hlook] at h
    obtain ⟨_, -, h⟩ := Except.bind_eq_ok.mp h
    obtain ⟨_, hsub, -⟩ := Except.bind_eq_ok.mp h
    cases hsub
  | some v => exact DB.has_iff.mpr ⟨v, hlook⟩

theorem getTxFromBlock_of_readBlock {hash : Hash} {b : Block} (h : readBlock E db hash = .ok b)
    {i : Nat} {t : TxBlock} (hi : b.txs[i]? = some t) :
    Block.getTxFromBlockWithIndex E.C E.chainId (db.get hash.data .blocks) i = .ok t := by
  obtain ⟨data, hlook, hparse⟩ := lookup_of_readBlock h
  rw [DB.get_of_lookup hlook]
  exact Block.getTxFromBlockWithIndex_of_parse (db.fits _ _ _ hlook) hparse hi

theorem txCached_of_notMem {hash : Hash} (hcached : hash ∉ s.cachedBlocks) (i : Nat) :
    Query.TxCached E s hash i := by
  intro _ t ht
  rw [txAt, AList.lookup_eq_none.mpr hcached] at ht
  cases ht

namespace Agrees

theorem refl (hblocks : s₀.cachedBlocks = ∅) (htxs : s₀.cachedTxs = ∅) : Agrees E s₀ s₀ where
  db := rfl
  blockByHash := rfl
  txByHash := rfl
  blockHashByHeight := rfl
  blockHeightByHash _ := rfl
  cachedBlocks hash b h := by
    rw [hblocks] at h
    cases h
  cachedTxs tx e h := by
    rw [htxs] at h
    cases h

theorem emplaceBlock (h : Agrees E s₀ s) {hash : Hash} {b : Block}
    (hb : readBlock E s₀.db hash = .ok b) :
    Agrees E s₀ { s with cachedBlocks := s.cachedBlocks.emplace hash b } := by
  refine { h with cachedBlocks := fun hash' b' hlook => ?_ }
  by_cases hmem : hash ∈ s.cachedBlocks
  · rw [AssocMap.lookup_emplace_of_mem _ hmem] at hlook
    exact h.cachedBlocks hash' b' hlook
  · by_cases heq : hash' = hash
    · subst heq
      rw [AssocMap.lookup_emplace_self_of_notMem _ hmem] at hlook
      cases hlook
      exact hb
    · rw [AssocMap.lookup_emplace_ne _ heq] at hlook
      exact h.cachedBlocks hash' b' hlook

/-- A transaction that was read is cached, and the answer is what was read. -/
theorem cacheTx (h : Agrees E s₀ s) {tx : Hash} {e : TxEntry} (he : readTx E s₀.db tx = .ok e) :
    (s.cacheTx tx e).1 = .ok e ∧ Agrees E s₀ (s.cacheTx tx e).2 := by
  unfold BlockStorage.cacheTx
  by_cases hmem : tx ∈ s.cachedTxs
  · obtain ⟨e', he'⟩ := AssocMap.mem_iff_lookup.mp hmem
    have hsame := h.cachedTxs tx e' he'
    rw [he] at hsame
    cases hsame
    simp only [AssocMap.lookup_emplace_of_mem _ hmem, he']
    exact ⟨rfl, h⟩
  · refine ⟨congrArg Except.ok ?_, { h with cachedTxs := fun tx' e' hlook => ?_ }⟩
    · rw [AssocMap.lookup_emplace_self_of_notMem _ hmem, Option.getD_some]
    · by_cases heq : tx' = tx
      · subst heq
        rw [AssocMap.lookup_emplace_self_of_notMem _ hmem] at hlook
        cases hlook
        exact he
      · rw [AssocMap.lookup_emplace_ne _ heq] at hlook
        exact h.cachedTxs tx' e' hlook

/-! ### Queries for blocks -/

theorem cacheBlock (h : Agrees E s₀ s) {hash : Hash} (hcached : hash ∉ s.cachedBlocks) :
    (s.cacheBlock E hash).1 = (readBlock E s₀.db hash).map some ∧
      Agrees E s₀ (s.cacheBlock E hash).2 := by
  rw [← h.db]
  unfold BlockStorage.cacheBlock
  cases hread : readBlock E s.db hash with
  | error e => exact ⟨rfl, h⟩
  | ok b =>
    refine ⟨congrArg Except.ok ?_, h.emplaceBlock (h.db ▸ hread)⟩
    exact AssocMap.lookup_emplace_self_of_notMem b hcached

theorem getBlock (h : Agrees E s₀ s) (hash : Hash) :
    (s.getBlock E hash).1 = (if hash ∈ s₀.blockByHash then .ok (s₀.blockByHash.lookup hash)
      else if s₀.db.has hash.data .blocks then (readBlock E s₀.db hash).map some else .ok none) ∧
      Agrees E s₀ (s.getBlock E hash).2 := by
  unfold BlockStorage.getBlock blockExists
  rw [h.blockByHash, h.db]
  by_cases hchain : hash ∈ s₀.blockByHash
  · rw [if_pos hchain, if_pos hchain]
    exact ⟨rfl, h⟩
  · rw [if_neg hchain, if_neg hchain]
    by_cases hcached : hash ∈ s.cachedBlocks
    · -- What is cached was in the database.
      obtain ⟨b, hb⟩ := AssocMap.mem_iff_lookup.mp hcached
      have hread := h.cachedBlocks hash b hb
      rw [if_pos hcached, if_pos (has_of_readBlock hread), hread, hb]
      exact ⟨rfl, h⟩
    · rw [if_neg hcached]
      by_cases hdb : s₀.db.has hash.data .blocks = true
      · rw [if_pos hdb, if_pos hdb]
        exact h.cacheBlock hcached
      · rw [if_neg hdb, if_neg hdb]
        exact ⟨rfl, h⟩

theorem getBlockAt (h : Agrees E s₀ s) (height : UInt64) :
    (s.getBlockAt E height).1 = ((s₀.blockHashByHeight.lookup height).elim (.ok none) fun hash =>
      if hash ∈ s₀.blockByHash then .ok (s₀.blockByHash.lookup hash)
      else (readBlock E s₀.db hash).map some) ∧
      Agrees E s₀ (s.getBlockAt E height).2 := by
  unfold BlockStorage.getBlockAt blockExistsAt
  rw [h.blockByHash, h.blockHashByHeight]
  cases s₀.blockHashByHeight.lookup height with
  | none => exact ⟨rfl, h⟩
  | some hash =>
    dsimp only [Option.getD_some, Option.elim_some]
    by_cases hchain : hash ∈ s₀.blockByHash
    · rw [if_pos hchain, if_pos hchain]
      exact ⟨rfl, h⟩
    · rw [if_neg hchain, if_neg hchain]
      by_cases hcached : hash ∈ s.cachedBlocks
      · obtain ⟨b, hb⟩ := AssocMap.mem_iff_lookup.mp hcached
        rw [if_pos hcached, h.cachedBlocks hash b hb, hb]
        exact ⟨rfl, h⟩
      · rw [if_neg hcached]
        exact h.cacheBlock hcached

/-! ### Queries for transactions -/

/-- The place a transaction on the chain is filed under does not depend on the caches. -/
theorem indexTx (h : Agrees E s₀ s) {tx : Hash} (htx : tx ∈ s₀.txByHash) :
    s.indexTx tx = ((s₀.txByHash.lookup tx).getD (FixedStr.zero, 0, 0), s) := by
  unfold BlockStorage.indexTx
  rw [AssocMap.lookup_emplace_of_mem _ (h.txByHash ▸ htx), ← h.txByHash]

theorem getTx (h : Agrees E s₀ s) (tx : Hash) :
    (s.getTx E tx).1 = (if tx ∈ s₀.txByHash then (s₀.getTx E tx).1
      else if s₀.db.has tx.data .txToBlocks then readTx E s₀.db tx else .ok .null) ∧
      Agrees E s₀ (s.getTx E tx).2 := by
  unfold BlockStorage.getTx txExists
  rw [h.txByHash, h.blockByHash, h.db]
  by_cases hchain : tx ∈ s₀.txByHash
  · rw [if_pos hchain, if_pos hchain, if_pos hchain]
    dsimp only
    cases BlockStorage.txAt s₀.blockByHash ((s₀.txByHash.lookup tx).getD (FixedStr.zero, 0, 0)).1
        ((s₀.txByHash.lookup tx).getD (FixedStr.zero, 0, 0)).2.1 with
    | none => exact ⟨rfl, h⟩
    | some t =>
      dsimp only
      by_cases hhash : t.hash E.C true ≠ tx
      · rw [if_pos hhash, if_pos hhash]
        exact ⟨rfl, h⟩
      · rw [if_neg hhash, if_neg hhash]
        exact ⟨rfl, h⟩
  · rw [if_neg hchain, if_neg hchain]
    by_cases hcached : tx ∈ s.cachedTxs
    · -- What is cached was in the database.
      obtain ⟨e, he⟩ := AssocMap.mem_iff_lookup.mp hcached
      have hread := h.cachedTxs tx e he
      rw [if_pos hcached, if_pos (has_of_readTx hread), hread, he]
      exact ⟨rfl, h⟩
    · rw [if_neg hcached]
      by_cases hdb : s₀.db.has tx.data .txToBlocks = true
      · rw [if_pos hdb, if_pos hdb]
        cases hread : readTx E s₀.db tx with
        | error e => exact ⟨rfl, h⟩
        | ok e => exact h.cacheTx hread
      · rw [if_neg hdb, if_neg hdb]
        exact ⟨rfl, h⟩

/-- A transaction of a block in the database, which is then cached. -/
theorem storedTxAt (h : Agrees E s₀ s) (hc : Coherent E s₀) {hash : Hash} {b : Block} {i : Nat}
    {t : TxBlock} (hchain : hash ∉ s₀.blockByHash) (hb : readBlock E s₀.db hash = .ok b)
    (hi : b.txs[i]? = some t) :
    (s.storedTxAt E hash i).1 =
      .ok ⟨some t, hash, i, (s₀.blockHeightByHash.lookup hash).getD 0⟩ ∧
      Agrees E s₀ (s.storedTxAt E hash i).2 := by
  have hheights : ∀ hash', ((s.blockHeightByHash.emplace hash 0).lookup hash').getD 0 =
      (s₀.blockHeightByHash.lookup hash').getD 0 := by
    intro hash'
    rw [← h.blockHeightByHash hash']
    by_cases heq : hash' = hash
    · subst heq
      rw [AssocMap.lookup_emplace_self]
    · rw [AssocMap.lookup_emplace_ne _ heq]
  have hagrees : Agrees E s₀
      { s with blockHeightByHash := s.blockHeightByHash.emplace hash 0 } :=
    { h with blockHeightByHash := hheights }
  unfold BlockStorage.storedTxAt
  rw [h.db, getTxFromBlock_of_readBlock hb hi]
  dsimp only
  rw [hheights hash]
  rw [h.db] at hagrees
  exact hagrees.cacheTx (hc.onDB hash b i t hchain hb hi)

/-- A transaction of a cached block: it has to be cached as well. -/
theorem cachedTxAt (h : Agrees E s₀ s) (hc : Coherent E s₀) {hash : Hash} {b : Block} {i : Nat}
    {t : TxBlock} (hchain : hash ∉ s₀.blockByHash) (hb : readBlock E s₀.db hash = .ok b)
    (hi : b.txs[i]? = some t) (hcached : hash ∈ s.cachedBlocks) :
    ((s.cachedTxAt E hash i).1 =
      .ok ⟨some t, hash, i, (s₀.blockHeightByHash.lookup hash).getD 0⟩ ↔
        t.hash E.C true ∈ s.cachedTxs) ∧
      (t.hash E.C true ∈ s.cachedTxs → Agrees E s₀ (s.cachedTxAt E hash i).2) := by
  obtain ⟨b', hb'⟩ := AssocMap.mem_iff_lookup.mp hcached
  have hsame := h.cachedBlocks hash b' hb'
  rw [hb] at hsame
  cases hsame
  have htx : BlockStorage.txAt s.cachedBlocks hash i = some t := by
    rw [BlockStorage.txAt, hb', Option.bind_some, hi]
  unfold BlockStorage.cachedTxAt BlockStorage.cacheTx
  rw [htx]
  dsimp only
  by_cases hmem : t.hash E.C true ∈ s.cachedTxs
  · obtain ⟨e, he⟩ := AssocMap.mem_iff_lookup.mp hmem
    have hread := h.cachedTxs _ e he
    rw [hc.onDB hash b i t hchain hb hi] at hread
    cases hread
    rw [AssocMap.lookup_emplace_of_mem _ hmem, he]
    exact ⟨⟨fun _ => hmem, fun _ => rfl⟩, fun _ => h⟩
  · -- `operator[]` creates the entry that was not there.
    rw [AssocMap.lookup_emplace_self_of_notMem _ hmem]
    refine ⟨⟨fun hnull => ?_, fun h => absurd h hmem⟩, fun h => absurd h hmem⟩
    cases hnull

theorem offChain (h : Agrees E s₀ s) (hc : Coherent E s₀) {hash : Hash} {b : Block} {i : Nat}
    {t : TxBlock} (hchain : hash ∉ s₀.blockByHash) (hb : readBlock E s₀.db hash = .ok b)
    (hi : b.txs[i]? = some t) {r : Except Fail TxEntry × BlockStorage}
    (hr : r = if hash ∈ s.cachedBlocks then s.cachedTxAt E hash i else s.storedTxAt E hash i) :
    (r.1 = .ok ⟨some t, hash, i, (s₀.blockHeightByHash.lookup hash).getD 0⟩ ↔
      Query.TxCached E s hash i) ∧
      (Query.TxCached E s hash i → Agrees E s₀ r.2) := by
  have hcached_iff : hash ∈ s.cachedBlocks →
      (Query.TxCached E s hash i ↔ t.hash E.C true ∈ s.cachedTxs) := by
    intro hcached
    obtain ⟨b', hb'⟩ := AssocMap.mem_iff_lookup.mp hcached
    have hsame := h.cachedBlocks hash b' hb'
    rw [hb] at hsame
    cases hsame
    have htx : BlockStorage.txAt s.cachedBlocks hash i = some t := by
      rw [BlockStorage.txAt, hb', Option.bind_some, hi]
    constructor
    · intro hall
      exact hall (h.blockByHash ▸ hchain) t htx
    · intro hmem _ t' ht'
      rw [htx] at ht'
      cases ht'
      exact hmem
  rw [hr]
  by_cases hcached : hash ∈ s.cachedBlocks
  · rw [if_pos hcached, hcached_iff hcached]
    exact h.cachedTxAt hc hchain hb hi hcached
  · obtain ⟨hans, hagrees⟩ := h.storedTxAt hc hchain hb hi
    rw [if_neg hcached]
    exact ⟨iff_of_true hans (txCached_of_notMem hcached i), fun _ => hagrees⟩

theorem txCached_of_mem (h : Agrees E s₀ s) {hash : Hash} (hchain : hash ∈ s₀.blockByHash)
    (i : Nat) : Query.TxCached E s hash i := by
  intro hnot
  exact absurd (h.blockByHash ▸ hchain) hnot

/-- The status of a block does not depend on the caches, but for where it is found. -/
theorem blockExists_eq_notFound (h : Agrees E s₀ s) {hash : Hash} :
    s.blockExists hash = .NotFound ↔
      hash ∉ s₀.blockByHash ∧ s₀.db.has hash.data .blocks = false := by
  unfold blockExists
  rw [h.blockByHash, h.db]
  by_cases hchain : hash ∈ s₀.blockByHash
  · simp [hchain]
  · by_cases hcached : hash ∈ s.cachedBlocks
    · obtain ⟨b, hb⟩ := AssocMap.mem_iff_lookup.mp hcached
      simp [hchain, hcached, has_of_readBlock (h.cachedBlocks hash b hb)]
    · simp [hchain, hcached]

end Agrees

/-! ### One query, and a run of queries -/

theorem txAt_onChain (hc : Coherent E s₀) {hash : Hash} (hchain : hash ∈ s₀.blockByHash) (i : Nat) :
    ∃ r, ∀ s, Agrees E s₀ s → s.getTxByBlockHashAndIndex E hash i = (r, s) := by
  cases htx : txAt s₀.blockByHash hash i with
  | none =>
    refine ⟨.error .oob, fun s h => ?_⟩
    unfold getTxByBlockHashAndIndex blockExists
    rw [h.blockByHash, if_pos hchain, htx]
  | some t =>
    rcases hplace : (s₀.txByHash.lookup (t.hash E.C true)).getD (FixedStr.zero, 0, 0)
      with ⟨hash', i', height'⟩
    refine ⟨if hash' ≠ hash ∨ i' ≠ i then raise "Tx hash mismatch"
      else .ok ⟨some t, hash', i', height'⟩, fun s h => ?_⟩
    unfold getTxByBlockHashAndIndex blockExists
    rw [h.blockByHash, if_pos hchain, htx]
    dsimp only
    rw [h.indexTx (hc.onChain hash i t htx), hplace]
    exact (apply_ite (·, s) _ _ _).symm

theorem txAtHeight_onChain (hc : Coherent E s₀) {height : UInt64} {hash : Hash}
    (hheight : s₀.blockHashByHeight.lookup height = some hash) (hchain : hash ∈ s₀.blockByHash)
    (i : Nat) : ∃ r, ∀ s, Agrees E s₀ s → s.getTxByBlockNumberAndIndex E height i = (r, s) := by
  cases htx : txAt s₀.blockByHash hash i with
  | none =>
    refine ⟨.error .oob, fun s h => ?_⟩
    unfold getTxByBlockNumberAndIndex blockExistsAt
    rw [h.blockHashByHeight, h.blockByHash, hheight]
    dsimp only [Option.getD_some]
    rw [if_pos hchain, htx]
  | some t =>
    rcases hplace : (s₀.txByHash.lookup (t.hash E.C true)).getD (FixedStr.zero, 0, 0)
      with ⟨hash', i', height'⟩
    refine ⟨.ok ⟨some t, hash', i', height'⟩, fun s h => ?_⟩
    unfold getTxByBlockNumberAndIndex blockExistsAt
    rw [h.blockHashByHeight, h.blockByHash, hheight]
    dsimp only [Option.getD_some]
    rw [if_pos hchain, htx]
    dsimp only
    rw [h.indexTx (hc.onChain hash i t htx), hplace]

theorem txAt_offChain (h : Agrees E s₀ s) {hash : Hash} (hchain : hash ∉ s₀.blockByHash)
    (hdb : s₀.db.has hash.data .blocks = true) (i : Nat) :
    s.getTxByBlockHashAndIndex E hash i =
      if hash ∈ s.cachedBlocks then s.cachedTxAt E hash i else s.storedTxAt E hash i := by
  unfold getTxByBlockHashAndIndex blockExists
  rw [h.blockByHash, if_neg hchain, h.db, if_pos hdb]
  by_cases hcached : hash ∈ s.cachedBlocks
  · rw [if_pos hcached, if_pos hcached]
  · rw [if_neg hcached, if_neg hcached]

theorem txAtHeight_offChain (h : Agrees E s₀ s) {height : UInt64} {hash : Hash}
    (hheight : s₀.blockHashByHeight.lookup height = some hash) (hchain : hash ∉ s₀.blockByHash)
    (i : Nat) : s.getTxByBlockNumberAndIndex E height i =
      if hash ∈ s.cachedBlocks then s.cachedTxAt E hash i else s.storedTxAt E hash i := by
  unfold getTxByBlockNumberAndIndex blockExistsAt
  rw [h.blockHashByHeight, h.blockByHash, hheight]
  dsimp only [Option.getD_some]
  rw [if_neg hchain]
  by_cases hcached : hash ∈ s.cachedBlocks
  · rw [if_pos hcached, if_pos hcached]
  · rw [if_neg hcached, if_neg hcached]

theorem served_of_empty (hempty : s.cachedBlocks = ∅) (q : Query) : q.Served E s := by
  have hnone : ∀ hash, hash ∉ s.cachedBlocks := by
    intro hash
    rw [hempty]
    exact AList.notMem_empty hash
  cases q with
  | txAt hash i => exact txCached_of_notMem (hnone hash) i
  | txAtHeight height i => exact fun hash _ => txCached_of_notMem (hnone hash) i
  | _ => trivial

theorem txAt_iff (hc : Coherent E s₀) (h₀ : Agrees E s₀ s₀) (hempty : s₀.cachedBlocks = ∅)
    (h : Agrees E s₀ s) {hash : Hash} {i : Nat} (hq : (Query.txAt hash i).Valid E s₀) :
    ((s.getTxByBlockHashAndIndex E hash i).1 = (s₀.getTxByBlockHashAndIndex E hash i).1 ↔
        Query.TxCached E s hash i) ∧
      (Query.TxCached E s hash i → Agrees E s₀ (s.getTxByBlockHashAndIndex E hash i).2) := by
  have hserved : Query.TxCached E s₀ hash i := served_of_empty hempty (.txAt hash i)
  by_cases hchain : hash ∈ s₀.blockByHash
  · obtain ⟨r, hr⟩ := txAt_onChain hc hchain i
    rw [hr s h, hr s₀ h₀]
    exact ⟨iff_of_true rfl (h.txCached_of_mem hchain i), fun _ => h⟩
  · cases hdb : s₀.db.has hash.data .blocks with
    | true =>
      have hexists : s₀.blockExists hash ≠ .NotFound := by
        intro hnot
        rw [(h₀.blockExists_eq_notFound.mp hnot).2] at hdb
        cases hdb
      obtain ⟨b, t, hb, hi⟩ := (hq hexists).2 hchain
      rw [((h₀.offChain hc hchain hb hi (txAt_offChain h₀ hchain hdb i)).1).mpr hserved]
      exact h.offChain hc hchain hb hi (txAt_offChain h hchain hdb i)
    | false =>
      -- the block does not exist, so it is not cached either
      have hcached : hash ∉ s.cachedBlocks := by
        intro hmem
        obtain ⟨b, hb⟩ := AssocMap.mem_iff_lookup.mp hmem
        rw [has_of_readBlock (h.cachedBlocks hash b hb)] at hdb
        cases hdb
      unfold getTxByBlockHashAndIndex
      rw [h.blockExists_eq_notFound.mpr ⟨hchain, hdb⟩,
        h₀.blockExists_eq_notFound.mpr ⟨hchain, hdb⟩]
      exact ⟨iff_of_true rfl (txCached_of_notMem hcached i), fun _ => h⟩

/-- A transaction of a block by height: that of the block which is mapped to it. -/
theorem txAtHeight_iff (hc : Coherent E s₀) (h₀ : Agrees E s₀ s₀) (hempty : s₀.cachedBlocks = ∅)
    (h : Agrees E s₀ s) {height : UInt64} {i : Nat} {hash : Hash}
    (hq : (Query.txAtHeight height i).Valid E s₀)
    (hheight : s₀.blockHashByHeight.lookup height = some hash) :
    ((s.getTxByBlockNumberAndIndex E height i).1 = (s₀.getTxByBlockNumberAndIndex E height i).1 ↔
        Query.TxCached E s hash i) ∧
      (Query.TxCached E s hash i → Agrees E s₀ (s.getTxByBlockNumberAndIndex E height i).2) := by
  have hserved : Query.TxCached E s₀ hash i := served_of_empty hempty (.txAt hash i)
  by_cases hchain : hash ∈ s₀.blockByHash
  · obtain ⟨r, hr⟩ := txAtHeight_onChain hc hheight hchain i
    rw [hr s h, hr s₀ h₀]
    exact ⟨iff_of_true rfl (h.txCached_of_mem hchain i), fun _ => h⟩
  · obtain ⟨b, t, hb, hi⟩ := (hq hash hheight).2 hchain
    rw [((h₀.offChain hc hchain hb hi (txAtHeight_offChain h₀ hheight hchain i)).1).mpr hserved]
    exact h.offChain hc hchain hb hi (txAtHeight_offChain h hheight hchain i)

/-- **One query.**  It is answered as with empty caches exactly when it is served; then the
    caches still hold what is in the database. -/
theorem perform_iff (hc : Coherent E s₀) (h₀ : Agrees E s₀ s₀) (hempty : s₀.cachedBlocks = ∅)
    (h : Agrees E s₀ s) {q : Query} (hq : q.Valid E s₀) :
    ((q.perform E s).1 = (q.perform E s₀).1 ↔ q.Served E s) ∧
      (q.Served E s → Agrees E s₀ (q.perform E s).2) := by
  cases q with
  | block hash =>
    refine ⟨iff_of_true (congrArg Answer.block ?_) trivial, fun _ => (h.getBlock hash).2⟩
    exact (h.getBlock hash).1.trans (h₀.getBlock hash).1.symm
  | blockAt height =>
    refine ⟨iff_of_true (congrArg Answer.block ?_) trivial, fun _ => (h.getBlockAt height).2⟩
    exact (h.getBlockAt height).1.trans (h₀.getBlockAt height).1.symm
  | tx hash =>
    refine ⟨iff_of_true (congrArg Answer.tx ?_) trivial, fun _ => (h.getTx hash).2⟩
    exact (h.getTx hash).1.trans (h₀.getTx hash).1.symm
  | txAt hash i =>
    show (Answer.tx (s.getTxByBlockHashAndIndex E hash i).1 =
      Answer.tx (s₀.getTxByBlockHashAndIndex E hash i).1 ↔ Query.TxCached E s hash i) ∧ _
    rw [Answer.tx.injEq]
    exact txAt_iff hc h₀ hempty h hq
  | txAtHeight height i =>
    show (Answer.tx (s.getTxByBlockNumberAndIndex E height i).1 =
      Answer.tx (s₀.getTxByBlockNumberAndIndex E height i).1 ↔
        ∀ hash, s.blockHashByHeight.lookup height = some hash → Query.TxCached E s hash i) ∧
      ((∀ hash, s.blockHashByHeight.lookup height = some hash → Query.TxCached E s hash i) →
        Agrees E s₀ (s.getTxByBlockNumberAndIndex E height i).2)
    rw [Answer.tx.injEq, h.blockHashByHeight]
    cases hheight : s₀.blockHashByHeight.lookup height with
    | none =>
      unfold getTxByBlockNumberAndIndex blockExistsAt
      rw [h.blockHashByHeight, hheight]
      exact ⟨iff_of_true rfl (fun _ hsome => nomatch hsome), fun _ => h⟩
    | some hash =>
      have hone : (∀ hash', some hash = some hash' → Query.TxCached E s hash' i) ↔
          Query.TxCached E s hash i := by
        constructor
        · intro hall
          exact hall hash rfl
        · intro hcached hash' heq
          cases heq
          exact hcached
      rw [hone]
      exact txAtHeight_iff hc h₀ hempty h hq hheight

/-- **A run of queries.**  As long as every query is served the caches hold what is in the
    database. -/
theorem agrees_of_run (hc : Coherent E s₀) (h₀ : Agrees E s₀ s₀) (hempty : s₀.cachedBlocks = ∅)
    {queries : List Query}
    (halong : Machine.Along (Query.apply E) (fun s q => q.Valid E s₀ ∧ q.Served E s) queries s₀)
    (hrun : Machine.run (Query.apply E) queries s₀ = some s) : Agrees E s₀ s := by
  refine Machine.run_invariant (I := Agrees E s₀) (fun t q t' ht hq hstep => ?_) h₀ halong hrun
  obtain ⟨hvalid, hserved⟩ := hq
  cases hstep
  exact (perform_iff hc h₀ hempty ht hvalid).2 hserved

/-! ### Storages of nodes -/

theorem Represents.coherent {blocks : List Block} (h : Represents E blocks s)
    (hadm : Admissible E blocks) : Coherent E s := by
  obtain ⟨saved, hholds, hmem⟩ := h.saved
  have hstorable : ∀ b ∈ saved, Storable E b :=
    fun b hb => hadm.storable b ((hmem b).mpr (Or.inl hb))
  constructor
  · intro hash i t htx
    obtain ⟨b, hb, hi⟩ := Option.bind_eq_some_iff.mp htx
    obtain ⟨hchain, -⟩ := (h.mapped.blockByHash _ _).mp hb
    exact h.mapped.txByHash.mem_iff.mpr ⟨_, b, i, t, hchain, hi, rfl, rfl⟩
  · intro hash b i t _ hread hi
    obtain ⟨data, hlook, hparse⟩ := lookup_of_readBlock hread
    obtain ⟨b', hb', rfl, rfl⟩ := hholds.of_lookup_block hlook
    -- What is stored under the hash is the block itself.
    cases (hstorable b' hb').parse.symm.trans hparse
    have hheight : s.blockHeightByHash.lookup (b.hash E.C) = some b.nHeight :=
      (h.mapped.blockHeightByHash _ _).mpr ⟨b, (hmem b).mpr (Or.inl hb'), rfl, rfl⟩
    rw [hheight]
    exact hholds.readTx hstorable hb' hi

/-- When everything is saved the oldest block may leave the memory. -/
theorem Represents.popFront {blocks : List Block} {s' : BlockStorage} (h : Represents E blocks s)
    (hadm : Admissible E blocks) (hholds : Holds E s.db blocks) (hpop : s.popFront E = .ok s')
    (hne : s'.chain ≠ []) : Holds E s'.db blocks ∧ Represents E blocks s' := by
  obtain ⟨b, tail, hchain, rfl⟩ := popFront_eq_ok hpop
  have hnodup : (b :: tail).Nodup := by
    rw [← hchain]
    exact h.suffix.sublist.nodup (h.linked.nodup hadm.length_le)
  have hb : b ∈ s.chain := by
    rw [hchain]
    exact List.mem_cons_self
  have hsuffix : tail <:+ blocks := by
    refine List.IsSuffix.trans ?_ h.suffix
    rw [hchain]
    exact List.suffix_cons b tail
  refine ⟨hholds, h.linked, hsuffix, hne,
    ⟨blocks, hholds, fun c => ⟨Or.inl, fun hc => hc.elim id fun hc => hsuffix.subset hc⟩⟩, ?_,
    h.cachedBlocks, h.cachedTxs⟩
  · refine (h.mapped.remove hb fun _ _ => Iff.rfl).congr (fun c => ?_) (fun _ => Iff.rfl)
      rfl rfl rfl rfl
    show c ∈ s.chain ∧ c ≠ b ↔ c ∈ tail
    rw [hchain, List.mem_cons]
    constructor
    · rintro ⟨rfl | hc, hne⟩
      · exact absurd rfl hne
      · exact hc
    · intro hc
      refine ⟨Or.inr hc, ?_⟩
      rintro rfl
      exact (List.nodup_cons.mp hnodup).1 hc

/-- **Answers do not depend on earlier queries** exactly as long as transactions of cached
    blocks are asked for only when they are cached. -/
theorem answer_iff_served (hc : Coherent E s₀) (hblocks : s₀.cachedBlocks = ∅)
    (htxs : s₀.cachedTxs = ∅) {queries : List Query}
    (halong : Machine.Along (Query.apply E) (fun s q => q.Valid E s₀ ∧ q.Served E s) queries s₀)
    (hrun : Machine.run (Query.apply E) queries s₀ = some s) {q : Query} (hq : q.Valid E s₀) :
    (q.perform E s).1 = (q.perform E s₀).1 ↔ q.Served E s := by
  have h₀ : Agrees E s₀ s₀ := Agrees.refl hblocks htxs
  have h := agrees_of_run hc h₀ hblocks halong hrun
  exact (perform_iff hc h₀ hblocks h hq).1

/-- A node that saved blocks 1 and 2 keeps block 2 in memory. -/
def recordedNode : Option BlockStorage :=
  (load recordedEnv .empty).toOption.bind fun s =>
    (Machine.run (Event.apply recordedEnv) [.push recordedBlock, .push recordedNext] s).bind
      fun s => (Event.apply recordedEnv .restart s).bind
        fun s => (s.popFront recordedEnv).toOption.bind fun s => (s.popFront recordedEnv).toOption

theorem coherent_recordedNode (h : recordedNode = some s) (hne : s.chain ≠ []) :
    Coherent recordedEnv s ∧ s.cachedBlocks = ∅ ∧ s.cachedTxs = ∅ := by
  obtain ⟨s₀, h₀, h⟩ := Option.bind_eq_some_iff.mp h
  obtain ⟨s₁, hrun, h⟩ := Option.bind_eq_some_iff.mp h
  obtain ⟨s₂, hrestart, h⟩ := Option.bind_eq_some_iff.mp h
  obtain ⟨s₃, hpop, hpop'⟩ := Option.bind_eq_some_iff.mp h
  have hadm : Admissible recordedEnv ([genesisBlock recordedEnv.C] ++
      Event.pushed [.push recordedBlock, .push recordedNext]) := admissible_recordedNext
  have h₁ := run_represents (represents_genesis hadm.left (Except.toOption_eq_some.mp h₀)) hadm hrun
  obtain ⟨s', hs', hholds, h₂⟩ := h₁.restart hadm
  cases hs'.symm.trans hrestart
  have hne₃ : s₃.chain ≠ [] := by
    obtain ⟨b, tail, hchain, -⟩ := popFront_eq_ok (Except.toOption_eq_some.mp hpop')
    rw [hchain]
    exact List.cons_ne_nil b tail
  obtain ⟨hholds₃, h₃⟩ := h₂.popFront hadm hholds (Except.toOption_eq_some.mp hpop) hne₃
  obtain ⟨-, h₄⟩ := h₃.popFront hadm hholds₃ (Except.toOption_eq_some.mp hpop') hne
  exact ⟨h₄.coherent hadm, h₄.cachedBlocks, h₄.cachedTxs⟩

/-- What the node has after two runs of queries: the transfer and then the block that holds
    it, or the block alone. -/
theorem recordedNode_queried :
    ∃ s₀ s s', recordedNode = some s₀ ∧
      Machine.run (Query.apply recordedEnv) [.tx (Recorded.transfer.hash Recorded.crypto true),
        .block (recordedBlock.hash Recorded.crypto)] s₀ = some s ∧
      Machine.run (Query.apply recordedEnv) [.block (recordedBlock.hash Recorded.crypto)] s₀ =
        some s' ∧
      (s₀.chain ≠ [] ∧ recordedBlock.hash Recorded.crypto ∉ s₀.blockByHash ∧
        (s₀.db.entries .blocks).lookup (recordedBlock.hash Recorded.crypto).data =
          some recordedBlock.serializeBlock ∧
        recordedBlock.txs[0]? = some Recorded.transfer) ∧
      (recordedBlock.hash Recorded.crypto ∈ s.cachedBlocks ∧
        txAt s.cachedBlocks (recordedBlock.hash Recorded.crypto) 0 = some Recorded.transfer ∧
        Recorded.transfer.hash Recorded.crypto true ∈ s.cachedTxs) ∧
      ((Query.txAt (recordedBlock.hash Recorded.crypto) 0).perform recordedEnv s₀).1 =
        .tx (.ok ⟨some Recorded.transfer, recordedBlock.hash Recorded.crypto, 0, 1⟩) ∧
      ((Query.txAt (recordedBlock.hash Recorded.crypto) 0).perform recordedEnv s').1 =
        .tx (.ok .null) := by
  have hlook : (recordedNode.bind fun s₀ =>
      (Machine.run (Query.apply recordedEnv) [.tx (Recorded.transfer.hash Recorded.crypto true),
        .block (recordedBlock.hash Recorded.crypto)] s₀).bind fun s =>
      (Machine.run (Query.apply recordedEnv) [.block (recordedBlock.hash Recorded.crypto)]
        s₀).map fun s' =>
      decide ((s₀.chain ≠ [] ∧ recordedBlock.hash Recorded.crypto ∉ s₀.blockByHash ∧
        (s₀.db.entries .blocks).lookup (recordedBlock.hash Recorded.crypto).data =
          some recordedBlock.serializeBlock ∧
        recordedBlock.txs[0]? = some Recorded.transfer) ∧
      (recordedBlock.hash Recorded.crypto ∈ s.cachedBlocks ∧
        txAt s.cachedBlocks (recordedBlock.hash Recorded.crypto) 0 = some Recorded.transfer ∧
        Recorded.transfer.hash Recorded.crypto true ∈ s.cachedTxs) ∧
      ((Query.txAt (recordedBlock.hash Recorded.crypto) 0).perform recordedEnv s₀).1 =
        .tx (.ok ⟨some Recorded.transfer, recordedBlock.hash Recorded.crypto, 0, 1⟩) ∧
      ((Query.txAt (recordedBlock.hash Recorded.crypto) 0).perform recordedEnv s').1 =
        .tx (.ok .null))) = some true := by
    decide +kernel
  obtain ⟨s₀, hs₀, hlook⟩ := Option.bind_eq_some_iff.mp hlook
  obtain ⟨s, hrun, hlook⟩ := Option.bind_eq_some_iff.mp hlook
  obtain ⟨s', hrun', hlook⟩ := Option.map_eq_some_iff.mp hlook
  exact ⟨s₀, s, s', hs₀, hrun, hrun', of_decide_eq_true hlook⟩

/-- The transfer of block 1 is asked for by its hash, the block is asked for, and then its
    first transaction: it is found in the cache. -/
theorem answer_iff_served_transfer :
    ∃ s₀ s, recordedNode = some s₀ ∧
      Machine.run (Query.apply recordedEnv) [.tx (Recorded.transfer.hash Recorded.crypto true),
        .block (recordedBlock.hash Recorded.crypto)] s₀ = some s ∧
      recordedBlock.hash Recorded.crypto ∈ s.cachedBlocks ∧
      ((Query.txAt (recordedBlock.hash Recorded.crypto) 0).perform recordedEnv s).1 =
        ((Query.txAt (recordedBlock.hash Recorded.crypto) 0).perform recordedEnv s₀).1 := by
  obtain ⟨s₀, s, -, hs₀, hrun, -, ⟨hne, hoff, hstored, hfirst⟩, ⟨hblock, htx, hcached⟩, -⟩ :=
    recordedNode_queried
  obtain ⟨hc, hblocks, htxs⟩ := coherent_recordedNode hs₀ hne
  have hread : readBlock recordedEnv s₀.db (recordedBlock.hash Recorded.crypto) =
      .ok recordedBlock := by
    rw [readBlock, DB.get_of_lookup hstored]
    exact (admissible_recordedBlock.storable _ (List.mem_of_mem_getLast? rfl)).parse
  have hvalid : (Query.txAt (recordedBlock.hash Recorded.crypto) 0).Valid recordedEnv s₀ := by
    intro _
    exact ⟨fun hon => absurd hon hoff, fun _ => ⟨_, _, hread, hfirst⟩⟩
  refine ⟨s₀, s, hs₀, hrun, hblock, ?_⟩
  refine (answer_iff_served hc hblocks htxs ?_ hrun hvalid).mpr ?_
  · exact ⟨⟨trivial, trivial⟩, fun _ _ => ⟨⟨trivial, trivial⟩, fun _ _ => trivial⟩⟩
  · intro _ t ht
    cases htx.symm.trans ht
    exact hcached

/-- Only the block is asked for: then its first transaction is the empty entry. -/
theorem cached_block_null :
    ∃ s₀ s, recordedNode = some s₀ ∧
      Machine.run (Query.apply recordedEnv) [.block (recordedBlock.hash Recorded.crypto)] s₀ =
        some s ∧
      ((Query.txAt (recordedBlock.hash Recorded.crypto) 0).perform recordedEnv s₀).1 =
        .tx (.ok ⟨some Recorded.transfer, recordedBlock.hash Recorded.crypto, 0, 1⟩) ∧
      ((Query.txAt (recordedBlock.hash Recorded.crypto) 0).perform recordedEnv s).1 =
        .tx (.ok .null) := by
  obtain ⟨s₀, -, s, hs₀, -, hrun, -, -, hanswers⟩ := recordedNode_queried
  exact ⟨s₀, s, hs₀, hrun, hanswers⟩

end OrbiterSdk.BlockStorage

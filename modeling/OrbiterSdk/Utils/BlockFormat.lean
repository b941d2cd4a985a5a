import OrbiterSdk.Utils.Block

namespace OrbiterSdk.Block

/-!
# Stored blocks

`Block::serializeBlock` writes a block for the database.  A single transaction is read back
by `Storage::getTxFromBlockWithIndex`, which walks over the transactions in front of it and
parses nothing else.

* `readTxs_eq_ok` — the threads of the parser read what one thread would;
* `getTxFromBlockWithIndex_of_parse` — on bytes the parser accepts, the walk ends at the
  transaction the parser has at that index.
-/

/-! ### Writing -/

/-- Every item behind its length in four bytes. -/
def serializeItems (items : List Bytes) : Bytes :=
  items.flatMap fun bs => BigEndian.fixed 4 bs.length ++ bs

/-- `Block::serializeBlock`. -/
def serializeBlock (b : Block) : Bytes :=
  let head := b.validatorSig.data ++ b.serializeHeader
  let txs := serializeItems (b.txs.map fun tx => tx.rlpSerialize true)
  -- `txValidatorStart` is the size of everything in front of the validator transactions.
  head ++ BigEndian.fixed 8 (head.length + 8 + txs.length) ++ txs ++
    serializeItems (b.txValidators.map fun tx => tx.rlpSerialize true)

/-! ### Reading one transaction -/

/-- The walk of `Storage::getTxFromBlockWithIndex` over `n` transactions.  The size is a
    `uint32_t`, so `txSize + 4` is computed with 32 bits. -/
def skipTxs (blockData : Bytes) : Nat → Nat → Except Exn Nat
  | 0, index => .ok index
  | n + 1, index => do
    let txSize ← readSize blockData index
    skipTxs blockData n (index + (txSize + 4) % 2 ^ 32)

/-- `Storage::getTxFromBlockWithIndex`. -/
def getTxFromBlockWithIndex (C : Crypto) (chainId : UInt64) (blockData : Bytes) (txIndex : Nat) :
    Except Fail TxBlock := do
  let index ← liftExn (skipTxs blockData txIndex 217)
  let txSize ← liftExn (readSize blockData index)
  TxBlock.parse C (← liftExn (substr blockData (index + 4) txSize)) chainId

/-! ### The threads of the parser -/

section

variable {α : Type} {item : Bytes → Except Fail α} {bytes : Bytes}

theorem readItems_add {n k index next : Nat} {xs ys : List α}
    (hxs : readItems item bytes n index = .ok xs) (hskip : skipItems bytes n index = .ok next)
    (hys : readItems item bytes k next = .ok ys) :
    readItems item bytes (n + k) index = .ok (xs ++ ys) := by
  induction n generalizing index xs with
  | zero =>
    cases hxs
    cases hskip
    rw [Nat.zero_add]
    exact hys
  | succ n ih =>
    obtain ⟨size, hsize, hxs⟩ := Except.bind_eq_ok.mp hxs
    obtain ⟨bs, hbs, hxs⟩ := Except.bind_eq_ok.mp hxs
    obtain ⟨x, hx, hxs⟩ := Except.bind_eq_ok.mp hxs
    obtain ⟨rest, hrest, hxs⟩ := Except.bind_eq_ok.mp hxs
    cases hxs
    obtain ⟨size', hsize', hskip⟩ := Except.bind_eq_ok.mp hskip
    cases (liftExn_eq_ok.mp hsize).symm.trans hsize'
    rw [show index + size + 4 = index + 4 + size by omega] at hskip
    rw [show n + 1 + k = n + k + 1 by omega, readItems]
    exact Except.bind_eq_ok.mpr ⟨size, hsize, Except.bind_eq_ok.mpr ⟨bs, hbs,
      Except.bind_eq_ok.mpr ⟨x, hx, Except.bind_eq_ok.mpr ⟨_, ih hrest hskip, rfl⟩⟩⟩⟩

theorem readChunks_eq_ok {ns : List Nat} {off : Nat} {chunks : List (Nat × Nat)} {xs : List α}
    (hchunks : threadChunks bytes ns off = .ok chunks)
    (hxs : readChunks item bytes chunks = .ok xs) : readItems item bytes ns.sum off = .ok xs := by
  induction ns generalizing off chunks xs with
  | nil =>
    cases hchunks
    exact hxs
  | cons n ns ih =>
    cases ns with
    | nil =>
      -- The last thread does not look for the next offset.
      cases hchunks
      obtain ⟨ys, hys, hxs⟩ := Except.bind_eq_ok.mp hxs
      cases hxs
      rw [List.sum_singleton, List.append_nil]
      exact hys
    | cons k ns =>
      obtain ⟨next, hnext, hchunks⟩ := Except.bind_eq_ok.mp hchunks
      obtain ⟨rest, hrest, hchunks⟩ := Except.bind_eq_ok.mp hchunks
      cases hchunks
      obtain ⟨ys, hys, hxs⟩ := Except.bind_eq_ok.mp hxs
      obtain ⟨zs, hzs, hxs⟩ := Except.bind_eq_ok.mp hxs
      cases hxs
      rw [List.sum_cons]
      exact readItems_add hys hnext (ih hrest hzs)

end

variable {C : Crypto}

/-- **Threads.**  However many threads share the work, the transactions are those one thread
    reads. -/
theorem readTxs_eq_ok {thrNum txCount : Nat} {bytes : Bytes} {chainId : UInt64}
    {txs : List TxBlock} (h : readTxs C thrNum bytes chainId txCount = .ok txs) :
    readItems (fun bs => TxBlock.parse C bs chainId) bytes txCount 217 = .ok txs := by
  unfold readTxs at h
  split at h
  · exact h
  · rename_i hmany
    obtain ⟨chunks, hchunks, htxs⟩ := Except.bind_eq_ok.mp h
    have hread := readChunks_eq_ok (liftExn_eq_ok.mp hchunks) htxs
    have hsum : (List.replicate (thrNum - 1) (txCount / thrNum) ++
        [txCount / thrNum + txCount % thrNum]).sum = txCount := by
      have hdiv := Nat.div_add_mod txCount thrNum
      obtain ⟨k, rfl⟩ : ∃ k, thrNum = k + 1 := ⟨thrNum - 1, by omega⟩
      rw [List.sum_append, List.sum_replicate, List.sum_singleton, smul_eq_mul,
        Nat.add_sub_cancel]
      rw [Nat.add_mul, Nat.one_mul] at hdiv
      omega
    rwa [hsum] at hread

/-! ### The walk ends where the parser was -/

theorem readSize_le {bytes : Bytes} {index size : Nat} (h : readSize bytes index = .ok size) :
    index ≤ bytes.length := by
  obtain ⟨four, hfour, -⟩ := Except.bind_eq_ok.mp h
  unfold substr at hfour
  split at hfour
  · cases hfour
  · omega

/-- The item at an index, found by the walk.  A length that does not fit in 32 bits with
    four added to it would have to lie in front of another item, past the end. -/
theorem skipTxs_of_readItems {α : Type} {item : Bytes → Except Fail α} {bytes : Bytes}
    (hlen : bytes.length < 2 ^ 32) {n index i : Nat} {xs : List α} {x : α}
    (hxs : readItems item bytes n index = .ok xs) (hi : xs[i]? = some x) :
    ∃ j size bs, skipTxs bytes i index = .ok j ∧ readSize bytes j = .ok size ∧
      substr bytes (j + 4) size = .ok bs ∧ item bs = .ok x := by
  induction i generalizing n index xs with
  | zero =>
    cases n with
    | zero => cases hxs; cases hi
    | succ n =>
      obtain ⟨size, hsize, hxs⟩ := Except.bind_eq_ok.mp hxs
      obtain ⟨bs, hbs, hxs⟩ := Except.bind_eq_ok.mp hxs
      obtain ⟨y, hy, hxs⟩ := Except.bind_eq_ok.mp hxs
      obtain ⟨rest, -, hxs⟩ := Except.bind_eq_ok.mp hxs
      cases hxs
      cases hi
      exact ⟨index, size, bs, rfl, liftExn_eq_ok.mp hsize, liftExn_eq_ok.mp hbs, hy⟩
  | succ i ih =>
    cases n with
    | zero => cases hxs; cases hi
    | succ n =>
      obtain ⟨size, hsize, hxs⟩ := Except.bind_eq_ok.mp hxs
      obtain ⟨bs, hbs, hxs⟩ := Except.bind_eq_ok.mp hxs
      obtain ⟨y, hy, hxs⟩ := Except.bind_eq_ok.mp hxs
      obtain ⟨rest, hrest, hxs⟩ := Except.bind_eq_ok.mp hxs
      cases hxs
      have hi' : rest[i]? = some x := hi
      have hnext : index + 4 + size ≤ bytes.length := by
        cases n with
        | zero => cases hrest; cases hi'
        | succ n =>
          obtain ⟨size', hsize', -⟩ := Except.bind_eq_ok.mp hrest
          exact readSize_le (liftExn_eq_ok.mp hsize')
      obtain ⟨j, size', bs', hj, hfound⟩ := ih hrest hi'
      refine ⟨j, size', bs', ?_, hfound⟩
      rw [skipTxs]
      refine Except.bind_eq_ok.mpr ⟨size, liftExn_eq_ok.mp hsize, ?_⟩
      rw [Nat.mod_eq_of_lt (by omega), show index + (size + 4) = index + 4 + size by omega]
      exact hj

/-- **One transaction of a stored block** is the one the parser reads. -/
theorem getTxFromBlockWithIndex_of_parse {thrNum : Nat} {chainId : UInt64} {data : Bytes}
    {b : Block} (hlen : data.length < 2 ^ 32) (hb : parse C thrNum data chainId = .ok b)
    {i : Nat} {tx : TxBlock} (hi : b.txs[i]? = some tx) :
    getTxFromBlockWithIndex C chainId data i = .ok tx := by
  obtain ⟨⟨_, txCount, _, -, -, -, htxs, -⟩, -⟩ := parse_steps hb
  obtain ⟨j, size, bs, hj, hsize, hbs, htx⟩ :=
    skipTxs_of_readItems hlen (readTxs_eq_ok htxs) hi
  unfold getTxFromBlockWithIndex
  exact Except.bind_eq_ok.mpr ⟨j, liftExn_eq_ok.mpr hj, Except.bind_eq_ok.mpr
    ⟨size, liftExn_eq_ok.mpr hsize, Except.bind_eq_ok.mpr ⟨bs, liftExn_eq_ok.mpr hbs, htx⟩⟩⟩

end OrbiterSdk.Block

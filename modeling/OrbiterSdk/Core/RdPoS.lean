import OrbiterSdk.Lib.AssocMap
import OrbiterSdk.Lib.Shuffle
import OrbiterSdk.Utils.Block

namespace OrbiterSdk

/-!
# The rdPoS consensus object

`core/rdpos.h` without its worker thread: the validator set, the random list that names the
next block's producer and participants, the mempool of validator transactions, block
validation and the database entries.
-/

/-- `std::set<Validator>` built by insertion: sorted, without repeats. -/
def validatorSet (as : List Address) : List Address :=
  as.foldl (fun s a => if a ∈ s then s else s.orderedInsert (· ≤ ·) a) []

/-- `RandomGen::shuffle`: every step hashes the seed and reads it as a number. -/
def RandomGen.shuffle (C : Crypto) (seed : Hash) (v : List Address) : Hash × List Address :=
  Shuffle.shuffle (fun s => C.sha3 s.data) toUint256 seed v

/-- `rdPoS::minValidators`. -/
def minValidators : Nat := 4

/-- `class rdPoS`. -/
structure RdPoS where
  validators : List Address
  randomList : List Address
  validatorMempool : AssocMap Hash TxValidator
  randomGen : Hash
  bestRandomSeed : Hash

namespace RdPoS

variable (C : Crypto)

/-- `rdPoS::rdPoS`: `validatorsDb` is what `getBatch(DBPrefix::rdPoS)` returns, in any order;
    the seed is the randomness of the latest block. -/
def load (validatorsDb : AssocMap Bytes Address) (latest : Block) : Except Exn RdPoS :=
  if validatorsDb.entries.length = 0 then .error (.runtimeError "No rdPoS in DB.")
  else
    let validators := validatorSet (validatorsDb.entries.map fun e => e.2)
    let r := RandomGen.shuffle C latest.blockRandomness validators
    .ok { validators, randomList := r.2, validatorMempool := ∅, randomGen := r.1
          bestRandomSeed := latest.blockRandomness }

/-- `rdPoS::~rdPoS`: the validators in set order under their index, put over what is there. -/
def save (r : RdPoS) (db : AssocMap Bytes Address) : AssocMap Bytes Address :=
  db.overwrite (fun _ a => a)
    (r.validators.zipIdx.map fun p => ⟨BigEndian.fixed 8 p.2, p.1⟩)

/-- `rdPoS::processBlock`. -/
def processBlock (r : RdPoS) (block : Block) : Except Exn RdPoS :=
  if !block.finalized then .error (.runtimeError "Block is not finalized.")
  else
    let s := RandomGen.shuffle C block.blockRandomness r.validators
    .ok { r with randomList := s.2, validatorMempool := ∅, randomGen := s.1
                 bestRandomSeed := block.blockRandomness }

/-- One entry of `txHashToSeedMap` is in order. -/
def validPair (hashTx seedTx : TxValidator) : Bool :=
  getTxValidatorFunction hashTx ≠ .INVALID && getTxValidatorFunction seedTx ≠ .INVALID &&
    hashTx.sender = seedTx.sender && getTxValidatorFunction hashTx = .RANDOMHASH &&
    getTxValidatorFunction seedTx = .RANDOMSEED &&
    (C.sha3 (seedTx.data.drop 4)).data = hashTx.data.drop 4

/-- `txHashToSeedMap`: pairs keyed by the hash transaction, equal when the hashes are. -/
def txHashToSeedMap (txs : List TxValidator) : AssocMap Hash (TxValidator × TxValidator) :=
  ((txs.take minValidators).zip (txs.drop minValidators)).foldl
    (fun m p => m.emplace (p.1.hash C true) p) ∅

/-- `rdPoS::validateBlock`.  With fewer than five validators the code reads past the end of
    `randomList`; the missing entries match nobody here. -/
def validateBlock (r : RdPoS) (block : Block) : Bool :=
  block.finalized &&
    some (Secp256k1.toAddress C block.validatorPubKey) = r.randomList[0]? &&
    block.txValidators.length = minValidators * 2 &&
    block.txValidators.all (fun tx => tx.nHeight = block.nHeight) &&
    (List.range minValidators).all (fun i =>
      (block.txValidators[i]?).map (·.sender) = r.randomList[i + 1]? &&
        (block.txValidators[i + minValidators]?).map (·.sender) = r.randomList[i + 1]?) &&
    (txHashToSeedMap C block.txValidators).entries.length = minValidators &&
    (txHashToSeedMap C block.txValidators).entries.all (fun e => validPair C e.2.1 e.2.2)

/-- The sender is one of `randomList[1..4]`. -/
def participates (r : RdPoS) (tx : TxValidator) : Bool :=
  decide (tx.sender ∈ (r.randomList.drop 1).take minValidators)

/-- `rdPoS::addValidatorTx`, with the height of `storage->latest()`. -/
def addValidatorTx (latestHeight : UInt64) (r : RdPoS) (tx : TxValidator) : Bool × RdPoS :=
  if tx.hash C true ∈ r.validatorMempool then (true, r)
  else if tx.nHeight ≠ latestHeight + 1 then (false, r)
  else if !r.participates tx then (false, r)
  else
    let added := { r with validatorMempool := r.validatorMempool.emplace (tx.hash C true) tx }
    match (r.validatorMempool.entries.map fun e => e.2).filter
        (fun t => decide (t.sender = tx.sender)) with
    | [] => (true, added)
    | [t] => if t.data.take 4 = tx.data.take 4 then (false, r) else (true, added)
    | _ => (false, r)

/-! ### What a valid block holds -/

/-- The participants of the round: `randomList[1]` to `randomList[4]`. -/
def participants (r : RdPoS) : List Address := (r.randomList.drop 1).take minValidators

/-- The transactions of the mempool, in the order in which it is iterated. -/
def pool (r : RdPoS) : List TxValidator := r.validatorMempool.entries.map fun e => e.2

/-- The validator transactions of a valid block: the randomHash transactions of the
    participants in order, then their random transactions. -/
structure Round (r : RdPoS) (nHeight : UInt64) (hashes seeds : List TxValidator) : Prop where
  full : r.participants.length = minValidators
  hashSenders : hashes.map TxValidator.sender = r.participants
  seedSenders : seeds.map TxValidator.sender = r.participants
  heights : ∀ tx ∈ hashes ++ seeds, tx.nHeight = nHeight
  distinct : (hashes.map fun tx => tx.hash C true).Nodup
  valid : ∀ p ∈ hashes.zip seeds, validPair C p.1 p.2 = true

variable {C}

/-- The ways `addValidatorTx` can go. -/
inductive AddRun (C : Crypto) (latestHeight : UInt64) (r : RdPoS) (tx : TxValidator) :
    Bool × RdPoS → Prop where
  /-- The transaction is in the mempool already. -/
  | known : tx.hash C true ∈ r.validatorMempool → AddRun C latestHeight r tx (true, r)
  | refused : tx.hash C true ∉ r.validatorMempool → AddRun C latestHeight r tx (false, r)
  /-- A transaction of a participant for the next block.  The participant has at most one in
      the mempool, and that one has another functor. -/
  | filed : tx.hash C true ∉ r.validatorMempool → tx.nHeight = latestHeight + 1 →
      tx.sender ∈ r.participants → (r.pool.countP fun t => decide (t.sender = tx.sender)) ≤ 1 →
      (∀ t ∈ r.pool, t.sender = tx.sender → t.data.take 4 ≠ tx.data.take 4) →
      AddRun C latestHeight r tx
        (true, { r with validatorMempool := r.validatorMempool.emplace (tx.hash C true) tx })

theorem addValidatorTx_run (latestHeight : UInt64) (r : RdPoS) (tx : TxValidator) :
    AddRun C latestHeight r tx (r.addValidatorTx C latestHeight tx) := by
  unfold addValidatorTx
  split
  · rename_i hknown
    exact .known hknown
  · rename_i hnew
    split
    · exact .refused hnew
    · rename_i hheight
      split
      · exact .refused hnew
      · rename_i hpart
        have hsender : tx.sender ∈ r.participants := by
          simp only [participates, Bool.not_eq_true', decide_eq_false_iff_not, not_not] at hpart
          exact hpart
        have hfilter : ∀ t ∈ r.pool, t.sender = tx.sender →
            t ∈ (r.validatorMempool.entries.map fun e => e.2).filter
              (fun t => decide (t.sender = tx.sender)) :=
          fun t ht he => List.mem_filter.mpr ⟨ht, by simpa using he⟩
        have hcount : (r.pool.countP fun t => decide (t.sender = tx.sender)) =
            ((r.validatorMempool.entries.map fun e => e.2).filter
              (fun t => decide (t.sender = tx.sender))).length := List.countP_eq_length_filter
        split
        · rename_i hnone
          rw [hnone] at hcount
          refine .filed hnew (not_not.mp hheight) hsender (by rw [hcount]; decide) ?_
          intro t ht he
          have hmem := hfilter t ht he
          rw [hnone] at hmem
          cases hmem
        · rename_i u hone
          split
          · exact .refused hnew
          · rename_i hfunctor
            rw [hone] at hcount
            refine .filed hnew (not_not.mp hheight) hsender (by rw [hcount]; rfl) ?_
            intro t ht he
            have hmem := hfilter t ht he
            rw [hone] at hmem
            rw [List.mem_singleton.mp hmem]
            exact hfunctor
        · exact .refused hnew

/-- `addValidatorTx` changes nothing, or files a transaction of a participant for the next
    block whose functor the participant has not used yet. -/
theorem addValidatorTx_cases (latestHeight : UInt64) (r : RdPoS) (tx : TxValidator) :
    (r.addValidatorTx C latestHeight tx).2 = r ∨
      (r.addValidatorTx C latestHeight tx).2 =
          { r with validatorMempool := r.validatorMempool.emplace (tx.hash C true) tx } ∧
        tx.hash C true ∉ r.validatorMempool ∧ tx.nHeight = latestHeight + 1 ∧
        tx.sender ∈ r.participants ∧
        ∀ t ∈ r.pool, t.sender = tx.sender → t.data.take 4 ≠ tx.data.take 4 := by
  have hrun := addValidatorTx_run (C := C) latestHeight r tx
  generalize r.addValidatorTx C latestHeight tx = result at hrun ⊢
  cases hrun with
  | known => exact Or.inl rfl
  | refused => exact Or.inl rfl
  | filed hnew hheight hsender _ hfunctor =>
    exact Or.inr ⟨rfl, hnew, hheight, hsender, hfunctor⟩

theorem addValidatorTx_state (latestHeight : UInt64) (r : RdPoS) (tx : TxValidator) :
    ∃ validatorMempool,
      (r.addValidatorTx C latestHeight tx).2 = { r with validatorMempool } := by
  rcases addValidatorTx_cases (C := C) latestHeight r tx with h | ⟨h, -⟩
  · exact ⟨r.validatorMempool, h⟩
  · exact ⟨_, h⟩

/-- What the admission rules guarantee about the mempool. -/
structure Admitted (C : Crypto) (latestHeight : UInt64) (r : RdPoS) : Prop where
  filed : ∀ e ∈ r.validatorMempool.entries, e.1 = e.2.hash C true
  heights : ∀ tx ∈ r.pool, tx.nHeight = latestHeight + 1
  senders : ∀ tx ∈ r.pool, tx.sender ∈ r.participants
  /-- No participant uses a functor twice. -/
  functors : r.pool.Pairwise fun t u => t.sender = u.sender → t.data.take 4 ≠ u.data.take 4

theorem admitted_of_empty {latestHeight : UInt64} {r : RdPoS} (h : r.validatorMempool = ∅) :
    Admitted C latestHeight r := by
  have hpool : r.pool = [] := by rw [pool, h]; rfl
  refine ⟨fun e he => ?_, fun tx htx => ?_, fun tx htx => ?_, by rw [hpool]; exact .nil⟩
  · rw [h] at he; cases he
  · rw [hpool] at htx; cases htx
  · rw [hpool] at htx; cases htx

theorem pool_emplace {r : RdPoS} {tx : TxValidator} (h : tx.hash C true ∉ r.validatorMempool) :
    RdPoS.pool { r with validatorMempool := r.validatorMempool.emplace (tx.hash C true) tx } =
      tx :: r.pool := by
  show List.map _ (AssocMap.emplace _ _ _).entries = _
  rw [AssocMap.entries_emplace_of_notMem _ h]
  rfl

theorem Admitted.add {latestHeight : UInt64} {r : RdPoS} (h : Admitted C latestHeight r)
    (tx : TxValidator) : Admitted C latestHeight (r.addValidatorTx C latestHeight tx).2 := by
  rcases addValidatorTx_cases (C := C) latestHeight r tx with hsame | ⟨hadd, hnew, hheight,
    hsender, hfunctor⟩
  · rw [hsame]; exact h
  · rw [hadd]
    have hpool := pool_emplace (C := C) hnew
    refine ⟨fun e he => ?_, fun t ht => ?_, fun t ht => ?_, ?_⟩
    · change e ∈ (AssocMap.emplace _ _ _).entries at he
      rw [AssocMap.entries_emplace_of_notMem _ hnew] at he
      rcases List.mem_cons.mp he with rfl | he
      · rfl
      · exact h.filed e he
    · rw [hpool] at ht
      rcases List.mem_cons.mp ht with rfl | ht
      · exact hheight
      · exact h.heights t ht
    · rw [hpool] at ht
      rcases List.mem_cons.mp ht with rfl | ht
      · exact hsender
      · exact h.senders t ht
    · rw [hpool, List.pairwise_cons]
      exact ⟨fun t ht he => (hfunctor t ht he.symm).symm, h.functors⟩

/-- A participant's transaction is determined by its functor. -/
theorem Admitted.unique {latestHeight : UInt64} {r : RdPoS} (h : Admitted C latestHeight r)
    {t u : TxValidator} (ht : t ∈ r.pool) (hu : u ∈ r.pool) (hsender : t.sender = u.sender)
    (hfunctor : t.data.take 4 = u.data.take 4) : t = u := by
  by_contra hne
  have hsymm : Std.Symm fun t u : TxValidator =>
      t.sender = u.sender → t.data.take 4 ≠ u.data.take 4 :=
    ⟨fun x y hxy he => (hxy he.symm).symm⟩
  exact h.functors.forall ht hu hne hsender hfunctor

/-- The hash of a transaction of the mempool determines it: it is its key. -/
theorem Admitted.hash_inj {latestHeight : UInt64} {r : RdPoS} (h : Admitted C latestHeight r)
    {t u : TxValidator} (ht : t ∈ r.pool) (hu : u ∈ r.pool)
    (he : t.hash C true = u.hash C true) : t = u := by
  obtain ⟨e, hmem, rfl⟩ := List.mem_map.mp ht
  obtain ⟨f, hmem', rfl⟩ := List.mem_map.mp hu
  have hl : r.validatorMempool.lookup e.1 = some e.2 := AList.mem_lookup_iff.mpr hmem
  have hl' : r.validatorMempool.lookup f.1 = some f.2 := AList.mem_lookup_iff.mpr hmem'
  rw [h.filed e hmem, he, ← h.filed f hmem', hl'] at hl
  exact (Option.some.inj hl).symm

namespace Round

variable {r : RdPoS} {nHeight : UInt64} {hashes seeds : List TxValidator}

theorem length_hashes (h : Round C r nHeight hashes seeds) : hashes.length = minValidators := by
  rw [← h.full, ← h.hashSenders, List.length_map]

theorem length_seeds (h : Round C r nHeight hashes seeds) : seeds.length = minValidators := by
  rw [← h.full, ← h.seedSenders, List.length_map]

end Round

theorem getElem?_participants (r : RdPoS) {i : Nat} (hi : i < minValidators) :
    r.participants[i]? = r.randomList[i + 1]? := by
  rw [participants, List.getElem?_take_of_lt hi, List.getElem?_drop, Nat.add_comm]

theorem senders_of_randomList {r : RdPoS} (hfull : r.participants.length = minValidators)
    {txs : List TxValidator} (hlen : txs.length = minValidators)
    (h : ∀ i < minValidators, (txs[i]?).map TxValidator.sender = r.randomList[i + 1]?) :
    txs.map TxValidator.sender = r.participants := by
  refine List.ext_getElem? fun i => ?_
  by_cases hi : i < minValidators
  · rw [getElem?_participants r hi, List.getElem?_map]
    exact h i hi
  · rw [List.getElem?_eq_none (by rw [List.length_map]; omega),
      List.getElem?_eq_none (by omega)]

private theorem map_hash_zip {hashes seeds : List TxValidator}
    (hlen : hashes.length ≤ seeds.length) :
    ((hashes.zip seeds).map fun p => p.1.hash C true) = hashes.map fun tx => tx.hash C true := by
  have hfst : (hashes.zip seeds).map Prod.fst = hashes := List.map_fst_zip hlen
  have hmap := congrArg (List.map fun tx : TxValidator => tx.hash C true) hfst
  rwa [List.map_map] at hmap

private theorem entries_txHashToSeedMap {hashes seeds : List TxValidator}
    (hlen : hashes.length = minValidators) (hlen' : seeds.length = minValidators)
    (hnd : (hashes.map fun tx => tx.hash C true).Nodup) :
    (txHashToSeedMap C (hashes ++ seeds)).entries =
      ((hashes.zip seeds).map fun p => ⟨p.1.hash C true, p⟩).reverse := by
  have hall := AssocMap.entries_emplaceAll (m := (∅ : AssocMap Hash (TxValidator × TxValidator)))
    (l := hashes.zip seeds) (f := fun p => p.1.hash C true) (g := fun p => p)
    (by rw [map_hash_zip (by omega)]; exact hnd) (fun p _ hm => by cases hm)
  unfold txHashToSeedMap
  rw [List.take_append_of_le_length (by omega), List.drop_append_of_le_length (by omega),
    List.take_of_length_le (by omega), List.drop_of_length_le (by omega), List.nil_append]
  exact hall.trans (List.append_nil _)

private theorem nodup_of_txHashToSeedMap {txs : List TxValidator}
    (hlen : txs.length = minValidators * 2)
    (hsize : (txHashToSeedMap C txs).entries.length = minValidators) :
    ((txs.take minValidators).map fun tx => tx.hash C true).Nodup := by
  have hhashes : (txs.take minValidators).length = minValidators := by
    rw [List.length_take]
    omega
  have hseeds : (txs.drop minValidators).length = minValidators := by
    rw [List.length_drop]
    omega
  have hgrow := AssocMap.nodup_of_length_emplaceAll
    (m := (∅ : AssocMap Hash (TxValidator × TxValidator)))
    (l := (txs.take minValidators).zip (txs.drop minValidators))
    (f := fun p => p.1.hash C true) (g := fun p => p)
    (by
      rw [List.length_zip, hhashes, hseeds]
      exact hsize.ge)
  have hle : (txs.take minValidators).length ≤ (txs.drop minValidators).length := by omega
  rw [← map_hash_zip hle]
  exact hgrow.1

/-- **What `validateBlock` accepts.** -/
theorem validateBlock_iff {r : RdPoS} {block : Block} :
    r.validateBlock C block = true ↔
      block.finalized = true ∧
        r.randomList[0]? = some (Secp256k1.toAddress C block.validatorPubKey) ∧
        ∃ hashes seeds, block.txValidators = hashes ++ seeds ∧
          Round C r block.nHeight hashes seeds := by
  simp only [validateBlock, Bool.and_eq_true, decide_eq_true_eq, List.all_eq_true, List.mem_range]
  constructor
  · rintro ⟨⟨⟨⟨⟨⟨hfin, hsig⟩, hlen⟩, hheight⟩, hsender⟩, hsize⟩, hvalid⟩
    refine ⟨hfin, hsig.symm, block.txValidators.take minValidators,
      block.txValidators.drop minValidators, (List.take_append_drop _ _).symm, ?_⟩
    have hhashes : (block.txValidators.take minValidators).length = minValidators := by
      rw [List.length_take]; omega
    have hseeds : (block.txValidators.drop minValidators).length = minValidators := by
      rw [List.length_drop]; omega
    -- The last comparison of the loop finds an entry, so the list has five of them.
    have hfull : r.participants.length = minValidators := by
      have hlast : 3 < block.txValidators.length := by rw [hlen]; decide
      have hsome := (hsender 3 (by decide)).1
      rw [List.getElem?_eq_getElem hlast, Option.map_some,
        ← getElem?_participants r (by decide)] at hsome
      have hbound := (List.getElem?_eq_some_iff.mp hsome.symm).1
      have hle : r.participants.length ≤ minValidators := List.length_take_le _ _
      exact Nat.le_antisymm hle hbound
    have hnd := nodup_of_txHashToSeedMap hlen hsize
    refine ⟨hfull, senders_of_randomList hfull hhashes fun i hi => ?_,
      senders_of_randomList hfull hseeds fun i hi => ?_, ?_, hnd, ?_⟩
    · rw [List.getElem?_take_of_lt hi]
      exact (hsender i hi).1
    · rw [List.getElem?_drop, Nat.add_comm]
      exact (hsender i hi).2
    · rw [List.take_append_drop]
      exact hheight
    · have hentries := entries_txHashToSeedMap hhashes hseeds hnd
      rw [List.take_append_drop] at hentries
      intro p hp
      refine hvalid ⟨p.1.hash C true, p⟩ ?_
      rw [hentries, List.mem_reverse]
      exact List.mem_map_of_mem hp
  · rintro ⟨hfin, hsig, hashes, seeds, heq, hround⟩
    have hhashes := hround.length_hashes
    have hseeds := hround.length_seeds
    have hentries := entries_txHashToSeedMap hhashes hseeds hround.distinct
    rw [← heq] at hentries
    refine ⟨⟨⟨⟨⟨⟨hfin, hsig.symm⟩, ?_⟩, ?_⟩, ?_⟩, ?_⟩, ?_⟩
    · rw [heq, List.length_append, hhashes, hseeds]
      rfl
    · rw [heq]; exact hround.heights
    · intro i hi
      have hhash := congrArg (fun l => l[i]?) hround.hashSenders
      have hseed := congrArg (fun l => l[i]?) hround.seedSenders
      simp only [List.getElem?_map] at hhash hseed
      rw [heq, ← getElem?_participants r hi, List.getElem?_append_left (by omega),
        List.getElem?_append_right (by omega), hhashes, Nat.add_sub_cancel]
      exact ⟨hhash, hseed⟩
    · rw [hentries, List.length_reverse, List.length_map, List.length_zip, hhashes, hseeds]
      rfl
    · intro e he
      rw [hentries, List.mem_reverse] at he
      obtain ⟨p, hp, rfl⟩ := List.mem_map.mp he
      exact hround.valid p hp

end RdPoS

end OrbiterSdk

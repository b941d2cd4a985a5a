import OrbiterSdk.Core.Recorded
import OrbiterSdk.Core.Schedule

namespace OrbiterSdk

/-!
# The block producer

`Syncer::doValidatorBlock` of `core/blockchain.cpp`: the validator whose turn it is takes the
validator transactions of its mempool, brings them into the order a block needs, and signs.
The two ordering loops run until they have found what they look for.

* `orderLoop` — such a loop, with the number of passes over the mempool it may make;
* `orderLoop_collected`, `orderLoop_of_collected` — it ends exactly when every participant has
  sent the functor;
* `doValidatorBlock_accepted` — the loops end and the block is valid exactly when every
  participant has sent a randomHash transaction and the random transaction that opens it.
-/

variable {C : Crypto}

namespace Syncer

/-! ### The ordering loops -/

/-- The inner `for` of an ordering loop: the first transaction of `a` with the functor. -/
def findTx (mempool : List TxValidator) (functor : Bytes) (a : Address) : Option TxValidator :=
  mempool.find? fun tx => tx.sender = a && tx.data.take 4 = functor

/-- `while (txs.size() != rdPoS::minValidators)`, for at most `fuel` passes over the mempool;
    `none` when the loop is still running then.  A pass looks for a transaction of
    `randomList[i]`. -/
def orderLoop (mempool : List TxValidator) (randomList : List Address) (functor : Bytes) :
    Nat → Nat → List TxValidator → Option (List TxValidator)
  | 0, _, txs => if txs.length = minValidators then some txs else none
  | fuel + 1, i, txs =>
    if txs.length = minValidators then some txs
    else
      match (randomList[i]?).bind (findTx mempool functor) with
      | some tx => orderLoop mempool randomList functor fuel (i + 1) (txs ++ [tx])
      | none => orderLoop mempool randomList functor fuel i txs

theorem findTx_eq_some {mempool : List TxValidator} {functor : Bytes} {a : Address}
    {tx : TxValidator} (h : findTx mempool functor a = some tx) :
    tx ∈ mempool ∧ tx.sender = a ∧ tx.data.take 4 = functor := by
  have hp := List.find?_some h
  simp only [Bool.and_eq_true, decide_eq_true_eq] at hp
  exact ⟨List.mem_of_find?_eq_some h, hp.1, hp.2⟩

theorem findTx_isSome {mempool : List TxValidator} {functor : Bytes} {a : Address} :
    (∃ tx, findTx mempool functor a = some tx) ↔
      ∃ tx ∈ mempool, tx.sender = a ∧ tx.data.take 4 = functor := by
  constructor
  · rintro ⟨tx, h⟩
    exact ⟨tx, findTx_eq_some h⟩
  · rintro ⟨tx, hmem, hsender, hfunctor⟩
    refine Option.isSome_iff_exists.mp (List.find?_isSome.mpr ⟨tx, hmem, ?_⟩)
    simp [hsender, hfunctor]

/-- What a loop collects: one transaction for each address. -/
def Collected (mempool : List TxValidator) (functor : Bytes) (as : List Address)
    (txs : List TxValidator) : Prop :=
  List.Forall₂ (fun a tx => findTx mempool functor a = some tx) as txs

theorem Collected.senders {mempool : List TxValidator} {functor : Bytes} {as : List Address}
    {txs : List TxValidator} (h : Collected mempool functor as txs) :
    txs.map TxValidator.sender = as := by
  induction h with
  | nil => rfl
  | cons hfind _ ih => rw [List.map_cons, (findTx_eq_some hfind).2.1, ih]

/-- A loop that ends has collected for the remaining addresses: induction over the passes. -/
theorem orderLoop_collected {mempool : List TxValidator} {randomList : List Address}
    {functor : Bytes} {fuel i : Nat} {txs out : List TxValidator}
    (h : orderLoop mempool randomList functor fuel i txs = some out)
    (hle : txs.length ≤ minValidators) :
    ∃ found, out = txs ++ found ∧ out.length = minValidators ∧
      Collected mempool functor ((randomList.drop i).take (minValidators - txs.length)) found := by
  induction fuel generalizing i txs with
  | zero =>
    unfold orderLoop at h
    split at h
    · rename_i hlen
      cases h
      refine ⟨[], (List.append_nil _).symm, hlen, ?_⟩
      rw [hlen, Nat.sub_self, List.take_zero]
      exact .nil
    · cases h
  | succ fuel ih =>
    unfold orderLoop at h
    split at h
    · rename_i hlen
      cases h
      refine ⟨[], (List.append_nil _).symm, hlen, ?_⟩
      rw [hlen, Nat.sub_self, List.take_zero]
      exact .nil
    · rename_i hlen
      split at h
      · -- The pass found a transaction: it stands in front of what the rest collects.
        rename_i tx hfind
        obtain ⟨a, ha, htx⟩ := Option.bind_eq_some_iff.mp hfind
        obtain ⟨found, hout, hfull, hcol⟩ := ih h (by simp; omega)
        refine ⟨tx :: found, by rw [hout, List.append_assoc]; rfl, hfull, ?_⟩
        have hrest : minValidators - txs.length =
            minValidators - (txs ++ [tx]).length + 1 := by simp; omega
        obtain ⟨hi, hget⟩ := List.getElem?_eq_some_iff.mp ha
        rw [hrest, List.drop_eq_getElem_cons hi, hget, List.take_succ_cons]
        exact .cons htx hcol
      · exact ih h hle

/-- Enough passes collect what can be collected: induction over the remaining addresses. -/
theorem orderLoop_of_collected {mempool : List TxValidator} {randomList : List Address}
    {functor : Bytes} {n i : Nat} {txs found : List TxValidator}
    (hcol : Collected mempool functor ((randomList.drop i).take n) found)
    (hlen : txs.length + found.length = minValidators) (hn : found.length = n) :
    orderLoop mempool randomList functor n i txs = some (txs ++ found) := by
  induction n generalizing i txs found with
  | zero =>
    rw [List.length_eq_zero_iff] at hn
    subst hn
    rw [orderLoop, if_pos (by simpa using hlen), List.append_nil]
  | succ n ih =>
    cases hdrop : randomList.drop i with
    | nil =>
      rw [hdrop, List.take_nil] at hcol
      cases hcol
      cases hn
    | cons a rest =>
      rw [hdrop, List.take_succ_cons] at hcol
      cases hcol with
      | cons htx hcol =>
        rename_i tx found
        rw [List.length_cons] at hlen hn
        have hi : randomList[i]? = some a := by
          rw [← List.head?_drop, hdrop, List.head?_cons]
        have hrest : rest = randomList.drop (i + 1) := by
          rw [← List.tail_drop, hdrop, List.tail_cons]
        rw [hrest] at hcol
        rw [orderLoop, if_neg (by omega), hi, Option.bind_some, htx]
        show orderLoop mempool randomList functor n (i + 1) (txs ++ [tx]) = _
        rw [ih hcol (by simp; omega) (by omega), List.append_assoc]
        rfl

end Syncer

namespace State

open Syncer

/-- The block of `Syncer::doValidatorBlock` at time `now`, when its loops end within `fuel`
    passes over the mempool copy each: the ordered validator transactions on top of the latest
    block, filled with the transactions of the state's mempool and signed. -/
def doValidatorBlock (C : Crypto) (fuel : Nat) (mempool : List TxValidator) (key : PrivKey)
    (now : UInt64) (s : State) : Option Block := do
  let randomHashTxs ← orderLoop mempool s.rdpos.randomList randomHashHash fuel 1 []
  let randomnessTxs ← orderLoop mempool s.rdpos.randomList randomSeedHash fuel 1 []
  let latestBlock := s.storage.latest
  let block := Block.new (latestBlock.hash C) latestBlock.timestamp (latestBlock.nHeight + 1)
  let block := randomHashTxs.foldl (fun b tx => (b.appendTxValidator tx).2) block
  let block := randomnessTxs.foldl (fun b tx => (b.appendTxValidator tx).2) block
  -- `State::fillBlockWithTransactions`.
  let block := s.mempool.entries.foldl (fun b e => (b.appendTx e.2).2) block
  return (block.finalize C key now).2

/-- The participant has committed to a seed and opened it. -/
def Opened (C : Crypto) (mempool : List TxValidator) (a : Address) : Prop :=
  ∃ hashTx ∈ mempool, ∃ seedTx ∈ mempool, hashTx.sender = a ∧ seedTx.sender = a ∧
    RdPoS.validPair C hashTx seedTx = true

/-- The participant has sent something with either functor. -/
def Answered (mempool : List TxValidator) (a : Address) : Prop :=
  (∃ tx ∈ mempool, tx.sender = a ∧ tx.data.take 4 = randomHashHash) ∧
    ∃ tx ∈ mempool, tx.sender = a ∧ tx.data.take 4 = randomSeedHash

private theorem foldl_appendTxValidator (txs : List TxValidator) (b : Block)
    (hb : b.finalized = false) :
    txs.foldl (fun b tx => (b.appendTxValidator tx).2) b =
      { b with txValidators := b.txValidators ++ txs } := by
  induction txs generalizing b with
  | nil => simp
  | cons tx txs ih =>
    have happ : (b.appendTxValidator tx).2 = { b with txValidators := b.txValidators ++ [tx] } := by
      simp [Block.appendTxValidator, hb]
    rw [List.foldl_cons, happ]
    refine (ih { b with txValidators := b.txValidators ++ [tx] } hb).trans ?_
    simp

private theorem foldl_appendTx (es : List (Sigma fun _ : Hash => TxBlock)) (b : Block)
    (hb : b.finalized = false) :
    es.foldl (fun b e => (b.appendTx e.2).2) b =
      { b with txs := b.txs ++ es.map fun e => e.2 } := by
  induction es generalizing b with
  | nil => simp
  | cons e es ih =>
    have happ : (b.appendTx e.2).2 = { b with txs := b.txs ++ [e.2] } := by
      simp [Block.appendTx, hb]
    rw [List.foldl_cons, happ]
    refine (ih { b with txs := b.txs ++ [e.2] } hb).trans ?_
    simp

theorem doValidatorBlock_eq_some {s : State} {mempool : List TxValidator} {key : PrivKey}
    {now : UInt64} {fuel : Nat} {block : Block}
    (h : s.doValidatorBlock C fuel mempool key now = some block) :
    ∃ hashes seeds, hashes.length = minValidators ∧ seeds.length = minValidators ∧
      Collected mempool randomHashHash s.rdpos.participants hashes ∧
      Collected mempool randomSeedHash s.rdpos.participants seeds ∧
      (s.storage.latest.timestamp ≤ now → block.txValidators = hashes ++ seeds ∧
        block.finalized = true ∧ block.nHeight = s.storage.latest.nHeight + 1) := by
  unfold doValidatorBlock at h
  obtain ⟨hashes, hhashes, h⟩ := Option.bind_eq_some_iff.mp h
  obtain ⟨seeds, hseeds, h⟩ := Option.bind_eq_some_iff.mp h
  obtain ⟨found, hout, hlen, hcol⟩ := orderLoop_collected hhashes (Nat.zero_le _)
  obtain ⟨found', hout', hlen', hcol'⟩ := orderLoop_collected hseeds (Nat.zero_le _)
  rw [List.nil_append] at hout hout'
  subst hout hout'
  refine ⟨hashes, seeds, hlen, hlen', hcol, hcol', fun hnow => ?_⟩
  simp only [Block.new, foldl_appendTxValidator, foldl_appendTx, List.nil_append] at h
  cases h
  have hlt : ¬ now < s.storage.latest.timestamp := UInt64.not_lt.mpr hnow
  simp only [Block.finalize, hlt, Bool.false_eq_true, if_false, and_self]

theorem doValidatorBlock_of_answered {s : State} {mempool : List TxValidator} (key : PrivKey)
    (now : UInt64) (hfull : s.rdpos.participants.length = minValidators)
    (h : ∀ a ∈ s.rdpos.participants, Answered mempool a) :
    ∃ block, s.doValidatorBlock C minValidators mempool key now = some block := by
  -- One transaction for every participant can be collected.
  have hcollect : ∀ functor, (∀ a ∈ s.rdpos.participants,
      ∃ tx, findTx mempool functor a = some tx) →
      ∃ out, orderLoop mempool s.rdpos.randomList functor minValidators 1 [] = some out := by
    intro functor hall
    have hex : ∀ as : List Address, (∀ a ∈ as, ∃ tx, findTx mempool functor a = some tx) →
        ∃ found, Collected mempool functor as found := by
      intro as
      induction as with
      | nil => exact fun _ => ⟨[], .nil⟩
      | cons a as ih =>
        intro has
        obtain ⟨tx, htx⟩ := has a (by simp)
        obtain ⟨found, hfound⟩ := ih fun b hb => has b (by simp [hb])
        exact ⟨tx :: found, .cons htx hfound⟩
    obtain ⟨found, hfound⟩ := hex _ hall
    have hlen : found.length = minValidators := by rw [← hfound.length_eq, hfull]
    exact ⟨_, orderLoop_of_collected hfound (by simpa using hlen) hlen⟩
  obtain ⟨hashes, hhashes⟩ := hcollect randomHashHash fun a ha => findTx_isSome.mpr (h a ha).1
  obtain ⟨seeds, hseeds⟩ := hcollect randomSeedHash fun a ha => findTx_isSome.mpr (h a ha).2
  unfold doValidatorBlock
  rw [hhashes, hseeds]
  exact ⟨_, rfl⟩

theorem mem_of_collected {mempool : List TxValidator} {functor : Bytes} {as : List Address}
    {txs : List TxValidator} (h : Collected mempool functor as txs) {a : Address} (ha : a ∈ as) :
    ∃ tx ∈ mempool, tx.sender = a ∧ tx.data.take 4 = functor := by
  induction h with
  | nil => cases ha
  | cons hfind _ ih =>
    rcases List.mem_cons.mp ha with rfl | ha
    · exact ⟨_, findTx_eq_some hfind⟩
    · exact ih ha

theorem Opened.answered {mempool : List TxValidator} {a : Address} (h : Opened C mempool a) :
    Answered mempool a := by
  obtain ⟨hashTx, hhash, seedTx, hseed, hsender, hsender', hpair⟩ := h
  simp only [RdPoS.validPair, Bool.and_eq_true, decide_eq_true_eq] at hpair
  exact ⟨⟨hashTx, hhash, hsender, take_of_getTxValidatorFunction.1 hpair.1.1.2⟩,
    ⟨seedTx, hseed, hsender', take_of_getTxValidatorFunction.2 hpair.1.2⟩⟩

/-- The node after validator transactions were delivered to it. -/
def deliver (C : Crypto) (txs : List TxValidator) (s : State) : State :=
  txs.foldl (fun s tx => (s.addValidatorTx C tx).2) s

/-- Deliveries keep to the admission rules and leave the rest alone: induction over them. -/
theorem deliver_admitted {s : State} (h : RdPoS.Admitted C s.storage.latest.nHeight s.rdpos)
    (txs : List TxValidator) :
    RdPoS.Admitted C s.storage.latest.nHeight (deliver C txs s).rdpos ∧
      (deliver C txs s).rdpos.randomList = s.rdpos.randomList ∧
      (deliver C txs s).storage = s.storage := by
  induction txs generalizing s with
  | nil => exact ⟨h, rfl, rfl⟩
  | cons tx txs ih =>
    obtain ⟨pool, hpool⟩ :=
      RdPoS.addValidatorTx_state (C := C) s.storage.latest.nHeight s.rdpos tx
    have hlist : (s.addValidatorTx C tx).2.rdpos.randomList = s.rdpos.randomList := by
      show (s.rdpos.addValidatorTx C s.storage.latest.nHeight tx).2.randomList = _
      rw [hpool]
    obtain ⟨hadm, hlist', hst⟩ := ih (s := (s.addValidatorTx C tx).2) (h.add tx)
    exact ⟨hadm, hlist'.trans hlist, hst⟩

theorem opened_of_valid {mempool hashes seeds : List TxValidator} {as : List Address}
    (hhashes : Collected mempool randomHashHash as hashes)
    (hseeds : Collected mempool randomSeedHash as seeds)
    (hvalid : ∀ p ∈ hashes.zip seeds, RdPoS.validPair C p.1 p.2 = true) {a : Address}
    (ha : a ∈ as) : Opened C mempool a := by
  induction hhashes generalizing seeds with
  | nil => cases ha
  | cons hfind _ ih =>
    cases hseeds with
    | cons hfind' hrest' =>
      rcases List.mem_cons.mp ha with rfl | ha
      · obtain ⟨hin, hsender, -⟩ := findTx_eq_some hfind
        obtain ⟨hin', hsender', -⟩ := findTx_eq_some hfind'
        exact ⟨_, hin, _, hin', hsender, hsender', hvalid (_, _) List.mem_cons_self⟩
      · exact ih hrest' (fun p hp => hvalid p (List.mem_cons_of_mem _ hp)) ha

/-- When every participant has opened a seed, the collected transactions are a round. -/
theorem round_of_opened {latestHeight : UInt64} {r : RdPoS} {mempool hashes seeds : List TxValidator}
    (hadm : RdPoS.Admitted C latestHeight r) (hpool : mempool.Perm r.pool)
    (hfull : r.participants.length = minValidators) (hnd : r.participants.Nodup)
    (hhashes : Collected mempool randomHashHash r.participants hashes)
    (hseeds : Collected mempool randomSeedHash r.participants seeds)
    (hopen : ∀ a ∈ r.participants, Opened C mempool a) :
    RdPoS.Round C r (latestHeight + 1) hashes seeds := by
  -- A found transaction is the only one of its sender with the functor.
  have hmem : ∀ {functor : Bytes} {as : List Address} {txs : List TxValidator},
      Collected mempool functor as txs → ∀ tx ∈ txs, tx ∈ r.pool := by
    intro functor as txs hcol tx htx
    induction hcol with
    | nil => cases htx
    | cons hfind _ ih =>
      rcases List.mem_cons.mp htx with rfl | htx
      · exact hpool.mem_iff.mp (findTx_eq_some hfind).1
      · exact ih htx
  have hpairs : ∀ {as : List Address} {hs ss : List TxValidator}, (∀ a ∈ as, Opened C mempool a) →
      Collected mempool randomHashHash as hs → Collected mempool randomSeedHash as ss →
      ∀ p ∈ hs.zip ss, RdPoS.validPair C p.1 p.2 = true := by
    intro as hs ss hopen hcol hcol' p hp
    induction hcol generalizing ss with
    | nil => cases hp
    | cons hfind hrest ih =>
      cases hcol' with
      | cons hfind' hrest' =>
        rcases List.mem_cons.mp hp with rfl | hp
        · obtain ⟨hashTx, hhash, seedTx, hseed, hsender, hsender', hpair⟩ := hopen _ List.mem_cons_self
          obtain ⟨hin, hs₁, hf₁⟩ := findTx_eq_some hfind
          obtain ⟨hin', hs₂, hf₂⟩ := findTx_eq_some hfind'
          have hpair' := hpair
          simp only [RdPoS.validPair, Bool.and_eq_true, decide_eq_true_eq] at hpair'
          have hfun := take_of_getTxValidatorFunction.1 hpair'.1.1.2
          have hfun' := take_of_getTxValidatorFunction.2 hpair'.1.2
          rw [hadm.unique (hpool.mem_iff.mp hin) (hpool.mem_iff.mp hhash) (hs₁.trans hsender.symm)
              (hf₁.trans hfun.symm),
            hadm.unique (hpool.mem_iff.mp hin') (hpool.mem_iff.mp hseed)
              (hs₂.trans hsender'.symm) (hf₂.trans hfun'.symm)]
          exact hpair
        · exact ih (fun a ha => hopen a (by simp [ha])) hrest' hp
  refine ⟨hfull, hhashes.senders, hseeds.senders, fun tx htx => ?_, ?_, hpairs hopen hhashes hseeds⟩
  · rcases List.mem_append.mp htx with htx | htx
    · exact hadm.heights tx (hmem hhashes tx htx)
    · exact hadm.heights tx (hmem hseeds tx htx)
  · -- Different participants sent different transactions, which are filed under their hashes.
    refine List.Nodup.map_on (fun t ht u hu he => ?_) ?_
    · exact hadm.hash_inj (hmem hhashes t ht) (hmem hhashes u hu) he
    · refine List.Nodup.of_map TxValidator.sender ?_
      rw [hhashes.senders]
      exact hnd

/-- **The producer's block.**  From an empty mempool, with at least five validators, any
    transactions are delivered.  The ordering loops of the producer end exactly when every
    participant has sent a transaction with either functor; they end and the block, signed by
    `randomList[0]`, is valid exactly when every participant has sent a randomHash transaction
    and the random transaction that opens it. -/
theorem doValidatorBlock_accepted {s₀ s : State} {txs mempool : List TxValidator} {key : PrivKey}
    {now : UInt64} (hempty : s₀.rdpos.validatorMempool = ∅)
    (hperm : s₀.rdpos.randomList.Perm s₀.rdpos.validators) (hset : s₀.rdpos.validators.Nodup)
    (hfive : 5 ≤ s₀.rdpos.validators.length) (hs : s = deliver C txs s₀)
    (hpool : mempool.Perm s.rdpos.pool) (hnow : s.storage.latest.timestamp ≤ now)
    (hsigned : ∀ block, s.doValidatorBlock C minValidators mempool key now = some block →
      s.rdpos.randomList[0]? = some (Secp256k1.toAddress C block.validatorPubKey)) :
    ((∃ fuel block, s.doValidatorBlock C fuel mempool key now = some block) ↔
        ∀ a ∈ s.rdpos.participants, Answered mempool a) ∧
      ((∃ fuel block, s.doValidatorBlock C fuel mempool key now = some block ∧
          s.rdpos.validateBlock C block = true) ↔
        ∀ a ∈ s.rdpos.participants, Opened C mempool a) := by
  subst hs
  have hstart : RdPoS.Admitted C s₀.storage.latest.nHeight s₀.rdpos :=
    RdPoS.admitted_of_empty hempty
  obtain ⟨hadm, hlist, hst⟩ := deliver_admitted hstart txs
  have hparts : (deliver C txs s₀).rdpos.participants =
      (s₀.rdpos.randomList.drop 1).take minValidators := by rw [RdPoS.participants, hlist]
  have hfull : (deliver C txs s₀).rdpos.participants.length = minValidators := by
    have := hperm.length_eq
    rw [hparts, List.length_take, List.length_drop]
    simp only [minValidators]
    omega
  have hnd : (deliver C txs s₀).rdpos.participants.Nodup := by
    rw [hparts]
    have hsub : ((s₀.rdpos.randomList.drop 1).take minValidators).Sublist s₀.rdpos.randomList :=
      (List.take_sublist _ _).trans (List.drop_sublist _ _)
    exact (hperm.nodup_iff.mpr hset).sublist hsub
  constructor
  · constructor
    · rintro ⟨fuel, block, hb⟩ a ha
      obtain ⟨hashes, seeds, -, -, hhashes, hseeds, -⟩ := doValidatorBlock_eq_some hb
      exact ⟨mem_of_collected hhashes ha, mem_of_collected hseeds ha⟩
    · intro h
      exact ⟨minValidators, doValidatorBlock_of_answered key now hfull h⟩
  · constructor
    · rintro ⟨fuel, block, hb, hvalid⟩ a ha
      obtain ⟨hashes, seeds, hlen, -, hhashes, hseeds, hheld⟩ := doValidatorBlock_eq_some hb
      obtain ⟨-, -, hashes', seeds', heq, hround⟩ := RdPoS.validateBlock_iff.mp hvalid
      rw [(hheld hnow).1] at heq
      obtain ⟨rfl, rfl⟩ := List.append_inj heq (hlen.trans hround.length_hashes.symm)
      exact opened_of_valid hhashes hseeds hround.valid ha
    · intro h
      obtain ⟨block, hb⟩ := doValidatorBlock_of_answered key now hfull
        fun a ha => (h a ha).answered (C := C)
      obtain ⟨hashes, seeds, -, -, hhashes, hseeds, hheld⟩ := doValidatorBlock_eq_some hb
      obtain ⟨heq, hfin, hheight⟩ := hheld hnow
      refine ⟨minValidators, block, hb, RdPoS.validateBlock_iff.mpr
        ⟨hfin, hsigned _ hb, hashes, seeds, heq, ?_⟩⟩
      rw [hheight, hst]
      exact round_of_opened hadm hpool hfull hnd hhashes hseeds h

/-- A fresh node with a pending transfer receives the eight transactions of the participants;
    its producer signs a block that is valid. -/
theorem doValidatorBlock_accepted_transfer :
    ∃ s₀ s, genesis Recorded.crypto = .ok s₀ ∧
      s = deliver Recorded.crypto Recorded.validatorTxs
        (s₀.addTx Recorded.crypto Recorded.transfer).2 ∧
      s.rdpos.pool.length = 2 * minValidators ∧
      ∃ fuel block, s.doValidatorBlock Recorded.crypto fuel s.rdpos.pool Recorded.signerKey
          1656356647000000 = some block ∧ s.rdpos.validateBlock Recorded.crypto block = true := by
  have hlook : Recorded.start (fun s₀ =>
      let s₁ := (s₀.addTx Recorded.crypto Recorded.transfer).2
      let s := deliver Recorded.crypto Recorded.validatorTxs s₁
      some (decide (s₁.rdpos.validatorMempool.entries.isEmpty = true ∧
        s₁.rdpos.randomList.Perm s₁.rdpos.validators ∧ s₁.rdpos.validators.Nodup ∧
        5 ≤ s₁.rdpos.validators.length ∧ s.rdpos.pool.length = 2 * minValidators ∧
        s.storage.latest.timestamp ≤ 1656356647000000 ∧
        (s.doValidatorBlock Recorded.crypto minValidators s.rdpos.pool Recorded.signerKey
          1656356647000000).map (fun b => Secp256k1.toAddress Recorded.crypto b.validatorPubKey) =
            s.rdpos.randomList[0]? ∧
        ∀ a ∈ s.rdpos.participants, ∃ hashTx ∈ s.rdpos.pool, ∃ seedTx ∈ s.rdpos.pool,
          hashTx.sender = a ∧ seedTx.sender = a ∧
            RdPoS.validPair Recorded.crypto hashTx seedTx = true))) = some true := by
    decide +kernel
  obtain ⟨s₀, hs₀, hlook⟩ := Recorded.start_eq_some hlook
  obtain ⟨hempty, hperm, hset, hfive, hsize, hnow, hsig, hopen⟩ :=
    of_decide_eq_true (Option.some.inj hlook)
  have hempty' := AList.ext (t := ∅) (List.isEmpty_iff.mp hempty)
  refine ⟨s₀, _, hs₀, rfl, hsize, (doValidatorBlock_accepted hempty' hperm hset hfive rfl
    (List.Perm.refl _) hnow fun block hb => ?_).2.mpr hopen⟩
  rw [← hsig, hb]
  rfl

/-- A fresh node receives the six transactions of three participants and two of the fourth that
    have neither functor.  Its mempool then holds eight transactions, and the first loop of the
    producer runs for ever. -/
theorem doValidatorBlock_rogue :
    ∃ s₀ s, genesis Recorded.crypto = .ok s₀ ∧ 5 ≤ s₀.rdpos.validators.length ∧
      s = deliver Recorded.crypto (Recorded.validatorTxs.take 3 ++
        (Recorded.validatorTxs.drop 4).take 3 ++ Recorded.rogueTxs) s₀ ∧
      s.rdpos.pool.length = 2 * minValidators ∧
      ∀ fuel key now, s.doValidatorBlock Recorded.crypto fuel s.rdpos.pool key now = none := by
  have hlook : Recorded.start (fun s₀ =>
      let s := deliver Recorded.crypto (Recorded.validatorTxs.take 3 ++
        (Recorded.validatorTxs.drop 4).take 3 ++ Recorded.rogueTxs) s₀
      some (decide (5 ≤ s₀.rdpos.validators.length ∧ s.rdpos.pool.length = 2 * minValidators ∧
        ∃ a ∈ s.rdpos.participants, ∀ tx ∈ s.rdpos.pool,
          ¬(tx.sender = a ∧ tx.data.take 4 = randomHashHash)))) = some true := by
    decide +kernel
  obtain ⟨s₀, hs₀, hlook⟩ := Recorded.start_eq_some hlook
  obtain ⟨hfive, hsize, a, ha, hsilent⟩ := of_decide_eq_true (Option.some.inj hlook)
  refine ⟨s₀, _, hs₀, hfive, rfl, hsize, fun fuel key now => ?_⟩
  refine Option.eq_none_iff_forall_ne_some.mpr fun block hb => ?_
  obtain ⟨hashes, seeds, -, -, hhashes, -⟩ := doValidatorBlock_eq_some hb
  obtain ⟨tx, htx, hfrom⟩ := mem_of_collected hhashes ha
  exact hsilent tx htx hfrom

end State

end OrbiterSdk

import OrbiterSdk.Core.Schedule
import OrbiterSdk.Core.TxInjective

namespace OrbiterSdk

/-!
# Validation of a round

`rdPoS::validateBlock` puts the randomHash transactions of a block and the random transactions
they belong to into a map and then checks the entries of the map.  Here the function is
written out with its early exits, its unchecked reads of `randomList` and the `substr` calls
that can throw, and compared with what a round should be.

* `validateBlockChecked` — the function statement by statement;
* `validateBlockChecked_eq` — with five entries in `randomList` it returns what the compact
  `RdPoS.validateBlock` says;
* `Reveals` — one participant's pair of transactions;
* `distinct_of_senders` — no two pairs fall together in the map: transactions with the same
  hash have the same sender;
* `validateBlock_exact` — it returns true exactly for the blocks of the round.
-/

namespace RdPoS

variable {C : Crypto}

/-! ### The function statement by statement -/

/-- `std::vector::operator[]`, which checks nothing. -/
def elementAt {α : Type} (l : List α) (i : Nat) : Except Fail α :=
  match l[i]? with
  | some x => .ok x
  | none => .error .oob

theorem elementAt_of_lt {α : Type} {l : List α} {i : Nat} (h : i < l.length) :
    elementAt l i = .ok l[i] := by
  rw [elementAt, List.getElem?_eq_getElem h]

/-- The loop over the participants: compare the senders and fill `txHashToSeedMap`.  `none` is
    the early exit. -/
def pairUp (C : Crypto) (randomList : List Address) (txs : List TxValidator) :
    Nat → Nat → AssocMap Hash (TxValidator × TxValidator) →
      Except Fail (Option (AssocMap Hash (TxValidator × TxValidator)))
  | 0, _, m => .ok (some m)
  | n + 1, i, m => do
    let hashTx ← elementAt txs i
    if hashTx.sender ≠ (← elementAt randomList (i + 1)) then return none
    let seedTx ← elementAt txs (i + minValidators)
    if seedTx.sender ≠ (← elementAt randomList (i + 1)) then return none
    pairUp C randomList txs n (i + 1) (m.emplace (hashTx.hash C true) (hashTx, seedTx))

/-- The checks of one entry of the map. -/
def checkPair (C : Crypto) (hashTx seedTx : TxValidator) : Except Fail Bool := do
  let hashTxFunction := getTxValidatorFunction hashTx
  let seedTxFunction := getTxValidatorFunction seedTx
  if hashTxFunction = .INVALID then return false
  if seedTxFunction = .INVALID then return false
  if hashTx.sender ≠ seedTx.sender then return false
  if hashTxFunction ≠ .RANDOMHASH then return false
  if seedTxFunction ≠ .RANDOMSEED then return false
  let hash ← liftExn (substrFrom hashTx.data 4)
  let random ← liftExn (substrFrom seedTx.data 4)
  return decide ((C.sha3 random).data = hash)

/-- The loop over the entries of the map. -/
def checkPairs (C : Crypto) : List (TxValidator × TxValidator) → Except Fail Bool
  | [] => .ok true
  | p :: ps => do
    if ← checkPair C p.1 p.2 then checkPairs C ps else return false

/-- `rdPoS::validateBlock`, with everything that could go wrong. -/
def validateBlockChecked (C : Crypto) (r : RdPoS) (block : Block) : Except Fail Bool := do
  if !block.finalized then return false
  if Secp256k1.toAddress C block.validatorPubKey ≠ (← elementAt r.randomList 0) then
    return false
  if block.txValidators.length ≠ minValidators * 2 then return false
  if !block.txValidators.all (fun tx => tx.nHeight = block.nHeight) then return false
  match ← pairUp C r.randomList block.txValidators minValidators 0 ∅ with
  | none => return false
  | some m =>
    if m.entries.length ≠ minValidators then return false
    checkPairs C (m.entries.map fun e => e.2)

/-! ### It returns -/

theorem length_of_getTxValidatorFunction {tx : TxValidator}
    (h : getTxValidatorFunction tx ≠ .INVALID) : tx.data.length = 36 := by
  by_contra hlen
  rw [getTxValidatorFunction, if_pos hlen] at h
  exact h rfl

/-- The `substr` calls come after the checks of the lengths, so they do not throw. -/
theorem checkPair_eq (hashTx seedTx : TxValidator) :
    checkPair C hashTx seedTx = .ok (validPair C hashTx seedTx) := by
  unfold checkPair validPair
  by_cases hhash : getTxValidatorFunction hashTx = .INVALID
  · simp [hhash]
    rfl
  by_cases hseed : getTxValidatorFunction seedTx = .INVALID
  · simp [hhash, hseed]
    rfl
  have hlen := length_of_getTxValidatorFunction hhash
  have hlen' := length_of_getTxValidatorFunction hseed
  have hsub : substrFrom hashTx.data 4 = .ok (hashTx.data.drop 4) := by
    rw [substrFrom, if_neg (by omega)]
  have hsub' : substrFrom seedTx.data 4 = .ok (seedTx.data.drop 4) := by
    rw [substrFrom, if_neg (by omega)]
  by_cases hsender : hashTx.sender = seedTx.sender
  · by_cases hfun : getTxValidatorFunction hashTx = .RANDOMHASH
    · by_cases hfun' : getTxValidatorFunction seedTx = .RANDOMSEED
      · simp [hsender, hfun, hfun', hsub, hsub', liftExn]
        rfl
      · simp [hhash, hseed, hsender, hfun']
        rfl
    · simp [hhash, hseed, hsender, hfun]
      rfl
  · simp [hhash, hseed, hsender]
    rfl

theorem checkPairs_eq (ps : List (TxValidator × TxValidator)) :
    checkPairs C ps = .ok (ps.all fun p => validPair C p.1 p.2) := by
  induction ps with
  | nil => rfl
  | cons p ps ih =>
    rw [checkPairs, checkPair_eq, List.all_cons]
    cases validPair C p.1 p.2 with
    | false => rfl
    | true => exact ih

section

variable {randomList : List Address} {txs : List TxValidator}

/-- The comparisons of the loop at `i`. -/
def ordered (randomList : List Address) (txs : List TxValidator) (i : Nat) : Bool :=
  (txs[i]?).map (·.sender) = randomList[i + 1]? &&
    (txs[i + minValidators]?).map (·.sender) = randomList[i + 1]?

/-- The loop from `i` on, as long as nothing is read out of range: induction over the rounds
    that are left. -/
theorem pairUp_eq (hlist : 5 ≤ randomList.length) (hlen : txs.length = minValidators * 2)
    (n i : Nat) (hi : i + n = minValidators) (m : AssocMap Hash (TxValidator × TxValidator)) :
    pairUp C randomList txs n i m = .ok
      (if (List.range' i n).all (ordered randomList txs) then
        some ((((txs.take minValidators).zip (txs.drop minValidators)).drop i).foldl
          (fun m p => m.emplace (p.1.hash C true) p) m)
      else none) := by
  have hfour : minValidators = 4 := rfl
  induction n generalizing i m with
  | zero =>
    have hdone : ((txs.take minValidators).zip (txs.drop minValidators)).drop i = [] := by
      rw [List.drop_eq_nil_iff, List.length_zip, List.length_take]
      omega
    rw [hdone]
    rfl
  | succ n ih =>
    have hlt : i < ((txs.take minValidators).zip (txs.drop minValidators)).length := by
      rw [List.length_zip, List.length_take, List.length_drop]
      omega
    have hpair : ((txs.take minValidators).zip (txs.drop minValidators))[i] =
        (txs[i], txs[i + minValidators]) := by
      rw [List.getElem_zip, List.getElem_take, List.getElem_drop]
      simp only [Nat.add_comm]
    have hread : elementAt txs i = .ok txs[i] := elementAt_of_lt (by omega)
    have hread' : elementAt txs (i + minValidators) = .ok txs[i + minValidators] :=
      elementAt_of_lt (by omega)
    have hexpect : elementAt randomList (i + 1) = .ok randomList[i + 1] :=
      elementAt_of_lt (by omega)
    have hordered : ordered randomList txs i =
        (decide (txs[i].sender = randomList[i + 1]) &&
          decide (txs[i + minValidators].sender = randomList[i + 1])) := by
      rw [ordered, List.getElem?_eq_getElem (by omega), List.getElem?_eq_getElem (by omega),
        List.getElem?_eq_getElem (by omega)]
      simp only [Option.map_some, Option.some.injEq]
    rw [List.drop_eq_getElem_cons hlt, hpair, List.foldl_cons, List.range'_succ, List.all_cons,
      hordered]
    unfold pairUp
    rw [hread, hread', hexpect]
    show (if _ then _ else _) = _
    by_cases hhash : txs[i].sender = randomList[i + 1]
    · rw [if_neg (not_not.mpr hhash)]
      show (if _ then _ else _) = _
      by_cases hseed : txs[i + minValidators].sender = randomList[i + 1]
      · rw [if_neg (not_not.mpr hseed), ih (i + 1) (by omega), decide_eq_true hhash,
          decide_eq_true hseed]
        rfl
      · rw [if_pos hseed]
        simp [hseed]
        rfl
    · rw [if_pos hhash]
      simp [hhash]
      rfl

end

theorem exit_eq {p : Prop} [Decidable p] {x : Except Fail Bool} {a b : Bool} (hp : p ↔ a = false)
    (hx : a = true → x = .ok b) : (if p then pure false else x) = .ok (a && b) := by
  cases a with
  | false =>
    rw [if_pos (hp.mpr rfl)]
    rfl
  | true =>
    have hno : ¬ p := fun h => by cases hp.mp h
    rw [if_neg hno, hx rfl]
    rfl

/-- **Nothing goes wrong** while `randomList` has the five entries that are read. -/
theorem validateBlockChecked_eq {r : RdPoS} (h : 5 ≤ r.randomList.length) (block : Block) :
    r.validateBlockChecked C block = .ok (r.validateBlock C block) := by
  have hsigner : elementAt r.randomList 0 = .ok r.randomList[0] := elementAt_of_lt (by omega)
  unfold validateBlockChecked validateBlock
  rw [hsigner, List.getElem?_eq_getElem (by omega)]
  simp only [Bool.and_assoc]
  refine exit_eq (by simp) fun _ => ?_
  refine exit_eq (by simp) fun _ => ?_
  refine exit_eq (by simp) fun hlen => ?_
  refine exit_eq (by simp) fun _ => ?_
  rw [pairUp_eq h (of_decide_eq_true hlen) minValidators 0 rfl, ← List.range_eq_range',
    List.drop_zero]
  show _ = Except.ok ((List.range minValidators).all (ordered r.randomList block.txValidators) && _)
  cases (List.range minValidators).all (ordered r.randomList block.txValidators) with
  | false => rfl
  | true =>
    rw [Bool.true_and]
    refine exit_eq decide_eq_false_iff_not.symm fun _ => ?_
    rw [checkPairs_eq, List.all_map]
    rfl

/-! ### The round -/

theorem getTxValidatorFunction_hash {tx : TxValidator} :
    getTxValidatorFunction tx = .RANDOMHASH ↔
      tx.data.length = 36 ∧ tx.data.take 4 = randomHashHash := by
  unfold getTxValidatorFunction
  by_cases hlen : tx.data.length = 36
  · by_cases hhash : tx.data.take 4 = randomHashHash
    · simp [hlen, hhash]
    · by_cases hseed : tx.data.take 4 = randomSeedHash
      · simp [hlen, hseed, randomSeedHash, randomHashHash]
      · simp [hlen, hhash, hseed]
  · simp [hlen]

theorem getTxValidatorFunction_seed {tx : TxValidator} :
    getTxValidatorFunction tx = .RANDOMSEED ↔
      tx.data.length = 36 ∧ tx.data.take 4 = randomSeedHash := by
  unfold getTxValidatorFunction
  by_cases hlen : tx.data.length = 36
  · by_cases hhash : tx.data.take 4 = randomHashHash
    · simp [hlen, hhash, randomSeedHash, randomHashHash]
    · by_cases hseed : tx.data.take 4 = randomSeedHash
      · simp [hlen, hseed, randomSeedHash, randomHashHash]
      · simp [hlen, hhash, hseed]
  · simp [hlen]

/-- What the participant `a` has to contribute to a block: a randomHash transaction and the
    random transaction with the seed it commits to. -/
structure Reveals (C : Crypto) (a : Address) (hashTx seedTx : TxValidator) : Prop where
  hashSender : hashTx.sender = a
  seedSender : seedTx.sender = a
  hashSize : hashTx.data.length = 36
  hashFunctor : hashTx.data.take 4 = randomHashHash
  seedSize : seedTx.data.length = 36
  seedFunctor : seedTx.data.take 4 = randomSeedHash
  /-- Bytes 4 to 36 of the one are the hash of bytes 4 to 36 of the other. -/
  commitment : (hashTx.data.drop 4).take 32 = (C.sha3 ((seedTx.data.drop 4).take 32)).data

theorem reveals_iff {a : Address} {hashTx seedTx : TxValidator} :
    Reveals C a hashTx seedTx ↔
      hashTx.sender = a ∧ seedTx.sender = a ∧ validPair C hashTx seedTx = true := by
  have hall : ∀ {data : Bytes}, data.length = 36 → (data.drop 4).take 32 = data.drop 4 := by
    intro data hlen
    exact List.take_of_length_le (by rw [List.length_drop]; omega)
  simp only [validPair, Bool.and_eq_true, decide_eq_true_eq]
  constructor
  · rintro ⟨hsender, hsender', hlen, hfun, hlen', hfun', hcommit⟩
    have hhash := getTxValidatorFunction_hash.mpr ⟨hlen, hfun⟩
    have hseed := getTxValidatorFunction_seed.mpr ⟨hlen', hfun'⟩
    rw [hall hlen, hall hlen'] at hcommit
    refine ⟨hsender, hsender', ⟨⟨⟨⟨?_, ?_⟩, ?_⟩, hhash⟩, hseed⟩, hcommit.symm⟩
    · rw [hhash]
      decide
    · rw [hseed]
      decide
    · rw [hsender, hsender']
  · rintro ⟨hsender, hsender', ⟨⟨⟨⟨-, -⟩, -⟩, hhash⟩, hseed⟩, hcommit⟩
    obtain ⟨hlen, hfun⟩ := getTxValidatorFunction_hash.mp hhash
    obtain ⟨hlen', hfun'⟩ := getTxValidatorFunction_seed.mp hseed
    refine ⟨hsender, hsender', hlen, hfun, hlen', hfun', ?_⟩
    rw [hall hlen, hall hlen']
    exact hcommit.symm

/-- The block is the one of the round: signed by the first of `randomList`, with the pairs of
    the next four in order. -/
structure ExactRound (C : Crypto) (r : RdPoS) (block : Block) : Prop where
  finalized : block.finalized = true
  signer : r.randomList[0]? = some (Secp256k1.toAddress C block.validatorPubKey)
  size : block.txValidators.length = 8
  heights : ∀ tx ∈ block.txValidators, tx.nHeight = block.nHeight
  reveals : ∀ i < 4, ∃ a hashTx seedTx, r.randomList[i + 1]? = some a ∧
    block.txValidators[i]? = some hashTx ∧ block.txValidators[i + 4]? = some seedTx ∧
    Reveals C a hashTx seedTx

theorem randomList_of_senders {r : RdPoS} {txs : List TxValidator}
    (h : txs.map TxValidator.sender = r.participants) {i : Nat} (hi : i < 4)
    (hlen : i < txs.length) : r.randomList[i + 1]? = some txs[i].sender := by
  rw [← getElem?_participants r hi, ← h, List.getElem?_map, List.getElem?_eq_getElem hlen,
    Option.map_some]

theorem Round.exact {r : RdPoS} {block : Block} {hashes seeds : List TxValidator}
    (h : Round C r block.nHeight hashes seeds) (heq : block.txValidators = hashes ++ seeds)
    (hfin : block.finalized = true)
    (hsig : r.randomList[0]? = some (Secp256k1.toAddress C block.validatorPubKey)) :
    ExactRound C r block := by
  have hhashes : hashes.length = 4 := h.length_hashes
  have hseeds : seeds.length = 4 := h.length_seeds
  refine ⟨hfin, hsig, ?_, ?_, fun i hi => ?_⟩
  · rw [heq, List.length_append, hhashes, hseeds]
  · rw [heq]
    exact h.heights
  · have hi' : i < hashes.length := by omega
    have hj' : i < seeds.length := by omega
    have hzip : (hashes[i], seeds[i]) ∈ hashes.zip seeds := by
      rw [← List.getElem_zip (i := i) (h := by rw [List.length_zip]; omega)]
      exact List.getElem_mem _
    have hsender := randomList_of_senders h.hashSenders hi hi'
    have hsender' := randomList_of_senders h.seedSenders hi hj'
    refine ⟨hashes[i].sender, hashes[i], seeds[i], hsender, ?_, ?_, ?_⟩
    · rw [heq, List.getElem?_append_left hi', List.getElem?_eq_getElem hi']
    · rw [heq, List.getElem?_append_right (by omega), hhashes, Nat.add_sub_cancel,
        List.getElem?_eq_getElem hj']
    · refine reveals_iff.mpr ⟨rfl, ?_, h.valid (hashes[i], seeds[i]) hzip⟩
      exact Option.some.inj (hsender'.symm.trans hsender)

namespace ExactRound

variable {r : RdPoS} {block : Block}

/-- The fifth entry of `randomList` is the last one that is needed. -/
theorem full (h : ExactRound C r block) : r.participants.length = 4 := by
  obtain ⟨a, -, -, ha, -⟩ := h.reveals 3 (by decide)
  rw [← getElem?_participants r (by decide)] at ha
  have hlt := (List.getElem?_eq_some_iff.mp ha).1
  have hle : r.participants.length ≤ 4 := List.length_take_le _ _
  omega

theorem hashSenders (h : ExactRound C r block) :
    (block.txValidators.take 4).map TxValidator.sender = r.participants := by
  have hsize := h.size
  have hlen : (block.txValidators.take 4).length = 4 := by
    rw [List.length_take]
    omega
  refine senders_of_randomList h.full hlen fun i hi => ?_
  obtain ⟨a, hashTx, seedTx, ha, hhash, -, hreveals⟩ := h.reveals i hi
  rw [List.getElem?_take_of_lt (show i < 4 from hi), hhash, ha, Option.map_some,
    hreveals.hashSender]

theorem seedSenders (h : ExactRound C r block) :
    (block.txValidators.drop 4).map TxValidator.sender = r.participants := by
  have hsize := h.size
  have hlen : (block.txValidators.drop 4).length = 4 := by
    rw [List.length_drop]
    omega
  refine senders_of_randomList h.full hlen fun i hi => ?_
  obtain ⟨a, hashTx, seedTx, ha, -, hseed, hreveals⟩ := h.reveals i hi
  rw [List.getElem?_drop, Nat.add_comm, hseed, ha, Option.map_some, hreveals.seedSender]

/-- The list form: the first half of the transactions and the second. -/
theorem round (h : ExactRound C r block)
    (hdistinct : ((block.txValidators.take 4).map fun tx => tx.hash C true).Nodup) :
    Round C r block.nHeight (block.txValidators.take 4) (block.txValidators.drop 4) := by
  have hsize := h.size
  refine ⟨h.full, h.hashSenders, h.seedSenders, ?_, hdistinct, ?_⟩
  · rw [List.take_append_drop]
    exact h.heights
  · intro p hp
    obtain ⟨i, hi, rfl⟩ := List.getElem_of_mem hp
    have hi4 : i < 4 := by
      rw [List.length_zip, List.length_take] at hi
      omega
    obtain ⟨a, hashTx, seedTx, -, hhash, hseed, hreveals⟩ := h.reveals i hi4
    obtain ⟨_, hhash⟩ := List.getElem?_eq_some_iff.mp hhash
    obtain ⟨_, hseed⟩ := List.getElem?_eq_some_iff.mp hseed
    rw [List.getElem_zip, List.getElem_take, List.getElem_drop]
    simp only [Nat.add_comm 4 i, hhash, hseed]
    exact (reveals_iff.mp hreveals).2.2

end ExactRound

/-! ### No two pairs fall together -/

end RdPoS

namespace TxValidator

/-- The address recovered from the signature, with the chain id in `v`, as the constructor from
    bytes does it. -/
def recovered (C : Crypto) (tx : TxValidator) : Address :=
  Secp256k1.toAddress C ((ofFields ⟨tx.data, tx.nHeight, tx.v, tx.r, tx.s⟩).senderKey C)

theorem recovered_of_parse {C : Crypto} {bytes : Bytes} {chainId : UInt64} {tx : TxValidator}
    (h : parse C bytes chainId = .ok tx) : tx.sender = tx.recovered C := by
  rw [parse_eq] at h
  obtain ⟨f, -, hsend⟩ := Except.bind_eq_ok.mp h
  obtain ⟨-, -, -, -, rfl⟩ := recoverSender_eq_ok.mp hsend
  rfl

theorem recovered_congr (C : Crypto) {tx tx' : TxValidator}
    (h : tx.rlpSerialize true = tx'.rlpSerialize true) : tx.recovered C = tx'.recovered C := by
  obtain ⟨hdata, hheight, hv, hr, hs⟩ := same_of_rlpSerialize_true h
  rw [recovered, recovered, hdata, hheight, hv, hr, hs]

end TxValidator

namespace RdPoS

theorem distinct_of_senders {txs : List TxValidator}
    (hinj : ∀ t ∈ txs, ∀ u ∈ txs, C.sha3 (t.rlpSerialize true) = C.sha3 (u.rlpSerialize true) →
      t.rlpSerialize true = u.rlpSerialize true)
    (hrecovered : ∀ tx ∈ txs, tx.sender = tx.recovered C)
    (hsenders : (txs.map TxValidator.sender).Nodup) :
    (txs.map fun tx => tx.hash C true).Nodup := by
  rw [List.Nodup, List.pairwise_map] at hsenders ⊢
  refine hsenders.imp_of_mem fun {t u} ht hu hne heq => hne ?_
  rw [hrecovered t ht, hrecovered u hu]
  exact TxValidator.recovered_congr C (hinj t ht u hu heq)

/-! ### The states of rdPoS -/

/-- What changes the state of rdPoS. -/
inductive Event where
  | addValidatorTx (latestHeight : UInt64) (tx : TxValidator)
  | processBlock (block : Block)

/-- The state after an event; `processBlock` throws before it changes anything. -/
def Event.apply (C : Crypto) : Event → RdPoS → Option RdPoS
  | .addValidatorTx latestHeight tx, r => some (r.addValidatorTx C latestHeight tx).2
  | .processBlock block, r =>
    match r.processBlock C block with
    | .ok r' => some r'
    | .error _ => some r

/-- `randomList` is the set of validators in some order. -/
structure Shuffled (r : RdPoS) : Prop where
  nodup : r.validators.Nodup
  perm : r.randomList.Perm r.validators

theorem shuffled_of_load {db : AssocMap Bytes Address} {latest : Block} {r : RdPoS}
    (h : load C db latest = .ok r) : r.Shuffled := by
  obtain ⟨hvals, hlist, -⟩ := load_ok h
  refine ⟨?_, ?_⟩
  · rw [hvals]
    exact validatorSet_nodup _
  · rw [hlist]
    exact Shuffle.shuffle_perm _ _ _ _

theorem Shuffled.step {r r' : RdPoS} {event : Event} (h : r.Shuffled)
    (hs : event.apply C r = some r') : r'.Shuffled := by
  cases event with
  | addValidatorTx latestHeight tx =>
    cases hs
    obtain ⟨pool, hpool⟩ := addValidatorTx_state (C := C) latestHeight r tx
    rw [hpool]
    exact ⟨h.nodup, h.perm⟩
  | processBlock block =>
    simp only [Event.apply] at hs
    split at hs
    · rename_i r₁ hr
      cases hs
      obtain ⟨hvals, hlist, -⟩ := processBlock_ok hr
      refine ⟨hvals ▸ h.nodup, ?_⟩
      rw [hlist, hvals]
      exact Shuffle.shuffle_perm _ _ _ _
    · cases hs
      exact h

theorem shuffled_of_run {db : AssocMap Bytes Address} {latest : Block} {r₀ r : RdPoS}
    {events : List Event} (h₀ : load C db latest = .ok r₀)
    (hrun : Machine.run (Event.apply C) events r₀ = some r) : r.Shuffled :=
  Machine.run_invariant (fun _ _ _ h _ hs => h.step hs) (shuffled_of_load h₀)
    (Machine.along_of_forall (P := fun _ _ => True) (fun _ _ => trivial) events r₀) hrun

/-- **Validation of a round is exact.**  Let rdPoS have at least five validators, after any
    events since it was loaded.  If the hash tells the transactions of the block apart and their
    senders are the recovered ones, `validateBlock` returns, and returns true exactly for the
    block of the round. -/
theorem validateBlock_exact {db : AssocMap Bytes Address} {latest : Block} {r₀ r : RdPoS}
    {events : List Event} (h₀ : load C db latest = .ok r₀)
    (hrun : Machine.run (Event.apply C) events r₀ = some r) (hfive : 5 ≤ r.validators.length)
    {block : Block}
    (hinj : ∀ t ∈ block.txValidators, ∀ u ∈ block.txValidators,
      C.sha3 (t.rlpSerialize true) = C.sha3 (u.rlpSerialize true) →
        t.rlpSerialize true = u.rlpSerialize true)
    (hrecovered : ∀ tx ∈ block.txValidators, tx.sender = tx.recovered C) :
    (∃ b, r.validateBlockChecked C block = .ok b) ∧
      (r.validateBlockChecked C block = .ok true ↔ ExactRound C r block) := by
  have hshuffled := shuffled_of_run h₀ hrun
  have hlist : 5 ≤ r.randomList.length := by rw [hshuffled.perm.length_eq]; exact hfive
  rw [validateBlockChecked_eq hlist, Except.ok.injEq, validateBlock_iff]
  refine ⟨⟨_, rfl⟩, ?_, fun h => ⟨h.finalized, h.signer, _, _, (List.take_append_drop 4 _).symm, ?_⟩⟩
  · rintro ⟨hfin, hsig, hashes, seeds, heq, hround⟩
    exact hround.exact heq hfin hsig
  · -- The senders of the first half are four different participants.
    have hmem : ∀ tx ∈ block.txValidators.take 4, tx ∈ block.txValidators :=
      fun tx htx => List.mem_of_mem_take htx
    refine h.round (distinct_of_senders
      (fun t ht u hu => hinj t (hmem t ht) u (hmem u hu)) (fun tx htx => hrecovered tx (hmem tx htx))
      ?_)
    have hnodup : r.participants.Nodup :=
      ((List.take_sublist _ _).trans (List.drop_sublist _ _)).nodup
        (hshuffled.perm.nodup_iff.mpr hshuffled.nodup)
    rw [h.hashSenders]
    exact hnodup

/-- Block 1 with a transfer is the block of the first round. -/
theorem validateBlock_exact_transfer :
    ∃ s, State.genesis Recorded.crypto = .ok s ∧
      s.rdpos.validateBlockChecked Recorded.crypto (Recorded.block [Recorded.transfer]) =
        .ok true ∧
      ExactRound Recorded.crypto s.rdpos (Recorded.block [Recorded.transfer]) := by
  have hlook : Recorded.start (fun s => some (decide
      (s.rdpos.validateBlockChecked Recorded.crypto (Recorded.block [Recorded.transfer]) =
          .ok true ∧
        5 ≤ s.rdpos.validators.length))) = some true := by
    decide +kernel
  obtain ⟨s, hs, hlook⟩ := Recorded.start_eq_some hlook
  obtain ⟨hvalid, hfive⟩ := of_decide_eq_true (Option.some.inj hlook)
  have hrun : Machine.run (Event.apply Recorded.crypto) [] s.rdpos = some s.rdpos := rfl
  have hrecovered : ∀ tx ∈ (Recorded.block [Recorded.transfer]).txValidators,
      tx.sender = tx.recovered Recorded.crypto := by
    decide +kernel
  have hnodup : ((Recorded.block [Recorded.transfer]).txValidators.map fun tx =>
      tx.hash Recorded.crypto true).Nodup := by
    decide +kernel
  have hexact := validateBlock_exact (State.genesis_loaded hs).rdpos hrun hfive
    (fun t ht u hu heq => by rw [List.inj_on_of_nodup_map hnodup ht hu heq]) hrecovered
  exact ⟨s, hs, hvalid, hexact.2.mp hvalid⟩

end RdPoS

end OrbiterSdk

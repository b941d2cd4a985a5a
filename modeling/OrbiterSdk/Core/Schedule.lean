import OrbiterSdk.Core.Mempool
import OrbiterSdk.Core.Recorded

namespace OrbiterSdk

/-!
# The chain and the schedule of validators

Who produces a block, and whose seeds make its randomness, is fixed by the randomness of the
block before it: `rdPoS` shuffles the sorted validator set with that seed.

* `Extends` — what a block has to do with the one before it;
* `Scheduled` — the invariant of every run: the random list is the shuffle of the validator
  set seeded by the latest block;
* `chain_extends` — every block a node accepts extends the one before it;
* `schedule_restart` — a node that reads the database and the latest block has the schedule
  of the node that processed all blocks.
-/

variable {C : Crypto} {depth : Nat}

/-! ### The validator set -/

private theorem foldl_orderedInsert (as s : List Address) (hs : s.Pairwise (· ≤ ·))
    (hnd : s.Nodup) :
    let t := as.foldl (fun s a => if a ∈ s then s else s.orderedInsert (· ≤ ·) a) s
    t.Pairwise (· ≤ ·) ∧ t.Nodup ∧ ∀ a, a ∈ t ↔ a ∈ s ∨ a ∈ as := by
  induction as generalizing s with
  | nil => exact ⟨hs, hnd, by simp⟩
  | cons b as ih =>
    by_cases hb : b ∈ s
    · obtain ⟨h₁, h₂, h₃⟩ := ih s hs hnd
      rw [List.foldl_cons, if_pos hb]
      refine ⟨h₁, h₂, fun a => ?_⟩
      rw [h₃, List.mem_cons]
      constructor
      · rintro (h | h)
        · exact Or.inl h
        · exact Or.inr (Or.inr h)
      · rintro (h | rfl | h)
        · exact Or.inl h
        · exact Or.inl hb
        · exact Or.inr h
    · have hperm := List.perm_orderedInsert (· ≤ ·) b s
      obtain ⟨h₁, h₂, h₃⟩ := ih (s.orderedInsert (· ≤ ·) b) (hs.orderedInsert b s)
        (hperm.nodup_iff.mpr (List.nodup_cons.mpr ⟨hb, hnd⟩))
      rw [List.foldl_cons, if_neg hb]
      refine ⟨h₁, h₂, fun a => ?_⟩
      rw [h₃, List.mem_orderedInsert, List.mem_cons]
      tauto

theorem validatorSet_nodup (as : List Address) : (validatorSet as).Nodup :=
  (foldl_orderedInsert as [] List.Pairwise.nil List.nodup_nil).2.1

theorem mem_validatorSet {as : List Address} {a : Address} : a ∈ validatorSet as ↔ a ∈ as := by
  have h : a ∈ validatorSet as ↔ a ∈ [] ∨ a ∈ as :=
    (foldl_orderedInsert as [] List.Pairwise.nil List.nodup_nil).2.2 a
  simpa using h

/-- The set depends on the addresses alone, not on their order or number. -/
theorem validatorSet_congr {as bs : List Address} (h : ∀ a, a ∈ as ↔ a ∈ bs) :
    validatorSet as = validatorSet bs := by
  have hperm : (validatorSet as).Perm (validatorSet bs) := by
    rw [List.perm_ext_iff_of_nodup (validatorSet_nodup as) (validatorSet_nodup bs)]
    intro a
    rw [mem_validatorSet, mem_validatorSet]
    exact h a
  exact hperm.eq_of_pairwise (fun a b _ _ => FixedStr.le_antisymm)
    (foldl_orderedInsert as [] List.Pairwise.nil List.nodup_nil).1
    (foldl_orderedInsert bs [] List.Pairwise.nil List.nodup_nil).1

namespace RdPoS

/-- The order of the validators after a block. -/
def schedule (C : Crypto) (validators : List Address) (block : Block) : List Address :=
  (RandomGen.shuffle C block.blockRandomness validators).2

/-- The addresses in the database. -/
def addresses (db : AssocMap Bytes Address) : List Address := db.entries.map fun e => e.2

/-- The randomness of a round's transactions is the hash of the seeds, in order. -/
theorem Round.randomness {r : RdPoS} {nHeight : UInt64} {hashes seeds : List TxValidator}
    (h : Round C r nHeight hashes seeds) :
    (∀ tx ∈ seeds, getTxValidatorFunction tx = .RANDOMSEED) ∧
      parseTxSeedList C (hashes ++ seeds) = C.sha3 (seeds.flatMap fun tx => tx.data.drop 4) := by
  have hlen : hashes.length = seeds.length := h.length_hashes.trans h.length_seeds.symm
  have hfst : (hashes.zip seeds).map Prod.fst = hashes := List.map_fst_zip (by omega)
  have hsnd : (hashes.zip seeds).map Prod.snd = seeds := List.map_snd_zip (by omega)
  -- Every transaction is one half of a valid pair.
  have hhash : ∀ tx ∈ hashes, getTxValidatorFunction tx = .RANDOMHASH := by
    intro tx htx
    rw [← hfst] at htx
    obtain ⟨p, hp, rfl⟩ := List.mem_map.mp htx
    have := h.valid p hp
    simp only [validPair, Bool.and_eq_true, decide_eq_true_eq] at this
    exact this.1.1.2
  have hseed : ∀ tx ∈ seeds, getTxValidatorFunction tx = .RANDOMSEED := by
    intro tx htx
    rw [← hsnd] at htx
    obtain ⟨p, hp, rfl⟩ := List.mem_map.mp htx
    have := h.valid p hp
    simp only [validPair, Bool.and_eq_true, decide_eq_true_eq] at this
    exact this.1.2
  refine ⟨hseed, ?_⟩
  unfold parseTxSeedList
  have hne : (hashes ++ seeds).length ≠ 0 := by
    rw [List.length_append, h.length_seeds]
    simp [minValidators]
  rw [if_neg hne, List.flatMap_append]
  -- The hash transactions add nothing, a seed is all of the 32 bytes after the functor.
  have hnone : (hashes.flatMap fun tx =>
      if getTxValidatorFunction tx = .RANDOMSEED then (tx.data.drop 4).take 32 else []) = [] := by
    rw [List.flatMap_eq_nil_iff]
    intro tx htx
    rw [hhash tx htx, if_neg (by decide)]
  have hall : (seeds.flatMap fun tx =>
      if getTxValidatorFunction tx = .RANDOMSEED then (tx.data.drop 4).take 32 else []) =
        seeds.flatMap fun tx => tx.data.drop 4 := by
    refine List.flatMap_congr fun tx htx => ?_
    have hsize : tx.data.length = 36 := by
      by_contra hsize
      have := hseed tx htx
      rw [getTxValidatorFunction, if_pos hsize] at this
      cases this
    rw [hseed tx htx, if_pos rfl, List.take_of_length_le (by rw [List.length_drop]; omega)]
  rw [hnone, hall, List.nil_append]

theorem load_ok {db : AssocMap Bytes Address} {latest : Block} {r : RdPoS}
    (h : load C db latest = .ok r) :
    r.validators = validatorSet (addresses db) ∧
      r.randomList = schedule C r.validators latest ∧
      r.bestRandomSeed = latest.blockRandomness := by
  unfold load at h
  split at h
  · cases h
  · cases h; exact ⟨rfl, rfl, rfl⟩

theorem processBlock_ok {r r' : RdPoS} {block : Block} (h : r.processBlock C block = .ok r') :
    r'.validators = r.validators ∧ r'.randomList = schedule C r.validators block ∧
      r'.bestRandomSeed = block.blockRandomness := by
  unfold processBlock at h
  split at h
  · cases h
  · cases h; exact ⟨rfl, rfl, rfl⟩

/-- The database holds the same addresses after the validators were saved over it. -/
theorem mem_addresses_save {r : RdPoS} {db : AssocMap Bytes Address}
    (hindex : r.validators.length ≤ 2 ^ 64)
    (hdb : ∀ a, a ∈ r.validators ↔ a ∈ addresses db) (a : Address) :
    a ∈ addresses (r.save db) ↔ a ∈ addresses db := by
  set es : List (Sigma fun _ : Bytes => Address) :=
    r.validators.zipIdx.map fun p => ⟨BigEndian.fixed 8 p.2, p.1⟩ with hes
  have hkeys : es.NodupKeys := by
    have hidx : es.keys = (List.range' 0 r.validators.length).map (BigEndian.fixed 8) := by
      rw [hes, List.keys, List.map_map, ← List.zipIdx_map_snd 0 r.validators, List.map_map]
      rfl
    rw [List.NodupKeys, hidx]
    refine List.Nodup.map_on (fun i hi j hj he => ?_) List.nodup_range'
    simp only [List.mem_range'_1] at hi hj
    exact BigEndian.fixed_injective (by norm_num; omega) (by norm_num; omega) he
  have hmem : ∀ (m : AssocMap Bytes Address) (x : Address),
      x ∈ addresses m ↔ ∃ k, m.lookup k = some x := by
    intro m x
    constructor
    · intro hx
      obtain ⟨e, he, rfl⟩ := List.mem_map.mp hx
      exact ⟨e.1, AList.mem_lookup_iff.mpr he⟩
    · rintro ⟨k, hk⟩
      exact List.mem_map.mpr ⟨⟨k, x⟩, AList.mem_lookup_iff.mp hk, rfl⟩
  have hwritten : ∀ k w, es.dlookup k = some w → w ∈ r.validators := by
    intro k w hk
    have hin := List.of_mem_dlookup hk
    obtain ⟨p, hp, he⟩ := List.mem_map.mp hin
    cases he
    exact (List.mem_zipIdx' hp).2 ▸ List.getElem_mem _
  rw [hmem]
  constructor
  · rintro ⟨k, hk⟩
    cases hes' : es.dlookup k with
    | none =>
      rw [save, AssocMap.lookup_overwrite_of_none _ _ _ hes'] at hk
      exact (hmem db a).mpr ⟨k, hk⟩
    | some w =>
      rw [save, AssocMap.lookup_overwrite_of_some _ _ _ hkeys hes', Option.some.injEq] at hk
      rw [← hk, ← hdb]
      exact hwritten k w hes'
  · intro ha
    rw [← hdb] at ha
    obtain ⟨i, hi, rfl⟩ := List.getElem_of_mem ha
    refine ⟨BigEndian.fixed 8 i, ?_⟩
    have hin : (⟨BigEndian.fixed 8 i, r.validators[i]⟩ : Sigma fun _ : Bytes => Address) ∈ es :=
      List.mem_map.mpr ⟨(r.validators[i], i), List.mem_zipIdx_iff_getElem?.mpr (by simp [hi]), rfl⟩
    rw [save, AssocMap.lookup_overwrite_of_some _ _ _ hkeys (List.mem_dlookup hkeys hin)]

end RdPoS

/-! ### One block after another -/

/-- What block `b` has to do with the block `p` before it. -/
structure Extends (C : Crypto) (validators : List Address) (p b : Block) : Prop where
  height : b.nHeight = p.nHeight + 1
  link : b.prevBlockHash = p.hash C
  timestamp : p.timestamp ≤ b.timestamp
  /-- The signer of `b` is the first of the schedule. -/
  signer : (RdPoS.schedule C validators p)[0]? =
    some (Secp256k1.toAddress C (Secp256k1.recover C b.validatorSig (b.hash C)))
  /-- The next four have revealed the seeds of `b`. -/
  randomness : ∃ seeds : List TxValidator, seeds.length = 4 ∧
    seeds.map TxValidator.sender = ((RdPoS.schedule C validators p).drop 1).take 4 ∧
    (∀ tx ∈ seeds, tx ∈ b.txValidators ∧ getTxValidatorFunction tx = .RANDOMSEED) ∧
    b.blockRandomness = C.sha3 (seeds.flatMap fun tx => tx.data.drop 4)

theorem Storage.latest_of_chain {s : Storage} {l : List Block} {b : Block}
    (h : s.chain = l ++ [b]) : s.latest = b := by
  have hlast : s.chain.getLast? = some s.latest := List.getLast?_eq_getLast_of_ne_nil s.chain_ne
  rw [h, List.getLast?_concat] at hlast
  exact (Option.some.inj hlast).symm

namespace State

theorem pushBack_of_valid {s : State} {block : Block}
    (h : s.validateNextBlock C block = .ok true) (e : Exn) :
    s.storage.pushBack C block ≠ .error e := by
  obtain ⟨hheight, hprev, -⟩ := validateNextBlock_ok h
  unfold Storage.pushBack
  rw [if_neg (not_not.mpr hprev.symm), if_neg (not_not.mpr hheight)]
  simp

/-- The three ways of a block while no transaction of the mempool overflows: it is refused, an
    exception escapes from its transactions, or it is appended. -/
theorem processNextBlock_cases {s : State} {block : Block} {p : Except Exn Unit × State}
    (h : s.Priced) (hp : s.processNextBlock C depth block = some p) :
    (s.validateNextBlock C block ≠ .ok true ∧ ∃ e, p = (.error e, s)) ∨
      s.validateNextBlock C block = .ok true ∧
        ((∃ e s₁, p = (.error e, s₁) ∧
            processTransactions C depth block.txs s = some (.error e, s₁)) ∨
          ∃ s₁ rdpos mempool storage, p = (.ok (), { s₁ with rdpos, mempool, storage }) ∧
            processTransactions C depth block.txs s = some (.ok (), s₁) ∧
            s.rdpos.processBlock C block = .ok rdpos ∧
            ({ s₁ with rdpos } : State).refreshMempool C block =
              (.ok (), { s₁ with rdpos, mempool }) ∧
            s.storage.pushBack C block = .ok storage) := by
  cases processNextBlock_run hp with
  | refused e hv => exact Or.inl ⟨hv, e, rfl⟩
  | stopped e s₁ hv hs₁ => exact Or.inr ⟨hv, Or.inl ⟨e, s₁, rfl, hs₁⟩⟩
  | unfinalized e s₁ hv hs₁ hr => simp [RdPoS.processBlock, finalized_of_valid hv] at hr
  | unpushed e s₁ rdpos r₂ mempool hv hs₁ hr hm hfail =>
    obtain ⟨hpool, -, hst⟩ := processTransactions_frame hs₁
    rcases hfail with hfail | hfail
    · have hok := refreshMempool_ok (C := C) (s := { s₁ with rdpos })
        (fun k t hl => h k t (hpool ▸ hl)) block
      rw [hm, hfail] at hok
      cases hok
    · rw [hst] at hfail
      exact absurd hfail (pushBack_of_valid hv e)
  | accepted s₁ rdpos mempool storage hv hs₁ hr hm hst' =>
    obtain ⟨-, hrd, hst⟩ := processTransactions_frame hs₁
    rw [hrd] at hr
    rw [hst] at hst'
    exact Or.inr ⟨hv, Or.inr ⟨s₁, rdpos, mempool, storage, rfl, hs₁, hr, hm, hst'⟩⟩

/-- **A block is appended, or neither the chain nor rdPoS change**, as long as no transaction of
    the mempool overflows.  A valid block is appended unless it lets an exception escape. -/
theorem processNextBlock_chain {s s' : State} {block : Block} {r : Except Exn Unit}
    (h : s.Priced) (hp : s.processNextBlock C depth block = some (r, s')) :
    s'.Priced ∧
      ((r = .ok () ∧ s.validateNextBlock C block = .ok true ∧
          s.rdpos.processBlock C block = .ok s'.rdpos ∧
          s'.storage.chain = s.storage.chain ++ [block]) ∨
        (r ≠ .ok () ∧ s'.rdpos = s.rdpos ∧ s'.storage = s.storage ∧
          (s.validateNextBlock C block = .ok true → ¬ Contained C depth s block))) := by
  rcases processNextBlock_cases h hp with ⟨hv, e, heq⟩ | ⟨hv, ⟨e, s₁, heq, hs₁⟩ |
    ⟨s₁, rdpos, mempool, storage, heq, hs₁, hr, hm, hst⟩⟩
  · cases heq
    exact ⟨h, Or.inr ⟨by simp, rfl, rfl, fun hv' => absurd hv' hv⟩⟩
  · cases heq
    obtain ⟨hpool, hrd, hst⟩ := processTransactions_frame hs₁
    exact ⟨fun k t hl => h k t (hpool ▸ hl),
      Or.inr ⟨by simp, hrd, hst, fun _ hin => hin e _ hs₁⟩⟩
  · cases heq
    refine ⟨fun k t hl => ?_, Or.inl ⟨rfl, hv, hr, (Storage.pushBack_eq_ok C hst).2.2⟩⟩
    have hold : ({ s₁ with rdpos } : State).mempool.lookup k = some t := by
      refine refreshMempool_lookup (C := C) block ?_
      rw [hm]
      exact hl
    exact h k t ((processTransactions_frame hs₁).1 ▸ hold)

theorem Priced.step {s s' : State} {op : Op} (h : s.Priced)
    (hs : op.apply C depth s = some s') : s'.Priced := by
  cases apply_run hs with
  | refused tx => exact h
  | filed tx hv =>
    intro k t hl
    have hadd : s.addTx C tx = (.ok .NotInvalid,
        { s with mempool := s.mempool.emplace (tx.hash C true) tx }) := by
      rw [addTx, hv]
    have hl' : (s.addTx C tx).2.mempool.lookup k = some t := by
      rw [hadd]
      exact hl
    rcases addTx_lookup hl' with hl | ⟨-, rfl, hvalid⟩
    · exact h k t hl
    · exact hvalid.priced
  | delivered tx pool => exact h
  | filled a x => exact h
  | processed block p hp => exact (processNextBlock_chain h hp).1
  | viewed info manager => exact h
  | simulated info manager => exact h

/-- No transaction in the mempool of a run that starts with an empty one overflows. -/
theorem priced_of_run {s₀ s : State} {ops : List Op} (hempty : s₀.mempool = ∅)
    (hrun : Machine.run (Op.apply C depth) ops s₀ = some s) : s.Priced := by
  refine Machine.run_invariant (fun _ _ _ h _ hs => Priced.step h hs) ?_
    (Machine.along_of_forall (P := fun _ _ => True) (fun _ _ => trivial) ops s₀) hrun
  intro hash tx hl
  rw [hempty] at hl
  cases hl

/-! ### Runs -/

/-- The blocks an operation appends. -/
def appended (C : Crypto) (depth : Nat) (s : State) : Op → List Block
  | .processNextBlock block =>
    match s.processNextBlock C depth block with
    | some (.ok (), _) => [block]
    | _ => []
  | _ => []

/-- The schedule is the one the latest block gives. -/
structure Scheduled (C : Crypto) (vs : List Address) (s : State) : Prop where
  validators : s.rdpos.validators = vs
  randomList : s.rdpos.randomList = RdPoS.schedule C vs s.storage.latest
  bestRandomSeed : s.rdpos.bestRandomSeed = s.storage.latest.blockRandomness
  priced : s.Priced

theorem Scheduled.congr {vs : List Address} {s s' : State}
    (h : Scheduled C vs s) (hvals : s'.rdpos.validators = s.rdpos.validators)
    (hlist : s'.rdpos.randomList = s.rdpos.randomList)
    (hseed : s'.rdpos.bestRandomSeed = s.rdpos.bestRandomSeed)
    (hst : s'.storage = s.storage) (hpriced : s'.Priced) : Scheduled C vs s' where
  validators := hvals.trans h.validators
  randomList := by rw [hlist, hst]; exact h.randomList
  bestRandomSeed := by rw [hseed, hst]; exact h.bestRandomSeed
  priced := hpriced

theorem Scheduled.extends {vs : List Address} {s : State} {block : Block}
    (h : Scheduled C vs s) (hmade : block.Made C)
    (hv : s.validateNextBlock C block = .ok true) :
    Extends C vs s.storage.latest block := by
  obtain ⟨hheight, hprev, htime, hrdpos, -⟩ := validateNextBlock_ok hv
  obtain ⟨-, hsig, hashes, seeds, heq, hround⟩ := RdPoS.validateBlock_iff.mp hrdpos
  obtain ⟨hrandom, hkey⟩ := hmade.derived
  obtain ⟨hseed, hsha⟩ := hround.randomness
  refine ⟨hheight, hprev, htime, ?_, seeds, hround.length_seeds, ?_, fun tx htx => ?_, ?_⟩
  · rw [← h.randomList, hsig, hkey]
  · rw [← h.randomList]
    exact hround.seedSenders
  · rw [heq]
    exact ⟨List.mem_append_right _ htx, hseed tx htx⟩
  · rw [hrandom, heq, hsha]

/-- **Every operation keeps the schedule**, and appends what it accepts. -/
theorem Scheduled.step {vs : List Address} {s s' : State} {op : Op}
    (h : Scheduled C vs s) (hs : op.apply C depth s = some s') :
    Scheduled C vs s' ∧
      s'.storage.chain = s.storage.chain ++ appended C depth s op := by
  have hpriced := h.priced.step hs
  have hidle : s.storage.chain = s.storage.chain ++ [] := (List.append_nil _).symm
  cases apply_run hs with
  | refused tx => exact ⟨h, hidle⟩
  | filed tx hv => exact ⟨h.congr rfl rfl rfl rfl hpriced, hidle⟩
  | delivered tx pool => exact ⟨h.congr rfl rfl rfl rfl hpriced, hidle⟩
  | filled a x => exact ⟨h.congr rfl rfl rfl rfl hpriced, hidle⟩
  | processed block p hp =>
    obtain ⟨r, s''⟩ := p
    rcases (processNextBlock_chain h.priced hp).2 with ⟨rfl, -, hr, hchain⟩ | ⟨hr, hrd, hst, -⟩
    · obtain ⟨hvals, hlist, hseed⟩ := RdPoS.processBlock_ok hr
      have hlatest := Storage.latest_of_chain hchain
      refine ⟨⟨hvals.trans h.validators, ?_, ?_, hpriced⟩, ?_⟩
      · rw [hlist, hlatest, h.validators]
      · rw [hseed, hlatest]
      · simp only [appended, hp]
        exact hchain
    · refine ⟨h.congr (by rw [hrd]) (by rw [hrd]) (by rw [hrd]) hst hpriced, ?_⟩
      have hnone : appended C depth s (.processNextBlock block) = [] := by
        cases r with
        | error e => simp only [appended, hp]
        | ok u => exact absurd rfl hr
      rw [hnone, hst]
      exact hidle
  | viewed info manager => exact ⟨h.congr rfl rfl rfl rfl hpriced, hidle⟩
  | simulated info manager => exact ⟨h.congr rfl rfl rfl rfl hpriced, hidle⟩

/-- A node as its constructors leave it: rdPoS loaded with the latest block, nothing pending. -/
structure Loaded (C : Crypto) (db : AssocMap Bytes Address) (s : State) : Prop where
  rdpos : RdPoS.load C db s.storage.latest = .ok s.rdpos
  mempool : s.mempool = ∅

theorem Loaded.scheduled {db : AssocMap Bytes Address} {s : State} (h : Loaded C db s) :
    Scheduled C s.rdpos.validators s where
  validators := rfl
  randomList := (RdPoS.load_ok h.rdpos).2.1
  bestRandomSeed := (RdPoS.load_ok h.rdpos).2.2
  priced k t hl := by rw [h.mempool] at hl; cases hl

theorem Loaded.run {db : AssocMap Bytes Address} {s₀ s : State} {ops : List Op}
    (h₀ : Loaded C db s₀) (hrun : Machine.run (Op.apply C depth) ops s₀ = some s) :
    Scheduled C s₀.rdpos.validators s :=
  Machine.run_invariant (fun _ _ _ h _ hs => (h.step hs).1) h₀.scheduled
    (Machine.along_of_forall (P := fun _ _ => True) (fun _ _ => trivial) ops s₀) hrun

theorem appended_cases (C : Crypto) (depth : Nat) (s : State) (op : Op) :
    appended C depth s op = [] ∨ ∃ block, op = .processNextBlock block ∧
      appended C depth s op = [block] ∧ s.validateNextBlock C block = .ok true := by
  cases op with
  | processNextBlock block =>
    cases hp : s.processNextBlock C depth block with
    | none => exact Or.inl (by simp only [appended, hp])
    | some p =>
      obtain ⟨r, s'⟩ := p
      cases r with
      | error e => exact Or.inl (by simp only [appended, hp])
      | ok u =>
        refine Or.inr ⟨block, rfl, by simp only [appended, hp], ?_⟩
        cases processNextBlock_run hp with
        | accepted s₁ rdpos mempool storage hv => exact hv
  | addTx tx => exact Or.inl rfl
  | addValidatorTx tx => exact Or.inl rfl
  | addBalance a => exact Or.inl rfl
  | ethCall info => exact Or.inl rfl
  | estimateGas info => exact Or.inl rfl

/-- **The chain over any run.**  A node is loaded with some chain and validator set, of at
    least five validators, and asked to do anything; the blocks it is given come from the
    parser or from a producer.  Its chain is then the loaded one followed by the blocks it
    accepted, and each of these extends the block before it; so does every block of the chain
    when that was already true of the loaded ones. -/
theorem chain_extends {db : AssocMap Bytes Address} {s₀ s : State} {ops : List Op}
    (h₀ : Loaded C db s₀) (hmade : ∀ block, Op.processNextBlock block ∈ ops → block.Made C)
    (hrun : Machine.run (Op.apply C depth) ops s₀ = some s) :
    let blocks := Machine.log (Op.apply C depth) (appended C depth) ops s₀
    s.storage.chain = s₀.storage.chain ++ blocks ∧
      List.IsChain (Extends C s₀.rdpos.validators) (s₀.storage.latest :: blocks) ∧
      (List.IsChain (Extends C s₀.rdpos.validators) s₀.storage.chain →
        List.IsChain (Extends C s₀.rdpos.validators) s.storage.chain) := by
  intro blocks
  have hsplit : s₀.storage.chain = s₀.storage.chain.dropLast ++ [s₀.storage.latest] :=
    (List.dropLast_append_getLast s₀.storage.chain_ne).symm
  -- The invariant: the schedule, the chain so far and the links of what was appended.
  have hinv : Scheduled C s₀.rdpos.validators s ∧
      s.storage.chain = s₀.storage.chain.dropLast ++ s₀.storage.latest :: ([] ++ blocks) ∧
      List.IsChain (Extends C s₀.rdpos.validators) (s₀.storage.latest :: ([] ++ blocks)) := by
    refine Machine.log_invariant (P := fun _ op => ∀ block, op = .processNextBlock block →
        block.Made C) (I := fun l s => Scheduled C s₀.rdpos.validators s ∧
        s.storage.chain = s₀.storage.chain.dropLast ++ s₀.storage.latest :: l ∧
        List.IsChain (Extends C s₀.rdpos.validators) (s₀.storage.latest :: l))
      (fun l s op s' hI hop hs => ?_) ⟨h₀.scheduled, hsplit, List.isChain_singleton _⟩
      (Machine.along_of_mem (by intro op hop t block he; exact hmade block (he ▸ hop)) s₀) hrun
    obtain ⟨hsched, hchain, hlinks⟩ := hI
    obtain ⟨hsched', hchain'⟩ := hsched.step hs
    refine ⟨hsched', by rw [hchain', hchain, List.append_assoc, List.cons_append], ?_⟩
    rcases appended_cases C depth s op with hnone | ⟨block, hblock, hone, hv⟩
    · rw [hnone, List.append_nil]
      exact hlinks
    · have hlast : s.storage.chain.getLast? = some s.storage.latest :=
        List.getLast?_eq_getLast_of_ne_nil s.storage.chain_ne
      rw [hchain, List.getLast?_append_cons] at hlast
      rw [hone, ← List.cons_append]
      refine List.isChain_append.mpr ⟨hlinks, List.isChain_singleton _, fun p hp b hb => ?_⟩
      cases Option.some.inj (hlast.symm.trans hp)
      cases hb
      exact hsched.extends (hop block hblock) hv
  obtain ⟨-, hchain, hlinks⟩ := hinv
  rw [List.nil_append] at hchain hlinks
  refine ⟨?_, hlinks, fun hold => ?_⟩
  · rw [hchain, hsplit, List.dropLast_concat, List.append_assoc]
    rfl
  · rw [hchain, List.isChain_split]
    rw [hsplit] at hold
    exact ⟨hold, hlinks⟩

theorem genesis_loaded {s : State} (h : genesis C = .ok s) : Loaded C genesisValidators s := by
  obtain ⟨r, hr, h⟩ := Except.bind_eq_ok.mp h
  cases h
  exact ⟨hr, rfl⟩

/-- A fresh node accepts block 1, which extends the genesis block. -/
theorem chain_extends_transfer :
    ∃ s s', genesis Recorded.crypto = .ok s ∧
      s.processNextBlock Recorded.crypto 1 (Recorded.block [Recorded.transfer]) =
        some (.ok (), s') ∧ s.rdpos.validators.length = 5 ∧
      s'.storage.chain = s.storage.chain ++ [Recorded.block [Recorded.transfer]] ∧
      Extends Recorded.crypto s.rdpos.validators s.storage.latest
        (Recorded.block [Recorded.transfer]) := by
  have hlook : Recorded.observe [Recorded.transfer] (fun s _ => s.rdpos.validators.length) =
      some 5 := by
    decide +kernel
  obtain ⟨s, s', hs, hs', hfive⟩ := Recorded.observe_eq_some hlook
  have hmade : (Recorded.block [Recorded.transfer]).Made Recorded.crypto :=
    Block.Made.of_finalize rfl
  have hstep : Op.apply Recorded.crypto 1
      (.processNextBlock (Recorded.block [Recorded.transfer])) s = some s' := by
    rw [Op.apply, hs']
    rfl
  have hrun : Machine.run (Op.apply Recorded.crypto 1)
      [.processNextBlock (Recorded.block [Recorded.transfer])] s = some s' := by
    rw [Machine.run, hstep]
    rfl
  have hlog : Machine.log (Op.apply Recorded.crypto 1) (appended Recorded.crypto 1)
      [.processNextBlock (Recorded.block [Recorded.transfer])] s =
        [Recorded.block [Recorded.transfer]] := by
    rw [Machine.log, hstep]
    simp only [appended, hs']
    rfl
  obtain ⟨hchain, hlinks, -⟩ := chain_extends (genesis_loaded hs)
    (fun block hb => by rwa [Op.processNextBlock.inj (List.mem_singleton.mp hb)]) hrun
  rw [hlog] at hchain hlinks
  exact ⟨s, s', hs, hs', hfive, hchain, (List.isChain_cons_cons.mp hlinks).1⟩

/-! ### Restarting -/

/-- **The schedule survives a restart.**  After any run, `~rdPoS` saves the validators over the
    database; a node constructed from what the database then holds, in any order, and from the
    latest block has the same random list and seed.  In both nodes the random list is a
    permutation of the validator set, without repeats.  (The index under which a validator is
    saved is a 64-bit number.) -/
theorem schedule_restart {db db' : AssocMap Bytes Address} {s₀ s : State} {ops : List Op}
    (h₀ : Loaded C db s₀) (hindex : s₀.rdpos.validators.length ≤ 2 ^ 64)
    (hrun : Machine.run (Op.apply C depth) ops s₀ = some s)
    (hdb : db'.entries.Perm (s.rdpos.save db).entries) :
    ∃ r, RdPoS.load C db' s.storage.latest = .ok r ∧
      r.randomList = s.rdpos.randomList ∧ r.bestRandomSeed = s.rdpos.bestRandomSeed ∧
      r.validators = s.rdpos.validators ∧
      (∀ a, a ∈ s.rdpos.validators ↔ a ∈ RdPoS.addresses db) ∧
      s.rdpos.randomList.Perm s.rdpos.validators ∧ s.rdpos.randomList.Nodup ∧
      r.randomList.Perm r.validators ∧ r.randomList.Nodup := by
  have hsched := h₀.run hrun
  have hset : s.rdpos.validators = validatorSet (RdPoS.addresses db) :=
    hsched.validators.trans (RdPoS.load_ok h₀.rdpos).1
  have hmem : ∀ a, a ∈ s.rdpos.validators ↔ a ∈ RdPoS.addresses db := by
    intro a
    rw [hset, mem_validatorSet]
  have hsame : validatorSet (RdPoS.addresses db') = s.rdpos.validators := by
    rw [hset]
    refine validatorSet_congr fun a => ?_
    rw [← RdPoS.mem_addresses_save (by rw [hsched.validators]; exact hindex) hmem]
    exact (hdb.map fun e => e.2).mem_iff
  -- The database is not empty: it was not when the node was loaded.
  have hne : db'.entries.length ≠ 0 := by
    intro hzero
    have hnone : db'.entries = [] := List.eq_nil_of_length_eq_zero hzero
    have hempty : RdPoS.addresses db = [] := by
      rw [List.eq_nil_iff_forall_not_mem]
      intro a ha
      rw [← hmem, ← hsame, mem_validatorSet, RdPoS.addresses, hnone] at ha
      cases ha
    have hzero₀ : db.entries.length = 0 := by
      rw [← List.length_map (f := fun e : Sigma fun _ : Bytes => Address => e.2)]
      exact congrArg List.length hempty
    have hload := h₀.rdpos
    rw [RdPoS.load, if_pos hzero₀] at hload
    cases hload
  have hload : ∃ r, RdPoS.load C db' s.storage.latest = .ok r := by
    rw [RdPoS.load, if_neg hne]
    exact ⟨_, rfl⟩
  obtain ⟨r, hr⟩ := hload
  obtain ⟨hvals, hlist, hseed⟩ := RdPoS.load_ok hr
  have hvals' : r.validators = s.rdpos.validators := hvals.trans hsame
  have hlist' : r.randomList = s.rdpos.randomList := by
    rw [hlist, hvals', hsched.randomList, hsched.validators]
  have hperm : s.rdpos.randomList.Perm s.rdpos.validators := by
    rw [hsched.randomList, ← hsched.validators]
    exact Shuffle.shuffle_perm _ _ _ _
  have hnodup : s.rdpos.randomList.Nodup := by
    rw [hperm.nodup_iff, hset]
    exact validatorSet_nodup _
  refine ⟨r, hr, hlist', ?_, hvals', hmem, hperm, hnodup, ?_, ?_⟩
  · rw [hseed, hsched.bestRandomSeed]
  · rw [hlist', hvals']
    exact hperm
  · rw [hlist']
    exact hnodup

/-- A fresh node that has accepted block 1 and one loaded from what it saves. -/
theorem schedule_restart_transfer :
    ∃ s s' r, genesis Recorded.crypto = .ok s ∧
      s.processNextBlock Recorded.crypto 1 (Recorded.block [Recorded.transfer]) =
        some (.ok (), s') ∧
      RdPoS.load Recorded.crypto (s'.rdpos.save genesisValidators) s'.storage.latest = .ok r ∧
      r.randomList = s'.rdpos.randomList ∧ r.bestRandomSeed = s'.rdpos.bestRandomSeed := by
  have hlook : Recorded.observe [Recorded.transfer] (fun s _ => s.rdpos.validators.length) =
      some 5 := by
    decide +kernel
  obtain ⟨s, s', hs, hs', hfive⟩ := Recorded.observe_eq_some hlook
  have hrun : Machine.run (Op.apply Recorded.crypto 1)
      [.processNextBlock (Recorded.block [Recorded.transfer])] s = some s' := by
    rw [Machine.run, Op.apply, hs']
    rfl
  obtain ⟨r, hr, hlist, hseed, -⟩ := schedule_restart (genesis_loaded hs)
    (by rw [hfive]; decide) hrun (List.Perm.refl _)
  exact ⟨s, s', r, hs, hs', hr, hlist, hseed⟩

end State

end OrbiterSdk

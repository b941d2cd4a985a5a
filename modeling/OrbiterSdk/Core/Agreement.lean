import OrbiterSdk.Core.Schedule
import OrbiterSdk.Core.StorageRestart
import OrbiterSdk.Lib.Fork

namespace OrbiterSdk

/-!
# Forks name their culprit

Only the first validator of the schedule may sign the next block, and the schedule is the
shuffle by the randomness of the latest block, which its hash covers.  Two nodes with the same
latest block hash wait for the same signer, so two different blocks on top of it are both
signed by that validator.

* `Grown` — what a node has become that was started with some chain: the schedule is that of
  its latest block, and every block it appended extends the one before;
* `Grown.step` — every operation keeps it;
* `Accountable` — of two chains, one continues the other or there is evidence against a
  validator;
* `fork_accountable` — so it is with the chains of any two nodes;
* `commitments_fix_schedule` — the commitments of a block fix its randomness, hence the order
  of the validators after it.
-/

variable {C : Crypto} {depth : Nat}

namespace Block

/-- The address whose key has signed the block. -/
def signer (C : Crypto) (b : Block) : Address :=
  Secp256k1.toAddress C (Secp256k1.recover C b.validatorSig (b.hash C))

/-- The header has the link, the randomness and the height at fixed places. -/
theorem randomness_of_serializeHeader {b b' : Block}
    (h : b.serializeHeader = b'.serializeHeader) : b.blockRandomness = b'.blockRandomness := by
  unfold serializeHeader at h
  simp only [List.append_assoc] at h
  obtain ⟨-, h⟩ := List.append_inj h (by simp only [FixedStr.size_eq])
  obtain ⟨hrandom, -⟩ := List.append_inj h (by simp only [FixedStr.size_eq])
  exact FixedStr.ext hrandom

end Block

/-- Evidence against the validator `a`: two different blocks of one height, on top of blocks
    with the same hash, both signed by `a`. -/
structure DoubleSigned (C : Crypto) (a : Address) (b b' : Block) : Prop where
  height : b.nHeight = b'.nHeight
  link : b.prevBlockHash = b'.prevBlockHash
  signer : b.signer C = a
  signer' : b'.signer C = a
  differ : b.hash C ≠ b'.hash C

/-- One of the chains continues the other, up to hashes, or there is evidence against some
    validator. -/
def Accountable (C : Crypto) (vs : List Address) (l l' : List Block) : Prop :=
  l.map (Block.hash C) <+: l'.map (Block.hash C) ∨
    l'.map (Block.hash C) <+: l.map (Block.hash C) ∨
    ∃ a ∈ vs, ∃ b ∈ l, ∃ b' ∈ l', DoubleSigned C a b b'

/-- Two blocks that extend blocks with the same header are signed by the same validator. -/
theorem Extends.doubleSigned {vs : List Address} {p p' b b' : Block} (h : Extends C vs p b)
    (h' : Extends C vs p' b') (hheader : p.serializeHeader = p'.serializeHeader)
    (hne : b.hash C ≠ b'.hash C) : ∃ a ∈ vs, DoubleSigned C a b b' := by
  have hschedule : RdPoS.schedule C vs p = RdPoS.schedule C vs p' := by
    rw [RdPoS.schedule, RdPoS.schedule, Block.randomness_of_serializeHeader hheader]
  have hsame : b.signer C = b'.signer C := by
    have hsigner := h.signer
    rw [hschedule, h'.signer] at hsigner
    exact (Option.some.inj hsigner).symm
  have hmem : b.signer C ∈ vs := by
    have hin : b.signer C ∈ RdPoS.schedule C vs p := List.mem_of_getElem? h.signer
    exact (Shuffle.shuffle_perm _ _ _ _).mem_iff.mp hin
  refine ⟨b.signer C, hmem, ?_, ?_, rfl, hsame.symm, hne⟩
  · rw [h.height, h'.height, BlockStorage.nHeight_of_serializeHeader hheader]
  · rw [h.link, h'.link, Block.hash, Block.hash, hheader]

namespace State

/-! ### What a node becomes -/

/-- A node that was started with the chain `base ++ [p]` and the validators `vs`. -/
structure Grown (C : Crypto) (vs : List Address) (base : List Block) (p : Block) (s : State) :
    Prop where
  scheduled : Scheduled C vs s
  chain : ∃ blocks, s.storage.chain = base ++ p :: blocks ∧
    List.IsChain (Extends C vs) (p :: blocks)

theorem Loaded.grown {db : AssocMap Bytes Address} {s : State} (h : Loaded C db s) :
    Grown C s.rdpos.validators s.storage.chain.dropLast s.storage.latest s where
  scheduled := h.scheduled
  chain := ⟨[], (List.dropLast_append_getLast s.storage.chain_ne).symm, List.isChain_singleton _⟩

/-- **Every operation keeps it**, if the blocks come from the parser or from a producer. -/
theorem Grown.step {vs : List Address} {base : List Block} {p : Block} {s s' : State} {op : Op}
    (h : Grown C vs base p s) (hmade : ∀ block, op = .processNextBlock block → block.Made C)
    (hs : op.apply C depth s = some s') : Grown C vs base p s' := by
  obtain ⟨hsched', hchain'⟩ := h.scheduled.step hs
  obtain ⟨blocks, hchain, hlinks⟩ := h.chain
  refine ⟨hsched', ?_⟩
  rcases appended_cases C depth s op with hnone | ⟨block, hblock, hone, hv⟩
  · refine ⟨blocks, ?_, hlinks⟩
    rw [hchain', hnone, List.append_nil, hchain]
  · refine ⟨blocks ++ [block], by rw [hchain', hone, hchain]; simp, ?_⟩
    have hlast : s.storage.chain.getLast? = some s.storage.latest :=
      List.getLast?_eq_getLast_of_ne_nil s.storage.chain_ne
    rw [hchain, List.getLast?_append_cons] at hlast
    rw [← List.cons_append]
    refine List.isChain_append.mpr ⟨hlinks, List.isChain_singleton _, fun q hq b hb => ?_⟩
    cases Option.some.inj (hlast.symm.trans hq)
    cases hb
    exact h.scheduled.extends (hmade block hblock) hv

theorem Grown.accountable {vs : List Address} {base base' : List Block} {p p' : Block}
    {s s' : State} (h : Grown C vs base p s) (h' : Grown C vs base' p' s')
    (hbase : base.map (Block.hash C) = base'.map (Block.hash C)) (hp : p.hash C = p'.hash C)
    (hfree : ∀ b ∈ s.storage.chain, ∀ b' ∈ s'.storage.chain, b.hash C = b'.hash C →
      b.serializeHeader = b'.serializeHeader) :
    Accountable C vs s.storage.chain s'.storage.chain := by
  obtain ⟨blocks, hchain, hlinks⟩ := h.chain
  obtain ⟨blocks', hchain', hlinks'⟩ := h'.chain
  have hin : ∀ {u : State} {l bs : List Block} {q x : Block}, u.storage.chain = l ++ q :: bs →
      x ∈ q :: bs → x ∈ u.storage.chain := fun hu hx => hu ▸ List.mem_append_right _ hx
  rcases Fork.comparable_or_parted (Block.hash C) hp hlinks hlinks' with
    hpre | hpre | ⟨q, q', b, b', ⟨hext, hq, hb⟩, ⟨hext', hq', hb'⟩, hsame, hdiffer⟩
  · left
    rw [hchain, hchain', List.map_append, List.map_append, hbase]
    exact (List.prefix_append_right_inj _).mpr hpre
  · right; left
    rw [hchain, hchain', List.map_append, List.map_append, hbase]
    exact (List.prefix_append_right_inj _).mpr hpre
  · right; right
    obtain ⟨a, ha, hsigned⟩ := hext.doubleSigned hext'
      (hfree q (hin hchain hq) q' (hin hchain' hq') hsame) hdiffer
    exact ⟨a, ha, b, hin hchain hb, b', hin hchain' hb', hsigned⟩

theorem chain_of_appended {s s' : State} {block : Block} (h : s.Priced)
    (hp : s.processNextBlock C depth block = some (.ok (), s')) :
    s'.storage.chain = s.storage.chain ++ [block] := by
  rcases (processNextBlock_chain h hp).2 with ⟨-, -, -, hchain⟩ | ⟨hne, -⟩
  · exact hchain
  · exact absurd rfl hne

theorem run_appended {s s' : State} {block : Block}
    (hp : s.processNextBlock C depth block = some (.ok (), s')) :
    Machine.run (Op.apply C depth) [.processNextBlock block] s = some s' := by
  rw [Machine.run, Op.apply, hp]
  rfl

theorem Loaded.run_grown {db : AssocMap Bytes Address} {s₀ s : State} {ops : List Op}
    (h₀ : Loaded C db s₀) (hmade : ∀ block, Op.processNextBlock block ∈ ops → block.Made C)
    (hrun : Machine.run (Op.apply C depth) ops s₀ = some s) :
    Grown C s₀.rdpos.validators s₀.storage.chain.dropLast s₀.storage.latest s :=
  Machine.run_invariant (P := fun _ op => ∀ block, op = .processNextBlock block → block.Made C)
    (fun _ _ _ h hop hs => h.step hop hs) h₀.grown
    (Machine.along_of_mem (by intro op hop t block he; exact hmade block (he ▸ hop)) s₀) hrun

/-- A fresh node would append either of two blocks with the same validator transactions. -/
theorem exists_rivals : ∃ s₀ s t block block', genesis Recorded.crypto = .ok s₀ ∧
    block.Made Recorded.crypto ∧ block'.Made Recorded.crypto ∧
    s₀.processNextBlock Recorded.crypto 1 block = some (.ok (), s) ∧
    s₀.processNextBlock Recorded.crypto 1 block' = some (.ok (), t) ∧
    block.txValidators = Recorded.validatorTxs ∧ block'.txValidators = Recorded.validatorTxs ∧
    [(genesisBlock Recorded.crypto).hash Recorded.crypto, block.hash Recorded.crypto,
      block'.hash Recorded.crypto].Nodup := by
  have hone : Recorded.observe [Recorded.transfer] (fun _ _ => ()) = some () := by decide +kernel
  have hother : Recorded.observe [Recorded.rdPoSCall] (fun _ _ => ()) = some () := by
    decide +kernel
  obtain ⟨s₀, s, hs₀, hs, -⟩ := Recorded.observe_eq_some hone
  obtain ⟨t₀, t, ht₀, ht, -⟩ := Recorded.observe_eq_some hother
  cases Except.ok.inj (hs₀.symm.trans ht₀)
  exact ⟨s₀, s, t, _, _, hs₀, .finalized (Recorded.finalize_block _),
    .finalized (Recorded.finalize_block _), hs, ht, (Recorded.block_contents _).2.1,
    (Recorded.block_contents _).2.1, by decide +kernel⟩

/-- **Forks name their culprit.**  Two nodes were loaded with chains of the same hashes and with
    the same validators, and have done whatever they were asked since; the blocks they were
    given come from the parser or from a producer.  If no two different headers of their chains
    have the same hash, one chain is the beginning of the other, up to hashes, or some validator
    of the set has signed two different blocks of one height on top of the same block. -/
theorem fork_accountable {db db' : AssocMap Bytes Address} {s₀ t₀ s t : State}
    {ops ops' : List Op} {depth' : Nat} (hs₀ : Loaded C db s₀) (ht₀ : Loaded C db' t₀)
    (hvalidators : t₀.rdpos.validators = s₀.rdpos.validators)
    (hsame : s₀.storage.chain.map (Block.hash C) = t₀.storage.chain.map (Block.hash C))
    (hmade : ∀ block, Op.processNextBlock block ∈ ops ++ ops' → block.Made C)
    (hrun : Machine.run (Op.apply C depth) ops s₀ = some s)
    (hrun' : Machine.run (Op.apply C depth') ops' t₀ = some t)
    (hfree : ∀ b ∈ s.storage.chain, ∀ b' ∈ t.storage.chain, b.hash C = b'.hash C →
      b.serializeHeader = b'.serializeHeader) :
    Accountable C s₀.rdpos.validators s.storage.chain t.storage.chain := by
  have hgrown := hs₀.run_grown (fun block h => hmade block (List.mem_append_left _ h)) hrun
  have hgrown' := ht₀.run_grown (fun block h => hmade block (List.mem_append_right _ h)) hrun'
  rw [hvalidators] at hgrown'
  have hsplit : ∀ u : State, u.storage.chain.map (Block.hash C) =
      u.storage.chain.dropLast.map (Block.hash C) ++ [u.storage.latest.hash C] := by
    intro u
    conv_lhs => rw [← List.dropLast_append_getLast u.storage.chain_ne, List.map_append]
    rfl
  rw [hsplit s₀, hsplit t₀] at hsame
  obtain ⟨hbase, hlast⟩ := List.append_inj' hsame rfl
  exact hgrown.accountable hgrown' hbase (List.head_eq_of_cons_eq hlast) hfree

/-- The validator that has to sign block 1 has signed two of them, and one node has taken the
    one, the other node the other. -/
theorem fork_accountable_rivals : ∃ s₀ s t block block', genesis Recorded.crypto = .ok s₀ ∧
    Machine.run (Op.apply Recorded.crypto 1) [.processNextBlock block] s₀ = some s ∧
    Machine.run (Op.apply Recorded.crypto 1) [.processNextBlock block'] s₀ = some t ∧
    ∃ a ∈ s₀.rdpos.validators, ∃ b ∈ s.storage.chain, ∃ b' ∈ t.storage.chain,
      DoubleSigned Recorded.crypto a b b' := by
  obtain ⟨s₀, s, t, block, block', hs₀, hmade, hmade', hs, ht, -, -, hnodup⟩ := exists_rivals
  have hloaded := genesis_loaded hs₀
  have hgenesis : s₀.storage.chain = [genesisBlock Recorded.crypto] := by
    obtain ⟨r, -, hgenesis⟩ := Except.bind_eq_ok.mp hs₀
    cases hgenesis
    rfl
  have hchain : s.storage.chain = [genesisBlock Recorded.crypto, block] := by
    rw [chain_of_appended hloaded.scheduled.priced hs, hgenesis, List.singleton_append]
  have hchain' : t.storage.chain = [genesisBlock Recorded.crypto, block'] := by
    rw [chain_of_appended hloaded.scheduled.priced ht, hgenesis, List.singleton_append]
  simp only [List.nodup_cons, List.mem_cons, List.not_mem_nil, or_false, not_or] at hnodup
  obtain ⟨⟨hfirst, hsecond⟩, hthird, -⟩ := hnodup
  refine ⟨s₀, s, t, block, block', hs₀, run_appended hs, run_appended ht, ?_⟩
  have hcases := fork_accountable hloaded hloaded rfl rfl (by
    simp only [List.mem_append, List.mem_singleton, Op.processNextBlock.injEq]
    rintro c (rfl | rfl)
    · exact hmade
    · exact hmade') (run_appended hs) (run_appended ht) (by
    rw [hchain, hchain']
    simp only [List.mem_cons, List.not_mem_nil, or_false]
    rintro b (rfl | rfl) b' (rfl | rfl) he
    · rfl
    · exact absurd he hsecond
    · exact absurd he.symm hfirst
    · exact absurd he hthird)
  rw [hchain, hchain'] at hcases ⊢
  simpa only [Accountable, List.map_cons, List.map_nil, List.cons_prefix_cons, hthird,
    Ne.symm hthird, false_and, and_false, false_or] using hcases

end State

/-! ### Commitments -/

/-- The commitments of a block: the data of its first four validator transactions. -/
def Block.commitments (b : Block) : List Bytes :=
  (b.txValidators.take minValidators).map TxValidator.data

/-- The seeds of a block: what its other validator transactions reveal. -/
def Block.seeds (b : Block) : List Bytes :=
  (b.txValidators.drop minValidators).map fun tx => tx.data.drop 4

namespace RdPoS

/-- The commitments of a round are the hashes of its seeds. -/
theorem Round.commitments {r : RdPoS} {nHeight : UInt64} {hashes seeds : List TxValidator}
    (h : Round C r nHeight hashes seeds) :
    (hashes.map fun tx => tx.data.drop 4) =
      seeds.map fun tx => (C.sha3 (tx.data.drop 4)).data := by
  have hlen : hashes.length = seeds.length := h.length_hashes.trans h.length_seeds.symm
  have hfst : (hashes.zip seeds).map Prod.fst = hashes := List.map_fst_zip (by omega)
  have hsnd : (hashes.zip seeds).map Prod.snd = seeds := List.map_snd_zip (by omega)
  conv_lhs => rw [← hfst, List.map_map]
  conv_rhs => rw [← hsnd, List.map_map]
  refine List.map_congr_left fun p hp => ?_
  have hvalid := h.valid p hp
  simp only [validPair, Bool.and_eq_true, decide_eq_true_eq] at hvalid
  exact hvalid.2.symm

end RdPoS

namespace State

/-- What a valid block commits to and what it reveals. -/
theorem commitments_of_valid {s : State} {b : Block} (hmade : b.Made C)
    (hv : s.validateNextBlock C b = .ok true) :
    (b.commitments.map fun data => data.drop 4) = b.seeds.map (fun seed => (C.sha3 seed).data) ∧
      b.blockRandomness = C.sha3 b.seeds.flatten := by
  obtain ⟨-, -, -, hrdpos, -⟩ := validateNextBlock_ok hv
  obtain ⟨-, -, hashes, seeds, heq, hround⟩ := RdPoS.validateBlock_iff.mp hrdpos
  have htake : b.txValidators.take minValidators = hashes := by
    rw [heq, ← hround.length_hashes, List.take_left]
  have hdrop : b.txValidators.drop minValidators = seeds := by
    rw [heq, ← hround.length_hashes, List.drop_left]
  constructor
  · rw [Block.commitments, Block.seeds, htake, hdrop, List.map_map, List.map_map]
    exact hround.commitments
  · rw [hmade.derived.1, heq, hround.randomness.2, Block.seeds, hdrop, List.flatMap_def]

/-- A block that is appended was valid, and the next schedule is its own. -/
theorem Scheduled.accepted {vs : List Address} {s s' : State} {b : Block} (h : Scheduled C vs s)
    (hb : s.processNextBlock C depth b = some (.ok (), s')) :
    s.validateNextBlock C b = .ok true ∧ s'.rdpos.randomList = RdPoS.schedule C vs b ∧
      s'.rdpos.bestRandomSeed = b.blockRandomness := by
  rcases (processNextBlock_chain h.priced hb).2 with ⟨-, hv, hr, -⟩ | ⟨hr, -⟩
  · obtain ⟨-, hlist, hseed⟩ := RdPoS.processBlock_ok hr
    rw [h.validators] at hlist
    exact ⟨hv, hlist, hseed⟩
  · exact absurd rfl hr

/-- **The commitments fix the schedule.**  Two nodes with the same validators, whose schedules
    are those of their latest blocks, each accept a block.  If the blocks carry the same
    commitments and no two different seeds have the same hash, the blocks have the same
    randomness and the nodes wait for the same validators in the same order: with the
    commitments out, neither the producer nor the participants can change what comes. -/
theorem commitments_fix_schedule {vs : List Address} {s s' s₁ s₁' : State} {b b' : Block}
    {depth' : Nat} (h : Scheduled C vs s) (h' : Scheduled C vs s') (hmade : b.Made C)
    (hmade' : b'.Made C) (hb : s.processNextBlock C depth b = some (.ok (), s₁))
    (hb' : s'.processNextBlock C depth' b' = some (.ok (), s₁'))
    (hcommit : b.commitments = b'.commitments)
    (hfree : ∀ x ∈ b.seeds, ∀ y ∈ b'.seeds, C.sha3 x = C.sha3 y → x = y) :
    b.blockRandomness = b'.blockRandomness ∧ s₁.rdpos.randomList = s₁'.rdpos.randomList ∧
      s₁.rdpos.bestRandomSeed = s₁'.rdpos.bestRandomSeed := by
  obtain ⟨hv, hlist, hseed⟩ := h.accepted hb
  obtain ⟨hv', hlist', hseed'⟩ := h'.accepted hb'
  obtain ⟨hhashes, hrandom⟩ := commitments_of_valid hmade hv
  obtain ⟨hhashes', hrandom'⟩ := commitments_of_valid hmade' hv'
  -- Equal commitments are equal hashes of the seeds, and these determine the seeds.
  have hseeds : b.seeds = b'.seeds := by
    rw [hcommit, hhashes'] at hhashes
    have hlen : b.seeds.length = b'.seeds.length := by
      simpa using (congrArg List.length hhashes).symm
    refine List.ext_getElem hlen fun i hi hi' => ?_
    refine hfree _ (List.getElem_mem hi) _ (List.getElem_mem hi') (FixedStr.ext ?_)
    have hget := congrArg (fun l => l[i]?) hhashes
    simpa [hi, hi'] using hget.symm
  have hsame : b.blockRandomness = b'.blockRandomness := by rw [hrandom, hrandom', hseeds]
  refine ⟨hsame, ?_, by rw [hseed, hseed', hsame]⟩
  rw [hlist, hlist', RdPoS.schedule, RdPoS.schedule, hsame]

/-- Two variants of block 1 with the same commitments. -/
theorem commitments_fix_schedule_rivals : ∃ s₀ s t block block',
    genesis Recorded.crypto = .ok s₀ ∧
    s₀.processNextBlock Recorded.crypto 1 block = some (.ok (), s) ∧
    s₀.processNextBlock Recorded.crypto 1 block' = some (.ok (), t) ∧
    block.hash Recorded.crypto ≠ block'.hash Recorded.crypto ∧
    s.rdpos.randomList = t.rdpos.randomList := by
  obtain ⟨s₀, s, t, block, block', hs₀, hmade, hmade', hs, ht, htxs, htxs', hnodup⟩ :=
    exists_rivals
  have hdiffer := (List.nodup_cons.mp (List.nodup_cons.mp hnodup).2).1
  have hsched := (genesis_loaded hs₀).scheduled
  refine ⟨s₀, s, t, block, block', hs₀, hs, ht, List.ne_of_not_mem_cons hdiffer, ?_⟩
  refine (commitments_fix_schedule hsched hsched hmade hmade' hs ht ?_ ?_).2.1
  · rw [Block.commitments, Block.commitments, htxs, htxs']
  · rw [Block.seeds, Block.seeds, htxs, htxs']
    decide +kernel

end State

end OrbiterSdk

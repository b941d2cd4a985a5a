import OrbiterSdk.Core.Agreement
import OrbiterSdk.Core.Refresh

namespace OrbiterSdk

/-!
# Replicas

Nodes that append the same blocks, and otherwise receive different transactions and refuse
different blocks in different orders, are replicas of one state machine: they differ at most
in what is pending.

* `Replica` — the same state up to the two mempools;
* `processTransaction_pending` — the execution of transactions does not see the mempools;
* `Replica.processNextBlock` — a block does the same to two replicas;
* `Replays` — a node is a replica of one that was only given the blocks on its chain;
* `replicas_agree` — nodes with the same chain are replicas.
-/

namespace State

variable {C : Crypto} {depth : Nat}

/-- The state with other mempools. -/
def withPools (s : State) (mempool : AssocMap Hash TxBlock) (pool : AssocMap Hash TxValidator) :
    State :=
  { s with mempool, rdpos := { s.rdpos with validatorMempool := pool } }

/-- The same state up to what is pending. -/
def Replica (s t : State) : Prop := ∃ mempool pool, t = s.withPools mempool pool

theorem Replica.refl (s : State) : Replica s s := ⟨s.mempool, s.rdpos.validatorMempool, rfl⟩

theorem Replica.symm {s t : State} (h : Replica s t) : Replica t s := by
  obtain ⟨mempool, pool, rfl⟩ := h
  exact ⟨s.mempool, s.rdpos.validatorMempool, rfl⟩

theorem Replica.trans {s t u : State} (h : Replica s t) (h' : Replica t u) : Replica s u := by
  obtain ⟨mempool, pool, rfl⟩ := h
  obtain ⟨mempool', pool', rfl⟩ := h'
  exact ⟨mempool', pool', rfl⟩

section

variable {s t : State} (h : Replica s t)

include h

theorem Replica.accounts : t.accounts = s.accounts := by
  obtain ⟨mempool, pool, rfl⟩ := h
  rfl

theorem Replica.storage : t.storage = s.storage := by
  obtain ⟨mempool, pool, rfl⟩ := h
  rfl

theorem Replica.randomList : t.rdpos.randomList = s.rdpos.randomList := by
  obtain ⟨mempool, pool, rfl⟩ := h
  rfl

end

/-! ### Execution does not see the mempools -/

section

variable (s : State) (mempool : AssocMap Hash TxBlock) (pool : AssocMap Hash TxValidator)

theorem refund_pending (tx : TxBlock) : refund (s.withPools mempool pool) tx =
    ((refund s tx).1, (refund s tx).2.withPools mempool pool) := by
  unfold refund
  dsimp only [withPools]
  split <;> rfl

theorem callContract_pending (tx : TxBlock) : (s.withPools mempool pool).callContract C depth tx =
    (s.callContract C depth tx).map fun p => (p.1, p.2.withPools mempool pool) := by
  unfold callContract
  rw [Option.map_map]
  rfl

theorem processTransaction_pending (tx : TxBlock) :
    processTransaction C depth (s.withPools mempool pool) tx =
      (processTransaction C depth s tx).map fun p => (p.1, p.2.withPools mempool pool) := by
  have htransfer : transferValue (s.withPools mempool pool).accounts tx =
      transferValue s.accounts tx := rfl
  unfold processTransaction
  rw [htransfer, apply_ite (Option.map _)]
  refine ite_congr rfl (fun _ => rfl) fun _ => ?_
  rcases transferValue s.accounts tx with ⟨e | u, accounts⟩
  · exact congrArg some (refund_pending { s with accounts } mempool pool tx)
  · dsimp only
    rw [apply_ite (Option.map _)]
    refine ite_congr rfl (fun _ => ?_) fun _ => rfl
    rw [show (s.withPools mempool pool).beforeCall accounts tx =
      (s.beforeCall accounts tx).withPools mempool pool from rfl, callContract_pending]
    rcases (s.beforeCall accounts tx).callContract C depth tx with _ | ⟨o, s'⟩
    · rfl
    · dsimp only [Option.map_some]
      rcases o.result with e | u
      · exact congrArg some (refund_pending s' mempool pool tx)
      · rfl

theorem processTransactions_pending (txs : List TxBlock) :
    processTransactions C depth txs (s.withPools mempool pool) =
      (processTransactions C depth txs s).map fun p => (p.1, p.2.withPools mempool pool) := by
  induction txs generalizing s with
  | nil => rfl
  | cons tx txs ih =>
    unfold processTransactions
    rw [processTransaction_pending]
    rcases processTransaction C depth s tx with _ | ⟨e | u, s₁⟩
    · rfl
    · rfl
    · exact ih s₁

end

/-! ### Blocks -/

/-- Replicas with pending mempools give the same verdict on a block. -/
theorem Replica.validateNextBlock {s t : State} (h : Replica s t) (hs : Pending C s)
    (ht : Pending C t) {block : Block} (hknown : Known C s block) (hknown' : Known C t block) :
    t.validateNextBlock C block = s.validateNextBlock C block := by
  have htxs : t.validateTxs C block.txs = s.validateTxs C block.txs := by
    refine validateTxs_congr fun tx htx => ?_
    rw [validateTransactionInternal_of_pending hs hknown htx,
      validateTransactionInternal_of_pending ht hknown' htx, h.accounts]
  have hvalid : t.rdpos.validateBlock C block = s.rdpos.validateBlock C block := by
    unfold RdPoS.validateBlock
    rw [h.randomList]
  unfold State.validateNextBlock
  rw [h.storage, hvalid, htxs]

theorem pending_of_empty {s : State} (h : s.mempool = ∅) : Pending C s := by
  intro hash tx hl
  rw [h] at hl
  cases hl

theorem known_of_empty {s : State} (h : s.mempool = ∅) (block : Block) : Known C s block := by
  intro tx _ t hl
  rw [h] at hl
  cases hl

theorem Pending.priced {s : State} (h : Pending C s) : s.Priced :=
  fun hash tx hl => (h hash tx hl).2.priced

/-- **A block that is appended to a chain is appended to that of a replica**, and leaves
    replicas. -/
theorem Replica.processNextBlock {s t s' : State} {block : Block} (h : Replica s t)
    (hs : Pending C s) (ht : Pending C t) (hknown : Known C s block) (hknown' : Known C t block)
    (hp : s.processNextBlock C depth block = some (.ok (), s')) :
    ∃ t', t.processNextBlock C depth block = some (.ok (), t') ∧ Replica s' t' := by
  have hverdict := h.validateNextBlock hs ht hknown hknown'
  have hpriced := ht.priced
  rcases processNextBlock_cases hs.priced hp with ⟨-, e, heq⟩ | ⟨hv, ⟨e, s₁, heq, -⟩ |
    ⟨s₁, rdpos, m, storage, heq, hs₁, hr, -, hst⟩⟩
  · cases heq
  · cases heq
  · cases heq
    rw [processNextBlock_of_valid (hverdict.trans hv), commitBlock]
    obtain ⟨mempool, pool, rfl⟩ := h
    obtain ⟨-, hrd₁, hst₁⟩ := processTransactions_frame hs₁
    rw [processTransactions_pending, hs₁]
    dsimp only [Option.map_some]
    -- what rdPoS makes of the block does not depend on its mempool
    have hr' : (s₁.withPools mempool pool).rdpos.processBlock C block = .ok rdpos := by
      rw [← hr, ← hrd₁]
      rfl
    rw [hr']
    dsimp only
    obtain ⟨m', hm'⟩ := revalidate_state (C := C)
      { s₁.withPools mempool pool with rdpos, mempool := ∅ }
      (block.txs.foldl (fun m tx => m.erase (tx.hash C true)) mempool).entries
    have hrefresh : ({ s₁.withPools mempool pool with rdpos } : State).refreshMempool C block =
        (.ok (), { s₁.withPools mempool pool with rdpos, mempool := m' }) :=
      Prod.ext (refreshMempool_ok (s := { s₁.withPools mempool pool with rdpos }) hpriced block) hm'
    have hst' : (s₁.withPools mempool pool).storage.pushBack C block = .ok storage := by
      rw [← hst, ← hst₁]
      rfl
    rw [hrefresh]
    dsimp only
    rw [hst']
    exact ⟨_, rfl, m', rdpos.validatorMempool, rfl⟩

/-! ### Runs -/

/-- What a node does: it files transactions and is given blocks, whose transactions are those
    its mempool knows by their hashes. -/
def ReplicaOp (C : Crypto) (s : State) : Op → Prop
  | .addTx _ => True
  | .addValidatorTx _ => True
  | .processNextBlock block => Known C s block
  | _ => False

/-- The node is a replica of one that was started in `s₀` and given `blocks` alone. -/
structure Replays (C : Crypto) (depth : Nat) (s₀ : State) (blocks : List Block) (s : State) :
    Prop where
  replayed : ∃ t, Machine.run (Op.apply C depth) (blocks.map .processNextBlock) s₀ = some t ∧
    t.mempool = ∅ ∧ Replica t s
  chain : s.storage.chain = s₀.storage.chain ++ blocks
  pending : Pending C s

theorem replica_addTx (s : State) (tx : TxBlock) : Replica s (s.addTx C tx).2 := by
  unfold addTx
  split
  · exact .refl s
  · exact ⟨_, s.rdpos.validatorMempool, rfl⟩
  · exact .refl s

theorem addValidatorTx_withPools (s : State) (tx : TxValidator) :
    ∃ pool, (s.addValidatorTx C tx).2 = s.withPools s.mempool pool := by
  obtain ⟨pool, hpool⟩ := RdPoS.addValidatorTx_state (C := C) s.storage.latest.nHeight s.rdpos tx
  exact ⟨pool, by rw [addValidatorTx, hpool]; rfl⟩

/-- Other mempools do not matter to it. -/
theorem Replays.of_replica {s₀ s s' : State} {blocks : List Block}
    (h : Replays C depth s₀ blocks s) (hs : Replica s s') (hpending : Pending C s') :
    Replays C depth s₀ (blocks ++ []) s' := by
  obtain ⟨t, hrun, hempty, hreplica⟩ := h.replayed
  rw [List.append_nil]
  exact ⟨⟨t, hrun, hempty, hreplica.trans hs⟩, by rw [hs.storage]; exact h.chain, hpending⟩

/-- **Step.**  Every operation leaves a replica of the node that was given the blocks. -/
theorem Replays.step {s₀ s s' : State} {blocks : List Block} {op : Op}
    (h : Replays C depth s₀ blocks s) (hin : ContainedOp C depth s op) (hop : ReplicaOp C s op)
    (hs : op.apply C depth s = some s') :
    Replays C depth s₀ (blocks ++ appended C depth s op) s' := by
  have hpending := h.pending.step hin hs
  cases op with
  | addTx tx =>
    rw [← Option.some.inj hs] at hpending ⊢
    exact h.of_replica (replica_addTx s tx) hpending
  | addValidatorTx tx =>
    rw [← Option.some.inj hs] at hpending ⊢
    exact h.of_replica ⟨s.mempool, addValidatorTx_withPools s tx⟩ hpending
  | processNextBlock block =>
    obtain ⟨⟨r, s₁⟩, hp, rfl⟩ := Option.map_eq_some_iff.mp hs
    rcases processNextBlock_cases h.pending.priced hp with ⟨-, e, heq⟩ | ⟨hv, ⟨e, s₂, heq, hs₂⟩ |
      ⟨s₂, rdpos, mempool, storage, heq, -⟩⟩
    · cases heq
      simp only [appended, hp]
      exact h.of_replica (.refl s) h.pending
    · exact absurd hs₂ (hin hv e s₂)
    · -- the block is appended here, hence by the node that was given the blocks alone
      obtain rfl : r = .ok () := congrArg Prod.fst heq
      obtain ⟨t, hrun, hempty, hreplica⟩ := h.replayed
      obtain ⟨t', ht', hreplica'⟩ := hreplica.symm.processNextBlock h.pending
        (pending_of_empty hempty) hop (known_of_empty hempty block) hp
      simp only [appended, hp]
      refine ⟨⟨t', ?_, ?_, hreplica'.symm⟩, ?_, hpending⟩
      · rw [List.map_append, Machine.run_append, hrun]
        simp [Machine.run, Op.apply, ht']
      · refine AList.ext (List.eq_nil_iff_forall_not_mem.mpr fun e he => ?_)
        have hold := processNextBlock_lookup ht' (AList.mem_lookup_iff.mpr he)
        rw [hempty] at hold
        cases hold
      · rw [chain_of_appended h.pending.priced hp, h.chain, List.append_assoc]
  | addBalance a => exact hop.elim
  | ethCall info => exact hop.elim
  | estimateGas info => exact hop.elim

/-- **Nodes with the same chain are replicas.**  Two nodes start as replicas with empty mempools,
    and each files whatever transactions and validator transactions and is given whatever blocks
    it happens to receive, in any order.  If no valid block lets an exception escape and they end
    with the same chain, they have the same accounts, contracts and validator schedule: they
    differ at most in what is pending. -/
theorem replicas_agree {s₀ t₀ s t : State} {ops ops' : List Op} (h₀ : Replica s₀ t₀)
    (hs₀ : s₀.mempool = ∅) (ht₀ : t₀.mempool = ∅)
    (hops : Machine.Along (Op.apply C depth)
      (fun s op => ContainedOp C depth s op ∧ ReplicaOp C s op) ops s₀)
    (hops' : Machine.Along (Op.apply C depth)
      (fun s op => ContainedOp C depth s op ∧ ReplicaOp C s op) ops' t₀)
    (hrun : Machine.run (Op.apply C depth) ops s₀ = some s)
    (hrun' : Machine.run (Op.apply C depth) ops' t₀ = some t)
    (hchain : s.storage.chain = t.storage.chain) : Replica s t := by
  have hstart : ∀ u, Replica s₀ u → u.mempool = ∅ → Replays C depth s₀ [] u := fun u hu hempty =>
    ⟨⟨s₀, rfl, hs₀, hu⟩, by rw [hu.storage, List.append_nil], pending_of_empty hempty⟩
  have hstep : ∀ (l : List Block) s op s', Replays C depth s₀ l s →
      ContainedOp C depth s op ∧ ReplicaOp C s op → op.apply C depth s = some s' →
      Replays C depth s₀ (l ++ appended C depth s op) s' :=
    fun _ _ _ _ h hop hs => h.step hop.1 hop.2 hs
  have hs := Machine.log_invariant hstep (hstart s₀ (.refl s₀) hs₀) hops hrun
  have ht := Machine.log_invariant hstep (hstart t₀ h₀ ht₀) hops' hrun'
  -- the same chain is the same blocks, and these have one outcome
  have hblocks := hs.chain.symm.trans (hchain.trans ht.chain)
  obtain ⟨u, hu, -, hreplica⟩ := hs.replayed
  obtain ⟨u', hu', -, hreplica'⟩ := ht.replayed
  rw [List.append_cancel_left hblocks, hu'] at hu
  cases hu
  exact hreplica.symm.trans hreplica'

/-- A block that is appended lets no exception escape. -/
theorem contained_of_appended {s s' : State} {block : Block}
    (h : s.processNextBlock C depth block = some (.ok (), s')) :
    ContainedOp C depth s (.processNextBlock block) := by
  intro hv e s₁ hs₁
  rw [processNextBlock_of_valid hv, commitBlock, hs₁] at h
  cases h

/-- One node has filed a validator transaction when the block arrives, the other has not. -/
theorem replicas_agree_filed : ∃ s₀ s t block, ∃ tx ∈ Recorded.validatorTxs,
    genesis Recorded.crypto = .ok s₀ ∧
    Machine.run (Op.apply Recorded.crypto 1) [.processNextBlock block] s₀ = some s ∧
    Machine.run (Op.apply Recorded.crypto 1) [.addValidatorTx tx, .processNextBlock block] s₀ =
      some t ∧ Replica s t := by
  obtain ⟨s₀, s, -, block, -, hs₀, -, -, hs, -⟩ := exists_rivals
  obtain ⟨tx, htx⟩ := List.exists_mem_of_ne_nil Recorded.validatorTxs (List.cons_ne_nil _ _)
  have hempty := (genesis_initial hs₀).mempool
  obtain ⟨pool, hfiled⟩ := addValidatorTx_withPools (C := Recorded.crypto) s₀ tx
  have hempty' : (s₀.addValidatorTx Recorded.crypto tx).2.mempool = ∅ := by
    rw [hfiled]
    exact hempty
  obtain ⟨t, ht, hreplica⟩ := Replica.processNextBlock ⟨s₀.mempool, pool, hfiled⟩
    (pending_of_empty hempty) (pending_of_empty hempty') (known_of_empty hempty block)
    (known_of_empty hempty' block) hs
  have hrun' : Machine.run (Op.apply Recorded.crypto 1)
      [.addValidatorTx tx, .processNextBlock block] s₀ = some t := by
    rw [Machine.run, Op.apply, Option.bind_some]
    exact run_appended ht
  refine ⟨s₀, s, t, block, tx, htx, hs₀, run_appended hs, hrun',
    replicas_agree (.refl s₀) hempty hempty ?_ ?_ (run_appended hs) hrun'
      (congrArg Storage.chain hreplica.storage.symm)⟩
  · exact ⟨⟨contained_of_appended hs, known_of_empty hempty block⟩, fun _ _ => trivial⟩
  · refine ⟨⟨trivial, trivial⟩, fun u hu => ?_⟩
    cases hu
    exact ⟨⟨contained_of_appended ht, known_of_empty hempty' block⟩, fun _ _ => trivial⟩

end State

end OrbiterSdk

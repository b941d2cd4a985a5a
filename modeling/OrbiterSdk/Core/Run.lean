import OrbiterSdk.Contract.Simulation
import OrbiterSdk.Core.Genesis
import OrbiterSdk.Core.Transaction
import OrbiterSdk.Lib.Machine

namespace OrbiterSdk

/-!
# Runs of a node

The operations of `State` as one machine (`Op`, `Op.apply`), where its runs start
(`State.Initial`), and the ways `processNextBlock` (`BlockRun`) and every operation (`OpRun`)
can go.
-/

/-- What can be asked of a node. -/
inductive Op where
  | addTx (tx : TxBlock)
  | addValidatorTx (tx : TxValidator)
  | addBalance (a : Address)
  | processNextBlock (block : Block)
  | ethCall (info : EthCallInfo)
  | estimateGas (info : EthCallInfo)

/-- The state after an operation, whether it returned or threw. -/
def Op.apply (C : Crypto) (depth : Nat) : Op → State → Option State
  | .addTx tx, s => some (s.addTx C tx).2
  | .addValidatorTx tx, s => some (s.addValidatorTx C tx).2
  | .addBalance a, s => some (s.addBalance a).2
  | .processNextBlock block, s => (s.processNextBlock C depth block).map fun r => r.2
  | .ethCall info, s => some (s.ethCall info).2
  | .estimateGas info, s => (s.estimateGas C depth info).map fun r => r.2

namespace State

open Accounts

/-- Where runs start: the genesis accounts, nothing pending, contracts as they are loaded. -/
structure Initial (s : State) : Prop where
  accounts : s.accounts = genesisAccounts
  mempool : s.mempool = ∅
  processingPayable : s.processingPayable = false
  balances : s.manager.balances = ∅
  resting : s.manager.Resting

theorem Initial.sane {s : State} (h : s.Initial) : s.Sane where
  resting := h.resting
  balances := h.balances
  fits := by rw [h.accounts]; decide

theorem genesis_initial {C : Crypto} {s : State} (h : genesis C = .ok s) : s.Initial := by
  obtain ⟨r, -, h⟩ := Except.bind_eq_ok.mp h
  cases h
  refine ⟨rfl, rfl, rfl, rfl, ⟨?_, ?_⟩⟩
  · intro a c hc; cases hc
  · intro a; rfl

theorem genesis_validatorMempool {C : Crypto} {s : State} (h : genesis C = .ok s) :
    s.rdpos.validatorMempool = ∅ := by
  obtain ⟨r, hr, h⟩ := Except.bind_eq_ok.mp h
  cases h
  unfold RdPoS.load at hr
  split at hr
  · cases hr
  · cases hr; rfl

/-! ### Blocks -/

variable {C : Crypto} {depth : Nat}

theorem validateNextBlock_ok {s : State} {block : Block}
    (h : s.validateNextBlock C block = .ok true) :
    block.nHeight = s.storage.latest.nHeight + 1 ∧
      block.prevBlockHash = s.storage.latest.hash C ∧
      s.storage.latest.timestamp ≤ block.timestamp ∧
      s.rdpos.validateBlock C block = true ∧ s.validateTxs C block.txs = .ok true := by
  unfold validateNextBlock at h
  dsimp only at h
  split at h
  · cases h
  · rename_i h1
    split at h
    · cases h
    · rename_i h2
      split at h
      · cases h
      · rename_i h3
        split at h
        · cases h
        · rename_i h4
          exact ⟨not_not.mp h1, not_not.mp h2, UInt64.not_lt.mp h3, by simpa using h4, h⟩

theorem revalidate_state (s : State) (es : List (Sigma fun _ : Hash => TxBlock)) :
    ∃ mempool, (revalidate C s es).2 = { s with mempool } := by
  induction es generalizing s with
  | nil => exact ⟨s.mempool, rfl⟩
  | cons e es ih =>
    obtain ⟨hash, tx⟩ := e
    unfold revalidate
    split
    · exact ⟨s.mempool, rfl⟩
    · obtain ⟨mempool, h⟩ := ih { s with mempool := s.mempool.emplace hash tx }
      exact ⟨mempool, h⟩
    · exact ih s

/-- What `processNextBlock` does under the unique lock, once the block is validated. -/
def commitBlock (C : Crypto) (depth : Nat) (s : State) (block : Block) :
    Option (Except Exn Unit × State) :=
  match processTransactions C depth block.txs s with
  | none => none
  | some (.error e, s) => some (.error e, s)
  | some (.ok (), s) =>
    match s.rdpos.processBlock C block with
    | .error e => some (.error e, s)
    | .ok rdpos =>
      match ({ s with rdpos } : State).refreshMempool C block with
      | (.error e, s) => some (.error e, s)
      | (.ok (), s) =>
        match s.storage.pushBack C block with
        | .error e => some (.error e, s)
        | .ok storage => some (.ok (), { s with storage })

theorem processNextBlock_of_valid {s : State} {block : Block}
    (h : s.validateNextBlock C block = .ok true) :
    s.processNextBlock C depth block = s.commitBlock C depth block := by
  rw [processNextBlock, h]
  rfl

/-- The ways the locked section can go. -/
inductive CommitRun (C : Crypto) (depth : Nat) (s : State) (block : Block) :
    Except Exn Unit × State → Prop where
  /-- An exception escapes from a transaction. -/
  | stopped (e : Exn) (s₁ : State) :
      processTransactions C depth block.txs s = some (.error e, s₁) →
      CommitRun C depth s block (.error e, s₁)
  /-- rdPoS refuses the block. -/
  | unfinalized (e : Exn) (s₁ : State) :
      processTransactions C depth block.txs s = some (.ok (), s₁) →
      s₁.rdpos.processBlock C block = .error e →
      CommitRun C depth s block (.error e, s₁)
  /-- Everything but the append: the refresh of the mempool throws, or the append itself. -/
  | unpushed (e : Exn) (s₁ : State) (rdpos : RdPoS) (r : Except Exn Unit)
      (mempool : AssocMap Hash TxBlock) :
      processTransactions C depth block.txs s = some (.ok (), s₁) →
      s₁.rdpos.processBlock C block = .ok rdpos →
      ({ s₁ with rdpos } : State).refreshMempool C block = (r, { s₁ with rdpos, mempool }) →
      r = .error e ∨ s₁.storage.pushBack C block = .error e →
      CommitRun C depth s block (.error e, { s₁ with rdpos, mempool })
  /-- The block is appended. -/
  | accepted (s₁ : State) (rdpos : RdPoS) (mempool : AssocMap Hash TxBlock) (storage : Storage) :
      processTransactions C depth block.txs s = some (.ok (), s₁) →
      s₁.rdpos.processBlock C block = .ok rdpos →
      ({ s₁ with rdpos } : State).refreshMempool C block = (.ok (), { s₁ with rdpos, mempool }) →
      s₁.storage.pushBack C block = .ok storage →
      CommitRun C depth s block (.ok (), { s₁ with rdpos, mempool, storage })

theorem commitBlock_run {s : State} {block : Block} {p : Except Exn Unit × State}
    (h : s.commitBlock C depth block = some p) : CommitRun C depth s block p := by
  unfold commitBlock at h
  split at h
  · cases h
  · rename_i hs₁; cases h; exact .stopped _ _ hs₁
  · rename_i s₁ hs₁
    split at h
    · rename_i hr; cases h; exact .unfinalized _ _ hs₁ hr
    · rename_i rdpos hr
      obtain ⟨mempool, hm⟩ := revalidate_state (C := C) { s₁ with rdpos, mempool := ∅ }
        (block.txs.foldl (fun m tx => m.erase (tx.hash C true)) s₁.mempool).entries
      split at h
      all_goals
        rename_i s₂ hs₂
        have hs₂' : s₂ = { s₁ with rdpos, mempool } := (congrArg Prod.snd hs₂).symm.trans hm
        subst hs₂'
      · cases h; exact .unpushed _ s₁ rdpos _ mempool hs₁ hr hs₂ (Or.inl rfl)
      · split at h
        · rename_i hst
          cases h; exact .unpushed _ s₁ rdpos _ mempool hs₁ hr hs₂ (Or.inr hst)
        · rename_i hst; cases h; exact .accepted s₁ rdpos mempool _ hs₁ hr hs₂ hst

/-- The ways `processNextBlock` can go. -/
inductive BlockRun (C : Crypto) (depth : Nat) (s : State) (block : Block) :
    Except Exn Unit × State → Prop where
  /-- The block is not valid. -/
  | refused (e : Exn) : s.validateNextBlock C block ≠ .ok true →
      BlockRun C depth s block (.error e, s)
  /-- An exception escapes from a transaction. -/
  | stopped (e : Exn) (s₁ : State) : s.validateNextBlock C block = .ok true →
      processTransactions C depth block.txs s = some (.error e, s₁) →
      BlockRun C depth s block (.error e, s₁)
  /-- rdPoS refuses the block. -/
  | unfinalized (e : Exn) (s₁ : State) : s.validateNextBlock C block = .ok true →
      processTransactions C depth block.txs s = some (.ok (), s₁) →
      s₁.rdpos.processBlock C block = .error e →
      BlockRun C depth s block (.error e, s₁)
  /-- Everything but the append: the refresh of the mempool throws, or the append itself. -/
  | unpushed (e : Exn) (s₁ : State) (rdpos : RdPoS) (r : Except Exn Unit)
      (mempool : AssocMap Hash TxBlock) : s.validateNextBlock C block = .ok true →
      processTransactions C depth block.txs s = some (.ok (), s₁) →
      s₁.rdpos.processBlock C block = .ok rdpos →
      ({ s₁ with rdpos } : State).refreshMempool C block = (r, { s₁ with rdpos, mempool }) →
      r = .error e ∨ s₁.storage.pushBack C block = .error e →
      BlockRun C depth s block (.error e, { s₁ with rdpos, mempool })
  /-- The block is appended. -/
  | accepted (s₁ : State) (rdpos : RdPoS) (mempool : AssocMap Hash TxBlock) (storage : Storage) :
      s.validateNextBlock C block = .ok true →
      processTransactions C depth block.txs s = some (.ok (), s₁) →
      s₁.rdpos.processBlock C block = .ok rdpos →
      ({ s₁ with rdpos } : State).refreshMempool C block = (.ok (), { s₁ with rdpos, mempool }) →
      s₁.storage.pushBack C block = .ok storage →
      BlockRun C depth s block (.ok (), { s₁ with rdpos, mempool, storage })

theorem processNextBlock_run {s : State} {block : Block} {p : Except Exn Unit × State}
    (h : s.processNextBlock C depth block = some p) : BlockRun C depth s block p := by
  by_cases hv : s.validateNextBlock C block = .ok true
  · rw [processNextBlock_of_valid hv] at h
    cases commitBlock_run h with
    | stopped e s₁ hs₁ => exact .stopped e s₁ hv hs₁
    | unfinalized e s₁ hs₁ hr => exact .unfinalized e s₁ hv hs₁ hr
    | unpushed e s₁ rdpos r mempool hs₁ hr hm hfail =>
      exact .unpushed e s₁ rdpos r mempool hv hs₁ hr hm hfail
    | accepted s₁ rdpos mempool storage hs₁ hr hm hst =>
      exact .accepted s₁ rdpos mempool storage hv hs₁ hr hm hst
  · unfold processNextBlock at h
    split at h
    · cases h; exact .refused _ hv
    · cases h; exact .refused _ hv
    · rename_i hv'; exact absurd hv' hv

theorem processTransactions_cons {tx : TxBlock} {txs : List TxBlock} {s s' : State}
    {r : Except Exn Unit} (h : processTransactions C depth (tx :: txs) s = some (r, s')) :
    (∃ e, r = .error e ∧ processTransaction C depth s tx = some (.error e, s')) ∨
      ∃ s₁, processTransaction C depth s tx = some (.ok (), s₁) ∧
        processTransactions C depth txs s₁ = some (r, s') := by
  unfold processTransactions at h
  split at h
  · cases h
  · rename_i e s₁ hp; cases h; exact Or.inl ⟨e, rfl, hp⟩
  · rename_i s₁ hp; exact Or.inr ⟨s₁, hp, h⟩

theorem processTransactions_along {I : State → Prop} {txs : List TxBlock}
    (hstep : ∀ s, ∀ tx ∈ txs, ∀ p, I s → processTransaction C depth s tx = some p → I p.2)
    {s : State} {p : Except Exn Unit × State} (h : I s)
    (hp : processTransactions C depth txs s = some p) : I p.2 := by
  obtain ⟨r, s'⟩ := p
  induction txs generalizing s with
  | nil => cases hp; exact h
  | cons tx txs ih =>
    rcases processTransactions_cons hp with ⟨e, rfl, hp₁⟩ | ⟨s₁, hp₁, hp⟩
    · exact hstep s tx (by simp) _ h hp₁
    · exact ih (fun s tx' htx' => hstep s tx' (by simp [htx'])) (hstep s tx (by simp) _ h hp₁) hp

/-- What each transaction of a block keeps, the block keeps, however it ends: nothing else
    touches the manager or the accounts. -/
theorem processNextBlock_along {I : State → Prop} {block : Block}
    (hstep : ∀ s, ∀ tx ∈ block.txs, ∀ p, I s → processTransaction C depth s tx = some p → I p.2)
    (hcongr : ∀ s s', s'.manager = s.manager → s'.accounts = s.accounts → I s → I s') {s : State}
    {p : Except Exn Unit × State} (h : I s) (hp : s.processNextBlock C depth block = some p) :
    I p.2 := by
  have htxs : ∀ {r s₁}, processTransactions C depth block.txs s = some (r, s₁) → I s₁ :=
    fun hp₁ => processTransactions_along hstep h hp₁
  cases processNextBlock_run hp with
  | refused e => exact h
  | stopped e s₁ hv hs₁ => exact htxs hs₁
  | unfinalized e s₁ hv hs₁ => exact htxs hs₁
  | unpushed e s₁ rdpos r mempool hv hs₁ => exact hcongr s₁ _ rfl rfl (htxs hs₁)
  | accepted s₁ rdpos mempool storage hv hs₁ => exact hcongr s₁ _ rfl rfl (htxs hs₁)

theorem processTransactions_invariant {I : State → Prop}
    (hstep : ∀ s tx p, I s → processTransaction C depth s tx = some p → I p.2)
    {txs : List TxBlock} {s : State} {p : Except Exn Unit × State} (h : I s)
    (hp : processTransactions C depth txs s = some p) : I p.2 :=
  processTransactions_along (fun s tx _ => hstep s tx) h hp

theorem processNextBlock_invariant {I : State → Prop}
    (hstep : ∀ s tx p, I s → processTransaction C depth s tx = some p → I p.2)
    (hcongr : ∀ s s', s'.manager = s.manager → I s → I s') {s : State} {block : Block}
    {p : Except Exn Unit × State} (h : I s) (hp : s.processNextBlock C depth block = some p) :
    I p.2 :=
  processNextBlock_along (fun s tx _ => hstep s tx) (fun s s' hm _ => hcongr s s' hm) h hp

/-- The faucet sets one balance, to no less than it was. -/
theorem increaseBalance_state (amount : Uint256) (s : State) (a : Address) :
    ∃ x : Uint256, balance s.accounts a ≤ x.val ∧
      (increaseBalance amount s a).2 = { s with accounts := setBalance s.accounts a x } := by
  unfold increaseBalance
  split
  · exact ⟨_, (balance_account _ _).ge, rfl⟩
  · rename_i x hadd
    have := uadd_eq_ok.mp hadd
    rw [balance_account] at this
    exact ⟨x, by omega, rfl⟩

/-- The ways an operation can go, and what it leaves alone. -/
inductive OpRun (C : Crypto) (depth : Nat) (s : State) : Op → State → Prop where
  /-- The transaction is not valid. -/
  | refused (tx : TxBlock) : OpRun C depth s (.addTx tx) s
  /-- The transaction is filed, unless its hash is there already. -/
  | filed (tx : TxBlock) : s.validateTransactionInternal C tx = .ok .NotInvalid →
      OpRun C depth s (.addTx tx)
        { s with mempool := s.mempool.emplace (tx.hash C true) tx }
  /-- A validator transaction concerns the mempool of rdPoS alone. -/
  | delivered (tx : TxValidator) (pool : AssocMap Hash TxValidator) :
      OpRun C depth s (.addValidatorTx tx)
        { s with rdpos := { s.rdpos with validatorMempool := pool } }
  /-- The faucet sets one balance, to no less than it was. -/
  | filled (a : Address) (x : Uint256) : balance s.accounts a ≤ x.val →
      OpRun C depth s (.addBalance a) { s with accounts := setBalance s.accounts a x }
  | processed (block : Block) (p : Except Exn Unit × State) :
      s.processNextBlock C depth block = some p →
      OpRun C depth s (.processNextBlock block) p.2
  /-- Views and simulations concern the contracts alone. -/
  | viewed (info : EthCallInfo) (manager : ContractManager) :
      (s.manager.Resting → manager.Resting) →
      OpRun C depth s (.ethCall info) { s with manager }
  | simulated (info : EthCallInfo) (manager : ContractManager) :
      (s.manager.Resting → manager.Resting) →
      OpRun C depth s (.estimateGas info) { s with manager }

theorem apply_run {s s' : State} {op : Op} (hs : op.apply C depth s = some s') :
    OpRun C depth s op s' := by
  cases op with
  | addTx tx =>
    cases hs
    unfold addTx
    split
    · exact .refused tx
    · rename_i hv; exact .filed tx hv
    · exact .refused tx
  | addValidatorTx tx =>
    cases hs
    obtain ⟨pool, hpool⟩ :=
      RdPoS.addValidatorTx_state (C := C) s.storage.latest.nHeight s.rdpos tx
    have hstate : (s.addValidatorTx C tx).2 =
        { s with rdpos := { s.rdpos with validatorMempool := pool } } := by
      rw [← hpool]
      rfl
    rw [hstate]
    exact .delivered tx pool
  | addBalance a =>
    obtain ⟨x, hx, hadd⟩ := increaseBalance_state ⟨10 ^ 21, thousandTokens_lt⟩ s a
    rw [Op.apply, addBalance, hadd, Option.some.injEq] at hs
    subst hs
    exact .filled a x hx
  | processNextBlock block =>
    obtain ⟨p, hp, rfl⟩ := Option.map_eq_some_iff.mp hs
    exact .processed block p hp
  | ethCall info =>
    cases hs
    unfold ethCall
    split
    · exact .viewed info _ fun h => (ContractManager.callContractView_same h.good info).resting h
    · exact .viewed info s.manager id
  | estimateGas info =>
    obtain ⟨p, hp, rfl⟩ := Option.map_eq_some_iff.mp hs
    unfold estimateGas at hp
    split at hp
    · cases hp; exact .simulated info s.manager id
    · cases hp; exact .simulated info s.manager id
    · split at hp
      · obtain ⟨o, ho, rfl⟩ := Option.map_eq_some_iff.mp hp
        exact .simulated info _ fun h => ContractManager.validateCallContractWithTx_resting h ho
      · cases hp; exact .simulated info s.manager id

theorem apply_resting {s s' : State} {op : Op} (h : s.manager.Resting)
    (hs : op.apply C depth s = some s') : s'.manager.Resting := by
  cases apply_run hs with
  | refused tx => exact h
  | filed tx => exact h
  | delivered tx pool => exact h
  | filled a x => exact h
  | processed block p hp =>
    exact processNextBlock_invariant (I := fun s => s.manager.Resting)
      (fun _ _ _ h hp => processTransaction_resting h hp) (fun _ _ hm h => hm ▸ h) h hp
  | viewed info manager hrest => exact hrest h
  | simulated info manager hrest => exact hrest h

theorem run_resting {s₀ s : State} {ops : List Op} (h₀ : s₀.Initial)
    (hrun : Machine.run (Op.apply C depth) ops s₀ = some s) : s.manager.Resting :=
  Machine.run_invariant (fun _ _ _ h _ hs => apply_resting h hs) h₀.resting
    (Machine.along_of_forall (P := fun _ _ => True) (fun _ _ => trivial) ops s₀) hrun

end State

end OrbiterSdk

import OrbiterSdk.Contract.Accounts

namespace OrbiterSdk

/-!
# The contract call of a transaction

What `ContractManager::callContract(tx)` does, in terms of `Steps`:

* `ethCall_ok` — the manager's own functions deploy at most one contract;
* `callContract_cases` — the four ways a transaction's call can go;
* `callDeployed_called`, `settle_cases` — the call of a deployed contract and its end;
* `CallEffect`, `callContract_effect` — what every one of them does to accounts, contracts
  and temporary balances;
* `callContract_variables` — what every one of them does to the committed variables.
-/

/-! ### New contracts -/

namespace Store

theorem init_wf : Store.init.WF where
  used v := by cases v <;> simp [registered, Store.init]
  quiet l _ := by cases l <;> rfl
  erased _ := rfl

theorem describe_wf (name symbol : Bytes) (decimals : Uint256) :
    (Store.init.describe name symbol decimals).WF :=
  (set_spec (set_spec (set_spec init_wf _ _).wf _ _).wf _ _).wf

theorem mintValue_wf {s s' : Store} {a : Address} {value : Uint256} (h : s.WF)
    (hs : s.mintValue a value = .ok s') : s'.WF := by
  unfold mintValue at hs
  obtain ⟨x, -, hs⟩ := Except.bind_eq_ok.mp hs
  obtain ⟨y, -, hs⟩ := Except.bind_eq_ok.mp hs
  cases hs
  have hindex := (index_spec h balancesVar a).2.wf
  have hassign := (assign_spec hindex balancesVar a (.uint x)).wf
  exact (set_spec (get_spec hassign totalSupplyVar).2.wf totalSupplyVar (.uint y)).wf

end Store

theorem ERC20.new_quiet {self creator : Address} {name symbol : Bytes}
    {decimals mintValue : Uint256} {c : DynamicContract}
    (h : ERC20.new self creator name symbol decimals mintValue = .ok c) : c.store.Quiet := by
  obtain ⟨s, hs, hc⟩ := Except.bind_eq_ok.mp h
  cases hc
  exact (Store.updateState_spec (Store.mintValue_wf (Store.describe_wf _ _ _) hs) true).1

theorem ERC20Wrapper.new_quiet (C : Crypto) (self : Address) :
    (ERC20Wrapper.new C self).store.Quiet :=
  (Store.updateState_spec Store.init_wf true).1

theorem NativeWrapper.new_quiet (self : Address) (name symbol : Bytes) (decimals : Uint256) :
    (NativeWrapper.new self name symbol decimals).store.Quiet :=
  (Store.updateState_spec (Store.describe_wf _ _ _) true).1

/-- A contract at `a` as one of the three creations makes it. -/
inductive New (C : Crypto) (a : Address) : DynamicContract → Prop where
  | erc20 (creator : Address) (name symbol : Bytes) (decimals mintValue : Uint256)
      (c : DynamicContract) : ERC20.new a creator name symbol decimals mintValue = .ok c → New C a c
  | erc20Wrapper : New C a (ERC20Wrapper.new C a)
  | nativeWrapper (name symbol : Bytes) (decimals : Uint256) :
      New C a (NativeWrapper.new a name symbol decimals)

theorem New.quiet {C : Crypto} {a : Address} {c : DynamicContract} (h : New C a c) :
    c.store.Quiet := by
  cases h with
  | erc20 creator name symbol decimals mintValue c hc => exact ERC20.new_quiet hc
  | erc20Wrapper => exact ERC20Wrapper.new_quiet C a
  | nativeWrapper name symbol decimals => exact NativeWrapper.new_quiet a name symbol decimals

namespace ContractManager

/-- What one successful creation adds, and how it was made. -/
def DeploysNew (C : Crypto) (m m' : ContractManager) : Prop :=
  ∃ a c, a ∉ m.contracts ∧ New C a c ∧ m' = { m with contracts := m.contracts.insert a c }

/-- What one successful creation adds at the address that its checks let through. -/
def DeploysChecked (C : Crypto) (m m' : ContractManager) : Prop :=
  ∃ a c, m.checkDeployment C = .ok a ∧ New C a c ∧
    m' = { m with contracts := m.contracts.insert a c }

/-- What one successful creation adds. -/
def Deploys (m m' : ContractManager) : Prop :=
  ∃ a c, a ∉ m.contracts ∧ c.store.Quiet ∧ m' = { m with contracts := m.contracts.insert a c }

theorem DeploysNew.deploys {C : Crypto} {m m' : ContractManager} (h : m.DeploysNew C m') :
    m.Deploys m' := by
  obtain ⟨a, c, ha, hc, hm'⟩ := h
  exact ⟨a, c, ha, hc.quiet, hm'⟩

theorem lookup_insert_cases {contracts : AssocMap Address DynamicContract} {a b : Address}
    {c d : DynamicContract} (h : (contracts.insert a c).lookup b = some d) :
    d = c ∨ contracts.lookup b = some d := by
  by_cases hb : b = a
  · subst hb
    rw [AList.lookup_insert, Option.some.injEq] at h
    exact Or.inl h.symm
  · rw [AList.lookup_insert_ne hb] at h
    exact Or.inr h

theorem checkDeployment_ok {C : Crypto} {m : ContractManager} {a : Address}
    (h : m.checkDeployment C = .ok a) :
    a ∉ m.contracts ∧ a ∉ protocolContractAddresses ∧ a = m.deriveContractAddress C := by
  unfold checkDeployment at h
  split at h
  · cases h
  · dsimp only at h
    split at h
    · cases h
    · rename_i hmem
      split at h
      · cases h
      · rename_i hprotocol
        cases h
        exact ⟨hmem, hprotocol, rfl⟩

theorem DeploysChecked.deploysNew {C : Crypto} {m m' : ContractManager}
    (h : m.DeploysChecked C m') : m.DeploysNew C m' := by
  obtain ⟨a, c, ha, hc, hm'⟩ := h
  exact ⟨a, c, (checkDeployment_ok ha).1, hc, hm'⟩

theorem createNewERC20Contract_ok {C : Crypto} {m m' : ContractManager} {info : EthCallInfo}
    (h : m.createNewERC20Contract C info = .ok m') : m.DeploysChecked C m' := by
  obtain ⟨⟨a, name, symbol, decimals, supply⟩, hv, h⟩ := Except.bind_eq_ok.mp h
  obtain ⟨c, hc, h⟩ := Except.bind_eq_ok.mp h
  cases h
  obtain ⟨a', ha', hv⟩ := Except.bind_eq_ok.mp hv
  have ha : a = a' := by
    obtain ⟨_, -, hv⟩ := Except.bind_eq_ok.mp hv
    obtain ⟨_, -, hv⟩ := Except.bind_eq_ok.mp hv
    obtain ⟨_, -, hv⟩ := Except.bind_eq_ok.mp hv
    obtain ⟨_, -, hv⟩ := Except.bind_eq_ok.mp hv
    obtain ⟨_, -, hv⟩ := Except.bind_eq_ok.mp hv
    split at hv
    · cases hv
    · cases hv; rfl
  subst ha
  exact ⟨a, c, ha', .erc20 _ _ _ _ _ c (liftExn_eq_ok.mp hc), rfl⟩

theorem createNewERC20WrapperContract_ok {C : Crypto} {m m' : ContractManager}
    (h : m.createNewERC20WrapperContract C = .ok m') : m.DeploysChecked C m' := by
  obtain ⟨a, ha, h⟩ := Except.bind_eq_ok.mp h
  cases h
  exact ⟨a, _, ha, .erc20Wrapper, rfl⟩

theorem createNewERC20NativeWrapperContract_ok {C : Crypto} {m m' : ContractManager}
    {info : EthCallInfo} (h : m.createNewERC20NativeWrapperContract C info = .ok m') :
    m.DeploysChecked C m' := by
  obtain ⟨⟨a, name, symbol, decimals⟩, hv, h⟩ := Except.bind_eq_ok.mp h
  cases h
  obtain ⟨a', ha', hv⟩ := Except.bind_eq_ok.mp hv
  have ha : a = a' := by
    obtain ⟨_, -, hv⟩ := Except.bind_eq_ok.mp hv
    obtain ⟨_, -, hv⟩ := Except.bind_eq_ok.mp hv
    obtain ⟨_, -, hv⟩ := Except.bind_eq_ok.mp hv
    obtain ⟨_, -, hv⟩ := Except.bind_eq_ok.mp hv
    split at hv
    · cases hv
    · cases hv; rfl
  subst ha
  exact ⟨a, _, ha', .nativeWrapper _ _ _, rfl⟩

/-- A successful call of the manager's own functions changes nothing or, with the commit
    flag set, deploys one contract where its checks allow it. -/
theorem ethCall_checked {C : Crypto} {m m' : ContractManager} {info : EthCallInfo}
    (h : m.ethCall C info = .ok m') :
    m' = m ∨ (m.locals.commit = true ∧ m.DeploysChecked C m') := by
  unfold ContractManager.ethCall at h
  split at h
  · split at h
    · rename_i hc; exact Or.inr ⟨hc, createNewERC20Contract_ok h⟩
    · obtain ⟨_, -, h⟩ := Except.bind_eq_ok.mp h
      cases h; exact Or.inl rfl
  · split at h
    · split at h
      · rename_i hc; exact Or.inr ⟨hc, createNewERC20WrapperContract_ok h⟩
      · obtain ⟨_, -, h⟩ := Except.bind_eq_ok.mp h
        cases h; exact Or.inl rfl
    · split at h
      · split at h
        · rename_i hc; exact Or.inr ⟨hc, createNewERC20NativeWrapperContract_ok h⟩
        · obtain ⟨_, -, h⟩ := Except.bind_eq_ok.mp h
          cases h; exact Or.inl rfl
      · cases h

theorem ethCall_ok {C : Crypto} {m m' : ContractManager} {info : EthCallInfo}
    (h : m.ethCall C info = .ok m') :
    m' = m ∨ (m.locals.commit = true ∧ m.DeploysNew C m') := by
  rcases ethCall_checked h with hsame | ⟨hcommit, hdeploys⟩
  · exact Or.inl hsame
  · exact Or.inr ⟨hcommit, hdeploys.deploysNew⟩

/-! ### Managers between calls -/

/-- Between calls every contract shows what is committed. -/
structure Resting (m : ContractManager) : Prop where
  good : m.Good
  quiet : ∀ a, m.cells.cur a = m.cells.com a

theorem Resting.congr {m m' : ContractManager} (h : m.Resting) (he : m'.contracts = m.contracts) :
    m'.Resting where
  good a c hc := h.good a c (he ▸ hc)
  quiet a := by
    have := h.quiet a
    simp only [cells] at this ⊢
    rwa [he]

theorem Resting.modifyLocals {m : ContractManager} (h : m.Resting) (a : Address)
    (f : ContractLocals → ContractLocals) : (m.modifyLocals a f).Resting where
  good := good_modifyLocals h.good a f
  quiet b := by
    have hb := h.quiet b
    simp only [cells, ContractManager.modifyLocals, lookup_modifyContract] at hb ⊢
    split
    · rename_i hba
      subst hba
      cases hc : m.contracts.lookup b with
      | none => rfl
      | some c => simpa [hc] using hb
    · exact hb

theorem Resting.deploy {m m' : ContractManager} (h : m.Resting) (hd : m.Deploys m') :
    m'.Resting := by
  obtain ⟨a, c, -, hc, rfl⟩ := hd
  constructor
  · intro b d hd
    rcases lookup_insert_cases hd with rfl | hd
    · exact hc.1
    · exact h.good b d hd
  · intro b
    by_cases hb : b = a
    · subst hb
      funext l
      simp only [cells, AList.lookup_insert, Option.bind_some]
      exact hc.1.quiet l (by rw [← Bool.not_eq_true, hc.1.used, hc.2]; simp)
    · have := h.quiet b
      simpa only [cells, AList.lookup_insert_ne hb] using this

/-! ### The four ways of a call -/

/-- `callContract(tx)` goes to the manager itself, to rdPoS, nowhere, or to a deployed
    contract. -/
theorem callContract_cases {C : Crypto} {depth : Nat} {pp : Bool} {accounts : Accounts}
    {m : ContractManager} {tx : TxBlock} {o : TxOutcome}
    (h : m.callContract C depth pp accounts tx = some o) :
    (tx.receiver = contractManagerAddress ∧
        callManager C accounts (m.setCommit true) tx.txToCallInfo = some o) ∨
      (tx.receiver = rdPoSAddress ∧ o = ⟨.error notOverridden, accounts,
        ((m.setCommit true).enterRdPoS tx.txToCallInfo).clearBalances, .nil⟩) ∨
      (tx.receiver ∉ m.contracts ∧ o = ⟨.error (.runtimeError "Contract does not exist"), accounts,
        (m.setCommit true).clearBalances, .nil⟩) ∨
      (tx.receiver ≠ contractManagerAddress ∧ tx.receiver ∈ m.contracts ∧
        callDeployed depth pp accounts (m.setCommit true) tx.txToCallInfo = some o) := by
  unfold callContract at h
  dsimp only at h
  split at h
  · rename_i hr; exact Or.inl ⟨hr, h⟩
  · rename_i hne
    split at h
    · rename_i hr; cases h; exact Or.inr (Or.inl ⟨hr, rfl⟩)
    · split at h
      · rename_i hr; cases h; exact Or.inr (Or.inr (Or.inl ⟨hr, rfl⟩))
      · rename_i hr; exact Or.inr (Or.inr (Or.inr ⟨hne, not_not.mp hr, h⟩))

theorem callManager_cases {C : Crypto} {accounts : Accounts} {m : ContractManager}
    {info : EthCallInfo} {o : TxOutcome} (h : callManager C accounts m info = some o) :
    o.accounts = accounts ∧ o.trace = .nil ∧ o.manager.balances = ∅ ∧
      (o.manager.contracts = m.contracts ∨
        (o.result = .ok () ∧ ∃ m', m.DeploysNew C m' ∧ o.manager.contracts = m'.contracts)) := by
  unfold callManager at h
  dsimp only at h
  split at h
  · cases h
  · cases h; exact ⟨rfl, rfl, rfl, Or.inl rfl⟩
  · rename_i m' hm
    cases h
    refine ⟨rfl, rfl, rfl, ?_⟩
    rcases ethCall_ok hm with rfl | ⟨-, a, c, ha, hc, rfl⟩
    · exact Or.inl rfl
    · exact Or.inr ⟨rfl, _, ⟨a, c, ha, hc, rfl⟩, rfl⟩

theorem callDeployed_called {depth : Nat} {pp : Bool} {accounts : Accounts}
    {m : ContractManager} {info : EthCallInfo} {o : TxOutcome} (hgood : m.Good)
    (h : callDeployed depth pp accounts m info = some o) :
    ∃ o₁, Steps accounts info.receiver (m.enterContract info true) o₁.manager o₁.trace ∧
      o = settle pp accounts info (finish info.receiver o₁) := by
  obtain ⟨o', ho', rfl⟩ := Option.map_eq_some_iff.mp h
  obtain ⟨-, o₁, hs, rfl⟩ := ethCall_sound accounts depth _ _ _ _ (good_modifyLocals hgood _ _) ho'
  exact ⟨o₁, hs, rfl⟩

theorem isPayable_of_shape {m m' : ContractManager} (h : m'.shape = m.shape) (info : EthCallInfo) :
    m'.isPayable info = m.isPayable info := by
  have hr := lookup_of_shape h info.receiver
  unfold isPayable DynamicContract.isPayableFunction
  cases hc' : m'.contracts.lookup info.receiver <;> cases hc : m.contracts.lookup info.receiver <;>
    simp_all

/-- What `processContractPayable` throws outside payable calls. -/
def haywire : Exn :=
  .runtimeError ("Uh oh, contracts are going haywire! " ++
    "Cannot change State while not processing a payable contract.")

/-- The manager a settled call leaves. -/
def closed (m : ContractManager) (info : EthCallInfo) : ContractManager :=
  m.clearBalances.setContractCommit info.receiver false

theorem settle_cases (pp : Bool) (accounts : Accounts) (info : EthCallInfo) (o : Outcome) :
    (∃ e, o.result = .error e ∧
        settle pp accounts info o = ⟨.error e, accounts, o.manager.closed info, o.trace⟩) ∨
      (o.result = .ok () ∧ o.manager.isPayable info = false ∧
        settle pp accounts info o = ⟨.ok (), accounts, o.manager.closed info, o.trace⟩) ∨
      (o.result = .ok () ∧ o.manager.isPayable info = true ∧ pp = true ∧
        settle pp accounts info o = ⟨.ok (), Accounts.payable accounts o.manager.balances,
          o.manager.closed info, o.trace⟩) ∨
      (o.result = .ok () ∧ o.manager.isPayable info = true ∧ pp = false ∧
        settle pp accounts info o = ⟨.error haywire, accounts, o.manager, o.trace⟩) := by
  unfold settle
  cases hr : o.result with
  | error e => exact Or.inl ⟨e, rfl, rfl⟩
  | ok u =>
    cases hp : o.manager.isPayable info with
    | false => exact Or.inr (Or.inl ⟨rfl, rfl, rfl⟩)
    | true =>
      cases pp with
      | true => exact Or.inr (Or.inr (Or.inl ⟨rfl, rfl, rfl, rfl⟩))
      | false => exact Or.inr (Or.inr (Or.inr ⟨rfl, rfl, rfl, rfl⟩))

@[simp] theorem closed_shape (m : ContractManager) (info : EthCallInfo) :
    (m.closed info).shape = m.shape := shape_modifyLocals m.clearBalances _ _

theorem Resting.closed {m : ContractManager} (h : m.Resting) (info : EthCallInfo) :
    (m.closed info).Resting := by
  have hclear : m.clearBalances.Resting := h.congr rfl
  exact hclear.modifyLocals info.receiver fun l => { l with commit := false }

theorem finish_resting {accounts : Accounts} {me : Address} {m : ContractManager} {o : Outcome}
    (h : m.Resting) (hme : me ∈ m.contracts) (hs : Steps accounts me m o.manager o.trace) :
    (finish me o).manager.Resting where
  good := finish_good hs.good
  quiet a := by
    rw [finish_cells hs.good (hs.mem.mpr hme), hs.cells]
    exact CallTree.finish_quiet _ _ _ _ _ h.quiet a

/-! ### What every call does -/

/-- What `callContract(tx)` does to the accounts, the contracts and the temporary balances. -/
structure CallEffect (pp : Bool) (accounts : Accounts) (m : ContractManager) (tx : TxBlock)
    (o : TxOutcome) : Prop where
  /-- The contracts rest again. -/
  resting : o.manager.Resting
  /-- No contract disappears. -/
  contracts : ∀ a ∈ m.contracts, a ∈ o.manager.contracts
  /-- A call that throws leaves the accounts as they were. -/
  failed : ∀ e, o.result = .error e → o.accounts = accounts
  /-- Nonces stay. -/
  nonce : ∀ a, Accounts.nonce o.accounts a = Accounts.nonce accounts a
  /-- No account disappears. -/
  mem : ∀ a ∈ accounts, a ∈ o.accounts
  /-- The temporary balances are cleared. -/
  balances : (m.isPayable tx.txToCallInfo = true → pp = true) → o.manager.balances = ∅
  /-- The accounts stay, or end as the ledger does. -/
  ledger : o.accounts = accounts ∨
    ∃ m₁ : ContractManager, o.accounts = Accounts.payable accounts m₁.balances ∧
      m₁.view accounts = Ledger.run (m.view accounts) o.trace.events ∧
      Ledger.Legal (2 ^ 256) (m.view accounts) o.trace.events ∧
      ∀ src dst n e, Ledger.Event.send src dst n e ∈ o.trace.events → src ∈ m.contracts

/-- A call that leaves accounts alone, clears the balances and keeps the contracts. -/
theorem CallEffect.unchanged {pp : Bool} {accounts : Accounts} {m m' : ContractManager}
    {tx : TxBlock} {r : Except Exn Unit} {t : Trace} (hrest : m'.Resting)
    (hmem : ∀ a ∈ m.contracts, a ∈ m'.contracts)
    (hbal : (m.isPayable tx.txToCallInfo = true → pp = true) → m'.balances = ∅) :
    CallEffect pp accounts m tx ⟨r, accounts, m', t⟩ where
  resting := hrest
  contracts := hmem
  failed _ _ := rfl
  nonce _ := rfl
  mem _ h := h
  balances := hbal
  ledger := Or.inl rfl

theorem callDeployed_effect {depth : Nat} {pp : Bool} {accounts : Accounts}
    {m : ContractManager} {tx : TxBlock} {o : TxOutcome} (h : m.Resting)
    (hr : tx.receiver ∈ m.contracts)
    (ho : callDeployed depth pp accounts (m.setCommit true) tx.txToCallInfo = some o) :
    CallEffect pp accounts m tx o := by
  set info := tx.txToCallInfo with hinfo
  have hrest : ((m.setCommit true).enterContract info true).Resting :=
    Resting.modifyLocals (m := m.setCommit true) (h.congr rfl) _ _
  obtain ⟨o₁, hs, rfl⟩ := callDeployed_called (m := m.setCommit true) h.good ho
  have hentered : ∀ a, a ∈ ((m.setCommit true).enterContract info true).contracts ↔
      a ∈ m.contracts := fun a => AssocMap.mem_modify
  have hfin := finish_resting hrest ((hentered _).mpr hr) hs
  have hmem : ∀ a ∈ m.contracts, a ∈ ((finish info.receiver o₁).manager).contracts := fun a ha =>
    (mem_of_shape ((finish_shape _ _).trans hs.shape)).mpr ((hentered a).mpr ha)
  have hclosed : ∀ a ∈ m.contracts, a ∈ ((finish info.receiver o₁).manager.closed info).contracts :=
    fun a ha => (mem_of_shape (closed_shape _ _)).mpr (hmem a ha)
  have hpay : (finish info.receiver o₁).manager.isPayable info = m.isPayable info :=
    isPayable_of_shape ((finish_shape _ _).trans hs.shape) info |>.trans
      (isPayable_of_shape (shape_modifyLocals _ _ _) info)
  rcases settle_cases pp accounts info (finish info.receiver o₁) with
    ⟨e, -, he⟩ | ⟨-, -, he⟩ | ⟨-, -, -, he⟩ | ⟨-, hp, hpp, he⟩
  · rw [he]; exact CallEffect.unchanged (hfin.closed info) hclosed fun _ => rfl
  · rw [he]; exact CallEffect.unchanged (hfin.closed info) hclosed fun _ => rfl
  · rw [he]
    refine ⟨hfin.closed info, hclosed, fun e he => (by cases he), Accounts.nonce_payable _ _,
      fun a => Accounts.mem_payable, fun _ => rfl, Or.inr ⟨o₁.manager, ?_, ?_, ?_, ?_⟩⟩
    · rw [finish_balances]
    · rw [finish_trace]; exact hs.view
    · rw [finish_trace]; exact hs.legal
    · intro src dst n e hmem'
      rw [finish_trace] at hmem'
      exact (hentered src).mp (hs.sources src dst n e hmem')
  · rw [he]
    refine CallEffect.unchanged hfin hmem fun himp => ?_
    rw [hpay] at hp
    rw [himp hp] at hpp
    cases hpp

/-- **The effect of a transaction's contract call**, whichever way it goes. -/
theorem callContract_effect {C : Crypto} {depth : Nat} {pp : Bool} {accounts : Accounts}
    {m : ContractManager} {tx : TxBlock} {o : TxOutcome} (h : m.Resting)
    (ho : m.callContract C depth pp accounts tx = some o) : CallEffect pp accounts m tx o := by
  rcases callContract_cases ho with ⟨-, ho⟩ | ⟨-, rfl⟩ | ⟨-, rfl⟩ | ⟨-, hr, ho⟩
  · obtain ⟨r, acc', m', t⟩ := o
    obtain ⟨hacc, -, hbal, hcon⟩ := callManager_cases ho
    cases hacc
    rcases hcon with hcon | ⟨-, m₁, hd, hcon⟩
    · refine CallEffect.unchanged (h.congr hcon) (fun a ha => ?_) fun _ => hbal
      show a ∈ m'.contracts
      rw [show m'.contracts = m.contracts from hcon]
      exact ha
    · have hrest : (m.setCommit true).Resting := h.congr rfl
      refine CallEffect.unchanged ((hrest.deploy hd.deploys).congr hcon) (fun a ha => ?_) fun _ => hbal
      show a ∈ m'.contracts
      rw [show m'.contracts = m₁.contracts from hcon]
      obtain ⟨b, c, -, -, rfl⟩ := hd
      exact (AList.mem_insert _).mpr (Or.inr ha)
  · exact CallEffect.unchanged (h.congr rfl) (fun _ ha => ha) fun _ => rfl
  · exact CallEffect.unchanged (h.congr rfl) (fun _ ha => ha) fun _ => rfl
  · exact callDeployed_effect h hr ho

/-! ### Committed variables -/

/-- The call returned. -/
def TxOutcome.returned (o : TxOutcome) : Bool :=
  match o.result with
  | .ok _ => true
  | .error _ => false

/-- The committed variables after the activity `t` of a top-level frame of `a`. -/
def committed (m : ContractManager) (a : Address) (t : Trace) (returned : Bool) :
    Address → Loc → Option Val :=
  let cells := t.apply true a (m.cells.setFlag a true)
  (cells.update a (returned && cells.flag a)).com

/-- A call either runs no contract code, or the activity of one frame. -/
theorem callContract_variables {C : Crypto} {depth : Nat} {pp : Bool} {accounts : Accounts}
    {m : ContractManager} {tx : TxBlock} {o : TxOutcome} (h : m.Resting)
    (hpp : m.isPayable tx.txToCallInfo = true → pp = true)
    (ho : m.callContract C depth pp accounts tx = some o) :
    (o.trace = .nil ∧ (o.returned = false → o.manager.contracts = m.contracts)) ∨
      (o.manager.deployed = m.deployed ∧
        o.manager.cells.com = m.committed tx.receiver o.trace o.returned) := by
  rcases callContract_cases ho with ⟨-, ho⟩ | ⟨-, rfl⟩ | ⟨-, rfl⟩ | ⟨-, hr, ho⟩
  · obtain ⟨-, htrace, -, hcon⟩ := callManager_cases ho
    refine Or.inl ⟨htrace, fun hret => ?_⟩
    rcases hcon with hcon | ⟨hok, -⟩
    · exact hcon
    · rw [TxOutcome.returned, hok] at hret
      cases hret
  · exact Or.inl ⟨rfl, fun _ => rfl⟩
  · exact Or.inl ⟨rfl, fun _ => rfl⟩
  · set info := tx.txToCallInfo with hinfo
    obtain ⟨o₁, hs, rfl⟩ := callDeployed_called (m := m.setCommit true) h.good ho
    have henter : ((m.setCommit true).enterContract info true).cells =
        m.cells.setFlag info.receiver true :=
      cells_modifyLocals (m := m.setCommit true) hr fun _ => rfl
    have hmem : info.receiver ∈ o₁.manager.contracts :=
      hs.mem.mpr (AssocMap.mem_modify.mpr hr)
    have hshape : (finish info.receiver o₁).manager.shape = (m.setCommit true).shape :=
      (finish_shape _ _).trans (hs.shape.trans (shape_modifyLocals _ _ _))
    have hcom : (finish info.receiver o₁).manager.cells.com =
        m.committed info.receiver o₁.trace o₁.returned := by
      rw [finish_cells hs.good hmem, hs.cells, henter]
      rfl
    have hclosed : ((finish info.receiver o₁).manager.closed info).cells.com =
        m.committed info.receiver (finish info.receiver o₁).trace o₁.returned := by
      have hmem' : info.receiver ∈ (finish info.receiver o₁).manager.clearBalances.contracts :=
        (mem_of_shape (finish_shape _ _)).mpr hmem
      have hcells : ((finish info.receiver o₁).manager.closed info).cells =
          (finish info.receiver o₁).manager.clearBalances.cells.setFlag info.receiver false :=
        cells_modifyLocals hmem' fun _ => rfl
      rw [hcells, finish_trace]
      exact hcom
    have hdeployed : ((finish info.receiver o₁).manager.closed info).deployed = m.deployed :=
      deployed_of_shape (m := m.setCommit true) ((closed_shape _ _).trans hshape)
    have hpay : (finish info.receiver o₁).manager.isPayable info = m.isPayable info :=
      isPayable_of_shape hshape info
    -- A settled call has the result of its frame.
    refine Or.inr ?_
    rcases settle_cases pp accounts info (finish info.receiver o₁) with
      ⟨e, hres, he⟩ | ⟨hres, -, he⟩ | ⟨hres, -, -, he⟩ | ⟨-, hp, hfalse, -⟩
    · rw [he, ← hres, finish_result]; exact ⟨hdeployed, hclosed⟩
    · rw [he, ← hres, finish_result]; exact ⟨hdeployed, hclosed⟩
    · rw [he, ← hres, finish_result]; exact ⟨hdeployed, hclosed⟩
    · rw [hpay] at hp
      rw [hpp hp] at hfalse
      cases hfalse

/-! ### Token moves -/

/-- The temporary balances reach `State`: a payable function of a deployed contract is
    called. -/
def writesBack (m : ContractManager) (tx : TxBlock) : Bool :=
  decide (tx.receiver ≠ contractManagerAddress) && m.isPayable tx.txToCallInfo

/-- A call that returns leaves the accounts as they were or, when the temporary balances are
    written back, as the ledger has them. -/
theorem callContract_moves {C : Crypto} {depth : Nat} {pp : Bool} {accounts : Accounts}
    {m : ContractManager} {tx : TxBlock} {o : TxOutcome} (h : m.Resting)
    (ho : m.callContract C depth pp accounts tx = some o) (hret : o.returned = true) :
    (m.writesBack tx = false ∧ o.accounts = accounts) ∨
      (m.writesBack tx = true ∧
        Accounts.balance o.accounts = Ledger.run (m.view accounts) o.trace.events ∧
        Ledger.Legal (2 ^ 256) (m.view accounts) o.trace.events) := by
  unfold writesBack
  rcases callContract_cases ho with ⟨hr, ho⟩ | ⟨-, rfl⟩ | ⟨-, rfl⟩ | ⟨hne, -, ho⟩
  · exact Or.inl ⟨by simp [hr], (callManager_cases ho).1⟩
  · cases hret
  · cases hret
  · set info := tx.txToCallInfo with hinfo
    obtain ⟨o₁, hs, rfl⟩ := callDeployed_called (m := m.setCommit true) h.good ho
    have hpay : (finish info.receiver o₁).manager.isPayable info = m.isPayable info :=
      isPayable_of_shape (m := m.setCommit true)
        ((finish_shape _ _).trans (hs.shape.trans (shape_modifyLocals _ _ _))) info
    rw [decide_eq_true hne, Bool.true_and, ← hpay]
    rcases settle_cases pp accounts info (finish info.receiver o₁) with
      ⟨e, -, he⟩ | ⟨-, hp, he⟩ | ⟨-, hp, -, he⟩ | ⟨-, -, -, he⟩
    · rw [he] at hret; cases hret
    · rw [he]; exact Or.inl ⟨hp, rfl⟩
    · rw [he, finish_trace]
      refine Or.inr ⟨hp, ?_, hs.legal⟩
      funext a
      rw [Accounts.balance_payable, view, finish_balances]
      exact congrFun hs.view a
    · rw [he] at hret; cases hret

end ContractManager

end OrbiterSdk

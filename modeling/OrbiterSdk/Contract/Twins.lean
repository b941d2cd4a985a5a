import OrbiterSdk.Contract.Transaction

namespace OrbiterSdk

/-!
# Managers no transaction can tell apart

A simulation or a view leaves traces in the manager: copies in the temporary maps, callers
and values of the contracts that ran, the caller of the manager itself.  Twins are managers
that differ in nothing else, and real transactions cannot tell twins apart:

* `Store.Twins`, `DynamicContract.Twins`, `ContractManager.Twins` — the relation; the locals
  of a contract only count while it is `live`, that is once the transaction has entered it;
* `runProg_twins`, `Twins.ethCall` — a frame, in two managers side by side;
* `callContract_twins` — the contract call of a transaction.
-/

/-! ### Variables -/

/-- The same values, seen and committed, in well-formed stores. -/
structure Store.Twins (s₁ s₂ : Store) : Prop where
  wf₁ : s₁.WF
  wf₂ : s₂.WF
  com : s₂.com = s₁.com
  cur : s₂.cur = s₁.cur

namespace Store.Twins

variable {s₁ s₂ s₁' s₂' : Store}

theorem effect {w : Option (Loc × Option Val)} (h : Store.Twins s₁ s₂)
    (h₁ : Store.Effect s₁ s₁' w) (h₂ : Store.Effect s₂ s₂' w) : Store.Twins s₁' s₂' where
  wf₁ := h₁.wf
  wf₂ := h₂.wf
  com := by rw [h₁.com, h₂.com, h.com]
  cur := by rw [h₁.cur, h₂.cur, h.cur]

theorem get (h : Store.Twins s₁ s₂) (x : ScalarVar) :
    (s₂.get x).1 = (s₁.get x).1 ∧ Store.Twins (s₁.get x).2 (s₂.get x).2 := by
  obtain ⟨hv₁, he₁⟩ := Store.get_spec h.wf₁ x
  obtain ⟨hv₂, he₂⟩ := Store.get_spec h.wf₂ x
  exact ⟨Option.some.inj (by rw [hv₁, hv₂, h.cur]), h.effect he₁ he₂⟩

theorem set (h : Store.Twins s₁ s₂) (x : ScalarVar) (v : Val) :
    Store.Twins (s₁.set x v) (s₂.set x v) :=
  h.effect (Store.set_spec h.wf₁ x v) (Store.set_spec h.wf₂ x v)

theorem index (h : Store.Twins s₁ s₂) (m : MapVar) (a : Address) :
    (s₂.index m a).1 = (s₁.index m a).1 ∧ Store.Twins (s₁.index m a).2 (s₂.index m a).2 := by
  obtain ⟨hv₁, he₁⟩ := Store.index_spec h.wf₁ m a
  obtain ⟨hv₂, he₂⟩ := Store.index_spec h.wf₂ m a
  have hv : (s₂.index m a).1 = (s₁.index m a).1 := by rw [hv₁, hv₂, h.cur]
  rw [hv] at he₂
  exact ⟨hv, h.effect he₁ he₂⟩

theorem assign (h : Store.Twins s₁ s₂) (m : MapVar) (a : Address) (v : Val) :
    Store.Twins (s₁.assign m a v) (s₂.assign m a v) :=
  h.effect (Store.assign_spec h.wf₁ m a v) (Store.assign_spec h.wf₂ m a v)

theorem find (h : Store.Twins s₁ s₂) (m : MapVar) (a : Address) :
    (s₂.find m a).1 = (s₁.find m a).1 ∧ Store.Twins (s₁.find m a).2 (s₂.find m a).2 := by
  obtain ⟨hv₁, he₁⟩ := Store.find_spec h.wf₁ m a
  obtain ⟨hv₂, he₂⟩ := Store.find_spec h.wf₂ m a
  exact ⟨by rw [hv₁, hv₂, h.cur], h.effect he₁ he₂⟩

theorem updateState (h : Store.Twins s₁ s₂) (b : Bool) :
    Store.Twins (s₁.updateState b) (s₂.updateState b) := by
  obtain ⟨hq₁, hcom₁, hcur₁⟩ := Store.updateState_spec h.wf₁ b
  obtain ⟨hq₂, hcom₂, hcur₂⟩ := Store.updateState_spec h.wf₂ b
  exact ⟨hq₁.1, hq₂.1, by rw [hcom₁, hcom₂, h.com, h.cur], by rw [hcur₁, hcur₂, h.com, h.cur]⟩

end Store.Twins

/-! ### Contracts and managers -/

/-- The same contract, with the same locals if it is live. -/
structure DynamicContract.Twins (live : Prop) (c₁ c₂ : DynamicContract) : Prop where
  contractName : c₂.contractName = c₁.contractName
  code : c₂.code = c₁.code
  store : Store.Twins c₁.store c₂.store
  caller : live → c₂.locals.caller = c₁.locals.caller
  value : live → c₂.locals.value = c₁.locals.value
  commit : live → c₂.locals.commit = c₁.locals.commit

theorem DynamicContract.Twins.mono {live live' : Prop} {c₁ c₂ : DynamicContract}
    (h : DynamicContract.Twins live c₁ c₂) (hlive : live' → live) :
    DynamicContract.Twins live' c₁ c₂ :=
  ⟨h.contractName, h.code, h.store, fun hl => h.caller (hlive hl), fun hl => h.value (hlive hl),
    fun hl => h.commit (hlive hl)⟩

/-- The same contracts in the same order, the same temporary balances and commit flag. -/
structure ContractManager.Twins (live : Address → Prop) (m₁ m₂ : ContractManager) : Prop where
  keys : m₂.contracts.keys = m₁.contracts.keys
  contracts : ∀ a, Option.Rel (DynamicContract.Twins (live a)) (m₁.contracts.lookup a)
    (m₂.contracts.lookup a)
  balances : m₂.balances = m₁.balances
  commit : m₂.locals.commit = m₁.locals.commit

namespace ContractManager.Twins

variable {live live' : Address → Prop} {m₁ m₂ : ContractManager}

theorem mem (h : m₁.Twins live m₂) {a : Address} : a ∈ m₂.contracts ↔ a ∈ m₁.contracts := by
  show a ∈ m₂.contracts.keys ↔ a ∈ m₁.contracts.keys
  rw [h.keys]

/-- Contracts that are no longer live count for less. -/
theorem mono (h : m₁.Twins live m₂) (hlive : ∀ a, live' a → live a) : m₁.Twins live' m₂ where
  keys := h.keys
  contracts a := (h.contracts a).mono fun _ _ hc => hc.mono (hlive a)
  balances := h.balances
  commit := h.commit

theorem deployed (h : m₁.Twins live m₂) : m₂.deployed = m₁.deployed := by
  unfold ContractManager.deployed
  rw [h.keys]
  congr 1
  funext a
  have hc := h.contracts a
  generalize m₁.contracts.lookup a = x₁ at hc
  generalize m₂.contracts.lookup a = x₂ at hc
  cases hc with
  | none => rfl
  | some hc => simp only [Option.map_some, hc.contractName, hc.code]

theorem com (h : m₁.Twins live m₂) : m₂.cells.com = m₁.cells.com := by
  funext a l
  have hc := h.contracts a
  simp only [cells]
  generalize m₁.contracts.lookup a = x₁ at hc
  generalize m₂.contracts.lookup a = x₂ at hc
  cases hc with
  | none => rfl
  | some hc => exact congrFun hc.store.com l

theorem modify (h : m₁.Twins live m₂) {a : Address} {f₁ f₂ : DynamicContract → DynamicContract}
    (hf : ∀ c₁ c₂, DynamicContract.Twins (live a) c₁ c₂ →
      DynamicContract.Twins (live' a) (f₁ c₁) (f₂ c₂))
    (hlive : ∀ b, b ≠ a → live' b → live b) :
    (m₁.modifyContract a f₁).Twins live' (m₂.modifyContract a f₂) where
  keys := by
    simp only [modifyContract, AssocMap.keys_modify]
    exact h.keys
  contracts b := by
    rw [lookup_modifyContract, lookup_modifyContract]
    by_cases hb : b = a
    · subst hb
      rw [if_pos rfl, if_pos rfl]
      exact (h.contracts b).map hf
    · rw [if_neg hb, if_neg hb]
      exact (h.contracts b).mono fun _ _ hc => hc.mono (hlive b hb)
  balances := h.balances
  commit := h.commit

theorem modifyStore (h : m₁.Twins live m₂) {a : Address} {f : Store → Store}
    (hf : ∀ s₁ s₂, Store.Twins s₁ s₂ → Store.Twins (f s₁) (f s₂)) :
    (m₁.modifyStore a f).Twins live (m₂.modifyStore a f) :=
  h.modify (fun _ _ hc => ⟨hc.contractName, hc.code, hf _ _ hc.store, hc.caller, hc.value,
    hc.commit⟩) fun _ _ hl => hl

theorem setBalances (h : m₁.Twins live m₂) (balances : AssocMap Address Uint256) :
    ({ m₁ with balances } : ContractManager).Twins live { m₂ with balances } :=
  ⟨h.keys, h.contracts, rfl, h.commit⟩

end ContractManager.Twins

open ContractManager

/-! ### The temporary balances -/

/-- `sendTokens` reads and writes nothing but the temporary balances. -/
theorem Interface.sendTokens_congr {accounts : Accounts} {m₁ m₂ : ContractManager}
    (h : m₂.balances = m₁.balances) (src dst : Address) (amount : Uint256) :
    Interface.sendTokens accounts m₂ src dst amount =
      ((Interface.sendTokens accounts m₁ src dst amount).1,
        { m₂ with balances := (Interface.sendTokens accounts m₁ src dst amount).2.1.balances },
        (Interface.sendTokens accounts m₁ src dst amount).2.2) := by
  simp only [Interface.sendTokens, Interface.populateBalance, Interface.balanceOf,
    Interface.setBalance, h]
  split
  · rename_i hlt; simp only [hlt, if_true]
  · rename_i hlt
    simp only [hlt, if_false]
    split
    · rfl
    · split <;> rfl

theorem Interface.sendTokens_twins (accounts : Accounts) {live : Address → Prop}
    {m₁ m₂ : ContractManager} (h : m₁.Twins live m₂) (src dst : Address) (amount : Uint256) :
    (Interface.sendTokens accounts m₂ src dst amount).1 =
        (Interface.sendTokens accounts m₁ src dst amount).1 ∧
      (Interface.sendTokens accounts m₂ src dst amount).2.2 =
        (Interface.sendTokens accounts m₁ src dst amount).2.2 ∧
      (Interface.sendTokens accounts m₁ src dst amount).2.1.Twins live
        (Interface.sendTokens accounts m₂ src dst amount).2.1 := by
  rw [Interface.sendTokens_congr h.balances]
  refine ⟨rfl, rfl, ?_⟩
  obtain ⟨balances, hm⟩ := Interface.sendTokens_manager accounts m₁ src dst amount
  rw [hm]
  exact h.setBalances balances

/-! ### Frames -/

/-- The same result after the same activity, and twin managers. -/
structure Outcome.Twins (live : Address → Prop) (o₁ o₂ : Outcome) : Prop where
  result : o₂.result = o₁.result
  trace : o₂.trace = o₁.trace
  manager : o₁.manager.Twins live o₂.manager

/-- Callees that cannot tell twins apart. -/
def Callee.Blind (run : Callee) : Prop :=
  ∀ live me info m₁ m₂, live me → m₁.Twins live m₂ →
    Option.Rel (Outcome.Twins live) (run me info m₁) (run me info m₂)

theorem Outcome.Twins.after {live : Address → Prop} {o₁ o₂ : Outcome} (h : o₁.Twins live o₂)
    {t₁ t₂ : Trace} (ht : t₂ = t₁) : (Outcome.after t₁ o₁).Twins live (Outcome.after t₂ o₂) :=
  ⟨h.result, by rw [Outcome.after, Outcome.after, ht, h.trace], h.manager⟩

/-- Both frames commit or both revert: a live contract has one commit flag. -/
theorem finish_twins {live : Address → Prop} {me : Address} (hme : live me) {o₁ o₂ : Outcome}
    (h : o₁.Twins live o₂) : (finish me o₁).Twins live (finish me o₂) := by
  refine ⟨by simpa using h.result, by simpa using h.trace, ?_⟩
  unfold finish
  rw [h.result]
  cases o₁.result with
  | error e => exact h.manager.modifyStore fun _ _ hs => hs.updateState false
  | ok u =>
    refine h.manager.modify (fun c₁ c₂ hc => ?_) fun _ _ hl => hl
    refine ⟨hc.contractName, hc.code, ?_, hc.caller, hc.value, hc.commit⟩
    rw [hc.commit hme]
    exact hc.store.updateState _

theorem Interface.sendValue_twins (accounts : Accounts) {live : Address → Prop}
    (info : EthCallInfo) {m₁ m₂ : ContractManager} (h : m₁.Twins live m₂) :
    (Interface.sendValue accounts info m₂).1 = (Interface.sendValue accounts info m₁).1 ∧
      (Interface.sendValue accounts info m₂).2.2 = (Interface.sendValue accounts info m₁).2.2 ∧
      (Interface.sendValue accounts info m₁).2.1.Twins live
        (Interface.sendValue accounts info m₂).2.1 := by
  unfold Interface.sendValue
  split
  · obtain ⟨hres, hout, hman⟩ := Interface.sendTokens_twins accounts h info.sender info.receiver
      info.value
    exact ⟨hres, by dsimp only; rw [hout], hman⟩
  · exact ⟨rfl, rfl, h⟩

theorem Interface.enterCallee_twins {live : Address → Prop} {info : EthCallInfo}
    {m₁ m₂ : ContractManager} (h : m₁.Twins live m₂) :
    (Interface.enterCallee info m₁).Twins (fun a => live a ∨ a = info.receiver)
      (Interface.enterCallee info m₂) :=
  h.modify (fun _ _ hc => ⟨hc.contractName, hc.code, hc.store, fun _ => rfl, fun _ => rfl,
    fun _ => h.commit⟩) fun _ hb hl => hl.resolve_right hb

theorem Interface.runCallee_twins {run : Callee} (hrun : run.Blind) {live : Address → Prop}
    {info : EthCallInfo} {m₁ m₂ : ContractManager} (h : m₁.Twins live m₂) :
    Option.Rel (Outcome.Twins live) (Interface.runCallee run info m₁)
      (Interface.runCallee run info m₂) := by
  unfold Interface.runCallee
  by_cases hmem : info.receiver ∈ m₁.contracts
  · rw [if_neg (not_not.mpr hmem), if_neg (not_not.mpr (h.mem.mpr hmem))]
    have hcall := hrun _ info.receiver info _ _ (Or.inr rfl) (Interface.enterCallee_twins h)
    generalize run info.receiver info (Interface.enterCallee info m₁) = x₁ at hcall
    generalize run info.receiver info (Interface.enterCallee info m₂) = x₂ at hcall
    cases hcall with
    | none => exact .none
    | @some o₁ o₂ ho =>
      obtain ⟨r₁, m₁', t₁⟩ := o₁
      obtain ⟨r₂, m₂', t₂⟩ := o₂
      obtain ⟨hr, ht, hm⟩ := ho
      cases hr
      cases ht
      have hm' : m₁'.Twins live m₂' := hm.mono fun _ => Or.inl
      cases r₁ with
      | ok u => exact .some ⟨rfl, rfl, hm'⟩
      | error e =>
        refine .some ⟨rfl, rfl, hm'.modify (fun c₁ c₂ hc => ?_) fun _ _ hl => hl⟩
        exact ⟨hc.contractName, hc.code, hc.store, hc.caller, hc.value, fun _ => rfl⟩
  · rw [if_pos hmem, if_pos fun hm => hmem (h.mem.mp hm)]
    exact .some ⟨rfl, rfl, h⟩

theorem Interface.callContract_twins {accounts : Accounts} {run : Callee} (hrun : run.Blind)
    {live : Address → Prop} {info : EthCallInfo} {m₁ m₂ : ContractManager}
    (h : m₁.Twins live m₂) :
    Option.Rel (Outcome.Twins live) (Interface.callContract accounts run info m₁)
      (Interface.callContract accounts run info m₂) := by
  obtain ⟨hr, ht, hm⟩ := Interface.sendValue_twins accounts info h
  unfold Interface.callContract
  generalize Interface.sendValue accounts info m₁ = p₁ at hr ht hm
  generalize Interface.sendValue accounts info m₂ = p₂ at hr ht hm
  obtain ⟨r₁, m₁', t₁⟩ := p₁
  obtain ⟨r₂, m₂', t₂⟩ := p₂
  cases hr
  cases ht
  cases r₁ with
  | error e => exact .some ⟨rfl, rfl, hm⟩
  | ok u => exact (Interface.runCallee_twins hrun hm).map fun _ _ ho => ho.after rfl

/-- A frame's body, in two managers side by side: induction on the code. -/
theorem runProg_twins {accounts : Accounts} {run : Callee} (hrun : run.Blind)
    {live : Address → Prop} {me : Address} (hme : live me) (p : Prog) {m₁ m₂ : ContractManager}
    (h : m₁.Twins live m₂) :
    Option.Rel (Outcome.Twins live) (runProg accounts run me p m₁)
      (runProg accounts run me p m₂) := by
  induction p generalizing m₁ m₂ with
  | done => exact .some ⟨rfl, rfl, h⟩
  | throw e => exact .some ⟨rfl, rfl, h⟩
  | getCaller k ih =>
    refine (h.contracts me).bind fun c₁ c₂ hc => ?_
    rw [hc.caller hme]
    exact ih _ h
  | getValue k ih =>
    refine (h.contracts me).bind fun c₁ c₂ hc => ?_
    rw [hc.value hme]
    exact ih _ h
  | get x k ih =>
    refine (h.contracts me).bind fun c₁ c₂ hc => ?_
    rw [(hc.store.get x).1]
    exact ih _ (h.modifyStore fun _ _ hs => (hs.get x).2)
  | set x v k ih =>
    exact (ih (h.modifyStore fun _ _ hs => hs.set x v)).map fun _ _ ho => ho.after rfl
  | index mv a k ih =>
    refine (h.contracts me).bind fun c₁ c₂ hc => ?_
    dsimp only
    rw [(hc.store.index mv a).1]
    exact (ih _ (h.modifyStore fun _ _ hs => (hs.index mv a).2)).map fun _ _ ho => ho.after rfl
  | assign mv a v k ih =>
    exact (ih (h.modifyStore fun _ _ hs => hs.assign mv a v)).map fun _ _ ho => ho.after rfl
  | find mv a k ih =>
    refine (h.contracts me).bind fun c₁ c₂ hc => ?_
    rw [(hc.store.find mv a).1]
    exact ih _ (h.modifyStore fun _ _ hs => (hs.find mv a).2)
  | getBalance a k ih =>
    unfold runProg
    dsimp only [Interface.getBalanceFromAddress, Interface.balanceOf, Interface.populateBalance]
    rw [h.balances]
    exact (ih _ (h.setBalances _)).map fun _ _ ho => ho.after rfl
  | sendTokens dst amount k ih =>
    obtain ⟨hres, hout, hman⟩ := Interface.sendTokens_twins accounts h me dst amount
    unfold runProg
    dsimp only
    rw [hres, hout]
    exact (ih _ hman).map fun _ _ ho => ho.after rfl
  | callContract receiver value data k ih =>
    refine (Interface.callContract_twins hrun h).bind fun o₁ o₂ ho => ?_
    rw [ho.result, ho.trace]
    exact (ih _ ho.manager).map fun _ _ ho => ho.after rfl

/-- **No call can tell twins apart**, at any depth. -/
theorem ethCall_blind (accounts : Accounts) (depth : Nat) : (ethCall accounts depth).Blind := by
  induction depth with
  | zero => intro live me info m₁ m₂ _ _; exact .none
  | succ depth ih =>
    intro live me info m₁ m₂ hme h
    refine (h.contracts me).bind fun c₁ c₂ hc => ?_
    have hfun : c₂.function info.functor = c₁.function info.functor := by
      unfold DynamicContract.function DynamicContract.isPayableFunction
      rw [hc.code]
    rw [hfun]
    cases c₁.function info.functor with
    | none => exact .some (finish_twins hme ⟨rfl, rfl, h⟩)
    | some f => exact (runProg_twins ih hme (f info) h).map fun _ _ ho => finish_twins hme ho

/-! ### The contract call of a transaction -/

namespace ContractManager

variable {live : Address → Prop} {m₁ m₂ : ContractManager}

/-- Twins would deploy at the same address, or refuse for the same reason. -/
theorem Twins.checkDeployment (h : m₁.Twins live m₂) (C : Crypto)
    (hcaller : m₂.locals.caller = m₁.locals.caller) :
    m₂.checkDeployment C = m₁.checkDeployment C := by
  have hlen : m₂.contracts.entries.length = m₁.contracts.entries.length := by
    have hmap : ∀ m : ContractManager, m.contracts.keys.length = m.contracts.entries.length :=
      fun m => List.length_map ..
    rw [← hmap, ← hmap, h.keys]
  have haddr : m₂.deriveContractAddress C = m₁.deriveContractAddress C := by
    simp only [deriveContractAddress, hlen, hcaller]
  unfold ContractManager.checkDeployment
  simp only [haddr, hcaller, h.mem]

theorem Twins.insert (h : m₁.Twins live m₂) (a : Address) {c : DynamicContract}
    (hc : c.store.WF) :
    ({ m₁ with contracts := m₁.contracts.insert a c } : ContractManager).Twins live
      { m₂ with contracts := m₂.contracts.insert a c } where
  keys := by simp only [AList.keys_insert, h.keys]
  contracts b := by
    by_cases hb : b = a
    · subst hb
      rw [AList.lookup_insert, AList.lookup_insert]
      exact .some ⟨rfl, rfl, ⟨hc, hc, rfl, rfl⟩, fun _ => rfl, fun _ => rfl, fun _ => rfl⟩
    · rw [AList.lookup_insert_ne hb, AList.lookup_insert_ne hb]
      exact h.contracts b
  balances := h.balances
  commit := h.commit

theorem Twins.ethCall (h : m₁.Twins live m₂) (C : Crypto)
    (hcaller : m₂.locals.caller = m₁.locals.caller) (info : EthCallInfo) :
    Except.Rel (ContractManager.Twins live) (m₁.ethCall C info) (m₂.ethCall C info) := by
  have hcheck := h.checkDeployment C hcaller
  have hERC20 : m₂.validateCreateNewERC20Contract C info =
      m₁.validateCreateNewERC20Contract C info := by
    unfold validateCreateNewERC20Contract
    rw [hcheck]
  have hWrapper : m₂.validateCreateNewERC20WrapperContract C =
      m₁.validateCreateNewERC20WrapperContract C := hcheck
  have hNative : m₂.validateCreateNewERC20NativeWrapperContract C info =
      m₁.validateCreateNewERC20NativeWrapperContract C info := by
    unfold validateCreateNewERC20NativeWrapperContract
    rw [hcheck]
  unfold ContractManager.ethCall createNewERC20Contract createNewERC20WrapperContract
    createNewERC20NativeWrapperContract
  rw [h.commit, hERC20, hWrapper, hNative, hcaller]
  split
  · split
    · refine Except.Rel.bind _ fun x _ => ?_
      exact Except.Rel.bind _ fun c hc => .ok (h.insert _ (ERC20.new_quiet (liftExn_eq_ok.mp hc)).1)
    · exact Except.Rel.bind _ fun _ _ => .ok h
  · split
    · split
      · exact Except.Rel.bind _ fun a _ => .ok (h.insert a (ERC20Wrapper.new_quiet C a).1)
      · exact Except.Rel.bind _ fun _ _ => .ok h
    · split
      · split
        · exact Except.Rel.bind _ fun x _ =>
            .ok (h.insert _ (NativeWrapper.new_quiet x.1 x.2.1 x.2.2.1 x.2.2.2).1)
        · exact Except.Rel.bind _ fun _ _ => .ok h
      · exact .error _

/-- The same result and accounts, and twin managers. -/
structure TxOutcome.Twins (live : Address → Prop) (o₁ o₂ : TxOutcome) : Prop where
  result : o₂.result = o₁.result
  accounts : o₂.accounts = o₁.accounts
  manager : o₁.manager.Twins live o₂.manager

theorem Twins.setCommit (h : m₁.Twins live m₂) (b : Bool) :
    (m₁.setCommit b).Twins live (m₂.setCommit b) := ⟨h.keys, h.contracts, h.balances, rfl⟩

theorem Twins.clearBalances (h : m₁.Twins live m₂) :
    m₁.clearBalances.Twins live m₂.clearBalances := h.setBalances ∅

theorem Twins.setContractCommit (h : m₁.Twins live m₂) (a : Address) (b : Bool) :
    (m₁.setContractCommit a b).Twins live (m₂.setContractCommit a b) :=
  h.modify (fun _ _ hc => ⟨hc.contractName, hc.code, hc.store, hc.caller, hc.value, fun _ => rfl⟩)
    fun _ _ hl => hl

theorem Twins.isPayable (h : m₁.Twins live m₂) (info : EthCallInfo) :
    m₂.isPayable info = m₁.isPayable info := by
  have hc := h.contracts info.receiver
  unfold ContractManager.isPayable DynamicContract.isPayableFunction
  generalize m₁.contracts.lookup info.receiver = x₁ at hc
  generalize m₂.contracts.lookup info.receiver = x₂ at hc
  cases hc with
  | none => rfl
  | some hc => simp only [hc.code]

theorem Twins.isContractCall (h : m₁.Twins live m₂) (tx : TxBlock) :
    m₂.isContractCall tx = m₁.isContractCall tx := by
  simp only [ContractManager.isContractCall, isContractAddress, h.mem]

theorem callManager_twins (C : Crypto) (accounts : Accounts) (h : m₁.Twins live m₂)
    (info : EthCallInfo) :
    Option.Rel (TxOutcome.Twins live) (callManager C accounts m₁ info)
      (callManager C accounts m₂ info) := by
  have hset : (m₁.setCaller info).Twins live (m₂.setCaller info) :=
    ⟨h.keys, h.contracts, h.balances, h.commit⟩
  have hcall := hset.ethCall C rfl info
  unfold callManager
  dsimp only
  generalize (m₁.setCaller info).ethCall C info = x₁ at hcall
  generalize (m₂.setCaller info).ethCall C info = x₂ at hcall
  cases hcall with
  | error e =>
    cases e with
    | oob => exact .none
    | exn e => exact .some ⟨rfl, rfl, (hset.setCommit false).clearBalances⟩
  | ok hm => exact .some ⟨rfl, rfl, (hm.setCommit false).clearBalances⟩

theorem settle_twins (pp : Bool) (accounts : Accounts) (info : EthCallInfo) {o₁ o₂ : Outcome}
    (h : o₁.Twins live o₂) :
    (settle pp accounts info o₁).Twins live (settle pp accounts info o₂) := by
  have hclosed : (o₁.manager.closed info).Twins live (o₂.manager.closed info) :=
    h.manager.clearBalances.setContractCommit _ _
  unfold settle
  rw [h.result, h.manager.isPayable, h.manager.balances]
  cases o₁.result with
  | error e => exact ⟨rfl, rfl, hclosed⟩
  | ok u =>
    dsimp only
    split
    · cases processContractPayable pp accounts o₁.manager.balances with
      | error e => exact ⟨rfl, rfl, h.manager⟩
      | ok accounts' => exact ⟨rfl, rfl, hclosed⟩
    · exact ⟨rfl, rfl, hclosed⟩

/-- **The contract call of a transaction cannot tell twins apart.** -/
theorem callContract_twins {m₁ m₂ : ContractManager} (C : Crypto) (depth : Nat) (pp : Bool)
    (accounts : Accounts) (h : m₁.Twins (fun _ => False) m₂) (tx : TxBlock) :
    Option.Rel (TxOutcome.Twins fun _ => False) (m₁.callContract C depth pp accounts tx)
      (m₂.callContract C depth pp accounts tx) := by
  have hset := h.setCommit true
  unfold ContractManager.callContract
  dsimp only
  split
  · exact callManager_twins C accounts hset _
  · split
    · exact .some ⟨rfl, rfl, ⟨h.keys, h.contracts, rfl, rfl⟩⟩
    · by_cases hmem : tx.receiver ∈ (m₁.setCommit true).contracts
      · rw [if_neg (not_not.mpr hmem), if_neg (not_not.mpr (hset.mem.mpr hmem))]
        have henter : ((m₁.setCommit true).enterContract tx.txToCallInfo true).Twins
            (fun a => a = tx.receiver) ((m₂.setCommit true).enterContract tx.txToCallInfo true) :=
          hset.modify (fun _ _ hc => ⟨hc.contractName, hc.code, hc.store, fun _ => rfl,
            fun _ => rfl, fun _ => rfl⟩) fun _ hb hl => hb hl
        refine (ethCall_blind accounts depth (fun a => a = tx.receiver) tx.receiver _ _ _ rfl
          henter).map fun o₁ o₂ ho => ?_
        have hsettled := settle_twins pp accounts tx.txToCallInfo ho
        exact ⟨hsettled.result, hsettled.accounts, hsettled.manager.mono fun _ => False.elim⟩
      · rw [if_pos hmem, if_pos fun hm => hmem (hset.mem.mp hm)]
        exact .some ⟨rfl, rfl, hset.clearBalances⟩

end ContractManager

end OrbiterSdk

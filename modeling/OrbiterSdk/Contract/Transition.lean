import OrbiterSdk.Contract.Wrapper

namespace OrbiterSdk

/-!
# What a transaction can commit

The call of a transaction, over the contracts the repository has: it does nothing, creates
a contract, performs an operation on a token for its sender, or has the effect of a wrapper
(`Transition`).  `callContract_transition` says that nothing else is possible, throwing
calls included, and what the called contract can lose in native tokens;
`ContractManager.Standard.transition` that the contracts stay those of the repository.
-/

/-! ### New contracts -/

/-- A new contract has entries in `_balances` only, and those only if it is an `ERC20`. -/
theorem New.entry {C : Crypto} {a : Address} {c : DynamicContract} (h : New C a c) (mv : MapVar)
    (hmv : mv ≠ balancesVar ∨ c.contractName ≠ "ERC20") (k : Address) :
    c.store.com (.entry mv k) = none := by
  cases h with
  | erc20 creator name symbol decimals mintValue c hc =>
    obtain ⟨s, hs, hc⟩ := Except.bind_eq_ok.mp hc
    cases hc
    have hwf := Store.describe_wf name symbol decimals
    obtain ⟨x, y, -, -, hcur⟩ := Store.mintValue_cur hwf hs
    obtain ⟨-, hcom, -⟩ := Store.updateState_spec (Store.mintValue_wf hwf hs) true
    have hne : mv ≠ balancesVar := hmv.resolve_right fun hname => hname rfl
    show (s.updateState true).com (.entry mv k) = none
    rw [hcom, if_pos rfl, hcur]
    simp [Function.update_of_ne, hne, (Store.describe_cur name symbol decimals).2]
  | erc20Wrapper =>
    obtain ⟨-, hcom, -⟩ := Store.updateState_spec Store.init_wf true
    show (Store.init.updateState true).com (.entry mv k) = none
    rw [hcom]
    rfl
  | nativeWrapper name symbol decimals =>
    obtain ⟨-, hcom, -⟩ := Store.updateState_spec (Store.describe_wf name symbol decimals) true
    show ((Store.init.describe name symbol decimals).updateState true).com (.entry mv k) = none
    rw [hcom]
    exact (Store.describe_cur name symbol decimals).2 mv k

theorem New.allowance {C : Crypto} {a : Address} {c : DynamicContract} (h : New C a c)
    (owner spender : Address) : (tokenOf c.store.com).allowance owner spender = 0 := by
  have hentry := h.entry allowedVar (Or.inl (by decide)) owner
  simp only [tokenOf, hentry]
  rfl

theorem New.recordSum {C : Crypto} {a : Address} {c : DynamicContract} (h : New C a c)
    (token : Address) : recordSum c.store.com token = 0 := by
  have hentry := h.entry tokensAndBalancesVar (Or.inl (by decide)) token
  simp only [OrbiterSdk.recordSum, recordsOf, hentry]
  rfl

/-! ### Transactions -/

/-- What the call of a transaction commits, and what the called contract pays out. -/
inductive Transition (C : Crypto) (tx : TxBlock) (m m' : ContractManager) : Nat → Prop where
  | idle : m'.deployed = m.deployed → m'.cells.com = m.cells.com → Transition C tx m m' 0
  | deploy (a : Address) (c : DynamicContract) : a ∉ m.contracts → New C a c →
      m'.contracts = m.contracts.insert a c → Transition C tx m m' 0
  | token (op : Fungible.Op Address) (g : View) : m'.deployed = m.deployed →
      op.minted ≤ tx.value.val →
      (tokenOf (m.cells.com tx.receiver)).step (2 ^ 256) tx.sender op = some (tokenOf g) →
      View.Agree tokenVars (m.cells.com tx.receiver) g →
      m'.cells.com = Function.update m.cells.com tx.receiver g → Transition C tx m m' op.burned
  | wrapper : m'.deployed = m.deployed →
      WrapperEffect tx.receiver tx.sender m.cells.com m'.cells.com → Transition C tx m m' 0

theorem tokenBody_local {accounts : Accounts} {run : Callee} {C : Crypto} {a : Address}
    {l : ContractLocals} {f : View} {c : DynamicContract} {kind : Kind} (h : c.Is C a kind)
    (hkind : kind ≠ .erc20Wrapper) (info : EthCallInfo) :
    Local accounts run a l f (c.body info) fun g es =>
      ∃ op, op.minted ≤ l.value.val ∧ Performs a l.caller f op g es := by
  have hfunctions : ∀ {fn : EthCallInfo → Prog}, ERC20.functions info.functor = some fn →
      Local accounts run a l f (fn info) fun g es =>
        ∃ op, op.minted ≤ l.value.val ∧ Performs a l.caller f op g es := by
    intro fn hfn
    refine (ERC20.functions_local hfn).mono ?_
    rintro g es ⟨op, -, hmint, -, hop⟩
    exact ⟨op, by omega, hop⟩
  refine Local.body fun fn hfn => ?_
  rw [DynamicContract.function, DynamicContract.isPayableFunction, h.2] at hfn
  cases kind with
  | erc20Wrapper => exact absurd rfl hkind
  | erc20 => exact hfunctions hfn
  | nativeWrapper =>
    by_cases hpay : (NativeWrapper.payableFunctions info.functor).isSome = true
    · exact NativeWrapper.payableFunctions_local ((if_pos hpay).symm.trans hfn)
    · exact hfunctions ((if_neg hpay).symm.trans hfn)

namespace ContractManager

variable {C : Crypto} {accounts : Accounts} {depth : Nat} {pp : Bool} {m : ContractManager}
  {tx : TxBlock} {o : TxOutcome}

theorem closed_com {info : EthCallInfo} (h : info.receiver ∈ m.contracts) :
    (m.closed info).cells.com = m.cells.com := by
  have hmem : info.receiver ∈ m.clearBalances.contracts := h
  rw [closed, setContractCommit, cells_modifyLocals hmem (b := false) fun _ => rfl]
  rfl

/-- Settling a call changes nothing that is committed; it returns only if the call did. -/
theorem settle_same (pp : Bool) (accounts : Accounts) (info : EthCallInfo) {o' : Outcome}
    (h : info.receiver ∈ o'.manager.contracts) :
    (settle pp accounts info o').trace = o'.trace ∧
      (settle pp accounts info o').manager.cells.com = o'.manager.cells.com ∧
      (settle pp accounts info o').manager.deployed = o'.manager.deployed ∧
      ((settle pp accounts info o').returned = true → o'.result = .ok ()) := by
  have hclosed := closed_com h
  have hdeployed := deployed_of_shape (closed_shape o'.manager info)
  rcases settle_cases pp accounts info o' with
    ⟨e, -, he⟩ | ⟨hr, -, he⟩ | ⟨hr, -, -, he⟩ | ⟨hr, -, -, he⟩
  · rw [he]
    refine ⟨rfl, hclosed, hdeployed, ?_⟩
    intro hret
    cases hret
  · rw [he]; exact ⟨rfl, hclosed, hdeployed, fun _ => hr⟩
  · rw [he]; exact ⟨rfl, hclosed, hdeployed, fun _ => hr⟩
  · rw [he]; exact ⟨rfl, rfl, rfl, fun _ => hr⟩

theorem callContract_accounts (h : m.Resting)
    (ho : m.callContract C depth pp accounts tx = some o)
    (hback : o.returned = true → m.writesBack tx = false) : o.accounts = accounts := by
  cases hr : o.result with
  | error e => exact (callContract_effect h ho).failed e hr
  | ok u =>
    have hret : o.returned = true := by rw [TxOutcome.returned, hr]
    rcases callContract_moves h ho hret with ⟨-, hacc⟩ | ⟨htrue, -⟩
    · exact hacc
    · rw [hback hret] at htrue
      cases htrue

/-- The locals a transaction gives to the contract it calls. -/
def callLocals (tx : TxBlock) : ContractLocals :=
  { caller := tx.sender, origin := tx.sender, value := tx.value, commit := true }

/-- The manager in which the call of a transaction starts. -/
def entered (m : ContractManager) (tx : TxBlock) : ContractManager :=
  (m.setCommit true).enterContract tx.txToCallInfo true

theorem entered_lookup {c : DynamicContract} (hc : m.contracts.lookup tx.receiver = some c) :
    (m.entered tx).contracts.lookup tx.receiver = some { c with locals := callLocals tx } := by
  have hlook : (m.entered tx).contracts.lookup tx.receiver =
      (m.contracts.lookup tx.receiver).map fun c => { c with locals := callLocals tx } :=
    (lookup_modifyContract (m.setCommit true) tx.receiver tx.receiver _).trans (if_pos rfl)
  rw [hlook, hc]
  rfl

theorem entered_resting (h : m.Resting) (tx : TxBlock) : (m.entered tx).Resting := by
  have hrest : (m.setCommit true).Resting := h.congr rfl
  exact hrest.modifyLocals tx.receiver fun _ => callLocals tx

theorem entered_com (h : tx.receiver ∈ m.contracts) : (m.entered tx).cells.com = m.cells.com := by
  have hcells : (m.entered tx).cells = m.cells.setFlag tx.receiver true :=
    cells_modifyLocals (m := m.setCommit true) h fun _ => rfl
  rw [hcells]
  rfl

theorem entered_shape (m : ContractManager) (tx : TxBlock) :
    (m.entered tx).shape = (m.setCommit true).shape := shape_modifyLocals _ _ _

theorem entered_deployed (m : ContractManager) (tx : TxBlock) :
    (m.entered tx).deployed = m.deployed :=
  deployed_of_shape (m := m.setCommit true) (entered_shape m tx)

theorem callDeployed_settled (h : m.Resting) (hr : tx.receiver ∈ m.contracts)
    (ho : callDeployed depth pp accounts (m.setCommit true) tx.txToCallInfo = some o) :
    ∃ o', OrbiterSdk.ethCall accounts depth tx.receiver tx.txToCallInfo (m.entered tx) = some o' ∧
      o.trace = o'.trace ∧ o.manager.cells.com = o'.manager.cells.com ∧
      o.manager.deployed = m.deployed ∧ (o.returned = true → o'.result = .ok ()) := by
  obtain ⟨o', hcall, rfl⟩ := Option.map_eq_some_iff.mp ho
  refine ⟨o', hcall, ?_⟩
  obtain ⟨hmem, o₁, hs, rfl⟩ :=
    ethCall_sound accounts depth _ _ _ _ (entered_resting h tx).good hcall
  have hshape : (finish tx.receiver o₁).manager.shape = (m.setCommit true).shape :=
    (finish_shape _ _).trans (hs.shape.trans (entered_shape m tx))
  have hmem' : tx.receiver ∈ (finish tx.receiver o₁).manager.contracts :=
    (mem_of_shape hshape).mpr hr
  obtain ⟨htrace, hcom, hdep, hret⟩ := settle_same pp accounts tx.txToCallInfo hmem'
  exact ⟨htrace, hcom, hdep.trans (deployed_of_shape (m := m.setCommit true) hshape), hret⟩

theorem entered_frame (h : m.Resting) (hstd : m.Standard C) {c : DynamicContract}
    (hc : m.contracts.lookup tx.receiver = some c) (hkind : c.Is C tx.receiver .erc20Wrapper) :
    WrapperFrame C tx.receiver (callLocals tx) (m.entered tx) := by
  have hrest := entered_resting h tx
  exact ⟨hstd.congr (entered_deployed m tx), hrest.good, rfl, ⟨_, entered_lookup hc, hkind, rfl⟩,
    fun a _ => hrest.quiet a⟩

theorem callWrapper_transition (hC : Selectors C) (h : m.Resting) (hstd : m.Standard C)
    {c : DynamicContract} (hc : m.contracts.lookup tx.receiver = some c)
    (hkind : c.Is C tx.receiver .erc20Wrapper) {o' : Outcome}
    (ho' : OrbiterSdk.ethCall accounts depth tx.receiver tx.txToCallInfo (m.entered tx) =
      some o') :
    WrapperEffect tx.receiver tx.sender m.cells.com o'.manager.cells.com := by
  have hrest := entered_resting h tx
  have hc₁ := entered_lookup hc
  rw [← entered_com (AssocMap.mem_iff_lookup.mpr ⟨c, hc⟩)]
  cases depth with
  | zero => cases ho'
  | succ depth =>
    rw [ethCall_succ hc₁] at ho'
    obtain ⟨o₁, ho₁, rfl⟩ := Option.map_eq_some_iff.mp ho'
    exact wrapperBody_cases hC (entered_frame h hstd hc hkind) rfl (hrest.quiet _)
      (c := { c with locals := callLocals tx }) hkind ho₁

theorem performs_balance {me caller : Address} {f g : View} {op : Fungible.Op Address}
    {es : List (Ledger.Event Address)} (h : Performs me caller f op g es) {v : Address → Nat}
    (hlegal : Ledger.Legal (2 ^ 256) v es) (a : Address) :
    v a ≤ Ledger.run v es a + if a = me then op.burned else 0 := by
  obtain ⟨-, -, hes⟩ := h
  subst hes
  cases op with
  | burn n =>
    have hdebit := Ledger.debit_add v me a n hlegal.1.1
    have hcredit := Ledger.credit_eq (Ledger.debit v me n) caller a n
    show v a ≤ Ledger.credit (Ledger.debit v me n) caller n a + if a = me then n else 0
    by_cases ha : a = me
    · rw [if_pos ha]
      rw [if_pos ha.symm] at hdebit
      omega
    · rw [if_neg ha]
      rw [if_neg (fun he => ha he.symm)] at hdebit
      omega
  | transfer receiver n => exact Nat.le_add_right _ _
  | approve spender n => exact Nat.le_add_right _ _
  | transferFrom owner receiver n => exact Nat.le_add_right _ _
  | mint n => exact Nat.le_add_right _ _

theorem isPayable_wrapper (info : EthCallInfo) {c : DynamicContract}
    (hc : m.contracts.lookup info.receiver = some c) (hkind : c.Is C info.receiver .erc20Wrapper) :
    m.isPayable info = false := by
  rw [isPayable, hc]
  show (c.code.payableFunctions _).isSome = false
  rw [hkind.2]
  rfl

theorem callDeployed_transition (hC : Selectors C) (h : m.Resting) (hstd : m.Standard C)
    (hr : tx.receiver ∈ m.contracts) (ho : m.callContract C depth pp accounts tx = some o)
    (ho' : callDeployed depth pp accounts (m.setCommit true) tx.txToCallInfo = some o) :
    ∃ paid, Transition C tx m o.manager paid ∧ (m.balances = ∅ → ∀ a,
      Accounts.balance accounts a ≤
        Accounts.balance o.accounts a + if a = tx.receiver then paid else 0) := by
  obtain ⟨c, hc⟩ := AssocMap.mem_iff_lookup.mp hr
  obtain ⟨kind, hkind⟩ := hstd _ c hc
  obtain ⟨o', hcall, htrace, hcom, hdep, hret⟩ := callDeployed_settled h hr ho'
  have hrest := entered_resting h tx
  have hc₁ := entered_lookup hc
  -- Accounts stay unless something is written back.
  have hkept : ∀ paid, (o.returned = true → m.writesBack tx = false) → m.balances = ∅ → ∀ a,
      Accounts.balance accounts a ≤
        Accounts.balance o.accounts a + if a = tx.receiver then paid else 0 := by
    intro paid hback _ a
    rw [callContract_accounts h ho hback]
    exact Nat.le_add_right _ _
  by_cases hwrapper : kind = .erc20Wrapper
  · subst hwrapper
    have hback : m.writesBack tx = false := by
      rw [writesBack, isPayable_wrapper tx.txToCallInfo hc hkind, Bool.and_false]
    refine ⟨0, .wrapper hdep ?_, hkept 0 fun _ => hback⟩
    rw [hcom]
    exact callWrapper_transition hC h hstd hc hkind hcall
  · cases depth with
    | zero => cases hcall
    | succ depth =>
      obtain ⟨o₂, ho₂, -, hend⟩ := ethCall_local accounts depth
        hrest.good hc₁ (hrest.quiet _)
        (tokenBody_local (c := { c with locals := callLocals tx }) hkind hwrapper tx.txToCallInfo)
      cases ho₂.symm.trans hcall
      cases hend with
      | unchanged hsame hcommit =>
        refine ⟨0, .idle hdep ?_, hkept 0 fun hreturned => ?_⟩
        · rw [hcom, hsame, entered_com hr]
        · -- The commit flag is set, so a call that returns commits.
          cases hcommit (hret hreturned)
      | committed g hok _ hP hsame =>
        obtain ⟨op, hmint, hP⟩ := hP
        have hP' := hP
        obtain ⟨hstep, hagree, -⟩ := hP
        rw [entered_com hr] at hstep hagree
        refine ⟨op.burned, .token op g hdep hmint hstep hagree ?_, fun hbal a => ?_⟩
        · rw [hcom, hsame]
          show Function.update (m.entered tx).cells.com tx.receiver g = _
          rw [entered_com hr]
        · cases hreturned : o.returned with
          | false => exact hkept _ (fun hr => by rw [hreturned] at hr; cases hr) hbal a
          | true =>
            rcases callContract_moves h ho hreturned with ⟨hback, -⟩ | ⟨-, hmoved, hlegal⟩
            · exact hkept _ (fun _ => hback) hbal a
            rw [Accounts.view_of_empty hbal, htrace] at hmoved hlegal
            rw [hmoved]
            exact performs_balance hP' hlegal a

/-- **Every transaction's call**: what it commits and what it pays. -/
theorem callContract_transition (hC : Selectors C) (h : m.Resting) (hstd : m.Standard C)
    (ho : m.callContract C depth pp accounts tx = some o) :
    ∃ paid, Transition C tx m o.manager paid ∧ (m.balances = ∅ → ∀ a,
      Accounts.balance accounts a ≤
        Accounts.balance o.accounts a + if a = tx.receiver then paid else 0) := by
  have hcongr : ∀ m' : ContractManager, m'.contracts = m.contracts →
      Transition C tx m m' 0 := by
    intro m' hm'
    exact .idle (by rw [deployed, hm']; rfl) (by rw [cells, hm']; rfl)
  rcases callContract_cases ho with ⟨-, ho'⟩ | ⟨-, rfl⟩ | ⟨-, rfl⟩ | ⟨-, hr, ho'⟩
  · obtain ⟨hacc, -, -, hcon⟩ := callManager_cases ho'
    refine ⟨0, ?_, fun _ a => by rw [hacc]; exact Nat.le_add_right _ _⟩
    rcases hcon with hcon | ⟨-, m', ⟨a, c, ha, hnew, rfl⟩, hcon⟩
    · exact hcongr _ hcon
    · exact .deploy a c ha hnew hcon
  · exact ⟨0, hcongr _ rfl, fun _ a => Nat.le_add_right _ _⟩
  · exact ⟨0, hcongr _ rfl, fun _ a => Nat.le_add_right _ _⟩
  · exact callDeployed_transition hC h hstd hr ho ho'

theorem com_insert {m' : ContractManager} {a : Address} {c : DynamicContract}
    (h : m'.contracts = m.contracts.insert a c) :
    m'.cells.com = Function.update m.cells.com a c.store.com := by
  funext b
  by_cases hb : b = a
  · subst hb
    rw [Function.update_self]
    funext l
    simp [cells, h]
  · rw [Function.update_of_ne hb]
    funext l
    simp [cells, h, AList.lookup_insert_ne hb]

/-- A contract after a transaction was there before, or it is the new one. -/
theorem lookup_transition {m' : ContractManager} {paid : Nat} (ht : Transition C tx m m' paid)
    {a : Address} {c : DynamicContract} (hc : m'.contracts.lookup a = some c) :
    (∃ c₀, m.contracts.lookup a = some c₀ ∧ c₀.contractName = c.contractName) ∨
      (New C a c ∧ m'.cells.com a = c.store.com) := by
  have hkept : m'.deployed = m.deployed →
      ∃ c₀, m.contracts.lookup a = some c₀ ∧ c₀.contractName = c.contractName := by
    intro hdep
    have hlook : (m'.contracts.lookup a).map (fun c => (c.contractName, c.code)) =
        (m.contracts.lookup a).map fun c => (c.contractName, c.code) :=
      congrFun (congrArg Prod.snd hdep) a
    rw [hc] at hlook
    obtain ⟨c₀, hc₀, heq⟩ := Option.map_eq_some_iff.mp hlook.symm
    exact ⟨c₀, hc₀, congrArg Prod.fst heq⟩
  cases ht with
  | idle hdep _ => exact Or.inl (hkept hdep)
  | token op g hdep _ _ _ _ => exact Or.inl (hkept hdep)
  | wrapper hdep _ => exact Or.inl (hkept hdep)
  | deploy b d _ hnew hcon =>
    by_cases hab : a = b
    · subst hab
      have hd : d = c := by
        rw [hcon, AList.lookup_insert] at hc
        exact Option.some.inj hc
      subst hd
      exact Or.inr ⟨hnew, (cells_of_lookup hc).1⟩
    · rw [hcon, AList.lookup_insert_ne hab] at hc
      exact Or.inl ⟨c, hc, rfl⟩

theorem Standard.transition {m' : ContractManager} {paid : Nat} (h : m.Standard C)
    (ht : Transition C tx m m' paid) : m'.Standard C := by
  cases ht with
  | idle hdep _ => exact h.congr hdep
  | token op g hdep _ _ _ _ => exact h.congr hdep
  | wrapper hdep _ => exact h.congr hdep
  | deploy a c ha hnew hcon =>
    intro b d hd
    rw [hcon] at hd
    by_cases hb : b = a
    · subst hb
      rw [AList.lookup_insert, Option.some.injEq] at hd
      exact hd ▸ hnew.is
    · rw [AList.lookup_insert_ne hb] at hd
      exact h b d hd

end ContractManager

end OrbiterSdk

import OrbiterSdk.Contract.Token

namespace OrbiterSdk

/-!
# The ERC20 wrapper

`ERC20Wrapper` keeps, per token, what each user deposited, and moves the tokens themselves by
calling their contracts.  Two ledgers in two contracts, each committed on its own:

* `Standard` — the deployed contracts are the three the repository has;
* `callToken_ends`, `callToken_returns` — a nested call of a token function comes to an end,
  and a transfer that the token allows returns;
* `WrapperEffect` — what a call of the wrapper can commit;
* `payOut_run`, `payOut_ends` — a withdrawal is refused, ends with the exception of the token's
  call or pays;
* `payOut_cases`, `deposit_cases`, `wrapperBody_cases` — the wrapper's functions, failures
  included.
-/

/-! ### Deployed contracts -/

/-- The contracts a manager can create. -/
inductive Kind where
  | erc20
  | nativeWrapper
  | erc20Wrapper
deriving DecidableEq

/-- The registered name of a contract. -/
def Kind.name : Kind → String
  | .erc20 => "ERC20"
  | .nativeWrapper => "NativeWrapper"
  | .erc20Wrapper => "ERC20Wrapper"

/-- The code of a contract at `a`. -/
def Kind.code (C : Crypto) (a : Address) : Kind → Code
  | .erc20 => ERC20.code a
  | .nativeWrapper => NativeWrapper.code a
  | .erc20Wrapper => ERC20Wrapper.code C a

/-- The contract at `a` is of this kind. -/
def DynamicContract.Is (C : Crypto) (a : Address) (c : DynamicContract) (kind : Kind) : Prop :=
  c.contractName = kind.name ∧ c.code = kind.code C a

theorem Kind.name_inj {kind kind' : Kind} (h : kind.name = kind'.name) : kind = kind' := by
  revert h
  cases kind <;> cases kind' <;> simp [Kind.name]

theorem DynamicContract.Is.unique {C : Crypto} {a : Address} {c : DynamicContract}
    {kind kind' : Kind} (h : c.Is C a kind) (h' : c.Is C a kind') : kind = kind' :=
  Kind.name_inj (h.1.symm.trans h'.1)

theorem New.is {C : Crypto} {a : Address} {c : DynamicContract} (h : New C a c) :
    ∃ kind, c.Is C a kind := by
  cases h with
  | erc20 creator name symbol decimals mintValue c hc =>
    obtain ⟨s, -, hc⟩ := Except.bind_eq_ok.mp hc
    cases hc
    exact ⟨.erc20, rfl, rfl⟩
  | erc20Wrapper => exact ⟨.erc20Wrapper, rfl, rfl⟩
  | nativeWrapper name symbol decimals => exact ⟨.nativeWrapper, rfl, rfl⟩

namespace ContractManager

/-- Every deployed contract is one of the repository's. -/
def Standard (C : Crypto) (m : ContractManager) : Prop :=
  ∀ a c, m.contracts.lookup a = some c → ∃ kind, c.Is C a kind

theorem is_of_deployed {C : Crypto} {m m' : ContractManager} (h : m'.deployed = m.deployed)
    {a : Address} {c' : DynamicContract} (hc' : m'.contracts.lookup a = some c') :
    ∃ c, m.contracts.lookup a = some c ∧ ∀ kind, c'.Is C a kind ↔ c.Is C a kind := by
  have hlook : (m'.contracts.lookup a).map (fun c => (c.contractName, c.code)) =
      (m.contracts.lookup a).map fun c => (c.contractName, c.code) :=
    congrFun (congrArg Prod.snd h) a
  rw [hc'] at hlook
  obtain ⟨c, hc, heq⟩ := Option.map_eq_some_iff.mp hlook.symm
  obtain ⟨hname, hcode⟩ := Prod.mk.inj heq
  exact ⟨c, hc, fun kind => by rw [DynamicContract.Is, DynamicContract.Is, hname, hcode]⟩

theorem Standard.congr {C : Crypto} {m m' : ContractManager} (h : m.Standard C)
    (hd : m'.deployed = m.deployed) : m'.Standard C := by
  intro a c' hc'
  obtain ⟨c, hc, hiff⟩ := is_of_deployed hd hc'
  obtain ⟨kind, hkind⟩ := h a c hc
  exact ⟨kind, (hiff kind).mpr hkind⟩

end ContractManager

/-! ### Records -/

/-- What each user deposited of `token`, as a view of the wrapper's variables shows it. -/
def recordsOf (f : View) (token : Address) : AssocMap Address Uint256 :=
  ((f (.entry tokensAndBalancesVar token)).getD tokensAndBalancesVar.dflt).toMap

/-- What all users deposited of `token`. -/
def recordSum (f : View) (token : Address) : Nat :=
  AssocMap.total (fun x => x.val) (recordsOf f token)

/-- The variables of the records. -/
def recordVars : List Var := [.map tokensAndBalancesVar]

/-- Only the records of `token` changed, to `records`. -/
def RecordsChanged (f g : View) (token : Address) (records : AssocMap Address Uint256) : Prop :=
  g = Function.update f (.entry tokensAndBalancesVar token) (some (.addrMap records))

theorem recordSum_congr {f g : View} (h : View.Agree tokenVars f g) (token : Address) :
    recordSum g token = recordSum f token := by
  have hmem : (Loc.entry tokensAndBalancesVar token).var ∉ tokenVars := by
    simp [tokenVars, Loc.var, tokensAndBalancesVar, balancesVar, allowedVar]
  rw [recordSum, recordsOf, h _ hmem]
  rfl

theorem RecordsChanged.token {f g : View} {token : Address} {records : AssocMap Address Uint256}
    (h : RecordsChanged f g token records) : tokenOf g = tokenOf f := by
  have hagree : View.Agree recordVars f g := by
    rw [h]
    exact (View.Agree.refl recordVars f).update (by simp [recordVars, Loc.var]) _
  exact tokenOf_congr hagree (by
    simp [tokenVars, recordVars, tokensAndBalancesVar, balancesVar, allowedVar])

theorem RecordsChanged.sum {f g : View} {token : Address} {records : AssocMap Address Uint256}
    (h : RecordsChanged f g token records) (token' : Address) :
    recordSum g token' =
      if token' = token then AssocMap.total (fun x => x.val) records else recordSum f token' := by
  rw [h]
  split
  · rename_i ht
    subst ht
    simp [recordSum, recordsOf, Val.toMap]
  · rename_i ht
    simp [recordSum, recordsOf, ht, Function.update_of_ne]

/-! ### Calling a token -/

/-- The functors that the headers of the wrapper's calls hash to are those the tokens
    registered. -/
structure Selectors (C : Crypto) : Prop where
  transfer : (C.sha3 ERC20Wrapper.transferHeader).data.take 4 = functorOf 0xa9059cbb
  transferFrom : (C.sha3 ERC20Wrapper.transferFromHeader).data.take 4 = functorOf 0x23b872dd

/-- The functors the wrapper calls tokens with. -/
def tokenFunctors : List Bytes := [functorOf 0xa9059cbb, functorOf 0x23b872dd]

/-- Tokens have the called functions, a wrapper has not. -/
theorem function_of_mem {C : Crypto} {a : Address} {c : DynamicContract} {kind : Kind}
    (h : c.Is C a kind) {functor : Bytes} (hf : functor ∈ tokenFunctors) :
    c.function functor = if kind = .erc20Wrapper then none else ERC20.functions functor := by
  rw [DynamicContract.function, DynamicContract.isPayableFunction, h.2]
  simp only [tokenFunctors, List.mem_cons, List.not_mem_nil, or_false] at hf
  cases kind with
  | erc20 => rfl
  | nativeWrapper => rcases hf with rfl | rfl <;> rfl
  | erc20Wrapper => rcases hf with rfl | rfl <;> rfl

theorem transfer_mem : functorOf 0xa9059cbb ∈ tokenFunctors := by simp [tokenFunctors]

theorem decode_transfer {C : Crypto} (hC : Selectors C) (info : EthCallInfo) {a : Address}
    {x : Uint256} (hdata : info.data =
      Abi.encodeCall C ERC20Wrapper.transferHeader [.address a, .uint256 x]) :
    info.functor = functorOf 0xa9059cbb ∧ decodeAddressUint info = .ok (a, x) := by
  have hfour : ((C.sha3 ERC20Wrapper.transferHeader).data.take 4).length = 4 := by
    rw [hC.transfer]; rfl
  have hfunctor : info.functor = functorOf 0xa9059cbb := by
    rw [EthCallInfo.functor, hdata, Abi.encodeCall, List.take_left' hfour, hC.transfer]
  have hargs : substrFrom info.data 4 = .ok ([] ++ (Abi.encodeAddress a ++
      (Abi.encodeUint256 x ++ []))) := by
    rw [substrFrom, if_neg (by rw [hdata, Abi.encodeCall, List.length_append, hfour]; omega), hdata,
      Abi.encodeCall, List.drop_left' hfour]
    simp [Abi.encode, Abi.encodeLoop, Abi.encodeValue]
  have hx := Abi.decodeUint256_encodeUint256 (Abi.encodeAddress a) x []
  rw [Abi.length_encodeAddress] at hx
  exact ⟨hfunctor, Except.bind_eq_ok.mpr ⟨_, hargs, Except.bind_eq_ok.mpr
    ⟨a, Abi.decodeAddress_encodeAddress [] a _, Except.bind_eq_ok.mpr ⟨x, hx, rfl⟩⟩⟩⟩

theorem operation_transfer {C : Crypto} (hC : Selectors C) (info : EthCallInfo) {a : Address}
    {x : Uint256} (hdata : info.data =
      Abi.encodeCall C ERC20Wrapper.transferHeader [.address a, .uint256 x]) :
    info.functor ∈ tokenFunctors ∧ ERC20.operation info = .ok (.transfer a x.val) := by
  obtain ⟨hfunctor, hdecode⟩ := decode_transfer hC info hdata
  refine ⟨hfunctor ▸ transfer_mem, ?_⟩
  rw [ERC20.operation, if_pos hfunctor, hdecode]
  rfl

theorem operation_transferFrom {C : Crypto} (hC : Selectors C) (info : EthCallInfo)
    {a b : Address} {x : Uint256} (hdata : info.data =
      Abi.encodeCall C ERC20Wrapper.transferFromHeader [.address a, .address b, .uint256 x]) :
    info.functor ∈ tokenFunctors ∧ ERC20.operation info = .ok (.transferFrom a b x.val) := by
  have hfour : ((C.sha3 ERC20Wrapper.transferFromHeader).data.take 4).length = 4 := by
    rw [hC.transferFrom]; rfl
  have hfunctor : info.functor = functorOf 0x23b872dd := by
    rw [EthCallInfo.functor, hdata, Abi.encodeCall, List.take_left' hfour, hC.transferFrom]
  have hargs : substrFrom info.data 4 = .ok ([] ++ (Abi.encodeAddress a ++
      (Abi.encodeAddress b ++ (Abi.encodeUint256 x ++ [])))) := by
    rw [substrFrom, if_neg (by rw [hdata, Abi.encodeCall, List.length_append, hfour]; omega), hdata,
      Abi.encodeCall, List.drop_left' hfour]
    simp [Abi.encode, Abi.encodeLoop, Abi.encodeValue]
  have hb := Abi.decodeAddress_encodeAddress (Abi.encodeAddress a) b (Abi.encodeUint256 x ++ [])
  have hx := Abi.decodeUint256_encodeUint256 (Abi.encodeAddress a ++ Abi.encodeAddress b) x []
  rw [Abi.length_encodeAddress] at hb
  rw [List.length_append, Abi.length_encodeAddress, Abi.length_encodeAddress,
    List.append_assoc] at hx
  refine ⟨by rw [hfunctor]; simp [tokenFunctors], ?_⟩
  have hdecode : decodeAddressAddressUint info = .ok (a, b, x) :=
    Except.bind_eq_ok.mpr ⟨_, hargs, Except.bind_eq_ok.mpr
      ⟨a, Abi.decodeAddress_encodeAddress [] a _, Except.bind_eq_ok.mpr
        ⟨b, hb, Except.bind_eq_ok.mpr ⟨x, hx, rfl⟩⟩⟩⟩
  rw [ERC20.operation, if_neg (by rw [hfunctor]; decide), if_neg (by rw [hfunctor]; decide),
    if_pos hfunctor, hdecode]
  rfl

theorem body_local_of_mem {accounts : Accounts} {run : Callee} {C : Crypto} {a : Address}
    {l : ContractLocals} {f : View} {c : DynamicContract} {kind : Kind} (h : c.Is C a kind)
    (hkind : kind ≠ .erc20Wrapper) {info : EthCallInfo} (hf : info.functor ∈ tokenFunctors) :
    Local accounts run a l f (c.body info) fun g es =>
      ∃ op, ERC20.operation info = .ok op ∧ op.minted = 0 ∧ op.burned = 0 ∧
        Performs a l.caller f op g es := by
  refine Local.body fun fn hfn => ?_
  rw [function_of_mem h hf, if_neg hkind] at hfn
  exact ERC20.functions_local hfn

/-- A frame of the wrapper `w` at the top of a transaction, after its own code has run for a
    while: the other contracts rest. -/
structure WrapperFrame (C : Crypto) (w : Address) (l : ContractLocals) (m : ContractManager) :
    Prop where
  standard : m.Standard C
  good : m.Good
  commit : m.locals.commit = true
  self : ∃ c, m.contracts.lookup w = some c ∧ c.Is C w .erc20Wrapper ∧ c.locals = l
  quiet : ∀ a, a ≠ w → m.cells.cur a = m.cells.com a

theorem WrapperFrame.wrote {C : Crypto} {w : Address} {l : ContractLocals}
    {m m' : ContractManager} {g : View} (h : WrapperFrame C w l m) (hw : Wrote w m m' g) :
    WrapperFrame C w l m' := by
  have hdeployed := ContractManager.deployed_of_shape hw.shape
  obtain ⟨c, hc, hkind, hl⟩ := h.self
  obtain ⟨c', hc', hl'⟩ := hw.lookup hc
  obtain ⟨c'', hc'', hiff⟩ := ContractManager.is_of_deployed (C := C) hdeployed hc'
  cases hc.symm.trans hc''
  refine ⟨h.standard.congr hdeployed, hw.good, ?_, ⟨c', hc', (hiff _).mpr hkind, hl'.trans hl⟩, ?_⟩
  · rw [ContractManager.locals_of_shape hw.shape]
    exact h.commit
  · intro a ha
    rw [hw.cells]
    show Function.update m.cells.cur w g a = m.cells.com a
    rw [Function.update_of_ne ha]
    exact h.quiet a ha

/-- How a nested call of a token function ends: it throws and nothing is committed, or the
    token has performed the operation for the wrapper. -/
inductive TokenCall (C : Crypto) (w : Address) (l : ContractLocals) (m : ContractManager)
    (token : Address) (op : Fungible.Op Address) (o : Outcome) : Prop where
  | threw (e : Exn) : o.result = .error e → o.manager.cells.com = m.cells.com →
      TokenCall C w l m token op o
  | returned (g : View) : o.result = .ok () → token ≠ w →
      (tokenOf (m.cells.com token)).step (2 ^ 256) w op = some (tokenOf g) →
      View.Agree tokenVars (m.cells.com token) g → WrapperFrame C w l o.manager →
      o.manager.cells.com = Function.update m.cells.com token g →
      o.manager.cells.cur w = m.cells.cur w → TokenCall C w l m token op o

theorem callContract_of_zero {accounts : Accounts} {run : Callee} {info : EthCallInfo}
    (hvalue : info.value = 0) (m : ContractManager) :
    Interface.callContract accounts run info m = Interface.runCallee run info m := by
  have hsend : Interface.sendValue accounts info m = (.ok (), m, .nil) := by
    simp [Interface.sendValue, hvalue]
  rw [Interface.callContract, hsend]
  exact Option.map_id'

section

variable {C : Crypto} {accounts : Accounts} {w : Address} {l : ContractLocals}
  {m : ContractManager} {info : EthCallInfo} {c : DynamicContract}

/-- The locals a wrapper's call gives to the called contract. -/
def calleeLocals (info : EthCallInfo) (c : DynamicContract) : ContractLocals :=
  { c.locals with caller := info.sender, value := info.value, commit := true }

theorem WrapperFrame.enterCallee (h : WrapperFrame C w l m)
    (hc : m.contracts.lookup info.receiver = some c) :
    (Interface.enterCallee info m).Good ∧
      (Interface.enterCallee info m).cells = m.cells.setFlag info.receiver true ∧
      (Interface.enterCallee info m).contracts.lookup info.receiver =
        some { c with locals := calleeLocals info c } := by
  refine ⟨ContractManager.good_modifyLocals h.good _ _, ?_, ?_⟩
  · rw [enterCallee_cells (AssocMap.mem_iff_lookup.mpr ⟨c, hc⟩), h.commit]
  · rw [Interface.enterCallee, ContractManager.modifyLocals,
      ContractManager.lookup_modifyContract, if_pos rfl, hc, h.commit]
    rfl

theorem WrapperFrame.token_ne (h : WrapperFrame C w l m) {a : Address} {kind : Kind}
    (hc : m.contracts.lookup a = some c) (hkind : c.Is C a kind) (hk : kind ≠ .erc20Wrapper) :
    a ≠ w := by
  intro he
  subst he
  obtain ⟨cw, hcw, hkw, -⟩ := h.self
  cases hcw.symm.trans hc
  exact hk (hkind.unique hkw)

/-- A callee that throws loses its commit flag, which is not among the variables. -/
theorem clearFlag_com {m₁ m₂ : ContractManager} {a : Address} (hshape : m₂.shape = m₁.shape)
    (ha : a ∈ m₁.contracts) :
    (m₂.modifyLocals a fun l => { l with commit := false }).cells.com = m₂.cells.com := by
  have hmem : a ∈ m₂.contracts := (ContractManager.mem_of_shape hshape).mpr ha
  rw [ContractManager.cells_modifyLocals hmem (b := false) fun _ => rfl]
  rfl

/-- A wrapper does not know the functors of tokens; its own frame, if it is running, is
    reverted. -/
theorem callToken_wrapper (depth : Nat) {op : Fungible.Op Address} (h : WrapperFrame C w l m)
    (hfunctor : info.functor ∈ tokenFunctors) (hc : m.contracts.lookup info.receiver = some c)
    (hkind : c.Is C info.receiver .erc20Wrapper) :
    ∃ o, Interface.runCallee (ethCall accounts (depth + 1)) info m = some o ∧
      TokenCall C w l m info.receiver op o := by
  obtain ⟨hgood₁, hcells, hc₁⟩ := h.enterCallee hc
  have hmem : info.receiver ∈ m.contracts := AssocMap.mem_iff_lookup.mpr ⟨c, hc⟩
  set m₁ := Interface.enterCallee info m with hm₁
  have hmem₁ : info.receiver ∈ m₁.contracts := AssocMap.mem_iff_lookup.mpr ⟨_, hc₁⟩
  set o₁ : Outcome := ⟨.error (.runtimeError "Functor not found"), m₁, .nil⟩ with ho₁
  have hbody : ethCall accounts (depth + 1) info.receiver info m₁ =
      some (finish info.receiver o₁) := by
    have hfn := function_of_mem (c := { c with locals := calleeLocals info c }) hkind hfunctor
    rw [ethCall_succ hc₁, DynamicContract.body, hfn, if_pos rfl]
    rfl
  have hrun : Interface.runCallee (ethCall accounts (depth + 1)) info m =
      some ⟨.error (.runtimeError "Functor not found"),
        (finish info.receiver o₁).manager.modifyLocals info.receiver
          fun l => { l with commit := false },
        .call info.receiver .nil false .nil⟩ := by
    rw [Interface.runCallee, if_neg (not_not.mpr hmem), ← hm₁, hbody]
    rfl
  refine ⟨_, hrun, .threw _ rfl ?_⟩
  show ((finish info.receiver o₁).manager.modifyLocals info.receiver _).cells.com = m.cells.com
  rw [clearFlag_com (finish_shape _ o₁) hmem₁, finish_cells hgood₁ hmem₁]
  show m₁.cells.com = m.cells.com
  rw [hcells]
  rfl

theorem callToken_token (depth : Nat) {op : Fungible.Op Address} {kind : Kind}
    (h : WrapperFrame C w l m) (hsender : info.sender = w)
    (hfunctor : info.functor ∈ tokenFunctors) (hop : ERC20.operation info = .ok op)
    (hc : m.contracts.lookup info.receiver = some c) (hkind : c.Is C info.receiver kind)
    (hk : kind ≠ .erc20Wrapper) :
    ∃ o, Interface.runCallee (ethCall accounts (depth + 1)) info m = some o ∧
      TokenCall C w l m info.receiver op o := by
  obtain ⟨hgood₁, hcells, hc₁⟩ := h.enterCallee hc
  have hmem : info.receiver ∈ m.contracts := AssocMap.mem_iff_lookup.mpr ⟨c, hc⟩
  set m₁ := Interface.enterCallee info m with hm₁
  have hne : info.receiver ≠ w := h.token_ne hc hkind hk
  have hcom₁ : m₁.cells.com = m.cells.com := by rw [hcells]; rfl
  have hquiet₁ : m₁.cells.cur info.receiver = m₁.cells.com info.receiver := by
    rw [hcells]
    exact h.quiet _ hne
  obtain ⟨o₁, ho₁, hkept, hend⟩ := ethCall_local accounts depth hgood₁ hc₁ hquiet₁
    (body_local_of_mem (c := { c with locals := calleeLocals info c }) hkind hk hfunctor)
  rw [Interface.runCallee, if_neg (not_not.mpr hmem), ← hm₁, ho₁]
  obtain ⟨r, m₂, t⟩ := o₁
  cases hend with
  | unchanged hsame hcommit =>
    cases r with
    | ok u => cases hcommit rfl
    | error e =>
      refine ⟨_, rfl, .threw e rfl ?_⟩
      refine (clearFlag_com hkept.shape (AssocMap.mem_iff_lookup.mpr ⟨_, hc₁⟩)).trans ?_
      exact (congrArg Cells.com hsame).trans hcom₁
  | committed g hok _ hP hsame =>
    cases hok
    obtain ⟨op', hop', -, -, hstep, hagree, -⟩ := hP
    cases hop.symm.trans hop'
    rw [hcom₁] at hstep hagree
    have hdeployed : m₂.deployed = m.deployed :=
      ContractManager.deployed_of_shape
        (hkept.shape.trans (ContractManager.shape_modifyLocals _ _ _))
    refine ⟨_, rfl, .returned g rfl hne (hsender ▸ hstep) hagree ?_ ?_ ?_⟩
    · refine ⟨h.standard.congr hdeployed, hkept.good, ?_, ?_, ?_⟩
      · show m₂.locals.commit = true
        rw [ContractManager.locals_of_shape hkept.shape]
        exact h.commit
      · obtain ⟨cw, hcw, hkw, hlw⟩ := h.self
        have hcw₁ : m₁.contracts.lookup w = some cw := by
          rw [hm₁, Interface.enterCallee, ContractManager.modifyLocals,
            ContractManager.lookup_modifyContract, if_neg (fun he => hne he.symm), hcw]
        obtain ⟨cw', hcw', hlw'⟩ := hkept.lookup hcw₁
        obtain ⟨cw'', hcw'', hiff⟩ := ContractManager.is_of_deployed (C := C) hdeployed hcw'
        cases hcw.symm.trans hcw''
        exact ⟨cw', hcw', (hiff _).mpr hkw, hlw'.trans hlw⟩
      · intro a ha
        show m₂.cells.cur a = m₂.cells.com a
        rw [hsame, hcells]
        by_cases hat : a = info.receiver
        · subst hat; simp [Cells.hold]
        · simpa [Cells.hold, Cells.setFlag, hat] using h.quiet a ha
    · show m₂.cells.com = _
      rw [hsame, hcells]
      rfl
    · show m₂.cells.cur w = _
      rw [hsame, hcells]
      exact Function.update_of_ne (fun he => hne he.symm) _ _

/-- **Nested calls of token functions** come to an end in one frame. -/
theorem callToken_ends (accounts : Accounts) (depth : Nat) {op : Fungible.Op Address} (h : WrapperFrame C w l m)
    (hsender : info.sender = w) (hvalue : info.value = 0)
    (hfunctor : info.functor ∈ tokenFunctors) (hop : ERC20.operation info = .ok op) :
    ∃ o, Interface.callContract accounts (ethCall accounts (depth + 1)) info m = some o ∧
      TokenCall C w l m info.receiver op o := by
  rw [callContract_of_zero hvalue]
  cases hc : m.contracts.lookup info.receiver with
  | none =>
    rw [Interface.runCallee, if_pos (AList.lookup_eq_none.mp hc)]
    exact ⟨_, rfl, .threw _ rfl rfl⟩
  | some c =>
    obtain ⟨kind, hkind⟩ := h.standard _ c hc
    by_cases hk : kind = .erc20Wrapper
    · subst hk
      exact callToken_wrapper depth h hfunctor hc hkind
    · exact callToken_token depth h hsender hfunctor hop hc hkind hk

theorem callToken_cases {depth : Nat} {op : Fungible.Op Address} {o : Outcome}
    (h : WrapperFrame C w l m) (hsender : info.sender = w) (hvalue : info.value = 0)
    (hfunctor : info.functor ∈ tokenFunctors) (hop : ERC20.operation info = .ok op)
    (ho : Interface.callContract accounts (ethCall accounts depth) info m = some o) :
    TokenCall C w l m info.receiver op o := by
  cases depth with
  | zero =>
    -- Without a frame left only a missing callee gives an outcome.
    rw [callContract_of_zero hvalue, Interface.runCallee] at ho
    split at ho
    · cases ho
      exact .threw _ rfl rfl
    · cases ho
  | succ depth =>
    obtain ⟨o', ho', hend⟩ := callToken_ends accounts depth h hsender hvalue hfunctor hop
    cases ho'.symm.trans ho
    exact hend

theorem callToken_returns (hC : Selectors C) (accounts : Accounts) (depth : Nat) {payee : Address} {value : Uint256}
    {t : Fungible Address} (h : WrapperFrame C w l m) (hsender : info.sender = w)
    (hvalue : info.value = 0) (hdata : info.data =
      Abi.encodeCall C ERC20Wrapper.transferHeader [.address payee, .uint256 value])
    (hc : m.contracts.lookup info.receiver = some c) (hkind : c.Is C info.receiver .erc20)
    (hstep : (tokenOf (m.cells.com info.receiver)).step (2 ^ 256) w
      (.transfer payee value.val) = some t) :
    ∃ o, Interface.callContract accounts (ethCall accounts (depth + 1)) info m = some o ∧
      o.result = .ok () := by
  obtain ⟨hgood₁, hcells, hc₁⟩ := h.enterCallee hc
  have hmem : info.receiver ∈ m.contracts := AssocMap.mem_iff_lookup.mpr ⟨c, hc⟩
  obtain ⟨hfunctor, hdecode⟩ := decode_transfer hC info hdata
  have hbody : DynamicContract.body { c with locals := calleeLocals info c } info =
      ERC20.transfer payee value := by
    have hfn := function_of_mem (c := { c with locals := calleeLocals info c }) hkind
      (hfunctor ▸ transfer_mem)
    rw [DynamicContract.body, hfn, if_neg (by decide), ERC20.functions, if_pos hfunctor]
    show argsAddressUint info ERC20.transfer = _
    rw [argsAddressUint_eq, hdecode]
    rfl
  -- The token rests, so it sees what it has committed.
  have hcur : c.store.cur = m.cells.com info.receiver := by
    rw [← h.quiet _ (h.token_ne hc hkind (by decide)), (ContractManager.cells_of_lookup hc).2.1]
  rw [← hcur, ← hsender] at hstep
  have hreturns : Returns accounts (ethCall accounts depth) info.receiver (calleeLocals info c)
      c.store.cur (ERC20.transfer payee value) := ERC20.transfer_returns hstep
  obtain ⟨o₁, ho₁, hok⟩ := hreturns _ _ hgood₁ hc₁ rfl rfl
  rw [callContract_of_zero hvalue, Interface.runCallee, if_neg (not_not.mpr hmem),
    ethCall_succ hc₁, hbody, ho₁]
  obtain ⟨r, m₂, t₂⟩ := o₁
  cases hok
  exact ⟨_, rfl, rfl⟩

end

/-! ### The wrapper's functions -/

/-- What a call of the wrapper `w` by `caller` commits: nothing; a withdrawal, whose record
    and tokens change together; or a deposit, whose record may be missing. -/
inductive WrapperEffect (w caller : Address) (com com' : Address → View) : Prop where
  | nothing : com' = com → WrapperEffect w caller com com'
  | payOut (token payee : Address) (n : Nat) (g h : View) (records : AssocMap Address Uint256) :
      token ≠ w → (tokenOf (com token)).step (2 ^ 256) w (.transfer payee n) = some (tokenOf g) →
      View.Agree tokenVars (com token) g → RecordsChanged (com w) h token records →
      AssocMap.total (fun x => x.val) records + n = recordSum (com w) token →
      com' = Function.update (Function.update com token g) w h → WrapperEffect w caller com com'
  | deposit (token : Address) (n : Nat) (g h : View) : token ≠ w →
      (tokenOf (com token)).step (2 ^ 256) w (.transferFrom caller w n) = some (tokenOf g) →
      View.Agree tokenVars (com token) g →
      (h = com w ∨ ∃ records, RecordsChanged (com w) h token records ∧
        AssocMap.total (fun x => x.val) records = recordSum (com w) token + n) →
      com' = Function.update (Function.update com token g) w h → WrapperEffect w caller com com'

section

variable {C : Crypto} {accounts : Accounts} {depth : Nat} {w : Address} {l : ContractLocals}
  {m : ContractManager} {o : Outcome}

theorem finish_com_of_error {me : Address} {o : Outcome} {e : Exn} (hgood : o.manager.Good)
    (hme : me ∈ o.manager.contracts) (he : o.result = .error e) :
    (finish me o).manager.cells.com = o.manager.cells.com := by
  rw [finish_cells hgood hme, Outcome.returned, he]
  rfl

theorem WrapperFrame.finish_com (h : WrapperFrame C w l m) (hl : l.commit = true) (o : Outcome)
    (hm : o.manager = m) (hok : o.result = .ok ()) : (finish w o).manager.cells.com =
      Function.update m.cells.com w (m.cells.cur w) := by
  subst hm
  obtain ⟨c, hc, -, hcl⟩ := h.self
  rw [finish_cells h.good (AssocMap.mem_iff_lookup.mpr ⟨c, hc⟩),
    (ContractManager.cells_of_lookup hc).2.2, hcl, hl, Outcome.returned, hok]
  funext a
  by_cases ha : a = w
  · subst ha; simp [Cells.update]
  · simp [Cells.update, ha]

theorem WrapperFrame.mem (h : WrapperFrame C w l m) : w ∈ m.contracts := by
  obtain ⟨c, hc, -, -⟩ := h.self
  exact AssocMap.mem_iff_lookup.mpr ⟨c, hc⟩

/-- Every frame keeps the contracts well formed and in place. -/
theorem WrapperFrame.steps (h : WrapperFrame C w l m) {p : Prog}
    (ho : runProg accounts (ethCall accounts depth) w p m = some o) :
    o.manager.Good ∧ w ∈ o.manager.contracts := by
  have hs := runProg_steps (ethCall_sound accounts depth) w p h.good h.mem ho
  exact ⟨hs.good, hs.mem.mpr h.mem⟩

theorem WrapperFrame.throws (h : WrapperFrame C w l m) (caller : Address) (e : Exn) :
    WrapperEffect w caller m.cells.com (finish w ⟨.error e, m, .nil⟩).manager.cells.com :=
  .nothing (finish_com_of_error h.good h.mem rfl)

/-- The call of a token in a withdrawal. -/
def payInfo (C : Crypto) (w token payee : Address) (value : Uint256) : EthCallInfo :=
  ⟨w, token, 0, 0, 0, Abi.encodeCall C ERC20Wrapper.transferHeader
    [.address payee, .uint256 value]⟩

/-- How a withdrawal of `value` ends: without an amount above `value` in the record it is
    refused; with one it ends as the call of the token, and what is committed is both
    changes or none. -/
inductive PayOut (C : Crypto) (accounts : Accounts) (depth : Nat) (w : Address)
    (l : ContractLocals) (m : ContractManager) (token payee : Address) (value : Uint256)
    (o : Outcome) : Prop where
  | refused (e : Exn) : o.result = .error e →
      (∀ x, (recordsOf (m.cells.com w) token).lookup l.caller = some x → x ≤ value) →
      (finish w o).manager.cells.com = m.cells.com → PayOut C accounts depth w l m token payee value o
  | threw (e : Exn) (m₁ : ContractManager) (oc : Outcome) : o.result = .error e →
      WrapperFrame C w l m₁ → m₁.cells.com = m.cells.com → m₁.deployed = m.deployed →
      Interface.callContract accounts (ethCall accounts depth) (payInfo C w token payee value) m₁ =
        some oc → oc.result = .error e →
      (finish w o).manager.cells.com = m.cells.com → PayOut C accounts depth w l m token payee value o
  | paid (x y : Uint256) (g : View) : o.result = .ok () →
      (recordsOf (m.cells.com w) token).lookup l.caller = some x → value < x →
      y.val + value.val = x.val → token ≠ w →
      (tokenOf (m.cells.com token)).step (2 ^ 256) w (.transfer payee value.val) =
        some (tokenOf g) → View.Agree tokenVars (m.cells.com token) g →
      (finish w o).manager.cells.com = Function.update (Function.update m.cells.com token g) w
        (Function.update (m.cells.com w) (.entry tokensAndBalancesVar token)
          (some (.addrMap ((recordsOf (m.cells.com w) token).insert l.caller y)))) →
      PayOut C accounts depth w l m token payee value o

/-- Only the committed variables and the deployed contracts matter. -/
theorem PayOut.congr {m₁ : ContractManager} {token payee : Address} {value : Uint256}
    (h : PayOut C accounts depth w l m₁ token payee value o) (hcells : m₁.cells = m.cells)
    (hdeployed : m₁.deployed = m.deployed) :
    PayOut C accounts depth w l m token payee value o := by
  cases h with
  | refused e he hle hcom =>
    rw [hcells] at hle hcom
    exact .refused e he hle hcom
  | threw e m₂ oc he hframe hcom₂ hdep hoc hoe hcom =>
    rw [hcells] at hcom₂ hcom
    exact .threw e m₂ oc he hframe hcom₂ (hdep.trans hdeployed) hoc hoe hcom
  | paid x y g hok hx hlt hy hne hstep hagree hcom =>
    rw [hcells] at hx hstep hagree hcom
    exact .paid x y g hok hx hlt hy hne hstep hagree hcom

/-- The end of a withdrawal: the new record is written, then the token is called. -/
theorem pay_run (hC : Selectors C) (h : WrapperFrame C w l m) (hl : l.commit = true)
    (hquiet : m.cells.cur w = m.cells.com w) {token payee : Address} {value x y : Uint256}
    (hx : (recordsOf (m.cells.com w) token).lookup l.caller = some x) (hlt : value < x)
    (hy : y.val + value.val = x.val)
    (ho : runProg accounts (ethCall accounts depth) w
      (.assign tokensAndBalancesVar token
        (.addrMap ((recordsOf (m.cells.com w) token).insert l.caller y)) <|
        .callContract token 0 (Abi.encodeCall C ERC20Wrapper.transferHeader
          [.address payee, .uint256 value]) (Prog.rethrow .done)) m = some o) :
    PayOut C accounts depth w l m token payee value o := by
  obtain ⟨hgood, hmem⟩ := h.steps ho
  obtain ⟨c, hc, -, -⟩ := h.self
  set records := (recordsOf (m.cells.com w) token).insert l.caller y with hrecords
  have hw := Wrote.assign h.good hc tokensAndBalancesVar token (.addrMap records)
  rw [← (ContractManager.cells_of_lookup hc).2.1, hquiet] at hw
  have h₁ := h.wrote hw
  have hdeployed := ContractManager.deployed_of_shape hw.shape
  obtain ⟨o₁, ho₁, rfl⟩ := Option.map_eq_some_iff.mp ho
  set m₁ := m.modifyStore w fun s => s.assign tokensAndBalancesVar token (.addrMap records)
  have hcom₁ : m₁.cells.com = m.cells.com := by rw [hw.cells]; rfl
  obtain ⟨oc, hoc, ho₁⟩ := Option.bind_eq_some_iff.mp ho₁
  obtain ⟨hfunctor, hop⟩ := operation_transfer hC (payInfo C w token payee value) rfl
  cases callToken_cases h₁ rfl rfl hfunctor hop hoc with
  | threw e he hcom =>
    rw [he] at ho₁
    cases ho₁
    exact .threw e m₁ oc rfl h₁ hcom₁ hdeployed hoc he
      ((finish_com_of_error hgood hmem rfl).trans (hcom.trans hcom₁))
  | returned g hok hne hstep hagree h₂ hcom hcur =>
    rw [hok] at ho₁
    cases ho₁
    rw [hcom₁] at hstep hagree hcom
    have hseen : oc.manager.cells.cur w = Function.update (m.cells.com w)
        (.entry tokensAndBalancesVar token) (some (.addrMap records)) := by
      rw [hcur, hw.cells]
      exact Function.update_self _ _ _
    refine .paid x y g rfl hx hlt hy hne hstep hagree ?_
    refine (h₂.finish_com hl _ ?_ ?_).trans ?_
    · rfl
    · rfl
    · rw [hcom, hseen]
      rfl

theorem recordsOf_of_some {f : View} {token : Address} {v : Val}
    (hv : f (.entry tokensAndBalancesVar token) = some v) : recordsOf f token = v.toMap := by
  rw [recordsOf, hv, Option.getD_some]

theorem recordsOf_of_none {f : View} {token : Address}
    (hv : f (.entry tokensAndBalancesVar token) = none) : recordsOf f token = ∅ := by
  rw [recordsOf, hv]
  rfl

/-- **`withdraw` and `transferTo`**: the record goes down before the tokens move, and both
    stay only if the call of the token returns. -/
theorem payOut_run (hC : Selectors C) (h : WrapperFrame C w l m) (hl : l.commit = true)
    (hquiet : m.cells.cur w = m.cells.com w) {token : Address} {payee : Address → Address}
    {value : Uint256}
    (ho : runProg accounts (ethCall accounts depth) w (ERC20Wrapper.payOut C token payee value) m =
      some o) :
    PayOut C accounts depth w l m token (payee l.caller) value o := by
  obtain ⟨c, hc, -, hcl⟩ := h.self
  have hcur : c.store.cur = m.cells.com w := by
    rw [← hquiet, (ContractManager.cells_of_lookup hc).2.1]
  -- `find` changes nothing that can be seen.
  have hw := Wrote.find h.good hc tokensAndBalancesVar token
  have hcells : (m.modifyStore w fun s => (s.find tokensAndBalancesVar token).2).cells =
      m.cells := by
    rw [hw.cells, hcur, ← hquiet, Cells.see_cur]
  have hdeployed := ContractManager.deployed_of_shape hw.shape
  have h₁ := h.wrote hw
  rw [ERC20Wrapper.payOut, runProg_find h.good hc, hcur] at ho
  set m₁ := m.modifyStore w fun s => (s.find tokensAndBalancesVar token).2 with hm₁
  obtain ⟨c₁, hc₁, -, hcl₁⟩ := h₁.self
  -- A check that fails leaves the manager of `find`.
  have hrefused : ∀ e, (∀ x, (recordsOf (m.cells.com w) token).lookup l.caller = some x →
      x ≤ value) → some (⟨.error e, m₁, .nil⟩ : Outcome) = some o →
      PayOut C accounts depth w l m token (payee l.caller) value o := by
    intro e hle he
    cases he
    refine .refused e rfl hle ?_
    rw [finish_com_of_error h₁.good h₁.mem rfl, hcells]
  cases hv : m.cells.com w (.entry tokensAndBalancesVar token) with
  | none =>
    rw [hv] at ho
    refine hrefused _ (fun x hx => ?_) ho
    rw [recordsOf_of_none hv] at hx
    cases hx
  | some v =>
    rw [hv] at ho
    dsimp only at ho
    rw [runProg_getCaller hc₁, hcl₁, ← recordsOf_of_some hv] at ho
    cases hx : (recordsOf (m.cells.com w) token).lookup l.caller with
    | none =>
      rw [hx] at ho
      refine hrefused _ (fun x hx' => ?_) ho
      cases hx.symm.trans hx'
    | some x =>
      rw [hx] at ho
      dsimp only at ho
      split at ho
      · rename_i hle
        refine hrefused _ (fun x' hx' => ?_) ho
        cases hx.symm.trans hx'
        exact hle
      · rename_i hgt
        have hlt : value < x := not_le.mp hgt
        cases hy : usub x value with
        | error e => exact absurd (usub_eq_error.mp hy).2 (not_lt.mpr hlt.le)
        | ok y =>
          rw [hy] at ho
          rw [← hcells] at hquiet hx ho
          exact (pay_run hC h₁ hl hquiet hx hlt (usub_eq_ok.mp hy) ho).congr hcells hdeployed

theorem payOut_ends (hC : Selectors C) (accounts : Accounts) (depth : Nat)
    (h : WrapperFrame C w l m) (token : Address) (payee : Address → Address) (value : Uint256) :
    ∃ o, runProg accounts (ethCall accounts (depth + 1)) w
      (ERC20Wrapper.payOut C token payee value) m = some o := by
  obtain ⟨c, hc, -, -⟩ := h.self
  have h₁ := h.wrote (Wrote.find h.good hc tokensAndBalancesVar token)
  rw [ERC20Wrapper.payOut, runProg_find h.good hc]
  obtain ⟨c₁, hc₁, -, -⟩ := h₁.self
  cases c.store.cur (.entry tokensAndBalancesVar token) with
  | none => exact ⟨_, rfl⟩
  | some v =>
    dsimp only
    rw [runProg_getCaller hc₁]
    cases v.toMap.lookup c₁.locals.caller with
    | none => exact ⟨_, rfl⟩
    | some x =>
      dsimp only
      split
      · exact ⟨_, rfl⟩
      · cases usub x value with
        | error e => exact ⟨_, rfl⟩
        | ok y =>
          have h₂ := h₁.wrote (Wrote.assign h₁.good hc₁ tokensAndBalancesVar token
            (.addrMap (v.toMap.insert c₁.locals.caller y)))
          obtain ⟨hfunctor, hop⟩ := operation_transfer hC
            (payInfo C w token (payee c₁.locals.caller) value) rfl
          obtain ⟨oc, hoc, -⟩ := callToken_ends accounts depth h₂ rfl rfl hfunctor hop
          unfold payInfo at hoc
          rw [Prog.ofExcept, runProg, runProg, hoc, Option.bind_some]
          cases oc.result <;> exact ⟨_, rfl⟩

theorem payOut_cases (hC : Selectors C) (h : WrapperFrame C w l m) (hl : l.commit = true)
    (hquiet : m.cells.cur w = m.cells.com w) {token : Address} {payee : Address → Address}
    {value : Uint256}
    (ho : runProg accounts (ethCall accounts depth) w (ERC20Wrapper.payOut C token payee value) m =
      some o) :
    WrapperEffect w l.caller m.cells.com (finish w o).manager.cells.com := by
  cases payOut_run hC h hl hquiet ho with
  | refused e _ _ hcom => exact .nothing hcom
  | threw e m₁ oc _ _ _ _ _ _ hcom => exact .nothing hcom
  | paid x y g _ hx _ hy hne hstep hagree hcom =>
    refine .payOut token (payee l.caller) value.val g _ _ hne hstep hagree rfl ?_ hcom
    have htotal := AssocMap.total_insert (fun z : Uint256 => z.val)
      (recordsOf (m.cells.com w) token) l.caller y
    rw [AssocMap.weight_of_lookup hx] at htotal
    rw [recordSum]
    omega

/-- `deposit`: the tokens move before the record goes up, and they stay moved when the record
    cannot be raised. -/
theorem deposit_cases (hC : Selectors C) (h : WrapperFrame C w l m) (hl : l.commit = true)
    (hquiet : m.cells.cur w = m.cells.com w) {token : Address} {value : Uint256}
    (ho : runProg accounts (ethCall accounts depth) w (ERC20Wrapper.deposit C w token value) m =
      some o) :
    WrapperEffect w l.caller m.cells.com (finish w o).manager.cells.com := by
  obtain ⟨hgood, hmem⟩ := h.steps ho
  obtain ⟨c, hc, -, hcl⟩ := h.self
  rw [ERC20Wrapper.deposit, runProg_getCaller hc, hcl] at ho
  obtain ⟨oc, hoc, ho⟩ := Option.bind_eq_some_iff.mp ho
  obtain ⟨hfunctor, hop⟩ := operation_transferFrom hC ⟨w, token, 0, 0, 0, _⟩ rfl
  cases callToken_cases h rfl rfl hfunctor hop hoc with
  | threw e he hcom =>
    rw [he] at ho
    cases ho
    exact .nothing ((finish_com_of_error hgood hmem rfl).trans hcom)
  | returned g hok hne hstep hagree h₁ hcom hcur =>
    rw [hok] at ho
    obtain ⟨o₁, ho₁, rfl⟩ := Option.map_eq_some_iff.mp ho
    obtain ⟨c₁, hc₁, -, hcl₁⟩ := h₁.self
    have hcur₁ : c₁.store.cur = m.cells.com w := by
      rw [← (ContractManager.cells_of_lookup hc₁).2.1, hcur, hquiet]
    -- The rest only writes the record.
    have hlocal : Local accounts (ethCall accounts depth) w l (m.cells.com w)
        (.getCaller fun caller => Prog.updateNested tokensAndBalancesVar token caller
          (fun x => uadd x value) .done)
        fun h _ => ∃ records, RecordsChanged (m.cells.com w) h token records ∧
          AssocMap.total (fun x => x.val) records =
            recordSum (m.cells.com w) token + value.val := by
      refine Local.getCaller (Local.updateNested fun y hy => Local.done ⟨_, rfl, ?_⟩)
      have htotal := AssocMap.total_insert_emplace (fun z : Uint256 => z.val)
        (recordsOf (m.cells.com w) token) l.caller (v := 0) rfl y
      have hweight : AssocMap.weight (fun z : Uint256 => z.val)
          (recordsOf (m.cells.com w) token) l.caller =
            (((recordsOf (m.cells.com w) token).lookup l.caller).getD 0).val := by
        unfold AssocMap.weight
        cases (recordsOf (m.cells.com w) token).lookup l.caller <;> rfl
      have hy' : y.val = (((recordsOf (m.cells.com w) token).lookup l.caller).getD 0).val +
          value.val := uadd_eq_ok.mp hy
      rw [recordSum]
      show AssocMap.total _ (((recordsOf (m.cells.com w) token).emplace l.caller 0).insert _ y) = _
      omega
    obtain ⟨o₂, h', ho₂, hw, hP⟩ := hlocal oc.manager c₁ h₁.good hc₁ hcl₁ hcur₁
    cases ho₂.symm.trans ho₁
    have hcom₂ : o₁.manager.cells.com = Function.update m.cells.com token g := by
      rw [hw.cells]
      exact hcom
    have hw' : Function.update m.cells.com token g w = m.cells.com w :=
      Function.update_of_ne (fun he => hne he.symm) _ _
    cases hr : o₁.result with
    | error e =>
      refine .deposit token value.val g (m.cells.com w) hne hstep hagree (Or.inl rfl) ?_
      refine (finish_com_of_error hgood hmem hr).trans (hcom₂.trans ?_)
      rw [← hw', Function.update_eq_self]
    | ok u =>
      refine .deposit token value.val g h' hne hstep hagree (Or.inr (hP hr)) ?_
      have hseen : o₁.manager.cells.cur w = h' := by
        rw [hw.cells]
        exact Function.update_self _ _ _
      refine ((h₁.wrote hw).finish_com hl (o₁.after oc.trace) rfl hr).trans ?_
      rw [hcom₂, hseen]

theorem wrapperBody_cases (hC : Selectors C) (h : WrapperFrame C w l m) (hl : l.commit = true)
    (hquiet : m.cells.cur w = m.cells.com w) {c : DynamicContract} (hc : c.Is C w .erc20Wrapper)
    {info : EthCallInfo}
    (ho : runProg accounts (ethCall accounts depth) w (c.body info) m = some o) :
    WrapperEffect w l.caller m.cells.com (finish w o).manager.cells.com := by
  have hfn : c.function info.functor = ERC20Wrapper.functions C w info.functor := by
    rw [DynamicContract.function, DynamicContract.isPayableFunction, hc.2]
    rfl
  -- Arguments that cannot be decoded throw.
  have hargs : ∀ {α : Type} (x : Except Exn α) (k : α → Prog),
      runProg accounts (ethCall accounts depth) w (Prog.ofExcept x k) m = some o →
      (∀ a, runProg accounts (ethCall accounts depth) w (k a) m = some o →
        WrapperEffect w l.caller m.cells.com (finish w o).manager.cells.com) →
      WrapperEffect w l.caller m.cells.com (finish w o).manager.cells.com := by
    intro α x k hx hk
    cases x with
    | error e =>
      cases hx
      exact h.throws _ _
    | ok a => exact hk a hx
  unfold DynamicContract.body at ho
  rw [hfn, ERC20Wrapper.functions] at ho
  split at ho
  · cases ho
    exact h.throws _ _
  · rename_i fn hsome
    split at hsome
    · cases hsome
      dsimp only at ho
      rw [argsAddressUint_eq] at ho
      exact hargs _ _ ho fun p hp => payOut_cases hC h hl hquiet hp
    · split at hsome
      · cases hsome
        dsimp only at ho
        rw [argsAddressAddressUint_eq] at ho
        exact hargs _ _ ho fun p hp => payOut_cases hC h hl hquiet hp
      · split at hsome
        · cases hsome
          dsimp only at ho
          rw [argsAddressUint_eq] at ho
          exact hargs _ _ ho fun p hp => deposit_cases hC h hl hquiet hp
        · cases hsome

end

end OrbiterSdk

import OrbiterSdk.Contract.Token

namespace OrbiterSdk

/-!
# Creating contracts, for real and dry

The contract manager has two functions for each kind of contract: one that creates it and one
that only checks whether it could be created, which `estimateGas` uses.  `Manager.lean` builds
both from the same parts.  Here all six are written out as they are in the source, each with
its own checks, and `ethCall` with the two dispatches.

* `Written.ethCall_eq` — written out, the functions do what those of `Manager.lean` do;
* `Except.bind_total` — a check followed by something that cannot fail;
* `ERC20.new_total` — the constructor of a token never throws;
* `ethCall_dryRun` — a dry run fails exactly when the creation fails, with the same exception,
  and changes no contract.
-/

/-- A check that is followed by what cannot fail, fails as the check alone. -/
theorem Except.bind_total {ε α β : Type} {x : Except ε α} {f : α → Except ε β}
    (hf : ∀ a, ∃ b, f a = .ok b) {e : ε} : x >>= f = .error e ↔ x = .error e := by
  cases x with
  | error e' =>
    constructor
    · intro h
      cases h
      rfl
    · intro h
      cases h
      rfl
  | ok a =>
    obtain ⟨b, hb⟩ := hf a
    constructor
    · intro h
      rw [show (Except.ok a >>= f) = f a from rfl, hb] at h
      cases h
    · intro h
      cases h

namespace ContractManager

/-! ### The functions as they are written -/

namespace Written

/-- `Decoder::getData<uint256_t>`. -/
def getUint256 (data : List Abi.Value) (index : Nat) : Except Fail Uint256 :=
  match data[index]? with
  | none => .error (.exn .outOfRange)
  | some (.uint256 x) => .ok x
  | some _ => raise "Type mismatch"

/-- `Decoder::getData<std::string>`. -/
def getString (data : List Abi.Value) (index : Nat) : Except Fail Bytes :=
  match data[index]? with
  | none => .error (.exn .outOfRange)
  | some (.bytes s) => .ok s
  | some _ => raise "Type mismatch"

/-- The loop over `ProtocolContractAddresses`. -/
def refuseProtocol (derived : Address) : List Address → Except Fail Unit
  | [] => .ok ()
  | a :: as => do
    if a = derived then raise "Contract already exists"
    refuseProtocol derived as

variable (C : Crypto)

/-- `ContractManager::createNewERC20Contract`. -/
def createNewERC20Contract (m : ContractManager) (info : EthCallInfo) :
    Except Fail ContractManager := do
  if m.locals.caller ≠ contractCreator then raise "Only contract creator can create new contracts"
  let derived := m.deriveContractAddress C
  if derived ∈ m.contracts then raise "Contract already exists"
  refuseProtocol derived protocolContractAddresses
  let decoder ← Abi.decode [.string, .string, .uint256, .uint256]
    (← liftExn (substrFrom info.data 4))
  if 255 < (← getUint256 decoder 2).val then raise "Decimals must be between 0 and 255"
  let contract ← liftExn (ERC20.new derived m.locals.caller (← getString decoder 0)
    (← getString decoder 1) (← getUint256 decoder 2) (← getUint256 decoder 3))
  return { m with contracts := m.contracts.insert derived contract }

/-- `ContractManager::validateCreateNewERC20Contract`. -/
def validateCreateNewERC20Contract (m : ContractManager) (info : EthCallInfo) :
    Except Fail Unit := do
  if m.locals.caller ≠ contractCreator then raise "Only contract creator can create new contracts"
  let derived := m.deriveContractAddress C
  if derived ∈ m.contracts then raise "Contract already exists"
  refuseProtocol derived protocolContractAddresses
  let decoder ← Abi.decode [.string, .string, .uint256, .uint256]
    (← liftExn (substrFrom info.data 4))
  if 255 < (← getUint256 decoder 2).val then raise "Decimals must be between 0 and 255"

/-- `ContractManager::createNewERC20WrapperContract`. -/
def createNewERC20WrapperContract (m : ContractManager) : Except Fail ContractManager := do
  if m.locals.caller ≠ contractCreator then raise "Only contract creator can create new contracts"
  let derived := m.deriveContractAddress C
  if derived ∈ m.contracts then raise "Contract already exists"
  refuseProtocol derived protocolContractAddresses
  return { m with contracts := m.contracts.insert derived (ERC20Wrapper.new C derived) }

/-- `ContractManager::validateCreateNewERC20WrapperContract`. -/
def validateCreateNewERC20WrapperContract (m : ContractManager) : Except Fail Unit := do
  if m.locals.caller ≠ contractCreator then raise "Only contract creator can create new contracts"
  let derived := m.deriveContractAddress C
  if derived ∈ m.contracts then raise "Contract already exists"
  refuseProtocol derived protocolContractAddresses

/-- `ContractManager::createNewERC20NativeWrapperContract`. -/
def createNewERC20NativeWrapperContract (m : ContractManager) (info : EthCallInfo) :
    Except Fail ContractManager := do
  if m.locals.caller ≠ contractCreator then raise "Only contract creator can create new contracts"
  let derived := m.deriveContractAddress C
  if derived ∈ m.contracts then raise "Contract already exists"
  refuseProtocol derived protocolContractAddresses
  let decoder ← Abi.decode [.string, .string, .uint256] (← liftExn (substrFrom info.data 4))
  if 255 < (← getUint256 decoder 2).val then raise "Decimals must be between 0 and 255"
  let contract := NativeWrapper.new derived (← getString decoder 0) (← getString decoder 1)
    (← getUint256 decoder 2)
  return { m with contracts := m.contracts.insert derived contract }

/-- `ContractManager::validateCreateNewERC20NativeWrapperContract`. -/
def validateCreateNewERC20NativeWrapperContract (m : ContractManager) (info : EthCallInfo) :
    Except Fail Unit := do
  if m.locals.caller ≠ contractCreator then raise "Only contract creator can create new contracts"
  let derived := m.deriveContractAddress C
  if derived ∈ m.contracts then raise "Contract already exists"
  refuseProtocol derived protocolContractAddresses
  let decoder ← Abi.decode [.string, .string, .uint256] (← liftExn (substrFrom info.data 4))
  if 255 < (← getUint256 decoder 2).val then raise "Decimals must be between 0 and 255"

/-- `ContractManager::ethCall`. -/
def ethCall (m : ContractManager) (info : EthCallInfo) : Except Fail ContractManager :=
  if m.locals.commit then
    if info.functor = functorOf 0xb74e5ed5 then createNewERC20Contract C m info
    else if info.functor = functorOf 0x97aa51a3 then createNewERC20WrapperContract C m
    else if info.functor = functorOf 0x9f90f4c7 then createNewERC20NativeWrapperContract C m info
    else raise "Invalid function call"
  else
    if info.functor = functorOf 0xb74e5ed5 then do
      validateCreateNewERC20Contract C m info
      return m
    else if info.functor = functorOf 0x97aa51a3 then do
      validateCreateNewERC20WrapperContract C m
      return m
    else if info.functor = functorOf 0x9f90f4c7 then do
      validateCreateNewERC20NativeWrapperContract C m info
      return m
    else raise "Invalid function call"

/-! ### They are those of the model -/

variable {C}

theorem refuseProtocol_eq (derived : Address) (as : List Address) :
    refuseProtocol derived as =
      if derived ∈ as then raise "Contract already exists" else pure () := by
  induction as with
  | nil => rfl
  | cons a as ih =>
    rw [refuseProtocol, ih]
    by_cases h : a = derived
    · subst h
      rw [if_pos rfl, if_pos List.mem_cons_self]
      rfl
    · have hmem : derived ∈ a :: as ↔ derived ∈ as := by
        simp [show derived ≠ a from fun he => h he.symm]
      simp only [hmem, if_neg h]

/-- A check of a `do` block as a computation of its own. -/
theorem guard_bind {β : Type} (p : Prop) [Decidable p] (what : String) (k : Unit → Except Fail β) :
    (if p then raise what >>= k else k ()) = (if p then raise what else pure ()) >>= k := by
  split
  · rfl
  · rfl

theorem decode_token (args : Bytes) :
    Abi.decode [.string, .string, .uint256, .uint256] args = (do
      let name ← Abi.decodeBytes args 0
      let symbol ← Abi.decodeBytes args 32
      let decimals ← liftExn (Abi.decodeUint256 args 64)
      let supply ← liftExn (Abi.decodeUint256 args 96)
      return [.bytes name, .bytes symbol, .uint256 decimals, .uint256 supply]) := by
  simp only [Abi.decode, Abi.decodeLoop, Abi.decodeValue, bind_assoc, pure_bind]
  rfl

theorem decode_nativeWrapper (args : Bytes) :
    Abi.decode [.string, .string, .uint256] args = (do
      let name ← Abi.decodeBytes args 0
      let symbol ← Abi.decodeBytes args 32
      let decimals ← liftExn (Abi.decodeUint256 args 64)
      return [.bytes name, .bytes symbol, .uint256 decimals]) := by
  simp only [Abi.decode, Abi.decodeLoop, Abi.decodeValue, bind_assoc, pure_bind]
  rfl

theorem createNewERC20Contract_eq (m : ContractManager) (info : EthCallInfo) :
    createNewERC20Contract C m info = m.createNewERC20Contract C info := by
  simp only [createNewERC20Contract, ContractManager.createNewERC20Contract,
    ContractManager.validateCreateNewERC20Contract, checkDeployment, guard_bind,
    refuseProtocol_eq, decode_token, bind_assoc, pure_bind]
  rfl

theorem validateCreateNewERC20Contract_eq (m : ContractManager) (info : EthCallInfo) :
    validateCreateNewERC20Contract C m info =
      (do let _ ← m.validateCreateNewERC20Contract C info) := by
  simp only [validateCreateNewERC20Contract, ContractManager.validateCreateNewERC20Contract,
    checkDeployment, guard_bind, refuseProtocol_eq, decode_token, bind_assoc, pure_bind,
    bind_pure_unit]
  rfl

theorem createNewERC20WrapperContract_eq (m : ContractManager) :
    createNewERC20WrapperContract C m = m.createNewERC20WrapperContract C := by
  simp only [createNewERC20WrapperContract, ContractManager.createNewERC20WrapperContract,
    ContractManager.validateCreateNewERC20WrapperContract, checkDeployment, guard_bind,
    refuseProtocol_eq, bind_assoc, pure_bind]

theorem validateCreateNewERC20WrapperContract_eq (m : ContractManager) :
    validateCreateNewERC20WrapperContract C m =
      (do let _ ← m.validateCreateNewERC20WrapperContract C) := by
  simp only [validateCreateNewERC20WrapperContract,
    ContractManager.validateCreateNewERC20WrapperContract, checkDeployment, guard_bind,
    refuseProtocol_eq, bind_assoc, pure_bind, bind_pure_unit]

theorem createNewERC20NativeWrapperContract_eq (m : ContractManager) (info : EthCallInfo) :
    createNewERC20NativeWrapperContract C m info =
      m.createNewERC20NativeWrapperContract C info := by
  simp only [createNewERC20NativeWrapperContract,
    ContractManager.createNewERC20NativeWrapperContract,
    ContractManager.validateCreateNewERC20NativeWrapperContract, checkDeployment, guard_bind,
    refuseProtocol_eq, decode_nativeWrapper, bind_assoc, pure_bind]
  rfl

theorem validateCreateNewERC20NativeWrapperContract_eq (m : ContractManager)
    (info : EthCallInfo) :
    validateCreateNewERC20NativeWrapperContract C m info =
      (do let _ ← m.validateCreateNewERC20NativeWrapperContract C info) := by
  simp only [validateCreateNewERC20NativeWrapperContract,
    ContractManager.validateCreateNewERC20NativeWrapperContract, checkDeployment, guard_bind,
    refuseProtocol_eq, decode_nativeWrapper, bind_assoc, pure_bind, bind_pure_unit]
  rfl

/-- Written out, the manager's own functions do what those of the model do. -/
theorem ethCall_eq (m : ContractManager) (info : EthCallInfo) :
    ethCall C m info = m.ethCall C info := by
  unfold ethCall ContractManager.ethCall
  rw [createNewERC20Contract_eq, createNewERC20WrapperContract_eq,
    createNewERC20NativeWrapperContract_eq, validateCreateNewERC20Contract_eq,
    validateCreateNewERC20WrapperContract_eq, validateCreateNewERC20NativeWrapperContract_eq]
  cases m.locals.commit with
  | true => rfl
  | false =>
    simp only [bind_assoc, pure_bind]
    rfl

end Written

end ContractManager

/-! ### Constructors -/

/-- `_mintValue` returns if neither the balance nor the supply overflows. -/
theorem Store.mintValue_total {s : Store} {a : Address} {value x y : Uint256} {supply : Val}
    (h : s.WF)
    (hx : uadd ((s.cur (.entry balancesVar a)).getD balancesVar.dflt).toUint value = .ok x)
    (hsupply : s.cur (.scalar totalSupplyVar) = some supply)
    (hy : uadd supply.toUint value = .ok y) : ∃ s', s.mintValue a value = .ok s' := by
  obtain ⟨hval, hindex⟩ := index_spec h balancesVar a
  have hassign := assign_spec hindex.wf balancesVar a (.uint x)
  obtain ⟨hget, -⟩ := get_spec hassign.wf totalSupplyVar
  -- Writing the balance does not touch the supply.
  rw [hassign.cur, hindex.cur] at hget
  have hread := Option.some.inj (hget.trans hsupply)
  rw [← hval] at hx
  rw [← hread] at hy
  exact ⟨_, Except.bind_eq_ok.mpr ⟨x, hx, Except.bind_eq_ok.mpr ⟨y, hy, rfl⟩⟩⟩

/-- The constructor of a token mints into an empty contract, so it never throws. -/
theorem ERC20.new_total (derived creator : Address) (name symbol : Bytes)
    (decimals supply : Uint256) :
    ∃ c, ERC20.new derived creator name symbol decimals supply = .ok c := by
  have hsupply : uadd 0 supply = .ok supply := uadd_eq_ok.mpr (Nat.zero_add _).symm
  obtain ⟨hscalar, hentry⟩ := Store.describe_cur name symbol decimals
  have hnone : ((none : Option Val).getD balancesVar.dflt).toUint = 0 := rfl
  have hfirst : uadd (((Store.init.describe name symbol decimals).cur
      (.entry balancesVar creator)).getD balancesVar.dflt).toUint supply = .ok supply := by
    rw [hentry, hnone, hsupply]
  obtain ⟨s, hs⟩ := Store.mintValue_total (Store.describe_wf name symbol decimals)
    hfirst hscalar hsupply
  exact ⟨_, Except.bind_eq_ok.mpr ⟨s, hs, rfl⟩⟩

namespace ContractManager

/-! ### The dry run -/

variable {C : Crypto}

theorem createNewERC20Contract_error (m : ContractManager) (info : EthCallInfo) (e : Fail) :
    m.createNewERC20Contract C info = .error e ↔
      m.validateCreateNewERC20Contract C info = .error e := by
  unfold ContractManager.createNewERC20Contract
  rw [Except.bind_total]
  intro args
  obtain ⟨derived, name, symbol, decimals, supply⟩ := args
  obtain ⟨c, hc⟩ := ERC20.new_total derived m.locals.caller name symbol decimals supply
  dsimp only
  rw [hc]
  exact ⟨_, rfl⟩

theorem dry_error {α : Type} (m : ContractManager) (x : Except Fail α) (e : Fail) :
    (do let _ ← x; return m) = .error e ↔ x = .error e :=
  Except.bind_total fun _ => ⟨m, rfl⟩

/-- Deploying fails as the dry run does. -/
theorem ethCall_error_iff (m : ContractManager) (info : EthCallInfo) (e : Fail) :
    (m.setCommit false).ethCall C info = .error e ↔
      (m.setCommit true).ethCall C info = .error e := by
  unfold ContractManager.ethCall
  by_cases htoken : info.functor = functorOf 0xb74e5ed5
  · rw [if_pos htoken, if_pos htoken]
    exact (dry_error _ _ e).trans (createNewERC20Contract_error (m.setCommit true) info e).symm
  · rw [if_neg htoken, if_neg htoken]
    by_cases hwrapper : info.functor = functorOf 0x97aa51a3
    · rw [if_pos hwrapper, if_pos hwrapper]
      exact (dry_error _ _ e).trans (Except.bind_total fun _ => ⟨_, rfl⟩).symm
    · rw [if_neg hwrapper, if_neg hwrapper]
      by_cases hnative : info.functor = functorOf 0x9f90f4c7
      · rw [if_pos hnative, if_pos hnative]
        exact (dry_error _ _ e).trans (Except.bind_total fun _ => ⟨_, rfl⟩).symm
      · rw [if_neg hnative, if_neg hnative]

/-- **Dry runs of contract creation are faithful**: with the commit flag unset the manager's
    own functions throw exactly when they throw with the flag set, and the same, and a dry run
    that returns leaves the contracts as they were. -/
theorem ethCall_dryRun (C : Crypto) (m : ContractManager) (info : EthCallInfo) :
    (∀ e, Written.ethCall C (m.setCommit false) info = .error e ↔
      Written.ethCall C (m.setCommit true) info = .error e) ∧
    ∀ m', Written.ethCall C (m.setCommit false) info = .ok m' → m'.contracts = m.contracts := by
  simp only [Written.ethCall_eq]
  refine ⟨ethCall_error_iff m info, ?_⟩
  intro m' h
  obtain hm' | ⟨hcommit, -⟩ := ethCall_ok h
  · rw [hm']
    rfl
  · cases hcommit

end ContractManager

end OrbiterSdk

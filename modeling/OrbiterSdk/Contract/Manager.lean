import OrbiterSdk.Contract.Contracts

namespace OrbiterSdk

/-!
# The contract manager

`contract/contractmanager.cpp`: deploying contracts, dispatching transactions
(`callContract`), simulating them (`validateCallContractWithTx`) and answering view calls
(`callContractView`).  The manager keeps a commit flag and locals of its own, which nested
calls and simulations read.
-/

/-- `ProtocolContractAddresses.at("rdPoS")`. -/
def rdPoSAddress : Address := FixedStr.ofNat 20 0xb23aa52dbeda59277ab8a962c69f5971f22904cf

/-- `ProtocolContractAddresses.at("ContractManager")`. -/
def contractManagerAddress : Address := FixedStr.ofNat 20 0x0001cb47ea6d8b55fe44fdd6b1bdb579efb43e61

/-- `ProtocolContractAddresses`. -/
def protocolContractAddresses : List Address := [rdPoSAddress, contractManagerAddress]

/-- The creator of the contract manager: the genesis account. -/
def contractCreator : Address := FixedStr.ofNat 20 0x00dead00665771855a34155f5e7405489df2c3c6

namespace ContractManager

variable (C : Crypto)

/-! ### Deployment -/

/-- `deriveContractAddress`: hash of the caller and of the number of contracts.  From 128
    contracts on only the number of bytes of that number is hashed. -/
def deriveContractAddress (m : ContractManager) : Address :=
  let size := m.contracts.entries.length
  let rlpSize := 0xc0 + 20 + if size < 0x80 then 1 else 1 + bytesRequired size
  let rlp : Bytes := UInt8.ofNat rlpSize :: (m.locals.caller.data ++
    [if size < 0x80 then UInt8.ofNat size else UInt8.ofNat (0x80 + bytesRequired size)])
  ⟨(C.sha3 rlp).data.drop 12, by simp [FixedStr.size_eq]⟩

/-- The checks every creation starts with; returns the derived address. -/
def checkDeployment (m : ContractManager) : Except Fail Address := do
  if m.locals.caller ≠ contractCreator then raise "Only contract creator can create new contracts"
  let derived := m.deriveContractAddress C
  if derived ∈ m.contracts then raise "Contract already exists"
  if derived ∈ protocolContractAddresses then raise "Contract already exists"
  return derived

/-- `validateCreateNewERC20Contract`: the checks and the decoded constructor arguments. -/
def validateCreateNewERC20Contract (m : ContractManager) (info : EthCallInfo) :
    Except Fail (Address × Bytes × Bytes × Uint256 × Uint256) := do
  let derived ← m.checkDeployment C
  let args ← liftExn (substrFrom info.data 4)
  let name ← Abi.decodeBytes args 0
  let symbol ← Abi.decodeBytes args 32
  let decimals ← liftExn (Abi.decodeUint256 args 64)
  let supply ← liftExn (Abi.decodeUint256 args 96)
  if 255 < decimals.val then raise "Decimals must be between 0 and 255"
  return (derived, name, symbol, decimals, supply)

/-- `createNewERC20Contract`: the same checks, then the deployment. -/
def createNewERC20Contract (m : ContractManager) (info : EthCallInfo) :
    Except Fail ContractManager := do
  let (derived, name, symbol, decimals, supply) ← m.validateCreateNewERC20Contract C info
  let contract ← liftExn (ERC20.new derived m.locals.caller name symbol decimals supply)
  return { m with contracts := m.contracts.insert derived contract }

/-- `validateCreateNewERC20WrapperContract`. -/
def validateCreateNewERC20WrapperContract (m : ContractManager) : Except Fail Address :=
  m.checkDeployment C

/-- `createNewERC20WrapperContract`. -/
def createNewERC20WrapperContract (m : ContractManager) : Except Fail ContractManager := do
  let derived ← m.validateCreateNewERC20WrapperContract C
  return { m with contracts := m.contracts.insert derived (ERC20Wrapper.new C derived) }

/-- `validateCreateNewERC20NativeWrapperContract`. -/
def validateCreateNewERC20NativeWrapperContract (m : ContractManager) (info : EthCallInfo) :
    Except Fail (Address × Bytes × Bytes × Uint256) := do
  let derived ← m.checkDeployment C
  let args ← liftExn (substrFrom info.data 4)
  let name ← Abi.decodeBytes args 0
  let symbol ← Abi.decodeBytes args 32
  let decimals ← liftExn (Abi.decodeUint256 args 64)
  if 255 < decimals.val then raise "Decimals must be between 0 and 255"
  return (derived, name, symbol, decimals)

/-- `createNewERC20NativeWrapperContract`. -/
def createNewERC20NativeWrapperContract (m : ContractManager) (info : EthCallInfo) :
    Except Fail ContractManager := do
  let (derived, name, symbol, decimals) ← m.validateCreateNewERC20NativeWrapperContract C info
  return { m with
    contracts := m.contracts.insert derived (NativeWrapper.new derived name symbol decimals) }

/-- `ContractManager::ethCall`: deploy when the commit flag is set, else only check. -/
def ethCall (m : ContractManager) (info : EthCallInfo) : Except Fail ContractManager :=
  if info.functor = functorOf 0xb74e5ed5 then
    if m.locals.commit then m.createNewERC20Contract C info
    else do let _ ← m.validateCreateNewERC20Contract C info; return m
  else if info.functor = functorOf 0x97aa51a3 then
    if m.locals.commit then m.createNewERC20WrapperContract C
    else do let _ ← m.validateCreateNewERC20WrapperContract C; return m
  else if info.functor = functorOf 0x9f90f4c7 then
    if m.locals.commit then m.createNewERC20NativeWrapperContract C info
    else do let _ ← m.validateCreateNewERC20NativeWrapperContract C info; return m
  else raise "Invalid function call"

/-! ### Transactions -/

/-- `balances.clear()`. -/
def clearBalances (m : ContractManager) : ContractManager := { m with balances := ∅ }

/-- Set the manager's own commit flag. -/
def setCommit (m : ContractManager) (b : Bool) : ContractManager :=
  { m with locals := { m.locals with commit := b } }

/-- Set the commit flag of the contract at `a`. -/
def setContractCommit (m : ContractManager) (a : Address) (b : Bool) : ContractManager :=
  m.modifyLocals a fun l => { l with commit := b }

/-- Set caller, origin and value of the manager itself. -/
def setCaller (m : ContractManager) (info : EthCallInfo) : ContractManager :=
  { m with locals := { m.locals with
      caller := info.sender, origin := info.sender, value := info.value } }

/-- The locals of a contract that a top-level call starts. -/
def enterContract (m : ContractManager) (info : EthCallInfo) (commit : Bool) : ContractManager :=
  m.modifyLocals info.receiver fun _ =>
    { caller := info.sender, origin := info.sender, value := info.value, commit }

/-- The locals of the rdPoS contract after a call of it: it overrides no `ethCall`. -/
def enterRdPoS (m : ContractManager) (info : EthCallInfo) : ContractManager :=
  { m with rdposLocals :=
      { caller := info.sender, origin := info.sender, value := info.value, commit := false } }

/-- `BaseContract::ethCall`. -/
def notOverridden : Exn := .runtimeError "Derived Class from Contract does not override ethCall()"

/-- `isPayable`. -/
def isPayable (m : ContractManager) (info : EthCallInfo) : Bool :=
  match m.contracts.lookup info.receiver with
  | none => false
  | some c => c.isPayableFunction info.functor

/-- `isContractAddress`. -/
def isContractAddress (m : ContractManager) (a : Address) : Bool :=
  decide (a ∈ protocolContractAddresses) || decide (a ∈ m.contracts)

/-- `isContractCall`. -/
def isContractCall (m : ContractManager) (tx : TxBlock) : Bool :=
  decide (tx.receiver = contractManagerAddress) || m.isContractAddress tx.receiver

/-- The result of a transaction's contract call. -/
structure TxOutcome where
  result : Except Exn Unit
  accounts : Accounts
  manager : ContractManager
  trace : Trace

/-- `State::processContractPayable`: write the temporary balances back. -/
def processContractPayable (processingPayable : Bool) (accounts : Accounts)
    (payableMap : AssocMap Address Uint256) : Except Exn Accounts :=
  if !processingPayable then
    .error (.runtimeError ("Uh oh, contracts are going haywire! " ++
      "Cannot change State while not processing a payable contract."))
  else .ok (accounts.overwrite
    (fun old amount => { (old.getD ⟨0, 0⟩) with balance := amount }) payableMap.entries)

/-- `callContract(tx)` for a transaction to the manager itself. -/
def callManager (accounts : Accounts) (m : ContractManager) (info : EthCallInfo) :
    Option TxOutcome :=
  let m := m.setCaller info
  match m.ethCall C info with
  | .error .oob => none
  | .error (.exn e) => some ⟨.error e, accounts, (m.setCommit false).clearBalances, .nil⟩
  | .ok m' => some ⟨.ok (), accounts, (m'.setCommit false).clearBalances, .nil⟩

/-- The end of `callContract(tx)` for a deployed contract.  The temporary balances reach
    `State` only when the top-level function is payable. -/
def settle (processingPayable : Bool) (accounts : Accounts) (info : EthCallInfo) (o : Outcome) :
    TxOutcome :=
  match o.result with
  | .error e =>
    ⟨.error e, accounts, (o.manager.setContractCommit info.receiver false).clearBalances, o.trace⟩
  | .ok () =>
    if o.manager.isPayable info then
      match processContractPayable processingPayable accounts o.manager.balances with
      | .error e => ⟨.error e, accounts, o.manager, o.trace⟩
      | .ok accounts =>
        ⟨.ok (), accounts, o.manager.clearBalances.setContractCommit info.receiver false, o.trace⟩
    else
      ⟨.ok (), accounts, o.manager.clearBalances.setContractCommit info.receiver false, o.trace⟩

/-- `callContract(tx)` for a transaction to a deployed contract. -/
def callDeployed (depth : Nat) (processingPayable : Bool) (accounts : Accounts)
    (m : ContractManager) (info : EthCallInfo) : Option TxOutcome :=
  (OrbiterSdk.ethCall accounts depth info.receiver info (m.enterContract info true)).map
    (settle processingPayable accounts info)

/-- `ContractManager::callContract(tx)`. -/
def callContract (depth : Nat) (processingPayable : Bool) (accounts : Accounts)
    (m : ContractManager) (tx : TxBlock) : Option TxOutcome :=
  let info := tx.txToCallInfo
  let m := m.setCommit true
  if tx.receiver = contractManagerAddress then callManager C accounts m info
  else if tx.receiver = rdPoSAddress then
    some ⟨.error notOverridden, accounts, (m.enterRdPoS info).clearBalances, .nil⟩
  else if tx.receiver ∉ m.contracts then
    some ⟨.error (.runtimeError "Contract does not exist"), accounts, m.clearBalances, .nil⟩
  else callDeployed depth processingPayable accounts m info

/-! ### Simulations -/

/-- The result of a simulation. -/
structure SimOutcome where
  result : Except Exn Bool
  manager : ContractManager
  trace : Trace

/-- The first statement of `validateCallContractWithTx`: it asks for the manager's own
    value, left over from the last call, not for the value of the simulated call. -/
def addValue (accounts : Accounts) (m : ContractManager) (info : EthCallInfo) :
    Except Exn ContractManager :=
  if m.locals.value ≠ 0 then
    let m := Interface.populateBalance accounts m info.receiver
    match uadd (Interface.balanceOf m info.receiver) info.value with
    | .error e => .error e
    | .ok x => .ok (Interface.setBalance m info.receiver x)
  else .ok m

/-- `ContractManager::validateCallContractWithTx`.  On a deployed contract that returns, the
    temporary balances are not cleared. -/
def validateCallContractWithTx (depth : Nat) (accounts : Accounts) (m : ContractManager)
    (info : EthCallInfo) : Option SimOutcome :=
  match m.addValue accounts info with
  | .error e => some ⟨.error e, m.clearBalances, .nil⟩
  | .ok m =>
    if info.receiver = contractManagerAddress then
      let m := m.setCaller info
      match m.ethCall C info with
      | .error .oob => none
      | .error (.exn e) => some ⟨.error e, m.clearBalances, .nil⟩
      | .ok m => some ⟨.ok true, m.clearBalances, .nil⟩
    else if info.receiver = rdPoSAddress then
      some ⟨.error notOverridden, (m.enterRdPoS info).clearBalances, .nil⟩
    else if info.receiver ∉ m.contracts then some ⟨.ok false, m.clearBalances, .nil⟩
    else
      match OrbiterSdk.ethCall accounts depth info.receiver info (m.enterContract info false) with
      | none => none
      | some ⟨.error e, m, t⟩ => some ⟨.error e, m.clearBalances, t⟩
      | some ⟨.ok (), m, t⟩ => some ⟨.ok true, m, t⟩

/-! ### Views -/

/-- Run a view function; constant finds copy entries, which changes the manager. -/
def runView : ViewProg → ContractManager → Except Exn Bytes × ContractManager
  | .done r, m => (.ok r, m)
  | .throw e, m => (.error e, m)
  | .getContract name c k, m =>
    match m.contracts.lookup c with
    | none => (.error (.runtimeError ("ContractManager::getContract: contract at address " ++
        hexOf c.data ++ " not found.")), m)
    | some contract =>
      if contract.contractName = name then runView k m
      else (.error (.runtimeError ("ContractManager::getContract: Contract at address " ++
        hexOf c.data ++ " is not of the requested type: " ++ name)), m)
  | .get c x k, m =>
    match m.contracts.lookup c with
    | none => (.error .outOfRange, m)
    | some contract =>
      runView (k (contract.store.get x).1) (m.modifyStore c fun s => (s.get x).2)
  | .find c mv a k, m =>
    match m.contracts.lookup c with
    | none => (.error .outOfRange, m)
    | some contract =>
      runView (k (contract.store.findConst mv a).1) (m.modifyStore c fun s => (s.findConst mv a).2)

/-- `getDeployedContracts`. -/
def getDeployedContracts (m : ContractManager) : Bytes :=
  Abi.encode [
    .bytesArr (m.contracts.entries.map fun e => ERC20Wrapper.ascii e.2.contractName.toList),
    .addressArr (m.contracts.entries.map fun e => e.1)]

/-- `ContractManager::ethCallView`. -/
def ethCallView (m : ContractManager) (info : EthCallInfo) : Except Exn Bytes :=
  if info.functor = functorOf 0xaa9a068f then .ok m.getDeployedContracts
  else .error (.runtimeError "Invalid function call")

/-- `ContractManager::callContract(callInfo) const`. -/
def callContractView (m : ContractManager) (info : EthCallInfo) :
    Except Exn Bytes × ContractManager :=
  if info.receiver = contractManagerAddress then (m.ethCallView info, m)
  else if info.receiver = rdPoSAddress then (.error notOverridden, m)
  else
    match m.contracts.lookup info.receiver with
    | none => (.error (.runtimeError "Contract does not exist"), m)
    | some contract =>
      match contract.code.viewFunctions info.functor with
      | none => (.error (.runtimeError "Functor not found"), m)
      | some f => runView (f info) m

end ContractManager

end OrbiterSdk

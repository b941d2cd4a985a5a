import OrbiterSdk.Contract.Manager
import OrbiterSdk.Core.RdPoS
import OrbiterSdk.Core.Storage

namespace OrbiterSdk

/-!
# The blockchain state

`core/state.cpp`: validation and execution of transactions and blocks, the mempool, and the
read-only calls of the RPC server.

`processTransaction` and everything above it return an `Option`: `none` is a run without a
defined result (the sender's account does not exist, contract frames exhaust the stack, or a
decoder reads outside its input).  Inside it, an exception that escapes comes with the state
as it was left.
-/

/-- `TxInvalid`. -/
inductive TxInvalid where
  | NotInvalid
  | InvalidNonce
  | InvalidBalance
deriving DecidableEq

/-- `class State`, with the objects it refers to. -/
structure State where
  accounts : Accounts
  mempool : AssocMap Hash TxBlock
  processingPayable : Bool
  manager : ContractManager
  rdpos : RdPoS
  storage : Storage

/-- `gasLimit * maxFeePerGas`. -/
def TxBlock.fee (tx : TxBlock) : Except Exn Uint256 := umul tx.gasLimit tx.maxFeePerGas

/-- `value + gasLimit * maxFeePerGas`. -/
def TxBlock.valueWithFees (tx : TxBlock) : Except Exn Uint256 := do
  uadd tx.value (← tx.fee)

namespace State

variable (C : Crypto)

/-! ### Validation -/

/-- `State::validateTransactionInternal`. -/
def validateTransactionInternal (s : State) (tx : TxBlock) : Except Exn TxInvalid :=
  if tx.hash C true ∈ s.mempool then .ok .NotInvalid
  else
    match s.accounts.lookup tx.sender with
    | none => .ok .InvalidBalance
    | some acc => do
      let txWithFees ← tx.valueWithFees
      if acc.balance < txWithFees then return .InvalidBalance
      if acc.nonce.toNat ≠ tx.nonce.val then return .InvalidNonce
      return .NotInvalid

/-- Every transaction of the list passes. -/
def validateTxs (s : State) : List TxBlock → Except Exn Bool
  | [] => .ok true
  | tx :: txs => do
    match ← s.validateTransactionInternal C tx with
    | .NotInvalid => s.validateTxs txs
    | _ => return false

/-- `State::validateNextBlock`. -/
def validateNextBlock (s : State) (block : Block) : Except Exn Bool :=
  let latestBlock := s.storage.latest
  if block.nHeight ≠ latestBlock.nHeight + 1 then .ok false
  else if block.prevBlockHash ≠ latestBlock.hash C then .ok false
  else if block.timestamp < latestBlock.timestamp then .ok false
  else if !s.rdpos.validateBlock C block then .ok false
  else s.validateTxs C block.txs

/-! ### Execution of one transaction -/

/-- An account, default-constructed when missing (`accounts[a]`). -/
def account (accounts : Accounts) (a : Address) : Account := (accounts.lookup a).getD ⟨0, 0⟩

/-- Assign the balance of `accounts[a]`. -/
def setBalance (accounts : Accounts) (a : Address) (x : Uint256) : Accounts :=
  accounts.insert a { account accounts a with balance := x }

/-- `++nonce`. -/
def incNonce (accounts : Accounts) (a : Address) : Accounts :=
  accounts.insert a { account accounts a with nonce := (account accounts a).nonce + 1 }

/-- The debit and the credit of `processTransaction`; an exception leaves the accounts as
    far as they were changed. -/
def transferValue (accounts : Accounts) (tx : TxBlock) : Except Exn Unit × Accounts :=
  match tx.valueWithFees with
  | .error e => (.error e, accounts)
  | .ok txValueWithFees =>
    match usub (account accounts tx.sender).balance txValueWithFees with
    | .error e => (.error e, accounts)
    | .ok x =>
      let accounts := setBalance accounts tx.sender x
      match uadd (account accounts tx.receiver).balance tx.value with
      | .error e => (.error e, setBalance accounts tx.receiver (account accounts tx.receiver).balance)
      | .ok y => (.ok (), setBalance accounts tx.receiver y)

/-- The handler of `processTransaction` gives the value back; then the nonce grows. -/
def refund (s : State) (tx : TxBlock) : Except Exn Unit × State :=
  match uadd (account s.accounts tx.sender).balance tx.value with
  | .error e => (.error e, s)
  | .ok x => (.ok (), { s with accounts := incNonce (setBalance s.accounts tx.sender x) tx.sender })

/-- The state in which the contract call of a transaction starts. -/
def beforeCall (s : State) (accounts : Accounts) (tx : TxBlock) : State :=
  { s with
    accounts
    processingPayable := s.manager.isPayable tx.txToCallInfo || s.processingPayable }

/-- `contractManager->callContract(tx)`. -/
def callContract (depth : Nat) (s : State) (tx : TxBlock) :
    Option (ContractManager.TxOutcome × State) :=
  (s.manager.callContract C depth s.processingPayable s.accounts tx).map fun o =>
    (o, { s with accounts := o.accounts, manager := o.manager })

/-- `State::processTransaction`. -/
def processTransaction (depth : Nat) (s : State) (tx : TxBlock) :
    Option (Except Exn Unit × State) :=
  if tx.sender ∉ s.accounts then none
  else
    match transferValue s.accounts tx with
    | (.error _, accounts) => some (refund { s with accounts } tx)
    | (.ok (), accounts) =>
      if s.manager.isContractCall tx then
        match (s.beforeCall accounts tx).callContract C depth tx with
        | none => none
        | some (o, s') =>
          match o.result with
          | .error _ => some (refund s' tx)
          | .ok () =>
            some (.ok (), { s' with
              accounts := incNonce s'.accounts tx.sender, processingPayable := false })
      else some (.ok (), { s with accounts := incNonce accounts tx.sender })

/-- The loop of `processNextBlock` over the block's transactions. -/
def processTransactions (depth : Nat) : List TxBlock → State → Option (Except Exn Unit × State)
  | [], s => some (.ok (), s)
  | tx :: txs, s =>
    match processTransaction C depth s tx with
    | none => none
    | some (.error e, s) => some (.error e, s)
    | some (.ok (), s) => processTransactions depth txs s

/-! ### Blocks -/

/-- The second loop of `refreshMempool`: revalidate the old entries one by one. -/
def revalidate (s : State) : List (Sigma fun _ : Hash => TxBlock) → Except Exn Unit × State
  | [] => (.ok (), s)
  | ⟨hash, tx⟩ :: rest =>
    match s.validateTransactionInternal C tx with
    | .error e => (.error e, s)
    | .ok .NotInvalid => revalidate { s with mempool := s.mempool.emplace hash tx } rest
    | .ok _ => revalidate s rest

/-- `State::refreshMempool`. -/
def refreshMempool (s : State) (block : Block) : Except Exn Unit × State :=
  let old := block.txs.foldl (fun m tx => m.erase (tx.hash C true)) s.mempool
  revalidate C { s with mempool := ∅ } old.entries

/-- `State::processNextBlock`. -/
def processNextBlock (depth : Nat) (s : State) (block : Block) :
    Option (Except Exn Unit × State) :=
  match s.validateNextBlock C block with
  | .error e => some (.error e, s)
  | .ok false => some (.error (.runtimeError
      "Invalid block detected during processNextBlock sanity check."), s)
  | .ok true =>
    match processTransactions C depth block.txs s with
    | none => none
    | some (.error e, s) => some (.error e, s)
    | some (.ok (), s) =>
      match s.rdpos.processBlock C block with
      | .error e => some (.error e, s)
      | .ok rdpos =>
        match ({ s with rdpos } : State).refreshMempool C block with
        | (.error e, s) => some (.error e, s)
        | (.ok (), s) =>
          match s.storage.pushBack C block with
          | .error e => some (.error e, s)
          | .ok storage => some (.ok (), { s with storage })

/-! ### The other operations -/

/-- `State::addTx`. -/
def addTx (s : State) (tx : TxBlock) : Except Exn TxInvalid × State :=
  match s.validateTransactionInternal C tx with
  | .error e => (.error e, s)
  | .ok .NotInvalid => (.ok .NotInvalid, { s with mempool := s.mempool.emplace (tx.hash C true) tx })
  | .ok r => (.ok r, s)

/-- `State::addValidatorTx`. -/
def addValidatorTx (s : State) (tx : TxValidator) : Bool × State :=
  let r := s.rdpos.addValidatorTx C s.storage.latest.nHeight tx
  (r.1, { s with rdpos := r.2 })

/-- `accounts_[addr].balance += amount`: the entry is there even when the addition throws. -/
def increaseBalance (amount : Uint256) (s : State) (a : Address) : Except Exn Unit × State :=
  match uadd (account s.accounts a).balance amount with
  | .error e => (.error e, { s with accounts := setBalance s.accounts a (account s.accounts a).balance })
  | .ok x => (.ok (), { s with accounts := setBalance s.accounts a x })

theorem thousandTokens_lt : 10 ^ 21 < 2 ^ 256 := by decide

/-- `State::addBalance`: the faucet's 1000 tokens. -/
def addBalance (s : State) (a : Address) : Except Exn Unit × State :=
  increaseBalance ⟨10 ^ 21, thousandTokens_lt⟩ s a

/-- `State::ethCall`. -/
def ethCall (s : State) (info : EthCallInfo) : Except Exn Bytes × State :=
  if s.manager.isContractAddress info.receiver then
    let r := s.manager.callContractView info
    (r.1, { s with manager := r.2 })
  else (.ok [], s)

/-- The balance check of `State::estimateGas`; `false` ends the call with `false`. -/
def estimateGasCheck (s : State) (info : EthCallInfo) : Except Exn Bool :=
  if info.sender.toBool ∧ info.value ≠ 0 then do
    let totalGas ← if info.gasLimit ≠ 0 ∧ info.gasPrice ≠ 0 then
      umul info.gasLimit info.gasPrice else .ok 0
    match s.accounts.lookup info.sender with
    | none => return false
    | some acc => return !decide (acc.balance < (← uadd info.value totalGas))
  else .ok true

/-- `State::estimateGas`. -/
def estimateGas (depth : Nat) (s : State) (info : EthCallInfo) :
    Option (Except Exn Bool × State) :=
  match s.estimateGasCheck info with
  | .error e => some (.error e, s)
  | .ok false => some (.ok false, s)
  | .ok true =>
    if s.manager.isContractAddress info.receiver then
      (s.manager.validateCallContractWithTx C depth s.accounts info).map fun o =>
        (o.result.map fun _ => true, { s with manager := o.manager })
    else some (.ok true, s)

end State

end OrbiterSdk

import OrbiterSdk.Contract.Store
import OrbiterSdk.Contract.Abi
import OrbiterSdk.Lib.CallTree
import OrbiterSdk.Lib.Ledger

namespace OrbiterSdk

/-!
# Executing dynamic contracts

`contract/dynamiccontract.h` and `ContractManagerInterface` of
`contract/contractmanager.cpp`.  The body of a contract function is a `Prog`: the C++ code
between two uses of the interface is a Lean function, every use of a variable, of the
contract's locals, of the temporary balances or of another contract is a constructor.

* `Interface.sendTokens`, `Interface.getBalanceFromAddress`, `Interface.populateBalance` —
  the temporary balances shared by all frames of a transaction;
* `runProg` — one frame;
* `ethCall` — `DynamicContract::ethCall`: find the function, run it, then commit or revert;
* `Interface.callContract` — a call made by a contract.

A run of nested calls that exhausts `depth` has no result (the C++ stack overflows).  Next
to its result every run returns a `Trace`, a ghost record of what it did: no definition of
the model reads it, theorems speak about it.
-/

/-- `ethCallInfo`. -/
structure EthCallInfo where
  sender : Address
  receiver : Address
  gasLimit : Uint256
  gasPrice : Uint256
  value : Uint256
  data : Bytes

/-- `TxBlock::txToCallInfo`. -/
def TxBlock.txToCallInfo (tx : TxBlock) : EthCallInfo :=
  { sender := tx.sender, receiver := tx.receiver, gasLimit := tx.gasLimit
    gasPrice := tx.maxFeePerGas, value := tx.value, data := tx.data }

/-- The functor of a call: the first four bytes of its data. -/
def EthCallInfo.functor (info : EthCallInfo) : Bytes := info.data.take 4

/-- `ContractLocals`. -/
structure ContractLocals where
  caller : Address
  origin : Address
  value : Uint256
  commit : Bool

/-! ### Contract code -/

/-- The body of a contract function.  Calls that can throw hand the exception to the
    continuation, which may handle it. -/
inductive Prog where
  /-- Return. -/
  | done
  /-- Throw. -/
  | throw (e : Exn)
  /-- `getCaller()`. -/
  | getCaller (k : Address → Prog)
  /-- `getValue()`. -/
  | getValue (k : Uint256 → Prog)
  /-- Read a scalar variable. -/
  | get (x : ScalarVar) (k : Val → Prog)
  /-- Assign a scalar variable. -/
  | set (x : ScalarVar) (v : Val) (k : Prog)
  /-- `map[a]`. -/
  | index (m : MapVar) (a : Address) (k : Val → Prog)
  /-- Assign through the reference `map[a]`. -/
  | assign (m : MapVar) (a : Address) (v : Val) (k : Prog)
  /-- `map.find(a)`. -/
  | find (m : MapVar) (a : Address) (k : Option Val → Prog)
  /-- `getBalance(a)`. -/
  | getBalance (a : Address) (k : Uint256 → Prog)
  /-- `sendTokens(receiver, amount)`. -/
  | sendTokens (receiver : Address) (amount : Uint256) (k : Except Exn Unit → Prog)
  /-- `callContract(receiver, encoder, value)`. -/
  | callContract (receiver : Address) (value : Uint256) (data : Bytes)
      (k : Except Exn Unit → Prog)

/-- The body of a view function: it reads variables of its own contract or, through
    `getContract<T>`, of another one. -/
inductive ViewProg where
  /-- Return. -/
  | done (r : Bytes)
  /-- Throw. -/
  | throw (e : Exn)
  /-- `getContract<T>(c)` for the contract type called `name`. -/
  | getContract (name : String) (c : Address) (k : ViewProg)
  /-- Read a scalar variable of `c`. -/
  | get (c : Address) (x : ScalarVar) (k : Val → ViewProg)
  /-- The constant `find` on a map of `c`. -/
  | find (c : Address) (m : MapVar) (a : Address) (k : Option Val → ViewProg)

/-- The functions a contract registers, by functor. -/
structure Code where
  functions : Bytes → Option (EthCallInfo → Prog)
  payableFunctions : Bytes → Option (EthCallInfo → Prog)
  viewFunctions : Bytes → Option (EthCallInfo → ViewProg)

/-- `class DynamicContract`. -/
structure DynamicContract where
  contractName : String
  code : Code
  store : Store
  locals : ContractLocals

namespace DynamicContract

/-- `isPayableFunction`. -/
def isPayableFunction (c : DynamicContract) (functor : Bytes) : Bool :=
  (c.code.payableFunctions functor).isSome

/-- The function `ethCall` dispatches to: a payable one first. -/
def function (c : DynamicContract) (functor : Bytes) : Option (EthCallInfo → Prog) :=
  if c.isPayableFunction functor then c.code.payableFunctions functor
  else c.code.functions functor

end DynamicContract

/-! ### The contract manager -/

/-- `struct Account`. -/
structure Account where
  balance : Uint256
  nonce : UInt64
deriving DecidableEq

/-- The native accounts of `State`. -/
abbrev Accounts := AssocMap Address Account

/-- `class ContractManager`, with the locals of the rdPoS contract it refers to. -/
structure ContractManager where
  contracts : AssocMap Address DynamicContract
  balances : AssocMap Address Uint256
  locals : ContractLocals
  rdposLocals : ContractLocals

namespace ContractManager

/-- Change the contract at `a`. -/
def modifyContract (m : ContractManager) (a : Address) (f : DynamicContract → DynamicContract) :
    ContractManager := { m with contracts := m.contracts.modify a f }

/-- Change the variables of the contract at `a`. -/
def modifyStore (m : ContractManager) (a : Address) (f : Store → Store) : ContractManager :=
  m.modifyContract a fun c => { c with store := f c.store }

/-- Change the locals of the contract at `a`. -/
def modifyLocals (m : ContractManager) (a : Address) (f : ContractLocals → ContractLocals) :
    ContractManager := m.modifyContract a fun c => { c with locals := f c.locals }

end ContractManager

/-! ### The ghost trace -/

/-- What a frame did: writes to its variables, uses of the balances, calls. -/
abbrev Trace := CallTree Address Loc (Option Val) (Ledger.Event Address)

/-- The result of a frame: returned or thrown, the manager afterwards, and what happened. -/
structure Outcome where
  result : Except Exn Unit
  manager : ContractManager
  trace : Trace

/-- Something happened before the rest of a frame. -/
def Outcome.after (t : Trace) (o : Outcome) : Outcome := { o with trace := t.append o.trace }

/-! ### The interface -/

namespace Interface

/-- The balance `State` holds for an address, zero without an account. -/
def stateBalance (accounts : Accounts) (a : Address) : Uint256 :=
  ((accounts.lookup a).map Account.balance).getD 0

/-- `populateBalance`. -/
def populateBalance (accounts : Accounts) (m : ContractManager) (a : Address) : ContractManager :=
  { m with balances := m.balances.emplace a (stateBalance accounts a) }

/-- `balances[a]`, after `populateBalance(a)`. -/
def balanceOf (m : ContractManager) (a : Address) : Uint256 := (m.balances.lookup a).getD 0

/-- Assign `balances[a]`. -/
def setBalance (m : ContractManager) (a : Address) (x : Uint256) : ContractManager :=
  { m with balances := m.balances.insert a x }

/-- `getBalanceFromAddress`. -/
def getBalanceFromAddress (accounts : Accounts) (m : ContractManager) (a : Address) :
    Uint256 × ContractManager :=
  let m := populateBalance accounts m a
  (balanceOf m a, m)

/-- `sendTokens`.  The balance that is checked is the receiver's. -/
def sendTokens (accounts : Accounts) (m : ContractManager) (src dst : Address)
    (amount : Uint256) : Except Exn Unit × ContractManager × Ledger.Outcome :=
  let m := populateBalance accounts (populateBalance accounts m src) dst
  if balanceOf m dst < amount then
    (.error (.runtimeError "Not enough balance"), m, .refused)
  else
    match usub (balanceOf m src) amount with
    | .error e => (.error e, m, .refused)
    | .ok x =>
      let m := setBalance m src x
      match uadd (balanceOf m dst) amount with
      | .error e => (.error e, m, .cut)
      | .ok y => (.ok (), setBalance m dst y, .done)

end Interface

/-! ### Frames -/

/-- How `ethCall` of a contract is run, one level further down. -/
abbrev Callee := Address → EthCallInfo → ContractManager → Option Outcome

/-- The value of a nested call moves first. -/
def Interface.sendValue (accounts : Accounts) (info : EthCallInfo) (m : ContractManager) :
    Except Exn Unit × ContractManager × Trace :=
  if info.value ≠ 0 then
    let r := Interface.sendTokens accounts m info.sender info.receiver info.value
    (r.1, r.2.1, .event (.send info.sender info.receiver info.value.val r.2.2) .nil)
  else (.ok (), m, .nil)

/-- The locals of a contract that another contract calls; the commit flag is the manager's
    own. -/
def Interface.enterCallee (info : EthCallInfo) (m : ContractManager) : ContractManager :=
  m.modifyLocals info.receiver fun l =>
    { l with caller := info.sender, value := info.value, commit := m.locals.commit }

/-- The callee's frame, with `run` for `contract->ethCall`. -/
def Interface.runCallee (run : Callee) (info : EthCallInfo) (m : ContractManager) :
    Option Outcome :=
  if info.receiver ∉ m.contracts then
    some ⟨.error (.runtimeError "Contract does not exist"), m, .nil⟩
  else
    match run info.receiver info (Interface.enterCallee info m) with
    | none => none
    | some ⟨.ok (), m, inner⟩ => some ⟨.ok (), m, .call info.receiver inner true .nil⟩
    | some ⟨.error e, m, inner⟩ =>
      some ⟨.error e, m.modifyLocals info.receiver fun l => { l with commit := false },
        .call info.receiver inner false .nil⟩

/-- `ContractManagerInterface::callContract`. -/
def Interface.callContract (accounts : Accounts) (run : Callee) (info : EthCallInfo)
    (m : ContractManager) : Option Outcome :=
  match Interface.sendValue accounts info m with
  | (.error e, m, t) => some ⟨.error e, m, t⟩
  | (.ok (), m, t) => (Interface.runCallee run info m).map (.after t)

/-- One frame of the contract `c` at `self`, reading its variables and locals where they
    are now: a nested call may have changed them. -/
def runProg (accounts : Accounts) (run : Callee) (self : Address) :
    Prog → ContractManager → Option Outcome
  | .done, m => some ⟨.ok (), m, .nil⟩
  | .throw e, m => some ⟨.error e, m, .nil⟩
  | .getCaller k, m =>
    (m.contracts.lookup self).bind fun c => runProg accounts run self (k c.locals.caller) m
  | .getValue k, m =>
    (m.contracts.lookup self).bind fun c => runProg accounts run self (k c.locals.value) m
  | .get x k, m =>
    (m.contracts.lookup self).bind fun c =>
      runProg accounts run self (k (c.store.get x).1) (m.modifyStore self fun s => (s.get x).2)
  | .set x v k, m =>
    (runProg accounts run self k (m.modifyStore self fun s => s.set x v)).map
      (.after (.write (.scalar x) (some v) .nil))
  | .index mv a k, m =>
    (m.contracts.lookup self).bind fun c =>
      let v := (c.store.index mv a).1
      (runProg accounts run self (k v) (m.modifyStore self fun s => (s.index mv a).2)).map
        (.after (.write (.entry mv a) (some v) .nil))
  | .assign mv a v k, m =>
    (runProg accounts run self k (m.modifyStore self fun s => s.assign mv a v)).map
      (.after (.write (.entry mv a) (some v) .nil))
  | .find mv a k, m =>
    (m.contracts.lookup self).bind fun c =>
      runProg accounts run self (k (c.store.find mv a).1)
        (m.modifyStore self fun s => (s.find mv a).2)
  | .getBalance a k, m =>
    let r := Interface.getBalanceFromAddress accounts m a
    (runProg accounts run self (k r.1) r.2).map (.after (.event (.query a) .nil))
  | .sendTokens dst amount k, m =>
    let r := Interface.sendTokens accounts m self dst amount
    (runProg accounts run self (k r.1) r.2.1).map
      (.after (.event (.send self dst amount.val r.2.2) .nil))
  | .callContract receiver value data k, m =>
    (Interface.callContract accounts run
      { sender := self, receiver, gasLimit := 0, gasPrice := 0, value, data } m).bind fun o =>
        (runProg accounts run self (k o.result) o.manager).map (.after o.trace)

/-- The end of `DynamicContract::ethCall`: commit by the contract's flag, or revert. -/
def finish (self : Address) (o : Outcome) : Outcome :=
  match o.result with
  | .error _ => { o with manager := o.manager.modifyStore self fun s => s.updateState false }
  | .ok () =>
    { o with manager := o.manager.modifyContract self fun c =>
        { c with store := c.store.updateState c.locals.commit } }

/-- `DynamicContract::ethCall` of the contract at `self`, with room for `depth` frames. -/
def ethCall (accounts : Accounts) : Nat → Callee
  | 0, _, _, _ => none
  | depth + 1, self, info, m =>
    (m.contracts.lookup self).bind fun c =>
      match c.function info.functor with
      | none => some (finish self ⟨.error (.runtimeError "Functor not found"), m, .nil⟩)
      | some f => (runProg accounts (ethCall accounts depth) self (f info) m).map (finish self)

end OrbiterSdk

import OrbiterSdk.Contract.Dynamic

namespace OrbiterSdk

/-!
# The repository's contracts

`ERC20`, `NativeWrapper` and `ERC20Wrapper`: their functions as `Prog`s, their registered
functors and their constructors.  `NativeWrapper` repeats the ERC20 functions and adds the
payable `deposit` and `withdraw`.
-/

/-! ### Member variables -/

/-- `_name`. -/
def nameVar : ScalarVar := ⟨0⟩

/-- `_symbol`. -/
def symbolVar : ScalarVar := ⟨1⟩

/-- `_decimals`. -/
def decimalsVar : ScalarVar := ⟨2⟩

/-- `_totalSupply`. -/
def totalSupplyVar : ScalarVar := ⟨3⟩

/-- `_balances`. -/
def balancesVar : MapVar := ⟨0, false⟩

/-- `_allowed`. -/
def allowedVar : MapVar := ⟨1, true⟩

/-- `_tokensAndBalances`. -/
def tokensAndBalancesVar : MapVar := ⟨2, true⟩

/-- The number in a value (values of other types do not occur where it is used). -/
def Val.toUint : Val → Uint256
  | .uint x => x
  | _ => 0

/-- The map in a value. -/
def Val.toMap : Val → AssocMap Address Uint256
  | .addrMap m => m
  | _ => ∅

/-- The string in a value. -/
def Val.toStr : Val → Bytes
  | .str s => s
  | _ => []

/-! ### Building blocks -/

namespace Prog

/-- Use a value or throw. -/
def ofExcept {α : Type} (x : Except Exn α) (k : α → Prog) : Prog :=
  match x with
  | .ok a => k a
  | .error e => .throw e

/-- The continuation that lets exceptions pass. -/
def rethrow (k : Prog) : Except Exn Unit → Prog
  | .ok () => k
  | .error e => .throw e

/-- `map[a] op= ...` for a map to numbers. -/
def updateEntry (m : MapVar) (a : Address) (f : Uint256 → Except Exn Uint256) (k : Prog) : Prog :=
  .index m a fun v => ofExcept (f v.toUint) fun y => .assign m a (.uint y) k

/-- `map[a][b] op= ...` for a map to maps: `operator[]` creates the inner entry first. -/
def updateNested (m : MapVar) (a b : Address) (f : Uint256 → Except Exn Uint256) (k : Prog) :
    Prog :=
  .index m a fun v =>
    let inner := v.toMap.emplace b 0
    .assign m a (.addrMap inner) <|
      ofExcept (f ((inner.lookup b).getD 0)) fun y =>
        .assign m a (.addrMap (inner.insert b y)) k

end Prog

open Prog

/-- The arguments `(address, uint256)`. -/
def argsAddressUint (info : EthCallInfo) (k : Address → Uint256 → Prog) : Prog :=
  ofExcept (substrFrom info.data 4) fun args =>
    ofExcept (Abi.decodeAddress args 0) fun a =>
      ofExcept (Abi.decodeUint256 args 32) fun x => k a x

/-- The arguments `(address, address, uint256)`. -/
def argsAddressAddressUint (info : EthCallInfo) (k : Address → Address → Uint256 → Prog) : Prog :=
  ofExcept (substrFrom info.data 4) fun args =>
    ofExcept (Abi.decodeAddress args 0) fun a =>
      ofExcept (Abi.decodeAddress args 32) fun b =>
        ofExcept (Abi.decodeUint256 args 64) fun x => k a b x

/-- The argument `(uint256)`. -/
def argsUint (info : EthCallInfo) (k : Uint256 → Prog) : Prog :=
  ofExcept (substrFrom info.data 4) fun args =>
    ofExcept (Abi.decodeUint256 args 0) fun x => k x

/-- The argument `(address)` of a view function. -/
def viewArgsAddress (info : EthCallInfo) (k : Address → ViewProg) : ViewProg :=
  match substrFrom info.data 4 >>= fun args => Abi.decodeAddress args 0 with
  | .ok a => k a
  | .error e => .throw e

/-- The arguments `(address, address)` of a view function. -/
def viewArgsAddressAddress (info : EthCallInfo) (k : Address → Address → ViewProg) : ViewProg :=
  match substrFrom info.data 4 >>= fun args => do
      return (← Abi.decodeAddress args 0, ← Abi.decodeAddress args 32) with
  | .ok (a, b) => k a b
  | .error e => .throw e

/-- A functor written as four hexadecimal bytes. -/
def functorOf (x : Nat) : Bytes := BigEndian.fixed 4 x

/-! ### `ERC20` -/

namespace ERC20

/-- `ERC20::transfer`. -/
def transfer (receiver : Address) (value : Uint256) : Prog :=
  .getCaller fun caller =>
    updateEntry balancesVar caller (fun x => usub x value) <|
      updateEntry balancesVar receiver (fun x => uadd x value) .done

/-- `ERC20::approve`. -/
def approve (spender : Address) (value : Uint256) : Prog :=
  .getCaller fun caller => updateNested allowedVar caller spender (fun _ => .ok value) .done

/-- `ERC20::transferFrom`. -/
def transferFrom (owner receiver : Address) (value : Uint256) : Prog :=
  .getCaller fun caller =>
    updateNested allowedVar owner caller (fun x => usub x value) <|
      updateEntry balancesVar owner (fun x => usub x value) <|
        updateEntry balancesVar receiver (fun x => uadd x value) .done

/-- A view function that encodes a scalar of the contract at `self`. -/
def scalarView (self : Address) (x : ScalarVar) (enc : Val → Abi.Value) : ViewProg :=
  .get self x fun v => .done (Abi.encode [enc v])

/-- `ERC20::balanceOf`, of the contract at `self`. -/
def balanceOf (self owner : Address) : ViewProg :=
  .find self balancesVar owner fun v => .done (Abi.encode [.uint256 ((v.map Val.toUint).getD 0)])

/-- `ERC20::allowance`, of the contract at `self`. -/
def allowance (self owner spender : Address) : ViewProg :=
  .find self allowedVar owner fun v =>
    .done (Abi.encode [.uint256 ((v.bind fun m => m.toMap.lookup spender).getD 0)])

/-- `ERC20::registerContractFunctions`: the functions. -/
def functions (functor : Bytes) : Option (EthCallInfo → Prog) :=
  if functor = functorOf 0xa9059cbb then some fun info => argsAddressUint info transfer
  else if functor = functorOf 0x095ea7b3 then some fun info => argsAddressUint info approve
  else if functor = functorOf 0x23b872dd then
    some fun info => argsAddressAddressUint info transferFrom
  else none

/-- `ERC20::registerContractFunctions`: the view functions. -/
def viewFunctions (self : Address) (functor : Bytes) : Option (EthCallInfo → ViewProg) :=
  if functor = functorOf 0x06fdde03 then
    some fun _ => scalarView self nameVar fun v => .bytes v.toStr
  else if functor = functorOf 0x95d89b41 then
    some fun _ => scalarView self symbolVar fun v => .bytes v.toStr
  else if functor = functorOf 0x313ce567 then
    some fun _ => scalarView self decimalsVar fun v => .uint256 v.toUint
  else if functor = functorOf 0x18160ddd then
    some fun _ => scalarView self totalSupplyVar fun v => .uint256 v.toUint
  else if functor = functorOf 0x70a08231 then
    some fun info => viewArgsAddress info (balanceOf self)
  else if functor = functorOf 0xdd62ed3e then
    some fun info => viewArgsAddressAddress info (allowance self)
  else none

/-- The code of an `ERC20` at `self`. -/
def code (self : Address) : Code :=
  { functions := functions, payableFunctions := fun _ => none, viewFunctions := viewFunctions self }

end ERC20

/-! ### `NativeWrapper` -/

namespace NativeWrapper

/-- `NativeWrapper::deposit`. -/
def deposit : Prog :=
  .getCaller fun caller => .getValue fun value =>
    updateEntry balancesVar caller (fun x => uadd x value) .done

/-- `NativeWrapper::withdraw`. -/
def withdraw (value : Uint256) : Prog :=
  .getCaller fun caller =>
    updateEntry balancesVar caller (fun x => usub x value) <|
      .getCaller fun caller => .sendTokens caller value (rethrow .done)

/-- `NativeWrapper::registerContractFunctions`: the payable functions. -/
def payableFunctions (functor : Bytes) : Option (EthCallInfo → Prog) :=
  if functor = functorOf 0xd0e30db0 then some fun _ => deposit
  else if functor = functorOf 0x2e1a7d4d then some fun info => argsUint info withdraw
  else none

/-- The code of a `NativeWrapper` at `self`: the ERC20 functions are the same. -/
def code (self : Address) : Code :=
  { functions := ERC20.functions, payableFunctions, viewFunctions := ERC20.viewFunctions self }

end NativeWrapper

/-! ### `ERC20Wrapper` -/

namespace ERC20Wrapper

/-- The bytes of an ASCII text. -/
def ascii (cs : List Char) : Bytes := cs.map fun c => UInt8.ofNat c.toNat

/-- `"transfer(address,uint256)"`. -/
def transferHeader : Bytes :=
  ascii ['t', 'r', 'a', 'n', 's', 'f', 'e', 'r', '(', 'a', 'd', 'd', 'r', 'e', 's', 's', ',',
    'u', 'i', 'n', 't', '2', '5', '6', ')']

/-- `"transferFrom(address,address,uint256)"`. -/
def transferFromHeader : Bytes :=
  ascii ['t', 'r', 'a', 'n', 's', 'f', 'e', 'r', 'F', 'r', 'o', 'm', '(', 'a', 'd', 'd', 'r',
    'e', 's', 's', ',', 'a', 'd', 'd', 'r', 'e', 's', 's', ',', 'u', 'i', 'n', 't', '2', '5',
    '6', ')']

/-- The common body of `withdraw` and `transferTo`: pay `value` of `token` out of the
    caller's record to the address `payee` chooses. -/
def payOut (C : Crypto) (token : Address) (payee : Address → Address) (value : Uint256) : Prog :=
  .find tokensAndBalancesVar token fun
    | none => .throw (.runtimeError "Token not found")
    | some v => .getCaller fun caller =>
      match v.toMap.lookup caller with
      | none => .throw (.runtimeError "User not found")
      | some x =>
        if x ≤ value then .throw (.runtimeError "Not enough balance")
        else ofExcept (usub x value) fun y =>
          .assign tokensAndBalancesVar token (.addrMap (v.toMap.insert caller y)) <|
            .callContract token 0
              (Abi.encodeCall C transferHeader [.address (payee caller), .uint256 value])
              (rethrow .done)

/-- `ERC20Wrapper::withdraw`. -/
def withdraw (C : Crypto) (token : Address) (value : Uint256) : Prog :=
  payOut C token (fun caller => caller) value

/-- `ERC20Wrapper::transferTo`. -/
def transferTo (C : Crypto) (token receiver : Address) (value : Uint256) : Prog :=
  payOut C token (fun _ => receiver) value

/-- `ERC20Wrapper::deposit`, of the contract at `self`. -/
def deposit (C : Crypto) (self token : Address) (value : Uint256) : Prog :=
  .getCaller fun caller =>
    .callContract token 0
      (Abi.encodeCall C transferFromHeader [.address caller, .address self, .uint256 value]) <|
      rethrow <| .getCaller fun caller =>
        updateNested tokensAndBalancesVar token caller (fun x => uadd x value) .done

/-- `ERC20Wrapper::getContractBalance`, of the contract at `self`. -/
def getContractBalance (self token : Address) : ViewProg :=
  .getContract "ERC20" token (ERC20.balanceOf token self)

/-- `ERC20Wrapper::getUserBalance`, of the contract at `self`. -/
def getUserBalance (self token user : Address) : ViewProg :=
  .find self tokensAndBalancesVar token fun v =>
    .done (Abi.encode [.uint256 ((v.bind fun m => m.toMap.lookup user).getD 0)])

/-- `ERC20Wrapper::registerContractFunctions`: the functions. -/
def functions (C : Crypto) (self : Address) (functor : Bytes) : Option (EthCallInfo → Prog) :=
  if functor = functorOf 0xf3fef3a3 then some fun info => argsAddressUint info (withdraw C)
  else if functor = functorOf 0xa5f2a152 then
    some fun info => argsAddressAddressUint info (transferTo C)
  else if functor = functorOf 0x47e7ef24 then
    some fun info => argsAddressUint info (deposit C self)
  else none

/-- `ERC20Wrapper::registerContractFunctions`: the view functions. -/
def viewFunctions (self : Address) (functor : Bytes) : Option (EthCallInfo → ViewProg) :=
  if functor = functorOf 0x43ab265f then
    some fun info => viewArgsAddress info (getContractBalance self)
  else if functor = functorOf 0x6805d6ad then
    some fun info => viewArgsAddressAddress info (getUserBalance self)
  else none

/-- The code of an `ERC20Wrapper` at `self`. -/
def code (C : Crypto) (self : Address) : Code :=
  { functions := functions C self, payableFunctions := fun _ => none
    viewFunctions := viewFunctions self }

end ERC20Wrapper

/-! ### Constructors -/

/-- The locals of a contract nobody called yet. -/
def ContractLocals.init : ContractLocals :=
  { caller := FixedStr.zero, origin := FixedStr.zero, value := 0, commit := false }

/-- The initial value of a scalar: an empty string or zero. -/
def ScalarVar.dflt (x : ScalarVar) : Val :=
  if x = nameVar ∨ x = symbolVar then .str [] else .uint 0

/-- The members as their constructors leave them: a scalar's pointer shows its initial
    value, a map has none. -/
def Store.init : Store :=
  { scalars := fun x => ⟨x.dflt, some x.dflt, false⟩
    maps := fun _ => ⟨∅, none, none, false⟩
    usedVariables := [] }

/-- `_mintValue`. -/
def Store.mintValue (s : Store) (a : Address) (value : Uint256) : Except Exn Store := do
  let (x, s) := s.index balancesVar a
  let s := s.assign balancesVar a (.uint (← uadd x.toUint value))
  let (t, s) := s.get totalSupplyVar
  return s.set totalSupplyVar (.uint (← uadd t.toUint value))

/-- The assignments of `_name`, `_symbol` and `_decimals`. -/
def Store.describe (s : Store) (name symbol : Bytes) (decimals : Uint256) : Store :=
  ((s.set nameVar (.str name)).set symbolVar (.str symbol)).set decimalsVar (.uint decimals)

/-- `ERC20::ERC20(interface, name, symbol, decimals, mintValue, address, creator, ...)`. -/
def ERC20.new (self creator : Address) (name symbol : Bytes) (decimals mintValue : Uint256) :
    Except Exn DynamicContract := do
  let s ← (Store.init.describe name symbol decimals).mintValue creator mintValue
  return { contractName := "ERC20", code := ERC20.code self, store := s.updateState true
           locals := .init }

/-- `NativeWrapper::NativeWrapper(interface, name, symbol, decimals, address, ...)`. -/
def NativeWrapper.new (self : Address) (name symbol : Bytes) (decimals : Uint256) :
    DynamicContract :=
  { contractName := "NativeWrapper", code := NativeWrapper.code self
    store := (Store.init.describe name symbol decimals).updateState true, locals := .init }

/-- `ERC20Wrapper::ERC20Wrapper(interface, address, ...)`. -/
def ERC20Wrapper.new (C : Crypto) (self : Address) : DynamicContract :=
  { contractName := "ERC20Wrapper", code := ERC20Wrapper.code C self
    store := Store.init.updateState true, locals := .init }

end OrbiterSdk

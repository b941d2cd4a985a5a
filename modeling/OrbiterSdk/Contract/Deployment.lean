import OrbiterSdk.Contract.Creation

namespace OrbiterSdk

/-!
# How many contracts can be deployed

The address of a new contract is the hash of its creator and of the number of contracts there
are.  From 128 contracts on, only the number of bytes of that number is hashed, so that the
address does not depend on the rest of it.

* `code_fresh_iff` — the numbers whose code no smaller number has;
* `derivedAddress_eq_iff` — under a hash without collisions, equal addresses are equal codes;
* `Filled.deploys`, `Filled.refused` — one creation, where its address is free or taken;
* `creations_iff` — from an empty chain, 129 creations succeed and no more.
-/

namespace ContractManager

/-! ### What is hashed -/

/-- The last byte that is hashed for `size` contracts. -/
def code (size : Nat) : Nat := if size < 0x80 then size else 0x80 + bytesRequired size

/-- What `deriveContractAddress` hashes. -/
def derivedPreimage (caller : Address) (size : Nat) : Bytes :=
  UInt8.ofNat (0xc0 + 20 + if size < 0x80 then 1 else 1 + bytesRequired size) ::
    (caller.data ++ [UInt8.ofNat (code size)])

/-- The address a contract of `caller` gets when there are `size` contracts. -/
def derivedAddress (C : Crypto) (caller : Address) (size : Nat) : Address :=
  ⟨(C.sha3 (derivedPreimage caller size)).data.drop 12, by simp [FixedStr.size_eq]⟩

theorem deriveContractAddress_eq (C : Crypto) (m : ContractManager) :
    m.deriveContractAddress C =
      derivedAddress C m.locals.caller m.contracts.entries.length := by
  refine FixedStr.ext ?_
  unfold deriveContractAddress derivedAddress derivedPreimage code
  dsimp only
  split
  · rfl
  · rfl

/-! ### Codes -/

theorem bytesRequired_le_iff {n k : Nat} : bytesRequired n ≤ k ↔ n < 256 ^ k :=
  BigEndian.length_minimal_le_iff

theorem bytesRequired_pos {n : Nat} (h : 0 < n) : 0 < bytesRequired n :=
  List.length_pos_of_ne_nil (BigEndian.minimal_ne_nil h)

theorem bytesRequired_pow (j : Nat) : bytesRequired (256 ^ j) = j + 1 := by
  refine le_antisymm ?_ ?_
  · exact bytesRequired_le_iff.mpr (Nat.pow_lt_pow_right (by omega) (Nat.lt_succ_self j))
  · by_contra hlt
    have hle : bytesRequired (256 ^ j) ≤ j := by omega
    exact Nat.lt_irrefl _ (bytesRequired_le_iff.mp hle)

theorem code_of_lt {n : Nat} (h : n < 0x80) : code n = n := if_pos h

theorem code_of_le {n : Nat} (h : 0x80 ≤ n) : code n = 0x80 + bytesRequired n :=
  if_neg (not_lt.mpr h)

/-- Large numbers have the code of the smallest number with as many bytes. -/
theorem code_first {n : Nat} (h : 0x80 ≤ n) :
    code n = code (max 0x80 (256 ^ (bytesRequired n - 1))) := by
  have hpos := bytesRequired_pos (show 0 < n by omega)
  rw [code_of_le h, code_of_le (le_max_left _ _)]
  rcases Nat.eq_or_lt_of_le hpos with hone | hmore
  · -- One byte: the smallest such number that is not itself the code is 128.
    rw [← hone]
    decide
  · have hbig : 0x80 ≤ 256 ^ (bytesRequired n - 1) := by
      calc 0x80 ≤ 256 ^ 1 := by decide
        _ ≤ 256 ^ (bytesRequired n - 1) := Nat.pow_le_pow_right (by omega) (by omega)
    rw [max_eq_right hbig, bytesRequired_pow]
    omega

/-- A number has a code of its own, among the smaller ones, up to 128 and at the powers of
    256. -/
theorem code_fresh_iff (n : Nat) :
    (∀ k < n, code k ≠ code n) ↔ n ≤ 0x80 ∨ ∃ j, n = 256 ^ j := by
  constructor
  · intro hfresh
    by_contra hno
    rw [not_or, not_exists] at hno
    obtain ⟨hlarge, hpow⟩ := hno
    have hpos := bytesRequired_pos (show 0 < n by omega)
    have hle : 256 ^ (bytesRequired n - 1) ≤ n := by
      by_contra hlt
      have hless := bytesRequired_le_iff.mpr (not_le.mp hlt)
      omega
    have hne : n ≠ 256 ^ (bytesRequired n - 1) := hpow _
    exact hfresh (max 0x80 (256 ^ (bytesRequired n - 1))) (by omega)
      (code_first (by omega)).symm
  · rintro hn k hk heq
    rcases Nat.lt_or_ge k 0x80 with hksmall | hklarge
    · rw [code_of_lt hksmall] at heq
      rcases Nat.lt_or_ge n 0x80 with hsmall | hlarge
      · rw [code_of_lt hsmall] at heq
        omega
      · rw [code_of_le hlarge] at heq
        omega
    · -- Both are large: the powers of 256 are the first with their number of bytes.
      rw [code_of_le hklarge, code_of_le (by omega)] at heq
      rcases hn with hsmall | ⟨j, rfl⟩
      · omega
      · rw [bytesRequired_pow] at heq
        have hkbytes := bytesRequired_le_iff.mpr hk
        omega

theorem code_lt {n : Nat} (h : n < 2 ^ 64) : code n < 256 := by
  have hbytes : bytesRequired n ≤ 8 := bytesRequired_le_iff.mpr h
  unfold code
  split
  · omega
  · omega

theorem derivedPreimage_eq_iff {caller : Address} {n k : Nat} (hn : n < 2 ^ 64) (hk : k < 2 ^ 64) :
    derivedPreimage caller k = derivedPreimage caller n ↔ code k = code n := by
  constructor
  · intro h
    have hlast := List.append_cancel_left (List.cons.inj h).2
    have hbyte := congrArg UInt8.toNat (List.cons.inj hlast).1
    rwa [UInt8.toNat_ofNat_of_lt' (code_lt hk), UInt8.toNat_ofNat_of_lt' (code_lt hn)] at hbyte
  · intro h
    have hsize : (if k < 0x80 then 1 else 1 + bytesRequired k) =
        if n < 0x80 then 1 else 1 + bytesRequired n := by
      unfold code at h
      split at h
      · grind
      · grind
    rw [derivedPreimage, derivedPreimage, hsize, h]

/-! ### Addresses -/

/-- The hash keeps apart what is hashed for one caller, also when it is cut to an address, and
    never gives the address of a protocol contract. -/
structure Separates (C : Crypto) : Prop where
  inj : ∀ caller, Set.InjOn (fun bs => (C.sha3 bs).data.drop 12)
    {bs | ∃ n < 2 ^ 64, bs = derivedPreimage caller n}
  foreign : ∀ caller n, derivedAddress C caller n ∉ protocolContractAddresses

variable {C : Crypto}

theorem derivedAddress_eq_iff (hsep : Separates C) {caller : Address} {n k : Nat}
    (hn : n < 2 ^ 64) (hk : k < 2 ^ 64) :
    derivedAddress C caller k = derivedAddress C caller n ↔ code k = code n := by
  rw [← @derivedPreimage_eq_iff caller n k hn hk]
  constructor
  · intro h
    exact hsep.inj caller ⟨k, hk, rfl⟩ ⟨n, hn, rfl⟩ (congrArg FixedStr.data h)
  · intro h
    rw [derivedAddress, derivedAddress]
    exact FixedStr.ext (congrArg (fun bs => (C.sha3 bs).data.drop 12) h)

/-- An address is new among those of smaller numbers of contracts exactly if its code is. -/
theorem derivedAddress_fresh_iff (hsep : Separates C) (caller : Address) {n : Nat}
    (hn : n < 2 ^ 64) :
    (∀ k < n, derivedAddress C caller k ≠ derivedAddress C caller n) ↔
      n ≤ 0x80 ∨ ∃ j, n = 256 ^ j := by
  rw [← code_fresh_iff]
  refine forall₂_congr fun k hk => not_congr ?_
  exact derivedAddress_eq_iff hsep hn (hk.trans hn)

theorem derivedAddress_collides (C : Crypto) (caller : Address) :
    derivedAddress C caller 128 = derivedAddress C caller 129 := rfl

/-! ### One creation -/

/-- Call data with which one of the three creations can be called. -/
inductive Creates (info : EthCallInfo) : Prop where
  | token (args name symbol : Bytes) (decimals supply : Uint256)
      (functor : info.functor = functorOf 0xb74e5ed5) (data : substrFrom info.data 4 = .ok args)
      (decoded : Abi.decode [.string, .string, .uint256, .uint256] args =
        .ok [.bytes name, .bytes symbol, .uint256 decimals, .uint256 supply])
      (small : decimals.val ≤ 255)
  | wrapper (functor : info.functor = functorOf 0x97aa51a3)
  | nativeWrapper (args name symbol : Bytes) (decimals : Uint256)
      (functor : info.functor = functorOf 0x9f90f4c7) (data : substrFrom info.data 4 = .ok args)
      (decoded : Abi.decode [.string, .string, .uint256] args =
        .ok [.bytes name, .bytes symbol, .uint256 decimals])
      (small : decimals.val ≤ 255)

theorem validateCreateNewERC20Contract_of_decode {m : ContractManager} {info : EthCallInfo}
    {a : Address} {args name symbol : Bytes} {decimals supply : Uint256}
    (hcheck : m.checkDeployment C = .ok a) (hdata : substrFrom info.data 4 = .ok args)
    (hdecoded : Abi.decode [.string, .string, .uint256, .uint256] args =
      .ok [.bytes name, .bytes symbol, .uint256 decimals, .uint256 supply])
    (hsmall : decimals.val ≤ 255) :
    m.validateCreateNewERC20Contract C info = .ok (a, name, symbol, decimals, supply) := by
  rw [Written.decode_token] at hdecoded
  obtain ⟨name', hname, hdecoded⟩ := Except.bind_eq_ok.mp hdecoded
  obtain ⟨symbol', hsymbol, hdecoded⟩ := Except.bind_eq_ok.mp hdecoded
  obtain ⟨decimals', hdecimals, hdecoded⟩ := Except.bind_eq_ok.mp hdecoded
  obtain ⟨supply', hsupply, hdecoded⟩ := Except.bind_eq_ok.mp hdecoded
  cases hdecoded
  refine Except.bind_eq_ok.mpr ⟨a, hcheck, Except.bind_eq_ok.mpr ⟨args, ?_,
    Except.bind_eq_ok.mpr ⟨name, hname, Except.bind_eq_ok.mpr ⟨symbol, hsymbol,
      Except.bind_eq_ok.mpr ⟨decimals, hdecimals, Except.bind_eq_ok.mpr ⟨supply, hsupply, ?_⟩⟩⟩⟩⟩⟩
  · exact liftExn_eq_ok.mpr hdata
  · exact guard_eq_ok.mpr ⟨not_lt.mpr hsmall, rfl⟩

theorem validateCreateNewERC20NativeWrapperContract_of_decode {m : ContractManager}
    {info : EthCallInfo} {a : Address} {args name symbol : Bytes} {decimals : Uint256}
    (hcheck : m.checkDeployment C = .ok a) (hdata : substrFrom info.data 4 = .ok args)
    (hdecoded : Abi.decode [.string, .string, .uint256] args =
      .ok [.bytes name, .bytes symbol, .uint256 decimals])
    (hsmall : decimals.val ≤ 255) :
    m.validateCreateNewERC20NativeWrapperContract C info = .ok (a, name, symbol, decimals) := by
  rw [Written.decode_nativeWrapper] at hdecoded
  obtain ⟨name', hname, hdecoded⟩ := Except.bind_eq_ok.mp hdecoded
  obtain ⟨symbol', hsymbol, hdecoded⟩ := Except.bind_eq_ok.mp hdecoded
  obtain ⟨decimals', hdecimals, hdecoded⟩ := Except.bind_eq_ok.mp hdecoded
  cases hdecoded
  refine Except.bind_eq_ok.mpr ⟨a, hcheck, Except.bind_eq_ok.mpr ⟨args, ?_,
    Except.bind_eq_ok.mpr ⟨name, hname, Except.bind_eq_ok.mpr ⟨symbol, hsymbol,
      Except.bind_eq_ok.mpr ⟨decimals, hdecimals, ?_⟩⟩⟩⟩⟩
  · exact liftExn_eq_ok.mpr hdata
  · exact guard_eq_ok.mpr ⟨not_lt.mpr hsmall, rfl⟩

theorem functors_ne : functorOf 0x97aa51a3 ≠ functorOf 0xb74e5ed5 ∧
    functorOf 0x9f90f4c7 ≠ functorOf 0xb74e5ed5 ∧ functorOf 0x9f90f4c7 ≠ functorOf 0x97aa51a3 := by
  decide

theorem ethCall_of_creates {m : ContractManager} {info : EthCallInfo} {a : Address}
    (h : Creates info) (hcommit : m.locals.commit = true) (hcheck : m.checkDeployment C = .ok a) :
    ∃ c, New C a c ∧ m.ethCall C info = .ok { m with contracts := m.contracts.insert a c } := by
  obtain ⟨hwt, hnt, hnw⟩ := functors_ne
  unfold ContractManager.ethCall
  cases h with
  | token args name symbol decimals supply hfunctor hdata hdecoded hsmall =>
    have hv := validateCreateNewERC20Contract_of_decode hcheck hdata hdecoded hsmall
    obtain ⟨c, hc⟩ := ERC20.new_total a m.locals.caller name symbol decimals supply
    refine ⟨c, .erc20 _ _ _ _ _ c hc, ?_⟩
    rw [if_pos hfunctor, if_pos hcommit]
    exact Except.bind_eq_ok.mpr ⟨_, hv, Except.bind_eq_ok.mpr ⟨c, liftExn_eq_ok.mpr hc, rfl⟩⟩
  | wrapper hfunctor =>
    refine ⟨ERC20Wrapper.new C a, .erc20Wrapper, ?_⟩
    rw [hfunctor, if_neg hwt, if_pos rfl, if_pos hcommit]
    exact Except.bind_eq_ok.mpr ⟨a, hcheck, rfl⟩
  | nativeWrapper args name symbol decimals hfunctor hdata hdecoded hsmall =>
    have hv := validateCreateNewERC20NativeWrapperContract_of_decode hcheck hdata hdecoded hsmall
    refine ⟨NativeWrapper.new a name symbol decimals, .nativeWrapper name symbol decimals, ?_⟩
    rw [hfunctor, if_neg hnt, if_neg hnw, if_pos rfl, if_pos hcommit]
    exact Except.bind_eq_ok.mpr ⟨_, hv, rfl⟩

theorem ethCall_of_refused {m : ContractManager} {info : EthCallInfo} {e : Fail}
    (h : Creates info) (hcommit : m.locals.commit = true)
    (hcheck : m.checkDeployment C = .error e) : m.ethCall C info = .error e := by
  obtain ⟨hwt, hnt, hnw⟩ := functors_ne
  unfold ContractManager.ethCall
  cases h with
  | token args name symbol decimals supply hfunctor hdata hdecoded hsmall =>
    rw [if_pos hfunctor, if_pos hcommit, ContractManager.createNewERC20Contract,
      ContractManager.validateCreateNewERC20Contract, hcheck]
    rfl
  | wrapper hfunctor =>
    rw [hfunctor, if_neg hwt, if_pos rfl, if_pos hcommit,
      ContractManager.createNewERC20WrapperContract,
      ContractManager.validateCreateNewERC20WrapperContract, hcheck]
    rfl
  | nativeWrapper args name symbol decimals hfunctor hdata hdecoded hsmall =>
    rw [hfunctor, if_neg hnt, if_neg hnw, if_pos rfl, if_pos hcommit,
      ContractManager.createNewERC20NativeWrapperContract,
      ContractManager.validateCreateNewERC20NativeWrapperContract, hcheck]
    rfl

/-! ### Creations one after another -/

/-- A transaction of the contract creator that calls one of the three creations, and what the
    call gets from the node. -/
structure Creation where
  depth : Nat
  processingPayable : Bool
  accounts : Accounts
  tx : TxBlock
  sender_eq : tx.sender = contractCreator
  receiver_eq : tx.receiver = contractManagerAddress
  creates : Creates tx.txToCallInfo

/-- The contract call of the transaction. -/
def Creation.perform (C : Crypto) (op : Creation) (m : ContractManager) : Option TxOutcome :=
  m.callContract C op.depth op.processingPayable op.accounts op.tx

/-- The manager it leaves, whether it succeeds or throws. -/
def Creation.step (C : Crypto) (op : Creation) (m : ContractManager) : Option ContractManager :=
  (op.perform C m).map TxOutcome.manager

/-- The creation succeeds and deploys exactly one contract, a new one. -/
def Creation.Deploys (C : Crypto) (m : ContractManager) (op : Creation) : Prop :=
  ∃ o a c, op.perform C m = some o ∧ o.result = .ok () ∧ a ∉ m.contracts ∧ New C a c ∧
    o.manager.contracts = m.contracts.insert a c

/-- The contracts are `n`, at the addresses the creator gets one after another. -/
structure Filled (C : Crypto) (n : Nat) (m : ContractManager) : Prop where
  size : m.contracts.entries.length = n
  mem : ∀ a, a ∈ m.contracts ↔ ∃ k < n, derivedAddress C contractCreator k = a

/-- The manager as a creation finds it when its function starts. -/
def Creation.entered (op : Creation) (m : ContractManager) : ContractManager :=
  (m.setCommit true).setCaller op.tx.txToCallInfo

theorem Creation.perform_eq (op : Creation) (m : ContractManager) :
    op.perform C m = callManager C op.accounts (m.setCommit true) op.tx.txToCallInfo :=
  if_pos op.receiver_eq

theorem Creation.checkDeployment_eq (op : Creation) {m : ContractManager} {n : Nat}
    (h : m.contracts.entries.length = n) :
    (op.entered m).checkDeployment C =
      if derivedAddress C contractCreator n ∈ m.contracts then raise "Contract already exists"
      else if derivedAddress C contractCreator n ∈ protocolContractAddresses then
        raise "Contract already exists"
      else .ok (derivedAddress C contractCreator n) := by
  have hcaller : (op.entered m).locals.caller = contractCreator := op.sender_eq
  have hderived : (op.entered m).deriveContractAddress C =
      derivedAddress C contractCreator n := by
    rw [deriveContractAddress_eq, hcaller]
    exact congrArg _ h
  unfold checkDeployment
  rw [if_neg (not_not.mpr hcaller), hderived]
  rfl

theorem callManager_of_ok {accounts : Accounts} {m m' : ContractManager} {info : EthCallInfo}
    (h : (m.setCaller info).ethCall C info = .ok m') :
    callManager C accounts m info =
      some ⟨.ok (), accounts, (m'.setCommit false).clearBalances, .nil⟩ := by
  unfold callManager
  dsimp only
  rw [h]

theorem callManager_of_error {accounts : Accounts} {m : ContractManager} {info : EthCallInfo}
    {e : Exn} (h : (m.setCaller info).ethCall C info = .error (.exn e)) :
    callManager C accounts m info =
      some ⟨.error e, accounts, ((m.setCaller info).setCommit false).clearBalances, .nil⟩ := by
  unfold callManager
  dsimp only
  rw [h]

namespace Filled

variable {n : Nat} {m m' : ContractManager}

/-- A creation whose address is free deploys one contract there. -/
theorem deploys (hsep : Separates C) (h : Filled C n m)
    (hfresh : ∀ k < n, derivedAddress C contractCreator k ≠ derivedAddress C contractCreator n)
    (op : Creation) :
    ∃ o c, op.perform C m = some o ∧ o.result = .ok () ∧
      derivedAddress C contractCreator n ∉ m.contracts ∧
      New C (derivedAddress C contractCreator n) c ∧
      o.manager.contracts = m.contracts.insert (derivedAddress C contractCreator n) c := by
  have hfree : derivedAddress C contractCreator n ∉ m.contracts := by
    intro hmem
    obtain ⟨k, hk, heq⟩ := (h.mem _).mp hmem
    exact hfresh k hk heq
  have hcheck := op.checkDeployment_eq (C := C) h.size
  rw [if_neg hfree, if_neg (hsep.foreign _ _)] at hcheck
  obtain ⟨c, hc, hcall⟩ := ethCall_of_creates op.creates rfl hcheck
  exact ⟨_, c, (op.perform_eq m).trans (callManager_of_ok hcall), rfl, hfree, hc, rfl⟩

theorem refused (h : Filled C n m)
    (htaken : ∃ k < n, derivedAddress C contractCreator k = derivedAddress C contractCreator n)
    (op : Creation) :
    ∃ o, op.perform C m = some o ∧
      o.result = .error (.runtimeError "Contract already exists") ∧
      o.manager.contracts = m.contracts := by
  have hcheck := op.checkDeployment_eq (C := C) h.size
  rw [if_pos ((h.mem _).mpr htaken)] at hcheck
  have hcall := ethCall_of_refused op.creates rfl hcheck
  exact ⟨_, (op.perform_eq m).trans (callManager_of_error hcall), rfl, rfl⟩

/-- With the new contract the addresses are those of one number more. -/
theorem succ (h : Filled C n m) {c : DynamicContract}
    (hfree : derivedAddress C contractCreator n ∉ m.contracts)
    (hm' : m'.contracts = m.contracts.insert (derivedAddress C contractCreator n) c) :
    Filled C (n + 1) m' := by
  constructor
  · rw [hm', AList.entries_insert_of_notMem hfree, List.length_cons, h.size]
  · intro a
    rw [hm', AList.mem_insert, h.mem]
    constructor
    · rintro (rfl | ⟨k, hk, rfl⟩)
      · exact ⟨n, Nat.lt_succ_self n, rfl⟩
      · exact ⟨k, hk.trans (Nat.lt_succ_self n), rfl⟩
    · rintro ⟨k, hk, rfl⟩
      rcases Nat.eq_or_lt_of_le (Nat.le_of_lt_succ hk) with rfl | hlt
      · exact Or.inl rfl
      · exact Or.inr ⟨k, hlt, rfl⟩

theorem empty (h : m.contracts = ∅) : Filled C 0 m := by
  constructor
  · rw [h]
    rfl
  · intro a
    rw [h]
    simp

theorem fresh_of_le (hsep : Separates C) (hn : n ≤ 0x80) :
    ∀ k < n, derivedAddress C contractCreator k ≠ derivedAddress C contractCreator n :=
  (derivedAddress_fresh_iff hsep contractCreator (by omega)).mpr (Or.inl hn)

/-- Creations one after another, as long as there are at most 129 contracts. -/
theorem run (hsep : Separates C) (h : Filled C n m) {ops : List Creation}
    (hlen : n + ops.length ≤ 129) :
    ∃ m', Machine.run (Creation.step C) ops m = some m' ∧ Filled C (n + ops.length) m' := by
  induction ops generalizing n m with
  | nil => exact ⟨m, rfl, h⟩
  | cons op ops ih =>
    rw [List.length_cons] at hlen
    obtain ⟨o, c, ho, -, hfree, -, hcontracts⟩ :=
      h.deploys hsep (fresh_of_le hsep (by omega)) op
    obtain ⟨m', hrun, hm'⟩ := ih (h.succ hfree hcontracts) (by omega)
    refine ⟨m', ?_, ?_⟩
    · rw [Machine.run, Creation.step, ho]
      exact hrun
    · rw [List.length_cons, Nat.add_comm ops.length, ← Nat.add_assoc]
      exact hm'

/-- From `n ≤ 129` contracts on, as many creations succeed as are missing to 129. -/
theorem along_deploys_iff (hsep : Separates C) (h : Filled C n m) (hn : n ≤ 129)
    (ops : List Creation) :
    Machine.Along (Creation.step C) (Creation.Deploys C) ops m ↔ n + ops.length ≤ 129 := by
  induction ops generalizing n m with
  | nil => exact iff_of_true trivial hn
  | cons op ops ih =>
    rw [List.length_cons]
    rcases Nat.eq_or_lt_of_le hn with rfl | hlt
    · -- The address of the 130th is the one of the 129th.
      obtain ⟨o, ho, hresult, -⟩ := h.refused ⟨128, by decide, derivedAddress_collides C _⟩ op
      refine iff_of_false ?_ (by omega)
      rintro ⟨⟨o', a, c, ho', hok, -⟩, -⟩
      cases ho.symm.trans ho'
      cases hresult.symm.trans hok
    · obtain ⟨o, c, ho, hresult, hfree, hnew, hcontracts⟩ :=
        h.deploys hsep (fresh_of_le hsep (Nat.le_of_lt_succ hlt)) op
      have hstep : op.step C m = some o.manager := by rw [Creation.step, ho, Option.map_some]
      have hnext := ih (h.succ hfree hcontracts) hlt
      constructor
      · rintro ⟨-, hrest⟩
        have hle := hnext.mp (hrest _ hstep)
        omega
      · intro hle
        refine ⟨⟨o, _, c, ho, hresult, hfree, hnew, hcontracts⟩, ?_⟩
        intro m' hm'
        cases hstep.symm.trans hm'
        exact hnext.mpr (by omega)

end Filled

/-- **Collisions of contract addresses.**  Under a hash without collisions a caller's address
    is new among those of smaller numbers of contracts exactly up to 128 contracts and at the
    powers of 256.  So from an empty manager valid creations, of any kinds, all succeed and
    deploy one contract each exactly if there are at most 129 of them. -/
theorem creations_iff (hsep : Separates C) {m : ContractManager} (hempty : m.contracts = ∅)
    (ops : List Creation) :
    (∀ caller n, n < 2 ^ 64 →
      ((∀ k < n, derivedAddress C caller k ≠ derivedAddress C caller n) ↔
        n ≤ 0x80 ∨ ∃ j, n = 256 ^ j)) ∧
    (Machine.Along (Creation.step C) (Creation.Deploys C) ops m ↔ ops.length ≤ 129) := by
  refine ⟨fun caller n hn => derivedAddress_fresh_iff hsep caller hn, ?_⟩
  have hiff := (Filled.empty hempty).along_deploys_iff hsep (Nat.zero_le _) ops
  rwa [Nat.zero_add] at hiff

/-! ### A hash without collisions -/

/-- A hash that keeps the last byte only. -/
def lastByte : Crypto where
  sha3 bs := ⟨List.replicate 31 0 ++ [bs.getLastD 0], rfl⟩
  ecdsaRecover _ _ := none
  ecPubkeyCreate _ := none
  ecdsaSignRecoverable _ _ := none

theorem lastByte_derived (caller : Address) (n : Nat) :
    (derivedAddress lastByte caller n).data =
      List.replicate 19 0 ++ [UInt8.ofNat (code n)] := by
  have hlast : (derivedPreimage caller n).getLastD 0 = UInt8.ofNat (code n) := by
    rw [derivedPreimage, ← List.cons_append, List.getLastD_concat]
  show (List.replicate 31 0 ++ [(derivedPreimage caller n).getLastD 0]).drop 12 = _
  rw [hlast]
  rfl

theorem lastByte_separates : Separates lastByte where
  inj caller := by
    rintro _ ⟨k, hk, rfl⟩ _ ⟨n, hn, rfl⟩ h
    rw [derivedPreimage_eq_iff hn hk]
    have hdata : (derivedAddress lastByte caller k).data = (derivedAddress lastByte caller n).data :=
      h
    rw [lastByte_derived, lastByte_derived] at hdata
    have hbyte := congrArg UInt8.toNat (List.cons.inj (List.append_cancel_left hdata)).1
    rwa [UInt8.toNat_ofNat_of_lt' (code_lt hk), UInt8.toNat_ofNat_of_lt' (code_lt hn)] at hbyte
  foreign caller n hmem := by
    have hstart : ∀ a ∈ protocolContractAddresses, a.data.take 2 ≠ [0, 0] := by decide +kernel
    exact hstart _ hmem (by rw [lastByte_derived]; rfl)

/-- A manager without contracts. -/
def noContracts : ContractManager := ⟨∅, ∅, .init, .init⟩

/-- The creation of a wrapper. -/
def wrapperCreation : Creation where
  depth := 0
  processingPayable := false
  accounts := ∅
  tx := ⟨contractManagerAddress, contractCreator, functorOf 0x97aa51a3, 8080, 0, 0, 0, 0, 0, 0, 0, 0⟩
  sender_eq := rfl
  receiver_eq := rfl
  creates := .wrapper rfl

/-- Of 130 wrappers not all can be created. -/
theorem creations_iff_wrappers :
    Separates lastByte ∧ ¬ Machine.Along (Creation.step lastByte) (Creation.Deploys lastByte)
      (List.replicate 130 wrapperCreation) noContracts := by
  refine ⟨lastByte_separates, ?_⟩
  rw [(creations_iff lastByte_separates rfl _).2, List.length_replicate]
  decide

/-- With 129 contracts the address is the one with 128, and after 129 creations of wrappers the
    next one throws. -/
theorem creation_refused :
    Separates lastByte ∧ derivedAddress lastByte contractCreator 128 =
        derivedAddress lastByte contractCreator 129 ∧
      ∃ m o, Machine.run (Creation.step lastByte) (List.replicate 129 wrapperCreation)
          noContracts = some m ∧
        wrapperCreation.perform lastByte m = some o ∧
        o.result = .error (.runtimeError "Contract already exists") := by
  have hcollides := derivedAddress_collides lastByte contractCreator
  refine ⟨lastByte_separates, hcollides, ?_⟩
  have hempty : Filled lastByte 0 noContracts := Filled.empty rfl
  have hlen : (List.replicate 129 wrapperCreation).length = 129 := List.length_replicate
  obtain ⟨m, hrun, hfilled⟩ := hempty.run lastByte_separates
    (show 0 + (List.replicate 129 wrapperCreation).length ≤ 129 by omega)
  rw [hlen] at hfilled
  obtain ⟨o, ho, hresult, -⟩ := hfilled.refused ⟨128, by decide, hcollides⟩ wrapperCreation
  exact ⟨m, o, hrun, ho, hresult⟩

end ContractManager

end OrbiterSdk

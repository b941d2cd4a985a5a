import OrbiterSdk.Contract.Frames
import OrbiterSdk.Contract.Transaction
import OrbiterSdk.Lib.Fungible
import OrbiterSdk.Lib.Machine

namespace OrbiterSdk

/-!
# Token contracts

`ERC20` and `NativeWrapper` keep `_balances` and `_allowed`; `tokenOf` reads them as an
abstract `Fungible` token, and the functions of the two contracts are its operations:

* `ERC20.operation`, `NativeWrapper.payableOperation` — which operation a call asks for;
* `ERC20.functions_local`, `NativeWrapper.payableFunctions_local` — the code performs it;
* `Store.balanceSum` — the sum of the committed `_balances`;
* `ERC20.supply_and_authorisation` — what holds in every run of calls on an `ERC20`.
-/

/-! ### The token in the variables -/

/-- The token a view of the variables shows. -/
def tokenOf (f : View) : Fungible Address where
  balance a := ((f (.entry balancesVar a)).getD balancesVar.dflt).toUint.val
  allowance owner spender :=
    ((((f (.entry allowedVar owner)).getD allowedVar.dflt).toMap.lookup spender).getD 0).val

theorem tokenOf_none : tokenOf (fun _ => none) = ⟨fun _ => 0, fun _ _ => 0⟩ := rfl

/-- The variables that make up the token. -/
def tokenVars : List Var := [.map balancesVar, .map allowedVar]

theorem balancesVar_mem (a : Address) : (Loc.entry balancesVar a).var ∈ tokenVars := by
  simp [tokenVars, Loc.var]

theorem allowedVar_mem (a : Address) : (Loc.entry allowedVar a).var ∈ tokenVars := by
  simp [tokenVars, Loc.var]

/-- Other variables do not matter to the token. -/
theorem tokenOf_congr {vs : List Var} {f g : View} (h : View.Agree vs f g)
    (hvs : ∀ v ∈ tokenVars, v ∉ vs) : tokenOf g = tokenOf f := by
  ext a b
  · simp only [tokenOf, h (.entry balancesVar a) (hvs _ (balancesVar_mem a))]
  · simp only [tokenOf, h (.entry allowedVar a) (hvs _ (allowedVar_mem a))]

theorem tokenOf_updateBalance (f : View) (a : Address) (y : Uint256) :
    tokenOf (Function.update f (.entry balancesVar a) (some (.uint y))) =
      { tokenOf f with balance := Function.update (tokenOf f).balance a y.val } := by
  ext b c
  · by_cases hb : b = a
    · subst hb; simp [tokenOf, Val.toUint]
    · simp [tokenOf, hb, Function.update_of_ne]
  · simp [tokenOf, balancesVar, allowedVar, Function.update_of_ne]

theorem tokenOf_updateAllowed (f : View) (owner spender : Address) (y : Uint256) :
    tokenOf (Function.update f (.entry allowedVar owner) (some (.addrMap
      ((((f (.entry allowedVar owner)).getD allowedVar.dflt).toMap.emplace spender 0).insert
        spender y)))) = (tokenOf f).allow owner spender y.val := by
  ext a b
  · simp [tokenOf, balancesVar, allowedVar, Function.update_of_ne, Fungible.allow]
  · rw [Fungible.allow_apply]
    by_cases ha : a = owner
    · subst ha
      by_cases hb : b = spender
      · subst hb; simp [tokenOf, Val.toMap]
      · simp [tokenOf, Val.toMap, hb, AList.lookup_insert_ne hb, AssocMap.lookup_emplace_ne _ hb]
    · simp [tokenOf, ha, Function.update_of_ne]

/-! ### Arguments -/

/-- The arguments `(address, uint256)` of a call. -/
def decodeAddressUint (info : EthCallInfo) : Except Exn (Address × Uint256) := do
  let args ← substrFrom info.data 4
  return (← Abi.decodeAddress args 0, ← Abi.decodeUint256 args 32)

/-- The arguments `(address, address, uint256)` of a call. -/
def decodeAddressAddressUint (info : EthCallInfo) : Except Exn (Address × Address × Uint256) := do
  let args ← substrFrom info.data 4
  return (← Abi.decodeAddress args 0, ← Abi.decodeAddress args 32, ← Abi.decodeUint256 args 64)

section

variable {accounts : Accounts} {run : Callee} {me : Address} {l : ContractLocals} {f : View}
  {P : View → List (Ledger.Event Address) → Prop}

theorem argsAddressUint_eq (info : EthCallInfo) (k : Address → Uint256 → Prog) :
    argsAddressUint info k = Prog.ofExcept (decodeAddressUint info) fun p => k p.1 p.2 := by
  simp only [argsAddressUint, decodeAddressUint, Prog.ofExcept_bind, Prog.ofExcept_pure]

theorem argsAddressAddressUint_eq (info : EthCallInfo) (k : Address → Address → Uint256 → Prog) :
    argsAddressAddressUint info k =
      Prog.ofExcept (decodeAddressAddressUint info) fun p => k p.1 p.2.1 p.2.2 := by
  simp only [argsAddressAddressUint, decodeAddressAddressUint, Prog.ofExcept_bind,
    Prog.ofExcept_pure]

theorem argsAddressUint_local {info : EthCallInfo} {k : Address → Uint256 → Prog}
    (h : ∀ a x, decodeAddressUint info = .ok (a, x) → Local accounts run me l f (k a x) P) :
    Local accounts run me l f (argsAddressUint info k) P := by
  rw [argsAddressUint_eq]
  exact Local.ofExcept fun p hp => h p.1 p.2 hp

theorem argsAddressAddressUint_local {info : EthCallInfo}
    {k : Address → Address → Uint256 → Prog}
    (h : ∀ a b x, decodeAddressAddressUint info = .ok (a, b, x) →
      Local accounts run me l f (k a b x) P) :
    Local accounts run me l f (argsAddressAddressUint info k) P := by
  rw [argsAddressAddressUint_eq]
  exact Local.ofExcept fun p hp => h p.1 p.2.1 p.2.2 hp

end

/-! ### The functions -/

/-- The code performs the operation `op` of the caller on the token and pays out what it
    burns. -/
def Performs (me caller : Address) (f : View) (op : Fungible.Op Address) (g : View)
    (es : List (Ledger.Event Address)) : Prop :=
  (tokenOf f).step (2 ^ 256) caller op = some (tokenOf g) ∧ View.Agree tokenVars f g ∧
    es = match op with
      | .burn n => [.send me caller n .done]
      | _ => []

section

variable {accounts : Accounts} {run : Callee} {me : Address} {l : ContractLocals} {f : View}

theorem tokenOf_debit {src : Address} {y value : Uint256}
    (hy : y.val + value.val = (tokenOf f).balance src) :
    tokenOf (Function.update f (.entry balancesVar src) (some (.uint y))) =
      { tokenOf f with balance := Ledger.debit (tokenOf f).balance src value.val } := by
  rw [tokenOf_updateBalance, Ledger.debit,
    show (tokenOf f).balance src - value.val = y.val by omega]

/-- The debit and the credit of a transfer, in this order, from any view of the token. -/
theorem move_local {src dst : Address} {value : Uint256}
    {P : View → List (Ledger.Event Address) → Prop}
    (h : ∀ g b, Fungible.move (2 ^ 256) (tokenOf f).balance src dst value.val = some b →
      tokenOf g = { tokenOf f with balance := b } → View.Agree tokenVars f g → P g []) :
    Local accounts run me l f
      (Prog.updateEntry balancesVar src (fun x => usub x value) <|
        Prog.updateEntry balancesVar dst (fun x => uadd x value) .done) P := by
  refine Local.updateEntry fun y hy => Local.updateEntry fun z hz => Local.done ?_
  have hagree := ((View.Agree.refl tokenVars f).update (balancesVar_mem src)
    (some (.uint y))).update (balancesVar_mem dst) (some (.uint z))
  have hy' : y.val + value.val = (tokenOf f).balance src := usub_eq_ok.mp hy
  have hdebit := tokenOf_debit hy'
  have hz' : z.val = Ledger.debit (tokenOf f).balance src value.val dst + value.val := by
    have := uadd_eq_ok.mp hz
    rwa [show (((Function.update f _ (some (.uint y))) (.entry balancesVar dst)).getD _).toUint.val
      = _ from congrArg (fun t => Fungible.balance t dst) hdebit] at this
  refine h _ (Ledger.credit (Ledger.debit (tokenOf f).balance src value.val) dst value.val)
    ?_ ?_ hagree
  · rw [Fungible.move, if_pos ⟨by omega, by rw [← hz']; exact z.isLt⟩]
  · rw [tokenOf_updateBalance, hdebit, hz']
    rfl

/-- A move the token allows does not throw: neither check of the arithmetic fails. -/
theorem move_returns {src dst : Address} {value : Uint256} {b : Address → Nat}
    (h : Fungible.move (2 ^ 256) (tokenOf f).balance src dst value.val = some b) :
    Returns accounts run me l f
      (Prog.updateEntry balancesVar src (fun x => usub x value) <|
        Prog.updateEntry balancesVar dst (fun x => uadd x value) .done) := by
  unfold Fungible.move at h
  split at h
  · rename_i hcond
    obtain ⟨hle, hlt⟩ := hcond
    have hsrc : (tokenOf f).balance src < 2 ^ 256 :=
      ((f (.entry balancesVar src)).getD balancesVar.dflt).toUint.isLt
    have hy : (tokenOf f).balance src - value.val + value.val = (tokenOf f).balance src :=
      Nat.sub_add_cancel hle
    let y : Uint256 := ⟨(tokenOf f).balance src - value.val, by omega⟩
    have hdebit := tokenOf_debit (y := y) hy
    refine Returns.updateEntry (y := y) (usub_eq_ok.mpr hy) ?_
    refine Returns.updateEntry (y := ⟨_, hlt⟩) (uadd_eq_ok.mpr ?_) Returns.done
    exact congrArg (fun t => Fungible.balance t dst + value.val) hdebit.symm
  · cases h

namespace ERC20

theorem transfer_returns {receiver : Address} {value : Uint256} {t : Fungible Address}
    (h : (tokenOf f).step (2 ^ 256) l.caller (.transfer receiver value.val) = some t) :
    Returns accounts run me l f (transfer receiver value) := by
  obtain ⟨b, hb, -⟩ := Option.map_eq_some_iff.mp h
  exact Returns.getCaller (move_returns hb)

theorem transfer_local (receiver : Address) (value : Uint256) :
    Local accounts run me l f (transfer receiver value)
      (Performs me l.caller f (.transfer receiver value.val)) := by
  refine Local.getCaller (move_local fun g b hb hg hagree => ⟨?_, hagree, rfl⟩)
  rw [Fungible.step, hb, hg]
  rfl

theorem approve_local (spender : Address) (value : Uint256) :
    Local accounts run me l f (approve spender value)
      (Performs me l.caller f (.approve spender value.val)) := by
  refine Local.getCaller (Local.updateNested fun y hy => Local.done ⟨?_, ?_, rfl⟩)
  · cases hy
    rw [tokenOf_updateAllowed]
    rfl
  · exact (View.Agree.refl tokenVars f).update (allowedVar_mem _) _

theorem transferFrom_local (owner receiver : Address) (value : Uint256) :
    Local accounts run me l f (transferFrom owner receiver value)
      (Performs me l.caller f (.transferFrom owner receiver value.val)) := by
  refine Local.getCaller (Local.updateNested fun y hy => move_local fun g b hb hg hagree =>
    ⟨?_, ?_, rfl⟩)
  · have hy' : y.val + value.val = (tokenOf f).allowance owner l.caller := usub_eq_ok.mp hy
    rw [tokenOf_updateAllowed] at hb hg
    rw [Fungible.step, if_pos (by omega), hg,
      show (tokenOf f).allowance owner l.caller - value.val = y.val by omega]
    exact congrArg (Option.map _) hb
  · intro loc hloc
    rw [hagree loc hloc]
    exact (View.Agree.refl tokenVars f).update (allowedVar_mem owner) _ loc hloc

/-- The operation a call of an `ERC20` asks for: its functor and its decoded arguments. -/
def operation (info : EthCallInfo) : Except Exn (Fungible.Op Address) :=
  if info.functor = functorOf 0xa9059cbb then
    (decodeAddressUint info).map fun (receiver, x) => .transfer receiver x.val
  else if info.functor = functorOf 0x095ea7b3 then
    (decodeAddressUint info).map fun (spender, x) => .approve spender x.val
  else if info.functor = functorOf 0x23b872dd then
    (decodeAddressAddressUint info).map fun (owner, receiver, x) =>
      .transferFrom owner receiver x.val
  else .error (.runtimeError "Functor not found")

theorem functions_local {info : EthCallInfo} {fn : EthCallInfo → Prog}
    (h : functions info.functor = some fn) :
    Local accounts run me l f (fn info) fun g es =>
      ∃ op, operation info = .ok op ∧ op.minted = 0 ∧ op.burned = 0 ∧
        Performs me l.caller f op g es := by
  unfold functions at h
  unfold operation
  by_cases h₁ : info.functor = functorOf 0xa9059cbb
  · rw [if_pos h₁] at h ⊢
    cases h
    refine argsAddressUint_local fun a x hargs => (transfer_local a x).mono fun g es hg => ?_
    exact ⟨.transfer a x.val, by rw [hargs]; rfl, rfl, rfl, hg⟩
  rw [if_neg h₁] at h ⊢
  by_cases h₂ : info.functor = functorOf 0x095ea7b3
  · rw [if_pos h₂] at h ⊢
    cases h
    refine argsAddressUint_local fun a x hargs => (approve_local a x).mono fun g es hg => ?_
    exact ⟨.approve a x.val, by rw [hargs]; rfl, rfl, rfl, hg⟩
  rw [if_neg h₂] at h ⊢
  by_cases h₃ : info.functor = functorOf 0x23b872dd
  · rw [if_pos h₃] at h ⊢
    cases h
    refine argsAddressAddressUint_local fun a b x hargs =>
      (transferFrom_local a b x).mono fun g es hg => ?_
    exact ⟨.transferFrom a b x.val, by rw [hargs]; rfl, rfl, rfl, hg⟩
  · rw [if_neg h₃] at h
    cases h

end ERC20

namespace NativeWrapper

theorem deposit_local :
    Local accounts run me l f deposit (Performs me l.caller f (.mint l.value.val)) := by
  refine Local.getCaller (Local.getValue (Local.updateEntry fun y hy => Local.done ⟨?_, ?_, rfl⟩))
  · have hy' : y.val = (tokenOf f).balance l.caller + l.value.val := uadd_eq_ok.mp hy
    rw [tokenOf_updateBalance, hy', Fungible.step, if_pos (by rw [← hy']; exact y.isLt)]
    rfl
  · exact (View.Agree.refl tokenVars f).update (balancesVar_mem _) _

theorem withdraw_local (value : Uint256) :
    Local accounts run me l f (withdraw value) (Performs me l.caller f (.burn value.val)) := by
  refine Local.getCaller (Local.updateEntry fun y hy => Local.getCaller (Local.sendTokens
    (Local.done ⟨?_, ?_, rfl⟩)))
  · have hy' : y.val + value.val = (tokenOf f).balance l.caller := usub_eq_ok.mp hy
    rw [tokenOf_updateBalance, Fungible.step, if_pos (by omega), Ledger.debit,
      show (tokenOf f).balance l.caller - value.val = y.val by omega]
  · exact (View.Agree.refl tokenVars f).update (balancesVar_mem _) _

/-- A payable function puts the value of the call in, or takes tokens out and pays for them. -/
theorem payableFunctions_local {info : EthCallInfo} {fn : EthCallInfo → Prog}
    (h : payableFunctions info.functor = some fn) :
    Local accounts run me l f (fn info) fun g es =>
      ∃ op, op.minted ≤ l.value.val ∧ Performs me l.caller f op g es := by
  unfold payableFunctions at h
  split at h
  · cases h
    exact deposit_local.mono fun g es hg => ⟨.mint l.value.val, le_rfl, hg⟩
  · split at h
    · cases h
      refine Local.ofExcept fun args _ => Local.ofExcept fun x _ => ?_
      exact (withdraw_local x).mono fun g es hg => ⟨.burn x.val, Nat.zero_le _, hg⟩
    · cases h

end NativeWrapper

end

/-! ### The sum of the balances -/

theorem finite_fixedStr (n : Nat) : Finite (FixedStr n) := by
  have hbyte : Finite UInt8 := Finite.of_injective UInt8.toFin fun a b h => UInt8.toFin_inj.mp h
  have hlists : Finite {bs : Bytes | bs.length = n} := List.finite_length_eq UInt8 n
  refine Finite.of_injective (fun a : FixedStr n => (⟨a.data, a.size_eq⟩ :
    {bs : Bytes | bs.length = n})) ?_
  intro a b h
  exact FixedStr.ext (congrArg Subtype.val h)

/-- For sums only: deciding something about every address by this instance would not compute,
    so it is not in scope elsewhere. -/
noncomputable scoped instance FixedStr.instFintype (n : Nat) : Fintype (FixedStr n) :=
  have := finite_fixedStr n
  Fintype.ofFinite _

open scoped FixedStr

/-- The sum of the committed `_balances`. -/
def Store.balanceSum (s : Store) : Nat :=
  AssocMap.total (fun v => v.toUint.val) (s.maps balancesVar).map

theorem Store.balanceSum_eq (s : Store) : s.balanceSum = (tokenOf s.com).supply := by
  rw [balanceSum, AssocMap.total_eq_sum _ _ Finset.univ fun _ _ => Finset.mem_univ _]
  refine Finset.sum_congr rfl fun a _ => ?_
  show ((((s.maps balancesVar).map.lookup a).map _).getD 0) =
    (((s.maps balancesVar).map.lookup a).getD balancesVar.dflt).toUint.val
  cases (s.maps balancesVar).map.lookup a <;> rfl

namespace ContractManager

/-- The committed token of the contract at `a`. -/
def tokenAt (m : ContractManager) (a : Address) : Fungible Address := tokenOf (m.cells.com a)

/-- The sum of the committed `_balances` of the contract at `a`. -/
def balanceSum (m : ContractManager) (a : Address) : Nat :=
  ((m.contracts.lookup a).map fun c => c.store.balanceSum).getD 0

/-- The committed `_totalSupply` of the contract at `a`. -/
def totalSupply (m : ContractManager) (a : Address) : Nat :=
  ((m.cells.com a (.scalar totalSupplyVar)).map fun v => v.toUint.val).getD 0

theorem com_of_notMem {m : ContractManager} {a : Address} (h : a ∉ m.contracts) :
    m.cells.com a = fun _ => none := by
  funext l
  simp [cells, AList.lookup_eq_none.mpr h]

theorem balanceSum_eq (m : ContractManager) (a : Address) :
    m.balanceSum a = (m.tokenAt a).supply := by
  unfold balanceSum tokenAt
  cases hc : m.contracts.lookup a with
  | none =>
    rw [com_of_notMem (AList.lookup_eq_none.mp hc), tokenOf_none]
    simp [Fungible.supply]
  | some c =>
    rw [(cells_of_lookup hc).1]
    exact c.store.balanceSum_eq

end ContractManager

/-! ### New tokens -/

namespace Store

theorem describe_cur (name symbol : Bytes) (decimals : Uint256) :
    (Store.init.describe name symbol decimals).cur (.scalar totalSupplyVar) = some (.uint 0) ∧
      ∀ mv a, (Store.init.describe name symbol decimals).cur (.entry mv a) = none :=
  ⟨rfl, fun _ _ => rfl⟩

theorem mintValue_cur {s s' : Store} {a : Address} {value : Uint256} (h : s.WF)
    (hs : s.mintValue a value = .ok s') :
    ∃ x y, uadd ((s.cur (.entry balancesVar a)).getD balancesVar.dflt).toUint value = .ok x ∧
      ((s.cur (.scalar totalSupplyVar)).map fun t => uadd t.toUint value) = some (.ok y) ∧
      s'.cur = Function.update (Function.update s.cur (.entry balancesVar a) (some (.uint x)))
        (.scalar totalSupplyVar) (some (.uint y)) := by
  obtain ⟨x, hx, hs⟩ := Except.bind_eq_ok.mp hs
  obtain ⟨y, hy, hs⟩ := Except.bind_eq_ok.mp hs
  cases hs
  obtain ⟨hval, hindex⟩ := index_spec h balancesVar a
  have hassign := assign_spec hindex.wf balancesVar a (.uint x)
  obtain ⟨hget, hgetEff⟩ := get_spec hassign.wf totalSupplyVar
  have hset := set_spec hgetEff.wf totalSupplyVar (.uint y)
  -- The four operations write an entry twice and one scalar.
  have hcur : ((s.index balancesVar a).2.assign balancesVar a (.uint x)).cur =
      Function.update s.cur (.entry balancesVar a) (some (.uint x)) := by
    rw [hassign.cur]
    dsimp only
    rw [hindex.cur]
    exact Function.update_idem _ _ _
  refine ⟨x, y, hval ▸ hx, ?_, ?_⟩
  · rw [hcur] at hget
    have hsupply : some ((((s.index balancesVar a).2.assign balancesVar a (.uint x)).get
        totalSupplyVar).1) = s.cur (.scalar totalSupplyVar) := hget
    rw [← hsupply]
    exact congrArg some hy
  · refine hset.cur.trans ?_
    exact congrArg (fun f : View => Function.update f (.scalar totalSupplyVar) (some (Val.uint y)))
      (hgetEff.cur.trans hcur)

end Store

/-- **A new `ERC20`**: everything belongs to the creator and nothing is allowed. -/
theorem ERC20.new_token {self creator : Address} {name symbol : Bytes}
    {decimals mintValue : Uint256} {c : DynamicContract}
    (h : ERC20.new self creator name symbol decimals mintValue = .ok c) :
    tokenOf c.store.com = ⟨Function.update (fun _ => 0) creator mintValue.val, fun _ _ => 0⟩ ∧
      c.store.com (.scalar totalSupplyVar) = some (.uint mintValue) ∧
      c.code = ERC20.code self := by
  obtain ⟨s, hs, hc⟩ := Except.bind_eq_ok.mp h
  cases hc
  have hwf := Store.describe_wf name symbol decimals
  obtain ⟨hscalar, hentry⟩ := Store.describe_cur name symbol decimals
  obtain ⟨x, y, hx, hy, hcur⟩ := Store.mintValue_cur hwf hs
  obtain ⟨-, hcom, -⟩ := Store.updateState_spec (Store.mintValue_wf hwf hs) true
  rw [hentry] at hx
  rw [hscalar] at hy
  have hx' : x = mintValue := Fin.ext ((uadd_eq_ok.mp hx).trans (Nat.zero_add _))
  have hy' : y = mintValue := Fin.ext
    ((uadd_eq_ok.mp (Option.some.inj hy)).trans (Nat.zero_add _))
  subst hx' hy'
  refine ⟨?_, ?_, rfl⟩
  · show tokenOf (s.updateState true).com = _
    rw [hcom, if_pos rfl, hcur]
    ext a b
    · by_cases ha : a = creator
      · subst ha; simp [tokenOf, Function.update_of_ne, Val.toUint]
      · simp [tokenOf, Function.update_of_ne, ha, hentry, MapVar.dflt, balancesVar, Val.toUint]
    · simp [tokenOf, Function.update_of_ne, hentry, MapVar.dflt, balancesVar, allowedVar, Val.toMap]
  · show (s.updateState true).com _ = _
    rw [hcom, if_pos rfl, hcur, Function.update_self]

/-! ### Runs of calls -/

namespace ERC20

/-- One invocation of `ethCall`: by a transaction, a simulation or another contract, which
    set the locals first. -/
structure Invocation where
  accounts : Accounts
  depth : Nat
  locals : ContractLocals
  info : EthCallInfo

/-- The manager after an invocation of the contract at `self`. -/
def Invocation.perform (self : Address) (call : Invocation) (m : ContractManager) :
    Option ContractManager :=
  (ethCall call.accounts (call.depth + 1) self call.info
    (m.modifyLocals self fun _ => call.locals)).map Outcome.manager

/-- **One invocation of local code** comes to an end and leaves a contract at rest with the same
    code.  Either nothing is committed, or what the code wrote is. -/
theorem Invocation.perform_local {self : Address} {m : ContractManager} {c : DynamicContract}
    {P : View → List (Ledger.Event Address) → Prop} (hgood : m.Good)
    (hc : m.contracts.lookup self = some c) (hquiet : m.cells.cur self = m.cells.com self)
    (call : Invocation)
    (hlocal : Local call.accounts (ethCall call.accounts call.depth) self call.locals
      (m.cells.com self) (c.body call.info) P) :
    ∃ o, ethCall call.accounts (call.depth + 1) self call.info
        (m.modifyLocals self fun _ => call.locals) = some o ∧
      o.manager.Good ∧
      (∃ c', o.manager.contracts.lookup self = some c' ∧ c'.code = c.code) ∧
      o.manager.cells.cur self = o.manager.cells.com self ∧
      (o.manager.cells.com self = m.cells.com self ∧
          (o.result = .ok () → call.locals.commit = false) ∨
        call.locals.commit = true ∧ P (o.manager.cells.com self) o.trace.events) := by
  have hmem : self ∈ m.contracts := AssocMap.mem_iff_lookup.mpr ⟨c, hc⟩
  set m₁ := m.modifyLocals self fun _ => call.locals with hm₁
  have hcells : m₁.cells = m.cells.setFlag self call.locals.commit :=
    ContractManager.cells_modifyLocals hmem fun _ => rfl
  have hcom : m₁.cells.com self = m.cells.com self := by rw [hcells]; rfl
  have hc₁ : m₁.contracts.lookup self = some { c with locals := call.locals } := by
    rw [hm₁, ContractManager.modifyLocals, ContractManager.lookup_modifyContract, if_pos rfl, hc]
    rfl
  have hquiet₁ : m₁.cells.cur self = m₁.cells.com self := by rw [hcells]; exact hquiet
  rw [← hcom] at hlocal
  obtain ⟨o, ho, hkept, hend⟩ := ethCall_local call.accounts call.depth
    (ContractManager.good_modifyLocals hgood _ _) hc₁ hquiet₁ hlocal
  refine ⟨o, ho, hkept.good, ?_, ?_, ?_⟩
  · have hshape := ContractManager.lookup_of_shape hkept.shape self
    rw [hc₁] at hshape
    obtain ⟨c', hc', hnc⟩ := Option.map_eq_some_iff.mp hshape
    exact ⟨c', hc', congrArg Prod.snd hnc⟩
  · cases hend with
    | unchanged hsame _ => rw [hsame]; exact hquiet₁
    | committed g _ _ _ hsame => rw [hsame]; simp [Cells.hold]
  · cases hend with
    | unchanged hsame hok => exact .inl ⟨by rw [hsame, hcom], hok⟩
    | committed g _ hcommit hP hsame =>
      have hg : o.manager.cells.com self = g := by
        rw [hsame]
        exact Function.update_self _ _ _
      rw [hg]
      exact .inr ⟨hcommit, hP⟩

/-- Between invocations: the code is that of an `ERC20`, and nothing is uncommitted. -/
structure Deployed (a : Address) (m : ContractManager) : Prop where
  good : m.Good
  code : ∃ c, m.contracts.lookup a = some c ∧ c.code = ERC20.code a
  quiet : m.cells.cur a = m.cells.com a

theorem body_local {accounts : Accounts} {run : Callee} {self : Address} {l : ContractLocals}
    {f : View} {c : DynamicContract} (hc : c.code = ERC20.code self) (info : EthCallInfo) :
    Local accounts run self l f (c.body info) fun g es =>
      ∃ op, operation info = .ok op ∧ op.minted = 0 ∧ op.burned = 0 ∧
        Performs self l.caller f op g es := by
  have hfn : c.function info.functor = functions info.functor := by
    rw [DynamicContract.function, DynamicContract.isPayableFunction, hc]
    rfl
  exact Local.body fun fn h => functions_local (hfn.symm.trans h)

/-- **One invocation** comes to an end.  Either nothing is committed, or the operation asked
    for is performed on the token and nothing else is touched. -/
theorem perform_cases {self : Address} {m : ContractManager} (h : Deployed self m)
    (call : Invocation) :
    ∃ m', call.perform self m = some m' ∧ Deployed self m' ∧
      (m'.cells.com self = m.cells.com self ∨
        ∃ op, operation call.info = .ok op ∧ op.minted = 0 ∧ op.burned = 0 ∧
          (m.tokenAt self).step (2 ^ 256) call.locals.caller op = some (m'.tokenAt self) ∧
          View.Agree tokenVars (m.cells.com self) (m'.cells.com self)) := by
  obtain ⟨c, hc, hcode⟩ := h.code
  obtain ⟨o, ho, hgood, ⟨c', hc', hcode'⟩, hquiet, hend⟩ := call.perform_local h.good hc h.quiet
    (body_local hcode call.info)
  refine ⟨o.manager, by rw [Invocation.perform, ho]; rfl,
    ⟨hgood, ⟨c', hc', hcode'.trans hcode⟩, hquiet⟩, ?_⟩
  rcases hend with ⟨hsame, -⟩ | ⟨-, op, hop, hmint, hburn, hstep, hagree, -⟩
  · exact .inl hsame
  · exact .inr ⟨op, hop, hmint, hburn, hstep, hagree⟩

theorem perform_supply {self : Address} {m m' : ContractManager} (h : Deployed self m)
    {call : Invocation} (hcall : call.perform self m = some m') :
    Deployed self m' ∧ m'.balanceSum self = m.balanceSum self ∧
      m'.totalSupply self = m.totalSupply self := by
  obtain ⟨m'', hm'', hdeployed, hcases⟩ := perform_cases h call
  cases hm''.symm.trans hcall
  refine ⟨hdeployed, ?_⟩
  rw [ContractManager.balanceSum_eq, ContractManager.balanceSum_eq]
  rcases hcases with hsame | ⟨op, -, hmint, hburn, hstep, hagree⟩
  · rw [ContractManager.tokenAt, ContractManager.totalSupply, hsame]
    exact ⟨rfl, rfl⟩
  · have hsupply := Fungible.step_supply hstep
    rw [hmint, hburn] at hsupply
    refine ⟨hsupply, ?_⟩
    have hscalar := hagree (.scalar totalSupplyVar) (by simp [tokenVars, Loc.var])
    rw [ContractManager.totalSupply, hscalar]
    rfl

/-- **Supply and authorisation.**  Let an `ERC20` be created with any mint and be called any
    number of times, with any callers, data and commit flags.  The sum of the committed
    balances is the committed `_totalSupply`, which is the mint; and the next call comes to
    an end and takes `d > 0` from an address that is not its caller only if it is a
    `transferFrom` of `d` from that address, whose allowance for the caller it lowers by
    `d`. -/
theorem supply_and_authorisation {self creator : Address} {name symbol : Bytes}
    {decimals mint : Uint256} {c : DynamicContract} {m₀ m : ContractManager}
    {calls : List Invocation} (hnew : ERC20.new self creator name symbol decimals mint = .ok c)
    (h₀ : m₀.Good) (hc : m₀.contracts.lookup self = some c)
    (hrun : Machine.run (Invocation.perform self) calls m₀ = some m) :
    m.balanceSum self = m.totalSupply self ∧ m.totalSupply self = mint.val ∧
      ∀ call : Invocation, ∃ m', call.perform self m = some m' ∧
        ∀ a d, a ≠ call.locals.caller → 0 < d →
          (m'.tokenAt self).balance a + d = (m.tokenAt self).balance a →
          ∃ receiver, operation call.info = .ok (.transferFrom a receiver d) ∧
            (m'.tokenAt self).allowance a call.locals.caller + d =
              (m.tokenAt self).allowance a call.locals.caller := by
  obtain ⟨htoken, hsupply, hcode⟩ := new_token hnew
  have hquiet := new_quiet hnew
  have hcells := ContractManager.cells_of_lookup hc
  have hdeployed₀ : Deployed self m₀ := by
    refine ⟨h₀, ⟨c, hc, hcode⟩, ?_⟩
    rw [hcells.1, hcells.2.1]
    exact funext fun l => hquiet.1.quiet l (by rw [← Bool.not_eq_true, hquiet.1.used, hquiet.2]; simp)
  have hsum₀ : m₀.balanceSum self = mint.val := by
    rw [ContractManager.balanceSum_eq, ContractManager.tokenAt, hcells.1, htoken]
    simp [Fungible.supply, Function.update_apply]
  have htotal₀ : m₀.totalSupply self = mint.val := by
    rw [ContractManager.totalSupply, hcells.1, hsupply]
    rfl
  -- Every invocation keeps both sums.
  have hinv : Deployed self m ∧ m.balanceSum self = mint.val ∧ m.totalSupply self = mint.val := by
    refine Machine.run_invariant (P := fun _ _ => True)
      (I := fun m => Deployed self m ∧ m.balanceSum self = mint.val ∧ m.totalSupply self = mint.val)
      ?_ ⟨hdeployed₀, hsum₀, htotal₀⟩ (Machine.along_of_forall (fun _ _ => trivial) calls m₀) hrun
    rintro s call s' ⟨hd, hb, ht⟩ - hs
    obtain ⟨hd', hb', ht'⟩ := perform_supply hd hs
    exact ⟨hd', hb'.trans hb, ht'.trans ht⟩
  obtain ⟨hdeployed, hsum, htotal⟩ := hinv
  refine ⟨hsum.trans htotal.symm, htotal, fun call => ?_⟩
  obtain ⟨m', hm', -, hcases⟩ := perform_cases hdeployed call
  refine ⟨m', hm', fun a d ha hd hloss => ?_⟩
  rcases hcases with hsame | ⟨op, hop, -, -, hstep, -⟩
  · rw [ContractManager.tokenAt, hsame, ContractManager.tokenAt] at hloss
    omega
  · obtain ⟨receiver, rfl, hallow⟩ := Fungible.step_authorised hstep ha hd hloss
    exact ⟨receiver, hop, hallow⟩

/-- A manager with one contract. -/
def alone (a : Address) (c : DynamicContract) : ContractManager :=
  { contracts := (∅ : AssocMap Address DynamicContract).insert a c, balances := ∅
    locals := .init, rdposLocals := .init }

/-- An invocation by `caller`, to be committed. -/
def invocation (caller : Address) (functor : Nat) (args : List Abi.Value) : Invocation :=
  { accounts := ∅, depth := 0
    locals := { caller, origin := caller, value := 0, commit := true }
    info := { sender := caller, receiver := FixedStr.ofNat 20 9, gasLimit := 0, gasPrice := 0,
              value := 0, data := functorOf functor ++ Abi.encode args } }

/-- `1` allows `2` thirty of its hundred tokens and `2` moves ten of them to `3`. -/
theorem supply_and_authorisation_transferFrom :
    ∃ c m m' receiver, ERC20.new (.ofNat 20 9) (.ofNat 20 1) [] [] 18 100 = .ok c ∧
      Machine.run (Invocation.perform (.ofNat 20 9))
        [invocation (.ofNat 20 1) 0x095ea7b3 [.address (.ofNat 20 2), .uint256 30]]
        (alone (.ofNat 20 9) c) = some m ∧
      (invocation (.ofNat 20 2) 0x23b872dd [.address (.ofNat 20 1), .address (.ofNat 20 3),
        .uint256 10]).perform (.ofNat 20 9) m = some m' ∧
      m.balanceSum (.ofNat 20 9) = 100 ∧
      operation (invocation (.ofNat 20 2) 0x23b872dd [.address (.ofNat 20 1),
        .address (.ofNat 20 3), .uint256 10]).info = .ok (.transferFrom (.ofNat 20 1) receiver 10) ∧
      (m'.tokenAt (.ofNat 20 9)).allowance (.ofNat 20 1) (.ofNat 20 2) + 10 =
        (m.tokenAt (.ofNat 20 9)).allowance (.ofNat 20 1) (.ofNat 20 2) := by
  have heval : ((ERC20.new (.ofNat 20 9) (.ofNat 20 1) [] [] 18 100).toOption.bind fun c =>
      (Machine.run (Invocation.perform (.ofNat 20 9))
        [invocation (.ofNat 20 1) 0x095ea7b3 [.address (.ofNat 20 2), .uint256 30]]
        (alone (.ofNat 20 9) c)).bind fun m =>
      ((invocation (.ofNat 20 2) 0x23b872dd [.address (.ofNat 20 1), .address (.ofNat 20 3),
        .uint256 10]).perform (.ofNat 20 9) m).map fun m' =>
      ((m.tokenAt (.ofNat 20 9)).balance (.ofNat 20 1),
        (m'.tokenAt (.ofNat 20 9)).balance (.ofNat 20 1))) = some (100, 90) := by
    decide +kernel
  obtain ⟨c, hc, heval⟩ := Option.bind_eq_some_iff.mp heval
  obtain ⟨m, hm, heval⟩ := Option.bind_eq_some_iff.mp heval
  obtain ⟨m', hm', heval⟩ := Option.map_eq_some_iff.mp heval
  have hnew : ERC20.new (.ofNat 20 9) (.ofNat 20 1) [] [] 18 100 = .ok c := by
    cases h : ERC20.new (.ofNat 20 9) (.ofNat 20 1) [] [] 18 100 with
    | error e => rw [h] at hc; cases hc
    | ok c' => rw [h] at hc; cases hc; rfl
  have hlook : (alone (.ofNat 20 9) c).contracts.lookup (.ofNat 20 9) = some c :=
    AList.lookup_insert _
  have hgood : (alone (.ofNat 20 9) c).Good := by
    intro a d hd
    by_cases ha : a = .ofNat 20 9
    · subst ha
      cases hlook.symm.trans hd
      exact (new_quiet hnew).1
    · have hnone : (alone (.ofNat 20 9) c).contracts.lookup a = none := AList.lookup_insert_ne ha
      cases hnone.symm.trans hd
  obtain ⟨hsum, htotal, hcall⟩ := supply_and_authorisation hnew hgood hlook hm
  obtain ⟨m₁, hm₁, hauth⟩ := hcall (invocation (.ofNat 20 2) 0x23b872dd [.address (.ofNat 20 1),
    .address (.ofNat 20 3), .uint256 10])
  cases hm₁.symm.trans hm'
  obtain ⟨hbefore, hafter⟩ := Prod.mk.inj heval
  obtain ⟨receiver, hop, hallow⟩ := hauth (.ofNat 20 1) 10 (by decide) (by decide)
    (by rw [hbefore, hafter])
  exact ⟨c, m, m', receiver, hnew, hm, hm', hsum.trans htotal, hop, hallow⟩

end ERC20

end OrbiterSdk

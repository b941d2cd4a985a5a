import OrbiterSdk.Core.Solvency

namespace OrbiterSdk

/-!
# Withdrawals from the wrapper of tokens

Whether `withdraw` and `transferTo` pay depends on the wrapper's own record, on the tokens the
wrapper holds and on the payee's balance, which must not overflow:

* `callContract_foreign`, `callContract_supply` — what transactions keep of the addresses and of
  the supplies of the deployed tokens;
* `Sound` — the invariant of a run, by which the payee's balance cannot overflow;
* `Sound.callContract_payOut` — the transaction returns exactly when the record is above the
  value and the wrapper has the tokens;
* `ERC20Wrapper.payOut_exact_iff` — and where the wrapper itself sends nothing, the only
  withdrawal that is refused against its specification is that of the whole record.
-/

open scoped FixedStr

/-! ### Addresses and supplies -/

theorem New.supply {C : Crypto} {a : Address} {c : DynamicContract} (h : New C a c) :
    (tokenOf c.store.com).supply < 2 ^ 256 := by
  by_cases hname : c.contractName = "ERC20"
  · cases h with
    | erc20 creator name symbol decimals mintValue c hc =>
      have hsupply : (tokenOf c.store.com).supply = mintValue.val := by
        rw [(ERC20.new_token hc).1]
        simp [Fungible.supply, Function.update_apply]
      rw [hsupply]
      exact mintValue.isLt
    | erc20Wrapper => exact absurd hname (show "ERC20Wrapper" ≠ "ERC20" by decide)
    | nativeWrapper name symbol decimals =>
      exact absurd hname (show "NativeWrapper" ≠ "ERC20" by decide)
  · have hzero : ∀ k, (tokenOf c.store.com).balance k = 0 := by
      intro k
      simp only [tokenOf, h.entry balancesVar (Or.inr hname) k]
      rfl
    have hsupply : (tokenOf c.store.com).supply = 0 := Finset.sum_eq_zero fun k _ => hzero k
    rw [hsupply]
    exact Nat.two_pow_pos 256

namespace ContractManager

variable {C : Crypto} {accounts : Accounts} {depth : Nat} {pp : Bool} {m : ContractManager}
  {tx : TxBlock} {o : TxOutcome} {a : Address}

/-- No contract is deployed at the address of a protocol contract. -/
def Foreign (m : ContractManager) : Prop := ∀ a ∈ m.contracts, a ∉ protocolContractAddresses

theorem Foreign.congr {m' : ContractManager} (h : m.Foreign) (hd : m'.deployed = m.deployed) :
    m'.Foreign := by
  intro a ha
  have hkeys : m'.contracts.keys = m.contracts.keys := congrArg Prod.fst hd
  have ha' : a ∈ m'.contracts.keys := ha
  rw [hkeys] at ha'
  exact h a ha'

theorem callManager_foreign {info : EthCallInfo} (h : m.Foreign)
    (ho : callManager C accounts m info = some o) : o.manager.Foreign := by
  unfold callManager at ho
  dsimp only at ho
  split at ho
  · cases ho
  · cases ho
    exact h
  · rename_i m' hm'
    cases ho
    rcases ethCall_checked hm' with rfl | ⟨-, b, c, hb, -, rfl⟩
    · exact h
    · intro a ha
      rcases AList.mem_insert _ |>.mp ha with rfl | ha
      · exact (checkDeployment_ok hb).2.1
      · exact h a ha

theorem callContract_foreign (hrest : m.Resting) (h : m.Foreign)
    (ho : m.callContract C depth pp accounts tx = some o) : o.manager.Foreign := by
  rcases callContract_cases ho with ⟨-, ho'⟩ | ⟨-, rfl⟩ | ⟨-, rfl⟩ | ⟨-, hr, ho'⟩
  · exact callManager_foreign (m := m.setCommit true) h ho'
  · exact h
  · exact h
  · obtain ⟨o', -, -, -, hdep, -⟩ := callDeployed_settled hrest hr ho'
    exact h.congr hdep

theorem callContract_of_mem (h : m.Foreign) (hr : tx.receiver ∈ m.contracts) :
    m.callContract C depth pp accounts tx =
      callDeployed depth pp accounts (m.setCommit true) tx.txToCallInfo := by
  have hforeign := h _ hr
  have hmanager : tx.receiver ≠ contractManagerAddress := by
    intro he
    rw [he] at hforeign
    exact hforeign (by simp [protocolContractAddresses])
  have hrdpos : tx.receiver ≠ rdPoSAddress := by
    intro he
    rw [he] at hforeign
    exact hforeign (by simp [protocolContractAddresses])
  rw [callContract, if_neg hmanager, if_neg hrdpos]
  exact if_neg (not_not.mpr hr)

theorem callERC20_supply (hrest : m.Resting) {c : DynamicContract}
    (hc : m.contracts.lookup tx.receiver = some c) (hkind : c.Is C tx.receiver .erc20)
    (ho : callDeployed depth pp accounts (m.setCommit true) tx.txToCallInfo = some o) :
    (o.manager.tokenAt tx.receiver).supply = (m.tokenAt tx.receiver).supply := by
  have hr : tx.receiver ∈ m.contracts := AssocMap.mem_iff_lookup.mpr ⟨c, hc⟩
  obtain ⟨o', hcall, -, hcom, -, -⟩ := callDeployed_settled hrest hr ho
  have hrest₁ := entered_resting hrest tx
  rw [tokenAt, hcom, tokenAt, ← entered_com hr]
  cases depth with
  | zero => cases hcall
  | succ depth =>
    obtain ⟨o₂, ho₂, -, hend⟩ := ethCall_local accounts depth hrest₁.good (entered_lookup hc)
      (hrest₁.quiet _) (ERC20.body_local (c := { c with locals := callLocals tx }) hkind.2
        tx.txToCallInfo)
    cases ho₂.symm.trans hcall
    cases hend with
    | unchanged hsame _ => rw [hsame]
    | committed g _ _ hP hsame =>
      obtain ⟨op, -, hmint, hburn, hstep, -⟩ := hP
      have hsupply := Fungible.step_supply hstep
      rw [hmint, hburn] at hsupply
      have hg : o'.manager.cells.com tx.receiver = g := by
        rw [hsame]
        exact Function.update_self _ _ _
      rw [hg]
      exact hsupply

theorem callContract_supply (hC : Selectors C) (hrest : m.Resting) (hstd : m.Standard C)
    (hforeign : m.Foreign) (ho : m.callContract C depth pp accounts tx = some o)
    {c : DynamicContract} (hc : m.contracts.lookup a = some c) (hkind : c.Is C a .erc20) :
    (o.manager.tokenAt a).supply = (m.tokenAt a).supply := by
  have ha : a ∈ m.contracts := AssocMap.mem_iff_lookup.mpr ⟨c, hc⟩
  by_cases har : a = tx.receiver
  · subst har
    rw [callContract_of_mem hforeign ha] at ho
    exact callERC20_supply hrest hc hkind ho
  · obtain ⟨paid, ht, -⟩ := callContract_transition hC hrest hstd ho
    unfold tokenAt
    cases ht with
    | idle _ hcom => rw [hcom]
    | deploy b d hb _ hcon =>
      have hne : a ≠ b := fun he => hb (he ▸ ha)
      rw [com_insert hcon, Function.update_of_ne hne]
    | token op g _ _ _ _ hcom => rw [hcom, Function.update_of_ne har]
    | wrapper _ he => exact he.supply a

end ContractManager

/-! ### Runs of transactions -/

/-- What holds between transactions: no variable is uncommitted, the contracts are those of the
    repository at addresses of their own, and no supply overflows. -/
structure Sound (C : Crypto) (m : ContractManager) : Prop where
  resting : m.Resting
  standard : m.Standard C
  foreign : m.Foreign
  supply : ∀ a c, m.contracts.lookup a = some c → c.Is C a .erc20 →
    (m.tokenAt a).supply < 2 ^ 256

namespace Sound

variable {C : Crypto} {m : ContractManager}

theorem empty (h : m.contracts = ∅) : Sound C m where
  resting := ERC20Wrapper.resting_of_empty h
  standard := ERC20Wrapper.standard_of_empty C h
  foreign := by
    intro a ha
    rw [h] at ha
    exact absurd ha (AList.notMem_empty a)
  supply := by
    intro a c hc
    rw [h] at hc
    cases hc

theorem step (hC : Selectors C) (h : Sound C m) {depth : Nat} {pp : Bool} {accounts : Accounts}
    {tx : TxBlock} {o : ContractManager.TxOutcome}
    (ho : m.callContract C depth pp accounts tx = some o) : Sound C o.manager := by
  obtain ⟨paid, ht, -⟩ := ContractManager.callContract_transition hC h.resting h.standard ho
  refine ⟨(ContractManager.callContract_effect h.resting ho).resting, h.standard.transition ht,
    ContractManager.callContract_foreign h.resting h.foreign ho, ?_⟩
  intro a c hc hkind
  rcases ContractManager.lookup_transition ht hc with ⟨c₀, hc₀, hname⟩ | ⟨hnew, hcom⟩
  · obtain ⟨kind, hkind₀⟩ := h.standard a c₀ hc₀
    have hk : kind = .erc20 := Kind.name_inj (hkind₀.1.symm.trans (hname.trans hkind.1))
    subst hk
    rw [ContractManager.callContract_supply hC h.resting h.standard h.foreign ho hc₀ hkind₀]
    exact h.supply a c₀ hc₀ hkind₀
  · rw [ContractManager.tokenAt, hcom]
    exact hnew.supply

/-- **Every run** from a manager without contracts. -/
theorem of_run (hC : Selectors C) {m₀ : ContractManager} (h₀ : m₀.contracts = ∅)
    {calls : List ERC20Wrapper.Call}
    (hrun : Machine.run (ERC20Wrapper.Call.perform C) calls m₀ = some m) : Sound C m := by
  refine Machine.run_invariant (P := fun _ _ => True) (I := Sound C) ?_ (empty h₀)
    (Machine.along_of_forall (fun _ _ => trivial) calls m₀) hrun
  intro s call s' h _ hs
  obtain ⟨o, ho, rfl⟩ := Option.map_eq_some_iff.mp hs
  exact h.step hC ho

end Sound

theorem Backed.record_le {w : Address} {com : Address → View} (h : Backed w com)
    {token user : Address} {x : Uint256} (hx : (recordsOf (com w) token).lookup user = some x) :
    x.val ≤ (tokenOf (com token)).balance w := by
  have hweight := AssocMap.weight_le_total (fun z : Uint256 => z.val)
    (recordsOf (com w) token) user
  rw [AssocMap.weight_of_lookup hx] at hweight
  exact hweight.trans (h.records token)

/-! ### The transaction -/

/-- The call asks the wrapper to pay `value` of `token` to `payee`: `withdraw`, which pays its
    sender, or `transferTo`. -/
def EthCallInfo.PaysOut (info : EthCallInfo) (token payee : Address) (value : Uint256) : Prop :=
  (info.functor = functorOf 0xf3fef3a3 ∧ decodeAddressUint info = .ok (token, value) ∧
      payee = info.sender) ∨
    (info.functor = functorOf 0xa5f2a152 ∧
      decodeAddressAddressUint info = .ok (token, payee, value))

theorem EthCallInfo.PaysOut.body {C : Crypto} {w : Address} {c : DynamicContract}
    (hc : c.Is C w .erc20Wrapper) {info : EthCallInfo} {token payee : Address} {value : Uint256}
    (h : info.PaysOut token payee value) :
    ∃ choose : Address → Address, choose info.sender = payee ∧
      c.body info = ERC20Wrapper.payOut C token choose value := by
  have hfn : c.function info.functor = ERC20Wrapper.functions C w info.functor := by
    rw [DynamicContract.function, DynamicContract.isPayableFunction, hc.2]
    rfl
  unfold DynamicContract.body
  rw [hfn, ERC20Wrapper.functions]
  rcases h with ⟨hfunctor, hdecode, rfl⟩ | ⟨hfunctor, hdecode⟩
  · refine ⟨fun caller => caller, rfl, ?_⟩
    rw [if_pos hfunctor]
    dsimp only
    rw [argsAddressUint_eq, hdecode]
    rfl
  · refine ⟨fun _ => payee, rfl, ?_⟩
    rw [if_neg (by rw [hfunctor]; decide), if_pos hfunctor]
    dsimp only
    rw [argsAddressAddressUint_eq, hdecode]
    rfl

namespace ContractManager

variable {C : Crypto} {m : ContractManager} {tx : TxBlock}

/-- What the wrapper `w` has recorded of `token` for `user`, if anything. -/
def record (m : ContractManager) (w token user : Address) : Option Uint256 :=
  (recordsOf (m.cells.com w) token).lookup user

theorem settle_result (pp : Bool) (accounts : Accounts) {info : EthCallInfo} {o : Outcome}
    (h : o.manager.isPayable info = false) : (settle pp accounts info o).result = o.result := by
  rcases settle_cases pp accounts info o with
    ⟨e, hr, he⟩ | ⟨hr, -, he⟩ | ⟨-, hpay, -⟩ | ⟨-, hpay, -⟩
  · rw [he, hr]
  · rw [he, hr]
  · rw [h] at hpay
    cases hpay
  · rw [h] at hpay
    cases hpay

/-- A transaction that asks a wrapper to pay ends as the wrapper's function does. -/
theorem callContract_wrapper (hC : Selectors C) (h : m.Resting) (hstd : m.Standard C)
    (hforeign : m.Foreign) {c : DynamicContract} (hc : m.contracts.lookup tx.receiver = some c)
    (hkind : c.Is C tx.receiver .erc20Wrapper) {token payee : Address} {value : Uint256}
    (hpays : tx.txToCallInfo.PaysOut token payee value) (depth : Nat) (pp : Bool)
    (accounts : Accounts) :
    ∃ o o', m.callContract C (depth + 2) pp accounts tx = some o ∧
      PayOut C accounts (depth + 1) tx.receiver (callLocals tx) (m.entered tx) token payee value
        o' ∧ o.result = o'.result ∧
      o.manager.cells.com = (finish tx.receiver o').manager.cells.com := by
  have hr : tx.receiver ∈ m.contracts := AssocMap.mem_iff_lookup.mpr ⟨c, hc⟩
  have hframe := entered_frame h hstd hc hkind
  have hquiet := (entered_resting h tx).quiet tx.receiver
  obtain ⟨choose, hchoose, hbody⟩ := hpays.body (c := { c with locals := callLocals tx }) hkind
  obtain ⟨o', ho'⟩ := payOut_ends hC accounts depth hframe token choose value
  have hpay := payOut_run hC hframe rfl hquiet ho'
  rw [show choose (callLocals tx).caller = payee from hchoose] at hpay
  have hshape : (finish tx.receiver o').manager.shape = (m.entered tx).shape :=
    (finish_shape _ _).trans
      (runProg_steps (ethCall_sound accounts (depth + 1)) _ _ hframe.good hframe.mem ho').shape
  have hplain : (finish tx.receiver o').manager.isPayable tx.txToCallInfo = false := by
    rw [isPayable_of_shape (hshape.trans (entered_shape m tx))]
    exact isPayable_wrapper (m := m.setCommit true) tx.txToCallInfo hc hkind
  refine ⟨settle pp accounts tx.txToCallInfo (finish tx.receiver o'), o', ?_, hpay, ?_, ?_⟩
  · rw [callContract_of_mem hforeign hr]
    show (OrbiterSdk.ethCall accounts (depth + 2) tx.receiver tx.txToCallInfo
      (m.entered tx)).map _ = _
    rw [ethCall_succ (entered_lookup hc), hbody, ho']
    rfl
  · rw [settle_result pp accounts hplain, finish_result]
  · have hmem : tx.receiver ∈ (finish tx.receiver o').manager.contracts :=
      (mem_of_shape hshape).mpr hframe.mem
    exact (settle_same pp accounts tx.txToCallInfo hmem).2.1

/-- What a withdrawal that returns has done. -/
structure Paid (w token user payee : Address) (value : Uint256) (m m' : ContractManager) :
    Prop where
  record : ∃ x y, m.record w token user = some x ∧ m'.record w token user = some y ∧
    y.val + value.val = x.val
  receiver : (m'.tokenAt token).balance payee = (m.tokenAt token).balance payee + value.val
  wrapper : (m'.tokenAt token).balance w + value.val = (m.tokenAt token).balance w

end ContractManager

section

open ContractManager

/-- **Withdrawals.**  A transaction that asks the wrapper to pay comes to an end.  It returns
    exactly when the sender's record is above the value and the wrapper holds the value, and
    then the record, the payee's and the wrapper's balance have changed by the value. -/
theorem Sound.callContract_payOut {C : Crypto} (hC : Selectors C) {m : ContractManager}
    {tx : TxBlock} (h : Sound C m) {cw : DynamicContract}
    (hcw : m.contracts.lookup tx.receiver = some cw) (hkw : cw.Is C tx.receiver .erc20Wrapper)
    {token : Address} {ct : DynamicContract} (hct : m.contracts.lookup token = some ct)
    (hkt : ct.Is C token .erc20) {payee : Address} {value : Uint256}
    (hpays : tx.txToCallInfo.PaysOut token payee value) (hpayee : payee ≠ tx.receiver)
    (depth : Nat) (pp : Bool) (accounts : Accounts) :
    ∃ o, m.callContract C (depth + 2) pp accounts tx = some o ∧
      (o.result = .ok () ↔ ∃ x, m.record tx.receiver token tx.sender = some x ∧ value < x ∧
        value.val ≤ (m.tokenAt token).balance tx.receiver) ∧
      (o.result = .ok () → Paid tx.receiver token tx.sender payee value m o.manager) := by
  have hr : tx.receiver ∈ m.contracts := AssocMap.mem_iff_lookup.mpr ⟨cw, hcw⟩
  obtain ⟨o, o', ho, hpay, hresult, hcom⟩ := callContract_wrapper hC h.resting h.standard h.foreign
    hcw hkw hpays depth pp accounts
  have hentered := entered_com hr
  refine ⟨o, ho, ?_⟩
  rw [hresult]
  cases hpay with
  | refused e he hle _ =>
    rw [hentered] at hle
    rw [he]
    refine ⟨⟨fun hok => ?_, ?_⟩, fun hok => ?_⟩
    · cases hok
    · rintro ⟨x, hx, hlt, -⟩
      exact absurd (hle x hx) (not_le.mpr hlt)
    · cases hok
  | threw e m₁ oc he hframe hcom₁ hdep hoc hoe _ =>
    rw [he]
    refine ⟨⟨fun hok => ?_, ?_⟩, fun hok => ?_⟩
    · cases hok
    · -- A transfer of tokens that the wrapper has cannot have thrown.
      rintro ⟨x, -, -, hheld⟩
      obtain ⟨t, ht⟩ := Fungible.exists_transfer hpayee hheld (h.supply token ct hct hkt)
      rw [tokenAt] at ht
      have hdep' : m.deployed = m₁.deployed := (hdep.trans (entered_deployed m tx)).symm
      obtain ⟨c₁, hc₁, hiff⟩ := is_of_deployed (C := C) hdep' hct
      rw [← hentered, ← hcom₁] at ht
      have hto : (payInfo C tx.receiver token payee value).receiver = token := rfl
      rw [← hto] at hc₁ hiff hkt ht
      obtain ⟨oc', hoc', hok⟩ := callToken_returns hC accounts depth hframe rfl rfl rfl hc₁
        ((hiff _).mp hkt) ht
      cases hoc'.symm.trans hoc
      rw [hoe] at hok
      cases hok
    · cases hok
  | paid x y g hok hx hlt hy hne hstep _ hend =>
    rw [hentered] at hx hstep hend
    have hwrapper := Fungible.step_balance hstep tx.receiver
    rw [Fungible.Op.outOf, Fungible.Op.into, if_pos rfl, if_neg hpayee] at hwrapper
    have hheld : value.val ≤ (m.tokenAt token).balance tx.receiver := by
      rw [tokenAt]
      omega
    refine ⟨⟨fun _ => ⟨x, hx, hlt, hheld⟩, fun _ => hok⟩, fun _ => ?_⟩
    have htoken : o.manager.cells.com token = g := by
      rw [hcom, hend, Function.update_of_ne hne, Function.update_self]
    have hrecords : recordsOf (o.manager.cells.com tx.receiver) token =
        (recordsOf (m.cells.com tx.receiver) token).insert tx.sender y := by
      rw [hcom, hend, Function.update_self]
      exact recordsOf_of_some (Function.update_self _ _ _)
    refine ⟨⟨x, y, hx, ?_, hy⟩, ?_, ?_⟩
    · rw [record, hrecords, AList.lookup_insert]
    · have hbal := Fungible.step_balance hstep payee
      rw [Fungible.Op.outOf, Fungible.Op.into, if_neg (fun he => hpayee he.symm), if_pos rfl] at hbal
      rw [tokenAt, htoken]
      exact hbal
    · rw [tokenAt, htoken]
      exact hwrapper

end

/-! ### The specification -/

namespace ERC20Wrapper

/-- The withdrawal does what it is for: it returns exactly when the record covers the value,
    and then it has paid. -/
structure ExactPayOut (w token user payee : Address) (value : Uint256) (m : ContractManager)
    (o : ContractManager.TxOutcome) : Prop where
  succeeds : o.result = .ok () ↔ ∃ x, m.record w token user = some x ∧ value ≤ x
  pays : o.result = .ok () → ContractManager.Paid w token user payee value m o.manager

/-- **Withdrawals are exact but for the whole record.**  Let a manager start without contracts
    and execute any transactions.  Then a `withdraw` or `transferTo` of an `ERC20` from the
    wrapper at `tx.receiver`, to any other payee, comes to an end.  It is as specified unless
    the value is all that is recorded, for `itUser->second <= value` refuses that too, or the
    wrapper has lost what it recorded.  The latter needs a transaction sent from the wrapper's
    own address; without one only the whole record is refused. -/
theorem payOut_exact_iff {C : Crypto} (hC : Selectors C) {m₀ m : ContractManager}
    (h₀ : m₀.contracts = ∅) {calls : List Call}
    (hrun : Machine.run (Call.perform C) calls m₀ = some m) {tx : TxBlock} {cw : DynamicContract}
    (hcw : m.contracts.lookup tx.receiver = some cw) (hkw : cw.Is C tx.receiver .erc20Wrapper)
    {token : Address} {ct : DynamicContract} (hct : m.contracts.lookup token = some ct)
    (hkt : ct.Is C token .erc20) {payee : Address} {value : Uint256}
    (hpays : tx.txToCallInfo.PaysOut token payee value) (hpayee : payee ≠ tx.receiver)
    (depth : Nat) (pp : Bool) (accounts : Accounts) :
    ∃ o, m.callContract C (depth + 2) pp accounts tx = some o ∧
      (ExactPayOut tx.receiver token tx.sender payee value m o ↔
        m.record tx.receiver token tx.sender ≠ some value ∧
        ∀ x, m.record tx.receiver token tx.sender = some x → value < x →
          value.val ≤ (m.tokenAt token).balance tx.receiver) ∧
      ((∀ call ∈ calls, call.tx.sender ≠ tx.receiver) →
        (ExactPayOut tx.receiver token tx.sender payee value m o ↔
          m.record tx.receiver token tx.sender ≠ some value)) := by
  have hsound : Sound C m := Sound.of_run hC h₀ hrun
  obtain ⟨o, ho, hiff, hpaid⟩ := hsound.callContract_payOut hC hcw hkw hct hkt hpays hpayee depth pp
    accounts
  have hexact_iff : ExactPayOut tx.receiver token tx.sender payee value m o ↔
      m.record tx.receiver token tx.sender ≠ some value ∧
      ∀ x, m.record tx.receiver token tx.sender = some x → value < x →
        value.val ≤ (m.tokenAt token).balance tx.receiver := by
    constructor
    · intro hexact
      constructor
      · -- A record that is just covered is not paid.
        intro hall
        obtain ⟨x, hx, hlt, -⟩ := hiff.mp (hexact.succeeds.mpr ⟨value, hall, le_refl _⟩)
        cases hall.symm.trans hx
        exact lt_irrefl _ hlt
      · intro x hx hlt
        obtain ⟨-, -, -, hheld⟩ := hiff.mp (hexact.succeeds.mpr ⟨x, hx, hlt.le⟩)
        exact hheld
    · rintro ⟨hne, hheld⟩
      refine ⟨hiff.trans ⟨?_, ?_⟩, hpaid⟩
      · rintro ⟨x, hx, hlt, -⟩
        exact ⟨x, hx, hlt.le⟩
      · rintro ⟨x, hx, hle⟩
        have hxv : value ≠ x := by
          intro he
          subst he
          exact hne hx
        have hlt := lt_of_le_of_ne hle hxv
        exact ⟨x, hx, hlt, hheld x hx hlt⟩
  refine ⟨o, ho, hexact_iff, fun hw => hexact_iff.trans ⟨And.left, fun hne => ⟨hne, ?_⟩⟩⟩
  intro x hx hlt
  have hlt' : value.val < x.val := hlt
  exact hlt'.le.trans ((backed_of_run hC h₀ hw hrun).record_le hx)

/-- The genesis account creates an `ERC20` and a wrapper and deposits fifty tokens. -/
def fifty : List Call :=
  [Recorded.createERC20 100, Recorded.createWrapper, Recorded.approve 50,
    Recorded.deposit 50].map (Call.mk ∅ false 2)

theorem fifty_selectors : Selectors Recorded.crypto := ⟨by decide +kernel, by decide +kernel⟩

theorem fifty_run :
    ∃ m cw ct, Machine.run (Call.perform Recorded.crypto) fifty ⟨∅, ∅, .init, .init⟩ = some m ∧
      m.contracts.lookup Recorded.secondContract = some cw ∧
      cw.Is Recorded.crypto Recorded.secondContract .erc20Wrapper ∧
      m.contracts.lookup Recorded.firstContract = some ct ∧
      ct.Is Recorded.crypto Recorded.firstContract .erc20 ∧
      m.record Recorded.secondContract Recorded.firstContract contractCreator = some 50 := by
  have hlook : (Machine.run (Call.perform Recorded.crypto) fifty ⟨∅, ∅, .init, .init⟩).map (fun m =>
      ((m.contracts.lookup Recorded.secondContract).map DynamicContract.contractName,
        (m.contracts.lookup Recorded.firstContract).map DynamicContract.contractName,
        m.record Recorded.secondContract Recorded.firstContract contractCreator)) =
      some (some Kind.erc20Wrapper.name, some Kind.erc20.name, some 50) := by
    decide +kernel
  obtain ⟨m, hm, hlook⟩ := Option.map_eq_some_iff.mp hlook
  obtain ⟨hw, hlook⟩ := Prod.mk.inj hlook
  obtain ⟨ht, hrecord⟩ := Prod.mk.inj hlook
  obtain ⟨cw, hcw, hnamew⟩ := Option.map_eq_some_iff.mp hw
  obtain ⟨ct, hct, hnamet⟩ := Option.map_eq_some_iff.mp ht
  have hsound : Sound Recorded.crypto m := Sound.of_run fifty_selectors rfl hm
  -- The name of a contract of the repository says which code it has.
  have his : ∀ {a : Address} {c : DynamicContract} {kind : Kind}, m.contracts.lookup a = some c →
      c.contractName = kind.name → c.Is Recorded.crypto a kind := by
    intro a c kind hc hname
    obtain ⟨kind', hkind'⟩ := hsound.standard a c hc
    cases Kind.name_inj (hname.symm.trans hkind'.1)
    exact hkind'
  exact ⟨m, cw, ct, hm, hcw, his hcw hnamew, hct, his hct hnamet, hrecord⟩

/-- Twenty of fifty tokens are paid. -/
theorem payOut_exact_iff_twenty :
    ∃ m o, Machine.run (Call.perform Recorded.crypto) fifty ⟨∅, ∅, .init, .init⟩ = some m ∧
      m.record Recorded.secondContract Recorded.firstContract contractCreator = some 50 ∧
      m.callContract Recorded.crypto 2 false ∅ (Recorded.withdraw 20) = some o ∧
      ExactPayOut Recorded.secondContract Recorded.firstContract contractCreator contractCreator
        20 m o := by
  obtain ⟨m, cw, ct, hm, hcw, hkw, hct, hkt, hrecord⟩ := fifty_run
  have hpays : (Recorded.withdraw 20).txToCallInfo.PaysOut Recorded.firstContract contractCreator
      20 := Or.inl ⟨by decide +kernel, by decide +kernel, rfl⟩
  have hsender : ∀ call ∈ fifty, call.tx.sender ≠ Recorded.secondContract := by decide +kernel
  have hpayee : contractCreator ≠ Recorded.secondContract := by decide +kernel
  have hwrapper : (Recorded.withdraw 20).receiver = Recorded.secondContract := rfl
  rw [← hwrapper] at hcw hkw hsender hpayee
  obtain ⟨o, ho, -, hiff⟩ := payOut_exact_iff fifty_selectors rfl hm hcw hkw hct hkt hpays hpayee
    0 false ∅
  refine ⟨m, o, hm, hrecord, ho, (hiff hsender).mpr ?_⟩
  show m.record Recorded.secondContract Recorded.firstContract contractCreator ≠ some 20
  rw [hrecord]
  decide

/-- All fifty are not: the record covers them and the call throws. -/
theorem payOut_whole_refused :
    ∃ m o, Machine.run (Call.perform Recorded.crypto) fifty ⟨∅, ∅, .init, .init⟩ = some m ∧
      m.record Recorded.secondContract Recorded.firstContract contractCreator = some 50 ∧
      m.callContract Recorded.crypto 2 false ∅ (Recorded.withdraw 50) = some o ∧
      o.result = .error (.runtimeError "Not enough balance") ∧
      ¬ ExactPayOut Recorded.secondContract Recorded.firstContract contractCreator
        contractCreator 50 m o := by
  have hlook : (Machine.run (Call.perform Recorded.crypto) fifty ⟨∅, ∅, .init, .init⟩).bind (fun m =>
      (m.callContract Recorded.crypto 2 false ∅ (Recorded.withdraw 50)).map fun o =>
        (m.record Recorded.secondContract Recorded.firstContract contractCreator, o.result)) =
      some (some 50, .error (.runtimeError "Not enough balance")) := by
    decide +kernel
  obtain ⟨m, hm, hlook⟩ := Option.bind_eq_some_iff.mp hlook
  obtain ⟨o, ho, hlook⟩ := Option.map_eq_some_iff.mp hlook
  obtain ⟨hrecord, hresult⟩ := Prod.mk.inj hlook
  refine ⟨m, o, hm, hrecord, ho, hresult, ?_⟩
  intro hexact
  have hok := hexact.succeeds.mpr ⟨50, hrecord, le_refl _⟩
  rw [hresult] at hok
  cases hok

end ERC20Wrapper

end OrbiterSdk

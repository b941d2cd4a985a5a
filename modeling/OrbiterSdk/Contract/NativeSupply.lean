import OrbiterSdk.Contract.Token
import OrbiterSdk.Lib.Observation

namespace OrbiterSdk.NativeWrapper

/-!
# The supply a `NativeWrapper` reports

`deposit` and `withdraw` change `_balances`, but nothing ever changes `_totalSupply`, which
the constructor leaves at zero.

* `perform_cases` — one invocation: nothing is committed, or an operation is performed on the
  token;
* `deposit_returns` — a deposit that does not overflow returns;
* `supply_iff` — `totalSupply()` is the sum of the balances throughout a run exactly if no
  deposit of a positive value is committed in it.
-/

open ERC20 (Invocation)

open scoped FixedStr

/-- The call commits a deposit of a positive value. -/
def Deposits (call : Invocation) : Prop :=
  call.info.functor = functorOf 0xd0e30db0 ∧ call.locals.commit = true ∧ 0 < call.locals.value.val

/-! ### The code -/

/-- Payable functions come first. -/
theorem function_eq {self : Address} {c : DynamicContract} (hc : c.code = NativeWrapper.code self)
    (functor : Bytes) :
    c.function functor = (payableFunctions functor).or (ERC20.functions functor) := by
  rw [DynamicContract.function, DynamicContract.isPayableFunction, hc]
  show (if (payableFunctions functor).isSome = true then payableFunctions functor
    else ERC20.functions functor) = _
  cases payableFunctions functor with
  | none => rfl
  | some fn => rfl

/-- The code performs an operation on the token, which puts in the value of a deposit and
    otherwise nothing. -/
theorem body_local {accounts : Accounts} {run : Callee} {self : Address} {l : ContractLocals}
    {f : View} {c : DynamicContract} (hc : c.code = NativeWrapper.code self)
    (info : EthCallInfo) :
    Local accounts run self l f (c.body info) fun g es =>
      ∃ op, op.minted = (if info.functor = functorOf 0xd0e30db0 then l.value.val else 0) ∧
        Performs self l.caller f op g es := by
  refine Local.body fun fn hfn => ?_
  rw [function_eq hc, payableFunctions] at hfn
  by_cases hdeposit : info.functor = functorOf 0xd0e30db0
  · rw [if_pos hdeposit] at hfn ⊢
    cases hfn
    exact deposit_local.mono fun g es hg => ⟨.mint l.value.val, rfl, hg⟩
  rw [if_neg hdeposit] at hfn ⊢
  by_cases hwithdraw : info.functor = functorOf 0x2e1a7d4d
  · rw [if_pos hwithdraw] at hfn
    cases hfn
    refine Local.ofExcept fun args _ => Local.ofExcept fun x _ => ?_
    exact (withdraw_local x).mono fun g es hg => ⟨.burn x.val, rfl, hg⟩
  · rw [if_neg hwithdraw] at hfn
    refine (ERC20.functions_local hfn).mono fun g es hg => ?_
    obtain ⟨op, -, hmint, -, hperf⟩ := hg
    exact ⟨op, hmint, hperf⟩

theorem deposit_returns {accounts : Accounts} {run : Callee} {self : Address} {l : ContractLocals}
    {f : View} (hfits : (tokenOf f).balance l.caller + l.value.val < 2 ^ 256) :
    Returns accounts run self l f deposit := by
  refine Returns.getCaller (Returns.getValue ?_)
  exact Returns.updateEntry (y := ⟨_, hfits⟩) (uadd_eq_ok.mpr rfl) Returns.done

/-! ### One invocation -/

/-- A `NativeWrapper` between invocations; its supply is still zero. -/
structure Deployed (a : Address) (m : ContractManager) : Prop where
  good : m.Good
  code : ∃ c, m.contracts.lookup a = some c ∧ c.code = NativeWrapper.code a
  quiet : m.cells.cur a = m.cells.com a
  supply : m.totalSupply a = 0

theorem ethCall_deposit {self : Address} {m : ContractManager} (h : Deployed self m)
    (hempty : m.balanceSum self = 0) {call : Invocation}
    (hcall : call.info.functor = functorOf 0xd0e30db0) {o : Outcome}
    (ho : ethCall call.accounts (call.depth + 1) self call.info
      (m.modifyLocals self fun _ => call.locals) = some o) : o.result = .ok () := by
  obtain ⟨c, hc, hcode⟩ := h.code
  have hc₁ : (m.modifyLocals self fun _ => call.locals).contracts.lookup self =
      some { c with locals := call.locals } := by
    rw [ContractManager.modifyLocals, ContractManager.lookup_modifyContract, if_pos rfl, hc]
    rfl
  have hbody : DynamicContract.body { c with locals := call.locals } call.info = deposit := by
    have hfn : DynamicContract.function { c with locals := call.locals } call.info.functor =
        some fun _ => deposit := by
      rw [hcall]
      exact function_eq (c := { c with locals := call.locals }) hcode _
    unfold DynamicContract.body
    rw [hfn]
  -- an empty token has no balances
  have hbalance : (tokenOf c.store.cur).balance call.locals.caller = 0 := by
    rw [ContractManager.balanceSum_eq, Fungible.supply, Finset.sum_eq_zero_iff] at hempty
    rw [← (ContractManager.cells_of_lookup hc).2.1, h.quiet]
    exact hempty call.locals.caller (Finset.mem_univ _)
  have hfits : (tokenOf c.store.cur).balance call.locals.caller + call.locals.value.val <
      2 ^ 256 := by
    rw [hbalance, Nat.zero_add]
    exact call.locals.value.isLt
  obtain ⟨o₁, ho₁, hok⟩ := deposit_returns hfits _ _ (ContractManager.good_modifyLocals h.good _ _)
    hc₁ rfl rfl
  rw [ethCall_succ hc₁, hbody, ho₁] at ho
  cases ho
  rw [finish_result, hok]

/-- **One invocation** comes to an end.  Either nothing is committed, or an operation is
    performed on the token and nothing else is touched. -/
theorem perform_cases {self : Address} {m : ContractManager} (h : Deployed self m)
    (call : Invocation) :
    ∃ o, ethCall call.accounts (call.depth + 1) self call.info
        (m.modifyLocals self fun _ => call.locals) = some o ∧
      Deployed self o.manager ∧
      (o.manager.cells.com self = m.cells.com self ∧
          (o.result = .ok () → call.locals.commit = false) ∨
        call.locals.commit = true ∧ ∃ op : Fungible.Op Address,
          op.minted = (if call.info.functor = functorOf 0xd0e30db0 then call.locals.value.val
            else 0) ∧
          (m.tokenAt self).step (2 ^ 256) call.locals.caller op =
            some (o.manager.tokenAt self)) := by
  obtain ⟨c, hc, hcode⟩ := h.code
  obtain ⟨o, ho, hgood, ⟨c', hc', hcode'⟩, hquiet, hend⟩ := call.perform_local h.good hc h.quiet
    (body_local hcode call.info)
  have hsupply : o.manager.totalSupply self = 0 := by
    rw [← h.supply, ContractManager.totalSupply, ContractManager.totalSupply]
    rcases hend with ⟨hsame, -⟩ | ⟨-, op, -, -, hagree, -⟩
    · rw [hsame]
    · rw [hagree (.scalar totalSupplyVar) (by simp [tokenVars, Loc.var])]
  refine ⟨o, ho, ⟨hgood, ⟨c', hc', hcode'.trans hcode⟩, hquiet, hsupply⟩, ?_⟩
  rcases hend with hsame | ⟨hcommit, op, hmint, hstep, -, -⟩
  · exact .inl hsame
  · exact .inr ⟨hcommit, op, hmint, hstep⟩

theorem perform_empty {self : Address} {m : ContractManager} (h : Deployed self m)
    (hempty : m.balanceSum self = 0) (call : Invocation) :
    ∃ m', call.perform self m = some m' ∧ Deployed self m' ∧
      (m'.balanceSum self = 0 ↔ ¬ Deposits call) := by
  obtain ⟨o, ho, hdeployed, hend⟩ := perform_cases h call
  refine ⟨o.manager, by rw [Invocation.perform, ho]; rfl, hdeployed, ?_⟩
  rw [ContractManager.balanceSum_eq]
  have hsum : (m.tokenAt self).supply = 0 := (m.balanceSum_eq self).symm.trans hempty
  rcases hend with ⟨hsame, hok⟩ | ⟨hcommit, op, hmint, hstep⟩
  · -- a deposit to be committed would have returned, and would have been committed
    rw [ContractManager.tokenAt, hsame]
    refine ⟨fun _ hdeposits => ?_, fun _ => hsum⟩
    have hfalse := hok (ethCall_deposit h hempty hdeposits.1 ho)
    rw [hdeposits.2.1] at hfalse
    cases hfalse
  · have hsupply := Fungible.step_supply hstep
    rw [hsum, hmint] at hsupply
    by_cases hdeposit : call.info.functor = functorOf 0xd0e30db0
    · rw [if_pos hdeposit] at hsupply hmint
      -- what puts something in takes nothing out
      have hburn : 0 < op.minted → op.burned = 0 := by
        cases op with
        | mint n => exact fun _ => rfl
        | _ => exact fun h => absurd h (Nat.lt_irrefl 0)
      constructor
      · intro hzero hdeposits
        have hpos := hdeposits.2.2
        have := hburn (by omega)
        omega
      · intro hnot
        have hzero : ¬ 0 < call.locals.value.val := fun hpos => hnot ⟨hdeposit, hcommit, hpos⟩
        omega
    · rw [if_neg hdeposit] at hsupply
      exact ⟨fun _ hdeposits => hdeposit hdeposits.1, fun _ => by omega⟩

/-! ### Runs -/

theorem deployed_new {self : Address} {name symbol : Bytes} {decimals : Uint256}
    {m : ContractManager} (hgood : m.Good)
    (hc : m.contracts.lookup self = some (NativeWrapper.new self name symbol decimals)) :
    Deployed self m ∧ m.balanceSum self = 0 := by
  have hquiet := NativeWrapper.new_quiet self name symbol decimals
  obtain ⟨hcom, hcur, -⟩ := ContractManager.cells_of_lookup hc
  refine ⟨⟨hgood, ⟨_, hc, rfl⟩, ?_, ?_⟩, ?_⟩
  · rw [hcom, hcur]
    refine funext fun l => hquiet.1.quiet l ?_
    rw [← Bool.not_eq_true, hquiet.1.used, hquiet.2]
    exact List.not_mem_nil
  · rw [ContractManager.totalSupply, hcom]
    rfl
  · rw [ContractManager.balanceSum, hc]
    rfl

/-- **The reported supply.**  Let a new `NativeWrapper` be called any number of times, with any
    callers, values, data and commit flags.  Every call comes to an end, and `totalSupply()` is
    the sum of the committed balances after each of them exactly if none of them commits a
    deposit of a positive value. -/
theorem supply_iff {self : Address} {name symbol : Bytes} {decimals : Uint256}
    {m₀ : ContractManager} {calls : List Invocation} (hgood : m₀.Good)
    (hc : m₀.contracts.lookup self = some (NativeWrapper.new self name symbol decimals)) :
    (∀ pre, pre <+: calls → ∃ m, Machine.run (Invocation.perform self) pre m₀ = some m ∧
        m.totalSupply self = m.balanceSum self) ↔
      ∀ call ∈ calls, ¬ Deposits call := by
  obtain ⟨hdeployed, hempty⟩ := deployed_new hgood hc
  -- every call comes to an end, so a condition on the calls holds along the whole run
  have hgoes : ∀ m call, Deployed self m →
      ∃ m', Invocation.perform self call m = some m' ∧ Deployed self m' := by
    intro m call h
    obtain ⟨o, ho, hdeployed', -⟩ := perform_cases h call
    exact ⟨o.manager, by rw [Invocation.perform, ho]; rfl, hdeployed'⟩
  rw [← Machine.along_iff_forall_mem hgoes hdeployed]
  refine Machine.prefix_iff (I := Deployed self)
    (Q := fun _ m => m.totalSupply self = m.balanceSum self) ?_ hdeployed
    (hdeployed.supply.trans hempty.symm)
  intro _ m call h hQ
  obtain ⟨m', hm', h', hiff⟩ := perform_empty h (hQ.symm.trans h.supply) call
  refine ⟨m', hm', h', ?_⟩
  show m'.totalSupply self = m'.balanceSum self ↔ _
  rw [h'.supply, eq_comm]
  exact hiff

/-- A wrapper at address 9. -/
def wrapperAlone : ContractManager :=
  ERC20.alone (.ofNat 20 9) (NativeWrapper.new (.ofNat 20 9) [] [] 18)

theorem good_wrapperAlone : wrapperAlone.Good := by
  intro a c hc
  by_cases ha : a = .ofNat 20 9
  · subst ha
    have hlook : wrapperAlone.contracts.lookup (.ofNat 20 9) =
        some (NativeWrapper.new (.ofNat 20 9) [] [] 18) := AList.lookup_insert _
    cases hlook.symm.trans hc
    exact (NativeWrapper.new_quiet _ _ _ _).1
  · have hnone : wrapperAlone.contracts.lookup a = none := AList.lookup_insert_ne ha
    cases hnone.symm.trans hc

/-- `1` approves `2`: the supply stays the sum of the balances. -/
theorem supply_approve :
    ∃ m, Machine.run (Invocation.perform (.ofNat 20 9))
        [ERC20.invocation (.ofNat 20 1) 0x095ea7b3 [.address (.ofNat 20 2), .uint256 30]]
        wrapperAlone = some m ∧
      m.totalSupply (.ofNat 20 9) = m.balanceSum (.ofNat 20 9) := by
  refine (supply_iff good_wrapperAlone (AList.lookup_insert _)).mpr ?_ _ (List.prefix_refl _)
  intro call hcall
  rw [List.mem_singleton.mp hcall]
  intro h
  exact absurd h.1 (by decide)

/-- A deposit of seven by address 1. -/
def depositSeven : Invocation :=
  { ERC20.invocation (.ofNat 20 1) 0xd0e30db0 [] with
    locals := { caller := .ofNat 20 1, origin := .ofNat 20 1, value := 7, commit := true } }

/-- **A deposit does not show in the supply**: the balances sum up to seven, `totalSupply()`
    is zero. -/
theorem supply_deposit :
    ((Machine.run (Invocation.perform (.ofNat 20 9)) [depositSeven] wrapperAlone).map fun m =>
      (m.totalSupply (.ofNat 20 9), m.balanceSum (.ofNat 20 9))) = some (0, 7) := by
  decide +kernel

end OrbiterSdk.NativeWrapper

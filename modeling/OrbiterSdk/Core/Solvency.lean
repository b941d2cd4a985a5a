import OrbiterSdk.Contract.Transition
import OrbiterSdk.Core.Recorded
import OrbiterSdk.Core.Run

namespace OrbiterSdk

/-!
# Solvency

Contracts that owe their users something hold it, in every run and whatever throws:

* `ERC20Wrapper.solvent` — the tokens recorded for the users of a wrapper belong to it;
* `NativeWrapper.solvent_native` — the native balance of a wrapper covers its tokens.

Both are invariants of `Transition`: `Backed` for the wrapper of tokens, `State.Reserved` for
the wrapper of native tokens.
-/

/-! ### The wrapper of tokens -/

/-- What users of `w` deposited belongs to `w`, and nobody may move tokens of `w`. -/
structure Backed (w : Address) (com : Address → View) : Prop where
  records : ∀ token, recordSum (com w) token ≤ (tokenOf (com token)).balance w
  closed : ∀ token spender, (tokenOf (com token)).allowance w spender = 0

namespace Backed

variable {w : Address} {com com' : Address → View}

/-- What is needed to see that a change keeps `w` backed: every token afterwards. -/
theorem of_tokens (h : ∀ token, recordSum (com' w) token ≤ (tokenOf (com' token)).balance w ∧
    ∀ spender, (tokenOf (com' token)).allowance w spender = 0) : Backed w com' :=
  ⟨fun token => (h token).1, fun token => (h token).2⟩

theorem token (h : Backed w com) {a caller : Address} (hcaller : w ≠ caller)
    {op : Fungible.Op Address} {g : View}
    (hstep : (tokenOf (com a)).step (2 ^ 256) caller op = some (tokenOf g))
    (hagree : View.Agree tokenVars (com a) g) : Backed w (Function.update com a g) := by
  -- Operations on a token change no records.
  have hrecords : ∀ token, recordSum (Function.update com a g w) token = recordSum (com w) token := by
    intro token
    by_cases hw : w = a
    · subst hw
      rw [Function.update_self]
      exact recordSum_congr hagree token
    · rw [Function.update_of_ne hw]
  refine of_tokens fun token => ?_
  rw [hrecords]
  by_cases ht : token = a
  · subst ht
    rw [Function.update_self]
    obtain ⟨hallow, hbal⟩ := Fungible.step_closed hstep hcaller (h.closed token)
    exact ⟨(h.records token).trans hbal, hallow⟩
  · rw [Function.update_of_ne ht]
    exact ⟨h.records token, h.closed token⟩

theorem records_ne (h : Backed w com) {a : Address} (ha : w ≠ a) {g : View}
    (htoken : tokenOf g = tokenOf (com a)) : Backed w (Function.update com a g) := by
  refine of_tokens fun token => ?_
  rw [Function.update_of_ne ha]
  by_cases ht : token = a
  · subst ht
    rw [Function.update_self, htoken]
    exact ⟨h.records token, h.closed token⟩
  · rw [Function.update_of_ne ht]
    exact ⟨h.records token, h.closed token⟩

/-- `w` pays out: the record and the tokens go down together. -/
theorem payOut (h : Backed w com) {token payee : Address} {n : Nat} {g g' : View}
    {records : AssocMap Address Uint256} (hne : token ≠ w)
    (hstep : (tokenOf (com token)).step (2 ^ 256) w (.transfer payee n) = some (tokenOf g))
    (hrec : RecordsChanged (com w) g' token records)
    (hsum : AssocMap.total (fun x => x.val) records + n = recordSum (com w) token) :
    Backed w (Function.update (Function.update com token g) w g') := by
  refine of_tokens fun token' => ?_
  rw [Function.update_self, hrec.sum]
  by_cases ht : token' = token
  · subst ht
    rw [if_pos rfl, Function.update_of_ne hne, Function.update_self]
    constructor
    · have hbal := Fungible.step_balance hstep w
      have hbacked := h.records token'
      rw [Fungible.Op.outOf, if_pos rfl] at hbal
      omega
    · intro spender
      rcases Fungible.step_allowance hstep w spender with he | ⟨n', -, he⟩ | ⟨r, n', -, he, -⟩
      · rw [he, h.closed]
      · cases he
      · cases he
  · rw [if_neg ht]
    by_cases hw : token' = w
    · subst hw
      rw [Function.update_self, hrec.token]
      exact ⟨h.records token', h.closed token'⟩
    · rw [Function.update_of_ne hw, Function.update_of_ne ht]
      exact ⟨h.records token', h.closed token'⟩

/-- `w` takes a deposit: the tokens come in, and the record follows or not. -/
theorem deposit (h : Backed w com) {token caller : Address} {n : Nat} {g g' : View}
    (hcaller : w ≠ caller) (hne : token ≠ w)
    (hstep : (tokenOf (com token)).step (2 ^ 256) w (.transferFrom caller w n) = some (tokenOf g))
    (hrec : g' = com w ∨ ∃ records, RecordsChanged (com w) g' token records ∧
      AssocMap.total (fun x => x.val) records = recordSum (com w) token + n) :
    Backed w (Function.update (Function.update com token g) w g') := by
  have htoken : tokenOf g' = tokenOf (com w) := by
    rcases hrec with rfl | ⟨records, hrec, -⟩
    · rfl
    · exact hrec.token
  have hsum : ∀ token', recordSum g' token' ≤
      recordSum (com w) token' + if token' = token then n else 0 := by
    intro token'
    rcases hrec with rfl | ⟨records, hrec, htotal⟩
    · exact Nat.le_add_right _ _
    · rw [hrec.sum]
      by_cases ht : token' = token
      · rw [if_pos ht, if_pos ht, htotal, ht]
      · rw [if_neg ht, if_neg ht]
        exact Nat.le_refl _
  refine of_tokens fun token' => ?_
  rw [Function.update_self]
  have hle := hsum token'
  have hbacked := h.records token'
  by_cases ht : token' = token
  · subst ht
    rw [Function.update_of_ne hne, Function.update_self]
    constructor
    · have hbal := Fungible.step_balance hstep w
      rw [Fungible.Op.outOf, Fungible.Op.into, if_neg (fun he => hcaller he.symm),
        if_pos rfl] at hbal
      rw [if_pos rfl] at hle
      omega
    · intro spender
      rcases Fungible.step_allowance hstep w spender with he | ⟨n', -, he⟩ | ⟨r, n', -, he, -⟩
      · rw [he, h.closed]
      · cases he
      · cases he
        exact absurd rfl hcaller
  · rw [if_neg ht, Nat.add_zero] at hle
    by_cases hw : token' = w
    · subst hw
      rw [Function.update_self, htoken]
      exact ⟨hle.trans hbacked, h.closed token'⟩
    · rw [Function.update_of_ne hw, Function.update_of_ne ht]
      exact ⟨hle.trans hbacked, h.closed token'⟩

theorem wrapper (h : Backed w com) {r caller : Address} (hcaller : w ≠ caller)
    (he : WrapperEffect r caller com com') : Backed w com' := by
  -- Another wrapper is somebody else for the token and for the records.
  have hother : ∀ {token : Address} {op : Fungible.Op Address} {g g' : View}, w ≠ r →
      token ≠ r → (tokenOf (com token)).step (2 ^ 256) r op = some (tokenOf g) →
      View.Agree tokenVars (com token) g → tokenOf g' = tokenOf (com r) →
      Backed w (Function.update (Function.update com token g) r g') := by
    intro token op g g' hwr hne hstep hagree htoken
    refine (h.token hwr hstep hagree).records_ne hwr ?_
    rw [Function.update_of_ne (fun he => hne he.symm), htoken]
  cases he with
  | nothing hcom => rw [hcom]; exact h
  | payOut token payee n g g' records hne hstep hagree hrec hsum hcom =>
    rw [hcom]
    by_cases hwr : w = r
    · subst hwr
      exact h.payOut hne hstep hrec hsum
    · exact hother hwr hne hstep hagree hrec.token
  | deposit token n g g' hne hstep hagree hrec hcom =>
    rw [hcom]
    by_cases hwr : w = r
    · subst hwr
      exact h.deposit hcaller hne hstep hrec
    · refine hother hwr hne hstep hagree ?_
      rcases hrec with rfl | ⟨records, hrec, -⟩
      · rfl
      · exact hrec.token

theorem deploy (h : Backed w com) {C : Crypto} {a : Address} {c : DynamicContract}
    (hnew : New C a c) (hnone : com a = fun _ => none) :
    Backed w (Function.update com a c.store.com) := by
  refine of_tokens fun token => ?_
  have hrecords : recordSum (Function.update com a c.store.com w) token ≤
      recordSum (com w) token := by
    by_cases hw : w = a
    · subst hw
      rw [Function.update_self, hnew.recordSum]
      exact Nat.zero_le _
    · rw [Function.update_of_ne hw]
  have hbacked := h.records token
  by_cases ht : token = a
  · subst ht
    rw [Function.update_self]
    refine ⟨?_, fun spender => hnew.allowance w spender⟩
    rw [hnone, tokenOf_none] at hbacked
    exact (hrecords.trans hbacked).trans (Nat.zero_le _)
  · rw [Function.update_of_ne ht]
    exact ⟨hrecords.trans hbacked, h.closed token⟩

/-- **Every transaction** of anybody but `w` keeps `w` backed. -/
theorem transition {C : Crypto} {tx : TxBlock} {m m' : ContractManager} {paid : Nat}
    (h : Backed w m.cells.com) (hsender : tx.sender ≠ w) (ht : Transition C tx m m' paid) :
    Backed w m'.cells.com := by
  cases ht with
  | idle _ hcom => rw [hcom]; exact h
  | token op g _ _ hstep hagree hcom =>
    rw [hcom]
    exact h.token (fun he => hsender he.symm) hstep hagree
  | wrapper _ he => exact h.wrapper (fun he => hsender he.symm) he
  | deploy a c ha hnew hcon =>
    rw [ContractManager.com_insert hcon]
    exact h.deploy hnew (ContractManager.com_of_notMem ha)

end Backed

namespace ERC20Wrapper

/-- A transaction as `ContractManager::callContract(tx)` gets it: with the accounts and the
    flag of `State` at that moment. -/
structure Call where
  accounts : Accounts
  processingPayable : Bool
  depth : Nat
  tx : TxBlock

/-- The manager after the call, whether it returned or threw. -/
def Call.perform (C : Crypto) (call : Call) (m : ContractManager) : Option ContractManager :=
  (m.callContract C call.depth call.processingPayable call.accounts call.tx).map
    ContractManager.TxOutcome.manager

section

variable {m : ContractManager}

theorem resting_of_empty (h : m.contracts = ∅) : m.Resting := by
  constructor
  · intro a c hc
    rw [h] at hc
    cases hc
  · intro a
    funext l
    simp [ContractManager.cells, h]

theorem standard_of_empty (C : Crypto) (h : m.contracts = ∅) : m.Standard C := by
  intro a c hc
  rw [h] at hc
  cases hc

theorem backed_of_empty (h : m.contracts = ∅) (w : Address) : Backed w m.cells.com := by
  have hcom : m.cells.com = fun _ _ => none := by
    funext a l
    simp [ContractManager.cells, h]
  rw [hcom]
  exact ⟨fun token => Nat.le_refl 0, fun token spender => rfl⟩

end

/-- **Every run** without a transaction of `w` keeps `w` backed. -/
theorem backed_of_run {C : Crypto} (hC : Selectors C) {m₀ m : ContractManager}
    (h₀ : m₀.contracts = ∅) {calls : List Call} {w : Address}
    (hw : ∀ call ∈ calls, call.tx.sender ≠ w)
    (hrun : Machine.run (Call.perform C) calls m₀ = some m) : Backed w m.cells.com := by
  have hinv : m.Resting ∧ m.Standard C ∧ Backed w m.cells.com := by
    refine Machine.run_invariant (P := fun _ call => call.tx.sender ≠ w)
      (I := fun m => m.Resting ∧ m.Standard C ∧ Backed w m.cells.com) ?_
      ⟨resting_of_empty h₀, standard_of_empty C h₀, backed_of_empty h₀ w⟩
      (Machine.along_of_mem (fun call hcall _ => hw call hcall) m₀) hrun
    rintro s call s' ⟨hrest, hstd, hbacked⟩ hsender hs
    obtain ⟨o, ho, rfl⟩ := Option.map_eq_some_iff.mp hs
    obtain ⟨paid, ht, -⟩ := ContractManager.callContract_transition hC hrest hstd ho
    exact ⟨(ContractManager.callContract_effect hrest ho).resting, hstd.transition ht,
      hbacked.transition hsender ht⟩
  exact hinv.2.2

/-- **Solvency of the wrapper.**  Let a manager start without contracts and execute any
    transactions, none of them sent from `w`.  Then for every token the committed records of
    the users of `w` sum up to at most the committed balance of `w` in the token's
    contract. -/
theorem solvent {C : Crypto} (hC : Selectors C) {m₀ m : ContractManager} (h₀ : m₀.contracts = ∅)
    {calls : List Call} {w : Address} (hw : ∀ call ∈ calls, call.tx.sender ≠ w)
    (hrun : Machine.run (Call.perform C) calls m₀ = some m) (token : Address) :
    recordSum (m.cells.com w) token ≤ (m.tokenAt token).balance w :=
  (backed_of_run hC h₀ hw hrun).records token

/-- The genesis account creates an `ERC20` and a wrapper, deposits fifty tokens, withdraws
    twenty and fails to withdraw more than is left. -/
theorem solvent_withdraw :
    ∃ m, Machine.run (Call.perform Recorded.crypto)
        ([Recorded.createERC20 100, Recorded.createWrapper, Recorded.approve 50,
          Recorded.deposit 50, Recorded.withdraw 20, Recorded.withdraw 40].map
            (Call.mk ∅ false 2)) ⟨∅, ∅, .init, .init⟩ = some m ∧
      recordSum (m.cells.com Recorded.secondContract) Recorded.firstContract = 30 ∧
      30 ≤ (m.tokenAt Recorded.firstContract).balance Recorded.secondContract := by
  have hlook : (Machine.run (Call.perform Recorded.crypto)
      ([Recorded.createERC20 100, Recorded.createWrapper, Recorded.approve 50,
        Recorded.deposit 50, Recorded.withdraw 20, Recorded.withdraw 40].map
          (Call.mk ∅ false 2)) ⟨∅, ∅, .init, .init⟩).map (fun m =>
            recordSum (m.cells.com Recorded.secondContract) Recorded.firstContract) =
      some 30 := by
    decide +kernel
  obtain ⟨m, hm, hsum⟩ := Option.map_eq_some_iff.mp hlook
  have hselectors : Selectors Recorded.crypto := ⟨by decide +kernel, by decide +kernel⟩
  have hsolvent := solvent hselectors rfl (w := Recorded.secondContract) (by decide +kernel) hm
    Recorded.firstContract
  rw [hsum] at hsolvent
  exact ⟨m, hm, hsum, hsolvent⟩

end ERC20Wrapper

/-! ### The wrapper of native tokens -/

open scoped FixedStr

/-- A wrapper moves tokens, it does not make or destroy any. -/
theorem WrapperEffect.supply {w caller : Address} {com com' : Address → View}
    (h : WrapperEffect w caller com com') (a : Address) :
    (tokenOf (com' a)).supply = (tokenOf (com a)).supply := by
  have hmoved : ∀ {token : Address} {op : Fungible.Op Address} {g g' : View}, op.minted = 0 →
      op.burned = 0 → (tokenOf (com token)).step (2 ^ 256) w op = some (tokenOf g) →
      tokenOf g' = tokenOf (com w) →
      (tokenOf (Function.update (Function.update com token g) w g' a)).supply =
        (tokenOf (com a)).supply := by
    intro token op g g' hmint hburn hstep htoken
    by_cases haw : a = w
    · subst haw
      rw [Function.update_self, htoken]
    · rw [Function.update_of_ne haw]
      by_cases hat : a = token
      · subst hat
        have hsupply := Fungible.step_supply hstep
        rw [Function.update_self]
        omega
      · rw [Function.update_of_ne hat]
  cases h with
  | nothing hcom => rw [hcom]
  | payOut token payee n g g' records _ hstep _ hrec _ hcom =>
    rw [hcom]
    exact hmoved rfl rfl hstep hrec.token
  | deposit token n g g' _ hstep _ hrec hcom =>
    rw [hcom]
    refine hmoved rfl rfl hstep ?_
    rcases hrec with rfl | ⟨records, hrec, -⟩
    · rfl
    · exact hrec.token

/-- What a transaction does to the supply of a deployed token: the called contract may put in
    the value of the transaction and takes out what it pays. -/
theorem Transition.supply {C : Crypto} {tx : TxBlock} {m m' : ContractManager} {paid : Nat}
    (h : Transition C tx m m' paid) {a : Address} (ha : a ∈ m.contracts) :
    (m'.tokenAt a).supply + (if a = tx.receiver then paid else 0) ≤
      (m.tokenAt a).supply + if a = tx.receiver then tx.value.val else 0 := by
  unfold ContractManager.tokenAt
  cases h with
  | idle _ hcom =>
    rw [hcom, ite_self]
    exact Nat.le_add_right _ _
  | deploy b c hb _ hcon =>
    have hne : a ≠ b := fun he => hb (he ▸ ha)
    rw [ContractManager.com_insert hcon, Function.update_of_ne hne, ite_self]
    exact Nat.le_add_right _ _
  | token op g _ hmint hstep _ hcom =>
    rw [hcom]
    by_cases har : a = tx.receiver
    · subst har
      have hsupply := Fungible.step_supply hstep
      rw [Function.update_self, if_pos rfl, if_pos rfl]
      omega
    · rw [Function.update_of_ne har, if_neg har, if_neg har]
  | wrapper _ he =>
    rw [he.supply a, ite_self]
    exact Nat.le_add_right _ _

namespace State

open Accounts

variable {C : Crypto} {depth : Nat} {a : Address} {s : State}

theorem balance_refund {tx : TxBlock} (h : a ≠ tx.sender) :
    balance (refund s tx).2.accounts a = balance s.accounts a := by
  unfold refund
  split
  · rfl
  · show balance (incNonce _ _) a = _
    rw [balance_incNonce, balance_setBalance, if_neg h]

/-- The native balance of the wrapper at `a`, if there is one, covers its tokens. -/
structure Reserved (C : Crypto) (a : Address) (s : State) : Prop where
  calm : s.Calm
  standard : s.manager.Standard C
  covers : ∀ c, s.manager.contracts.lookup a = some c → c.contractName = "NativeWrapper" →
    (s.manager.tokenAt a).supply ≤ balance s.accounts a

/-- The reserve depends on the manager and on the balance only. -/
theorem Reserved.covers_of_le (h : Reserved C a s) {s' : State} (hm : s'.manager = s.manager)
    (hle : balance s.accounts a ≤ balance s'.accounts a) :
    ∀ c, s'.manager.contracts.lookup a = some c → c.contractName = "NativeWrapper" →
      (s'.manager.tokenAt a).supply ≤ balance s'.accounts a := by
  intro c hc hname
  rw [hm] at hc ⊢
  exact (h.covers c hc hname).trans hle

/-- The contract call of a transaction of somebody else, after the value has moved. -/
theorem Reserved.call (hC : Selectors C) (h : Reserved C a s) {tx : TxBlock}
    (hsender : tx.sender ≠ a) {accounts : Accounts} {o : ContractManager.TxOutcome} {pp : Bool}
    (ht : transferValue s.accounts tx = (.ok (), accounts))
    (ho : s.manager.callContract C depth pp accounts tx = some o) :
    o.manager.Standard C ∧ ∀ c, o.manager.contracts.lookup a = some c →
      c.contractName = "NativeWrapper" → (o.manager.tokenAt a).supply ≤ balance o.accounts a := by
  obtain ⟨paid, htrans, hpaid⟩ :=
    ContractManager.callContract_transition hC h.calm.resting h.standard ho
  refine ⟨h.standard.transition htrans, fun c hc hname => ?_⟩
  rcases ContractManager.lookup_transition htrans hc with ⟨c₀, hc₀, hname₀⟩ | ⟨hnew, hcom⟩
  · -- A wrapper that was there: what is put in has arrived, what is paid is taken out.
    have hsupply := htrans.supply (AssocMap.mem_iff_lookup.mpr ⟨c₀, hc₀⟩)
    have hpaid := hpaid h.calm.balances a
    have hmoved := (transferValue_moved ht).balance a
    have hcovers := h.covers c₀ hc₀ (hname₀.trans hname)
    rw [if_neg (fun he => hsender he.symm)] at hmoved
    omega
  · -- A wrapper that was just created has no tokens.
    have hzero : o.manager.tokenAt a = ⟨fun _ => 0, (o.manager.tokenAt a).allowance⟩ := by
      ext b d
      · rw [ContractManager.tokenAt, hcom]
        simp only [tokenOf, hnew.entry _ (Or.inr (by rw [hname]; decide))]
        rfl
      · rfl
    rw [hzero]
    simp [Fungible.supply]

theorem Reserved.processTransaction (hC : Selectors C) (h : Reserved C a s) {tx : TxBlock}
    (hsender : tx.sender ≠ a) {p : Except Exn Unit × State}
    (hp : processTransaction C depth s tx = some p) : Reserved C a p.2 := by
  have hne : a ≠ tx.sender := fun he => hsender he.symm
  have hrun := (processTransaction_run hp).2
  have hframe : TxRun C depth s tx (p.1, p.2) := hrun
  have hcalm : p.2.Calm := (txRun_frame h.calm hframe).1
  cases hrun with
  | stopped e accounts ht =>
    obtain ⟨accounts', hr⟩ := refund_state { s with accounts } tx
    have hle : balance s.accounts a ≤ balance (refund { s with accounts } tx).2.accounts a := by
      rw [balance_refund hne]
      -- A transfer that stops has taken something from the sender at most.
      rcases transferValue_cases s.accounts tx with ⟨-, e', he⟩ | ⟨-, e', acc, he, hd⟩ | ⟨-, acc, he, -⟩
      · rw [he] at ht; cases ht; exact Nat.le_refl _
      · rw [he] at ht
        cases ht
        have hbal := hd.balance a
        rw [if_neg hne] at hbal
        exact Nat.le_of_eq hbal.symm
      · rw [he] at ht; cases ht
    have hm : (refund { s with accounts } tx).2.manager = s.manager := by rw [hr]
    refine ⟨hcalm, ?_, h.covers_of_le hm hle⟩
    rw [hm]
    exact h.standard
  | plain accounts ht hcall =>
    have hmoved := (transferValue_moved ht).balance a
    rw [if_neg hne] at hmoved
    refine ⟨hcalm, h.standard, h.covers_of_le rfl ?_⟩
    show balance s.accounts a ≤ balance (incNonce accounts tx.sender) a
    rw [balance_incNonce]
    omega
  | threw accounts o e ht hcall ho he =>
    obtain ⟨hstd, hcovers⟩ := h.call hC hsender ht ho
    obtain ⟨accounts', hr⟩ := refund_state (s.afterCall accounts tx o) tx
    have hm : (refund (s.afterCall accounts tx o) tx).2.manager = o.manager := by rw [hr]; rfl
    refine ⟨hcalm, ?_, ?_⟩
    · rw [hm]
      exact hstd
    · rw [hm, balance_refund hne]
      exact hcovers
  | called accounts o ht hcall ho he =>
    obtain ⟨hstd, hcovers⟩ := h.call hC hsender ht ho
    refine ⟨hcalm, hstd, ?_⟩
    show ∀ c, o.manager.contracts.lookup a = some c → _ → _ ≤ balance (incNonce o.accounts _) a
    rw [balance_incNonce]
    exact hcovers

theorem Reserved.congr (h : Reserved C a s) {s' : State} (hm : s'.manager = s.manager)
    (hle : balance s.accounts a ≤ balance s'.accounts a) : Reserved C a s' := by
  refine ⟨⟨?_, ?_⟩, ?_, h.covers_of_le hm hle⟩
  · rw [hm]; exact h.calm.resting
  · rw [hm]; exact h.calm.balances
  · rw [hm]; exact h.standard

theorem Reserved.increaseBalance (h : Reserved C a s) (amount : Uint256) (b : Address) :
    Reserved C a (increaseBalance amount s b).2 := by
  unfold State.increaseBalance
  split
  · refine h.congr rfl ?_
    show balance s.accounts a ≤ balance (setBalance _ _ _) a
    rw [balance_setBalance, balance_account]
    split
    · rename_i hab; rw [hab]
    · exact Nat.le_refl _
  · rename_i x hx
    have hx' := uadd_eq_ok.mp hx
    rw [balance_account] at hx'
    refine h.congr rfl ?_
    show balance s.accounts a ≤ balance (setBalance _ _ _) a
    rw [balance_setBalance]
    split
    · rename_i hab; rw [hab]; omega
    · exact Nat.le_refl _

theorem Reserved.ethCall (h : Reserved C a s) (info : EthCallInfo) :
    Reserved C a (s.ethCall info).2 := by
  unfold State.ethCall
  split
  · have hsame := ContractManager.callContractView_same h.calm.resting.good info
    have hdep := ContractManager.deployed_of_shape hsame.shape
    refine ⟨⟨hsame.resting h.calm.resting, hsame.balances.trans h.calm.balances⟩,
      h.standard.congr hdep, fun c hc hname => ?_⟩
    have hlook := ContractManager.lookup_of_shape hsame.shape a
    rw [show (s.manager.callContractView info).2.contracts.lookup a = some c from hc] at hlook
    obtain ⟨c₀, hc₀, heq⟩ := Option.map_eq_some_iff.mp hlook.symm
    show (tokenOf ((s.manager.callContractView info).2.cells.com a)).supply ≤ _
    rw [hsame.cells]
    exact h.covers c₀ hc₀ ((congrArg Prod.fst heq).trans hname)
  · exact h

end State

/-- What a run may do when nothing is simulated and `a` sends nothing. -/
def Op.Foreign (a : Address) : Op → Prop
  | .processNextBlock block => ∀ tx ∈ block.txs, tx.sender ≠ a
  | .estimateGas _ => False
  | _ => True

theorem State.Reserved.apply {C : Crypto} {depth : Nat} {a : Address} {s s' : State} {op : Op}
    (hC : Selectors C) (h : s.Reserved C a) (hop : op.Foreign a)
    (hs : op.apply C depth s = some s') : s'.Reserved C a := by
  cases op with
  | addTx tx =>
    cases hs
    unfold State.addTx
    split
    all_goals exact h.congr rfl (Nat.le_refl _)
  | addValidatorTx tx => cases hs; exact h.congr rfl (Nat.le_refl _)
  | addBalance b =>
    rw [← Option.some.inj hs]
    exact h.increaseBalance _ b
  | processNextBlock block =>
    obtain ⟨p, hp, rfl⟩ := Option.map_eq_some_iff.mp hs
    refine State.processNextBlock_along (I := State.Reserved C a) ?_ ?_ h hp
    · intro t tx htx p ht hp
      exact ht.processTransaction hC (hop tx htx) hp
    · intro t t' hm hacc ht
      refine ht.congr hm ?_
      rw [hacc]
  | ethCall info => cases hs; exact h.ethCall info
  | estimateGas info => exact absurd hop id

end OrbiterSdk

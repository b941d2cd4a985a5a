import OrbiterSdk.Contract.Transaction
import OrbiterSdk.Core.State

namespace OrbiterSdk

/-!
# Processing a transaction

The specification of `State::processTransaction` in terms of balances, nonces and totals:

* `transferValue_covered`, `transferValue_uncovered` — the debit and the credit;
* `callOutcome` — the contract call of a transaction;
* `TxRun` — the ways a transaction can go;
* `State.Calm`, `State.Sane` — what holds between transactions.
-/

/-- `gasLimit * maxFeePerGas` as a number. -/
def TxBlock.feeNat (tx : TxBlock) : Nat := tx.gasLimit.val * tx.maxFeePerGas.val

theorem TxBlock.valueWithFees_eq_ok {tx : TxBlock} {x : Uint256} :
    tx.valueWithFees = .ok x ↔ x.val = tx.value.val + tx.feeNat := by
  unfold TxBlock.valueWithFees TxBlock.fee TxBlock.feeNat
  constructor
  · intro h
    obtain ⟨f, hf, h⟩ := Except.bind_eq_ok.mp h
    rw [uadd_eq_ok.mp h, umul_eq_ok.mp hf]
  · intro h
    have hlt : tx.gasLimit.val * tx.maxFeePerGas.val < 2 ^ 256 := by have := x.isLt; omega
    refine Except.bind_eq_ok.mpr ⟨⟨_, hlt⟩, umul_eq_ok.mpr rfl, uadd_eq_ok.mpr h⟩

namespace State

open Accounts

/-! ### Changing one account -/

theorem balance_account (accounts : Accounts) (a : Address) :
    (account accounts a).balance.val = balance accounts a := by
  unfold account balance AssocMap.weight
  cases accounts.lookup a <;> rfl

theorem nonce_account (accounts : Accounts) (a : Address) :
    (account accounts a).nonce = nonce accounts a := by
  unfold account nonce
  cases accounts.lookup a <;> rfl

theorem balance_setBalance (accounts : Accounts) (a b : Address) (x : Uint256) :
    balance (setBalance accounts a x) b = if b = a then x.val else balance accounts b :=
  balance_insert _ _ _ _

theorem nonce_setBalance (accounts : Accounts) (a b : Address) (x : Uint256) :
    nonce (setBalance accounts a x) b = nonce accounts b := by
  unfold setBalance
  rw [nonce_insert]
  split
  · rename_i h; subst h; exact nonce_account accounts b
  · rfl

theorem total_setBalance (accounts : Accounts) (a : Address) (x : Uint256) :
    total (setBalance accounts a x) + balance accounts a = total accounts + x.val :=
  total_insert _ _ _

theorem mem_setBalance {accounts : Accounts} {a b : Address} {x : Uint256} :
    b ∈ setBalance accounts a x ↔ b = a ∨ b ∈ accounts := AList.mem_insert _

theorem balance_incNonce (accounts : Accounts) (a b : Address) :
    balance (incNonce accounts a) b = balance accounts b := by
  unfold incNonce
  rw [balance_insert]
  split
  · rename_i h; subst h; exact balance_account accounts b
  · rfl

theorem nonce_incNonce (accounts : Accounts) (a b : Address) :
    nonce (incNonce accounts a) b = if b = a then nonce accounts b + 1 else nonce accounts b := by
  unfold incNonce
  rw [nonce_insert]
  split
  · rename_i h; subst h; rw [nonce_account]
  · rfl

theorem total_incNonce (accounts : Accounts) (a : Address) :
    total (incNonce accounts a) = total accounts := by
  have := total_insert accounts a
    { account accounts a with nonce := (account accounts a).nonce + 1 }
  rw [balance_account] at this
  exact Nat.add_right_cancel this

theorem mem_incNonce {accounts : Accounts} {a b : Address} :
    b ∈ incNonce accounts a ↔ b = a ∨ b ∈ accounts := AList.mem_insert _

/-! ### The transfer -/

/-- The sender can pay for the transaction. -/
def Covered (accounts : Accounts) (tx : TxBlock) : Prop :=
  tx.value.val + tx.feeNat ≤ balance accounts tx.sender

/-- What a completed transfer does. -/
structure Moved (accounts : Accounts) (tx : TxBlock) (accounts' : Accounts) : Prop where
  balance : ∀ a, balance accounts' a + (if a = tx.sender then tx.value.val + tx.feeNat else 0) =
    Accounts.balance accounts a + if a = tx.receiver then tx.value.val else 0
  nonce : ∀ a, nonce accounts' a = Accounts.nonce accounts a
  mem : ∀ a ∈ accounts, a ∈ accounts'
  total : total accounts' + tx.feeNat = Accounts.total accounts

/-- What a transfer does whose credit overflows. -/
structure Debited (accounts : Accounts) (tx : TxBlock) (accounts' : Accounts) : Prop where
  balance : ∀ a, balance accounts' a + (if a = tx.sender then tx.value.val + tx.feeNat else 0) =
    Accounts.balance accounts a
  nonce : ∀ a, nonce accounts' a = Accounts.nonce accounts a
  mem : ∀ a ∈ accounts, a ∈ accounts'
  overflow : 2 ^ 256 ≤ Accounts.balance accounts' tx.receiver + tx.value.val
  total : total accounts' + (tx.value.val + tx.feeNat) = Accounts.total accounts

private theorem debit_spec {accounts : Accounts} {tx : TxBlock} {x y : Uint256}
    (hx : x.val = tx.value.val + tx.feeNat) (hy : y.val + x.val = balance accounts tx.sender) :
    (∀ a, balance (setBalance accounts tx.sender y) a +
        (if a = tx.sender then tx.value.val + tx.feeNat else 0) = balance accounts a) ∧
      total (setBalance accounts tx.sender y) + (tx.value.val + tx.feeNat) = total accounts := by
  constructor
  · intro a
    rw [balance_setBalance]
    by_cases ha : a = tx.sender
    · rw [if_pos ha, if_pos ha, ha]; omega
    · rw [if_neg ha, if_neg ha]; omega
  · have := total_setBalance accounts tx.sender y
    omega

/-- The three ways of a transfer: the sender cannot pay and nothing happens, the credit
    overflows after the debit, or both are made. -/
theorem transferValue_cases (accounts : Accounts) (tx : TxBlock) :
    (¬ Covered accounts tx ∧ ∃ e, transferValue accounts tx = (.error e, accounts)) ∨
      (Covered accounts tx ∧ ∃ e accounts', transferValue accounts tx = (.error e, accounts') ∧
        Debited accounts tx accounts') ∨
      (Covered accounts tx ∧ ∃ accounts', transferValue accounts tx = (.ok (), accounts') ∧
        Moved accounts tx accounts') := by
  unfold transferValue Covered
  have hb := balance_lt accounts tx.sender
  cases hw : tx.valueWithFees with
  | error e =>
    refine Or.inl ⟨fun hc => ?_, e, rfl⟩
    have hok : tx.valueWithFees = .ok ⟨tx.value.val + tx.feeNat, by omega⟩ :=
      TxBlock.valueWithFees_eq_ok.mpr rfl
    rw [hok] at hw
    cases hw
  | ok x =>
    have hx := TxBlock.valueWithFees_eq_ok.mp hw
    dsimp only
    cases hs : usub (account accounts tx.sender).balance x with
    | error e =>
      have := (usub_eq_error.mp hs).2
      rw [balance_account] at this
      exact Or.inl ⟨by omega, e, rfl⟩
    | ok y =>
      have hy := usub_eq_ok.mp hs
      rw [balance_account] at hy
      obtain ⟨hbal, htotal⟩ := debit_spec hx hy
      refine Or.inr ?_
      dsimp only
      set debited := setBalance accounts tx.sender y with hdebited
      have hnonce : ∀ a, nonce debited a = nonce accounts a := fun a => nonce_setBalance _ _ a _
      have hmem : ∀ a ∈ accounts, a ∈ debited := fun a ha => mem_setBalance.mpr (Or.inr ha)
      cases hadd : uadd (account debited tx.receiver).balance tx.value with
      | error e =>
        have hover := (uadd_eq_error.mp hadd).2
        rw [balance_account] at hover
        have hsame : ∀ a, balance (setBalance debited tx.receiver
            (account debited tx.receiver).balance) a = balance debited a := by
          intro a
          rw [balance_setBalance, balance_account]
          split
          · rename_i ha; rw [ha]
          · rfl
        refine Or.inl ⟨by omega, e, _, rfl, fun a => ?_, fun a => ?_, fun a ha => ?_, ?_, ?_⟩
        · rw [hsame]; exact hbal a
        · rw [nonce_setBalance]; exact hnonce a
        · exact mem_setBalance.mpr (Or.inr (hmem a ha))
        · rw [hsame]; exact hover
        · have := total_setBalance debited tx.receiver (account debited tx.receiver).balance
          rw [balance_account] at this
          omega
      | ok z =>
        have hz := uadd_eq_ok.mp hadd
        rw [balance_account] at hz
        have htotal' := total_setBalance debited tx.receiver z
        refine Or.inr ⟨by omega, _, rfl, fun a => ?_, fun a => ?_, fun a ha => ?_, by omega⟩
        · have := hbal a
          rw [balance_setBalance]
          by_cases hr : a = tx.receiver
          · rw [if_pos hr, if_pos hr, hz, ← hr]; omega
          · rw [if_neg hr, if_neg hr]; omega
        · rw [nonce_setBalance]; exact hnonce a
        · exact mem_setBalance.mpr (Or.inr (hmem a ha))

theorem transferValue_moved {accounts accounts' : Accounts} {tx : TxBlock}
    (h : transferValue accounts tx = (.ok (), accounts')) : Moved accounts tx accounts' := by
  rcases transferValue_cases accounts tx with ⟨-, e, he⟩ | ⟨-, e, acc, he, -⟩ | ⟨-, acc, he, hm⟩
  · rw [he] at h; cases h
  · rw [he] at h; cases h
  · rw [he] at h; cases h; exact hm

/-- A transfer the sender can pay for goes through: with all balances together below the
    bound, the receiver's cannot overflow. -/
theorem transferValue_covered {accounts : Accounts} {tx : TxBlock} (hc : Covered accounts tx)
    (hfit : total accounts < 2 ^ 256) :
    ∃ accounts', transferValue accounts tx = (.ok (), accounts') ∧ Moved accounts tx accounts' := by
  rcases transferValue_cases accounts tx with ⟨hn, -⟩ | ⟨-, e, accounts', -, hd⟩ | ⟨-, h⟩
  · exact absurd hc hn
  · have := hd.overflow
    have := hd.total
    have := balance_le_total accounts' tx.receiver
    omega
  · exact h

theorem transferValue_uncovered {accounts : Accounts} {tx : TxBlock} (hc : ¬ Covered accounts tx) :
    ∃ e, transferValue accounts tx = (.error e, accounts) := by
  rcases transferValue_cases accounts tx with ⟨-, h⟩ | ⟨hc', -⟩ | ⟨hc', -⟩
  · exact h
  · exact absurd hc' hc
  · exact absurd hc' hc

/-! ### The ways a transaction can go -/

section

variable (C : Crypto) (depth : Nat)

/-- The contract call of a transaction; `none` when it makes none. -/
def callOutcome (s : State) (tx : TxBlock) : Option ContractManager.TxOutcome :=
  match transferValue s.accounts tx with
  | (.error _, _) => none
  | (.ok (), accounts) =>
    if s.manager.isContractCall tx then
      ((s.beforeCall accounts tx).callContract C depth tx).map fun r => r.1
    else none

/-- How the contract call of a transaction ends. -/
def callResult (s : State) (tx : TxBlock) : Option (Except Exn Unit) :=
  (s.callOutcome C depth tx).map ContractManager.TxOutcome.result

/-- The contract call of the transaction throws. -/
def Throws (s : State) (tx : TxBlock) : Prop := ∃ e, s.callResult C depth tx = some (.error e)

/-- The state a contract call leaves. -/
def afterCall (s : State) (accounts : Accounts) (tx : TxBlock) (o : ContractManager.TxOutcome) :
    State := { s.beforeCall accounts tx with accounts := o.accounts, manager := o.manager }

/-- The ways `processTransaction` can go. -/
inductive TxRun (s : State) (tx : TxBlock) : Except Exn Unit × State → Prop where
  /-- The debit or the credit throws. -/
  | stopped (e : Exn) (accounts : Accounts) :
      transferValue s.accounts tx = (.error e, accounts) →
      TxRun s tx (refund { s with accounts } tx)
  /-- A plain transfer. -/
  | plain (accounts : Accounts) : transferValue s.accounts tx = (.ok (), accounts) →
      s.manager.isContractCall tx = false →
      TxRun s tx (.ok (), { s with accounts := incNonce accounts tx.sender })
  /-- The contract call throws. -/
  | threw (accounts : Accounts) (o : ContractManager.TxOutcome) (e : Exn) :
      transferValue s.accounts tx = (.ok (), accounts) →
      s.manager.isContractCall tx = true →
      s.manager.callContract C depth (s.beforeCall accounts tx).processingPayable accounts tx =
        some o →
      o.result = .error e →
      TxRun s tx (refund (s.afterCall accounts tx o) tx)
  /-- The contract call returns. -/
  | called (accounts : Accounts) (o : ContractManager.TxOutcome) :
      transferValue s.accounts tx = (.ok (), accounts) →
      s.manager.isContractCall tx = true →
      s.manager.callContract C depth (s.beforeCall accounts tx).processingPayable accounts tx =
        some o →
      o.result = .ok () →
      TxRun s tx (.ok (), { s.afterCall accounts tx o with
        accounts := incNonce o.accounts tx.sender, processingPayable := false })

variable {C depth}

theorem processTransaction_run {s : State} {tx : TxBlock} {p : Except Exn Unit × State}
    (h : processTransaction C depth s tx = some p) : tx.sender ∈ s.accounts ∧ TxRun C depth s tx p := by
  unfold processTransaction at h
  split at h
  · cases h
  · rename_i hmem
    refine ⟨not_not.mp hmem, ?_⟩
    split at h
    · rename_i e accounts ht
      cases h; exact .stopped e accounts ht
    · rename_i accounts ht
      split at h
      · rename_i hcall
        split at h
        · cases h
        · rename_i o s' hs
          obtain ⟨o', ho', heq⟩ := Option.map_eq_some_iff.mp hs
          cases heq
          split at h
          · rename_i e he; cases h; exact .threw accounts o e ht hcall ho' he
          · rename_i he; cases h; exact .called accounts o ht hcall ho' he
      · rename_i hcall
        cases h; exact .plain accounts ht (by simpa using hcall)

theorem callOutcome_of_call {s : State} {tx : TxBlock} {accounts : Accounts}
    {o : ContractManager.TxOutcome} (ht : transferValue s.accounts tx = (.ok (), accounts))
    (hcall : s.manager.isContractCall tx = true)
    (ho : s.manager.callContract C depth (s.beforeCall accounts tx).processingPayable accounts tx =
      some o) : s.callOutcome C depth tx = some o := by
  have hs : (s.beforeCall accounts tx).callContract C depth tx =
      some (o, s.afterCall accounts tx o) := by
    unfold callContract
    rw [show (s.beforeCall accounts tx).manager = s.manager from rfl,
      show (s.beforeCall accounts tx).accounts = accounts from rfl, ho]
    rfl
  simp only [callOutcome, ht, hcall, if_true, hs, Option.map_some]

theorem callResult_of_call {s : State} {tx : TxBlock} {accounts : Accounts}
    {o : ContractManager.TxOutcome} (ht : transferValue s.accounts tx = (.ok (), accounts))
    (hcall : s.manager.isContractCall tx = true)
    (ho : s.manager.callContract C depth (s.beforeCall accounts tx).processingPayable accounts tx =
      some o) : s.callResult C depth tx = some o.result := by
  rw [callResult, callOutcome_of_call ht hcall ho, Option.map_some]

end

/-! ### What holds between transactions -/

/-- Between transactions the contracts rest and no temporary balance is left. -/
structure Calm (s : State) : Prop where
  resting : s.manager.Resting
  balances : s.manager.balances = ∅

/-- All native tokens together fit in 256 bits, too. -/
structure Sane (s : State) : Prop extends Calm s where
  fits : total s.accounts < 2 ^ 256

theorem Calm.call {C : Crypto} {depth : Nat} {s : State} (h : s.Calm) {tx : TxBlock}
    {accounts : Accounts} {o : ContractManager.TxOutcome}
    (ho : s.manager.callContract C depth (s.beforeCall accounts tx).processingPayable accounts tx =
      some o) :
    ContractManager.CallEffect (s.beforeCall accounts tx).processingPayable accounts s.manager tx o ∧
      o.manager.balances = ∅ := by
  have heff := ContractManager.callContract_effect h.resting ho
  refine ⟨heff, heff.balances fun hp => ?_⟩
  show (s.manager.isPayable tx.txToCallInfo || s.processingPayable) = true
  rw [hp]; rfl

/-- A contract call keeps the total, whether it returns or throws. -/
theorem Calm.call_total {C : Crypto} {depth : Nat} {s : State} (h : s.Calm) {tx : TxBlock}
    {accounts : Accounts} {o : ContractManager.TxOutcome} (hfit : total accounts < 2 ^ 256)
    (ho : s.manager.callContract C depth (s.beforeCall accounts tx).processingPayable accounts tx =
      some o) : total o.accounts = total accounts := by
  rcases (h.call ho).1.ledger with he | ⟨m₁, he, hview, hlegal, -⟩
  · rw [he]
  · rw [view_of_empty h.balances] at hview hlegal
    rw [he]
    exact (total_payable hfit hlegal hview).2

/-- A contract call takes nothing from an address that is not a contract. -/
theorem Calm.call_balance {C : Crypto} {depth : Nat} {s : State} (h : s.Calm) {tx : TxBlock}
    {accounts : Accounts} {o : ContractManager.TxOutcome}
    (ho : s.manager.callContract C depth (s.beforeCall accounts tx).processingPayable accounts tx =
      some o) {a : Address} (ha : a ∉ s.manager.contracts) :
    balance accounts a ≤ balance o.accounts a := by
  rcases (h.call ho).1.ledger with he | ⟨m₁, he, hview, -, hsrc⟩
  · rw [he]
  · rw [he, balance_payable, hview, view_of_empty h.balances]
    exact Ledger.le_run fun src dst n e hm he => ha (he ▸ hsrc src dst n e hm)

theorem refund_eq_ok {s s' : State} {tx : TxBlock} (h : refund s tx = (.ok (), s')) :
    s'.manager = s.manager ∧ s'.processingPayable = s.processingPayable ∧
      total s'.accounts = total s.accounts + tx.value.val ∧
      (∀ a, balance s'.accounts a =
        balance s.accounts a + if a = tx.sender then tx.value.val else 0) ∧
      (∀ a, nonce s'.accounts a =
        if a = tx.sender then nonce s.accounts a + 1 else nonce s.accounts a) ∧
      (∀ a ∈ s.accounts, a ∈ s'.accounts) := by
  unfold refund at h
  cases hadd : uadd (account s.accounts tx.sender).balance tx.value with
  | error e => rw [hadd] at h; cases h
  | ok x =>
    rw [hadd] at h
    cases h
    have hx := uadd_eq_ok.mp hadd
    rw [balance_account] at hx
    have htotal := total_setBalance s.accounts tx.sender x
    refine ⟨rfl, rfl, ?_, fun a => ?_, fun a => ?_, fun a ha => ?_⟩
    · show total (incNonce _ _) = _
      rw [total_incNonce]
      omega
    · show balance (incNonce _ _) a = _
      rw [balance_incNonce, balance_setBalance]
      split
      · rename_i ha; rw [ha]; exact hx
      · rfl
    · show nonce (incNonce _ _) a = _
      rw [nonce_incNonce, nonce_setBalance]
    · exact mem_incNonce.mpr (Or.inr (mem_setBalance.mpr (Or.inr ha)))

theorem refund_state (s : State) (tx : TxBlock) :
    ∃ accounts, (refund s tx).2 = { s with accounts } := by
  unfold refund
  split <;> exact ⟨_, rfl⟩

theorem processTransaction_resting {C : Crypto} {depth : Nat} {s : State} {tx : TxBlock}
    {p : Except Exn Unit × State} (h : s.manager.Resting)
    (hp : processTransaction C depth s tx = some p) : p.2.manager.Resting := by
  cases (processTransaction_run hp).2 with
  | stopped e accounts ht =>
    obtain ⟨accounts', he⟩ := refund_state { s with accounts } tx
    rw [he]
    exact h
  | plain accounts ht hcall => exact h
  | threw accounts o e ht hcall ho he =>
    obtain ⟨accounts', hr⟩ := refund_state (s.afterCall accounts tx o) tx
    rw [hr]
    exact (ContractManager.callContract_effect h ho).resting
  | called accounts o ht hcall ho hr => exact (ContractManager.callContract_effect h ho).resting

theorem processTransaction_frame {C : Crypto} {depth : Nat} {s : State} {tx : TxBlock}
    {p : Except Exn Unit × State} (hp : processTransaction C depth s tx = some p) :
    p.2.mempool = s.mempool ∧ p.2.rdpos = s.rdpos ∧ p.2.storage = s.storage := by
  cases (processTransaction_run hp).2 with
  | stopped e accounts ht =>
    obtain ⟨accounts', he⟩ := refund_state { s with accounts } tx
    rw [he]
    exact ⟨rfl, rfl, rfl⟩
  | plain accounts ht hcall => exact ⟨rfl, rfl, rfl⟩
  | threw accounts o e ht hcall ho he =>
    obtain ⟨accounts', hr⟩ := refund_state (s.afterCall accounts tx o) tx
    rw [hr]
    exact ⟨rfl, rfl, rfl⟩
  | called accounts o ht hcall ho hr => exact ⟨rfl, rfl, rfl⟩

theorem txRun_frame {C : Crypto} {depth : Nat} {s s' : State} {tx : TxBlock}
    {r : Except Exn Unit} (h : s.Calm) (hrun : TxRun C depth s tx (r, s')) :
    s'.Calm ∧ s'.mempool = s.mempool ∧ s'.rdpos = s.rdpos ∧ s'.storage = s.storage := by
  generalize hp : (r, s') = p at hrun
  cases hrun with
  | stopped e accounts ht =>
    obtain ⟨accounts', he⟩ := refund_state { s with accounts } tx
    rw [← hp] at he
    cases he
    exact ⟨⟨h.resting, h.balances⟩, rfl, rfl, rfl⟩
  | plain accounts ht hcall => cases hp; exact ⟨⟨h.resting, h.balances⟩, rfl, rfl, rfl⟩
  | threw accounts o e ht hcall ho he =>
    obtain ⟨accounts', hr⟩ := refund_state (s.afterCall accounts tx o) tx
    rw [← hp] at hr
    cases hr
    exact ⟨⟨(h.call ho).1.resting, (h.call ho).2⟩, rfl, rfl, rfl⟩
  | called accounts o ht hcall ho hr =>
    cases hp
    exact ⟨⟨(h.call ho).1.resting, (h.call ho).2⟩, rfl, rfl, rfl⟩

/-! ### Exceptions that escape -/

/-- The sender cannot pay for the transaction, and giving its value back overflows. -/
def Stuck (accounts : Accounts) (tx : TxBlock) : Prop :=
  ¬ Covered accounts tx ∧ 2 ^ 256 ≤ balance accounts tx.sender + tx.value.val

theorem refund_eq_error {s s' : State} {tx : TxBlock} {e : Exn}
    (h : refund s tx = (.error e, s')) :
    s' = s ∧ 2 ^ 256 ≤ balance s.accounts tx.sender + tx.value.val := by
  unfold refund at h
  split at h
  · rename_i hadd
    cases h
    have hover := (uadd_eq_error.mp hadd).2
    rw [balance_account] at hover
    exact ⟨rfl, hover⟩
  · cases h

theorem isContractAddress_of_call {m : ContractManager} {tx : TxBlock}
    (h : m.isContractCall tx = true) : m.isContractAddress tx.receiver = true := by
  simp only [ContractManager.isContractCall, Bool.or_eq_true, decide_eq_true_eq] at h
  rcases h with h | h
  · rw [h]
    simp [ContractManager.isContractAddress, protocolContractAddresses]
  · exact h

/-- **The only exception that escapes** from a transaction of a sender that is no contract is
    the overflow of a refund for what was never paid; it leaves everything as it was. -/
theorem processTransaction_escapes {C : Crypto} {depth : Nat} {s s' : State} {tx : TxBlock}
    {e : Exn} (h : s.manager.Resting) (hout : s.manager.isContractAddress tx.sender = false)
    (hp : processTransaction C depth s tx = some (.error e, s')) :
    s' = s ∧ Stuck s.accounts tx := by
  have hlt := balance_lt s.accounts tx.sender
  have hrun := (processTransaction_run hp).2
  generalize hpair : ((.error e, s') : Except Exn Unit × State) = p at hrun
  cases hrun with
  | stopped e' accounts ht =>
    obtain ⟨rfl, hover⟩ := refund_eq_error hpair.symm
    change 2 ^ 256 ≤ balance accounts tx.sender + _ at hover
    rcases transferValue_cases s.accounts tx with ⟨hn, e', ht'⟩ | ⟨-, e', accounts', ht', hd⟩ |
      ⟨-, accounts', ht', -⟩
    all_goals
      rw [ht] at ht'
      cases ht'
    · exact ⟨rfl, hn, hover⟩
    · -- What was debited comes back.
      have := hd.balance tx.sender
      rw [if_pos rfl] at this
      omega
  | plain accounts ht hcall => cases hpair
  | threw accounts o e' ht hcall ho he =>
    obtain ⟨-, hover⟩ := refund_eq_error hpair.symm
    have hsame : o.accounts = accounts := (ContractManager.callContract_effect h ho).failed e' he
    have hne : tx.sender ≠ tx.receiver := by
      intro heq
      rw [heq, isContractAddress_of_call hcall] at hout
      cases hout
    have := (transferValue_moved ht).balance tx.sender
    rw [if_pos rfl, if_neg hne] at this
    change 2 ^ 256 ≤ balance o.accounts tx.sender + _ at hover
    rw [hsame] at hover
    omega
  | called accounts o ht hcall ho hr => cases hpair

end State

end OrbiterSdk

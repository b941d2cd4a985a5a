import OrbiterSdk.Core.Recorded
import OrbiterSdk.Core.Run

namespace OrbiterSdk

/-!
# Token moves of contracts

Contracts move native tokens through `sendTokens`, on the temporary balances of the manager.
`State::processContractPayable` writes those back, but only after a top-level call of a
payable function, and it writes whatever is there: also what an earlier simulation left.

* `MovesKept` — when nothing is lost and nothing is added;
* `processTransaction_moves` — exactly then the moves of a transaction reach `State`;
* `nativeDeposit_loses` — a deposit after a simulated withdrawal.
-/

namespace State

open Accounts

variable {C : Crypto} {depth : Nat}

/-- Nothing comes between the moves and `State`.  When the temporary balances are written
    back, those left from before the call agree with `State` (up to transfers that were cut
    after the debit); when they are not, what contracts sent and received cancels out. -/
def MovesKept (m : ContractManager) (accounts : Accounts) (tx : TxBlock)
    (events : List (Ledger.Event Address)) : Prop :=
  if m.writesBack tx then
    ∀ a, m.view accounts a = balance accounts a + Ledger.cutflow events a
  else ∀ a, Ledger.outflow events a = Ledger.inflow events a

/-- Without leftovers and without cut transfers, a payable call keeps every move. -/
theorem movesKept_of_empty {m : ContractManager} {accounts : Accounts} {tx : TxBlock}
    {events : List (Ledger.Event Address)} (hback : m.writesBack tx = true)
    (hempty : m.balances = ∅) (huncut : Ledger.Uncut events) : MovesKept m accounts tx events := by
  rw [MovesKept, if_pos hback]
  intro a
  rw [view_of_empty hempty, Ledger.cutflow_eq_zero huncut, Nat.add_zero]

theorem callContract_moves_iff {m : ContractManager} {pp : Bool} {accounts : Accounts}
    {tx : TxBlock} {o : ContractManager.TxOutcome} (h : m.Resting)
    (ho : m.callContract C depth pp accounts tx = some o) (hret : o.returned = true) :
    (∀ a, balance o.accounts a + Ledger.outflow o.trace.events a =
        balance accounts a + Ledger.inflow o.trace.events a) ↔
      MovesKept m accounts tx o.trace.events := by
  rcases ContractManager.callContract_moves h ho hret with ⟨hback, hacc⟩ | ⟨hback, hbal, hlegal⟩
  · rw [MovesKept, if_neg (by simp [hback]), hacc]
    exact forall_congr' fun a => Nat.add_left_cancel_iff
  · rw [MovesKept, if_pos hback, hbal]
    refine forall_congr' fun a => ?_
    have := Ledger.run_add_outflow hlegal a
    omega

/-- **Token moves.**  In every state that a run of a fresh node and then any transactions lead
    to, let the contract call of a transaction return.  Every address ends with what it had
    just before the call, plus what was sent to it, minus what was sent from it, exactly when
    the moves are kept. -/
theorem processTransaction_moves {s₀ s s₁ s₂ : State} {ops : List Op} {before : List TxBlock}
    {tx : TxBlock} {accounts : Accounts} {o : ContractManager.TxOutcome} (h₀ : s₀.Initial)
    (hrun : Machine.run (Op.apply C depth) ops s₀ = some s)
    (hbefore : processTransactions C depth before s = some (.ok (), s₁))
    (ht : transferValue s₁.accounts tx = (.ok (), accounts))
    (ho : s₁.callOutcome C depth tx = some o) (hret : o.returned = true)
    (hp : processTransaction C depth s₁ tx = some (.ok (), s₂)) :
    (∀ a, balance s₂.accounts a + Ledger.outflow o.trace.events a =
        balance accounts a + Ledger.inflow o.trace.events a) ↔
      MovesKept s₁.manager accounts tx o.trace.events := by
  have hrest : s₁.manager.Resting :=
    processTransactions_invariant (I := fun s => s.manager.Resting)
      (fun _ _ _ h hp => processTransaction_resting h hp) (run_resting h₀ hrun) hbefore
  have hrun₁ := (processTransaction_run hp).2
  generalize hpair : ((.ok (), s₂) : Except Exn Unit × State) = p at hrun₁
  cases hrun₁ with
  | stopped e accounts' ht' => rw [ht] at ht'; cases ht'
  | plain accounts' ht' hcall => simp [callOutcome, ht', hcall] at ho
  | threw accounts' o' e ht' hcall ho' he =>
    rw [callOutcome_of_call ht' hcall ho', Option.some.injEq] at ho
    subst ho
    rw [ContractManager.TxOutcome.returned, he] at hret
    cases hret
  | called accounts' o' ht' hcall ho' hr =>
    rw [callOutcome_of_call ht' hcall ho', Option.some.injEq] at ho
    subst ho
    cases ht.symm.trans ht'
    cases hpair
    rw [← callContract_moves_iff hrest ho' hret]
    refine forall_congr' fun a => ?_
    show balance (incNonce _ _) a + _ = _ ↔ _
    rw [balance_incNonce]

/-- The genesis account creates a NativeWrapper, deposits in it and withdraws a part. -/
theorem processTransaction_moves_withdraw :
    ∃ s s₁ s₂ accounts o, genesis Recorded.crypto = .ok s ∧
      processTransactions Recorded.crypto 1
        [Recorded.createNativeWrapper, Recorded.nativeDeposit 100] s = some (.ok (), s₁) ∧
      transferValue s₁.accounts (Recorded.nativeWithdraw 10) = (.ok (), accounts) ∧
      s₁.callOutcome Recorded.crypto 1 (Recorded.nativeWithdraw 10) = some o ∧
      processTransaction Recorded.crypto 1 s₁ (Recorded.nativeWithdraw 10) = some (.ok (), s₂) ∧
      Ledger.inflow o.trace.events contractCreator = 10 ∧
      balance s₂.accounts contractCreator = balance accounts contractCreator + 10 := by
  have hlook : (Recorded.start fun s =>
      Recorded.settled (processTransactions Recorded.crypto 1
        [Recorded.createNativeWrapper, Recorded.nativeDeposit 100] s) fun s₁ =>
          Recorded.inspect 1 s₁ (Recorded.nativeWithdraw 10) fun _ o _ =>
            ((o.returned, s₁.manager.writesBack (Recorded.nativeWithdraw 10)),
              Ledger.inflow o.trace.events contractCreator,
              Ledger.outflow o.trace.events contractCreator,
              o.trace.events.all fun e => !e.isCut)) = some ((true, true), 10, 0, true) := by
    decide +kernel
  obtain ⟨s, hs, hlook⟩ := Recorded.start_eq_some hlook
  obtain ⟨s₁, hs₁, hlook⟩ := Recorded.settled_eq_some hlook
  obtain ⟨accounts, o, s₂, ht, ho, hp, hlook⟩ := Recorded.inspect_eq_some hlook
  obtain ⟨hcall, hlook⟩ := Prod.mk.inj hlook
  obtain ⟨hret, hback⟩ := Prod.mk.inj hcall
  obtain ⟨hin, hlook⟩ := Prod.mk.inj hlook
  obtain ⟨hout, hcut⟩ := Prod.mk.inj hlook
  have hstart := genesis_initial hs
  have hcalm : s₁.Calm := processTransactions_invariant
    (fun _ _ _ h hp => (txRun_frame h (processTransaction_run hp).2).1)
    ⟨hstart.resting, hstart.balances⟩ hs₁
  have huncut : Ledger.Uncut o.trace.events := fun src dst n hm => by
    simpa [Ledger.Event.isCut] using List.all_eq_true.mp hcut _ hm
  have hrun : Machine.run (Op.apply Recorded.crypto 1) [] s = some s := rfl
  have hmoves := (processTransaction_moves hstart hrun hs₁ ht ho hret hp).mpr
    (movesKept_of_empty hback hcalm.balances huncut) contractCreator
  rw [hin, hout] at hmoves
  exact ⟨s, s₁, s₂, accounts, o, hs, hs₁, ht, ho, hp, hin, hmoves⟩

/-- The genesis account creates a NativeWrapper, deposits 100 and simulates a withdrawal of 10;
    the temporary balances stay.  When it then deposits 5, no contract sends anything, yet
    afterwards the contract has 90 and not 105. -/
theorem nativeDeposit_loses :
    ∃ s s₁ s₂ accounts o, genesis Recorded.crypto = .ok s ∧
      Machine.run (Recorded.perform 1) [.inl Recorded.createNativeWrapper,
        .inl (Recorded.nativeDeposit 100), .inr (Recorded.nativeWithdraw 10).txToCallInfo] s =
          some s₁ ∧
      transferValue s₁.accounts (Recorded.nativeDeposit 5) = (.ok (), accounts) ∧
      s₁.callOutcome Recorded.crypto 1 (Recorded.nativeDeposit 5) = some o ∧
      o.returned = true ∧
      processTransaction Recorded.crypto 1 s₁ (Recorded.nativeDeposit 5) = some (.ok (), s₂) ∧
      Ledger.inflow o.trace.events Recorded.firstContract = 0 ∧
      Ledger.outflow o.trace.events Recorded.firstContract = 0 ∧
      balance accounts Recorded.firstContract = 105 ∧
      balance s₂.accounts Recorded.firstContract = 90 := by
  have hlook : (Recorded.start fun s =>
      (Machine.run (Recorded.perform 1) [.inl Recorded.createNativeWrapper,
        .inl (Recorded.nativeDeposit 100), .inr (Recorded.nativeWithdraw 10).txToCallInfo] s).bind
          fun s₁ : State => Recorded.inspect 1 s₁ (Recorded.nativeDeposit 5) fun accounts o s₂ =>
            (o.returned, Ledger.inflow o.trace.events Recorded.firstContract,
              Ledger.outflow o.trace.events Recorded.firstContract,
              balance accounts Recorded.firstContract,
              balance s₂.accounts Recorded.firstContract)) = some (true, 0, 0, 105, 90) := by
    decide +kernel
  obtain ⟨s, hs, hlook⟩ := Recorded.start_eq_some hlook
  obtain ⟨s₁, hs₁, hlook⟩ := Option.bind_eq_some_iff.mp hlook
  obtain ⟨accounts, o, s₂, ht, ho, hp, hlook⟩ := Recorded.inspect_eq_some hlook
  obtain ⟨hret, hlook⟩ := Prod.mk.inj hlook
  obtain ⟨hin, hlook⟩ := Prod.mk.inj hlook
  obtain ⟨hout, hlook⟩ := Prod.mk.inj hlook
  obtain ⟨hbefore, hafter⟩ := Prod.mk.inj hlook
  exact ⟨s, s₁, s₂, accounts, o, hs, hs₁, ht, ho, hret, hp, hin, hout, hbefore, hafter⟩

end State

end OrbiterSdk

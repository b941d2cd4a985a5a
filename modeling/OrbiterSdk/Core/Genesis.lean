import OrbiterSdk.Core.State

namespace OrbiterSdk

/-!
# A fresh node

What the constructors of `State`, `Storage` and `rdPoS` make of an empty database.
-/

/-- The account `State::State` puts into an empty database. -/
def genesisAccounts : Accounts :=
  (∅ : Accounts).insert contractCreator { balance := ⟨10 ^ 21, State.thousandTokens_lt⟩, nonce := 0 }

/-- The private key of the genesis block. -/
def genesisKey : PrivKey :=
  FixedStr.ofNat 32 0xe89ef6409c467285bcae9f80ab1cfeb3487cfe61ab28fb7d36443e1daa0c2867

/-- The block of `Storage::initializeBlockchain`. -/
def genesisBlock (C : Crypto) : Block :=
  ((Block.new FixedStr.zero 1656356645000000 0).finalize C genesisKey 1656356646000000).2

theorem genesisBlock_fields (C : Crypto) :
    (genesisBlock C).nHeight = 0 ∧ (genesisBlock C).txs = [] := by
  unfold genesisBlock Block.finalize
  split
  · exact ⟨rfl, rfl⟩
  · split <;> exact ⟨rfl, rfl⟩

/-- The validators of `rdPoS::initializeBlockchain`. -/
def defaultValidators : List Address :=
  [FixedStr.ofNat 20 0x7588b0f553d1910266089c58822e1120db47e572,
    FixedStr.ofNat 20 0xcabf34a268847a610287709d841e5cd590cc5c00,
    FixedStr.ofNat 20 0x5fb516dc2cfc1288e689ed377a9eebe2216cf1e3,
    FixedStr.ofNat 20 0x795083c42583842774febc21abb6df09e784fce5,
    FixedStr.ofNat 20 0xbec7b74f70c151707a0bfb20fe3767c6e65499e0]

/-- The entries `rdPoS::initializeBlockchain` puts into an empty database. -/
def genesisValidators : AssocMap Bytes Address :=
  defaultValidators.zipIdx.foldl (fun db p => db.insert (BigEndian.fixed 8 p.2) p.1) ∅

/-- A manager without contracts. -/
def ContractManager.empty : ContractManager :=
  { contracts := ∅, balances := ∅, locals := .init, rdposLocals := .init }

namespace State

/-- A fresh node. -/
def genesis (C : Crypto) : Except Exn State := do
  let block := genesisBlock C
  return { accounts := genesisAccounts, mempool := ∅, processingPayable := false
           manager := .empty, rdpos := ← RdPoS.load C genesisValidators block
           storage := Storage.ofBlock C block }

end State

end OrbiterSdk

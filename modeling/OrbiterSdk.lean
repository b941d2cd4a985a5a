import OrbiterSdk.Contract.AbiBounds
import OrbiterSdk.Contract.AbiHeader
import OrbiterSdk.Contract.Deployment
import OrbiterSdk.Contract.NativeSupply
import OrbiterSdk.Contract.Reload
import OrbiterSdk.Contract.Residue
import OrbiterSdk.Contract.SafeMap
import OrbiterSdk.Contract.SafeScalars
import OrbiterSdk.Contract.SendTokens
import OrbiterSdk.Core.AccountDb
import OrbiterSdk.Core.Agreement
import OrbiterSdk.Core.Atomicity
import OrbiterSdk.Core.BlockBinding
import OrbiterSdk.Core.BlockRoundTrip
import OrbiterSdk.Core.ChainId
import OrbiterSdk.Core.Conservation
import OrbiterSdk.Core.Interleaving
import OrbiterSdk.Core.PlainBlocks
import OrbiterSdk.Core.Producer
import OrbiterSdk.Core.Purity
import OrbiterSdk.Core.Refresh
import OrbiterSdk.Core.Replicas
import OrbiterSdk.Core.RoundCheck
import OrbiterSdk.Core.Sequence
import OrbiterSdk.Core.StorageCache
import OrbiterSdk.Core.StorageEnds
import OrbiterSdk.Core.TokenMoves
import OrbiterSdk.Core.TxHeaders
import OrbiterSdk.Core.TxInjective
import OrbiterSdk.Core.ValidatorPool
import OrbiterSdk.Core.Withdrawal
import OrbiterSdk.Core.Worker
import OrbiterSdk.Net.AnswerBounds
import OrbiterSdk.Net.Gossip
import OrbiterSdk.Net.Lookup
import OrbiterSdk.Net.Requests
import OrbiterSdk.Net.Sessions
import OrbiterSdk.Utils.BlockLoops
import OrbiterSdk.Utils.Checksum
import OrbiterSdk.Utils.MerkleProof

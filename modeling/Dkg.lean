import Dkg.ContextGraphValue.History
import Dkg.Merkle.ProofMaterial
import Dkg.ConvictionStaking.Enumeration
import Dkg.Staking.Vault
import Dkg.Staking.Solvency
import Dkg.Staking.FeeWithdrawals
import Dkg.RandomSampling.WeightedDraw
import Dkg.ShardingTable.Runs
import Dkg.PublishingConviction.Agents
import Dkg.KnowledgeAssets.UpdateAcks
import Dkg.KnowledgeAssets.Membership
import Dkg.Identity.Registry
import Dkg.ContextGraphs.Governance
import Dkg.Hub.Status
import Dkg.AttestedAssets.HonestAcks
import Dkg.AttestedAssets.Opening
import Dkg.AkaEncodings.Proposals
import Dkg.Publisher.UpdateOrder
import Dkg.Sync.SingleUse
import Dkg.Sync.DurableSync
import Dkg.AsyncLift.SinglePublish
import Dkg.RandomSampling.ProverWal
import Dkg.Ccl.Stratified
import Dkg.Sync.NQuadCodec
import Dkg.Query.RemoteConfinement
import Dkg.KnowledgeAssets.Distribution
import Dkg.GraphNames.Separation
import Dkg.Messaging.Nonces
import Dkg.Messaging.Authenticity
import Dkg.ChainEvents.Cursor
import Dkg.Staking.Relock
import Dkg.Staking.Redelegate
import Dkg.ConvictionStaking.Settlement
import Dkg.SharedMemory.WriteLocks
import Dkg.Staking.FeeLookup
import Dkg.Ccl.FactHash
import Dkg.Gossip.PolicyBindings
import Dkg.Assertions.Conservation
import Dkg.AckDigests.VerifyCollector
import Dkg.PrivateAccess.ContentStore
import Dkg.Sync.AgentVerification
import Dkg.PrivateAccess.AccessClient
import Dkg.Messaging.PeerKeys
import Dkg.EpochStorage.RangePool
import Dkg.Publisher.LeafEncoding
import Dkg.Messaging.RateLimiter

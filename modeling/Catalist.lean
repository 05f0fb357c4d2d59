import Catalist.Lib.Checked
import Catalist.Lib.Sums
import Catalist.Lib.ShareRate
import Catalist.WithdrawalQueue.Base
import Catalist.WithdrawalQueue.Effects
import Catalist.Lib.Transition
import Catalist.Lib.Escrow
import Catalist.Lib.IndexTable
import Catalist.Oracle.Base
import Catalist.WithdrawalQueue.Invariant
import Catalist.WithdrawalQueue.Solvency
import Catalist.Oracle.HashConsensus
import Catalist.Lib.Majority
import Catalist.Oracle.Effects
import Catalist.Oracle.Support
import Catalist.Oracle.Steps
import Catalist.Oracle.Agreement
import Catalist.Oracle.QuorumSafety
import Catalist.Lib.Outcome
import Catalist.Pool.Base
import Catalist.Pool.RebaseLimiter
import Catalist.Pool.BACE
import Catalist.Pool.Consent
import Catalist.Pool.SanityChecker
import Catalist.Pool.System
import Catalist.Pool.Catalist
import Catalist.Pool.Effects
import Catalist.Pool.Report
import Catalist.Pool.Steps
import Catalist.Pool.Accounting
import Catalist.Lib.SharePool
import Catalist.Pool.Dilution
import Catalist.Pool.Custody
import Catalist.Lib.ByteBuffer
import Catalist.Registry.Packed64x4
import Catalist.Registry.MinFirstAllocation
import Catalist.Registry.SigningKeys
import Catalist.Registry.Base
import Catalist.Registry.Keys
import Catalist.Registry.Invariant
import Catalist.Registry.Footprint
import Catalist.Registry.Effects
import Catalist.Registry.Limits
import Catalist.Registry.KeyEffects
import Catalist.Registry.Allocation
import Catalist.Registry.Deposits
import Catalist.Registry.Steps
import Catalist.Registry.Consistency
import Catalist.Registry.DepositOnce
import Catalist.Lib.Loop
import Catalist.Lib.Calldata
import Catalist.Oracle.AccountingOracle
import Catalist.Oracle.ExtraDataFormat
import Catalist.Oracle.ExtraDataParser
import Catalist.Oracle.ExtraDataSubmission
import Catalist.Oracle.ExtraDataRuns
import Catalist.Oracle.ValidatorsExitBus
import Catalist.Oracle.ExitRequests
import Catalist.Oracle.ExitHistory
import Catalist.Oracle.NestedCalls
import Catalist.Oracle.Processing
import Catalist.Oracle.AccountingReport
import Catalist.Pool.ReportErrors
import Catalist.Oracle.ProcessingDiscipline
import Catalist.Registry.KeyStorage
import Catalist.Registry.Penalty
import Catalist.Registry.Nonce
import Catalist.Registry.VettedKeys
import Catalist.Registry.KeyLists
import Catalist.Pool.BurnRequests
import Catalist.Pool.BurnerCoverage
import Catalist.Pool.BurnerRuns
import Catalist.WithdrawalQueue.Representation
import Catalist.Lib.History
import Catalist.Lib.Rollback
import Catalist.WithdrawalQueue.Callbacks
import Catalist.WithdrawalQueue.Entitlement
import Catalist.Router.Base
import Catalist.Router.Allocation
import Catalist.Router.Deposits
import Catalist.Router.Invariant
import Catalist.Router.Rewards
import Catalist.Router.FeeSplit
import Catalist.Router.Registries
import Catalist.Router.ExitedCounts
import Catalist.Router.ActiveCounts
import Catalist.Router.Credentials
import Catalist.Router.ExitedRuns
import Catalist.Guardians.DepositContract
import Catalist.Guardians.DepositSecurityModule
import Catalist.Guardians.Committee
import Catalist.Guardians.GuardedRuns
import Catalist.Guardians.Pause
import Catalist.Lib.Certificate
import Catalist.Lib.Leveling
import Catalist.Registry.NaiveAllocation
import Catalist.WithdrawalQueue.Hints
import Catalist.Pool.WbACE
import Catalist.Lib.RateLimit
import Catalist.Oracle.FrameRuns
import Catalist.Pool.StakeLimit
import Catalist.Pool.FeeShares
import Catalist.WithdrawalQueue.HintLists
import Catalist.Lib.Grouping
import Catalist.WithdrawalQueue.Prefinalize
import Catalist.WithdrawalQueue.Batches
import Catalist.WithdrawalQueue.BatchRuns
import Catalist.WithdrawalQueue.BatchAmounts
import Catalist.Lib.Rotation
import Catalist.Oracle.FastLane
import Catalist.Oracle.MemberView
import Catalist.Lib.CallEncoding
import Catalist.Registry.ReportCalldata
import Catalist.Lib.Memory
import Catalist.MemUtils
import Catalist.EnumerableSet
import Catalist.AccessControl
import Catalist.WithdrawalQueue.Tokens
import Catalist.WithdrawalQueue.Status
import Catalist.Guardians.BeaconChainDepositor
import Catalist.Registry.UnsafeUpdate
import Catalist.Registry.RewardsDistribution
import Catalist.Guardians.CanDeposit
import Catalist.Oracle.LegacyOracle
import Catalist.Lib.MerkleTree
import Catalist.Guardians.DepositTree
import Catalist.Router.Renewal
import Catalist.Pool.Permit
import Catalist.Oracle.PoolReports
import Catalist.Registry.Upgrade
import Catalist.Pool.Limits
import Catalist.Oracle.ItemLimits

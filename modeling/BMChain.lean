import BMChain.App.HistoryComplete
import BMChain.App.Impacted
import BMChain.App.SyncHandshake
import BMChain.App.Synopsis
import BMChain.App.SynopsisShape
import BMChain.Chain.Atomicity
import BMChain.Chain.BlockLog
import BMChain.Chain.BlockLookup
import BMChain.Chain.BlockSession
import BMChain.Chain.CommonBranch
import BMChain.Chain.ForkBranch
import BMChain.Chain.ForkDatabase
import BMChain.Chain.ForkHead
import BMChain.Chain.IndexRebuild
import BMChain.Chain.Irreversibility
import BMChain.Chain.KnownBlock
import BMChain.Chain.LookupRuns
import BMChain.Chain.LookupSession
import BMChain.Chain.Opening
import BMChain.Chain.PendingRuns
import BMChain.Chain.PendingTransactions
import BMChain.Chain.PushBlock
import BMChain.Chain.PushSteps
import BMChain.Chain.Replay
import BMChain.Chain.StoredBlocks
import BMChain.Chainbase.GenericIndex
import BMChain.Chainbase.Mutation
import BMChain.Chainbase.Restore
import BMChain.Chainbase.UndoExactness
import BMChain.Chainbase.UndoRecord
import BMChain.Chainbase.UniqueKeys
import BMChain.Foundation.ByteOrder
import BMChain.Foundation.CountedForest
import BMChain.Foundation.Decimal
import BMChain.Foundation.FileStream
import BMChain.Foundation.FiniteMap
import BMChain.Foundation.Forest
import BMChain.Foundation.Frame
import BMChain.Foundation.GreedyRemoval
import BMChain.Foundation.GuardedFold
import BMChain.Foundation.NumberedEntries
import BMChain.Foundation.OnwardWalk
import BMChain.Foundation.OrderedWalk
import BMChain.Foundation.PairTree
import BMChain.Foundation.PartialEffect
import BMChain.Foundation.RangeLookup
import BMChain.Foundation.Ranking
import BMChain.Foundation.RowCount
import BMChain.Foundation.SharePool
import BMChain.Foundation.ShiftRegister
import BMChain.Foundation.SnapshotStack
import BMChain.Foundation.Summaries
import BMChain.Foundation.Table
import BMChain.Foundation.TokenBucket
import BMChain.Foundation.WorkLoop
import BMChain.Plugins.AccountByKey
import BMChain.Plugins.AccountHistory
import BMChain.Plugins.Bandwidth
import BMChain.Plugins.Feed
import BMChain.Plugins.FeedWindow
import BMChain.Plugins.Follow
import BMChain.Plugins.FollowCounts
import BMChain.Plugins.Reputation
import BMChain.Plugins.TagStatistics
import BMChain.Plugins.TagSums
import BMChain.Plugins.Tags
import BMChain.Protocol.AccountNames
import BMChain.Protocol.Asset
import BMChain.Protocol.AssetParsing
import BMChain.Protocol.AssetText
import BMChain.Protocol.Authority
import BMChain.Protocol.AuthorityOrder
import BMChain.Protocol.AuthoritySearch
import BMChain.Protocol.Block
import BMChain.Protocol.FixedOrder
import BMChain.Protocol.FixedString
import BMChain.Protocol.MerkleRoot
import BMChain.Protocol.Operation
import BMChain.Protocol.PriceConversion
import BMChain.Protocol.SignState
import BMChain.Protocol.SignatureMinimisation
import BMChain.State.AcceptedPayout
import BMChain.State.AccountEvaluator
import BMChain.State.AccountRecovery
import BMChain.State.ApproximateRoot
import BMChain.State.BlockProduction
import BMChain.State.Cashout
import BMChain.State.CashoutRound
import BMChain.State.ClaimsDecay
import BMChain.State.Clock
import BMChain.State.CommentFrame
import BMChain.State.CommentOptions
import BMChain.State.CommentOverflow
import BMChain.State.CommentTree
import BMChain.State.Conservation
import BMChain.State.ContentEvaluator
import BMChain.State.ContentOrder
import BMChain.State.Coverage
import BMChain.State.CurationCurve
import BMChain.State.CurationRewards
import BMChain.State.CurationWeights
import BMChain.State.CustomInterpreter
import BMChain.State.CustomToken
import BMChain.State.DailyEmission
import BMChain.State.Database
import BMChain.State.Delegation
import BMChain.State.EscrowProtocol
import BMChain.State.Evaluator
import BMChain.State.FinalDecline
import BMChain.State.Footprint
import BMChain.State.FootprintBlock
import BMChain.State.FootprintDatabase
import BMChain.State.FootprintOperation
import BMChain.State.FootprintPayout
import BMChain.State.Holdings
import BMChain.State.InvariantCheck
import BMChain.State.IrreversibleBlock
import BMChain.State.KeptVotes
import BMChain.State.Ledger
import BMChain.State.LedgerBlock
import BMChain.State.LedgerFrame
import BMChain.State.LedgerOperation
import BMChain.State.LimitOrders
import BMChain.State.Maintenance
import BMChain.State.MarketEvaluator
import BMChain.State.Objects
import BMChain.State.OrderSettlement
import BMChain.State.PayoutRound
import BMChain.State.PayoutSplit
import BMChain.State.ProxyForest
import BMChain.State.ProxyVotes
import BMChain.State.QuietChain
import BMChain.State.RecoveryRuns
import BMChain.State.ReplayProtection
import BMChain.State.Reward
import BMChain.State.RewardClaims
import BMChain.State.RewardShares
import BMChain.State.Run
import BMChain.State.SavingsBound
import BMChain.State.SavingsWithdrawal
import BMChain.State.ScheduleForm
import BMChain.State.ScheduleRound
import BMChain.State.SlotNumbering
import BMChain.State.SlotRecord
import BMChain.State.Spending
import BMChain.State.TallyBound
import BMChain.State.TokenBalances
import BMChain.State.TokenEmissions
import BMChain.State.TokenSettings
import BMChain.State.Transaction
import BMChain.State.TransferEvaluator
import BMChain.State.VestingRate
import BMChain.State.VirtualRace
import BMChain.State.VirtualTime
import BMChain.State.VoteTotals
import BMChain.State.VotingPower
import BMChain.State.WithdrawalRoutes
import BMChain.State.WithdrawalSchedule
import BMChain.State.WitnessSchedule
import BMChain.State.WitnessTally
import BMChain.State.WitnessVotes

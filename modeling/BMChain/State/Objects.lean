import BMChain.Foundation.Table
import BMChain.Protocol.Block
import BMChain.Protocol.Operation

/-!
# The objects of the chain state

The object classes which the evaluators and the steps of a block read and
write, with the defaults of their constructors.  Amounts which the code keeps
in one fixed symbol are plain numbers; an amount whose symbol comes from an
operation keeps it.  Unsigned counters are naturals, and the operations that
can wrap around say so where they are written.  An object which is found by
its id is kept under that id, so the id is not a field of it.
-/

namespace BMChain.State

open BMChain.Foundation BMChain.Protocol

/-! ## Constants -/

/-- `BMCHAIN_MAX_PROXY_RECURSION_DEPTH`. -/
def maxProxyRecursionDepth : Nat := 4

/-- `BMCHAIN_MAX_WITNESSES`. -/
def maxWitnesses : Nat := 21

/-- `BMCHAIN_BLOCK_INTERVAL`. -/
def blockInterval : Nat := 3

/-- `BMCHAIN_BLOCKS_PER_DAY`. -/
def blocksPerDay : Nat := 24 * 60 * 60 / blockInterval

/-- `BMCHAIN_NULL_ACCOUNT`. -/
def nullAccount : AccountName := "null"

/-- `BMCHAIN_INIT_MINER_NAME`. -/
def initMinerName : AccountName := "initminer"

/-- `BMCHAIN_POST_REWARD_FUND_NAME`. -/
def postRewardFundName : String := "post"

/-! ## Accounts -/

/-- `account_object`. -/
structure AccountObject where
  id : Nat
  name : AccountName
  memoKey : PublicKey := 0
  jsonMetadata : Text := []
  proxy : AccountName := ""
  avatar : Text := []
  lastAccountUpdate : Time := 0
  created : Time := 0
  mined : Bool := true
  ownerChallenged : Bool := false
  activeChallenged : Bool := false
  lastActiveProved : Time := 0
  recoveryAccount : AccountName := ""
  lastAccountRecovery : Time := 0
  postCount : Nat := 0
  canVote : Bool := true
  votingPower : Int := 10000
  balance : Int := 0
  savingsBalance : Int := 0
  savingsWithdrawRequests : Nat := 0
  rewardBmtBalance : Int := 0
  rewardVestingBalance : Int := 0
  rewardVestingBmt : Int := 0
  curationRewards : Int := 0
  postingRewards : Int := 0
  vestingShares : Int := 0
  delegatedVestingShares : Int := 0
  receivedVestingShares : Int := 0
  savingsWithdrawRate : Int := 0
  nextSavingsWithdrawal : Time := maximumTime
  withdrawn : Int := 0
  toWithdraw : Int := 0
  withdrawRoutes : Nat := 0
  /-- `proxied_vsf_votes`, one entry for each proxy distance. -/
  proxiedVsfVotes : List Int := [0, 0, 0, 0]
  witnessesVotedFor : Nat := 0
  lastPost : Time := 0
  lastRootPost : Time := 0
  lastVoteTime : Time := 0
  postBandwidth : Nat := 0

namespace AccountObject

/-- `account_object::witness_vote_weight`, added up from the own shares on. -/
def witnessVoteWeight (account : AccountObject) : Except Fault Int :=
  account.proxiedVsfVotes.foldlM
    (fun total votes => checked (total + votes)) account.vestingShares

/-- `account_object::effective_vesting_shares`. -/
def effectiveVestingShares (account : AccountObject) : Except Fault Int := do
  let own ← checked (account.vestingShares - account.delegatedVestingShares)
  checked (own + account.receivedVestingShares)

end AccountObject

/-- `account_authority_object`. -/
structure AccountAuthorityObject where
  account : AccountName
  owner : Authority
  active : Authority
  posting : Authority
  lastOwnerUpdate : Time := 0

/-- `vesting_delegation_object`. -/
structure VestingDelegationObject where
  delegator : AccountName
  delegatee : AccountName
  vestingShares : Int
  minDelegationTime : Time

/-- `rep_delegation_expiration_object`. -/
structure DelegationExpirationObject where
  delegator : AccountName
  vestingShares : Int
  expiration : Time

/-- `owner_authority_history_object`. -/
structure OwnerAuthorityHistoryObject where
  account : AccountName
  previousOwnerAuthority : Authority
  lastValidTime : Time

/-- `account_recovery_request_object`. -/
structure AccountRecoveryRequestObject where
  accountToRecover : AccountName
  newOwnerAuthority : Authority
  expires : Time

/-- `change_recovery_account_request_object`. -/
structure ChangeRecoveryAccountRequestObject where
  accountToRecover : AccountName
  recoveryAccount : AccountName
  effectiveOn : Time

/-- `decline_voting_rights_request_object`. -/
structure DeclineVotingRightsRequestObject where
  account : Nat
  effectiveDate : Time

/-- `withdraw_rep_route_object`. -/
structure WithdrawRouteObject where
  fromAccount : Nat
  toAccount : Nat
  percent : Nat
  autoVest : Bool

/-! ## Comments -/

/-- `comment_object`. -/
structure CommentObject where
  category : Text := []
  parentAuthor : AccountName := ""
  parentPermlink : Text := []
  author : AccountName
  permlink : Text
  title : Text := []
  body : Text := []
  jsonMetadata : Text := []
  lastUpdate : Time := 0
  created : Time := 0
  active : Time := 0
  lastPayout : Time := 0
  depth : Nat := 0
  children : Nat := 0
  netRshares : Int := 0
  absRshares : Int := 0
  voteRshares : Int := 0
  childrenAbsRshares : Int := 0
  cashoutTime : Time := 0
  maxCashoutTime : Time := 0
  totalVoteWeight : Nat := 0
  rewardWeight : Nat := 0
  totalPayoutValue : Int := 0
  curatorPayoutValue : Int := 0
  beneficiaryPayoutValue : Int := 0
  authorRewards : Int := 0
  netVotes : Int := 0
  rootComment : Nat := 0
  maxAcceptedPayout : Int := 1000000000
  percentBmtDollars : Nat := 10000
  allowReplies : Bool := true
  allowVotes : Bool := true
  allowCurationRewards : Bool := true
  curationRewardsPercent : Nat := 2500
  beneficiaries : List BeneficiaryRoute := []
  encrypted : Bool := false
  privatePost : Bool := false
  owner : AccountName := ""
  encryptedBody : Text := []
  messageSize : Nat := 0
  checksum : Nat := 0
  nonce : Nat := 0
  price : Asset := bmt 0

/-- `comment_vote_object`. -/
structure CommentVoteObject where
  voter : Nat
  comment : Nat
  weight : Nat := 0
  rshares : Int := 0
  votePercent : Int := 0
  lastUpdate : Time := 0
  numChanges : Int := 0
  commentBmchain : Text := []

/-- `curve_id`. -/
inductive CurveId where
  | quadratic
  | quadraticCuration
  | linear
  | squareRoot
  | power17
  deriving DecidableEq

/-- `reward_fund_object`. -/
structure RewardFundObject where
  name : String
  rewardBalance : Int := 0
  recentClaims : Nat := 0
  lastUpdate : Time := 0
  contentConstant : Nat := 0
  percentCurationRewards : Nat := 0
  percentContentRewards : Nat := 0
  authorRewardCurve : CurveId := .power17
  curationRewardCurve : CurveId := .squareRoot

/-! ## Witnesses -/

/-- `witness_object::witness_schedule_type`. -/
inductive WitnessScheduleType where
  | elected
  | timeshare
  | miner
  | none
  deriving DecidableEq

/-- `fc::uint128::max_value`. -/
def maxUint128 : Nat := 2 ^ 128 - 1

/-- `witness_object`. -/
structure WitnessObject where
  id : Nat
  owner : AccountName
  created : Time := 0
  url : Text := []
  totalMissed : Nat := 0
  lastAslot : Nat := 0
  lastConfirmedBlockNum : Nat := 0
  powWorker : Nat := 0
  signingKey : PublicKey := 0
  props : ChainProperties :=
    ⟨bmt minAccountCreationFee, minBlockSizeLimit * 2⟩
  votes : Int := 0
  schedule : WitnessScheduleType := .none
  virtualLastUpdate : Nat := 0
  virtualPosition : Nat := 0
  virtualScheduledTime : Nat := maxUint128
  runningVersion : Nat := 0
  hardforkVersionVote : Nat := 0
  hardforkTimeVote : Time := genesisTime

/-- `witness_vote_object`. -/
structure WitnessVoteObject where
  witness : Nat
  account : Nat

/-- `witness_schedule_object`. -/
structure WitnessScheduleObject where
  currentVirtualTime : Nat := 0
  nextShuffleBlockNum : Nat := 1
  currentShuffledWitnesses : List AccountName
  numScheduledWitnesses : Nat := 1
  electedWeight : Nat := 1
  timeshareWeight : Nat := 5
  minerWeight : Nat := 1
  witnessPayNormalizationFactor : Nat := 25
  medianProps : ChainProperties :=
    ⟨bmt minAccountCreationFee, minBlockSizeLimit * 2⟩
  majorityVersion : Nat := 0
  maxVotedWitnesses : Nat := 20
  maxMinerWitnesses : Nat := 0
  hardforkRequiredWitnesses : Nat := 17

/-- `hardfork_property_object`; a version is its number. -/
structure HardforkPropertyObject where
  processedHardforks : List Time
  lastHardfork : Nat := 0
  currentHardforkVersion : Nat := 0
  nextHardfork : Nat := 0
  nextHardforkTime : Time := 0

/-! ## Market, escrows and orders -/

/-- `limit_order_object`. -/
structure LimitOrderObject where
  created : Time
  expiration : Time
  seller : AccountName
  orderid : Nat
  forSale : Int
  sellPrice : Price

namespace LimitOrderObject

/-- `limit_order_object::amount_for_sale`. -/
def amountForSale (order : LimitOrderObject) : Asset :=
  ⟨order.forSale, order.sellPrice.base.symbol⟩

/-- `limit_order_object::amount_to_receive`. -/
def amountToReceive (order : LimitOrderObject) : Except Fault Asset :=
  order.amountForSale.mul order.sellPrice

end LimitOrderObject

/-- `convert_request_object`. -/
structure ConvertRequestObject where
  owner : AccountName
  requestid : Nat
  amount : Asset

/-- `escrow_object`. -/
structure EscrowObject where
  escrowId : Nat
  fromAccount : AccountName
  toAccount : AccountName
  agent : AccountName
  ratificationDeadline : Time
  escrowExpiration : Time
  bmtBalance : Int
  pendingFee : Asset
  toApproved : Bool := false
  agentApproved : Bool := false
  disputed : Bool := false

/-- `escrow_object::is_approved`. -/
def EscrowObject.isApproved (escrow : EscrowObject) : Bool :=
  escrow.toApproved && escrow.agentApproved

/-- `savings_withdraw_object`. -/
structure SavingsWithdrawObject where
  fromAccount : AccountName
  toAccount : AccountName
  requestId : Nat
  amount : Asset
  complete : Time

/-- `content_order_object::order_status`. -/
inductive OrderStatus where
  | open
  | completed
  | canceled
  deriving DecidableEq

/-- `content_order_object`. -/
structure ContentOrderObject where
  sentTime : Time
  author : AccountName
  permlink : Text
  owner : AccountName
  price : Int
  status : OrderStatus
  jsonMetadata : Text := []

/-! ## Custom tokens -/

/-- `smt_phase`. -/
inductive SmtPhase where
  | accountElevated
  | setupCompleted
  | contributionBeginTimeCompleted
  | contributionEndTimeCompleted
  | launchTimeCompleted
  | launchFailed
  | launchSuccess
  deriving DecidableEq

/-- `custom_token_object`. -/
structure CustomTokenObject where
  controlAccount : AccountName
  symbol : AssetSymbol
  currentSupply : Asset
  rewardFund : Asset
  inflationRate : Nat := 0
  generationTime : Time := 0
  scheduleTime : Time := genesisTime
  intervalSeconds : Nat := 0
  intervalCount : Nat := 0
  allowVoting : Bool := false
  allowVesting : Bool := false
  phase : SmtPhase := .accountElevated

/-- `account_balance_object`. -/
structure AccountBalanceObject where
  symbol : AssetSymbol
  owner : AccountName
  balance : Asset

/-- `transaction_object`, kept to recognise duplicates. -/
structure TransactionObject where
  trxId : Nat
  expiration : Time

/-! ## Block headers -/

/-- `block_header_extensions`. -/
inductive HeaderExtension where
  | void
  | version (reported : Nat)
  | hardforkVersionVote (version : Nat) (time : Time)
  deriving DecidableEq

/--
What a signed header holds besides the id of its predecessor; the signature
stands for the key it was made with.
-/
structure HeaderContent where
  timestamp : Time
  witness : AccountName
  transactionMerkleRoot : Nat := 0
  extensions : List HeaderExtension := []
  signee : PublicKey
  deriving DecidableEq

/-- `signed_block_header`. -/
structure BlockHeader extends HeaderContent where
  previous : BlockId HeaderContent

namespace BlockHeader

/-- `block_num`. -/
def number (header : BlockHeader) : Nat :=
  (header.previous.num + 1) % 2 ^ 32

/-- `id`. -/
def id (header : BlockHeader) : BlockId HeaderContent :=
  .header header.toHeaderContent header.previous

end BlockHeader

/-! ## Global properties -/

/-- `dynamic_global_property_object`. -/
structure DynamicGlobalProperties where
  headBlockNumber : Nat := 0
  headBlockId : BlockId HeaderContent := .zero
  time : Time
  currentWitness : AccountName
  numPowWitnesses : Nat := 0
  virtualSupply : Int := 0
  currentSupply : Int := 0
  totalVestingFundBmt : Int := 0
  totalVestingShares : Int := 0
  totalRewardFundBmt : Int := 0
  totalRewardShares2 : Nat := 0
  pendingRewardedVestingShares : Int := 0
  pendingRewardedVestingBmt : Int := 0
  maximumBlockSize : Nat := 0
  currentAslot : Nat := 0
  recentSlotsFilled : Nat := 0
  participationCount : Nat := 0
  lastIrreversibleBlockNum : Nat := 0
  votePowerReserveRate : Nat := 10
  dailyEmission : Int := 0
  lastCurrentSupply : Int := 0

namespace DynamicGlobalProperties

/-- `get_vesting_share_price`. -/
def vestingSharePrice (props : DynamicGlobalProperties) : Price :=
  if props.totalVestingFundBmt = 0 ∨ props.totalVestingShares = 0 then
    ⟨bmt 1000, vests 1000000⟩
  else
    ⟨vests props.totalVestingShares, bmt props.totalVestingFundBmt⟩

/-- `get_reward_vesting_share_price`. -/
def rewardVestingSharePrice (props : DynamicGlobalProperties) :
    Except Fault Price := do
  let shares ←
    checked (props.totalVestingShares + props.pendingRewardedVestingShares)
  let fund ←
    checked (props.totalVestingFundBmt + props.pendingRewardedVestingBmt)
  pure ⟨vests shares, bmt fund⟩

end DynamicGlobalProperties

/-! ## The database -/

/-- The indexes and singletons of the chain state. -/
structure Database where
  accounts : Register AccountObject
  authorities : Register AccountAuthorityObject
  witnesses : Register WitnessObject
  witnessVotes : Table WitnessVoteObject
  comments : Table CommentObject
  commentVotes : Table CommentVoteObject
  rewardFunds : Table RewardFundObject
  limitOrders : Table LimitOrderObject
  convertRequests : Table ConvertRequestObject
  escrows : Table EscrowObject
  savingsWithdraws : Table SavingsWithdrawObject
  withdrawRoutes : Table WithdrawRouteObject
  contentOrders : Table ContentOrderObject
  delegations : Table VestingDelegationObject
  delegationExpirations : Table DelegationExpirationObject
  ownerHistory : Table OwnerAuthorityHistoryObject
  recoveryRequests : Table AccountRecoveryRequestObject
  changeRecoveryRequests : Table ChangeRecoveryAccountRequestObject
  declineRequests : Table DeclineVotingRightsRequestObject
  customTokens : Table CustomTokenObject
  accountBalances : Table AccountBalanceObject
  transactions : Table TransactionObject
  /-- The block ids remembered by the low bits of their numbers. -/
  blockSummaries : Std.ExtTreeMap Nat (BlockId HeaderContent)
  props : DynamicGlobalProperties
  schedule : WitnessScheduleObject
  hardforks : HardforkPropertyObject
  /-- The virtual operations pushed so far, the latest first. -/
  virtualOperations : List VirtualOperation

end BMChain.State

import BMChain.Protocol.Authority

/-!
# Operations

The operation structs of `bmchain_operations.hpp` and
`custom_token_operations.hpp`, in the order of the `operation` variant, with
their `validate` functions and the authorities they declare.

What the checks take from libraries outside the repository is a parameter:
the UTF-8 and JSON tests, the proofs of work, and the few computations which
the evaluators leave to `fc`, to floating point or to a plugin.
-/

namespace BMChain.Protocol

/-- `BMCHAIN_100_PERCENT`. -/
def hundredPercent : Nat := 10000

/-- `BMCHAIN_MAX_MEMO_SIZE`. -/
def maxMemoSize : Nat := 2048

/-- `BMCHAIN_MAX_PERMLINK_LENGTH`. -/
def maxPermlinkLength : Nat := 256

/-- `BMCHAIN_MIN_ACCOUNT_CREATION_FEE`. -/
def minAccountCreationFee : Int := 10000

/-- `BMCHAIN_MIN_BLOCK_SIZE_LIMIT`. -/
def minBlockSizeLimit : Nat := 1024 * 64

/-- `BMCHAIN_MIN_CURATION_PERCENT`. -/
def minCurationPercent : Nat := 2500

/-- `BMCHAIN_MAX_CURATION_PERCENT`. -/
def maxCurationPercent : Nat := hundredPercent

/-- `BMCHAIN_GENESIS_TIME`. -/
def genesisTime : Time := 1510655500

/-- The functions which the repository takes from outside. -/
structure External where
  /-- `fc::is_utf8`. -/
  isUtf8 : Text → Bool
  /-- `fc::json::is_valid`. -/
  isJson : Text → Bool
  /-- The `avatar` member of a metadata object, read as a string. -/
  avatarOf : Text → Except Fault (Option Text)
  /-- `fc::from_hex` into a buffer of the given size. -/
  fromHex : Text → Nat → Except Fault Text
  /-- A body after the edit text was applied by `diff_match_patch`. -/
  patchBody : Text → Text → Text
  /-- `std::pow( _, 1.7 )`, narrowed to 64 bits. -/
  pow17 : Nat → Nat
  /--
  `delta * savings / total` with `delta` a fifth of the growth of the supply,
  computed in floating point and truncated.
  -/
  savingReward : Int → Int → Int → Int
  /-- Whether the proof of work of a `pow` or `pow2` payload is a solution. -/
  isWork : Text → Bool
  /-- Whether the interpreter registered for an id throws on a producer. -/
  interpreterThrows : Text → Text → Bool
  /-- Whether the private message plugin has registered its index. -/
  hasMessageIndex : Bool

/-- `validate_permlink`. -/
def validatePermlink (ext : External) (permlink : Text) :
    Except Fault Unit := do
  require (permlink.length < maxPermlinkLength) "permlink is too long"
  require (ext.isUtf8 permlink) "permlink not formatted in UTF8"

/-- The checks on a metadata text, made when it is not empty. -/
def validateMetadata (ext : External) (metadata : Text) :
    Except Fault Unit := do
  require (metadata = [] ∨ ext.isUtf8 metadata)
    "JSON Metadata not formatted in UTF8"
  require (metadata = [] ∨ ext.isJson metadata)
    "JSON Metadata not valid JSON"

/-- The checks on a memo. -/
def validateMemo (ext : External) (memo : Text) : Except Fault Unit := do
  require (memo.length < maxMemoSize) "Memo is too large"
  require (ext.isUtf8 memo) "Memo is not UTF8"

/-! ## Accounts -/

structure AccountCreateOperation where
  fee : Asset
  creator : AccountName
  newAccountName : AccountName
  owner : Authority
  active : Authority
  posting : Authority
  memoKey : PublicKey
  jsonMetadata : Text

def AccountCreateOperation.validate (ext : External)
    (op : AccountCreateOperation) : Except Fault Unit := do
  validateAccountName op.newAccountName
  require (op.fee.symbol = bmtSymbol) "Account creation fee must be BMT"
  op.owner.validate
  op.active.validate
  validateMetadata ext op.jsonMetadata
  require (0 ≤ op.fee.amount) "Account creation fee cannot be negative"

structure AccountCreateWithDelegationOperation where
  fee : Asset
  delegation : Asset
  creator : AccountName
  newAccountName : AccountName
  owner : Authority
  active : Authority
  posting : Authority
  memoKey : PublicKey
  jsonMetadata : Text

def AccountCreateWithDelegationOperation.validate (ext : External)
    (op : AccountCreateWithDelegationOperation) : Except Fault Unit := do
  validateAccountName op.newAccountName
  validateAccountName op.creator
  require (op.fee.symbol = bmtSymbol) "Account creation fee must be BMT"
  require (op.delegation.symbol = vestsSymbol) "Delegation must be VESTS"
  op.owner.validate
  op.active.validate
  op.posting.validate
  validateMetadata ext op.jsonMetadata
  require (0 ≤ op.fee.amount) "Account creation fee cannot be negative"
  require (0 ≤ op.delegation.amount) "Delegation cannot be negative"

structure AccountUpdateOperation where
  account : AccountName
  owner : Option Authority
  active : Option Authority
  posting : Option Authority
  memoKey : PublicKey
  jsonMetadata : Text

def AccountUpdateOperation.validate (ext : External)
    (op : AccountUpdateOperation) : Except Fault Unit := do
  validateAccountName op.account
  validateMetadata ext op.jsonMetadata

structure ChallengeAuthorityOperation where
  challenger : AccountName
  challenged : AccountName
  requireOwner : Bool

def ChallengeAuthorityOperation.validate
    (op : ChallengeAuthorityOperation) : Except Fault Unit := do
  validateAccountName op.challenger
  validateAccountName op.challenged
  require (op.challenged ≠ op.challenger) "cannot challenge yourself"

structure RequestAccountRecoveryOperation where
  recoveryAccount : AccountName
  accountToRecover : AccountName
  newOwnerAuthority : Authority

def RequestAccountRecoveryOperation.validate
    (op : RequestAccountRecoveryOperation) : Except Fault Unit := do
  validateAccountName op.recoveryAccount
  validateAccountName op.accountToRecover
  op.newOwnerAuthority.validate

structure RecoverAccountOperation where
  accountToRecover : AccountName
  newOwnerAuthority : Authority
  recentOwnerAuthority : Authority

def RecoverAccountOperation.validate
    (op : RecoverAccountOperation) : Except Fault Unit := do
  validateAccountName op.accountToRecover
  require (op.newOwnerAuthority ≠ op.recentOwnerAuthority)
    "Cannot set new owner authority to the recent owner authority"
  require (!op.newOwnerAuthority.isImpossible)
    "new owner authority cannot be impossible"
  require (!op.recentOwnerAuthority.isImpossible)
    "recent owner authority cannot be impossible"
  require (op.newOwnerAuthority.weightThreshold ≠ 0)
    "new owner authority cannot be trivial"
  op.newOwnerAuthority.validate
  op.recentOwnerAuthority.validate

structure ChangeRecoveryAccountOperation where
  accountToRecover : AccountName
  newRecoveryAccount : AccountName

def ChangeRecoveryAccountOperation.validate
    (op : ChangeRecoveryAccountOperation) : Except Fault Unit := do
  validateAccountName op.accountToRecover
  validateAccountName op.newRecoveryAccount

structure ResetAccountOperation where
  resetAccount : AccountName
  accountToReset : AccountName
  newOwnerAuthority : Authority

def ResetAccountOperation.validate
    (op : ResetAccountOperation) : Except Fault Unit := do
  validateAccountName op.resetAccount
  validateAccountName op.accountToReset
  require (!op.newOwnerAuthority.isImpossible)
    "new owner authority cannot be impossible"
  require (op.newOwnerAuthority.weightThreshold ≠ 0)
    "new owner authority cannot be trivial"
  op.newOwnerAuthority.validate

structure SetResetAccountOperation where
  account : AccountName
  currentResetAccount : AccountName
  resetAccount : AccountName

def SetResetAccountOperation.validate
    (op : SetResetAccountOperation) : Except Fault Unit := do
  validateAccountName op.account
  if nameSize op.currentResetAccount = 0 then pure ()
  else validateAccountName op.currentResetAccount
  validateAccountName op.resetAccount
  require (op.currentResetAccount ≠ op.resetAccount)
    "new reset account cannot be current reset account"

structure DeclineVotingRightsOperation where
  account : AccountName
  decline : Bool

def DeclineVotingRightsOperation.validate
    (op : DeclineVotingRightsOperation) : Except Fault Unit :=
  validateAccountName op.account

/-! ## Comments and votes -/

structure CommentOperation where
  parentAuthor : AccountName
  parentPermlink : Text
  author : AccountName
  permlink : Text
  title : Text
  body : Text
  jsonMetadata : Text

def CommentOperation.validate (ext : External)
    (op : CommentOperation) : Except Fault Unit := do
  require (op.title.length < 256) "Title larger than size limit"
  require (ext.isUtf8 op.title) "Title not formatted in UTF8"
  require (0 < op.body.length) "Body is empty"
  require (ext.isUtf8 op.body) "Body not formatted in UTF8"
  if nameSize op.parentAuthor = 0 then pure ()
  else validateAccountName op.parentAuthor
  validateAccountName op.author
  validatePermlink ext op.parentPermlink
  validatePermlink ext op.permlink
  require (op.jsonMetadata = [] ∨ ext.isJson op.jsonMetadata)
    "JSON Metadata not valid JSON"

/-- `encrypted_content_operation`, which inherits `validate`. -/
structure EncryptedContentOperation extends CommentOperation where
  encryptedMessage : Text
  sentTime : Nat
  nonce : Nat
  messageSize : Nat
  checksum : Nat
  price : Asset
  owner : AccountName
  orderId : Nat
  applyOrder : Bool

/-- `beneficiary_route_type`. -/
structure BeneficiaryRoute where
  account : AccountName
  weight : Nat
  deriving DecidableEq

/-- The incremental checks of `comment_payout_beneficiaries::validate`. -/
def validateRoutes (sum : Nat) :
    Option BeneficiaryRoute → List BeneficiaryRoute → Except Fault Unit
  | _, [] => pure ()
  | previous, route :: rest => do
      validateAccountName route.account
      require (route.weight ≤ hundredPercent)
        "Cannot allocate more than 100% of rewards to one account"
      require (sum + route.weight ≤ hundredPercent)
        "Cannot allocate more than 100% of rewards to a comment"
      require (previous.all fun last => last.account < route.account)
        "Benficiaries must be specified in sorted order (account ascending)"
      validateRoutes (sum + route.weight) (some route) rest

/-- `comment_options_extension`. -/
inductive CommentOptionsExtension where
  | payoutBeneficiaries (beneficiaries : List BeneficiaryRoute)
  | curationRewardsPercent (percent : Nat)

/-- `comment_options_extension_validate_visitor`. -/
def CommentOptionsExtension.validate :
    CommentOptionsExtension → Except Fault Unit
  | .payoutBeneficiaries beneficiaries => do
      require (beneficiaries ≠ []) "Must specify at least one beneficiary"
      require (beneficiaries.length < 128)
        "Cannot specify more than 127 beneficiaries."
      validateRoutes 0 none beneficiaries
  | .curationRewardsPercent percent =>
      require (minCurationPercent ≤ percent ∧ percent ≤ maxCurationPercent)
        "Curation rewards percent must be between min and max."

structure CommentOptionsOperation where
  author : AccountName
  permlink : Text
  maxAcceptedPayout : Asset
  percentBmtDollars : Nat
  allowVotes : Bool
  allowCurationRewards : Bool
  extensions : List CommentOptionsExtension

def CommentOptionsOperation.validate (ext : External)
    (op : CommentOptionsOperation) : Except Fault Unit := do
  validateAccountName op.author
  require (op.percentBmtDollars ≤ hundredPercent) "Percent cannot exceed 100%"
  require (op.maxAcceptedPayout.symbol = bmtSymbol)
    "Max accepted payout must be in SBD"
  require (0 ≤ op.maxAcceptedPayout.amount) "Cannot accept less than 0 payout"
  validatePermlink ext op.permlink
  op.extensions.forM CommentOptionsExtension.validate

structure DeleteCommentOperation where
  author : AccountName
  permlink : Text

def DeleteCommentOperation.validate (ext : External)
    (op : DeleteCommentOperation) : Except Fault Unit := do
  validatePermlink ext op.permlink
  validateAccountName op.author

structure VoteOperation where
  voter : AccountName
  author : AccountName
  permlink : Text
  weight : Int
  commentBmchain : Text

def VoteOperation.validate (ext : External)
    (op : VoteOperation) : Except Fault Unit := do
  validateAccountName op.voter
  validateAccountName op.author
  require (op.weight.natAbs ≤ hundredPercent)
    "Weight is not a BMCHAIN percentage"
  validatePermlink ext op.permlink

/-! ## Transfers, vesting and savings -/

structure TransferOperation where
  fromAccount : AccountName
  toAccount : AccountName
  amount : Asset
  memo : Text

def TransferOperation.validate (ext : External)
    (op : TransferOperation) : Except Fault Unit := do
  validateAccountName op.fromAccount
  validateAccountName op.toAccount
  require (0 < op.amount.amount)
    "Cannot transfer a negative amount (aka: stealing)"
  validateMemo ext op.memo

structure TransferToVestingOperation where
  fromAccount : AccountName
  toAccount : AccountName
  amount : Asset

def TransferToVestingOperation.validate
    (op : TransferToVestingOperation) : Except Fault Unit := do
  validateAccountName op.fromAccount
  require (op.amount.symbol = bmtSymbol) "Amount must be BMT"
  if op.toAccount = "" then pure () else validateAccountName op.toAccount
  require (0 < op.amount.amount) "Must transfer a nonzero amount"

structure WithdrawSavingsOperation where
  account : AccountName
  savings : Asset

def WithdrawSavingsOperation.validate
    (op : WithdrawSavingsOperation) : Except Fault Unit := do
  validateAccountName op.account
  require (op.savings.symbol = bmtSymbol) "Amount must be BMT"

structure SetWithdrawSavingsRouteOperation where
  fromAccount : AccountName
  toAccount : AccountName
  percent : Nat
  autoVest : Bool

def SetWithdrawSavingsRouteOperation.validate
    (op : SetWithdrawSavingsRouteOperation) : Except Fault Unit := do
  validateAccountName op.fromAccount
  validateAccountName op.toAccount
  require (op.percent ≤ hundredPercent) "Percent must be valid steemit percent"

structure TransferToSavingsOperation where
  fromAccount : AccountName
  toAccount : AccountName
  amount : Asset
  memo : Text

def TransferToSavingsOperation.validate (ext : External)
    (op : TransferToSavingsOperation) : Except Fault Unit := do
  validateAccountName op.fromAccount
  validateAccountName op.toAccount
  require (0 < op.amount.amount) "amount.amount > 0"
  require (op.amount.symbol = bmtSymbol) "amount.symbol == BMT_SYMBOL"
  validateMemo ext op.memo

structure TransferFromSavingsOperation where
  fromAccount : AccountName
  requestId : Nat
  toAccount : AccountName
  amount : Asset
  memo : Text

def TransferFromSavingsOperation.validate (ext : External)
    (op : TransferFromSavingsOperation) : Except Fault Unit := do
  validateAccountName op.fromAccount
  validateAccountName op.toAccount
  require (0 < op.amount.amount) "amount.amount > 0"
  require (op.amount.symbol = bmtSymbol) "amount.symbol == BMT_SYMBOL"
  validateMemo ext op.memo

structure CancelTransferFromSavingsOperation where
  fromAccount : AccountName
  requestId : Nat

def CancelTransferFromSavingsOperation.validate
    (op : CancelTransferFromSavingsOperation) : Except Fault Unit :=
  validateAccountName op.fromAccount

structure ClaimRewardBalanceOperation where
  account : AccountName
  rewardBmt : Asset
  rewardVests : Asset

def ClaimRewardBalanceOperation.validate
    (op : ClaimRewardBalanceOperation) : Except Fault Unit := do
  validateAccountName op.account
  require (op.rewardBmt.symbol = bmtSymbol) "Reward Steem must be BMT"
  require (op.rewardVests.symbol = vestsSymbol) "Reward Steem must be REP"
  require (0 ≤ op.rewardBmt.amount) "Cannot claim a negative amount"
  require (0 ≤ op.rewardVests.amount) "Cannot claim a negative amount"
  require (0 < op.rewardBmt.amount ∨ 0 < op.rewardVests.amount)
    "Must claim something."

structure DelegateVestingSharesOperation where
  delegator : AccountName
  delegatee : AccountName
  vestingShares : Asset

def DelegateVestingSharesOperation.validate
    (op : DelegateVestingSharesOperation) : Except Fault Unit := do
  validateAccountName op.delegator
  validateAccountName op.delegatee
  require (op.delegator ≠ op.delegatee) "You cannot delegate VESTS to yourself"
  require (op.vestingShares.symbol = vestsSymbol) "Delegation must be VESTS"
  require (0 ≤ op.vestingShares.amount) "Delegation cannot be negative"

/-! ## Escrows -/

structure EscrowTransferOperation where
  fromAccount : AccountName
  toAccount : AccountName
  agent : AccountName
  escrowId : Nat
  bmtAmount : Asset
  fee : Asset
  ratificationDeadline : Time
  escrowExpiration : Time
  jsonMeta : Text

def EscrowTransferOperation.validate (ext : External)
    (op : EscrowTransferOperation) : Except Fault Unit := do
  validateAccountName op.fromAccount
  validateAccountName op.toAccount
  validateAccountName op.agent
  require (0 ≤ op.fee.amount) "fee cannot be negative"
  require (0 ≤ op.bmtAmount.amount) "steem amount cannot be negative"
  require (op.fromAccount ≠ op.agent ∧ op.toAccount ≠ op.agent)
    "agent must be a third party"
  require (op.fee.symbol = bmtSymbol) "fee must be BMT"
  require (op.bmtAmount.symbol = bmtSymbol) "steem amount must contain BMT"
  require (op.ratificationDeadline < op.escrowExpiration)
    "ratification deadline must be before escrow expiration"
  validateMetadata ext op.jsonMeta

structure EscrowApproveOperation where
  fromAccount : AccountName
  toAccount : AccountName
  agent : AccountName
  who : AccountName
  escrowId : Nat
  approve : Bool

def EscrowApproveOperation.validate
    (op : EscrowApproveOperation) : Except Fault Unit := do
  validateAccountName op.fromAccount
  validateAccountName op.toAccount
  validateAccountName op.agent
  validateAccountName op.who
  require (op.who = op.toAccount ∨ op.who = op.agent)
    "to or agent must approve escrow"

structure EscrowDisputeOperation where
  fromAccount : AccountName
  toAccount : AccountName
  agent : AccountName
  who : AccountName
  escrowId : Nat

def EscrowDisputeOperation.validate
    (op : EscrowDisputeOperation) : Except Fault Unit := do
  validateAccountName op.fromAccount
  validateAccountName op.toAccount
  validateAccountName op.agent
  validateAccountName op.who
  require (op.who = op.fromAccount ∨ op.who = op.toAccount) "who must be from or to"

structure EscrowReleaseOperation where
  fromAccount : AccountName
  toAccount : AccountName
  agent : AccountName
  who : AccountName
  receiver : AccountName
  escrowId : Nat
  bmtAmount : Asset

def EscrowReleaseOperation.validate
    (op : EscrowReleaseOperation) : Except Fault Unit := do
  validateAccountName op.fromAccount
  validateAccountName op.toAccount
  validateAccountName op.agent
  validateAccountName op.who
  validateAccountName op.receiver
  require (op.who = op.fromAccount ∨ op.who = op.toAccount ∨ op.who = op.agent)
    "who must be from or to or agent"
  require (op.receiver = op.fromAccount ∨ op.receiver = op.toAccount)
    "receiver must be from or to"
  require (0 ≤ op.bmtAmount.amount) "steem amount cannot be negative"
  require (op.bmtAmount.symbol = bmtSymbol) "steem amount must contain BMT"

/-! ## Witnesses -/

/-- `chain_properties`. -/
structure ChainProperties where
  accountCreationFee : Asset
  maximumBlockSize : Nat
  deriving DecidableEq

def ChainProperties.validate (props : ChainProperties) :
    Except Fault Unit := do
  require (minAccountCreationFee ≤ props.accountCreationFee.amount)
    "account_creation_fee.amount >= BMCHAIN_MIN_ACCOUNT_CREATION_FEE"
  require (minBlockSizeLimit ≤ props.maximumBlockSize)
    "maximum_block_size >= BMCHAIN_MIN_BLOCK_SIZE_LIMIT"

structure WitnessUpdateOperation where
  owner : AccountName
  url : Text
  blockSigningKey : PublicKey
  props : ChainProperties
  fee : Asset

def WitnessUpdateOperation.validate (ext : External)
    (op : WitnessUpdateOperation) : Except Fault Unit := do
  validateAccountName op.owner
  require (0 < op.url.length) "URL size must be greater than 0"
  require (ext.isUtf8 op.url) "URL is not valid UTF8"
  let fee ← op.fee.inSymbol bmtSymbol
  require (0 ≤ fee) "Fee cannot be negative"
  op.props.validate

structure AccountWitnessVoteOperation where
  account : AccountName
  witness : AccountName
  approve : Bool

def AccountWitnessVoteOperation.validate
    (op : AccountWitnessVoteOperation) : Except Fault Unit := do
  validateAccountName op.account
  validateAccountName op.witness

structure AccountWitnessProxyOperation where
  account : AccountName
  proxy : AccountName

def AccountWitnessProxyOperation.validate
    (op : AccountWitnessProxyOperation) : Except Fault Unit := do
  validateAccountName op.account
  if nameSize op.proxy = 0 then pure () else validateAccountName op.proxy
  require (op.proxy ≠ op.account) "Cannot proxy to self"

/-- `pow_operation`: the worker, the properties and the proof. -/
structure PowOperation where
  workerAccount : AccountName
  work : Text
  props : ChainProperties

def PowOperation.validate (ext : External) (op : PowOperation) :
    Except Fault Unit := do
  op.props.validate
  validateAccountName op.workerAccount
  require (ext.isWork op.work)
    "Determninistic input does not match recorded input"

/-- `pow2_operation`. -/
structure Pow2Operation where
  workerAccount : AccountName
  work : Text
  newOwnerKey : Option PublicKey
  props : ChainProperties

def Pow2Operation.validate (ext : External) (op : Pow2Operation) :
    Except Fault Unit := do
  op.props.validate
  validateAccountName op.workerAccount
  require (ext.isWork op.work)
    "reported work does not match calculated work"

/-- The parts of a `signed_block_header` that a report compares. -/
structure ReportedHeader where
  witness : AccountName
  timestamp : Time
  signee : PublicKey
  id : Nat

structure ReportOverProductionOperation where
  reporter : AccountName
  firstBlock : ReportedHeader
  secondBlock : ReportedHeader

def ReportOverProductionOperation.validate
    (op : ReportOverProductionOperation) : Except Fault Unit := do
  validateAccountName op.reporter
  validateAccountName op.firstBlock.witness
  require (op.firstBlock.witness = op.secondBlock.witness)
    "first_block.witness == second_block.witness"
  require (op.firstBlock.timestamp = op.secondBlock.timestamp)
    "first_block.timestamp == second_block.timestamp"
  require (op.firstBlock.signee = op.secondBlock.signee)
    "first_block.signee() == second_block.signee()"
  require (op.firstBlock.id ≠ op.secondBlock.id)
    "first_block.id() != second_block.id()"

/-! ## Market -/

structure FeedPublishOperation where
  publisher : AccountName
  exchangeRate : Price

structure ConvertOperation where
  owner : AccountName
  requestid : Nat
  amount : Asset

structure LimitOrderCreateOperation where
  owner : AccountName
  orderid : Nat
  amountToSell : Asset
  minToReceive : Asset
  fillOrKill : Bool
  expiration : Time

/-- `limit_order_create_operation::get_price`. -/
def LimitOrderCreateOperation.getPrice (op : LimitOrderCreateOperation) :
    Except Fault Price :=
  Price.ofAssets op.amountToSell op.minToReceive

structure LimitOrderCreate2Operation where
  owner : AccountName
  orderid : Nat
  amountToSell : Asset
  fillOrKill : Bool
  exchangeRate : Price
  expiration : Time

structure LimitOrderCancelOperation where
  owner : AccountName
  orderid : Nat

/-! ## Closed content and messages -/

structure ContentOrderCreateOperation where
  author : AccountName
  permlink : Text
  owner : AccountName
  price : Asset
  jsonMetadata : Text

def ContentOrderCreateOperation.validate
    (op : ContentOrderCreateOperation) : Except Fault Unit := do
  validateAccountName op.author
  validateAccountName op.owner
  require (op.author ≠ op.owner) "You cannot sell content to yourself"
  require (op.price.symbol = bmtSymbol) "Price must be BMT"

structure ContentOrderCancelOperation where
  owner : AccountName
  orderId : Nat

def ContentOrderCancelOperation.validate
    (op : ContentOrderCancelOperation) : Except Fault Unit :=
  validateAccountName op.owner

structure ContentOrderCancelByAuthorOperation where
  author : AccountName
  orderId : Nat

def ContentOrderCancelByAuthorOperation.validate
    (op : ContentOrderCancelByAuthorOperation) : Except Fault Unit :=
  validateAccountName op.author

/-- `private_message_operation`, whose text only a plugin stores. -/
structure PrivateMessageOperation where
  fromAccount : AccountName
  toAccount : AccountName
  fromMemoKey : PublicKey
  toMemoKey : PublicKey
  sentTime : Nat
  messageSize : Nat
  encryptedMessage : Text

def PrivateMessageOperation.validate
    (op : PrivateMessageOperation) : Except Fault Unit :=
  validateAccountName op.fromAccount

/-! ## Custom operations and custom tokens -/

structure CustomOperation where
  requiredAuths : List AccountName
  id : Nat
  data : Text

def CustomOperation.validate (op : CustomOperation) : Except Fault Unit :=
  require (op.requiredAuths ≠ []) "at least on account must be specified"

structure CustomJsonOperation where
  requiredAuths : List AccountName
  requiredPostingAuths : List AccountName
  id : Text
  json : Text

def CustomJsonOperation.validate (ext : External)
    (op : CustomJsonOperation) : Except Fault Unit := do
  require (op.requiredAuths ++ op.requiredPostingAuths ≠ [])
    "at least on account must be specified"
  require (op.id.length ≤ 32) "id is too long"
  require (ext.isUtf8 op.json) "JSON Metadata not formatted in UTF8"
  require (ext.isJson op.json) "JSON Metadata not valid JSON"

structure CustomBinaryOperation where
  requiredOwnerAuths : List AccountName
  requiredActiveAuths : List AccountName
  requiredPostingAuths : List AccountName
  requiredAuths : List Authority
  id : Text
  data : Text

def CustomBinaryOperation.validate
    (op : CustomBinaryOperation) : Except Fault Unit := do
  require (op.requiredOwnerAuths ++ op.requiredActiveAuths ++
      op.requiredPostingAuths ≠ [])
    "at least on account must be specified"
  require (op.id.length ≤ 32) "id is too long"
  op.requiredAuths.forM Authority.validate

structure CustomTokenCreateOperation where
  controlAccount : AccountName
  currentSupply : Asset
  customTokenCreationFee : Asset

structure CustomTokenTransferOperation where
  fromAccount : AccountName
  toAccount : AccountName
  amount : Asset

structure CustomTokenSetupEmissionsOperation where
  scheduleTime : Time
  controlAccount : AccountName
  symbol : Asset
  inflationRate : Nat
  intervalSeconds : Nat
  intervalCount : Nat

def CustomTokenSetupEmissionsOperation.validate
    (op : CustomTokenSetupEmissionsOperation) : Except Fault Unit :=
  require (genesisTime < op.scheduleTime)
    "schedule_time > BMCHAIN_GENESIS_TIME"

/-- `token_setup_parameter`. -/
inductive TokenSetupParameter where
  | allowVesting (value : Bool)
  | allowVoting (value : Bool)

structure CustomTokenSetSetupParametersOperation where
  controlAccount : AccountName
  symbol : Asset
  setupParameters : List TokenSetupParameter

/-! ## Virtual operations -/

/--
The virtual operations of the variant.  Those which no evaluator and no block
step pushes are kept without their fields.
-/
inductive VirtualOperation where
  | fillConvertRequest
  | authorReward (author : AccountName) (permlink : Text)
      (bmtPayout repPayout : Asset)
  | curationReward (curator : AccountName) (reward : Asset)
      (commentAuthor : AccountName) (commentPermlink : Text)
  | commentReward (author : AccountName) (permlink : Text) (payout : Asset)
  | liquidityReward
  | interest
  | fillRepWithdraw
  | fillOrder (currentOwner : AccountName) (currentOrderid : Nat)
      (currentPays : Asset) (openOwner : AccountName) (openOrderid : Nat)
      (openPays : Asset)
  | shutdownWitness (owner : AccountName)
  | fillTransferFromSavings
  | hardfork (hardforkId : Nat)
  | commentPayoutUpdate (author : AccountName) (permlink : Text)
  | returnVestingDelegation (account : AccountName) (vestingShares : Asset)
  | commentBenefactorReward (benefactor author : AccountName)
      (permlink : Text) (reward : Asset)
  | producerReward (producer : AccountName) (reward : Asset)

/-! ## The variant -/

/-- `operation`. -/
inductive Operation where
  | vote (op : VoteOperation)
  | comment (op : CommentOperation)
  | transfer (op : TransferOperation)
  | transferToVesting (op : TransferToVestingOperation)
  | withdrawSavings (op : WithdrawSavingsOperation)
  | limitOrderCreate (op : LimitOrderCreateOperation)
  | limitOrderCancel (op : LimitOrderCancelOperation)
  | feedPublish (op : FeedPublishOperation)
  | convert (op : ConvertOperation)
  | accountCreate (op : AccountCreateOperation)
  | accountUpdate (op : AccountUpdateOperation)
  | witnessUpdate (op : WitnessUpdateOperation)
  | accountWitnessVote (op : AccountWitnessVoteOperation)
  | accountWitnessProxy (op : AccountWitnessProxyOperation)
  | pow (op : PowOperation)
  | custom (op : CustomOperation)
  | reportOverProduction (op : ReportOverProductionOperation)
  | deleteComment (op : DeleteCommentOperation)
  | customJson (op : CustomJsonOperation)
  | commentOptions (op : CommentOptionsOperation)
  | setWithdrawSavingsRoute (op : SetWithdrawSavingsRouteOperation)
  | limitOrderCreate2 (op : LimitOrderCreate2Operation)
  | challengeAuthority (op : ChallengeAuthorityOperation)
  | proveAuthority
  | requestAccountRecovery (op : RequestAccountRecoveryOperation)
  | recoverAccount (op : RecoverAccountOperation)
  | changeRecoveryAccount (op : ChangeRecoveryAccountOperation)
  | escrowTransfer (op : EscrowTransferOperation)
  | escrowDispute (op : EscrowDisputeOperation)
  | escrowRelease (op : EscrowReleaseOperation)
  | pow2 (op : Pow2Operation)
  | escrowApprove (op : EscrowApproveOperation)
  | transferToSavings (op : TransferToSavingsOperation)
  | transferFromSavings (op : TransferFromSavingsOperation)
  | cancelTransferFromSavings (op : CancelTransferFromSavingsOperation)
  | customBinary (op : CustomBinaryOperation)
  | declineVotingRights (op : DeclineVotingRightsOperation)
  | resetAccount (op : ResetAccountOperation)
  | setResetAccount (op : SetResetAccountOperation)
  | claimRewardBalance (op : ClaimRewardBalanceOperation)
  | delegateVestingShares (op : DelegateVestingSharesOperation)
  | accountCreateWithDelegation (op : AccountCreateWithDelegationOperation)
  | contentOrderCreate (op : ContentOrderCreateOperation)
  | contentOrderCancel (op : ContentOrderCancelOperation)
  | encryptedContent (op : EncryptedContentOperation)
  | privateMessage (op : PrivateMessageOperation)
  | virtual (op : VirtualOperation)
  | contentOrderCancelByAuthor (op : ContentOrderCancelByAuthorOperation)
  | customTokenCreate (op : CustomTokenCreateOperation)
  | customTokenTransfer (op : CustomTokenTransferOperation)
  | customTokenSetupEmissions (op : CustomTokenSetupEmissionsOperation)
  | customTokenSetSetupParameters (op : CustomTokenSetSetupParametersOperation)

namespace Operation

/-- `operation_validate`.  The empty bodies accept everything. -/
def validate (ext : External) : Operation → Except Fault Unit
  | .vote op => op.validate ext
  | .comment op => op.validate ext
  | .transfer op => op.validate ext
  | .transferToVesting op => op.validate
  | .withdrawSavings op => op.validate
  | .limitOrderCreate _ => pure ()
  | .limitOrderCancel _ => pure ()
  | .feedPublish _ => pure ()
  | .convert _ => pure ()
  | .accountCreate op => op.validate ext
  | .accountUpdate op => op.validate ext
  | .witnessUpdate op => op.validate ext
  | .accountWitnessVote op => op.validate
  | .accountWitnessProxy op => op.validate
  | .pow op => op.validate ext
  | .custom op => op.validate
  | .reportOverProduction op => op.validate
  | .deleteComment op => op.validate ext
  | .customJson op => op.validate ext
  | .commentOptions op => op.validate ext
  | .setWithdrawSavingsRoute op => op.validate
  | .limitOrderCreate2 _ => pure ()
  | .challengeAuthority op => op.validate
  | .proveAuthority => pure ()
  | .requestAccountRecovery op => op.validate
  | .recoverAccount op => op.validate
  | .changeRecoveryAccount op => op.validate
  | .escrowTransfer op => op.validate ext
  | .escrowDispute op => op.validate
  | .escrowRelease op => op.validate
  | .pow2 op => op.validate ext
  | .escrowApprove op => op.validate
  | .transferToSavings op => op.validate ext
  | .transferFromSavings op => op.validate ext
  | .cancelTransferFromSavings op => op.validate
  | .customBinary op => op.validate
  | .declineVotingRights op => op.validate
  | .resetAccount op => op.validate
  | .setResetAccount op => op.validate
  | .claimRewardBalance op => op.validate
  | .delegateVestingShares op => op.validate
  | .accountCreateWithDelegation op => op.validate ext
  | .contentOrderCreate op => op.validate
  | .contentOrderCancel op => op.validate
  | .encryptedContent op => op.toCommentOperation.validate ext
  | .privateMessage op => op.validate
  | .virtual _ => .error "This is a virtual operation"
  | .contentOrderCancelByAuthor op => op.validate
  | .customTokenCreate _ => pure ()
  | .customTokenTransfer _ => pure ()
  | .customTokenSetupEmissions op => op.validate
  | .customTokenSetSetupParameters _ => pure ()

/-- `get_required_active_authorities`. -/
def requiredActive : Operation → List AccountName
  | .transfer op => if op.amount.symbol ≠ vestsSymbol then [op.fromAccount] else []
  | .transferToVesting op => [op.fromAccount]
  | .withdrawSavings op => [op.account]
  | .limitOrderCreate op => [op.owner]
  | .limitOrderCancel op => [op.owner]
  | .feedPublish op => [op.publisher]
  | .convert op => [op.owner]
  | .accountCreate op => [op.creator]
  | .accountUpdate op => if op.owner.isNone then [op.account] else []
  | .witnessUpdate op => [op.owner]
  | .accountWitnessVote op => [op.account]
  | .accountWitnessProxy op => [op.account]
  | .custom op => op.requiredAuths
  | .customJson op => op.requiredAuths
  | .setWithdrawSavingsRoute op => [op.fromAccount]
  | .limitOrderCreate2 op => [op.owner]
  | .challengeAuthority op => [op.challenger]
  | .requestAccountRecovery op => [op.recoveryAccount]
  | .escrowTransfer op => [op.fromAccount]
  | .escrowDispute op => [op.who]
  | .escrowRelease op => [op.who]
  | .pow2 op => if op.newOwnerKey.isNone then [op.workerAccount] else []
  | .escrowApprove op => [op.who]
  | .transferToSavings op => [op.fromAccount]
  | .transferFromSavings op => [op.fromAccount]
  | .cancelTransferFromSavings op => [op.fromAccount]
  | .customBinary op => op.requiredActiveAuths
  | .resetAccount op => [op.resetAccount]
  | .delegateVestingShares op => [op.delegator]
  | .accountCreateWithDelegation op => [op.creator]
  | .contentOrderCreate op => [op.owner]
  | .contentOrderCancel op => [op.owner]
  | .contentOrderCancelByAuthor op => [op.author]
  | .customTokenTransfer op => [op.fromAccount]
  | _ => []

/-- `get_required_owner_authorities`. -/
def requiredOwner : Operation → List AccountName
  | .transfer op => if op.amount.symbol = vestsSymbol then [op.fromAccount] else []
  | .accountUpdate op => if op.owner.isSome then [op.account] else []
  | .changeRecoveryAccount op => [op.accountToRecover]
  | .customBinary op => op.requiredOwnerAuths
  | .declineVotingRights op => [op.account]
  | .setResetAccount op =>
      if nameSize op.currentResetAccount ≠ 0 then [op.account] else []
  | .customTokenCreate op => [op.controlAccount]
  | .customTokenTransfer op => [op.fromAccount]
  | .customTokenSetupEmissions op => [op.controlAccount]
  | _ => []

/-- `get_required_posting_authorities`. -/
def requiredPosting : Operation → List AccountName
  | .vote op => [op.voter]
  | .comment op => [op.author]
  | .encryptedContent op => [op.author]
  | .commentOptions op => [op.author]
  | .deleteComment op => [op.author]
  | .customJson op => op.requiredPostingAuths
  | .customBinary op => op.requiredPostingAuths
  | .setResetAccount op =>
      if nameSize op.currentResetAccount = 0 then [op.account] else []
  | .claimRewardBalance op => [op.account]
  | .privateMessage op => [op.fromAccount]
  | _ => []

/-- `get_required_authorities`. -/
def requiredAuthorities : Operation → List Authority
  | .recoverAccount op => [op.newOwnerAuthority, op.recentOwnerAuthority]
  | .pow2 op =>
      match op.newOwnerKey with
      | some key => [⟨1, [], [(key, 1)]⟩]
      | none => []
  | .customBinary op => op.requiredAuths
  | _ => []

end Operation

end BMChain.Protocol

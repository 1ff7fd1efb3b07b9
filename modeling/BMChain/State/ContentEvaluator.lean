import BMChain.State.AccountEvaluator
import BMChain.State.Reward

/-!
# Evaluators for comments, votes and closed content

The `do_apply` functions for posts and replies, their options and their
removal, for votes, and for the orders by which closed content is sold.  The
build keeps the texts of comments (`IS_LOW_MEM` is not defined) and drops the
votes of paid comments (`CLEAR_VOTES` is defined).
-/

namespace BMChain.State

open BMChain.Foundation BMChain.Protocol

namespace Database

/-! ## Constants -/

/-- `BMCHAIN_MAX_COMMENT_DEPTH`. -/
def maxCommentDepth : Nat := 0xffff

/-- `BMCHAIN_MIN_ROOT_COMMENT_INTERVAL`. -/
def minRootCommentInterval : Int := 60 * 5

/-- `BMCHAIN_MIN_REPLY_INTERVAL`. -/
def minReplyInterval : Int := 20

/-- `BMCHAIN_POST_EMISSION_RATE`. -/
def postEmissionRate : Int := 5000

/-- `BMCHAIN_COMMENT_EMISSION_RATE`. -/
def commentEmissionRate : Int := 2000

/-- `BMCHAIN_VOTE_EMISSION_RATE`. -/
def voteEmissionRate : Int := 500

/-- `BMCHAIN_MIN_VOTE_INTERVAL_SEC`. -/
def minVoteIntervalSec : Int := 3

/-- `BMCHAIN_VOTE_REGENERATION_SECONDS`. -/
def voteRegenerationSeconds : Nat := 5 * 60 * 60 * 24

/-- `BMCHAIN_VOTE_DUST_THRESHOLD`. -/
def voteDustThreshold : Int := 10000

/-- `BMCHAIN_UPVOTE_LOCKOUT`. -/
def upvoteLockout : Nat := 60 * 60 * 12

/-- `BMCHAIN_REVERSE_AUCTION_TIME`. -/
def reverseAuctionTime : Time := 1467295200 - 60 * 60 * 24 * 6

/-- `BMCHAIN_REVERSE_AUCTION_WINDOW_SECONDS`. -/
def reverseAuctionWindowSeconds : Nat := 60 * 30

/-- `BMCHAIN_MAX_VOTE_CHANGES`. -/
def maxVoteChanges : Int := 5

/-- `BMCHAIN_USING_CLOSE_CONTENT`. -/
def usingCloseContent : Nat := 1

/-! ## Permlinks -/

/-- The bytes which `validate_permlink_0_1` lets through. -/
def isPermlinkByte (byte : UInt8) : Bool :=
  byte = 208 || byte = 209 || (176 ≤ byte && byte ≤ 191) ||
    (128 ≤ byte && byte ≤ 143) || byte = 145 || (97 ≤ byte && byte ≤ 122) ||
      (48 ≤ byte && byte ≤ 57) || byte = 45

/-- `validate_permlink_0_1`. -/
def validatePermlink01 (permlink : Text) : Except Fault Unit := do
  require (0 < permlink.length ∧ permlink.length < maxPermlinkLength)
    "Permlink is not a valid size."
  require (permlink.all isPermlinkByte) "Invalid permlink character"

/-- `strcmp_equal`. -/
def strcmpEqual (left right : Text) : Bool :=
  left.length = right.length || cString left = cString right

/-! ## Comments -/

/--
The walk from a comment up to its root post.  A chain of parents which does
not close visits every comment at most once.
-/
def updateParents (change : CommentObject → CommentObject) :
    Nat → Database → AccountName → Text → Except Fault Database
  | 0, _, _, _ => .error "endless chain of parents"
  | rounds + 1, db, author, permlink =>
      if author = "" then .ok db
      else do
        let (id, parent) ← db.getComment author permlink
        let db ← db.modifyComment id fun comment => pure (change comment)
        updateParents change rounds db parent.parentAuthor
          parent.parentPermlink

/-- An account which is challenged cannot act. -/
def requireUnchallenged (account : AccountObject) : Except Fault Unit :=
  require (!(account.ownerChallenged || account.activeChallenged))
    "Operation cannot be processed because account is currently challenged."

/-- The votes of a comment, by increasing voter. -/
def votesOfComment (db : Database) (comment : Nat) :
    List (Nat × CommentVoteObject) :=
  (db.commentVotes.entries.filter fun entry =>
    entry.2.comment = comment).insertionSort
      fun first second => first.2.voter ≤ second.2.voter

/-- `delete_comment_evaluator::do_apply`. -/
def deleteCommentEvaluator (op : DeleteCommentOperation) (db : Database) :
    Except Fault Database := do
  let author ← db.getAccount op.author
  requireUnchallenged author
  let (id, comment) ← db.getComment op.author op.permlink
  require (comment.children = 0) "Cannot delete a comment with replies."
  require (comment.cashoutTime ≠ maximumTime)
    "comment.cashout_time != fc::time_point_sec::maximum()"
  require (comment.netRshares ≤ 0)
    "Cannot delete a comment with net positive votes."
  let votes := (db.votesOfComment id).foldl
    (fun votes vote => votes.remove vote.1) db.commentVotes
  let db := { db with commentVotes := votes }
  let db ← updateParents
    (fun parent => { parent with
      children := decrement 32 parent.children
      active := db.headBlockTime })
    (db.comments.size + 1) db comment.parentAuthor comment.parentPermlink
  pure { db with comments := db.comments.remove id }

/-- `comment_options_extension_visitor`. -/
def applyCommentOption (id : Nat) (db : Database) :
    CommentOptionsExtension → Except Fault Database
  | .payoutBeneficiaries beneficiaries =>
      db.modifyComment id fun comment => do
        require (comment.beneficiaries = [])
          "Comment already has beneficiaries specified."
        require (comment.absRshares = 0)
          "Comment must not have been voted on before specifying beneficiaries."
        beneficiaries.forM fun route =>
          require (db.accounts.find? route.account).isSome
            "Beneficiary must exist."
        pure { comment with
          beneficiaries := comment.beneficiaries ++ beneficiaries }
  | .curationRewardsPercent percent => do
      require (minCurationPercent ≤ percent ∧ percent ≤ maxCurationPercent)
        "Curation rewards percent must be between min and max."
      db.modifyComment id fun comment =>
        pure { comment with curationRewardsPercent := percent }

/-- `comment_options_evaluator::do_apply`. -/
def commentOptionsEvaluator (op : CommentOptionsOperation) (db : Database) :
    Except Fault Database := do
  let author ← db.getAccount op.author
  requireUnchallenged author
  let (id, comment) ← db.getComment op.author op.permlink
  let payout ← op.maxAcceptedPayout.inSymbol bmtSymbol
  require
    ((op.allowCurationRewards ∧ op.allowVotes ∧
        comment.maxAcceptedPayout ≤ payout) ∨
      comment.absRshares = 0)
    "One of the included comment options requires the comment to have no rshares allocated to it."
  require (comment.allowCurationRewards || !op.allowCurationRewards)
    "Curation rewards cannot be re-enabled."
  require (comment.allowVotes || !op.allowVotes)
    "Voting cannot be re-enabled."
  require (payout ≤ comment.maxAcceptedPayout)
    "A comment cannot accept a greater payout."
  let db ← db.modifyComment id fun comment =>
    pure { comment with
      maxAcceptedPayout := payout
      percentBmtDollars := op.percentBmtDollars
      allowVotes := op.allowVotes
      allowCurationRewards := op.allowCurationRewards }
  op.extensions.foldlM (applyCommentOption id) db

/-- The parent which a comment names, with the check on its depth. -/
def findParent (db : Database) (op : CommentOperation) :
    Except Fault (Option CommentObject) :=
  if op.parentAuthor = "" then .ok none
  else do
    let (_, parent) ← db.getComment op.parentAuthor op.parentPermlink
    require (parent.depth < maxCommentDepth) "Comment is nested too deep"
    pure (some parent)

/-- The comment object which both comment evaluators create. -/
def freshComment (ext : External) (db : Database) (op : CommentOperation)
    (parent : Option CommentObject) : CommentObject :=
  let base : CommentObject :=
    { author := op.author
      permlink := op.permlink
      lastUpdate := db.headBlockTime
      created := db.headBlockTime
      active := db.headBlockTime
      lastPayout := 0
      maxCashoutTime := maximumTime
      rewardWeight := hundredPercent
      cashoutTime := addSeconds db.headBlockTime cashoutWindowSeconds
      title := op.title
      body := if op.body.length < 1024 * 1024 * 128 then op.body else []
      jsonMetadata := if ext.isUtf8 op.jsonMetadata then op.jsonMetadata else [] }
  match parent with
  | none =>
      { base with
        parentAuthor := ""
        parentPermlink := op.parentPermlink
        category := op.parentPermlink
        rootComment := db.comments.nextId }
  | some parent =>
      { base with
        parentAuthor := parent.author
        parentPermlink := parent.permlink
        depth := increment 16 parent.depth
        category := parent.category
        rootComment := parent.rootComment }

/-- Count a new comment for its author. -/
def countPost (db : Database) (op : CommentOperation) :
    Except Fault Database :=
  db.modifyAccount op.author fun account =>
    pure { account with
      lastRootPost :=
        if op.parentAuthor = "" then db.headBlockTime
        else account.lastRootPost
      lastPost := db.headBlockTime
      postCount := increment 32 account.postCount }

/-- Store a new comment, tell its parents, and pay the emission for it. -/
def storeComment (db : Database) (op : CommentOperation)
    (comment : CommentObject) : Except Fault Database := do
  validatePermlink01 op.parentPermlink
  validatePermlink01 op.permlink
  let comments ← createRow db.comments
    (fun other =>
      other.author = op.author ∧ cString other.permlink = cString op.permlink)
    comment
  let db := { db with comments := comments }
  let db ← updateParents
    (fun parent => { parent with
      children := increment 32 parent.children
      active := db.headBlockTime })
    (db.comments.size + 1) db op.parentAuthor op.parentPermlink
  db.processFundsBmchain
    (if nameSize comment.parentAuthor = 0 then postEmissionRate
      else commentEmissionRate)

/-- The edit of an existing comment. -/
def editComment (ext : External) (db : Database) (id : Nat)
    (op : CommentOperation) : Except Fault Database :=
  db.modifyComment id fun comment => do
    require (comment.parentAuthor = op.parentAuthor)
      "The parent of a comment cannot change."
    require (strcmpEqual comment.parentPermlink op.parentPermlink)
      "The permlink of a comment cannot change."
    pure { comment with
      lastUpdate := db.headBlockTime
      active := db.headBlockTime
      title := if op.title ≠ [] then op.title else comment.title
      jsonMetadata :=
        if op.jsonMetadata ≠ [] ∧ ext.isUtf8 op.jsonMetadata then
          op.jsonMetadata
        else comment.jsonMetadata
      body :=
        if op.body ≠ [] then ext.patchBody comment.body op.body
        else comment.body }

/-- The checks with which both comment evaluators begin. -/
def checkComment (ext : External) (db : Database) (op : CommentOperation) :
    Except Fault (AccountObject × Option CommentObject) := do
  require (op.title.length + op.body.length + op.jsonMetadata.length ≠ 0)
    "Cannot update comment because nothing appears to be changing."
  let author ← db.getAccount op.author
  requireUnchallenged author
  let parent ← db.findParent op
  require (op.jsonMetadata = [] ∨ ext.isUtf8 op.jsonMetadata)
    "JSON Metadata must be UTF-8"
  pure (author, parent)

/-- Whether the discussion of a parent accepts replies. -/
def checkReplies (db : Database) (parent : Option CommentObject) :
    Except Fault Unit :=
  match parent with
  | none => .ok ()
  | some parent => do
      let root ← db.getCommentById parent.rootComment
      require root.allowReplies "The parent comment has disabled replies."

/-- `comment_evaluator::do_apply`. -/
def commentEvaluator (ext : External) (op : CommentOperation)
    (db : Database) : Except Fault Database := do
  let (author, parent) ← db.checkComment ext op
  match db.findComment op.author op.permlink with
  | none => do
      db.checkReplies parent
      (if op.parentAuthor = "" then
        require
          (minRootCommentInterval ≤
            (db.headBlockTime : Int) - author.lastRootPost)
          "You may only post once every 5 minutes."
      else
        require
          (minReplyInterval ≤ (db.headBlockTime : Int) - author.lastPost)
          "You may only comment once every 20 seconds.")
      let db ← db.countPost op
      db.storeComment op (db.freshComment ext op parent)
  | some (id, _) => db.editComment ext id op

/-- Settle the order which an encrypted post is made for. -/
def settleOrder (db : Database) (author : AccountName) (orderId : Nat) :
    Except Fault Database := do
  let order ← db.getContentOrderById orderId
  require (order.status = .open) "This order is completed or canceled."
  let db ← db.addBalance author order.price
  db.modifyContentOrder orderId fun order =>
    { order with status := .completed }

/-- The fields which encrypted content adds to a comment. -/
def encryptComment (ext : External) (db : Database)
    (op : EncryptedContentOperation) (comment : CommentObject) :
    Except Fault CommentObject := do
  let message ← ext.fromHex op.encryptedMessage op.messageSize
  if op.encryptedMessage = [] then pure comment
  else
    let forOrder := usingCloseContent ≤ db.headBlockNum ∧ op.applyOrder
    pure { comment with
      encrypted := true
      checksum := op.checksum
      nonce := op.nonce
      messageSize := op.messageSize
      price := op.price
      encryptedBody := message
      privatePost := if forOrder then true else comment.privatePost
      owner := if forOrder then op.owner else comment.owner }

/-- `encrypted_content_evaluator::do_apply`. -/
def encryptedContentEvaluator (ext : External)
    (op : EncryptedContentOperation) (db : Database) :
    Except Fault Database := do
  let (author, parent) ← db.checkComment ext op.toCommentOperation
  let existing := db.findComment op.author op.permlink
  let db ←
    (if usingCloseContent ≤ db.headBlockNum ∧ op.applyOrder then
      db.settleOrder op.author op.orderId
    else pure db)
  match existing with
  | none => do
      db.checkReplies parent
      require
        (op.applyOrder ∨ op.parentAuthor ≠ "" ∨
          minRootCommentInterval ≤
            (db.headBlockTime : Int) - author.lastRootPost)
        "You may only post once every 5 minutes."
      let db ← db.countPost op.toCommentOperation
      let comment ← db.encryptComment ext op
        (db.freshComment ext op.toCommentOperation parent)
      db.storeComment op.toCommentOperation comment
  | some (id, _) => db.editComment ext id op.toCommentOperation

/-! ## Votes -/

/-- What a vote uses of the voter's power, and the shares it is worth. -/
structure VotePower where
  current : Int
  used : Int
  absRshares : Int

/-- The power and the shares of a vote with the given weight. -/
def votePower (db : Database) (voter : AccountObject) (weight : Int) :
    Except Fault VotePower := do
  let elapsed := (db.headBlockTime : Int) - voter.lastVoteTime
  require (minVoteIntervalSec ≤ elapsed) "Can only vote once every 3 seconds."
  let regenerated := (hundredPercent * elapsed).tdiv voteRegenerationSeconds
  let current := min (voter.votingPower + regenerated) hundredPercent
  require (0 < current) "Account currently does not have voting power."
  let weighed := (current * weight.natAbs).tdiv hundredPercent
  let denominator : Nat :=
    db.props.votePowerReserveRate * voteRegenerationSeconds % 2 ^ 32 /
      (60 * 60 * 24)
  require (0 < denominator) "max_vote_denom > 0"
  let used := (weighed + denominator - 1).tdiv denominator
  require (used ≤ current) "Account does not have enough power to vote."
  let effective ← voter.effectiveVestingShares
  let scaled := uint128 effective * uint128 used % 2 ^ 128 / hundredPercent
  let absRshares := wrapInt64 (toUint64 scaled)
  require (voteDustThreshold < absRshares ∨ weight = 0)
    "Voting weight is too small, please accumulate more voting power or BMT."
  pure ⟨current, used, absRshares⟩

/-- Upvotes are closed in the last hours before the payout. -/
def requireVotingOpen (db : Database) (comment : CommentObject)
    (raises : Bool) : Except Fault Unit :=
  require
    (!raises ∨
      (db.headBlockTime : Int) < (comment.cashoutTime : Int) - upvoteLockout)
    "Cannot increase payout within last twelve hours before payout."

/-- Take the used power from the voter. -/
def spendVotePower (db : Database) (voter : AccountName) (power : VotePower) :
    Except Fault Database :=
  db.modifyAccount voter fun account =>
    pure { account with
      votingPower := power.current - power.used
      lastVoteTime := db.headBlockTime }

/-- Add to the shares which a root post counts for its discussion. -/
def addChildrenRshares (db : Database) (root : Nat) (absRshares : Int) :
    Except Fault Database :=
  db.modifyComment root fun comment => do
    let total ← checked (comment.childrenAbsRshares + absRshares)
    pure { comment with childrenAbsRshares := total }

/-- The weight of a vote for curation before and after the time discount. -/
def curationWeight (ext : External) (db : Database) (comment : CommentObject)
    (oldVoteRshares rshares : Int) : Except Fault (Nat × Nat) := do
  let percent ← db.getCurationRewardsPercent
  if 0 < rshares ∧ comment.lastPayout = 0 ∧ comment.allowCurationRewards ∧
      0 < percent then do
    let full ←
      (if comment.created < reverseAuctionTime then
        pure (toUint64
          (rshares.toNat ^ 3 / comment.absRshares.toNat ^ 2))
      else do
        let (_, fund) ← db.getRewardFund
        let oldWeight ← evaluateRewardCurve ext (uint128 oldVoteRshares)
          fund.curationRewardCurve fund.contentConstant
        let newWeight ← evaluateRewardCurve ext (uint128 comment.voteRshares)
          fund.curationRewardCurve fund.contentConstant
        pure ((toUint64 newWeight + 2 ^ 64 - toUint64 oldWeight) % 2 ^ 64))
    let discounted :=
      if reverseAuctionTime < db.headBlockTime then
        let elapsed :=
          min ((db.headBlockTime : Int) - comment.created).toNat
            reverseAuctionWindowSeconds
        full * elapsed / reverseAuctionWindowSeconds % 2 ^ 64
      else full
    pure (full, discounted)
  else pure (0, 0)

/-- The first vote of an account on a comment. -/
def castVote (ext : External) (db : Database) (op : VoteOperation)
    (voter : AccountObject) (id : Nat) (comment : CommentObject)
    (power : VotePower) : Except Fault Database := do
  require (op.weight ≠ 0) "Vote weight cannot be 0."
  let rshares := if op.weight < 0 then -power.absRshares else power.absRshares
  db.requireVotingOpen comment (0 < rshares)
  let db ← db.spendVotePower op.voter power
  let _ ← db.getCommentById comment.rootComment
  require (0 < power.absRshares) "Cannot vote with 0 rshares."
  let net ← checked (comment.netRshares + rshares)
  let abs ← checked (comment.absRshares + power.absRshares)
  let upvotes ←
    (if 0 < rshares then checked (comment.voteRshares + rshares)
    else pure comment.voteRshares)
  let voted := { comment with
    netRshares := net
    absRshares := abs
    voteRshares := upvotes
    netVotes :=
      if 0 < rshares then (comment.netVotes + 1).bmod (2 ^ 32)
      else (comment.netVotes - 1).bmod (2 ^ 32) }
  let db := { db with comments := db.comments.set id voted }
  let db ← db.addChildrenRshares comment.rootComment power.absRshares
  let (full, weight) ←
    db.curationWeight ext voted comment.voteRshares rshares
  let db := { db with
    commentVotes := db.commentVotes.emplace
      { voter := voter.id
        comment := id
        weight := weight
        rshares := rshares
        votePercent := op.weight
        lastUpdate := db.headBlockTime
        commentBmchain := op.commentBmchain } }
  let db ← db.modifyComment id fun comment =>
    pure { comment with
      totalVoteWeight := (comment.totalVoteWeight + full) % 2 ^ 64 }
  db.processFundsBmchain voteEmissionRate

/-- How a changed vote moves the count of votes. -/
def netVotesChange (old new : Int) : Int :=
  if 0 < new ∧ old < 0 then 2
  else if 0 < new ∧ old = 0 then 1
  else if new = 0 ∧ old < 0 then 1
  else if new = 0 ∧ 0 < old then -1
  else if new < 0 ∧ old = 0 then -1
  else if new < 0 ∧ 0 < old then -2
  else 0

/-- The change of a vote which exists. -/
def changeVote (db : Database) (op : VoteOperation) (id : Nat)
    (comment : CommentObject) (voteId : Nat) (vote : CommentVoteObject)
    (power : VotePower) : Except Fault Database := do
  require (vote.numChanges < maxVoteChanges)
    "Voter has used the maximum number of vote changes on this comment."
  let rshares := if op.weight < 0 then -power.absRshares else power.absRshares
  db.requireVotingOpen comment (vote.rshares < rshares)
  let db ← db.spendVotePower op.voter power
  let _ ← db.getCommentById comment.rootComment
  let without ← checked (comment.netRshares - vote.rshares)
  let net ← checked (without + rshares)
  let abs ← checked (comment.absRshares + power.absRshares)
  let voted := { comment with
    netRshares := net
    absRshares := abs
    netVotes :=
      (comment.netVotes + netVotesChange vote.rshares rshares).bmod (2 ^ 32) }
  let db := { db with comments := db.comments.set id voted }
  let db ← db.addChildrenRshares comment.rootComment power.absRshares
  let db ← db.modifyComment id fun comment =>
    pure { comment with
      totalVoteWeight :=
        (comment.totalVoteWeight + (2 ^ 64 - vote.weight % 2 ^ 64)) % 2 ^ 64 }
  pure { db with
    commentVotes := db.commentVotes.set voteId
      { vote with
        rshares := rshares
        votePercent := op.weight
        lastUpdate := db.headBlockTime
        weight := 0
        numChanges := vote.numChanges + 1
        commentBmchain := op.commentBmchain } }

/-- `vote_evaluator::do_apply`. -/
def voteEvaluator (ext : External) (op : VoteOperation) (db : Database) :
    Except Fault Database := do
  let (id, comment) ← db.getComment op.author op.permlink
  let voter ← db.getAccount op.voter
  requireUnchallenged voter
  require voter.canVote "Voter has declined their voting rights."
  require (op.weight ≤ 0 ∨ comment.allowVotes)
    "Votes are not allowed on the comment."
  let payoutTime ← db.calculateDiscussionPayoutTime comment
  if payoutTime = maximumTime then pure db
  else do
    let power ← db.votePower voter op.weight
    match db.commentVotes.findBy fun vote =>
        vote.comment = id ∧ vote.voter = voter.id with
    | none => db.castVote ext op voter id comment power
    | some (voteId, vote) => db.changeVote op id comment voteId vote power

/-! ## Closed content -/

/-- The order of an owner for a post. -/
def findContentOrder (db : Database) (author : AccountName) (permlink : Text)
    (owner : AccountName) : Option (Nat × ContentOrderObject) :=
  db.contentOrders.findBy fun order =>
    order.author = author ∧ cString order.permlink = cString permlink ∧
      order.owner = owner

/-- `content_order_create_evaluator::do_apply`. -/
def contentOrderCreateEvaluator (op : ContentOrderCreateOperation)
    (db : Database) : Except Fault Database :=
  if db.headBlockNum < usingCloseContent then .ok db
  else do
    let owner ← db.getAccount op.owner
    let (_, comment) ← db.getComment op.author op.permlink
    let price ← op.price.inSymbol bmtSymbol
    require (price < owner.balance)
      "Cannot buy the encrypted post because balance doesn't have enough BMT."
    let accepted ← comment.price.le op.price
    require accepted "Offered price is not enough for buying this content."
    match db.findContentOrder op.author op.permlink op.owner with
    | none => do
        let db ← db.addBalance op.owner (-price)
        let orders ← createRow db.contentOrders
          (fun other => other.sentTime = db.headBlockTime)
          { sentTime := db.headBlockTime
            author := op.author
            permlink := op.permlink
            owner := op.owner
            price := price
            status := .open
            jsonMetadata := op.jsonMetadata }
        pure { db with contentOrders := orders }
    | some (id, order) =>
        if order.status = .open ∧ order.price ≠ price then do
          let difference ← checked (order.price - price)
          let db ← db.addBalance op.owner (-difference)
          db.modifyContentOrder id fun order => { order with price := price }
        else pure db

/-- Pay the price of an open order to an account and close the order. -/
def refundOrder (db : Database) (id : Nat) (order : ContentOrderObject)
    (name : AccountName) : Except Fault Database := do
  require (order.status = .open) "This order is completed or canceled."
  let db ← db.addBalance name order.price
  db.modifyContentOrder id fun order => { order with status := .canceled }

/-- `content_order_cancel_evaluator::do_apply`. -/
def contentOrderCancelEvaluator (op : ContentOrderCancelOperation)
    (db : Database) : Except Fault Database :=
  if db.headBlockNum < usingCloseContent then .ok db
  else do
    let order ← db.getContentOrderById op.orderId
    let _ ← db.getAccount op.owner
    db.refundOrder op.orderId order op.owner

/-- `content_order_cancel_by_author_evaluator::do_apply`. -/
def contentOrderCancelByAuthorEvaluator
    (op : ContentOrderCancelByAuthorOperation) (db : Database) :
    Except Fault Database :=
  if db.headBlockNum < usingCloseContent then .ok db
  else do
    let order ← db.getContentOrderById op.orderId
    let _ ← db.getAccount order.owner
    db.refundOrder op.orderId order order.owner

end Database

end BMChain.State

import BMChain.State.ContentEvaluator

/-!
# The payout of comments

`process_comment_cashout` with the helpers it calls.  The shares of a reward
are split between curators, beneficiaries and the author; what the author is
due is paid half in BMT and half in vesting shares at most.
-/

namespace BMChain.State

open BMChain.Foundation BMChain.Protocol

namespace Database

/-- `BMCHAIN_FIRST_PAYOUT_BLOCK`. -/
def firstPayoutBlock : Nat := 20 * 60 * 24 * 7

/-- `BMCHAIN_SECOND_CASHOUT_WINDOW`. -/
def secondCashoutWindow : Nat := 60 * 60 * 24 * 30

/-- `BMCHAIN_RECENT_RSHARES_DECAY_RATE`, in seconds. -/
def recentRsharesDecaySeconds : Nat := 60 * 60 * 24 * 15

/-! ## Curators -/

/-- The votes of a comment in the order of `by_comment_weight_voter`. -/
def votesByWeight (db : Database) (comment : Nat) :
    List (Nat × CommentVoteObject) :=
  (db.commentVotes.entries.filter fun entry =>
    entry.2.comment = comment).insertionSort fun first second =>
      second.2.weight < first.2.weight ∨
        (first.2.weight = second.2.weight ∧ first.2.voter ≤ second.2.voter)

/-- The part of the curation reward which a vote claims. -/
def curatorClaim (maxRewards : Int) (weight totalWeight : Nat) : Int :=
  wrapInt64
    (toUint64 (uint128 maxRewards * weight % 2 ^ 128 / totalWeight))

/-- Pay one curator out of what is not claimed yet. -/
def payCurator (comment : CommentObject) (maxRewards : Int)
    (paid : Database × Int) (vote : Nat × CommentVoteObject) :
    Except Fault (Database × Int) := do
  let claim := curatorClaim maxRewards vote.2.weight comment.totalVoteWeight
  if claim = 0 then pure paid
  else do
    let unclaimed ← checked (paid.2 - claim)
    let (name, _) ← paid.1.getAccountById vote.2.voter
    let (db, reward) ← paid.1.createVesting name claim true
    let db := db.pushVirtualOperation
      (.curationReward name (vests reward) comment.author comment.permlink)
    let db ← db.modifyAccount name fun account => do
      let rewards ← checked (account.curationRewards + claim)
      pure { account with curationRewards := rewards }
    pure (db, unclaimed)

/--
`pay_curators`: the state, the rewards which the curators received, and those
they did not claim.
-/
def payCurators (db : Database) (id : Nat) (comment : CommentObject)
    (maxRewards : Int) : Except Fault (Database × Int × Int) :=
  if !comment.allowCurationRewards then .ok (db, 0, 0)
  else do
    let (db, unclaimed) ←
      (if 0 < comment.totalVoteWeight then
        (db.votesByWeight id).foldlM (payCurator comment maxRewards)
          (db, maxRewards)
      else pure (db, maxRewards))
    let claimed ← checked (maxRewards - unclaimed)
    pure (db, claimed, unclaimed)

/-! ## Beneficiaries and the author -/

/-- Pay one beneficiary; the sum paid so far goes along. -/
def payBeneficiary (comment : CommentObject) (authorTokens : Int)
    (paid : Database × Int) (route : BeneficiaryRoute) :
    Except Fault (Database × Int) := do
  let scaled ← checked (authorTokens * route.weight)
  let tokens ← checkedDiv scaled hundredPercent
  let _ ← paid.1.getAccount route.account
  let (db, created) ← paid.1.createVesting route.account tokens true
  let db := db.pushVirtualOperation
    (.commentBenefactorReward route.account comment.author comment.permlink
      (vests created))
  let total ← checked (paid.2 + tokens)
  pure (db, total)

/-- `adjust_total_payout`. -/
def adjustTotalPayout (db : Database) (id : Nat)
    (created curator beneficiary : Int) : Except Fault Database :=
  db.modifyComment id fun comment => do
    let total ← checked (comment.totalPayoutValue + created)
    let curators ← checked (comment.curatorPayoutValue + curator)
    let beneficiaries ← checked (comment.beneficiaryPayoutValue + beneficiary)
    pure { comment with
      totalPayoutValue := total
      curatorPayoutValue := curators
      beneficiaryPayoutValue := beneficiaries }

/-- Pay the author, half in vesting shares at least. -/
def payAuthor (db : Database) (id : Nat) (comment : CommentObject)
    (authorTokens curationTokens beneficiaryTokens claimed : Int) :
    Except Fault Database := do
  let scaled ← checked (authorTokens * comment.percentBmtDollars)
  let liquid ← checkedDiv scaled (2 * hundredPercent)
  let vesting ← checked (authorTokens - liquid)
  let _ ← db.getAccount comment.author
  let (db, created) ← db.createVesting comment.author vesting false
  let db ← db.adjustBalance comment.author (bmt liquid)
  let payout ← checked (liquid + vesting)
  let db ← db.adjustTotalPayout id payout curationTokens beneficiaryTokens
  let db := db.pushVirtualOperation
    (.authorReward comment.author comment.permlink (bmt liquid)
      (vests created))
  let db := db.pushVirtualOperation
    (.commentReward comment.author comment.permlink (bmt claimed))
  let db ← db.modifyComment id fun comment => do
    let rewards ← checked (comment.authorRewards + authorTokens)
    pure { comment with authorRewards := rewards }
  db.modifyAccount comment.author fun account => do
    let rewards ← checked (account.postingRewards + authorTokens)
    pure { account with postingRewards := rewards }

/-- Split a positive reward; the result is what the reward fund gives away. -/
def splitReward (db : Database) (id : Nat) (comment : CommentObject)
    (reward : Int) : Except Fault (Database × Int) := do
  let percent ← db.getCurationRewardsPercent
  let curation := wrapInt64
    (toUint64 (uint128 reward * percent % 2 ^ 128 / hundredPercent))
  let forAuthor ← checked (reward - curation)
  let (db, curationTokens, unclaimed) ← db.payCurators id comment curation
  let authorTokens ← checked (forAuthor + unclaimed)
  let claimed ← checked (authorTokens + curationTokens)
  let (db, beneficiaryTokens) ←
    comment.beneficiaries.foldlM (payBeneficiary comment authorTokens) (db, 0)
  let authorTokens ← checked (authorTokens - beneficiaryTokens)
  let db ← db.payAuthor id comment authorTokens curationTokens
    beneficiaryTokens claimed
  pure (db, claimed)

/-! ## Cashout of one comment -/

/-- `adjust_rshares2` to zero. -/
def dropRshares2 (db : Database) (old : Nat) : Database :=
  { db with
    props := { db.props with
      totalRewardShares2 := subUint128 db.props.totalRewardShares2 old } }

/-- Clear a comment for its next payout. -/
def restartComment (db : Database) (id : Nat) : Except Fault Database :=
  db.modifyComment id fun comment =>
    pure { comment with
      netRshares := if 0 < comment.netRshares then 0 else comment.netRshares
      childrenAbsRshares := 0
      absRshares := 0
      voteRshares := 0
      totalVoteWeight := 0
      maxCashoutTime := maximumTime
      cashoutTime := addSeconds db.headBlockTime secondCashoutWindow
      lastPayout := db.headBlockTime }

/-- Close the votes of a comment which was paid. -/
def closeVotes (db : Database) (id : Nat) : Except Fault Database := do
  let comment ← db.getCommentById id
  (db.votesOfComment id).foldlM
    (fun db vote => do
      let payoutTime ← db.calculateDiscussionPayoutTime comment
      if payoutTime ≠ maximumTime then
        pure { db with
          commentVotes := db.commentVotes.set vote.1
            { vote.2 with numChanges := -1 } }
      else
        pure { db with commentVotes := db.commentVotes.remove vote.1 })
    db

/-- The payout of a comment with positive votes. -/
def payComment (ext : External) (db : Database) (id : Nat)
    (comment : CommentObject) (recentClaims : Nat) (rewardBalance : Int) :
    Except Fault (Database × Int) := do
  let (_, fund) ← db.getRewardFund
  let reward ← getRshareReward ext
    { rshares := comment.netRshares
      rewardWeight := comment.rewardWeight
      totalRewardShares2 := recentClaims
      totalRewardFundBmt := rewardBalance
      rewardCurve := fund.authorRewardCurve
      contentConstant := fund.contentConstant }
  let (db, claimed) ←
    (if 0 < reward then db.splitReward id comment reward else pure (db, 0))
  pure
    (db.dropRshares2 (defaultRewardCurve (uint128 comment.netRshares)),
      claimed)

/-- `cashout_comment_helper`. -/
def cashoutCommentHelper (ext : External) (db : Database) (id : Nat)
    (recentClaims : Nat) (rewardBalance : Int) :
    Except Fault (Database × Int) := do
  let comment ← db.getCommentById id
  let (db, claimed) ←
    (if 0 < comment.netRshares then
      db.payComment ext id comment recentClaims rewardBalance
    else pure (db, 0))
  let db ← db.restartComment id
  let db := db.pushVirtualOperation
    (.commentPayoutUpdate comment.author comment.permlink)
  let db ← db.closeVotes id
  pure (db, claimed)

/-! ## The round of payouts -/

/-- `reward_fund_context`. -/
structure RewardFundContext where
  recentClaims : Nat
  rewardBalance : Int
  bmtAwarded : Int := 0

/-- Let the recent claims of a fund decay. -/
def decayClaims (now : Time) (fund : RewardFundObject) : RewardFundObject :=
  let elapsed := uint128 ((now : Int) - fund.lastUpdate)
  let decay :=
    fund.recentClaims * elapsed % 2 ^ 128 / recentRsharesDecaySeconds
  { fund with
    recentClaims := subUint128 fund.recentClaims decay
    lastUpdate := now }

/-- Decay every fund and cache its state, in the order of the ids. -/
def decayFunds (db : Database) :
    Except Fault (Database × List RewardFundContext) :=
  db.rewardFunds.entries.foldlM
    (fun decayed entry => do
      let fund := decayClaims db.headBlockTime entry.2
      let db ← decayed.1.modifyRewardFund entry.1 fun _ => pure fund
      pure (db, decayed.2 ++ [⟨fund.recentClaims, fund.rewardBalance, 0⟩]))
    (db, [])

/-- The comments in the order of `by_cashout_time`, as far as they are due. -/
def dueComments (db : Database) : List (Nat × CommentObject) :=
  (db.comments.entries.filter fun entry =>
    entry.2.cashoutTime ≤ db.headBlockTime).insertionSort
      fun first second =>
        first.2.cashoutTime < second.2.cashoutTime ∨
          (first.2.cashoutTime = second.2.cashoutTime ∧ first.1 ≤ second.1)

/-- Change the context of a fund; a fund beyond the vector is out of range. -/
def changeContext (funds : List RewardFundContext) (id : Nat)
    (change : RewardFundContext → Except Fault RewardFundContext) :
    Except Fault (List RewardFundContext) := do
  let fund ← orFault funds[id]? "out of range"
  let changed ← change fund
  pure (funds.set id changed)

/-- Add the claims of a due comment to its fund. -/
def addClaims (ext : External) (db : Database)
    (funds : List RewardFundContext) (due : Nat × CommentObject) :
    Except Fault (List RewardFundContext) :=
  if 0 < due.2.netRshares then do
    let (id, fund) ← db.getRewardFund
    let claims ← evaluateRewardCurve ext (uint128 due.2.netRshares)
      fund.authorRewardCurve fund.contentConstant
    changeContext funds id fun context =>
      pure { context with
        recentClaims := addUint128 context.recentClaims claims }
  else .ok funds

/-- Cash out one due comment against the cached state of its fund. -/
def cashoutDue (ext : External) (due : Nat)
    (round : Database × List RewardFundContext) :
    Except Fault (Database × List RewardFundContext) := do
  let (id, _) ← round.1.getRewardFund
  let context ← orFault round.2[id]? "out of range"
  let (db, claimed) ← round.1.cashoutCommentHelper ext due
    context.recentClaims context.rewardBalance
  let funds ← changeContext round.2 id fun context => do
    let awarded ← checked (context.bmtAwarded + claimed)
    pure { context with bmtAwarded := awarded }
  pure (db, funds)

/-- Write the cached fund states back. -/
def writeFunds (db : Database) (funds : List RewardFundContext) :
    Except Fault Database :=
  funds.zipIdx.foldlM
    (fun db entry => db.modifyRewardFund entry.2 fun fund => do
      let balance ← checked (fund.rewardBalance - entry.1.bmtAwarded)
      pure { fund with
        recentClaims := entry.1.recentClaims
        rewardBalance := balance })
    db

/-- `process_comment_cashout`. -/
def processCommentCashout (ext : External) (db : Database) :
    Except Fault Database :=
  if db.headBlockNum ≤ firstPayoutBlock then .ok db
  else do
    let (db, funds) ← db.decayFunds
    let funds ← db.dueComments.foldlM (db.addClaims ext) funds
    let (db, funds) ← drain "a payout is due again"
      (fun round => (dueComments round.1).head?.map Prod.fst)
      (cashoutDue ext) db.comments.size (db, funds)
    db.writeFunds funds

end Database

end BMChain.State

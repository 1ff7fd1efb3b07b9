import BMChain.State.ContentEvaluator
import BMChain.State.MarketEvaluator

/-!
# The evaluator registry

`database::apply_operation` hands an operation to the evaluator registered for
its tag.  Five evaluators have an empty body and five refuse every operation.
-/

namespace BMChain.State

open BMChain.Foundation BMChain.Protocol

namespace Database

/-- `apply_operation`. -/
def applyOperation (ext : External) (db : Database) :
    Operation → Except Fault Database
  | .vote op => db.voteEvaluator ext op
  | .comment op => db.commentEvaluator ext op
  | .transfer op => db.transferEvaluator op
  | .transferToVesting _ => .ok db
  | .withdrawSavings op => db.withdrawSavingsEvaluator op
  | .limitOrderCreate op => db.limitOrderCreateEvaluator op
  | .limitOrderCancel op => db.limitOrderCancelEvaluator op
  | .feedPublish _ => .ok db
  | .convert _ => .ok db
  | .accountCreate op => db.accountCreateEvaluator ext op
  | .accountUpdate op => db.accountUpdateEvaluator ext op
  | .witnessUpdate op => db.witnessUpdateEvaluator op
  | .accountWitnessVote op => db.accountWitnessVoteEvaluator op
  | .accountWitnessProxy op => db.accountWitnessProxyEvaluator op
  | .pow _ => .ok db
  | .custom op => db.customEvaluator ext op
  | .reportOverProduction _ =>
      .error "report_over_production_operation is disabled."
  | .deleteComment op => db.deleteCommentEvaluator op
  | .customJson op => db.customJsonEvaluator ext op
  | .commentOptions op => db.commentOptionsEvaluator op
  | .setWithdrawSavingsRoute op => db.setWithdrawSavingsRouteEvaluator op
  | .limitOrderCreate2 op => db.limitOrderCreate2Evaluator op
  | .challengeAuthority _ =>
      .error "Challenge authority operation is currently disabled."
  | .proveAuthority => .error "No registered evaluator for this operation"
  | .requestAccountRecovery op => db.requestAccountRecoveryEvaluator op
  | .recoverAccount op => db.recoverAccountEvaluator op
  | .changeRecoveryAccount op => db.changeRecoveryAccountEvaluator op
  | .escrowTransfer op => db.escrowTransferEvaluator op
  | .escrowDispute op => db.escrowDisputeEvaluator op
  | .escrowRelease op => db.escrowReleaseEvaluator op
  | .pow2 _ => .error "mining is now disabled"
  | .escrowApprove op => db.escrowApproveEvaluator op
  | .transferToSavings op => db.transferToSavingsEvaluator op
  | .transferFromSavings _ => .ok db
  | .cancelTransferFromSavings op => db.cancelTransferFromSavingsEvaluator op
  | .customBinary op => db.customBinaryEvaluator ext op
  | .declineVotingRights op => db.declineVotingRightsEvaluator op
  | .resetAccount _ => .error "Reset Account Operation is currently disabled."
  | .setResetAccount _ =>
      .error "Set Reset Account Operation is currently disabled."
  | .claimRewardBalance op => db.claimRewardBalanceEvaluator op
  | .delegateVestingShares op => db.delegateVestingSharesEvaluator op
  | .accountCreateWithDelegation op =>
      db.accountCreateWithDelegationEvaluator op
  | .contentOrderCreate op => db.contentOrderCreateEvaluator op
  | .contentOrderCancel op => db.contentOrderCancelEvaluator op
  | .encryptedContent op => db.encryptedContentEvaluator ext op
  | .privateMessage op => db.privateMessageEvaluator ext op
  | .virtual _ => .error "No registered evaluator for this operation"
  | .contentOrderCancelByAuthor op =>
      db.contentOrderCancelByAuthorEvaluator op
  | .customTokenCreate op => db.customTokenCreateEvaluator op
  | .customTokenTransfer op => db.customTokenTransferEvaluator op
  | .customTokenSetupEmissions op => db.customTokenSetupEmissionsEvaluator op
  | .customTokenSetSetupParameters op =>
      db.customTokenSetSetupParametersEvaluator op

end Database

end BMChain.State

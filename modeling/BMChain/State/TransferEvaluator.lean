import BMChain.State.AccountEvaluator

/-!
# Evaluators for transfers, savings, escrows and rewards

The `do_apply` functions for the operations which move BMT between an
account's own balances, between accounts and in and out of escrow.
-/

namespace BMChain.State

open BMChain.Foundation BMChain.Protocol

namespace Database

/-! ## Transfers -/

/-- Note that an account which was challenged has proved its authority. -/
def proveActive (db : Database) (name : AccountName)
    (account : AccountObject) : Except Fault Database :=
  if account.activeChallenged then
    db.modifyAccount name fun account =>
      pure { account with
        activeChallenged := false, lastActiveProved := db.headBlockTime }
  else .ok db

/-- `transfer_evaluator::do_apply`. -/
def transferEvaluator (op : TransferOperation) (db : Database) :
    Except Fault Database := do
  let fromAccount ← db.getAccount op.fromAccount
  let _ ← db.getAccount op.toAccount
  let db ← db.proveActive op.fromAccount fromAccount
  let balance ← getBalance fromAccount op.amount.symbol
  require (op.amount.amount ≤ balance)
    "Account does not have sufficient funds for transfer."
  let debit ← op.amount.neg
  let db ← db.adjustBalance op.fromAccount debit
  db.adjustBalance op.toAccount op.amount

/-- `transfer_to_savings_evaluator::do_apply`. -/
def transferToSavingsEvaluator (op : TransferToSavingsOperation)
    (db : Database) : Except Fault Database := do
  let fromAccount ← db.getAccount op.fromAccount
  let _ ← db.getAccount op.toAccount
  let balance ← getBalance fromAccount op.amount.symbol
  require (op.amount.amount ≤ balance)
    "Account does not have sufficient funds to transfer to savings."
  let debit ← op.amount.neg
  let db ← db.adjustBalance op.fromAccount debit
  db.adjustSavingsBalance op.toAccount op.amount

/-- `cancel_transfer_from_savings_evaluator::do_apply`. -/
def cancelTransferFromSavingsEvaluator
    (op : CancelTransferFromSavingsOperation) (db : Database) :
    Except Fault Database := do
  let (id, request) ← db.getSavingsWithdraw op.fromAccount op.requestId
  let db ← db.adjustSavingsBalance request.fromAccount request.amount
  let db := { db with savingsWithdraws := db.savingsWithdraws.remove id }
  db.modifyAccount op.fromAccount fun account =>
    pure { account with
      savingsWithdrawRequests := decrement 8 account.savingsWithdrawRequests }

/-! ## Withdrawals from savings -/

/-- `BMCHAIN_SAVINGS_WITHDRAW_INTERVALS`. -/
def savingsWithdrawIntervals : Int := 30

/-- `BMCHAIN_SAVINGS_WITHDRAW_INTERVAL_SECONDS`. -/
def savingsWithdrawIntervalSeconds : Nat := 60 * 60 * 24 * 7

/-- `withdraw_savings_evaluator::do_apply`. -/
def withdrawSavingsEvaluator (op : WithdrawSavingsOperation)
    (db : Database) : Except Fault Database := do
  let account ← db.getAccount op.account
  require (0 ≤ account.savingsBalance)
    "Account does not have sufficient savings for withdraw."
  if op.savings.amount = 0 then do
    require (account.savingsWithdrawRate ≠ 0)
      "This operation would not change the vesting withdraw rate."
    db.modifyAccount op.account fun account =>
      pure { account with
        savingsWithdrawRate := 0
        nextSavingsWithdrawal := maximumTime
        toWithdraw := 0
        withdrawn := 0 }
  else
    db.modifyAccount op.account fun account => do
      let quotient ← checkedDiv op.savings.amount savingsWithdrawIntervals
      let rate := if quotient = 0 then 1 else quotient
      require (account.savingsWithdrawRate ≠ rate)
        "This operation would not change the vesting withdraw rate."
      pure { account with
        savingsWithdrawRate := rate
        nextSavingsWithdrawal :=
          addSeconds db.headBlockTime savingsWithdrawIntervalSeconds
        toWithdraw := op.savings.amount
        withdrawn := 0 }

/--
The routes of an account from `upper_bound( from, account_id_type() )` on: by
increasing destination, without a route to the account with id zero.
-/
def routesFrom (db : Database) (account : Nat) :
    List (Nat × WithdrawRouteObject) :=
  (db.withdrawRoutes.entries.filter fun entry =>
    entry.2.fromAccount = account ∧ 0 < entry.2.toAccount).insertionSort
      fun first second => first.2.toAccount ≤ second.2.toAccount

/-- Create, change or remove the route which an operation names. -/
def writeRoute (db : Database) (op : SetWithdrawSavingsRouteOperation)
    (fromAccount : AccountObject) (route : WithdrawRouteObject) :
    Except Fault Database :=
  match db.withdrawRoutes.findBy fun other =>
      other.fromAccount = route.fromAccount ∧
        other.toAccount = route.toAccount with
  | none => do
      require (op.percent ≠ 0) "Cannot create a 0% destination."
      require (fromAccount.withdrawRoutes < 10)
        "Account already has the maximum number of routes."
      let db := { db with withdrawRoutes := db.withdrawRoutes.emplace route }
      db.modifyAccount op.fromAccount fun account =>
        pure { account with
          withdrawRoutes := increment 16 account.withdrawRoutes }
  | some (id, _) =>
      if op.percent = 0 then
        { db with
          withdrawRoutes := db.withdrawRoutes.remove id }.modifyAccount
            op.fromAccount fun account =>
              pure { account with
                withdrawRoutes := decrement 16 account.withdrawRoutes }
      else
        .ok { db with withdrawRoutes := db.withdrawRoutes.set id route }

/-- `set_withdraw_savings_route_evaluator::do_apply`. -/
def setWithdrawSavingsRouteEvaluator
    (op : SetWithdrawSavingsRouteOperation) (db : Database) :
    Except Fault Database := do
  let fromAccount ← db.getAccount op.fromAccount
  let toAccount ← db.getAccount op.toAccount
  let db ← db.writeRoute op fromAccount
    ⟨fromAccount.id, toAccount.id, op.percent, op.autoVest⟩
  let total :=
    ((db.routesFrom fromAccount.id).map fun entry => entry.2.percent).sum
  require (total % 2 ^ 16 ≤ hundredPercent)
    "More than 100% of vesting withdrawals allocated to destinations."
  pure db

/-! ## Rewards -/

/-- The BMT which moves with a claim of vesting rewards. -/
def rewardVestingBmtToMove (account : AccountObject) (claimed : Int) :
    Except Fault Int :=
  if claimed = account.rewardVestingBalance then
    .ok account.rewardVestingBmt
  else do
    let product :=
      uint128 claimed * uint128 account.rewardVestingBmt % 2 ^ 128
    let share ← divideUint128 product (uint128 account.rewardVestingBalance)
    pure (wrapInt64 (toUint64 share))

/-- `claim_reward_balance_evaluator::do_apply`. -/
def claimRewardBalanceEvaluator (op : ClaimRewardBalanceOperation)
    (db : Database) : Except Fault Database := do
  let account ← db.getAccount op.account
  let claimedBmt ← op.rewardBmt.inSymbol bmtSymbol
  require (claimedBmt ≤ account.rewardBmtBalance) "Cannot claim that much BMT."
  let claimed ← op.rewardVests.inSymbol vestsSymbol
  require (claimed ≤ account.rewardVestingBalance)
    "Cannot claim that much VESTS."
  let moved ← rewardVestingBmtToMove account claimed
  let debit ← checked (-claimedBmt)
  let db ← db.adjustRewardBalance op.account (bmt debit)
  let db ← db.adjustBalance op.account (bmt claimedBmt)
  let db ← db.modifyAccount op.account fun account => do
    let shares ← checked (account.vestingShares + claimed)
    let pending ← checked (account.rewardVestingBalance - claimed)
    let backing ← checked (account.rewardVestingBmt - moved)
    pure { account with
      vestingShares := shares
      rewardVestingBalance := pending
      rewardVestingBmt := backing }
  let total ← checked (db.props.totalVestingShares + claimed)
  let fund ← checked (db.props.totalVestingFundBmt + moved)
  let pendingShares ←
    checked (db.props.pendingRewardedVestingShares - claimed)
  let pendingBmt ← checked (db.props.pendingRewardedVestingBmt - moved)
  { db with
    props := { db.props with
      totalVestingShares := total
      totalVestingFundBmt := fund
      pendingRewardedVestingShares := pendingShares
      pendingRewardedVestingBmt := pendingBmt } }.adjustProxiedWitnessVotes
    op.account claimed

/-! ## Escrows -/

/-- `escrow_transfer_evaluator::do_apply`. -/
def escrowTransferEvaluator (op : EscrowTransferOperation) (db : Database) :
    Except Fault Database := do
  let fromAccount ← db.getAccount op.fromAccount
  let _ ← db.getAccount op.toAccount
  let _ ← db.getAccount op.agent
  require (db.headBlockTime < op.ratificationDeadline)
    "The escorw ratification deadline must be after head block time."
  require (db.headBlockTime < op.escrowExpiration)
    "The escrow expiration must be after head block time."
  let amount ← op.bmtAmount.inSymbol bmtSymbol
  let spent ←
    (if op.fee.symbol = bmtSymbol then checked (amount + op.fee.amount)
    else pure amount)
  require (spent ≤ fromAccount.balance)
    "Account cannot cover BMT costs of escrow."
  let debit ← checked (-spent)
  let db ← db.adjustBalance op.fromAccount (bmt debit)
  let escrows ← createRow db.escrows
    (fun other =>
      other.fromAccount = op.fromAccount ∧ other.escrowId = op.escrowId)
    { escrowId := op.escrowId
      fromAccount := op.fromAccount
      toAccount := op.toAccount
      agent := op.agent
      ratificationDeadline := op.ratificationDeadline
      escrowExpiration := op.escrowExpiration
      bmtBalance := amount
      pendingFee := op.fee }
  pure { db with escrows := escrows }

/-- Pay an escrow back to its sender and remove it. -/
def returnEscrow (db : Database) (sender : AccountName) (id : Nat)
    (escrow : EscrowObject) : Except Fault Database := do
  let db ← db.adjustBalance sender (bmt escrow.bmtBalance)
  let db ← db.adjustBalance sender escrow.pendingFee
  pure { db with escrows := db.escrows.remove id }

/-- An escrow with the approval of the account which an operation names. -/
def approvedBy (op : EscrowApproveOperation) (escrow : EscrowObject) :
    EscrowObject :=
  { escrow with
    toApproved := escrow.toApproved || op.who = op.toAccount
    agentApproved := escrow.agentApproved || op.who = op.agent }

/-- Pay the fee of an escrow to its agent once all parties approved. -/
def payAgent (db : Database) (agent : AccountName) (id : Nat)
    (escrow : EscrowObject) : Except Fault Database :=
  if escrow.isApproved then do
    let db ← db.adjustBalance agent escrow.pendingFee
    pure { db with
      escrows := db.escrows.set id
        { escrow with pendingFee := { escrow.pendingFee with amount := 0 } } }
  else .ok db

/-- `escrow_approve_evaluator::do_apply`. -/
def escrowApproveEvaluator (op : EscrowApproveOperation) (db : Database) :
    Except Fault Database := do
  let (id, escrow) ← db.getEscrow op.fromAccount op.escrowId
  require (escrow.toAccount = op.toAccount)
    "Operation 'to' does not match escrow 'to'."
  require (escrow.agent = op.agent)
    "Operation 'agent' does not match escrow 'agent'."
  require (db.headBlockTime ≤ escrow.ratificationDeadline)
    "The escrow ratification deadline has passed."
  require (op.who ≠ op.toAccount ∨ !escrow.toApproved)
    "Account 'to' has already approved the escrow."
  require (op.who ≠ op.agent ∨ !escrow.agentApproved)
    "Account 'agent' has already approved the escrow."
  if !op.approve then
    db.returnEscrow op.fromAccount id escrow
  else
    let marked := approvedBy op escrow
    { db with escrows := db.escrows.set id marked }.payAgent op.agent id marked

/-- `escrow_dispute_evaluator::do_apply`. -/
def escrowDisputeEvaluator (op : EscrowDisputeOperation) (db : Database) :
    Except Fault Database := do
  let _ ← db.getAccount op.fromAccount
  let (id, escrow) ← db.getEscrow op.fromAccount op.escrowId
  require (db.headBlockTime < escrow.escrowExpiration)
    "Disputing the escrow must happen before expiration."
  require (escrow.toApproved && escrow.agentApproved)
    "The escrow must be approved by all parties before a dispute can be raised."
  require (!escrow.disputed) "The escrow is already under dispute."
  require (escrow.toAccount = op.toAccount)
    "Operation 'to' does not match escrow 'to'."
  require (escrow.agent = op.agent)
    "Operation 'agent' does not match escrow 'agent'."
  pure { db with
    escrows := db.escrows.set id { escrow with disputed := true } }

/-- The permission scheme of `escrow_release`. -/
def checkRelease (db : Database) (escrow : EscrowObject)
    (op : EscrowReleaseOperation) : Except Fault Unit :=
  if escrow.disputed then
    require (op.who = escrow.agent)
      "Only 'agent' can release funds in a disputed escrow."
  else do
    require (op.who = escrow.fromAccount ∨ op.who = escrow.toAccount)
      "Only 'from' and 'to' can release funds from a non-disputed escrow"
    if db.headBlockTime < escrow.escrowExpiration then
      if op.who = escrow.fromAccount then
        require (op.receiver = escrow.toAccount)
          "Only 'from' can release funds to 'to'."
      else if op.who = escrow.toAccount then
        require (op.receiver = escrow.fromAccount)
          "Only 'to' can release funds to 'from'."
      else pure ()
    else pure ()

/-- `escrow_release_evaluator::do_apply`. -/
def escrowReleaseEvaluator (op : EscrowReleaseOperation) (db : Database) :
    Except Fault Database := do
  let _ ← db.getAccount op.fromAccount
  let _ ← db.getAccount op.receiver
  let (id, escrow) ← db.getEscrow op.fromAccount op.escrowId
  let amount ← op.bmtAmount.inSymbol bmtSymbol
  require (amount ≤ escrow.bmtBalance)
    "Release amount exceeds escrow balance."
  require (escrow.toAccount = op.toAccount)
    "Operation 'to' does not match escrow 'to'."
  require (escrow.agent = op.agent)
    "Operation 'agent' does not match escrow 'agent'."
  require (op.receiver = escrow.fromAccount ∨ op.receiver = escrow.toAccount)
    "Funds must be released to 'from' or 'to'"
  require (escrow.toApproved && escrow.agentApproved)
    "Funds cannot be released prior to escrow approval."
  db.checkRelease escrow op
  let db ← db.adjustBalance op.receiver (bmt amount)
  let left ← checked (escrow.bmtBalance - amount)
  if left = 0 then
    pure { db with escrows := db.escrows.remove id }
  else
    pure { db with
      escrows := db.escrows.set id { escrow with bmtBalance := left } }

end Database

end BMChain.State

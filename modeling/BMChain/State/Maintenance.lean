import BMChain.State.Cashout
import BMChain.State.Evaluator
import BMChain.State.WitnessSchedule

/-!
# The steps of a block

The parts of `_apply_block` before and after the transactions.  Each loop of
the source which takes the first object of an index while it is due is a
`drain` here; its bound is the number of objects, since every round removes
one or makes it due later.
-/

namespace BMChain.State

open BMChain.Foundation BMChain.Protocol

variable {Row : Type} {table : Table Row}

namespace Database

/-! ## Slots -/

/-- `get_slot_time`. -/
def getSlotTime (db : Database) (slot : Nat) : Time :=
  if slot = 0 then 0
  else if db.headBlockNum = 0 then
    addSeconds db.headBlockTime (slot * blockInterval % 2 ^ 32)
  else
    addSeconds (db.headBlockTime / blockInterval * blockInterval)
      (slot * blockInterval % 2 ^ 32)

/-- `get_slot_at_time`. -/
def getSlotAtTime (db : Database) (time : Time) : Nat :=
  let first := db.getSlotTime 1
  if time < first then 0
  else ((time - first) / blockInterval + 1) % 2 ^ 32

/-- `get_scheduled_witness`. -/
def getScheduledWitness (db : Database) (slot : Nat) : AccountName :=
  db.schedule.currentShuffledWitnesses.getD
    ((db.props.currentAslot + slot) % 2 ^ 64 %
      db.schedule.numScheduledWitnesses) ""

/-! ## Before the transactions -/

/-- `validate_block_header`. -/
def validateBlockHeader (db : Database) (header : BlockHeader) :
    Except Fault Unit := do
  require (db.props.headBlockId = header.previous)
    "head_block_id() == next_block.previous"
  require (db.headBlockTime < header.timestamp)
    "head_block_time() < next_block.timestamp"
  let witness ← db.getWitness header.witness
  require (header.signee = witness.signingKey)
    "next_block.validate_signee( witness.signing_key )"
  let slot := db.getSlotAtTime header.timestamp
  require (0 < slot) "slot_num > 0"
  require (witness.owner = db.getScheduledWitness slot)
    "Witness produced block at wrong time"

/-- One extension of `process_header_extensions`. -/
def processExtension (witness : AccountName) (db : Database) :
    HeaderExtension → Except Fault Database
  | .void => .ok db
  | .version reported =>
      db.modifyWitness witness fun witness =>
        pure { witness with runningVersion := reported }
  | .hardforkVersionVote version time =>
      db.modifyWitness witness fun witness =>
        pure { witness with
          hardforkVersionVote := version, hardforkTimeVote := time }

/-- The steps of `_apply_block` before the transactions. -/
def beginBlock (db : Database) (header : BlockHeader) :
    Except Fault Database := do
  db.validateBlockHeader header
  let db := { db with
    props := { db.props with currentWitness := header.witness } }
  let db ← header.extensions.foldlM (processExtension header.witness) db
  let witness ← db.getWitness header.witness
  require (db.hardforks.currentHardforkVersion ≤ witness.runningVersion)
    "Block produced by witness that is not running current hardfork"
  pure db

/-! ## The head of the chain -/

/-- `BMCHAIN_MAX_UNDO_HISTORY`. -/
def maxUndoHistory : Nat := 10000

/-- `BMCHAIN_START_MINER_VOTING_BLOCK`. -/
def startMinerVotingBlock : Nat := blocksPerDay * 30

/-- `BMCHAIN_IRREVERSIBLE_THRESHOLD`. -/
def irreversibleThreshold : Nat := 7500

/-- Note that a witness missed its slot. -/
def missSlot (producer : AccountName) (db : Database) (slot : Nat) :
    Except Fault Database := do
  let missed ← db.getWitness (db.getScheduledWitness slot)
  if missed.owner = producer then pure db
  else do
    let idle :=
      (db.headBlockNum + (2 ^ 32 - missed.lastConfirmedBlockNum)) % 2 ^ 32
    let shut := blocksPerDay < idle
    let db ← db.modifyWitness missed.owner fun witness =>
      pure { witness with
        totalMissed := increment 32 witness.totalMissed
        signingKey := if shut then 0 else witness.signingKey }
    pure (if shut then
      db.pushVirtualOperation (.shutdownWitness missed.owner) else db)

/-- Shift one slot into the participation record. -/
def recordSlot (filled : Bool) (props : DynamicGlobalProperties) :
    DynamicGlobalProperties :=
  let leaving := props.recentSlotsFilled / 2 ^ 127 % 2
  let bit := if filled then 1 else 0
  { props with
    participationCount :=
      (props.participationCount + (2 ^ 8 - leaving) + bit) % 2 ^ 8
    recentSlotsFilled := (props.recentSlotsFilled * 2 + bit) % 2 ^ 128 }

/-- `update_global_dynamic_data`. -/
def updateGlobalDynamicData (db : Database) (header : BlockHeader) :
    Except Fault Database := do
  let missed :=
    if db.headBlockTime = 0 then 0
    else decrement 32 (db.getSlotAtTime header.timestamp)
  let db ← (List.range missed).foldlM
    (fun db place => db.missSlot header.witness (place + 1)) db
  let recorded := (List.range (missed + 1)).foldl
    (fun props place => recordSlot (place = 0) props) db.props
  let db := { db with
    props := { recorded with
      headBlockNumber := header.number
      headBlockId := header.id
      time := header.timestamp
      currentAslot := (recorded.currentAslot + missed + 1) % 2 ^ 64 } }
  require
    ((db.headBlockNum + (2 ^ 32 - db.props.lastIrreversibleBlockNum)) %
      2 ^ 32 < maxUndoHistory)
    "The database does not have enough undo history to support a blockchain with so many missed blocks."
  pure db

/-- `update_signing_witness`. -/
def updateSigningWitness (db : Database) (header : BlockHeader) :
    Except Fault Database :=
  db.modifyWitness header.witness fun witness =>
    pure { witness with
      lastAslot :=
        (db.props.currentAslot + db.getSlotAtTime header.timestamp) % 2 ^ 64
      lastConfirmedBlockNum := header.number }

/-- `update_last_irreversible_block`, as far as the state goes. -/
def updateLastIrreversibleBlock (db : Database) : Except Fault Database :=
  if db.headBlockNum < startMinerVotingBlock then
    .ok { db with
      props := { db.props with
        lastIrreversibleBlockNum :=
          if maxWitnesses < db.headBlockNum then
            db.headBlockNum - maxWitnesses
          else db.props.lastIrreversibleBlockNum } }
  else do
    let witnesses ← db.scheduledWitnesses
    let confirmed := (witnesses.map
      WitnessObject.lastConfirmedBlockNum).insertionSort (· ≤ ·)
    let offset :=
      (hundredPercent - irreversibleThreshold) * witnesses.length /
        hundredPercent
    let confirmedNum ← orFault confirmed[offset]? "out of range"
    pure { db with
      props := { db.props with
        lastIrreversibleBlockNum :=
          max confirmedNum db.props.lastIrreversibleBlockNum } }

/-- `create_block_summary`. -/
def createBlockSummary (db : Database) (header : BlockHeader) : Database :=
  { db with
    blockSummaries :=
      db.blockSummaries.insert (header.number % 2 ^ 16) header.id }

/-! ## Expired objects -/

/-- The first row of a table by time and id, if it is due. -/
def firstDue {Row : Type} (table : Table Row) (time : Row → Time)
    (due : Row → Bool) : Option (Nat × Row) :=
  (firstBy
    (fun first second =>
      time first.2 < time second.2 ||
        (time first.2 = time second.2 && first.1 ≤ second.1))
    table.entries).filter fun entry => due entry.2

/-- The row which `firstDue` offers is in the table. -/
theorem find?_of_firstDue
    {time : Row → Time}
    {due : Row → Bool}
    {entry : Nat × Row}
    (offered : firstDue table time due = some entry) :
    table.find? entry.1 = some entry.2 := by
  rw [firstDue, Option.filter_eq_some_iff] at offered
  exact Std.ExtTreeMap.mem_toList_iff_getElem?_eq_some.1
    (mem_of_firstBy offered.1)

/-- When `firstDue` offers nothing, every row is due later. -/
theorem later_of_firstDue
    {time : Row → Time}
    {now : Time}
    (nothing : firstDue table time (fun row => time row ≤ now) = none)
    {id : Nat}
    {row : Row}
    (found : table.find? id = some row) :
    now < time row := by
  have listed : (id, row) ∈ table.entries :=
    Std.ExtTreeMap.mem_toList_iff_getElem?_eq_some.2 found
  rw [firstDue, Option.filter_eq_none_iff] at nothing
  cases search : firstBy
      (fun first second : Nat × Row =>
        time first.2 < time second.2 ||
          (time first.2 = time second.2 && first.1 ≤ second.1))
      table.entries with
  | none =>
      rw [eq_nil_of_firstBy search] at listed
      cases listed
  | some least =>
      have bound := firstBy_least (fun entry => time entry.2) ?_ ?_ search
        (id, row) listed
      · have late := nothing least search
        rw [decide_eq_true_eq] at late
        exact Nat.lt_of_lt_of_le (Nat.lt_of_not_le late) bound
      · intro first second earlier
        simp only [Bool.or_eq_true, Bool.and_eq_true, decide_eq_true_eq]
          at earlier
        rcases earlier with less | ⟨same, -⟩
        · exact Nat.le_of_lt less
        · exact Nat.le_of_eq same
      · intro first second later
        simp only [Bool.or_eq_false_iff, decide_eq_false_iff_not] at later
        exact Nat.le_of_not_lt later.1

/-- `clear_expired_transactions`. -/
def clearExpiredTransactions (db : Database) : Except Fault Database :=
  drain "endless"
    (fun db : Database =>
      firstDue db.transactions TransactionObject.expiration fun transaction =>
        transaction.expiration < db.headBlockTime)
    (fun entry db =>
      .ok { db with transactions := db.transactions.remove entry.1 })
    db.transactions.size db

/-- `clear_expired_orders`. -/
def clearExpiredOrders (db : Database) : Except Fault Database :=
  drain "endless"
    (fun db : Database =>
      firstDue db.limitOrders LimitOrderObject.expiration fun order =>
        order.expiration < db.headBlockTime)
    (fun entry db => db.cancelOrder entry.1 entry.2)
    db.limitOrders.size db

/-- Return the shares of an expired delegation. -/
def returnDelegation (entry : Nat × DelegationExpirationObject)
    (db : Database) : Except Fault Database := do
  let db ← db.modifyAccount entry.2.delegator fun account => do
    let delegated ←
      checked (account.delegatedVestingShares - entry.2.vestingShares)
    pure { account with delegatedVestingShares := delegated }
  let db := db.pushVirtualOperation
    (.returnVestingDelegation entry.2.delegator (vests entry.2.vestingShares))
  pure { db with
    delegationExpirations := db.delegationExpirations.remove entry.1 }

/-- `clear_expired_delegations`. -/
def clearExpiredDelegations (db : Database) : Except Fault Database :=
  drain "endless"
    (fun db : Database =>
      firstDue db.delegationExpirations DelegationExpirationObject.expiration
        fun expiration => expiration.expiration < db.headBlockTime)
    returnDelegation db.delegationExpirations.size db

/-! ## The null account -/

/-- `update_virtual_supply`. -/
def updateVirtualSupply (db : Database) : Database :=
  { db with
    props := { db.props with virtualSupply := db.props.currentSupply } }

/-- Take the liquid balance of the null account. -/
def burnBalance (db : Database) (total : Int) :
    Except Fault (Database × Int) := do
  let account ← db.getAccount nullAccount
  if 0 < account.balance then do
    let total ← checked (total + account.balance)
    let db ← db.adjustBalance nullAccount (bmt (-account.balance))
    pure (db, total)
  else pure (db, total)

/-- Take the savings of the null account. -/
def burnSavings (db : Database) (total : Int) :
    Except Fault (Database × Int) := do
  let account ← db.getAccount nullAccount
  if 0 < account.savingsBalance then do
    let total ← checked (total + account.savingsBalance)
    let db ← db.adjustSavingsBalance nullAccount (bmt (-account.savingsBalance))
    pure (db, total)
  else pure (db, total)

/-- Take the vesting shares of the null account with the BMT behind them. -/
def burnVesting (db : Database) (total : Int) :
    Except Fault (Database × Int) := do
  let account ← db.getAccount nullAccount
  if 0 < account.vestingShares then do
    let converted ←
      (vests account.vestingShares).mul db.props.vestingSharePrice
    let shares ←
      checked (db.props.totalVestingShares - account.vestingShares)
    let behind ← converted.inSymbol bmtSymbol
    let fund ← checked (db.props.totalVestingFundBmt - behind)
    let db := { db with
      props := { db.props with
        totalVestingShares := shares, totalVestingFundBmt := fund } }
    let db ← db.modifyAccount nullAccount fun account =>
      pure { account with vestingShares := 0 }
    let total ← checked (total + behind)
    pure (db, total)
  else pure (db, total)

/-- Take the BMT rewards of the null account. -/
def burnReward (db : Database) (total : Int) :
    Except Fault (Database × Int) := do
  let account ← db.getAccount nullAccount
  if 0 < account.rewardBmtBalance then do
    let total ← checked (total + account.rewardBmtBalance)
    let db ← db.adjustRewardBalance nullAccount (bmt (-account.rewardBmtBalance))
    pure (db, total)
  else pure (db, total)

/-- Take the vesting rewards of the null account with the BMT behind them. -/
def burnRewardVesting (db : Database) (total : Int) :
    Except Fault (Database × Int) := do
  let account ← db.getAccount nullAccount
  if 0 < account.rewardVestingBalance then do
    let total ← checked (total + account.rewardVestingBmt)
    let shares ← checked
      (db.props.pendingRewardedVestingShares - account.rewardVestingBalance)
    let behind ← checked
      (db.props.pendingRewardedVestingBmt - account.rewardVestingBmt)
    let db := { db with
      props := { db.props with
        pendingRewardedVestingShares := shares
        pendingRewardedVestingBmt := behind } }
    let db ← db.modifyAccount nullAccount fun account =>
      pure { account with rewardVestingBmt := 0, rewardVestingBalance := 0 }
    pure (db, total)
  else pure (db, total)

/-- `clear_null_account_balance`. -/
def clearNullAccountBalance (db : Database) : Except Fault Database := do
  let (db, total) ← db.burnBalance 0
  let (db, total) ← db.burnSavings total
  let (db, total) ← db.burnVesting total
  let (db, total) ← db.burnReward total
  let (db, total) ← db.burnRewardVesting total
  if 0 < total then db.adjustSupply (-total) else pure db

/-! ## Withdrawals from savings -/

/-- The order of `by_next_savings_withdrawal`. -/
def beforeByWithdrawal (first second : AccountObject) : Bool :=
  first.nextSavingsWithdrawal < second.nextSavingsWithdrawal ||
    (first.nextSavingsWithdrawal = second.nextSavingsWithdrawal &&
      first.id < second.id)

/-- The account which follows another one in `by_next_savings_withdrawal`. -/
def nextByWithdrawal (db : Database) (current : AccountObject) :
    Option AccountObject :=
  firstBy beforeByWithdrawal
    ((db.accounts.entries.map Prod.snd).filter fun account =>
      beforeByWithdrawal current account)

/-- What one withdrawal takes from the savings. -/
def amountToWithdraw (account : AccountObject) : Except Fault Int := do
  let left ← checked (account.toWithdraw - account.withdrawn)
  if left < account.savingsWithdrawRate then do
    let rest ← checkedMod account.toWithdraw account.savingsWithdrawRate
    pure (min account.savingsBalance rest)
  else pure (min account.savingsBalance account.savingsWithdrawRate)

/-- The deposit of a withdrawal on one route. -/
def routeDeposit (amount : Int) (percent : Nat) : Int :=
  wrapInt64 (toUint64 (uint128 amount * percent % 2 ^ 128 / hundredPercent))

/-- Count a deposit in the account it was taken from. -/
def countWithdrawal (deposit : Int) (account : AccountObject) :
    Except Fault AccountObject := do
  let savings ← checked (account.savingsBalance - deposit)
  let withdrawn ← checked (account.withdrawn + deposit)
  if account.toWithdraw ≤ withdrawn ∨ savings = 0 then
    pure { account with
      savingsBalance := savings
      withdrawn := withdrawn
      savingsWithdrawRate := 0
      nextSavingsWithdrawal := maximumTime }
  else
    pure { account with
      savingsBalance := savings
      withdrawn := withdrawn
      nextSavingsWithdrawal :=
        addSeconds account.nextSavingsWithdrawal
          savingsWithdrawIntervalSeconds }

/-- Pay one route of a withdrawal. -/
def payRoute (name : AccountName) (amount : Int) (db : Database)
    (route : Nat × WithdrawRouteObject) : Except Fault Database :=
  if route.2.autoVest then .ok db
  else do
    let (target, _) ← db.getAccountById route.2.toAccount
    let deposit := routeDeposit amount route.2.percent
    if 0 < deposit then do
      let db ← db.addBalance target deposit
      db.modifyAccount name (countWithdrawal deposit)
    else pure db

/-- One round of `process_vesting_withdrawals`. -/
def withdrawFrom (db : Database) (name : AccountName)
    (account : AccountObject) : Except Fault Database := do
  let amount ← amountToWithdraw account
  (db.routesFrom account.id).foldlM (payRoute name amount) db

/--
The walk of `process_vesting_withdrawals` along the index.  The iterator moves
on before the account is changed, and the accounts it passes come strictly
later in the index, so the rounds end.
-/
def withdrawAlong : Nat → Option AccountObject → Database →
    Except Fault Database
  | _, none, db => .ok db
  | 0, some _, _ => .error "endless"
  | rounds + 1, some account, db =>
      if account.nextSavingsWithdrawal ≤ db.headBlockTime then do
        let following := (db.nextByWithdrawal account).map AccountObject.name
        let db ← db.withdrawFrom account.name account
        withdrawAlong rounds (following.bind db.accounts.find?) db
      else .ok db

/-- `process_vesting_withdrawals`. -/
def processVestingWithdrawals (db : Database) : Except Fault Database :=
  withdrawAlong (db.accounts.size * 2 ^ 32)
    (firstBy beforeByWithdrawal (db.accounts.entries.map Prod.snd)) db

/-! ## Emissions -/

/-- The order of `by_schedule_time`: the latest first, then the greater id. -/
def beforeByTokenSchedule (first second : Nat × CustomTokenObject) : Bool :=
  second.2.scheduleTime < first.2.scheduleTime ||
    (first.2.scheduleTime = second.2.scheduleTime && second.1 < first.1)

/-- The emission of one token. -/
def emitToken (token : CustomTokenObject) : Except Fault CustomTokenObject := do
  let scaled ← checked (token.currentSupply.amount * token.inflationRate)
  let amount ← checkedDiv scaled (100 * 365 * 24 * 60 * 20)
  let supply ← token.currentSupply.add ⟨amount, token.currentSupply.symbol⟩
  let fund ← token.rewardFund.add ⟨amount, token.currentSupply.symbol⟩
  pure { token with
    scheduleTime := addSeconds token.scheduleTime
      (token.intervalSeconds * token.intervalCount % 2 ^ 32)
    currentSupply := supply
    rewardFund := fund }

/-- The walk of `custom_tokens_emissions`, which moves on from the new place. -/
def emitAlong : Nat → Option (Nat × CustomTokenObject) → Database →
    Except Fault Database
  | _, none, db => .ok db
  | 0, some _, _ => .error "endless"
  | rounds + 1, some (id, token), db =>
      if token.scheduleTime ≤ db.headBlockTime then do
        let emitted ← emitToken token
        let db := { db with customTokens := db.customTokens.set id emitted }
        let following := firstBy beforeByTokenSchedule
          (db.customTokens.entries.filter fun other =>
            beforeByTokenSchedule (id, emitted) other)
        emitAlong rounds following db
      else .ok db

/-- `custom_tokens_emissions`. -/
def customTokensEmissions (db : Database) : Except Fault Database :=
  if db.headBlockNum ≤ firstPayoutBlock then .ok db
  else
    emitAlong (db.customTokens.size * 2 ^ 32)
      (firstBy beforeByTokenSchedule db.customTokens.entries) db

/-- `BMCHAIN_SAVINGS_REWARD_INTERVAL_BLOCKS`. -/
def savingsRewardIntervalBlocks : Nat := 20 * 60 * 24 * 30

/-- The savings of all accounts. -/
def totalSavings (db : Database) : Except Fault Int :=
  db.accounts.entries.foldlM
    (fun total entry => checked (total + entry.2.savingsBalance)) 0

/-- Pay the reward for the savings of one account. -/
def paySavingReward (ext : External) (growth total : Int)
    (paid : Database × Int) (entry : AccountName × AccountObject) :
    Except Fault (Database × Int) :=
  if 0 < entry.2.savingsBalance then do
    let reward := ext.savingReward growth entry.2.savingsBalance total
    let db ← paid.1.adjustSavingsBalance entry.1 (bmt reward)
    let rewards ← checked (paid.2 + reward)
    pure (db, rewards)
  else .ok paid

/-- `process_savings_reward`. -/
def processSavingsReward (ext : External) (db : Database) :
    Except Fault Database :=
  let growth := db.props.currentSupply - db.props.lastCurrentSupply
  if db.headBlockNum % savingsRewardIntervalBlocks ≠ 0 ∨ growth = 0 then
    .ok db
  else do
    let total ← db.totalSavings
    if total ≤ 0 then pure db
    else do
      let (db, rewards) ← db.accounts.entries.foldlM
        (paySavingReward ext growth total) (db, 0)
      let current ← checked (db.props.currentSupply + rewards)
      let virtual ← checked (db.props.virtualSupply + rewards)
      pure { db with
        props := { db.props with
          currentSupply := current
          virtualSupply := virtual
          lastCurrentSupply := current } }

/-! ## Requests which come due -/

/-- Apply a change of the recovery account. -/
def applyRecoveryChange (entry : Nat × ChangeRecoveryAccountRequestObject)
    (db : Database) : Except Fault Database := do
  let db ← db.modifyAccount entry.2.accountToRecover fun account =>
    pure { account with recoveryAccount := entry.2.recoveryAccount }
  pure { db with
    changeRecoveryRequests := db.changeRecoveryRequests.remove entry.1 }

/-- `account_recovery_processing`. -/
def accountRecoveryProcessing (db : Database) : Except Fault Database := do
  let db ← drain "endless"
    (fun db : Database =>
      firstDue db.recoveryRequests AccountRecoveryRequestObject.expires
        fun request => request.expires ≤ db.headBlockTime)
    (fun entry db =>
      .ok { db with recoveryRequests := db.recoveryRequests.remove entry.1 })
    db.recoveryRequests.size db
  let db ← drain "endless"
    (fun db : Database =>
      db.ownerHistory.entries.head?.filter fun entry =>
        addSeconds entry.2.lastValidTime ownerAuthRecoveryPeriod <
          db.headBlockTime)
    (fun entry db =>
      .ok { db with ownerHistory := db.ownerHistory.remove entry.1 })
    db.ownerHistory.size db
  drain "endless"
    (fun db : Database =>
      firstDue db.changeRecoveryRequests
        ChangeRecoveryAccountRequestObject.effectiveOn
        fun request => request.effectiveOn ≤ db.headBlockTime)
    applyRecoveryChange db.changeRecoveryRequests.size db

/-- The first escrow by deadline among those not approved by all, if due. -/
def firstUnratified (db : Database) : Option (Nat × EscrowObject) :=
  (firstBy
    (fun first second =>
      first.2.ratificationDeadline < second.2.ratificationDeadline ||
        (first.2.ratificationDeadline = second.2.ratificationDeadline &&
          first.1 ≤ second.1))
    (db.escrows.entries.filter fun entry => !entry.2.isApproved)).filter
      fun entry => entry.2.ratificationDeadline ≤ db.headBlockTime

/-- `expire_escrow_ratification`. -/
def expireEscrowRatification (db : Database) : Except Fault Database :=
  drain "endless" firstUnratified
    (fun entry db => db.returnEscrow entry.2.fromAccount entry.1 entry.2)
    db.escrows.size db

/-- The first request to decline voting rights, if it is due. -/
def firstDecline (db : Database) :
    Option (Nat × DeclineVotingRightsRequestObject) :=
  (firstBy
    (fun first second =>
      first.2.effectiveDate < second.2.effectiveDate ||
        (first.2.effectiveDate = second.2.effectiveDate &&
          first.2.account ≤ second.2.account))
    db.declineRequests.entries).filter
      fun entry => entry.2.effectiveDate ≤ db.headBlockTime

/-- Take the voting rights of an account away. -/
def takeVotingRights (entry : Nat × DeclineVotingRightsRequestObject)
    (db : Database) : Except Fault Database := do
  let (name, account) ← db.getAccountById entry.2.account
  let deltas ← withdrawnVotes account
  let db ← db.adjustProxiedWitnessDeltas name deltas
  let db ← db.clearWitnessVotes name
  let db ← db.modifyAccount name fun account =>
    pure { account with canVote := false, proxy := "" }
  pure { db with declineRequests := db.declineRequests.remove entry.1 }

/-- `process_decline_voting_rights`. -/
def processDeclineVotingRights (db : Database) : Except Fault Database :=
  drain "endless" firstDecline takeVotingRights db.declineRequests.size db

/-! ## Hardforks -/

/-- `BMCHAIN_BURN_INIT_REP_BLOCK`. -/
def burnInitRepBlock : Nat := 10512000

/-- `BMCHAIN_INIT_SUPPLY_REP`. -/
def initSupplyRep : Int := 10000000000000

/-- The one-time burn of the initial vesting shares. -/
def burnInitRep (db : Database) : Except Fault Database := do
  let db ← db.modifyAccount initMinerName fun account => do
    let shares ← checked (account.vestingShares - initSupplyRep)
    pure { account with vestingShares := shares }
  let current ← checked (db.props.currentSupply - initSupplyRep / 1000)
  let shares ← checked (db.props.totalVestingShares - initSupplyRep)
  let fund ← checked (db.props.totalVestingFundBmt - initSupplyRep / 1000)
  pure { db with
    props := { db.props with
      currentSupply := current
      totalVestingShares := shares
      totalVestingFundBmt := fund } }

/-- `process_hardforks`; this version of the code knows no hardfork to apply. -/
def processHardforks (db : Database) : Except Fault Database := do
  require
    (db.hardforks.nextHardfork = 0 ∨
      db.headBlockTime < db.hardforks.nextHardforkTime)
    "unknown_hardfork_exception"
  if db.headBlockNum = burnInitRepBlock then db.burnInitRep else pure db

end Database

/-! ## The block -/

/-- The steps which `_apply_block` runs after the transactions. -/
inductive BlockStep where
  | updateGlobalDynamicData
  | updateSigningWitness
  | updateLastIrreversibleBlock
  | createBlockSummary
  | clearExpiredTransactions
  | clearExpiredOrders
  | clearExpiredDelegations
  | updateWitnessSchedule
  | updateVirtualSupply
  | clearNullAccountBalance
  | processCommentCashout
  | processVestingWithdrawals
  | customTokensEmissions
  | processSavingsReward
  | accountRecoveryProcessing
  | expireEscrowRatification
  | processDeclineVotingRights
  | processHardforks

/-- The steps in the order of the source. -/
def blockSteps : List BlockStep :=
  [.updateGlobalDynamicData, .updateSigningWitness,
    .updateLastIrreversibleBlock, .createBlockSummary,
    .clearExpiredTransactions, .clearExpiredOrders, .clearExpiredDelegations,
    .updateWitnessSchedule, .updateVirtualSupply, .clearNullAccountBalance,
    .processCommentCashout, .processVestingWithdrawals,
    .customTokensEmissions, .processSavingsReward, .updateVirtualSupply,
    .accountRecoveryProcessing, .expireEscrowRatification,
    .processDeclineVotingRights, .processHardforks]

namespace Database

/-- Run one step of a block. -/
def runStep (ext : External) (header : BlockHeader) (db : Database) :
    BlockStep → Except Fault Database
  | .updateGlobalDynamicData => db.updateGlobalDynamicData header
  | .updateSigningWitness => db.updateSigningWitness header
  | .updateLastIrreversibleBlock => db.updateLastIrreversibleBlock
  | .createBlockSummary => .ok (db.createBlockSummary header)
  | .clearExpiredTransactions => db.clearExpiredTransactions
  | .clearExpiredOrders => db.clearExpiredOrders
  | .clearExpiredDelegations => db.clearExpiredDelegations
  | .updateWitnessSchedule => db.updateWitnessSchedule
  | .updateVirtualSupply => .ok db.updateVirtualSupply
  | .clearNullAccountBalance => db.clearNullAccountBalance
  | .processCommentCashout => db.processCommentCashout ext
  | .processVestingWithdrawals => db.processVestingWithdrawals
  | .customTokensEmissions => db.customTokensEmissions
  | .processSavingsReward => db.processSavingsReward ext
  | .accountRecoveryProcessing => db.accountRecoveryProcessing
  | .expireEscrowRatification => db.expireEscrowRatification
  | .processDeclineVotingRights => db.processDeclineVotingRights
  | .processHardforks => db.processHardforks

/-- The steps of `_apply_block` after the transactions. -/
def finishBlock (ext : External) (db : Database) (header : BlockHeader) :
    Except Fault Database :=
  blockSteps.foldlM (runStep ext header) db

/-- Each of the given steps meets a condition in the state it starts from. -/
def EachStep (ext : External) (header : BlockHeader)
    (allowed : Database → BlockStep → Prop) :
    List BlockStep → Database → Prop
  | [], _ => True
  | step :: rest, db =>
      allowed db step ∧
        ∀ middle, db.runStep ext header step = .ok middle →
          EachStep ext header allowed rest middle

/-- What every allowed step keeps holds after all of them. -/
theorem foldlM_runStep_invariant
    {ext : External}
    {header : BlockHeader}
    {allowed : Database → BlockStep → Prop}
    (invariant : Database → Prop)
    (kept : ∀ db step after,
      allowed db step → db.runStep ext header step = .ok after →
        invariant db → invariant after)
    {steps : List BlockStep}
    {db after : Database}
    (each : EachStep ext header allowed steps db)
    (ran : steps.foldlM (runStep ext header) db = .ok after)
    (start : invariant db) :
    invariant after := by
  induction steps generalizing db with
  | nil =>
      cases ran
      exact start
  | cons step rest induction =>
      rw [List.foldlM_cons, bind_eq_ok_iff] at ran
      rcases ran with ⟨middle, stepped, ran⟩
      exact induction (each.2 middle stepped) ran
        (kept db step middle each.1 stepped start)

end Database

end BMChain.State

import BMChain.State.Objects

/-!
# Reading and writing the chain state

The accessors of `database` and the helpers which several evaluators and
block steps share: balances, vesting, witness votes and the emission of new
BMT.  A function which the source writes with a reference to an object takes
the object's key here and reads the object again where the source reads
through the reference after a change.
-/

namespace BMChain.State

open BMChain.Foundation BMChain.Protocol

/-- A lookup which throws when nothing is found. -/
def orFault {Value : Type} (found : Option Value) (message : String) :
    Except Fault Value :=
  match found with
  | some value => .ok value
  | none => .error message

theorem orFault_eq_ok_iff
    {Value : Type}
    {found : Option Value}
    {message : String}
    {value : Value} :
    orFault found message = .ok value ↔ found = some value := by
  cases found <;> simp [orFault]

/-- `chainbase::database::modify` of a numbered row. -/
def modifyRow {Row : Type} (table : Table Row) (id : Nat)
    (change : Row → Except Fault Row) : Except Fault (Table Row) := do
  let row ← orFault (table.find? id) "unknown key"
  let changed ← change row
  pure (table.set id changed)

/-- `chainbase::database::modify` of a named row. -/
def modifyNamed {Row : Type} (register : Register Row) (name : String)
    (change : Row → Except Fault Row) : Except Fault (Register Row) := do
  let row ← orFault (register.find? name) "unknown key"
  let changed ← change row
  pure (register.set name changed)

/-- `chainbase::database::create`, refused when a unique key is taken. -/
def createRow {Row : Type} (table : Table Row) (taken : Row → Bool)
    (row : Row) : Except Fault (Table Row) := do
  require ((table.findBy taken).isNone)
    "could not insert object, most likely a uniqueness constraint was violated"
  pure (table.emplace row)

/-- `chainbase::database::create` under a name. -/
def createNamed {Row : Type} (register : Register Row) (name : String)
    (row : Nat → Row) : Except Fault (Register Row) := do
  require ((register.find? name).isNone)
    "could not insert object, most likely a uniqueness constraint was violated"
  pure (register.emplace name (row register.nextId))

/-- The division of `fc::uint128_t`. -/
def divideUint128 (dividend divisor : Nat) : Except Fault Nat := do
  require (divisor ≠ 0) "divide by zero"
  pure (dividend / divisor)

/-- Subtraction in `uint128_t`. -/
def subUint128 (left right : Nat) : Nat :=
  (left + (2 ^ 128 - right % 2 ^ 128)) % 2 ^ 128

/-- Addition in `uint128_t`. -/
def addUint128 (left right : Nat) : Nat :=
  (left + right) % 2 ^ 128

/-- `++` of an unsigned counter with the given number of bits. -/
def increment (bits count : Nat) : Nat :=
  (count + 1) % 2 ^ bits

/-- `--` of an unsigned counter with the given number of bits. -/
def decrement (bits count : Nat) : Nat :=
  (count + (2 ^ bits - 1)) % 2 ^ bits

/-- A counter follows a number modulo its range when the number grows. -/
theorem increment_mod
    (bits count : Nat) :
    increment bits (count % 2 ^ bits) = (count + 1) % 2 ^ bits := by
  unfold increment
  rw [Nat.mod_add_mod]

/-- A counter follows a number modulo its range when the number shrinks. -/
theorem decrement_mod
    (bits count : Nat) :
    decrement bits ((count + 1) % 2 ^ bits) = count % 2 ^ bits := by
  have positive : 0 < 2 ^ bits := Nat.two_pow_pos bits
  unfold decrement
  rw [Nat.mod_add_mod, Nat.add_assoc, Nat.add_sub_cancel' positive,
    Nat.add_mod_right]

namespace Database

/-- `head_block_time`. -/
def headBlockTime (db : Database) : Time :=
  db.props.time

/-- `head_block_num`. -/
def headBlockNum (db : Database) : Nat :=
  db.props.headBlockNumber

/-- `push_virtual_operation`. -/
def pushVirtualOperation (db : Database) (op : VirtualOperation) : Database :=
  { db with virtualOperations := op :: db.virtualOperations }

/-! ## Lookups -/

/-- `get_account`. -/
def getAccount (db : Database) (name : AccountName) :
    Except Fault AccountObject :=
  orFault (db.accounts.find? name) "unknown key"

/-- The account with an id, under its name. -/
def getAccountById (db : Database) (id : Nat) :
    Except Fault (AccountName × AccountObject) :=
  orFault (db.accounts.findBy fun account => account.id = id) "unknown key"

/-- Check that the accounts of an authority exist. -/
def checkAccounts (db : Database) (authority : Authority) :
    Except Fault Unit :=
  authority.accountAuths.forM fun item => do
    let _ ← db.getAccount item.1
    pure ()

/-- The authority object of an account. -/
def getAuthority (db : Database) (name : AccountName) :
    Except Fault AccountAuthorityObject :=
  orFault (db.authorities.find? name) "unknown key"

/-- `get_witness`. -/
def getWitness (db : Database) (name : AccountName) :
    Except Fault WitnessObject :=
  orFault (db.witnesses.find? name) "unknown key"

/-- The witness with an id, under its name. -/
def getWitnessById (db : Database) (id : Nat) :
    Except Fault (AccountName × WitnessObject) :=
  orFault (db.witnesses.findBy fun witness => witness.id = id) "unknown key"

/-- `find_comment`, which compares permlinks as C strings. -/
def findComment (db : Database) (author : AccountName) (permlink : Text) :
    Option (Nat × CommentObject) :=
  db.comments.findBy fun comment =>
    comment.author = author ∧ cString comment.permlink = cString permlink

/-- `get_comment`. -/
def getComment (db : Database) (author : AccountName) (permlink : Text) :
    Except Fault (Nat × CommentObject) :=
  orFault (db.findComment author permlink) "unknown key"

/-- The comment with an id. -/
def getCommentById (db : Database) (id : Nat) : Except Fault CommentObject :=
  orFault (db.comments.find? id) "unknown key"

/-- `get_escrow`. -/
def getEscrow (db : Database) (name : AccountName) (escrowId : Nat) :
    Except Fault (Nat × EscrowObject) :=
  orFault
    (db.escrows.findBy fun escrow =>
      escrow.fromAccount = name ∧ escrow.escrowId = escrowId)
    "unknown key"

/-- `get_limit_order`, which looks at the low 16 bits of the id only. -/
def getLimitOrder (db : Database) (name : AccountName) (orderid : Nat) :
    Except Fault (Nat × LimitOrderObject) :=
  orFault
    (db.limitOrders.findBy fun order =>
      order.seller = name ∧ order.orderid = orderid % 2 ^ 16)
    "unknown key"

/-- `get_savings_withdraw`. -/
def getSavingsWithdraw (db : Database) (owner : AccountName)
    (requestId : Nat) : Except Fault (Nat × SavingsWithdrawObject) :=
  orFault
    (db.savingsWithdraws.findBy fun request =>
      request.fromAccount = owner ∧ request.requestId = requestId)
    "unknown key"

/-- `get_content_order_by_id`. -/
def getContentOrderById (db : Database) (id : Nat) :
    Except Fault ContentOrderObject :=
  orFault (db.contentOrders.find? id) "unknown key"

/-- `get_reward_fund`, which is the same for every comment. -/
def getRewardFund (db : Database) : Except Fault (Nat × RewardFundObject) :=
  orFault (db.rewardFunds.findBy fun fund => fund.name = postRewardFundName)
    "unknown key"

/-- `get_curation_rewards_percent`. -/
def getCurationRewardsPercent (db : Database) : Except Fault Nat := do
  let (_, fund) ← db.getRewardFund
  pure fund.percentCurationRewards

/-- `calculate_discussion_payout_time`. -/
def calculateDiscussionPayoutTime (db : Database) (comment : CommentObject) :
    Except Fault Time :=
  if comment.parentAuthor = "" then
    .ok comment.cashoutTime
  else do
    let root ← db.getCommentById comment.rootComment
    pure root.cashoutTime

/-! ## Changes of single objects -/

def modifyAccount (db : Database) (name : AccountName)
    (change : AccountObject → Except Fault AccountObject) :
    Except Fault Database := do
  let accounts ← modifyNamed db.accounts name change
  pure { db with accounts := accounts }

def modifyAuthority (db : Database) (name : AccountName)
    (change : AccountAuthorityObject → AccountAuthorityObject) :
    Except Fault Database := do
  let authorities ←
    modifyNamed db.authorities name fun authority => pure (change authority)
  pure { db with authorities := authorities }

def modifyWitness (db : Database) (name : AccountName)
    (change : WitnessObject → Except Fault WitnessObject) :
    Except Fault Database := do
  let witnesses ← modifyNamed db.witnesses name change
  pure { db with witnesses := witnesses }

def modifyComment (db : Database) (id : Nat)
    (change : CommentObject → Except Fault CommentObject) :
    Except Fault Database := do
  let comments ← modifyRow db.comments id change
  pure { db with comments := comments }

def modifyContentOrder (db : Database) (id : Nat)
    (change : ContentOrderObject → ContentOrderObject) :
    Except Fault Database := do
  let orders ← modifyRow db.contentOrders id fun order => pure (change order)
  pure { db with contentOrders := orders }

def modifyRewardFund (db : Database) (id : Nat)
    (change : RewardFundObject → Except Fault RewardFundObject) :
    Except Fault Database := do
  let funds ← modifyRow db.rewardFunds id change
  pure { db with rewardFunds := funds }

/-! ## Balances -/

/-- `balance +=` of an account. -/
def addBalance (db : Database) (name : AccountName) (amount : Int) :
    Except Fault Database :=
  db.modifyAccount name fun account => do
    let balance ← checked (account.balance + amount)
    pure { account with balance := balance }

/-- `adjust_balance`. -/
def adjustBalance (db : Database) (name : AccountName) (delta : Asset) :
    Except Fault Database :=
  db.modifyAccount name fun account => do
    require (delta.symbol = bmtSymbol) "invalid symbol"
    let balance ← checked (account.balance + delta.amount)
    pure { account with balance := balance }

/-- `adjust_savings_balance`. -/
def adjustSavingsBalance (db : Database) (name : AccountName)
    (delta : Asset) : Except Fault Database :=
  db.modifyAccount name fun account => do
    require (delta.symbol = bmtSymbol) "invalid symbol"
    let savings ← checked (account.savingsBalance + delta.amount)
    pure { account with savingsBalance := savings }

/-- `adjust_reward_balance`. -/
def adjustRewardBalance (db : Database) (name : AccountName)
    (delta : Asset) : Except Fault Database :=
  db.modifyAccount name fun account => do
    require (delta.symbol = bmtSymbol) "invalid symbol"
    let reward ← checked (account.rewardBmtBalance + delta.amount)
    pure { account with rewardBmtBalance := reward }

/-- `get_balance`. -/
def getBalance (account : AccountObject) (symbol : AssetSymbol) :
    Except Fault Int := do
  require (symbol = bmtSymbol) "invalid symbol"
  pure account.balance

/-- `adjust_supply` without the vesting part, which no caller asks for. -/
def adjustSupply (db : Database) (delta : Int) : Except Fault Database := do
  let current ← checked (db.props.currentSupply + delta)
  let virtual ← checked (db.props.virtualSupply + delta)
  pure { db with
    props :=
      { db.props with currentSupply := current, virtualSupply := virtual } }

/-! ## Witness votes -/

/-- `adjust_witness_vote`. -/
def adjustWitnessVote (db : Database) (name : AccountName) (delta : Int) :
    Except Fault Database :=
  db.modifyWitness name fun witness => do
    let time := db.schedule.currentVirtualTime
    let elapsed := subUint128 time witness.virtualLastUpdate
    let moved := uint128 witness.votes * elapsed % 2 ^ 128
    let position := addUint128 witness.virtualPosition moved
    let votes ← checked (witness.votes + delta)
    require (votes ≤ db.props.totalVestingShares)
      "w.votes <= total_vesting_shares.amount"
    let lap ←
      divideUint128 (subUint128 maxUint128 position) (uint128 (votes + 1))
    let scheduled := addUint128 time lap
    pure { witness with
      virtualPosition := position
      virtualLastUpdate := time
      votes := votes
      virtualScheduledTime :=
        if scheduled < time then maxUint128 else scheduled }

/-- The votes of an account, by increasing witness id. -/
def witnessVotesOf (db : Database) (account : Nat) :
    List (Nat × WitnessVoteObject) :=
  (db.witnessVotes.entries.filter fun entry =>
    entry.2.account = account).insertionSort
      fun first second => first.2.witness ≤ second.2.witness

/-- `adjust_witness_votes`. -/
def adjustWitnessVotes (db : Database) (account : Nat) (delta : Int) :
    Except Fault Database :=
  (db.witnessVotesOf account).foldlM
    (fun db vote => do
      let (name, _) ← db.getWitnessById vote.2.witness
      db.adjustWitnessVote name delta)
    db

/-- Add to one entry of `proxied_vsf_votes`. -/
def addProxied (votes : List Int) (place : Nat) (delta : Int) :
    Except Fault (List Int) := do
  let total ← checked (votes.getD place 0 + delta)
  pure (votes.set place total)

/--
`adjust_proxied_witness_votes` with one delta.  The first argument is the
number of proxies the change may still pass through.
-/
def adjustProxiedVotesFrom :
    Nat → Database → AccountName → Int → Except Fault Database
  | remaining, db, name, delta => do
      let account ← db.getAccount name
      if account.proxy = "" then
        db.adjustWitnessVotes account.id delta
      else
        match remaining with
        | 0 => .ok db
        | left + 1 => do
            let db ← db.modifyAccount account.proxy fun proxy => do
              let votes ← addProxied proxy.proxiedVsfVotes
                (maxProxyRecursionDepth - (left + 1)) delta
              pure { proxy with proxiedVsfVotes := votes }
            adjustProxiedVotesFrom left db account.proxy delta

/-- `adjust_proxied_witness_votes( a, delta )`. -/
def adjustProxiedWitnessVotes (db : Database) (name : AccountName)
    (delta : Int) : Except Fault Database :=
  adjustProxiedVotesFrom maxProxyRecursionDepth db name delta

/-- Add the first deltas to the entries from `depth` on. -/
def addProxiedDeltas (depth : Nat) (deltas : List Int) (votes : List Int) :
    Except Fault (List Int) :=
  ((deltas.take (maxProxyRecursionDepth - depth)).zipIdx.reverse).foldlM
    (fun votes entry => addProxied votes (entry.2 + depth) entry.1) votes

/-- `adjust_proxied_witness_votes` with a delta for each proxy distance. -/
def adjustProxiedDeltasFrom :
    Nat → Database → AccountName → List Int → Except Fault Database
  | remaining, db, name, deltas => do
      let account ← db.getAccount name
      let depth := maxProxyRecursionDepth - remaining
      if account.proxy = "" then do
        let total ←
          (deltas.take (maxProxyRecursionDepth + 1 - depth)).reverse.foldlM
            (fun total delta => checked (total + delta)) 0
        db.adjustWitnessVotes account.id total
      else
        match remaining with
        | 0 => .ok db
        | left + 1 => do
            let db ← db.modifyAccount account.proxy fun proxy => do
              let votes ←
                addProxiedDeltas depth deltas proxy.proxiedVsfVotes
              pure { proxy with proxiedVsfVotes := votes }
            adjustProxiedDeltasFrom left db account.proxy deltas

/-- `adjust_proxied_witness_votes( a, deltas )`. -/
def adjustProxiedWitnessDeltas (db : Database) (name : AccountName)
    (deltas : List Int) : Except Fault Database :=
  adjustProxiedDeltasFrom maxProxyRecursionDepth db name deltas

/-- The deltas which take all votes of an account away. -/
def withdrawnVotes (account : AccountObject) : Except Fault (List Int) :=
  (account.vestingShares :: account.proxiedVsfVotes).mapM
    fun votes => checked (-votes)

/-- `clear_witness_votes`. -/
def clearWitnessVotes (db : Database) (name : AccountName) :
    Except Fault Database := do
  let account ← db.getAccount name
  let votes := (db.witnessVotesOf account.id).foldl
    (fun votes vote => votes.remove vote.1) db.witnessVotes
  let db := { db with witnessVotes := votes }
  db.modifyAccount name fun account =>
    pure { account with witnessesVotedFor := 0 }

/-! ## Vesting -/

/-- `create_vesting`. -/
def createVesting (db : Database) (name : AccountName) (amount : Int)
    (toRewardBalance : Bool) : Except Fault (Database × Int) := do
  let price ←
    (if toRewardBalance then db.props.rewardVestingSharePrice
    else pure db.props.vestingSharePrice)
  let created ← (bmt amount).mul price
  let shares ← created.inSymbol vestsSymbol
  let db ← db.modifyAccount name fun account =>
    if toRewardBalance then do
      let balance ← checked (account.rewardVestingBalance + shares)
      let backing ← checked (account.rewardVestingBmt + amount)
      pure { account with
        rewardVestingBalance := balance, rewardVestingBmt := backing }
    else do
      let owned ← checked (account.vestingShares + shares)
      pure { account with vestingShares := owned }
  if toRewardBalance then do
    let pendingShares ←
      checked (db.props.pendingRewardedVestingShares + shares)
    let pendingBmt ← checked (db.props.pendingRewardedVestingBmt + amount)
    pure
      ({ db with
        props := { db.props with
          pendingRewardedVestingShares := pendingShares
          pendingRewardedVestingBmt := pendingBmt } },
        shares)
  else do
    let fund ← checked (db.props.totalVestingFundBmt + amount)
    let total ← checked (db.props.totalVestingShares + shares)
    let db ←
      { db with
        props := { db.props with
          totalVestingFundBmt := fund
          totalVestingShares := total } }.adjustProxiedWitnessVotes name shares
    pure (db, shares)

/-! ## Emission -/

/-- `BMCHAIN_DAILY_INFLATION_RATE_RESTRICTION`. -/
def dailyInflationRateRestriction : Int := 20

/-- The number of blocks in a day, which the emission counts by. -/
def emissionPeriod : Nat := 20 * 60 * 24

/-- `BMCHAIN_CONTENT_REWARD_PERCENT_NEW`. -/
def contentRewardPercentNew : Int := 9000

/-- The share of one fund in `pay_reward_funds`. -/
def payRewardFund (reward : Int) (paid : Database × Int)
    (entry : Nat × RewardFundObject) : Except Fault (Database × Int) := do
  let scaled ← checked (reward * entry.2.percentContentRewards)
  let share ← checkedDiv scaled hundredPercent
  let db ← paid.1.modifyRewardFund entry.1 fun fund => do
    let balance ← checked (fund.rewardBalance + share)
    pure { fund with rewardBalance := balance }
  let used ← checked (paid.2 + share)
  require (used ≤ reward) "used_rewards <= reward"
  pure (db, used)

/-- `pay_reward_funds`. -/
def payRewardFunds (db : Database) (reward : Int) :
    Except Fault (Database × Int) :=
  db.rewardFunds.entries.foldlM (payRewardFund reward) (db, 0)

/-- The cap on a day's emission. -/
def dailyEmissionCap (db : Database) : Int :=
  ((db.props.currentSupply * dailyInflationRateRestriction).tdiv 100).tdiv 365

/-- Whether the day's emission has reached its cap. -/
def emissionStopped (db : Database) : Bool :=
  db.dailyEmissionCap ≤ db.props.dailyEmission ∧
    db.props.headBlockNumber % emissionPeriod ≠ 0

/-- `process_funds_bmchain`. -/
def processFundsBmchain (db : Database) (newBmt : Int) :
    Except Fault Database :=
  if db.emissionStopped then .ok db
  else do
    let offered := (newBmt * contentRewardPercentNew).tdiv hundredPercent
    let (db, contentReward) ← db.payRewardFunds offered
    let witnessReward ← checked (newBmt - contentReward)
    let witness ← db.getWitness db.props.currentWitness
    let db ← db.addBalance witness.owner witnessReward
    let db := db.pushVirtualOperation
      (.producerReward witness.owner (bmt witnessReward))
    let created ← checked (contentReward + witnessReward)
    let current ← checked (db.props.currentSupply + created)
    let virtual ← checked (db.props.virtualSupply + created)
    let today :=
      if db.props.headBlockNumber % emissionPeriod = 0 then 0
      else db.props.dailyEmission
    let daily ← checked (today + created)
    pure { db with
      props := { db.props with
        currentSupply := current
        virtualSupply := virtual
        dailyEmission := daily } }

/-! ## Authorities -/

/-- `BMCHAIN_OWNER_AUTH_HISTORY_TRACKING_START_BLOCK_NUM`. -/
def ownerAuthHistoryTrackingStartBlockNum : Nat := 3186477

/-- `update_owner_authority`. -/
def updateOwnerAuthority (db : Database) (name : AccountName)
    (owner : Authority) : Except Fault Database := do
  let authority ← db.getAuthority name
  let history :=
    if ownerAuthHistoryTrackingStartBlockNum ≤ db.headBlockNum then
      db.ownerHistory.emplace
        ⟨name, authority.owner, db.headBlockTime⟩
    else db.ownerHistory
  { db with ownerHistory := history }.modifyAuthority name fun authority =>
    { authority with owner := owner, lastOwnerUpdate := db.headBlockTime }

end Database

end BMChain.State

import BMChain.State.Database

/-!
# Evaluators for accounts, witnesses and delegations

The `do_apply` functions of `bmchain_evaluator.cpp` for the operations which
create and change accounts, their authorities, their votes for witnesses and
their delegations.
-/

namespace BMChain.State

open BMChain.Foundation BMChain.Protocol

namespace Database

/-! ## Constants -/

/-- `BMCHAIN_CREATE_ACCOUNT_WITH_BMT_MODIFIER`. -/
def createAccountWithBmtModifier : Int := 1

/-- `BMCHAIN_CREATE_ACCOUNT_DELEGATION_RATIO`. -/
def createAccountDelegationRatio : Int := 5

/-- `BMCHAIN_CREATE_ACCOUNT_DELEGATION_TIME`. -/
def createAccountDelegationTime : Nat := 60 * 60 * 24 * 30

/-- `BMCHAIN_USER_EMISSION_RATE`. -/
def userEmissionRate : Int := 10000

/-- `BMCHAIN_OWNER_UPDATE_LIMIT`. -/
def ownerUpdateLimit : Int := 60 * 60

/-- `BMCHAIN_OWNER_AUTH_RECOVERY_PERIOD`. -/
def ownerAuthRecoveryPeriod : Nat := 60 * 60 * 24 * 30

/-- `BMCHAIN_ACCOUNT_RECOVERY_REQUEST_EXPIRATION_PERIOD`. -/
def accountRecoveryRequestExpirationPeriod : Nat := 60 * 60 * 24

/-- `BMCHAIN_MAX_WITNESS_URL_LENGTH`. -/
def maxWitnessUrlLength : Nat := 2048

/-- `BMCHAIN_MAX_ACCOUNT_WITNESS_VOTES`. -/
def maxAccountWitnessVotes : Nat := 30

/-- `BMCHAIN_CASHOUT_WINDOW_SECONDS`. -/
def cashoutWindowSeconds : Nat := 60 * 60 * 24 * 7

/-! ## Accounts -/

/-- The avatar of a new account or an update, when the metadata names one. -/
def readAvatar (ext : External) (metadata : Text) (current : Text) :
    Except Fault Text :=
  if metadata = [] then .ok current
  else do
    let avatar ← ext.avatarOf metadata
    pure (avatar.getD current)

/-- Add a fee to the balance of every reward fund. -/
def addToRewardFunds (db : Database) (fee : Int) : Except Fault Database :=
  db.rewardFunds.entries.foldlM
    (fun db entry => db.modifyRewardFund entry.1 fun fund => do
      let balance ← checked (fund.rewardBalance + fee)
      pure { fund with rewardBalance := balance })
    db

/-- Give a positive fee to the reward funds. -/
def payFee (db : Database) (fee : Int) : Except Fault Database :=
  if 0 < fee then db.addToRewardFunds fee else .ok db

/-- `account_create_evaluator::do_apply`. -/
def accountCreateEvaluator (ext : External) (op : AccountCreateOperation)
    (db : Database) : Except Fault Database := do
  let creator ← db.getAccount op.creator
  let fee ← op.fee.inSymbol bmtSymbol
  require (fee ≤ creator.balance) "Insufficient balance to create account."
  let required ← checked
    (db.schedule.medianProps.accountCreationFee.amount *
      createAccountWithBmtModifier)
  require (required ≤ fee) "Insufficient Fee"
  db.checkAccounts op.owner
  db.checkAccounts op.active
  db.checkAccounts op.posting
  let db ← db.addBalance op.creator (-fee)
  let avatar ← readAvatar ext op.jsonMetadata []
  let accounts ← createNamed db.accounts op.newAccountName fun id =>
    { id := id
      name := op.newAccountName
      memoKey := op.memoKey
      created := db.props.time
      lastVoteTime := db.props.time
      mined := false
      recoveryAccount := op.creator
      avatar := avatar
      jsonMetadata := op.jsonMetadata }
  let authorities ← createNamed db.authorities op.newAccountName fun _ =>
    ⟨op.newAccountName, op.owner, op.active, op.posting, 0⟩
  let db := { db with accounts := accounts, authorities := authorities }
  let db ← db.payFee fee
  db.processFundsBmchain userEmissionRate

/-- What an account may still delegate. -/
def availableShares (account : AccountObject) : Except Fault Int := do
  let own ← checked (account.vestingShares - account.delegatedVestingShares)
  let leaving ← checked (account.toWithdraw - account.withdrawn)
  checked (own - leaving)

/-- An amount of BMT converted to vesting shares at the current price. -/
def toVests (db : Database) (amount : Asset) : Except Fault Int := do
  let shares ← amount.mul db.props.vestingSharePrice
  shares.inSymbol vestsSymbol

/-- `account_create_with_delegation_evaluator::do_apply`. -/
def accountCreateWithDelegationEvaluator
    (op : AccountCreateWithDelegationOperation) (db : Database) :
    Except Fault Database := do
  let creator ← db.getAccount op.creator
  let fee ← op.fee.inSymbol bmtSymbol
  require (fee ≤ creator.balance) "Insufficient balance to create account."
  let available ← availableShares creator
  let delegation ← op.delegation.inSymbol vestsSymbol
  require (delegation ≤ available)
    "Insufficient vesting shares to delegate to new account."
  let median := db.schedule.medianProps.accountCreationFee
  let scaledMedian ← checked (median.amount * createAccountWithBmtModifier)
  let scaledTarget ← checked (scaledMedian * createAccountDelegationRatio)
  let target ← db.toVests (bmt scaledTarget)
  let scaledFee ← checked (fee * createAccountDelegationRatio)
  let converted ← db.toVests (bmt scaledFee)
  let current ← checked (converted + delegation)
  require (target ≤ current) "Inssufficient Delegation"
  let medianFee ← median.inSymbol bmtSymbol
  require (medianFee ≤ fee) "Insufficient Fee"
  db.checkAccounts op.owner
  db.checkAccounts op.active
  db.checkAccounts op.posting
  let db ← db.modifyAccount op.creator fun account => do
    let balance ← checked (account.balance - fee)
    let delegated ← checked (account.delegatedVestingShares + delegation)
    pure { account with
      balance := balance, delegatedVestingShares := delegated }
  let accounts ← createNamed db.accounts op.newAccountName fun id =>
    { id := id
      name := op.newAccountName
      memoKey := op.memoKey
      created := db.props.time
      lastVoteTime := db.props.time
      mined := false
      recoveryAccount := op.creator
      receivedVestingShares := delegation
      jsonMetadata := op.jsonMetadata }
  let authorities ← createNamed db.authorities op.newAccountName fun _ =>
    ⟨op.newAccountName, op.owner, op.active, op.posting, 0⟩
  let delegations ←
    (if 0 < delegation then
      createRow db.delegations
        (fun other =>
          other.delegator = op.creator ∧ other.delegatee = op.newAccountName)
        ⟨op.creator, op.newAccountName, delegation,
          addSeconds db.headBlockTime createAccountDelegationTime⟩
    else pure db.delegations)
  let db := { db with
    accounts := accounts
    authorities := authorities
    delegations := delegations }
  if 0 < fee then do
    let (db, _) ← db.createVesting op.newAccountName fee false
    pure db
  else pure db

/-- The change of the owner authority in `account_update`. -/
def changeOwner (db : Database) (op : AccountUpdateOperation)
    (lastOwnerUpdate : Time) : Except Fault Database :=
  match op.owner with
  | none => .ok db
  | some owner => do
      require (ownerUpdateLimit < (db.headBlockTime : Int) - lastOwnerUpdate)
        "Owner authority can only be updated once an hour."
      db.checkAccounts owner
      db.updateOwnerAuthority op.account owner

/-- `account_update_evaluator::do_apply`. -/
def accountUpdateEvaluator (ext : External) (op : AccountUpdateOperation)
    (db : Database) : Except Fault Database := do
  require (op.account ≠ "temp") "Cannot update temp account."
  op.posting.forM Authority.validate
  let _ ← db.getAccount op.account
  let authority ← db.getAuthority op.account
  let db ← db.changeOwner op authority.lastOwnerUpdate
  op.active.forM db.checkAccounts
  op.posting.forM db.checkAccounts
  let db ← db.modifyAccount op.account fun account => do
    let proved := (op.active.isSome || op.owner.isSome) &&
      account.activeChallenged
    let avatar ← readAvatar ext op.jsonMetadata account.avatar
    pure { account with
      memoKey := if op.memoKey ≠ 0 then op.memoKey else account.memoKey
      activeChallenged := if proved then false else account.activeChallenged
      lastActiveProved :=
        if proved then db.headBlockTime else account.lastActiveProved
      lastAccountUpdate := db.headBlockTime
      avatar := avatar
      jsonMetadata :=
        if op.jsonMetadata ≠ [] then op.jsonMetadata
        else account.jsonMetadata }
  if op.active.isSome || op.posting.isSome then
    db.modifyAuthority op.account fun authority =>
      { authority with
        active := op.active.getD authority.active
        posting := op.posting.getD authority.posting }
  else pure db

/-! ## Recovery -/

/-- The order of `by_vote_name`. -/
def beforeByVoteName (first second : WitnessObject) : Bool :=
  second.votes < first.votes ∨
    (first.votes = second.votes ∧ first.owner < second.owner)

/-- The witness with the most votes. -/
def topWitness (db : Database) : Option WitnessObject :=
  firstBy beforeByVoteName (db.witnesses.entries.map Prod.snd)

/-- `request_account_recovery_evaluator::do_apply`. -/
def requestAccountRecoveryEvaluator (op : RequestAccountRecoveryOperation)
    (db : Database) : Except Fault Database := do
  let account ← db.getAccount op.accountToRecover
  (if nameSize account.recoveryAccount ≠ 0 then
    require (account.recoveryAccount = op.recoveryAccount)
      "Cannot recover an account that does not have you as there recovery partner."
  else
    require (db.topWitness.any fun top => top.owner = op.recoveryAccount)
      "Top witness must recover an account with no recovery partner.")
  let authority := op.newOwnerAuthority
  let expires :=
    addSeconds db.headBlockTime accountRecoveryRequestExpirationPeriod
  match db.recoveryRequests.findBy fun request =>
      request.accountToRecover = op.accountToRecover with
  | none => do
      require (!authority.isImpossible)
        "Cannot recover using an impossible authority."
      require (authority.weightThreshold ≠ 0)
        "Cannot recover using an open authority."
      db.checkAccounts authority
      pure { db with
        recoveryRequests := db.recoveryRequests.emplace
          ⟨op.accountToRecover, authority, expires⟩ }
  | some (id, request) =>
      if authority.weightThreshold = 0 then
        pure { db with recoveryRequests := db.recoveryRequests.remove id }
      else do
        require (!authority.isImpossible)
          "Cannot recover using an impossible authority."
        db.checkAccounts authority
        pure { db with
          recoveryRequests := db.recoveryRequests.set id
            { request with newOwnerAuthority := authority, expires := expires } }

/-- `recover_account_evaluator::do_apply`. -/
def recoverAccountEvaluator (op : RecoverAccountOperation)
    (db : Database) : Except Fault Database := do
  let account ← db.getAccount op.accountToRecover
  require
    (ownerUpdateLimit <
      (db.headBlockTime : Int) - account.lastAccountRecovery)
    "Owner authority can only be updated once an hour."
  let (id, request) ← orFault
    (db.recoveryRequests.findBy fun request =>
      request.accountToRecover = op.accountToRecover)
    "There are no active recovery requests for this account."
  require (request.newOwnerAuthority = op.newOwnerAuthority)
    "New owner authority does not match recovery request."
  require
    ((db.ownerHistory.findBy fun history =>
      history.account = op.accountToRecover ∧
        history.previousOwnerAuthority = op.recentOwnerAuthority).isSome)
    "Recent authority not found in authority history."
  let db := { db with recoveryRequests := db.recoveryRequests.remove id }
  let db ← db.updateOwnerAuthority op.accountToRecover op.newOwnerAuthority
  db.modifyAccount op.accountToRecover fun account =>
    pure { account with lastAccountRecovery := db.headBlockTime }

/-- `change_recovery_account_evaluator::do_apply`. -/
def changeRecoveryAccountEvaluator (op : ChangeRecoveryAccountOperation)
    (db : Database) : Except Fault Database := do
  let _ ← db.getAccount op.newRecoveryAccount
  let account ← db.getAccount op.accountToRecover
  let effective := addSeconds db.headBlockTime ownerAuthRecoveryPeriod
  match db.changeRecoveryRequests.findBy fun request =>
      request.accountToRecover = op.accountToRecover with
  | none =>
      pure { db with
        changeRecoveryRequests := db.changeRecoveryRequests.emplace
          ⟨op.accountToRecover, op.newRecoveryAccount, effective⟩ }
  | some (id, request) =>
      if account.recoveryAccount ≠ op.newRecoveryAccount then
        pure { db with
          changeRecoveryRequests := db.changeRecoveryRequests.set id
            { request with
              recoveryAccount := op.newRecoveryAccount
              effectiveOn := effective } }
      else
        pure { db with
          changeRecoveryRequests := db.changeRecoveryRequests.remove id }

/-- `decline_voting_rights_evaluator::do_apply`. -/
def declineVotingRightsEvaluator (op : DeclineVotingRightsOperation)
    (db : Database) : Except Fault Database := do
  let account ← db.getAccount op.account
  let existing :=
    db.declineRequests.findBy fun request => request.account = account.id
  if op.decline then do
    require existing.isNone
      "Cannot create new request because one already exists."
    pure { db with
      declineRequests := db.declineRequests.emplace
        ⟨account.id, addSeconds db.headBlockTime ownerAuthRecoveryPeriod⟩ }
  else do
    let (id, _) ← orFault existing
      "Cannot cancel the request because it does not exist."
    pure { db with declineRequests := db.declineRequests.remove id }

/-! ## Witnesses -/

/-- `witness_update_evaluator::do_apply`. -/
def witnessUpdateEvaluator (op : WitnessUpdateOperation)
    (db : Database) : Except Fault Database := do
  let _ ← db.getAccount op.owner
  require (op.url.length ≤ maxWitnessUrlLength) "URL is too long"
  require (op.props.accountCreationFee.symbol = bmtSymbol)
    "o.props.account_creation_fee.symbol == BMT_SYMBOL"
  match db.witnesses.find? op.owner with
  | some witness =>
      pure { db with
        witnesses := db.witnesses.set op.owner
          { witness with
            url := op.url
            signingKey := op.blockSigningKey
            props := op.props } }
  | none =>
      pure { db with
        witnesses := db.witnesses.emplace op.owner
          { id := db.witnesses.nextId
            owner := op.owner
            url := op.url
            signingKey := op.blockSigningKey
            created := db.headBlockTime
            props := op.props } }

/--
The walk along the proxies of a new proxy.  Every round adds an account to
the chain, so the bound on its length bounds the rounds.
-/
def checkProxyChain (db : Database) :
    Nat → List Nat → AccountObject → Except Fault Unit
  | 0, _, _ => .error "Proxy chain is too long."
  | rounds + 1, chain, current =>
      if nameSize current.proxy = 0 then .ok ()
      else do
        let next ← db.getAccount current.proxy
        require (next.id ∉ chain) "This proxy would create a proxy loop."
        require (chain.length + 1 ≤ maxProxyRecursionDepth)
          "Proxy chain is too long."
        checkProxyChain db rounds (next.id :: chain) next

/-- `account_witness_proxy_evaluator::do_apply`. -/
def accountWitnessProxyEvaluator (op : AccountWitnessProxyOperation)
    (db : Database) : Except Fault Database := do
  let account ← db.getAccount op.account
  require (account.proxy ≠ op.proxy) "Proxy must change."
  require account.canVote
    "Account has declined the ability to vote and cannot proxy votes."
  let deltas ← withdrawnVotes account
  let db ← db.adjustProxiedWitnessDeltas op.account deltas
  if nameSize op.proxy ≠ 0 then do
    let newProxy ← db.getAccount op.proxy
    db.checkProxyChain (maxProxyRecursionDepth + 1)
      (if newProxy.id = account.id then [account.id]
        else [newProxy.id, account.id]) newProxy
    let db ← db.clearWitnessVotes op.account
    let db ← db.modifyAccount op.account fun account =>
      pure { account with proxy := op.proxy }
    let restored ← deltas.mapM fun delta => checked (-delta)
    db.adjustProxiedWitnessDeltas op.account restored
  else
    db.modifyAccount op.account fun account =>
      pure { account with proxy := op.proxy }

/-- `account_witness_vote_evaluator::do_apply`. -/
def accountWitnessVoteEvaluator (op : AccountWitnessVoteOperation)
    (db : Database) : Except Fault Database := do
  let voter ← db.getAccount op.account
  require (nameSize voter.proxy = 0)
    "A proxy is currently set, please clear the proxy before voting for a witness."
  require (!op.approve || voter.canVote)
    "Account has declined its voting rights."
  let witness ← db.getWitness op.witness
  let weight ← voter.witnessVoteWeight
  match db.witnessVotes.findBy fun vote =>
      vote.account = voter.id ∧ vote.witness = witness.id with
  | none => do
      require op.approve
        "Vote doesn't exist, user must indicate a desire to approve witness."
      require (voter.witnessesVotedFor < maxAccountWitnessVotes)
        "Account has voted for too many witnesses."
      let db := { db with
        witnessVotes := db.witnessVotes.emplace ⟨witness.id, voter.id⟩ }
      let db ← db.adjustWitnessVote op.witness weight
      db.modifyAccount op.account fun account =>
        pure { account with
          witnessesVotedFor := increment 16 account.witnessesVotedFor }
  | some (id, _) => do
      require (!op.approve)
        "Vote currently exists, user must indicate a desire to reject witness."
      let taken ← checked (-weight)
      let db ← db.adjustWitnessVote op.witness taken
      let db ← db.modifyAccount op.account fun account =>
        pure { account with
          witnessesVotedFor := decrement 16 account.witnessesVotedFor }
      pure { db with witnessVotes := db.witnessVotes.remove id }

/-! ## Delegations -/

/-- Set the shares which a delegatee received. -/
def addReceived (db : Database) (name : AccountName) (delta : Int) :
    Except Fault Database :=
  db.modifyAccount name fun account => do
    let received ← checked (account.receivedVestingShares + delta)
    pure { account with receivedVestingShares := received }

/-- Set the shares which a delegator gave away. -/
def addDelegated (db : Database) (name : AccountName) (delta : Int) :
    Except Fault Database :=
  db.modifyAccount name fun account => do
    let delegated ← checked (account.delegatedVestingShares + delta)
    pure { account with delegatedVestingShares := delegated }

/-- `delegate_vesting_shares_evaluator::do_apply`. -/
def delegateVestingSharesEvaluator (op : DelegateVestingSharesOperation)
    (db : Database) : Except Fault Database := do
  let delegator ← db.getAccount op.delegator
  let _ ← db.getAccount op.delegatee
  let available ← availableShares delegator
  let median := db.schedule.medianProps.accountCreationFee
  let scaled ← checked (median.amount * 10)
  let minDelegation ← db.toVests (bmt scaled)
  let minUpdate ← db.toVests median
  let shares ← op.vestingShares.inSymbol vestsSymbol
  match db.delegations.findBy fun other =>
      other.delegator = op.delegator ∧ other.delegatee = op.delegatee with
  | none => do
      require (shares ≤ available)
        "Account does not have enough vesting shares to delegate."
      require (minDelegation ≤ shares) "Account must delegate a minimum"
      let db := { db with
        delegations := db.delegations.emplace
          ⟨op.delegator, op.delegatee, shares, db.headBlockTime⟩ }
      let db ← db.addDelegated op.delegator shares
      db.addReceived op.delegatee shares
  | some (id, delegation) =>
      if delegation.vestingShares ≤ shares then do
        let delta ← checked (shares - delegation.vestingShares)
        require (minUpdate ≤ delta) "BMT increase is not enough of a difference."
        require (delta ≤ available)
          "Account does not have enough vesting shares to delegate."
        let db ← db.addDelegated op.delegator delta
        let db ← db.addReceived op.delegatee delta
        pure { db with
          delegations := db.delegations.set id
            { delegation with vestingShares := shares } }
      else do
        let delta ← checked (delegation.vestingShares - shares)
        require (shares ≤ 0 ∨ minUpdate ≤ delta)
          "BMT decrease is not enough of a difference."
        require (shares ≤ 0 ∨ minDelegation ≤ shares)
          "Delegation must be removed or leave minimum delegation amount"
        require (0 < shares ∨ 0 < delegation.vestingShares)
          "Delegation would set vesting_shares to zero, but it is already zero"
        let expiration :=
          max (addSeconds db.headBlockTime cashoutWindowSeconds)
            delegation.minDelegationTime
        let db := { db with
          delegationExpirations := db.delegationExpirations.emplace
            ⟨op.delegator, delta, expiration⟩ }
        let db ← db.addReceived op.delegatee (-delta)
        if 0 < shares then
          pure { db with
            delegations := db.delegations.set id
              { delegation with vestingShares := shares } }
        else
          pure { db with delegations := db.delegations.remove id }

end Database

end BMChain.State

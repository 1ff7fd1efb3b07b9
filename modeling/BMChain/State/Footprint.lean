import BMChain.Foundation.Frame
import BMChain.State.Run

/-!
# What a computation can touch

The parts of the state by name, and the relation that two states agree outside
a list of parts.  Objects which many operations change for different reasons
(accounts, witnesses, the global properties) are split into the aspects which
change together.
-/

namespace BMChain.State

open BMChain.Foundation BMChain.Protocol Std

variable {after db before : Database} {name : AccountName}

/-! ## Aspects of objects -/

/-- The aspects of an account. -/
inductive AccountAspect where
  | identity
  | profile
  | activity
  | voting
  | balance
  | savings
  | rewardBmt
  | rewardShares
  | rewardBacking
  | shares
  | delegated
  | received
  | withdrawal
  | routes
  | proxy
  | proxied
  | votedFor
  | canVote
  deriving DecidableEq

namespace AccountAspect

/-- The values of an aspect. -/
abbrev Carrier : AccountAspect → Type
  | .identity => Nat × AccountName
  | .profile =>
      PublicKey × Text × Text × Time × Time × Bool × Bool × Bool × Time ×
        AccountName × Time
  | .activity => Nat × Int × Int × Time × Time × Nat × Nat
  | .voting => Int × Time
  | .balance | .savings | .rewardBmt | .rewardShares | .rewardBacking
  | .shares | .delegated | .received => Int
  | .withdrawal => Int × Time × Int × Int
  | .routes | .votedFor => Nat
  | .proxy => AccountName
  | .proxied => List Int
  | .canVote => Bool

/-- The aspect of an account object. -/
def read : (aspect : AccountAspect) → AccountObject → aspect.Carrier
  | .identity, account => (account.id, account.name)
  | .profile, account =>
      (account.memoKey, account.jsonMetadata, account.avatar,
        account.lastAccountUpdate, account.created, account.mined,
        account.ownerChallenged, account.activeChallenged,
        account.lastActiveProved, account.recoveryAccount,
        account.lastAccountRecovery)
  | .activity, account =>
      (account.postCount, account.curationRewards, account.postingRewards,
        account.lastPost, account.lastRootPost, account.postBandwidth,
        account.savingsWithdrawRequests)
  | .voting, account => (account.votingPower, account.lastVoteTime)
  | .balance, account => account.balance
  | .savings, account => account.savingsBalance
  | .rewardBmt, account => account.rewardBmtBalance
  | .rewardShares, account => account.rewardVestingBalance
  | .rewardBacking, account => account.rewardVestingBmt
  | .shares, account => account.vestingShares
  | .delegated, account => account.delegatedVestingShares
  | .received, account => account.receivedVestingShares
  | .withdrawal, account =>
      (account.savingsWithdrawRate, account.nextSavingsWithdrawal,
        account.withdrawn, account.toWithdraw)
  | .routes, account => account.withdrawRoutes
  | .proxy, account => account.proxy
  | .proxied, account => account.proxiedVsfVotes
  | .votedFor, account => account.witnessesVotedFor
  | .canVote, account => account.canVote

end AccountAspect

/-- The aspects of a witness. -/
inductive WitnessAspect where
  | identity
  | votes
  | race
  | service
  deriving DecidableEq

namespace WitnessAspect

/-- The values of an aspect. -/
abbrev Carrier : WitnessAspect → Type
  | .identity => Nat × AccountName
  | .votes => Int
  | .race => Nat × Nat × Nat
  | .service =>
      Time × Text × Nat × Nat × Nat × Nat × PublicKey × ChainProperties ×
        WitnessScheduleType × Nat × Nat × Time

/-- The aspect of a witness object. -/
def read : (aspect : WitnessAspect) → WitnessObject → aspect.Carrier
  | .identity, witness => (witness.id, witness.owner)
  | .votes, witness => witness.votes
  | .race, witness =>
      (witness.virtualLastUpdate, witness.virtualPosition,
        witness.virtualScheduledTime)
  | .service, witness =>
      (witness.created, witness.url, witness.totalMissed, witness.lastAslot,
        witness.lastConfirmedBlockNum, witness.powWorker, witness.signingKey,
        witness.props, witness.schedule, witness.runningVersion,
        witness.hardforkVersionVote, witness.hardforkTimeVote)

end WitnessAspect

/-- The aspects of the global properties. -/
inductive PropsAspect where
  | head
  | currentWitness
  | supply
  | virtualSupply
  | vestingFund
  | vestingShares
  | rewardFund
  | rewardShares
  | pendingShares
  | pendingBacking
  | mining
  | blockSize
  | emission
  | lastSupply
  | voteReserve
  deriving DecidableEq

namespace PropsAspect

/-- The values of an aspect. -/
abbrev Carrier : PropsAspect → Type
  | .head => Nat × BlockId HeaderContent × Time × Nat × Nat × Nat × Nat
  | .currentWitness => AccountName
  | .supply | .virtualSupply | .vestingFund | .vestingShares | .rewardFund
  | .pendingShares | .pendingBacking | .emission | .lastSupply => Int
  | .rewardShares | .mining | .blockSize | .voteReserve => Nat

/-- The aspect of the global properties. -/
def read : (aspect : PropsAspect) → DynamicGlobalProperties → aspect.Carrier
  | .head, props =>
      (props.headBlockNumber, props.headBlockId, props.time,
        props.currentAslot, props.recentSlotsFilled,
        props.participationCount, props.lastIrreversibleBlockNum)
  | .currentWitness, props => props.currentWitness
  | .supply, props => props.currentSupply
  | .virtualSupply, props => props.virtualSupply
  | .vestingFund, props => props.totalVestingFundBmt
  | .vestingShares, props => props.totalVestingShares
  | .rewardFund, props => props.totalRewardFundBmt
  | .rewardShares, props => props.totalRewardShares2
  | .pendingShares, props => props.pendingRewardedVestingShares
  | .pendingBacking, props => props.pendingRewardedVestingBmt
  | .mining, props => props.numPowWitnesses
  | .blockSize, props => props.maximumBlockSize
  | .emission, props => props.dailyEmission
  | .lastSupply, props => props.lastCurrentSupply
  | .voteReserve, props => props.votePowerReserveRate

end PropsAspect

/-! ## Fields of the state -/

/-- The parts of the state. -/
inductive Field where
  | account (aspect : AccountAspect)
  | accountIds
  | authorities
  | witness (aspect : WitnessAspect)
  | witnessIds
  | witnessVotes
  | comments
  | commentVotes
  | rewardFunds
  | limitOrders
  | convertRequests
  | escrows
  | savingsWithdraws
  | withdrawRoutes
  | contentOrders
  | delegations
  | delegationExpirations
  | ownerHistory
  | recoveryRequests
  | changeRecoveryRequests
  | declineRequests
  | customTokens
  | accountBalances
  | transactions
  | blockSummaries
  | props (aspect : PropsAspect)
  | schedule
  | hardforks
  | virtualOperations
  deriving DecidableEq

namespace Field

/-- The values of a part. -/
abbrev Carrier : Field → Type
  | .account aspect => AccountName → Option aspect.Carrier
  | .accountIds | .witnessIds => Nat
  | .authorities => Register AccountAuthorityObject
  | .witness aspect => AccountName → Option aspect.Carrier
  | .witnessVotes => Table WitnessVoteObject
  | .comments => Table CommentObject
  | .commentVotes => Table CommentVoteObject
  | .rewardFunds => Table RewardFundObject
  | .limitOrders => Table LimitOrderObject
  | .convertRequests => Table ConvertRequestObject
  | .escrows => Table EscrowObject
  | .savingsWithdraws => Table SavingsWithdrawObject
  | .withdrawRoutes => Table WithdrawRouteObject
  | .contentOrders => Table ContentOrderObject
  | .delegations => Table VestingDelegationObject
  | .delegationExpirations => Table DelegationExpirationObject
  | .ownerHistory => Table OwnerAuthorityHistoryObject
  | .recoveryRequests => Table AccountRecoveryRequestObject
  | .changeRecoveryRequests => Table ChangeRecoveryAccountRequestObject
  | .declineRequests => Table DeclineVotingRightsRequestObject
  | .customTokens => Table CustomTokenObject
  | .accountBalances => Table AccountBalanceObject
  | .transactions => Table TransactionObject
  | .blockSummaries => ExtTreeMap Nat (BlockId HeaderContent)
  | .props aspect => aspect.Carrier
  | .schedule => WitnessScheduleObject
  | .hardforks => HardforkPropertyObject
  | .virtualOperations => List VirtualOperation

/-- The part of a state. -/
def read : (field : Field) → Database → field.Carrier
  | .account aspect, db =>
      fun name => (db.accounts.find? name).map aspect.read
  | .accountIds, db => db.accounts.nextId
  | .authorities, db => db.authorities
  | .witness aspect, db =>
      fun name => (db.witnesses.find? name).map aspect.read
  | .witnessIds, db => db.witnesses.nextId
  | .witnessVotes, db => db.witnessVotes
  | .comments, db => db.comments
  | .commentVotes, db => db.commentVotes
  | .rewardFunds, db => db.rewardFunds
  | .limitOrders, db => db.limitOrders
  | .convertRequests, db => db.convertRequests
  | .escrows, db => db.escrows
  | .savingsWithdraws, db => db.savingsWithdraws
  | .withdrawRoutes, db => db.withdrawRoutes
  | .contentOrders, db => db.contentOrders
  | .delegations, db => db.delegations
  | .delegationExpirations, db => db.delegationExpirations
  | .ownerHistory, db => db.ownerHistory
  | .recoveryRequests, db => db.recoveryRequests
  | .changeRecoveryRequests, db => db.changeRecoveryRequests
  | .declineRequests, db => db.declineRequests
  | .customTokens, db => db.customTokens
  | .accountBalances, db => db.accountBalances
  | .transactions, db => db.transactions
  | .blockSummaries, db => db.blockSummaries
  | .props aspect, db => aspect.read db.props
  | .schedule, db => db.schedule
  | .hardforks, db => db.hardforks
  | .virtualOperations, db => db.virtualOperations

end Field

/-- Two states agree outside the given parts. -/
def Agrees (fields : List Field) (before after : Database) : Prop :=
  ∀ field, field ∉ fields → field.read after = field.read before

instance (fields : List Field) : IsPreorder Database (Agrees fields) where
  refl := fun _ _ _ => rfl
  trans := fun _ _ _ first second field outside =>
    (second field outside).trans (first field outside)

theorem Agrees.mono
    {fields more : List Field}
    (agrees : Agrees fields before after)
    (included : fields ⊆ more) :
    Agrees more before after :=
  fun field outside => agrees field fun member => outside (included member)

/-- Whether no part is on both lists. -/
def apart (parts fields : List Field) : Bool :=
  parts.all fun field => field ∉ fields

/-- A part which is apart from the changed ones keeps its value. -/
theorem Agrees.read_eq
    {parts fields : List Field}
    (agrees : Agrees fields before after)
    (separate : apart parts fields = true)
    {field : Field}
    (member : field ∈ parts) :
    field.read after = field.read before :=
  agrees field (of_decide_eq_true (List.all_eq_true.1 separate field member))

/-- A computation changes nothing outside the given parts. -/
abbrev Touches (fields : List Field) (db : Database)
    (result : Except Fault Database) : Prop :=
  Respects (Agrees fields) db result

theorem Touches.mono
    {fields more : List Field}
    {result : Except Fault Database}
    (touches : Touches fields db result)
    (included : fields ⊆ more) :
    Touches more db result :=
  Respects.mono touches fun _ _ agrees => agrees.mono included

namespace Database

/-! ## Single objects -/

theorem modifyAccount_eq_ok_iff
    {change : AccountObject → Except Fault AccountObject} :
    db.modifyAccount name change = .ok after ↔
      ∃ account changed,
        db.accounts.find? name = some account ∧
          change account = .ok changed ∧
            { db with accounts := db.accounts.set name changed } = after := by
  simp only [modifyAccount, modifyNamed, bind_eq_ok_iff, orFault_eq_ok_iff,
    pure_eq_ok_iff]
  constructor
  · rintro ⟨_, ⟨account, found, changed, change, rfl⟩, done⟩
    exact ⟨account, changed, found, change, done⟩
  · rintro ⟨account, changed, found, change, done⟩
    exact ⟨_, ⟨account, found, changed, change, rfl⟩, done⟩

/-- Changing an account changes the accounts only. -/
theorem accounts_of_modifyAccount
    {change : AccountObject → Except Fault AccountObject}
    (done : db.modifyAccount name change = .ok after) :
    ∃ accounts, after = { db with accounts := accounts } := by
  rw [modifyAccount_eq_ok_iff] at done
  rcases done with ⟨account, changed, -, -, rfl⟩
  exact ⟨_, rfl⟩

/-- A change of an account touches the aspects which the change touches. -/
theorem touches_modifyAccount
    (db : Database)
    (name : AccountName)
    {change : AccountObject → Except Fault AccountObject}
    (aspects : List AccountAspect)
    (kept : ∀ account changed, change account = .ok changed →
      ∀ aspect, aspect ∉ aspects →
        AccountAspect.read aspect changed =
          AccountAspect.read aspect account) :
    Touches (aspects.map .account) db (db.modifyAccount name change) := by
  intro after done
  rw [modifyAccount_eq_ok_iff] at done
  rcases done with ⟨account, changed, found, change, rfl⟩
  intro field outside
  cases field with
  | account aspect =>
      have free : aspect ∉ aspects := fun member =>
        outside (List.mem_map_of_mem member)
      funext other
      have row : (db.accounts.set name changed).find? other =
          if name = other then some changed else db.accounts.find? other := by
        rw [Register.find?, Register.set_rows found, getElem?_place]
        rfl
      simp only [Field.read, row]
      split
      case isFalse => rfl
      case isTrue same =>
        rw [← same, found, Option.map_some, Option.map_some,
          kept account changed change aspect free]
  | _ => rfl

/-- The change of an account which cannot fail. -/
theorem touches_modifyAccount_pure
    (db : Database)
    (name : AccountName)
    {change : AccountObject → AccountObject}
    (aspects : List AccountAspect)
    (kept : ∀ account aspect, aspect ∉ aspects →
      AccountAspect.read aspect (change account) =
        AccountAspect.read aspect account) :
    Touches (aspects.map .account) db
      (db.modifyAccount name fun account => pure (change account)) := by
  refine touches_modifyAccount db name aspects ?_
  intro account changed equal
  cases equal
  exact kept account

/-- The same for witnesses. -/
theorem touches_modifyWitness
    (db : Database)
    (name : AccountName)
    {change : WitnessObject → Except Fault WitnessObject}
    (aspects : List WitnessAspect)
    (kept : ∀ witness changed, change witness = .ok changed →
      ∀ aspect, aspect ∉ aspects →
        WitnessAspect.read aspect changed =
          WitnessAspect.read aspect witness) :
    Touches (aspects.map .witness) db (db.modifyWitness name change) := by
  intro after done
  simp only [modifyWitness, modifyNamed, bind_eq_ok_iff, orFault_eq_ok_iff,
    pure_eq_ok_iff] at done
  rcases done with ⟨_, ⟨witness, found, changed, change, rfl⟩, rfl⟩
  intro field outside
  cases field with
  | witness aspect =>
      have free : aspect ∉ aspects := fun member =>
        outside (List.mem_map_of_mem member)
      funext other
      have row : (db.witnesses.set name changed).find? other =
          if name = other then some changed else db.witnesses.find? other := by
        rw [Register.find?, Register.set_rows found, getElem?_place]
        rfl
      simp only [Field.read, row]
      split
      case isFalse => rfl
      case isTrue same =>
        rw [← same, found, Option.map_some, Option.map_some,
          kept witness changed change aspect free]
  | _ => rfl

theorem touches_modifyWitness_pure
    (db : Database)
    (name : AccountName)
    {change : WitnessObject → WitnessObject}
    (aspects : List WitnessAspect)
    (kept : ∀ witness aspect, aspect ∉ aspects →
      WitnessAspect.read aspect (change witness) =
        WitnessAspect.read aspect witness) :
    Touches (aspects.map .witness) db
      (db.modifyWitness name fun witness => pure (change witness)) := by
  refine touches_modifyWitness db name aspects ?_
  intro witness changed equal
  cases equal
  exact kept witness

end Database

end BMChain.State

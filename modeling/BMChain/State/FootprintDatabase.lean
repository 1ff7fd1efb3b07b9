import BMChain.State.Footprint

/-!
# The footprints of shared functions

What the functions which several evaluators and block steps share can touch:
single tables, balances, votes for witnesses, vesting and the emission.
-/

namespace BMChain.State

open BMChain.Foundation BMChain.Protocol Std

namespace Database

/-! ## Tables -/

section Tables

variable (db : Database)

theorem agrees_comments
    (comments : Table CommentObject) :
    Agrees [.comments] db { db with comments := comments } := by
  intro field outside
  cases field with
  | comments => exact absurd (by simp) outside
  | _ => rfl

theorem agrees_commentVotes
    (commentVotes : Table CommentVoteObject) :
    Agrees [.commentVotes] db { db with commentVotes := commentVotes } := by
  intro field outside
  cases field with
  | commentVotes => exact absurd (by simp) outside
  | _ => rfl

theorem agrees_witnessVotes
    (witnessVotes : Table WitnessVoteObject) :
    Agrees [.witnessVotes] db { db with witnessVotes := witnessVotes } := by
  intro field outside
  cases field with
  | witnessVotes => exact absurd (by simp) outside
  | _ => rfl

theorem agrees_escrows
    (escrows : Table EscrowObject) :
    Agrees [.escrows] db { db with escrows := escrows } := by
  intro field outside
  cases field with
  | escrows => exact absurd (by simp) outside
  | _ => rfl

theorem agrees_limitOrders
    (limitOrders : Table LimitOrderObject) :
    Agrees [.limitOrders] db { db with limitOrders := limitOrders } := by
  intro field outside
  cases field with
  | limitOrders => exact absurd (by simp) outside
  | _ => rfl

theorem agrees_withdrawRoutes
    (withdrawRoutes : Table WithdrawRouteObject) :
    Agrees [.withdrawRoutes] db { db with withdrawRoutes := withdrawRoutes } := by
  intro field outside
  cases field with
  | withdrawRoutes => exact absurd (by simp) outside
  | _ => rfl

theorem agrees_delegations
    (delegations : Table VestingDelegationObject) :
    Agrees [.delegations] db { db with delegations := delegations } := by
  intro field outside
  cases field with
  | delegations => exact absurd (by simp) outside
  | _ => rfl

theorem agrees_delegationExpirations
    (delegationExpirations : Table DelegationExpirationObject) :
    Agrees [.delegationExpirations] db { db with delegationExpirations := delegationExpirations } := by
  intro field outside
  cases field with
  | delegationExpirations => exact absurd (by simp) outside
  | _ => rfl

theorem agrees_recoveryRequests
    (recoveryRequests : Table AccountRecoveryRequestObject) :
    Agrees [.recoveryRequests] db { db with recoveryRequests := recoveryRequests } := by
  intro field outside
  cases field with
  | recoveryRequests => exact absurd (by simp) outside
  | _ => rfl

theorem agrees_changeRecoveryRequests
    (changeRecoveryRequests : Table ChangeRecoveryAccountRequestObject) :
    Agrees [.changeRecoveryRequests] db { db with changeRecoveryRequests := changeRecoveryRequests } := by
  intro field outside
  cases field with
  | changeRecoveryRequests => exact absurd (by simp) outside
  | _ => rfl

theorem agrees_declineRequests
    (declineRequests : Table DeclineVotingRightsRequestObject) :
    Agrees [.declineRequests] db { db with declineRequests := declineRequests } := by
  intro field outside
  cases field with
  | declineRequests => exact absurd (by simp) outside
  | _ => rfl

theorem agrees_customTokens
    (customTokens : Table CustomTokenObject) :
    Agrees [.customTokens] db { db with customTokens := customTokens } := by
  intro field outside
  cases field with
  | customTokens => exact absurd (by simp) outside
  | _ => rfl

theorem agrees_accountBalances
    (accountBalances : Table AccountBalanceObject) :
    Agrees [.accountBalances] db { db with accountBalances := accountBalances } := by
  intro field outside
  cases field with
  | accountBalances => exact absurd (by simp) outside
  | _ => rfl

theorem agrees_contentOrders
    (contentOrders : Table ContentOrderObject) :
    Agrees [.contentOrders] db { db with contentOrders := contentOrders } := by
  intro field outside
  cases field with
  | contentOrders => exact absurd (by simp) outside
  | _ => rfl

theorem agrees_rewardFunds
    (rewardFunds : Table RewardFundObject) :
    Agrees [.rewardFunds] db { db with rewardFunds := rewardFunds } := by
  intro field outside
  cases field with
  | rewardFunds => exact absurd (by simp) outside
  | _ => rfl

theorem agrees_authorities
    (authorities : Register AccountAuthorityObject) :
    Agrees [.authorities] db { db with authorities := authorities } := by
  intro field outside
  cases field with
  | authorities => exact absurd (by simp) outside
  | _ => rfl

theorem agrees_ownerHistory
    (ownerHistory : Table OwnerAuthorityHistoryObject) :
    Agrees [.ownerHistory] db { db with ownerHistory := ownerHistory } := by
  intro field outside
  cases field with
  | ownerHistory => exact absurd (by simp) outside
  | _ => rfl


theorem agrees_virtualOperations
    (op : VirtualOperation) :
    Agrees [.virtualOperations] db (db.pushVirtualOperation op) := by
  intro field outside
  cases field with
  | virtualOperations => exact absurd (by simp) outside
  | _ => rfl

/-- Changed global properties touch the aspects which differ. -/
theorem agrees_props
    {props : DynamicGlobalProperties}
    (aspects : List PropsAspect)
    (kept : ∀ aspect, aspect ∉ aspects →
      PropsAspect.read aspect props = PropsAspect.read aspect db.props) :
    Agrees (aspects.map .props) db { db with props := props } := by
  intro field outside
  cases field with
  | props aspect =>
      exact kept aspect fun member => outside (List.mem_map_of_mem member)
  | _ => rfl

theorem touches_modifyAuthority
    (name : AccountName)
    (change : AccountAuthorityObject → AccountAuthorityObject) :
    Touches [.authorities] db (db.modifyAuthority name change) :=
  .read fun _ _ => .ok (agrees_authorities db _)

theorem touches_modifyComment
    (id : Nat)
    (change : CommentObject → Except Fault CommentObject) :
    Touches [.comments] db (db.modifyComment id change) :=
  .read fun _ _ => .ok (agrees_comments db _)

theorem touches_modifyContentOrder
    (id : Nat)
    (change : ContentOrderObject → ContentOrderObject) :
    Touches [.contentOrders] db (db.modifyContentOrder id change) :=
  .read fun _ _ => .ok (agrees_contentOrders db _)

theorem touches_modifyRewardFund
    (id : Nat)
    (change : RewardFundObject → Except Fault RewardFundObject) :
    Touches [.rewardFunds] db (db.modifyRewardFund id change) :=
  .read fun _ _ => .ok (agrees_rewardFunds db _)

/-! ## Balances -/

variable (name : AccountName)

theorem touches_addBalance
    (amount : Int) :
    Touches [.account .balance] db (db.addBalance name amount) := by
  refine touches_modifyAccount db name [.balance] ?_
  intro account changed equal aspect outside
  simp only [bind_eq_ok_iff, pure_eq_ok_iff] at equal
  rcases equal with ⟨_, -, rfl⟩
  cases aspect <;> simp [AccountAspect.read] at outside ⊢

theorem touches_adjustBalance
    (delta : Asset) :
    Touches [.account .balance] db (db.adjustBalance name delta) := by
  refine touches_modifyAccount db name [.balance] ?_
  intro account changed equal aspect outside
  simp only [bind_eq_ok_iff, pure_eq_ok_iff] at equal
  rcases equal with ⟨_, -, _, -, rfl⟩
  cases aspect <;> simp [AccountAspect.read] at outside ⊢

theorem touches_adjustSavingsBalance
    (delta : Asset) :
    Touches [.account .savings] db (db.adjustSavingsBalance name delta) := by
  refine touches_modifyAccount db name [.savings] ?_
  intro account changed equal aspect outside
  simp only [bind_eq_ok_iff, pure_eq_ok_iff] at equal
  rcases equal with ⟨_, -, _, -, rfl⟩
  cases aspect <;> simp [AccountAspect.read] at outside ⊢

theorem touches_adjustRewardBalance
    (delta : Asset) :
    Touches [.account .rewardBmt] db (db.adjustRewardBalance name delta) := by
  refine touches_modifyAccount db name [.rewardBmt] ?_
  intro account changed equal aspect outside
  simp only [bind_eq_ok_iff, pure_eq_ok_iff] at equal
  rcases equal with ⟨_, -, _, -, rfl⟩
  cases aspect <;> simp [AccountAspect.read] at outside ⊢

/-! ## Votes for witnesses -/

theorem touches_adjustWitnessVote
    (delta : Int) :
    Touches [.witness .votes, .witness .race] db
      (db.adjustWitnessVote name delta) := by
  refine touches_modifyWitness db name [.votes, .race] ?_
  intro witness changed equal aspect outside
  simp only [bind_eq_ok_iff, pure_eq_ok_iff] at equal
  rcases equal with ⟨_, -, _, -, _, -, rfl⟩
  cases aspect <;> simp [WitnessAspect.read] at outside ⊢

theorem touches_adjustWitnessVotes
    (account : Nat)
    (delta : Int) :
    Touches [.witness .votes, .witness .race] db
      (db.adjustWitnessVotes account delta) :=
  .foldlM _ fun state _ =>
    .read fun _ _ => touches_adjustWitnessVote state _ delta

end Tables

/-- What a change of the votes for witnesses touches. -/
def tallyFields : List Field :=
  [.account .proxied, .witness .votes, .witness .race]

/-- Weight added to a proxy touches only the weights it carries. -/
theorem touches_addToProxy
    (db : Database)
    (name : AccountName)
    (change : List Int → Except Fault (List Int)) :
    Touches tallyFields db (db.modifyAccount name fun proxy => do
      let votes ← change proxy.proxiedVsfVotes
      pure { proxy with proxiedVsfVotes := votes }) := by
  refine (touches_modifyAccount db name [.proxied] ?_).mono (by decide)
  intro account changed equal aspect outside
  simp only [bind_eq_ok_iff, pure_eq_ok_iff] at equal
  rcases equal with ⟨_, -, rfl⟩
  cases aspect <;> simp [AccountAspect.read] at outside ⊢

theorem touches_adjustProxiedVotesFrom
    (remaining : Nat)
    (db : Database)
    (name : AccountName)
    (delta : Int) :
    Touches tallyFields db
      (adjustProxiedVotesFrom remaining db name delta) := by
  induction remaining generalizing db name with
  | zero =>
      unfold adjustProxiedVotesFrom
      refine .read fun account _ => ?_
      split
      · exact (touches_adjustWitnessVotes db _ delta).mono (by decide)
      · exact .unchanged
  | succ left induction =>
      unfold adjustProxiedVotesFrom
      refine .read fun account _ => ?_
      split
      · exact (touches_adjustWitnessVotes db _ delta).mono (by decide)
      · exact .bind
          (touches_addToProxy db _ fun votes => addProxied votes _ delta)
          fun middle => induction middle _

theorem touches_adjustProxiedDeltasFrom
    (remaining : Nat)
    (db : Database)
    (name : AccountName)
    (deltas : List Int) :
    Touches tallyFields db
      (adjustProxiedDeltasFrom remaining db name deltas) := by
  induction remaining generalizing db name with
  | zero =>
      unfold adjustProxiedDeltasFrom
      refine .read fun account _ => ?_
      dsimp only
      split
      · refine .read fun total _ => ?_
        exact (touches_adjustWitnessVotes db _ total).mono (by decide)
      · exact .unchanged
  | succ left induction =>
      unfold adjustProxiedDeltasFrom
      refine .read fun account _ => ?_
      dsimp only
      split
      · refine .read fun total _ => ?_
        exact (touches_adjustWitnessVotes db _ total).mono (by decide)
      · exact .bind (touches_addToProxy db _ (addProxiedDeltas _ deltas))
          fun middle => induction middle _

theorem touches_countVotes
    (db : Database)
    (name : AccountName)
    (change : Nat → Nat) :
    Touches [.account .votedFor] db
      (db.modifyAccount name fun account =>
        pure { account with
          witnessesVotedFor := change account.witnessesVotedFor }) := by
  refine touches_modifyAccount_pure db name [.votedFor] ?_
  intro account aspect outside
  cases aspect <;> simp [AccountAspect.read] at outside ⊢

theorem touches_setProxy
    (db : Database)
    (name proxy : AccountName) :
    Touches [.account .proxy] db
      (db.modifyAccount name fun account =>
        pure { account with proxy := proxy }) := by
  refine touches_modifyAccount_pure db name [.proxy] ?_
  intro account aspect outside
  cases aspect <;> simp [AccountAspect.read] at outside ⊢

theorem touches_clearWitnessVotes
    (db : Database)
    (name : AccountName) :
    Touches [.witnessVotes, .account .votedFor] db
      (db.clearWitnessVotes name) := by
  refine .read fun account _ => ?_
  exact .after ((touches_countVotes _ name fun _ => 0).mono (by decide))
    ((agrees_witnessVotes db _).mono (by decide))

/-! ## Vesting and emission -/

/-- What new shares of an account touch. -/
def vestingFields : List Field :=
  [.account .shares, .props .vestingFund, .props .vestingShares,
    .account .proxied, .witness .votes, .witness .race]

/-- What shares to be claimed touch. -/
def rewardFields : List Field :=
  [.account .rewardShares, .account .rewardBacking, .props .pendingShares,
    .props .pendingBacking]

theorem agrees_createVesting_shares
    {db after : Database}
    {name : AccountName}
    {amount shares : Int}
    (done : db.createVesting name amount false = .ok (after, shares)) :
    Agrees vestingFields db after := by
  simp only [createVesting, Bool.false_eq_true, if_false, bind_eq_ok_iff,
    pure_eq_ok_iff] at done
  rcases done with
    ⟨_, -, _, -, _, -, changed, change, _, -, _, -, voted, vote, equal⟩
  cases equal
  have account : Agrees vestingFields db changed := by
    refine ((touches_modifyAccount db name [.shares] ?_) changed change).mono
      (by decide)
    intro account changed equal aspect outside
    simp only [bind_eq_ok_iff, pure_eq_ok_iff] at equal
    rcases equal with ⟨_, -, rfl⟩
    cases aspect <;> simp [AccountAspect.read] at outside ⊢
  have tally := (touches_adjustProxiedVotesFrom _ _ _ _ _ vote).mono
    (by decide : tallyFields ⊆ vestingFields)
  refine trans_of _ account (trans_of _ ?_ tally)
  refine (agrees_props changed [.vestingFund, .vestingShares] ?_).mono
    (by decide)
  intro aspect outside
  cases aspect <;> simp [PropsAspect.read] at outside ⊢

theorem agrees_createVesting_reward
    {db after : Database}
    {name : AccountName}
    {amount shares : Int}
    (done : db.createVesting name amount true = .ok (after, shares)) :
    Agrees rewardFields db after := by
  simp only [createVesting, if_true, bind_eq_ok_iff, pure_eq_ok_iff] at done
  rcases done with ⟨_, -, _, -, _, -, changed, change, _, -, _, -, equal⟩
  cases equal
  have account : Agrees rewardFields db changed := by
    refine ((touches_modifyAccount db name [.rewardShares, .rewardBacking] ?_)
      changed change).mono (by decide)
    intro account changed equal aspect outside
    simp only [bind_eq_ok_iff, pure_eq_ok_iff] at equal
    rcases equal with ⟨_, -, _, -, rfl⟩
    cases aspect <;> simp [AccountAspect.read] at outside ⊢
  refine trans_of _ account ?_
  refine (agrees_props changed [.pendingShares, .pendingBacking] ?_).mono
    (by decide)
  intro aspect outside
  cases aspect <;> simp [PropsAspect.read] at outside ⊢

/-- What an emission touches. -/
def emissionFields : List Field :=
  [.rewardFunds, .account .balance, .virtualOperations, .props .supply,
    .props .virtualSupply, .props .emission]

theorem agrees_payRewardFunds
    {db after : Database}
    {reward used : Int}
    (done : db.payRewardFunds reward = .ok (after, used)) :
    Agrees [.rewardFunds] db after := by
  refine foldlM_invariant
    (fun paid : Database × Int => Agrees [.rewardFunds] db paid.1) ?_ done
    (refl_of _ db)
  rintro ⟨state, paid⟩ entry next - stepped before
  simp only [payRewardFund, bind_eq_ok_iff, pure_eq_ok_iff] at stepped
  rcases stepped with ⟨_, -, _, -, changed, change, _, -, _, -, rfl⟩
  exact trans_of _ before (touches_modifyRewardFund state _ _ changed change)

theorem touches_processFundsBmchain
    (db : Database)
    (newBmt : Int) :
    Touches emissionFields db (db.processFundsBmchain newBmt) := by
  unfold processFundsBmchain
  split
  · exact .unchanged
  · refine .read ?_
    rintro ⟨funded, used⟩ paid
    have funds := (agrees_payRewardFunds paid).mono
      (by decide : _ ⊆ emissionFields)
    refine .after ?_ funds
    refine .read fun reward _ => .read fun witness _ => ?_
    refine .bind ((touches_addBalance funded _ _).mono (by decide)) ?_
    intro credited
    have pushed := agrees_virtualOperations credited
      (.producerReward witness.owner (bmt reward))
    refine .after ?_ (pushed.mono (by decide : _ ⊆ emissionFields))
    refine .read fun _ _ => .read fun _ _ => .read fun _ _ => ?_
    refine .read fun _ _ => .ok ?_
    refine (agrees_props _ [.supply, .virtualSupply, .emission] ?_).mono
      (by decide)
    intro aspect outside
    cases aspect <;> simp [PropsAspect.read] at outside ⊢

theorem touches_payFee
    (db : Database)
    (fee : Int) :
    Touches [.rewardFunds] db (db.payFee fee) := by
  unfold payFee
  split
  · exact .foldlM _ fun state _ => touches_modifyRewardFund state _ _
  · exact .unchanged

end Database

end BMChain.State

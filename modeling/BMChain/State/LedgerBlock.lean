import BMChain.State.FootprintBlock
import BMChain.State.LedgerOperation

/-!
# The entries of the block steps

What each step of a block does to the ledger.  Most steps keep it.  The others
move BMT between holders, or change the supply together with a holder.
-/

namespace BMChain.State

open BMChain.Foundation BMChain.Protocol Std

variable {before : Ledger} {total sum : Int} {id : Nat} {db after : Database}
    {name : AccountName} {account : AccountObject} {ext : External}
    {comment : CommentObject} {funds : List RewardFundContext}

variable {weight amount maxRewards authorTokens : Int} {rounds : Nat}

namespace Database

open KeepsLedger

/-! ## Steps which keep the ledger -/

/-- Global properties changed outside the totals leave the ledger as it is. -/
theorem ledger_set_props
    (db : Database)
    {props : DynamicGlobalProperties}
    (same : props.totals = db.props.totals) :
    { db with props := props }.ledger = db.ledger := by
  simp only [ledger, same]

theorem keeps_beginBlock
    (db : Database)
    (header : BlockHeader) :
    KeepsLedger db (db.beginBlock header) :=
  .of_touches (touches_beginBlock db header) rfl

theorem keeps_updateGlobalDynamicData
    (db : Database)
    (header : BlockHeader) :
    KeepsLedger db (db.updateGlobalDynamicData header) :=
  .of_touches (touches_updateGlobalDynamicData db header) rfl

theorem keeps_updateLastIrreversibleBlock
    (db : Database) :
    KeepsLedger db db.updateLastIrreversibleBlock :=
  .of_touches (touches_updateLastIrreversibleBlock db) rfl

theorem keeps_clearExpiredTransactions
    (db : Database) :
    KeepsLedger db db.clearExpiredTransactions :=
  .of_touches (touches_clearExpiredTransactions db) rfl

theorem keeps_clearExpiredDelegations
    (db : Database) :
    KeepsLedger db db.clearExpiredDelegations :=
  .of_touches (touches_clearExpiredDelegations db) rfl

theorem keeps_updateWitnessSchedule
    (db : Database) :
    KeepsLedger db db.updateWitnessSchedule :=
  .of_touches (touches_updateWitnessSchedule db) rfl

theorem keeps_customTokensEmissions
    (db : Database) :
    KeepsLedger db db.customTokensEmissions :=
  .of_touches (touches_customTokensEmissions db) rfl

theorem keeps_accountRecoveryProcessing
    (db : Database) :
    KeepsLedger db db.accountRecoveryProcessing :=
  .of_touches (touches_accountRecoveryProcessing db) rfl

theorem keeps_processDeclineVotingRights
    (db : Database) :
    KeepsLedger db db.processDeclineVotingRights :=
  .of_touches (touches_processDeclineVotingRights db) rfl

end Database

/-! ## Steps which move BMT -/

/-- A journal which moves the gap by the given weight and no total alone. -/
def Moves (before after : Ledger) (weight : Int) : Prop :=
  ∃ entries,
    Posts before entries after ∧ netWeight entries = weight ∧ Vested entries

namespace Moves

theorem refl
    (ledger : Ledger) :
    Moves ledger ledger 0 :=
  ⟨[], .nil ledger, rfl, fun _ _ => rfl⟩

theorem of_eq
    {before after : Ledger}
    (same : after = before) :
    Moves before after 0 := by
  rw [same]
  exact refl before

theorem of_posts
    {before after : Ledger}
    {entries : List Entry}
    (posted : Posts before entries after)
    (vested : Vested entries) :
    Moves before after (netWeight entries) :=
  ⟨entries, posted, rfl, vested⟩

theorem trans
    {before middle after : Ledger}
    {first second : Int}
    (start : Moves before middle first)
    (rest : Moves middle after second) :
    Moves before after (first + second) := by
  rcases start with ⟨starting, started, rfl, vested⟩
  rcases rest with ⟨ending, ended, rfl, follows⟩
  refine ⟨starting ++ ending, started.append ended, netWeight_append _ _, ?_⟩
  intro total counted
  rw [netDrift_append, vested total counted, follows total counted]
  rfl

theorem gap_eq
    {before after : Ledger}
    (moves : Moves before after weight) :
    after.gap = before.gap + weight := by
  rcases moves with ⟨entries, posted, rfl, -⟩
  exact posted.gap_eq

theorem surplus_eq
    {before after : Ledger}
    (moves : Moves before after weight)
    {total : Total}
    (counted : total.counted ≠ none) :
    after.surplus total = before.surplus total := by
  rcases moves with ⟨entries, posted, -, vested⟩
  rw [posted.surplus_eq, vested total counted, add_zero]

end Moves

namespace Database

/-- A loop of balanced rounds is balanced. -/
theorem moves_drain
    {Item : Type}
    {endless : Fault}
    {next : Database → Option Item}
    {act : Item → Database → Except Fault Database}
    (balanced : ∀ item db after,
      next db = some item → act item db = .ok after →
        Moves db.ledger after.ledger 0)
    (ran : drain endless next act rounds db = .ok after) :
    Moves db.ledger after.ledger 0 := by
  refine drain_invariant (fun state => Moves db.ledger state.ledger 0) ?_ ran
    (.refl _)
  intro item state after offered acted before
  simpa using before.trans (balanced item state after offered acted)

theorem moves_cancelOrder
    {order : LimitOrderObject}
    (found : db.limitOrders.find? id = some order)
    (done : db.cancelOrder id order = .ok after) :
    Moves db.ledger after.ledger 0 := by
  rcases posts_cancelOrder found done with ⟨symbol, posted⟩
  refine ⟨_, posted, ?_, by simp⟩
  simp [Entry.weight, LimitOrderObject.inBmt, LimitOrderObject.amountForSale,
    Asset.inBmt, symbol]

theorem moves_clearExpiredOrders
    (done : db.clearExpiredOrders = .ok after) :
    Moves db.ledger after.ledger 0 := by
  refine moves_drain ?_ done
  intro entry state after offered canceled
  exact moves_cancelOrder (find?_of_firstDue offered) canceled

theorem moves_returnEscrow
    {sender : AccountName}
    {escrow : EscrowObject}
    (found : db.escrows.find? id = some escrow)
    (done : db.returnEscrow sender id escrow = .ok after) :
    Moves db.ledger after.ledger 0 := by
  rcases posts_returnEscrow found done with ⟨symbol, posted⟩
  refine ⟨_, posted, ?_, by simp⟩
  simp [Entry.weight, EscrowHolding.inBmt, EscrowObject.holding, Asset.inBmt,
    symbol]

theorem moves_expireEscrowRatification
    (done : db.expireEscrowRatification = .ok after) :
    Moves db.ledger after.ledger 0 := by
  refine moves_drain ?_ done
  intro entry state after offered returned
  rw [firstUnratified, Option.filter_eq_some_iff] at offered
  have member := (List.mem_filter.1 (mem_of_firstBy offered.1)).1
  exact moves_returnEscrow
    (ExtTreeMap.mem_toList_iff_getElem?_eq_some.1 member) returned

theorem moves_processHardforks
    (done : db.processHardforks = .ok after) :
    Moves db.ledger after.ledger 0 := by
  simp only [processHardforks, bind_eq_ok_iff] at done
  rcases done with ⟨_, -, done⟩
  split at done
  case isFalse =>
    cases done
    exact .refl _
  case isTrue =>
    simp only [burnInitRep, bind_eq_ok_iff, checked_eq_ok_iff,
      pure_eq_ok_iff] at done
    rcases done with
      ⟨burned, burn, _, ⟨-, rfl⟩, _, ⟨-, rfl⟩, _, ⟨-, rfl⟩, rfl⟩
    have shares : Posts db.ledger
        (purseEntries initMinerName [(.shares, -initSupplyRep)])
        burned.ledger := by
      refine posts_modifyAccount burn _ ?_
      intro account changed equal
      simp only [bind_eq_ok_iff, checked_eq_ok_iff, pure_eq_ok_iff] at equal
      rcases equal with ⟨_, ⟨-, rfl⟩, rfl⟩
      funext kind
      cases kind <;> rfl
    have totals := posts_props burned
      { burned.props with
        currentSupply := burned.props.currentSupply - initSupplyRep / 1000
        totalVestingShares := burned.props.totalVestingShares - initSupplyRep
        totalVestingFundBmt :=
          burned.props.totalVestingFundBmt - initSupplyRep / 1000 }
      [(.supply, -(initSupplyRep / 1000)), (.vestingShares, -initSupplyRep),
        (.vestingFund, -(initSupplyRep / 1000))]
      (by funext kind; cases kind <;> rfl)
    refine ⟨_, shares.append totals, by decide, ?_⟩
    simp [purseEntries, totalEntries]

/-! ### Withdrawals and rewards for savings -/

/-- A counted withdrawal takes the deposit out of the savings. -/
theorem purse_countWithdrawal
    {deposit : Int}
    {account changed : AccountObject}
    (counted : countWithdrawal deposit account = .ok changed) :
    changed.purse = creditPurse account.purse [(.savings, -deposit)] := by
  simp only [countWithdrawal, bind_eq_ok_iff, checked_eq_ok_iff] at counted
  rcases counted with ⟨_, ⟨-, rfl⟩, _, ⟨-, rfl⟩, counted⟩
  have less :
      ({ account with
        savingsBalance := account.savingsBalance - deposit } :
          AccountObject).purse =
        creditPurse account.purse [(.savings, -deposit)] := by
    funext kind
    cases kind <;> rfl
  rw [← less]
  split at counted
  · cases counted
    exact AccountObject.purse_congr rfl rfl rfl rfl rfl rfl
  · cases counted
    exact AccountObject.purse_congr rfl rfl rfl rfl rfl rfl

theorem moves_payRoute
    {route : Nat × WithdrawRouteObject}
    (done : payRoute name amount db route = .ok after) :
    Moves db.ledger after.ledger 0 := by
  unfold payRoute at done
  split at done
  case isTrue =>
    cases done
    exact .refl _
  case isFalse =>
    simp only [bind_eq_ok_iff] at done
    rcases done with ⟨⟨target, account⟩, -, done⟩
    generalize routeDeposit amount route.2.percent = deposit at done
    split at done
    case isFalse =>
      cases done
      exact .refl _
    case isTrue =>
      rw [bind_eq_ok_iff] at done
      rcases done with ⟨paid, pay, counted⟩
      have second : Posts paid.ledger
          (purseEntries name [(.savings, -deposit)]) after.ledger := by
        exact posts_modifyAccount counted _ fun _ _ => purse_countWithdrawal
      refine ⟨_, (posts_addBalance pay).append second, ?_, ?_⟩
      · simp [purseEntries, Entry.weight]
      · simp [purseEntries]

theorem moves_withdrawAlong
    {start : Option AccountObject}
    (done : withdrawAlong rounds start db = .ok after) :
    Moves db.ledger after.ledger 0 := by
  induction rounds generalizing start db with
  | zero =>
      cases start with
      | none =>
          cases done
          exact .refl _
      | some account => cases done
  | succ rounds induction =>
      cases start with
      | none =>
          cases done
          exact .refl _
      | some account =>
          unfold withdrawAlong at done
          split at done
          case isFalse =>
            cases done
            exact .refl _
          case isTrue =>
            simp only [withdrawFrom, bind_eq_ok_iff] at done
            rcases done with ⟨middle, ⟨amount, -, paid⟩, rest⟩
            have first : Moves db.ledger middle.ledger 0 := by
              refine foldlM_invariant
                (fun state => Moves db.ledger state.ledger 0) ?_ paid (.refl _)
              intro state route next _ stepped before
              simpa using before.trans (moves_payRoute stepped)
            simpa using first.trans (induction rest)

theorem moves_processSavingsReward
    (done : db.processSavingsReward ext = .ok after) :
    Moves db.ledger after.ledger 0 := by
  unfold processSavingsReward at done
  dsimp only at done
  split at done
  case isTrue =>
    cases done
    exact .refl _
  case isFalse =>
    rw [bind_eq_ok_iff] at done
    rcases done with ⟨total, -, done⟩
    split at done
    case isTrue =>
      cases done
      exact .refl _
    case isFalse =>
      simp only [bind_eq_ok_iff, checked_eq_ok_iff, pure_eq_ok_iff] at done
      rcases done with
        ⟨⟨paid, rewards⟩, ran, _, ⟨-, rfl⟩, _, ⟨-, rfl⟩, rfl⟩
      have savings : Moves db.ledger paid.ledger (-rewards) := by
        refine foldlM_invariant
          (fun state : Database × Int =>
            Moves db.ledger state.1.ledger (-state.2)) ?_ ran (.refl _)
        rintro ⟨state, sum⟩ entry next - stepped before
        unfold paySavingReward at stepped
        split at stepped
        case isFalse =>
          cases stepped
          exact before
        case isTrue =>
          simp only [bind_eq_ok_iff, checked_eq_ok_iff, pure_eq_ok_iff]
            at stepped
          rcases stepped with ⟨credited, credit, _, ⟨-, rfl⟩, rfl⟩
          have moved := Moves.of_posts (posts_adjustSavingsBalance credit).2
            (by simp)
          have both := before.trans moved
          simpa [Entry.weight, bmt, neg_add_rev, add_comm] using both
      have supply := posts_props paid
        { paid.props with
          currentSupply := paid.props.currentSupply + rewards
          virtualSupply := paid.props.virtualSupply + rewards
          lastCurrentSupply := paid.props.currentSupply + rewards }
        [(.supply, rewards)] (by funext kind; cases kind <;> rfl)
      have both := savings.trans (.of_posts supply (by simp [totalEntries]))
      simpa [totalEntries, Entry.weight] using both

/-! ### The null account -/

/-- An account which is there, changed by added amounts. -/
theorem posts_modifyAccount_found
    {change : AccountObject → Except Fault AccountObject}
    (found : db.accounts.find? name = some account)
    (done : db.modifyAccount name change = .ok after) :
    ∃ changed,
      change account = .ok changed ∧
        after.accounts.find? name = some changed ∧
          after.props = db.props ∧
            ∀ credits,
              changed.purse = creditPurse account.purse credits →
                Posts db.ledger (purseEntries name credits) after.ledger := by
  rw [modifyAccount_eq_ok_iff] at done
  rcases done with ⟨same, changed, again, change, rfl⟩
  cases found.symm.trans again
  refine ⟨changed, change, ?_, rfl, ?_⟩
  · change (db.accounts.set name changed).rows[name]? = some changed
    rw [Register.set_rows found, getElem?_place, if_pos rfl]
  · intro credits equal
    rw [ledger_set_account found, equal]
    exact .purse (ledger_purse_of_find? found) credits

/-- The BMT behind shares at the current price. -/
def shareValue (db : Database) (shares : Int) : Int :=
  if 0 < shares then
    match (vests shares).mul db.props.vestingSharePrice with
    | .ok value => value.amount
    | .error _ => 0
  else 0

/-- What the sweep of the null account takes out of the supply. -/
def nullValue (db : Database) : Int :=
  match db.accounts.find? nullAccount with
  | none => 0
  | some account =>
      max account.balance 0 + max account.savingsBalance 0 +
        db.shareValue account.vestingShares +
          max account.rewardBmtBalance 0 +
            if 0 < account.rewardVestingBalance then account.rewardVestingBmt
            else 0

section NullAccount

variable (found : db.accounts.find? nullAccount = some account)

include found

theorem moves_burnBalance
    (done : db.burnBalance total = .ok (after, sum)) :
    sum = total + max account.balance 0 ∧ after.props = db.props ∧
      (∃ balance, after.accounts.find? nullAccount =
        some { account with balance := balance }) ∧
        Moves db.ledger after.ledger (max account.balance 0) := by
  simp only [burnBalance, getAccount, found, bind_eq_ok_iff,
    orFault_eq_ok_iff] at done
  rcases done with ⟨_, equal, done⟩
  cases equal
  split at done
  case isFalse none =>
    cases done
    rw [max_eq_right (by omega)]
    exact ⟨by omega, rfl, ⟨account.balance, found⟩, .refl _⟩
  case isTrue some =>
    simp only [bind_eq_ok_iff, checked_eq_ok_iff, pure_eq_ok_iff] at done
    rcases done with ⟨_, ⟨-, rfl⟩, paid, pay, equal⟩
    cases equal
    rw [max_eq_left (by omega)]
    rcases posts_modifyAccount_found found pay with
      ⟨changed, change, now, props, -⟩
    simp only [bind_eq_ok_iff, checked_eq_ok_iff, pure_eq_ok_iff] at change
    rcases change with ⟨_, -, _, ⟨-, rfl⟩, rfl⟩
    refine ⟨rfl, props, ⟨_, now⟩, _, (posts_adjustBalance pay).2, ?_, ?_⟩
    · simp [Entry.weight, bmt]
    · simp

theorem moves_burnSavings
    (done : db.burnSavings total = .ok (after, sum)) :
    sum = total + max account.savingsBalance 0 ∧ after.props = db.props ∧
      (∃ savings, after.accounts.find? nullAccount =
        some { account with savingsBalance := savings }) ∧
        Moves db.ledger after.ledger (max account.savingsBalance 0) := by
  simp only [burnSavings, getAccount, found, bind_eq_ok_iff,
    orFault_eq_ok_iff] at done
  rcases done with ⟨_, equal, done⟩
  cases equal
  split at done
  case isFalse none =>
    cases done
    rw [max_eq_right (by omega)]
    exact ⟨by omega, rfl, ⟨account.savingsBalance, found⟩, .refl _⟩
  case isTrue some =>
    simp only [bind_eq_ok_iff, checked_eq_ok_iff, pure_eq_ok_iff] at done
    rcases done with ⟨_, ⟨-, rfl⟩, paid, pay, equal⟩
    cases equal
    rw [max_eq_left (by omega)]
    rcases posts_modifyAccount_found found pay with
      ⟨changed, change, now, props, -⟩
    simp only [bind_eq_ok_iff, checked_eq_ok_iff, pure_eq_ok_iff] at change
    rcases change with ⟨_, -, _, ⟨-, rfl⟩, rfl⟩
    refine ⟨rfl, props, ⟨_, now⟩, _, (posts_adjustSavingsBalance pay).2, ?_,
      ?_⟩
    · simp [Entry.weight, bmt]
    · simp

theorem moves_burnReward
    (done : db.burnReward total = .ok (after, sum)) :
    sum = total + max account.rewardBmtBalance 0 ∧ after.props = db.props ∧
      (∃ reward, after.accounts.find? nullAccount =
        some { account with rewardBmtBalance := reward }) ∧
        Moves db.ledger after.ledger (max account.rewardBmtBalance 0) := by
  simp only [burnReward, getAccount, found, bind_eq_ok_iff,
    orFault_eq_ok_iff] at done
  rcases done with ⟨_, equal, done⟩
  cases equal
  split at done
  case isFalse none =>
    cases done
    rw [max_eq_right (by omega)]
    exact ⟨by omega, rfl, ⟨account.rewardBmtBalance, found⟩, .refl _⟩
  case isTrue some =>
    simp only [bind_eq_ok_iff, checked_eq_ok_iff, pure_eq_ok_iff] at done
    rcases done with ⟨_, ⟨-, rfl⟩, paid, pay, equal⟩
    cases equal
    rw [max_eq_left (by omega)]
    rcases posts_modifyAccount_found found pay with
      ⟨changed, change, now, props, -⟩
    simp only [bind_eq_ok_iff, checked_eq_ok_iff, pure_eq_ok_iff] at change
    rcases change with ⟨_, -, _, ⟨-, rfl⟩, rfl⟩
    refine ⟨rfl, props, ⟨_, now⟩, _, posts_adjustRewardBalance pay, ?_, ?_⟩
    · simp [Entry.weight, bmt]
    · simp

theorem moves_burnVesting
    (done : db.burnVesting total = .ok (after, sum)) :
    sum = total + db.shareValue account.vestingShares ∧
      (∃ shares, after.accounts.find? nullAccount =
        some { account with vestingShares := shares }) ∧
        Moves db.ledger after.ledger
          (db.shareValue account.vestingShares) := by
  simp only [burnVesting, getAccount, found, bind_eq_ok_iff,
    orFault_eq_ok_iff] at done
  rcases done with ⟨_, equal, done⟩
  cases equal
  split at done
  case isFalse none =>
    cases done
    rw [shareValue, if_neg none]
    exact ⟨by omega, ⟨account.vestingShares, found⟩, .refl _⟩
  case isTrue some =>
    simp only [bind_eq_ok_iff, checked_eq_ok_iff, Asset.inSymbol_eq_ok_iff,
      pure_eq_ok_iff] at done
    rcases done with
      ⟨value, converted, _, ⟨-, rfl⟩, _, ⟨-, rfl⟩, _, ⟨-, rfl⟩, swept, sweep,
        _, ⟨-, rfl⟩, equal⟩
    cases equal
    have worth : db.shareValue account.vestingShares = value.amount := by
      rw [shareValue, if_pos some, converted]
    rw [worth]
    let props : DynamicGlobalProperties := { db.props with
      totalVestingShares :=
        db.props.totalVestingShares - account.vestingShares
      totalVestingFundBmt := db.props.totalVestingFundBmt - value.amount }
    have totals : Posts db.ledger
        (totalEntries
          [(.vestingShares, -account.vestingShares),
            (.vestingFund, -value.amount)])
        { db with props := props }.ledger :=
      posts_props db props _ (by funext kind; cases kind <;> rfl)
    have there : ({ db with props := props } : Database).accounts.find?
        nullAccount = Option.some account :=
      found
    rcases posts_modifyAccount_found there sweep with
      ⟨changed, change, now, -, posted⟩
    cases change
    have shares := posted [(.shares, -account.vestingShares)] (by
      funext kind
      cases kind <;> simp [AccountObject.purse, creditPurse, Function.update])
    refine ⟨rfl, ⟨0, now⟩, _, totals.append shares, ?_, ?_⟩
    · simp [totalEntries, purseEntries, Entry.weight]
    · simp [totalEntries, purseEntries]

theorem moves_burnRewardVesting
    (done : db.burnRewardVesting total = .ok (after, sum)) :
    sum = total + (if 0 < account.rewardVestingBalance then
        account.rewardVestingBmt else 0) ∧
      Moves db.ledger after.ledger
        (if 0 < account.rewardVestingBalance then account.rewardVestingBmt
          else 0) := by
  simp only [burnRewardVesting, getAccount, found, bind_eq_ok_iff,
    orFault_eq_ok_iff] at done
  rcases done with ⟨_, equal, done⟩
  cases equal
  split at done
  case isFalse none =>
    cases done
    rw [if_neg none]
    exact ⟨by omega, .refl _⟩
  case isTrue some =>
    simp only [bind_eq_ok_iff, checked_eq_ok_iff, pure_eq_ok_iff] at done
    rcases done with
      ⟨_, ⟨-, rfl⟩, _, ⟨-, rfl⟩, _, ⟨-, rfl⟩, swept, sweep, equal⟩
    cases equal
    rw [if_pos some]
    let props : DynamicGlobalProperties := { db.props with
      pendingRewardedVestingShares :=
        db.props.pendingRewardedVestingShares - account.rewardVestingBalance
      pendingRewardedVestingBmt :=
        db.props.pendingRewardedVestingBmt - account.rewardVestingBmt }
    have totals : Posts db.ledger
        (totalEntries
          [(.pendingShares, -account.rewardVestingBalance),
            (.pendingBacking, -account.rewardVestingBmt)])
        { db with props := props }.ledger :=
      posts_props db props _ (by funext kind; cases kind <;> rfl)
    have there : ({ db with props := props } : Database).accounts.find?
        nullAccount = Option.some account :=
      found
    rcases posts_modifyAccount_found there sweep with
      ⟨changed, change, now, -, posted⟩
    cases change
    have shares := posted
      [(.rewardShares, -account.rewardVestingBalance),
        (.rewardBacking, -account.rewardVestingBmt)] (by
      funext kind
      cases kind <;> simp [AccountObject.purse, creditPurse, Function.update])
    refine ⟨rfl, _, totals.append shares, ?_, ?_⟩
    · simp [totalEntries, purseEntries, Entry.weight]
    · simp [totalEntries, purseEntries]

end NullAccount

/-- The end of the sweep, which lowers the supply by a positive value. -/
theorem moves_lowerSupply
    {value : Int}
    (all : Moves before db.ledger value)
    (done : (if 0 < value then db.adjustSupply (-value) else pure db) =
      .ok after) :
    Moves before after.ledger (min value 0) := by
  split at done
  case isTrue positive =>
    rw [min_eq_right (by omega)]
    simp only [adjustSupply, bind_eq_ok_iff, checked_eq_ok_iff,
      pure_eq_ok_iff] at done
    rcases done with ⟨_, ⟨-, rfl⟩, _, ⟨-, rfl⟩, rfl⟩
    have supply := posts_props db
      { db.props with
        currentSupply := db.props.currentSupply + -value
        virtualSupply := db.props.virtualSupply + -value }
      [(.supply, -value)] (by funext kind; cases kind <;> rfl)
    have both := all.trans (.of_posts supply (by simp [totalEntries]))
    simpa [totalEntries, Entry.weight] using both
  case isFalse none =>
    cases done
    rw [min_eq_left (by omega)]
    exact all

/-- The sweep lowers the supply by what it takes when that is positive. -/
theorem moves_clearNullAccountBalance
    (done : db.clearNullAccountBalance = .ok after) :
    Moves db.ledger after.ledger (min db.nullValue 0) := by
  simp only [clearNullAccountBalance, bind_eq_ok_iff] at done
  rcases done with
    ⟨⟨first, balance⟩, burnedBalance, ⟨second, savings⟩, burnedSavings,
      ⟨third, vesting⟩, burnedVesting, ⟨fourth, reward⟩, burnedReward,
      ⟨fifth, sum⟩, burnedRewardVesting, done⟩
  have there : ∃ account, db.accounts.find? nullAccount = some account := by
    simp only [burnBalance, getAccount, bind_eq_ok_iff, orFault_eq_ok_iff]
      at burnedBalance
    rcases burnedBalance with ⟨account, found, -⟩
    exact ⟨account, found⟩
  rcases there with ⟨account, found⟩
  rcases moves_burnBalance found burnedBalance with
    ⟨sum₁, props₁, ⟨_, found₁⟩, moves₁⟩
  rcases moves_burnSavings found₁ burnedSavings with
    ⟨sum₂, props₂, ⟨_, found₂⟩, moves₂⟩
  rcases moves_burnVesting found₂ burnedVesting with
    ⟨sum₃, ⟨_, found₃⟩, moves₃⟩
  rcases moves_burnReward found₃ burnedReward with
    ⟨sum₄, props₄, ⟨_, found₄⟩, moves₄⟩
  rcases moves_burnRewardVesting found₄ burnedRewardVesting with
    ⟨sum₅, moves₅⟩
  dsimp only at sum₂ sum₃ sum₄ sum₅ moves₂ moves₃ moves₄ moves₅
  have price : second.shareValue account.vestingShares =
      db.shareValue account.vestingShares := by
    simp only [shareValue, props₂, props₁]
  have value : db.nullValue =
      max account.balance 0 + max account.savingsBalance 0 +
        second.shareValue account.vestingShares +
          max account.rewardBmtBalance 0 +
            if 0 < account.rewardVestingBalance then account.rewardVestingBmt
            else 0 := by
    simp only [nullValue, found, price]
  have all := (((moves₁.trans moves₂).trans moves₃).trans moves₄).trans moves₅
  rw [← value] at all
  have total : sum = db.nullValue := by
    rw [value]
    omega
  rw [total] at done
  exact moves_lowerSupply all done

/-! ### Payouts -/

theorem moves_createVesting
    {amount shares : Int}
    {toRewardBalance : Bool}
    (done : db.createVesting name amount toRewardBalance =
      .ok (after, shares)) :
    Moves db.ledger after.ledger (-amount) := by
  cases toRewardBalance with
  | true =>
      refine ⟨_, posts_createVesting_reward done, ?_, ?_⟩
      · simp [Entry.weight]
      · simp
  | false =>
      refine ⟨_, posts_createVesting_shares done, ?_, ?_⟩
      · simp [Entry.weight]
      · simp

/-- What a curator receives is no longer unclaimed. -/
theorem moves_payCurator
    {paid after : Database × Int}
    {vote : Nat × CommentVoteObject}
    (done : payCurator comment maxRewards paid vote = .ok after) :
    Moves paid.1.ledger after.1.ledger (after.2 - paid.2) := by
  simp only [payCurator] at done
  generalize curatorClaim maxRewards vote.2.weight comment.totalVoteWeight =
    claim at done
  split at done
  case isTrue =>
    cases done
    rw [Int.sub_self]
    exact .refl _
  case isFalse =>
    simp only [bind_eq_ok_iff, checked_eq_ok_iff, pure_eq_ok_iff] at done
    rcases done with
      ⟨_, ⟨-, rfl⟩, ⟨name, _⟩, -, ⟨vested, reward⟩, vest, counted, count, rfl⟩
    have kept : counted.ledger = vested.ledger := by
      refine (ledger_modifyAccount count ?_).trans rfl
      intro account changed equal
      simp only [bind_eq_ok_iff, pure_eq_ok_iff] at equal
      rcases equal with ⟨_, -, rfl⟩
      rfl
    have moves := moves_createVesting vest
    dsimp only at moves kept ⊢
    rw [kept]
    rwa [show paid.2 - claim - paid.2 = -claim by omega]

theorem moves_payCurators
    {maxRewards claimed unclaimed : Int}
    (done : db.payCurators id comment maxRewards =
      .ok (after, claimed, unclaimed)) :
    Moves db.ledger after.ledger (-claimed) := by
  unfold payCurators at done
  split at done
  case isTrue =>
    cases done
    exact .refl _
  case isFalse =>
    simp only [bind_eq_ok_iff, checked_eq_ok_iff, pure_eq_ok_iff] at done
    rcases done with ⟨⟨paid, left⟩, paying, _, ⟨-, rfl⟩, equal⟩
    cases equal
    have moves : Moves db.ledger paid.ledger (left - maxRewards) := by
      split at paying
      case isFalse =>
        cases paying
        rw [Int.sub_self]
        exact .refl _
      case isTrue =>
        refine foldlM_invariant
          (fun state : Database × Int =>
            Moves db.ledger state.1.ledger (state.2 - maxRewards)) ?_ paying
          (by rw [Int.sub_self]; exact .refl _)
        intro state vote next _ stepped before
        have both := before.trans (moves_payCurator stepped)
        rwa [show state.2 - maxRewards + (next.2 - state.2) =
          next.2 - maxRewards by omega] at both
    rwa [show -(maxRewards - left) = left - maxRewards by omega]

theorem moves_payBeneficiaries
    {routes : List BeneficiaryRoute}
    (done : routes.foldlM (payBeneficiary comment authorTokens) (db, 0) =
      .ok (after, sum)) :
    Moves db.ledger after.ledger (-sum) := by
  refine foldlM_invariant
    (fun state : Database × Int => Moves db.ledger state.1.ledger (-state.2))
    ?_ done (.refl _)
  rintro ⟨state, paid⟩ route next - stepped before
  simp only [payBeneficiary, bind_eq_ok_iff, checked_eq_ok_iff,
    pure_eq_ok_iff] at stepped
  rcases stepped with
    ⟨_, -, tokens, -, _, -, ⟨vested, created⟩, vest, _, ⟨-, rfl⟩, rfl⟩
  have both := before.trans (moves_createVesting vest)
  dsimp only at both ⊢
  rwa [show -paid + -tokens = -(paid + tokens) by omega] at both

theorem moves_payAuthor
    {authorTokens curationTokens beneficiaryTokens claimed : Int}
    (done : db.payAuthor id comment authorTokens curationTokens
      beneficiaryTokens claimed = .ok after) :
    Moves db.ledger after.ledger (-authorTokens) := by
  simp only [payAuthor, bind_eq_ok_iff, checked_eq_ok_iff] at done
  rcases done with
    ⟨_, -, liquid, -, _, ⟨-, rfl⟩, _, -, ⟨vested, created⟩, vest, paid, pay, _,
      -, adjusted, adjust, written, write, counted⟩
  have kept : after.ledger = paid.ledger := by
    have count : after.ledger = written.ledger := by
      refine ledger_modifyAccount counted ?_
      intro account changed equal
      simp only [bind_eq_ok_iff, pure_eq_ok_iff] at equal
      rcases equal with ⟨_, -, rfl⟩
      rfl
    have wrote := keeps_modifyComment _ _ _ written write
    have adjusts := keeps_modifyComment _ _ _ adjusted adjust
    rw [count, wrote]
    exact adjusts
  have balance : Moves vested.ledger paid.ledger (-liquid) := by
    refine ⟨_, (posts_adjustBalance pay).2, ?_, ?_⟩
    · simp [Entry.weight, bmt]
    · simp
  have both := (moves_createVesting vest).trans balance
  rw [kept]
  rwa [show -(authorTokens - liquid) + -liquid = -authorTokens by omega]
    at both

/-- A reward leaves the fund for its curators, beneficiaries and author. -/
theorem moves_splitReward
    {reward claimed : Int}
    (done : db.splitReward id comment reward = .ok (after, claimed)) :
    Moves db.ledger after.ledger (-claimed) := by
  simp only [splitReward, bind_eq_ok_iff, checked_eq_ok_iff, pure_eq_ok_iff]
    at done
  rcases done with
    ⟨percent, -, forAuthor, -, ⟨curated, curation, unclaimed⟩, curate, _,
      ⟨-, rfl⟩, _, ⟨-, rfl⟩, ⟨shared, beneficiary⟩, share, _, ⟨-, rfl⟩, paid,
      pay, equal⟩
  cases equal
  have all := ((moves_payCurators curate).trans
    (moves_payBeneficiaries share)).trans (moves_payAuthor pay)
  dsimp only at all ⊢
  rwa [show -curation + -beneficiary +
    -(forAuthor + unclaimed - beneficiary) =
      -(forAuthor + unclaimed + curation) by omega] at all

theorem keeps_closeVotes
    (db : Database)
    (id : Nat) :
    KeepsLedger db (db.closeVotes id) := by
  refine .read fun comment => .foldlM _ fun state vote => ?_
  refine .read fun payoutTime => ?_
  split
  · exact .ok rfl
  · exact .ok rfl

theorem moves_cashoutCommentHelper
    {id recentClaims : Nat}
    {rewardBalance claimed : Int}
    (done : db.cashoutCommentHelper ext id recentClaims rewardBalance =
      .ok (after, claimed)) :
    Moves db.ledger after.ledger (-claimed) := by
  simp only [cashoutCommentHelper, bind_eq_ok_iff, pure_eq_ok_iff] at done
  rcases done with
    ⟨comment, -, ⟨paid, sum⟩, pay, restarted, restart, closed, close, equal⟩
  cases equal
  have finish : after.ledger = paid.ledger := by
    have closes := keeps_closeVotes _ _ after close
    have restarts := keeps_modifyComment _ _ _ restarted restart
    rw [closes]
    exact restarts
  rw [finish]
  split at pay
  case isFalse =>
    cases pay
    exact .refl _
  case isTrue =>
    simp only [payComment, bind_eq_ok_iff, pure_eq_ok_iff] at pay
    rcases pay with ⟨⟨_, fund⟩, -, reward, -, ⟨split, given⟩, give, equal⟩
    cases equal
    change Moves db.ledger split.ledger (-given)
    split at give
    · exact moves_splitReward give
    · cases give
      exact .refl _

/-- What the cached states of the funds have given away. -/
def awarded (funds : List RewardFundContext) : Int :=
  (funds.map RewardFundContext.bmtAwarded).sum

theorem awarded_set
    {place : Nat}
    {old : RewardFundContext}
    (found : funds[place]? = some old)
    (new : RewardFundContext) :
    awarded (funds.set place new) =
      awarded funds + (new.bmtAwarded - old.bmtAwarded) := by
  induction funds generalizing place with
  | nil => simp at found
  | cons fund rest induction =>
      cases place with
      | zero =>
          cases found
          simp [awarded]
          omega
      | succ place =>
          have tail := induction found
          simp only [awarded, List.set_cons_succ, List.map_cons,
            List.sum_cons] at tail ⊢
          omega

theorem awarded_addClaims
    {dues : List (Nat × CommentObject)}
    {funds final : List RewardFundContext}
    (added : dues.foldlM (db.addClaims ext) funds = .ok final) :
    awarded final = awarded funds := by
  refine foldlM_invariant (fun state => awarded state = awarded funds) ?_
    added rfl
  intro state due next _ stepped same
  unfold addClaims at stepped
  split at stepped
  case isFalse =>
    cases stepped
    exact same
  case isTrue =>
    simp only [changeContext, bind_eq_ok_iff, orFault_eq_ok_iff,
      pure_eq_ok_iff] at stepped
    rcases stepped with ⟨⟨id, fund⟩, -, claims, -, old, found, _, rfl, rfl⟩
    rw [awarded_set found, same]
    simp

theorem moves_cashoutDue
    {due : Nat}
    {round after : Database × List RewardFundContext}
    (done : cashoutDue ext due round = .ok after) :
    Moves round.1.ledger after.1.ledger
      (awarded round.2 - awarded after.2) := by
  simp only [cashoutDue, changeContext, bind_eq_ok_iff, orFault_eq_ok_iff,
    checked_eq_ok_iff, pure_eq_ok_iff] at done
  rcases done with
    ⟨⟨id, _⟩, -, context, -, ⟨paid, claimed⟩, pay, _,
      ⟨old, found, _, ⟨_, ⟨-, rfl⟩, rfl⟩, rfl⟩, rfl⟩
  have moves := moves_cashoutCommentHelper pay
  dsimp only at moves found ⊢
  rw [awarded_set found]
  dsimp only
  rwa [show awarded round.2 -
      (awarded round.2 + (old.bmtAwarded + claimed - old.bmtAwarded)) =
        -claimed by omega]

/-- The decay of the claims changes no balance of a fund. -/
theorem decayFunds_spec
    (done : db.decayFunds = .ok (after, funds)) :
    after.ledger = db.ledger ∧ awarded funds = 0 := by
  refine foldlM_invariant
    (fun state : Database × List RewardFundContext =>
      state.1.ledger = db.ledger ∧ awarded state.2 = 0)
    ?_ done ⟨rfl, rfl⟩
  rintro ⟨state, contexts⟩ ⟨id, fund⟩ next member stepped ⟨same, none⟩
  simp only [modifyRewardFund, modifyRow, bind_eq_ok_iff, orFault_eq_ok_iff,
    pure_eq_ok_iff] at stepped
  rcases stepped with ⟨_, ⟨_, ⟨row, found, _, rfl, rfl⟩, rfl⟩, rfl⟩
  -- The row is still the one of the start, as far as the ledger sees it.
  have start : db.rewardFunds.rows[id]? = some fund :=
    ExtTreeMap.mem_toList_iff_getElem?_eq_some.1 member
  have held : state.ledger.funds[id]? = some fund.rewardBalance := by
    rw [same]
    simp [ledger, ExtTreeMap.getElem?_map, start]
  refine ⟨?_, ?_⟩
  · rw [← same]
    have funds :
        (state.rewardFunds.set id (decayClaims db.headBlockTime fund)).rows.map
          (fun _ fund => fund.rewardBalance) = state.ledger.funds := by
      rw [Table.set_rows found, map_place]
      exact place_same held
    simp only [ledger] at funds ⊢
    rw [funds]
  · simpa [awarded] using none

/-- The cached awards are taken out of the funds. -/
theorem moves_writeFunds
    (done : db.writeFunds funds = .ok after) :
    Moves db.ledger after.ledger (awarded funds) := by
  have each : ∀ (items : List (RewardFundContext × Nat)) (db after : Database),
      items.foldlM
        (fun db entry => db.modifyRewardFund entry.2 fun fund => do
          let balance ← checked (fund.rewardBalance - entry.1.bmtAwarded)
          pure { fund with
            recentClaims := entry.1.recentClaims
            rewardBalance := balance })
        db = .ok after →
      Moves db.ledger after.ledger (awarded (items.map Prod.fst)) := by
    intro items
    induction items with
    | nil =>
        rintro db after ⟨⟩
        exact .refl _
    | cons entry rest induction =>
        intro db after ran
        rw [List.foldlM_cons, bind_eq_ok_iff] at ran
        rcases ran with ⟨middle, first, ran⟩
        have posted : Posts db.ledger
            [.fund entry.2 (-entry.1.bmtAwarded)] middle.ledger := by
          refine posts_modifyRewardFund first ?_
          intro fund changed equal
          simp only [bind_eq_ok_iff, checked_eq_ok_iff, pure_eq_ok_iff]
            at equal
          rcases equal with ⟨_, ⟨-, rfl⟩, rfl⟩
          rfl
        have both := (Moves.of_posts posted (by simp)).trans
          (induction middle after ran)
        simpa [Entry.weight, awarded] using both
  have moves := each funds.zipIdx db after done
  simpa using moves

theorem moves_processCommentCashout
    (done : db.processCommentCashout ext = .ok after) :
    Moves db.ledger after.ledger 0 := by
  unfold processCommentCashout at done
  split at done
  case isTrue =>
    cases done
    exact .refl _
  case isFalse =>
    simp only [bind_eq_ok_iff] at done
    rcases done with
      ⟨⟨decayed, cached⟩, decay, claimed, claims, ⟨paid, final⟩, paying,
        written⟩
    rcases decayFunds_spec decay with ⟨kept, none⟩
    have round : Moves decayed.ledger paid.ledger
        (awarded claimed - awarded final) := by
      refine drain_invariant
        (fun state : Database × List RewardFundContext =>
          Moves decayed.ledger state.1.ledger
            (awarded claimed - awarded state.2)) ?_ paying
        (by rw [Int.sub_self]; exact .refl _)
      intro due state next _ acted before
      have both := before.trans (moves_cashoutDue acted)
      rwa [show awarded claimed - awarded state.2 +
          (awarded state.2 - awarded next.2) =
            awarded claimed - awarded next.2 by omega] at both
    have both := round.trans (moves_writeFunds written)
    rw [awarded_addClaims claims, none, kept] at both
    rwa [show 0 - awarded final + awarded final = 0 by omega] at both

end Database

end BMChain.State

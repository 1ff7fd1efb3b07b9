import BMChain.Protocol.PriceConversion
import BMChain.State.Spending

/-!
# Claims of vesting rewards

The vesting rewards which an account has not claimed yet are a pool of shares
with the BMT behind them.  A claim draws some of the shares with their part of
the BMT, rounded down, so that the rest is never worth less for each share.
-/

namespace BMChain.State

open BMChain.Foundation BMChain.Protocol

variable {op : ClaimRewardBalanceOperation} {ext : External}
    {middle : Database}

/-- The vesting rewards of an account and the BMT behind them. -/
def AccountObject.rewardPool (account : AccountObject) : SharePool where
  fund := account.rewardVestingBmt
  shares := account.rewardVestingBalance

/-- The events of some claims. -/
def claimEvents (ops : List ClaimRewardBalanceOperation) : List Event :=
  ops.map fun op => .operation (.claimRewardBalance op)

namespace Database

variable {db after : Database}

/-! ## One claim -/

/-- The pool after a claim. -/
theorem draw_of_move
    {account : AccountObject}
    {claimed moved : Int}
    (shares : 0 ≤ account.rewardVestingBalance)
    (sharesFit : FitsInt64 account.rewardVestingBalance)
    (backing : 0 ≤ account.rewardVestingBmt)
    (backingFits : FitsInt64 account.rewardVestingBmt)
    (nonneg : 0 ≤ claimed)
    (within : claimed ≤ account.rewardVestingBalance)
    (done : rewardVestingBmtToMove account claimed = .ok moved) :
    account.rewardPool.draw claimed =
      ⟨account.rewardVestingBmt - moved,
        account.rewardVestingBalance - claimed⟩ := by
  unfold rewardVestingBmtToMove at done
  unfold SharePool.draw
  split at done
  case isTrue last =>
    cases done
    rw [if_pos (show claimed = account.rewardPool.shares from last), last,
      Int.sub_self, Int.sub_self]
  case isFalse part =>
    rw [if_neg (show ¬ claimed = account.rewardPool.shares from part)]
    have positive : 0 < account.rewardVestingBalance := by omega
    simp only [divideUint128, bind_eq_ok_iff, require_eq_ok_iff,
      pure_eq_ok_iff] at done
    rcases done with ⟨share, ⟨_, -, rfl⟩, rfl⟩
    have limit := sharesFit.2
    have word := convert_eq_portion nonneg ⟨by omega, by omega⟩ backing
      backingFits positive sharesFit
    have least : portion claimed account.rewardVestingBmt
        account.rewardVestingBalance ≤ account.rewardVestingBmt :=
      portion_le backing positive within
    have small : convert claimed account.rewardVestingBmt
        account.rewardVestingBalance < 2 ^ 63 := by
      have bound := backingFits.2
      omega
    have stored : wrapInt64 (toUint64 (convert claimed
        account.rewardVestingBmt account.rewardVestingBalance)) =
          portion claimed account.rewardVestingBmt
            account.rewardVestingBalance := by
      rw [wrapInt64_toUint64 small, word]
    rw [show uint128 claimed * uint128 account.rewardVestingBmt % 2 ^ 128 /
      uint128 account.rewardVestingBalance = convert claimed
        account.rewardVestingBmt account.rewardVestingBalance from rfl, stored]
    rfl

/-- What a claim leaves of the rewards, and what it adds to the fund. -/
theorem claimed_of_evaluator
    {account : AccountObject}
    (found : db.accounts.find? op.account = some account)
    (applied : db.claimRewardBalanceEvaluator op = .ok after) :
    ∃ left moved,
      op.rewardVests.amount ≤ account.rewardVestingBalance ∧
        rewardVestingBmtToMove account op.rewardVests.amount = .ok moved ∧
          after.accounts.find? op.account = some left ∧
            left.rewardPool =
              ⟨account.rewardVestingBmt - moved,
                account.rewardVestingBalance - op.rewardVests.amount⟩ ∧
              after.props.totalVestingFundBmt =
                db.props.totalVestingFundBmt + moved := by
  rcases posts_claimRewardBalance applied with
    ⟨same, moved, again, within, move, posted⟩
  cases found.symm.trans again
  have identity := congrFun (touches_claimRewardBalance op db after applied
    (.account .identity) (by decide)) op.account
  change (after.accounts.find? op.account).map _ =
    (db.accounts.find? op.account).map _ at identity
  rw [found, Option.map_some, Option.map_eq_some_iff] at identity
  rcases identity with ⟨left, there, -⟩
  refine ⟨left, moved, within, move, there, ?_, ?_⟩
  · have shares := posted.holding_eq op.account .rewardShares
    have backing := posted.holding_eq op.account .rewardBacking
    rw [ledger_holding there, ledger_holding found] at shares backing
    simp only [AccountObject.purse, netCredit_cons, netCredit_nil,
      Entry.credit, reduceCtorEq, and_false, and_self, if_false, if_true,
      add_zero, zero_add] at shares backing
    rw [AccountObject.rewardPool, shares, backing]
    rfl
  · have fund := posted.surplus_eq .vestingFund
    simp only [Ledger.surplus, Total.counted, Option.elim_none, sub_zero,
      netDrift_cons, netDrift_nil, Entry.drift, reduceCtorEq, if_false,
      if_true, add_zero, zero_add] at fund
    exact fund

/-- What is left of the rewards of an account after some claims. -/
structure LeftOfRewards (db : Database) (account : AccountObject)
    (after : Database) (left : AccountObject) : Prop where
  pool : account.rewardPool.LeftOf left.rewardPool
  fund : after.props.totalVestingFundBmt - db.props.totalVestingFundBmt =
    account.rewardVestingBmt - left.rewardVestingBmt

section Left

variable {account between : AccountObject}
    (start : 0 ≤ account.rewardVestingBmt)
    (startFits : FitsInt64 account.rewardVestingBmt)
    (shares : 0 ≤ account.rewardVestingBalance)
    (left : LeftOfRewards db account middle between)
    (sharesFit : FitsInt64 between.rewardVestingBalance)

include start startFits shares left sharesFit

/-- One claim leaves the rest, and nothing of the BMT without shares. -/
theorem LeftOfRewards.claim
    (found : middle.accounts.find? op.account = some between)
    (done : middle.step ext (.operation (.claimRewardBalance op)) = .ok after) :
    ∃ last, after.accounts.find? op.account = some last ∧
      LeftOfRewards db account after last ∧
        FitsInt64 last.rewardVestingBalance ∧
          (last.rewardVestingBalance = 0 → last.rewardVestingBmt = 0) := by
  simp only [step, Operation.validate, ClaimRewardBalanceOperation.validate,
    bind_eq_ok_iff, require_eq_ok_iff] at done
  rcases done with
    ⟨_, ⟨_, -, _, -, _, -, _, -, _, nonneg, -⟩, applied⟩
  rcases claimed_of_evaluator found applied with
    ⟨last, moved, within, move, there, rest, fund⟩
  have backing : 0 ≤ between.rewardVestingBmt := left.pool.fund
  have less : between.rewardVestingBmt ≤ account.rewardVestingBmt :=
    left.pool.less
  have drawn := draw_of_move left.pool.shares sharesFit backing
    ⟨by omega, Int.lt_of_le_of_lt less startFits.2⟩ nonneg within move
  have pool : account.rewardPool.LeftOf last.rewardPool := by
    rw [rest, ← drawn]
    exact left.pool.draw start shares nonneg within
  have backingLeft : last.rewardVestingBmt =
      between.rewardVestingBmt - moved := congrArg SharePool.fund rest
  have sharesLeft : last.rewardVestingBalance =
      between.rewardVestingBalance - op.rewardVests.amount :=
    congrArg SharePool.shares rest
  refine ⟨last, there, ⟨pool, ?_⟩, ?_, ?_⟩
  · have before := left.fund
    omega
  · have limit := sharesFit.2
    have positive : 0 ≤ last.rewardVestingBalance := pool.shares
    exact ⟨by omega, by omega⟩
  · intro empty
    have none := @SharePool.draw_fund_of_shares between.rewardPool
      op.rewardVests.amount
    rw [drawn, ← rest] at none
    exact none empty

theorem LeftOfRewards.claims
    {ops : List ClaimRewardBalanceOperation}
    {name : AccountName}
    (found : middle.accounts.find? name = some between)
    (own : ∀ op ∈ ops, op.account = name)
    (ran : (claimEvents ops).foldlM (step ext) middle = .ok after) :
    ∃ last, after.accounts.find? name = some last ∧
      LeftOfRewards db account after last ∧
        (ops ≠ [] → last.rewardVestingBalance = 0 →
          last.rewardVestingBmt = 0) := by
  induction ops generalizing middle between with
  | nil =>
      cases ran
      exact ⟨between, found, left, fun some => absurd rfl some⟩
  | cons op ops induction =>
      rw [claimEvents, List.map_cons, List.foldlM_cons, bind_eq_ok_iff] at ran
      rcases ran with ⟨next, done, ran⟩
      rw [List.forall_mem_cons] at own
      rcases own with ⟨rfl, own⟩
      rcases left.claim start startFits shares sharesFit found done with
        ⟨last, there, left, fits, empty⟩
      rcases induction left fits there own ran with
        ⟨final, stored, rest, drained⟩
      refine ⟨final, stored, rest, fun _ => ?_⟩
      cases ops with
      | nil =>
          cases ran
          cases there.symm.trans stored
          exact empty
      | cons => exact drained (List.cons_ne_nil _ _)

end Left

end Database

/-! ## All claims -/

end BMChain.State

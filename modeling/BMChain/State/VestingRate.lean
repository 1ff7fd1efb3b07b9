import BMChain.Protocol.PriceConversion
import BMChain.State.FootprintBlock
import BMChain.State.Run

/-!
# The rate of vesting shares

The vesting fund and the vesting shares are a pool.  Powering up is a deposit
into it and the sweep of the null account a withdrawal; both leave what they
round off in the fund, so that a share is never worth less than before.
-/

namespace BMChain.State

open BMChain.Foundation BMChain.Protocol

namespace Database

variable {db middle after : Database}

/-- The fund of the vesting shares and the shares themselves. -/
def vestingPool (db : Database) : SharePool where
  fund := db.props.totalVestingFundBmt
  shares := db.props.totalVestingShares

/-- Both totals are 64-bit numbers. -/
structure TotalsFit (db : Database) : Prop where
  fund : FitsInt64 db.props.totalVestingFundBmt
  shares : FitsInt64 db.props.totalVestingShares

/-- What does not touch the totals keeps the pool. -/
theorem vestingPool_of_agrees
    {fields : List Field}
    (agrees : Agrees fields db after)
    (separate : apart [.props .vestingFund, .props .vestingShares] fields =
      true) :
    after.props.totalVestingFundBmt = db.props.totalVestingFundBmt ∧
      after.props.totalVestingShares = db.props.totalVestingShares := by
  have fund : Field.read (.props .vestingFund) after =
      Field.read (.props .vestingFund) db :=
    agrees.read_eq separate List.mem_cons_self
  have shares : Field.read (.props .vestingShares) after =
      Field.read (.props .vestingShares) db :=
    agrees.read_eq separate (List.mem_cons_of_mem _ List.mem_cons_self)
  exact ⟨fund, shares⟩

/-! ## The price -/

theorem bmt_named :
    symbolName bmtSymbol = .ok [66, 77, 84] := by
  decide

theorem vests_named :
    symbolName vestsSymbol = .ok [86, 69, 83, 84, 83] := by
  decide

theorem vestingSharePrice_eq
    (opened : db.vestingPool.Open) :
    db.props.vestingSharePrice =
      ⟨vests db.props.totalVestingShares, bmt db.props.totalVestingFundBmt⟩ := by
  have fund : 0 < db.props.totalVestingFundBmt := opened.fund
  have shares : 0 < db.props.totalVestingShares := opened.shares
  unfold DynamicGlobalProperties.vestingSharePrice
  rw [if_neg]
  omega

theorem vestingSharePrice_valid
    (opened : db.vestingPool.Open) :
    (Price.mk (vests db.props.totalVestingShares)
      (bmt db.props.totalVestingFundBmt)).Valid [86, 69, 83, 84, 83]
        [66, 77, 84] :=
  ⟨opened.shares, opened.fund, vests_named, bmt_named, by decide⟩

/-! ## Deposits -/

/-- Powering up is a deposit. -/
theorem deposit_of_createVesting
    {name : AccountName}
    {amount shares : Int}
    (opened : db.vestingPool.Open)
    (fits : db.TotalsFit)
    (nonneg : 0 ≤ amount)
    (small : db.vestingPool.issued amount < 2 ^ 63)
    (done : db.createVesting name amount false = .ok (after, shares)) :
    shares = db.vestingPool.issued amount ∧
      after.vestingPool = db.vestingPool.deposit amount ∧ after.TotalsFit := by
  simp only [createVesting, Bool.false_eq_true, if_false, bind_eq_ok_iff,
    checked_eq_ok_iff, pure_eq_ok_iff, Asset.inSymbol_eq_ok_iff] at done
  rcases done with ⟨_, rfl, created, converted, _, ⟨-, rfl⟩, changed, change, _,
    ⟨fundFits, rfl⟩, _, ⟨sharesFit, rfl⟩, voted, vote, equal⟩
  cases equal
  rw [modifyAccount_eq_ok_iff] at change
  rcases change with ⟨_, _, -, -, rfl⟩
  have positive : 0 < db.props.totalVestingFundBmt := opened.fund
  have amountFits : FitsInt64 amount := by
    have limit := fundFits.2
    dsimp only at limit
    exact ⟨by omega, by omega⟩
  have converts : Converts (bmt amount)
      ⟨vests db.props.totalVestingShares, bmt db.props.totalVestingFundBmt⟩
      (bmt db.props.totalVestingFundBmt) (vests db.props.totalVestingShares) :=
    .quote bmt_named bmt_named
  rw [vestingSharePrice_eq opened,
    mul_of_fits (vestingSharePrice_valid opened)
      ⟨amountFits, fits.shares, fits.fund⟩ nonneg converts small] at converted
  cases converted
  rcases vestingPool_of_agrees
    (touches_adjustProxiedVotesFrom _ _ _ _ after vote) rfl with ⟨fund, shares⟩
  refine ⟨rfl, ?_, ?_, ?_⟩
  · rw [vestingPool, fund, shares]
    rfl
  · rw [fund]
    exact fundFits
  · rw [shares]
    exact sharesFit

/-! ## The sweep of the null account -/

/-- The shares of the null account are withdrawn. -/
theorem withdraw_of_burnVesting
    {total sum : Int}
    (opened : db.vestingPool.Open)
    (left : after.vestingPool.Open)
    (fits : db.TotalsFit)
    (done : db.burnVesting total = .ok (after, sum)) :
    (∃ shares, after.vestingPool = db.vestingPool.withdraw shares) ∧
      after.TotalsFit := by
  simp only [burnVesting, bind_eq_ok_iff] at done
  rcases done with ⟨account, -, done⟩
  split at done
  case isFalse none =>
    cases done
    refine ⟨⟨0, ?_⟩, fits⟩
    rw [SharePool.withdraw, SharePool.redeemed, portion_zero, Int.sub_zero,
      Int.sub_zero]
  case isTrue some =>
    simp only [bind_eq_ok_iff, pure_eq_ok_iff, checked_eq_ok_iff,
      Asset.inSymbol_eq_ok_iff] at done
    rcases done with ⟨created, converted, _, ⟨sharesFit, rfl⟩, _, ⟨-, rfl⟩, _,
      ⟨fundFits, rfl⟩, taken, take, _, -, equal⟩
    cases equal
    rw [modifyAccount_eq_ok_iff] at take
    rcases take with ⟨_, _, -, -, rfl⟩
    have fund : 0 < db.props.totalVestingFundBmt := opened.fund
    have shares : 0 < db.props.totalVestingShares := opened.shares
    have rest : 0 < db.props.totalVestingShares - account.vestingShares :=
      left.shares
    have limit := fits.shares.2
    have within : account.vestingShares ≤ db.props.totalVestingShares := by
      omega
    have converts : Converts (vests account.vestingShares)
        ⟨vests db.props.totalVestingShares, bmt db.props.totalVestingFundBmt⟩
        (vests db.props.totalVestingShares)
        (bmt db.props.totalVestingFundBmt) :=
      .base vests_named vests_named
    have small : quotient (vests account.vestingShares)
        (vests db.props.totalVestingShares)
        (bmt db.props.totalVestingFundBmt) < 2 ^ 63 :=
      Int.lt_of_le_of_lt (portion_le (Int.le_of_lt fund) shares within)
        fits.fund.2
    have held : FitsInt64 account.vestingShares := ⟨by omega, by omega⟩
    rw [vestingSharePrice_eq opened,
      mul_of_fits (vestingSharePrice_valid opened)
        ⟨held, fits.shares, fits.fund⟩ (Int.le_of_lt some) converts small]
      at converted
    cases converted
    exact ⟨⟨account.vestingShares, rfl⟩, fundFits, sharesFit⟩

/-- The sweep of the null account withdraws its shares. -/
theorem withdraw_of_clearNullAccountBalance
    (opened : db.vestingPool.Open)
    (left : after.vestingPool.Open)
    (fits : db.TotalsFit)
    (done : db.clearNullAccountBalance = .ok after) :
    (∃ shares, after.vestingPool = db.vestingPool.withdraw shares) ∧
      after.TotalsFit := by
  rcases clearNullAccountBalance_cases done with
    ⟨ready, total, burned, sum, before, burn, kept⟩
  rcases vestingPool_of_agrees before rfl with ⟨readyFund, readyShares⟩
  rcases vestingPool_of_agrees kept rfl with ⟨fund, shares⟩
  have readyPool : ready.vestingPool = db.vestingPool := by
    rw [vestingPool, readyFund, readyShares]
    rfl
  have pool : after.vestingPool = burned.vestingPool := by
    rw [vestingPool, fund, shares]
    rfl
  rw [← readyPool] at opened ⊢
  rw [pool] at left ⊢
  rcases withdraw_of_burnVesting opened left
    ⟨readyFund ▸ fits.fund, readyShares ▸ fits.shares⟩ burn with
    ⟨withdrawn, burnedFits⟩
  exact ⟨withdrawn, fund ▸ burnedFits.fund, shares ▸ burnedFits.shares⟩

/-! ## All steps -/

/-- Somebody powers up, or the null account is swept. -/
inductive PowerStep (db after : Database) : Prop
  | powerUp {name : AccountName} {amount shares : Int}
      (nonneg : 0 ≤ amount)
      (small : db.vestingPool.issued amount < 2 ^ 63)
      (done : db.createVesting name amount false = .ok (after, shares))
  | sweep (done : db.clearNullAccountBalance = .ok after)

/-- Steps which leave both totals positive. -/
inductive PowerRun (start : Database) : Database → Prop
  | start : PowerRun start start
  | step {db after : Database} (run : PowerRun start db)
      (done : PowerStep db after) (left : after.vestingPool.Open) :
      PowerRun start after

/-- A step never makes a share worth less. -/
theorem PowerStep.worthLe
    (opened : db.vestingPool.Open)
    (left : after.vestingPool.Open)
    (fits : db.TotalsFit)
    (step : PowerStep db after) :
    db.vestingPool.WorthLe after.vestingPool ∧ after.TotalsFit := by
  cases step with
  | powerUp nonneg small done =>
      rcases deposit_of_createVesting opened fits nonneg small done with
        ⟨-, pool, afterFits⟩
      rw [pool]
      exact ⟨SharePool.worthLe_deposit opened.fund, afterFits⟩
  | sweep done =>
      rcases withdraw_of_clearNullAccountBalance opened left fits done with
        ⟨⟨shares, pool⟩, afterFits⟩
      rw [pool]
      exact ⟨SharePool.worthLe_withdraw opened.shares, afterFits⟩

theorem PowerRun.worthLe
    (opened : db.vestingPool.Open)
    (fits : db.TotalsFit)
    (run : PowerRun db after) :
    db.vestingPool.WorthLe after.vestingPool ∧ after.vestingPool.Open ∧
      after.TotalsFit := by
  induction run with
  | start => exact ⟨.refl _, opened, fits⟩
  | step run done left induction =>
      rcases induction with ⟨worth, between, middleFits⟩
      rcases done.worthLe between left middleFits with ⟨later, afterFits⟩
      exact ⟨worth.trans later between.shares (Int.le_of_lt opened.shares)
        (Int.le_of_lt left.shares), left, afterFits⟩

/-- Two deposits, one after the other, and one of their sum. -/
structure SplitDeposit (db : Database) (amount other : Int)
    (first second whole : Int) : Prop where
  amountNonneg : 0 ≤ amount
  otherNonneg : 0 ≤ other
  small : db.vestingPool.issued (amount + other) < 2 ^ 63
  split : ∃ one two middle after,
    db.createVesting one amount false = .ok (middle, first) ∧
      middle.createVesting two other false = .ok (after, second)
  atOnce : ∃ name after,
    db.createVesting name (amount + other) false = .ok (after, whole)

theorem SplitDeposit.le
    {amount other first second whole : Int}
    (opened : db.vestingPool.Open)
    (fits : db.TotalsFit)
    (deposits : SplitDeposit db amount other first second whole) :
    first + second ≤ whole := by
  rcases deposits with ⟨amountNonneg, otherNonneg, small, split, atOnce⟩
  rcases split with ⟨one, two, middle, after, powered, again⟩
  rcases atOnce with ⟨name, wholly, once⟩
  have sum := SharePool.issued_deposit_le opened amountNonneg otherNonneg
  have firstNonneg : 0 ≤ db.vestingPool.issued amount :=
    portion_nonneg amountNonneg (Int.le_of_lt opened.shares) opened.fund
  have grown : (db.vestingPool.deposit amount).Open :=
    ⟨Int.add_pos_of_pos_of_nonneg opened.fund amountNonneg,
      Int.add_pos_of_pos_of_nonneg opened.shares firstNonneg⟩
  have secondNonneg : 0 ≤ (db.vestingPool.deposit amount).issued other :=
    portion_nonneg otherNonneg (Int.le_of_lt grown.shares) grown.fund
  rcases deposit_of_createVesting opened fits amountNonneg (by omega) powered
    with ⟨rfl, pool, middleFits⟩
  rw [← pool] at grown sum secondNonneg
  rcases deposit_of_createVesting grown middleFits otherNonneg (by omega) again
    with ⟨rfl, -, -⟩
  rcases deposit_of_createVesting opened fits
    (Int.add_nonneg amountNonneg otherNonneg) small once with ⟨rfl, -, -⟩
  exact sum

end Database

/--
Powering up and sweeping the null account never lower what a share is worth,
and a deposit in two parts is given no more shares than the whole.
-/
theorem powering_up_does_not_dilute
    {db : Database}
    (opened : db.vestingPool.Open)
    (fits : db.TotalsFit) :
    (∀ after, Database.PowerRun db after →
      db.vestingPool.WorthLe after.vestingPool) ∧
      ∀ amount other first second whole,
        Database.SplitDeposit db amount other first second whole →
          first + second ≤ whole :=
  ⟨fun _ run => (run.worthLe opened fits).1,
    fun _ _ _ _ _ deposits => deposits.le opened fits⟩

/-- The null account is powered up and swept, and a deposit is split. -/
theorem powering_up_does_not_dilute_genesis :
    ∃ powered swept,
      initGenesis.createVesting nullAccount 5000 false =
          .ok (powered, 5000000) ∧
        powered.clearNullAccountBalance = .ok swept ∧
          initGenesis.vestingPool.WorthLe swept.vestingPool ∧
            ∃ first second whole,
              Database.SplitDeposit initGenesis 3 4 first second whole ∧
                first + second ≤ whole := by
  have ran : (do
      let powered ← initGenesis.createVesting nullAccount 5000 false
      let swept ← powered.1.clearNullAccountBalance
      let first ← initGenesis.createVesting "devs" 3 false
      let _ ← first.1.createVesting "devs" 4 false
      let _ ← initGenesis.createVesting "devs" 7 false
      require (powered.2 = 5000000 ∧ 0 < powered.1.props.totalVestingFundBmt ∧
        0 < powered.1.props.totalVestingShares ∧
          0 < swept.props.totalVestingFundBmt ∧
            0 < swept.props.totalVestingShares) "") = Except.ok () := by
    decide +kernel
  simp only [bind_eq_ok_iff, require_eq_ok_iff] at ran
  rcases ran with ⟨⟨powered, _⟩, power, swept, sweep, ⟨middle, first⟩, one,
    ⟨_, second⟩, two, ⟨_, whole⟩, once, given, fund, shares, left, rest⟩
  dsimp only at given
  subst given
  have safe := @powering_up_does_not_dilute initGenesis
    ⟨by decide, by decide⟩ ⟨by decide, by decide⟩
  have run : Database.PowerRun initGenesis swept :=
    (Database.PowerRun.start.step
      (.powerUp (by decide) (by decide) power)
        ⟨fund, shares⟩).step (.sweep sweep) ⟨left, rest⟩
  have deposits :
      Database.SplitDeposit initGenesis 3 4 first second whole :=
    ⟨by decide, by decide, by decide, ⟨_, _, _, _, one, two⟩, _, _, once⟩
  exact ⟨powered, swept, power, sweep, safe.1 _ run, first, second, whole,
    deposits, safe.2 _ _ _ _ _ deposits⟩

end BMChain.State

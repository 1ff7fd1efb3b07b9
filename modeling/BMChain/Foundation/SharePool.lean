import Mathlib.Tactic.Linarith
import Mathlib.Tactic.Ring

/-!
# Portions and pools

An amount is converted at a rate by one multiplication and one division which
rounds down.  A pool is a fund which is owned in shares; shares are put in and
taken out at the rate of the pool, so that every rounding is left in the fund.
-/

namespace BMChain.Foundation

/-! ## Portions -/

/-- What an amount is worth at a rate of `part` for each `whole`. -/
def portion (amount part whole : Int) : Int :=
  amount * part / whole

section Portion

variable {amount other part whole : Int}

theorem portion_nonneg
    (amountNonneg : 0 ≤ amount)
    (partNonneg : 0 ≤ part)
    (wholePos : 0 < whole) :
    0 ≤ portion amount part whole :=
  Int.ediv_nonneg (Int.mul_nonneg amountNonneg partNonneg)
    (Int.le_of_lt wholePos)

/-- No more is given than the rate says. -/
theorem portion_mul_le
    (wholePos : 0 < whole) :
    portion amount part whole * whole ≤ amount * part :=
  Int.ediv_mul_le _ (Int.ne_of_gt wholePos)

/-- What stays within the rate is within the portion. -/
theorem le_portion
    {value : Int}
    (wholePos : 0 < whole)
    (within : value * whole ≤ amount * part) :
    value ≤ portion amount part whole :=
  (Int.le_ediv_iff_mul_le wholePos).2 within

theorem portion_zero :
    portion 0 part whole = 0 := by
  rw [portion, Int.zero_mul, Int.zero_ediv]

theorem portion_le
    (partNonneg : 0 ≤ part)
    (wholePos : 0 < whole)
    (within : amount ≤ whole) :
    portion amount part whole ≤ part := by
  have bound := Int.ediv_le_ediv wholePos
    (Int.mul_le_mul_of_nonneg_right within partNonneg)
  rw [Int.mul_ediv_cancel_left part (Int.ne_of_gt wholePos)] at bound
  exact bound

/-- There and back never gains. -/
theorem portion_portion_le
    (partPos : 0 < part)
    (wholePos : 0 < whole) :
    portion (portion amount part whole) whole part ≤ amount := by
  have there : portion amount part whole * whole ≤ amount * part :=
    portion_mul_le wholePos
  have back : portion (portion amount part whole) whole part * part ≤
      portion amount part whole * whole :=
    portion_mul_le partPos
  exact Int.le_of_mul_le_mul_right (Int.le_trans back there) partPos

/-- Two portions are no more than that of the sum. -/
theorem portion_add_le
    (wholePos : 0 < whole) :
    portion amount part whole + portion other part whole ≤
      portion (amount + other) part whole := by
  refine le_portion wholePos ?_
  have first : portion amount part whole * whole ≤ amount * part :=
    portion_mul_le wholePos
  have second : portion other part whole * whole ≤ other * part :=
    portion_mul_le wholePos
  rw [Int.add_mul, Int.add_mul]
  exact Int.add_le_add first second

/-- A worse rate gives no more. -/
theorem portion_le_portion
    {worse under : Int}
    (amountNonneg : 0 ≤ amount)
    (wholePos : 0 < whole)
    (underPos : 0 < under)
    (rates : worse * whole ≤ part * under) :
    portion amount worse under ≤ portion amount part whole := by
  refine le_portion wholePos ?_
  refine Int.le_of_mul_le_mul_right ?_ underPos
  have given : portion amount worse under * under ≤ amount * worse :=
    portion_mul_le underPos
  calc portion amount worse under * whole * under
      = portion amount worse under * under * whole := by ring
    _ ≤ amount * worse * whole :=
        Int.mul_le_mul_of_nonneg_right given (Int.le_of_lt wholePos)
    _ = amount * (worse * whole) := by ring
    _ ≤ amount * (part * under) :=
        Int.mul_le_mul_of_nonneg_left rates amountNonneg
    _ = amount * part * under := by ring

end Portion

/-! ## Pools -/

/-- A fund which is owned in shares. -/
structure SharePool where
  fund : Int
  shares : Int

namespace SharePool

/-- Both sides are positive. -/
structure Open (pool : SharePool) : Prop where
  fund : 0 < pool.fund
  shares : 0 < pool.shares

/-- A share of the first pool is worth no more than one of the second. -/
def WorthLe (before after : SharePool) : Prop :=
  before.fund * after.shares ≤ after.fund * before.shares

/-- The shares which a deposit is given. -/
def issued (pool : SharePool) (amount : Int) : Int :=
  portion amount pool.shares pool.fund

/-- The part of the fund which shares are worth. -/
def redeemed (pool : SharePool) (shares : Int) : Int :=
  portion shares pool.fund pool.shares

/-- The pool after a deposit. -/
def deposit (pool : SharePool) (amount : Int) : SharePool where
  fund := pool.fund + amount
  shares := pool.shares + pool.issued amount

/-- The pool after a withdrawal. -/
def withdraw (pool : SharePool) (shares : Int) : SharePool where
  fund := pool.fund - pool.redeemed shares
  shares := pool.shares - shares

variable {pool middle after : SharePool} {amount other shares : Int}

theorem WorthLe.refl (pool : SharePool) : WorthLe pool pool :=
  Int.le_refl _

theorem WorthLe.trans
    (first : WorthLe pool middle)
    (second : WorthLe middle after)
    (positive : 0 < middle.shares)
    (startNonneg : 0 ≤ pool.shares)
    (endNonneg : 0 ≤ after.shares) :
    WorthLe pool after := by
  refine Int.le_of_mul_le_mul_right ?_ positive
  calc pool.fund * after.shares * middle.shares
      = pool.fund * middle.shares * after.shares := by ring
    _ ≤ middle.fund * pool.shares * after.shares :=
        Int.mul_le_mul_of_nonneg_right first endNonneg
    _ = middle.fund * after.shares * pool.shares := by ring
    _ ≤ after.fund * middle.shares * pool.shares :=
        Int.mul_le_mul_of_nonneg_right second startNonneg
    _ = after.fund * pool.shares * middle.shares := by ring

/-- A deposit leaves its rounding to the fund. -/
theorem worthLe_deposit
    (positive : 0 < pool.fund) :
    WorthLe pool (pool.deposit amount) := by
  have given : pool.issued amount * pool.fund ≤ amount * pool.shares :=
    portion_mul_le positive
  simp only [WorthLe, deposit]
  linarith

/-- So does a withdrawal. -/
theorem worthLe_withdraw
    (positive : 0 < pool.shares) :
    WorthLe pool (pool.withdraw shares) := by
  have given : pool.redeemed shares * pool.shares ≤ shares * pool.fund :=
    portion_mul_le positive
  simp only [WorthLe, withdraw]
  linarith

/-- Two deposits are given no more shares than one of their sum. -/
theorem issued_deposit_le
    (opened : pool.Open)
    (amountNonneg : 0 ≤ amount)
    (otherNonneg : 0 ≤ other) :
    pool.issued amount + (pool.deposit amount).issued other ≤
      pool.issued (amount + other) := by
  have worth : WorthLe pool (pool.deposit amount) :=
    worthLe_deposit opened.fund
  have grown : 0 < (pool.deposit amount).fund :=
    Int.add_pos_of_pos_of_nonneg opened.fund amountNonneg
  have later : (pool.deposit amount).issued other ≤ pool.issued other := by
    refine portion_le_portion otherNonneg opened.fund grown ?_
    rw [Int.mul_comm, Int.mul_comm pool.shares]
    exact worth
  calc pool.issued amount + (pool.deposit amount).issued other
      ≤ pool.issued amount + pool.issued other :=
        Int.add_le_add_left later _
    _ ≤ pool.issued (amount + other) := portion_add_le opened.fund

/-! ## Pools which are drawn empty -/

/-- A withdrawal which takes all of the fund with the last shares. -/
def draw (pool : SharePool) (shares : Int) : SharePool :=
  if shares = pool.shares then ⟨0, 0⟩ else pool.withdraw shares

/-- A pool which is left of another one by withdrawals. -/
structure LeftOf (start pool : SharePool) : Prop where
  fund : 0 ≤ pool.fund
  shares : 0 ≤ pool.shares
  less : pool.fund ≤ start.fund
  worth : WorthLe start pool

theorem LeftOf.start
    {start : SharePool}
    (fund : 0 ≤ start.fund)
    (shares : 0 ≤ start.shares) :
    LeftOf start start :=
  ⟨fund, shares, Int.le_refl _, .refl start⟩

theorem LeftOf.draw
    {start : SharePool}
    (left : LeftOf start pool)
    (startFund : 0 ≤ start.fund)
    (startShares : 0 ≤ start.shares)
    (nonneg : 0 ≤ shares)
    (within : shares ≤ pool.shares) :
    LeftOf start (pool.draw shares) := by
  unfold SharePool.draw
  split
  case isTrue last =>
    refine ⟨Int.le_refl _, Int.le_refl _, startFund, ?_⟩
    simp [WorthLe]
  case isFalse more =>
    have positive : 0 < pool.shares := by omega
    have least : 0 ≤ pool.redeemed shares :=
      portion_nonneg nonneg left.fund positive
    have most : pool.redeemed shares ≤ pool.fund :=
      portion_le left.fund positive within
    have less := left.less
    constructor
    case fund => exact Int.sub_nonneg_of_le most
    case shares => exact Int.sub_nonneg_of_le within
    case less =>
      simp only [withdraw]
      omega
    case worth =>
      exact left.worth.trans (worthLe_withdraw positive) positive startShares
        (Int.sub_nonneg_of_le within)

/-- No part of the fund is left without shares. -/
theorem draw_fund_of_shares
    (empty : (pool.draw shares).shares = 0) :
    (pool.draw shares).fund = 0 := by
  unfold draw at empty ⊢
  split at empty
  case isTrue last => rw [if_pos last]
  case isFalse more =>
    simp only [withdraw] at empty
    omega

/-- What is left of the fund covers the shares which are left. -/
theorem LeftOf.covered
    {start : SharePool}
    (left : LeftOf start pool)
    (startShares : 0 ≤ start.shares) :
    portion start.fund pool.shares start.shares ≤ pool.fund := by
  rcases Int.lt_or_eq_of_le startShares with positive | zero
  · exact Int.ediv_le_of_le_mul positive left.worth
  · rw [portion, ← zero, Int.ediv_zero]
    exact left.fund

end SharePool

end BMChain.Foundation

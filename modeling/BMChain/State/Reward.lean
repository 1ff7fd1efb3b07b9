import BMChain.State.Database

/-!
# Reward curves

The functions of `util/reward.cpp`.  All products are taken in 128 bits.
-/

namespace BMChain.State

open BMChain.Foundation BMChain.Protocol

/-- `approx_sqrt`. -/
def approxSqrt (value : Nat) : Nat :=
  if value = 0 then 0
  else
    let msbX := value.log2
    let msbZ := msbX / 2
    let bitZ := 2 ^ msbZ
    let mantissaX := value % 2 ^ msbX
    let high := if msbX % 2 = 1 then bitZ else 0
    let low := mantissaX / 2 ^ (msbX - msbZ) % 2 ^ 64
    bitZ ||| (high ||| low) / 2

/-- `evaluate_reward_curve`. -/
def evaluateRewardCurve (ext : External) (rshares : Nat) (curve : CurveId)
    (contentConstant : Nat) : Except Fault Nat :=
  match curve with
  | .quadratic => .ok (rshares * rshares % 2 ^ 128)
  | .quadraticCuration =>
      divideUint128 (toUint64 rshares * 2 ^ 64)
        ((contentConstant * 2 + rshares) % 2 ^ 128)
  | .linear => .ok rshares
  | .squareRoot => .ok (approxSqrt rshares)
  | .power17 =>
      let square := rshares * rshares % 2 ^ 128
      if square < 2 ^ 64 then .ok (ext.pow17 (toUint64 rshares))
      else .ok square

/-- `evaluate_reward_curve` with its default curve. -/
def defaultRewardCurve (rshares : Nat) : Nat :=
  rshares * rshares % 2 ^ 128

/-- `comment_reward_context`, without the price that only the dust test had. -/
structure CommentRewardContext where
  rshares : Int
  rewardWeight : Nat
  totalRewardShares2 : Nat
  totalRewardFundBmt : Int
  rewardCurve : CurveId
  contentConstant : Nat

/-- `BMCHAIN_MIN_PAYOUT`. -/
def minPayout : Int := 20

/-- `u256` made from a signed 64-bit number. -/
def uint256 (value : Int) : Nat :=
  (value % 2 ^ 256).toNat

/-- `get_rshare_reward`. -/
def getRshareReward (ext : External) (ctx : CommentRewardContext) :
    Except Fault Int := do
  require (0 < ctx.rshares) "ctx.rshares > 0"
  require (0 < ctx.totalRewardShares2) "ctx.total_reward_shares2 > 0"
  let claim ← evaluateRewardCurve ext (uint128 ctx.rshares) ctx.rewardCurve
    ctx.contentConstant
  let weighted := claim * ctx.rewardWeight % 2 ^ 256 / hundredPercent
  let payout : Nat :=
    uint256 ctx.totalRewardFundBmt * weighted % 2 ^ 256 /
      ctx.totalRewardShares2
  require (payout < 2 ^ 63) "payout_u256 <= max"
  pure (if (payout : Int) < minPayout then 0 else (payout : Int))

end BMChain.State

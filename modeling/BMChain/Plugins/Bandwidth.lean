import BMChain.Foundation.PartialEffect
import BMChain.State.BlockProduction

/-!
# Bandwidth

The witness plugin keeps a reserve ratio, which follows the average size of the
blocks, and the average bandwidth of every account.  A producing node refuses a
transaction of an account whose share of the vesting is smaller than its share
of the virtual bandwidth.  The two products which it compares are taken in 128
bits.
-/

namespace BMChain.Plugins

open BMChain.Foundation BMChain.Protocol BMChain.State

variable {dividend ratio total divisor distance bound : Int} {Value : Type}
    {wire : PackedWire} {db : Database}

/-! ## The state of the plugin -/

/-- `DISTANCE_CALC_PRECISION`. -/
def distanceCalcPrecision : Int := 10000

/-- `RESERVE_RATIO_PRECISION`. -/
def reserveRatioPrecision : Int := 10000

/-- `RESERVE_RATIO_MIN_INCREMENT`. -/
def reserveRatioMinIncrement : Int := 5000

/-- `BMCHAIN_MAX_RESERVE_RATIO`. -/
def maxReserveRatio : Int := 20000

/-- `BMCHAIN_BANDWIDTH_PRECISION`. -/
def bandwidthPrecision : Nat := 1000000

/-- `BMCHAIN_BANDWIDTH_AVERAGE_WINDOW_SECONDS`. -/
def bandwidthAverageWindowSeconds : Nat := 60 * 60 * 24 * 7

/-- `bandwidth_type`. -/
inductive BandwidthType where
  | post
  | forum
  | market
  deriving DecidableEq

/-- `account_bandwidth_object`. -/
structure AccountBandwidthObject where
  account : AccountName
  type : BandwidthType
  averageBandwidth : Int := 0
  lifetimeBandwidth : Int := 0
  lastBandwidthUpdate : Time := 0
  deriving DecidableEq

/-- `reserve_ratio_object`. -/
structure ReserveRatioObject where
  averageBlockSize : Int
  currentReserveRatio : Int
  maxVirtualBandwidth : Nat
  deriving DecidableEq

/-- The objects of the witness plugin. -/
structure WitnessPlugin where
  reserve : Option ReserveRatioObject := none
  bandwidths : Table AccountBandwidthObject := .empty

/-- `plugin_exception`, and every other exception. -/
inductive Thrown where
  | plugin (fault : Fault)
  | other (fault : Fault)

/-- What a handler of the plugin does. -/
abbrev Handler (Value : Type) := Effect Thrown WitnessPlugin Value

/-- A computation without writes. -/
def attempt {Value : Type} (result : Except Fault Value) : Handler Value :=
  Effect.lift (result.mapError Thrown.other)

/-! ## `on_block` -/

/--
The new average of the block sizes: an `int` product, a sum in `uint64_t`, and
a quotient which is narrowed to `int32_t`.
-/
def nextBlockSize (average : Int) (packSize : Nat) : Int :=
  Int.bmod (((99 * average).bmod (2 ^ 32) + packSize) % 2 ^ 64 / 100) (2 ^ 32)

/--
The distance of the average from a quarter of the maximum, in `int64_t`.  Where
`int64_t` runs over or is divided by zero there is a fault.
-/
def usageDistance (maxBlockSize average : Int) : Except Fault Int := do
  let quarter ← checkedDiv maxBlockSize 4
  let gap ← checked (average - quarter)
  let scaled ← checked (gap * distanceCalcPrecision)
  checkedDiv scaled quarter

/-- The adjusted reserve ratio, in `int64_t` with the same faults. -/
def adjustRatio (ratio distance : Int) : Except Fault Int := do
  let part ← checked (ratio * distance)
  if 0 < distance then
    let sum ← checked (distance + distanceCalcPrecision)
    let cut ← checkedDiv part sum
    let lower ← checked (ratio - cut)
    pure (if lower < reserveRatioPrecision then reserveRatioPrecision
      else lower)
  else
    let difference ← checked (distance - distanceCalcPrecision)
    let growth ← checkedDiv part difference
    let higher ← checked (ratio + max reserveRatioMinIncrement growth)
    let most ← checked (maxReserveRatio * reserveRatioPrecision)
    pure (if most < higher then most else higher)

/-- `max_virtual_bandwidth` of the first object. -/
def firstVirtualBandwidth : Nat :=
  maxBlockSize * uint128 maxReserveRatio * bandwidthPrecision *
    bandwidthAverageWindowSeconds % 2 ^ 128 / blockInterval

/-- `max_virtual_bandwidth` for a maximum and a ratio. -/
def virtualBandwidth (maxBlockSize ratio : Int) : Nat :=
  uint128 maxBlockSize * uint128 ratio *
      (bandwidthPrecision * bandwidthAverageWindowSeconds) % 2 ^ 128 /
    uint128 (blockInterval * reserveRatioPrecision)

namespace WitnessPlugin

/-- `on_block`. -/
def onBlock (db : Database) (packSize : Nat) (plugin : WitnessPlugin) :
    Except Fault WitnessPlugin :=
  match plugin.reserve with
  | none =>
      .ok { plugin with
        reserve := some
          { averageBlockSize := 0
            currentReserveRatio := maxReserveRatio * reserveRatioPrecision
            maxVirtualBandwidth := firstVirtualBandwidth } }
  | some reserve => do
      let average := nextBlockSize reserve.averageBlockSize packSize
      if db.headBlockNum % 20 = 0 then
        let distance ← usageDistance db.props.maximumBlockSize average
        let ratio ← adjustRatio reserve.currentReserveRatio distance
        pure { plugin with
          reserve := some
            { averageBlockSize := average
              currentReserveRatio := ratio
              maxVirtualBandwidth :=
                virtualBandwidth db.props.maximumBlockSize ratio } }
      else
        pure { plugin with
          reserve := some { reserve with averageBlockSize := average } }

/-! ## `update_account_bandwidth` -/

/-- What is left of the average of an account. -/
def decayedBandwidth (now : Time) (band : AccountBandwidthObject) : Int :=
  let deltaTime : Int := now - band.lastBandwidthUpdate
  if bandwidthAverageWindowSeconds < deltaTime then 0
  else
    wrapInt64 (toUint64
      (uint128 (bandwidthAverageWindowSeconds - deltaTime) *
          uint128 band.averageBandwidth % 2 ^ 128 /
        bandwidthAverageWindowSeconds))

/-- `trx_bandwidth` of a size with 32 bits. -/
def trxBandwidth (trxSize : Nat) : Int :=
  wrapInt64 (trxSize * bandwidthPrecision % 2 ^ 64)

/-- The object of an account and a type, which is made when there is none. -/
def findBandwidth (account : AccountName) (type : BandwidthType) :
    Handler (Nat × AccountBandwidthObject) := do
  let plugin ← get
  match plugin.bandwidths.findBy fun band =>
      band.account = account ∧ band.type = type with
  | some entry => pure entry
  | none =>
      let band : AccountBandwidthObject := { account := account, type := type }
      set { plugin with bandwidths := plugin.bandwidths.emplace band }
      pure (plugin.bandwidths.nextId, band)

/-- The object which is referred to takes a new value. -/
def setBandwidth (id : Nat) (band : AccountBandwidthObject) :
    Handler Unit := do
  let plugin ← get
  set { plugin with bandwidths := plugin.bandwidths.set id band }

/-- A transaction is charged to an account, in the order of the assignments. -/
def chargeBandwidth (now : Time) (account : AccountName) (trxSize : Nat)
    (type : BandwidthType) : Handler AccountBandwidthObject := do
  let (id, band) ← findBandwidth account type
  let average ← attempt
    (checked (decayedBandwidth now band + trxBandwidth trxSize))
  setBandwidth id { band with averageBandwidth := average }
  let lifetime ← attempt
    (checked (band.lifetimeBandwidth + trxBandwidth trxSize))
  let charged : AccountBandwidthObject :=
    { band with
      averageBandwidth := average
      lifetimeBandwidth := lifetime
      lastBandwidthUpdate := now }
  setBandwidth id charged
  pure charged

/-- The comparison of the two products, in 128 bits. -/
def hasBandwidth (vshares total average : Int) (maxVirtualBandwidth : Nat) :
    Bool :=
  uint128 average * uint128 total % 2 ^ 128 <
    uint128 vshares * maxVirtualBandwidth % 2 ^ 128

/-- The verdict on an account after the charge. -/
def judgeBandwidth (db : Database) (account : AccountObject) (trxSize : Nat)
    (type : BandwidthType) : Handler Bool := do
  let band ← chargeBandwidth db.headBlockTime account.name trxSize type
  let vshares ← attempt account.effectiveVestingShares
  let plugin ← get
  let reserve ← attempt (orFault plugin.reserve "unknown key")
  pure (hasBandwidth vshares db.props.totalVestingShares band.averageBandwidth
    reserve.maxVirtualBandwidth)

/-- `update_account_bandwidth`. -/
def updateAccountBandwidth (db : Database) (producing : Bool)
    (account : AccountObject) (trxSize : Nat) (type : BandwidthType) :
    Handler Unit := do
  if 0 < db.props.totalVestingShares then
    let has ← judgeBandwidth db account trxSize type
    if producing ∧ !has then
      throw (.plugin ("Account: " ++ account.name ++ " bandwidth limit " ++
        "exceeded. Please wait to transact or power up BMT."))

/-! ## `pre_transaction` -/

/-- `is_market_operation`. -/
def isMarketOperation : Operation → Bool
  | .limitOrderCreate _ => true
  | .limitOrderCancel _ => true
  | .transfer _ => true
  | .transferToVesting _ => true
  | _ => false

/-- The accounts which a transaction requires in any way. -/
def requiredAccounts (trx : SignedTransaction) : List AccountName :=
  flatSet (trx.operations.flatMap fun op =>
    op.requiredActive ++ op.requiredOwner ++ op.requiredPosting)

/-- The charges of one required account; a size is passed on with 32 bits. -/
def chargeAccount (wire : PackedWire) (db : Database) (producing : Bool)
    (trx : SignedTransaction) (auth : AccountName) : Handler Unit := do
  let account ← attempt (db.getAccount auth)
  updateAccountBandwidth db producing account (wire.trxSize trx % 2 ^ 32) .forum
  if trx.operations.any isMarketOperation then
    updateAccountBandwidth db producing account
      (wire.trxSize trx * 10 % 2 ^ 32) .market

/-- `pre_transaction`. -/
def preTransaction (wire : PackedWire) (db : Database) (producing : Bool)
    (trx : SignedTransaction) : Handler Unit :=
  (requiredAccounts trx).forM (chargeAccount wire db producing trx)

/--
`BMCHAIN_TRY_NOTIFY`.  A `plugin_exception` refuses the transaction, with all
that was written; other exceptions are only logged.
-/
def tryNotify (handler : Handler Unit) (plugin : WitnessPlugin) :
    Except Fault WitnessPlugin :=
  match handler.perform plugin with
  | (.error (.plugin fault), _) => .error fault
  | (_, after) => .ok after

end WitnessPlugin

/-! ## The reserve ratio -/

theorem checked_of_within
    {value bound : Int}
    (low : -bound ≤ value)
    (high : value ≤ bound)
    (small : bound < 2 ^ 63) :
    checked value = .ok value := by
  refine if_pos ⟨?_, ?_⟩ <;> omega

theorem tdiv_within
    (positive : 0 < divisor)
    (low : -(bound * divisor) ≤ dividend)
    (high : dividend ≤ bound * divisor) :
    -bound ≤ dividend.tdiv divisor ∧ dividend.tdiv divisor ≤ bound := by
  rcases Int.le_total 0 dividend with nonneg | nonpos
  · rw [Int.tdiv_eq_ediv_of_nonneg nonneg]
    have upper := Int.ediv_le_of_le_mul positive high
    have lower := Int.ediv_nonneg nonneg (Int.le_of_lt positive)
    omega
  · have turned : dividend.tdiv divisor = -((-dividend) / divisor) := by
      rw [← Int.tdiv_eq_ediv_of_nonneg (by omega), Int.neg_tdiv, Int.neg_neg]
    have upper := Int.ediv_le_of_le_mul positive
      (show -dividend ≤ bound * divisor by omega)
    have lower := Int.ediv_nonneg (show 0 ≤ -dividend by omega)
      (Int.le_of_lt positive)
    omega

theorem checkedDiv_of_within
    (positive : 0 < divisor)
    (low : -(bound * divisor) ≤ dividend)
    (high : dividend ≤ bound * divisor)
    (small : bound < 2 ^ 63) :
    checkedDiv dividend divisor = .ok (dividend.tdiv divisor) := by
  have within := tdiv_within positive low high
  rw [checkedDiv, require_pos (by omega)]
  exact checked_of_within within.1 within.2 small

theorem fitsInt32_nextBlockSize
    (average : Int)
    (packSize : Nat) :
    FitsInt32 (nextBlockSize average packSize) := by
  unfold FitsInt32 nextBlockSize
  constructor
  · exact Int.le_bmod (by decide)
  · exact Int.bmod_lt (by decide)

/-- The distance for a maximum which is accepted fits, with room to spare. -/
theorem usageDistance_returns
    {maximum average : Int}
    (atLeast : minBlockSizeLimit ≤ maximum)
    (atMost : maximum < 2 ^ 32)
    (fits : FitsInt32 average) :
    ∃ distance, usageDistance maximum average = .ok distance ∧
      -1310730000 ≤ distance ∧ distance ≤ 1310730000 := by
  unfold minBlockSizeLimit at atLeast
  rcases fits with ⟨low, high⟩
  have quarter : maximum.tdiv 4 = maximum / 4 :=
    Int.tdiv_eq_ediv_of_nonneg (by omega)
  have positive : 0 < maximum / 4 := by
    omega
  have scaled : -(1310730000 * (maximum / 4)) ≤
        (average - maximum / 4) * distanceCalcPrecision ∧
      (average - maximum / 4) * distanceCalcPrecision ≤
        1310730000 * (maximum / 4) := by
    unfold distanceCalcPrecision
    omega
  refine ⟨_, ?_, tdiv_within positive scaled.1 scaled.2⟩
  unfold usageDistance
  rw [checkedDiv_of_within (by decide) (show -(2 ^ 32 * 4) ≤ maximum by omega)
      (by omega) (by decide), ok_bind, quarter,
    checked_of_within (show -2 ^ 33 ≤ average - maximum / 4 by omega) (by omega)
      (by decide), ok_bind,
    checked_of_within (show -2 ^ 62 ≤ _ by omega) (by omega) (by decide),
    ok_bind]
  exact checkedDiv_of_within positive scaled.1 scaled.2 (by decide)

/-- The bounds of the reserve ratio. -/
def RatioInBounds (ratio : Int) : Prop :=
  reserveRatioPrecision ≤ ratio ∧
    ratio ≤ maxReserveRatio * reserveRatioPrecision

theorem product_within
    (bounds : RatioInBounds ratio)
    (low : -1310730000 ≤ distance)
    (high : distance ≤ 1310730000) :
    checked (ratio * distance) = .ok (ratio * distance) := by
  rcases bounds with ⟨atLeast, atMost⟩
  unfold reserveRatioPrecision at atLeast
  have limit : ratio ≤ 200000000 := atMost
  have nonneg : 0 ≤ ratio := by
    omega
  have lower := Int.mul_le_mul_of_nonneg_left low nonneg
  have upper := Int.mul_le_mul_of_nonneg_left high nonneg
  exact checked_of_within (show -2 ^ 62 ≤ ratio * distance by omega)
    (by omega) (by decide)

/-- A ratio falls by no more than itself. -/
theorem adjustRatio_falls
    (bounds : RatioInBounds ratio)
    (positive : 0 < distance)
    (high : distance ≤ 1310730000) :
    ∃ after, adjustRatio ratio distance = .ok after ∧ RatioInBounds after := by
  have product := product_within bounds (by omega) high
  rcases bounds with ⟨atLeast, atMost⟩
  have nonneg : 0 ≤ ratio := by
    unfold reserveRatioPrecision at atLeast
    omega
  have limit : ratio ≤ 200000000 := atMost
  have some : 0 ≤ ratio * distance :=
    Int.mul_nonneg nonneg (Int.le_of_lt positive)
  have part : ratio * distance ≤ ratio * (distance + 10000) :=
    Int.mul_le_mul_of_nonneg_left (by omega) nonneg
  have divisor : 0 < distance + 10000 := by
    omega
  have less : -(ratio * (distance + 10000)) ≤ ratio * distance := by
    omega
  have cut := tdiv_within divisor less part
  have cutNonneg : 0 ≤ (ratio * distance).tdiv (distance + 10000) :=
    Int.tdiv_nonneg some (Int.le_of_lt divisor)
  unfold adjustRatio
  rw [product, ok_bind, if_pos positive, distanceCalcPrecision,
    checked_of_within (show -2 ^ 62 ≤ distance + 10000 by omega) (by omega)
      (by decide), ok_bind,
    checkedDiv_of_within divisor less part (by omega), ok_bind,
    checked_of_within
      (show -2 ^ 62 ≤ ratio - (ratio * distance).tdiv (distance + 10000) by
        omega) (by omega) (by decide), ok_bind]
  refine ⟨_, rfl, ?_⟩
  split
  case isTrue => exact ⟨Int.le_refl _, by decide⟩
  case isFalse enough => exact ⟨Int.not_lt.1 enough, by omega⟩

/-- A ratio rises by no more than itself and the least increment. -/
theorem adjustRatio_rises
    (bounds : RatioInBounds ratio)
    (nonpos : ¬ 0 < distance)
    (low : -1310730000 ≤ distance) :
    ∃ after, adjustRatio ratio distance = .ok after ∧ RatioInBounds after := by
  have product := product_within bounds low (by omega)
  rcases bounds with ⟨atLeast, atMost⟩
  have nonneg : 0 ≤ ratio := by
    unfold reserveRatioPrecision at atLeast
    omega
  have limit : ratio ≤ 200000000 := atMost
  have turned : (ratio * distance).tdiv (distance - 10000) =
      (ratio * -distance).tdiv (-distance + 10000) := by
    rw [show distance - 10000 = -(-distance + 10000) by omega, Int.tdiv_neg,
      Int.mul_neg, Int.neg_tdiv]
  have some : 0 ≤ ratio * -distance := Int.mul_nonneg nonneg (by omega)
  have part : ratio * -distance ≤ ratio * (-distance + 10000) :=
    Int.mul_le_mul_of_nonneg_left (by omega) nonneg
  have divisor : 0 < -distance + 10000 := by
    omega
  have growth := tdiv_within divisor
    (show -(ratio * (-distance + 10000)) ≤ ratio * -distance by omega) part
  have growthNonneg : 0 ≤ (ratio * -distance).tdiv (-distance + 10000) :=
    Int.tdiv_nonneg some (Int.le_of_lt divisor)
  have increment : 0 ≤ max reserveRatioMinIncrement
        ((ratio * -distance).tdiv (-distance + 10000)) ∧
      max reserveRatioMinIncrement
        ((ratio * -distance).tdiv (-distance + 10000)) ≤ 200000000 := by
    unfold reserveRatioMinIncrement
    omega
  have divides : checkedDiv (ratio * distance) (distance - 10000) =
      .ok ((ratio * -distance).tdiv (-distance + 10000)) := by
    rw [checkedDiv, require_pos (by omega), turned]
    exact checked_of_within growth.1 growth.2 (by omega)
  unfold adjustRatio
  rw [product, ok_bind, if_neg nonpos, distanceCalcPrecision,
    checked_of_within (show -2 ^ 62 ≤ distance - 10000 by omega) (by omega)
      (by decide), ok_bind, divides, ok_bind,
    checked_of_within (show -2 ^ 62 ≤ ratio + _ by omega) (by omega)
      (by decide), ok_bind]
  refine ⟨_, rfl, ?_⟩
  split
  case isTrue => exact ⟨by decide, Int.le_refl _⟩
  case isFalse few => exact ⟨by omega, Int.not_lt.1 few⟩

/-- The ratio is adjusted without an overflow and stays within its bounds. -/
theorem adjustRatio_returns
    (bounds : RatioInBounds ratio)
    (low : -1310730000 ≤ distance)
    (high : distance ≤ 1310730000) :
    ∃ after, adjustRatio ratio distance = .ok after ∧ RatioInBounds after := by
  by_cases positive : 0 < distance
  · exact adjustRatio_falls bounds positive high
  · exact adjustRatio_rises bounds positive low

/-! ## The averages of the accounts -/

/-- An average is an amount, and was not updated after the given time. -/
structure BandInBounds (now : Time) (band : AccountBandwidthObject) :
    Prop where
  nonneg : 0 ≤ band.averageBandwidth
  fits : FitsInt64 band.averageBandwidth
  earlier : band.lastBandwidthUpdate ≤ now

theorem uint128_product
    {first second : Int}
    (firstNonneg : 0 ≤ first)
    (firstFits : FitsInt64 first)
    (secondNonneg : 0 ≤ second)
    (secondFits : FitsInt64 second) :
    ((uint128 first * uint128 second % 2 ^ 128 : Nat) : Int) =
      first * second := by
  have left := uint128_eq firstNonneg firstFits
  have right := uint128_eq secondNonneg secondFits
  have small : uint128 first * uint128 second < 2 ^ 63 * 2 ^ 63 := by
    have leftBound := firstFits.2
    have rightBound := secondFits.2
    apply Nat.mul_lt_mul'' <;> omega
  rw [Nat.mod_eq_of_lt (Nat.lt_of_lt_of_le small (by decide)), Nat.cast_mul,
    left, right]

/-- An average only decays. -/
theorem decayedBandwidth_bounds
    {now : Time}
    {band : AccountBandwidthObject}
    (bounds : BandInBounds now band) :
    0 ≤ WitnessPlugin.decayedBandwidth now band := by
  rcases bounds with ⟨nonneg, fits, earlier⟩
  unfold WitnessPlugin.decayedBandwidth
  dsimp only
  split
  case isTrue => exact Int.le_refl _
  case isFalse recent =>
    have window : (bandwidthAverageWindowSeconds : Int) = 604800 := rfl
    have past : (band.lastBandwidthUpdate : Int) ≤ now :=
      Int.ofNat_le.2 earlier
    rw [window] at recent ⊢
    have product := uint128_product
      (show (0 : Int) ≤ 604800 - (now - band.lastBandwidthUpdate) by omega)
      (show FitsInt64 _ by constructor <;> omega) nonneg fits
    have less : (604800 - ((now : Int) - band.lastBandwidthUpdate)) *
        band.averageBandwidth ≤ 604800 * band.averageBandwidth :=
      Int.mul_le_mul_of_nonneg_right (by omega) nonneg
    rw [← product] at less
    have bound := fits.2
    have small : uint128 (604800 - (now - band.lastBandwidthUpdate)) *
          uint128 band.averageBandwidth % 2 ^ 128 /
        bandwidthAverageWindowSeconds < 2 ^ 63 := by
      rw [Nat.div_lt_iff_lt_mul (by decide)]
      have same : bandwidthAverageWindowSeconds = 604800 := rfl
      omega
    rw [wrapInt64_toUint64 small]
    exact Int.natCast_nonneg _

theorem trxBandwidth_nonneg
    {trxSize : Nat}
    (fits : trxSize < 2 ^ 32) :
    0 ≤ WitnessPlugin.trxBandwidth trxSize := by
  have small : trxSize * bandwidthPrecision < 2 ^ 63 := by
    unfold bandwidthPrecision
    omega
  unfold WitnessPlugin.trxBandwidth
  rw [Nat.mod_eq_of_lt (Nat.lt_trans small (by decide)), wrapInt64_eq small]
  exact Int.natCast_nonneg _

/-! ## The plugin stays within its bounds -/

/-- The bounds of all objects of the plugin. -/
structure WithinBounds (now : Time) (plugin : WitnessPlugin) : Prop where
  size : ∀ reserve, plugin.reserve = some reserve →
    FitsInt32 reserve.averageBlockSize
  ratio : ∀ reserve, plugin.reserve = some reserve →
    RatioInBounds reserve.currentReserveRatio
  bandwidths : plugin.bandwidths.All (BandInBounds now)

/-- What the database offers to the plugin, at no earlier time than before. -/
structure Legal (now : Time) (db : Database) : Prop where
  later : now ≤ db.headBlockTime
  accepted : ∃ props : ChainProperties, props.validate = .ok () ∧
    props.maximumBlockSize = db.props.maximumBlockSize
  sizeFits : db.props.maximumBlockSize < 2 ^ 32
  sharesFit : FitsInt64 db.props.totalVestingShares

theorem Legal.atLeast
    {now : Time}
    (legal : Legal now db) :
    minBlockSizeLimit ≤ db.props.maximumBlockSize := by
  rcases legal.accepted with ⟨props, valid, same⟩
  simp only [ChainProperties.validate, bind_eq_ok_iff, require_eq_ok_iff]
    at valid
  rcases valid with ⟨-, -, atLeast⟩
  rw [← same]
  exact atLeast

theorem Legal.after
    {now time : Time}
    (legal : Legal now db)
    (later : time ≤ db.headBlockTime) :
    Legal time db :=
  ⟨later, legal.accepted, legal.sizeFits, legal.sharesFit⟩

theorem WithinBounds.later
    {now later : Time}
    {plugin : WitnessPlugin}
    (bounds : WithinBounds now plugin)
    (earlier : now ≤ later) :
    WithinBounds later plugin where
  size := bounds.size
  ratio := bounds.ratio
  bandwidths id band found :=
    have old := bounds.bandwidths id band found
    ⟨old.nonneg, old.fits, Nat.le_trans old.earlier earlier⟩

namespace WitnessPlugin

/-- `on_block` returns, without a fault. -/
theorem onBlock_returns
    {now : Time}
    {plugin : WitnessPlugin}
    (bounds : WithinBounds now plugin)
    (legal : Legal now db)
    (packSize : Nat) :
    ∃ after, plugin.onBlock db packSize = .ok after ∧
      WithinBounds now after := by
  unfold onBlock
  split
  case h_1 =>
    refine ⟨_, rfl, ?_, ?_, bounds.bandwidths⟩
    · rintro _ ⟨⟩
      exact ⟨by decide, by decide⟩
    · rintro _ ⟨⟩
      exact ⟨by decide, Int.le_refl _⟩
  case h_2 reserve held =>
    dsimp only
    have fits := fitsInt32_nextBlockSize reserve.averageBlockSize packSize
    split
    case isTrue =>
      have sizeFits := legal.sizeFits
      rcases usageDistance_returns (Int.ofNat_le.2 legal.atLeast)
        (show (db.props.maximumBlockSize : Int) < 2 ^ 32 by omega) fits with
        ⟨distance, measured, low, high⟩
      rcases adjustRatio_returns (bounds.ratio reserve held) low high with
        ⟨ratio, adjusted, within⟩
      rw [measured, ok_bind, adjusted]
      refine ⟨_, rfl, ?_, ?_, bounds.bandwidths⟩
      · rintro _ ⟨⟩
        exact fits
      · rintro _ ⟨⟩
        exact within
    case isFalse =>
      refine ⟨_, rfl, ?_, ?_, bounds.bandwidths⟩
      · rintro _ ⟨⟩
        exact fits
      · rintro _ ⟨⟩
        exact bounds.ratio reserve held

section Charges

variable {now : Time} {plugin : WitnessPlugin} {account : AccountName}
    {type : BandwidthType} {trxSize : Nat}

open Effect

theorem perform_attempt
    (result : Except Fault Value)
    (plugin : WitnessPlugin) :
    perform (attempt result) plugin = (result.mapError Thrown.other, plugin) :=
  rfl

theorem leaves_attempt
    {result : Except Fault Value}
    (bounds : WithinBounds now plugin) :
    Leaves (WithinBounds now)
      (fun value after => result = .ok value ∧ after = plugin)
      (perform (attempt result) plugin) := by
  rw [perform_attempt]
  cases result with
  | error fault => exact .error bounds
  | ok value => exact .ok bounds ⟨rfl, rfl⟩

/-- The object which is found or made. -/
theorem leaves_findBandwidth
    (bounds : WithinBounds now plugin) :
    Leaves (WithinBounds now)
      (fun entry after => after.bandwidths.find? entry.1 = some entry.2 ∧
        entry.2.account = account ∧ entry.2.type = type)
      (perform (findBandwidth account type) plugin) := by
  unfold findBandwidth
  rw [perform_bind_ok (perform_get plugin)]
  split
  case h_1 entry found =>
    have passed := Table.passed_of_findBy found
    rw [decide_eq_true_iff] at passed
    exact .ok bounds ⟨Table.find?_of_findBy found, passed⟩
  case h_2 =>
    rw [perform_bind_ok (perform_set _ plugin)]
    refine .ok ?_ ⟨?_, rfl, rfl⟩
    · refine ⟨bounds.size, bounds.ratio, bounds.bandwidths.emplace ?_⟩
      exact ⟨Int.le_refl _, show FitsInt64 0 by decide, Nat.zero_le _⟩
    · rw [Table.find?_emplace]
      exact if_pos rfl

theorem leaves_setBandwidth
    {id : Nat}
    {old band : AccountBandwidthObject}
    (bounds : WithinBounds now plugin)
    (found : plugin.bandwidths.find? id = some old)
    (within : BandInBounds now band) :
    Leaves (WithinBounds now)
      (fun _ after => after.bandwidths.find? id = some band ∧
        after.reserve = plugin.reserve)
      (perform (setBandwidth id band) plugin) := by
  unfold setBandwidth
  rw [perform_bind_ok (perform_get plugin), perform_set]
  refine .ok ?_ ⟨?_, rfl⟩
  · exact ⟨bounds.size, bounds.ratio, bounds.bandwidths.set within id⟩
  · rw [Table.find?_set found]
    exact if_pos rfl

/-- A charge leaves an average which is an amount, also when it throws. -/
theorem leaves_chargeBandwidth
    (bounds : WithinBounds now plugin)
    (fits : trxSize < 2 ^ 32) :
    Leaves (WithinBounds now)
      (fun band after => after.bandwidths.Holds band ∧
        band.account = account ∧ band.type = type)
      (perform (chargeBandwidth now account trxSize type) plugin) := by
  refine (leaves_findBandwidth bounds).bind ?_
  rintro ⟨id, band⟩ plugin bounds ⟨found, named, typed⟩
  have old := bounds.bandwidths id band found
  refine (leaves_attempt bounds).bind ?_
  rintro average _ - ⟨added, rfl⟩
  rcases checked_eq_ok_iff.1 added with ⟨averageFits, sum⟩
  rw [sum] at averageFits
  have averageNonneg : 0 ≤ average := by
    rw [← sum]
    exact Int.add_nonneg (decayedBandwidth_bounds old) (trxBandwidth_nonneg fits)
  have half : BandInBounds now { band with averageBandwidth := average } :=
    ⟨averageNonneg, averageFits, old.earlier⟩
  refine (leaves_setBandwidth bounds found half).bind ?_
  rintro _ plugin bounds ⟨found, -⟩
  refine (leaves_attempt bounds).bind ?_
  rintro lifetime _ - ⟨-, rfl⟩
  have whole : BandInBounds now
      { band with
        averageBandwidth := average
        lifetimeBandwidth := lifetime
        lastBandwidthUpdate := now } :=
    ⟨averageNonneg, averageFits, Nat.le_refl now⟩
  refine (leaves_setBandwidth bounds found whole).bind ?_
  rintro _ plugin bounds ⟨found, -⟩
  exact .ok bounds ⟨⟨id, found⟩, named, typed⟩

end Charges

/-- A verdict is the comparison of what the objects hold after the charge. -/
theorem leaves_judgeBandwidth
    {plugin : WitnessPlugin}
    {account : AccountObject}
    {trxSize : Nat}
    {type : BandwidthType}
    (bounds : WithinBounds db.headBlockTime plugin)
    (fits : trxSize < 2 ^ 32) :
    Effect.Leaves (WithinBounds db.headBlockTime)
      (fun has after => ∃ band reserve vshares,
        after.bandwidths.Holds band ∧ band.account = account.name ∧
          band.type = type ∧ after.reserve = some reserve ∧
            account.effectiveVestingShares = .ok vshares ∧
              has = hasBandwidth vshares db.props.totalVestingShares
                band.averageBandwidth reserve.maxVirtualBandwidth)
      (Effect.perform (judgeBandwidth db account trxSize type) plugin) := by
  refine (leaves_chargeBandwidth bounds fits).bind ?_
  rintro band plugin bounds ⟨holds, named, typed⟩
  refine (leaves_attempt bounds).bind ?_
  rintro vshares _ - ⟨effective, rfl⟩
  rw [Effect.perform_bind_ok (Effect.perform_get _)]
  refine (leaves_attempt bounds).bind ?_
  rintro reserve _ - ⟨found, rfl⟩
  exact .ok bounds ⟨band, reserve, vshares, holds, named, typed,
    orFault_eq_ok_iff.1 found, effective, rfl⟩

theorem leaves_updateAccountBandwidth
    {plugin : WitnessPlugin}
    {account : AccountObject}
    {trxSize : Nat}
    (producing : Bool)
    (type : BandwidthType)
    (bounds : WithinBounds db.headBlockTime plugin)
    (fits : trxSize < 2 ^ 32) :
    Effect.Leaves (WithinBounds db.headBlockTime) (fun _ _ => True)
      (Effect.perform
        (updateAccountBandwidth db producing account trxSize type) plugin) := by
  unfold updateAccountBandwidth
  split
  case isFalse => exact .ok bounds trivial
  case isTrue =>
    refine (leaves_judgeBandwidth bounds fits).bind ?_
    intro has plugin bounds _
    split
    case isTrue => exact .error bounds
    case isFalse => exact .ok bounds trivial

/-! ## Blocks and transactions -/

/-- What the plugin holds after blocks and charges, at the time of the last. -/
inductive Reached : Time → WitnessPlugin → Prop
  | genesis : Reached 0 {}
  | block
      {now : Time}
      {plugin after : WitnessPlugin}
      (db : Database)
      (packSize : Nat)
      (reached : Reached now plugin)
      (legal : Legal now db)
      (ran : plugin.onBlock db packSize = .ok after) :
      Reached db.headBlockTime after
  | charge
      {now : Time}
      {plugin : WitnessPlugin}
      (db : Database)
      (producing : Bool)
      (account : AccountObject)
      (trxSize : Nat)
      (type : BandwidthType)
      (reached : Reached now plugin)
      (legal : Legal now db)
      (fits : trxSize < 2 ^ 32) :
      Reached db.headBlockTime
        (Effect.perform
          (updateAccountBandwidth db producing account trxSize type) plugin).2

theorem Reached.withinBounds
    {now : Time}
    {plugin : WitnessPlugin}
    (reached : Reached now plugin) :
    WithinBounds now plugin := by
  induction reached with
  | genesis =>
      refine ⟨?_, ?_, Table.All.empty⟩
      · rintro _ ⟨⟩
      · rintro _ ⟨⟩
  | block db packSize reached legal ran induction =>
      rcases onBlock_returns (induction.later legal.later)
        (legal.after (Nat.le_refl _)) packSize with ⟨after, returned, bounds⟩
      cases ran.symm.trans returned
      exact bounds
  | charge db producing account trxSize type reached legal fits induction =>
      exact (leaves_updateAccountBandwidth producing type
        (induction.later legal.later) fits).1

/-- The plugin was reached not before one time and not after another. -/
def ReachedBetween (now later : Time) (plugin : WitnessPlugin) : Prop :=
  ∃ time, now ≤ time ∧ time ≤ later ∧ Reached time plugin

/-- A transaction charges one account after another. -/
theorem leaves_preTransaction
    {now : Time}
    {plugin : WitnessPlugin}
    (legal : Legal now db)
    (producing : Bool)
    (trx : SignedTransaction)
    (reached : ReachedBetween now db.headBlockTime plugin) :
    Effect.Leaves (ReachedBetween now db.headBlockTime) (fun _ _ => True)
      (Effect.perform (preTransaction wire db producing trx) plugin) := by
  have charge : ∀ account trxSize type plugin, trxSize < 2 ^ 32 →
      ReachedBetween now db.headBlockTime plugin →
      Effect.Leaves (ReachedBetween now db.headBlockTime) (fun _ _ => True)
        (Effect.perform
          (updateAccountBandwidth db producing account trxSize type)
          plugin) := by
    rintro account trxSize type plugin fits ⟨time, first, last, reached⟩
    have charged := Reached.charge db producing account trxSize type reached
      (legal.after last) fits
    exact ⟨⟨_, legal.later, Nat.le_refl _, charged⟩, fun _ _ => trivial⟩
  refine Effect.Leaves.forM reached ?_
  intro auth _ plugin reached
  unfold chargeAccount
  have known : Effect.Leaves (ReachedBetween now db.headBlockTime)
      (fun _ _ => True)
      (Effect.perform (attempt (db.getAccount auth)) plugin) :=
    ⟨reached, fun _ _ => trivial⟩
  refine known.bind ?_
  intro account plugin reached _
  have narrow : ∀ size : Nat, size % 2 ^ 32 < 2 ^ 32 := fun size =>
    Nat.mod_lt _ (by decide)
  refine (charge account _ .forum plugin (narrow _) reached).bind ?_
  intro _ plugin reached _
  split
  case isTrue => exact charge account _ .market plugin (narrow _) reached
  case isFalse => exact .ok reached trivial

/-- After a transaction which is not refused the plugin is reached. -/
theorem reached_tryNotify
    {now : Time}
    {plugin after : WitnessPlugin}
    {producing : Bool}
    {trx : SignedTransaction}
    (reached : Reached now plugin)
    (legal : Legal now db)
    (ran : tryNotify (preTransaction wire db producing trx) plugin = .ok after) :
    ReachedBetween now db.headBlockTime after := by
  have left := (@leaves_preTransaction wire _ _ _ legal producing trx
    ⟨now, Nat.le_refl now, legal.later, reached⟩).1
  unfold tryNotify at ran
  generalize Effect.perform (preTransaction wire db producing trx) plugin =
    outcome at left ran
  rcases outcome with ⟨(_ | _) | _, state⟩
  · cases ran
  · cases ran
    exact left
  · cases ran
    exact left

/-! ## The comparison -/

/--
The verdict is that of the products themselves where the product of the shares
stays below 128 bits, or what is left of it is large enough.
-/
theorem hasBandwidth_exact_iff
    {vshares total average : Int}
    {maxVirtualBandwidth : Nat}
    (vsharesNonneg : 0 ≤ vshares)
    (vsharesFits : vshares ≤ maxShareSupply)
    (totalPositive : 0 < total)
    (totalFits : FitsInt64 total)
    (averageNonneg : 0 ≤ average)
    (averageFits : FitsInt64 average) :
    ((hasBandwidth vshares total average maxVirtualBandwidth = true ↔
        average * total < vshares * maxVirtualBandwidth) ↔
      vshares * maxVirtualBandwidth < 2 ^ 128 ∨
        average * total < vshares * maxVirtualBandwidth % 2 ^ 128) := by
  have needed := uint128_product averageNonneg averageFits
    (Int.le_of_lt totalPositive) totalFits
  have shares : (uint128 vshares : Int) = vshares := by
    refine uint128_eq vsharesNonneg ⟨by omega, ?_⟩
    unfold maxShareSupply at vsharesFits
    omega
  have offered : ((uint128 vshares * maxVirtualBandwidth % 2 ^ 128 : Nat) :
      Int) = vshares * maxVirtualBandwidth % 2 ^ 128 := by
    rw [Int.natCast_emod, Nat.cast_mul, shares]
    rfl
  have small : average * total < 2 ^ 63 * 2 ^ 63 := by
    refine Int.mul_lt_mul averageFits.2 (Int.le_of_lt totalFits.2)
      totalPositive (by decide)
  have some : 0 ≤ vshares * maxVirtualBandwidth :=
    Int.mul_nonneg vsharesNonneg (Int.natCast_nonneg _)
  unfold hasBandwidth
  rw [decide_eq_true_iff, ← Int.ofNat_lt, needed, offered]
  omega

/--
After every run the ratio is within its bounds and `on_block` returns without a
fault.  The verdict on an account is that of the products themselves exactly
where the product of the shares stays below 128 bits, or what is left of it is
large enough.
-/
theorem bandwidth_comparison_exact_iff
    {now : Time}
    {plugin : WitnessPlugin}
    (reached : Reached now plugin) :
    (∀ reserve, plugin.reserve = some reserve →
        RatioInBounds reserve.currentReserveRatio) ∧
      (∀ db packSize, Legal now db →
        ∃ after, plugin.onBlock db packSize = .ok after) ∧
      ∀ db (account : AccountObject) trxSize type has after, Legal now db →
        trxSize < 2 ^ 32 → 0 < db.props.totalVestingShares →
        Effect.perform (judgeBandwidth db account trxSize type) plugin =
          (.ok has, after) →
        ∃ band reserve vshares,
          after.bandwidths.Holds band ∧ band.account = account.name ∧
            band.type = type ∧ after.reserve = some reserve ∧
            account.effectiveVestingShares = .ok vshares ∧
            (0 ≤ vshares → vshares ≤ maxShareSupply →
              ((has = true ↔
                  band.averageBandwidth * db.props.totalVestingShares <
                    vshares * reserve.maxVirtualBandwidth) ↔
                vshares * reserve.maxVirtualBandwidth < 2 ^ 128 ∨
                  band.averageBandwidth * db.props.totalVestingShares <
                    vshares * reserve.maxVirtualBandwidth % 2 ^ 128)) := by
  have bounds := reached.withinBounds
  refine ⟨bounds.ratio, ?_, ?_⟩
  · intro db packSize legal
    rcases onBlock_returns bounds legal packSize with ⟨after, returned, -⟩
    exact ⟨after, returned⟩
  · intro db account trxSize type has after legal fits positive judged
    have left := @leaves_judgeBandwidth db plugin account trxSize type
      (bounds.later legal.later) fits
    rw [judged] at left
    rcases left.2 has rfl with
      ⟨band, reserve, vshares, ⟨id, found⟩, named, typed, held, effective, rfl⟩
    have within := left.1.bandwidths id band found
    refine ⟨band, reserve, vshares, ⟨id, found⟩, named, typed, held, effective,
      ?_⟩
    intro nonneg atMost
    exact hasBandwidth_exact_iff nonneg atMost positive legal.sharesFit
      within.nonneg within.fits

/-- A state with so many vesting shares in total. -/
def vestedState (total : Int) : Database :=
  { initGenesis with
    props := { genesisProps with totalVestingShares := total } }

/-- The plugin after the first block. -/
def startedPlugin : WitnessPlugin where
  reserve := some
    { averageBlockSize := 0
      currentReserveRatio := maxReserveRatio * reserveRatioPrecision
      maxVirtualBandwidth := firstVirtualBandwidth }

theorem legal_vestedState
    (fits : FitsInt64 total)
    {now : Time}
    (later : now ≤ genesisTime) :
    Legal now (vestedState total) where
  later := later
  accepted := ⟨⟨bmt 1000000, maxBlockSize⟩, by decide, rfl⟩
  sizeFits := show maxBlockSize < 2 ^ 32 by decide
  sharesFit := fits

theorem reached_startedPlugin :
    Reached genesisTime startedPlugin :=
  .block (vestedState 0) 0 .genesis
    (legal_vestedState (by decide) (Nat.zero_le _)) rfl

/-- `alice` with so many vesting shares. -/
def vestedAccount (vshares : Int) : AccountObject where
  id := 0
  name := "alice"
  vestingShares := vshares

/-- A thousandth of the shares with a transaction of 2000 bytes. -/
def firstJudged : Except Thrown Bool × WitnessPlugin :=
  Effect.perform (judgeBandwidth (vestedState 1000000000000000)
    (vestedAccount 1000000000000) 2000 .forum) startedPlugin

/-- It is enough after the first block. -/
theorem bandwidth_comparison_exact_iff_first :
    RatioInBounds (maxReserveRatio * reserveRatioPrecision) ∧
      (∃ after, startedPlugin.onBlock (vestedState 1000000000000000) 5000 =
        .ok after) ∧
        ∃ after band, firstJudged = (.ok true, after) ∧
          after.bandwidths.Holds band ∧
            band.averageBandwidth * 1000000000000000 <
              1000000000000 * firstVirtualBandwidth := by
  have legal : Legal genesisTime (vestedState 1000000000000000) :=
    legal_vestedState (by decide) (Nat.le_refl _)
  rcases bandwidth_comparison_exact_iff reached_startedPlugin with
    ⟨ratio, blocks, judges⟩
  have shown : firstJudged.1.toOption = some true ∧
      firstJudged.2.reserve = startedPlugin.reserve := by
    decide +kernel
  rcases ran : firstJudged with ⟨verdict | has, after⟩ <;>
    rw [ran] at shown <;> cases shown.1
  rcases judges _ _ 2000 .forum true after legal (by decide) (by decide) ran with
    ⟨band, reserve, vshares, holds, -, -, held, effective, exact⟩
  cases held.symm.trans shown.2
  cases effective
  exact ⟨ratio _ rfl, blocks _ 5000 legal, after, band, rfl, holds,
    (((exact (by decide) (by decide)).2 (.inl (by decide))).1 rfl :)⟩

/--
A fifth of all shares times the virtual bandwidth exceeds 128 bits, and is taken
for less than what one transaction needs.
-/
theorem bandwidth_comparison_wraps :
    ¬ ∀ (now : Time) (plugin : WitnessPlugin), Reached now plugin →
      ∀ (db : Database) (account : AccountObject) (trxSize : Nat)
        (type : BandwidthType) (has : Bool),
        Legal now db → trxSize < 2 ^ 32 → 0 < db.props.totalVestingShares →
        (Effect.perform (judgeBandwidth db account trxSize type) plugin
          ).1.toOption = some has →
        ∀ band reserve vshares,
          (Effect.perform (judgeBandwidth db account trxSize type) plugin
            ).2.bandwidths.findBy (fun band =>
              band.account = account.name ∧ band.type = type) = some band →
          (Effect.perform (judgeBandwidth db account trxSize type) plugin
            ).2.reserve = some reserve →
          account.effectiveVestingShares = .ok vshares →
          0 ≤ vshares → vshares ≤ maxShareSupply →
          (has = true ↔
            band.2.averageBandwidth * db.props.totalVestingShares <
              vshares * reserve.maxVirtualBandwidth) := by
  intro all
  let db := vestedState 1000000000000000
  let account := vestedAccount 214628673054516
  let band : AccountBandwidthObject :=
    { account := "alice"
      type := .forum
      averageBandwidth := 2000000000
      lifetimeBandwidth := 2000000000
      lastBandwidthUpdate := genesisTime }
  have legal : Legal genesisTime db :=
    legal_vestedState (by decide) (Nat.le_refl _)
  let reserve : ReserveRatioObject :=
    { averageBlockSize := 0
      currentReserveRatio := maxReserveRatio * reserveRatioPrecision
      maxVirtualBandwidth := firstVirtualBandwidth }
  have verdict := all genesisTime startedPlugin reached_startedPlugin db account
    2000 .forum false legal (by decide) (by decide) (by decide +kernel)
    (0, band) reserve 214628673054516 (by decide +kernel) (by decide +kernel)
    (by decide +kernel) (by decide) (by decide)
  exact absurd (verdict.2 (by decide +kernel)) Bool.false_ne_true

end WitnessPlugin

end BMChain.Plugins

import BMChain.State.Cashout

/-!
# The decay of recent claims

The claims of a reward fund decay linearly in the time since the last round of
payouts.  The decay is subtracted without a sign, so it wraps around when it is
greater than the claims, which takes more than the fifteen days over which all
claims decay.
-/

namespace BMChain.State.Database

open BMChain.Foundation BMChain.Protocol

/-- The part of the claims which decays in some seconds. -/
def decayed (claims elapsed : Nat) : Nat :=
  claims * elapsed / recentRsharesDecaySeconds

/-- The decay since the last update is not above the claims. -/
def InTime (fund : RewardFundObject) (now : Time) : Prop :=
  fund.recentClaims * (now - fund.lastUpdate) <
    (fund.recentClaims + 1) * recentRsharesDecaySeconds

/-- A decay in 128 bits, later than the last update. -/
structure Decays (fund : RewardFundObject) (now : Time) : Prop where
  later : fund.lastUpdate < now
  clock : now < 2 ^ 32
  fits : fund.recentClaims * (now - fund.lastUpdate) < 2 ^ 128

section Decay

variable {fund : RewardFundObject} {now : Time}

theorem inTime_iff :
    InTime fund now ↔
      decayed fund.recentClaims (now - fund.lastUpdate) ≤
        fund.recentClaims := by
  unfold InTime decayed
  rw [← Nat.lt_succ_iff, Nat.div_lt_iff_lt_mul (by decide)]

/-- The seconds since the last update, as the source has them. -/
theorem elapsed_eq
    {last : Time}
    (later : last < now)
    (clock : now < 2 ^ 32) :
    uint128 ((now : Int) - last) = now - last := by
  have sum : ((now : Nat) : Int) - ((last : Nat) : Int) =
      ((now - last : Nat) : Int) := (Int.ofNat_sub (Nat.le_of_lt later)).symm
  have small : now - last < 2 ^ 128 :=
    Nat.lt_of_le_of_lt (Nat.sub_le _ _)
      (Nat.lt_trans clock (Nat.pow_lt_pow_right (by decide) (by decide)))
  unfold uint128
  rw [sum]
  exact Nat.mod_eq_of_lt small

theorem Decays.claims
    (decays : Decays fund now) :
    (decayClaims now fund).recentClaims =
      subUint128 fund.recentClaims
        (decayed fund.recentClaims (now - fund.lastUpdate)) := by
  show subUint128 fund.recentClaims (_ % 2 ^ 128 / _) = _
  rw [elapsed_eq decays.later decays.clock, Nat.mod_eq_of_lt decays.fits]
  rfl

theorem Decays.small
    (decays : Decays fund now) :
    fund.recentClaims < 2 ^ 128 ∧
      decayed fund.recentClaims (now - fund.lastUpdate) < 2 ^ 128 := by
  have positive : 0 < now - fund.lastUpdate := Nat.sub_pos_of_lt decays.later
  exact ⟨Nat.lt_of_le_of_lt (Nat.le_mul_of_pos_right _ positive) decays.fits,
    Nat.lt_of_le_of_lt (Nat.div_le_self _ _) decays.fits⟩

/-- In time the decay is subtracted. -/
theorem subUint128_of_le
    {left right : Nat}
    (bound : right ≤ left)
    (small : left < 2 ^ 128) :
    subUint128 left right = left - right := by
  unfold subUint128
  omega

/-- Too late the subtraction wraps around. -/
theorem subUint128_of_lt
    {left right : Nat}
    (above : left < right)
    (small : right < 2 ^ 128) :
    left < subUint128 left right := by
  unfold subUint128
  omega

/-- The claims do not grow exactly when the decay is in time. -/
theorem Decays.not_above_iff
    (decays : Decays fund now) :
    (decayClaims now fund).recentClaims ≤ fund.recentClaims ↔
      InTime fund now := by
  rw [decays.claims, inTime_iff]
  constructor
  · intro bound
    by_contra above
    have grown := subUint128_of_lt (Nat.lt_of_not_le above) decays.small.2
    exact absurd bound (Nat.not_le_of_lt grown)
  · intro bound
    rw [subUint128_of_le bound decays.small.1]
    exact Nat.sub_le _ _

end Decay

/-! ## Two intervals -/

/-- Two decays, one after the other, against the one over both intervals. -/
structure DecaysSafely (fund : RewardFundObject) (first second : Time) :
    Prop where
  firstInterval : (decayClaims first fund).recentClaims ≤ fund.recentClaims
  secondInterval :
    (decayClaims second (decayClaims first fund)).recentClaims ≤
      (decayClaims first fund).recentClaims
  both : (decayClaims second fund).recentClaims ≤ fund.recentClaims
  never : (decayClaims second fund).recentClaims ≤
    (decayClaims second (decayClaims first fund)).recentClaims

section Intervals

variable {fund : RewardFundObject} {first second : Time}

/-- Rounding down twice takes no more than rounding down once. -/
theorem decayed_add
    (claims start rest : Nat) :
    decayed claims start + decayed claims rest ≤
      decayed claims (start + rest) := by
  unfold decayed
  rw [Nat.mul_add]
  exact Nat.div_add_div_le_add_div

theorem decayed_mono
    {claims more : Nat}
    (bound : claims ≤ more)
    (elapsed : Nat) :
    decayed claims elapsed ≤ decayed more elapsed :=
  Nat.div_le_div_right (Nat.mul_le_mul_right _ bound)

theorem decayed_mono_elapsed
    (claims : Nat)
    {elapsed longer : Nat}
    (bound : elapsed ≤ longer) :
    decayed claims elapsed ≤ decayed claims longer :=
  Nat.div_le_div_right (Nat.mul_le_mul_left _ bound)

/-- In time for the later update, the earlier decay and the rest are fine. -/
theorem decaysSafely_of_inTime
    (decays : Decays fund second)
    (opened : fund.lastUpdate < first)
    (next : first < second)
    (inTime : InTime fund second) :
    DecaysSafely fund first second := by
  have whole := inTime_iff.1 inTime
  have split : (second - first) + (first - fund.lastUpdate) =
      second - fund.lastUpdate :=
    Nat.sub_add_sub_cancel (Nat.le_of_lt next) (Nat.le_of_lt opened)
  have shorter : first - fund.lastUpdate ≤ second - fund.lastUpdate :=
    split ▸ Nat.le_add_left _ _
  have rest : second - first ≤ second - fund.lastUpdate :=
    split ▸ Nat.le_add_right _ _
  have firstDecays : Decays fund first :=
    ⟨opened, Nat.lt_trans next decays.clock,
      Nat.lt_of_le_of_lt (Nat.mul_le_mul_left _ shorter) decays.fits⟩
  have firstBound := (decayed_mono_elapsed fund.recentClaims shorter).trans
    whole
  have firstClaims : (decayClaims first fund).recentClaims =
      fund.recentClaims -
        decayed fund.recentClaims (first - fund.lastUpdate) := by
    rw [firstDecays.claims]
    exact subUint128_of_le firstBound decays.small.1
  have fewer : (decayClaims first fund).recentClaims ≤ fund.recentClaims := by
    rw [firstClaims]
    exact Nat.sub_le _ _
  have secondDecays : Decays (decayClaims first fund) second :=
    ⟨next, decays.clock,
      Nat.lt_of_le_of_lt (Nat.mul_le_mul fewer rest) decays.fits⟩
  have parts := decayed_add fund.recentClaims (second - first)
    (first - fund.lastUpdate)
  rw [split] at parts
  have less := decayed_mono fewer (second - first)
  have secondBound : decayed (decayClaims first fund).recentClaims
      (second - first) ≤ (decayClaims first fund).recentClaims := by
    rw [firstClaims] at less ⊢
    omega
  have secondClaims :
      (decayClaims second (decayClaims first fund)).recentClaims =
        (decayClaims first fund).recentClaims -
          decayed (decayClaims first fund).recentClaims (second - first) := by
    rw [secondDecays.claims]
    exact subUint128_of_le secondBound secondDecays.small.1
  have bothClaims : (decayClaims second fund).recentClaims =
      fund.recentClaims -
        decayed fund.recentClaims (second - fund.lastUpdate) := by
    rw [decays.claims]
    exact subUint128_of_le whole decays.small.1
  refine ⟨fewer, ?_, decays.not_above_iff.2 inTime, ?_⟩
  · rw [secondClaims]
    exact Nat.sub_le _ _
  · rw [bothClaims, secondClaims]
    rw [firstClaims] at less ⊢
    omega

/--
One decay leaves no more claims than before, and two decays leave no less than
one over both intervals, exactly when the decay over the whole time is in time.
-/
theorem recent_claims_decay_iff
    (fund : RewardFundObject) :
    (∀ now, Decays fund now →
      ((decayClaims now fund).recentClaims ≤ fund.recentClaims ↔
        InTime fund now)) ∧
    ∀ first second, Decays fund second → fund.lastUpdate < first →
      first < second →
        (DecaysSafely fund first second ↔ InTime fund second) :=
  ⟨fun _ decays => decays.not_above_iff,
    fun _ _ decays opened next =>
      ⟨fun safely => decays.not_above_iff.1 safely.both,
        decaysSafely_of_inTime decays opened next⟩⟩

end Intervals

/-- A fund whose claims are a multiple of the seconds in fifteen days. -/
def claimedFund : RewardFundObject :=
  { name := "post", recentClaims := 1296000, lastUpdate := 1000 }

theorem recent_claims_decay_iff_week :
    (decayClaims 605800 claimedFund).recentClaims ≤
        claimedFund.recentClaims ∧
      DecaysSafely claimedFund 605800 1210600 :=
  ⟨((recent_claims_decay_iff claimedFund).1 605800
      ⟨by decide, by decide, by decide⟩).2 (by unfold InTime; decide),
    ((recent_claims_decay_iff claimedFund).2 605800 1210600
      ⟨by decide, by decide, by decide⟩ (by decide) (by decide)).2
        (by unfold InTime; decide)⟩

/-- One second after the fifteen days the claims wrap around. -/
theorem recent_claims_wrap :
    Decays claimedFund 1297001 ∧
      (decayClaims 1297001 claimedFund).recentClaims = 2 ^ 128 - 1 ∧
      ¬ DecaysSafely claimedFund 605800 1297001 := by
  have wrapped : (decayClaims 1297001 claimedFund).recentClaims =
      2 ^ 128 - 1 := by decide +kernel
  refine ⟨⟨by decide, by decide, by decide⟩, wrapped, ?_⟩
  intro safely
  have bound := safely.both
  rw [wrapped] at bound
  exact absurd bound (by decide)

end BMChain.State.Database

import BMChain.State.CurationRewards
import Mathlib.Data.Nat.Size
import Mathlib.Tactic.Linarith

/-!
# The approximate square root

`approx_sqrt` halves the binary logarithm of a number, taken linear between the
powers of two.  The leading one of a 128-bit number is found in one of its two
words; from it and the bits below it the root is put together as the document
describes.  The result is at most the sixteenth part above the root and less
than one below it.  It grows with the number, and so no vote which adds shares
has a negative weight.
-/

namespace BMChain.State

open BMChain.Foundation BMChain.Protocol Std

variable {x unit rest u : Nat} {db : Database}

/-! ## The leading one -/

/-- `find_msb` of a 128-bit number, which is kept in two words. -/
def findMsb (u : Nat) : Nat :=
  let lo := u % 2 ^ 64
  let hi := u / 2 ^ 64
  let x := if lo ≠ 0 then lo else 1
  let places := if hi ≠ 0 then 64 else 0
  let x := if hi ≠ 0 then hi else x
  (x.log2 + places) % 2 ^ 8

theorem log2_high
    {u places : Nat}
    (high : 2 ^ places ≤ u) :
    u.log2 = (u / 2 ^ places).log2 + places := by
  have unit : 0 < 2 ^ places := Nat.two_pow_pos places
  have above := Nat.log2_self_le (Nat.ne_of_gt (Nat.div_pos high unit))
  have below := Nat.lt_log2_self (n := u / 2 ^ places)
  rw [Nat.log2_eq_iff (Nat.ne_of_gt (Nat.lt_of_lt_of_le unit high))]
  constructor
  · calc 2 ^ ((u / 2 ^ places).log2 + places)
        = 2 ^ (u / 2 ^ places).log2 * 2 ^ places := Nat.pow_add ..
      _ ≤ u / 2 ^ places * 2 ^ places := Nat.mul_le_mul_right _ above
      _ ≤ u := Nat.div_mul_le_self u _
  · calc u
        < (u / 2 ^ places + 1) * 2 ^ places := by
          rw [Nat.succ_mul]
          exact Nat.lt_div_mul_add unit
      _ ≤ 2 ^ ((u / 2 ^ places).log2 + 1) * 2 ^ places :=
          Nat.mul_le_mul_right _ below
      _ = 2 ^ ((u / 2 ^ places).log2 + places + 1) := by
          rw [← Nat.pow_add, Nat.add_right_comm]

/-- The leading one is found, in whichever word it is. -/
theorem findMsb_eq
    (positive : 0 < u)
    (small : u < 2 ^ 128) :
    findMsb u = u.log2 := by
  have bits : u.log2 < 128 := (Nat.log2_lt (by omega)).2 small
  unfold findMsb
  dsimp only
  by_cases high : u / 2 ^ 64 = 0
  · have low : u % 2 ^ 64 = u := by omega
    rw [low, if_pos (Nat.ne_of_gt positive), if_neg (not_not.2 high),
      if_neg (not_not.2 high), Nat.add_zero]
    omega
  · rw [if_pos high, if_pos high, ← log2_high (by omega)]
    omega

/-! ## The document's root -/

/-- `approx_sqrt_v1` of `sqrt.md`, over numbers of any size. -/
def approxSqrtV1 (x : Nat) : Nat :=
  if x ≤ 1 then x
  else
    let msbX := x.size - 1
    let msbZ := msbX >>> 1
    let msbXBit := 1 <<< msbX
    let msbZBit := 1 <<< msbZ
    let mantissaMask := msbXBit - 1
    let mantissaX := x &&& mantissaMask
    let mantissaZHi := if msbX &&& 1 ≠ 0 then msbZBit else 0
    let mantissaZLo := mantissaX >>> (msbX - msbZ)
    let mantissaZ := (mantissaZHi ||| mantissaZLo) >>> 1
    msbZBit ||| mantissaZ

theorem size_eq_log2
    (positive : 0 < x) :
    x.size = x.log2 + 1 := by
  refine Nat.le_antisymm ?_ ?_
  · exact Nat.size_le.2 Nat.lt_log2_self
  · exact Nat.lt_size.2 (Nat.log2_self_le (Nat.ne_of_gt positive))

/-- The code and the document compute the same root. -/
theorem approxSqrt_eq_v1
    (small : x < 2 ^ 128) :
    approxSqrt x = approxSqrtV1 x := by
  by_cases tiny : x ≤ 1
  · rw [approxSqrtV1, if_pos tiny]
    rcases Nat.le_one_iff_eq_zero_or_eq_one.1 tiny with rfl | rfl <;> decide
  have low := lowBits_lt x
  have bits : x.log2 < 128 := (Nat.log2_lt (by omega)).2 small
  have short : 2 ^ (x.log2 / 2) ≤ 2 ^ 63 :=
    Nat.pow_le_pow_right (by decide) (by omega)
  have odd : (x.log2 % 2 ≠ 0) = (x.log2 % 2 = 1) := by
    rw [eq_iff_iff]
    omega
  rw [approxSqrt, approxSqrtV1, if_neg tiny, if_neg (by omega),
    size_eq_log2 (by omega)]
  simp only [Nat.add_sub_cancel, Nat.shiftRight_eq_div_pow, Nat.pow_one,
    Nat.one_shiftLeft, Nat.and_two_pow_sub_one_eq_mod, Nat.and_one_is_mod, odd]
  rw [Nat.mod_eq_of_lt (Nat.lt_of_lt_of_le low (by omega))]

/-! ## The distance from the root -/

/-- With an even place of its leading one, a number and its root. -/
theorem bounds_even
    (positive : 0 < unit)
    (less : rest < unit * unit) :
    let root := unit + rest / unit / 2
    8 * (root * root) ≤ 9 * (unit * unit + rest) ∧
      unit * unit + rest < (root + 1) * (root + 1) := by
  intro root
  have whole : rest / unit / 2 = rest / (2 * unit) := by
    rw [Nat.div_div_eq_div_mul, Nat.mul_comm]
  have lower := Nat.div_mul_le_self rest (2 * unit)
  have upper := Nat.lt_div_mul_add (a := rest) (show 0 < 2 * unit by omega)
  rw [← whole] at lower upper
  show 8 * ((unit + rest / unit / 2) * (unit + rest / unit / 2)) ≤ _ ∧
    _ < (unit + rest / unit / 2 + 1) * (unit + rest / unit / 2 + 1)
  generalize rest / unit / 2 = bits at lower upper
  have half : 2 * bits ≤ unit := by
    by_contra large
    nlinarith
  constructor <;> nlinarith

/-- With an odd place of its leading one, a number and its root. -/
theorem bounds_odd
    (positive : 0 < unit)
    (less : rest < 2 * (unit * unit)) :
    let root := unit + (unit + rest / (2 * unit)) / 2
    8 * (root * root) ≤ 9 * (2 * (unit * unit) + rest) ∧
      2 * (unit * unit) + rest < (root + 1) * (root + 1) := by
  intro root
  have lower := Nat.div_mul_le_self rest (2 * unit)
  have upper := Nat.lt_div_mul_add (a := rest) (show 0 < 2 * unit by omega)
  show 8 * ((unit + (unit + rest / (2 * unit)) / 2) *
      (unit + (unit + rest / (2 * unit)) / 2)) ≤ _ ∧
    _ < (unit + (unit + rest / (2 * unit)) / 2 + 1) *
      (unit + (unit + rest / (2 * unit)) / 2 + 1)
  generalize rest / (2 * unit) = bits at lower upper
  have small : bits < unit := by
    by_contra large
    nlinarith
  have down : 2 * ((unit + bits) / 2) ≤ unit + bits := by omega
  have up : unit + bits ≤ 2 * ((unit + bits) / 2) + 1 := by omega
  generalize (unit + bits) / 2 = half at down up
  constructor
  · have square : (2 * unit + 2 * half) * (2 * unit + 2 * half) ≤
        (3 * unit + bits) * (3 * unit + bits) :=
      Nat.mul_le_mul (by omega) (by omega)
    nlinarith
  · have square : (3 * unit + bits + 1) * (3 * unit + bits + 1) ≤
        (2 * (unit + half + 1)) * (2 * (unit + half + 1)) :=
      Nat.mul_le_mul (by omega) (by omega)
    have gap : 2 * unit * (bits + 1) ≤
        unit * unit + (bits + 1) * (bits + 1) := by
      rw [← sq, ← sq]
      exact two_mul_le_add_sq unit (bits + 1)
    nlinarith

/-- The root is never much too large and never one too small. -/
theorem approxSqrt_bounds
    (positive : 0 < x)
    (small : x < 2 ^ 128) :
    8 * (approxSqrt x * approxSqrt x) ≤ 9 * x ∧
      x < (approxSqrt x + 1) * (approxSqrt x + 1) := by
  have above := Nat.log2_self_le (Nat.ne_of_gt positive)
  have below := Nat.lt_log2_self (n := x)
  rw [Nat.pow_succ] at below
  have rest := mod_leading positive
  rw [approxSqrt_eq positive small, rootMantissa]
  by_cases odd : x.log2 % 2 = 1
  · have square : 2 ^ x.log2 =
        2 * (2 ^ (x.log2 / 2) * 2 ^ (x.log2 / 2)) := by
      rw [← Nat.pow_add, ← Nat.pow_succ']
      congr 1
      omega
    have step : 2 ^ (x.log2 - x.log2 / 2) = 2 * 2 ^ (x.log2 / 2) := by
      rw [← Nat.pow_succ']
      congr 1
      omega
    have bounds := @bounds_odd (2 ^ (x.log2 / 2)) (x % 2 ^ x.log2)
      (Nat.two_pow_pos _)
      (by rw [← square]; exact Nat.mod_lt _ (Nat.two_pow_pos _))
    rw [if_pos odd, step]
    rwa [← square, rest, Nat.add_sub_cancel' above, ← rest] at bounds
  · have square : 2 ^ x.log2 = 2 ^ (x.log2 / 2) * 2 ^ (x.log2 / 2) := by
      rw [← Nat.pow_add]
      congr 1
      omega
    have step : 2 ^ (x.log2 - x.log2 / 2) = 2 ^ (x.log2 / 2) := by
      congr 1
      omega
    have bounds := @bounds_even (2 ^ (x.log2 / 2)) (x % 2 ^ x.log2)
      (Nat.two_pow_pos _)
      (by rw [← square]; exact Nat.mod_lt _ (Nat.two_pow_pos _))
    rw [if_neg odd, step, Nat.zero_add]
    rwa [← square, rest, Nat.add_sub_cancel' above, ← rest] at bounds

/-! ## The weights of votes -/

namespace Database

/--
However many shares a comment gets on top of those for it, the weight of the
old shares is not above that of the new ones, under the curve of any fund.
-/
def WeighsUpward (ext : External) (db : Database) : Prop :=
  ∀ id comment place fund upvotes,
    db.comments.find? id = some comment →
    db.rewardFunds.find? place = some fund →
    comment.voteRshares ≤ upvotes →
    FitsInt64 upvotes →
      ∃ oldWeight newWeight,
        evaluateRewardCurve ext (uint128 comment.voteRshares)
            fund.curationRewardCurve fund.contentConstant = .ok oldWeight ∧
          evaluateRewardCurve ext (uint128 upvotes)
            fund.curationRewardCurve fund.contentConstant = .ok newWeight ∧
          toUint64 oldWeight ≤ toUint64 newWeight

/-- Every first vote weighs no more than the weight it adds to its comment. -/
def VotesWeighUpward (ext : External) (db : Database) : Prop :=
  ∀ op voter id comment power after,
    db.comments.find? id = some comment →
    db.castVote ext op voter id comment power = .ok after →
      ∃ full upvotes, VoteWeighed db after id comment full upvotes

theorem WeightsHold.weighsUpward
    (holds : WeightsHold db)
    (curved : db.RootCurved)
    (ext : External) :
    db.WeighsUpward ext := by
  intro id comment place fund upvotes found funded more fits
  have weighed := holds.holds id comment found
  have nonneg : 0 ≤ comment.voteRshares := weighed.nonneg
  refine ⟨approxSqrt (uint128 comment.voteRshares),
    approxSqrt (uint128 upvotes), ?_, ?_, ?_⟩
  · rw [(curved place fund funded).1]
    rfl
  · rw [(curved place fund funded).1]
    rfl
  · have before := @evaluateRewardCurve_root ext _ fund.contentConstant _
      nonneg weighed.fits rfl
    have later := @evaluateRewardCurve_root ext _ fund.contentConstant _
      (Int.le_trans nonneg more) fits rfl
    rw [before, later]
    exact rootWeight_mono more fits

theorem WeightsHold.votesWeighUpward
    (holds : WeightsHold db)
    (curved : db.RootCurved)
    (ext : External) :
    db.VotesWeighUpward ext := by
  intro op voter id comment power after found done
  have weighed := holds.holds id comment found
  exact castVote_weighed curved found weighed.aged weighed.nonneg weighed.fits
    done

end Database

/--
The approximate square root of a 128-bit number is that of the document, grows
with the number and stays within the ninth eighth of its square; in no state of
a run does a vote which adds shares to a comment take a larger weight from a
smaller one.
-/
theorem approximate_root :
    (∀ x, 0 < x → x < 2 ^ 128 → findMsb x = x.log2) ∧
      (∀ x, x < 2 ^ 128 → approxSqrt x = approxSqrtV1 x) ∧
      (∀ x y, x ≤ y → y < 2 ^ 128 → approxSqrt x ≤ approxSqrt y) ∧
      (∀ x, 0 < x → x < 2 ^ 128 →
        8 * (approxSqrt x * approxSqrt x) ≤ 9 * x ∧
          x < (approxSqrt x + 1) * (approxSqrt x + 1)) ∧
      (∀ ext constant x y, x ≤ y → y < 2 ^ 128 →
        ∃ low high,
          evaluateRewardCurve ext x .squareRoot constant = .ok low ∧
            evaluateRewardCurve ext y .squareRoot constant = .ok high ∧
            low ≤ high) ∧
      (∀ ext block db, RunState ext (fun _ _ => True) block db →
        db.WeighsUpward ext ∧ db.VotesWeighUpward ext) := by
  refine ⟨fun x => findMsb_eq, fun x => approxSqrt_eq_v1,
    fun x y => approxSqrt_mono, fun x => approxSqrt_bounds, ?_, ?_⟩
  · intro ext constant x y less small
    exact ⟨_, _, rfl, rfl, approxSqrt_mono less small⟩
  · intro ext block db run
    have holds := Database.weightsHold_run run
    exact ⟨holds.1.weighsUpward holds.2 ext,
      holds.1.votesWeighUpward holds.2 ext⟩

/-- Ten, its root, and a post with one vote. -/
theorem approximate_root_one_vote :
    (8 * (approxSqrt 10 * approxSqrt 10) ≤ 9 * 10 ∧
        10 < (approxSqrt 10 + 1) * (approxSqrt 10 + 1)) ∧
      ∃ db, [Event.operation (samplePost initMinerName),
          .beginBlock firstHeader, .finishBlock firstHeader,
          .operation (sampleVote "devs" 10000)].foldlM
            (Database.step plainExternal) initGenesis = .ok db ∧
        db.WeighsUpward plainExternal ∧ db.VotesWeighUpward plainExternal := by
  refine ⟨approximate_root.2.2.2.1 10 (by decide) (by decide), ?_⟩
  have ran : ([Event.operation (samplePost initMinerName),
      .beginBlock firstHeader, .finishBlock firstHeader,
      .operation (sampleVote "devs" 10000)].foldlM
        (Database.step plainExternal) initGenesis).isOk = true := by
    decide +kernel
  rcases exists_of_isOk ran with ⟨db, done⟩
  have phases : Phases [.operation (samplePost initMinerName),
      .beginBlock firstHeader, .finishBlock firstHeader,
      .operation (sampleVote "devs" 10000)] none none :=
    ⟨none, .operation _ none, _, .beginBlock _, none, .finishBlock _, none,
      .operation _ none, rfl⟩
  exact ⟨db, done, approximate_root.2.2.2.2.2 plainExternal none db
    (RunState.of_foldlM .genesis phases done)⟩

end BMChain.State

import BMChain.Foundation.SharePool
import BMChain.Protocol.Asset

/-!
# Conversion at a price

An asset is multiplied with a price in 128 bits, and the quotient is stored in
64 signed bits.  The guard between the two looks at the upper half only, so
that a quotient from `2 ^ 63` on passes it and is read as a negative amount.
-/

namespace BMChain.Protocol

open Foundation

variable {result : Asset}

/-! ## The quotient -/

/-- The product of two amounts stays below 128 bits. -/
theorem convert_eq_portion
    {amount numerator denominator : Int}
    (amountNonneg : 0 ≤ amount)
    (amountFits : FitsInt64 amount)
    (numeratorNonneg : 0 ≤ numerator)
    (numeratorFits : FitsInt64 numerator)
    (denominatorPos : 0 < denominator)
    (denominatorFits : FitsInt64 denominator) :
    (convert amount numerator denominator : Int) =
      portion amount numerator denominator := by
  have first := uint128_eq amountNonneg amountFits
  have second := uint128_eq numeratorNonneg numeratorFits
  have third := uint128_eq (Int.le_of_lt denominatorPos) denominatorFits
  have small : uint128 amount * uint128 numerator < 2 ^ 128 := by
    have left : uint128 amount < 2 ^ 63 := by
      have bound := amountFits.2
      omega
    have right : uint128 numerator < 2 ^ 63 := by
      have bound := numeratorFits.2
      omega
    calc uint128 amount * uint128 numerator
        ≤ 2 ^ 63 * 2 ^ 63 :=
          Nat.mul_le_mul (Nat.le_of_lt left) (Nat.le_of_lt right)
      _ < 2 ^ 128 := by decide
  rw [convert, Nat.mod_eq_of_lt small, portion, Int.natCast_ediv,
    Int.natCast_mul, first, second, third]

/-! ## The sides of a price -/

/-- `price::validate`. -/
def Price.validate (price : Price) : Except Fault Unit := do
  require (0 < price.base.amount) "base.amount > share_type(0)"
  require (0 < price.quote.amount) "quote.amount > share_type(0)"
  let baseName ← symbolName price.base.symbol
  let quoteName ← symbolName price.quote.symbol
  require (baseName ≠ quoteName) "base.symbol_name() != quote.symbol_name()"

/-- What `price::validate` accepts. -/
structure Price.Valid (price : Price) (baseName quoteName : List UInt8) :
    Prop where
  base : 0 < price.base.amount
  quote : 0 < price.quote.amount
  baseNamed : symbolName price.base.symbol = .ok baseName
  quoteNamed : symbolName price.quote.symbol = .ok quoteName
  distinct : baseName ≠ quoteName

theorem Price.valid_of_validate
    {price : Price}
    (valid : price.validate = .ok ()) :
    ∃ baseName quoteName, price.Valid baseName quoteName := by
  simp only [Price.validate, bind_eq_ok_iff, require_eq_ok_iff] at valid
  rcases valid with
    ⟨_, base, _, quote, baseName, baseNamed, quoteName, quoteNamed, distinct⟩
  exact ⟨baseName, quoteName, base, quote, baseNamed, quoteNamed, distinct⟩

/--
An asset is converted from the side of the price which has its symbol name
into the other one.
-/
inductive Converts (asset : Asset) (price : Price) : Asset → Asset → Prop
  | base {name : List UInt8}
      (own : symbolName asset.symbol = .ok name)
      (named : symbolName price.base.symbol = .ok name) :
      Converts asset price price.base price.quote
  | quote {name : List UInt8}
      (own : symbolName asset.symbol = .ok name)
      (named : symbolName price.quote.symbol = .ok name) :
      Converts asset price price.quote price.base

section Conversion

variable {asset source target : Asset} {price : Price}
variable {baseName quoteName : List UInt8}

/-- The other side of the price converts back. -/
theorem Converts.back
    (valid : price.Valid baseName quoteName)
    (converts : Converts asset price source target)
    (symbol : result.symbol = target.symbol) :
    Converts result price target source := by
  cases converts with
  | base =>
      refine .quote ?_ valid.quoteNamed
      rw [symbol]
      exact valid.quoteNamed
  | quote =>
      refine .base ?_ valid.baseNamed
      rw [symbol]
      exact valid.baseNamed

theorem Converts.source_pos
    (valid : price.Valid baseName quoteName)
    (converts : Converts asset price source target) :
    0 < source.amount := by
  cases converts with
  | base => exact valid.base
  | quote => exact valid.quote

theorem Converts.target_pos
    (valid : price.Valid baseName quoteName)
    (converts : Converts asset price source target) :
    0 < target.amount := by
  cases converts with
  | base => exact valid.quote
  | quote => exact valid.base

theorem mul_of_converts
    (valid : price.Valid baseName quoteName)
    (converts : Converts asset price source target) :
    asset.mul price = asset.convertInto source target := by
  cases converts with
  | base own named =>
      rw [Asset.mul, own, ok_bind, named, ok_bind, if_pos rfl]
  | quote own named =>
      cases named.symm.trans valid.quoteNamed
      rw [Asset.mul, own, ok_bind, valid.baseNamed, ok_bind,
        if_neg valid.distinct.symm, named, ok_bind, if_pos rfl]

theorem converts_of_mul
    (done : asset.mul price = .ok result) :
    ∃ source target, Converts asset price source target := by
  simp only [Asset.mul, bind_eq_ok_iff] at done
  rcases done with ⟨name, own, _, named, done⟩
  split at done
  case isTrue same =>
    exact ⟨_, _, .base own (same ▸ named)⟩
  case isFalse =>
    rw [bind_eq_ok_iff] at done
    rcases done with ⟨_, other, done⟩
    split at done
    case isTrue same =>
      exact ⟨_, _, .quote own (same ▸ other)⟩
    case isFalse => cases done

/-! ## The quotient -/

/-- The rounded quotient of a conversion. -/
abbrev quotient (asset source target : Asset) : Int :=
  portion asset.amount target.amount source.amount

/-- The amounts of an asset and a price are 64-bit numbers. -/
structure AmountsFit (asset : Asset) (price : Price) : Prop where
  asset : FitsInt64 asset.amount
  base : FitsInt64 price.base.amount
  quote : FitsInt64 price.quote.amount

/-- The word which the guard sees is the quotient. -/
theorem convert_eq_quotient
    (valid : price.Valid baseName quoteName)
    (fits : AmountsFit asset price)
    (nonneg : 0 ≤ asset.amount)
    (converts : Converts asset price source target) :
    (convert asset.amount target.amount source.amount : Int) =
      quotient asset source target := by
  cases converts with
  | base =>
      exact convert_eq_portion nonneg fits.asset (Int.le_of_lt valid.quote)
        fits.quote valid.base fits.base
  | quote =>
      exact convert_eq_portion nonneg fits.asset (Int.le_of_lt valid.base)
        fits.base valid.quote fits.quote

theorem convertInto_eq_ok_iff
    (positive : 0 < source.amount) :
    asset.convertInto source target = .ok result ↔
      convert asset.amount target.amount source.amount < 2 ^ 64 ∧
        ⟨wrapInt64 (convert asset.amount target.amount source.amount),
          target.symbol⟩ = result := by
  simp only [Asset.convertInto, bind_eq_ok_iff, require_eq_ok_iff,
    pure_eq_ok_iff]
  constructor
  · rintro ⟨_, -, _, small, same⟩
    exact ⟨small, same⟩
  · rintro ⟨small, same⟩
    exact ⟨(), positive, (), small, same⟩

section Quotients

variable
    (valid : price.Valid baseName quoteName)
    (fits : AmountsFit asset price)
    (nonneg : 0 ≤ asset.amount)
    (converts : Converts asset price source target)

include valid fits nonneg converts

/-- A quotient which fits is the result. -/
theorem mul_of_fits
    (small : quotient asset source target < 2 ^ 63) :
    asset.mul price = .ok ⟨quotient asset source target, target.symbol⟩ := by
  have word := convert_eq_quotient valid fits nonneg converts
  have below : convert asset.amount target.amount source.amount < 2 ^ 63 := by
    omega
  rw [mul_of_converts valid converts,
    convertInto_eq_ok_iff (converts.source_pos valid)]
  refine ⟨Nat.lt_trans below (by decide), ?_⟩
  rw [wrapInt64_eq below, word]

/-- A quotient with the sign bit is returned as a negative amount. -/
theorem mul_of_sign_bit
    (large : 2 ^ 63 ≤ quotient asset source target)
    (small : quotient asset source target < 2 ^ 64) :
    ∃ result, asset.mul price = .ok result ∧ result.amount < 0 := by
  have word := convert_eq_quotient valid fits nonneg converts
  have above : 2 ^ 63 ≤ convert asset.amount target.amount source.amount := by
    omega
  have below : convert asset.amount target.amount source.amount < 2 ^ 64 := by
    omega
  have negative := wrapInt64_neg above below
  have done := (convertInto_eq_ok_iff (converts.source_pos valid)).2
    ⟨below, rfl⟩
  rw [← mul_of_converts valid converts] at done
  refine ⟨_, done, ?_⟩
  dsimp only
  exact negative

/-- A quotient above 64 bits is refused. -/
theorem mul_of_large
    (large : 2 ^ 64 ≤ quotient asset source target)
    (result : Asset) :
    asset.mul price ≠ .ok result := by
  have word := convert_eq_quotient valid fits nonneg converts
  intro done
  rw [mul_of_converts valid converts,
    convertInto_eq_ok_iff (converts.source_pos valid)] at done
  have below := done.1
  omega

end Quotients

/-! ## Exact or refused -/

/-- What a conversion promises. -/
structure ExactOrRefused (asset : Asset) (price : Price) : Prop where
  exact : ∀ result, asset.mul price = .ok result →
    ∃ source target, Converts asset price source target ∧
      result.symbol = target.symbol ∧
        result.amount = quotient asset source target ∧ 0 ≤ result.amount
  refused : ∀ fault, asset.mul price = .error fault →
    (∀ source target, ¬ Converts asset price source target) ∨
      ∃ source target, Converts asset price source target ∧
        ¬ FitsInt64 (quotient asset source target)
  back : ∀ there again, asset.mul price = .ok there →
    there.mul price = .ok again → again.amount ≤ asset.amount

/--
A conversion is exact or refused exactly when its quotient does not have the
sign bit of the amount.
-/
theorem exact_or_refused_iff
    (accepted : price.validate = .ok ())
    (fits : AmountsFit asset price)
    (nonneg : 0 ≤ asset.amount) :
    ExactOrRefused asset price ↔
      ∀ source target, Converts asset price source target →
        ¬ (2 ^ 63 ≤ quotient asset source target ∧
          quotient asset source target < 2 ^ 64) := by
  rcases Price.valid_of_validate accepted with ⟨baseName, quoteName, valid⟩
  constructor
  · rintro promised source target converts ⟨large, small⟩
    rcases mul_of_sign_bit valid fits nonneg converts large small with
      ⟨result, done, negative⟩
    rcases promised.exact result done with ⟨_, _, -, -, -, positive⟩
    omega
  intro clear
  have outcome (source target : Asset)
      (converts : Converts asset price source target)
      {result : Asset}
      (done : asset.mul price = .ok result) :
      result = ⟨quotient asset source target, target.symbol⟩ := by
    by_cases below : quotient asset source target < 2 ^ 63
    · rw [mul_of_fits valid fits nonneg converts below] at done
      exact (Except.ok.inj done).symm
    · refine absurd done (mul_of_large valid fits nonneg converts ?_ result)
      by_contra small
      exact clear source target converts ⟨by omega, by omega⟩
  have positive (source target : Asset)
      (converts : Converts asset price source target) :
      0 ≤ quotient asset source target :=
    portion_nonneg nonneg (Int.le_of_lt (converts.target_pos valid))
      (converts.source_pos valid)
  constructor
  case exact =>
    intro result done
    rcases converts_of_mul done with ⟨source, target, converts⟩
    cases outcome source target converts done
    exact ⟨source, target, converts, rfl, rfl, positive source target converts⟩
  case refused =>
    intro fault failed
    by_cases some : ∃ source target, Converts asset price source target
    · rcases some with ⟨source, target, converts⟩
      refine .inr ⟨source, target, converts, ?_⟩
      intro small
      rw [mul_of_fits valid fits nonneg converts small.2] at failed
      cases failed
    · exact .inl fun source target converts => some ⟨source, target, converts⟩
  case back =>
    intro there again done returned
    rcases converts_of_mul done with ⟨source, target, converts⟩
    have first := outcome source target converts done
    have between := positive source target converts
    subst first
    have small : quotient asset source target < 2 ^ 63 := by
      by_contra large
      refine absurd done (mul_of_large valid fits nonneg converts ?_ _)
      by_contra small
      exact clear source target converts ⟨by omega, by omega⟩
    have opposite := converts.back valid
      (show (Asset.mk (quotient asset source target) target.symbol).symbol =
        target.symbol from rfl)
    have gained : quotient ⟨quotient asset source target, target.symbol⟩
        target source ≤ asset.amount :=
      portion_portion_le (converts.target_pos valid) (converts.source_pos valid)
    have limit := fits.asset.2
    have fitsThere : FitsInt64 (quotient asset source target) :=
      ⟨by omega, small⟩
    rw [mul_of_fits valid ⟨fitsThere, fits.base, fits.quote⟩ between opposite
      (by omega)] at returned
    cases returned
    exact gained

end Conversion

/-- Seven at two for three are ten. -/
theorem exact_or_refused_seven :
    ExactOrRefused (bmt 7) ⟨bmt 2, vests 3⟩ := by
  refine (exact_or_refused_iff (by decide) ⟨by decide, by decide, by decide⟩
    (by decide)).2 ?_
  rintro _ _ (_ | _) <;> decide

/-- Twice `2 ^ 62` is returned as a negative amount. -/
theorem conversion_returns_negative :
    ¬ ∀ (asset : Asset) (price : Price), price.validate = .ok () →
      AmountsFit asset price → 0 ≤ asset.amount →
        ExactOrRefused asset price := by
  intro promised
  have exact := (promised (bmt (2 ^ 62)) ⟨bmt 1, vests 2⟩ (by decide)
    ⟨by decide, by decide, by decide⟩ (by decide)).exact
  rcases exact (vests (-2 ^ 63)) (by decide) with ⟨_, _, -, -, -, positive⟩
  exact absurd positive (by decide)

end BMChain.Protocol

import Mathlib.Tactic.Common
import Mathlib.Data.Int.Bitwise
import BMChain.Foundation.GuardedFold

/-!
# Amounts, assets and prices

`share_type` is `fc::safe<int64_t>`: every operation on it throws when the
result leaves the 64-bit range.  Products of two amounts are taken with
`fc::uint128_t`, which wraps around, and narrowed back to 64 bits without a
check.  An asset is an amount with a symbol word, and the operators on assets
assert that the two words agree.
-/

namespace BMChain.Protocol

variable {condition : Prop} {word : Nat}

variable {Error : Type} {message : Error}

/-- The message of a failed assertion. -/
abbrev Fault := String

/-- `FC_ASSERT`. -/
def require {Error : Type} (condition : Prop) [Decidable condition]
    (message : Error) : Except Error Unit :=
  if condition then .ok () else .error message

theorem require_pos
    [Decidable condition]
    (holds : condition) :
    require condition message = .ok () :=
  if_pos holds

theorem require_eq_ok_iff
    [Decidable condition]
    {value : Unit} :
    require condition message = .ok value ↔ condition := by
  unfold require
  split <;> simp [*]

/-! ## Checked arithmetic -/

/-- The range of `int64_t`. -/
def FitsInt64 (value : Int) : Prop :=
  -2 ^ 63 ≤ value ∧ value < 2 ^ 63

instance (value : Int) : Decidable (FitsInt64 value) :=
  inferInstanceAs (Decidable (_ ∧ _))

/-- A result of `fc::safe<int64_t>`, refused outside the 64-bit range. -/
def checked (value : Int) : Except Fault Int :=
  if FitsInt64 value then .ok value else .error "overflow"

theorem checked_eq_ok_iff
    {value result : Int} :
    checked value = .ok result ↔ FitsInt64 value ∧ value = result := by
  unfold checked
  split <;> simp [*]

/-- Division of `fc::safe<int64_t>`, which truncates towards zero. -/
def checkedDiv (dividend divisor : Int) : Except Fault Int := do
  require (divisor ≠ 0) "divide by zero"
  checked (dividend.tdiv divisor)

/-- Remainder of `fc::safe<int64_t>`. -/
def checkedMod (dividend divisor : Int) : Except Fault Int := do
  require (divisor ≠ 0) "divide by zero"
  let _ ← checked (dividend.tdiv divisor)
  pure (dividend.tmod divisor)

/-- The signed value of a 64-bit word. -/
def wrapInt64 (word : Nat) : Int :=
  (word : Int).bmod (2 ^ 64)

/-- The range of `int32_t`. -/
def FitsInt32 (value : Int) : Prop :=
  -2 ^ 31 ≤ value ∧ value < 2 ^ 31

/-- A number is its own signed value of 32 bits exactly in their range. -/
theorem bmod_eq_self_iff
    {value : Int} :
    value.bmod (2 ^ 32) = value ↔ FitsInt32 value := by
  rw [Int.bmod_eq_iff (by decide), Int.sub_self]
  constructor
  case mp =>
    rintro ⟨least, most, -⟩
    exact ⟨by omega, by omega⟩
  case mpr =>
    rintro ⟨least, most⟩
    exact ⟨by omega, by omega, Int.dvd_zero _⟩

/-- `fc::uint128_t` made from a signed 64-bit number. -/
def uint128 (value : Int) : Nat :=
  (value % 2 ^ 128).toNat

/-- `fc::uint128_t::to_uint64`. -/
def toUint64 (value : Nat) : Nat :=
  value % 2 ^ 64

theorem uint128_eq
    {value : Int}
    (nonneg : 0 ≤ value)
    (fits : FitsInt64 value) :
    (uint128 value : Int) = value := by
  have bound := fits.2
  unfold uint128
  omega

/-- A word below the sign bit is read as it is. -/
theorem wrapInt64_eq
    (small : word < 2 ^ 63) :
    wrapInt64 word = word := by
  unfold wrapInt64
  refine Int.bmod_eq_of_le ?_ ?_ <;> omega

theorem wrapInt64_toUint64
    (small : word < 2 ^ 63) :
    wrapInt64 (toUint64 word) = word := by
  rw [toUint64, Nat.mod_eq_of_lt (Nat.lt_trans small (by decide)),
    wrapInt64_eq small]

/-- A word with the sign bit is read as a negative number. -/
theorem wrapInt64_neg
    (large : 2 ^ 63 ≤ word)
    (fits : word < 2 ^ 64) :
    wrapInt64 word < 0 := by
  have same : wrapInt64 word = (word : Int) - 2 ^ 64 := by
    unfold wrapInt64
    rw [Int.bmod_def]
    omega
  omega

/-! ## Symbols -/

/-- `asset_symbol_type`: the decimals and the name in one word. -/
abbrev AssetSymbol := UInt64

/-- The word with the decimals in its first byte and then the name. -/
def symbolWord (decimals : Nat) (name : List Char) : AssetSymbol :=
  UInt64.ofNat
    (decimals + 256 * name.foldr (fun char word => char.toNat + 256 * word) 0)

/-- `BMT_SYMBOL`. -/
def bmtSymbol : AssetSymbol :=
  symbolWord 3 ['B', 'M', 'T']

/-- `VESTS_SYMBOL`. -/
def vestsSymbol : AssetSymbol :=
  symbolWord 6 ['V', 'E', 'S', 'T', 'S']

/-- The byte of the symbol word at the given place. -/
def symbolByte (symbol : AssetSymbol) (place : Nat) : UInt8 :=
  (symbol >>> UInt64.ofNat (8 * place)).toUInt8

/-- `asset::symbol_name`: the bytes after the decimals, as a C string. -/
def symbolName (symbol : AssetSymbol) : Except Fault (List UInt8) := do
  require (symbolByte symbol 7 = 0) "a[7] == 0"
  pure (((List.range 6).map fun place => symbolByte symbol (place + 1)).takeWhile
    (· ≠ 0))

/-! ## Assets -/

/-- `asset`. -/
structure Asset where
  amount : Int
  symbol : AssetSymbol
  deriving DecidableEq

/-- An amount of BMT. -/
def bmt (amount : Int) : Asset :=
  ⟨amount, bmtSymbol⟩

/-- An amount of vesting shares. -/
def vests (amount : Int) : Asset :=
  ⟨amount, vestsSymbol⟩

namespace Asset

/--
The amount, after the assertion that the symbol is the expected one.  The
operators `+=`, `-=`, `<` and `>=` between an asset and a field kept in that
symbol all make this assertion first.
-/
def inSymbol (asset : Asset) (symbol : AssetSymbol) : Except Fault Int := do
  require (asset.symbol = symbol) "symbol == o.symbol"
  pure asset.amount

theorem inSymbol_eq_ok_iff
    {asset : Asset}
    {symbol : AssetSymbol}
    {amount : Int} :
    asset.inSymbol symbol = .ok amount ↔
      asset.symbol = symbol ∧ asset.amount = amount := by
  simp [inSymbol, Foundation.bind_eq_ok_iff, require_eq_ok_iff, pure,
    Except.pure]

/-- `operator <`. -/
def lt (left right : Asset) : Except Fault Bool := do
  require (left.symbol = right.symbol) "a.symbol == b.symbol"
  pure (left.amount < right.amount)

/-- `operator <=`, which compares for equality first. -/
def le (left right : Asset) : Except Fault Bool :=
  if left = right then .ok true else left.lt right

/-- `operator +`. -/
def add (left right : Asset) : Except Fault Asset := do
  require (left.symbol = right.symbol) "a.symbol == b.symbol"
  let amount ← checked (left.amount + right.amount)
  pure ⟨amount, left.symbol⟩

/-- `operator -`. -/
def sub (left right : Asset) : Except Fault Asset := do
  require (left.symbol = right.symbol) "a.symbol == b.symbol"
  let amount ← checked (left.amount - right.amount)
  pure ⟨amount, left.symbol⟩

/-- The unary `operator -`. -/
def neg (asset : Asset) : Except Fault Asset := do
  let amount ← checked (-asset.amount)
  pure ⟨amount, asset.symbol⟩

end Asset

/-! ## Prices -/

/-- `price`. -/
structure Price where
  base : Asset
  quote : Asset
  deriving DecidableEq

/-- `BMCHAIN_MAX_SHARE_SUPPLY`. -/
def maxShareSupply : Int := 1000000000000000

namespace Price

/-- The unary `operator ~`. -/
def invert (price : Price) : Price :=
  ⟨price.quote, price.base⟩

/-- `operator / ( const asset& base, const asset& quote )`. -/
def ofAssets (base quote : Asset) : Except Fault Price := do
  let baseName ← symbolName base.symbol
  let quoteName ← symbolName quote.symbol
  require (baseName ≠ quoteName) "base.symbol_name() != quote.symbol_name()"
  pure ⟨base, quote⟩

/-- `price::max` for a pair of symbols. -/
def max (base quote : AssetSymbol) : Except Fault Price :=
  ofAssets ⟨maxShareSupply, base⟩ ⟨1, quote⟩

/-- The cross products that the comparisons of prices use. -/
def crossProduct (first second : Price) : Nat :=
  uint128 second.quote.amount * uint128 first.base.amount % 2 ^ 128

/-- `operator <`. -/
def lt (first second : Price) : Bool :=
  if first.base.symbol < second.base.symbol then true
  else if second.base.symbol < first.base.symbol then false
  else if first.quote.symbol < second.quote.symbol then true
  else if second.quote.symbol < first.quote.symbol then false
  else crossProduct first second < crossProduct second first

/-- `operator ==`. -/
def eq (first second : Price) : Bool :=
  first.base.symbol = second.base.symbol ∧
    first.quote.symbol = second.quote.symbol ∧
      crossProduct first second = crossProduct second first

/-- `operator >`. -/
def gt (first second : Price) : Bool :=
  !(first.eq second || first.lt second)

end Price

/-- The quotient which `asset * price` computes with `uint128_t`. -/
def convert (amount numerator denominator : Int) : Nat :=
  uint128 amount * uint128 numerator % 2 ^ 128 / uint128 denominator

/-- One branch of `asset * price`, from one side of the price to the other. -/
def Asset.convertInto (asset source target : Asset) : Except Fault Asset := do
  require (0 < source.amount) "amount.value > 0"
  let result := convert asset.amount target.amount source.amount
  require (result < 2 ^ 64) "result.hi == 0"
  pure ⟨wrapInt64 result, target.symbol⟩

/-- `operator * ( const asset& a, const price& b )`. -/
def Asset.mul (asset : Asset) (price : Price) : Except Fault Asset := do
  let name ← symbolName asset.symbol
  let baseName ← symbolName price.base.symbol
  if name = baseName then
    asset.convertInto price.base price.quote
  else do
    let quoteName ← symbolName price.quote.symbol
    if name = quoteName then
      asset.convertInto price.quote price.base
    else
      .error "invalid asset * price"

end BMChain.Protocol

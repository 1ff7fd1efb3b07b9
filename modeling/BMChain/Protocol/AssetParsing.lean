import BMChain.Protocol.AssetText

/-!
# The amount of a text

The sign of a text is read with the whole number only, and the fraction is
added to the product with the precision in plain 64-bit words.  The amount is
what the text denotes when the whole of it fits and nothing has to be taken off
a negative number.
-/

namespace BMChain.Protocol

open Foundation

/-- The parts of a text `[-]digits[.digits]` with a space and a symbol. -/
structure AssetNumeral where
  negative : Bool
  whole : Text
  fraction : Option Text
  symbol : Text

namespace AssetNumeral

variable (parts : AssetNumeral)

/-- The digits behind the dot. -/
def places : Nat :=
  (parts.fraction.getD []).length

/-- The number of the digits behind the dot. -/
def part : Nat :=
  decimalValue (parts.fraction.getD [])

/-- The text of the parts. -/
def text : Text :=
  match parts.fraction with
  | none => numeral parts.negative parts.whole ++ 32 :: parts.symbol
  | some digits =>
      numeral parts.negative parts.whole ++ 46 :: (digits ++ 32 :: parts.symbol)

/-- What the text denotes, in units of its last digit. -/
def denoted : Int :=
  signed parts.negative
    (decimalValue parts.whole * 10 ^ parts.places + parts.part)

/-- Digits where there are to be digits. -/
structure WellFormed : Prop where
  some : parts.whole ≠ []
  whole : ∀ byte ∈ parts.whole, DigitByte byte
  fraction : ∀ digits ∈ parts.fraction, ∀ byte ∈ digits, DigitByte byte

/-- What the checks on the parts of a text refuse. -/
inductive Refused : Prop
  | places (many : 14 < parts.places)
  | symbol (long : 6 < parts.symbol.length)
  | whole (large :
      ¬ FitsInt64 (signed parts.negative (decimalValue parts.whole)))
  | dot (plain : parts.fraction = none) (dotted : 46 ∈ parts.symbol)

/--
An accepted text has the amount which it denotes, and what does not fit is not
accepted.
-/
structure Faithful (lib : TextLibrary) (source : Text) : Prop where
  exact : ∀ asset, Asset.fromText lib source = .ok asset →
    ∃ decimals, asset.decimals = .ok decimals ∧
      asset.amount * 10 ^ parts.places = parts.denoted * 10 ^ decimals
  refuses : ¬ FitsInt64 parts.denoted →
    ∀ asset, Asset.fromText lib source ≠ .ok asset

end AssetNumeral

/-- Integers are read as their number, when it is a signed word. -/
def TextLibrary.ReadsNumerals (lib : TextLibrary) : Prop :=
  ∀ negative digits value, digits ≠ [] → (∀ byte ∈ digits, DigitByte byte) →
    (lib.toInt64 (numeral negative digits) = .ok value ↔
      FitsInt64 (signed negative (decimalValue digits)) ∧
        signed negative (decimalValue digits) = value)

namespace AssetNumeral

variable {lib : TextLibrary} {source : Text} {parts : AssetNumeral}

/-- The sum which `from_string` leaves in the amount. -/
def assembled (parts : AssetNumeral) : Int :=
  signed parts.negative (decimalValue parts.whole) * 10 ^ parts.places +
    parts.part

theorem part_lt
    (formed : parts.WellFormed) :
    parts.part < 10 ^ parts.places := by
  unfold part places
  cases equal : parts.fraction with
  | none => exact Nat.one_pos
  | some digits => exact decimalValue_lt (formed.fraction digits equal)

theorem numeral_free
    {negative : Bool}
    {digits : Text}
    (all : ∀ byte ∈ digits, DigitByte byte) :
    46 ∉ numeral negative digits ∧ 32 ∉ numeral negative digits := by
  rcases dot_notMem_of_digits all with ⟨dot, space⟩
  cases negative with
  | false => exact ⟨dot, space⟩
  | true =>
      rw [numeral, if_pos rfl, List.mem_cons, List.mem_cons]
      exact ⟨not_or.2 ⟨by decide, dot⟩, not_or.2 ⟨by decide, space⟩⟩

theorem not_refused_iff :
    ¬ parts.Refused ↔
      parts.places ≤ 14 ∧ parts.symbol.length ≤ 6 ∧
        FitsInt64 (signed parts.negative (decimalValue parts.whole)) ∧
          (parts.fraction = none → 46 ∉ parts.symbol) := by
  constructor
  · intro accepted
    refine ⟨?_, ?_, ?_, ?_⟩
    · exact Nat.not_lt.1 fun many => accepted (.places many)
    · exact Nat.not_lt.1 fun long => accepted (.symbol long)
    · exact of_not_not fun large => accepted (.whole large)
    · exact fun plain dotted => accepted (.dot plain dotted)
  · rintro ⟨few, short, fits, free⟩ refused
    cases refused with
    | places many => omega
    | symbol long => omega
    | whole large => exact large fits
    | dot plain dotted => exact free plain dotted

/-- The fraction is read with a one in front of it, when it is short enough. -/
theorem toInt64_fraction
    {digits : Text}
    {value : Int}
    (reads : lib.ReadsNumerals)
    (all : ∀ byte ∈ digits, DigitByte byte) :
    (digits.length % 2 ^ 8 < 15 ∧ lib.toInt64 (49 :: digits) = .ok value) ↔
      digits.length ≤ 14 ∧
        ((10 ^ digits.length + decimalValue digits : Nat) : Int) = value := by
  have digit : ∀ byte ∈ 49 :: digits, DigitByte byte :=
    List.forall_mem_cons.2 ⟨by decide, all⟩
  have number : decimalValue (49 :: digits) =
      10 ^ digits.length + decimalValue digits := by
    rw [decimalValue_cons]
    show (49 - 48) * 10 ^ digits.length + _ = _
    omega
  have read := reads false (49 :: digits) value (List.cons_ne_nil _ _) digit
  rw [numeral, if_neg Bool.false_ne_true, signed, if_neg Bool.false_ne_true,
    number] at read
  rw [read]
  have below := decimalValue_lt all
  constructor
  · rintro ⟨byte, fits, same⟩
    refine ⟨?_, same⟩
    refine Nat.not_lt.1 fun many => ?_
    have large : 10 ^ 19 ≤ 10 ^ digits.length :=
      Nat.pow_le_pow_right (by decide) (by omega)
    have limit := fits.2
    omega
  · rintro ⟨few, same⟩
    have limit : 10 ^ digits.length ≤ 10 ^ 14 :=
      Nat.pow_le_pow_right (by decide) few
    exact ⟨by omega, ⟨by omega, by omega⟩, same⟩

/-- A text which the checks pass is read as the assembled amount. -/
theorem fromText_eq_ok_iff
    (reads : lib.ReadsNumerals)
    (formed : parts.WellFormed)
    (trimmed : lib.trim source = parts.text)
    {asset : Asset} :
    Asset.fromText lib source = .ok asset ↔
      ¬ parts.Refused ∧
        asset = ⟨wrapped parts.assembled,
          symbolOf parts.places parts.symbol⟩ := by
  have integer := fun value => reads parts.negative parts.whole value formed.some
    formed.whole
  rcases @numeral_free parts.negative _ formed.whole with ⟨dotFree, spaceFree⟩
  rw [not_refused_iff]
  cases equal : parts.fraction with
  | none =>
      rw [text, equal] at trimmed
      have sum : parts.assembled =
          signed parts.negative (decimalValue parts.whole) := by
        simp [assembled, places, part, equal, decimalValue]
      have none : parts.places = 0 := by
        rw [places, equal]
        rfl
      by_cases dotted : 46 ∈ parts.symbol
      · constructor
        · exact fun done => absurd done
            (fromText_late_dot trimmed spaceFree dotFree dotted)
        · exact fun accepted => absurd dotted (accepted.1.2.2.2 rfl)
      · have free : 46 ∉ numeral parts.negative parts.whole ++
            32 :: parts.symbol := by
          simp only [List.mem_append, List.mem_cons, not_or]
          exact ⟨dotFree, by decide, dotted⟩
        rw [fromText_whole trimmed spaceFree free, sum, none]
        simp only [bind_eq_ok_iff, integer, require_eq_ok_iff, pure_eq_ok_iff]
        constructor
        · rintro ⟨_, ⟨fits, rfl⟩, _, short, rfl⟩
          rw [wrapped_eq fits]
          exact ⟨⟨by decide, short, fits, fun _ => dotted⟩, rfl⟩
        · rintro ⟨⟨-, short, fits, -⟩, rfl⟩
          rw [wrapped_eq fits]
          exact ⟨_, ⟨fits, rfl⟩, (), short, rfl⟩
  | some digits =>
      rw [text, equal] at trimmed
      have all := formed.fraction digits equal
      have length : parts.places = digits.length := by
        rw [places, equal]
        rfl
      have number : parts.part = decimalValue digits := by
        rw [part, equal]
        rfl
      have free : 32 ∉ numeral parts.negative parts.whole ++ digits := by
        simp only [List.mem_append, not_or]
        exact ⟨spaceFree, (dot_notMem_of_digits all).2⟩
      have sum : digits.length ≤ 14 →
          signed parts.negative (decimalValue parts.whole) *
              precisionOf (digits.length % 2 ^ 8) +
            ((10 ^ digits.length + decimalValue digits : Nat) : Int) -
              precisionOf (digits.length % 2 ^ 8) = parts.assembled := by
        intro few
        have places : digits.length % 2 ^ 8 = digits.length := by
          omega
        rw [places, precisionOf_eq (by omega), assembled, length, number]
        push_cast
        omega
      rw [fromText_fraction trimmed free dotFree, length]
      simp only [bind_eq_ok_iff, integer, require_eq_ok_iff, pure_eq_ok_iff]
      constructor
      · rintro ⟨_, byte, _, ⟨fits, rfl⟩, _, read, _, short, rfl⟩
        rcases (toInt64_fraction reads all).1 ⟨byte, read⟩ with ⟨few, rfl⟩
        refine ⟨⟨few, short, fits, fun absent => by cases absent⟩, ?_⟩
        rw [sum few, Nat.mod_eq_of_lt (by omega)]
      · rintro ⟨⟨few, short, fits, -⟩, rfl⟩
        rcases (toInt64_fraction reads all).2 ⟨few, rfl⟩ with ⟨byte, read⟩
        refine ⟨(), byte, _, ⟨fits, rfl⟩, _, read, (), short, ?_⟩
        rw [sum few, Nat.mod_eq_of_lt (by omega)]

/-! ## When the amount is what the text denotes -/

theorem fitsInt64_wrapped
    (value : Int) :
    FitsInt64 (wrapped value) := by
  have low := @Int.le_bmod value (2 ^ 64) (by decide)
  have high := @Int.bmod_lt value (2 ^ 64) (by decide)
  unfold wrapped
  exact ⟨by omega, by omega⟩

/-- The sign reaches the fraction only when there is nothing to reach. -/
theorem wrapped_assembled_iff
    (small : parts.part < 10 ^ 14) :
    wrapped parts.assembled = parts.denoted ↔
      FitsInt64 parts.denoted ∧
        (parts.negative = true → parts.part = 0) := by
  have power : ((decimalValue parts.whole * 10 ^ parts.places + parts.part :
        Nat) : Int) =
      (decimalValue parts.whole : Int) * 10 ^ parts.places + parts.part := by
    push_cast
    rfl
  constructor
  · intro same
    refine ⟨same ▸ fitsInt64_wrapped parts.assembled, ?_⟩
    intro minus
    have multiple : ((2 ^ 64 : Nat) : Int) ∣
        parts.denoted - parts.assembled := by
      rw [← same]
      exact Int.dvd_bmod_sub_self
    have twice : parts.denoted - parts.assembled = -2 * (parts.part : Int) := by
      rw [denoted, assembled, signed, signed, if_pos minus, if_pos minus, power]
      linarith
    rw [twice] at multiple
    omega
  · rintro ⟨fits, whole⟩
    have same : parts.assembled = parts.denoted := by
      rw [denoted, assembled, signed, signed, power]
      split
      case isTrue minus =>
        rw [whole minus]
        simp
      case isFalse => rfl
    rw [same, wrapped_eq fits]

/--
The amount is what the text denotes exactly when the text is refused, or its
number fits and is not a negative one with a fraction.
-/
theorem parsing_faithful_iff
    (reads : lib.ReadsNumerals)
    (formed : parts.WellFormed)
    (trimmed : lib.trim source = parts.text) :
    parts.Faithful lib source ↔
      parts.Refused ∨
        FitsInt64 parts.denoted ∧
          (parts.negative = true → parts.part = 0) := by
  by_cases refused : parts.Refused
  · have never : ∀ asset, Asset.fromText lib source ≠ .ok asset :=
      fun asset done =>
        ((fromText_eq_ok_iff reads formed trimmed).1 done).1 refused
    exact ⟨fun _ => .inl refused,
      fun _ => ⟨fun asset done => absurd done (never asset), fun _ => never⟩⟩
  · rw [or_iff_right refused]
    have few := (not_refused_iff.1 refused).1
    have short := (not_refused_iff.1 refused).2.1
    have small : parts.part < 10 ^ 14 :=
      Nat.lt_of_lt_of_le (part_lt formed)
        (Nat.pow_le_pow_right (by decide) few)
    have accepted := (fromText_eq_ok_iff reads formed trimmed).2
      ⟨refused, rfl⟩
    have read : Asset.decimals ⟨wrapped parts.assembled,
        symbolOf parts.places parts.symbol⟩ = .ok parts.places := by
      have byte : (symbolByte (symbolOf parts.places parts.symbol) 0).toNat =
          parts.places := by
        rw [symbolByte_symbolOf (Nat.le_succ_of_le short) (by decide),
          List.getElem?_cons_zero, Option.getD_some, UInt8.toNat_ofNat']
        omega
      simp only [Asset.decimals, byte, require_pos (Nat.lt_succ_of_le few), bind,
        Except.bind, pure, Except.pure]
    have power : (10 : Int) ^ parts.places ≠ 0 :=
      pow_ne_zero _ (by decide)
    rw [← wrapped_assembled_iff small]
    constructor
    · intro faithful
      rcases faithful.exact _ accepted with ⟨decimals, got, same⟩
      cases read.symm.trans got
      exact mul_right_cancel₀ power same
    · intro same
      constructor
      · intro asset done
        rcases (fromText_eq_ok_iff reads formed trimmed).1 done with ⟨-, rfl⟩
        refine ⟨parts.places, read, ?_⟩
        rw [← same]
      · intro large
        exact absurd (same ▸ fitsInt64_wrapped parts.assembled) large

/-- A number of one digit behind the dot, as a text. -/
def sampleParts (negative : Bool) (whole fraction : Text) : AssetNumeral :=
  ⟨negative, whole, some fraction, [65, 66, 67]⟩

theorem readsNumerals_plainText :
    plainText.ReadsNumerals :=
  fun _ _ _ some all => readInt64_numeral some all

/-- `1.5 ABC` is read as what it denotes. -/
theorem parsing_faithful_iff_decimal :
    (sampleParts false [49] [53]).Faithful plainText
      (sampleParts false [49] [53]).text := by
  refine (parsing_faithful_iff readsNumerals_plainText
    ⟨by decide, by decide +kernel, by rintro _ ⟨⟩; decide +kernel⟩
      (by decide)).2 (.inr ⟨by decide, ?_⟩)
  rintro ⟨⟩

/--
`-1.5 ABC` is read as `-0.5`, and a number of `2 ^ 64` units as zero.
-/
theorem negative_fraction_misread :
    (sampleParts true [49] [53]).WellFormed ∧
      plainText.trim (sampleParts true [49] [53]).text =
        (sampleParts true [49] [53]).text ∧
      Asset.fromText plainText (sampleParts true [49] [53]).text =
        .ok ⟨-5, symbolOf 1 [65, 66, 67]⟩ ∧
      (sampleParts true [49] [53]).denoted = -15 ∧
      ¬ (sampleParts true [49] [53]).Faithful plainText
        (sampleParts true [49] [53]).text ∧
      (sampleParts false (decimal 1844674407370955161) [54]).WellFormed ∧
      Asset.fromText plainText
          (sampleParts false (decimal 1844674407370955161) [54]).text =
        .ok ⟨0, symbolOf 1 [65, 66, 67]⟩ := by
  have accepted : Asset.fromText plainText (sampleParts true [49] [53]).text =
      .ok ⟨-5, symbolOf 1 [65, 66, 67]⟩ := by
    decide +kernel
  refine ⟨⟨by decide, by decide +kernel, by rintro _ ⟨⟩; decide +kernel⟩,
    by decide, accepted, by decide, ?_,
    ⟨by decide, ?_, by rintro _ ⟨⟩; decide +kernel⟩, by decide +kernel⟩
  · intro faithful
    rcases faithful.exact _ accepted with ⟨decimals, got, same⟩
    have one : Asset.decimals ⟨-5, symbolOf 1 [65, 66, 67]⟩ = .ok 1 := by
      decide
    cases one.symm.trans got
    exact absurd same (by decide)
  · exact digitByte_of_mem_decimal _

end AssetNumeral

end BMChain.Protocol

import Mathlib.Tactic.Ring
import Mathlib.Tactic.Linarith

/-!
# Decimal text

Natural numbers in decimal digits, as the bytes of a text: the value of a text
of digits, and the text of a number.
-/

namespace BMChain.Foundation

/-- A byte which is a decimal digit. -/
def DigitByte (byte : UInt8) : Prop :=
  48 ≤ byte.toNat ∧ byte.toNat ≤ 57

instance (byte : UInt8) : Decidable (DigitByte byte) :=
  inferInstanceAs (Decidable (_ ∧ _))

/-- The number which a text of digits denotes. -/
def decimalValue (text : List UInt8) : Nat :=
  text.foldl (fun value byte => 10 * value + (byte.toNat - 48)) 0

/-- The digits of a number. -/
def decimal (number : Nat) : List UInt8 :=
  (Nat.toDigits 10 number).map fun char => UInt8.ofNat char.toNat

/-! ## Values -/

theorem foldl_decimal
    (text : List UInt8)
    (start : Nat) :
    text.foldl (fun value byte => 10 * value + (byte.toNat - 48)) start =
      start * 10 ^ text.length + decimalValue text := by
  unfold decimalValue
  induction text generalizing start with
  | nil => simp
  | cons byte rest induction =>
      rw [List.foldl_cons, List.foldl_cons, induction,
        induction (10 * 0 + (byte.toNat - 48)), List.length_cons, Nat.pow_succ]
      ring

theorem decimalValue_append
    (first second : List UInt8) :
    decimalValue (first ++ second) =
      decimalValue first * 10 ^ second.length + decimalValue second := by
  rw [decimalValue, List.foldl_append, foldl_decimal]
  rfl

theorem decimalValue_singleton
    (byte : UInt8) :
    decimalValue [byte] = byte.toNat - 48 := by
  rw [decimalValue, List.foldl_cons, List.foldl_nil, Nat.mul_zero, Nat.zero_add]

theorem decimalValue_cons
    (byte : UInt8)
    (rest : List UInt8) :
    decimalValue (byte :: rest) =
      (byte.toNat - 48) * 10 ^ rest.length + decimalValue rest := by
  rw [← List.singleton_append, decimalValue_append, decimalValue_singleton]

/-- A text of digits denotes less than the power of ten of its length. -/
theorem decimalValue_lt
    {text : List UInt8}
    (digits : ∀ byte ∈ text, DigitByte byte) :
    decimalValue text < 10 ^ text.length := by
  induction text with
  | nil => exact Nat.one_pos
  | cons byte rest induction =>
      rw [List.forall_mem_cons] at digits
      rcases digits with ⟨digit, digits⟩
      have below := induction digits
      have high : (byte.toNat - 48) * 10 ^ rest.length ≤ 9 * 10 ^ rest.length :=
        Nat.mul_le_mul_right _ (by have top := digit.2; omega)
      rw [decimalValue_cons, List.length_cons, Nat.pow_succ]
      linarith

/-! ## Texts -/

theorem decimal_of_lt_ten
    {number : Nat}
    (small : number < 10) :
    decimal number = [UInt8.ofNat (48 + number)] := by
  rw [decimal, Nat.toDigits_of_lt_base small, List.map_singleton,
    Nat.toNat_digitChar_of_lt_ten small]

/-- The last digit of a number stands behind the others. -/
theorem decimal_of_ten_le
    {number : Nat}
    (large : 10 ≤ number) :
    decimal number =
      decimal (number / 10) ++ [UInt8.ofNat (48 + number % 10)] := by
  rw [decimal, Nat.toDigits_of_base_le (by decide) large, List.map_append,
    List.map_singleton,
    Nat.toNat_digitChar_of_lt_ten (Nat.mod_lt number (by decide))]
  rfl

theorem decimal_ne_nil
    (number : Nat) :
    decimal number ≠ [] := by
  rw [decimal, Ne, List.map_eq_nil_iff]
  exact Nat.toDigits_ne_nil

theorem digitByte_digit
    {digit : Nat}
    (small : digit < 10) :
    (UInt8.ofNat (48 + digit)).toNat = 48 + digit ∧
      DigitByte (UInt8.ofNat (48 + digit)) := by
  have byte : (UInt8.ofNat (48 + digit)).toNat = 48 + digit := by
    rw [UInt8.toNat_ofNat', Nat.mod_eq_of_lt (by omega)]
  refine ⟨byte, ?_, ?_⟩ <;> omega

theorem digitByte_of_mem_decimal
    (number : Nat) :
    ∀ byte ∈ decimal number, DigitByte byte := by
  induction number using Nat.strong_induction_on with
  | _ number induction =>
      by_cases small : number < 10
      · rw [decimal_of_lt_ten small, List.forall_mem_singleton]
        exact (digitByte_digit small).2
      · rw [decimal_of_ten_le (by omega), List.forall_mem_append,
          List.forall_mem_singleton]
        exact ⟨induction (number / 10) (by omega),
          (digitByte_digit (Nat.mod_lt number (by decide))).2⟩

/-- The text of a number denotes it. -/
theorem decimalValue_decimal
    (number : Nat) :
    decimalValue (decimal number) = number := by
  induction number using Nat.strong_induction_on with
  | _ number induction =>
      have byte : ∀ digit, digit < 10 →
          decimalValue [UInt8.ofNat (48 + digit)] = digit := by
        intro digit small
        rw [decimalValue_singleton, (digitByte_digit small).1,
          Nat.add_sub_cancel_left]
      by_cases small : number < 10
      · rw [decimal_of_lt_ten small, byte number small]
      · rw [decimal_of_ten_le (by omega), decimalValue_append,
          induction (number / 10) (by omega),
          byte (number % 10) (Nat.mod_lt number (by decide)),
          List.length_singleton]
        omega

/-- A power of ten in front of a number keeps the number's leading zeros. -/
theorem decimal_leading_one
    {places number : Nat}
    (small : number < 10 ^ places) :
    ∃ rest, decimal (10 ^ places + number) = 49 :: rest ∧
      rest.length = places := by
  induction places generalizing number with
  | zero =>
      have zero : number = 0 := by omega
      subst zero
      exact ⟨[], decimal_of_lt_ten (by decide), rfl⟩
  | succ places induction =>
      rw [Nat.pow_succ] at small
      have power : 10 ^ (places + 1) = 10 ^ places * 10 :=
        Nat.pow_succ _ _
      have positive : 0 < 10 ^ places := Nat.pow_pos (by decide)
      have front : (10 ^ (places + 1) + number) / 10 =
          10 ^ places + number / 10 := by
        omega
      rcases @induction (number / 10) (by omega) with ⟨rest, text, length⟩
      refine ⟨rest ++ [UInt8.ofNat (48 + (10 ^ (places + 1) + number) % 10)],
        ?_, ?_⟩
      · rw [decimal_of_ten_le (by omega), front, text, List.cons_append]
      · rw [List.length_append, length, List.length_singleton]

end BMChain.Foundation

import BMChain.Foundation.FileStream
import Mathlib.Data.List.Lex
import Mathlib.Data.UInt
import Mathlib.Order.Defs.LinearOrder
import Mathlib.Tactic.Ring

/-!
# The order of bytes and of words

Strings of bytes are compared from their front.  For strings of one length this
is the order of the numbers with the first byte on top, part by part and with
zeros behind them.
-/

namespace BMChain.Foundation

/-! ## Words with the first byte on top -/

theorem wordOf_append
    (bytes others : List UInt8) :
    wordOf (bytes ++ others) =
      wordOf bytes + 256 ^ bytes.length * wordOf others := by
  induction bytes with
  | nil => simp [wordOf]
  | cons byte rest induction =>
      rw [List.cons_append, wordOf, induction, wordOf, List.length_cons,
        Nat.pow_succ]
      ring

theorem wordOf_lt
    (bytes : List UInt8) :
    wordOf bytes < 256 ^ bytes.length := by
  induction bytes with
  | nil => exact Nat.one_pos
  | cons byte rest induction =>
      have small := byte.toNat_lt
      rw [wordOf, List.length_cons, Nat.pow_succ]
      omega

/-- The bytes of a word are read from the word again. -/
theorem wordBytes_wordOf
    (bytes : List UInt8) :
    wordBytes bytes.length (wordOf bytes) = bytes := by
  induction bytes with
  | nil => rfl
  | cons byte rest induction =>
      have small := byte.toNat_lt
      have upper : (byte.toNat + 256 * wordOf rest) / 256 = wordOf rest := by
        omega
      have lower : UInt8.ofNat (byte.toNat + 256 * wordOf rest) = byte := by
        apply UInt8.toNat_inj.1
        rw [UInt8.toNat_ofNat']
        omega
      rw [List.length_cons, wordOf, wordBytes, upper, lower, induction]

/-- The number whose first byte is on top. -/
def bigEndian (bytes : List UInt8) : Nat :=
  wordOf bytes.reverse

theorem bigEndian_cons
    (byte : UInt8)
    (rest : List UInt8) :
    bigEndian (byte :: rest) =
      bigEndian rest + 256 ^ rest.length * byte.toNat := by
  rw [bigEndian, List.reverse_cons, wordOf_append, List.length_reverse,
    bigEndian]
  simp [wordOf]

theorem bigEndian_lt
    (bytes : List UInt8) :
    bigEndian bytes < 256 ^ bytes.length := by
  have bound := wordOf_lt bytes.reverse
  rwa [List.length_reverse] at bound

/-- Two digits with what is below them. -/
theorem digit_lt_iff
    {unit low other digit next : Nat}
    (small : low < unit)
    (otherSmall : other < unit) :
    low + unit * digit < other + unit * next ↔
      digit < next ∨ digit = next ∧ low < other := by
  rcases Nat.lt_trichotomy digit next with less | same | more
  · have step : unit * (digit + 1) ≤ unit * next := Nat.mul_le_mul_left _ less
    rw [Nat.mul_add] at step
    exact ⟨fun _ => .inl less, fun _ => by omega⟩
  · subst same
    simp
  · have step : unit * (next + 1) ≤ unit * digit := Nat.mul_le_mul_left _ more
    rw [Nat.mul_add] at step
    constructor
    · intro less
      omega
    · rintro (less | ⟨same, -⟩) <;> omega

/-- Strings of one length are ordered as their numbers. -/
theorem bigEndian_lt_iff
    {bytes others : List UInt8}
    (length : bytes.length = others.length) :
    bigEndian bytes < bigEndian others ↔ bytes < others := by
  induction bytes generalizing others with
  | nil =>
      rw [List.eq_nil_of_length_eq_zero length.symm]
      simp
  | cons byte rest induction =>
      match others, length with
      | other :: below, length =>
          have same := Nat.add_right_cancel length
          rw [bigEndian_cons, bigEndian_cons, ← same,
            digit_lt_iff (bigEndian_lt rest) (same ▸ bigEndian_lt below),
            induction same, List.cons_lt_cons_iff, UInt8.lt_iff_toNat_lt,
            UInt8.toNat_inj]

/-! ## Parts and padding -/

/-- With first parts of one length the second parts decide only among equals. -/
theorem append_lt_append_iff
    {front other back behind : List UInt8}
    (length : front.length = other.length) :
    front ++ back < other ++ behind ↔
      front < other ∨ front = other ∧ back < behind := by
  induction front generalizing other with
  | nil =>
      rw [List.eq_nil_of_length_eq_zero length.symm]
      simp
  | cons byte rest induction =>
      match other, length with
      | first :: below, length =>
          rw [List.cons_append, List.cons_append, List.cons_lt_cons_iff,
            List.cons_lt_cons_iff, induction (Nat.add_right_cancel length),
            List.cons.injEq]
          tauto

/-- The bytes of a string with zeros behind them, up to a width. -/
def zeroPadded (width : Nat) (bytes : List UInt8) : List UInt8 :=
  bytes ++ List.replicate (width - bytes.length) 0

/-- Zeros stand for the end of a string which has none of its own. -/
theorem zeroPadded_lt_iff
    {width : Nat}
    {bytes others : List UInt8}
    (fits : bytes.length ≤ width)
    (otherFits : others.length ≤ width)
    (noZero : 0 ∉ bytes)
    (otherNoZero : 0 ∉ others) :
    zeroPadded width bytes < zeroPadded width others ↔ bytes < others := by
  induction width generalizing bytes others with
  | zero =>
      rw [List.eq_nil_of_length_eq_zero (Nat.le_zero.1 fits),
        List.eq_nil_of_length_eq_zero (Nat.le_zero.1 otherFits)]
      simp [zeroPadded]
  | succ width induction =>
      have positive : ∀ byte : UInt8, 0 ≠ byte → 0 < byte := by
        intro byte differs
        exact UInt8.pos_iff_ne_zero.2 (Ne.symm differs)
      match bytes, others with
      | [], [] => simp
      | [], other :: below =>
          have first := positive other (List.ne_of_not_mem_cons otherNoZero)
          simp only [zeroPadded, List.length_nil, List.nil_append, Nat.sub_zero,
            List.replicate_succ, List.cons_append, List.nil_lt_cons, iff_true]
          exact List.cons_lt_cons_iff.2 (.inl first)
      | byte :: rest, [] =>
          have first := positive byte (List.ne_of_not_mem_cons noZero)
          simp only [zeroPadded, List.length_nil, List.nil_append, Nat.sub_zero,
            List.replicate_succ, List.cons_append, List.not_lt_nil, iff_false]
          rw [List.cons_lt_cons_iff]
          rintro (less | ⟨same, -⟩)
          · exact absurd less (UInt8.lt_asymm first)
          · exact absurd same (UInt8.ne_of_lt first).symm
      | byte :: rest, other :: below =>
          have next := induction (Nat.le_of_succ_le_succ fits)
            (Nat.le_of_succ_le_succ otherFits)
            (List.not_mem_of_not_mem_cons noZero)
            (List.not_mem_of_not_mem_cons otherNoZero)
          simp only [zeroPadded, List.length_cons, Nat.add_sub_add_right,
            List.cons_append, List.cons_lt_cons_iff] at next ⊢
          rw [next]

end BMChain.Foundation

import Mathlib.Algebra.Group.Nat.Defs
import Mathlib.Data.List.Basic
import Mathlib.Tactic.Common

/-!
# Shift registers

A number of a fixed width into which bits are shifted from below.  The bit
which leaves at the top and the bit which enters are all that changes in the
number of ones.
-/

namespace BMChain.Foundation

/-- Shift a bit into a register of the given width. -/
def shiftIn (width register : Nat) (bit : Bool) : Nat :=
  (register * 2 + bit.toNat) % 2 ^ width

/-- Shift a one into a register, and after it as many zeros as given. -/
def shiftInGap (width register gap : Nat) : Nat :=
  (List.range (gap + 1)).foldl
    (fun register place => shiftIn width register (place = 0)) register

/-- The number of ones among the lowest bits. -/
def onesBelow (width register : Nat) : Nat :=
  (List.range width).countP register.testBit

section ShiftIn

variable (width register : Nat) (bit : Bool)

@[simp]
theorem testBit_shiftIn_zero :
    (shiftIn (width + 1) register bit).testBit 0 = bit := by
  have low : (register * 2 + bit.toNat) % 2 = bit.toNat := by
    rw [Nat.mul_add_mod_self_right]
    exact Nat.mod_eq_of_lt (Bool.toNat_lt bit)
  rw [shiftIn, Nat.testBit_mod_two_pow, Nat.testBit_zero, low]
  cases bit <;> rfl

theorem testBit_shiftIn_succ (place : Nat) :
    (shiftIn width register bit).testBit (place + 1) =
      (decide (place + 1 < width) && register.testBit place) := by
  have half : (register * 2 + bit.toNat) / 2 = register := by
    have small := Bool.toNat_lt bit
    omega
  rw [shiftIn, Nat.testBit_mod_two_pow, Nat.testBit_succ, half]

/-- The one is as far up as there are zeros behind it. -/
theorem testBit_shiftInGap
    (gap : Nat)
    {place : Nat}
    (inside : place < width + 1) :
    (shiftInGap (width + 1) register gap).testBit place =
      if place < gap then false
      else if place = gap then true
      else register.testBit (place - gap - 1) := by
  induction gap generalizing place with
  | zero =>
      rw [if_neg (Nat.not_lt_zero _)]
      show (shiftIn (width + 1) register true).testBit place = _
      cases place with
      | zero => exact testBit_shiftIn_zero width register true
      | succ place =>
          rw [testBit_shiftIn_succ, decide_eq_true inside, Bool.true_and]
          rfl
  | succ gap induction =>
      have last : shiftInGap (width + 1) register (gap + 1) =
          shiftIn (width + 1) (shiftInGap (width + 1) register gap)
            false := by
        rw [shiftInGap, List.range_succ, List.foldl_append]
        rfl
      rw [last]
      cases place with
      | zero =>
          rw [testBit_shiftIn_zero, if_pos (Nat.succ_pos gap)]
      | succ place =>
          rw [testBit_shiftIn_succ, decide_eq_true inside, Bool.true_and,
            induction (Nat.lt_of_succ_lt inside)]
          simp only [Nat.add_lt_add_iff_right, Nat.add_right_cancel_iff,
            Nat.add_sub_add_right]

theorem onesBelow_le : onesBelow width register ≤ width := by
  have bound := List.countP_le_length
    (p := register.testBit) (l := List.range width)
  rw [List.length_range] at bound
  exact bound

/-- A bit which enters is counted, and the one which leaves no longer is. -/
theorem onesBelow_shiftIn :
    onesBelow (width + 1) (shiftIn (width + 1) register bit) +
        (register.testBit width).toNat =
      onesBelow (width + 1) register + bit.toNat := by
  have entered : onesBelow (width + 1) (shiftIn (width + 1) register bit) =
      onesBelow width register + bit.toNat := by
    rw [onesBelow, List.range_succ_eq_map, List.countP_cons,
      testBit_shiftIn_zero, List.countP_map]
    have moved : (List.range width).countP
        ((shiftIn (width + 1) register bit).testBit ∘ Nat.succ) =
          onesBelow width register := by
      refine List.countP_congr fun place member => ?_
      have inside := List.mem_range.1 member
      rw [Function.comp_apply, Nat.succ_eq_add_one, testBit_shiftIn_succ,
        decide_eq_true (Nat.succ_lt_succ inside), Bool.true_and]
    rw [moved]
    cases bit <;> rfl
  have left : onesBelow (width + 1) register =
      onesBelow width register + (register.testBit width).toNat := by
    rw [onesBelow, List.range_succ, List.countP_append, List.countP_singleton]
    cases register.testBit width <;> rfl
  rw [entered, left]
  exact Nat.add_right_comm _ _ _

end ShiftIn

end BMChain.Foundation

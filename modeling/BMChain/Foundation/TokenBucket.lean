import BMChain.Foundation.SharePool

/-!
# Token buckets

A bucket holds a level which is refilled at a rate up to its capacity, and from
which whoever draws first adds what was refilled since the last draw.  The
refill is rounded down at each draw, so that the draws are together within the
level at the start and the refill of the time between the first and the last.
-/

namespace BMChain.Foundation

/-- A capacity and the rate at which a bucket is filled: `part` for `whole`. -/
structure Refill where
  capacity : Int
  part : Int
  whole : Int

/-- The refill takes place at a proper rate. -/
structure Refill.Proper (refill : Refill) : Prop where
  capacity : 0 ≤ refill.capacity
  part : 0 ≤ refill.part
  whole : 0 < refill.whole

/-- The level after the last draw and its time. -/
structure TokenBucket where
  level : Int
  time : Int

namespace TokenBucket

/-- What was refilled since the last draw. -/
def refilled (refill : Refill) (bucket : TokenBucket) (now : Int) : Int :=
  portion (now - bucket.time) refill.part refill.whole

/-- What can be drawn now. -/
def available (refill : Refill) (bucket : TokenBucket) (now : Int) : Int :=
  min (bucket.level + bucket.refilled refill now) refill.capacity

/-- The bucket after a draw. -/
def draw (refill : Refill) (bucket : TokenBucket) (now used : Int) :
    TokenBucket :=
  ⟨bucket.available refill now - used, now⟩

/-- The level is between nothing and the capacity. -/
structure Within (refill : Refill) (bucket : TokenBucket) : Prop where
  nonneg : 0 ≤ bucket.level
  le : bucket.level ≤ refill.capacity

/-- What was drawn since a start, with the level which is left, was there. -/
structure Covers (refill : Refill) (start bucket : TokenBucket)
    (drawn : Int) : Prop where
  later : start.time ≤ bucket.time
  covered :
    drawn + bucket.level ≤ start.level + start.refilled refill bucket.time

variable {refill : Refill} {start bucket : TokenBucket} {now used drawn : Int}

/-- A draw of no more than there is leaves the level in its bounds. -/
theorem within_draw
    (nonneg : 0 ≤ used)
    (enough : used ≤ bucket.available refill now) :
    (bucket.draw refill now used).Within refill := by
  constructor
  · exact Int.sub_nonneg_of_le enough
  · have capped : bucket.available refill now ≤ refill.capacity :=
      min_le_right _ _
    exact Int.le_trans (Int.sub_le_self _ nonneg) capped

theorem Covers.refl
    (bucket : TokenBucket) :
    bucket.Covers refill bucket 0 := by
  constructor
  · exact Int.le_refl _
  · rw [refilled, Int.sub_self, portion_zero, Int.zero_add, Int.add_zero]

/-- A draw is covered with those before. -/
theorem Covers.draw
    (proper : refill.Proper)
    (covers : start.Covers refill bucket drawn)
    (later : bucket.time ≤ now) :
    start.Covers refill (bucket.draw refill now used) (drawn + used) := by
  refine ⟨Int.le_trans covers.later later, ?_⟩
  have refills : start.refilled refill bucket.time +
      bucket.refilled refill now ≤ start.refilled refill now := by
    have sum : portion (bucket.time - start.time) refill.part refill.whole +
        portion (now - bucket.time) refill.part refill.whole ≤
          portion (bucket.time - start.time + (now - bucket.time)) refill.part
            refill.whole :=
      portion_add_le proper.whole
    have time : bucket.time - start.time + (now - bucket.time) =
        now - start.time := by
      omega
    rw [time] at sum
    exact sum
  have capped : bucket.available refill now ≤
      bucket.level + bucket.refilled refill now :=
    min_le_left _ _
  have covered := covers.covered
  show drawn + used + (bucket.available refill now - used) ≤
    start.level + start.refilled refill now
  omega

/-- What was drawn is within the level at the start and the refill. -/
theorem Covers.drawn_le
    (proper : refill.Proper)
    (covers : start.Covers refill bucket drawn)
    (within : bucket.Within refill)
    (later : bucket.time ≤ now) :
    drawn ≤ start.level + start.refilled refill now := by
  have level := within.nonneg
  have covered := covers.covered
  have grown : start.refilled refill bucket.time ≤ start.refilled refill now :=
    Int.ediv_le_ediv proper.whole
      (Int.mul_le_mul_of_nonneg_right (Int.sub_le_sub_right later _)
        proper.part)
  omega

end TokenBucket

end BMChain.Foundation

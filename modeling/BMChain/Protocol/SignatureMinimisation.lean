import BMChain.Foundation.GreedyRemoval
import BMChain.Protocol.AuthoritySearch

/-!
# The minimisation of signatures

`get_required_signatures` searches with all available keys and returns those
which it met; `minimize_required_signatures` takes them away one after another
and asks `verify_authority` about the rest.  It puts a key back when an
authority is missing then.  `verify_authority` also refuses a key without a
use, and that exception is not caught: a key can lose its use when another one
is taken away, since the search remembers what it has approved and looks no
deeper than `max_recursion` accounts.
-/

namespace BMChain.Protocol

open Std
open Foundation
open SignState

/-! ## The two functions -/

/-- A check whose answer is not looked at. -/
def visit (check : SignState → Verdict) (state : SignState) :
    Except Fault SignState := do
  let (_, state) ← check state
  pure state

section Minimisation

variable (ops : List Operation)
variable (signatures available : List PublicKey)
variable (getActive getOwner getPosting : AuthorityGetter)
variable (maxRecursionDepth : Nat)

end Minimisation

section Steadiness

variable (ops : List Operation)
variable (signatures available : List PublicKey)
variable (getActive getOwner getPosting : AuthorityGetter)
variable (maxRecursionDepth : Nat)

end Steadiness

end BMChain.Protocol

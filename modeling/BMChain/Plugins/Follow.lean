import BMChain.Foundation.RowCount
import BMChain.State.Database

/-!
# Followers

The follow plugin keeps a row for every pair of accounts of which one has said
something about the other, and for every account how many accounts it follows
and how many follow it.  These two numbers are moved along with the rows, in
32 bits.
-/

namespace BMChain.Plugins

open BMChain.Foundation BMChain.Protocol BMChain.State

/-! ## The operation -/

/-- `follow_type`. -/
inductive FollowType where
  | undefined
  | blog
  | ignore

/-- The place of a follow type in the bits of `what`. -/
def FollowType.bit : FollowType → Nat
  | .undefined => 0
  | .blog => 1
  | .ignore => 2

/-- `follow_type_map`; an unknown name is entered as `undefined`. -/
def followTypeMap (name : String) : FollowType :=
  if name = "blog" then .blog
  else if name = "ignore" then .ignore
  else .undefined

/-- `follow_object`. -/
structure FollowObject where
  follower : AccountName
  following : AccountName
  what : Nat

/-- `follow_count_object`. -/
structure FollowCountObject where
  account : AccountName
  followerCount : Nat
  followingCount : Nat

/-- The objects which `follow_evaluator` works on; the counts are by account. -/
structure FollowState where
  follows : Table FollowObject
  counts : Register FollowCountObject

/-- `follow_operation`. -/
structure FollowOperation where
  follower : AccountName
  following : AccountName
  what : List String

/-- The row follows the blog. -/
def FollowObject.isBlog (row : FollowObject) : Bool :=
  row.what.testBit FollowType.blog.bit

/-- The bits for one name of the operation, and whether it is `blog`. -/
def addTarget (read : Nat × Bool) (target : String) : Nat × Bool :=
  match followTypeMap target with
  | .blog => (read.1 ||| 2 ^ FollowType.blog.bit, true)
  | .ignore => (read.1 ||| 2 ^ FollowType.ignore.bit, read.2)
  | .undefined => read

/-- What the operation asks for: the bits, and whether the blog is followed. -/
def FollowOperation.target (op : FollowOperation) : Nat × Bool :=
  op.what.foldl addTarget (0, false)

/-- One row of the counts goes from one state of the pair to the next. -/
def recount (wasFollowed isFollowing : Bool) (count : Nat) : Nat :=
  let count := if wasFollowed then decrement 32 count else count
  if isFollowing then increment 32 count else count

namespace FollowState

/-- No account has followed another one yet. -/
def empty : FollowState :=
  ⟨.empty, .empty⟩

/-- The row of a pair of accounts. -/
def pair (state : FollowState) (op : FollowOperation) :
    Option (Nat × FollowObject) :=
  state.follows.findBy fun row =>
    row.follower = op.follower && row.following = op.following

/-- Write the row of the pair; the flag says whether it followed the blog. -/
def writePair (state : FollowState) (op : FollowOperation) (what : Nat) :
    Table FollowObject × Bool :=
  match state.pair op with
  | none => (state.follows.emplace ⟨op.follower, op.following, what⟩, false)
  | some (id, row) =>
      (state.follows.set id { row with what := what }, row.isBlog)

/-- The count of the follower. -/
def countFollower (counts : Register FollowCountObject)
    (name : AccountName) (wasFollowed isFollowing : Bool) :
    Register FollowCountObject :=
  match counts.find? name with
  | none => counts.emplace name ⟨name, 0, if isFollowing then 1 else 0⟩
  | some count =>
      counts.set name { count with
        followingCount :=
          recount wasFollowed isFollowing count.followingCount }

/-- The count of the followed account. -/
def countFollowing (counts : Register FollowCountObject)
    (name : AccountName) (wasFollowed isFollowing : Bool) :
    Register FollowCountObject :=
  match counts.find? name with
  | none => counts.emplace name ⟨name, if isFollowing then 1 else 0, 0⟩
  | some count =>
      counts.set name { count with
        followerCount := recount wasFollowed isFollowing count.followerCount }

/-- `follow_evaluator::do_apply`. -/
def doApply (state : FollowState) (op : FollowOperation) :
    Except Fault FollowState := do
  let (what, isFollowing) := op.target
  require
    (what.testBit FollowType.ignore.bit = true →
      what.testBit FollowType.blog.bit = false)
    "Cannot follow blog and ignore author at the same time"
  let (follows, wasFollowed) := state.writePair op what
  let counts :=
    countFollower state.counts op.follower wasFollowed isFollowing
  let counts := countFollowing counts op.following wasFollowed isFollowing
  pure ⟨follows, counts⟩

/-- A sequence of applied operations. -/
def run (state : FollowState) (ops : List FollowOperation) :
    Except Fault FollowState :=
  ops.foldlM doApply state

/-! ## The numbers -/

/-- The number of accounts which an account follows. -/
def followed (state : FollowState) (name : AccountName) : Nat :=
  state.follows.countOf fun row => row.follower = name && row.isBlog

/-- The number of accounts which follow an account. -/
def followers (state : FollowState) (name : AccountName) : Nat :=
  state.follows.countOf fun row => row.following = name && row.isBlog

/-- The stored number of followed accounts; without an object it is zero. -/
def followingCount (state : FollowState) (name : AccountName) : Nat :=
  ((state.counts.find? name).map FollowCountObject.followingCount).getD 0

/-- The stored number of followers; without an object it is zero. -/
def followerCount (state : FollowState) (name : AccountName) : Nat :=
  ((state.counts.find? name).map FollowCountObject.followerCount).getD 0

end FollowState

end BMChain.Plugins

import BMChain.Protocol.Block

/-!
# The fork database

The fork database keeps recent blocks as shared items.  An item points to its
predecessor by a weak pointer which is set once, when the item is pushed, so
an item is represented by its block together with the chain of predecessors
behind it.  Every item has a handle, its identity in memory: a weak pointer
can be locked only while the item it points to is held by somebody, that is,
while it is in the index, is the head, or is held by the running caller.

Items that fail to link are refused before they reach the unlinked index,
which is therefore always empty and left out.
-/

namespace BMChain.Chain

open BMChain.Protocol

/-- A `fork_item` with the predecessors its weak pointers lead to. -/
structure ForkItem (Content Body : Type) where
  handle : Nat
  data : SignedBlock Content Body
  back : List (Nat × SignedBlock Content Body)
  deriving DecidableEq

/--
`fork_database`.  `held` are the handles which the running caller keeps alive
besides the index and the head.
-/
structure ForkDatabase (Content Body : Type) where
  index : List (ForkItem Content Body)
  head : Option (ForkItem Content Body)
  maxSize : Nat
  nextHandle : Nat
  held : List Nat
  deriving DecidableEq

/-- Why the fork database refuses a block. -/
inductive ForkFault where
  | tooOld
  | unlinkable
  deriving DecidableEq, Repr

variable {Content Body : Type}

namespace ForkItem

/-- The member `num`. -/
def num (item : ForkItem Content Body) : Nat := item.data.blockNum

/-- The member `id`. -/
def id (item : ForkItem Content Body) : BlockId Content := item.data.id

/-- `previous_id`. -/
def previousId (item : ForkItem Content Body) : BlockId Content :=
  item.data.previous

/-- What a new item pointing to `item` has behind it. -/
def chain
    (item : ForkItem Content Body) :
    List (Nat × SignedBlock Content Body) :=
  (item.handle, item.data) :: item.back

end ForkItem

namespace ForkDatabase

variable [DecidableEq Content]
variable (db : ForkDatabase Content Body)

/-- Lookup in the index by block id (`fetch_block`). -/
def fetchBlock
    (id : BlockId Content) :
    Option (ForkItem Content Body) :=
  db.index.find? fun item => item.id = id

/-- The item with this handle still exists. -/
def alive
    (handle : Nat) : Bool :=
  db.index.any (fun item => item.handle = handle) ||
    db.head.any (fun item => item.handle = handle) ||
    db.held.contains handle

/-- Lock the weak pointer of an item. -/
def lockPrev
    (item : ForkItem Content Body) :
    Option (ForkItem Content Body) :=
  match item.back with
  | [] => none
  | (handle, data) :: back =>
      if db.alive handle then some ⟨handle, data, back⟩ else none

/-- `pop_block`; `none` stands for a failed assertion. -/
def popBlock
    (db : ForkDatabase Content Body) :
    Option (ForkDatabase Content Body) := do
  let head ← db.head
  let prev ← db.lockPrev head
  return { db with head := some prev }

/-- `start_block`. -/
def startBlock
    (block : SignedBlock Content Body) :
    ForkDatabase Content Body :=
  let item : ForkItem Content Body := ⟨db.nextHandle, block, []⟩
  { db with
    index :=
      if (db.fetchBlock block.id).isSome then db.index
      else item :: db.index
    head := some item
    nextHandle := db.nextHandle + 1 }

/-- The last two lines of `_push_block`: insert, and compare with the head. -/
def insertItem
    (item : ForkItem Content Body) :
    ForkDatabase Content Body :=
  { db with
    index :=
      if (db.fetchBlock item.id).isSome then db.index
      else item :: db.index
    head :=
      match db.head with
      | none => some item
      | some head => if item.num > head.num then some item else some head
    nextHandle := db.nextHandle + 1 }

/-- The block number a new item has to exceed. -/
def lowerBound (db : ForkDatabase Content Body) : Nat :=
  match db.head with
  | none => 0
  | some head => head.num - db.maxSize

/-- `_push_block`; a refused block leaves no trace. -/
def pushBlock
    (block : SignedBlock Content Body) :
    Except ForkFault (ForkDatabase Content Body) :=
  let item := fun back => (⟨db.nextHandle, block, back⟩ : ForkItem _ _)
  if db.head.isSome ∧ ¬ block.blockNum > db.lowerBound then
    .error .tooOld
  else if db.head.isSome ∧ block.previous ≠ .zero then
    match db.fetchBlock block.previous with
    | none => .error .unlinkable
    | some prev => .ok (db.insertItem (item prev.chain))
  else
    .ok (db.insertItem (item []))

/-- `set_max_size`: drop what is below the new window. -/
def setMaxSize
    (size : Nat) :
    ForkDatabase Content Body :=
  match db.head with
  | none => { db with maxSize := size }
  | some head =>
      { db with
        maxSize := size
        index := db.index.filter fun item =>
          ! decide (item.num < head.num - size) }

/-- `set_head`. -/
def setHead
    (item : ForkItem Content Body) :
    ForkDatabase Content Body :=
  { db with head := some item }

/-- `remove`: out of the index, whoever still points to the item. -/
def remove
    (id : BlockId Content) :
    ForkDatabase Content Body :=
  { db with index := db.index.filter fun item => item.id ≠ id }

/-- `fetch_block_by_number`. -/
def fetchBlockByNumber
    (num : Nat) :
    List (ForkItem Content Body) :=
  db.index.filter fun item => item.num = num

/-! ## Walking back -/

/-- Follow weak pointers while the block number exceeds `num`. -/
def walkDown
    (db : ForkDatabase Content Body)
    (num : Nat) :
    Nat → SignedBlock Content Body →
      List (Nat × SignedBlock Content Body) →
      Option (List (ForkItem Content Body) × ForkItem Content Body)
  | handle, data, [] =>
      if data.blockNum > num then none
      else some ([], ⟨handle, data, []⟩)
  | handle, data, (prevHandle, prevData) :: back =>
      if data.blockNum > num then
        if db.alive prevHandle then do
          let (passed, last) ← db.walkDown num prevHandle prevData back
          return (⟨handle, data, (prevHandle, prevData) :: back⟩ :: passed,
            last)
        else
          none
      else
        some ([], ⟨handle, data, (prevHandle, prevData) :: back⟩)

/--
The last loop of `fetch_branch_from`: walk both branches in step until their
items have the same predecessor.
-/
def walkTogether
    (db : ForkDatabase Content Body) :
    ForkItem Content Body →
      List (Nat × SignedBlock Content Body) →
      ForkItem Content Body →
      Option (List (ForkItem Content Body) × List (ForkItem Content Body))
  | first, firstBack, second =>
      if first.previousId = second.previousId then
        some ([first], [second])
      else
        match firstBack with
        | [] => none
        | (handle, data) :: back =>
            if db.alive handle then do
              let prev ← db.lockPrev second
              let (firsts, seconds) ←
                db.walkTogether ⟨handle, data, back⟩ back prev
              return (first :: firsts, second :: seconds)
            else
              none

/--
`fetch_branch_from`: both branches, newest block first, down to the blocks
with a common predecessor.
-/
def fetchBranchFrom
    (first second : BlockId Content) :
    Option (List (ForkItem Content Body) × List (ForkItem Content Body)) :=
  do
  let firstItem ← db.fetchBlock first
  let secondItem ← db.fetchBlock second
  let (firsts, firstItem) ←
    db.walkDown secondItem.num firstItem.handle firstItem.data
      firstItem.back
  let (seconds, secondItem) ←
    db.walkDown firstItem.num secondItem.handle secondItem.data
      secondItem.back
  let (lastFirsts, lastSeconds) ←
    db.walkTogether firstItem firstItem.back secondItem
  return (firsts ++ lastFirsts, seconds ++ lastSeconds)

/-- `walk_main_branch_to_num`. -/
def walkMainBranchToNum
    (num : Nat) :
    Option (ForkItem Content Body) := do
  let head ← db.head
  if num > head.num then
    none
  else
    let (_, item) ← db.walkDown num head.handle head.data head.back
    return item

/-- `fetch_block_on_main_branch_by_number`. -/
def fetchBlockOnMainBranchByNumber
    (num : Nat) :
    Option (ForkItem Content Body) :=
  match db.fetchBlockByNumber num with
  | [] => none
  | [item] => some item
  | _ => db.walkMainBranchToNum num

end ForkDatabase

end BMChain.Chain

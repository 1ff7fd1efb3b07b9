import BMChain.Chain.BlockLookup

/-!
# Synchronizing with a peer

A node which wants blocks sends a synopsis of its chain: ids of its blocks at
growing heights, ever closer to the head.  Its peer looks for the last of them
on its own chain and answers with the ids of the blocks from there on.  Block
numbers are counted in 32 bits.
-/

namespace BMChain.App

open BMChain.Protocol BMChain.Foundation BMChain.Chain

variable {Content Body Rest : Type}

/-- Why a node does not answer. -/
inductive SyncFault where
  /-- The block log reads another block than the one asked for. -/
  | wrongBlock
  /-- `bid != block_id_type()`. -/
  | noSuchBlock
  /-- The fork database does not find the branch of the reference point. -/
  | unlinkedFork
  | blockOlderThanUndoHistory
  | peerIsOnAnUnreachableFork
  /-- The loop does not come to an end. -/
  | endless
  deriving DecidableEq, Repr

variable [DecidableEq Content]
variable (db : Database Content Body (Summaries Content × Rest))

/-! ## Lookups -/

/-- `database::get_block_id_for_num`. -/
def getBlockIdForNum
    (num : Nat) :
    Except SyncFault (BlockId Content) :=
  match db.findBlockIdForNum num with
  | .error .wrongBlock => .error .wrongBlock
  | .ok id => if id = .zero then .error .noSuchBlock else .ok id

/-- `database::is_known_block`. -/
def isKnownBlock
    (id : BlockId Content) :
    Except SyncFault Bool :=
  match db.forkDb.fetchBlock id with
  | some _ => .ok true
  | none =>
      match db.readBlockByNum id.num with
      | .error .wrongBlock => .error .wrongBlock
      | .ok none => .ok false
      | .ok (some block) => .ok (decide (block.id = id))

/-- `is_included_block`. -/
def isIncludedBlock
    (id : BlockId Content) :
    Except SyncFault Bool := do
  let preferred ← getBlockIdForNum db id.num
  return decide (id = preferred)

/--
`database::get_block_ids_on_fork`: the ids of the branch, newest first, and
the common ancestor.
-/
def getBlockIdsOnFork
    (headOfFork : BlockId Content) :
    Except SyncFault (List (BlockId Content) × BlockId Content) :=
  match db.forkDb.fetchBranchFrom db.chain.current.headBlockId
      headOfFork with
  | none => .error .unlinkedFork
  | some (first, second) =>
      match first.getLast? with
      | none => .error .unlinkedFork
      | some last => .ok (second.map ForkItem.id, last.previousId)

/-! ## The synopsis -/

/-- The blocks which a synopsis is about. -/
structure SynopsisRange (Content : Type) where
  lowBlockNum : Nat
  highBlockNum : Nat
  nonForkHighBlockNum : Nat
  forkHistory : List (BlockId Content)

/-- The first part of `get_blockchain_synopsis`; nothing without blocks. -/
def synopsisRange
    (reference : BlockId Content) :
    Except SyncFault (Option (SynopsisRange Content)) :=
  let low := db.chain.current.lastIrreversibleBlockNum
  if reference ≠ .zero then do
    if ← isIncludedBlock db reference then
      return some
        { lowBlockNum := min low reference.num
          highBlockNum := reference.num
          nonForkHighBlockNum := reference.num
          forkHistory := [] }
    else
      let (branch, ancestor) ← getBlockIdsOnFork db reference
      if ancestor.num < low then
        throw .blockOlderThanUndoHistory
      return some
        { lowBlockNum := low
          highBlockNum := (ancestor.num + branch.length) % 2 ^ 32
          nonForkHighBlockNum := ancestor.num
          forkHistory := branch.reverse }
  else if db.chain.current.headBlockNum = 0 then
    .ok none
  else
    .ok (some
      { lowBlockNum := low
        highBlockNum := db.chain.current.headBlockNum
        nonForkHighBlockNum := db.chain.current.headBlockNum
        forkHistory := [] })

/-- The id which stands for a height in the synopsis. -/
def synopsisId
    (range : SynopsisRange Content)
    (num : Nat) :
    Except SyncFault (BlockId Content) :=
  if num ≤ range.nonForkHighBlockNum then getBlockIdForNum db num
  else
    match range.forkHistory[num - range.nonForkHighBlockNum - 1]? with
    | none => .error .noSuchBlock
    | some id => .ok id

/-- The next height of a synopsis, half of the way up. -/
def nextLow (trueHigh low : Nat) : Nat :=
  (low + (trueHigh + 2 ^ 32 - low + 2) % 2 ^ 32 / 2) % 2 ^ 32

/-- The loop of `get_blockchain_synopsis`, from a height on. -/
def synopsisAlong
    (db : Database Content Body (Summaries Content × Rest))
    (range : SynopsisRange Content)
    (trueHigh : Nat) :
    Nat → Nat → Except SyncFault (List (BlockId Content))
  | 0, _ => .error .endless
  | rounds + 1, low => do
      let id ← synopsisId db range low
      if nextLow trueHigh low ≤ range.highBlockNum then
        let rest ← synopsisAlong db range trueHigh rounds
          (nextLow trueHigh low)
        return id :: rest
      else
        return [id]

/--
`get_blockchain_synopsis`.  Every round of its loop which is not the last goes
up, or there is no last one.
-/
def getBlockchainSynopsis
    (reference : BlockId Content)
    (numberOfBlocksAfter : Nat) :
    Except SyncFault (List (BlockId Content)) := do
  match ← synopsisRange db reference with
  | none => return []
  | some range =>
      let low := if range.lowBlockNum = 0 then 1 else range.lowBlockNum
      synopsisAlong db range
        ((range.highBlockNum + numberOfBlocksAfter) % 2 ^ 32)
        (range.highBlockNum + 1) low

/-! ## The answer -/

/-- The first loop of `get_block_ids`, over the synopsis backwards. -/
def lastKnownBlockId
    (db : Database Content Body (Summaries Content × Rest)) :
    List (BlockId Content) → Except SyncFault (BlockId Content)
  | [] => .error .peerIsOnAnUnreachableFork
  | id :: older => do
      if id = .zero then
        return id
      let known ← isKnownBlock db id
      let included ← if known then isIncludedBlock db id else pure false
      if included then return id else lastKnownBlockId db older

/-- The second loop of `get_block_ids`, with room for `room` more ids. -/
def blockIdsAlong
    (db : Database Content Body (Summaries Content × Rest)) :
    Nat → Nat → Nat → Except SyncFault (List (BlockId Content))
  | 0, _, _ => .error .endless
  | rounds + 1, num, room =>
      if num ≤ db.chain.current.headBlockNum ∧ 0 < room then
        if 0 < num then do
          let id ← getBlockIdForNum db num
          let rest ← blockIdsAlong db rounds ((num + 1) % 2 ^ 32) (room - 1)
          return id :: rest
        else
          blockIdsAlong db rounds ((num + 1) % 2 ^ 32) room
      else
        .ok []

/--
`get_block_ids`: the ids and `remaining_item_count`.  Of two rounds of the
second loop, one at least takes an id.
-/
def getBlockIds
    (synopsis : List (BlockId Content))
    (limit : Nat) :
    Except SyncFault (List (BlockId Content) × Nat) :=
  let head := db.chain.current.headBlockNum
  if head = 0 then .ok ([], 0)
  else do
    let last ←
      if synopsis = [] ∨ synopsis = [.zero] then pure .zero
      else lastKnownBlockId db synopsis.reverse
    let ids ← blockIdsAlong db (2 * limit + 2) last.num limit
    match ids.getLast? with
    | none => return (ids, 0)
    | some top => return (ids, if top.num < head then head - top.num else 0)

end BMChain.App

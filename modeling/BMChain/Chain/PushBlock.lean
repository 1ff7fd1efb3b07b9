import BMChain.Chain.ForkDatabase
import BMChain.Foundation.SnapshotStack
import Mathlib.Data.List.Sort

/-!
# Pushing blocks

`database::_push_block` brings three things together: the chain state with its
undo stack, the fork database, and the block log.  The chain state is kept as
the fields of the dynamic global properties which this code reads and writes,
and the rest of the state; applying a block to the rest is split where
`_apply_block` touches the undo stack, the log and the fork database, that
is, at `update_last_irreversible_block`.

An exception out of a block's application is caught inside `_push_block` or
passed on; the functions below return the database they leave together with
the way they ended.
-/

namespace BMChain.Chain

open BMChain.Protocol
open BMChain.Foundation

/--
The chain state as the block machinery sees it.  `applied` are the ids of the
applied blocks, newest first: the chain the head's predecessors lead through.
-/
structure ChainState (Content Rest : Type) where
  headBlockId : BlockId Content
  headBlockNum : Nat
  lastIrreversibleBlockNum : Nat
  applied : List (BlockId Content)
  rest : Rest
  deriving DecidableEq

/--
How a block acts on the rest of the state.  A failed part returns the state
in which the exception left it.
-/
structure Rules (Content Body Rest : Type) where
  /-- `_apply_block` up to `update_signing_witness`, after the link check. -/
  prelude :
    ChainState Content Rest → SignedBlock Content Body → Except Rest Rest
  /-- `last_confirmed_block_num` of the scheduled witnesses. -/
  lastConfirmed : Rest → List Nat
  /-- `_apply_block` from `create_block_summary` to its end. -/
  maintenance :
    ChainState Content Rest → SignedBlock Content Body → Except Rest Rest

/--
The state of `database`.  `poppedEmpty` remembers that a block was popped
while the undo stack was empty.
-/
structure Database (Content Body Rest : Type) where
  chain : SnapshotStack (ChainState Content Rest)
  forkDb : ForkDatabase Content Body
  blockLog : List (SignedBlock Content Body)
  poppedEmpty : Bool
  deriving DecidableEq

/-- How a call of `push_block` ends. -/
inductive Outcome where
  | returned (switched : Bool)
  | thrown
  deriving DecidableEq, Repr

/-- `BMCHAIN_MAX_WITNESSES`. -/
def maxWitnesses : Nat := 21

/-- `BMCHAIN_BLOCKS_PER_DAY`. -/
def blocksPerDay : Nat := 24 * 60 * 60 / 3

/-- `BMCHAIN_START_MINER_VOTING_BLOCK`. -/
def startMinerVotingBlock : Nat := blocksPerDay * 30

/-- `BMCHAIN_100_PERCENT`. -/
def hundredPercent : Nat := 10000

/-- `BMCHAIN_IRREVERSIBLE_THRESHOLD`. -/
def irreversibleThreshold : Nat := 75 * 100

variable {Content Body Rest : Type}

/-! ## Applying a block -/

/--
The first half of `update_last_irreversible_block`: the new
`last_irreversible_block_num`.  The schedule always has a witness, so the
selected element exists.
-/
def newLastIrreversible
    (head last : Nat)
    (confirmed : List Nat) : Nat :=
  if head < startMinerVotingBlock then
    if head > maxWitnesses then head - maxWitnesses else last
  else
    let offset :=
      (hundredPercent - irreversibleThreshold) * confirmed.length /
        hundredPercent
    match (confirmed.mergeSort fun a b => decide (a ≤ b))[offset]? with
    | some num => if num > last then num else last
    | none => last

namespace Database

variable [DecidableEq Content]
variable (db : Database Content Body Rest)

/-- `block_log::head`, as its block number; an empty log counts as zero. -/
def logHeadNum (db : Database Content Body Rest) : Nat :=
  match db.blockLog with
  | [] => 0
  | block :: _ => block.blockNum

/--
The loop which appends irreversible blocks to the log; `count` blocks are
missing.  The flag says whether every block was found.
-/
def appendToLog :
    Nat → Database Content Body Rest →
      Database Content Body Rest × Bool
  | 0, db => (db, true)
  | count + 1, db =>
      match db.forkDb.fetchBlockOnMainBranchByNumber
          (db.logHeadNum + 1) with
      | none => (db, false)
      | some item =>
          appendToLog count
            { db with blockLog := item.data :: db.blockLog }

/-- `update_last_irreversible_block`, after the number has been updated. -/
def commitIrreversible
    (db : Database Content Body Rest) :
    Database Content Body Rest × Bool :=
  let dpo := db.chain.current
  let last := dpo.lastIrreversibleBlockNum
  let db := { db with chain := db.chain.commit last }
  match appendToLog (last - db.logHeadNum) db with
  | (db, false) => (db, false)
  | (db, true) =>
      ({ db with
          forkDb :=
            db.forkDb.setMaxSize
              ((dpo.headBlockNum + 2 ^ 32 - last + 1) % 2 ^ 32) }, true)

/-- The state after `update_last_irreversible_block` has set its number. -/
def headState
    (rules : Rules Content Body Rest)
    (state : ChainState Content Rest)
    (block : SignedBlock Content Body)
    (rest : Rest) :
    ChainState Content Rest where
  headBlockId := block.id
  headBlockNum := block.blockNum
  lastIrreversibleBlockNum :=
    newLastIrreversible block.blockNum state.lastIrreversibleBlockNum
      (rules.lastConfirmed rest)
  applied := block.id :: state.applied
  rest := rest

/-- `apply_block`; the flag says whether it returned. -/
def applyBlock
    (rules : Rules Content Body Rest)
    (db : Database Content Body Rest)
    (block : SignedBlock Content Body) :
    Database Content Body Rest × Bool :=
  let state := db.chain.current
  if block.previous ≠ state.headBlockId then
    (db, false)
  else
    match rules.prelude state block with
    | .error rest =>
        ({ db with chain := db.chain.update { state with rest := rest } },
          false)
    | .ok rest =>
        let state := headState rules state block rest
        match commitIrreversible
            { db with chain := db.chain.update state } with
        | (db, false) => (db, false)
        | (db, true) =>
            match rules.maintenance state block with
            | .error rest =>
                ({ db with
                    chain := db.chain.update { state with rest := rest } },
                  false)
            | .ok rest =>
                ({ db with
                    chain := db.chain.update { state with rest := rest } },
                  true)

/--
A block applied inside its own undo session: the session is kept when the
application returns and undone when it throws.
-/
def applyInSession
    (rules : Rules Content Body Rest)
    (db : Database Content Body Rest)
    (block : SignedBlock Content Body) :
    Database Content Body Rest × Bool :=
  match applyBlock rules
      { db with chain := db.chain.startSession } block with
  | (db, true) => (db, true)
  | (db, false) => ({ db with chain := db.chain.undo }, false)

/-! ## Popping blocks -/

/-- `fetch_block_by_id`, in the fork database or in the block log. -/
def fetchBlockById
    (id : BlockId Content) :
    Option (SignedBlock Content Body) :=
  match db.forkDb.fetchBlock id with
  | some item => some item.data
  | none =>
      db.blockLog.find? fun block =>
        decide (block.blockNum = id.num) && decide (block.id = id)

/-- `pop_block`. -/
def popBlock
    (db : Database Content Body Rest) :
    Database Content Body Rest × Bool :=
  match db.fetchBlockById db.chain.current.headBlockId with
  | none => (db, false)
  | some _ =>
      match db.forkDb.popBlock with
      | none => (db, false)
      | some forkDb =>
          ({ db with
              forkDb := forkDb
              chain := db.chain.undo
              poppedEmpty := db.poppedEmpty || db.chain.saved.isEmpty },
            true)

/-- Pop at most `fuel` blocks until the head is `target`. -/
def popUntil
    (target : BlockId Content) :
    Nat → Database Content Body Rest →
      Database Content Body Rest × Bool
  | 0, db => (db, decide (db.chain.current.headBlockId = target))
  | fuel + 1, db =>
      if db.chain.current.headBlockId = target then
        (db, true)
      else
        match db.popBlock with
        | (db, false) => (db, false)
        | (db, true) => popUntil target fuel db

/--
The loops `while( head_block_id() != target ) pop_block()`.  Every pop moves
the fork database's head one item back, so the loop ends after at most as many
pops as there are items behind it, and one failing pop.
-/
def popTo
    (target : BlockId Content)
    (db : Database Content Body Rest) :
    Database Content Body Rest × Bool :=
  let behind :=
    match db.forkDb.head with
    | none => 0
    | some head => head.back.length
  popUntil target (behind + 1) db

/-! ## Switching forks -/

/--
Apply the blocks of a branch, oldest first, each in its own session.  The
list returned holds the failing item and those after it.
-/
def applyBranch
    (rules : Rules Content Body Rest) :
    List (ForkItem Content Body) → Database Content Body Rest →
      Database Content Body Rest × List (ForkItem Content Body)
  | [], db => (db, [])
  | item :: items, db =>
      match applyInSession rules db item.data with
      | (db, true) => applyBranch rules items db
      | (db, false) => (db, item :: items)

/-- Take the items out of the fork database. -/
def removeItems
    (items : List (ForkItem Content Body))
    (forkDb : ForkDatabase Content Body) :
    ForkDatabase Content Body :=
  items.foldl (fun forkDb item => forkDb.remove item.id) forkDb

/--
The handler of a failed switch: `bad` and its successors leave the fork
database, and the old branch is popped to and applied again.
-/
def restoreOldBranch
    (rules : Rules Content Body Rest)
    (db : Database Content Body Rest)
    (bad : List (ForkItem Content Body))
    (front : ForkItem Content Body)
    (oldBranch : List (ForkItem Content Body))
    (target : BlockId Content) :
    Database Content Body Rest :=
  let db :=
    { db with forkDb := (removeItems bad db.forkDb).setHead front }
  match popTo target db with
  | (db, false) => db
  | (db, true) => (applyBranch rules oldBranch.reverse db).1

/-- The caller holds the items of both branches. -/
def holding
    (first second : List (ForkItem Content Body)) :
    Database Content Body Rest :=
  { db with
    forkDb :=
      { db.forkDb with
        held :=
          db.forkDb.held ++ first.map ForkItem.handle ++
            second.map ForkItem.handle } }

/-- The fork switch, from `fetch_branch_from` on. -/
def switchForks
    (rules : Rules Content Body Rest)
    (db : Database Content Body Rest)
    (newHead : ForkItem Content Body) :
    Database Content Body Rest × Outcome :=
  match db.forkDb.fetchBranchFrom newHead.id
      db.chain.current.headBlockId with
  | none => (db, .thrown)
  | some (first, second) =>
      match second.head?, second.getLast? with
      | some front, some last =>
          let target := last.previousId
          match popTo target (db.holding first second) with
          | (db, false) => (db, .thrown)
          | (db, true) =>
              match applyBranch rules first.reverse db with
              | (db, []) => (db, .returned true)
              | (db, bad) =>
                  (restoreOldBranch rules db bad front second target,
                    .thrown)
      | _, _ => (db, .thrown)

/-- The part of `_push_block` after the fork database has taken the block. -/
def pushTaken
    (rules : Rules Content Body Rest)
    (db : Database Content Body Rest)
    (newHead : ForkItem Content Body)
    (block : SignedBlock Content Body) :
    Database Content Body Rest × Outcome :=
  if newHead.previousId ≠ db.chain.current.headBlockId then
    if newHead.num > db.chain.current.headBlockNum then
      switchForks rules db newHead
    else
      (db, .returned false)
  else
    match applyInSession rules db block with
    | (db, true) => (db, .returned false)
    | (db, false) =>
        ({ db with forkDb := db.forkDb.remove block.id }, .thrown)

/-- Forget the handles which a call held. -/
def release
    (db : Database Content Body Rest) :
    Database Content Body Rest :=
  { db with forkDb := { db.forkDb with held := [] } }

/--
The database once its fork database has taken a block: the caller holds the
item which `push_block` of the fork database returned.
-/
def taking
    (forkDb : ForkDatabase Content Body)
    (newHead : ForkItem Content Body) :
    Database Content Body Rest :=
  { db with forkDb := { forkDb with held := [newHead.handle] } }

section Frames

omit [DecidableEq Content]

@[simp]
theorem taking_chain
    (forkDb : ForkDatabase Content Body)
    (newHead : ForkItem Content Body) :
    (db.taking forkDb newHead).chain = db.chain :=
  rfl

@[simp]
theorem release_chain
    (db : Database Content Body Rest) :
    db.release.chain = db.chain :=
  rfl

@[simp]
theorem taking_forkDb_head
    (forkDb : ForkDatabase Content Body)
    (newHead : ForkItem Content Body) :
    (db.taking forkDb newHead).forkDb.head = forkDb.head :=
  rfl

@[simp]
theorem release_forkDb_head
    (db : Database Content Body Rest) :
    db.release.forkDb.head = db.forkDb.head :=
  rfl

end Frames

/-- `push_block` without pending transactions and with no skip flags. -/
def pushBlock
    (rules : Rules Content Body Rest)
    (db : Database Content Body Rest)
    (block : SignedBlock Content Body) :
    Database Content Body Rest × Outcome :=
  match db.forkDb.pushBlock block with
  | .error _ => (db, .thrown)
  | .ok forkDb =>
      match forkDb.head with
      -- The fork database has a head once it has taken a block.
      | none => (db, .thrown)
      | some newHead =>
          let (db, outcome) :=
            pushTaken rules (db.taking forkDb newHead) newHead block
          (db.release, outcome)

/-- A sequence of pushes; the caller catches what they throw. -/
def pushAll
    (rules : Rules Content Body Rest)
    (db : Database Content Body Rest)
    (blocks : List (SignedBlock Content Body)) :
    Database Content Body Rest :=
  blocks.foldl (fun db block => (pushBlock rules db block).1) db

end Database

end BMChain.Chain

import BMChain.Chain.PushBlock

/-!
# Pending transactions

Between two blocks a node applies the transactions it receives on top of its
head block, in an undo session of their own.  A block which arrives is applied
without them: `without_pending_transactions` undoes the session, lets the block
through, and applies what is left of them again, after the transactions of the
blocks which were popped.

The functions which pop blocks appear here with the list `_popped_tx` which
they fill; without it they are those of the chain database.
-/

namespace BMChain.Chain

open BMChain.Protocol
open BMChain.Foundation

/-- How transactions act on the state, and what the production of blocks reads. -/
structure NodeRules (Content Body Rest Trx Request : Type) where
  chain : Rules Content Body Rest
  /-- The transactions of a block. -/
  transactions : SignedBlock Content Body → List Trx
  /-- `pack_size(trx) <= maximum_block_size - 256`. -/
  fits : ChainState Content Rest → Trx → Bool
  /-- `_apply_transaction`; a failure returns what it left of the state. -/
  apply : ChainState Content Rest → Trx → Except Rest Rest
  /-- `is_known_transaction`. -/
  known : ChainState Content Rest → Trx → Bool
  /-- The checks of `_generate_block` on the slot, the witness and its key. -/
  mayProduce : ChainState Content Rest → Request → Bool
  /-- `tx.expiration < when`. -/
  expired : Request → Trx → Bool
  trxSize : Trx → Nat
  /-- `max_block_header_size`. -/
  headerSize : Nat
  maximumBlockSize : ChainState Content Rest → Nat
  /-- The block written over transactions, on top of the head block. -/
  assemble : ChainState Content Rest → Request → List Trx →
    SignedBlock Content Body
  /-- `pack_size(pending_block) <= BMCHAIN_MAX_BLOCK_SIZE`. -/
  isSmall : SignedBlock Content Body → Bool

/-- The database with the transactions which wait for a block. -/
structure Node (Content Body Rest Trx : Type) where
  database : Database Content Body Rest
  /-- `_pending_tx`. -/
  pendingTx : List Trx
  /-- `_pending_tx_session.valid()`. -/
  pendingSession : Bool
  /-- `_popped_tx`. -/
  poppedTx : List Trx

/-- How a call of `generate_block` ends. -/
inductive Production where
  | refused
  | tooLarge
  | pushed (outcome : Outcome)
  deriving DecidableEq, Repr

variable {Content Body Rest Trx Request : Type}

/-- The block which is being filled. -/
structure Filling (Content Rest Trx : Type) where
  chain : SnapshotStack (ChainState Content Rest)
  totalBlockSize : Nat
  transactions : List Trx

namespace Node

/-! ## The session of the pending transactions -/

/-- A node which has just opened its database. -/
def opened (db : Database Content Body Rest) : Node Content Body Rest Trx where
  database := db
  pendingTx := []
  pendingSession := false
  poppedTx := []

/-- The node with another chain. -/
def withChain (node : Node Content Body Rest Trx)
    (chain : SnapshotStack (ChainState Content Rest)) :
    Node Content Body Rest Trx :=
  { node with database := { node.database with chain := chain } }

/-- `_pending_tx_session.reset()`. -/
def resetSession (node : Node Content Body Rest Trx) :
    Node Content Body Rest Trx :=
  if node.pendingSession then
    { node.withChain node.database.chain.undo with pendingSession := false }
  else node

/-- Start the session unless there is one. -/
def openSession (node : Node Content Body Rest Trx) :
    Node Content Body Rest Trx :=
  if node.pendingSession then node
  else
    { node.withChain node.database.chain.startSession with
      pendingSession := true }

/-- `clear_pending`. -/
def clearPending (node : Node Content Body Rest Trx) :
    Node Content Body Rest Trx :=
  { node.resetSession with pendingTx := [] }

/--
A transaction in a temporary session, which is squashed when the transaction
is applied and undone when it throws.
-/
def tryTransaction (rules : NodeRules Content Body Rest Trx Request)
    (chain : SnapshotStack (ChainState Content Rest)) (trx : Trx) :
    SnapshotStack (ChainState Content Rest) × Bool :=
  let temporary := chain.startSession
  match rules.apply temporary.current trx with
  | .error rest =>
      ((temporary.update { temporary.current with rest := rest }).undo, false)
  | .ok rest =>
      ((temporary.update { temporary.current with rest := rest }).squash, true)

/-- `_push_transaction`. -/
def pushPending (rules : NodeRules Content Body Rest Trx Request)
    (node : Node Content Body Rest Trx) (trx : Trx) :
    Node Content Body Rest Trx × Bool :=
  let node := node.openSession
  match tryTransaction rules node.database.chain trx with
  | (chain, true) =>
      ({ node.withChain chain with pendingTx := node.pendingTx ++ [trx] }, true)
  | (chain, false) => (node.withChain chain, false)

/-- `push_transaction`. -/
def pushTransaction (rules : NodeRules Content Body Rest Trx Request)
    (node : Node Content Body Rest Trx) (trx : Trx) :
    Node Content Body Rest Trx × Bool :=
  if rules.fits node.database.chain.current trx then node.pushPending rules trx
  else (node, false)

/-- A loop of the destructor of `pending_transactions_restorer`. -/
def restoreTransactions (rules : NodeRules Content Body Rest Trx Request)
    (trxs : List Trx) (node : Node Content Body Rest Trx) :
    Node Content Body Rest Trx :=
  trxs.foldl
    (fun node trx =>
      if rules.known node.database.chain.current trx then node
      else (node.pushPending rules trx).1)
    node

/-! ## Blocks -/

variable [DecidableEq Content]

/-- `pop_block`. -/
def popBlock (rules : NodeRules Content Body Rest Trx Request)
    (node : Node Content Body Rest Trx) :
    Node Content Body Rest Trx × Bool :=
  let node := node.resetSession
  match node.database.fetchBlockById node.database.chain.current.headBlockId with
  | none => (node, false)
  | some block =>
      match node.database.popBlock with
      | (db, false) => ({ node with database := db }, false)
      | (db, true) =>
          ({ node with
              database := db
              poppedTx := rules.transactions block ++ node.poppedTx }, true)

/-- Pop at most so many blocks until the head is `target`. -/
def popUntil (rules : NodeRules Content Body Rest Trx Request)
    (target : BlockId Content) :
    Nat → Node Content Body Rest Trx → Node Content Body Rest Trx × Bool
  | 0, node => (node, decide (node.database.chain.current.headBlockId = target))
  | fuel + 1, node =>
      if node.database.chain.current.headBlockId = target then (node, true)
      else
        match node.popBlock rules with
        | (node, false) => (node, false)
        | (node, true) => popUntil rules target fuel node

/-- The loops `while( head_block_id() != target ) pop_block()`. -/
def popTo (rules : NodeRules Content Body Rest Trx Request)
    (target : BlockId Content) (node : Node Content Body Rest Trx) :
    Node Content Body Rest Trx × Bool :=
  let behind :=
    match node.database.forkDb.head with
    | none => 0
    | some head => head.back.length
  popUntil rules target (behind + 1) node

/-- The handler of a failed switch. -/
def restoreOldBranch (rules : NodeRules Content Body Rest Trx Request)
    (node : Node Content Body Rest Trx)
    (bad : List (ForkItem Content Body)) (front : ForkItem Content Body)
    (oldBranch : List (ForkItem Content Body)) (target : BlockId Content) :
    Node Content Body Rest Trx :=
  let db := { node.database with
    forkDb := (Database.removeItems bad node.database.forkDb).setHead front }
  match popTo rules target { node with database := db } with
  | (node, false) => node
  | (node, true) =>
      { node with
        database :=
          (node.database.applyBranch rules.chain oldBranch.reverse).1 }

/-- The fork switch, from `fetch_branch_from` on. -/
def switchForks (rules : NodeRules Content Body Rest Trx Request)
    (node : Node Content Body Rest Trx) (newHead : ForkItem Content Body) :
    Node Content Body Rest Trx × Outcome :=
  match node.database.forkDb.fetchBranchFrom newHead.id
      node.database.chain.current.headBlockId with
  | none => (node, .thrown)
  | some (first, second) =>
      match second.head?, second.getLast? with
      | some front, some last =>
          match popTo rules last.previousId
              { node with database := node.database.holding first second } with
          | (node, false) => (node, .thrown)
          | (node, true) =>
              match node.database.applyBranch rules.chain first.reverse with
              | (db, []) => ({ node with database := db }, .returned true)
              | (db, bad) =>
                  (({ node with database := db } :
                      Node Content Body Rest Trx).restoreOldBranch rules bad
                        front second last.previousId, .thrown)
      | _, _ => (node, .thrown)

/-- The part of `_push_block` after the fork database has taken the block. -/
def pushTaken (rules : NodeRules Content Body Rest Trx Request)
    (node : Node Content Body Rest Trx) (newHead : ForkItem Content Body)
    (block : SignedBlock Content Body) :
    Node Content Body Rest Trx × Outcome :=
  if newHead.previousId ≠ node.database.chain.current.headBlockId then
    if newHead.num > node.database.chain.current.headBlockNum then
      node.switchForks rules newHead
    else (node, .returned false)
  else
    match node.database.applyInSession rules.chain block with
    | (db, true) => ({ node with database := db }, .returned false)
    | (db, false) =>
        ({ node with
            database := { db with forkDb := db.forkDb.remove block.id } },
          .thrown)

/-- `_push_block`. -/
def pushAlone (rules : NodeRules Content Body Rest Trx Request)
    (node : Node Content Body Rest Trx) (block : SignedBlock Content Body) :
    Node Content Body Rest Trx × Outcome :=
  match node.database.forkDb.pushBlock block with
  | .error _ => (node, .thrown)
  | .ok forkDb =>
      match forkDb.head with
      | none => (node, .thrown)
      | some newHead =>
          let (node, outcome) :=
            pushTaken rules
              { node with database := node.database.taking forkDb newHead }
              newHead block
          ({ node with database := node.database.release }, outcome)

/-- `push_block`. -/
def pushBlock (rules : NodeRules Content Body Rest Trx Request)
    (node : Node Content Body Rest Trx) (block : SignedBlock Content Body) :
    Node Content Body Rest Trx × Outcome :=
  let pending := node.pendingTx
  let (node, outcome) := node.clearPending.pushAlone rules block
  let node := node.restoreTransactions rules node.poppedTx
  (({ node with poppedTx := [] } :
    Node Content Body Rest Trx).restoreTransactions rules pending, outcome)

/-! ## The production of a block -/

omit [DecidableEq Content] in
/-- One round of the loop over the pending transactions. -/
def takePending (rules : NodeRules Content Body Rest Trx Request)
    (request : Request) (maximum : Nat) (filling : Filling Content Rest Trx)
    (trx : Trx) : Filling Content Rest Trx :=
  if rules.expired request trx then filling
  else
    let size := filling.totalBlockSize + rules.trxSize trx
    if maximum ≤ size then filling
    else
      match tryTransaction rules filling.chain trx with
      | (chain, true) => ⟨chain, size, filling.transactions ++ [trx]⟩
      | (chain, false) => { filling with chain := chain }

omit [DecidableEq Content] in
/-- What the loop leaves, on top of the state of the head block. -/
def fill (rules : NodeRules Content Body Rest Trx Request)
    (node : Node Content Body Rest Trx) (request : Request) :
    Filling Content Rest Trx :=
  node.pendingTx.foldl
    (takePending rules request
      (rules.maximumBlockSize node.database.chain.current))
    ⟨node.resetSession.openSession.database.chain, rules.headerSize, []⟩

omit [DecidableEq Content] in
/-- The node after the loop, whose session has been reset. -/
def emptied (rules : NodeRules Content Body Rest Trx Request)
    (node : Node Content Body Rest Trx) (request : Request) :
    Node Content Body Rest Trx :=
  (node.resetSession.openSession.withChain
    (node.fill rules request).chain).resetSession

omit [DecidableEq Content] in
/-- The block which `_generate_block` assembles. -/
def produced (rules : NodeRules Content Body Rest Trx Request)
    (node : Node Content Body Rest Trx) (request : Request) :
    SignedBlock Content Body :=
  rules.assemble (node.emptied rules request).database.chain.current request
    (node.fill rules request).transactions

/-- `generate_block`. -/
def generateBlock (rules : NodeRules Content Body Rest Trx Request)
    (node : Node Content Body Rest Trx) (request : Request) :
    Node Content Body Rest Trx × Production :=
  if rules.mayProduce node.database.chain.current request then
    if rules.isSmall (node.produced rules request) then
      let (node, outcome) :=
        (node.emptied rules request).pushBlock rules
          (node.produced rules request)
      (node, .pushed outcome)
    else (node.emptied rules request, .tooLarge)
  else (node, .refused)

end Node

end BMChain.Chain
